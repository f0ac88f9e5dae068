import VibeOS.Make.Build
import Mathlib.Data.FinEnum
import Mathlib.Data.Set.Finite.List

/-! The graph of the targets, and the order in which their recipes are run. -/
namespace VibeOS.Make
open Function List Option

namespace Makefile
variable (m : Makefile)

def deps (t : Name) : List Name := (m.lookup t).elim [] fun p => p.2.deps

def lines (t : Name) : List Recipe := (m.lookup t).elim [] fun p => p.2.recipe.map fun raw => ⟨t,p.2.deps,raw⟩

def Needs (t d : Name) : Prop := d ∈ m.deps t

abbrev Reach : Name → Name → Prop := Relation.ReflTransGen m.Needs

def OnCycle (t : Name) : Prop := Relation.TransGen m.Needs t t

/-- There is no end of prerequisites below it. -/
abbrev Grounded (t : Name) : Prop := Acc (fun d t => m.Needs t d) t

/-- A target whose rule is built once: it is no pattern's and not phony. -/
def Fixed (t : Name) : Prop := (m.mkFindExact t).isSome = true ∧ m.mkIsPhony t = false

variable {m}

variable {slot : Slot} {t : Name}

lemma lookup_slot {r : Rule} (h : m.lookup t = some (slot,r)) :
    (slot = some t ∧ m.mkFindExact t = some r) ∨ (slot = none ∧ m.mkFindExact t = none) := by
  unfold lookup at h
  split at h
  · next hr =>
    cases h
    exact .inl ⟨rfl,hr⟩
  · next hnone =>
    obtain ⟨r',-,heq⟩ := Option.map_eq_some_iff.mp h
    cases heq
    exact .inr ⟨rfl,hnone⟩

lemma deps_eq {r : Rule} (h : m.lookup t = some (slot,r)) : m.deps t = r.deps := by
  rw [deps,h]
  rfl

lemma needs_of_mem {t d : Name} {r : Rule} (h : m.lookup t = some (slot,r)) (hd : d ∈ r.deps) : m.Needs t d := by
  rw [Needs,deps_eq h]
  exact hd

lemma lines_eq {r : Rule} (h : m.lookup t = some (slot,r)) :
    m.lines t = r.recipe.map fun raw => ⟨t,r.deps,raw⟩ := by
  rw [lines,h]
  rfl

lemma deps_none (h : m.lookup t = none) : m.deps t = [] := by
  rw [deps,h]
  rfl

lemma lines_none (h : m.lookup t = none) : m.lines t = [] := by
  rw [lines,h]
  rfl

lemma target_of_mem_lines {e : Recipe} (h : e ∈ m.lines t) : e.target = t ∧ e.deps = m.deps t := by
  cases hd : m.lookup t with
  | none =>
    rw [lines_none hd] at h
    cases h
  | some p =>
    rw [lines_eq hd] at h
    obtain ⟨raw,-,rfl⟩ := List.mem_map.mp h
    exact ⟨rfl,(deps_eq hd).symm⟩

lemma grounded_of_deps (h : ∀ d ∈ m.deps t, m.Grounded d) : m.Grounded t := Acc.intro t h

lemma Grounded.reach {t d : Name} (h : m.Grounded t) (hr : m.Reach t d) : m.Grounded d := by
  induction hr with
  | refl => exact h
  | tail _ hd ih => exact ih.inv hd

lemma Grounded.not_onCycle (h : m.Grounded t) : ¬m.OnCycle t := by
  have hacc : Acc (Relation.TransGen fun d t => m.Needs t d) t := h.transGen
  intro hc
  have hswap : Relation.TransGen (fun d t => m.Needs t d) t t := Relation.transGen_swap.mp hc
  clear hc h
  induction hacc with
  | intro x _ ih => exact ih x hswap hswap

instance : Finite Name := (finite_length_lt UInt8 mkMaxName).to_subtype

lemma grounded_iff : m.Grounded t ↔ ∀ d, m.Reach t d → ¬m.OnCycle d := by
  constructor
  · exact fun h d hd => (h.reach hd).not_onCycle
  · intro h
    let below (a b : {d // m.Reach t d}) : Prop := Relation.TransGen m.Needs b.1 a.1
    have htrans : IsTrans {d // m.Reach t d} below := ⟨fun a b c hab hbc => hbc.trans hab⟩
    have hirrefl : Std.Irrefl below := ⟨fun a => h a.1 a.2⟩
    have hwf : WellFounded below := Finite.wellFounded_of_trans_of_irrefl below
    have hall : ∀ a : {d // m.Reach t d}, m.Grounded a.1 := fun a => by
      induction a using hwf.induction with
      | _ a ih =>
        exact grounded_of_deps fun d hd => ih ⟨d,a.2.tail hd⟩ (.single hd)
    exact hall ⟨t,.refl⟩

end Makefile

def Clean (rc : List Recipe → ℤ) (log : List Recipe) : Prop := ∀ pre e post, log = pre ++ e :: post → rc (pre ++ [e]) = 0

def Failed (rc : List Recipe → ℤ) (log : List Recipe) : Prop := ∃ pre e, log = pre ++ [e] ∧ Clean rc pre ∧ rc log ≠ 0

lemma Clean.append_one {rc : List Recipe → ℤ} {log : List Recipe} (h : Clean rc log) {e : Recipe} (he : rc (log ++ [e]) = 0) :
    Clean rc (log ++ [e]) := by
  intro pre a post heq
  obtain ⟨c,hc,hpost⟩ | ⟨c,hc,hpost⟩ := List.append_eq_append_iff.mp heq
  · cases c with
    | nil =>
      obtain ⟨rfl,-⟩ := List.cons.inj hpost
      rw [hc,append_nil]
      exact he
    | cons x c =>
      have hlen := congrArg List.length hpost
      simp at hlen
  · cases c with
    | nil =>
      obtain ⟨rfl,-⟩ := List.cons.inj hpost
      rw [append_nil] at hc
      rw [← hc]
      exact he
    | cons x c =>
      obtain ⟨rfl,-⟩ := List.cons.inj hpost
      exact h pre a c hc

namespace Makefile

lemma runRecipe_eq {rc : List Recipe → ℤ} {t : Name} {deps : List Name} {recipe : List Line} {s s' : State} {code : ℤ}
    (h : runRecipe rc t deps recipe s = (code,s')) :
    ∃ ran left, recipe = ran ++ left ∧ s' = { s with log := s.log ++ ran.map fun raw => ⟨t,deps,raw⟩ } ∧ (code = 0 → left = []) := by
  induction recipe generalizing s with
  | nil =>
    cases h
    exact ⟨[],[],rfl,by simp,fun _ => rfl⟩
  | cons raw recipe ih =>
    simp only [runRecipe] at h
    split at h
    · next hrc =>
      cases h
      exact ⟨[raw],recipe,rfl,rfl,fun hzero => absurd hzero hrc⟩
    · obtain ⟨ran,left,rfl,rfl,hleft⟩ := ih h
      exact ⟨raw :: ran,left,rfl,by simp,hleft⟩

lemma runRecipe_clean {rc : List Recipe → ℤ} {t : Name} {deps : List Name} {recipe : List Line} {s s' : State} {code : ℤ}
    (h : runRecipe rc t deps recipe s = (code,s')) (hs : Clean rc s.log) :
    (code = 0 ∧ Clean rc s'.log) ∨ (code ≠ 0 ∧ Failed rc s'.log) := by
  induction recipe generalizing s with
  | nil =>
    cases h
    exact .inl ⟨rfl,hs⟩
  | cons raw recipe ih =>
    simp only [runRecipe] at h
    split at h
    · next hrc =>
      cases h
      exact .inr ⟨hrc,s.log,_,rfl,hs,hrc⟩
    · next hrc => exact ih h (hs.append_one (not_not.mp hrc))

end Makefile

lemma found_some (s : State) (slot : Slot) (x : Name) : (s.found slot).inProgress (some x) = s.inProgress (some x) ∧
    (s.found slot).built (some x) = s.built (some x) := by
  unfold State.found
  split
  · exact ⟨update_of_ne (some_ne_none x) false s.inProgress,
      update_of_ne (some_ne_none x) false s.built⟩
  · exact ⟨rfl,rfl⟩

lemma found_log (s : State) (slot : Slot) : (s.found slot).log = s.log ∧ (s.found slot).runs = s.runs ∧
    (s.found slot).visits = s.visits := by
  unfold State.found
  split <;> exact ⟨rfl,rfl,rfl⟩

def Done (m : Makefile) (s : State) (t : Name) : Prop :=
  ∀ d, m.Reach t d → m.lines d <:+: s.log ∧ (m.lookup d ≠ none → d ∈ s.runs)

lemma Done.mono {m : Makefile} {s s' : State} {t : Name} (h : Done m s t) (hlog : s.log <+: s'.log)
    (hruns : ∀ d ∈ s.runs, d ∈ s'.runs) : Done m s' t := fun d hd =>
  ⟨(h d hd).1.trans hlog.isInfix,fun hr => hruns d ((h d hd).2 hr)⟩

/-- The recipes that were run are of targets without cycles below them, each after those of its
prerequisites, and a target that is marked as built is done. -/
structure Tidy (m : Makefile) (s : State) : Prop where
  entries : ∀ e ∈ s.log, e ∈ m.lines e.target
  grounded : ∀ e ∈ s.log, m.Grounded e.target
  order : ∀ pre e post, s.log = pre ++ e :: post → ∀ d ∈ m.deps e.target, m.lines d <:+: pre
  built : ∀ t, s.built (some t) = true → m.Fixed t ∧ m.Grounded t ∧ Done m s t

namespace Tidy
variable {m : Makefile} {s s' : State}

lemma of_eq (h : Tidy m s) (hlog : s'.log = s.log) (hruns : s'.runs = s.runs)
    (hbuilt : ∀ t, s'.built (some t) = s.built (some t)) : Tidy m s' := by
  obtain ⟨h₁,h₂,h₃,h₄⟩ := h
  refine ⟨?_,?_,?_,fun t ht => ?_⟩
  · rwa [hlog]
  · rwa [hlog]
  · rwa [hlog]
  · rw [hbuilt] at ht
    obtain ⟨hf,hg,hd⟩ := h₄ t ht
    refine ⟨hf,hg,hd.mono ?_ ?_⟩
    · rw [hlog]
    · rw [hruns]
      exact fun d hd => hd

lemma found (h : Tidy m s) (slot : Slot) : Tidy m (s.found slot) :=
  h.of_eq (found_log s slot).1 (found_log s slot).2.1 fun t => (found_some s slot t).2

lemma begin (h : Tidy m s) (slot : Slot) (t : Name) : Tidy m (s.begin slot t) := h.of_eq rfl rfl fun _ => rfl

lemma leave (h : Tidy m s) (slot : Slot) : Tidy m (s.leave slot) := h.of_eq rfl rfl fun _ => rfl

lemma run (h : Tidy m s) {t : Name} {slot : Slot} {r : Rule} (hlook : m.lookup t = some (slot,r))
    (hdeps : ∀ d ∈ m.deps t, m.Grounded d ∧ Done m s d) {ran left : List Line} (hrecipe : r.recipe = ran ++ left) :
    Tidy m { s with runs := t :: s.runs, log := s.log ++ ran.map fun raw => ⟨t,r.deps,raw⟩ } := by
  have hlines : ∀ e ∈ ran.map fun raw => (⟨t,r.deps,raw⟩ : Recipe), e ∈ m.lines e.target ∧ e.target = t := fun e he => by
    obtain ⟨raw,hraw,rfl⟩ := List.mem_map.mp he
    refine ⟨?_,rfl⟩
    rw [Makefile.lines_eq hlook,hrecipe,map_append]
    exact mem_append_left _ (List.mem_map_of_mem hraw)
  refine ⟨fun e he => ?_,fun e he => ?_,fun pre e post heq d hd => ?_,fun x hx => ?_⟩
  · obtain he | he := List.mem_append.mp he
    · exact h.entries e he
    · exact (hlines e he).1
  · obtain he | he := List.mem_append.mp he
    · exact h.grounded e he
    · rw [(hlines e he).2]
      exact Makefile.grounded_of_deps fun d hd => (hdeps d hd).1
  · obtain ⟨c,hpre,hran⟩ | ⟨c,hlog,hpost⟩ := List.append_eq_append_iff.mp heq
    · have he : e.target = t := (hlines e (by rw [hran]; exact mem_append_right _ mem_cons_self)).2
      rw [he] at hd
      rw [hpre]
      exact ((hdeps d hd).2 d .refl).1.trans (prefix_append _ _).isInfix
    · cases c with
      | nil =>
        rw [nil_append] at hpost
        have he : e.target = t := (hlines e (by rw [← hpost]; exact mem_cons_self)).2
        rw [he] at hd
        rw [append_nil] at hlog
        rw [← hlog]
        exact ((hdeps d hd).2 d .refl).1
      | cons a c =>
        obtain ⟨rfl,-⟩ := List.cons.inj hpost
        exact h.order pre e c hlog d hd
  · obtain ⟨hf,hg,hd⟩ := h.built x hx
    exact ⟨hf,hg,hd.mono (prefix_append _ _) fun d hd => mem_cons_of_mem _ hd⟩

lemma finish (h : Tidy m s) {t : Name} {slot : Slot} {r : Rule} (hlook : m.lookup t = some (slot,r))
    (ht : m.Grounded t ∧ Done m s t) : Tidy m (s.finish slot (m.mkIsPhony t)) := by
  refine ⟨h.entries,h.grounded,h.order,fun x hx => ?_⟩
  obtain ⟨rfl,hexact⟩ | ⟨rfl,-⟩ := Makefile.lookup_slot hlook
  · by_cases hxt : x = t
    · subst hxt
      have hphony : m.mkIsPhony x = false := by simpa [State.finish] using hx
      exact ⟨⟨by rw [hexact]; rfl,hphony⟩,ht⟩
    · have hne : (some x : Slot) ≠ some t := fun h => hxt (some.inj h)
      exact h.built x (by simpa [State.finish,State.leave,update_of_ne hne] using hx)
  · exact h.built x (by simpa [State.finish,State.leave] using hx)

end Tidy

lemma Built.grows {m : Makefile} {rc : List Recipe → ℤ} {ds : List Name} {s s' : State} {ok : Bool}
    (h : Built m rc ds s ok s') : s.log <+: s'.log ∧ ∀ t ∈ s.runs, t ∈ s'.runs := by
  induction h with
  | nil s => exact ⟨prefix_rfl,fun _ ht => ht⟩
  | leaf _ _ ih => exact ih
  | @cached _ _ s _ _ slot _ _ _ _ ih =>
    rw [(found_log s slot).1,(found_log s slot).2.1] at ih
    exact ih
  | @cycle _ _ s slot _ _ _ _ =>
    rw [(found_log s slot).1,(found_log s slot).2.1]
    exact ⟨prefix_rfl,fun _ ht => ht⟩
  | @depFail _ _ s _ slot _ _ _ _ _ ih =>
    simp only [State.begin,(found_log s slot).1,(found_log s slot).2.1] at ih
    exact ih
  | @recipeFail _ _ s _ _ slot _ _ _ _ _ _ hrun _ ih =>
    simp only [State.begin,(found_log s slot).1,(found_log s slot).2.1] at ih
    obtain ⟨ran,left,-,rfl,-⟩ := Makefile.runRecipe_eq hrun
    exact ⟨ih.1.trans (prefix_append _ _),fun t ht => mem_cons_of_mem _ (ih.2 t ht)⟩
  | @done _ _ s _ _ _ _ slot _ _ _ _ _ hrun _ ih ih' =>
    simp only [State.begin,(found_log s slot).1,(found_log s slot).2.1] at ih
    obtain ⟨ran,left,-,rfl,-⟩ := Makefile.runRecipe_eq hrun
    exact ⟨(ih.1.trans (prefix_append _ _)).trans ih'.1,fun t ht => ih'.2 t (mem_cons_of_mem _ (ih.2 t ht))⟩

lemma Built.tidy {m : Makefile} {rc : List Recipe → ℤ} {ds : List Name} {s s' : State} {ok : Bool}
    (h : Built m rc ds s ok s') (hs : Tidy m s) :
    Tidy m s' ∧ (ok = true → ∀ d ∈ ds, m.Grounded d ∧ Done m s' d) := by
  induction h with
  | nil s => exact ⟨hs,fun _ d hd => by cases hd⟩
  | @leaf d ds s s' ok hd rest ih =>
    obtain ⟨ht,hok⟩ := ih hs
    refine ⟨ht,fun htrue x hx => ?_⟩
    obtain rfl | hx := List.mem_cons.mp hx
    · have hdeps : m.deps x = [] := Makefile.deps_none hd
      have hend : ∀ d, m.Reach x d → d = x := fun d hr => by
        obtain rfl | ⟨b,hb,-⟩ := hr.cases_head
        · rfl
        · rw [Makefile.Needs,hdeps] at hb
          cases hb
      refine ⟨Makefile.grounded_of_deps fun d hd => ?_,fun d hr => ?_⟩
      · rw [hdeps] at hd
        cases hd
      · obtain rfl := hend d hr
        rw [Makefile.lines_none hd]
        exact ⟨ nil_infix,fun hne => absurd hd hne⟩
    · exact hok htrue x hx
  | @cached d ds s s' ok slot r hd hb rest ih =>
    have hf := hs.found slot
    obtain ⟨ht,hok⟩ := ih hf
    refine ⟨ht,fun htrue x hx => ?_⟩
    obtain rfl | hx := List.mem_cons.mp hx
    · obtain ⟨rfl,-⟩ | ⟨rfl,-⟩ := Makefile.lookup_slot hd
      · obtain ⟨-,hg,hdone⟩ := hf.built x hb
        exact ⟨hg,hdone.mono rest.grows.1 rest.grows.2⟩
      · simp [State.found] at hb
    · exact hok htrue x hx
  | cycle => exact ⟨hs.found _,fun hf => by cases hf⟩
  | depFail hd hb hp _ ih => exact ⟨(ih ((hs.found _).begin _ _)).1.leave _,fun hf => by cases hf⟩
  | recipeFail hd hb hp _ hrun hcode ih =>
    obtain ⟨ht,hok⟩ := ih ((hs.found _).begin _ _)
    obtain ⟨ran,left,hrecipe,rfl,-⟩ := Makefile.runRecipe_eq hrun
    refine ⟨Tidy.leave ?_ _,fun hf => by cases hf⟩
    exact ht.run hd (fun x hx => hok rfl x (Makefile.deps_eq hd ▸ hx)) hrecipe
  | @done d ds s s₁ s₂ s' ok slot r hd hb hp deps hrun rest ih ih' =>
    obtain ⟨ht,hok⟩ := ih ((hs.found _).begin _ _)
    obtain ⟨ran,left,hrecipe,rfl,hleft⟩ := Makefile.runRecipe_eq hrun
    obtain rfl := hleft rfl
    rw [append_nil] at hrecipe
    subst hrecipe
    have hdeps : ∀ x ∈ m.deps d, m.Grounded x ∧ Done m s₁ x := fun x hx => hok rfl x (Makefile.deps_eq hd ▸ hx)
    have hrunTidy := ht.run hd hdeps (append_nil _).symm
    have hg : m.Grounded d := Makefile.grounded_of_deps fun x hx => (hdeps x hx).1
    have hdone : Done m { s₁ with runs := d :: s₁.runs, log := s₁.log ++ r.recipe.map fun raw => ⟨d,r.deps,raw⟩ } d := by
      intro x hr
      obtain rfl | ⟨b,hb',hbx⟩ := hr.cases_head
      · rw [Makefile.lines_eq hd]
        exact ⟨(suffix_append _ _).isInfix,fun _ => mem_cons_self⟩
      · have hmono : Done m { s₁ with runs := d :: s₁.runs, log := s₁.log ++ r.recipe.map fun raw => ⟨d,r.deps,raw⟩ } b :=
          (hdeps b hb').2.mono (prefix_append _ _) fun y hy => mem_cons_of_mem _ hy
        exact hmono x hbx
    obtain ⟨ht',hok'⟩ := ih' (hrunTidy.finish hd ⟨hg,hdone⟩)
    refine ⟨ht',fun htrue x hx => ?_⟩
    obtain rfl | hx := List.mem_cons.mp hx
    · exact ⟨hg,hdone.mono rest.grows.1 rest.grows.2⟩
    · exact hok' htrue x hx

end VibeOS.Make

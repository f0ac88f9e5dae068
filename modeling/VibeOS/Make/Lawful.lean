import VibeOS.Make.Once

/-! When `mk_build` does what a make does. -/
namespace VibeOS.Make
open List

variable {m : Makefile} {rc : List Recipe → ℤ} {ds : List Name} {s s' : State} {ok : Bool} {root : Name}

def begunLines (m : Makefile) (runs : List Name) : List Recipe := runs.reverse.flatMap m.lines

lemma begunLines_cons (t : Name) (runs : List Name) : begunLines m (t :: runs) = begunLines m runs ++ m.lines t := by
  simp [begunLines]

lemma Built.logged (h : Built m rc ds s ok s') (hs : s.log = begunLines m s.runs) :
    ∃ cut, s'.log ++ cut = begunLines m s'.runs ∧ (ok = true → cut = []) := by
  induction h with
  | nil => exact ⟨[],by rw [append_nil,hs],fun _ => rfl⟩
  | leaf _ _ ih => exact ih hs
  | @cached _ _ s _ _ slot _ _ _ _ ih => exact ih (by rw [(found_log s slot).1,(found_log s slot).2.1,hs])
  | @cycle _ _ s slot =>
    exact ⟨[],by rw [append_nil,(found_log s slot).1,(found_log s slot).2.1,hs],fun h => by cases h⟩
  | @depFail _ _ s _ slot _ _ _ _ _ ih =>
    obtain ⟨cut,hcut,-⟩ := ih (by simp only [State.begin,(found_log s slot).1,(found_log s slot).2.1,hs])
    exact ⟨cut,hcut,fun h => by cases h⟩
  | @recipeFail d _ s s₁ _ slot r _ hd _ _ _ hrun _ ih =>
    obtain ⟨cut,hcut,hnil⟩ := ih (by simp only [State.begin,(found_log s slot).1,(found_log s slot).2.1,hs])
    obtain ⟨ran,left,hrecipe,rfl,-⟩ := Makefile.runRecipe_eq hrun
    obtain rfl := hnil rfl
    rw [append_nil] at hcut
    refine ⟨left.map fun raw => ⟨d,r.deps,raw⟩,?_,fun h => by cases h⟩
    simp only [State.leave]
    rw [begunLines_cons,← hcut,Makefile.lines_eq hd,hrecipe,map_append,append_assoc]
  | @done d _ s s₁ _ _ _ slot _ hd _ _ _ hrun _ ih ih' =>
    obtain ⟨cut,hcut,hnil⟩ := ih (by simp only [State.begin,(found_log s slot).1,(found_log s slot).2.1,hs])
    obtain ⟨ran,left,hrecipe,rfl,hleft⟩ := Makefile.runRecipe_eq hrun
    obtain rfl := hnil rfl
    obtain rfl := hleft rfl
    rw [append_nil] at hcut hrecipe
    refine ih' ?_
    simp only [State.finish,State.leave]
    rw [begunLines_cons,← hcut,Makefile.lines_eq hd,hrecipe]

lemma filter_begunLines (runs : List Name) (p : Name) :
    (begunLines m runs).filter (fun e => e.target = p) = (replicate (runs.count p) (m.lines p)).flatten := by
  induction runs with
  | nil => rfl
  | cons t runs ih =>
    rw [begunLines_cons,filter_append,ih,count_cons]
    by_cases htp : t = p
    · subst htp
      have hall : (m.lines t).filter (fun e => e.target = t) = m.lines t :=
        List.filter_eq_self.mpr fun e he => decide_eq_true (Makefile.target_of_mem_lines he).1
      rw [hall,if_pos (beq_self_eq_true t),replicate_succ',flatten_append]
      simp
    · have hnone : (m.lines t).filter (fun e => e.target = p) = [] :=
        List.filter_eq_nil_iff.mpr fun e he => by
          rw [(Makefile.target_of_mem_lines he).1]
          exact fun heq => htp (of_decide_eq_true heq)
      rw [hnone,if_neg fun heq => htp (eq_of_beq heq),append_nil,Nat.add_zero]

lemma flatten_replicate_eq {α : Type} {k : ℕ} {l : List α} (h : (replicate k l).flatten = l) (hl : l ≠ []) :
    k = 1 := by
  have hlen := congrArg List.length h
  rw [length_flatten] at hlen
  simp only [map_replicate,sum_replicate_nat] at hlen
  exact Nat.eq_of_mul_eq_mul_right (List.length_pos_iff.mpr hl) (hlen.trans (Nat.one_mul _).symm)

lemma flatten_replicate_start {α : Type} {k : ℕ} {l : List α} (hk : k ≤ 1) : (replicate k l).flatten <+: l := by
  obtain rfl | rfl : k = 0 ∨ k = 1 := by omega
  · exact nil_prefix
  · simp

def Acyclic (m : Makefile) (root : Name) : Prop := ∀ d, m.Reach root d → ¬m.OnCycle d

/-- What the build of a target comes to: its result and its log. -/
structure Lawful (m : Makefile) (rc : List Recipe → ℤ) (root : Name) (result : ℤ) (log : List Recipe) : Prop where
  /-- a line is one of its target, with its prerequisites, whose recipes were all run before -/
  order : ∀ pre e post, log = pre ++ e :: post →
    e ∈ m.lines e.target ∧ e.deps = m.deps e.target ∧ ∀ d ∈ m.deps e.target, m.lines d <:+: pre
  /-- nothing is run after a line that fails -/
  stops : Clean rc log ∨ Failed rc log
  cycle : ¬Acyclic m root → result ≠ 0 ∧ ∀ e ∈ log, ¬m.OnCycle e.target
  success : Acyclic m root → result = 0 → Clean rc log ∧ ∀ p, m.Reach root p → m.mkIsPhony p = false →
    log.filter (fun e => e.target = p) = m.lines p
  failure : Acyclic m root → result ≠ 0 → Failed rc log ∧ ∀ p, m.Reach root p → m.mkIsPhony p = false →
    log.filter (fun e => e.target = p) <+: m.lines p

/-- Whatever the recipes come to, the build ends, and is lawful. -/
def Makes (m : Makefile) (root : Name) : Prop :=
  ∀ rc, ∃ fuel result s, m.mkBuild rc fuel root .start = some (result,s) ∧ Lawful m rc root result s.log

/-- What the build relies on: a target of a pattern with a recipe is asked for once, and the first way into a
cycle comes to a target with a rule of its own again. -/
structure Sound (m : Makefile) (root : Name) : Prop where
  once : Acyclic m root → ∀ p, m.Reach root p → m.mkIsPhony p = false → m.mkFindExact p = none → m.lines p ≠ [] →
    Once m root p
  returns : ¬Acyclic m root → Returns m [] root

lemma Sound.count_le (h : Sound m root) (hg : m.Grounded root) (hb : Built m rc [root] .start ok s') {p : Name}
    (hp : m.Reach root p) (hphony : m.mkIsPhony p = false) (hlines : m.lines p ≠ []) : s'.runs.count p ≤ 1 := by
  obtain ⟨begun,ran,hbegun,hran,hledger⟩ := hb.ledger tidy_start
  obtain rfl : s'.visits = begun := hbegun.trans (append_nil _)
  obtain rfl : s'.runs = ran := hran.trans (append_nil _)
  refine (hledger.le p).trans ?_
  cases hexact : m.mkFindExact p with
  | some r => exact (hb.flagged flagged_start).2 p ⟨by rw [hexact]; rfl,hphony⟩
  | none => exact (h.once (Makefile.grounded_iff.mp hg) p hp hphony hexact hlines).count_le hg hb

lemma Built.lawful (h : Built m rc [root] .start ok s') (hsound : Sound m root) {result : ℤ}
    (hok : result = 0 ↔ ok = true) : Lawful m rc root result s'.log := by
  obtain ⟨htidy,hdone⟩ := h.tidy tidy_start
  obtain ⟨cut,hcut,hnil⟩ := h.logged rfl
  have hclean : Clean rc State.start.log := fun pre e post heq => by simp [State.start] at heq
  obtain ⟨hstop,hfail⟩ := h.failed hclean
  -- what is run of one target
  have hpart : Acyclic m root → ∀ p, m.Reach root p → m.mkIsPhony p = false →
      s'.log.filter (fun e => e.target = p) <+: m.lines p := by
    intro hacyclic p hp hphony
    have hpre : s'.log.filter (fun e => e.target = p)
        <+: (replicate (s'.runs.count p) (m.lines p)).flatten := by
      rw [← filter_begunLines,← hcut,filter_append]
      exact prefix_append _ _
    by_cases hlines : m.lines p = []
    · rw [hlines] at hpre ⊢
      simpa using hpre
    · exact hpre.trans (flatten_replicate_start
        (hsound.count_le (Makefile.grounded_iff.mpr hacyclic) h hp hphony hlines))
  refine ⟨fun pre e post heq => ?_,hstop.imp_right And.right,fun hcyclic => ⟨fun hzero => ?_,fun e he => ?_⟩,
    fun hacyclic hzero => ?_,fun hacyclic hne => ⟨?_,hpart hacyclic⟩⟩
  · have hmem := htidy.entries e (by rw [heq]; exact mem_append_right _ mem_cons_self)
    exact ⟨hmem,(Makefile.target_of_mem_lines hmem).2,htidy.order pre e post heq⟩
  · exact hcyclic (Makefile.grounded_iff.mp (hdone (hok.mp hzero) root (mem_singleton_self root)).1)
  · exact (htidy.grounded e he).not_onCycle
  · have htrue := hok.mp hzero
    refine ⟨hstop.resolve_right fun hf => ?_,fun p hp hphony => ?_⟩
    · rw [htrue] at hf
      cases hf.1
    · obtain hinside := ((hdone htrue root (mem_singleton_self root)).2 p hp).1
      have hall : m.lines p = (m.lines p).filter fun e => e.target = p :=
        (List.filter_eq_self.mpr fun e he => decide_eq_true (Makefile.target_of_mem_lines he).1).symm
      have hle := (hinside.sublist.filter fun e => e.target = p).length_le
      rw [← hall] at hle
      exact (hpart hacyclic p hp hphony).eq_of_length_le hle
  · refine hfail (fun d hd => ?_) (fun x hx => by cases hx) ?_
    · rw [List.mem_singleton.mp hd]
      exact Makefile.grounded_iff.mpr hacyclic
    · cases ok with
      | true => exact absurd (hok.mpr rfl) hne
      | false => rfl

/-- `mk_build` makes a target as it should where its Makefile is sound for it, and only there. -/
theorem makes_iff (m : Makefile) (root : Name) : Makes m root ↔ Sound m root := by
  constructor
  · intro h
    obtain ⟨fuel,result,s,hrun,hlaw⟩ := h fun _ => 0
    have hbuilt := Makefile.built_of_mkBuild hrun
    have hnever : ¬Failed (fun _ => 0) s.log := fun ⟨_,_,_,_,hne⟩ => hne rfl
    refine ⟨fun hacyclic p hp hphony hexact hlines => ?_,fun hcyclic => ?_⟩
    · have hzero : result = 0 := by
        by_contra hne
        exact hnever (hlaw.failure hacyclic hne).1
      subst hzero
      have hg := Makefile.grounded_iff.mpr hacyclic
      have hfilter := (hlaw.success hacyclic rfl).2 p hp hphony
      obtain ⟨cut,hcut,hnil⟩ := hbuilt.logged rfl
      rw [hnil rfl,append_nil] at hcut
      rw [hcut,filter_begunLines] at hfilter
      obtain ⟨begun,ran,hbegun,hran,hledger⟩ := hbuilt.ledger tidy_start
      have hcount : s.visits.count p = 1 := by
        rw [hbegun,State.start,append_nil,(hledger.all rfl p).1,← append_nil ran]
        exact (congrArg (List.count p) hran).symm.trans (flatten_replicate_eq hfilter hlines)
      refine once_of_count hg hbuilt hp ⟨fun hnone => hlines (Makefile.lines_none hnone),fun hf => ?_⟩ hcount
      rw [Makefile.Fixed,hexact] at hf
      cases hf.1
    · have hbad : ¬m.Grounded root := fun hg => hcyclic (Makefile.grounded_iff.mp hg)
      exact returns_of_built (fun _ => rfl) hbuilt tidy_start (fun x => by simp [State.start]) (fun x hx => by cases hx)
        (show [root] = [] ++ root :: [] from rfl) (fun x hx => by cases hx) hbad
  · intro hsound rc
    have hbuilt : ∃ ok s, Built m rc [root] .start ok s := by
      by_cases hacyclic : Acyclic m root
      · exact built_of_grounded (Makefile.grounded_iff.mpr hacyclic) _
      · exact built_of_returns (hsound.returns hacyclic) _ tidy_start fun x hx => by cases hx
    obtain ⟨ok,s,hbuilt⟩ := hbuilt
    obtain ⟨fuel,result,hrun,hok⟩ := Makefile.mkBuild_of_built hbuilt
    exact ⟨fuel,result,s,hrun,hbuilt.lawful hsound hok⟩

/-- `all` -/
def all : Name := ⟨[97,108,108],by decide⟩

/-- `lib` -/
def lib : Name := ⟨[108,105,98],by decide⟩

/-- `x.o` -/
def xObject : Name := ⟨[120,46,111],by decide⟩

/-- `x.c` -/
def xSource : Name := ⟨[120,46,99],by decide⟩

/-- `all: x.o lib`, `lib: x.o`, and `%.o: %.c` with a line `cc $<`. -/
def twiceAsked : Makefile where
  rules := [⟨all,[xObject,lib],[]⟩,⟨lib,[xObject],[]⟩]
  patterns := [⟨⟨[],by decide⟩,⟨[46,111],by decide⟩,⟨[],by decide⟩,⟨[46,99],by decide⟩,[[99,99,32,36,60]]⟩]
  phony := []

lemma twiceAsked_acyclic : Acyclic twiceAsked all := by
  have hall : twiceAsked.deps all = [xObject,lib] := by decide
  have hlib : twiceAsked.deps lib = [xObject] := by decide
  have hobject : twiceAsked.deps xObject = [xSource] := by decide
  have hsource : twiceAsked.deps xSource = [] := by decide
  have gsource : twiceAsked.Grounded xSource := Makefile.grounded_of_deps fun d hd => by
    rw [hsource] at hd
    cases hd
  have gobject : twiceAsked.Grounded xObject := Makefile.grounded_of_deps fun d hd => by
    rw [hobject] at hd
    rwa [List.mem_singleton.mp hd]
  have glib : twiceAsked.Grounded lib := Makefile.grounded_of_deps fun d hd => by
    rw [hlib] at hd
    rwa [List.mem_singleton.mp hd]
  refine Makefile.grounded_iff.mp (Makefile.grounded_of_deps fun d hd => ?_)
  rw [hall] at hd
  obtain rfl | hd := List.mem_cons.mp hd
  · exact gobject
  · rwa [List.mem_singleton.mp hd]

lemma twiceAsked_not_once : ¬Once twiceAsked all xObject := by
  have hlib : twiceAsked.Reach all lib := .single (show lib ∈ twiceAsked.deps all by decide)
  have hne : lib ≠ all := by decide
  have htwo : ∀ q, ¬∀ x, twiceAsked.Reach all x → xObject ∈ twiceAsked.deps x → x = q := by
    intro q honly
    have h₁ := honly all .refl (by decide)
    have h₂ := honly lib hlib (by decide)
    exact hne (h₂.trans h₁.symm)
  have hroot : xObject ≠ all := by decide
  generalize hx : xObject = x at hroot
  intro h
  cases h with
  | root => exact hroot rfl
  | fixed _ _ honly | loose _ _ honly => exact htwo _ (hx ▸ honly)

/-- The compiler is run twice for it. -/
theorem object_made_twice : ¬∀ m root, Makes m root := by
  intro h
  have hreach : twiceAsked.Reach all xObject := .single (show xObject ∈ twiceAsked.deps all by decide)
  exact twiceAsked_not_once (((makes_iff twiceAsked all).mp (h twiceAsked all)).once twiceAsked_acyclic xObject hreach
    (by decide) (by rfl) (by decide))

end VibeOS.Make

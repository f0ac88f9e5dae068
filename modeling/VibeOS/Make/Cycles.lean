import VibeOS.Make.Order

/-! When `mk_build` comes to an end, and that a cycle makes it fail. -/
namespace VibeOS.Make
open Function List Option

variable {m : Makefile} {rc : List Recipe → ℤ} {ds : List Name} {s s' : State} {ok : Bool}

variable {d : Name} {slot : Slot}

lemma leave_inProgress {s₁ : State} (hp : (s.found slot).inProgress slot = false)
    (h : ∀ x, s₁.inProgress (some x) = ((s.found slot).begin slot d).inProgress (some x)) (x : Name) :
    (s₁.leave slot).inProgress (some x) = s.inProgress (some x) := by
  by_cases hx : some x = slot
  · subst hx
    rw [(found_some s (some x) x).1] at hp
    rw [hp]
    exact update_self ..
  · simp only [State.leave,update_of_ne hx,h,State.begin]
    exact (found_some s slot x).1

lemma Built.inProgress (h : Built m rc ds s ok s') (x : Name) : s'.inProgress (some x) = s.inProgress (some x) := by
  induction h generalizing x with
  | nil => rfl
  | leaf _ _ ih => exact ih x
  | cached _ _ _ ih => exact (ih x).trans (found_some _ _ x).1
  | cycle => exact (found_some _ _ x).1
  | depFail _ _ hp _ ih => exact leave_inProgress hp ih x
  | recipeFail _ _ hp _ hrun _ ih =>
    obtain ⟨_,_,-,rfl,-⟩ := Makefile.runRecipe_eq hrun
    exact leave_inProgress hp ih x
  | done _ _ hp _ hrun _ ih ih' =>
    obtain ⟨_,_,-,rfl,-⟩ := Makefile.runRecipe_eq hrun
    exact (ih' x).trans (leave_inProgress hp ih x)

/-- Nothing in progress is needed for the targets. -/
def Clear (m : Makefile) (s : State) (ds : List Name) : Prop :=
  ∀ x, s.inProgress (some x) = true → ∀ d ∈ ds, ¬m.Reach d x

lemma Clear.of_eq {s₁ : State} {ds₁ : List Name} (h : Clear m s ds) (hp : ∀ x, s₁.inProgress (some x) = s.inProgress (some x))
    (hds : ∀ d ∈ ds₁, d ∈ ds) : Clear m s₁ ds₁ := fun x hx d hd => h x ((hp x).symm.trans hx) d (hds d hd)

lemma Clear.begin {r : Rule} (h : Clear m s (d :: ds)) (hd : m.lookup d = some (slot,r))
    (hg : m.Grounded d) : Clear m ((s.found slot).begin slot d) r.deps := by
  intro x hx y hy hr
  have hneeds : m.Needs d y := Makefile.needs_of_mem hd hy
  by_cases hxs : some x = slot
  · obtain ⟨rfl,-⟩ | ⟨rfl,-⟩ := Makefile.lookup_slot hd
    · obtain rfl := some.inj hxs
      exact hg.not_onCycle (Relation.TransGen.head' hneeds hr)
    · cases hxs
  · have hs : s.inProgress (some x) = true := by
      rw [← (found_some s slot x).1]
      simpa [State.begin,update_of_ne hxs] using hx
    exact h x hs d mem_cons_self (hr.head hneeds)

lemma not_cycle_of_clear {r : Rule} (h : Clear m s (d :: ds)) (hd : m.lookup d = some (slot,r))
    (hp : (s.found slot).inProgress slot = true) : False := by
  obtain ⟨rfl,-⟩ | ⟨rfl,-⟩ := Makefile.lookup_slot hd
  · rw [(found_some s (some d) d).1] at hp
    exact h d hp d mem_cons_self .refl
  · simp [State.found] at hp

lemma Built.failed (h : Built m rc ds s ok s') (hs : Clean rc s.log) :
    (Clean rc s'.log ∨ ok = false ∧ Failed rc s'.log) ∧
      ((∀ d ∈ ds, m.Grounded d) → Clear m s ds → ok = false → Failed rc s'.log) := by
  induction h with
  | nil => exact ⟨.inl hs,fun _ _ hf => by cases hf⟩
  | leaf _ _ ih =>
    obtain ⟨hc,hf⟩ := ih hs
    exact ⟨hc,fun hg hclear => hf (fun x hx => hg x (mem_cons_of_mem _ hx))
      (hclear.of_eq (fun _ => rfl) fun x hx => mem_cons_of_mem _ hx)⟩
  | @cached _ _ s _ _ slot _ _ _ _ ih =>
    obtain ⟨hc,hf⟩ := ih ((found_log s slot).1.symm ▸ hs)
    exact ⟨hc,fun hg hclear => hf (fun x hx => hg x (mem_cons_of_mem _ hx))
      (hclear.of_eq (fun x => (found_some s slot x).1) fun x hx => mem_cons_of_mem _ hx)⟩
  | @cycle _ _ s slot _ hd _ hp =>
    exact ⟨.inl ((found_log s slot).1.symm ▸ hs),fun _ hclear => (not_cycle_of_clear hclear hd hp).elim⟩
  | @depFail _ _ s _ slot _ hd _ _ _ ih =>
    obtain ⟨hc,hf⟩ := ih ((found_log s slot).1.symm ▸ hs)
    refine ⟨hc,fun hg hclear hfalse => ?_⟩
    have hg' := hg _ mem_cons_self
    exact hf (fun x hx => hg'.inv (Makefile.needs_of_mem hd hx)) (hclear.begin hd hg') hfalse
  | @recipeFail _ _ s _ _ slot _ _ _ _ _ _ hrun hcode ih =>
    obtain ⟨hc,-⟩ := ih ((found_log s slot).1.symm ▸ hs)
    have hclean := hc.resolve_right fun h => by cases h.1
    obtain ⟨hzero,-⟩ | ⟨-,hfailed⟩ := Makefile.runRecipe_clean hrun hclean
    · exact absurd hzero hcode
    · exact ⟨.inr ⟨rfl,hfailed⟩,fun _ _ _ => hfailed⟩
  | @done _ _ s s₁ s₂ _ _ slot _ hd _ hp deps hrun _ ih ih' =>
    obtain ⟨hc,-⟩ := ih ((found_log s slot).1.symm ▸ hs)
    have hclean := hc.resolve_right fun h => by cases h.1
    obtain ⟨-,hclean'⟩ | ⟨hne,-⟩ := Makefile.runRecipe_clean hrun hclean
    · obtain ⟨hc',hf'⟩ := ih' hclean'
      refine ⟨hc',fun hg hclear => hf' (fun x hx => hg x (mem_cons_of_mem _ hx)) ?_⟩
      refine hclear.of_eq (fun x => ?_) fun x hx => mem_cons_of_mem _ hx
      obtain ⟨_,_,-,rfl,-⟩ := Makefile.runRecipe_eq hrun
      exact leave_inProgress hp (deps.inProgress) x
    · exact absurd rfl hne

lemma built_one (hdeps : ∀ slot r, m.lookup d = some (slot,r) → (s.found slot).built slot = false →
    (s.found slot).inProgress slot = false → ∃ ok s₁, Built m rc r.deps ((s.found slot).begin slot d) ok s₁) :
    ∃ ok s', Built m rc [d] s ok s' := by
  cases hd : m.lookup d with
  | none => exact ⟨_,_,.leaf hd (.nil s)⟩
  | some p =>
    obtain ⟨slot,r⟩ := p
    cases hb : (s.found slot).built slot with
    | true => exact ⟨_,_,.cached hd hb (.nil _)⟩
    | false =>
      cases hp : (s.found slot).inProgress slot with
      | true => exact ⟨_,_,.cycle hd hb hp⟩
      | false =>
        obtain ⟨ok,s₁,hbuilt⟩ := hdeps slot r hd hb hp
        cases ok with
        | false => exact ⟨_,_,.depFail hd hb hp hbuilt⟩
        | true =>
          cases hrun : Makefile.runRecipe rc d r.deps r.recipe { s₁ with runs := d :: s₁.runs } with
          | mk code s₂ =>
            by_cases hcode : code = 0
            · subst hcode
              exact ⟨_,_,.done hd hb hp hbuilt hrun (.nil _)⟩
            · exact ⟨_,_,.recipeFail hd hb hp hbuilt hrun hcode⟩

lemma built_list (h : ∀ d ∈ ds, ∀ s, ∃ ok s', Built m rc [d] s ok s') (s : State) : ∃ ok s', Built m rc ds s ok s' := by
  induction ds generalizing s with
  | nil => exact ⟨_,_,.nil s⟩
  | cons d ds ih =>
    obtain ⟨ok,s₁,hone⟩ := h d mem_cons_self s
    cases ok with
    | false => exact ⟨_,_,hone.one_false⟩
    | true =>
      obtain ⟨ok',s',hrest⟩ := ih (fun x hx => h x (mem_cons_of_mem _ hx)) s₁
      exact ⟨_,_,hone.one_true hrest⟩

lemma built_of_grounded (h : m.Grounded d) (s : State) : ∃ ok s', Built m rc [d] s ok s' := by
  induction h generalizing s with
  | intro d _ ih =>
    refine built_one fun slot r hd _ _ => built_list (fun x hx s => ?_) _
    exact ih x (Makefile.needs_of_mem hd hx) s

/-- The targets with a rule of their own that are in progress below a target. -/
def Makefile.pushed (m : Makefile) (t : Name) (seen : List Name) : List Name :=
  if (m.mkFindExact t).isSome then t :: seen else seen

/-- The way down from a target, to the first prerequisite each time that is above a cycle, comes to a target
with a rule of its own once more. -/
inductive Returns (m : Makefile) : List Name → Name → Prop
  | again {seen : List Name} {t : Name} (ht : t ∈ seen) : Returns m seen t
  | down {seen pre post : List Name} {t d : Name} (hdeps : m.deps t = pre ++ d :: post) (hpre : ∀ x ∈ pre, m.Grounded x)
      (hd : ¬m.Grounded d) (rest : Returns m (m.pushed t seen) d) : Returns m seen t

variable {seen : List Name}

lemma built_of_returns {t : Name} (h : Returns m seen t) (s : State) (hs : Tidy m s)
    (hseen : ∀ x ∈ seen, s.inProgress (some x) = true ∧ (m.mkFindExact x).isSome = true) : ∃ ok s', Built m rc [t] s ok s' := by
  induction h generalizing s with
  | @again seen t ht =>
    obtain ⟨hprogress,hexact⟩ := hseen t ht
    refine built_one fun slot r hd _ hp => ?_
    obtain ⟨rfl,-⟩ | ⟨-,hnone⟩ := Makefile.lookup_slot hd
    · rw [(found_some s (some t) t).1,hprogress] at hp
      cases hp
    · rw [hnone] at hexact
      cases hexact
  | @down seen pre post t d hdeps hpre hd _ ih =>
    refine built_one fun slot r hlook _ _ => ?_
    rw [← Makefile.deps_eq hlook,hdeps]
    obtain ⟨ok,s₁,hfirst⟩ := @built_list m rc pre (fun x hx s => built_of_grounded (hpre x hx) s) ((s.found slot).begin slot t)
    cases ok with
    | false => exact ⟨_,_,hfirst.append_false⟩
    | true =>
      have hs₁ := (hfirst.tidy ((hs.found slot).begin slot t)).1
      have hseen₁ : ∀ x ∈ m.pushed t seen, s₁.inProgress (some x) = true ∧ (m.mkFindExact x).isSome = true := by
        intro x hx
        rw [hfirst.inProgress]
        by_cases hxt : (m.mkFindExact t).isSome = true ∧ x = t
        · obtain ⟨hexact,rfl⟩ := hxt
          refine ⟨?_,hexact⟩
          obtain ⟨rfl,-⟩ | ⟨-,hnone⟩ := Makefile.lookup_slot hlook
          · exact update_self ..
          · rw [hnone] at hexact
            cases hexact
        · have hxs : x ∈ seen := by
            unfold Makefile.pushed at hx
            split at hx
            · next hexact => exact (List.mem_cons.mp hx).resolve_left fun heq => hxt ⟨hexact,heq⟩
            · exact hx
          refine ⟨?_,(hseen x hxs).2⟩
          by_cases hslot : some x = slot
          · rw [← hslot]
            exact update_self ..
          · simp only [State.begin,update_of_ne hslot,(found_some s slot x).1]
            exact (hseen x hxs).1
      obtain ⟨ok,s₂,hone⟩ := ih s₁ hs₁ hseen₁
      cases ok with
      | false => exact ⟨_,_,hfirst.append hone.one_false⟩
      | true => exact absurd ((hone.tidy hs₁).2 rfl d (mem_singleton_self d)).1 hd

lemma exists_first {l : List Name} (h : ¬∀ d ∈ l, m.Grounded d) :
    ∃ pre d post, l = pre ++ d :: post ∧ (∀ x ∈ pre, m.Grounded x) ∧ ¬m.Grounded d := by
  induction l with
  | nil => exact absurd (fun d hd => by cases hd) h
  | cons a l ih =>
    by_cases ha : m.Grounded a
    · have hl : ¬∀ d ∈ l, m.Grounded d := fun hall => h fun d hd => by
        obtain rfl | hd := List.mem_cons.mp hd
        · exact ha
        · exact hall d hd
      obtain ⟨pre,d,post,rfl,hpre,hd⟩ := ih hl
      refine ⟨a :: pre,d,post,rfl,fun x hx => ?_,hd⟩
      obtain rfl | hx := List.mem_cons.mp hx
      · exact ha
      · exact hpre x hx
    · exact ⟨[],a,l,rfl,fun x hx => (by cases hx),ha⟩

lemma begin_pushed {t : Name} {r : Rule} (hd : m.lookup t = some (slot,r))
    (hseen : ∀ x, s.inProgress (some x) = true ↔ x ∈ seen) (x : Name) :
    ((s.found slot).begin slot t).inProgress (some x) = true ↔ x ∈ m.pushed t seen := by
  obtain ⟨rfl,hexact⟩ | ⟨rfl,hexact⟩ := Makefile.lookup_slot hd
  · rw [Makefile.pushed,if_pos (by rw [hexact]; rfl),mem_cons]
    by_cases hxt : x = t
    · subst hxt
      exact iff_of_true (update_self ..) (.inl rfl)
    · have hne : (some x : Slot) ≠ some t := fun h => hxt (some.inj h)
      simp only [State.begin,update_of_ne hne,(found_some s (some t) x).1,hseen,hxt,false_or]
  · rw [Makefile.pushed,if_neg (by rw [hexact]; exact Bool.false_ne_true)]
    simp only [State.begin,update_of_ne (some_ne_none x),(found_some s none x).1,hseen]

lemma returns_of_built (hrc : ∀ log, rc log = 0) (h : Built m rc ds s ok s') (hs : Tidy m s)
    (hseen : ∀ x, s.inProgress (some x) = true ↔ x ∈ seen) (hbad : ∀ x ∈ seen, ¬m.Grounded x) {pre post : List Name} {t : Name}
    (hds : ds = pre ++ t :: post) (hpre : ∀ x ∈ pre, m.Grounded x) (ht : ¬m.Grounded t) : Returns m seen t := by
  have hclean : ∀ log, Clean rc log := fun log _ _ _ _ => hrc _
  have hnever : ∀ log, ¬Failed rc log := fun log ⟨_,_,_,_,hne⟩ => hne (hrc _)
  -- a prerequisite before the first one above a cycle does not fail
  have hokay : ∀ {seen : List Name} {d : Name} {s s' : State}, (∀ x ∈ seen, ¬m.Grounded x) → m.Grounded d →
      (∀ x, s.inProgress (some x) = true ↔ x ∈ seen) → ¬Built m rc [d] s false s' := by
    intro seen d s s' hbad hg hin hbuilt
    refine hnever _ ((hbuilt.failed (hclean _)).2 (fun x hx => List.mem_singleton.mp hx ▸ hg) ?_ rfl)
    intro x hx y hy hr
    rw [List.mem_singleton.mp hy] at hr
    exact hbad x ((hin x).mp hx) (hg.reach hr)
  induction h generalizing seen pre post t with
  | nil => simp at hds
  | @leaf d ds _ _ _ hd rest ih =>
    cases pre with
    | nil =>
      obtain ⟨rfl,-⟩ := List.cons.inj hds
      refine absurd (Makefile.grounded_of_deps fun x hx => ?_) ht
      rw [Makefile.deps_none hd] at hx
      cases hx
    | cons a pre =>
      obtain ⟨rfl,rfl⟩ := List.cons.inj hds
      exact ih hs hseen hbad rfl (fun x hx => hpre x (mem_cons_of_mem _ hx)) ht
  | @cached d ds s _ _ slot r hd hb rest ih =>
    cases pre with
    | nil =>
      obtain ⟨rfl,-⟩ := List.cons.inj hds
      have hone : Built m rc [d] s true (s.found slot) := .cached hd hb (.nil _)
      exact absurd ((hone.tidy hs).2 rfl d (mem_singleton_self d)).1 ht
    | cons a pre =>
      obtain ⟨rfl,rfl⟩ := List.cons.inj hds
      refine ih (hs.found slot) (fun x => ?_) hbad rfl (fun x hx => hpre x (mem_cons_of_mem _ hx)) ht
      rw [(found_some s slot x).1]
      exact hseen x
  | @cycle d ds s slot r hd hb hp =>
    cases pre with
    | nil =>
      obtain ⟨rfl,-⟩ := List.cons.inj hds
      obtain ⟨rfl,-⟩ | ⟨rfl,-⟩ := Makefile.lookup_slot hd
      · rw [(found_some s (some d) d).1] at hp
        exact .again ((hseen d).mp hp)
      · simp [State.found] at hp
    | cons a pre =>
      obtain ⟨rfl,-⟩ := List.cons.inj hds
      exact absurd (.cycle hd hb hp) (hokay hbad (hpre d mem_cons_self) hseen)
  | @depFail d ds s s₁ slot r hd hb hp deps ih =>
    cases pre with
    | nil =>
      obtain ⟨rfl,-⟩ := List.cons.inj hds
      have hall : ¬∀ x ∈ r.deps, m.Grounded x := fun hall =>
        ht (Makefile.grounded_of_deps fun x hx => hall x (Makefile.deps_eq hd ▸ hx))
      obtain ⟨pre,x,post,hsplit,hpre,hx⟩ := exists_first hall
      refine .down ((Makefile.deps_eq hd).trans hsplit) hpre hx ?_
      refine ih ((hs.found slot).begin slot d) (begin_pushed hd hseen) (fun y hy => ?_) hsplit hpre hx
      unfold Makefile.pushed at hy
      split at hy
      · obtain rfl | hy := List.mem_cons.mp hy
        · exact ht
        · exact hbad y hy
      · exact hbad y hy
    | cons a pre =>
      obtain ⟨rfl,-⟩ := List.cons.inj hds
      exact absurd (.depFail hd hb hp deps) (hokay hbad (hpre d mem_cons_self) hseen)
  | @recipeFail d ds s s₁ s₂ slot r code hd hb hp deps hrun hcode ih =>
    obtain ⟨hzero,-⟩ | ⟨-,hfailed⟩ := Makefile.runRecipe_clean hrun (hclean _)
    · exact absurd hzero hcode
    · exact absurd hfailed (hnever _)
  | @done d ds s s₁ s₂ s' ok slot r hd hb hp deps hrun rest ih ih' =>
    have hone : Built m rc [d] s true (s₂.finish slot (m.mkIsPhony d)) := .done hd hb hp deps hrun (.nil _)
    cases pre with
    | nil =>
      obtain ⟨rfl,-⟩ := List.cons.inj hds
      exact absurd ((hone.tidy hs).2 rfl d (mem_singleton_self d)).1 ht
    | cons a pre =>
      obtain ⟨rfl,rfl⟩ := List.cons.inj hds
      refine ih' (hone.tidy hs).1 (fun x => ?_) hbad rfl (fun x hx => hpre x (mem_cons_of_mem _ hx)) ht
      rw [hone.inProgress]
      exact hseen x

end VibeOS.Make

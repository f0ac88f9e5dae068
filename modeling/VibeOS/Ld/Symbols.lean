import VibeOS.Ld.Layout

/-! What the table of global symbols says after all objects were merged. -/
namespace VibeOS.Ld
open List

variable {t t' : List GSym} {name n : Name} {d : Option Definition} {l l' : List (Name × Option Definition)}

/-- The definitions of a name among the symbols that were entered. -/
def defs (l : List (Name × Option Definition)) (name : Name) : List Definition := l.filterMap fun x => if x.1 = name then x.2 else none

lemma defs_append : defs (l ++ l') name = defs l name ++ defs l' name := filterMap_append ..

lemma defs_singleton : defs [(n,d)] name = if n = name then d.toList else [] := by
  unfold defs
  split
  · next heq =>
    subst heq
    cases d <;> simp
  · next hne => simp [hne]

lemma definitionOf_cons (g : GSym) : definitionOf (g :: t) n = if g.name = n then g.definition else definitionOf t n := by
  unfold definitionOf gsymFind
  rw [find?_cons]
  by_cases h : g.name = n
  · rw [beq_iff_eq.mpr h,if_pos h]
    rfl
  · rw [beq_eq_false_iff_ne.mpr h,if_neg h]

lemma definitionOf_update (hname : name.length ≤ nameCap) (h : update name d t = some t') :
    (∀ n, definitionOf t' n = if n = name then (definitionOf t name).or d else definitionOf t n) ∧
      (d.isSome = true → definitionOf t name = none) := by
  induction t generalizing t' with
  | nil =>
    cases h
    refine ⟨fun n => ?_,fun _ => rfl⟩
    rw [definitionOf_cons]
    dsimp only
    rw [take_of_length_le hname]
    by_cases hn : n = name
    · subst hn
      rw [if_pos rfl,if_pos rfl]
      rfl
    · rw [if_neg (Ne.symm hn),if_neg hn]
  | cons g t ih =>
    unfold update at h
    by_cases hg : g.name = name
    · rw [if_pos hg] at h
      have hold : definitionOf (g :: t) name = g.definition := by rw [definitionOf_cons,if_pos hg]
      rw [hold]
      split at h
      · next hd =>
        cases h
        refine ⟨fun n => ?_,nofun⟩
        rw [definitionOf_cons]
        by_cases hn : n = name
        · subst hn
          rw [if_pos hg,if_pos rfl,Option.or_none]
        · rw [if_neg (by rw [hg]; exact Ne.symm hn),if_neg hn]
      · next d hd =>
        cases h
        refine ⟨fun n => ?_,fun _ => hd⟩
        rw [definitionOf_cons,definitionOf_cons]
        dsimp only
        by_cases hn : n = name
        · subst hn
          rw [if_pos hg,if_pos rfl,hd]
          rfl
        · rw [if_neg (by rw [hg]; exact Ne.symm hn),if_neg hn,if_neg (by rw [hg]; exact Ne.symm hn)]
      · cases h
    · rw [if_neg hg] at h
      obtain ⟨t'',ht'',rfl⟩ := Option.map_eq_some_iff.mp h
      obtain ⟨hother,honce⟩ := ih ht''
      refine ⟨fun n => ?_,fun hd => ?_⟩
      · rw [definitionOf_cons,definitionOf_cons,definitionOf_cons,if_neg hg,hother]
        by_cases hgn : g.name = n
        · have hn : n ≠ name := fun heq => hg (hgn.trans heq)
          rw [if_pos hgn,if_neg hn,if_pos hgn]
        · rw [if_neg hgn,if_neg hgn]
      · rw [definitionOf_cons,if_neg hg]
        exact honce hd

/-- The table says what was entered, and nothing was defined twice. -/
def Represents (t : List GSym) (l : List (Name × Option Definition)) : Prop :=
  ∀ name, definitionOf t name = (defs l name).head? ∧ (defs l name).length ≤ 1

lemma Represents.addOrUpdate (h : Represents t l) (hname : name.length ≤ nameCap) (hadd : addOrUpdate t name d = some t') :
    Represents t' (l ++ [(name,d)]) := by
  unfold Ld.addOrUpdate at hadd
  split at hadd
  · cases hadd
  · obtain ⟨hother,honce⟩ := definitionOf_update hname hadd
    intro n
    obtain ⟨hhead,hlen⟩ := h n
    rw [hother,defs_append,defs_singleton]
    by_cases hn : n = name
    · subst hn
      rw [if_pos rfl,if_pos rfl]
      cases d with
      | none => simpa using ⟨hhead,hlen⟩
      | some d =>
        have hnone := honce rfl
        rw [hnone] at hhead
        have hnil : defs l n = [] := List.head?_eq_none_iff.mp hhead.symm
        rw [hnone,hnil]
        exact ⟨rfl,le_rfl⟩
    · rw [if_neg hn,if_neg (Ne.symm hn),append_nil]
      exact ⟨hhead,hlen⟩

lemma Represents.foldlM (h : Represents t l) (hnames : ∀ x ∈ l', x.1.length ≤ nameCap)
    (hfold : l'.foldlM (fun t x => Ld.addOrUpdate t x.1 x.2) t = some t') : Represents t' (l ++ l') := by
  induction l' generalizing t l with
  | nil =>
    cases hfold
    rw [append_nil]
    exact h
  | cons x l' ih =>
    obtain ⟨t₁,ht₁,hrest⟩ := Option.bind_eq_some_iff.mp hfold
    have h₁ := ih (h.addOrUpdate (hnames x mem_cons_self) ht₁) (fun y hy => hnames y (mem_cons_of_mem _ hy)) hrest
    rw [append_assoc] at h₁
    exact h₁

lemma Represents.eq_nil (h : Represents t l) (hd : definitionOf t name = none) : defs l name = [] := by
  have hhead := (h name).1
  rw [hd] at hhead
  exact List.head?_eq_none_iff.mp hhead.symm

end VibeOS.Ld

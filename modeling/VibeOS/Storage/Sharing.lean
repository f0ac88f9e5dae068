import VibeOS.Widths
import Mathlib.Data.Set.Card

/-! Shared resources with a count that starts late: 0 and 1 both stand for at most one holder, and
the first share makes the count 2. Each holder has one resource or none; free resources have no
holder. The rules say what the operations on the count keep. A holder that is lost without notice
leaves a count that is too large; `tight` says that this has not happened. -/
namespace VibeOS.Storage
open Function

variable {P F : Type} {tight : Prop} {free : List F} {rc : F → ℕ} {holds : P → Option F} {p q : P} {f g : F} {n : ℕ} {s : Set P}

def sharers (holds : P → Option F) (f : F) : Set P := { p | holds p = some f }

/-- The count `n` fits the holders `s`. -/
def Counts (tight : Prop) (n : ℕ) (s : Set P) : Prop :=
  (n ≤ 1 ∧ s.encard ≤ 1) ∨ (2 ≤ n ∧ s.encard ≤ n ∧ (tight → s.encard = n))

structure Shared (tight : Prop) (free : List F) (rc : F → ℕ) (holds : P → Option F) : Prop where
  nodup : free.Nodup
  unheld : ∀ f ∈ free, rc f = 0 ∧ ∀ p, holds p ≠ some f
  counts : ∀ f, Counts tight (rc f) (sharers holds f)

@[simp] lemma mem_sharers : p ∈ sharers holds f ↔ holds p = some f := Iff.rfl

namespace Counts

lemma le_one (h : Counts tight n s) (hn : n ≤ 1) : s.encard ≤ 1 := by
  rcases h with ⟨-,hs⟩ | ⟨hn',-⟩
  · exact hs
  · omega

lemma of_two_le (h : Counts tight n s) (hn : 2 ≤ n) : s.encard ≤ n ∧ (tight → s.encard = n) := by
  rcases h with ⟨hn',-⟩ | ⟨-,hs⟩
  · omega
  · exact hs

end Counts

section
variable [DecidableEq P]

lemma sharers_update_self : sharers (update holds p (some f)) f = insert p (sharers holds f) := by
  ext q
  by_cases hq : q = p
  · subst hq
    simp
  · simp [hq]

lemma sharers_update_of_ne {o : Option F} (ho : o ≠ some g) :
    sharers (update holds p o) g = sharers holds g \ {p} := by
  ext q
  by_cases hq : q = p
  · subst hq
    simp [ho]
  · simp [hq]

lemma update_ne {o : Option F} (h : ∀ p, holds p ≠ some g) (ho : o ≠ some g) (q : P) :
    update holds p o q ≠ some g := by
  by_cases hq : q = p
  · subst hq
    rw [update_self]
    exact ho
  · rw [update_of_ne hq]
    exact h q

end

lemma sharers_diff_self (hp : holds p ≠ some g) : sharers holds g \ {p} = sharers holds g :=
  Set.sdiff_singleton_eq_self hp

namespace Shared

lemma sole (h : Shared tight free rc holds) (hf : rc f ≤ 1) (hp : holds p = some f) (hq : holds q = some f) : q = p :=
  Set.encard_le_one_iff.mp ((h.counts f).le_one hf) q p hq hp

lemma not_free (h : Shared tight free rc holds) (hp : holds p = some f) : f ∉ free := fun hf => (h.unheld f hf).2 p hp

lemma rename (h : Shared tight free rc holds) (e : P ≃ P) : Shared tight free rc (holds ∘ e) := by
  refine ⟨h.nodup,fun f hf => ⟨(h.unheld f hf).1,fun p => (h.unheld f hf).2 (e p)⟩,fun f => ?_⟩
  have hpre : sharers (holds ∘ e) f = e.symm '' sharers holds f := by
    rw [e.symm.image_eq_preimage_symm]
    rfl
  unfold Counts
  rw [hpre,e.symm.injective.encard_image]
  exact h.counts f

section
variable [DecidableEq F]

lemma settle (h : Shared tight free rc holds) (hf : rc f ≤ 1) : Shared tight free (update rc f 0) holds := by
  refine ⟨h.nodup,fun g hg => ⟨?_,(h.unheld g hg).2⟩,fun g => ?_⟩
  · by_cases hgf : g = f
    · rw [hgf,update_self]
    · rw [update_of_ne hgf]
      exact (h.unheld g hg).1
  · by_cases hgf : g = f
    · subst hgf
      rw [update_self]
      exact .inl ⟨Nat.zero_le 1,(h.counts g).le_one hf⟩
    · rw [update_of_ne hgf]
      exact h.counts g

end

section
variable [DecidableEq P]

lemma acquire (h : Shared tight (f :: free) rc holds) (hp : holds p = none) :
    Shared tight free rc (update holds p (some f)) := by
  obtain ⟨hf,hnodup⟩ := List.nodup_cons.mp h.nodup
  obtain ⟨hrc,hnone⟩ := h.unheld f List.mem_cons_self
  refine ⟨hnodup,fun g hg => ?_,fun g => ?_⟩
  · obtain ⟨hg0,hgnone⟩ := h.unheld g (List.mem_cons_of_mem _ hg)
    exact ⟨hg0,update_ne hgnone fun heq => hf (Option.some.inj heq ▸ hg)⟩
  · by_cases hg : g = f
    · subst hg
      have hempty : sharers holds g = ∅ := Set.eq_empty_of_forall_notMem hnone
      rw [sharers_update_self,hempty,insert_empty_eq]
      exact .inl ⟨by omega,(Set.encard_singleton p).le⟩
    · rw [sharers_update_of_ne (fun heq => hg (Option.some.inj heq).symm),sharers_diff_self (by simp [hp])]
      exact h.counts g

lemma lose (h : Shared tight free rc holds) (hf : tight → ∀ f, holds p = some f → rc f ≤ 1) :
    Shared tight free rc (update holds p none) := by
  refine ⟨h.nodup,fun g hg => ?_,fun g => ?_⟩
  · obtain ⟨hg0,hgnone⟩ := h.unheld g hg
    exact ⟨hg0,update_ne hgnone nofun⟩
  · rw [sharers_update_of_ne (nofun : (none : Option F) ≠ some g)]
    by_cases hg : holds p = some g
    · have hless : (sharers holds g \ {p}).encard ≤ (sharers holds g).encard := Set.encard_le_encard Set.sdiff_subset
      rcases h.counts g with ⟨hn,hs⟩ | ⟨hn,hs,-⟩
      · exact .inl ⟨hn,hless.trans hs⟩
      · exact .inr ⟨hn,hless.trans hs,fun ht => absurd (hf ht g hg) (by omega)⟩
    · rw [sharers_diff_self hg]
      exact h.counts g

lemma pass (h : Shared tight free rc holds) (hp : holds p = some f) (hq : holds q = none) :
    Shared tight free rc (update (update holds p none) q (some f)) := by
  have hpq : p ≠ q := by
    rintro rfl
    exact absurd (hp.symm.trans hq) nofun
  have hswap : update (update holds p none) q (some f) = holds ∘ Equiv.swap p q := by
    funext r
    by_cases hrq : r = q
    · subst hrq
      simp [hp]
    · rw [update_of_ne hrq]
      by_cases hrp : r = p
      · subst hrp
        simp [hq]
      · simp [hrp,Equiv.swap_apply_of_ne_of_ne hrp hrq]
  rw [hswap]
  exact h.rename _

end

variable [DecidableEq P] [DecidableEq F]

lemma share (h : Shared tight free rc holds) (hq : holds q = some f) (hp : holds p = none) :
    Shared tight free (update rc f (if rc f = 0 then 2 else rc f + 1)) (update holds p (some f)) := by
  have hfree := h.not_free hq
  have hnew : p ∉ sharers holds f := by simp [hp]
  refine ⟨h.nodup,fun g hg => ?_,fun g => ?_⟩
  · have hgf : g ≠ f := fun heq => hfree (heq ▸ hg)
    obtain ⟨hg0,hgnone⟩ := h.unheld g hg
    exact ⟨by rw [update_of_ne hgf]; exact hg0,update_ne hgnone fun heq => hgf (Option.some.inj heq).symm⟩
  · by_cases hg : g = f
    · subst hg
      rw [update_self,sharers_update_self,Counts,Set.encard_insert_of_notMem hnew]
      have hone : 1 ≤ (sharers holds g).encard := Set.one_le_encard_iff_nonempty.mpr ⟨q,hq⟩
      rcases h.counts g with ⟨hn,hs⟩ | ⟨hn,hs,hexact⟩
      · have heq : (sharers holds g).encard + 1 = ((if rc g = 0 then 2 else rc g + 1 : ℕ) : ℕ∞) := by
          rw [le_antisymm hs hone,(by split <;> omega : (if rc g = 0 then 2 else rc g + 1) = 2)]
          rfl
        exact .inr ⟨by split <;> omega,heq.le,fun _ => heq⟩
      · rw [if_neg (by omega)]
        exact .inr ⟨by omega,add_le_add_left hs 1,fun ht => congrArg (· + 1) (hexact ht)⟩
    · rw [update_of_ne hg,sharers_update_of_ne (fun heq => hg (Option.some.inj heq).symm),
        sharers_diff_self (by simp [hp])]
      exact h.counts g

lemma leave (h : Shared tight free rc holds) (hp : holds p = some f) (hf : 2 ≤ rc f) :
    Shared tight free (update rc f (rc f - 1)) (update holds p none) := by
  have hfree := h.not_free hp
  refine ⟨h.nodup,fun g hg => ?_,fun g => ?_⟩
  · have hgf : g ≠ f := fun heq => hfree (heq ▸ hg)
    obtain ⟨hg0,hgnone⟩ := h.unheld g hg
    exact ⟨by rw [update_of_ne hgf]; exact hg0,update_ne hgnone nofun⟩
  · rw [sharers_update_of_ne (nofun : (none : Option F) ≠ some g)]
    by_cases hg : g = f
    · subst hg
      rw [update_self]
      have hless := Set.encard_sdiff_singleton_add_one (s := sharers holds g) hp
      obtain ⟨hle,hexact⟩ := (h.counts g).of_two_le hf
      obtain ⟨n,hn⟩ : ∃ n, rc g = n + 1 := ⟨rc g - 1,by omega⟩
      rw [hn,← hless,Nat.cast_add,Nat.cast_one] at hle hexact
      rw [hn,Nat.add_sub_cancel]
      have hle' : (sharers holds g \ {p}).encard ≤ n := (ENat.add_le_add_iff_right ENat.one_ne_top).mp hle
      by_cases hone : n = 1
      · subst hone
        exact .inl ⟨le_rfl,hle'⟩
      · exact .inr ⟨by omega,hle',fun ht => WithTop.add_right_cancel ENat.one_ne_top (hexact ht)⟩
    · rw [update_of_ne hg,sharers_diff_self (by rw [hp]; exact fun heq => hg (Option.some.inj heq).symm)]
      exact h.counts g

lemma release (h : Shared tight free rc holds) (hp : holds p = some f) (hf : rc f ≤ 1) :
    Shared tight (f :: free) (update rc f 0) (update holds p none) := by
  have hfree := h.not_free hp
  have hlost : Shared tight free rc (update holds p none) :=
    h.lose fun _ g hg => (Option.some.inj (hp.symm.trans hg)) ▸ hf
  have hsettled := hlost.settle hf
  refine ⟨List.nodup_cons.mpr ⟨hfree,h.nodup⟩,fun g hg => ?_,hsettled.counts⟩
  rcases List.mem_cons.mp hg with rfl | hg
  · refine ⟨update_self _ _ _,fun r => ?_⟩
    by_cases hr : r = p
    · subst hr
      rw [update_self]
      exact nofun
    · rw [update_of_ne hr]
      exact fun heq => hr (h.sole hf hp heq)
  · exact hsettled.unheld g hg

end Shared
end VibeOS.Storage

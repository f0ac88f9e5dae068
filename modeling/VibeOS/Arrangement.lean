import VibeOS.Widths
import Mathlib.Logic.Equiv.Basic
import Mathlib.Algebra.Order.Group.Int

/-! Rearrangements of the entries of a vector within a range of places, and order by a comparison. -/
namespace VibeOS.Arrangement

variable {α : Type*}

/-- `w` has the entries of `v`, those outside `lo..hi` in place. -/
def Rearranged (lo hi : ℕ) (v w : ℕ → α) : Prop :=
  ∃ σ : Equiv.Perm ℕ, (∀ i, σ i ≠ i → lo ≤ i ∧ i < hi) ∧ ∀ i, w i = v (σ i)

namespace Rearranged
variable {lo hi lo' hi' : ℕ} {v w x : ℕ → α}

lemma refl (lo hi : ℕ) (v : ℕ → α) : Rearranged lo hi v v := ⟨Equiv.refl ℕ,fun _ h => absurd rfl h,fun _ => rfl⟩

lemma mono (h : Rearranged lo hi v w) (hlo : lo' ≤ lo) (hhi : hi ≤ hi') : Rearranged lo' hi' v w := by
  obtain ⟨σ,hσ,hw⟩ := h
  exact ⟨σ,fun i hs => ⟨hlo.trans (hσ i hs).1,(hσ i hs).2.trans_le hhi⟩,hw⟩

lemma trans (h : Rearranged lo hi v w) (h' : Rearranged lo hi w x) : Rearranged lo hi v x := by
  obtain ⟨σ,hσ,hw⟩ := h
  obtain ⟨τ,hτ,hx⟩ := h'
  refine ⟨τ.trans σ,fun i hmoved => ?_,fun i => by rw [hx,hw]; rfl⟩
  by_cases ht : τ i = i
  · refine hσ i fun hs => hmoved ?_
    rw [Equiv.trans_apply,ht,hs]
  · exact hτ i ht

lemma swap {i j : ℕ} (hin : lo ≤ i ∧ i < hi) (hj : lo ≤ j ∧ j < hi) : Rearranged lo hi v fun k => v (Equiv.swap i j k) := by
  refine ⟨Equiv.swap i j,fun k hk => ?_,fun _ => rfl⟩
  rcases (Equiv.swap_apply_ne_self_iff.mp hk).2 with rfl | rfl
  · exact hin
  · exact hj

lemma outside (h : Rearranged lo hi v w) {i : ℕ} (hout : i < lo ∨ hi ≤ i) : w i = v i := by
  obtain ⟨σ,hσ,hw⟩ := h
  have hs : σ i = i := by
    by_contra hs
    have := hσ i hs
    omega
  rw [hw,hs]

lemma exists_source (h : Rearranged lo hi v w) {i : ℕ} (hin : lo ≤ i ∧ i < hi) : ∃ j, (lo ≤ j ∧ j < hi) ∧ w i = v j := by
  obtain ⟨σ,hσ,hw⟩ := h
  refine ⟨σ i,?_,hw i⟩
  by_cases hs : σ i = i
  · rw [hs]
    exact hin
  · exact hσ _ fun heq => hs (σ.injective heq)

lemma all (h : Rearranged lo hi v w) {p : α → Prop} (hv : ∀ i, lo ≤ i → i < hi → p (v i)) : ∀ i, lo ≤ i → i < hi → p (w i) := by
  intro i hlo hhi
  obtain ⟨j,hj,heq⟩ := h.exists_source ⟨hlo,hhi⟩
  rw [heq]
  exact hv j hj.1 hj.2

lemma onFin {n : ℕ} (h : Rearranged 0 n v w) : ∃ σ : Equiv.Perm (Fin n), ∀ i : Fin n, w i = v (σ i) := by
  obtain ⟨σ,hσ,hw⟩ := h
  have hmem (i : ℕ) : i < n ↔ σ i < n := by
    constructor
    · intro hi
      by_cases hs : σ i = i
      · rwa [hs]
      · exact (hσ _ fun heq => hs (σ.injective heq)).2
    · intro hi
      by_cases hs : σ i = i
      · rwa [← hs]
      · exact (hσ i hs).2
  refine ⟨Equiv.ofBijective (fun i : Fin n => ⟨σ i,(hmem i).mp i.isLt⟩) ⟨fun i j hij => ?_,fun j => ?_⟩,fun i => hw i⟩
  · exact Fin.ext (σ.injective (Fin.mk.inj_iff.mp hij))
  · refine ⟨⟨σ.symm j,(hmem _).mpr ?_⟩,Fin.ext (σ.apply_symm_apply j)⟩
    rw [σ.apply_symm_apply]
    exact j.isLt

end Rearranged

/-- A comparison function that says how its arguments stand in a total preorder. -/
structure TotalPreorder (cmp : α → α → ℤ) : Prop where
  flip : ∀ x y, cmp x y < 0 ↔ 0 < cmp y x
  trans : ∀ x y z, cmp x y ≤ 0 → cmp y z ≤ 0 → cmp x z ≤ 0

variable {cmp : α → α → ℤ}

lemma TotalPreorder.flip_le (h : TotalPreorder cmp) {x y : α} (hlt : 0 < cmp y x) : cmp x y ≤ 0 :=
  ((h.flip x y).mpr hlt).le

lemma TotalPreorder.le_of_not_neg (h : TotalPreorder cmp) {x y : α} (hlt : ¬ cmp x y < 0) : cmp y x ≤ 0 :=
  not_lt.mp fun hpos => hlt ((h.flip x y).mpr hpos)

/-- Ascending from `lo` up to `hi`. -/
def Ascending (cmp : α → α → ℤ) (lo hi : ℕ) (v : ℕ → α) : Prop := ∀ i j, lo ≤ i → i < j → j < hi → cmp (v i) (v j) ≤ 0

lemma Ascending.join (h : TotalPreorder cmp) {lo mid hi : ℕ} {v : ℕ → α} (hleft : Ascending cmp lo mid v)
    (hright : Ascending cmp (mid + 1) hi v) (hle : ∀ i, lo ≤ i → i < mid → cmp (v i) (v mid) ≤ 0)
    (hge : ∀ i, mid < i → i < hi → cmp (v mid) (v i) ≤ 0) : Ascending cmp lo hi v := by
  intro i j hlo hij hj
  rcases Nat.lt_trichotomy j mid with hj' | rfl | hj'
  · exact hleft i j hlo hij hj'
  · exact hle i hlo hij
  · rcases Nat.lt_trichotomy i mid with hi' | rfl | hi'
    · exact h.trans _ _ _ (hle i hlo hi') (hge j hj' hj)
    · exact hge j hij hj
    · exact hright i j hi' hij hj

end VibeOS.Arrangement

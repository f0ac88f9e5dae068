import VibeOS.Widths
import Mathlib.Data.List.Perm.Basic

/-! Insertion from the right by a comparison, and entries of a list where the last one of a kind
counts. -/
namespace VibeOS.Ranking
open List

variable {α κ : Type*}

/-- Past every entry that compares above the new one. The list has its last entry first. -/
def insertLast (cmp : α → α → ℤ) (v : α) : List α → List α
  | [] => [v]
  | m :: ms => if 0 < cmp m v then m :: insertLast cmp v ms else v :: m :: ms

def insertionSort (cmp : α → α → ℤ) (l : List α) : List α :=
  (l.foldl (fun acc v => insertLast cmp v acc) []).reverse

lemma insertLast_perm (cmp : α → α → ℤ) (v : α) (l : List α) :
    (insertLast cmp v l).Perm (v :: l) := by
  induction l with
  | nil => rfl
  | cons m ms ih =>
    simp only [insertLast]
    split
    · exact (ih.cons m).trans (.swap v m ms)
    · rfl

lemma insertionSort_perm (cmp : α → α → ℤ) (l : List α) : (insertionSort cmp l).Perm l := by
  have h (acc : List α) : (l.foldl (fun acc v => insertLast cmp v acc) acc).Perm (l ++ acc) := by
    induction l generalizing acc with
    | nil => rfl
    | cons v l ih =>
      refine (ih _).trans ?_
      exact ((insertLast_perm cmp v acc).append_left l).trans perm_middle
  exact (reverse_perm _).trans (by simpa using h [])

/-- The comparison of an earlier entry with a later one says how they stand. -/
def Agrees (cmp : α → α → ℤ) (lt : α → α → Prop) (a b : α) : Prop :=
  if 0 < cmp a b then lt b a else lt a b

variable {cmp : α → α → ℤ} {lt : α → α → Prop} (htrans : ∀ a b c, lt a b → lt b c → lt a c)
include htrans

lemma insertLast_pairwise {v : α} {l : List α} (hv : ∀ m ∈ l, Agrees cmp lt m v)
    (hl : l.Pairwise fun a b => lt b a) : (insertLast cmp v l).Pairwise fun a b => lt b a := by
  induction l with
  | nil => exact pairwise_singleton _ _
  | cons m ms ih =>
    obtain ⟨hm,hms⟩ := List.pairwise_cons.mp hl
    have hmv := hv m mem_cons_self
    simp only [insertLast]
    split_ifs with h
    · have hlt : lt v m := by simpa [Agrees,h] using hmv
      refine List.pairwise_cons.mpr ⟨fun b hb => ?_,ih (fun x hx => hv x (mem_cons_of_mem m hx)) hms⟩
      obtain rfl | hb := List.mem_cons.mp ((insertLast_perm cmp v ms).mem_iff.mp hb)
      · exact hlt
      · exact hm b hb
    · have hlt : lt m v := by simpa [Agrees,h] using hmv
      refine List.pairwise_cons.mpr ⟨fun b hb => ?_,hl⟩
      obtain rfl | hb := List.mem_cons.mp hb
      · exact hlt
      · exact htrans _ _ _ (hm b hb) hlt

/-- Where every comparison of an earlier entry with a later one agrees with an order, the entries
come out in that order. -/
lemma insertionSort_pairwise {l : List α} (hl : l.Pairwise (Agrees cmp lt)) :
    (insertionSort cmp l).Pairwise lt := by
  have h (acc : List α) (hacc : acc.Pairwise fun a b => lt b a)
      (hcross : ∀ m ∈ acc, ∀ v ∈ l, Agrees cmp lt m v) :
      (l.foldl (fun acc v => insertLast cmp v acc) acc).Pairwise fun a b => lt b a := by
    induction l generalizing acc with
    | nil => exact hacc
    | cons v l ih =>
      obtain ⟨hv,hl⟩ := List.pairwise_cons.mp hl
      refine ih hl _ (insertLast_pairwise htrans (fun m hm => hcross m hm v mem_cons_self) hacc)
        fun m hm w hw => ?_
      obtain rfl | hm := List.mem_cons.mp ((insertLast_perm cmp v acc).mem_iff.mp hm)
      · exact hv w hw
      · exact hcross m hm w (mem_cons_of_mem v hw)
  exact List.pairwise_reverse.mpr (h [] .nil (by simp))

end VibeOS.Ranking

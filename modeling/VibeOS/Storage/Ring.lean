import VibeOS.Widths
import Mathlib.Data.Nat.ModEq

/-! A ring of `n` cells with a head, a tail and a count, and the list that it holds. -/
namespace VibeOS.Storage
open Function List

structure Ring (α : Type*) (n : ℕ) where
  buf : Fin n → α
  head : ℕ
  tail : ℕ
  count : ℕ

namespace Ring
variable {α : Type*} {n : ℕ} [NeZero n]

def readLoop : ℕ → Ring α n → List α × Ring α n
  | 0, r => ([],r)
  | k+1, r =>
    let (xs,r') := readLoop k { r with head := (r.head + 1) % n }
    (r.buf (Fin.ofNat n r.head) :: xs,r')

def writeLoop : List α → Ring α n → Ring α n
  | [], r => r
  | x :: xs, r =>
    writeLoop xs { r with buf := update r.buf (Fin.ofNat n r.tail) x, tail := (r.tail + 1) % n }

def read (r : Ring α n) (k : ℕ) : List α × Ring α n :=
  let (xs,r') := readLoop k r
  (xs,{ r' with count := r'.count - k })

def write (r : Ring α n) (xs : List α) : Ring α n :=
  let r' := writeLoop xs r
  { r' with count := r'.count + xs.length }

/-- The cells from the head on hold the list, and the tail follows on it. -/
structure Spells (r : Ring α n) (xs : List α) : Prop where
  fits : xs.length ≤ n
  tail : r.tail % n = (r.head + xs.length) % n
  cell : ∀ i (hi : i < xs.length), r.buf (Fin.ofNat n (r.head + i)) = xs[i]

structure Holds (r : Ring α n) (xs : List α) : Prop extends Spells r xs where
  count : r.count = xs.length

variable {r : Ring α n} {xs ys : List α} {x : α}

lemma ofNat_mod_add (a i : ℕ) : Fin.ofNat n (a % n + i) = Fin.ofNat n (a + i) := by
  ext
  simp

lemma ofNat_ne {a i j : ℕ} (hij : i < j) (hj : j < n) : Fin.ofNat n (a + i) ≠ Fin.ofNat n (a + j) := by
  intro h
  have hmod : a + i ≡ a + j [MOD n] := Fin.mk.inj h
  have hlt : i % n = j % n := Nat.ModEq.add_left_cancel' a hmod
  rw [Nat.mod_eq_of_lt (hij.trans hj),Nat.mod_eq_of_lt hj] at hlt
  omega

lemma Spells.pop (h : Spells r (x :: xs)) :
    r.buf (Fin.ofNat n r.head) = x ∧ Spells { r with head := (r.head + 1) % n } xs := by
  refine ⟨h.cell 0 (Nat.zero_lt_succ _),⟨(Nat.le_succ _).trans h.fits,?_,fun i hi => ?_⟩⟩
  · dsimp only
    rw [h.tail,Nat.mod_add_mod,length_cons,Nat.add_assoc,Nat.add_comm 1]
  · have hc := h.cell (i + 1) (Nat.succ_lt_succ hi)
    dsimp only
    rw [ofNat_mod_add,Nat.add_assoc,Nat.add_comm 1 i]
    exact hc

lemma Spells.push (h : Spells r xs) (hroom : xs.length < n) (x : α) :
    Spells { r with buf := update r.buf (Fin.ofNat n r.tail) x, tail := (r.tail + 1) % n } (xs ++ [x]) := by
  have htail : Fin.ofNat n r.tail = Fin.ofNat n (r.head + xs.length) := Fin.ext h.tail
  refine ⟨by rw [length_append,length_singleton]; omega,?_,fun i hi => ?_⟩
  · dsimp only
    rw [Nat.mod_mod,Nat.add_mod,h.tail,← Nat.add_mod,length_append,length_singleton,Nat.add_assoc]
  · dsimp only
    rw [htail]
    rw [length_append,length_singleton] at hi
    rcases Nat.lt_succ_iff_lt_or_eq.mp hi with hlt | rfl
    · rw [update_of_ne (ofNat_ne hlt hroom),h.cell i hlt,getElem_append_left hlt]
    · rw [update_self,getElem_concat_length rfl]

lemma Spells.readLoop (h : Spells r (xs ++ ys)) :
    (readLoop xs.length r).1 = xs ∧ Spells (readLoop xs.length r).2 ys ∧ (readLoop xs.length r).2.count = r.count := by
  induction xs generalizing r with
  | nil => exact ⟨rfl,h,rfl⟩
  | cons x xs ih =>
    obtain ⟨hx,hrest⟩ := h.pop
    obtain ⟨hout,hleft,hcount⟩ := ih hrest
    exact ⟨congrArg₂ List.cons hx hout,hleft,hcount⟩

lemma Spells.writeLoop (h : Spells r xs) (hroom : xs.length + ys.length ≤ n) :
    Spells (writeLoop ys r) (xs ++ ys) ∧ (writeLoop ys r).count = r.count := by
  induction ys generalizing r xs with
  | nil =>
    rw [append_nil]
    exact ⟨h,rfl⟩
  | cons y ys ih =>
    rw [length_cons] at hroom
    have hpush := h.push (by omega) y
    obtain ⟨hall,hcount⟩ := ih hpush (by rw [length_append,length_singleton]; omega)
    rw [append_assoc,singleton_append] at hall
    exact ⟨hall,hcount⟩

lemma Holds.read (h : Holds r xs) {k : ℕ} (hk : k ≤ xs.length) :
    (r.read k).1 = xs.take k ∧ Holds (r.read k).2 (xs.drop k) := by
  have hlen : (xs.take k).length = k := length_take_of_le hk
  have hs : Spells r (xs.take k ++ xs.drop k) := by
    rw [take_append_drop]
    exact h.toSpells
  obtain ⟨hout,hleft,hcount⟩ := hs.readLoop
  rw [hlen] at hout hleft hcount
  refine ⟨hout,⟨⟨hleft.fits,hleft.tail,hleft.cell⟩,?_⟩⟩
  change (Ring.readLoop k r).2.count - k = _
  rw [hcount,h.count,length_drop]

lemma Holds.write (h : Holds r xs) (hroom : xs.length + ys.length ≤ n) : Holds (r.write ys) (xs ++ ys) := by
  obtain ⟨hall,hcount⟩ := h.toSpells.writeLoop hroom
  refine ⟨⟨hall.fits,hall.tail,hall.cell⟩,?_⟩
  change (Ring.writeLoop ys r).count + ys.length = _
  rw [hcount,h.count,length_append]

lemma holds_nil (buf : Fin n → α) : Holds (⟨buf,0,0,0⟩ : Ring α n) [] :=
  ⟨⟨Nat.zero_le _,rfl,fun _ hi => by cases hi⟩,rfl⟩

end Ring
end VibeOS.Storage

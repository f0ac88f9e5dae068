import VibeOS.Widths
import Mathlib.Data.List.Perm.Basic

/-! `malloc` and `free` as their callers see them. Blocks are numbered, and a `free` of what is not allocated fails. -/
namespace VibeOS.Libc

/-- `grants n` says whether the `n`th `malloc` gives a block. -/
structure Heap where
  grants : ℕ → Bool
  count : ℕ
  live : List ℕ

def Heap.malloc (h : Heap) : Option ℕ × Heap :=
  if h.grants h.count then (some h.count,{ h with count := h.count + 1, live := h.count :: h.live }) else (none,{ h with count := h.count + 1 })

def Heap.free (h : Heap) (b : ℕ) : Option Heap := if b ∈ h.live then some { h with live := h.live.erase b } else none

/-- One `free` after the other. -/
def freeAll : List ℕ → Heap → Option Heap
  | [],h => some h
  | b :: bs,h => (h.free b).bind (freeAll bs)

lemma malloc_spec (h : Heap) : (h.malloc.1 = none ∧ h.malloc.2.live = h.live) ∨ ∃ b, h.malloc.1 = some b ∧ h.malloc.2.live = b :: h.live := by
  unfold Heap.malloc
  split
  · exact .inr ⟨_,rfl,rfl⟩
  · exact .inl ⟨rfl,rfl⟩

lemma free_spec {h : Heap} {b : ℕ} {rest : List ℕ} (hlive : h.live.Perm (b :: rest)) :
    ∃ h', h.free b = some h' ∧ h'.live.Perm rest := by
  have hmem : b ∈ h.live := hlive.symm.subset List.mem_cons_self
  refine ⟨_,if_pos hmem,?_⟩
  have hcons := (List.perm_cons_erase hmem).symm.trans hlive
  exact List.Perm.cons_inv hcons

lemma freeAll_spec {bs : List ℕ} {h : Heap} {rest : List ℕ} (hlive : h.live.Perm (bs ++ rest)) :
    ∃ h', freeAll bs h = some h' ∧ h'.live.Perm rest := by
  induction bs generalizing h with
  | nil => exact ⟨h,rfl,hlive⟩
  | cons b bs ih =>
    obtain ⟨h',hfree,hlive'⟩ := free_spec (hlive : h.live.Perm (b :: (bs ++ rest)))
    obtain ⟨h'',hall,hrest⟩ := ih hlive'
    refine ⟨h'',?_,hrest⟩
    rw [freeAll,hfree]
    exact hall

end VibeOS.Libc

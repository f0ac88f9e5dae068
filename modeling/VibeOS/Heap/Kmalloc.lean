import VibeOS.Widths
import Mathlib.Data.List.Basic
import Mathlib.Tactic.Ring

/-! The kernel heap of `heap.c`. Memory holds a 64-bit word at each address that is a multiple of
8; a block starts with its size, whose low bit is the in-use bit, and the size of the block
before it. -/
namespace VibeOS.Heap

def headerSize : ℕ := 16
def minBlockSize : ℕ := 32

/-- `size_t` and pointer arithmetic. -/
def wrap (x : ℕ) : ℕ := x % 2^64

/-- ALIGN_UP(x, 16) -/
def alignUp (x : ℕ) : ℕ := wrap (x + 15)/16*16

/-- What a request of `size` bytes needs. -/
def needOf (size : ℕ) : ℕ :=
  let need := alignUp (wrap (size + headerSize))
  if need < minBlockSize then minBlockSize else need

/-- The region and what it holds. -/
structure Kheap where
  heapStart : ℕ
  heapEnd : ℕ
  mem : ℕ → ℕ

namespace Kheap
variable (h : Kheap)

def store (a v : ℕ) : Kheap := { h with mem := Function.update h.mem a v }

def blkInUse (b : ℕ) : Bool := h.mem b &&& 1 != 0

def blkSize (b : ℕ) : ℕ := h.mem b - (h.mem b &&& 1)

def prevSize (b : ℕ) : ℕ := h.mem (b + 8)

def blkSet (b totalSize : ℕ) (inUse : Bool) : Kheap := h.store b (totalSize ||| if inUse then 1 else 0)

def setPrevSize (b v : ℕ) : Kheap := h.store (b + 8) v

def blkNext (b : ℕ) : Option ℕ :=
  let p := wrap (b + h.blkSize b)
  if p ≥ h.heapEnd then none else some p

def blkPrev (b : ℕ) : Option ℕ :=
  if h.prevSize b = 0 then none else some (wrap (b + 2^64 - h.prevSize b))

/-- Write to the block after `b` what its `prev_size` is now. -/
def tellNext (b v : ℕ) : Kheap :=
  match h.blkNext b with
  | some after => h.setPrevSize after v
  | none => h

/-- The walk of `kmalloc`: the first block that is free and large enough, or NULL. The outer
`none` stands for a walk that is not over after `fuel` blocks. -/
def firstFit (need : ℕ) : ℕ → Option ℕ → Option (Option ℕ)
  | _, none => some none
  | 0, some _ => none
  | fuel + 1, some b =>
    if h.blkInUse b then firstFit need fuel (h.blkNext b)
    else if h.blkSize b < need then firstFit need fuel (h.blkNext b)
    else some (some b)

def take (need b : ℕ) : Kheap :=
  let bsize := h.blkSize b
  if bsize ≥ wrap (need + minBlockSize) then
    let tail := wrap (b + need)
    let h := h.blkSet tail (bsize - need) false
    let h := h.setPrevSize tail need
    let h := h.blkSet b need true
    h.tellNext tail (h.blkSize tail)
  else h.blkSet b bsize true

def kmalloc (size : ℕ) : Option (Option ℕ × Kheap) :=
  if size = 0 then some (none,h)
  else
    match h.firstFit (needOf size) ((h.heapEnd - h.heapStart)/16 + 1) (some h.heapStart) with
    | none => none
    | some none => some (none,h)
    | some (some b) => some (some (b + headerSize),h.take (needOf size) b)

def merge (b merged : ℕ) : Kheap := (h.blkSet b merged false).tellNext b merged

def coalesceForward (b : ℕ) : Kheap :=
  match h.blkNext b with
  | some next => if !h.blkInUse next then h.merge b (wrap (h.blkSize b + h.blkSize next)) else h
  | none => h

def coalesceBackward (b : ℕ) : Kheap :=
  match h.blkPrev b with
  | some prev => if !h.blkInUse prev then h.merge prev (wrap (h.blkSize prev + h.blkSize b)) else h
  | none => h

/-- `none` where `kfree` stops the machine. -/
def kfree (ptr : ℕ) : Option Kheap :=
  if ptr = 0 then some h
  else if ptr < h.heapStart ∨ ptr ≥ h.heapEnd then none
  else
    let b := wrap (ptr + 2^64 - headerSize)
    let h := h.blkSet b (h.blkSize b) false
    some ((h.coalesceForward b).coalesceBackward b)

end Kheap

/-- `kheap_init`, for a region that holds a block. -/
def kheapInit (base size : ℕ) (mem : ℕ → ℕ) : Kheap :=
  ((Kheap.mk base (base + size) mem).blkSet base size false).setPrevSize base 0


/-! Blocks that lie back to back in memory, each with the tags of `heap.c`. -/

structure Block where
  size : ℕ
  used : Bool
  deriving DecidableEq

def Block.tag (b : Block) : ℕ := b.size + if b.used then 1 else 0

structure Block.Sized (b : Block) : Prop where
  aligned : b.size % 16 = 0
  large : 32 ≤ b.size

def span (bs : List Block) : ℕ := (bs.map Block.size).sum

def lastSize (prev : ℕ) (bs : List Block) : ℕ := bs.foldl (fun _ b => b.size) prev

/-- The blocks lie from `a` to `e`; `prev` is the size of the block before them. -/
def Tiles (mem : ℕ → ℕ) : ℕ → ℕ → List Block → ℕ → Prop
  | a, _, [], e => a = e
  | a, prev, b :: bs, e => mem a = b.tag ∧ mem (a + 8) = prev ∧ b.Sized ∧ Tiles mem (a + b.size) b.size bs e

variable {mem mem' : ℕ → ℕ} {a e p prev : ℕ} {b : Block} {bs xs ys old new : List Block}

@[simp] lemma span_nil : span [] = 0 := rfl
@[simp] lemma span_cons (b : Block) (bs : List Block) : span (b :: bs) = b.size + span bs := by simp [span]
@[simp] lemma span_append (xs ys : List Block) : span (xs ++ ys) = span xs + span ys := by simp [span]

@[simp] lemma lastSize_nil (prev : ℕ) : lastSize prev [] = prev := rfl
@[simp] lemma lastSize_cons (prev : ℕ) (b : Block) (bs : List Block) :
    lastSize prev (b :: bs) = lastSize b.size bs := rfl
@[simp] lemma lastSize_append (prev : ℕ) (xs ys : List Block) :
    lastSize prev (xs ++ ys) = lastSize (lastSize prev xs) ys := by simp [lastSize]

lemma Tiles.end_eq (h : Tiles mem a prev bs e) : a + span bs = e := by
  induction bs generalizing a prev with
  | nil => exact h
  | cons b bs ih =>
    have hrest := ih h.2.2.2
    rw [span_cons]
    omega

lemma tiles_append : Tiles mem a prev (xs ++ ys) e ↔
    Tiles mem a prev xs (a + span xs) ∧ Tiles mem (a + span xs) (lastSize prev xs) ys e := by
  induction xs generalizing a prev with
  | nil => simp [Tiles]
  | cons b bs ih =>
    simp only [List.cons_append,Tiles,ih,span_cons,lastSize_cons,← Nat.add_assoc]
    tauto

lemma Tiles.sized (h : Tiles mem a prev bs e) : ∀ b ∈ bs, b.Sized := by
  induction bs generalizing a prev with
  | nil => exact fun b hb => absurd hb List.not_mem_nil
  | cons b bs ih =>
    intro b' hb
    rcases List.mem_cons.mp hb with rfl | hb
    · exact h.2.2.1
    · exact ih h.2.2.2 b' hb

lemma Tiles.congr (h : Tiles mem a prev bs e) (hmem : ∀ x, a ≤ x → x < e → mem' x = mem x) :
    Tiles mem' a prev bs e := by
  induction bs generalizing a prev with
  | nil => exact h
  | cons b bs ih =>
    obtain ⟨htag,hprev,hsized,hrest⟩ := h
    have hend := hrest.end_eq
    have hlarge := hsized.large
    exact ⟨(hmem a (by omega) (by omega)).trans htag,(hmem (a + 8) (by omega) (by omega)).trans hprev,hsized,
      ih hrest fun x hx hx' => hmem x (by omega) hx'⟩

/-- Some blocks in the middle are replaced by others of the same length. Only their own words
change and the tag of the block after them. -/
lemma Tiles.replace (h : Tiles mem a prev (xs ++ (old ++ ys)) e)
    (hnew : Tiles mem' (a + span xs) (lastSize prev xs) new (a + span xs + span old))
    (hmem : ∀ x, (x < a + span xs ∨ a + span xs + span old ≤ x) → x ≠ a + span xs + span old + 8 → mem' x = mem x)
    (hnext : ys ≠ [] → mem' (a + span xs + span old + 8) = lastSize (lastSize prev xs) new) :
    Tiles mem' a prev (xs ++ (new ++ ys)) e := by
  obtain ⟨hxs,hrest⟩ := tiles_append.mp h
  obtain ⟨-,hys⟩ := tiles_append.mp hrest
  have hspan := hnew.end_eq
  refine tiles_append.mpr ⟨hxs.congr fun x _ hx => hmem x (.inl hx) (by omega),tiles_append.mpr ⟨?_,?_⟩⟩
  · rw [hspan]
    exact hnew
  · rw [hspan]
    cases ys with
    | nil => exact hys
    | cons b ys =>
      obtain ⟨htag,-,hsized,hys⟩ := hys
      have hlarge := hsized.large
      refine ⟨(hmem _ (.inr le_rfl) (by omega)).trans htag,hnext (List.cons_ne_nil _ _),hsized,hys.congr ?_⟩
      exact fun x hx _ => hmem x (.inr (by omega)) (by omega)

end VibeOS.Heap

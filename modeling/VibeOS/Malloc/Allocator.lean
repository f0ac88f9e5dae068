import VibeOS.Storage.Patches
import VibeOS.Memory.AddressSpace

/-! The allocator of `malloc.h`: a list of free blocks over `sbrk`. A block starts with its size and,
while it is free, the link to the next one; the payload of a block in use starts at the link. -/
namespace VibeOS.Malloc
open VibeOS.Storage VibeOS.Memory

/-- MALLOC_GROW -/
def mallocGrow : ℕ := 16*1024
/-- UALLOC_HDR_SIZE -/
def hdrSize : ℕ := 8
/-- UALLOC_ALIGN -/
def align : ℕ := 16

/-- `size_t` -/
def wrap (x : ℕ) : ℕ := x % 2^64

/-- `(x + UALLOC_ALIGN - 1) & ~(UALLOC_ALIGN - 1)` -/
def roundUp (x : ℕ) : ℕ := wrap (x + align - 1)/align*align

/-- `_ualloc_round_size` -/
def roundSize (want : ℕ) : ℕ :=
  let total := wrap (want + hdrSize)
  let total := if total < 16 + hdrSize then 16 + hdrSize else total
  roundUp total

/-- The size that `_ualloc_grow` asks `sbrk` for. -/
def growSize (need : ℕ) : ℕ := roundUp (if need < mallocGrow then mallocGrow else need)

/-- `sys_sbrk` for an increment in two's complement: the new break, where it succeeds; `room` tells
whether there are pages. The old break is what it returns. -/
def sysSbrk (brk inc : ℕ) (room : Bool) : Option ℕ :=
  let newBrk :=
    if inc < 2^63 then brk + inc
    else if 2^64 - inc > brk - userHeapBase then userHeapBase
    else brk - (2^64 - inc)
  if newBrk ≥ 2^64 then none
  else
    let target := AddressSpace.brkTarget newBrk
    if target > userHeapMax ∨ target > brk ∧ room = false then none else some target

/-- A block in use, and the bytes that were asked for. -/
structure Live where
  addr : ℕ
  size : ℕ
  want : ℕ

/-- What `realloc` copied from: the old payload, the new request, and the new payload. -/
structure Copy where
  old : List UInt8
  want : ℕ
  new : List UInt8

/-- `freeHead` is the static variable, `brk` the break of the address space. The blocks in use,
what their owners have in them and the copies of `realloc` are kept beside the code's own data. -/
structure Heap where
  mem : ByteMem
  freeHead : ℕ
  brk : ℕ
  live : List Live
  contents : ByteMem
  copies : List Copy

/-- A pointer to a link. -/
inductive Loc
  | head
  | next (b : ℕ)

namespace Heap
variable (h : Heap)

def store (a v : ℕ) : Heap := { h with mem := store64 h.mem a v }

def size (b : ℕ) : ℕ := load64 h.mem b

def link (b : ℕ) : ℕ := load64 h.mem (b + 8)

/-- `*pp` -/
def get : Loc → ℕ
  | .head => h.freeHead
  | .next b => h.link b

/-- `*pp = v` -/
def set (v : ℕ) : Loc → Heap
  | .head => { h with freeHead := v }
  | .next b => h.store (b + 8) v

/-- The walk along the links to the first block that `stop` holds of; `none` where it is not over
after `fuel` blocks. -/
def walk (stop : ℕ → Bool) : ℕ → Loc → Option Loc
  | fuel, pp =>
    if h.get pp = 0 || stop (h.get pp) then some pp
    else
      match fuel with
      | 0 => none
      | fuel+1 => walk stop fuel (.next (h.get pp))

def take (need b : ℕ) (pp : Loc) : Heap :=
  let leftover := h.size b - need
  if leftover ≥ 32 then
    let tail := wrap (b + need)
    let h := h.store tail leftover
    let h := h.store (tail + 8) (h.link b)
    let h := h.store b need
    h.set tail pp
  else h.set (h.link b) pp

/-- `_ualloc_grow` -/
def grow (need : ℕ) (room : Bool) : Option Heap :=
  let chunk := growSize need
  match sysSbrk h.brk chunk room with
  | none => none
  | some brk =>
    let blk := h.brk
    let h := { h with brk := brk }
    let h := h.store blk chunk
    let h := h.store (blk + 8) h.freeHead
    some { h with freeHead := blk }

/-- The attempts of `malloc`. -/
def attempt (need fuel : ℕ) : List Bool → Heap → Option (ℕ × Heap)
  | [],h => some (0,h)
  | room :: rooms,h => do
    let pp ← h.walk (fun b => decide (h.size b ≥ need)) fuel .head
    let b := h.get pp
    if b ≠ 0 then return (b + hdrSize,h.take need b pp)
    else
      match h.grow need room with
      | none => return (0,h)
      | some h => attempt need fuel rooms h

/-- `malloc`; `room` is what `sbrk` finds at each attempt. -/
def malloc (want : ℕ) (room : Bool × Bool) (fuel : ℕ) : Option (ℕ × Heap) :=
  if want = 0 then some (0,h) else attempt (roundSize want) fuel [room.1,room.2] h

/-- `free` -/
def free (p fuel : ℕ) : Option Heap :=
  if p = 0 then some h
  else if p < 0x10000 then some h
  else do
    let b := p - hdrSize
    let pp ← h.walk (fun c => decide (c ≥ b)) fuel .head
    let h := h.store (b + 8) (h.get pp)
    let h := h.set b pp
    let next := h.link b
    if next ≠ 0 ∧ b + h.size b = next then
      let h := h.store b (wrap (h.size b + h.size next))
      return h.store (b + 8) (h.link next)
    else return h

/-- The loop of `calloc` that clears. -/
def clear (p n : ℕ) : Heap := { h with mem := fun x => if p ≤ x ∧ x < p + n then 0 else h.mem x }

def calloc (n size : ℕ) (room : Bool × Bool) (fuel : ℕ) : Option (ℕ × Heap) :=
  let total := wrap (n*size)
  if n ≠ 0 ∧ total/n ≠ size then some (0,h)
  else do
    let (p,h) ← h.malloc total room fuel
    if p = 0 then return (p,h) else return (p,h.clear p total)

/-- The loop of `realloc` that copies. -/
def copy (dst src n : ℕ) : Heap :=
  { h with mem := fun x => if dst ≤ x ∧ x < dst + n then h.mem (src + (x - dst)) else h.mem x }

def realloc (p want : ℕ) (room : Bool × Bool) (fuel : ℕ) : Option (ℕ × Heap) :=
  if p = 0 then h.malloc want room fuel
  else if want = 0 then (h.free p fuel).map fun h => (0,h)
  else do
    let oldPayload := h.size (p - hdrSize) - hdrSize
    let (np,h) ← h.malloc want room fuel
    if np = 0 then return (0,h)
    else
      let h := h.copy np p (min oldPayload want)
      return (np,← h.free p fuel)

def bytes (a n : ℕ) : List UInt8 := (List.range n).map fun k => h.mem (a + k)

/-- The caller has a new block, where the pointer is not NULL. -/
def give (p want : ℕ) : Heap :=
  if p = 0 then h
  else
    let b := p - hdrSize
    { h with
      live := ⟨b,h.size b,want⟩ :: h.live
      contents := fun x => if p ≤ x ∧ x < b + h.size b then h.mem x else h.contents x }

def drop (p : ℕ) : Heap := { h with live := h.live.filter fun l => l.addr + hdrSize ≠ p }

/-- The pointer is NULL or that of a block in use. -/
def owns (p : ℕ) : Bool := p == 0 || h.live.any fun l => l.addr + hdrSize == p

end Heap

inductive Event
  | malloc (want : UInt64) (room : Bool × Bool)
  | calloc (n size : UInt64) (room : Bool × Bool)
  | realloc (p : ℕ) (want : UInt64) (room : Bool × Bool)
  | free (p : ℕ)
  /-- The owner of a block writes a byte of its payload. -/
  | write (a : ℕ) (v : UInt8)

def call (fuel : ℕ) (h : Heap) : Event → Option Heap
  | .malloc want room => (h.malloc want.toNat room fuel).map fun (p,h) => h.give p want.toNat
  | .calloc n size room => (h.calloc n.toNat size.toNat room fuel).map fun (p,h) => h.give p (n.toNat*size.toNat)
  | .realloc p want room =>
    if !h.owns p then none
    else (h.realloc p want.toNat room fuel).map fun (np,h') =>
      if np = 0 then (if want.toNat = 0 then h'.drop p else h')
      else if p = 0 then h'.give np want.toNat
      else
        let old := h.size (p - hdrSize) - hdrSize
        let h' := (h'.drop p).give np want.toNat
        { h' with copies := h'.copies ++
          [⟨h.bytes p old,want.toNat,h'.bytes np (h'.size (np - hdrSize) - hdrSize)⟩] }
  | .free p => if !h.owns p then none else (h.free p fuel).map fun h => h.drop p
  | .write a v =>
    if h.live.any fun l => l.addr + hdrSize ≤ a && a < l.addr + l.size then
      some { h with mem := Function.update h.mem a v, contents := Function.update h.contents a v }
    else none

def step (h : Heap) (e : ℕ × Event) : Option (Unit × Heap) := (call e.1 h e.2).map fun h => ((),h)

def initial (mem : ByteMem) : Heap := ⟨mem,0,userHeapBase,[],mem,[]⟩

end VibeOS.Malloc

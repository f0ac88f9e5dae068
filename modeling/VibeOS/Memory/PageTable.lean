import VibeOS.Widths
import Mathlib.Data.List.FinRange

/-! The frame allocator of `pmem.c` and the sharing counts of `pmem_refcount.c`. A frame is named
by its physical address. -/
namespace VibeOS.Memory
open Function

def pageSize : ℕ := 4096

/-- The free frames, first the one that is handed out next, what the frames hold, and the counts
of the frames in the table's range. -/
structure Pmem where
  free : List ℕ
  bytes : ℕ → ℕ → UInt8
  rcBase : ℕ
  rcPages : ℕ
  rc : ℕ → ℕ

namespace Pmem
variable (m : Pmem)

def linkByte (next i : ℕ) : UInt8 := UInt8.ofNat (next/256^i)

def pushFree (pa : ℕ) : Pmem :=
  let page := fun i => if i < 8 then linkByte (m.free.headD 0) i else m.bytes pa i
  { m with free := pa :: m.free, bytes := update m.bytes pa page }

def allocPage : ℕ × Pmem :=
  match m.free with
  | [] => (0,m)
  | pa :: rest => (pa,{ m with free := rest, bytes := update m.bytes pa fun _ => 0 })

def freePage (pa : ℕ) : Pmem := if pa = 0 ∨ pa % pageSize ≠ 0 then m else m.pushFree pa

def paInRange (pa : ℕ) : Prop := m.rcBase ≤ pa ∧ (pa - m.rcBase)/pageSize < m.rcPages

instance (pa : ℕ) : Decidable (m.paInRange pa) := inferInstanceAs (Decidable (_ ∧ _))

def refcountSet (pa v : ℕ) : Pmem :=
  if m.paInRange pa then { m with rc := update m.rc pa v } else m

def refcountGet (pa : ℕ) : ℕ := if m.paInRange pa then m.rc pa else 0

def refcountShare (pa : ℕ) : Pmem :=
  m.refcountSet pa (if m.rc pa = 0 then 2 else (m.rc pa + 1) % 2^16)

def refcountDec (pa : ℕ) : Pmem := if m.rc pa = 0 then m else m.refcountSet pa (m.rc pa - 1)

def decAndFree (pa : ℕ) : Pmem :=
  if pa = 0 then m
  else if m.refcountGet pa ≥ 2 then m.refcountDec pa
  else (if m.refcountGet pa = 1 then m.refcountSet pa 0 else m).freePage pa

end Pmem

/-! The page cache of `page_cache.c`. The sections that run with `g_lock` held are functions of
their own; between them another call can run. -/

def pageCacheSlots : ℕ := 32

structure Slot where
  used : Bool
  cacheId : ℕ
  offset : ℕ
  pa : ℕ
  refcount : ℕ
  lastUsed : ℕ

def Slot.empty : Slot := ⟨false,0,0,0,0,0⟩

/-- `g_slots` with the clock and the counters. -/
structure PageCache where
  slots : Fin pageCacheSlots → Slot
  clock : ℕ
  hits : ℕ
  misses : ℕ
  evicts : ℕ

/-- `page_cache_init` -/
def PageCache.init : PageCache := ⟨fun _ => .empty,1,0,0,0⟩

/-- A counter of 32 bits. -/
def tick (n : ℕ) : ℕ := (n + 1) % 2^32

/-- What a call of `page_cache_get_or_load` does next. -/
inductive Call
  | idle
  /-- the slot's old page goes to pmem -/
  | evicting (cacheId offset oldPa : ℕ)
  /-- it takes the lock again -/
  | evicted (cacheId offset : ℕ)
  | allocating (victim : Fin pageCacheSlots)
  | loading (victim : Fin pageCacheSlots) (pa : ℕ)
  /-- the loader failed and the page goes back -/
  | failed (victim : Fin pageCacheSlots) (pa : ℕ)
  /-- the slot is given up -/
  | abandoning (victim : Fin pageCacheSlots)
  | installing (victim : Fin pageCacheSlots) (pa : ℕ)
  deriving DecidableEq

namespace PageCache
variable (c : PageCache)

def findSlot (cacheId offset : ℕ) : Option (Fin pageCacheSlots) :=
  (List.finRange pageCacheSlots).find? fun i =>
    (c.slots i).used && (c.slots i).cacheId == cacheId && (c.slots i).offset == offset

def findSlotByPa (pa : ℕ) : Option (Fin pageCacheSlots) :=
  (List.finRange pageCacheSlots).find? fun i => (c.slots i).used && (c.slots i).pa == pa

/-- The loop of `pick_victim_locked`. A free slot beats any victim. -/
def pickFrom : List (Fin pageCacheSlots) → Option (Fin pageCacheSlots) → ℕ → Option (Fin pageCacheSlots)
  | [], best, _ => best
  | i :: is, best, clk =>
    if !(c.slots i).used then some i
    else if (c.slots i).refcount ≠ 0 then pickFrom is best clk
    else if (c.slots i).lastUsed < clk then pickFrom is (some i) (c.slots i).lastUsed
    else pickFrom is best clk

def pickVictim : Option (Fin pageCacheSlots) := c.pickFrom (List.finRange pageCacheSlots) none 0xFFFFFFFF

def setSlot (i : Fin pageCacheSlots) (s : Slot) : PageCache := { c with slots := update c.slots i s }

def hit (i : Fin pageCacheSlots) : PageCache :=
  let s := { c.slots i with refcount := tick (c.slots i).refcount, lastUsed := tick c.clock }
  { c.setSlot i s with clock := tick c.clock, hits := c.hits + 1 }

def reserve (i : Fin pageCacheSlots) (cacheId offset : ℕ) : PageCache :=
  { c.setSlot i ⟨true,cacheId,offset,0,1,tick c.clock⟩ with clock := tick c.clock, misses := c.misses + 1 }

def clear (i : Fin pageCacheSlots) : PageCache := c.setSlot i { c.slots i with used := false, refcount := 0 }

def install (i : Fin pageCacheSlots) (pa : ℕ) : PageCache := c.setSlot i { c.slots i with pa := pa }

/-! ### The sections of page_cache_get_or_load

Each gives what the call does next, and its return value when it is over. -/

/-- From the re-pick of the slot to the unlock before the page is allocated. -/
def reserveSection (cacheId offset : ℕ) : PageCache × Call × Option ℕ :=
  match c.findSlot cacheId offset with
  | some i => (c.hit i,.idle,some (c.slots i).pa)
  | none =>
    match c.pickVictim with
    | none => (c,.idle,some 0)
    | some victim => (c.reserve victim cacheId offset,.allocating victim,none)

/-- From the first lock. With a victim that is in use the lock is dropped to free its page;
otherwise the next section follows under the same lock. -/
def lookupSection (cacheId offset : ℕ) : PageCache × Call × Option ℕ :=
  match c.findSlot cacheId offset with
  | some i => (c.hit i,.idle,some (c.slots i).pa)
  | none =>
    match c.pickVictim with
    | none => (c,.idle,some 0)
    | some victim =>
      if (c.slots victim).used then (c,.evicting cacheId offset (c.slots victim).pa,none)
      else c.reserveSection cacheId offset

def release (pa : ℕ) : PageCache :=
  if pa = 0 then c
  else
    match c.findSlotByPa pa with
    | none => c
    | some i =>
      if (c.slots i).refcount > 0 then c.setSlot i { c.slots i with refcount := (c.slots i).refcount - 1 } else c

end PageCache

/-- The next piece of a call that has begun: a section under the lock, or what it does without
the lock. `ok` is what the loader returns. -/
def Call.next (c : PageCache) (m : Pmem) (ok : Bool) : Call → PageCache × Pmem × Call × Option ℕ
  | .idle => (c,m,.idle,none)
  | .evicting cacheId offset oldPa => (c,m.freePage oldPa,.evicted cacheId offset,none)
  | .evicted cacheId offset =>
    let (c,call,r) := { c with evicts := c.evicts + 1 }.reserveSection cacheId offset
    (c,m,call,r)
  | .allocating victim =>
    let (pa,m) := m.allocPage
    (c,m,if pa = 0 then .abandoning victim else .loading victim pa,none)
  | .loading victim pa => (c,m,if ok then .installing victim pa else .failed victim pa,none)
  | .failed victim pa => (c,m.freePage pa,.abandoning victim,none)
  | .abandoning victim => (c.clear victim,m,.idle,some 0)
  | .installing victim pa => (c.install victim pa,m,.idle,some pa)


/-! The page tables of a process, as `address_space.c` keeps them: the L2 table of the user slot
and its L3 tables. -/

def userVaBase : ℕ := 0x1000000000
def userVaEnd : ℕ := 0x1040000000
def userHeapBase : ℕ := 0x1010000000
def userHeapMax : ℕ := 0x1030000000
def userMmapBase : ℕ := 0x1030000000
def userMmapMax : ℕ := 0x103F000000

/-- The fields of an L3 descriptor. `writable` tells `AP_RW_EL0` from `AP_RO_EL0`; the attributes
that every page has are left out. -/
structure Desc where
  valid : Bool
  writable : Bool
  uxn : Bool
  cow : Bool
  pagecache : Bool
  guard : Bool
  wmWindow : Bool
  pa : ℕ
  deriving DecidableEq

def Desc.zero : Desc := ⟨false,false,false,false,false,false,false,0⟩

def Desc.page (pa : ℕ) (writable executable : Bool) : Desc := ⟨true,writable,!executable,false,false,false,false,pa⟩

structure L3Table where
  pa : ℕ
  entries : Fin 512 → Desc

abbrev Index := Fin 512 × Fin 512

/-- L2_INDEX and L3_INDEX -/
def indexOf (va : ℕ) : Index := (Fin.ofNat 512 (va/2^21),Fin.ofNat 512 (va/2^12))

/-- Every page, in the order of the loops over both tables. -/
def allIndexes : List Index := List.product (List.finRange 512) (List.finRange 512)

inductive VmaKind
  | anon
  | fileRamfs
  deriving DecidableEq

structure Vma where
  va : ℕ
  len : ℕ
  prot : ℕ
  kind : VmaKind
  ramfsIndex : ℕ
  fileOffset : ℕ

structure WmVaRange where
  va : ℕ
  nPages : ℕ

structure AddressSpace where
  l1Pa : ℕ
  l2Pa : ℕ
  l2 : Fin 512 → Option L3Table
  userPagesAlloced : ℕ
  heapBrk : ℕ
  vmas : List Vma
  mmapBrk : ℕ
  wmFreelist : List WmVaRange
  refcount : ℕ

namespace AddressSpace
variable (as : AddressSpace)

/-- `l3_entry_lookup`, with what is at the place it finds. -/
def entryLookup (i : Index) : Option Desc := (as.l2 i.1).map fun t => t.entries i.2

def setEntry (i : Index) (d : Desc) : AddressSpace :=
  let table := (as.l2 i.1).map fun t => { t with entries := update t.entries i.2 d }
  { as with l2 := update as.l2 i.1 table }

def onePageMore : AddressSpace := { as with userPagesAlloced := as.userPagesAlloced + 1 }
def onePageLess : AddressSpace := { as with userPagesAlloced := as.userPagesAlloced - 1 }

/-- `l3_for`: the L3 table for an L2 index is there afterwards, or there was no frame for it. -/
def l3For (i : Fin 512) (m : Pmem) : Option (AddressSpace × Pmem) :=
  match as.l2 i with
  | some _ => some (as,m)
  | none =>
    let (pa,m) := m.allocPage
    if pa = 0 then none
    else some ({ as with l2 := update as.l2 i (some ⟨pa,fun _ => .zero⟩) },m)

/-- The loop of `address_space_map`. -/
def mapLoop (writable executable : Bool) : ℕ → ℕ → ℕ → AddressSpace → Pmem → Bool × AddressSpace × Pmem
  | 0, _, _, as, m => (true,as,m)
  | n + 1, va, pa, as, m =>
    match as.l3For (indexOf va).1 m with
    | none => (false,as,m)
    | some (as,m) =>
      mapLoop writable executable n (va + pageSize) (pa + pageSize)
        (as.setEntry (indexOf va) (.page pa writable executable)).onePageMore m

/-- `address_space_map`; `true` stands for 0 and `false` for -1, here and below. -/
def map (va pa pages : ℕ) (writable executable : Bool) (m : Pmem) : Bool × AddressSpace × Pmem :=
  if pages = 0 ∨ va % pageSize ≠ 0 ∨ pa % pageSize ≠ 0 ∨ va < userVaBase ∨ (va + pages*pageSize) % 2^64 > userVaEnd then
    (false,as,m)
  else mapLoop writable executable pages va pa as m

def installGuard (i : Index) (m : Pmem) : Option (AddressSpace × Pmem) :=
  match as.l3For i.1 m with
  | none => none
  | some (as,m) => some (as.setEntry i { Desc.zero with guard := true },m)

end AddressSpace

/-- `address_space_create`. `kmalloc` may fail; without a second frame the first one is lost. -/
def create (kmallocOk : Bool) (m : Pmem) : Option AddressSpace × Pmem :=
  if !kmallocOk then (none,m)
  else
    let (l1,m) := m.allocPage
    if l1 = 0 then (none,m)
    else
      let (l2,m) := m.allocPage
      if l2 = 0 then (none,m)
      else (some ⟨l1,l2,fun _ => none,0,userHeapBase,[],userMmapBase,[],1⟩,m)

end VibeOS.Memory

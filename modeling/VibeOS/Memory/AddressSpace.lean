import VibeOS.Memory.PageTable

/-! Address spaces as `address_space.c` makes, forks and takes them down: heap growth, fork with
shared pages, faults, mmap regions and windows. -/
namespace VibeOS.Memory

/-- A file of the ramfs. -/
structure Blob where
  size : ℕ
  byte : ℕ → UInt8

/-- What all address spaces share. -/
structure Mem where
  pmem : Pmem
  cache : PageCache
  ramfs : ℕ → Option Blob

namespace AddressSpace
variable (as : AddressSpace)

/-- One entry of `teardown_user_range`. The window manager keeps its pages. -/
def teardownEntry (mem : Mem) (e : Desc) : Mem :=
  if !e.valid then mem
  else if e.wmWindow then mem
  else if e.pagecache then { mem with cache := mem.cache.release e.pa }
  else { mem with pmem := mem.pmem.decAndFree e.pa }

def teardownTable (mem : Mem) (t : L3Table) : Mem :=
  let mem := (List.finRange 512).foldl (fun mem j => teardownEntry mem (t.entries j)) mem
  { mem with pmem := mem.pmem.freePage t.pa }

def teardownUserRange (mem : Mem) : Mem :=
  (List.finRange 512).foldl (fun mem i => (as.l2 i).elim mem (teardownTable mem)) mem

/-- `atomic_sub_return32` of 1 -/
def subReturn32 (n : ℕ) : ℕ := if n = 0 then 2^32 - 1 else n - 1

/-- `address_space_destroy`, with what is left of the address space. -/
def destroy (mem : Mem) : Option AddressSpace × Mem :=
  let left := subReturn32 as.refcount
  if left > 0 then (some { as with refcount := left },mem)
  else
    let mem := as.teardownUserRange mem
    (none,{ mem with pmem := (mem.pmem.freePage as.l2Pa).freePage as.l1Pa })

/-- The growing loop of `address_space_set_brk`, over `n` pages. -/
def growHeap : ℕ → ℕ → AddressSpace → Pmem → Bool × AddressSpace × Pmem
  | 0, _, as, m => (true,as,m)
  | n + 1, va, as, m =>
    let (pa,m) := m.allocPage
    if pa = 0 then (false,as,m)
    else
      match as.map va pa 1 true false m with
      | (false,as,m) => (false,as,m.freePage pa)
      | (true,as,m) => growHeap n (va + pageSize) as m

def shrinkHeap : ℕ → ℕ → AddressSpace → Pmem → AddressSpace × Pmem
  | 0, _, as, m => (as,m)
  | n + 1, va, as, m =>
    match as.entryLookup (indexOf va) with
    | none => shrinkHeap n (va + pageSize) as m
    | some e =>
      if !e.valid then shrinkHeap n (va + pageSize) as m
      else shrinkHeap n (va + pageSize) (as.setEntry (indexOf va) .zero).onePageLess (m.decAndFree e.pa)

/-- The request of `address_space_set_brk`, aligned and not below the heap. -/
def brkTarget (newBrk : ℕ) : ℕ := max ((newBrk + pageSize - 1) % 2^64/pageSize*pageSize) userHeapBase

def setBrk (newBrk : ℕ) (m : Pmem) : Bool × AddressSpace × Pmem :=
  let target := brkTarget newBrk
  if target > userHeapMax then (false,as,m)
  else if target > as.heapBrk then
    match growHeap ((target - as.heapBrk + pageSize - 1)/pageSize) as.heapBrk as m with
    | (false,as,m) => (false,as,m)
    | (true,as,m) => (true,{ as with heapBrk := target },m)
  else
    let (as,m) := shrinkHeap ((as.heapBrk - target + pageSize - 1)/pageSize) target as m
    (true,{ as with heapBrk := target },m)

/-- The descriptor that parent and child have of a page after the fork. -/
def shared (e : Desc) : Desc := ⟨true,false,e.uxn,e.writable || e.cow,false,false,false,e.pa⟩

/-- One round of the loop of `address_space_clone_cow`: parent, child and frames. -/
def cloneEntry (i : Index) (src dst : AddressSpace) (m : Pmem) : Bool × AddressSpace × AddressSpace × Pmem :=
  match src.entryLookup i with
  | none => (true,src,dst,m)
  | some e =>
    if !e.valid then
      if e.guard then
        match dst.installGuard i m with
        | none => (false,src,dst,m)
        | some (dst,m) => (true,src,dst,m)
      else (true,src,dst,m)
    else if e.pagecache then (true,src,dst,m)
    else if e.wmWindow then (true,src,dst,m)
    else
      match dst.l3For i.1 m with
      | none => (false,src,dst,m)
      | some (dst,m) =>
        (true,src.setEntry i (shared e),(dst.setEntry i (shared e)).onePageMore,m.refcountShare e.pa)

def cloneLoop : List Index → AddressSpace → AddressSpace → Pmem → Bool × AddressSpace × AddressSpace × Pmem
  | [], src, dst, m => (true,src,dst,m)
  | i :: is, src, dst, m =>
    match cloneEntry i src dst m with
    | (false,src,dst,m) => (false,src,dst,m)
    | (true,src,dst,m) => cloneLoop is src dst m

/-- `address_space_clone_cow`: the child, if there is one, and the parent. -/
def cloneCow (src : AddressSpace) (kmallocOk : Bool) (mem : Mem) : Option AddressSpace × AddressSpace × Mem :=
  match create kmallocOk mem.pmem with
  | (none,m) => (none,src,{ mem with pmem := m })
  | (some dst,m) =>
    match cloneLoop allIndexes src dst m with
    | (true,src,dst,m) => (some { dst with heapBrk := src.heapBrk },src,{ mem with pmem := m })
    | (false,src,dst,m) => (none,src,(dst.destroy { mem with pmem := m }).2)

def copyPage (m : Pmem) (src dst : ℕ) : Pmem := { m with bytes := Function.update m.bytes dst (m.bytes src) }

/-- `address_space_handle_cow_fault` -/
def handleCowFault (faultVa : ℕ) (m : Pmem) : Bool × AddressSpace × Pmem :=
  let va := faultVa/pageSize*pageSize
  if va < userVaBase ∨ va ≥ userVaEnd then (false,as,m)
  else
    match as.entryLookup (indexOf va) with
    | none => (false,as,m)
    | some e =>
      if !e.valid then (false,as,m)
      else if !e.cow then (false,as,m)
      else if e.writable then (false,as,m)
      else if m.refcountGet e.pa ≤ 1 then
        let m := if m.refcountGet e.pa = 1 then m.refcountDec e.pa else m
        (true,as.setEntry (indexOf va) (.page e.pa true (!e.uxn)),m)
      else
        let (new,m) := m.allocPage
        if new = 0 then (false,as,m)
        else
          let m := copyPage m e.pa new
          (true,as.setEntry (indexOf va) (.page new true (!e.uxn)),m.refcountDec e.pa)

/-- `address_space_make_writable` -/
def makeWritable (va : ℕ) (m : Pmem) : Bool × AddressSpace × Pmem :=
  if va/pageSize*pageSize < userVaBase ∨ va/pageSize*pageSize ≥ userVaEnd then (false,as,m)
  else
    match as.entryLookup (indexOf va) with
    | none => (false,as,m)
    | some e =>
      if !e.valid then (false,as,m)
      else if e.writable then (true,as,m)
      else if !e.cow then (false,as,m)
      else as.handleCowFault va m

def protRead : ℕ := 1
def protWrite : ℕ := 2

/-- `vma_insert_sorted` -/
def vmaInsertSorted (v : Vma) : List Vma → List Vma
  | [] => [v]
  | w :: vs => if w.va < v.va then w :: vmaInsertSorted v vs else v :: w :: vs

/-- `vma_find` -/
def vmaFind (va : ℕ) : List Vma → Option Vma
  | [] => none
  | v :: vs => if v.va ≤ va ∧ va < v.va + v.len then some v else if v.va > va then none else vmaFind va vs

/-- `mmap_brk_alloc` -/
def mmapBrkAlloc (pages : ℕ) : Option (ℕ × AddressSpace) :=
  let bytes := pages*pageSize % 2^64
  let top := (as.mmapBrk + bytes) % 2^64
  if top < as.mmapBrk then none
  else if top > userMmapMax then none
  else some (as.mmapBrk,{ as with mmapBrk := top })

/-- What `mmap_anon` and `mmap_ramfs` have in common. The break moves back when there is no memory
for the vma. -/
def mmapRegion (pages : ℕ) (kmallocOk : Bool) (v : ℕ → Vma) : ℕ × AddressSpace :=
  match as.mmapBrkAlloc pages with
  | none => (0,as)
  | some (va,as) =>
    if !kmallocOk then (0,{ as with mmapBrk := (as.mmapBrk + 2^64 - pages*pageSize % 2^64) % 2^64 })
    else (va,{ as with vmas := vmaInsertSorted (v va) as.vmas })

/-- `address_space_mmap_anon` -/
def mmapAnon (pages prot : ℕ) (kmallocOk : Bool) : ℕ × AddressSpace :=
  if pages = 0 then (0,as)
  else if prot &&& (protRead ||| protWrite) = 0 then (0,as)
  else as.mmapRegion pages kmallocOk fun va => ⟨va,pages*pageSize % 2^64,prot,.anon,0,0⟩

/-- `address_space_mmap_ramfs` -/
def mmapRamfs (pages ramfsIndex fileOffset : ℕ) (ramfs : ℕ → Option Blob) (kmallocOk : Bool) : ℕ × AddressSpace :=
  if pages = 0 then (0,as)
  else if fileOffset % pageSize ≠ 0 then (0,as)
  else if (ramfs ramfsIndex).isNone then (0,as)
  else as.mmapRegion pages kmallocOk fun va => ⟨va,pages*pageSize % 2^64,protRead,.fileRamfs,ramfsIndex,fileOffset⟩

/-- The loop of `address_space_munmap` over the pages of the vma. -/
def unmapLoop : ℕ → ℕ → AddressSpace → Mem → AddressSpace × Mem
  | 0, _, as, mem => (as,mem)
  | n + 1, va, as, mem =>
    match as.entryLookup (indexOf va) with
    | none => unmapLoop n (va + pageSize) as mem
    | some e =>
      if !e.valid then unmapLoop n (va + pageSize) as mem
      else
        let mem :=
          if e.pagecache then { mem with cache := mem.cache.release e.pa }
          else { mem with pmem := mem.pmem.decAndFree e.pa }
        unmapLoop n (va + pageSize) (as.setEntry (indexOf va) .zero).onePageLess mem

/-- `address_space_munmap` -/
def munmap (va : ℕ) (mem : Mem) : Bool × AddressSpace × Mem :=
  match as.vmas.find? fun v => v.va == va with
  | none => (false,as,mem)
  | some v =>
    let as := { as with vmas := as.vmas.eraseP fun v => v.va == va }
    let (as,mem) := unmapLoop ((v.len + pageSize - 1)/pageSize) v.va as mem
    (true,as,mem)

/-- `ramfs_loader` -/
def ramfsLoader (ramfs : ℕ → Option Blob) (ramfsIndex offset pa : ℕ) (m : Pmem) : Bool × Pmem :=
  match ramfs ramfsIndex with
  | none => (false,m)
  | some blob =>
    let page := fun i => if offset + i < blob.size ∧ i < pageSize then blob.byte (offset + i) else m.bytes pa i
    (true,{ m with bytes := Function.update m.bytes pa page })

end AddressSpace

/-- A call of `page_cache_get_or_load` that runs to its end, from where it is. -/
def Call.finish (load : ℕ → Pmem → Bool × Pmem) : ℕ → Call → PageCache → Pmem → ℕ × PageCache × Pmem
  | 0, _, c, m => (0,c,m)
  | fuel + 1, call, c, m =>
    let (ok,m) := match call with
      | .loading _ pa => load pa m
      | _ => (true,m)
    match call.next c m ok with
    | (c,m,_,some pa) => (pa,c,m)
    | (c,m,call,none) => finish load fuel call c m

/-- `page_cache_get_or_load` without other calls in between. -/
def getOrLoad (cacheId offset : ℕ) (load : ℕ → Pmem → Bool × Pmem) (c : PageCache) (m : Pmem) : ℕ × PageCache × Pmem :=
  if offset % pageSize ≠ 0 then (0,c,m)
  else
    match c.lookupSection cacheId offset with
    | (c,_,some pa) => (pa,c,m)
    | (c,call,none) => call.finish load 6 c m

namespace AddressSpace
variable (as : AddressSpace)

/-- `build_user_desc` -/
def buildUserDesc (pa : ℕ) (writable isPagecache : Bool) : Desc := ⟨true,writable,true,false,isPagecache,false,false,pa⟩

/-- `address_space_handle_mmap_fault` -/
def handleMmapFault (faultVa : ℕ) (isWrite : Bool) (mem : Mem) : Bool × AddressSpace × Mem :=
  let va := faultVa/pageSize*pageSize
  if va < userVaBase ∨ va ≥ userVaEnd then (false,as,mem)
  else
    match vmaFind va as.vmas with
    | none => (false,as,mem)
    | some v =>
      if isWrite ∧ v.prot &&& protWrite = 0 then (false,as,mem)
      else if ((as.entryLookup (indexOf va)).map Desc.valid).getD false then (false,as,mem)
      else
        match v.kind with
        | .anon =>
          let (pa,m) := mem.pmem.allocPage
          if pa = 0 then (false,as,{ mem with pmem := m })
          else
            match as.l3For (indexOf va).1 m with
            | none => (false,as,{ mem with pmem := m.freePage pa })
            | some (as,m) =>
              (true,(as.setEntry (indexOf va) (buildUserDesc pa (v.prot &&& protWrite != 0) false)).onePageMore,
                { mem with pmem := m })
        | .fileRamfs =>
          let fileOffset := v.fileOffset + (va - v.va)
          let cacheId := 2^24 ||| (v.ramfsIndex &&& 0x00FFFFFF)
          let (pa,c,m) := getOrLoad cacheId fileOffset (ramfsLoader mem.ramfs v.ramfsIndex fileOffset) mem.cache mem.pmem
          let mem := { mem with cache := c, pmem := m }
          if pa = 0 then (false,as,mem)
          else
            match as.l3For (indexOf va).1 mem.pmem with
            | none => (false,as,{ mem with cache := mem.cache.release pa })
            | some (as,m) =>
              (true,(as.setEntry (indexOf va) (buildUserDesc pa false true)).onePageMore,{ mem with pmem := m })

end AddressSpace
end VibeOS.Memory

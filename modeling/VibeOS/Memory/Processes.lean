import VibeOS.Memory.Fork
import VibeOS.Runs

/-! The machine of all processes and their memory, over every order of the calls of
`address_space.c`. -/
namespace VibeOS.Memory
open Function (update)
open VibeOS.Storage

/-- The address spaces by name, and the frames that a caller of `pmem_alloc_page` has in hand and
has neither mapped nor freed. -/
structure Kernel where
  mem : Mem
  spaces : Spaces
  fresh : ℕ → Bool

inductive KernelEvent
  | create (b : ℕ) (kmallocOk : Bool)
  | alloc
  | free (pa : ℕ)
  | map (a va pa pages : ℕ) (writable executable : Bool)
  | clone (a b : ℕ) (kmallocOk : Bool)
  | cowFault (a va : ℕ)
  | makeWritable (a va : ℕ)
  | setBrk (a newBrk : ℕ)
  | mmapAnon (a pages prot : ℕ) (kmallocOk : Bool)
  | mmapFault (a va : ℕ) (isWrite : Bool)
  | munmap (a va : ℕ)
  | destroy (a : ℕ)
  /-- the program writes a byte, or the kernel does for it -/
  | store (a va : ℕ) (byte : UInt8) (byKernel : Bool)

def storeByte (as : AddressSpace) (va : ℕ) (byte : UInt8) (m : Pmem) : Pmem :=
  let pa := (as.entry (indexOf va)).pa
  { m with bytes := update m.bytes pa (update (m.bytes pa) (va % pageSize) byte) }

namespace Kernel
variable (k : Kernel)

def on (a : ℕ) (f : AddressSpace → Mem → Bool × AddressSpace × Mem) : Option (Bool × Kernel) :=
  (k.spaces a).map fun as =>
    let (ok,as,mem) := f as k.mem
    (ok,{ k with mem := mem, spaces := update k.spaces a (some as) })

def onPmem (a : ℕ) (f : AddressSpace → Pmem → Bool × AddressSpace × Pmem) : Option (Bool × Kernel) :=
  k.on a fun as mem =>
    let (ok,as,m) := f as mem.pmem
    (ok,as,{ mem with pmem := m })

def step (k : Kernel) : KernelEvent → Option (Bool × Kernel)
  | .create b kmallocOk =>
    let (r,m) := create kmallocOk k.mem.pmem
    some (r.isSome,{ k with mem := { k.mem with pmem := m }, spaces := update k.spaces b r })
  | .alloc =>
    let (pa,m) := k.mem.pmem.allocPage
    some (pa != 0,
      { k with mem := { k.mem with pmem := m }, fresh := if pa = 0 then k.fresh else update k.fresh pa true })
  | .free pa => some (true,
      { k with mem := { k.mem with pmem := k.mem.pmem.freePage pa }, fresh := update k.fresh pa false })
  | .map a va pa pages writable executable =>
    (k.onPmem a fun as m => as.map va pa pages writable executable m).map fun (ok,k) =>
      (ok,{ k with fresh := fun f => k.fresh f && !(List.range pages).any fun j => pa + j*pageSize == f })
  | .clone a b kmallocOk => (k.spaces a).map fun src =>
      let (child,src,mem) := src.cloneCow kmallocOk k.mem
      (child.isSome,{ k with mem := mem, spaces := update (update k.spaces a (some src)) b child })
  | .cowFault a va => k.onPmem a fun as m => as.handleCowFault va m
  | .makeWritable a va => k.onPmem a fun as m => as.makeWritable va m
  | .setBrk a newBrk => k.onPmem a fun as m => as.setBrk newBrk m
  | .mmapAnon a pages prot kmallocOk => k.onPmem a fun as m =>
      let (va,as) := as.mmapAnon pages prot kmallocOk
      (va != 0,as,m)
  | .mmapFault a va isWrite => k.on a fun as mem => as.handleMmapFault va isWrite mem
  | .munmap a va => k.on a fun as mem => as.munmap va mem
  | .destroy a => (k.spaces a).map fun as =>
      let (left,mem) := as.destroy k.mem
      (left.isNone,{ k with mem := mem, spaces := update k.spaces a left })
  | .store a va byte byKernel => k.onPmem a fun as m =>
      -- the write faults when the page cannot be written, and is tried again after the fault
      let (ok,as,m) :=
        if byKernel then as.makeWritable va m
        else if (as.entry (indexOf va)).valid && (as.entry (indexOf va)).writable then (true,as,m)
        else as.handleCowFault va m
      (ok,as,if ok then storeByte as va byte m else m)

def Boots (k : Kernel) : Prop := k.spaces = (fun _ => none) ∧ k.fresh = (fun _ => false) ∧ k.mem.pmem.free.Nodup ∧
  (∀ f ∈ k.mem.pmem.free, k.mem.pmem.Good f) ∧ ∀ f, k.mem.pmem.rc f = 0

def mappers (f : ℕ) : Set (ℕ × Index) := { x | ∃ as, k.spaces x.1 = some as ∧ (as.entry x.2).frame = some f }

/-- Names of address spaces are new, callers map and free frames that they have in hand, where
nothing is mapped, and forks leave fewer than 65535 sharers. -/
def Contract (k : Kernel) : KernelEvent → Prop
  | .create b _ => k.spaces b = none
  | .free pa => k.fresh pa = true
  | .map a va pa pages _ _ => ∀ j, j < pages → k.fresh (pa + j*pageSize) = true ∧
      ∀ as, k.spaces a = some as → (as.entry (indexOf (va + j*pageSize))).valid = false
  | .clone a b _ => k.spaces b = none ∧ ∀ as f, k.spaces a = some as →
      (k.mappers f).encard + (allIndexes.countP fun j => (as.entry j).frame = some f : ℕ) < 65535
  | _ => True

/-- The heap does not grow over a page that is shared. -/
def Unshared (k : Kernel) : KernelEvent → Prop
  | .setBrk a newBrk => ∀ as, k.spaces a = some as → as.NoSharedOverwrite newBrk k.mem.pmem
  | _ => True

end Kernel
end VibeOS.Memory

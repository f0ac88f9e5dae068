import VibeOS.Storage.Counted
import VibeOS.Runs

/-! The life of the threads in `thread.c`: creation, `thread_waitpid` and `thread_exit`, and what
these allocate and free. -/
namespace VibeOS.Threads.Lifecycle
open Function
open VibeOS.Storage

/-- `(int)` of the value of the counter `g_next_id`. -/
def pid (serial : ℕ) : ℤ := (serial : ℤ).bmod (2^32)

/-- A `struct thread` on the list of all threads. A thread is named by the value of the counter that
it took its id from, its stack and its trace ring by the thread, and an address space and a table
of descriptors by the thread that they were made for. -/
structure Thread where
  serial : ℕ
  parent : ℤ
  exited : Bool
  stack : Bool
  as : Option ℕ
  fdt : Option ℕ
  strace : Bool

inductive Make
  /-- `thread_create`, `thread_create_on` -/
  | kernel
  /-- `sys_fork` and the spawn calls: an address space of its own -/
  | user
  /-- `sys_clone`, `sys_clone3`: that of the caller, and with CLONE_FILES its descriptors -/
  | shared (files : Bool)

/-- `all` is the list of all threads, which is walked from the newest one, and the lists hold what
was given to `kfree`. What is behind them is kept beside the kernel's own data: who made whom, what
a thread had at first, and who got a trace ring, exited, was reaped. -/
structure Kernel where
  all : ℕ → Option Thread
  made : ℕ
  count : ℕ
  spaces : Counted
  tables : Counted
  structFrees : List ℕ
  stackFrees : List ℕ
  ringFrees : List ℕ
  creator : ℕ → Option ℕ
  born : ℕ → Option Thread
  traced : ℕ → Bool
  exits : ℕ → Bool
  reaped : ℕ → Bool

inductive Event
  | create (p : ℕ) (how : Make) (table : Bool)
  | trace (p : ℕ)
  /-- `thread_waitpid` up to its return or its next sleep -/
  | waitpid (p : ℕ) (target : ℤ)
  | exit (p : ℕ)

namespace Kernel
variable (k : Kernel)

def running (p : ℕ) : Option Thread := (k.all p).filter fun t => !t.exited

def listed : List ℕ := (List.range k.made).reverse

def set (s : ℕ) (o : Option Thread) : Kernel := { k with all := update k.all s o }

def newSpace (t : Thread) : Make → Option (Option ℕ × Counted)
  | .kernel => some (none,k.spaces)
  | .user => some (some k.made,k.spaces.create k.made)
  | .shared _ => t.as.map fun a => (some a,k.spaces.share a)

/-- The table of a new thread, where `table` tells whether there is memory for one. -/
def newTable (t : Thread) (how : Make) (table : Bool) : Option ℕ × Counted :=
  match how,t.fdt with
  | .shared true,some f => (some f,k.tables.share f)
  | _,_ => if table then (some k.made,k.tables.create k.made) else (none,k.tables)

def create (t : Thread) (how : Make) (table : Bool) : Option Kernel :=
  (k.newSpace t how).map fun (as,spaces) =>
    let (fdt,tables) := k.newTable t how table
    let s := k.made
    let new : Thread := ⟨s,pid t.serial,false,true,as,fdt,false⟩
    { k with
      all := update k.all s (some new)
      made := s + 1
      count := (k.count + 1) % 2^32
      spaces := spaces
      tables := tables
      creator := update k.creator s (some t.serial)
      born := update k.born s (some new) }

/-- The two places that reap a thread: `thread_waitpid`, and the sweep of `thread_exit`. -/
def reclaim (u : Thread) : Kernel :=
  { k with
    all := update k.all u.serial none
    ringFrees := if u.strace then u.serial :: k.ringFrees else k.ringFrees
    stackFrees := if u.stack then u.serial :: k.stackFrees else k.stackFrees
    spaces := match u.as with
      | some a => k.spaces.unref a
      | none => k.spaces
    structFrees := u.serial :: k.structFrees
    count := (k.count + (2^32 - 1)) % 2^32
    reaped := update k.reaped u.serial true }

def waitpid (t : Thread) (target : ℤ) : Kernel :=
  let isMatch (u : Thread) := u.parent == pid t.serial && (decide (target ≤ 0) || pid u.serial == target)
  match (k.listed.filterMap k.all).find? fun u => isMatch u && u.exited with
  | some u => k.reclaim u
  | none => k

/-- `vfs_close_all` -/
def closeAll (t : Thread) : Kernel :=
  { k with
    tables := match t.fdt with
      | some f => k.tables.unref f
      | none => k.tables }

def sweepOne (me s : ℕ) : Kernel :=
  match k.all s with
  | none => k
  | some u =>
    if u.parent = pid me then
      if u.exited then k.reclaim u else k.set s (some { u with parent := -1 })
    else k

def sweep (me : ℕ) : Kernel := k.listed.foldl (fun k s => k.sweepOne me s) k

/-- `drain_stack_to_free`, with the thread in the slot. -/
def drain (t : Thread) : Kernel :=
  { k with
    stackFrees := if t.stack then t.serial :: k.stackFrees else k.stackFrees
    all := update k.all t.serial ((k.all t.serial).map fun t => { t with stack := false }) }

def exit (t : Thread) : Kernel :=
  let k := k.closeAll t
  let k := k.set t.serial (some { t with exited := true })
  let k := k.sweep t.serial
  -- no parent: the thread leaves the list, and nothing else is done for it
  let k := if t.parent ≥ 0 then k else k.set t.serial none
  let k := k.drain t
  { k with exits := update k.exits t.serial true }

/-- `strace_enable` -/
def trace (t : Thread) : Kernel :=
  { k with
    all := update k.all t.serial (some { t with strace := true })
    traced := update k.traced t.serial true }

def step (k : Kernel) : Event → Option (Unit × Kernel)
  | .create p how table => (k.running p).bind fun t => (k.create t how table).map fun k => ((),k)
  | .trace p => (k.running p).map fun t => ((),k.trace t)
  | .waitpid p target => (k.running p).map fun t => ((),k.waitpid t target)
  | .exit p => (k.running p).map fun t => ((),k.exit t)

end Kernel

def boot : Thread := ⟨0,-1,false,false,none,some 0,false⟩

/-- `thread_init` -/
def initial : Kernel where
  all := update (fun _ => none) 0 (some boot)
  made := 1
  count := 1
  spaces := ⟨fun _ => 0,[]⟩
  tables := Counted.create ⟨fun _ => 0,[]⟩ 0
  structFrees := []
  stackFrees := []
  ringFrees := []
  creator := fun _ => none
  born := update (fun _ => none) 0 (some boot)
  traced := fun _ => false
  exits := fun _ => false
  reaped := fun _ => false

end VibeOS.Threads.Lifecycle

import VibeOS.Storage.LinkedQueue
import VibeOS.Runs
import Mathlib.Data.Int.Notation

/-! A connection of the service bus of `srv.c`: two queues of messages between a client and a
service, and the calls on it. -/
namespace VibeOS.Srv
open Function
open VibeOS.Storage

/-- SRV_MSG_MAX -/
def msgMax : ℕ := 64*1024
/-- SRV_QUEUE_MSGS -/
def queueMsgs : ℕ := 8

def eintr : ℤ := 4
def enomem : ℤ := 12
def efault : ℤ := 14
def einval : ℤ := 22
def epipe : ℤ := 32
def emsgsize : ℤ := 90

inductive End
  | client | service
  deriving DecidableEq

/-- The two queues. -/
inductive Dir
  | c2s | s2c
  deriving DecidableEq

def End.reads : End → Dir
  | .service => .c2s
  | .client => .s2c

def End.writes : End → Dir
  | .service => .s2c
  | .client => .c2s

def End.peer : End → End
  | .service => .client
  | .client => .service

abbrev Ptr := UInt64

abbrev Msg := List UInt8

structure Conn where
  queue : Dir → LinkedQueue Ptr
  opened : End → Bool

/-- The connection and the cells of its messages. -/
structure Kernel where
  conn : Conn
  heap : CellHeap Ptr Msg

def userVaBase : ℕ := 0x1000000000
def userVaEnd : ℕ := 0x1040000000

/-- The address space of the calling thread: its bytes, and which pages `prefault_user_write`
can make writable; a kernel thread has none. -/
structure User where
  mem : ℕ → UInt8
  hasSpace : Bool
  prefault : ℕ → Bool

def rangeInUser (uptr len : ℕ) : Bool :=
  decide (userVaBase ≤ uptr ∧ uptr < userVaEnd ∧ len ≤ userVaEnd ∧ uptr + len ≤ userVaEnd)

def pagesOf (uptr len : ℕ) : List ℕ :=
  let first := uptr/4096
  let last := (uptr + len - 1)/4096
  (List.range (last - first + 1)).map fun k => 4096*(first + k)

/-- The checks of `copy_to_user`. -/
def User.accepts (u : User) (uptr len : ℕ) : Bool :=
  rangeInUser uptr len && (decide (len = 0) || !u.hasSpace || (pagesOf uptr len).all u.prefault)

def copyToUser (u : User) (uptr : ℕ) (data : List UInt8) : ℤ × User :=
  if u.accepts uptr data.length then
    (0,{ u with mem := fun a => if uptr ≤ a ∧ a < uptr + data.length then data.getD (a - uptr) 0 else u.mem a })
  else (-efault,u)

def User.bytes (u : User) (uptr len : ℕ) : List UInt8 := (List.range len).map fun k => u.mem (uptr + k)

/-- One turn of the loop of a call: it returns, or the thread blocks on the connection. -/
inductive Turn (α : Type)
  | returns (x : α)
  | blocks

/-- What a call gives back; a message that was read is what the caller has in its buffer. -/
structure Answer where
  value : ℤ
  message : Option Msg

namespace Kernel
variable (k : Kernel)

def setQueue (d : Dir) (q : LinkedQueue Ptr) : Kernel :=
  { k with conn := { k.conn with queue := update k.conn.queue d q } }

/-- `none` where the code would follow a pointer to nothing. -/
def srvRead (e : End) (buf len : UInt64) (u : User) : Option (Turn (Answer × Kernel)) :=
  if buf = 0 ∧ len > 0 then some (.returns (⟨-einval,none⟩,k))
  else
    let q := k.conn.queue e.reads
    if q.count > 0 then do
      let head ← q.head
      let m ← k.heap head
      if m.value.length > len.toNat then return .returns (⟨-emsgsize,none⟩,k)
      else
        let (p,q) ← q.pop k.heap
        let (rc,u) := copyToUser u buf.toNat m.value
        let k := { k.setQueue e.reads q with heap := update k.heap p none }
        if rc < 0 then return .returns (⟨-efault,none⟩,k)
        else return .returns (⟨m.value.length,some (u.bytes buf.toNat m.value.length)⟩,k)
    else if !k.conn.opened e.peer then some (.returns (⟨0,none⟩,k))
    else some .blocks

/-- `buf` is `none` for a NULL pointer and gives the bytes otherwise; `cell` is what `kmalloc`
returns. -/
def srvWrite (e : End) (buf : Option (ℕ → UInt8)) (len : UInt64) (cell : Option Ptr) : Turn (Answer × Kernel) :=
  if buf.isNone ∧ len > 0 then .returns (⟨-einval,none⟩,k)
  else if len.toNat > msgMax then .returns (⟨-emsgsize,none⟩,k)
  else if !k.conn.opened e.peer then .returns (⟨-epipe,none⟩,k)
  else
    let q := k.conn.queue e.writes
    if q.count < queueMsgs then
      match cell with
      | none => .returns (⟨-enomem,none⟩,k)
      | some p =>
        let data := (List.range len.toNat).map (buf.getD fun _ => 0)
        let (heap,q) := q.push (update k.heap p (some ⟨none,data⟩)) p
        .returns (⟨len.toNat,none⟩,{ k.setQueue e.writes q with heap := heap })
    else .blocks

/-- `queue_drain`. -/
def queueDrain (d : Dir) : Option Kernel := do
  let q := k.conn.queue d
  let heap ← freeChain (q.count + 1) k.heap q.head
  return { k.setQueue d LinkedQueue.empty with heap := heap }

/-- `srv_unref_conn`; the connection is gone when both ends are closed. -/
def srvUnrefConn (e : End) : Option Kernel :=
  let k := { k with conn := { k.conn with opened := update k.conn.opened e false } }
  if !k.conn.opened .client ∧ !k.conn.opened .service then do
    let k ← k.queueDrain .c2s
    k.queueDrain .s2c
  else some k

def accepted : Kernel := ⟨⟨fun _ => LinkedQueue.empty,fun _ => true⟩,fun _ => none⟩

end Kernel

inductive Event
  | read (e : End) (buf len : UInt64) (u : User)
  | write (e : End) (buf : Option (ℕ → UInt8)) (len : UInt64) (cell : Option Ptr)
  /-- A blocked call of this end wakes up and finds a signal. -/
  | interrupted (e : End)
  | close (e : End)

def Event.end_ : Event → End
  | .read e _ _ _ | .write e _ _ _ | .interrupted e | .close e => e

/-- A call that returns; a call that would block has no step. An end calls until it is closed,
and `kmalloc` gives out memory that nobody holds. -/
def step (k : Kernel) (ev : Event) : Option (Answer × Kernel) :=
  if !k.conn.opened ev.end_ then none
  else
    match ev with
    | .read e buf len u =>
      match k.srvRead e buf len u with
      | some (.returns r) => some r
      | _ => none
    | .write e buf len cell =>
      if cell.any fun p => (k.heap p).isSome then none
      else
        match k.srvWrite e buf len cell with
        | .returns r => some r
        | .blocks => none
    | .interrupted _ => some (⟨-eintr,none⟩,k)
    | .close e => (k.srvUnrefConn e).map fun k => (⟨0,none⟩,k)

end VibeOS.Srv

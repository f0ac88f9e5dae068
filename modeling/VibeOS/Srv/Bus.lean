import VibeOS.Srv.Connection
import Mathlib.Data.Fintype.Basic

/-! The registry of the service bus: how services bind names and how clients connect to them. -/
namespace VibeOS.Srv.Registry
open Function

/-- SRV_NAME_MAX -/
def nameMax : ℕ := 64
/-- SRV_MAX_LISTENERS -/
abbrev maxListeners : ℕ := 16
/-- SRV_PENDING_MAX -/
def pendingMax : ℕ := 4

def enoent : ℤ := 2
def ebadf : ℤ := 9
def eaddrinuse : ℤ := 98

/-- The byte at an index of a string; behind its end there is a NUL. -/
def charAt (s : List UInt8) (i : ℕ) : UInt8 := s.getD i 0

/-- What a string spells, up to its NUL. -/
def cstr (s : List UInt8) : List UInt8 := s.takeWhile (· ≠ 0)

/-- `strn_eq` from index `i` on. -/
def strnEq (a b : List UInt8) (i : ℕ) : ℕ → Bool
  | 0 => true
  | k+1 => if charAt a i ≠ charAt b i then false else if charAt a i = 0 then true else strnEq a b (i + 1) k

/-- `str_copy_cap` -/
def strCopyCap (src : List UInt8) (cap : ℕ) : List UInt8 := (src.take (cap - 1)).takeWhile (· ≠ 0)

/-- The loop of `validate_srv_path`. -/
def validName (path : List UInt8) (i : ℕ) : ℕ → Bool
  | 0 => false
  | k+1 => if charAt path i = 0 then true else if charAt path i = 47 then false else validName path (i + 1) k

def validateSrvPath (path : List UInt8) : Bool :=
  if charAt path 0 ≠ 47 ∨ charAt path 1 ≠ 115 ∨ charAt path 2 ≠ 114 ∨ charAt path 3 ≠ 118 ∨ charAt path 4 ≠ 47 then false
  else if charAt path 5 = 0 then false
  else validName path 5 (nameMax - 5)

/-- A pointer to a connection; `serial` tells which of the allocations at that address it was. -/
@[ext] structure ConnRef where
  ptr : Ptr
  serial : ℕ
  deriving DecidableEq

/-- `struct srv_conn` without its queues. -/
structure SrvConn where
  opened : End → Bool
  peerPid : End → ℕ

/-- `struct srv_listen`; the pending nodes are listed by their connections. -/
structure SrvListen where
  name : List UInt8
  inUse : Bool
  refs : ℕ
  ownerPid : ℕ
  pending : List ConnRef
  pendingCount : ℕ

/-- A thread inside `srv_accept` or `srv_connect`; it is asleep until it is woken. -/
inductive Call
  | accept (l : Fin maxListeners) (asleep : Bool)
  | connect (l : Fin maxListeners) (path : List UInt8) (c : ConnRef) (asleep : Bool)

/-- `live` tells which allocation is at an address and `frees` how often each was freed; `held` are
the ends that their owners have and did not give back, `returned` what `srv_connect` gave out, each
with the number of times that it had been freed before. -/
structure Bus where
  conn : Ptr → SrvConn
  live : Ptr → Option ℕ
  serial : ℕ
  frees : ℕ → ℕ
  listeners : Fin maxListeners → SrvListen
  calls : ℕ → Option Call
  sigPending : ℕ → Bool
  held : End → ConnRef → Bool
  returned : List (ConnRef × ℕ)

def Call.awake : Call → Call
  | .accept l _ => .accept l false
  | .connect l path c _ => .connect l path c false

namespace Bus
variable (b : Bus)

def setCall (th : ℕ) (c : Option Call) : Bus := { b with calls := update b.calls th c }

def setListen (l : Fin maxListeners) (ls : SrvListen) : Bus :=
  { b with listeners := update b.listeners l ls }

def setOpened (p : Ptr) (e : End) (v : Bool) : Bus :=
  { b with conn := update b.conn p { b.conn p with opened := update (b.conn p).opened e v } }

def setPeerPid (p : Ptr) (e : End) (th : ℕ) : Bus :=
  { b with conn := update b.conn p { b.conn p with peerPid := update (b.conn p).peerPid e th } }

def setHeld (e : End) (c : ConnRef) (v : Bool) : Bus :=
  { b with held := update b.held e (update (b.held e) c v) }

def kfree (c : ConnRef) : Bus :=
  { b with live := update b.live c.ptr none, frees := update b.frees c.serial (b.frees c.serial + 1) }

def alloc (th : ℕ) (p : Ptr) : Bus :=
  { b with
    conn := update b.conn p ⟨fun e => e == .client,fun e => if e = .client then th else 0⟩
    live := update b.live p (some b.serial)
    serial := b.serial + 1 }

/-- `thread_wake_blocked` for a connection. -/
def wakeConn (p : Ptr) : Bus :=
  { b with calls := fun th => (b.calls th).map fun
      | .connect l path c asleep => if c.ptr = p then .connect l path c false else .connect l path c asleep
      | .accept l asleep => .accept l asleep }

/-- `thread_wake_blocked` for a listener. -/
def wakeListen (l : Fin maxListeners) : Bus :=
  { b with calls := fun th => (b.calls th).map fun
      | .accept l' asleep => if l' = l then .accept l' false else .accept l' asleep
      | .connect l' path c asleep => .connect l' path c asleep }

/-- `find_listener` -/
def findListener (path : List UInt8) : Option (Fin maxListeners) :=
  (List.finRange maxListeners).find? fun l =>
    (b.listeners l).inUse && strnEq (b.listeners l).name path 0 nameMax

def srvBind (th : ℕ) (path : List UInt8) : Except ℤ (Fin maxListeners) × Bus :=
  if !validateSrvPath path then (.error (-einval),b)
  else if (b.findListener path).isSome then (.error (-eaddrinuse),b)
  else
    match (List.finRange maxListeners).find? fun l => !(b.listeners l).inUse with
    | none => (.error (-enomem),b)
    | some l => (.ok l,b.setListen l ⟨strCopyCap path nameMax,true,1,th,[],0⟩)

def reject (l : Fin maxListeners) (c : ConnRef) : Bus :=
  ((b.setOpened c.ptr .service false).wakeListen l).wakeConn c.ptr

def srvUnrefListen (l : Fin maxListeners) : Bus :=
  let ls := b.listeners l
  if ls.refs - 1 > 0 then b.setListen l { ls with refs := ls.refs - 1 }
  else
    let b := ls.pending.foldl (fun b c => b.reject l c) b
    b.setListen l { ls with refs := 0, pending := [], pendingCount := 0, inUse := false, name := [] }

/-- The loop of `srv_accept`, from its test of the queue to the block. -/
def acceptTurn (th : ℕ) (l : Fin maxListeners) : Bus :=
  let ls := b.listeners l
  match ls.pending with
  | [] => b.setCall th (some (.accept l true))
  | c :: rest =>
    let b := b.setListen l { ls with pending := rest, pendingCount := ls.pendingCount - 1 }
    let b := b.setOpened c.ptr .service true
    let b := b.setPeerPid c.ptr .service th
    ((b.wakeConn c.ptr).setHeld .service c true).setCall th none

/-- `srv_accept` up to its first block. -/
def srvAccept (th : ℕ) (l : Fin maxListeners) : Bus :=
  if !(b.listeners l).inUse then b else b.acceptTurn th l

/-- `srv_accept` behind its block. -/
def acceptWoken (th : ℕ) (l : Fin maxListeners) : Bus :=
  if b.sigPending th then b.setCall th none
  else if !(b.listeners l).inUse then b.setCall th none
  else b.acceptTurn th l

/-- `srv_connect` up to its first block; `cell` is what `kmalloc` returns for the connection, and
`node` tells whether there is memory for the pending node. -/
def srvConnect (th : ℕ) (path : List UInt8) (cell : Option Ptr) (node : Bool) : Bus :=
  if !validateSrvPath path then b
  else
    match b.findListener path with
    | none => b
    | some l =>
      if (b.listeners l).pendingCount ≥ pendingMax then b
      else
        match cell with
        | none => b
        | some p =>
          let c : ConnRef := ⟨p,b.serial⟩
          let b := b.alloc th p
          if !node then b.kfree c
          else
            let ls := b.listeners l
            let b := b.setListen l { ls with pending := ls.pending ++ [c], pendingCount := ls.pendingCount + 1 }
            (b.wakeListen l).setCall th (some (.connect l path c true))

/-- `srv_connect` behind its block. -/
def connectWoken (th : ℕ) (l : Fin maxListeners) (path : List UInt8) (c : ConnRef) : Bus :=
  let ls := b.listeners l
  let accepted := (b.conn c.ptr).opened .service
  if b.sigPending th then
    let b := b.setOpened c.ptr .client false
    if !accepted && ls.pending.any fun c' => c'.ptr == c.ptr then
      let b := b.setListen l { ls with
        pending := ls.pending.eraseP fun c' => c'.ptr == c.ptr
        pendingCount := ls.pendingCount - 1 }
      (b.kfree c).setCall th none
    else b.setCall th none
  else if !ls.inUse && !accepted then ((b.setOpened c.ptr .client false).kfree c).setCall th none
  else if accepted then
    let b := { b with returned := b.returned ++ [(c,b.frees c.serial)] }
    (b.setHeld .client c true).setCall th none
  else b.setCall th (some (.connect l path c true))

def srvUnrefConn (c : ConnRef) (e : End) : Bus :=
  let b := (b.setOpened c.ptr e false).wakeConn c.ptr
  let b := b.setHeld e c false
  if !(b.conn c.ptr).opened .client && !(b.conn c.ptr).opened .service then b.kfree c else b

def turn (th : ℕ) : Option Bus :=
  match b.calls th with
  | some (.accept l false) => some (b.acceptWoken th l)
  | some (.connect l path c false) => some (b.connectWoken th l path c)
  | _ => none

end Bus

inductive Event
  | bind (th : ℕ) (path : List UInt8)
  | unrefListen (l : Fin maxListeners)
  | accept (th : ℕ) (l : Fin maxListeners)
  | connect (th : ℕ) (path : List UInt8) (cell : Option Ptr) (node : Bool)
  | turn (th : ℕ)
  | unrefConn (c : ConnRef) (e : End)
  | signal (th : ℕ)
  /-- The signals are handled on the way out of a system call. -/
  | handled (th : ℕ)

/-- A thread is in one call at a time, `kmalloc` gives out memory that nobody has, and an end or a
listener is given back by its owner. -/
def step (b : Bus) : Event → Option (Unit × Bus)
  | .bind th path => if (b.calls th).isSome then none else some ((),(b.srvBind th path).2)
  | .unrefListen l => if (b.listeners l).inUse then some ((),b.srvUnrefListen l) else none
  | .accept th l => if (b.calls th).isSome then none else some ((),b.srvAccept th l)
  | .connect th path cell node =>
    if (b.calls th).isSome || cell.any fun p => (b.live p).isSome then none
    else some ((),b.srvConnect th path cell node)
  | .turn th => (b.turn th).map fun b => ((),b)
  | .unrefConn c e => if b.held e c then some ((),b.srvUnrefConn c e) else none
  | .signal th =>
    some ((),{ b with
      sigPending := update b.sigPending th true
      calls := update b.calls th ((b.calls th).map Call.awake) })
  | .handled th => some ((),{ b with sigPending := update b.sigPending th false })

def initial (conn : Ptr → SrvConn) : Bus where
  conn := conn
  live _ := none
  serial := 0
  frees _ := 0
  listeners _ := ⟨[],false,0,0,[],0⟩
  calls _ := none
  sigPending _ := false
  held _ _ := false
  returned := []

end VibeOS.Srv.Registry

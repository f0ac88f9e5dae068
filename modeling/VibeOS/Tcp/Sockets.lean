import VibeOS.Tcp.AcceptQueue

/-! The socket calls of `syscall.c` and `vfs.c` on the connection table: any number of descriptor
tables, and threads that wait inside `sys_socket_connect` and `sys_socket_accept`. -/
namespace VibeOS.Tcp
open Function (update)
open VibeOS.Storage

def eintr : ℤ := 4
def eio : ℤ := 5
def ebadf : ℤ := 9
def efault : ℤ := 14
def einval : ℤ := 22
def emfile : ℤ := 24
def eaddrinuse : ℤ := 98

/-- FD_TABLE_SIZE -/
def fdTableSize : ℕ := 16

/-- The turns of the loop of `sys_socket_connect`. -/
def connectTurns : ℕ := 200000000

def tcpState (m : Machine) (cid : ℤ) : TcpState :=
  match m.getConn cid with
  | none => .closed
  | some i => (m.conns i).state

/-- `ip4_be32` -/
def ipOf (ip4 : UInt32) : Ip := fun i => (ip4 >>> UInt32.ofNat (24-8*i.val)).toUInt8

/-- `socket_cid`, and the stamp of the connection that it stood for at first. -/
structure Handle where
  cid : Cid
  opened : ℕ

/-- `struct fd_entry`; the kinds without a connection are one. -/
inductive FdEntry
  | socket (h : Handle)
  | listen (h : Handle)
  | other

def FdEntry.handle : FdEntry → Option Handle
  | .socket h => some h
  | .listen h => some h
  | .other => none

/-- What a thread holds between two turns of a call: the connection that it waits for, after so
many turns, or one that `tcp_accept` returned. -/
inductive Call
  | connecting (h : Handle) (turns : ℕ)
  | accepted (h : Handle)

def Call.handle : Call → Handle
  | .connecting h _ => h
  | .accepted h => h

/-- Every slot carries the stamp of its connection, which is new when the slot is taken. `closed`
tells whether `tcp_close` was called on that connection. -/
structure Sockets where
  tcp : Machine
  fds : ℕ → ℕ → Option FdEntry
  /-- the calls of the threads, each with the table of its thread -/
  calls : ℕ → Option (ℕ × Call)
  stamp : Cid → ℕ
  clock : ℕ
  closed : Cid → Bool

namespace Sockets

inductive Event
  /-- up to the loop -/
  | connect (th t : ℕ) (ip4 : UInt32) (port : ℤ) (isn : UInt32)
  /-- one turn of the loop, after its `net_poll` -/
  | connectTurn (th : ℕ)
  | listen (t : ℕ) (port : ℤ)
  /-- one turn of the loop, after its `net_poll` -/
  | accept (th t : ℕ) (fd : ℤ) (sigPending : Bool)
  /-- the rest of `sys_socket_accept`: were the peer's address and port copied out? -/
  | acceptRest (th : ℕ) (copied : Bool)
  | shutdown (t : ℕ) (fd : ℤ)
  /-- one turn of the loop of `vfs_read` -/
  | read (t : ℕ) (fd : ℤ) (cap : UInt32)
  /-- one chunk of `sys_write` -/
  | write (t : ℕ) (fd : ℤ) (data : ℕ → UInt8) (len : UInt32)
  | close (t : ℕ) (fd : ℤ)
  /-- a descriptor of another kind is made -/
  | occupy (t fd : ℕ)
  /-- the two parts of `net_poll` -/
  | handle (src dst : Ip) (payload : List UInt8) (isn : UInt32)
  | poll

variable (k : Sockets)

def become (m : Machine) : Sockets :=
  { k with
    tcp := m
    stamp := fun i => if !(k.tcp.conns i).valid && (m.conns i).valid then k.clock + 1 else k.stamp i
    clock := k.clock + 1
    closed := fun i => if !(k.tcp.conns i).valid && (m.conns i).valid then false else k.closed i }

/-- A function of `tcp.c`. -/
def tcpCall (e : Tcp.Event) : Option (Answer × Sockets) :=
  (Tcp.step k.tcp e).map fun (a,m) => (a,k.become m)

def setFd (t fd : ℕ) (e : Option FdEntry) : Sockets :=
  { k with fds := update k.fds t (update (k.fds t) fd e) }

def setCall (th : ℕ) (c : Option (ℕ × Call)) : Sockets := { k with calls := update k.calls th c }

def handleOf (cid : ℤ) : Handle := ⟨Fin.ofNat connCap cid.toNat,k.stamp (Fin.ofNat connCap cid.toNat)⟩

def tcpClose (h : Handle) : Option (Answer × Sockets) :=
  let noted := { k with closed := update k.closed h.cid true }
  noted.tcpCall (.close h.cid.val)

def entry (t : ℕ) (fd : ℤ) : Option FdEntry :=
  if 0 ≤ fd ∧ fd < fdTableSize then k.fds t fd.toNat else none

def freeFd (t : ℕ) : Option ℕ := (List.range' 3 (fdTableSize - 3)).find? fun fd => (k.fds t fd).isNone

/-- `vfs_alloc_socket_fd`, `vfs_alloc_listen_fd` and what their callers do when the table is full. -/
def allocFd (t : ℕ) (h : Handle) (e : FdEntry) : Option (Option Answer × Sockets) :=
  match k.freeFd t with
  | some fd => some (some ⟨fd,[]⟩,k.setFd t fd (some e))
  | none => do
    let (_,k) ← k.tcpClose h
    return (some ⟨-emfile,[]⟩,k)

/-- The answer is `none` where the call goes on. -/
def step (k : Sockets) : Event → Option (Option Answer × Sockets)
  | .connect th t ip4 port isn =>
    if (k.calls th).isSome then none
    else if port ≤ 0 ∨ port > 65535 then some (some ⟨-einval,[]⟩,k)
    else do
      let (a,k) ← k.tcpCall (.connect (ipOf ip4) (UInt16.ofNat port.toNat) isn)
      if a.value < 0 then return (some ⟨-emfile,[]⟩,k)
      else return (none,k.setCall th (some (t,.connecting (k.handleOf a.value) 0)))
  | .connectTurn th =>
    match k.calls th with
    | some (t,.connecting h turns) =>
      if turns < connectTurns then
        match tcpState k.tcp h.cid.val with
        | .established => (k.setCall th none).allocFd t h (.socket h)
        | .closed => do
          let (_,k) ← (k.setCall th none).tcpClose h
          return (some ⟨-eio,[]⟩,k)
        | _ => some (none,k.setCall th (some (t,.connecting h (turns + 1))))
      else do
        let (_,k) ← (k.setCall th none).tcpClose h
        return (some ⟨-eio,[]⟩,k)
    | _ => none
  | .listen t port =>
    if port ≤ 0 ∨ port > 65535 then some (some ⟨-einval,[]⟩,k)
    else do
      let (a,k) ← k.tcpCall (.listen (UInt16.ofNat port.toNat))
      if a.value = -2 then return (some ⟨-eaddrinuse,[]⟩,k)
      else if a.value < 0 then return (some ⟨-emfile,[]⟩,k)
      else k.allocFd t (k.handleOf a.value) (.listen (k.handleOf a.value))
  | .accept th t fd sigPending =>
    if (k.calls th).isSome then none
    else
      match k.entry t fd with
      | some (.listen h) => do
        let (a,k) ← k.tcpCall (.accept h.cid.val)
        if a.value ≥ 0 then return (none,k.setCall th (some (t,.accepted (k.handleOf a.value))))
        else if a.value = -1 then return (some ⟨-ebadf,[]⟩,k)
        else if sigPending then return (some ⟨-eintr,[]⟩,k)
        else return (none,k)
      | _ => some (some ⟨-ebadf,[]⟩,k)
  | .acceptRest th copied =>
    match k.calls th with
    | some (t,.accepted h) =>
      if copied then (k.setCall th none).allocFd t h (.socket h)
      else do
        let (_,k) ← (k.setCall th none).tcpClose h
        return (some ⟨-efault,[]⟩,k)
    | _ => none
  | .shutdown t fd =>
    match k.entry t fd with
    | some (.socket h) => do
      let (a,k) ← k.tcpClose h
      return (some a,k)
    | _ => some (some ⟨-ebadf,[]⟩,k)
  | .read t fd cap =>
    match k.entry t fd with
    | some (.socket h) => do
      let (a,k) ← k.tcpCall (.recv h.cid.val cap)
      if a.value > 0 then return (some a,k)
      else if tcpEof k.tcp h.cid.val then return (some ⟨0,[]⟩,k)
      else if a.value < 0 then return (some ⟨-eio,[]⟩,k)
      else return (none,k)
    | some (.listen _) => some (some ⟨-einval,[]⟩,k)
    | some .other => none
    | none => some (some ⟨-ebadf,[]⟩,k)
  | .write t fd data len =>
    match k.entry t fd with
    | some (.socket h) => do
      let (a,k) ← k.tcpCall (.send h.cid.val data len)
      if a.value < 0 then return (some ⟨-eio,[]⟩,k)
      else if a.value = 0 then return (none,k)
      else return (some a,k)
    | some (.listen _) => some (some ⟨-einval,[]⟩,k)
    | some .other => none
    | none => some (some ⟨-ebadf,[]⟩,k)
  | .close t fd =>
    match k.entry t fd with
    | none => some (some ⟨-ebadf,[]⟩,k)
    | some e =>
      -- closing 0, 1 or 2 does nothing
      if fd < 3 then some (some ⟨0,[]⟩,k)
      else
        match e.handle with
        | none => some (some ⟨0,[]⟩,k.setFd t fd.toNat none)
        | some h => do
          let (_,k) ← (k.setFd t fd.toNat none).tcpClose h
          return (some ⟨0,[]⟩,k)
  | .occupy t fd =>
    if fd < fdTableSize ∧ (k.fds t fd).isNone then some (some ⟨fd,[]⟩,k.setFd t fd (some .other)) else none
  | .handle src dst payload isn => do
    let (a,k) ← k.tcpCall (.handle src dst payload isn)
    return (some a,k)
  | .poll => do
    let (a,k) ← k.tcpCall .poll
    return (some a,k)

def initial (n : Net) : Sockets := ⟨.initial n,fun _ _ => none,fun _ => none,fun _ => 0,0,fun _ => false⟩

end Sockets
end VibeOS.Tcp

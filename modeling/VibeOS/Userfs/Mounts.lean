import VibeOS.Userfs.Call
import VibeOS.Storage.Counted

/-! `sys_mount`, `sys_umount` and what may happen between them: opens, closes, copies of descriptors
and operations on paths by any number of processes, each of which may block inside `userfs_call`. -/
namespace VibeOS.Userfs.Mounts
open Function
open VibeOS.Storage

def enoent : ℤ := 2
def ebadf : ℤ := 9
def enomem : ℤ := 12
def ebusy : ℤ := 16
def eexist : ℤ := 17
def emfile : ℤ := 24
def enospc : ℤ := 28
def erofs : ℤ := 30

/-- FD_TABLE_SIZE -/
def fdTableSize : ℕ := 16
/-- MOUNT_MAX -/
def mountMax : ℕ := 16
def slash : UInt8 := 47

/-- The driver of a mount; of `g_userfs_ops` with its channel. -/
inductive Fs
  | builtin
  | userfs (c : ℕ)
  deriving DecidableEq

/-- An entry of `g_mounts`. `id` is what the `sys_mount` of the entry returned, and `moved` tells
whether `vfs_mount_remove` shifted it since. -/
structure Mount where
  pfx : List UInt8
  fs : Fs
  ro : Bool
  id : ℤ
  moved : Bool

/-- `struct userfs_channel`; `live` until it is freed. What its round trips do to its pipes is left
to the environment. -/
structure Channel where
  owner : ℕ
  alive : Bool
  inFlight : Bool
  openFds : ℕ
  live : Bool

/-- A descriptor in use; those of sockets and of `/srv` are not inherited. -/
inductive Entry
  | userfs (c : ℕ)
  | other (inherits : Bool)
  deriving DecidableEq

/-- What a process does with the result of its `userfs_call`. -/
inductive Goal
  | «open» (fd : ℕ)
  /-- the two calls of `vfs_stat_path` before its close -/
  | isDir (path : List UInt8)
  | statOpen (fd : ℕ)
  | close (fd : ℕ)
  /-- a read or write of a descriptor -/
  | io (fd : ℕ)
  /-- a listing, an unlink or a new directory -/
  | path

/-- A process inside `userfs_call`; `holds` when it has the channel. -/
structure Call where
  ch : ℕ
  holds : Bool
  goal : Goal

/-- `removed` are the arguments of the successful `sys_umount`s, with what the `sys_mount` of the
entry that was removed returned. -/
structure Sys where
  mounts : List Mount
  ch : ℕ → Channel
  channels : ℕ
  slots : ℕ → Option Entry
  procs : ℕ
  call : ℕ → Option Call
  removed : List (ℤ × ℤ)

inductive Event
  | mount (i : ℕ) (pfx : Except ℤ (List UInt8)) (ro : Bool) (kbuf chan : Bool)
  | umount (i : ℕ) (id : ℤ)
  | openPath (i : ℕ) (path : List UInt8) (write : Bool)
  | stat (i : ℕ) (path : List UInt8)
  /-- `changes` for an unlink or a new directory -/
  | onPath (i : ℕ) (path : List UInt8) (changes : Bool)
  | close (i fd : ℕ)
  | io (i fd : ℕ)
  | dup2 (i old new : ℕ)
  | fork (i : ℕ)
  /-- a descriptor of another kind -/
  | other (i : ℕ) (inherits : Bool)
  /-- A process in `userfs_call` finds the channel free. -/
  | lock (i : ℕ)
  /-- A round trip ends: was it answered, and with what? -/
  | finish (i : ℕ) (answered : Bool) (r : ℤ)

/-- The place of a descriptor among those of all tables. -/
def key (i fd : ℕ) : ℕ := i * fdTableSize + fd

/-- The test of `vfs_resolve`. -/
def Mount.covers (m : Mount) (path : List UInt8) : Bool :=
  m.pfx.isPrefixOf path && ((path.drop m.pfx.length).head?).all (· == slash)

/-- One turn of the loop of `vfs_resolve`. -/
def better (path : List UInt8) (best : Option Mount × ℕ) (m : Mount) : Option Mount × ℕ :=
  if m.pfx = [slash] then if best.2 = 0 then (some m,1) else best
  else if m.covers path && decide (best.2 < m.pfx.length) then (some m,m.pfx.length)
  else best

def Mount.rel (m : Mount) (path : List UInt8) : List UInt8 := if m.pfx = [slash] then path else path.drop m.pfx.length

namespace Sys
variable (s : Sys)

/-- `vfs_resolve` -/
def resolve (path : List UInt8) : Option Mount := (s.mounts.foldl (better path) (none,0)).1

def freeFds (i : ℕ) : List ℕ := (List.range fdTableSize).filter fun fd => decide (3 ≤ fd) && (s.slots (key i fd)).isNone

def setSlot (i fd : ℕ) (e : Option Entry) : Sys := { s with slots := update s.slots (key i fd) e }

def setCh (c : ℕ) (v : Channel) : Sys := { s with ch := update s.ch c v }

def setCall (i : ℕ) (k : Option Call) : Sys := { s with call := update s.call i k }

/-- The tests of `userfs_call` before it waits for the channel. -/
def refusal (i c : ℕ) : Option ℤ :=
  if !(s.ch c).alive then some (-eio) else if 0 < (s.ch c).owner ∧ i = (s.ch c).owner then some (-edeadlk) else none

/-- `userfs_op_open` behind its call -/
def openDone (i c fd : ℕ) : Sys := (s.setSlot i fd (some (.userfs c))).setCh c { s.ch c with openFds := (s.ch c).openFds + 1 }

/-- `userfs_op_close` behind its call, and the rest of `vfs_close` -/
def closeDone (i c fd : ℕ) : Sys := (s.setSlot i fd none).setCh c { s.ch c with openFds := (s.ch c).openFds - 1 }

def beginClose (i c fd : ℕ) : Option ℤ × Sys :=
  match s.refusal i c with
  | some _ => (some 0,s.closeDone i c fd)
  | none => (none,s.setCall i (some ⟨c,false,.close fd⟩))

/-- `vfs_open`; the other drivers are not followed. -/
def beginOpen (i : ℕ) (path : List UInt8) (write stat : Bool) : Option ℤ × Sys :=
  match s.resolve path with
  | none => (some (-enoent),s)
  | some ⟨_,.builtin,_,_,_⟩ => (none,s)
  | some m@⟨_,.userfs c,ro,_,_⟩ =>
    if ro && write then (some (-erofs),s)
    else
      match s.freeFds i with
      | [] => (some (-emfile),s)
      | fd :: _ =>
        if p9MaxPayload < (m.rel path).length then (some (-einval),s)
        else
          match s.refusal i c with
          | some e => (some e,s)
          | none => (none,s.setCall i (some ⟨c,false,if stat then .statOpen fd else .open fd⟩))

def beginPath (i : ℕ) (path : List UInt8) (changes : Bool) (goal : Goal) : Option ℤ × Sys :=
  match s.resolve path with
  | none => (some (-enoent),s)
  | some ⟨_,.builtin,_,_,_⟩ => (none,s)
  | some m@⟨_,.userfs c,ro,_,_⟩ =>
    if ro && changes then (some (-erofs),s)
    else if p9MaxPayload < (m.rel path).length then (some (-einval),s)
    else
      match s.refusal i c with
      | some e => (some e,s)
      | none => (none,s.setCall i (some ⟨c,false,goal⟩))

/-- `vfs_stat_path` up to its first call. -/
def beginStat (i : ℕ) (path : List UInt8) : Option ℤ × Sys :=
  if path = [slash] then (some 0,s)
  else
    match s.resolve path with
    | none => (some (-enoent),s)
    | some m =>
      if m.rel path = [] ∨ m.rel path = [slash] then (some 0,s)
      else
        match m.fs with
        | .builtin => (none,s)
        | .userfs c =>
          if p9MaxPayload < (m.rel path).length then s.beginOpen i path false true
          else
            match s.refusal i c with
            | some _ => s.beginOpen i path false true
            | none => (none,s.setCall i (some ⟨c,false,.isDir path⟩))

/-- What follows on a `userfs_call` that returned `r`. -/
def resume (i : ℕ) (k : Call) (r : ℤ) : Option ℤ × Sys :=
  match k.goal with
  | .open fd => if r < 0 then (some r,s) else (some fd,s.openDone i k.ch fd)
  | .isDir path => if r = 1 then (some 0,s) else s.beginOpen i path false true
  | .statOpen fd => if r < 0 then (some r,s) else (s.openDone i k.ch fd).beginClose i k.ch fd
  | .close fd => (some 0,s.closeDone i k.ch fd)
  | .io _ => (some r,s)
  | .path => (some r,s)

/-- `userfs_channel_create` and `vfs_mount_register` -/
def register (p : List UInt8) (ro : Bool) (n : ℤ) (i : ℕ) : Sys :=
  { s with
    mounts := s.mounts ++ [⟨p,.userfs s.channels,ro,n,false⟩]
    ch := update s.ch s.channels ⟨i,true,false,0,true⟩
    channels := s.channels + 1 }

def mount (i : ℕ) (pfx : Except ℤ (List UInt8)) (ro kbuf chan : Bool) : ℤ × Sys :=
  if !kbuf then (-enomem,s)
  else
    match pfx with
    | .error e => (e,s)
    | .ok p =>
      if p.head? ≠ some slash ∨ p.length = 1 ∨ p.getLast? = some slash then (-einval,s)
      else if s.mounts.any (·.pfx == p) then (-eexist,s)
      else
        match s.freeFds i with
        | rfd :: wfd :: _ =>
          if !chan then (-enomem,s)
          -- the channel is freed again
          else if mountMax ≤ s.mounts.length then (-enospc,s)
          else
            let n : ℤ := s.mounts.length
            (n,((s.register p ro n i).setSlot i rfd (some (.other true))).setSlot i wfd (some (.other true)))
        | _ => (-emfile,s)

/-- `vfs_mount_remove` -/
def mountRemove (idx : ℕ) : List Mount := s.mounts.take idx ++ (s.mounts.drop (idx + 1)).map fun m => { m with moved := true }

def umount (id : ℤ) : ℤ × Sys :=
  let mid := id.bmod (2^32)
  if mid < 0 then (-einval,s)
  else
    match s.mounts[mid.toNat]? with
    | none => (-einval,s)
    | some ⟨_,.builtin,_,_,_⟩ => (-enoent,s)
    | some ⟨_,.userfs c,_,id',_⟩ =>
      if (s.ch c).openFds > 0 then (-ebusy,s)
      else
        (0,{ s.setCh c { s.ch c with alive := false,live := false } with
          mounts := s.mountRemove mid.toNat
          removed := (id,id') :: s.removed })

def dup2 (i old new : ℕ) : ℤ × Sys :=
  if fdTableSize ≤ old ∨ fdTableSize ≤ new then (-ebadf,s)
  else
    match s.slots (key i old) with
    | none => (-ebadf,s)
    | some e => if old = new then (new,s) else (new,s.setSlot i new (some e))

/-- One turn of the loop of `thread_inherit_fds`. -/
def inherit (parent child fd : ℕ) : Sys :=
  match s.slots (key parent fd) with
  | none => s
  | some (.other false) => s
  | some (.other true) => s.setSlot child fd (some (.other true))
  | some (.userfs c) => s.openDone child c fd

/-- The child starts with the console as its first three descriptors. -/
def newTable : Sys :=
  { ((s.setSlot s.procs 0 (some (.other true))).setSlot s.procs 1 (some (.other true))).setSlot s.procs 2 (some (.other true)) with
    procs := s.procs + 1 }

def fork (i : ℕ) : Sys := (List.range fdTableSize).foldl (fun t fd => t.inherit i s.procs fd) s.newTable

def close (i fd : ℕ) : Option ℤ × Sys :=
  if fdTableSize ≤ fd then (some (-ebadf),s)
  else
    match s.slots (key i fd) with
    | none => (some (-ebadf),s)
    | some e =>
      if fd < 3 then (some 0,s)
      else
        match e with
        | .other _ => (some 0,s.setSlot i fd none)
        | .userfs c => s.beginClose i c fd

def io (i fd : ℕ) : Option ℤ × Sys :=
  if fdTableSize ≤ fd then (some (-ebadf),s)
  else
    match s.slots (key i fd) with
    | none => (some (-ebadf),s)
    | some (.other _) => (none,s)
    | some (.userfs c) =>
      match s.refusal i c with
      | some e => (some e,s)
      | none => (none,s.setCall i (some ⟨c,false,.io fd⟩))

def sysCall (i : ℕ) (r : Option ℤ × Sys) : Option (Option ℤ × Sys) :=
  if i < s.procs ∧ (s.call i).isNone then some r else none

def step (s : Sys) : Event → Option (Option ℤ × Sys)
  | .mount i pfx ro kbuf chan => s.sysCall i ((s.mount i pfx ro kbuf chan).map some id)
  | .umount i n => s.sysCall i ((s.umount n).map some id)
  | .openPath i path write => s.sysCall i (s.beginOpen i path write false)
  | .stat i path => s.sysCall i (s.beginStat i path)
  | .onPath i path changes => s.sysCall i (s.beginPath i path changes .path)
  | .close i fd => s.sysCall i (s.close i fd)
  | .io i fd => s.sysCall i (s.io i fd)
  | .dup2 i old new => s.sysCall i ((s.dup2 i old new).map some id)
  | .fork i => s.sysCall i (some s.procs,s.fork i)
  | .other i inherits =>
    s.sysCall i
      (match s.freeFds i with
      | [] => (some (-emfile),s)
      | fd :: _ => (some fd,s.setSlot i fd (some (.other inherits))))
  | .lock i =>
    match s.call i with
    | some k =>
      if k.holds || (s.ch k.ch).inFlight then none
      else if (s.ch k.ch).alive then
        some (none,(s.setCall i (some { k with holds := true })).setCh k.ch { s.ch k.ch with inFlight := true })
      else some ((s.setCall i none).resume i k (-eio))
    | none => none
  | .finish i answered r =>
    match s.call i with
    | some k =>
      if k.holds then
        some (((s.setCall i none).setCh k.ch { s.ch k.ch with inFlight := false,alive := (s.ch k.ch).alive && answered }).resume i k
          (if answered || r == -etimedout then r else -eio))
      else none
    | none => none

/-- Before the first `sys_mount`. -/
def initial (builtins : List Mount) (procs : ℕ) : Sys where
  mounts := builtins
  ch _ := ⟨0,false,false,0,false⟩
  channels := 0
  slots k := if k % fdTableSize < 3 then some (.other true) else none
  procs := procs
  call _ := none
  removed := []

end Sys
end VibeOS.Userfs.Mounts

import VibeOS.Userfs.Call
import VibeOS.Storage.Counted

/-! Threads that share one table of descriptors (CLONE_FILES): `read`, `write`, `close` and `dup2` on
pipes, ptys and files of userfs, any of which may block, and what is freed meanwhile. A step is one
turn of a loop; a thread that runs until it blocks makes several. -/
namespace VibeOS.Vfs.SharedTable
open Function
open VibeOS.Storage VibeOS.Userfs

def ebadf : ℤ := 9
def enosys : ℤ := 38
/-- FD_TABLE_SIZE -/
def fdTableSize : ℕ := 16
/-- The size of `chunk` in `sys_write`. -/
def chunkSize : ℕ := 256
def ctrlC : UInt8 := 3

/-- What is passed to `kfree`. -/
inductive Obj
  | pipe (p : ℕ)
  | pty (y : ℕ)
  | channel (c : ℕ)
  deriving DecidableEq

/-- A descriptor in use, with `userfs_handle` and `offset`; other kinds are not followed. -/
inductive Entry
  | pipeR (p : ℕ)
  | pipeW (p : ℕ)
  | ptyMaster (y : ℕ)
  | ptySlave (y : ℕ)
  | userfs (c : ℕ) (handle : UInt32) (offset : UInt64)
  | other

/-- The field `pipe` -/
def Entry.pipe : Entry → Option ℕ
  | .pipeR p => some p
  | .pipeW p => some p
  | _ => none

/-- A `sys_write` of `bytes` to a descriptor, `total` of which are done. -/
structure Writing where
  fd : ℕ
  bytes : List UInt8
  total : ℕ

def Writing.chunk (w : Writing) : List UInt8 := (w.bytes.drop w.total).take chunkSize

inductive Call
  /-- in `pipe_read_until` -/
  | read (p len : ℕ) (woken : Bool)
  /-- at the top of one of the loops of `sys_write` -/
  | loop (kind : Entry) (w : Writing)
  /-- in `pipe_write_until`, with a chunk -/
  | write (p : ℕ) (kind : Entry) (chunk : List UInt8) (written : ℕ) (w : Writing)
  /-- in `pty_master_write`, with the bytes of the chunk that are left -/
  | master (y : ℕ) (kind : Entry) (chunk : List UInt8) (accepted : ℕ) (w : Writing)
  /-- in `userfs_call`, for a read of `n` bytes -/
  | userRead (c fd n : ℕ)
  /-- in `userfs_call`, for a chunk -/
  | userWrite (c n : ℕ) (kind : Entry) (w : Writing)
  /-- in `userfs_call`, for `vfs_close` -/
  | close (c fd : ℕ)

/-- The table, the objects, the calls of the threads and what was freed. `m2s` and `s2m` are the
pipes of a pty. -/
structure Sys where
  slots : ℕ → Option Entry
  pipe : ℕ → Pipe
  m2s : ℕ → ℕ
  s2m : ℕ → ℕ
  ptyRefs : ℕ → ℕ
  chan : ℕ → Mount
  openFds : ℕ → ℕ
  call : ℕ → Option Call
  frees : List Obj

inductive Event
  | read (i fd len : ℕ)
  | write (i fd : ℕ) (bytes : List UInt8)
  | close (i fd : ℕ)
  | dup2 (i old new : ℕ)
  /-- A thread inside a call runs: is its deadline past, is a signal pending? -/
  | turn (i : ℕ) (late sigPending : Bool)
  /-- The holder of another reference to a pipe puts bytes into it or takes some out. -/
  | peerWrite (p : ℕ) (bytes : List UInt8)
  | peerRead (p n : ℕ)
  /-- The daemon of a channel writes or reads. -/
  | daemonWrite (c : ℕ) (bytes : List UInt8)
  | daemonRead (c n : ℕ)
  /-- `sys_umount` of a channel, by another process -/
  | umount (c : ℕ)

namespace Sys
variable (s : Sys)

def setSlot (fd : ℕ) (e : Option Entry) : Sys := { s with slots := update s.slots fd e }

def setPipe (p : ℕ) (v : Pipe) : Sys := { s with pipe := update s.pipe p v }

def setCall (i : ℕ) (k : Option Call) : Sys := { s with call := update s.call i k }

def setChan (c : ℕ) (m : Mount) : Sys := { s with chan := update s.chan c m }

/-- The end of `pipe_unref`. -/
def freeIfUnused (p : ℕ) : Sys :=
  if (s.pipe p).rRefs = 0 ∧ (s.pipe p).wRefs = 0 then { s with frees := .pipe p :: s.frees } else s

def unrefR (p : ℕ) : Sys := (s.setPipe p (s.pipe p).unrefR).freeIfUnused p
def unrefW (p : ℕ) : Sys := (s.setPipe p (s.pipe p).unrefW).freeIfUnused p

def refR (p : ℕ) : Sys := s.setPipe p { s.pipe p with rRefs := (s.pipe p).rRefs + 1 }
def refW (p : ℕ) : Sys := s.setPipe p { s.pipe p with wRefs := (s.pipe p).wRefs + 1 }

/-- The end of `pty_close_master` and of `pty_close_slave`. -/
def unrefPty (y : ℕ) : Sys :=
  let s := { s with ptyRefs := update s.ptyRefs y (s.ptyRefs y - 1) }
  if s.ptyRefs y = 0 then { s with frees := .pty y :: s.frees } else s

def refPty (y : ℕ) : Sys := { s with ptyRefs := update s.ptyRefs y (s.ptyRefs y + 1) }

/-- What `vfs_close` and `sys_dup2` give up of a descriptor. -/
def release : Option Entry → Sys
  | some (.pipeR p) => s.unrefR p
  | some (.pipeW p) => s.unrefW p
  | some (.ptyMaster y) => ((s.unrefR (s.s2m y)).unrefW (s.m2s y)).unrefPty y
  | some (.ptySlave y) => ((s.unrefR (s.m2s y)).unrefW (s.s2m y)).unrefPty y
  | _ => s

/-- What `sys_dup2` takes for a copy. -/
def retain : Entry → Sys
  | .pipeR p => s.refR p
  | .pipeW p => s.refW p
  | .ptyMaster y => ((s.refPty y).refR (s.s2m y)).refW (s.m2s y)
  | .ptySlave y => ((s.refPty y).refR (s.m2s y)).refW (s.s2m y)
  | _ => s

def ret (i : ℕ) (r : ℤ) : Option ℤ × Sys := (some r,s.setCall i none)

def stay (i : ℕ) (k : Call) : Option ℤ × Sys := (none,s.setCall i (some k))

/-- The result of a write that failed behind `total` bytes. -/
def short (total : ℕ) (r : ℤ) : ℤ := if total > 0 then total else r

def wrote (i : ℕ) (kind : Entry) (w : Writing) (r : ℤ) : Option ℤ × Sys :=
  if r < 0 then s.ret i (short w.total r) else s.stay i (.loop kind { w with total := w.total + r.toNat })

def beginCall (i c : ℕ) (req : Request) (k : Call) : Option ℤ × Sys := (s.setChan c ((s.chan c).enter i req)).stay i k

/-- The top of a loop of `sys_write`: it goes by the kind that it began with, and by what is in the
slot now. -/
def loop (i : ℕ) (kind : Entry) (w : Writing) : Option ℤ × Sys :=
  if w.bytes.length ≤ w.total then s.ret i w.total
  else
    match kind with
    | .pipeW _ =>
      match (s.slots w.fd).bind Entry.pipe with
      | some p => s.stay i (.write p kind w.chunk 0 w)
      | none => s.wrote i kind w (-einval)
    | .userfs .. =>
      match s.slots w.fd with
      | some (.userfs c handle offset) =>
        s.beginCall i c ⟨p9OpWrite,handle,0,offset,w.chunk,0⟩ (.userWrite c w.chunk.length kind w)
      | _ => s.wrote i kind w (-einval)
    | _ =>
      match s.slots w.fd with
      | some (.ptyMaster y) => s.stay i (.master y kind w.chunk 0 w)
      | some (.ptySlave y) => s.stay i (.write (s.s2m y) kind w.chunk 0 w)
      -- `e->pty` is NULL
      | _ => s.wrote i kind w 0

/-- The outcome of a `userfs_call` that returned: its result, and the reply. -/
def outcome (c : ℕ) : ℤ × Option P9Msg :=
  match (s.chan c).log.getLast? with
  | some o => (o.value,o.rsp)
  | none => (-eio,none)

def advance (fd n : ℕ) : Sys :=
  match s.slots fd with
  | some (.userfs c handle offset) => s.setSlot fd (some (.userfs c handle (offset + UInt64.ofNat n)))
  | _ => s

/-- Behind a `userfs_call`. -/
def finish (i c : ℕ) : Call → Option ℤ × Sys
  | .userRead _ fd n =>
    match s.outcome c with
    | (_,some rsp) =>
      if rsp.status < 0 then s.ret i rsp.status.toInt
      else
        let got := min rsp.length.toNat n
        (s.advance fd got).ret i got
    | (r,none) => s.ret i r
  | .userWrite _ n kind w =>
    match s.outcome c with
    | (_,some rsp) =>
      if rsp.status < 0 then s.wrote i kind w rsp.status.toInt
      else
        let put := min rsp.flags.toNat n
        let s := s.advance w.fd put
        if put < n then s.ret i (w.total + put : ℕ) else s.wrote i kind w put
    | (r,none) => s.wrote i kind w r
  | .close c fd => ({ s with openFds := update s.openFds c (s.openFds c - 1) }.setSlot fd none).ret i 0
  | _ => s.ret i 0

def turn (i : ℕ) (k : Call) (late sigPending : Bool) : Option ℤ × Sys :=
  match k with
  | .read p len woken =>
    match (s.pipe p).readTurn woken len false sigPending with
    | .block => s.stay i (.read p len true)
    | .ret r _ v => (s.setPipe p v).ret i r
  | .loop kind w => s.loop i kind w
  | .write p kind chunk written w =>
    match (s.pipe p).writeTurn chunk written false with
    | .block => s.stay i k
    | .moved n v => (s.setPipe p v).stay i (.write p kind chunk n w)
    | .ret r => s.wrote i kind w r
  | .master y kind chunk accepted w =>
    match chunk with
    | [] => s.wrote i kind w accepted
    | b :: chunk =>
      if b = ctrlC then s.stay i (.master y kind chunk (accepted + 1) w)
      else
        match (s.pipe (s.m2s y)).writeTurn [b] 0 false with
        | .block => s.stay i k
        | .moved _ v => (s.setPipe (s.m2s y) v).stay i (.master y kind chunk (accepted + 1) w)
        | .ret r => s.wrote i kind w (short accepted r)
  | .userRead c _ _ | .userWrite c _ _ _ | .close c _ =>
    match (s.chan c).calls i with
    | none => s.finish i c k
    | some call => (s.setChan c ((s.chan c).turn i call late sigPending)).stay i k

/-- `vfs_read` -/
def read (i fd len : ℕ) : Option ℤ × Sys :=
  match s.slots fd with
  | none => s.ret i (-ebadf)
  | some (.pipeR p) => if len = 0 then s.ret i 0 else s.stay i (.read p len false)
  | some (.pipeW _) => s.ret i (-ebadf)
  | some (.ptyMaster y) =>
    if len = 0 ∨ (s.pipe (s.s2m y)).ring.count = 0 then s.ret i 0 else s.stay i (.read (s.s2m y) len false)
  | some (.ptySlave y) => if len = 0 then s.ret i 0 else s.stay i (.read (s.m2s y) len false)
  | some (.userfs c handle offset) =>
    let n := min len p9MaxPayload
    if n = 0 then s.ret i 0 else s.beginCall i c ⟨p9OpRead,handle,UInt32.ofNat n,offset,[],UInt32.ofNat n⟩ (.userRead c fd n)
  | some .other => s.ret i 0

/-- `sys_write` -/
def write (i fd : ℕ) (bytes : List UInt8) : Option ℤ × Sys :=
  match s.slots fd with
  | none | some (.pipeR _) => s.ret i (-enosys)
  | some .other => s.ret i bytes.length
  | some kind => s.stay i (.loop kind ⟨fd,bytes,0⟩)

/-- `vfs_close` -/
def close (i fd : ℕ) : Option ℤ × Sys :=
  match s.slots fd with
  | none => s.ret i (-ebadf)
  | some e =>
    if fd < 3 then s.ret i 0
    else
      match e with
      | .userfs c handle _ => s.beginCall i c ⟨p9OpClose,handle,0,0,[],0⟩ (.close c fd)
      | e => ((s.release (some e)).setSlot fd none).ret i 0

/-- `sys_dup2` -/
def dup2 (i old new : ℕ) : Option ℤ × Sys :=
  if fdTableSize ≤ old ∨ fdTableSize ≤ new then s.ret i (-ebadf)
  else
    match s.slots old with
    | none => s.ret i (-ebadf)
    | some e => if old = new then s.ret i new else (((s.release (s.slots new)).setSlot new (some e)).retain e).ret i new

def enter (i : ℕ) : Event → Option (Option ℤ × Sys)
  | .read _ fd len => some (if fdTableSize ≤ fd then s.ret i (-ebadf) else s.read i fd len)
  | .write _ fd bytes => some (if fdTableSize ≤ fd then s.ret i (-enosys) else s.write i fd bytes)
  | .close _ fd => some (if fdTableSize ≤ fd then s.ret i (-ebadf) else s.close i fd)
  | .dup2 _ old new => some (s.dup2 i old new)
  | _ => none

def step (s : Sys) : Event → Option (Option ℤ × Sys)
  | .turn i late sigPending => (s.call i).map fun k => s.turn i k late sigPending
  | .peerWrite p bytes =>
    let put := bytes.take (pipeBufSize - (s.pipe p).ring.count)
    some (none,s.setPipe p { s.pipe p with ring := (s.pipe p).ring.write put })
  | .peerRead p n =>
    let n := min n (s.pipe p).ring.count
    some (none,s.setPipe p { s.pipe p with ring := ((s.pipe p).ring.read n).2 })
  | .daemonWrite c bytes => ((s.chan c).step (.daemonWrite bytes)).map fun m => (none,s.setChan c m.2)
  | .daemonRead c n => ((s.chan c).step (.daemonRead n)).map fun m => (none,s.setChan c m.2)
  | .umount c =>
    if .channel c ∈ s.frees then none
    else if s.openFds c > 0 then some (some (-16),s)
    else
      let m := s.chan c
      some (some 0,{ s.setChan c { m with ch := { m.ch with alive := false } } with frees := .channel c :: s.frees })
  | .read i fd len => if (s.call i).isSome then none else s.enter i (.read i fd len)
  | .write i fd bytes => if (s.call i).isSome then none else s.enter i (.write i fd bytes)
  | .close i fd => if (s.call i).isSome then none else s.enter i (.close i fd)
  | .dup2 i old new => if (s.call i).isSome then none else s.enter i (.dup2 i old new)

end Sys
end VibeOS.Vfs.SharedTable

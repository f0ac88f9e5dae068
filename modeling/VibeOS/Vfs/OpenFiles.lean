import VibeOS.Vfs.Tmpfs
import VibeOS.Runs

/-! Descriptors of files under `/tmp` and `/data`, in any number of descriptor tables, over every
order of the calls on them. -/
namespace VibeOS.Vfs
open VibeOS.Osfs2

/-- What a descriptor of a file holds: a slot of tmpfs or the number of an inode. -/
inductive Target
  | tmp (i : Fin 16)
  | data (ino : UInt32)
  deriving DecidableEq

/-- A path, after `vfs_resolve`. -/
inductive Path
  | tmp (rel : CString)
  | data (rel : CString)

structure Files where
  tmp : Tmpfs
  sys : Sys

namespace Files
variable (f : Files)

def live : Target → Bool
  | .tmp i => (f.tmp i).inUse
  | .data ino => f.sys.vol.live ino

def usable : Target → Bool
  | .tmp i => (f.tmp i).inUse
  | .data ino => (f.sys.vol.inode ino).type != typeFree

/-- `open` of the two drivers: the error, or the target and the offset of the descriptor. -/
def «open» (path : Path) (flags : OpenFlags) (junk : List UInt8) (kbuf : Option Buffer) :
    Except ℤ (Target × UInt64) × Files :=
  match path with
  | .tmp rel =>
    let (r,tmp) := f.tmp.opOpen flags rel kbuf
    (r.map fun (i,offset) => (.tmp i,UInt64.ofNat offset),{ f with tmp := tmp })
  | .data rel =>
    let (r,sys) := f.sys.exec (osfs2OpOpen junk flags rel)
    (r.map fun ino => (.data ino,0),{ f with sys := sys })

/-- The read of `vfs_read`: the error, or the bytes. -/
def read (t : Target) (offset len : UInt64) : Except ℤ (List UInt8) × Files :=
  match t with
  | .tmp i => (f.tmp.read i offset.toNat len.toNat,f)
  | .data ino =>
    let (r,sys) := f.sys.exec (osfs2Read ino offset len)
    (match r with
      | none => .error (-1)
      | some bytes => .ok bytes,{ f with sys := sys })

/-- One chunk of `sys_write`. -/
def write (t : Target) (offset : UInt64) (src : ℕ → UInt8) (len : UInt64) (kbuf : Option Buffer) : ℤ × Files :=
  match t with
  | .tmp i =>
    let (r,tmp) := f.tmp.write i offset.toUInt32.toNat len.toNat src kbuf
    (r,{ f with tmp := tmp })
  | .data ino =>
    let (r,sys) := f.sys.exec (osfs2Write ino offset src len)
    (r,{ f with sys := sys })

def size (t : Target) : ℕ × Files :=
  match t with
  | .tmp i => (f.tmp.sizeOf i,f)
  | .data ino =>
    let (n,sys) := f.sys.exec (osfs2Size ino)
    (n,{ f with sys := sys })

def unlink (path : Path) : ℤ × Files :=
  match path with
  | .tmp rel =>
    let (r,tmp) := f.tmp.opUnlink rel
    (r,{ f with tmp := tmp })
  | .data rel =>
    if (stripSlash rel).val = [] then (-einval,f)
    else
      let (r,sys) := f.sys.exec (osfs2Unlink (some (stripSlash rel)))
      (if r ≠ 0 then -enoent else 0,{ f with sys := sys })

/-- `tmpfs` has no directories. -/
def mkdir (path : Path) : ℤ × Files :=
  match path with
  | .tmp _ => (-einval,f)
  | .data rel =>
    if (stripSlash rel).val = [] then (-einval,f)
    else
      let (r,sys) := f.sys.exec (osfs2Mkdir (some (stripSlash rel)))
      (if r = 0 then -enoent else 0,{ f with sys := sys })

def Same (g : Files) : Target → Prop
  | .tmp i => g.tmp i = f.tmp i
  | .data ino => f.sys.vol.Same g.sys.vol ino

end Files

/-- `struct fd_entry` of a file, and the stamp of the file that it was opened on. -/
structure FdEntry where
  target : Target
  offset : UInt64
  opened : ℕ

/-- Where `vfs_lseek` counts from. -/
def FdEntry.seekBase (e : FdEntry) (whence : ℤ) (size : ℕ) : ℤ :=
  if whence = 0 then 0 else if whence = 1 then e.offset.toInt64.toInt else size

/-- Every target carries the stamp of the file that it belongs to, which is new when it is given
to a file. -/
structure Kernel where
  files : Files
  fds : ℕ → ℕ → Option FdEntry
  stamp : Target → ℕ
  clock : ℕ

inductive Event
  /-- into a slot that is free, or that `vfs_open_into` overwrites -/
  | open (t fd : ℕ) (path : Path) (flags : OpenFlags) (junk : List UInt8) (kbuf : Option Buffer)
  | read (t fd : ℕ) (len : UInt64)
  /-- one chunk of `sys_write` -/
  | write (t fd : ℕ) (src : ℕ → UInt8) (len : UInt64) (kbuf : Option Buffer)
  | lseek (t fd : ℕ) (off whence : ℤ)
  | close (t fd : ℕ)
  /-- `dup2`, and the tables of new processes -/
  | copy (t fd t' fd' : ℕ)
  | unlink (path : Path)
  | mkdir (path : Path)
  /-- the cache of the disk is written back -/
  | flush

/-- The return value of a call, and the bytes that a read returns. -/
structure Answer where
  value : ℤ
  bytes : List UInt8

namespace Kernel
variable (k : Kernel)

def become (f : Files) : Kernel :=
  { k with
    files := f
    stamp := fun t => if !k.files.live t && f.live t then k.clock + 1 else k.stamp t
    clock := k.clock + 1 }

def setFd (t fd : ℕ) (e : Option FdEntry) : Kernel :=
  { k with fds := Function.update k.fds t (Function.update (k.fds t) fd e) }

def on (t fd : ℕ) (call : FdEntry → Answer × Kernel) : Answer × Kernel :=
  match k.fds t fd with
  | none => (⟨-ebadf,[]⟩,k)
  | some e => call e

def step (k : Kernel) : Event → Option (Answer × Kernel)
  | .open t fd path flags junk kbuf =>
    let (r,f) := k.files.open path flags junk kbuf
    let k := k.become f
    match r with
    | .error e => some (⟨e,[]⟩,k)
    | .ok (target,offset) => some (⟨fd,[]⟩,k.setFd t fd (some ⟨target,offset,k.stamp target⟩))
  | .read t fd len => some (k.on t fd fun e =>
    let (r,f) := k.files.read e.target e.offset len
    let k := k.become f
    match r with
    | .error e => (⟨e,[]⟩,k)
    | .ok bytes => (⟨bytes.length,bytes⟩,k.setFd t fd (some { e with offset := e.offset + UInt64.ofNat bytes.length })))
  | .write t fd src len kbuf => some (k.on t fd fun e =>
    let (r,f) := k.files.write e.target e.offset src len kbuf
    let k := k.become f
    if r < 0 then (⟨r,[]⟩,k)
    else (⟨r,[]⟩,k.setFd t fd (some { e with offset := e.offset + UInt64.ofNat r.toNat })))
  | .lseek t fd off whence => some (k.on t fd fun e =>
    if whence < 0 ∨ whence > 2 then (⟨-einval,[]⟩,k)
    else
      let (size,f) := if whence = 2 then k.files.size e.target else (0,k.files)
      let neu := e.seekBase whence size + off
      let k := k.become f
      if neu < 0 then (⟨-einval,[]⟩,k)
      else (⟨neu,[]⟩,k.setFd t fd (some { e with offset := UInt64.ofInt neu })))
  | .close t fd => some (k.on t fd fun _ => if fd < 3 then (⟨0,[]⟩,k) else (⟨0,[]⟩,k.setFd t fd none))
  | .copy t fd t' fd' => some (k.on t fd fun e => (⟨fd',[]⟩,k.setFd t' fd' (some e)))
  | .unlink path =>
    let (r,f) := k.files.unlink path
    some (⟨r,[]⟩,k.become f)
  | .mkdir path =>
    let (r,f) := k.files.mkdir path
    some (⟨r,[]⟩,k.become f)
  | .flush => some (⟨0,[]⟩,k.become { k.files with sys := k.files.sys.flush.2 })

/-- No descriptor is open, on a disk with a sound volume. -/
structure Boots (k : Kernel) : Prop where
  fds : k.fds = fun _ _ => none
  sound : k.files.sys.Sound
  named : k.files.sys.vol.Named

def OnOwnFile (k : Kernel) (e : FdEntry) : Prop := k.files.live e.target = true ∧ k.stamp e.target = e.opened

/-- What comes next through the descriptors: a read that does not fail is from the file that the
descriptor was opened on, and a write changes that file or none. -/
structure KeepsIdentity (k : Kernel) : Prop where
  read : ∀ t fd len a k', k.step (.read t fd len) = some (a,k') →
    a.value < 0 ∨ ∃ e, k.fds t fd = some e ∧ k.OnOwnFile e
  write : ∀ t fd src len kbuf a k', k.step (.write t fd src len kbuf) = some (a,k') →
    a.value < 0 ∨ len = 0 ∨ ∃ e, k.fds t fd = some e ∧ k.OnOwnFile e
  change : ∀ t fd src len kbuf a k', k.step (.write t fd src len kbuf) = some (a,k') →
    ∀ s, k.files.Same k'.files s ∨ ∃ e, k.fds t fd = some e ∧ e.target = s ∧ k.OnOwnFile e

/-- The target was free, and a creation took it. -/
def Takes (k k' : Kernel) (t : Target) : Prop :=
  (k.files.usable t = false ∧ k'.files.usable t = true) ∨ (k.files.live t = false ∧ k'.files.live t = true)

def NoReuse (k : Kernel) (e : Event) : Prop := ∀ a k', k.step e = some (a,k') →
  ∀ t, k.Takes k' t → ∀ tb fd d, k.fds tb fd = some d → d.target ≠ t

end Kernel
end VibeOS.Vfs

import VibeOS.Osfs2.Opening

/-! `tmpfs.c`: a table of named buffers. What `kmalloc` returns is a buffer with any contents,
or `none`. -/
namespace VibeOS.Vfs
open Function
open VibeOS.Osfs2

/-- TMPFS_MAX_NAME -/
def tmpfsMaxName : ℕ := 32
/-- TMPFS_MAX_FILE_SIZE -/
def tmpfsMaxFileSize : ℕ := 256*1024
/-- TMPFS_INITIAL_CAP -/
def tmpfsInitialCap : ℕ := 4096

def ebadf : ℤ := 9
def enospc : ℤ := 28

/-- The contents of a buffer; only the bytes before `cap` belong to it. -/
abbrev Buffer := ℕ → UInt8

structure TmpfsFile where
  inUse : Bool
  name : List UInt8
  data : Buffer
  size : ℕ
  cap : ℕ

/-- `g_files` -/
abbrev Tmpfs := Fin 16 → TmpfsFile

namespace Tmpfs
variable (g : Tmpfs)

def init : Tmpfs := fun _ => ⟨false,[],fun _ => 0,0,0⟩

def lookup (name : List UInt8) : Option (Fin 16) :=
  (List.finRange 16).find? fun i => (g i).inUse && (g i).name == name

def freeSlot : Option (Fin 16) := (List.finRange 16).find? fun i => !(g i).inUse

/-- `tmpfs_create_or_truncate`; `none` for -1. The name that is too long stays in a slot that is
not in use, which nothing reads. -/
def createOrTruncate (name : List UInt8) (kbuf : Option Buffer) : Option (Fin 16) × Tmpfs :=
  if name = [] then (none,g)
  else
    match g.lookup name with
    | some i => (some i,update g i { g i with size := 0 })
    | none =>
      match g.freeSlot with
      | none => (none,g)
      | some i =>
        if name.length ≥ tmpfsMaxName then (none,g)
        else
          match kbuf with
          | none => (none,g)
          | some data => (some i,update g i ⟨true,name,data,0,tmpfsInitialCap⟩)

/-- `tmpfs_read`: the error, or the bytes. -/
def read (i : Fin 16) (offset len : ℕ) : Except ℤ (List UInt8) :=
  let f := g i
  if !f.inUse then .error (-ebadf)
  else if offset ≥ f.size then .ok []
  else .ok ((List.range (min len (f.size - offset))).map fun k => f.data (offset + k))

/-- The loop of `tmpfs_grow_to`: the capacity is doubled until it is enough, or at its limit. -/
def doubled (need : ℕ) : ℕ → ℕ → ℕ
  | 0,cap => cap
  | fuel+1,cap =>
    if cap < need then
      if cap ≥ tmpfsMaxFileSize/2 then tmpfsMaxFileSize else doubled need fuel (2*cap)
    else cap

end Tmpfs

namespace TmpfsFile
variable (f : TmpfsFile)

/-- `tmpfs_grow_to`; `none` for -1. -/
def growTo (need : ℕ) (kbuf : Option Buffer) : Option TmpfsFile :=
  if need ≤ f.cap then some f
  else if need > tmpfsMaxFileSize then none
  else
    -- a capacity of at least one is at its limit after 18 turns
    let newcap := Tmpfs.doubled need 18 (if f.cap = 0 then tmpfsInitialCap else f.cap)
    if newcap < need then none
    else kbuf.map fun nbuf => { f with data := fun k => if k < f.size then f.data k else nbuf k, cap := newcap }

/-- The bytes that `tmpfs_write` stores: zeros up to the offset, and the data. -/
def store (offset len : ℕ) (src : ℕ → UInt8) : TmpfsFile :=
  { f with
    data := fun k => if offset ≤ k ∧ k < offset + len then src (k - offset)
      else if f.size ≤ k ∧ k < offset then 0 else f.data k
    size := max f.size (offset + len) }

end TmpfsFile

namespace Tmpfs
variable (g : Tmpfs)

/-- `tmpfs_write` -/
def write (i : Fin 16) (offset len : ℕ) (src : ℕ → UInt8) (kbuf : Option Buffer) : ℤ × Tmpfs :=
  let f := g i
  if !f.inUse then (-ebadf,g)
  else if len = 0 then (0,g)
  else if offset + len > tmpfsMaxFileSize then (-enospc,g)
  else
    match f.growTo (offset + len) kbuf with
    | none => (-enomem,g)
    | some f => (len,update g i (f.store offset len src))

def sizeOf (i : Fin 16) : ℕ := if (g i).inUse then (g i).size else 0

/-- `tmpfs_unlink` -/
def unlink (name : List UInt8) : ℤ × Tmpfs :=
  match g.lookup name with
  | none => (-enoent,g)
  | some i => (0,update g i ⟨false,[],(g i).data,0,0⟩)

/-- How `tmpfs_op_open` finds or makes its slot. -/
def findOrMake (flags : OpenFlags) (bare : List UInt8) (kbuf : Option Buffer) : Except ℤ (Fin 16) × Tmpfs :=
  match g.lookup bare with
  | some i => (.ok i,if flags.creat && !flags.append then (g.createOrTruncate bare kbuf).2 else g)
  | none =>
    if flags.creat then
      match g.createOrTruncate bare kbuf with
      | (none,g) => (.error (-enomem),g)
      | (some i,g) => (.ok i,g)
    else (.error (-enoent),g)

/-- `tmpfs_op_open`: the error, or the slot and the offset that the descriptor gets. -/
def opOpen (flags : OpenFlags) (rel : CString) (kbuf : Option Buffer) : Except ℤ (Fin 16 × ℕ) × Tmpfs :=
  let bare := (stripSlash rel).val
  if bare = [] then (.error (-einval),g)
  else
    let (slot,g) := g.findOrMake flags bare kbuf
    (slot.map fun i => (i,if flags.append then (g i).size else 0),g)

/-- `tmpfs_op_unlink` -/
def opUnlink (rel : CString) : ℤ × Tmpfs :=
  let bare := (stripSlash rel).val
  if bare = [] then (-einval,g) else g.unlink bare

variable {g} {g' : Tmpfs} {i j : Fin 16}

variable {offset len : ℕ}

lemma read_free (h : (g i).inUse = false) : g.read i offset len = .error (-ebadf) := by
  simp [read,h]

variable {kbuf : Option Buffer}

lemma write_free {src : ℕ → UInt8} (h : (g i).inUse = false) :
    g.write i offset len src kbuf = (-ebadf,g) := by
  simp [write,h]

lemma write_other {src : ℕ → UInt8} (h : j ≠ i) :
    (g.write i offset len src kbuf).2 j = g j := by
  unfold write
  dsimp only
  split
  · rfl
  split
  · rfl
  split
  · rfl
  split
  · rfl
  · exact update_of_ne h _ _

variable {name : List UInt8}

lemma inUse_of_lookup (h : g.lookup name = some i) : (g i).inUse = true :=
  have hp := List.find?_some (p := fun i => (g i).inUse && (g i).name == name) h
  (Bool.and_eq_true_iff.mp hp).1

lemma createOrTruncate_mono (h : (g j).inUse = true) :
    ((g.createOrTruncate name kbuf).2 j).inUse = true := by
  have updated {i : Fin 16} {f : TmpfsFile} (hf : f.inUse = true) : (update g i f j).inUse = true := by
    rw [update_apply]
    split
    · exact hf
    · exact h
  unfold createOrTruncate
  split
  · exact h
  split
  · next i hl => exact updated (inUse_of_lookup hl)
  split
  · exact h
  split
  · exact h
  split
  · exact h
  · exact updated rfl

lemma createOrTruncate_inUse
    (h : g.createOrTruncate name kbuf = (some i,g')) : (g' i).inUse = true := by
  unfold createOrTruncate at h
  split at h
  · cases h
  split at h
  · next hl =>
    cases h
    rw [update_self]
    exact inUse_of_lookup hl
  split at h
  · cases h
  split at h
  · cases h
  split at h
  · cases h
  · cases h
    rw [update_self]

lemma findOrMake_inUse {flags : OpenFlags} {bare : List UInt8}
    (h : g.findOrMake flags bare kbuf = (.ok i,g')) : (g' i).inUse = true := by
  unfold findOrMake at h
  split at h
  · next hl =>
    cases h
    split
    · exact createOrTruncate_mono (inUse_of_lookup hl)
    · exact inUse_of_lookup hl
  · split at h
    · split at h
      · cases h
      · next hc =>
        cases h
        exact createOrTruncate_inUse hc
    · cases h

lemma opOpen_inUse {flags : OpenFlags} {rel : CString} {offset : ℕ}
    (h : g.opOpen flags rel kbuf = (.ok (i,offset),g')) : (g' i).inUse = true := by
  unfold opOpen at h
  dsimp only at h
  split at h
  · cases h
  · cases hf : g.findOrMake flags (stripSlash rel).val kbuf with
    | mk slot g₁ =>
      rw [hf] at h
      cases slot with
      | error e => cases h
      | ok k =>
        cases h
        exact findOrMake_inUse hf

end Tmpfs
end VibeOS.Vfs

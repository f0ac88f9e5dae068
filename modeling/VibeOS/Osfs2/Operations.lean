import VibeOS.Osfs2.Path

/-! The public operations of `osfs2.c`, and the two entries of its mount table that change
the namespace. -/
namespace VibeOS.Osfs2
open VibeOS.Storage List

/-- The loop of `osfs2_truncate` over the direct pointers. -/
def truncateDirect (kept : ℕ) : List (Fin 16) → Inode → Fs Inode
  | [], x => return x
  | i :: is, x => do
    if i.val ≥ kept ∧ x.direct i ≠ 0 then
      let _ ← freeBlock (x.direct i)
      truncateDirect kept is { x with direct := Function.update x.direct i 0 }
    else truncateDirect kept is x

/-- The loop over the indirect table: the table left, and the flags `dirty` and `any_left`. -/
def truncateTable (kept : ℕ) : List ℕ → Block → Bool → Bool → Fs (Block × Bool × Bool)
  | [], t, dirty, anyLeft => return (t,dirty,anyLeft)
  | j :: js, t, dirty, anyLeft => do
    if directPtrs + j ≥ kept ∧ tableAt t j ≠ 0 then
      let _ ← freeBlock (tableAt t j)
      truncateTable kept js (tableSet t j 0) true anyLeft
    else if tableAt t j ≠ 0 then truncateTable kept js t dirty true
    else truncateTable kept js t dirty anyLeft

/-- The indirect tier of `osfs2_truncate`; `none` for its returns of -1. -/
def truncateIndirect (kept : ℕ) (x : Inode) : Fs (Option Inode) := do
  if x.indirect = 0 then return some x
  else
    match ← readBlock x.indirect with
    | none => return none
    | some ind =>
      let (t,dirty,anyLeft) ← truncateTable kept (List.range indirectPtrs) ind false false
      if !anyLeft then
        let _ ← freeBlock x.indirect
        return some { x with indirect := 0 }
      else if dirty then
        if ← writeBlock x.indirect t then return some x else return none
      else return some x

def osfs2Truncate (ino size : UInt32) : Fs ℤ := do
  if !(← get).present then return -1
  else
    match ← readInode ino with
    | none => return -1
    | some x =>
      if x.type ≠ typeFile ∧ x.type ≠ typeDir then return -1
      else if size.toNat > maxFileBytes then return -1
      else
        let kept := if size = 0 then 0 else (size.toNat + blockSize - 1) / blockSize
        let x ← truncateDirect kept (finRange 16) x
        match ← truncateIndirect kept x with
        | none => return -1
        | some x => if ← writeInode ino { x with size := size } then return 0 else return -1

def newInode (type : UInt32) : Inode :=
  { Inode.zero with
    type := type
    nlink := 1
    mode := if type = typeDir then 0o755 else 0o644 }

/-- The dirent written for a new name, padded with NULs. -/
def newDirent (ino : UInt32) (name : List UInt8) : Dirent :=
  ⟨ino,Bytes.ofFn fun k => (name[k]?).getD 0⟩

/-- The slot for a new dirent in the parent, and the parent, which may have got a new block;
`none` where `dir_create_in` gives up. -/
def makeSlot (parent : Inode) (empty : Option ℕ) : Fs (Option (ℕ × Inode)) := do
  match empty with
  | some slot => return some (slot,parent)
  | none =>
    let slot := (parent.size / 64).toNat
    if h : slot / 64 < 16 then
      if parent.direct ⟨slot/64,h⟩ = 0 then
        let b ← allocBlock
        if b = 0 then return none
        else return some (slot,{ parent with
          direct := Function.update parent.direct ⟨slot/64,h⟩ b
          size := UInt32.ofNat ((slot+1)*64) })
      else return some (slot,{ parent with size := UInt32.ofNat ((slot+1)*64) })
    else return none

def dirCreateIn (parentIno : UInt32) (name : List UInt8) (type : UInt32) : Fs UInt32 := do
  if name.length = 0 ∨ name.length ≥ nameMax then return 0
  else
    match ← readInode parentIno with
    | none => return 0
    | some parent =>
      if parent.type ≠ typeDir then return 0
      else
        match ← dirFind parent name with
        | (some hit,_) =>
          match ← dirReadAt parent hit with
          | none => return 0
          | some ent =>
            match ← readInode ent.ino with
            | none => return 0
            | some existing =>
              if type = typeDir then return 0
              else if existing.type ≠ type then return 0
              else return ent.ino
        | (none,empty) =>
          let ino ← allocInode
          if ino = 0 then return 0
          else if ← writeInode ino (newInode type) then
            match ← makeSlot parent empty with
            | none =>
              let _ ← freeInode ino
              return 0
            | some (slot,parent) =>
              if ← dirWriteAt parent slot (newDirent ino name) then
                if ← writeInode parentIno parent then return ino
                else
                  let _ ← freeInode ino
                  return 0
              else
                let _ ← freeInode ino
                return 0
          else
            let _ ← freeInode ino
            return 0

def osfs2Lookup (junk : List UInt8) (path : Option CString) : Fs UInt32 := do
  if !(← get).present then return 0
  else
    let ino ← walk junk (path.map Subtype.val)
    return if ino = inodeRoot then 0 else ino

/-- `osfs2_create` and `osfs2_mkdir`, which differ in the type they ask for. -/
def createAt (type : UInt32) (path : Option CString) : Fs UInt32 := do
  if !(← get).present then return 0
  else
    match ← walkParent (path.map Subtype.val) with
    | none => return 0
    | some (parent,leaf) => dirCreateIn parent leaf type

def osfs2Create (path : Option CString) : Fs UInt32 := createAt typeFile path

def osfs2Mkdir (path : Option CString) : Fs UInt32 := createAt typeDir path

def dirUnlinkSlot (parentIno : UInt32) (slot : ℕ) : Fs Bool := do
  match ← readInode parentIno with
  | none => return false
  | some parent => if parent.type ≠ typeDir then return false else dirWriteAt parent slot Dirent.zero

/-- How both removals find their victim: the parent, the slot of the dirent, the inode's number. -/
def findVictim (path : Option CString) : Fs (Option (UInt32 × ℕ × UInt32)) := do
  match ← walkParent (path.map Subtype.val) with
  | none => return none
  | some (parent,leaf) =>
    match ← readInode parent with
    | none => return none
    | some pi =>
      match (← dirFind pi leaf).1 with
      | none => return none
      | some idx =>
        match ← dirReadAt pi idx with
        | none => return none
        | some ent => return some (parent,idx,ent.ino)

/-- How both removals end: the blocks, the dirent, the record and the bit of the inode go. -/
def removeInode (parent : UInt32) (idx : ℕ) (ino : UInt32) : Fs ℤ := do
  if (← osfs2Truncate ino 0) ≠ 0 then return -1
  else
    match ← readInode ino with
    | none => return -1
    | some x =>
      if ← dirUnlinkSlot parent idx then
        if ← writeInode ino { x with type := typeFree, size := 0, nlink := 0 } then
          if ← freeInode ino then return 0 else return -1
        else return -1
      else return -1

def osfs2Unlink (path : Option CString) : Fs ℤ := do
  if !(← get).present then return -1
  else
    match ← findVictim path with
    | none => return -1
    | some (parent,idx,ino) =>
      match ← readInode ino with
      | none => return -1
      | some x => if x.type = typeDir then return -1 else removeInode parent idx ino

/-- The empty-directory check of `osfs2_rmdir` on the given slots. -/
def allEmpty (dir : Inode) : List ℕ → Fs Bool
  | [] => return true
  | i :: is => do
    match ← dirReadAt dir i with
    | none => return false
    | some e => if e.ino ≠ 0 then return false else allEmpty dir is

def osfs2Rmdir (path : Option CString) : Fs ℤ := do
  if !(← get).present then return -1
  else
    match ← findVictim path with
    | none => return -1
    | some (parent,idx,ino) =>
      if ino = inodeRoot then return -1
      else
        match ← readInode ino with
        | none => return -1
        | some x =>
          if x.type ≠ typeDir then return -1
          else if ← allEmpty x (List.range (x.size / 64).toNat) then removeInode parent idx ino
          else return -1

def inBlock (pos : UInt64) : ℕ := (pos % 4096).toNat

/-- The number of bytes one turn of the loop handles: up to the end of the block or to the
end of the request. -/
def chunk (pos : UInt64) (left : ℕ) : ℕ := min (blockSize - inBlock pos) left

lemma inBlock_lt (pos : UInt64) : inBlock pos < 4096 := by
  have h : (pos % 4096).toNat = pos.toNat % 4096 := UInt64.toNat_mod pos 4096
  rw [inBlock,h]
  omega

lemma chunk_pos (pos : UInt64) {left : ℕ} (h : 0 < left) : 0 < chunk pos left := by
  have hb := inBlock_lt pos
  unfold chunk blockSize
  omega

lemma chunk_le (pos : UInt64) (left : ℕ) : chunk pos left ≤ left := Nat.min_le_right _ _

/-- The loop of `osfs2_read`; the result is what is in the buffer when it returns. -/
def readLoop (x : Inode) (offset : UInt64) (len : ℕ) (produced : List UInt8) :
    Fs (Option (List UInt8)) :=
  if produced.length < len then do
    let pos := offset + UInt64.ofNat produced.length
    let can := chunk pos (len - produced.length)
    let (pb,x) ← resolveBlock x (pos / 4096).toUInt32 false
    if pb = 0 then
      -- a hole reads as zeros
      readLoop x offset len (produced ++ replicate can 0)
    else
      match ← readBlock pb with
      | none => return if produced.length > 0 then some produced else none
      | some blk =>
        readLoop x offset len (produced ++ (List.range can).map fun i => blk.get (inBlock pos + i))
  else return some produced
termination_by len - produced.length
decreasing_by
  all_goals
    have hpos := chunk_pos (offset + UInt64.ofNat produced.length) (Nat.sub_pos_of_lt ‹_›)
    simp only [length_append,length_replicate,length_map,length_range]
    omega

/-- The bytes read, or `none` for the return value -1. -/
def osfs2Read (ino : UInt32) (offset len : UInt64) : Fs (Option (List UInt8)) := do
  if !(← get).present then return none
  else
    match ← readInode ino with
    | none => return none
    | some x =>
      if x.type ≠ typeFile ∧ x.type ≠ typeDir then return none
      else if offset ≥ x.size.toUInt64 then return some []
      else
        let remaining := x.size.toUInt64 - offset
        let len := if len > remaining then remaining else len
        if len = 0 then return some []
        else readLoop x offset len.toNat []

/-- How the loop of `osfs2_write` ends: with the return value -1, or at `done` with the inode
and the number of bytes consumed. -/
def writeLoop (x : Inode) (offset : UInt64) (src : ℕ → UInt8) (len consumed : ℕ) :
    Fs (Option (Inode × ℕ)) :=
  if consumed < len then do
    let pos := offset + UInt64.ofNat consumed
    let can := chunk pos (len - consumed)
    let (pb,x) ← resolveBlock x (pos / 4096).toUInt32 true
    let stop : Option (Inode × ℕ) := if consumed > 0 then some (x,consumed) else none
    if pb = 0 then return stop
    else
      -- a block that is written in full is not read first
      let old ← if inBlock pos = 0 ∧ can = blockSize then pure (some Bytes.zero) else readBlock pb
      match old with
      | none => return stop
      | some blk =>
        if ← writeBlock pb (blk.splice (inBlock pos) can fun i => src (consumed + i)) then
          writeLoop x offset src len (consumed + can)
        else return stop
  else return some (x,consumed)
termination_by len - consumed
decreasing_by
  have hpos := chunk_pos (offset + UInt64.ofNat consumed) (Nat.sub_pos_of_lt ‹_›)
  omega

/-- `src` gives the bytes of the caller's buffer. -/
def osfs2Write (ino : UInt32) (offset : UInt64) (src : ℕ → UInt8) (len : UInt64) : Fs ℤ := do
  if !(← get).present then return -1
  else if len = 0 then return 0
  else if (offset + len).toNat > maxFileBytes then return -1
  else
    match ← readInode ino with
    | none => return -1
    | some x =>
      if x.type ≠ typeFile then return -1
      else
        match ← writeLoop x offset src len.toNat 0 with
        | none => return -1
        | some (x,consumed) =>
          let finish := offset + UInt64.ofNat consumed
          let x := if finish > x.size.toUInt64 then { x with size := finish.toUInt32 } else x
          if ← writeInode ino x then return (consumed : ℤ) else return -1

end VibeOS.Osfs2

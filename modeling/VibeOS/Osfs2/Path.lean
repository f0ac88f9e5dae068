import VibeOS.Osfs2.Layout

/-! The module state of `osfs2.c` and its low-level helpers: blocks, inodes, the two
allocators, the block tree of a file and the dirents of a directory. The helpers are programs
over the blocks that the cache serves. -/
namespace VibeOS.Osfs2
open VibeOS.Storage List

structure FsState where
  present : Bool
  sb : Superblock
  blockBitmap : Block
  inodeBitmap : Block

/-- A function of the driver: it may change the module state and read and write blocks. -/
abbrev Fs (α : Type) := StateT FsState (Prog Block) α

/-- The result is `none` for the return value -1. -/
def readBlock (blk : UInt32) : Fs (Option Block) := fun s =>
  if blk ≥ s.sb.totalBlocks then .ret (none,s)
  else .read blk.toNat fun r => .ret (r,s)

def writeBlock (blk : UInt32) (buf : Block) : Fs Bool := fun s =>
  if blk ≥ s.sb.totalBlocks then .ret (false,s)
  else .write blk.toNat buf fun r => .ret (r,s)

def readInode (ino : UInt32) : Fs (Option Inode) := do
  let s ← get
  if ino = 0 ∨ ino ≥ s.sb.inodeCount then return none
  else
    match ← readBlock (s.sb.inodeTableBlock + ino / 32) with
    | none => return none
    | some b => return some (Inode.ofBlock b (ino % 32).toNat)

def writeInode (ino : UInt32) (x : Inode) : Fs Bool := do
  let s ← get
  if ino = 0 ∨ ino ≥ s.sb.inodeCount then return false
  else
    match ← readBlock (s.sb.inodeTableBlock + ino / 32) with
    | none => return false
    | some b => writeBlock (s.sb.inodeTableBlock + ino / 32) (Inode.toBlock b (ino % 32).toNat x)

def flushBlockBitmap : Fs Bool := do
  let s ← get
  writeBlock s.sb.blockBitmapBlock s.blockBitmap

def flushInodeBitmap : Fs Bool := do
  let s ← get
  writeBlock s.sb.inodeBitmapBlock s.inodeBitmap

/-- The values of a loop counter that runs from `lo` up to `hi`. -/
def counters (lo hi : UInt32) : List UInt32 :=
  (List.range (hi.toNat - lo.toNat)).map fun k => lo + UInt32.ofNat k

def allocBlock : Fs UInt32 := do
  let s ← get
  match (counters s.sb.dataStartBlock s.sb.totalBlocks).find? fun b => !bitmapGet s.blockBitmap b with
  | none => return 0
  | some b =>
    set { s with blockBitmap := bitmapSet s.blockBitmap b }
    if ← flushBlockBitmap then
      let _ ← writeBlock b Bytes.zero
      return b
    else
      modify fun s => { s with blockBitmap := bitmapClear s.blockBitmap b }
      return 0

def freeBlock (b : UInt32) : Fs Bool := do
  let s ← get
  if b < s.sb.dataStartBlock ∨ b ≥ s.sb.totalBlocks then return false
  else
    set { s with blockBitmap := bitmapClear s.blockBitmap b }
    flushBlockBitmap

def allocInode : Fs UInt32 := do
  let s ← get
  match (counters (inodeRoot + 1) s.sb.inodeCount).find? fun i => !bitmapGet s.inodeBitmap i with
  | none => return 0
  | some i =>
    set { s with inodeBitmap := bitmapSet s.inodeBitmap i }
    if ← flushInodeBitmap then return i
    else
      modify fun s => { s with inodeBitmap := bitmapClear s.inodeBitmap i }
      return 0

def freeInode (i : UInt32) : Fs Bool := do
  let s ← get
  if i < inodeRoot + 1 ∨ i ≥ s.sb.inodeCount then return false
  else
    set { s with inodeBitmap := bitmapClear s.inodeBitmap i }
    flushInodeBitmap

/-- The end of `resolve_block`, where the inode has an indirect block. -/
def resolveEntry (x : Inode) (idx : ℕ) (allocate : Bool) : Fs (UInt32 × Inode) := do
  match ← readBlock x.indirect with
  | none => return (0,x)
  | some ind =>
    if tableAt ind idx ≠ 0 then return (tableAt ind idx,x)
    else if !allocate then return (0,x)
    else
      let b ← allocBlock
      if b = 0 then return (0,x)
      else if ← writeBlock x.indirect (tableSet ind idx b) then return (b,x)
      else
        let _ ← freeBlock b
        return (0,x)

/-- The physical block behind a logical one, and the inode, which is not written back here. -/
def resolveBlock (x : Inode) (lbn : UInt32) (allocate : Bool) : Fs (UInt32 × Inode) := do
  if lbn.toNat ≥ maxFileBlocks then return (0,x)
  else if h : lbn.toNat < 16 then
    if x.direct ⟨lbn.toNat,h⟩ ≠ 0 then return (x.direct ⟨lbn.toNat,h⟩,x)
    else if !allocate then return (0,x)
    else
      let b ← allocBlock
      if b = 0 then return (0,x)
      else return (b,{ x with direct := Function.update x.direct ⟨lbn.toNat,h⟩ b })
  else
    -- the single-indirect tier
    if x.indirect = 0 then
      if !allocate then return (0,x)
      else
        let b ← allocBlock
        if b = 0 then return (0,x)
        else resolveEntry { x with indirect := b } (lbn.toNat-16) allocate
    else resolveEntry x (lbn.toNat-16) allocate

/-- `str_eq` of the name in a dirent, from byte `k` on, and a string. -/
def strEqFrom (a : Bytes 60) : ℕ → List UInt8 → Bool
  | k, [] => a.get k == 0
  | k, c :: s => if a.get k ≠ 0 ∧ c ≠ 0 then a.get k == c && strEqFrom a (k+1) s else a.get k == c

def strEq (a : Bytes 60) (s : List UInt8) : Bool := strEqFrom a 0 s

structure Scan where
  /-- the value `dir_find` returns here, where it returns -/
  found : Option (Option ℕ)
  firstEmpty : Option ℕ

/-- The loop of `dir_find` over the dirents of one block; the first of them has index `base`. -/
def dirScan (buf : Block) (name : List UInt8) (total base : ℕ) : List ℕ → Option ℕ → Scan
  | [], e => ⟨none,e⟩
  | j :: js, e =>
    if base + j ≥ total then ⟨some none,e⟩
    else if (Dirent.ofBlock buf j).ino = 0 then
      dirScan buf name total base js (if e = none then some (base + j) else e)
    else if strEq (Dirent.ofBlock buf j).name name then ⟨some (some (base + j)),e⟩
    else dirScan buf name total base js e

/-- The loop of `dir_find` over the direct blocks. -/
def dirFindFrom (dir : Inode) (name : List UInt8) :
    List (Fin 16) → Option ℕ → Fs (Option ℕ × Option ℕ)
  | [], e => return (none,e)
  | i :: is, e => do
    if dir.direct i = 0 then dirFindFrom dir name is e
    else
      match ← readBlock (dir.direct i) with
      | none => return (none,e)
      | some buf =>
        match dirScan buf name (dir.size / 64).toNat (64*i.val) (List.range 64) e with
        | ⟨some r,e'⟩ => return (r,e')
        | ⟨none,e'⟩ => dirFindFrom dir name is e'

def dirFind (dir : Inode) (name : List UInt8) : Fs (Option ℕ × Option ℕ) :=
  dirFindFrom dir name (finRange 16) none

def dirReadAt (dir : Inode) (idx : ℕ) : Fs (Option Dirent) := do
  if h : idx / 64 < 16 then
    if dir.direct ⟨idx/64,h⟩ = 0 then return none
    else
      match ← readBlock (dir.direct ⟨idx/64,h⟩) with
      | none => return none
      | some buf => return some (Dirent.ofBlock buf (idx%64))
  else return none

def dirWriteAt (dir : Inode) (idx : ℕ) (ent : Dirent) : Fs Bool := do
  if h : idx / 64 < 16 then
    if dir.direct ⟨idx/64,h⟩ = 0 then return false
    else
      match ← readBlock (dir.direct ⟨idx/64,h⟩) with
      | none => return false
      | some buf => writeBlock (dir.direct ⟨idx/64,h⟩) (Dirent.toBlock buf (idx%64) ent)
  else return false


/-! Path walking in `osfs2.c`. Paths are the bytes before the terminating NUL. -/

open VibeOS.Storage

/-- The bytes of a NUL-terminated string. -/
abbrev CString := { s : List UInt8 // 0 ∉ s }

def slash : UInt8 := 0x2f

/-- The next component, cut off after 59 bytes, and the rest of the path after it. -/
def pathNextComponent (p : List UInt8) : Option (List UInt8 × List UInt8) :=
  match p.dropWhile (· == slash) with
  | [] => none
  | c :: p =>
    some (((c :: p).takeWhile (· != slash)).take (nameMax-1),
      ((c :: p).dropWhile (· != slash)).dropWhile (· == slash))

lemma dropWhile_length_le (f : UInt8 → Bool) (p : List UInt8) : (p.dropWhile f).length ≤ p.length :=
  (dropWhile_sublist f).length_le

lemma pathNextComponent_length {p comp rest : List UInt8}
    (h : pathNextComponent p = some (comp,rest)) : rest.length < p.length := by
  have hp := dropWhile_length_le (· == slash) p
  unfold pathNextComponent at h
  split at h
  · exact absurd h (by simp)
  · rename_i c q hq
    simp only [Option.some.injEq,Prod.mk.injEq] at h
    obtain ⟨-,rfl⟩ := h
    have hc : (c == slash) = false := by
      have := head?_dropWhile_not (· == slash) p
      rw [hq] at this
      simpa using this
    have hd : (c :: q).dropWhile (· != slash) = q.dropWhile (· != slash) := by
      simp [bne,hc]
    rw [hd]
    have h1 := dropWhile_length_le (· == slash) (q.dropWhile (· != slash))
    have h2 := dropWhile_length_le (· != slash) q
    rw [hq,length_cons] at hp
    omega

/-- The body of the loop in `walk`: the inode that a component names. -/
def walkStep (cur : UInt32) (comp : List UInt8) : Fs (Option UInt32) := do
  match ← readInode cur with
  | none => return none
  | some dir =>
    if dir.type ≠ typeDir then return none
    else
      match (← dirFind dir comp).1 with
      | none => return none
      | some idx =>
        match ← dirReadAt dir idx with
        | none => return none
        | some ent => return some ent.ino

def walkLoop (cur : UInt32) (p : List UInt8) : Fs UInt32 :=
  match _h : pathNextComponent p with
  | none => return cur
  | some (comp,rest) => do
    match ← walkStep cur comp with
    | none => return 0
    | some ino => walkLoop ino rest
termination_by p.length
decreasing_by exact pathNextComponent_length _h

/-- The buffer `comp` is on the stack. A path of two or more slashes and nothing else leaves
what was there before, `junk`, to be looked up in the root. -/
def walk (junk : List UInt8) (path : Option (List UInt8)) : Fs UInt32 := do
  match path with
  | none => return inodeRoot
  | some p =>
    if p = [] ∨ p = [slash] then return inodeRoot
    else if pathNextComponent p = none ∧ junk ≠ [] then
      match ← walkStep inodeRoot junk with
      | none => return 0
      | some ino => return ino
    else walkLoop inodeRoot p

def trimSlashes (p : List UInt8) : List UInt8 := (p.reverse.dropWhile (· == slash)).reverse

def leafStart (p : List UInt8) : ℕ :=
  (List.range p.length).foldl
    (fun s i => if p[i]? = some slash ∧ ∃ c, p[i+1]? = some c ∧ c ≠ slash then i+1 else s) 0

/-- The parent's path and the leaf, or `none` where `walk_parent` refuses the path before
walking it. -/
def splitPath (path : List UInt8) : Option (List UInt8 × List UInt8) :=
  let p := path.dropWhile (· == slash)
  if p = [] then none
  else
    let leaf := trimSlashes (p.drop (leafStart p))
    if leaf.length = 0 ∨ leaf.length ≥ nameMax then none
    else if slash ∈ leaf then none
    else
      let parent := trimSlashes (path.take (path.length - p.length + leafStart p))
      if parent.length ≥ 256 then none else some (parent,leaf)

/-- The inode of the parent directory and the name in it. The parent's path does not end in
a slash, so the walk fills its component buffer before it looks at it. -/
def walkParent (path : Option (List UInt8)) : Fs (Option (UInt32 × List UInt8)) := do
  match path with
  | none => return none
  | some path =>
    match splitPath path with
    | none => return none
    | some (parentPath,leaf) =>
      let parent ← walk [] (some parentPath)
      if parent = 0 then return none
      else
        match ← readInode parent with
        | none => return none
        | some pi => if pi.type ≠ typeDir then return none else return some (parent,leaf)

end VibeOS.Osfs2

import VibeOS.Osfs2.Format

/-! The tool `mkosfs2.py`: the image that it writes for a list of `name=path` arguments, with the
exits where it writes none. -/
namespace VibeOS.Osfs2
open Function
open VibeOS.Storage

def equalsSign : UInt8 := 61

/-- A file to put into the root directory. -/
structure Seed where
  name : CString
  data : List UInt8

/-- The part of an argument before the first `=`. -/
def specName (spec : CString) : CString :=
  ⟨spec.val.takeWhile (· ≠ equalsSign),fun h => spec.2 ((List.takeWhile_subset _) h)⟩

def specPath (spec : CString) : List UInt8 := (spec.val.dropWhile (· ≠ equalsSign)).tail

/-- An argument with the file that its path leads to on the host. -/
def parseSpec (host : List UInt8 → Option (List UInt8)) (spec : CString) : Option Seed :=
  if equalsSign ∈ spec.val then (host (specPath spec)).map fun data => ⟨specName spec,data⟩ else none

/-- The variables of `format_image`. The image and the inode table are arrays of blocks. -/
structure Making where
  image : Store Block
  blockBitmap : Block
  inodeBitmap : Block
  inodeTable : Store Block
  rootDirents : Block
  direntIndex : ℕ
  nextDataBlock : ℕ
  nextInode : ℕ

namespace Making

/-- Before the files: the metadata blocks and the first block of the root directory are marked, and
the null sentinel and the root. -/
def start : Making :=
  ⟨fun _ => Bytes.zero,imageBlockBitmap,imageInodeBitmap,fun _ => Bytes.zero,Bytes.zero,0,101,2⟩

variable (m : Making)

def allocBlock (b : ℕ) : Making := { m with blockBitmap := bitmapSet m.blockBitmap (UInt32.ofNat b) }

def allocInode (i : ℕ) : Making := { m with inodeBitmap := bitmapSet m.inodeBitmap (UInt32.ofNat i) }

def writeInode (ino : ℕ) (x : Inode) : Making :=
  { m with inodeTable := update m.inodeTable (ino/32) (Inode.toBlock (m.inodeTable (ino/32)) (ino%32) x) }

/-- `append_dirent` -/
def appendDirent (ino : ℕ) (name : List UInt8) : Option Making :=
  if m.direntIndex ≥ direntsPerBlock then none
  else if name.length ≥ nameMax then none
  else some { m with
    rootDirents := Dirent.toBlock m.rootDirents m.direntIndex (newDirent (UInt32.ofNat ino) name)
    direntIndex := m.direntIndex + 1 }

/-- A turn of both loops over the data: the next block of the data section gets a chunk. -/
def placeBlock (chunk : List UInt8) : Option (ℕ × Making) :=
  let blk := m.nextDataBlock
  if blk + 1 > 16384 then none
  else
    let m := { m with nextDataBlock := blk + 1 }.allocBlock blk
    let block := (m.image blk).splice 0 chunk.length fun k => (chunk[k]?).getD 0
    some (blk,{ m with image := update m.image blk block })

/-- Both loops, from pointer `i` on, with `left` pointers left: `put` stores a pointer. What is
left of the data comes back. -/
def placeChunks {σ : Type} (put : ℕ → UInt32 → σ → σ) : ℕ → ℕ → List UInt8 → σ → Making → Option (List UInt8 × σ × Making)
  | 0, _, data, s, m => some (data,s,m)
  | left + 1, i, data, s, m =>
    if data = [] then some (data,s,m)
    else
      match m.placeBlock (data.take blockSize) with
      | none => none
      | some (blk,m) => placeChunks put left (i + 1) (data.drop blockSize) (put i (UInt32.ofNat blk) s) m

def putDirect (i : ℕ) (b : UInt32) (direct : ℕ → UInt32) : ℕ → UInt32 := update direct i b

def putEntry (i : ℕ) (b : UInt32) (table : Block) : Block := tableSet table i b

/-- The indirect block, where data is left: its number and the data that does not fit. -/
def placeIndirect (data : List UInt8) : Option (ℕ × List UInt8 × Making) :=
  if data = [] then some (0,data,m)
  else
    let indBlk := m.nextDataBlock
    let m := { m with nextDataBlock := indBlk + 1 }.allocBlock indBlk
    match placeChunks putEntry indirectPtrs 0 data Bytes.zero m with
    | none => none
    | some (rest,table,m) => some (indBlk,rest,{ m with image := update m.image indBlk table })

def fileInode (size : ℕ) (direct : ℕ → UInt32) (indirect : ℕ) : Inode :=
  { newInode typeFile with size := UInt32.ofNat size, direct := fun i => direct i.val, indirect := UInt32.ofNat indirect }

def addFile (seed : Seed) : Option Making :=
  if seed.data.length > maxFileBytes then none
  else
    let ino := m.nextInode
    let m := { m with nextInode := ino + 1 }
    if ino ≥ 2048 then none
    else
      match placeChunks putDirect directPtrs 0 seed.data (fun _ => 0) (m.allocInode ino) with
      | none => none
      | some (rest,direct,m) =>
        match m.placeIndirect rest with
        | none => none
        | some (indirect,rest,m) =>
          if rest ≠ [] then none
          else (m.writeInode ino (fileInode seed.data.length direct indirect)).appendDirent ino seed.name.val

def addFiles (host : List UInt8 → Option (List UInt8)) : List CString → Making → Option Making
  | [], m => some m
  | spec :: files, m =>
    match parseSpec host spec with
    | none => none
    | some seed =>
      match m.addFile seed with
      | none => none
      | some m => addFiles host files m

def rootInode : Inode := { imageRoot with size := UInt32.ofNat (m.direntIndex*direntSize) }

def finish : Store Block := fun b =>
  if b = 0 then geometry.toBlock
  else if b = 1 then m.blockBitmap
  else if b = 2 then m.inodeBitmap
  else if b < 67 then (m.writeInode 1 m.rootInode).inodeTable (b - 3)
  else if b = 100 then m.rootDirents
  else m.image b

end Making

/-- `format_image`: the blocks of the image, or an exit. -/
def formatImage (host : List UInt8 → Option (List UInt8)) (files : List CString) : Option (Store Block) :=
  if files.length > direntsPerBlock then none
  else (Making.addFiles host files .start).map Making.finish

namespace Making
variable {m m' : Making} {data rest : List UInt8} {i left n b : ℕ}

def blocksOf (data : List UInt8) : ℕ := (data.length + 4095)/4096

/-- The `n` blocks from the next one on have the data, one chunk in each. -/
structure Placed (data : List UInt8) (n : ℕ) (m m' : Making) : Prop where
  only : m' = { m with image := m'.image, blockBitmap := m'.blockBitmap, nextDataBlock := m.nextDataBlock + n }
  room : n = 0 ∨ m.nextDataBlock + n ≤ 16384
  marked : ∀ b : UInt32, bitmapGet m'.blockBitmap b =
    (bitmapGet m.blockBitmap b || decide (m.nextDataBlock ≤ b.toNat ∧ b.toNat < m.nextDataBlock + n))
  same : ∀ b, ¬ (m.nextDataBlock ≤ b ∧ b < m.nextDataBlock + n) → m'.image b = m.image b
  bytes : ∀ p < data.length, p/4096 < n → (m'.image (m.nextDataBlock + p/4096)).get (p%4096) = (data[p]?).getD 0

lemma Placed.refl (data : List UInt8) (m : Making) : Placed data 0 m m :=
  ⟨rfl,.inl rfl,fun b => by simp,fun _ _ => rfl,fun p _ hp => absurd hp (Nat.not_lt_zero _)⟩

lemma Placed.cons {m₁ : Making} (hone : m.placeBlock (data.take blockSize) = some (b,m₁))
    (h : Placed (data.drop blockSize) n m₁ m') : b = m.nextDataBlock ∧ Placed data (n+1) m m' := by
  unfold placeBlock at hone
  dsimp only at hone
  split at hone
  · cases hone
  next hroom =>
  obtain ⟨rfl,hm₁⟩ := Prod.mk.inj (Option.some.inj hone)
  have hnext : m₁.nextDataBlock = m.nextDataBlock + 1 := by rw [← hm₁]; rfl
  have hbits : m₁.blockBitmap = bitmapSet m.blockBitmap (UInt32.ofNat m.nextDataBlock) := by rw [← hm₁]; rfl
  have himage : m₁.image = update m.image m.nextDataBlock ((m.image m.nextDataBlock).splice 0 (data.take blockSize).length
      fun k => ((data.take blockSize)[k]?).getD 0) := by rw [← hm₁]; rfl
  have hof : (UInt32.ofNat m.nextDataBlock).toNat = m.nextDataBlock := by
    rw [UInt32.toNat_ofNat']
    omega
  refine ⟨rfl,?_,.inr ?_,fun b => ?_,fun b hb => ?_,fun p hp hpn => ?_⟩
  · rw [h.only,← hm₁]
    unfold allocBlock
    dsimp only
    rw [Nat.add_assoc,Nat.add_comm 1 n]
  · rcases h.room with rfl | hle <;> omega
  · rw [h.marked b,hbits,hnext,bitmapGet_bitmapSet _ (by rw [hof]; omega),update_apply]
    by_cases hself : b = UInt32.ofNat m.nextDataBlock
    · have : b.toNat = m.nextDataBlock := by rw [hself,hof]
      rw [if_pos hself]
      simp
      omega
    · have hne : b.toNat ≠ m.nextDataBlock := fun he => hself (UInt32.toNat_inj.mp (by rw [he,hof]))
      rw [if_neg hself]
      congr 1
      exact decide_eq_decide.mpr (by omega)
  · rw [h.same b (by omega),himage]
    exact update_of_ne (by omega) _ _
  · by_cases h0 : p/4096 = 0
    · have hplt : p < 4096 := by omega
      rw [h0,Nat.add_zero,h.same _ (by omega),himage,update_self,Nat.mod_eq_of_lt hplt]
      have hlen : p < (data.take blockSize).length := by
        rw [List.length_take]
        unfold blockSize
        omega
      rw [Bytes.get_splice _ _ _ _ hplt,if_pos (by omega),Nat.sub_zero,
        List.getElem?_take_of_lt (show p < blockSize from hplt)]
    · have hrest := h.bytes (p - 4096) (by rw [List.length_drop]; unfold blockSize; omega) (by omega)
      have hdiv : m₁.nextDataBlock + (p - 4096)/4096 = m.nextDataBlock + p/4096 := by omega
      rw [hdiv,show (p - 4096) % 4096 = p % 4096 by omega,List.getElem?_drop] at hrest
      rw [hrest]
      unfold blockSize
      rw [Nat.add_sub_cancel' (by omega)]

lemma placeChunks_spec {σ : Type} {put : ℕ → UInt32 → σ → σ} (get : σ → ℕ → UInt32) (limit : ℕ)
    (hput : ∀ s i b j, i < limit → j < limit → get (put i b s) j = if j = i then b else get s j) {s s' : σ}
    (h : placeChunks put left i data s m = some (rest,s',m')) (hi : i + left ≤ limit) :
    ∃ n, n = min left (blocksOf data) ∧ rest = data.drop (n*4096) ∧ Placed data n m m' ∧
      ∀ j < limit, get s' j = if i ≤ j ∧ j < i + n then UInt32.ofNat (m.nextDataBlock + (j - i)) else get s j := by
  induction left generalizing i data s m with
  | zero =>
    simp only [placeChunks,Option.some.injEq,Prod.mk.injEq] at h
    obtain ⟨rfl,rfl,rfl⟩ := h
    exact ⟨0,by simp,by simp,.refl _ _,fun j _ => by rw [if_neg (by omega)]⟩
  | succ left ih =>
    rw [placeChunks] at h
    by_cases hd : data = []
    · rw [if_pos hd] at h
      simp only [Option.some.injEq,Prod.mk.injEq] at h
      obtain ⟨rfl,rfl,rfl⟩ := h
      subst hd
      exact ⟨0,by simp [blocksOf],by simp,.refl _ _,fun j _ => by rw [if_neg (by omega)]⟩
    · rw [if_neg hd] at h
      have hlen : 0 < data.length := List.length_pos_iff.mpr hd
      cases hone : m.placeBlock (data.take blockSize) with
      | none => rw [hone] at h; cases h
      | some r =>
        obtain ⟨blk,m₁⟩ := r
        rw [hone] at h
        obtain ⟨n,hn,hrest,hplaced,hget⟩ := ih h (by omega)
        obtain ⟨rfl,hp⟩ := Placed.cons hone hplaced
        have hnext : m₁.nextDataBlock = m.nextDataBlock + 1 := by
          unfold placeBlock at hone
          dsimp only at hone
          split at hone
          · cases hone
          · rw [← (Prod.mk.inj (Option.some.inj hone)).2]
            rfl
        refine ⟨n+1,?_,?_,hp,fun j hj => ?_⟩
        · rw [hn]
          unfold blocksOf blockSize
          rw [List.length_drop]
          omega
        · rw [hrest,List.drop_drop]
          congr 1
          unfold blockSize
          omega
        · rw [hget j hj,hput s i _ j (by omega) hj,hnext]
          by_cases hji : j = i
          · rw [if_neg (by omega),if_pos hji,if_pos (by omega),hji,Nat.sub_self,Nat.add_zero]
          · by_cases hin : i + 1 ≤ j ∧ j < i + 1 + n
            · rw [if_pos hin,if_pos (by omega)]
              congr 1
              omega
            · rw [if_neg hin,if_neg hji,if_neg (by omega)]

end Making
end VibeOS.Osfs2

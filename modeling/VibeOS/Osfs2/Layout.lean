import VibeOS.Osfs2.Disk
import Mathlib.Data.Fintype.Basic

/-! The on-disk structures of OSFS-2: superblock, inode, dirent and bitmap, with the constants
of `osfs2.h` and the casts between the structures and the bytes of a block. -/
namespace VibeOS.Osfs2
open Function
open VibeOS.Storage

def blockSize : ℕ := 4096
def directPtrs : ℕ := 16
def indirectPtrs : ℕ := 1024
def maxFileBlocks : ℕ := directPtrs + indirectPtrs
def maxFileBytes : ℕ := maxFileBlocks * blockSize
def inodeSize : ℕ := 128
def inodesPerBlock : ℕ := 32
def direntSize : ℕ := 64
def direntsPerBlock : ℕ := 64
/-- OSFS2_NAME_MAX, the name field of a dirent with its NUL. -/
def nameMax : ℕ := 60

def typeFree : UInt32 := 0
def typeFile : UInt32 := 1
def typeDir : UInt32 := 2
def inodeRoot : UInt32 := 1

structure Superblock where
  magic : Bytes 8
  blockSize : UInt32
  totalBlocks : UInt32
  inodeCount : UInt32
  blockBitmapBlock : UInt32
  inodeBitmapBlock : UInt32
  inodeTableBlock : UInt32
  inodeTableBlocks : UInt32
  dataStartBlock : UInt32
  rootInode : UInt32
  journalHeaderBlock : UInt32
  journalDataBlocks : UInt32
  reserved : UInt32
  deriving DecidableEq

structure Inode where
  type : UInt32
  size : UInt32
  nlink : UInt32
  mode : UInt32
  ctimeMs : UInt32
  mtimeMs : UInt32
  direct : Fin 16 → UInt32
  indirect : UInt32
  reserved : Bytes 36
  deriving DecidableEq

namespace Inode

def zero : Inode := ⟨0,0,0,0,0,0,fun _ => 0,0,Bytes.zero⟩

def word (x : Inode) : ℕ → UInt32
  | 0 => x.type
  | 1 => x.size
  | 2 => x.nlink
  | 3 => x.mode
  | 4 => x.ctimeMs
  | 5 => x.mtimeMs
  | n+6 => if h : n < 16 then x.direct ⟨n,h⟩ else x.indirect

def byteAt (x : Inode) (k : ℕ) : UInt8 :=
  if k < 92 then Bytes.wordByte (x.word (k/4)) (k%4) else x.reserved.get (k-92)

/-- The inode in slot `i` of an inode table block. -/
def ofBlock (b : Block) (i : ℕ) : Inode where
  type := b.u32 (128*i)
  size := b.u32 (128*i+4)
  nlink := b.u32 (128*i+8)
  mode := b.u32 (128*i+12)
  ctimeMs := b.u32 (128*i+16)
  mtimeMs := b.u32 (128*i+20)
  direct k := b.u32 (128*i+24+4*k.val)
  indirect := b.u32 (128*i+88)
  reserved := Bytes.ofFn fun k => b.get (128*i+92+k)

/-- The block with an inode written over slot `i`. -/
def toBlock (b : Block) (i : ℕ) (x : Inode) : Block := b.splice (128*i) 128 x.byteAt

lemma byteAt_word (x : Inode) {w k : ℕ} (hw : w < 23) (hk : k < 4) :
    x.byteAt (4*w+k) = Bytes.wordByte (x.word w) k := by
  rw [byteAt,if_pos (by omega)]
  congr 2 <;> omega

lemma u32_toBlock (b : Block) {i w : ℕ} (hi : i < 32) (x : Inode) (hw : w < 23) :
    (toBlock b i x).u32 (128*i+4*w) = x.word w :=
  Bytes.u32_splice_word b (by omega) (by omega) fun _ hk => x.byteAt_word hw hk

lemma ofBlock_toBlock (b : Block) {i : ℕ} (hi : i < 32) (x : Inode) :
    ofBlock (toBlock b i x) i = x := by
  have hw (w : ℕ) (h : w < 23) := u32_toBlock b hi x h
  have hd : (fun k : Fin 16 => (toBlock b i x).u32 (128*i+24+4*k.val)) = x.direct := by
    funext k
    have h := hw (k.val+6) (by omega)
    rw [word,dif_pos k.isLt] at h
    rw [← h]
    congr 1
    ring
  have hind := hw 22 (by omega)
  rw [word,dif_neg (by omega)] at hind
  have hr : (Bytes.ofFn fun k => (toBlock b i x).get (128*i+92+k) : Bytes 36) = x.reserved := by
    apply Bytes.ext_get
    intro k hk
    rw [Bytes.get_ofFn _ hk,toBlock,Bytes.get_splice _ _ _ _ (by omega),if_pos (by omega),byteAt,
      if_neg (by omega)]
    congr 1
    omega
  have h0 := hw 0 (by omega)
  have h1 := hw 1 (by omega)
  have h2 := hw 2 (by omega)
  have h3 := hw 3 (by omega)
  have h4 := hw 4 (by omega)
  have h5 := hw 5 (by omega)
  simp only [Nat.mul_zero,Nat.add_zero,Nat.mul_one,word] at h0 h1 h2 h3 h4 h5
  unfold ofBlock
  rw [h0,h1,h2,h3,h4,h5,hd,hind,hr]

lemma ofBlock_toBlock_of_ne (b : Block) {i k : ℕ} (x : Inode) (h : i ≠ k) :
    ofBlock (toBlock b i x) k = ofBlock b k := by
  have hw (o : ℕ) (ho : o + 4 ≤ 128) : (toBlock b i x).u32 (128*k+o) = b.u32 (128*k+o) :=
    Bytes.u32_splice_of_disjoint b (by omega)
  have hd : (fun m : Fin 16 => (toBlock b i x).u32 (128*k+24+4*m.val)) =
      fun m => b.u32 (128*k+24+4*m.val) := by
    funext m
    have := hw (24+4*m.val) (by omega)
    rwa [← Nat.add_assoc] at this
  have hr : (Bytes.ofFn fun m => (toBlock b i x).get (128*k+92+m) : Bytes 36) =
      Bytes.ofFn fun m => b.get (128*k+92+m) := by
    apply Bytes.ext_get
    intro m hm
    rw [Bytes.get_ofFn _ hm,Bytes.get_ofFn _ hm,toBlock]
    rcases Nat.lt_or_gt_of_ne h with hlt | hgt
    · exact Bytes.get_splice_of_ge _ _ _ _ (by omega)
    · exact Bytes.get_splice_of_lt _ _ _ _ (by omega)
  have h0 := hw 0 (by omega)
  rw [Nat.add_zero] at h0
  unfold ofBlock
  rw [h0,hw 4 (by omega),hw 8 (by omega),hw 12 (by omega),hw 16 (by omega),hw 20 (by omega),
    hd,hw 88 (by omega),hr]

lemma ofBlock_zero (i : ℕ) : ofBlock Bytes.zero i = zero := by
  have hr : (Bytes.ofFn fun k => (Bytes.zero : Block).get (128*i+92+k) : Bytes 36) = Bytes.zero := by
    apply Bytes.ext_get
    intro k hk
    rw [Bytes.get_ofFn _ hk,Bytes.get_zero,Bytes.get_zero]
  simp only [ofBlock,Bytes.u32_zero,hr,zero]

end Inode

structure Dirent where
  ino : UInt32
  name : Bytes 60
  deriving DecidableEq

namespace Dirent

def byteAt (e : Dirent) (k : ℕ) : UInt8 :=
  if k < 4 then Bytes.wordByte e.ino k else e.name.get (k-4)

/-- The dirent in slot `j` of a directory block. -/
def ofBlock (b : Block) (j : ℕ) : Dirent where
  ino := b.u32 (64*j)
  name := Bytes.ofFn fun k => b.get (64*j+4+k)

def toBlock (b : Block) (j : ℕ) (e : Dirent) : Block := b.splice (64*j) 64 e.byteAt

lemma ofBlock_toBlock (b : Block) {j : ℕ} (hj : j < 64) (e : Dirent) :
    ofBlock (toBlock b j e) j = e := by
  have hi : (toBlock b j e).u32 (64*j) = e.ino := by
    apply Bytes.u32_of_bytes
    intro k hk
    rw [toBlock,Bytes.get_splice _ _ _ _ (by omega),if_pos (by omega),byteAt,if_pos (by omega)]
    congr 1
    omega
  have hn : (Bytes.ofFn fun k => (toBlock b j e).get (64*j+4+k) : Bytes 60) = e.name := by
    apply Bytes.ext_get
    intro k hk
    rw [Bytes.get_ofFn _ hk,toBlock,Bytes.get_splice _ _ _ _ (by omega),if_pos (by omega),byteAt,
      if_neg (by omega)]
    congr 1
    omega
  unfold ofBlock
  rw [hi,hn]

lemma ofBlock_toBlock_of_ne (b : Block) {j k : ℕ} (e : Dirent) (h : j ≠ k) :
    ofBlock (toBlock b j e) k = ofBlock b k := by
  have hi : (toBlock b j e).u32 (64*k) = b.u32 (64*k) :=
    Bytes.u32_splice_of_disjoint b (by omega)
  have hn : (Bytes.ofFn fun m => (toBlock b j e).get (64*k+4+m) : Bytes 60) =
      Bytes.ofFn fun m => b.get (64*k+4+m) := by
    apply Bytes.ext_get
    intro m hm
    rw [Bytes.get_ofFn _ hm,Bytes.get_ofFn _ hm,toBlock]
    rcases Nat.lt_or_gt_of_ne h with hlt | hgt
    · exact Bytes.get_splice_of_ge _ _ _ _ (by omega)
    · exact Bytes.get_splice_of_lt _ _ _ _ (by omega)
  unfold ofBlock
  rw [hi,hn]

def zero : Dirent := ⟨0,Bytes.zero⟩

lemma ofBlock_zero (j : ℕ) : ofBlock Bytes.zero j = zero := by
  have hn : (Bytes.ofFn fun m => (Bytes.zero : Block).get (64*j+4+m) : Bytes 60) = Bytes.zero := by
    apply Bytes.ext_get
    intro m hm
    rw [Bytes.get_ofFn _ hm,Bytes.get_zero,Bytes.get_zero]
  simp only [ofBlock,Bytes.u32_zero,hn,zero]

end Dirent

/-- Entry `j` of an indirect block. -/
def tableAt (b : Block) (j : ℕ) : UInt32 := b.u32 (4*j)

def tableSet (b : Block) (j : ℕ) (p : UInt32) : Block := b.setU32 (4*j) p

@[simp] lemma tableAt_tableSet_self (b : Block) {j : ℕ} (hj : j < 1024) (p : UInt32) :
    tableAt (tableSet b j p) j = p :=
  Bytes.u32_setU32_self b p (by omega)

lemma tableAt_tableSet_of_ne (b : Block) {j k : ℕ} (p : UInt32) (h : j ≠ k) :
    tableAt (tableSet b j p) k = tableAt b k :=
  Bytes.u32_setU32_of_disjoint b p (by omega)

@[simp] lemma tableAt_zero (j : ℕ) : tableAt Bytes.zero j = 0 := Bytes.u32_zero _

def bitmapGet (bm : Block) (bit : UInt32) : Bool :=
  (bm.get (bit.toNat/8) >>> UInt8.ofNat (bit.toNat%8)) &&& 1 != 0

def bitmapSet (bm : Block) (bit : UInt32) : Block :=
  bm.splice (bit.toNat/8) 1 fun _ => bm.get (bit.toNat/8) ||| (1 <<< UInt8.ofNat (bit.toNat%8))

def bitmapClear (bm : Block) (bit : UInt32) : Block :=
  bm.splice (bit.toNat/8) 1 fun _ => bm.get (bit.toNat/8) &&& ~~~ (1 <<< UInt8.ofNat (bit.toNat%8))

lemma shift_and_one (x : UInt8) {i : ℕ} (hi : i < 8) :
    ((x >>> UInt8.ofNat i) &&& 1 != 0) = x.toNat.testBit i := by
  rw [Nat.testBit,bne,bne]
  congr 1
  rw [Bool.eq_iff_iff]
  simp only [beq_iff_eq]
  rw [← UInt8.toNat_inj]
  simp [Nat.mod_eq_of_lt hi,Nat.and_comm,Nat.mod_eq_of_lt (show i < 256 by omega)]

lemma bitmapGet_eq (bm : Block) (bit : UInt32) :
    bitmapGet bm bit = (bm.get (bit.toNat/8)).toNat.testBit (bit.toNat%8) :=
  shift_and_one _ (by omega)

lemma testBit_or_one (x : UInt8) (i j : Fin 8) :
    (x ||| (1 <<< UInt8.ofNat j.val)).toNat.testBit i.val = (x.toNat.testBit i.val || decide (i = j)) := by
  have h : ∀ i j : Fin 8, (1 <<< UInt8.ofNat j.val : UInt8).toNat.testBit i.val = decide (i = j) := by
    decide
  rw [UInt8.toNat_or,Nat.testBit_or,h]

lemma testBit_and_not_one (x : UInt8) (i j : Fin 8) :
    (x &&& ~~~ (1 <<< UInt8.ofNat j.val)).toNat.testBit i.val =
      (x.toNat.testBit i.val && !decide (i = j)) := by
  have h : ∀ i j : Fin 8, (~~~ (1 <<< UInt8.ofNat j.val) : UInt8).toNat.testBit i.val =
      !decide (i = j) := by
    decide
  rw [UInt8.toNat_and,Nat.testBit_and,h]

lemma bitmapGet_splice (bm : Block) {bit : UInt32} (h : bit.toNat < 32768) {x : UInt8} {v : Bool}
    (hx : ∀ i : Fin 8, x.toNat.testBit i.val =
      if i.val = bit.toNat%8 then v else (bm.get (bit.toNat/8)).toNat.testBit i.val) :
    bitmapGet (bm.splice (bit.toNat/8) 1 fun _ => x) = update (bitmapGet bm) bit v := by
  funext c
  rw [bitmapGet_eq]
  by_cases hb : c.toNat/8 = bit.toNat/8
  · rw [hb,Bytes.get_splice _ _ _ _ (by omega),if_pos (by omega)]
    have ht := hx ⟨c.toNat%8,by omega⟩
    simp only at ht
    rw [ht]
    by_cases hc : c = bit
    · subst hc; simp
    · have hne : c.toNat ≠ bit.toNat := fun he => hc (UInt32.toNat_inj.mp he)
      rw [update_of_ne hc,bitmapGet_eq,hb,if_neg (by omega)]
  · have hc : c ≠ bit := fun he => hb (by rw [he])
    rw [update_of_ne hc,bitmapGet_eq]
    rcases Nat.lt_or_gt_of_ne hb with hlt | hgt
    · rw [Bytes.get_splice_of_lt _ _ _ _ (by omega)]
    · rw [Bytes.get_splice_of_ge _ _ _ _ (by omega)]

lemma bitmapGet_bitmapSet (bm : Block) {bit : UInt32} (h : bit.toNat < 32768) :
    bitmapGet (bitmapSet bm bit) = update (bitmapGet bm) bit true := by
  refine bitmapGet_splice bm h fun i => ?_
  have hbit := testBit_or_one (bm.get (bit.toNat/8)) i ⟨bit.toNat%8,by omega⟩
  rw [hbit]
  by_cases hi : i.val = bit.toNat%8 <;> simp [Fin.ext_iff,hi]

lemma bitmapGet_bitmapClear (bm : Block) {bit : UInt32} (h : bit.toNat < 32768) :
    bitmapGet (bitmapClear bm bit) = update (bitmapGet bm) bit false := by
  refine bitmapGet_splice bm h fun i => ?_
  have hbit := testBit_and_not_one (bm.get (bit.toNat/8)) i ⟨bit.toNat%8,by omega⟩
  rw [hbit]
  by_cases hi : i.val = bit.toNat%8 <;> simp [Fin.ext_iff,hi]

end VibeOS.Osfs2

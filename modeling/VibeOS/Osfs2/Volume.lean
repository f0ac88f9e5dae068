import VibeOS.Osfs2.Operations
import Mathlib.Data.Fin.VecNotation

/-! A mounted volume in typed form: the inode records, the data blocks and the two bitmaps as
maps. `Does` says what a function of the driver does to a volume that the module state and
the disk represent; its rules for the helpers are all that later modules use. -/
namespace VibeOS.Osfs2
open Function (update update_of_ne update_self)
open VibeOS.Storage

/-- The superblock that `mkosfs2.py` writes. -/
def geometry : Superblock where
  magic := ![0x4f,0x53,0x46,0x53,0x2d,0x30,0x30,0x32]
  blockSize := 4096
  totalBlocks := 16384
  inodeCount := 2048
  blockBitmapBlock := 1
  inodeBitmapBlock := 2
  inodeTableBlock := 3
  inodeTableBlocks := 64
  dataStartBlock := 100
  rootInode := 1
  journalHeaderBlock := 67
  journalDataBlocks := 32
  reserved := 0

def dataBlock (b : UInt32) : Prop := 100 ≤ b.toNat ∧ b.toNat < 16384

/-- The numbers that have a record in the inode table, apart from the null sentinel. -/
def validInode (i : UInt32) : Prop := i ≠ 0 ∧ i.toNat < 2048

instance (b : UInt32) : Decidable (dataBlock b) := inferInstanceAs (Decidable (_ ∧ _))
instance (i : UInt32) : Decidable (validInode i) := inferInstanceAs (Decidable (_ ∧ _))

lemma dataBlock.ne_zero {b : UInt32} (h : dataBlock b) : b ≠ 0 := by
  rintro rfl
  exact absurd h (by decide)

@[ext] structure Vol where
  inode : UInt32 → Inode
  data : UInt32 → Block
  used : UInt32 → Bool
  live : UInt32 → Bool

namespace Vol
variable (v : Vol)

def setInode (i : UInt32) (x : Inode) : Vol := { v with inode := update v.inode i x }
def setData (b : UInt32) (blk : Block) : Vol := { v with data := update v.data b blk }
def take (b : UInt32) : Vol :=
  { v with used := update v.used b true, data := update v.data b Bytes.zero }
def give (b : UInt32) : Vol := { v with used := update v.used b false }
def setLive (i : UInt32) (on : Bool) : Vol := { v with live := update v.live i on }

@[simp] lemma setInode_inode (i : UInt32) (x : Inode) :
    (v.setInode i x).inode = update v.inode i x := rfl
@[simp] lemma setInode_data (i : UInt32) (x : Inode) : (v.setInode i x).data = v.data := rfl
@[simp] lemma setInode_used (i : UInt32) (x : Inode) : (v.setInode i x).used = v.used := rfl
@[simp] lemma setInode_live (i : UInt32) (x : Inode) : (v.setInode i x).live = v.live := rfl
@[simp] lemma setData_inode (b : UInt32) (blk : Block) : (v.setData b blk).inode = v.inode := rfl
@[simp] lemma setData_data (b : UInt32) (blk : Block) :
    (v.setData b blk).data = update v.data b blk := rfl
@[simp] lemma setData_used (b : UInt32) (blk : Block) : (v.setData b blk).used = v.used := rfl
@[simp] lemma setData_live (b : UInt32) (blk : Block) : (v.setData b blk).live = v.live := rfl
@[simp] lemma take_inode (b : UInt32) : (v.take b).inode = v.inode := rfl
@[simp] lemma take_data (b : UInt32) : (v.take b).data = update v.data b Bytes.zero := rfl
@[simp] lemma take_used (b : UInt32) : (v.take b).used = update v.used b true := rfl
@[simp] lemma take_live (b : UInt32) : (v.take b).live = v.live := rfl
@[simp] lemma give_inode (b : UInt32) : (v.give b).inode = v.inode := rfl
@[simp] lemma give_data (b : UInt32) : (v.give b).data = v.data := rfl
@[simp] lemma give_used (b : UInt32) : (v.give b).used = update v.used b false := rfl
@[simp] lemma give_live (b : UInt32) : (v.give b).live = v.live := rfl
@[simp] lemma setLive_inode (i : UInt32) (on : Bool) : (v.setLive i on).inode = v.inode := rfl
@[simp] lemma setLive_data (i : UInt32) (on : Bool) : (v.setLive i on).data = v.data := rfl
@[simp] lemma setLive_used (i : UInt32) (on : Bool) : (v.setLive i on).used = v.used := rfl
@[simp] lemma setLive_live (i : UInt32) (on : Bool) :
    (v.setLive i on).live = update v.live i on := rfl

end Vol

/-- The module state and the blocks hold the volume; the bitmaps on disk are those in memory. -/
structure Rep (v : Vol) (s : FsState) (d : Store Block) : Prop where
  present : s.present = true
  sb : s.sb = geometry
  used : v.used = bitmapGet s.blockBitmap
  live : v.live = bitmapGet s.inodeBitmap
  blockBitmap : d 1 = s.blockBitmap
  inodeBitmap : d 2 = s.inodeBitmap
  inode : ∀ i, v.inode i =
    if i.toNat < 2048 then Inode.ofBlock (d (3 + i.toNat/32)) (i.toNat%32) else Inode.zero
  data : ∀ b, v.data b = if dataBlock b then d b.toNat else Bytes.zero

def volOf (s : FsState) (d : Store Block) : Vol where
  inode i := if i.toNat < 2048 then Inode.ofBlock (d (3 + i.toNat/32)) (i.toNat%32) else Inode.zero
  data b := if dataBlock b then d b.toNat else Bytes.zero
  used := bitmapGet s.blockBitmap
  live := bitmapGet s.inodeBitmap

lemma Rep.eq_volOf {v : Vol} {s : FsState} {d : Store Block} (h : Rep v s d) : v = volOf s d := by
  ext1
  · funext i; exact h.inode i
  · funext b; exact h.data b
  · exact h.used
  · exact h.live

/-- The blocks the driver reads and writes: no journal block and not the superblock. -/
def fsBlock (a : ℕ) : Prop := 0 < a ∧ a < 16384 ∧ (a < 67 ∨ 100 ≤ a)

def fsEnv : Env Block := (Env.reliable).withAddr fsBlock

/-- On a device that answers every request, from the volume `v` the function ends with a
result and a volume that satisfy `Q`, and touches no block outside its own. -/
def Does {α : Type} (f : Fs α) (v : Vol) (Q : α → Vol → Prop) : Prop :=
  ∀ s d, Rep v s d → Safe fsEnv (fun r d' => ∃ v', Rep v' r.2 d' ∧ Q r.1 v') (f s) d

namespace Does
variable {α β : Type} {v : Vol} {Q R : α → Vol → Prop}

lemma pure {a : α} (h : Q a v) : Does (Pure.pure a : Fs α) v Q :=
  fun _ _ hr => ⟨trivial,v,hr,h⟩

lemma bind {f : Fs α} {k : α → Fs β} {Q : β → Vol → Prop}
    (h : Does f v fun a v' => Does (k a) v' Q) : Does (f >>= k) v Q := by
  intro s d hr
  refine Safe.bind ((h s d hr).mono fun r d' ⟨v',hr',hk⟩ => ?_)
  exact hk r.2 d' hr'

lemma mono {f : Fs α} (h : Does f v Q) (hQ : ∀ a v', Q a v' → R a v') : Does f v R :=
  fun s d hr => (h s d hr).mono fun _ _ ⟨v',hr',hq⟩ => ⟨v',hr',hQ _ _ hq⟩

lemma run_get (k : FsState → Fs α) (s : FsState) : (MonadState.get >>= k) s = k s s := rfl

lemma get {k : FsState → Fs α} (h : ∀ s, s.present = true → s.sb = geometry →
    v.used = bitmapGet s.blockBitmap → v.live = bitmapGet s.inodeBitmap → Does (k s) v Q) :
    Does (MonadState.get >>= k) v Q :=
  fun s d hr => h s hr.present hr.sb hr.used hr.live s d hr

end Does

variable {v : Vol} {s : FsState} {d : Store Block}

variable {b : UInt32}

lemma dataBlock.fsBlock (h : dataBlock b) : fsBlock b.toNat := by
  unfold dataBlock at h
  unfold VibeOS.Osfs2.fsBlock
  omega

lemma not_ge_totalBlocks (hs : s.sb = geometry) (h : b.toNat < 16384) :
    ¬ b ≥ s.sb.totalBlocks := by
  have ht : s.sb.totalBlocks.toNat = 16384 := by rw [hs]; rfl
  intro hge
  have := UInt32.le_iff_toNat_le.mp hge
  omega

lemma Safe.readBlock {Q : Option Block × FsState → Store Block → Prop}
    (hs : s.sb = geometry) (hb : fsBlock b.toNat) (h : Q (some (d b.toNat),s) d) :
    Safe fsEnv Q (readBlock b s) d := by
  rw [VibeOS.Osfs2.readBlock,if_neg (not_ge_totalBlocks hs hb.2.1)]
  refine ⟨trivial,hb,fun o ho => ?_⟩
  cases ho
  exact ⟨trivial,h⟩

lemma Safe.writeBlock {Q : Bool × FsState → Store Block → Prop} {x : Block}
    (hs : s.sb = geometry) (hb : fsBlock b.toNat)
    (h : Q (true,s) (update d b.toNat x)) : Safe fsEnv Q (writeBlock b x s) d := by
  rw [VibeOS.Osfs2.writeBlock,if_neg (not_ge_totalBlocks hs hb.2.1)]
  refine ⟨trivial,hb,fun o ho => ?_⟩
  cases ho
  exact ⟨trivial,h⟩

lemma Rep.setData (h : Rep v s d) (hb : dataBlock b) (x : Block) :
    Rep (v.setData b x) s (update d b.toNat x) := by
  have hb' := hb
  unfold dataBlock at hb'
  refine ⟨h.present,h.sb,h.used,h.live,?_,?_,fun i => ?_,fun c => ?_⟩
  · rw [update_of_ne (by omega),h.blockBitmap]
  · rw [update_of_ne (by omega),h.inodeBitmap]
  · rw [Vol.setData_inode,h.inode]
    split_ifs with hi
    · rw [update_of_ne (by omega)]
    · rfl
  · rw [Vol.setData_data]
    by_cases hc : c = b
    · subst hc
      rw [update_self,update_self,if_pos hb]
    · have hne : c.toNat ≠ b.toNat := fun he => hc (UInt32.toNat_inj.mp he)
      rw [update_of_ne hc,update_of_ne hne,h.data]

lemma Rep.setInode (h : Rep v s d) {i : UInt32} (hi : i.toNat < 2048) (x : Inode) :
    Rep (v.setInode i x) s (update d (3 + i.toNat/32)
      (Inode.toBlock (d (3 + i.toNat/32)) (i.toNat%32) x)) := by
  refine ⟨h.present,h.sb,h.used,h.live,?_,?_,fun k => ?_,fun c => ?_⟩
  · rw [update_of_ne (by omega),h.blockBitmap]
  · rw [update_of_ne (by omega),h.inodeBitmap]
  · rw [Vol.setInode_inode]
    by_cases hk : k = i
    · subst hk
      rw [update_self,if_pos hi,update_self,Inode.ofBlock_toBlock _ (by omega)]
    · have hne : k.toNat ≠ i.toNat := fun he => hk (UInt32.toNat_inj.mp he)
      rw [update_of_ne hk,h.inode]
      split_ifs with hk2
      · by_cases hb : 3 + k.toNat/32 = 3 + i.toNat/32
        · rw [hb,update_self,Inode.ofBlock_toBlock_of_ne _ _ (by omega)]
        · rw [update_of_ne hb]
      · rfl
  · rw [Vol.setInode_data,h.data]
    split_ifs with hc
    · unfold dataBlock at hc
      rw [update_of_ne (by omega)]
    · rfl

lemma Rep.setBlockBitmap (h : Rep v s d) (bm : Block) :
    Rep { v with used := bitmapGet bm } { s with blockBitmap := bm } (update d 1 bm) := by
  refine ⟨h.present,h.sb,rfl,h.live,?_,?_,fun i => ?_,fun c => ?_⟩
  · rw [update_self]
  · rw [update_of_ne (by omega),h.inodeBitmap]
  · rw [h.inode]
    split_ifs
    · rw [update_of_ne (by omega)]
    · rfl
  · rw [h.data]
    split_ifs with hc
    · unfold dataBlock at hc
      rw [update_of_ne (by omega)]
    · rfl

lemma Rep.setInodeBitmap (h : Rep v s d) (bm : Block) :
    Rep { v with live := bitmapGet bm } { s with inodeBitmap := bm } (update d 2 bm) := by
  refine ⟨h.present,h.sb,h.used,rfl,?_,?_,fun i => ?_,fun c => ?_⟩
  · rw [update_of_ne (by omega),h.blockBitmap]
  · rw [update_self]
  · rw [h.inode]
    split_ifs
    · rw [update_of_ne (by omega)]
    · rfl
  · rw [h.data]
    split_ifs with hc
    · unfold dataBlock at hc
      rw [update_of_ne (by omega)]
    · rfl

namespace Does

lemma readBlock {b : UInt32} {Q : Option Block → Vol → Prop} (hb : dataBlock b)
    (h : Q (some (v.data b)) v) : Does (readBlock b) v Q := by
  intro s d hr
  refine Safe.readBlock hr.sb hb.fsBlock ⟨v,hr,?_⟩
  rwa [hr.data,if_pos hb] at h

variable {Q : Bool → Vol → Prop}

lemma writeBlock {b : UInt32} {x : Block} (hb : dataBlock b)
    (h : Q true (v.setData b x)) : Does (writeBlock b x) v Q :=
  fun _ _ hr => Safe.writeBlock hr.sb hb.fsBlock ⟨_,hr.setData hb x,h⟩

lemma inodeBlock (i : UInt32) (hi : i.toNat < 2048) :
    (geometry.inodeTableBlock + i / 32).toNat = 3 + i.toNat/32 := by
  rw [UInt32.toNat_add,UInt32.toNat_div]
  change (3 + i.toNat/32) % 2^32 = 3 + i.toNat/32
  omega

lemma inodeSlot (i : UInt32) : (i % 32).toNat = i.toNat%32 := UInt32.toNat_mod i 32

variable {i : UInt32}

lemma outside_table (hs : s.sb = geometry) :
    (i = 0 ∨ i ≥ s.sb.inodeCount) ↔ ¬ validInode i := by
  have hc : s.sb.inodeCount.toNat = 2048 := by rw [hs]; rfl
  have hge : i ≥ s.sb.inodeCount ↔ 2048 ≤ i.toNat := by
    rw [ge_iff_le,UInt32.le_iff_toNat_le,hc]
  rw [hge,validInode,not_and_or,not_not,not_lt]

lemma readInode {Q : Option Inode → Vol → Prop} (hi : ¬ validInode i → Q none v)
    (h : validInode i → Q (some (v.inode i)) v) : Does (readInode i) v Q := by
  intro s d hr
  by_cases hv : validInode i
  swap
  · change Safe fsEnv _ ((if _ then _ else _ : Fs (Option Inode)) s) d
    rw [if_pos ((outside_table hr.sb).mpr hv)]
    exact ⟨trivial,v,hr,hi hv⟩
  change Safe fsEnv _ ((if _ then _ else _ : Fs (Option Inode)) s) d
  rw [if_neg (fun hout => (outside_table hr.sb).mp hout hv)]
  have hb : (s.sb.inodeTableBlock + i / 32).toNat = 3 + i.toNat/32 := by
    rw [hr.sb,inodeBlock i hv.2]
  refine Safe.bind (Safe.readBlock hr.sb ?_ ⟨trivial,v,hr,?_⟩)
  · have hlt := hv.2
    rw [hb]
    unfold fsBlock
    omega
  · have hin := h hv
    rw [hr.inode,if_pos hv.2] at hin
    rw [hb]
    change Q (some (Inode.ofBlock _ (i % 32).toNat)) v
    rw [inodeSlot]
    exact hin

lemma writeInode {x : Inode} (hv : validInode i)
    (h : Q true (v.setInode i x)) : Does (writeInode i x) v Q := by
  intro s d hr
  change Safe fsEnv _ ((if _ then _ else _ : Fs Bool) s) d
  rw [if_neg (fun hout => (outside_table hr.sb).mp hout hv)]
  have hb : (s.sb.inodeTableBlock + i / 32).toNat = 3 + i.toNat/32 := by
    rw [hr.sb,inodeBlock i hv.2]
  have hf : fsBlock (s.sb.inodeTableBlock + i / 32).toNat := by
    have hlt := hv.2
    rw [hb]
    unfold fsBlock
    omega
  refine Safe.bind (Safe.readBlock hr.sb hf ?_)
  refine Safe.writeBlock hr.sb hf ⟨_,?_,h⟩
  rw [hb,inodeSlot]
  exact hr.setInode hv.2 x

lemma mem_counters {lo hi b : UInt32} (h : lo.toNat ≤ hi.toNat) :
    b ∈ counters lo hi ↔ lo.toNat ≤ b.toNat ∧ b.toNat < hi.toNat := by
  have hhi := hi.toNat_lt
  simp only [counters,List.mem_map,List.mem_range]
  constructor
  · rintro ⟨k,hk,rfl⟩
    rw [UInt32.toNat_add,UInt32.toNat_ofNat']
    omega
  · rintro ⟨h1,h2⟩
    refine ⟨b.toNat - lo.toNat,by omega,UInt32.toNat_inj.mp ?_⟩
    rw [UInt32.toNat_add,UInt32.toNat_ofNat']
    omega

lemma flushBlockBitmap {bm : Block} {Q : Bool × FsState → Store Block → Prop} {s : FsState}
    {d : Store Block} (hs : s.sb = geometry) (hbm : s.blockBitmap = bm)
    (h : Q (true,s) (update d 1 bm)) : Safe fsEnv Q (flushBlockBitmap s) d := by
  have hb : s.sb.blockBitmapBlock.toNat = 1 := by rw [hs]; rfl
  change Safe fsEnv Q (VibeOS.Osfs2.writeBlock s.sb.blockBitmapBlock s.blockBitmap s) d
  refine Safe.writeBlock hs ?_ ?_
  · rw [hb]; unfold fsBlock; omega
  · rw [hb,hbm]; exact h

lemma flushInodeBitmap {bm : Block} {Q : Bool × FsState → Store Block → Prop} {s : FsState}
    {d : Store Block} (hs : s.sb = geometry) (hbm : s.inodeBitmap = bm)
    (h : Q (true,s) (update d 2 bm)) : Safe fsEnv Q (flushInodeBitmap s) d := by
  have hb : s.sb.inodeBitmapBlock.toNat = 2 := by rw [hs]; rfl
  change Safe fsEnv Q (VibeOS.Osfs2.writeBlock s.sb.inodeBitmapBlock s.inodeBitmap s) d
  refine Safe.writeBlock hs ?_ ?_
  · rw [hb]; unfold fsBlock; omega
  · rw [hb,hbm]; exact h

lemma allocBlock {Q : UInt32 → Vol → Prop}
    (hsome : ∀ b, dataBlock b → v.used b = false → Q b (v.take b))
    (hnone : (∀ b, dataBlock b → v.used b = true) → Q 0 v) : Does allocBlock v Q := by
  intro s d hr
  have hlo : s.sb.dataStartBlock.toNat = 100 := by rw [hr.sb]; rfl
  have hhi : s.sb.totalBlocks.toNat = 16384 := by rw [hr.sb]; rfl
  have hmem (b : UInt32) : b ∈ counters s.sb.dataStartBlock s.sb.totalBlocks ↔ dataBlock b := by
    rw [mem_counters (by omega),hlo,hhi,dataBlock]
  unfold VibeOS.Osfs2.allocBlock
  rw [run_get]
  cases hf : (counters s.sb.dataStartBlock s.sb.totalBlocks).find?
      (fun b => !bitmapGet s.blockBitmap b) with
  | none =>
    refine ⟨trivial,v,hr,hnone fun b hb => ?_⟩
    have := List.find?_eq_none.mp hf b ((hmem b).mpr hb)
    rw [hr.used]
    simpa using this
  | some b =>
    have hb : dataBlock b := (hmem b).mp (List.mem_of_find?_eq_some hf)
    have hfree : v.used b = false := by
      have := List.find?_some hf
      rw [hr.used]
      simpa using this
    have hlt : b.toNat < 32768 := by
      unfold dataBlock at hb
      omega
    have hbm := hr.setBlockBitmap (bitmapSet s.blockBitmap b)
    refine Safe.bind (Safe.ret trivial ?_)
    refine Safe.bind (flushBlockBitmap (s := { s with blockBitmap := bitmapSet s.blockBitmap b })
      hr.sb rfl ?_)
    refine Safe.bind (Safe.writeBlock hr.sb hb.fsBlock ⟨trivial,v.take b,?_,hsome b hb hfree⟩)
    have hset := hbm.setData hb Bytes.zero
    have hv : v.take b = Vol.setData { v with used := bitmapGet (bitmapSet s.blockBitmap b) } b
        Bytes.zero := by
      rw [bitmapGet_bitmapSet _ hlt,← hr.used]
      rfl
    rw [hv]
    exact hset

lemma freeBlock {b : UInt32} (hb : dataBlock b) (h : Q true (v.give b)) :
    Does (freeBlock b) v Q := by
  intro s d hr
  have hlo : s.sb.dataStartBlock.toNat = 100 := by rw [hr.sb]; rfl
  have hhi : s.sb.totalBlocks.toNat = 16384 := by rw [hr.sb]; rfl
  have hin : ¬ (b < s.sb.dataStartBlock ∨ b ≥ s.sb.totalBlocks) := by
    rw [ge_iff_le,UInt32.lt_iff_toNat_lt,UInt32.le_iff_toNat_le,hlo,hhi]
    unfold dataBlock at hb
    omega
  change Safe fsEnv _ ((if b < s.sb.dataStartBlock ∨ b ≥ s.sb.totalBlocks then _ else _ : Fs Bool) s) d
  rw [if_neg hin]
  refine Safe.bind (Safe.ret trivial ?_)
  refine flushBlockBitmap (s := { s with blockBitmap := bitmapClear s.blockBitmap b }) hr.sb rfl
    ⟨v.give b,?_,h⟩
  have hbm := hr.setBlockBitmap (bitmapClear s.blockBitmap b)
  have hlt : b.toNat < 32768 := by
    unfold dataBlock at hb
    omega
  have hv : v.give b = { v with used := bitmapGet (bitmapClear s.blockBitmap b) } := by
    rw [bitmapGet_bitmapClear _ hlt,← hr.used]
    rfl
  rw [hv]
  exact hbm

lemma counters_sorted {lo hi : UInt32} (h : lo.toNat ≤ hi.toNat) : (counters lo hi).Pairwise (· < ·) := by
  have hhi := hi.toNat_lt
  unfold counters
  rw [List.pairwise_map]
  refine List.Pairwise.imp_of_mem ?_ List.pairwise_lt_range
  intro j k hj hk hjk
  rw [List.mem_range] at hj hk
  rw [UInt32.lt_iff_toNat_lt,UInt32.toNat_add,UInt32.toNat_add,UInt32.toNat_ofNat',UInt32.toNat_ofNat']
  omega

lemma find_counters {lo hi i : UInt32} (h : lo.toNat ≤ hi.toNat) {f : UInt32 → Bool}
    (hf : (counters lo hi).find? f = some i) {j : UInt32} (hj : j ∈ counters lo hi) (hlt : j < i) :
    f j = false := by
  obtain ⟨-,as,bs,hl,has⟩ := List.find?_eq_some_iff_append.mp hf
  have hs := counters_sorted h
  rw [hl] at hs hj
  rcases List.mem_append.mp hj with hj | hj
  · simpa using has j hj
  · have hle : i ≤ j := by
      rcases List.mem_cons.mp hj with rfl | hj
      · exact UInt32.le_refl _
      · exact UInt32.le_of_lt ((List.pairwise_cons.mp (List.pairwise_append.mp hs).2.1).1 j hj)
    exact absurd hlt (UInt32.not_lt.mpr hle)

lemma allocInode {Q : UInt32 → Vol → Prop}
    (hsome : ∀ i, validInode i → i ≠ inodeRoot → v.live i = false →
      (∀ j, validInode j → j ≠ inodeRoot → j < i → v.live j = true) → Q i (v.setLive i true))
    (hnone : (∀ i, validInode i → i ≠ inodeRoot → v.live i = true) → Q 0 v) :
    Does allocInode v Q := by
  intro s d hr
  have hhi : s.sb.inodeCount.toNat = 2048 := by rw [hr.sb]; rfl
  have h2 : (inodeRoot + 1).toNat = 2 := rfl
  have hmem (i : UInt32) : i ∈ counters (inodeRoot + 1) s.sb.inodeCount ↔
      validInode i ∧ i ≠ inodeRoot := by
    have h0 : i = 0 ↔ i.toNat = 0 := by rw [← UInt32.toNat_inj]; rfl
    have h1 : i = inodeRoot ↔ i.toNat = 1 := by rw [← UInt32.toNat_inj]; rfl
    rw [mem_counters (by omega),h2,hhi,validInode,ne_eq,ne_eq,h0,h1]
    omega
  unfold VibeOS.Osfs2.allocInode
  rw [run_get]
  cases hf : (counters (inodeRoot + 1) s.sb.inodeCount).find?
      (fun i => !bitmapGet s.inodeBitmap i) with
  | none =>
    refine ⟨trivial,v,hr,hnone fun i hi hne => ?_⟩
    have := List.find?_eq_none.mp hf i ((hmem i).mpr ⟨hi,hne⟩)
    rw [hr.live]
    simpa using this
  | some i =>
    obtain ⟨hi,hne⟩ := (hmem i).mp (List.mem_of_find?_eq_some hf)
    have hfree : v.live i = false := by
      have := List.find?_some hf
      rw [hr.live]
      simpa using this
    have hfirst (j : UInt32) (hj : validInode j) (hjr : j ≠ inodeRoot) (hlt : j < i) :
        v.live j = true := by
      have := find_counters (by omega) hf ((hmem j).mpr ⟨hj,hjr⟩) hlt
      rw [hr.live]
      simpa using this
    have hlt : i.toNat < 32768 := by
      have := hi.2
      omega
    refine Safe.bind (Safe.ret trivial ?_)
    refine Safe.bind (flushInodeBitmap (s := { s with inodeBitmap := bitmapSet s.inodeBitmap i })
      hr.sb rfl ⟨trivial,v.setLive i true,?_,hsome i hi hne hfree hfirst⟩)
    have hv : v.setLive i true = { v with live := bitmapGet (bitmapSet s.inodeBitmap i) } := by
      rw [bitmapGet_bitmapSet _ hlt,← hr.live]
      rfl
    rw [hv]
    exact hr.setInodeBitmap _

lemma freeInode (hi : validInode i) (hne : i ≠ inodeRoot)
    (h : Q true (v.setLive i false)) : Does (freeInode i) v Q := by
  intro s d hr
  have hhi : s.sb.inodeCount.toNat = 2048 := by rw [hr.sb]; rfl
  have hin : ¬ (i < inodeRoot + 1 ∨ i ≥ s.sb.inodeCount) := by
    have h2 : (inodeRoot + 1).toNat = 2 := rfl
    have h0 : i = 0 ↔ i.toNat = 0 := by rw [← UInt32.toNat_inj]; rfl
    have h1 : i = inodeRoot ↔ i.toNat = 1 := by rw [← UInt32.toNat_inj]; rfl
    rw [ge_iff_le,UInt32.lt_iff_toNat_lt,UInt32.le_iff_toNat_le,h2,hhi]
    rw [validInode,ne_eq,h0] at hi
    rw [ne_eq,h1] at hne
    omega
  change Safe fsEnv _ ((if i < inodeRoot + 1 ∨ i ≥ s.sb.inodeCount then _ else _ : Fs Bool) s) d
  rw [if_neg hin]
  refine Safe.bind (Safe.ret trivial ?_)
  refine flushInodeBitmap (s := { s with inodeBitmap := bitmapClear s.inodeBitmap i }) hr.sb rfl
    ⟨v.setLive i false,?_,h⟩
  have hlt : i.toNat < 32768 := by
    have := hi.2
    omega
  have hv : v.setLive i false = { v with live := bitmapGet (bitmapClear s.inodeBitmap i) } := by
    rw [bitmapGet_bitmapClear _ hlt,← hr.live]
    rfl
  rw [hv]
  exact hr.setInodeBitmap _

lemma freeInode_refused (hi : i < inodeRoot + 1) (h : Q false v) :
    Does (VibeOS.Osfs2.freeInode i) v Q := by
  intro s d hr
  change Safe fsEnv _ ((if i < inodeRoot + 1 ∨ i ≥ s.sb.inodeCount then _ else _ : Fs Bool) s) d
  rw [if_pos (.inl hi)]
  exact ⟨trivial,v,hr,h⟩

end Does

end VibeOS.Osfs2

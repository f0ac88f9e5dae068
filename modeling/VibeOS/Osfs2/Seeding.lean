import VibeOS.Osfs2.Mkosfs2

/-! What the loop of `mkosfs2.py` over its arguments has put into the image after each of them. -/
namespace VibeOS.Osfs2
open Function List Option
open VibeOS.Storage

namespace Making

def record (m : Making) (ino : ℕ) : Inode := Inode.ofBlock (m.inodeTable (ino/32)) (ino%32)

/-- The block with chunk `n` of a file whose first block is `first`. The indirect block comes
after the direct ones. -/
def blockNumber (first n : ℕ) : ℕ := if n < 16 then first + n else first + n + 1

def span (data : List UInt8) : ℕ := if 16 < blocksOf data then blocksOf data + 1 else blocksOf data

/-- The record of an inode and the blocks from `first` on are those of a file. -/
structure Filed (m : Making) (ino first : ℕ) (data : List UInt8) : Prop where
  limit : data.length ≤ maxFileBytes
  type : (m.record ino).type = typeFile
  size : (m.record ino).size = UInt32.ofNat data.length
  direct : ∀ j : Fin 16, (m.record ino).direct j = if j.val < blocksOf data then UInt32.ofNat (first + j.val) else 0
  indirect : (m.record ino).indirect = if 16 < blocksOf data then UInt32.ofNat (first + 16) else 0
  table : 16 < blocksOf data → ∀ j < 1024, tableAt (m.image (first + 16)) j =
    if j < blocksOf data - 16 then UInt32.ofNat (first + 17 + j) else 0
  bytes : ∀ p < data.length, (m.image (blockNumber first (p/4096))).get (p%4096) = (data[p]?).getD 0

structure Added (seed : Seed) (m m' : Making) : Prop where
  filed : Filed m' m.nextInode m.nextDataBlock seed.data
  inode : m.nextInode < 2048 ∧ m'.nextInode = m.nextInode + 1
  next : m'.nextDataBlock = m.nextDataBlock + span seed.data
  room : span seed.data = 0 ∨ m'.nextDataBlock ≤ 16384
  dirent : m.direntIndex < 64 ∧ m'.direntIndex = m.direntIndex + 1
  name : seed.name.val.length < nameMax
  dirents : m'.rootDirents = Dirent.toBlock m.rootDirents m.direntIndex (newDirent (UInt32.ofNat m.nextInode) seed.name.val)
  used : ∀ b : UInt32, bitmapGet m'.blockBitmap b =
    (bitmapGet m.blockBitmap b || decide (m.nextDataBlock ≤ b.toNat ∧ b.toNat < m'.nextDataBlock))
  live : ∀ i : UInt32, bitmapGet m'.inodeBitmap i = (decide (i.toNat = m.nextInode) || bitmapGet m.inodeBitmap i)
  same : ∀ b, ¬ (m.nextDataBlock ≤ b ∧ b < m'.nextDataBlock) → m'.image b = m.image b
  others : ∀ i, i ≠ m.nextInode → m'.record i = m.record i

variable {m m' m₁ m₂ : Making} {data rest : List UInt8} {seed : Seed} {ino : ℕ}

lemma record_writeInode (m : Making) (ino i : ℕ) (x : Inode) :
    (m.writeInode ino x).record i = if i = ino then x else m.record i := by
  unfold record writeInode
  dsimp only
  by_cases hi : i = ino
  · subst hi
    rw [if_pos rfl,update_self,Inode.ofBlock_toBlock _ (Nat.mod_lt _ (by decide))]
  · rw [if_neg hi]
    by_cases hb : i/32 = ino/32
    · rw [hb,update_self,Inode.ofBlock_toBlock_of_ne _ _ (by omega)]
    · rw [update_of_ne hb]

lemma putDirect_get (s : ℕ → UInt32) (i : ℕ) (b : UInt32) (j : ℕ) (_ : i < 16) (_ : j < 16) :
    putDirect i b s j = if j = i then b else s j := update_apply s i b j

lemma putEntry_get (s : Block) (i : ℕ) (b : UInt32) (j : ℕ) (hi : i < 1024) (_ : j < 1024) :
    tableAt (putEntry i b s) j = if j = i then b else tableAt s j := by
  unfold putEntry
  by_cases hj : j = i
  · subst hj
    rw [if_pos rfl,tableAt_tableSet_self _ hi]
  · rw [if_neg hj,tableAt_tableSet_of_ne _ _ (Ne.symm hj)]

lemma drop_nil_iff (data : List UInt8) (n : ℕ) : data.drop (n*4096) = [] ↔ blocksOf data ≤ n := by
  rw [drop_eq_nil_iff]
  unfold blocksOf
  omega

lemma blocksOf_drop (data : List UInt8) (n : ℕ) : blocksOf (data.drop (n*4096)) = blocksOf data - n := by
  unfold blocksOf
  rw [length_drop]
  omega

/-- What the indirect part adds for the data that the direct pointers did not take. -/
structure Indirected (rest : List UInt8) (ind : ℕ) (m m' : Making) : Prop where
  only : m' = { m with image := m'.image, blockBitmap := m'.blockBitmap, nextDataBlock := m'.nextDataBlock }
  next : m'.nextDataBlock = m.nextDataBlock + if rest = [] then 0 else blocksOf rest + 1
  room : rest = [] ∨ m'.nextDataBlock ≤ 16384
  number : ind = if rest = [] then 0 else m.nextDataBlock
  marked : ∀ b : UInt32, bitmapGet m'.blockBitmap b =
    (bitmapGet m.blockBitmap b || decide (m.nextDataBlock ≤ b.toNat ∧ b.toNat < m'.nextDataBlock))
  same : ∀ b, ¬ (m.nextDataBlock ≤ b ∧ b < m'.nextDataBlock) → m'.image b = m.image b
  table : rest ≠ [] → ∀ j < 1024, tableAt (m'.image m.nextDataBlock) j =
    if j < blocksOf rest then UInt32.ofNat (m.nextDataBlock + 1 + j) else 0
  bytes : ∀ p < rest.length, (m'.image (m.nextDataBlock + 1 + p/4096)).get (p%4096) = (rest[p]?).getD 0

lemma placeIndirect_spec {left : List UInt8} {ind : ℕ} (hnext : m.nextDataBlock ≤ 16384)
    (h : m.placeIndirect rest = some (ind,left,m')) (hleft : left = []) : Indirected rest ind m m' := by
  unfold placeIndirect at h
  by_cases hr : rest = []
  · rw [if_pos hr] at h
    simp only [some.injEq,Prod.mk.injEq] at h
    obtain ⟨rfl,-,rfl⟩ := h
    subst hr
    refine ⟨rfl,by simp,.inl rfl,by simp,fun b => ?_,fun _ _ => rfl,fun h => absurd rfl h,fun p hp => absurd hp (Nat.not_lt_zero _)⟩
    rw [show decide (m.nextDataBlock ≤ b.toNat ∧ b.toNat < m.nextDataBlock) = false from decide_eq_false (by omega),Bool.or_false]
  · rw [if_neg hr] at h
    dsimp only at h
    split at h
    · cases h
    next left' table m₂ hplace =>
    simp only [some.injEq,Prod.mk.injEq] at h
    obtain ⟨rfl,rfl,hm'⟩ := h
    obtain ⟨n,hn,hdrop,hp,hget⟩ := placeChunks_spec tableAt 1024 putEntry_get hplace le_rfl
    rw [hleft,eq_comm,drop_nil_iff] at hdrop
    have hn : n = blocksOf rest := by
      unfold indirectPtrs at hn
      omega
    have hpos : 0 < blocksOf rest := by
      have := List.length_pos_iff.mpr hr
      unfold blocksOf
      omega
    have hone : ({ m with nextDataBlock := m.nextDataBlock + 1 }.allocBlock m.nextDataBlock).nextDataBlock = m.nextDataBlock + 1 := rfl
    have hof : (UInt32.ofNat m.nextDataBlock).toNat = m.nextDataBlock := by
      rw [UInt32.toNat_ofNat']
      omega
    have hnext₂ : m₂.nextDataBlock = m.nextDataBlock + 1 + n := by rw [hp.only]; rfl
    have hnext' : m'.nextDataBlock = m.nextDataBlock + 1 + n := by rw [← hm']; exact hnext₂
    have hbits : m'.blockBitmap = m₂.blockBitmap := by rw [← hm']
    have himage : m'.image = update m₂.image m.nextDataBlock table := by rw [← hm']
    refine ⟨?_,?_,.inr ?_,by rw [if_neg hr],fun b => ?_,fun b hb => ?_,fun _ j hj => ?_,fun p hpl => ?_⟩
    · rw [← hm']
      dsimp only
      rw [hp.only]
      rfl
    · rw [hnext',if_neg hr,hn]
      omega
    · rw [hnext']
      rcases hp.room with h0 | hle
      · omega
      · exact hle
    · rw [hbits,hp.marked b,hone,hnext']
      change (bitmapGet (bitmapSet m.blockBitmap (UInt32.ofNat m.nextDataBlock)) b || _) = _
      rw [bitmapGet_bitmapSet _ (by rw [hof]; omega),update_apply]
      by_cases hself : b = UInt32.ofNat m.nextDataBlock
      · have hb : b.toNat = m.nextDataBlock := by rw [hself,hof]
        rw [if_pos hself,decide_eq_true (show m.nextDataBlock ≤ b.toNat ∧ b.toNat < m.nextDataBlock + 1 + n by omega),
          Bool.or_true,Bool.true_or]
      · have hne : b.toNat ≠ m.nextDataBlock := fun he => hself (UInt32.toNat_inj.mp (by rw [he,hof]))
        rw [if_neg hself]
        congr 1
        exact decide_eq_decide.mpr (by omega)
    · rw [himage,update_of_ne (by omega),hp.same b (by rw [hone]; omega)]
      rfl
    · rw [himage,update_self,hget j hj,hone,hn]
      by_cases hlt : j < blocksOf rest
      · rw [if_pos hlt,if_pos (by omega),Nat.sub_zero]
      · rw [if_neg hlt,if_neg (by omega)]
        exact Bytes.u32_zero _
    · have hb := hp.bytes p hpl (by unfold blocksOf at hn; omega)
      rw [hone] at hb
      rw [himage,update_of_ne (by omega),hb]

lemma addFile_spec (hnext : m.nextDataBlock ≤ 16384) (h : m.addFile seed = some m') : Added seed m m' := by
  unfold addFile at h
  split at h
  · cases h
  next hlimit =>
  dsimp only at h
  split at h
  · cases h
  next hino =>
  split at h
  · cases h
  next rest direct m₁ hdir =>
  split at h
  · cases h
  next ind left m₂ hind =>
  split at h
  · cases h
  next hleft =>
  obtain ⟨n,hn,hrest,hp,hget⟩ := placeChunks_spec (fun s => s) 16 putDirect_get hdir le_rfl
  have hm₁next : m₁.nextDataBlock = m.nextDataBlock + n := by rw [hp.only]; rfl
  have hbase : ({ m with nextInode := m.nextInode + 1 }.allocInode m.nextInode).nextDataBlock = m.nextDataBlock := rfl
  have hi := placeIndirect_spec (by rcases hp.room with h0 | hle <;> rw [hm₁next] <;> [omega; exact hle]) hind (not_not.mp hleft)
  have hblocks : blocksOf rest = blocksOf seed.data - n := by rw [hrest,blocksOf_drop]
  have hnil : rest = [] ↔ blocksOf seed.data ≤ n := by rw [hrest,drop_nil_iff]
  have hn : n = min 16 (blocksOf seed.data) := hn
  -- the record and the dirent come on top of the blocks
  unfold appendDirent at h
  split at h
  · cases h
  next hslots =>
  split at h
  · cases h
  next hname =>
  have hm' := some.inj h
  have hslot : m₂.direntIndex = m.direntIndex := by rw [hi.only,hp.only]; rfl
  have hino₂ : m₂.nextInode = m.nextInode + 1 := by rw [hi.only,hp.only]; rfl
  have htab₂ : m₂.inodeTable = m.inodeTable := by rw [hi.only,hp.only]; rfl
  have hroot₂ : m₂.rootDirents = m.rootDirents := by rw [hi.only,hp.only]; rfl
  have hlive₂ : m₂.inodeBitmap = bitmapSet m.inodeBitmap (UInt32.ofNat m.nextInode) := by rw [hi.only,hp.only]; rfl
  have himage' : m'.image = m₂.image := by rw [← hm']; rfl
  have hbits' : m'.blockBitmap = m₂.blockBitmap := by rw [← hm']; rfl
  have hnext' : m'.nextDataBlock = m₂.nextDataBlock := by rw [← hm']; rfl
  have hrec' (i : ℕ) : m'.record i = if i = m.nextInode then fileInode seed.data.length direct ind else m.record i := by
    have hw := record_writeInode m₂ m.nextInode i (fileInode seed.data.length direct ind)
    have hold : m₂.record i = m.record i := by unfold record; rw [htab₂]
    rw [hold] at hw
    rw [← hw,← hm']
    rfl
  have hspan : m'.nextDataBlock = m.nextDataBlock + span seed.data := by
    rw [hnext',hi.next,hm₁next,hblocks]
    unfold span
    by_cases h16 : 16 < blocksOf seed.data
    · rw [if_pos h16,if_neg (by rw [hnil]; omega)]
      omega
    · rw [if_neg h16,if_pos (hnil.mpr (by omega))]
      omega
  have hfirst (b : ℕ) (hb : b < m₁.nextDataBlock) : m'.image b = m₁.image b := by
    rw [himage',hi.same b (by omega)]
  refine ⟨⟨not_lt.mp hlimit,?_,?_,fun j => ?_,?_,fun h16 j hj => ?_,fun p hpl => ?_⟩,⟨by omega,?_⟩,hspan,?_,
    ⟨?_,?_⟩,by omega,?_,fun b => ?_,fun i => ?_,fun b hb => ?_,fun i hne => ?_⟩
  · rw [hrec',if_pos rfl]
    rfl
  · rw [hrec',if_pos rfl]
    rfl
  · rw [hrec',if_pos rfl]
    have hj := hget j.val j.isLt
    change direct j.val = _
    dsimp only at hj
    rw [hj,hbase]
    by_cases hlt : j.val < blocksOf seed.data
    · rw [if_pos hlt,if_pos (by have := j.isLt; omega),Nat.sub_zero]
    · rw [if_neg hlt,if_neg (by omega)]
  · rw [hrec',if_pos rfl]
    change UInt32.ofNat ind = _
    rw [hi.number,hm₁next]
    by_cases h16 : 16 < blocksOf seed.data
    · rw [if_pos h16,if_neg (by rw [hnil]; omega),show n = 16 by omega]
    · rw [if_neg h16,if_pos (hnil.mpr (by omega))]
      rfl
  · have ht := hi.table (by rw [ne_eq,hnil]; omega) j hj
    rw [hm₁next,show n = 16 by omega] at ht
    rw [himage',ht,hblocks,show n = 16 by omega]
  · unfold blockNumber
    by_cases hlow : p/4096 < 16
    · have hb := hp.bytes p hpl (by unfold blocksOf at hn; omega)
      rw [if_pos hlow,hfirst _ (by rw [hm₁next]; unfold blocksOf at hn; omega)]
      exact hb
    · have h16 : n = 16 := by unfold blocksOf at hn; omega
      have hb := hi.bytes (p - 65536) (by rw [hrest,length_drop,h16]; omega)
      rw [hm₁next,h16,hrest,getElem?_drop,h16,show 16*4096 + (p - 65536) = p by omega,
        show (p - 65536) % 4096 = p % 4096 by omega] at hb
      rw [if_neg hlow,himage',← hb]
      congr 2
      omega
  · rw [← hm']
    exact hino₂
  · by_cases h0 : span seed.data = 0
    · exact .inl h0
    · right
      rw [hnext']
      rcases hi.room with hr | hle
      · have hz := hi.next
        rw [if_pos hr,Nat.add_zero,hm₁next] at hz
        rcases hp.room with hn0 | hle
        · rw [hspan,hnext'] at *
          omega
        · rw [hz]
          exact hle
      · exact hle
  · have : ¬ m₂.direntIndex ≥ 64 := hslots
    omega
  · rw [← hm',← hslot]
    rfl
  · rw [← hm',← hslot,← hroot₂]
    rfl
  · rw [hbits',hi.marked,hp.marked,hbase,hm₁next,hnext',Bool.or_assoc]
    congr 1
    rw [← Bool.decide_or]
    refine decide_eq_decide.mpr ?_
    have := hi.next
    rw [hm₁next] at this
    omega
  · have hlive' : m'.inodeBitmap = m₂.inodeBitmap := by rw [← hm']; rfl
    have hof : (UInt32.ofNat m.nextInode).toNat = m.nextInode := by
      rw [UInt32.toNat_ofNat']
      omega
    rw [hlive',hlive₂,bitmapGet_bitmapSet _ (by rw [hof]; omega),update_apply]
    by_cases hself : i = UInt32.ofNat m.nextInode
    · rw [if_pos hself,decide_eq_true (by rw [hself,hof]),Bool.true_or]
    · rw [if_neg hself,decide_eq_false fun he => hself (UInt32.toNat_inj.mp (by rw [he,hof])), Bool.false_or]
  · rw [himage',hi.same b (by rw [hm₁next,← hnext']; omega),hp.same b (by rw [hbase,← hm₁next]; have := hi.next; omega)]
    rfl
  · rw [hrec',if_neg hne]

/-- The first block of file `k`. -/
def firstBlock (seeds : List Seed) (k : ℕ) : ℕ := 101 + ((seeds.take k).map fun s => span s.data).sum

/-- The image after the files `seeds`. -/
structure Walked (seeds : List Seed) (m : Making) : Prop where
  nextInode : m.nextInode = 2 + seeds.length
  direntIndex : m.direntIndex = seeds.length
  few : seeds.length ≤ 64
  next : m.nextDataBlock = firstBlock seeds seeds.length
  room : m.nextDataBlock ≤ 16384
  used : ∀ b : UInt32, bitmapGet m.blockBitmap b = decide (b.toNat < m.nextDataBlock)
  live : ∀ i : UInt32, bitmapGet m.inodeBitmap i = decide (i.toNat < 2 + seeds.length)
  low : ∀ b ≤ 100, m.image b = Bytes.zero
  filed : ∀ k (hk : k < seeds.length), Filed m (2 + k) (firstBlock seeds k) seeds[k].data
  blank : ∀ i, i < 2 ∨ 2 + seeds.length ≤ i → m.record i = Inode.zero
  dirents : ∀ k < 64, Dirent.ofBlock m.rootDirents k =
    (seeds[k]?).elim Dirent.zero fun s => newDirent (UInt32.ofNat (2 + k)) s.name.val
  names : ∀ s ∈ seeds, s.name.val.length < nameMax

lemma blockNumber_bounds (first : ℕ) {n : ℕ} (h : n < blocksOf data) :
    first ≤ blockNumber first n ∧ blockNumber first n < first + span data := by
  unfold blockNumber span
  split_ifs <;> omega

lemma blockNumber_inj {first n n' : ℕ} (h : blockNumber first n = blockNumber first n') : n = n' := by
  unfold blockNumber at h
  split_ifs at h <;> omega

lemma blockNumber_ne_indirect (first n : ℕ) : blockNumber first n ≠ first + 16 := by
  unfold blockNumber
  split_ifs <;> omega

lemma Filed.mono {first : ℕ} (h : Filed m ino first data) (hrec : m'.record ino = m.record ino)
    (hsame : ∀ b, first ≤ b → b < first + span data → m'.image b = m.image b) : Filed m' ino first data := by
  refine ⟨h.limit,hrec ▸ h.type,hrec ▸ h.size,hrec ▸ h.direct,hrec ▸ h.indirect,fun h16 => ?_,fun p hp => ?_⟩
  · rw [hsame _ (by omega) (by unfold span; rw [if_pos h16]; omega)]
    exact h.table h16
  · have hn : p/4096 < blocksOf data := by
      unfold blocksOf
      omega
    obtain ⟨hlo,hhi⟩ := blockNumber_bounds first hn
    rw [hsame _ hlo hhi]
    exact h.bytes p hp

variable {seeds : List Seed}

lemma firstBlock_succ {k : ℕ} (hk : k < seeds.length) :
    firstBlock seeds (k + 1) = firstBlock seeds k + span seeds[k].data := by
  unfold firstBlock
  rw [take_succ_eq_append_getElem hk,map_append,sum_append,map_singleton,sum_singleton,
    Nat.add_assoc]

lemma firstBlock_append (seeds : List Seed) (s : Seed) {k : ℕ} (hk : k ≤ seeds.length) :
    firstBlock (seeds ++ [s]) k = firstBlock seeds k := by
  unfold firstBlock
  rw [take_append_of_le_length hk]

lemma firstBlock_mono (seeds : List Seed) {j k : ℕ} (hjk : j ≤ k) (hk : k ≤ seeds.length) :
    firstBlock seeds j ≤ firstBlock seeds k := by
  induction k, hjk using Nat.le_induction with
  | base => exact le_rfl
  | succ k hjk ih =>
    rw [firstBlock_succ (by omega)]
    exact (ih (by omega)).trans (Nat.le_add_right _ _)

lemma start_walked : Walked [] start := by
  refine ⟨rfl,rfl,by decide,rfl,by decide,fun b => imageBlockBitmap_get b,fun i => ?_,fun _ _ => rfl,
    fun k hk => absurd hk (Nat.not_lt_zero k),fun i _ => Inode.ofBlock_zero _,fun k _ => Dirent.ofBlock_zero k,
    fun s hs => absurd hs not_mem_nil⟩
  change bitmapGet imageInodeBitmap i = _
  rw [imageInodeBitmap_get]
  refine decide_eq_decide.mpr ?_
  rw [← UInt32.toNat_inj,← UInt32.toNat_inj,show (0 : UInt32).toNat = 0 from rfl,show inodeRoot.toNat = 1 from rfl,
    length_nil]
  omega

lemma Walked.add (h : Walked seeds m) (ha : Added seed m m') : Walked (seeds ++ [seed]) m' := by
  have hlen : (seeds ++ [seed]).length = seeds.length + 1 := length_append
  have hlast : firstBlock (seeds ++ [seed]) (seeds.length + 1) = firstBlock seeds seeds.length + span seed.data := by
    rw [firstBlock_succ (by omega),firstBlock_append _ _ le_rfl,getElem_concat_length rfl]
  have hfirst : 101 ≤ m.nextDataBlock := by
    rw [h.next]
    unfold firstBlock
    omega
  have hdirent := ha.dirent
  rw [h.direntIndex] at hdirent
  refine ⟨?_,?_,?_,?_,?_,fun b => ?_,fun i => ?_,fun b hb => ?_,fun k hk => ?_,fun i hi => ?_,fun k hk => ?_,fun s hs => ?_⟩
  · rw [ha.inode.2,h.nextInode,hlen]
    omega
  · rw [hdirent.2,hlen]
  · omega
  · rw [ha.next,h.next,hlen,hlast]
  · rcases ha.room with h0 | hle
    · rw [ha.next,h0]
      exact h.room
    · exact hle
  · rw [ha.used,h.used,← Bool.decide_or]
    refine decide_eq_decide.mpr ?_
    have := ha.next
    omega
  · rw [ha.live,h.live,h.nextInode,← Bool.decide_or]
    refine decide_eq_decide.mpr ?_
    omega
  · rw [ha.same b (by omega)]
    exact h.low b hb
  · by_cases hlt : k < seeds.length
    · rw [firstBlock_append _ _ hlt.le,getElem_append_left hlt]
      refine (h.filed k hlt).mono (ha.others _ (by rw [h.nextInode]; omega)) fun b _ hb => ha.same b ?_
      have hle := firstBlock_mono seeds (show k + 1 ≤ seeds.length from hlt) le_rfl
      rw [firstBlock_succ hlt] at hle
      rw [h.next]
      omega
    · obtain rfl : k = seeds.length := by omega
      have hf := ha.filed
      rw [h.nextInode,h.next] at hf
      rw [firstBlock_append _ _ le_rfl,getElem_concat_length rfl]
      exact hf
  · rw [ha.others i (by rw [h.nextInode]; omega)]
    exact h.blank i (by omega)
  · rw [ha.dirents,h.direntIndex,h.nextInode]
    by_cases hself : k = seeds.length
    · subst hself
      rw [Dirent.ofBlock_toBlock _ hk,getElem?_concat_length]
      rfl
    · rw [Dirent.ofBlock_toBlock_of_ne _ _ (Ne.symm hself),h.dirents k hk]
      by_cases hlt : k < seeds.length
      · rw [getElem?_append_left hlt]
      · rw [getElem?_eq_none (by omega),getElem?_eq_none (by omega)]
  · rcases List.mem_append.mp hs with hs | hs
    · exact h.names s hs
    · rw [List.mem_singleton.mp hs]
      exact ha.name

lemma addFiles_spec {host : List UInt8 → Option (List UInt8)} {files : List CString}
    (hw : Walked seeds m) (h : addFiles host files m = some m') :
    ∃ more, List.Forall₂ (fun spec s => parseSpec host spec = some s) files more ∧ Walked (seeds ++ more) m' := by
  induction files generalizing seeds m with
  | nil =>
    obtain rfl := some.inj h
    exact ⟨[],.nil,by rw [append_nil]; exact hw⟩
  | cons spec files ih =>
    rw [addFiles] at h
    split at h
    · cases h
    next seed hparse =>
    split at h
    · cases h
    next m₁ hadd =>
    obtain ⟨more,hall,hmore⟩ := ih (hw.add (addFile_spec hw.room hadd)) h
    rw [append_assoc,singleton_append] at hmore
    exact ⟨seed :: more,.cons hparse hall,hmore⟩

end Making

lemma formatImage_spec {host : List UInt8 → Option (List UInt8)} {files : List CString} {img : Store Block}
    (h : formatImage host files = some img) : ∃ seeds m, List.Forall₂ (fun spec s => parseSpec host spec = some s) files seeds ∧
      Making.Walked seeds m ∧ img = m.finish := by
  unfold formatImage at h
  split at h
  · cases h
  · obtain ⟨m,hm,rfl⟩ := Option.map_eq_some_iff.mp h
    obtain ⟨seeds,hall,hw⟩ := Making.addFiles_spec Making.start_walked hm
    exact ⟨seeds,m,hall,hw,rfl⟩

end VibeOS.Osfs2

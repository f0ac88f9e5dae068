import VibeOS.Osfs2.Seeding
import VibeOS.Osfs2.Resolution

/-! The volume that the kernel finds on an image of `mkosfs2.py`: the files, their blocks and their
names. -/
namespace VibeOS.Osfs2
open VibeOS.Storage List Option

def diskOf (img : Store Block) : Disk := fun a => sectorOf (img (a/8)) (a%8)

lemma blockAt_diskOf (img : Store Block) (b : UInt32) : blockAt (diskOf img) b = img b.toNat := by
  apply Bytes.ext_get
  intro i hi
  have hd : (lba b + i/512)/8 = b.toNat := by unfold lba; omega
  have hm : (lba b + i/512) % 8 = i/512 := by unfold lba; omega
  rw [blockAt,Bytes.get_ofFn _ hi,diskOf,hd,hm,sectorOf,Bytes.get_ofFn _ (by omega)]
  congr 1
  omega

/-- What the kernel has after mounting an image. -/
def seededVol (img : Store Block) : Vol := volOf ⟨true,geometry,img 1,img 2⟩ img

def seedIno (k : ℕ) : UInt32 := UInt32.ofNat (2 + k)

lemma seedIno_toNat {k : ℕ} (hk : k < 64) : (seedIno k).toNat = 2 + k := by
  unfold seedIno
  rw [UInt32.toNat_ofNat']
  omega

namespace Making.Walked
variable {seeds : List Seed} {m : Making} {i d : UInt32} {k n : ℕ} {e : Dirent}

section
variable (hw : Walked seeds m)
include hw

lemma ino (hk : k < seeds.length) : (seedIno k).toNat = 2 + k :=
  seedIno_toNat (hk.trans_le hw.few)

lemma ino_inj {j : ℕ} (hj : j < seeds.length) (hk : k < seeds.length) (h : seedIno j = seedIno k) : j = k := by
  have := congrArg UInt32.toNat h
  rw [hw.ino hj,hw.ino hk] at this
  omega

lemma ino_valid (hk : k < seeds.length) : validInode (seedIno k) ∧ seedIno k ≠ inodeRoot := by
  have hto := hw.ino hk
  have hfew := hw.few
  refine ⟨⟨fun h0 => ?_,by omega⟩,fun h1 => ?_⟩
  · rw [h0] at hto
    change 0 = _ at hto
    omega
  · rw [h1] at hto
    change 1 = _ at hto
    omega

lemma number (hk : k < seeds.length) {b : ℕ} (hb : b < firstBlock seeds k + span seeds[k].data) :
    b < m.nextDataBlock ∧ (UInt32.ofNat b).toNat = b ∧ firstBlock seeds (k + 1) ≤ m.nextDataBlock := by
  have hle := firstBlock_mono seeds (show k + 1 ≤ seeds.length from hk) le_rfl
  rw [← hw.next] at hle
  have hsucc := firstBlock_succ hk
  have hroom := hw.room
  rw [UInt32.toNat_ofNat']
  omega

lemma inode (i : UInt32) : (seededVol m.finish).inode i = if i = inodeRoot then m.rootInode else m.record i.toNat := by
  have hroot : i = inodeRoot ↔ i.toNat = 1 := by rw [← UInt32.toNat_inj]; rfl
  unfold seededVol volOf
  dsimp only
  by_cases hi : i.toNat < 2048
  · have hrec := record_writeInode m 1 i.toNat m.rootInode
    rw [if_pos hi]
    unfold finish
    rw [if_neg (by omega),if_neg (by omega),if_neg (by omega),if_pos (by omega),Nat.add_sub_cancel_left]
    unfold record at hrec
    rw [hrec]
    exact if_congr hroot.symm rfl rfl
  · have hfew := hw.few
    rw [if_neg hi,if_neg (by rw [hroot]; omega),hw.blank _ (.inr (by omega))]

lemma inode_root : (seededVol m.finish).inode inodeRoot = m.rootInode := by
  rw [hw.inode,if_pos rfl]

lemma inode_file (hk : k < seeds.length) : (seededVol m.finish).inode (seedIno k) = m.record (2 + k) := by
  rw [hw.inode,if_neg (hw.ino_valid hk).2,hw.ino hk]

lemma inode_other (hr : i ≠ inodeRoot) (hi : ∀ k < seeds.length, i ≠ seedIno k) :
    (seededVol m.finish).inode i = Inode.zero := by
  rw [hw.inode,if_neg hr]
  refine hw.blank _ ?_
  by_contra hc
  refine hi (i.toNat - 2) (by omega) (UInt32.toNat_inj.mp ?_)
  rw [hw.ino (by omega)]
  omega

omit hw in
lemma data {b : ℕ} (hlo : 100 ≤ b) (hhi : b < 16384) :
    (seededVol m.finish).data (UInt32.ofNat b) = if b = 100 then m.rootDirents else m.image b := by
  have hto : (UInt32.ofNat b).toNat = b := by
    rw [UInt32.toNat_ofNat']
    omega
  unfold seededVol volOf
  dsimp only
  rw [if_pos ⟨by omega,by omega⟩,hto]
  unfold finish
  rw [if_neg (by omega),if_neg (by omega),if_neg (by omega),if_neg (by omega)]

omit hw in
lemma ptr_root (n : ℕ) : (seededVol m.finish).ptr m.rootInode n = if n = 0 then 100 else 0 := by
  by_cases hn : n < 16
  · rw [Vol.ptr_of_lt _ _ hn]
    change imageRoot.direct ⟨n,hn⟩ = _
    rw [imageRoot_direct]
    exact if_congr (by rw [Fin.ext_iff]; rfl) rfl rfl
  · rw [Vol.ptr_of_ge _ _ (by omega),Vol.entry,if_pos (show m.rootInode.indirect = 0 from rfl),ite_self,if_neg (by omega)]

lemma ptr_file (hk : k < seeds.length) (n : ℕ) :
    (seededVol m.finish).ptr ((seededVol m.finish).inode (seedIno k)) n =
      if n < blocksOf seeds[k].data then UInt32.ofNat (blockNumber (firstBlock seeds k) n) else 0 := by
  have hf := hw.filed k hk
  have hlimit : blocksOf seeds[k].data ≤ 1040 := by
    have := hf.limit
    unfold maxFileBytes maxFileBlocks directPtrs indirectPtrs blockSize at this
    unfold blocksOf
    omega
  rw [hw.inode_file hk]
  by_cases hn : n < 16
  · rw [Vol.ptr_of_lt _ _ hn,hf.direct]
    unfold blockNumber
    rw [if_pos hn]
  · rw [Vol.ptr_of_ge _ _ (by omega)]
    by_cases hfar : n < 1040
    swap
    · rw [if_neg hfar,if_neg (by omega)]
    rw [if_pos hfar,Vol.entry,hf.indirect]
    by_cases h16 : 16 < blocksOf seeds[k].data
    swap
    · rw [if_neg h16,if_pos rfl,if_neg (by omega)]
    have hspan : span seeds[k].data = blocksOf seeds[k].data + 1 := by unfold span; rw [if_pos h16]
    obtain ⟨hlt,hto,-⟩ := hw.number hk (b := firstBlock seeds k + 16) (by omega)
    have hfirst : 101 ≤ firstBlock seeds k := by unfold firstBlock; omega
    have hroom := hw.room
    have hne : UInt32.ofNat (firstBlock seeds k + 16) ≠ 0 := by
      intro h0
      rw [h0] at hto
      change 0 = _ at hto
      omega
    rw [if_pos h16,if_neg hne,data (by omega) (by omega),if_neg (by omega),hf.table h16 _ (by omega)]
    unfold blockNumber
    rw [if_neg hn]
    by_cases hlt : n < blocksOf seeds[k].data
    · rw [if_pos hlt,if_pos (by omega)]
      congr 1
      omega
    · rw [if_neg hlt,if_neg (by omega)]

lemma own_cases {p : Vol.Pos} (h0 : (seededVol m.finish).own (i,p) ≠ 0) :
    (i = inodeRoot ∧ p = .lbn 0 ∧ ((seededVol m.finish).own (i,p)).toNat = 100) ∨
    ∃ k, ∃ hk : k < seeds.length, i = seedIno k ∧
      ((∃ n < blocksOf seeds[k].data, p = .lbn n ∧
        ((seededVol m.finish).own (i,p)).toNat = blockNumber (firstBlock seeds k) n) ∨
      (16 < blocksOf seeds[k].data ∧ p = .indirect ∧
        ((seededVol m.finish).own (i,p)).toNat = firstBlock seeds k + 16)) := by
  by_cases hr : i = inodeRoot
  · subst hr
    left
    unfold Vol.own at h0 ⊢
    dsimp only at h0 ⊢
    rw [hw.inode_root] at h0 ⊢
    cases p with
    | indirect => exact absurd rfl h0
    | lbn n =>
      rw [Vol.pointer_lbn,ptr_root] at h0 ⊢
      split at h0
      · next hn =>
        subst hn
        exact ⟨rfl,rfl,rfl⟩
      · exact absurd rfl h0
  by_cases hi : ∃ k < seeds.length, i = seedIno k
  swap
  · push Not at hi
    unfold Vol.own at h0
    dsimp only at h0
    rw [hw.inode_other hr hi,Inode.pointer_zero] at h0
    exact absurd rfl h0
  obtain ⟨k,hk,rfl⟩ := hi
  refine .inr ⟨k,hk,rfl,?_⟩
  cases p with
  | lbn n =>
    rw [Vol.own_lbn,hw.ptr_file hk] at h0 ⊢
    split at h0
    · next hn =>
      rw [if_pos hn]
      exact .inl ⟨n,hn,rfl,(hw.number hk (blockNumber_bounds _ hn).2).2.1⟩
    · exact absurd rfl h0
  | indirect =>
    unfold Vol.own at h0 ⊢
    dsimp only at h0 ⊢
    rw [Vol.pointer_indirect,hw.inode_file hk,(hw.filed k hk).indirect] at h0 ⊢
    split at h0
    · next h16 =>
      rw [if_pos h16]
      refine .inr ⟨h16,rfl,(hw.number hk ?_).2.1⟩
      unfold span
      rw [if_pos h16]
      omega
    · exact absurd rfl h0

lemma own_bounds {b : ℕ} (hk : k < seeds.length) (hb : (∃ n < blocksOf seeds[k].data, b = blockNumber (firstBlock seeds k) n) ∨
    (16 < blocksOf seeds[k].data ∧ b = firstBlock seeds k + 16)) :
    101 ≤ b ∧ b < m.nextDataBlock ∧ firstBlock seeds k ≤ b ∧ b < firstBlock seeds (k + 1) := by
  have hin : firstBlock seeds k ≤ b ∧ b < firstBlock seeds k + span seeds[k].data := by
    rcases hb with ⟨n,hn,rfl⟩ | ⟨h16,rfl⟩
    · exact blockNumber_bounds _ hn
    · unfold span
      rw [if_pos h16]
      omega
  have hlt := (hw.number hk hin.2).1
  have hsucc := firstBlock_succ hk
  have hfirst : 101 ≤ firstBlock seeds k := by unfold firstBlock; omega
  omega

lemma owned : (seededVol m.finish).Owned := by
  have hroom := hw.room
  have hused (b : UInt32) : (seededVol m.finish).used b = decide (b.toNat < m.nextDataBlock) := hw.used b
  have hnext : 101 ≤ m.nextDataBlock := by
    rw [hw.next]
    unfold firstBlock
    omega
  have hplace {j : ℕ} (hj : j < seeds.length) {p : Vol.Pos} {b : ℕ}
      (h : (∃ n < blocksOf seeds[j].data, p = .lbn n ∧ b = blockNumber (firstBlock seeds j) n) ∨
        (16 < blocksOf seeds[j].data ∧ p = .indirect ∧ b = firstBlock seeds j + 16)) :
      101 ≤ b ∧ b < m.nextDataBlock ∧ firstBlock seeds j ≤ b ∧ b < firstBlock seeds (j + 1) :=
    hw.own_bounds hj (h.imp (fun ⟨n,hn,_,hb⟩ => ⟨n,hn,hb⟩) fun ⟨h16,_,hb⟩ => ⟨h16,hb⟩)
  refine ⟨fun ⟨i,p⟩ h0 => ?_,fun ⟨i,p⟩ ⟨l,q⟩ h0 he => ?_⟩
  · rcases hw.own_cases h0 with ⟨-,-,hb⟩ | ⟨j,hj,-,hb⟩
    · refine ⟨⟨by omega,by omega⟩,?_⟩
      rw [hused,decide_eq_true_iff]
      omega
    · obtain ⟨h1,h2,-,-⟩ := hplace hj hb
      exact ⟨⟨by omega,by omega⟩,by rw [hused]; exact decide_eq_true h2⟩
  · have h0' : (seededVol m.finish).own (l,q) ≠ 0 := he ▸ h0
    rcases hw.own_cases h0 with ⟨rfl,rfl,hb⟩ | ⟨j,hj,rfl,hb⟩ <;> rw [he] at hb <;>
      rcases hw.own_cases h0' with ⟨rfl,rfl,hb'⟩ | ⟨j',hj',rfl,hb'⟩
    · rfl
    · have := (hplace hj' hb').1
      omega
    · have := (hplace hj hb).1
      omega
    · obtain ⟨-,-,hlo,hhi⟩ := hplace hj hb
      obtain ⟨-,-,hlo',hhi'⟩ := hplace hj' hb'
      obtain rfl : j = j' := by
        rcases lt_trichotomy j j' with hlt | heq | hlt
        · have := firstBlock_mono seeds (show j + 1 ≤ j' from hlt) (by omega)
          omega
        · exact heq
        · have := firstBlock_mono seeds (show j' + 1 ≤ j from hlt) (by omega)
          omega
      refine Prod.ext rfl ?_
      -- the indirect block lies between the direct blocks and the others
      rcases hb with ⟨n,-,rfl,hb⟩ | ⟨-,rfl,hb⟩
      · rcases hb' with ⟨n',-,rfl,hb'⟩ | ⟨-,rfl,hb'⟩
        · exact congrArg Vol.Pos.lbn (blockNumber_inj (hb.symm.trans hb'))
        · exact absurd (hb.symm.trans hb') (blockNumber_ne_indirect _ _)
      · rcases hb' with ⟨n',-,rfl,hb'⟩ | ⟨-,rfl,hb'⟩
        · exact absurd (hb'.symm.trans hb) (blockNumber_ne_indirect _ _)
        · rfl

lemma seeded_live (i : UInt32) : (seededVol m.finish).live i = decide (i.toNat < 2 + seeds.length) := hw.live i

lemma slot_root (hk : k < 64) : (seededVol m.finish).slot m.rootInode k =
    some ((seeds[k]?).elim Dirent.zero fun s => newDirent (seedIno k) s.name.val) := by
  have hptr : (seededVol m.finish).ptr m.rootInode (k/64) = 100 := by
    rw [ptr_root,if_pos (by omega)]
  refine Vol.slot_eq_some.mpr ⟨by omega,by rw [hptr]; decide,?_⟩
  rw [hptr]
  change Dirent.ofBlock ((seededVol m.finish).data (UInt32.ofNat 100)) (k%64) = _
  rw [data le_rfl (by decide),if_pos rfl,Nat.mod_eq_of_lt hk,hw.dirents k hk]
  rfl

lemma slots_root : m.rootInode.slots = seeds.length := by
  have hfew := hw.few
  unfold Inode.slots
  rw [UInt32.toNat_div]
  change (UInt32.ofNat (m.direntIndex*direntSize)).toNat/64 = _
  rw [hw.direntIndex,UInt32.toNat_ofNat']
  unfold direntSize
  omega

lemma names_iff : (seededVol m.finish).Names d n e ↔
    d = inodeRoot ∧ ∃ hn : n < seeds.length, e = newDirent (seedIno n) seeds[n].name.val := by
  have hfew := hw.few
  constructor
  · intro h
    have hd : d = inodeRoot := by
      by_contra hne
      by_cases hf : ∃ k < seeds.length, d = seedIno k
      · obtain ⟨k,hk,rfl⟩ := hf
        have hdir := h.dir
        rw [hw.inode_file hk,(hw.filed k hk).type] at hdir
        exact absurd hdir (by decide)
      · push Not at hf
        have hdir := h.dir
        rw [hw.inode_other hne hf] at hdir
        exact absurd hdir (by decide)
    subst hd
    refine ⟨rfl,?_⟩
    have hs := h.slot
    rw [hw.inode_root] at hs
    have hn64 : n < 64 := by
      obtain ⟨-,hptr,-⟩ := Vol.slot_eq_some.mp hs
      by_contra hge
      rw [ptr_root,if_neg (by omega)] at hptr
      exact hptr rfl
    rw [hw.slot_root hn64] at hs
    have hn : n < seeds.length := by
      by_contra hge
      rw [getElem?_eq_none (by omega)] at hs
      exact h.used (some.inj hs ▸ rfl)
    rw [getElem?_eq_getElem hn] at hs
    exact ⟨hn,(some.inj hs).symm⟩
  · rintro ⟨rfl,hn,rfl⟩
    refine ⟨?_,?_,?_,(hw.ino_valid hn).1.1⟩
    · rw [hw.seeded_live]
      exact decide_eq_true (show (1 : ℕ) < _ by omega)
    · rw [hw.inode_root]
      rfl
    · rw [hw.inode_root,hw.slot_root (by omega),getElem?_eq_getElem hn]
      rfl

lemma file_live (hk : k < seeds.length) : (seededVol m.finish).live (seedIno k) = true := by
  rw [hw.seeded_live,hw.ino hk]
  exact decide_eq_true (by omega)

lemma file_type (hk : k < seeds.length) : ((seededVol m.finish).inode (seedIno k)).type = typeFile := by
  rw [hw.inode_file hk]
  exact (hw.filed k hk).type

lemma named : (seededVol m.finish).Named where
  rootLive := by
    rw [hw.seeded_live]
    exact decide_eq_true (show (1 : ℕ) < _ by omega)
  rootDir := by
    rw [hw.inode_root]
    rfl
  live h := by
    obtain ⟨-,hn,rfl⟩ := hw.names_iff.mp h
    exact hw.file_live hn
  valid h := by
    obtain ⟨-,hn,rfl⟩ := hw.names_iff.mp h
    exact (hw.ino_valid hn).1
  ne_root h := by
    obtain ⟨-,hn,rfl⟩ := hw.names_iff.mp h
    exact (hw.ino_valid hn).2
  type h := by
    obtain ⟨-,hn,rfl⟩ := hw.names_iff.mp h
    exact .inl (hw.file_type hn)
  once h h' he := by
    obtain ⟨rfl,hn,rfl⟩ := hw.names_iff.mp h
    obtain ⟨rfl,hn',rfl⟩ := hw.names_iff.mp h'
    exact ⟨rfl,hw.ino_inj hn hn' he⟩

lemma namedIn (hnodup : (seeds.map fun s => s.name.val).Nodup) (hk : k < seeds.length) :
    (seededVol m.finish).NamedIn inodeRoot seeds[k].name.val (seedIno k) := by
  have hname := hw.names _ (getElem_mem hk)
  have hnamed := hw.names_iff.mpr ⟨rfl,hk,rfl⟩
  refine ⟨by decide,hw.named.rootDir,k,_,⟨⟨?_,hnamed.slot,hnamed.used,?_⟩,fun j hj e he => ?_⟩,rfl⟩
  · rw [hw.inode_root,hw.slots_root]
    exact hk
  · exact (strEq_newDirent _ seeds[k].name.2 hname seeds[k].name.2).mpr rfl
  · obtain ⟨-,hj',rfl⟩ := hw.names_iff.mp (he.names hw.named.rootLive hw.named.rootDir)
    have hsame := (strEq_newDirent _ seeds[j].name.2 (hw.names _ (getElem_mem hj')) seeds[k].name.2).mp he.called
    have heq := (@List.Nodup.getElem_inj_iff _ _ hnodup j (by rw [length_map]; exact hj') k
      (by rw [length_map]; exact hk)).mp (by rw [getElem_map,getElem_map]; exact hsame)
    omega

lemma size (hk : k < seeds.length) : ((seededVol m.finish).inode (seedIno k)).size.toNat = seeds[k].data.length := by
  have hlimit := (hw.filed k hk).limit
  unfold maxFileBytes maxFileBlocks directPtrs indirectPtrs blockSize at hlimit
  rw [hw.inode_file hk,(hw.filed k hk).size,UInt32.toNat_ofNat']
  omega

lemma byteAt (hk : k < seeds.length) {p : ℕ} (hp : p < seeds[k].data.length) :
    (seededVol m.finish).byteAt ((seededVol m.finish).inode (seedIno k)) p = seeds[k].data[p] := by
  have hn : p/4096 < blocksOf seeds[k].data := by
    unfold blocksOf
    omega
  obtain ⟨hlo,hhi⟩ := blockNumber_bounds (firstBlock seeds k) hn
  obtain ⟨hlt,hto,-⟩ := hw.number hk hhi
  have hfirst : 101 ≤ firstBlock seeds k := by unfold firstBlock; omega
  have hroom := hw.room
  have hne : UInt32.ofNat (blockNumber (firstBlock seeds k) (p/4096)) ≠ 0 := by
    intro h0
    rw [h0] at hto
    change 0 = _ at hto
    omega
  unfold Vol.byteAt
  rw [hw.ptr_file hk,if_pos hn,if_neg hne,data (by omega) (by omega),if_neg (by omega),(hw.filed k hk).bytes p hp,
    getElem?_eq_getElem hp,getD_some]

lemma bytesAt (hk : k < seeds.length) (offset len : ℕ) :
    (seededVol m.finish).bytesAt ((seededVol m.finish).inode (seedIno k)) offset
      (min len (((seededVol m.finish).inode (seedIno k)).size.toNat - offset)) = (seeds[k].data.drop offset).take len := by
  rw [hw.size hk]
  apply ext_getElem
  · rw [Vol.bytesAt_length,length_take,length_drop]
  · intro j h1 h2
    rw [Vol.bytesAt_length] at h1
    have hp : offset + j < seeds[k].data.length := by omega
    simp only [Vol.bytesAt,getElem_map,getElem_range,getElem_take,getElem_drop]
    exact hw.byteAt hk hp

end

end Making.Walked
end VibeOS.Osfs2

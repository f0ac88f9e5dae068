import VibeOS.Osfs2.Truncation

/-! What the blocks of an inode hold: the bytes of a file and the dirents of a directory, and
how the steps of the driver change or keep them. -/
namespace VibeOS.Osfs2
open Function
open VibeOS.Storage

namespace Vol

def byteAt (v : Vol) (x : Inode) (pos : ℕ) : UInt8 :=
  if v.ptr x (pos/4096) = 0 then 0 else (v.data (v.ptr x (pos/4096))).get (pos%4096)

/-- The dirent in slot `k` of a directory, where there is a block for it. -/
def slot (v : Vol) (x : Inode) (k : ℕ) : Option Dirent :=
  if k < 1024 ∧ v.ptr x (k/64) ≠ 0 then some (Dirent.ofBlock (v.data (v.ptr x (k/64))) (k%64))
  else none

end Vol

variable {v v' w : Vol} {x x' : Inode} {i k : UInt32} {b : UInt32}

namespace Vol

lemma own_lbn (v : Vol) (i : UInt32) (n : ℕ) : v.own (i,.lbn n) = v.ptr (v.inode i) n := rfl

lemma Same.ptr (h : v.Same w k) (n : ℕ) : w.ptr (w.inode k) n = v.ptr (v.inode k) n := h.own (.lbn n)

lemma Same.byteAt (h : v.Same w k) : w.byteAt (w.inode k) = v.byteAt (v.inode k) := by
  funext pos
  unfold Vol.byteAt
  rw [h.ptr]
  split_ifs with h0
  · rfl
  · have hd := h.data (.lbn (pos/4096)) h0
    rw [own_lbn] at hd
    rw [hd]

lemma Same.slot (h : v.Same w k) : w.slot (w.inode k) = v.slot (v.inode k) := by
  funext n
  unfold Vol.slot
  rw [h.ptr]
  split_ifs with h0
  · have hd := h.data (.lbn (n/64)) h0.2
    rw [own_lbn] at hd
    rw [hd]
  · rfl

lemma slot_eq_some {n : ℕ} {e : Dirent} : v.slot x n = some e ↔
    n < 1024 ∧ v.ptr x (n/64) ≠ 0 ∧ Dirent.ofBlock (v.data (v.ptr x (n/64))) (n%64) = e := by
  unfold slot
  split_ifs with h
  · rw [Option.some.injEq]
    exact ⟨fun he => ⟨h.1,h.2,he⟩,fun he => he.2.2⟩
  · exact ⟨fun he => absurd he (by simp),fun he => absurd ⟨he.1,he.2.1⟩ h⟩

lemma OwnedWith.pointer_inj (h : v.OwnedWith i x) {p q : Pos} (h0 : v.pointer x p ≠ 0)
    (he : v.pointer x p = v.pointer x q) : p = q := by
  have hinj := Owns.inj h (i,p) (i,q)
  rw [own_setInode_self,own_setInode_self] at hinj
  exact (Prod.mk.inj (hinj h0 he)).2

lemma Owned.self (h : v.Owned) (i : UInt32) : v.OwnedWith i (v.inode i) := by
  unfold OwnedWith setInode
  rwa [update_eq_self]

section SetData
variable (blk : Block)

variable {n : ℕ}

lemma Owned.ne_indirect (h : v.Owned) (h0 : v.own (i,.lbn n) ≠ 0) (k : UInt32) :
    v.own (i,.lbn n) ≠ (v.inode k).indirect := by
  intro he
  have hinj := Owns.inj h (i,.lbn n) (k,.indirect) h0 he
  exact absurd (Prod.mk.inj hinj).2 (by simp)

lemma Owned.own_setData (h : v.Owned) (h0 : v.own (i,.lbn n) ≠ 0) :
    (v.setData (v.own (i,.lbn n)) blk).own = v.own := by
  funext ⟨k,p⟩
  refine pointer_congr (fun _ => ?_) p
  exact update_of_ne (h.ne_indirect h0 k).symm _ _

lemma Owned.setData (h : v.Owned) (h0 : v.own (i,.lbn n) ≠ 0) :
    (v.setData (v.own (i,.lbn n)) blk).Owned := by
  unfold Owned
  rw [h.own_setData blk h0]
  exact h

lemma OwnedWith.ptr_ne_indirect (h : v.OwnedWith i x) (h0 : v.ptr x n ≠ 0) :
    x.indirect ≠ v.ptr x n := by
  intro he
  exact absurd (h.pointer_inj (p := .lbn n) (q := .indirect) h0 he.symm) (by simp)

lemma OwnedWith.pointer_setData (h : v.OwnedWith i x) (h0 : v.ptr x n ≠ 0) :
    (v.setData (v.ptr x n) blk).pointer x = v.pointer x := by
  funext p
  exact pointer_congr (fun _ => update_of_ne (h.ptr_ne_indirect h0) _ _) p

lemma OwnedWith.setData (h : v.OwnedWith i x) (h0 : v.ptr x n ≠ 0) :
    (v.setData (v.ptr x n) blk).OwnedWith i x := by
  have hown : (v.setInode i x).own (i,.lbn n) = v.ptr x n := own_setInode_self v i x (.lbn n)
  have hset := Owned.setData blk h (i := i) (n := n) (by rwa [hown])
  rwa [hown] at hset

lemma OwnedWith.same_setData (h : v.OwnedWith i x) (n : ℕ) (hk : k ≠ i) :
    v.Same (v.setData (v.ptr x n) blk) k := by
  refine ⟨rfl,fun p hp => update_of_ne ?_ _ _⟩
  exact (h.other hk hp).2 (.lbn n)

lemma OwnedWith.ptr_setData (h : v.OwnedWith i x) (h0 : v.ptr x n ≠ 0) (m : ℕ) :
    (v.setData (v.ptr x n) blk).ptr x m = v.ptr x m :=
  congrFun (h.pointer_setData blk h0) (.lbn m)

lemma OwnedWith.byteAt_setData (h : v.OwnedWith i x) (h0 : v.ptr x n ≠ 0) (pos : ℕ) :
    (v.setData (v.ptr x n) blk).byteAt x pos =
      if pos/4096 = n then blk.get (pos%4096) else v.byteAt x pos := by
  unfold Vol.byteAt
  rw [h.ptr_setData blk h0,setData_data]
  by_cases hn : pos/4096 = n
  · subst hn
    rw [if_pos rfl,if_neg h0,update_self]
  · rw [if_neg hn]
    by_cases hz : v.ptr x (pos/4096) = 0
    · rw [if_pos hz,if_pos hz]
    · have hne : v.ptr x (pos/4096) ≠ v.ptr x n := fun he =>
        hn (Pos.lbn.inj (h.pointer_inj (p := .lbn (pos/4096)) (q := .lbn n) hz he))
      rw [if_neg hz,if_neg hz,update_of_ne hne]

end SetData
end Vol

lemma Attach.inode (h : Attach v x b v' x') : v'.inode = v.inode := by
  cases h <;> rfl

lemma Attach.live (h : Attach v x b v' x') : v'.live = v.live := by
  cases h <;> rfl

lemma Attach.record (h : Attach v x b v' x') :
    x' = { x with direct := x'.direct, indirect := x'.indirect } := by
  cases h <;> rfl

variable {n : ℕ}

lemma Attach.data_ptr (h : Attach v x b v' x') (ho : v.OwnedWith i x) (h0 : v.ptr x n ≠ 0) :
    v'.data (v.ptr x n) = v.data (v.ptr x n) := by
  have hb : v.ptr x n ≠ b := fun he => h.fresh.not_held (he ▸ ho.held (p := .lbn n) h0)
  cases h with
  | direct | indirect => exact update_of_ne hb _ _
  | entry =>
    have hind : v.ptr x n ≠ x.indirect := (ho.ptr_ne_indirect h0).symm
    rw [Vol.setData_data,update_of_ne hind,Vol.take_data,update_of_ne hb]

lemma Attach.byteAt (h : Attach v x b v' x') (ho : v.OwnedWith i x) : v'.byteAt x' = v.byteAt x := by
  obtain ⟨p,hmiss,hp,hzero⟩ := h.pos ho
  funext pos
  have hptr : v'.ptr x' (pos/4096) = update (v.pointer x) p b (.lbn (pos/4096)) :=
    congrFun hp (.lbn (pos/4096))
  unfold Vol.byteAt
  by_cases hpos : p = .lbn (pos/4096)
  · subst hpos
    rw [update_self] at hptr
    have hmiss : v.ptr x (pos/4096) = 0 := hmiss
    rw [hptr,if_neg h.fresh.1.ne_zero,if_pos hmiss,hzero (by simp),Bytes.get_zero]
  · rw [update_of_ne (Ne.symm hpos),Vol.pointer_lbn] at hptr
    rw [hptr]
    split_ifs with h0
    · rfl
    · rw [h.data_ptr ho h0]

/-- What work on the pending inode `i` keeps, from `x` on `v` to `x'` on `v'`. -/
structure Grown (i : UInt32) (v : Vol) (x : Inode) (v' : Vol) (x' : Inode) : Prop where
  owned : v'.OwnedWith i x'
  inode : v'.inode = v.inode
  live : v'.live = v.live
  record : x' = { x with direct := x'.direct, indirect := x'.indirect }
  other : ∀ k, k ≠ i → v.Same v' k
  kept : ∀ p, v.pointer x p ≠ 0 → v'.pointer x' p = v.pointer x p
  used : ∀ b, v.used b = true → v'.used b = true

lemma Grown.refl (h : v.OwnedWith i x) : Grown i v x v x :=
  ⟨h,rfl,rfl,rfl,fun _ _ => Vol.Same.refl _ _,fun _ _ => rfl,fun _ hb => hb⟩

lemma Grown.trans {v'' : Vol} {x'' : Inode} (h : Grown i v x v' x') (h' : Grown i v' x' v'' x'') :
    Grown i v x v'' x'' := by
  refine ⟨h'.owned,h'.inode.trans h.inode,h'.live.trans h.live,?_,fun k hk =>
    (h.other k hk).trans (h'.other k hk),fun p hp => ?_,fun b hb => h'.used b (h.used b hb)⟩
  · rw [h'.record,h.record]
  · have hp' := h.kept p hp
    exact (h'.kept p (by rwa [hp'])).trans hp'

lemma Attach.grown (h : Attach v x b v' x') (ho : v.OwnedWith i x) : Grown i v x v' x' := by
  refine ⟨h.owned ho,h.inode,h.live,h.record,fun _ hk => h.same ho hk,fun p hp => ?_,fun c hc => ?_⟩
  · obtain ⟨q,hq,hp',-⟩ := h.pos ho
    rw [hp',update_of_ne]
    rintro rfl
    exact hp hq
  · rw [h.used]
    by_cases hcb : c = b
    · rw [hcb,update_self]
    · rwa [update_of_ne hcb]

lemma Resolves.grown {r : UInt32} (h : Resolves v x n r x' v') (ho : v.OwnedWith i x) :
    Grown i v x v' x' ∧ v'.byteAt x' = v.byteAt x := by
  cases h with
  | far | found | full => exact ⟨.refl ho,rfl⟩
  | attach _ att => exact ⟨att.grown ho,att.byteAt ho⟩
  | both _ _ tier fresh att =>
    have hfirst := Attach.indirect tier fresh
    have ho' := hfirst.owned ho
    exact ⟨(hfirst.grown ho).trans (att.grown ho'),(att.byteAt ho').trans (hfirst.byteAt ho)⟩
  | stranded _ _ tier fresh =>
    have hfirst := Attach.indirect tier fresh
    exact ⟨hfirst.grown ho,hfirst.byteAt ho⟩

lemma Resolves.here {r : UInt32} (h : Resolves v x n r x' v') (hr : r ≠ 0) :
    v'.ptr x' n = r := by
  cases h with
  | far | full | stranded => exact absurd rfl hr
  | found => rfl
  | attach _ _ here | both _ _ _ _ _ here => exact here

lemma Resolves.of_zero {y : Inode} (h : Resolves v x n 0 y w) :
    (w = v ∧ y = x ∧ (1040 ≤ n ∨ v.Full)) ∨ ∃ b, 16 ≤ n ∧ n < 1040 ∧ x.indirect = 0 ∧ v.Fresh b ∧
      (v.take b).Full ∧ w = v.take b := by
  generalize hr : (0 : UInt32) = r at h
  cases h with
  | far hn => exact .inl ⟨rfl,rfl,.inl hn⟩
  | found hit => exact absurd hr.symm hit
  | full _ _ full => exact .inl ⟨rfl,rfl,.inr full⟩
  | attach _ att | both _ _ _ _ att => exact absurd hr.symm att.fresh.1.ne_zero
  | stranded hn hn' tier fresh full => exact .inr ⟨_,hn',hn,tier,fresh,full,rfl⟩

lemma Grown.setData (h : Grown i v x v' x') (h0 : v'.ptr x' n ≠ 0) (blk : Block) :
    Grown i v x (v'.setData (v'.ptr x' n) blk) x' :=
  ⟨h.owned.setData blk h0,h.inode,h.live,h.record,fun k hk =>
    (h.other k hk).trans (h.owned.same_setData blk n hk),
    fun p hp => (congrFun (h.owned.pointer_setData blk h0) p).trans (h.kept p hp),h.used⟩

lemma Vol.same_setInode (v : Vol) (y : Inode) (hk : k ≠ i) : v.Same (v.setInode i y) k :=
  ⟨update_of_ne hk _ _,fun _ _ => rfl⟩

end VibeOS.Osfs2

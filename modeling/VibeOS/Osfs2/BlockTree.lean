import VibeOS.Osfs2.Volume
import VibeOS.Storage.Ownership

/-! The block tree of an inode on a volume: which block is behind which logical block, who
owns which block, and what `resolve_block` may do to a volume while the inode it works on has
not been written back. -/
namespace VibeOS.Osfs2
open Function
open VibeOS.Storage

namespace Vol

def entry (v : Vol) (x : Inode) (j : ℕ) : UInt32 :=
  if x.indirect = 0 then 0 else tableAt (v.data x.indirect) j

/-- The block behind logical block `n`, 0 for a hole. -/
def ptr (v : Vol) (x : Inode) (n : ℕ) : UInt32 :=
  if h : n < 16 then x.direct ⟨n,h⟩ else if n < 1040 then v.entry x (n-16) else 0

inductive Pos
  | lbn (n : ℕ)
  | indirect
  deriving DecidableEq

def pointer (v : Vol) (x : Inode) : Pos → UInt32
  | .lbn n => v.ptr x n
  | .indirect => x.indirect

def own (v : Vol) (p : UInt32 × Pos) : UInt32 := v.pointer (v.inode p.1) p.2

def held (v : Vol) (b : UInt32) : Prop := dataBlock b ∧ v.used b = true

/-- Every pointer of every inode record is to a data block that is marked used, and no block
is pointed to twice. -/
def Owned (v : Vol) : Prop := Owns 0 v.held v.own

def Fresh (v : Vol) (b : UInt32) : Prop := dataBlock b ∧ v.used b = false

def Full (v : Vol) : Prop := ∀ b, dataBlock b → v.used b = true

lemma Fresh.not_held {v : Vol} {b : UInt32} (h : v.Fresh b) : ¬ v.held b := by
  rintro ⟨_,hu⟩
  rw [h.2] at hu
  exact absurd hu (by decide)

lemma ptr_direct (v : Vol) (x : Inode) (i : Fin 16) : v.ptr x i.val = x.direct i := by
  rw [ptr,dif_pos i.isLt]

lemma ptr_entry (v : Vol) (x : Inode) {j : ℕ} (hj : j < 1024) : v.ptr x (16+j) = v.entry x j := by
  rw [ptr,dif_neg (by omega),if_pos (by omega),Nat.add_sub_cancel_left]

@[simp] lemma pointer_lbn (v : Vol) (x : Inode) (n : ℕ) : v.pointer x (.lbn n) = v.ptr x n := rfl
@[simp] lemma pointer_indirect (v : Vol) (x : Inode) : v.pointer x .indirect = x.indirect := rfl

lemma ptr_of_lt (v : Vol) (x : Inode) {n : ℕ} (hn : n < 16) : v.ptr x n = x.direct ⟨n,hn⟩ :=
  dif_pos hn

lemma ptr_of_ge (v : Vol) (x : Inode) {n : ℕ} (hn : 16 ≤ n) :
    v.ptr x n = if n < 1040 then v.entry x (n-16) else 0 :=
  dif_neg (by omega)

lemma ptr_far (v : Vol) (x : Inode) {n : ℕ} (hn : 1040 ≤ n) : v.ptr x n = 0 := by
  rw [ptr,dif_neg (by omega),if_neg (by omega)]

end Vol

/-- A fresh block is put into an empty position of an inode that is not written back yet. -/
inductive Attach (v : Vol) (x : Inode) : UInt32 → Vol → Inode → Prop
  | direct (i : Fin 16) {b} (empty : x.direct i = 0) (fresh : v.Fresh b) :
      Attach v x b (v.take b) { x with direct := update x.direct i b }
  | indirect {b} (empty : x.indirect = 0) (fresh : v.Fresh b) :
      Attach v x b (v.take b) { x with indirect := b }
  | entry {j b} (hj : j < 1024) (tier : x.indirect ≠ 0) (empty : tableAt (v.data x.indirect) j = 0)
      (fresh : v.Fresh b) :
      Attach v x b ((v.take b).setData x.indirect (tableSet (v.data x.indirect) j b)) x

/-- What `resolve_block` with `allocate` may do: the block it returns, the inode, the volume. -/
inductive Resolves (v : Vol) (x : Inode) (n : ℕ) : UInt32 → Inode → Vol → Prop
  | far (hn : 1040 ≤ n) : Resolves v x n 0 x v
  | found (hit : v.ptr x n ≠ 0) : Resolves v x n (v.ptr x n) x v
  | full (hn : n < 1040) (miss : v.ptr x n = 0) (full : v.Full) : Resolves v x n 0 x v
  | attach {b x' v'} (miss : v.ptr x n = 0) (att : Attach v x b v' x') (here : v'.ptr x' n = b) :
      Resolves v x n b x' v'
  | both {b c x'' v''} (hn' : 16 ≤ n) (miss : v.ptr x n = 0) (tier : x.indirect = 0) (fresh : v.Fresh b)
      (att : Attach (v.take b) { x with indirect := b } c v'' x'') (here : v''.ptr x'' n = c) :
      Resolves v x n c x'' v''
  | stranded {b} (hn : n < 1040) (hn' : 16 ≤ n) (tier : x.indirect = 0) (fresh : v.Fresh b)
      (full : (v.take b).Full) : Resolves v x n 0 { x with indirect := b } (v.take b)

variable {v v' : Vol} {x x' : Inode} {i : UInt32} {b : UInt32}

lemma Vol.pointer_congr (h : x.indirect ≠ 0 → v'.data x.indirect = v.data x.indirect) (p : Vol.Pos) :
    v'.pointer x p = v.pointer x p := by
  cases p with
  | indirect => rfl
  | lbn n =>
    unfold Vol.pointer Vol.ptr Vol.entry
    by_cases h0 : x.indirect = 0
    · simp only [if_pos h0]
    · simp only [if_neg h0,h h0]

/-- The inode being worked on is pending: the volume that counts has it in place. -/
abbrev Vol.OwnedWith (v : Vol) (i : UInt32) (x : Inode) : Prop := (v.setInode i x).Owned

lemma Vol.own_setInode_self (v : Vol) (i : UInt32) (x : Inode) (p : Vol.Pos) :
    (v.setInode i x).own (i,p) = v.pointer x p := by
  unfold Vol.own
  rw [Vol.setInode_inode,update_self]
  exact Vol.pointer_congr (fun _ => rfl) p

lemma Vol.own_setInode_of_ne (v : Vol) {i k : UInt32} (x : Inode) (h : k ≠ i) (p : Vol.Pos) :
    (v.setInode i x).own (k,p) = v.own (k,p) := by
  unfold Vol.own
  rw [Vol.setInode_inode,update_of_ne h]
  exact Vol.pointer_congr (fun _ => rfl) p

lemma Vol.OwnedWith.held (h : v.OwnedWith i x) {p : Vol.Pos} (hp : v.pointer x p ≠ 0) :
    v.held (v.pointer x p) := by
  have hh := Owns.held h (i,p)
  rw [Vol.own_setInode_self] at hh
  exact hh hp

lemma Vol.OwnedWith.indirect (h : v.OwnedWith i x) (h0 : x.indirect ≠ 0) : dataBlock x.indirect :=
  (h.held (p := .indirect) h0).1

variable {k : UInt32}

lemma Vol.OwnedWith.other (h : v.OwnedWith i x) (hk : k ≠ i) {p : Vol.Pos}
    (h0 : v.own (k,p) ≠ 0) : v.held (v.own (k,p)) ∧ ∀ q, v.own (k,p) ≠ v.pointer x q := by
  have hown := Vol.own_setInode_of_ne v x hk p
  constructor
  · have hh := Owns.held h (k,p)
    rw [hown] at hh
    exact hh h0
  · intro q he
    have hinj := Owns.inj h (k,p) (i,q)
    rw [hown,Vol.own_setInode_self] at hinj
    exact hk (Prod.mk.inj (hinj h0 he)).1

/-- The record of an inode and everything in its blocks is the same on two volumes. -/
structure Vol.Same (v v' : Vol) (k : UInt32) : Prop where
  inode : v'.inode k = v.inode k
  data : ∀ p, v.own (k,p) ≠ 0 → v'.data (v.own (k,p)) = v.data (v.own (k,p))

lemma Vol.Same.refl (v : Vol) (k : UInt32) : v.Same v k := ⟨rfl,fun _ _ => rfl⟩

lemma Vol.Same.own (h : v.Same v' k) (p : Vol.Pos) : v'.own (k,p) = v.own (k,p) := by
  unfold Vol.own
  rw [h.inode]
  exact Vol.pointer_congr (fun h0 => h.data .indirect h0) p

lemma Vol.Same.trans {w : Vol} (h : v.Same v' k) (h' : v'.Same w k) : v.Same w k := by
  refine ⟨h'.inode.trans h.inode,fun p hp => ?_⟩
  have hw := h'.data p
  rw [h.own] at hw
  exact (hw hp).trans (h.data p hp)

lemma Attach.same (h : Attach v x b v' x') (ho : v.OwnedWith i x) (hk : k ≠ i) :
    v.Same v' k := by
  have hne (fresh : v.Fresh b) {p : Vol.Pos} (h0 : v.own (k,p) ≠ 0) : v.own (k,p) ≠ b := by
    intro he
    exact fresh.not_held (he ▸ (ho.other hk h0).1)
  cases h with
  | direct _ _ fresh | indirect _ fresh => exact ⟨rfl,fun p h0 => update_of_ne (hne fresh h0) _ _⟩
  | entry _ _ _ fresh =>
    refine ⟨rfl,fun p h0 => ?_⟩
    have hind : v.own (k,p) ≠ x.indirect := (ho.other hk h0).2 .indirect
    rw [Vol.setData_data,update_of_ne hind,Vol.take_data,
      update_of_ne (hne fresh h0)]

lemma Attach.pos (h : Attach v x b v' x') (ho : v.OwnedWith i x) : ∃ p, v.pointer x p = 0 ∧
    v'.pointer x' = update (v.pointer x) p b ∧ (p ≠ .indirect → v'.data b = Bytes.zero) := by
  cases h with
  | direct k empty fresh =>
    refine ⟨.lbn k.val,(Vol.ptr_direct v x k).trans empty,?_,fun _ => update_self ..⟩
    funext p
    have hdata (h0 : x.indirect ≠ 0) : (v.take b).data x.indirect = v.data x.indirect := by
      refine update_of_ne ?_ _ _
      rintro rfl
      exact fresh.not_held (ho.held (p := .indirect) h0)
    cases p with
    | indirect => rw [update_of_ne (by simp)]; rfl
    | lbn n =>
      by_cases hn : n = k.val
      · subst hn
        rw [update_self]
        exact (Vol.ptr_direct _ _ k).trans (update_self ..)
      · rw [update_of_ne (by simpa using hn),← Vol.pointer_congr hdata]
        rw [Vol.pointer_lbn,Vol.pointer_lbn]
        by_cases h16 : n < 16
        · rw [Vol.ptr_of_lt _ _ h16,Vol.ptr_of_lt _ _ h16]
          exact update_of_ne (by simpa [Fin.ext_iff] using hn) _ _
        · rw [Vol.ptr_of_ge _ _ (by omega),Vol.ptr_of_ge _ _ (by omega)]
          rfl
  | indirect empty fresh =>
    refine ⟨.indirect,empty,?_,fun hne => absurd rfl hne⟩
    funext p
    cases p with
    | indirect => rw [update_self]; rfl
    | lbn n =>
      rw [update_of_ne (by simp)]
      rw [Vol.pointer_lbn,Vol.pointer_lbn]
      by_cases h16 : n < 16
      · rw [Vol.ptr_of_lt _ _ h16,Vol.ptr_of_lt _ _ h16]
      · rw [Vol.ptr_of_ge _ _ (by omega),Vol.ptr_of_ge _ _ (by omega),Vol.entry,Vol.entry,
          if_pos empty,if_neg fresh.1.ne_zero,Vol.take_data,update_self,tableAt_zero]
  | @entry j _ hj tier empty fresh =>
    refine ⟨.lbn (16+j),?_,?_,fun _ => ?_⟩
    · exact (Vol.ptr_entry v x hj).trans ((if_neg tier).trans empty)
    swap
    · have hne : b ≠ x.indirect := fun he =>
        fresh.not_held (he ▸ ho.held (p := .indirect) tier)
      rw [Vol.setData_data,update_of_ne hne,Vol.take_data,update_self]
    funext p
    cases p with
    | indirect => rw [update_of_ne (by simp)]; rfl
    | lbn n =>
      by_cases hn : n = 16+j
      · subst hn
        rw [update_self,Vol.pointer_lbn,Vol.ptr_entry _ _ hj,Vol.entry,if_neg tier,
          Vol.setData_data,update_self,tableAt_tableSet_self _ hj]
      · rw [update_of_ne (by simpa using hn),Vol.pointer_lbn,Vol.pointer_lbn]
        by_cases h16 : n < 16
        · rw [Vol.ptr_of_lt _ _ h16,Vol.ptr_of_lt _ _ h16]
        · rw [Vol.ptr_of_ge _ _ (by omega),Vol.ptr_of_ge _ _ (by omega),Vol.entry,Vol.entry,
            if_neg tier,if_neg tier,Vol.setData_data,update_self,
            tableAt_tableSet_of_ne _ _ (by omega)]

lemma Attach.fresh (h : Attach v x b v' x') : v.Fresh b := by
  cases h <;> assumption

lemma Attach.used (h : Attach v x b v' x') : v'.used = update v.used b true := by
  cases h <;> rfl

lemma Attach.owned (h : Attach v x b v' x') (ho : v.OwnedWith i x) : v'.OwnedWith i x' := by
  obtain ⟨p,_,hp,_⟩ := h.pos ho
  have hown : (v'.setInode i x').own = update (v.setInode i x).own (i,p) b := by
    funext ⟨k,q⟩
    by_cases hk : k = i
    · subst hk
      rw [Vol.own_setInode_self,hp]
      by_cases hq : q = p
      · subst hq; simp
      · rw [update_of_ne hq,update_of_ne (by simpa using hq),
          Vol.own_setInode_self]
    · rw [update_of_ne (by simp [hk]),Vol.own_setInode_of_ne _ _ hk,
        Vol.own_setInode_of_ne _ _ hk]
      exact (h.same ho hk).own q
  unfold Vol.OwnedWith Vol.Owned
  rw [hown]
  refine Owns.acquire ho (i,p) h.fresh.not_held fun c hc => ?_
  unfold Vol.held
  rw [Vol.setInode_used,h.used]
  rcases hc with ⟨hd,hu⟩ | rfl
  · refine ⟨hd,?_⟩
    by_cases hcb : c = b
    · rw [hcb,update_self]
    · rwa [update_of_ne hcb]
  · exact ⟨h.fresh.1,update_self ..⟩

namespace Does
variable {Q : UInt32 × Inode → Vol → Prop}

lemma resolveEntry_read (hd : dataBlock x.indirect) (j : ℕ)
    (h : Q (tableAt (v.data x.indirect) j,x) v) : Does (resolveEntry x j false) v Q := by
  refine bind (readBlock hd ?_)
  dsimp only
  split_ifs with h0 hf
  · exact pure h
  · rw [not_not] at h0
    exact pure (h0 ▸ h)
  · exact absurd rfl hf

lemma resolveBlock_read (ho : v.OwnedWith i x) (lbn : UInt32)
    (h : Q (v.ptr x lbn.toNat,x) v) : Does (resolveBlock x lbn false) v Q := by
  unfold resolveBlock
  split_ifs with hfar hlt hdir hno hind
  · exact pure (Vol.ptr_far v x hfar ▸ h)
  · exact pure (Vol.ptr_of_lt v x hlt ▸ h)
  · rw [Vol.ptr_of_lt v x hlt] at h
    exact pure (not_not.mp hdir ▸ h)
  · exact absurd rfl hno
  · rw [Vol.ptr_of_ge v x (by omega),if_pos (by unfold maxFileBlocks directPtrs indirectPtrs at hfar; omega),
      Vol.entry,if_pos hind] at h
    exact pure h
  · rename_i hno
    exact absurd rfl hno
  · refine resolveEntry_read (ho.indirect hind) _ ?_
    rw [Vol.ptr_of_ge v x (by omega),if_pos (by unfold maxFileBlocks directPtrs indirectPtrs at hfar; omega),
      Vol.entry,if_neg hind] at h
    exact h

lemma resolveEntry_alloc (hi : x.indirect ≠ 0) (hd : v.held x.indirect) {j : ℕ} (hj : j < 1024)
    (hhit : tableAt (v.data x.indirect) j ≠ 0 → Q (tableAt (v.data x.indirect) j,x) v)
    (hfull : tableAt (v.data x.indirect) j = 0 → v.Full → Q (0,x) v)
    (hatt : tableAt (v.data x.indirect) j = 0 → ∀ c v', Attach v x c v' x → v'.ptr x (16+j) = c →
      Q (c,x) v') : Does (resolveEntry x j true) v Q := by
  refine bind (readBlock hd.1 ?_)
  dsimp only
  by_cases h0 : tableAt (v.data x.indirect) j = 0
  swap
  · rw [if_pos h0]
    exact pure (hhit h0)
  rw [if_neg (not_not.mpr h0),if_neg (by decide)]
  refine bind (allocBlock (fun c hc hfree => ?_) fun hf => ?_)
  · rw [if_neg hc.ne_zero]
    refine bind (writeBlock hd.1 ?_)
    rw [if_pos rfl]
    refine pure (hatt h0 c _ (.entry hj hi h0 ⟨hc,hfree⟩) ?_)
    rw [Vol.ptr_entry _ _ hj,Vol.entry,if_neg hi,Vol.setData_data,update_self,
      tableAt_tableSet_self _ hj]
  · rw [if_pos rfl]
    exact pure (hfull h0 hf)

lemma resolveBlock_alloc (ho : v.OwnedWith i x) (lbn : UInt32)
    (h : ∀ r x' v', Resolves v x lbn.toNat r x' v' → Q (r,x') v') :
    Does (resolveBlock x lbn true) v Q := by
  unfold resolveBlock
  by_cases hfar : lbn.toNat ≥ maxFileBlocks
  · rw [if_pos hfar]
    exact pure (h _ _ _ (.far hfar))
  have hn : lbn.toNat < 1040 := by
    unfold maxFileBlocks directPtrs indirectPtrs at hfar
    omega
  rw [if_neg hfar]
  by_cases hlt : lbn.toNat < 16
  · rw [dif_pos hlt]
    have hptr := Vol.ptr_of_lt v x hlt
    by_cases hdir : x.direct ⟨lbn.toNat,hlt⟩ = 0
    swap
    · rw [if_pos hdir]
      exact pure (hptr ▸ h _ _ _ (.found (hptr ▸ hdir)))
    rw [if_neg (not_not.mpr hdir),if_neg (by decide)]
    refine bind (allocBlock (fun b hb hfree => ?_) fun hf => ?_)
    · rw [if_neg hb.ne_zero]
      refine pure (h _ _ _ (.attach (hptr.trans hdir) (.direct _ hdir ⟨hb,hfree⟩) ?_))
      rw [Vol.ptr_of_lt _ _ hlt]
      exact update_self ..
    · rw [if_pos rfl]
      exact pure (h _ _ _ (.full hn (hptr.trans hdir) hf))
  rw [dif_neg hlt]
  have hidx : 16 + (lbn.toNat-16) = lbn.toNat := by omega
  have hj : lbn.toNat - 16 < 1024 := by omega
  have hptr := Vol.ptr_entry v x hj
  rw [hidx] at hptr
  by_cases hind : x.indirect = 0
  · rw [if_pos hind,if_neg (by decide)]
    have hmiss : v.ptr x lbn.toNat = 0 := hptr.trans (if_pos hind)
    refine bind (allocBlock (fun b hb hfree => ?_) fun hf => ?_)
    · rw [if_neg hb.ne_zero]
      have hzero : tableAt ((v.take b).data b) (lbn.toNat-16) = 0 := by
        rw [Vol.take_data,update_self,tableAt_zero]
      refine resolveEntry_alloc hb.ne_zero ⟨hb,update_self ..⟩ hj ?_ ?_ ?_
      · exact fun hne => absurd hzero hne
      · exact fun _ hf => h _ _ _ (.stranded hn (by omega) hind ⟨hb,hfree⟩ hf)
      · intro _ c v' hatt hhere
        rw [hidx] at hhere
        exact h _ _ _ (.both (by omega) hmiss hind ⟨hb,hfree⟩ hatt hhere)
    · rw [if_pos rfl]
      exact pure (h _ _ _ (.full hn hmiss hf))
  · rw [if_neg hind]
    have hent : v.ptr x lbn.toNat = tableAt (v.data x.indirect) (lbn.toNat-16) :=
      hptr.trans (if_neg hind)
    refine resolveEntry_alloc hind (ho.held (p := .indirect) hind) hj ?_ ?_ ?_
    · exact fun hne => hent ▸ h _ _ _ (.found (hent ▸ hne))
    · exact fun h0 hf => h _ _ _ (.full hn (hent.trans h0) hf)
    · intro h0 c v' hatt hhere
      rw [hidx] at hhere
      exact h _ _ _ (.attach (hent.trans h0) hatt hhere)

end Does

end VibeOS.Osfs2

import VibeOS.Osfs2.Linking

/-! What removing a name and cutting a file do to a volume. -/
namespace VibeOS.Osfs2
open Function
open VibeOS.Storage

variable {v w : Vol} {x : Inode} {i k : UInt32}

inductive Truncates (v : Vol) (i size : UInt32) : ℤ → Vol → Prop
  | refused (why : ¬ (v.Cuttable i ∧ size.toNat ≤ maxFileBytes)) : Truncates v i size (-1) v
  | done {w : Vol} (ok : v.Cuttable i) (fits : size.toNat ≤ maxFileBytes) (cut : Cut v i (keptBlocks size) size w) :
      Truncates v i size 0 w

lemma Does.truncates {Q : ℤ → Vol → Prop} {size : UInt32} (ho : v.Owned)
    (h : ∀ r w, Truncates v i size r w → Q r w) : Does (VibeOS.Osfs2.osfs2Truncate i size) v Q :=
  osfs2Truncate ho (fun hbad => h _ _ (.refused hbad)) fun hok hsz =>
    h _ _ (.done hok hsz (truncated_cut rfl _ _))

/-- The record that is left of a removed inode. -/
def Inode.freed (x : Inode) : Inode := { x with type := typeFree, size := 0, nlink := 0 }

/-- What the common end of `osfs2_unlink` and `osfs2_rmdir` may return and leave behind. The
number of the root is refused by `free_inode` only, after all the rest is done. -/
inductive Removes (v : Vol) (parent : UInt32) (n : ℕ) (ino : UInt32) : ℤ → Vol → Prop
  | refused (why : ¬ v.Cuttable ino) : Removes v parent n ino (-1) v
  | stuck {w : Vol} (ok : v.Cuttable ino) (cut : Cut v ino 0 0 w)
      (why : (w.inode parent).type = typeDir → w.slot (w.inode parent) n = none) :
      Removes v parent n ino (-1) w
  | root {w : Vol} {d : Dirent} (ok : v.Cuttable ino) (cut : Cut v ino 0 0 w) (isRoot : ino = inodeRoot)
      (slot : w.slot (w.inode parent) n = some d) :
      Removes v parent n ino (-1)
        ((w.putSlot (w.inode parent) n Dirent.zero).setInode ino (w.inode ino).freed)
  | done {w : Vol} {d : Dirent} (ok : v.Cuttable ino) (cut : Cut v ino 0 0 w) (ne_root : ino ≠ inodeRoot)
      (parentDir : (w.inode parent).type = typeDir) (slot : w.slot (w.inode parent) n = some d) :
      Removes v parent n ino 0
        (((w.putSlot (w.inode parent) n Dirent.zero).setInode ino (w.inode ino).freed).setLive ino false)

/-- The dirent that a removal finds: its directory, its slot and itself. -/
def Vol.Victim (v : Vol) (path : Option (List UInt8)) (parent : UInt32) (n : ℕ) (e : Dirent) : Prop :=
  ∃ leaf, v.Parent path parent leaf ∧ v.First (v.inode parent) leaf n e

namespace Does

lemma dirUnlinkSlot {Q : Bool → Vol → Prop} {parent : UInt32} {n : ℕ} (ho : v.Owned)
    (hp : validInode parent)
    (hno : ((v.inode parent).type = typeDir → v.slot (v.inode parent) n = none) → Q false v)
    (h : (v.inode parent).type = typeDir → ∀ d, v.slot (v.inode parent) n = some d →
      Q true (v.putSlot (v.inode parent) n Dirent.zero)) : Does (dirUnlinkSlot parent n) v Q := by
  refine bind (readInode (fun hi => absurd hp hi) fun _ => ?_)
  dsimp only
  by_cases hty : (v.inode parent).type ≠ typeDir
  · rw [if_pos hty]
    exact pure (hno fun he => absurd he hty)
  · rw [if_neg hty]
    exact dirWriteAt _ (ho.self parent) (fun hs => hno fun _ => hs) (h (not_not.mp hty))

variable {path : Option CString}

lemma findVictim {Q : Option (UInt32 × ℕ × UInt32) → Vol → Prop} (ho : v.Owned)
    (hno : Q none v)
    (h : ∀ parent n e, v.Victim (path.map Subtype.val) parent n e → Q (some (parent,n,e.ino)) v) :
    Does (findVictim path) v Q := by
  refine bind (walkParent ho (fun parent leaf hp => ?_) fun _ => pure hno)
  dsimp only
  refine bind (readInode (fun _ => pure hno) fun _ => ?_)
  dsimp only
  refine bind (dirFind (ho.self parent) fun r hr => ?_)
  cases hr1 : r.1 with
  | none => exact pure hno
  | some n =>
    obtain ⟨e,he⟩ := hr.hit n hr1
    refine bind (dirReadAt (ho.self parent) n ?_)
    rw [he.slot]
    exact pure (h parent n e ⟨leaf,hp,he⟩)

variable {Q : ℤ → Vol → Prop}

lemma removeInode {parent ino : UInt32} {n : ℕ} (ho : v.Owned)
    (hp : validInode parent) (h : ∀ r w, Removes v parent n ino r w → Q r w) :
    Does (removeInode parent n ino) v Q := by
  refine bind (osfs2Truncate ho (fun hbad => ?_) fun hok _ => ?_)
  · rw [if_pos (by decide)]
    exact pure (h _ _ (.refused fun hok => hbad ⟨hok,Nat.zero_le _⟩))
  · rw [if_neg (by decide)]
    have hi := hok.1
    have hcut : Cut v ino 0 0 (v.truncated ino (v.inode ino) 0 0) := truncated_cut rfl 0 0
    rw [show keptBlocks 0 = 0 from rfl]
    generalize v.truncated ino (v.inode ino) 0 0 = w at hcut ⊢
    have how := hcut.owned ho
    refine bind (readInode (fun hno => absurd hi hno) fun _ => ?_)
    dsimp only
    refine bind (dirUnlinkSlot how hp (fun hwhy => ?_) fun hpd d hd => ?_)
    · rw [if_neg (by decide)]
      exact pure (h _ _ (.stuck hok hcut hwhy))
    rw [if_pos rfl]
    refine bind (writeInode hi ?_)
    rw [if_pos rfl]
    by_cases hroot : ino = inodeRoot
    · subst hroot
      refine bind (freeInode_refused (by decide) ?_)
      rw [if_neg (by decide)]
      exact pure (h _ _ (.root hok hcut rfl hd))
    · refine bind (freeInode hi hroot ?_)
      rw [if_pos rfl]
      exact pure (h _ _ (.done hok hcut hroot hpd hd))

lemma osfs2Unlink (ho : v.Owned) (kept : Q (-1) v)
    (h : ∀ parent n e, v.Victim (path.map Subtype.val) parent n e → (v.inode e.ino).type ≠ typeDir →
      ∀ r w, Removes v parent n e.ino r w → Q r w) : Does (osfs2Unlink path) v Q := by
  refine get fun s hs _ _ _ => ?_
  rw [hs,if_neg (by decide)]
  refine bind (findVictim ho (pure kept) fun parent n e hv => ?_)
  dsimp only
  refine bind (readInode (fun _ => pure kept) fun _ => ?_)
  dsimp only
  obtain ⟨_,hp,_⟩ := id hv
  obtain ⟨_,_,_,_,_,hpv,_⟩ := hp
  by_cases hty : (v.inode e.ino).type = typeDir
  · rw [if_pos hty]
    exact pure kept
  · rw [if_neg hty]
    exact removeInode ho hpv (h parent n e hv hty)

lemma allEmpty {Q : Bool → Vol → Prop} (ho : v.OwnedWith i x) (is : List ℕ)
    (hno : Q false v) (h : (∀ m ∈ is, ∃ d, v.slot x m = some d ∧ d.ino = 0) → Q true v) :
    Does (allEmpty x is) v Q := by
  induction is with
  | nil => exact pure (h fun _ hm => absurd hm List.not_mem_nil)
  | cons m is ih =>
    unfold VibeOS.Osfs2.allEmpty
    refine bind (dirReadAt ho m ?_)
    cases hs : v.slot x m with
    | none => exact pure hno
    | some e =>
      dsimp only
      by_cases h0 : e.ino ≠ 0
      · rw [if_pos h0]
        exact pure hno
      · rw [if_neg h0]
        refine ih fun hall => h fun n hn => ?_
        rcases List.mem_cons.mp hn with rfl | hn
        · exact ⟨e,hs,not_not.mp h0⟩
        · exact hall n hn

lemma osfs2Rmdir (ho : v.Owned) (kept : Q (-1) v)
    (h : ∀ parent n e, v.Victim (path.map Subtype.val) parent n e → (v.inode e.ino).type = typeDir →
      e.ino ≠ inodeRoot → (∀ m < (v.inode e.ino).slots, ∃ d,
        v.slot (v.inode e.ino) m = some d ∧ d.ino = 0) →
      ∀ r w, Removes v parent n e.ino r w → Q r w) : Does (osfs2Rmdir path) v Q := by
  refine get fun s hs _ _ _ => ?_
  rw [hs,if_neg (by decide)]
  refine bind (findVictim ho (pure kept) fun parent n e hv => ?_)
  dsimp only
  by_cases hroot : e.ino = inodeRoot
  · rw [if_pos hroot]
    exact pure kept
  rw [if_neg hroot]
  refine bind (readInode (fun _ => pure kept) fun _ => ?_)
  dsimp only
  obtain ⟨_,hp,_⟩ := id hv
  obtain ⟨_,_,_,_,_,hpv,_⟩ := hp
  by_cases hty : (v.inode e.ino).type ≠ typeDir
  · rw [if_pos hty]
    exact pure kept
  rw [if_neg hty]
  refine bind (allEmpty (ho.self e.ino) _ ?_ fun hall => ?_)
  · rw [if_neg (by decide)]
    exact pure kept
  · rw [if_pos rfl]
    exact removeInode ho hpv (h parent n e hv (not_not.mp hty) hroot
      fun m hm => hall m (List.mem_range.mpr hm))

end Does

lemma Truncates.owned {size : UInt32} {r : ℤ} (h : Truncates v i size r w) (ho : v.Owned) : w.Owned := by
  cases h with
  | refused => exact ho
  | done _ _ cut => exact cut.owned ho

lemma Creates.owned {parent type r : UInt32} {name : List UInt8} (h : Creates v parent name type r w)
    (ho : v.Owned) : w.Owned := by
  cases h with
  | badName | noParent | taken | existing | noInode => exact ho
  | noRoom => exact ho.setNew _ _
  | made _ _ _ _ _ found slot =>
    have how := slot.owned (ho.withNew _ _ _)
    obtain ⟨d,hd⟩ := slot.slot found rfl
    exact how.putSlot _ hd

lemma Vol.Owned.setFreed (h : v.Owned) : (v.setInode i (v.inode i).freed).Owned :=
  (h.self i).record rfl rfl

lemma Vol.Owned.putSlot (h : v.Owned) {n : ℕ} {d : Dirent} (e : Dirent)
    (hs : v.slot (v.inode i) n = some d) : (v.putSlot (v.inode i) n e).Owned := by
  have hp := (h.self i).putSlot e hs
  unfold Vol.OwnedWith Vol.setInode at hp
  rw [Vol.putSlot_inode,update_eq_self] at hp
  exact hp

lemma Removes.owned {parent ino : UInt32} {n : ℕ} {r : ℤ} (h : Removes v parent n ino r w)
    (ho : v.Owned) : w.Owned := by
  cases h with
  | refused => exact ho
  | stuck _ cut => exact cut.owned ho
  | root _ cut _ slot => exact ((cut.owned ho).putSlot _ slot).setFreed
  | done _ cut _ _ slot => exact ((cut.owned ho).putSlot _ slot).setFreed.setLive _ _

lemma Vol.Owned.same_take (h : v.Owned) {b : UInt32} (fresh : v.Fresh b) (k : UInt32) :
    v.Same (v.take b) k := by
  refine ⟨rfl,fun p h0 => update_of_ne (fun he => ?_) _ _⟩
  exact fresh.not_held (he ▸ Owns.held h (k,p) h0)

lemma Vol.Owned.take (h : v.Owned) {b : UInt32} (fresh : v.Fresh b) : (v.take b).Owned := by
  have hown : (v.take b).own = v.own := funext fun ⟨k,p⟩ => (h.same_take fresh k).own p
  unfold Vol.Owned
  rw [hown]
  refine Owns.mono h fun c ⟨hc,hu⟩ => ⟨hc,?_⟩
  rw [Vol.take_used]
  by_cases hcb : c = b
  · rw [hcb,update_self]
  · rwa [update_of_ne hcb]

@[simp] lemma Inode.grow_direct (x : Inode) (f : UInt64) : (x.grow f).direct = x.direct := by
  unfold Inode.grow
  split_ifs <;> rfl

@[simp] lemma Inode.grow_indirect (x : Inode) (f : UInt64) : (x.grow f).indirect = x.indirect := by
  unfold Inode.grow
  split_ifs <;> rfl

@[simp] lemma Inode.grow_type (x : Inode) (f : UInt64) : (x.grow f).type = x.type := by
  unfold Inode.grow
  split_ifs <;> rfl

lemma Writes.owned {offset len : UInt64} {src : ℕ → UInt8} {r : ℤ} (h : Writes v i offset src len r w)
    (ho : v.Owned) : w.Owned := by
  cases h with
  | nothing | refused => exact ho
  | full _ none =>
    rcases none.of_zero with ⟨rfl,-⟩ | ⟨b,-,-,-,fresh,-,rfl⟩
    · exact ho
    · exact ho.take fresh
  | wrote _ _ _ _ _ went => exact went.grown.owned.record (Inode.grow_direct _ _) (Inode.grow_indirect _ _)

end VibeOS.Osfs2

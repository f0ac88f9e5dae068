import VibeOS.Osfs2.Writing

/-! What the dirent helpers and the path walk of `osfs2.c` find on a volume. -/
namespace VibeOS.Osfs2
open Function List Option
open VibeOS.Storage

def Inode.slots (x : Inode) : ℕ := (x.size / 64).toNat

variable {v v' w : Vol} {x x' : Inode} {i k : UInt32}

namespace Vol

/-- Slot `k` of the directory is in use for the name. -/
structure Entry (v : Vol) (x : Inode) (name : List UInt8) (k : ℕ) (e : Dirent) : Prop where
  lt : k < x.slots
  slot : v.slot x k = some e
  used : e.ino ≠ 0
  called : strEq e.name name = true

structure First (v : Vol) (x : Inode) (name : List UInt8) (k : ℕ) (e : Dirent) : Prop
    extends Entry v x name k e where
  first : ∀ m < k, ∀ d, ¬ v.Entry x name m d

/-- A scan of the directory has got to slot `m`: no slot before has the name, and `e` is one
of the empty slots before, if there is one. -/
structure Seen (v : Vol) (x : Inode) (name : List UInt8) (m : ℕ) (e : Option ℕ) : Prop where
  miss : ∀ k < m, ∀ d, ¬ v.Entry x name k d
  empty : ∀ k, e = some k → k < x.slots ∧ ∃ d, v.slot x k = some d ∧ d.ino = 0
  full : e = none → ∀ k < m, k < x.slots → ∀ d, v.slot x k = some d → d.ino ≠ 0

/-- What `dir_find` says about a directory. -/
structure Found (v : Vol) (x : Inode) (name : List UInt8) (r : Option ℕ × Option ℕ) : Prop where
  hit : ∀ k, r.1 = some k → ∃ e, v.First x name k e
  miss : r.1 = none → ∀ k d, ¬ v.Entry x name k d
  empty : ∀ k, r.2 = some k → k < x.slots ∧ ∃ d, v.slot x k = some d ∧ d.ino = 0
  full : r.1 = none → r.2 = none → ∀ k < x.slots, ∀ d, v.slot x k = some d → d.ino ≠ 0

lemma slot_lt {n : ℕ} {e : Dirent} (h : v.slot x n = some e) : n < 1024 := (slot_eq_some.mp h).1

variable {b : Fin 16}

lemma slot_of_direct (v : Vol) {j : ℕ} (hj : j < 64) (h0 : x.direct b ≠ 0) :
    v.slot x (64*b.val + j) = some (Dirent.ofBlock (v.data (x.direct b)) j) := by
  have hd : (64*b.val + j) / 64 = b.val := by omega
  have hm : (64*b.val + j) % 64 = j := by omega
  rw [slot_eq_some,hd,hm,ptr_direct]
  exact ⟨by omega,h0,rfl⟩

lemma slot_of_hole (v : Vol) {j : ℕ} (hj : j < 64) (h0 : x.direct b = 0) :
    v.slot x (64*b.val + j) = none := by
  have hd : (64*b.val + j) / 64 = b.val := by omega
  unfold slot
  rw [hd,ptr_direct,if_neg fun h => h.2 h0]

lemma Seen.start (v : Vol) (x : Inode) (name : List UInt8) : v.Seen x name 0 none :=
  ⟨fun _ hk => absurd hk (by omega),fun _ h => absurd h (by simp),fun _ _ hk => absurd hk (by omega)⟩

variable {e : Option ℕ} {name : List UInt8}

lemma Seen.found {m : ℕ} (h : v.Seen x name m e)
    (hm : x.slots ≤ m ∨ 1024 ≤ m) : v.Found x name (none,e) where
  hit _ hk := absurd hk (by simp)
  miss _ k d hd := by
    have h1 := hd.lt
    have h2 := slot_lt hd.slot
    exact h.miss k (by omega) d hd
  empty := h.empty
  full _ he k hk d hd := by
    have h2 := slot_lt hd
    exact h.full he k (by omega) hk d hd

lemma Seen.hit {m : ℕ} {d : Dirent} (h : v.Seen x name m e)
    (hd : v.Entry x name m d) : v.Found x name (some m,e) where
  hit n hn := by
    obtain rfl := some.inj hn
    exact ⟨d,hd,h.miss⟩
  miss hn := absurd hn (by simp)
  empty := h.empty
  full hn := absurd hn (by simp)

lemma Seen.next {m : ℕ} {e e' : Option ℕ} (h : v.Seen x name m e)
    (hmiss : ∀ d, ¬ v.Entry x name m d)
    (he : e' = e ∨ e = none ∧ e' = some m ∧ m < x.slots ∧ ∃ d, v.slot x m = some d ∧ d.ino = 0)
    (hfull : e' = none → m < x.slots → ∀ d, v.slot x m = some d → d.ino ≠ 0) :
    v.Seen x name (m+1) e' where
  miss k hk := by
    by_cases hkm : k = m
    · exact hkm ▸ hmiss
    · exact h.miss k (by omega)
  empty k hk := by
    rcases he with rfl | ⟨-,rfl,hlt,hd⟩
    · exact h.empty k hk
    · obtain rfl := some.inj hk
      exact ⟨hlt,hd⟩
  full hn k hk := by
    have hold : e = none := by
      rcases he with rfl | ⟨-,rfl,-⟩
      · exact hn
      · exact absurd hn (by simp)
    by_cases hkm : k = m
    · exact hkm ▸ hfull hn
    · exact h.full hold k (by omega)

lemma Seen.scan (h0 : x.direct b ≠ 0) (n : ℕ) {j : ℕ}
    (hj : j + n = 64) (h : v.Seen x name (64*b.val + j) e) :
    (∀ r, (dirScan (v.data (x.direct b)) name x.slots (64*b.val) (range' j n) e).found = some r →
      v.Found x name (r,(dirScan (v.data (x.direct b)) name x.slots (64*b.val) (range' j n)
        e).firstEmpty)) ∧
    ((dirScan (v.data (x.direct b)) name x.slots (64*b.val) (range' j n) e).found = none →
      v.Seen x name (64*b.val + 64) (dirScan (v.data (x.direct b)) name x.slots (64*b.val)
        (range' j n) e).firstEmpty) := by
  induction n generalizing j e with
  | zero =>
    have hj : j = 64 := by omega
    subst hj
    exact ⟨fun r hr => absurd hr (by simp [dirScan]),fun _ => h⟩
  | succ n ih =>
    have hslot := v.slot_of_direct (x := x) (b := b) (j := j) (by omega) h0
    rw [range'_succ]
    unfold dirScan
    by_cases hend : 64*b.val + j ≥ x.slots
    · rw [if_pos hend]
      refine ⟨fun r hr => ?_,fun hn => absurd hn (by simp)⟩
      obtain rfl := some.inj hr
      exact h.found (.inl hend)
    rw [if_neg hend]
    by_cases hz : (Dirent.ofBlock (v.data (x.direct b)) j).ino = 0
    · rw [if_pos hz]
      refine ih (by omega) (h.next (fun d hd => ?_) ?_ ?_)
      · have hs := hd.slot
        rw [hslot] at hs
        exact hd.used (some.inj hs ▸ hz)
      · by_cases he : e = none
        · rw [if_pos he]
          exact .inr ⟨he,rfl,by omega,_,hslot,hz⟩
        · rw [if_neg he]
          exact .inl rfl
      · intro hn
        by_cases he : e = none
        · rw [if_pos he] at hn
          exact absurd hn (by simp)
        · rw [if_neg he] at hn
          exact absurd hn he
    rw [if_neg hz]
    by_cases heq : strEq (Dirent.ofBlock (v.data (x.direct b)) j).name name = true
    · rw [if_pos heq]
      refine ⟨fun r hr => ?_,fun hn => absurd hn (by simp)⟩
      obtain rfl := some.inj hr
      exact h.hit ⟨by omega,hslot,hz,heq⟩
    · rw [if_neg heq]
      refine ih (by omega) (h.next (fun d hd => ?_) (.inl rfl) fun _ _ d hd => ?_)
      · have hs := hd.slot
        rw [hslot] at hs
        exact heq (some.inj hs ▸ hd.called)
      · rw [hslot] at hd
        exact some.inj hd ▸ hz

lemma Seen.skip (h0 : x.direct b = 0)
    (h : v.Seen x name (64*b.val) e) : v.Seen x name (64*b.val + 64) e := by
  have hnone {k : ℕ} (hk : ¬ k < 64*b.val) (hk' : k < 64*b.val + 64) : v.slot x k = none := by
    have hs := v.slot_of_hole (x := x) (b := b) (j := k - 64*b.val) (by omega) h0
    rwa [Nat.add_sub_cancel' (by omega)] at hs
  refine ⟨fun k hk d hd => ?_,h.empty,fun he k hk hlt d hd => ?_⟩
  · by_cases hkb : k < 64*b.val
    · exact h.miss k hkb d hd
    · have hs := hd.slot
      rw [hnone hkb hk] at hs
      exact absurd hs (by simp)
  · by_cases hkb : k < 64*b.val
    · exact h.full he k hkb hlt d hd
    · rw [hnone hkb hk] at hd
      exact absurd hd (by simp)

end Vol

lemma Vol.OwnedWith.direct (h : v.OwnedWith i x) (b : Fin 16) (h0 : x.direct b ≠ 0) :
    dataBlock (x.direct b) := by
  have hp := h.held (p := .lbn b.val)
  rw [Vol.pointer_lbn,Vol.ptr_direct] at hp
  exact (hp h0).1

namespace Does

lemma dirFindFrom {Q : Option ℕ × Option ℕ → Vol → Prop} {name : List UInt8} (ho : v.OwnedWith i x)
    (h : ∀ r, v.Found x name r → Q r v) (n : ℕ) (hn : n ≤ 16) {e : Option ℕ}
    (hs : v.Seen x name (64*n) e) :
    Does (dirFindFrom x name ((finRange 16).drop n) e) v Q := by
  induction hm : 16 - n generalizing n e with
  | zero =>
    have hn : n = 16 := by omega
    subst hn
    exact pure (h _ (hs.found (.inr (by omega))))
  | succ m ih =>
    have hlt : n < (finRange 16).length := by rw [length_finRange]; omega
    rw [drop_eq_getElem_cons hlt]
    have hget : ((finRange 16)[n]).val = n := by simp
    generalize (finRange 16)[n] = b at hget ⊢
    subst hget
    unfold VibeOS.Osfs2.dirFindFrom
    by_cases h0 : x.direct b = 0
    · rw [if_pos h0]
      exact ih _ (by omega) (hs.skip h0) (by omega)
    rw [if_neg h0]
    refine bind (readBlock (ho.direct b h0) ?_)
    dsimp only
    have hscan := Vol.Seen.scan (j := 0) h0 64 rfl hs
    rw [← range_eq_range'] at hscan
    rw [show (x.size / 64).toNat = x.slots from rfl]
    generalize dirScan (v.data (x.direct b)) name x.slots (64*b.val) (List.range 64) e = s at hscan ⊢
    obtain ⟨found,empty⟩ := s
    cases found with
    | some r => exact pure (h _ (hscan.1 r rfl))
    | none => exact ih _ (by omega) (hscan.2 rfl) (by omega)

lemma dirFind {Q : Option ℕ × Option ℕ → Vol → Prop} {name : List UInt8} (ho : v.OwnedWith i x)
    (h : ∀ r, v.Found x name r → Q r v) : Does (dirFind x name) v Q := by
  have hrule := dirFindFrom ho h 0 (by omega) (Vol.Seen.start v x name)
  rwa [drop_zero] at hrule

lemma dirReadAt {Q : Option Dirent → Vol → Prop} (ho : v.OwnedWith i x) (n : ℕ)
    (h : Q (v.slot x n) v) : Does (dirReadAt x n) v Q := by
  unfold VibeOS.Osfs2.dirReadAt
  by_cases hn : n/64 < 16
  swap
  · rw [dif_neg hn]
    unfold Vol.slot at h
    rw [if_neg fun hs => hn (by omega)] at h
    exact pure h
  rw [dif_pos hn]
  have hidx : 64*(n/64) + n%64 = n := by omega
  by_cases h0 : x.direct ⟨n/64,hn⟩ = 0
  · rw [if_pos h0]
    have hs := v.slot_of_hole (j := n%64) (by omega) h0
    rw [show 64*(⟨n/64,hn⟩ : Fin 16).val + n%64 = n from hidx] at hs
    rw [hs] at h
    exact pure h
  · rw [if_neg h0]
    have hs := v.slot_of_direct (j := n%64) (by omega) h0
    rw [show 64*(⟨n/64,hn⟩ : Fin 16).val + n%64 = n from hidx] at hs
    rw [hs] at h
    exact bind (readBlock (ho.direct _ h0) (pure h))

end Does

def Vol.putSlot (v : Vol) (x : Inode) (n : ℕ) (e : Dirent) : Vol :=
  v.setData (v.ptr x (n/64)) (Dirent.toBlock (v.data (v.ptr x (n/64))) (n%64) e)

section PutSlot
variable (e : Dirent) {n : ℕ} {d : Dirent}

@[simp] lemma Vol.putSlot_inode : (v.putSlot x n e).inode = v.inode := rfl

lemma Vol.OwnedWith.slot_putSlot (h : v.OwnedWith i x) (hs : v.slot x n = some d) (m : ℕ) :
    (v.putSlot x n e).slot x m = if m = n then some e else v.slot x m := by
  obtain ⟨hn,h0,-⟩ := Vol.slot_eq_some.mp hs
  unfold Vol.slot Vol.putSlot
  rw [h.ptr_setData _ h0,Vol.setData_data]
  by_cases hm : m = n
  · subst hm
    rw [if_pos ⟨hn,h0⟩,if_pos rfl,update_self,
      Dirent.ofBlock_toBlock _ (Nat.mod_lt _ (by omega))]
  · rw [if_neg hm]
    by_cases hb : v.ptr x (m/64) = v.ptr x (n/64)
    · have hdiv : m/64 = n/64 := Vol.Pos.lbn.inj
        (h.pointer_inj (p := .lbn (m/64)) (q := .lbn (n/64)) (fun hz => h0 (hb.symm.trans hz)) hb)
      rw [hb,update_self,Dirent.ofBlock_toBlock_of_ne _ _ (by omega)]
    · rw [update_of_ne hb]

lemma Vol.OwnedWith.putSlot (h : v.OwnedWith i x) (hs : v.slot x n = some d) :
    (v.putSlot x n e).OwnedWith i x :=
  h.setData _ (Vol.slot_eq_some.mp hs).2.1

lemma Vol.OwnedWith.same_putSlot (h : v.OwnedWith i x) (n : ℕ) (hk : k ≠ i) :
    v.Same (v.putSlot x n e) k :=
  h.same_setData _ _ hk

lemma Does.dirWriteAt {Q : Bool → Vol → Prop} (ho : v.OwnedWith i x)
    (hnone : v.slot x n = none → Q false v)
    (hsome : ∀ d, v.slot x n = some d → Q true (v.putSlot x n e)) :
    Does (dirWriteAt x n e) v Q := by
  unfold VibeOS.Osfs2.dirWriteAt
  by_cases hn : n/64 < 16
  swap
  · rw [dif_neg hn]
    refine pure (hnone ?_)
    unfold Vol.slot
    rw [if_neg fun hs => hn (by omega)]
  rw [dif_pos hn]
  have hptr : v.ptr x (n/64) = x.direct ⟨n/64,hn⟩ := Vol.ptr_of_lt v x hn
  by_cases h0 : x.direct ⟨n/64,hn⟩ = 0
  · rw [if_pos h0]
    refine pure (hnone ?_)
    unfold Vol.slot
    rw [hptr,if_neg fun hs => hs.2 h0]
  · rw [if_neg h0]
    refine bind (readBlock (ho.direct _ h0) (writeBlock (ho.direct _ h0) ?_))
    have hs := hsome _ (Vol.slot_eq_some.mpr ⟨by omega,by rwa [hptr],rfl⟩)
    unfold Vol.putSlot at hs
    rwa [hptr] at hs

end PutSlot

namespace Vol

/-- A lookup of the name in the directory `cur` gives inode `ino`. -/
def NamedIn (v : Vol) (cur : UInt32) (name : List UInt8) (ino : UInt32) : Prop :=
  validInode cur ∧ (v.inode cur).type = typeDir ∧ ∃ k e, v.First (v.inode cur) name k e ∧ e.ino = ino

/-- From `cur` the components of the path lead to an inode. -/
inductive Follows (v : Vol) : UInt32 → List UInt8 → UInt32 → Prop
  | here {cur p} (last : pathNextComponent p = none) : Follows v cur p cur
  | step {cur p comp rest ino r} (next : pathNextComponent p = some (comp,rest))
      (named : v.NamedIn cur comp ino) (follows : Follows v ino rest r) : Follows v cur p r

/-- What `walk` finds, with `junk` in its component buffer. -/
def Walks (v : Vol) (junk : List UInt8) (path : Option (List UInt8)) (r : UInt32) : Prop :=
  match path with
  | none => r = inodeRoot
  | some p =>
    if p = [] ∨ p = [slash] then r = inodeRoot
    else if pathNextComponent p = none ∧ junk ≠ [] then v.NamedIn inodeRoot junk r
    else v.Follows inodeRoot p r

/-- The directory and the name that a path is split into. -/
def Parent (v : Vol) (path : Option (List UInt8)) (parent : UInt32) (leaf : List UInt8) : Prop :=
  ∃ p parentPath, path = some p ∧ splitPath p = some (parentPath,leaf) ∧
    v.Walks [] (some parentPath) parent ∧ validInode parent ∧ (v.inode parent).type = typeDir

lemma First.unique {name : List UInt8} {k m : ℕ} {e d : Dirent} (h : v.First x name k e)
    (h' : v.First x name m d) : k = m ∧ e = d := by
  have hkm : k = m := by
    by_contra hne
    rcases Nat.lt_or_gt_of_ne hne with hlt | hlt
    · exact h'.first k hlt e h.toEntry
    · exact h.first m hlt d h'.toEntry
  subst hkm
  exact ⟨rfl,some.inj (h.slot.symm.trans h'.slot)⟩

lemma NamedIn.unique {cur ino ino' : UInt32} {name : List UInt8} (h : v.NamedIn cur name ino)
    (h' : v.NamedIn cur name ino') : ino = ino' := by
  obtain ⟨-,-,k,e,hf,rfl⟩ := h
  obtain ⟨-,-,m,d,hf',rfl⟩ := h'
  rw [(hf.unique hf').2]

lemma Follows.unique {cur r r' : UInt32} {p : List UInt8} (h : v.Follows cur p r)
    (h' : v.Follows cur p r') : r = r' := by
  induction h with
  | here last =>
    cases h' with
    | here => rfl
    | step next => rw [last] at next; exact absurd next (by simp)
  | step next named _ ih =>
    cases h' with
    | here last => rw [last] at next; exact absurd next (by simp)
    | step next' named' follows' =>
      rw [next] at next'
      obtain ⟨rfl,rfl⟩ := Prod.mk.inj (some.inj next')
      obtain rfl := named.unique named'
      exact ih follows'

lemma Walks.unique {junk : List UInt8} {path : Option (List UInt8)} {r r' : UInt32}
    (h : v.Walks junk path r) (h' : v.Walks junk path r') : r = r' := by
  unfold Walks at h h'
  cases path with
  | none => rw [h,h']
  | some p =>
    dsimp only at h h'
    split_ifs at h h'
    · rw [h,h']
    · exact h.unique h'
    · exact h.unique h'

end Vol

namespace Does

lemma walkStep {Q : Option UInt32 → Vol → Prop} (ho : v.Owned) {cur : UInt32} {comp : List UInt8}
    (hit : ∀ ino, v.NamedIn cur comp ino → Q (some ino) v)
    (miss : (∀ ino, ¬ v.NamedIn cur comp ino) → Q none v) : Does (walkStep cur comp) v Q := by
  refine bind (readInode (fun hi => pure (miss fun _ h => hi h.1)) fun hi => ?_)
  dsimp only
  by_cases hty : (v.inode cur).type ≠ typeDir
  · rw [if_pos hty]
    exact pure (miss fun _ h => hty h.2.1)
  rw [if_neg hty]
  refine bind (dirFind (ho.self cur) fun r hr => ?_)
  cases hr1 : r.1 with
  | none => exact pure (miss fun _ ⟨_,_,k,e,hf,_⟩ => hr.miss hr1 k e hf.toEntry)
  | some n =>
    obtain ⟨e,he⟩ := hr.hit n hr1
    refine bind (dirReadAt (ho.self cur) n ?_)
    rw [he.slot]
    exact pure (hit _ ⟨hi,not_not.mp hty,n,e,he,rfl⟩)

lemma walkLoop {Q : UInt32 → Vol → Prop} (ho : v.Owned) {cur : UInt32} {p : List UInt8}
    (hit : ∀ r, v.Follows cur p r → Q r v) (miss : (∀ r, ¬ v.Follows cur p r) → Q 0 v) :
    Does (walkLoop cur p) v Q := by
  induction hn : p.length using Nat.strong_induction_on generalizing cur p with
  | h n ih =>
    unfold VibeOS.Osfs2.walkLoop
    split
    · rename_i hlast
      exact pure (hit _ (.here hlast))
    · rename_i comp rest hnext
      refine bind (walkStep ho (fun ino hnamed => ?_) fun hno => ?_)
      · refine ih _ (hn ▸ pathNextComponent_length hnext) (fun r hr => hit r (.step hnext hnamed hr))
          (fun hno => miss fun r hr => ?_) rfl
        cases hr with
        | here last => rw [last] at hnext; exact absurd hnext (by simp)
        | step next named follows =>
          rw [hnext] at next
          obtain ⟨rfl,rfl⟩ := Prod.mk.inj (some.inj next)
          obtain rfl := named.unique hnamed
          exact hno r follows
      · refine pure (miss fun r hr => ?_)
        cases hr with
        | here last => rw [last] at hnext; exact absurd hnext (by simp)
        | step next named follows =>
          rw [hnext] at next
          obtain ⟨rfl,rfl⟩ := Prod.mk.inj (some.inj next)
          exact hno _ named

lemma walk {Q : UInt32 → Vol → Prop} (ho : v.Owned) {junk : List UInt8} {path : Option (List UInt8)}
    (hit : ∀ r, v.Walks junk path r → Q r v) (miss : (∀ r, ¬ v.Walks junk path r) → Q 0 v) :
    Does (walk junk path) v Q := by
  unfold Vol.Walks at hit miss
  unfold VibeOS.Osfs2.walk
  cases path with
  | none => exact pure (hit _ rfl)
  | some p =>
    dsimp only at hit miss ⊢
    split_ifs at hit miss ⊢ with h1 h2
    · exact pure (hit _ rfl)
    · exact bind (walkStep ho (fun ino h => pure (hit ino h)) fun h => pure (miss h))
    · exact walkLoop ho hit miss

lemma walkParent {Q : Option (UInt32 × List UInt8) → Vol → Prop} (ho : v.Owned)
    {path : Option (List UInt8)} (hit : ∀ parent leaf, v.Parent path parent leaf → Q (some (parent,leaf)) v)
    (miss : (∀ parent leaf, ¬ v.Parent path parent leaf) → Q none v) : Does (walkParent path) v Q := by
  unfold VibeOS.Osfs2.walkParent
  cases path with
  | none => exact pure (miss fun _ _ ⟨_,_,h,_⟩ => absurd h (by simp))
  | some p =>
    dsimp only
    cases hsplit : splitPath p with
    | none =>
      refine pure (miss fun _ _ ⟨_,_,h,hs,_⟩ => ?_)
      obtain rfl := some.inj h
      rw [hsplit] at hs
      exact absurd hs (by simp)
    | some s =>
      obtain ⟨parentPath,leaf⟩ := s
      -- a path that is split has no other parent
      have honly {parent : UInt32} {leaf' : List UInt8} (h : v.Parent (some p) parent leaf') :
          leaf' = leaf ∧ v.Walks [] (some parentPath) parent ∧ validInode parent ∧
            (v.inode parent).type = typeDir := by
        obtain ⟨q,pp,hq,hs,hw,hi,hty⟩ := h
        obtain rfl := some.inj hq
        rw [hsplit] at hs
        obtain ⟨rfl,rfl⟩ := Prod.mk.inj (some.inj hs)
        exact ⟨rfl,hw,hi,hty⟩
      dsimp only
      refine bind (walk ho (fun r hr => ?_) fun hno => ?_)
      · by_cases h0 : r = 0
        · rw [if_pos h0]
          refine pure (miss fun parent _ h => ?_)
          obtain ⟨-,hw,hi,-⟩ := honly h
          exact hi.1 ((hw.unique hr).trans h0)
        rw [if_neg h0]
        refine bind (readInode (fun hi => pure (miss fun parent _ h => ?_)) fun hi => ?_)
        · exact hi ((honly h).2.1.unique hr ▸ (honly h).2.2.1)
        · dsimp only
          by_cases hty : (v.inode r).type ≠ typeDir
          · rw [if_pos hty]
            refine pure (miss fun parent _ h => ?_)
            exact hty ((honly h).2.1.unique hr ▸ (honly h).2.2.2)
          · rw [if_neg hty]
            exact pure (hit _ _ ⟨p,parentPath,rfl,hsplit,hr,hi,not_not.mp hty⟩)
      · rw [if_pos rfl]
        exact pure (miss fun parent _ h => hno parent (honly h).2.1)

end Does

end VibeOS.Osfs2

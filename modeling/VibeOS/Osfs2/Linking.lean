import VibeOS.Osfs2.Directory

/-! What creating and removing a name does to a volume. -/
namespace VibeOS.Osfs2
open Function (update update_eq_self update_idem update_self)
open VibeOS.Storage

variable {v v' w : Vol} {x x' : Inode} {i k : UInt32} {b : UInt32}

lemma Vol.pointer_record {y : Inode} (hd : y.direct = x.direct) (hi : y.indirect = x.indirect) :
    v.pointer y = v.pointer x := by
  funext p
  cases p with
  | indirect => exact hi
  | lbn n =>
    rw [Vol.pointer_lbn,Vol.pointer_lbn,Vol.ptr,Vol.ptr,Vol.entry,Vol.entry,hd,hi]

lemma Vol.slot_record {y : Inode} (hd : y.direct = x.direct) (hi : y.indirect = x.indirect) :
    v.slot y = v.slot x := by
  funext n
  have hp := congrFun (v.pointer_record hd hi) (.lbn (n/64))
  rw [Vol.pointer_lbn,Vol.pointer_lbn] at hp
  unfold Vol.slot
  rw [hp]

lemma Vol.byteAt_record {y : Inode} (hd : y.direct = x.direct) (hi : y.indirect = x.indirect) :
    v.byteAt y = v.byteAt x := by
  funext n
  have hp := congrFun (v.pointer_record hd hi) (.lbn (n/4096))
  rw [Vol.pointer_lbn,Vol.pointer_lbn] at hp
  unfold Vol.byteAt
  rw [hp]

lemma Vol.own_setInode (v : Vol) (i : UInt32) (y : Inode) (p : UInt32 × Vol.Pos) :
    (v.setInode i y).own p = if p.1 = i then v.pointer y p.2 else v.own p := by
  obtain ⟨k,q⟩ := p
  by_cases hk : k = i
  · subst hk
    rw [if_pos rfl,Vol.own_setInode_self]
  · rw [if_neg hk,Vol.own_setInode_of_ne _ _ hk]

lemma Vol.OwnedWith.record (h : v.OwnedWith i x) {y : Inode} (hd : y.direct = x.direct)
    (hi : y.indirect = x.indirect) : v.OwnedWith i y := by
  refine Owns.forget h fun p => .inr ?_
  rw [Vol.own_setInode,Vol.own_setInode,Vol.pointer_record hd hi]

@[simp] lemma newInode_type (type : UInt32) : (newInode type).type = type := rfl

lemma Vol.pointer_newInode (v : Vol) (type : UInt32) (p : Vol.Pos) : v.pointer (newInode type) p = 0 := by
  cases p with
  | indirect => rfl
  | lbn n =>
    have h0 : (newInode type).indirect = 0 := rfl
    rw [Vol.pointer_lbn,Vol.ptr,Vol.entry,if_pos h0]
    split_ifs <;> rfl

lemma Vol.ptr_newInode (v : Vol) (type : UInt32) (n : ℕ) : v.ptr (newInode type) n = 0 :=
  v.pointer_newInode type (.lbn n)

lemma Vol.slot_newInode (v : Vol) (type : UInt32) (n : ℕ) : v.slot (newInode type) n = none := by
  unfold Vol.slot
  rw [Vol.ptr_newInode,if_neg fun h => h.2 rfl]

lemma Vol.Owned.setLive (h : v.Owned) (i : UInt32) (on : Bool) : (v.setLive i on).Owned := h

lemma Vol.Owned.setNew (h : v.Owned) (i type : UInt32) : (v.setInode i (newInode type)).Owned := by
  refine Owns.forget h fun p => ?_
  rw [Vol.own_setInode]
  split_ifs
  · exact .inl (Vol.pointer_newInode _ _ _)
  · exact .inr rfl

/-- The volume on which the parent is changed, once the new inode is marked and written. -/
def Vol.withNew (v : Vol) (ino type : UInt32) : Vol :=
  (v.setLive ino true).setInode ino (newInode type)

section WithNew
variable (v) (ino type : UInt32)

@[simp] lemma Vol.withNew_live : (v.withNew ino type).live = update v.live ino true := rfl

end WithNew

lemma Vol.Owned.withNew (h : v.Owned) (ino type parent : UInt32) :
    (v.withNew ino type).OwnedWith parent (v.inode parent) := by
  refine Owns.forget h fun p => ?_
  have hown : (v.withNew ino type).own p = if p.1 = ino then 0 else v.own p := by
    rw [← v.pointer_newInode type p.2]
    exact Vol.own_setInode _ _ _ _
  rw [Vol.own_setInode,hown]
  by_cases hp : p.1 = parent
  · rw [if_pos hp,← hp]
    exact .inr rfl
  · rw [if_neg hp]
    split_ifs
    · exact .inl rfl
    · exact .inr rfl

/-- The number that `alloc_inode` gives out: the least one that is free. -/
structure Vol.NewIno (v : Vol) (ino : UInt32) : Prop where
  valid : validInode ino
  ne_root : ino ≠ inodeRoot
  free : v.live ino = false
  first : ∀ j, validInode j → j ≠ inodeRoot → j < ino → v.live j = true

/-- The record of a directory that has got one slot more. -/
def Inode.extended (x : Inode) (slots : ℕ) : Inode := { x with size := UInt32.ofNat ((slots+1)*64) }

lemma Vol.slot_extended (v : Vol) (x : Inode) (m : ℕ) : v.slot (x.extended m) = v.slot x :=
  Vol.slot_record rfl rfl

/-- How `dir_create_in` finds a slot in the directory: the slot, the record, the volume. -/
inductive MakesSlot (v : Vol) (x : Inode) (empty : Option ℕ) : ℕ → Inode → Vol → Prop
  | reuse {n} (h : empty = some n) : MakesSlot v x empty n x v
  | extend (h : empty = none) (lt : x.slots < 1024) (here : v.ptr x (x.slots/64) ≠ 0) :
      MakesSlot v x empty x.slots (x.extended x.slots) v
  | block {b y w} (h : empty = none) (lt : x.slots < 1024) (hole : v.ptr x (x.slots/64) = 0)
      (att : Attach v x b w y) (here : w.ptr y (x.slots/64) = b) :
      MakesSlot v x empty x.slots (y.extended x.slots) w

/-- What `dir_create_in` may return and leave behind. -/
inductive Creates (v : Vol) (parent : UInt32) (name : List UInt8) (type : UInt32) :
    UInt32 → Vol → Prop
  | badName (h : name.length = 0 ∨ nameMax ≤ name.length) : Creates v parent name type 0 v
  | noParent (h : ¬ (validInode parent ∧ (v.inode parent).type = typeDir)) :
      Creates v parent name type 0 v
  | taken {n e} (hit : v.First (v.inode parent) name n e)
      (why : type = typeDir ∨ ¬ validInode e.ino ∨ (v.inode e.ino).type ≠ type) :
      Creates v parent name type 0 v
  | existing {n e} (hit : v.First (v.inode parent) name n e) (parentDir : (v.inode parent).type = typeDir)
      (parentValid : validInode parent) (file : type ≠ typeDir) (valid : validInode e.ino)
      (same : (v.inode e.ino).type = type) : Creates v parent name type e.ino v
  | noInode (none : ∀ i, validInode i → i ≠ inodeRoot → v.live i = true) :
      Creates v parent name type 0 v
  | noRoom {ino} (new : v.NewIno ino) (found : v.Found (v.inode parent) name (none,none))
      (why : 1024 ≤ (v.inode parent).slots ∨ v.Full) :
      Creates v parent name type 0 (v.setInode ino (newInode type))
  | made {ino empty n y w} (short : name.length < nameMax) (some : name.length ≠ 0)
      (parentValid : validInode parent)
      (parentDir : (v.inode parent).type = typeDir) (new : v.NewIno ino)
      (found : v.Found (v.inode parent) name (none,empty))
      (slot : MakesSlot (v.withNew ino type) (v.inode parent) empty n y w) :
      Creates v parent name type ino ((w.putSlot y n (newDirent ino name)).setInode parent y)

lemma MakesSlot.owned {empty : Option ℕ} {n : ℕ} (h : MakesSlot v x empty n x' w)
    (ho : v.OwnedWith i x) : w.OwnedWith i x' := by
  cases h with
  | reuse => exact ho
  | extend => exact ho.record rfl rfl
  | block _ _ _ att => exact (att.owned ho).record rfl rfl

lemma MakesSlot.slot {empty : Option ℕ} {n : ℕ} {name : List UInt8} {v₀ : Vol} {r : Option ℕ}
    (h : MakesSlot v x empty n x' w) (hf : v₀.Found x name (r,empty)) (hs : v₀.slot x = v.slot x) :
    ∃ d, w.slot x' n = some d := by
  cases h with
  | reuse he =>
    obtain ⟨-,d,hd,-⟩ := hf.empty n he
    rw [hs] at hd
    exact ⟨d,hd⟩
  | extend _ lt here =>
    rw [Vol.slot_extended]
    exact ⟨_,Vol.slot_eq_some.mpr ⟨lt,here,rfl⟩⟩
  | block _ lt _ att here =>
    rw [Vol.slot_extended]
    exact ⟨_,Vol.slot_eq_some.mpr ⟨lt,here ▸ att.fresh.1.ne_zero,rfl⟩⟩

namespace Does

lemma makeSlot {Q : Option (ℕ × Inode) → Vol → Prop} {empty : Option ℕ}
    (made : ∀ n y w, MakesSlot v x empty n y w → Q (some (n,y)) w)
    (none : empty = none → (1024 ≤ x.slots ∨ v.Full) → Q none v) : Does (makeSlot x empty) v Q := by
  unfold VibeOS.Osfs2.makeSlot
  cases empty with
  | some n => exact pure (made _ _ _ (.reuse rfl))
  | none =>
    dsimp only
    change Does (if h : x.slots / 64 < 16 then _ else _) v Q
    by_cases hlt : x.slots / 64 < 16
    swap
    · rw [dif_neg hlt]
      exact pure (none rfl (.inl (by omega)))
    rw [dif_pos hlt]
    have hptr : v.ptr x (x.slots/64) = x.direct ⟨x.slots/64,hlt⟩ := Vol.ptr_of_lt v x hlt
    by_cases h0 : x.direct ⟨x.slots/64,hlt⟩ = 0
    · change Does (if x.direct ⟨x.slots/64,hlt⟩ = 0 then _ else _) v Q
      rw [if_pos h0]
      refine bind (allocBlock (fun b hb hfree => ?_) fun hf => ?_)
      · rw [if_neg hb.ne_zero]
        refine pure (made _ _ _ (.block rfl (by omega) (hptr.trans h0) (.direct _ h0 ⟨hb,hfree⟩) ?_))
        rw [Vol.ptr_of_lt _ _ hlt]
        exact update_self ..
      · rw [if_pos rfl]
        exact pure (none rfl (.inr hf))
    · change Does (if x.direct ⟨x.slots/64,hlt⟩ = 0 then _ else _) v Q
      rw [if_neg h0]
      exact pure (made _ _ _ (.extend rfl (by omega) (by rwa [hptr])))

lemma dirCreateIn {Q : UInt32 → Vol → Prop} {parent type : UInt32} {name : List UInt8} (ho : v.Owned)
    (h : ∀ r w, Creates v parent name type r w → Q r w) : Does (dirCreateIn parent name type) v Q := by
  unfold VibeOS.Osfs2.dirCreateIn
  by_cases hname : name.length = 0 ∨ name.length ≥ nameMax
  · rw [if_pos hname]
    exact pure (h _ _ (.badName hname))
  rw [if_neg hname]
  rw [not_or] at hname
  refine bind (readInode (fun hp => pure (h _ _ (.noParent fun hn => hp hn.1))) fun hp => ?_)
  dsimp only
  by_cases hty : (v.inode parent).type ≠ typeDir
  · rw [if_pos hty]
    exact pure (h _ _ (.noParent fun hn => hty hn.2))
  rw [if_neg hty]
  refine bind (dirFind (ho.self parent) fun r hr => ?_)
  obtain ⟨hit,empty⟩ := r
  cases hit with
  | some n =>
    obtain ⟨e,he⟩ := hr.hit n rfl
    dsimp only
    refine bind (dirReadAt (ho.self parent) n ?_)
    rw [he.slot]
    refine bind (readInode (fun hi => pure (h _ _ (.taken he (.inr (.inl hi))))) fun hi => ?_)
    dsimp only
    by_cases hdir : type = typeDir
    · rw [if_pos hdir]
      exact pure (h _ _ (.taken he (.inl hdir)))
    rw [if_neg hdir]
    by_cases hsame : (v.inode e.ino).type ≠ type
    · rw [if_pos hsame]
      exact pure (h _ _ (.taken he (.inr (.inr hsame))))
    · rw [if_neg hsame]
      exact pure (h _ _ (.existing he (not_not.mp hty) hp hdir hi (not_not.mp hsame)))
  | none =>
    dsimp only
    refine bind (allocInode (fun ino hi hne hfree hfirst => ?_) fun hfull => ?_)
    swap
    · rw [if_pos rfl]
      exact pure (h _ _ (.noInode hfull))
    rw [if_neg hi.1]
    refine bind (writeInode hi ?_)
    rw [if_pos rfl]
    change Does _ (v.withNew ino type) Q
    refine bind (makeSlot (fun n y w hm => ?_) fun he hwhy => ?_)
    · have how : w.OwnedWith parent y := hm.owned (ho.withNew ino type parent)
      obtain ⟨d,hd⟩ := hm.slot hr rfl
      refine bind (dirWriteAt _ how (fun hno => ?_) fun _ _ => ?_)
      · rw [hd] at hno
        exact absurd hno (by simp)
      rw [if_pos rfl]
      refine bind (writeInode hp ?_)
      rw [if_pos rfl]
      exact pure (h _ _ (.made (by omega) hname.1 hp (not_not.mp hty) ⟨hi,hne,hfree,hfirst⟩ hr hm))
    · subst he
      refine bind (freeInode hi hne (pure ?_))
      have hv : (v.withNew ino type).setLive ino false = v.setInode ino (newInode type) := by
        ext1
        · rfl
        · rfl
        · rfl
        · rw [Vol.setLive_live,Vol.withNew_live,update_idem,Vol.setInode_live,← hfree,
            update_eq_self]
      rw [hv]
      exact h _ _ (.noRoom ⟨hi,hne,hfree,hfirst⟩ hr hwhy)

lemma createAt {Q : UInt32 → Vol → Prop} {type : UInt32} {path : Option CString} (ho : v.Owned)
    (bad : (∀ parent leaf, ¬ v.Parent (path.map Subtype.val) parent leaf) → Q 0 v)
    (h : ∀ parent leaf, v.Parent (path.map Subtype.val) parent leaf →
      ∀ r w, Creates v parent leaf type r w → Q r w) : Does (createAt type path) v Q := by
  refine get fun s hs _ _ _ => ?_
  rw [hs,if_neg (by decide)]
  exact bind (walkParent ho (fun parent leaf hp => dirCreateIn ho (h parent leaf hp))
    fun hno => pure (bad hno))

lemma osfs2Lookup {Q : UInt32 → Vol → Prop} {junk : List UInt8} {path : Option CString} (ho : v.Owned)
    (hit : ∀ r, v.Walks junk (path.map Subtype.val) r → Q (if r = inodeRoot then 0 else r) v)
    (miss : (∀ r, ¬ v.Walks junk (path.map Subtype.val) r) → Q 0 v) :
    Does (osfs2Lookup junk path) v Q := by
  refine get fun s hs _ _ _ => ?_
  rw [hs,if_neg (by decide)]
  refine bind (walk ho (fun r hr => pure (hit r hr)) fun hno => pure ?_)
  have hm := miss hno
  rwa [if_neg (by decide)]

end Does

end VibeOS.Osfs2

import VibeOS.Osfs2.Calls

/-! The names on a volume: the dirents of the allocated directories, where they lead, and how
each call changes them. -/
namespace VibeOS.Osfs2
open List Option
open Function (update update_apply update_of_ne update_self)
open VibeOS.Storage

variable {v w : Vol} {x y : Inode} {i k d : UInt32} {m n : ℕ} {e : Dirent}

/-- Slot `m` of the allocated directory `d` is in use, also if it is behind the end of the
directory, where `dir_find` does not look. -/
structure Vol.Names (v : Vol) (d : UInt32) (m : ℕ) (e : Dirent) : Prop where
  live : v.live d = true
  dir : (v.inode d).type = typeDir
  slot : v.slot (v.inode d) m = some e
  used : e.ino ≠ 0

/-- What holds of the names whatever calls were made: each leads to an allocated file or
directory other than the root, and no two lead to the same one. -/
structure Vol.Named (v : Vol) : Prop where
  rootLive : v.live inodeRoot = true
  rootDir : (v.inode inodeRoot).type = typeDir
  live : ∀ {d m e}, v.Names d m e → v.live e.ino = true
  valid : ∀ {d m e}, v.Names d m e → validInode e.ino
  ne_root : ∀ {d m e}, v.Names d m e → e.ino ≠ inodeRoot
  type : ∀ {d m e}, v.Names d m e → (v.inode e.ino).type = typeFile ∨ (v.inode e.ino).type = typeDir
  once : ∀ {d m e d' m' e'}, v.Names d m e → v.Names d' m' e' → e.ino = e'.ino → d = d' ∧ m = m'

variable {name : List UInt8}

lemma Vol.Entry.names (h : v.Entry (v.inode d) name n e) (hl : v.live d = true)
    (hd : (v.inode d).type = typeDir) : v.Names d n e :=
  ⟨hl,hd,h.slot,h.used⟩

lemma Vol.Named.namedIn (h : v.Named) (hl : v.live d = true)
    (hn : v.NamedIn d name i) : v.live i = true := by
  obtain ⟨-,hd,m,e,he,rfl⟩ := hn
  exact h.live (he.toEntry.names hl hd)

lemma Vol.Named.follows (h : v.Named) {p : List UInt8} (hf : v.Follows d p i) (hl : v.live d = true) :
    v.live i = true := by
  induction hf with
  | here => exact hl
  | step _ named _ ih => exact ih (h.namedIn hl named)

variable {path : Option (List UInt8)}

lemma Vol.Named.walks (h : v.Named) {junk : List UInt8}
    (hw : v.Walks junk path i) : v.live i = true := by
  unfold Vol.Walks at hw
  cases path with
  | none => exact hw ▸ h.rootLive
  | some p =>
    dsimp only at hw
    split_ifs at hw
    · exact hw ▸ h.rootLive
    · exact h.namedIn h.rootLive hw
    · exact h.follows hw h.rootLive

lemma Vol.Named.parent (h : v.Named) {leaf : List UInt8}
    (hp : v.Parent path d leaf) : v.live d = true := by
  obtain ⟨p,q,-,-,hw,-⟩ := hp
  exact h.walks hw

lemma Vol.Named.victim (h : v.Named) (hv : v.Victim path d n e) :
    v.Names d n e := by
  obtain ⟨leaf,hp,hf⟩ := hv
  have hl := h.parent hp
  obtain ⟨-,-,-,-,-,-,hd⟩ := hp
  exact hf.toEntry.names hl hd

lemma Vol.same_withNew (v : Vol) (type : UInt32) (hk : k ≠ i) : v.Same (v.withNew i type) k :=
  ⟨update_of_ne hk _ _,fun _ _ => rfl⟩

lemma Vol.same_setLive (v : Vol) (i k : UInt32) (on : Bool) : v.Same (v.setLive i on) k :=
  ⟨rfl,fun _ _ => rfl⟩

variable {size : UInt32}

lemma Cut.same {kept : ℕ} (h : Cut v i kept size w) (ho : v.Owned) (hk : k ≠ i) :
    v.Same w k := by
  refine ⟨h.inode_of_ne hk,fun p h0 => h.data _ fun he => hk ?_⟩
  exact (Prod.mk.inj (Owns.inj ho (k,p) (i,.indirect) h0 he)).1

lemma Cut.slot {kept : ℕ} (h : Cut v i kept size w) (ho : v.Owned)
    (hs : w.slot (w.inode i) m = some e) : v.slot (v.inode i) m = some e := by
  obtain ⟨hm,h0,he⟩ := Vol.slot_eq_some.mp hs
  have hown : w.ptr (w.inode i) (m/64) = v.ptr (v.inode i) (m/64) :=
    (h.own_self (.lbn (m/64))).resolve_left h0
  have h0' : v.own (i,.lbn (m/64)) ≠ 0 := fun hz => h0 (hown.trans hz)
  have hdata : w.data (v.own (i,.lbn (m/64))) = v.data (v.own (i,.lbn (m/64))) :=
    h.data _ (ho.ne_indirect h0' i)
  rw [hown,← Vol.own_lbn,hdata] at he
  exact Vol.slot_eq_some.mpr ⟨hm,h0',he⟩

lemma Attach.slot {b : UInt32} (h : Attach v x b w y) (ho : v.OwnedWith i x) (m : ℕ) :
    w.slot y m = v.slot x m ∨ v.slot x m = none ∧ w.slot y m = some Dirent.zero := by
  obtain ⟨p,hmiss,hp,hzero⟩ := h.pos ho
  have hptr : w.ptr y (m/64) = update (v.pointer x) p b (.lbn (m/64)) := congrFun hp (.lbn (m/64))
  by_cases hpos : p = .lbn (m/64)
  · subst hpos
    have hmiss : v.ptr x (m/64) = 0 := hmiss
    rw [update_self] at hptr
    have hnone : v.slot x m = none := if_neg fun hs => hs.2 hmiss
    by_cases hm : m < 1024
    · refine .inr ⟨hnone,Vol.slot_eq_some.mpr ⟨hm,hptr ▸ h.fresh.1.ne_zero,?_⟩⟩
      rw [hptr,hzero (by simp),Dirent.ofBlock_zero]
    · refine .inl ?_
      rw [hnone]
      exact if_neg fun hs => hm hs.1
  · rw [update_of_ne (Ne.symm hpos),Vol.pointer_lbn] at hptr
    refine .inl ?_
    unfold Vol.slot
    rw [hptr]
    split_ifs with hs
    · rw [h.data_ptr ho hs.2]
    · rfl

structure SlotMade (v : Vol) (p : UInt32) (x : Inode) (n : ℕ) (y : Inode) (w : Vol) : Prop where
  owned : w.OwnedWith p y
  inode : w.inode = v.inode
  live : w.live = v.live
  used : ∀ b, v.used b = true → w.used b = true
  type : y.type = x.type
  lt : n < y.slots
  le : x.slots ≤ y.slots
  top : y.slots ≤ max x.slots (n+1)
  other : ∀ k, k ≠ p → v.Same w k
  slot : ∀ m, w.slot y m = v.slot x m ∨ v.slot x m = none ∧ w.slot y m = some Dirent.zero

lemma Inode.slots_extended (x : Inode) {s : ℕ} (hs : s < 1024) : (x.extended s).slots = s+1 := by
  have h64 : (64 : UInt32).toNat = 64 := rfl
  unfold Inode.slots Inode.extended
  dsimp only
  rw [UInt32.toNat_div,UInt32.toNat_ofNat',h64]
  omega

lemma MakesSlot.spec {p : UInt32} {empty : Option ℕ} (h : MakesSlot v x empty n y w)
    (ho : v.OwnedWith p x) (hempty : ∀ k, empty = some k → k < x.slots) : SlotMade v p x n y w := by
  have how := h.owned ho
  cases h with
  | reuse he => exact ⟨how,rfl,rfl,fun _ h => h,rfl,hempty _ he,le_rfl,le_max_left _ _,fun _ _ => .refl _ _,fun _ => .inl rfl⟩
  | extend _ lt here =>
    have hs := x.slots_extended lt
    refine ⟨how,rfl,rfl,fun _ h => h,rfl,by omega,by omega,by omega,fun _ _ => .refl _ _,fun m => .inl ?_⟩
    rw [Vol.slot_extended]
  | @block b z _ _ lt hole att here =>
    have hs := z.slots_extended lt
    have hg := att.grown ho
    refine ⟨how,att.inode,att.live,hg.used,?_,by omega,by omega,by omega,hg.other,fun m => ?_⟩
    · rw [hg.record]
      rfl
    · rw [Vol.slot_extended]
      exact att.slot ho m

/-- No call but a creation or a removal allocates or frees an inode or adds a name. -/
structure Vol.Keeps (v w : Vol) : Prop where
  live : w.live = v.live
  type : ∀ i, v.live i = true → (w.inode i).type = (v.inode i).type
  names : ∀ {d m e}, w.Names d m e → v.Names d m e

lemma Vol.Keeps.refl (v : Vol) : v.Keeps v := ⟨rfl,fun _ _ => rfl,fun h => h⟩

lemma Vol.Keeps.named (hk : v.Keeps w) (h : v.Named) : w.Named where
  rootLive := hk.live ▸ h.rootLive
  rootDir := (hk.type _ h.rootLive).trans h.rootDir
  live hn := hk.live ▸ h.live (hk.names hn)
  valid hn := h.valid (hk.names hn)
  ne_root hn := h.ne_root (hk.names hn)
  type hn := hk.type _ (h.live (hk.names hn)) ▸ h.type (hk.names hn)
  once hn hn' := h.once (hk.names hn) (hk.names hn')

lemma Vol.Same.names (h : v.Same w d) (hl : w.live d = v.live d) : w.Names d m e ↔ v.Names d m e := by
  constructor
  · rintro ⟨h1,h2,h3,h4⟩
    exact ⟨hl ▸ h1,h.inode ▸ h2,h.slot ▸ h3,h4⟩
  · rintro ⟨h1,h2,h3,h4⟩
    exact ⟨hl.symm ▸ h1,h.inode.symm ▸ h2,h.slot.symm ▸ h3,h4⟩

lemma Cut.keeps {kept : ℕ} (h : Cut v i kept size w) (ho : v.Owned) : v.Keeps w where
  live := h.live
  type k _ := h.type k
  names {d m e} hn := by
    by_cases hd : d = i
    · subst hd
      exact ⟨h.live ▸ hn.live,h.type d ▸ hn.dir,h.slot ho hn.slot,hn.used⟩
    · exact ((h.same ho hd).names (congrFun h.live d)).mp hn

variable {r : ℤ}

lemma Truncates.keeps (h : Truncates v i size r w) (ho : v.Owned) : v.Keeps w := by
  cases h with
  | refused => exact .refl v
  | done _ _ cut => exact cut.keeps ho

variable {offset len : UInt64} {src : ℕ → UInt8}

lemma Writes.frame (h : Writes v i offset src len r w)
    (ho : v.Owned) : w.live = v.live ∧ (w.inode i).type = (v.inode i).type ∧
      (∀ b, v.used b = true → w.used b = true) ∧ ∀ k, v.Same w k ∨ k = i ∧ (v.inode k).type = typeFile := by
  cases h with
  | nothing | refused => exact ⟨rfl,rfl,fun _ h => h,fun k => .inl (.refl v k)⟩
  | full _ none =>
    rcases none.of_zero with ⟨rfl,-⟩ | ⟨b,-,-,-,fresh,-,rfl⟩
    · exact ⟨rfl,rfl,fun _ h => h,fun k => .inl (.refl _ k)⟩
    · have hused := (Attach.indirect (x := newInode 0) rfl fresh).used
      refine ⟨rfl,rfl,fun c hc => ?_,fun k => .inl (ho.same_take fresh k)⟩
      rw [Vol.take_used,update_apply]
      split_ifs
      · rfl
      · exact hc
  | @wrote n y w ok _ _ _ _ went =>
    refine ⟨went.grown.live,?_,went.grown.used,fun k => ?_⟩
    · rw [Vol.setInode_inode,update_self,Inode.grow_type,went.grown.record]
    · by_cases hk : k = i
      · exact .inr ⟨hk,hk ▸ ok.file⟩
      · exact .inl ((went.grown.other k hk).trans (Vol.same_setInode _ _ hk))

lemma Writes.names (h : Writes v i offset src len r w)
    (ho : v.Owned) : w.Names d m e ↔ v.Names d m e := by
  obtain ⟨hl,hty,-,hs⟩ := h.frame ho
  rcases hs d with hsame | ⟨rfl,hfile⟩
  · exact hsame.names (congrFun hl d)
  · have hne : typeFile ≠ typeDir := by decide
    exact ⟨fun hn => absurd (hfile.symm.trans (hty.symm.trans hn.dir)) hne,
      fun hn => absurd (hfile.symm.trans hn.dir) hne⟩

lemma Writes.keeps (h : Writes v i offset src len r w)
    (ho : v.Owned) : v.Keeps w where
  live := (h.frame ho).1
  type k _ := by
    rcases (h.frame ho).2.2.2 k with hsame | ⟨rfl,-⟩
    · rw [hsame.inode]
    · exact (h.frame ho).2.1
  names := (h.names ho).mp

/-- Inode `ino` is allocated and gets a name in slot `n` of `parent`. -/
structure Vol.Links (v : Vol) (parent : UInt32) (n : ℕ) (ino type : UInt32) (name : List UInt8)
    (w : Vol) : Prop where
  new : v.NewIno ino
  live : w.live = update v.live ino true
  record : w.inode ino = newInode type
  type : ∀ k, k ≠ ino → (w.inode k).type = (v.inode k).type
  other : ∀ k, k ≠ ino → k ≠ parent → v.Same w k
  lt : n < (w.inode parent).slots
  le : (v.inode parent).slots ≤ (w.inode parent).slots
  top : (w.inode parent).slots ≤ max (v.inode parent).slots (n+1)
  names : ∀ {d m e}, w.Names d m e ↔
    (d = parent ∧ m = n ∧ e = newDirent ino name) ∨ ¬ (d = parent ∧ m = n) ∧ v.Names d m e

lemma MakesSlot.links {parent ino type : UInt32} {empty : Option ℕ}
    (slot : MakesSlot (v.withNew ino type) (v.inode parent) empty n y w) (ho : v.Owned)
    (hp : v.live parent = true) (hdir : (v.inode parent).type = typeDir) (new : v.NewIno ino)
    (found : v.Found (v.inode parent) name (none,empty)) : v.Links parent n ino type name
      ((w.putSlot y n (newDirent ino name)).setInode parent y) := by
  have hne : parent ≠ ino := by
    rintro rfl
    rw [new.free] at hp
    exact absurd hp (by decide)
  have hm := slot.spec (ho.withNew ino type parent) fun k hk => (found.empty k hk).1
  obtain ⟨e₀,he₀⟩ := slot.slot found rfl
  have hslot := hm.owned.slot_putSlot (newDirent ino name) he₀
  have hother {k : UInt32} (hk : k ≠ ino) (hkp : k ≠ parent) :
      v.Same ((w.putSlot y n (newDirent ino name)).setInode parent y) k :=
    (((v.same_withNew type hk).trans (hm.other k hkp)).trans
      (hm.owned.same_putSlot _ n hkp)).trans (Vol.same_setInode _ _ hkp)
  have hself : ((w.putSlot y n (newDirent ino name)).setInode parent y).inode parent = y :=
    update_self ..
  have hrec : ((w.putSlot y n (newDirent ino name)).setInode parent y).inode ino = newInode type := by
    rw [Vol.setInode_inode,update_of_ne (Ne.symm hne),Vol.putSlot_inode,hm.inode]
    exact update_self ..
  have hlive : ((w.putSlot y n (newDirent ino name)).setInode parent y).live =
      update v.live ino true := hm.live
  refine ⟨new,hlive,hrec,fun k hk => ?_,fun k hk hkp => hother hk hkp,hself.symm ▸ hm.lt,
    hself.symm ▸ hm.le,hself.symm ▸ hm.top,fun {d m e} => ?_⟩
  · by_cases hkp : k = parent
    · rw [hkp,hself,hm.type]
    · rw [(hother hk hkp).inode]
  by_cases hdr : d = ino
  · subst hdr
    refine ⟨fun hn => ?_,?_⟩
    · have hs := hn.slot
      rw [hrec,Vol.slot_newInode] at hs
      exact absurd hs (by simp)
    · rintro (⟨rfl,-⟩ | ⟨-,hn⟩)
      · exact absurd rfl hne
      · have hl := hn.live
        rw [new.free] at hl
        exact absurd hl (by decide)
  by_cases hdp : d = parent
  swap
  · rw [(hother hdr hdp).names (by rw [hlive,update_of_ne hdr])]
    simp [hdp]
  subst hdp
  have hwslot : ((w.putSlot y n (newDirent ino name)).setInode d y).slot y m =
      if m = n then some (newDirent ino name) else w.slot y m := hslot m
  have hold : v.slot (v.inode d) m = (v.withNew ino type).slot (v.inode d) m := rfl
  constructor
  · intro hn
    have hs := hn.slot
    rw [hself,hwslot] at hs
    by_cases hmn : m = n
    · rw [if_pos hmn] at hs
      exact .inl ⟨rfl,hmn,(some.inj hs).symm⟩
    · rw [if_neg hmn] at hs
      refine .inr ⟨fun h => hmn h.2,hp,hdir,?_,hn.used⟩
      rcases hm.slot m with hsm | ⟨-,hz⟩
      · rw [hold,← hsm,hs]
      · obtain rfl := some.inj (hz.symm.trans hs)
        exact absurd rfl hn.used
  · have hl : ((w.putSlot y n (newDirent ino name)).setInode d y).live d = true := by
      rw [hlive,update_of_ne hdr,hp]
    have hty : (((w.putSlot y n (newDirent ino name)).setInode d y).inode d).type = typeDir := by
      rw [hself,hm.type,hdir]
    rintro (⟨-,rfl,rfl⟩ | ⟨hmn,hn⟩)
    · refine ⟨hl,hty,?_,new.valid.1⟩
      rw [hself,hwslot,if_pos rfl]
    · refine ⟨hl,hty,?_,hn.used⟩
      rw [hself,hwslot,if_neg fun h => hmn ⟨rfl,h⟩]
      have hs := hn.slot
      rw [hold] at hs
      rcases hm.slot m with hsm | ⟨hz,-⟩
      · rw [hsm,hs]
      · rw [hz] at hs
        exact absurd hs (by simp)

lemma Creates.spec {parent type r : UInt32} (h : Creates v parent name type r w)
    (ho : v.Owned) (hp : v.live parent = true) :
    (w = v ∨ ∃ ino, v.NewIno ino ∧ w = v.setInode ino (newInode type)) ∨
      ∃ n, v.Links parent n r type name w := by
  cases h with
  | badName | noParent | taken | existing | noInode => exact .inl (.inl rfl)
  | noRoom new => exact .inl (.inr ⟨_,new,rfl⟩)
  | made _ _ _ hdir new found slot => exact .inr ⟨_,slot.links ho hp hdir new found⟩

lemma Vol.Links.named {parent ino type : UInt32} (h : v.Links parent n ino type name w)
    (hN : v.Named) (hty : type = typeFile ∨ type = typeDir) : w.Named := by
  have hold {d m e} (hn : v.Names d m e) : e.ino ≠ ino := by
    intro he
    have hl := hN.live hn
    rw [he,h.new.free] at hl
    exact absurd hl (by decide)
  have hlive {k : UInt32} (hk : v.live k = true) : w.live k = true := by
    rw [h.live,update_apply]
    split_ifs
    · rfl
    · exact hk
  refine ⟨hlive hN.rootLive,?_,fun {d m e} hn => ?_,fun {d m e} hn => ?_,fun {d m e} hn => ?_,
    fun {d m e} hn => ?_,fun {d m e d' m' e'} hn hn' he => ?_⟩
  · rw [h.type _ h.new.ne_root.symm,hN.rootDir]
  · rcases h.names.mp hn with ⟨-,-,rfl⟩ | ⟨-,hv⟩
    · exact h.live ▸ update_self ..
    · exact hlive (hN.live hv)
  · rcases h.names.mp hn with ⟨-,-,rfl⟩ | ⟨-,hv⟩
    · exact h.new.valid
    · exact hN.valid hv
  · rcases h.names.mp hn with ⟨-,-,rfl⟩ | ⟨-,hv⟩
    · exact h.new.ne_root
    · exact hN.ne_root hv
  · rcases h.names.mp hn with ⟨-,-,rfl⟩ | ⟨-,hv⟩
    · rw [show (newDirent ino name).ino = ino from rfl,h.record]
      exact hty
    · rw [h.type _ (hold hv)]
      exact hN.type hv
  · rcases h.names.mp hn with ⟨rfl,rfl,rfl⟩ | ⟨-,hv⟩ <;>
      rcases h.names.mp hn' with ⟨rfl,rfl,rfl⟩ | ⟨-,hv'⟩
    · exact ⟨rfl,rfl⟩
    · exact absurd he.symm (hold hv')
    · exact absurd he (hold hv)
    · exact hN.once hv hv' he

/-- The name in slot `n` of `parent` is removed, with the inode it leads to. -/
structure Vol.Unlinks (v : Vol) (parent : UInt32) (n : ℕ) (ino : UInt32) (w : Vol) : Prop where
  live : w.live = update v.live ino false
  freed : (w.inode ino).type = typeFree
  record : w.inode parent = v.inode parent
  other : ∀ k, k ≠ ino → k ≠ parent → v.Same w k
  names : ∀ {d m e}, w.Names d m e ↔ d ≠ ino ∧ ¬ (d = parent ∧ m = n) ∧ v.Names d m e

lemma Removes.spec {parent : UInt32} (h : Removes v parent n e.ino r w) (ho : v.Owned)
    (hN : v.Named) (hn : v.Names parent n e) (hne : parent ≠ e.ino) : r = 0 ∧ v.Unlinks parent n e.ino w := by
  have hslot {u : Vol} (cut : Cut v e.ino 0 0 u) : u.slot (u.inode parent) n = some e :=
    (cut.same ho hne).slot ▸ hn.slot
  generalize hi : e.ino = ino at h hne hslot ⊢
  cases h with
  | refused why => exact absurd ⟨hi ▸ hN.valid hn,hi ▸ hN.type hn⟩ why
  | stuck _ cut why =>
    have hs := why ((cut.type parent).trans hn.dir)
    rw [hslot cut] at hs
    exact absurd hs (by simp)
  | root _ _ isRoot => exact absurd (hi.trans isRoot) (hN.ne_root hn)
  | @done u e' ok cut _ pdir slot =>
    refine ⟨rfl,?_⟩
    have hp : u.inode parent = v.inode parent := cut.inode_of_ne hne
    have huo := (cut.owned ho).self parent
    have hput := huo.slot_putSlot Dirent.zero slot
    have hother {k : UInt32} (hk : k ≠ ino) (hkp : k ≠ parent) : v.Same
        (((u.putSlot (u.inode parent) n Dirent.zero).setInode ino (u.inode ino).freed).setLive ino false) k :=
      ((cut.same ho hk).trans (huo.same_putSlot _ n hkp)).trans (Vol.same_setInode _ _ hk) |>.trans
        (Vol.same_setLive _ _ _ _)
    generalize hwdef : ((u.putSlot (u.inode parent) n Dirent.zero).setInode ino
      (u.inode ino).freed).setLive ino false = w at hother ⊢
    have hwl : w.live = update v.live ino false := by rw [← hwdef,← cut.live]; rfl
    have hwi : w.inode = update u.inode ino (u.inode ino).freed := by rw [← hwdef]; rfl
    have hws (m : ℕ) : w.slot (u.inode parent) m =
        if m = n then some Dirent.zero else u.slot (u.inode parent) m := by
      rw [← hput m,← hwdef]
      rfl
    have hwp : w.inode parent = v.inode parent := by rw [hwi,update_of_ne hne,hp]
    refine ⟨hwl,by rw [hwi,update_self]; rfl,hwp,fun k => hother,fun {d m f} => ?_⟩
    by_cases hd : d = ino
    · subst hd
      refine ⟨fun hf => ?_,fun hf => absurd rfl hf.1⟩
      have hl := hf.live
      rw [hwl,update_self] at hl
      exact absurd hl (by decide)
    by_cases hdp : d = parent
    swap
    · rw [(hother hd hdp).names (by rw [hwl,update_of_ne hd])]
      simp [hd,hdp]
    subst hdp
    have hsame : u.slot (u.inode d) m = v.slot (v.inode d) m := congrFun (cut.same ho hne).slot m
    have hwm := hws m
    rw [hp] at hwm hsame
    constructor
    · intro hf
      have hs := hf.slot
      rw [hwp,hwm] at hs
      by_cases hmn : m = n
      · rw [if_pos hmn] at hs
        obtain rfl := some.inj hs
        exact absurd rfl hf.used
      · rw [if_neg hmn,hsame] at hs
        exact ⟨hd,fun h => hmn h.2,hn.live,hn.dir,hs,hf.used⟩
    · rintro ⟨-,hmn,hf⟩
      refine ⟨by rw [hwl,update_of_ne hd,hn.live],by rw [hwp,hn.dir],?_,hf.used⟩
      rw [hwp,hwm,if_neg fun h => hmn ⟨rfl,h⟩, hsame,hf.slot]

lemma Vol.Unlinks.type {parent ino : UInt32} (h : v.Unlinks parent n ino w) (hk : k ≠ ino) :
    (w.inode k).type = (v.inode k).type := by
  by_cases hkp : k = parent
  · rw [hkp,h.record]
  · rw [(h.other k hk hkp).inode]

lemma Vol.Unlinks.named {parent : UInt32} (h : v.Unlinks parent n e.ino w) (hN : v.Named)
    (hn : v.Names parent n e) : w.Named := by
  have hroot := (hN.ne_root hn).symm
  -- what is left leads elsewhere, as no other name led to the inode
  have hold {d' m' f} (hf : w.Names d' m' f) : v.Names d' m' f ∧ f.ino ≠ e.ino := by
    obtain ⟨-,hne,hv⟩ := h.names.mp hf
    exact ⟨hv,fun he => hne (hN.once hv hn he)⟩
  refine ⟨by rw [h.live,update_of_ne hroot,hN.rootLive],by rw [h.type hroot,hN.rootDir],
    fun {d m f} hf => ?_,fun {d m f} hf => hN.valid (hold hf).1,fun {d m f} hf => hN.ne_root (hold hf).1,
    fun {d m f} hf => ?_,fun {d m f d' m' f'} hf hf' => hN.once (hold hf).1 (hold hf').1⟩
  · rw [h.live,update_of_ne (hold hf).2,hN.live (hold hf).1]
  · rw [h.type (hold hf).2]
    exact hN.type (hold hf).1

/-- What a call does to the names. -/
inductive Vol.Renames (v : Vol) : Call → ℤ → Vol → Prop
  | keeps {c r w} (keeps : v.Keeps w) : Renames v c r w
  | create {path parent leaf n r w} (split : v.Parent (path.map Subtype.val) parent leaf)
      (links : v.Links parent n r typeFile leaf w) : Renames v (.create path) r.toNat w
  | mkdir {path parent leaf n r w} (split : v.Parent (path.map Subtype.val) parent leaf)
      (links : v.Links parent n r typeDir leaf w) : Renames v (.mkdir path) r.toNat w
  | unlink {path parent n e w} (victim : v.Victim (path.map Subtype.val) parent n e)
      (file : (v.inode e.ino).type ≠ typeDir) (gone : v.Unlinks parent n e.ino w) :
      Renames v (.unlink path) 0 w
  | rmdir {path parent n e w} (victim : v.Victim (path.map Subtype.val) parent n e)
      (dir : (v.inode e.ino).type = typeDir)
      (empty : ∀ m < (v.inode e.ino).slots, ∃ d, v.slot (v.inode e.ino) m = some d ∧ d.ino = 0)
      (gone : v.Unlinks parent n e.ino w) : Renames v (.rmdir path) 0 w

lemma Vol.keeps_setInode (hi : v.live i = false) (y : Inode) : v.Keeps (v.setInode i y) := by
  have hne {k : UInt32} (hk : v.live k = true) : k ≠ i := by
    rintro rfl
    rw [hi] at hk
    exact absurd hk (by decide)
  refine ⟨rfl,fun k hk => ?_,fun {d m e} hn => ?_⟩
  · rw [(v.same_setInode y (hne hk)).inode]
  · have hl : v.live d = true := hn.live
    exact ((v.same_setInode y (hne hl)).names rfl).mp hn

lemma Creates.renames {parent type r : UInt32} (h : Creates v parent name type r w)
    (ho : v.Owned) (hp : v.live parent = true) : v.Keeps w ∨ ∃ n, v.Links parent n r type name w := by
  rcases h.spec ho hp with (rfl | ⟨ino,new,rfl⟩) | hlinks
  · exact .inl (.refl _)
  · exact .inl (Vol.keeps_setInode new.free _)
  · exact .inr hlinks

lemma Happens.renames {c : Call} (h : Happens v c r w) (ho : v.Owned) (hN : v.Named) :
    v.Renames c r w := by
  cases h with
  | createMiss | mkdirMiss | unlinkMiss | rmdirMiss => exact .keeps (.refl v)
  | create split made =>
    rcases made.renames ho (hN.parent split) with hk | ⟨n,hl⟩
    · exact .keeps hk
    · exact .create split hl
  | mkdir split made =>
    rcases made.renames ho (hN.parent split) with hk | ⟨n,hl⟩
    · exact .keeps hk
    · exact .mkdir split hl
  | unlink victim file gone =>
    have hn := hN.victim victim
    obtain ⟨rfl,hu⟩ := gone.spec ho hN hn fun he => file (he ▸ hn.dir)
    exact .unlink victim file hu
  | @rmdir path parent n e _ _ victim dir _ empty gone =>
    have hn := hN.victim victim
    -- an empty directory is not the one that holds the name
    have hne : parent ≠ e.ino := by
      intro he
      obtain ⟨_,_,hf⟩ := id victim
      obtain ⟨f,hs,hz⟩ := empty n (he ▸ hf.lt)
      rw [← he,hf.slot] at hs
      exact hf.used (some.inj hs ▸ hz)
    obtain ⟨rfl,hu⟩ := gone.spec ho hN hn hne
    exact .rmdir victim dir empty hu
  | write went => exact .keeps (went.keeps ho)
  | truncate cut => exact .keeps (cut.keeps ho)

lemma Vol.Renames.named {c : Call} (h : v.Renames c r w) (hN : v.Named) : w.Named := by
  cases h with
  | keeps keeps => exact keeps.named hN
  | create _ links => exact links.named hN (.inl rfl)
  | mkdir _ links => exact links.named hN (.inr rfl)
  | unlink victim _ gone | rmdir victim _ _ gone => exact gone.named hN (hN.victim victim)

lemma imageVol_no_names (d : UInt32) (m : ℕ) (e : Dirent) : ¬ imageVol.Names d m e := by
  intro hn
  obtain ⟨-,-,he⟩ := Vol.slot_eq_some.mp hn.slot
  have hz : Dirent.zero = e := (Dirent.ofBlock_zero (m%64)).symm.trans he
  exact hn.used (hz ▸ rfl)

lemma imageVol_named : imageVol.Named where
  rootLive := by decide
  rootDir := by rw [imageVol_root]; rfl
  live hn := absurd hn (imageVol_no_names _ _ _)
  valid hn := absurd hn (imageVol_no_names _ _ _)
  ne_root hn := absurd hn (imageVol_no_names _ _ _)
  type hn := absurd hn (imageVol_no_names _ _ _)
  once hn := absurd hn (imageVol_no_names _ _ _)

lemma named_after (es : List Event) : (fresh.after es).Sound ∧ (fresh.after es).vol.Named :=
  fresh_sound.after (fun _ _ _ _ ho hN hh => (hh.renames ho hN).named hN)
    (fresh_vol.symm ▸ imageVol_named) es

lemma strEqFrom_newDirent (ino : UInt32) {a : List UInt8} (ha : 0 ∉ a) (hlen : a.length < 60)
    {s : List UInt8} (hs : 0 ∉ s) {k : ℕ} (hk : k ≤ a.length) :
    strEqFrom (newDirent ino a).name k s = true ↔ a.drop k = s := by
  have hget {j : ℕ} (hj : j ≤ a.length) : (newDirent ino a).name.get j = (a[j]?).getD 0 :=
    Bytes.get_ofFn (fun k => (a[k]?).getD 0) (by omega)
  induction s generalizing k with
  | nil =>
    rw [strEqFrom,hget hk,beq_iff_eq,drop_eq_nil_iff]
    by_cases hlt : k < a.length
    · rw [getElem?_eq_getElem hlt,getD_some]
      exact ⟨fun h0 => absurd (h0 ▸ getElem_mem hlt) ha,fun h => absurd hlt (by omega)⟩
    · rw [getElem?_eq_none (by omega)]
      exact ⟨fun _ => by omega,fun _ => rfl⟩
  | cons c s ih =>
    rw [mem_cons,not_or] at hs
    have hc : c ≠ 0 := Ne.symm hs.1
    rw [strEqFrom,hget hk]
    by_cases hlt : k < a.length
    · have h0 : a[k] ≠ 0 := fun h0 => ha (h0 ▸ getElem_mem hlt)
      have hrest := ih hs.2 (k := k+1) hlt
      rw [getElem?_eq_getElem hlt,getD_some,if_pos ⟨h0,hc⟩,Bool.and_eq_true,beq_iff_eq,
        drop_eq_getElem_cons hlt,List.cons.injEq]
      exact and_congr_right fun _ => hrest
    · rw [getElem?_eq_none (by omega),if_neg fun h => h.1 rfl, drop_eq_nil_of_le (by omega)]
      simp [hs.1]

lemma strEq_newDirent (ino : UInt32) {a : List UInt8} (ha : 0 ∉ a) (hlen : a.length < nameMax)
    {s : List UInt8} (hs : 0 ∉ s) : strEq (newDirent ino a).name s = true ↔ a = s :=
  strEqFrom_newDirent ino ha hlen hs (Nat.zero_le _)

lemma trimSlashes_subset (p : List UInt8) : trimSlashes p ⊆ p := fun c hc => by
  unfold trimSlashes at hc
  rw [mem_reverse] at hc
  exact List.mem_reverse.mp ((dropWhile_sublist _).subset hc)

lemma splitPath_leaf {p parent leaf : List UInt8} (h : splitPath p = some (parent,leaf)) :
    leaf ⊆ p ∧ leaf.length ≠ 0 ∧ leaf.length < nameMax := by
  unfold splitPath at h
  dsimp only at h
  split_ifs at h with h1 h2 h3 h4
  obtain ⟨-,rfl⟩ := Prod.mk.inj (some.inj h)
  rw [not_or] at h2
  refine ⟨fun c hc => ?_,h2.1,by omega⟩
  exact (dropWhile_sublist _).subset (mem_of_mem_drop (trimSlashes_subset _ hc))

lemma Vol.Parent.leaf {path : Option CString} {leaf : List UInt8}
    (h : v.Parent (path.map Subtype.val) d leaf) : 0 ∉ leaf ∧ leaf.length ≠ 0 ∧ leaf.length < nameMax := by
  obtain ⟨p,q,hp,hs,-⟩ := h
  obtain ⟨s,-,rfl⟩ := Option.map_eq_some_iff.mp hp
  obtain ⟨hsub,hlen⟩ := splitPath_leaf hs
  exact ⟨fun h0 => s.2 (hsub h0),hlen⟩

end VibeOS.Osfs2

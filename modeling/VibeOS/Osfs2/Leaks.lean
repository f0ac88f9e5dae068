import VibeOS.Osfs2.Names
import Mathlib.Order.Interval.Finset.Nat

/-! What a call that reports a failure leaves behind: nothing, but for the indirect block that
`resolve_block` does not give back when the disk has no block left for the data. -/
namespace VibeOS.Osfs2
open Function Option
open VibeOS.Storage

variable {v w : Vol} {x y : Inode} {i k : UInt32} {b : UInt32}

/-- The bitmaps, the records of the allocated inodes and the slots of the allocated
directories are the same. -/
structure Unchanged (v w : Vol) : Prop where
  live : w.live = v.live
  used : w.used = v.used
  record : ∀ i, v.live i = true → w.inode i = v.inode i
  slot : ∀ i, v.live i = true → (v.inode i).type = typeDir → w.slot (w.inode i) = v.slot (v.inode i)

lemma Unchanged.refl (v : Vol) : Unchanged v v := ⟨rfl,rfl,fun _ _ => rfl,fun _ _ _ => rfl⟩

def Call.Fails : Call → ℤ → Prop
  | .create _, r => r = 0
  | .mkdir _, r => r = 0
  | .write .., r => r = -1
  | _, _ => False

/-- A write whose first block is behind an indirect block that is not there, on a disk with a
single free block. -/
structure StrandsBlock (v : Vol) (i : UInt32) (offset len : UInt64) : Prop where
  ok : Writable v i offset len
  far : 16 ≤ lbnAt offset 0
  near : lbnAt offset 0 < 1040
  hole : (v.inode i).indirect = 0
  last : ∃ b, v.Fresh b ∧ (v.take b).Full

def Call.Strands (v : Vol) : Call → Prop
  | .write ino offset _ len => StrandsBlock v ino offset len
  | _ => False

lemma Vol.Fresh.not_full (h : v.Fresh b) : ¬ v.Full := fun hf => by
  have hu := h.2
  rw [hf b h.1] at hu
  exact absurd hu (by decide)

lemma Creates.unchanged {parent type : UInt32} {name : List UInt8} (h : Creates v parent name type 0 w) :
    Unchanged v w := by
  generalize hr : (0 : UInt32) = r at h
  cases h with
  | badName | noParent | taken | noInode => exact .refl v
  | existing _ _ _ _ valid => exact absurd hr.symm valid.1
  | made _ _ _ _ new => exact absurd hr.symm new.valid.1
  | noRoom new =>
    have hne {k : UInt32} (hk : v.live k = true) : v.Same (v.setInode _ (newInode type)) k :=
      Vol.same_setInode v _ fun he => absurd (he ▸ hk) (by rw [new.free]; decide)
    exact ⟨rfl,rfl,fun k hk => (hne hk).inode,fun k hk _ => (hne hk).slot⟩

variable {src : ℕ → UInt8}

lemma Writes.unchanged_iff {offset len : UInt64} (h : Writes v i offset src len (-1) w)
    (ho : v.Owned) : Unchanged v w ↔ ¬ StrandsBlock v i offset len := by
  generalize hr : (-1 : ℤ) = r at h
  cases h with
  | nothing => exact absurd hr (by decide)
  | refused _ why => exact ⟨fun _ hs => why hs.ok,fun _ => .refl v⟩
  | wrote => omega
  | full ok none =>
    rcases none.of_zero with ⟨rfl,-,hwhy⟩ | ⟨b,h16,hlt,h0,fresh,full,rfl⟩
    · refine ⟨fun _ hs => ?_,fun _ => .refl _⟩
      obtain ⟨c,fresh,-⟩ := hs.last
      have hnear := hs.near
      exact hwhy.elim (fun hfar => absurd hnear (by omega)) fresh.not_full
    · refine ⟨fun hu => ?_,fun hs => absurd ⟨ok,h16,hlt,h0,b,fresh,full⟩ hs⟩
      have hb := congrFun hu.used b
      rw [Vol.take_used,update_self,fresh.2] at hb
      exact absurd hb (by decide)

variable {r : ℤ}

lemma Happens.unchanged_iff {c : Call} (h : Happens v c r w) (ho : v.Owned) (hf : c.Fails r) :
    Unchanged v w ↔ ¬ c.Strands v := by
  cases h with
  | createMiss | mkdirMiss => exact ⟨fun _ hs => hs,fun _ => .refl v⟩
  | @create _ _ _ s _ _ made | @mkdir _ _ _ s _ _ made =>
    have h0 : s = 0 := UInt32.toNat_inj.mp (Int.natCast_eq_zero.mp hf)
    subst h0
    exact ⟨fun _ hs => hs,fun _ => made.unchanged⟩
  | unlinkMiss | unlink | rmdirMiss | rmdir | truncate => exact hf.elim
  | write went =>
    obtain rfl : _ = (-1 : ℤ) := hf
    exact went.unchanged_iff ho

/-- In every reachable state, a create, mkdir or write that reports a failure leaves the file
system as it was, unless it takes the last free block for an indirect block. -/
theorem failed_call_unchanged (es : List Event) (c : Call) (hf : c.Fails ((fresh.after es).call c).1) :
    Unchanged (fresh.after es).vol ((fresh.after es).call c).2.vol ↔ ¬ c.Strands (fresh.after es).vol := by
  have hs := (named_after es).1
  exact (hs.call c).2.unchanged_iff hs.owned hf

/-- A path that is not given cannot be created. -/
theorem failed_call_unchanged_create : Unchanged fresh.vol (fresh.call (.create none)).2.vol ↔
    ¬ Call.Strands fresh.vol (.create none) := by
  refine failed_call_unchanged [] (.create none) ?_
  have hh := (fresh_sound.call (.create none)).2
  change (fresh.call (.create none)).1 = 0
  generalize (fresh.call (.create none)).1 = r, (fresh.call (.create none)).2.vol = w at hh ⊢
  cases hh with
  | createMiss => rfl
  | create split =>
    obtain ⟨p,_,hp,-⟩ := split
    exact absurd hp (by simp)

/-! ### A run that strands a block

Seventeen files are made, the first gets one block, and the others take all that is left. When
the first file is cut to nothing one block is free, and a write behind its direct blocks takes
it for the indirect block. -/

lemma StrandsBlock.fails {offset len : UInt64}
    (hs : StrandsBlock v i offset len) (h : Writes v i offset src len r w) : r = -1 := by
  obtain ⟨c,-,hfull⟩ := hs.last
  cases h with
  | nothing h0 => exact absurd h0 hs.ok.nonempty
  | refused | full => rfl
  | wrote _ _ _ _ first =>
    have hfar := hs.far
    obtain ⟨r,z,u,h0,hr,-⟩ := first
    cases hr with
    | far | full | stranded => exact absurd rfl h0
    | found hit =>
      refine absurd ?_ hit
      rw [Vol.ptr_of_ge _ _ hfar,Vol.entry,if_pos hs.hole,ite_self]
    | both _ _ _ fresh att =>
      -- a second block would be needed
      obtain ⟨c,hc,hfull⟩ := hs.last
      have hc' := hfull _ att.fresh.1
      rw [Vol.take_used,update_apply] at hc'
      have hb := att.fresh.2
      rw [Vol.take_used,update_apply] at hb
      split_ifs at hb hc' with h1 h2
      · have hbc := hfull _ fresh.1
        rw [Vol.take_used,update_apply,fresh.2] at hbc
        split_ifs at hbc with h3
        · exact absurd (h2.trans h3.symm) h1
      · rw [hb] at hc'
        exact absurd hc' (by decide)
    | attach _ att here =>
      cases att with
      | direct k _ fresh =>
        rw [Vol.ptr_of_ge _ _ hfar] at here
        have hz : (v.inode i).indirect = 0 := hs.hole
        unfold Vol.entry at here
        rw [if_pos hz,ite_self] at here
        exact absurd here.symm h0
      | indirect _ fresh =>
        rw [Vol.ptr_of_ge _ _ hfar,Vol.entry,if_neg fresh.1.ne_zero,Vol.take_data,update_self,
          tableAt_zero,ite_self] at here
        exact absurd here.symm h0
      | entry _ tier => exact absurd hs.hole tier

def letter (k : ℕ) : CString := ⟨[UInt8.ofNat (97 + k%26)],by
  rw [List.mem_singleton,← UInt8.toNat_inj,UInt8.toNat_ofNat']
  change ¬ 0 = _
  omega⟩

def letterIno (k : ℕ) : UInt32 := UInt32.ofNat (2+k)

def fillCalls : List Event :=
  (List.range 17).map (fun k => .call (.create (some (letter k)))) ++
  [.call (.write 2 0 (fun _ => 0) 1)] ++
  (List.range 16).map (fun j => .call (.write (letterIno (1+j)) 0 (fun _ => 0) 4259840)) ++
  [.call (.truncate 2 0)]

variable {k : ℕ}

lemma letterIno_toNat (hk : k < 26) : (letterIno k).toNat = 2+k := by
  rw [letterIno,UInt32.toNat_ofNat']
  omega

lemma letterIno_valid (hk : k < 26) : validInode (letterIno k) := by
  have ht := letterIno_toNat hk
  refine ⟨fun h0 => ?_,by omega⟩
  rw [h0] at ht
  change 0 = _ at ht
  omega

lemma letterIno_inj {j k : ℕ} (hj : j < 26) (hk : k < 26) (h : letterIno j = letterIno k) : j = k := by
  have ht := congrArg UInt32.toNat h
  rw [letterIno_toNat hj,letterIno_toNat hk] at ht
  omega

lemma letterIno_ne_root (hk : k < 26) : letterIno k ≠ inodeRoot := by
  intro he
  have ht := letterIno_toNat hk
  rw [he] at ht
  change 1 = _ at ht
  omega

lemma letter_inj {j k : ℕ} (hj : j < 26) (hk : k < 26) (h : (letter j).val = (letter k).val) : j = k := by
  have hc := congrArg UInt8.toNat (List.singleton_inj.mp h)
  rw [UInt8.toNat_ofNat',UInt8.toNat_ofNat'] at hc
  omega

lemma splitPath_single {c : UInt8} (hc : c ≠ slash) : splitPath [c] = some ([],[c]) := by
  simp [splitPath,hc,leafStart,trimSlashes,nameMax,Ne.symm hc]

lemma splitPath_letter (k : ℕ) : splitPath (letter k).val = some ([],(letter k).val) := by
  refine splitPath_single ?_
  rw [ne_eq,← UInt8.toNat_inj,UInt8.toNat_ofNat']
  change ¬ _ = 47
  omega

/-- The root names the first `k` letters, which are empty files, and nothing else is there. -/
structure Letters (k : ℕ) (v : Vol) : Prop where
  rootDir : (v.inode inodeRoot).type = typeDir
  slots : (v.inode inodeRoot).slots = k
  block : v.ptr (v.inode inodeRoot) 0 ≠ 0
  slot : ∀ j < k, v.slot (v.inode inodeRoot) j = some (newDirent (letterIno j) (letter j).val)
  live : ∀ i, validInode i → i ≠ inodeRoot → (v.live i = true ↔ i.toNat < 2+k)
  file : ∀ j < k, v.inode (letterIno j) = newInode typeFile
  used : ∀ b, v.used b = decide (b.toNat < 101)

lemma Letters.not_full (h : Letters k v) : ¬ v.Full := fun hf => by
  have hu := hf 101 (by decide)
  rw [h.used] at hu
  exact absurd hu (by decide)

lemma imageVol_letters : Letters 0 imageVol := by
  refine ⟨imageVol_root ▸ rfl,imageVol_root ▸ rfl,?_,fun j hj => absurd hj (by omega),fun i hi hne => ?_,
    fun j hj => absurd hj (by omega),fun b => rfl⟩
  · have h := imageVol_own inodeRoot (.lbn 0)
    rw [if_pos ⟨rfl,rfl⟩,Vol.own_lbn] at h
    rw [h]
    decide
  · have h0 : i = 0 ↔ i.toNat = 0 := by rw [← UInt32.toNat_inj]; rfl
    have h1 : i = inodeRoot ↔ i.toNat = 1 := by rw [← UInt32.toNat_inj]; rfl
    rw [validInode,ne_eq,h0] at hi
    rw [ne_eq,h1] at hne
    change decide (i = 0 ∨ i = inodeRoot) = true ↔ _
    rw [decide_eq_true_iff,h0,h1]
    omega

lemma Letters.step (hk : k < 26) (h : Letters k v) (ho : v.Owned) (hN : v.Named)
    (hh : Happens v (.create (some (letter k))) r w) : Letters (k+1) w := by
  have hparent : v.Parent (some (letter k).val) inodeRoot (letter k).val :=
    ⟨_,_,rfl,splitPath_letter k,rfl,by decide,h.rootDir⟩
  have hmiss {m : ℕ} {e : Dirent} : ¬ v.Entry (v.inode inodeRoot) (letter k).val m e := by
    intro he
    have hlt := he.lt
    rw [h.slots] at hlt
    have hs := he.slot
    rw [h.slot m hlt] at hs
    obtain rfl := some.inj hs
    have heq := (strEq_newDirent (letterIno m) (letter m).2 (by simp [letter,nameMax]) (letter k).2).mp he.called
    have hmk := letter_inj (by omega) hk heq
    omega
  have hroot := letterIno_ne_root hk
  have hino : v.live (letterIno k) = false := by
    have hl := h.live _ (letterIno_valid hk) hroot
    rw [letterIno_toNat hk] at hl
    rw [← Bool.not_eq_true,hl]
    omega
  -- the only outcome is that the slot after the last one is taken
  have hmade {r : UInt32} (made : Creates v inodeRoot (letter k).val typeFile r w) :
      v.Links inodeRoot k r typeFile (letter k).val w ∧ w.used = v.used := by
    cases made with
    | badName hbad => exact absurd hbad (by simp [letter,nameMax])
    | noParent hno => exact absurd ⟨by decide,h.rootDir⟩ hno
    | taken hit | existing hit => exact absurd hit.toEntry hmiss
    | noInode hall => exact absurd (hall _ (letterIno_valid hk) hroot) (by rw [hino]; decide)
    | noRoom _ _ why =>
      rw [h.slots] at why
      exact why.elim (fun hfar => absurd hk (by omega)) fun hf => absurd hf h.not_full
    | made _ _ _ _ new found slot =>
      have hl := slot.links ho hN.rootLive h.rootDir new found
      cases slot with
      | reuse he =>
        obtain ⟨hlt,e,he,hz⟩ := found.empty _ he
        rw [h.slots] at hlt
        rw [h.slot _ hlt] at he
        obtain rfl := some.inj he
        exact absurd hz (letterIno_valid (hlt.trans hk)).1
      | extend => exact ⟨h.slots ▸ hl,rfl⟩
      | block _ _ hole =>
        rw [h.slots,Nat.div_eq_of_lt (by omega)] at hole
        exact absurd hole h.block
  generalize hp : some (letter k) = path at hh
  cases hh with
  | createMiss miss =>
    subst hp
    exact absurd hparent (miss _ _)
  | @create _ parent leaf r _ split made =>
    subst hp
    obtain ⟨rfl,rfl⟩ : parent = inodeRoot ∧ leaf = (letter k).val := by
      obtain ⟨p,q,hp,hs,hw,-⟩ := split
      obtain rfl := some.inj hp
      rw [splitPath_letter] at hs
      obtain ⟨rfl,rfl⟩ := Prod.mk.inj (some.inj hs)
      exact ⟨hw,rfl⟩
    obtain ⟨hl,hused⟩ := hmade made
    have hr : r = letterIno k := by
      rw [← UInt32.toNat_inj,letterIno_toNat hk]
      have hfree := (h.live r hl.new.valid hl.new.ne_root).not.mp (by rw [hl.new.free]; decide)
      by_contra hne
      refine absurd (hl.new.first _ (letterIno_valid hk) hroot ?_) (by rw [hino]; decide)
      rw [UInt32.lt_iff_toNat_lt,letterIno_toNat hk]
      omega
    subst hr
    have hnames {j : ℕ} (hj : j < k+1) : w.Names inodeRoot j (newDirent (letterIno j) (letter j).val) := by
      rw [hl.names]
      by_cases hjk : j = k
      · exact .inl ⟨rfl,hjk,hjk ▸ rfl⟩
      · exact .inr ⟨fun h => hjk h.2,hN.rootLive,h.rootDir,h.slot j (by omega),
          (letterIno_valid (by omega)).1⟩
    refine ⟨(hl.type _ hroot.symm).trans h.rootDir,?_,(Vol.slot_eq_some.mp (hnames (Nat.zero_lt_succ k)).slot).2.1,
      fun j hj => (hnames hj).slot,fun i hi hne => ?_,fun j hj => ?_,fun b => by rw [hused,h.used]⟩
    · have h1 := hl.lt
      have h2 := hl.top
      rw [h.slots] at h2
      omega
    · rw [hl.live,update_apply]
      split_ifs with hik
      · rw [hik,letterIno_toNat hk]
        exact ⟨fun _ => by omega,fun _ => rfl⟩
      · have hne' : i.toNat ≠ 2+k := fun he =>
          hik (UInt32.toNat_inj.mp (he.trans (letterIno_toNat hk).symm))
        rw [h.live i hi hne]
        omega
    · by_cases hjk : j = k
      · rw [hjk,hl.record]
      · have hne : letterIno j ≠ letterIno k := fun he => hjk (letterIno_inj (by omega) hk he)
        rw [(hl.other _ hne (letterIno_ne_root (by omega))).inode,h.file j (by omega)]

/-- The first file has the block `b`, and the files up to the `j`-th after it are as large as a
file gets, unless the disk is full. -/
structure Filling (b : UInt32) (j : ℕ) (v : Vol) : Prop where
  some : b ≠ 0
  first : ∀ p, v.own (2,p) = if p = .lbn 0 then b else 0
  file : ∀ k < 17, (v.inode (letterIno k)).type = typeFile
  filled : v.Full ∨ ∀ i < j, ∀ n < 1040, v.own (letterIno (1+i),.lbn n) ≠ 0

lemma Vol.pointer_empty (v : Vol) (h : v.inode i = newInode typeFile) (p : Vol.Pos) : v.own (i,p) = 0 := by
  rw [Vol.own_self h,Vol.pointer_newInode]

lemma Letters.first (h : Letters 17 v) (hw : Writes v 2 0 (fun _ => 0) 1 r w) (ho : v.Owned) :
    ∃ b, Filling b 0 w := by
  have hempty : v.inode 2 = newInode typeFile := h.file 0 (by omega)
  have h0 : lbnAt 0 0 = 0 := rfl
  obtain ⟨-,hty,-,hsame⟩ := hw.frame ho
  have hfile (k : ℕ) (hk : k < 17) : (w.inode (letterIno k)).type = typeFile := by
    rcases hsame (letterIno k) with hs | ⟨hk2,hf⟩
    · rw [hs.inode,h.file k hk,newInode_type]
    · rw [hk2,hty,hempty,newInode_type]
  cases hw with
  | nothing hz => exact absurd hz (by decide)
  | refused _ why => exact absurd ⟨by decide,by decide,by decide,hempty ▸ rfl⟩ why
  | full _ none =>
    rcases none.of_zero with ⟨-,-,hfar | hfull⟩ | ⟨b,hfar,-⟩
    · exact absurd hfar (by rw [h0]; omega)
    · exact absurd hfull h.not_full
    · exact absurd hfar (by rw [h0]; omega)
  | @wrote n y w _ _ _ _ first went =>
    obtain ⟨b,z,u,hb,hr,hone⟩ := first
    obtain ⟨-,hp⟩ := hone (by decide)
    have hpz : u.pointer z = update (v.pointer (v.inode 2)) (.lbn 0) b := by
      have hhere := hr.here hb
      rw [h0] at hr hhere
      cases hr with
      | far hn | both hn => exact absurd hn (by omega)
      | found hit => exact absurd (v.pointer_empty hempty (.lbn 0)) hit
      | full | stranded => exact absurd rfl hb
      | attach _ att =>
        obtain ⟨p,-,hp,-⟩ := att.pos (ho.self 2)
        by_cases hp0 : p = .lbn 0
        · rw [hp,hp0]
        · have hz : u.ptr z 0 = 0 := by
            rw [← Vol.pointer_lbn,hp,update_of_ne (Ne.symm hp0)]
            exact v.pointer_empty hempty (.lbn 0)
          exact absurd (hhere.symm.trans hz) hb
    refine ⟨b,hb,fun p => ?_,hfile,.inr fun i hi => absurd hi (by omega)⟩
    rw [Vol.own_setInode_self,Vol.pointer_record (Inode.grow_direct _ _) (Inode.grow_indirect _ _),hp,hpz,
      update_apply]
    exact if_congr Iff.rfl rfl (v.pointer_empty hempty p)

lemma Writes.fills (h : Writes v i 0 src 4259840 r w) (hi : validInode i)
    (hf : (v.inode i).type = typeFile) : w.Full ∨ ∀ n < 1040, w.own (i,.lbn n) ≠ 0 := by
  have hlen : (4259840 : UInt64).toNat = 4259840 := rfl
  cases h with
  | nothing hz => exact absurd hz (by decide)
  | refused _ why => exact absurd ⟨by decide,by decide,hi,hf⟩ why
  | full _ none =>
    rcases none.of_zero with ⟨rfl,-,hfar | hfull⟩ | ⟨b,-,-,-,-,hfull,rfl⟩
    · exact absurd hfar (by decide)
    · exact .inl hfull
    · exact .inl hfull
  | @wrote n y w _ _ le short _ went =>
    have hn : n = 4259840 ∨ w.Full := by
      rcases short with h | h | h
      · exact .inl h
      · have h0 : (0 : UInt64).toNat = 0 := rfl
        rw [lbnAt_eq (by omega)] at h
        omega
      · exact .inr h
    rcases hn with rfl | hfull
    swap
    · exact .inl hfull
    refine .inr fun m hm => ?_
    rw [Vol.own_setInode_self,Vol.pointer_record (Inode.grow_direct _ _) (Inode.grow_indirect _ _)]
    have hc := went.covers (by decide) (4096*m) (Nat.zero_le _) (by
      change _ < 0 + 4259840
      omega)
    rwa [Nat.mul_div_cancel_left _ (by omega)] at hc

lemma Vol.Full.mono (h : v.Full) (hu : ∀ b, v.used b = true → w.used b = true) : w.Full :=
  fun b hb => hu b (h b hb)

lemma Filling.step {j : ℕ} (hj : j < 16) (h : Filling b j v) (ho : v.Owned)
    (hw : Writes v (letterIno (1+j)) 0 src 4259840 r w) : Filling b (j+1) w := by
  obtain ⟨-,hty,hused,hsame⟩ := hw.frame ho
  have hne {k : ℕ} (hk : k < 26) (hkj : k ≠ 1+j) : v.Same w (letterIno k) :=
    (hsame _).resolve_right fun he => hkj (letterIno_inj hk (by omega) he.1)
  refine ⟨h.some,fun p => ?_,fun k hk => ?_,?_⟩
  · have hs : v.Same w 2 := hne (k := 0) (by omega) (by omega)
    rw [hs.own,h.first]
  · by_cases hkj : k = 1+j
    · rw [hkj,hty,h.file _ (by omega)]
    · rw [(hne (by omega) hkj).inode,h.file k hk]
  · rcases h.filled with hfull | hold
    · exact .inl (hfull.mono hused)
    · rcases hw.fills (letterIno_valid (by omega)) (h.file _ (by omega)) with hfull | hnew
      · exact .inl hfull
      · refine .inr fun i hi n hn => ?_
        by_cases hij : i = j
        · rw [hij]
          exact hnew n hn
        · rw [(hne (by omega) (by omega)).own]
          exact hold i (by omega) n hn

lemma Filling.full (h : Filling b 16 v) (ho : v.Owned) : v.Full := by
  refine h.filled.resolve_right fun hall => ?_
  have hcard := Finset.card_le_card_of_injOn (s := Finset.range 16 ×ˢ Finset.range 1040)
    (t := Finset.Ico 100 16384) (fun q => (v.own (letterIno (1+q.1),.lbn q.2)).toNat) (fun q hq => ?_)
    fun q hq q' hq' he => ?_
  · rw [Finset.card_product,Finset.card_range,Finset.card_range,Nat.card_Ico] at hcard
    omega
  · rw [Finset.mem_coe,Finset.mem_product,Finset.mem_range,Finset.mem_range] at hq
    exact Finset.mem_coe.mpr (Finset.mem_Ico.mpr (Owns.held ho _ (hall q.1 hq.1 q.2 hq.2)).1)
  · rw [Finset.mem_coe,Finset.mem_product,Finset.mem_range,Finset.mem_range] at hq hq'
    have hp := Owns.inj ho _ _ (hall q.1 hq.1 q.2 hq.2) (UInt32.toNat_inj.mp he)
    obtain ⟨h1,h2⟩ := Prod.mk.inj hp
    have h1 := letterIno_inj (by omega) (by omega) h1
    exact Prod.ext (by omega) (Vol.Pos.lbn.inj h2)

lemma Filling.strands (h : Filling b 16 v) (ho : v.Owned) (ht : Truncates v 2 0 r w) :
    StrandsBlock w 2 65536 1 := by
  have hfile : (v.inode 2).type = typeFile := h.file 0 (by omega)
  have hfull := h.full ho
  have hlbn : lbnAt 65536 0 = 16 := rfl
  cases ht with
  | refused why => exact absurd ⟨⟨by decide,.inl hfile⟩,by decide⟩ why
  | done _ _ cut =>
    have hcut : keptBlocks 0 = 0 := rfl
    rw [hcut] at cut
    have hb : v.own (2,.lbn 0) = b := by rw [h.first,if_pos rfl]
    have hzero (p : Vol.Pos) : w.own (2,p) = 0 := by
      cases p with
      | lbn n => rw [cut.lbn,if_pos (Nat.zero_le _)]
      | indirect => exact cut.empty rfl
    have hused (c : UInt32) : w.used c = true ↔ v.used c = true ∧ c ≠ b := by
      rw [cut.used]
      refine and_congr_right fun _ => ⟨fun hall => ?_,fun hc p hp _ => ?_⟩
      · rintro rfl
        exact h.some (hall _ hb (hzero _))
      · rw [h.first] at hp
        split_ifs at hp
        · exact absurd hp.symm hc
        · exact hp.symm
    have hheld : v.held b := hb ▸ Owns.held ho _ (hb.symm ▸ h.some)
    refine ⟨⟨by decide,by decide,by decide,(cut.type 2).trans hfile⟩,by rw [hlbn],by rw [hlbn]; omega,
      hzero .indirect,b,⟨hheld.1,?_⟩,fun c hc => ?_⟩
    · rw [← Bool.not_eq_true,hused]
      exact fun hu => hu.2 rfl
    · rw [Vol.take_used,update_apply]
      split_ifs with hcb
      · rfl
      · exact (hused c).mpr ⟨hfull c hc,hcb⟩

lemma fillCalls_strands : (fresh.after fillCalls).Sound ∧ StrandsBlock (fresh.after fillCalls).vol 2 65536 1 := by
  obtain ⟨h1,hl,-⟩ := fresh_sound.stages (P := fun k v => Letters k v ∧ v.Named)
    (c := fun k => .create (some (letter k))) (n := 17)
    (fun k hk v r w ho hp hh => ⟨hp.1.step (by omega) ho hp.2 hh,(hh.renames ho hp.2).named hp.2⟩)
    (fresh_vol.symm ▸ ⟨imageVol_letters,imageVol_named⟩)
  have hstep {σ : Sys} (hs : σ.Sound) (c : Call) : (σ.after [.call c]).Sound ∧
      ∃ r, Happens σ.vol c r (σ.after [.call c]).vol := ⟨(hs.call c).1,_,(hs.call c).2⟩
  obtain ⟨h2,_,hw⟩ := hstep h1 (.write 2 0 (fun _ => 0) 1)
  have hfirst := hl.first hw.writes h1.owned
  obtain ⟨h3,b,hfill⟩ := h2.stages (P := fun j v => ∃ b, Filling b j v)
    (c := fun j => .write (letterIno (1+j)) 0 (fun _ => 0) 4259840) (n := 16)
    (fun j hj v r w ho hp hh => by
      obtain ⟨b,hb⟩ := hp
      exact ⟨b,hb.step hj ho hh.writes⟩) hfirst
  obtain ⟨h4,_,ht⟩ := hstep h3 (.truncate 2 0)
  unfold fillCalls
  rw [Sys.after_append,Sys.after_append,Sys.after_append]
  exact ⟨h4,hfill.strands h3.owned ht.truncates⟩

/-- The write at the first byte behind the direct blocks fails and changes the block bitmap. -/
theorem failed_write_strands :
    ((fresh.after fillCalls).call (.write 2 65536 (fun _ => 0) 1)).1 = -1 ∧ ¬ Unchanged
      (fresh.after fillCalls).vol ((fresh.after fillCalls).call (.write 2 65536 (fun _ => 0) 1)).2.vol := by
  obtain ⟨hs,hb⟩ := fillCalls_strands
  have hh := (hs.call (.write 2 65536 (fun _ => 0) 1)).2
  have hr : ((fresh.after fillCalls).call (.write 2 65536 (fun _ => 0) 1)).1 = -1 := by
    exact hb.fails hh.writes
  exact ⟨hr,fun hu => (hh.unchanged_iff hs.owned hr).mp hu hb⟩

end VibeOS.Osfs2

import VibeOS.Osfs2.Leaks

/-! What becomes readable when a file that was cut grows again. `osfs2_truncate` gives back whole
blocks only, so the last block that it keeps still holds what was behind the new end. -/
namespace VibeOS.Osfs2
open VibeOS.Storage

variable {v w : Vol} {x y : Inode} {i s : UInt32} {pos : ℕ}

/-- The position in the blocks of the file where `osfs2_write` puts its byte `k`. It is
`offset + k` unless that is past the last block a file can have. -/
def storedAt (offset : UInt64) (k : ℕ) : ℕ := lbnAt offset k*4096 + inBlock (offset + UInt64.ofNat k)

lemma storedAt_add {offset : UInt64} {c j : ℕ} (h : inBlock (offset + UInt64.ofNat c) + j < 4096) :
    storedAt offset (c+j) = lbnAt offset c*4096 + inBlock (offset + UInt64.ofNat c) + j := by
  have hsum : (offset + UInt64.ofNat (c+j)).toNat = (offset + UInt64.ofNat c).toNat + j := by
    have hlt := (offset + UInt64.ofNat c).toNat_lt
    rw [inBlock_toNat] at h
    rw [UInt64.ofNat_add,← UInt64.add_assoc,UInt64.toNat_add,UInt64.toNat_ofNat',
      Nat.mod_eq_of_lt (a := j) (by omega)]
    omega
  rw [inBlock_toNat] at h
  unfold storedAt lbnAt
  rw [inBlock_toNat,inBlock_toNat,UInt64.toNat_toUInt32,UInt64.toNat_toUInt32,UInt64.toNat_div,UInt64.toNat_div,hsum]
  change ((_+j)/4096) % 2^32*4096 + _ = (_/4096) % 2^32*4096 + _ + _
  rw [show ((offset + UInt64.ofNat c).toNat + j)/4096 = (offset + UInt64.ofNat c).toNat/4096 by omega]
  omega

lemma byteAt_turn {offset : UInt64} (src : ℕ → UInt8) {c left : ℕ} (h : v.OwnedWith i x)
    (h0 : v.ptr x (lbnAt offset c) ≠ 0)
    (hpos : ∀ k < c + chunk (offset + UInt64.ofNat c) left, storedAt offset k ≠ pos) :
    (v.setData (v.ptr x (lbnAt offset c)) ((v.data (v.ptr x (lbnAt offset c))).splice
      (inBlock (offset + UInt64.ofNat c)) (chunk (offset + UInt64.ofNat c) left)
      fun j => src (c+j))).byteAt x pos = v.byteAt x pos := by
  have hchunk : chunk (offset + UInt64.ofNat c) left ≤ 4096 - inBlock (offset + UInt64.ofNat c) :=
    Nat.min_le_left _ _
  rw [h.byteAt_setData _ h0]
  by_cases hb : pos/4096 = lbnAt offset c
  · rw [if_pos hb,Bytes.get_splice _ _ _ _ (Nat.mod_lt _ (by omega)),if_neg]
    · unfold Vol.byteAt
      rw [hb,if_neg h0]
    · rintro ⟨hge,hlt⟩
      have hk := hpos (c + (pos%4096 - inBlock (offset + UInt64.ofNat c))) (by omega)
      rw [storedAt_add (by omega)] at hk
      omega
  · rw [if_neg hb]

lemma Does.osfs2Write_elsewhere {offset len : UInt64} {src : ℕ → UInt8} (ho : v.Owned) :
    Does (VibeOS.Osfs2.osfs2Write i offset src len) v fun r w => ∀ pos, (∀ k : ℕ, (k : ℤ) < r → storedAt offset k ≠ pos) →
      w.byteAt (w.inode i) pos = v.byteAt (v.inode i) pos := by
  refine get fun s hs _ _ _ => ?_
  rw [hs,if_neg (by decide)]
  by_cases h0 : len = 0
  · rw [if_pos h0]
    exact pure fun _ _ => rfl
  rw [if_neg h0]
  by_cases hmax : (offset + len).toNat > maxFileBytes
  · rw [if_pos hmax]
    exact pure fun _ _ => rfl
  rw [if_neg hmax]
  refine bind (readInode (fun _ => pure fun _ _ => rfl) fun hi => ?_)
  dsimp only
  by_cases hty : (v.inode i).type ≠ typeFile
  · rw [if_pos hty]
    exact pure fun _ _ => rfl
  rw [if_neg hty]
  have hfinish {x : Inode} {w : Vol} {n : ℕ} (hw : ∀ pos, (∀ k < n, storedAt offset k ≠ pos) →
      w.byteAt x pos = v.byteAt (v.inode i) pos) : Does (do
        let finish := offset + UInt64.ofNat n
        let x := if finish > x.size.toUInt64 then { x with size := finish.toUInt32 } else x
        if ← VibeOS.Osfs2.writeInode i x then return (n : ℤ) else return -1) w fun r w =>
      ∀ pos, (∀ k : ℕ, (k : ℤ) < r → storedAt offset k ≠ pos) → w.byteAt (w.inode i) pos = v.byteAt (v.inode i) pos := by
    dsimp only
    refine bind (writeInode hi ?_)
    rw [if_pos rfl]
    refine pure fun pos hpos => ?_
    rw [← hw pos fun k hk => hpos k (by omega), Vol.setInode_inode,Function.update_self]
    change w.byteAt (x.grow (offset + UInt64.ofNat n)) pos = _
    rw [Vol.byteAt_record (Inode.grow_direct _ _) (Inode.grow_indirect _ _)]
  refine bind (writeLoop (i := i) (I := fun c x w => w.OwnedWith i x ∧ (c = 0 → w = v ∧ x = v.inode i) ∧
    ∀ pos, (∀ k < c, storedAt offset k ≠ pos) → w.byteAt x pos = v.byteAt (v.inode i) pos) offset src
    (fun _ _ _ hI => hI.1) ?_ ?_ ?_ 0 (by omega) ⟨ho.self i,fun _ => ⟨rfl,rfl⟩,fun _ _ => rfl⟩)
  · intro c x w x' w' _ ⟨how,hz,hw⟩ hr
    obtain ⟨hg,hb⟩ := hr.grown how
    by_cases hc0 : c > 0
    · rw [if_pos hc0]
      exact hfinish fun pos hpos => by rw [hb,hw pos hpos]
    · rw [if_neg hc0]
      -- the record is not written back, and what it points to is as it was
      obtain ⟨rfl,rfl⟩ := hz (by omega)
      rcases hr.of_zero with ⟨rfl,-,-⟩ | ⟨b,-,-,-,fresh,-,rfl⟩
      · exact pure fun _ _ => rfl
      · exact pure fun pos _ => congrFun (ho.same_take fresh i).byteAt pos
  · intro c x w r x' w' hc ⟨how,hz,hw⟩ hr hr0
    obtain ⟨hg,hb⟩ := hr.grown how
    have hhere := hr.here hr0
    have hptr : w'.ptr x' (lbnAt offset c) ≠ 0 := hhere ▸ hr0
    refine ⟨?_,?_,fun pos hpos => ?_⟩
    · rw [← hhere]
      exact hg.owned.setData _ hptr
    · have := chunk_pos (offset + UInt64.ofNat c) (Nat.sub_pos_of_lt hc)
      omega
    · have hturn := byteAt_turn src hg.owned hptr hpos
      rw [hhere] at hturn
      rw [hturn,hb,hw pos fun k hk => hpos k (by omega)]
  · exact fun x w ⟨_,_,hw⟩ => hfinish hw

/-- A call of `osfs2_read` returns the byte for the position. -/
def Sys.Reads (σ : Sys) (i : UInt32) (pos : ℕ) (b : UInt8) : Prop :=
  ∃ (offset len : UInt64) (bs : List UInt8), (σ.exec (osfs2Read i offset len)).1 = some bs ∧
    offset.toNat ≤ pos ∧ bs[pos - offset.toNat]? = some b

lemma Sys.Sound.reads_iff {σ : Sys} (h : σ.Sound) {b : UInt8} : σ.Reads i pos b ↔
    σ.vol.Cuttable i ∧ pos < (σ.vol.inode i).size.toNat ∧ σ.vol.byteAt (σ.vol.inode i) pos = b := by
  have hread (offset len : UInt64) : (¬ σ.vol.Cuttable i ∧ (σ.exec (osfs2Read i offset len)).1 = none) ∨
      (σ.vol.Cuttable i ∧ (σ.exec (osfs2Read i offset len)).1 = some (σ.vol.bytesAt (σ.vol.inode i) offset.toNat
        (min len.toNat ((σ.vol.inode i).size.toNat - offset.toNat)))) :=
    ((Does.osfs2Read (Q := fun r _ => (¬ σ.vol.Cuttable i ∧ r = none) ∨ (σ.vol.Cuttable i ∧ r =
      some (σ.vol.bytesAt (σ.vol.inode i) offset.toNat
        (min len.toNat ((σ.vol.inode i).size.toNat - offset.toNat))))) h.owned
      (fun hbad => .inl ⟨hbad,rfl⟩) fun hi hty => .inr ⟨⟨hi,hty⟩,rfl⟩).exec h.mounts).2
  constructor
  · rintro ⟨offset,len,bs,hbs,hle,hb⟩
    rcases hread offset len with ⟨-,hno⟩ | ⟨hc,hsome⟩
    · rw [hno] at hbs
      cases hbs
    · rw [hsome] at hbs
      obtain rfl := Option.some.inj hbs
      have hlt := (List.getElem?_eq_some_iff.mp hb).1
      rw [Vol.bytesAt_length] at hlt
      rw [Vol.bytesAt,List.getElem?_map,List.getElem?_range hlt] at hb
      have hpos : offset.toNat + (pos - offset.toNat) = pos := by omega
      rw [Option.map_some,hpos] at hb
      exact ⟨hc,by omega,Option.some.inj hb⟩
  · rintro ⟨hc,hlt,hb⟩
    have hsz := (σ.vol.inode i).size.toNat_lt
    have hoff : (UInt64.ofNat pos).toNat = pos := by
      rw [UInt64.toNat_ofNat']
      omega
    rcases hread (UInt64.ofNat pos) 1 with ⟨hno,-⟩ | ⟨-,hsome⟩
    · exact absurd hc hno
    · refine ⟨UInt64.ofNat pos,1,_,hsome,hoff.le,?_⟩
      have hone : min (1 : UInt64).toNat ((σ.vol.inode i).size.toNat - (UInt64.ofNat pos).toNat) = 1 := by
        rw [hoff]
        exact Nat.min_eq_left (by change 1 ≤ _; omega)
      rw [hone,hoff,Nat.sub_self]
      exact congrArg some hb

/-- What may be done to a file after it was cut. -/
inductive Change
  | write (offset : UInt64) (src : ℕ → UInt8) (len : UInt64)
  | truncate (size : UInt32)
  | flush

def Change.event (i : UInt32) : Change → Event
  | .write offset src len => .call (.write i offset src len)
  | .truncate size => .call (.truncate i size)
  | .flush => .flush

def Sys.Stores (σ : Sys) (i : UInt32) (pos : ℕ) : Change → Prop
  | .write offset src len => ∃ k : ℕ, (k : ℤ) < (σ.call (.write i offset src len)).1 ∧ storedAt offset k = pos
  | _ => False

/-- None of the changes stores a byte at the position. -/
def Sys.Untouched (i : UInt32) (pos : ℕ) : Sys → List Change → Prop
  | _, [] => True
  | σ, c :: cs => ¬ σ.Stores i pos c ∧ Sys.Untouched i pos (σ.step (c.event i)) cs

/-- What a call of `osfs2_truncate` that returns 0 promises: the size, the bytes that stay, and
zeros behind them for whoever makes the file larger again. -/
structure TruncateLaw (σ : Sys) (i s : UInt32) : Prop where
  size : (σ.call (.truncate i s)).1 = 0 → ((σ.call (.truncate i s)).2.vol.inode i).size = s
  kept : (σ.call (.truncate i s)).1 = 0 → ∀ pos < min (σ.vol.inode i).size.toNat s.toNat, ∀ b,
    (σ.call (.truncate i s)).2.Reads i pos b ↔ σ.Reads i pos b
  zero : (σ.call (.truncate i s)).1 = 0 → ∀ (cs : List Change) (pos : ℕ) (b : UInt8), s.toNat ≤ pos →
    (σ.call (.truncate i s)).2.Untouched i pos cs →
    ((σ.call (.truncate i s)).2.after (cs.map (Change.event i))).Reads i pos b → b = 0

/-- The blocks of the file that a truncation keeps hold nothing but zeros behind the new end. -/
def Vol.ZeroTail (v : Vol) (i s : UInt32) : Prop :=
  ∀ pos, s.toNat ≤ pos → pos/4096 < keptBlocks s → v.byteAt (v.inode i) pos = 0

lemma Cut.byteAt {kept : ℕ} (h : Cut v i kept s w) (ho : v.Owned) (pos : ℕ) :
    w.byteAt (w.inode i) pos = if kept ≤ pos/4096 then 0 else v.byteAt (v.inode i) pos := by
  have hl := h.lbn (pos/4096)
  rw [Vol.own_lbn,Vol.own_lbn] at hl
  unfold Vol.byteAt
  rw [hl]
  by_cases hk : kept ≤ pos/4096
  · rw [if_pos hk,if_pos rfl,if_pos hk]
  · rw [if_neg hk,if_neg hk]
    by_cases h0 : v.ptr (v.inode i) (pos/4096) = 0
    · rw [if_pos h0,if_pos h0]
    · rw [if_neg h0,if_neg h0,h.data _ ((ho.self i).ptr_ne_indirect h0).symm]

lemma Cut.cuttable {kept : ℕ} (h : Cut v i kept s w) : w.Cuttable i ↔ v.Cuttable i := by
  unfold Vol.Cuttable
  rw [h.type]

lemma keptBlocks_le (h : s.toNat ≤ 4096*n) : keptBlocks s ≤ n := by
  unfold keptBlocks blockSize
  split_ifs <;> omega

lemma lt_keptBlocks (h : pos < s.toNat) : pos/4096 < keptBlocks s := by
  have h0 : s ≠ 0 := fun he => by
    rw [he] at h
    exact absurd h (Nat.not_lt_zero _)
  rw [keptBlocks,if_neg h0]
  unfold blockSize
  omega

lemma Truncates.succeeds {r : ℤ} (h : Truncates v i s r w) (hc : v.Cuttable i) (hs : s.toNat ≤ maxFileBytes) :
    r = 0 := by
  cases h with
  | refused why => exact absurd ⟨hc,hs⟩ why
  | done => rfl

lemma Truncates.cut {r : ℤ} (h : Truncates v i s r w) (h0 : r = 0) : Cut v i (keptBlocks s) s w := by
  cases h with
  | refused => cases h0
  | done _ _ cut => exact cut

lemma Truncates.byteAt_zero {r : ℤ} (h : Truncates v i s r w) (ho : v.Owned)
    (h0 : v.byteAt (v.inode i) pos = 0) : w.byteAt (w.inode i) pos = 0 := by
  cases h with
  | refused => exact h0
  | done _ _ cut => rw [cut.byteAt ho,h0,ite_self]

namespace Sys.Sound
variable {σ τ : Sys}

lemma truncates (h : σ.Sound) (i s : UInt32) : (σ.call (.truncate i s)).2.Sound ∧
    Truncates σ.vol i s (σ.call (.truncate i s)).1 (σ.call (.truncate i s)).2.vol :=
  ⟨(h.call (.truncate i s)).1,(h.call (.truncate i s)).2.truncates⟩

lemma zero_step (h : σ.Sound) (c : Change) (hs : ¬ σ.Stores i pos c)
    (h0 : σ.vol.byteAt (σ.vol.inode i) pos = 0) : (σ.step (c.event i)).Sound ∧
      (σ.step (c.event i)).vol.byteAt ((σ.step (c.event i)).vol.inode i) pos = 0 := by
  cases c with
  | write offset src len =>
    have hw := ((Does.osfs2Write_elsewhere h.owned).exec h.mounts).2 pos fun k hk he => hs ⟨k,hk,he⟩
    exact ⟨(h.call _).1,hw.trans h0⟩
  | truncate size =>
    obtain ⟨hs,ht⟩ := h.truncates i size
    exact ⟨hs,ht.byteAt_zero h.owned h0⟩
  | flush =>
    obtain ⟨hf,hv⟩ := h.flush
    change σ.flush.2.Sound ∧ σ.flush.2.vol.byteAt (σ.flush.2.vol.inode i) pos = 0
    rw [hv]
    exact ⟨hf,h0⟩

lemma zero_after (h : σ.Sound) {cs : List Change} (hs : σ.Untouched i pos cs)
    (h0 : σ.vol.byteAt (σ.vol.inode i) pos = 0) : (σ.after (cs.map (Change.event i))).Sound ∧
      (σ.after (cs.map (Change.event i))).vol.byteAt ((σ.after (cs.map (Change.event i))).vol.inode i) pos = 0 := by
  induction cs generalizing σ with
  | nil => exact ⟨h,h0⟩
  | cons c cs ih =>
    obtain ⟨hc,hcs⟩ := hs
    obtain ⟨h',h0'⟩ := h.zero_step c hc h0
    exact ih h' hcs h0'

/-- What is left in the last block can be read once the file is longer by one byte than its
position. -/
lemma reads_behind (h : τ.Sound) (hc : τ.vol.Cuttable i) (hs : s.toNat ≤ maxFileBytes)
    (hpos : pos/4096 < keptBlocks s) : (τ.after [.call (.truncate i (UInt32.ofNat (pos+1)))]).Reads i pos
      (τ.vol.byteAt (τ.vol.inode i) pos) := by
  have hsmall : pos+1 ≤ maxFileBytes := by
    unfold maxFileBytes maxFileBlocks directPtrs indirectPtrs blockSize at hs ⊢
    have := keptBlocks_le (s := s) (n := 1040) (by omega)
    omega
  have hsize : (UInt32.ofNat (pos+1)).toNat = pos+1 := by
    rw [UInt32.toNat_ofNat']
    exact Nat.mod_eq_of_lt (Nat.lt_of_le_of_lt hsmall (by decide))
  obtain ⟨h',ht⟩ := h.truncates i (UInt32.ofNat (pos+1))
  have hcut := ht.cut (ht.succeeds hc (hsize.symm ▸ hsmall))
  have hk : pos/4096 < keptBlocks (UInt32.ofNat (pos+1)) := lt_keptBlocks (by omega)
  refine h'.reads_iff.mpr ⟨hcut.cuttable.mpr hc,?_,?_⟩
  · rw [hcut.size_self,hsize]
    exact Nat.lt_succ_self pos
  · rw [hcut.byteAt h.owned,if_neg (by omega)]

lemma truncateLaw_iff (h : σ.Sound) (hi : validInode i) (hf : (σ.vol.inode i).type = typeFile)
    (hs : s.toNat ≤ maxFileBytes) : TruncateLaw σ i s ↔ σ.vol.ZeroTail i s := by
  have hc : σ.vol.Cuttable i := ⟨hi,.inl hf⟩
  obtain ⟨h',ht⟩ := h.truncates i s
  have h0 := ht.succeeds hc hs
  have hcut := ht.cut h0
  constructor
  · intro hl pos hge hlt
    have hr := hl.zero h0 [.truncate (UInt32.ofNat (pos+1))] pos _ hge ⟨id,trivial⟩
      (h'.reads_behind (hcut.cuttable.mpr hc) hs hlt)
    rwa [hcut.byteAt h.owned,if_neg (by omega)] at hr
  · intro hz
    refine ⟨fun _ => hcut.size_self,fun _ pos hpos b => ?_,fun _ cs pos b hge hu hr => ?_⟩
    · have hk : pos/4096 < keptBlocks s := lt_keptBlocks (by omega)
      rw [h'.reads_iff,h.reads_iff,hcut.cuttable,hcut.size_self,hcut.byteAt h.owned,if_neg (by omega)]
      exact and_congr_right fun _ => and_congr_left fun _ => ⟨fun _ => by omega,fun _ => by omega⟩
    · refine ((h'.zero_after hu ?_).1.reads_iff.mp hr).2.2.symm.trans (h'.zero_after hu ?_).2 <;>
      · rw [hcut.byteAt h.owned]
        split_ifs with hk
        · rfl
        · exact hz pos hge (by omega)

end Sys.Sound

/-- In every reachable state, a truncation of a file keeps its law, for whatever calls come after it,
exactly if the last block that it keeps holds zeros behind the new end already. -/
theorem truncate_law_iff (es : List Event) (i s : UInt32) (hi : validInode i)
    (hf : ((fresh.after es).vol.inode i).type = typeFile) (hs : s.toNat ≤ maxFileBytes) :
    TruncateLaw (fresh.after es) i s ↔ (fresh.after es).vol.ZeroTail i s :=
  (named_after es).1.truncateLaw_iff hi hf hs

def oneFile : List Event := [.call (.create (some (letter 0)))]

lemma oneFile_letters : (fresh.after oneFile).Sound ∧ Letters 1 (fresh.after oneFile).vol := by
  obtain ⟨h1,hl,-⟩ := fresh_sound.stages (P := fun k v => Letters k v ∧ v.Named)
    (c := fun k => .create (some (letter k))) (n := 1)
    (fun k hk v r w ho hp hh => ⟨hp.1.step (by omega) ho hp.2 hh,(hh.renames ho hp.2).named hp.2⟩)
    (fresh_vol.symm ▸ ⟨imageVol_letters,imageVol_named⟩)
  exact ⟨h1,hl⟩

lemma oneFile_file : (fresh.after oneFile).vol.inode 2 = newInode typeFile :=
  oneFile_letters.2.file 0 Nat.one_pos

/-- A file without bytes is cut to nothing. -/
theorem truncate_law_iff_empty : TruncateLaw (fresh.after oneFile) 2 0 ↔ (fresh.after oneFile).vol.ZeroTail 2 0 :=
  truncate_law_iff oneFile 2 0 (by decide) (congrArg Inode.type oneFile_file) (by decide)

lemma Letters.second (h : Letters 1 v) {r : ℤ} (hw : Writes v 2 1 (fun _ => 65) 1 r w) :
    (w.inode 2).type = typeFile ∧ w.byteAt (w.inode 2) 1 = 65 := by
  have hempty : v.inode 2 = newInode typeFile := h.file 0 Nat.one_pos
  have h0 : lbnAt 1 0 = 0 := rfl
  cases hw with
  | nothing hz => exact absurd hz (by decide)
  | refused _ why => exact absurd ⟨by decide,by decide,by decide,hempty ▸ rfl⟩ why
  | full _ none =>
    rcases none.of_zero with ⟨-,-,hfar | hfull⟩ | ⟨b,hfar,-⟩
    · exact absurd hfar (by rw [h0]; omega)
    · exact absurd hfull h.not_full
    · exact absurd hfar (by rw [h0]; omega)
  | @wrote n y w _ hn hle _ _ went =>
    obtain rfl : n = 1 := Nat.le_antisymm hle hn
    have hb := went.bytes (by decide) 1
    rw [if_pos (by decide)] at hb
    rw [Vol.setInode_inode,Function.update_self,Inode.grow_type]
    refine ⟨?_,?_⟩
    · rw [went.grown.record,hempty]
      rfl
    · rw [← hb]
      exact congrFun (Vol.byteAt_record (Inode.grow_direct _ _) (Inode.grow_indirect _ _)) 1

/-- A byte that is cut off comes back when the file grows. -/
theorem truncate_law_fails : ¬ TruncateLaw (fresh.after (oneFile ++ [.call (.write 2 1 (fun _ => 65) 1)])) 2 1 := by
  obtain ⟨hs,hl⟩ := oneFile_letters
  rw [Sys.after_append]
  have hstep (c : Call) : ((fresh.after oneFile).after [.call c]).Sound ∧
      ∃ r, Happens (fresh.after oneFile).vol c r ((fresh.after oneFile).after [.call c]).vol :=
    ⟨(hs.call c).1,_,(hs.call c).2⟩
  obtain ⟨h',_,hw⟩ := hstep (.write 2 1 (fun _ => 65) 1)
  obtain ⟨hf,hb⟩ := hl.second hw.writes
  rw [h'.truncateLaw_iff (by decide) hf (by decide)]
  exact fun hz => absurd (hb.symm.trans (hz 1 le_rfl (by decide))) (by decide)

end VibeOS.Osfs2

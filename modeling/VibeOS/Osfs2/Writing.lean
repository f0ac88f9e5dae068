import VibeOS.Osfs2.Contents

/-! What `osfs2_read` and `osfs2_write` do to a volume: the loops over the blocks of a file,
with the early exits on a full disk. -/
namespace VibeOS.Osfs2
open VibeOS.Storage

/-- The logical block that the loops look at after `consumed` bytes. -/
def lbnAt (offset : UInt64) (consumed : ℕ) : ℕ :=
  ((offset + UInt64.ofNat consumed) / 4096).toUInt32.toNat

lemma pos_toNat {offset : UInt64} {consumed : ℕ} (h : offset.toNat + consumed < 2^64) :
    (offset + UInt64.ofNat consumed).toNat = offset.toNat + consumed := by
  rw [UInt64.toNat_add,UInt64.toNat_ofNat']
  omega

lemma inBlock_toNat (pos : UInt64) : inBlock pos = pos.toNat % 4096 := UInt64.toNat_mod pos 4096

lemma lbnAt_eq {offset : UInt64} {consumed : ℕ} (h : offset.toNat + consumed < 2^44) :
    lbnAt offset consumed = (offset.toNat + consumed) / 4096 := by
  have hpos : (offset + UInt64.ofNat consumed).toNat = offset.toNat + consumed := pos_toNat (by omega)
  have hdiv : ((offset + UInt64.ofNat consumed) / 4096).toNat = (offset.toNat + consumed) / 4096 := by
    rw [UInt64.toNat_div,hpos]
    rfl
  rw [lbnAt,UInt64.toNat_toUInt32,hdiv]
  omega

lemma splice_full {n : ℕ} (b c : Bytes n) (f : ℕ → UInt8) : b.splice 0 n f = c.splice 0 n f := by
  apply Bytes.ext_get
  intro i hi
  rw [Bytes.get_splice _ _ _ _ hi,Bytes.get_splice _ _ _ _ hi,if_pos (by omega),if_pos (by omega)]

variable {v v' : Vol} {x x' : Inode} {i : UInt32}

namespace Does

/-- The rule for the loop of `osfs2_write`: an invariant of the bytes consumed, the pending
inode and the volume that every turn keeps. -/
lemma writeLoop {Q : Option (Inode × ℕ) → Vol → Prop} (I : ℕ → Inode → Vol → Prop)
    (offset : UInt64) (src : ℕ → UInt8) {len : ℕ} (own : ∀ c x v, I c x v → v.OwnedWith i x)
    (stop : ∀ c x v x' v', c < len → I c x v → Resolves v x (lbnAt offset c) 0 x' v' →
      Q (if c > 0 then some (x',c) else none) v')
    (turn : ∀ c x v r x' v', c < len → I c x v → Resolves v x (lbnAt offset c) r x' v' → r ≠ 0 →
      I (c + chunk (offset + UInt64.ofNat c) (len - c)) x' (v'.setData r ((v'.data r).splice
        (inBlock (offset + UInt64.ofNat c)) (chunk (offset + UInt64.ofNat c) (len - c))
        fun j => src (c + j))))
    (done : ∀ x v, I len x v → Q (some (x,len)) v) (c : ℕ) (hc : c ≤ len) (h : I c x v) :
    Does (writeLoop x offset src len c) v Q := by
  induction hn : len - c using Nat.strong_induction_on generalizing c x v with
  | h n ih =>
  unfold VibeOS.Osfs2.writeLoop
  by_cases hlt : c < len
  swap
  · rw [if_neg hlt]
    obtain rfl : c = len := by omega
    exact pure (done _ _ h)
  rw [if_pos hlt]
  have hpos := chunk_pos (offset + UInt64.ofNat c) (Nat.sub_pos_of_lt hlt)
  have hle := chunk_le (offset + UInt64.ofNat c) (len - c)
  refine bind (resolveBlock_alloc (own _ _ _ h) _ fun r x' v' hr => ?_)
  dsimp only
  have hr : Resolves v x (lbnAt offset c) r x' v' := hr
  by_cases h0 : r = 0
  · subst h0
    rw [if_pos rfl]
    exact pure (stop _ _ _ _ _ hlt h hr)
  rw [if_neg h0]
  have hhere := hr.here h0
  have hd : dataBlock r := by
    have hh := (hr.grown (own _ _ _ h)).1.owned.held (p := .lbn (lbnAt offset c))
    rw [Vol.pointer_lbn,hhere] at hh
    exact (hh h0).1
  have hnext := turn _ _ _ _ _ _ hlt h hr h0
  have hrest (blk : Block) (hblk : blk.splice (inBlock (offset + UInt64.ofNat c))
      (chunk (offset + UInt64.ofNat c) (len - c)) (fun j => src (c + j)) =
      (v'.data r).splice (inBlock (offset + UInt64.ofNat c))
        (chunk (offset + UInt64.ofNat c) (len - c)) (fun j => src (c + j))) :
      Does (do
        if ← VibeOS.Osfs2.writeBlock r (blk.splice (inBlock (offset + UInt64.ofNat c))
            (chunk (offset + UInt64.ofNat c) (len - c)) fun j => src (c + j)) then
          VibeOS.Osfs2.writeLoop x' offset src len (c + chunk (offset + UInt64.ofNat c) (len - c))
        else return if c > 0 then some (x',c) else none) v' Q := by
    refine bind (writeBlock hd ?_)
    rw [if_pos rfl,hblk]
    exact ih _ (by omega) _ (by omega) hnext rfl
  by_cases hfull : inBlock (offset + UInt64.ofNat c) = 0 ∧
      chunk (offset + UInt64.ofNat c) (len - c) = blockSize
  · rw [if_pos hfull]
    refine bind (pure ?_)
    refine hrest _ ?_
    rw [hfull.1,hfull.2]
    exact splice_full _ _ _
  · rw [if_neg hfull]
    exact bind (readBlock hd (hrest _ rfl))

end Does

/-- The volume and the pending inode after `c` bytes went into inode `i`, from `x` on `v`. -/
structure Wrote (i : UInt32) (v : Vol) (x : Inode) (offset : UInt64) (src : ℕ → UInt8) (c : ℕ)
    (v' : Vol) (x' : Inode) : Prop where
  grown : Grown i v x v' x'
  bytes : offset.toNat + c ≤ maxFileBytes → ∀ pos, v'.byteAt x' pos =
    if offset.toNat ≤ pos ∧ pos < offset.toNat + c then src (pos - offset.toNat) else v.byteAt x pos
  /-- the blocks written to are there -/
  covers : offset.toNat + c ≤ maxFileBytes → ∀ pos, offset.toNat ≤ pos → pos < offset.toNat + c →
    v'.ptr x' (pos/4096) ≠ 0

lemma Wrote.refl (h : v.OwnedWith i x) (offset : UInt64) (src : ℕ → UInt8) :
    Wrote i v x offset src 0 v x := by
  refine ⟨.refl h,fun _ pos => ?_,fun _ pos _ _ => by omega⟩
  rw [if_neg (by omega)]

variable {src : ℕ → UInt8}

lemma Wrote.resolve {v₀ : Vol} {x₀ : Inode} {offset : UInt64} {c n : ℕ} {r : UInt32}
    (h : Wrote i v₀ x₀ offset src c v x) (hr : Resolves v x n r x' v') :
    Wrote i v₀ x₀ offset src c v' x' := by
  obtain ⟨hg,hb⟩ := hr.grown h.grown.owned
  refine ⟨h.grown.trans hg,fun hle => hb ▸ h.bytes hle,fun hle pos h1 h2 => ?_⟩
  have h0 := h.covers hle pos h1 h2
  have hkept : v'.ptr x' (pos/4096) = v.ptr x (pos/4096) := hg.kept (.lbn (pos/4096)) h0
  rwa [hkept]

lemma Wrote.turn {v₀ : Vol} {x₀ : Inode} {offset : UInt64} {c left : ℕ}
    (h : Wrote i v₀ x₀ offset src c v x) (hl : 0 < left) (h0 : v.ptr x (lbnAt offset c) ≠ 0) :
    Wrote i v₀ x₀ offset src (c + chunk (offset + UInt64.ofNat c) left)
      (v.setData (v.ptr x (lbnAt offset c)) ((v.data (v.ptr x (lbnAt offset c))).splice
        (inBlock (offset + UInt64.ofNat c)) (chunk (offset + UInt64.ofNat c) left)
        fun j => src (c + j))) x := by
  have hchunk : chunk (offset + UInt64.ofNat c) left ≤ 4096 - inBlock (offset + UInt64.ofNat c) :=
    Nat.min_le_left _ _
  have hpos := chunk_pos (offset + UInt64.ofNat c) hl
  refine ⟨h.grown.setData h0 _,fun hle pos => ?_,fun hle pos h1 h2 => ?_⟩
  swap
  · rw [h.grown.owned.ptr_setData _ h0]
    generalize chunk (offset + UInt64.ofNat c) left = can at hchunk hpos hle h2
    have hold := h.covers (by omega) pos h1
    unfold maxFileBytes maxFileBlocks directPtrs indirectPtrs blockSize at hle
    rw [inBlock_toNat,pos_toNat (by omega)] at hchunk
    by_cases hc : pos < offset.toNat + c
    · exact hold hc
    · rwa [show pos/4096 = lbnAt offset c by rw [lbnAt_eq (by omega)]; omega]
  generalize chunk (offset + UInt64.ofNat c) left = can at hchunk hpos hle ⊢
  unfold maxFileBytes maxFileBlocks directPtrs indirectPtrs blockSize at hle
  have hold := h.bytes (by unfold maxFileBytes maxFileBlocks directPtrs indirectPtrs blockSize; omega) pos
  rw [inBlock_toNat,pos_toNat (by omega)] at hchunk ⊢
  rw [h.grown.owned.byteAt_setData _ h0]
  have hn : lbnAt offset c = (offset.toNat + c) / 4096 := lbnAt_eq (by omega)
  by_cases hb : pos/4096 = lbnAt offset c
  · rw [if_pos hb,Bytes.get_splice _ _ _ _ (Nat.mod_lt _ (by omega))]
    have hcur : (v.data (v.ptr x (lbnAt offset c))).get (pos%4096) = v.byteAt x pos := by
      unfold Vol.byteAt
      rw [hb,if_neg h0]
    by_cases hin : (offset.toNat + c) % 4096 ≤ pos % 4096 ∧ pos % 4096 < (offset.toNat + c) % 4096 + can
    · rw [if_pos hin,if_pos (by omega)]
      congr 1
      omega
    · rw [if_neg hin,hcur,hold]
      exact if_congr (by omega) rfl rfl
  · rw [if_neg hb,hold]
    exact if_congr (by omega) rfl rfl

/-- The size that is recorded when the last byte written is before `finish`. -/
def Inode.grow (x : Inode) (finish : UInt64) : Inode :=
  if finish > x.size.toUInt64 then { x with size := finish.toUInt32 } else x

/-- The call is for a file and within the largest size. -/
structure Writable (v : Vol) (i : UInt32) (offset len : UInt64) : Prop where
  nonempty : len ≠ 0
  fits : (offset + len).toNat ≤ maxFileBytes
  valid : validInode i
  file : (v.inode i).type = typeFile

/-- What a call that consumed bytes says about its first turn; where that turn was the only
one, no other block was allocated. -/
def FirstTurn (v : Vol) (x : Inode) (offset : UInt64) (len : ℕ) (v' : Vol) (x' : Inode) : Prop :=
  ∃ r x₁ v₁, r ≠ 0 ∧ Resolves v x (lbnAt offset 0) r x₁ v₁ ∧
    (len ≤ chunk offset len → v'.used = v₁.used ∧ v'.pointer x' = v₁.pointer x₁)

/-- What `osfs2_write` may return and leave behind. -/
inductive Writes (v : Vol) (i : UInt32) (offset : UInt64) (src : ℕ → UInt8) (len : UInt64) :
    ℤ → Vol → Prop
  | nothing (h : len = 0) : Writes v i offset src len 0 v
  | refused (h : len ≠ 0) (why : ¬ Writable v i offset len) : Writes v i offset src len (-1) v
  | full {y w} (ok : Writable v i offset len)
      (none : Resolves v (v.inode i) (lbnAt offset 0) 0 y w) : Writes v i offset src len (-1) w
  | wrote {n : ℕ} {y w} (ok : Writable v i offset len) (some : 0 < n) (le : n ≤ len.toNat)
      (short : n = len.toNat ∨ 1040 ≤ lbnAt offset n ∨ w.Full)
      (first : FirstTurn v (v.inode i) offset len.toNat w y)
      (went : Wrote i v (v.inode i) offset src n w y) :
      Writes v i offset src len n (w.setInode i (y.grow (offset + UInt64.ofNat n)))

lemma Does.osfs2Write {offset len : UInt64} {Q : ℤ → Vol → Prop} (ho : v.Owned)
    (h : ∀ r w, Writes v i offset src len r w → Q r w) : Does (osfs2Write i offset src len) v Q := by
  refine get fun s hs _ _ _ => ?_
  rw [hs,if_neg (by decide)]
  by_cases h0 : len = 0
  · rw [if_pos h0]
    exact pure (h _ _ (.nothing h0))
  rw [if_neg h0]
  by_cases hmax : (offset + len).toNat > maxFileBytes
  · rw [if_pos hmax]
    exact pure (h _ _ (.refused h0 fun hw => by have := hw.fits; omega))
  rw [if_neg hmax]
  refine bind (readInode (fun hi => pure (h _ _ (.refused h0 fun hw => hi hw.valid))) fun hi => ?_)
  dsimp only
  by_cases hty : (v.inode i).type ≠ typeFile
  · rw [if_pos hty]
    exact pure (h _ _ (.refused h0 fun hw => hty hw.file))
  rw [if_neg hty]
  have hok : Writable v i offset len := ⟨h0,by omega,hi,not_not.mp hty⟩
  have hlen : 0 < len.toNat := by
    rw [Nat.pos_iff_ne_zero]
    exact fun he => h0 (UInt64.toNat_inj.mp he)
  have hoff : offset + UInt64.ofNat 0 = offset := UInt64.add_zero offset
  have hfinish {x' : Inode} {w : Vol} {n : ℕ} (hn : 0 < n) (hle : n ≤ len.toNat)
      (hs : n = len.toNat ∨ 1040 ≤ lbnAt offset n ∨ w.Full)
      (hw : Wrote i v (v.inode i) offset src n w x')
      (hf : FirstTurn v (v.inode i) offset len.toNat w x') :
      Does (do
        let finish := offset + UInt64.ofNat n
        let x := if finish > x'.size.toUInt64 then { x' with size := finish.toUInt32 } else x'
        if ← VibeOS.Osfs2.writeInode i x then return (n : ℤ) else return -1) w Q := by
    dsimp only
    refine bind (writeInode hi ?_)
    rw [if_pos rfl]
    exact pure (h _ _ (.wrote hok hn hle hs hf hw))
  refine bind (writeLoop (i := i) (I := fun c x w => Wrote i v (v.inode i) offset src c w x ∧
    (c = 0 → w = v ∧ x = v.inode i) ∧ (0 < c → FirstTurn v (v.inode i) offset len.toNat w x ∧
      (len.toNat ≤ chunk offset len.toNat → c = len.toNat))) offset src ?_ ?_ ?_ ?_ 0 (by omega)
    ⟨.refl (ho.self i) _ _,fun _ => ⟨rfl,rfl⟩,fun hc => absurd hc (by omega)⟩)
  · exact fun c x w hw => hw.1.grown.owned
  · intro c x w x' w' hc ⟨hw,hz,hf⟩ hr
    by_cases hc0 : c > 0
    · rw [if_pos hc0]
      obtain ⟨⟨r,x₁,v₁,hr0,hr1,hone⟩,hlast⟩ := hf hc0
      refine hfinish hc0 (by omega) (.inr ?_) (hw.resolve hr)
        ⟨r,x₁,v₁,hr0,hr1,fun hle => absurd (hlast hle) (by omega)⟩
      rcases hr.of_zero with ⟨rfl,-,hwhy⟩ | ⟨b,-,-,-,-,hfull,rfl⟩
      · exact hwhy
      · exact .inr hfull
    · rw [if_neg hc0]
      obtain rfl : c = 0 := by omega
      obtain ⟨rfl,rfl⟩ := hz rfl
      exact pure (h _ _ (.full hok hr))
  · intro c x w r x' w' hc ⟨hw,hz,hf⟩ hr hr0
    have hhere := hr.here hr0
    have hptr : w'.ptr x' (lbnAt offset c) ≠ 0 := hhere ▸ hr0
    have hturn := (hw.resolve hr).turn (Nat.sub_pos_of_lt hc) hptr
    rw [hhere] at hturn
    refine ⟨hturn,fun hz' => ?_,fun _ => ?_⟩
    · have := chunk_pos (offset + UInt64.ofNat c) (Nat.sub_pos_of_lt hc)
      omega
    · by_cases hc0 : 0 < c
      · obtain ⟨⟨r₁,x₁,v₁,h1,h2,-⟩,hlast⟩ := hf hc0
        exact ⟨⟨r₁,x₁,v₁,h1,h2,fun hle => absurd (hlast hle) (by omega)⟩,
          fun hle => absurd (hlast hle) (by omega)⟩
      · obtain rfl : c = 0 := by omega
        obtain ⟨rfl,rfl⟩ := hz rfl
        refine ⟨⟨r,x',w',hr0,hr,fun _ => ⟨rfl,?_⟩⟩,fun hle => ?_⟩
        · have hp := (hr.grown hw.grown.owned).1.owned.pointer_setData
            ((w'.data r).splice (inBlock (offset + UInt64.ofNat 0))
              (chunk (offset + UInt64.ofNat 0) (len.toNat - 0)) fun j => src (0 + j)) hptr
          rwa [hhere] at hp
        · rw [hoff,Nat.zero_add,Nat.sub_zero]
          exact Nat.le_antisymm (chunk_le _ _) hle
  · intro x w ⟨hw,_,hf⟩
    exact hfinish hlen le_rfl (.inl rfl) hw (hf hlen).1

/-- The bytes of a file from `offset` on. -/
def Vol.bytesAt (v : Vol) (x : Inode) (offset n : ℕ) : List UInt8 :=
  (List.range n).map fun k => v.byteAt x (offset + k)

@[simp] lemma Vol.bytesAt_length (v : Vol) (x : Inode) (offset n : ℕ) :
    (v.bytesAt x offset n).length = n := by
  simp [Vol.bytesAt]

lemma Vol.bytesAt_add (v : Vol) (x : Inode) (offset n m : ℕ) :
    v.bytesAt x offset (n+m) = v.bytesAt x offset n ++
      (List.range m).map fun k => v.byteAt x (offset + n + k) := by
  simp only [Vol.bytesAt,List.range_add,List.map_append,List.map_map,Nat.add_assoc]
  rfl

namespace Does

lemma readLoop {Q : Option (List UInt8) → Vol → Prop} (ho : v.OwnedWith i x) {offset : UInt64}
    {len : ℕ} (hlen : offset.toNat + len < 2^32) (h : Q (some (v.bytesAt x offset.toNat len)) v)
    (c : ℕ) (hc : c ≤ len) : Does (readLoop x offset len (v.bytesAt x offset.toNat c)) v Q := by
  induction hn : len - c using Nat.strong_induction_on generalizing c with
  | h n ih =>
  unfold VibeOS.Osfs2.readLoop
  rw [Vol.bytesAt_length]
  by_cases hlt : c < len
  swap
  · rw [if_neg hlt]
    obtain rfl : c = len := by omega
    exact pure h
  rw [if_pos hlt]
  have hpos := chunk_pos (offset + UInt64.ofNat c) (Nat.sub_pos_of_lt hlt)
  have hle := chunk_le (offset + UInt64.ofNat c) (len - c)
  have hin : chunk (offset + UInt64.ofNat c) (len - c) ≤ 4096 - inBlock (offset + UInt64.ofNat c) :=
    Nat.min_le_left _ _
  refine bind (resolveBlock_read ho _ ?_)
  dsimp only
  change Does (if v.ptr x (lbnAt offset c) = 0 then _ else _) v Q
  have hnext := ih _ (by omega) (c + chunk (offset + UInt64.ofNat c) (len - c)) (by omega) rfl
  rw [Vol.bytesAt_add] at hnext
  rw [inBlock_toNat,pos_toNat (by omega)] at hin ⊢
  have hlbn : lbnAt offset c = (offset.toNat + c) / 4096 := lbnAt_eq (by omega)
  generalize chunk (offset + UInt64.ofNat c) (len - c) = can at hpos hle hin hnext ⊢
  have hblock {k : ℕ} (hk : k < can) : (offset.toNat + c + k) / 4096 = lbnAt offset c ∧
      (offset.toNat + c + k) % 4096 = (offset.toNat + c) % 4096 + k := by omega
  by_cases h0 : v.ptr x (lbnAt offset c) = 0
  · rw [if_pos h0]
    have hz : (List.range can).map (fun k => v.byteAt x (offset.toNat + c + k)) =
        List.replicate can 0 := by
      rw [List.eq_replicate_iff]
      refine ⟨by simp,fun b hb => ?_⟩
      obtain ⟨k,hk,rfl⟩ := List.mem_map.mp hb
      rw [Vol.byteAt,(hblock (List.mem_range.mp hk)).1,if_pos h0]
    rwa [hz] at hnext
  · rw [if_neg h0]
    have hd : dataBlock (v.ptr x (lbnAt offset c)) := (ho.held (p := .lbn (lbnAt offset c)) h0).1
    refine bind (readBlock hd ?_)
    dsimp only
    have hz : (List.range can).map (fun k => v.byteAt x (offset.toNat + c + k)) = (List.range can).map
        fun k => (v.data (v.ptr x (lbnAt offset c))).get ((offset.toNat + c) % 4096 + k) := by
      refine List.map_congr_left fun k hk => ?_
      obtain ⟨hd,hm⟩ := hblock (List.mem_range.mp hk)
      rw [Vol.byteAt,hd,hm,if_neg h0]
    rwa [hz] at hnext

lemma osfs2Read {offset len : UInt64} {Q : Option (List UInt8) → Vol → Prop} (ho : v.Owned)
    (hbad : ¬ (validInode i ∧ ((v.inode i).type = typeFile ∨ (v.inode i).type = typeDir)) → Q none v)
    (hok : validInode i → (v.inode i).type = typeFile ∨ (v.inode i).type = typeDir →
      Q (some (v.bytesAt (v.inode i) offset.toNat
        (min len.toNat ((v.inode i).size.toNat - offset.toNat)))) v) :
    Does (osfs2Read i offset len) v Q := by
  refine get fun s hs _ _ _ => ?_
  rw [hs,if_neg (by decide)]
  refine bind (readInode (fun hi => pure (hbad fun h => hi h.1)) fun hi => ?_)
  dsimp only
  by_cases hty : (v.inode i).type ≠ typeFile ∧ (v.inode i).type ≠ typeDir
  · rw [if_pos hty]
    exact pure (hbad fun h => by tauto)
  rw [if_neg hty]
  have hres := hok hi (by tauto)
  have hsz : (v.inode i).size.toUInt64.toNat = (v.inode i).size.toNat := UInt32.toNat_toUInt64 _
  have hlt := (v.inode i).size.toNat_lt
  by_cases hend : offset ≥ (v.inode i).size.toUInt64
  · rw [if_pos hend]
    rw [ge_iff_le,UInt64.le_iff_toNat_le,hsz] at hend
    rw [Nat.sub_eq_zero_of_le hend,Nat.min_zero] at hres
    exact pure hres
  rw [if_neg hend]
  rw [ge_iff_le,UInt64.le_iff_toNat_le,hsz,not_le] at hend
  have hrem : ((v.inode i).size.toUInt64 - offset).toNat = (v.inode i).size.toNat - offset.toNat := by
    rw [UInt64.toNat_sub_of_le _ _ (by rw [UInt64.le_iff_toNat_le,hsz]; omega),hsz]
  have hmin : (if len > (v.inode i).size.toUInt64 - offset then (v.inode i).size.toUInt64 - offset
      else len).toNat = min len.toNat ((v.inode i).size.toNat - offset.toNat) := by
    split_ifs with hgt
    · rw [gt_iff_lt,UInt64.lt_iff_toNat_lt,hrem] at hgt
      rw [hrem]
      omega
    · rw [gt_iff_lt,UInt64.lt_iff_toNat_lt,hrem] at hgt
      omega
  generalize (if len > (v.inode i).size.toUInt64 - offset then (v.inode i).size.toUInt64 - offset
    else len) = want at hmin ⊢
  rw [← hmin] at hres
  by_cases h0 : want = 0
  · rw [if_pos h0]
    subst h0
    exact pure hres
  · rw [if_neg h0]
    exact readLoop (ho.self i) (by omega) hres 0 (by omega)

end Does

end VibeOS.Osfs2

import VibeOS.Libc.Inflate
import Mathlib.Tactic.Ring
import Mathlib.Data.List.Basic

/-! The bits that the decoder reads, and the canonical codes that its tables stand for. -/
namespace VibeOS.Libc
open Function List Nat

def number (src : List UInt8) : ℕ := src.foldr (fun b n => b.toNat + 256 * n) 0

/-- The `n` bits of the source from `pos` on, the first of them lowest. -/
def field (src : List UInt8) (pos n : ℕ) : ℕ := number src / 2^pos % 2^n

lemma number_div_mod (src : List UInt8) (p : ℕ) : number src / 2^(8*p) % 256 = (src.getD p 0).toNat := by
  induction src generalizing p with
  | nil => simp [number]
  | cons b s ih =>
    have hb := b.toNat_lt
    cases p with
    | zero =>
      change (b.toNat + 256 * number s) / 1 % 256 = b.toNat
      omega
    | succ p =>
      rw [getD_cons_succ,← ih p]
      change (b.toNat + 256 * number s) / 2^(8*(p+1)) % 256 = _
      rw [show 2^(8*(p+1)) = 256 * 2^(8*p) by rw [Nat.mul_succ,Nat.pow_add,Nat.mul_comm],← Nat.div_div_eq_div_mul]
      congr 2
      omega

/-- The reader stands at bit `pos`: whole bytes were taken, and the bits behind `pos` are in the buffer. -/
structure ReaderAt (src : List UInt8) (pos : ℕ) (br : BitReader) : Prop where
  place : 8 * br.p = pos + br.nbits
  within : br.p ≤ src.length
  buf : br.bitbuf = field src pos br.nbits

variable {src : List UInt8}

lemma readByte_some {p : ℕ} (h : p < src.length) : readByte src p = .ok (src.getD p 0).toNat := by
  rw [readByte,getD_eq_getElem?_getD,getElem?_eq_getElem h]
  rfl

lemma field_lt (src : List UInt8) (pos n : ℕ) : field src pos n < 2^n := mod_lt _ (Nat.two_pow_pos n)

lemma field_add (src : List UInt8) (pos m n : ℕ) : field src pos (m + n) = field src pos m + 2^m * field src (pos + m) n := by
  rw [field,field,field,Nat.pow_add,mod_mul,Nat.pow_add,Nat.div_div_eq_div_mul]

lemma field_byte (src : List UInt8) (p : ℕ) : field src (8*p) 8 = (src.getD p 0).toNat := number_div_mod src p

variable {br : BitReader}

lemma ReaderAt.need {pos n turns : ℕ} (h : ReaderAt src pos br) (hn : n ≤ 24)
    (hturns : n ≤ br.nbits + 8 * turns) :
    if pos + n ≤ 8 * src.length then ∃ br', brNeed src n turns br = .ok br' ∧ ReaderAt src pos br' ∧ n ≤ br'.nbits ∧ br'.nbits ≤ max br.nbits (n + 7)
    else brNeed src n turns br = .error .malformed := by
  induction turns generalizing br with
  | zero =>
    have hplace := h.place
    have hwithin := h.within
    rw [if_pos (by omega),brNeed,if_neg (by omega)]
    exact ⟨br,rfl,h,by omega,by omega⟩
  | succ turns ih =>
    have hplace := h.place
    have hwithin := h.within
    rw [brNeed]
    by_cases hmore : br.nbits < n
    · rw [if_pos hmore]
      by_cases hend : src.length ≤ br.p
      · rw [if_pos hend,if_neg (by omega)]
      · have hbyte := (src.getD br.p 0).toNat_lt
        have hstep : ReaderAt src pos ⟨br.p + 1,(br.bitbuf ||| (src.getD br.p 0).toNat <<< br.nbits) % 2^32,br.nbits + 8⟩ := by
          refine ⟨by dsimp only; omega,by dsimp only; omega,?_⟩
          dsimp only
          have hlt : br.bitbuf < 2^br.nbits := by
            rw [h.buf]
            exact field_lt _ _ _
          have heq : br.bitbuf ||| (src.getD br.p 0).toNat <<< br.nbits = field src pos (br.nbits + 8) := by
            rw [Nat.or_comm,← shiftLeft_add_eq_or_of_lt hlt,Nat.shiftLeft_eq,field_add,h.buf,← hplace,field_byte]
            ring
          rw [heq,mod_eq_of_lt]
          exact (field_lt _ _ _).trans_le (Nat.pow_le_pow_right (by decide) (by omega))
        have hnext := ih hstep (by dsimp only; omega)
        rw [if_neg hend,readByte_some (by omega)]
        dsimp only at hnext
        split at hnext
        next hin =>
          obtain ⟨br',hbr',hat,hge,hle⟩ := hnext
          rw [if_pos hin]
          exact ⟨br',hbr',hat,hge,by omega⟩
        next hout =>
          rw [if_neg hout]
          exact hnext
    · rw [if_neg hmore,if_pos (by omega)]
      exact ⟨br,rfl,h,by omega,by omega⟩

lemma ReaderAt.get {pos n : ℕ} (h : ReaderAt src pos br) (hn : n ≤ br.nbits) :
    (brGet br n).1 = field src pos n ∧ ReaderAt src (pos + n) (brGet br n).2 ∧ (brGet br n).2.nbits = br.nbits - n := by
  have hsplit := field_add src pos n (br.nbits - n)
  rw [Nat.add_sub_cancel' hn,← h.buf] at hsplit
  have hlt := field_lt src pos n
  refine ⟨?_,⟨?_,h.within,?_⟩,rfl⟩
  · change br.bitbuf % 2^n = _
    rw [hsplit,add_mul_mod_self_left,mod_eq_of_lt hlt]
  · have := h.place
    change 8 * br.p = pos + n + (br.nbits - n)
    omega
  · change br.bitbuf >>> n = field src (pos + n) (br.nbits - n)
    rw [hsplit,Nat.shiftRight_eq_div_pow,add_mul_div_left _ _ (Nat.two_pow_pos n),div_eq_of_lt hlt,Nat.zero_add]

lemma ReaderAt.bits {pos n : ℕ} (h : ReaderAt src pos br) (hbuf : br.nbits < 8) (hn : n ≤ 16) :
    if pos + n ≤ 8 * src.length then ∃ br', brBits src br n = .ok (field src pos n,br') ∧ ReaderAt src (pos + n) br' ∧ br'.nbits < 8
    else brBits src br n = .error .malformed := by
  have hneed := h.need (by omega : n ≤ 24) (by omega : n ≤ br.nbits + 8 * 2)
  split at hneed
  next hin =>
    obtain ⟨br',hbr',hat,hge,hle⟩ := hneed
    obtain ⟨hvalue,hat',hbits⟩ := hat.get hge
    rw [if_pos hin]
    refine ⟨(brGet br' n).2,?_,hat',by omega⟩
    rw [brBits,hbr',← hvalue]
    rfl
  next hout =>
    rw [if_neg hout,brBits,hneed]
    rfl

/-- The bits from `pos` on as a code, the first of them highest. -/
def codeAt (src : List UInt8) (pos : ℕ) : ℕ → ℕ
  | 0 => 0
  | l+1 => 2 * codeAt src pos l + field src (pos + l) 1

/-- The number of codes of length `l`; no code has length 0. -/
def lengthCount (lens : List ℕ) (l : ℕ) : ℕ := if l = 0 then 0 else lens.count l

def nextCode (lens : List ℕ) : ℕ → ℕ
  | 0 => 0
  | l+1 => (nextCode lens l + lengthCount lens l) * 2

/-- At `pos` stands the code of symbol `s`, of length `l`: codes of one length are given out in the order of symbols. -/
structure Codeword (src : List UInt8) (lens : List ℕ) (pos s l : ℕ) : Prop where
  length : lens[s]? = some l
  positive : 0 < l
  within : pos + l ≤ 8 * src.length
  code : codeAt src pos l = nextCode lens l + (lens.take s).count l

lemma huffCounts_eq (lens : List ℕ) (l : ℕ) : huffCounts lens l = lens.count l := by
  have h (counts : ℕ → ℕ) : (lens.foldl (fun counts l => update counts l (counts l + 1)) counts) l = counts l + lens.count l := by
    induction lens generalizing counts with
    | nil => rfl
    | cons x lens ih =>
      rw [foldl_cons,ih,count_cons,update_apply]
      by_cases hx : l = x
      · subst hx
        simp
        omega
      · rw [if_neg hx,if_neg (by simpa using fun h : x = l => hx h.symm)]
        omega
  exact (h _).trans (Nat.zero_add _)

lemma offsets_succ (lens : List ℕ) (l : ℕ) : offsets (huffCounts lens) (l+1) = offsets (huffCounts lens) l + lengthCount lens l := by
  cases l with
  | zero => rfl
  | succ l => rw [offsets,lengthCount,if_neg (by omega),huffCounts_eq]

lemma offsets_mono (lens : List ℕ) {l l' : ℕ} (h : l < l') : offsets (huffCounts lens) l + lengthCount lens l ≤ offsets (huffCounts lens) l' := by
  induction h with
  | refl => exact (offsets_succ lens l).ge
  | step _ ih => exact ih.trans ((Nat.le_add_right _ _).trans (offsets_succ lens _).ge)

def placeOf (lens : List ℕ) (i l : ℕ) : ℕ := offsets (huffCounts lens) l + (lens.take i).count l

variable {lens : List ℕ}

lemma count_take_lt {i l : ℕ} (h : lens[i]? = some l) : (lens.take i).count l < lens.count l := by
  have hlt : i < lens.length := (List.getElem?_eq_some_iff.mp h).1
  have heq : lens[i] = l := (List.getElem?_eq_some_iff.mp h).2
  have hle := (take_sublist (i+1) lens).count_le l
  rw [take_succ_eq_append_getElem hlt,count_append,heq,count_singleton_self] at hle
  omega

lemma placeOf_ne {i j l l' : ℕ} (hi : lens[i]? = some l) (hj : lens[j]? = some l') (hl : 0 < l) (hl' : 0 < l')
    (hij : i < j) : placeOf lens i l ≠ placeOf lens j l' := by
  have hilt := count_take_lt hi
  have hjlt := count_take_lt hj
  have hcount {k : ℕ} (hk : 0 < k) : lengthCount lens k = lens.count k := if_neg (by omega)
  unfold placeOf
  rcases Nat.lt_trichotomy l l' with h | rfl | h
  · have := offsets_mono lens h
    rw [hcount hl] at this
    omega
  · have hlen : i < lens.length := (List.getElem?_eq_some_iff.mp hi).1
    have heq : lens[i] = l := (List.getElem?_eq_some_iff.mp hi).2
    have hle := ((take_prefix_take_left (l := lens) (by omega : i + 1 ≤ j)).sublist).count_le l
    rw [take_succ_eq_append_getElem hlen,count_append,heq,count_singleton_self] at hle
    omega
  · have := offsets_mono lens h
    rw [hcount hl'] at this
    omega

lemma countP_lt_succ (lens : List ℕ) {l : ℕ} (hl : 0 < l) :
    lens.countP (fun x => 0 < x ∧ x < l + 1) = lens.countP (fun x => 0 < x ∧ x < l) + lens.count l := by
  induction lens with
  | nil => rfl
  | cons x lens ih =>
    rw [countP_cons,countP_cons,count_cons,ih]
    simp only [decide_eq_true_eq,beq_iff_eq]
    split_ifs <;> omega

lemma offsets_le (lens : List ℕ) (l : ℕ) : offsets (huffCounts lens) (l+1) ≤ lens.length := by
  have h : offsets (huffCounts lens) (l+1) = lens.countP fun x => 0 < x ∧ x < l + 1 := by
    induction l with
    | zero =>
      refine (List.countP_eq_zero.mpr fun x _ => ?_).symm
      simp
      omega
    | succ l ih => rw [offsets_succ,ih,lengthCount,if_neg (by omega),countP_lt_succ lens (by omega : 0 < l + 1)]
  rw [h]
  exact countP_le_length

lemma placeOf_lt {i l : ℕ} (h : lens[i]? = some l) (hl : 0 < l) : placeOf lens i l < lens.length := by
  have hlt := count_take_lt h
  have hle := offsets_le lens l
  rw [offsets_succ,lengthCount,if_neg (by omega)] at hle
  unfold placeOf
  omega

lemma huffPlace_spec {all done lens : List ℕ} {cursor : ℕ → ℕ} {syms : ℕ → Option ℕ} (hall : all = done ++ lens) (hmax : all.length ≤ maxSyms)
    (hcursor : ∀ l, 0 < l → cursor l = placeOf all done.length l)
    (hsyms : ∀ i l, i < done.length → all[i]? = some l → 0 < l → syms (placeOf all i l) = some i) :
    ∃ t, huffPlace lens done.length cursor syms = .ok t ∧ ∀ i l, all[i]? = some l → 0 < l → t (placeOf all i l) = some i := by
  induction lens generalizing done cursor syms with
  | nil =>
    refine ⟨syms,rfl,fun i l hi hl => ?_⟩
    rw [append_nil] at hall
    exact hsyms i l (by rw [← hall]; exact (List.getElem?_eq_some_iff.mp hi).1) hi hl
  | cons x lens ih =>
    have hx : all[done.length]? = some x := by rw [hall]; simp
    have hnext : all = (done ++ [x]) ++ lens := by rw [hall]; simp
    have hlength : (done ++ [x]).length = done.length + 1 := by simp
    have hplace (l : ℕ) : placeOf all (done.length + 1) l = placeOf all done.length l + if x = l then 1 else 0 := by
      have htake : all.take (done.length + 1) = all.take done.length ++ [x] := by
        rw [hall]
        simp [take_append,take_of_length_le]
      rw [placeOf,htake,count_append,placeOf,Nat.add_assoc,count_singleton]
      congr 2
      simp
    rw [huffPlace]
    split
    next hpos =>
      rw [if_pos (by rw [hcursor x hpos]; exact (placeOf_lt hx hpos).trans_le hmax)]
      refine hlength ▸ ih hnext (fun l hl => ?_) fun i l hi hil hl => ?_
      · rw [hlength,hplace,update_apply]
        by_cases hlx : l = x
        · subst hlx
          rw [if_pos rfl,if_pos rfl,hcursor l hl]
        · rw [if_neg hlx,if_neg (fun h => hlx h.symm),hcursor l hl]
          rfl
      · rw [hcursor x hpos]
        by_cases hid : i = done.length
        · subst hid
          obtain rfl : x = l := Option.some_inj.mp (hx.symm.trans hil)
          exact update_self _ _ _
        · rw [update_of_ne (placeOf_ne hil hx hl hpos (by omega))]
          exact hsyms i l (by omega) hil hl
    next hzero =>
      obtain rfl : x = 0 := by omega
      refine hlength ▸ ih hnext (fun l hl => ?_) fun i l hi hil hl => ?_
      · rw [hlength,hplace,if_neg (by omega),hcursor l hl]
        rfl
      · refine hsyms i l ?_ hil hl
        by_contra hge
        obtain rfl : i = done.length := by omega
        have := Option.some_inj.mp (hx.symm.trans hil)
        omega

/-- A table that was built for `lens`. -/
structure Built (lens : List ℕ) (t : Huff) : Prop where
  short : ∀ l ∈ lens, l ≤ maxCodeLen
  counts : ∀ l, 0 < l → t.counts l = lengthCount lens l
  syms : ∀ i l, lens[i]? = some l → 0 < l → t.syms (placeOf lens i l) = some i

lemma huffBuild_some (h : ∀ l ∈ lens, l ≤ maxCodeLen) (hmax : lens.length ≤ maxSyms) :
    ∃ t, huffBuild lens = .ok t ∧ Built lens t := by
  obtain ⟨syms,hsyms,hspec⟩ := @huffPlace_spec lens [] lens (offsets (huffCounts lens)) (fun _ => none) rfl hmax (fun l _ => rfl)
    fun i _ hi => absurd hi (Nat.not_lt_zero i)
  have hsyms' : huffPlace lens 0 (offsets (huffCounts lens)) (fun _ => none) = .ok syms := hsyms
  refine ⟨⟨huffCounts lens,syms⟩,?_,h,fun l hl => (huffCounts_eq lens l).trans (if_neg (by omega)).symm,hspec⟩
  rw [huffBuild,if_pos (List.all_eq_true.mpr fun l hl => decide_eq_true (h l hl))]
  dsimp only
  rw [hsyms']
  rfl

lemma exists_symbol {l k : ℕ} (hk : k < lens.count l) : ∃ i, lens[i]? = some l ∧ (lens.take i).count l = k := by
  induction lens generalizing k with
  | nil => exact absurd hk (Nat.not_lt_zero k)
  | cons x lens ih =>
    by_cases hx : x = l
    · subst hx
      cases k with
      | zero => exact ⟨0,rfl,rfl⟩
      | succ k =>
        rw [List.count_cons_self] at hk
        obtain ⟨i,hi,hcount⟩ := ih (by omega : k < lens.count x)
        exact ⟨i+1,hi,by rw [take_succ_cons,List.count_cons_self,hcount]⟩
    · rw [List.count_cons_of_ne hx] at hk
      obtain ⟨i,hi,hcount⟩ := ih hk
      exact ⟨i+1,hi,by rw [take_succ_cons,List.count_cons_of_ne hx,hcount]⟩

lemma codeAt_lt {pos l l' : ℕ} (h : codeAt src pos l < nextCode lens l + lengthCount lens l) (hl : l < l') :
    codeAt src pos l' < nextCode lens l' := by
  induction hl with
  | refl =>
    have hbit := field_lt src (pos + l) 1
    rw [codeAt,nextCode]
    omega
  | @step m _ ih =>
    have hbit := field_lt src (pos + m) 1
    rw [codeAt,nextCode]
    omega

lemma Codeword.unique {pos s s' l l' : ℕ} (h : Codeword src lens pos s l) (h' : Codeword src lens pos s' l') :
    s = s' ∧ l = l' := by
  have hbelow {s l : ℕ} (h : Codeword src lens pos s l) : codeAt src pos l < nextCode lens l + lengthCount lens l := by
    have hpos := h.positive
    have hlt := count_take_lt h.length
    rw [h.code,lengthCount,if_neg (by omega)]
    omega
  have hnot {s s' l l' : ℕ} (h : Codeword src lens pos s l) (h' : Codeword src lens pos s' l') : ¬ l < l' := by
    intro hlt
    have := codeAt_lt (hbelow h) hlt
    rw [h'.code] at this
    omega
  obtain rfl : l = l' := Nat.le_antisymm (not_lt.mp (hnot h' h)) (not_lt.mp (hnot h h'))
  have hcount : (lens.take s).count l = (lens.take s').count l := by
    have := h.code
    rw [h'.code] at this
    omega
  have hne {i j : ℕ} (hi : lens[i]? = some l) (hij : i < j) : (lens.take i).count l < (lens.take j).count l := by
    have hlen : i < lens.length := (List.getElem?_eq_some_iff.mp hi).1
    have heq : lens[i] = l := (List.getElem?_eq_some_iff.mp hi).2
    have hle := ((take_prefix_take_left (l := lens) (by omega : i + 1 ≤ j)).sublist).count_le l
    rw [take_succ_eq_append_getElem hlen,count_append,heq,count_singleton_self] at hle
    omega
  refine ⟨?_,rfl⟩
  rcases Nat.lt_trichotomy s s' with hlt | heq | hlt
  · have := hne h.length hlt
    omega
  · exact heq
  · have := hne h'.length hlt
    omega

@[simp] lemma Stop.ok_bind {α β : Type} (a : α) (f : α → Except Stop β) : (Except.ok a >>= f) = f a := rfl

lemma huffDecodeFrom_spec {t : Huff} (ht : Built lens t) {pos turns l : ℕ}
    (hturns : l + turns = maxCodeLen) (hat : ReaderAt src (pos + l) br) (hbuf : br.nbits < 8) (hcode : nextCode lens (l+1) ≤ 2 * codeAt src pos l)
    (hnone : ∀ s l', l' ≤ l → ¬ Codeword src lens pos s l') :
    (∃ s l' br', huffDecodeFrom src t turns (l+1) br (codeAt src pos l) (nextCode lens (l+1)) (offsets (huffCounts lens) (l+1)) = .ok (s,br') ∧
      Codeword src lens pos s l' ∧ ReaderAt src (pos + l') br' ∧ br'.nbits < 8) ∨
    huffDecodeFrom src t turns (l+1) br (codeAt src pos l) (nextCode lens (l+1)) (offsets (huffCounts lens) (l+1)) = .error .malformed ∧
      ∀ s l', ¬ Codeword src lens pos s l' := by
  induction turns generalizing l br with
  | zero =>
    refine .inr ⟨rfl,fun s l' h => ?_⟩
    have hle := ht.short l' (mem_of_getElem? h.length)
    exact hnone s l' (by omega) h
  | succ turns ih =>
    have hbits := hat.bits hbuf (by omega : 1 ≤ 16)
    rw [huffDecodeFrom]
    split at hbits
    next hin =>
      obtain ⟨br',hbr',hat',hbuf'⟩ := hbits
      have hcode' : codeAt src pos l <<< 1 ||| field src (pos + l) 1 = codeAt src pos (l+1) := by
        rw [← shiftLeft_add_eq_or_of_lt (field_lt src (pos + l) 1),Nat.shiftLeft_eq,codeAt]
        omega
      have hge : nextCode lens (l+1) ≤ codeAt src pos (l+1) := by
        rw [codeAt]
        omega
      have hcounts := ht.counts (l+1) (by omega)
      have hcount : lengthCount lens (l+1) = lens.count (l+1) := if_neg (by omega)
      rw [hbr']
      simp only [Stop.ok_bind,hcode',hcounts]
      by_cases hmatch : codeAt src pos (l+1) < nextCode lens (l+1) + lengthCount lens (l+1)
      · rw [if_pos (by omega)]
        rw [hcount] at hmatch
        obtain ⟨s,hs,hrank⟩ := exists_symbol (by omega : codeAt src pos (l+1) - nextCode lens (l+1) < lens.count (l+1))
        have hsym := ht.syms s (l+1) hs (by omega)
        rw [placeOf,hrank] at hsym
        rw [hsym]
        exact .inl ⟨s,l+1,br',rfl,⟨hs,by omega,by omega,by omega⟩,hat',hbuf'⟩
      · rw [if_neg (by omega)]
        have hnext : (nextCode lens (l+1) + lengthCount lens (l+1)) <<< 1 = nextCode lens (l+2) := Nat.shiftLeft_eq _ 1
        rw [hnext,← offsets_succ]
        refine ih (by omega) hat' hbuf' ?_ fun s l' hl' h => ?_
        · rw [nextCode]
          omega
        · by_cases hl : l' ≤ l
          · exact hnone s l' hl h
          · obtain rfl : l' = l + 1 := by omega
            have hlt := count_take_lt h.length
            rw [h.code,hcount] at hmatch
            omega
    next hout =>
      refine .inr ⟨by rw [hbits]; rfl,fun s l' h => ?_⟩
      have hwithin := h.within
      exact hnone s l' (by omega) h

lemma huffDecode_spec {t : Huff} (ht : Built lens t) {pos : ℕ}
    (hat : ReaderAt src pos br) (hbuf : br.nbits < 8) :
    (∃ s l br', huffDecode src t br = .ok (s,br') ∧ Codeword src lens pos s l ∧ ReaderAt src (pos + l) br' ∧ br'.nbits < 8) ∨
    huffDecode src t br = .error .malformed ∧ ∀ s l, ¬ Codeword src lens pos s l := by
  refine huffDecodeFrom_spec (l := 0) ht rfl hat hbuf (Nat.zero_le _) fun s l hl h => ?_
  have := h.positive
  omega

lemma Codeword.decode {pos s l : ℕ} (h : Codeword src lens pos s l) {t : Huff} (ht : Built lens t)
    (hat : ReaderAt src pos br) (hbuf : br.nbits < 8) :
    ∃ br', huffDecode src t br = .ok (s,br') ∧ ReaderAt src (pos + l) br' ∧ br'.nbits < 8 := by
  obtain ⟨s',l',br',hbr',hword,hat',hbuf'⟩ | ⟨-,hnone⟩ := huffDecode_spec ht hat hbuf
  · obtain ⟨rfl,rfl⟩ := h.unique hword
    exact ⟨br',hbr',hat',hbuf'⟩
  · exact absurd h (hnone s l)

end VibeOS.Libc

import VibeOS.Libc.Huffman

/-! The deflate format, and that `png_inflate` accepts just what it describes. -/
namespace VibeOS.Libc
open List Option Nat

/-! ### The format

A reference decoder as a relation: where the parts of a stream stand, and what they expand to. -/

/-- What a length and a distance put behind `out`, which the copy may overlap. -/
def repeated (out : List UInt8) (dist len : ℕ) : List UInt8 := (List.range len).map fun i => out.getD (out.length - dist + i % dist) 0

/-- The symbols of a block from `pos` on, up to the end of the block. -/
inductive Symbols (src : List UInt8) (lit dist : List ℕ) : ℕ → List UInt8 → ℕ → List UInt8 → Prop
  | finish {pos l : ℕ} {out : List UInt8} (code : Codeword src lit pos 256 l) : Symbols src lit dist pos out (pos + l) out
  | literal {pos s l pos' : ℕ} {out out' : List UInt8} (code : Codeword src lit pos s l) (hs : s < 256)
      (rest : Symbols src lit dist (pos + l) (out ++ [UInt8.ofNat s]) pos' out') : Symbols src lit dist pos out pos' out'
  | copy {pos k l d l' pos' len distance extra extra' : ℕ} {out out' : List UInt8} (code : Codeword src lit pos (257 + k) l)
      (hextra : lenExtra[k]? = some extra) (within : pos + l + extra ≤ 8 * src.length)
      (hlen : lenBase[k]?.map (· + field src (pos + l) extra) = some len)
      (code' : Codeword src dist (pos + l + extra) d l') (hextra' : distExtra[d]? = some extra')
      (within' : pos + l + extra + l' + extra' ≤ 8 * src.length)
      (hdist : distBase[d]?.map (· + field src (pos + l + extra + l') extra') = some distance) (hback : distance ≤ out.length)
      (rest : Symbols src lit dist (pos + l + extra + l' + extra') (out ++ repeated out distance len) pos' out') :
      Symbols src lit dist pos out pos' out'

/-- Run-length coded code lengths from `pos` on, up to `total` of them. -/
inductive CodeLengths (src : List UInt8) (cl : List ℕ) (total : ℕ) : ℕ → List ℕ → ℕ → List ℕ → Prop
  | done {pos : ℕ} {lens : List ℕ} (h : lens.length = total) : CodeLengths src cl total pos lens pos lens
  | single {pos s l pos' : ℕ} {lens lens' : List ℕ} (h : lens.length < total) (code : Codeword src cl pos s l) (hs : s < 16)
      (rest : CodeLengths src cl total (pos + l) (lens ++ [s]) pos' lens') : CodeLengths src cl total pos lens pos' lens'
  | run {pos s l pos' n base v : ℕ} {lens lens' : List ℕ} (h : lens.length < total) (code : Codeword src cl pos s l)
      (hrun : s = 16 ∧ n = 2 ∧ base = 3 ∧ lens.getLast? = some v ∨ s = 17 ∧ n = 3 ∧ base = 3 ∧ v = 0 ∨ s = 18 ∧ n = 7 ∧ base = 11 ∧ v = 0)
      (within : pos + l + n ≤ 8 * src.length) (fits : lens.length + (field src (pos + l) n + base) ≤ total)
      (rest : CodeLengths src cl total (pos + l + n) (lens ++ replicate (field src (pos + l) n + base) v) pos' lens') :
      CodeLengths src cl total pos lens pos' lens'

def clLengths (src : List UInt8) (pos hclen : ℕ) : List ℕ :=
  (List.range 19).map fun s => if clPerm.idxOf s < hclen then field src (pos + 3 * clPerm.idxOf s) 3 else 0

/-- The header of a dynamic block: at most 286 codes for literals and lengths, and at most 30 for distances. -/
structure Header (src : List UInt8) (pos pos' : ℕ) (lit dist : List ℕ) : Prop where
  within : pos + 14 + 3 * (field src (pos + 10) 4 + 4) ≤ 8 * src.length
  literals : lit.length = field src pos 5 + 257
  distances : dist.length = field src (pos + 5) 5 + 1
  fewLiterals : lit.length ≤ 286
  fewDistances : dist.length ≤ 30
  lengths : CodeLengths src (clLengths src (pos + 14) (field src (pos + 10) 4 + 4)) (lit.length + dist.length)
    (pos + 14 + 3 * (field src (pos + 10) 4 + 4)) [] pos' (lit ++ dist)

inductive Block (src : List UInt8) : ℕ → ℕ → List UInt8 → ℕ → List UInt8 → Prop
  | stored {pos q len : ℕ} {out : List UInt8} (place : q = (pos + 7) / 8) (hlen : len = field src (8 * q) 16)
      (hnlen : len + field src (8 * (q + 2)) 16 = 65535) (within : q + 4 + len ≤ src.length) :
      Block src 0 pos out (8 * (q + 4 + len)) (out ++ (src.drop (q + 4)).take len)
  | fixed {pos pos' : ℕ} {out out' : List UInt8} (symbols : Symbols src fixedLens fixedDistLens pos out pos' out') :
      Block src 1 pos out pos' out'
  | dynamic {pos pos₁ pos' : ℕ} {lit dist : List ℕ} {out out' : List UInt8} (header : Header src pos pos₁ lit dist)
      (symbols : Symbols src lit dist pos₁ out pos' out') : Block src 2 pos out pos' out'

inductive Blocks (src : List UInt8) : ℕ → List UInt8 → ℕ → List UInt8 → Prop
  | last {pos pos' : ℕ} {out out' : List UInt8} (within : pos + 3 ≤ 8 * src.length) (final : field src pos 1 = 1)
      (block : Block src (field src (pos + 1) 2) (pos + 3) out pos' out') : Blocks src pos out pos' out'
  | next {pos pos₁ pos' : ℕ} {out out₁ out' : List UInt8} (within : pos + 3 ≤ 8 * src.length) (final : field src pos 1 = 0)
      (block : Block src (field src (pos + 1) 2) (pos + 3) out pos₁ out₁) (rest : Blocks src pos₁ out₁ pos' out') :
      Blocks src pos out pos' out'

lemma putByte_some {cap : ℕ} {out : List UInt8} {v : UInt8} (h : out.length < cap) : putByte cap out v = .ok (out ++ [v]) := if_pos h

lemma copyStored_spec {src out : List UInt8} {cap p n : ℕ} (hsrc : p + n ≤ src.length) (hcap : out.length + n ≤ cap) :
    copyStored src cap p n out = .ok (out ++ (src.drop p).take n) := by
  induction n generalizing p out with
  | zero => rw [copyStored,take_zero,append_nil]
  | succ n ih =>
    rw [copyStored,readByte_some (by omega),Stop.ok_bind,putByte_some (by omega),Stop.ok_bind,UInt8.ofNat_toNat,
      ih (by omega) (by rw [length_append,length_singleton]; omega),drop_eq_getElem_cons (by omega : p < src.length),
      take_succ_cons,append_assoc,getD_eq_getElem?_getD,getElem?_eq_getElem (by omega : p < src.length)]
    rfl

lemma repeated_succ {out : List UInt8} {dist n : ℕ} (hdist : 0 < dist) (hback : dist ≤ out.length) :
    repeated out dist (n+1) = out.getD (out.length - dist) 0 :: repeated (out ++ [out.getD (out.length - dist) 0]) dist n := by
  rw [repeated,range_succ_eq_map,map_cons,List.map_map,zero_mod,Nat.add_zero,repeated]
  congr 1
  refine map_congr_left fun i _ => ?_
  simp only [Function.comp_apply,length_append,length_singleton]
  have hmod := mod_lt i hdist
  have hsucc : (i + 1) % dist = if i % dist + 1 = dist then 0 else i % dist + 1 := by
    rw [add_mod]
    by_cases h1 : dist = 1
    · subst h1
      simp [mod_one]
    · rw [mod_eq_of_lt (by omega : 1 < dist)]
      split
      next heq => rw [heq,mod_self]
      next hne => exact mod_eq_of_lt (by omega)
  rw [succ_eq_add_one,hsucc]
  simp only [getD_eq_getElem?_getD]
  split
  next heq =>
    rw [Nat.add_zero,show out.length + 1 - dist + i % dist = out.length by omega,getElem?_concat_length]
    rfl
  next hne =>
    rw [getElem?_append_left (by omega),show out.length - dist + (i % dist + 1) = out.length + 1 - dist + i % dist by omega]

lemma copyBack_spec {cap dist n : ℕ} {out : List UInt8} (hdist : 0 < dist) (hback : dist ≤ out.length) (hcap : out.length + n ≤ cap) :
    copyBack cap dist n out = .ok (out ++ repeated out dist n) := by
  induction n generalizing out with
  | zero => rw [copyBack,repeated,range_zero,map_nil,append_nil]
  | succ n ih =>
    have hget : out[out.length - dist]? = some (out.getD (out.length - dist) 0) := by
      rw [getD_eq_getElem?_getD,getElem?_eq_getElem (by omega : out.length - dist < out.length)]
      rfl
    have hlength : (out ++ [out.getD (out.length - dist) 0]).length = out.length + 1 := by rw [length_append,length_singleton]
    rw [copyBack,hget]
    dsimp only
    rw [putByte_some (by omega),Stop.ok_bind,ih (by omega) (by omega),repeated_succ hdist hback,append_assoc]
    rfl

lemma field_two (src : List UInt8) {p : ℕ} : (src.getD p 0).toNat ||| (src.getD (p+1) 0).toNat <<< 8 = field src (8*p) 16 := by
  rw [Nat.or_comm,← shiftLeft_add_eq_or_of_lt (src.getD p 0).toNat_lt,Nat.shiftLeft_eq,field_add src (8*p) 8 8,field_byte,
    show 8*p + 8 = 8*(p+1) by omega,field_byte]
  ring

lemma ReaderAt.align {src : List UInt8} {pos : ℕ} {br : BitReader} (h : ReaderAt src pos br) (hbuf : br.nbits < 8) : br.p = (pos + 7) / 8 := by
  have := h.place
  omega

lemma readerAt_byte {src : List UInt8} {p : ℕ} (h : p ≤ src.length) : ReaderAt src (8*p) ⟨p,0,0⟩ :=
  ⟨rfl,h,(mod_one _).symm⟩

lemma inflateStored_spec {src out : List UInt8} {cap pos : ℕ} {br : BitReader} (hat : ReaderAt src pos br) (hbuf : br.nbits < 8) :
    (∃ q len, inflateStored src cap br out = .ok (⟨q + 4 + len,0,0⟩,out ++ (src.drop (q + 4)).take len) ∧ q = (pos + 7) / 8 ∧
      len = field src (8 * q) 16 ∧ len + field src (8 * (q + 2)) 16 = 65535 ∧ q + 4 + len ≤ src.length ∧ out.length + len ≤ cap) ∨
    inflateStored src cap br out = .error .malformed ∧
      ∀ pos' out', Block src 0 pos out pos' out' → cap < out'.length := by
  have hq := hat.align hbuf
  have hstored {pos' : ℕ} {out' : List UInt8} (h : Block src 0 pos out pos' out') :
      field src (8 * br.p) 16 + field src (8 * (br.p + 2)) 16 = 65535 ∧ br.p + 4 + field src (8 * br.p) 16 ≤ src.length ∧
        out'.length = out.length + field src (8 * br.p) 16 := by
    cases h with
    | @stored _ q len _ place hlen hnlen within =>
      obtain rfl : q = br.p := place.trans hq.symm
      subst hlen
      refine ⟨hnlen,within,?_⟩
      rw [length_append,length_take,length_drop]
      omega
  have hlt := field_lt src (8 * br.p) 16
  have hlt' := field_lt src (8 * (br.p + 2)) 16
  rw [inflateStored,brAlignByte]
  dsimp only
  by_cases hhead : src.length < br.p + 4
  · rw [if_pos hhead]
    refine .inr ⟨rfl,fun pos' out' h => ?_⟩
    have := (hstored h).2.1
    omega
  · rw [if_neg hhead,readByte_some (by omega),readByte_some (by omega),readByte_some (by omega),readByte_some (by omega)]
    simp only [Stop.ok_bind]
    rw [field_two,field_two (p := br.p + 2)]
    by_cases hnlen : 65535 - field src (8 * br.p) 16 ≠ field src (8 * (br.p + 2)) 16
    · rw [if_pos hnlen]
      refine .inr ⟨rfl,fun pos' out' h => ?_⟩
      have := (hstored h).1
      omega
    · rw [if_neg hnlen]
      by_cases hpayload : src.length < br.p + 4 + field src (8 * br.p) 16
      · rw [if_pos hpayload]
        refine .inr ⟨rfl,fun pos' out' h => ?_⟩
        have := (hstored h).2.1
        omega
      · rw [if_neg hpayload]
        by_cases hcap : cap < out.length + field src (8 * br.p) 16
        · rw [if_pos hcap]
          refine .inr ⟨rfl,fun pos' out' h => ?_⟩
          have := (hstored h).2.2
          omega
        · rw [if_neg hcap,copyStored_spec (by omega) (by omega)]
          exact .inl ⟨br.p,_,rfl,hq,rfl,by omega,by omega,by omega⟩

lemma lenTables {k : ℕ} (h : k < 29) : ∃ e b, lenExtra[k]? = some e ∧ lenBase[k]? = some b ∧ e ≤ 5 := by
  have hlen : k < lenExtra.length := h
  have hlen' : k < lenBase.length := h
  exact ⟨lenExtra.get ⟨k,hlen⟩,lenBase.get ⟨k,hlen'⟩,getElem?_eq_getElem hlen,getElem?_eq_getElem hlen',
    (by decide : ∀ e ∈ lenExtra, e ≤ 5) _ (List.get_mem _ _)⟩

lemma distTables {d : ℕ} (h : d < 30) : ∃ e b, distExtra[d]? = some e ∧ distBase[d]? = some b ∧ e ≤ 13 ∧ 0 < b := by
  have hlen : d < distExtra.length := h
  have hlen' : d < distBase.length := h
  exact ⟨distExtra.get ⟨d,hlen⟩,distBase.get ⟨d,hlen'⟩,getElem?_eq_getElem hlen,getElem?_eq_getElem hlen',
    (by decide : ∀ e ∈ distExtra, e ≤ 13) _ (List.get_mem _ _),(by decide : ∀ b ∈ distBase, 0 < b) _ (List.get_mem _ _)⟩

lemma entry_some {t : List ℕ} {i v : ℕ} (h : t[i]? = some v) : entry t i = .ok v := by rw [entry,h]

lemma length_repeated (out : List UInt8) (dist len : ℕ) : (repeated out dist len).length = len := by
  rw [repeated,length_map,length_range]

lemma Symbols.length_le {src : List UInt8} {lit dist : List ℕ} {pos pos' : ℕ} {out out' : List UInt8} (h : Symbols src lit dist pos out pos' out') :
    out.length ≤ out'.length := by
  induction h with
  | finish => exact Nat.le_refl _
  | literal _ _ _ ih | copy _ _ _ _ _ _ _ _ _ _ ih =>
    rw [length_append] at ih
    omega

lemma Symbols.le {src : List UInt8} {lit dist : List ℕ} {pos pos' : ℕ} {out out' : List UInt8} (h : Symbols src lit dist pos out pos' out') :
    pos ≤ pos' := by
  induction h with
  | finish => exact Nat.le_add_right _ _
  | literal _ _ _ ih | copy _ _ _ _ _ _ _ _ _ _ ih => omega

section
variable {src : List UInt8} {lit dist : List ℕ} {t t' : Huff} {cap : ℕ} (ht : Built lit t) (ht' : Built dist t')
include ht ht'

lemma Symbols.inflate {pos pos' : ℕ} {out out' : List UInt8} (h : Symbols src lit dist pos out pos' out') {fuel : ℕ} {br : BitReader}
    (hat : ReaderAt src pos br) (hbuf : br.nbits < 8) (hfuel : 8 * src.length < pos + fuel) (hcap : out'.length ≤ cap) :
    ∃ br', inflateHuffBlock src t t' cap fuel br out = .ok (br',out') ∧ ReaderAt src pos' br' ∧ br'.nbits < 8 := by
  induction h generalizing fuel br with
  | @finish pos l out code =>
    have hpos := code.positive
    have hwithin := code.within
    obtain ⟨fuel,rfl⟩ := Nat.exists_eq_add_of_le' (by omega : 1 ≤ fuel)
    obtain ⟨br₁,hbr₁,hat₁,hbuf₁⟩ := code.decode ht hat hbuf
    exact ⟨br₁,by rw [inflateHuffBlock,hbr₁]; rfl,hat₁,hbuf₁⟩
  | @literal pos s l pos' out out' code hs rest ih =>
    have hpos := code.positive
    have hwithin := code.within
    have hle := rest.length_le
    rw [length_append,length_singleton] at hle
    obtain ⟨fuel,rfl⟩ := Nat.exists_eq_add_of_le' (by omega : 1 ≤ fuel)
    obtain ⟨br₁,hbr₁,hat₁,hbuf₁⟩ := code.decode ht hat hbuf
    obtain ⟨br',hr,hat',hbuf'⟩ := @ih fuel br₁ hat₁ hbuf₁ (by omega) hcap
    refine ⟨br',?_,hat',hbuf'⟩
    rw [inflateHuffBlock,hbr₁,Stop.ok_bind]
    dsimp only
    rw [if_pos hs,if_neg (by omega),putByte_some (by omega),Stop.ok_bind]
    exact hr
  | @copy pos k l d l' pos' len distance extra extra' out out' code hextra within hlen code' hextra' within' hdist hback rest ih =>
    have hpos := code.positive
    have hwithin := code.within
    have hle := rest.length_le
    rw [length_append,length_repeated] at hle
    obtain ⟨fuel,rfl⟩ := Nat.exists_eq_add_of_le' (by omega : 1 ≤ fuel)
    have hk : k < 29 := (List.getElem?_eq_some_iff.mp hextra).1
    have hd : d < 30 := (List.getElem?_eq_some_iff.mp hextra').1
    obtain ⟨e,b,he,hb,hsmall⟩ := lenTables hk
    obtain ⟨e',b',he',hb',hsmall',hpos'⟩ := distTables hd
    obtain rfl : e = extra := Option.some_inj.mp (he.symm.trans hextra)
    obtain rfl : e' = extra' := Option.some_inj.mp (he'.symm.trans hextra')
    rw [hb,map_some,some_inj] at hlen
    rw [hb',map_some,some_inj] at hdist
    obtain ⟨br₁,hbr₁,hat₁,hbuf₁⟩ := code.decode ht hat hbuf
    have hbits := hat₁.bits hbuf₁ (by omega : e ≤ 16)
    rw [if_pos within] at hbits
    obtain ⟨br₂,hbr₂,hat₂,hbuf₂⟩ := hbits
    obtain ⟨br₃,hbr₃,hat₃,hbuf₃⟩ := code'.decode ht' hat₂ hbuf₂
    have hbits := hat₃.bits hbuf₃ (by omega : e' ≤ 16)
    rw [if_pos within'] at hbits
    obtain ⟨br₄,hbr₄,hat₄,hbuf₄⟩ := hbits
    obtain ⟨br',hr,hat',hbuf'⟩ := @ih fuel br₄ hat₄ hbuf₄ (by omega) hcap
    refine ⟨br',?_,hat',hbuf'⟩
    rw [inflateHuffBlock,hbr₁,Stop.ok_bind]
    dsimp only
    rw [if_neg (by omega),if_neg (by omega),Nat.add_sub_cancel_left,if_neg (by omega),entry_some he,entry_some hb]
    simp only [Stop.ok_bind,hbr₂,hbr₃]
    rw [if_neg (by omega),entry_some he',entry_some hb']
    simp only [Stop.ok_bind,hbr₄]
    rw [hlen,hdist,if_neg (by omega),if_neg (by omega),copyBack_spec (by omega) hback (by omega)]
    exact hr

end

lemma clLengths_zero (src : List UInt8) (pos : ℕ) : clLengths src pos 0 = replicate 19 0 := rfl

lemma length_clLengths (src : List UInt8) (pos n : ℕ) : (clLengths src pos n).length = 19 := by
  rw [clLengths,length_map,length_range]

lemma clLengths_succ (src : List UInt8) (pos : ℕ) {i s : ℕ} (hs : clPerm[i]? = some s) :
    (clLengths src pos i).set s (field src (pos + 3*i) 3) = clLengths src pos (i+1) := by
  have hi : i < 19 := (List.getElem?_eq_some_iff.mp hs).1
  have hindex : ∀ i < 19, ∀ r < 19, (clPerm[i]? = some r ↔ clPerm.idxOf r = i) := by decide
  refine ext_getElem (by rw [length_set,length_clLengths,length_clLengths]) fun r hr hr' => ?_
  rw [length_clLengths] at hr'
  rw [getElem_set]
  simp only [clLengths,getElem_map,getElem_range]
  have hrs := hindex i hi r hr'
  split
  next heq =>
    have hidx := hrs.mp (heq ▸ hs)
    rw [if_pos (by omega),hidx]
  next hne =>
    have hidx : clPerm.idxOf r ≠ i := fun h => hne (Option.some_inj.mp (hs.symm.trans (hrs.mpr h)))
    by_cases hlt : clPerm.idxOf r < i
    · rw [if_pos hlt,if_pos (by omega)]
    · rw [if_neg hlt,if_neg (by omega)]

lemma clLengths_le {src : List UInt8} {pos n : ℕ} : ∀ l ∈ clLengths src pos n, l ≤ maxCodeLen := by
  intro l hl
  obtain ⟨s,-,rfl⟩ := List.mem_map.mp hl
  have hlt := field_lt src (pos + 3 * clPerm.idxOf s) 3
  unfold maxCodeLen
  split <;> omega

lemma readClLens_spec {src : List UInt8} {pos i n : ℕ} {br : BitReader} (hat : ReaderAt src (pos + 3*i) br) (hbuf : br.nbits < 8) (hn : i + n ≤ 19) :
    if pos + 3*(i+n) ≤ 8 * src.length then ∃ br', readClLens src n i br (clLengths src pos i) = .ok (clLengths src pos (i+n),br') ∧
      ReaderAt src (pos + 3*(i+n)) br' ∧ br'.nbits < 8
    else readClLens src n i br (clLengths src pos i) = .error .malformed := by
  induction n generalizing i br with
  | zero =>
    have := hat.place
    have := hat.within
    rw [if_pos (by omega)]
    exact ⟨br,rfl,hat,hbuf⟩
  | succ n ih =>
    rw [readClLens]
    have hbits := hat.bits hbuf (by omega : 3 ≤ 16)
    split at hbits
    next hin =>
      obtain ⟨br₁,hbr₁,hat₁,hbuf₁⟩ := hbits
      obtain ⟨s,hs⟩ : ∃ s, clPerm[i]? = some s := ⟨_,getElem?_eq_getElem (by change i < 19; omega)⟩
      have hlt : s < 19 := (by decide : ∀ s ∈ clPerm, s < 19) s (mem_of_getElem? hs)
      rw [hbr₁,Stop.ok_bind]
      dsimp only
      have hlt' : s < (clLengths src pos i).length := by
        rw [length_clLengths]
        exact hlt
      rw [entry_some hs,Stop.ok_bind,if_pos hlt',clLengths_succ src pos hs]
      have hrest := @ih (i+1) br₁ (by rwa [Nat.mul_succ,← Nat.add_assoc]) hbuf₁ (by omega)
      rwa [show i + (n+1) = i + 1 + n by omega]
    next hout =>
      rw [if_neg (by omega),hbits]
      rfl

lemma CodeLengths.spec {src : List UInt8} {cl : List ℕ} {total pos pos' : ℕ} {lens lens' : List ℕ} (h : CodeLengths src cl total pos lens pos' lens')
    (hlens : ∀ l ∈ lens, l ≤ maxCodeLen) : lens'.length = total ∧ ∀ l ∈ lens', l ≤ maxCodeLen := by
  induction h with
  | done h => exact ⟨h,hlens⟩
  | @single pos s l pos' lens lens' h code hs rest ih =>
    refine ih fun x hx => ?_
    rcases List.mem_append.mp hx with hx | hx
    · exact hlens x hx
    · rw [List.mem_singleton.mp hx]
      exact le_of_lt_succ hs
  | @run pos s l pos' n base v lens lens' h code hrun within fits rest ih =>
    refine ih fun x hx => ?_
    rcases List.mem_append.mp hx with hx | hx
    · exact hlens x hx
    · rw [eq_of_mem_replicate hx]
      rcases hrun with ⟨-,-,-,hlast⟩ | ⟨-,-,-,rfl⟩ | ⟨-,-,-,rfl⟩
      · exact hlens v (mem_of_getLast? hlast)
      · exact Nat.zero_le _
      · exact Nat.zero_le _

lemma CodeLengths.le {src : List UInt8} {cl : List ℕ} {total pos pos' : ℕ} {lens lens' : List ℕ}
    (h : CodeLengths src cl total pos lens pos' lens') : pos ≤ pos' := by
  induction h with
  | done => exact Nat.le_refl _
  | single _ _ _ _ ih | run _ _ _ _ _ _ ih => omega

section
variable {src : List UInt8} {cl : List ℕ} {t : Huff} {total : ℕ} (ht : Built cl t)
include ht

lemma CodeLengths.read {pos pos' : ℕ} {lens lens' : List ℕ} (h : CodeLengths src cl total pos lens pos' lens') {fuel : ℕ} {br : BitReader}
    (hat : ReaderAt src pos br) (hbuf : br.nbits < 8) (hfuel : 8 * src.length < pos + fuel) :
    ∃ br', readLens src t total fuel br lens = .ok (lens',br') ∧ ReaderAt src pos' br' ∧ br'.nbits < 8 := by
  have hplace := hat.place
  have hinside := hat.within
  induction h generalizing fuel br with
  | @done pos lens h =>
    obtain ⟨fuel,rfl⟩ := Nat.exists_eq_add_of_le' (by omega : 1 ≤ fuel)
    exact ⟨br,by rw [readLens,if_neg (by omega)],hat,hbuf⟩
  | @single pos s l pos' lens lens' h code hs rest ih =>
    have hpos := code.positive
    obtain ⟨fuel,rfl⟩ := Nat.exists_eq_add_of_le' (by omega : 1 ≤ fuel)
    obtain ⟨br₁,hbr₁,hat₁,hbuf₁⟩ := code.decode ht hat hbuf
    obtain ⟨br',hr,hat',hbuf'⟩ := @ih fuel br₁ hat₁ hbuf₁ (by omega) hat₁.place hat₁.within
    refine ⟨br',?_,hat',hbuf'⟩
    rw [readLens,if_pos h,hbr₁,Stop.ok_bind]
    dsimp only
    rw [if_pos hs]
    exact hr
  | @run pos s l pos' n base v lens lens' h code hrun within fits rest ih =>
    have hpos := code.positive
    obtain ⟨fuel,rfl⟩ := Nat.exists_eq_add_of_le' (by omega : 1 ≤ fuel)
    obtain ⟨br₁,hbr₁,hat₁,hbuf₁⟩ := code.decode ht hat hbuf
    have hbits := hat₁.bits hbuf₁ (by omega : n ≤ 16)
    rw [if_pos within] at hbits
    obtain ⟨br₂,hbr₂,hat₂,hbuf₂⟩ := hbits
    obtain ⟨br',hr,hat',hbuf'⟩ := @ih fuel br₂ hat₂ hbuf₂ (by omega) hat₂.place hat₂.within
    refine ⟨br',?_,hat',hbuf'⟩
    rw [readLens,if_pos h,hbr₁,Stop.ok_bind]
    dsimp only
    rcases hrun with ⟨rfl,rfl,rfl,hlast⟩ | ⟨rfl,rfl,rfl,rfl⟩ | ⟨rfl,rfl,rfl,rfl⟩
    · rw [if_neg (by decide),if_pos rfl,hlast]
      dsimp only
      rw [hbr₂,Stop.ok_bind]
      dsimp only
      rw [if_neg (by omega)]
      exact hr
    · rw [if_neg (by decide),if_neg (by decide),if_pos rfl,hbr₂,Stop.ok_bind]
      dsimp only
      rw [if_neg (by omega)]
      exact hr
    · rw [if_neg (by decide),if_neg (by decide),if_neg (by decide),if_pos rfl,hbr₂,Stop.ok_bind]
      dsimp only
      rw [if_neg (by omega)]
      exact hr

end

lemma headerFields {src : List UInt8} {pos : ℕ} {br : BitReader} (hat : ReaderAt src pos br) (hbuf : br.nbits < 8) :
    if pos + 14 ≤ 8 * src.length then ∃ br', brNeed src 14 2 br = .ok br' ∧ (brGet br' 5).1 = field src pos 5 ∧
      (brGet (brGet br' 5).2 5).1 = field src (pos + 5) 5 ∧ (brGet (brGet (brGet br' 5).2 5).2 4).1 = field src (pos + 10) 4 ∧
        ReaderAt src (pos + 14) (brGet (brGet (brGet br' 5).2 5).2 4).2 ∧ (brGet (brGet (brGet br' 5).2 5).2 4).2.nbits < 8
    else brNeed src 14 2 br = .error .malformed := by
  have hneed := hat.need (by omega : 14 ≤ 24) (by omega : 14 ≤ br.nbits + 8 * 2)
  split at hneed
  next hin =>
    obtain ⟨br',hbr',hat',hge,hle⟩ := hneed
    obtain ⟨h1,hat1,hn1⟩ := hat'.get (by omega : 5 ≤ br'.nbits)
    obtain ⟨h2,hat2,hn2⟩ := hat1.get (by omega : 5 ≤ (brGet br' 5).2.nbits)
    obtain ⟨h3,hat3,hn3⟩ := hat2.get (by omega : 4 ≤ (brGet (brGet br' 5).2 5).2.nbits)
    rw [if_pos hin]
    exact ⟨br',hbr',h1,h2,h3,hat3,by omega⟩
  next hout => rwa [if_neg hout]

lemma Header.read {src : List UInt8} {fuel pos pos' : ℕ} {lit dist : List ℕ} (h : Header src pos pos' lit dist) {br : BitReader}
    (hat : ReaderAt src pos br) (hbuf : br.nbits < 8) (hfuel : 8 * src.length < pos + fuel) :
    ∃ t t' br', inflateDynamicTables src fuel br = .ok (t,t',br') ∧ Built lit t ∧ Built dist t' ∧ ReaderAt src pos' br' ∧ br'.nbits < 8 ∧ pos ≤ pos' := by
  have hwithin := h.within
  have hlit := h.literals
  have hdist := h.distances
  have hfew := h.fewLiterals
  have hfew' := h.fewDistances
  have hclen := field_lt src (pos + 10) 4
  have hfields := headerFields hat hbuf
  rw [if_pos (by omega)] at hfields
  obtain ⟨br₁,hneed,h1,h2,h3,hat₁,hbuf₁⟩ := hfields
  have hcl := @readClLens_spec src (pos + 14) 0 (field src (pos + 10) 4 + 4) _ hat₁ hbuf₁ (by omega)
  rw [Nat.zero_add,clLengths_zero,if_pos hwithin] at hcl
  obtain ⟨br₃,hbr₃,hat₃,hbuf₃⟩ := hcl
  obtain ⟨cl,hcl,hbuilt⟩ := huffBuild_some (@clLengths_le src (pos + 14) (field src (pos + 10) 4 + 4)) (by rw [length_clLengths]; decide)
  obtain ⟨br',hr,hat',hbuf'⟩ := h.lengths.read hbuilt hat₃ hbuf₃ (by omega : 8 * src.length < _ + fuel)
  obtain ⟨-,hshort⟩ := h.lengths.spec fun l hl => absurd hl not_mem_nil
  obtain ⟨t,ht,hbt⟩ := @huffBuild_some lit (fun l hl => hshort l (mem_append_left _ hl)) (by unfold maxSyms; omega)
  obtain ⟨t',ht',hbt'⟩ := @huffBuild_some dist (fun l hl => hshort l (mem_append_right _ hl)) (by unfold maxSyms; omega)
  refine ⟨t,t',br',?_,hbt,hbt',hat',hbuf',(by omega : pos ≤ _).trans h.lengths.le⟩
  rw [inflateDynamicTables,hneed,Stop.ok_bind]
  dsimp only
  rw [h1,h2,h3,if_neg (by omega),hbr₃,Stop.ok_bind]
  dsimp only
  rw [hcl,Stop.ok_bind,← hlit,← hdist,hr,Stop.ok_bind]
  dsimp only
  rw [take_left,drop_left,ht,ht']
  rfl

lemma Block.length_le {src : List UInt8} {btype pos pos' : ℕ} {out out' : List UInt8} (h : Block src btype pos out pos' out') :
    out.length ≤ out'.length := by
  cases h with
  | stored =>
    rw [length_append]
    omega
  | fixed symbols | dynamic _ symbols => exact symbols.length_le

lemma Blocks.length_le {src : List UInt8} {pos pos' : ℕ} {out out' : List UInt8} (h : Blocks src pos out pos' out') : out.length ≤ out'.length := by
  induction h with
  | last _ _ block => exact block.length_le
  | next _ _ block _ ih => exact block.length_le.trans ih

lemma fixedTables : ∃ t t', huffBuild fixedLens = .ok t ∧ huffBuild fixedDistLens = .ok t' ∧ Built fixedLens t ∧ Built fixedDistLens t' := by
  have hshort : ∀ l ∈ fixedLens, l ≤ maxCodeLen := by
    intro l hl
    simp only [fixedLens,mem_append,mem_replicate] at hl
    unfold maxCodeLen
    omega
  have hlength : fixedLens.length = 288 := by simp only [fixedLens,length_append,length_replicate]
  obtain ⟨t,ht,hb⟩ := @huffBuild_some fixedLens hshort hlength.le
  obtain ⟨t',ht',hb'⟩ := @huffBuild_some fixedDistLens (by decide) (by decide)
  exact ⟨t,t',ht,ht',hb,hb'⟩

section
variable {src : List UInt8} {cap turns : ℕ}

lemma Block.inflate {btype pos pos' : ℕ} {out out' : List UInt8} (h : Block src btype pos out pos' out') {br : BitReader}
    (hat : ReaderAt src pos br) (hbuf : br.nbits < 8) (hturns : 8 * src.length < pos + turns) (hcap : out'.length ≤ cap) :
    ∃ br', inflateBlock src cap turns btype br out = .ok (br',out') ∧ ReaderAt src pos' br' ∧ br'.nbits < 8 ∧ pos ≤ pos' := by
  rw [inflateBlock]
  cases h with
  | @stored _ q len _ place hlen hnlen within =>
    rw [if_pos rfl]
    obtain ⟨q',len',hr,hq,hlen',-,-,-⟩ | ⟨-,hnone⟩ := @inflateStored_spec src out cap pos br hat hbuf
    · obtain rfl : q = q' := place.trans hq.symm
      obtain rfl : len = len' := hlen.trans hlen'.symm
      exact ⟨_,hr,readerAt_byte within,Nat.succ_pos 7,by omega⟩
    · have := hnone _ _ (.stored place hlen hnlen within)
      omega
  | fixed symbols =>
    obtain ⟨t,t',ht,ht',hb,hb'⟩ := fixedTables
    rw [if_neg (by decide),if_pos rfl,ht,ht',Stop.ok_bind,Stop.ok_bind]
    obtain ⟨br',hr,hat',hbuf'⟩ := symbols.inflate hb hb' hat hbuf hturns hcap
    exact ⟨br',hr,hat',hbuf',symbols.le⟩
  | @dynamic _ pos₁ _ _ _ _ _ header symbols =>
    obtain ⟨t,t',br₁,htables,hb,hb',hat₁,hbuf₁,hge₁⟩ := header.read hat hbuf hturns
    rw [if_neg (by decide),if_neg (by decide),if_pos rfl,htables,Stop.ok_bind]
    dsimp only
    obtain ⟨br',hr,hat',hbuf'⟩ := symbols.inflate hb hb' hat₁ hbuf₁ (by omega : 8 * src.length < pos₁ + turns) hcap
    exact ⟨br',hr,hat',hbuf',hge₁.trans symbols.le⟩

lemma blockBits {pos : ℕ} {br : BitReader} (hat : ReaderAt src pos br) (hbuf : br.nbits < 8) :
    if pos + 3 ≤ 8 * src.length then ∃ br', brNeed src 3 2 br = .ok br' ∧ (brGet br' 1).1 = field src pos 1 ∧
      (brGet (brGet br' 1).2 2).1 = field src (pos + 1) 2 ∧ ReaderAt src (pos + 3) (brGet (brGet br' 1).2 2).2 ∧ (brGet (brGet br' 1).2 2).2.nbits < 8
    else brNeed src 3 2 br = .error .malformed := by
  have hneed := hat.need (by omega : 3 ≤ 24) (by omega : 3 ≤ br.nbits + 8 * 2)
  split at hneed
  next hin =>
    obtain ⟨br',hbr',hat',hge,hle⟩ := hneed
    obtain ⟨h1,hat1,hn1⟩ := hat'.get (by omega : 1 ≤ br'.nbits)
    obtain ⟨h2,hat2,hn2⟩ := hat1.get (by omega : 2 ≤ (brGet br' 1).2.nbits)
    rw [if_pos hin]
    exact ⟨br',hbr',h1,h2,hat2,by omega⟩
  next hout => rwa [if_neg hout]

lemma inflateBlocks_succ (fuel : ℕ) (br : BitReader) (out : List UInt8) : inflateBlocks src cap turns (fuel+1) br out = (do
    let br ← brNeed src 3 2 br
    let r ← inflateBlock src cap turns (brGet (brGet br 1).2 2).1 (brGet (brGet br 1).2 2).2 out
    if (brGet br 1).1 = 0 then inflateBlocks src cap turns fuel r.1 r.2
    else if r.2.length = cap then return r.2
    else .error .malformed) := by
  rfl

lemma Blocks.inflate {pos pos' : ℕ} {out out' : List UInt8} (h : Blocks src pos out pos' out') {fuel : ℕ} {br : BitReader}
    (hat : ReaderAt src pos br) (hbuf : br.nbits < 8) (hfuel : 8 * src.length < pos + fuel) (hturns : 8 * src.length < turns)
    (hcap : out'.length = cap) : inflateBlocks src cap turns fuel br out = .ok out' := by
  induction h generalizing fuel br with
  | @last pos pos' out out' within final block =>
    obtain ⟨fuel,rfl⟩ := Nat.exists_eq_add_of_le' (by omega : 1 ≤ fuel)
    have hbits := blockBits hat hbuf
    rw [if_pos within] at hbits
    obtain ⟨br₁,hneed,h1,h2,hat₁,hbuf₁⟩ := hbits
    obtain ⟨br₂,hr,-⟩ := block.inflate hat₁ hbuf₁ (by omega : 8 * src.length < pos + 3 + turns) hcap.le
    rw [inflateBlocks_succ,hneed,Stop.ok_bind,h1,h2,hr,Stop.ok_bind,if_neg (by omega)]
    exact if_pos hcap
  | @next pos pos₁ pos' out out₁ out' within final block rest ih =>
    obtain ⟨fuel,rfl⟩ := Nat.exists_eq_add_of_le' (by omega : 1 ≤ fuel)
    have hbits := blockBits hat hbuf
    have hle := rest.length_le
    rw [if_pos within] at hbits
    obtain ⟨br₁,hneed,h1,h2,hat₁,hbuf₁⟩ := hbits
    obtain ⟨br₂,hr,hat₂,hbuf₂,hge⟩ := block.inflate hat₁ hbuf₁ (by omega : 8 * src.length < pos + 3 + turns) (by omega : out₁.length ≤ cap)
    rw [inflateBlocks_succ,hneed,Stop.ok_bind,h1,h2,hr,Stop.ok_bind,if_pos final]
    exact ih hat₂ hbuf₂ (by omega) hcap

end

end VibeOS.Libc

import VibeOS.Libc.Vsnprintf
import VibeOS.Libc.Strtol

/-! Numbers that `vsnprintf` writes, read back by `strtoll` and `strtoull`. -/
namespace VibeOS.Libc
open List Printf

def textBytes (text : List Char) : List UInt8 := text.map fun c => UInt8.ofNat c.toNat

lemma digitValue_digitChar (upper : Bool) : ∀ d < 16, digitValue (UInt8.ofNat (digitChar upper d).toNat) = d := by
  cases upper <;> decide

/-- White space, the signs and `x` are no digits. -/
lemma digit_ne {base : ℤ} {c : UInt8} (hbase : base ≤ 16) (h : isDigit base c = true) : c ∉ [32,9,10,11,12,13,43,45,120,88] := by
  intro hc
  have hvalue := of_decide_eq_true h
  have hnone : [32,9,10,11,12,13,43,45,120,88].all (fun x => digitValue x < 0 ∨ 16 ≤ digitValue x) = true := by decide
  rcases of_decide_eq_true (all_eq_true.mp hnone c hc) with h | h <;> omega

lemma isX_digit {base : ℤ} {c : UInt8} (hbase : base ≤ 16) (h : isDigit base c = true) : isX c = false := by
  rw [Bool.eq_false_iff]
  intro hx
  refine digit_ne hbase h ?_
  simp only [isX,Bool.or_eq_true,decide_eq_true_eq] at hx
  rcases hx with rfl | rfl <;> decide

lemma strip_digit {base : ℤ} {c : UInt8} (hbase : base ≤ 16) (h : isDigit base c = true) (s : List UInt8) :
    takeSign (skipSpace (c :: s)) = (false,c :: s) := by
  have hne := digit_ne hbase h
  simp only [mem_cons,not_or] at hne
  rw [skipSpace,dropWhile_cons_of_neg (by simp [isSpace,hne]),takeSign,if_neg hne.2.2.2.2.2.2.1,if_neg hne.2.2.2.2.2.2.2.1]

lemma isDigit_numberText {base : ℕ} (h₁ : 1 < base) (h₂ : base ≤ 16) (upper : Bool) (n : ℕ) :
    ∀ c ∈ textBytes (numberText base upper n), isDigit base c = true := by
  intro c hc
  obtain ⟨x,hx,rfl⟩ := mem_map.mp hc
  obtain ⟨d,hd,rfl⟩ := mem_map.mp hx
  have hlt := Nat.digits_lt_base h₁ (mem_reverse.mp hd)
  rw [isDigit,digitValue_digitChar upper d (by omega)]
  exact decide_eq_true ⟨by omega,by omega⟩

lemma magnitude_numberText {base : ℕ} (h₁ : 1 < base) (h₂ : base ≤ 16) (upper : Bool) (n : ℕ) :
    magnitude base 0 (textBytes (numberText base upper n)) = n := by
  rw [magnitude,textBytes,numberText,foldl_map,foldl_map,foldl_reverse]
  calc _ = (Nat.digits base n).foldr (fun d a => d + base * a) 0 := by
        refine foldr_ext _ _ _ fun d hd a => ?_
        have hlt := Nat.digits_lt_base h₁ hd
        rw [digitValue_digitChar upper d (by omega),Int.toNat_natCast,Int.toNat_natCast]
        ring
    _ = n := by
        have h := Nat.ofDigits_eq_foldr base (Nat.digits base n)
        rw [Nat.ofDigits_digits] at h
        exact h.symm

lemma magnitude_zeros {base : ℤ} (k : ℕ) (s : List UInt8) : magnitude base 0 (replicate k 48 ++ s) = magnitude base 0 s := by
  induction k with
  | zero => rfl
  | succ k ih =>
    rw [← ih,replicate_succ,cons_append,magnitude,foldl_cons,Nat.zero_mul]
    rfl

/-- Blanks, what stands before the digits, zeros, the digits and blanks. -/
lemma field_shape (r : Request) (pre : List Char) (base : ℕ) (upper : Bool) (n : ℕ) : ∃ a k c, r.field true pre (r.digits base upper n) =
    replicate a ' ' ++ (pre ++ ((replicate k '0' ++ numberText base upper n) ++ replicate c ' ')) := by
  unfold Request.field Request.digits
  generalize r.prec.getD 1 - (numberText base upper n).length = k
  dsimp only
  generalize r.width - _ = fill
  split
  · exact ⟨0,k,fill,append_assoc pre _ _⟩
  · split
    · exact ⟨0,fill+k,0,by simp only [replicate_zero,nil_append,append_nil,← replicate_append_replicate,append_assoc]⟩
    · exact ⟨fill,k,0,by simp only [replicate_zero,append_nil,append_assoc]⟩

lemma skipSpace_blanks (a : ℕ) (s : List UInt8) : skipSpace (replicate a 32 ++ s) = skipSpace s := by
  induction a with
  | zero => rfl
  | succ a ih =>
    rw [← ih]
    rfl

section
variable {base : ℤ} {ds : List UInt8} (hbase : base ≤ 16) (hds : ∀ c ∈ ds, isDigit base c = true)
include hbase hds

lemma strip_digits (c : ℕ) : ∃ c', takeSign (skipSpace (ds ++ replicate c 32)) = (false,ds ++ replicate c' 32) := by
  rcases ds with _ | ⟨d,ds⟩
  · refine ⟨0,?_⟩
    rw [nil_append,← append_nil (replicate c 32),skipSpace_blanks]
    rfl
  · exact ⟨c,strip_digit hbase (hds d mem_cons_self) _⟩

lemma isX_digits (c i : ℕ) : isX ((ds ++ replicate c 32).getD i 0) = false := by
  by_cases hi : i < (ds ++ replicate c 32).length
  · rw [getD_eq_getElem _ _ hi]
    rcases mem_append.mp (getElem_mem hi) with h | h
    · exact isX_digit hbase (hds _ h)
    · rw [eq_of_mem_replicate h]
      rfl
  · rw [getD_eq_default _ _ (not_lt.mp hi)]
    rfl

lemma not_zeroAlone (h₀ : 8 ≤ base) (c : ℕ) : ¬ ZeroAlone base (ds ++ replicate c 32) := by
  rintro ⟨-,⟨rfl,-⟩ | ⟨-,hx,-⟩⟩
  · omega
  · rw [isX_digits hbase hds] at hx
    exact absurd hx Bool.false_ne_true

lemma subject_digits (h₀ : 8 ≤ base) (c : ℕ) : subject base (ds ++ replicate c 32) = (base,ds ++ replicate c 32) := by
  rw [subject,if_neg,if_neg (by omega)]
  rintro ⟨-,h⟩
  rw [hexPrefix,isX_digits hbase hds,Bool.and_false,Bool.false_and] at h
  exact Bool.false_ne_true h

omit hbase in
lemma takeWhile_digits (c : ℕ) : (ds ++ replicate c 32).takeWhile (isDigit base) = ds ∧
    (ds ++ replicate c 32).dropWhile (isDigit base) = replicate c 32 := by
  rw [takeWhile_append_of_pos hds,dropWhile_append_of_pos hds]
  cases c with
  | zero => exact ⟨append_nil _,rfl⟩
  | succ c =>
    have hblank : ¬ isDigit base 32 = true := fun h => absurd (of_decide_eq_true h).1 (by decide)
    rw [replicate_succ,takeWhile_cons_of_neg hblank,dropWhile_cons_of_neg hblank]
    exact ⟨append_nil _,rfl⟩

lemma not_signTwice (h₀ : 8 ≤ base) (c : ℕ) : ¬ SignTwice base (ds ++ replicate c 32) := by
  obtain ⟨c',hstrip⟩ := strip_digits hbase hds c
  rintro ⟨hne,-,hdigits⟩
  rw [hstrip] at hne hdigits
  rw [subjectDigits,subject_digits hbase hds h₀,(takeWhile_digits hds c').1] at hdigits
  rcases ds with _ | ⟨d,ds⟩
  · exact hdigits rfl
  · rw [cons_append,strip_digit hbase (hds d mem_cons_self)] at hstrip
    exact hne (congrArg Prod.snd hstrip).symm

lemma strip_field {pre : List Char} (hpre : pre ∈ [[],['+'],[' '],['-']]) (a c : ℕ) :
    ∃ c', takeSign (skipSpace (replicate a 32 ++ (textBytes pre ++ (ds ++ replicate c 32)))) = (decide (pre = ['-']),ds ++ replicate c' 32) := by
  simp only [mem_cons,not_mem_nil,or_false] at hpre
  rw [skipSpace_blanks]
  rcases hpre with rfl | rfl | rfl | rfl
  · exact strip_digits hbase hds c
  · exact ⟨c,rfl⟩
  · exact strip_digits hbase hds c
  · exact ⟨c,rfl⟩

end

lemma nul_notMem_field (r : Request) {pre : List Char} (hpre : pre ∈ [[],['+'],[' '],['-']]) {base : ℕ} (h₁ : 1 < base) (h₂ : base ≤ 16)
    (upper : Bool) (n : ℕ) : '\x00' ∉ r.field true pre (r.digits base upper n) := by
  have hdigit : ∀ d < 16, digitChar upper d ≠ '\x00' := by
    cases upper <;> decide
  have hsign : ∀ pre ∈ [[],['+'],[' '],['-']], '\x00' ∉ pre := by decide
  obtain ⟨a,k,c,hshape⟩ := field_shape r pre base upper n
  simp only [hshape,mem_append,mem_replicate,numberText,mem_map,mem_reverse,not_or]
  refine ⟨fun h => absurd h.2 (by decide),hsign pre hpre,⟨fun h => absurd h.2 (by decide),?_⟩,fun h => absurd h.2 (by decide)⟩
  rintro ⟨d,hd,heq⟩
  have hlt := Nat.digits_lt_base h₁ hd
  exact hdigit d (by omega) heq

lemma textBytes_field (r : Request) (pre : List Char) {base : ℕ} (h₁ : 1 < base) (h₂ : base ≤ 16) (upper : Bool) (n : ℕ) :
    ∃ a c ds, textBytes (r.field true pre (r.digits base upper n)) = replicate a 32 ++ (textBytes pre ++ (ds ++ replicate c 32)) ∧
      (∀ x ∈ ds, isDigit base x = true) ∧ magnitude base 0 ds = n := by
  obtain ⟨a,k,c,hshape⟩ := field_shape r pre base upper n
  refine ⟨a,c,replicate k 48 ++ textBytes (numberText base upper n),?_,?_,?_⟩
  · rw [hshape]
    simp only [textBytes,map_append,map_replicate]
    rfl
  · intro x hx
    rcases mem_append.mp hx with h | h
    · rw [eq_of_mem_replicate h]
      exact decide_eq_true ⟨Int.le_refl 0,by change (0 : ℤ) < base; omega⟩
    · exact isDigit_numberText h₁ h₂ upper n x h
  · rw [magnitude_zeros,magnitude_numberText h₁ h₂]

/-- A number field converts to the value that `clamp` makes of its sign and its number. -/
lemma standard_field (r : Request) {pre : List Char} (hpre : pre ∈ [[],['+'],[' '],['-']]) {base : ℕ} (h₁ : 8 ≤ base) (h₂ : base ≤ 16)
    (upper : Bool) {n : ℕ} {clamp : Bool → ℕ → ℤ × Bool} {v : ℤ} (hclamp : clamp (pre = ['-']) n = (v,false)) (hzero : n = 0 → v = 0)
    {s : List UInt8} (hs : textBytes (r.field true pre (r.digits base upper n)) = s) :
    ¬ ZeroAlone base (takeSign (skipSpace s)).2 ∧ ¬ SignTwice base (takeSign (skipSpace s)).2 ∧
      (standard clamp s base).value = v ∧ (standard clamp s base).erange = false := by
  have hbase : (base : ℤ) ≤ 16 := by omega
  have h₀ : 8 ≤ (base : ℤ) := by omega
  obtain ⟨a,c,ds,hbytes,hds,hmag⟩ := textBytes_field r pre (by omega) h₂ upper n
  obtain ⟨c',hstrip⟩ := strip_field hbase hds hpre a c
  rw [← hbytes,hs] at hstrip
  rw [hstrip]
  refine ⟨not_zeroAlone hbase hds h₀ c',not_signTwice hbase hds h₀ c',?_⟩
  rw [standard,hstrip]
  dsimp only
  rw [subject_digits hbase hds h₀]
  dsimp only
  rw [(takeWhile_digits hds c').1]
  split
  next hnil =>
    rw [hnil] at hmag
    exact ⟨(hzero hmag.symm).symm,rfl⟩
  next =>
    rw [hmag,hclamp]
    exact ⟨rfl,rfl⟩

/-- One directive, in a buffer with room for its output. -/
lemma vsnprintf_directive {d : Directive} (hd : d.WellFormed) {args args' : List Arg} {r : Request} (hres : d.resolve args = some (r,args'))
    (hserved : r.Served) {text : List Char} (hout : r.output 0 = some (text,[])) {cap : ℕ} (hcap : text.length < cap) (hint : text.length < 2^31)
    (m : ℕ → Char) : ∃ s : FmtSink, vsnprintf (some m) cap (formatText [.directive d]) args = some (s,(text.length : ℤ)) ∧
      s.buf = some (filled m (text ++ ['\x00'])) := by
  have hinit : Sent (some m) cap [] [] ⟨some m,cap,0,0,[],[],[]⟩ := by
    refine ⟨rfl,rfl,rfl,?_,fun h => absurd h (Option.some_ne_none m)⟩
    rintro _ ⟨⟩
    exact ⟨by rw [take_nil]; rfl,(Nat.min_eq_right (Nat.zero_le _)).symm,rfl⟩
  have hall : resolveAll [.directive d] args = some [.request r] := by
    rw [resolveAll,hres]
    rfl
  have hc99 : c99Output [.request r] [] = some (text,[]) := by
    rw [c99Output,length_nil,hout]
    rfl
  have hwf : ∀ i ∈ [Item.directive d], i.WellFormed := forall_mem_singleton.mpr hd
  obtain ⟨s,hs,hsent⟩ := fmtLoop_spec hwf hall
    (fun r' hr => by rw [Piece.request.inj (mem_singleton.mp hr)]; exact hserved) hc99 (by omega) hinit (Nat.le_refl _)
  have hvalue : wrap32 s.total = text.length := by
    rw [hsent.total]
    exact wrap32_of_lt (by omega) (by omega)
  refine ⟨fmtFinish s,by rw [vsnprintf,fmtVformat,hs,Option.map_some,hvalue],?_⟩
  rw [hsent.finish_buffer.1,c99Memory,if_neg (by omega),take_of_length_le (by omega)]

lemma signed_range {len : Length} {arg : Arg} {v : ℤ} (h : len.signed arg = some v) : llongMin ≤ v ∧ v ≤ llongMax := by
  have hrange {w : ℕ} (x : BitVec w) (hw : w ≤ 64) : llongMin ≤ x.toInt ∧ x.toInt ≤ llongMax := by
    have hpow : (2 : ℤ)^(w-1) ≤ 2^63 := pow_le_pow_right₀ (by decide) (by omega)
    have hlt := x.toInt_lt
    have hle := x.le_toInt
    unfold llongMin llongMax
    omega
  cases arg <;> cases len <;> cases h <;> exact hrange _ (by decide)

lemma unsigned_le {len : Length} {arg : Arg} {n : ℕ} (h : len.unsigned arg = some n) : n ≤ ullongMax := by
  have hrange {w : ℕ} (x : BitVec w) (hw : w ≤ 64) : x.toNat ≤ ullongMax :=
    Nat.le_sub_one_of_lt (x.isLt.trans_le (Nat.pow_le_pow_right (by decide) hw))
  cases arg <;> cases len <;> cases h <;> exact hrange _ (by decide)

/-- What `%d` writes, whatever its flags, width and precision, `strtoll` reads back. -/
theorem strtoll_vsnprintf {d : Directive} (hd : d.WellFormed) (hconv : d.conv = .d ∨ d.conv = .i) {args args' : List Arg} {r : Request}
    (hres : d.resolve args = some (r,args')) (hserved : r.Served) {text : List Char} (hout : r.output 0 = some (text,[])) {cap : ℕ}
    (hcap : text.length < cap) (hint : text.length < 2^31) (m : ℕ → Char) :
    ∃ s : FmtSink, vsnprintf (some m) cap (formatText [.directive d]) args = some (s,(text.length : ℤ)) ∧ s.buf = some (filled m (text ++ ['\x00'])) ∧
      '\x00' ∉ text ∧ r.length.signed r.arg = some (strtoll (textBytes text) 10).value ∧ (strtoll (textBytes text) 10).erange = false := by
  obtain ⟨s,hrun,hbuf⟩ := vsnprintf_directive hd hres hserved hout hcap hint m
  obtain ⟨v,hv,htext⟩ : ∃ v, r.length.signed r.arg = some v ∧ r.field true (r.sign v) (r.digits 10 false v.natAbs) = text := by
    obtain ⟨-,-,-,-,hr⟩ := d.resolve_some hres
    rw [Request.output,hr] at hout
    rcases hconv with h | h <;> rw [h] at hout <;> obtain ⟨v,hv,hpair⟩ := Option.map_eq_some_iff.mp hout <;>
      exact ⟨v,hv,congrArg Prod.fst hpair⟩
  have hrange := signed_range hv
  have hsign : r.sign v ∈ [[],['+'],[' '],['-']] ∧ (r.sign v = ['-'] ↔ v < 0) := by
    unfold Request.sign
    split_ifs with h <;> simp [h]
  have hclamp : signed (decide (r.sign v = ['-'])) v.natAbs = (v,false) := by
    have habs : (if decide (r.sign v = ['-']) = true then -(v.natAbs : ℤ) else v.natAbs) = v := by
      simp only [decide_eq_true_eq,hsign.2]
      split <;> omega
    simp only [signed,habs]
    rw [if_neg (not_lt.mpr hrange.1),if_neg (not_lt.mpr hrange.2)]
  have hnul := nul_notMem_field r hsign.1 (by decide : 1 < 10) (by decide) false v.natAbs
  rw [htext] at hnul
  obtain ⟨hz,ht,hvalue,herange⟩ := standard_field r hsign.1 (by decide : 8 ≤ 10) (by decide) false hclamp Int.natAbs_eq_zero.mp (congrArg _ htext)
  rw [Nat.cast_ofNat] at hz ht hvalue herange
  rw [(strtoll_iff (.inr (by decide)) _).mpr ⟨hz,ht⟩,hvalue]
  exact ⟨s,hrun,hbuf,hnul,hv,herange⟩

/-- `%06ld` -/
theorem strtoll_vsnprintf_padded : ∃ s : FmtSink, vsnprintf (some fun _ => 'z') 8 "%06ld".toList [.long (-42)] = some (s,6) ∧
    s.buf = some (filled (fun _ => 'z') ("-00042".toList ++ ['\x00'])) ∧ (strtoll (textBytes "-00042".toList) 10).value = -42 := by
  have hd : Directive.WellFormed ⟨[.zero],some (.number ['6']),none,.l,.d⟩ :=
    ⟨by rintro _ ⟨⟩; exact ⟨forall_mem_singleton.mpr (by decide),_,_,rfl,by decide⟩,by rintro _ ⟨⟩⟩
  have hres : Directive.resolve ⟨[.zero],some (.number ['6']),none,.l,.d⟩ [.long (-42)] = some (⟨[.zero],6,none,.l,.d,.long (-42)⟩,[]) := rfl
  have hout : Request.output ⟨[.zero],6,none,.l,.d,.long (-42)⟩ 0 = some ("-00042".toList,[]) := by
    simp [Request.output,Length.signed,Request.field,Request.sign,Request.digits,numberText]
    decide
  obtain ⟨s,hrun,hbuf,-,hvalue,-⟩ := strtoll_vsnprintf hd (.inl rfl) hres ⟨by decide,by rintro _ ⟨⟩,rfl⟩ hout (by decide : _ < 8) (by decide) fun _ => 'z'
  exact ⟨s,hrun,hbuf,(Option.some.inj hvalue).symm⟩

/-- Without `#`, what `%u`, `%o`, `%x` and `%X` write `strtoull` reads back in their base. -/
theorem strtoull_vsnprintf {d : Directive} (hd : d.WellFormed) {base : ℕ}
    (hconv : d.conv = .u ∧ base = 10 ∨ d.conv = .o ∧ base = 8 ∨ (d.conv = .x ∨ d.conv = .X) ∧ base = 16) {args args' : List Arg} {r : Request}
    (hres : d.resolve args = some (r,args')) (hhash : Flag.hash ∉ r.flags) (hserved : r.Served) {text : List Char}
    (hout : r.output 0 = some (text,[])) {cap : ℕ} (hcap : text.length < cap) (hint : text.length < 2^31) (m : ℕ → Char) :
    ∃ (s : FmtSink) (n : ℕ), vsnprintf (some m) cap (formatText [.directive d]) args = some (s,(text.length : ℤ)) ∧
      s.buf = some (filled m (text ++ ['\x00'])) ∧ '\x00' ∉ text ∧ r.length.unsigned r.arg = some n ∧
      (strtoull (textBytes text) base).value = n ∧ (strtoull (textBytes text) base).erange = false := by
  obtain ⟨s,hrun,hbuf⟩ := vsnprintf_directive hd hres hserved hout hcap hint m
  obtain ⟨n,upper,hn,htext⟩ : ∃ n upper, r.length.unsigned r.arg = some n ∧ r.field true [] (r.digits base upper n) = text := by
    obtain ⟨-,-,-,-,hr⟩ := d.resolve_some hres
    rw [Request.output,hr] at hout
    rcases hconv with ⟨h,rfl⟩ | ⟨h,rfl⟩ | ⟨h | h,rfl⟩ <;> rw [h] at hout <;> obtain ⟨n,hn,hpair⟩ := Option.map_eq_some_iff.mp hout
    · exact ⟨n,false,hn,congrArg Prod.fst hpair⟩
    · rw [Request.octal,if_neg fun h => hhash h.1] at hpair
      exact ⟨n,false,hn,congrArg Prod.fst hpair⟩
    · rw [if_neg fun h => hhash h.1] at hpair
      exact ⟨n,false,hn,congrArg Prod.fst hpair⟩
    · rw [if_neg fun h => hhash h.1] at hpair
      exact ⟨n,true,hn,congrArg Prod.fst hpair⟩
  have hrange := unsigned_le hn
  have hclamp : unsigned (decide (([] : List Char) = ['-'])) n = ((n : ℤ),false) := if_neg (not_lt.mpr hrange)
  obtain ⟨h₁,h₂⟩ : 8 ≤ base ∧ base ≤ 16 := by omega
  have hnul := nul_notMem_field r mem_cons_self (by omega) h₂ upper n
  rw [htext] at hnul
  obtain ⟨hz,-,hvalue,herange⟩ := standard_field r mem_cons_self h₁ h₂ upper hclamp (fun h => by rw [h]; rfl) (congrArg _ htext)
  rw [(strtoull_iff (.inr (by omega)) _).mpr hz]
  exact ⟨s,n,hrun,hbuf,hnul,hn,hvalue,herange⟩

/-- `%-4x` -/
theorem strtoull_vsnprintf_hex : ∃ s : FmtSink, vsnprintf (some fun _ => 'z') 8 "%-4x".toList [.int 255] = some (s,4) ∧
    s.buf = some (filled (fun _ => 'z') ("ff  ".toList ++ ['\x00'])) ∧ (strtoull (textBytes "ff  ".toList) 16).value = 255 := by
  have hd : Directive.WellFormed ⟨[.minus],some (.number ['4']),none,.plain,.x⟩ :=
    ⟨by rintro _ ⟨⟩; exact ⟨forall_mem_singleton.mpr (by decide),_,_,rfl,by decide⟩,by rintro _ ⟨⟩⟩
  have hres : Directive.resolve ⟨[.minus],some (.number ['4']),none,.plain,.x⟩ [.int 255] = some (⟨[.minus],4,none,.plain,.x,.int 255⟩,[]) := rfl
  have hout : Request.output ⟨[.minus],4,none,.plain,.x,.int 255⟩ 0 = some ("ff  ".toList,[]) := by
    simp [Request.output,Length.unsigned,Request.field,Request.digits,numberText]
    decide
  obtain ⟨s,n,hrun,hbuf,-,hn,hvalue,-⟩ := strtoull_vsnprintf hd (.inr (.inr ⟨.inl rfl,rfl⟩)) hres (by decide) ⟨by decide,by rintro _ ⟨⟩,rfl⟩ hout
    (by decide : _ < 8) (by decide) fun _ => 'z'
  obtain rfl : 255 = n := Option.some.inj hn
  exact ⟨s,hrun,hbuf,hvalue⟩

end VibeOS.Libc

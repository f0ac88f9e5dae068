import VibeOS.Libc.Format
import Mathlib.Data.List.GetD
import Mathlib.Data.Nat.Digits.Lemmas

/-! What the formatter reads from a directive, and what a conversion sends to the sink. -/
namespace VibeOS.Printf
open Function List Option Nat

lemma wrap32_of_lt {x : ℤ} (h₀ : -2^31 ≤ x) (h : x < 2^31) : wrap32 x = x := by
  rw [wrap32,BitVec.toInt_ofInt]
  exact Int.bmod_eq_of_le (by omega) (by omega)

lemma takeFlags_text (fs : List Flag) (f : Flags) {s : List Char} (hs : ∀ c ∈ s.head?, c ∉ ['-','0','+',' ','#']) :
    takeFlags f (fs.map Flag.char ++ s) = (⟨f.leftJustify || decide (.minus ∈ fs),f.zeroPad || decide (.zero ∈ fs),f.forceSign || decide (.plus ∈ fs),
      f.spaceSign || decide (.space ∈ fs),f.altForm || decide (.hash ∈ fs)⟩,s) := by
  induction fs generalizing f with
  | nil =>
    cases s with
    | nil => simp [takeFlags]
    | cons c s =>
      have hc := hs c rfl
      simp only [mem_cons,not_mem_nil,or_false,not_or] at hc
      simp [takeFlags,hc]
  | cons fl fs ih =>
    rw [map_cons,cons_append]
    cases fl <;> simp [takeFlags,Flag.char,ih]

/-- What the flags of a directive say to the code. -/
structure Flags.Are (f : Flags) (fs : List Flag) : Prop where
  left : f.leftJustify = decide (.minus ∈ fs)
  zero : f.leftJustify = false → f.zeroPad = decide (.zero ∈ fs)
  plus : f.forceSign = decide (.plus ∈ fs)
  space : f.forceSign = false → f.spaceSign = decide (.space ∈ fs)
  alt : f.altForm = decide (.hash ∈ fs)

lemma Flags.Are.settle (fs : List Flag) :
    (Flags.settle ⟨decide (.minus ∈ fs),decide (.zero ∈ fs),decide (.plus ∈ fs),decide (.space ∈ fs),decide (.hash ∈ fs)⟩).Are fs where
  left := rfl
  zero := fun h => by
    have h : decide (Flag.minus ∈ fs) = false := h
    simp only [Flags.settle,h,Bool.not_false,Bool.and_true]
  plus := rfl
  space := fun h => by
    have h : decide (Flag.plus ∈ fs) = false := h
    simp only [Flags.settle,h,Bool.not_false,Bool.and_true]
  alt := rfl

lemma Flags.Are.minus {f : Flags} {fs : List Flag} (h : f.Are fs) : ({ f with leftJustify := true }).Are (.minus :: fs) where
  left := by simp
  zero := fun h' => nomatch h'
  plus := by simp [h.plus]
  space := fun h' => by simp [h.space h']
  alt := by simp [h.alt]

lemma le_numeral (ds : List Char) (n : ℕ) : n ≤ numeral n ds := by
  induction ds generalizing n with
  | nil => exact Nat.le_refl _
  | cons c ds ih => exact (by omega : n ≤ n * 10 + (c.toNat - '0'.toNat)).trans (ih _)

def NoDigit (s : List Char) : Prop := ∀ c ∈ s.head?, ¬ ('0' ≤ c ∧ c ≤ '9')

lemma takeDigits_none {s : List Char} (hs : NoDigit s) (n : ℤ) : takeDigits n s = (n,s) := by
  cases s with
  | nil => rfl
  | cons c s => rw [takeDigits,if_neg (hs c rfl)]

lemma takeDigits_rest {ds s : List Char} (hds : IsDigits ds) (hs : NoDigit s) (n : ℤ) : (takeDigits n (ds ++ s)).2 = s := by
  induction ds generalizing n with
  | nil => rw [nil_append,takeDigits_none hs]
  | cons c ds ih =>
    obtain ⟨hc,hds⟩ := List.forall_mem_cons.mp hds
    rw [cons_append,takeDigits,if_pos hc,ih hds]

lemma takeDigits_value {ds s : List Char} (hds : IsDigits ds) (hs : NoDigit s) {n : ℕ} (hn : numeral n ds < 2^31) :
    (takeDigits n (ds ++ s)).1 = numeral n ds := by
  induction ds generalizing n with
  | nil => rw [nil_append,takeDigits_none hs]; rfl
  | cons c ds ih =>
    obtain ⟨hc,hds⟩ := List.forall_mem_cons.mp hds
    have hle : '0'.toNat ≤ c.toNat := hc.1
    have hstep : (n : ℤ) * 10 + (c.toNat - '0'.toNat) = ((n * 10 + (c.toNat - '0'.toNat) : ℕ) : ℤ) := by omega
    have hlt : n * 10 + (c.toNat - '0'.toNat) < 2^31 := (le_numeral ds _).trans_lt hn
    rw [cons_append,takeDigits,if_pos hc,hstep,wrap32_of_lt (by omega) (by omega)]
    exact ih hds hn

def Directive.fromWidth (d : Directive) (s : List Char) : List Char := d.widthText ++ (d.precText ++ (d.length.text ++ d.conv.char :: s))
def Directive.fromPrec (d : Directive) (s : List Char) : List Char := d.precText ++ (d.length.text ++ d.conv.char :: s)
def Directive.fromLength (d : Directive) (s : List Char) : List Char := d.length.text ++ d.conv.char :: s

/-- The characters that a length or a conversion starts with. -/
def letters : List Char := ['h','l','z','j','t','d','i','u','o','x','X','c','s','n']

lemma Directive.fromLength_head (d : Directive) (s : List Char) : ∃ c t, d.fromLength s = c :: t ∧ c ∈ letters := by
  unfold Directive.fromLength
  cases d.length with
  | plain => cases d.conv <;> exact ⟨_,_,rfl,by decide⟩
  | _ => exact ⟨_,_,rfl,by decide⟩

lemma Directive.fromPrec_head (d : Directive) (s : List Char) : ∃ c t, d.fromPrec s = c :: t ∧ c ∈ '.' :: letters := by
  rcases hprec : d.prec with _ | p
  · obtain ⟨c,t,h,hc⟩ := d.fromLength_head s
    refine ⟨c,t,?_,mem_cons_of_mem _ hc⟩
    rw [← h,Directive.fromPrec,Directive.precText,hprec]
    rfl
  · refine ⟨'.',p.text ++ d.fromLength s,?_,mem_cons_self⟩
    rw [Directive.fromPrec,Directive.precText,hprec]
    rfl

lemma noDigit_of_mem {c : Char} {t : List Char} (hc : c ∈ '.' :: letters) : NoDigit (c :: t) := by
  have hall : ∀ c ∈ '.' :: letters, ¬ ('0' ≤ c ∧ c ≤ '9') := by simp [letters]
  rintro _ ⟨⟩
  exact hall c hc

lemma Directive.noDigit_fromPrec (d : Directive) (s : List Char) : NoDigit (d.fromPrec s) := by
  obtain ⟨c,t,h,hc⟩ := d.fromPrec_head s
  rw [h]
  exact noDigit_of_mem hc

lemma Directive.noDigit_fromLength (d : Directive) (s : List Char) : NoDigit (d.fromLength s) := by
  obtain ⟨c,t,h,hc⟩ := d.fromLength_head s
  rw [h]
  exact noDigit_of_mem (mem_cons_of_mem _ hc)

lemma Directive.fromWidth_head {d : Directive} (hd : d.WellFormed) (s : List Char) : ∀ c ∈ (d.fromWidth s).head?, c ∉ ['-','0','+',' ','#'] := by
  rcases hwidth : d.width with _ | ds | _
  · obtain ⟨c,t,h,hc⟩ := d.fromPrec_head s
    have heq : d.fromWidth s = c :: t := by
      rw [← h,Directive.fromWidth,Directive.widthText,hwidth]
      rfl
    have hall : ∀ c ∈ '.' :: letters, c ∉ ['-','0','+',' ','#'] := by simp [letters]
    rw [heq]
    rintro _ ⟨⟩
    exact hall c hc
  · obtain ⟨hds,c,ds',rfl,hne⟩ := hd.1 ds hwidth
    have heq : d.fromWidth s = c :: (ds' ++ d.fromPrec s) := by
      rw [Directive.fromWidth,Directive.widthText,hwidth]
      rfl
    have hc := hds c mem_cons_self
    rw [heq]
    rintro _ ⟨⟩ hmem
    simp only [mem_cons,not_mem_nil,or_false] at hmem
    rcases hmem with rfl | rfl | rfl | rfl | rfl
    · exact absurd hc (by decide)
    · exact hne rfl
    · exact absurd hc (by decide)
    · exact absurd hc (by decide)
    · exact absurd hc (by decide)
  · have heq : d.fromWidth s = '*' :: d.fromPrec s := by
      rw [Directive.fromWidth,Directive.widthText,hwidth]
      rfl
    rw [heq]
    rintro _ ⟨⟩
    decide

lemma takeWidth_spec {d : Directive} (hd : d.WellFormed) {f : Flags} (hf : f.Are d.flags) {args args' : List Arg} {fs : List Flag} {w : ℕ}
    (h : d.resolveWidth args = some ((fs,w),args')) (hw : w < 2^31) (s : List Char) :
    ∃ left, takeWidth f.leftJustify (d.fromWidth s) args = some (left,(w : ℤ),d.fromPrec s,args') ∧ ({ f with leftJustify := left }).Are fs := by
  rcases hwidth : d.width with _ | ds | _ <;> rw [Directive.resolveWidth,hwidth] at h
  · simp only [some.injEq,Prod.mk.injEq] at h
    obtain ⟨⟨rfl,rfl⟩,rfl⟩ := h
    obtain ⟨c,t,heq,hc⟩ := d.fromPrec_head s
    have hwidth' : d.fromWidth s = c :: t := by
      rw [← heq,Directive.fromWidth,Directive.widthText,hwidth]
      rfl
    have hstar : c ≠ '*' := by
      rintro rfl
      exact absurd hc (by decide)
    refine ⟨f.leftJustify,?_,hf⟩
    rw [hwidth',heq,takeWidth]
    · rw [takeDigits_none (noDigit_of_mem hc)]
      rfl
    · rintro s' ⟨⟩
      exact hstar rfl
  · simp only [some.injEq,Prod.mk.injEq] at h
    obtain ⟨⟨rfl,rfl⟩,rfl⟩ := h
    obtain ⟨hds,c,ds',rfl,hne⟩ := hd.1 ds hwidth
    have hwidth' : d.fromWidth s = c :: ds' ++ d.fromPrec s := by
      rw [Directive.fromWidth,Directive.widthText,hwidth]
      rfl
    refine ⟨f.leftJustify,?_,hf⟩
    rw [hwidth',takeWidth]
    · rw [takeDigits_rest hds (d.noDigit_fromPrec s)]
      have hvalue := takeDigits_value hds (d.noDigit_fromPrec s) (n := 0) hw
      rw [Nat.cast_zero] at hvalue
      rw [hvalue]
    · rintro s' hstar
      rw [cons_append,List.cons.injEq] at hstar
      have hc := hds c mem_cons_self
      rw [hstar.1] at hc
      exact absurd hc (by decide)
  · have hwidth' : d.fromWidth s = '*' :: d.fromPrec s := by
      rw [Directive.fromWidth,Directive.widthText,hwidth]
      rfl
    obtain ⟨⟨v,args''⟩,hva,heq⟩ := Option.map_eq_some_iff.mp h
    simp only [Prod.mk.injEq] at heq
    obtain ⟨⟨rfl,rfl⟩,rfl⟩ := heq
    rw [hwidth',takeWidth,hva,map_some]
    by_cases hneg : v.toInt < 0
    · refine ⟨true,?_,?_⟩
      · dsimp only
        rw [if_pos hneg,wrap32_of_lt (by omega) (by omega)]
        have habs : -v.toInt = (v.toInt.natAbs : ℤ) := by omega
        rw [habs]
      · rw [if_pos hneg]
        exact hf.minus
    · refine ⟨f.leftJustify,?_,?_⟩
      · dsimp only
        rw [if_neg hneg]
        have habs : v.toInt = (v.toInt.natAbs : ℤ) := by omega
        rw [← habs]
      · rw [if_neg hneg]
        exact hf

def precInt : Option ℕ → ℤ
  | none => -1
  | some p => p

lemma takePrec_spec {d : Directive} (hd : d.WellFormed) {args args' : List Arg} {prec : Option ℕ}
    (h : d.resolvePrec args = some (prec,args')) (hp : ∀ p, prec = some p → p < 2^31) (s : List Char) :
    takePrec (d.fromPrec s) args = some (precInt prec,d.fromLength s,args') := by
  rcases hprec : d.prec with _ | ds | _ <;> rw [Directive.resolvePrec,hprec] at h
  · simp only [some.injEq,Prod.mk.injEq] at h
    obtain ⟨rfl,rfl⟩ := h
    obtain ⟨c,t,heq,hc⟩ := d.fromLength_head s
    have hprec' : d.fromPrec s = c :: t := by
      rw [← heq,Directive.fromPrec,Directive.precText,hprec]
      rfl
    have hdot : c ≠ '.' := by
      rintro rfl
      exact absurd hc (by decide)
    rw [hprec',heq,takePrec]
    · rfl
    · rintro s' ⟨⟩
      exact hdot rfl
    · rintro s' ⟨⟩
      exact hdot rfl
  · simp only [some.injEq,Prod.mk.injEq] at h
    obtain ⟨rfl,rfl⟩ := h
    have hds := hd.2 ds hprec
    have hprec' : d.fromPrec s = '.' :: (ds ++ d.fromLength s) := by
      rw [Directive.fromPrec,Directive.precText,hprec]
      rfl
    have hvalue := takeDigits_value hds (d.noDigit_fromLength s) (n := 0) (hp _ rfl)
    rw [Nat.cast_zero] at hvalue
    rw [hprec',takePrec]
    · rw [takeDigits_rest hds (d.noDigit_fromLength s),hvalue]
      rfl
    · intro s' hstar
      cases ds with
      | nil =>
        obtain ⟨c,t,heq,hc⟩ := d.fromLength_head s
        rw [nil_append,heq,List.cons.injEq] at hstar
        rw [hstar.1] at hc
        exact absurd hc (by decide)
      | cons c ds =>
        rw [cons_append,List.cons.injEq] at hstar
        have hc := hds c mem_cons_self
        rw [hstar.1] at hc
        exact absurd hc (by decide)
  · have hprec' : d.fromPrec s = '.' :: '*' :: d.fromLength s := by
      rw [Directive.fromPrec,Directive.precText,hprec]
      rfl
    obtain ⟨⟨v,args''⟩,hva,heq⟩ := Option.map_eq_some_iff.mp h
    simp only [Prod.mk.injEq] at heq
    obtain ⟨rfl,rfl⟩ := heq
    rw [hprec',takePrec,hva,map_some]
    by_cases hneg : v.toInt < 0
    · dsimp only
      rw [if_pos hneg,if_pos hneg]
      rfl
    · dsimp only
      rw [if_neg hneg,if_neg hneg,precInt,Int.toNat_of_nonneg (by omega)]

def Length.isLong : Length → Bool
  | plain | hh | h => false
  | _ => true

lemma takeLength_spec (d : Directive) (s : List Char) : takeLength (d.fromLength s) = (d.length.isLong,d.conv.char :: s) := by
  unfold Directive.fromLength
  cases d.length with
  | plain | h | l => cases d.conv <;> rfl
  | _ => rfl

/-- Memory with characters written from its start on. -/
def filled (m : ℕ → Char) (xs : List Char) : ℕ → Char := fun i => xs.getD i (m i)

lemma filled_concat (m : ℕ → Char) (xs : List Char) (c : Char) : update (filled m xs) xs.length c = filled m (xs ++ [c]) := by
  funext i
  rcases lt_trichotomy i xs.length with h | rfl | h
  · rw [update_of_ne h.ne,filled,filled,getD_append _ _ _ _ h]
  · rw [update_self,filled,getD_append_right _ _ _ _ (Nat.le_refl _),Nat.sub_self]
    rfl
  · rw [update_of_ne h.ne',filled,filled,getD_eq_default _ _ h.le,getD_eq_default]
    rw [length_append]
    exact h

/-- A sink that got `out`. -/
structure Sent (buf : Option (ℕ → Char)) (cap : ℕ) (out : List Char) (stored : List (BitVec 64 × ℤ)) (s : FmtSink) : Prop where
  size : s.cap = cap
  total : s.total = out.length
  stored : s.stored = stored
  kept : ∀ m, buf = some m → s.buf = some (filled m (out.take (cap - 1))) ∧ s.used = min (cap - 1) out.length ∧ s.writes = []
  printed : buf = none → s.buf = none ∧ s.writes.flatten ++ s.batch = out ∧ s.batch.length < fmtChunk ∧ [] ∉ s.writes

section
variable {buf : Option (ℕ → Char)} {cap : ℕ} {out : List Char} {st : List (BitVec 64 × ℤ)} {s : FmtSink}

lemma Sent.emit (h : Sent buf cap out st s) (c : Char) : Sent buf cap (out ++ [c]) st (fmtEmit s c) := by
  rcases buf with _ | m
  · obtain ⟨hbuf,hout,hbatch,hwrites⟩ := h.printed rfl
    have hne : s.batch ++ [c] ≠ [] := append_ne_nil_of_right_ne_nil _ (cons_ne_nil _ _)
    by_cases hfull : (s.batch ++ [c]).length = fmtChunk
    · have hstep : fmtEmit s c = { s with total := s.total + 1, writes := s.writes ++ [s.batch ++ [c]], batch := [] } := by
        simp only [fmtEmit,hbuf,if_pos hfull,fmtFlush]
        rw [if_pos ⟨rfl,hne⟩]
      rw [hstep]
      refine ⟨h.size,?_,h.stored,nofun,fun _ => ⟨hbuf,?_,zero_lt_succ _,?_⟩⟩
      · rw [length_append,← h.total]
        rfl
      · rw [flatten_append,flatten_singleton,← hout,append_nil,append_assoc]
      · rw [mem_append,mem_singleton]
        rintro (hmem | hmem)
        · exact hwrites hmem
        · exact hne hmem.symm
    · have hstep : fmtEmit s c = { s with total := s.total + 1, batch := s.batch ++ [c] } := by simp only [fmtEmit,hbuf,if_neg hfull]
      rw [hstep]
      refine ⟨h.size,?_,h.stored,nofun,fun _ => ⟨hbuf,?_,?_,hwrites⟩⟩
      · rw [length_append,← h.total]
        rfl
      · rw [← hout,append_assoc]
      · rw [length_append,length_singleton] at hfull ⊢
        omega
  · obtain ⟨hbuf,hused,hwrites⟩ := h.kept m rfl
    have hcap := h.size
    have htotal : s.total + 1 = (out ++ [c]).length := by
      rw [length_append,← h.total]
      rfl
    have hmin : min (cap - 1) (out ++ [c]).length = min (cap - 1) (out.length + 1) := by rw [length_append,length_singleton]
    by_cases hroom : s.used + 1 < s.cap
    · have hlt : out.length + 1 ≤ cap - 1 := by omega
      have hlen : s.used = out.length := by omega
      have hstep : fmtEmit s c =
          { s with total := s.total + 1, buf := some (update (filled m (out.take (cap - 1))) s.used c), used := s.used + 1 } := by
        simp only [fmtEmit,hbuf,if_pos hroom]
      rw [hstep]
      refine ⟨hcap,htotal,h.stored,?_,nofun⟩
      rintro _ ⟨⟩
      refine ⟨?_,?_,hwrites⟩
      · rw [hlen,take_of_length_le (by omega),filled_concat,take_of_length_le]
        rw [length_append]
        exact hlt
      · rw [hmin,hlen]
        exact (Nat.min_eq_right hlt).symm
    · have hle : cap - 1 ≤ out.length := by omega
      have hstep : fmtEmit s c = { s with total := s.total + 1 } := by simp only [fmtEmit,hbuf,if_neg hroom]
      rw [hstep]
      refine ⟨hcap,htotal,h.stored,?_,nofun⟩
      rintro _ ⟨⟩
      refine ⟨?_,?_,hwrites⟩
      · rw [take_append_of_le_length hle,← hbuf]
      · rw [hmin,hused]
        omega

lemma Sent.emitStr (h : Sent buf cap out st s) (t : List Char) : Sent buf cap (out ++ t) st (fmtEmitStr s t) := by
  induction t generalizing out s with
  | nil =>
    rw [append_nil]
    exact h
  | cons c t ih =>
    have hrest := ih (h.emit c)
    rw [append_assoc] at hrest
    exact hrest

end

lemma fmtEmitStr_append (s : FmtSink) (a b : List Char) : fmtEmitStr (fmtEmitStr s a) b = fmtEmitStr s (a ++ b) := by
  rw [fmtEmitStr,fmtEmitStr,fmtEmitStr,foldl_append]

lemma renderLoop_eq {base : ℕ} (hbase : 1 < base) (digits : List Char) (room v : ℕ) (hroom : (Nat.digits base v).length ≤ room) :
    renderLoop v base digits room = (Nat.digits base v).map (digits.getD · '0') := by
  induction room generalizing v with
  | zero =>
    rw [List.length_eq_zero_iff.mp (Nat.le_zero.mp hroom)]
    rfl
  | succ room ih =>
    rw [renderLoop]
    split
    · rename_i hv
      rw [digits_def' hbase hv] at hroom ⊢
      rw [map_cons,ih _ (le_of_succ_le_succ hroom)]
    · rename_i hv
      rw [Nat.eq_zero_of_not_pos hv,digits_zero]
      rfl

lemma digitsTable (upper : Bool) : ∀ d < 16, (if upper then digitsUpper else digitsLower).getD d '0' = digitChar upper d := by
  cases upper <;> decide

lemma digitChar_ne_zero (upper : Bool) : ∀ d < 16, d ≠ 0 → digitChar upper d ≠ '0' := by
  cases upper <;> decide

lemma numberText_zero (base : ℕ) (upper : Bool) : numberText base upper 0 = [] := by rw [numberText,digits_zero]; rfl

variable {base v : ℕ}

lemma fmtRenderUnsigned_eq (h₁ : 8 ≤ base) (h₂ : base ≤ 16) (hv : v < 2^64) (upper : Bool) :
    fmtRenderUnsigned v base upper bodyCap = if v = 0 then ['0'] else numberText base upper v := by
  have hlen : (Nat.digits base v).length ≤ 32 := by
    rw [digits_length_le_iff (by omega)]
    exact hv.trans ((by decide : 2^64 < 8^32).trans_le (Nat.pow_le_pow_left h₁ 32))
  rw [fmtRenderUnsigned]
  split
  · rfl
  · rw [renderLoop_eq (by omega) _ _ _ hlen,take_of_length_le]
    · rw [numberText,← map_reverse]
      refine map_congr_left fun d hd => digitsTable upper d ?_
      exact (digits_lt_base (by omega) (List.mem_reverse.mp hd)).trans_le h₂
    · rw [length_reverse,length_map]
      exact hlen.trans (by decide)

lemma numberText_head (h₁ : 8 ≤ base) (h₂ : base ≤ 16) (hv : v ≠ 0) (upper : Bool) :
    ∃ c t, numberText base upper v = c :: t ∧ c ≠ '0' := by
  have hne : Nat.digits base v ≠ [] := Nat.digits_ne_nil_iff_ne_zero.mpr hv
  have hlast : (Nat.digits base v).getLast hne < base := digits_lt_base (by omega) (getLast_mem hne)
  refine ⟨digitChar upper ((Nat.digits base v).getLast hne),(Nat.digits base v).dropLast.reverse.map (digitChar upper),?_,?_⟩
  · rw [numberText,← map_cons,← reverse_concat,dropLast_append_getLast]
  · exact digitChar_ne_zero upper _ (by omega) (getLast_digit_ne_zero base hv)

lemma numberText_length (upper : Bool) : (numberText base upper v).length = (Nat.digits base v).length := by
  rw [numberText,length_map,length_reverse]

def padDigits (prec : ℤ) (body : List Char) : List Char :=
  if prec = 0 ∧ body = ['0'] then [] else replicate (prec.toNat - body.length) '0' ++ body

variable {f : Flags} {r : Request}

lemma fmtEmitPadded_eq (s : FmtSink) (hf : f.Are r.flags) (body : List Char) (zeroPad isNumber : Bool) (prec : ℤ)
    (sign : Option Char) (pre : List Char)
    (hzero : f.leftJustify = false → (zeroPad = true ∧ prec < 0 ↔ Flag.zero ∈ r.flags ∧ isNumber = true ∧ r.prec = none)) :
    fmtEmitPadded s body r.width f.leftJustify zeroPad sign pre prec =
      fmtEmitStr s (r.field isNumber (sign.toList ++ pre) (padDigits prec body)) := by
  have hsign : (if sign.isSome then 1 else 0) = sign.toList.length := by cases sign <;> rfl
  have hgone : decide (prec = 0 ∧ body.length = 1 ∧ body.head? = some '0') = decide (prec = 0 ∧ body = ['0']) := by
    rw [decide_eq_decide]
    rcases body with _ | ⟨c,_ | ⟨d,t⟩⟩ <;> simp
  have hdigits : replicate (if decide (prec = 0 ∧ body = ['0']) then 0 else if 0 ≤ prec ∧ body.length < prec.toNat then prec.toNat - body.length else 0) '0' ++
      (if decide (prec = 0 ∧ body = ['0']) then [] else body) = padDigits prec body := by
    rw [padDigits]
    by_cases h : prec = 0 ∧ body = ['0']
    · simp only [h,decide_true,and_self,if_true,replicate_zero,nil_append]
    · simp only [h,decide_false,Bool.false_eq_true,if_false]
      congr 2
      split <;> omega
  have hlen : (if decide (prec = 0 ∧ body = ['0']) then [] else body).length +
      (if decide (prec = 0 ∧ body = ['0']) then 0 else if 0 ≤ prec ∧ body.length < prec.toNat then prec.toNat - body.length else 0) =
        (padDigits prec body).length := by
    rw [← hdigits,length_append,length_replicate,Nat.add_comm]
  have hpad : (if 0 < (r.width : ℤ) ∧ (padDigits prec body).length + pre.length + sign.toList.length < (r.width : ℤ).toNat then
      (r.width : ℤ).toNat - ((padDigits prec body).length + pre.length + sign.toList.length) else 0) =
        r.width - ((sign.toList ++ pre).length + (padDigits prec body).length) := by
    rw [length_append,Int.toNat_natCast]
    split <;> omega
  unfold fmtEmitPadded Request.field
  simp only [fmtEmitStr_append,hgone,hsign,hlen,hpad]
  rcases hleft : f.leftJustify
  · have hminus : Flag.minus ∉ r.flags := fun h => by
      rw [hf.left,decide_eq_true h] at hleft
      exact nomatch hleft
    rw [if_neg hminus,if_pos (Bool.not_false : (!false) = true)]
    by_cases hz : zeroPad = true ∧ prec < 0
    · have hnone : ¬ 0 ≤ prec := by omega
      have hprec : ¬ prec = 0 := by omega
      rw [if_pos ((hzero hleft).mp hz),if_neg hnone,if_pos hz.1,← hdigits]
      simp only [hnone,hprec,false_and,decide_false,Bool.false_eq_true,if_false,replicate_zero,nil_append,append_nil,
        append_assoc]
    · have hspaces : ¬ (if 0 ≤ prec then false else zeroPad) = true := by
        split
        · exact nofun
        · exact fun h => hz ⟨h,by omega⟩
      rw [if_neg fun h => hz ((hzero hleft).mpr h),if_neg hspaces]
      simp only [append_assoc,hdigits]
  · have hminus : Flag.minus ∈ r.flags := by
      rw [hf.left] at hleft
      exact of_decide_eq_true hleft
    rw [if_pos hminus,if_neg (by decide)]
    simp only [append_assoc,← hdigits]

lemma padDigits_number (r : Request) (h₁ : 8 ≤ base) (h₂ : base ≤ 16) (hv : v < 2^64) (upper : Bool) :
    padDigits (precInt r.prec) (fmtRenderUnsigned v base upper bodyCap) = r.digits base upper v := by
  rw [fmtRenderUnsigned_eq h₁ h₂ hv,padDigits,Request.digits]
  by_cases hzero : v = 0
  · subst hzero
    rw [if_pos rfl,numberText_zero]
    rcases r.prec with _ | _ | p
    · rfl
    · rfl
    · have hne : ¬ (precInt (some (p+1)) = 0 ∧ ['0'] = ['0']) := fun h => absurd h.1 (by rw [precInt]; omega)
      rw [if_neg hne,append_nil,← replicate_succ']
      rfl
  · obtain ⟨c,t,htext,hc⟩ := numberText_head h₁ h₂ hzero upper
    have hne : ¬ (precInt r.prec = 0 ∧ numberText base upper v = ['0']) := by
      rintro ⟨-,h⟩
      rw [htext,List.cons.injEq] at h
      exact hc h.1
    rw [if_neg hzero,if_neg hne]
    rcases r.prec with _ | p
    · have hlen : 1 ≤ (numberText base upper v).length := by
        rw [htext]
        exact Nat.succ_pos _
      have hprec : (precInt none).toNat = 0 := rfl
      rw [getD_none,Nat.sub_eq_zero_of_le hlen,hprec,Nat.zero_sub]
    · rfl

lemma fmtEmitPadded_number (s : FmtSink) (hf : f.Are r.flags) (h₁ : 8 ≤ base) (h₂ : base ≤ 16)
    (hv : v < 2^64) (upper : Bool) (sign : Option Char) (pre : List Char) :
    fmtEmitPadded s (fmtRenderUnsigned v base upper bodyCap) r.width f.leftJustify f.zeroPad sign pre (precInt r.prec) =
      fmtEmitStr s (r.field true (sign.toList ++ pre) (r.digits base upper v)) := by
  rw [fmtEmitPadded_eq s hf _ _ true,padDigits_number r h₁ h₂ hv]
  intro hleft
  rw [hf.zero hleft,decide_eq_true_eq]
  refine and_congr_right fun _ => ?_
  rcases r.prec with _ | p
  · exact iff_of_true (by decide) ⟨rfl,rfl⟩
  · exact iff_of_false (by rw [precInt]; omega) nofun

lemma fmtEmitPadded_text (s : FmtSink) (hf : f.Are r.flags) (body : List Char) :
    fmtEmitPadded s body r.width f.leftJustify false none [] (-1) = fmtEmitStr s (r.field false [] body) := by
  have hbody : padDigits (-1) body = body := by
    have hprec : (-1 : ℤ).toNat = 0 := rfl
    rw [padDigits,if_neg (fun h => nomatch h.1),hprec,Nat.zero_sub]
    rfl
  rw [fmtEmitPadded_eq s hf body false false,hbody]
  · rfl
  · exact fun _ => iff_of_false nofun nofun

lemma field_octal (r : Request) (ds : List Char) : r.field true ['0'] ds = r.field true [] ('0' :: ds) := by
  have hlen : (['0'] : List Char).length + ds.length = ([] : List Char).length + ('0' :: ds).length := by
    rw [length_singleton,length_nil,length_cons]
    omega
  unfold Request.field
  dsimp only
  rw [hlen]
  split
  · rfl
  · split
    · rw [nil_append,append_cons,← replicate_succ',replicate_succ]
      rfl
    · rw [append_nil,append_assoc]
      rfl

lemma vaSigned_spec {len : Length} {arg : Arg} {v : ℤ} (h : len.signed arg = some v) (hkeep : len.signed arg = len.promoted.signed arg)
    (args : List Arg) : vaSigned len.isLong (arg :: args) = some (v,args) ∧ v.natAbs < 2^64 := by
  rw [hkeep] at h
  cases arg with
  | int x =>
    cases len with
    | plain | hh | h =>
      have hv : x.toInt = v := some.inj h
      subst hv
      exact ⟨rfl,by have := x.toInt_lt; have := x.le_toInt; omega⟩
    | _ => exact nomatch h
  | long x =>
    cases len with
    | plain | hh | h => exact nomatch h
    | _ =>
      have hv : x.toInt = v := some.inj h
      subst hv
      exact ⟨rfl,by have := x.toInt_lt; have := x.le_toInt; omega⟩
  | _ => cases len <;> exact nomatch h

lemma vaUnsigned_spec {len : Length} {arg : Arg} {v : ℕ} (h : len.unsigned arg = some v) (hkeep : len.unsigned arg = len.promoted.unsigned arg)
    (args : List Arg) : vaUnsigned len.isLong (arg :: args) = some (v,args) ∧ v < 2^64 := by
  rw [hkeep] at h
  cases arg with
  | int x =>
    cases len with
    | plain | hh | h =>
      have hv : x.toNat = v := some.inj h
      subst hv
      exact ⟨rfl,x.isLt.trans (by decide)⟩
    | _ => exact nomatch h
  | long x =>
    cases len with
    | plain | hh | h => exact nomatch h
    | _ =>
      have hv : x.toNat = v := some.inj h
      subst hv
      exact ⟨rfl,x.isLt⟩
  | _ => cases len <;> exact nomatch h

lemma sign_eq (hf : f.Are r.flags) (v : ℤ) :
    (if v < 0 then some '-' else if f.forceSign then some '+' else if f.spaceSign then some ' ' else none).toList = r.sign v := by
  unfold Request.sign
  split
  · rfl
  · rcases hplus : f.forceSign
    · have hnot : Flag.plus ∉ r.flags := fun h => by
        rw [hf.plus,decide_eq_true h] at hplus
        exact nomatch hplus
      rw [hf.space hplus,if_neg hnot]
      simp only [Bool.false_eq_true,if_false,decide_eq_true_eq]
      split <;> rfl
    · have hmem : Flag.plus ∈ r.flags := by
        rw [hf.plus] at hplus
        exact of_decide_eq_true hplus
      rw [if_pos hmem]
      rfl

lemma altForm_iff (hf : f.Are r.flags) : f.altForm = true ↔ Flag.hash ∈ r.flags := by
  rw [hf.alt,decide_eq_true_eq]

lemma octal_eq (hf : f.Are r.flags) {v : ℕ} (hv : v < 2^64)
    (hserved : Flag.hash ∈ r.flags → if v = 0 then r.prec ≠ some 0 else r.prec.getD 1 ≤ (Nat.digits 8 v).length) :
    r.field true (if f.altForm = true ∧ (fmtRenderUnsigned v 8 false bodyCap).head? ≠ some '0' then ['0'] else []) (r.digits 8 false v) =
      r.field true [] (r.octal v) := by
  simp only [fmtRenderUnsigned_eq (Nat.le_refl 8) (by decide) hv,altForm_iff hf]
  rw [Request.octal]
  by_cases halt : Flag.hash ∈ r.flags
  · have hserved := hserved halt
    by_cases hzero : v = 0
    · subst hzero
      rw [if_pos rfl] at hserved
      have hhead : (r.digits 8 false 0).head? = some '0' := by
        rw [Request.digits,numberText_zero]
        rcases hprec : r.prec with _ | _ | p
        · rfl
        · exact absurd hprec hserved
        · rfl
      rw [if_pos rfl,if_neg (fun h => h.2 rfl),if_neg (fun h => h.2 hhead)]
    · obtain ⟨c,t,htext,hc⟩ := numberText_head (Nat.le_refl 8) (by decide) hzero false
      rw [if_neg hzero] at hserved
      have hdigits : r.digits 8 false v = c :: t := by
        rw [Request.digits,numberText_length,Nat.sub_eq_zero_of_le hserved,htext]
        rfl
      have hne : (c :: t).head? ≠ some '0' := fun h => hc (some.inj h)
      rw [if_neg hzero,hdigits,htext,if_pos ⟨halt,hne⟩,if_pos ⟨halt,hne⟩,field_octal]
  · rw [if_neg (fun h => halt h.1),if_neg (fun h => halt h.1)]

lemma take_string (prec : Option ℕ) (array : List Char) :
    array.take (if 0 ≤ precInt prec ∧ (precInt prec).toNat < (array.takeWhile (· ≠ '\x00')).length then (precInt prec).toNat
      else (array.takeWhile (· ≠ '\x00')).length) = prec.elim (array.takeWhile (· ≠ '\x00')) (array.takeWhile (· ≠ '\x00')).take := by
  have hwhole : array.takeWhile (· ≠ '\x00') = array.take (array.takeWhile (· ≠ '\x00')).length :=
    List.prefix_iff_eq_take.mp ( takeWhile_prefix _)
  rcases prec with _ | p
  · have hneg : ¬ (0 ≤ precInt none) := by decide
    rw [if_neg fun h => hneg h.1,← hwhole]
    rfl
  · have hp : (precInt (some p)).toNat = p := rfl
    rw [hp]
    change _ = (array.takeWhile (· ≠ '\x00')).take p
    split
    · rename_i hlt
      rw [hwhole,take_take,Nat.min_eq_left hlt.2.le]
    · rename_i hle
      have hle : (array.takeWhile (· ≠ '\x00')).length ≤ p := Nat.le_of_not_lt fun h => hle ⟨Int.natCast_nonneg p,h⟩
      rw [← hwhole,take_of_length_le hle]

section
variable {buf : Option (ℕ → Char)} {cap : ℕ} {out : List Char} {st : List (BitVec 64 × ℤ)} {s : FmtSink}

lemma Sent.number (h : Sent buf cap out st s) {t : List Char} {s' : FmtSink} (hs : s' = fmtEmitStr s t) : Sent buf cap (out ++ t) (st ++ []) s' := by
  rw [hs,append_nil]
  exact h.emitStr t

lemma fmtConvert_spec {r : Request} {f : Flags} (hf : f.Are r.flags) (hserved : r.Served) {t : List Char} {st' : List (BitVec 64 × ℤ)}
    (hout : r.output out.length = some (t,st')) (hlen : out.length < 2^31) (h : Sent buf cap out st s) (args : List Arg) :
    ∃ s', fmtConvert s f r.width (precInt r.prec) r.length.isLong r.conv.char (r.arg :: args) = some (s',args) ∧
      Sent buf cap (out ++ t) (st ++ st') s' := by
  obtain ⟨hwidth,hprec,hconv⟩ := hserved
  rcases heq : r.conv <;> simp only [heq] at hconv <;> simp only [Request.output,heq] at hout
  case d | i =>
    obtain ⟨v,hv,hpair⟩ := Option.map_eq_some_iff.mp hout
    obtain ⟨rfl,rfl⟩ := Prod.mk.inj hpair
    obtain ⟨hva,hlt⟩ := vaSigned_spec hv hconv args
    have hmag : (if v < 0 then (-(v+1)).toNat + 1 else v.toNat) = v.natAbs := by
      split <;> omega
    have hnumber := fmtEmitPadded_number s hf (by decide : 8 ≤ 10) (by decide) hlt false
      (if v < 0 then some '-' else if f.forceSign then some '+' else if f.spaceSign then some ' ' else none) []
    rw [sign_eq hf,append_nil] at hnumber
    refine ⟨_,?_,h.number hnumber⟩
    rw [fmtConvert,if_pos (by decide),hva,map_some]
    dsimp only
    rw [hmag]
  case u =>
    obtain ⟨v,hv,hpair⟩ := Option.map_eq_some_iff.mp hout
    obtain ⟨rfl,rfl⟩ := Prod.mk.inj hpair
    obtain ⟨hva,hlt⟩ := vaUnsigned_spec hv hconv args
    refine ⟨_,?_,h.number (fmtEmitPadded_number s hf (by decide : 8 ≤ 10) (by decide) hlt false none [])⟩
    rw [fmtConvert,if_neg (by decide),if_pos (by decide),hva]
    rfl
  case o =>
    obtain ⟨v,hv,hpair⟩ := Option.map_eq_some_iff.mp hout
    obtain ⟨rfl,rfl⟩ := Prod.mk.inj hpair
    obtain ⟨hva,hlt⟩ := vaUnsigned_spec hv hconv.1 args
    have hnumber := fmtEmitPadded_number s hf (Nat.le_refl 8) (by decide) hlt false none
      (if f.altForm = true ∧ (fmtRenderUnsigned v 8 false bodyCap).head? ≠ some '0' then ['0'] else [])
    rw [toList_none,nil_append,octal_eq hf hlt fun halt => hconv.2 halt v hv] at hnumber
    refine ⟨_,?_,h.number hnumber⟩
    rw [fmtConvert,if_neg (by decide),if_neg (by decide),if_pos (by decide),hva]
    rfl
  case x =>
    obtain ⟨v,hv,hpair⟩ := Option.map_eq_some_iff.mp hout
    obtain ⟨rfl,rfl⟩ := Prod.mk.inj hpair
    obtain ⟨hva,hlt⟩ := vaUnsigned_spec hv hconv args
    have hnumber := fmtEmitPadded_number s hf (by decide : 8 ≤ 16) (Nat.le_refl 16) hlt false none (if f.altForm = true ∧ v ≠ 0 then ['0','x'] else [])
    rw [toList_none,nil_append] at hnumber
    simp only [altForm_iff hf] at hnumber
    refine ⟨_,?_,h.number hnumber⟩
    rw [fmtConvert,if_neg (by decide),if_neg (by decide),if_neg (by decide),if_pos (by decide),hva]
    simp only [map_some,altForm_iff hf]
    rfl
  case X =>
    obtain ⟨v,hv,hpair⟩ := Option.map_eq_some_iff.mp hout
    obtain ⟨rfl,rfl⟩ := Prod.mk.inj hpair
    obtain ⟨hva,hlt⟩ := vaUnsigned_spec hv hconv args
    have hnumber := fmtEmitPadded_number s hf (by decide : 8 ≤ 16) (Nat.le_refl 16) hlt true none (if f.altForm = true ∧ v ≠ 0 then ['0','X'] else [])
    rw [toList_none,nil_append] at hnumber
    simp only [altForm_iff hf] at hnumber
    refine ⟨_,?_,h.number hnumber⟩
    rw [fmtConvert,if_neg (by decide),if_neg (by decide),if_neg (by decide),if_pos (by decide),hva]
    simp only [map_some,altForm_iff hf]
    rfl
  case c =>
    split at hout
    · rename_i v hlength harg
      obtain ⟨rfl,rfl⟩ := Prod.mk.inj (some.inj hout)
      refine ⟨_,?_,h.number (fmtEmitPadded_text s hf [Char.ofNat (v.toNat % 256)])⟩
      rw [harg]
      rfl
    · exact nomatch hout
  case s =>
    obtain ⟨array,harg,hnul⟩ := hconv
    split at hout
    · obtain ⟨str,hstr,hpair⟩ := Option.map_eq_some_iff.mp hout
      obtain ⟨rfl,rfl⟩ := Prod.mk.inj hpair
      simp only [Request.string,harg,hnul,true_or,if_true,some.injEq] at hstr
      refine ⟨_,?_,h.number (fmtEmitPadded_text s hf str)⟩
      have hlen : fmtStrlen array = some (array.takeWhile (· ≠ '\x00')).length := if_pos hnul
      rw [fmtConvert,if_neg (by decide),if_neg (by decide),if_neg (by decide),if_neg (by decide),if_neg (by decide),if_neg (by decide),
        if_pos (by decide),harg,vaStr,hlen]
      simp only [map_some]
      rw [take_string,hstr]
    · exact nomatch hout
  case n =>
    split at hout
    · rename_i p hlength harg
      split at hout
      · rename_i hp
        obtain ⟨rfl,rfl⟩ := Prod.mk.inj (some.inj hout)
        refine ⟨{ s with stored := s.stored ++ [(p,wrap32 s.total)] },?_,?_⟩
        · rw [harg]
          change some (if p ≠ 0 then _ else s,args) = _
          rw [if_pos hp]
        · rw [append_nil]
          refine ⟨h.size,h.total,?_,h.kept,h.printed⟩
          rw [h.stored,h.total,wrap32_of_lt (by omega) (by omega)]
      · exact nomatch hout
    · exact nomatch hout

end

end VibeOS.Printf

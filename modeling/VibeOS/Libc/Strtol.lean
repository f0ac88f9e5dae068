import VibeOS.Widths
import Mathlib.Tactic.Linarith
import Mathlib.Data.List.TakeWhile

/-! `strtol`, `strtoul`, `strtoll` and `strtoull` of the C library. A pointer into a string is what the string
has from there on to its NUL; `long` has the 64 bits of `long long`. -/
namespace VibeOS.Libc
open List

def isSpace (c : UInt8) : Bool := c = 32 || c = 9 || c = 10 || c = 11 || c = 12 || c = 13

def skipSpace (s : List UInt8) : List UInt8 := s.dropWhile isSpace

/-- One sign: whether it was a minus, and the string behind it. -/
def takeSign : List UInt8 → Bool × List UInt8
  | [] => (false,[])
  | c :: s => if c = 43 then (false,s) else if c = 45 then (true,s) else (false,c :: s)

/-- `__osdev_digit_value`. -/
def digitValue (c : UInt8) : ℤ :=
  if 48 ≤ c ∧ c ≤ 57 then c.toNat - 48
  else if 97 ≤ c ∧ c ≤ 122 then c.toNat - 97 + 10
  else if 65 ≤ c ∧ c ≤ 90 then c.toNat - 65 + 10
  else -1

def isX (c : UInt8) : Bool := c = 120 || c = 88

/-- The base that the digits are read in, and where the code starts to read them. -/
def detectBase (base : ℤ) (s : List UInt8) : ℤ × List UInt8 :=
  if base = 0 then
    if s.getD 0 0 = 48 ∧ isX (s.getD 1 0) ∧ 0 ≤ digitValue (s.getD 2 0) ∧ digitValue (s.getD 2 0) < 16 then (16,s.drop 2)
    else if s.getD 0 0 = 48 then (8,s.drop 1)
    else (10,s)
  else if base = 16 ∧ s.getD 0 0 = 48 ∧ isX (s.getD 1 0) then (16,s.drop 2)
  else (base,s)

def ullongMax : ℕ := 2^64 - 1
def llongMax : ℤ := 2^63 - 1
def llongMin : ℤ := -llongMax - 1

structure Digits where
  acc : ℕ
  overflow : Bool
  any : Bool
  rest : List UInt8

def digitLoop (base : ℤ) : List UInt8 → ℕ → Bool → Bool → Digits
  | [],acc,overflow,any => ⟨acc,overflow,any,[]⟩
  | c :: s,acc,overflow,any =>
    let d := digitValue c
    let cutoff := ullongMax / base.toNat
    let cutlim := ullongMax % base.toNat
    if c = 0 ∨ d < 0 ∨ base ≤ d then ⟨acc,overflow,any,c :: s⟩
    else if cutoff < acc ∨ acc = cutoff ∧ cutlim < d.toNat then digitLoop base s acc true true
    else digitLoop base s ((acc * base.toNat + d.toNat) % 2^64) overflow true

structure Raw where
  value : ℕ
  endptr : List UInt8
  overflow : Bool

/-- `__osdev_strtoull_raw`. -/
def strtoullRaw (nptr : List UInt8) (base : ℤ) : Raw :=
  let t := takeSign (skipSpace nptr)
  if base < 0 ∨ base = 1 ∨ 36 < base then ⟨0,nptr,false⟩
  else
    let b := detectBase base t.2
    let r := digitLoop b.1 b.2 0 false false
    if r.any then ⟨if t.1 then (2^64 - r.acc) % 2^64 else r.acc,r.rest,r.overflow⟩
    else ⟨0,nptr,r.overflow⟩

/-- What a conversion gives; `erange` where it sets `errno`. -/
structure Converted where
  value : ℤ
  endptr : List UInt8
  erange : Bool
  deriving DecidableEq

def strtoull (nptr : List UInt8) (base : ℤ) : Converted :=
  let r := strtoullRaw nptr base
  if r.overflow then ⟨ullongMax,r.endptr,true⟩ else ⟨r.value,r.endptr,false⟩

def strtoul (nptr : List UInt8) (base : ℤ) : Converted :=
  let r := strtoullRaw nptr base
  if r.overflow ∨ ullongMax < r.value then ⟨ullongMax,r.endptr,true⟩ else ⟨r.value,r.endptr,false⟩

def strtoll (nptr : List UInt8) (base : ℤ) : Converted :=
  let t := takeSign (skipSpace nptr)
  let r := strtoullRaw t.2 base
  if r.endptr = t.2 then ⟨0,nptr,false⟩
  else if t.1 then
    let limit : ℤ := llongMax + 1
    if r.overflow ∨ limit < r.value then ⟨llongMin,r.endptr,true⟩
    else if r.value = limit then ⟨llongMin,r.endptr,false⟩
    else ⟨-r.value,r.endptr,false⟩
  else if r.overflow ∨ llongMax < r.value then ⟨llongMax,r.endptr,true⟩
  else ⟨r.value,r.endptr,false⟩

def strtol (nptr : List UInt8) (base : ℤ) : Converted :=
  let r := strtoll nptr base
  if llongMax < r.value then ⟨llongMax,r.endptr,true⟩
  else if r.value < llongMin then ⟨llongMin,r.endptr,true⟩
  else r

def isDigit (base : ℤ) (c : UInt8) : Bool := 0 ≤ digitValue c ∧ digitValue c < base

def hexPrefix (s : List UInt8) : Bool := s.getD 0 0 = 48 && isX (s.getD 1 0) && isDigit 16 (s.getD 2 0)

/-- The base of the subject sequence behind its sign, and the string from its digits on. -/
def subject (base : ℤ) (s : List UInt8) : ℤ × List UInt8 :=
  if (base = 0 ∨ base = 16) ∧ hexPrefix s then (16,s.drop 2)
  else if base = 0 then (if s.getD 0 0 = 48 then 8 else 10,s)
  else (base,s)

/-- The number that digits write behind `acc`. -/
def magnitude (base : ℤ) (acc : ℕ) (digits : List UInt8) : ℕ :=
  digits.foldl (fun a c => a * base.toNat + (digitValue c).toNat) acc

/-- White space, a sign and the longest run of digits, with the value that `clamp` makes of sign and magnitude. -/
def standard (clamp : Bool → ℕ → ℤ × Bool) (nptr : List UInt8) (base : ℤ) : Converted :=
  let t := takeSign (skipSpace nptr)
  let b := subject base t.2
  let digits := b.2.takeWhile (isDigit b.1)
  if digits = [] then ⟨0,nptr,false⟩
  else
    let v := clamp t.1 (magnitude b.1 0 digits)
    ⟨v.1,b.2.dropWhile (isDigit b.1),v.2⟩

def signed (neg : Bool) (mag : ℕ) : ℤ × Bool :=
  let v : ℤ := if neg then -mag else mag
  if v < llongMin then (llongMin,true) else if llongMax < v then (llongMax,true) else (v,false)

def unsigned (neg : Bool) (mag : ℕ) : ℤ × Bool :=
  if ullongMax < mag then (ullongMax,true) else (if neg then (2^64 - mag : ℤ) % 2^64 else mag,false)

lemma le_magnitude {base : ℤ} (hbase : 0 < base) (acc : ℕ) (digits : List UInt8) : acc ≤ magnitude base acc digits := by
  induction digits generalizing acc with
  | nil => exact Nat.le_refl acc
  | cons c s ih =>
    have hstep : acc ≤ acc * base.toNat + (digitValue c).toNat :=
      (Nat.le_mul_of_pos_right acc (by omega)).trans (Nat.le_add_right _ _)
    exact hstep.trans (ih _)

lemma isDigit_iff {base : ℤ} {c : UInt8} : isDigit base c = true ↔ ¬ (c = 0 ∨ digitValue c < 0 ∨ base ≤ digitValue c) := by
  have hzero : digitValue 0 = -1 := rfl
  simp only [isDigit,decide_eq_true_eq]
  constructor
  · rintro ⟨hpos,hlt⟩ (rfl | h)
    · omega
    · omega
  · intro h
    omega

lemma cutoff_iff {base acc d : ℕ} (hd : d < base) :
    (ullongMax / base < acc ∨ acc = ullongMax / base ∧ ullongMax % base < d) ↔ ullongMax < acc * base + d := by
  have hdiv := Nat.div_add_mod ullongMax base
  have hmod := Nat.mod_lt ullongMax (by omega : 0 < base)
  rw [Nat.mul_comm] at hdiv
  generalize ullongMax / base = q at *
  generalize ullongMax % base = r at *
  rcases Nat.lt_trichotomy acc q with h | rfl | h
  · have := Nat.mul_le_mul_right base (Nat.succ_le_of_lt h)
    rw [Nat.succ_mul] at this
    omega
  · omega
  · have := Nat.mul_le_mul_right base (Nat.succ_le_of_lt h)
    rw [Nat.succ_mul] at this
    omega

lemma digitLoop_spec {base : ℤ} (hbase : 0 < base) {s : List UInt8} {acc : ℕ} {overflow any : Bool} (hacc : acc ≤ ullongMax) :
    let r := digitLoop base s acc overflow any
    let digits := s.takeWhile (isDigit base)
    r.rest = s.dropWhile (isDigit base) ∧ r.any = (any || !digits.isEmpty) ∧
      r.overflow = (overflow || decide (ullongMax < magnitude base acc digits)) ∧
        (r.overflow = false → r.acc = magnitude base acc digits) := by
  dsimp only
  induction s generalizing acc overflow any with
  | nil =>
    have : ¬ ullongMax < magnitude base acc [] := not_lt.mpr hacc
    exact ⟨rfl,by simp [digitLoop],by simp [digitLoop,this],fun _ => rfl⟩
  | cons c s ih =>
    rw [digitLoop]
    split
    next hstop =>
      have hdigit : isDigit base c = false := by
        rw [Bool.eq_false_iff,ne_eq,isDigit_iff]
        exact not_not.mpr hstop
      have : ¬ ullongMax < magnitude base acc [] := not_lt.mpr hacc
      rw [takeWhile_cons_of_neg (by simp [hdigit]),dropWhile_cons_of_neg (by simp [hdigit])]
      exact ⟨rfl,by simp,by simp [this],fun _ => rfl⟩
    next hgo =>
      have hdigit : isDigit base c = true := isDigit_iff.mpr hgo
      rw [takeWhile_cons_of_pos hdigit,dropWhile_cons_of_pos hdigit]
      have hcut := @cutoff_iff base.toNat acc (digitValue c).toNat (by omega)
      have hmag : magnitude base acc (c :: s.takeWhile (isDigit base)) =
          magnitude base (acc * base.toNat + (digitValue c).toNat) (s.takeWhile (isDigit base)) := rfl
      split
      next hover =>
        have hbig : ullongMax < magnitude base acc (c :: s.takeWhile (isDigit base)) := by
          rw [hmag]
          exact (hcut.mp hover).trans_le (le_magnitude hbase _ _)
        obtain ⟨hrest,hany,hov,-⟩ := @ih acc true true hacc
        refine ⟨hrest,by rw [hany]; simp,by rw [hov]; simp [hbig],fun hfalse => ?_⟩
        rw [hov] at hfalse
        simp at hfalse
      next hfits =>
        have hle : acc * base.toNat + (digitValue c).toNat ≤ ullongMax := not_lt.mp (hcut.not.mp hfits)
        rw [Nat.mod_eq_of_lt (by unfold ullongMax at hle; omega)]
        obtain ⟨hrest,hany,hov,hvalue⟩ := @ih _ overflow true hle
        refine ⟨hrest,by rw [hany]; simp,by rw [hov,hmag],fun hfalse => by rw [hvalue hfalse,hmag]⟩

/-- A zero that the code takes for a prefix though no digit follows it. -/
def ZeroAlone (base : ℤ) (s : List UInt8) : Prop :=
  s.getD 0 0 = 48 ∧ (base = 0 ∧ hexPrefix s = false ∧ isDigit 8 (s.getD 1 0) = false ∨
    base = 16 ∧ isX (s.getD 1 0) = true ∧ isDigit 16 (s.getD 2 0) = false)

instance (base : ℤ) (s : List UInt8) : Decidable (ZeroAlone base s) := inferInstanceAs (Decidable (_ ∧ _))

lemma digitLoop_none {base : ℤ} {s : List UInt8} {acc : ℕ} {overflow any : Bool} (h : isDigit base (s.getD 0 0) = false) :
    digitLoop base s acc overflow any = ⟨acc,overflow,any,s⟩ := by
  cases s with
  | nil => rfl
  | cons c s =>
    have hc : isDigit base c = false := h
    rw [digitLoop]
    exact if_pos (not_not.mp fun hn => by rw [isDigit_iff.mpr hn] at hc; exact absurd hc (by decide))

lemma digitLoop_zero {s : List UInt8} : digitLoop 8 (48 :: s) 0 false false = digitLoop 8 s 0 false true := rfl

lemma digitLoop_any {base : ℤ} {s : List UInt8} {acc : ℕ} {overflow any : Bool} (h : isDigit base (s.getD 0 0) = true) :
    digitLoop base s acc overflow any = digitLoop base s acc overflow true := by
  cases s with
  | nil => exact absurd h (by simp [isDigit,digitValue])
  | cons c s =>
    have hc : isDigit base c = true := h
    rw [digitLoop,digitLoop,if_neg (isDigit_iff.mp hc),if_neg (isDigit_iff.mp hc)]

lemma hexPrefix_iff {s : List UInt8} : hexPrefix s = true ↔
    s.getD 0 0 = 48 ∧ isX (s.getD 1 0) = true ∧ 0 ≤ digitValue (s.getD 2 0) ∧ digitValue (s.getD 2 0) < 16 := by
  simp [hexPrefix,isDigit,and_assoc]

lemma detectBase_zeroAlone {base : ℤ} {s : List UInt8} (h : ZeroAlone base s) :
    digitLoop (detectBase base s).1 (detectBase base s).2 0 false false = ⟨0,false,false,(detectBase base s).2⟩ := by
  refine digitLoop_none ?_
  obtain ⟨hzero,⟨rfl,hhex,hnext⟩ | ⟨rfl,hx,hnext⟩⟩ := h
  · rw [detectBase,if_pos rfl,if_neg (by rw [← hexPrefix_iff,hhex]; decide),if_pos hzero]
    simpa [getD_eq_getElem?_getD] using hnext
  · rw [detectBase,if_neg (by decide),if_pos ⟨rfl,hzero,hx⟩]
    simpa [getD_eq_getElem?_getD] using hnext

lemma detectBase_eq {base : ℤ} {s : List UInt8} (h : ¬ ZeroAlone base s) :
    digitLoop (detectBase base s).1 (detectBase base s).2 0 false false = digitLoop (subject base s).1 (subject base s).2 0 false false := by
  have hplain (hhex : ¬ hexPrefix s = true) : ¬ ((base = 0 ∨ base = 16) ∧ hexPrefix s = true) := fun hp => hhex hp.2
  by_cases hhex : hexPrefix s = true
  · obtain ⟨hzero,hx,hdigit⟩ := hexPrefix_iff.mp hhex
    by_cases hb : base = 0
    · rw [detectBase,if_pos hb,if_pos ⟨hzero,hx,hdigit⟩,subject,if_pos ⟨.inl hb,hhex⟩]
    · by_cases hb' : base = 16
      · rw [detectBase,if_neg hb,if_pos ⟨hb',hzero,hx⟩,subject,if_pos ⟨.inr hb',hhex⟩]
      · rw [detectBase,if_neg hb,if_neg (fun h => hb' h.1),subject,if_neg (by tauto),if_neg hb]
  · by_cases hb : base = 0
    · rw [detectBase,if_pos hb,if_neg (fun hp => hhex (hexPrefix_iff.mpr hp)),subject,if_neg (hplain hhex),if_pos hb]
      by_cases hzero : s.getD 0 0 = 48
      · rw [if_pos hzero,if_pos hzero]
        cases s with
        | nil => exact absurd hzero (by decide)
        | cons c s =>
          obtain rfl : c = 48 := hzero
          have hnext : isDigit 8 (s.getD 0 0) = true := by
            by_contra hn
            exact h ⟨rfl,.inl ⟨hb,Bool.eq_false_iff.mpr hhex,by simpa using hn⟩⟩
          exact (digitLoop_any hnext).trans digitLoop_zero.symm
      · rw [if_neg hzero,if_neg hzero]
    · by_cases hx : base = 16 ∧ s.getD 0 0 = 48 ∧ isX (s.getD 1 0) = true
      · refine absurd ⟨hx.2.1,.inr ⟨hx.1,hx.2.2,?_⟩⟩ h
        by_contra hn
        exact hhex (hexPrefix_iff.mpr ⟨hx.2.1,hx.2.2,of_decide_eq_true ((Bool.not_eq_false _).mp hn)⟩)
      · rw [detectBase,if_neg hb,if_neg hx,subject,if_neg (hplain hhex),if_neg hb]

def ValidBase (base : ℤ) : Prop := base = 0 ∨ 2 ≤ base ∧ base ≤ 36

def subjectDigits (base : ℤ) (s : List UInt8) : List UInt8 := (subject base s).2.takeWhile (isDigit (subject base s).1)

lemma subject_pos {base : ℤ} (hb : ValidBase base) (s : List UInt8) : 0 < (subject base s).1 := by
  rw [subject]
  split
  · exact (by decide : (0 : ℤ) < 16)
  · split
    · dsimp only
      split
      · exact (by decide : (0 : ℤ) < 8)
      · exact (by decide : (0 : ℤ) < 10)
    · rcases hb with rfl | ⟨hge,-⟩
      · contradiction
      · exact lt_of_lt_of_le (by decide) hge

lemma ZeroAlone.digits_ne_nil {base : ℤ} {s : List UInt8} (h : ZeroAlone base s) : subjectDigits base s ≠ [] := by
  have hhex : hexPrefix s = false := by
    obtain ⟨-,⟨-,hhex,-⟩ | ⟨-,-,hnext⟩⟩ := h
    · exact hhex
    · rw [hexPrefix,hnext,Bool.and_false]
  cases s with
  | nil => exact absurd h.1 (by decide)
  | cons c s =>
    obtain rfl : c = 48 := h.1
    obtain ⟨-,⟨rfl,-⟩ | ⟨rfl,-⟩⟩ := h
    · simp [subjectDigits,subject,hhex,isDigit,digitValue]
    · simp [subjectDigits,subject,hhex,isDigit,digitValue]

lemma strtoullRaw_none {base : ℤ} (hb : ValidBase base) {nptr : List UInt8} (h : ZeroAlone base (takeSign (skipSpace nptr)).2 ∨
    subjectDigits base (takeSign (skipSpace nptr)).2 = []) : strtoullRaw nptr base = ⟨0,nptr,false⟩ := by
  have hvalid : ¬ (base < 0 ∨ base = 1 ∨ 36 < base) := by
    unfold ValidBase at hb
    omega
  generalize ht : takeSign (skipSpace nptr) = t at h
  have hr : ∃ s, digitLoop (detectBase base t.2).1 (detectBase base t.2).2 0 false false = ⟨0,false,false,s⟩ := by
    by_cases hz : ZeroAlone base t.2
    · exact ⟨_,detectBase_zeroAlone hz⟩
    · have hnil := h.resolve_left hz
      rw [detectBase_eq hz]
      refine ⟨_,digitLoop_none ?_⟩
      rw [subjectDigits] at hnil
      cases hs : (subject base t.2).2 with
      | nil => simp [isDigit,digitValue]
      | cons c s =>
        rw [hs] at hnil
        by_contra hc
        rw [takeWhile_cons_of_pos (by simpa using hc)] at hnil
        exact absurd hnil (cons_ne_nil _ _)
  obtain ⟨s,hr⟩ := hr
  simp only [strtoullRaw,ht,if_neg hvalid,hr]
  rfl

lemma strtoullRaw_some {base : ℤ} (hb : ValidBase base) {nptr : List UInt8} (hz : ¬ ZeroAlone base (takeSign (skipSpace nptr)).2)
    (hdigits : subjectDigits base (takeSign (skipSpace nptr)).2 ≠ []) :
    let t := takeSign (skipSpace nptr)
    let b := subject base t.2
    let mag := magnitude b.1 0 (subjectDigits base t.2)
    let r := strtoullRaw nptr base
    r.endptr = b.2.dropWhile (isDigit b.1) ∧ r.overflow = decide (ullongMax < mag) ∧
      (r.overflow = false → r.value = if t.1 then (2^64 - mag) % 2^64 else mag) := by
  have hvalid : ¬ (base < 0 ∨ base = 1 ∨ 36 < base) := by
    unfold ValidBase at hb
    omega
  dsimp only
  generalize ht : takeSign (skipSpace nptr) = t at hz hdigits ⊢
  obtain ⟨hrest,hany,hov,hacc⟩ := @digitLoop_spec (subject base t.2).1 (subject_pos hb _) (subject base t.2).2 0 false false (Nat.zero_le _)
  rw [← detectBase_eq hz] at hrest hany hov hacc
  have hsome : (digitLoop (detectBase base t.2).1 (detectBase base t.2).2 0 false false).any = true := by
    rw [hany,Bool.false_or,Bool.not_eq_true',isEmpty_eq_false_iff]
    exact hdigits
  simp only [strtoullRaw,ht,if_neg hvalid,hsome,if_true]
  refine ⟨hrest,by rw [hov,Bool.false_or]; rfl,fun hfalse => ?_⟩
  rw [hacc hfalse]
  rfl

lemma takeSign_length (s : List UInt8) : (takeSign s).2.length ≤ s.length ∧ ((takeSign s).1 = true → (takeSign s).2.length < s.length) := by
  cases s with
  | nil => exact ⟨Nat.le_refl _,fun h => absurd h (by decide)⟩
  | cons c s =>
    simp only [takeSign]
    split_ifs <;> simp

lemma strip_length (s : List UInt8) : (takeSign (skipSpace s)).2.length ≤ s.length :=
  (takeSign_length _).1.trans (dropWhile_sublist _).length_le

lemma strip_eq {s : List UInt8} (h : (takeSign (skipSpace s)).2 = s) : takeSign (skipSpace s) = (false,s) := by
  refine Prod.ext (Bool.eq_false_iff.mpr fun hneg => ?_) h
  have hlt := (takeSign_length (skipSpace s)).2 hneg
  have hle : (skipSpace s).length ≤ s.length := (dropWhile_sublist _).length_le
  rw [h] at hlt
  omega

lemma strip_ne {s : List UInt8} (h : (takeSign (skipSpace s)).2 ≠ s) : s.getD 0 0 ≠ 48 ∧ ∀ base, isDigit base (s.getD 0 0) = false := by
  have hneg {c : UInt8} (hc : digitValue c = -1) (base : ℤ) : isDigit base c = false := by simp [isDigit,hc]
  cases s with
  | nil => exact absurd rfl h
  | cons c s =>
    have hc : isSpace c = true ∨ c = 43 ∨ c = 45 := by
      by_contra hno
      simp only [not_or,Bool.not_eq_true] at hno
      refine h ?_
      rw [skipSpace,dropWhile_cons_of_neg (by simp [hno.1]),takeSign,if_neg hno.2.1,if_neg hno.2.2]
    rw [getD_cons_zero]
    simp only [isSpace,Bool.or_eq_true,decide_eq_true_eq] at hc
    rcases hc with ((((((rfl | rfl) | rfl) | rfl) | rfl) | rfl) | rfl | rfl) <;> exact ⟨by decide,hneg rfl⟩

lemma subjectDigits_eq_nil {base : ℤ} {s : List UInt8} (hhead : s.getD 0 0 ≠ 48) (hdigit : ∀ base, isDigit base (s.getD 0 0) = false) :
    subjectDigits base s = [] := by
  have hhex : hexPrefix s = false := by
    rw [hexPrefix,decide_eq_false hhead]
    rfl
  have hs : (subject base s).2 = s := by
    rw [subject,if_neg (by simp [hhex])]
    split <;> rfl
  rw [subjectDigits,hs]
  cases s with
  | nil => rfl
  | cons c s => exact takeWhile_cons_of_neg (by simpa using hdigit _)

lemma rest_length {base : ℤ} {s : List UInt8} (h : subjectDigits base s ≠ []) :
    ((subject base s).2.dropWhile (isDigit (subject base s).1)).length < s.length := by
  have hsplit := congrArg List.length (takeWhile_append_dropWhile (p := isDigit (subject base s).1) (l := (subject base s).2))
  have hle : (subject base s).2.length ≤ s.length := by
    rw [subject]
    split
    · exact (drop_sublist _ _).length_le
    · split <;> exact Nat.le_refl _
  have hpos := List.length_pos_iff.mpr h
  rw [length_append] at hsplit
  rw [subjectDigits] at hpos
  omega

lemma standard_none {clamp : Bool → ℕ → ℤ × Bool} {nptr : List UInt8} {base : ℤ}
    (h : subjectDigits base (takeSign (skipSpace nptr)).2 = []) : standard clamp nptr base = ⟨0,nptr,false⟩ := if_pos h

lemma standard_some {clamp : Bool → ℕ → ℤ × Bool} {nptr : List UInt8} {base : ℤ}
    (h : subjectDigits base (takeSign (skipSpace nptr)).2 ≠ []) : standard clamp nptr base =
      let t := takeSign (skipSpace nptr)
      let b := subject base t.2
      let v := clamp t.1 (magnitude b.1 0 (subjectDigits base t.2))
      ⟨v.1,b.2.dropWhile (isDigit b.1),v.2⟩ := if_neg h

lemma standard_ne {clamp : Bool → ℕ → ℤ × Bool} {nptr : List UInt8} {base : ℤ} (v : ℤ) (erange : Bool)
    (h : subjectDigits base (takeSign (skipSpace nptr)).2 ≠ []) : ⟨v,nptr,erange⟩ ≠ standard clamp nptr base := by
  rw [standard_some h]
  intro heq
  have hlt := rest_length h
  have hle := strip_length nptr
  have hlen := congrArg (fun c : Converted => c.endptr.length) heq
  dsimp only at hlen
  omega

lemma strtoull_iff {base : ℤ} (hb : ValidBase base) (nptr : List UInt8) :
    strtoull nptr base = standard unsigned nptr base ↔ ¬ ZeroAlone base (takeSign (skipSpace nptr)).2 := by
  by_cases hz : ZeroAlone base (takeSign (skipSpace nptr)).2
  · refine iff_of_false ?_ (not_not.mpr hz)
    rw [strtoull,strtoullRaw_none hb (.inl hz)]
    exact standard_ne _ _ hz.digits_ne_nil
  · refine iff_of_true ?_ hz
    by_cases hd : subjectDigits base (takeSign (skipSpace nptr)).2 = []
    · rw [strtoull,strtoullRaw_none hb (.inr hd),standard_none hd]
      rfl
    · obtain ⟨hend,hov,hvalue⟩ := strtoullRaw_some hb hz hd
      rw [standard_some hd,strtoull]
      dsimp only
      rw [hend]
      by_cases hbig : ullongMax < magnitude (subject base (takeSign (skipSpace nptr)).2).1 0 (subjectDigits base (takeSign (skipSpace nptr)).2)
      · rw [if_pos (by rw [hov]; exact decide_eq_true hbig),unsigned,if_pos hbig]
      · have hfalse := hov.trans (decide_eq_false hbig)
        rw [if_neg (by rw [hfalse]; decide),hvalue hfalse,unsigned,if_neg hbig]
        congr 1
        have hle : magnitude (subject base (takeSign (skipSpace nptr)).2).1 0 (subjectDigits base (takeSign (skipSpace nptr)).2) ≤ 2^64 := by
          unfold ullongMax at hbig
          omega
        split
        · rw [Int.natCast_mod,Nat.cast_sub hle]
          rfl
        · rfl

lemma strtoullRaw_value {base : ℤ} (hb : ValidBase base) (nptr : List UInt8) :
    (strtoullRaw nptr base).overflow = true ∨ (strtoullRaw nptr base).value ≤ ullongMax := by
  by_cases h : ZeroAlone base (takeSign (skipSpace nptr)).2 ∨ subjectDigits base (takeSign (skipSpace nptr)).2 = []
  · rw [strtoullRaw_none hb h]
    exact .inr (Nat.zero_le _)
  · obtain ⟨-,hov,hvalue⟩ := strtoullRaw_some hb (not_or.mp h).1 (not_or.mp h).2
    cases hfalse : (strtoullRaw nptr base).overflow with
    | true => exact .inl rfl
    | false =>
      rw [hfalse] at hov
      have hle := not_lt.mp (of_decide_eq_false hov.symm)
      refine .inr ?_
      rw [hvalue hfalse]
      unfold ullongMax at hle ⊢
      split <;> omega

lemma strtoul_eq {base : ℤ} (hb : ValidBase base) (nptr : List UInt8) : strtoul nptr base = strtoull nptr base := by
  rw [strtoul,strtoull]
  rcases strtoullRaw_value hb nptr with h | h
  · rw [if_pos (.inl h),if_pos h]
  · by_cases hov : (strtoullRaw nptr base).overflow = true
    · rw [if_pos (.inl hov),if_pos hov]
    · rw [if_neg (by rintro (h' | h'); exacts [hov h',absurd h' (not_lt.mpr h)]),if_neg hov]

lemma strtol_eq (nptr : List UInt8) (base : ℤ) : strtol nptr base = strtoll nptr base := by
  have hrange : llongMin ≤ (strtoll nptr base).value ∧ (strtoll nptr base).value ≤ llongMax := by
    have hzero : llongMin ≤ 0 ∧ 0 ≤ llongMax := by decide
    rw [strtoll]
    split
    · exact hzero
    · split
      · dsimp only
        split
        · exact ⟨le_refl _,hzero.1.trans hzero.2⟩
        · split
          · exact ⟨le_refl _,hzero.1.trans hzero.2⟩
          · unfold llongMin llongMax at *
            dsimp only
            omega
      · split
        · exact ⟨hzero.1.trans hzero.2,le_refl _⟩
        · dsimp only
          omega
  rw [strtol,if_neg (not_lt.mpr hrange.2),if_neg (not_lt.mpr hrange.1)]

/-- White space or a sign where digits should stand, and a number behind them. -/
def SignTwice (base : ℤ) (s : List UInt8) : Prop :=
  (takeSign (skipSpace s)).2 ≠ s ∧ ¬ ZeroAlone base (takeSign (skipSpace s)).2 ∧ subjectDigits base (takeSign (skipSpace s)).2 ≠ []

lemma strtoll_none {base : ℤ} (hb : ValidBase base) {nptr : List UInt8}
    (h : let s := (takeSign (skipSpace nptr)).2
      ZeroAlone base (takeSign (skipSpace s)).2 ∨ subjectDigits base (takeSign (skipSpace s)).2 = []) :
    strtoll nptr base = ⟨0,nptr,false⟩ := by
  rw [strtoll,strtoullRaw_none hb h]
  exact if_pos rfl

lemma strtoll_iff {base : ℤ} (hb : ValidBase base) (nptr : List UInt8) : strtoll nptr base = standard signed nptr base ↔
    ¬ ZeroAlone base (takeSign (skipSpace nptr)).2 ∧ ¬ SignTwice base (takeSign (skipSpace nptr)).2 := by
  have hlen := strip_length nptr
  by_cases hs : (takeSign (skipSpace (takeSign (skipSpace nptr)).2)).2 = (takeSign (skipSpace nptr)).2
  · have hstrip := strip_eq hs
    have htwice : ¬ SignTwice base (takeSign (skipSpace nptr)).2 := fun h => h.1 hs
    by_cases hz : ZeroAlone base (takeSign (skipSpace nptr)).2
    · refine iff_of_false ?_ fun h => h.1 hz
      rw [strtoll_none hb (.inl (by rw [hs]; exact hz))]
      exact standard_ne _ _ hz.digits_ne_nil
    · refine iff_of_true ?_ ⟨hz,htwice⟩
      by_cases hd : subjectDigits base (takeSign (skipSpace nptr)).2 = []
      · rw [strtoll_none hb (.inr (by rw [hs]; exact hd)),standard_none hd]
      · obtain ⟨hend,hov,hvalue⟩ := strtoullRaw_some hb (by rw [hs]; exact hz) (by rw [hs]; exact hd)
        have hlt := rest_length hd
        rw [hstrip] at hend hov hvalue
        rw [standard_some hd,strtoll]
        dsimp only at hend hov hvalue ⊢
        rw [hend,if_neg fun heq => (by rw [heq] at hlt; omega : False)]
        generalize strtoullRaw (takeSign (skipSpace nptr)).2 base = r at hov hvalue ⊢
        generalize magnitude _ _ _ = mag at hov hvalue ⊢
        by_cases hbig : ullongMax < mag
        · have htrue := hov.trans (decide_eq_true hbig)
          simp only [htrue,true_or,if_true,signed,llongMin,llongMax,ullongMax] at hbig ⊢
          split_ifs <;> first | rfl | omega
        · have hfalse := hov.trans (decide_eq_false hbig)
          have hmag : r.value = mag := hvalue hfalse
          simp only [hfalse,hmag,Bool.false_eq_true,false_or,signed,llongMin,llongMax]
          split_ifs <;> first | rfl | omega | (congr 1; omega)
  · obtain ⟨hhead,hdigit⟩ := strip_ne hs
    have hz : ¬ ZeroAlone base (takeSign (skipSpace nptr)).2 := fun h => hhead h.1
    rw [standard_none (subjectDigits_eq_nil hhead hdigit)]
    by_cases hnone : ZeroAlone base (takeSign (skipSpace (takeSign (skipSpace nptr)).2)).2 ∨
        subjectDigits base (takeSign (skipSpace (takeSign (skipSpace nptr)).2)).2 = []
    · refine iff_of_true (strtoll_none hb hnone) ⟨hz,fun h => ?_⟩
      · rcases hnone with h' | h'
        · exact h.2.1 h'
        · exact h.2.2 h'
    · obtain ⟨hz',hd'⟩ := not_or.mp hnone
      refine iff_of_false (fun heq => ?_) fun h => h.2 ⟨hs,hz',hd'⟩
      obtain ⟨hend,-,-⟩ := strtoullRaw_some hb hz' hd'
      have hlt := rest_length hd'
      have hle := strip_length (takeSign (skipSpace nptr)).2
      have hends := congrArg (fun c : Converted => c.endptr.length) heq
      have hcode : (strtoll nptr base).endptr = (strtoullRaw (takeSign (skipSpace nptr)).2 base).endptr := by
        rw [strtoll]
        dsimp only
        rw [if_neg fun heq => (by rw [← hend,heq] at hlt; omega : False)]
        split_ifs <;> rfl
      dsimp only at hends
      rw [hcode,hend] at hends
      omega

/-- All four functions convert as the standard prescribes where no zero stands alone as a prefix and the sign is not
followed by white space or a sign and a number, and only there. -/
theorem strtol_family {base : ℤ} (hb : ValidBase base) (nptr : List UInt8) :
    (strtoll nptr base = standard signed nptr base ∧ strtol nptr base = standard signed nptr base ∧
      strtoull nptr base = standard unsigned nptr base ∧ strtoul nptr base = standard unsigned nptr base) ↔
    ¬ ZeroAlone base (takeSign (skipSpace nptr)).2 ∧ ¬ SignTwice base (takeSign (skipSpace nptr)).2 := by
  rw [strtol_eq,strtoul_eq hb,strtoll_iff hb,strtoull_iff hb]
  tauto

/-- ` -0x1F;` in base 0. -/
theorem strtol_family_hex : strtoll [32,45,48,120,49,70,59] 0 = ⟨-31,[59],false⟩ :=
  ((strtol_family (.inl rfl) [32,45,48,120,49,70,59]).mpr ⟨by decide,fun h => h.1 (by decide)⟩).1.trans (by decide)

/-- `08` in base 0 is a zero and an 8 that is left. -/
theorem strtol_zeroAlone : strtoll [48,56] 0 = ⟨0,[48,56],false⟩ ∧ standard signed [48,56] 0 = ⟨0,[56],false⟩ := by decide

end VibeOS.Libc

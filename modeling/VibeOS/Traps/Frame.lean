import VibeOS.Srv.Connection

/-! The registers that an exception saves, and the frame of a signal in user memory. -/
namespace VibeOS.Traps
open VibeOS.Srv List

/-- `struct exception_frame`, less its padding. -/
structure ExceptionFrame where
  x : Fin 31 → UInt64
  elr : UInt64
  spsr : UInt64

/-- A trap of a thread: the frame on its kernel stack, and SP_EL0, which `save_context` leaves in
the register. -/
structure Saved extends ExceptionFrame where
  spEl0 : UInt64

def modeField (pstate : UInt64) : UInt64 := pstate &&& 0x1f
/-- PSTATE.I -/
def irqMasked (pstate : UInt64) : Bool := pstate &&& 0x80 != 0

def el0t : UInt64 := 0
/-- The SPSR of `user_trampoline` and of `sys_exec`: EL0t, F=A=D=1, I=0. -/
def spsrUser : UInt64 := 0x340
/-- The SPSR of `cswitch_to`: EL1h, IRQs on. -/
def spsrKernel : UInt64 := 0x345

/-- EL0t with IRQs unmasked. -/
def El0 (pstate : UInt64) : Prop := modeField pstate = el0t ∧ irqMasked pstate = false

instance (pstate : UInt64) : Decidable (El0 pstate) := inferInstanceAs (Decidable (_ ∧ _))

lemma el0_spsrUser : El0 spsrUser := by decide

/-- NZCV, the part of PSTATE that a program may write at EL0. -/
def flagMask : UInt64 := 0xf0000000

def setFlags (pstate flags : UInt64) : UInt64 := (pstate &&& ~~~flagMask) ||| (flags &&& flagMask)

lemma setFlags_and {m : UInt64} (h : flagMask &&& m = 0) (h' : ~~~flagMask &&& m = m) (p q : UInt64) :
    setFlags p q &&& m = p &&& m := by
  have split : setFlags p q &&& m = (p &&& (~~~flagMask &&& m)) ||| (q &&& (flagMask &&& m)) := by
    unfold setFlags
    apply UInt64.toBitVec_inj.mp
    ext i
    simp [Bool.and_or_distrib_right,Bool.and_assoc]
  rw [split,h,h',UInt64.and_zero,UInt64.or_zero]

lemma El0.setFlags {p : UInt64} (h : El0 p) (q : UInt64) : El0 (setFlags p q) := by
  unfold El0 modeField irqMasked at *
  rw [setFlags_and (by decide) (by decide),setFlags_and (by decide) (by decide)]
  exact h

/-- The `k`-th byte of a word, least significant first. -/
def wordByte (v : UInt64) (k : ℕ) : UInt8 := UInt8.ofNat (v.toNat / 256^k)

def leBytes (v : UInt64) : List UInt8 := (List.range 8).map (wordByte v)

def leWord (bytes : List UInt8) : UInt64 := UInt64.ofNat (bytes.foldr (fun b n => b.toNat + 256*n) 0)

@[simp] lemma length_leBytes (v : UInt64) : (leBytes v).length = 8 := by simp [leBytes]

lemma leWord_leBytes (v : UInt64) : leWord (leBytes v) = v := by
  have hv := v.toNat_lt
  apply UInt64.toNat_inj.mp
  simp only [leWord,leBytes,wordByte,List.range,List.range.loop,map_cons,map_nil,foldr_cons,
    foldr_nil,UInt64.toNat_ofNat',UInt8.toNat_ofNat']
  omega

/-- `struct sigframe_k`. -/
structure SigframeK where
  x : Fin 31 → UInt64
  spEl0 : UInt64
  elr : UInt64
  spsr : UInt64
  signum : UInt32
  pad : UInt32
  pad2 : UInt64

namespace SigframeK

/-- sizeof(struct sigframe_k) -/
def size : ℕ := 288

/-- The words of the frame in the order of its fields; `signum` and `pad` share one. -/
def word (sf : SigframeK) (k : ℕ) : UInt64 :=
  if h : k < 31 then sf.x ⟨k,h⟩
  else if k = 31 then sf.spEl0
  else if k = 32 then sf.elr
  else if k = 33 then sf.spsr
  else if k = 34 then UInt64.ofNat (sf.signum.toNat + 2^32*sf.pad.toNat)
  else sf.pad2

def bytes (sf : SigframeK) : List UInt8 := (List.range 36).flatMap fun k => leBytes (sf.word k)

/-- The `k`-th word of some bytes. -/
def wordAt (bytes : List UInt8) (k : ℕ) : UInt64 := leWord ((bytes.drop (8*k)).take 8)

def ofBytes (bytes : List UInt8) : SigframeK where
  x k := wordAt bytes k
  spEl0 := wordAt bytes 31
  elr := wordAt bytes 32
  spsr := wordAt bytes 33
  signum := UInt32.ofNat ((wordAt bytes 34).toNat % 2^32)
  pad := UInt32.ofNat ((wordAt bytes 34).toNat / 2^32)
  pad2 := wordAt bytes 35

lemma length_flatMap_leBytes (f : ℕ → UInt64) (n : ℕ) :
    ((List.range n).flatMap fun k => leBytes (f k)).length = 8*n := by
  induction n with
  | zero => rfl
  | succ n ih => simp [range_succ,ih]; omega

@[simp] lemma length_bytes (sf : SigframeK) : sf.bytes.length = size := length_flatMap_leBytes _ 36

lemma wordAt_flatMap (f : ℕ → UInt64) {n k : ℕ} (h : k < n) :
    wordAt ((List.range n).flatMap fun k => leBytes (f k)) k = f k := by
  induction n with
  | zero => omega
  | succ n ih =>
    rw [range_succ,flatMap_append]
    rcases Nat.lt_succ_iff_lt_or_eq.mp h with hk | rfl
    · rw [← ih hk]
      unfold wordAt
      rw [drop_append_of_le_length (by rw [length_flatMap_leBytes]; omega),
        take_append_of_le_length (by rw [length_drop,length_flatMap_leBytes]; omega)]
    · unfold wordAt
      rw [List.drop_append,drop_of_length_le (Nat.le_of_eq (length_flatMap_leBytes f k)),length_flatMap_leBytes,Nat.sub_self]
      simp only [drop_zero,nil_append,flatMap_cons,flatMap_nil,append_nil]
      rw [take_of_length_le (Nat.le_of_eq (length_leBytes _)),leWord_leBytes]

lemma wordAt_bytes (sf : SigframeK) {k : ℕ} (h : k < 36) : wordAt sf.bytes k = sf.word k :=
  wordAt_flatMap sf.word h

lemma ofBytes_bytes (sf : SigframeK) : ofBytes sf.bytes = sf := by
  have hs := sf.signum.toNat_lt
  have hp := sf.pad.toNat_lt
  have hx : (fun k : Fin 31 => wordAt sf.bytes k) = sf.x := by
    funext k
    rw [wordAt_bytes sf (by omega)]
    simp [word]
  have hw : (wordAt sf.bytes 34).toNat = sf.signum.toNat + 2^32*sf.pad.toNat := by
    rw [wordAt_bytes sf (by decide)]
    simp only [word]
    rw [dif_neg (by decide),if_neg (by decide),if_neg (by decide),if_neg (by decide),if_pos trivial,UInt64.toNat_ofNat',
      Nat.mod_eq_of_lt (by omega)]
  have hm : (sf.signum.toNat + 2^32*sf.pad.toNat) % 2^32 = sf.signum.toNat := by omega
  have hd : (sf.signum.toNat + 2^32*sf.pad.toNat) / 2^32 = sf.pad.toNat := by omega
  unfold ofBytes
  rw [hx,hw,hm,hd,wordAt_bytes sf (by decide),wordAt_bytes sf (by decide),wordAt_bytes sf (by decide),
    wordAt_bytes sf (by decide)]
  simp [word]

end SigframeK

/-- `none` is -EFAULT. -/
def copyFromUser (u : User) (uptr len : ℕ) : Option (List UInt8) :=
  if rangeInUser uptr len then some (u.bytes uptr len) else none

end VibeOS.Traps

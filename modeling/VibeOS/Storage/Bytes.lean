import VibeOS.Widths
import Mathlib.Tactic.Ring

/-! Fixed-size byte arrays and the little-endian 32-bit words stored in them. -/
namespace VibeOS.Storage

/-- An array of `n` bytes. -/
abbrev Bytes (n : ℕ) := Fin n → UInt8

namespace Bytes
variable {n : ℕ}

/-- The byte at an offset; offsets past the end read as zero. -/
def get (b : Bytes n) (i : ℕ) : UInt8 := if h : i < n then b ⟨i,h⟩ else 0

def ofFn (f : ℕ → UInt8) : Bytes n := fun i => f i.val

def zero : Bytes n := fun _ => 0

/-- Overwrite `len` bytes from offset `off` on with `f 0, f 1, …`. -/
def splice (b : Bytes n) (off len : ℕ) (f : ℕ → UInt8) : Bytes n :=
  ofFn fun i => if off ≤ i ∧ i < off + len then f (i - off) else b.get i

variable {i : ℕ}

@[simp] lemma get_ofFn (f : ℕ → UInt8) (h : i < n) : (ofFn f : Bytes n).get i = f i := by
  simp [get,ofFn,h]

@[simp] lemma get_zero (i : ℕ) : (zero : Bytes n).get i = 0 := by
  simp [get,zero]

lemma get_of_ge (b : Bytes n) (h : n ≤ i) : b.get i = 0 := by
  simp [get,Nat.not_lt.mpr h]

lemma ext_get {a b : Bytes n} (h : ∀ i < n, a.get i = b.get i) : a = b := by
  funext i
  simpa [get] using h i.val i.isLt

lemma get_splice (b : Bytes n) (off len : ℕ) (f : ℕ → UInt8) (h : i < n) :
    (b.splice off len f).get i = if off ≤ i ∧ i < off + len then f (i - off) else b.get i := by
  rw [splice,get_ofFn _ h]

lemma get_splice_of_lt (b : Bytes n) (off len : ℕ) (f : ℕ → UInt8) (h : i < off) :
    (b.splice off len f).get i = b.get i := by
  by_cases hn : i < n
  · rw [get_splice _ _ _ _ hn,if_neg (by omega)]
  · rw [get_of_ge _ (by omega),get_of_ge _ (by omega)]

lemma get_splice_of_ge (b : Bytes n) (off len : ℕ) (f : ℕ → UInt8)
    (h : off + len ≤ i) : (b.splice off len f).get i = b.get i := by
  by_cases hn : i < n
  · rw [get_splice _ _ _ _ hn,if_neg (by omega)]
  · rw [get_of_ge _ (by omega),get_of_ge _ (by omega)]

/-- The `k`-th byte of a word, least significant first. -/
def wordByte (v : UInt32) (k : ℕ) : UInt8 := UInt8.ofNat (v.toNat / 256^k)

def u32 (b : Bytes n) (off : ℕ) : UInt32 :=
  UInt32.ofNat ((b.get off).toNat + 256*(b.get (off+1)).toNat + 65536*(b.get (off+2)).toNat +
    16777216*(b.get (off+3)).toNat)

def setU32 (b : Bytes n) (off : ℕ) (v : UInt32) : Bytes n := b.splice off 4 (wordByte v)

lemma u32_of_bytes {b : Bytes n} {off : ℕ} {v : UInt32}
    (h : ∀ k < 4, b.get (off+k) = wordByte v k) : b.u32 off = v := by
  have h0 := congrArg UInt8.toNat (h 0 (by omega))
  have h1 := congrArg UInt8.toNat (h 1 (by omega))
  have h2 := congrArg UInt8.toNat (h 2 (by omega))
  have h3 := congrArg UInt8.toNat (h 3 (by omega))
  have hv := v.toNat_lt
  simp only [wordByte,UInt8.toNat_ofNat',Nat.add_zero] at h0 h1 h2 h3
  apply UInt32.toNat_inj.mp
  rw [u32,UInt32.toNat_ofNat',h0,h1,h2,h3]
  omega

lemma u32_congr {m : ℕ} {b : Bytes n} {c : Bytes m} {off off' : ℕ}
    (h : ∀ k < 4, b.get (off+k) = c.get (off'+k)) : b.u32 off = c.u32 off' := by
  have h0 := h 0 (by omega)
  rw [Nat.add_zero,Nat.add_zero] at h0
  rw [u32,u32,h0,h 1 (by omega),h 2 (by omega),h 3 (by omega)]

@[simp] lemma u32_zero (off : ℕ) : (zero : Bytes n).u32 off = 0 := by
  simp [u32]

lemma u32_splice_word (b : Bytes n) {off len : ℕ} {f : ℕ → UInt8} {v : UInt32} {w : ℕ}
    (hlen : w + 4 ≤ len) (hn : off + len ≤ n) (hf : ∀ k < 4, f (w+k) = wordByte v k) :
    (b.splice off len f).u32 (off+w) = v := by
  apply u32_of_bytes
  intro k hk
  rw [get_splice _ _ _ _ (by omega),if_pos (by omega),← hf k hk]
  congr 1
  omega

lemma u32_splice_of_disjoint (b : Bytes n) {off len off' : ℕ} {f : ℕ → UInt8}
    (h : off' + 4 ≤ off ∨ off + len ≤ off') : (b.splice off len f).u32 off' = b.u32 off' := by
  apply u32_congr
  intro k hk
  rcases h with h | h
  · exact get_splice_of_lt _ _ _ _ (by omega)
  · exact get_splice_of_ge _ _ _ _ (by omega)

lemma u32_setU32_self (b : Bytes n) {off : ℕ} (v : UInt32) (h : off + 4 ≤ n) :
    (b.setU32 off v).u32 off = v :=
  u32_splice_word (w := 0) b (by omega) h (fun k _ => by rw [Nat.zero_add])

lemma u32_setU32_of_disjoint (b : Bytes n) {off off' : ℕ} (v : UInt32)
    (h : off' + 4 ≤ off ∨ off + 4 ≤ off') : (b.setU32 off v).u32 off' = b.u32 off' :=
  u32_splice_of_disjoint b h

end Bytes
end VibeOS.Storage

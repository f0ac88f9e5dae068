import VibeOS.Tcp.Segment

/-! What a checksum that `net_ipv4_checksum` computed says about the bytes that carry it. -/
namespace VibeOS.Net
open VibeOS.Tcp

/-- The 16-bit words, the checksum among them, add up to all ones. -/
def Adds (p : List UInt8) : Prop := foldCarry (wordSum p) = 65535

variable {p q : List UInt8} {x y : UInt8}

lemma foldCarry_spec (s : ℕ) :
    foldCarry s < 65536 ∧ foldCarry s ≤ s ∧ foldCarry s % 65535 = s % 65535 ∧ (0 < s → 0 < foldCarry s) := by
  induction s using foldCarry.induct with
  | case1 s h =>
    rw [foldCarry,dif_pos h]
    exact ⟨h,le_rfl,rfl,id⟩
  | case2 s h ih =>
    rw [foldCarry,dif_neg h]
    obtain ⟨hlt,hle,hmod,hpos⟩ := ih
    exact ⟨hlt,by omega,by omega,fun _ => hpos (by omega)⟩

lemma foldCarry_add_complement (s : ℕ) : foldCarry (s + (65535 - foldCarry s)) = 65535 := by
  obtain ⟨hlt,hle,hmod,hpos⟩ := foldCarry_spec s
  obtain ⟨hlt',_,hmod',hpos'⟩ := foldCarry_spec (s + (65535 - foldCarry s))
  have := hpos' (by omega)
  omega

lemma foldCarry_add_ones {s : ℕ} (h : foldCarry s = 65535) : foldCarry (s + 65535) = 65535 := by
  obtain ⟨hlt,hle,hmod,hpos⟩ := foldCarry_spec s
  obtain ⟨hlt',_,hmod',hpos'⟩ := foldCarry_spec (s + 65535)
  have := hpos' (by omega)
  omega

lemma wordSum_append (h : p.length % 2 = 0) : wordSum (p ++ q) = wordSum p + wordSum q := by
  induction p using wordSum.induct with
  | case1 => rw [List.nil_append,wordSum,Nat.zero_add]
  | case2 a => cases h
  | case3 a b p ih =>
    rw [List.length_cons,List.length_cons] at h
    change 256*a.toNat + b.toNat + wordSum (p ++ q) = 256*a.toNat + b.toNat + wordSum p + wordSum q
    rw [ih (by omega)]
    omega

lemma wordSum_field (h : p.length % 2 = 0) :
    wordSum (p ++ x :: y :: q) = wordSum (p ++ 0 :: 0 :: q) + (256*x.toNat + y.toNat) := by
  rw [wordSum_append h,wordSum_append h]
  change wordSum p + (256*x.toNat + y.toNat + wordSum q) = wordSum p + (256*0 + 0 + wordSum q) + (256*x.toNat + y.toNat)
  omega

lemma checksum_field (h : checksum p = UInt16.ofNat (x.toNat + 256*y.toNat)) :
    256*x.toNat + y.toNat = 65535 - foldCarry (wordSum p) := by
  have hx := x.toNat_lt
  have hy := y.toNat_lt
  have heq := congrArg UInt16.toNat h
  simp only [checksum] at heq
  rw [UInt16.toNat_ofNat_of_lt' (by simp only [UInt16.size]; omega),
    UInt16.toNat_ofNat_of_lt' (by simp only [UInt16.size]; omega)] at heq
  omega

lemma adds_of_checksum (heven : p.length % 2 = 0)
    (h : checksum (p ++ 0 :: 0 :: q) = UInt16.ofNat (x.toNat + 256*y.toNat)) : Adds (p ++ x :: y :: q) := by
  unfold Adds
  rw [wordSum_field heven,checksum_field h]
  exact foldCarry_add_complement _

lemma adds_of_ones (heven : p.length % 2 = 0) (h : checksum (p ++ 0 :: 0 :: q) = 0)
    (hones : UInt16.ofNat (x.toNat + 256*y.toNat) = 0xFFFF) : Adds (p ++ x :: y :: q) := by
  have hx := x.toNat_lt
  have hy := y.toNat_lt
  have hsum : 256*(0 : UInt8).toNat + (0 : UInt8).toNat = 65535 - foldCarry (wordSum (p ++ 0 :: 0 :: q)) := checksum_field h
  have hlt := (foldCarry_spec (wordSum (p ++ 0 :: 0 :: q))).1
  have hall : foldCarry (wordSum (p ++ 0 :: 0 :: q)) = 65535 := by
    change 0 = _ at hsum
    omega
  have hfield := congrArg UInt16.toNat hones
  rw [UInt16.toNat_ofNat_of_lt' (by simp only [UInt16.size]; omega)] at hfield
  change x.toNat + 256*y.toNat = 65535 at hfield
  have hxy : 256*x.toNat + y.toNat = 65535 := by omega
  unfold Adds
  rw [wordSum_field heven,hxy]
  exact foldCarry_add_ones hall

end VibeOS.Net

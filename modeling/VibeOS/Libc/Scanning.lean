import VibeOS.Libc.Scanf
import Mathlib.Data.List.TakeWhile

/-! What the scanner reads of its source. -/
namespace VibeOS.Scanf
open List Option Nat

/-- A source with `t` left of it, of which `n` characters were read. -/
structure At (s : Src) (t : List Char) (n : ℕ) : Prop where
  left : s.undo.toList ++ s.rest = t
  pos : s.consumed = n

variable {n : ℕ} {s : Src}

lemma At.get_nil (h : At s [] n) : scnGet s = (none,s) := by
  obtain ⟨rest,undo,consumed⟩ := s
  obtain ⟨hundo,rfl⟩ := List.append_eq_nil_iff.mp h.left
  obtain rfl : undo = none := Option.toList_eq_nil_iff.mp hundo
  rfl

variable {c : Char} {t : List Char}

lemma At.get_cons (h : At s (c :: t) n) : scnGet s = (some c,⟨t,none,n+1⟩) := by
  obtain ⟨rest,undo,consumed⟩ := s
  obtain ⟨hleft,rfl⟩ := h
  cases undo with
  | none =>
    obtain rfl : rest = c :: t := hleft
    rfl
  | some d =>
    obtain ⟨rfl,rfl⟩ := List.cons.inj hleft
    rfl

lemma At.mk' (t : List Char) (n : ℕ) : At ⟨t,none,n⟩ t n := ⟨rfl,rfl⟩

lemma At.unget (c : Char) (t : List Char) (n : ℕ) : At (scnUnget ⟨t,none,n+1⟩ c) (c :: t) n := ⟨rfl,rfl⟩

lemma scnSkipWs_spec {fuel : ℕ} (h : At s t n) (hfuel : t.length < fuel) :
    ∃ s', scnSkipWs fuel s = (decide (behindSpace t = []),s') ∧ At s' (behindSpace t) (n + spaceLength t) := by
  induction fuel generalizing s t n with
  | zero => omega
  | succ fuel ih =>
    cases t with
    | nil =>
      refine ⟨s,?_,h⟩
      rw [scnSkipWs,h.get_nil]
      rfl
    | cons c t =>
      rw [scnSkipWs,h.get_cons]
      dsimp only
      rcases hc : scnIsspace c
      · have hbehind : behindSpace (c :: t) = c :: t := dropWhile_cons_of_neg (by rw [hc]; exact nofun)
        have hlen : spaceLength (c :: t) = 0 := by rw [spaceLength,takeWhile_cons_of_neg (by rw [hc]; exact nofun)]; rfl
        refine ⟨scnUnget ⟨t,none,n+1⟩ c,?_,?_⟩
        · rw [hbehind,decide_eq_false (cons_ne_nil c t)]
          rfl
        · rw [hbehind,hlen]
          exact At.unget c t n
      · have hbehind : behindSpace (c :: t) = behindSpace t := dropWhile_cons_of_pos hc
        have hlen : spaceLength (c :: t) = spaceLength t + 1 := by rw [spaceLength,takeWhile_cons_of_pos hc]; rfl
        obtain ⟨s',hs',hat⟩ := ih (At.mk' t (n+1)) (lt_of_succ_lt_succ hfuel)
        refine ⟨s',?_,?_⟩
        · rw [hbehind]
          exact hs'
        · rw [hbehind,hlen,Nat.add_comm (spaceLength t) 1,← Nat.add_assoc]
          exact hat

lemma cut_nil (w : Option ℕ) : cut w [] = [] := by cases w <;> [rfl; exact take_nil]

lemma cut_takeWhile (w : Option ℕ) (p : Char → Bool) (t : List Char) : (cut w t).takeWhile p = cut w (t.takeWhile p) := by
  cases w with
  | none => rfl
  | some w => exact List.take_takeWhile.symm

lemma cut_drop (w : Option ℕ) (n : ℕ) (t : List Char) : (cut w t).drop n = cut (w.map (· - n)) (t.drop n) := by
  cases w with
  | none => rfl
  | some w => exact drop_take

variable {w : Option ℕ}

lemma cut_cons (hw : w ≠ some 0) (c : Char) (t : List Char) : cut w (c :: t) = c :: cut (w.map (· - 1)) t := by
  cases w with
  | none => rfl
  | some w =>
    obtain ⟨w,rfl⟩ := exists_eq_succ_of_ne_zero (fun h => hw (congrArg some h))
    exact take_succ_cons

variable {base : ℕ}

lemma isDigitOf_iff : isDigitOf base c = true ↔ ¬ scnDigitValue c base < 0 := by
  rw [isDigitOf,decide_eq_true_eq,not_lt]

def widthInt (w : Option ℕ) : ℤ := w.elim 0 (↑)

lemma digitsFrom_mod (base acc : ℕ) (ds : List Char) : digitsFrom base (acc % 2^64) ds % 2^64 = digitsFrom base acc ds % 2^64 := by
  induction ds generalizing acc with
  | nil => exact mod_mod _ _
  | cons c ds ih =>
    have hstep : (acc % 2^64 * base + (scnDigitValue c base).toNat) % 2^64 = (acc * base + (scnDigitValue c base).toNat) % 2^64 := by
      rw [add_mod,mul_mod,mod_mod,← mul_mod,← add_mod]
    change digitsFrom base (acc % 2^64 * base + (scnDigitValue c base).toNat) ds % 2^64 =
      digitsFrom base (acc * base + (scnDigitValue c base).toNat) ds % 2^64
    rw [← ih,hstep,ih]

lemma digitLoop_spec (hw : w ≠ some 0) (base : ℕ) {fuel u : ℕ} {n acc : ℕ} (h : At s t n)
    (hfuel : t.length < fuel) (hacc : acc < 2^64) :
    ∃ s', digitLoop (widthInt w) base fuel s acc u = (digitsFrom base acc (cut (w.map (· - u)) (t.takeWhile (isDigitOf base))) % 2^64,s') ∧
      At s' (t.drop (cut (w.map (· - u)) (t.takeWhile (isDigitOf base))).length)
        (n + (cut (w.map (· - u)) (t.takeWhile (isDigitOf base))).length) := by
  induction fuel generalizing u s t n acc with
  | zero => omega
  | succ fuel ih =>
    have hacc' : digitsFrom base acc [] % 2^64 = acc := mod_eq_of_lt hacc
    by_cases hroom : w.map (· - u) = some 0
    · obtain ⟨x,rfl,hx⟩ := Option.map_eq_some_iff.mp hroom
      have hx₀ : x ≠ 0 := fun h => hw (congrArg some h)
      have hfull : ¬ (widthInt (some x) = 0 ∨ (u : ℤ) < widthInt (some x)) := by
        change ¬ ((x : ℤ) = 0 ∨ (u : ℤ) < x)
        omega
      refine ⟨s,?_,?_⟩
      · rw [hroom,digitLoop,if_neg hfull]
        exact congrArg (·,s) hacc'.symm
      · rw [hroom]
        exact h
    · have hopen : widthInt w = 0 ∨ (u : ℤ) < widthInt w := by
        cases w with
        | none => exact .inl rfl
        | some x =>
          have hne : x - u ≠ 0 := fun h => hroom (congrArg some h)
          exact .inr (by change (u : ℤ) < x; omega)
      rw [digitLoop,if_pos hopen]
      cases t with
      | nil =>
        rw [h.get_nil,takeWhile_nil,cut_nil]
        exact ⟨s,congrArg (·,s) hacc'.symm,h⟩
      | cons c t =>
        rw [h.get_cons]
        dsimp only
        by_cases hc : isDigitOf base c = true
        · have hmap : (w.map (· - u)).map (· - 1) = w.map (· - (u + 1)) := by
            rw [Option.map_map]
            exact congrArg (w.map ·) (funext fun x => Nat.sub_sub x u 1)
          rw [if_neg (isDigitOf_iff.mp hc),takeWhile_cons_of_pos hc,cut_cons hroom,hmap,length_cons,drop_succ_cons]
          obtain ⟨s',hs',hat⟩ := ih (u := u + 1) (At.mk' t (n+1)) (lt_of_succ_lt_succ hfuel)
            (mod_lt (acc * base + (scnDigitValue c base).toNat) (Nat.two_pow_pos 64))
          rw [digitsFrom_mod,cast_succ] at hs'
          refine ⟨s',hs',?_⟩
          rw [← Nat.add_assoc,Nat.add_right_comm]
          exact hat
        · rw [if_pos (not_not.mp fun h => hc (isDigitOf_iff.mpr h)),takeWhile_cons_of_neg hc,cut_nil]
          exact ⟨_,congrArg (·,_) hacc'.symm,At.unget c t n⟩

/-- The digits that the code takes where a first one stands at the front of `s`. -/
def codeDigits (w : Option ℕ) (base : ℕ) (s : List Char) : List Char :=
  match s.takeWhile (isDigitOf base) with
  | [] => []
  | c :: ds => c :: cut w ds

lemma scnDigits_spec (hw : w ≠ some 0) (hbase : base ≤ 16) {fuel u : ℕ}
    (h : At s t n) (hfuel : t.length < fuel) :
    if codeDigits (w.map (· - (u + 1))) base (c :: t) = [] then scnDigits fuel (widthInt w) base u c s = none
    else ∃ s', scnDigits fuel (widthInt w) base u c s =
        some (digitsFrom base 0 (codeDigits (w.map (· - (u + 1))) base (c :: t)) % 2^64,s') ∧
      At s' ((c :: t).drop (codeDigits (w.map (· - (u + 1))) base (c :: t)).length)
        (n + (codeDigits (w.map (· - (u + 1))) base (c :: t)).length - 1) := by
  by_cases hc : isDigitOf base c = true
  · have hdigits : codeDigits (w.map (· - (u + 1))) base (c :: t) =
        c :: cut (w.map (· - (u + 1))) (t.takeWhile (isDigitOf base)) := by
      rw [codeDigits,takeWhile_cons_of_pos hc]
    have hlt : (scnDigitValue c base).toNat < 2^64 := by
      have hsmall (v : ℤ) : (if v < base then v else -1) < 16 := by split <;> omega
      have hvalue : scnDigitValue c base < 16 := hsmall _
      omega
    obtain ⟨s',hs',hat⟩ := digitLoop_spec hw base (u := u + 1) h hfuel hlt
    rw [hdigits,if_neg (cons_ne_nil _ _)]
    refine ⟨s',?_,?_⟩
    · rw [scnDigits,if_neg (isDigitOf_iff.mp hc)]
      rw [cast_succ] at hs'
      rw [hs',digitsFrom,digitsFrom,foldl_cons,Nat.zero_mul,Nat.zero_add]
    · rw [length_cons,drop_succ_cons,← Nat.add_assoc,Nat.add_sub_cancel]
      exact hat
  · have hdigits : codeDigits (w.map (· - (u + 1))) base (c :: t) = [] := by
      rw [codeDigits,takeWhile_cons_of_neg hc]
    rw [if_pos hdigits,scnDigits,if_pos (not_not.mp fun h => hc (isDigitOf_iff.mpr h))]

lemma codeDigits_eq (hw : w ≠ some 0) (base : ℕ) (s : List Char) :
    codeDigits (w.map (· - 1)) base s = (cut w s).takeWhile (isDigitOf base) := by
  rw [cut_takeWhile,codeDigits]
  cases s.takeWhile (isDigitOf base) with
  | nil => rw [cut_nil]
  | cons c ds => rw [cut_cons hw]

/-- The base of the code, which is 0 until the prefix tells it. -/
def codeBase : Spec → ℕ
  | .d | .u => 10
  | .o => 8
  | .x => 16
  | _ => 0

/-- What a conversion makes of an unsigned number at `s`. -/
def Reads (result : Option (ℕ × Src)) (item : Option (ℕ × ℕ)) (s : List Char) (n : ℕ) : Prop :=
  match item with
  | none => result = none
  | some (v,l) => ∃ s', result = some (v % 2^64,s') ∧ At s' (s.drop l) (n + l)

lemma reads_of_digits {result : Option (ℕ × Src)} {base pre n : ℕ} {s ds : List Char}
    (h : if ds = [] then result = none else ∃ s', result = some (digitsFrom base 0 ds % 2^64,s') ∧
      At s' (s.drop (pre + ds.length)) (n + (pre + ds.length))) :
    Reads result (if ds = [] then none else some (digitsFrom base 0 ds,pre + ds.length)) s n := by
  by_cases hds : ds = []
  · rw [if_pos hds] at h ⊢
    exact h
  · rw [if_neg hds] at h ⊢
    exact h

lemma scnDigits_reads (hw : w ≠ some 0) (hbase : base ≤ 16) {fuel u p : ℕ} {s₀ : List Char}
    (hpre : s₀.drop p = c :: t) (h : At s t (n+p+1)) (hfuel : t.length < fuel) {ds : List Char}
    (hds : codeDigits (w.map (· - (u + 1))) base (c :: t) = ds) :
    Reads (scnDigits fuel (widthInt w) base u c s) (if ds = [] then none else some (digitsFrom base 0 ds,p + ds.length)) s₀ n := by
  have hspec := scnDigits_spec hw hbase (u := u) (c := c) h hfuel
  rw [hds] at hspec
  refine reads_of_digits ?_
  split
  · rename_i hnil
    rw [if_pos hnil] at hspec
    exact hspec
  · rename_i hne
    rw [if_neg hne] at hspec
    obtain ⟨s',hs',hat⟩ := hspec
    refine ⟨s',hs',?_⟩
    rw [Nat.add_right_comm,Nat.add_sub_cancel,← hpre,drop_drop,Nat.add_assoc] at hat
    exact hat

lemma c99Unsigned_nil (spec : Spec) : c99Unsigned spec [] = none := by
  cases spec <;> rfl

variable {spec : Spec}

lemma takeWhile_of_none {s : List Char} (h : c99Unsigned spec s = none) :
    (s.drop (basePrefix spec s).2).takeWhile (isDigitOf (basePrefix spec s).1) = [] := by
  unfold c99Unsigned at h
  dsimp only at h
  split at h
  · rename_i hnil
    exact hnil
  · exact nomatch h

lemma codeDigits_of_none {s : List Char} (h : s.takeWhile (isDigitOf base) = []) : codeDigits w base s = [] := by
  rw [codeDigits,h]

lemma plain_reads (hw : w ≠ some 0) (hbase : base ≤ 16) {fuel sg : ℕ}
    (hplain : ∀ t', basePrefix spec (c :: t') = (base,0)) (hfuel : t.length < fuel) (hserved : w.map (· - sg) = some 0 → c99Unsigned spec (c :: t) = none) :
    Reads (scnDigits fuel (widthInt w) base sg c ⟨t,none,n+1⟩) (c99Unsigned spec (cut (w.map (· - sg)) (c :: t))) (c :: t) n := by
  have hmap : (w.map (· - sg)).map (· - 1) = w.map (· - (sg + 1)) := by
    rw [Option.map_map]
    exact congrArg (w.map ·) (funext fun x => Nat.sub_sub x sg 1)
  by_cases hroom : w.map (· - sg) = some 0
  · have hnone := takeWhile_of_none (hserved hroom)
    rw [hplain t,drop_zero] at hnone
    have hreads := scnDigits_reads hw hbase (u := sg) (p := 0) rfl (At.mk' t (n+1)) hfuel (codeDigits_of_none hnone)
    have hcut : cut (some 0) (c :: t) = [] := rfl
    rw [hroom,hcut,c99Unsigned_nil]
    exact hreads
  · have hds : codeDigits (w.map (· - (sg + 1))) base (c :: t) = (cut (w.map (· - sg)) (c :: t)).takeWhile (isDigitOf base) := by
      rw [← hmap,codeDigits_eq hroom]
    have hreads := scnDigits_reads hw hbase (u := sg) (p := 0) rfl (At.mk' t (n+1)) hfuel hds
    have hitem : c99Unsigned spec (cut (w.map (· - sg)) (c :: t)) =
        if (cut (w.map (· - sg)) (c :: t)).takeWhile (isDigitOf base) = [] then none
        else some (digitsFrom base 0 ((cut (w.map (· - sg)) (c :: t)).takeWhile (isDigitOf base)),
          0 + ((cut (w.map (· - sg)) (c :: t)).takeWhile (isDigitOf base)).length) := by
      unfold c99Unsigned
      rw [cut_cons hroom,hplain]
      rfl
    rw [hitem]
    exact hreads

lemma hex_reads (hspec : spec = .i ∨ spec = .x) (hw : w ≠ some 0) {fuel sg : ℕ} {p : Char} (hp : p = 'x' ∨ p = 'X')
    (hfuel : t.length < fuel) (hserved : UnsignedServed spec (w.map (· - sg)) ('0' :: p :: t)) :
    Reads (match scnGet ⟨t,none,n+2⟩ with
      | (none,_) => none
      | (some c,s) => scnDigits fuel (widthInt w) 16 (sg+2 : ℕ) c s) (c99Unsigned spec (cut (w.map (· - sg)) ('0' :: p :: t))) ('0' :: p :: t) n := by
  have hhex (t' : List Char) : hexPrefixed ('0' :: p :: t') = true := by rcases hp with rfl | rfl <;> rfl
  have hplain (t' : List Char) : basePrefix spec ('0' :: p :: t') = (16,2) := by
    rcases hspec with rfl | rfl <;> exact if_pos (hhex t')
  have hnone (h : c99Unsigned spec ('0' :: p :: t) = none) : t.takeWhile (isDigitOf 16) = [] := by
    have hdigits := takeWhile_of_none h
    rw [hplain t] at hdigits
    exact hdigits
  have hfail (h : t.takeWhile (isDigitOf 16) = []) : (match scnGet ⟨t,none,n+2⟩ with
      | (none,_) => none
      | (some c,s) => scnDigits fuel (widthInt w) 16 (sg+2 : ℕ) c s) = none := by
    cases t with
    | nil => rfl
    | cons c t =>
      have hreads := scnDigits_spec hw (Nat.le_refl 16) (u := sg + 2) (c := c) (At.mk' t (n+3)) (lt_of_succ_lt hfuel)
      rw [if_pos (codeDigits_of_none h)] at hreads
      exact hreads
  have hroom (w' : Option ℕ) (hw' : w' ≠ some 0) (hcut : cut (w.map (· - sg)) ('0' :: p :: t) = '0' :: p :: cut w' t)
      (hmap : w.map (· - (sg + 2 + 1)) = w'.map (· - 1)) :
      Reads (match scnGet ⟨t,none,n+2⟩ with
        | (none,_) => none
        | (some c,s) => scnDigits fuel (widthInt w) 16 (sg+2 : ℕ) c s) (c99Unsigned spec (cut (w.map (· - sg)) ('0' :: p :: t))) ('0' :: p :: t) n := by
    have hitem : c99Unsigned spec (cut (w.map (· - sg)) ('0' :: p :: t)) =
        if (cut w' t).takeWhile (isDigitOf 16) = [] then none
        else some (digitsFrom 16 0 ((cut w' t).takeWhile (isDigitOf 16)),2 + ((cut w' t).takeWhile (isDigitOf 16)).length) := by
      unfold c99Unsigned
      rw [hcut,hplain]
      rfl
    rw [hitem]
    cases t with
    | nil =>
      rw [cut_nil]
      exact hfail rfl
    | cons c t =>
      have hds : codeDigits (w.map (· - (sg + 2 + 1))) 16 (c :: t) = (cut w' (c :: t)).takeWhile (isDigitOf 16) := by rw [hmap,codeDigits_eq hw']
      exact scnDigits_reads hw (Nat.le_refl 16) (u := sg + 2) (p := 2) rfl (At.mk' t (n+3)) (lt_of_succ_lt hfuel) hds
  obtain ⟨hzero,hone,-⟩ := hserved
  obtain ⟨hone,htwo⟩ := hone hspec (hhex t)
  rcases hlimit : w.map (· - sg) with _ | _ | _ | _ | k
  case some.zero =>
    rw [hlimit] at hzero
    have hcut : cut (some 0) ('0' :: p :: t) = [] := rfl
    rw [hcut,c99Unsigned_nil]
    exact hfail (hnone (hzero rfl))
  case some.succ.zero =>
    rw [hlimit] at hone
    exact absurd rfl hone
  case some.succ.succ.zero =>
    rw [hlimit] at htwo
    have hitem : c99Unsigned spec (cut (some 2) ('0' :: p :: t)) = none := by
      unfold c99Unsigned
      change (if (List.drop (basePrefix spec ['0',p]).2 ['0',p]).takeWhile _ = [] then none else _) = none
      rw [hplain []]
      rfl
    rw [hitem]
    exact hfail (hnone (htwo rfl))
  case none =>
    rw [← hlimit]
    rw [map_eq_none_iff] at hlimit
    subst hlimit
    exact hroom none nofun rfl rfl
  case some.succ.succ.succ =>
    rw [← hlimit]
    obtain ⟨x,rfl,hx⟩ := Option.map_eq_some_iff.mp hlimit
    refine hroom (some (k+1)) nofun ?_ ?_
    · rw [hlimit]
      rfl
    · have hx : x - sg = k + 3 := hx
      exact congrArg some (by change x - (sg + 2 + 1) = k + 1 - 1; omega)

lemma hexPrefixed_cut (h : hexPrefixed ('0' :: t) = false) (w' : Option ℕ) :
    hexPrefixed ('0' :: cut w' t) = false := by
  cases t with
  | nil => rw [cut_nil]; rfl
  | cons c t =>
    rcases w' with _ | _ | k
    · exact h
    · rfl
    · exact h

lemma zero_reads (hspec : spec = .i ∨ spec = .x) (hw : w ≠ some 0) (hbase : base ≤ 16)
    (hdigit : isDigitOf base '0' = true) (hplain : ∀ t', hexPrefixed ('0' :: t') = false → basePrefix spec ('0' :: t') = (base,0)) {fuel sg : ℕ}
    (h : At s t (n+1)) (hfuel : t.length < fuel) (hhex : hexPrefixed ('0' :: t) = false)
    (hserved : UnsignedServed spec (w.map (· - sg)) ('0' :: t)) :
    Reads (scnDigits fuel (widthInt w) base (sg+1 : ℕ) '0' s) (c99Unsigned spec (cut (w.map (· - sg)) ('0' :: t))) ('0' :: t) n := by
  have htake : ('0' :: t).takeWhile (isDigitOf base) = '0' :: t.takeWhile (isDigitOf base) := takeWhile_cons_of_pos hdigit
  obtain ⟨hzero,-,hroom⟩ := hserved
  have hwidth : w.map (· - sg) ≠ some 0 := fun hw₀ => by
    have hnone := takeWhile_of_none (hzero hw₀)
    rw [hplain t hhex,drop_zero,htake] at hnone
    exact nomatch hnone
  have hroom := hroom hspec hhex rfl
  rw [hplain t hhex,htake,length_cons] at hroom
  -- the code counts the 0 once more
  have hsame : cut (w.map (· - (sg + 1 + 1))) (t.takeWhile (isDigitOf base)) = cut ((w.map (· - sg)).map (· - 1)) (t.takeWhile (isDigitOf base)) := by
    cases w with
    | none => rfl
    | some x =>
      have hne : x - sg ≠ 0 := fun h => hwidth (congrArg some h)
      have hle := hroom (x - sg) rfl
      change (t.takeWhile (isDigitOf base)).take (x - (sg + 1 + 1)) = (t.takeWhile (isDigitOf base)).take (x - sg - 1)
      rcases Nat.eq_zero_or_pos (t.takeWhile (isDigitOf base)).length with hnil | hpos
      · rw [List.length_eq_zero_iff.mp hnil,take_nil,take_nil]
      · rw [take_of_length_le (by omega),take_of_length_le (by omega)]
  have hds : codeDigits (w.map (· - (sg + 1 + 1))) base ('0' :: t) = (cut (w.map (· - sg)) ('0' :: t)).takeWhile (isDigitOf base) := by
    rw [codeDigits,htake,cut_takeWhile,htake,cut_cons hwidth]
    dsimp only
    rw [hsame]
  have hitem : c99Unsigned spec (cut (w.map (· - sg)) ('0' :: t)) =
      if (cut (w.map (· - sg)) ('0' :: t)).takeWhile (isDigitOf base) = [] then none
      else some (digitsFrom base 0 ((cut (w.map (· - sg)) ('0' :: t)).takeWhile (isDigitOf base)),
        0 + ((cut (w.map (· - sg)) ('0' :: t)).takeWhile (isDigitOf base)).length) := by
    unfold c99Unsigned
    rw [cut_cons hwidth,hplain _ (hexPrefixed_cut hhex _)]
    rfl
  rw [hitem]
  exact scnDigits_reads hw hbase (u := sg + 1) (p := 0) rfl h hfuel hds

lemma basePrefix_plain (hspec : spec.isInteger = true) (h : (spec = .i ∨ spec = .x) → c ≠ '0') (t : List Char) :
    basePrefix spec (c :: t) = (if codeBase spec = 0 then 10 else codeBase spec,0) := by
  have hhex (hc : c ≠ '0') : hexPrefixed (c :: t) = false := by
    cases t with
    | nil => rfl
    | cons d t => simp only [hexPrefixed,hc,decide_false,Bool.false_and]
  cases spec with
  | i =>
    have hc := h (.inl rfl)
    have hhead : (c :: t).head? ≠ some '0' := fun h => hc (some.inj h)
    rw [basePrefix,hhex hc,if_neg hhead]
    rfl
  | x =>
    rw [basePrefix,hhex (h (.inr rfl))]
    rfl
  | d | u | o => rfl
  | _ => exact absurd hspec (by decide)

lemma scnPrefixed_reads (hspec : spec.isInteger = true) (hw : w ≠ some 0) {f g : ℕ}
    (hfuel : t.length < f) (hserved : UnsignedServed spec (w.map (· - g)) (c :: t)) :
    Reads (scnPrefixed f spec.char (widthInt w) g c ⟨t,none,n+1⟩) (c99Unsigned spec (cut (w.map (· - g)) (c :: t))) (c :: t) n := by
  have hbase : (if spec.char = 'd' ∨ spec.char = 'u' then 10 else if spec.char = 'o' then 8
      else if spec.char = 'x' ∨ spec.char = 'X' then 16 else 0) = codeBase spec := by
    cases spec <;> rfl
  have hprefixed : (codeBase spec = 0 ∨ codeBase spec = 16) ↔ (spec = .i ∨ spec = .x) := by
    cases spec <;> first | exact absurd hspec (by decide) | simp [codeBase]
  rw [scnPrefixed]
  simp only [hbase]
  by_cases hzero : (codeBase spec = 0 ∨ codeBase spec = 16) ∧ c = '0'
  · obtain ⟨hlooks,rfl⟩ := hzero
    have hix := hprefixed.mp hlooks
    rw [if_pos ⟨hlooks,rfl⟩]
    have hbase₈ : isDigitOf (if codeBase spec = 0 then 8 else codeBase spec) '0' = true := by
      rcases hix with rfl | rfl <;> decide
    have hle₈ : (if codeBase spec = 0 then 8 else codeBase spec) ≤ 16 := by
      rcases hix with rfl | rfl <;> decide
    have hplain (t' : List Char) (hhex : hexPrefixed ('0' :: t') = false) :
        basePrefix spec ('0' :: t') = (if codeBase spec = 0 then 8 else codeBase spec,0) := by
      rcases hix with rfl | rfl
      · rw [basePrefix,hhex]
        rfl
      · rw [basePrefix,hhex]
        rfl
    cases t with
    | nil => exact zero_reads hix hw hle₈ hbase₈ hplain (At.mk' [] (n+1)) hfuel rfl hserved
    | cons p t =>
      change Reads (if p = 'x' ∨ p = 'X' then _ else _) _ _ _
      by_cases hp : p = 'x' ∨ p = 'X'
      · have hbase₁₆ : (if codeBase spec = 0 then 16 else codeBase spec) = 16 := by
          rcases hix with rfl | rfl <;> rfl
        have hreads := hex_reads hix hw hp (n := n) (lt_of_succ_lt hfuel) hserved
        rw [if_pos hp,hbase₁₆]
        exact hreads
      · have hhex : hexPrefixed ('0' :: p :: t) = false := by
          obtain ⟨hx,hX⟩ := not_or.mp hp
          simp only [hexPrefixed,hx,hX,decide_false,Bool.or_self,Bool.and_false]
        rw [if_neg hp]
        exact zero_reads hix hw hle₈ hbase₈ hplain (At.unget p t (n+1)) hfuel hhex hserved
  · rw [if_neg hzero]
    refine plain_reads hw ?_ (fun t' => basePrefix_plain hspec (fun hix hc => hzero ⟨hprefixed.mpr hix,hc⟩) t') hfuel hserved.1
    cases spec <;> first | exact absurd hspec (by decide) | decide

lemma drop_spaceLength (t : List Char) (l : ℕ) : t.drop (spaceLength t + l) = (behindSpace t).drop l := by
  induction t with
  | nil => rw [behindSpace,dropWhile_nil,drop_nil,drop_nil]
  | cons c t ih =>
    by_cases hc : scnIsspace c = true
    · rw [spaceLength,behindSpace,takeWhile_cons_of_pos hc,dropWhile_cons_of_pos hc,length_cons,Nat.add_right_comm,
        drop_succ_cons]
      exact ih
    · rw [spaceLength,behindSpace,takeWhile_cons_of_neg hc,dropWhile_cons_of_neg hc,length_nil,Nat.zero_add]

lemma scnInteger_spec (hspec : spec.isInteger = true) (hw : w ≠ some 0) {fuel : ℕ}
    (h : At s t n) (hfuel : t.length < fuel) (hne : behindSpace t ≠ [])
    (hserved : UnsignedServed spec (w.map (· - signs (behindSpace t))) ((behindSpace t).drop (signs (behindSpace t)))) :
    match c99Number spec (cut w (behindSpace t)) with
    | none => scnInteger fuel spec.char (widthInt w) s = (true,none)
    | some r => ∃ s', scnInteger fuel spec.char (widthInt w) s = (true,some (r.neg,r.value % 2^64,s')) ∧
        At s' (t.drop (spaceLength t + r.length)) (n + (spaceLength t + r.length)) := by
  obtain ⟨s₁,hs₁,hat⟩ := scnSkipWs_spec h hfuel
  have hdrop := drop_spaceLength t
  have hlen : (behindSpace t).length ≤ t.length := (dropWhile_sublist _).length_le
  rw [decide_eq_false hne] at hs₁
  rcases hu : behindSpace t with _ | ⟨c,u⟩
  · exact absurd hu hne
  rw [hu] at hserved hat hlen hdrop
  rw [scnInteger,hs₁]
  dsimp only
  rw [hat.get_cons]
  dsimp only
  have hcut := cut_cons hw c u
  have hsigns : signs (cut w (c :: u)) = signs (c :: u) := by rw [hcut]; rfl
  have hnumber : c99Number spec (cut w (c :: u)) =
      (c99Unsigned spec (cut (w.map (· - signs (c :: u))) ((c :: u).drop (signs (c :: u))))).map fun p =>
        ⟨decide (c = '-'),p.1,signs (c :: u) + p.2⟩ := by
    rw [c99Number,hsigns,cut_drop,hcut]
    simp only [head?_cons,some.injEq]
  rw [hnumber]
  by_cases hc : isSign c = true
  · have hsign : signs (c :: u) = 1 := if_pos hc
    have hchar : c = '+' ∨ c = '-' := by simpa [isSign] using hc
    rw [hsign] at hserved ⊢
    rw [if_pos hchar]
    cases u with
    | nil =>
      rw [drop_succ_cons,drop_nil,cut_nil,c99Unsigned_nil,(At.mk' [] _).get_nil]
      rfl
    | cons c' u =>
      rw [(At.mk' (c' :: u) _).get_cons]
      dsimp only
      rw [drop_succ_cons,drop_zero] at hserved ⊢
      have hreads := scnPrefixed_reads hspec hw (g := 1) (n := n + spaceLength t + 1) (f := fuel)
        (by rw [length_cons,length_cons] at hlen; omega) hserved
      rcases hitem : c99Unsigned spec (cut (w.map (· - 1)) (c' :: u)) with _ | ⟨v,l⟩ <;> rw [hitem] at hreads
      · exact congrArg (fun x => (true,Option.map (fun p => (decide (c = '-'),p.1,p.2)) x)) hreads
      · obtain ⟨s',hs',hat'⟩ := hreads
        refine ⟨s',congrArg (fun x => (true,Option.map (fun p => (decide (c = '-'),p.1,p.2)) x)) hs',?_⟩
        change At s' (t.drop (spaceLength t + (1 + l))) (n + (spaceLength t + (1 + l)))
        rw [hdrop,← Nat.add_assoc,← Nat.add_assoc,Nat.add_comm 1 l]
        exact hat'
  · have hsign : signs (c :: u) = 0 := if_neg hc
    have hchar : ¬ (c = '+' ∨ c = '-') := by simpa [isSign] using hc
    rw [hsign,drop_zero] at hserved ⊢
    rw [if_neg hchar]
    have hreads := scnPrefixed_reads hspec hw (g := 0) (n := n + spaceLength t) (f := fuel) (by rw [length_cons] at hlen; omega) hserved
    have hneg : decide (c = '-') = false := decide_eq_false fun h => hchar (.inr h)
    rcases hitem : c99Unsigned spec (cut (w.map (· - 0)) (c :: u)) with _ | ⟨v,l⟩ <;> rw [hitem] at hreads
    · exact congrArg (fun x => (true,Option.map (fun p => (false,p.1,p.2)) x)) hreads
    · obtain ⟨s',hs',hat'⟩ := hreads
      refine ⟨s',?_,?_⟩
      · rw [hneg]
        exact congrArg (fun x => (true,Option.map (fun p => (false,p.1,p.2)) x)) hs'
      · change At s' (t.drop (spaceLength t + (0 + l))) (n + (spaceLength t + (0 + l)))
        rw [hdrop,← Nat.add_assoc,Nat.zero_add]
        exact hat'

lemma stringLoop_spec {fuel b : ℕ} (h : At s t n) (hfuel : t.length < fuel) :
    (stringLoop fuel b s).1 = (t.takeWhile fun c => !scnIsspace c).take b ∧
      At (stringLoop fuel b s).2 (t.drop ((t.takeWhile fun c => !scnIsspace c).take b).length)
        (n + ((t.takeWhile fun c => !scnIsspace c).take b).length) := by
  induction fuel generalizing b s t n with
  | zero => omega
  | succ fuel ih =>
    cases b with
    | zero =>
      rw [take_zero]
      exact ⟨rfl,h⟩
    | succ b =>
      cases t with
      | nil =>
        rw [stringLoop,h.get_nil]
        exact ⟨rfl,h⟩
      | cons c t =>
        rw [stringLoop,h.get_cons]
        dsimp only
        rcases hc : scnIsspace c
        · obtain ⟨hfst,hat⟩ := ih (b := b) (At.mk' t (n+1)) (lt_of_succ_lt_succ hfuel)
          rw [takeWhile_cons_of_pos (by rw [hc]; rfl),take_succ_cons,length_cons,drop_succ_cons,if_neg Bool.false_ne_true,hfst]
          refine ⟨rfl,?_⟩
          rw [← Nat.add_assoc,Nat.add_right_comm]
          exact hat
        · rw [takeWhile_cons_of_neg (by rw [hc]; exact nofun),take_nil,if_pos rfl]
          exact ⟨rfl,At.unget c t n⟩

lemma charLoop_spec {fuel b : ℕ} (h : At s t n) (hfuel : t.length < fuel) :
    (charLoop fuel b s).1 = t.take b ∧ (charLoop fuel b s).2.1 = decide (t.length < b) ∧
      At (charLoop fuel b s).2.2 (t.drop b) (n + (t.take b).length) := by
  induction fuel generalizing b s t n with
  | zero => omega
  | succ fuel ih =>
    cases b with
    | zero =>
      rw [take_zero,drop_zero]
      exact ⟨rfl,rfl,h⟩
    | succ b =>
      cases t with
      | nil =>
        rw [charLoop,h.get_nil]
        exact ⟨rfl,rfl,h⟩
      | cons c t =>
        obtain ⟨hfst,hend,hat⟩ := ih (b := b) (At.mk' t (n+1)) (lt_of_succ_lt_succ hfuel)
        rw [charLoop,h.get_cons]
        dsimp only
        rw [take_succ_cons,drop_succ_cons,length_cons,length_cons,hfst,hend]
        refine ⟨rfl,?_,?_⟩
        · rw [decide_eq_decide]
          omega
        · rw [← Nat.add_assoc,Nat.add_right_comm]
          exact hat

end VibeOS.Scanf

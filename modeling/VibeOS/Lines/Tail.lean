import VibeOS.Widths
import Mathlib.Data.List.Basic
import Mathlib.Data.List.Infix

/-! `tail.c` and `grep.c`: programs that read a file in pieces and tell its lines apart. -/
namespace VibeOS.Lines

open List Function

abbrev Bytes := List UInt8

/-- The lines of a file, each with its end, which the last one may lack. -/
def lines : Bytes → List Bytes
  | [] => []
  | c :: cs => if c = 10 then [10] :: lines cs else (c :: (lines cs).headD []) :: (lines cs).tail

def maxN : ℕ := 64

/-- The ring of the places behind the line ends, and what is counted in the first pass. -/
structure Scan where
  ring : ℕ → ℕ
  rhead : ℕ
  rcount : ℕ
  pos : ℕ
  totalLines : ℕ
  endsWithNl : Bool

/-- The byte `i` of a piece. -/
def Scan.byte (s : Scan) (x : UInt8 × ℕ) : Scan :=
  if x.1 = 10 then
    { s with
      ring := update s.ring s.rhead (s.pos + x.2 + 1)
      rhead := (s.rhead + 1) % (maxN + 1)
      rcount := if s.rcount < maxN + 1 then s.rcount + 1 else s.rcount
      totalLines := s.totalLines + 1
      endsWithNl := true }
  else { s with endsWithNl := false }

def Scan.piece (s : Scan) (buf : Bytes) : Scan :=
  let s := buf.zipIdx.foldl Scan.byte s
  { s with pos := s.pos + buf.length }

def Scan.effectiveLines (s : Scan) : ℕ := s.totalLines + if s.endsWithNl then 0 else 1

def Scan.startOff (s : Scan) (count : ℕ) : ℕ :=
  if s.effectiveLines ≤ count then 0
  else if count < s.totalLines ∧ count + 1 ≤ s.rcount then
    s.ring ((s.rhead + (maxN + 1) * 2 - count - 1) % (maxN + 1))
  else s.ring ((s.rhead + (maxN + 1) - s.rcount) % (maxN + 1))

/-- What is printed of a file that the first pass gets in these pieces. -/
def tail (count : ℤ) (pieces : List Bytes) : Bytes :=
  if count ≤ 0 then []
  else
    let s := pieces.foldl Scan.piece ⟨fun _ => 0,0,0,0,0,false⟩
    if s.effectiveLines = 0 then []
    else pieces.flatten.drop (s.startOff (min count.toNat maxN)) ++ if 0 < s.pos ∧ !s.endsWithNl then [10] else []

/-- The places behind the line ends, in a file that goes on at `p`. -/
def ends : ℕ → Bytes → List ℕ
  | _, [] => []
  | p, c :: cs => if c = 10 then (p + 1) :: ends (p + 1) cs else ends (p + 1) cs

variable {cs ds : Bytes} {p t o : ℕ} {s : Scan}

lemma ends_append (p : ℕ) (cs ds : Bytes) : ends p (cs ++ ds) = ends p cs ++ ends (p + cs.length) ds := by
  induction cs generalizing p with
  | nil => rfl
  | cons c cs ih =>
    simp only [cons_append,ends,ih,length_cons,Nat.add_assoc,Nat.add_comm 1]
    split_ifs <;> simp

/-- The first pass has read `cs`; the ring has the last `maxN + 1` line ends. -/
structure Scan.Read (s : Scan) (cs : Bytes) : Prop where
  total : s.totalLines = (ends 0 cs).length
  head : s.rhead = s.totalLines % (maxN + 1)
  count : s.rcount = min s.totalLines (maxN + 1)
  ring : ∀ t o, (ends 0 cs)[t]? = some o → s.totalLines ≤ t + (maxN + 1) → s.ring (t % (maxN + 1)) = o
  last : s.endsWithNl = (cs.getLast? == some 10)

lemma Scan.byte_other {c : UInt8} (hc : c ≠ 10) (i : ℕ) : s.byte (c,i) = { s with endsWithNl := false } := if_neg hc

lemma Scan.Read.byte (h : s.Read cs) (c : UInt8) {i : ℕ} (hi : s.pos + i = cs.length) : (s.byte (c,i)).Read (cs ++ [c]) := by
  by_cases hc : c = 10
  · subst hc
    have hends : ends 0 (cs ++ [10]) = ends 0 cs ++ [s.pos + i + 1] := by simp [ends_append,ends,hi]
    constructor
    · simp [Scan.byte,hends,h.total]
    · simp [Scan.byte,h.head,Nat.add_mod]
    · simp only [Scan.byte,if_true,h.count]
      split_ifs <;> omega
    · intro t o ht hlt
      simp only [Scan.byte,if_true] at hlt ⊢
      rw [hends,getElem?_append] at ht
      split_ifs at ht with hold
      · have hne : t % (maxN + 1) ≠ s.rhead := by
          have := h.total
          simp only [h.head,maxN] at *
          omega
        rw [update_of_ne hne]
        exact h.ring t o ht (by omega)
      · have hlast : t = s.totalLines := by
          have := (List.getElem?_eq_some_iff.1 ht).1
          simp only [length_singleton] at this
          have := h.total
          omega
        rw [hlast,← h.head,update_self]
        rw [hlast,h.total,Nat.sub_self] at ht
        exact Option.some.inj ht
    · simp [Scan.byte]
  · have hends : ends 0 (cs ++ [c]) = ends 0 cs := by simp [ends_append,ends,hc]
    rw [Scan.byte_other hc]
    exact ⟨by rw [hends]; exact h.total,h.head,h.count,by rw [hends]; exact h.ring,by simp [hc]⟩

lemma Scan.Read.bytes (h : s.Read cs) (ds : Bytes) {i : ℕ} (hi : s.pos + i = cs.length) :
    ((ds.zipIdx i).foldl Scan.byte s).Read (cs ++ ds) ∧ ((ds.zipIdx i).foldl Scan.byte s).pos = s.pos := by
  induction ds generalizing s cs i with
  | nil => simpa using h
  | cons d ds ih =>
    have hpos : (s.byte (d,i)).pos = s.pos := by
      rw [Scan.byte]
      split_ifs <;> rfl
    have := ih (h.byte d hi) (i := i + 1) (by rw [hpos]; simp; omega)
    simpa [hpos] using this

lemma pieces_read (pieces : List Bytes) (h : s.Read cs) (hp : s.pos = cs.length) :
    (pieces.foldl Scan.piece s).Read (cs ++ pieces.flatten) ∧ (pieces.foldl Scan.piece s).pos = (cs ++ pieces.flatten).length := by
  induction pieces generalizing s cs with
  | nil => simpa using ⟨h,hp⟩
  | cons buf pieces ih =>
    obtain ⟨hr,hpos⟩ := h.bytes buf (i := 0) hp
    have hread : (s.piece buf).Read (cs ++ buf) := ⟨hr.total,hr.head,hr.count,hr.ring,hr.last⟩
    have := ih hread (by simp [Scan.piece,hpos,hp])
    simpa using this

lemma flatten_lines (cs : Bytes) : (lines cs).flatten = cs := by
  induction cs with
  | nil => rfl
  | cons c cs ih =>
    rw [lines]
    split_ifs with hc
    · simp [hc,ih]
    · conv_rhs => rw [← ih]
      cases lines cs <;> simp

/-- Behind a line end are the lines that come after it. -/
lemma drop_ends (h : (ends p cs)[t]? = some o) : p ≤ o ∧ cs.drop (o - p) = ((lines cs).drop (t + 1)).flatten := by
  induction cs generalizing p t with
  | nil => cases h
  | cons c cs ih =>
    rw [ends] at h
    rw [lines]
    have hstep (h : p + 1 ≤ o) : (c :: cs).drop (o - p) = cs.drop (o - (p + 1)) := by
      rw [show o - p = o - (p + 1) + 1 by omega,drop_succ_cons]
    split_ifs at h ⊢
    · cases t with
      | zero =>
        cases h
        simp [flatten_lines]
      | succ t =>
        obtain ⟨hle,hdrop⟩ := ih h
        exact ⟨by omega,by rw [hstep hle,hdrop,drop_succ_cons]⟩
    · obtain ⟨hle,hdrop⟩ := ih h
      exact ⟨by omega,by rw [hstep hle,hdrop,drop_succ_cons,drop_tail]⟩

lemma length_lines (p : ℕ) (cs : Bytes) :
    (lines cs).length = (ends p cs).length + if cs = [] ∨ cs.getLast? = some 10 then 0 else 1 := by
  induction cs generalizing p with
  | nil => rfl
  | cons c cs ih =>
    have hsome : cs ≠ [] → 0 < (lines cs).length := by
      intro hne
      apply length_pos_of_ne_nil
      intro hnil
      exact hne (by rw [← flatten_lines cs,hnil]; rfl)
    rw [lines,ends]
    cases cs with
    | nil => by_cases hc : c = 10 <;> simp [hc,lines,ends]
    | cons d ds =>
      have := ih (p + 1)
      have hpos := hsome (cons_ne_nil d ds)
      split_ifs with hc <;> simp_all
      omega

lemma length_ends (p : ℕ) (cs : Bytes) : (ends p cs).length = cs.count 10 := by
  induction cs generalizing p with
  | nil => rfl
  | cons c cs ih =>
    rw [ends,count_cons]
    split_ifs <;> simp_all

/-- How many lines are printed when `n` are asked for: one more of a file that ends in the middle of a line and has
more than `n` others. -/
def shown (n : ℕ) (file : Bytes) : ℕ := if file.getLast? ≠ some 10 ∧ n < file.count 10 then n + 1 else n

lemma Scan.Read.startOff {file : Bytes} (h : s.Read file) {n : ℕ} (hpos : 0 < n) (hmax : n ≤ maxN) :
    file.drop (s.startOff n) = ((lines file).drop ((lines file).length - shown n file)).flatten := by
  have htotal := h.total
  have hlen := length_lines 0 file
  have hlast : s.endsWithNl = true ↔ file.getLast? = some 10 := by simp [h.last]
  have hplace {t : ℕ} (hlt : t < s.totalLines) (hnew : s.totalLines ≤ t + (maxN + 1)) :
      file.drop (s.ring (t % (maxN + 1))) = ((lines file).drop (t + 1)).flatten := by
    have hat := getElem?_eq_getElem (l := ends 0 file) (htotal ▸ hlt)
    rw [h.ring t _ hat hnew]
    exact (drop_ends hat).2
  have hall {k : ℕ} (hk : (lines file).length ≤ k) : file = ((lines file).drop ((lines file).length - k)).flatten := by
    rw [Nat.sub_eq_zero_of_le hk,drop_zero,flatten_lines]
  simp only [← htotal] at hlen
  rw [Scan.startOff,Scan.effectiveLines,shown,← length_ends 0,← htotal]
  by_cases hfile : file = []
  · subst hfile
    simp [lines]
  simp only [hfile,false_or] at hlen
  have hcount := h.count
  have hhead := h.head
  have hslot (hlt : n < s.totalLines) :
      (s.rhead + (maxN + 1) * 2 - n - 1) % (maxN + 1) = (s.totalLines - n - 1) % (maxN + 1) := by
    simp only [hhead,maxN] at *
    omega
  by_cases hwhole : file.getLast? = some 10
  · simp only [hwhole,hlast.2 hwhole,if_true,Nat.add_zero,ne_eq,not_true_eq_false,false_and,if_false] at hlen ⊢
    by_cases hle : s.totalLines ≤ n
    · rw [if_pos hle,drop_zero]
      exact hall (by omega)
    · rw [if_neg hle,if_pos ⟨by omega,by omega⟩,hslot (by omega),hplace (by omega) (by omega),hlen]
      congr 2
      omega
  · have hpart : s.endsWithNl = false := by simpa [hwhole] using hlast
    simp only [hwhole,hpart,if_false,ne_eq,not_false_eq_true,true_and,Bool.false_eq_true] at hlen ⊢
    by_cases hle : s.totalLines + 1 ≤ n
    · rw [if_pos hle,if_neg (by omega),drop_zero]
      exact hall (by omega)
    · rw [if_neg hle]
      by_cases hlt : n < s.totalLines
      · rw [if_pos ⟨hlt,by omega⟩,if_pos hlt,hslot hlt,hplace (by omega) (by omega),hlen]
        congr 2
        omega
      · have hfirst : (s.rhead + (maxN + 1) - s.rcount) % (maxN + 1) = 0 % (maxN + 1) := by
          simp only [hhead,hcount,maxN] at *
          omega
        rw [if_neg fun h => hlt h.1,if_neg hlt,hfirst,hplace (by omega) (by omega),hlen]
        congr 2
        omega

lemma Scan.Read.effectiveLines {file : Bytes} (h : s.Read file) : s.effectiveLines ≠ 0 := by
  rw [Scan.effectiveLines,h.last,h.total,length_ends]
  split_ifs with hlast
  · have : 10 ∈ file := mem_of_getLast? (by simpa using hlast)
    have := count_pos_iff.2 this
    omega
  · omega

/-- These lines are printed whatever the pieces are, and an end for the last one if it has none. -/
theorem tail_prints (count : ℤ) (pieces : List Bytes) :
    let file := pieces.flatten
    let n := min count.toNat maxN
    tail count pieces = if n = 0 then [] else
      ((lines file).drop ((lines file).length - shown n file)).flatten ++
        if file ≠ [] ∧ file.getLast? ≠ some 10 then [10] else [] := by
  intro file n
  have hstart : Scan.Read ⟨fun _ => 0,0,0,0,0,false⟩ [] := ⟨rfl,rfl,rfl,fun t o h => by simp [ends] at h,rfl⟩
  obtain ⟨hread,hpos⟩ := pieces_read pieces hstart rfl
  rw [nil_append] at hread hpos
  rw [tail]
  by_cases h0 : count ≤ 0
  · rw [if_pos h0,if_pos (by omega)]
  · have hn : 0 < n := by simp only [n,maxN]; omega
    rw [if_neg h0,if_neg hn.ne']
    dsimp only
    rw [if_neg hread.effectiveLines]
    congr 1
    · exact hread.startOff hn (Nat.min_le_right ..)
    · simp only [hread.last,hpos,length_pos_iff]
      congr 1
      simp [file]

end VibeOS.Lines

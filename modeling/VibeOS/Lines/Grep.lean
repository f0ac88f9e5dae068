import VibeOS.Lines.Tail

/-! `grep.c`: what is printed of a file that comes in pieces of any lengths. -/
namespace VibeOS.Lines

open List

def lineMax : ℕ := 512

/-- A string in memory ends in front of its first NUL. -/
def cstr (mem : Bytes) : Bytes := mem.takeWhile (· ≠ 0)

def contains (needle : Bytes) : Bytes → Bool
  | [] => needle.isEmpty
  | c :: hay => needle.isPrefixOf (c :: hay) || contains needle hay

structure Grep where
  line : Bytes
  truncated : Bool
  out : Bytes

def Grep.print (pattern : Bytes) (s : Grep) : Bytes :=
  if !s.truncated && contains pattern (cstr s.line) then cstr s.line ++ [10] else []

def Grep.byte (pattern : Bytes) (s : Grep) (c : UInt8) : Grep :=
  if c = 10 then ⟨[],false,s.out ++ s.print pattern⟩
  else if s.line.length < lineMax - 1 then { s with line := s.line ++ [c] }
  else { s with truncated := true }

/-- The line behind the last line end is looked at if there is one. -/
def Grep.finish (pattern : Bytes) (s : Grep) : Bytes := s.out ++ if 0 < s.line.length then s.print pattern else []

def grep (pattern : Bytes) (pieces : List Bytes) : Bytes :=
  (pieces.foldl (foldl (Grep.byte pattern)) ⟨[],false,[]⟩).finish pattern

/-- What stands for a line in the output. -/
def grepLine (pattern line : Bytes) : Bytes :=
  let text := line.takeWhile (· ≠ 10)
  if text.length < lineMax ∧ pattern <:+: cstr text then cstr text ++ [10] else []

variable {pattern w rest : Bytes} {s : Grep}

lemma contains_iff (hay : Bytes) : contains pattern hay = true ↔ pattern <:+: hay := by
  induction hay with
  | nil => simp [contains]
  | cons c hay ih => simp [contains,ih,infix_cons_iff]

lemma lines_end (hw : 10 ∉ w) (cs : Bytes) : lines (w ++ 10 :: cs) = (w ++ [10]) :: lines cs := by
  induction w with
  | nil => simp [lines]
  | cons c w ih =>
    simp only [mem_cons,not_or] at hw
    simp [lines,ih hw.2,Ne.symm hw.1]

lemma lines_rest (hw : 10 ∉ w) : lines w = if w = [] then [] else [w] := by
  induction w with
  | nil => rfl
  | cons c w ih =>
    simp only [mem_cons,not_or] at hw
    rw [lines,ih hw.2]
    split_ifs <;> simp_all

/-- The line is `w` up to here. -/
structure Grep.Held (s : Grep) (w : Bytes) : Prop where
  line : s.line = w.take (lineMax - 1)
  truncated : s.truncated = true ↔ lineMax ≤ w.length
  one : 10 ∉ w

lemma Grep.Held.print (h : s.Held w) (hrest : rest = [] ∨ rest = [10]) : s.print pattern = grepLine pattern (w ++ rest) := by
  have htext : (w ++ rest).takeWhile (· ≠ 10) = w := by
    have hall : ∀ c ∈ w, (c ≠ 10 : Bool) := fun c hc => by simpa using ne_of_mem_of_not_mem hc h.one
    rw [takeWhile_append_of_pos hall]
    obtain rfl | rfl := hrest <;> simp
  rw [Grep.print,grepLine,htext]
  by_cases hlong : lineMax ≤ w.length
  · simp [h.truncated.2 hlong,hlong]
  · have hkept : s.truncated = false := by simpa [hlong] using h.truncated
    have hline : s.line = w := by rw [h.line,take_of_length_le (by omega)]
    simp [hkept,hline,contains_iff,Nat.lt_of_not_le hlong]

lemma Grep.Held.finish (cs : Bytes) (h : s.Held w) :
    (cs.foldl (Grep.byte pattern) s).finish pattern = s.out ++ (lines (w ++ cs)).flatMap (grepLine pattern) := by
  induction cs generalizing s w with
  | nil =>
    have hprint : s.print pattern = grepLine pattern (w ++ []) := h.print (.inl rfl)
    rw [append_nil] at hprint ⊢
    rw [foldl_nil,Grep.finish,lines_rest h.one,hprint,h.line]
    by_cases hw : w = []
    · simp [hw]
    · simp [hw,lineMax,length_pos_iff]
  | cons c cs ih =>
    rw [foldl_cons]
    by_cases hc : c = 10
    · subst hc
      have hfresh : (s.byte pattern 10).Held [] := ⟨rfl,by simp [Grep.byte,lineMax],not_mem_nil⟩
      rw [ih hfresh,lines_end h.one,flatMap_cons,← h.print (.inr rfl)]
      simp [Grep.byte]
    · have hone : 10 ∉ w ++ [c] := by simp [h.one,Ne.symm hc]
      have hnext : (s.byte pattern c).Held (w ++ [c]) := by
        have hlen := congrArg length h.line
        rw [length_take] at hlen
        rw [Grep.byte,if_neg hc]
        split_ifs with hroom
        · have hshort : w.length < lineMax - 1 := by omega
          refine ⟨?_,?_,hone⟩
          · rw [h.line,take_of_length_le hshort.le,take_of_length_le (by simp; omega)]
          · simp [h.truncated]
            omega
        · refine ⟨?_,?_,hone⟩
          · rw [take_append_of_le_length (by omega),h.line]
          · simp
            omega
      have hout : (s.byte pattern c).out = s.out := by
        rw [Grep.byte,if_neg hc]
        split_ifs <;> rfl
      rw [ih hnext,hout,append_assoc,singleton_append]

/-- Whatever the pieces are, each line with less than `lineMax` bytes that has the pattern is printed, up to its first NUL. -/
theorem grep_eq (pattern : Bytes) (pieces : List Bytes) :
    grep pattern pieces = (lines pieces.flatten).flatMap (grepLine pattern) := by
  have hstart : Grep.Held ⟨[],false,[]⟩ [] := ⟨rfl,by simp [lineMax],not_mem_nil⟩
  rw [grep,← foldl_flatten,hstart.finish]
  rfl

end VibeOS.Lines

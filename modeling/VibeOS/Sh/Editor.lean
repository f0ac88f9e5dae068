import VibeOS.Widths
import Mathlib.Data.List.Range
import Mathlib.Data.List.DropRight

/-! The line editor of `sh.c`: `kill_set`, `hist_push` and `read_line_raw`, with the part of `main` that keeps the history. A buffer is a map from
places to characters, and the loops shift it in place. -/
namespace VibeOS.Editor
open List Option

def lineMax : ℕ := 128
def historySize : ℕ := 16

abbrev Buf : Type := ℕ → UInt8

def Buf.set (b : Buf) (i : ℕ) (c : UInt8) : Buf := fun j => if j = i then c else b j

/-- `for (; i + w < pos; i++) out[i] = out[i + w]`, of `n` turns. -/
def shiftLeft (w : ℕ) : ℕ → ℕ → Buf → Buf
  | 0,_,b => b
  | n+1,i,b => shiftLeft w n (i+1) (b.set i (b (i + w)))

/-- `for (i = cur + n - 1; i >= cur; i--) out[i + w] = out[i]` -/
def shiftRight (w cur : ℕ) : ℕ → Buf → Buf
  | 0,b => b
  | n+1,b => shiftRight w cur n (b.set (cur + n + w) (b (cur + n)))

/-- `for (i = 0; src[i]; i++) out[at + i] = src[i]` -/
def copyIn : List UInt8 → ℕ → Buf → Buf
  | [],_,b => b
  | c :: cs,i,b => copyIn cs (i+1) (b.set i c)

/-- The first `n` characters. -/
def Buf.text (b : Buf) (n : ℕ) : List UInt8 := (List.range n).map b

structure Globals where
  hist : List (List UInt8)
  kill : List UInt8

/-- `kill_set` of the `n` characters at `i`. -/
def killSet (b : Buf) (i n : ℕ) : List UInt8 := (List.range (min n (lineMax - 1))).map fun k => b (i + k)

/-- `hist_push` -/
def histPush (line : List UInt8) (hist : List (List UInt8)) : List (List UInt8) :=
  if line = [] then hist
  else if hist.getLast? = some line then hist
  else
    let hist := if hist.length = historySize then hist.tail else hist
    hist ++ [line.take (lineMax - 1)]

/-- What the bytes stand for. An escape sequence that is not an arrow is `ignored`. -/
inductive Key where
  | enter
  | back
  | home
  | toEnd
  | killEnd
  | killStart
  | killWord
  | yank
  | cancel
  | eof
  | up
  | down
  | right
  | left
  | char (c : UInt8)
  | ignored

def keyOf (c : UInt8) : Key :=
  if c = 0x0d ∨ c = 0x0a then .enter
  else if c = 0x7f ∨ c = 0x08 then .back
  else if c = 0x01 then .home
  else if c = 0x05 then .toEnd
  else if c = 0x0b then .killEnd
  else if c = 0x15 then .killStart
  else if c = 0x17 then .killWord
  else if c = 0x19 then .yank
  else if c = 0x03 then .cancel
  else if c = 0x04 then .eof
  else if 0x20 ≤ c ∧ c < 0x7f then .char c
  else .ignored

def arrowOf (c : UInt8) : Key :=
  if c = 0x41 then .up else if c = 0x42 then .down else if c = 0x43 then .right else if c = 0x44 then .left else .ignored

def keysOf : List UInt8 → List Key
  | [] => []
  | 0x1b :: 0x5b :: c :: cs => arrowOf c :: keysOf cs
  | [0x1b,0x5b] => []
  | 0x1b :: _ :: cs => .ignored :: keysOf cs
  | [0x1b] => []
  | c :: cs => keyOf c :: keysOf cs

/-- The locals of `read_line_raw`. -/
structure Ed where
  out : Buf
  pos : ℕ
  cur : ℕ
  histI : ℕ
  scratch : Buf
  scratchLen : ℕ
  saved : Bool

/-- How a line editor goes on: with the next key, or it returns a line, or -1. -/
inductive Outcome (ε : Type) where
  | more (g : Globals) (e : ε)
  | line (g : Globals) (l : List UInt8)
  | stop

def isBlank (c : UInt8) : Bool := c = 0x20 || c = 0x09

/-- `while (start > 0 && p(out[start - 1])) start--` -/
def skipBack (p : UInt8 → Bool) (b : Buf) : ℕ → ℕ
  | 0 => 0
  | n+1 => if p (b n) then skipBack p b n else n+1

def loadHist (hist : List (List UInt8)) (i : ℕ) (e : Ed) : Ed :=
  let entry := (hist.getD i []).take (lineMax - 1)
  { e with out := copyIn entry 0 e.out, pos := entry.length, cur := entry.length, histI := i }

/-- One key of `read_line_raw`. -/
def step (k : Key) (g : Globals) (e : Ed) : Outcome Ed :=
  match k with
  | .enter => .line g (e.out.text e.pos)
  | .back =>
    if 0 < e.cur then .more g { e with out := shiftLeft 1 (e.pos - e.cur) (e.cur - 1) e.out, pos := e.pos - 1, cur := e.cur - 1 }
    else .more g e
  | .home => .more g { e with cur := 0 }
  | .toEnd => .more g { e with cur := e.pos }
  | .killEnd => if e.cur < e.pos then .more { g with kill := killSet e.out e.cur (e.pos - e.cur) } { e with pos := e.cur } else .more g e
  | .killStart =>
    if 0 < e.cur then
      .more { g with kill := killSet e.out 0 e.cur } { e with out := shiftLeft e.cur (e.pos - e.cur) 0 e.out, pos := e.pos - e.cur, cur := 0 }
    else .more g e
  | .killWord =>
    if 0 < e.cur then
      let start := skipBack (fun c => !isBlank c) e.out (skipBack isBlank e.out e.cur)
      if start < e.cur then
        .more { g with kill := killSet e.out start (e.cur - start) }
          { e with out := shiftLeft (e.cur - start) (e.pos - e.cur) start e.out, pos := e.pos - (e.cur - start), cur := start }
      else .more g e
    else .more g e
  | .yank =>
    if 0 < g.kill.length ∧ e.pos + g.kill.length < lineMax then
      .more g { e with
        out := copyIn g.kill e.cur (shiftRight g.kill.length e.cur (e.pos - e.cur) e.out)
        pos := e.pos + g.kill.length
        cur := e.cur + g.kill.length }
    else .more g e
  | .cancel => .line g []
  | .eof => if e.pos = 0 then .stop else .more g e
  | .up =>
    if 0 < e.histI then
      let e := if e.saved = false then { e with scratch := copyIn (e.out.text e.pos) 0 e.scratch, scratchLen := e.pos, saved := true } else e
      .more g (loadHist g.hist (e.histI - 1) e)
    else .more g e
  | .down =>
    if e.histI < g.hist.length then
      if e.histI + 1 = g.hist.length then
        .more g { e with out := copyIn (e.scratch.text e.scratchLen) 0 e.out, pos := e.scratchLen, cur := e.scratchLen, histI := e.histI + 1 }
      else .more g (loadHist g.hist (e.histI + 1) e)
    else .more g e
  | .right => .more g (if e.cur < e.pos then { e with cur := e.cur + 1 } else e)
  | .left => .more g (if 0 < e.cur then { e with cur := e.cur - 1 } else e)
  | .char c =>
    if e.pos < lineMax - 1 then
      let e := { e with out := (shiftRight 1 e.cur (e.pos - e.cur) e.out).set e.cur c, pos := e.pos + 1, cur := e.cur + 1 }
      .more g (if e.histI ≠ g.hist.length then { e with histI := g.hist.length, saved := false } else e)
    else .more g e
  | .ignored => .more g e

/-- `read_line_raw` before the first byte. -/
def fresh (g : Globals) : Ed := ⟨fun _ => 0,0,0,g.hist.length,fun _ => 0,0,false⟩

/-- `trim` -/
def trim (l : List UInt8) : List UInt8 := (l.rdropWhile fun c => c = 0x0a || c = 0x0d || isBlank c).dropWhile isBlank

/-- The shell between the lines: what was returned, and whether it has ended. -/
structure Session (ε : Type) where
  g : Globals
  ed : ε
  lines : List (List UInt8)
  ended : Bool

section
variable {ε : Type} (next : Key → Globals → ε → Outcome ε) (begin : Globals → ε)

/-- One key; behind a line the history grows and the editor begins again. -/
def feed (s : Session ε) (k : Key) : Session ε :=
  if s.ended then s
  else
    match next k s.g s.ed with
    | .more g e => { s with g := g, ed := e }
    | .line g l =>
      let g := { g with hist := histPush (trim l) g.hist }
      ⟨g,begin g,s.lines ++ [l],false⟩
    | .stop => { s with ended := true }

def session (ks : List Key) : Session ε := ks.foldl (feed next begin) ⟨⟨[],[]⟩,begin ⟨[],[]⟩,[],false⟩

end

/-- A cursor in a list of characters, and the edit line that Up left. -/
structure Ref where
  line : List UInt8
  cur : ℕ
  histI : ℕ
  left : List UInt8

/-- The first `start` characters, and those behind the cursor. -/
def Ref.cut (r : Ref) (start : ℕ) : Ref := { r with line := r.line.take start ++ r.line.drop r.cur, cur := start }

def Ref.insert (r : Ref) (ins : List UInt8) : Ref := { r with line := r.line.take r.cur ++ ins ++ r.line.drop r.cur, cur := r.cur + ins.length }

def Ref.show (r : Ref) (i : ℕ) (l : List UInt8) : Ref := { r with line := l, cur := l.length, histI := i }

def Ref.wordStart (r : Ref) : ℕ := (((r.line.take r.cur).rdropWhile isBlank).rdropWhile fun c => !isBlank c).length

def refStep (k : Key) (g : Globals) (r : Ref) : Outcome Ref :=
  match k with
  | .enter => .line g r.line
  | .back => .more g (if 0 < r.cur then r.cut (r.cur - 1) else r)
  | .home => .more g { r with cur := 0 }
  | .toEnd => .more g { r with cur := r.line.length }
  | .killEnd => if r.cur < r.line.length then .more { g with kill := r.line.drop r.cur } { r with line := r.line.take r.cur } else .more g r
  | .killStart => if 0 < r.cur then .more { g with kill := r.line.take r.cur } (r.cut 0) else .more g r
  | .killWord => if r.wordStart < r.cur then .more { g with kill := (r.line.take r.cur).drop r.wordStart } (r.cut r.wordStart) else .more g r
  | .yank => .more g (if r.line.length + g.kill.length < lineMax then r.insert g.kill else r)
  | .cancel => .line g []
  | .eof => if r.line = [] then .stop else .more g r
  | .up =>
    .more g (if 0 < r.histI then
      Ref.show (if r.histI = g.hist.length then { r with left := r.line } else r) (r.histI - 1) (g.hist.getD (r.histI - 1) [])
    else r)
  | .down =>
    .more g (if r.histI < g.hist.length then r.show (r.histI + 1) (if r.histI + 1 = g.hist.length then r.left else g.hist.getD (r.histI + 1) []) else r)
  | .right => .more g (if r.cur < r.line.length then { r with cur := r.cur + 1 } else r)
  | .left => .more g (if 0 < r.cur then { r with cur := r.cur - 1 } else r)
  | .char c => .more g (if r.line.length < lineMax - 1 then { r.insert [c] with histI := g.hist.length } else r)
  | .ignored => .more g r

def refFresh (g : Globals) : Ref := ⟨[],0,g.hist.length,[]⟩

lemma shiftLeft_apply (w n i : ℕ) (b : Buf) (j : ℕ) : shiftLeft w n i b j = if i ≤ j ∧ j < i + n then b (j + w) else b j := by
  induction n generalizing i b with
  | zero => rw [shiftLeft,if_neg (by omega)]
  | succ n ih =>
    rw [shiftLeft,ih]
    unfold Buf.set
    rcases Nat.lt_trichotomy j i with hj | rfl | hj
    · rw [if_neg (by omega),if_neg (by omega),if_neg (by omega)]
    · rw [if_neg (by omega),if_pos rfl,if_pos (by omega)]
    · by_cases hin : j < i + (n+1)
      · rw [if_pos (by omega),if_neg (by omega),if_pos (by omega)]
      · rw [if_neg (by omega),if_neg (by omega),if_neg (by omega)]

lemma shiftRight_apply (w cur n : ℕ) (b : Buf) (j : ℕ) :
    shiftRight w cur n b j = if cur + w ≤ j ∧ j < cur + w + n then b (j - w) else b j := by
  induction n generalizing b with
  | zero => rw [shiftRight,if_neg (by omega)]
  | succ n ih =>
    rw [shiftRight,ih]
    unfold Buf.set
    by_cases hin : cur + w ≤ j ∧ j < cur + w + n
    · rw [if_pos hin,if_neg (by omega),if_pos (by omega)]
    · rw [if_neg hin]
      by_cases hlast : j = cur + n + w
      · rw [if_pos hlast,if_pos (by omega),hlast,Nat.add_sub_cancel]
      · rw [if_neg hlast,if_neg (by omega)]

lemma copyIn_apply (cs : List UInt8) (i : ℕ) (b : Buf) (j : ℕ) : copyIn cs i b j = if i ≤ j ∧ j < i + cs.length then cs.getD (j - i) 0 else b j := by
  induction cs generalizing i b with
  | nil =>
    have hno : ¬ (i ≤ j ∧ j < i + ([] : List UInt8).length) := fun h => Nat.lt_irrefl i (Nat.lt_of_le_of_lt h.1 h.2)
    rw [copyIn,if_neg hno]
  | cons c cs ih =>
    rw [copyIn,ih,length_cons]
    unfold Buf.set
    rcases Nat.lt_trichotomy j i with hj | rfl | hj
    · rw [if_neg (by omega),if_neg (by omega),if_neg (by omega)]
    · rw [if_neg (by omega),if_pos rfl,if_pos (by omega),Nat.sub_self]
      rfl
    · by_cases hin : j < i + (cs.length + 1)
      · rw [if_pos (by omega),if_pos (by omega),show j - i = j - (i+1) + 1 by omega]
        rfl
      · rw [if_neg (by omega),if_neg (by omega),if_neg (by omega)]

@[simp] lemma length_text (b : Buf) (n : ℕ) : (b.text n).length = n := by rw [Buf.text,length_map,length_range]

lemma getElem?_text (b : Buf) (n j : ℕ) : (b.text n)[j]? = if j < n then some (b j) else none := by
  unfold Buf.text
  rw [getElem?_map]
  split
  · rw [getElem?_range ‹_›]
    rfl
  · rw [getElem?_eq_none (by rw [length_range]; omega)]
    rfl

lemma text_shiftLeft {w i pos : ℕ} (h : i + w ≤ pos) (b : Buf) :
    (shiftLeft w (pos - (i + w)) i b).text (pos - w) = (b.text pos).take i ++ (b.text pos).drop (i + w) := by
  refine ext_getElem? fun j => ?_
  rw [getElem?_text,shiftLeft_apply,getElem?_append,length_take,length_text,getElem?_take,getElem?_drop,getElem?_text,getElem?_text]
  by_cases hj : j < i
  · rw [if_pos (by omega),if_neg (by omega),if_pos (by omega),if_pos hj,if_pos (by omega)]
  · rw [if_neg (by omega : ¬ j < min i pos),Nat.min_eq_left (by omega),show i + w + (j - i) = j + w by omega]
    by_cases hend : j < pos - w
    · rw [if_pos hend,if_pos (by omega),if_pos (by omega)]
    · rw [if_neg hend,if_neg (by omega)]

lemma text_insert {cur pos : ℕ} (h : cur ≤ pos) (ins : List UInt8) (b : Buf) :
    (copyIn ins cur (shiftRight ins.length cur (pos - cur) b)).text (pos + ins.length) = (b.text pos).take cur ++ ins ++ (b.text pos).drop cur := by
  refine ext_getElem? fun j => ?_
  rw [getElem?_text,copyIn_apply,shiftRight_apply,append_assoc,getElem?_append,length_take,length_text,getElem?_take,
    getElem?_append,getElem?_drop,getElem?_text,getElem?_text,Nat.min_eq_left h]
  by_cases hj : j < cur
  · rw [if_pos (by omega),if_neg (by omega),if_neg (by omega),if_pos hj,if_pos hj,if_pos (by omega)]
  rw [if_neg hj]
  by_cases hin : j - cur < ins.length
  · rw [if_pos (by omega),if_pos (by omega),if_pos hin,getD_eq_getElem?_getD,getElem?_eq_getElem hin]
    rfl
  · rw [if_neg (by omega : ¬ (cur ≤ j ∧ j < cur + ins.length)),if_neg hin,show cur + (j - cur - ins.length) = j - ins.length by omega]
    by_cases hend : j < pos + ins.length
    · rw [if_pos hend,if_pos (by omega),if_pos (by omega)]
    · rw [if_neg hend,if_neg (by omega)]

lemma text_copyIn (l : List UInt8) (b : Buf) : (copyIn l 0 b).text l.length = l := by
  refine ext_getElem? fun j => ?_
  rw [getElem?_text,copyIn_apply]
  by_cases hj : j < l.length
  · rw [if_pos hj,if_pos (by omega),getD_eq_getElem?_getD,Nat.sub_zero,getElem?_eq_getElem hj]
    rfl
  · rw [if_neg hj,getElem?_eq_none (by omega)]

lemma text_take (b : Buf) {n pos : ℕ} (h : n ≤ pos) : (b.text pos).take n = b.text n := by
  refine ext_getElem? fun j => ?_
  rw [getElem?_take,getElem?_text,getElem?_text]
  by_cases hj : j < n
  · rw [if_pos hj,if_pos (by omega),if_pos hj]
  · rw [if_neg hj,if_neg hj]

lemma killSet_eq (b : Buf) {i n pos : ℕ} (h : i + n ≤ pos) (hn : n < lineMax) : killSet b i n = ((b.text pos).drop i).take n := by
  have hmin : min n (lineMax - 1) = n := Nat.min_eq_left (by omega)
  refine ext_getElem? fun j => ?_
  unfold killSet
  rw [hmin,getElem?_map,getElem?_take,getElem?_drop,getElem?_text]
  by_cases hj : j < n
  · rw [if_pos hj,if_pos (by omega),getElem?_range hj]
    rfl
  · rw [if_neg hj,getElem?_eq_none (by rw [length_range]; omega)]
    rfl

lemma text_succ (b : Buf) (n : ℕ) : b.text (n+1) = b.text n ++ [b n] := by
  unfold Buf.text
  rw [range_succ,map_append]
  rfl

lemma text_skipBack (p : UInt8 → Bool) (b : Buf) (n : ℕ) : (b.text n).rdropWhile p = b.text (skipBack p b n) := by
  induction n with
  | zero => rfl
  | succ n ih =>
    rw [text_succ,rdropWhile_concat,skipBack]
    split
    · exact ih
    · rw [text_succ]

/-- A history of at most `historySize` short lines, no two of them that are next to each other the same. -/
structure HistOk (hist : List (List UInt8)) : Prop where
  short : ∀ l ∈ hist, l.length < lineMax
  bound : hist.length ≤ historySize
  chain : hist.IsChain (· ≠ ·)

structure Inv (g : Globals) (e : Ed) : Prop where
  cur : e.cur ≤ e.pos
  pos : e.pos < lineMax
  histI : e.histI ≤ g.hist.length
  scratch : e.scratchLen < lineMax
  entries : HistOk g.hist
  kill : g.kill.length < lineMax

lemma length_killSet (b : Buf) (i n : ℕ) : (killSet b i n).length < lineMax := by
  have hmin := Nat.min_le_right n (lineMax - 1)
  unfold killSet
  rw [length_map,length_range]
  exact Nat.lt_of_le_of_lt hmin (by decide)

variable {g : Globals}

lemma length_entry (h : HistOk g.hist) (i : ℕ) : (g.hist.getD i []).length < lineMax := by
  rw [getD_eq_getElem?_getD]
  cases hi : g.hist[i]? with
  | none => decide
  | some l => exact h.short l (mem_of_getElem? hi)

def Outcome.Bounded : Outcome Ed → Prop
  | .more g e => Inv g e
  | .line g l => HistOk g.hist ∧ g.kill.length < lineMax ∧ l.length < lineMax
  | .stop => True

lemma load_inv {e : Ed} (h : Inv g e) {i : ℕ} (hi : i ≤ g.hist.length) : Inv g (loadHist g.hist i e) := by
  have hlen : ((g.hist.getD i []).take (lineMax - 1)).length < lineMax := by
    rw [length_take]
    exact Nat.lt_of_le_of_lt (Nat.min_le_left _ _) (by decide)
  exact ⟨Nat.le_refl _,hlen,hi,h.scratch,h.entries,h.kill⟩

lemma step_inv {e : Ed} (h : Inv g e) (k : Key) : (step k g e).Bounded := by
  have hcur := h.cur
  have hpos := h.pos
  cases k with
  | enter => exact ⟨h.entries,h.kill,by rw [length_text]; exact hpos⟩
  | back =>
    unfold step
    dsimp only
    split
    · exact ⟨by dsimp only; omega,by dsimp only; omega,h.histI,h.scratch,h.entries,h.kill⟩
    · exact h
  | home => exact ⟨Nat.zero_le _,hpos,h.histI,h.scratch,h.entries,h.kill⟩
  | toEnd => exact ⟨Nat.le_refl _,hpos,h.histI,h.scratch,h.entries,h.kill⟩
  | killEnd =>
    unfold step
    dsimp only
    split
    · exact ⟨Nat.le_refl _,by dsimp only; omega,h.histI,h.scratch,h.entries,length_killSet _ _ _⟩
    · exact h
  | killStart =>
    unfold step
    dsimp only
    split
    · exact ⟨Nat.zero_le _,by dsimp only; omega,h.histI,h.scratch,h.entries,length_killSet _ _ _⟩
    · exact h
  | killWord =>
    unfold step
    dsimp only
    split
    · split
      · exact ⟨by dsimp only; omega,by dsimp only; omega,h.histI,h.scratch,h.entries,length_killSet _ _ _⟩
      · exact h
    · exact h
  | yank =>
    unfold step
    dsimp only
    split
    · rename_i hfits
      exact ⟨by dsimp only; omega,hfits.2,h.histI,h.scratch,h.entries,h.kill⟩
    · exact h
  | cancel => exact ⟨h.entries,h.kill,(by decide : 0 < 128)⟩
  | eof =>
    unfold step
    dsimp only
    split
    · exact trivial
    · exact h
  | up =>
    unfold step
    dsimp only
    have hi := h.histI
    split
    · split
      · exact load_inv (e := { e with scratch := _, scratchLen := e.pos, saved := true }) ⟨hcur,hpos,hi,hpos,h.entries,h.kill⟩ (by dsimp only; omega)
      · exact load_inv h (by omega)
    · exact h
  | down =>
    unfold step
    dsimp only
    split
    · split
      · exact ⟨Nat.le_refl _,h.scratch,by dsimp only; omega,h.scratch,h.entries,h.kill⟩
      · exact load_inv h (by omega)
    · exact h
  | right | left =>
    unfold step
    dsimp only
    split
    · exact ⟨by dsimp only; omega,hpos,h.histI,h.scratch,h.entries,h.kill⟩
    · exact h
  | char c =>
    unfold step
    dsimp only
    split
    · split
      · exact ⟨by dsimp only; omega,by dsimp only; omega,Nat.le_refl _,h.scratch,h.entries,h.kill⟩
      · exact ⟨by dsimp only; omega,by dsimp only; omega,h.histI,h.scratch,h.entries,h.kill⟩
    · exact h
  | ignored => exact h

lemma histPush_ok {line : List UInt8} {hist : List (List UInt8)} (h : HistOk hist) (hline : line.length < lineMax) : HistOk (histPush line hist) := by
  have htake : line.take (lineMax - 1) = line := take_of_length_le (by omega)
  have hadd {rest : List (List UInt8)} (hrest : HistOk rest) (hroom : rest.length < historySize) (hnew : ∀ l ∈ rest.getLast?, l ≠ line) :
      HistOk (rest ++ [line.take (lineMax - 1)]) := by
    rw [htake]
    refine ⟨fun l hl => ?_,?_,?_⟩
    · exact (List.mem_append.mp hl).elim (hrest.short l) fun hl => List.mem_singleton.mp hl ▸ hline
    · rw [length_append,length_singleton]
      exact hroom
    · exact List.isChain_append.mpr ⟨hrest.chain,isChain_singleton _,fun l hl l' hl' => some.inj hl' ▸ hnew l hl⟩
  unfold histPush
  split
  · exact h
  split
  · exact h
  rename_i hnew
  dsimp only
  have hdiff : ∀ l ∈ hist.getLast?, l ≠ line := fun l hl he => hnew (he ▸ hl)
  split
  · rename_i hfull
    refine hadd ⟨fun l hl => h.short l (mem_of_mem_tail hl),?_,h.chain.tail⟩ ?_ fun l hl => ?_
    · rw [length_tail]
      exact Nat.le_trans (Nat.sub_le _ _) h.bound
    · rw [length_tail,hfull]
      decide
    · cases hist with
      | nil => exact nomatch hl
      | cons x xs =>
        cases xs with
        | nil => exact nomatch hl
        | cons y ys => exact hdiff l (by rw [getLast?_cons_cons]; exact hl)
  · rename_i hroom
    exact hadd h (Nat.lt_of_le_of_ne h.bound hroom) hdiff

lemma length_trim (l : List UInt8) : (trim l).length ≤ l.length := by
  unfold trim
  have hpre := rdropWhile_prefix (fun c => c = 0x0a || c = 0x0d || isBlank c) l
  exact Nat.le_trans (length_dropWhile_le _ _) hpre.length_le

lemma fresh_inv (hentries : HistOk g.hist) (hkill : g.kill.length < lineMax) : Inv g (fresh g) :=
  ⟨Nat.le_refl 0,(by decide : 0 < 128),Nat.le_refl _,(by decide : 0 < 128),hentries,hkill⟩

lemma feed_inv {s : Session Ed} (h : Inv s.g s.ed) (k : Key) : Inv (feed step fresh s k).g (feed step fresh s k).ed := by
  have hstep := step_inv h k
  unfold feed
  split
  · exact h
  · cases ho : step k s.g s.ed with
    | more g e =>
      rw [ho] at hstep
      exact hstep
    | line g l =>
      rw [ho] at hstep
      exact fresh_inv (g := { g with hist := histPush (trim l) g.hist })
        (histPush_ok hstep.1 (Nat.lt_of_le_of_lt (length_trim l) hstep.2.2)) hstep.2.1
    | stop => exact h

lemma session_inv (ks : List Key) : Inv (session step fresh ks).g (session step fresh ks).ed := by
  unfold session
  have hrun : ∀ s : Session Ed, Inv s.g s.ed → Inv (ks.foldl (feed step fresh) s).g (ks.foldl (feed step fresh) s).ed := by
    induction ks with
    | nil => exact fun s h => h
    | cons k ks ih => exact fun s h => ih (feed step fresh s k) (feed_inv h k)
  exact hrun _ (fresh_inv (g := ⟨[],[]⟩) ⟨nofun,Nat.zero_le _,.nil⟩ (by decide : 0 < 128))

/-- The editor shows what the reference editor shows, and outside the edit line its scratch copy is the line that Up left; `n` is the length of
the history. -/
structure Rel (n : ℕ) (e : Ed) (r : Ref) : Prop where
  line : r.line = e.out.text e.pos
  cur : r.cur = e.cur
  histI : r.histI = e.histI
  left : e.saved = true → r.left = e.scratch.text e.scratchLen
  away : e.histI < n → e.saved = true

/-- Up leaves the edit line for the first time, or with the text that Down restored. -/
def StepOk (k : Key) (g : Globals) (e : Ed) : Prop :=
  match k with
  | .up => e.histI = g.hist.length → e.saved = true → e.out.text e.pos = e.scratch.text e.scratchLen
  | _ => True

def Matches : Outcome Ed → Outcome Ref → Prop
  | .more g e,.more g' r => g = g' ∧ Rel g.hist.length e r
  | .line g l,.line g' l' => g = g' ∧ l = l'
  | .stop,.stop => True
  | _,_ => False

section
variable {n : ℕ} {e : Ed} {r : Ref}

lemma Rel.length (h : Rel n e r) : r.line.length = e.pos := by rw [h.line,length_text]

lemma rel_cut (h : Rel n e r) (hcur : e.cur ≤ e.pos) {start : ℕ} (hs : start ≤ e.cur) :
    Rel n { e with out := shiftLeft (e.cur - start) (e.pos - e.cur) start e.out, pos := e.pos - (e.cur - start), cur := start } (r.cut start) := by
  have hwidth : start + (e.cur - start) ≤ e.pos := by omega
  have htext := text_shiftLeft hwidth e.out
  rw [Nat.add_sub_of_le hs] at htext
  refine ⟨?_,rfl,h.histI,h.left,h.away⟩
  unfold Ref.cut
  dsimp only
  rw [htext,h.line,h.cur]

lemma rel_insert (h : Rel n e r) (hcur : e.cur ≤ e.pos) (ins : List UInt8) :
    Rel n { e with
      out := copyIn ins e.cur (shiftRight ins.length e.cur (e.pos - e.cur) e.out)
      pos := e.pos + ins.length
      cur := e.cur + ins.length } (r.insert ins) := by
  refine ⟨?_,by rw [Ref.insert,h.cur],h.histI,h.left,h.away⟩
  unfold Ref.insert
  dsimp only
  rw [text_insert hcur,h.line,h.cur]

lemma rel_load {g : Globals} (hentries : HistOk g.hist) {i : ℕ} (hleft : e.saved = true → r.left = e.scratch.text e.scratchLen)
    (hsaved : e.saved = true) : Rel n (loadHist g.hist i e) (r.show i (g.hist.getD i [])) := by
  have hlen := length_entry hentries i
  have htake : (g.hist.getD i []).take (lineMax - 1) = g.hist.getD i [] := take_of_length_le (by omega)
  refine ⟨?_,?_,rfl,hleft,fun _ => hsaved⟩
  · unfold loadHist Ref.show
    dsimp only
    rw [htake,text_copyIn]
  · unfold loadHist Ref.show
    dsimp only
    rw [htake]

lemma step_rel {g : Globals} (hinv : Inv g e) (h : Rel g.hist.length e r) {k : Key} (hok : StepOk k g e) : Matches (step k g e) (refStep k g r) := by
  have hcur := hinv.cur
  have hpos := hinv.pos
  have hlen := h.length
  cases k with
  | enter => exact ⟨rfl,h.line.symm⟩
  | back =>
    unfold step refStep
    dsimp only
    rw [h.cur]
    by_cases hc : 0 < e.cur
    · rw [if_pos hc,if_pos hc]
      have hcut := rel_cut h hcur (Nat.sub_le e.cur 1)
      rw [show e.cur - (e.cur - 1) = 1 by omega] at hcut
      exact ⟨rfl,hcut⟩
    · rw [if_neg hc,if_neg hc]
      exact ⟨rfl,h⟩
  | home => exact ⟨rfl,h.line,rfl,h.histI,h.left,h.away⟩
  | toEnd => exact ⟨rfl,h.line,hlen,h.histI,h.left,h.away⟩
  | killEnd =>
    unfold step refStep
    dsimp only
    rw [hlen,h.cur]
    by_cases hc : e.cur < e.pos
    · rw [if_pos hc,if_pos hc]
      have hkill : killSet e.out e.cur (e.pos - e.cur) = r.line.drop e.cur := by
        rw [killSet_eq e.out (by omega : e.cur + (e.pos - e.cur) ≤ e.pos) (by omega),h.line]
        exact take_of_length_le (by rw [length_drop,length_text])
      refine ⟨by rw [hkill],?_,rfl,h.histI,h.left,h.away⟩
      dsimp only
      rw [h.line,text_take e.out hcur]
    · rw [if_neg hc,if_neg hc]
      exact ⟨rfl,h⟩
  | killStart =>
    unfold step refStep
    dsimp only
    rw [h.cur]
    by_cases hc : 0 < e.cur
    · rw [if_pos hc,if_pos hc]
      have hkill : killSet e.out 0 e.cur = r.line.take e.cur := by
        rw [killSet_eq e.out (by omega : 0 + e.cur ≤ e.pos) (by omega),h.line,drop_zero]
      exact ⟨by rw [hkill],rel_cut h hcur (Nat.zero_le e.cur)⟩
    · rw [if_neg hc,if_neg hc]
      exact ⟨rfl,h⟩
  | killWord =>
    have hstart : r.wordStart = skipBack (fun c => !isBlank c) e.out (skipBack isBlank e.out e.cur) := by
      unfold Ref.wordStart
      rw [h.line,h.cur,text_take e.out hcur,text_skipBack,text_skipBack,length_text]
    unfold step refStep
    dsimp only
    rw [hstart,h.cur]
    generalize hw : skipBack (fun c => !isBlank c) e.out (skipBack isBlank e.out e.cur) = start
    by_cases hc : 0 < e.cur
    · rw [if_pos hc]
      by_cases hs : start < e.cur
      · rw [if_pos hs,if_pos hs]
        have hkill : killSet e.out start (e.cur - start) = (r.line.take e.cur).drop start := by
          rw [killSet_eq e.out (by omega : start + (e.cur - start) ≤ e.pos) (by omega),h.line,drop_take]
        exact ⟨by rw [hkill],rel_cut h hcur hs.le⟩
      · rw [if_neg hs,if_neg hs]
        exact ⟨rfl,h⟩
    · rw [if_neg hc,if_neg (by omega)]
      exact ⟨rfl,h⟩
  | yank =>
    unfold step refStep
    dsimp only
    rw [hlen]
    by_cases hfits : e.pos + g.kill.length < lineMax
    · rw [if_pos hfits]
      by_cases hk : 0 < g.kill.length
      · rw [if_pos ⟨hk,hfits⟩]
        exact ⟨rfl,rel_insert h hcur g.kill⟩
      · rw [if_neg fun hc => hk hc.1]
        have hnil : g.kill = [] := eq_nil_of_length_eq_zero (by omega)
        have hsame : r.insert g.kill = r := by
          unfold Ref.insert
          rw [hnil,append_nil,take_append_drop]
          rfl
        rw [hsame]
        exact ⟨rfl,h⟩
    · rw [if_neg hfits,if_neg fun hc => hfits hc.2]
      exact ⟨rfl,h⟩
  | cancel => exact ⟨rfl,rfl⟩
  | eof =>
    unfold step refStep
    dsimp only
    by_cases hp : e.pos = 0
    · rw [if_pos hp,if_pos (eq_nil_of_length_eq_zero (hlen.trans hp))]
      exact trivial
    · rw [if_neg hp,if_neg fun hnil => hp (by rw [← hlen,hnil]; rfl)]
      exact ⟨rfl,h⟩
  | up =>
    unfold step refStep
    dsimp only
    rw [h.histI]
    by_cases hi : 0 < e.histI
    · rw [if_pos hi,if_pos hi]
      refine ⟨rfl,?_⟩
      by_cases hs : e.saved = false
      · have hedit : e.histI = g.hist.length := by
          by_contra hne
          have := h.away (Nat.lt_of_le_of_ne hinv.histI hne)
          rw [hs] at this
          exact nomatch this
        rw [if_pos hs,if_pos hedit]
        refine rel_load hinv.entries (fun _ => ?_) rfl
        dsimp only
        have hcopy := text_copyIn (e.out.text e.pos) e.scratch
        rw [length_text] at hcopy
        rw [hcopy,h.line]
      · have hsaved : e.saved = true := eq_true_of_ne_false hs
        rw [if_neg hs]
        refine rel_load hinv.entries (fun _ => ?_) hsaved
        split
        · rename_i hedit
          exact h.line.trans (hok hedit hsaved)
        · exact h.left hsaved
    · rw [if_neg hi,if_neg hi]
      exact ⟨rfl,h⟩
  | down =>
    unfold step refStep
    dsimp only
    rw [h.histI]
    by_cases hi : e.histI < g.hist.length
    · have hsaved := h.away hi
      rw [if_pos hi,if_pos hi]
      by_cases hlast : e.histI + 1 = g.hist.length
      · rw [if_pos hlast,if_pos hlast]
        have hcopy := text_copyIn (e.scratch.text e.scratchLen) e.out
        rw [length_text] at hcopy
        have hleft := h.left hsaved
        refine ⟨rfl,?_,?_,rfl,h.left,fun hlt => absurd hlt (by dsimp only; omega)⟩
        · dsimp only [Ref.show]
          rw [hcopy,hleft]
        · dsimp only [Ref.show]
          rw [hleft,length_text]
      · rw [if_neg hlast,if_neg hlast]
        exact ⟨rfl,rel_load hinv.entries h.left hsaved⟩
    · rw [if_neg hi,if_neg hi]
      exact ⟨rfl,h⟩
  | right =>
    unfold step refStep
    dsimp only
    rw [hlen,h.cur]
    split
    · exact ⟨rfl,h.line,rfl,h.histI,h.left,h.away⟩
    · exact ⟨rfl,h⟩
  | left =>
    unfold step refStep
    dsimp only
    rw [h.cur]
    split
    · exact ⟨rfl,h.line,rfl,h.histI,h.left,h.away⟩
    · exact ⟨rfl,h⟩
  | char c =>
    unfold step refStep
    dsimp only
    rw [hlen]
    by_cases hroom : e.pos < lineMax - 1
    · rw [if_pos hroom,if_pos hroom]
      have hins := rel_insert h hcur [c]
      refine ⟨rfl,?_⟩
      split
      · exact ⟨hins.line,hins.cur,rfl,nofun,fun hlt => absurd hlt (Nat.lt_irrefl _)⟩
      · rename_i hi
        exact ⟨hins.line,hins.cur,(not_not.mp hi).symm,h.left,h.away⟩
    · rw [if_neg hroom,if_neg hroom]
      exact ⟨rfl,h⟩
  | ignored => exact ⟨rfl,h⟩

end

/-- The two shells: the same globals, the same lines, and editors that match. -/
structure SameSession (s : Session Ed) (t : Session Ref) : Prop where
  g : s.g = t.g
  lines : s.lines = t.lines
  ended : s.ended = t.ended
  ed : Rel s.g.hist.length s.ed t.ed

lemma fresh_rel (g : Globals) : Rel g.hist.length (fresh g) (refFresh g) :=
  ⟨rfl,rfl,rfl,nofun,fun h => absurd h (Nat.lt_irrefl _)⟩

lemma feed_rel {s : Session Ed} {t : Session Ref} (hinv : Inv s.g s.ed) (h : SameSession s t) {k : Key} (hok : s.ended = false → StepOk k s.g s.ed) :
    SameSession (feed step fresh s k) (feed refStep refFresh t k) := by
  unfold feed
  rw [← h.ended]
  by_cases hover : s.ended = true
  · rw [if_pos hover,if_pos hover]
    exact h
  rw [if_neg hover,if_neg hover,← h.g]
  have hmatch := step_rel hinv h.ed (hok (eq_false_of_ne_true hover))
  cases ho : step k s.g s.ed <;> cases hr : refStep k s.g t.ed <;> rw [ho,hr] at hmatch
  · obtain ⟨rfl,hrel⟩ := hmatch
    exact ⟨rfl,h.lines,rfl,hrel⟩
  · exact hmatch.elim
  · exact hmatch.elim
  · exact hmatch.elim
  · obtain ⟨rfl,rfl⟩ := hmatch
    exact ⟨rfl,by dsimp only; rw [h.lines],rfl,fresh_rel _⟩
  · exact hmatch.elim
  · exact hmatch.elim
  · exact hmatch.elim
  · exact ⟨rfl,h.lines,rfl,h.ed⟩

/-- Every key meets the condition in the state it finds. -/
def RunOk : List Key → Session Ed → Prop
  | [],_ => True
  | k :: ks,s => (s.ended = false → StepOk k s.g s.ed) ∧ RunOk ks (feed step fresh s k)

lemma run_rel {ks : List Key} {s : Session Ed} {t : Session Ref} (hinv : Inv s.g s.ed) (h : SameSession s t) (hok : RunOk ks s) :
    SameSession (ks.foldl (feed step fresh) s) (ks.foldl (feed refStep refFresh) t) := by
  induction ks generalizing s t with
  | nil => exact h
  | cons k ks ih => exact ih (feed_inv hinv k) (feed_rel hinv h hok.1) hok.2

def start : Session Ed := ⟨⟨[],[]⟩,fresh ⟨[],[]⟩,[],false⟩

/-- For all bytes the cursor stays in the line, the line in its buffer and the history as it should be; and where every Up leaves the edit line for the first time or with the text
that Down restored, the lines returned, the line under edit, the cursor and the history are those of the reference editor. -/
theorem editor_refines (bs : List UInt8) :
    ((session step fresh (keysOf bs)).ed.cur ≤ (session step fresh (keysOf bs)).ed.pos ∧ (session step fresh (keysOf bs)).ed.pos < lineMax ∧
      HistOk (session step fresh (keysOf bs)).g.hist) ∧
    (RunOk (keysOf bs) start → SameSession (session step fresh (keysOf bs)) (session refStep refFresh (keysOf bs))) := by
  have hinv := session_inv (keysOf bs)
  refine ⟨⟨hinv.cur,hinv.pos,hinv.entries⟩,fun hok => ?_⟩
  exact run_rel (fresh_inv (g := ⟨[],[]⟩) ⟨nofun,Nat.zero_le _,.nil⟩ (by decide : 0 < 128)) ⟨rfl,rfl,rfl,fresh_rel _⟩ hok

/-- `a`, Enter, Up, Down, Up. -/
theorem editor_refines_once : SameSession (session step fresh (keysOf [0x61,0x0d,0x1b,0x5b,0x41,0x1b,0x5b,0x42,0x1b,0x5b,0x41]))
    (session refStep refFresh (keysOf [0x61,0x0d,0x1b,0x5b,0x41,0x1b,0x5b,0x42,0x1b,0x5b,0x41])) :=
  (editor_refines [0x61,0x0d,0x1b,0x5b,0x41,0x1b,0x5b,0x42,0x1b,0x5b,0x41]).2
    (show RunOk [.char 0x61,.enter,.up,.down,.up] start from
      ⟨fun _ => trivial,fun _ => trivial,fun _ _ hs => (nomatch hs),fun _ => trivial,fun _ _ _ => rfl,trivial⟩)

/-- `a`, Enter, Up, Down, `b`, Up, Down, Enter: the second line is empty where it should be `b`. -/
theorem editor_stale : (session step fresh (keysOf [0x61,0x0d,0x1b,0x5b,0x41,0x1b,0x5b,0x42,0x62,0x1b,0x5b,0x41,0x1b,0x5b,0x42,0x0d])).lines = [[0x61],[]] ∧
    (session refStep refFresh (keysOf [0x61,0x0d,0x1b,0x5b,0x41,0x1b,0x5b,0x42,0x62,0x1b,0x5b,0x41,0x1b,0x5b,0x42,0x0d])).lines = [[0x61],[0x62]] :=
  ⟨by rfl,by rfl⟩

end VibeOS.Editor

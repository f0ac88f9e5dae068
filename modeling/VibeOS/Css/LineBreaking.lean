import VibeOS.Css.Declarations
import Mathlib.Data.List.DropRight
import Mathlib.Algebra.Order.BigOperators.Group.List

/-! `layout.h`, the line boxes of an inline run: its items are put on lines, and each line is given its
boxes. What is left of `buf` from its index `i` on stands for `i`, and an `int` is an integer. -/
namespace VibeOS.Css

inductive ItemKind
  | word | space | br | replaced
deriving DecidableEq

structure LayoutItem where
  kind : ItemKind
  text : List Char
  widthPx : ℤ
  heightPx : ℤ
  style : Option LayoutComputed
  domSnap : Option ℕ
  altSnap : Option (List Char)
deriving DecidableEq

inductive BoxKind
  | block | inline | text | anonBlock | replaced | br | bullet
deriving DecidableEq

structure LayoutBox where
  kind : BoxKind
  style : Option LayoutComputed
  dom : Option ℕ
  text : Option (List Char)
  textLen : ℕ
  x : ℤ
  y : ℤ
  w : ℤ
  h : ℤ
  replacedW : ℤ
  replacedH : ℤ
  replacedAlt : Option (List Char)
deriving DecidableEq

abbrev Items := List LayoutItem

def LayoutItem.isSpace (it : LayoutItem) : Bool := it.kind = .space

def LayoutItem.isSolid (it : LayoutItem) : Bool := it.kind = .word || it.kind = .replaced

/-- The one font is 16 pixels high. -/
def layoutLineBoxHeight : Option LayoutComputed → ℤ
  | none => 16
  | some st => max (if 0 < st.lineHeightPx then st.lineHeightPx else (st.fontSizePx * 12).tdiv 10) 18

lemma layoutLineBoxHeight_pos (st : Option LayoutComputed) : 0 < layoutLineBoxHeight st := by
  cases st with
  | none => decide
  | some st => exact lt_max_of_lt_right (by decide)

/-- `malloc 0` is for the box and `malloc 1` for its copy of the text. -/
def layoutEmitInlineWord (malloc : ℕ → Bool) (it : LayoutItem) (x y lineH : ℤ) : Option LayoutBox :=
  if malloc 0 then
    some ⟨.text,it.style,it.domSnap,if malloc 1 then some it.text else none,it.text.length,x,y,it.widthPx,lineH,
      0,0,none⟩
  else none

/-- The fresh box of an atom, in `layout_inline_format`. -/
def emitReplaced (malloc : ℕ → Bool) (it : LayoutItem) (x y : ℤ) : Option LayoutBox :=
  if malloc 0 then
    some ⟨.replaced,it.style,it.domSnap,none,0,x,y,it.widthPx,it.heightPx,it.widthPx,it.heightPx,
      if malloc 1 then it.altSnap else none⟩
  else none

/-- The box of an item; of the spaces only an underlined one has one, and `extra` widens it. -/
def LayoutItem.box (malloc : ℕ → Bool) (it : LayoutItem) (x y lineH extra : ℤ) : Option LayoutBox :=
  match it.kind with
  | .word => layoutEmitInlineWord malloc it x y lineH
  | .replaced => emitReplaced malloc it x y
  | .space =>
    if it.style.any (fun st => st.textDecoration.testBit 0) then
      layoutEmitInlineWord malloc { it with widthPx := it.widthPx + extra } x y lineH
    else none
  | .br => none

/-- What the inner loop keeps, with the indices from `line_start` on. -/
structure Scan where
  i : ℕ
  lineW : ℤ
  lineH : ℤ
  lastBreak : Option ℕ
  lineWAtBreak : ℤ
  forcedBreak : Bool

def Scan.push (s : Scan) (it : LayoutItem) : Scan :=
  { s with
    i := s.i + 1
    lineW := s.lineW + it.widthPx
    lineH := max s.lineH it.heightPx
    lastBreak := if it.kind = .space then some s.i else s.lastBreak
    lineWAtBreak := if it.kind = .space then s.lineW else s.lineWAtBreak }

/-- The inner loop, at the items that it has not looked at. -/
def scanLine (contentW : ℤ) : Items → Scan → Scan
  | [], s => s
  | it :: its, s =>
    if it.kind = .br then { s with i := s.i + 1, forcedBreak := true }
    else if contentW < s.lineW + it.widthPx ∧ 0 < s.i then
      match s.lastBreak with
      | some j => { s with i := j + 1, lineW := s.lineWAtBreak }
      | none => s
    else scanLine contentW its (s.push it)

def Scan.line (s : Scan) (rest : Items) : Items :=
  (rest.take (if s.forcedBreak then s.i - 1 else s.i)).rdropWhile LayoutItem.isSpace

def width (its : Items) : ℤ := (its.map (·.widthPx)).sum

/-- The box of the run: its style, its content, and what `malloc` gives for the item `j`. -/
structure Container where
  style : Option LayoutComputed
  xOrigin : ℤ
  contentW : ℤ
  malloc : ℕ → ℕ → Bool

/-- The height of a line whose items have the height `h`. -/
def Container.lineHeight (c : Container) (h : ℤ) : ℤ := if h = 0 then layoutLineBoxHeight c.style else h

open LayoutItem

/-- The boxes of a line from its item `j` on: `per` is `extra_per_space`, and `extra_first_n` is still `n`. -/
def emitLine (malloc : ℕ → ℕ → Bool) (y lineH per : ℤ) : ℕ → ℤ → ℤ → Items → List LayoutBox
  | _, _, _, [] => []
  | j, xPen, n, it :: its =>
    match it.kind with
    | .space =>
      let extra := if 0 < n then per + 1 else per
      (it.box (malloc j) xPen y lineH extra).toList
        ++ emitLine malloc y lineH per (j + 1) (xPen + it.widthPx + extra) (if 0 < n then n - 1 else n) its
    | .br => emitLine malloc y lineH per (j + 1) xPen n its
    | _ =>
      (it.box (malloc j) xPen y lineH 0).toList
        ++ emitLine malloc y lineH per (j + 1) (xPen + it.widthPx) n its

/-- The boxes of a line that begins at the item `j`; `last` tells that nothing is left after it. -/
def placeLine (c : Container) (y lineH : ℤ) (j : ℕ) (last : Bool) (line : Items) : List LayoutBox :=
  let slack := c.contentW - width line
  let nSpaces : ℕ := line.countP isSpace
  let align := (c.style.map (·.textAlign)).getD .left
  let justify := align = .justify ∧ 0 < nSpaces ∧ last = false
  let xPen :=
    match align with
    | .center => c.xOrigin + slack.tdiv 2
    | .right => c.xOrigin + slack
    | _ => c.xOrigin
  let per := if justify then slack.tdiv nSpaces else 0
  emitLine c.malloc y lineH per j (max xPen c.xOrigin) (if justify then slack - per * nSpaces else 0) line

/-- The outer loop, with as many turns as there is fuel, over `n` items in all. -/
def formatLoop (c : Container) (n : ℕ) : ℕ → ℤ → Items → Option (List LayoutBox × ℤ)
  | 0, _, _ => none
  | fuel+1, y, items =>
    let rest := items.dropWhile isSpace
    if rest = [] then some ([],0)
    else
      let s := scanLine c.contentW rest ⟨0,0,0,none,0,false⟩
      let line := s.line rest
      let lineH := c.lineHeight s.lineH
      let boxes := placeLine c y lineH (n - rest.length) (line.length = rest.length) line
      -- an item that no turn gets past
      let stuck := line = [] ∧ s.i = 0
      let h := if stuck then lineH + 16 else lineH
      (formatLoop c n fuel (y + h) (rest.drop (if stuck then 1 else s.i))).map fun r => (boxes ++ r.1,h + r.2)

/-- The new children of the container, and the height of the lines. -/
def layoutInlineFormat (c : Container) (yOrigin : ℤ) (fuel : ℕ) (items : Items) : Option (List LayoutBox × ℤ) :=
  formatLoop c items.length fuel yOrigin items

def maxHeight (its : Items) : ℤ := (its.map (·.heightPx)).foldl max 0

def boxHeight (c : Container) (its : Items) : ℤ := c.lineHeight (maxHeight its)

/-- Why `line` ends where it does, in the items from its beginning on: its height is `h`, and the next line is
looked for in `rest`. -/
inductive LineEnd (c : Container) (line : Items) : Items → ℤ → Items → Prop
  /-- Nothing is left. -/
  | last {sp : Items} (spaces : ∀ it ∈ sp, it.isSpace) :
    LineEnd c line (line ++ sp) (boxHeight c (line ++ sp)) []
  /-- A forced break. -/
  | forced {sp rest : Items} {br : LayoutItem} (spaces : ∀ it ∈ sp, it.isSpace) (hbr : br.kind = .br) :
    LineEnd c line (line ++ sp ++ br :: rest) (boxHeight c (line ++ sp)) rest
  /-- Inside a word, before the first item that does not fit. -/
  | hard {it : LayoutItem} {rest : Items} (some : line ≠ []) (solid : ∀ x ∈ line, x.isSolid)
      (hit : it.kind ≠ .br) (full : c.contentW < width line + it.widthPx) :
    LineEnd c line (line ++ it :: rest) (boxHeight c line) (it :: rest)
  /-- At the last soft space before the item that does not fit. -/
  | soft {sp b post : Items} {it : LayoutItem} {h : ℤ} (some : line ≠ [] ∧ sp ≠ [])
      (spaces : ∀ it ∈ sp, it.isSpace) (solid : ∀ x ∈ b, x.isSolid) (hit : it.kind ≠ .br)
      (full : c.contentW < width (line ++ sp ++ b) + it.widthPx) (low : ∀ x ∈ line, x.heightPx ≤ h)
      (high : h ≤ boxHeight c (line ++ sp ++ b)) :
    LineEnd c line (line ++ sp ++ (b ++ it :: post)) h (b ++ it :: post)

/-- The boxes of the items from `j` on, one after another from `x` on; only spaces are widened. -/
inductive Placed (c : Container) (y h : ℤ) : ℕ → ℤ → Items → List LayoutBox → Prop
  | nil (j : ℕ) (x : ℤ) : Placed c y h j x [] []
  | cons {j : ℕ} {x extra : ℤ} {it : LayoutItem} {its : Items} {bs : List LayoutBox}
      (wide : 0 ≤ extra) (hit : it.isSpace = false → extra = 0)
      (rest : Placed c y h (j + 1) (x + it.widthPx + extra) its bs) :
    Placed c y h j x (it :: its) ((it.box (c.malloc j) x y h extra).toList ++ bs)

structure LineBox where
  items : Items
  boxes : List LayoutBox
  height : ℤ

/-- The items of a line: they fit or there is only one, no forced break is among them, and no space is last. -/
structure Fits (c : Container) (line : Items) : Prop where
  fits : line.length ≤ 1 ∨ width line ≤ c.contentW
  unbroken : ∀ it ∈ line, it.kind ≠ .br
  tight : ∀ it ∈ line.getLast?, it.isSpace = false

/-- The lines of the items that are left, the first at the height `y`. Every line begins with a word, an atom or a
forced break. -/
inductive Formatted (c : Container) (n : ℕ) : ℤ → Items → List LineBox → Prop
  | done {y : ℤ} {items : Items} (spaces : ∀ it ∈ items, it.isSpace) :
    Formatted c n y items []
  | line {y x : ℤ} {lead its rest : Items} {l : LineBox} {ls : List LineBox}
      (spaces : ∀ it ∈ lead, it.isSpace) (first : ∀ it ∈ its.head?, it.isSpace = false)
      (fits : Fits c l.items) (ends : LineEnd c l.items its l.height rest) (left : c.xOrigin ≤ x)
      (placed : Placed c y l.height (n - its.length) x l.items l.boxes)
      (next : Formatted c n (y + l.height) rest ls) :
    Formatted c n y (lead ++ its) (l :: ls)

variable {c : Container} {l line its rest : Items} {s : Scan} {it : LayoutItem}

lemma not_isSpace_of_isSolid (h : it.isSolid) : it.isSpace = false := by
  cases hk : it.kind <;> simp_all [isSolid,isSpace]

lemma isSolid_of (hbr : it.kind ≠ .br) (hs : it.isSpace = false) : it.isSolid := by
  cases hk : it.kind <;> simp_all [isSolid,isSpace]

@[simp] lemma width_append (l m : Items) : width (l ++ m) = width l + width m := by simp [width]

lemma width_nonneg (hw : ∀ it ∈ l, 0 ≤ it.widthPx) : 0 ≤ width l :=
  List.sum_nonneg (by simpa using hw)

lemma maxHeight_concat (l : Items) (it : LayoutItem) :
    maxHeight (l ++ [it]) = max (maxHeight l) it.heightPx := by simp [maxHeight]

lemma le_maxHeight : ∀ it ∈ l, it.heightPx ≤ maxHeight l := by
  induction l using List.reverseRecOn with
  | nil => simp
  | append_singleton l it ih =>
    intro x hx
    rw [maxHeight_concat]
    rcases List.mem_append.mp hx with hx | hx
    · exact (ih x hx).trans (le_max_left _ _)
    · rw [List.mem_singleton.mp hx]
      exact le_max_right _ _

lemma le_boxHeight : ∀ it ∈ l, it.heightPx ≤ boxHeight c l := by
  intro it hit
  have h := le_maxHeight it hit
  unfold boxHeight Container.lineHeight
  split_ifs with h0
  · have := layoutLineBoxHeight_pos c.style
    omega
  · exact h

inductive LastBreak : Items → Option ℕ → Prop
  | none {l : Items} (solid : ∀ x ∈ l, x.isSolid) : LastBreak l none
  | some {a b : Items} {sp : LayoutItem} (space : sp.isSpace) (solid : ∀ x ∈ b, x.isSolid) :
    LastBreak (a ++ sp :: b) (some a.length)

/-- The inner loop has put these items on the line. -/
structure Scanned (c : Container) (l : Items) (s : Scan) : Prop where
  i : s.i = l.length
  lineW : s.lineW = width l
  lineH : s.lineH = maxHeight l
  lastBreak : LastBreak l s.lastBreak
  forced : s.forcedBreak = false
  unbroken : ∀ it ∈ l, it.kind ≠ .br
  fits : l.length ≤ 1 ∨ width l ≤ c.contentW

inductive Stops (c : Container) : Items → Scan → Prop
  | last {l : Items} {s : Scan} (h : Scanned c l s) : Stops c l s
  | forced {l post : Items} {br : LayoutItem} {s : Scan} (h : Scanned c l s) (hbr : br.kind = .br) :
    Stops c (l ++ br :: post) { s with i := s.i + 1, forcedBreak := true }
  | hard {l post : Items} {it : LayoutItem} {s : Scan} (h : Scanned c l s) (some : l ≠ [])
      (hit : it.kind ≠ .br) (full : c.contentW < width l + it.widthPx) (hb : s.lastBreak = none) :
    Stops c (l ++ it :: post) s
  | soft {l post : Items} {it : LayoutItem} {s : Scan} {j : ℕ} (h : Scanned c l s)
      (hit : it.kind ≠ .br) (full : c.contentW < width l + it.widthPx) (hb : s.lastBreak = some j) :
    Stops c (l ++ it :: post) { s with i := j + 1, lineW := s.lineWAtBreak }

lemma LastBreak.concat {o : Option ℕ} (h : LastBreak l o)
    (hit : it.kind ≠ .br) : LastBreak (l ++ [it]) (if it.kind = .space then Option.some l.length else o) := by
  split_ifs with hs
  · exact .some (by simpa [isSpace] using hs) (by simp)
  · have hsolid : it.isSolid := isSolid_of hit (by simpa [isSpace] using hs)
    cases h with
    | none solid =>
      apply LastBreak.none
      intro x hx
      rcases List.mem_append.mp hx with hx | hx
      · exact solid x hx
      · rwa [List.mem_singleton.mp hx]
    | @some a b sp space solid =>
      rw [List.append_assoc,List.cons_append]
      apply LastBreak.some space
      intro x hx
      rcases List.mem_append.mp hx with hx | hx
      · exact solid x hx
      · rwa [List.mem_singleton.mp hx]

lemma Scanned.step (h : Scanned c l s)
    (hbr : it.kind ≠ .br) (hfit : ¬(c.contentW < s.lineW + it.widthPx ∧ 0 < s.i)) :
    Scanned c (l ++ [it]) (s.push it) where
  i := by simp [Scan.push,h.i]
  lineW := by simp [Scan.push,h.lineW,width]
  lineH := by rw [maxHeight_concat,← h.lineH,Scan.push]
  lastBreak := by
    have hc := h.lastBreak.concat hbr
    rwa [← h.i] at hc
  forced := h.forced
  unbroken := by
    intro x hx
    rcases List.mem_append.mp hx with hx | hx
    · exact h.unbroken x hx
    · rwa [List.mem_singleton.mp hx]
  fits := by
    rw [h.lineW,h.i] at hfit
    simp only [List.length_append,List.length_singleton,width_append]
    have : width [it] = it.widthPx := by simp [width]
    omega

lemma scanLine_stops (h : Scanned c l s) :
    Stops c (l ++ its) (scanLine c.contentW its s) := by
  induction its generalizing l s with
  | nil => simpa [scanLine] using Stops.last h
  | cons it its ih =>
    rw [scanLine]
    by_cases hbr : it.kind = .br
    · rw [if_pos hbr]
      exact .forced h hbr
    · rw [if_neg hbr]
      by_cases hfull : c.contentW < s.lineW + it.widthPx ∧ 0 < s.i
      · rw [if_pos hfull]
        rw [h.lineW,h.i] at hfull
        split
        next j hb => exact .soft h hbr hfull.1 hb
        next hb => exact .hard h (List.ne_nil_of_length_pos hfull.2) hbr hfull.1 hb
      · rw [if_neg hfull,List.append_cons]
        exact ih (h.step hbr hfull)

lemma exists_trimmed (l : Items) :
    ∃ sp, l = l.rdropWhile isSpace ++ sp ∧ ∀ it ∈ sp, it.isSpace :=
  ⟨l.rtakeWhile isSpace,(List.rdropWhile_append_rtakeWhile ..).symm,fun _ h => List.mem_rtakeWhile_imp h⟩

lemma Scanned.fits_trimmed {m : Items} (h : Scanned c l s)
    (hw : ∀ it ∈ l, 0 ≤ it.widthPx) (hm : m <+: l) : Fits c (m.rdropWhile isSpace) where
  fits := by
    obtain ⟨t,rfl⟩ := (List.rdropWhile_prefix isSpace m).trans hm
    have ht : 0 ≤ width t := width_nonneg fun it hit => hw it (List.mem_append_right _ hit)
    have hf := h.fits
    rw [List.length_append,width_append] at hf
    omega
  unbroken := fun it hit => h.unbroken it (((List.rdropWhile_prefix _ m).trans hm).subset hit)
  tight := by
    intro it hit
    obtain ⟨hne,rfl⟩ := List.mem_getLast?_eq_getLast hit
    simpa using List.rdropWhile_last_not isSpace m hne

lemma Stops.lineEnd (h : Stops c rest s) (hrest : rest ≠ [])
    (hfirst : ∀ it ∈ rest.head?, it.isSpace = false) (hw : ∀ it ∈ rest, 0 ≤ it.widthPx) :
    Fits c (s.line rest) ∧ LineEnd c (s.line rest) rest (c.lineHeight s.lineH) (rest.drop s.i) ∧ 0 < s.i := by
  unfold Scan.line
  cases h with
  | @last l s h =>
    obtain ⟨sp,hsp,spaces⟩ := exists_trimmed rest
    rw [h.forced,h.i,h.lineH,if_neg Bool.false_ne_true,List.take_length,List.drop_length]
    refine ⟨h.fits_trimmed hw List.prefix_rfl,?_,List.length_pos_iff.mpr hrest⟩
    have he : LineEnd c (rest.rdropWhile isSpace) _ _ [] := .last spaces
    rwa [← hsp] at he
  | @forced l post br s h hbr =>
    obtain ⟨sp,hsp,spaces⟩ := exists_trimmed l
    dsimp only
    rw [h.i,h.lineH,if_pos rfl,Nat.add_sub_cancel,List.take_left,List.append_cons,
      List.drop_left' (by simp)]
    refine ⟨h.fits_trimmed (fun it hit => hw it (List.mem_append_left _ hit)) List.prefix_rfl,?_,Nat.succ_pos _⟩
    have he : LineEnd c (l.rdropWhile isSpace) _ _ post := .forced spaces hbr
    rwa [← hsp,List.append_cons] at he
  | @hard l post it s h some hit full hb =>
    have hsolid : ∀ x ∈ l, x.isSolid := by
      have hl := h.lastBreak
      rw [hb] at hl
      cases hl with
      | none solid => exact solid
    have htrim : l.rdropWhile isSpace = l := by
      rw [List.rdropWhile_eq_self_iff]
      intro hl
      simpa using not_isSpace_of_isSolid (hsolid _ (List.getLast_mem hl))
    rw [h.forced,h.i,h.lineH,if_neg Bool.false_ne_true,List.take_left,List.drop_left]
    refine ⟨h.fits_trimmed (fun it hit => hw it (List.mem_append_left _ hit)) List.prefix_rfl,?_,
      List.length_pos_iff.mpr some⟩
    rw [htrim]
    exact LineEnd.hard some hsolid hit full
  | @soft l post it s j h hit full hb =>
    have hl := h.lastBreak
    rw [hb] at hl
    cases hl with
    | @some a b sp space solid =>
      have hcut : a ++ sp :: b ++ it :: post = a ++ [sp] ++ (b ++ it :: post) := by simp
      obtain ⟨sps,hsps,spaces⟩ := exists_trimmed (a ++ [sp])
      have hline : (a ++ [sp]).rdropWhile isSpace ≠ [] := by
        rw [Ne,List.rdropWhile_eq_nil_iff]
        intro hall
        cases a with
        | nil => simp [space] at hfirst
        | cons x a => simpa [hfirst x (by simp)] using hall x (by simp)
      have hspne : sps ≠ [] := by
        rintro rfl
        rw [List.append_nil] at hsps
        have := List.rdropWhile_last_not isSpace _ hline
        simp [← hsps,space] at this
      have hscan : a ++ sp :: b = (a ++ [sp]).rdropWhile isSpace ++ sps ++ b := by rw [← hsps]; simp
      dsimp only
      rw [h.forced,h.lineH,if_neg Bool.false_ne_true,hcut,List.take_left' (by simp),List.drop_left' (by simp)]
      refine ⟨h.fits_trimmed (fun it hit => hw it (List.mem_append_left _ hit)) ⟨b,by simp⟩,?_,Nat.succ_pos _⟩
      have he : LineEnd c _ _ _ (b ++ it :: post) := .soft ⟨hline,hspne⟩ spaces solid hit
        (by rwa [← hscan]) (fun x hx => le_boxHeight x (by rw [hscan]; simp [hx])) (le_of_eq (congrArg _ hscan))
      rwa [← hsps] at he

variable {y h x : ℤ} {n j : ℕ} {bs : List LayoutBox}

lemma emitLine_placed (hbr : ∀ it ∈ line, it.kind ≠ .br) {per : ℤ} (hper : 0 ≤ per)
    (j : ℕ) (x n : ℤ) : Placed c y h j x line (emitLine c.malloc y h per j x n line) := by
  induction line generalizing j x n with
  | nil => exact .nil j x
  | cons it its ih =>
    have hrest := ih (fun it hit => hbr it (List.mem_cons_of_mem _ hit))
    rw [emitLine]
    split
    next hk =>
      refine .cons (by split_ifs <;> omega) (fun hs => ?_) (hrest ..)
      simp [isSpace,hk] at hs
    next hk => exact absurd hk (hbr it (by simp))
    next =>
      refine .cons (le_refl 0) (fun _ => rfl) ?_
      rw [add_zero]
      exact hrest ..

lemma placeLine_placed (hfits : Fits c line) (j : ℕ) (last : Bool) :
    ∃ x, c.xOrigin ≤ x ∧ Placed c y h j x line (placeLine c y h j last line) := by
  refine ⟨_,le_max_right _ _,emitLine_placed hfits.unbroken ?_ j _ _⟩
  split_ifs with hjust
  · -- a line with a space in it has more than one item
    apply Int.tdiv_nonneg _ (Int.natCast_nonneg _)
    rcases hfits.fits with hone | hwide
    · obtain ⟨it,hit,hs⟩ := List.countP_pos_iff.mp hjust.2.1
      obtain ⟨x,rfl⟩ := List.length_eq_one_iff.mp (le_antisymm hone (List.length_pos_of_mem hit))
      have := hfits.tight x rfl
      simp_all
    · omega
  · exact le_refl 0

lemma LayoutItem.box_place {m : ℕ → Bool} {extra : ℤ} (he : 0 ≤ extra) :
    ∀ b ∈ it.box m x y h extra, b.x = x ∧ b.w ≤ it.widthPx + extra := by
  intro b hb
  unfold LayoutItem.box layoutEmitInlineWord emitReplaced at hb
  split at hb <;> (try split_ifs at hb) <;> cases hb <;> exact ⟨rfl,by simp [he]⟩

lemma Placed.right (hp : Placed c y h j x its bs)
    (hw : ∀ it ∈ its, 0 ≤ it.widthPx) : ∀ b ∈ bs, x ≤ b.x := by
  induction hp with
  | nil => simp
  | cons wide hit rest ih =>
    intro b hb
    rcases List.mem_append.mp hb with hb | hb
    · exact ((LayoutItem.box_place wide b (by simpa using hb)).1).ge
    · have h₁ := ih (fun it hit => hw it (List.mem_cons_of_mem _ hit)) b hb
      have h₂ := hw _ List.mem_cons_self
      omega

lemma Placed.apart (hp : Placed c y h j x its bs)
    (hw : ∀ it ∈ its, 0 ≤ it.widthPx) : bs.Pairwise fun a b => a.x + a.w ≤ b.x := by
  induction hp with
  | nil => exact .nil
  | @cons j x extra it its bs wide hit rest ih =>
    have hw' : ∀ it ∈ its, 0 ≤ it.widthPx := fun it hit => hw it (List.mem_cons_of_mem _ hit)
    rw [List.pairwise_append]
    refine ⟨?_,ih hw',?_⟩
    · cases it.box (c.malloc j) x y h extra <;> simp
    · intro a ha b hb
      have h₁ := LayoutItem.box_place wide a (by simpa using ha)
      have h₂ := rest.right hw' b hb
      omega

variable {lines : List LineBox}

/-- Spaces are neither words nor atoms. -/
lemma filter_isSolid_spaces {sp : Items} (spaces : ∀ it ∈ sp, it.isSpace) :
    sp.filter isSolid = [] := by
  rw [List.filter_eq_nil_iff]
  intro it hit hsolid
  simpa [not_isSpace_of_isSolid hsolid] using spaces it hit

lemma LineEnd.solid (he : LineEnd c line its h rest) :
    its.filter isSolid = line.filter isSolid ++ rest.filter isSolid := by
  cases he with
  | last spaces => rw [List.filter_append,filter_isSolid_spaces spaces]; rfl
  | @forced sp rest br spaces hbr =>
    have : br.isSolid = false := by simp [isSolid,hbr]
    rw [List.filter_append,List.filter_append,filter_isSolid_spaces spaces,List.append_nil,
      List.filter_cons_of_neg (by simp [this])]
  | hard => rw [List.filter_append]
  | soft _ spaces => rw [List.filter_append,List.filter_append,filter_isSolid_spaces spaces,List.append_nil]

lemma LineEnd.subset (he : LineEnd c line its h rest) :
    line ⊆ its ∧ rest ⊆ its := by
  cases he with
  | forced =>
    constructor
    · simp
    · intro it hit
      simp [hit]
  | last | hard | soft => simp

/-- Every word and every atom is on exactly one line, in their order. -/
lemma Formatted.solid (hf : Formatted c n y its lines) :
    (lines.flatMap (·.items)).filter isSolid = its.filter isSolid := by
  induction hf with
  | done spaces => exact (filter_isSolid_spaces spaces).symm
  | line spaces first fits ends left placed next ih =>
    rw [List.flatMap_cons,List.filter_append,List.filter_append,ih,filter_isSolid_spaces spaces,List.nil_append,
      ends.solid]

lemma Formatted.apart (hf : Formatted c n y its lines) (hw : ∀ it ∈ its, 0 ≤ it.widthPx) :
    ∀ l ∈ lines, l.boxes.Pairwise fun a b => a.x + a.w ≤ b.x := by
  induction hf with
  | done => simp
  | line spaces first fits ends left placed next ih =>
    intro l hl
    have hw' := fun it hit => hw it (List.mem_append_right _ hit)
    rcases List.mem_cons.mp hl with rfl | hl
    · exact placed.apart fun it hit => hw' it (ends.subset.1 hit)
    · exact ih (fun it hit => hw' it (ends.subset.2 hit)) l hl

/-- A turn of the loop makes a line, and fewer items are left for the next. -/
lemma formatLoop_formatted (c : Container) (n : ℕ) (y : ℤ) {items : Items} (hw : ∀ it ∈ items, 0 ≤ it.widthPx) :
    ∃ lines : List LineBox, Formatted c n y items lines ∧
      ∀ fuel, items.length < fuel → formatLoop c n fuel y items
        = some (lines.flatMap (·.boxes),(lines.map (·.height)).sum) := by
  induction hlen : items.length using Nat.strong_induction_on generalizing items y with
  | _ len ih =>
    have hcut := List.takeWhile_append_dropWhile (p := isSpace) (l := items)
    have hlead : ∀ it ∈ items.takeWhile isSpace, it.isSpace := fun _ hit => List.mem_takeWhile_imp hit
    have hfirst := List.head?_dropWhile_not isSpace items
    generalize hrest : items.dropWhile isSpace = rest at hcut hfirst
    by_cases hnil : rest = []
    · refine ⟨[],.done ?_,?_⟩
      · rw [← hcut,hnil,List.append_nil]
        exact hlead
      · intro fuel hfuel
        cases fuel with
        | zero => exact absurd hfuel (Nat.not_lt_zero _)
        | succ fuel => simp [formatLoop,hrest,hnil]
    · have hwr : ∀ it ∈ rest, 0 ≤ it.widthPx := fun it hit => hw it (by rw [← hcut]; simp [hit])
      have hscan : Stops c ([] ++ rest) (scanLine c.contentW rest ⟨0,0,0,none,0,false⟩) := scanLine_stops
        ⟨rfl,rfl,rfl,.none (by simp),rfl,by simp,.inl (by simp)⟩
      rw [List.nil_append] at hscan
      generalize hs : scanLine c.contentW rest ⟨0,0,0,none,0,false⟩ = s at hscan
      obtain ⟨hfits,hends,hpos⟩ := hscan.lineEnd hnil
        (fun it hit => by simpa [Option.mem_def.mp hit] using hfirst) hwr
      generalize hline : s.line rest = line at hfits hends
      generalize hh : c.lineHeight s.lineH = lineH at hends
      obtain ⟨x,hx,hplaced⟩ := placeLine_placed (y := y) (h := lineH) hfits (n - rest.length) (line.length = rest.length)
      have hshort : (rest.drop s.i).length < len := by
        have h₁ := congrArg List.length hcut
        have h₂ := List.length_pos_iff.mpr hnil
        rw [List.length_append] at h₁
        rw [List.length_drop]
        omega
      obtain ⟨lines,hnext,hrun⟩ := ih _ hshort (y + lineH) (fun it hit => hwr it (List.mem_of_mem_drop hit)) rfl
      refine ⟨⟨line,placeLine c y lineH (n - rest.length) (line.length = rest.length) line,lineH⟩ :: lines,?_,?_⟩
      · rw [← hcut]
        exact .line hlead (fun it hit => by simpa [Option.mem_def.mp hit] using hfirst) hfits hends hx hplaced hnext
      · intro fuel hfuel
        cases fuel with
        | zero => exact absurd hfuel (Nat.not_lt_zero _)
        | succ fuel =>
          have hstuck : ¬(line = [] ∧ s.i = 0) := fun h => hpos.ne' h.2
          simp only [formatLoop,hrest,hs,hline,hh,if_neg hnil,if_neg hstuck,hrun fuel (by omega)]
          simp

/-- The lines of a run of items. -/
theorem layoutInlineFormat_formatted (c : Container) (yOrigin : ℤ) (items : Items) (hw : ∀ it ∈ items, 0 ≤ it.widthPx) :
    ∃ lines : List LineBox,
      (∀ fuel, items.length < fuel → layoutInlineFormat c yOrigin fuel items
        = some (lines.flatMap (·.boxes),(lines.map (·.height)).sum)) ∧
      Formatted c items.length yOrigin items lines ∧
      (lines.flatMap (·.items)).filter isSolid = items.filter isSolid ∧
      ∀ l ∈ lines, l.boxes.Pairwise fun a b => a.x + a.w ≤ b.x := by
  obtain ⟨lines,hf,hrun⟩ := formatLoop_formatted c items.length yOrigin hw
  exact ⟨lines,hrun,hf,hf.solid,hf.apart hw⟩

def piece (kind : ItemKind) (widthPx heightPx : ℤ) : LayoutItem := ⟨kind,[],widthPx,heightPx,none,none,none⟩

def narrow : Container := ⟨none,0,8,fun _ _ => true⟩

def places (items : Items) : Option (List (ℤ × ℤ) × ℤ) :=
  (layoutInlineFormat narrow 0 9 items).map fun r => (r.1.map fun b => (b.x,b.y),r.2)

/-- A line ends at its last soft space although the word after it fits, where the word goes on in an item that does
not, or where the next soft space does not fit. A line that was cut keeps the height of what left it, and one of
height 0 is given another. -/
theorem lines_not_longest :
    (places [piece .word 3 20,piece .space 1 20,piece .word 3 20,piece .word 3 20] = some ([(0,0),(0,20),(3,20)],40) ∧
      width [piece .word 3 20,piece .space 1 20,piece .word 3 20] ≤ 8) ∧
    (places [piece .word 3 20,piece .space 1 20,piece .word 4 20,piece .space 1 20,piece .word 3 20]
        = some ([(0,0),(0,20),(5,20)],40) ∧
      width [piece .word 3 20,piece .space 1 20,piece .word 4 20] ≤ 8) ∧
    places [piece .word 3 20,piece .space 1 20,piece .word 4 50,piece .replaced 2 20]
      = some ([(0,0),(0,50),(4,50)],100) ∧
    places [piece .word 3 0] = some ([(0,0)],16) := by
  decide

theorem layoutInlineFormat_formatted_one :
    ∃ lines : List LineBox,
      layoutInlineFormat narrow 0 2 [piece .word 3 20]
        = some (lines.flatMap (·.boxes),(lines.map (·.height)).sum) ∧
      Formatted narrow 1 0 [piece .word 3 20] lines := by
  obtain ⟨lines,hrun,hf,-⟩ := layoutInlineFormat_formatted narrow 0 [piece .word 3 20] (by decide)
  exact ⟨lines,hrun 2 (by decide),hf⟩

end VibeOS.Css

import VibeOS.Css.Declarations
import VibeOS.Ranking
import Mathlib.Data.List.DropRight
import Mathlib.Data.List.Lex

/-! `layout.h`, the cascade engine: the sheets, the matches of an element, and its style. -/
namespace VibeOS.Css
open VibeOS.Ranking List Option

inductive LayoutOrigin
  | ua | author | user | inline
deriving DecidableEq

def LayoutOrigin.rank : LayoutOrigin → ℕ
  | ua => 0
  | author => 1
  | user => 2
  | inline => 3

structure LayoutEngineSheet where
  ss : Option CssStylesheet
  origin : LayoutOrigin

structure LayoutEngine where
  sheets : List LayoutEngineSheet
  rootFontSizePx : ℤ

def layoutEngineInit : LayoutEngine := ⟨[],16⟩

def layoutEngineAdd (e : LayoutEngine) (ss : Option CssStylesheet) (origin : LayoutOrigin) : LayoutEngine :=
  { e with sheets := e.sheets ++ [⟨ss,origin⟩] }

/-- A rule of the engine, as a pointer to it: the number of its sheet and its own number. -/
structure RulePtr where
  sheet : ℕ
  index : ℕ
  origin : LayoutOrigin
  rule : CssRule
deriving DecidableEq

def LayoutEngine.rules (e : LayoutEngine) : List RulePtr :=
  e.sheets.zipIdx.flatMap fun (s,i) =>
    ((s.ss.map (·.rules)).getD []).zipIdx.map fun (r,j) => ⟨i,j,s.origin,r⟩

structure LayoutMatch where
  rule : RulePtr
  sel : CssChain
deriving DecidableEq

namespace LayoutMatch

variable (m : LayoutMatch)

def specificity : ℕ := cssChainSpecificity m.sel

def origin : LayoutOrigin := m.rule.origin

def sourceOrder : ℕ := m.rule.rule.sourceOrder

end LayoutMatch

def layoutMatchCmp (a b : LayoutMatch) : ℤ :=
  if a.origin ≠ b.origin then (a.origin.rank : ℤ) - b.origin.rank
  else if a.specificity ≠ b.specificity then (a.specificity : ℤ) - b.specificity
  else (a.sourceOrder : ℤ) - b.sourceOrder

def matchCap : ℕ := 256

def DomPath.line (n : DomPath) : List DomNode := n.node :: n.parents

def firstMatch (n : DomPath) (r : RulePtr) : Option LayoutMatch :=
  (r.rule.selectors.find? fun sel => cssMatchChain sel n.line).map fun sel => ⟨r,sel⟩

def collectRule (n : DomPath) (ms : List LayoutMatch) (r : RulePtr) : List LayoutMatch :=
  match firstMatch n r with
  | none => ms
  | some m => if ms.length ≥ matchCap then ms else ms ++ [m]

def layoutCollect (e : LayoutEngine) (n : DomPath) : List LayoutMatch :=
  e.rules.foldl (collectRule n) []

def LayoutEngine.matching (e : LayoutEngine) (n : DomPath) : List LayoutMatch :=
  e.rules.filterMap (firstMatch n)

lemma layoutCollect_eq (e : LayoutEngine) (n : DomPath) :
    layoutCollect e n = (e.matching n).take matchCap := by
  have h (rs : List RulePtr) (ms : List LayoutMatch) :
      rs.foldl (collectRule n) (ms.take matchCap) = (ms ++ rs.filterMap (firstMatch n)).take matchCap := by
    induction rs generalizing ms with
    | nil => simp
    | cons r rs ih =>
      have hstep : collectRule n (ms.take matchCap) r
          = (ms ++ (firstMatch n r).toList).take matchCap := by
        cases hm : firstMatch n r with
        | none => simp [collectRule,hm]
        | some m =>
          simp only [collectRule,hm,length_take,toList_some]
          split
          · rw [take_append_of_le_length (by omega)]
          · rw [take_of_length_le (by omega),take_of_length_le (by simp; omega)]
      rw [foldl_cons,hstep,ih]
      cases hm : firstMatch n r <;> simp [hm]
  have h0 := h e.rules []
  rw [take_nil,nil_append] at h0
  exact h0

/-- What the loop reads up to the next semicolon, with the white space around it trimmed. -/
def inlinePiece (piece : List Char) : Option (List Char × List Char) :=
  let piece := skipWs piece
  let prop := (piece.takeWhile (· ≠ ':')).rdropWhile layIsWs
  match piece.dropWhile (· ≠ ':') with
  | [] => none
  | _ :: r =>
    let value := (skipWs r).rdropWhile layIsWs
    if prop = [] ∨ value = [] then none else some (prop,value)

def inlinePieces (css : List Char) : List (List Char × List Char) :=
  (css.splitOn ';').filterMap inlinePiece

/-- A piece in the buffers `prop` and `val`. -/
def inlineDecl (piece : List Char × List Char) : CssDecl :=
  ⟨(piece.1.take 63).map layLower,piece.2.take 255⟩

/-- The declarations in the order in which `layout_resolve` applies them. -/
def appliedDecls (e : LayoutEngine) (n : DomPath) (css : List Char) : List CssDecl :=
  ((insertionSort layoutMatchCmp (layoutCollect e n)).flatMap fun m => m.rule.rule.decls)
    ++ (inlinePieces css).map inlineDecl

def layoutBase (parent : Option LayoutComputed) : LayoutComputed :=
  layoutComputedInherit layoutComputedInit parent

def parentFontSize (parent : Option LayoutComputed) : ℤ := (parent.map (·.fontSizePx)).getD 16

/-- Without an inline style, `css` is empty. -/
def layoutResolve (e : LayoutEngine) (n : DomPath) (parent : Option LayoutComputed) (css : List Char) :
    Option LayoutComputed :=
  if n.node.type ≠ .element then none
  else some ((appliedDecls e n css).foldl
    (fun c d => layoutApplyDecl c d (parentFontSize parent) e.rootFontSizePx) (layoutBase parent))


/-! The cascade as a law: every setting that the declarations of an element make has a rank, and of
each property the setting of the highest rank counts, at the final font size of the element. -/

open VibeOS.Ranking

abbrev Rank := List ℕ

/-- The rank of a setting of a rule, by origin, specificity, sheet, rule and place in the rule. -/
def ruleRank (r : RulePtr) (c : Counts) (k : ℕ) : Rank :=
  [0,r.origin.rank,c.ids,c.classes,c.types,r.sheet,r.index,k]

/-- The style attribute stands above all sheets. -/
def inlineRank (k : ℕ) : Rank := [1,k]

def Counts.le (c d : Counts) : Prop := [c.ids,c.classes,c.types] ≤ [d.ids,d.classes,d.types]

def Counts.lt (c d : Counts) : Prop := [c.ids,c.classes,c.types] < [d.ids,d.classes,d.types]

def wholeDecl (piece : List Char × List Char) : CssDecl := ⟨piece.1.map layLower,piece.2⟩

section
variable (e : LayoutEngine) (n : DomPath) (parent : Option LayoutComputed) (css : List Char)

def settingsOf (decls : List CssDecl) : List Setting :=
  declSettings (parentFontSize parent) e.rootFontSizePx decls

/-- `sel` is a selector of the rule that matches, with the highest specificity of those. -/
structure Highest (r : CssRule) (sel : CssChain) : Prop where
  mem : sel ∈ r.selectors
  hits : cssMatchChain sel n.line = true
  top : ∀ sel' ∈ r.selectors, cssMatchChain sel' n.line = true → (cssCounts sel').le (cssCounts sel)

/-- The settings for the element with their ranks. -/
inductive Declared : Rank → Setting → Prop
  | rule {r : RulePtr} {sel : CssChain} {k : ℕ} {a : Setting} (hr : r ∈ e.rules)
      (hsel : Highest n r.rule sel) (ha : (settingsOf e parent r.rule.decls)[k]? = some a) :
      Declared (ruleRank r (cssCounts sel) k) a
  | inline {k : ℕ} {a : Setting}
      (ha : (settingsOf e parent ((inlinePieces css).map wholeDecl))[k]? = some a) :
      Declared (inlineRank k) a

/-- No setting of the same property ranks above. -/
structure Winner (p : Rank) (a : Setting) : Prop where
  declared : Declared e n parent css p a
  top : ∀ q b, Declared e n parent css q b → b.field = a.field → q ≤ p

end

/-- The value that a setting means, at the font size of the element. A border width has pixels. -/
def Setting.meant (rootFontSize own : ℤ) : Setting → Datum
  | .borderPx _ len => .px (layResolveLength len 0 own rootFontSize 0)
  | a => a.stored rootFontSize own

/-- The style is the one of the law, and no rule that matches is left out. -/
structure Follows (e : LayoutEngine) (n : DomPath) (parent : Option LayoutComputed) (css : List Char)
    (out : LayoutComputed) : Prop where
  winner : ∀ p a, Winner e n parent css p a →
    out.read a.field = a.meant e.rootFontSizePx out.fontSizePx
  default : ∀ f, (∀ q b, Declared e n parent css q b → b.field ≠ f) →
    out.read f = (layoutBase parent).read f
  used : ∀ r ∈ e.rules, ∀ sel ∈ r.rule.selectors, cssMatchChain sel n.line = true →
    ∃ m ∈ layoutCollect e n, m.rule = r

/-- A line height whose pixels do not come from the font size of the element. -/
def LineHeight.Absolute (rootFontSize : ℤ) (h : LineHeight) : Prop :=
  ∃ len, h = .length len ∧ (len.unit = .px ∨ len.unit = .rem) ∧ 0 < layResolveLength len 0 0 rootFontSize 0

/-- What the cascade of the engine relies on. -/
structure Regular (e : LayoutEngine) (n : DomPath) (parent : Option LayoutComputed) (css : List Char) :
    Prop where
  /-- the array of matches holds them all -/
  few : (e.matching n).length ≤ matchCap
  /-- the first selector of a rule that matches is one of the most specific -/
  first : ∀ m ∈ e.matching n, Highest n m.rule.rule m.sel
  /-- the packed specificities compare as the counts -/
  packed : (e.matching n).Pairwise fun a b => a.origin = b.origin →
    (a.specificity < b.specificity ↔ (cssCounts a.sel).lt (cssCounts b.sel)) ∧
    (b.specificity < a.specificity ↔ (cssCounts b.sel).lt (cssCounts a.sel))
  /-- rules of two sheets that only the order of the sheets tells apart are numbered in that order -/
  sheets : (e.matching n).Pairwise fun a b => a.rule.sheet ≠ b.rule.sheet → a.origin = b.origin →
    a.specificity = b.specificity → a.sourceOrder ≤ b.sourceOrder
  /-- the values of the style attribute fit the buffer -/
  whole : ∀ piece ∈ inlinePieces css, piece.2.length < 256
  /-- no font size is declared above the line height that counts -/
  sized : ∀ p h, Winner e n parent css p (.lineHeight h) →
    h.Absolute e.rootFontSizePx ∨ ∀ q px, Declared e n parent css q (.fontSize px) → q ≤ p
  /-- the border widths that count are in pixels -/
  widths : ∀ p s len, Winner e n parent css p (.borderPx s len) → len.unit = .px ∨ len = ⟨.auto,0⟩

section
variable {root : ℤ} {c : LayoutComputed}

lemma read_foldl_of_none {l : List Setting} {f : Field} (h : ∀ b ∈ l, b.field ≠ f) :
    (l.foldl (Setting.run root) c).read f = c.read f := by
  induction l generalizing c with
  | nil => rfl
  | cons a l ih =>
    rw [foldl_cons,ih fun b hb => h b (mem_cons_of_mem a hb),Setting.read_run,
      if_neg (h a mem_cons_self)]

lemma fontSizePx_foldl {l : List Setting} (h : ∀ b ∈ l, b.field ≠ .fontSize) :
    (l.foldl (Setting.run root) c).fontSizePx = c.fontSizePx := by
  have hread : (l.foldl (Setting.run root) c).read .fontSize = c.read .fontSize := read_foldl_of_none h
  simpa [LayoutComputed.read] using hread

lemma read_foldl_of_last {l l' : List Setting} {a : Setting} (h : ∀ b ∈ l', b.field ≠ a.field) :
    ((l ++ a :: l').foldl (Setting.run root) c).read a.field
      = a.stored root (l.foldl (Setting.run root) c).fontSizePx := by
  rw [foldl_append,foldl_cons,read_foldl_of_none h,Setting.read_run,if_pos rfl]

end

lemma LineHeight.Absolute.px_eq {root : ℤ} {h : LineHeight} (ha : h.Absolute root) (x y : ℤ) :
    h.px root x = h.px root y := by
  obtain ⟨⟨unit,v⟩,rfl,hunit,hpos⟩ := ha
  obtain rfl | rfl : unit = .px ∨ unit = .rem := hunit
  all_goals
    simp only [layResolveLength] at hpos
    simp [LineHeight.px,layResolveLength,Int.not_le.mpr hpos]

def rankedList (p : ℕ → Rank) (l : List Setting) : List (Rank × Setting) :=
  l.zipIdx.map fun x => (p x.2,x.1)

@[simp] lemma rankedList_map_snd (p : ℕ → Rank) (l : List Setting) : (rankedList p l).map (·.2) = l := by
  simp only [rankedList,List.map_map]
  exact zipIdx_map_fst 0 l

lemma mem_rankedList {p : ℕ → Rank} {l : List Setting} {q : Rank} {a : Setting} :
    (q,a) ∈ rankedList p l ↔ ∃ k, l[k]? = some a ∧ q = p k := by
  simp [rankedList,mem_zipIdx_iff_getElem?,eq_comm]

lemma pairwise_zipIdx {α : Type} (l : List α) : l.zipIdx.Pairwise fun x y => x.2 < y.2 := by
  rw [pairwise_iff_getElem]
  intro i j hi hj hij
  simpa using hij

lemma rankedList_pairwise {p : ℕ → Rank} (hp : ∀ i j, i < j → p i < p j) (l : List Setting) :
    (rankedList p l).Pairwise fun x y => x.1 < y.1 :=
  (pairwise_zipIdx l).map _ fun x y h => hp x.2 y.2 h

lemma rules_pairwise (e : LayoutEngine) :
    e.rules.Pairwise fun a b => a.sheet < b.sheet ∨ a.sheet = b.sheet ∧ a.index < b.index := by
  rw [LayoutEngine.rules,pairwise_flatMap]
  constructor
  · rintro ⟨s,i⟩ -
    exact (pairwise_zipIdx _).map _ fun x y h => .inr ⟨rfl,h⟩
  · refine (pairwise_zipIdx e.sheets).imp fun {x y} h a ha b hb => ?_
    obtain ⟨_,-,rfl⟩ := List.mem_map.mp ha
    obtain ⟨_,-,rfl⟩ := List.mem_map.mp hb
    exact .inl h

variable {e : LayoutEngine}

lemma rules_numbered {r : RulePtr} (hr : r ∈ e.rules) : r.rule.sourceOrder = r.index := by
  obtain ⟨⟨s,i⟩,-,hr⟩ := List.mem_flatMap.mp hr
  obtain ⟨⟨r,j⟩,hj,rfl⟩ := List.mem_map.mp hr
  cases hss : s.ss with
  | none => simp [hss] at hj
  | some ss =>
    rw [hss] at hj
    exact ss.numbered j r (List.mem_zipIdx_iff_getElem?.mp hj)

lemma firstMatch_some {n : DomPath} {r : RulePtr} {m : LayoutMatch} (h : firstMatch n r = some m) :
    m.rule = r ∧ m.sel ∈ r.rule.selectors ∧ cssMatchChain m.sel n.line = true := by
  obtain ⟨sel,hsel,rfl⟩ := Option.map_eq_some_iff.mp h
  have hhits := @List.find?_some _ (fun sel => cssMatchChain sel n.line) _ _ hsel
  exact ⟨rfl,mem_of_find?_eq_some hsel,hhits⟩

lemma mem_matching {n : DomPath} {m : LayoutMatch} (h : m ∈ e.matching n) :
    m.rule ∈ e.rules := by
  obtain ⟨r,hr,hm⟩ := List.mem_filterMap.mp h
  rw [(firstMatch_some hm).1]
  exact hr

lemma matching_of_hits {n : DomPath} {r : RulePtr} {sel : CssChain}
    (hr : r ∈ e.rules) (hsel : sel ∈ r.rule.selectors) (hhits : cssMatchChain sel n.line = true) :
    ∃ m ∈ e.matching n, m.rule = r := by
  cases h : firstMatch n r with
  | none =>
    have := List.find?_eq_none.mp (Option.map_eq_none_iff.mp h) sel hsel
    exact absurd hhits this
  | some m => exact ⟨m,List.mem_filterMap.mpr ⟨r,hr,h⟩,(firstMatch_some h).1⟩

lemma matching_pairwise (e : LayoutEngine) (n : DomPath) : (e.matching n).Pairwise fun a b =>
    a.rule.sheet < b.rule.sheet ∨ a.rule.sheet = b.rule.sheet ∧ a.rule.index < b.rule.index := by
  refine (rules_pairwise e).filterMap _ fun r r' h m hm m' hm' => ?_
  rw [(firstMatch_some hm).1,(firstMatch_some hm').1]
  exact h

namespace LayoutMatch

def rank (m : LayoutMatch) (k : ℕ) : Rank := ruleRank m.rule (cssCounts m.sel) k

def Below (a b : LayoutMatch) : Prop := ∀ k k', a.rank k < b.rank k'

lemma Below.trans (a b c : LayoutMatch) (hab : a.Below b) (hbc : b.Below c) : a.Below c :=
  fun k k' => lt_trans (hab k 0) (hbc 0 k')

variable {a b : LayoutMatch}

lemma below_of_origin (h : a.origin.rank < b.origin.rank) : a.Below b := by
  intro k k'
  exact List.cons_lt_cons_iff.mpr (.inr ⟨rfl,List.cons_lt_cons_iff.mpr (.inl h)⟩)

lemma below_of_counts (ho : a.origin = b.origin)
    (h : (cssCounts a.sel).lt (cssCounts b.sel)) : a.Below b := by
  intro k k'
  have ho' : a.rule.origin = b.rule.origin := ho
  simp only [Counts.lt,cons_lt_cons_iff,not_lt_nil,and_false,or_false] at h
  simp only [rank,ruleRank,ho',cons_lt_cons_iff,and_false,or_false,
    lt_self_iff_false,false_or,true_and]
  omega

lemma below_of_place (ho : a.origin = b.origin)
    (hab : ¬(cssCounts a.sel).lt (cssCounts b.sel)) (hba : ¬(cssCounts b.sel).lt (cssCounts a.sel))
    (h : a.rule.sheet < b.rule.sheet ∨ a.rule.sheet = b.rule.sheet ∧ a.rule.index < b.rule.index) :
    a.Below b := by
  intro k k'
  have ho' : a.rule.origin = b.rule.origin := ho
  simp only [Counts.lt,cons_lt_cons_iff,not_lt_nil,and_false,or_false] at hab hba
  simp only [rank,ruleRank,ho',cons_lt_cons_iff,and_false,or_false,
    lt_self_iff_false,false_or,true_and]
  omega

end LayoutMatch

end VibeOS.Css

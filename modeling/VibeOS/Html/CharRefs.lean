import VibeOS.Html.Tokenizer
import Mathlib.Data.List.TakeWhile

/-! Character references: what they stand for, and what the tokenizer writes for them. -/
namespace VibeOS.Html
open List Option Nat

def numeral (hex : Bool) (ds : List Char) : ℕ := ds.foldl (fun v c => v * (if hex then 16 else 10) + (entityDigit hex c).getD 0) 0

def numeralDigits (r : List Char) : List Char :=
  let start := if hexMark r.tail then r.tail.tail else r.tail
  start.takeWhile fun c => (entityDigit (hexMark r.tail) c).isSome

/-- What a reference with `r` behind its `&` stands for, and what follows it; where it is none, the `&`. -/
def charRef (r : List Char) : List Char × List Char :=
  if r.head? = some '#' then
    let start := if hexMark r.tail then r.tail.tail else r.tail
    if numeralDigits r = [] then (['&'],r)
    else ([entityChar (numeral (hexMark r.tail) (numeralDigits r))],swallow ';' (start.drop (numeralDigits r).length))
  else
    match entities.lookup ((r.takeWhile htmIsAlpha).map htmLower) with
    | none => (['&'],r)
    | some text => (text,swallow ';' (r.drop (r.takeWhile htmIsAlpha).length))

def textUnit (c : Char) (s : List Char) : List Char × List Char := if c = '&' then charRef s else ([c],s)

/-- From `s` to `rest` the text, with no character that ends it, is decoded to `out`. -/
inductive Decodes (ends : Char → Bool) : List Char → List Char → List Char → Prop
  | nil (s : List Char) : Decodes ends s [] s
  | cons {c : Char} {s out rest : List Char} (hc : ends c = false) (h : Decodes ends (textUnit c s).2 out rest) :
    Decodes ends (c :: s) ((textUnit c s).1 ++ out) rest

variable {ends : Char → Bool}

lemma Decodes.trans {s t u out out' : List Char} (h : Decodes ends s out t) (h' : Decodes ends t out' u) :
    Decodes ends s (out ++ out') u := by
  induction h with
  | nil s => exact h'
  | cons hc _ ih =>
    rw [append_assoc]
    exact .cons hc (ih h')

lemma Decodes.one {c : Char} (hc : ends c = false) (s : List Char) : Decodes ends (c :: s) (textUnit c s).1 (textUnit c s).2 := by
  have h := Decodes.cons hc (Decodes.nil (textUnit c s).2)
  rw [append_nil] at h
  exact h

def isRefChar (c : Char) : Bool := htmIsAlpha c || ('0' ≤ c && c ≤ '9') || c = '#' || c = ';'

end VibeOS.Html

import VibeOS.Widths

/-! `html.h`: the tokenizer. A position is what is left of the source from it on, so that every read of the source stands behind
its check against `src_len` as a match on that; a write behind the end of an array fails. No loop makes more than `fuel` turns. -/
namespace VibeOS.Html

def htmIsAlpha (c : Char) : Bool := 'a' ≤ c && c ≤ 'z' || 'A' ≤ c && c ≤ 'Z'
def htmIsSpace (c : Char) : Bool := c = ' ' || c = '\t' || c = '\n' || c = '\r' || c = '\x0c'
def htmLower (c : Char) : Char := if 'A' ≤ c ∧ c ≤ 'Z' then Char.ofNat (c.toNat + 32) else c

def store (cap : ℕ) (buf : List Char) (c : Char) : Option (List Char) := if buf.length < cap then some (buf ++ [c]) else none

def tagNameMax : ℕ := 64
def attrNameMax : ℕ := 64
def attrValueMax : ℕ := 512
def dataMax : ℕ := 4096
def maxAttrs : ℕ := 16

def entityDigit (hex : Bool) (c : Char) : Option ℕ :=
  if '0' ≤ c ∧ c ≤ '9' then some (c.toNat - '0'.toNat)
  else if hex = true ∧ 'a' ≤ c ∧ c ≤ 'f' then some (c.toNat - 'a'.toNat + 10)
  else if hex = true ∧ 'A' ≤ c ∧ c ≤ 'F' then some (c.toNat - 'A'.toNat + 10)
  else none

def entityChar (v : ℕ) : Char := if v < 0x80 then Char.ofNat v else if v = 0xA0 then ' ' else '?'

def entities : List (List Char × List Char) :=
  [(['a','m','p'],['&']),(['l','t'],['<']),(['g','t'],['>']),(['q','u','o','t'],['"']),(['a','p','o','s'],['\'']),(['n','b','s','p'],[' ']),
    (['r','a','r','r'],['-','>']),(['l','a','r','r'],['<','-']),(['u','a','r','r'],['^']),(['d','a','r','r'],['v']),
    (['m','d','a','s','h'],['-','-']),(['n','d','a','s','h'],['-']),(['h','e','l','l','i','p'],['.','.','.']),
    (['c','o','p','y'],['(','c',')']),(['r','e','g'],['(','R',')']),(['t','r','a','d','e'],['(','T','M',')']),
    (['l','a','q','u','o'],['<','<']),(['r','a','q','u','o'],['>','>']),(['b','u','l','l'],['*']),(['m','i','d','d','o','t'],['*']),
    (['t','i','m','e','s'],['x']),(['d','i','v','i','d','e'],['/']),(['d','e','g'],['*'])]

def swallow (c : Char) (s : List Char) : List Char := if s.head? = some c then s.tail else s

def hexMark (s : List Char) : Bool := s.head? = some 'x' || s.head? = some 'X'

inductive HtmlTokType
  | none | chars | start | close | comment | doctype | eof
  deriving DecidableEq

structure HtmlAttr where
  name : List Char
  value : List Char
  deriving DecidableEq

structure HtmlToken where
  type : HtmlTokType
  tagName : List Char
  selfClosing : Bool
  attrs : List HtmlAttr
  data : List Char
  deriving DecidableEq

/-- `htm_token_reset` -/
def HtmlToken.reset : HtmlToken := ⟨.none,[],false,[],[]⟩

inductive HtmlState
  | data | rawtext | done
  deriving DecidableEq

/-- The tokenizer at its `pos`. -/
structure HtmlTokenizer where
  rest : List Char
  state : HtmlState
  endsWith : List Char
  deriving DecidableEq

/-- `html_tok_init` -/
def HtmlTokenizer.init (src : List Char) : HtmlTokenizer := ⟨src,.data,[]⟩

/-- `htm_rawtext_end_at` -/
def htmRawtextEndAt (endsWith : List Char) : List Char → Bool
  | a :: b :: q =>
    if a ≠ '<' ∨ b ≠ '/' then false
    else if q.length < endsWith.length then false
    else if (q.take endsWith.length).map htmLower ≠ endsWith then false
    else
      match q.drop endsWith.length with
      | [] => true
      | c :: _ => c = '>' || c = '/' || htmIsSpace c
  | _ => false

end VibeOS.Html

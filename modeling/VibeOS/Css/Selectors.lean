import VibeOS.Widths
import Mathlib.Data.List.Basic

/-! `css.h`: the parsed stylesheets and the selector matcher. -/
namespace VibeOS.Css

inductive DomNodeType
  | document | element | text | comment | doctype
deriving DecidableEq

structure DomAttr where
  name : List Char
  value : Option (List Char)

structure DomNode where
  type : DomNodeType
  tag : List Char
  attrs : List DomAttr

/-- A node with its chain of parents, the nearest first. -/
structure DomPath where
  node : DomNode
  parents : List DomNode

inductive CssSimple
  | universal
  | type (name : List Char)
  | cls (name : List Char)
  | id (name : List Char)
  | pseudoTrue
  | pseudoFalse
deriving DecidableEq

inductive CssComb
  | none | descendant | child
deriving DecidableEq

structure CssCompound where
  simples : List CssSimple
  combinator : CssComb
deriving DecidableEq

/-- The compounds of a selector, the rightmost first. -/
abbrev CssChain := List CssCompound

structure CssDecl where
  property : List Char
  value : List Char
deriving DecidableEq

structure CssRule where
  selectors : List CssChain
  decls : List CssDecl
  sourceOrder : ℕ
deriving DecidableEq

/-- A sheet as `css_parse` leaves it: every rule has the number of the rules before it. -/
structure CssStylesheet where
  rules : List CssRule
  numbered : ∀ (j : ℕ) (r : CssRule), rules[j]? = some r → r.sourceOrder = j

namespace CssStylesheet

/-- `css_init` -/
def init : CssStylesheet := ⟨[],by simp⟩

/-- The end of the loop of `css_parse`, for a block that it has read. -/
def append (ss : CssStylesheet) (selectors : List CssChain) (decls : List CssDecl) : CssStylesheet where
  rules := ss.rules ++ [⟨selectors,decls,ss.rules.length⟩]
  numbered := by
    intro j r h
    rw [List.getElem?_append] at h
    split at h
    · exact ss.numbered j r h
    · obtain ⟨hj,rfl⟩ := List.getElem?_eq_some_iff.mp h
      simp at hj ⊢
      omega

end CssStylesheet

def cssIsWs (c : Char) : Bool :=
  c == ' ' || c == '\t' || c == '\n' || c == '\r' || c == Char.ofNat 12

def cssWords (s : List Char) : List (List Char) := (s.splitOnP cssIsWs).filter (· ≠ [])

def DomNode.attr (n : DomNode) (name : String) : Option (List Char) :=
  (n.attrs.find? (·.name = name.toList)).bind (·.value)

-- the parser makes no selector with an empty class name
def cssNodeHasClass (n : DomNode) (name : List Char) : Bool :=
  n.type = .element ∧ ∃ v ∈ n.attr "class", name ∈ cssWords v

def cssNodeIdEq (n : DomNode) (name : List Char) : Bool :=
  n.type = .element ∧ n.attr "id" = some name

def CssSimple.hits (n : DomNode) : CssSimple → Bool
  | universal => true
  | type name => n.tag = name
  | cls name => cssNodeHasClass n name
  | id name => cssNodeIdEq n name
  | pseudoTrue => true
  | pseudoFalse => false

def cssMatchCompound (cmp : CssCompound) (n : DomNode) : Bool :=
  n.type = .element ∧ cmp.simples.all (·.hits n)

/-- On a node and its parents. A descendant step goes up to every ancestor. -/
def cssMatchChain : CssChain → List DomNode → Bool
  | [] => fun _ => true
  | cmp :: next => fun ns =>
    match ns with
    | [] => false
    | n :: parents =>
      cssMatchCompound cmp n &&
        if next = [] then true
        else if cmp.combinator = .child then parents ≠ [] && cssMatchChain next parents
        else (parents.tails.filter (· ≠ [])).any fun up => cssMatchChain next up

/-- How many simples of the chain are ids, how many classes or pseudos, and how many types. -/
structure Counts where
  ids : ℕ
  classes : ℕ
  types : ℕ

def cssCounts (chain : CssChain) : Counts where
  ids := (chain.map fun p => p.simples.countP fun s => match s with | .id _ => true | _ => false).sum
  classes := (chain.map fun p => p.simples.countP fun s =>
    match s with | .cls _ | .pseudoTrue | .pseudoFalse => true | _ => false).sum
  types := (chain.map fun p => p.simples.countP fun s => match s with | .type _ => true | _ => false).sum

def cssChainSpecificity (chain : CssChain) : ℕ :=
  let n := cssCounts chain
  n.ids*10000 + n.classes*100 + n.types

end VibeOS.Css

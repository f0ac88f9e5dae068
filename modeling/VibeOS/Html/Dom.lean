import VibeOS.Html.Tokenizer
import VibeOS.Libc.Blocks

/-! `dom.h`: the builder. A node stands at its place in the order in which nodes are appended, the document at place 0. A
read of a node that is freed fails. -/
namespace VibeOS.DomBuilder
open VibeOS.Html VibeOS.Libc

structure DomStr where
  block : ℕ
  chars : List Char

/-- A string up to its first NUL. -/
def cstr (s : List Char) : List Char := s.takeWhile (· ≠ '\x00')

/-- `dom_streq` -/
def domStreq (a b : List Char) : Bool := cstr a = cstr b

/-- `dom_strdup_n` -/
def domStrdupN (s : List Char) (h : Heap) : Option DomStr × Heap :=
  match h.malloc with
  | (none,h) => (none,h)
  | (some b,h) => (some ⟨b,s⟩,h)

def htmlTag : List Char := ['h','t','m','l']
def headTag : List Char := ['h','e','a','d']
def bodyTag : List Char := ['b','o','d','y']

/-- `dom_is_void_tag` -/
def domIsVoidTag (tag : List Char) : Bool :=
  [['b','r'],['i','m','g'],['m','e','t','a'],['l','i','n','k'],['i','n','p','u','t'],['h','r'],['w','b','r'],['a','r','e','a'],['b','a','s','e'],
    ['c','o','l'],['e','m','b','e','d'],['s','o','u','r','c','e'],['t','r','a','c','k']].any (domStreq tag)

/-- `dom_is_head_only_tag` -/
def domIsHeadOnlyTag (tag : List Char) : Bool :=
  [['m','e','t','a'],['l','i','n','k'],['b','a','s','e'],['t','i','t','l','e'],['s','t','y','l','e'],['s','c','r','i','p','t']].any (domStreq tag)

inductive DomNodeType
  | document | element | text | comment | doctype
  deriving DecidableEq

structure DomAttr where
  block : ℕ
  name : DomStr
  value : DomStr

structure DomNode where
  block : ℕ
  type : DomNodeType
  tag : Option DomStr
  text : Option DomStr
  attrs : List DomAttr
  parent : Option ℕ
  firstChild : Option ℕ
  lastChild : Option ℕ
  nextSibling : Option ℕ

/-- The blocks of a node, as `dom_node_free` frees them. -/
def DomAttr.blocks (a : DomAttr) : List ℕ := [a.name.block,a.value.block,a.block]

def DomNode.blocks (n : DomNode) : List ℕ := n.tag.toList.map (·.block) ++ n.text.toList.map (·.block) ++ n.attrs.flatMap DomAttr.blocks ++ [n.block]

/-- `dom_node_new` -/
def domNodeNew (block : ℕ) (type : DomNodeType) : DomNode := ⟨block,type,none,none,[],none,none,none,none⟩

/-- `dom_node_append_child`, of a node that has not been appended before. -/
def domNodeAppendChild (nodes : List DomNode) (p : ℕ) (child : DomNode) : List DomNode :=
  let n := nodes.length
  let nodes' :=
    match (nodes[p]?).bind DomNode.lastChild with
    | some l => nodes.modify l fun s => { s with nextSibling := some n }
    | none => nodes.modify p fun s => { s with firstChild := some n }
  nodes'.modify p (fun s => { s with lastChild := some n }) ++ [{ child with parent := some p }]

def nodeWith (s : List Char) (h : Heap) : Option (Option (ℕ × DomStr) × Heap) :=
  match h.malloc with
  | (none,h) => some (none,h)
  | (some b,h) =>
    match domStrdupN s h with
    | (none,h) => (h.free b).map fun h => (none,h)
    | (some s,h) => some (some (b,s),h)

def makeAttr (src : HtmlAttr) (h : Heap) : Option (Option DomAttr × Heap) :=
  match h.malloc with
  | (none,h) => some (none,h)
  | (some a,h) =>
    let name := domStrdupN src.name h
    let value := domStrdupN src.value name.2
    match name.1,value.1 with
    | some n,some v => some (some ⟨a,n,v⟩,value.2)
    | n,v => (freeAll (n.toList.map (·.block) ++ v.toList.map (·.block) ++ [a]) value.2).map fun h => (none,h)

/-- The attributes of a token behind those a node has; where `merge` is set, only those it does not have. -/
def addAttrs (merge : Bool) : List HtmlAttr → List DomAttr → Heap → Option (List DomAttr × Bool × Heap)
  | [],as,h => some (as,true,h)
  | src :: rest,as,h =>
    if merge = true ∧ as.any (fun a => cstr a.name.chars = src.name) = true then addAttrs merge rest as h
    else (makeAttr src h).bind fun r =>
      match r.1 with
      | none => some (as,false,r.2)
      | some a => addAttrs merge rest (as ++ [a]) r.2

/-- `dom_make_element` -/
def domMakeElement (t : HtmlToken) (h : Heap) : Option (Option DomNode × Heap) :=
  (nodeWith t.tagName h).bind fun r =>
    match r.1 with
    | none => some (none,r.2)
    | some (b,tag) =>
      (addAttrs false t.attrs [] r.2).bind fun q =>
        let n := { domNodeNew b .element with tag := some tag, attrs := q.1 }
        if q.2.1 then some (some n,q.2.2) else (freeAll n.blocks q.2.2).map fun h => (none,h)

structure Dom where
  nodes : List DomNode
  html : Option ℕ
  head : Option ℕ
  body : Option ℕ
  nNodes : ℕ
  /-- The last opened first. -/
  openStack : List ℕ
  heap : Heap

def openStackMax : ℕ := 64

/-- `dom_top` -/
def domTop (d : Dom) : ℕ := d.openStack.head?.getD 0

/-- `dom_push` -/
def domPush (n : ℕ) (d : Dom) : Dom × Bool := if openStackMax ≤ d.openStack.length then (d,false) else ({ d with openStack := n :: d.openStack },true)

def DomNode.isNamed (name : List Char) (n : DomNode) : Bool := n.type = .element && n.tag.any fun tag => domStreq tag.chars name

def isElement (nodes : List DomNode) (name : List Char) (i : ℕ) : Bool := (nodes[i]?).any (DomNode.isNamed name)

/-- `dom_find_open`: the open elements from the one of that name down. -/
def domFindOpen (d : Dom) (name : List Char) : List ℕ := d.openStack.dropWhile fun i => !isElement d.nodes name i

/-- Pops the open elements down to the one of that name, and with it, where there is one. -/
def popThrough (name : List Char) (d : Dom) : Dom :=
  match domFindOpen d name with
  | [] => d
  | _ :: below => { d with openStack := below }

def popAbove (name : List Char) (d : Dom) : Dom :=
  match domFindOpen d name with
  | [] => d
  | i :: below => { d with openStack := i :: below }

def append (p : ℕ) (n : DomNode) (d : Dom) : Dom := { d with nodes := domNodeAppendChild d.nodes p n, nNodes := d.nNodes + 1 }

/-- The rest of a function behind a call that may return -1. -/
def andThen (r : Option (Dom × Bool)) (f : Dom → Option (Dom × Bool)) : Option (Dom × Bool) := r.bind fun r => if r.2 then f r.1 else some r

/-- An element the page did not write, under `p` and open. -/
def openImplicit (name : List Char) (set : ℕ → Dom → Dom) (p : ℕ) (d : Dom) : Option (Dom × Bool) :=
  (nodeWith name d.heap).map fun r =>
    match r.1 with
    | none => ({ d with heap := r.2 },false)
    | some (b,tag) =>
      domPush d.nodes.length (set d.nodes.length (append p { domNodeNew b .element with tag := some tag } { d with heap := r.2 }))

def domEnsureHtml (d : Dom) : Option (Dom × Bool) :=
  if d.html.isSome then some (d,true) else openImplicit htmlTag (fun i d => { d with html := some i }) 0 d

def domEnsureHead (d : Dom) : Option (Dom × Bool) :=
  if d.head.isSome then some (d,true)
  else andThen (domEnsureHtml d) fun d => openImplicit headTag (fun i d => { d with head := some i }) (d.html.getD 0) d

def domEnsureBody (d : Dom) : Option (Dom × Bool) :=
  if d.body.isSome then some (d,true)
  else andThen (domEnsureHtml d) fun d => openImplicit bodyTag (fun i d => { d with body := some i }) (d.html.getD 0) (popThrough headTag d)

/-- `dom_merge_attrs` -/
def domMergeAttrs (i : ℕ) (t : HtmlToken) (d : Dom) : Option (Dom × Bool) :=
  match d.nodes[i]? with
  | none => none
  | some n =>
    (addAttrs true t.attrs n.attrs d.heap).map fun r =>
      ({ d with nodes := d.nodes.modify i fun n => { n with attrs := r.1 }, heap := r.2.2 },r.2.1)

def insertElement (t : HtmlToken) (d : Dom) : Option (Dom × Bool) :=
  (domMakeElement t d.heap).map fun r =>
    match r.1 with
    | none => ({ d with heap := r.2 },false)
    | some e =>
      if domIsVoidTag t.tagName || t.selfClosing then (append (domTop d) e { d with heap := r.2 },true)
      else domPush d.nodes.length (append (domTop d) e { d with heap := r.2 })

/-- The insertion point is the document, the html or the head element. -/
def atSkeleton (d : Dom) : Bool := domTop d = 0 || some (domTop d) = d.html || some (domTop d) = d.head

def domHandleStart (t : HtmlToken) (d : Dom) : Option (Dom × Bool) :=
  if domStreq t.tagName htmlTag then andThen (domEnsureHtml d) fun d => domMergeAttrs (d.html.getD 0) t d
  else if domStreq t.tagName headTag then andThen (domEnsureHead d) fun d => domMergeAttrs (d.head.getD 0) t d
  else if domStreq t.tagName bodyTag then andThen (domEnsureBody d) fun d => domMergeAttrs (d.body.getD 0) t d
  else if domIsHeadOnlyTag t.tagName then andThen (domEnsureHead d) fun d => insertElement t (if d.body.isNone then popAbove headTag d else d)
  else andThen (if atSkeleton d then domEnsureBody d else some (d,true)) (insertElement t)

def domHandleEnd (t : HtmlToken) (d : Dom) : Dom := popThrough t.tagName d

/-- A text, comment or doctype node under `p`. -/
def insertText (type : DomNodeType) (p : ℕ) (t : HtmlToken) (d : Dom) : Option (Dom × Bool) :=
  (nodeWith t.data d.heap).map fun r =>
    match r.1 with
    | none => ({ d with heap := r.2 },false)
    | some (b,text) => (append p { domNodeNew b type with text := some text } { d with heap := r.2 },true)

def isBlank (s : List Char) : Bool := s.all fun c => c = ' ' || c = '\t' || c = '\n' || c = '\r'

def domHandleChars (t : HtmlToken) (d : Dom) : Option (Dom × Bool) :=
  if domTop d = 0 ∨ some (domTop d) = d.html then
    if isBlank t.data then some (d,true) else andThen (domEnsureBody d) fun d => insertText .text (domTop d) t d
  else insertText .text (domTop d) t d

def domStep (t : HtmlToken) (d : Dom) : Option (Dom × Bool) :=
  match t.type with
  | .chars => domHandleChars t d
  | .start => domHandleStart t d
  | .close => some (domHandleEnd t d,true)
  | .comment => insertText .comment (domTop d) t d
  | .doctype => insertText .doctype 0 t d
  | .none => some (d,true)
  | .eof => some (d,true)

/-- `dom_build`, over the tokens of the tokenizer. -/
def domBuild : List HtmlToken → Dom → Option (Dom × Bool)
  | [],d => some (d,true)
  | t :: ts,d => if t.type = .none ∨ t.type = .eof then some (d,true) else andThen (domStep t d) (domBuild ts)

/-- `dom_init` -/
def domInit (h : Heap) : Option Dom × Heap :=
  match h.malloc with
  | (none,h) => (none,h)
  | (some b,h) => (some ⟨[domNodeNew b .document],none,none,none,1,[],h⟩,h)

/-- `dom_node_free` on a node and those behind it in the list of children. -/
def domFreeList (nodes : List DomNode) : ℕ → Option ℕ → Heap → Option Heap
  | _,none,h => some h
  | 0,some _,_ => none
  | fuel+1,some c,h =>
    match nodes[c]? with
    | none => none
    | some n =>
      if n.block ∈ h.live then
        (domFreeList nodes fuel n.firstChild h).bind fun h => (freeAll n.blocks h).bind (domFreeList nodes fuel n.nextSibling)
      else none

/-- `dom_destroy`: what is left of the heap. -/
def domDestroy (d : Dom) : Option Heap :=
  match d.nodes[0]? with
  | none => none
  | some n =>
    if n.block ∈ d.heap.live then (domFreeList d.nodes d.nodes.length n.firstChild d.heap).bind (freeAll n.blocks) else none

end VibeOS.DomBuilder

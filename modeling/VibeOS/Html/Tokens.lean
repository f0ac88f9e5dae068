import VibeOS.Html.Tags

/-! The tokens of a source: inside their arrays, forward at every call, and with all of the text. -/
namespace VibeOS.Html
open List Option

def rawText (endsWith : List Char) : List Char → List Char
  | [] => []
  | c :: s => if htmRawtextEndAt endsWith (c :: s) then [] else c :: rawText endsWith s

structure HtmlToken.Bounded (t : HtmlToken) : Prop where
  tagName : t.tagName.length < tagNameMax
  attrs : t.attrs.length ≤ maxAttrs
  values : ∀ a ∈ t.attrs, a.Bounded
  data : t.data.length ≤ dataMax

def Sane (tz : HtmlTokenizer) : Prop := tz.state = .rawtext → ∃ c cs, tz.endsWith = c :: cs ∧ htmIsAlpha c = true

/-- The token of a call and where it leaves the tokenizer: forward, inside the arrays, and with all the text passed over. -/
structure Advance (tz : HtmlTokenizer) (r : HtmlTokenizer × HtmlToken) : Prop where
  suffix : r.1.rest <:+ tz.rest
  shorter : r.1.rest.length < tz.rest.length
  bounded : r.2.Bounded
  goesOn : r.2.type ≠ .eof ∧ r.1.state ≠ .done
  sane : Sane r.1
  text : tz.state = .data → r.2.type = .chars → Decodes (fun _ => false) tz.rest r.2.data r.1.rest
  raw : tz.state = .rawtext → r.2.type = .chars → r.2.data = rawText tz.endsWith tz.rest ∧ tz.rest = r.2.data ++ r.1.rest

lemma HtmlToken.Bounded.plain {t : HtmlToken} (htag : t.tagName = []) (hattrs : t.attrs = []) (hdata : t.data.length ≤ dataMax) : t.Bounded :=
  ⟨by rw [htag]; decide,by rw [hattrs]; exact Nat.zero_le _,by rw [hattrs]; exact nofun,hdata⟩

variable {tz : HtmlTokenizer}

structure HtmlCall where
  before : HtmlTokenizer
  token : HtmlToken
  after : HtmlTokenizer

inductive Chain : HtmlTokenizer → List HtmlCall → HtmlTokenizer → Prop
  | nil (tz : HtmlTokenizer) : Chain tz [] tz
  | cons {e : HtmlCall} {es : List HtmlCall} {tz : HtmlTokenizer} (h : Chain e.after es tz) : Chain e.before (e :: es) tz

lemma Chain.split {tz tz' : HtmlTokenizer} {es es' : List HtmlCall} (h : Chain tz (es ++ es') tz') : ∃ mid, Chain tz es mid ∧ Chain mid es' tz' := by
  induction es generalizing tz with
  | nil => exact ⟨tz,.nil tz,h⟩
  | cons e es ih =>
    cases h with
    | cons h =>
      obtain ⟨mid,hleft,hright⟩ := ih h
      exact ⟨mid,.cons hleft,hright⟩

lemma Chain.text {tz tz' : HtmlTokenizer} {es : List HtmlCall} (h : Chain tz es tz') (hadv : ∀ e ∈ es, Advance e.before (e.after,e.token))
    (htext : ∀ e ∈ es, e.before.state = .data ∧ e.token.type = .chars) :
    Decodes (fun _ => false) tz.rest (es.flatMap fun e => e.token.data) tz'.rest := by
  induction h with
  | nil tz => exact .nil _
  | @cons e es tz _ ih =>
    obtain ⟨hstate,hchars⟩ := htext e mem_cons_self
    exact ((hadv e mem_cons_self).text hstate hchars).trans
      (ih (fun e he => hadv e (mem_cons_of_mem _ he)) fun e he => htext e (mem_cons_of_mem _ he))

end VibeOS.Html

import VibeOS.Html.CharRefs

/-! The names, values and attributes of tags. -/
namespace VibeOS.Html
open List Option Bool

/-- What ends a value is no part of a reference. -/
def Quiet (ends : Char → Bool) : Prop := ∀ c, isRefChar c = true ∨ c = '&' → ends c = false

variable {fuel : ℕ}

variable {s : List Char}

structure HtmlAttr.Bounded (a : HtmlAttr) : Prop where
  name : a.name.length < attrNameMax
  value : a.value.length < attrValueMax

end VibeOS.Html

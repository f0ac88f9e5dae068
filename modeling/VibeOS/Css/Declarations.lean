import VibeOS.Css.Values

/-! `layout.h`: the computed style of an element and what a declaration does to it. -/
namespace VibeOS.Css

/-- The properties of a style, shorthands taken apart. -/
inductive Field
  | display | fontWeight | fontStyle | fontSize | textAlign | textDecoration | whiteSpace | listStyle
  | lineHeight | width | height | color | background
  | margin (s : Side) | padding (s : Side) | borderPx (s : Side) | borderColor (s : Side)
deriving DecidableEq

/-- The value of a property. -/
inductive Datum
  | display (d : LayoutDisplay)
  | fontWeight (w : FontWeight)
  | fontStyle (s : FontStyle)
  | textAlign (a : TextAlign)
  | textDecoration (mask : ℕ)
  | whiteSpace (w : WhiteSpace)
  | listStyle (l : ListStyle)
  | px (v : ℤ)
  | length (len : LayoutLength)
  | color (c : Color)
deriving DecidableEq

structure LayoutComputed where
  display : LayoutDisplay
  fontWeight : FontWeight
  fontStyle : FontStyle
  fontSizePx : ℤ
  textAlign : TextAlign
  textDecoration : ℕ
  whiteSpace : WhiteSpace
  listStyle : ListStyle
  lineHeightPx : ℤ
  width : LayoutLength
  height : LayoutLength
  margin : Sides LayoutLength
  padding : Sides LayoutLength
  borderPx : Sides ℤ
  borderColor : Sides Color
  color : Color
  background : Color
  centerBlockChildren : Bool
  textAlignCenterInherit : Bool
deriving DecidableEq

def LayoutComputed.read (c : LayoutComputed) : Field → Datum
  | .display => .display c.display
  | .fontWeight => .fontWeight c.fontWeight
  | .fontStyle => .fontStyle c.fontStyle
  | .fontSize => .px c.fontSizePx
  | .textAlign => .textAlign c.textAlign
  | .textDecoration => .textDecoration c.textDecoration
  | .whiteSpace => .whiteSpace c.whiteSpace
  | .listStyle => .listStyle c.listStyle
  | .lineHeight => .px c.lineHeightPx
  | .width => .length c.width
  | .height => .length c.height
  | .color => .color c.color
  | .background => .color c.background
  | .margin s => .length (c.margin.get s)
  | .padding s => .length (c.padding.get s)
  | .borderPx s => .px (c.borderPx.get s)
  | .borderColor s => .color (c.borderColor.get s)

def layoutComputedInit : LayoutComputed :=
  let zero : LayoutLength := ⟨.px,0⟩
  { display := .inline, fontWeight := .normal, fontStyle := .normal, fontSizePx := 16,
    textAlign := .left, textDecoration := 0, whiteSpace := .normal, listStyle := .disc,
    lineHeightPx := 0, width := ⟨.auto,0⟩, height := ⟨.auto,0⟩,
    margin := ⟨zero,zero,zero,zero⟩, padding := ⟨zero,zero,zero,zero⟩,
    borderPx := ⟨0,0,0,0⟩, borderColor := ⟨black,black,black,black⟩,
    color := black, background := transparent,
    centerBlockChildren := false, textAlignCenterInherit := false }

def layoutComputedInherit (child : LayoutComputed) (parent : Option LayoutComputed) : LayoutComputed :=
  match parent with
  | none => child
  | some p => { child with
      color := p.color, fontWeight := p.fontWeight, fontStyle := p.fontStyle,
      fontSizePx := p.fontSizePx, textAlign := p.textAlign, textDecoration := p.textDecoration,
      whiteSpace := p.whiteSpace, listStyle := p.listStyle, lineHeightPx := p.lineHeightPx,
      textAlignCenterInherit := p.textAlignCenterInherit }

/-- A value of `line-height`, before the font size is known. -/
inductive LineHeight
  | number (centi : ℤ)
  | length (len : LayoutLength)
deriving DecidableEq

def LineHeight.px (rootFontSize fontSize : ℤ) : LineHeight → ℤ
  | number centi => (toInt (fontSize*centi)).tdiv 100
  | length len =>
    let px := layResolveLength len fontSize fontSize rootFontSize ((toInt (fontSize*12)).tdiv 10)
    if px ≤ 0 then fontSize else px

/-- One write of `layout_apply_decl` to the style. -/
inductive Setting
  | display (d : LayoutDisplay)
  | fontWeight (w : FontWeight)
  | fontStyle (s : FontStyle)
  | fontSize (px : ℤ)
  | textAlign (a : TextAlign)
  | textDecoration (mask : ℕ)
  | whiteSpace (w : WhiteSpace)
  | listStyle (l : ListStyle)
  | lineHeight (h : LineHeight)
  | width (len : LayoutLength)
  | height (len : LayoutLength)
  | color (c : Color)
  | background (c : Color)
  | margin (s : Side) (len : LayoutLength)
  | padding (s : Side) (len : LayoutLength)
  | borderPx (s : Side) (len : LayoutLength)
  | borderColor (s : Side) (c : Color)
deriving DecidableEq

namespace Setting

def field : Setting → Field
  | display _ => .display
  | fontWeight _ => .fontWeight
  | fontStyle _ => .fontStyle
  | fontSize _ => .fontSize
  | textAlign _ => .textAlign
  | textDecoration _ => .textDecoration
  | whiteSpace _ => .whiteSpace
  | listStyle _ => .listStyle
  | lineHeight _ => .lineHeight
  | width _ => .width
  | height _ => .height
  | color _ => .color
  | background _ => .background
  | margin s _ => .margin s
  | padding s _ => .padding s
  | borderPx s _ => .borderPx s
  | borderColor s _ => .borderColor s

/-- The line height is taken at the font size of the moment, and of a border width the number is
taken without its unit. -/
def run (rootFontSize : ℤ) (c : LayoutComputed) : Setting → LayoutComputed
  | display d => { c with display := d }
  | fontWeight w => { c with fontWeight := w }
  | fontStyle s => { c with fontStyle := s }
  | fontSize px => { c with fontSizePx := px }
  | textAlign a => { c with textAlign := a }
  | textDecoration mask => { c with textDecoration := mask }
  | whiteSpace w => { c with whiteSpace := w }
  | listStyle l => { c with listStyle := l }
  | lineHeight h => { c with lineHeightPx := h.px rootFontSize c.fontSizePx }
  | width len => { c with width := len }
  | height len => { c with height := len }
  | color col => { c with color := col }
  | background col => { c with background := col }
  | margin s len => { c with margin := c.margin.set s len }
  | padding s len => { c with padding := c.padding.set s len }
  | borderPx s len => { c with borderPx := c.borderPx.set s len.v }
  | borderColor s col => { c with borderColor := c.borderColor.set s col }

/-- What a setting leaves in its field, at a font size. -/
def stored (rootFontSize own : ℤ) : Setting → Datum
  | display d => .display d
  | fontWeight w => .fontWeight w
  | fontStyle s => .fontStyle s
  | fontSize px => .px px
  | textAlign a => .textAlign a
  | textDecoration mask => .textDecoration mask
  | whiteSpace w => .whiteSpace w
  | listStyle l => .listStyle l
  | lineHeight h => .px (h.px rootFontSize own)
  | width len => .length len
  | height len => .length len
  | color col => .color col
  | background col => .color col
  | margin _ len => .length len
  | padding _ len => .length len
  | borderPx _ len => .px len.v
  | borderColor _ col => .color col

lemma read_run (root : ℤ) (c : LayoutComputed) (a : Setting) (f : Field) :
    (a.run root c).read f = if a.field = f then a.stored root c.fontSizePx else c.read f := by
  cases a <;> cases f <;> simp [run,LayoutComputed.read,field,stored] <;> split_ifs <;> rfl

end Setting

/-- The words of `font` up to the family. The `px` of `lay_resolve_length` is that of `font-size`. -/
def fontSettings (parentFontSize rootFontSize : ℤ) : List (List Char) → List Setting
  | [] => []
  | tok :: rest =>
    let tok := tok.take 63
    match layParseFontWeight tok with
    | some w => .fontWeight w :: fontSettings parentFontSize rootFontSize rest
    | none => match layParseFontStyle tok with
      | some st => .fontStyle st :: fontSettings parentFontSize rootFontSize rest
      | none => match layParseLength tok with
        | some len =>
          let px := layResolveLength len parentFontSize parentFontSize rootFontSize parentFontSize
          if 0 < px then .fontSize px :: fontSettings parentFontSize rootFontSize rest else []
        | none => []

/-- `font-size` -/
def fontSizeSetting (parentFontSize rootFontSize : ℤ) (len : LayoutLength) : Setting :=
  let px := layResolveLength len parentFontSize parentFontSize rootFontSize parentFontSize
  .fontSize (if px ≤ 0 then 1 else px)

/-- `line-height` -/
def layParseLineHeight (value : List Char) : Option LineHeight :=
  match layParseCenti value with
  | some (centi,r) => if skipWs r = [] then some (.number centi) else (layParseLength value).map .length
  | none => (layParseLength value).map .length

def borderSettings (w : ℤ) (col : Color) (s : Side) : List Setting :=
  [.borderPx s ⟨.px,w⟩,.borderColor s col]

def ignoredProperties : List String :=
  ["font-family","cursor","outline","outline-color","outline-width","box-sizing","position","float",
   "clear","overflow","overflow-x","overflow-y","z-index","visibility","vertical-align",
   "border-radius","border-collapse","border-spacing","min-width","max-width","min-height",
   "max-height","opacity","transition","transform"]

/-- The writes of `layout_apply_decl`, in their order; nothing where it returns 0. -/
def layoutDecl (prop value : List Char) (parentFontSize rootFontSize : ℤ) : Option (List Setting) :=
  let named (names : List String) : Bool := names.any fun k => layStreqCi prop k.toList
  let one {α : Type} (v : Option α) (set : α → Setting) : Option (List Setting) := v.map fun x => [set x]
  let each (v : Option (Sides LayoutLength)) (set : Side → LayoutLength → Setting) :=
    v.map fun x => Side.all.map fun s => set s (x.get s)
  if named ["font-size"] then one (layParseLength value) (fontSizeSetting parentFontSize rootFontSize)
  else if named ["color"] then one (layParseColor value) .color
  else if named ["background","background-color"] then one (layParseColor value) .background
  else if named ["display"] then one (layParseDisplay value) .display
  else if named ["font-weight"] then one (layParseFontWeight value) .fontWeight
  else if named ["font-style"] then one (layParseFontStyle value) .fontStyle
  else if named ["text-align"] then one (layParseTextAlign value) .textAlign
  else if named ["text-decoration","text-decoration-line"] then
    some [.textDecoration (layParseTextDecoration value)]
  else if named ["white-space"] then one (layParseWhiteSpace value) .whiteSpace
  else if named ["list-style","list-style-type"] then one (layParseListStyle value) .listStyle
  else if named ["line-height"] then one (layParseLineHeight value) .lineHeight
  else if named ["width"] then one (layParseLength value) .width
  else if named ["height"] then one (layParseLength value) .height
  else if named ["margin"] then each (layParseTrblLengths value) .margin
  else if named ["padding"] then each (layParseTrblLengths value) .padding
  else if named ["margin-top"] then one (layParseLength value) (.margin .top)
  else if named ["margin-right"] then one (layParseLength value) (.margin .right)
  else if named ["margin-bottom"] then one (layParseLength value) (.margin .bot)
  else if named ["margin-left"] then one (layParseLength value) (.margin .left)
  else if named ["padding-top"] then one (layParseLength value) (.padding .top)
  else if named ["padding-right"] then one (layParseLength value) (.padding .right)
  else if named ["padding-bottom"] then one (layParseLength value) (.padding .bot)
  else if named ["padding-left"] then one (layParseLength value) (.padding .left)
  else if named ["border"] then
    (layParseBorderShorthand value).map fun (w,col) => Side.all.flatMap (borderSettings w col)
  else if named ["border-top"] then
    (layParseBorderShorthand value).map fun (w,col) => borderSettings w col .top
  else if named ["border-right"] then
    (layParseBorderShorthand value).map fun (w,col) => borderSettings w col .right
  else if named ["border-bottom"] then
    (layParseBorderShorthand value).map fun (w,col) => borderSettings w col .bot
  else if named ["border-left"] then
    (layParseBorderShorthand value).map fun (w,col) => borderSettings w col .left
  else if named ["border-width"] then each (layParseTrblLengths value) .borderPx
  else if named ["border-color"] then
    (layParseColor value).map fun col => Side.all.map fun s => .borderColor s col
  else if named ["border-top-width"] then one (layParseLength value) (.borderPx .top)
  else if named ["border-right-width"] then one (layParseLength value) (.borderPx .right)
  else if named ["border-bottom-width"] then one (layParseLength value) (.borderPx .bot)
  else if named ["border-left-width"] then one (layParseLength value) (.borderPx .left)
  else if named ["font"] then
    match cssWords value with
    | [] => none
    | tokens => some (fontSettings parentFontSize rootFontSize tokens)
  else if named ignoredProperties then some []
  else none

def declSettings (parentFontSize rootFontSize : ℤ) (decls : List CssDecl) : List Setting :=
  decls.flatMap fun d => (layoutDecl d.property d.value parentFontSize rootFontSize).getD []

def layoutApplyDecl (c : LayoutComputed) (d : CssDecl) (parentFontSize rootFontSize : ℤ) :
    LayoutComputed :=
  ((layoutDecl d.property d.value parentFontSize rootFontSize).getD []).foldl (Setting.run rootFontSize) c

lemma foldl_layoutApplyDecl (c : LayoutComputed) (decls : List CssDecl) (parentFontSize root : ℤ) :
    decls.foldl (fun c d => layoutApplyDecl c d parentFontSize root) c
      = (declSettings parentFontSize root decls).foldl (Setting.run root) c := by
  simp only [declSettings,List.foldl_flatMap,layoutApplyDecl]

end VibeOS.Css

import VibeOS.Css.Selectors
import Mathlib.Algebra.Order.Ring.Int

/-! `layout.h`, the value parsers of the cascade. A C string is the list of its characters. -/
namespace VibeOS.Css

/-- A result of `int` arithmetic. -/
def toInt (z : ℤ) : ℤ := z.bmod (2^32)

def layLower (c : Char) : Char := if 'A' ≤ c ∧ c ≤ 'Z' then Char.ofNat (c.toNat + 32) else c

def layStreqCi (a b : List Char) : Bool := a.map layLower == b.map layLower

abbrev layIsWs : Char → Bool := cssIsWs

def layIsDigit (c : Char) : Bool := '0' ≤ c && c ≤ '9'

def layIsHex (c : Char) : Bool :=
  layIsDigit c || ('a' ≤ c && c ≤ 'f') || ('A' ≤ c && c ≤ 'F')

def layHexDigit (c : Char) : ℕ :=
  if layIsDigit c then c.toNat - '0'.toNat
  else if 'a' ≤ c ∧ c ≤ 'f' then c.toNat - 'a'.toNat + 10
  else if 'A' ≤ c ∧ c ≤ 'F' then c.toNat - 'A'.toNat + 10
  else 0

def skipWs (s : List Char) : List Char := s.dropWhile layIsWs

def digitsValue (ds : List Char) : ℤ := ds.foldl (fun v c => v*10 + (c.toNat - '0'.toNat : ℕ)) 0

def laySign : List Char → ℤ × List Char
  | '-' :: s => (-1,s)
  | '+' :: s => (1,s)
  | s => (1,s)

/-- The number and the rest. `long` wraps to the same `int`. -/
def layParseInt (s : List Char) : Option (ℤ × List Char) :=
  let (sign,s) := laySign s
  let ds := s.takeWhile layIsDigit
  if ds = [] then none else some (toInt (digitsValue ds * sign),s.dropWhile layIsDigit)

def centiFraction (ds : List Char) : ℤ :=
  let frac := digitsValue ds
  match ds.length with
  | 1 => frac*10
  | 2 => frac
  | 3 => (frac + 5)/10
  | 4 => (frac + 50)/100
  | _ => 0

def layParseCenti (s : List Char) : Option (ℤ × List Char) :=
  let (sign,s) := laySign s
  let whole := s.takeWhile layIsDigit
  match s.dropWhile layIsDigit with
  | '.' :: r =>
    let frac := (r.takeWhile layIsDigit).take 4
    some (toInt ((digitsValue whole*100 + centiFraction frac)*sign),r.dropWhile layIsDigit)
  | r => if whole = [] then none else some (toInt (digitsValue whole*100*sign),r)

inductive LayoutUnit
  | auto | px | percent | em | rem
deriving DecidableEq

structure LayoutLength where
  unit : LayoutUnit
  v : ℤ
deriving DecidableEq

def layParseLength (s : List Char) : Option LayoutLength :=
  let s := skipWs s
  if s.take 4 = "auto".toList ∧ ((s.drop 4).head?.all layIsWs) then some ⟨.auto,0⟩
  else (layParseCenti s).map fun (centi,r) =>
    match skipWs r with
    | '%' :: _ => ⟨.percent,(toInt (centi*10)).tdiv 100⟩
    | 'p' :: 'x' :: _ => ⟨.px,centi.tdiv 100⟩
    | 'e' :: 'm' :: _ => ⟨.em,centi⟩
    | 'r' :: 'e' :: 'm' :: _ => ⟨.rem,centi⟩
    | 'p' :: 't' :: _ => ⟨.px,((toInt (centi*4)).tdiv 3).tdiv 100⟩
    | _ => ⟨.px,centi.tdiv 100⟩

def layResolveLength (len : LayoutLength) (parentDim ownFontSize rootFontSize defaultForAuto : ℤ) : ℤ :=
  match len.unit with
  | .auto => defaultForAuto
  | .px => len.v
  | .percent => (toInt (parentDim*len.v)).tdiv 1000
  | .em => (toInt (ownFontSize*len.v)).tdiv 100
  | .rem => (toInt (rootFontSize*len.v)).tdiv 100

/-- As `0xAARRGGBB`. -/
abbrev Color := ℕ

def black : Color := 0xFF000000

def transparent : Color := 0

def rgba (r g b a : ℕ) : Color := a <<< 24 ||| r <<< 16 ||| g <<< 8 ||| b

def layNamedColors : List (String × Color) :=
  [("transparent",transparent),("black",0xFF000000),("white",0xFFFFFFFF),("red",0xFFFF0000),
   ("green",0xFF008000),("blue",0xFF0000FF),("yellow",0xFFFFFF00),("navy",0xFF000080),
   ("teal",0xFF008080),("olive",0xFF808000),("purple",0xFF800080),("maroon",0xFF800000),
   ("lime",0xFF00FF00),("aqua",0xFF00FFFF),("fuchsia",0xFFFF00FF),("silver",0xFFC0C0C0),
   ("gray",0xFF808080),("grey",0xFF808080),("orange",0xFFFFA500),("pink",0xFFFFC0CB),
   ("brown",0xFFA52A2A),("gold",0xFFFFD700),("darkgray",0xFFA9A9A9),("darkgrey",0xFFA9A9A9),
   ("lightgray",0xFFD3D3D3),("lightgrey",0xFFD3D3D3),("darkred",0xFF8B0000),
   ("darkgreen",0xFF006400),("darkblue",0xFF00008B),("lightblue",0xFFADD8E6),
   ("lightgreen",0xFF90EE90),("cornflowerblue",0xFF6495ED),("skyblue",0xFF87CEEB),
   ("steelblue",0xFF4682B4),("royalblue",0xFF4169E1),("midnightblue",0xFF191970),
   ("indigo",0xFF4B0082),("violet",0xFFEE82EE),("salmon",0xFFFA8072),("tomato",0xFFFF6347),
   ("coral",0xFFFF7F50),("khaki",0xFFF0E68C),("beige",0xFFF5F5DC),("ivory",0xFFFFFFF0),
   ("linen",0xFFFAF0E6),("snow",0xFFFFFAFA),("ghostwhite",0xFFF8F8FF),("whitesmoke",0xFFF5F5F5),
   ("lavender",0xFFE6E6FA),("thistle",0xFFD8BFD8),("plum",0xFFDDA0DD),("orchid",0xFFDA70D6),
   ("magenta",0xFFFF00FF),("cyan",0xFF00FFFF),("chocolate",0xFFD2691E),("saddlebrown",0xFF8B4513),
   ("sienna",0xFFA0522D),("peru",0xFFCD853F),("tan",0xFFD2B48C),("wheat",0xFFF5DEB3),
   ("rosybrown",0xFFBC8F8F),("darkorange",0xFFFF8C00),("deepskyblue",0xFF00BFFF),
   ("dodgerblue",0xFF1E90FF),("powderblue",0xFFB0E0E6),("paleturquoise",0xFFAFEEEE),
   ("turquoise",0xFF40E0D0),("darkcyan",0xFF008B8B),("mediumseagreen",0xFF3CB371),
   ("seagreen",0xFF2E8B57),("forestgreen",0xFF228B22),("limegreen",0xFF32CD32),
   ("yellowgreen",0xFF9ACD32),("olivedrab",0xFF6B8E23),("darkkhaki",0xFFBDB76B),
   ("moccasin",0xFFFFE4B5),("papayawhip",0xFFFFEFD5),("peachpuff",0xFFFFDAB9),
   ("mistyrose",0xFFFFE4E1),("lavenderblush",0xFFFFF0F5),("aliceblue",0xFFF0F8FF),
   ("azure",0xFFF0FFFF),("honeydew",0xFFF0FFF0),("mintcream",0xFFF5FFFA),("seashell",0xFFFFF5EE),
   ("floralwhite",0xFFFFFAF0),("antiquewhite",0xFFFAEBD7),("oldlace",0xFFFDF5E6),
   ("blanchedalmond",0xFFFFEBCD),("bisque",0xFFFFE4C4),("navajowhite",0xFFFFDEAD),
   ("lightyellow",0xFFFFFFE0),("lemonchiffon",0xFFFFFACD),("lightgoldenrodyellow",0xFFFAFAD2),
   ("cornsilk",0xFFFFF8DC)]

def hexColor (digits : List ℕ) : Option Color :=
  let twice (d : ℕ) := d ||| d <<< 4
  let pair (h l : ℕ) := h <<< 4 ||| l
  match digits with
  | [r,g,b] => some (rgba (twice r) (twice g) (twice b) 0xFF)
  | [r,g,b,a] => some (rgba (twice r) (twice g) (twice b) (twice a))
  | [r,r',g,g',b,b'] => some (rgba (pair r r') (pair g g') (pair b b') 0xFF)
  | [r,r',g,g',b,b',a,a'] => some (rgba (pair r r') (pair g g') (pair b b') (pair a a'))
  | _ => none

def clampByte (v : ℤ) : ℕ := if v < 0 then 0 else if 255 < v then 255 else v.toNat

/-- The component `k` of `rgb` or `rgba`; the last one is the opacity. -/
def colorComponent (k : ℕ) (s : List Char) : Option (ℕ × List Char) :=
  if k = 3 then
    (layParseCenti s).map fun (centi,r) =>
      (clampByte (if centi ≤ 100 ∧ 0 ≤ centi then (centi*255 + 50).tdiv 100 else centi.tdiv 100),r)
  else
    (layParseInt s).map fun (v,r) =>
      match r with
      | '%' :: r => (clampByte ((toInt (v*255 + 50)).tdiv 100),r)
      | r => (clampByte v,r)

/-- The components from `k` on, the first number is how many are left. -/
def colorComponents : ℕ → ℕ → List Char → Option (List ℕ × List Char)
  | 0, _, s => some ([],s)
  | left+1, k, s =>
    (colorComponent k (skipWs s)).bind fun (v,r) =>
      let r := skipWs r
      let next := if left = 0 then some r else
        match r with
        | ',' :: r => some r
        | ' ' :: _ => some r
        | _ => none
      next.bind fun r => (colorComponents left (k+1) r).map fun (vs,r) => (v :: vs,r)

/-- After the letters `rgb`. -/
def rgbColor (s : List Char) : Option Color :=
  let (need,s) := match s with
    | 'a' :: s => (4,s)
    | 'A' :: s => (4,s)
    | s => (3,s)
  match s with
  | '(' :: s =>
    (colorComponents need 0 s).bind fun (vs,r) =>
      match vs, skipWs r with
      | [r,g,b], ')' :: _ => some (rgba r g b 255)
      | [r,g,b,a], ')' :: _ => some (rgba r g b a)
      | _, _ => none
  | _ => none

def isKeywordChar (c : Char) : Bool := ('a' ≤ c && c ≤ 'z') || ('A' ≤ c && c ≤ 'Z') || c == '-'

def namedColor (s : List Char) : Option Color :=
  let keyword := s.takeWhile isKeywordChar
  (layNamedColors.find? fun e => layStreqCi e.1.toList keyword).map (·.2)

def layParseColor (s : List Char) : Option Color :=
  let s := skipWs s
  match s with
  | '#' :: h => hexColor ((h.takeWhile layIsHex).map layHexDigit)
  | _ => if layStreqCi (s.take 3) "rgb".toList then rgbColor (s.drop 3) else namedColor s

inductive LayoutDisplay
  | inline | block | inlineBlock | listItem | none | table | tableRow | tableCell
deriving DecidableEq

inductive FontWeight
  | normal | bold
deriving DecidableEq

inductive FontStyle
  | normal | italic
deriving DecidableEq

inductive TextAlign
  | left | center | right | justify
deriving DecidableEq

inductive WhiteSpace
  | normal | pre | nowrap | preWrap
deriving DecidableEq

inductive ListStyle
  | none | disc | circle | square | decimal
deriving DecidableEq

def keyword {α : Type} (table : List (String × α)) (s : List Char) : Option α :=
  (table.find? fun e => layStreqCi s e.1.toList).map (·.2)

def layParseDisplay : List Char → Option LayoutDisplay :=
  keyword [("inline",.inline),("block",.block),("inline-block",.inlineBlock),("list-item",.listItem),
    ("none",.none),("table",.table),("table-row",.tableRow),("table-cell",.tableCell)]

def layParseTextAlign : List Char → Option TextAlign :=
  keyword [("left",.left),("center",.center),("right",.right),("justify",.justify)]

def layParseFontWeight (s : List Char) : Option FontWeight :=
  (keyword [("normal",.normal),("bold",.bold),("bolder",.bold),("lighter",.normal)] s).or
    ((layParseInt s).bind fun (v,_) =>
      if 100 ≤ v ∧ v ≤ 900 then some (if 600 ≤ v then .bold else .normal) else none)

def layParseFontStyle : List Char → Option FontStyle :=
  keyword [("normal",.normal),("italic",.italic),("oblique",.italic)]

/-- The bit of a word of `text-decoration`. -/
def decorationBit (word : List Char) : ℕ :=
  if word = "underline".toList then 1
  else if word = "line-through".toList then 2
  else if word = "overline".toList then 4
  else 0

def layParseTextDecoration (s : List Char) : ℕ :=
  (cssWords s).foldl (fun mask word => mask ||| decorationBit word) 0

def layParseWhiteSpace : List Char → Option WhiteSpace :=
  keyword [("normal",.normal),("pre",.pre),("nowrap",.nowrap),("pre-wrap",.preWrap)]

def layParseListStyle : List Char → Option ListStyle :=
  keyword [("none",.none),("disc",.disc),("circle",.circle),("square",.square),("decimal",.decimal)]

inductive Side
  | top | right | bot | left
deriving DecidableEq

def Side.all : List Side := [.top,.right,.bot,.left]

structure Sides (α : Type) where
  top : α
  right : α
  bot : α
  left : α
deriving DecidableEq

def Sides.get {α : Type} (x : Sides α) : Side → α
  | .top => x.top
  | .right => x.right
  | .bot => x.bot
  | .left => x.left

def Sides.set {α : Type} (x : Sides α) (s : Side) (v : α) : Sides α :=
  match s with
  | .top => { x with top := v }
  | .right => { x with right := v }
  | .bot => { x with bot := v }
  | .left => { x with left := v }

@[simp] lemma Sides.get_set {α : Type} (x : Sides α) (s t : Side) (v : α) :
    (x.set s v).get t = if s = t then v else x.get t := by
  cases s <;> cases t <;> rfl

/-- One to four lengths. A word that is no length counts as zero. -/
def layParseTrblLengths (s : List Char) : Option (Sides LayoutLength) :=
  let tmp := ((cssWords s).take 4).map fun word => (layParseLength (word.take 63)).getD ⟨.px,0⟩
  match tmp with
  | [a] => some ⟨a,a,a,a⟩
  | [a,b] => some ⟨a,b,a,b⟩
  | [a,b,c] => some ⟨a,b,c,b⟩
  | [a,b,c,d] => some ⟨a,b,c,d⟩
  | _ => none

/-- The characters before the first white space outside parentheses, and the rest. -/
def borderToken : ℕ → List Char → List Char × List Char
  | _, [] => ([],[])
  | depth, c :: s =>
    if depth = 0 ∧ c ≠ '(' ∧ c ≠ ')' ∧ layIsWs c then ([],c :: s)
    else
      let (t,r) := borderToken (if c = '(' then depth+1 else if c = ')' then depth-1 else depth) s
      (c :: t,r)

def borderTokens : ℕ → List Char → List (List Char)
  | 0, _ => []
  | n+1, s =>
    let (t,r) := borderToken 0 (skipWs s)
    if t = [] then [] else t.take 95 :: borderTokens n r

structure BorderScan where
  width : Option ℤ
  color : Option Color
  style : Bool
  paints : Bool

def BorderScan.token (b : BorderScan) (tok : List Char) : BorderScan :=
  if layStreqCi tok "none".toList ∨ layStreqCi tok "hidden".toList then
    { b with width := some 0, style := true, paints := false }
  else if ["solid","dashed","dotted","double","groove","ridge","inset","outset"].any
      fun k => layStreqCi tok k.toList then
    { b with style := true }
  else match layParseColor tok with
    | some c => { b with color := some c }
    | none => match layParseLength tok with
      | some ⟨.px,w⟩ => { b with width := some w }
      | _ => b

/-- The width and the colour that the caller's `0` and black become. -/
def layParseBorderShorthand (s : List Char) : Option (ℤ × Color) :=
  let b := (borderTokens s.length s).foldl BorderScan.token ⟨none,none,false,true⟩
  if ¬b.style then none
  else if ¬b.paints then some (0,black)
  else some (b.width.getD 0,b.color.getD black)

end VibeOS.Css

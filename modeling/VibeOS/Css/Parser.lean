import VibeOS.Css.Selectors
import Mathlib.Data.List.DropRight

/-! `css.h`: the parser. A parser is what is left of the source from its `pos` on, every allocation succeeds, and no
loop makes more than `fuel` turns. -/
namespace VibeOS.Css

def cssIsAlpha (c : Char) : Bool := 'a' ≤ c && c ≤ 'z' || 'A' ≤ c && c ≤ 'Z'
def cssIsDigit (c : Char) : Bool := '0' ≤ c && c ≤ '9'
def cssIsIdent (c : Char) : Bool := cssIsAlpha c || cssIsDigit c || c == '-' || c == '_'
def cssLower (c : Char) : Char := if 'A' ≤ c ∧ c ≤ 'Z' then Char.ofNat (c.toNat + 32) else c

/-- At the end of a comment, or at the last byte where it has none. -/
def cssCommentEnd : List Char → List Char
  | [] => []
  | [c] => [c]
  | c :: d :: s => if c = '*' ∧ d = '/' then c :: d :: s else cssCommentEnd (d :: s)

lemma length_cssCommentEnd (s : List Char) : (cssCommentEnd s).length ≤ s.length := by
  induction s using cssCommentEnd.induct with
  | case1 | case2 => exact Nat.le_refl _
  | case3 c d s h => rw [cssCommentEnd,if_pos h]
  | case4 c d s h ih =>
    rw [cssCommentEnd,if_neg h]
    exact ih.trans (Nat.le_succ _)

/-- `css_skip_ws_and_comments`; without its end a comment takes all that is left. -/
def cssSkipWsAndComments (s : List Char) : List Char :=
  match h : s.dropWhile cssIsWs with
  | '/' :: '*' :: r => cssSkipWsAndComments ((cssCommentEnd r).drop 2)
  | r => r
termination_by s.length
decreasing_by
  have h₁ := (List.dropWhile_sublist cssIsWs (l := s)).length_le
  have h₂ := length_cssCommentEnd r
  rw [h] at h₁
  simp only [List.length_cons,List.length_drop] at h₁ ⊢
  omega

/-- Over a comment inside a block or a value, where an unterminated one leaves its last byte. -/
def cssPassComment (s : List Char) : List Char :=
  match cssCommentEnd s with
  | _ :: _ :: r => r
  | r => r

/-- `css_take_ident`: the name in lower case. -/
def cssTakeIdent : List Char → Option (List Char × List Char)
  | [] => none
  | c :: s =>
    if cssIsAlpha c ∨ c = '-' ∨ c = '_' then some ((c :: s.takeWhile cssIsIdent).map cssLower,s.dropWhile cssIsIdent)
    else none

/-- `css_skip_string`, up to the closing quote. -/
def cssSkipString (quote : Char) : List Char → List Char
  | [] => []
  | [c] => if c = quote then [c] else []
  | c :: d :: s => if c = quote then c :: d :: s else if c = '\\' then cssSkipString quote s else cssSkipString quote (d :: s)

/-- `css_skip_block`, with `depth` blocks open. -/
def cssSkipBlock : ℕ → ℕ → List Char → List Char
  | 0,_,s => s
  | _,0,s => s
  | _,_,[] => []
  | fuel+1,depth+1,c :: s =>
    if c = '/' ∧ s.head? = some '*' then cssSkipBlock fuel (depth+1) (cssPassComment s.tail)
    else if c = '"' ∨ c = '\'' then cssSkipBlock fuel (depth+1) (cssSkipString c s).tail
    else if c = '{' then cssSkipBlock fuel (depth+2) s
    else if c = '}' then cssSkipBlock fuel depth s
    else cssSkipBlock fuel (depth+1) s

/-! ### Selectors

Where one cannot be parsed the result has what is left at that place. -/

def cssEndsCompound (c : Char) : Bool := c == ',' || c == '{' || c == '>' || c == '}' || cssIsWs c

/-- The pseudo-classes that are taken to hold. -/
def cssTruthy : List (List Char) := ["link","visited","any-link","local-link","root","first-child","last-child","only-child",
  "first-of-type","last-of-type","nth-child","nth-of-type","nth-last-child","nth-last-of-type","not"].map String.toList

/-- Past the parentheses that are open, `depth` of them. -/
def cssEatArgument : ℕ → List Char → List Char
  | _,[] => []
  | depth,c :: s =>
    if c = '(' then cssEatArgument (depth + 1) s
    else if c = ')' then (if depth - 1 = 0 then s else cssEatArgument (depth - 1) s)
    else cssEatArgument depth s

def cssNamed (kind : List Char → CssSimple) (s : List Char) : Option CssSimple × List Char :=
  match cssTakeIdent s with
  | some (name,r) => (some (kind name),r)
  | none => (none,s)

/-- One turn of the loop of `css_parse_compound`. -/
def cssParseSimple (c : Char) (s : List Char) : Option CssSimple × List Char :=
  if c = '*' then (some .universal,s)
  else if c = '.' then cssNamed .cls s
  else if c = '#' then cssNamed .id s
  else if c = ':' then
    let p := cssNamed (fun name => if name ∈ cssTruthy then .pseudoTrue else .pseudoFalse) (if s.head? = some ':' then s.tail else s)
    if p.1.isSome ∧ p.2.head? = some '(' then (p.1,cssEatArgument 0 p.2) else p
  else if cssIsAlpha c ∨ c = '-' ∨ c = '_' then cssNamed .type (c :: s)
  else (none,c :: s)

/-- The loop of `css_parse_compound`. -/
def cssParseSimples : ℕ → List Char → Option (List CssSimple) × List Char
  | 0,s => (none,s)
  | _,[] => (some [],[])
  | fuel+1,c :: s =>
    if cssEndsCompound c then (some [],c :: s)
    else
      match cssParseSimple c s with
      | (none,r) => (none,r)
      | (some x,r) =>
        let rest := cssParseSimples fuel r
        (rest.1.map (x :: ·),rest.2)

def cssParseCompound (fuel : ℕ) : List Char → Option (List CssSimple) × List Char
  | [] => (none,[])
  | c :: s => if cssEndsCompound c then (none,c :: s) else cssParseSimples fuel (c :: s)

/-- The loop of `css_parse_selector`: the chain so far has its rightmost compound first. -/
def cssParseChain : ℕ → CssChain → List Char → Option CssChain × List Char
  | 0,_,s => (none,s)
  | fuel+1,chain,s =>
    let more (comb : CssComb) (t : List Char) : Option CssChain × List Char :=
      match cssParseCompound fuel t with
      | (none,r) => (none,r)
      | (some simples,r) => cssParseChain fuel (⟨simples,comb⟩ :: chain) r
    match s.dropWhile cssIsWs with
    | [] => (some chain,[])
    | c :: t =>
      if c = ',' ∨ c = '{' then (some chain,s)
      else if c = '>' then more .child (cssSkipWsAndComments t)
      else if s.head?.any cssIsWs then more .descendant (c :: t)
      else (some chain,c :: t)

/-- `css_parse_selector` -/
def cssParseSelector (fuel : ℕ) (s : List Char) : Option CssChain × List Char :=
  match cssParseCompound fuel (cssSkipWsAndComments s) with
  | (none,r) => (none,r)
  | (some simples,r) => cssParseChain fuel [⟨simples,.none⟩] r

def cssParseSelectors : ℕ → List CssChain → List Char → Option (List CssChain) × List Char
  | 0,_,s => (none,s)
  | fuel+1,sels,s =>
    match cssParseSelector fuel (cssSkipWsAndComments s) with
    | (none,r) => (none,r)
    | (some sel,r) =>
      match cssSkipWsAndComments r with
      | ',' :: t => cssParseSelectors fuel (sels ++ [sel]) t
      | t => (some (sels ++ [sel]),t)

def cssSkipDecl (s : List Char) : List Char := s.dropWhile fun c => c ≠ ';' ∧ c ≠ '}'

def cssSkipValue : ℕ → List Char → List Char
  | 0,s => s
  | _,[] => []
  | fuel+1,c :: s =>
    if c = ';' ∨ c = '}' then c :: s
    else if c = '"' ∨ c = '\'' then cssSkipValue fuel (cssSkipString c s).tail
    else if c = '/' ∧ s.head? = some '*' then cssSkipValue fuel (cssPassComment s.tail)
    else cssSkipValue fuel s

/-- `css_parse_decls`, behind the declarations that were read. -/
def cssParseDecls : ℕ → List CssDecl → List Char → List CssDecl × List Char
  | 0,decls,s => (decls,s)
  | fuel+1,decls,s =>
    match cssSkipWsAndComments s with
    | [] => (decls,[])
    | c :: t =>
      if c = '}' then (decls,c :: t)
      else if c = ';' then cssParseDecls fuel decls t
      else
        match cssTakeIdent (c :: t) with
        | none => cssParseDecls fuel decls (cssSkipDecl (c :: t))
        | some (prop,r) =>
          match cssSkipWsAndComments r with
          | ':' :: u =>
            let v := cssSkipWsAndComments u
            let r := cssSkipValue fuel v
            let value := (v.take (v.length - r.length)).rdropWhile cssIsWs
            cssParseDecls fuel (decls ++ [⟨prop,value⟩]) r
          | u => cssParseDecls fuel decls (cssSkipDecl u)

/-- The way on from a selector that cannot be parsed. -/
def cssSkipRule (fuel : ℕ) : List Char → List Char
  | [] => []
  | c :: s => if c = '}' then s else if c = '{' then cssSkipBlock fuel 1 s else cssSkipRule fuel s

def cssSkipAtRule (fuel : ℕ) (s : List Char) : List Char :=
  match s.dropWhile fun c => c ≠ ';' ∧ c ≠ '{' with
  | [] => []
  | c :: t => if c = '{' then cssSkipBlock fuel 1 t else t

/-- `css_parse` -/
def cssParse : ℕ → CssStylesheet → List Char → CssStylesheet
  | 0,ss,_ => ss
  | fuel+1,ss,s =>
    match cssSkipWsAndComments s with
    | [] => ss
    | c :: t =>
      if c = '@' then cssParse fuel ss (cssSkipAtRule fuel t)
      else if c = '}' then cssParse fuel ss t
      else
        match cssParseSelectors fuel [] (c :: t) with
        | (none,r) => cssParse fuel ss (cssSkipRule fuel r)
        | (some sels,r) =>
          match cssSkipWsAndComments r with
          | '{' :: u =>
            let d := cssParseDecls fuel [] u
            cssParse fuel (ss.append sels d.1) (if d.2.head? = some '}' then d.2.tail else d.2)
          | u => cssParse fuel ss u

end VibeOS.Css

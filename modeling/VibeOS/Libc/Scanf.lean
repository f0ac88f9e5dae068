import VibeOS.Libc.Format

/-! `scanf.h` over a string. A byte is a character, and a string is what it has up to its NUL; no loop makes more than
`fuel` turns. What an unsuccessful directive leaves in the source is not followed: nothing is read after it. -/
namespace VibeOS.Scanf

/-- `_scn_str_src` from its `pos` on, with the `consumed` of the source over it. -/
structure Src where
  rest : List Char
  undo : Option Char
  consumed : ℕ

/-- `_scn_get` over `_scn_str_get`. -/
def scnGet (s : Src) : Option Char × Src :=
  match s.undo with
  | some c => (some c,{ s with undo := none, consumed := s.consumed + 1 })
  | none =>
    match s.rest with
    | [] => (none,s)
    | c :: r => (some c,{ s with rest := r, consumed := s.consumed + 1 })

/-- `_scn_unget` over `_scn_str_unget`, which keeps one character. -/
def scnUnget (s : Src) (c : Char) : Src :=
  if s.undo.isSome then s else { s with undo := some c, consumed := s.consumed - 1 }

def scnIsspace (c : Char) : Bool := c = ' ' || c = '\t' || c = '\n' || c = '\x0b' || c = '\x0c' || c = '\r'

def scnDigitValue (c : Char) (base : ℕ) : ℤ :=
  let v : ℤ :=
    if '0' ≤ c ∧ c ≤ '9' then c.toNat - '0'.toNat
    else if 'a' ≤ c ∧ c ≤ 'z' then c.toNat - 'a'.toNat + 10
    else if 'A' ≤ c ∧ c ≤ 'Z' then c.toNat - 'A'.toNat + 10
    else -1
  if v < base then v else -1

/-- `_scn_skip_ws`: whether the source ends first, and the source. -/
def scnSkipWs : ℕ → Src → Bool × Src
  | 0,s => (true,s)
  | fuel+1,s =>
    match scnGet s with
    | (none,s) => (true,s)
    | (some c,s) => if scnIsspace c then scnSkipWs fuel s else (false,scnUnget s c)

def digitLoop (width : ℤ) (base : ℕ) : ℕ → Src → ℕ → ℤ → ℕ × Src
  | 0,s,acc,_ => (acc,s)
  | fuel+1,s,acc,used =>
    if width = 0 ∨ used < width then
      match scnGet s with
      | (none,s) => (acc,s)
      | (some n,s) =>
        let v := scnDigitValue n base
        if v < 0 then (acc,scnUnget s n) else digitLoop width base fuel s ((acc * base + v.toNat) % 2^64) (used+1)
    else (acc,s)

def scnDigits (fuel : ℕ) (width : ℤ) (base : ℕ) (used : ℤ) (c : Char) (s : Src) : Option (ℕ × Src) :=
  let dv := scnDigitValue c base
  if dv < 0 then none else some (digitLoop width base fuel s dv.toNat (used+1))

def scnPrefixed (fuel : ℕ) (spec : Char) (width used : ℤ) (c : Char) (s : Src) : Option (ℕ × Src) :=
  let base := if spec = 'd' ∨ spec = 'u' then 10 else if spec = 'o' then 8 else if spec = 'x' ∨ spec = 'X' then 16 else 0
  if (base = 0 ∨ base = 16) ∧ c = '0' then
    match scnGet s with
    | (some p,s) =>
      if p = 'x' ∨ p = 'X' then
        match scnGet s with
        | (none,_) => none
        | (some c,s) => scnDigits fuel width (if base = 0 then 16 else base) (used+2) c s
      else scnDigits fuel width (if base = 0 then 8 else base) (used+1) '0' (scnUnget s p)
    | (none,s) => scnDigits fuel width (if base = 0 then 8 else base) (used+1) '0' s
  else scnDigits fuel width (if base = 0 then 10 else base) used c s

/-- Whether a character was read, and the sign and value. -/
def scnInteger (fuel : ℕ) (spec : Char) (width : ℤ) (s : Src) : Bool × Option (Bool × ℕ × Src) :=
  match scnSkipWs fuel s with
  | (true,_) => (false,none)
  | (false,s) =>
    match scnGet s with
    | (none,_) => (false,none)
    | (some c,s) =>
      if c = '+' ∨ c = '-' then
        match scnGet s with
        | (none,_) => (true,none)
        | (some c',s) => (true,(scnPrefixed fuel spec width 1 c' s).map fun (v,s) => (c = '-',v,s))
      else (true,(scnPrefixed fuel spec width 0 c s).map fun (v,s) => (false,v,s))

/-- The loop of `%s`: what it takes. -/
def stringLoop : ℕ → ℕ → Src → List Char × Src
  | 0,_,s => ([],s)
  | _,0,s => ([],s)
  | fuel+1,budget+1,s =>
    match scnGet s with
    | (none,s) => ([],s)
    | (some c,s) => if scnIsspace c then ([],scnUnget s c) else (c :: (stringLoop fuel budget s).1,(stringLoop fuel budget s).2)

/-- The loop of `%c`: what it takes, and whether the source ended before. -/
def charLoop : ℕ → ℕ → Src → List Char × Bool × Src
  | 0,_,s => ([],true,s)
  | _,0,s => ([],false,s)
  | fuel+1,budget+1,s =>
    match scnGet s with
    | (none,s) => ([],true,s)
    | (some c,s) => (c :: (charLoop fuel budget s).1,(charLoop fuel budget s).2)

/-- What is stored through the next of the caller's pointers; a string gets a NUL behind it. -/
inductive Store
  | int (v : ℤ)
  | long (v : ℤ)
  | uint (v : ℕ)
  | ulong (v : ℕ)
  | str (s : List Char)
  | chars (s : List Char)
  deriving DecidableEq

structure Scan where
  src : Src
  matched : ℕ
  gotAny : Bool
  stores : List Store

def wrap64 (x : ℤ) : ℤ := (BitVec.ofInt 64 x).toInt

def intStore (spec : Char) (isLong neg : Bool) (acc : ℕ) : Store :=
  if spec = 'd' ∨ spec = 'i' then
    let val := if neg then wrap64 (-wrap64 acc) else wrap64 acc
    if isLong then .long val else .int (Printf.wrap32 val)
  else if isLong then .ulong acc else .uint (acc % 2^32)

/-- Without `*` the conversion is stored and counted. -/
def Scan.take (t : Scan) (suppress : Bool) (src : Src) (store : Store) : Scan :=
  if suppress then { t with src := src, gotAny := true }
  else { t with src := src, gotAny := true, matched := t.matched + 1, stores := t.stores ++ [store] }

/-- `INT_MAX`, the budget of a string with no width. -/
def noWidth : ℕ := 0x7fffffff

/-- The `switch` over the conversion: the scan, and whether it goes on. -/
def scnConvert (fuel : ℕ) (t : Scan) (suppress : Bool) (width : ℤ) (isLong : Bool) (spec : Char) : Scan × Bool :=
  if spec = '%' then
    match scnGet t.src with
    | (none,s) => ({ t with src := s },false)
    | (some c,s) => if c ≠ '%' then ({ t with src := scnUnget s c, gotAny := true },false) else ({ t with src := s, gotAny := true },true)
  else if spec = 'd' ∨ spec = 'i' ∨ spec = 'u' ∨ spec = 'o' ∨ spec = 'x' ∨ spec = 'X' then
    match scnInteger fuel spec width t.src with
    | (gotAny,none) => ({ t with gotAny := t.gotAny || gotAny },false)
    | (_,some (neg,acc,s)) => (t.take suppress s (intStore spec isLong neg acc),true)
  else if spec = 's' then
    match scnSkipWs fuel t.src with
    | (true,s) => ({ t with src := s },false)
    | (false,s) =>
      let r := stringLoop fuel (if 0 < width then width.toNat else noWidth) s
      if r.1 = [] then ({ t with src := r.2 },false) else (t.take suppress r.2 (.str r.1),true)
  else if spec = 'c' then
    let r := charLoop fuel (if 0 < width then width.toNat else 1) t.src
    -- `wrote` stays 0 where nothing is stored
    if r.2.1 ∧ (suppress ∨ r.1 = []) then ({ t with src := r.2.2, gotAny := t.gotAny || r.1 ≠ [] },false)
    else (t.take suppress r.2.2 (.chars r.1),true)
  else if spec = 'n' then
    (if suppress then t else { t with stores := t.stores ++ [.int (Printf.wrap32 t.src.consumed)] },true)
  else (t,false)

/-- From behind a `%`; a format may end before its conversion. -/
def scnDirective (fuel : ℕ) (t : Scan) (fmt : List Char) : Scan × Bool × List Char :=
  let suppress := fmt.head? = some '*'
  let fmt := if suppress then fmt.tail else fmt
  let (width,fmt) := Printf.takeDigits 0 fmt
  match Printf.takeLength fmt with
  | (_,[]) => (t,false,[])
  | (isLong,spec :: fmt) => ((scnConvert fuel t suppress width isLong spec).1,(scnConvert fuel t suppress width isLong spec).2,fmt)

def scnLiteral (t : Scan) (c : Char) : Scan × Bool :=
  match scnGet t.src with
  | (none,s) => ({ t with src := s },false)
  | (some d,s) => if d ≠ c then ({ t with src := scnUnget s d, gotAny := true },false) else ({ t with src := s, gotAny := true },true)

/-- The loop of `_scn_vformat`; each turn takes a character of the format. The loop over the white space that a format's white space
stands for is the one of `_scn_skip_ws`. -/
def scnLoop (fuel : ℕ) : ℕ → Scan → List Char → Scan
  | _,t,[] => t
  | 0,t,_ :: _ => t
  | turns+1,t,c :: fmt =>
    if scnIsspace c then scnLoop fuel turns { t with src := (scnSkipWs fuel t.src).2 } fmt
    else if c ≠ '%' then
      if (scnLiteral t c).2 then scnLoop fuel turns (scnLiteral t c).1 fmt else (scnLiteral t c).1
    else
      let r := scnDirective fuel t fmt
      if r.2.1 then scnLoop fuel turns r.1 r.2.2 else r.1

/-- `vsscanf`: what is returned, and what is stored. -/
def vsscanf (input fmt : List Char) : ℤ × List Store :=
  let t := scnLoop (input.length + 1) fmt.length ⟨⟨input,none,0⟩,0,false,[]⟩ fmt
  (if t.matched = 0 ∧ !t.gotAny then -1 else t.matched,t.stores)


/-! What `sscanf` makes of an input after C99 7.19.6.2, and the inputs that `scanf.h` gets right. -/

inductive Spec
  | d | i | u | o | x | s | c | n

def Spec.char : Spec → Char
  | d => 'd'
  | i => 'i'
  | u => 'u'
  | o => 'o'
  | x => 'x'
  | s => 's'
  | c => 'c'
  | n => 'n'

def Spec.isInteger : Spec → Bool
  | d | i | u | o | x => true
  | _ => false

structure Conversion where
  suppress : Bool
  width : List Char
  long : Bool
  spec : Spec

def Conversion.text (v : Conversion) : List Char :=
  (if v.suppress then ['*'] else []) ++ (v.width ++ ((if v.long then ['l'] else []) ++ [v.spec.char]))

/-- A width is a decimal number that does not start with 0, and `l` goes with integers. -/
def Conversion.WellFormed (v : Conversion) : Prop :=
  Printf.IsDigits v.width ∧ v.width.head? ≠ some '0' ∧ (v.long = true → v.spec.isInteger = true)

inductive Item
  | space (c : Char)
  | literal (c : Char)
  | conversion (v : Conversion)

def Item.text : Item → List Char
  | space c => [c]
  | literal c => [c]
  | conversion v => '%' :: v.text

def Item.WellFormed : Item → Prop
  | space c => scnIsspace c = true
  | literal c => scnIsspace c = false ∧ c ≠ '%' ∧ c ≠ '\x00'
  | conversion v => v.WellFormed

def cut (w : Option ℕ) (t : List Char) : List Char := w.elim t t.take

def isDigitOf (base : ℕ) (c : Char) : Bool := 0 ≤ scnDigitValue c base

def digitsFrom (base acc : ℕ) (ds : List Char) : ℕ := ds.foldl (fun a c => a * base + (scnDigitValue c base).toNat) acc

def isSign (c : Char) : Bool := c = '+' || c = '-'

def hexPrefixed : List Char → Bool
  | a :: b :: _ => a = '0' && (b = 'x' || b = 'X')
  | _ => false

def basePrefix (spec : Spec) (s : List Char) : ℕ × ℕ :=
  match spec with
  | .o => (8,0)
  | .x => if hexPrefixed s then (16,2) else (16,0)
  | .i => if hexPrefixed s then (16,2) else if s.head? = some '0' then (8,0) else (10,0)
  | _ => (10,0)

/-- The value and the length of a number with no sign. -/
def c99Unsigned (spec : Spec) (s : List Char) : Option (ℕ × ℕ) :=
  let b := basePrefix spec s
  let ds := (s.drop b.2).takeWhile (isDigitOf b.1)
  if ds = [] then none else some (digitsFrom b.1 0 ds,b.2 + ds.length)

structure Number where
  neg : Bool
  value : ℕ
  length : ℕ

def signs (t : List Char) : ℕ := if t.head?.any isSign then 1 else 0

/-- The input item, the longest prefix of what the width leaves that can start a number, as the number that it is. -/
def c99Number (spec : Spec) (t : List Char) : Option Number :=
  (c99Unsigned spec (t.drop (signs t))).map fun (v,l) => ⟨t.head? = some '-',v,signs t + l⟩

/-- What a directive comes to: the input ends, or does not match, or what is stored, whether it is a conversion, how much is
counted, and the length of the input that it takes. -/
inductive Step
  | input
  | matching
  | done (stores : List Store) (converted : Bool) (count used : ℕ)

def Conversion.limit (v : Conversion) : Option ℕ := if v.width = [] then none else some (Printf.numeral 0 v.width)

def Conversion.done (v : Conversion) (store : Store) (used : ℕ) : Step :=
  if v.suppress then .done [] true 0 used else .done [store] true 1 used

/-- An integer as C99 has it; a negative one for `u`, `o` and `x` is taken from 2^64. -/
def Number.signed (n : Number) : ℤ := if n.neg then -n.value else n.value
def Number.unsigned (n : Number) : ℕ := if n.neg then (2^64 - n.value) % 2^64 else n.value

def c99Store (spec : Spec) (long : Bool) (n : Number) : Store :=
  match spec with
  | .d | .i => if long then .long n.signed else .int n.signed
  | _ => if long then .ulong n.unsigned else .uint n.unsigned

def behindSpace (t : List Char) : List Char := t.dropWhile scnIsspace
def spaceLength (t : List Char) : ℕ := (t.takeWhile scnIsspace).length

/-- A conversion where `t` is left of the input and `pos` characters were read. -/
def Conversion.step (v : Conversion) (t : List Char) (pos : ℕ) : Step :=
  match v.spec with
  | .n => .done (if v.suppress then [] else [.int pos]) false 0 0
  | .c => if t = [] then .input else if t.length < v.limit.getD 1 then .matching else v.done (.chars (t.take (v.limit.getD 1))) (v.limit.getD 1)
  | .s =>
    let str := cut v.limit ((behindSpace t).takeWhile fun c => !scnIsspace c)
    if behindSpace t = [] then .input else v.done (.str str) (spaceLength t + str.length)
  | spec =>
    if behindSpace t = [] then .input
    else match c99Number spec (cut v.limit (behindSpace t)) with
      | none => .matching
      | some n => v.done (c99Store spec v.long n) (spaceLength t + n.length)

def Item.step : Item → List Char → ℕ → Step
  | space _,t,_ => .done [] false 0 (spaceLength t)
  | literal c,t,_ => if t = [] then .input else if t.head? = some c then .done [] false 0 1 else .matching
  | conversion v,t,pos => v.step t pos

/-- What the call returns after `count` assignments, and what it stores; the input ends before any conversion with `EOF`. -/
def c99Scan : List Item → List Char → ℕ → ℕ → Bool → ℤ × List Store
  | [],_,_,count,_ => (count,[])
  | i :: items,t,pos,count,converted =>
    match i.step t pos with
    | .input => (if converted then count else -1,[])
    | .matching => (count,[])
    | .done stores conv n used =>
      let r := c99Scan items (t.drop used) (pos + used) (count + n) (converted || conv)
      (r.1,stores ++ r.2)

/-- The width that a number has behind its sign leaves room for a digit, unless there is none, and for one behind the prefix `0x`;
the digits behind a 0 of `i` and `x` do not need the last character of the width, which the code counts twice. -/
def UnsignedServed (spec : Spec) (w : Option ℕ) (s : List Char) : Prop :=
  (w = some 0 → c99Unsigned spec s = none) ∧
  ((spec = .i ∨ spec = .x) → hexPrefixed s = true → w ≠ some 1 ∧ (w = some 2 → c99Unsigned spec s = none)) ∧
  ((spec = .i ∨ spec = .x) → hexPrefixed s = false → s.head? = some '0' → ∀ n, w = some n →
    (s.takeWhile (isDigitOf (basePrefix spec s).1)).length ≤ max 1 (n - 1))

/-- The value fits its target, and `u`, `o` and `x` read no negative one. -/
def Number.Fits (spec : Spec) (long : Bool) (n : Number) : Prop :=
  match spec with
  | .d | .i => if long then -2^63 ≤ n.signed ∧ n.signed < 2^63 else -2^31 ≤ n.signed ∧ n.signed < 2^31
  | _ => (n.neg = true → n.value = 0) ∧ if long then n.value < 2^64 else n.value < 2^32

def Conversion.Served (v : Conversion) (t : List Char) (pos : ℕ) : Prop :=
  (∀ w, v.limit = some w → w < 2^31) ∧
  match v.spec with
  | .n => pos < 2^31
  | .c => v.suppress = true ∨ t = [] ∨ v.limit.getD 1 ≤ t.length
  | .s => v.limit = none → ((behindSpace t).takeWhile fun c => !scnIsspace c).length < 2^31
  | spec => UnsignedServed spec (v.limit.map (· - signs (behindSpace t))) ((behindSpace t).drop (signs (behindSpace t))) ∧
    (v.suppress = false → ∀ n, c99Number spec (cut v.limit (behindSpace t)) = some n → n.Fits spec v.long)

def Item.Served : Item → List Char → ℕ → Prop
  | conversion v,t,pos => v.Served t pos
  | _,_,_ => True

def Item.isLiteral : Item → Bool
  | literal _ => true
  | _ => false

/-- Every directive of the run is served, the input does not end before the first conversion where a literal has matched, and the
format does not end where none has and nothing was converted. -/
def Served : List Item → List Char → ℕ → Bool → Bool → Prop
  | [],_,_,converted,matched => converted = true ∨ matched = true
  | i :: items,t,pos,converted,matched => i.Served t pos ∧
    match i.step t pos with
    | .input => matched = true → converted = true
    | .matching => True
    | .done _ conv _ used => Served items (t.drop used) (pos + used) (converted || conv) (matched || i.isLiteral)

end VibeOS.Scanf

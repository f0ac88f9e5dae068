import VibeOS.Libc.Printf
import Mathlib.Data.Nat.Digits.Defs

/-! The output of a format after C99 7.19.6.1. A flag that a conversion has no use for does nothing. -/
namespace VibeOS.Printf
open List

inductive Flag
  | minus | zero | plus | space | hash
  deriving DecidableEq

def Flag.char : Flag → Char
  | minus => '-'
  | zero => '0'
  | plus => '+'
  | space => ' '
  | hash => '#'

/-- A width or a precision. -/
inductive Amount
  | number (ds : List Char)
  | star

def Amount.text : Amount → List Char
  | number ds => ds
  | star => ['*']

inductive Length
  | plain | hh | h | l | ll | z | j | t

def Length.text : Length → List Char
  | plain => []
  | hh => ['h','h']
  | h => ['h']
  | l => ['l']
  | ll => ['l','l']
  | z => ['z']
  | j => ['j']
  | t => ['t']

inductive Conv
  | d | i | u | o | x | X | c | s | n

def Conv.char : Conv → Char
  | d => 'd'
  | i => 'i'
  | u => 'u'
  | o => 'o'
  | x => 'x'
  | X => 'X'
  | c => 'c'
  | s => 's'
  | n => 'n'

structure Directive where
  flags : List Flag
  width : Option Amount
  prec : Option Amount
  length : Length
  conv : Conv

def Directive.widthText (d : Directive) : List Char := d.width.elim [] Amount.text
def Directive.precText (d : Directive) : List Char := d.prec.elim [] fun p => '.' :: p.text

def Directive.text (d : Directive) : List Char :=
  d.flags.map Flag.char ++ (d.widthText ++ (d.precText ++ (d.length.text ++ [d.conv.char])))

def IsDigits (ds : List Char) : Prop := ∀ c ∈ ds, '0' ≤ c ∧ c ≤ '9'

/-- A width is a decimal number that does not start with 0. -/
def Directive.WellFormed (d : Directive) : Prop :=
  (∀ ds, d.width = some (.number ds) → IsDigits ds ∧ ∃ c ds', ds = c :: ds' ∧ c ≠ '0') ∧ ∀ ds, d.prec = some (.number ds) → IsDigits ds

inductive Item
  | plain (c : Char)
  | percent
  | directive (d : Directive)

def Item.text : Item → List Char
  | plain c => [c]
  | percent => ['%','%']
  | directive d => '%' :: d.text

def Item.WellFormed : Item → Prop
  | plain c => c ≠ '%' ∧ c ≠ '\x00'
  | percent => True
  | directive d => d.WellFormed

def numeral (n : ℕ) (ds : List Char) : ℕ := ds.foldl (fun n c => n * 10 + (c.toNat - '0'.toNat)) n

/-- A directive with its arguments. -/
structure Request where
  flags : List Flag
  width : ℕ
  prec : Option ℕ
  length : Length
  conv : Conv
  arg : Arg

/-- A negative width is a `-` and a width. -/
def Directive.resolveWidth (d : Directive) (args : List Arg) : Option ((List Flag × ℕ) × List Arg) :=
  match d.width with
  | none => some ((d.flags,0),args)
  | some (.number ds) => some ((d.flags,numeral 0 ds),args)
  | some .star => (vaInt args).map fun (v,args) => ((if v.toInt < 0 then .minus :: d.flags else d.flags,v.toInt.natAbs),args)

def Directive.resolvePrec (d : Directive) (args : List Arg) : Option (Option ℕ × List Arg) :=
  match d.prec with
  | none => some (none,args)
  | some (.number ds) => some (some (numeral 0 ds),args)
  | some .star => (vaInt args).map fun (v,args) => (if v.toInt < 0 then none else some v.toInt.toNat,args)

def Directive.resolve (d : Directive) (args : List Arg) : Option (Request × List Arg) := do
  let ((flags,width),args) ← d.resolveWidth args
  let (prec,args) ← d.resolvePrec args
  match args with
  | [] => none
  | arg :: args => some (⟨flags,width,prec,d.length,d.conv,arg⟩,args)

/-- The value of a signed argument, which `hh` and `h` narrow. -/
def Length.signed : Length → Arg → Option ℤ
  | plain,.int v => some v.toInt
  | hh,.int v => some (v.setWidth 8).toInt
  | h,.int v => some (v.setWidth 16).toInt
  | l,.long v | ll,.long v | z,.long v | j,.long v | t,.long v => some v.toInt
  | _,_ => none

def Length.unsigned : Length → Arg → Option ℕ
  | plain,.int v => some v.toNat
  | hh,.int v => some (v.setWidth 8).toNat
  | h,.int v => some (v.setWidth 16).toNat
  | l,.long v | ll,.long v | z,.long v | j,.long v | t,.long v => some v.toNat
  | _,_ => none

def digitChar (upper : Bool) (d : ℕ) : Char := if upper then (Nat.digitChar d).toUpper else Nat.digitChar d

def numberText (base : ℕ) (upper : Bool) (v : ℕ) : List Char := (Nat.digits base v).reverse.map (digitChar upper)

/-- With at least as many digits as the precision says, which is one where it says nothing. -/
def Request.digits (r : Request) (base : ℕ) (upper : Bool) (v : ℕ) : List Char :=
  replicate (r.prec.getD 1 - (numberText base upper v).length) '0' ++ numberText base upper v

def Request.sign (r : Request) (v : ℤ) : List Char :=
  if v < 0 then ['-'] else if .plus ∈ r.flags then ['+'] else if .space ∈ r.flags then [' '] else []

/-- A `-` goes before a `0`, and so does a precision. -/
def Request.field (r : Request) (isNumber : Bool) (pre digits : List Char) : List Char :=
  let fill := r.width - (pre.length + digits.length)
  if .minus ∈ r.flags then pre ++ digits ++ replicate fill ' '
  else if .zero ∈ r.flags ∧ isNumber ∧ r.prec = none then pre ++ replicate fill '0' ++ digits
  else replicate fill ' ' ++ pre ++ digits

/-- `#` makes the first octal digit a zero. -/
def Request.octal (r : Request) (v : ℕ) : List Char :=
  if .hash ∈ r.flags ∧ (r.digits 8 false v).head? ≠ some '0' then '0' :: r.digits 8 false v else r.digits 8 false v

/-- The characters of `%s`: up to a NUL, or as many as the precision says, when the array has them. -/
def Request.string (r : Request) : Option (List Char) :=
  match r.arg with
  | .str array =>
    let str := array.takeWhile (· ≠ '\x00')
    if '\x00' ∈ array ∨ r.prec.any (· ≤ array.length) then some (r.prec.elim str str.take) else none
  | _ => none

/-- What a directive adds to the output, and what `%n` stores behind `written` characters. -/
def Request.output (r : Request) (written : ℕ) : Option (List Char × List (BitVec 64 × ℤ)) :=
  match r.conv with
  | .d | .i => (r.length.signed r.arg).map fun v => (r.field true (r.sign v) (r.digits 10 false v.natAbs),[])
  | .u => (r.length.unsigned r.arg).map fun v => (r.field true [] (r.digits 10 false v),[])
  | .o => (r.length.unsigned r.arg).map fun v => (r.field true [] (r.octal v),[])
  | .x => (r.length.unsigned r.arg).map fun v =>
    (r.field true (if .hash ∈ r.flags ∧ v ≠ 0 then ['0','x'] else []) (r.digits 16 false v),[])
  | .X => (r.length.unsigned r.arg).map fun v =>
    (r.field true (if .hash ∈ r.flags ∧ v ≠ 0 then ['0','X'] else []) (r.digits 16 true v),[])
  | .c => match r.length,r.arg with
    | .plain,.int v => some (r.field false [] [Char.ofNat (v.toNat % 256)],[])
    | _,_ => none
  | .s => match r.length with
    | .plain => r.string.map fun str => (r.field false [] str,[])
    | _ => none
  | .n => match r.length,r.arg with
    | .plain,.ptr p => if p ≠ 0 then some ([],[(p,written)]) else none
    | _,_ => none

inductive Piece
  | plain (c : Char)
  | request (r : Request)

def resolveAll : List Item → List Arg → Option (List Piece)
  | [],_ => some []
  | .plain c :: items,args => (resolveAll items args).map (.plain c :: ·)
  | .percent :: items,args => (resolveAll items args).map (.plain '%' :: ·)
  | .directive d :: items,args => (d.resolve args).bind fun (r,args) => (resolveAll items args).map (.request r :: ·)

/-- The output behind `out`, and what is stored. -/
def c99Output : List Piece → List Char → Option (List Char × List (BitVec 64 × ℤ))
  | [],out => some (out,[])
  | .plain c :: ps,out => c99Output ps (out ++ [c])
  | .request r :: ps,out => (r.output out.length).bind fun (t,st) => (c99Output ps (out ++ t)).map fun (out,st') => (out,st ++ st')

def Length.promoted : Length → Length
  | hh | h => plain
  | len => len

/-- The requests that the code serves as it should: the numbers fit an `int`, `hh` and `h` have nothing to narrow, the zero of `#`
is neither there by the precision nor all there is, and strings have their NUL. -/
def Request.Served (r : Request) : Prop :=
  r.width < 2^31 ∧ (∀ p, r.prec = some p → p < 2^31) ∧
  match r.conv with
  | .d | .i => r.length.signed r.arg = r.length.promoted.signed r.arg
  | .u | .x | .X => r.length.unsigned r.arg = r.length.promoted.unsigned r.arg
  | .o => r.length.unsigned r.arg = r.length.promoted.unsigned r.arg ∧ (.hash ∈ r.flags → ∀ v, r.length.unsigned r.arg = some v →
      if v = 0 then r.prec ≠ some 0 else r.prec.getD 1 ≤ (Nat.digits 8 v).length)
  | .s => ∃ array, r.arg = .str array ∧ '\x00' ∈ array
  | .c | .n => True

end VibeOS.Printf

import VibeOS.Widths

/-! `printf.h`: the formatter. A byte is a character, and a string is what it has up to its NUL; the format is one. -/
namespace VibeOS.Printf
open List

/-- What a caller passes: an `int`, a 64-bit integer, a pointer that is no string, or an array of characters. -/
inductive Arg
  | int (v : BitVec 32)
  | long (v : BitVec 64)
  | ptr (v : BitVec 64)
  | str (array : List Char)
  deriving DecidableEq

/-- `FMT_CHUNK` -/
def fmtChunk : ℕ := 128

/-- `_fmt_sink`, with the memory from `buf` on, what went to descriptor 1 and what `%n` stored. -/
structure FmtSink where
  buf : Option (ℕ → Char)
  cap : ℕ
  used : ℕ
  total : ℕ
  batch : List Char
  writes : List (List Char)
  stored : List (BitVec 64 × ℤ)

def fmtFlush (s : FmtSink) : FmtSink :=
  if s.buf.isNone ∧ s.batch ≠ [] then { s with writes := s.writes ++ [s.batch], batch := [] } else s

def fmtEmit (s : FmtSink) (c : Char) : FmtSink :=
  let s := { s with total := s.total + 1 }
  match s.buf with
  | some m => if s.used + 1 < s.cap then { s with buf := some (Function.update m s.used c), used := s.used + 1 } else s
  | none =>
    let s := { s with batch := s.batch ++ [c] }
    if s.batch.length = fmtChunk then fmtFlush s else s

def fmtEmitStr (s : FmtSink) (str : List Char) : FmtSink := str.foldl fmtEmit s

/-- `int` arithmetic. -/
def wrap32 (x : ℤ) : ℤ := (BitVec.ofInt 32 x).toInt

def digitsLower : List Char := ['0','1','2','3','4','5','6','7','8','9','a','b','c','d','e','f']
def digitsUpper : List Char := ['0','1','2','3','4','5','6','7','8','9','A','B','C','D','E','F']

/-- The loop over `tmp`, which has place for `room` more digits. -/
def renderLoop (value base : ℕ) (digits : List Char) : ℕ → List Char
  | 0 => []
  | room+1 => if 0 < value then digits.getD (value % base) '0' :: renderLoop (value / base) base digits room else []

/-- `_fmt_render_unsigned` -/
def fmtRenderUnsigned (value base : ℕ) (upper : Bool) (outCap : ℕ) : List Char :=
  if value = 0 then ['0'].take outCap
  else (renderLoop value base (if upper then digitsUpper else digitsLower) 32).reverse.take outCap

/-- `_fmt_emit_padded` -/
def fmtEmitPadded (s : FmtSink) (body : List Char) (width : ℤ) (leftJustify zeroPad : Bool) (sign : Option Char) (pre : List Char)
    (prec : ℤ) : FmtSink :=
  let zeroPad := if 0 ≤ prec then false else zeroPad
  let precisionPad := if 0 ≤ prec ∧ body.length < prec.toNat then prec.toNat - body.length else 0
  let gone : Bool := prec = 0 ∧ body.length = 1 ∧ body.head? = some '0'
  let body := if gone then [] else body
  let precisionPad := if gone then 0 else precisionPad
  let natural := body.length + precisionPad + pre.length + (if sign.isSome then 1 else 0)
  let pad := if 0 < width ∧ natural < width.toNat then width.toNat - natural else 0
  let zeros := replicate precisionPad '0'
  if !leftJustify then
    if zeroPad then
      fmtEmitStr (fmtEmitStr (fmtEmitStr (fmtEmitStr (fmtEmitStr s sign.toList) pre) (replicate pad '0')) zeros) body
    else fmtEmitStr (fmtEmitStr (fmtEmitStr (fmtEmitStr (fmtEmitStr s (replicate pad ' ')) sign.toList) pre) zeros) body
  else fmtEmitStr (fmtEmitStr (fmtEmitStr (fmtEmitStr (fmtEmitStr s sign.toList) pre) zeros) body) (replicate pad ' ')

/-! ### The arguments

`va_arg` of another type than the argument has is undefined. -/

def vaInt : List Arg → Option (BitVec 32 × List Arg)
  | .int v :: args => some (v,args)
  | _ => none

def vaLong : List Arg → Option (BitVec 64 × List Arg)
  | .long v :: args => some (v,args)
  | _ => none

def vaPtr : List Arg → Option (BitVec 64 × List Arg)
  | .ptr v :: args => some (v,args)
  | _ => none

/-- An array with no NUL is read past its end. -/
def fmtStrlen (array : List Char) : Option ℕ := if '\x00' ∈ array then some (array.takeWhile (· ≠ '\x00')).length else none

/-- The characters of `%s` and how many there are. -/
def vaStr : List Arg → Option (List Char × ℕ × List Arg)
  | .str array :: args => (fmtStrlen array).map fun n => (array,n,args)
  | .ptr v :: args => if v = 0 then some ("(null)".toList,6,args) else none
  | _ => none

structure Flags where
  leftJustify : Bool
  zeroPad : Bool
  forceSign : Bool
  spaceSign : Bool
  altForm : Bool

def takeFlags (f : Flags) : List Char → Flags × List Char
  | [] => (f,[])
  | c :: s =>
    if c = '-' then takeFlags { f with leftJustify := true } s
    else if c = '0' then takeFlags { f with zeroPad := true } s
    else if c = '+' then takeFlags { f with forceSign := true } s
    else if c = ' ' then takeFlags { f with spaceSign := true } s
    else if c = '#' then takeFlags { f with altForm := true } s
    else (f,c :: s)

/-- `-` goes before `0`, and `+` before the space. -/
def Flags.settle (f : Flags) : Flags :=
  { f with zeroPad := f.zeroPad && !f.leftJustify, spaceSign := f.spaceSign && !f.forceSign }

def takeDigits (n : ℤ) : List Char → ℤ × List Char
  | [] => (n,[])
  | c :: s => if '0' ≤ c ∧ c ≤ '9' then takeDigits (wrap32 (n * 10 + (c.toNat - '0'.toNat))) s else (n,c :: s)

def takeWidth (leftJustify : Bool) (s : List Char) (args : List Arg) : Option (Bool × ℤ × List Char × List Arg) :=
  match s with
  | '*' :: s => (vaInt args).map fun (v,args) => if v.toInt < 0 then (true,wrap32 (-v.toInt),s,args) else (leftJustify,v.toInt,s,args)
  | s => some (leftJustify,(takeDigits 0 s).1,(takeDigits 0 s).2,args)

def takePrec (s : List Char) (args : List Arg) : Option (ℤ × List Char × List Arg) :=
  match s with
  | '.' :: '*' :: s => (vaInt args).map fun (v,args) => if v.toInt < 0 then (-1,s,args) else (v.toInt,s,args)
  | '.' :: s => some ((takeDigits 0 s).1,(takeDigits 0 s).2,args)
  | s => some (-1,s,args)

def takeLength : List Char → Bool × List Char
  | 'l' :: 'l' :: s => (true,s)
  | 'l' :: s => (true,s)
  | 'z' :: s => (true,s)
  | 'j' :: s => (true,s)
  | 't' :: s => (true,s)
  | 'h' :: 'h' :: s => (false,s)
  | 'h' :: s => (false,s)
  | s => (false,s)

/-- A signed argument; an `int` is widened. -/
def vaSigned (isLong : Bool) (args : List Arg) : Option (ℤ × List Arg) :=
  if isLong then (vaLong args).map fun (v,args) => (v.toInt,args) else (vaInt args).map fun (v,args) => (v.toInt,args)

def vaUnsigned (isLong : Bool) (args : List Arg) : Option (ℕ × List Arg) :=
  if isLong then (vaLong args).map fun (v,args) => (v.toNat,args) else (vaInt args).map fun (v,args) => (v.toNat,args)

/-- The size of `body`. -/
def bodyCap : ℕ := 40

/-- The `switch` over the conversion. -/
def fmtConvert (s : FmtSink) (f : Flags) (width prec : ℤ) (isLong : Bool) (spec : Char) (args : List Arg) : Option (FmtSink × List Arg) :=
  if spec = 'd' ∨ spec = 'i' then
    (vaSigned isLong args).map fun (v,args) =>
      let mag := if v < 0 then (-(v+1)).toNat + 1 else v.toNat
      let sign := if v < 0 then some '-' else if f.forceSign then some '+' else if f.spaceSign then some ' ' else none
      (fmtEmitPadded s (fmtRenderUnsigned mag 10 false bodyCap) width f.leftJustify f.zeroPad sign [] prec,args)
  else if spec = 'u' then
    (vaUnsigned isLong args).map fun (v,args) =>
      (fmtEmitPadded s (fmtRenderUnsigned v 10 false bodyCap) width f.leftJustify f.zeroPad none [] prec,args)
  else if spec = 'o' then
    (vaUnsigned isLong args).map fun (v,args) =>
      let body := fmtRenderUnsigned v 8 false bodyCap
      let pre := if f.altForm ∧ body.head? ≠ some '0' then ['0'] else []
      (fmtEmitPadded s body width f.leftJustify f.zeroPad none pre prec,args)
  else if spec = 'x' ∨ spec = 'X' then
    (vaUnsigned isLong args).map fun (v,args) =>
      let pre := if f.altForm ∧ v ≠ 0 then (if spec = 'X' then ['0','X'] else ['0','x']) else []
      (fmtEmitPadded s (fmtRenderUnsigned v 16 (spec = 'X') bodyCap) width f.leftJustify f.zeroPad none pre prec,args)
  else if spec = 'p' then
    (vaPtr args).map fun (v,args) =>
      let body := fmtRenderUnsigned v.toNat 16 false bodyCap
      (fmtEmitStr (fmtEmitStr (fmtEmitStr s ['0','x']) (replicate (16 - body.length) '0')) body,args)
  else if spec = 'c' then
    (vaInt args).map fun (v,args) => (fmtEmitPadded s [Char.ofNat (v.toNat % 256)] width f.leftJustify false none [] (-1),args)
  else if spec = 's' then
    (vaStr args).map fun (str,l,args) =>
      let l := if 0 ≤ prec ∧ prec.toNat < l then prec.toNat else l
      (fmtEmitPadded s (str.take l) width f.leftJustify false none [] (-1),args)
  else if spec = 'n' then
    (vaPtr args).map fun (dst,args) => (if dst ≠ 0 then { s with stored := s.stored ++ [(dst,wrap32 s.total)] } else s,args)
  else if spec = '%' then some (fmtEmit s '%',args)
  else some (fmtEmit (fmtEmit s '%') spec,args)

/-- From behind a `%` to behind its conversion; a format may end before it. -/
def fmtDirective (s : FmtSink) (fmt : List Char) (args : List Arg) : Option (FmtSink × List Char × List Arg) := do
  let (flags,fmt) := takeFlags ⟨false,false,false,false,false⟩ fmt
  let flags := flags.settle
  let (left,width,fmt,args) ← takeWidth flags.leftJustify fmt args
  let (prec,fmt,args) ← takePrec fmt args
  match takeLength fmt with
  | (_,[]) => some (s,[],args)
  | (isLong,spec :: fmt) => (fmtConvert s { flags with leftJustify := left } width prec isLong spec args).map fun (s,args) => (s,fmt,args)

/-- `_fmt_vformat` up to the end of the format; each turn takes a character of it. -/
def fmtLoop : ℕ → FmtSink → List Char → List Arg → Option FmtSink
  | _,s,[],_ => some s
  | 0,_,_ :: _,_ => none
  | fuel+1,s,c :: fmt,args =>
    if c ≠ '%' then fmtLoop fuel (fmtEmit s c) fmt args
    else (fmtDirective s fmt args).bind fun (s,fmt,args) => fmtLoop fuel s fmt args

/-- The end of `_fmt_vformat`: the last batch, and the NUL. -/
def fmtFinish (s : FmtSink) : FmtSink :=
  let s := fmtFlush s
  match s.buf with
  | some m => if 0 < s.cap then { s with buf := some (Function.update m (if s.used < s.cap then s.used else s.cap - 1) '\x00') } else s
  | none => s

/-- `_fmt_vformat`: the sink and what is returned. -/
def fmtVformat (s : FmtSink) (fmt : List Char) (args : List Arg) : Option (FmtSink × ℤ) :=
  (fmtLoop fmt.length s fmt args).map fun s => (fmtFinish s,wrap32 s.total)

def vsnprintf (buf : Option (ℕ → Char)) (cap : ℕ) (fmt : List Char) (args : List Arg) : Option (FmtSink × ℤ) :=
  fmtVformat ⟨buf,cap,0,0,[],[],[]⟩ fmt args

end VibeOS.Printf

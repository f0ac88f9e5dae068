import VibeOS.Widths
import Mathlib.Data.Nat.Digits.Defs
import Mathlib.Data.List.DropRight

/-! `/bin/ar`: the writer `cmd_rc`, the lister `cmd_t`, and the archives that the head of `ar.c` describes. -/
namespace VibeOS.Ar

/-- The file behind the descriptor of `out.a`, cut at the file offset, and the number of calls of `write` so far. -/
structure Out where
  done : List UInt8
  rest : List UInt8
  calls : ℕ

def Out.bytes (o : Out) : List UInt8 := o.done ++ o.rest

/-- What the calls of `write` do, in order: `none` fails, `some t` takes at most `t + 1` of the bytes. -/
abbrev Kernel := ℕ → Option ℕ

def Out.put (o : Out) (b : List UInt8) : Out := ⟨o.done ++ b,o.rest.drop b.length,o.calls + 1⟩

def writeAll (took : Kernel) (o : Out) (p : List UInt8) : Out :=
  if _h : p = [] then o else
    match took o.calls with
    | none => { o with calls := o.calls + 1 }
    | some t => writeAll took (o.put (p.take (t + 1))) (p.drop (t + 1))
termination_by p.length
decreasing_by
  have := List.length_pos_iff.mpr _h
  rw [List.length_drop]
  omega

def padField (width : ℕ) (src : List UInt8) (fill : UInt8) : List UInt8 :=
  src.take width ++ List.replicate (width - src.length) fill

def decStr (v : ℕ) : List UInt8 :=
  let tmp := if v = 0 then [48] else (Nat.digits 10 v).map fun d => 48 + UInt8.ofNat d
  tmp.reverse

/-- `r = p + 1` at each slash. -/
def basenameFrom (r : List UInt8) : List UInt8 → List UInt8
  | [] => r
  | c :: p => basenameFrom (if c = 47 then p else r) p

def basenameOf (path : List UInt8) : List UInt8 := basenameFrom path path

/-- The sixty bytes that `write_header` fills in. -/
def header (name : List UInt8) (size : ℕ) (longName : Bool) : List UInt8 :=
  padField 16 (if longName then [35,49,47] ++ decStr name.length else name.take 15 ++ [47]) 32 ++
    padField 12 [48] 32 ++ padField 6 [48] 32 ++ padField 6 [48] 32 ++
    padField 8 [49,48,48,54,52,52] 32 ++ padField 10 (decStr size) 32 ++ [96,10]

abbrev Chars := {s : List UInt8 // (0 : UInt8) ∉ s}

/-- An input of `cmd_rc`, with the bytes that `read_whole` found in it. -/
structure Input where
  path : Chars
  data : List UInt8

def Input.name (f : Input) : List UInt8 := basenameOf f.path
def Input.longName (f : Input) : Bool := decide (15 < f.name.length)
def Input.total (f : Input) : ℕ := f.data.length + if f.longName then f.name.length else 0

/-- One turn of the loop of `cmd_rc`. -/
def addMember (took : Kernel) (o : Out) (f : Input) : Out :=
  let o := writeAll took o (header f.name f.total f.longName)
  let o := if f.longName then writeAll took o f.name else o
  let o := writeAll took o f.data
  if f.total % 2 = 1 then writeAll took o [10] else o

def magic : List UInt8 := [33,60,97,114,99,104,62,10]

/-- The loop of `cmd_rc`; `none` where an input is not readable, and 1 is returned. -/
def addMembers (took : Kernel) (readWhole : Chars → Option (List UInt8)) (o : Out) : List Chars → Option Out
  | [] => some o
  | path :: paths => do
    let data ← readWhole path
    addMembers took readWhole (addMember took o ⟨path,data⟩) paths

/-- `cmd_rc` on an `out.a` that can be opened and holds `old`. It is opened without `O_TRUNC`. -/
def cmdRc (took : Kernel) (readWhole : Chars → Option (List UInt8)) (old : List UInt8) (paths : List Chars) : Option Out :=
  addMembers took readWhole (writeAll took ⟨[],old,0⟩ magic) paths

/-- `n` bytes of the buffer from `a` on; `none` where one lies outside. -/
def copy (data : List UInt8) (a : UInt64) : ℕ → Option (List UInt8)
  | 0 => some []
  | n+1 => do
    let c ← data[a.toNat]?
    let cs ← copy data (a + 1) n
    some (c :: cs)

def number (digits : List UInt8) : UInt64 := digits.foldl (fun v c => v * 10 + (c.toUInt64 - 48)) 0

def cstr (b : List UInt8) : List UInt8 := b.takeWhile (· ≠ 0)

def memberName (nbuf : List UInt8) : List UInt8 :=
  let s := cstr (nbuf.rdropWhile (· = 32))
  if s.getLast? = some 47 then s.dropLast else s

/-- The line printed for the header at `off`, and the next offset. -/
def listOne (data : List UInt8) (off : UInt64) : Option (List UInt8 × UInt64) := do
  let szbuf ← copy data (off + 48) 10
  let msize := number (szbuf.takeWhile (· ≠ 32))
  let nbuf ← copy data off 16
  let nm := memberName nbuf
  let line ← if [35,49,47].isPrefixOf nm then (copy data (off + 60) (min (number (nm.drop 3)).toNat 255)).map cstr else some nm
  let off := off + (60 + msize)
  some (line,if off % 2 = 1 then off + 1 else off)

inductive Listing where
  | done (lines : List (List UInt8))
  | outside
  | running
  deriving DecidableEq

def Listing.cons (line : List UInt8) : Listing → Listing
  | .done lines => .done (line :: lines)
  | r => r

def cmdTLoop (data : List UInt8) : ℕ → UInt64 → Listing
  | 0,_ => .running
  | fuel+1,off =>
    if off + 60 ≤ UInt64.ofNat data.length then
      match listOne data off with
      | none => .outside
      | some (line,off) => (cmdTLoop data fuel off).cons line
    else .done []

/-- `none` where the file is no archive. -/
def cmdT (fuel : ℕ) (data : List UInt8) : Option Listing := if magic.isPrefixOf data then some (cmdTLoop data fuel 8) else none

def field (width : ℕ) (s : List UInt8) : List UInt8 := s ++ List.replicate (width - s.length) 32

/-- The name field: the name and a slash, or the length of a longer name, which is then written before the bytes. -/
def nameField (name : List UInt8) : List UInt8 :=
  if name.length ≤ 15 then name ++ [47] else [35,49,47] ++ decStr name.length

def payload (name data : List UInt8) : List UInt8 := if name.length ≤ 15 then data else name ++ data

def member (name data : List UInt8) : List UInt8 :=
  field 16 (nameField name) ++ field 12 [48] ++ field 6 [48] ++ field 6 [48] ++ field 8 [49,48,48,54,52,52] ++
    field 10 (decStr (payload name data).length) ++ [96,10] ++ payload name data ++
    if (payload name data).length % 2 = 1 then [10] else []

def archive (fs : List Input) : List UInt8 := magic ++ fs.flatMap fun f => member f.name f.data

/-- The fields are wide enough for what they say. -/
structure Fits (f : Input) : Prop where
  name : (nameField f.name).length ≤ 16
  size : (decStr (payload f.name f.data).length).length ≤ 10

/-- The file is exactly the archive of the inputs, and the lister prints their names. -/
structure RoundTrip (fs : List Input) (file : List UInt8) : Prop where
  fits : ∀ f ∈ fs, Fits f
  exact : file = archive fs
  lists : ∃ fuel, cmdT fuel file = some (.done (fs.map Input.name))

/-- The lister ends and has read nothing outside of the buffer. -/
def Robust (data : List UInt8) : Prop := ∃ fuel, cmdT fuel data = none ∨ ∃ lines, cmdT fuel data = some (.done lines)

end VibeOS.Ar

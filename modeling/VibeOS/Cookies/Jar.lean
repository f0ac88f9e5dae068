import VibeOS.Runs
import Mathlib.Data.List.DropRight
import Mathlib.Tactic.Ring

/-! The cookies of `cookies.h`: a text file for each host, which `cookie_store_set` reads and writes
again and `cookie_store_get` reads. -/
namespace VibeOS.Cookies
open List Option Nat

/-- COOKIE_NAME_MAX -/
def nameMax : ℕ := 64
/-- COOKIE_VALUE_MAX -/
def valueMax : ℕ := 256
/-- COOKIE_PATH_MAX -/
def pathMax : ℕ := 64
/-- COOKIE_HOST_MAX -/
def hostMax : ℕ := 128
/-- COOKIE_LINE_MAX -/
def lineMax : ℕ := 512
/-- COOKIE_MAX_PER_HOST -/
def maxPerHost : ℕ := 64
/-- What `ck_slurp` reads of a file at most. -/
def slurpMax : ℕ := 64*1024

def nul : Char := Char.ofNat 0

abbrev CString := {s : List Char // nul ∉ s}

/-- `struct cookie_attr`, with its arrays read as C strings. -/
structure Cookie where
  name : List Char
  value : List Char
  path : List Char
  expires : ℤ
  deriving DecidableEq

def lower (s : List Char) : List Char := s.map Char.toLower

/-- `ck_ieq_prefix` -/
def ieqPrefix : List Char → List Char → Bool
  | _, [] => true
  | [], _ :: _ => false
  | a :: s, b :: p => a.toLower == b.toLower && ieqPrefix s p

/-- `ck_copy_clamped`, up to the first NUL. -/
def copyClamped (cap : ℕ) (s : List Char) : List Char := (s.take (cap - 1)).takeWhile (· != nul)

/-- `ck_parse_decimal`; a number that does not fit wraps. -/
def parseDecimal (s : List Char) : Option ℤ :=
  let neg := s.head? == some '-'
  let digits := (if neg then s.tail else s).takeWhile Char.isDigit
  if digits = [] then none
  else
    let v : ℤ := ofDigitChars 10 digits 0
    some ((if neg then -v else v).bmod (2^64))

/-- `%lld` -/
def decimal (v : ℤ) : List Char := (if v < 0 then ['-'] else []) ++ toDigits 10 v.natAbs

/-- `ck_sanitize_host` -/
def sanitizeHost (host : List Char) : List Char :=
  (host.take (hostMax - 1)).map fun c => if c.isAlphanum || c == '.' || c == '_' || c == '-' then c else '_'

def blank (c : Char) : Bool := c == ' ' || c == '\t'

def trim (s : List Char) : List Char := (s.dropWhile blank).rdropWhile blank

/-- What an attribute does, which is the text between two `;`. -/
def attr (now : ℤ) (clamp : List Char → List Char) (c : Cookie) (a : List Char) : Cookie :=
  let name := lower (trim (a.takeWhile (· != '=')))
  let value := trim (a.dropWhile (· != '=')).tail
  if name = "max-age".toList then
    match parseDecimal value with
    | some secs => { c with expires := if secs ≤ 0 then 1 else (now + secs).bmod (2^64) }
    | none => c
  else if name = "path".toList then
    if value.head? = some '/' then { c with path := clamp value } else c
  else c

/-- The value up to the first `;`, with the blanks at its end. -/
def rawValue (header : List Char) : List Char :=
  ((header.takeWhile (· != ';')).dropWhile (· != '=')).tail.dropWhile blank

/-- `cookie_parse_set`. The attributes are looked for where the value ends, so that there are none for it
behind a value with blanks at its end. -/
def cookieParseSet (header : List Char) (now : ℤ) : Option Cookie :=
  let pair := header.takeWhile (· != ';')
  let attrs := (header.dropWhile (· != ';')).tail
  let name := copyClamped nameMax (trim (pair.takeWhile (· != '=')))
  let value := rawValue header
  if '=' ∉ pair ∨ name = [] then none
  else
    let c : Cookie := ⟨name,copyClamped valueMax (value.rdropWhile blank),['/'],0⟩
    if value.getLast?.any blank then some c
    else some ((attrs.splitOn ';').foldl (attr now (copyClamped pathMax)) c)

def fields (c : Cookie) : List Char :=
  c.name ++ '\t' :: (c.value ++ '\t' :: (decimal c.expires ++ '\t' :: (if c.path = [] then ['/'] else c.path)))

/-- What `ck_write_jar` writes for a cookie, of which `snprintf` cuts a line that is too long. -/
def line (c : Cookie) : List Char :=
  let s := fields c ++ ['\n']
  if s.length < lineMax then s else s.take (lineMax - 1) ++ [nul]

def untilTab (s : List Char) : Option (List Char × List Char) :=
  match s.dropWhile (· != '\t') with
  | [] => none
  | _ :: rest => some (s.takeWhile (· != '\t'),rest)

/-- A line in `ck_load_lines`. -/
def loadLine (s : List Char) : Option Cookie :=
  (untilTab s).bind fun (name,s) =>
  (untilTab s).bind fun (value,s) =>
  (untilTab s).bind fun (expires,path) =>
    let path := copyClamped pathMax path
    let c : Cookie := ⟨copyClamped nameMax name,copyClamped valueMax value,if path = [] then ['/'] else path,
      (parseDecimal expires).getD 0⟩
    if c.name = [] then none else some c

/-- `ck_load_lines` -/
def loadLines (buf : List Char) : List Cookie := ((buf.splitOn '\n').filterMap loadLine).take maxPerHost

/-- The text that `ck_write_jar` writes. -/
def written (jar : List Cookie) : List Char := (jar.filter fun c => c.name ≠ []).flatMap line

/-- The files of /data/cookies, and what is behind them: the cookies that were set and for which host, from
the last one on, and the hosts that were asked or told about. -/
structure Disk where
  files : List Char → Option (List Char)
  sets : List (CString × Cookie)
  hosts : List CString

/-- `ck_slurp` and `ck_load_lines`; `ok` tells that memory and the file can be had. -/
def Disk.load (d : Disk) (host : CString) (ok : Bool) : Option (List Cookie) :=
  if ok then (d.files (sanitizeHost host.1)).map fun buf => loadLines (buf.take slurpMax) else none

/-- The test of `cookie_store_set` for the cookie to replace. -/
def replaces (c old : Cookie) : Bool :=
  (old.name.length == c.name.length && ieqPrefix old.name c.name) && (old.path.length == c.path.length && ieqPrefix old.path c.path)

def merge (jar : List Cookie) (c : Cookie) : Option (List Cookie) :=
  match jar.findIdx? (replaces c) with
  | some slot => some (jar.set slot c)
  | none => if jar.length ≥ maxPerHost then none else some (jar ++ [c])

/-- `cookie_store_set` -/
def Disk.cookieStoreSet (d : Disk) (host : CString) (c : Cookie) (readOk writeOk : Bool) : ℤ × Disk :=
  match merge ((d.load host readOk).getD []) c with
  | none => (-1,d)
  | some jar =>
    if writeOk then (0,{ d with files := Function.update d.files (sanitizeHost host.1) (some (written jar)) }) else (-1,d)

def pathMatches (stored path : List Char) : Bool :=
  stored.isPrefixOf path && (stored = [] || stored.getLast? == some '/' || path.length ≤ stored.length || path[stored.length]? == some '/')

/-- The tests that a cookie passes before it is emitted. -/
def applies (path : List Char) (now : ℤ) (c : Cookie) : Bool :=
  !(c.expires ≠ 0 && c.expires ≤ now) && pathMatches c.path path

def pair (c : Cookie) : List Char := c.name ++ '=' :: c.value

/-- The loop, with what is in `out` and how many cookies are. -/
def emit (cap : ℕ) : List Cookie → List Char → ℕ → ℤ × List Char
  | [], out, emitted => (emitted,out)
  | c :: cs, out, emitted =>
    let piece := (if emitted > 0 then "; ".toList else []) ++ pair c
    if piece.length ≥ cap - out.length then (-1,out) else emit cap cs (out ++ piece) (emitted + 1)

/-- `cookie_store_get`, with the text in `out`. -/
def Disk.cookieStoreGet (d : Disk) (host path : CString) (now : ℤ) (cap : ℕ) (ok : Bool) : ℤ × List Char :=
  if cap = 0 then (-1,[])
  else
    match d.load host ok with
    | none => (0,[])
    | some jar => emit cap (jar.filter (applies path.1 now)) [] 0

inductive Event
  /-- a response from the host with a Set-Cookie header -/
  | response (host : CString) (header : List Char) (now : ℤ) (readOk writeOk : Bool)
  /-- a request for a path on the host -/
  | request (host path : CString) (now : ℤ) (cap : ℕ) (ok : Bool)

/-- What a header says: its first part, and its attributes. -/
def reading (header : List Char) (now : ℤ) : Option Cookie :=
  let pair := header.takeWhile (· != ';')
  let attrs := (header.dropWhile (· != ';')).tail
  let name := trim (pair.takeWhile (· != '='))
  if '=' ∉ pair ∨ name = [] then none
  else some ((attrs.splitOn ';').foldl (attr now id) ⟨name,(rawValue header).rdropWhile blank,['/'],0⟩)

/-- The answer is what `cookie_store_get` returns and writes; a response has none. -/
def Disk.step (d : Disk) : Event → Option (Option (ℤ × List Char) × Disk)
  | .response host header now readOk writeOk =>
    let told := { d with
      sets := match reading header now with
        | some c => (host,c) :: d.sets
        | none => d.sets
      hosts := host :: d.hosts }
    match cookieParseSet header now with
    | none => some (none,told)
    | some c => some (none,(told.cookieStoreSet host c readOk writeOk).2)
  | .request host path now cap ok => some (some (d.cookieStoreGet host path now cap ok),{ d with hosts := host :: d.hosts })

def empty : Disk := ⟨fun _ => none,[],[]⟩


/-! A jar that was written is read as it was. -/

/-- What fits into a line and is found in it again. -/
structure WellFormed (c : Cookie) : Prop where
  name : c.name ≠ [] ∧ c.name.length < nameMax ∧ nul ∉ c.name ∧ '\n' ∉ c.name ∧ '\t' ∉ c.name
  value : c.value.length < valueMax ∧ nul ∉ c.value ∧ '\n' ∉ c.value ∧ '\t' ∉ c.value
  path : c.path ≠ [] ∧ c.path.length < pathMax ∧ nul ∉ c.path ∧ '\n' ∉ c.path
  expires : c.expires.bmod (2^64) = c.expires

lemma isDigit_toDigits (n : ℕ) : ∀ c ∈ toDigits 10 n, c.isDigit = true := fun _ hc =>
  isDigit_of_mem_toDigits (by decide) (by decide) hc

lemma takeWhile_toDigits (n : ℕ) : (toDigits 10 n).takeWhile Char.isDigit = toDigits 10 n :=
  List.takeWhile_eq_self_iff.mpr (isDigit_toDigits n)

lemma parseDecimal_decimal {v : ℤ} (hv : v.bmod (2^64) = v) : parseDecimal (decimal v) = some v := by
  have hvalue : ofDigitChars 10 (toDigits 10 v.natAbs) 0 = v.natAbs := ofDigitChars_ten_toDigits
  unfold parseDecimal decimal
  by_cases hneg : v < 0
  · have habs : -(v.natAbs : ℤ) = v := by omega
    have hhead : (('-' :: toDigits 10 v.natAbs).head? == some '-') = true := rfl
    simp only [hneg,if_true,singleton_append,hhead,tail_cons,takeWhile_toDigits,toDigits_ne_nil,if_false,
      hvalue,habs,hv]
  · have habs : (v.natAbs : ℤ) = v := by omega
    have hhead : ((toDigits 10 v.natAbs).head? == some '-') = false := by
      cases hd : toDigits 10 v.natAbs with
      | nil => rfl
      | cons a l =>
        have ha := isDigit_toDigits v.natAbs a (by rw [hd]; exact mem_cons_self)
        refine Bool.eq_false_iff.mpr fun h => ?_
        obtain rfl : a = '-' := by simpa using h
        cases ha
    simp only [hneg,if_false,nil_append,hhead,Bool.false_eq_true,takeWhile_toDigits,toDigits_ne_nil,hvalue,habs,hv]

lemma not_mem_decimal {c : Char} (hc : c.isDigit = false) (hminus : c ≠ '-') (v : ℤ) : c ∉ decimal v := by
  intro h
  obtain h | h := List.mem_append.mp h
  · split at h
    · exact hminus (List.mem_singleton.mp h)
    · cases h
  · rw [isDigit_toDigits _ c h] at hc
    cases hc

lemma length_decimal {v : ℤ} (hv : v.bmod (2^64) = v) : (decimal v).length ≤ 20 := by
  have hlow := Int.le_bmod (x := v) (m := 2^64) (by decide)
  have hhigh := Int.bmod_lt (x := v) (m := 2^64) (by decide)
  rw [hv] at hlow hhigh
  have habs : v.natAbs < 10^19 := by omega
  have hdigits := (length_toDigits_le_iff (b := 10) (n := v.natAbs) (k := 19) (by decide) (by decide)).mpr habs
  have hsign : (if v < 0 then ['-'] else []).length ≤ 1 := by split <;> decide
  rw [decimal,length_append]
  omega

lemma copyClamped_of_lt {cap : ℕ} {s : List Char} (hlen : s.length < cap) (hnul : nul ∉ s) : copyClamped cap s = s := by
  rw [copyClamped,take_of_length_le (by omega),takeWhile_eq_self_iff]
  intro c hc
  exact bne_iff_ne.mpr fun heq => hnul (heq ▸ hc)

lemma untilTab_append {a : List Char} (ha : '\t' ∉ a) (b : List Char) : untilTab (a ++ '\t' :: b) = some (a,b) := by
  have hall : ∀ c ∈ a, (c != '\t') = true := fun c hc => bne_iff_ne.mpr fun heq => ha (heq ▸ hc)
  simp [untilTab,dropWhile_append_of_pos hall,takeWhile_append_of_pos hall]

variable {c : Cookie}

lemma fields_eq (h : WellFormed c) :
    fields c = c.name ++ '\t' :: (c.value ++ '\t' :: (decimal c.expires ++ '\t' :: c.path)) := by
  rw [fields,if_neg h.path.1]

lemma loadLine_fields (h : WellFormed c) : loadLine (fields c) = some c := by
  obtain ⟨⟨hname,hnameLen,hnameNul,-,hnameTab⟩,⟨hvalueLen,hvalueNul,-,hvalueTab⟩,⟨hpath,hpathLen,hpathNul,-⟩,hexpires⟩ := h
  have htab : '\t' ∉ decimal c.expires := not_mem_decimal (by decide) (by decide) _
  rw [fields,if_neg hpath]
  simp only [loadLine,untilTab_append hnameTab,untilTab_append hvalueTab,untilTab_append htab,bind_some,
    copyClamped_of_lt hnameLen hnameNul,copyClamped_of_lt hvalueLen hvalueNul,copyClamped_of_lt hpathLen hpathNul,
    parseDecimal_decimal hexpires,getD_some,if_neg hpath,if_neg hname]

lemma length_fields (h : WellFormed c) : (fields c).length ≤ 404 := by
  have hname := h.name.2.1
  have hvalue := h.value.1
  have hpath := h.path.2.1
  have hnumber := length_decimal h.expires
  rw [fields_eq h]
  simp only [length_append,length_cons,nameMax,valueMax,pathMax] at *
  omega

lemma line_eq (h : WellFormed c) : line c = fields c ++ ['\n'] := by
  have hlen := length_fields h
  unfold line
  dsimp only
  rw [if_pos]
  simp only [length_append,length_singleton,lineMax]
  omega

lemma not_mem_fields (h : WellFormed c) : '\n' ∉ fields c := by
  have hnumber : '\n' ∉ decimal c.expires := not_mem_decimal (by decide) (by decide) _
  rw [fields_eq h]
  simp [h.name.2.2.2.1,h.value.2.2.1,h.path.2.2.2,hnumber]

lemma written_cons (h : WellFormed c) (jar : List Cookie) : written (c :: jar) = fields c ++ '\n' :: written jar := by
  rw [written,filter_cons_of_pos (by simpa using h.name.1),flatMap_cons,line_eq h]
  simp [written]

variable {jar : List Cookie}

lemma length_written (h : ∀ c ∈ jar, WellFormed c) : (written jar).length ≤ 405*jar.length := by
  induction jar with
  | nil => exact Nat.zero_le _
  | cons c jar ih =>
    have hc := length_fields (h c mem_cons_self)
    have hrest := ih fun d hd => h d (mem_cons_of_mem _ hd)
    rw [written_cons (h c mem_cons_self)]
    simp only [length_append,length_cons]
    omega

lemma filterMap_written (h : ∀ c ∈ jar, WellFormed c) :
    ((written jar).splitOn '\n').filterMap loadLine = jar := by
  induction jar with
  | nil => rfl
  | cons c jar ih =>
    have hc := h c mem_cons_self
    rw [written_cons hc,splitOn_append_cons_self_of_not_mem (not_mem_fields hc),
      filterMap_cons_some (loadLine_fields hc),ih fun d hd => h d (mem_cons_of_mem _ hd)]

lemma loadLines_written (h : ∀ c ∈ jar, WellFormed c) (hlen : jar.length ≤ maxPerHost) :
    loadLines ((written jar).take slurpMax) = jar := by
  have hsize := length_written h
  rw [take_of_length_le (by simp only [maxPerHost,slurpMax] at *; omega),loadLines,filterMap_written h]
  exact take_of_length_le hlen

end VibeOS.Cookies

import VibeOS.Widths
import Mathlib.Data.List.TakeWhile
import Mathlib.Data.List.Infix

/-! `httpd.c`: a request is read, parsed and dispatched. A character is its byte, and what the client sends is the
list of what the reads would give. -/
namespace VibeOS.Httpd

abbrev Bytes := List UInt8

/-- `HTTPD_REQ_CAP` -/
def reqCap : ℕ := 4096

/-- `HTTPD_PATH_CAP` -/
def pathCap : ℕ := 512

def cstr (s : Bytes) : Bytes := s.takeWhile (· ≠ 0)

/-- The offset just past the first `\r\n\r\n`. -/
def blankEnd : Bytes → Option ℕ
  | [] => none
  | b :: s => if [13,10,13,10].isPrefixOf (b :: s) then some 4 else (blankEnd s).map (· + 1)

/-- At most `n` bytes that are no space, then a space: the bytes, and what is behind the space. -/
def word : ℕ → Bytes → Option (Bytes × Bytes)
  | _, [] => none
  | n, b :: s =>
    if b = 32 then some ([],s)
    else if n = 0 then none
    else (word (n - 1) s).map fun r => (b :: r.1,r.2)

/-- `HTTP/1.0` or `HTTP/1.1` -/
def isVersion (s : Bytes) : Bool :=
  [72,84,84,80,47,49,46,48].isPrefixOf s || [72,84,84,80,47,49,46,49].isPrefixOf s

/-- `raw` is the buffer up to `*raw_len_out`. -/
structure Request where
  status : ℤ
  raw : Bytes
  target : Bytes
  method : Option UInt8
deriving DecidableEq

/-- The dispatch over the method, `G` or `H`. -/
def verdict (method : Bytes) : ℤ × Option UInt8 :=
  if cstr method = [71,69,84] then (0,some 71)
  else if cstr method = [72,69,65,68] then (0,some 72)
  else (-405,none)

/-- The part of `read_request` behind the loop: `METHOD SP TARGET SP HTTP/VER`, over all that has been received. -/
def parse (raw buf : Bytes) : Request :=
  match word 7 buf with
  | none => ⟨-400,raw,[],none⟩
  | some (method,s) =>
    match word (pathCap - 1) s with
    | none => ⟨-400,raw,[],none⟩
    | some (target,s) =>
      if isVersion s then ⟨(verdict method).1,raw,target,(verdict method).2⟩ else ⟨-400,raw,target,none⟩

/-- The loop of `read_request`, with `buf` received. A read that fills the buffer is the last one, so that nothing
reads what it leaves. -/
def readRequest (buf : Bytes) : List Bytes → Request
  | [] => ⟨-400,[],[],none⟩
  | c :: chunks =>
    let got := c.take (reqCap - 1 - buf.length)
    if got = [] then ⟨-400,[],[],none⟩
    else
      match blankEnd (buf ++ got) with
      | some e => parse ((buf ++ got).take e) (buf ++ got)
      | none => readRequest (buf ++ got) chunks

/-- `write_all` with the results of its writes, 0 for an error: what is sent, whether that is all, and the writes that
are left. -/
def writeAll : List ℕ → Bytes → Bytes × Bool × List ℕ
  | ws, [] => ([],true,ws)
  | [], _ :: _ => ([],false,[])
  | w :: ws, b :: s =>
    if w = 0 then ([],false,ws)
    else
      let r := writeAll ws ((b :: s).drop w)
      ((b :: s).take w ++ r.1,r.2)

/-- The bytes that the client gets of what is read from upstream, and whether it gets all; an empty read is the end. -/
def splice : List ℕ → List Bytes → Bytes × Bool
  | _, [] => ([],true)
  | ws, c :: cs =>
    if c = [] then ([],true)
    else if (writeAll ws c).2.1 then
      ((writeAll ws c).1 ++ (splice (writeAll ws c).2.2 cs).1,(splice (writeAll ws c).2.2 cs).2)
    else ((writeAll ws c).1,false)

variable {s m w raw : Bytes} {n e : ℕ}

lemma word_of_space {r : Bytes} (hw : 32 ∉ w) (hn : w.length ≤ n) : word n (w ++ 32 :: r) = some (w,r) := by
  induction w generalizing n with
  | nil => simp [word]
  | cons b w ih =>
    rw [List.mem_cons,not_or] at hw
    rw [List.length_cons] at hn
    rw [List.cons_append,word,if_neg (Ne.symm hw.1),if_neg (by omega),ih hw.2 (by omega)]
    rfl

lemma isVersion_append (h : isVersion s) : isVersion (s ++ m) := by
  simp only [isVersion,Bool.or_eq_true,List.isPrefixOf_iff_prefix] at h ⊢
  exact h.imp (·.trans (List.prefix_append s m)) (·.trans (List.prefix_append s m))

/-- A request line of the form that `read_request` is for. -/
structure RequestLine (block method target : Bytes) : Prop where
  line : ∃ v ∈ [[72,84,84,80,47,49,46,48],[72,84,84,80,47,49,46,49]], ∃ headers,
    block = method ++ 32 :: (target ++ 32 :: (v ++ 13 :: 10 :: headers))
  method : 32 ∉ method ∧ method.length ≤ 7
  target : 32 ∉ target ∧ target.length ≤ pathCap - 1

lemma RequestLine.parse {block method target : Bytes} (h : RequestLine block method target) :
    parse raw block = ⟨(verdict method).1,raw,target,(verdict method).2⟩ := by
  obtain ⟨v,hv,headers,rfl⟩ := h.line
  have hver : isVersion (v ++ 13 :: 10 :: headers) := by
    apply isVersion_append
    exact (by decide : ∀ v ∈ [[72,84,84,80,47,49,46,48],[72,84,84,80,47,49,46,49]], isVersion v = true) v hv
  simp only [Httpd.parse,word_of_space h.method.1 h.method.2,word_of_space h.target.1 h.target.2,hver,if_true]

/-- Of what the client sends, what the buffer can take. -/
def held (chunks : List Bytes) : Bytes := chunks.flatten.take (reqCap - 1)

end VibeOS.Httpd

import VibeOS.Storage.Script

/-! `dns.c`: the names of a message, and what is read from an answer. -/
namespace VibeOS.Dns
open VibeOS.Storage

/-- DNS_MSG_MAX -/
def dnsMsgMax : ℕ := 512

abbrev Message := {msg : List UInt8 // msg.length ≤ dnsMsgMax}

def dot : UInt8 := 46

/-- The loop of `encode_qname`. Every turn takes a letter of the name at least. -/
def encodeLabels (cap : ℕ) : ℕ → List UInt8 → List UInt8 → Option (List UInt8)
  | _, [], buf => if buf.length + 1 > cap then none else some (buf ++ [0])
  | 0, _ :: _, _ => none
  | fuel + 1, p, buf =>
    let label := p.takeWhile (· ≠ dot)
    if label.length = 0 ∨ label.length > 63 then none
    else if buf.length + 1 + label.length > cap then none
    else encodeLabels cap fuel (p.drop (label.length + 1)) (buf ++ UInt8.ofNat label.length :: label)

/-- `encode_qname` into a buffer with `cap` bytes. -/
def encodeQname (cap : ℕ) (name : List UInt8) : Option (List UInt8) :=
  if name = [] then none else encodeLabels cap name.length name []

/-- The loop of `skip_name`, where `left` labels are allowed still. -/
def skipLabels (msg : List UInt8) (left : ℕ) (off : ℕ) : Checked (Option ℕ) :=
  if off < msg.length then do
    let b ← fetch msg off
    if b &&& 0xC0 = 0xC0 then return some (off + 2)
    else if b = 0 then return some (off + 1)
    else if off + 1 + b.toNat > msg.length then return none
    else match left with
      | 0 => return none
      | left + 1 => skipLabels msg left (off + 1 + b.toNat)
  else return none

/-- `skip_name` -/
def skipName (msg : List UInt8) (off : ℕ) : Checked (Option ℕ) := skipLabels msg 128 off

def typeA : ℕ := 1
def classIn : ℕ := 1

def skipQuestions (msg : List UInt8) : ℕ → ℕ → Checked (Option ℕ)
  | 0, off => return some off
  | qd + 1, off => do
    match ← skipName msg off with
    | none => return none
    | some off =>
      if off + 4 > msg.length then return none
      else skipQuestions msg qd (off + 4)

def findAddress (msg : List UInt8) : ℕ → ℕ → Checked (Option (List UInt8))
  | 0, _ => return none
  | an + 1, off => do
    match ← skipName msg off with
    | none => return none
    | some off =>
      if off + 10 > msg.length then return none
      else
        let type ← fetchBe16 msg off
        let cls ← fetchBe16 msg (off + 2)
        let rdlen ← fetchBe16 msg (off + 8)
        let off := off + 10
        if off + rdlen > msg.length then return none
        else if type = typeA ∧ cls = classIn ∧ rdlen = 4 then
          let b₀ ← fetch msg off
          let b₁ ← fetch msg (off + 1)
          let b₂ ← fetch msg (off + 2)
          let b₃ ← fetch msg (off + 3)
          return some [b₀,b₁,b₂,b₃]
        else findAddress msg an (off + rdlen)

/-- The flag DNS_QR_RESPONSE. -/
def isResponse (flags : ℕ) : Bool := flags.testBit 15

/-- The flag DNS_FLAG_TC. -/
def isTruncated (flags : ℕ) : Bool := flags.testBit 9

/-- DNS_RCODE_MASK -/
def rcode (flags : ℕ) : ℕ := flags % 16

/-- `parse_answer`: the four bytes of `out_ip`, or nothing for -1. -/
def parseAnswer (msg : List UInt8) : Checked (Option (List UInt8)) :=
  if msg.length < 12 then return none
  else do
    let flags ← fetchBe16 msg 2
    let qdcount ← fetchBe16 msg 4
    let ancount ← fetchBe16 msg 6
    if ¬isResponse flags then return none
    else if isTruncated flags then return none
    else if rcode flags ≠ 0 then return none
    else if ancount = 0 then return none
    else
      match ← skipQuestions msg qdcount 12 with
      | none => return none
      | some off => findAddress msg ancount off

end VibeOS.Dns

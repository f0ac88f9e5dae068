import VibeOS.Userfs.Call

/-! `userfs_serve_flags`, the loop of a daemon, and the calls of the kernel at the other ends of its pipes. -/
namespace VibeOS.Userfs
open VibeOS.Storage

def enosys : Int32 := 38

/-- The callbacks of `struct userfs_handler` that are not null. -/
structure Handler where
  onOpen : Bool
  onRead : Bool
  onWrite : Bool
  onClose : Bool
  onListdir : Bool
  onUnlink : Bool
  onMkdir : Bool
  onIsDir : Bool

/-- What a callback does: its value, what it stores through its pointers and the bytes that it puts into its buffer. -/
structure Answer where
  value : Int32
  hid : UInt32
  type : UInt32
  filled : List UInt8
  /-- the memory behind `rd_payload` -/
  behind : ℕ → UInt8

/-- A reply as `send_reply` writes it; `final` tells that a failed write ends the loop. -/
structure Response where
  msg : P9Msg
  payload : List UInt8
  final : Bool

/-- `send_reply` with `len` bytes of memory behind the header. -/
def sendReply (op tag handle flags : UInt32) (status : Int32) (memory : ℕ → UInt8) (len : UInt32) : Response where
  msg :=
    { op := op ||| p9Reply
      tag := tag
      handle := handle
      flags := flags
      offset := 0
      length := len
      status := status }
  payload := (List.range len.toNat).map memory
  final := false

/-- The memory from `rd_payload` on when a callback has filled it. -/
def Answer.fill (a : Answer) (rd : ℕ → UInt8) (i : ℕ) : UInt8 :=
  if h : i < a.filled.length then a.filled[i] else if i < p9MaxPayload then rd i else a.behind i

/-- The bytes that a READ asks for, in `flags`. -/
def P9Msg.readCap (req : P9Msg) : ℕ :=
  if req.flags = 0 ∨ req.flags.toNat > p9MaxPayload then p9MaxPayload else req.flags.toNat

/-- The switch over the operations: the reply, and the memory of `rd_payload` after the callback. -/
def dispatch (h : Handler) (req : P9Msg) (a : Answer) (rd : ℕ → UInt8) : Response × (ℕ → UInt8) :=
  let plain (handle flags : UInt32) (status : Int32) : Response × (ℕ → UInt8) :=
    (sendReply req.op req.tag handle flags status rd 0,rd)
  if req.op = p9OpOpen then
    if !h.onOpen then plain 0 0 (-enosys)
    else plain (if a.value = 0 then a.hid else 0) 0 a.value
  else if req.op = p9OpRead then
    if !h.onRead then plain 0 0 (-enosys)
    else if a.value < 0 then (sendReply req.op req.tag 0 0 a.value rd 0,a.fill rd)
    else (sendReply req.op req.tag req.handle 0 0 (a.fill rd) a.value.toUInt32,a.fill rd)
  else if req.op = p9OpWrite then
    if !h.onWrite then plain 0 0 (-enosys)
    else if a.value < 0 then plain 0 0 a.value
    -- the byte count is carried in `flags`
    else ({ sendReply req.op req.tag req.handle a.value.toUInt32 0 rd 0 with final := true },rd)
  else if req.op = p9OpClose then plain 0 0 0
  else if req.op = p9OpListdir then
    if !h.onListdir then plain 0 0 (-enosys)
    else if a.value < 0 then (sendReply req.op req.tag 0 0 a.value rd 0,a.fill rd)
    else (sendReply req.op req.tag 0 a.type 0 (a.fill rd) a.value.toUInt32,a.fill rd)
  else if req.op = p9OpUnlink then plain 0 0 (if h.onUnlink then a.value else -enosys)
  else if req.op = p9OpMkdir then plain 0 0 (if h.onMkdir then a.value else -enosys)
  else if req.op = p9OpIsDir then
    let r := if h.onIsDir then a.value else -enosys
    if r < 0 then plain 0 0 r else plain 0 r.toUInt32 0
  else plain 0 0 (-enosys)

def Handler.bufferCap (h : Handler) (req : P9Msg) : Option ℕ :=
  if req.op = p9OpRead ∧ h.onRead then some req.readCap
  else if req.op = p9OpListdir ∧ h.onListdir then some p9MaxPayload
  else none

inductive Serving
  | header (got : List UInt8)
  | payload (req : P9Msg) (got : List UInt8)
  | drain (req : P9Msg) (left : ℕ)
  | dispatch (req : P9Msg) (payload : List UInt8)
  | reply (r : Response) (written : ℕ)
  | replyPayload (r : Response) (written : ℕ)
  | done

/-- A request that was answered, with what the callback filled. -/
structure Served where
  msg : P9Msg
  payload : List UInt8
  filled : List UInt8
  response : Response

structure Session where
  m : Mount
  d : Serving
  /-- the memory of `rd_payload` -/
  rd : ℕ → UInt8
  served : List Served

namespace Serving

def gotHeader (got : List UInt8) : Serving :=
  if got.length < P9Msg.size then .header got
  else
    let req := P9Msg.ofBytes got
    if req.length.toNat > p9MaxPayload then .drain req req.length.toNat
    else if req.length.toNat > 0 then .payload req []
    else .dispatch req []

def gotPayload (req : P9Msg) (got : List UInt8) : Serving :=
  if got.length < req.length.toNat then .payload req got else .dispatch req got

def asks : Serving → Option ℕ
  | .header got => some (P9Msg.size - got.length)
  | .payload req got => some (req.length.toNat - got.length)
  | .drain _ left => some (min left 64)
  | _ => none

def writes : Serving → Option (Response × List UInt8)
  | .reply r n => some (r,r.msg.bytes.drop n)
  | .replyPayload r n => some (r,r.payload.drop n)
  | _ => none

/-- Behind `k` bytes that were written. -/
def wrote (k : ℕ) : Serving → Serving
  | .reply r n =>
    if n + k < P9Msg.size then .reply r (n + k)
    else if r.payload.length > 0 then .replyPayload r 0
    else .header []
  | .replyPayload r n => if n + k < r.payload.length then .replyPayload r (n + k) else .header []
  | d => d

end Serving

namespace Session

def refuse (s : Session) (req : P9Msg) : Session :=
  let r := sendReply req.op req.tag 0 0 (-22) s.rd 0
  { s with d := .reply r 0,served := s.served ++ [⟨req,[],[],r⟩] }

def exit (s : Session) : Session :=
  { s with
    m := { s.m with ch := { s.m.ch with reqPipe := s.m.ch.reqPipe.unrefR,rspPipe := s.m.ch.rspPipe.unrefW } }
    d := .done }

def took (s : Session) (bytes : List UInt8) : Session :=
  match s.d with
  | .header got => { s with d := .gotHeader (got ++ bytes) }
  | .payload req got => { s with d := .gotPayload req (got ++ bytes) }
  | .drain req left => if left - bytes.length > 0 then { s with d := .drain req (left - bytes.length) } else s.refuse req
  | _ => s

/-- A read failed; only `drain` goes on. -/
def readFailed (s : Session) : Session :=
  match s.d with
  | .drain req _ => s.refuse req
  | _ => s.exit

/-- The kernel's events, and those of the daemon: a read or a write of `k` bytes, and an answer of the callback. -/
inductive Event
  | call (th : ℕ) (req : Request)
  | turn (th : ℕ) (late sigPending : Bool)
  | read (k : ℕ) (sigPending : Bool)
  | write (k : ℕ)
  | answer (a : Answer)

/-- The kernel makes requests with the numbers up to P9_OP_LOAD only. -/
def step (h : Handler) (s : Session) : Event → Option (Unit × Session)
  | .call th req =>
    if req.op.toNat > p9OpLoad.toNat then none
    else (s.m.step (.call th req)).map fun x => ((),{ s with m := x.2 })
  | .turn th late sigPending => (s.m.step (.turn th late sigPending)).map fun x => ((),{ s with m := x.2 })
  | .read k sigPending => do
    let n ← s.d.asks
    let p := s.m.ch.reqPipe
    if p.ring.count = 0 then
      if sigPending || p.wRefs = 0 then return ((),s.readFailed) else none
    else if k = 0 ∨ k > min n p.ring.count then none
    else
      let (bytes,ring) := p.ring.read k
      return ((),{ s with m := { s.m with ch := { s.m.ch with reqPipe := { p with ring := ring } } } }.took bytes)
  | .write k => do
    let (r,src) ← s.d.writes
    let p := s.m.ch.rspPipe
    if p.rRefs = 0 then return ((),if r.final then s.exit else { s with d := .header [] })
    else if k = 0 ∨ k > min src.length (pipeBufSize - p.ring.count) then none
    else
      return ((),{ s with
        m :=
          { s.m with
            ch := { s.m.ch with rspPipe := { p with ring := p.ring.write (src.take k) } }
            sent := s.m.sent ++ src.take k }
        d := s.d.wrote k })
  | .answer a =>
    match s.d with
    | .dispatch req payload =>
      let (r,rd) := dispatch h req a s.rd
      some ((),{ s with d := .reply r 0,rd := rd,served := s.served ++ [⟨req,payload,a.filled,r⟩] })
    | _ => none

def initial (ownerPid : ℤ) (buf : Fin pipeBufSize → UInt8) (rd : ℕ → UInt8) : Session := ⟨.initial ownerPid buf,.header [],rd,[]⟩

end Session
end VibeOS.Userfs

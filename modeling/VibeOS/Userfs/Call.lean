import Mathlib.Data.List.Basic
import Mathlib.Tactic.Ring
import VibeOS.Userfs.Pipe
import VibeOS.Runs

/-! `struct p9_msg`, the header of a request or a reply, as its 32 bytes. -/
namespace VibeOS.Userfs
open Function

/-- The low `n` bytes of a number, least significant first. -/
def leBytes (n v : ℕ) : List UInt8 := (List.range n).map fun k => UInt8.ofNat (v / 256^k)

def leNat (bytes : List UInt8) : ℕ := bytes.foldr (fun b n => b.toNat + 256*n) 0

@[simp] lemma length_leBytes (n v : ℕ) : (leBytes n v).length = n := by simp [leBytes]

lemma leBytes_succ (n v : ℕ) : leBytes (n + 1) v = UInt8.ofNat v :: leBytes n (v / 256) := by
  unfold leBytes
  rw [List.range_succ_eq_map,List.map_cons,List.map_map,Nat.pow_zero,Nat.div_one]
  congr 1
  refine List.map_congr_left fun k _ => ?_
  rw [Function.comp_apply,Nat.div_div_eq_div_mul,Nat.pow_succ,Nat.mul_comm]

lemma leNat_leBytes {n v : ℕ} (h : v < 256^n) : leNat (leBytes n v) = v := by
  induction n generalizing v with
  | zero =>
    rw [Nat.pow_zero] at h
    change 0 = v
    omega
  | succ n ih =>
    rw [Nat.pow_succ] at h
    rw [leBytes_succ]
    change (UInt8.ofNat v).toNat + 256*leNat (leBytes n (v / 256)) = v
    rw [ih (by omega),UInt8.toNat_ofNat']
    omega

def p9OpOpen : UInt32 := 1
def p9OpRead : UInt32 := 2
def p9OpWrite : UInt32 := 3
def p9OpClose : UInt32 := 4
def p9OpListdir : UInt32 := 5
def p9OpUnlink : UInt32 := 6
def p9OpMkdir : UInt32 := 7
def p9OpIsDir : UInt32 := 8
def p9OpLoad : UInt32 := 9

structure P9Msg where
  op : UInt32
  tag : UInt32
  handle : UInt32
  flags : UInt32
  offset : UInt64
  length : UInt32
  status : Int32

namespace P9Msg

/-- sizeof(struct p9_msg) -/
def size : ℕ := 32

def fields (m : P9Msg) : List (ℕ × ℕ) :=
  [(4,m.op.toNat),(4,m.tag.toNat),(4,m.handle.toNat),(4,m.flags.toNat),(8,m.offset.toNat),(4,m.length.toNat),
    (4,m.status.toUInt32.toNat)]

def bytes (m : P9Msg) : List UInt8 := m.fields.flatMap fun f => leBytes f.1 f.2

def field (bytes : List UInt8) (off len : ℕ) : ℕ := leNat ((bytes.drop off).take len)

def ofBytes (bytes : List UInt8) : P9Msg where
  op := UInt32.ofNat (field bytes 0 4)
  tag := UInt32.ofNat (field bytes 4 4)
  handle := UInt32.ofNat (field bytes 8 4)
  flags := UInt32.ofNat (field bytes 12 4)
  offset := UInt64.ofNat (field bytes 16 8)
  length := UInt32.ofNat (field bytes 24 4)
  status := (UInt32.ofNat (field bytes 28 4)).toInt32

@[simp] lemma length_bytes (m : P9Msg) : m.bytes.length = size := by simp [bytes,fields,size]

lemma field_flatMap (before after : List (ℕ × ℕ)) {n v off : ℕ} (hoff : off = (before.map Prod.fst).sum)
    (hv : v < 256^n) : field ((before ++ (n,v) :: after).flatMap fun f => leBytes f.1 f.2) off n = v := by
  have hlen : (before.flatMap fun f => leBytes f.1 f.2).length = off := by
    rw [hoff,List.length_flatMap]
    simp
  unfold field
  rw [List.flatMap_append,List.flatMap_cons,List.drop_left' hlen,List.take_left' (length_leBytes n v),leNat_leBytes hv]

lemma ofBytes_bytes (m : P9Msg) : ofBytes m.bytes = m := by
  have h32 (v : UInt32) : v.toNat < 256^4 := v.toNat_lt
  have h64 (v : UInt64) : v.toNat < 256^8 := v.toNat_lt
  have hop : field m.bytes 0 4 = m.op.toNat := field_flatMap [] (m.fields.drop 1) rfl (h32 _)
  have htag : field m.bytes 4 4 = m.tag.toNat := field_flatMap (m.fields.take 1) (m.fields.drop 2) rfl (h32 _)
  have hhandle : field m.bytes 8 4 = m.handle.toNat := field_flatMap (m.fields.take 2) (m.fields.drop 3) rfl (h32 _)
  have hflags : field m.bytes 12 4 = m.flags.toNat := field_flatMap (m.fields.take 3) (m.fields.drop 4) rfl (h32 _)
  have hoffset : field m.bytes 16 8 = m.offset.toNat := field_flatMap (m.fields.take 4) (m.fields.drop 5) rfl (h64 _)
  have hlength : field m.bytes 24 4 = m.length.toNat := field_flatMap (m.fields.take 5) (m.fields.drop 6) rfl (h32 _)
  have hstatus : field m.bytes 28 4 = m.status.toUInt32.toNat :=
    field_flatMap (m.fields.take 6) [] rfl (h32 _)
  unfold ofBytes
  rw [hop,htag,hhandle,hflags,hoffset,hlength,hstatus]
  simp

end P9Msg

/-! `userfs_call`: any number of threads that make requests of one daemon, over two pipes. -/

open VibeOS.Storage

/-- P9_MAX_PAYLOAD -/
def p9MaxPayload : ℕ := 2048
/-- P9_REPLY -/
def p9Reply : UInt32 := 0x80000000

/-- `struct userfs_channel`, what its calls use. -/
structure Channel where
  reqPipe : Pipe
  rspPipe : Pipe
  ownerPid : ℤ
  inFlight : Bool
  nextTag : UInt32
  alive : Bool

/-- The arguments of a call; the payload has `req_len` bytes. -/
structure Request where
  op : UInt32
  handle : UInt32
  flags : UInt32
  offset : UInt64
  payload : List UInt8
  cap : UInt32

def Request.message (r : Request) (tag : UInt32) : P9Msg where
  op := r.op
  tag := tag
  handle := r.handle
  flags := r.flags
  offset := r.offset
  length := UInt32.ofNat r.payload.length
  status := 0

def Request.accepts (r : Request) (tag : UInt32) (rsp : P9Msg) : Bool :=
  (rsp.op &&& ~~~p9Reply) == r.op && (rsp.op &&& p9Reply) != 0 && rsp.tag == tag

def Request.take (r : Request) (rsp : P9Msg) : ℕ := min rsp.length.toNat r.cap.toNat

/-- Where a call stands; `woken` tells that its last read blocked. -/
inductive Phase
  | lock
  | writeHeader (written : ℕ)
  | writePayload (written : ℕ)
  | readHeader (got : List UInt8) (woken : Bool)
  | readPayload (rsp : P9Msg) (done : List UInt8) (woken : Bool)
  | drop (rsp : P9Msg) (done : List UInt8) (left : ℕ) (woken : Bool)

/-- A call in progress. `segment` are the bytes that it took from the reply pipe. -/
structure Call where
  req : Request
  tag : UInt32
  phase : Phase
  segment : List UInt8

/-- A call that returned; `began` tells whether it had the channel. -/
structure Outcome where
  th : ℕ
  req : Request
  tag : UInt32
  began : Bool
  value : ℤ
  rsp : Option P9Msg
  buf : List UInt8
  segment : List UInt8

/-- The channel, its calls, every byte that was written to the reply pipe and every call that
returned, in order. -/
structure Mount where
  ch : Channel
  calls : ℕ → Option Call
  sent : List UInt8
  log : List Outcome

inductive Event
  | call (th : ℕ) (req : Request)
  /-- A thread inside a call runs: is the deadline past, is a signal pending? -/
  | turn (th : ℕ) (late sigPending : Bool)
  /-- one turn of a write of the daemon to the reply pipe -/
  | daemonWrite (bytes : List UInt8)
  /-- one turn of a read of the daemon from the request pipe -/
  | daemonRead (len : ℕ)
  /-- The daemon's descriptors are copied and closed. -/
  | daemonDup
  | daemonCloseReq
  | daemonCloseRsp

namespace Mount
variable (w : Mount)

def setCall (th : ℕ) (c : Option Call) : Mount := { w with calls := update w.calls th c }

def leave (th : ℕ) (c : Call) (began : Bool) (value : ℤ) (rsp : Option P9Msg) (buf : List UInt8) : Mount :=
  { w with
    calls := update w.calls th none
    log := w.log ++ [⟨th,c.req,c.tag,began,value,rsp,buf,c.segment⟩] }

def fail (th : ℕ) (c : Call) (r : ℤ) : Mount :=
  { w with ch := { w.ch with alive := false, inFlight := false } }.leave th c true
    (if r = -etimedout then -etimedout else -eio) none []

/-- One turn of a read for the reply; `next` is where the call goes on with the bytes. -/
def readReply (th : ℕ) (c : Call) (woken : Bool) (len : ℕ) (late sigPending : Bool) (block : Phase)
    (next : List UInt8 → Phase) : Mount :=
  match w.ch.rspPipe.readTurn woken len late sigPending with
  | .block => w.setCall th (some { c with phase := block })
  | .ret r bytes p =>
    if r ≤ 0 then w.fail th c r
    else
      { w with ch := { w.ch with rspPipe := p } }.setCall th
        (some { c with phase := next bytes, segment := c.segment ++ bytes })

/-- One turn of a write of the request; `next` is where the call goes on when it is out. -/
def writeRequest (th : ℕ) (c : Call) (src : List UInt8) (written : ℕ) (late : Bool) (wrote : ℕ → Phase)
    (next : Phase) : Mount :=
  match w.ch.reqPipe.writeTurn src written late with
  | .block => w
  | .moved n p => { w with ch := { w.ch with reqPipe := p } }.setCall th (some { c with phase := wrote n })
  | .ret r => if r ≠ src.length then w.fail th c r else w.setCall th (some { c with phase := next })

/-- One turn of `userfs_call`. -/
def turn (th : ℕ) (c : Call) (late sigPending : Bool) : Mount :=
  match c.phase with
  | .lock =>
    if w.ch.inFlight then w
    else if !w.ch.alive then w.leave th c false (-eio) none []
    else
      { w with ch := { w.ch with inFlight := true, nextTag := w.ch.nextTag + 1 } }.setCall th
        (some { c with tag := w.ch.nextTag, phase := .writeHeader 0 })
  | .writeHeader n =>
    w.writeRequest th c (c.req.message c.tag).bytes n late .writeHeader
      (if c.req.payload.length > 0 then .writePayload 0 else .readHeader [] false)
  | .writePayload n => w.writeRequest th c c.req.payload n late .writePayload (.readHeader [] false)
  | .readHeader got woken =>
    if got.length < P9Msg.size then
      w.readReply th c woken (P9Msg.size - got.length) late sigPending (.readHeader got true)
        fun bytes => .readHeader (got ++ bytes) false
    else
      let rsp := P9Msg.ofBytes got
      if !c.req.accepts c.tag rsp then w.fail th c (-eio)
      else if rsp.length.toNat > p9MaxPayload then w.fail th c (-eio)
      else w.setCall th (some { c with phase := .readPayload rsp [] false })
  | .readPayload rsp done woken =>
    if done.length < c.req.take rsp then
      w.readReply th c woken (c.req.take rsp - done.length) late sigPending (.readPayload rsp done true)
        fun bytes => .readPayload rsp (done ++ bytes) false
    else w.setCall th (some { c with phase := .drop rsp done (rsp.length.toNat - c.req.take rsp) false })
  | .drop rsp done left woken =>
    if left > 0 then
      w.readReply th c woken (min left 64) late sigPending (.drop rsp done left true)
        fun bytes => .drop rsp done (left - bytes.length) false
    else { w with ch := { w.ch with inFlight := false } }.leave th c true 0 (some rsp) done

def enter (th : ℕ) (req : Request) : Mount :=
  let c : Call := ⟨req,0,.lock,[]⟩
  if req.payload.length > p9MaxPayload then w.leave th c false (-einval) none []
  else if !w.ch.alive then w.leave th c false (-eio) none []
  else if w.ch.ownerPid > 0 ∧ th = w.ch.ownerPid then w.leave th c false (-edeadlk) none []
  else w.setCall th (some c)

def step (w : Mount) : Event → Option (Unit × Mount)
  | .call th req => if (w.calls th).isSome then none else some ((),w.enter th req)
  | .turn th late sigPending => (w.calls th).map fun c => ((),w.turn th c late sigPending)
  | .daemonWrite bytes =>
    if w.ch.rspPipe.wRefs = 0 then none
    else
      let put := bytes.take (pipeBufSize - w.ch.rspPipe.ring.count)
      some ((),{ w with
        ch := { w.ch with rspPipe := { w.ch.rspPipe with ring := w.ch.rspPipe.ring.write put } }
        sent := w.sent ++ put })
  | .daemonRead len =>
    if w.ch.reqPipe.rRefs = 0 then none
    else
      let n := min len w.ch.reqPipe.ring.count
      some ((),{ w with ch := { w.ch with reqPipe := { w.ch.reqPipe with ring := (w.ch.reqPipe.ring.read n).2 } } })
  | .daemonDup => some ((),{ w with ch := { w.ch with
      reqPipe := { w.ch.reqPipe with rRefs := w.ch.reqPipe.rRefs + 1 }
      rspPipe := { w.ch.rspPipe with wRefs := w.ch.rspPipe.wRefs + 1 } } })
  | .daemonCloseReq => some ((),{ w with ch := { w.ch with reqPipe := w.ch.reqPipe.unrefR } })
  | .daemonCloseRsp => some ((),{ w with ch := { w.ch with rspPipe := w.ch.rspPipe.unrefW } })

/-- A channel as `sys_mount` leaves it. -/
def initial (ownerPid : ℤ) (buf : Fin pipeBufSize → UInt8) : Mount :=
  ⟨⟨.alloc buf,.alloc buf,ownerPid,false,1,true⟩,fun _ => none,[],[]⟩

end Mount
end VibeOS.Userfs

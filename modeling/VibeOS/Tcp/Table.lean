import VibeOS.Tcp.Conn
import VibeOS.Runs

/-! The connection table of `tcp.c` and its functions, and the runs of the stack: calls with
any arguments and segments with any bytes, in any order. -/
namespace VibeOS.Tcp
open VibeOS.Storage

structure Machine where
  conns : Cid → Conn
  pollCounter : UInt64
  nextEphPort : UInt16
  net : Net

namespace Machine
variable (m : Machine)

def setConn (i : Cid) (c : Conn) : Machine := { m with conns := Function.update m.conns i c }

def onConn (i : Cid) (f : Conn → Net → Option (Conn × Net)) : Option Machine := do
  let (c,n) ← f (m.conns i) m.net
  return { m with conns := Function.update m.conns i c, net := n }

def freeSlot : Option Cid := (List.finRange connCap).find? fun i => !(m.conns i).valid

def getConn (cid : ℤ) : Option Cid :=
  if h : 0 ≤ cid ∧ cid < 16 then
    let i : Cid := ⟨cid.toNat,(Int.toNat_lt h.1).mpr h.2⟩
    if (m.conns i).valid then some i else none
  else none

def findConnForPkt (remoteIp : Ip) (localPort remotePort : UInt16) : Option Cid :=
  (List.finRange connCap).find? fun i =>
    (m.conns i).valid && (m.conns i).localPort == localPort && (m.conns i).remotePort == remotePort &&
      decide ((m.conns i).remoteIp = remoteIp)

def findListenerForPort (localPort : UInt16) : Option Cid :=
  (List.finRange connCap).find? fun i =>
    (m.conns i).valid && decide ((m.conns i).state = .listen) && (m.conns i).localPort == localPort

def countListenerChildren (l : Cid) : ℕ :=
  (List.finRange connCap).countP fun i =>
    (m.conns i).valid && decide ((m.conns i).parentListenCid = some l)

end Machine

/-- `isn` is what `fresh_isn` reads from the counter. -/
def tcpConnect (m : Machine) (dst : Ip) (dstPort : UInt16) (isn : UInt32) : ℤ × Machine :=
  match m.freeSlot with
  | none => (-1,m)
  | some i =>
    let c : Conn :=
      { Conn.fresh with
        remoteIp := dst
        remotePort := dstPort
        localPort := m.nextEphPort
        sndIss := isn
        sndUna := isn
        sndNxt := isn
        sndWnd := UInt32.ofNat bufSize
        state := .synSent
        lastTxPoll := m.pollCounter }
    let m := { m with nextEphPort := if m.nextEphPort + 1 = 0 then 49152 else m.nextEphPort + 1 }
    let (ok,n) := tcpTx c flagSyn c.sndIss 0 [] true m.net
    if ok then (i.val,{ m.setConn i { c with sndNxt := c.sndIss + 1 } with net := n })
    else (-1,{ m.setConn i Conn.zero with net := n })

def tcpListen (m : Machine) (localPort : UInt16) : ℤ × Machine :=
  if localPort = 0 then (-2,m)
  else if m.findListenerForPort localPort ≠ none then (-2,m)
  else
    match m.freeSlot with
    | none => (-1,m)
    | some i => (i.val,m.setConn i { Conn.fresh with localPort := localPort, state := .listen })

def tcpAccept (m : Machine) (listenCid : ℤ) : ℤ × Machine :=
  match m.getConn listenCid with
  | none => (-1,m)
  | some l =>
    if (m.conns l).state ≠ .listen then (-1,m)
    else
      match (m.conns l).acceptQ with
      | [] => (-2,m)
      | cid :: rest =>
        let m := m.setConn l { m.conns l with acceptQ := rest }
        -- the child belongs to the caller now
        let m := if (m.conns cid).valid then
          m.setConn cid { m.conns cid with parentListenCid := none } else m
        (cid.val,m)

/-- `data` gives the bytes of the caller's buffer. -/
def tcpSend (m : Machine) (cid : ℤ) (data : ℕ → UInt8) (len : UInt32) : Option (ℤ × Machine) :=
  match m.getConn cid with
  | none => some (-1,m)
  | some i =>
    let c := m.conns i
    if c.reset then some (-1,m)
    else if c.state ≠ .established ∧ c.state ≠ .closeWait then some (-1,m)
    else do
      let free := UInt32.ofNat bufSize - c.txLen
      let put := if len < free then len else free
      if put ≠ 0 ∧ c.txLen.toNat + put.toNat > bufSize then none
      else
        let c := { c with txBuf := c.txBuf.splice c.txLen.toNat put.toNat data, txLen := c.txLen + put }
        let (c,n) ← tcpDrainTx m.pollCounter c m.net
        return (put.toNat,{ m.setConn i c with net := n })

/-- The states in which `tcp_recv` tells the peer that the window has opened. -/
def receiveActive (c : Conn) : Bool :=
  decide (c.state = .established ∨ c.state = .finWait1 ∨ c.state = .finWait2)

/-- The return value, the bytes copied out, and the table. -/
def tcpRecv (m : Machine) (cid : ℤ) (cap : UInt32) : ℤ × List UInt8 × Machine :=
  match m.getConn cid with
  | none => (-1,[],m)
  | some i =>
    let c := m.conns i
    if c.reset then (-1,[],m)
    else if c.rxLen = 0 then (0,[],m)
    else
      let take := if c.rxLen < cap then c.rxLen else cap
      let freeBefore := UInt32.ofNat bufSize - c.rxLen
      let left := c.rxLen - take
      let out := slice c.rxBuf 0 take.toNat
      let c := { c with
        rxBuf := c.rxBuf.splice 0 left.toNat fun i => c.rxBuf.get (take.toNat + i)
        rxLen := left }
      let tell := receiveActive c && (decide (take ≥ 1460) ||
        decide (freeBefore < 1460) && decide (UInt32.ofNat bufSize - c.rxLen ≥ 1460))
      let n := if tell then tcpSendAck c m.net else m.net
      (take.toNat,out,{ m.setConn i c with net := n })

/-- The children that wait in the queue of listener `l` are reset and released with it. The
loop ends early if it releases the listener itself, whose queue is empty then. -/
def flushQueue (l : Cid) (m : Machine) : List Cid → Machine
  | [] => m
  | child :: rest =>
    if (m.conns child).valid then
      let c := m.conns child
      let (_,n) := tcpTx c (flagRst ||| flagAck) c.sndNxt c.rcvNxt [] false m.net
      let m := { m.setConn child Conn.zero with net := n }
      if child = l then m else flushQueue l m rest
    else flushQueue l m rest

def tcpClose (m : Machine) (cid : ℤ) : Option (ℤ × Machine) :=
  match m.getConn cid with
  | none => some (-1,m)
  | some i =>
    let c := { m.conns i with userClosed := true }
    if c.reset then some (0,m.setConn i Conn.zero)
    else
      match c.state with
      | .listen => some (0,(flushQueue i (m.setConn i c) c.acceptQ).setConn i Conn.zero)
      | .established => do
        let (c,n) ← tcpDrainTx m.pollCounter { c with state := .finWait1 } m.net
        return (0,{ m.setConn i c with net := n })
      | .closeWait => do
        let (c,n) ← tcpDrainTx m.pollCounter { c with state := .lastAck } m.net
        return (0,{ m.setConn i c with net := n })
      | .closed => some (0,m.setConn i Conn.zero)
      | _ => some (0,m.setConn i c)

def tcpEof (m : Machine) (cid : ℤ) : Bool :=
  match m.getConn cid with
  | none => true
  | some i => (m.conns i).peerFin && (m.conns i).rxLen == 0

/-- A segment that no connection matches: the first SYN for a listener makes a child. -/
def handleNew (m : Machine) (src : Ip) (s : Segment) (isn : UInt32) : Machine :=
  if s.has flagRst then m
  else
    match m.findListenerForPort s.dstPort with
    | none => m
    | some l =>
      if !s.has flagSyn then m
      else if s.has flagAck then m
      else if m.countListenerChildren l ≥ acceptQcap then m
      else
        match m.freeSlot with
        | none => m
        | some i =>
          let c : Conn :=
            { Conn.fresh with
              remoteIp := src
              localPort := s.dstPort
              remotePort := s.srcPort
              sndIss := isn
              sndUna := isn
              sndNxt := isn
              rcvIrs := s.seq
              rcvNxt := s.seq + 1
              sndWnd := if s.window = 0 then UInt32.ofNat bufSize else s.window.toUInt32
              state := .synReceived
              parentListenCid := some l
              lastTxPoll := m.pollCounter }
          let (ok,n) := tcpTx c (flagSyn ||| flagAck) c.sndIss c.rcvNxt [] true m.net
          if ok then { m.setConn i { c with sndNxt := c.sndIss + 1 } with net := n }
          else { m.setConn i Conn.zero with net := n }

/-- The last message of a passive handshake: the child joins the queue of its listener, or is
reset where there is none or the queue is full. -/
def promote (m : Machine) (i : Cid) (s : Segment) : Machine :=
  let c := m.conns i
  if s.ack ≠ c.sndIss + 1 then m
  else
    let c := { c with
      sndUna := s.ack
      sndWnd := if s.window = 0 then UInt32.ofNat bufSize else s.window.toUInt32
      state := .established }
    let m := m.setConn i c
    let abandoned : Machine :=
      let (_,n) := tcpTx c (flagRst ||| flagAck) c.sndNxt c.rcvNxt [] false m.net
      { m.setConn i Conn.zero with net := n }
    match c.parentListenCid with
    | none => abandoned
    | some l =>
      if (m.conns l).valid ∧ (m.conns l).state = .listen ∧ (m.conns l).acceptQ.length < acceptQcap then
        m.setConn l { m.conns l with acceptQ := (m.conns l).acceptQ ++ [i] }
      else abandoned

/-- A segment of the connection in slot `i`. -/
def handleConn (m : Machine) (i : Cid) (s : Segment) : Option Machine :=
  let c := m.conns i
  if s.has flagRst then some (m.setConn i { c with reset := true, state := .closed })
  else if c.state = .synSent then
    if !(s.has flagSyn && s.has flagAck) then some m
    else if s.ack ≠ c.sndIss + 1 then some m
    else
      let c := { c with
        rcvIrs := s.seq
        rcvNxt := s.seq + 1
        sndUna := s.ack
        sndWnd := if s.window = 0 then UInt32.ofNat bufSize else s.window.toUInt32
        state := .established }
      some { m.setConn i c with net := tcpSendAck c m.net }
  else if !s.has flagAck then some m
  else if c.state = .synReceived then some (promote m i s)
  else m.onConn i fun c n => handleSynced m.pollCounter c s n

def handleSegment (m : Machine) (src : Ip) (s : Segment) (isn : UInt32) : Option Machine :=
  match m.findConnForPkt src s.dstPort s.srcPort with
  | none => some (handleNew m src s isn)
  | some i => handleConn m i s

def tcpHandle (m : Machine) (src dst : Ip) (payload : List UInt8) (isn : UInt32) : Option Machine :=
  match Segment.decode src dst payload with
  | none => some m
  | some s => handleSegment m src s isn

/-- The slot has waited for an ACK for too long. -/
def overdue (poll : UInt64) (c : Conn) : Bool := decide (poll - c.lastTxPoll > rtxThresh)

/-- Everything from the first unacknowledged byte on is sent again, a FIN that was in flight too. -/
def rewind (c : Conn) : Conn :=
  { c with
    sndNxt := c.sndUna
    finSent := if c.finSent ∧ c.inFlight > c.txLen then false else c.finSent }

/-- The timer of the data, of a FIN too. -/
def retransmit (poll : UInt64) (c : Conn) (n : Net) : Option (Conn × Net) :=
  if c.sndNxt ≠ c.sndUna ∧ overdue poll c then do
    let (c,n) ← tcpDrainTx poll (rewind c) n
    return ({ c with lastTxPoll := poll },n)
  else some (c,n)

/-- The timer of a handshake message, which goes out again in the state `st`. -/
def resend (poll : UInt64) (st : TcpState) (flags : UInt8) (ack : UInt32) (c : Conn) (n : Net) : Conn × Net :=
  if c.state = st ∧ overdue poll c then
    ({ c with lastTxPoll := poll },(tcpTx c flags c.sndIss ack [] true n).2)
  else (c,n)

def resendSyn (poll : UInt64) (c : Conn) (n : Net) : Conn × Net := resend poll .synSent flagSyn 0 c n

def resendSynAck (poll : UInt64) (c : Conn) (n : Net) : Conn × Net :=
  resend poll .synReceived (flagSyn ||| flagAck) c.rcvNxt c n

/-- What `tcp_poll` does to one slot. -/
def pollConn (poll : UInt64) (c : Conn) (n : Net) : Option (Conn × Net) :=
  if !c.valid then some (c,n)
  else if c.userClosed ∧ c.state = .closed ∧ c.rxLen = 0 then some (Conn.zero,n)
  else if c.state = .closed then some (c,n)
  else do
    let (c,n) ← retransmit poll c n
    let (c,n) := resendSyn poll c n
    return resendSynAck poll c n

def pollFrom (m : Machine) : List Cid → Option Machine
  | [] => some m
  | i :: is => do
    let m ← m.onConn i (pollConn m.pollCounter)
    pollFrom m is

def tcpPoll (m : Machine) : Option Machine :=
  pollFrom { m with pollCounter := m.pollCounter + 1 } (List.finRange connCap)

inductive Event
  | connect (dst : Ip) (dstPort : UInt16) (isn : UInt32)
  | listen (localPort : UInt16)
  | accept (listenCid : ℤ)
  | send (cid : ℤ) (data : ℕ → UInt8) (len : UInt32)
  | recv (cid : ℤ) (cap : UInt32)
  | close (cid : ℤ)
  | poll
  | handle (src dst : Ip) (payload : List UInt8) (isn : UInt32)

/-- What a call gives back: its return value, and the bytes of `tcp_recv`. -/
structure Answer where
  value : ℤ
  bytes : List UInt8

def step (m : Machine) : Event → Option (Answer × Machine)
  | .connect dst dstPort isn =>
    let (r,m) := tcpConnect m dst dstPort isn
    some (⟨r,[]⟩,m)
  | .listen localPort =>
    let (r,m) := tcpListen m localPort
    some (⟨r,[]⟩,m)
  | .accept l =>
    let (r,m) := tcpAccept m l
    some (⟨r,[]⟩,m)
  | .send cid data len => do
    let (r,m) ← tcpSend m cid data len
    return (⟨r,[]⟩,m)
  | .recv cid cap =>
    let (r,bytes,m) := tcpRecv m cid cap
    some (⟨r,bytes⟩,m)
  | .close cid => do
    let (r,m) ← tcpClose m cid
    return (⟨r,[]⟩,m)
  | .poll => do
    let m ← tcpPoll m
    return (⟨0,[]⟩,m)
  | .handle src dst payload isn => do
    let m ← tcpHandle m src dst payload isn
    return (⟨0,[]⟩,m)

def Packet.arrival (q : Packet) (isn : UInt32) : Event := .handle q.src q.dst q.encode isn

lemma step_arrival (m : Machine) (q : Packet) (isn : UInt32) (h : q.segment.data.length ≤ mss) :
    step m (q.arrival isn) = (handleSegment m q.src q.segment isn).map fun w => (⟨0,[]⟩,w) := by
  unfold Packet.arrival step tcpHandle
  dsimp only
  rw [decode_encode q h]
  dsimp only
  cases handleSegment m q.src q.segment isn <;> rfl

def Machine.initial (n : Net) : Machine := ⟨fun _ => Conn.zero,0,49152,n⟩

end VibeOS.Tcp

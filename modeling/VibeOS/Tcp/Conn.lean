import VibeOS.Tcp.Segment

/-! One slot of the connection table of `tcp.c`: what sending, acknowledging and receiving do
to it. A function is `none` where the code would copy bytes outside a buffer. -/
namespace VibeOS.Tcp
open VibeOS.Storage

/-- TCP_CONN_CAP -/
abbrev connCap : ℕ := 16
/-- TCP_BUF_SIZE -/
def bufSize : ℕ := 32768
/-- TCP_RTX_THRESH -/
def rtxThresh : UInt64 := 200000
/-- TCP_TX_MAX -/
def txMax : UInt32 := 1400
/-- TCP_ACCEPT_QCAP -/
def acceptQcap : ℕ := 8

inductive TcpState
  | closed | listen | synSent | synReceived | established | finWait1 | finWait2 | closeWait | lastAck
  | timeWait
  deriving DecidableEq

abbrev Cid := Fin connCap

structure Conn where
  valid : Bool
  state : TcpState
  remoteIp : Ip
  localPort : UInt16
  remotePort : UInt16
  sndIss : UInt32
  sndUna : UInt32
  sndNxt : UInt32
  sndWnd : UInt32
  rcvIrs : UInt32
  rcvNxt : UInt32
  txBuf : Bytes bufSize
  txLen : UInt32
  rxBuf : Bytes bufSize
  rxLen : UInt32
  finSent : Bool
  finAcked : Bool
  peerFin : Bool
  reset : Bool
  userClosed : Bool
  lastTxPoll : UInt64
  /-- the first `accept_q_n` entries of the queue -/
  acceptQ : List Cid
  /-- `none` for -1 -/
  parentListenCid : Option Cid

namespace Conn

def zero : Conn where
  valid := false
  state := .closed
  remoteIp := Bytes.zero
  localPort := 0
  remotePort := 0
  sndIss := 0
  sndUna := 0
  sndNxt := 0
  sndWnd := 0
  rcvIrs := 0
  rcvNxt := 0
  txBuf := Bytes.zero
  txLen := 0
  rxBuf := Bytes.zero
  rxLen := 0
  finSent := false
  finAcked := false
  peerFin := false
  reset := false
  userClosed := false
  lastTxPoll := 0
  acceptQ := []
  parentListenCid := some 0

/-- A slot as `alloc_conn` leaves it. -/
def fresh : Conn := { zero with valid := true, parentListenCid := none }

/-- The sequence numbers between `snd_una` and `snd_nxt`. -/
def inFlight (c : Conn) : UInt32 := c.sndNxt - c.sndUna

end Conn

/-- The network below: the address of the host, whether the `n`-th send gets through to the
device, and what was sent so far with that outcome. -/
structure Net where
  hostIp : Ip
  ok : ℕ → Bool
  sent : List (Packet × Bool)

/-- `net_choose_src`, where `g_ip` is the host's address. -/
def netChooseSrc (hostIp dst : Ip) : Ip :=
  if dst 0 = 127 then dst else if hostIp ≠ Bytes.zero ∧ dst = hostIp then dst else hostIp

def tcpTx (c : Conn) (flags : UInt8) (seq ack : UInt32) (data : List UInt8) (mssOption : Bool)
    (n : Net) : Bool × Net :=
  let free := UInt32.ofNat bufSize - c.rxLen
  let window := if free > 0xFFFF then 0xFFFF else free
  let packet : Packet :=
    { src := netChooseSrc n.hostIp c.remoteIp
      dst := c.remoteIp
      segment :=
        { srcPort := c.localPort
          dstPort := c.remotePort
          seq := seq
          ack := ack
          flags := flags
          window := window.toUInt16
          data := data.take mss }
      mssOption := mssOption }
  (n.ok n.sent.length,{ n with sent := n.sent ++ [(packet,n.ok n.sent.length)] })

def tcpSendAck (c : Conn) (n : Net) : Net := (tcpTx c flagAck c.sndNxt c.rcvNxt [] false n).2

/-- `len` bytes of a buffer. -/
def slice {n : ℕ} (b : Bytes n) (off len : ℕ) : List UInt8 := (List.range len).map fun i => b.get (off+i)

/-- What the next segment of `tcp_drain_tx` holds. -/
def nextSegment (c : Conn) (wnd inFlight : UInt32) : UInt32 :=
  let avail := c.txLen - c.inFlight
  let can := wnd - inFlight
  let seg := if avail < can then avail else can
  if seg > txMax then txMax else seg

lemma nextSegment_le (c : Conn) (wnd inFlight : UInt32) :
    nextSegment c wnd inFlight ≤ wnd - inFlight ∧ nextSegment c wnd inFlight ≤ c.txLen - c.inFlight := by
  unfold nextSegment txMax
  dsimp only
  simp only [UInt32.le_iff_toNat_le,UInt32.lt_iff_toNat_lt,gt_iff_lt]
  split_ifs <;> omega

lemma nextSegment_pos {c : Conn} {wnd inFlight : UInt32} (hw : inFlight < wnd) (hb : c.inFlight < c.txLen) :
    0 < (nextSegment c wnd inFlight).toNat := by
  unfold nextSegment txMax
  dsimp only
  have h1 : (wnd - inFlight).toNat = wnd.toNat - inFlight.toNat :=
    UInt32.toNat_sub_of_le _ _ (UInt32.le_of_lt hw)
  have h2 : (c.txLen - c.inFlight).toNat = c.txLen.toNat - c.inFlight.toNat :=
    UInt32.toNat_sub_of_le _ _ (UInt32.le_of_lt hb)
  have h3 : (1400 : UInt32).toNat = 1400 := rfl
  rw [UInt32.lt_iff_toNat_lt] at hw hb
  split_ifs <;> omega

/-- The loop of `tcp_drain_tx`. -/
def drainLoop (poll : UInt64) (wnd : UInt32) (c : Conn) (n : Net) (inFlight : UInt32) :
    Option (Conn × Net) :=
  if _hw : inFlight < wnd then
    if _hb : c.inFlight < c.txLen then
      let seg := nextSegment c wnd inFlight
      if c.inFlight.toNat + seg.toNat > bufSize then none
      else
        let (ok,n) := tcpTx c (flagAck ||| flagPsh) c.sndNxt c.rcvNxt
          (slice c.txBuf c.inFlight.toNat seg.toNat) false n
        if ok then
          drainLoop poll wnd { c with sndNxt := c.sndNxt + seg, lastTxPoll := poll } n (inFlight + seg)
        else some (c,n)
    else some (c,n)
  else some (c,n)
termination_by wnd.toNat - inFlight.toNat
decreasing_by
  have hpos := nextSegment_pos _hw _hb
  have hle := (nextSegment_le c wnd inFlight).1
  have hsub : (wnd - inFlight).toNat = wnd.toNat - inFlight.toNat :=
    UInt32.toNat_sub_of_le _ _ (UInt32.le_of_lt _hw)
  have hlt := wnd.toNat_lt
  rw [UInt32.le_iff_toNat_le,hsub] at hle
  rw [UInt32.lt_iff_toNat_lt] at _hw
  rw [UInt32.toNat_add]
  omega

/-- The end of `tcp_drain_tx`: the FIN follows when all the data is out. -/
def drainFin (poll : UInt64) (c : Conn) (n : Net) : Conn × Net :=
  if !c.finSent ∧ (c.state = .finWait1 ∨ c.state = .lastAck) ∧ c.inFlight ≥ c.txLen then
    let (_,n) := tcpTx c (flagAck ||| flagFin) c.sndNxt c.rcvNxt [] false n
    ({ c with sndNxt := c.sndNxt + 1, finSent := true, lastTxPoll := poll },n)
  else (c,n)

def tcpDrainTx (poll : UInt64) (c : Conn) (n : Net) : Option (Conn × Net) := do
  -- a zero window is probed with one byte
  let wnd := if c.sndWnd = 0 then 1 else c.sndWnd
  let (c,n) ← drainLoop poll wnd c n c.inFlight
  return drainFin poll c n

/-- How many bytes of the buffer an ACK covers; a FIN that is in flight is not one of them. -/
def dataAcked (c : Conn) (ack : UInt32) : UInt32 :=
  let acked := ack - c.sndUna
  let dataInFlight := if c.finSent ∧ c.inFlight > c.txLen then c.inFlight - 1 else c.inFlight
  if acked < dataInFlight then acked else dataInFlight

def applyAck (c : Conn) (ack : UInt32) : Option Conn :=
  let acked := ack - c.sndUna
  if acked = 0 ∨ acked > c.inFlight then some c
  else
    let data := dataAcked c ack
    if data ≠ 0 ∧ c.txLen > data ∧ c.txLen.toNat > bufSize then none
    else
      let left := c.txLen - data
      let buf := if data ≠ 0 ∧ c.txLen > data then
        c.txBuf.splice 0 left.toNat fun i => c.txBuf.get (data.toNat + i) else c.txBuf
      some { c with
        txBuf := buf
        txLen := left
        sndUna := ack
        finAcked := c.finAcked || (c.finSent && ack == c.sndNxt) }

/-- The payload is taken where it is the next in order. -/
def acceptData (c : Conn) (s : Segment) : Conn :=
  if s.dataLen ≠ 0 ∧ s.seq = c.rcvNxt then
    let free := UInt32.ofNat bufSize - c.rxLen
    let take := if s.dataLen < free then s.dataLen else free
    { c with
      rxBuf := c.rxBuf.splice c.rxLen.toNat take.toNat fun i => byteOf s.data i
      rxLen := c.rxLen + take
      rcvNxt := c.rcvNxt + take }
  else c

def acceptFin (c : Conn) (s : Segment) : Conn :=
  if s.has flagFin ∧ s.seq + s.dataLen = c.rcvNxt then
    { c with
      rcvNxt := c.rcvNxt + 1
      peerFin := true
      state := match c.state with
        | .established => .closeWait
        | .finWait2 => .timeWait
        | .finWait1 => if c.finAcked then .timeWait else .lastAck
        | st => st }
  else c

/-- The transitions at the end of `tcp_handle`; TIME_WAIT is left at once. -/
def ackTransitions (c : Conn) : Conn :=
  let c := if c.state = .finWait1 ∧ c.finAcked then { c with state := .finWait2 } else c
  let c := if c.state = .lastAck ∧ c.finAcked then { c with state := .closed } else c
  if c.state = .timeWait then { c with state := .closed } else c

/-- What `tcp_handle` does with a segment that is past all its early returns. -/
def handleSynced (poll : UInt64) (c : Conn) (s : Segment) (n : Net) : Option (Conn × Net) := do
  let c ← applyAck { c with sndWnd := if s.window = 0 then 1 else s.window.toUInt32 } s.ack
  let c := acceptFin (acceptData c s) s
  let n := if s.dataLen ≠ 0 ∨ s.has flagFin then tcpSendAck c n else n
  tcpDrainTx poll (ackTransitions c) n

end VibeOS.Tcp

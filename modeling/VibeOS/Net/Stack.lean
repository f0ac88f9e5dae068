import VibeOS.Net.Checksum
import VibeOS.Storage.Ring
import Mathlib.Data.Fin.VecNotation

/-! The network stack of the kernel from `udp_send` to the callback of a port: the frames it builds,
its loopback queue and its receive path. A read outside a frame is `none`. -/
namespace VibeOS.Net
open Function
open VibeOS.Storage VibeOS.Tcp

abbrev Mac := Bytes 6
/-- A function that `udp_bind` was given. -/
abbrev UdpRxCb := ℕ

def ethHdrLen : ℕ := 14
def arpPktLen : ℕ := 28
def ipv4HdrLen : ℕ := 20
def udpHdrLen : ℕ := 8
def etherTypeIpv4 : UInt16 := 0x0800
def etherTypeArp : UInt16 := 0x0806
def ipv4ProtoIcmp : UInt8 := 1
def ipv4ProtoTcp : UInt8 := 6
def ipv4ProtoUdp : UInt8 := 17
def ipv4DefaultTtl : UInt8 := 64
def arpOpRequest : UInt16 := 1
def arpOpReply : UInt16 := 2
def loopbackQueueCap : ℕ := 64
def loopbackDrainCap : ℕ := 256
def gBcastMac : Mac := fun _ => 0xFF
def gBcastIp : Ip := fun _ => 255

def mem16 (v : UInt16) : List UInt8 := [UInt8.ofNat v.toNat,UInt8.ofNat (v.toNat/256)]

def field16 (lo hi : UInt8) : UInt16 := UInt16.ofNat (lo.toNat + 256*hi.toNat)

/-- The bytes are swapped; `net_cpu_to_be16` is the same. -/
def netBe16ToCpu (v : UInt16) : UInt16 := UInt16.ofNat (v.toNat/256 + 256*(v.toNat%256))

/-- `n` bytes from an offset on. -/
def readBytes (p : List UInt8) (off n : ℕ) : Option (List UInt8) :=
  if off + n ≤ p.length then some ((p.drop off).take n) else none

@[ext] structure Ipv4Hdr where
  vihl : UInt8
  tos : UInt8
  totalLen : UInt16
  id : UInt16
  frag : UInt16
  ttl : UInt8
  proto : UInt8
  checksum : UInt16
  src : Ip
  dst : Ip

def Ipv4Hdr.bytes (h : Ipv4Hdr) : List UInt8 :=
  [h.vihl,h.tos] ++ mem16 h.totalLen ++ mem16 h.id ++ mem16 h.frag ++ [h.ttl,h.proto] ++ mem16 h.checksum ++
    List.ofFn h.src ++ List.ofFn h.dst

/-- `struct ipv4_hdr` at the start of some bytes. -/
def Ipv4Hdr.ofBytes : List UInt8 → Option Ipv4Hdr
  | v :: t :: l0 :: l1 :: i0 :: i1 :: f0 :: f1 :: ttl :: p :: c0 :: c1 :: s0 :: s1 :: s2 :: s3 :: d0 :: d1 :: d2 :: d3 :: _ =>
    some ⟨v,t,field16 l0 l1,field16 i0 i1,field16 f0 f1,ttl,p,field16 c0 c1,![s0,s1,s2,s3],![d0,d1,d2,d3]⟩
  | _ => none

@[ext] structure UdpHdr where
  srcPort : UInt16
  dstPort : UInt16
  length : UInt16
  checksum : UInt16

def UdpHdr.bytes (h : UdpHdr) : List UInt8 := mem16 h.srcPort ++ mem16 h.dstPort ++ mem16 h.length ++ mem16 h.checksum

def UdpHdr.ofBytes : List UInt8 → Option UdpHdr
  | s0 :: s1 :: d0 :: d1 :: l0 :: l1 :: c0 :: c1 :: _ => some ⟨field16 s0 s1,field16 d0 d1,field16 l0 l1,field16 c0 c1⟩
  | _ => none

structure ArpPkt where
  htype : UInt16
  ptype : UInt16
  hlen : UInt8
  plen : UInt8
  op : UInt16
  sha : Mac
  spa : Ip
  tha : Mac
  tpa : Ip

def ArpPkt.bytes (a : ArpPkt) : List UInt8 :=
  mem16 a.htype ++ mem16 a.ptype ++ [a.hlen,a.plen] ++ mem16 a.op ++ List.ofFn a.sha ++ List.ofFn a.spa ++
    List.ofFn a.tha ++ List.ofFn a.tpa

def ArpPkt.ofBytes : List UInt8 → Option ArpPkt
  | h0 :: h1 :: p0 :: p1 :: hl :: pl :: o0 :: o1 :: m0 :: m1 :: m2 :: m3 :: m4 :: m5 :: s0 :: s1 :: s2 :: s3 ::
      n0 :: n1 :: n2 :: n3 :: n4 :: n5 :: t0 :: t1 :: t2 :: t3 :: _ =>
    some ⟨field16 h0 h1,field16 p0 p1,hl,pl,field16 o0 o1,![m0,m1,m2,m3,m4,m5],![s0,s1,s2,s3],![n0,n1,n2,n3,n4,n5],![t0,t1,t2,t3]⟩
  | _ => none

structure ArpEntry where
  valid : Bool
  ip : Ip
  mac : Mac

structure UdpBinding where
  valid : Bool
  port : UInt16
  cb : UdpRxCb

structure Stack where
  /-- `virtio_net_present` -/
  present : Bool
  mac : Mac
  ip : Ip
  gw : Ip
  msk : Ip
  ipId : UInt16
  arp : Fin 8 → ArpEntry
  loBuf : Fin 64 → List UInt8
  loHead : ℕ
  loTail : ℕ
  bind : Fin 8 → UdpBinding
  /-- the frames handed to `virtio_net_tx` -/
  sent : List (List UInt8)

structure Call where
  cb : UdpRxCb
  src : Ip
  srcPort : UInt16
  payload : List UInt8
  deriving DecidableEq

/-- A payload is passed to a layer above. -/
inductive Handed
  | icmp (ip : Ipv4Hdr) (payload : List UInt8)
  | udp (ip : Ipv4Hdr) (payload : List UInt8)
  | tcp (ip : Ipv4Hdr) (payload : List UInt8)
  | callback (call : Call)

def Handed.call : Handed → Option Call
  | .callback call => some call
  | _ => none

/-- The arguments of `net_ipv4_send_from`. -/
structure Outgoing where
  src : Ip
  dst : Ip
  proto : UInt8
  payload : List UInt8

/-- The arguments of `udp_send`; no source address stands for our own. -/
structure Datagram where
  src : Option Ip
  dst : Ip
  srcPort : UInt16
  dstPort : UInt16
  payload : List UInt8

namespace Stack

def netIsLocalIp (s : Stack) (ip : Ip) : Bool :=
  if ip 0 = 127 then true
  else
    let haveIp := s.ip 0 ||| s.ip 1 ||| s.ip 2 ||| s.ip 3 != 0
    haveIp && decide (ip = s.ip)

def ipOnLocalSubnet (s : Stack) (ip : Ip) : Bool :=
  (List.finRange 4).all fun i => ip i &&& s.msk i == s.ip i &&& s.msk i

def arpFind (s : Stack) (ip : Ip) : Option (Fin 8) :=
  (List.finRange 8).find? fun i => (s.arp i).valid && decide ((s.arp i).ip = ip)

def arpInsert (s : Stack) (ip : Ip) (mac : Mac) : Stack :=
  let empty := (List.finRange 8).find? fun i => !(s.arp i).valid
  let slot := ((s.arpFind ip).or empty).getD 0
  { s with arp := update s.arp slot ⟨true,ip,mac⟩ }

def ethHdrBuild (s : Stack) (dstMac : Mac) (ethertype : UInt16) : List UInt8 :=
  List.ofFn dstMac ++ List.ofFn s.mac ++ put16 ethertype

def netIpv4BuildSrc (s : Stack) (cap : ℕ) (q : Outgoing) : Option (List UInt8) × Stack :=
  let total := ipv4HdrLen + q.payload.length
  if total > cap ∨ total > 0xFFFF then (none,s)
  else
    let h : Ipv4Hdr :=
      { vihl := ((4 : UInt8) <<< 4) ||| UInt8.ofNat (ipv4HdrLen/4)
        tos := 0
        totalLen := netBe16ToCpu (UInt16.ofNat total)
        id := netBe16ToCpu s.ipId
        frag := 0
        ttl := ipv4DefaultTtl
        proto := q.proto
        checksum := 0
        src := q.src
        dst := q.dst }
    (some ({ h with checksum := checksum h.bytes }.bytes ++ q.payload),{ s with ipId := s.ipId + 1 })

def loopbackEnqueue (s : Stack) (frame : List UInt8) : ℤ × Stack :=
  let next := (s.loTail + 1) % loopbackQueueCap
  if next = s.loHead then (-1,s)
  else if frame.length > ethHdrLen + 1500 then (-1,s)
  else (0,{ s with loBuf := update s.loBuf (Fin.ofNat 64 s.loTail) frame,loTail := next })

variable (resolve : Stack → Ip → Option Mac) (tx : List UInt8 → ℤ)

/-- `resolve` is what `net_arp_resolve` finds and `tx` what `virtio_net_tx` returns. -/
def netIpv4SendFrom (s : Stack) (q : Outgoing) : ℤ × Stack :=
  if !s.present then (-1,s)
  else if ipv4HdrLen + q.payload.length > 1500 then (-1,s)
  else if s.netIsLocalIp q.dst then
    match s.netIpv4BuildSrc 1500 q with
    | (none,s) => (-1,s)
    | (some packet,s) => s.loopbackEnqueue (s.ethHdrBuild s.mac etherTypeIpv4 ++ packet)
  else
    let hop := if q.dst = gBcastIp then some gBcastMac
      else resolve s (if s.ipOnLocalSubnet q.dst then q.dst else s.gw)
    match hop with
    | none => (-1,s)
    | some mac =>
      match s.netIpv4BuildSrc 1500 q with
      | (none,s) => (-1,s)
      | (some packet,s) =>
        let frame := s.ethHdrBuild mac etherTypeIpv4 ++ packet
        (tx frame,{ s with sent := s.sent ++ [frame] })

/-- Over the pseudo-header and the packet; `net_ipv4_checksum` works on the buffer of 1512 bytes. -/
def udpComputeChecksum (src dst : Ip) (packet : List UInt8) : UInt16 :=
  if packet.length > 1500 then 0
  else checksum (List.ofFn src ++ List.ofFn dst ++
    [0,ipv4ProtoUdp,UInt8.ofNat (packet.length/256),UInt8.ofNat packet.length] ++ packet)

def udpSend (s : Stack) (d : Datagram) : ℤ × Stack :=
  if udpHdrLen + d.payload.length > 1500 - ipv4HdrLen then (-1,s)
  else
    let src := d.src.getD s.ip
    let h : UdpHdr :=
      { srcPort := netBe16ToCpu d.srcPort
        dstPort := netBe16ToCpu d.dstPort
        length := netBe16ToCpu (UInt16.ofNat (udpHdrLen + d.payload.length))
        checksum := 0 }
    let cks := udpComputeChecksum src d.dst (h.bytes ++ d.payload)
    -- a checksum of zero would say that there is none
    let cks := if cks = 0 then 0xFFFF else cks
    netIpv4SendFrom resolve tx s ⟨src,d.dst,ipv4ProtoUdp,{ h with checksum := cks }.bytes ++ d.payload⟩

def udpBind (s : Stack) (port : UInt16) (cb : Option UdpRxCb) : ℤ × Stack :=
  match (List.finRange 8).find? fun i => (s.bind i).valid && (s.bind i).port == port with
  | some i =>
    match cb with
    | none => (0,{ s with bind := update s.bind i { s.bind i with valid := false } })
    | some cb => (0,{ s with bind := update s.bind i { s.bind i with cb := cb } })
  | none =>
    match cb with
    | none => (0,s)
    | some cb =>
      match (List.finRange 8).find? fun i => !(s.bind i).valid with
      | some i => (0,{ s with bind := update s.bind i ⟨true,port,cb⟩ })
      | none => (-1,s)

def findBinding (s : Stack) (port : UInt16) : Option UdpRxCb :=
  ((List.finRange 8).find? fun i => (s.bind i).valid && (s.bind i).port == port).map fun i => (s.bind i).cb

/-- The part of `udp_handle` that looks at the checksum, over a copy of the packet with a zero field. -/
def udpVerify (ip : Ipv4Hdr) (h : UdpHdr) (payload : List UInt8) (udpLen : ℕ) : Option Bool :=
  if h.checksum = 0 then some true
  else if udpLen > 1500 then some false
  else do
    let buf ← readBytes payload 0 udpLen
    let want := udpComputeChecksum ip.src ip.dst ((buf.set 6 0).set 7 0)
    return h.checksum == if want = 0 then 0xFFFF else want

def udpHandle (s : Stack) (ip : Ipv4Hdr) (payload : List UInt8) : Option (List Handed) :=
  if payload.length < udpHdrLen then some []
  else do
    let h ← UdpHdr.ofBytes payload
    let udpLen := (netBe16ToCpu h.length).toNat
    if udpLen < udpHdrLen ∨ udpLen > payload.length then return []
    else
      if !(← udpVerify ip h payload udpLen) then return []
      else
        match s.findBinding (netBe16ToCpu h.dstPort) with
        | none => return []
        | some cb =>
          let body ← readBytes payload udpHdrLen (udpLen - udpHdrLen)
          return [.callback ⟨cb,ip.src,netBe16ToCpu h.srcPort,body⟩]

def rxHandleIpv4 (s : Stack) (frame : List UInt8) : Option (List Handed) :=
  if frame.length < ethHdrLen + ipv4HdrLen then some []
  else do
    let h ← Ipv4Hdr.ofBytes (frame.drop ethHdrLen)
    let total := (netBe16ToCpu h.totalLen).toNat
    if h.vihl >>> 4 ≠ 4 then return []
    else if h.vihl &&& 0x0F ≠ 5 then return []
    else if total > frame.length - ethHdrLen then return []
    else if total < ipv4HdrLen then return []
    else if checksum { h with checksum := 0 }.bytes ≠ h.checksum then return []
    else if ¬ (h.dst = s.ip ∨ h.dst = gBcastIp ∨ s.netIsLocalIp h.dst) then return []
    else
      let payload ← readBytes frame (ethHdrLen + ipv4HdrLen) (total - ipv4HdrLen)
      if h.proto = ipv4ProtoIcmp then return [.icmp h payload]
      else if h.proto = ipv4ProtoUdp then return .udp h payload :: (← s.udpHandle h payload)
      else if h.proto = ipv4ProtoTcp then return [.tcp h payload]
      else return []

def rxHandleArp (s : Stack) (frame : List UInt8) : Option Stack :=
  if frame.length < ethHdrLen + arpPktLen then some s
  else do
    let a ← ArpPkt.ofBytes (frame.drop ethHdrLen)
    if netBe16ToCpu a.htype ≠ 1 then return s
    else if netBe16ToCpu a.ptype ≠ etherTypeIpv4 then return s
    else if a.hlen ≠ 6 ∨ a.plen ≠ 4 then return s
    else
      let s := s.arpInsert a.spa a.sha
      if netBe16ToCpu a.op = arpOpRequest ∧ a.tpa = s.ip then
        let r : ArpPkt := ⟨netBe16ToCpu 1,netBe16ToCpu etherTypeIpv4,6,4,netBe16ToCpu arpOpReply,s.mac,s.ip,a.sha,a.spa⟩
        return { s with sent := s.sent ++ [s.ethHdrBuild a.sha etherTypeArp ++ r.bytes] }
      else return s

def rxDispatch (s : Stack) (frame : List UInt8) : Option (List Handed × Stack) :=
  if frame.length < ethHdrLen then some ([],s)
  else do
    let hi ← frame[12]?
    let lo ← frame[13]?
    let et := UInt16.ofNat (256*hi.toNat + lo.toNat)
    if et = etherTypeArp then return ([],← s.rxHandleArp frame)
    else if et = etherTypeIpv4 then return (← s.rxHandleIpv4 frame,s)
    else return ([],s)

def sendFromAll : List Outgoing → Stack → Stack
  | [], s => s
  | q :: qs, s => sendFromAll qs (netIpv4SendFrom resolve tx s q).2

/-- The loop, with what each frame so far was handed up as; `above` is what the layers above send
while they handle the last of them. -/
def drainLoop (above : List (List Handed) → List Outgoing) : ℕ → List (List Handed) → Stack → Option (List (List Handed) × Stack)
  | 0, log, s => some (log,s)
  | n+1, log, s =>
    if s.loHead = s.loTail then some (log,s)
    else do
      let frame := s.loBuf (Fin.ofNat 64 s.loHead)
      let (handed,s) ← { s with loHead := (s.loHead + 1) % loopbackQueueCap }.rxDispatch frame
      drainLoop above n (log ++ [handed]) (sendFromAll resolve tx (above (log ++ [handed])) s)

def loopbackDrain (above : List (List Handed) → List Outgoing) (s : Stack) : Option (List (List Handed) × Stack) :=
  drainLoop resolve tx above loopbackDrainCap [] s

inductive Event
  | config (ip gw msk : Ip)
  | bind (port : UInt16) (cb : Option UdpRxCb)
  | send (q : Outgoing)
  | udpSend (d : Datagram)
  | rx (frame : List UInt8)
  | drain (above : List (List Handed) → List Outgoing)

def step (s : Stack) : Event → Option (List (List Handed) × Stack)
  | .config ip gw msk => some ([],{ s with ip := ip,gw := gw,msk := msk })
  | .bind port cb => some ([],(s.udpBind port cb).2)
  | .send q => some ([],(netIpv4SendFrom resolve tx s q).2)
  | .udpSend d => some ([],(udpSend resolve tx s d).2)
  | .rx frame => (s.rxDispatch frame).map fun (handed,s) => ([handed],s)
  | .drain above => loopbackDrain resolve tx above s

def boot (present : Bool) (mac : Mac) : Stack :=
  { present := present
    mac := mac
    ip := Bytes.zero
    gw := Bytes.zero
    msk := Bytes.zero
    ipId := 1
    arp := fun _ => ⟨false,Bytes.zero,Bytes.zero⟩
    loBuf := fun _ => []
    loHead := 0
    loTail := 0
    bind := fun _ => ⟨false,0,0⟩
    sent := [] }

end Stack
end VibeOS.Net

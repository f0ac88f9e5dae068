import VibeOS.Storage.Bytes
import Mathlib.Data.Fintype.Basic

/-! The wire format of TCP segments: what `tcp_tx` builds and what `tcp_handle` takes apart
before it looks at the connection table. -/
namespace VibeOS.Tcp
open VibeOS.Storage

abbrev Ip := Bytes 4

def hdrMinLen : ℕ := 20
/-- TCP_MSS, which is also the payload that fits the buffer of `tcp_tx`. -/
def mss : ℕ := 1460

def flagFin : UInt8 := 0x01
def flagSyn : UInt8 := 0x02
def flagRst : UInt8 := 0x04
def flagPsh : UInt8 := 0x08
def flagAck : UInt8 := 0x10

@[ext] structure Segment where
  srcPort : UInt16
  dstPort : UInt16
  seq : UInt32
  ack : UInt32
  flags : UInt8
  window : UInt16
  data : List UInt8
  deriving DecidableEq

namespace Segment
variable (s : Segment)

def has (flag : UInt8) : Bool := s.flags &&& flag != 0

def dataLen : UInt32 := UInt32.ofNat s.data.length

end Segment

/-- A segment with its addresses and the choice of the MSS option, as `tcp_tx` sends it. -/
structure Packet where
  src : Ip
  dst : Ip
  segment : Segment
  mssOption : Bool
  deriving DecidableEq

def byteOf (p : List UInt8) (i : ℕ) : UInt8 := p.getD i 0

def be16 (p : List UInt8) (i : ℕ) : UInt16 := UInt16.ofNat (256*(byteOf p i).toNat + (byteOf p (i+1)).toNat)

def be32 (p : List UInt8) (i : ℕ) : UInt32 :=
  UInt32.ofNat (16777216*(byteOf p i).toNat + 65536*(byteOf p (i+1)).toNat +
    256*(byteOf p (i+2)).toNat + (byteOf p (i+3)).toNat)

def le16 (p : List UInt8) (i : ℕ) : UInt16 := UInt16.ofNat ((byteOf p i).toNat + 256*(byteOf p (i+1)).toNat)

def put16 (v : UInt16) : List UInt8 := [UInt8.ofNat (v.toNat/256),UInt8.ofNat v.toNat]

def put32 (v : UInt32) : List UInt8 :=
  [UInt8.ofNat (v.toNat/16777216),UInt8.ofNat (v.toNat/65536),UInt8.ofNat (v.toNat/256),UInt8.ofNat v.toNat]

def wordSum : List UInt8 → ℕ
  | [] => 0
  | [a] => 256*a.toNat
  | a :: b :: p => 256*a.toNat + b.toNat + wordSum p

def foldCarry (sum : ℕ) : ℕ := if h : sum < 65536 then sum else foldCarry (sum%65536 + sum/65536)
termination_by sum
decreasing_by omega

/-- `net_ipv4_checksum`, whose result is in network byte order already. -/
def checksum (p : List UInt8) : UInt16 :=
  let c := 65535 - foldCarry (wordSum p)
  UInt16.ofNat (c/256 + 256*(c%256))

/-- `tcp_compute_checksum`. -/
def tcpChecksum (src dst : Ip) (p : List UInt8) : UInt16 :=
  if p.length > 1500 then 0
  else checksum (List.ofFn src ++ List.ofFn dst ++
    [0,6,UInt8.ofNat (p.length/256),UInt8.ofNat p.length] ++ p)

/-- The checks of `tcp_handle` on the bytes it is given; `none` where it drops them. -/
def Segment.decode (src dst : Ip) (p : List UInt8) : Option Segment :=
  let hdrLen := (byteOf p 12 >>> 4).toNat * 4
  if p.length < hdrMinLen then none
  else if hdrLen < hdrMinLen ∨ hdrLen > p.length then none
  else if p.length > 1500 then none
  else if le16 p 16 ≠ tcpChecksum src dst ((p.set 16 0).set 17 0) then none
  else some
    { srcPort := be16 p 0
      dstPort := be16 p 2
      seq := be32 p 4
      ack := be32 p 8
      flags := byteOf p 13
      window := be16 p 14
      data := p.drop hdrLen }

/-- The MSS option, or nothing. -/
def Packet.options (q : Packet) : List UInt8 :=
  if q.mssOption then [2,4,UInt8.ofNat (mss/256),UInt8.ofNat mss] else []

/-- The packet of `tcp_tx` with a value in its checksum field. -/
def Packet.build (q : Packet) (c : UInt16) : List UInt8 :=
  put16 q.segment.srcPort ++ put16 q.segment.dstPort ++ put32 q.segment.seq ++ put32 q.segment.ack ++
    [if q.mssOption then 0x60 else 0x50,q.segment.flags] ++ put16 q.segment.window ++
    [UInt8.ofNat c.toNat,UInt8.ofNat (c.toNat/256),0,0] ++ q.options ++ q.segment.data

/-- The bytes that `tcp_tx` hands to the IP layer: the checksum is computed over a zero field. -/
def Packet.encode (q : Packet) : List UInt8 := q.build (tcpChecksum q.src q.dst (q.build 0))

lemma put16_be16 (v : UInt16) :
    UInt16.ofNat (256*(UInt8.ofNat (v.toNat/256)).toNat + (UInt8.ofNat v.toNat).toNat) = v := by
  have hv := v.toNat_lt
  rw [← UInt16.toNat_inj,UInt16.toNat_ofNat',UInt8.toNat_ofNat',UInt8.toNat_ofNat']
  omega

lemma put16_le16 (v : UInt16) :
    UInt16.ofNat ((UInt8.ofNat v.toNat).toNat + 256*(UInt8.ofNat (v.toNat/256)).toNat) = v := by
  rw [Nat.add_comm]
  exact put16_be16 v

lemma put32_be32 (v : UInt32) :
    UInt32.ofNat (16777216*(UInt8.ofNat (v.toNat/16777216)).toNat + 65536*(UInt8.ofNat (v.toNat/65536)).toNat +
      256*(UInt8.ofNat (v.toNat/256)).toNat + (UInt8.ofNat v.toNat).toNat) = v := by
  have hv := v.toNat_lt
  rw [← UInt32.toNat_inj,UInt32.toNat_ofNat']
  simp only [UInt8.toNat_ofNat']
  omega

lemma Packet.build_length (q : Packet) (c : UInt16) :
    (q.build c).length = (if q.mssOption then 24 else 20) + q.segment.data.length := by
  unfold Packet.build Packet.options put16 put32
  cases q.mssOption <;> simp <;> omega

lemma Packet.build_set (q : Packet) (c : UInt16) : ((q.build c).set 16 0).set 17 0 = q.build 0 := by
  simp [Packet.build,put16,put32]

lemma Packet.build_drop (q : Packet) (c : UInt16) :
    (q.build c).drop (if q.mssOption then 24 else 20) = q.segment.data := by
  unfold Packet.build Packet.options put16 put32
  cases q.mssOption <;> simp

lemma decode_encode (q : Packet) (h : q.segment.data.length ≤ mss) :
    Segment.decode q.src q.dst q.encode = some q.segment := by
  have hmss : mss = 1460 := rfl
  have hmin : hdrMinLen = 20 := rfl
  unfold Packet.encode Segment.decode
  generalize hc : tcpChecksum q.src q.dst (q.build 0) = c
  have hbyte : byteOf (q.build c) 12 = if q.mssOption then 0x60 else 0x50 := by
    simp [Packet.build,byteOf,put16,put32]
  have hoff : (byteOf (q.build c) 12 >>> 4).toNat * 4 = if q.mssOption then 24 else 20 := by
    rw [hbyte]
    cases q.mssOption <;> decide
  have hsum : le16 (q.build c) 16 = c := by
    simp only [Packet.build,le16,byteOf,put16,put32]
    exact put16_le16 c
  rw [hoff]
  dsimp only
  rw [q.build_drop,q.build_length,q.build_set,hc,hsum,if_neg (by split_ifs <;> omega),
    if_neg (by split_ifs <;> omega),if_neg (by split_ifs <;> omega),if_neg (by simp),Option.some.injEq]
  refine Segment.ext ?_ ?_ ?_ ?_ ?_ ?_ rfl
  · simpa [Packet.build,be16,byteOf,put16,put32] using put16_be16 q.segment.srcPort
  · simpa [Packet.build,be16,byteOf,put16,put32] using put16_be16 q.segment.dstPort
  · simpa [Packet.build,be32,byteOf,put16,put32] using put32_be32 q.segment.seq
  · simpa [Packet.build,be32,byteOf,put16,put32] using put32_be32 q.segment.ack
  · simp [Packet.build,byteOf,put16,put32]
  · simpa [Packet.build,be16,byteOf,put16,put32] using put16_be16 q.segment.window

end VibeOS.Tcp

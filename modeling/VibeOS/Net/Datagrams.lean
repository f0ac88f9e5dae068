import VibeOS.Net.Receive
import VibeOS.Runs

/-! Datagrams to our own addresses, from `udp_send` through the loopback queue to their callbacks. -/
namespace VibeOS.Net
open VibeOS.Storage VibeOS.Tcp List Option

namespace Stack

variable {resolve : Stack → Ip → Option Mac} {tx : List UInt8 → ℤ} {above : List (List Handed) → List Outgoing}
  {s t u : Stack} {x frame : List UInt8} {xs ys : List (List UInt8)} {q : Outgoing} {d : Datagram} {ds : List Datagram}

def lo (s : Stack) : Ring (List UInt8) 64 := ⟨s.loBuf,s.loHead,s.loTail,0⟩

structure Queued (s : Stack) (xs : List (List UInt8)) : Prop where
  spells : s.lo.Spells xs
  head : s.loHead < 64
  tail : s.loTail < 64
  room : xs.length < 64

/-- Nothing changed that a frame is judged or delivered by. -/
structure Same (s t : Stack) : Prop where
  ip : t.ip = s.ip
  bind : t.bind = s.bind
  present : t.present = s.present

lemma Same.refl (s : Stack) : Same s s := ⟨rfl,rfl,rfl⟩

lemma Same.trans (h : Same s t) (h' : Same t u) : Same s u :=
  ⟨h'.ip.trans h.ip,h'.bind.trans h.bind,h'.present.trans h.present⟩

lemma Queued.tail_eq (h : Queued s xs) : s.loTail = (s.loHead + xs.length) % 64 := by
  have htail : s.loTail % 64 = (s.loHead + xs.length) % 64 := h.spells.tail
  rwa [Nat.mod_eq_of_lt h.tail] at htail

lemma Queued.congr (h : Queued s xs) (hbuf : t.loBuf = s.loBuf) (hhead : t.loHead = s.loHead) (htail : t.loTail = s.loTail) :
    Queued t xs := by
  refine ⟨?_,hhead ▸ h.head,htail ▸ h.tail,h.room⟩
  rw [lo,hbuf,hhead,htail]
  exact h.spells

lemma Queued.isEmpty (h : Queued s []) : s.loHead = s.loTail := by
  have htail := h.tail_eq
  have hhead := h.head
  rw [length_nil,Nat.add_zero] at htail
  omega

lemma Queued.pop (h : Queued s (x :: xs)) : s.loHead ≠ s.loTail ∧ s.loBuf (Fin.ofNat 64 s.loHead) = x ∧
    Queued { s with loHead := (s.loHead + 1) % loopbackQueueCap } xs := by
  obtain ⟨hx,hrest⟩ := h.spells.pop
  have hroom := h.room
  have htail := h.tail_eq
  have hhead := h.head
  rw [length_cons] at hroom htail
  exact ⟨by omega,hx,hrest,Nat.mod_lt _ (by decide),h.tail,by omega⟩

lemma loopbackEnqueue_full (h : Queued s xs) (hfull : xs.length = 63) : s.loopbackEnqueue frame = (-1,s) := by
  have htail := h.tail_eq
  have hhead := h.head
  exact if_pos (show (s.loTail + 1) % 64 = s.loHead by omega)

lemma loopbackEnqueue_spec (h : Queued s xs) (hroom : xs.length < 63) (hlen : frame.length ≤ ethHdrLen + 1500) :
    ∃ t, s.loopbackEnqueue frame = (0,t) ∧ Queued t (xs ++ [frame]) ∧ Same s t := by
  have htail := h.tail_eq
  have hhead := h.head
  have hnext : ¬ (s.loTail + 1) % loopbackQueueCap = s.loHead := by
    simp only [loopbackQueueCap]
    omega
  unfold loopbackEnqueue
  rw [if_neg hnext,if_neg (Nat.not_lt.mpr hlen)]
  refine ⟨_,rfl,⟨h.spells.push (by omega) frame,h.head,Nat.mod_lt _ (by decide),?_⟩,rfl,rfl,rfl⟩
  rw [length_append,length_singleton]
  omega

lemma loopbackEnqueue_kept (h : Queued s xs) (frame : List UInt8) :
    Same s (s.loopbackEnqueue frame).2 ∧ ∃ ys, Queued (s.loopbackEnqueue frame).2 (xs ++ ys) := by
  have stays : Same s s ∧ ∃ ys, Queued s (xs ++ ys) := ⟨.refl s,[],(append_nil xs).symm ▸ h⟩
  by_cases hfull : xs.length = 63
  · rw [loopbackEnqueue_full h hfull]
    exact stays
  · have hroom := h.room
    by_cases hlen : frame.length ≤ ethHdrLen + 1500
    · obtain ⟨t,ht,hqueued,hsame⟩ := loopbackEnqueue_spec h (by omega) hlen
      rw [ht]
      exact ⟨hsame,[frame],hqueued⟩
    · unfold loopbackEnqueue
      dsimp only
      split
      · exact stays
      · rw [if_pos (Nat.not_le.mp hlen)]
        exact stays

/-- The header that `net_ipv4_build_src` writes. -/
def builtHdr (s : Stack) (q : Outgoing) : Ipv4Hdr :=
  let h : Ipv4Hdr :=
    { vihl := 0x45
      tos := 0
      totalLen := netBe16ToCpu (UInt16.ofNat (ipv4HdrLen + q.payload.length))
      id := netBe16ToCpu s.ipId
      frag := 0
      ttl := ipv4DefaultTtl
      proto := q.proto
      checksum := 0
      src := q.src
      dst := q.dst }
  { h with checksum := checksum h.bytes }

lemma netIpv4BuildSrc_eq (hlen : ipv4HdrLen + q.payload.length ≤ 1500) :
    s.netIpv4BuildSrc 1500 q = (some ((s.builtHdr q).bytes ++ q.payload),{ s with ipId := s.ipId + 1 }) :=
  if_neg (by omega)

lemma netIpv4BuildSrc_kept (s : Stack) (cap : ℕ) (q : Outgoing) : Same s (s.netIpv4BuildSrc cap q).2 ∧
    (s.netIpv4BuildSrc cap q).2.loBuf = s.loBuf ∧ (s.netIpv4BuildSrc cap q).2.loHead = s.loHead ∧
    (s.netIpv4BuildSrc cap q).2.loTail = s.loTail := by
  unfold netIpv4BuildSrc
  dsimp only
  split <;> exact ⟨⟨rfl,rfl,rfl⟩,rfl,rfl,rfl⟩

def frameOf (s : Stack) (q : Outgoing) : List UInt8 :=
  s.ethHdrBuild s.mac etherTypeIpv4 ++ ((s.builtHdr q).bytes ++ q.payload)

lemma length_ethHdrBuild (s : Stack) (mac : Mac) (et : UInt16) : (s.ethHdrBuild mac et).length = ethHdrLen := by
  simp [ethHdrBuild,put16,ethHdrLen]

lemma length_frameOf (s : Stack) (q : Outgoing) : (s.frameOf q).length = ethHdrLen + (ipv4HdrLen + q.payload.length) := by
  rw [frameOf,length_append,length_append,length_ethHdrBuild,Ipv4Hdr.length_bytes]

lemma netIpv4SendFrom_kept (resolve : Stack → Ip → Option Mac) (tx : List UInt8 → ℤ) (h : Queued s xs) (q : Outgoing) :
    Same s (netIpv4SendFrom resolve tx s q).2 ∧ ∃ ys, Queued (netIpv4SendFrom resolve tx s q).2 (xs ++ ys) := by
  have stays : Same s s ∧ ∃ ys, Queued s (xs ++ ys) := ⟨.refl s,[],(append_nil xs).symm ▸ h⟩
  obtain ⟨hsame,hbuf,hhead,htail⟩ := netIpv4BuildSrc_kept s 1500 q
  have hbuilt := h.congr hbuf hhead htail
  unfold netIpv4SendFrom
  split
  · exact stays
  split
  · exact stays
  split
  · split
    · next hb =>
      rw [hb] at hsame hbuilt
      exact ⟨hsame,[],(append_nil xs).symm ▸ hbuilt⟩
    · next hb =>
      rw [hb] at hsame hbuilt
      obtain ⟨hsame',hqueued⟩ := loopbackEnqueue_kept hbuilt _
      exact ⟨hsame.trans hsame',hqueued⟩
  · dsimp only
    split
    · exact stays
    · split
      · next hb =>
        rw [hb] at hsame hbuilt
        exact ⟨hsame,[],(append_nil xs).symm ▸ hbuilt⟩
      · next hb =>
        rw [hb] at hsame hbuilt
        exact ⟨⟨hsame.ip,hsame.bind,hsame.present⟩,[],(append_nil xs).symm ▸ hbuilt.congr rfl rfl rfl⟩

lemma sendFromAll_kept (resolve : Stack → Ip → Option Mac) (tx : List UInt8 → ℤ) (qs : List Outgoing) (h : Queued s xs) :
    Same s (sendFromAll resolve tx qs s) ∧ ∃ ys, Queued (sendFromAll resolve tx qs s) (xs ++ ys) ∧ (qs = [] → ys = []) := by
  induction qs generalizing s xs with
  | nil => exact ⟨.refl s,[],(append_nil xs).symm ▸ h,fun _ => rfl⟩
  | cons q qs ih =>
    obtain ⟨hsame,ys,hqueued⟩ := netIpv4SendFrom_kept resolve tx h q
    obtain ⟨hsame',zs,hqueued',-⟩ := ih hqueued
    exact ⟨hsame.trans hsame',ys ++ zs,append_assoc xs ys zs ▸ hqueued',nofun⟩

lemma netIpv4SendFrom_local (resolve : Stack → Ip → Option Mac) (tx : List UInt8 → ℤ) (h : Queued s xs) (hpresent : s.present = true) (hlocal : s.netIsLocalIp q.dst = true)
    (hlen : ipv4HdrLen + q.payload.length ≤ 1500) :
    (xs.length = 63 → ∃ t, netIpv4SendFrom resolve tx s q = (-1,t) ∧ Queued t xs ∧ Same s t) ∧
    (xs.length < 63 → ∃ t, netIpv4SendFrom resolve tx s q = (0,t) ∧ Queued t (xs ++ [s.frameOf q]) ∧ Same s t) := by
  have hbuilt : Queued { s with ipId := s.ipId + 1 } xs := h.congr rfl rfl rfl
  have hsend : netIpv4SendFrom resolve tx s q = { s with ipId := s.ipId + 1 }.loopbackEnqueue (s.frameOf q) := by
    have hthere : ¬ (!s.present) = true := by simp [hpresent]
    unfold netIpv4SendFrom
    rw [if_neg hthere,if_neg (by omega),if_pos hlocal,netIpv4BuildSrc_eq hlen]
    rfl
  have hframe : (s.frameOf q).length ≤ ethHdrLen + 1500 := by
    rw [length_frameOf]
    omega
  rw [hsend]
  constructor
  · intro hfull
    exact ⟨_,loopbackEnqueue_full hbuilt hfull,hbuilt,rfl,rfl,rfl⟩
  · intro hroom
    obtain ⟨t,ht,hqueued,hsame⟩ := loopbackEnqueue_spec hbuilt hroom hframe
    exact ⟨t,ht,hqueued,hsame.ip,hsame.bind,hsame.present⟩

lemma Same.isLocal (h : Same s t) (ip : Ip) : t.netIsLocalIp ip = s.netIsLocalIp ip := by
  unfold netIsLocalIp
  rw [h.ip]

lemma Same.findBinding (h : Same s t) (port : UInt16) : t.findBinding port = s.findBinding port := by
  unfold Stack.findBinding
  rw [h.bind]

/-- The packet that `udp_send` builds. -/
def udpHdrOf (s : Stack) (d : Datagram) : UdpHdr :=
  let h : UdpHdr :=
    { srcPort := netBe16ToCpu d.srcPort
      dstPort := netBe16ToCpu d.dstPort
      length := netBe16ToCpu (UInt16.ofNat (udpHdrLen + d.payload.length))
      checksum := 0 }
  let cks := udpComputeChecksum (d.src.getD s.ip) d.dst (h.bytes ++ d.payload)
  { h with checksum := if cks = 0 then 0xFFFF else cks }

def outgoingOf (s : Stack) (d : Datagram) : Outgoing :=
  ⟨d.src.getD s.ip,d.dst,ipv4ProtoUdp,(s.udpHdrOf d).bytes ++ d.payload⟩

def callsFor (s : Stack) (d : Datagram) : List Call :=
  (s.findBinding d.dstPort).toList.map fun cb => ⟨cb,d.src.getD s.ip,d.srcPort,d.payload⟩

lemma udpSend_eq (hlen : d.payload.length ≤ 1472) :
    udpSend resolve tx s d = netIpv4SendFrom resolve tx s (s.outgoingOf d) := by
  have hudp : udpHdrLen = 8 := rfl
  have hip : ipv4HdrLen = 20 := rfl
  exact if_neg (by omega)

lemma length_outgoingOf (s : Stack) (d : Datagram) : (s.outgoingOf d).payload.length = udpHdrLen + d.payload.length :=
  length_append

lemma netBe16ToCpu_ofNat {n : ℕ} (h : n < 65536) : (netBe16ToCpu (netBe16ToCpu (UInt16.ofNat n))).toNat = n := by
  rw [netBe16ToCpu_twice]
  exact UInt16.toNat_ofNat_of_lt' h

lemma UdpHdr.set_checksum (h : UdpHdr) (p : List UInt8) :
    ((h.bytes ++ p).set 6 0).set 7 0 = { h with checksum := 0 }.bytes ++ p := by
  simp [UdpHdr.bytes,mem16]

lemma udpVerify_built (hlen : d.payload.length ≤ 1472) {ip : Ipv4Hdr} (hsrc : ip.src = d.src.getD s.ip) (hdst : ip.dst = d.dst) :
    udpVerify ip (s.udpHdrOf d) (s.outgoingOf d).payload (udpHdrLen + d.payload.length) = some true := by
  have hudp : udpHdrLen = 8 := rfl
  unfold udpVerify
  split
  · rfl
  · rw [if_neg (by omega),readBytes_of_le (by rw [length_outgoingOf]; omega),bind_eq_bind,bind_some,
      drop_zero,take_of_length_le (by rw [length_outgoingOf]),hsrc,hdst]
    dsimp only [outgoingOf]
    rw [UdpHdr.set_checksum]
    exact congrArg some (beq_self_eq_true (s.udpHdrOf d).checksum)

lemma udpHandle_built (hlen : d.payload.length ≤ 1472) {ip : Ipv4Hdr} (hsrc : ip.src = d.src.getD s.ip) (hdst : ip.dst = d.dst)
    (ht : Same s t) : t.udpHandle ip (s.outgoingOf d).payload = some ((s.callsFor d).map .callback) := by
  have hudp : udpHdrLen = 8 := rfl
  have hn : (netBe16ToCpu (s.udpHdrOf d).length).toNat = udpHdrLen + d.payload.length := netBe16ToCpu_ofNat (by omega)
  have hparse : UdpHdr.ofBytes (s.outgoingOf d).payload = some (s.udpHdrOf d) := UdpHdr.ofBytes_bytes _ _
  have hsp : netBe16ToCpu (s.udpHdrOf d).srcPort = d.srcPort := netBe16ToCpu_twice _
  have hdp : netBe16ToCpu (s.udpHdrOf d).dstPort = d.dstPort := netBe16ToCpu_twice _
  unfold udpHandle
  rw [if_neg (by rw [length_outgoingOf]; omega),hparse,bind_eq_bind,bind_some]
  dsimp only
  rw [hn,if_neg (by rw [length_outgoingOf]; omega),udpVerify_built hlen hsrc hdst,bind_eq_bind,bind_some,
    if_neg (by decide),hdp,ht.findBinding]
  unfold callsFor
  cases s.findBinding d.dstPort with
  | none => rfl
  | some cb =>
    have hbody : readBytes (s.outgoingOf d).payload udpHdrLen (udpHdrLen + d.payload.length - udpHdrLen) = some d.payload := by
      rw [readBytes_of_le (by rw [length_outgoingOf]; omega),outgoingOf,← UdpHdr.length_bytes (s.udpHdrOf d),
        drop_left,take_of_length_le (by omega)]
    dsimp only
    rw [hbody,hsp,hsrc]
    rfl

lemma rxHandleIpv4_built (hlen : d.payload.length ≤ 1472) (hlocal : s.netIsLocalIp d.dst = true) (ht : Same s t) {r : Stack}
    (hq : q = s.outgoingOf d) :
    t.rxHandleIpv4 (r.frameOf q) = some (.udp (r.builtHdr q) q.payload :: (s.callsFor d).map .callback) := by
  have hudp : udpHdrLen = 8 := rfl
  have hip : ipv4HdrLen = 20 := rfl
  have hpay : q.payload.length = udpHdrLen + d.payload.length := hq ▸ length_outgoingOf s d
  have hdrop : (r.frameOf q).drop ethHdrLen = (r.builtHdr q).bytes ++ q.payload := by
    rw [frameOf,← length_ethHdrBuild r r.mac etherTypeIpv4,drop_left]
  have hbody : (r.frameOf q).drop (ethHdrLen + ipv4HdrLen) = q.payload := by
    rw [← drop_drop,hdrop,← Ipv4Hdr.length_bytes (r.builtHdr q),drop_left]
  have hn : (netBe16ToCpu (r.builtHdr q).totalLen).toNat = ipv4HdrLen + q.payload.length := netBe16ToCpu_ofNat (by omega)
  unfold rxHandleIpv4
  rw [if_neg (by rw [length_frameOf]; omega),hdrop,Ipv4Hdr.ofBytes_bytes,bind_eq_bind,bind_some]
  dsimp only
  have hversion : ¬ (r.builtHdr q).vihl >>> 4 ≠ 4 := fun hne => hne (by decide : (0x45 : UInt8) >>> 4 = 4)
  have hihl : ¬ (r.builtHdr q).vihl &&& 0x0F ≠ 5 := fun hne => hne (by decide : (0x45 : UInt8) &&& 0x0F = 5)
  rw [hn,if_neg hversion,if_neg hihl,if_neg (by rw [length_frameOf]; omega),if_neg (by omega)]
  have hsum : ¬ checksum { r.builtHdr q with checksum := 0 }.bytes ≠ (r.builtHdr q).checksum := fun hne => hne rfl
  have hdst : (r.builtHdr q).dst = d.dst := by
    rw [hq]
    rfl
  have hfor : ¬ ¬ ((r.builtHdr q).dst = t.ip ∨ (r.builtHdr q).dst = gBcastIp ∨ t.netIsLocalIp (r.builtHdr q).dst = true) := by
    rw [hdst,ht.isLocal]
    exact fun hno => hno (.inr (.inr hlocal))
  have hproto : (r.builtHdr q).proto = ipv4ProtoUdp := by
    rw [hq]
    rfl
  have hsrc : (r.builtHdr q).src = d.src.getD s.ip := by
    rw [hq]
    rfl
  rw [if_neg hsum,if_neg hfor,readBytes_of_le (by rw [length_frameOf]; omega),bind_eq_bind,bind_some,hproto,
    if_neg (by decide),if_pos rfl,hbody,take_of_length_le (by omega)]
  have hup : t.udpHandle (r.builtHdr q) q.payload = some ((s.callsFor d).map .callback) := by
    nth_rewrite 2 [hq]
    exact udpHandle_built hlen hsrc hdst ht
  rw [hup]
  rfl

/-- The frame of a datagram: wherever the addresses and the ports are the same, it calls what the datagram is for. -/
def Delivers (s : Stack) (d : Datagram) (frame : List UInt8) : Prop :=
  ∀ t, Same s t → ∃ handed, t.rxDispatch frame = some (handed,t) ∧ handed.filterMap Handed.call = s.callsFor d

lemma delivers_frameOf (hlen : d.payload.length ≤ 1472) (hlocal : s.netIsLocalIp d.dst = true) (r : Stack) :
    Delivers s d (r.frameOf (s.outgoingOf d)) := by
  intro t ht
  refine ⟨.udp (r.builtHdr (s.outgoingOf d)) (s.outgoingOf d).payload :: (s.callsFor d).map .callback,?_,?_⟩
  · have het : (r.frameOf (s.outgoingOf d))[12]? = some 0x08 ∧ (r.frameOf (s.outgoingOf d))[13]? = some 0x00 := by
      simp [frameOf,ethHdrBuild,put16,etherTypeIpv4]
    unfold rxDispatch
    rw [if_neg (by rw [length_frameOf]; omega),het.1,het.2,bind_eq_bind,bind_some,bind_eq_bind,
      bind_some,rxHandleIpv4_built hlen hlocal ht rfl]
    rfl
  · rw [filterMap_cons,filterMap_map]
    exact filterMap_some

/-- The datagrams are sent one after another; those that `udp_send` accepts. -/
def sendAll (resolve : Stack → Ip → Option Mac) (tx : List UInt8 → ℤ) : List Datagram → Stack → List Datagram × Stack
  | [], s => ([],s)
  | d :: ds, s =>
    let (r,t) := udpSend resolve tx s d
    let (accepted,u) := sendAll resolve tx ds t
    (if r = 0 then d :: accepted else accepted,u)

lemma Same.callsFor (h : Same s t) (d : Datagram) : t.callsFor d = s.callsFor d := by
  unfold Stack.callsFor
  rw [h.findBinding,h.ip]

lemma Same.delivers (h : Same s t) (hd : Delivers t d frame) : Delivers s d frame := by
  intro u hu
  obtain ⟨handed,hhanded,hcalls⟩ := hd u ⟨hu.ip.trans h.ip.symm,hu.bind.trans h.bind.symm,hu.present.trans h.present.symm⟩
  exact ⟨handed,hhanded,hcalls.trans (h.callsFor d)⟩

lemma sendAll_spec (h : Queued s xs) (hpresent : s.present = true)
    (hds : ∀ d ∈ ds, s.netIsLocalIp d.dst = true ∧ d.payload.length ≤ 1472) :
    ∃ fs, (sendAll resolve tx ds s).1 = ds.take (63 - xs.length) ∧ Queued (sendAll resolve tx ds s).2 (xs ++ fs) ∧
      Same s (sendAll resolve tx ds s).2 ∧ List.Forall₂ (Delivers s) (sendAll resolve tx ds s).1 fs := by
  induction ds generalizing s xs with
  | nil => exact ⟨[],List.take_nil.symm,(append_nil xs).symm ▸ h,.refl s,.nil⟩
  | cons d ds ih =>
    obtain ⟨hlocal,hlen⟩ := hds d mem_cons_self
    have hudp : udpHdrLen = 8 := rfl
    have hip : ipv4HdrLen = 20 := rfl
    obtain ⟨hfull,hroom⟩ := netIpv4SendFrom_local resolve tx h hpresent (show s.netIsLocalIp (s.outgoingOf d).dst = true from hlocal)
      (by rw [length_outgoingOf]; omega)
    rw [← udpSend_eq hlen] at hfull hroom
    have hlt := h.room
    have hrest (t : Stack) (hst : Same s t) : ∀ d ∈ ds, t.netIsLocalIp d.dst = true ∧ d.payload.length ≤ 1472 := fun d hd => by
      rw [hst.isLocal]
      exact hds d (mem_cons_of_mem _ hd)
    rcases Nat.lt_or_ge xs.length 63 with hless | hmore
    · obtain ⟨t,ht,hqueued,hsame⟩ := hroom hless
      obtain ⟨fs,hacc,hq,hs,hall⟩ := ih hqueued (hsame.present.trans hpresent) (hrest t hsame)
      refine ⟨s.frameOf (s.outgoingOf d) :: fs,?_,?_,?_,?_⟩
      · rw [sendAll,ht]
        dsimp only
        rw [if_pos rfl,hacc,length_append,length_singleton,show 63 - xs.length = 63 - (xs.length + 1) + 1 by omega,
          take_succ_cons]
      · rw [sendAll,ht]
        rwa [append_assoc] at hq
      · rw [sendAll,ht]
        exact hsame.trans hs
      · rw [sendAll,ht]
        dsimp only
        rw [if_pos rfl]
        exact .cons (delivers_frameOf hlen hlocal s) (hall.imp fun _ _ hd => hsame.delivers hd)
    · obtain ⟨t,ht,hqueued,hsame⟩ := hfull (by omega)
      obtain ⟨fs,hacc,hq,hs,hall⟩ := ih hqueued (hsame.present.trans hpresent) (hrest t hsame)
      have hnone : 63 - xs.length = 0 := by omega
      rw [hnone] at hacc
      refine ⟨fs,?_,?_,?_,?_⟩
      · rw [sendAll,ht,hnone]
        exact hacc
      · rw [sendAll,ht]
        exact hq
      · rw [sendAll,ht]
        exact hsame.trans hs
      · rw [sendAll,ht]
        exact hall.imp fun _ _ hd => hsame.delivers hd

lemma sendAll_absent (hpresent : s.present = false) : sendAll resolve tx ds s = ([],s) := by
  have hsend (d : Datagram) : udpSend resolve tx s d = (-1,s) := by
    unfold udpSend netIpv4SendFrom
    split
    · rfl
    · exact if_pos (by rw [hpresent]; rfl)
  induction ds with
  | nil => rfl
  | cons d ds ih =>
    rw [sendAll,hsend]
    dsimp only
    rw [ih]
    rfl

/-- One turn of the loop: the frame at the head is dispatched, and what is sent meanwhile goes behind the others. -/
lemma dispatch_head (resolve : Stack → Ip → Option Mac) (tx : List UInt8 → ℤ) (above : List (List Handed) → List Outgoing)
    (h : Queued s (x :: xs)) : ∃ handed t u,
    Same s t ∧ t.rxDispatch x = some (handed,u) ∧ ∀ log n,
      drainLoop resolve tx above (n + 1) log s = drainLoop resolve tx above n (log ++ [handed])
        (sendFromAll resolve tx (above (log ++ [handed])) u) ∧ Same s u ∧ Queued u xs := by
  obtain ⟨hne,hx,hqueued⟩ := h.pop
  obtain ⟨handed,u,hrx,-⟩ := rxDispatch_spec { s with loHead := (s.loHead + 1) % loopbackQueueCap } x
  obtain ⟨hip,hbind,hpresent,hbuf,hhead,htail⟩ := rxDispatch_unchanged hrx
  refine ⟨handed,{ s with loHead := (s.loHead + 1) % loopbackQueueCap },u,⟨rfl,rfl,rfl⟩,hrx,fun log n =>
    ⟨?_,⟨hip,hbind,hpresent⟩,hqueued.congr hbuf hhead htail⟩⟩
  rw [drainLoop,if_neg hne,hx]
  dsimp only
  rw [hrx]
  rfl

lemma drainLoop_some (resolve : Stack → Ip → Option Mac) (tx : List UInt8 → ℤ) (above : List (List Handed) → List Outgoing)
    (n : ℕ) (log : List (List Handed)) (h : Queued s xs) : ∃ rest t,
    drainLoop resolve tx above n log s = some (log ++ rest,t) ∧ Same s t ∧ ∃ ys, Queued t ys := by
  have stays : ∃ rest t, some (log,s) = some (log ++ rest,t) ∧ Same s t ∧ ∃ ys, Queued t ys :=
    ⟨[],s,by rw [append_nil],.refl s,xs,h⟩
  induction n generalizing s xs log with
  | zero => exact stays
  | succ n ih =>
    cases xs with
    | nil =>
      rw [drainLoop,if_pos h.isEmpty]
      exact stays
    | cons x xs =>
      obtain ⟨handed,-,u,-,-,hturn⟩ := dispatch_head resolve tx above h
      obtain ⟨hloop,hsame,hqueued⟩ := hturn log n
      obtain ⟨hsame',ys,hqueued',-⟩ := sendFromAll_kept resolve tx (above (log ++ [handed])) hqueued
      obtain ⟨rest,t,ht,hst,hys⟩ := ih (log ++ [handed]) hqueued' ⟨[],_,by rw [append_nil],.refl _,_,hqueued'⟩
      refine ⟨handed :: rest,t,?_,(hsame.trans hsame').trans hst,hys⟩
      rw [hloop,ht,append_assoc,singleton_append]

lemma drainLoop_front (resolve : Stack → Ip → Option Mac) (tx : List UInt8 → ℤ) (above : List (List Handed) → List Outgoing)
    {n : ℕ} (hn : xs.length ≤ n) (log : List (List Handed)) (h : Queued s (xs ++ ys)) : ∃ hs rest t,
    drainLoop resolve tx above n log s = some (log ++ (hs ++ rest),t) ∧
      List.Forall₂ (fun frame handed => ∃ t u, Same s t ∧ t.rxDispatch frame = some (handed,u)) xs hs ∧
      ((∀ l, above l = []) → ys = [] → rest = []) := by
  induction xs generalizing s ys n log with
  | nil =>
    by_cases hys : ys = []
    · subst hys
      refine ⟨[],[],s,?_,.nil,fun _ _ => rfl⟩
      rw [append_nil,append_nil]
      cases n with
      | zero => rfl
      | succ n => exact if_pos h.isEmpty
    · obtain ⟨rest,t,ht,-⟩ := drainLoop_some resolve tx above n log h
      exact ⟨[],rest,t,ht,.nil,fun _ hnil => absurd hnil hys⟩
  | cons x xs ih =>
    cases n with
    | zero => cases hn
    | succ n =>
      obtain ⟨handed,r,u,hr,hrx,hturn⟩ := dispatch_head resolve tx above (cons_append ▸ h)
      obtain ⟨hloop,hsame,hqueued⟩ := hturn log n
      obtain ⟨hsame',zs,hqueued',hzs⟩ := sendFromAll_kept resolve tx (above (log ++ [handed])) hqueued
      rw [append_assoc] at hqueued'
      obtain ⟨hs,rest,t,ht,hall,hquiet⟩ := ih (Nat.le_of_succ_le_succ hn) (log ++ [handed]) hqueued'
      refine ⟨handed :: hs,rest,t,?_,.cons ⟨r,u,hr,hrx⟩ ?_,fun hnone hys => hquiet hnone ?_⟩
      · rw [hloop,ht,append_assoc,singleton_append,cons_append]
      · refine hall.imp fun frame handed' ⟨t',u',ht',hrx'⟩ => ⟨t',u',(hsame.trans hsame').trans ht',hrx'⟩
      · rw [hys,hzs (hnone _),append_nil]

lemma calls_of_delivers {fs : List (List UInt8)} {hs : List (List Handed)} (hall : List.Forall₂ (Delivers s) ds fs)
    (hdone : List.Forall₂ (fun frame handed => ∃ t u, Same s t ∧ t.rxDispatch frame = some (handed,u)) fs hs) :
    hs.map (filterMap Handed.call) = ds.map s.callsFor := by
  induction hall generalizing hs with
  | nil =>
    cases hdone
    rfl
  | cons hd hrest ih =>
    obtain _ | ⟨⟨t,u,ht,hrx⟩,hdone⟩ := hdone
    obtain ⟨handed,hhanded,hcalls⟩ := hd t ht
    rw [hrx,some.injEq] at hhanded
    cases hhanded
    rw [map_cons,map_cons,hcalls,ih hdone]

lemma queued_boot (present : Bool) (mac : Mac) : Queued (boot present mac) [] :=
  ⟨⟨Nat.zero_le _,rfl,fun _ hi => nomatch hi⟩,Nat.succ_pos _,Nat.succ_pos _,Nat.succ_pos _⟩

lemma step_queued {e : Event} {r : List (List Handed)} (h : Queued s xs) (now : step resolve tx s e = some (r,t)) :
    ∃ ys, Queued t ys := by
  cases e with
  | config ip gw msk =>
    cases now
    exact ⟨xs,h.congr rfl rfl rfl⟩
  | bind port cb =>
    cases now
    refine ⟨xs,?_⟩
    unfold udpBind
    split
    · cases cb <;> exact h.congr rfl rfl rfl
    · cases cb with
      | none => exact h
      | some cb =>
        dsimp only
        split
        · exact h.congr rfl rfl rfl
        · exact h
  | send q =>
    cases now
    obtain ⟨-,ys,hqueued⟩ := netIpv4SendFrom_kept resolve tx h q
    exact ⟨_,hqueued⟩
  | udpSend d =>
    cases now
    unfold udpSend
    split
    · exact ⟨xs,h⟩
    · obtain ⟨-,ys,hqueued⟩ := netIpv4SendFrom_kept resolve tx h _
      exact ⟨_,hqueued⟩
  | rx frame =>
    obtain ⟨⟨handed,u⟩,hrx,hr⟩ := Option.map_eq_some_iff.mp now
    cases hr
    obtain ⟨-,-,-,hbuf,hhead,htail⟩ := rxDispatch_unchanged hrx
    exact ⟨xs,h.congr hbuf hhead htail⟩
  | drain above =>
    obtain ⟨rest,u,hu,-,hqueued⟩ := drainLoop_some resolve tx above loopbackDrainCap [] h
    rw [show step resolve tx s (.drain above) = some (rest,u) from hu] at now
    cases now
    exact hqueued

lemma queued_of_runs {present : Bool} {mac : Mac} {es : List Event}
    (hrun : Runs (step resolve tx) (fun _ _ => True) (boot present mac) es s) : ∃ xs, Queued s xs :=
  hrun.invariant (I := fun s => ∃ xs, Queued s xs) (fun _ _ _ _ ⟨_,h⟩ _ now => step_queued h now) ⟨[],queued_boot present mac⟩

def loCount (s : Stack) : ℕ := (s.loTail + loopbackQueueCap - s.loHead) % loopbackQueueCap

lemma Queued.count (h : Queued s xs) : s.loCount = xs.length := by
  have htail := h.tail_eq
  have hhead := h.head
  have hroom := h.room
  simp only [loCount,loopbackQueueCap]
  omega

/-- In every state: datagrams to our own addresses are accepted while there is room, and a drain of the loopback
queue calls for each of those that were accepted, in order and once, the callback of its port with what was sent,
behind what was queued before. And from every frame what is handed up is proper, unless it is a fragment
that passes every other test. -/
theorem datagrams_survive {present : Bool} {mac : Mac} {es : List Event}
    (hrun : Runs (step resolve tx) (fun _ _ => True) (boot present mac) es s) :
    (∀ ds above, (∀ d ∈ ds, s.netIsLocalIp d.dst = true ∧ d.payload.length ≤ 1472) →
      (sendAll resolve tx ds s).1 = (if s.present then ds.take (63 - s.loCount) else []) ∧
      ∃ before after log t, loopbackDrain resolve tx above (sendAll resolve tx ds s).2 = some (log,t) ∧
        log.map (filterMap Handed.call) = before ++ ((sendAll resolve tx ds s).1.map s.callsFor ++ after) ∧
        before.length = s.loCount ∧ ((∀ l, above l = []) → after = [])) ∧
    ∀ frame, ∃ handed t, s.rxDispatch frame = some (handed,t) ∧
      (Proper frame handed ↔ ¬ ∃ h, Passes s frame h ∧ Fragment h) := by
  refine ⟨fun ds above hds => ?_,rxDispatch_spec s⟩
  obtain ⟨xs,hqueued⟩ := queued_of_runs hrun
  have hsent : ∃ fs, (sendAll resolve tx ds s).1 = (if s.present then ds.take (63 - s.loCount) else []) ∧
      Queued (sendAll resolve tx ds s).2 (xs ++ fs) ∧ Same s (sendAll resolve tx ds s).2 ∧
      List.Forall₂ (Delivers s) (sendAll resolve tx ds s).1 fs := by
    rw [hqueued.count]
    cases hpresent : s.present with
    | false =>
      rw [sendAll_absent hpresent]
      exact ⟨[],rfl,(append_nil xs).symm ▸ hqueued,.refl s,.nil⟩
    | true => exact sendAll_spec hqueued hpresent hds
  obtain ⟨fs,hacc,hqueued',hsame,hall⟩ := hsent
  refine ⟨hacc,?_⟩
  have hcap : (xs ++ fs).length ≤ loopbackDrainCap := hqueued'.room.le.trans (by decide)
  obtain ⟨hs,rest,t,ht,hdone,hquiet⟩ := drainLoop_front resolve tx above hcap [] ((append_nil (xs ++ fs)).symm ▸ hqueued')
  have hfirst := forall₂_take xs.length hdone
  have hmine := forall₂_drop xs.length hdone
  rw [take_left] at hfirst
  rw [drop_left] at hmine
  have hcalls := calls_of_delivers hall (hmine.imp fun _ _ ⟨r,u,hr,hrx⟩ => ⟨r,u,hsame.trans hr,hrx⟩)
  refine ⟨(hs.take xs.length).map (filterMap Handed.call),rest.map (filterMap Handed.call),hs ++ rest,t,ht,?_,?_,?_⟩
  · rw [← hcalls,← append_assoc,← map_append,← map_append,take_append_drop]
  · rw [length_map,← hfirst.length_eq,hqueued.count]
  · intro hnone
    rw [hquiet hnone rfl]
    rfl

theorem datagrams_survive_two : ∃ es s, Runs (step (fun _ _ => none) fun _ => 0) (fun _ _ => True) (boot true fun _ => 2) es s ∧
    ∃ log t, loopbackDrain (fun _ _ => none) (fun _ => 0) (fun _ => [])
      (sendAll (fun _ _ => none) (fun _ => 0)
        [⟨none,![10,0,2,15],1024,7,[1,2,3]⟩,⟨some ![127,0,0,1],![127,0,0,2],1025,7,[]⟩] s).2 = some (log,t) ∧
      log.map (filterMap Handed.call) = [[⟨5,![10,0,2,15],1024,[1,2,3]⟩],[⟨5,![127,0,0,1],1025,[]⟩]] := by
  let es : List Event := [.config ![10,0,2,15] ![10,0,2,2] ![255,255,255,0],.bind 7 (some 5)]
  let ds : List Datagram := [⟨none,![10,0,2,15],1024,7,[1,2,3]⟩,⟨some ![127,0,0,1],![127,0,0,2],1025,7,[]⟩]
  have hrun : (execute (step (fun _ _ => none) fun _ => 0) (boot true fun _ => 2) es).any (fun s => s.loCount = 0 &&
      s.present && ds.all (fun d => s.netIsLocalIp d.dst) &&
      decide (ds.map s.callsFor = [[⟨5,![10,0,2,15],1024,[1,2,3]⟩],[⟨5,![127,0,0,1],1025,[]⟩]])) = true := by decide
  obtain ⟨s,hs,hfacts⟩ := (Option.any_eq_true _ _).mp hrun
  simp only [Bool.and_eq_true,decide_eq_true_eq,List.all_eq_true] at hfacts
  obtain ⟨⟨⟨hcount,hpresent⟩,hlocal⟩,hcalls⟩ := hfacts
  have hruns := Runs.of_execute hs
  have hlen : ∀ d ∈ ds, d.payload.length ≤ 1472 := by decide
  obtain ⟨hall,-⟩ := datagrams_survive hruns
  obtain ⟨hacc,before,after,log,t,ht,hlog,hbefore,hafter⟩ := hall ds (fun _ => []) fun d hd => ⟨hlocal d hd,hlen d hd⟩
  refine ⟨es,s,hruns,log,t,ht,?_⟩
  rw [hcount] at hbefore
  rw [hlog,hacc,hcount,if_pos hpresent,List.length_eq_zero_iff.mp hbefore,hafter fun _ => rfl,append_nil,nil_append]
  exact hcalls

/-- A UDP packet of ten bytes in a frame whose header says that more fragments follow. -/
def firstFragment : List UInt8 :=
  [0,0,0,0,0,0,0,0,0,0,0,0,8,0,69,0,0,30,0,1,32,0,64,17,66,190,10,0,2,2,10,0,2,15,0,53,0,7,0,10,0,0,104,105]

/-- The first fragment of a datagram is handed to the callback of its port as if it were all of it. -/
theorem fragment_handed_up : ∃ es s, Runs (step (fun _ _ => none) fun _ => 0) (fun _ _ => True) (boot true fun _ => 2) es s ∧
    ∃ handed t, s.rxDispatch firstFragment = some (handed,t) ∧ handed.filterMap Handed.call = [⟨5,![10,0,2,2],53,[104,105]⟩] ∧
      ¬ Proper firstFragment handed := by
  let es : List Event := [.config ![10,0,2,15] ![10,0,2,2] ![255,255,255,0],.bind 7 (some 5)]
  have hrun : (execute (step (fun _ _ => none) fun _ => 0) (boot true fun _ => 2) es).any (fun s => (s.rxDispatch firstFragment).any
      fun x => decide (x.1.filterMap Handed.call = [⟨5,![10,0,2,2],53,[104,105]⟩])) = true := by decide +kernel
  obtain ⟨s,hs,hrx⟩ := (Option.any_eq_true _ _).mp hrun
  obtain ⟨⟨handed,t⟩,ht,hcall⟩ := (Option.any_eq_true _ _).mp hrx
  refine ⟨es,s,Runs.of_execute hs,handed,t,ht,of_decide_eq_true hcall,fun hproper => ?_⟩
  have hne : handed ≠ [] := by
    rintro rfl
    exact absurd (of_decide_eq_true hcall) nofun
  obtain ⟨h,hh,hwhole⟩ := hproper.whole hne
  have hfrag : (Ipv4Hdr.ofBytes (firstFragment.drop ethHdrLen)).all (fun h => decide (Fragment h)) = true := by decide
  rw [hh] at hfrag
  exact hwhole (of_decide_eq_true hfrag)

end Stack
end VibeOS.Net

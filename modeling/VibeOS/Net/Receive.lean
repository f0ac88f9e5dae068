import VibeOS.Net.Stack

/-! What the receive path lets through, for any frame whatever. -/
namespace VibeOS.Net
open VibeOS.Storage VibeOS.Tcp List Option

variable {s t : Stack} {frame p q : List UInt8} {handed : List Handed} {h : Ipv4Hdr} {u : UdpHdr}

lemma mem16_field16 (lo hi : UInt8) : mem16 (field16 lo hi) = [lo,hi] := by
  have hlo := lo.toNat_lt
  have hhi := hi.toNat_lt
  have hv : (field16 lo hi).toNat = lo.toNat + 256*hi.toNat :=
    UInt16.toNat_ofNat_of_lt' (by simp only [UInt16.size]; omega)
  have h0 : UInt8.ofNat (field16 lo hi).toNat = lo := by
    rw [← UInt8.toNat_inj,UInt8.toNat_ofNat',hv]
    omega
  have h1 : UInt8.ofNat ((field16 lo hi).toNat/256) = hi := by
    rw [← UInt8.toNat_inj,UInt8.toNat_ofNat',hv]
    omega
  rw [mem16,h0,h1]

lemma field16_mem16 (v : UInt16) : field16 (UInt8.ofNat v.toNat) (UInt8.ofNat (v.toNat/256)) = v := put16_le16 v

lemma netBe16ToCpu_twice (v : UInt16) : netBe16ToCpu (netBe16ToCpu v) = v := by
  have hv := v.toNat_lt
  have hin : (netBe16ToCpu v).toNat = v.toNat/256 + 256*(v.toNat%256) :=
    UInt16.toNat_ofNat_of_lt' (by simp only [UInt16.size]; omega)
  rw [← UInt16.toNat_inj,netBe16ToCpu,UInt16.toNat_ofNat_of_lt' (by simp only [UInt16.size]; omega),hin]
  omega

lemma ofFn_four (ip : Ip) : List.ofFn ip = [ip 0,ip 1,ip 2,ip 3] := by simp [ofFn_succ]

lemma four_eta (ip : Ip) : ![ip 0,ip 1,ip 2,ip 3] = ip := by
  funext i
  match i with
  | 0 | 1 | 2 | 3 => rfl

lemma Ipv4Hdr.length_bytes (h : Ipv4Hdr) : h.bytes.length = ipv4HdrLen := by
  simp [Ipv4Hdr.bytes,mem16,ipv4HdrLen]

lemma Ipv4Hdr.ofBytes_bytes (h : Ipv4Hdr) (p : List UInt8) : Ipv4Hdr.ofBytes (h.bytes ++ p) = some h := by
  simp only [Ipv4Hdr.bytes,mem16,ofFn_four,cons_append,nil_append,Ipv4Hdr.ofBytes,field16_mem16,four_eta]

lemma exists_front {n : ℕ} (hp : n ≤ p.length) : ∃ l r, p = l ++ r ∧ l.length = n :=
  ⟨p.take n,p.drop n,(take_append_drop n p).symm,length_take_of_le hp⟩

lemma Ipv4Hdr.ofBytes_of_length (hp : ipv4HdrLen ≤ p.length) :
    ∃ h, Ipv4Hdr.ofBytes p = some h ∧ h.bytes = p.take ipv4HdrLen := by
  obtain ⟨l,r,rfl,hl⟩ := exists_front hp
  match l, hl with
  | [v,t,l0,l1,i0,i1,f0,f1,ttl,pr,c0,c1,s0,s1,s2,s3,d0,d1,d2,d3], _ =>
    exact ⟨_,rfl,by simp [Ipv4Hdr.bytes,mem16_field16,ipv4HdrLen]⟩

lemma UdpHdr.length_bytes (u : UdpHdr) : u.bytes.length = udpHdrLen := rfl

lemma UdpHdr.ofBytes_bytes (u : UdpHdr) (p : List UInt8) : UdpHdr.ofBytes (u.bytes ++ p) = some u := by
  simp only [UdpHdr.bytes,mem16,cons_append,nil_append,UdpHdr.ofBytes,field16_mem16]

lemma UdpHdr.ofBytes_of_length (hp : udpHdrLen ≤ p.length) :
    ∃ u, UdpHdr.ofBytes p = some u ∧ u.bytes = p.take udpHdrLen := by
  obtain ⟨l,r,rfl,hl⟩ := exists_front hp
  match l, hl with
  | [s0,s1,d0,d1,l0,l1,c0,c1], _ => exact ⟨_,rfl,by simp [UdpHdr.bytes,mem16_field16,udpHdrLen]⟩

lemma ArpPkt.ofBytes_of_length (hp : arpPktLen ≤ p.length) : ∃ a, ArpPkt.ofBytes p = some a := by
  obtain ⟨l,r,rfl,hl⟩ := exists_front hp
  match l, hl with
  | [h0,h1,p0,p1,hl,pl,o0,o1,m0,m1,m2,m3,m4,m5,s0,s1,s2,s3,n0,n1,n2,n3,n4,n5,t0,t1,t2,t3], _ => exact ⟨_,rfl⟩

lemma readBytes_of_le {off n : ℕ} (h : off + n ≤ p.length) : readBytes p off n = some ((p.drop off).take n) := if_pos h

/-- What the checksum of a UDP packet covers in front of it. -/
def pseudoHeader (src dst : Ip) (packet : List UInt8) : List UInt8 :=
  List.ofFn src ++ List.ofFn dst ++ [0,ipv4ProtoUdp,UInt8.ofNat (packet.length/256),UInt8.ofNat packet.length]

lemma udpComputeChecksum_of_le {src dst : Ip} (h : p.length ≤ 1500) :
    Stack.udpComputeChecksum src dst p = checksum (pseudoHeader src dst p ++ p) :=
  if_neg (Nat.not_lt.mpr h)

lemma adds_of_udp {src dst : Ip} (hu : UdpHdr.ofBytes p = some u) (hlen : udpHdrLen ≤ p.length) (hle : p.length ≤ 1500)
    (hsum : u.checksum = if Stack.udpComputeChecksum src dst ((p.set 6 0).set 7 0) = 0 then 0xFFFF
      else Stack.udpComputeChecksum src dst ((p.set 6 0).set 7 0)) : Adds (pseudoHeader src dst p ++ p) := by
  obtain ⟨l,r,rfl,hl⟩ := exists_front hlen
  match l, hl with
  | [s0,s1,d0,d1,l0,l1,c0,c1], _ =>
    cases hu
    let before := pseudoHeader src dst ([s0,s1,d0,d1,l0,l1,c0,c1] ++ r) ++ [s0,s1,d0,d1,l0,l1]
    have heven : before.length % 2 = 0 := by simp [before,pseudoHeader]
    have hzero : Stack.udpComputeChecksum src dst ((([s0,s1,d0,d1,l0,l1,c0,c1] ++ r).set 6 0).set 7 0) =
        checksum (before ++ 0 :: 0 :: r) := by
      rw [udpComputeChecksum_of_le (by simpa using hle)]
      simp [before,pseudoHeader]
    have hall : pseudoHeader src dst ([s0,s1,d0,d1,l0,l1,c0,c1] ++ r) ++ ([s0,s1,d0,d1,l0,l1,c0,c1] ++ r) =
        before ++ c0 :: c1 :: r := by
      simp [before]
    rw [hzero] at hsum
    rw [hall]
    split at hsum
    · next h0 => exact adds_of_ones heven h0 hsum
    · exact adds_of_checksum heven hsum.symm

/-- The bytes begin with a UDP packet that has no checksum or adds up together with the pseudo-header. -/
def UdpSound (ip : Ipv4Hdr) (p : List UInt8) : Prop :=
  ∃ u, UdpHdr.ofBytes p = some u ∧ (netBe16ToCpu u.length).toNat ≤ p.length ∧ (u.checksum ≠ 0 →
    Adds (pseudoHeader ip.src ip.dst (p.take (netBe16ToCpu u.length).toNat) ++ p.take (netBe16ToCpu u.length).toNat))

lemma UdpHdr.ofBytes_append (hu : UdpHdr.ofBytes p = some u) (q : List UInt8) : UdpHdr.ofBytes (p ++ q) = some u := by
  unfold UdpHdr.ofBytes at hu
  split at hu
  · cases hu
    rfl
  · cases hu

lemma UdpSound.append {ip : Ipv4Hdr} (hp : UdpSound ip p) (q : List UInt8) : UdpSound ip (p ++ q) := by
  obtain ⟨u,hu,hle,hadds⟩ := hp
  refine ⟨u,UdpHdr.ofBytes_append hu q,by rw [length_append]; omega,?_⟩
  rwa [take_append_of_le_length hle]

lemma udpVerify_spec (ip : Ipv4Hdr) {n : ℕ} (hu : UdpHdr.ofBytes p = some u) (hmin : udpHdrLen ≤ n) (hn : n ≤ p.length) :
    ∃ ok, Stack.udpVerify ip u p n = some ok ∧
      (ok = true → u.checksum ≠ 0 → Adds (pseudoHeader ip.src ip.dst (p.take n) ++ p.take n)) := by
  have htake : (p.take n).length = n := length_take_of_le hn
  obtain ⟨v,hv,-⟩ := UdpHdr.ofBytes_of_length (htake.symm ▸ hmin)
  have huv := UdpHdr.ofBytes_append hv (p.drop n)
  rw [take_append_drop,hu,some.injEq] at huv
  subst huv
  unfold Stack.udpVerify
  split
  · next h0 => exact ⟨true,rfl,fun _ hne => absurd h0 hne⟩
  · split
    · exact ⟨false,rfl,nofun⟩
    · next hle =>
      rw [readBytes_of_le (by omega)]
      refine ⟨_,rfl,fun hok _ => ?_⟩
      rw [drop_zero] at hok
      exact adds_of_udp hv (by omega) (by omega) (eq_of_beq hok)

lemma udpHandle_spec (s : Stack) (ip : Ipv4Hdr) (p : List UInt8) :
    ∃ handed, s.udpHandle ip p = some handed ∧ ∀ x ∈ handed, (∃ call, x = .callback call) ∧ UdpSound ip p := by
  have nothing : ∃ handed, some ([] : List Handed) = some handed ∧ ∀ x ∈ handed, (∃ call, x = .callback call) ∧ UdpSound ip p :=
    ⟨[],rfl,fun x hx => nomatch hx⟩
  unfold Stack.udpHandle
  split
  · exact nothing
  · next hlen =>
    obtain ⟨u,hu,-⟩ := UdpHdr.ofBytes_of_length (Nat.not_lt.mp hlen)
    simp only [hu,bind_eq_bind,bind_some,Option.pure_def]
    split
    · exact nothing
    · next hin =>
      have hin' : udpHdrLen ≤ (netBe16ToCpu u.length).toNat ∧ (netBe16ToCpu u.length).toNat ≤ p.length := by omega
      obtain ⟨ok,hok,hadds⟩ := udpVerify_spec ip hu hin'.1 hin'.2
      simp only [hok,bind_some]
      cases ok with
      | false => exact nothing
      | true =>
        rw [if_neg (by decide)]
        split
        · exact nothing
        · rw [readBytes_of_le (by omega)]
          refine ⟨_,rfl,fun x hx => ?_⟩
          rw [mem_singleton] at hx
          exact ⟨⟨_,hx⟩,u,hu,hin'.2,hadds rfl⟩

/-- The flag for more fragments is set or the offset is not zero. -/
def Fragment (h : Ipv4Hdr) : Prop := netBe16ToCpu h.frag &&& 0x3FFF ≠ 0

instance : DecidablePred Fragment := fun h => inferInstanceAs (Decidable (netBe16ToCpu h.frag &&& 0x3FFF ≠ 0))

/-- What is handed up from a frame is from a whole datagram, and its checksums are right. -/
structure Proper (frame : List UInt8) (handed : List Handed) : Prop where
  header : handed ≠ [] → Adds ((frame.drop ethHdrLen).take ipv4HdrLen)
  whole : handed ≠ [] → ∃ h, Ipv4Hdr.ofBytes (frame.drop ethHdrLen) = some h ∧ ¬ Fragment h
  udp : ∀ call, .callback call ∈ handed → ∃ h, Ipv4Hdr.ofBytes (frame.drop ethHdrLen) = some h ∧
    UdpSound h (frame.drop (ethHdrLen + ipv4HdrLen))

/-- The frame passes the tests that the receive path makes before it hands up a payload. -/
structure Passes (s : Stack) (frame : List UInt8) (h : Ipv4Hdr) : Prop where
  ethertype : ∃ hi lo, frame[12]? = some hi ∧ frame[13]? = some lo ∧ UInt16.ofNat (256*hi.toNat + lo.toNat) = etherTypeIpv4
  header : Ipv4Hdr.ofBytes (frame.drop ethHdrLen) = some h
  version : h.vihl >>> 4 = 4
  ihl : h.vihl &&& 0x0F = 5
  fits : (netBe16ToCpu h.totalLen).toNat ≤ frame.length - ethHdrLen
  long : ipv4HdrLen ≤ (netBe16ToCpu h.totalLen).toNat
  checksum : Tcp.checksum { h with checksum := 0 }.bytes = h.checksum
  forUs : h.dst = s.ip ∨ h.dst = gBcastIp ∨ s.netIsLocalIp h.dst
  proto : h.proto = ipv4ProtoIcmp ∨ h.proto = ipv4ProtoUdp ∨ h.proto = ipv4ProtoTcp

lemma adds_of_header (hsum : checksum { h with checksum := 0 }.bytes = h.checksum) : Adds h.bytes := by
  let before := [h.vihl,h.tos] ++ mem16 h.totalLen ++ mem16 h.id ++ mem16 h.frag ++ [h.ttl,h.proto]
  let after := List.ofFn h.src ++ List.ofFn h.dst
  have hzero : { h with checksum := 0 }.bytes = before ++ 0 :: 0 :: after := by
    simp [Ipv4Hdr.bytes,before,after,mem16]
  have hall : h.bytes = before ++ UInt8.ofNat h.checksum.toNat :: UInt8.ofNat (h.checksum.toNat/256) :: after := by
    simp [Ipv4Hdr.bytes,before,after,mem16]
  rw [hzero] at hsum
  rw [hall]
  exact adds_of_checksum (by simp [before,mem16]) (hsum.trans (field16_mem16 h.checksum).symm)

lemma Passes.adds (hp : Passes s frame h) : Adds ((frame.drop ethHdrLen).take ipv4HdrLen) := by
  have hlen : ipv4HdrLen ≤ (frame.drop ethHdrLen).length := by
    rw [length_drop]
    exact hp.long.trans hp.fits
  obtain ⟨g,hg,hbytes⟩ := Ipv4Hdr.ofBytes_of_length hlen
  rw [hp.header,some.injEq] at hg
  subst hg
  exact hbytes ▸ adds_of_header hp.checksum

lemma rxHandleIpv4_spec (s : Stack) {hi lo : UInt8} (hhi : frame[12]? = some hi) (hlo : frame[13]? = some lo)
    (het : UInt16.ofNat (256*hi.toNat + lo.toNat) = etherTypeIpv4) :
    ∃ handed, s.rxHandleIpv4 frame = some handed ∧ ((handed = [] ∧ ∀ h, ¬ Passes s frame h) ∨
      (handed ≠ [] ∧ ∃ h, Passes s frame h ∧ ∀ call, .callback call ∈ handed → UdpSound h (frame.drop (ethHdrLen + ipv4HdrLen)))) := by
  have nothing (hno : ∀ h, ¬ Passes s frame h) : ∃ handed, some ([] : List Handed) = some handed ∧
      ((handed = [] ∧ ∀ h, ¬ Passes s frame h) ∨ (handed ≠ [] ∧ ∃ h, Passes s frame h ∧
        ∀ call, .callback call ∈ handed → UdpSound h (frame.drop (ethHdrLen + ipv4HdrLen)))) := ⟨[],rfl,.inl ⟨rfl,hno⟩⟩
  have hethLen : ethHdrLen = 14 := rfl
  have hipLen : ipv4HdrLen = 20 := rfl
  unfold Stack.rxHandleIpv4
  split
  · next hshort =>
    refine nothing fun h hp => ?_
    have hlong := hp.long
    have hfits := hp.fits
    omega
  · next hlen =>
    have hdrop : (frame.drop ethHdrLen).length = frame.length - ethHdrLen := length_drop
    obtain ⟨h,hh,-⟩ := Ipv4Hdr.ofBytes_of_length (show ipv4HdrLen ≤ (frame.drop ethHdrLen).length by omega)
    have huniq (h' : Ipv4Hdr) (hp : Passes s frame h') : h' = h := some.inj (hp.header.symm.trans hh)
    rw [hh,bind_eq_bind,bind_some]
    dsimp only
    split
    · next hver => exact nothing fun h' hp => hver (huniq h' hp ▸ hp.version)
    split
    · next hihl => exact nothing fun h' hp => hihl (huniq h' hp ▸ hp.ihl)
    split
    · next hfits => exact nothing fun h' hp => absurd (huniq h' hp ▸ hp.fits) (by omega)
    split
    · next hlong => exact nothing fun h' hp => absurd (huniq h' hp ▸ hp.long) (by omega)
    split
    · next hsum => exact nothing fun h' hp => hsum (huniq h' hp ▸ hp.checksum)
    split
    · next hfor => exact nothing fun h' hp => hfor (huniq h' hp ▸ hp.forUs)
    next hver hihl hfits hlong hsum hfor =>
    rw [readBytes_of_le (by omega),bind_eq_bind,bind_some]
    have hpasses (hproto : h.proto = ipv4ProtoIcmp ∨ h.proto = ipv4ProtoUdp ∨ h.proto = ipv4ProtoTcp) : Passes s frame h :=
      ⟨⟨hi,lo,hhi,hlo,het⟩,hh,of_not_not hver,of_not_not hihl,Nat.not_lt.mp hfits,Nat.not_lt.mp hlong,of_not_not hsum,
        of_not_not hfor,hproto⟩
    split
    · next hicmp => exact ⟨_,rfl,.inr ⟨cons_ne_nil _ _,h,hpasses (.inl hicmp),by simp⟩⟩
    split
    · next hudp =>
      obtain ⟨up,hup,hsound⟩ := udpHandle_spec s h ((frame.drop (ethHdrLen + ipv4HdrLen)).take ((netBe16ToCpu h.totalLen).toNat - ipv4HdrLen))
      rw [hup]
      refine ⟨_,rfl,.inr ⟨cons_ne_nil _ _,h,hpasses (.inr (.inl hudp)),fun call hcall => ?_⟩⟩
      have hmem : Handed.callback call ∈ up := by simpa using hcall
      have := (hsound _ hmem).2.append ((frame.drop (ethHdrLen + ipv4HdrLen)).drop ((netBe16ToCpu h.totalLen).toNat - ipv4HdrLen))
      rwa [take_append_drop] at this
    split
    · next htcp => exact ⟨_,rfl,.inr ⟨cons_ne_nil _ _,h,hpasses (.inr (.inr htcp)),by simp⟩⟩
    · next hicmp hudp htcp =>
      refine nothing fun h' hp => ?_
      have hproto := huniq h' hp ▸ hp.proto
      exact hproto.elim hicmp fun hrest => hrest.elim hudp htcp

lemma rxHandleArp_isSome (s : Stack) (frame : List UInt8) : ∃ t, s.rxHandleArp frame = some t ∧ t.ip = s.ip ∧
    t.bind = s.bind ∧ t.present = s.present ∧ t.loBuf = s.loBuf ∧ t.loHead = s.loHead ∧ t.loTail = s.loTail := by
  unfold Stack.rxHandleArp
  split
  · exact ⟨s,rfl,rfl,rfl,rfl,rfl,rfl,rfl⟩
  · next hlen =>
    have hdrop : (frame.drop ethHdrLen).length = frame.length - ethHdrLen := length_drop
    obtain ⟨a,ha⟩ := ArpPkt.ofBytes_of_length (show arpPktLen ≤ (frame.drop ethHdrLen).length by omega)
    simp only [ha,bind_eq_bind,bind_some,Option.pure_def]
    split_ifs <;> exact ⟨_,rfl,rfl,rfl,rfl,rfl,rfl,rfl⟩

lemma rxDispatch_unchanged (hrx : s.rxDispatch frame = some (handed,t)) : t.ip = s.ip ∧ t.bind = s.bind ∧
    t.present = s.present ∧ t.loBuf = s.loBuf ∧ t.loHead = s.loHead ∧ t.loTail = s.loTail := by
  unfold Stack.rxDispatch at hrx
  split at hrx
  · cases hrx
    exact ⟨rfl,rfl,rfl,rfl,rfl,rfl⟩
  · obtain ⟨hi,-,hrx⟩ := Option.bind_eq_some_iff.mp hrx
    obtain ⟨lo,-,hrx⟩ := Option.bind_eq_some_iff.mp hrx
    dsimp only at hrx
    split at hrx
    · obtain ⟨r,hr,hrx⟩ := Option.bind_eq_some_iff.mp hrx
      obtain ⟨t',ht',hsame⟩ := rxHandleArp_isSome s frame
      rw [ht',some.injEq] at hr
      cases hrx
      exact hr ▸ hsame
    split at hrx
    · obtain ⟨up,-,hrx⟩ := Option.bind_eq_some_iff.mp hrx
      cases hrx
      exact ⟨rfl,rfl,rfl,rfl,rfl,rfl⟩
    · cases hrx
      exact ⟨rfl,rfl,rfl,rfl,rfl,rfl⟩

/-- The receive path reads inside the frame only; what it hands up is proper unless it comes from a fragment. -/
lemma rxDispatch_spec (s : Stack) (frame : List UInt8) : ∃ handed t, s.rxDispatch frame = some (handed,t) ∧
    (Proper frame handed ↔ ¬ ∃ h, Passes s frame h ∧ Fragment h) := by
  have nothing (hno : ∀ h, ¬ Passes s frame h) : Proper frame [] ↔ ¬ ∃ h, Passes s frame h ∧ Fragment h :=
    ⟨fun _ ⟨h,hp,_⟩ => hno h hp,fun _ => ⟨fun hne => absurd rfl hne,fun hne => absurd rfl hne,fun _ hmem => nomatch hmem⟩⟩
  have hethLen : ethHdrLen = 14 := rfl
  unfold Stack.rxDispatch
  split
  · next hshort =>
    refine ⟨[],s,rfl,nothing fun h hp => ?_⟩
    obtain ⟨hi,lo,hhi,hlo,-⟩ := hp.ethertype
    have := (List.getElem?_eq_some_iff.mp hlo).1
    omega
  · next hlen =>
    obtain ⟨hi,hhi⟩ : ∃ hi, frame[12]? = some hi := ⟨_,getElem?_eq_getElem (by omega)⟩
    obtain ⟨lo,hlo⟩ : ∃ lo, frame[13]? = some lo := ⟨_,getElem?_eq_getElem (by omega)⟩
    have hother (hne : UInt16.ofNat (256*hi.toNat + lo.toNat) ≠ etherTypeIpv4) (h : Ipv4Hdr) : ¬ Passes s frame h := by
      rintro ⟨⟨hi',lo',hhi',hlo',het⟩,-⟩
      rw [hhi,some.injEq] at hhi'
      rw [hlo,some.injEq] at hlo'
      subst hhi' hlo'
      exact hne het
    simp only [hhi,hlo,bind_eq_bind,bind_some,Option.pure_def]
    split
    · next harp =>
      obtain ⟨t,ht,-⟩ := rxHandleArp_isSome s frame
      rw [ht]
      exact ⟨[],t,rfl,nothing (hother (by rw [harp]; decide))⟩
    split
    · next het =>
      obtain ⟨handed,hhanded,hcase⟩ := rxHandleIpv4_spec s hhi hlo het
      rw [hhanded]
      refine ⟨handed,s,rfl,?_⟩
      rcases hcase with ⟨rfl,hno⟩ | ⟨hne,h,hp,hudp⟩
      · exact nothing hno
      · constructor
        · rintro hproper ⟨h',hp',hfrag⟩
          obtain ⟨h'',hh'',hwhole⟩ := hproper.whole hne
          rw [hp'.header,some.injEq] at hh''
          exact hwhole (hh'' ▸ hfrag)
        · intro hno
          exact ⟨fun _ => hp.adds,fun _ => ⟨h,hp.header,fun hfrag => hno ⟨h,hp,hfrag⟩⟩,fun call hcall => ⟨h,hp.header,hudp call hcall⟩⟩
    · next hne => exact ⟨[],s,rfl,nothing (hother hne)⟩

end VibeOS.Net

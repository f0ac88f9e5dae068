import VibeOS.Tcp.Backlog

/-! The received stream once the FIN of the peer was accepted. -/
namespace VibeOS.Tcp
open VibeOS.Storage

variable {m m' : Machine} {i j k l : Cid} {c c' d : Conn} {e : Event} {s : Segment} {a : Answer}
  {poll : UInt64} {n n' : Net}

@[simp] lemma slice_length {b : ℕ} (buf : Bytes b) (off len : ℕ) : (slice buf off len).length = len := by
  simp [slice]

lemma slice_getElem {b : ℕ} (buf : Bytes b) (off len : ℕ) {p : ℕ} (h : p < (slice buf off len).length) :
    (slice buf off len)[p] = buf.get (off+p) := by
  simp [slice]

lemma splice_empty {b : ℕ} (buf : Bytes b) (off : ℕ) (f : ℕ → UInt8) : buf.splice off 0 f = buf := by
  refine Bytes.ext_get fun p hp => ?_
  rw [Bytes.get_splice _ _ _ _ hp,if_neg (by omega)]

lemma slice_moved {b : ℕ} (buf : Bytes b) (take left : ℕ) (h : left ≤ b) :
    slice (buf.splice 0 left fun p => buf.get (take+p)) 0 left = (slice buf 0 (take+left)).drop take := by
  refine List.ext_getElem (by simp) fun p hp hp' => ?_
  rw [slice_length] at hp
  rw [slice_getElem,List.getElem_drop,slice_getElem,Bytes.get_splice _ _ _ _ (by omega),if_pos (by omega)]
  congr 1
  omega

/-- The bytes that `tcp_recv` has still to give out. -/
def Conn.rxData (c : Conn) : List UInt8 := slice c.rxBuf 0 c.rxLen.toNat

structure SameStream (c c' : Conn) : Prop where
  rcvNxt : c'.rcvNxt = c.rcvNxt
  peerFin : c'.peerFin = c.peerFin
  rxLen : c'.rxLen = c.rxLen
  rxBuf : c'.rxBuf = c.rxBuf

lemma SameStream.refl (c : Conn) : SameStream c c := ⟨rfl,rfl,rfl,rfl⟩

lemma SameStream.trans (h : SameStream c c') (h' : SameStream c' d) : SameStream c d :=
  ⟨h'.rcvNxt.trans h.rcvNxt,h'.peerFin.trans h.peerFin,h'.rxLen.trans h.rxLen,h'.rxBuf.trans h.rxBuf⟩

lemma Transmits.sameStream (h : Transmits c c') : SameStream c c' := by
  obtain ⟨_,_,_,rfl⟩ := h
  exact ⟨rfl,rfl,rfl,rfl⟩

lemma Acknowledges.sameStream (h : Acknowledges c c') : SameStream c c' := by
  obtain ⟨_,_,_,_,_,rfl⟩ := h
  exact ⟨rfl,rfl,rfl,rfl⟩

lemma ackTransitions_sameStream (c : Conn) : SameStream c (ackTransitions c) := by
  obtain ⟨st,heq,-⟩ := ackTransitions_eq c
  rw [heq]
  exact ⟨rfl,rfl,rfl,rfl⟩

/-- The segment carries something the connection would take: payload that is next in order
where there is room, or a FIN that is next. -/
def Extends (c : Conn) (s : Segment) : Prop :=
  s.dataLen ≠ 0 ∧ s.seq = c.rcvNxt ∧ c.rxLen ≠ UInt32.ofNat bufSize ∨
    s.has flagFin = true ∧ s.seq + s.dataLen = c.rcvNxt

lemma handleSynced_sameStream (h : handleSynced poll c s n = some (c',n')) (hno : ¬ Extends c s) :
    SameStream c c' := by
  obtain ⟨d,hack,hsend⟩ := handleSynced_cases h
  have hd := hack.sameStream
  obtain ⟨hdata,hfin⟩ := not_or.mp hno
  rw [← hd.rcvNxt] at hdata hfin
  rw [← hd.rxLen] at hdata
  have h₁ : SameStream d (acceptData d s) := by
    unfold acceptData
    split
    next hnext =>
      have hfull : d.rxLen = UInt32.ofNat bufSize := by
        by_contra hroom
        exact hdata ⟨hnext.1,hnext.2,hroom⟩
      have htake : (if s.dataLen < UInt32.ofNat bufSize - d.rxLen then s.dataLen
          else UInt32.ofNat bufSize - d.rxLen) = 0 := by
        rw [hfull,UInt32.sub_self,if_neg UInt32.not_lt_zero]
      dsimp only
      rw [htake]
      exact ⟨UInt32.add_zero _,rfl,UInt32.add_zero _,splice_empty _ _ _⟩
    next => exact .refl d
  have h₂ : acceptFin (acceptData d s) s = acceptData d s := by
    unfold acceptFin
    rw [h₁.rcvNxt,if_neg hfin]
  rw [h₂] at hsend
  exact ((hd.trans h₁).trans (ackTransitions_sameStream _)).trans hsend.sameStream

/-- A FIN is accepted after the handshake only, and what was received fits the buffer. -/
structure Receives (c : Conn) : Prop where
  fits : c.rxLen.toNat ≤ bufSize
  fin : c.peerFin = true → c.valid = true ∧ c.state ≠ .synSent ∧ c.state ≠ .synReceived

lemma Receives.of_stays (hs : Stays c c') (hfits : c'.rxLen.toNat ≤ bufSize)
    (hfin : c'.peerFin = true → c.valid = true ∧ c.state ≠ .synSent ∧ c.state ≠ .synReceived) : Receives c' where
  fits := hfits
  fin hf := by
    obtain ⟨hv,hsent,hrecv⟩ := hfin hf
    exact ⟨hs.valid.trans hv,fun h₀ => hsent (hs.synSent h₀),fun h₀ => hrecv (hs.synReceived.mp h₀)⟩

lemma Receives.transmits (h : Receives c) (hs : Transmits c c') : Receives c' := by
  obtain ⟨_,_,_,rfl⟩ := hs
  exact ⟨h.fits,h.fin⟩

lemma acceptData_fits (h : c.rxLen.toNat ≤ bufSize) (s : Segment) : (acceptData c s).rxLen.toNat ≤ bufSize := by
  have hsize : (UInt32.ofNat bufSize).toNat = bufSize := rfl
  have hle := (shorter_le s.dataLen (UInt32.ofNat bufSize - c.rxLen)).2
  unfold acceptData
  split
  next =>
    dsimp only
    generalize (if s.dataLen < UInt32.ofNat bufSize - c.rxLen then s.dataLen
      else UInt32.ofNat bufSize - c.rxLen) = take at hle ⊢
    rw [UInt32.le_iff_toNat_le,UInt32.toNat_sub_of_le _ _ (UInt32.le_iff_toNat_le.mpr (hsize ▸ h)),hsize] at hle
    have hmod := UInt32.toNat_add c.rxLen take
    have hbig : bufSize = 32768 := rfl
    omega
  next => exact h

lemma acceptFin_rxLen (c : Conn) (s : Segment) : (acceptFin c s).rxLen = c.rxLen := by
  unfold acceptFin
  split <;> rfl

lemma SlotMove.receives_ok (hc : Receives (m.conns i)) (h : SlotMove m e i c') : Receives c' := by
  have hzero : Receives Conn.zero := ⟨by decide,fun hf => by cases hf⟩
  cases h with
  | kept => exact hc
  | wiped | releases | flushes | abandoned => exact hzero
  | connects | listens | child => exact ⟨Nat.zero_le _,fun hf => by cases hf⟩
  | pops | leaves | marks | pushed => exact ⟨hc.fits,hc.fin⟩
  | sends now get state put_le fits drain =>
    refine .transmits ?_ (tcpDrainTx_transmits drain)
    exact ⟨hc.fits,hc.fin⟩
  | receives now get le =>
    refine ⟨?_,hc.fin⟩
    rw [UInt32.toNat_sub_of_le _ _ le]
    exact (Nat.sub_le _ _).trans hc.fits
  | closes now get from_ drain =>
    refine .transmits ?_ (tcpDrainTx_transmits drain)
    refine ⟨hc.fits,fun hf => ⟨(hc.fin hf).1,?_⟩⟩
    rcases from_ with ⟨-,rfl⟩ | ⟨-,rfl⟩ <;> simp
  | polls now poll =>
    rcases pollConn_cases poll with hs | ⟨-,rfl⟩
    · exact hc.transmits hs
    · exact hzero
  | resets | answers | promoted => exact ⟨hc.fits,fun hf => ⟨(hc.fin hf).1,by simp,by simp⟩⟩
  | synced arrives rst ack state handle =>
    refine .of_stays (handleSynced_stays handle) ?_ fun _ => ⟨arrives.valid,state⟩
    obtain ⟨d,hack,hsend⟩ := handleSynced_cases handle
    have hd : d.rxLen.toNat ≤ bufSize := by
      rw [hack.sameStream.rxLen]
      exact hc.fits
    rw [hsend.sameStream.rxLen,(ackTransitions_sameStream _).rxLen,acceptFin_rxLen]
    exact acceptData_fits hd _

def AllReceive (m : Machine) : Prop := ∀ i, Receives (m.conns i)

lemma initial_allReceive (n : Net) : AllReceive (Machine.initial n) := fun _ =>
  ⟨Nat.zero_le _,fun hf => by cases hf⟩

lemma AllReceive.step (hm : AllReceive m) (h : step m e = some (a,m')) : AllReceive m' := fun k =>
  (step_slot h k).receives_ok (hm k)

/-- Nothing was added to the stream since. -/
structure Ended (c c' : Conn) : Prop where
  rcvNxt : c'.rcvNxt = c.rcvNxt
  peerFin : c'.peerFin = true
  rxData : c'.rxData <:+ c.rxData

/-- A call of `tcp_close` or `tcp_poll` leaves the connection in its slot, and a segment for it
carries nothing that the connection would still take. -/
structure Final (i : Cid) (m : Machine) (e : Event) : Prop where
  stays : (∃ cid, e = .close cid) ∨ e = .poll → ¬ Frees m e i
  segment : ∀ s, Arrives m e i s → s.has flagRst = false → s.has flagAck = true → ¬ Extends (m.conns i) s

lemma SameStream.ended (h : SameStream c c') (hf : c.peerFin = true) : Ended c c' := by
  refine ⟨h.rcvNxt,h.peerFin.trans hf,?_⟩
  unfold Conn.rxData
  rw [h.rxBuf,h.rxLen]

lemma Ended.trans (h : Ended c c') (h' : Ended c' d) : Ended c d :=
  ⟨h'.rcvNxt.trans h.rcvNxt,h'.peerFin,h'.rxData.trans h.rxData⟩

lemma received_rxData (hc : c.rxLen.toNat ≤ bufSize) {take : UInt32} (hle : take ≤ c.rxLen) :
    Conn.rxData { c with
      rxBuf := c.rxBuf.splice 0 (c.rxLen - take).toNat fun p => c.rxBuf.get (take.toNat + p)
      rxLen := c.rxLen - take } = c.rxData.drop take.toNat := by
  have hleft := UInt32.toNat_sub_of_le _ _ hle
  rw [UInt32.le_iff_toNat_le] at hle
  unfold Conn.rxData
  dsimp only
  rw [slice_moved _ _ _ (by omega),hleft,Nat.add_sub_cancel' hle]

lemma SlotMove.ended (hc : Receives (m.conns i)) (hf : (m.conns i).peerFin = true) (hok : Final i m e)
    (h : SlotMove m e i c') : Ended (m.conns i) c' := by
  obtain ⟨hv,hsent,hrecv⟩ := hc.fin hf
  have hfree (hfree : m.freeSlot = some i) : Ended (m.conns i) c' :=
    absurd (freeSlot_free hfree) (by simp [hv])
  cases h with
  | kept => exact (SameStream.refl _).ended hf
  | wiped free | connects now free | listens now free | child now bytes new listener free => exact hfree free
  | pops | leaves | marks | resets | pushed => exact SameStream.ended ⟨rfl,rfl,rfl,rfl⟩ hf
  | sends now get state put_le fits drain | closes now get from_ drain =>
    have hs := (tcpDrainTx_transmits drain).sameStream
    exact SameStream.ended ⟨hs.rcvNxt,hs.peerFin,hs.rxLen,hs.rxBuf⟩ hf
  | receives now get le =>
    refine ⟨rfl,hf,?_⟩
    rw [received_rxData hc.fits le]
    exact List.drop_suffix _ _
  | releases now get why => exact absurd (.released now get why) (hok.stays (.inl ⟨_,now⟩))
  | flushes now get state queued => exact absurd (.flushed now get state queued) (hok.stays (.inl ⟨_,now⟩))
  | polls now poll =>
    rcases pollConn_cases poll with hs | ⟨⟨-,hclosed⟩,-⟩
    · exact hs.sameStream.ended hf
    · exact absurd (.reaped now hclosed) (hok.stays (.inr now))
  | answers arrives state => exact absurd state hsent
  | promoted promotes | abandoned promotes => exact absurd promotes.state hrecv
  | synced arrives rst ack state handle =>
    exact (handleSynced_sameStream handle (hok.segment _ arrives rst ack)).ended hf

lemma ended_run {es : List Event} (hm : AllReceive m) (hf : (m.conns i).peerFin = true)
    (h : Runs step (Final i) m es m') : Ended (m.conns i) (m'.conns i) ∧ AllReceive m' := by
  refine h.invariant (I := fun w => Ended (m.conns i) (w.conns i) ∧ AllReceive w) ?_ ⟨(SameStream.refl _).ended hf,hm⟩
  intro w e a w' hw hok hstep
  exact ⟨hw.1.trans ((step_slot hstep i).ended (hw.2 i) hw.1.peerFin hok),hw.2.step hstep⟩

lemma getConn_of_valid (hv : (m.conns i).valid = true) : m.getConn i.val = some i := by
  unfold Machine.getConn
  have hi : (0:ℤ) ≤ i.val ∧ (i.val:ℤ) < 16 := ⟨Int.natCast_nonneg _,by exact_mod_cast i.isLt⟩
  rw [dif_pos hi]
  have hfin : (⟨(i.val:ℤ).toNat,(Int.toNat_lt hi.1).mpr hi.2⟩ : Cid) = i := Fin.ext (Int.toNat_natCast _)
  dsimp only
  rw [hfin,if_pos hv]

/-- From any reachable state in which the FIN of the peer was accepted, the position of the
stream never moves again, no byte is added, and an empty buffer stays at the end of the stream. -/
theorem stream_stays_ended {n : Net} {es₁ es₂ : List Event} (hreach : Runs step (fun _ _ => True) (.initial n) es₁ m)
    (hf : (m.conns i).peerFin = true) (h : Runs step (Final i) m es₂ m') :
    (m'.conns i).rcvNxt = (m.conns i).rcvNxt ∧ (m'.conns i).rxData <:+ (m.conns i).rxData ∧
      ((m.conns i).rxLen = 0 → tcpEof m' i.val = true) := by
  have hm : AllReceive m := hreach.invariant (fun _ _ _ _ hm _ hstep => hm.step hstep) (initial_allReceive n)
  obtain ⟨hend,hm'⟩ := ended_run hm hf h
  refine ⟨hend.rcvNxt,hend.rxData,fun hempty => ?_⟩
  have hlen : (m'.conns i).rxLen = 0 := by
    have hle := hend.rxData.length_le
    unfold Conn.rxData at hle
    rw [slice_length,slice_length,hempty] at hle
    exact UInt32.toNat_inj.mp (Nat.le_zero.mp hle)
  unfold tcpEof
  rw [getConn_of_valid ((hm' i).fin hend.peerFin).1]
  dsimp only
  rw [hend.peerFin,hlen]
  rfl

lemma drainLoop_idle {wnd f : UInt32} (h : ¬ c.inFlight < c.txLen) : drainLoop poll wnd c n f = some (c,n) := by
  unfold drainLoop
  rw [dif_neg h,dite_eq_ite,ite_self]

lemma handleSynced_idle (hack : applyAck { c with sndWnd := if s.window = 0 then 1 else s.window.toUInt32 } s.ack =
    some d) (h : ¬ (ackTransitions (acceptFin (acceptData d s) s)).inFlight <
      (ackTransitions (acceptFin (acceptData d s) s)).txLen) :
    handleSynced poll c s n = some (drainFin poll (ackTransitions (acceptFin (acceptData d s) s))
      (if s.dataLen ≠ 0 ∨ s.has flagFin then tcpSendAck (acceptFin (acceptData d s) s) n else n)) := by
  unfold handleSynced tcpDrainTx
  rw [hack,Option.bind_eq_bind,Option.bind_some]
  dsimp only
  rw [drainLoop_idle h]
  rfl

lemma step_synced {q : Packet} (isn : UInt32) (hq : q.segment.data.length ≤ mss)
    (hi : m.findConnForPkt q.src q.segment.dstPort q.segment.srcPort = some i)
    (hrst : q.segment.has flagRst = false) (hack : q.segment.has flagAck = true)
    (hst : (m.conns i).state ≠ .synSent ∧ (m.conns i).state ≠ .synReceived)
    (h : handleSynced m.pollCounter (m.conns i) q.segment m.net = some (c,n)) :
    step m (q.arrival isn) = some (⟨0,[]⟩,{ m with conns := Function.update m.conns i c, net := n }) := by
  rw [step_arrival _ _ _ hq]
  unfold handleSegment
  rw [hi]
  dsimp only
  unfold handleConn
  rw [if_neg (by simp [hrst]),if_neg hst.1,if_neg (by simp [hack]),if_neg hst.2]
  unfold Machine.onConn
  dsimp only
  rw [h]
  rfl

def opened : Machine := promote halfOpen 1 (clientSegment flagAck 101 8).segment

def clientFin : Packet := clientSegment (flagFin ||| flagAck) 101 8

/-- What the FIN leaves in the slot of the connection. -/
def finished : Conn × Net :=
  let c := acceptFin { opened.conns 1 with sndWnd := 512 } clientFin.segment
  drainFin 0 (ackTransitions c) (tcpSendAck c opened.net)

def afterFin : Machine := { opened with conns := Function.update opened.conns 1 finished.1, net := finished.2 }

/-- One byte of data at the position after the FIN. -/
def lateData : Packet where
  src := fun _ => 1
  dst := Bytes.zero
  segment := ⟨1000,80,102,8,flagAck,512,[65]⟩
  mssOption := false

lemma afterFin_reached : Runs step (fun _ _ => True) (.initial openNet) [.listen 80,
    (clientSegment flagSyn 100 0).arrival 7,(clientSegment flagAck 101 8).arrival 0,clientFin.arrival 0] afterFin := by
  have hfin : step opened (clientFin.arrival 0) = some (⟨0,[]⟩,afterFin) :=
    step_synced (i := 1) 0 (by decide) (by decide) (by decide) (by decide) (by decide)
      (handleSynced_idle (d := { opened.conns 1 with sndWnd := 512 }) rfl (by decide))
  exact .cons trivial rfl (.cons trivial (t := halfOpen) (by rw [step_arrival _ _ _ (by decide)]; rfl)
    (.cons trivial (t := opened) (by rw [step_arrival _ _ _ (by decide)]; rfl) (.cons trivial hfin (.nil _))))

/-- The FIN arrives once more. -/
theorem stream_stays_ended_again : ∃ m, Runs step (Final 1) afterFin [clientFin.arrival 0] m ∧
    (m.conns 1).rcvNxt = 102 ∧ tcpEof m 1 = true := by
  have hagain := step_synced (m := afterFin) (q := clientFin) (i := 1) 0
    (by decide) (by decide) (by decide) (by decide) (by decide)
    (handleSynced_idle (d := { finished.1 with sndWnd := 512 }) rfl (by decide))
  have hfinal : Final 1 afterFin (clientFin.arrival 0) := by
    refine ⟨fun h => ?_,fun s ha _ _ => ?_⟩
    · rcases h with ⟨_,h⟩ | h <;> cases h
    · obtain rfl := (ha.of_arrival (by decide)).1
      unfold Extends
      decide
  have hrun := Runs.cons hfinal hagain (.nil _)
  obtain ⟨hnxt,-,heof⟩ := stream_stays_ended afterFin_reached rfl hrun
  exact ⟨_,hrun,hnxt,heof rfl⟩

theorem data_after_fin : ¬ ∀ (n : Net) (es₁ es₂ : List Event) (m m' : Machine) (i : Cid),
    Runs step (fun _ _ => True) (.initial n) es₁ m → (m.conns i).peerFin = true →
      Runs step (fun _ e => ∃ src dst p isn, e = .handle src dst p isn) m es₂ m' →
        (m'.conns i).rcvNxt = (m.conns i).rcvNxt := by
  intro h
  have hdata := step_synced (m := afterFin) (q := lateData) (i := 1) 0
    (by decide) (by decide) (by decide) (by decide) (by decide)
    (handleSynced_idle (d := { finished.1 with sndWnd := 512 }) rfl (by decide))
  have hsame := h _ _ _ _ _ 1 afterFin_reached rfl (.cons ⟨_,_,_,_,rfl⟩ hdata (.nil _))
  exact absurd hsame (by decide)

end VibeOS.Tcp

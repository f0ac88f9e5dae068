import VibeOS.Tcp.Slots

/-! Which fields of a slot a function leaves alone, and the steps that change whose slot it is. -/
namespace VibeOS.Tcp
open Function Option
open VibeOS.Storage

inductive Frees (m : Machine) (e : Event) (i : Cid) : Prop
  | free (was : m.freeSlot = some i)
  | released {cid} (now : e = .close cid) (get : m.getConn cid = some i)
      (why : (m.conns i).reset = true ∨ (m.conns i).state = .listen ∨ (m.conns i).state = .closed)
  | flushed {cid l} (now : e = .close cid) (get : m.getConn cid = some l)
      (state : (m.conns l).state = .listen) (queued : i ∈ (m.conns l).acceptQ)
  | reaped (now : e = .poll) (closed : (m.conns i).userClosed = true ∧ (m.conns i).state = .closed ∧
      (m.conns i).rxLen = 0)
  | abandoned {s} (promotes : Promotes m e i s)

/-- The steps that change whose slot it is, and those that change a queue or a parent. -/
inductive SlotChange (m : Machine) (e : Event) (i : Cid) : Conn → Prop
  | freed (why : Frees m e i) : SlotChange m e i Conn.zero
  | connects {dst port isn} (now : e = .connect dst port isn) (free : m.freeSlot = some i)
      (sent : m.net.ok m.net.sent.length = true) : SlotChange m e i (connected m dst port isn)
  | listens {port} (now : e = .listen port) (free : m.freeSlot = some i) (some : port ≠ 0)
      (none : m.findListenerForPort port = none) :
      SlotChange m e i { Conn.fresh with localPort := port, state := .listen }
  | child {src dst p s l isn} (now : e = .handle src dst p isn) (bytes : Segment.decode src dst p = some s)
      (new : m.findConnForPkt src s.dstPort s.srcPort = none)
      (listener : m.findListenerForPort s.dstPort = some l) (free : m.freeSlot = some i) :
      SlotChange m e i (childOf m l src s isn)
  | pops {cid k q p} (now : e = .accept cid) (get : m.getConn cid = some i)
      (state : (m.conns i).state = .listen) (queue : (m.conns i).acceptQ = k :: q)
      (parent : p = (m.conns i).parentListenCid ∨ p = none ∧ k = i) :
      SlotChange m e i { m.conns i with acceptQ := q, parentListenCid := p }
  | leaves {cid l q} (now : e = .accept cid) (get : m.getConn cid = some l)
      (state : (m.conns l).state = .listen) (queue : (m.conns l).acceptQ = i :: q) (ne : i ≠ l)
      (valid : (m.conns i).valid = true) : SlotChange m e i { m.conns i with parentListenCid := none }
  | resets {s} (arrives : Arrives m e i s) (rst : s.has flagRst = true) :
      SlotChange m e i { m.conns i with reset := true, state := .closed }
  | promoted {s l} (promotes : Promotes m e i s) (parent : (m.conns i).parentListenCid = some l)
      (listener : Listens (m.conns l)) : SlotChange m e i { m.conns i with
        sndUna := s.ack
        sndWnd := handshakeWnd s
        state := .established }
  | pushed {s k} (promotes : Promotes m e k s) (parent : (m.conns k).parentListenCid = some i) (ne : k ≠ i)
      (listener : Listens (m.conns i)) (room : (m.conns i).acceptQ.length < acceptQcap) :
      SlotChange m e i { m.conns i with acceptQ := (m.conns i).acceptQ ++ [k] }

inductive ListenerMove (m m' : Machine) (e : Event) (l : Cid) : Prop
  | opened {port} (now : e = .listen port) (free : m.freeSlot = some l) (some : port ≠ 0)
      (none : m.findListenerForPort port = none) (queue : (m'.conns l).acceptQ = [])
  | same (was : Listens (m.conns l)) (localPort : (m'.conns l).localPort = (m.conns l).localPort)
      (queue : (m'.conns l).acceptQ = (m.conns l).acceptQ)
  | popped {cid k} (was : Listens (m.conns l)) (localPort : (m'.conns l).localPort = (m.conns l).localPort)
      (now : e = .accept cid) (get : m.getConn cid = some l)
      (queue : (m.conns l).acceptQ = k :: (m'.conns l).acceptQ)
  | pushed {k s} (was : Listens (m.conns l)) (localPort : (m'.conns l).localPort = (m.conns l).localPort)
      (promotes : Promotes m e k s) (parent : (m.conns k).parentListenCid = some l)
      (room : (m.conns l).acceptQ.length < acceptQcap)
      (queue : (m'.conns l).acceptQ = (m.conns l).acceptQ ++ [k])

variable {m m' : Machine} {i j k l : Cid} {c c' d : Conn} {n n' : Net} {e : Event} {s : Segment}
  {poll : UInt64} {wnd f : UInt32}

lemma drainLoop_invariant {P : Conn → Prop} (turn : ∀ c f, f < wnd → c.inFlight < c.txLen → P c →
    P { c with sndNxt := c.sndNxt + nextSegment c wnd f, lastTxPoll := poll })
    (h : drainLoop poll wnd c n f = some (c',n')) (hc : P c) : P c' := by
  fun_induction drainLoop poll wnd c n f with
  | case1 => cases h
  | case2 c n f hw hb seg _ n₁ _ ih => exact ih h (turn c f hw hb hc)
  | case3 | case4 | case5 =>
    obtain ⟨rfl,-⟩ := Prod.mk.inj (some.inj h)
    exact hc

/-- Only the fields that sending uses are different. -/
def Transmits (c c' : Conn) : Prop :=
  ∃ nxt fin t, c' = { c with sndNxt := nxt, finSent := fin, lastTxPoll := t }

lemma Transmits.refl (c : Conn) : Transmits c c := ⟨_,_,_,rfl⟩

lemma Transmits.trans (h : Transmits c c') (h' : Transmits c' d) : Transmits c d := by
  obtain ⟨_,_,_,rfl⟩ := h
  obtain ⟨_,_,_,rfl⟩ := h'
  exact ⟨_,_,_,rfl⟩

lemma drainFin_transmits (poll : UInt64) (c : Conn) (n : Net) : Transmits c (drainFin poll c n).1 := by
  unfold drainFin
  split_ifs
  · exact ⟨_,_,_,rfl⟩
  · exact .refl c

lemma tcpDrainTx_transmits (h : tcpDrainTx poll c n = some (c',n')) : Transmits c c' := by
  obtain ⟨⟨d,n₁⟩,hloop,hfin⟩ := Option.bind_eq_some_iff.mp h
  have hd : Transmits c d :=
    drainLoop_invariant (P := Transmits c) (fun _ _ _ _ hc => hc.trans ⟨_,_,_,rfl⟩) hloop (.refl c)
  have hc' := drainFin_transmits poll d n₁
  rw [some.inj hfin] at hc'
  exact hd.trans hc'

lemma rewind_transmits (c : Conn) : Transmits c (rewind c) := ⟨_,_,_,rfl⟩

lemma retransmit_transmits (h : retransmit poll c n = some (c',n')) : Transmits c c' := by
  unfold retransmit at h
  split_ifs at h
  · obtain ⟨⟨d,n₁⟩,hdrain,hd⟩ := Option.bind_eq_some_iff.mp h
    obtain ⟨rfl,-⟩ := Prod.mk.inj (some.inj hd)
    exact ((rewind_transmits c).trans (tcpDrainTx_transmits hdrain)).trans ⟨_,_,_,rfl⟩
  · obtain ⟨rfl,-⟩ := Prod.mk.inj (some.inj h)
    exact .refl _

lemma resend_transmits (poll : UInt64) (st : TcpState) (flags : UInt8) (ack : UInt32) (c : Conn) (n : Net) :
    Transmits c (resend poll st flags ack c n).1 := by
  unfold resend
  split_ifs
  · exact ⟨_,_,_,rfl⟩
  · exact .refl _

lemma pollConn_cases (h : pollConn poll c n = some (c',n')) : Transmits c c' ∨
    (c.valid = true ∧ c.userClosed = true ∧ c.state = .closed ∧ c.rxLen = 0) ∧ c' = Conn.zero := by
  unfold pollConn at h
  split_ifs at h with hv hreap hclosed
  · obtain ⟨rfl,-⟩ := Prod.mk.inj (some.inj h)
    exact .inl (.refl _)
  · obtain ⟨rfl,-⟩ := Prod.mk.inj (some.inj h)
    exact .inr ⟨⟨by simpa using hv,hreap⟩,rfl⟩
  · obtain ⟨rfl,-⟩ := Prod.mk.inj (some.inj h)
    exact .inl (.refl _)
  · obtain ⟨⟨d,n₁⟩,hdata,h⟩ := Option.bind_eq_some_iff.mp h
    have hsyn := resend_transmits poll .synSent flagSyn 0 d n₁
    have hack := resend_transmits poll .synReceived (flagSyn ||| flagAck) (resendSyn poll d n₁).1.rcvNxt
      (resendSyn poll d n₁).1 (resendSyn poll d n₁).2
    have heq : resendSynAck poll (resendSyn poll d n₁).1 (resendSyn poll d n₁).2 = (c',n') := some.inj h
    unfold resendSynAck at heq
    rw [heq] at hack
    exact .inl (((retransmit_transmits hdata).trans hsyn).trans hack)

/-- What the ACK of a segment changes. -/
def Acknowledges (c c' : Conn) : Prop := ∃ wnd buf len una fin,
  c' = { c with sndWnd := wnd, txBuf := buf, txLen := len, sndUna := una, finAcked := fin }

lemma applyAck_acknowledges {ack : UInt32} (h : applyAck { c with sndWnd := wnd } ack = some c') :
    Acknowledges c c' := by
  unfold applyAck at h
  dsimp only at h
  split at h
  next =>
    obtain rfl := some.inj h
    exact ⟨_,_,_,_,_,rfl⟩
  next =>
  split at h
  next => cases h
  next =>
    obtain rfl := some.inj h
    exact ⟨_,_,_,_,_,rfl⟩

/-- `tcp_handle` on a connection past its handshake: the ACK, the payload, the FIN and the
transitions, and then what can be sent. -/
lemma handleSynced_cases (h : handleSynced poll c s n = some (c',n')) : ∃ d, Acknowledges c d ∧
    Transmits (ackTransitions (acceptFin (acceptData d s) s)) c' := by
  obtain ⟨d,hack,hdrain⟩ := Option.bind_eq_some_iff.mp h
  exact ⟨d,applyAck_acknowledges hack,tcpDrainTx_transmits hdrain⟩

/-- The slot holds the same listener or connection, with the same queue and the same parent. -/
structure Stays (c c' : Conn) : Prop where
  valid : c'.valid = c.valid
  remoteIp : c'.remoteIp = c.remoteIp
  localPort : c'.localPort = c.localPort
  remotePort : c'.remotePort = c.remotePort
  acceptQ : c'.acceptQ = c.acceptQ
  parent : c'.parentListenCid = c.parentListenCid
  listen : c'.state = .listen ↔ c.state = .listen
  synReceived : c'.state = .synReceived ↔ c.state = .synReceived
  synSent : c'.state = .synSent → c.state = .synSent

lemma Stays.refl (c : Conn) : Stays c c := ⟨rfl,rfl,rfl,rfl,rfl,rfl,.rfl,.rfl,id⟩

lemma Stays.trans (h : Stays c c') (h' : Stays c' d) : Stays c d where
  valid := h'.valid.trans h.valid
  remoteIp := h'.remoteIp.trans h.remoteIp
  localPort := h'.localPort.trans h.localPort
  remotePort := h'.remotePort.trans h.remotePort
  acceptQ := h'.acceptQ.trans h.acceptQ
  parent := h'.parent.trans h.parent
  listen := h'.listen.trans h.listen
  synReceived := h'.synReceived.trans h.synReceived
  synSent h₀ := h.synSent (h'.synSent h₀)

lemma Stays.listens (h : Stays c c') : Listens c' ↔ Listens c :=
  ⟨fun hl => ⟨h.valid.symm.trans hl.valid,h.listen.mp hl.state⟩,
    fun hl => ⟨h.valid.trans hl.valid,h.listen.mpr hl.state⟩⟩

lemma Transmits.stays (h : Transmits c c') : Stays c c' := by
  obtain ⟨_,_,_,rfl⟩ := h
  exact ⟨rfl,rfl,rfl,rfl,rfl,rfl,.rfl,.rfl,id⟩

lemma Acknowledges.stays (h : Acknowledges c c') : Stays c c' := by
  obtain ⟨_,_,_,_,_,rfl⟩ := h
  exact ⟨rfl,rfl,rfl,rfl,rfl,rfl,.rfl,.rfl,id⟩

lemma acceptData_stays (c : Conn) (s : Segment) : Stays c (acceptData c s) := by
  unfold acceptData
  split_ifs
  · exact ⟨rfl,rfl,rfl,rfl,rfl,rfl,.rfl,.rfl,id⟩
  · exact .refl c

lemma acceptFin_stays (c : Conn) (s : Segment) : Stays c (acceptFin c s) := by
  unfold acceptFin
  split
  · refine ⟨rfl,rfl,rfl,rfl,rfl,rfl,?_,?_,?_⟩
    all_goals cases c.state <;> cases c.finAcked <;> simp
  · exact .refl c

lemma ackTransitions_eq (c : Conn) : ∃ st, ackTransitions c = { c with state := st } ∧
    (st = c.state ∨ (c.state = .finWait1 ∨ c.state = .lastAck ∨ c.state = .timeWait) ∧
      (st = .finWait2 ∨ st = .closed)) := by
  refine ⟨(ackTransitions c).state,?_,?_⟩
  · unfold ackTransitions
    dsimp only
    split_ifs <;> rfl
  · unfold ackTransitions
    cases hst : c.state <;> cases hfin : c.finAcked <;> simp [hst,hfin]

lemma ackTransitions_stays (c : Conn) : Stays c (ackTransitions c) := by
  obtain ⟨st,heq,hst⟩ := ackTransitions_eq c
  rw [heq]
  refine ⟨rfl,rfl,rfl,rfl,rfl,rfl,?_,?_,?_⟩
  all_goals rcases hst with rfl | ⟨h | h | h,rfl | rfl⟩ <;> simp [*]

lemma handleSynced_stays (h : handleSynced poll c s n = some (c',n')) : Stays c c' := by
  obtain ⟨d,hack,hsend⟩ := handleSynced_cases h
  exact (((hack.stays.trans (acceptData_stays d s)).trans (acceptFin_stays _ s)).trans
    (ackTransitions_stays _)).trans hsend.stays

lemma SlotMove.stays_or (h : SlotMove m e i c') : Stays (m.conns i) c' ∨ SlotChange m e i c' := by
  cases h with
  | kept => exact .inl (.refl _)
  | wiped free => exact .inr (.freed (.free free))
  | connects now free sent => exact .inr (.connects now free sent)
  | listens now free hp hnone => exact .inr (.listens now free hp hnone)
  | pops now get state queue parent => exact .inr (.pops now get state queue parent)
  | leaves now get state queue ne valid => exact .inr (.leaves now get state queue ne valid)
  | sends now get state put_le fits drain =>
    have hs := (tcpDrainTx_transmits drain).stays
    exact .inl ⟨hs.valid,hs.remoteIp,hs.localPort,hs.remotePort,hs.acceptQ,hs.parent,hs.listen,hs.synReceived,hs.synSent⟩
  | receives | marks => exact .inl ⟨rfl,rfl,rfl,rfl,rfl,rfl,.rfl,.rfl,id⟩
  | closes now get from_ drain =>
    have hs := (tcpDrainTx_transmits drain).stays
    refine .inl ⟨hs.valid,hs.remoteIp,hs.localPort,hs.remotePort,hs.acceptQ,hs.parent,hs.listen.trans ?_,
      hs.synReceived.trans ?_,fun h₀ => absurd (hs.synSent h₀) ?_⟩
    all_goals rcases from_ with ⟨h,rfl⟩ | ⟨h,rfl⟩ <;> simp [h]
  | releases now get why => exact .inr (.freed (.released now get why))
  | flushes now get state queued => exact .inr (.freed (.flushed now get state queued))
  | polls now poll =>
    rcases pollConn_cases poll with hs | ⟨⟨-,hu,hst,hrx⟩,rfl⟩
    · exact .inl hs.stays
    · exact .inr (.freed (.reaped now ⟨hu,hst,hrx⟩))
  | child now bytes new listener free => exact .inr (.child now bytes new listener free)
  | resets arrives rst => exact .inr (.resets arrives rst)
  | answers arrives state => exact .inl ⟨rfl,rfl,rfl,rfl,rfl,rfl,by simp [state],by simp [state],fun _ => state⟩
  | promoted promotes parent listener => exact .inr (.promoted promotes parent listener)
  | abandoned promotes => exact .inr (.freed (.abandoned promotes))
  | pushed promotes parent ne listener room => exact .inr (.pushed promotes parent ne listener room)
  | synced arrives rst ack state handle => exact .inl (handleSynced_stays handle)

variable {a : Answer}

lemma step_identity (h : step m e = some (a,m')) (k : Cid) :
    Stays (m.conns k) (m'.conns k) ∨ SlotChange m e k (m'.conns k) := (step_slot h k).stays_or

lemma arrives_unique {s' : Segment} (h : Arrives m e i s) (h' : Arrives m e j s') : i = j ∧ s = s' := by
  obtain ⟨src,dst,p,isn,rfl,hs,hi⟩ := h
  obtain ⟨src',dst',p',isn',heq,hs',hj⟩ := h'
  obtain ⟨rfl,rfl,rfl,rfl⟩ := Event.handle.inj heq
  obtain rfl := some.inj (hs.symm.trans hs')
  exact ⟨some.inj (hi.symm.trans hj),rfl⟩

lemma step_arrives (ha : Arrives m e i s) (h : step m e = some (a,m')) :
    handleConn m i s = some m' := by
  obtain ⟨src,dst,p,isn,rfl,hs,hi⟩ := ha
  obtain ⟨w,hw,hm⟩ := Option.bind_eq_some_iff.mp h
  obtain ⟨-,rfl⟩ := Prod.mk.inj (some.inj hm)
  unfold tcpHandle handleSegment at hw
  rw [hs] at hw
  dsimp only at hw
  rw [hi] at hw
  exact hw

lemma step_promotes (hp : Promotes m e i s) (hpar : (m.conns i).parentListenCid = some l)
    (hl : Listens (m.conns l)) (h : step m e = some (a,m')) :
    (m.conns l).acceptQ.length < acceptQcap ∧ (m'.conns l).acceptQ = (m.conns l).acceptQ ++ [i] ∧
      m'.conns i = { m.conns i with sndUna := s.ack, sndWnd := handshakeWnd s, state := .established } ∨
      ¬ (m.conns l).acceptQ.length < acceptQcap ∧ m'.conns i = Conn.zero := by
  have hc := step_arrives hp.arrives h
  unfold handleConn at hc
  rw [if_neg (by simp [hp.rst]),if_neg (by simp [hp.state]),if_neg (by simp [hp.ack]),if_pos hp.state] at hc
  obtain rfl := some.inj hc
  have hne : l ≠ i := by
    rintro rfl
    exact absurd (hl.state.symm.trans hp.state) (by simp)
  unfold promote
  rw [if_neg (not_not.mpr hp.number)]
  dsimp only
  rw [hpar]
  dsimp only
  rw [setConn_conns,update_of_ne hne]
  by_cases hroom : (m.conns l).acceptQ.length < acceptQcap
  · rw [if_pos ⟨hl.valid,hl.state,hroom⟩,setConn_conns,update_self,
      update_of_ne hne.symm,setConn_conns,update_self]
    exact .inl ⟨hroom,rfl,rfl⟩
  · rw [if_neg fun hall => hroom hall.2.2]
    refine .inr ⟨hroom,?_⟩
    exact update_self ..

/-- `tcp_accept` takes the first of the queue and gives its number; the connection has no
parent any more. -/
lemma tcpAccept_head {cid : ℤ} {q : List Cid} (hg : m.getConn cid = some l)
    (hst : (m.conns l).state = .listen) (hq : (m.conns l).acceptQ = k :: q) :
    ((tcpAccept m cid).2.conns l).acceptQ = q ∧ (tcpAccept m cid).1 = k.val ∧
      ((m.conns k).valid = true → ((tcpAccept m cid).2.conns k).parentListenCid = none) := by
  unfold tcpAccept
  rw [hg]
  dsimp only
  rw [if_neg (not_not.mpr hst),hq]
  dsimp only
  have hvalid : ((m.setConn l { m.conns l with acceptQ := q }).conns k).valid = (m.conns k).valid := by
    rw [setConn_conns]
    by_cases hkl : k = l
    · subst hkl
      rw [update_self]
    · rw [update_of_ne hkl]
  split_ifs with hv
  · refine ⟨?_,rfl,fun _ => ?_⟩
    · by_cases hkl : l = k
      · subst hkl
        rw [setConn_conns,update_self,setConn_conns,update_self]
      · rw [setConn_conns,update_of_ne hkl,setConn_conns,update_self]
    · rw [setConn_conns,update_self]
  · rw [hvalid] at hv
    refine ⟨?_,rfl,fun h => absurd h hv⟩
    rw [setConn_conns,update_self]

lemma step_accepts {cid : ℤ} {q : List Cid} (hg : m.getConn cid = some l)
    (hst : (m.conns l).state = .listen) (hq : (m.conns l).acceptQ = k :: q)
    (h : step m (.accept cid) = some (a,m')) : (m'.conns l).acceptQ = q ∧
      ((m.conns k).valid = true → (m'.conns k).parentListenCid = none) := by
  obtain ⟨-,rfl⟩ := Prod.mk.inj (some.inj h)
  obtain ⟨hqueue,-,hparent⟩ := tcpAccept_head hg hst hq
  exact ⟨hqueue,hparent⟩

lemma step_closes {cid : ℤ} (hg : m.getConn cid = some l) (hst : (m.conns l).state = .listen)
    (h : step m (.close cid) = some (a,m')) : m'.conns l = Conn.zero := by
  obtain ⟨⟨r,w⟩,hw,hm⟩ := Option.bind_eq_some_iff.mp h
  obtain ⟨-,rfl⟩ := Prod.mk.inj (some.inj hm)
  unfold tcpClose at hw
  rw [hg] at hw
  dsimp only at hw
  split at hw
  next =>
    obtain ⟨-,rfl⟩ := Prod.mk.inj (some.inj hw)
    exact update_self ..
  next =>
    split at hw
    next =>
      obtain ⟨-,rfl⟩ := Prod.mk.inj (some.inj hw)
      exact update_self ..
    next hst' => exact absurd (hst'.symm.trans hst) (by simp)
    next hst' => exact absurd (hst'.symm.trans hst) (by simp)
    next hst' => exact absurd (hst'.symm.trans hst) (by simp)
    next hst' _ _ _ => exact absurd hst hst'

lemma step_listener (h : step m e = some (a,m')) (hl : Listens (m'.conns l)) :
    ListenerMove m m' e l := by
  have hmove := step_identity h l
  generalize hc : m'.conns l = c' at hmove hl
  rcases hmove with hs | hs
  · exact .same (hs.listens.mp hl) (hc ▸ hs.localPort) (hc ▸ hs.acceptQ)
  cases hs with
  | freed => exact absurd hl.valid (by simp [Conn.zero])
  | connects => exact absurd hl.state (by simp [connected])
  | listens now free hp hnone => exact .opened now free hp hnone (by rw [hc]; rfl)
  | child => exact absurd hl.state (by simp [childOf])
  | @pops cid k q p now get state queue =>
    have hq : (m.conns l).acceptQ = k :: (m'.conns l).acceptQ := by
      rw [hc]
      exact queue
    exact .popped ⟨hl.valid,hl.state⟩ (by rw [hc]) now get hq
  | leaves => exact .same ⟨hl.valid,hl.state⟩ (by rw [hc]) (by rw [hc])
  | resets | promoted => exact absurd hl.state (by simp)
  | pushed promotes parent ne listener room =>
    exact .pushed listener (by rw [hc]) promotes parent room (by rw [hc])

end VibeOS.Tcp

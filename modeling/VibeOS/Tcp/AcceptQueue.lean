import VibeOS.Tcp.Demux

/-! The queues of connections that wait for `tcp_accept`. -/
namespace VibeOS.Tcp
open VibeOS.Storage List Option

variable {m m' : Machine} {i j k l : Cid} {c c' : Conn} {e : Event} {s : Segment} {a : Answer}

def Waits (m : Machine) (i : Cid) : Prop := ∃ l, Listens (m.conns l) ∧ i ∈ (m.conns l).acceptQ

/-- The connection in slot `i` came in for listener `l`. -/
structure ChildOf (m : Machine) (l i : Cid) : Prop where
  valid : (m.conns i).valid = true
  parent : (m.conns i).parentListenCid = some l
  localPort : (m.conns i).localPort = (m.conns l).localPort

structure Queues (m : Machine) : Prop where
  child : ∀ l, Listens (m.conns l) → ∀ i ∈ (m.conns l).acceptQ, ChildOf m l i
  once : ∀ l, Listens (m.conns l) → (m.conns l).acceptQ.Nodup
  apart : ∀ l l' i, Listens (m.conns l) → Listens (m.conns l') → i ∈ (m.conns l).acceptQ →
    i ∈ (m.conns l').acceptQ → l = l'

/-- The event neither moves a child to a listener on another port nor frees the slot of a
connection that waits. -/
structure Orderly (m : Machine) (e : Event) : Prop where
  promotion : ∀ i s l, Promotes m e i s → (m.conns i).parentListenCid = some l → Listens (m.conns l) →
    (m.conns l).acceptQ.length < acceptQcap → (m.conns i).localPort = (m.conns l).localPort
  close : ∀ cid i, e = .close cid → m.getConn cid = some i → Waits m i →
    (m.conns i).reset = false ∧ (m.conns i).state ≠ .listen ∧ (m.conns i).state ≠ .closed
  poll : e = .poll → ∀ i, Waits m i →
    ¬ ((m.conns i).userClosed = true ∧ (m.conns i).state = .closed ∧ (m.conns i).rxLen = 0)

/-- The event does not free the slot of a connection that waits. -/
structure Undisturbed (m : Machine) (e : Event) : Prop where
  close : ∀ cid i, e = .close cid → m.getConn cid = some i → Waits m i →
    (m.conns i).reset = false ∧ (m.conns i).state ≠ .listen ∧ (m.conns i).state ≠ .closed
  poll : e = .poll → ∀ i, Waits m i →
    ¬ ((m.conns i).userClosed = true ∧ (m.conns i).state = .closed ∧ (m.conns i).rxLen = 0)

lemma Orderly.undisturbed (h : Orderly m e) : Undisturbed m e := ⟨h.close,h.poll⟩

/-- What waits has its handshake behind it, and waits once. -/
structure Lined (m : Machine) : Prop where
  child : ∀ l, Listens (m.conns l) → ∀ i ∈ (m.conns l).acceptQ,
    (m.conns i).valid = true ∧ (m.conns i).parentListenCid = some l ∧ (m.conns i).state ≠ .synReceived
  once : ∀ l, Listens (m.conns l) → (m.conns l).acceptQ.Nodup

lemma Lined.apart (h : Lined m) {l l' : Cid} (hl : Listens (m.conns l)) (hl' : Listens (m.conns l'))
    (hi : i ∈ (m.conns l).acceptQ) (hi' : i ∈ (m.conns l').acceptQ) : l = l' := by
  have hp := (h.child l hl i hi).2.1
  have hp' := (h.child l' hl' i hi').2.1
  exact some.inj (hp.symm.trans hp')

lemma Lined.stays (hm : Lined m) (hok : Undisturbed m e) (h : step m e = some (a,m')) (hl : Listens (m.conns l))
    (hl' : Listens (m'.conns l)) (hi : i ∈ (m.conns l).acceptQ) (hi' : i ∈ (m'.conns l).acceptQ) :
    (m'.conns i).valid = true ∧ (m'.conns i).parentListenCid = some l ∧
      (m'.conns i).localPort = (m.conns i).localPort ∧ (m'.conns i).state ≠ .synReceived := by
  obtain ⟨hvalid,hparent,hst⟩ := hm.child l hl i hi
  have hwaits : Waits m i := ⟨l,hl,hi⟩
  -- another listener whose queue holds the slot is this one
  have hsame {l' : Cid} (hl'' : Listens (m.conns l')) (hq : i ∈ (m.conns l').acceptQ) : l' = l :=
    hm.apart hl'' hl hq hi
  have hgone {q : List Cid} (hq : (m.conns l).acceptQ = i :: q) (hq' : (m'.conns l).acceptQ = q) : False := by
    have hnd := hm.once l hl
    rw [hq] at hnd
    exact (List.nodup_cons.mp hnd).1 (hq' ▸ hi')
  have hmove := step_identity h i
  generalize m'.conns i = c' at hmove
  rcases hmove with hs | hs
  · exact ⟨hs.valid.trans hvalid,hs.parent.trans hparent,hs.localPort,fun h' => hst (hs.synReceived.mp h')⟩
  cases hs with
  | freed why =>
    cases why with
    | free was => exact absurd (freeSlot_free was) (by simp [hvalid])
    | released now get why =>
      obtain ⟨hreset,hlisten,hclosed⟩ := hok.close _ _ now get hwaits
      rcases why with hw | hw | hw
      · exact absurd (hw.symm.trans hreset) (by simp)
      · exact absurd hw hlisten
      · exact absurd hw hclosed
    | flushed now get state queued =>
      have hll := hsame ⟨(getConn_valid get).1,state⟩ queued
      subst hll now
      have hzero := step_closes get state h
      exact absurd hl'.valid (by simp [hzero,Conn.zero])
    | reaped now closed => exact absurd closed (hok.poll now i hwaits)
    | abandoned promotes => exact absurd promotes.state hst
  | connects now free
  | listens now free
  | child now bytes new listener free => exact absurd (freeSlot_free free) (by simp [hvalid])
  | pops now get state queue parent =>
    rcases parent with rfl | ⟨rfl,rfl⟩
    · exact ⟨hvalid,hparent,rfl,hst⟩
    · have hll := hsame ⟨(getConn_valid get).1,state⟩ (by rw [queue]; exact mem_cons_self)
      subst hll now
      exact (hgone queue (step_accepts get state queue h).1).elim
  | leaves now get state queue ne valid =>
    have hll := hsame ⟨(getConn_valid get).1,state⟩ (by rw [queue]; exact mem_cons_self)
    subst hll now
    exact (hgone queue (step_accepts get state queue h).1).elim
  | resets => exact ⟨hvalid,hparent,rfl,by simp⟩
  | promoted promotes => exact absurd promotes.state hst
  | pushed => exact ⟨hvalid,hparent,rfl,hst⟩

lemma Arrives.valid (h : Arrives m e i s) : (m.conns i).valid = true := by
  obtain ⟨_,_,_,_,-,-,hi⟩ := h
  exact (findConnForPkt_some hi).valid

lemma Lined.step (hm : Lined m) (hok : Undisturbed m e) (h : step m e = some (a,m')) : Lined m' where
  child l hl i hi := by
    have hkept (was : Listens (m.conns l)) (hi₀ : i ∈ (m.conns l).acceptQ) : (m'.conns i).valid = true ∧
        (m'.conns i).parentListenCid = some l ∧ (m'.conns i).state ≠ .synReceived := by
      obtain ⟨hv,hpar,-,hst⟩ := hm.stays hok h was hl hi₀ hi
      exact ⟨hv,hpar,hst⟩
    cases step_listener h hl with
    | opened now free some none queue => exact absurd hi (by simp [queue])
    | same was hport queue => exact hkept was (queue ▸ hi)
    | popped was hport now get queue => exact hkept was (by rw [queue]; exact mem_cons_of_mem _ hi)
    | pushed was hport promotes parent room queue =>
      rw [queue,mem_append,mem_singleton] at hi
      rcases hi with hi | rfl
      · exact hkept was hi
      · rcases step_promotes promotes parent was h with ⟨-,-,hk⟩ | ⟨hfull,-⟩
        · rw [hk]
          exact ⟨promotes.arrives.valid,parent,by simp⟩
        · exact absurd room hfull
  once l hl := by
    cases step_listener h hl with
    | opened now free some none queue =>
      rw [queue]
      exact nodup_nil
    | same was hport queue =>
      rw [queue]
      exact hm.once l was
    | popped was hport now get queue =>
      have hnd := hm.once l was
      rw [queue] at hnd
      exact (List.nodup_cons.mp hnd).2
    | pushed was hport promotes parent room queue =>
      rw [queue]
      refine List.nodup_append.mpr ⟨hm.once l was,nodup_singleton _,fun i hi k hk => ?_⟩
      rintro rfl
      obtain rfl := List.mem_singleton.mp hk
      exact (hm.child l was _ hi).2.2 promotes.state

lemma initial_lined (n : Net) : Lined (Machine.initial n) where
  child l hl := absurd hl.valid (by simp [Machine.initial,Conn.zero])
  once l hl := absurd hl.valid (by simp [Machine.initial,Conn.zero])

/-- It also waits at the port of its listener. -/
structure Settled (m : Machine) : Prop where
  child : ∀ l, Listens (m.conns l) → ∀ i ∈ (m.conns l).acceptQ,
    ChildOf m l i ∧ (m.conns i).state ≠ .synReceived
  once : ∀ l, Listens (m.conns l) → (m.conns l).acceptQ.Nodup

lemma Settled.lined (h : Settled m) : Lined m where
  child l hl i hi :=
    have hc := h.child l hl i hi
    ⟨hc.1.valid,hc.1.parent,hc.2⟩
  once := h.once

lemma Settled.queues (h : Settled m) : Queues m where
  child l hl i hi := (h.child l hl i hi).1
  once := h.once
  apart _ _ _ hl hl' hi hi' := h.lined.apart hl hl' hi hi'

lemma pushed_child (hok : Orderly m e) (h : step m e = some (a,m')) (hl : Listens (m.conns l))
    (hport : (m'.conns l).localPort = (m.conns l).localPort) (hp : Promotes m e k s)
    (hpar : (m.conns k).parentListenCid = some l) (hroom : (m.conns l).acceptQ.length < acceptQcap)
    (hv : (m.conns k).valid = true) : ChildOf m' l k ∧ (m'.conns k).state ≠ .synReceived := by
  have hports := hok.promotion k s l hp hpar hl hroom
  rcases step_promotes hp hpar hl h with ⟨-,-,hk⟩ | ⟨hfull,-⟩
  · refine ⟨⟨?_,?_,?_⟩,?_⟩
    · rw [hk]
      exact hv
    · rw [hk]
      exact hpar
    · rw [hport,hk]
      exact hports
    · simp [hk]
  · exact absurd hroom hfull

lemma Settled.step (hm : Settled m) (hok : Orderly m e) (h : step m e = some (a,m')) : Settled m' where
  child l hl i hi := by
    have hkept (was : Listens (m.conns l)) (hport : (m'.conns l).localPort = (m.conns l).localPort)
        (hi₀ : i ∈ (m.conns l).acceptQ) : ChildOf m' l i ∧ (m'.conns i).state ≠ .synReceived := by
      obtain ⟨hv,hpar,hp,hst⟩ := hm.lined.stays hok.undisturbed h was hl hi₀ hi
      exact ⟨⟨hv,hpar,(hp.trans (hm.child l was i hi₀).1.localPort).trans hport.symm⟩,hst⟩
    cases step_listener h hl with
    | opened now free some none queue => exact absurd hi (by simp [queue])
    | same was hport queue => exact hkept was hport (queue ▸ hi)
    | popped was hport now get queue =>
      refine hkept was hport ?_
      rw [queue]
      exact mem_cons_of_mem _ hi
    | pushed was hport promotes parent room queue =>
      rw [queue,mem_append,mem_singleton] at hi
      rcases hi with hi | rfl
      · exact hkept was hport hi
      · exact pushed_child hok h was hport promotes parent room promotes.arrives.valid
  once := (hm.lined.step hok.undisturbed h).once

lemma initial_settled (n : Net) : Settled (Machine.initial n) where
  child l hl := absurd hl.valid (by simp [Machine.initial,Conn.zero])
  once := (initial_lined n).once

lemma tcpAccept_value (m : Machine) (cid : ℤ) : (tcpAccept m cid).1 < 0 ∨ ∃ l i q, m.getConn cid = some l ∧
    Listens (m.conns l) ∧ (m.conns l).acceptQ = i :: q ∧ (tcpAccept m cid).1 = i.val := by
  cases hg : m.getConn cid with
  | none =>
    unfold tcpAccept
    rw [hg]
    exact .inl (Int.negSucc_lt_zero 0)
  | some l =>
    by_cases hst : (m.conns l).state = .listen
    · cases hq : (m.conns l).acceptQ with
      | nil =>
        unfold tcpAccept
        rw [hg]
        dsimp only
        rw [if_neg (not_not.mpr hst),hq]
        exact .inl (Int.negSucc_lt_zero 1)
      | cons i q => exact .inr ⟨l,i,q,rfl,⟨(getConn_valid hg).1,hst⟩,hq,(tcpAccept_head hg hst hq).2.1⟩
    · unfold tcpAccept
      rw [hg]
      dsimp only
      rw [if_pos hst]
      exact .inl (Int.negSucc_lt_zero 0)

/-- In every state that is reached by orderly steps the queues are right, and what `tcp_accept`
returns is a connection that came in for the port of that listener. -/
theorem queues_correct {n : Net} {es : List Event} (h : Runs step Orderly (.initial n) es m) :
    Queues m ∧ ∀ cid, 0 ≤ (tcpAccept m cid).1 → ∃ l i, m.getConn cid = some l ∧ Listens (m.conns l) ∧
      (tcpAccept m cid).1 = i.val ∧ ChildOf m l i := by
  have hm : Settled m := h.invariant (fun _ _ _ _ hm hok hstep => hm.step hok hstep) (initial_settled n)
  refine ⟨hm.queues,fun cid hr => ?_⟩
  rcases tcpAccept_value m cid with hneg | ⟨l,i,q,hg,hl,hq,hv⟩
  · exact absurd hr (not_le.mpr hneg)
  · exact ⟨l,i,hg,hl,hv,(hm.child l hl i (by rw [hq]; exact mem_cons_self)).1⟩

def clientSegment (flags : UInt8) (seq ack : UInt32) : Packet where
  src := fun _ => 1
  dst := Bytes.zero
  segment := ⟨1000,80,seq,ack,flags,512,[]⟩
  mssOption := false

lemma Arrives.of_arrival {q : Packet} {isn : UInt32} (hq : q.segment.data.length ≤ mss)
    (h : Arrives m (q.arrival isn) i s) : s = q.segment ∧
      m.findConnForPkt q.src q.segment.dstPort q.segment.srcPort = some i := by
  obtain ⟨src,dst,p,isn',heq,hs,hi⟩ := h
  obtain ⟨rfl,rfl,rfl,rfl⟩ := Event.handle.inj heq
  obtain rfl := some.inj ((decode_encode q hq).symm.trans hs)
  exact ⟨rfl,hi⟩

lemma Orderly.of_arrival {q : Packet} {isn : UInt32} (hq : q.segment.data.length ≤ mss)
    (hport : ∀ i l, m.findConnForPkt q.src q.segment.dstPort q.segment.srcPort = some i →
      (m.conns i).parentListenCid = some l → (m.conns i).localPort = (m.conns l).localPort) :
    Orderly m (q.arrival isn) where
  promotion i s l hp hpar _ _ := hport i l (hp.arrives.of_arrival hq).2 hpar
  close _ _ h := by cases h
  poll h := by cases h

/-- The table after the first message of a handshake with the listener. -/
def halfOpen : Machine := handleNew listening (fun _ => 1) (clientSegment flagSyn 100 0).segment 7

theorem queues_correct_handshake : ∃ m, Runs step Orderly (.initial openNet) [.listen 80,
    (clientSegment flagSyn 100 0).arrival 7,(clientSegment flagAck 101 8).arrival 0] m ∧
      (m.conns 0).acceptQ = [1] ∧ Queues m := by
  have hlisten : Orderly (.initial openNet) (.listen 80) :=
    ⟨fun _ _ _ hp => (by obtain ⟨⟨_,_,_,_,h,-⟩,-⟩ := hp; cases h),fun _ _ h => (by cases h),fun h => (by cases h)⟩
  have hsyn : Orderly listening ((clientSegment flagSyn 100 0).arrival 7) := by
    refine .of_arrival (by decide) fun i l hi => ?_
    have hnone : listening.findConnForPkt (fun _ => 1) 80 1000 = none := by decide
    exact absurd (hnone.symm.trans hi) (by simp)
  have hack : Orderly halfOpen ((clientSegment flagAck 101 8).arrival 0) := by
    refine .of_arrival (by decide) fun i l hi hpar => ?_
    have hone : halfOpen.findConnForPkt (fun _ => 1) 80 1000 = some 1 := by decide
    obtain rfl := some.inj (hone.symm.trans hi)
    obtain rfl := some.inj ((show (halfOpen.conns 1).parentListenCid = some 0 from rfl).symm.trans hpar)
    decide
  have hrun : ∃ m, Runs step Orderly (.initial openNet) [.listen 80,
      (clientSegment flagSyn 100 0).arrival 7,(clientSegment flagAck 101 8).arrival 0] m ∧
      (m.conns 0).acceptQ = [1] := by
    refine ⟨_,.cons hlisten rfl (.cons hsyn (t := halfOpen) (by rw [step_arrival _ _ _ (by decide)]; rfl)
      (.cons hack (by rw [step_arrival _ _ _ (by decide)]; rfl) (.nil _))),?_⟩
    decide
  obtain ⟨m,hrun,hq⟩ := hrun
  exact ⟨m,hrun,hq,(queues_correct hrun).1⟩

theorem stale_parent_queued : ¬ ∀ (n : Net) (es : List Event) (m : Machine),
    Runs step (fun _ _ => True) (.initial n) es m → Queues m := by
  intro h
  have hrun : ∃ m, Runs step (fun _ _ => True) (.initial openNet) [.listen 80,
      (clientSegment flagSyn 100 0).arrival 7,.close 0,.listen 81,(clientSegment flagAck 101 8).arrival 0] m ∧
      Listens (m.conns 0) ∧ 1 ∈ (m.conns 0).acceptQ ∧ (m.conns 1).localPort ≠ (m.conns 0).localPort := by
    refine ⟨_,.cons trivial rfl (.cons trivial (by rw [step_arrival _ _ _ (by decide)]; rfl) (.cons trivial rfl
      (.cons trivial rfl (.cons trivial (by rw [step_arrival _ _ _ (by decide)]; rfl) (.nil _))))),⟨rfl,rfl⟩,?_,?_⟩
    · decide
    · decide
  obtain ⟨m,hrun,hl,hi,hport⟩ := hrun
  exact hport ((h _ _ _ hrun).child 0 hl 1 hi).localPort

end VibeOS.Tcp

import VibeOS.Tcp.Sockets

/-! Which slots of the connection table descriptors and calls refer to, and why none of them is
given to another connection while they do. -/
namespace VibeOS.Tcp
open Function Int
open VibeOS.Storage

variable {m m' : Machine} {i j k l : Cid} {c c' d : Conn} {e : Event} {s : Segment} {a : Answer}
  {poll : UInt64} {n n' : Net}

lemma acceptData_userClosed (c : Conn) (s : Segment) : (acceptData c s).userClosed = c.userClosed := by
  unfold acceptData
  split <;> rfl

lemma acceptFin_userClosed (c : Conn) (s : Segment) : (acceptFin c s).userClosed = c.userClosed := by
  unfold acceptFin
  split <;> rfl

lemma Transmits.userClosed (h : Transmits c c') : c'.userClosed = c.userClosed := by
  obtain ⟨_,_,_,rfl⟩ := h
  rfl

lemma handleSynced_userClosed (h : handleSynced poll c s n = some (c',n')) : c'.userClosed = c.userClosed := by
  obtain ⟨d,⟨_,_,_,_,_,rfl⟩,hsend⟩ := handleSynced_cases h
  obtain ⟨st,heq,-⟩ := ackTransitions_eq (acceptFin (acceptData _ s) s)
  rw [hsend.userClosed,heq]
  exact (acceptFin_userClosed _ s).trans (acceptData_userClosed _ s)

lemma SlotMove.userClosed (h : SlotMove m e i c') (hu : c'.userClosed = true) : (m.conns i).userClosed = true ∨
    ∃ cid, e = .close cid ∧ m.getConn cid = some i := by
  cases h with
  | kept | pops | leaves | receives | resets | answers | promoted | pushed => exact .inl hu
  | wiped | connects | listens | releases | flushes | child | abandoned => cases hu
  | sends now get state put_le fits drain =>
    rw [(tcpDrainTx_transmits drain).userClosed] at hu
    exact .inl hu
  | closes now get | marks now get => exact .inr ⟨_,now,get⟩
  | polls now poll =>
    rcases pollConn_cases poll with hs | ⟨-,rfl⟩
    · exact .inl (hs.userClosed ▸ hu)
    · cases hu
  | synced arrives rst ack state handle => exact .inl (handleSynced_userClosed handle ▸ hu)

/-- The connection is not one that a listener has still to hand out. -/
structure Detached (c : Conn) : Prop where
  valid : c.valid = true
  parent : c.parentListenCid = none
  state : c.state ≠ .synReceived

lemma Detached.step (hc : Detached (m.conns i)) (h : step m e = some (a,m')) :
    (Detached (m'.conns i) ∧ ((m.conns i).state ≠ .listen → (m'.conns i).state ≠ .listen)) ∨
      Frees m e i ∧ m'.conns i = Conn.zero := by
  have hfree {P : Prop} (free : m.freeSlot = some i) : P :=
    absurd (freeSlot_free free) (by simp [hc.valid])
  have hmove := step_identity h i
  generalize m'.conns i = c' at hmove
  rcases hmove with hs | hs
  · exact .inl ⟨⟨hs.valid.trans hc.valid,hs.parent.trans hc.parent,fun h' => hc.state (hs.synReceived.mp h')⟩,
      fun hl h' => hl (hs.listen.mp h')⟩
  cases hs with
  | freed why => exact .inr ⟨why,rfl⟩
  | connects now free | listens now free | child now bytes new listener free => exact hfree free
  | pops now get state queue parent =>
    exact .inl ⟨⟨hc.valid,parent.elim (fun h => h.trans hc.parent) fun h => h.1,hc.state⟩,id⟩
  | leaves => exact .inl ⟨⟨hc.valid,rfl,hc.state⟩,id⟩
  | resets => exact .inl ⟨⟨hc.valid,hc.parent,by simp⟩,fun _ => by simp⟩
  | promoted promotes => exact absurd promotes.state hc.state
  | pushed => exact .inl ⟨⟨hc.valid,hc.parent,hc.state⟩,id⟩

/-- The queues are in order, and `tcp_close` is only called on what no listener has. -/
structure Owners (m : Machine) : Prop where
  lined : Lined m
  root : ∀ i, Listens (m.conns i) → (m.conns i).parentListenCid = none
  closed : ∀ i, (m.conns i).userClosed = true → Detached (m.conns i)

lemma Owners.not_waits (hm : Owners m) (hd : Detached (m.conns i)) : ¬ Waits m i := by
  rintro ⟨l,hl,hi⟩
  have hp := (hm.lined.child l hl i hi).2.1
  rw [hd.parent] at hp
  cases hp

lemma root_step (hm : ∀ i, Listens (m.conns i) → (m.conns i).parentListenCid = none)
    (h : step m e = some (a,m')) (i : Cid) (hl : Listens (m'.conns i)) : (m'.conns i).parentListenCid = none := by
  have hmove := step_identity h i
  generalize m'.conns i = c' at hmove hl
  rcases hmove with hs | hs
  · exact hs.parent.trans (hm i (hs.listens.mp hl))
  cases hs with
  | freed => exact absurd hl.valid (by simp [Conn.zero])
  | connects => exact absurd hl.state (by simp [connected])
  | listens | leaves => rfl
  | child => exact absurd hl.state (by simp [childOf])
  | pops now get state queue parent => exact parent.elim (fun h => h.trans (hm i ⟨hl.valid,hl.state⟩)) fun h => h.1
  | resets | promoted => exact absurd hl.state (by simp)
  | pushed => exact hm i ⟨hl.valid,hl.state⟩

lemma Owners.step (hm : Owners m) (hclose : ∀ cid i, e = .close cid → m.getConn cid = some i → Detached (m.conns i))
    (h : step m e = some (a,m')) : Owners m' where
  lined := by
    refine hm.lined.step ⟨fun cid i he hg hw => ?_,fun he i hw hu => ?_⟩ h
    · exact absurd hw (hm.not_waits (hclose cid i he hg))
    · exact hm.not_waits (hm.closed i hu.1) hw
  root := root_step hm.root h
  closed i hu := by
    have hd : Detached (m.conns i) := by
      rcases (step_slot h i).userClosed hu with hu | ⟨cid,he,hg⟩
      · exact hm.closed i hu
      · exact hclose cid i he hg
    rcases hd.step h with ⟨hd,-⟩ | ⟨-,hz⟩
    · exact hd
    · rw [hz] at hu
      cases hu

lemma Owners.frees (hm : Owners m) (hd : Detached (m.conns i)) (why : Frees m e i) :
    (∃ cid, e = .close cid ∧ m.getConn cid = some i ∧
      ((m.conns i).reset = true ∨ (m.conns i).state = .listen ∨ (m.conns i).state = .closed)) ∨
    e = .poll ∧ (m.conns i).userClosed = true ∧ (m.conns i).state = .closed ∧ (m.conns i).rxLen = 0 := by
  cases why with
  | free was => exact absurd (freeSlot_free was) (by simp [hd.valid])
  | released now get why => exact .inl ⟨_,now,get,why⟩
  | flushed now get state queued => exact absurd ⟨_,⟨(getConn_valid get).1,state⟩,queued⟩ (hm.not_waits hd)
  | reaped now closed => exact .inr ⟨now,closed⟩
  | abandoned promotes => exact absurd promotes.state hd.state

lemma tcpConnect_value (m : Machine) (dst : Ip) (port : UInt16) (isn : UInt32) :
    (tcpConnect m dst port isn).1 < 0 ∨ ∃ i, m.freeSlot = some i ∧ (tcpConnect m dst port isn).1 = i.val ∧
      (tcpConnect m dst port isn).2.conns i = connected m dst port isn := by
  unfold tcpConnect
  cases hf : m.freeSlot with
  | none => exact .inl (negSucc_lt_zero 0)
  | some i =>
    dsimp only
    generalize (if m.nextEphPort + 1 = 0 then 49152 else m.nextEphPort + 1) = port
    split_ifs
    · exact .inr ⟨i,rfl,rfl,update_self ..⟩
    · exact .inl (negSucc_lt_zero 0)

lemma tcpListen_value (m : Machine) (port : UInt16) : (tcpListen m port).1 < 0 ∨ ∃ i, m.freeSlot = some i ∧
    (tcpListen m port).1 = i.val ∧
    (tcpListen m port).2.conns i = { Conn.fresh with localPort := port, state := .listen } := by
  unfold tcpListen
  split_ifs
  · exact .inl (negSucc_lt_zero 1)
  · exact .inl (negSucc_lt_zero 1)
  · cases hf : m.freeSlot with
    | none => exact .inl (negSucc_lt_zero 0)
    | some i => exact .inr ⟨i,rfl,rfl,update_self ..⟩

variable {cid : ℤ}

lemma tcpAccept_child {q : List Cid} (hg : m.getConn cid = some l) (hst : (m.conns l).state = .listen)
    (hq : (m.conns l).acceptQ = k :: q) (hv : (m.conns k).valid = true) (hne : k ≠ l) :
    (tcpAccept m cid).2.conns k = { m.conns k with parentListenCid := none } := by
  unfold tcpAccept
  rw [hg]
  dsimp only
  rw [if_neg (not_not.mpr hst),hq]
  dsimp only
  rw [setConn_conns,update_of_ne hne,if_pos hv,setConn_conns,update_self]

lemma tcpRecv_frame (cap : UInt32) (hk : m.getConn cid ≠ some k) :
    (tcpRecv m cid cap).2.2.conns k = m.conns k := by
  unfold tcpRecv
  cases hg : m.getConn cid with
  | none => rfl
  | some i =>
    have hne : k ≠ i := by
      rintro rfl
      exact hk hg
    dsimp only
    generalize (if (m.conns i).rxLen < cap then (m.conns i).rxLen else cap) = take
    split_ifs
    · rfl
    · rfl
    all_goals exact update_of_ne hne _ _

lemma tcpSend_frame {data : ℕ → UInt8} {len : UInt32} {r : ℤ}
    (h : tcpSend m cid data len = some (r,m')) (hk : m.getConn cid ≠ some k) : m'.conns k = m.conns k := by
  unfold tcpSend at h
  cases hg : m.getConn cid with
  | none =>
    rw [hg] at h
    cases h
    rfl
  | some i =>
    have hne : k ≠ i := by
      rintro rfl
      exact hk hg
    rw [hg] at h
    dsimp only at h
    generalize (if len < UInt32.ofNat bufSize - (m.conns i).txLen then len
      else UInt32.ofNat bufSize - (m.conns i).txLen) = put at h
    split_ifs at h
    · cases h
      rfl
    · cases h
      rfl
    · obtain ⟨⟨c,n⟩,-,hm⟩ := Option.bind_eq_some_iff.mp h
      cases hm
      exact update_of_ne hne _ _

lemma tcpClose_frame {r : ℤ} (h : tcpClose m cid = some (r,m'))
    (hl : ∀ i, m.getConn cid = some i → (m.conns i).state ≠ .listen) (hk : m.getConn cid ≠ some k) :
    m'.conns k = m.conns k := by
  unfold tcpClose at h
  cases hg : m.getConn cid with
  | none =>
    rw [hg] at h
    cases h
    rfl
  | some i =>
    have hne : k ≠ i := by
      rintro rfl
      exact hk hg
    rw [hg] at h
    dsimp only at h
    split_ifs at h
    · cases h
      exact update_of_ne hne _ _
    split at h
    next hst => exact absurd hst (hl i hg)
    next =>
      obtain ⟨⟨c,n⟩,-,hm⟩ := Option.bind_eq_some_iff.mp h
      cases hm
      exact update_of_ne hne _ _
    next =>
      obtain ⟨⟨c,n⟩,-,hm⟩ := Option.bind_eq_some_iff.mp h
      cases hm
      exact update_of_ne hne _ _
    next =>
      cases h
      exact update_of_ne hne _ _
    next =>
      cases h
      exact update_of_ne hne _ _

end VibeOS.Tcp

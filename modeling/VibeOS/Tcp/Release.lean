import VibeOS.Tcp.Holders
import VibeOS.Tcp.EndOfStream

/-! Connections that `tcp_close` was called on: their states, and the way to a free slot. -/
namespace VibeOS.Tcp
open Function
open VibeOS.Storage

variable {m m' : Machine} {i j k l : Cid} {c c' d : Conn} {e : Event} {s : Segment} {a : Answer}
  {poll : UInt64} {n n' : Net} {R R' : Prop}

inductive Ending : TcpState → Prop
  | finWait1 : Ending .finWait1
  | finWait2 : Ending .finWait2
  | lastAck : Ending .lastAck
  | timeWait : Ending .timeWait
  | closed : Ending .closed

/-- The slot would take payload of the segment. -/
def Fills (c : Conn) (s : Segment) : Prop := s.dataLen ≠ 0 ∧ s.seq = c.rcvNxt ∧ c.rxLen ≠ UInt32.ofNat bufSize

/-- What holds of a connection once it was closed; `R` tells whether a descriptor refers to it. -/
structure Closing (R : Prop) (c : Conn) : Prop where
  state : c.userClosed = true → Ending c.state
  read : c.userClosed = true → ¬ R → c.rxLen = 0

lemma Closing.mono {c : Conn} (h : Closing R c) (hR : R → R') : Closing R' c :=
  ⟨h.state,fun hu hR' => h.read hu fun hr => hR' (hR hr)⟩

lemma Closing.zero : Closing R Conn.zero := ⟨fun h => (by cases h),fun h => (by cases h)⟩

lemma Closing.open (h : c.userClosed = false) : Closing R c :=
  ⟨fun hu => absurd hu (by simp [h]),fun hu => absurd hu (by simp [h])⟩

lemma Acknowledges.closing (h : Acknowledges c d) (hc : Closing R c) : Closing R d := by
  obtain ⟨_,_,_,_,_,rfl⟩ := h
  exact ⟨hc.state,hc.read⟩

lemma Acknowledges.fills (h : Acknowledges c d) (hf : Fills d s) : Fills c s := by
  obtain ⟨_,_,_,_,_,rfl⟩ := h
  exact hf

lemma Acknowledges.userClosed (h : Acknowledges c d) : d.userClosed = c.userClosed := by
  obtain ⟨_,_,_,_,_,rfl⟩ := h
  rfl

lemma acceptData_rxLen (h : ¬ Fills c s) : (acceptData c s).rxLen = c.rxLen := by
  unfold acceptData
  split
  next hnext =>
    have hfull : c.rxLen = UInt32.ofNat bufSize := by
      by_contra hroom
      exact h ⟨hnext.1,hnext.2,hroom⟩
    dsimp only
    rw [hfull,UInt32.sub_self,if_neg UInt32.not_lt_zero,UInt32.add_zero]
  next => rfl

lemma acceptData_state (c : Conn) (s : Segment) : (acceptData c s).state = c.state := by
  unfold acceptData
  split <;> rfl

lemma acceptData_closing (hc : Closing R c) (hno : c.userClosed = true → ¬ R → ¬ Fills c s) :
    Closing R (acceptData c s) := by
  refine ⟨fun hu => ?_,fun hu hR => ?_⟩
  all_goals rw [acceptData_userClosed] at hu
  · rw [acceptData_state]
    exact hc.state hu
  · rw [acceptData_rxLen (hno hu hR)]
    exact hc.read hu hR

lemma acceptFin_closing (hc : Closing R c) (s : Segment) : Closing R (acceptFin c s) := by
  refine ⟨fun hu => ?_,fun hu hR => ?_⟩
  all_goals rw [acceptFin_userClosed] at hu
  · have hst := hc.state hu
    unfold acceptFin
    split
    · dsimp only
      generalize c.state = st at hst
      cases hst with
      | finWait1 => cases c.finAcked <;> constructor
      | finWait2 | timeWait => exact .timeWait
      | lastAck => exact .lastAck
      | closed => exact .closed
    · exact hst
  · rw [acceptFin_rxLen]
    exact hc.read hu hR

lemma ackTransitions_closing (hc : Closing R c) : Closing R (ackTransitions c) := by
  obtain ⟨st,heq,hst⟩ := ackTransitions_eq c
  rw [heq]
  refine ⟨fun hu => ?_,hc.read⟩
  rcases hst with rfl | ⟨-,rfl | rfl⟩
  · exact hc.state hu
  · exact .finWait2
  · exact .closed

lemma Transmits.closing (hs : Transmits c c') (h : Closing R c) : Closing R c' := by
  obtain ⟨_,_,_,rfl⟩ := hs
  exact ⟨h.state,h.read⟩

lemma handleSynced_closing (hc : Closing R c) (hno : c.userClosed = true → ¬ R → ¬ Fills c s)
    (h : handleSynced poll c s n = some (c',n')) : Closing R c' := by
  obtain ⟨d,hack,hsend⟩ := handleSynced_cases h
  have hd : Closing R (acceptData d s) := by
    refine acceptData_closing (hack.closing hc) fun hu hR hf => ?_
    rw [hack.userClosed] at hu
    exact hno hu hR (hack.fills hf)
  exact hsend.closing (ackTransitions_closing (acceptFin_closing hd s))

lemma SlotMove.closing (hc : Closing R (m.conns i)) (hclose : ∀ cid, e = .close cid → m.getConn cid ≠ some i)
    (hno : ∀ s, Arrives m e i s → (m.conns i).userClosed = true → ¬ R → ¬ Fills (m.conns i) s)
    (h : SlotMove m e i c') : Closing R c' := by
  cases h with
  | kept => exact hc
  | wiped | releases | flushes | abandoned => exact .zero
  | connects | listens | child => exact .open rfl
  | pops | leaves | pushed => exact ⟨hc.state,hc.read⟩
  | sends now get state put_le fits drain =>
    exact (tcpDrainTx_transmits drain).closing ⟨fun hu => hc.state hu,fun hu hR => hc.read hu hR⟩
  | receives now get le =>
    refine ⟨hc.state,fun hu hR => ?_⟩
    have h0 := hc.read hu hR
    dsimp only
    rw [h0] at le ⊢
    rw [UInt32.le_zero_iff.mp le,UInt32.sub_self]
  | closes now get | marks now get => exact absurd get (hclose _ now)
  | polls now poll =>
    rcases pollConn_cases poll with hs | ⟨-,rfl⟩
    · exact hs.closing hc
    · exact .zero
  | resets => exact ⟨fun _ => .closed,hc.read⟩
  | answers arrives state number =>
    refine .open ?_
    by_contra hu
    have hst := hc.state (by simpa using hu)
    rw [state] at hst
    cases hst
  | promoted promotes =>
    refine .open ?_
    by_contra hu
    have hst := hc.state (by simpa using hu)
    rw [promotes.state] at hst
    cases hst
  | synced arrives rst ack state handle => exact handleSynced_closing hc (hno _ arrives) handle

lemma SlotMove.marked (hu : (m.conns i).userClosed = true) (hv : (m.conns i).valid = true)
    (h : SlotMove m e i c') : (c'.userClosed = true ∧ c'.valid = true) ∨ c' = Conn.zero := by
  have hfree {P : Prop} (free : m.freeSlot = some i) : P := absurd (freeSlot_free free) (by simp [hv])
  cases h with
  | kept | pops | leaves | receives | resets | answers | promoted | pushed => exact .inl ⟨hu,hv⟩
  | wiped | releases | flushes | abandoned => exact .inr rfl
  | connects now free | listens now free | child now bytes new listener free => exact hfree free
  | sends now get state put_le fits drain =>
    have hs := tcpDrainTx_transmits drain
    exact .inl ⟨hs.userClosed.trans hu,hs.stays.valid.trans hv⟩
  | closes now get from_ drain =>
    have hs := tcpDrainTx_transmits drain
    exact .inl ⟨hs.userClosed,hs.stays.valid.trans hv⟩
  | marks => exact .inl ⟨rfl,hv⟩
  | polls now poll =>
    rcases pollConn_cases poll with hs | ⟨-,rfl⟩
    · exact .inl ⟨hs.userClosed.trans hu,hs.stays.valid.trans hv⟩
    · exact .inr rfl
  | synced arrives rst ack state handle =>
    exact .inl ⟨(handleSynced_userClosed handle).trans hu,(handleSynced_stays handle).valid.trans hv⟩

/-- The connection is not in its handshake, or is released at once. -/
def Shut (c : Conn) : Prop := c.reset = true ∨ c.state ≠ .synSent ∧ c.state ≠ .synReceived

def Clean (c : Conn) : Prop :=
  c.reset = true ∨ c.state = .listen ∨ c.state = .closed ∨ (c.state ≠ .synSent ∧ c.state ≠ .synReceived) ∧ c.rxLen = 0

lemma Clean.shut (h : Clean c) : Shut c := by
  rcases h with h | h | h | h
  · exact .inl h
  · exact .inr (by simp [h])
  · exact .inr (by simp [h])
  · exact .inr h.1

lemma tcpClose_result {cid r : ℤ} (hg : m.getConn cid = some i) (h : tcpClose m cid = some (r,m')) :
    m'.conns i = Conn.zero ∨ ((m'.conns i).userClosed = true ∧ (m'.conns i).valid = true) ∧
      (m'.conns i).rxLen = (m.conns i).rxLen ∧ (Shut (m.conns i) → Ending (m'.conns i).state) ∧ ¬ (m.conns i).reset = true ∧
      (m.conns i).state ≠ .listen ∧ (m.conns i).state ≠ .closed := by
  have hv := (getConn_valid hg).1
  unfold tcpClose at h
  rw [hg] at h
  dsimp only at h
  split_ifs at h with hr
  · cases h
    exact .inl (update_self ..)
  split at h
  next =>
    cases h
    exact .inl (update_self ..)
  next hst =>
    obtain ⟨⟨c,n⟩,hd,hm⟩ := Option.bind_eq_some_iff.mp h
    cases hm
    obtain ⟨_,_,_,rfl⟩ := tcpDrainTx_transmits hd
    rw [setConn_conns,update_self]
    exact .inr ⟨⟨rfl,hv⟩,rfl,fun _ => .finWait1,hr,by simp [hst],by simp [hst]⟩
  next hst =>
    obtain ⟨⟨c,n⟩,hd,hm⟩ := Option.bind_eq_some_iff.mp h
    cases hm
    obtain ⟨_,_,_,rfl⟩ := tcpDrainTx_transmits hd
    rw [setConn_conns,update_self]
    exact .inr ⟨⟨rfl,hv⟩,rfl,fun _ => .lastAck,hr,by simp [hst],by simp [hst]⟩
  next =>
    cases h
    exact .inl (update_self ..)
  next hl he hw hc =>
    cases h
    rw [setConn_conns,update_self]
    refine .inr ⟨⟨rfl,hv⟩,rfl,fun hs => ?_,hr,hl,hc⟩
    have hs' := hs.resolve_left hr
    dsimp only at hl he hw hc ⊢
    cases hst : (m.conns i).state <;> simp_all <;> constructor

lemma tcpClose_closing {cid r : ℤ} (hg : m.getConn cid = some i) (hs : Shut (m.conns i))
    (hread : ¬ R → Clean (m.conns i)) (h : tcpClose m cid = some (r,m')) : Closing R (m'.conns i) := by
  rcases tcpClose_result hg h with hz | ⟨-,hrx,hend,hr,hl,hc⟩
  · rw [hz]
    exact .zero
  · refine ⟨fun _ => hend hs,fun _ hR => ?_⟩
    rcases hread hR with h | h | h | h
    · exact absurd h hr
    · exact absurd h hl
    · exact absurd h hc
    · exact hrx.trans h.2

end VibeOS.Tcp

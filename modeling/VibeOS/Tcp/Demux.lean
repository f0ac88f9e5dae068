import VibeOS.Tcp.Identity

/-! To which slot a segment goes. -/
namespace VibeOS.Tcp
open VibeOS.Storage

variable {m m' : Machine} {i j k l : Cid} {c c' : Conn} {e : Event} {s : Segment}

structure Connected (c : Conn) : Prop where
  valid : c.valid = true
  state : c.state ≠ .listen

structure SameTuple (c c' : Conn) : Prop where
  remoteIp : c.remoteIp = c'.remoteIp
  localPort : c.localPort = c'.localPort
  remotePort : c.remotePort = c'.remotePort

/-- No two connections of the table have the same addresses and ports. -/
def Unambiguous (m : Machine) : Prop :=
  ∀ i j, Connected (m.conns i) → Connected (m.conns j) → SameTuple (m.conns i) (m.conns j) → i = j

/-- The tuple of the next `tcp_connect` is in use. -/
def Taken (m : Machine) (dst : Ip) (dstPort : UInt16) : Prop :=
  ∃ i, (m.conns i).state ≠ .listen ∧ Matches (m.conns i) dst m.nextEphPort dstPort

/-- The event neither opens a connection on a tuple in use nor resets a listener. -/
structure Undisputed (m : Machine) (e : Event) : Prop where
  connect : ∀ dst port isn, e = .connect dst port isn → m.freeSlot ≠ none →
    m.net.ok m.net.sent.length = true → ¬ Taken m dst port
  listener : ∀ i s, Arrives m e i s → (m.conns i).state = .listen → s.has flagRst = false

lemma Connected.of_stays (h : Stays c c') (hc : Connected c') : Connected c :=
  ⟨h.valid.symm.trans hc.valid,fun hl => hc.state (h.listen.mpr hl)⟩

lemma SameTuple.of_stays (h : Stays c c') : SameTuple c' c := ⟨h.remoteIp,h.localPort,h.remotePort⟩

/-- A connection after the step was there before, or is in the slot that was free and has a
tuple of its own. -/
lemma SlotChange.old_or_new (hok : Undisputed m e) (h : SlotChange m e k c') (hc : Connected c') :
    Connected (m.conns k) ∧ SameTuple c' (m.conns k) ∨
      m.freeSlot = some k ∧ ∀ j, Connected (m.conns j) → ¬ SameTuple (m.conns j) c' := by
  cases h with
  | freed => exact absurd hc.valid (by simp [Conn.zero])
  | connects now free sent =>
    refine .inr ⟨free,fun j hj ht => hok.connect _ _ _ now (by simp [free]) sent ⟨j,hj.state,hj.valid,?_,?_,?_⟩⟩
    · exact ht.localPort
    · exact ht.remotePort
    · exact ht.remoteIp
  | listens => exact absurd rfl hc.state
  | child now bytes new listener free =>
    exact .inr ⟨free,fun j hj ht => findConnForPkt_none new j ⟨hj.valid,ht.localPort,ht.remotePort,ht.remoteIp⟩⟩
  | pops now get state => exact absurd state hc.state
  | leaves => exact .inl ⟨⟨hc.valid,hc.state⟩,⟨rfl,rfl,rfl⟩⟩
  | resets arrives rst =>
    refine .inl ⟨⟨hc.valid,fun hl => ?_⟩,⟨rfl,rfl,rfl⟩⟩
    have hno := hok.listener _ _ arrives hl
    exact absurd (rst.symm.trans hno) (by simp)
  | promoted promotes => exact .inl ⟨⟨hc.valid,by simp [promotes.state]⟩,⟨rfl,rfl,rfl⟩⟩
  | pushed promotes parent ne listener => exact absurd listener.state hc.state

variable {a : Answer}

lemma step_old_or_new (hok : Undisputed m e) (h : step m e = some (a,m')) (k : Cid)
    (hc : Connected (m'.conns k)) : Connected (m.conns k) ∧ SameTuple (m'.conns k) (m.conns k) ∨
      m.freeSlot = some k ∧ ∀ j, Connected (m.conns j) → ¬ SameTuple (m.conns j) (m'.conns k) := by
  rcases step_identity h k with hs | hs
  · exact .inl ⟨.of_stays hs hc,.of_stays hs⟩
  · exact hs.old_or_new hok hc

lemma SameTuple.symm (h : SameTuple c c') : SameTuple c' c :=
  ⟨h.remoteIp.symm,h.localPort.symm,h.remotePort.symm⟩

lemma SameTuple.trans {d : Conn} (h : SameTuple c c') (h' : SameTuple c' d) : SameTuple c d :=
  ⟨h.remoteIp.trans h'.remoteIp,h.localPort.trans h'.localPort,h.remotePort.trans h'.remotePort⟩

lemma Unambiguous.step (hm : Unambiguous m) (hok : Undisputed m e) (h : step m e = some (a,m')) :
    Unambiguous m' := by
  intro i j hi hj ht
  rcases step_old_or_new hok h i hi with ⟨hi',hti⟩ | ⟨hfi,hnew⟩
  · rcases step_old_or_new hok h j hj with ⟨hj',htj⟩ | ⟨-,hnew⟩
    · exact hm i j hi' hj' ((hti.symm.trans ht).trans htj)
    · exact absurd (hti.symm.trans ht) (hnew i hi')
  · rcases step_old_or_new hok h j hj with ⟨hj',htj⟩ | ⟨hfj,-⟩
    · exact absurd (ht.trans htj).symm (hnew j hj')
    · exact Option.some.inj (hfi.symm.trans hfj)

lemma initial_unambiguous (n : Net) : Unambiguous (Machine.initial n) := fun _ _ hi =>
  absurd hi.valid (by simp [Machine.initial,Conn.zero])

lemma listener_stays (hok : Undisputed m e) (h : step m e = some (a,m')) (hl : Listens (m.conns l)) :
    Listens (m'.conns l) ∨ ∃ cid, e = .close cid := by
  rcases step_identity h l with hs | hs
  · exact .inl (hs.listens.mpr hl)
  · generalize m'.conns l = c' at hs
    cases hs with
    | freed why =>
      cases why with
      | free was => exact absurd (freeSlot_free was) (by simp [hl.valid])
      | released now | flushed now => exact .inr ⟨_,now⟩
      | reaped now closed => exact absurd (hl.state.symm.trans closed.2.1) (by simp)
      | abandoned promotes => exact absurd (hl.state.symm.trans promotes.state) (by simp)
    | connects now free
    | listens now free
    | child now bytes new listener free => exact absurd (freeSlot_free free) (by simp [hl.valid])
    | pops | leaves | pushed => exact .inl ⟨hl.valid,hl.state⟩
    | resets arrives rst =>
      have hno := hok.listener _ _ arrives hl.state
      exact absurd (rst.symm.trans hno) (by simp)
    | promoted promotes => exact absurd (hl.state.symm.trans promotes.state) (by simp)

lemma arrives_elsewhere (h : step m e = some (a,m')) (ha : Arrives m e i s)
    (hk : Connected (m.conns k)) (hki : k ≠ i) : m'.conns k = m.conns k := by
  have hmove := step_slot h k
  generalize m'.conns k = c' at hmove
  have hother {s' : Segment} (h' : Arrives m e k s') : c' = m.conns k := absurd (arrives_unique h' ha).1 hki
  have hno := ha
  obtain ⟨src,dst,p,isn,rfl,hs,hi⟩ := hno
  cases hmove with
  | kept => rfl
  | wiped free | child now bytes new listener free => exact absurd (freeSlot_free free) (by simp [hk.valid])
  | connects now
  | listens now
  | pops now
  | leaves now
  | sends now
  | receives now
  | closes now
  | marks now
  | releases now
  | flushes now
  | polls now => cases now
  | resets arrives | answers arrives | synced arrives => exact hother arrives
  | promoted promotes | abandoned promotes => exact hother promotes.arrives
  | pushed promotes parent ne listener => exact absurd listener.state hk.state

/-- In every state that is reached without those two events a tuple names one connection, a
listener ends only when it is closed, and a segment concerns no connection but its own. -/
theorem segments_demultiplexed {n : Net} {es : List Event} (h : Runs step Undisputed (.initial n) es m) :
    Unambiguous m ∧ ∀ e a m', Undisputed m e → step m e = some (a,m') →
      (∀ l, Listens (m.conns l) → Listens (m'.conns l) ∨ ∃ cid, e = .close cid) ∧
      ∀ i s, Arrives m e i s → ∀ k, Connected (m.conns k) → k ≠ i → m'.conns k = m.conns k := by
  refine ⟨?_,fun e a m' hok hstep => ⟨fun l hl => ?_,fun i s ha k hk hki => ?_⟩⟩
  · exact h.invariant (fun _ _ _ _ hm hok hstep => hm.step hok hstep) (initial_unambiguous n)
  · exact listener_stays hok hstep hl
  · exact arrives_elsewhere hstep ha hk hki

def openNet : Net := ⟨Bytes.zero,fun _ => true,[]⟩

def listening : Machine :=
  (Machine.initial openNet).setConn 0 { Conn.fresh with localPort := 80, state := .listen }

lemma listening_free (i : Cid) : (listening.conns i).state = .listen ∨ (listening.conns i).valid = false := by
  by_cases hi : i = 0
  · subst hi
    exact .inl rfl
  · refine .inr ?_
    unfold listening
    rw [setConn_conns,Function.update_of_ne hi]
    rfl

theorem segments_demultiplexed_connect : ∃ m, Runs step Undisputed (.initial openNet)
    [.listen 80,.connect Bytes.zero 80 7] m ∧ Unambiguous m := by
  have hlisten : Undisputed (.initial openNet) (.listen 80) := by
    refine ⟨fun _ _ _ h => (by cases h),fun i s ha => ?_⟩
    obtain ⟨_,_,_,_,h,-⟩ := ha
    cases h
  have hconnect : Undisputed listening (.connect Bytes.zero 80 7) := by
    refine ⟨fun dst port isn _ _ _ ⟨i,hst,hi⟩ => ?_,fun i s ha => ?_⟩
    · rcases listening_free i with h | h
      · exact hst h
      · exact absurd hi.valid (by simp [h])
    · obtain ⟨_,_,_,_,h,-⟩ := ha
      cases h
  have hrun : Runs step Undisputed (.initial openNet) [.listen 80,.connect Bytes.zero 80 7]
      (tcpConnect listening Bytes.zero 80 7).2 :=
    .cons hlisten rfl (.cons hconnect rfl (.nil _))
  exact ⟨_,hrun,(segments_demultiplexed hrun).1⟩

/-- A reset from port 0 of the address 0.0.0.0. -/
def strayReset : Packet where
  src := Bytes.zero
  dst := Bytes.zero
  segment := ⟨0,80,0,0,flagRst,0,[]⟩
  mssOption := false

theorem stray_reset_ends_listener : ¬ ∀ (n : Net) (es : List Event) (m : Machine),
    Runs step (fun _ _ => True) (.initial n) es m → Unambiguous m ∧ ∀ e a m', step m e = some (a,m') →
      ∀ l, Listens (m.conns l) → Listens (m'.conns l) ∨ ∃ cid, e = .close cid := by
  intro h
  have hrun : Runs step (fun _ _ => True) (.initial openNet) [.listen 80] listening :=
    .cons trivial rfl (.nil _)
  have hreset := (h _ _ _ hrun).2 (strayReset.arrival 0) _ _ (by rw [step_arrival _ _ _ (by decide)]; rfl) 0 ⟨rfl,rfl⟩
  obtain hl | ⟨cid,hc⟩ := hreset
  · exact absurd hl.state (by decide)
  · cases hc

end VibeOS.Tcp

import VibeOS.Tcp.AcceptQueue

/-! The connections that a listener counts against its backlog. -/
namespace VibeOS.Tcp
open VibeOS.Storage List

variable {m m' : Machine} {i j k l : Cid} {e : Event} {s : Segment} {a : Answer}

/-- Every connection that counts can still complete its handshake or be accepted. -/
def Recoverable (m : Machine) : Prop := ∀ i l, (m.conns i).valid = true →
  (m.conns i).parentListenCid = some l → Listens (m.conns l) →
    (m.conns i).state = .synReceived ∨ i ∈ (m.conns l).acceptQ

/-- The event neither resets a half-open child of a live listener nor opens a listener in a
slot that is still the parent of a connection past its handshake. -/
structure Unbroken (m : Machine) (e : Event) : Prop where
  reset : ∀ i s l, Arrives m e i s → s.has flagRst = true → (m.conns i).state = .synReceived →
    (m.conns i).parentListenCid = some l → ¬ Listens (m.conns l)
  listen : ∀ port l, e = .listen port → port ≠ 0 → m.findListenerForPort port = none → m.freeSlot = some l →
    ∀ i, (m.conns i).valid = true → (m.conns i).parentListenCid = some l → (m.conns i).state = .synReceived

/-- What the slot of a listener's child held before: a new child is half open and a promoted
one is in the queue. -/
lemma child_origin (h : step m e = some (a,m')) (hv : (m'.conns i).valid = true)
    (hpar : (m'.conns i).parentListenCid = some l) (hok : Unbroken m e) :
    (m'.conns i).state = .synReceived ∨ i ∈ (m'.conns l).acceptQ ∨ (m.conns i).valid = true ∧
      (m.conns i).parentListenCid = some l ∧ ((m.conns i).state = .synReceived → ¬ Listens (m.conns l) ∧
        ∃ s, Arrives m e i s) := by
  have hmove := step_identity h i
  generalize hc : m'.conns i = c' at hmove hv hpar
  rcases hmove with hs | hs
  · by_cases hst : (m.conns i).state = .synReceived
    · exact .inl (hs.synReceived.mpr hst)
    · exact .inr (.inr ⟨hs.valid.symm.trans hv,hs.parent.symm.trans hpar,fun h => absurd h hst⟩)
  cases hs with
  | freed => exact absurd hv (by simp [Conn.zero])
  | connects => exact absurd hpar (by simp [connected,Conn.fresh])
  | listens => exact absurd hpar (by simp [Conn.fresh])
  | child => exact .inl rfl
  | pops now get state queue parent =>
    rcases parent with rfl | ⟨rfl,-⟩
    · exact .inr (.inr ⟨hv,hpar,fun h => absurd (state.symm.trans h) (by simp)⟩)
    · cases hpar
  | leaves => cases hpar
  | resets arrives rst =>
    exact .inr (.inr ⟨hv,hpar,fun hst => ⟨hok.reset i _ l arrives rst hst hpar,_,arrives⟩⟩)
  | promoted promotes parent listener =>
    obtain rfl := Option.some.inj (parent.symm.trans hpar)
    rcases step_promotes promotes parent listener h with ⟨-,hq,-⟩ | ⟨-,hz⟩
    · refine .inr (.inl ?_)
      rw [hq]
      exact mem_append_right _ (mem_singleton_self i)
    · rw [hz] at hc
      rw [← hc] at hv
      exact absurd hv (by simp [Conn.zero])
  | pushed promotes parent ne listener =>
    exact .inr (.inr ⟨hv,hpar,fun h => absurd (listener.state.symm.trans h) (by simp)⟩)

lemma Recoverable.step (hm : Recoverable m) (hok : Unbroken m e) (h : step m e = some (a,m')) :
    Recoverable m' := by
  intro i l hv hpar hl
  rcases child_origin h hv hpar hok with hst | hq | ⟨hv₀,hpar₀,hhalf⟩
  · exact .inl hst
  · exact .inr hq
  have hqueued (was : Listens (m.conns l)) : i ∈ (m.conns l).acceptQ :=
    (hm i l hv₀ hpar₀ was).resolve_left fun hst => (hhalf hst).1 was
  cases step_listener h hl with
  | opened now free hport hnone queue =>
    have hst := hok.listen _ l now hport hnone free i hv₀ hpar₀
    obtain ⟨-,s,_,_,_,_,heq,-⟩ := hhalf hst
    rw [now] at heq
    cases heq
  | same was localPort queue =>
    rw [queue]
    exact .inr (hqueued was)
  | popped was localPort now get queue =>
    have hi := hqueued was
    rw [queue] at hi
    rcases List.mem_cons.mp hi with rfl | hi
    · -- the accepted connection has no parent any more
      subst now
      have hnone := (step_accepts get was.state queue h).2 hv₀
      exact absurd (hpar.symm.trans hnone) (by simp)
    · exact .inr hi
  | pushed was localPort promotes parent room queue =>
    rw [queue]
    exact .inr (mem_append_left _ (hqueued was))

lemma initial_recoverable (n : Net) : Recoverable (Machine.initial n) := fun i _ hv =>
  absurd hv (by simp [Machine.initial,Conn.zero])

/-- A listener that turns a SYN away for its backlog has a connection to accept or a handshake
that can complete. -/
lemma Recoverable.full (hm : Recoverable m) (hl : Listens (m.conns l)) (h : acceptQcap ≤ m.countListenerChildren l) :
    (m.conns l).acceptQ ≠ [] ∨ ∃ i, (m.conns i).valid = true ∧ (m.conns i).parentListenCid = some l ∧
      (m.conns i).state = .synReceived := by
  have hpos : 0 < m.countListenerChildren l := lt_of_lt_of_le (by decide) h
  obtain ⟨i,-,hi⟩ := List.countP_pos_iff.mp hpos
  simp only [Bool.and_eq_true,decide_eq_true_eq] at hi
  rcases hm i l hi.1 hi.2 hl with hst | hq
  · exact .inr ⟨i,hi.1,hi.2,hst⟩
  · exact .inl (ne_nil_of_mem hq)

/-- In every state that is reached by unbroken steps each slot that a live listener counts is
half open or in its queue. -/
theorem backlog_recoverable {n : Net} {es : List Event} (h : Runs step Unbroken (.initial n) es m) :
    Recoverable m ∧ ∀ l, Listens (m.conns l) → acceptQcap ≤ m.countListenerChildren l →
      (m.conns l).acceptQ ≠ [] ∨ ∃ i, (m.conns i).valid = true ∧ (m.conns i).parentListenCid = some l ∧
        (m.conns i).state = .synReceived := by
  have hm : Recoverable m := h.invariant (fun _ _ _ _ hm hok hstep => hm.step hok hstep) (initial_recoverable n)
  exact ⟨hm,fun l hl hfull => hm.full hl hfull⟩

theorem backlog_recoverable_syn : Recoverable halfOpen := by
  have hlisten : Unbroken (.initial openNet) (.listen 80) := by
    refine ⟨fun i s l ha => ?_,fun _ _ _ _ _ _ i hv => absurd hv (by simp [Machine.initial,Conn.zero])⟩
    obtain ⟨_,_,_,_,h,-⟩ := ha
    cases h
  have hsyn : Unbroken listening ((clientSegment flagSyn 100 0).arrival 7) := by
    refine ⟨fun i s l ha => ?_,fun _ _ h => (by cases h)⟩
    have hnone : listening.findConnForPkt (fun _ => 1) 80 1000 = none := by decide
    exact absurd (hnone.symm.trans (ha.of_arrival (by decide)).2) (by simp)
  have hrun : Runs step Unbroken (.initial openNet) [.listen 80,(clientSegment flagSyn 100 0).arrival 7] halfOpen :=
    .cons hlisten rfl (.cons hsyn (by rw [step_arrival _ _ _ (by decide)]; rfl) (.nil _))
  exact (backlog_recoverable hrun).1

theorem reset_child_counts : ¬ ∀ (n : Net) (es : List Event) (m : Machine),
    Runs step (fun _ _ => True) (.initial n) es m → Recoverable m := by
  intro h
  have hrun : ∃ m, Runs step (fun _ _ => True) (.initial openNet) [.listen 80,
      (clientSegment flagSyn 100 0).arrival 7,(clientSegment flagRst 101 0).arrival 0] m ∧
      Listens (m.conns 0) ∧ (m.conns 1).valid = true ∧ (m.conns 1).parentListenCid = some 0 ∧
      ¬ ((m.conns 1).state = .synReceived ∨ 1 ∈ (m.conns 0).acceptQ) := by
    refine ⟨_,.cons trivial rfl (.cons trivial (by rw [step_arrival _ _ _ (by decide)]; rfl)
      (.cons trivial (by rw [step_arrival _ _ _ (by decide)]; rfl) (.nil _))),⟨rfl,rfl⟩,rfl,rfl,?_⟩
    decide
  obtain ⟨m,hrun,hl,hv,hpar,hno⟩ := hrun
  exact hno (h _ _ _ hrun 1 0 hv hpar hl)

end VibeOS.Tcp

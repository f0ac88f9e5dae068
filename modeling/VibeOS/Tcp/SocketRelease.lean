import VibeOS.Tcp.Release
import VibeOS.Tcp.SocketIdentity

/-! Connections that were closed, and the slots that they give back. -/
namespace VibeOS.Tcp.Sockets
open Function List Option
open VibeOS.Storage

def Refers (k : Sockets) (i : Cid) : Prop :=
  ∃ t fd e h, k.fds t fd = some e ∧ e.handle = some h ∧ h.cid = i

/-- The call gives a connection up: it calls `tcp_close` and leaves no descriptor. -/
inductive GivesUp (k : Sockets) : Event → Cid → Prop
  | timeout {th t h turns} (call : k.calls th = some (t,.connecting h turns)) (late : connectTurns ≤ turns) :
      GivesUp k (.connectTurn th) h.cid
  | full {th t h turns} (call : k.calls th = some (t,.connecting h turns))
      (ready : tcpState k.tcp h.cid.val = .established) (full : k.freeFd t = none) :
      GivesUp k (.connectTurn th) h.cid
  | rejected {th t h copied} (call : k.calls th = some (t,.accepted h))
      (why : copied = false ∨ k.freeFd t = none) : GivesUp k (.acceptRest th copied) h.cid
  | close {t fd e h} (entry : k.entry t fd = some e) (some : e.handle = some h) (fd_ge : 3 ≤ fd) :
      GivesUp k (.close t fd) h.cid

/-- No connection is closed in its handshake, none is given up with data in its buffer, and none
that was given up gets any. -/
structure Tidy (k : Sockets) (e : Event) : Prop where
  givesUp : ∀ i, k.GivesUp e i → Clean (k.tcp.conns i)
  shutdown : ∀ t fd h, e = .shutdown t fd → k.entry t fd = some (.socket h) → Shut (k.tcp.conns h.cid)
  data : ∀ src dst p isn i s, e = .handle src dst p isn → Arrives k.tcp (.handle src dst p isn) i s →
    (k.tcp.conns i).userClosed = true → ¬ k.Refers i → ¬ Fills (k.tcp.conns i) s

/-- What holds of the connections that `tcp_close` was called on. -/
structure ReachesRelease (k : Sockets) : Prop where
  state : ∀ i, (k.tcp.conns i).valid = true → k.closed i = true → (k.tcp.conns i).state ≠ .established ∧
    (k.tcp.conns i).state ≠ .closeWait ∧ (k.tcp.conns i).state ≠ .synSent
  released : ∀ i, (k.tcp.conns i).valid = true → k.closed i = true → (k.tcp.conns i).state = .closed →
    ¬ k.Refers i → ∀ b k', k.step .poll = some (b,k') → (k'.tcp.conns i).valid = false

structure Ends (k : Sockets) : Prop where
  closing : ∀ i, Closing (k.Refers i) (k.tcp.conns i)
  valid : ∀ i, (k.tcp.conns i).userClosed = true → (k.tcp.conns i).valid = true
  noted : ∀ i, (k.tcp.conns i).valid = true → k.closed i = true → (k.tcp.conns i).userClosed = true

variable {k k' : Sockets} {m : Machine} {e : Tcp.Event} {a : Answer} {h : Handle} {i : Cid} {R R' : Prop}


lemma Ends.mono (hk : k.Ends) (htcp : k'.tcp = k.tcp) (hclosed : k'.closed = k.closed)
    (hR : ∀ i, k.Refers i → k'.Refers i) : k'.Ends where
  closing i := htcp ▸ (hk.closing i).mono (hR i)
  valid i := htcp ▸ hk.valid i
  noted i := htcp ▸ hclosed ▸ hk.noted i

lemma closed_become (hc : (k.become m).closed i = true) (hv : (m.conns i).valid = true) :
    (k.tcp.conns i).valid = true ∧ k.closed i = true := by
  cases hold : (k.tcp.conns i).valid <;> simp_all [become]

lemma Ends.step (hk : k.Ends) (now : Tcp.step k.tcp e = some (a,m))
    (hclose : ∀ cid, e = .close cid → k.tcp.getConn cid ≠ some i) :
    ((m.conns i).userClosed = true → (m.conns i).valid = true) ∧
      ((m.conns i).valid = true → (k.tcp.conns i).valid = true → k.closed i = true → (m.conns i).userClosed = true) := by
  refine ⟨fun hu => ?_,fun hv hv₀ hc₀ => ?_⟩
  · have hold : (k.tcp.conns i).userClosed = true := by
      rcases (step_slot now i).userClosed hu with hu | ⟨cid,he,hg⟩
      · exact hu
      · exact absurd hg (hclose cid he)
    rcases (step_slot now i).marked hold (hk.valid i hold) with ⟨-,hv⟩ | hz
    · exact hv
    · rw [hz] at hu
      cases hu
  · rcases (step_slot now i).marked (hk.noted i hv₀ hc₀) hv₀ with ⟨hu,-⟩ | hz
    · exact hu
    · rw [hz] at hv
      cases hv

lemma Ends.tcpCall (hk : k.Ends) (hclose : ∀ cid, e ≠ .close cid)
    (hdata : ∀ i s, Arrives k.tcp e i s → (k.tcp.conns i).userClosed = true → ¬ k.Refers i →
      ¬ Fills (k.tcp.conns i) s) (now : k.tcpCall e = some (a,k')) : k'.Ends := by
  obtain ⟨⟨b,m⟩,hstep,heq⟩ := Option.map_eq_some_iff.mp now
  cases heq
  have hno (i : Cid) (cid : ℤ) (he : e = .close cid) : k.tcp.getConn cid ≠ some i := absurd he (hclose cid)
  refine ⟨fun i => ?_,fun i => (hk.step hstep (hno i)).1,fun i hv hc => ?_⟩
  · exact (step_slot hstep i).closing (hk.closing i) (hno i) fun s => hdata i s
  · obtain ⟨hv₀,hc₀⟩ := closed_become hc hv
    exact (hk.step hstep (hno i)).2 hv hv₀ hc₀

lemma Ends.quiet (hk : k.Ends) (hclose : ∀ cid, e ≠ .close cid) (hseg : ∀ src dst p isn, e ≠ .handle src dst p isn)
    (now : k.tcpCall e = some (a,k')) : k'.Ends := by
  refine hk.tcpCall hclose (fun i s ha => ?_) now
  obtain ⟨src,dst,p,isn,rfl,-⟩ := ha
  exact absurd rfl (hseg src dst p isn)

lemma tcpClose_spec (now : k.tcpClose h = some (a,k')) : (∃ b, Tcp.step k.tcp (.close h.cid.val) = some (b,k'.tcp)) ∧
    k'.fds = k.fds ∧ ∀ i, i ≠ h.cid → (k'.tcp.conns i).valid = true → k'.closed i = true →
      (k.tcp.conns i).valid = true ∧ k.closed i = true := by
  obtain ⟨⟨b,m⟩,hstep,heq⟩ := Option.map_eq_some_iff.mp now
  cases heq
  refine ⟨⟨_,hstep⟩,rfl,fun i hi hv hc => ?_⟩
  obtain ⟨hv₀,hc₀⟩ := closed_become hc hv
  refine ⟨hv₀,?_⟩
  change update k.closed h.cid true i = true at hc₀
  rwa [update_of_ne hi] at hc₀

lemma getConn_invalid (h : m.getConn i.val = none) : (m.conns i).valid = false := by
  by_contra hv
  rw [getConn_of_valid (by simpa using hv)] at h
  cases h

lemma Ends.closes (hk : k.Ends) (hs : (k.tcp.conns h.cid).valid = true → Shut (k.tcp.conns h.cid))
    (hread : (k.tcp.conns h.cid).valid = true → ¬ R → Clean (k.tcp.conns h.cid))
    (now : Tcp.step k.tcp (.close h.cid.val) = some (a,m)) : Closing R (m.conns h.cid) ∧
      ((m.conns h.cid).userClosed = true ↔ (m.conns h.cid).valid = true) := by
  obtain ⟨⟨r,w⟩,hclose,hm⟩ := Option.bind_eq_some_iff.mp now
  obtain ⟨-,rfl⟩ := Prod.mk.inj (some.inj hm)
  cases hg : k.tcp.getConn h.cid.val with
  | none =>
    have hv := getConn_invalid hg
    have hu : (k.tcp.conns h.cid).userClosed = false := by
      by_contra hu
      rw [hk.valid h.cid (by simpa using hu)] at hv
      cases hv
    unfold Tcp.tcpClose at hclose
    rw [hg] at hclose
    cases hclose
    exact ⟨.open hu,by rw [hu,hv]⟩
  | some j =>
    obtain rfl := getConn_val hg
    have hv := (getConn_valid hg).1
    refine ⟨tcpClose_closing hg (hs hv) (hread hv) hclose,?_⟩
    rcases tcpClose_result hg hclose with hz | ⟨⟨hu,hv'⟩,-⟩
    · rw [hz]
      simp [Conn.zero]
    · rw [hu,hv']

lemma Ends.tcpClose (hk : k.Ends) {k₀ : Sockets} (htcp : k₀.tcp = k.tcp) (hclosed : k₀.closed = k.closed)
    (hR : ∀ i, i ≠ h.cid → k.Refers i → k₀.Refers i) (hs : (k.tcp.conns h.cid).valid = true → Shut (k.tcp.conns h.cid))
    (hread : (k.tcp.conns h.cid).valid = true → ¬ k₀.Refers h.cid → Clean (k.tcp.conns h.cid))
    (now : k₀.tcpClose h = some (a,k')) : k'.Ends := by
  obtain ⟨⟨b,hstep⟩,hfds,hnote⟩ := tcpClose_spec now
  rw [htcp] at hstep
  rw [htcp,hclosed] at hnote
  have hRefers (i : Cid) (hr : k₀.Refers i) : k'.Refers i := by
    unfold Refers
    rwa [hfds]
  have hown := hk.closes (R := k₀.Refers h.cid) hs hread hstep
  have hother {i : Cid} (hi : i ≠ h.cid) (cid : ℤ) (he : Tcp.Event.close h.cid.val = .close cid) :
      k.tcp.getConn cid ≠ some i := by
    cases he
    exact fun hg => hi (getConn_val hg)
  refine ⟨fun i => ?_,fun i hu => ?_,fun i hv hc => ?_⟩
  all_goals by_cases hi : i = h.cid
  · subst hi
    exact hown.1.mono (hRefers _)
  · refine Closing.mono ?_ fun hr => hRefers i (hR i hi hr)
    refine (step_slot hstep i).closing (hk.closing i) (hother hi) fun s ha => ?_
    obtain ⟨_,_,_,_,he,-⟩ := ha
    cases he
  · subst hi
    exact hown.2.mp hu
  · exact (hk.step hstep (hother hi)).1 hu
  · subst hi
    exact hown.2.mpr hv
  · obtain ⟨hv₀,hc₀⟩ := hnote i hi hv hc
    exact (hk.step hstep (hother hi)).2 hv hv₀ hc₀

lemma refers_setFd {t fd : ℕ} {e : Option FdEntry} (hfree : k.fds t fd = none) (hr : k.Refers i) :
    (k.setFd t fd e).Refers i := by
  obtain ⟨t',fd',e',h,he,hh,hi⟩ := hr
  refine ⟨t',fd',e',h,?_,hh,hi⟩
  have hne : ¬ (t' = t ∧ fd' = fd) := by
    rintro ⟨rfl,rfl⟩
    rw [hfree] at he
    cases he
  simp only [setFd,update_apply]
  split_ifs <;> simp_all

lemma refers_dropFd {t fd : ℕ} {e : FdEntry} (hfd : k.fds t fd = some e) (hne : ∀ h, e.handle = some h → h.cid ≠ i)
    (hr : k.Refers i) : (k.setFd t fd none).Refers i := by
  obtain ⟨t',fd',e',h,he,hh,hi⟩ := hr
  refine ⟨t',fd',e',h,?_,hh,hi⟩
  have hother : ¬ (t' = t ∧ fd' = fd) := by
    rintro ⟨rfl,rfl⟩
    obtain rfl := some.inj (hfd.symm.trans he)
    exact hne h hh hi
  simp only [setFd,update_apply]
  split_ifs <;> simp_all

lemma freeFd_free {t fd : ℕ} (h : k.freeFd t = some fd) : k.fds t fd = none := by
  simpa using find?_some h

variable {b : Option Answer}

lemma Ends.allocFd (hk : k.Ends) {t : ℕ} {e : FdEntry}
    (hs : k.freeFd t = none → (k.tcp.conns h.cid).valid = true → Clean (k.tcp.conns h.cid))
    (now : k.allocFd t h e = some (b,k')) : k'.Ends := by
  unfold Sockets.allocFd at now
  split at now
  next fd hfd =>
    cases now
    exact hk.mono rfl rfl fun i hr => refers_setFd (freeFd_free hfd) hr
  next hfull =>
    obtain ⟨⟨b,w⟩,hw,heq⟩ := Option.bind_eq_some_iff.mp now
    cases heq
    exact hk.tcpClose rfl rfl (fun _ _ => id) (fun hv => (hs hfull hv).shut) (fun hv _ => hs hfull hv) hw

lemma tcpState_valid {st : TcpState} (h : tcpState m i.val = st) (hv : (m.conns i).valid = true) :
    (m.conns i).state = st := by
  unfold tcpState at h
  rwa [getConn_of_valid hv] at h

lemma listen_clean {port : UInt16} (hw : k.tcpCall (.listen port) = some (a,k')) (hv : ¬ a.value < 0) :
    Clean (k'.tcp.conns (k'.handleOf a.value).cid) := by
  have hw' : some ((⟨(tcpListen k.tcp port).1,[]⟩ : Answer),k.become (tcpListen k.tcp port).2) = some (a,k') := hw
  obtain ⟨rfl,rfl⟩ := Prod.mk.inj (some.inj hw')
  rcases tcpListen_value k.tcp port with hneg | ⟨i,-,hval,hc⟩
  · exact absurd hneg hv
  rw [hval,handleOf_val]
  change Clean ((tcpListen k.tcp port).2.conns i)
  rw [hc]
  exact .inr (.inl rfl)

lemma step_ends {e : Event} (hk : k.Ends) (ok : k.Tidy e)
    (now : k.step e = some (b,k')) : k'.Ends := by
  cases e with
  | connect th t ip4 port isn =>
    unfold step at now
    dsimp only at now
    split_ifs at now
    · cases now
      exact hk
    obtain ⟨⟨a,w⟩,hw,now⟩ := Option.bind_eq_some_iff.mp now
    have hk₁ : w.Ends := hk.quiet (fun _ h => by cases h) (fun _ _ _ _ h => by cases h) hw
    dsimp only at now
    split_ifs at now
    · cases now
      exact hk₁
    · cases now
      exact hk₁.mono rfl rfl fun _ => id
  | connectTurn th =>
    unfold step at now
    dsimp only at now
    split at now
    next t h turns hcall =>
      have hk₀ : (k.setCall th none).Ends := hk.mono rfl rfl fun _ => id
      split_ifs at now with hlate
      · split at now
        next hst => exact hk₀.allocFd (h := h) (fun hfull _ => ok.givesUp _ (.full hcall hst hfull)) now
        next hst =>
          obtain ⟨⟨a,w⟩,hw,heq⟩ := Option.bind_eq_some_iff.mp now
          cases heq
          have hclean (hv : (k.tcp.conns h.cid).valid = true) : Clean (k.tcp.conns h.cid) :=
            .inr (.inr (.inl (tcpState_valid hst hv)))
          exact hk₀.tcpClose rfl rfl (fun _ _ => id) (fun hv => (hclean hv).shut) (fun hv _ => hclean hv) hw
        next =>
          cases now
          exact hk.mono rfl rfl fun _ => id
      · obtain ⟨⟨a,w⟩,hw,heq⟩ := Option.bind_eq_some_iff.mp now
        cases heq
        have hclean : Clean (k.tcp.conns h.cid) := ok.givesUp _ (.timeout hcall (by omega))
        exact hk₀.tcpClose rfl rfl (fun _ _ => id) (fun _ => hclean.shut) (fun _ _ => hclean) hw
    next => cases now
  | listen t port =>
    unfold step at now
    dsimp only at now
    split_ifs at now
    · cases now
      exact hk
    obtain ⟨⟨a,w⟩,hw,now⟩ := Option.bind_eq_some_iff.mp now
    have hk₁ : w.Ends := hk.quiet (fun _ h => by cases h) (fun _ _ _ _ h => by cases h) hw
    dsimp only at now
    split_ifs at now with hused hneg
    · cases now
      exact hk₁
    · cases now
      exact hk₁
    exact hk₁.allocFd (fun _ _ => listen_clean hw hneg) now
  | accept th t fd sigPending =>
    unfold step at now
    dsimp only at now
    split at now
    next => cases now
    next =>
    split at now
    next h hent =>
      obtain ⟨⟨a,w⟩,hw,now⟩ := Option.bind_eq_some_iff.mp now
      have hk₁ : w.Ends := hk.quiet (fun _ h => by cases h) (fun _ _ _ _ h => by cases h) hw
      dsimp only at now
      split_ifs at now
      all_goals
        cases now
        exact hk₁.mono rfl rfl fun _ => id
    next =>
      cases now
      exact hk
  | acceptRest th copied =>
    unfold step at now
    dsimp only at now
    split at now
    next t h hcall =>
      have hk₀ : (k.setCall th none).Ends := hk.mono rfl rfl fun _ => id
      split_ifs at now with hcopied
      · exact hk₀.allocFd (h := h) (fun hfull _ => ok.givesUp _ (.rejected hcall (.inr hfull))) now
      · obtain ⟨⟨a,w⟩,hw,heq⟩ := Option.bind_eq_some_iff.mp now
        cases heq
        have hclean : Clean (k.tcp.conns h.cid) := ok.givesUp _ (.rejected hcall (.inl (by simpa using hcopied)))
        exact hk₀.tcpClose rfl rfl (fun _ _ => id) (fun _ => hclean.shut) (fun _ _ => hclean) hw
    next => cases now
  | shutdown t fd =>
    unfold step at now
    dsimp only at now
    split at now
    next h hent =>
      obtain ⟨⟨a,w⟩,hw,heq⟩ := Option.bind_eq_some_iff.mp now
      cases heq
      have hrefers : k.Refers h.cid := ⟨t,fd.toNat,_,h,entry_some hent,rfl,rfl⟩
      exact hk.tcpClose rfl rfl (fun _ _ => id) (fun _ => ok.shutdown t fd h rfl hent) (fun _ hr => absurd hrefers hr) hw
    next =>
      cases now
      exact hk
  | read t fd cap | write t fd data len =>
    unfold step at now
    dsimp only at now
    split at now
    next h hent =>
      obtain ⟨⟨a,w⟩,hw,now⟩ := Option.bind_eq_some_iff.mp now
      have hk₁ : w.Ends := hk.quiet (fun _ h => by cases h) (fun _ _ _ _ h => by cases h) hw
      dsimp only at now
      split_ifs at now
      all_goals
        cases now
        exact hk₁
    next =>
      cases now
      exact hk
    next => cases now
    next =>
      cases now
      exact hk
  | close t fd =>
    unfold step at now
    dsimp only at now
    split at now
    next =>
      cases now
      exact hk
    next e hent =>
      split_ifs at now with hstd
      · cases now
        exact hk
      have hfd := entry_some hent
      split at now
      next hh =>
        cases now
        exact hk.mono rfl rfl fun i hr => refers_dropFd hfd (fun h he => by rw [hh] at he; cases he) hr
      next h hh =>
        obtain ⟨⟨a,w⟩,hw,heq⟩ := Option.bind_eq_some_iff.mp now
        cases heq
        have hclean : Clean (k.tcp.conns h.cid) := ok.givesUp _ (.close hent hh (by omega))
        have htcp : (k.setFd t fd.toNat none).tcp = k.tcp := rfl
        refine hk.tcpClose htcp rfl (fun i hi hr => refers_dropFd hfd (fun h' he => ?_) hr) (fun _ => hclean.shut)
          (fun _ _ => hclean) hw
        obtain rfl := some.inj (hh.symm.trans he)
        exact hi.symm
  | occupy t fd =>
    unfold step at now
    dsimp only at now
    split_ifs at now with hfree
    cases now
    exact hk.mono rfl rfl fun i hr => refers_setFd (by simpa using hfree.2) hr
  | handle src dst payload isn =>
    obtain ⟨⟨a,w⟩,hw,heq⟩ := Option.bind_eq_some_iff.mp now
    cases heq
    exact hk.tcpCall (fun _ h => by cases h) (fun i s ha => ok.data src dst payload isn i s rfl ha) hw
  | poll =>
    obtain ⟨⟨a,w⟩,hw,heq⟩ := Option.bind_eq_some_iff.mp now
    cases heq
    exact hk.quiet (fun _ h => by cases h) (fun _ _ _ _ h => by cases h) hw

lemma initial_ends (n : Net) : (initial n).Ends :=
  ⟨fun _ => .zero,fun _ hu => (by cases hu),fun _ hv => (by cases hv)⟩

lemma poll_releases (hv : (k.tcp.conns i).valid = true) (hu : (k.tcp.conns i).userClosed = true)
    (hst : (k.tcp.conns i).state = .closed) (hrx : (k.tcp.conns i).rxLen = 0) (now : k.step .poll = some (b,k')) :
    (k'.tcp.conns i).valid = false := by
  obtain ⟨⟨a,w⟩,hw,heq⟩ := Option.bind_eq_some_iff.mp now
  cases heq
  obtain ⟨m,hpoll,hm⟩ := Option.bind_eq_some_iff.mp (tcpCall_conns hw)
  obtain ⟨-,rfl⟩ := Prod.mk.inj (some.inj hm)
  obtain ⟨n,n',hp⟩ := (pollFrom_spec (nodup_finRange _) hpoll i).1 (mem_finRange i)
  change pollConn _ (k.tcp.conns i) n = _ at hp
  unfold pollConn at hp
  rw [if_neg (by simp [hv]),if_pos ⟨hu,hst,hrx⟩] at hp
  obtain ⟨heq,-⟩ := Prod.mk.inj (some.inj hp)
  rw [← heq]
  rfl

lemma Ends.reaches (hk : k.Ends) : k.ReachesRelease where
  state i hv hc := by
    have hst := (hk.closing i).state (hk.noted i hv hc)
    generalize (k.tcp.conns i).state = st at hst
    cases hst <;> simp
  released i hv hc hst hr b k' now := by
    have hu := hk.noted i hv hc
    exact poll_releases hv hu hst ((hk.closing i).read hu hr) now

/-- In a tidy run every connection that was closed is on its way to a free slot. -/
theorem closed_connections_released {n : Net} {es : List Event} (run : Runs step Tidy (initial n) es k) :
    k.ReachesRelease :=
  (run.invariant (fun _ _ _ _ hk ok now => step_ends hk ok now) (initial_ends n)).reaches

theorem closed_connections_released_reset : ∃ k, Runs step Tidy (initial openNet)
    [.connect 0 0 0x01010101 80 7,arrival (serverSegment flagRst 0 0) 0,.connectTurn 0] k ∧
      (k.tcp.conns 0).valid = false ∧ k.ReachesRelease := by
  have hopen {k : Sockets} {e : Event} (hu : ∀ i, (k.tcp.conns i).userClosed = false)
      (hgive : ∀ i, ¬ k.GivesUp e i) (hshut : ∀ t fd, e ≠ .shutdown t fd) : k.Tidy e :=
    ⟨fun i h => absurd h (hgive i),fun t fd h he => absurd he (hshut t fd),
      fun src dst p isn i s he ha h => absurd h (by simp [hu])⟩
  obtain ⟨k,run,hv⟩ : ∃ k, Runs step Tidy (initial openNet)
      [.connect 0 0 0x01010101 80 7,arrival (serverSegment flagRst 0 0) 0,.connectTurn 0] k ∧
        (k.tcp.conns 0).valid = false := by
    refine ⟨_,.cons (hopen (fun _ => rfl) (fun i h => ?_) fun t fd h => ?_) rfl (.cons
      (hopen (by decide) (fun i h => ?_) fun t fd h => ?_) (by rw [step_arrival _ _ _ (by decide)]; rfl) (.cons
      (hopen (by decide) (fun i h => ?_) fun t fd h => ?_) rfl (.nil _))),rfl⟩
    · cases h
    · cases h
    · cases h
    · cases h
    · cases h with
      | timeout call late =>
        cases call
        exact absurd late (by decide)
      | full call ready =>
        cases call
        cases ready
    · cases h
  exact ⟨k,run,hv,closed_connections_released run⟩

lemma connect_waits {th t j : ℕ} (n : ℕ) (hcall : k.calls th = some (t,.connecting h j))
    (hst : tcpState k.tcp h.cid.val = .synSent) (hn : j + n ≤ connectTurns) :
    ∃ k', Runs step (fun _ _ => True) k (replicate n (.connectTurn th)) k' ∧ k'.tcp = k.tcp ∧
      k'.closed = k.closed ∧ k'.calls th = some (t,.connecting h (j + n)) := by
  induction n generalizing k j with
  | zero => exact ⟨k,.nil k,rfl,rfl,hcall⟩
  | succ n ih =>
    have hnow : k.step (.connectTurn th) = some (none,k.setCall th (some (t,.connecting h (j + 1)))) := by
      unfold step
      dsimp only
      rw [hcall]
      dsimp only
      rw [if_pos (by omega),hst]
    have hcall' : (k.setCall th (some (t,.connecting h (j + 1)))).calls th = some (t,.connecting h (j + 1)) :=
      update_self ..
    obtain ⟨k',run,htcp,hclosed,hk'⟩ := ih hcall' hst (by omega)
    refine ⟨k',.cons trivial hnow run,htcp,hclosed,?_⟩
    rw [hk',Nat.add_assoc,Nat.add_comm 1 n]

lemma tcpClose_sent {cid : ℤ} (hg : m.getConn cid = some i) (hr : (m.conns i).reset = false)
    (hst : (m.conns i).state = .synSent) :
    Tcp.tcpClose m cid = some (0,m.setConn i { m.conns i with userClosed := true }) := by
  unfold Tcp.tcpClose
  rw [hg]
  dsimp only
  rw [if_neg (by simp [hr]),hst]

/-- `sys_socket_connect` fails after all its turns, and the connection is still in SYN_SENT. -/
theorem timeout_stays_in_handshake : ¬ ∀ (n : Net) (es : List Event) (k : Sockets),
    Runs step (fun _ _ => True) (initial n) es k → k.ReachesRelease := by
  intro hall
  obtain ⟨k,run,hcall,hst,hv,hr⟩ : ∃ k, Runs step (fun _ _ => True) (initial openNet) [.connect 0 0 0x01010101 80 7] k ∧
      k.calls 0 = some (0,.connecting ⟨0,1⟩ 0) ∧ (k.tcp.conns 0).state = .synSent ∧ (k.tcp.conns 0).valid = true ∧
      (k.tcp.conns 0).reset = false := ⟨_,.cons trivial rfl (.nil _),rfl,rfl,rfl,rfl⟩
  have hg : k.tcp.getConn (0 : Cid).val = some 0 := getConn_of_valid hv
  have hsent : tcpState k.tcp (0 : Cid).val = .synSent := by
    unfold tcpState
    rw [hg]
    exact hst
  obtain ⟨k₁,run₁,htcp,-,hcall₁⟩ := connect_waits connectTurns hcall hsent (by omega)
  have hclose : Tcp.tcpClose k₁.tcp (0 : Cid).val =
      some (0,k₁.tcp.setConn 0 { k₁.tcp.conns 0 with userClosed := true }) := by
    rw [htcp]
    exact tcpClose_sent hg hr hst
  obtain ⟨k₂,hnow,htcp₂,hnoted⟩ : ∃ k₂, k₁.step (.connectTurn 0) = some (some ⟨-eio,[]⟩,k₂) ∧
      k₂.tcp = k₁.tcp.setConn 0 { k₁.tcp.conns 0 with userClosed := true } ∧ k₂.closed 0 = true := by
    unfold step
    dsimp only
    rw [hcall₁]
    dsimp only
    rw [if_neg (by omega)]
    unfold Sockets.tcpClose tcpCall Tcp.step
    dsimp only
    rw [show (k₁.setCall 0 none).tcp = k₁.tcp from rfl,hclose]
    refine ⟨_,rfl,rfl,?_⟩
    simp [become,setCall,htcp,hv]
  have hrun := run.append (run₁.append (.cons trivial hnow (.nil _)))
  have hstate := (hall openNet _ k₂ hrun).state 0 (by simp [htcp₂,htcp,hv]) hnoted
  exact hstate.2.2 (by simp [htcp₂,htcp,hst])

end VibeOS.Tcp.Sockets

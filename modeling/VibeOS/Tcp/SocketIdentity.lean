import VibeOS.Tcp.Holders

/-! Socket descriptors and the connections that they were opened on. -/
namespace VibeOS.Tcp.Sockets
open VibeOS.Storage Option

inductive Role
  | socket | listener | pending
  deriving DecidableEq

inductive Holder
  | fd (t fd : ℕ)
  | call (th : ℕ)
  deriving DecidableEq

def heldBy : FdEntry → Option (Role × Handle)
  | .socket h => some (.socket,h)
  | .listen h => some (.listener,h)
  | .other => none

def holder (k : Sockets) : Holder → Option (Role × Handle)
  | .fd t fd => (k.fds t fd).bind heldBy
  | .call th => (k.calls th).map fun c => (.pending,c.2.handle)

/-- The slot still has the connection that the handle was made for. Only that of a socket may have
been shut down. -/
structure Holds (m : Machine) (stamp : Cid → ℕ) (r : Role) (h : Handle) : Prop where
  detached : Detached (m.conns h.cid)
  own : stamp h.cid = h.opened
  listen : r ≠ .listener → (m.conns h.cid).state ≠ .listen
  unshut : r ≠ .socket → (m.conns h.cid).userClosed = false

structure Kept (k : Sockets) : Prop where
  owners : Owners k.tcp
  holds : ∀ x r h, k.holder x = some (r,h) → Holds k.tcp k.stamp r h
  apart : ∀ x y r r' h h', k.holder x = some (r,h) → k.holder y = some (r',h') → h.cid = h'.cid → x = y

def Unheld (k : Sockets) (i : Cid) : Prop := ∀ x r h, k.holder x = some (r,h) → h.cid ≠ i

/-- No socket is shut down that was reset or is closed, and a connection that was shut down is not
reaped while its descriptor is open. -/
structure Patient (k : Sockets) (e : Event) : Prop where
  shutdown : ∀ t fd h, e = .shutdown t fd → k.entry t fd = some (.socket h) →
    (k.tcp.conns h.cid).reset = false ∧ (k.tcp.conns h.cid).state ≠ .closed
  poll : e = .poll → ∀ t fd h, k.fds t fd = some (.socket h) →
    ¬ ((k.tcp.conns h.cid).userClosed = true ∧ (k.tcp.conns h.cid).state = .closed ∧
      (k.tcp.conns h.cid).rxLen = 0)

def Through (e : Event) (t : ℕ) (fd : ℤ) : Prop :=
  (∃ cap, e = .read t fd cap) ∨ (∃ data len, e = .write t fd data len) ∨ e = .close t fd

/-- The slot of an open socket was not given to another connection, and what goes through the
descriptor reaches the connection that it was opened on. -/
structure KeepsConnections (k : Sockets) : Prop where
  slot : ∀ t fd h, k.fds t fd = some (.socket h) → k.stamp h.cid = h.opened
  act : ∀ t fd h e a k', k.entry t fd = some (.socket h) → Through e t fd → k.step e = some (a,k') →
    ∀ i, k'.tcp.conns i = k.tcp.conns i ∨ i = h.cid ∧ k.stamp i = h.opened

variable {k k' : Sockets} {m : Machine} {e : Tcp.Event} {a : Answer} {r : Role} {h : Handle} {i : Cid}

lemma stamp_become (hv : (k.tcp.conns i).valid = true) : (k.become m).stamp i = k.stamp i := by
  simp [become,hv]

lemma Kept.call (hk : k.Kept) (now : Tcp.step k.tcp e = some (a,m))
    (hclose : ∀ cid i, e = .close cid → k.tcp.getConn cid = some i → Detached (k.tcp.conns i) ∧
      ∀ x r h, k.holder x = some (r,h) → h.cid = i →
        r = .socket ∧ (k.tcp.conns i).reset = false ∧ (k.tcp.conns i).state ≠ .closed)
    (hpoll : e = .poll → ∀ x h, k.holder x = some (.socket,h) → ¬ ((k.tcp.conns h.cid).userClosed = true ∧
      (k.tcp.conns h.cid).state = .closed ∧ (k.tcp.conns h.cid).rxLen = 0)) : (k.become m).Kept where
  owners := hk.owners.step (fun cid i he hg => (hclose cid i he hg).1) now
  apart := hk.apart
  holds x r h hx := by
    have hh := hk.holds x r h hx
    have hu : r ≠ .socket → (m.conns h.cid).userClosed = false := by
      intro hr
      by_contra hne
      rcases (step_slot now h.cid).userClosed (by simpa using hne) with hu | ⟨cid,he,hg⟩
      · rw [hh.unshut hr] at hu
        cases hu
      · exact hr ((hclose cid h.cid he hg).2 x r h hx rfl).1
    rcases hh.detached.step now with ⟨hd,hl⟩ | ⟨why,-⟩
    · exact ⟨hd,(stamp_become hh.detached.valid).trans hh.own,fun hr => hl (hh.listen hr),hu⟩
    · exfalso
      rcases hk.owners.frees hh.detached why with ⟨cid,he,hg,hw⟩ | ⟨he,hw⟩
      · obtain ⟨rfl,hreset,hclosed⟩ := (hclose cid h.cid he hg).2 x r h hx rfl
        rcases hw with hw | hw | hw
        · rw [hreset] at hw
          cases hw
        · exact hh.listen (by simp) hw
        · exact hclosed hw
      · by_cases hr : r = .socket
        · subst hr
          exact hpoll he x h hx hw
        · have hu' := hw.1
          rw [hh.unshut hr] at hu'
          cases hu'

lemma Kept.tcpCall (hk : k.Kept) (hc : ∀ cid, e ≠ .close cid) (hp : e ≠ .poll)
    (now : k.tcpCall e = some (a,k')) : k'.Kept := by
  obtain ⟨⟨b,m⟩,hstep,heq⟩ := Option.map_eq_some_iff.mp now
  cases heq
  exact hk.call hstep (fun cid _ he => absurd he (hc cid)) fun he => absurd he hp

lemma Kept.tcpClose (hk : k.Kept) (hd : Detached (k.tcp.conns h.cid))
    (hu : ∀ x r h', k.holder x = some (r,h') → h'.cid = h.cid →
      r = .socket ∧ (k.tcp.conns h.cid).reset = false ∧ (k.tcp.conns h.cid).state ≠ .closed)
    (now : k.tcpClose h = some (a,k')) : k'.Kept := by
  obtain ⟨⟨b,m⟩,hstep,heq⟩ := Option.map_eq_some_iff.mp now
  cases heq
  refine Kept.call (k := { k with closed := _ }) ⟨hk.owners,hk.holds,hk.apart⟩ hstep ?_ (fun he => by cases he)
  intro cid i he hg
  cases he
  have hi : i = h.cid := Fin.ext (by have hv := (getConn_valid hg).2; omega)
  subst hi
  exact ⟨hd,hu⟩

lemma holder_setFd (t fd : ℕ) (e : Option FdEntry) (x : Holder) :
    (k.setFd t fd e).holder x = if x = .fd t fd then e.bind heldBy else k.holder x := by
  cases x with
  | fd t' fd' =>
    simp only [holder,setFd,Function.update_apply,Holder.fd.injEq]
    split_ifs <;> simp_all
  | call th => simp [holder,setFd]

lemma holder_setCall (th : ℕ) (c : Option (ℕ × Call)) (x : Holder) :
    (k.setCall th c).holder x = if x = .call th then c.map fun c => (.pending,c.2.handle) else k.holder x := by
  cases x with
  | fd t' fd' => simp [holder,setCall]
  | call th' =>
    simp only [holder,setCall,Function.update_apply,Holder.call.injEq]
    split_ifs <;> rfl

lemma Kept.put (hk : k.Kept) {k' : Sockets} (htcp : k'.tcp = k.tcp) (hstamp : k'.stamp = k.stamp) {x : Holder}
    {v : Option (Role × Handle)} (hx : ∀ y, k'.holder y = if y = x then v else k.holder y)
    (hv : ∀ r h, v = some (r,h) → Holds k.tcp k.stamp r h ∧
      ∀ y r' h', y ≠ x → k.holder y = some (r',h') → h'.cid ≠ h.cid) : k'.Kept where
  owners := htcp ▸ hk.owners
  holds y r h hy := by
    rw [htcp,hstamp]
    rw [hx] at hy
    split_ifs at hy with hyx
    · exact (hv r h hy).1
    · exact hk.holds y r h hy
  apart y z r r' h h' hy hz hcid := by
    rw [hx] at hy hz
    split_ifs at hy hz with hyx hzx hzx
    · exact hyx.trans hzx.symm
    · exact absurd hcid.symm ((hv r h hy).2 z r' h' hzx hz)
    · exact absurd hcid ((hv r' h' hz).2 y r h hyx hy)
    · exact hk.apart y z r r' h h' hy hz hcid

lemma Kept.setFd (hk : k.Kept) {t fd : ℕ} {e : Option FdEntry}
    (he : ∀ r h, e.bind heldBy = some (r,h) → Holds k.tcp k.stamp r h ∧
      ∀ y r' h', y ≠ .fd t fd → k.holder y = some (r',h') → h'.cid ≠ h.cid) : (k.setFd t fd e).Kept :=
  hk.put rfl rfl (holder_setFd t fd e) he

lemma Kept.setCall (hk : k.Kept) {th : ℕ} {c : Option (ℕ × Call)}
    (hc : ∀ t c', c = some (t,c') → Holds k.tcp k.stamp .pending c'.handle ∧
      ∀ y r' h', y ≠ .call th → k.holder y = some (r',h') → h'.cid ≠ c'.handle.cid) : (k.setCall th c).Kept := by
  refine hk.put rfl rfl (holder_setCall th c) fun r h hv => ?_
  obtain ⟨⟨t,c'⟩,rfl,heq⟩ := Option.map_eq_some_iff.mp hv
  cases heq
  exact hc t c' rfl

lemma Kept.dropFd (hk : k.Kept) {t fd : ℕ} : (k.setFd t fd none).Kept := hk.setFd fun _ _ he => by cases he

lemma Kept.dropCall (hk : k.Kept) {th : ℕ} : (k.setCall th none).Kept := hk.setCall fun _ _ hc => by cases hc

lemma Kept.unheldFd (hk : k.Kept) {t fd : ℕ} (hx : k.holder (.fd t fd) = some (r,h)) :
    (k.setFd t fd none).Unheld h.cid := by
  intro y r' h' hy hcid
  rw [holder_setFd] at hy
  split_ifs at hy with hyx
  · cases hy
  · exact hyx (hk.apart y _ r' r h' h hy hx hcid)

lemma Kept.unheldCall (hk : k.Kept) {th : ℕ} (hx : k.holder (.call th) = some (r,h)) :
    (k.setCall th none).Unheld h.cid := by
  intro y r' h' hy hcid
  rw [holder_setCall] at hy
  split_ifs at hy with hyx
  · cases hy
  · exact hyx (hk.apart y _ r' r h' h hy hx hcid)

variable {b : Option Answer}

lemma Kept.allocFd (hk : k.Kept) {t : ℕ} {e : FdEntry} (he : heldBy e = some (r,h)) (hh : Holds k.tcp k.stamp r h)
    (hu : k.Unheld h.cid) (now : k.allocFd t h e = some (b,k')) : k'.Kept := by
  unfold Sockets.allocFd at now
  split at now
  next fd hfd =>
    cases now
    refine hk.setFd fun r' h' hr => ?_
    obtain ⟨rfl,rfl⟩ := Prod.mk.inj (some.inj (he.symm.trans hr))
    exact ⟨hh,fun y r' h' _ hy => hu y r' h' hy⟩
  next =>
    obtain ⟨⟨b,w⟩,hw,heq⟩ := Option.bind_eq_some_iff.mp now
    cases heq
    exact hk.tcpClose hh.detached (fun x r' h' hx hcid => absurd hcid (hu x r' h' hx)) hw

lemma handleOf_val (i : Cid) : k.handleOf (i.val : ℤ) = ⟨i,k.stamp i⟩ := by
  have hi : Fin.ofNat connCap (i.val : ℤ).toNat = i := Fin.ext (by simp)
  unfold handleOf
  rw [hi]

lemma Kept.unheld_free (hk : k.Kept) (hf : k.tcp.freeSlot = some i) : k.Unheld i := by
  rintro x r h hx rfl
  have hv := (hk.holds x r h hx).detached.valid
  rw [freeSlot_free hf] at hv
  cases hv

lemma Kept.unheld_waits (hk : k.Kept) (hw : Waits k.tcp i) : k.Unheld i := by
  rintro x r h hx rfl
  exact hk.owners.not_waits (hk.holds x r h hx).detached hw

lemma Kept.connects (hk : k.Kept) {dst : Ip} {port : UInt16} {isn : UInt32}
    (hw : k.tcpCall (.connect dst port isn) = some (a,k')) (hv : ¬ a.value < 0) :
    Holds k'.tcp k'.stamp .pending (k'.handleOf a.value) ∧ k.Unheld (k'.handleOf a.value).cid := by
  have hw' : some ((⟨(tcpConnect k.tcp dst port isn).1,[]⟩ : Answer),k.become (tcpConnect k.tcp dst port isn).2) =
    some (a,k') := hw
  obtain ⟨rfl,rfl⟩ := Prod.mk.inj (some.inj hw')
  rcases tcpConnect_value k.tcp dst port isn with hneg | ⟨i,hf,hval,hc⟩
  · exact absurd hneg hv
  rw [hval,handleOf_val]
  refine ⟨⟨?_,rfl,fun _ => ?_,fun _ => ?_⟩,hk.unheld_free hf⟩
  · change Detached ((tcpConnect k.tcp _ _ _).2.conns i)
    rw [hc]
    exact ⟨rfl,rfl,by simp [connected]⟩
  · change ((tcpConnect k.tcp _ _ _).2.conns i).state ≠ .listen
    rw [hc]
    simp [connected]
  · change ((tcpConnect k.tcp _ _ _).2.conns i).userClosed = false
    rw [hc]
    rfl

lemma Kept.listens (hk : k.Kept) {port : UInt16} (hw : k.tcpCall (.listen port) = some (a,k'))
    (hv : ¬ a.value < 0) :
    Holds k'.tcp k'.stamp .listener (k'.handleOf a.value) ∧ k.Unheld (k'.handleOf a.value).cid := by
  have hw' : some ((⟨(tcpListen k.tcp port).1,[]⟩ : Answer),k.become (tcpListen k.tcp port).2) = some (a,k') := hw
  obtain ⟨rfl,rfl⟩ := Prod.mk.inj (some.inj hw')
  rcases tcpListen_value k.tcp port with hneg | ⟨i,hf,hval,hc⟩
  · exact absurd hneg hv
  rw [hval,handleOf_val]
  refine ⟨⟨?_,rfl,fun hr => absurd rfl hr,fun _ => ?_⟩,hk.unheld_free hf⟩
  · change Detached ((tcpListen k.tcp _).2.conns i)
    rw [hc]
    exact ⟨rfl,rfl,by simp⟩
  · change ((tcpListen k.tcp _).2.conns i).userClosed = false
    rw [hc]
    rfl

lemma Kept.accepts (hk : k.Kept) {cid : ℤ} (hw : k.tcpCall (.accept cid) = some (a,k')) (hv : ¬ a.value < 0) :
    Holds k'.tcp k'.stamp .pending (k'.handleOf a.value) ∧ k.Unheld (k'.handleOf a.value).cid := by
  have hw' : some ((⟨(tcpAccept k.tcp cid).1,[]⟩ : Answer),k.become (tcpAccept k.tcp cid).2) = some (a,k') := hw
  obtain ⟨rfl,rfl⟩ := Prod.mk.inj (some.inj hw')
  rcases tcpAccept_value k.tcp cid with hneg | ⟨l,i,q,hg,hl,hq,hval⟩
  · exact absurd hneg hv
  have hi : i ∈ (k.tcp.conns l).acceptQ := by
    rw [hq]
    exact List.mem_cons_self
  obtain ⟨hvalid,hparent,hstate⟩ := hk.owners.lined.child l hl i hi
  have hlisten : (k.tcp.conns i).state ≠ .listen := by
    intro hst
    rw [hk.owners.root i ⟨hvalid,hst⟩] at hparent
    cases hparent
  have hne : i ≠ l := by
    rintro rfl
    exact hlisten hl.state
  have hclosed : (k.tcp.conns i).userClosed = false := by
    by_contra hu
    rw [(hk.owners.closed i (by simpa using hu)).parent] at hparent
    cases hparent
  have hchild := tcpAccept_child hg hl.state hq hvalid hne
  rw [hval,handleOf_val]
  refine ⟨⟨?_,rfl,fun _ => ?_,fun _ => ?_⟩,hk.unheld_waits ⟨l,hl,hi⟩⟩
  · change Detached ((tcpAccept k.tcp cid).2.conns i)
    rw [hchild]
    exact ⟨hvalid,rfl,hstate⟩
  · change ((tcpAccept k.tcp cid).2.conns i).state ≠ .listen
    rw [hchild]
    exact hlisten
  · change ((tcpAccept k.tcp cid).2.conns i).userClosed = false
    rw [hchild]
    exact hclosed

lemma unheld_tcpCall (hw : k.tcpCall e = some (a,k')) (hu : k.Unheld i) : k'.Unheld i := by
  obtain ⟨⟨b,m⟩,-,heq⟩ := Option.map_eq_some_iff.mp hw
  cases heq
  exact hu

lemma entry_some {t : ℕ} {fd : ℤ} {e : FdEntry} (h : k.entry t fd = some e) : k.fds t fd.toNat = some e := by
  unfold entry at h
  split_ifs at h
  exact h

lemma holder_entry {t : ℕ} {fd : ℤ} {e : FdEntry} (h : k.entry t fd = some e) :
    k.holder (.fd t fd.toNat) = heldBy e := by
  simp [holder,entry_some h]

lemma step_kept {e : Event} (hk : k.Kept) (ok : k.Patient e)
    (now : k.step e = some (b,k')) : k'.Kept := by
  cases e with
  | connect th t ip4 port isn =>
    unfold step at now
    dsimp only at now
    split_ifs at now
    · cases now
      exact hk
    obtain ⟨⟨a,w⟩,hw,now⟩ := Option.bind_eq_some_iff.mp now
    have hk₁ : w.Kept := hk.tcpCall (fun _ h => by cases h) (fun h => by cases h) hw
    dsimp only at now
    split_ifs at now with hneg
    · cases now
      exact hk₁
    cases now
    obtain ⟨hh,hu⟩ := hk.connects hw hneg
    refine hk₁.setCall fun t' c hcall => ?_
    cases hcall
    exact ⟨hh,fun y r' h' _ hy => unheld_tcpCall hw hu y r' h' hy⟩
  | connectTurn th =>
    unfold step at now
    dsimp only at now
    split at now
    next t h turns hcall =>
      have hx : k.holder (.call th) = some (.pending,h) := by simp [holder,hcall,Call.handle]
      have hh := hk.holds _ _ _ hx
      have hk₀ : (k.setCall th none).Kept := hk.dropCall
      have hu := hk.unheldCall hx
      have hclose {b : Answer} {w : Sockets} (hw : (k.setCall th none).tcpClose h = some (b,w)) : w.Kept :=
        hk₀.tcpClose hh.detached (fun x r' h' hx' hcid => absurd hcid (hu x r' h' hx')) hw
      split_ifs at now
      · split at now
        next => exact hk₀.allocFd rfl ⟨hh.detached,hh.own,fun _ => hh.listen (by simp),fun hr => absurd rfl hr⟩ hu now
        next =>
          obtain ⟨⟨a,w⟩,hw,heq⟩ := Option.bind_eq_some_iff.mp now
          cases heq
          exact hclose hw
        next =>
          cases now
          refine hk.setCall fun t' c hc => ?_
          cases hc
          exact ⟨hh,fun y r' h' hne hy hcid => hne (hk.apart y _ r' _ h' h hy hx hcid)⟩
      · obtain ⟨⟨a,w⟩,hw,heq⟩ := Option.bind_eq_some_iff.mp now
        cases heq
        exact hclose hw
    next => cases now
  | listen t port =>
    unfold step at now
    dsimp only at now
    split_ifs at now
    · cases now
      exact hk
    obtain ⟨⟨a,w⟩,hw,now⟩ := Option.bind_eq_some_iff.mp now
    have hk₁ : w.Kept := hk.tcpCall (fun _ h => by cases h) (fun h => by cases h) hw
    dsimp only at now
    split_ifs at now with hused hneg
    · cases now
      exact hk₁
    · cases now
      exact hk₁
    obtain ⟨hh,hu⟩ := hk.listens hw hneg
    exact hk₁.allocFd rfl hh (unheld_tcpCall hw hu) now
  | accept th t fd sigPending =>
    unfold step at now
    dsimp only at now
    split at now
    next => cases now
    next =>
    split at now
    next h hent =>
      obtain ⟨⟨a,w⟩,hw,now⟩ := Option.bind_eq_some_iff.mp now
      have hk₁ : w.Kept := hk.tcpCall (fun _ h => by cases h) (fun h => by cases h) hw
      dsimp only at now
      split_ifs at now with hval
      · cases now
        obtain ⟨hh,hu⟩ := hk.accepts hw (by omega)
        refine hk₁.setCall fun t' c hcall => ?_
        cases hcall
        exact ⟨hh,fun y r' h' _ hy => unheld_tcpCall hw hu y r' h' hy⟩
      all_goals
        cases now
        exact hk₁
    next =>
      cases now
      exact hk
  | acceptRest th copied =>
    unfold step at now
    dsimp only at now
    split at now
    next t h hcall =>
      have hx : k.holder (.call th) = some (.pending,h) := by simp [holder,hcall,Call.handle]
      have hh := hk.holds _ _ _ hx
      have hk₀ : (k.setCall th none).Kept := hk.dropCall
      have hu := hk.unheldCall hx
      split_ifs at now
      · exact hk₀.allocFd rfl ⟨hh.detached,hh.own,fun _ => hh.listen (by simp),fun hr => absurd rfl hr⟩ hu now
      · obtain ⟨⟨a,w⟩,hw,heq⟩ := Option.bind_eq_some_iff.mp now
        cases heq
        exact hk₀.tcpClose hh.detached (fun x r' h' hx' hcid => absurd hcid (hu x r' h' hx')) hw
    next => cases now
  | shutdown t fd =>
    unfold step at now
    dsimp only at now
    split at now
    next h hent =>
      obtain ⟨⟨a,w⟩,hw,heq⟩ := Option.bind_eq_some_iff.mp now
      cases heq
      have hx : k.holder (.fd t fd.toNat) = some (.socket,h) := holder_entry hent
      refine hk.tcpClose (hk.holds _ _ _ hx).detached (fun y r' h' hy hcid => ?_) hw
      obtain rfl := hk.apart _ _ _ _ _ _ hx hy hcid.symm
      obtain ⟨rfl,rfl⟩ := Prod.mk.inj (some.inj (hx.symm.trans hy))
      exact ⟨rfl,ok.shutdown t fd h rfl hent⟩
    next =>
      cases now
      exact hk
  | read t fd cap | write t fd data len =>
    unfold step at now
    dsimp only at now
    split at now
    next h hent =>
      obtain ⟨⟨a,w⟩,hw,now⟩ := Option.bind_eq_some_iff.mp now
      have hk₁ : w.Kept := hk.tcpCall (fun _ h => by cases h) (fun h => by cases h) hw
      dsimp only at now
      split_ifs at now
      all_goals
        cases now
        exact hk₁
    next =>
      cases now
      exact hk
    next => cases now
    next =>
      cases now
      exact hk
  | close t fd =>
    unfold step at now
    dsimp only at now
    split at now
    next =>
      cases now
      exact hk
    next e hent =>
      split_ifs at now
      · cases now
        exact hk
      cases e with
      | other =>
        cases now
        exact hk.dropFd
      | socket h =>
        have hx : k.holder (.fd t fd.toNat) = some (.socket,h) := holder_entry hent
        have hu := hk.unheldFd hx
        obtain ⟨⟨a,w⟩,hw,heq⟩ := Option.bind_eq_some_iff.mp now
        cases heq
        exact hk.dropFd.tcpClose (hk.holds _ _ _ hx).detached (fun y r' h' hy hcid => absurd hcid (hu y r' h' hy)) hw
      | listen h =>
        have hx : k.holder (.fd t fd.toNat) = some (.listener,h) := holder_entry hent
        have hu := hk.unheldFd hx
        obtain ⟨⟨a,w⟩,hw,heq⟩ := Option.bind_eq_some_iff.mp now
        cases heq
        exact hk.dropFd.tcpClose (hk.holds _ _ _ hx).detached (fun y r' h' hy hcid => absurd hcid (hu y r' h' hy)) hw
  | occupy t fd =>
    unfold step at now
    dsimp only at now
    split_ifs at now
    cases now
    exact hk.setFd fun _ _ h => by cases h
  | handle src dst payload isn =>
    obtain ⟨⟨a,w⟩,hw,heq⟩ := Option.bind_eq_some_iff.mp now
    cases heq
    exact hk.tcpCall (fun _ h => by cases h) (fun h => by cases h) hw
  | poll =>
    obtain ⟨⟨a,w⟩,hw,heq⟩ := Option.bind_eq_some_iff.mp now
    cases heq
    obtain ⟨⟨_,m⟩,hstep,heq⟩ := Option.map_eq_some_iff.mp hw
    cases heq
    refine hk.call hstep (fun _ _ he => by cases he) fun _ x h hx => ?_
    cases x with
    | call th =>
      obtain ⟨_,_,heq⟩ := Option.map_eq_some_iff.mp hx
      cases heq
    | fd t fd =>
      obtain ⟨e,hfd,he⟩ := Option.bind_eq_some_iff.mp hx
      cases e with
      | socket h' =>
        cases he
        exact ok.poll rfl t fd h hfd
      | listen h' | other => cases he

lemma initial_kept (n : Net) : (initial n).Kept where
  owners := ⟨initial_lined n,fun i hl => absurd hl.valid (by simp [initial,Machine.initial,Conn.zero]),
    fun i hu => by cases hu⟩
  holds x r h hx := by cases x <;> cases hx
  apart x y r r' h h' hx := by cases x <;> cases hx

lemma tcpCall_conns (hw : k.tcpCall e = some (a,k')) : Tcp.step k.tcp e = some (a,k'.tcp) := by
  obtain ⟨⟨b,m⟩,hstep,heq⟩ := Option.map_eq_some_iff.mp hw
  cases heq
  exact hstep

lemma getConn_val {i j : Cid} (h : m.getConn i.val = some j) : j = i := by
  have hv := (getConn_valid h).2
  exact Fin.ext (by omega)

lemma through_frame {e : Event} {t : ℕ} {fd : ℤ} (hent : k.entry t fd = some (.socket h))
    (hst : (k.tcp.conns h.cid).state ≠ .listen) (he : Through e t fd) (now : k.step e = some (b,k')) (hi : i ≠ h.cid) :
    k'.tcp.conns i = k.tcp.conns i := by
  have hk : k.tcp.getConn h.cid.val ≠ some i := fun hg => hi (getConn_val hg)
  rcases he with ⟨cap,rfl⟩ | ⟨data,len,rfl⟩ | rfl
  · unfold step at now
    dsimp only at now
    rw [hent] at now
    obtain ⟨⟨a,w⟩,hw,now⟩ := Option.bind_eq_some_iff.mp now
    have hw' : w.tcp.conns i = k.tcp.conns i := by
      obtain ⟨-,heq⟩ := Prod.mk.inj (some.inj (tcpCall_conns hw))
      rw [← heq]
      exact tcpRecv_frame cap hk
    dsimp only at now
    split_ifs at now
    all_goals
      cases now
      exact hw'
  · unfold step at now
    dsimp only at now
    rw [hent] at now
    obtain ⟨⟨a,w⟩,hw,now⟩ := Option.bind_eq_some_iff.mp now
    have hw' : w.tcp.conns i = k.tcp.conns i := by
      obtain ⟨⟨r,m⟩,hsend,hm⟩ := Option.bind_eq_some_iff.mp (tcpCall_conns hw)
      obtain ⟨-,rfl⟩ := Prod.mk.inj (some.inj hm)
      exact tcpSend_frame hsend hk
    dsimp only at now
    split_ifs at now
    all_goals
      cases now
      exact hw'
  · unfold step at now
    dsimp only at now
    rw [hent] at now
    dsimp only at now
    split_ifs at now
    · cases now
      rfl
    obtain ⟨⟨a,w⟩,hw,now⟩ := Option.bind_eq_some_iff.mp now
    cases now
    obtain ⟨⟨r,m⟩,hclose,hm⟩ := Option.bind_eq_some_iff.mp (tcpCall_conns hw)
    obtain ⟨-,rfl⟩ := Prod.mk.inj (some.inj hm)
    refine tcpClose_frame hclose (fun j hj => ?_) hk
    rw [getConn_val hj]
    exact hst

lemma Kept.keeps (hk : k.Kept) : k.KeepsConnections where
  slot t fd h hfd := (hk.holds (.fd t fd) .socket h (by simp [holder,hfd,heldBy])).own
  act t fd h e a k' hent he now i := by
    have hh := hk.holds (.fd t fd.toNat) .socket h (holder_entry hent)
    by_cases hi : i = h.cid
    · subst hi
      exact .inr ⟨rfl,hh.own⟩
    · exact .inl (through_frame hent (hh.listen (by simp)) he now hi)

/-- In a run without such a shutdown or poll every socket keeps its connection. -/
theorem sockets_keep_connections {n : Net} {es : List Event} (run : Runs step Patient (initial n) es k) :
    k.KeepsConnections :=
  (run.invariant (fun _ _ _ _ hk ok now => step_kept hk ok now) (initial_kept n)).keeps

def arrival (q : Packet) (isn : UInt32) : Event := .handle q.src q.dst q.encode isn

lemma step_arrival (k : Sockets) (q : Packet) (isn : UInt32) (hq : q.segment.data.length ≤ mss) :
    k.step (arrival q isn) = (handleSegment k.tcp q.src q.segment isn).map fun m => (some ⟨0,[]⟩,k.become m) := by
  have h := Tcp.step_arrival k.tcp q isn hq
  unfold Packet.arrival at h
  unfold arrival step tcpCall
  dsimp only
  rw [h]
  cases handleSegment k.tcp q.src q.segment isn <;> rfl

def serverSegment (flags : UInt8) (seq ack : UInt32) : Packet where
  src := fun _ => 1
  dst := Bytes.zero
  segment := ⟨80,49152,seq,ack,flags,512,[]⟩
  mssOption := false

def opening : List Event :=
  [.connect 0 0 0x01010101 80 7,arrival (serverSegment (flagSyn ||| flagAck) 100 8) 0,.connectTurn 0]

lemma opening_run {P : Sockets → Event → Prop} (hP : ∀ k, ∀ e ∈ opening, P k e) :
    ∃ k, Runs step P (initial openNet) opening k ∧ k.fds 0 3 = some (.socket ⟨0,1⟩) ∧
      (k.tcp.conns 0).state = .established := by
  refine ⟨_,.cons (hP _ _ (by simp [opening])) rfl (.cons (hP _ _ (by simp [opening]))
    (by rw [step_arrival _ _ _ (by decide)]; rfl) (.cons (hP _ _ (by simp [opening])) rfl (.nil _))),rfl,rfl⟩

theorem sockets_keep_connections_opening : ∃ k, Runs step Patient (initial openNet) opening k ∧
    k.fds 0 3 = some (.socket ⟨0,1⟩) ∧ k.KeepsConnections := by
  obtain ⟨k,run,hfd,-⟩ := opening_run (P := Patient) fun k e he => by
    refine ⟨fun t fd h heq => ?_,fun heq => ?_⟩
    all_goals
      subst heq
      simp [opening,arrival] at he
  exact ⟨k,run,hfd,sockets_keep_connections run⟩

/-- The peer resets the connection, its owner shuts it down, and another process connects. -/
def reopening : List Event :=
  opening ++ [arrival (serverSegment flagRst 101 0) 0,.shutdown 0 3,.connect 1 1 0x02020202 80 9]

theorem shutdown_gives_slot_away : ¬ ∀ (n : Net) (es : List Event) (k : Sockets),
    Runs step (fun _ _ => True) (initial n) es k → k.KeepsConnections := by
  intro h
  obtain ⟨k,run,hfd,hstamp⟩ : ∃ k, Runs step (fun _ _ => True) (initial openNet) reopening k ∧
      k.fds 0 3 = some (.socket ⟨0,1⟩) ∧ k.stamp 0 = 5 := by
    refine ⟨_,.cons trivial rfl (.cons trivial (by rw [step_arrival _ _ _ (by decide)]; rfl) (.cons trivial rfl
      (.cons trivial (by rw [step_arrival _ _ _ (by decide)]; rfl) (.cons trivial rfl (.cons trivial rfl
      (.nil _)))))),rfl,rfl⟩
  have hslot := (h openNet reopening k run).slot 0 3 ⟨0,1⟩ hfd
  rw [hstamp] at hslot
  exact absurd hslot (by decide)

end VibeOS.Tcp.Sockets

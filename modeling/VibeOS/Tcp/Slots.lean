import VibeOS.Tcp.Table

/-! What a step of the stack may do to one slot of the connection table. Every invariant is
proved from this list. -/
namespace VibeOS.Tcp
open Function List Option
open VibeOS.Storage

/-- The event is a segment for the connection in slot `i`. -/
def Arrives (m : Machine) (e : Event) (i : Cid) (s : Segment) : Prop :=
  ∃ src dst p isn, e = .handle src dst p isn ∧ Segment.decode src dst p = some s ∧
    m.findConnForPkt src s.dstPort s.srcPort = some i

/-- It is the last message of the handshake of the child in slot `i`. -/
structure Promotes (m : Machine) (e : Event) (i : Cid) (s : Segment) : Prop where
  arrives : Arrives m e i s
  rst : s.has flagRst = false
  ack : s.has flagAck = true
  state : (m.conns i).state = .synReceived
  number : s.ack = (m.conns i).sndIss + 1

structure Listens (c : Conn) : Prop where
  valid : c.valid = true
  state : c.state = .listen

/-- The connection that `tcp_connect` leaves in its slot. -/
def connected (m : Machine) (dst : Ip) (dstPort : UInt16) (isn : UInt32) : Conn :=
  { Conn.fresh with
    remoteIp := dst
    remotePort := dstPort
    localPort := m.nextEphPort
    sndIss := isn
    sndUna := isn
    sndNxt := isn + 1
    sndWnd := UInt32.ofNat bufSize
    state := .synSent
    lastTxPoll := m.pollCounter }

/-- The child that a first SYN leaves in its slot. -/
def childOf (m : Machine) (l : Cid) (src : Ip) (s : Segment) (isn : UInt32) : Conn :=
  { Conn.fresh with
    remoteIp := src
    localPort := s.dstPort
    remotePort := s.srcPort
    sndIss := isn
    sndUna := isn
    sndNxt := isn + 1
    rcvIrs := s.seq
    rcvNxt := s.seq + 1
    sndWnd := if s.window = 0 then UInt32.ofNat bufSize else s.window.toUInt32
    state := .synReceived
    parentListenCid := some l
    lastTxPoll := m.pollCounter }

def handshakeWnd (s : Segment) : UInt32 :=
  if s.window = 0 then UInt32.ofNat bufSize else s.window.toUInt32

/-- What the slot holds after the step, from what it holds in `m`. -/
inductive SlotMove (m : Machine) (e : Event) (i : Cid) : Conn → Prop
  | kept : SlotMove m e i (m.conns i)
  | wiped (free : m.freeSlot = some i) : SlotMove m e i Conn.zero
  | connects {dst port isn} (now : e = .connect dst port isn) (free : m.freeSlot = some i)
      (sent : m.net.ok m.net.sent.length = true) : SlotMove m e i (connected m dst port isn)
  | listens {port} (now : e = .listen port) (free : m.freeSlot = some i) (some : port ≠ 0)
      (none : m.findListenerForPort port = none) :
      SlotMove m e i { Conn.fresh with localPort := port, state := .listen }
  | pops {cid k q p} (now : e = .accept cid) (get : m.getConn cid = some i)
      (state : (m.conns i).state = .listen) (queue : (m.conns i).acceptQ = k :: q)
      (parent : p = (m.conns i).parentListenCid ∨ p = none ∧ k = i) :
      SlotMove m e i { m.conns i with acceptQ := q, parentListenCid := p }
  | leaves {cid l q} (now : e = .accept cid) (get : m.getConn cid = some l)
      (state : (m.conns l).state = .listen) (queue : (m.conns l).acceptQ = i :: q) (ne : i ≠ l)
      (valid : (m.conns i).valid = true) : SlotMove m e i { m.conns i with parentListenCid := none }
  | sends {cid data len put n n' c'} (now : e = .send cid data len) (get : m.getConn cid = some i)
      (state : (m.conns i).state = .established ∨ (m.conns i).state = .closeWait)
      (put_le : put ≤ len ∧ put ≤ UInt32.ofNat bufSize - (m.conns i).txLen)
      (fits : put = 0 ∨ (m.conns i).txLen.toNat + put.toNat ≤ bufSize)
      (drain : tcpDrainTx m.pollCounter { m.conns i with
        txBuf := (m.conns i).txBuf.splice (m.conns i).txLen.toNat put.toNat data
        txLen := (m.conns i).txLen + put } n = some (c',n')) : SlotMove m e i c'
  | receives {cid cap take} (now : e = .recv cid cap) (get : m.getConn cid = some i)
      (le : take ≤ (m.conns i).rxLen) : SlotMove m e i { m.conns i with
        rxBuf := (m.conns i).rxBuf.splice 0 ((m.conns i).rxLen - take).toNat fun k =>
          (m.conns i).rxBuf.get (take.toNat + k)
        rxLen := (m.conns i).rxLen - take }
  | closes {cid st n n' c'} (now : e = .close cid) (get : m.getConn cid = some i)
      (from_ : (m.conns i).state = .established ∧ st = .finWait1 ∨
        (m.conns i).state = .closeWait ∧ st = .lastAck)
      (drain : tcpDrainTx m.pollCounter { m.conns i with userClosed := true, state := st } n =
        some (c',n')) : SlotMove m e i c'
  | marks {cid} (now : e = .close cid) (get : m.getConn cid = some i) :
      SlotMove m e i { m.conns i with userClosed := true }
  | releases {cid} (now : e = .close cid) (get : m.getConn cid = some i)
      (why : (m.conns i).reset = true ∨ (m.conns i).state = .listen ∨ (m.conns i).state = .closed) :
      SlotMove m e i Conn.zero
  | flushes {cid l} (now : e = .close cid) (get : m.getConn cid = some l)
      (state : (m.conns l).state = .listen) (queued : i ∈ (m.conns l).acceptQ) : SlotMove m e i Conn.zero
  | polls {n n' c'} (now : e = .poll)
      (poll : pollConn (m.pollCounter + 1) (m.conns i) n = some (c',n')) : SlotMove m e i c'
  | child {src dst p s l isn} (now : e = .handle src dst p isn) (bytes : Segment.decode src dst p = some s)
      (new : m.findConnForPkt src s.dstPort s.srcPort = none)
      (listener : m.findListenerForPort s.dstPort = some l) (free : m.freeSlot = some i) :
      SlotMove m e i (childOf m l src s isn)
  | resets {s} (arrives : Arrives m e i s) (rst : s.has flagRst = true) :
      SlotMove m e i { m.conns i with reset := true, state := .closed }
  | answers {s} (arrives : Arrives m e i s) (state : (m.conns i).state = .synSent)
      (number : s.ack = (m.conns i).sndIss + 1) : SlotMove m e i { m.conns i with
        rcvIrs := s.seq
        rcvNxt := s.seq + 1
        sndUna := s.ack
        sndWnd := handshakeWnd s
        state := .established }
  | promoted {s l} (promotes : Promotes m e i s) (parent : (m.conns i).parentListenCid = some l)
      (listener : Listens (m.conns l)) : SlotMove m e i { m.conns i with
        sndUna := s.ack
        sndWnd := handshakeWnd s
        state := .established }
  | abandoned {s} (promotes : Promotes m e i s) : SlotMove m e i Conn.zero
  | pushed {s k} (promotes : Promotes m e k s) (parent : (m.conns k).parentListenCid = some i) (ne : k ≠ i)
      (listener : Listens (m.conns i)) (room : (m.conns i).acceptQ.length < acceptQcap) :
      SlotMove m e i { m.conns i with acceptQ := (m.conns i).acceptQ ++ [k] }
  | synced {s n n' c'} (arrives : Arrives m e i s) (rst : s.has flagRst = false) (ack : s.has flagAck = true)
      (state : (m.conns i).state ≠ .synSent ∧ (m.conns i).state ≠ .synReceived)
      (handle : handleSynced m.pollCounter (m.conns i) s n = some (c',n')) : SlotMove m e i c'

variable {m m' : Machine} {i j l : Cid} {c c' : Conn} {n n' : Net} {e : Event} {s : Segment}

lemma freeSlot_free (h : m.freeSlot = some i) : (m.conns i).valid = false := by
  simpa using find?_some h

variable {cid : ℤ}

lemma getConn_valid (h : m.getConn cid = some i) : (m.conns i).valid = true ∧ cid = i.val := by
  unfold Machine.getConn at h
  split_ifs at h with hcid
  dsimp only at h
  split_ifs at h with hv
  obtain rfl := some.inj h
  exact ⟨hv,(Int.toNat_of_nonneg hcid.1).symm⟩

/-- The addresses and ports of a packet are those of the slot. -/
structure Matches (c : Conn) (ip : Ip) (localPort remotePort : UInt16) : Prop where
  valid : c.valid = true
  localPort : c.localPort = localPort
  remotePort : c.remotePort = remotePort
  remoteIp : c.remoteIp = ip

lemma matches_iff {ip : Ip} {lp rp : UInt16} : (c.valid && c.localPort == lp && c.remotePort == rp &&
    decide (c.remoteIp = ip)) = true ↔ Matches c ip lp rp := by
  simp only [Bool.and_eq_true,beq_iff_eq,decide_eq_true_eq]
  exact ⟨fun ⟨⟨⟨h1,h2⟩,h3⟩,h4⟩ => ⟨h1,h2,h3,h4⟩,fun ⟨h1,h2,h3,h4⟩ => ⟨⟨⟨h1,h2⟩,h3⟩,h4⟩⟩

lemma findConnForPkt_some {ip : Ip} {lp rp : UInt16} (h : m.findConnForPkt ip lp rp = some i) :
    Matches (m.conns i) ip lp rp := by
  have hi := find?_some h
  exact matches_iff.mp hi

lemma findConnForPkt_none {ip : Ip} {lp rp : UInt16} (h : m.findConnForPkt ip lp rp = none) (i : Cid) :
    ¬ Matches (m.conns i) ip lp rp := fun hi => by
  have hno := List.find?_eq_none.mp h i (mem_finRange i)
  exact hno (matches_iff.mpr hi)

@[simp] lemma setConn_conns (m : Machine) (i : Cid) (c : Conn) :
    (m.setConn i c).conns = update m.conns i c := rfl

lemma onConn_spec {f : Conn → Net → Option (Conn × Net)} (h : m.onConn i f = some m') :
    ∃ c n, f (m.conns i) m.net = some (c,n) ∧ m'.conns = update m.conns i c ∧
      m'.pollCounter = m.pollCounter := by
  obtain ⟨⟨c,n⟩,hf,hm⟩ := Option.bind_eq_some_iff.mp h
  obtain rfl := some.inj hm
  exact ⟨c,n,hf,rfl,rfl⟩

lemma pollFrom_spec {is : List Cid} (hnd : is.Nodup) (h : pollFrom m is = some m') (i : Cid) :
    (i ∈ is → ∃ n n', pollConn m.pollCounter (m.conns i) n = some (m'.conns i,n')) ∧
      (i ∉ is → m'.conns i = m.conns i) := by
  induction is generalizing m with
  | nil =>
    obtain rfl := some.inj h
    exact ⟨fun hi => absurd hi not_mem_nil,fun _ => rfl⟩
  | cons j is ih =>
    obtain ⟨w,hw,hrest⟩ := Option.bind_eq_some_iff.mp h
    obtain ⟨c,n,hf,hconns,hpoll⟩ := onConn_spec hw
    obtain ⟨hj,hnd⟩ := List.nodup_cons.mp hnd
    obtain ⟨hin,hout⟩ := ih hnd hrest
    rw [hpoll,hconns] at hin
    rw [hconns] at hout
    by_cases hij : i = j
    · subst hij
      refine ⟨fun _ => ⟨m.net,n,?_⟩,fun hi => absurd mem_cons_self hi⟩
      rw [hout hj,update_self]
      exact hf
    · rw [update_of_ne hij] at hin hout
      refine ⟨fun hi => hin ((List.mem_cons.mp hi).resolve_left hij),fun hi => hout fun hi' => hi ?_⟩
      exact mem_cons_of_mem _ hi'

lemma flushQueue_spec (q : List Cid) (i : Cid) : (flushQueue l m q).conns i = m.conns i ∨
    i ∈ q ∧ (flushQueue l m q).conns i = Conn.zero := by
  induction q generalizing m with
  | nil => exact .inl rfl
  | cons k q ih =>
    have hgone {w : Machine} (hw : w.conns = update m.conns k Conn.zero) :
        w.conns i = m.conns i ∨ i = k ∧ w.conns i = Conn.zero := by
      rw [hw]
      by_cases hik : i = k
      · exact .inr ⟨hik,by rw [hik,update_self]⟩
      · exact .inl (update_of_ne hik _ _)
    unfold flushQueue
    split_ifs with hv hk
    · rcases hgone (w := { m.setConn k Conn.zero with net := _ }) rfl with h | ⟨h,hz⟩
      · exact .inl h
      · exact .inr ⟨h ▸ mem_cons_self,hz⟩
    · rcases ih (m := { m.setConn k Conn.zero with net := _ }) with h | ⟨h,hz⟩
      · rcases hgone (w := { m.setConn k Conn.zero with net := _ }) rfl with h' | ⟨h',hz⟩
        · exact .inl (h.trans h')
        · exact .inr ⟨h' ▸ mem_cons_self,h.trans hz⟩
      · exact .inr ⟨mem_cons_of_mem _ h,hz⟩
    · rcases ih (m := m) with h | ⟨h,hz⟩
      · exact .inl h
      · exact .inr ⟨mem_cons_of_mem _ h,hz⟩

lemma SlotMove.update (h : SlotMove m e i c') (hm : m'.conns = update m.conns i c') (k : Cid) :
    SlotMove m e k (m'.conns k) := by
  rw [hm]
  by_cases hk : k = i
  · subst hk
    rwa [update_self]
  · rw [update_of_ne hk]
    exact .kept

lemma tcpConnect_slot (dst : Ip) (dstPort : UInt16) (isn : UInt32) (k : Cid) :
    SlotMove m (.connect dst dstPort isn) k ((tcpConnect m dst dstPort isn).2.conns k) := by
  unfold tcpConnect
  cases hf : m.freeSlot with
  | none => exact .kept
  | some i =>
    generalize hport : (if m.nextEphPort + 1 = 0 then 49152 else m.nextEphPort + 1) = port
    dsimp only
    split_ifs with hok
    · exact (SlotMove.connects rfl hf hok).update rfl k
    · exact (SlotMove.wiped hf).update rfl k

lemma tcpListen_slot (localPort : UInt16) (k : Cid) :
    SlotMove m (.listen localPort) k ((tcpListen m localPort).2.conns k) := by
  unfold tcpListen
  split_ifs with h0 hl
  · exact .kept
  · exact .kept
  · cases hf : m.freeSlot with
    | none => exact .kept
    | some i => exact (SlotMove.listens rfl hf h0 (not_not.mp hl)).update rfl k

lemma tcpAccept_slot (cid : ℤ) (k : Cid) : SlotMove m (.accept cid) k ((tcpAccept m cid).2.conns k) := by
  unfold tcpAccept
  cases hg : m.getConn cid with
  | none => exact .kept
  | some l =>
    dsimp only
    split_ifs with hst
    · exact .kept
    rw [not_not] at hst
    cases hq : (m.conns l).acceptQ with
    | nil => exact .kept
    | cons j rest =>
      dsimp only
      split_ifs with hv
      · by_cases hkj : k = j
        · subst hkj
          by_cases hkl : k = l
          · subst hkl
            rw [setConn_conns,update_self,setConn_conns,update_self]
            exact .pops rfl hg hst hq (.inr ⟨rfl,rfl⟩)
          · rw [setConn_conns,update_of_ne hkl] at hv
            rw [setConn_conns,update_self,setConn_conns,update_of_ne hkl]
            exact .leaves rfl hg hst hq hkl hv
        · rw [setConn_conns,update_of_ne hkj]
          exact (SlotMove.pops rfl hg hst hq (.inl rfl)).update rfl k
      · exact (SlotMove.pops rfl hg hst hq (.inl rfl)).update rfl k

lemma shorter_le (a b : UInt32) : (if a < b then a else b) ≤ a ∧ (if a < b then a else b) ≤ b := by
  simp only [UInt32.le_iff_toNat_le,UInt32.lt_iff_toNat_lt]
  split_ifs <;> omega

lemma tcpSend_slot {data : ℕ → UInt8} {len : UInt32} {r : ℤ}
    (h : tcpSend m cid data len = some (r,m')) (k : Cid) : SlotMove m (.send cid data len) k (m'.conns k) := by
  unfold tcpSend at h
  cases hg : m.getConn cid with
  | none =>
    rw [hg] at h
    obtain ⟨-,rfl⟩ := Prod.mk.inj (some.inj h)
    exact .kept
  | some i =>
    rw [hg] at h
    dsimp only at h
    have hle := shorter_le len (UInt32.ofNat bufSize - (m.conns i).txLen)
    generalize (if len < UInt32.ofNat bufSize - (m.conns i).txLen then len
      else UInt32.ofNat bufSize - (m.conns i).txLen) = put at h hle
    split_ifs at h with hr hst hput
    · obtain ⟨-,rfl⟩ := Prod.mk.inj (some.inj h)
      exact .kept
    · obtain ⟨-,rfl⟩ := Prod.mk.inj (some.inj h)
      exact .kept
    · obtain ⟨⟨c,n⟩,hd,hm⟩ := Option.bind_eq_some_iff.mp h
      obtain ⟨-,rfl⟩ := Prod.mk.inj (some.inj hm)
      rw [not_and_or,not_not,not_not] at hst
      rw [not_and_or,not_not,gt_iff_lt,not_lt] at hput
      exact SlotMove.update (.sends rfl hg hst hle hput hd) rfl k

lemma tcpRecv_slot (cid : ℤ) (cap : UInt32) (k : Cid) :
    SlotMove m (.recv cid cap) k ((tcpRecv m cid cap).2.2.conns k) := by
  unfold tcpRecv
  cases hg : m.getConn cid with
  | none => exact .kept
  | some i =>
    dsimp only
    have hle := (shorter_le (m.conns i).rxLen cap).1
    generalize (if (m.conns i).rxLen < cap then (m.conns i).rxLen else cap) = take at hle ⊢
    split_ifs with hr h0
    · exact .kept
    · exact .kept
    all_goals exact (SlotMove.receives rfl hg hle).update rfl k

lemma flushQueue_slot {w : Machine} (hg : m.getConn cid = some i) (hst : (m.conns i).state = .listen)
    (hw : w.conns = update m.conns i c) {k : Cid} (hk : k ≠ i) :
    SlotMove m (.close cid) k ((flushQueue i w (m.conns i).acceptQ).conns k) := by
  rcases flushQueue_spec (m := w) (l := i) (m.conns i).acceptQ k with hs | ⟨hq,hz⟩
  · rw [hs,hw,update_of_ne hk]
    exact .kept
  · rw [hz]
    exact .flushes rfl hg hst hq

lemma tcpClose_slot {r : ℤ} (h : tcpClose m cid = some (r,m')) (k : Cid) :
    SlotMove m (.close cid) k (m'.conns k) := by
  unfold tcpClose at h
  cases hg : m.getConn cid with
  | none =>
    rw [hg] at h
    obtain ⟨-,rfl⟩ := Prod.mk.inj (some.inj h)
    exact .kept
  | some i =>
    rw [hg] at h
    dsimp only at h
    split_ifs at h with hr
    · obtain ⟨-,rfl⟩ := Prod.mk.inj (some.inj h)
      exact (SlotMove.releases rfl hg (.inl hr)).update rfl k
    split at h
    next hst =>
      obtain ⟨-,rfl⟩ := Prod.mk.inj (some.inj h)
      rw [setConn_conns]
      by_cases hk : k = i
      · subst hk
        rw [update_self]
        exact .releases rfl hg (.inr (.inl hst))
      · rw [update_of_ne hk]
        exact flushQueue_slot hg hst rfl hk
    next hst =>
      obtain ⟨⟨c,n⟩,hd,hm⟩ := Option.bind_eq_some_iff.mp h
      obtain ⟨-,rfl⟩ := Prod.mk.inj (some.inj hm)
      exact (SlotMove.closes rfl hg (.inl ⟨hst,rfl⟩) hd).update rfl k
    next hst =>
      obtain ⟨⟨c,n⟩,hd,hm⟩ := Option.bind_eq_some_iff.mp h
      obtain ⟨-,rfl⟩ := Prod.mk.inj (some.inj hm)
      exact (SlotMove.closes rfl hg (.inr ⟨hst,rfl⟩) hd).update rfl k
    next hst =>
      obtain ⟨-,rfl⟩ := Prod.mk.inj (some.inj h)
      exact (SlotMove.releases rfl hg (.inr (.inr hst))).update rfl k
    next =>
      obtain ⟨-,rfl⟩ := Prod.mk.inj (some.inj h)
      exact (SlotMove.marks rfl hg).update rfl k

lemma SlotMove.ite {p : Prop} [Decidable p] {w w' : Machine} {k : Cid}
    (h : p → SlotMove m e k (w.conns k)) (h' : ¬ p → SlotMove m e k (w'.conns k)) :
    SlotMove m e k ((if p then w else w').conns k) := by
  split_ifs with hp
  · exact h hp
  · exact h' hp

lemma handleNew_slot {src dst : Ip} {p : List UInt8} {isn : UInt32} (hb : Segment.decode src dst p = some s)
    (hnew : m.findConnForPkt src s.dstPort s.srcPort = none) (k : Cid) :
    SlotMove m (.handle src dst p isn) k ((handleNew m src s isn).conns k) := by
  unfold handleNew
  refine .ite (fun _ => .kept) fun _ => ?_
  cases hl : m.findListenerForPort s.dstPort with
  | none => exact .kept
  | some l =>
    refine .ite (fun _ => .kept) fun _ => .ite (fun _ => .kept) fun _ => .ite (fun _ => .kept) fun _ => ?_
    cases hf : m.freeSlot with
    | none => exact .kept
    | some i =>
      exact .ite (fun _ => (SlotMove.child rfl hb hnew hl hf).update rfl k)
        fun _ => (SlotMove.wiped hf).update rfl k

lemma promote_slot (hp : Arrives m e i s) (hrst : s.has flagRst = false) (hack : s.has flagAck = true)
    (hst : (m.conns i).state = .synReceived) (k : Cid) : SlotMove m e k ((promote m i s).conns k) := by
  unfold promote
  refine .ite (fun _ => .kept) fun hnum => ?_
  have hpro : Promotes m e i s := ⟨hp,hrst,hack,hst,not_not.mp hnum⟩
  have hgone {w : Machine} {c : Conn} (hw : w.conns = update (update m.conns i c) i Conn.zero) :
      SlotMove m e k (w.conns k) :=
    (SlotMove.abandoned hpro).update (hw.trans (update_idem ..)) k
  dsimp only
  split
  next => exact hgone rfl
  next l hpar =>
    refine .ite (fun ⟨hv,hs,hroom⟩ => ?_) fun _ => hgone rfl
    have hli : l ≠ i := by
      rintro rfl
      rw [setConn_conns,update_self] at hs
      exact absurd hs (by simp)
    rw [setConn_conns,update_of_ne hli] at hv hs hroom
    have hlis : Listens (m.conns l) := ⟨hv,hs⟩
    rw [setConn_conns,setConn_conns,update_of_ne hli]
    by_cases hkl : k = l
    · subst hkl
      rw [update_self]
      exact .pushed hpro hpar hli.symm hlis hroom
    · rw [update_of_ne hkl]
      exact (SlotMove.promoted hpro hpar hlis).update (setConn_conns _ _ _) k

lemma handleConn_slot (hp : Arrives m e i s) (h : handleConn m i s = some m') (k : Cid) :
    SlotMove m e k (m'.conns k) := by
  unfold handleConn at h
  dsimp only at h
  split at h
  next hrst =>
    obtain rfl := some.inj h
    exact (SlotMove.resets hp hrst).update rfl k
  next hrst =>
  split at h
  next hsent =>
    split at h
    next =>
      obtain rfl := some.inj h
      exact .kept
    next =>
    split at h
    next =>
      obtain rfl := some.inj h
      exact .kept
    next hnum =>
      obtain rfl := some.inj h
      exact (SlotMove.answers hp hsent (not_not.mp hnum)).update rfl k
  next hsent =>
  split at h
  next =>
    obtain rfl := some.inj h
    exact .kept
  next hack =>
  split at h
  next hrecv =>
    obtain rfl := some.inj h
    exact promote_slot hp (by simpa using hrst) (by simpa using hack) hrecv k
  next hrecv =>
    obtain ⟨c,n,hf,hconns,-⟩ := onConn_spec h
    exact (SlotMove.synced hp (by simpa using hrst) (by simpa using hack) ⟨hsent,hrecv⟩ hf).update hconns k

lemma step_slot {a : Answer} (h : step m e = some (a,m')) (k : Cid) : SlotMove m e k (m'.conns k) := by
  cases e with
  | connect dst port isn =>
    obtain ⟨-,rfl⟩ := Prod.mk.inj (some.inj h)
    exact tcpConnect_slot dst port isn k
  | listen port =>
    obtain ⟨-,rfl⟩ := Prod.mk.inj (some.inj h)
    exact tcpListen_slot port k
  | accept cid =>
    obtain ⟨-,rfl⟩ := Prod.mk.inj (some.inj h)
    exact tcpAccept_slot cid k
  | send cid data len =>
    obtain ⟨⟨r,w⟩,hw,hm⟩ := Option.bind_eq_some_iff.mp h
    obtain ⟨-,rfl⟩ := Prod.mk.inj (some.inj hm)
    exact tcpSend_slot hw k
  | recv cid cap =>
    obtain ⟨-,rfl⟩ := Prod.mk.inj (some.inj h)
    exact tcpRecv_slot cid cap k
  | close cid =>
    obtain ⟨⟨r,w⟩,hw,hm⟩ := Option.bind_eq_some_iff.mp h
    obtain ⟨-,rfl⟩ := Prod.mk.inj (some.inj hm)
    exact tcpClose_slot hw k
  | poll =>
    obtain ⟨w,hw,hm⟩ := Option.bind_eq_some_iff.mp h
    obtain ⟨-,rfl⟩ := Prod.mk.inj (some.inj hm)
    obtain ⟨n,n',hp⟩ := (pollFrom_spec (nodup_finRange _) hw k).1 (mem_finRange k)
    exact .polls rfl hp
  | handle src dst p isn =>
    obtain ⟨w,hw,hm⟩ := Option.bind_eq_some_iff.mp h
    obtain ⟨-,rfl⟩ := Prod.mk.inj (some.inj hm)
    unfold tcpHandle at hw
    cases hb : Segment.decode src dst p with
    | none =>
      rw [hb] at hw
      obtain rfl := some.inj hw
      exact .kept
    | some s =>
      rw [hb] at hw
      unfold handleSegment at hw
      cases hc : m.findConnForPkt src s.dstPort s.srcPort with
      | none =>
        dsimp only at hw
        rw [hc] at hw
        obtain rfl := some.inj hw
        exact handleNew_slot hb hc k
      | some i =>
        dsimp only at hw
        rw [hc] at hw
        exact handleConn_slot ⟨src,dst,p,isn,rfl,hb,hc⟩ hw k

end VibeOS.Tcp

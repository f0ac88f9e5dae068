import VibeOS.Srv.Connection

/-! What the readers of a connection get, compared with what the writers sent. -/
namespace VibeOS.Srv
open Function List Option
open VibeOS.Storage

/-- The connection with the messages that calls have accepted and given out so far. -/
structure World where
  kernel : Kernel
  accepted : Dir → List Msg
  delivered : Dir → List Msg

/-- The message of a call of `srv_write`. -/
def payload (buf : Option (ℕ → UInt8)) (len : UInt64) : Msg := (List.range len.toNat).map (buf.getD fun _ => 0)

/-- What a call adds to what was accepted: a successful `srv_write` adds its message. -/
def Event.sends (ev : Event) (a : Answer) (d : Dir) : List Msg :=
  match ev with
  | .write e buf len _ => if 0 ≤ a.value ∧ e.writes = d then [payload buf len] else []
  | _ => []

/-- What a call adds to what was given out: a successful `srv_read` adds what its caller got. -/
def Event.gets (ev : Event) (a : Answer) (d : Dir) : List Msg :=
  match ev with
  | .read e _ _ _ => if e.reads = d then a.message.toList else []
  | _ => []

def World.step (w : World) (ev : Event) : Option (Answer × World) :=
  (Srv.step w.kernel ev).map fun (a,k) =>
    (a,⟨k,fun d => w.accepted d ++ ev.sends a d,fun d => w.delivered d ++ ev.gets a d⟩)

def World.initial : World := ⟨.accepted,fun _ => [],fun _ => []⟩

def Kernel.front (k : Kernel) (d : Dir) : Option Msg := (k.conn.queue d).head.bind fun p => (k.heap p).map Cell.value

/-- A call of `srv_read` that finds a message it has room for can write to its buffer. -/
def Deliverable (w : World) (ev : Event) : Prop := ∀ e buf len u m, ev = .read e buf len u →
  ¬ (buf = 0 ∧ len > 0) → w.kernel.front e.reads = some m → m.length ≤ len.toNat →
    u.accepts buf.toNat m.length = true

/-- How a call of `srv_read` on a queue ends. -/
inductive ReadEnds (k : Kernel) (e : End) (buf len : UInt64) (u : User) (ps : List Ptr) (xs : List Msg) :
    Turn (Answer × Kernel) → Prop
  | waits : ReadEnds k e buf len u ps xs .blocks
  | refuses {v} : ReadEnds k e buf len u ps xs (.returns (⟨v,none⟩,k))
  | takes {p ps' m ys q a} (cells : ps = p :: ps') (msgs : xs = m :: ys) (null : ¬ (buf = 0 ∧ len > 0))
      (fits : m.length ≤ len.toNat) (rest : q.Holds k.heap ps' ys)
      (answer : u.accepts buf.toNat m.length = true ∧ a = ⟨m.length,some m⟩ ∨
        u.accepts buf.toNat m.length = false ∧ a = ⟨-efault,none⟩) :
      ReadEnds k e buf len u ps xs
        (.returns (a,{ k.setQueue e.reads q with heap := update k.heap p none }))

variable {k k' : Kernel} {e : End} {buf len : UInt64} {u : User} {ps : List Ptr} {xs : List Msg} {d : Dir}
  {a : Answer} {ev : Event} {w w' : World}

lemma copyToUser_bytes (uptr : ℕ) (data : List UInt8) (h : u.accepts uptr data.length = true) :
    (copyToUser u uptr data).1 = 0 ∧ (copyToUser u uptr data).2.bytes uptr data.length = data := by
  unfold copyToUser
  rw [if_pos h]
  refine ⟨rfl,ext_getElem (by simp [User.bytes]) fun i hi hi' => ?_⟩
  simp only [User.bytes,getElem_map,getElem_range]
  rw [if_pos (by omega),Nat.add_sub_cancel_left,getD_eq_getElem?_getD,getElem?_eq_getElem hi',getD_some]

lemma front_of_holds (hq : (k.conn.queue d).Holds k.heap ps xs) : k.front d = xs.head? := by
  obtain ⟨hchain,-,-,-⟩ := hq
  unfold Kernel.front
  generalize (k.conn.queue d).head = s at hchain
  cases hchain with
  | nil => rfl
  | cons cell => simp [cell]

lemma srvRead_spec (buf len : UInt64) (u : User) (hq : (k.conn.queue e.reads).Holds k.heap ps xs) :
    ∃ t, k.srvRead e buf len u = some t ∧ ReadEnds k e buf len u ps xs t := by
  unfold Kernel.srvRead
  split
  next => exact ⟨_,rfl,.refuses⟩
  next hnull =>
  cases ps with
  | nil =>
    have hcount : ¬ (k.conn.queue e.reads).count > 0 := by rw [hq.count]; exact Nat.lt_irrefl 0
    dsimp only
    rw [if_neg hcount]
    split
    · exact ⟨_,rfl,.refuses⟩
    · exact ⟨_,rfl,.waits⟩
  | cons p ps' =>
    have hcount : (k.conn.queue e.reads).count > 0 := by rw [hq.count]; exact Nat.succ_pos _
    obtain ⟨c,ys,hcell,rfl,hhead,q',hpop,hrest⟩ := hq.pop
    dsimp only
    rw [if_pos hcount,hhead]
    simp only [bind_eq_bind,bind_some,hcell,hpop]
    split
    next => exact ⟨_,rfl,.refuses⟩
    next hfit =>
      have hfit := Nat.le_of_not_lt hfit
      cases hacc : u.accepts buf.toNat c.value.length with
      | true =>
        obtain ⟨hrc,hbytes⟩ := copyToUser_bytes buf.toNat c.value hacc
        rw [hrc,hbytes]
        exact ⟨_,rfl,.takes rfl rfl hnull hfit hrest (.inl ⟨hacc,rfl⟩)⟩
      | false =>
        have hrc : copyToUser u buf.toNat c.value = (-efault,u) := by
          unfold copyToUser
          rw [hacc]
          rfl
        rw [hrc]
        exact ⟨_,rfl,.takes rfl rfl hnull hfit hrest (.inr ⟨hacc,rfl⟩)⟩

/-- How a call of `srv_write` on a queue ends. -/
inductive WriteEnds (k : Kernel) (e : End) (buf : Option (ℕ → UInt8)) (len : UInt64) (ps : List Ptr) (xs : List Msg) :
    Turn (Answer × Kernel) → Prop
  | waits : WriteEnds k e buf len ps xs .blocks
  | refuses {v} (error : v < 0) : WriteEnds k e buf len ps xs (.returns (⟨v,none⟩,k))
  | sends {p q h} (room : xs.length < queueMsgs) (fresh : k.heap p = none)
      (holds : q.Holds h (ps ++ [p]) (xs ++ [payload buf len])) (frame : ∀ p', p' ≠ p → p' ∉ ps → h p' = k.heap p') :
      WriteEnds k e buf len ps xs (.returns (⟨len.toNat,none⟩,{ k.setQueue e.writes q with heap := h }))

lemma srvWrite_spec (buf : Option (ℕ → UInt8)) (len : UInt64) {cell : Option Ptr} (hq : (k.conn.queue e.writes).Holds k.heap ps xs)
    (hcell : ∀ p, cell = some p → k.heap p = none) : WriteEnds k e buf len ps xs (k.srvWrite e buf len cell) := by
  unfold Kernel.srvWrite
  split
  next => exact .refuses (by decide)
  split
  next => exact .refuses (by decide)
  split
  next => exact .refuses (by decide)
  dsimp only
  split
  next hroom =>
    cases cell with
    | none => exact .refuses (by decide)
    | some p =>
      have hfresh := hcell p rfl
      have hmem : p ∉ ps := fun hp => by
        have hal := hq.chain.allocated hp
        rw [hfresh] at hal
        cases hal
      have hq' : (k.conn.queue e.writes).Holds (update k.heap p (some ⟨none,payload buf len⟩)) ps xs :=
        hq.congr fun p' hp' => by
          refine update_of_ne ?_ _ _
          rintro rfl
          exact hmem hp'
      obtain ⟨hpush,hframe⟩ := hq'.push (update_self ..) hmem
      refine .sends ?_ hfresh hpush fun p' hne hp' => (hframe p' hne hp').trans (update_of_ne hne _ _)
      rw [hq.chain.length,← hq.count]
      exact hroom
  next => exact .waits

lemma queueDrain_spec (hq : (k.conn.queue d).Holds k.heap ps xs) : ∃ h, k.queueDrain d =
    some { k.setQueue d LinkedQueue.empty with heap := h } ∧ ∀ p, h p = if p ∈ ps then none else k.heap p := by
  obtain ⟨h,hfree,hh⟩ := hq.chain.free hq.nodup ((k.conn.queue d).count + 1) (by rw [hq.count]; omega)
  refine ⟨h,?_,hh⟩
  unfold Kernel.queueDrain
  dsimp only
  rw [hfree]
  rfl

/-- The queues hold what was accepted and not yet given out; only when both ends are closed are
messages dropped. -/
structure Tracks (w : World) (ps : Dir → List Ptr) (xs : Dir → List Msg) : Prop where
  holds : ∀ d, (w.kernel.conn.queue d).Holds w.kernel.heap (ps d) (xs d)
  apart : ∀ d d', d ≠ d' → ∀ p ∈ ps d, p ∉ ps d'
  order : ∀ d, ∃ lost, w.accepted d = w.delivered d ++ xs d ++ lost ∧
    ((∃ e, w.kernel.conn.opened e = true) → lost = [])
  bound : ∀ d, (xs d).length ≤ queueMsgs

lemma initial_tracks : Tracks .initial (fun _ => []) (fun _ => []) where
  holds _ := LinkedQueue.empty_holds _
  apart _ _ _ _ hp := absurd hp not_mem_nil
  order _ := ⟨[],rfl,fun _ => rfl⟩
  bound _ := Nat.zero_le _

variable {cells : Dir → List Ptr} {msgs : Dir → List Msg}

lemma Tracks.order_open (hw : Tracks w cells msgs) (he : w.kernel.conn.opened e = true) (d : Dir) :
    w.accepted d = w.delivered d ++ msgs d := by
  obtain ⟨lost,hord,hlost⟩ := hw.order d
  rw [hord,hlost ⟨e,he⟩,append_nil]

lemma Tracks.setQueue {q : LinkedQueue Ptr} {h : CellHeap Ptr Msg} {ps' : List Ptr} {xs' : List Msg}
    {acc del : Dir → List Msg} (hw : Tracks w cells msgs) (d : Dir) (hq : q.Holds h ps' xs')
    (hframe : ∀ d', d' ≠ d → ∀ p ∈ cells d', h p = w.kernel.heap p)
    (hapart : ∀ d', d' ≠ d → ∀ p ∈ ps', p ∉ cells d') (hbound : xs'.length ≤ queueMsgs)
    (hord : acc d = del d ++ xs') (hord' : ∀ d', d' ≠ d → acc d' = del d' ++ msgs d') :
    Tracks ⟨{ w.kernel.setQueue d q with heap := h },acc,del⟩ (update cells d ps')
      (update msgs d xs') := by
  refine ⟨fun d' => ?_,fun d₁ d₂ hne p hp hp' => ?_,fun d' => ⟨[],?_,fun _ => rfl⟩,fun d' => ?_⟩
  · by_cases hd : d' = d
    · subst hd
      simpa [Kernel.setQueue] using hq
    · simpa [Kernel.setQueue,hd] using (hw.holds d').congr (hframe d' hd)
  · by_cases h₁ : d₁ = d
    · subst h₁
      rw [update_self] at hp
      rw [update_of_ne hne.symm] at hp'
      exact hapart d₂ hne.symm p hp hp'
    · rw [update_of_ne h₁] at hp
      by_cases h₂ : d₂ = d
      · subst h₂
        rw [update_self] at hp'
        exact hapart d₁ h₁ p hp' hp
      · rw [update_of_ne h₂] at hp'
        exact hw.apart d₁ d₂ hne p hp hp'
  · by_cases hd : d' = d
    · subst hd
      simpa using hord
    · simpa [hd] using hord' d' hd
  · by_cases hd : d' = d
    · subst hd
      simpa using hbound
    · simpa [hd] using hw.bound d'

lemma Tracks.same (hw : Tracks w cells msgs) (hs : ∀ d, ev.sends a d = []) (hg : ∀ d, ev.gets a d = []) :
    Tracks ⟨w.kernel,fun d => w.accepted d ++ ev.sends a d,fun d => w.delivered d ++ ev.gets a d⟩ cells msgs := by
  have hacc : (fun d => w.accepted d ++ ev.sends a d) = w.accepted := by
    funext d
    rw [hs,append_nil]
  have hdel : (fun d => w.delivered d ++ ev.gets a d) = w.delivered := by
    funext d
    rw [hg,append_nil]
  rw [hacc,hdel]
  exact hw

lemma Tracks.read (hw : Tracks w cells msgs) (hok : Deliverable w (.read e buf len u))
    (ho : w.kernel.conn.opened e = true) (h : w.kernel.srvRead e buf len u = some (.returns (a,k'))) :
    ∃ cells' msgs', Tracks ⟨k',fun d => w.accepted d ++ Event.sends (.read e buf len u) a d,
      fun d => w.delivered d ++ Event.gets (.read e buf len u) a d⟩ cells' msgs' := by
  have hq := hw.holds e.reads
  obtain ⟨t,ht,hends⟩ := srvRead_spec buf len u hq
  obtain rfl := some.inj (ht.symm.trans h)
  generalize hp : cells e.reads = ps at hends
  generalize hx : msgs e.reads = xs at hends
  cases hends with
  | refuses =>
    exact ⟨cells,msgs,hw.same (fun _ => rfl) fun d => by simp [Event.gets]⟩
  | @takes p ps' m ys q _ hcells hmsgs null fits rest answer =>
    subst hcells hmsgs
    have hfront : w.kernel.front e.reads = some m := by
      rw [front_of_holds hq,hx]
      rfl
    have hacc := hok e buf len u m rfl null hfront fits
    rcases answer with ⟨-,rfl⟩ | ⟨hno,-⟩
    swap
    · exact absurd (hacc.symm.trans hno) (by simp)
    have hnd := hq.nodup
    rw [hp] at hnd
    obtain ⟨hpnew,-⟩ := List.nodup_cons.mp hnd
    have hmem {p' : Ptr} (hp' : p' ∈ p :: ps') {d' : Dir} (hd : d' ≠ e.reads) : p' ∉ cells d' :=
      hw.apart e.reads d' hd.symm p' (hp ▸ hp')
    refine ⟨_,_,hw.setQueue e.reads (rest.congr fun p' hp' => ?_) (fun d' hd p' hp' => ?_)
      (fun d' hd p' hp' => hmem (mem_cons_of_mem _ hp') hd) ?_ ?_ fun d' hd => ?_⟩
    · refine update_of_ne ?_ _ _
      rintro rfl
      exact hpnew hp'
    · refine update_of_ne ?_ _ _
      rintro rfl
      exact hmem mem_cons_self hd hp'
    · have hb := hw.bound e.reads
      rw [hx,length_cons] at hb
      omega
    · have hord := hw.order_open ho e.reads
      simp [Event.sends,Event.gets,hord,hx]
    · have hord := hw.order_open ho d'
      simp [Event.sends,Event.gets,hord,hd.symm]

lemma Tracks.write {buf : Option (ℕ → UInt8)} {cell : Option Ptr} (hw : Tracks w cells msgs)
    (ho : w.kernel.conn.opened e = true) (hcell : ∀ p, cell = some p → w.kernel.heap p = none)
    (h : w.kernel.srvWrite e buf len cell = .returns (a,k')) :
    ∃ cells' msgs', Tracks ⟨k',fun d => w.accepted d ++ Event.sends (.write e buf len cell) a d,
      fun d => w.delivered d ++ Event.gets (.write e buf len cell) a d⟩ cells' msgs' := by
  have hq := hw.holds e.writes
  have hends := srvWrite_spec buf len hq hcell
  rw [h] at hends
  cases hends with
  | refuses error =>
    refine ⟨cells,msgs,hw.same (fun d => ?_) fun _ => rfl⟩
    simp only [Event.sends]
    rw [if_neg fun hand => Int.not_le.mpr error hand.1]
  | @sends p q h room fresh holds frame =>
    have hnew {d' : Dir} : p ∉ cells d' := fun hp => by
      have hal := (hw.holds d').chain.allocated hp
      rw [fresh] at hal
      cases hal
    have hother {d' : Dir} (hd : d' ≠ e.writes) {p' : Ptr} (hp' : p' ∈ cells d') : p' ∉ cells e.writes :=
      hw.apart d' e.writes hd p' hp'
    refine ⟨_,_,hw.setQueue e.writes holds (fun d' hd p' hp' => frame p' ?_ (hother hd hp'))
      (fun d' hd p' hp' hmem => ?_) ?_ ?_ fun d' hd => ?_⟩
    · rintro rfl
      exact hnew hp'
    · rcases List.mem_append.mp hp' with hp' | hp'
      · exact hother hd hmem hp'
      · obtain rfl := List.mem_singleton.mp hp'
        exact hnew hmem
    · rw [length_append,length_singleton]
      exact room
    · have hord := hw.order_open ho e.writes
      simp [Event.sends,Event.gets,hord]
    · have hord := hw.order_open ho d'
      simp [Event.sends,Event.gets,hord,hd.symm]

lemma Tracks.close (hw : Tracks w cells msgs) (ho : w.kernel.conn.opened e = true)
    (h : w.kernel.srvUnrefConn e = some k') : ∃ cells' msgs', Tracks ⟨k',w.accepted,w.delivered⟩ cells' msgs' := by
  have hord := hw.order_open ho
  unfold Kernel.srvUnrefConn at h
  dsimp only at h
  split at h
  next hboth =>
    obtain ⟨k₁,h₁,h₂⟩ := Option.bind_eq_some_iff.mp h
    obtain ⟨heap₁,hk₁,hh₁⟩ := queueDrain_spec
      (k := ⟨⟨w.kernel.conn.queue,update w.kernel.conn.opened e false⟩,w.kernel.heap⟩) (hw.holds .c2s)
    obtain rfl := some.inj (hk₁.symm.trans h₁)
    have hs2c : (w.kernel.conn.queue .s2c).Holds heap₁ _ _ := (hw.holds .s2c).congr fun p hp => by
      rw [hh₁,if_neg (hw.apart .s2c .c2s (by decide) p hp)]
    obtain ⟨heap₂,hk₂,-⟩ := queueDrain_spec (d := .s2c) (k := { Kernel.setQueue
      ⟨⟨w.kernel.conn.queue,update w.kernel.conn.opened e false⟩,w.kernel.heap⟩ .c2s
      LinkedQueue.empty with heap := heap₁ }) (by simpa [Kernel.setQueue] using hs2c)
    obtain rfl := some.inj (hk₂.symm.trans h₂)
    refine ⟨fun _ => [],fun _ => [],fun d => ?_,fun _ _ _ _ hp => absurd hp not_mem_nil,
      fun d => ⟨msgs d,by rw [hord d,append_nil],fun ⟨e',he'⟩ => ?_⟩,fun _ => Nat.zero_le _⟩
    · cases d <;> simpa [Kernel.setQueue] using LinkedQueue.empty_holds _
    · simp only [Bool.not_eq_true',Kernel.setQueue] at hboth he'
      cases e' with
      | client => exact absurd (hboth.1.symm.trans he') (by simp)
      | service => exact absurd (hboth.2.symm.trans he') (by simp)
  next =>
    obtain rfl := some.inj h
    exact ⟨cells,msgs,hw.holds,hw.apart,fun d => ⟨[],by rw [hord d,append_nil],fun _ => rfl⟩,hw.bound⟩

lemma Tracks.step (hw : Tracks w cells msgs) (hok : Deliverable w ev) (h : w.step ev = some (a,w')) :
    ∃ cells' msgs', Tracks w' cells' msgs' := by
  obtain ⟨⟨a',k⟩,hk,heq⟩ := Option.map_eq_some_iff.mp h
  obtain ⟨rfl,rfl⟩ := Prod.mk.inj heq
  unfold Srv.step at hk
  split at hk
  · cases hk
  next hopen =>
  have ho : w.kernel.conn.opened ev.end_ = true := by simpa using hopen
  cases ev with
  | read e buf len u =>
    dsimp only at hk
    split at hk
    next r hr =>
      obtain rfl := some.inj hk
      exact hw.read hok ho hr
    · cases hk
  | write e buf len cell =>
    dsimp only at hk
    split at hk
    · cases hk
    next hcell =>
    split at hk
    next r hr =>
      obtain rfl := some.inj hk
      refine hw.write ho (fun p hp => ?_) hr
      subst hp
      simpa using hcell
    · cases hk
  | interrupted e =>
    obtain ⟨rfl,rfl⟩ := Prod.mk.inj (some.inj hk)
    exact ⟨cells,msgs,hw.same (fun _ => rfl) fun _ => rfl⟩
  | close e =>
    obtain ⟨k₁,hk₁,heq⟩ := Option.map_eq_some_iff.mp hk
    obtain ⟨rfl,rfl⟩ := Prod.mk.inj heq
    obtain ⟨cells',msgs',hw'⟩ := hw.close ho hk₁
    exact ⟨cells',msgs',by simpa [Event.sends,Event.gets] using hw'⟩

/-- A call of `srv_read`, also one that a signal ends. -/
def Event.Reads : Event → Prop
  | .read .. | .interrupted _ => True
  | _ => False

lemma failed_read_unchanged (hw : Tracks w cells msgs) (hok : Deliverable w ev) (h : w.step ev = some (a,w'))
    (hr : ev.Reads) (herr : a.value < 0) : w'.kernel = w.kernel := by
  obtain ⟨⟨a',k⟩,hk,heq⟩ := Option.map_eq_some_iff.mp h
  obtain ⟨rfl,rfl⟩ := Prod.mk.inj heq
  unfold Srv.step at hk
  split at hk
  · cases hk
  cases ev with
  | read e buf len u =>
    dsimp only at hk
    split at hk
    next r hread =>
      obtain rfl := some.inj hk
      obtain ⟨t,ht,hends⟩ := srvRead_spec buf len u (hw.holds e.reads)
      obtain rfl := some.inj (ht.symm.trans hread)
      have hfront := front_of_holds (hw.holds e.reads)
      generalize cells e.reads = ps at hends
      generalize msgs e.reads = xs at hends hfront
      cases hends with
      | refuses => rfl
      | @takes p ps' m ys q _ hcells hmsgs null fits rest answer =>
        subst hmsgs
        have hacc := hok e buf len u m rfl null hfront fits
        rcases answer with ⟨-,rfl⟩ | ⟨hno,-⟩
        · exact absurd herr (Int.not_lt.mpr (Int.natCast_nonneg _))
        · exact absurd (hacc.symm.trans hno) (by simp)
    · cases hk
  | write | close => exact hr.elim
  | interrupted =>
    obtain ⟨rfl,rfl⟩ := Prod.mk.inj (some.inj hk)
    rfl

lemma tracks_run {es : List Event} (h : Runs World.step Deliverable .initial es w) :
    ∃ cells msgs, Tracks w cells msgs := by
  refine h.invariant (I := fun w => ∃ cells msgs, Tracks w cells msgs) (fun w ev a w' hw hok hstep => ?_)
    ⟨_,_,initial_tracks⟩
  obtain ⟨cells,msgs,hw⟩ := hw
  exact hw.step hok hstep

/-- In each direction the messages that were read are the first of those that were written, a
queue stays within its bound, and a read that fails changes nothing. -/
theorem messages_intact {es : List Event} (h : Runs World.step Deliverable .initial es w) :
    (∀ d, w.delivered d <+: w.accepted d) ∧ (∀ d, (w.kernel.conn.queue d).count ≤ queueMsgs) ∧
      ∀ ev a w', Deliverable w ev → w.step ev = some (a,w') → ev.Reads → a.value < 0 → w'.kernel = w.kernel := by
  obtain ⟨cells,msgs,hw⟩ := tracks_run h
  refine ⟨fun d => ?_,fun d => ?_,fun ev a w' hok hstep hr herr => failed_read_unchanged hw hok hstep hr herr⟩
  · obtain ⟨lost,hord,-⟩ := hw.order d
    rw [hord,append_assoc]
    exact prefix_append _ _
  · rw [(hw.holds d).count,← (hw.holds d).chain.length]
    exact hw.bound d

def openUser : User := ⟨fun _ => 0,true,fun _ => true⟩

def sendByte (b : UInt8) (p : Ptr) : Event := .write .client (some fun _ => b) 1 (some p)

theorem messages_intact_two : ∃ w, Runs World.step Deliverable .initial
    [sendByte 1 16,.read .service 0x1000000000 8 openUser] w ∧ w.delivered .c2s = [[1]] ∧
      w.delivered .c2s <+: w.accepted .c2s := by
  have hsend : Deliverable .initial (sendByte 1 16) := fun _ _ _ _ _ h => by cases h
  have hread {w : World} (hfront : w.kernel.front .c2s = some [1]) :
      Deliverable w (.read .service 0x1000000000 8 openUser) := by
    intro e buf len u m h _ hm _
    obtain ⟨rfl,rfl,rfl,rfl⟩ := Event.read.inj h
    obtain rfl := some.inj (hfront.symm.trans hm)
    decide
  have hrun : ∃ w, Runs World.step Deliverable .initial
      [sendByte 1 16,.read .service 0x1000000000 8 openUser] w ∧ w.delivered .c2s = [[1]] :=
    ⟨_,.cons hsend rfl (.cons (hread rfl) rfl (.nil _)),by decide⟩
  obtain ⟨w,hrun,hdel⟩ := hrun
  exact ⟨w,hrun,hdel,(messages_intact hrun).1 .c2s⟩

/-- The first message is lost where the reader's buffer is bad. -/
theorem bad_buffer_loses_message : ¬ ∀ (es : List Event) (w : World),
    Runs World.step (fun _ _ => True) .initial es w → ∀ d, w.delivered d <+: w.accepted d := by
  intro h
  have hrun : ∃ w, Runs World.step (fun _ _ => True) .initial [sendByte 1 16,sendByte 2 32,
      .read .service 64 8 openUser,.read .service 0x1000000000 8 openUser] w ∧
      w.accepted .c2s = [[1],[2]] ∧ w.delivered .c2s = [[2]] := by
    refine ⟨_,.cons trivial rfl (.cons trivial rfl (.cons trivial rfl (.cons trivial rfl (.nil _)))),?_,?_⟩
    · decide
    · decide
  obtain ⟨w,hrun,hacc,hdel⟩ := hrun
  have hpre := h _ _ hrun .c2s
  rw [hacc,hdel] at hpre
  exact absurd hpre (by decide)

end VibeOS.Srv

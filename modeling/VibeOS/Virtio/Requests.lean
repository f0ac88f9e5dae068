import VibeOS.Virtio.Driver

/-! Requests and completions: what a call that returns 0 says about the device and the disk, as long
as the device is done with each request before the driver gives up on it. -/
namespace VibeOS.Virtio
open List Option
open Function (update update_eq_self update_idem update_of_ne update_self)
open VibeOS.Storage
namespace State

/-- The first `n` bytes of the request are where they belong. -/
def Moved (q : Request) (n : ℕ) (s : State) : Prop :=
  (q.isRead = true → s.disk = q.before ∧ ∀ j : Fin 512, j.val < n → s.page.data j = q.before q.sector j) ∧
  (q.isRead = false → s.page.data = q.buf ∧ s.disk = update q.before q.sector
    fun j => if j.val < n then q.buf j else q.before q.sector j)

variable {q : Request}

lemma Moved.start {s : State} (h : Ready q.toCall s.page) (hd : s.disk = q.before) : Moved q 0 s := by
  refine ⟨fun _ => ⟨hd,fun j hj => absurd hj (Nat.not_lt_zero _)⟩,fun hr => ⟨h.data hr,?_⟩⟩
  rw [hd]
  refine (update_eq_self q.sector q.before).symm.trans (congrArg _ ?_)
  funext j
  exact (if_neg (Nat.not_lt_zero _)).symm

variable {s t : State}

lemma Moved.congr {n : ℕ} (h : Moved q n s) (hp : t.page.data = s.page.data)
    (hd : t.disk = s.disk) : Moved q n t := by
  unfold Moved
  rw [hp,hd]
  exact h

/-- A call that returns 0 was served: the device has put this request into the used ring with a good
status, a read has the sector's data, and a write has changed its sector and no other. -/
structure Served (r : Result) (s : State) : Prop where
  completed : (r.request.serial,statusOk) ∈ s.log
  read : r.request.isRead = true → r.buf = s.disk r.request.sector
  written : r.request.isRead = false → s.disk = update r.request.before r.request.sector r.request.buf

lemma Moved.written {s : State} (h : Moved q 512 s) (hr : q.isRead = false) :
    s.disk = update q.before q.sector q.buf := by
  rw [(h.2 hr).2]
  congr 1
  funext j
  exact if_pos j.isLt

/-- Where the device is with the request that the driver waits for. -/
inductive Progress (q : Request) (s : State) : Prop
  | waiting (new : s.fetched = q.serial) (none : s.inFlight = []) (ready : Ready q.toCall s.page)
      (disk : s.disk = q.before) (unused : s.page.usedIdx = s.usedIdxSeen)
  | working {f : Flight} (took : s.fetched = q.serial + 1) (one : s.inFlight = [f]) (serial : f.serial = q.serial)
      (kind : f.isRead = some q.isRead) (sector : f.sector = q.sector) (open_ : f.answer = Option.none)
      (moved : Moved q f.moved s) (unused : s.page.usedIdx = s.usedIdxSeen)
  | answered {f : Flight} {status : UInt8} (took : s.fetched = q.serial + 1) (one : s.inFlight = [f])
      (serial : f.serial = q.serial) (answer : f.answer = some status) (here : s.page.status = status)
      (moved : status = statusOk → Moved q 512 s) (unused : s.page.usedIdx = s.usedIdxSeen)
  | finished {status : UInt8} (took : s.fetched = q.serial + 1) (none : s.inFlight = [])
      (log : (q.serial,status) ∈ s.log) (here : s.page.status = status) (moved : status = statusOk → Moved q 512 s)
      (used : s.page.usedIdx = s.usedIdxSeen + 1)

structure Done (q : Request) (s : State) : Prop where
  none : s.inFlight = []
  took : s.fetched = s.published
  log : (q.serial,s.page.status) ∈ s.log
  moved : s.page.status = statusOk → Moved q 512 s

/-- What holds wherever the driver is: the 16-bit indices are the counts, as far as they go, and no
more than one request is on its way. -/
structure Counts (s : State) : Prop where
  taken : s.taken = UInt16.ofNat s.fetched
  avail : s.page.availIdx = UInt16.ofNat s.published
  one : s.fetched ≤ s.published ∧ s.published ≤ s.fetched + 1
  ring : ∀ i, s.page.ring i = 0

/-- What holds at each place in `do_request`. -/
def At (s : State) : Pc → Prop
  | .idle => s.availIdxSeen = s.page.availIdx
  | .filling q todo => s.inFlight = [] ∧ s.fetched = s.published ∧ q.serial = s.published ∧ s.disk = q.before ∧
      s.page.usedIdx = s.usedIdxSeen ∧ s.availIdxSeen = s.page.availIdx ∧ Ready q.toCall (todo.foldl Page.store s.page) ∧
      ∀ st ∈ todo, ∀ p : Page, (∀ i, p.ring i = 0) → ∀ i, (p.store st).ring i = 0
  | .exposing q => s.inFlight = [] ∧ s.fetched = s.published ∧ q.serial = s.published ∧ s.disk = q.before ∧
      s.page.usedIdx = s.usedIdxSeen ∧ s.availIdxSeen = s.page.availIdx + 1 ∧ Ready q.toCall s.page
  | .polling q target _ => s.availIdxSeen = s.page.availIdx ∧ target = s.usedIdxSeen + 1 ∧ s.published = q.serial + 1 ∧
      Progress q s
  | .gotIt q _ => s.availIdxSeen = s.page.availIdx ∧ Done q s
  | .checking q => s.availIdxSeen = s.page.availIdx ∧ Done q s
  | .copying q i buf => s.availIdxSeen = s.page.availIdx ∧ Done q s ∧ s.page.status = statusOk ∧ q.isRead = true ∧
      ∀ j : Fin 512, j.val < i → buf j = s.page.data j

structure Inv (s : State) : Prop extends Counts s where
  here : s.At s.pc

/-- Nothing is left with the device when a request starts, and the driver has seen all completions. -/
def Settled (s : State) : Prop :=
  s.inFlight = [] ∧ s.taken = s.page.availIdx ∧ s.page.usedIdx = s.usedIdxSeen

def Prompt (s : State) : Event → Prop
  | .call _ => s.Settled
  | _ => True

lemma Counts.caught_up {s : State} (h : Counts s) (he : s.taken = s.page.availIdx) : s.fetched = s.published := by
  have hmod := congrArg UInt16.toNat (h.taken.symm.trans (he.trans h.avail))
  rw [UInt16.toNat_ofNat',UInt16.toNat_ofNat'] at hmod
  have := h.one
  omega

lemma Counts.not_taken {s : State} (h : Counts s) (he : s.fetched = s.published) : s.taken = s.page.availIdx := by
  rw [h.taken,h.avail,he]

lemma ofNat_succ (n : ℕ) : UInt16.ofNat n + 1 = UInt16.ofNat (n+1) := (UInt16.ofNat_add n 1).symm

variable {r : Option Result}

lemma Inv.call {c : Call} (h : Inv s) (hs : s.Settled)
    (hstep : s.step (.call c) = some (r,t)) : r = none ∧ Inv t := by
  obtain ⟨hempty,htaken,hused⟩ := hs
  have hhere := h.here
  unfold step at hstep
  dsimp only at hstep
  split at hstep
  · next hpc =>
    rw [hpc] at hhere
    obtain ⟨rfl,rfl⟩ := Prod.mk.inj (some.inj hstep)
    exact ⟨rfl,⟨h.taken,h.avail,h.one,h.ring⟩,hempty,h.caught_up htaken,rfl,rfl,hused,hhere,
      ready_statements c _ s.page h.ring,fun _ hst p hp i => statements_ring hst p hp i⟩
  · cases hstep

lemma Inv.driver (h : Inv s) (hstep : s.driver = some (r,t)) :
    Inv t ∧ ∀ x, r = some x → x.code = 0 → Served x t := by
  have hhere := h.here
  unfold State.driver at hstep
  cases hpc : s.pc with
  | idle => rw [hpc] at hstep; cases hstep
  | filling q todo =>
    rw [hpc] at hhere hstep
    obtain ⟨hempty,hfetched,hserial,hdisk,hused,havail,hready,hquiet⟩ := hhere
    cases todo with
    | nil =>
      obtain ⟨rfl,rfl⟩ := Prod.mk.inj (some.inj hstep)
      exact ⟨⟨⟨h.taken,h.avail,h.one,h.ring⟩,hempty,hfetched,hserial,hdisk,hused,by rw [havail],hready⟩,
        fun _ hx => (by cases hx)⟩
    | cons st todo =>
      obtain ⟨rfl,rfl⟩ := Prod.mk.inj (some.inj hstep)
      obtain ⟨hu,ha⟩ := store_idx s.page st
      refine ⟨⟨⟨h.taken,ha.trans h.avail,h.one,hquiet st mem_cons_self s.page h.ring⟩,hempty,hfetched,hserial,hdisk,
        hu.trans hused,havail.trans ha.symm,hready,fun st' hst => hquiet st' (mem_cons_of_mem _ hst)⟩,
        fun _ hx => (by cases hx)⟩
  | exposing q =>
    rw [hpc] at hhere hstep
    obtain ⟨hempty,hfetched,hserial,hdisk,hused,havail,hready⟩ := hhere
    obtain ⟨rfl,rfl⟩ := Prod.mk.inj (some.inj hstep)
    refine ⟨⟨⟨h.taken,?_,⟨by dsimp only; omega,by dsimp only; omega⟩,h.ring⟩,rfl,rfl,by dsimp only; rw [hserial],
      .waiting (hfetched.trans hserial.symm) hempty ⟨hready.chain,hready.sector,hready.data,hready.ring⟩ hdisk hused⟩,
      fun _ hx => (by cases hx)⟩
    change s.availIdxSeen = UInt16.ofNat (s.published + 1)
    rw [havail,h.avail,ofNat_succ]
  | polling q target spin =>
    rw [hpc] at hhere hstep
    obtain ⟨havail,htarget,hpub,hprog⟩ := hhere
    dsimp only at hstep
    split at hstep
    · obtain ⟨rfl,rfl⟩ := Prod.mk.inj (some.inj hstep)
      refine ⟨⟨⟨h.taken,h.avail,h.one,h.ring⟩,havail⟩,fun x hx h0 => ?_⟩
      obtain rfl := some.inj hx
      exact absurd h0 (show ¬ (-1 : ℤ) = 0 by decide)
    · split at hstep
      · next hu =>
        obtain ⟨rfl,rfl⟩ := Prod.mk.inj (some.inj hstep)
        refine ⟨⟨⟨h.taken,h.avail,h.one,h.ring⟩,havail,?_⟩,fun _ hx => (by cases hx)⟩
        have hne : s.page.usedIdx ≠ s.usedIdxSeen := by
          rw [hu,htarget]
          intro he
          have := congrArg UInt16.toNat he
          rw [UInt16.toNat_add] at this
          have hlt := s.usedIdxSeen.toNat_lt
          change (_ + 1) % 2^16 = _ at this
          omega
        -- the index has moved, so the device is through with the request
        cases hprog with
        | waiting _ _ _ _ unused | working _ _ _ _ _ _ _ unused | answered _ _ _ _ _ _ unused => exact absurd unused hne
        | finished took none log here moved =>
          exact ⟨none,took.trans hpub.symm,here ▸ log,fun h0 => (moved (here.symm.trans h0)).congr rfl rfl⟩
      · obtain ⟨rfl,rfl⟩ := Prod.mk.inj (some.inj hstep)
        refine ⟨⟨⟨h.taken,h.avail,h.one,h.ring⟩,havail,htarget,hpub,?_⟩,fun _ hx => (by cases hx)⟩
        cases hprog with
        | waiting new none ready disk unused => exact .waiting new none ready disk unused
        | working took one serial kind sector open_ moved unused =>
          exact .working took one serial kind sector open_ (moved.congr rfl rfl) unused
        | answered took one serial answer here moved unused =>
          exact .answered took one serial answer here (fun h0 => (moved h0).congr rfl rfl) unused
        | finished took none log here moved used =>
          exact .finished took none log here (fun h0 => (moved h0).congr rfl rfl) used
  | gotIt q target =>
    rw [hpc] at hhere hstep
    obtain ⟨havail,hdone⟩ := hhere
    obtain ⟨rfl,rfl⟩ := Prod.mk.inj (some.inj hstep)
    exact ⟨⟨⟨h.taken,h.avail,h.one,h.ring⟩,havail,hdone.none,hdone.took,hdone.log,
      fun h0 => (hdone.moved h0).congr rfl rfl⟩,fun _ hx => (by cases hx)⟩
  | checking q =>
    rw [hpc] at hhere hstep
    obtain ⟨havail,hdone⟩ := hhere
    dsimp only at hstep
    split at hstep
    · obtain ⟨rfl,rfl⟩ := Prod.mk.inj (some.inj hstep)
      refine ⟨⟨⟨h.taken,h.avail,h.one,h.ring⟩,havail⟩,fun x hx h0 => ?_⟩
      obtain rfl := some.inj hx
      exact absurd h0 (show ¬ (-1 : ℤ) = 0 by decide)
    · next hok =>
      have hok := not_not.mp hok
      split at hstep
      · next hr =>
        obtain ⟨rfl,rfl⟩ := Prod.mk.inj (some.inj hstep)
        exact ⟨⟨⟨h.taken,h.avail,h.one,h.ring⟩,havail,⟨hdone.none,hdone.took,hdone.log,
          fun h0 => (hdone.moved h0).congr rfl rfl⟩,hok,hr,fun j hj => absurd hj (Nat.not_lt_zero _)⟩,
          fun _ hx => (by cases hx)⟩
      · next hr =>
        obtain ⟨rfl,rfl⟩ := Prod.mk.inj (some.inj hstep)
        refine ⟨⟨⟨h.taken,h.avail,h.one,h.ring⟩,havail⟩,fun x hx _ => ?_⟩
        obtain rfl := some.inj hx
        have hlog := hdone.log
        rw [hok] at hlog
        exact ⟨hlog,fun ht => absurd ht hr,fun hf => (hdone.moved hok).written hf⟩
  | copying q i buf =>
    rw [hpc] at hhere hstep
    obtain ⟨havail,hdone,hok,hr,hcopied⟩ := hhere
    dsimp only at hstep
    split at hstep
    · next hi =>
      obtain ⟨rfl,rfl⟩ := Prod.mk.inj (some.inj hstep)
      refine ⟨⟨⟨h.taken,h.avail,h.one,h.ring⟩,havail,⟨hdone.none,hdone.took,hdone.log,
        fun h0 => (hdone.moved h0).congr rfl rfl⟩,hok,hr,fun j hj => ?_⟩,fun _ hx => (by cases hx)⟩
      by_cases hji : j = ⟨i,hi⟩
      · subst hji
        exact update_self ..
      · rw [update_of_ne hji]
        refine hcopied j (Nat.lt_of_le_of_ne (Nat.le_of_lt_succ hj) fun he => hji (Fin.ext he))
    · next hi =>
      obtain ⟨rfl,rfl⟩ := Prod.mk.inj (some.inj hstep)
      refine ⟨⟨⟨h.taken,h.avail,h.one,h.ring⟩,havail⟩,fun x hx _ => ?_⟩
      obtain rfl := some.inj hx
      have hlog := hdone.log
      rw [hok] at hlog
      obtain ⟨hdisk,hdata⟩ := (hdone.moved hok).1 hr
      refine ⟨hlog,fun _ => ?_,fun hf => absurd (hr.symm.trans hf) (by decide)⟩
      funext j
      exact (hcopied j (by omega)).trans ((hdata j j.isLt).trans (congrFun (congrFun hdisk.symm q.sector) j))

lemma Inv.fetch (h : Inv s) (hstep : s.fetch = some t) : Inv t := by
  have hhere := h.here
  unfold State.fetch at hstep
  split at hstep
  · cases hstep
  next hne =>
    obtain rfl := some.inj hstep
    have hlt : s.fetched ≠ s.published := fun he => hne (h.not_taken he)
    have hone := h.one
    refine ⟨⟨?_,h.avail,⟨by dsimp only; omega,by dsimp only; omega⟩,h.ring⟩,?_⟩
    · change s.taken + 1 = UInt16.ofNat (s.fetched + 1)
      rw [h.taken,ofNat_succ]
    · change State.At _ s.pc
      cases hpc : s.pc with
      | idle => rw [hpc] at hhere; exact hhere
      | filling q todo | exposing q => rw [hpc] at hhere; exact absurd hhere.2.1 hlt
      | gotIt q | checking q => rw [hpc] at hhere; exact absurd hhere.2.took hlt
      | copying q => rw [hpc] at hhere; exact absurd hhere.2.1.took hlt
      | polling q target spin =>
        rw [hpc] at hhere
        obtain ⟨havail,htarget,hpub,hprog⟩ := hhere
        refine ⟨havail,htarget,hpub,?_⟩
        cases hprog with
        | waiting new none ready disk unused =>
          refine .working (f := ⟨s.fetched,readChain s.page (s.page.ring (slotOf s.taken)),s.page.sector,0,.none⟩)
            (congrArg (· + 1) new) (by dsimp only; rw [none]; rfl) new ?_ ready.sector rfl
            ((Moved.start ready disk).congr rfl rfl) unused
          rw [h.ring]
          exact ready.chain
        | working took | answered took | finished took => exact absurd (took.trans hpub.symm) hlt

variable {k : ℕ}

lemma Inv.busy {s : State} (h : Inv s) {f : Flight} (hk : s.inFlight[k]? = some f) :
    s.pc = .idle ∨ ∃ q target spin, s.pc = .polling q target spin ∧ k = 0 ∧ s.inFlight = [f] ∧
      ((s.fetched = q.serial + 1 ∧ f.serial = q.serial ∧ f.isRead = some q.isRead ∧ f.sector = q.sector ∧
        f.answer = none ∧ Moved q f.moved s) ∨
      ∃ status, s.fetched = q.serial + 1 ∧ f.serial = q.serial ∧ f.answer = some status ∧ s.page.status = status ∧
        (status = statusOk → Moved q 512 s)) ∧ s.page.usedIdx = s.usedIdxSeen := by
  have hempty : s.inFlight ≠ [] := fun he => by
    rw [he] at hk
    cases hk
  have hsingle {g : Flight} (hg : s.inFlight = [g]) : k = 0 ∧ g = f := by
    rw [hg] at hk
    cases k with
    | zero => exact ⟨rfl,some.inj hk⟩
    | succ k => cases hk
  have hhere := h.here
  cases hpc : s.pc with
  | idle => exact .inl rfl
  | filling q todo | exposing q => rw [hpc] at hhere; exact absurd hhere.1 hempty
  | gotIt q | checking q => rw [hpc] at hhere; exact absurd hhere.2.none hempty
  | copying q => rw [hpc] at hhere; exact absurd hhere.2.1.none hempty
  | polling q target spin =>
    rw [hpc] at hhere
    cases hhere.2.2.2 with
    | waiting _ none | finished _ none => exact absurd none hempty
    | working took one serial kind sector open_ moved unused =>
      obtain ⟨rfl,rfl⟩ := hsingle one
      exact .inr ⟨q,target,spin,rfl,rfl,one,.inl ⟨took,serial,kind,sector,open_,moved⟩,unused⟩
    | answered took one serial answer here moved unused =>
      obtain ⟨rfl,rfl⟩ := hsingle one
      exact .inr ⟨q,target,spin,rfl,rfl,one,.inr ⟨_,took,serial,answer,here,moved⟩,unused⟩

variable {target : UInt16}

lemma Inv.polled (h : Inv s) {spin : ℕ}
    (hpc : s.pc = .polling q target spin) (hcounts : Counts t) (hpc' : t.pc = s.pc) (hseen : t.availIdxSeen = s.availIdxSeen)
    (havail : t.page.availIdx = s.page.availIdx) (hused : t.usedIdxSeen = s.usedIdxSeen) (hpub : t.published = s.published)
    (hprog : Progress q t) : Inv t := by
  have hhere := h.here
  rw [hpc] at hhere
  refine ⟨hcounts,?_⟩
  rw [hpc',hpc]
  exact ⟨hseen.trans (hhere.1.trans havail.symm),hused.symm ▸ hhere.2.1,hpub.trans hhere.2.2.1,hprog⟩

lemma Moved.read {n : ℕ} (h : Moved q n s) (hr : q.isRead = true) (hn : n < 512)
    (hd : t.disk = s.disk) (hp : t.page.data = update s.page.data ⟨n,hn⟩ (s.disk q.sector ⟨n,hn⟩)) :
    Moved q (n+1) t := by
  obtain ⟨hdisk,hdata⟩ := h.1 hr
  refine ⟨fun _ => ⟨hd.trans hdisk,fun j hj => ?_⟩,fun hf => absurd (hr.symm.trans hf) (by decide)⟩
  rw [hp,hdisk]
  by_cases hjn : j = ⟨n,hn⟩
  · subst hjn
    exact update_self ..
  · rw [update_of_ne hjn]
    exact hdata j (Nat.lt_of_le_of_ne (Nat.le_of_lt_succ hj) fun he => hjn (Fin.ext he))

lemma Moved.write {n : ℕ} (h : Moved q n s) (hr : q.isRead = false) (hn : n < 512)
    (hp : t.page.data = s.page.data) (hd : t.disk = update s.disk q.sector
      (update (s.disk q.sector) ⟨n,hn⟩ (s.page.data ⟨n,hn⟩))) : Moved q (n+1) t := by
  obtain ⟨hdata,hdisk⟩ := h.2 hr
  refine ⟨fun ht => absurd (ht.symm.trans hr) (by decide),fun _ => ⟨hp.trans hdata,?_⟩⟩
  rw [hd,hdata,hdisk,update_self,update_idem]
  congr 1
  funext j
  by_cases hjn : j = ⟨n,hn⟩
  · subst hjn
    rw [update_self,if_pos (Nat.lt_succ_self n)]
  · have hne : j.val ≠ n := fun he => hjn (Fin.ext he)
    rw [update_of_ne hjn]
    exact if_congr (by omega) rfl rfl

lemma Inv.move (h : Inv s) (hstep : s.move k = some t) : Inv t := by
  unfold State.move at hstep
  split at hstep
  · cases hstep
  next f hk =>
    split at hstep
    swap
    · cases hstep
    next hlt =>
      rcases h.busy hk with hidle | ⟨q,target,spin,hpc,rfl,hone,hwork,hunused⟩
      · have hhere := h.here
        rw [hidle] at hhere
        split at hstep
        · cases hstep
          exact ⟨⟨h.taken,h.avail,h.one,h.ring⟩,by change State.At _ s.pc; rw [hidle]; exact hhere⟩
        · cases hstep
          exact ⟨⟨h.taken,h.avail,h.one,h.ring⟩,by change State.At _ s.pc; rw [hidle]; exact hhere⟩
        · cases hstep
      · rcases hwork with ⟨took,serial,kind,sector,hopen,moved⟩ | ⟨_,_,_,answer,_⟩
        swap
        · rw [answer] at hstep
          split at hstep
          · next heq => cases heq
          · next heq => cases heq
          · cases hstep
        rw [kind,hopen] at hstep
        cases hr : q.isRead with
        | true =>
          rw [hr] at hstep kind
          cases hstep
          refine h.polled hpc ⟨h.taken,h.avail,h.one,h.ring⟩ rfl rfl rfl rfl rfl ?_
          refine .working (f := { f with moved := f.moved + 1 }) took
            (by dsimp only; rw [hone,← kind,← hopen]; rfl) serial (hr ▸ kind) sector hopen ?_ hunused
          exact moved.read hr hlt rfl (by rw [← sector])
        | false =>
          rw [hr] at hstep kind
          cases hstep
          refine h.polled hpc ⟨h.taken,h.avail,h.one,h.ring⟩ rfl rfl rfl rfl rfl ?_
          refine .working (f := { f with moved := f.moved + 1 }) took
            (by dsimp only; rw [hone,← kind,← hopen]; rfl) serial (hr ▸ kind) sector hopen ?_ hunused
          exact moved.write hr hlt rfl (by rw [← sector])

lemma Inv.settle {status : UInt8} (h : Inv s) (hstep : s.settle k status = some t) : Inv t := by
  unfold State.settle at hstep
  split at hstep
  · cases hstep
  next f hk =>
    split at hstep
    swap
    · cases hstep
    next hok =>
      cases hstep
      rcases h.busy hk with hidle | ⟨q,target,spin,hpc,rfl,hone,hwork,hunused⟩
      · have hhere := h.here
        rw [hidle] at hhere
        exact ⟨⟨h.taken,h.avail,h.one,h.ring⟩,by change State.At _ s.pc; rw [hidle]; exact hhere⟩
      · rcases hwork with ⟨took,serial,kind,sector,hopen,moved⟩ | ⟨_,_,_,answer,_⟩
        swap
        · rw [answer] at hok
          cases hok.1
        refine h.polled hpc ⟨h.taken,h.avail,h.one,h.ring⟩ rfl rfl rfl rfl rfl ?_
        refine .answered (f := { f with answer := some status }) took (by dsimp only; rw [hone]; rfl) serial rfl rfl
          (fun h0 => ?_) hunused
        have hall := (hok.2 h0).2
        rw [hall] at moved
        exact moved.congr rfl rfl

lemma Inv.retire (h : Inv s) (hstep : s.retire k = some t) : Inv t := by
  unfold State.retire at hstep
  split at hstep
  · cases hstep
  next f hk =>
    obtain ⟨status,hanswer,rfl⟩ := Option.map_eq_some_iff.mp hstep
    rcases h.busy hk with hidle | ⟨q,target,spin,hpc,rfl,hone,hwork,hunused⟩
    · have hhere := h.here
      rw [hidle] at hhere
      exact ⟨⟨h.taken,h.avail,h.one,h.ring⟩,by change State.At _ s.pc; rw [hidle]; exact hhere⟩
    · rcases hwork with ⟨_,_,_,_,hopen,_⟩ | ⟨status',took,serial,answer,here,moved⟩
      · rw [hopen] at hanswer
        cases hanswer
      obtain rfl := some.inj (answer.symm.trans hanswer)
      refine h.polled hpc ⟨h.taken,h.avail,h.one,h.ring⟩ rfl rfl rfl rfl rfl ?_
      refine .finished took (by dsimp only; rw [hone]; rfl) ?_ here (fun h0 => (moved h0).congr rfl rfl)
        (congrArg (· + 1) hunused)
      rw [← serial]
      exact mem_append_right _ (mem_singleton_self _)

lemma Inv.step {e : Event} (h : Inv s) (hp : s.Prompt e)
    (hstep : s.step e = some (r,t)) : Inv t ∧ ∀ x, r = some x → x.code = 0 → Served x t := by
  have hdevice {o : Option State} (ho : o.map (fun t => ((none : Option Result),t)) = some (r,t)) : o = some t ∧ r = none := by
    obtain ⟨u,hu,he⟩ := Option.map_eq_some_iff.mp ho
    obtain ⟨h1,h2⟩ := Prod.mk.inj he
    exact ⟨h2 ▸ hu,h1.symm⟩
  cases e with
  | call c =>
    obtain ⟨rfl,ht⟩ := h.call hp hstep
    exact ⟨ht,fun _ hx => (by cases hx)⟩
  | driver => exact h.driver hstep
  | fetch =>
    obtain ⟨ht,rfl⟩ := hdevice hstep
    exact ⟨h.fetch ht,fun _ hx => (by cases hx)⟩
  | move k =>
    obtain ⟨ht,rfl⟩ := hdevice hstep
    exact ⟨h.move ht,fun _ hx => (by cases hx)⟩
  | settle k status =>
    obtain ⟨ht,rfl⟩ := hdevice hstep
    exact ⟨h.settle ht,fun _ hx => (by cases hx)⟩
  | retire k =>
    obtain ⟨ht,rfl⟩ := hdevice hstep
    exact ⟨h.retire ht,fun _ hx => (by cases hx)⟩

/-- After `init_device`: a page of zeros, nothing published. -/
structure Start (s : State) : Prop where
  idle : s.pc = .idle
  indices : s.taken = 0 ∧ s.page.availIdx = 0 ∧ s.availIdxSeen = 0
  counts : s.fetched = 0 ∧ s.published = 0
  ring : ∀ i, s.page.ring i = 0

lemma Start.inv {s : State} (h : s.Start) : Inv s := by
  obtain ⟨h1,h2,h3⟩ := h.indices
  obtain ⟨h4,h5⟩ := h.counts
  refine ⟨⟨by rw [h1,h4]; rfl,by rw [h2,h5]; rfl,by rw [h4,h5]; omega,h.ring⟩,?_⟩
  rw [h.idle]
  exact h3.trans h2.symm

/-- In every run in which no request starts while an earlier one is not done and seen, a call that
returns 0 was served. -/
theorem requests_matched {s t u : State} {es : List Event} {e : Event} {r : Result} (h : s.Start)
    (run : Runs State.step Prompt s es t) (hp : t.Prompt e) (hstep : t.step e = some (some r,u)) (h0 : r.code = 0) :
    Served r u :=
  ((run.invariant (I := Inv) (fun _ _ _ _ hs hP hn => (hs.step hP hn).1) h.inv).step hp hstep).2 r rfl h0

def boot : State where
  page := ⟨fun _ => ⟨0,0,0,0⟩,fun _ => 0,0,0,0,0,0,0,Bytes.zero⟩
  availIdxSeen := 0
  usedIdxSeen := 0
  pc := .idle
  disk sector := fun _ => sector.toUInt8
  taken := 0
  inFlight := []
  published := 0
  fetched := 0
  log := []

lemma boot_start : boot.Start := ⟨rfl,⟨rfl,rfl,rfl⟩,⟨rfl,rfl⟩,fun _ => rfl⟩

def readCall (sector : UInt64) : Call := ⟨true,sector,Bytes.zero⟩

def submit (sector : UInt64) : List Event := .call (readCall sector) :: replicate 19 .driver

/-- The device moves all bytes of its request and completes it, and the driver goes on to the end of
its copy. -/
def complete : List Event :=
  (replicate 512 (.move 0)) ++ [.settle 0 statusOk,.retire 0] ++ replicate (3 + 512) .driver

/-- A read that is served. -/
theorem requests_matched_read : ∃ r u, r.code = 0 ∧ Served r u := by
  have hsome : ((execute State.step boot (submit 7 ++ .fetch :: complete)).bind fun t =>
      (t.step .driver).bind fun x => x.1.map Result.code) = some 0 := by decide +kernel
  obtain ⟨t,ht,hx⟩ := Option.bind_eq_some_iff.mp hsome
  obtain ⟨⟨o,u⟩,hu,ho⟩ := Option.bind_eq_some_iff.mp hx
  obtain ⟨r,hr,h0⟩ := Option.map_eq_some_iff.mp ho
  obtain rfl : o = some r := hr
  have hnocall : ∀ e ∈ replicate 19 Event.driver ++ .fetch :: complete, ∀ s, Prompt s e := by
    intro e he s
    cases e with
    | call c =>
      simp only [complete,mem_append,mem_cons,mem_replicate] at he
      simp at he
    | _ => trivial
  obtain ⟨⟨a,s₁⟩,hs₁,hrest⟩ := Option.bind_eq_some_iff.mp (show (boot.step (.call (readCall 7))).bind
    (fun x => execute State.step x.2 (replicate 19 .driver ++ .fetch :: complete)) = some t from ht)
  exact ⟨r,u,h0,requests_matched boot_start
    (.cons (P := Prompt) (e := .call (readCall 7)) ⟨rfl,rfl,rfl⟩ hs₁ ((Runs.of_execute hrest).of_forall hnocall))
    (show t.Prompt .driver from trivial) hu h0⟩

lemma poll_spins {s : State} (hu : s.page.usedIdx ≠ target) (n : ℕ)
    (hpc : s.pc = .polling q target k) (hle : k + n ≤ spinMax) :
    Runs State.step (fun _ _ => True) s (replicate n .driver) { s with pc := .polling q target (k + n) } := by
  induction n generalizing s k with
  | zero =>
    have hs : { s with pc := .polling q target (k + 0) } = s := by
      rw [Nat.add_zero,← hpc]
    rw [hs]
    exact .nil s
  | succ n ih =>
    have hstep : s.step .driver = some (none,{ s with pc := .polling q target (k + 1) }) := by
      change s.driver = _
      unfold State.driver
      rw [hpc]
      dsimp only
      rw [if_neg (by omega),if_neg hu]
    have hrest := ih (s := { s with pc := .polling q target (k + 1) }) hu rfl (by omega)
    rw [show k + 1 + n = k + (n + 1) by omega] at hrest
    exact .cons trivial hstep hrest

lemma poll_expires {s : State} (hpc : s.pc = .polling q target spinMax) :
    s.step .driver = some (some ⟨q,-1,q.buf⟩,{ s with pc := .idle }) := by
  change s.driver = _
  unfold State.driver
  rw [hpc]
  exact if_pos le_rfl

/-- The driver gives up on a read of sector 7, and the device completes it while the driver polls for
a read of sector 5. -/
theorem requests_confused : ∃ s es t r u, s.Start ∧ Runs State.step (fun _ _ => True) s es t ∧
    t.step .driver = some (some r,u) ∧ r.code = 0 ∧ ¬ Served r u := by
  have hsome : (execute State.step boot (submit 7 ++ [.fetch])).map (fun t =>
      (match t.pc with
        | .polling _ target 0 => decide (t.page.usedIdx ≠ target)
        | _ => false,
      (execute State.step { t with pc := .idle } (submit 5 ++ complete)).any fun u =>
        (u.step .driver).any fun x => x.1.any fun r => decide (r.code = 0 ∧ (r.request.serial,statusOk) ∉ x.2.log))) =
      some (true,true) := by decide +kernel
  obtain ⟨t,ht,hval⟩ := Option.map_eq_some_iff.mp hsome
  obtain ⟨hpoll,hlate⟩ := Prod.mk.inj hval
  obtain ⟨u,hu,hx⟩ := (Option.any_eq_true _ _).mp hlate
  obtain ⟨⟨o,w⟩,hw,ho⟩ := (Option.any_eq_true _ _).mp hx
  obtain ⟨r,rfl,hr⟩ := (Option.any_eq_true _ _).mp ho
  obtain ⟨h0,hlog⟩ := of_decide_eq_true hr
  split at hpoll
  swap
  · cases hpoll
  next q target hpc =>
    have hne := of_decide_eq_true hpoll
    have hspin := poll_spins hne spinMax hpc (by omega)
    have hgive : Runs State.step (fun _ _ => True) t (replicate spinMax .driver ++ [.driver]) { t with pc := .idle } :=
      hspin.append (.cons trivial (poll_expires (by rw [Nat.zero_add])) (.nil _))
    exact ⟨boot,_,u,r,w,boot_start,((Runs.of_execute ht).append hgive).append (Runs.of_execute hu),hw,h0,
      fun hs => hlog hs.completed⟩

end State
end VibeOS.Virtio

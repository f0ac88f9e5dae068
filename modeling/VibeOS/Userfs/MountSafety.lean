import VibeOS.Userfs.Mounts

/-! `sys_umount` frees nothing that is in use, and removes the mount that it was asked to, where no
operation on a path is inside the channel, no descriptor was copied by `dup2`, and no earlier entry
of the table was removed. -/
namespace VibeOS.Userfs.Mounts
open List Bool
open Function (update update_of_ne update_self)
open VibeOS.Storage

def Goal.held : Goal → Option ℕ
  | .close fd => some fd
  | .io fd => some fd
  | _ => none

def Goal.slot : Goal → Option ℕ
  | .open fd => some fd
  | .statOpen fd => some fd
  | _ => none

/-- What a freed channel must not have, and what the numbers of the mounts mean. -/
structure Safe (s : Sys) : Prop where
  calls : ∀ c, (s.ch c).live = false → ∀ i k, s.call i = some k → k.ch ≠ c
  slots : ∀ c, (s.ch c).live = false → ∀ n, s.slots n ≠ some (.userfs c)
  removed : ∀ x ∈ s.removed, x.1 = x.2

/-- `dup2` copies no descriptor of a userfs file; a `sys_umount` that finds no open descriptor finds
no operation on a path inside the channel either, and an entry that was not moved, at the number as
it was passed. -/
def careful (s : Sys) : Event → Bool
  | .dup2 i old new =>
    decide (fdTableSize ≤ old) || decide (fdTableSize ≤ new) || old == new ||
      match s.slots (key i old) with
      | some (.userfs _) => false
      | _ => true
  | .umount _ n =>
    decide (n.bmod (2^32) < 0) ||
      match s.mounts[(n.bmod (2^32)).toNat]? with
      | some ⟨_,.userfs c,_,_,moved⟩ =>
        decide (0 < (s.ch c).openFds) ||
          n.bmod (2^32) == n && !moved && (List.range s.procs).all fun j => (s.call j).all fun k => k.ch != c || k.goal.held.isSome
      | _ => true
  | _ => true

def Careful (s : Sys) (e : Event) : Prop := careful s e = true

/-- Nothing refers to the channel. -/
structure Unused (s : Sys) (c : ℕ) : Prop where
  slots : ∀ n, s.slots n ≠ some (.userfs c)
  calls : ∀ i k, s.call i = some k → k.ch ≠ c
  mounts : ∀ m ∈ s.mounts, m.fs ≠ .userfs c

def uses (c : ℕ) (e : Entry) : Bool := e == .userfs c

structure Inv (s : Sys) : Prop where
  counts : ∀ c N, tally N s.slots (uses c) ≤ (s.ch c).openFds
  dead : ∀ c, (s.ch c).live = false → Unused s c
  fresh : ∀ c, s.channels ≤ c → (s.ch c).live = false
  apart : s.mounts.Pairwise fun m m' => ∀ c, m.fs = .userfs c → m'.fs ≠ .userfs c
  calling : ∀ i k, s.call i = some k → i < s.procs
  held : ∀ i k, s.call i = some k → ∀ fd, k.goal.held = some fd → fd < fdTableSize ∧ s.slots (key i fd) = some (.userfs k.ch)
  slot : ∀ i k, s.call i = some k → ∀ fd, k.goal.slot = some fd → fd < fdTableSize
  ids : ∀ (n : ℕ) (m : Mount), s.mounts[n]? = some m → ∀ c, m.fs = .userfs c → m.moved = false → m.id = n
  removed : ∀ x ∈ s.removed, x.1 = x.2

variable {s : Sys} {i j c fd : ℕ} {k : Call} {m : Mount} {e : Option Entry}

lemma Inv.safe (h : Inv s) : Safe s := ⟨fun c hc => (h.dead c hc).calls,fun c hc => (h.dead c hc).slots,h.removed⟩

lemma Inv.live_of_slot (h : Inv s) {n : ℕ} (hn : s.slots n = some (.userfs c)) : (s.ch c).live = true := by
  by_contra hno
  exact (h.dead c (eq_false_of_not_eq_true hno)).slots n hn

lemma Inv.live_of_call (h : Inv s) (hk : s.call i = some k) : (s.ch k.ch).live = true := by
  by_contra hno
  exact (h.dead k.ch (eq_false_of_not_eq_true hno)).calls i k hk rfl

lemma Inv.live_of_mount (h : Inv s) (hm : m ∈ s.mounts) (hc : m.fs = .userfs c) : (s.ch c).live = true := by
  by_contra hno
  exact (h.dead c (eq_false_of_not_eq_true hno)).mounts m hm hc

lemma key_inj {i j fd fd' : ℕ} (hfd : fd < fdTableSize) (hfd' : fd' < fdTableSize) (h : key i fd = key j fd') : i = j := by
  unfold key fdTableSize at *
  omega

lemma any_uses {e : Option Entry} : e.any (uses c) = true ↔ e = some (.userfs c) := by
  cases e with
  | none => simp
  | some e => simp [uses]

lemma Inv.held_update (h : Inv s) (hi : s.call i = none) (hfd : fd < fdTableSize) (hk : s.call j = some k) {fd' : ℕ}
    (hheld : k.goal.held = some fd') :
    fd' < fdTableSize ∧ update s.slots (key i fd) e (key j fd') = some (.userfs k.ch) := by
  obtain ⟨hlt,hslot⟩ := h.held j k hk fd' hheld
  have hne : key j fd' ≠ key i fd := fun heq => by
    rw [key_inj hlt hfd heq,hi] at hk
    cases hk
  exact ⟨hlt,(update_of_ne hne ..).trans hslot⟩

lemma Inv.setSlot (h : Inv s) (hi : s.call i = none) (hfd : fd < fdTableSize) (he : ∀ c, e ≠ some (.userfs c)) : Inv (s.setSlot i fd e) where
  counts c N := by
    have hle : tally N (update s.slots (key i fd) e) (uses c) ≤ tally N s.slots (uses c) + (e.any (uses c)).toNat :=
      tally_update_le (key i fd) e
    rw [eq_false_of_not_eq_true fun ha => he c (any_uses.mp ha)] at hle
    exact hle.trans (h.counts c N)
  dead c hc := by
    refine ⟨fun n => ?_,(h.dead c hc).calls,(h.dead c hc).mounts⟩
    rcases eq_or_ne n (key i fd) with rfl | hne
    · rw [show (s.setSlot i fd e).slots (key i fd) = e from update_self ..]
      exact he c
    · rw [show (s.setSlot i fd e).slots n = s.slots n from update_of_ne hne ..]
      exact (h.dead c hc).slots n
  fresh := h.fresh
  apart := h.apart
  calling := h.calling
  held _ _ hk _ hheld := h.held_update hi hfd hk hheld
  slot := h.slot
  ids := h.ids
  removed := h.removed

lemma Inv.setCh (h : Inv s) {v : Channel} (hlive : v.live = (s.ch c).live) (hopen : v.openFds = (s.ch c).openFds) : Inv (s.setCh c v) where
  counts c' N := by
    refine (h.counts c' N).trans_eq ?_
    rcases eq_or_ne c' c with rfl | hne
    · rw [show (s.setCh c' v).ch c' = v from update_self ..,hopen]
    · rw [show (s.setCh c v).ch c' = s.ch c' from update_of_ne hne ..]
  dead c' hc := by
    have hold : (s.ch c').live = false := by
      rcases eq_or_ne c' c with rfl | hne
      · rw [show (s.setCh c' v).ch c' = v from update_self ..,hlive] at hc
        exact hc
      · rw [show (s.setCh c v).ch c' = s.ch c' from update_of_ne hne ..] at hc
        exact hc
    exact ⟨(h.dead c' hold).slots,(h.dead c' hold).calls,(h.dead c' hold).mounts⟩
  fresh c' hc := by
    rcases eq_or_ne c' c with rfl | hne
    · rw [show (s.setCh c' v).ch c' = v from update_self ..,hlive]
      exact h.fresh c' hc
    · rw [show (s.setCh c v).ch c' = s.ch c' from update_of_ne hne ..]
      exact h.fresh c' hc
  apart := h.apart
  calling := h.calling
  held := h.held
  slot := h.slot
  ids := h.ids
  removed := h.removed

lemma Inv.openDone (h : Inv s) (hi : s.call i = none) (hfd : fd < fdTableSize) (hlive : (s.ch c).live = true) : Inv (s.openDone i c fd) where
  counts c' N := by
    have hle : tally N (update s.slots (key i fd) (some (.userfs c))) (uses c') ≤
        tally N s.slots (uses c') + ((some (Entry.userfs c)).any (uses c')).toNat := tally_update_le (key i fd) _
    have hold := h.counts c' N
    change tally N (update s.slots (key i fd) (some (.userfs c))) (uses c') ≤ (update s.ch c _ c').openFds
    rcases eq_or_ne c' c with rfl | hne
    · rw [update_self]
      have hone := Bool.toNat_le ((some (Entry.userfs c')).any (uses c'))
      change _ ≤ (s.ch c').openFds + 1
      omega
    · rw [update_of_ne hne]
      have hother : (some (Entry.userfs c)).any (uses c') = false := eq_false_of_not_eq_true fun ha => by
        have heq := any_uses.mp ha
        cases heq
        exact hne rfl
      rw [hother] at hle
      exact hle.trans hold
  dead c' hc := by
    have hne : c' ≠ c := by
      rintro rfl
      change (update s.ch c' _ c').live = false at hc
      rw [update_self] at hc
      cases hlive.symm.trans hc
    have hold : (s.ch c').live = false := by
      change (update s.ch c _ c').live = false at hc
      rw [update_of_ne hne] at hc
      exact hc
    refine ⟨fun n => ?_,(h.dead c' hold).calls,(h.dead c' hold).mounts⟩
    change update s.slots (key i fd) _ n ≠ _
    rcases eq_or_ne n (key i fd) with rfl | hn
    · rw [update_self]
      intro heq
      injection (Option.some_inj.mp heq) with heq
      exact hne heq.symm
    · rw [update_of_ne hn]
      exact (h.dead c' hold).slots n
  fresh c' hc := by
    have hold := h.fresh c' hc
    have hne : c' ≠ c := by
      rintro rfl
      cases hlive.symm.trans hold
    change (update s.ch c _ c').live = false
    rw [update_of_ne hne]
    exact hold
  apart := h.apart
  calling := h.calling
  held _ _ hk _ hheld := h.held_update hi hfd hk hheld
  slot := h.slot
  ids := h.ids
  removed := h.removed

lemma Inv.closeDone (h : Inv s) (hi : s.call i = none) (hfd : fd < fdTableSize) (hslot : s.slots (key i fd) = some (.userfs c)) :
    Inv (s.closeDone i c fd) where
  counts c' N := by
    change tally N (update s.slots (key i fd) none) (uses c') ≤ (update s.ch c _ c').openFds
    rcases eq_or_ne c' c with rfl | hne
    · rw [update_self]
      exact tally_remove (any_uses.mpr hslot) rfl (h.counts c') N
    · rw [update_of_ne hne]
      have hle : tally N (update s.slots (key i fd) none) (uses c') ≤ tally N s.slots (uses c') + 0 :=
        tally_update_le (key i fd) none
      exact hle.trans (h.counts c' N)
  dead c' hc := by
    have hold : (s.ch c').live = false := by
      change (update s.ch c _ c').live = false at hc
      rcases eq_or_ne c' c with rfl | hne
      · rw [update_self] at hc
        exact hc
      · rw [update_of_ne hne] at hc
        exact hc
    refine ⟨fun n => ?_,(h.dead c' hold).calls,(h.dead c' hold).mounts⟩
    change update s.slots (key i fd) _ n ≠ _
    rcases eq_or_ne n (key i fd) with rfl | hn
    · rw [update_self]
      nofun
    · rw [update_of_ne hn]
      exact (h.dead c' hold).slots n
  fresh c' hc := by
    change (update s.ch c _ c').live = false
    rcases eq_or_ne c' c with rfl | hne
    · rw [update_self]
      exact h.fresh c' hc
    · rw [update_of_ne hne]
      exact h.fresh c' hc
  apart := h.apart
  calling := h.calling
  held _ _ hk _ hheld := h.held_update hi hfd hk hheld
  slot := h.slot
  ids := h.ids
  removed := h.removed

lemma Inv.enter (h : Inv s) (hi : i < s.procs) (hlive : (s.ch k.ch).live = true)
    (hheld : ∀ fd, k.goal.held = some fd → fd < fdTableSize ∧ s.slots (key i fd) = some (.userfs k.ch))
    (hslot : ∀ fd, k.goal.slot = some fd → fd < fdTableSize) : Inv (s.setCall i (some k)) where
  counts := h.counts
  dead c hc := by
    refine ⟨(h.dead c hc).slots,fun j k' hk' => ?_,(h.dead c hc).mounts⟩
    change update s.call i _ j = _ at hk'
    rcases eq_or_ne j i with rfl | hne
    · rw [update_self] at hk'
      cases hk'
      rintro rfl
      cases hlive.symm.trans hc
    · rw [update_of_ne hne] at hk'
      exact (h.dead c hc).calls j k' hk'
  fresh := h.fresh
  apart := h.apart
  calling j k' hk' := by
    change update s.call i _ j = _ at hk'
    rcases eq_or_ne j i with rfl | hne
    · exact hi
    · rw [update_of_ne hne] at hk'
      exact h.calling j k' hk'
  held j k' hk' := by
    change update s.call i _ j = _ at hk'
    rcases eq_or_ne j i with rfl | hne
    · rw [update_self] at hk'
      cases hk'
      exact hheld
    · rw [update_of_ne hne] at hk'
      exact h.held j k' hk'
  slot j k' hk' := by
    change update s.call i _ j = _ at hk'
    rcases eq_or_ne j i with rfl | hne
    · rw [update_self] at hk'
      cases hk'
      exact hslot
    · rw [update_of_ne hne] at hk'
      exact h.slot j k' hk'
  ids := h.ids
  removed := h.removed

lemma Inv.return (h : Inv s) (i : ℕ) : Inv (s.setCall i none) := by
  have hold : ∀ j k, (s.setCall i none).call j = some k → s.call j = some k := fun j k hk => by
    change update s.call i _ j = _ at hk
    rcases eq_or_ne j i with rfl | hne
    · rw [update_self] at hk
      cases hk
    · rw [update_of_ne hne] at hk
      exact hk
  exact ⟨h.counts,fun c hc => ⟨(h.dead c hc).slots,fun j k hk => (h.dead c hc).calls j k (hold j k hk),(h.dead c hc).mounts⟩,h.fresh,h.apart,
    fun j k hk => h.calling j k (hold j k hk),fun j k hk => h.held j k (hold j k hk),
    fun j k hk => h.slot j k (hold j k hk),h.ids,h.removed⟩

lemma resolve_mem {path : List UInt8} (h : s.resolve path = some m) : m ∈ s.mounts := by
  have hfold : ∀ (l : List Mount) (best : Option Mount × ℕ), (∀ m, best.1 = some m → m ∈ s.mounts) → (∀ m ∈ l, m ∈ s.mounts) →
      ∀ m, (l.foldl (better path) best).1 = some m → m ∈ s.mounts := by
    intro l
    induction l with
    | nil => exact fun best hbest _ => hbest
    | cons x l ih =>
      intro best hbest hl
      refine ih (better path best x) (fun m hm => ?_) fun m hm => hl m (mem_cons_of_mem _ hm)
      have hx := hl x mem_cons_self
      unfold better at hm
      split at hm
      · split at hm
        · cases hm
          exact hx
        · exact hbest m hm
      · split at hm
        · cases hm
          exact hx
        · exact hbest m hm
  exact hfold s.mounts (none,0) nofun (fun _ => id) m h

lemma mem_freeFds (h : fd ∈ s.freeFds i) : fd < fdTableSize := List.mem_range.mp (List.mem_filter.mp h).1

lemma Inv.beginClose (h : Inv s) (hi : i < s.procs) (hcall : s.call i = none) (hfd : fd < fdTableSize)
    (hslot : s.slots (key i fd) = some (.userfs c)) : Inv (s.beginClose i c fd).2 := by
  unfold Sys.beginClose
  split
  · exact h.closeDone hcall hfd hslot
  · refine h.enter hi (h.live_of_slot hslot) (fun fd' hheld => ?_) nofun
    cases hheld
    exact ⟨hfd,hslot⟩

lemma Inv.beginOpen (h : Inv s) (hi : i < s.procs) (path : List UInt8) (write stat : Bool) : Inv (s.beginOpen i path write stat).2 := by
  unfold Sys.beginOpen
  split
  · exact h
  · exact h
  · next hm =>
    split
    · exact h
    · split
      · exact h
      · next fd _ hfree =>
        split
        · exact h
        · split
          · exact h
          · refine h.enter hi (h.live_of_mount (resolve_mem hm) rfl) (fun fd' hheld => ?_) fun fd' hslot => ?_
            · cases stat <;> cases hheld
            · have hfd := mem_freeFds (s := s) (i := i) (hfree ▸ mem_cons_self : fd ∈ s.freeFds i)
              cases stat <;> cases hslot <;> exact hfd

lemma Inv.beginPath (h : Inv s) (hi : i < s.procs) (path : List UInt8) (changes : Bool) : Inv (s.beginPath i path changes .path).2 := by
  unfold Sys.beginPath
  split
  · exact h
  · exact h
  · next hm =>
    split
    · exact h
    · split
      · exact h
      · split
        · exact h
        · exact h.enter hi (h.live_of_mount (resolve_mem hm) rfl) nofun nofun

lemma Inv.beginStat (h : Inv s) (hi : i < s.procs) (path : List UInt8) : Inv (s.beginStat i path).2 := by
  unfold Sys.beginStat
  split
  · exact h
  · split
    · exact h
    · next hm =>
      split
      · exact h
      · split
        · exact h
        · next hc =>
          split
          · exact h.beginOpen hi path false true
          · split
            · exact h.beginOpen hi path false true
            · exact h.enter hi (h.live_of_mount (resolve_mem hm) hc) nofun nofun

lemma Inv.resume (h : Inv s) (hi : i < s.procs) (hcall : s.call i = none) (hlive : (s.ch k.ch).live = true)
    (hheld : ∀ fd, k.goal.held = some fd → fd < fdTableSize ∧ s.slots (key i fd) = some (.userfs k.ch))
    (hslot : ∀ fd, k.goal.slot = some fd → fd < fdTableSize) (r : ℤ) : Inv (s.resume i k r).2 := by
  unfold Sys.resume
  split
  · next fd hgoal =>
    split
    · exact h
    · exact h.openDone hcall (hslot fd (by rw [hgoal]; rfl)) hlive
  · split
    · exact h
    · exact h.beginOpen hi _ false true
  · next fd hgoal =>
    have hfd : fd < fdTableSize := hslot fd (by rw [hgoal]; rfl)
    split
    · exact h
    · exact (h.openDone hcall hfd hlive).beginClose hi hcall hfd (update_self ..)
  · next fd hgoal =>
    obtain ⟨hfd,hused⟩ := hheld fd (by rw [hgoal]; rfl)
    exact h.closeDone hcall hfd hused
  · exact h
  · exact h

lemma Inv.close (h : Inv s) (hi : i < s.procs) (hcall : s.call i = none) (fd : ℕ) : Inv (s.close i fd).2 := by
  unfold Sys.close
  split
  · exact h
  · next hfd =>
    split
    · exact h
    · next e he =>
      split
      · exact h
      · split
        · exact h.setSlot hcall (Nat.lt_of_not_le hfd) nofun
        · exact h.beginClose hi hcall (Nat.lt_of_not_le hfd) he

lemma Inv.io (h : Inv s) (hi : i < s.procs) (fd : ℕ) : Inv (s.io i fd).2 := by
  unfold Sys.io
  split
  · exact h
  · next hfd =>
    split
    · exact h
    · exact h
    · next he =>
      split
      · exact h
      · refine h.enter hi (h.live_of_slot he) (fun fd' hheld => ?_) nofun
        cases hheld
        exact ⟨Nat.lt_of_not_le hfd,he⟩

lemma Inv.dup2 (h : Inv s) (hcall : s.call i = none) {old new : ℕ} (ok : Careful s (.dup2 i old new)) : Inv (s.dup2 i old new).2 := by
  unfold Sys.dup2
  split
  · exact h
  · next hlt =>
    split
    · exact h
    · next e he =>
      split
      · exact h
      · next hne =>
        refine h.setSlot hcall (by omega) fun c hc => ?_
        cases hc
        simp only [Careful,careful,he] at ok
        simp only [Bool.or_false,or_eq_true,decide_eq_true_eq,beq_iff_eq] at ok
        exact hne (ok.resolve_left hlt)

lemma Inv.inherit (h : Inv s) (hcall : s.call j = none) (hfd : fd < fdTableSize) : Inv (s.inherit i j fd) := by
  unfold Sys.inherit
  split
  · exact h
  · exact h
  · exact h.setSlot hcall hfd nofun
  · next he => exact h.openDone hcall hfd (h.live_of_slot he)

lemma call_inherit : (s.inherit i j fd).call = s.call := by
  unfold Sys.inherit
  split <;> rfl

lemma Inv.fork (h : Inv s) (i : ℕ) : Inv (s.fork i) := by
  have hchild : s.call s.procs = none := by
    by_contra hno
    obtain ⟨k,hk⟩ := Option.ne_none_iff_exists'.mp hno
    exact Nat.lt_irrefl _ (h.calling _ k hk)
  have hnew : Inv s.newTable := by
    have h₁ : Inv (s.setSlot s.procs 0 (some (.other true))) := h.setSlot hchild (by decide) nofun
    have h₂ : Inv ((s.setSlot s.procs 0 (some (.other true))).setSlot s.procs 1 (some (.other true))) := h₁.setSlot hchild (by decide) nofun
    have h₃ : Inv (((s.setSlot s.procs 0 (some (.other true))).setSlot s.procs 1 (some (.other true))).setSlot s.procs 2 (some (.other true))) :=
      h₂.setSlot hchild (by decide) nofun
    exact ⟨h₃.counts,fun c hc => ⟨(h₃.dead c hc).slots,(h₃.dead c hc).calls,(h₃.dead c hc).mounts⟩,h₃.fresh,h₃.apart,
      fun j k hk => Nat.lt_succ_of_lt (h₃.calling j k hk),h₃.held,h₃.slot,h₃.ids,h₃.removed⟩
  have hfold : ∀ (l : List ℕ) (t : Sys), (∀ fd ∈ l, fd < fdTableSize) → t.call s.procs = none → Inv t →
      Inv (l.foldl (fun t fd => t.inherit i s.procs fd) t) := by
    intro l
    induction l with
    | nil => exact fun t _ _ ht => ht
    | cons fd l ih =>
      intro t hl hcall ht
      refine ih _ (fun fd hfd => hl fd (mem_cons_of_mem _ hfd)) ?_ (ht.inherit hcall (hl fd mem_cons_self))
      rw [call_inherit]
      exact hcall
  exact hfold _ _ (fun fd hfd => List.mem_range.mp hfd) hchild hnew

lemma Inv.register (h : Inv s) (p : List UInt8) (ro : Bool) (i : ℕ) : Inv (s.register p ro s.mounts.length i) := by
  have hnew := h.dead s.channels (h.fresh s.channels le_rfl)
  refine ⟨fun c N => ?_,fun c hc => ?_,fun c hc => ?_,?_,h.calling,h.held,h.slot,fun n m hm c hc hmoved => ?_,h.removed⟩
  · change tally N s.slots (uses c) ≤ (update s.ch s.channels _ c).openFds
    rcases eq_or_ne c s.channels with rfl | hne
    · rw [update_self]
      refine le_of_eq (List.countP_eq_zero.mpr fun n _ hn => hnew.slots n (any_uses.mp hn))
    · rw [update_of_ne hne]
      exact h.counts c N
  · change (update s.ch s.channels _ c).live = false at hc
    have hne : c ≠ s.channels := by
      rintro rfl
      rw [update_self] at hc
      cases hc
    rw [update_of_ne hne] at hc
    refine ⟨(h.dead c hc).slots,(h.dead c hc).calls,fun m hm => ?_⟩
    rcases List.mem_append.mp hm with hm | hm
    · exact (h.dead c hc).mounts m hm
    · cases List.mem_singleton.mp hm
      intro heq
      cases heq
      exact hne rfl
  · change s.channels + 1 ≤ c at hc
    change (update s.ch s.channels _ c).live = false
    rw [update_of_ne (by omega)]
    exact h.fresh c (by omega)
  · refine List.pairwise_append.mpr ⟨h.apart,pairwise_singleton _ _,fun m hm m' hm' c hc => ?_⟩
    cases List.mem_singleton.mp hm'
    intro heq
    cases heq
    exact hnew.mounts m hm hc
  · change (s.mounts ++ [_])[n]? = some m at hm
    rcases Nat.lt_or_ge n s.mounts.length with hlt | hge
    · rw [getElem?_append_left hlt] at hm
      exact h.ids n m hm c hc hmoved
    · rw [getElem?_append_right hge] at hm
      have hn : n - s.mounts.length = 0 := by
        by_contra hne
        rw [getElem?_eq_none (by rw [length_singleton]; omega)] at hm
        cases hm
      rw [hn] at hm
      cases hm
      change (s.mounts.length : ℤ) = n
      omega

lemma Inv.mount (h : Inv s) (hcall : s.call i = none) (pfx : Except ℤ (List UInt8)) (ro kbuf chan : Bool) :
    Inv (s.mount i pfx ro kbuf chan).2 := by
  unfold Sys.mount
  split
  · exact h
  · split
    · exact h
    · split
      · exact h
      · split
        · exact h
        · split
          · next rfd wfd _ hfree =>
            split
            · exact h
            · split
              · exact h
              · have hr : rfd < fdTableSize := mem_freeFds (s := s) (i := i) (by rw [hfree]; exact mem_cons_self)
                have hw : wfd < fdTableSize :=
                  mem_freeFds (s := s) (i := i) (by rw [hfree]; exact mem_cons_of_mem _ mem_cons_self)
                exact ((h.register _ ro i).setSlot (e := some (.other true)) hcall hr nofun).setSlot (e := some (.other true)) hcall hw nofun
          · exact h

lemma getElem?_mountRemove {mid n : ℕ} (hmid : mid < s.mounts.length) (h : (s.mountRemove mid)[n]? = some m) :
    (n < mid ∧ s.mounts[n]? = some m) ∨ (m.moved = true ∧ ∃ m' ∈ s.mounts.drop (mid + 1), m.fs = m'.fs) := by
  have hlen : (s.mounts.take mid).length = mid := by
    rw [length_take]
    omega
  unfold Sys.mountRemove at h
  rcases Nat.lt_or_ge n mid with hlt | hge
  · rw [getElem?_append_left (by omega),getElem?_take_of_lt hlt] at h
    exact .inl ⟨hlt,h⟩
  · rw [getElem?_append_right (by omega),getElem?_map] at h
    obtain ⟨m',hm',rfl⟩ := Option.map_eq_some_iff.mp h
    exact .inr ⟨rfl,m',mem_of_getElem? hm',rfl⟩

lemma fs_mountRemove (mid : ℕ) : (s.mountRemove mid).map Mount.fs = (s.mounts.map Mount.fs).eraseIdx mid := by
  unfold Sys.mountRemove
  rw [eraseIdx_eq_take_drop_succ,map_append,List.map_map,map_take,map_drop]
  rfl

lemma Inv.idle (h : Inv s) (hopen : (s.ch c).openFds = 0)
    (hheld : ∀ j k, s.call j = some k → k.ch = c → k.goal.held.isSome = true) : ∀ j k, s.call j = some k → k.ch ≠ c := by
  rintro j k hk rfl
  obtain ⟨fd,hfd⟩ := Option.isSome_iff_exists.mp (hheld j k hk rfl)
  have hslot := (h.held j k hk fd hfd).2
  have hpos : 0 < tally (key j fd + 1) s.slots (uses k.ch) := tally_pos (Nat.lt_succ_self _) (any_uses.mpr hslot)
  have hle := h.counts k.ch (key j fd + 1)
  omega

lemma Inv.free (h : Inv s) {mid : ℕ} {id' arg : ℤ} {p : List UInt8} {ro : Bool}
    (hm : s.mounts[mid]? = some ⟨p,.userfs c,ro,id',false⟩) (hopen : (s.ch c).openFds = 0)
    (hcalls : ∀ j k, s.call j = some k → k.ch ≠ c) (harg : arg = mid) :
    Inv { s.setCh c { s.ch c with alive := false,live := false } with
      mounts := s.mountRemove mid
      removed := (arg,id') :: s.removed } := by
  obtain ⟨hmid,hget⟩ := List.getElem?_eq_some_iff.mp hm
  have hsplit : s.mounts = s.mounts.take mid ++ s.mounts[mid] :: s.mounts.drop (mid + 1) := by
    rw [getElem_cons_drop,take_append_drop]
  have hapart := h.apart
  rw [hsplit,hget,pairwise_append] at hapart
  obtain ⟨-,hlater,hearlier⟩ := hapart
  have hold : ∀ m ∈ s.mountRemove mid, ∃ m' ∈ s.mounts, m'.fs = m.fs := fun m hmem => by
    have hfs : m.fs ∈ (s.mounts.map Mount.fs).eraseIdx mid := by
      rw [← fs_mountRemove]
      exact List.mem_map_of_mem hmem
    exact List.mem_map.mp (mem_of_mem_eraseIdx hfs)
  refine ⟨fun c' N => ?_,fun c' hc => ?_,fun c' hc => ?_,?_,h.calling,h.held,h.slot,fun n m hn c' hc hmoved => ?_,fun x hx => ?_⟩
  · change _ ≤ (update s.ch c _ c').openFds
    rcases eq_or_ne c' c with rfl | hne
    · rw [update_self]
      exact h.counts c' N
    · rw [update_of_ne hne]
      exact h.counts c' N
  · rcases eq_or_ne c' c with rfl | hne
    · refine ⟨fun n hn => ?_,hcalls,fun m hmem => ?_⟩
      · have hpos : 0 < tally (n + 1) s.slots (uses c') := tally_pos (Nat.lt_succ_self _) (any_uses.mpr hn)
        have hle := h.counts c' (n + 1)
        omega
      · rcases List.mem_append.mp hmem with hmem | hmem
        · exact fun heq => hearlier m hmem _ mem_cons_self c' heq rfl
        · obtain ⟨m',hm',rfl⟩ := List.mem_map.mp hmem
          exact (List.pairwise_cons.mp hlater).1 m' hm' c' rfl
    · change (update s.ch c _ c').live = false at hc
      rw [update_of_ne hne] at hc
      refine ⟨(h.dead c' hc).slots,(h.dead c' hc).calls,fun m hmem heq => ?_⟩
      obtain ⟨m',hm',hfs⟩ := hold m hmem
      exact (h.dead c' hc).mounts m' hm' (hfs.trans heq)
  · change (update s.ch c _ c').live = false
    rcases eq_or_ne c' c with rfl | hne
    · rw [update_self]
    · rw [update_of_ne hne]
      exact h.fresh c' hc
  · have hmap : (s.mounts.map Mount.fs).Pairwise fun f f' => ∀ c, f = .userfs c → f' ≠ .userfs c := List.pairwise_map.mpr h.apart
    have hrest : ((s.mountRemove mid).map Mount.fs).Pairwise fun f f' => ∀ c, f = .userfs c → f' ≠ .userfs c := by
      rw [fs_mountRemove]
      exact hmap.sublist (eraseIdx_sublist ..)
    exact List.pairwise_map.mp hrest
  · rcases getElem?_mountRemove hmid hn with ⟨hlt,hn⟩ | ⟨htrue,-⟩
    · exact h.ids n m hn c' hc hmoved
    · rw [htrue] at hmoved
      cases hmoved
  · rcases List.mem_cons.mp hx with rfl | hx
    · exact harg.trans (h.ids mid _ hm c rfl rfl).symm
    · exact h.removed x hx

lemma Inv.umount (h : Inv s) {n : ℤ} (ok : Careful s (.umount i n)) : Inv (s.umount n).2 := by
  unfold Careful careful at ok
  dsimp only at ok
  unfold Sys.umount
  dsimp only
  split
  · exact h
  · next hpos =>
    rw [decide_eq_false hpos,Bool.false_or] at ok
    split
    · exact h
    · exact h
    · next p c ro id' moved hm =>
      split
      · exact h
      · next hopen =>
        rw [hm] at ok
        simp only [decide_eq_false hopen,Bool.false_or,and_eq_true,beq_iff_eq,not_eq_true'] at ok
        obtain ⟨⟨harg,rfl⟩,hcalls⟩ := ok
        refine h.free hm (Nat.eq_zero_of_not_pos hopen) (h.idle (Nat.eq_zero_of_not_pos hopen) fun j k hk hkc => ?_) ?_
        · have hj := List.all_eq_true.mp hcalls j (List.mem_range.mpr (h.calling j k hk))
          rw [hk] at hj
          simpa [hkc] using hj
        · rw [Int.toNat_of_nonneg (not_lt.mp hpos)]
          exact harg.symm

lemma step_kept {s' : Sys} (h : Inv s) {e : Event} {r : Option ℤ} (ok : Careful s e) (now : s.step e = some (r,s')) : Inv s' := by
  have hsys {i : ℕ} {x : Option ℤ × Sys} (hx : i < s.procs → s.call i = none → Inv x.2) (hnow : s.sysCall i x = some (r,s')) : Inv s' := by
    unfold Sys.sysCall at hnow
    split at hnow
    · next hi =>
      cases hnow
      exact hx hi.1 (Option.isNone_iff_eq_none.mp hi.2)
    · cases hnow
  have hback {i : ℕ} {k : Call} {v : Channel} (hk : s.call i = some k) (hlive : v.live = (s.ch k.ch).live) (hopen : v.openFds = (s.ch k.ch).openFds)
      (r : ℤ) : Inv ((((s.setCall i none).setCh k.ch v).resume i k r).2) := by
    refine ((h.return i).setCh hlive hopen).resume (h.calling i k hk) (update_self ..) ?_ (h.held i k hk) (h.slot i k hk) r
    change (update s.ch k.ch v k.ch).live = true
    rw [update_self,hlive]
    exact h.live_of_call hk
  cases e with
  | mount i pfx ro kbuf chan => exact hsys (fun _ hcall => h.mount hcall pfx ro kbuf chan) now
  | umount i n => exact hsys (x := (s.umount n).map some id) (fun _ _ => h.umount ok) now
  | openPath i path write => exact hsys (fun hi _ => h.beginOpen hi path write false) now
  | stat i path => exact hsys (fun hi _ => h.beginStat hi path) now
  | onPath i path changes => exact hsys (fun hi _ => h.beginPath hi path changes) now
  | close i fd => exact hsys (fun hi hcall => h.close hi hcall fd) now
  | io i fd => exact hsys (fun hi _ => h.io hi fd) now
  | dup2 i old new => exact hsys (fun _ hcall => h.dup2 hcall ok) now
  | fork i => exact hsys (x := (some s.procs,s.fork i)) (fun _ _ => h.fork i) now
  | other i inherits =>
    refine hsys (fun _ hcall => ?_) now
    split
    · exact h
    · next fd _ hfree =>
      exact h.setSlot (e := some (.other inherits)) hcall (mem_freeFds (s := s) (i := i) (by rw [hfree]; exact mem_cons_self)) nofun
  | lock i =>
    unfold Sys.step at now
    dsimp only at now
    split at now
    · next k hk =>
      split at now
      · cases now
      · split at now
        · cases now
          have hlive : (s.ch k.ch).live = true := h.live_of_call hk
          exact (h.enter (k := { k with holds := true }) (h.calling i k hk) hlive (h.held i k hk) (h.slot i k hk)).setCh rfl rfl
        · have heq := Option.some_inj.mp now
          have hres := (h.return i).resume (h.calling i k hk) (update_self ..) (h.live_of_call hk) (h.held i k hk) (h.slot i k hk) (-eio)
          rw [heq] at hres
          exact hres
    · cases now
  | finish i answered res =>
    unfold Sys.step at now
    dsimp only at now
    split at now
    · next k hk =>
      split at now
      · have heq := Option.some_inj.mp now
        have hres := hback (v := { s.ch k.ch with inFlight := false,alive := (s.ch k.ch).alive && answered }) hk rfl rfl
          (if answered || res == -etimedout then res else -eio)
        rw [heq] at hres
        exact hres
      · cases now
    · cases now

lemma Inv.initial {builtins : List Mount} (hb : ∀ m ∈ builtins, m.fs = .builtin) (procs : ℕ) : Inv (Sys.initial builtins procs) := by
  have hslots : ∀ n c, (Sys.initial builtins procs).slots n ≠ some (.userfs c) := fun n c hn => by
    unfold Sys.initial at hn
    dsimp only at hn
    split at hn <;> cases hn
  have hmounts : ∀ m ∈ builtins, ∀ c, m.fs ≠ .userfs c := fun m hm c heq => by
    rw [hb m hm] at heq
    cases heq
  refine ⟨fun c N => le_of_eq (List.countP_eq_zero.mpr fun n _ hn => hslots n c (any_uses.mp hn)),
    fun c _ => ⟨fun n => hslots n c,nofun,fun m hm => hmounts m hm c⟩,fun _ _ => rfl,?_,nofun,nofun,nofun,fun n m hm c hc _ => ?_,nofun⟩
  · exact pairwise_of_forall_mem_list fun m hm _ _ c hc => absurd hc (hmounts m hm c)
  · exact absurd hc (hmounts m (mem_of_getElem? hm) c)

/-- No channel is freed under a call or a descriptor, and `sys_umount` removes what it was asked to. -/
theorem mounts_safe {builtins : List Mount} {procs : ℕ} {es : List Event} (hb : ∀ m ∈ builtins, m.fs = .builtin)
    (h : Runs Sys.step Careful (.initial builtins procs) es s) : Safe s :=
  Inv.safe (h.invariant (fun _ _ _ _ hinv ok now => step_kept hinv ok now) (.initial hb procs))

/-- `/` -/
def root : Mount := ⟨[slash],.builtin,false,0,false⟩

/-- Process 1 serves `/a`; process 2 opens a file of it, forks and closes it, and so does its child;
then process 3 takes the mount away. -/
def orderly : List Event :=
  [.mount 1 (.ok [slash,97]) false true true,.openPath 2 [slash,97,slash,98] false,.lock 2,.finish 2 true 0,.fork 2,.umount 3 1,.close 2 3,
    .lock 2,.finish 2 true 0,.io 4 3,.lock 4,.finish 4 true 0,.close 4 3,.lock 4,.finish 4 true 0,.umount 3 1]

theorem mounts_safe_orderly : ∃ s, Runs Sys.step Careful (.initial [root] 4) orderly s ∧ s.removed = [(1,1)] ∧ Safe s := by
  have hany : ((execute (fun s e => if careful s e then Sys.step s e else none) (.initial [root] 4) orderly).any fun s =>
      s.removed == [(1,1)]) = true := by decide
  obtain ⟨s,hs,hremoved⟩ := (Option.any_eq_true _ _).mp hany
  have run := Runs.of_guarded (P := Careful) (fun _ _ => id) hs
  exact ⟨s,run,beq_iff_eq.mp hremoved,mounts_safe (fun m hm => by cases List.mem_singleton.mp hm; rfl) run⟩

/-- Process 2 asks for a file of `/a`, and process 3 takes the mount away before the answer. -/
def underCall : List Event := [.mount 1 (.ok [slash,97]) false true true,.onPath 2 [slash,97,slash,98] false,.lock 2,.umount 3 1]

theorem freed_under_call : ∃ s, Runs Sys.step (fun _ _ => True) (.initial [root] 4) underCall s ∧ ¬ Safe s := by
  have hany : ((execute Sys.step (.initial [root] 4) underCall).any fun s => !(s.ch 0).live && (s.call 2).any (·.ch == 0)) = true := by
    decide
  obtain ⟨s,hs,hfreed⟩ := (Option.any_eq_true _ _).mp hany
  rw [and_eq_true,not_eq_true'] at hfreed
  obtain ⟨k,hk,hch⟩ := (Option.any_eq_true _ _).mp hfreed.2
  exact ⟨s,.of_execute hs,fun hsafe => hsafe.calls 0 hfreed.1 2 k hk (beq_iff_eq.mp hch)⟩

end VibeOS.Userfs.Mounts

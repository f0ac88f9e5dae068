import VibeOS.Threads.Lifecycle

/-! The frees of `thread.c` on any number of CPUs, in steps that can be interleaved: the stack and
the struct of a thread that exits, and the switch away from it. -/
namespace VibeOS.Threads.Stacks
open Function (update update_of_ne update_self)
open VibeOS.Threads.Lifecycle (pid)

structure Thread where
  parent : ℤ
  exited : Bool
  stack : Bool

/-- `slot` is `stack_to_free`. -/
structure Cpu where
  current : ℕ
  slot : Option ℕ

/-- A call of `kfree`: of a struct or a stack, and whether its thread was the current one of some
CPU. The stack that a CPU runs on is that of its current thread. -/
structure Free where
  isStruct : Bool
  owner : ℕ
  inUse : Bool

structure Machine where
  cpus : ℕ
  cpu : ℕ → Cpu
  th : ℕ → Thread
  listed : ℕ → Bool
  made : ℕ
  frees : List Free

inductive Event
  /-- the current thread of a CPU makes a thread -/
  | create (c : ℕ)
  /-- `thread_exit` up to the change to EXITED -/
  | mark (c : ℕ)
  /-- the sweep of `thread_exit` is at a thread -/
  | sweep (c t : ℕ)
  /-- `thread_exit` sets `stack_to_free` -/
  | handOver (c : ℕ)
  /-- `thread_exit` without a parent takes the thread off the list -/
  | leave (c : ℕ)
  /-- `thread_waitpid` takes a child -/
  | reap (c t : ℕ)
  /-- the top of `yield` -/
  | drain (c : ℕ)
  /-- the end of `yield`, with the thread that the run queue or `idle` gives -/
  | switch (c next : ℕ)

def Event.cpu : Event → ℕ
  | .create c | .mark c | .sweep c _ | .handOver c | .leave c | .reap c _ | .drain c | .switch c _ => c

namespace Machine
variable (m : Machine)

/-- The current thread of the CPU. -/
def me (c : ℕ) : ℕ := (m.cpu c).current

def isCurrent (t : ℕ) : Bool := (List.range m.cpus).any fun c => m.me c == t

def kfree (isStruct : Bool) (t : ℕ) : Machine := { m with frees := ⟨isStruct,t,m.isCurrent t⟩ :: m.frees }

def setThread (t : ℕ) (v : Thread) : Machine := { m with th := update m.th t v }

def setCpu (c : ℕ) (v : Cpu) : Machine := { m with cpu := update m.cpu c v }

def reclaim (t : ℕ) : Machine :=
  let m := { m with listed := update m.listed t false }
  let m := if (m.th t).stack then m.kfree false t else m
  m.kfree true t

/-- `drain_stack_to_free` -/
def drain (c : ℕ) : Machine :=
  match (m.cpu c).slot with
  | none => m
  | some t =>
    let m := if (m.th t).stack then (m.kfree false t).setThread t { m.th t with stack := false } else m
    m.setCpu c { m.cpu c with slot := none }

def run : Event → Option Machine
  | .create c =>
    if (m.th (m.me c)).exited then none
    else
      let t := m.made
      some { m with
        th := update m.th t ⟨pid (m.me c),false,true⟩
        listed := update m.listed t true
        made := t + 1 }
  | .mark c =>
    -- the threads that CPUs start with do not exit
    if m.me c < m.cpus ∨ (m.th (m.me c)).exited then none else some (m.setThread (m.me c) { m.th (m.me c) with exited := true })
  | .sweep c t =>
    if (m.th (m.me c)).exited ∧ m.listed t ∧ (m.th t).parent = pid (m.me c) then
      some (if (m.th t).exited then m.reclaim t else m.setThread t { m.th t with parent := -1 })
    else none
  | .handOver c =>
    if (m.th (m.me c)).exited then some (m.setCpu c { m.cpu c with slot := some (m.me c) }) else none
  | .leave c =>
    if (m.th (m.me c)).exited ∧ (m.th (m.me c)).parent < 0 then some { m with listed := update m.listed (m.me c) false }
    else none
  | .reap c t =>
    if ¬ (m.th (m.me c)).exited ∧ m.listed t ∧ (m.th t).parent = pid (m.me c) ∧ (m.th t).exited then some (m.reclaim t) else none
  | .drain c => some (m.drain c)
  | .switch c next =>
    if (m.th next).exited ∨ m.isCurrent next ∨ m.made ≤ next then none else some (m.setCpu c { m.cpu c with current := next })

/-- A step of one of the CPUs. -/
def step (m : Machine) (e : Event) : Option (Unit × Machine) :=
  if e.cpu < m.cpus then (m.run e).map fun m => ((),m) else none

/-- Each CPU has its first thread, on a stack that is not from the heap. -/
def initial (cpus : ℕ) : Machine where
  cpus := cpus
  cpu c := ⟨c,none⟩
  th _ := ⟨-1,false,false⟩
  listed t := decide (t = 0)
  made := cpus
  frees := []

end Machine

/-- No thread was current when its stack or its struct was freed, and nothing was freed twice. -/
structure Safe (m : Machine) : Prop where
  unused : ∀ f ∈ m.frees, f.inUse = false
  once : (m.frees.map fun f => (f.isStruct,f.owner)).Nodup

/-- No thread gets through `thread_exit` to the hand-over of its stack, and none is reaped before its
CPU has switched away from it. -/
def Settled (m : Machine) : Event → Prop
  | .handOver _ => False
  | .sweep _ t => (m.th t).exited = true → m.isCurrent t = false
  | .reap _ t => m.isCurrent t = false
  | _ => True

structure Kept (m : Machine) : Prop where
  safe : Safe m
  gone : ∀ f ∈ m.frees, m.listed f.owner = false ∧ f.owner < m.made
  slots : ∀ c, (m.cpu c).slot = none
  initials : m.cpus ≤ m.made
  running : ∀ c, c < m.cpus → m.me c < m.made
  stack : ∀ t, t < m.made → (m.th t).stack = decide (m.cpus ≤ t)
  exited : ∀ t, (m.th t).exited = true → m.cpus ≤ t ∧ t < m.made

variable {m m' : Machine} {c t : ℕ} {e : Event}

lemma Kept.of_same (h : Kept m) (hfrees : m'.frees = m.frees) (hcpus : m'.cpus = m.cpus)
    (hgone : ∀ t, m.listed t = false → t < m.made → m'.listed t = false) (hslots : ∀ c, (m'.cpu c).slot = none)
    (hmade : m.made ≤ m'.made) (hrunning : ∀ c, c < m.cpus → m'.me c < m'.made)
    (hstack : ∀ t, t < m'.made → (m'.th t).stack = decide (m.cpus ≤ t))
    (hexited : ∀ t, (m'.th t).exited = true → m.cpus ≤ t ∧ t < m'.made) : Kept m' where
  safe := ⟨hfrees ▸ h.safe.unused,hfrees ▸ h.safe.once⟩
  gone f hf := by
    rw [hfrees] at hf
    obtain ⟨hl,hlt⟩ := h.gone f hf
    exact ⟨hgone _ hl hlt,hlt.trans_le hmade⟩
  slots := hslots
  initials := hcpus ▸ h.initials.trans hmade
  running := hcpus ▸ hrunning
  stack := hcpus ▸ hstack
  exited := hcpus ▸ hexited

lemma Kept.setThread (h : Kept m) {v : Thread} (hstack : v.stack = (m.th t).stack)
    (hexited : v.exited = true → m.cpus ≤ t ∧ t < m.made) : Kept (m.setThread t v) := by
  refine h.of_same rfl rfl (fun _ hl _ => hl) h.slots (Nat.le_refl _) h.running (fun r hr => ?_) fun r hr => ?_
  all_goals
    unfold Machine.setThread at *
    dsimp only at *
  · rcases eq_or_ne r t with rfl | hne
    · rw [update_self,hstack]
      exact h.stack r hr
    · rw [update_of_ne hne]
      exact h.stack r hr
  · rcases eq_or_ne r t with rfl | hne
    · rw [update_self] at hr
      exact hexited hr
    · rw [update_of_ne hne] at hr
      exact h.exited r hr

lemma Kept.reclaim_eq (h : Kept m) (ht : (m.th t).exited = true) : m.reclaim t = { m with
    listed := update m.listed t false
    frees := ⟨true,t,m.isCurrent t⟩ :: ⟨false,t,m.isCurrent t⟩ :: m.frees } := by
  obtain ⟨hge,hlt⟩ := h.exited t ht
  unfold Machine.reclaim
  dsimp only
  rw [h.stack t hlt,decide_eq_true hge,if_pos rfl]
  rfl

lemma Kept.reclaim (h : Kept m) (hlisted : m.listed t = true) (ht : (m.th t).exited = true) (hcurrent : m.isCurrent t = false) :
    Kept (m.reclaim t) := by
  have hlt := (h.exited t ht).2
  have hnew : ∀ f ∈ m.frees, f.owner ≠ t := fun f hf heq => by
    have := (h.gone f hf).1
    rw [heq,hlisted] at this
    cases this
  rw [h.reclaim_eq ht,hcurrent]
  refine ⟨⟨fun f hf => ?_,?_⟩,fun f hf => ?_,h.slots,h.initials,h.running,h.stack,h.exited⟩
  · rcases List.mem_cons.mp hf with rfl | hf
    · rfl
    · rcases List.mem_cons.mp hf with rfl | hf
      · rfl
      · exact h.safe.unused f hf
  · have hout (b : Bool) : (b,t) ∉ m.frees.map fun f => (f.isStruct,f.owner) := fun hmem => by
      obtain ⟨f,hf,heq⟩ := List.mem_map.mp hmem
      exact hnew f hf (Prod.mk.inj heq).2
    rw [List.map_cons,List.map_cons,List.nodup_cons,List.nodup_cons]
    refine ⟨fun hmem => ?_,hout false,h.safe.once⟩
    rcases List.mem_cons.mp hmem with heq | hmem
    · cases heq
    · exact hout true hmem
  · have hfree : f.owner = t ∨ f ∈ m.frees := by
      rcases List.mem_cons.mp hf with rfl | hf
      · exact .inl rfl
      · rcases List.mem_cons.mp hf with rfl | hf
        · exact .inl rfl
        · exact .inr hf
    rcases hfree with rfl | hf
    · exact ⟨update_self ..,hlt⟩
    · obtain ⟨hl,hlt'⟩ := h.gone f hf
      exact ⟨(update_of_ne (hnew f hf) _ _).trans hl,hlt'⟩

lemma Kept.create (h : Kept m) (now : m.run (.create c) = some m') : Kept m' := by
  simp only [Machine.run] at now
  split at now
  · cases now
  · cases now
    refine h.of_same rfl rfl (fun t hl hlt => ?_) h.slots (Nat.le_succ _) (fun r hr => Nat.lt_succ_of_lt (h.running r hr))
      (fun t ht => ?_) fun t ht => ?_
    all_goals dsimp only at *
    · rw [update_of_ne (by omega)]
      exact hl
    · rcases eq_or_ne t m.made with rfl | hne
      · rw [update_self]
        exact (decide_eq_true h.initials).symm
      · rw [update_of_ne hne]
        exact h.stack t (by omega)
    · rcases eq_or_ne t m.made with rfl | hne
      · rw [update_self] at ht
        cases ht
      · rw [update_of_ne hne] at ht
        obtain ⟨hge,hlt⟩ := h.exited t ht
        exact ⟨hge,by omega⟩

lemma Kept.switch (h : Kept m) {next : ℕ} (now : m.run (.switch c next) = some m') : Kept m' := by
  simp only [Machine.run] at now
  split at now
  · cases now
  · next hno =>
    cases now
    refine h.of_same rfl rfl (fun _ hl _ => hl) (fun r => ?_) (Nat.le_refl _) (fun r hr => ?_) h.stack h.exited
    all_goals unfold Machine.setCpu
    · rcases eq_or_ne r c with rfl | hne
      · dsimp only
        rw [update_self]
        exact h.slots r
      · dsimp only
        rw [update_of_ne hne]
        exact h.slots r
    · unfold Machine.me
      rcases eq_or_ne r c with rfl | hne
      · dsimp only
        rw [update_self]
        by_contra hge
        exact hno (.inr (.inr (Nat.le_of_not_lt hge)))
      · dsimp only
        rw [update_of_ne hne]
        exact h.running r hr

lemma run_kept (h : Kept m) (ok : Settled m e) (hcpu : e.cpu < m.cpus) (now : m.run e = some m') : Kept m' := by
  cases e with
  | create c => exact h.create now
  | mark c =>
    simp only [Machine.run] at now
    split at now
    · cases now
    · next hno =>
      cases now
      exact h.setThread rfl fun _ => ⟨Nat.le_of_not_lt fun hlt => hno (.inl hlt),h.running c hcpu⟩
  | sweep c t =>
    simp only [Machine.run] at now
    split at now
    · next hchild =>
      cases now
      split
      · next ht => exact h.reclaim hchild.2.1 ht (ok ht)
      · next ht => exact h.setThread rfl fun hex => absurd hex ht
    · cases now
  | handOver c => exact absurd ok id
  | leave c =>
    simp only [Machine.run] at now
    split at now
    · cases now
      refine h.of_same rfl rfl (fun t hl _ => ?_) h.slots (Nat.le_refl _) h.running h.stack h.exited
      dsimp only
      rcases eq_or_ne t (m.me c) with rfl | hne
      · exact update_self ..
      · rw [update_of_ne hne]
        exact hl
    · cases now
  | reap c t =>
    simp only [Machine.run] at now
    split at now
    · next hchild =>
      cases now
      exact h.reclaim hchild.2.1 hchild.2.2.2 ok
    · cases now
  | drain c =>
    cases now
    unfold Machine.drain
    rw [h.slots c]
    exact h
  | switch c next => exact h.switch now

lemma Kept.initial (cpus : ℕ) : Kept (Machine.initial cpus) where
  safe := ⟨nofun,.nil⟩
  gone := nofun
  slots _ := rfl
  initials := Nat.le_refl _
  running _ hc := hc
  stack _ ht := (decide_eq_false (Nat.not_le_of_lt ht)).symm
  exited := nofun

lemma step_some (now : m.step e = some ((),m')) : e.cpu < m.cpus ∧ m.run e = some m' := by
  unfold Machine.step at now
  split at now
  · next hcpu =>
    obtain ⟨m₁,hrun,heq⟩ := Option.map_eq_some_iff.mp now
    cases heq
    exact ⟨hcpu,hrun⟩
  · cases now

lemma handOver_unsafe (h : Kept m) {m₁ m₂ : Machine} (hand : m.step (.handOver c) = some ((),m₁))
    (drain : m₁.step (.drain c) = some ((),m₂)) : ¬ Safe m₂ := by
  obtain ⟨hcpu,hrun⟩ := step_some hand
  obtain ⟨-,hdrain⟩ := step_some drain
  simp only [Machine.run] at hrun
  split at hrun
  · next hex =>
    cases hrun
    cases hdrain
    obtain ⟨hge,hlt⟩ := h.exited _ hex
    have hstack := h.stack _ hlt
    rw [decide_eq_true hge] at hstack
    have hslot : ((m.setCpu c { m.cpu c with slot := some (m.me c) }).cpu c).slot = some (m.me c) := by
      unfold Machine.setCpu
      dsimp only
      rw [update_self]
    have hcurrent : (m.setCpu c { m.cpu c with slot := some (m.me c) }).isCurrent (m.me c) = true := by
      refine List.any_eq_true.mpr ⟨c,List.mem_range.mpr hcpu,?_⟩
      unfold Machine.setCpu Machine.me
      dsimp only
      rw [update_self,beq_self_eq_true]
    intro hsafe
    have hfree : ⟨false,m.me c,true⟩ ∈ ((m.setCpu c { m.cpu c with slot := some (m.me c) }).drain c).frees := by
      unfold Machine.drain
      rw [hslot]
      dsimp only
      rw [if_pos (show ((m.setCpu c { m.cpu c with slot := some (m.me c) }).th (m.me c)).stack = true from hstack)]
      unfold Machine.kfree
      rw [hcurrent]
      exact List.mem_cons_self
    have := hsafe.unused _ hfree
    cases this
  · cases hrun

lemma reap_safe (h : Kept m) (now : m.step (.reap c t) = some ((),m')) : Safe m' ↔ m.isCurrent t = false := by
  obtain ⟨hcpu,hrun⟩ := step_some now
  constructor
  · intro hsafe
    simp only [Machine.run] at hrun
    split at hrun
    · next hchild =>
      cases hrun
      rw [h.reclaim_eq hchild.2.2.2] at hsafe
      exact hsafe.unused _ List.mem_cons_self
    · cases hrun
  · exact fun hc => (run_kept (e := .reap c t) h hc hcpu hrun).safe

/-- As long as exiting threads do not hand over their stack, and are reaped only when their CPU has
switched away. Whoever hands it over has it freed below itself by the next `yield`, and a reap of
a thread that some CPU is still at frees what is in use. -/
theorem frees_safe {cpus : ℕ} {es : List Event} (run : Runs Machine.step Settled (.initial cpus) es m) : Safe m ∧
    (∀ c m₁ m₂, m.step (.handOver c) = some ((),m₁) → m₁.step (.drain c) = some ((),m₂) → ¬ Safe m₂) ∧
    ∀ c t m', m.step (.reap c t) = some ((),m') → (Safe m' ↔ m.isCurrent t = false) := by
  have h : Kept m := run.invariant (I := Kept)
    (fun _ _ _ _ hk ok now => run_kept hk ok (step_some now).1 (step_some now).2) (.initial cpus)
  exact ⟨h.safe,fun _ _ _ hand drain => handOver_unsafe h hand drain,fun _ _ _ now => reap_safe h now⟩

def settled (m : Machine) : Event → Bool
  | .handOver _ => false
  | .sweep _ t => !(m.th t).exited || !m.isCurrent t
  | .reap _ t => !m.isCurrent t
  | _ => true

lemma settled_sound (m : Machine) (e : Event) (h : settled m e = true) : Settled m e := by
  cases e with
  | handOver c => cases h
  | sweep c t =>
    intro ht
    simp only [settled,ht] at h
    simpa using h
  | reap c t => exact (Bool.not_eq_true' _).mp h
  | create c | mark c | leave c | drain c | switch c next => trivial

/-- A thread is preempted for good behind the change to EXITED, and its parent on the other CPU reaps it. -/
def preempted : List Event := [.create 0,.switch 1 2,.mark 1,.drain 1,.switch 1 1,.reap 0 2]

theorem frees_safe_preempted : ∃ m, Runs Machine.step Settled (.initial 2) preempted m ∧ Safe m := by
  have hsome : (execute (fun s e => if settled s e then Machine.step s e else none) (.initial 2) preempted).isSome = true := by
    decide
  obtain ⟨m,hm⟩ := Option.isSome_iff_exists.mp hsome
  have run := Runs.of_guarded settled_sound hm
  exact ⟨m,run,(frees_safe run).1⟩

/-- A thread that is not disturbed in `thread_exit` frees its own stack in the `yield` at its end. -/
theorem own_stack_freed : ∃ m, Runs Machine.step (fun _ _ => True) (.initial 1) [.create 0,.switch 0 1,.mark 0,.handOver 0,.drain 0] m ∧
    ¬ Safe m := by
  have hany : ((execute Machine.step (.initial 1) [.create 0,.switch 0 1,.mark 0,.handOver 0,.drain 0]).any fun m =>
      m.frees.any (·.inUse)) = true := by decide
  obtain ⟨m,hm,huse⟩ := (Option.any_eq_true _ _).mp hany
  obtain ⟨f,hf,huse⟩ := List.any_eq_true.mp huse
  refine ⟨m,.of_execute hm,fun hsafe => ?_⟩
  rw [hsafe.unused f hf] at huse
  cases huse

end VibeOS.Threads.Stacks

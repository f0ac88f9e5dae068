import VibeOS.Srv.Connection

/-! `mutex_lock` and `mutex_unlock` of `thread.h` over the futex calls of the kernel: any number of
threads of one address space and one mutex word. -/
namespace VibeOS.Threads
open Function
open VibeOS.Srv (userVaBase userVaEnd rangeInUser)

def eagain : ℤ := 11
def efault : ℤ := 14
def einval : ℤ := 22

/-- How `sys_futex_wait` leaves its locked section: it returns, or blocks on the word. -/
inductive Wait
  | ret (value : ℤ)
  | block

def sysFutexWait (uaddr : ℕ) (word expected : UInt32) : Wait :=
  if uaddr < userVaBase ∨ userVaEnd ≤ uaddr then .ret (-efault)
  else if uaddr % 4 ≠ 0 then .ret (-einval)
  else if !rangeInUser uaddr 4 then .ret (-efault)
  else if word ≠ expected then .ret (-eagain)
  else .block

/-- The result of `sys_futex_wake`; it wakes where the result is 1. -/
def sysFutexWake (uaddr : ℕ) (n : ℤ) : ℤ :=
  if uaddr < userVaBase ∨ userVaEnd ≤ uaddr then -efault
  else if uaddr % 4 ≠ 0 then -einval
  else if n < 0 then -einval
  else if n = 0 then 0
  else 1

/-- Where a thread is; `fast` tells the first compare-and-swap of `mutex_lock` from those of its loop. -/
inductive Pc
  | idle
  | ldaxr (fast : Bool)
  | stlxr (fast : Bool)
  | futexWait
  /-- in `yield`, called by `thread_block_on_held` -/
  | asleep
  /-- behind the store of `mutex_unlock` -/
  | futexWake
  deriving DecidableEq

/-- `reserved` is the exclusive monitor, `held` lasts from the return of `mutex_lock` to the store
of `mutex_unlock`, `blocked` is THREAD_BLOCKED with the word in `blocked_on`. -/
structure Thread where
  pc : Pc
  reserved : Bool
  held : Bool
  blocked : Bool

structure Mutex where
  uaddr : ℕ
  word : UInt32
  th : ℕ → Thread

inductive Event
  /-- `mutex_lock` is called. -/
  | lock (i : ℕ)
  /-- The next instruction or locked section of a thread: is its reservation lost by now, does
  `yield` return to it without a switch? -/
  | run (i : ℕ) (lost early : Bool)
  /-- The store of `mutex_unlock`, by the thread that has the mutex. -/
  | unlock (i : ℕ)
  /-- A signal, a deadline, a wake meant for another word: the thread is no longer blocked here. -/
  | disturb (i : ℕ)

namespace Mutex
variable (m : Mutex)

def set (i : ℕ) (t : Thread) : Mutex := { m with th := update m.th i t }

def store (v : UInt32) : Mutex := { m with word := v, th := fun i => { m.th i with reserved := false } }

/-- `sys_futex_wake`, whose `thread_wake_blocked` wakes all. -/
def wake : Mutex :=
  if sysFutexWake m.uaddr 1 = 1 then { m with th := fun i => { m.th i with blocked := false } } else m

def goTo (i : ℕ) (pc : Pc) : Mutex := m.set i { m.th i with pc := pc }

def run (i : ℕ) (lost early : Bool) : Option Mutex :=
  match (m.th i).pc with
  | .idle => none
  | .ldaxr fast =>
    if m.word = 0 then some (m.set i { m.th i with pc := .stlxr fast, reserved := true })
    else some (m.goTo i (if fast then .ldaxr false else .futexWait))
  | .stlxr fast =>
    if (m.th i).reserved && !lost then
      let m := m.store 1
      some (m.set i { m.th i with pc := .idle, held := true })
    else some (m.set i { m.th i with pc := .ldaxr fast, reserved := false })
  | .futexWait =>
    match sysFutexWait m.uaddr m.word 1 with
    | .ret _ => some (m.goTo i (.ldaxr false))
    | .block => some (m.set i { m.th i with pc := .asleep, blocked := true })
  | .asleep => if early || !(m.th i).blocked then some (m.goTo i (.ldaxr false)) else none
  | .futexWake => some (m.wake.goTo i .idle)

def step (m : Mutex) : Event → Option (Unit × Mutex)
  | .lock i => if (m.th i).pc = .idle then some ((),m.goTo i (.ldaxr true)) else none
  | .run i lost early => (m.run i lost early).map fun m => ((),m)
  | .unlock i =>
    if (m.th i).pc = .idle ∧ (m.th i).held then
      let m := m.store 0
      some ((),m.set i { m.th i with pc := .futexWake, held := false })
    else none
  | .disturb i => some ((),m.set i { m.th i with blocked := false })

/-- `mutex_init`, before any call. -/
def initial (uaddr : ℕ) : Mutex := ⟨uaddr,0,fun _ => ⟨.idle,false,false,false⟩⟩

end Mutex

/-- What the mutex is for. -/
structure Exclusive (m : Mutex) : Prop where
  alone : ∀ i j, (m.th i).held = true → (m.th j).held = true → i = j
  /-- no thread sleeps on a free mutex, unless a wake is on its way -/
  awake : ∀ i, (m.th i).blocked = true → m.word = 1 ∨ ∃ j, (m.th j).pc = .futexWake

/-- The invariant of every run. -/
structure Guarded (m : Mutex) : Prop extends Exclusive m where
  taken : ∀ i, (m.th i).held = true → m.word = 1
  reserved : ∀ i, (m.th i).reserved = true → m.word = 0
  binary : m.word = 0 ∨ m.word = 1
  wakes : ∀ i, (m.th i).blocked = true → sysFutexWake m.uaddr 1 = 1

variable {m m' : Mutex} {i j : ℕ} {e : Event} {t : Thread}

lemma sysFutexWait_block {uaddr : ℕ} {word expected : UInt32} (h : sysFutexWait uaddr word expected = .block) :
    word = expected ∧ sysFutexWake uaddr 1 = 1 := by
  unfold sysFutexWait at h
  split_ifs at h with hrange halign hcopy hword
  refine ⟨not_not.mp hword,?_⟩
  unfold sysFutexWake
  rw [if_neg hrange,if_neg halign]
  rfl

@[simp] lemma th_set_self : (m.set i t).th i = t := update_self ..
lemma th_set_of_ne (h : j ≠ i) : (m.set i t).th j = m.th j := update_of_ne h ..

lemma Guarded.move (hm : Guarded m) (hheld : t.held = true → (m.th i).held = true)
    (hres : t.reserved = true → m.word = 0)
    (hblocked : t.blocked = true → (m.th i).blocked = true ∨ m.word = 1 ∧ sysFutexWake m.uaddr 1 = 1)
    (hpc : (m.th i).pc = .futexWake → t.pc = .futexWake) : Guarded (m.set i t) := by
  have hold {k : ℕ} (hk : ((m.set i t).th k).held = true) : (m.th k).held = true := by
    rcases eq_or_ne k i with rfl | hne
    · rw [th_set_self] at hk
      exact hheld hk
    · rwa [th_set_of_ne hne] at hk
  have hnow {k : ℕ} (hk : ((m.set i t).th k).blocked = true) :
      (m.th k).blocked = true ∨ m.word = 1 ∧ sysFutexWake m.uaddr 1 = 1 := by
    rcases eq_or_ne k i with rfl | hne
    · rw [th_set_self] at hk
      exact hblocked hk
    · rw [th_set_of_ne hne] at hk
      exact .inl hk
  refine ⟨⟨fun k l hk hl => hm.alone k l (hold hk) (hold hl),fun k hk => ?_⟩,fun k hk => hm.taken k (hold hk),
    fun k hk => ?_,hm.binary,fun k hk => ?_⟩
  · rcases hnow hk with hk | ⟨hword,-⟩
    · refine (hm.awake k hk).imp_right fun ⟨l,hl⟩ => ⟨l,?_⟩
      rcases eq_or_ne l i with rfl | hne
      · rw [th_set_self]
        exact hpc hl
      · rwa [th_set_of_ne hne]
    · exact .inl hword
  · rcases eq_or_ne k i with rfl | hne
    · rw [th_set_self] at hk
      exact hres hk
    · rw [th_set_of_ne hne] at hk
      exact hm.reserved k hk
  · rcases hnow hk with hk | ⟨-,hwake⟩
    · exact hm.wakes k hk
    · exact hwake

lemma Guarded.goTo (hm : Guarded m) {pc : Pc} (hpc : (m.th i).pc ≠ .futexWake) : Guarded (m.goTo i pc) :=
  hm.move id (hm.reserved i) .inl fun h => absurd h hpc

lemma Guarded.take (hm : Guarded m) (hres : (m.th i).reserved = true) :
    Guarded ((m.store 1).set i { (m.store 1).th i with pc := .idle, held := true }) := by
  have hword := hm.reserved i hres
  have hfree (k : ℕ) : (m.th k).held ≠ true := fun hk => by
    have h1 := hm.taken k hk
    rw [hword] at h1
    cases h1
  have honly {k : ℕ} (hk : (((m.store 1).set i { (m.store 1).th i with pc := .idle, held := true }).th k).held = true) :
      k = i := by
    by_contra hne
    rw [th_set_of_ne hne] at hk
    exact hfree k hk
  refine ⟨⟨fun k l hk hl => (honly hk).trans (honly hl).symm,fun _ _ => .inl rfl⟩,fun _ _ => rfl,fun k hk => ?_,.inr rfl,
    fun k hk => hm.wakes k ?_⟩
  · rcases eq_or_ne k i with rfl | hne
    · rw [th_set_self] at hk
      cases hk
    · rw [th_set_of_ne hne] at hk
      cases hk
  · rcases eq_or_ne k i with rfl | hne
    · rwa [th_set_self] at hk
    · rwa [th_set_of_ne hne] at hk

lemma Guarded.release (hm : Guarded m) (hheld : (m.th i).held = true) :
    Guarded ((m.store 0).set i { (m.store 0).th i with pc := .futexWake, held := false }) := by
  have hnone (k : ℕ) : (((m.store 0).set i { (m.store 0).th i with pc := .futexWake, held := false }).th k).held ≠ true := by
    rcases eq_or_ne k i with rfl | hne
    · rw [th_set_self]
      exact Bool.false_ne_true
    · rw [th_set_of_ne hne]
      exact fun hk => hne (hm.alone k i hk hheld)
  refine ⟨⟨fun k _ hk => absurd hk (hnone k),fun _ _ => .inr ⟨i,?_⟩⟩,fun k hk => absurd hk (hnone k),fun _ _ => rfl,.inl rfl,
    fun k hk => hm.wakes k ?_⟩
  · rw [th_set_self]
  · rcases eq_or_ne k i with rfl | hne
    · rwa [th_set_self] at hk
    · rwa [th_set_of_ne hne] at hk

lemma Guarded.wake_th (hm : Guarded m) (k : ℕ) : (m.wake.th k).blocked ≠ true ∧ (m.wake.th k).held = (m.th k).held ∧
    (m.wake.th k).reserved = (m.th k).reserved := by
  unfold Mutex.wake
  split
  · exact ⟨Bool.false_ne_true,rfl,rfl⟩
  · next hno => exact ⟨fun hk => hno (hm.wakes k hk),rfl,rfl⟩

lemma wake_word (m : Mutex) : m.wake.word = m.word := by
  unfold Mutex.wake
  split <;> rfl

lemma Guarded.wake (hm : Guarded m) : Guarded m.wake where
  alone k l hk hl := by
    rw [(hm.wake_th k).2.1] at hk
    rw [(hm.wake_th l).2.1] at hl
    exact hm.alone k l hk hl
  awake k hk := absurd hk (hm.wake_th k).1
  taken k hk := by
    rw [(hm.wake_th k).2.1] at hk
    rw [wake_word]
    exact hm.taken k hk
  reserved k hk := by
    rw [(hm.wake_th k).2.2] at hk
    rw [wake_word]
    exact hm.reserved k hk
  binary := by
    rw [wake_word]
    exact hm.binary
  wakes k hk := absurd hk (hm.wake_th k).1

lemma Guarded.woken (hm : Guarded m) : Guarded (m.wake.goTo i .idle) := by
  have hw := hm.wake
  have hnone (k : ℕ) : ((m.wake.goTo i .idle).th k).blocked ≠ true := by
    unfold Mutex.goTo
    rcases eq_or_ne k i with rfl | hne
    · rw [th_set_self]
      exact (hm.wake_th k).1
    · rw [th_set_of_ne hne]
      exact (hm.wake_th k).1
  have hsame (k : ℕ) : ((m.wake.goTo i .idle).th k).held = (m.wake.th k).held ∧
      ((m.wake.goTo i .idle).th k).reserved = (m.wake.th k).reserved := by
    unfold Mutex.goTo
    rcases eq_or_ne k i with rfl | hne
    · rw [th_set_self]
      exact ⟨rfl,rfl⟩
    · rw [th_set_of_ne hne]
      exact ⟨rfl,rfl⟩
  refine ⟨⟨fun k l hk hl => ?_,fun k hk => absurd hk (hnone k)⟩,fun k hk => ?_,fun k hk => ?_,hw.binary,
    fun k hk => absurd hk (hnone k)⟩
  · rw [(hsame _).1] at hk hl
    exact hw.alone k l hk hl
  · rw [(hsame k).1] at hk
    exact hw.taken k hk
  · rw [(hsame k).2] at hk
    exact hw.reserved k hk

lemma Guarded.run (hm : Guarded m) {lost early : Bool} (now : m.run i lost early = some m') : Guarded m' := by
  unfold Mutex.run at now
  cases hpc : (m.th i).pc with
  | idle =>
    rw [hpc] at now
    cases now
  | ldaxr fast =>
    rw [hpc] at now
    dsimp only at now
    split_ifs at now with hword
    · cases now
      exact hm.move id (fun _ => hword) .inl fun h => (by rw [hpc] at h; cases h)
    all_goals
      cases now
      exact hm.goTo (by rw [hpc]; nofun)
  | stlxr fast =>
    rw [hpc] at now
    dsimp only at now
    split_ifs at now with hres
    · cases now
      exact hm.take (Bool.and_eq_true_iff.mp hres).1
    · cases now
      exact hm.move id (fun h => by cases h) .inl fun h => (by rw [hpc] at h; cases h)
  | futexWait =>
    rw [hpc] at now
    dsimp only at now
    cases hw : sysFutexWait m.uaddr m.word 1 with
    | ret v =>
      rw [hw] at now
      cases now
      exact hm.goTo (by rw [hpc]; nofun)
    | block =>
      rw [hw] at now
      cases now
      exact hm.move id (hm.reserved i) (fun _ => .inr (sysFutexWait_block hw)) fun h => (by rw [hpc] at h; cases h)
  | asleep =>
    rw [hpc] at now
    dsimp only at now
    split_ifs at now
    cases now
    exact hm.goTo (by rw [hpc]; nofun)
  | futexWake =>
    rw [hpc] at now
    cases now
    exact hm.woken

lemma Guarded.step {a : Unit} (hm : Guarded m) (now : m.step e = some (a,m')) : Guarded m' := by
  cases e with
  | lock i =>
    simp only [Mutex.step] at now
    split_ifs at now with hpc
    cases now
    exact hm.goTo (by rw [hpc]; nofun)
  | run i lost early =>
    obtain ⟨m₁,hrun,heq⟩ := Option.map_eq_some_iff.mp now
    cases heq
    exact hm.run hrun
  | unlock i =>
    simp only [Mutex.step] at now
    split_ifs at now with hheld
    cases now
    exact hm.release hheld.2
  | disturb i =>
    cases now
    exact hm.move id (hm.reserved i) (fun h => by cases h) id

lemma guarded_initial (uaddr : ℕ) : Guarded (.initial uaddr) :=
  ⟨⟨fun _ _ h => (by cases h),fun _ h => (by cases h)⟩,fun _ h => (by cases h),fun _ h => (by cases h),.inl rfl,
    fun _ h => (by cases h)⟩

/-- In every run one thread at most has the mutex, and none sleeps on a free one. -/
theorem mutex_exclusive {uaddr : ℕ} {es : List Event}
    (run : Runs Mutex.step (fun _ _ => True) (.initial uaddr) es m) : Exclusive m :=
  (run.invariant (fun _ _ _ _ hm _ now => hm.step now) (guarded_initial uaddr)).toExclusive

/-- Thread 2 sleeps until thread 1 gives the mutex up, and has it then. -/
def handOver : List Event :=
  let go (i : ℕ) : Event := .run i false false
  [.lock 1,go 1,go 1,.lock 2,go 2,go 2,go 2,.unlock 1,go 1,go 2,go 2,go 2]

theorem mutex_exclusive_handOver : ∃ m, execute Mutex.step (.initial 0x1000000000) handOver = some m ∧
    (m.th 2).held = true ∧ Exclusive m := by
  have hend : ((execute Mutex.step (.initial 0x1000000000) handOver).map fun m => (m.th 2).held) = some true := by
    decide
  obtain ⟨m,hm,hheld⟩ := Option.map_eq_some_iff.mp hend
  exact ⟨m,hm,hheld,mutex_exclusive (.of_execute hm)⟩

end VibeOS.Threads

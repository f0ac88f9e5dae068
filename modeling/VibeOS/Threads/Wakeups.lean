import VibeOS.Userfs.Pipe
import VibeOS.Runs

/-! Pipes without deadlines, `thread_waitpid` and `thread_exit`, statement by statement: any number
of threads, each of which may be preempted between two statements. -/
namespace VibeOS.Threads.Wakeups
open Function
open VibeOS.Userfs (pipeBufSize)

structure Pipe where
  count : ℕ
  rRefs : ℕ
  wRefs : ℕ

inductive Call
  | read (p len : ℕ)
  | write (p len : ℕ)
  /-- of the writing end, or of the reading one -/
  | unref (p : ℕ) (writing : Bool)
  | waitpid (target : Option ℕ) (nohang : Bool)
  | exit

/-- The statement that a thread is at. -/
inductive Pc
  | idle
  /-- the test of the loop in `pipe_read_until` -/
  | rTest (p len : ℕ)
  | rRefs (p len : ℕ)
  | rBlock (p len : ℕ)
  | rYield (p len : ℕ)
  | rAgain (p len : ℕ)
  | rSig (p len : ℕ)
  | rLen (p len : ℕ)
  | rCount (p n : ℕ)
  | rWake (p : ℕ)
  /-- the tests of the loop in `pipe_write_until` -/
  | wTest (p left : ℕ)
  | wFull (p left : ℕ)
  | wBlock (p left : ℕ)
  | wYield (p left : ℕ)
  | wCan (p left : ℕ)
  | wCount (p left want : ℕ)
  | wWake (p left : ℕ)
  /-- `pipe_unref` behind its decrement -/
  | uTest (p : ℕ) (writing : Bool)
  /-- `thread_waitpid` with the threads of the list that it has not come to -/
  | scan (target : Option ℕ) (nohang : Bool) (todo : List ℕ) (found : Bool)
  | enter (target : Option ℕ)
  | waitYield (target : Option ℕ)
  /-- `thread_exit` behind `vfs_close_all` -/
  | eMark
  | eSweep (todo : List ℕ)
  | eSignal
  | eWake
  | done

/-- `blocked` is `blocked_on` of a BLOCKED thread, and whether it read; `waiting` is the filter of a
WAITING one. -/
structure Thread where
  pc : Pc
  blocked : Option (ℕ × Bool)
  waiting : Option (Option ℕ)
  exited : Bool
  sigPending : Bool
  parent : Option ℕ

/-- `resumed` are the threads that have been switched out inside their call: they run on with
interrupts enabled. -/
structure Sys where
  pipe : ℕ → Pipe
  th : ℕ → Thread
  all : List ℕ
  current : ℕ
  resumed : ℕ → Bool

inductive Event
  | call (i : ℕ) (c : Call)
  /-- the next statement; `early` is a `yield` that finds no other thread and returns at once -/
  | run (i : ℕ) (early : Bool)
  /-- `thread_signal_pid` -/
  | signal (i : ℕ)

def matchesFilter (target : Option ℕ) (c : ℕ) : Bool := target.all (· == c)

namespace Sys
variable (s : Sys)

def set (i : ℕ) (t : Thread) : Sys := { s with th := update s.th i t }

def goTo (i : ℕ) (pc : Pc) : Sys := s.set i { s.th i with pc := pc }

def setPipe (p : ℕ) (v : Pipe) : Sys := { s with pipe := update s.pipe p v }

/-- `all_remove` -/
def remove (i : ℕ) : Sys := { s with all := s.all.filter (· != i) }

/-- `thread_wake_blocked` -/
def wake (p : ℕ) : Sys :=
  { s with
    th := fun i => if i ∈ s.all ∧ (s.th i).blocked.any (·.1 == p) then { s.th i with blocked := none } else s.th i }

/-- `thread_signal_pid` -/
def signal (i : ℕ) : Sys :=
  if i ≠ 0 ∧ i ∈ s.all then s.set i { s.th i with sigPending := true,blocked := none } else s

/-- The wake of a parent in `thread_exit`. -/
def wakeParent (i : ℕ) : Sys := if i ∈ s.all then s.set i { s.th i with waiting := none } else s

def isChild (i : ℕ) (target : Option ℕ) (c : ℕ) : Bool := (s.th c).parent == some i && matchesFilter target c

/-- An exiting thread comes to one of its children: it reaps or orphans it. -/
def sweep (i c : ℕ) : Sys :=
  if c ∈ s.all ∧ (s.th c).parent = some i then
    if (s.th c).exited then s.remove c else s.set c { s.th c with parent := none }
  else s

def call (i : ℕ) : Call → Sys
  | .read p len => s.goTo i (if len = 0 then .idle else .rTest p len)
  | .write p len => s.goTo i (if len = 0 then .idle else .wTest p len)
  | .unref p true => (s.setPipe p { s.pipe p with wRefs := (s.pipe p).wRefs - 1 }).goTo i (.uTest p true)
  | .unref p false => (s.setPipe p { s.pipe p with rRefs := (s.pipe p).rRefs - 1 }).goTo i (.uTest p false)
  | .waitpid target nohang => s.goTo i (.scan target nohang s.all false)
  | .exit => s.goTo i .eMark

def run (i : ℕ) (early : Bool) : Option Sys :=
  let t := s.th i
  match t.pc with
  | .idle => none
  | .rTest p len => some (s.goTo i (if (s.pipe p).count = 0 then .rRefs p len else .rLen p len))
  | .rRefs p len => some (s.goTo i (if (s.pipe p).wRefs = 0 then .idle else .rBlock p len))
  | .rBlock p len => some (s.set i { t with pc := .rYield p len,blocked := some (p,true),waiting := none })
  | .rYield p len => if t.blocked.isSome && !early then none else some (s.goTo i (.rAgain p len))
  | .rAgain p len => some (s.goTo i (if (s.pipe p).count > 0 then .rTest p len else .rSig p len))
  | .rSig p len => some (s.goTo i (if t.sigPending then .idle else .rTest p len))
  | .rLen p len => some (s.goTo i (.rCount p (min len (s.pipe p).count)))
  | .rCount p n => some ((s.setPipe p { s.pipe p with count := ((s.pipe p).count + (2^32 - n)) % 2^32 }).goTo i (.rWake p))
  | .rWake p => some ((s.wake p).goTo i .idle)
  | .wTest p left => some (s.goTo i (if left = 0 ∨ (s.pipe p).rRefs = 0 then .idle else .wFull p left))
  | .wFull p left => some (s.goTo i (if (s.pipe p).count = pipeBufSize then .wBlock p left else .wCan p left))
  | .wBlock p left => some (s.set i { t with pc := .wYield p left,blocked := some (p,false),waiting := none })
  | .wYield p left => if t.blocked.isSome && !early then none else some (s.goTo i (.wTest p left))
  | .wCan p left => some (s.goTo i (.wCount p left (min left ((pipeBufSize + (2^32 - (s.pipe p).count)) % 2^32))))
  | .wCount p left want =>
    some ((s.setPipe p { s.pipe p with count := ((s.pipe p).count + want) % 2^32 }).goTo i (.wWake p (left - want)))
  | .wWake p left => some ((s.wake p).goTo i (.wTest p left))
  | .uTest p writing =>
    some ((if (if writing then (s.pipe p).wRefs else (s.pipe p).rRefs) = 0 then s.wake p else s).goTo i .idle)
  | .scan target nohang [] found => some (s.goTo i (if !found || nohang then .idle else .enter target))
  | .scan target nohang (c :: todo) found =>
    if c ∈ s.all ∧ s.isChild i target c then
      if (s.th c).exited then some ((s.remove c).goTo i .idle)
      else some (s.goTo i (.scan target nohang todo true))
    else some (s.goTo i (.scan target nohang todo found))
  | .enter target => some (s.set i { t with pc := .waitYield target,blocked := none,waiting := some target })
  | .waitYield target =>
    if t.waiting.isSome && !early then none else some (s.goTo i (.scan target false s.all false))
  | .eMark => some (s.set i { t with pc := .eSweep s.all,blocked := none,waiting := none,exited := true })
  | .eSweep [] => some (s.goTo i .eSignal)
  | .eSweep (c :: todo) => some ((s.sweep i c).goTo i (.eSweep todo))
  | .eSignal =>
    match t.parent with
    | none => some ((s.remove i).goTo i .done)
    | some p => some ((s.signal p).goTo i .eWake)
  | .eWake =>
    match t.parent with
    | none => some (s.goTo i .done)
    | some p => some ((s.wakeParent p).goTo i .done)
  | .done => none

/-- The current thread may be switched out: it is outside of the calls, asleep, or takes interrupts. -/
def preemptible : Bool :=
  match (s.th s.current).pc with
  | .idle => true
  | .done => true
  | .rYield _ _ => true
  | .wYield _ _ => true
  | .waitYield _ => true
  | _ => s.resumed s.current

def yields : Pc → Bool
  | .rYield _ _ => true
  | .wYield _ _ => true
  | .waitYield _ => true
  | _ => false

def step (s : Sys) : Event → Option (Unit × Sys)
  | .call i c =>
    match (s.th i).pc with
    | .idle =>
      if i ∈ s.all ∧ (i = s.current ∨ s.preemptible = true) then
        some ((),{ s.call i c with current := i,resumed := update s.resumed i false })
      else none
    | _ => none
  | .run i early =>
    if i = s.current ∨ s.preemptible = true then
      (s.run i early).map fun s' =>
        ((),{ s' with current := i,resumed := update s.resumed i (s.resumed i || yields (s.th i).pc && !early) })
    else none
  | .signal i => some ((),s.signal i)

def initial (pipe : ℕ → Pipe) (parent : ℕ → Option ℕ) (all : List ℕ) (current : ℕ) : Sys where
  pipe := pipe
  th i := ⟨.idle,none,none,false,false,parent i⟩
  all := all
  current := current
  resumed _ := false

end Sys

/-- What a thread that sleeps on a pipe waits for has not come. -/
def Pipe.starves (v : Pipe) (reading : Bool) : Bool :=
  if reading then v.count == 0 && decide (0 < v.wRefs) else v.count == pipeBufSize && decide (0 < v.rRefs)

/-- A thread is in the middle of a write, a read, an unref, a wait or an exit; it is not when it sleeps. -/
def busy (t : Thread) : Bool :=
  match t.pc with
  | .idle => false
  | .done => false
  | .rYield _ _ => t.blocked.isNone
  | .wYield _ _ => t.blocked.isNone
  | .waitYield _ => t.waiting.isNone
  | _ => true

/-- Nobody sleeps whose time has come. -/
structure Awake (s : Sys) : Prop where
  pipes : ∀ i p reading, (s.th i).blocked = some (p,reading) → (s.pipe p).starves reading = true
  waits : ∀ i target, (s.th i).waiting = some target → ∀ c ∈ s.all, s.isChild i target c = true → (s.th c).exited = false

/-- The pipe whose sleepers the thread is about to wake. -/
def promised (pipe : ℕ → Pipe) : Pc → Option ℕ
  | .rWake p => some p
  | .wWake p _ => some p
  | .uTest p writing => if (if writing then (pipe p).wRefs else (pipe p).rRefs) = 0 then some p else none
  | _ => none

/-- What a thread has tested on its way to BLOCKED still holds of the pipe. -/
def sees (v : Pipe) (p : ℕ) : Pc → Bool
  | .rRefs q _ => q != p || v.count == 0
  | .rBlock q _ => q != p || v.starves true
  | .wFull q _ => q != p || decide (0 < v.rRefs)
  | .wBlock q _ => q != p || v.starves false
  | _ => true

/-- On its way to WAITING the thread has passed this child by. -/
def overlooks (c : ℕ) : Pc → Bool
  | .scan target nohang todo _ => !nohang && matchesFilter target c && !todo.contains c
  | .enter target => matchesFilter target c
  | _ => false

def standing : Pc → Option ℕ
  | .scan _ _ (c :: _) _ => some c
  | .eSweep (c :: _) => some c
  | _ => none

def leaving (s : Sys) (i : ℕ) : Option ℕ :=
  match (s.th i).pc with
  | .scan target _ (c :: _) _ => if s.isChild i target c && (s.th c).exited then some c else none
  | .eSweep (c :: _) => if (s.th c).parent == some i && (s.th c).exited then some c else none
  | .eSignal => if (s.th i).parent.isNone then some i else none
  | _ => none

/-- When a wake comes no other thread stands between its test and the change to BLOCKED or WAITING
with a test that no longer holds, and no thread leaves the list that a walk stands at. -/
def undisturbed (s : Sys) : Event → Bool
  | .run j _ =>
    (promised s.pipe (s.th j).pc).all (fun p => s.all.all fun i => sees (s.pipe p) p (s.th i).pc) &&
      (leaving s j).all (fun c => s.all.all fun i => i == j || standing (s.th i).pc != some c) &&
      match (s.th j).pc with
      | .eWake => (s.th j).parent.all fun i => !overlooks j (s.th i).pc
      | _ => true
  | _ => true

def Undisturbed (s : Sys) (e : Event) : Prop := undisturbed s e = true

/-- The thread has changed to EXITED. -/
def gone : Pc → Bool
  | .eSweep _ => true
  | .eSignal => true
  | .eWake => true
  | .done => true
  | _ => false

/-- The thread has changed to EXITED, and has not come to its parent. -/
def exiting : Pc → Bool
  | .eSweep _ => true
  | .eSignal => true
  | .eWake => true
  | _ => false

/-- A thread that exited does not sleep, nor does one outside the list. -/
structure Thread.Proper (t : Thread) (listed : Prop) : Prop where
  exited : t.exited = gone t.pc
  asleep : gone t.pc = true ∨ ¬ listed → t.blocked = none ∧ t.waiting = none
  calling : ¬ listed → gone t.pc = true ∨ t.pc = .idle

def Listed (s : Sys) : Prop := ∀ i, (s.th i).Proper (i ∈ s.all)

variable {s s' : Sys} {i j p : ℕ} {t : Thread} {pc : Pc} {target : Option ℕ} {todo : List ℕ}

@[simp] lemma th_set_self : (s.set i t).th i = t := update_self ..
lemma th_set_of_ne (h : j ≠ i) : (s.set i t).th j = s.th j := update_of_ne h ..

lemma th_goTo_of_ne (h : j ≠ i) : (s.goTo i pc).th j = s.th j := th_set_of_ne h
@[simp] lemma th_goTo_self : (s.goTo i pc).th i = { s.th i with pc := pc } := th_set_self
@[simp] lemma pc_goTo_self : ((s.goTo i pc).th i).pc = pc := by rw [th_goTo_self]

lemma th_goTo (k : ℕ) : ((s.goTo i pc).th k).blocked = (s.th k).blocked ∧ ((s.goTo i pc).th k).waiting = (s.th k).waiting ∧
    ((s.goTo i pc).th k).exited = (s.th k).exited ∧ ((s.goTo i pc).th k).parent = (s.th k).parent := by
  rcases eq_or_ne k i with rfl | hne
  · rw [th_goTo_self]
    exact ⟨rfl,rfl,rfl,rfl⟩
  · rw [th_goTo_of_ne hne]
    exact ⟨rfl,rfl,rfl,rfl⟩

lemma Thread.Proper.of_running (hex : t.exited = false) (hpc : gone t.pc = false) {listed : Prop} (h : listed) : t.Proper listed where
  exited := by rw [hex,hpc]
  asleep := by
    rintro (hgone | hno)
    · rw [hpc] at hgone
      cases hgone
    · exact absurd h hno
  calling hno := absurd h hno

lemma Thread.Proper.goTo (hex : t.exited = false) (hpc : gone pc = false) {listed : Prop} (h : listed) :
    Thread.Proper { t with pc := pc } listed := Thread.Proper.of_running (t := { t with pc := pc }) hex hpc h

lemma Listed.set (h : Listed s) (ht : t.Proper (i ∈ s.all)) : Listed (s.set i t) := fun k => by
  rcases eq_or_ne k i with rfl | hne
  · rw [th_set_self]
    exact ht
  · rw [th_set_of_ne hne]
    exact h k

lemma Listed.running (h : Listed s) (hpc : gone (s.th i).pc = false) (hidle : (s.th i).pc ≠ .idle) :
    (s.th i).exited = false ∧ i ∈ s.all := by
  refine ⟨(h i).exited.trans hpc,?_⟩
  by_contra hno
  rcases (h i).calling hno with hgone | hpc'
  · rw [hpc] at hgone
    cases hgone
  · exact hidle hpc'

/-- Threads wake up, lose their parent, or leave the list when they exited. -/
structure Fades (s s' : Sys) : Prop where
  pipe : s'.pipe = s.pipe
  pc : ∀ c, (s'.th c).pc = (s.th c).pc
  exited : ∀ c, (s'.th c).exited = (s.th c).exited
  blocked : ∀ c, (s'.th c).blocked = (s.th c).blocked ∨ (s'.th c).blocked = none
  waiting : ∀ c, (s'.th c).waiting = (s.th c).waiting ∨ (s'.th c).waiting = none
  parent : ∀ c k, (s'.th c).parent = some k → (s.th c).parent = some k
  all : ∀ c ∈ s'.all, c ∈ s.all
  left : ∀ c ∈ s.all, c ∈ s'.all ∨ (s.th c).exited = true

lemma Fades.refl (s : Sys) : Fades s s :=
  ⟨rfl,fun _ => rfl,fun _ => rfl,fun _ => .inl rfl,fun _ => .inl rfl,fun _ _ => id,fun _ => id,fun _ => .inl⟩

lemma Fades.set (hpc : t.pc = (s.th i).pc) (hexited : t.exited = (s.th i).exited)
    (hblocked : t.blocked = (s.th i).blocked ∨ t.blocked = none) (hwaiting : t.waiting = (s.th i).waiting ∨ t.waiting = none)
    (hparent : ∀ k, t.parent = some k → (s.th i).parent = some k) : Fades s (s.set i t) := by
  refine ⟨rfl,fun c => ?_,fun c => ?_,fun c => ?_,fun c => ?_,fun c => ?_,fun _ => id,fun _ => .inl⟩
  all_goals
    rcases eq_or_ne c i with rfl | hne
    · rw [th_set_self]
      assumption
    · first
        | exact congrArg _ (th_set_of_ne hne)
        | exact .inl (congrArg _ (th_set_of_ne hne))
        | exact fun k hk => (congrArg Thread.parent (th_set_of_ne hne)).symm.trans hk

lemma fades_wake (s : Sys) (p : ℕ) : Fades s (s.wake p) := by
  have hth : ∀ c, (s.wake p).th c = s.th c ∨ (s.wake p).th c = { s.th c with blocked := none } := fun c => by
    unfold Sys.wake
    dsimp only
    split
    · exact .inr rfl
    · exact .inl rfl
  refine ⟨rfl,fun c => ?_,fun c => ?_,fun c => ?_,fun c => ?_,fun c => ?_,fun _ => id,fun _ => .inl⟩
  all_goals rcases hth c with heq | heq <;> rw [heq]
  · exact .inl rfl
  · exact .inr rfl
  · exact .inl rfl
  · exact .inl rfl
  · exact fun _ => id
  · exact fun _ => id

lemma fades_signal (s : Sys) (i : ℕ) : Fades s (s.signal i) := by
  unfold Sys.signal
  split
  · exact .set rfl rfl (.inr rfl) (.inl rfl) fun _ => id
  · exact .refl s

lemma fades_wakeParent (s : Sys) (i : ℕ) : Fades s (s.wakeParent i) := by
  unfold Sys.wakeParent
  split
  · exact .set rfl rfl (.inl rfl) (.inr rfl) fun _ => id
  · exact .refl s

lemma fades_remove (h : (s.th i).exited = true) : Fades s (s.remove i) := by
  refine ⟨rfl,fun _ => rfl,fun _ => rfl,fun _ => .inl rfl,fun _ => .inl rfl,fun _ _ => id,fun c hc => ?_,fun c hc => ?_⟩
  · exact (List.mem_filter.mp hc).1
  · rcases eq_or_ne c i with rfl | hne
    · exact .inr h
    · exact .inl (List.mem_filter.mpr ⟨hc,bne_iff_ne.mpr hne⟩)

lemma fades_sweep (s : Sys) (i c : ℕ) : Fades s (s.sweep i c) := by
  unfold Sys.sweep
  split
  · split
    · next hex => exact fades_remove hex
    · exact .set rfl rfl (.inl rfl) (.inl rfl) nofun
  · exact .refl s

lemma Listed.fades (h : Listed s) (hf : Fades s s') : Listed s' := fun c => by
  have hout : c ∉ s'.all → gone (s.th c).pc = true ∨ c ∉ s.all := fun hno => by
    by_cases hc : c ∈ s.all
    · rw [← (h c).exited]
      exact .inl ((hf.left c hc).resolve_left hno)
    · exact .inr hc
  refine ⟨?_,fun hc => ?_,fun hno => ?_⟩
  · rw [hf.pc,hf.exited]
    exact (h c).exited
  · rw [hf.pc] at hc
    have hnone := (h c).asleep (hc.elim .inl hout)
    exact ⟨(hf.blocked c).elim (·.trans hnone.1) id,(hf.waiting c).elim (·.trans hnone.2) id⟩
  · rw [hf.pc]
    exact (hout hno).elim .inl (h c).calling

/-- The thread does not sleep on the pipe, nor is it about to, but where what it waits for has not come. -/
structure Fine (v : Pipe) (p : ℕ) (t : Thread) : Prop where
  blocked : ∀ reading, t.blocked = some (p,reading) → v.starves reading = true
  sees : sees v p t.pc = true

/-- Where the time of a thread has come, a wake is on its way. -/
def Pipes (s : Sys) : Prop := ∀ p, (∃ j, promised s.pipe (s.th j).pc = some p) ∨ ∀ i, Fine (s.pipe p) p (s.th i)

lemma Pipes.fades (h : Pipes s) (hf : Fades s s') : Pipes s' := fun p => by
  rw [hf.pipe]
  refine (h p).imp (fun ⟨j,hj⟩ => ⟨j,by rw [hf.pc]; exact hj⟩) fun hfine i => ⟨fun reading hi => ?_,by rw [hf.pc]; exact (hfine i).sees⟩
  rcases hf.blocked i with heq | hnone
  · exact (hfine i).blocked reading (heq ▸ hi)
  · rw [hnone] at hi
    cases hi

lemma Pipes.set (h : Pipes s) (hpromise : promised s.pipe (s.th i).pc = none)
    (hfine : ∀ p, Fine (s.pipe p) p (s.th i) → Fine (s.pipe p) p t) : Pipes (s.set i t) := fun p => by
  rcases h p with ⟨j,hj⟩ | hall
  · have hne : j ≠ i := by
      rintro rfl
      rw [hpromise] at hj
      cases hj
    exact .inl ⟨j,by rw [th_set_of_ne hne]; exact hj⟩
  · refine .inr fun k => ?_
    rcases eq_or_ne k i with rfl | hne
    · rw [th_set_self]
      exact hfine p (hall k)
    · rw [th_set_of_ne hne]
      exact hall k

lemma Pipes.wakeGoTo (h : Pipes s) (hl : Listed s) (hpromise : promised s.pipe (s.th i).pc = some p)
    (ok : ∀ k ∈ s.all, sees (s.pipe p) p (s.th k).pc = true) (hpc : ∀ q, sees (s.pipe q) q pc = true) :
    Pipes ((s.wake p).goTo i pc) := fun q => by
  have hf := fades_wake s p
  have hpipe : ((s.wake p).goTo i pc).pipe = s.pipe := rfl
  have hsees : ∀ k, sees (s.pipe q) q (s.th k).pc = true → sees (s.pipe q) q (((s.wake p).goTo i pc).th k).pc = true := fun k hk => by
    rcases eq_or_ne k i with rfl | hne
    · rw [pc_goTo_self]
      exact hpc q
    · rw [th_goTo_of_ne hne,hf.pc]
      exact hk
  have hblocked : ∀ k reading, (((s.wake p).goTo i pc).th k).blocked = some (q,reading) → (s.th k).blocked = some (q,reading) :=
    fun k reading hk => by
      rw [(th_goTo k).1] at hk
      rcases hf.blocked k with heq | hnone
      · exact heq ▸ hk
      · rw [hnone] at hk
        cases hk
  rw [hpipe]
  rcases eq_or_ne q p with rfl | hne
  · refine .inr fun k => ⟨fun reading hk => ?_,hsees k ?_⟩
    · have hold := hblocked k reading hk
      have hk' : k ∈ s.all := by
        by_contra hno
        rw [((hl k).asleep (.inr hno)).1] at hold
        cases hold
      rw [(th_goTo k).1] at hk
      unfold Sys.wake at hk
      dsimp only at hk
      rw [if_pos ⟨hk',by rw [hold]; simp⟩] at hk
      cases hk
    · by_cases hk : k ∈ s.all
      · exact ok k hk
      · rcases (hl k).calling hk with hgone | hidle
        · generalize (s.th k).pc = pc' at *
          cases pc' <;> first | rfl | cases hgone
        · rw [hidle]
          rfl
  · refine (h q).imp (fun ⟨j,hj⟩ => ⟨j,?_⟩) fun hall k => ⟨fun reading hk => (hall k).blocked reading (hblocked k reading hk),
      hsees k (hall k).sees⟩
    have hji : j ≠ i := by
      rintro rfl
      rw [hpromise] at hj
      exact hne (Option.some_inj.mp hj).symm
    rw [th_goTo_of_ne hji,hf.pc]
    exact hj

lemma promised_setPipe {v : Pipe} (hw : (s.pipe p).wRefs = 0 → v.wRefs = 0) (hr : (s.pipe p).rRefs = 0 → v.rRefs = 0) {q : ℕ}
    (h : promised s.pipe pc = some q) : promised (s.setPipe p v).pipe pc = some q := by
  cases pc with
  | uTest q' writing =>
    have hzero : ∀ w : Bool, (if w then (s.pipe q').wRefs else (s.pipe q').rRefs) = 0 →
        (if w then ((s.setPipe p v).pipe q').wRefs else ((s.setPipe p v).pipe q').rRefs) = 0 := fun w hw₀ => by
      rcases eq_or_ne q' p with rfl | hne
      · have hself : (s.setPipe q' v).pipe q' = v := update_self ..
        rw [hself]
        cases w with
        | true => exact hw hw₀
        | false => exact hr hw₀
      · have hsame : (s.setPipe p v).pipe q' = s.pipe q' := update_of_ne hne _ _
        rw [hsame]
        exact hw₀
    by_cases hz : (if writing then (s.pipe q').wRefs else (s.pipe q').rRefs) = 0
    · have hold : promised s.pipe (.uTest q' writing) = some q' := if_pos hz
      have hnew : promised (s.setPipe p v).pipe (.uTest q' writing) = some q' := if_pos (hzero writing hz)
      rw [hnew,← hold]
      exact h
    · have hold : promised s.pipe (.uTest q' writing) = none := if_neg hz
      rw [hold] at h
      cases h
  | _ => exact h

lemma Pipes.change (h : Pipes s) {v : Pipe} (hw : (s.pipe p).wRefs = 0 → v.wRefs = 0) (hr : (s.pipe p).rRefs = 0 → v.rRefs = 0)
    (hpromise : promised s.pipe (s.th i).pc = none) (hpc : ∀ v q, sees v q pc = true)
    (howed : promised (s.setPipe p v).pipe pc = some p ∨ ∀ t, Fine (s.pipe p) p t → Fine v p t) :
    Pipes ((s.setPipe p v).goTo i pc) := fun q => by
  rcases h q with ⟨j,hj⟩ | hall
  · have hne : j ≠ i := by
      rintro rfl
      rw [hpromise] at hj
      cases hj
    exact .inl ⟨j,by rw [th_goTo_of_ne hne]; exact promised_setPipe hw hr hj⟩
  · have hfine : ∀ w, (∀ t, Fine (s.pipe q) q t → Fine w q t) → ∀ k, Fine w q (((s.setPipe p v).goTo i pc).th k) := fun w hkeep k => by
      rcases eq_or_ne k i with rfl | hne
      · refine ⟨fun reading hk => ?_,by rw [pc_goTo_self]; exact hpc w q⟩
        rw [(th_goTo k).1] at hk
        exact (hkeep _ (hall k)).blocked reading hk
      · rw [th_goTo_of_ne hne]
        exact hkeep _ (hall k)
    rcases eq_or_ne q p with rfl | hne
    · have hself : ((s.setPipe q v).goTo i pc).pipe q = v := update_self ..
      rcases howed with howed | hkeep
      · exact .inl ⟨i,by rw [pc_goTo_self]; exact howed⟩
      · rw [hself]
        exact .inr (hfine v hkeep)
    · have hsame : ((s.setPipe p v).goTo i pc).pipe q = s.pipe q := update_of_ne hne _ _
      rw [hsame]
      exact .inr (hfine _ fun _ => id)

end VibeOS.Threads.Wakeups

import VibeOS.Widths
import Mathlib.Data.List.Basic

/-! Programs over an addressed store, with device errors, crashes and a logic for both.
A program is a tree of read and write requests; the store answers each request with an
outcome, so a run is a program together with the list of outcomes met so far, and a crash
is simply the store left behind after some prefix of the requests. -/
namespace VibeOS.Storage
open Function (update update_of_ne)

/-- A program that reads and writes values of type `V` at numeric addresses. A read
continues with the value or with `none` on an error, a write with its success flag. -/
inductive Prog (V α : Type) : Type
  | ret (a : α)
  | read (addr : ℕ) (k : Option V → Prog V α)
  | write (addr : ℕ) (v : V) (k : Bool → Prog V α)

abbrev Store (V : Type) := ℕ → V

/-- The answer to one request: success, an error that left the store alone, or an error
reported although the value was stored. -/
inductive Outcome
  | ok | lost | stored
  deriving DecidableEq, Repr

namespace Outcome
variable {V : Type}

def readResult (o : Outcome) (d : Store V) (a : ℕ) : Option V :=
  match o with
  | .ok => some (d a)
  | _ => none

def reports : Outcome → Bool
  | .ok => true
  | _ => false

def store (o : Outcome) (d : Store V) (a : ℕ) (v : V) : Store V :=
  match o with
  | .lost => d
  | _ => update d a v

@[simp] lemma readResult_ok (d : Store V) (a : ℕ) : ok.readResult d a = some (d a) := rfl
@[simp] lemma reports_ok : ok.reports = true := rfl
@[simp] lemma store_ok (d : Store V) (a : ℕ) (v : V) :
    ok.store d a v = update d a v := rfl

end Outcome

namespace Prog
variable {V α β γ : Type}

def bind (p : Prog V α) (f : α → Prog V β) : Prog V β :=
  match p with
  | ret a => f a
  | read a k => read a fun r => (k r).bind f
  | write a v k => write a v fun r => (k r).bind f

instance : Monad (Prog V) where
  pure := ret
  bind := bind

@[simp] lemma pure_eq (a : α) : (pure a : Prog V α) = ret a := rfl
@[simp] lemma ret_bind (a : α) (f : α → Prog V β) : (ret a >>= f) = f a := rfl
@[simp] lemma read_bind (a : ℕ) (k : Option V → Prog V α) (f : α → Prog V β) :
    (read a k >>= f) = read a fun r => k r >>= f := rfl
@[simp] lemma write_bind (a : ℕ) (v : V) (k : Bool → Prog V α) (f : α → Prog V β) :
    (write a v k >>= f) = write a v fun r => k r >>= f := rfl

/-- The request for one address, as a program of its own. -/
def readAt (a : ℕ) : Prog V (Option V) := read a ret
def writeAt (a : ℕ) (v : V) : Prog V Bool := write a v ret

/-- One request is answered; a finished program stays as it is. -/
def step (o : Outcome) : Prog V α × Store V → Prog V α × Store V
  | (ret a, d) => (ret a, d)
  | (read a k, d) => (k (o.readResult d a), d)
  | (write a v k, d) => (k o.reports, o.store d a v)

/-- The program and store reached after the given answers. -/
def steps (os : List Outcome) (c : Prog V α × Store V) : Prog V α × Store V :=
  os.foldl (fun c o => step o c) c

@[simp] lemma steps_nil (c : Prog V α × Store V) : steps [] c = c := rfl
@[simp] lemma steps_cons (o : Outcome) (os : List Outcome) (c : Prog V α × Store V) :
    steps (o :: os) c = steps os (step o c) := rfl

lemma steps_append (os os' : List Outcome) (c : Prog V α × Store V) :
    steps (os ++ os') c = steps os' (steps os c) := by
  simp only [steps,List.foldl_append]

@[simp] lemma steps_ret (os : List Outcome) (a : α) (d : Store V) :
    steps os (ret a, d) = (ret a, d) := by
  induction os with
  | nil => rfl
  | cons o os ih => simpa [step] using ih

def run : Prog V α → Store V → α × Store V
  | ret a, d => (a, d)
  | read a k, d => (k (some (d a))).run d
  | write a v k, d => (k true).run (update d a v)

@[simp] lemma run_ret (a : α) (d : Store V) : (ret a).run d = (a, d) := rfl
@[simp] lemma run_read (a : ℕ) (k : Option V → Prog V α) (d : Store V) :
    (read a k).run d = (k (some (d a))).run d := rfl
@[simp] lemma run_write (a : ℕ) (v : V) (k : Bool → Prog V α) (d : Store V) :
    (write a v k).run d = (k true).run (update d a v) := rfl

lemma run_bind (p : Prog V α) (f : α → Prog V β) (d : Store V) :
    (p >>= f).run d = (f (p.run d).1).run (p.run d).2 := by
  induction p generalizing d with
  | ret a => rfl
  | read a k ih => simp only [read_bind,run_read,ih]
  | write a v k ih => simp only [write_bind,run_write,ih]

def requests : Prog V α → Store V → ℕ
  | ret _, _ => 0
  | read a k, d => (k (some (d a))).requests d + 1
  | write a v k, d => (k true).requests (update d a v) + 1

lemma steps_requests (p : Prog V α) (d : Store V) :
    steps (List.replicate (p.requests d) .ok) (p, d) = (ret (p.run d).1, (p.run d).2) := by
  induction p generalizing d with
  | ret a => rfl
  | read a k ih => simpa [requests,List.replicate_succ,step] using ih (some (d a)) d
  | write a v k ih => simpa [requests,List.replicate_succ,step] using ih true (update d a v)

end Prog

/-- What a program is verified against: the outcomes its device may give, the addresses it
may touch, and what must hold of the store at every point where it may crash. -/
structure Env (V : Type) where
  allowed : Outcome → Prop
  addr : ℕ → Prop
  crash : Store V → Prop

namespace Env
variable {V : Type}

/-- A device that answers every request; no constraint on addresses or crashes. -/
def reliable : Env V := ⟨(· = .ok),fun _ => True, fun _ => True⟩

def faulty : Env V := ⟨fun _ => True, fun _ => True, fun _ => True⟩

def mayFail (E : Env V) : Prop := ∃ o, E.allowed o ∧ o ≠ .ok

lemma reliable_not_mayFail : ¬ (reliable : Env V).mayFail := fun ⟨_,h,hne⟩ => hne h

def withCrash (E : Env V) (C : Store V → Prop) : Env V := { E with crash := C }

lemma withCrash_not_mayFail (C : Store V → Prop) :
    ¬ ((reliable : Env V).withCrash C).mayFail := reliable_not_mayFail (V := V)

def withAddr (E : Env V) (A : ℕ → Prop) : Env V := { E with addr := A }

end Env

variable {V α β : Type}

/-- From the store `d` the program only touches permitted addresses, every store it may
leave behind satisfies the crash condition, and its result satisfies `Q`. -/
def Safe (E : Env V) (Q : α → Store V → Prop) : Prog V α → Store V → Prop
  | .ret a, d => E.crash d ∧ Q a d
  | .read a k, d => E.crash d ∧ E.addr a ∧ ∀ o, E.allowed o → Safe E Q (k (o.readResult d a)) d
  | .write a v k, d =>
    E.crash d ∧ E.addr a ∧ ∀ o, E.allowed o → Safe E Q (k o.reports) (o.store d a v)

namespace Safe
variable {E : Env V} {Q R : α → Store V → Prop}

variable {d : Store V}

lemma crash_now {p : Prog V α} (h : Safe E Q p d) : E.crash d := by
  cases p <;> exact h.1

lemma mono {p : Prog V α} (h : Safe E Q p d) (hQ : ∀ a d, Q a d → R a d) :
    Safe E R p d := by
  induction p generalizing d with
  | ret a => exact ⟨h.1,hQ a d h.2⟩
  | read a k ih | write a v k ih => exact ⟨h.1,h.2.1,fun o ho => ih _ (h.2.2 o ho)⟩

lemma bind {p : Prog V α} {f : α → Prog V β} {Q : β → Store V → Prop}
    (h : Safe E (fun a d' => Safe E Q (f a) d') p d) : Safe E Q (p >>= f) d := by
  induction p generalizing d with
  | ret a => exact h.2
  | read a k ih | write a v k ih => exact ⟨h.1,h.2.1,fun o ho => ih _ (h.2.2 o ho)⟩

lemma seq {p : Prog V α} {f : α → Prog V β} {R : α → Store V → Prop}
    {Q : β → Store V → Prop} (h : Safe E R p d)
    (hf : ∀ a d', R a d' → Safe E Q (f a) d') : Safe E Q (p >>= f) d :=
  bind (h.mono hf)

lemma ret {a : α} (hc : E.crash d) (h : Q a d) : Safe E Q (.ret a) d := ⟨hc,h⟩

/-- Soundness: whatever answers the device gives, the store met is a permitted crash state
and a finished program satisfies its postcondition. -/
lemma sound {p : Prog V α} (h : Safe E Q p d) (os : List Outcome)
    (hos : ∀ o ∈ os, E.allowed o) :
    Safe E Q (Prog.steps os (p,d)).1 (Prog.steps os (p,d)).2 := by
  induction os generalizing p d with
  | nil => exact h
  | cons o os ih =>
    have ho := hos o (by simp)
    have hos' : ∀ o ∈ os, E.allowed o := fun o h => hos o (by simp [h])
    cases p with
    | ret a => simpa using h
    | read a k | write a v k => exact ih (h.2.2 o ho) hos'

lemma crash_sound {p : Prog V α} (h : Safe E Q p d) (os : List Outcome)
    (hos : ∀ o ∈ os, E.allowed o) : E.crash (Prog.steps os (p,d)).2 :=
  (h.sound os hos).crash_now

lemma result_sound {p : Prog V α} {d d' : Store V} {a : α} (h : Safe E Q p d)
    (os : List Outcome) (hos : ∀ o ∈ os, E.allowed o)
    (hr : Prog.steps os (p,d) = (.ret a,d')) : Q a d' := by
  have hs := h.sound os hos
  rw [hr] at hs
  exact hs.2

lemma run_sound {p : Prog V α} (h : Safe E Q p d) (hE : E.allowed .ok) :
    Q (p.run d).1 (p.run d).2 := by
  refine h.result_sound (List.replicate (p.requests d) .ok) ?_ (Prog.steps_requests p d)
  intro o ho
  rwa [List.eq_of_mem_replicate ho]

lemma reliable_iff {p : Prog V α} :
    Safe Env.reliable Q p d ↔ Q (p.run d).1 (p.run d).2 := by
  refine ⟨fun h => h.run_sound rfl,fun h => ?_⟩
  induction p generalizing d with
  | ret a => exact ⟨trivial,h⟩
  | read a k ih | write a v k ih => exact ⟨trivial,trivial,fun o ho => by cases ho; exact ih _ h⟩

end Safe

def applyWrites (ws : List (ℕ × V)) (d : Store V) : Store V :=
  ws.foldl (fun d w => update d w.1 w.2) d

@[simp] lemma applyWrites_nil (d : Store V) : applyWrites [] d = d := rfl
@[simp] lemma applyWrites_cons (w : ℕ × V) (ws : List (ℕ × V)) (d : Store V) :
    applyWrites (w :: ws) d = applyWrites ws (update d w.1 w.2) := rfl

lemma applyWrites_append (ws ws' : List (ℕ × V)) (d : Store V) :
    applyWrites (ws ++ ws') d = applyWrites ws' (applyWrites ws d) := by
  simp only [applyWrites,List.foldl_append]

lemma applyWrites_of_not_mem (ws : List (ℕ × V)) (d : Store V) {a : ℕ}
    (h : ∀ w ∈ ws, w.1 ≠ a) : applyWrites ws d a = d a := by
  induction ws generalizing d with
  | nil => rfl
  | cons w ws ih =>
    rw [applyWrites_cons,ih _ (fun w hw => h w (by simp [hw])),
      update_of_ne (h w (by simp)).symm]

lemma applyWrites_agree (ws : List (ℕ × V)) {d d' : Store V} {a : ℕ}
    (h : (∀ w ∈ ws, w.1 ≠ a) → d a = d' a) : applyWrites ws d a = applyWrites ws d' a := by
  induction ws generalizing d d' with
  | nil => exact h (by simp)
  | cons w ws ih =>
    rw [applyWrites_cons,applyWrites_cons]
    apply ih
    intro hws
    by_cases hw : w.1 = a
    · subst hw; simp
    · rw [update_of_ne (Ne.symm hw),update_of_ne (Ne.symm hw)]
      apply h
      intro w' hw'
      rcases List.mem_cons.mp hw' with rfl | hm
      · exact hw
      · exact hws w' hm

/-- Writing a list again over a store in which only its own addresses changed gives the
store it would have given in the first place: replay is idempotent. -/
lemma applyWrites_again (ws : List (ℕ × V)) {d d' : Store V}
    (h : ∀ a, (∀ w ∈ ws, w.1 ≠ a) → d' a = d a) : applyWrites ws d' = applyWrites ws d := by
  funext a
  exact applyWrites_agree ws (h a)

def writeAll : List (ℕ × V) → Prog V Bool
  | [] => .ret true
  | w :: ws => .write w.1 w.2 fun ok => if ok then writeAll ws else .ret false

lemma writeAll_append (ws ws' : List (ℕ × V)) :
    writeAll (ws ++ ws') = writeAll ws >>= fun ok => if ok then writeAll ws' else .ret false := by
  induction ws with
  | nil => rfl
  | cons w ws ih =>
    simp only [List.cons_append,writeAll,Prog.write_bind,ih]
    congr 1
    funext ok
    cases ok <;> rfl

@[simp] lemma writeAll_run (ws : List (ℕ × V)) (d : Store V) :
    (writeAll ws).run d = (true,applyWrites ws d) := by
  induction ws generalizing d with
  | nil => rfl
  | cons w ws ih => simpa [writeAll] using ih _

lemma steps_writeAll_take {α : Type} (ws : List (ℕ × V)) (f : Bool → Prog V α) (d : Store V)
    {n : ℕ} (hn : n ≤ ws.length) :
    (Prog.steps (List.replicate n .ok) (writeAll ws >>= f,d)).2 = applyWrites (ws.take n) d := by
  induction ws generalizing d n with
  | nil =>
    have h0 : n = 0 := Nat.le_zero.mp hn
    subst h0
    rfl
  | cons w ws ih =>
    cases n with
    | zero => rfl
    | succ n => exact ih _ (Nat.le_of_succ_le_succ hn)

lemma steps_writeAll {α : Type} (ws : List (ℕ × V)) (f : Bool → Prog V α) (d : Store V) :
    Prog.steps (List.replicate ws.length .ok) (writeAll ws >>= f,d) = (f true,applyWrites ws d) := by
  induction ws generalizing d with
  | nil => rfl
  | cons w ws ih => exact ih _

lemma steps_writeAll_lost {α : Type} (ws : List (ℕ × V)) (f : Bool → Prog V α) (d : Store V)
    {n : ℕ} (hn : n < ws.length) :
    Prog.steps (List.replicate n .ok ++ [.lost]) (writeAll ws >>= f,d) =
      (f false,applyWrites (ws.take n) d) := by
  induction ws generalizing d n with
  | nil => exact absurd hn (Nat.not_lt_zero n)
  | cons w ws ih =>
    cases n with
    | zero => rfl
    | succ n => exact ih _ (Nat.lt_of_succ_lt_succ hn)

/-- Every store met while a list of writes is issued is the effect of a prefix of it; a
write that reported an error counts as done or not, as the device pleases. -/
lemma Safe.writeAll {E : Env V} {Q : Bool → Store V → Prop} (ws : List (ℕ × V)) (d : Store V)
    (haddr : ∀ w ∈ ws, E.addr w.1)
    (hcrash : ∀ n, E.crash (applyWrites (ws.take n) d))
    (hok : Q true (applyWrites ws d))
    (herr : E.mayFail → ∀ n, Q false (applyWrites (ws.take n) d)) :
    Safe E Q (Storage.writeAll ws) d := by
  induction ws generalizing d with
  | nil => exact ⟨hcrash 0,hok⟩
  | cons w ws ih =>
    refine ⟨hcrash 0,haddr w (by simp),fun o ho => ?_⟩
    cases o with
    | ok =>
      exact ih _ (fun w' h => haddr w' (by simp [h])) (fun n => hcrash (n+1)) hok
        (fun hE n => herr hE (n+1))
    | lost => exact ⟨hcrash 0,herr ⟨_,ho,by decide⟩ 0⟩
    | stored => exact ⟨hcrash 1,herr ⟨_,ho,by decide⟩ 1⟩

end VibeOS.Storage

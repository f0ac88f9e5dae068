import VibeOS.Traps.Privilege

/-! A user thread whose signals are caught: system calls, handlers and their returns, nested in any way. -/
namespace VibeOS.Traps
open VibeOS.Srv

/-- The registers that `cswitch_to` keeps and no trap saves. -/
structure FpRegs where
  v : Fin 32 → BitVec 128
  fpcr : UInt32
  fpsr : UInt32

/-- A handler that has not returned: what the thread would be without its signal, and where its frame
is. `clean` is memory with every write since but those of signal frames, `top` the highest stack
pointer that a signal found since. -/
structure Delivery where
  signum : Fin 32
  saved : Saved
  fp : FpRegs
  addr : UInt64
  clean : ℕ → UInt8
  top : ℕ

structure Return where
  handler : Delivery
  regs : UserRegs
  fp : FpRegs
  mem : ℕ → UInt8

/-- A user thread; for each signal it is counted how often it became pending, how often it was
delivered and how often it was dropped without a handler. -/
structure Task where
  regs : UserRegs
  fp : FpRegs
  signals : Signals
  user : User
  active : List Delivery
  done : List Return
  raised : Fin 32 → ℕ
  delivered : Fin 32 → ℕ
  dropped : Fin 32 → ℕ

def nextSignal : List (Fin 32) → Signals → Option (Fin 32)
  | [],_ => none
  | n :: rest,t =>
    if t.isPending n then
      if t.handlers n = 1 then nextSignal rest (t.clear n)
      else if t.handlers n = 0 then if n.val = sigchld then nextSignal rest (t.clear n) else none
      else some n
    else nextSignal rest t

/-- A signal that goes without a handler, and leaves the thread alive. -/
def Signals.drops (t : Signals) (n : Fin 32) : Bool := t.handlers n == 1 || (t.handlers n == 0 && n.val == sigchld)

def patch (w : ℕ → Option UInt8) (mem : ℕ → UInt8) : ℕ → UInt8 := fun a => (w a).getD (mem a)

inductive TaskEvent
  /-- the program computes -/
  | run (r : UserRegs) (fp : FpRegs)
  /-- memory is written, by the program or by anyone but the delivery of its signals -/
  | write (w : ℕ → Option UInt8) (prefault : ℕ → Bool)
  | post (sig : ℤ)
  | svc (r : Reply)
  /-- `fork`, seen by the child -/
  | child (r : Reply) (fp : FpRegs)
  /-- the handler is back in the restorer, which calls `sigreturn` -/
  | sigreturn (r : Reply)

namespace Task
variable (k : Task)

def call (r : Reply) : Option Served := svcDispatch r k.user k.signals (k.regs.trap .svc)

def lost (old new : Signals) (how : Fin 32 → Bool) : Fin 32 → ℕ := fun n =>
  k.dropped n + if old.isPending n && !new.isPending n && how n then 1 else 0

/-- The tail of the call, and the return to the program. -/
def finish (v : Served) : Option Task :=
  (signalTail v.saved k.user catchable v.signals).map fun (t,s,u) =>
    let k' := { k with
      regs := s.eret
      signals := t
      user := u
      dropped := k.lost v.signals t v.signals.drops }
    match nextSignal catchable v.signals with
    | none => k'
    | some n =>
      { k' with
        active := ⟨n,v.saved,k.fp,s.spEl0,k.user.mem,v.saved.spEl0.toNat⟩ ::
          k.active.map fun d => { d with top := max d.top v.saved.spEl0.toNat }
        delivered := Function.update k.delivered n (k.delivered n + 1) }

def step (k : Task) : TaskEvent → Option (Unit × Task)
  | .run r fp => some ((),{ k with regs := { r with pstate := setFlags k.regs.pstate r.pstate }, fp := fp })
  | .write w prefault => some ((),{ k with
      user := { k.user with mem := patch w k.user.mem, prefault := prefault }
      active := k.active.map fun d => { d with clean := patch w d.clean } })
  | .post sig =>
    let t := k.signals.post sig
    some ((),{ k with
      signals := t
      raised := fun n => k.raised n + if t.isPending n && !k.signals.isPending n then 1 else 0 })
  | .svc r =>
    if k.regs.x 8 = sysSigreturnNo then none
    else (k.call r).bind fun v =>
      -- a new program has no handler to return to
      let k' := if k.regs.x 8 = sysExecNo ∧ r.loaded.toOption.isSome then
        { k with active := [], dropped := k.lost k.signals v.signals fun _ => true } else k
      (k'.finish v).map fun k => ((),k)
  | .child r fp =>
    if k.regs.x 8 = sysForkNo then
      (k.call r).bind fun v => v.child.map fun c => ((),{ k with
        regs := c.entry.eret
        fp := fp
        signals := k.signals.inherited
        dropped := k.lost k.signals k.signals.inherited fun _ => true })
    else none
  | .sigreturn r =>
    if k.regs.x 8 = sysSigreturnNo then
      (k.call r).bind fun v =>
        match k.active with
        | [] => none
        | d :: rest => some ((),{ k with
            regs := v.saved.eret
            signals := v.signals
            active := rest
            done := k.done ++ [⟨d,v.saved.eret,k.fp,k.user.mem⟩] })
    else none

structure Starts (k : Task) : Prop where
  active : k.active = []
  done : k.done = []
  delivered : ∀ n, k.delivered n = 0
  dropped : ∀ n, k.dropped n = 0
  raised : ∀ n, k.raised n = if k.signals.isPending n then 1 else 0

end Task

/-- The frame of a handler does not meet these bytes. -/
def Delivery.Apart (d : Delivery) (a n : ℕ) : Prop := a + n ≤ d.addr.toNat ∨ d.addr.toNat + SigframeK.size ≤ a

/-- Handlers leave their frames alone and return through the restorer, which finds its frame at the
stack pointer. -/
def Handled (k : Task) : TaskEvent → Prop
  | .write w _ => ∀ d ∈ k.active, ∀ a, d.addr.toNat ≤ a → a < d.addr.toNat + SigframeK.size → w a = none
  | .svc r => ∀ v n, k.call r = some v → nextSignal catchable v.signals = some n →
      ∀ d ∈ k.active, d.Apart v.saved.sigframeAddr.toNat SigframeK.size
  | .sigreturn _ => ∀ d ∈ k.active.head?, k.regs.x 0 = d.addr
  | _ => True

/-- A handler returns with the FP and SIMD registers that it was entered with. -/
def KeepsFp (k : Task) : TaskEvent → Prop
  | .sigreturn _ => ∀ d ∈ k.active.head?, k.fp = d.fp
  | _ => True

/-- The thread goes on as it would have without the signal: its registers, and its memory from the
stack pointer on. -/
structure Resumed (r : Return) : Prop where
  regs : r.regs = r.handler.saved.eret
  fp : r.fp = r.handler.fp
  mem : ∀ a, r.handler.top ≤ a → r.mem a = r.handler.clean a

/-- What signal delivery is to keep. -/
structure Transparent (k : Task) : Prop where
  resumed : ∀ r ∈ k.done, Resumed r
  once : ∀ n, k.raised n = k.delivered n + k.dropped n + if k.signals.isPending n then 1 else 0

end VibeOS.Traps

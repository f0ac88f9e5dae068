import VibeOS.Traps.Calls

/-! The user threads of the kernel between their traps, over every order of their steps, and the
privilege that each return to a program gives it. -/
namespace VibeOS.Traps
open Function
open VibeOS.Srv

/-- The registers that a program runs with. -/
structure UserRegs where
  x : Fin 31 → UInt64
  pc : UInt64
  sp : UInt64
  pstate : UInt64

inductive Cause
  | svc | fault | irq
  deriving DecidableEq

/-- The exception entry and `save_context`; an SVC returns to the instruction after it. -/
def UserRegs.trap (r : UserRegs) (c : Cause) : Saved :=
  ⟨⟨r.x,if c = .svc then r.pc + 4 else r.pc,r.pstate⟩,r.sp⟩

/-- `restore_context` and `eret`. -/
def Saved.eret (s : Saved) : UserRegs := ⟨s.x,s.elr,s.spEl0,s.spsr⟩

inductive Context
  /-- a new thread that has not run -/
  | launch (c : CswitchFrame)
  /-- the registers belong to the program -/
  | user (r : UserRegs)
  /-- a C handler is about to work, with the frame that was saved -/
  | trapped (c : Cause) (s : Saved)
  /-- the handler is done, apart from the signals of a call -/
  | returning (signals : Bool) (s : Saved)
  | exited

structure Thread where
  context : Context
  space : ℕ
  signals : Signals

/-- The user threads, and user memory by address space. -/
structure Machine where
  threads : ℕ → Option Thread
  spaces : ℕ → User

inductive Event
  /-- a thread that `main.c` or `spawn` starts -/
  | create (tid space : ℕ) (entry sp : UInt64)
  | clone (tid space : ℕ) (entry sp arg tls : UInt64)
  /-- the first switch to a thread -/
  | launch (tid : ℕ)
  /-- the program of a thread computes, at EL0 -/
  | run (tid : ℕ) (r : UserRegs)
  /-- a program, or a call for it, writes user memory -/
  | write (space : ℕ) (u : User)
  | trap (tid : ℕ) (c : Cause)
  /-- `svc_dispatch` up to its tail, or `irq_dispatch`; a forked child gets a name and a space -/
  | handle (tid : ℕ) (r : Reply) (child space : ℕ)
  /-- the signals of a call, and the return to the program -/
  | resume (tid : ℕ)
  | signal (tid : ℕ) (sig : ℤ)

namespace Machine
variable (k : Machine)

def put (tid : ℕ) (t : Thread) : Machine := { k with threads := update k.threads tid (some t) }

def setContext (tid : ℕ) (t : Thread) (c : Context) : Machine := k.put tid { t with context := c }

def start (tid space : ℕ) (c : CswitchFrame) : Option Machine :=
  if k.threads tid = none then some (k.put tid ⟨.launch c,space,.fresh⟩) else none

/-- `handle` for a call. -/
def serve (tid : ℕ) (t : Thread) (s : Saved) (r : Reply) (child space : ℕ) : Machine :=
  match svcDispatch r (k.spaces t.space) t.signals s with
  | none => k.setContext tid t .exited
  | some v =>
    -- the tail is skipped when the call was sigreturn
    let k := k.put tid ⟨.returning (s.x 8 != sysSigreturnNo) v.saved,t.space,v.signals⟩
    match v.child with
    | none => k
    | some c =>
      { k.put child ⟨.launch c,space,t.signals.inherited⟩ with
        spaces := update k.spaces space (k.spaces t.space) }

/-- A step, and the frame that it hands to `eret`. A program that is not at EL0 takes no step here. -/
def step (k : Machine) : Event → Option (Option ExceptionFrame × Machine)
  | .create tid space entry sp => (k.start tid space (userThreadCreate entry sp)).map fun k => (none,k)
  | .clone tid space entry sp arg tls =>
    (k.start tid space (userThreadCreateShared entry sp arg tls)).map fun k => (none,k)
  | .launch tid => (k.threads tid).bind fun t =>
    match t.context with
    | .launch c => some (some c.entry.toExceptionFrame,k.setContext tid t (.user c.entry.eret))
    | _ => none
  | .run tid r => (k.threads tid).bind fun t =>
    match t.context with
    | .user old =>
      if modeField old.pstate = el0t then
        some (none,k.setContext tid t (.user { r with pstate := setFlags old.pstate r.pstate }))
      else none
    | _ => none
  | .write space u => some (none,{ k with spaces := update k.spaces space u })
  | .trap tid c => (k.threads tid).bind fun t =>
    match t.context with
    | .user r =>
      if modeField r.pstate = el0t ∧ (c = .irq → irqMasked r.pstate = false) then
        some (none,k.setContext tid t (.trapped c (r.trap c)))
      else none
    | _ => none
  | .handle tid r child space => (k.threads tid).bind fun t =>
    match t.context with
    | .trapped .svc s => if k.threads child = none then some (none,k.serve tid t s r child space) else none
    | .trapped .fault s =>
      some (none,k.setContext tid t (if r.resolved then .returning false s else .exited))
    | .trapped .irq s => some (none,k.setContext tid t (.returning false s))
    | _ => none
  | .resume tid => (k.threads tid).bind fun t =>
    match t.context with
    | .returning true s =>
      match signalTail s (k.spaces t.space) catchable t.signals with
      | none => some (none,k.setContext tid t .exited)
      | some (sig,s,u) => some (some s.toExceptionFrame,
          { k.put tid ⟨.user s.eret,t.space,sig⟩ with spaces := update k.spaces t.space u })
    | .returning false s => some (some s.toExceptionFrame,k.setContext tid t (.user s.eret))
    | _ => none
  | .signal tid sig => (k.threads tid).map fun t => (none,k.put tid { t with signals := t.signals.post sig })

def Boots (k : Machine) : Prop := k.threads = fun _ => none

def noThreads (u : User) : Machine := ⟨fun _ => none,fun _ => u⟩

lemma boots_noThreads (u : User) : (noThreads u).Boots := rfl

/-- A `sigreturn` that can read its frame finds EL0t with IRQs unmasked in the SPSR word. -/
def RestoresUser (k : Machine) : Event → Prop
  | .handle tid _ _ _ => ∀ t s sf, k.threads tid = some t → t.context = .trapped .svc s → s.x 8 = sysSigreturnNo →
      Saved.userSigframe (k.spaces t.space) (s.x 0) = some sf → El0 sf.spsr
  | _ => True

end Machine

def Context.AtEl0 : Context → Prop
  | .launch c => El0 c.entry.spsr
  | .user r => El0 r.pstate
  | .trapped _ s => El0 s.spsr
  | .returning _ s => El0 s.spsr
  | .exited => True

def Machine.AllAtEl0 (k : Machine) : Prop := ∀ tid t, k.threads tid = some t → t.context.AtEl0

lemma svcDispatch_el0 {r : Reply} {u : User} {t : Signals} {s : Saved} {v : Served} (h : El0 s.spsr)
    (honest : s.x 8 = sysSigreturnNo → ∀ sf, Saved.userSigframe u (s.x 0) = some sf → El0 sf.spsr)
    (now : svcDispatch r u t s = some v) :
    El0 v.saved.spsr ∧ ∀ c, v.child = some c → El0 c.entry.spsr := by
  unfold svcDispatch at now
  dsimp only at now
  split at now
  · cases now
  split at now
  · cases now
    refine ⟨h,fun c hc => ?_⟩
    dsimp only at hc
    split at hc
    · cases hc
      exact h
    · cases hc
  split at now
  · cases now
    refine ⟨?_,fun c hc => nomatch hc⟩
    simp only [Saved.setRet_spsr,sysExec]
    split
    · exact h
    · exact el0_spsrUser
  split at now
  · cases now
    exact ⟨h,fun c hc => nomatch hc⟩
  split at now
  · next hret =>
    cases now
    refine ⟨?_,fun c hc => nomatch hc⟩
    simp only [Saved.setRet_spsr,Saved.sysSigreturn]
    split
    · exact h
    · next sf hsf => exact honest hret sf hsf
  · cases now
    exact ⟨h,fun c hc => nomatch hc⟩

namespace Machine
variable {k k' : Machine}

lemma AllAtEl0.put (hk : k.AllAtEl0) (c : Context) (h : c.AtEl0) (tid space : ℕ) (sig : Signals) :
    (k.put tid ⟨c,space,sig⟩).AllAtEl0 := by
  intro tid' t' ht
  simp only [Machine.put,update_apply] at ht
  split at ht
  · cases ht
    exact h
  · exact hk tid' t' ht

lemma AllAtEl0.spaces (hk : k.AllAtEl0) (m : ℕ → User) : ({ k with spaces := m } : Machine).AllAtEl0 := hk

lemma AllAtEl0.start (hk : k.AllAtEl0) {tid space : ℕ} {c : CswitchFrame}
    (now : k.start tid space c = some k') (h : El0 c.entry.spsr) : k'.AllAtEl0 := by
  unfold Machine.start at now
  split at now
  · cases now
    exact hk.put (.launch c) h _ _ _
  · cases now

variable {s : Saved} {tid child space : ℕ}

lemma AllAtEl0.serve (hk : k.AllAtEl0) {t : Thread} {r : Reply}
    (h : El0 s.spsr) (honest : s.x 8 = sysSigreturnNo →
      ∀ sf, Saved.userSigframe (k.spaces t.space) (s.x 0) = some sf → El0 sf.spsr) :
    (k.serve tid t s r child space).AllAtEl0 := by
  unfold Machine.serve
  cases hv : svcDispatch r (k.spaces t.space) t.signals s with
  | none => exact hk.put .exited trivial _ _ _
  | some v =>
    obtain ⟨hs,hc⟩ := svcDispatch_el0 h honest hv
    dsimp only
    cases hcv : v.child with
    | none => exact hk.put (.returning _ v.saved) hs _ _ _
    | some c => exact ((hk.put (.returning _ v.saved) hs _ _ _).put (.launch c) (hc c hcv) _ _ _).spaces _

lemma step_allAtEl0 {e : Event} {f : Option ExceptionFrame} (hk : k.AllAtEl0) (ok : k.RestoresUser e)
    (now : k.step e = some (f,k')) : k'.AllAtEl0 ∧ ∀ g, f = some g → El0 g.spsr := by
  cases e with
  | create tid space entry sp | clone tid space entry sp arg tls =>
    obtain ⟨k₁,hk₁,heq⟩ := Option.map_eq_some_iff.mp now
    cases heq
    exact ⟨hk.start hk₁ el0_spsrUser,fun g hg => nomatch hg⟩
  | launch tid =>
    obtain ⟨t,ht,now⟩ := Option.bind_eq_some_iff.mp now
    have h := hk tid t ht
    split at now
    · next c hc =>
      rw [hc] at h
      cases now
      exact ⟨hk.put (.user c.entry.eret) h _ _ _,fun g hg => by cases hg; exact h⟩
    · cases now
  | run tid r =>
    obtain ⟨t,ht,now⟩ := Option.bind_eq_some_iff.mp now
    have h := hk tid t ht
    split at now
    · next old hc =>
      rw [hc] at h
      split at now
      · cases now
        exact ⟨hk.put (.user { r with pstate := setFlags old.pstate r.pstate }) (El0.setFlags h _) _ _ _,fun g hg => nomatch hg⟩
      · cases now
    · cases now
  | write space u =>
    cases now
    exact ⟨hk,fun g hg => nomatch hg⟩
  | trap tid c =>
    obtain ⟨t,ht,now⟩ := Option.bind_eq_some_iff.mp now
    have h := hk tid t ht
    split at now
    · next r hc =>
      rw [hc] at h
      split at now
      · cases now
        exact ⟨hk.put (.trapped c (r.trap c)) h _ _ _,fun g hg => nomatch hg⟩
      · cases now
    · cases now
  | handle tid r child space =>
    obtain ⟨t,ht,now⟩ := Option.bind_eq_some_iff.mp now
    have h := hk tid t ht
    split at now
    · next s hc =>
      rw [hc] at h
      split at now
      · cases now
        exact ⟨hk.serve h fun hret sf hsf => ok t s sf ht hc hret hsf,fun g hg => nomatch hg⟩
      · cases now
    · next s hc =>
      rw [hc] at h
      cases now
      refine ⟨hk.put _ ?_ _ _ _,fun g hg => nomatch hg⟩
      split
      · exact h
      · exact trivial
    · next s hc =>
      rw [hc] at h
      cases now
      exact ⟨hk.put (.returning false s) h _ _ _,fun g hg => nomatch hg⟩
    · cases now
  | resume tid =>
    obtain ⟨t,ht,now⟩ := Option.bind_eq_some_iff.mp now
    have h := hk tid t ht
    split at now
    · next s hc =>
      rw [hc] at h
      split at now
      · cases now
        exact ⟨hk.put .exited trivial _ _ _,fun g hg => nomatch hg⟩
      · next sig s' u htail =>
        cases now
        have hs : El0 s'.spsr := by
          rw [signalTail_spsr htail]
          exact h
        exact ⟨(hk.put (.user s'.eret) hs _ _ _).spaces _,fun g hg => by cases hg; exact hs⟩
    · next s hc =>
      rw [hc] at h
      cases now
      exact ⟨hk.put (.user s.eret) h _ _ _,fun g hg => by cases hg; exact h⟩
    · cases now
  | signal tid sig =>
    obtain ⟨t,ht,heq⟩ := Option.map_eq_some_iff.mp now
    cases heq
    exact ⟨hk.put t.context (hk tid t ht) _ _ _,fun g hg => nomatch hg⟩

lemma run_allAtEl0 {es : List Event} (boot : k.Boots) (run : Runs step RestoresUser k es k') : k'.AllAtEl0 := by
  refine run.invariant (fun s e a t hs ok now => (step_allAtEl0 hs ok now).1) fun tid t ht => ?_
  rw [show k.threads = _ from boot] at ht
  cases ht

/-- In a run whose `sigreturn`s read frames with an SPSR of EL0, programs run at EL0 with IRQs
unmasked, and so says every frame that is handed to `eret`. -/
theorem user_threads_return_to_el0 {es : List Event} (boot : k.Boots) (run : Runs step RestoresUser k es k') :
    (∀ tid t r, k'.threads tid = some t → t.context = .user r → modeField r.pstate = el0t ∧ irqMasked r.pstate = false) ∧
      ∀ e f k'', k'.RestoresUser e → k'.step e = some (some f,k'') →
        modeField f.spsr = el0t ∧ irqMasked f.spsr = false := by
  have hk := run_allAtEl0 boot run
  refine ⟨fun tid t r ht hr => ?_,fun e f k'' ok now => (step_allAtEl0 hk ok now).2 f rfl⟩
  have h := hk tid t ht
  rw [hr] at h
  exact h

/-- A run up to the first instruction of a program. -/
theorem user_threads_return_to_el0_launch : ∃ k k' t r, Runs step RestoresUser k [.create 1 0 0 0,.launch 1] k' ∧
    k'.threads 1 = some t ∧ t.context = .user r ∧ modeField r.pstate = el0t ∧ irqMasked r.pstate = false :=
  have run : Runs step RestoresUser (noThreads ⟨fun _ => 0,true,fun _ => true⟩) [.create 1 0 0 0,.launch 1] _ := .cons trivial rfl (.cons trivial rfl (.nil _))
  ⟨_,_,_,_,run,rfl,rfl,(user_threads_return_to_el0 (boots_noThreads _) run).1 1 _ _ rfl rfl⟩

lemma svcDispatch_sigreturn {r : Reply} {u : User} {t : Signals} {sf : SigframeK}
    (hnum : s.x 8 = sysSigreturnNo) (hsf : Saved.userSigframe u (s.x 0) = some sf) :
    svcDispatch r u t s = some ⟨t,(Saved.restore sf).setRet (sf.x 0),none⟩ := by
  unfold svcDispatch Saved.sysSigreturn
  dsimp only
  rw [hnum,if_neg (by decide),if_neg (by decide),if_neg (by decide),if_neg (by decide),if_pos rfl,hsf]

lemma step_sigreturn {t : Thread} {r : Reply} {sf : SigframeK}
    (ht : k.threads tid = some t) (hc : t.context = .trapped .svc s) (hnum : s.x 8 = sysSigreturnNo)
    (hsf : Saved.userSigframe (k.spaces t.space) (s.x 0) = some sf) (hchild : k.threads child = none) :
    k.step (.handle tid r child space) =
      some (none,k.put tid ⟨.returning false ((Saved.restore sf).setRet (sf.x 0)),t.space,t.signals⟩) := by
  simp only [step,ht,Option.bind_some,hc,hchild,if_true,serve,svcDispatch_sigreturn hnum hsf,hnum]
  rfl

lemma step_resume (tid space : ℕ) (s : Saved) (sig : Signals) :
    (k.put tid ⟨.returning false s,space,sig⟩).step (.resume tid) = some (some s.toExceptionFrame,
      (k.put tid ⟨.returning false s,space,sig⟩).put tid ⟨.user s.eret,space,sig⟩) := by
  simp only [step,put,update_self,Option.bind_some]
  rfl

lemma sigreturn_hands_over {t : Thread} (r : Reply) {sf : SigframeK}
    (ht : k.threads tid = some t) (hc : t.context = .trapped .svc s) (hnum : s.x 8 = sysSigreturnNo)
    (hsf : Saved.userSigframe (k.spaces t.space) (s.x 0) = some sf) (hchild : k.threads child = none) :
    ∃ k₁ k₂ f, k.step (.handle tid r child space) = some (none,k₁) ∧ k₁.step (.resume tid) = some (some f,k₂) ∧
      f.elr = sf.elr ∧ f.spsr = sf.spsr :=
  ⟨_,_,_,step_sigreturn ht hc hnum hsf hchild,step_resume tid t.space _ t.signals,rfl,rfl⟩

def forgedAddr : UInt64 := 0x1000000000

/-- A frame for `sigreturn` that a program wrote: the program goes on at EL1. -/
def forged : SigframeK := ⟨fun _ => 0,forgedAddr,forgedAddr,spsrKernel,0,0,0⟩

def forgedMemory : ℤ × User := copyToUser ⟨fun _ => 0,true,fun _ => true⟩ forgedAddr.toNat forged.bytes

/-- The registers at the SVC. -/
def forgedRegs : UserRegs :=
  ⟨update (update (fun _ => 0) 0 forgedAddr) 8 sysSigreturnNo,0,0,0⟩

def forgedTrap : Thread := 
  ⟨.trapped .svc (UserRegs.trap
    { forgedRegs with pstate := setFlags (userThreadCreate 0 0).entry.eret.pstate forgedRegs.pstate } .svc),0,.fresh⟩

lemma forged_accepted : (⟨fun _ => 0,true,fun _ => true⟩ : User).accepts forgedAddr.toNat forged.bytes.length := by
  rw [SigframeK.length_bytes]
  decide

lemma forged_read : Saved.userSigframe forgedMemory.2 forgedAddr = some forged := by
  have now : copyToUser ⟨fun _ => 0,true,fun _ => true⟩ forgedAddr.toNat forged.bytes = (0,forgedMemory.2) := by
    unfold forgedMemory copyToUser
    rw [if_pos forged_accepted]
  exact Saved.userSigframe_copyToUser now (Int.le_refl 0)

def noReply : Reply := ⟨0,.error 0,false,false⟩

/-- A program that made up its signal frame is handed to `eret` with an SPSR of EL1h. -/
theorem sigreturn_escapes : ¬ ∀ (k k' : Machine) (es : List Event), k.Boots → Runs step (fun _ _ => True) k es k' →
    ∀ e f k'', k'.step e = some (some f,k'') →
      modeField f.spsr = el0t ∧ irqMasked f.spsr = false := by
  intro h
  -- the program starts, fills its registers and makes the call
  obtain ⟨k,run,hself,hchild,hspace⟩ : ∃ k, Runs step (fun _ _ => True) (noThreads forgedMemory.2)
      [.create 1 0 0 0,.launch 1,.run 1 forgedRegs,.trap 1 .svc] k ∧
      k.threads 1 = some forgedTrap ∧ k.threads 0 = none ∧ k.spaces 0 = forgedMemory.2 := by
    refine ⟨_,.cons trivial rfl (.cons trivial rfl (.cons trivial rfl (.cons trivial rfl (.nil _)))),?_,?_,?_⟩
    · simp only [setContext,put,update_self]
      rfl
    · rfl
    · simp only [setContext,put,noThreads]
  have hread : Saved.userSigframe (k.spaces forgedTrap.space) forgedAddr = some forged := by
    rw [show forgedTrap.space = 0 from rfl,hspace]
    exact forged_read
  obtain ⟨k₁,k₂,f,handled,resumed,-,hspsr⟩ : ∃ k₁ k₂ f, k.step (.handle 1 noReply 0 0) = some (none,k₁) ∧
      k₁.step (.resume 1) = some (some f,k₂) ∧ f.elr = forged.elr ∧ f.spsr = forged.spsr :=
    sigreturn_hands_over noReply hself rfl rfl hread hchild
  have bad := h (noThreads forgedMemory.2) k₁ _ (boots_noThreads _) (run.append (.cons trivial handled (.nil _))) (.resume 1) f k₂ resumed
  rw [hspsr] at bad
  exact absurd bad.1 (by decide)

end Machine
end VibeOS.Traps

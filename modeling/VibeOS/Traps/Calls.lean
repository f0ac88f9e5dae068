import VibeOS.Traps.Frame

/-! What `syscall.c` and `thread.c` write into the saved frame of a thread: signals, `exec`, `fork`
and the frames that new threads start from. -/
namespace VibeOS.Traps
open Function
open VibeOS.Srv

def sigkill : ℕ := 9
def sigchld : ℕ := 17

def sysExitNo : UInt64 := 2
def sysForkNo : UInt64 := 29
def sysExecNo : UInt64 := 30
def sysSigactionNo : UInt64 := 31
def sysSigreturnNo : UInt64 := 32

/-- The register that carries `-e`. -/
def errno (e : ℤ) : UInt64 := UInt64.ofInt (-e)

/-- The signal fields of `struct thread`. -/
structure Signals where
  pending : UInt32
  handlers : Fin 32 → UInt64
  restorer : UInt64

namespace Signals

def fresh : Signals := ⟨0,fun _ => 0,0⟩

def isPending (t : Signals) (s : Fin 32) : Bool := t.pending &&& (1 <<< UInt32.ofNat s) != 0

def clear (t : Signals) (s : Fin 32) : Signals :=
  { t with pending := t.pending &&& ~~~(1 <<< UInt32.ofNat s) }

/-- `thread_signal_pid`, less the wake-up. -/
def post (t : Signals) (sig : ℤ) : Signals :=
  if sig ≤ 0 ∨ sig ≥ 32 then t else { t with pending := t.pending ||| (1 <<< UInt32.ofNat sig.toNat) }

/-- `sys_sigaction`. The signal number is a signed long: negative ones are large here. -/
def sysSigaction (t : Signals) (sig handler restorer : UInt64) : UInt64 × Signals :=
  if h : 0 < sig.toNat ∧ sig.toNat < 32 then
    let s : Fin 32 := ⟨sig.toNat,h.2⟩
    (t.handlers s,{ t with
      handlers := update t.handlers s (if s.val = sigkill then 0 else handler)
      restorer := if restorer ≠ 0 then restorer else t.restorer })
  else (errno einval,t)

/-- What `fork` hands to the child. -/
def inherited (t : Signals) : Signals := { t with pending := 0 }

end Signals

namespace Saved
variable (s : Saved)

/-- `frame->x[0] = ret` -/
def setRet (ret : UInt64) : Saved := { s with x := update s.x 0 ret }

/-- The frame that `deliver_signal` puts on the user stack. -/
def sigframe (signum : Fin 32) : SigframeK :=
  ⟨s.x,s.spEl0,s.elr,s.spsr,UInt32.ofNat signum,0,0⟩

/-- Where it goes: 16-byte aligned below the stack pointer. -/
def sigframeAddr : UInt64 := (s.spEl0 - UInt64.ofNat SigframeK.size) &&& ~~~0xf

/-- `deliver_signal`; `none` for -1. -/
def deliverSignal (t : Signals) (signum : Fin 32) (handler : UInt64) (u : User) : Option (Saved × User) :=
  if t.restorer = 0 then none
  else
    let addr := s.sigframeAddr
    let (rc,u) := copyToUser u addr.toNat (s.sigframe signum).bytes
    if rc < 0 then none
    else some ({ s with
      x := update (update (update (fun _ => 0) 0 (UInt64.ofNat signum)) 1 addr) 30 t.restorer
      elr := handler
      spEl0 := addr },u)

def restore (sf : SigframeK) : Saved := ⟨⟨sf.x,sf.elr,sf.spsr⟩,sf.spEl0⟩

/-- The frame that `sys_sigreturn` reads, where it can read one. -/
def userSigframe (u : User) (uptr : UInt64) : Option SigframeK :=
  (copyFromUser u uptr.toNat SigframeK.size).map SigframeK.ofBytes

/-- `sys_sigreturn` and its return value. -/
def sysSigreturn (uptr : UInt64) (u : User) : UInt64 × Saved :=
  match userSigframe u uptr with
  | none => (errno efault,s)
  | some sf => (sf.x 0,restore sf)

end Saved

/-- What `elf_load_user` finds. -/
structure UserImage where
  entryVa : UInt64
  stackTopVa : UInt64

/-- `sys_exec` and its return value; `loaded` is the new program, or the error of one of the steps
before the point of no return. -/
def sysExec (t : Signals) (s : Saved) (loaded : Except UInt64 UserImage) : UInt64 × Signals × Saved :=
  match loaded with
  | .error e => (e,t,s)
  | .ok img => (0,.fresh,⟨⟨fun _ => 0,img.entryVa,spsrUser⟩,img.stackTopVa⟩)

/-- Where the first `eret` into a thread lands. -/
inductive Landing
  | userTrampoline | userCloneTrampoline
  | user (pc : UInt64)

/-- The frame that `cswitch_to` starts a new thread from. -/
structure CswitchFrame where
  x : Fin 31 → UInt64
  elr : Landing
  spsr : UInt64
  spEl0 : UInt64

/-- `user_thread_create` -/
def userThreadCreate (entry sp : UInt64) : CswitchFrame :=
  ⟨update (update (fun _ => 0) 19 entry) 20 sp,.userTrampoline,spsrKernel,0⟩

/-- `user_thread_create_shared_files_on` -/
def userThreadCreateShared (entry sp arg tls : UInt64) : CswitchFrame :=
  ⟨update (update (update (update (fun _ => 0) 19 entry) 20 sp) 21 arg) 22 tls,
    .userCloneTrampoline,spsrKernel,0⟩

/-- `thread_fork_user` -/
def threadForkUser (s : Saved) : CswitchFrame := ⟨update s.x 0 0,.user s.elr,s.spsr,s.spEl0⟩

/-- The registers of the `eret` that enters the program: that of the trampoline, where there is one. -/
def CswitchFrame.entry (c : CswitchFrame) : Saved :=
  match c.elr with
  | .userTrampoline => ⟨⟨fun _ => 0,c.x 19,spsrUser⟩,c.x 20⟩
  | .userCloneTrampoline => ⟨⟨update (fun _ => 0) 0 (c.x 21),c.x 19,spsrUser⟩,c.x 20⟩
  | .user pc => ⟨⟨c.x,pc,c.spsr⟩,c.spEl0⟩

/-- What the rest of the kernel hands back to a call. -/
structure Reply where
  /-- the return value of a call that leaves the frame alone, and of `fork` -/
  value : UInt64
  loaded : Except UInt64 UserImage
  /-- the address space is cloned and the thread allocated -/
  forked : Bool
  /-- the page fault handlers resolve the fault -/
  resolved : Bool

/-- What `svc_dispatch` leaves of a call before its tail. -/
structure Served where
  signals : Signals
  saved : Saved
  child : Option CswitchFrame

/-- The switch of `svc_dispatch` over x8, and `frame->x[0] = ret`; `none` when the thread exits. -/
def svcDispatch (r : Reply) (u : User) (t : Signals) (s : Saved) : Option Served :=
  let num := s.x 8
  if num = sysExitNo then none
  else if num = sysForkNo then
    some ⟨t,s.setRet r.value,if r.forked then some (threadForkUser s) else none⟩
  else if num = sysExecNo then
    let (ret,t,s) := sysExec t s r.loaded
    some ⟨t,s.setRet ret,none⟩
  else if num = sysSigactionNo then
    let (ret,t) := t.sysSigaction (s.x 0) (s.x 1) (s.x 2)
    some ⟨t,s.setRet ret,none⟩
  else if num = sysSigreturnNo then
    let (ret,s) := s.sysSigreturn (s.x 0) u
    some ⟨t,s.setRet ret,none⟩
  else some ⟨t,s.setRet r.value,none⟩

/-- The end of `svc_dispatch`: the pending signals of a list in order, at most one of them
delivered; `none` when the thread exits. -/
def signalTail (s : Saved) (u : User) : List (Fin 32) → Signals → Option (Signals × Saved × User)
  | [],t => some (t,s,u)
  | n :: rest,t =>
    if t.isPending n then
      let t := t.clear n
      let h := t.handlers n
      if h = 1 then signalTail s u rest t
      else if h = 0 then if n.val = sigchld then signalTail s u rest t else none
      else (s.deliverSignal t n h u).map fun (s,u) => (t,s,u)
    else signalTail s u rest t

def catchable : List (Fin 32) := (List.finRange 32).drop 1

@[simp] lemma Saved.setRet_spsr (s : Saved) (ret : UInt64) : (s.setRet ret).spsr = s.spsr := rfl

variable {u u' : User}

lemma Saved.deliverSignal_spsr {s s' : Saved} {t : Signals} {n : Fin 32} {h : UInt64}
    (now : s.deliverSignal t n h u = some (s',u')) : s'.spsr = s.spsr := by
  unfold deliverSignal at now
  split at now
  · cases now
  · dsimp only at now
    split at now
    · cases now
    · cases now
      rfl

lemma rangeInUser_of_accepts {u : User} {p n : ℕ} (h : u.accepts p n) : rangeInUser p n := by
  unfold User.accepts at h
  exact (Bool.and_eq_true_iff.mp h).1

lemma copyFromUser_copyToUser {p : ℕ} {data : List UInt8} {rc : ℤ}
    (now : copyToUser u p data = (rc,u')) (ok : 0 ≤ rc) : copyFromUser u' p data.length = some data := by
  unfold copyToUser at now
  split at now
  · next h =>
    cases now
    rw [copyFromUser,if_pos (rangeInUser_of_accepts h)]
    refine congrArg some (List.ext_getElem (by simp [User.bytes]) fun n _ hn => ?_)
    simp [User.bytes,hn]
  · cases now
    exact absurd ok (by decide)

lemma Saved.userSigframe_copyToUser {p : UInt64} {sf : SigframeK} {rc : ℤ}
    (now : copyToUser u p.toNat sf.bytes = (rc,u')) (ok : 0 ≤ rc) : userSigframe u' p = some sf := by
  have h := copyFromUser_copyToUser now ok
  rw [SigframeK.length_bytes] at h
  rw [userSigframe,h,Option.map_some,SigframeK.ofBytes_bytes]

lemma signalTail_spsr {s s' : Saved} {l : List (Fin 32)} {t t' : Signals}
    (now : signalTail s u l t = some (t',s',u')) : s'.spsr = s.spsr := by
  induction l generalizing t with
  | nil =>
    cases now
    rfl
  | cons n rest ih =>
    simp only [signalTail] at now
    split at now
    · split at now
      · exact ih now
      · split at now
        · split at now
          · exact ih now
          · cases now
        · obtain ⟨⟨s'',u''⟩,hd,heq⟩ := Option.map_eq_some_iff.mp now
          cases heq
          exact Saved.deliverSignal_spsr hd
    · exact ih now

end VibeOS.Traps

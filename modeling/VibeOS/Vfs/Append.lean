import VibeOS.Vfs.SysWrite

/-! Writes through descriptors that were opened with O_APPEND. -/
namespace VibeOS.Vfs
open VibeOS.Osfs2

lemma Kernel.step_good {k k' : Kernel} {e : Event} {a : Answer} (hk : k.files.Good) (now : k.step e = some (a,k')) :
    k'.files.Good := by
  have hs := hk.sound
  cases e with
  | «open» t fd path flags junk kbuf =>
    simp only [step] at now
    cases hr : k.files.open path flags junk kbuf with
    | mk r f =>
      rw [hr] at now
      have hf := (Files.open_spec hs hk.named hr).1.good hk
      cases r <;> cases now <;> exact hf
  | read t fd len =>
    obtain ⟨-,rfl⟩ | ⟨e,he,now⟩ := on_cases (Option.some.inj now)
    · exact hk
    dsimp only at now
    cases hr : k.files.read e.target e.offset len with
    | mk r f =>
      rw [hr] at now
      have hf := (Files.read_spec hs hr).1.good hk
      cases r <;> cases now <;> exact hf
  | write t fd src len kbuf =>
    obtain ⟨-,rfl⟩ | ⟨e,he,now⟩ := on_cases (Option.some.inj now)
    · exact hk
    dsimp only at now
    cases hr : k.files.write e.target e.offset src len kbuf with
    | mk r f =>
      rw [hr] at now
      have hf := (Files.write_spec hs hr).1.good hk
      dsimp only at now
      split at now <;> cases now <;> exact hf
  | lseek t fd off whence =>
    obtain ⟨-,rfl⟩ | ⟨e,he,now⟩ := on_cases (Option.some.inj now)
    · exact hk
    dsimp only at now
    split at now
    · cases now
      exact hk
    have hf : (if whence = 2 then k.files.size e.target else (0,k.files)).2.Good := by
      split
      · exact (Files.size_moves hs).good hk
      · exact hk
    generalize (if whence = 2 then k.files.size e.target else (0,k.files)) = sized at now hf
    obtain ⟨size,f⟩ := sized
    dsimp only at now
    split at now <;> cases now <;> exact hf
  | close t fd =>
    obtain ⟨-,rfl⟩ | ⟨e,he,now⟩ := on_cases (Option.some.inj now)
    · exact hk
    split at now <;> cases now <;> exact hk
  | copy t fd t' fd' =>
    obtain ⟨-,rfl⟩ | ⟨e,he,now⟩ := on_cases (Option.some.inj now)
    · exact hk
    cases now
    exact hk
  | unlink path =>
    cases now
    exact (Files.unlink_moves hs).good hk
  | mkdir path =>
    cases now
    exact (Files.mkdir_moves hs).good hk
  | flush =>
    cases now
    exact (Files.flush_moves hs).good hk

/-- The kernel, and which descriptors were opened with O_APPEND and without O_TRUNC. -/
structure Appending where
  kernel : Kernel
  appends : ℕ → ℕ → Bool

/-- A whole `sys_write` is one step here, and the single chunks of `Event.write` do not happen. -/
inductive AppendEvent
  | other (e : Event)
  | write (t fd : ℕ) (buf : UserBuf) (kbuf : ℕ → Option Buffer) (len : ℤ)

namespace Appending

def mark (s : Appending) (t fd : ℕ) (on : Bool) : ℕ → ℕ → Bool :=
  Function.update s.appends t (Function.update (s.appends t) fd on)

/-- What becomes of the flags when the kernel has answered. -/
def marked (s : Appending) (a : Answer) : Event → ℕ → ℕ → Bool
  | .open t fd _ flags _ _ => if a.value < 0 then s.appends else s.mark t fd (flags.append && !flags.trunc)
  | .copy t fd t' fd' => if a.value < 0 then s.appends else s.mark t' fd' (s.appends t fd)
  | _ => s.appends

def step (s : Appending) : AppendEvent → Option (ℤ × Appending)
  | .other (.write ..) => none
  | .other e => (s.kernel.step e).map fun r => (r.1.value,⟨r.2,s.marked r.1 e⟩)
  | .write t fd buf kbuf len => (s.kernel.fds t fd).map fun e =>
    let r := s.kernel.files.sysWrite e.target e.offset buf kbuf len
    (r.value,{ s with kernel := (s.kernel.become r.files).setFd t fd (some { e with offset := r.offset }) })

/-- A write through an O_APPEND descriptor puts its bytes behind the end of the file, and answers how many. -/
def Lawful (s : Appending) : AppendEvent → Prop
  | .other _ => True
  | .write t fd buf kbuf len => ∀ e, s.appends t fd = true → s.kernel.fds t fd = some e →
    let r := s.kernel.files.sysWrite e.target e.offset buf kbuf len
    Files.Stored s.kernel.files r.files e.target (s.kernel.files.length e.target) r.stored buf.byte ∧
      (r.value < 0 ∨ r.value = r.stored)

/-- The descriptor's offset is the size of the file, or the first chunk cannot be stored. -/
def Safe (s : Appending) : AppendEvent → Prop
  | .other _ => True
  | .write t fd buf kbuf len => ∀ e, s.appends t fd = true → s.kernel.fds t fd = some e →
    e.target.at e.offset = s.kernel.files.length e.target ∨ len ≤ 0 ∨ buf.fault 0 = true ∨
      s.kernel.files.Refuses e.target e.offset (min chunkSize len.toNat) (kbuf 0)

variable {s s' : Appending}

lemma step_good {e : AppendEvent} {r : ℤ} (hs : s.kernel.files.Good) (now : s.step e = some (r,s')) :
    s'.kernel.files.Good := by
  have hother {e : Event} (now : (s.kernel.step e).map (fun r => (r.1.value,(⟨r.2,s.marked r.1 e⟩ : Appending))) = some (r,s')) :
      s'.kernel.files.Good := by
    obtain ⟨⟨a,k⟩,hk,he⟩ := Option.map_eq_some_iff.mp now
    cases he
    exact Kernel.step_good hs hk
  cases e with
  | other e =>
    cases e with
    | write => cases now
    | _ =>
      simp only [step] at now
      exact hother now
  | write t fd buf kbuf len =>
    obtain ⟨e,-,he⟩ := Option.map_eq_some_iff.mp now
    cases he
    exact (Files.sysWrite_spec hs).1

lemma lawful_iff {e : AppendEvent} (hs : s.kernel.files.Good) : s.Lawful e ↔ s.Safe e := by
  cases e with
  | other => exact Iff.rfl
  | write t fd buf kbuf len =>
    refine forall_congr' fun e => imp_congr_right fun _ => imp_congr_right fun _ => ?_
    obtain ⟨-,-,-,-,hfile,hvalue⟩ := @Files.sysWrite_spec _ e.target e.offset buf kbuf len hs
    rw [← Files.sysWrite_stored hs]
    generalize s.kernel.files.sysWrite e.target e.offset buf kbuf len = r at hfile hvalue ⊢
    dsimp only
    replace hvalue := hvalue.imp And.left And.left
    constructor
    · rintro ⟨hlaw,-⟩
      by_cases hzero : r.stored = 0
      · exact .inr hzero
      · have hsize := hlaw.length.symm.trans hfile.length
        rw [if_neg hzero,if_neg hzero] at hsize
        exact .inl (by omega)
    · rintro (hat | hzero)
      · exact ⟨hat ▸ hfile,hvalue⟩
      · rw [hzero] at hfile hvalue ⊢
        exact ⟨.none hfile.length fun p hp => hfile.old p hp (by omega),hvalue⟩

/-- In every run, the writes through O_APPEND descriptors are lawful exactly when they are safe. -/
theorem append_run (boot : s.kernel.Boots) (es : List AppendEvent) : Runs step Lawful s es s' ↔ Runs step Safe s es s' :=
  Runs.congr (I := fun s => s.kernel.files.Good) (fun _ _ _ _ hs now => step_good hs now) (fun _ _ hs => lawful_iff hs)
    ⟨boot.sound,boot.named⟩

def letter (c : UInt8) : UserBuf := ⟨fun _ => c,fun _ => false⟩

def nothingOpen : Appending := ⟨Kernel.start,fun _ _ => false⟩

/-- Two processes open `/tmp/a` with O_APPEND, and the first writes one byte. -/
def bothOpen : List AppendEvent :=
  [.other (.open 0 3 (.tmp Kernel.nameA) ⟨true,false,true⟩ [] Kernel.zeros),
    .other (.open 1 3 (.tmp Kernel.nameA) ⟨true,false,true⟩ [] Kernel.zeros),.write 0 3 (letter 65) (fun _ => none) 1]

lemma first_append : ∃ s g, Runs step (fun _ _ => True) nothingOpen (bothOpen.take 2) s ∧
    s.kernel.fds 0 3 = some ⟨.tmp 0,0,1⟩ ∧ s.kernel.fds 1 3 = some ⟨.tmp 0,0,1⟩ ∧ s.appends 1 3 = true ∧
    s.kernel.files.length (.tmp 0) = 0 ∧
    s.step (.write 0 3 (letter 65) (fun _ => none) 1) =
      some (1,{ s with kernel := (s.kernel.become g).setFd 0 3 (some ⟨.tmp 0,1,1⟩) }) ∧
    g.length (.tmp 0) = 1 ∧ ¬ g.Refuses (.tmp 0) 0 1 none := by
  obtain ⟨s,hopens,hfirst,hsecond,hmark,hempty,g,hw,hsize,huse,hmax,hgrow⟩ : ∃ s, Runs step (fun _ _ => True) nothingOpen (bothOpen.take 2) s ∧
      s.kernel.fds 0 3 = some ⟨.tmp 0,0,1⟩ ∧ s.kernel.fds 1 3 = some ⟨.tmp 0,0,1⟩ ∧ s.appends 1 3 = true ∧
      s.kernel.files.length (.tmp 0) = 0 ∧
      ∃ g, s.kernel.files.write (.tmp 0) 0 (letter 65).byte 1 none = (1,g) ∧ g.length (.tmp 0) = 1 ∧
        (g.tmp 0).inUse = true ∧ ¬ tmpfsMaxFileSize < 0 + 1 ∧ ((g.tmp 0).growTo (0 + 1) none).isNone = false :=
    ⟨_,.cons trivial rfl (.cons trivial rfl (.nil _)),rfl,rfl,rfl,rfl,_,rfl,rfl,rfl,by decide,rfl⟩
  have hone : s.kernel.files.sysWrite (.tmp 0) 0 (letter 65) (fun _ => none) 1 = ⟨1,1,1,g⟩ := Files.sysWrite_one rfl hw
  refine ⟨s,g,hopens,hfirst,hsecond,hmark,hempty,?_,hsize,?_⟩
  · simp only [step,hfirst,Option.map_some,hone]
  · rintro (hfree | hlarge | hnone)
    · exact absurd (hfree.symm.trans huse) (by decide)
    · exact hmax hlarge
    · exact absurd (hnone.symm.trans hgrow) (by decide)

/-- A run whose writes are lawful. -/
theorem append_run_first : ∃ s, Runs step Lawful nothingOpen bothOpen s := by
  obtain ⟨s,g,hopens,hfirst,-,-,hempty,hnow,-⟩ := first_append
  have hsafe : Runs step Safe nothingOpen (bothOpen.take 2) s :=
    hopens.of_forall fun e he _ => by
      rcases List.mem_cons.mp he with rfl | he
      · trivial
      · obtain rfl := List.mem_singleton.mp he
        trivial
  have hwrite : s.Safe (.write 0 3 (letter 65) (fun _ => none) 1) := by
    intro e _ he
    rw [hfirst] at he
    cases he
    exact .inl hempty.symm
  exact ⟨_,(append_run Kernel.start_boots bothOpen).mpr (hsafe.append (.cons hwrite hnow (.nil _)))⟩

/-- The second process then overwrites the byte of the first. -/
theorem append_overwrites : ∃ s, Runs step (fun _ _ => True) nothingOpen bothOpen s ∧
    ¬ s.Lawful (.write 1 3 (letter 66) (fun _ => none) 1) := by
  obtain ⟨s,g,hopens,-,hsecond,hmark,-,hnow,hsize,hstored⟩ := first_append
  have hrun := hopens.append (.cons trivial hnow (.nil _))
  refine ⟨_,hrun,fun hlaw => ?_⟩
  have hgood := hrun.invariant (I := fun s => s.kernel.files.Good) (fun _ _ _ _ hs _ now => step_good hs now)
    ⟨Kernel.start_boots.sound,Kernel.start_boots.named⟩
  have hentry : ((s.kernel.become g).setFd 0 3 (some ⟨.tmp 0,1,1⟩)).fds 1 3 = some ⟨.tmp 0,0,1⟩ := hsecond
  rcases (lawful_iff hgood).mp hlaw _ hmark hentry with hat | hlen | hfault | hrefused
  · exact absurd (hat.trans hsize) (by decide)
  · exact absurd hlen (by decide)
  · exact absurd hfault (by decide)
  · exact hstored hrefused

end Appending
end VibeOS.Vfs

import VibeOS.Vfs.OpenFiles

/-! Descriptors and the files that they were opened on. -/
namespace VibeOS.Vfs
open Function (update_apply update_of_ne update_self)
open VibeOS.Osfs2

/-- The disk stays sound, and one call happened to its volume, or none. -/
structure Files.Moves (f g : Files) : Prop where
  sound : g.sys.Sound
  vol : f.sys.vol.Moves g.sys.vol

namespace Files
variable {f g : Files}

lemma exec_spec {α : Type} {prog : Fs α} {Q : α → Vol → Prop} (hs : f.sys.Sound)
    (hd : Does prog f.sys.vol fun r w => f.sys.vol.Moves w ∧ Q r w) (tmp : Tmpfs) :
    f.Moves ⟨tmp,(f.sys.exec prog).2⟩ ∧ Q (f.sys.exec prog).1 (f.sys.exec prog).2.vol := by
  obtain ⟨hm,hv,hq⟩ := hd.exec hs.mounts
  exact ⟨⟨⟨hm,hv.owned hs.owned⟩,hv⟩,hq⟩

lemma Moves.refl (hs : f.sys.Sound) (tmp : Tmpfs) : f.Moves ⟨tmp,f.sys⟩ := ⟨hs,.stays⟩

lemma Same.refl (t : Target) : f.Same f t := by
  cases t with
  | tmp i => rfl
  | data ino => exact Vol.Same.refl _ _

lemma open_spec {path : Path} {flags : OpenFlags} {junk : List UInt8} {kbuf : Option Buffer}
    {r : Except ℤ (Target × UInt64)} (hs : f.sys.Sound) (hN : f.sys.vol.Named)
    (now : f.open path flags junk kbuf = (r,g)) :
    f.Moves g ∧ ∀ target offset, r = .ok (target,offset) → g.live target = true := by
  cases path with
  | tmp rel =>
    cases hr : f.tmp.opOpen flags rel kbuf with
    | mk opened tmp =>
      simp only [Files.open,hr] at now
      cases now
      refine ⟨.refl hs tmp,fun target offset he => ?_⟩
      cases opened with
      | error e => cases he
      | ok p =>
        cases he
        exact Tmpfs.opOpen_inUse hr
  | data rel =>
    have hd : Does (osfs2OpOpen junk flags rel) f.sys.vol fun r w => f.sys.vol.Moves w ∧
        ∀ ino, r = .ok ino → w.live ino = true := Does.osfs2OpOpen hs.owned hN
    obtain ⟨hm,hq⟩ := exec_spec hs hd f.tmp
    simp only [Files.open] at now
    cases now
    refine ⟨hm,fun target offset he => ?_⟩
    cases hr : (f.sys.exec (osfs2OpOpen junk flags rel)).1 with
    | error e =>
      rw [hr] at he
      cases he
    | ok ino =>
      rw [hr] at he
      cases he
      exact hq ino hr

variable {target : Target}

lemma read_spec {offset len : UInt64} {r : Except ℤ (List UInt8)} (hs : f.sys.Sound)
    (now : f.read target offset len = (r,g)) :
    f.Moves g ∧ (f.usable target = false → ∃ e, r = .error e ∧ e < 0) := by
  cases target with
  | tmp i =>
    cases now
    exact ⟨.refl hs f.tmp,fun hu => ⟨-ebadf,Tmpfs.read_free hu,by decide⟩⟩
  | data ino =>
    have hd : Does (osfs2Read ino offset len) f.sys.vol fun r w => f.sys.vol.Moves w ∧
        ((f.sys.vol.inode ino).type = typeFree → r = none) := by
      refine Does.osfs2Read hs.owned (fun _ => ⟨.stays,fun _ => rfl⟩) fun _ hty => ⟨.stays,fun hf => ?_⟩
      rw [hf] at hty
      exact absurd hty (by decide)
    obtain ⟨hm,hq⟩ := exec_spec hs hd f.tmp
    simp only [Files.read] at now
    cases now
    refine ⟨hm,fun hu => ⟨-1,?_,by decide⟩⟩
    rw [hq (by simpa [usable] using hu)]

lemma write_spec {offset len : UInt64} {src : ℕ → UInt8} {kbuf : Option Buffer} {r : ℤ}
    (hs : f.sys.Sound) (now : f.write target offset src len kbuf = (r,g)) :
    f.Moves g ∧ (f.usable target = false → (r < 0 ∨ len = 0) ∧ ∀ s, f.Same g s) ∧
      ∀ s, s ≠ target → f.Same g s := by
  cases target with
  | tmp i =>
    simp only [Files.write] at now
    cases now
    refine ⟨.refl hs _,fun hu => ?_,fun s hne => ?_⟩
    · rw [Tmpfs.write_free hu]
      refine ⟨.inl (show -ebadf < 0 by decide),fun s => ?_⟩
      cases s with
      | tmp j => rfl
      | data ino => exact Vol.Same.refl _ _
    · cases s with
      | tmp j => exact Tmpfs.write_other fun hj => hne (congrArg _ hj)
      | data ino => exact Vol.Same.refl _ _
  | data ino =>
    have hd : Does (osfs2Write ino offset src len) f.sys.vol fun r w => f.sys.vol.Moves w ∧
        Writes f.sys.vol ino offset src len r w := by
      exact Does.osfs2Write hs.owned fun r w hw => ⟨.call (.write hw),hw⟩
    obtain ⟨hm,hq⟩ := exec_spec hs hd f.tmp
    simp only [Files.write] at now
    cases now
    refine ⟨hm,fun hu => ?_,fun s hne => ?_⟩
    · obtain ⟨hv,hr⟩ := hq.free (by simpa [usable] using hu)
      refine ⟨hr.imp_left fun he => by rw [he]; decide,fun s => ?_⟩
      cases s with
      | tmp j => rfl
      | data k =>
        unfold Same
        rw [hv]
        exact Vol.Same.refl _ _
    · cases s with
      | tmp j => rfl
      | data k =>
        rcases (hq.frame hs.owned).2.2.2 k with hsame | ⟨rfl,-⟩
        · exact hsame
        · exact absurd rfl hne

lemma size_moves (hs : f.sys.Sound) : f.Moves (f.size target).2 := by
  cases target with
  | tmp i => exact .refl hs f.tmp
  | data ino =>
    have hd : Does (osfs2Size ino) f.sys.vol fun _ w => f.sys.vol.Moves w ∧ True :=
      Does.osfs2Size.mono fun _ w hw => ⟨hw ▸ .stays,trivial⟩
    exact (exec_spec hs hd f.tmp).1

lemma call_moves (hs : f.sys.Sound) (c : Call) : f.Moves ⟨f.tmp,(f.sys.exec c.run).2⟩ :=
  have hd : Does c.run f.sys.vol fun _ w => f.sys.vol.Moves w ∧ True :=
    (Does.call hs.owned c).mono fun _ _ hw => ⟨.call hw,trivial⟩
  (exec_spec hs hd f.tmp).1

lemma unlink_moves {path : Path} (hs : f.sys.Sound) : f.Moves (f.unlink path).2 := by
  cases path with
  | tmp rel => exact .refl hs _
  | data rel =>
    unfold Files.unlink
    dsimp only
    split
    · exact .refl hs f.tmp
    · exact call_moves hs (.unlink (some (stripSlash rel)))

lemma mkdir_moves {path : Path} (hs : f.sys.Sound) : f.Moves (f.mkdir path).2 := by
  cases path with
  | tmp rel => exact .refl hs f.tmp
  | data rel =>
    unfold Files.mkdir
    dsimp only
    split
    · exact .refl hs f.tmp
    · have hd : Does (osfs2Mkdir (some (stripSlash rel))) f.sys.vol fun _ w => f.sys.vol.Moves w ∧ True :=
        Does.createAt hs.owned (fun _ => ⟨.stays,trivial⟩) fun _ _ hp _ _ made => ⟨.call (.mkdir hp made),trivial⟩
      exact (exec_spec hs hd f.tmp).1

lemma flush_moves (hs : f.sys.Sound) : f.Moves { f with sys := f.sys.flush.2 } := by
  obtain ⟨hf,hv⟩ := hs.flush
  exact ⟨hf,hv.symm ▸ .stays⟩

end Files

namespace Kernel
variable {k k' : Kernel}

/-- A descriptor whose target can be used is on the file that it was opened on. -/
def Mine (k : Kernel) (e : FdEntry) : Prop := k.files.usable e.target = true → k.OnOwnFile e

structure Sound (k : Kernel) : Prop where
  disk : k.files.sys.Sound
  named : k.files.sys.vol.Named
  mine : ∀ t fd e, k.fds t fd = some e → k.Mine e

lemma stamp_become (f : Files) {t : Target} (h : k.files.live t = true) : (k.become f).stamp t = k.stamp t := by
  simp [become,h]

lemma Sound.become {f : Files} (hk : k.Sound) (hm : k.files.Moves f)
    (kept : ∀ t, k.Takes (k.become f) t → ∀ tb fd d, k.fds tb fd = some d → d.target ≠ t) : (k.become f).Sound := by
  refine ⟨hm.sound,hm.vol.named hk.disk.owned hk.named,fun t fd e he hu => ?_⟩
  have hold : k.files.usable e.target = true := by
    by_contra hne
    exact kept e.target (.inl ⟨by simpa using hne,hu⟩) t fd e he rfl
  obtain ⟨hl,hs⟩ := hk.mine t fd e he hold
  refine ⟨?_,(stamp_become f hl).trans hs⟩
  change f.live e.target = true
  change f.usable e.target = true at hu
  cases htg : e.target with
  | tmp i =>
    rw [htg] at hu
    exact hu
  | data ino =>
    rw [htg] at hu hl
    rcases hm.vol.keepsOrFrees hk.disk.owned hk.named hl with h | h
    · exact h
    · simp [Files.usable,h] at hu

variable {e : Option FdEntry}

lemma fds_setFd {t fd t' fd' : ℕ} {d : FdEntry} (h : (k.setFd t fd e).fds t' fd' = some d) :
    e = some d ∨ k.fds t' fd' = some d := by
  unfold Kernel.setFd at h
  dsimp only at h
  by_cases ht : t' = t
  · subst ht
    rw [update_self,update_apply] at h
    split at h
    · exact .inl h
    · exact .inr h
  · rw [update_of_ne ht] at h
    exact .inr h

lemma Sound.setFd (hk : k.Sound) (he : ∀ d, e = some d → k.Mine d) (t fd : ℕ) :
    (k.setFd t fd e).Sound := by
  refine ⟨hk.disk,hk.named,fun t' fd' d hd => ?_⟩
  rcases fds_setFd hd with h | h
  · exact he d h
  · exact hk.mine t' fd' d h

variable {t fd : ℕ}

lemma Sound.seek (hk : k.Sound) {e : FdEntry} (he : k.Mine e) (offset : UInt64) :
    (k.setFd t fd (some { e with offset := offset })).Sound :=
  hk.setFd (fun d hd => by cases hd; exact he) t fd

lemma on_cases {call : FdEntry → Answer × Kernel} {a : Answer} (now : k.on t fd call = (a,k')) :
    (a = ⟨-ebadf,[]⟩ ∧ k' = k) ∨ ∃ e, k.fds t fd = some e ∧ call e = (a,k') := by
  unfold on at now
  cases he : k.fds t fd with
  | none =>
    rw [he] at now
    cases now
    exact .inl ⟨rfl,rfl⟩
  | some e =>
    rw [he] at now
    exact .inr ⟨e,rfl,now⟩

lemma step_sound {e : Event} {a : Answer} (hk : k.Sound) (ok : k.NoReuse e) (now : k.step e = some (a,k')) :
    k'.Sound := by
  have kept := ok a k' now
  cases e with
  | «open» t fd path flags junk kbuf =>
    simp only [step] at now
    cases hr : k.files.open path flags junk kbuf with
    | mk r f =>
      rw [hr] at now
      obtain ⟨hm,hl⟩ := Files.open_spec hk.disk hk.named hr
      cases r with
      | error e =>
        cases now
        exact hk.become hm kept
      | ok p =>
        obtain ⟨target,offset⟩ := p
        cases now
        exact (hk.become hm kept).setFd (fun d hd _ => by cases hd; exact ⟨hl target offset rfl,rfl⟩) t fd
  | read t fd len =>
    obtain ⟨-,rfl⟩ | ⟨e,he,now⟩ := on_cases (Option.some.inj now)
    · exact hk
    dsimp only at now
    cases hr : k.files.read e.target e.offset len with
    | mk r f =>
      rw [hr] at now
      have hm := (Files.read_spec hk.disk hr).1
      cases r with
      | error _ =>
        cases now
        exact hk.become hm kept
      | ok bytes =>
        cases now
        have hk₁ : (k.become f).Sound := hk.become hm kept
        exact hk₁.seek (hk₁.mine t fd e he) _
  | write t fd src len kbuf =>
    obtain ⟨-,rfl⟩ | ⟨e,he,now⟩ := on_cases (Option.some.inj now)
    · exact hk
    dsimp only at now
    cases hr : k.files.write e.target e.offset src len kbuf with
    | mk r f =>
      rw [hr] at now
      have hm := (Files.write_spec hk.disk hr).1
      dsimp only at now
      split at now
      · cases now
        exact hk.become hm kept
      · cases now
        have hk₁ : (k.become f).Sound := hk.become hm kept
        exact hk₁.seek (hk₁.mine t fd e he) _
  | lseek t fd off whence =>
    obtain ⟨-,rfl⟩ | ⟨e,he,now⟩ := on_cases (Option.some.inj now)
    · exact hk
    dsimp only at now
    split at now
    · cases now
      exact hk
    have hm : k.files.Moves (if whence = 2 then k.files.size e.target else (0,k.files)).2 := by
      split
      · exact Files.size_moves hk.disk
      · exact .refl hk.disk k.files.tmp
    generalize (if whence = 2 then k.files.size e.target else (0,k.files)) = sized at now hm
    obtain ⟨size,f⟩ := sized
    dsimp only at now
    split at now
    · cases now
      exact hk.become hm kept
    · cases now
      have hk₁ : (k.become f).Sound := hk.become hm kept
      exact hk₁.seek (hk₁.mine t fd e he) _
  | close t fd =>
    obtain ⟨-,rfl⟩ | ⟨e,he,now⟩ := on_cases (Option.some.inj now)
    · exact hk
    split at now
    · cases now
      exact hk
    · cases now
      exact hk.setFd (fun d hd => by cases hd) t fd
  | copy t fd t' fd' =>
    obtain ⟨-,rfl⟩ | ⟨e,he,now⟩ := on_cases (Option.some.inj now)
    · exact hk
    cases now
    exact hk.setFd (fun d hd => by cases hd; exact hk.mine t fd e he) t' fd'
  | unlink path =>
    cases now
    exact hk.become (Files.unlink_moves hk.disk) kept
  | mkdir path =>
    cases now
    exact hk.become (Files.mkdir_moves hk.disk) kept
  | flush =>
    cases now
    exact hk.become (Files.flush_moves hk.disk) kept

lemma Boots.sound_kernel (h : k.Boots) : k.Sound := by
  refine ⟨h.sound,h.named,fun t fd e he => ?_⟩
  rw [h.fds] at he
  cases he

lemma write_cases {src : ℕ → UInt8} {len : UInt64} {kbuf : Option Buffer} {a : Answer}
    (hk : k.Sound) (now : k.step (.write t fd src len kbuf) = some (a,k')) :
    (a.value < 0 ∧ k'.files = k.files) ∨ ∃ e, k.fds t fd = some e ∧
      (k.OnOwnFile e ∨ (a.value < 0 ∨ len = 0) ∧ k.files.Same k'.files e.target) ∧
      ∀ s, s ≠ e.target → k.files.Same k'.files s := by
  obtain ⟨rfl,rfl⟩ | ⟨e,he,now⟩ := on_cases (Option.some.inj now)
  · exact .inl ⟨by decide,rfl⟩
  dsimp only at now
  cases hr : k.files.write e.target e.offset src len kbuf with
  | mk r f =>
    rw [hr] at now
    obtain ⟨-,hfree,hother⟩ := Files.write_spec hk.disk hr
    have hval : a.value = r ∧ k'.files = f := by
      dsimp only at now
      split at now
      · cases now
        exact ⟨rfl,rfl⟩
      · cases now
        exact ⟨rfl,rfl⟩
    obtain ⟨rfl,rfl⟩ := hval
    refine .inr ⟨e,he,?_,hother⟩
    cases hu : k.files.usable e.target with
    | true => exact .inl (hk.mine t fd e he hu)
    | false => exact .inr ⟨(hfree hu).1,(hfree hu).2 _⟩

/-- In a run where no file is made in the slot or with the number of an open descriptor, every
descriptor keeps its file. -/
theorem open_files_keep_identity {es : List Event} (boot : k.Boots) (run : Runs step NoReuse k es k') :
    k'.KeepsIdentity := by
  have hk : k'.Sound := run.invariant (fun _ _ _ _ hs ok now => step_sound hs ok now) boot.sound_kernel
  refine ⟨fun t fd len a k'' now => ?_,fun t fd src len kbuf a k'' now => ?_,fun t fd src len kbuf a k'' now s => ?_⟩
  · obtain ⟨rfl,-⟩ | ⟨e,he,now⟩ := on_cases (Option.some.inj now)
    · exact .inl (by decide)
    dsimp only at now
    cases hr : k'.files.read e.target e.offset len with
    | mk r f =>
      rw [hr] at now
      cases hu : k'.files.usable e.target with
      | true => exact .inr ⟨e,he,hk.mine t fd e he hu⟩
      | false =>
        obtain ⟨err,rfl,hneg⟩ := (Files.read_spec hk.disk hr).2 hu
        cases now
        exact .inl hneg
  · rcases write_cases hk now with ⟨hneg,-⟩ | ⟨e,he,hown | ⟨hr,-⟩,-⟩
    · exact .inl hneg
    · exact .inr (.inr ⟨e,he,hown⟩)
    · exact hr.imp_right .inl
  · rcases write_cases hk now with ⟨-,hsame⟩ | ⟨e,he,hcase,hother⟩
    · exact .inl (hsame ▸ Files.Same.refl s)
    · by_cases hs : s = e.target
      · rcases hcase with hown | ⟨-,hsame⟩
        · exact .inr ⟨e,he,hs.symm,hown⟩
        · exact .inl (hs ▸ hsame)
      · exact .inl (hother s hs)

/-- A fresh disk, nothing in `/tmp`, no descriptor. -/
def start : Kernel := ⟨⟨Tmpfs.init,fresh⟩,fun _ _ => none,fun _ => 0,0⟩

lemma start_boots : start.Boots := ⟨rfl,fresh_sound,fresh_vol.symm ▸ imageVol_named⟩

def nameA : CString := ⟨[97],by decide⟩
def nameB : CString := ⟨[98],by decide⟩

def zeros : Option Buffer := some fun _ => 0

/-- One process opens `/tmp/a` and unlinks it, another makes `/tmp/b`. -/
def reuse : List Event :=
  [.open 0 3 (.tmp nameA) ⟨true,false,false⟩ [] zeros,.unlink (.tmp nameA),
    .open 1 3 (.tmp nameB) ⟨true,false,false⟩ [] zeros]

/-- A run that opens a file. -/
theorem open_files_keep_identity_open : ∃ k, Runs step NoReuse start
    [.open 0 3 (.tmp nameA) ⟨true,false,false⟩ [] zeros] k ∧ k.fds 0 3 = some ⟨.tmp 0,0,1⟩ ∧ k.KeepsIdentity :=
  have ok : start.NoReuse (.open 0 3 (.tmp nameA) ⟨true,false,false⟩ [] zeros) :=
    fun _ _ _ _ _ _ _ _ hd => nomatch hd
  have run : Runs step NoReuse start [.open 0 3 (.tmp nameA) ⟨true,false,false⟩ [] zeros] _ := .cons ok rfl (.nil _)
  ⟨_,run,rfl,open_files_keep_identity start_boots run⟩

/-- The first process writes through its descriptor into the file of the second. -/
theorem slot_used_again : ¬ ∀ (k k' : Kernel) (es : List Event), k.Boots → Runs step (fun _ _ => True) k es k' →
    k'.KeepsIdentity := by
  intro h
  obtain ⟨k,run,hfd,hstamp,a,k'',now,hval⟩ : ∃ k, Runs step (fun _ _ => True) start reuse k ∧
      k.fds 0 3 = some ⟨.tmp 0,0,1⟩ ∧ k.stamp (.tmp 0) = 3 ∧
      ∃ a k'', k.step (.write 0 3 (fun _ => 1) 1 none) = some (a,k'') ∧ a.value = 1 :=
    ⟨_,.cons trivial rfl (.cons trivial rfl (.cons trivial rfl (.nil _))),rfl,rfl,_,_,rfl,rfl⟩
  rcases (h start k reuse start_boots run).write 0 3 _ 1 none a k'' now with hneg | hlen | ⟨e,he,-,hopened⟩
  · rw [hval] at hneg
    exact absurd hneg (by decide)
  · exact absurd hlen (by decide)
  · rw [hfd] at he
    cases he
    rw [hstamp] at hopened
    exact absurd hopened (by decide)

end Kernel
end VibeOS.Vfs

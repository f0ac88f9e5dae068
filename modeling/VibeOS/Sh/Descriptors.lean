import VibeOS.Sh.Shell

/-! The descriptors that the shell opens for a command are closed again, whatever fails. -/
namespace VibeOS.Sh

/-- The descriptors that the shell has opened for the command. -/
def Phase.held : Phase → List ℕ
  | .openIn _ out => [out]
  | .spawn _ inFd outFd => flat [] inFd outFd
  | .pipeOut _ inFd => inFd.toList
  | .pipes _ inFd outFd ps => flat ps inFd outFd
  | .stages _ inFd outFd ps _ => flat ps inFd outFd
  | _ => []

/-- The descriptors in use are those from before and those in `l`. -/
structure Holds (s : Shell) (l : List ℕ) : Prop where
  fds : ∀ fd, s.fds fd = true ↔ s.before fd = true ∨ fd ∈ l
  free : ∀ fd ∈ l, s.before fd = false

lemma held_piping (p : Pipeline) (inFd outFd : Option ℕ) (ps : List (ℕ × ℕ)) :
    (Phase.piping p inFd outFd ps).held = flat ps inFd outFd := by
  unfold Phase.piping
  split <;> rfl

lemma held_opening (p : Pipeline) (inFd : Option ℕ) : (Phase.opening p inFd).held = inFd.toList := by
  unfold Phase.opening
  split
  · rfl
  · rw [held_piping]
    exact List.append_nil _

namespace Shell

lemma closeAll_eq (s : Shell) (l : List ℕ) :
    s.closeAll l = { s with fds := fun fd => s.fds fd && !l.contains fd } := by
  induction l generalizing s with
  | nil => simp [closeAll]
  | cons a l ih =>
    have hstep : s.closeAll (a :: l) = (s.close a).closeAll l := rfl
    rw [hstep,ih]
    simp only [close,Shell.mk.injEq,and_true,true_and]
    funext fd
    by_cases h : fd = a <;> simp [h,Function.update_of_ne]

lemma openFd_spec {s s' : Shell} {ok : Bool} {fd : ℕ} (h : s.openFd ok = some (fd,s')) :
    ok = true ∧ s.fds fd = false ∧ s' = { s with fds := Function.update s.fds fd true } := by
  unfold openFd at h
  split at h
  · next hok =>
    obtain ⟨a,ha,heq⟩ := Option.map_eq_some_iff.mp h
    cases heq
    have hfree := List.find?_some ha
    simp only [Bool.and_eq_true,Bool.not_eq_true'] at hfree
    exact ⟨hok,hfree.2,rfl⟩
  · cases h

end Shell

namespace Holds
variable {s t : Shell} {l : List ℕ}

lemma of_eq (h : Holds s l) (hfds : t.fds = s.fds) (hbefore : t.before = s.before) : Holds t l := by
  obtain ⟨hl,hfree⟩ := h
  rw [← hfds,← hbefore] at hl
  rw [← hbefore] at hfree
  exact ⟨hl,hfree⟩

lemma goto (h : Holds s l) {p : Phase} (hp : ∀ a, a ∈ p.held ↔ a ∈ l) : Holds (s.goto p) (s.goto p).phase.held :=
  ⟨fun fd => (h.fds fd).trans (or_congr_right (hp fd).symm),fun fd hfd => h.free fd ((hp fd).mp hfd)⟩

lemma back (h : Holds s []) (status : ℤ) : Holds (s.back status) (s.back status).phase.held := ⟨h.fds,h.free⟩

lemma opened (h : Holds s l) {ok : Bool} {fd : ℕ} (hopen : s.openFd ok = some (fd,t)) : Holds t (fd :: l) := by
  obtain ⟨-,hfree,rfl⟩ := Shell.openFd_spec hopen
  have hbefore : s.before fd = false := by
    by_contra hne
    have hin : s.fds fd = true := (h.fds fd).mpr (.inl (by simpa using hne))
    rw [hfree] at hin
    cases hin
  refine ⟨fun a => ?_,fun a ha => ?_⟩
  · by_cases ha : a = fd
    · subst ha
      simp
    · simp [ha,h.fds a]
  · obtain rfl | ha := List.mem_cons.mp ha
    · exact hbefore
    · exact h.free a ha

lemma closed (h : Holds s l) : Holds (s.closeAll l) [] := by
  rw [Shell.closeAll_eq]
  refine ⟨fun fd => ?_,fun fd hfd => by cases hfd⟩
  have hfd := h.fds fd
  by_cases hm : fd ∈ l
  · simp [hm,h.free fd hm]
  · simpa [hm] using hfd

lemma eq_before (h : Holds s []) : s.fds = s.before := by
  funext fd
  have hfd := h.fds fd
  rw [Bool.eq_iff_iff]
  simpa using hfd

end Holds

lemma holds_read (s : Shell) (text : List Char) (ok : Bool) :
    Holds (s.read text ok) (s.read text ok).phase.held := by
  have hnew : Holds { s with before := s.fds, job := [] } [] :=
    ⟨fun fd => by simp,fun fd hfd => by cases hfd⟩
  unfold Shell.read
  dsimp only
  split
  · exact hnew.back _
  · exact hnew.goto fun a => Iff.rfl
  · exact hnew.back _
  · exact hnew.back _
  · refine hnew.goto fun a => ?_
    split <;> exact Iff.rfl
  · refine hnew.goto fun a => ?_
    split
    · exact Iff.rfl
    · rw [held_opening]
      exact Iff.rfl

variable {inFd outFd : Option ℕ} {s : Shell}

lemma holds_launch (h : Holds s (flat [] inFd outFd)) (c : Command) (ok : Bool) :
    Holds (s.launch c inFd outFd ok) (s.launch c inFd outFd ok).phase.held := by
  unfold Shell.launch
  split
  · have hspawned : Holds s.spawned (flat [] inFd outFd) := h.of_eq rfl rfl
    dsimp only
    split
    · refine Holds.back ?_ 0
      exact hspawned.closed.of_eq rfl rfl
    · refine Holds.goto (l := []) ?_ fun a => Iff.rfl
      exact hspawned.closed.of_eq rfl rfl
  · refine Holds.back ?_ 127
    exact h.closed.of_eq rfl rfl

lemma holds_await (h : Holds s []) (p : Pipeline) (tids : List (Option ℕ)) :
    Holds (s.await p tids) (s.await p tids).phase.held := by
  unfold Shell.await
  dsimp only
  split
  · refine Holds.back ?_ _
    exact h.of_eq rfl rfl
  · refine Holds.goto (l := []) ?_ fun a => Iff.rfl
    exact h.of_eq rfl rfl

lemma holds_staged {ps : List (ℕ × ℕ)} (h : Holds s (flat ps inFd outFd))
    (p : Pipeline) (tids : List (Option ℕ)) :
    Holds (s.staged p inFd outFd ps tids) (s.staged p inFd outFd ps tids).phase.held := by
  unfold Shell.staged
  split
  · exact h.goto fun a => Iff.rfl
  · exact holds_await h.closed p tids

lemma holds_stage {ps : List (ℕ × ℕ)} (h : Holds s (flat ps inFd outFd))
    (p : Pipeline) (tids : List (Option ℕ)) (ok : Bool) :
    Holds (s.stage p inFd outFd ps tids ok) (s.stage p inFd outFd ps tids ok).phase.held := by
  unfold Shell.stage
  split
  · exact holds_staged (s := s.spawned) (h.of_eq rfl rfl) p _
  · exact holds_staged h p _

lemma holds_call {s t : Shell} (h : Holds s s.phase.held) {ok : Bool} (hcall : s.call ok = some t) :
    Holds t t.phase.held := by
  unfold Shell.call at hcall
  split at hcall
  case h_1 c hp =>
    rw [hp] at h
    split at hcall
    · cases hcall
      exact h.back _
    · next out s' hopen =>
      cases hcall
      refine (h.opened hopen).goto fun a => ?_
      split <;> simp [Phase.held,flat]
  case h_2 c out hp =>
    rw [hp] at h
    split at hcall
    · cases hcall
      exact h.closed.back _
    · next fd s' hopen =>
      cases hcall
      exact (h.opened hopen).goto fun a => Iff.rfl
  case h_3 c inFd outFd hp =>
    rw [hp] at h
    cases hcall
    exact holds_launch h c ok
  case h_4 p hp =>
    rw [hp] at h
    split at hcall
    · cases hcall
      exact h.back _
    · next fd s' hopen =>
      cases hcall
      refine (h.opened hopen).goto fun a => ?_
      rw [held_opening]
      exact Iff.rfl
  case h_5 p inFd hp =>
    rw [hp] at h
    split at hcall
    · cases hcall
      exact h.closed.back _
    · next out s' hopen =>
      cases hcall
      refine (h.opened hopen).goto fun a => ?_
      rw [held_piping]
      simp [flat,Phase.held,or_comm]
  case h_6 p inFd outFd ps hp =>
    rw [hp] at h
    split at hcall
    · cases hcall
      exact h.closed.back _
    · next q s' hpipe =>
      cases hcall
      obtain ⟨⟨r,u⟩,hr,hmap⟩ := Option.bind_eq_some_iff.mp hpipe
      obtain ⟨⟨w,v⟩,hw,heq⟩ := Option.map_eq_some_iff.mp hmap
      cases heq
      refine ((h.opened hr).opened hw).goto fun a => ?_
      rw [held_piping]
      simp only [flat,Phase.held,List.flatMap_append,List.mem_append,List.mem_cons,List.flatMap_cons,List.flatMap_nil,
        List.append_nil,List.not_mem_nil,or_false]
      tauto
  case h_7 p inFd outFd ps tids hp =>
    rw [hp] at h
    cases hcall
    exact holds_stage h p tids ok
  case h_8 => cases hcall

lemma holds_waited (h : Holds s []) (failed : Bool) (left : ℕ) (code : ℤ) :
    Holds (s.waited failed left code) (s.waited failed left code).phase.held := by
  unfold Shell.waited
  split
  · exact h.back _
  · exact h.goto fun a => Iff.rfl

lemma holds_wait {s t : Shell} (h : Holds s s.phase.held) (hwait : s.wait = some t) : Holds t t.phase.held := by
  unfold Shell.wait at hwait
  split at hwait
  · next failed left last hp =>
    rw [hp] at h
    split at hwait
    · cases hwait
      refine holds_waited ?_ _ _ _
      exact h.of_eq rfl rfl
    · split at hwait
      · cases hwait
        exact holds_waited h _ _ _
      · cases hwait
  · cases hwait

lemma holds_step {s t : Shell} {e : Event} {r : Unit} (h : Holds s s.phase.held) (hstep : s.step e = some (r,t)) :
    Holds t t.phase.held := by
  cases e with
  | line text ok =>
    simp only [Shell.step] at hstep
    split at hstep
    · cases hstep
      exact holds_read s text ok
    · cases hstep
  | call ok =>
    obtain ⟨u,hu,heq⟩ := Option.map_eq_some_iff.mp hstep
    cases heq
    exact holds_call h hu
  | wait =>
    obtain ⟨u,hu,heq⟩ := Option.map_eq_some_iff.mp hstep
    cases heq
    exact holds_wait h hu
  | exit tid code =>
    simp only [Shell.step] at hstep
    split at hstep
    · cases hstep
      exact ⟨h.fds,h.free⟩
    · cases hstep
  | other =>
    cases hstep
    exact ⟨h.fds,h.free⟩

lemma holds_run {s₀ s : Shell} {P : Shell → Event → Prop} {es : List Event} (h : s₀.Starts)
    (hrun : Runs Shell.step P s₀ es s) : Holds s s.phase.held := by
  refine hrun.invariant (I := fun s => Holds s s.phase.held) (fun _ _ _ _ hs _ now => holds_step hs now) ?_
  rw [h.prompt]
  refine ⟨fun fd => ?_,fun fd hfd => by cases hfd⟩
  simp [h.before,Phase.held]

end VibeOS.Sh

import VibeOS.Threads.Wakeups

/-! A sleeper is woken when its time comes, unless another thread came between its test and its
sleep. -/
namespace VibeOS.Threads.Wakeups
open Bool
open VibeOS.Userfs (pipeBufSize)

variable {s s' : Sys} {i j k p q : ℕ} {t : Thread} {pc pc' : Pc} {target : Option ℕ} {todo : List ℕ}

/-- Of the children that the filter asks for, those that exited are still to be looked at, or on
their way to their parent. -/
def Came (s : Sys) (i : ℕ) (target : Option ℕ) (todo : List ℕ) : Prop :=
  ∀ c ∈ s.all, s.isChild i target c = true → (s.th c).exited = true → c ∈ todo ∨ exiting (s.th c).pc = true

/-- What a thread has seen of its children on its way to WAITING. -/
def Looks (s : Sys) (i : ℕ) : Pc → Prop
  | .scan target nohang todo _ => nohang = false → Came s i target todo
  | .enter target => Came s i target []
  | _ => True

structure Waits (s : Sys) : Prop where
  looks : ∀ i, Looks s i (s.th i).pc
  waiting : ∀ i target, (s.th i).waiting = some target → Came s i target []

lemma isChild_iff {c : ℕ} : s.isChild i target c = true ↔ (s.th c).parent = some i ∧ matchesFilter target c = true := by
  unfold Sys.isChild
  rw [and_eq_true,beq_iff_eq]

lemma Came.mono (h : Came s i target todo) (hc : ∀ c ∈ s'.all, c ∈ s.all ∧ ((s'.th c).parent = some i → (s.th c).parent = some i) ∧
    ((s'.th c).exited = true → (s.th c).exited = true ∨ exiting (s'.th c).pc = true) ∧
    (exiting (s.th c).pc = true → exiting (s'.th c).pc = true)) : Came s' i target todo := by
  intro c hmem hchild hex
  obtain ⟨h₁,h₂,h₃,h₄⟩ := hc c hmem
  rw [isChild_iff] at hchild
  rcases h₃ hex with hold | hnew
  · exact (h c h₁ (isChild_iff.mpr ⟨h₂ hchild.1,hchild.2⟩) hold).imp_right h₄
  · exact .inr hnew

lemma Looks.mono (h : Looks s i pc) (hcame : ∀ target todo, Came s i target todo → Came s' i target todo) : Looks s' i pc := by
  cases pc with
  | scan target nohang todo found => exact fun hn => hcame target todo (h hn)
  | enter target => exact hcame target [] h
  | _ => trivial

lemma Waits.fades (h : Waits s) (hf : Fades s s') : Waits s' := by
  have hcame : ∀ k target todo, Came s k target todo → Came s' k target todo := fun k target todo hk =>
    hk.mono fun c hc => ⟨hf.all c hc,hf.parent c k,fun he => .inl (hf.exited c ▸ he),fun he => by rw [hf.pc]; exact he⟩
  refine ⟨fun k => ?_,fun k target hk => ?_⟩
  · rw [hf.pc]
    exact (h.looks k).mono (hcame k)
  · rcases hf.waiting k with heq | hnone
    · exact hcame k target [] (h.waiting k target (heq ▸ hk))
    · rw [hnone] at hk
      cases hk

lemma Waits.setPipe (h : Waits s) (p : ℕ) (v : Pipe) : Waits (s.setPipe p v) :=
  ⟨fun k => (h.looks k).mono fun _ _ => id,h.waiting⟩

lemma Waits.set (h : Waits s) (hparent : t.parent = (s.th i).parent)
    (hexited : t.exited = true → (s.th i).exited = true ∨ exiting t.pc = true)
    (hexiting : exiting (s.th i).pc = true → exiting t.pc = true) (hlooks : Looks s i t.pc)
    (hwaiting : ∀ target, t.waiting = some target → Came s i target []) : Waits (s.set i t) := by
  have hcame : ∀ k target todo, Came s k target todo → Came (s.set i t) k target todo := fun k target todo hk =>
    hk.mono fun c hc => by
      rcases eq_or_ne c i with rfl | hne
      · rw [th_set_self,hparent]
        exact ⟨hc,id,hexited,hexiting⟩
      · rw [th_set_of_ne hne]
        exact ⟨hc,id,.inl,id⟩
  refine ⟨fun k => ?_,fun k target hk => ?_⟩
  · rcases eq_or_ne k i with rfl | hne
    · rw [th_set_self]
      exact hlooks.mono (hcame k)
    · rw [th_set_of_ne hne]
      exact (h.looks k).mono (hcame k)
  · rcases eq_or_ne k i with rfl | hne
    · rw [th_set_self] at hk
      exact hcame k target [] (hwaiting target hk)
    · rw [th_set_of_ne hne] at hk
      exact hcame k target [] (h.waiting k target hk)

lemma Waits.arrive (h : Waits s)
    (hparent : ∀ k, (s.th i).parent = some k → (s.th k).waiting = none ∧ overlooks i (s.th k).pc = false) :
    Waits (s.goTo i .done) := by
  have hcame : ∀ k target todo, ((s.th i).parent = some k → matchesFilter target i = true → i ∈ todo) → Came s k target todo →
      Came (s.goTo i .done) k target todo := by
    intro k target todo hi hk c hc hchild hex
    rw [isChild_iff,(th_goTo c).2.2.2] at hchild
    rw [(th_goTo c).2.2.1] at hex
    rcases eq_or_ne c i with rfl | hne
    · exact .inl (hi hchild.1 hchild.2)
    · rw [th_goTo_of_ne hne]
      exact hk c hc (isChild_iff.mpr hchild) hex
  refine ⟨fun k => ?_,fun k target hk => ?_⟩
  · rcases eq_or_ne k i with rfl | hne
    · rw [pc_goTo_self]
      trivial
    · rw [th_goTo_of_ne hne]
      have hlooks := h.looks k
      have hover : (s.th i).parent = some k → overlooks i (s.th k).pc = false := fun hp => (hparent k hp).2
      generalize (s.th k).pc = pc at *
      cases pc with
      | scan target nohang todo found =>
        intro hn
        refine hcame k target todo (fun hp hm => ?_) (hlooks hn)
        have hno := hover hp
        simp only [overlooks] at hno
        rw [hn,hm] at hno
        simpa using hno
      | enter target =>
        refine hcame k target [] (fun hp hm => ?_) hlooks
        have hno := hover hp
        simp only [overlooks] at hno
        rw [hm] at hno
        cases hno
      | _ => trivial
  · rw [(th_goTo k).2.1] at hk
    refine hcame k target [] (fun hp _ => ?_) (h.waiting k target hk)
    rw [(hparent k hp).1] at hk
    cases hk

structure Inv (s : Sys) : Prop where
  listed : Listed s
  pipes : Pipes s
  waits : Waits s

lemma Inv.fades (h : Inv s) (hf : Fades s s') : Inv s' := ⟨h.listed.fades hf,h.pipes.fades hf,h.waits.fades hf⟩

lemma awake (h : Inv s) (hidle : ∀ i ∈ s.all, busy (s.th i) = false) : Awake s := by
  have hbusy : ∀ j, busy (s.th j) = false → (∀ p, promised s.pipe (s.th j).pc ≠ some p) ∧ exiting (s.th j).pc = false := by
    intro j hj
    unfold busy at hj
    generalize (s.th j).pc = pc at *
    cases pc <;> first
      | contradiction
      | exact ⟨nofun,rfl⟩
  refine ⟨fun i p reading hi => ?_,fun i target hi c hc hchild => ?_⟩
  · rcases h.pipes p with ⟨j,hj⟩ | hall
    · have hmem : j ∈ s.all := by
        refine (h.listed.running ?_ fun heq => ?_).2
        · generalize (s.th j).pc = pc at *
          cases pc <;> first
            | rfl
            | cases hj
        · rw [heq] at hj
          cases hj
      exact absurd hj ((hbusy j (hidle j hmem)).1 p)
    · exact (hall i).blocked reading hi
  · by_contra hno
    rw [not_eq_false] at hno
    rcases h.waits.waiting i target hi c hc hchild hno with hmem | hexit
    · cases hmem
    · rw [(hbusy c (hidle c hc)).2] at hexit
      cases hexit

lemma looks_of_not {c : ℕ} (h : Came s i target (c :: todo)) (hc : ¬ (c ∈ s.all ∧ s.isChild i target c = true ∧ (s.th c).exited = true)) :
    Came s i target todo := fun c' hmem hchild hex => by
  rcases h c' hmem hchild hex with htodo | hexit
  · rcases List.mem_cons.mp htodo with rfl | htodo
    · exact absurd ⟨hmem,hchild,hex⟩ hc
    · exact .inl htodo
  · exact .inr hexit

lemma Inv.goTo (h : Inv s) (hpc : (s.th i).pc = pc) (hgone : gone pc = false) (hidle : pc ≠ .idle) (hgone' : gone pc' = false)
    (hpromise : promised s.pipe pc = none) (hsees : ∀ p, sees (s.pipe p) p pc = true → sees (s.pipe p) p pc' = true)
    (hlooks : Looks s i pc → Looks s i pc') : Inv (s.goTo i pc') := by
  obtain ⟨hex,hmem⟩ := h.listed.running (hpc ▸ hgone) (hpc ▸ hidle)
  have hexiting : exiting pc = false := by cases pc <;> first | rfl | cases hgone
  refine ⟨h.listed.set (.goTo hex hgone' hmem),h.pipes.set (hpc ▸ hpromise) fun p hfine => ?_,?_⟩
  · exact ⟨hfine.blocked,hsees p (hpc ▸ hfine.sees)⟩
  · refine h.waits.set rfl .inl (fun he => ?_) (hlooks (hpc ▸ h.waits.looks i)) fun target => h.waits.waiting i target
    rw [hpc,hexiting] at he
    cases he

lemma Inv.leave (h : Inv s) (hgone : gone (s.th i).pc = true) (hgone' : gone pc = true) (hexiting : exiting pc = true)
    (hpromise : promised s.pipe (s.th i).pc = none) (hsees : ∀ p, sees (s.pipe p) p pc = true) (hlooks : Looks s i pc) :
    Inv (s.goTo i pc) := by
  have hproper := h.listed i
  refine ⟨h.listed.set ⟨?_,fun _ => hproper.asleep (.inl hgone),fun _ => .inl hgone'⟩,
    h.pipes.set hpromise fun p hfine => ⟨hfine.blocked,hsees p⟩,
    h.waits.set rfl .inl (fun _ => hexiting) hlooks fun target => h.waits.waiting i target⟩
  exact hproper.exited.trans (hgone.trans hgone'.symm)

lemma Inv.finish (h : Inv s) (hgone : gone (s.th i).pc = true) (hpromise : promised s.pipe (s.th i).pc = none)
    (hparent : ∀ k, (s.th i).parent = some k → (s.th k).waiting = none ∧ overlooks i (s.th k).pc = false) :
    Inv (s.goTo i .done) := by
  have hproper := h.listed i
  refine ⟨h.listed.set ⟨?_,fun _ => hproper.asleep (.inl hgone),fun _ => .inl rfl⟩,
    h.pipes.set hpromise fun p hfine => ⟨hfine.blocked,rfl⟩,h.waits.arrive hparent⟩
  exact hproper.exited.trans hgone

lemma Inv.wakeGoTo (h : Inv s) (hpc : (s.th i).pc = pc) (hgone : gone pc = false) (hidle : pc ≠ .idle) (hgone' : gone pc' = false)
    (hpromise : promised s.pipe pc = some p) (ok : ∀ k ∈ s.all, sees (s.pipe p) p (s.th k).pc = true)
    (hsees : ∀ q, sees (s.pipe q) q pc' = true) (hlooks : ∀ s, Looks s i pc') : Inv ((s.wake p).goTo i pc') := by
  have hf := fades_wake s p
  obtain ⟨hex,hmem⟩ := h.listed.running (hpc ▸ hgone) (hpc ▸ hidle)
  have hexiting : exiting pc = false := by cases pc <;> first | rfl | cases hgone
  refine ⟨(h.listed.fades hf).set (.goTo ((hf.exited i).trans hex) hgone' hmem),
    h.pipes.wakeGoTo h.listed (hpc ▸ hpromise) ok hsees,?_⟩
  refine (h.waits.fades hf).set rfl .inl (fun he => ?_) (hlooks _) fun target => (h.waits.fades hf).waiting i target
  rw [hf.pc,hpc,hexiting] at he
  cases he

lemma Inv.change (h : Inv s) (hmem : i ∈ s.all) (hgone : gone (s.th i).pc = false) {v : Pipe}
    (hw : (s.pipe p).wRefs = 0 → v.wRefs = 0) (hr : (s.pipe p).rRefs = 0 → v.rRefs = 0)
    (hpromise : promised s.pipe (s.th i).pc = none) (hgone' : gone pc' = false) (hsees : ∀ v q, sees v q pc' = true)
    (hlooks : ∀ s, Looks s i pc') (howed : promised (s.setPipe p v).pipe pc' = some p ∨ ∀ t, Fine (s.pipe p) p t → Fine v p t) :
    Inv ((s.setPipe p v).goTo i pc') := by
  have hexiting : exiting (s.th i).pc = false := by
    generalize (s.th i).pc = pc at *
    cases pc <;> first | rfl | cases hgone
  have hl : Listed (s.setPipe p v) := h.listed
  have hex : (s.th i).exited = false := (h.listed i).exited.trans hgone
  refine ⟨hl.set (.goTo hex hgone' hmem),h.pipes.change hw hr hpromise hsees howed,?_⟩
  refine (h.waits.setPipe p v).set rfl .inl (fun he => ?_) (hlooks _) fun target => h.waits.waiting i target
  have he : exiting (s.th i).pc = true := he
  rw [hexiting] at he
  cases he

lemma unless_of {b : Bool} (h : q = p → b = true) : (q != p || b) = true := by
  rcases eq_or_ne q p with heq | hne
  · rw [h heq,Bool.or_true]
  · rw [bne_iff_ne.mpr hne,Bool.true_or]

lemma of_unless {b : Bool} (h : (q != p || b) = true) (heq : q = p) : b = true := by
  rw [heq,bne_self_eq_false,Bool.false_or] at h
  exact h

lemma starves_of_refs {v w : Pipe} (hcount : w.count = v.count) (hw : 0 < v.wRefs → 0 < w.wRefs) (hr : 0 < v.rRefs → 0 < w.rRefs)
    {reading : Bool} (h : v.starves reading = true) : w.starves reading = true := by
  unfold Pipe.starves at *
  rw [hcount]
  cases reading with
  | true =>
    simp only [if_true,and_eq_true,decide_eq_true_eq] at *
    exact ⟨h.1,hw h.2⟩
  | false =>
    simp only [false_eq_true,if_false,and_eq_true,decide_eq_true_eq] at *
    exact ⟨h.1,hr h.2⟩

lemma Fine.of_refs {v w : Pipe} (hcount : w.count = v.count) (hw : 0 < v.wRefs → 0 < w.wRefs) (hr : 0 < v.rRefs → 0 < w.rRefs)
    (h : Fine v p t) : Fine w p t := by
  refine ⟨fun reading hb => starves_of_refs hcount hw hr (h.blocked reading hb),?_⟩
  have hsees := h.sees
  generalize t.pc = pc at *
  cases pc with
  | rRefs q len => exact unless_of fun heq => by rw [hcount]; exact of_unless hsees heq
  | rBlock q len | wBlock q left => exact unless_of fun heq => starves_of_refs hcount hw hr (of_unless hsees heq)
  | wFull q left => exact unless_of fun heq => decide_eq_true (hr (of_decide_eq_true (of_unless hsees heq)))
  | _ => rfl

lemma call_kept (h : Inv s) {c : Call} (hmem : i ∈ s.all) (hi : (s.th i).pc = .idle) : Inv (s.call i c) := by
  have hgone : gone (s.th i).pc = false := by
    rw [hi]
    rfl
  have hpromise : promised s.pipe (s.th i).pc = none := by
    rw [hi]
    rfl
  have hex : (s.th i).exited = false := (h.listed i).exited.trans hgone
  have hmove {pc : Pc} (hgone' : gone pc = false) (hsees : ∀ p, sees (s.pipe p) p pc = true) (hlooks : Looks s i pc) :
      Inv (s.goTo i pc) := by
    refine ⟨h.listed.set (.goTo hex hgone' hmem),h.pipes.set hpromise fun p hfine => ⟨hfine.blocked,hsees p⟩,?_⟩
    refine h.waits.set rfl .inl (fun he => ?_) hlooks fun target => h.waits.waiting i target
    rw [hi] at he
    cases he
  cases c with
  | read p len | write p len =>
    unfold Sys.call
    dsimp only
    split <;> exact hmove rfl (fun _ => rfl) trivial
  | waitpid target nohang => exact hmove rfl (fun _ => rfl) fun _ c hc _ _ => .inl hc
  | exit => exact hmove rfl (fun _ => rfl) trivial
  | unref p writing =>
    cases writing with
    | true =>
      refine h.change hmem hgone (fun hz => ?_) id hpromise rfl (fun _ _ => rfl) (fun _ => trivial) ?_
      · dsimp only
        omega
      · rcases Nat.lt_or_ge 1 (s.pipe p).wRefs with hlt | hle
        · exact .inr fun t => Fine.of_refs (v := s.pipe p) rfl (fun _ => Nat.sub_pos_of_lt hlt) id
        · left
          have hself : (s.setPipe p { s.pipe p with wRefs := (s.pipe p).wRefs - 1 }).pipe p = _ := Function.update_self ..
          simp only [promised,if_true]
          rw [hself]
          exact if_pos (Nat.sub_eq_zero_of_le hle)
    | false =>
      refine h.change hmem hgone id (fun hz => ?_) hpromise rfl (fun _ _ => rfl) (fun _ => trivial) ?_
      · dsimp only
        omega
      · rcases Nat.lt_or_ge 1 (s.pipe p).rRefs with hlt | hle
        · exact .inr fun t => Fine.of_refs (v := s.pipe p) rfl id fun _ => Nat.sub_pos_of_lt hlt
        · left
          have hself : (s.setPipe p { s.pipe p with rRefs := (s.pipe p).rRefs - 1 }).pipe p = _ := Function.update_self ..
          simp only [promised,false_eq_true,if_false]
          rw [hself]
          exact if_pos (Nat.sub_eq_zero_of_le hle)

lemma Inv.block (h : Inv s) (hpc : (s.th i).pc = pc) (hgone : gone pc = false) (hidle : pc ≠ .idle) (hgone' : gone pc' = false)
    (hpromise : promised s.pipe pc = none) (hsees : ∀ q, sees (s.pipe q) q pc' = true) {reading : Bool}
    (htest : sees (s.pipe p) p pc = true → (s.pipe p).starves reading = true) (hlooks : Looks s i pc') :
    Inv (s.set i { s.th i with pc := pc',blocked := some (p,reading),waiting := none }) := by
  obtain ⟨hex,hmem⟩ := h.listed.running (hpc ▸ hgone) (hpc ▸ hidle)
  have hexiting : exiting pc = false := by cases pc <;> first | rfl | cases hgone
  refine ⟨h.listed.set (Thread.Proper.of_running (by exact hex) (by exact hgone') hmem),h.pipes.set (hpc ▸ hpromise) fun q hfine => ⟨fun r hr => ?_,hsees q⟩,?_⟩
  · cases hr
    exact htest (hpc ▸ hfine.sees)
  · refine h.waits.set rfl .inl (fun he => ?_) hlooks nofun
    rw [hpc,hexiting] at he
    cases he

lemma run_kept (h : Inv s) {early : Bool} (ok : Undisturbed s (.run i early)) (now : s.run i early = some s') : Inv s' := by
  unfold Undisturbed undisturbed at ok
  rw [and_eq_true,and_eq_true] at ok
  obtain ⟨⟨hwake,-⟩,harrive⟩ := ok
  have hwake' : ∀ p, promised s.pipe (s.th i).pc = some p → ∀ k ∈ s.all, sees (s.pipe p) p (s.th k).pc = true := fun p hp => by
    rw [hp] at hwake
    exact List.all_eq_true.mp hwake
  unfold Sys.run at now
  cases hpc : (s.th i).pc with
  | idle | done =>
    simp only [hpc] at now
    cases now
  | rTest p len =>
    simp only [hpc] at now
    cases now
    split
    · next hzero => exact h.goTo hpc rfl nofun rfl rfl (fun q _ => unless_of fun heq => heq ▸ beq_iff_eq.mpr hzero) fun _ => trivial
    · exact h.goTo hpc rfl nofun rfl rfl (fun _ _ => rfl) fun _ => trivial
  | rRefs p len =>
    simp only [hpc] at now
    cases now
    split
    · exact h.goTo hpc rfl nofun rfl rfl (fun _ _ => rfl) fun _ => trivial
    · next hrefs =>
      refine h.goTo hpc rfl nofun rfl rfl (fun q hq => unless_of fun heq => ?_) fun _ => trivial
      subst heq
      exact Bool.and_eq_true_iff.mpr ⟨of_unless hq rfl,decide_eq_true (Nat.pos_of_ne_zero hrefs)⟩
  | rBlock p len | wBlock p left =>
    simp only [hpc] at now
    cases now
    exact h.block hpc rfl nofun rfl rfl (fun _ => rfl) (fun hs => of_unless hs rfl) trivial
  | rYield p len | wYield p left =>
    simp only [hpc] at now
    split at now
    · cases now
    · cases now
      exact h.goTo hpc rfl nofun rfl rfl (fun _ _ => rfl) fun _ => trivial
  | rAgain p len | rSig p len =>
    simp only [hpc] at now
    cases now
    split <;> exact h.goTo hpc rfl nofun rfl rfl (fun _ _ => rfl) fun _ => trivial
  | rLen p len | wCan p left =>
    simp only [hpc] at now
    cases now
    exact h.goTo hpc rfl nofun rfl rfl (fun _ _ => rfl) fun _ => trivial
  | rCount p n | wCount p left want =>
    simp only [hpc] at now
    cases now
    refine h.change (h.listed.running (by rw [hpc]; rfl) (by rw [hpc]; nofun)).2 (by rw [hpc]; rfl) id id (by rw [hpc]; rfl) rfl
      (fun _ _ => rfl) (fun _ => trivial) (.inl rfl)
  | rWake p | wWake p left =>
    simp only [hpc] at now
    cases now
    exact h.wakeGoTo hpc rfl nofun rfl rfl (hwake' p (by rw [hpc]; rfl)) (fun _ => rfl) fun _ => trivial
  | wTest p left =>
    simp only [hpc] at now
    cases now
    split
    · exact h.goTo hpc rfl nofun rfl rfl (fun _ _ => rfl) fun _ => trivial
    · next hrefs =>
      refine h.goTo hpc rfl nofun rfl rfl (fun q _ => unless_of fun heq => ?_) fun _ => trivial
      subst heq
      exact decide_eq_true (Nat.pos_of_ne_zero fun hz => hrefs (.inr hz))
  | wFull p left =>
    simp only [hpc] at now
    cases now
    split
    · next hfull =>
      refine h.goTo hpc rfl nofun rfl rfl (fun q hq => unless_of fun heq => ?_) fun _ => trivial
      subst heq
      exact Bool.and_eq_true_iff.mpr ⟨beq_iff_eq.mpr hfull,of_unless hq rfl⟩
    · exact h.goTo hpc rfl nofun rfl rfl (fun _ _ => rfl) fun _ => trivial
  | uTest p writing =>
    simp only [hpc] at now
    cases now
    by_cases hrefs : (if writing then (s.pipe p).wRefs else (s.pipe p).rRefs) = 0
    · have hpromise : promised s.pipe (.uTest p writing) = some p := if_pos hrefs
      rw [if_pos hrefs]
      exact h.wakeGoTo hpc rfl nofun rfl hpromise (hwake' p (by rw [hpc]; exact hpromise)) (fun _ => rfl) fun _ => trivial
    · have hpromise : promised s.pipe (.uTest p writing) = none := if_neg hrefs
      rw [if_neg hrefs]
      exact h.goTo hpc rfl nofun rfl hpromise (fun _ _ => rfl) fun _ => trivial
  | scan target nohang todo found =>
    cases todo with
    | nil =>
      simp only [hpc] at now
      cases now
      split
      · exact h.goTo hpc rfl nofun rfl rfl (fun _ _ => rfl) fun _ => trivial
      · next hblock =>
        have hnohang : nohang = false := by
          cases nohang with
          | false => rfl
          | true => exact absurd (Bool.or_true _) hblock
        exact h.goTo hpc rfl nofun rfl rfl (fun _ _ => rfl) fun hlooks => hlooks hnohang
    | cons c todo =>
      simp only [hpc] at now
      split at now
      · next hchild =>
        split at now
        · next hex =>
          cases now
          exact (h.fades (fades_remove hex)).goTo hpc rfl nofun rfl rfl (fun _ _ => rfl) fun _ => trivial
        · next hex =>
          cases now
          exact h.goTo hpc rfl nofun rfl rfl (fun _ _ => rfl) fun hlooks hn => looks_of_not (hlooks hn) fun hc => hex hc.2.2
      · next hchild =>
        cases now
        exact h.goTo hpc rfl nofun rfl rfl (fun _ _ => rfl) fun hlooks hn => looks_of_not (hlooks hn) fun hc => hchild ⟨hc.1,hc.2.1⟩
  | enter target =>
    simp only [hpc] at now
    cases now
    obtain ⟨hex,hmem⟩ := h.listed.running (by rw [hpc]; rfl) (by rw [hpc]; nofun)
    have hlooks := h.waits.looks i
    rw [hpc] at hlooks
    refine ⟨h.listed.set (Thread.Proper.of_running (by exact hex) (by rfl) hmem),h.pipes.set (by rw [hpc]; rfl) fun q _ => ⟨nofun,rfl⟩,?_⟩
    refine h.waits.set rfl .inl (fun he => ?_) trivial fun target' ht => ?_
    · rw [hpc] at he
      cases he
    · cases ht
      exact hlooks
  | waitYield target =>
    simp only [hpc] at now
    split at now
    · cases now
    · cases now
      exact h.goTo hpc rfl nofun rfl rfl (fun _ _ => rfl) fun _ _ c hc _ _ => .inl hc
  | eMark =>
    simp only [hpc] at now
    cases now
    refine ⟨h.listed.set ⟨rfl,fun _ => ⟨rfl,rfl⟩,fun _ => .inl rfl⟩,h.pipes.set (by rw [hpc]; rfl) fun q _ => ⟨nofun,rfl⟩,?_⟩
    exact h.waits.set rfl (fun _ => .inr rfl) (fun _ => rfl) trivial nofun
  | eSweep todo =>
    cases todo with
    | nil =>
      simp only [hpc] at now
      cases now
      exact h.leave (by rw [hpc]; rfl) rfl rfl (by rw [hpc]; rfl) (fun _ => rfl) trivial
    | cons c todo =>
      simp only [hpc] at now
      cases now
      have hf := fades_sweep s i c
      exact (h.fades hf).leave (by rw [hf.pc,hpc]; rfl) rfl rfl (by rw [hf.pc,hpc]; rfl) (fun _ => rfl) trivial
  | eSignal =>
    simp only [hpc] at now
    have hgone : gone (s.th i).pc = true := by
      rw [hpc]
      rfl
    split at now
    · next hnone =>
      cases now
      have hf := fades_remove ((h.listed i).exited.trans hgone)
      refine (h.fades hf).finish hgone (by rw [hf.pc,hpc]; rfl) fun k hk => ?_
      rw [hf.parent i k hk] at hnone
      cases hnone
    · next p hp =>
      cases now
      have hf := fades_signal s p
      exact (h.fades hf).leave (by rw [hf.pc,hpc]; rfl) rfl rfl (by rw [hf.pc,hpc]; rfl) (fun _ => rfl) trivial
  | eWake =>
    simp only [hpc] at now harrive
    split at now
    · next hnone =>
      cases now
      refine h.finish (by rw [hpc]; rfl) (by rw [hpc]; rfl) fun k hk => ?_
      rw [hnone] at hk
      cases hk
    · next p hp =>
      cases now
      have hf := fades_wakeParent s p
      refine (h.fades hf).finish (by rw [hf.pc,hpc]; rfl) (by rw [hf.pc,hpc]; rfl) fun k hk => ?_
      have hkp : k = p := by
        have hold := hf.parent i k hk
        rw [hp] at hold
        exact (Option.some_inj.mp hold).symm
      subst hkp
      refine ⟨?_,?_⟩
      · unfold Sys.wakeParent
        split
        · rw [th_set_self]
        · next hno => exact ((h.listed k).asleep (.inr hno)).2
      · rw [hf.pc]
        rw [hp] at harrive
        simpa using harrive

lemma Inv.turn (h : Inv s) (current : ℕ) (resumed : ℕ → Bool) : Inv { s with current := current,resumed := resumed } :=
  ⟨h.listed,h.pipes,⟨fun k => (h.waits.looks k).mono fun _ _ => id,h.waits.waiting⟩⟩

lemma step_kept (h : Inv s) {e : Event} {r : Unit} (ok : Undisturbed s e) (now : s.step e = some (r,s')) : Inv s' := by
  cases e with
  | call i c =>
    unfold Sys.step at now
    dsimp only at now
    split at now
    · next hidle =>
      split at now
      · next hmem =>
        cases now
        exact (call_kept h hmem.1 hidle).turn _ _
      · cases now
    · cases now
  | run i early =>
    unfold Sys.step at now
    dsimp only at now
    split at now
    · obtain ⟨s'',hrun,heq⟩ := Option.map_eq_some_iff.mp now
      cases heq
      exact (run_kept h ok hrun).turn _ _
    · cases now
  | signal i =>
    cases now
    exact h.fades (fades_signal s i)

lemma Inv.initial (pipe : ℕ → Pipe) (parent : ℕ → Option ℕ) (all : List ℕ) (current : ℕ) :
    Inv (Sys.initial pipe parent all current) where
  listed _ := ⟨rfl,fun _ => ⟨rfl,rfl⟩,fun _ => .inr rfl⟩
  pipes _ := .inr fun _ => ⟨nofun,rfl⟩
  waits := ⟨fun _ => trivial,nofun⟩

def steps (i n : ℕ) : List Event := List.replicate n (.run i false)

def onePipe (all : List ℕ) (parent : ℕ → Option ℕ) : Sys := .initial (fun _ => ⟨0,1,1⟩) parent all 1

/-- Thread 1 reads the byte that its child 2 writes, and waits for the child to exit. -/
def handover : List Event :=
  [.call 1 (.read 0 1)] ++ steps 1 3 ++ [.call 2 (.write 0 1)] ++ steps 2 6 ++ steps 1 6 ++ [.call 1 (.waitpid none false)] ++
    steps 1 4 ++ [.call 2 .exit] ++ steps 2 6 ++ steps 1 3 ++ [.call 1 (.read 0 1)] ++ steps 1 3

/-- Two readers sleep on an empty pipe; one of them gets the byte, and the other one is preempted
between its test and the change to BLOCKED while the next byte is written. -/
def preempted : List Event :=
  [.call 1 (.read 0 1)] ++ steps 1 3 ++ [.call 3 (.read 0 1)] ++ steps 3 3 ++ [.call 2 (.write 0 1)] ++ steps 2 6 ++
    steps 3 6 ++ steps 1 5 ++ [.call 2 (.write 0 1)] ++ steps 2 6 ++ steps 1 1

end VibeOS.Threads.Wakeups

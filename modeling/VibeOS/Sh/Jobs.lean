import VibeOS.Sh.Descriptors

/-! What a session of the shell keeps of its commands: who has exited when the prompt comes back, what
`$?` is then, and who was waited for. -/
namespace VibeOS.Sh
open Function List Option

/-- At the prompt every stage of the command in the foreground has exited, `$?` is the code of the last
one, and the descriptors are those from before. No `wait` has returned a child from the background, and
one that exited is not there any more when the prompt has been shown a second time. -/
structure Accounted (s : Shell) : Prop where
  finished : s.phase = .prompt → ∀ t, some t ∈ s.job → s.codes t ≠ none
  status : s.phase = .prompt → ∀ t, s.job.getLast? = some (some t) → s.codes t = some s.status
  missing : s.phase = .prompt → s.job.getLast? = some none → s.status = 127
  apart : ∀ t ∈ s.reaped, t ∉ s.bgs
  swept : ∀ c ∈ s.children, c.tid ∈ s.bgs → c.exited ≠ none → s.prompts ≤ s.exitedAt c.tid + 1
  descriptors : s.phase = .prompt → s.fds = s.before

/-- The next spawn is of the last stage, and another one could not be spawned. -/
def Phase.broken : Phase → Bool
  | .stages p _ _ _ tids => !p.bg && decide (p.segs.length ≤ tids.length + 1) && tids.any isNone
  | _ => false

/-- No child from the background exits, the last stage of the command in the foreground exits only after
the others were waited for, and in a pipeline it is not spawned where another stage could not be. -/
def Orderly (s : Shell) : Event → Prop
  | .exit tid _ => tid ∉ s.bgs ∧
      (s.job.getLast? = some (some tid) → ∀ c ∈ s.children, c.tid ∉ s.bgs → c.tid = tid)
  | .call ok => s.phase.broken = true → ok = false
  | _ => True

instance (s : Shell) : (e : Event) → Decidable (Orderly s e)
  | .line _ _ => inferInstanceAs (Decidable True)
  | .call ok => inferInstanceAs (Decidable (s.phase.broken = true → ok = false))
  | .wait => inferInstanceAs (Decidable True)
  | .exit tid _ => inferInstanceAs (Decidable (tid ∉ s.bgs ∧
      (s.job.getLast? = some (some tid) → ∀ c ∈ s.children, c.tid ∉ s.bgs → c.tid = tid)))
  | .other => inferInstanceAs (Decidable True)

lemma countP_remove {l : List Child} (h : (l.map Child.tid).Nodup) {c : Child} (hc : c ∈ l) {p : Child → Bool}
    (hp : p c = true) : l.countP p = (l.filter (·.tid ≠ c.tid)).countP p + 1 := by
  induction l with
  | nil => cases hc
  | cons a l ih =>
    obtain ⟨hfirst,hrest⟩ := List.nodup_cons.mp h
    obtain rfl | hc := List.mem_cons.mp hc
    · have hall : l.filter (·.tid ≠ c.tid) = l := by
        refine List.filter_eq_self.mpr fun b hb => decide_eq_true fun heq => hfirst ?_
        rw [← heq]
        exact List.mem_map_of_mem hb
      rw [countP_cons_of_pos hp,filter_cons_of_neg (by simp),hall]
    · have hne : a.tid ≠ c.tid := fun heq => hfirst (heq ▸ List.mem_map_of_mem hc)
      rw [filter_cons_of_pos (by simpa using hne),countP_cons,countP_cons,ih hrest hc]
      omega

/-- The children that are not from the background are `n`, those from the background run, and each of
`tids` is still there or has exited. -/
structure Tracked (s : Shell) (n : ℕ) (tids : List (Option ℕ)) : Prop where
  nodup : (s.children.map Child.tid).Nodup
  fresh : ∀ c ∈ s.children, c.tid < s.made
  bgs : ∀ t ∈ s.bgs, t < s.made
  reaped : ∀ t ∈ s.reaped, t < s.made
  unborn : ∀ t, s.made ≤ t → s.codes t = none
  codes : ∀ c ∈ s.children, c.exited = s.codes c.tid
  running : ∀ c ∈ s.children, c.tid ∈ s.bgs → c.exited = none
  apart : ∀ t ∈ s.reaped, t ∉ s.bgs
  live : (s.children.countP fun c => decide (c.tid ∉ s.bgs)) = n
  stages : ∀ t, some t ∈ tids → t ∉ s.bgs ∧ (s.codes t = none → ∃ c ∈ s.children, c.tid = t)

namespace Tracked
variable {s t : Shell} {n : ℕ} {tids : List (Option ℕ)}

lemma of_eq (h : Tracked s n tids) (hchildren : t.children = s.children) (hmade : t.made = s.made)
    (hbgs : t.bgs = s.bgs) (hcodes : t.codes = s.codes) (hreaped : t.reaped = s.reaped) : Tracked t n tids := by
  obtain ⟨h₁,h₂,h₃,h₄,h₅,h₆,h₇,h₈,h₉,h₁₀⟩ := h
  constructor <;> simpa only [hchildren,hmade,hbgs,hcodes,hreaped]

lemma forget (h : Tracked s n tids) {l : List (Option ℕ)} (hl : ∀ t, some t ∈ l → some t ∈ tids) : Tracked s n l :=
  { h with stages := fun t ht => h.stages t (hl t ht) }

lemma closeAll (h : Tracked s n tids) (l : List ℕ) : Tracked (s.closeAll l) n tids := by
  rw [Shell.closeAll_eq]
  exact h.of_eq rfl rfl rfl rfl rfl

lemma spawned (h : Tracked s n tids) : Tracked s.spawned (n + 1) (tids ++ [some s.made]) := by
  have hbg : s.made ∉ s.bgs := fun hm => absurd (h.bgs _ hm) (lt_irrefl _)
  refine ⟨?_,fun c hc => ?_,fun t ht => ?_,fun t ht => ?_,fun t ht => ?_,fun c hc => ?_,fun c hc ht => ?_,h.apart,?_,fun t ht => ?_⟩
  · refine List.nodup_cons.mpr ⟨fun hm => ?_,h.nodup⟩
    obtain ⟨c,hc,htid⟩ := List.mem_map.mp hm
    have hlt := h.fresh c hc
    simp only at htid
    omega
  · obtain rfl | hc := List.mem_cons.mp hc
    · exact Nat.lt_succ_self _
    · exact Nat.lt_succ_of_lt (h.fresh c hc)
  · exact Nat.lt_succ_of_lt (h.bgs t ht)
  · exact Nat.lt_succ_of_lt (h.reaped t ht)
  · exact h.unborn t (Nat.le_of_succ_le ht)
  · obtain rfl | hc := List.mem_cons.mp hc
    · exact (h.unborn s.made le_rfl).symm
    · exact h.codes c hc
  · obtain rfl | hc := List.mem_cons.mp hc
    · rfl
    · exact h.running c hc ht
  · have hpos : (s.spawned.children.countP fun c => decide (c.tid ∉ s.bgs)) =
        (s.children.countP fun c => decide (c.tid ∉ s.bgs)) + 1 := countP_cons_of_pos (decide_eq_true hbg)
    exact hpos.trans (congrArg (· + 1) h.live)
  · obtain ht | ht := List.mem_append.mp ht
    · refine ⟨(h.stages t ht).1,fun hnone => ?_⟩
      obtain ⟨c,hc,htid⟩ := (h.stages t ht).2 hnone
      exact ⟨c,mem_cons_of_mem _ hc,htid⟩
    · obtain rfl : t = s.made := by simpa using ht
      exact ⟨hbg,fun _ => ⟨_,mem_cons_self,rfl⟩⟩

lemma backgrounded (h : Tracked s n []) : Tracked { s.spawned with bgs := s.made :: s.bgs } n [] := by
  have hne : ∀ c ∈ s.children, c.tid ≠ s.made := fun c hc => (h.fresh c hc).ne
  obtain ⟨h₁,h₂,h₃,h₄,h₅,h₆,h₇,h₈,h₉,-⟩ := h.spawned
  refine ⟨h₁,h₂,fun t ht => ?_,h₄,h₅,h₆,fun c hc ht => ?_,fun t ht hm => ?_,?_,fun t ht => by cases ht⟩
  · obtain rfl | ht := List.mem_cons.mp ht
    · exact Nat.lt_succ_self _
    · exact h₃ t ht
  · obtain rfl | hc := List.mem_cons.mp hc
    · rfl
    · obtain heq | ht := List.mem_cons.mp ht
      · exact absurd heq (hne c hc)
      · exact h.running c hc ht
  · obtain rfl | hm := List.mem_cons.mp hm
    · exact absurd (h.reaped _ ht) (lt_irrefl _)
    · exact h₈ t ht hm
  · rw [← h.live]
    simp only [Shell.spawned,countP_cons,mem_cons,true_or,not_true_eq_false,decide_false,Bool.false_eq_true,
      if_false,Nat.add_zero]
    refine countP_congr fun c hc => ?_
    simp [hne c hc]

lemma exited (h : Tracked s n tids) {tid : ℕ} (htid : tid ∉ s.bgs) (code : ℤ) (hborn : tid < s.made) :
    Tracked (s.exit tid code) n tids := by
  have hmap : ∀ c : Child, (if c.tid = tid then { c with exited := some code } else c).tid = c.tid := fun c => by
    split <;> rfl
  refine ⟨?_,fun c hc => ?_,h.bgs,h.reaped,fun t ht => ?_,fun c hc => ?_,fun c hc ht => ?_,h.apart,?_,fun t ht => ?_⟩
  · simpa only [Shell.exit,List.map_map,Function.comp_def,hmap] using h.nodup
  · obtain ⟨b,hb,rfl⟩ := List.mem_map.mp hc
    rw [hmap]
    exact h.fresh b hb
  · have hne : t ≠ tid := by
      rintro rfl
      exact absurd hborn (Nat.not_lt.mpr ht)
    simp only [Shell.exit,update_of_ne hne]
    exact h.unborn t ht
  · obtain ⟨b,hb,rfl⟩ := List.mem_map.mp hc
    rw [hmap]
    by_cases heq : b.tid = tid
    · simp [Shell.exit,heq]
    · simp only [Shell.exit,if_neg heq,update_of_ne heq]
      exact h.codes b hb
  · obtain ⟨b,hb,rfl⟩ := List.mem_map.mp hc
    rw [hmap] at ht
    have hne : b.tid ≠ tid := by
      rintro rfl
      exact htid ht
    rw [if_neg hne]
    exact h.running b hb ht
  · simpa only [Shell.exit,countP_map,Function.comp_def,hmap] using h.live
  · refine ⟨(h.stages t ht).1,fun hnone => ?_⟩
    have hne : t ≠ tid := by
      rintro rfl
      simp [Shell.exit] at hnone
    obtain ⟨c,hc,hct⟩ := (h.stages t ht).2 (by simpa [Shell.exit,update_of_ne hne] using hnone)
    exact ⟨_,List.mem_map_of_mem hc,(hmap c).trans hct⟩

lemma reap (h : Tracked s n tids) {c : Child} (hc : c ∈ s.children) {code : ℤ} (hcode : c.exited = some code) :
    ∃ m, n = m + 1 ∧ Tracked (s.reap c.tid) m tids := by
  have hfront : c.tid ∉ s.bgs := fun hm => by
    rw [h.running c hc hm] at hcode
    cases hcode
  have hcodes : s.codes c.tid = some code := (h.codes c hc).symm.trans hcode
  have hcount : (s.children.countP fun b => decide (b.tid ∉ s.bgs)) =
      ((s.children.filter (·.tid ≠ c.tid)).countP fun b => decide (b.tid ∉ s.bgs)) + 1 :=
    countP_remove h.nodup hc (decide_eq_true hfront)
  refine ⟨_,h.live.symm.trans hcount,?_,fun b hb => ?_,h.bgs,fun t ht => ?_,h.unborn,fun b hb => ?_,fun b hb => ?_,fun t ht => ?_,rfl,fun t ht => ?_⟩
  · exact h.nodup.sublist (List.filter_sublist.map _)
  · exact h.fresh b (mem_of_mem_filter hb)
  · obtain rfl | ht := List.mem_cons.mp ht
    · exact h.fresh c hc
    · exact h.reaped t ht
  · exact h.codes b (mem_of_mem_filter hb)
  · exact h.running b (mem_of_mem_filter hb)
  · obtain rfl | ht := List.mem_cons.mp ht
    · exact hfront
    · exact h.apart t ht
  · refine ⟨(h.stages t ht).1,fun hnone => ?_⟩
    obtain ⟨b,hb,hbt⟩ := (h.stages t ht).2 hnone
    refine ⟨b,List.mem_filter.mpr ⟨hb,decide_eq_true fun heq => ?_⟩,hbt⟩
    have hcb : s.codes c.tid = none := by
      rw [← heq,hbt]
      exact hnone
    rw [hcodes] at hcb
    cases hcb

lemma done (h : Tracked s 0 tids) {t : ℕ} (ht : some t ∈ tids) : s.codes t ≠ none := by
  intro hnone
  obtain ⟨hfront,hthere⟩ := h.stages t ht
  obtain ⟨c,hc,rfl⟩ := hthere hnone
  exact List.countP_eq_zero.mp h.live c hc (decide_eq_true hfront)

end Tracked

/-- What is known of the command in the foreground. -/
def Settled (s : Shell) : Prop :=
  match s.phase with
  | .prompt => (∀ t, s.job.getLast? = some (some t) → s.codes t = some s.status) ∧
      (s.job.getLast? = some none → s.status = 127)
  | .waits failed left _ => 1 ≤ left ∧ (s.job.getLast? = some none → failed = true) ∧
      ∀ t, s.job.getLast? = some (some t) → failed = false ∧ (∃ c ∈ s.children, c.tid = t) ∧
        (s.codes t ≠ none → left = 1)
  | _ => s.job = []

def Phase.live : Phase → ℕ
  | .stages _ _ _ _ tids => tids.countP isSome
  | .waits _ left _ => left
  | _ => 0

def Phase.tids : Phase → List (Option ℕ)
  | .stages _ _ _ _ tids => tids
  | _ => []

structure Inv (s : Shell) : Prop where
  tracked : Tracked s s.phase.live (s.job ++ s.phase.tids)
  settled : Settled s

lemma Inv.accounted {s : Shell} (h : Inv s) (hfds : Holds s s.phase.held) : Accounted s := by
  obtain ⟨ht,hsettled⟩ := h
  refine ⟨fun hp t hm => ?_,fun hp t hlast => ?_,fun hp hlast => ?_,ht.apart,fun c hc hbg hne => ?_,fun hp => ?_⟩
  · rw [hp] at ht
    exact ht.done (mem_append_left _ hm)
  · rw [Settled,hp] at hsettled
    exact hsettled.1 t hlast
  · rw [Settled,hp] at hsettled
    exact hsettled.2 hlast
  · exact absurd (ht.running c hc hbg) hne
  · rw [hp] at hfds
    exact hfds.eq_before

lemma Shell.Starts.inv {s : Shell} (h : s.Starts) : Inv s := by
  refine ⟨⟨?_,?_,?_,?_,fun t _ => h.codes t,?_,?_,?_,?_,?_⟩,?_⟩
  all_goals simp [h.children,h.bgs,h.reaped,h.job,h.prompt,Phase.live,Phase.tids,Settled]

def Phase.early : Phase → Bool
  | .prompt | .waits _ _ _ => false
  | .stages _ _ _ _ tids => tids.isEmpty
  | _ => true

lemma early_piping (p : Pipeline) (inFd outFd : Option ℕ) (ps : List (ℕ × ℕ)) :
    (Phase.piping p inFd outFd ps).early = true := by
  unfold Phase.piping
  split <;> rfl

lemma early_opening (p : Pipeline) (inFd : Option ℕ) : (Phase.opening p inFd).early = true := by
  unfold Phase.opening
  split
  · rfl
  · exact early_piping p inFd none []

/-- No child but those from the background, and no command. -/
structure Idle (s : Shell) : Prop where
  tracked : Tracked s 0 []
  job : s.job = []

namespace Idle
variable {s t : Shell}

lemma of_eq (h : Idle s) (hchildren : t.children = s.children) (hmade : t.made = s.made) (hbgs : t.bgs = s.bgs)
    (hcodes : t.codes = s.codes) (hreaped : t.reaped = s.reaped) (hjob : t.job = s.job) : Idle t :=
  ⟨h.tracked.of_eq hchildren hmade hbgs hcodes hreaped,hjob.trans h.job⟩

lemma closeAll (h : Idle s) (l : List ℕ) : Idle (s.closeAll l) := by
  rw [Shell.closeAll_eq]
  exact h.of_eq rfl rfl rfl rfl rfl rfl

lemma goto (h : Idle s) {p : Phase} (hp : p.early = true) : Inv (s.goto p) := by
  have hjob : (s.goto p).job = [] := h.job
  have ht : Tracked (s.goto p) 0 [] := h.tracked.of_eq rfl rfl rfl rfl rfl
  cases p with
  | prompt | waits failed left last => cases hp
  | stages p inFd outFd ps tids =>
    obtain rfl : tids = [] := List.isEmpty_iff.mp hp
    refine ⟨?_,hjob⟩
    rw [hjob]
    exact ht
  | _ =>
    refine ⟨?_,hjob⟩
    rw [hjob]
    exact ht

lemma back (h : Idle s) (status : ℤ) : Inv (s.back status) := by
  have hjob : (s.back status).job = [] := h.job
  have ht : Tracked (s.back status) 0 [] := h.tracked.of_eq rfl rfl rfl rfl rfl
  refine ⟨?_,?_⟩
  · rw [hjob]
    exact ht
  · simp only [Settled,Shell.back,h.job]
    exact ⟨fun t ht => (by cases ht),fun ht => (by cases ht)⟩

lemma opened (h : Idle s) {ok : Bool} {fd : ℕ} (hopen : s.openFd ok = some (fd,t)) : Idle t := by
  obtain ⟨-,-,rfl⟩ := Shell.openFd_spec hopen
  exact h.of_eq rfl rfl rfl rfl rfl rfl

end Idle

variable {s : Shell}

lemma Inv.idle (h : Inv s) (hp : s.phase.early = true) : Idle s := by
  obtain ⟨ht,hsettled⟩ := h
  rw [Settled] at hsettled
  revert ht hsettled hp
  cases s.phase with
  | prompt | waits failed left last => exact fun hp => nomatch hp
  | stages p inFd outFd ps tids =>
    intro hp ht hjob
    obtain rfl : tids = [] := List.isEmpty_iff.mp hp
    rw [hjob] at ht
    exact ⟨ht,hjob⟩
  | _ =>
    intro _ ht hjob
    rw [hjob] at ht
    exact ⟨ht,hjob⟩

lemma inv_read (h : Inv s) (hp : s.phase = .prompt) (text : List Char) (ok : Bool) : Inv (s.read text ok) := by
  have hidle : Idle { s with before := s.fds, job := [] } := by
    have ht := h.tracked
    rw [hp] at ht
    have hnone : Tracked s 0 [] := ht.forget fun t ht => by cases ht
    exact ⟨hnone.of_eq rfl rfl rfl rfl rfl,rfl⟩
  unfold Shell.read
  dsimp only
  split
  · exact hidle.back _
  · exact hidle.goto rfl
  · exact hidle.back _
  · exact hidle.back _
  · refine hidle.goto ?_
    split <;> rfl
  · refine hidle.goto ?_
    split
    · rfl
    · exact early_opening _ _

lemma inv_launch (h : Idle s) (c : Command) (inFd outFd : Option ℕ) (ok : Bool) :
    Inv (s.launch c inFd outFd ok) := by
  unfold Shell.launch
  split
  · dsimp only
    split
    · have hbg : Idle { s.spawned with bgs := s.made :: s.bgs } := ⟨h.tracked.backgrounded,h.job⟩
      refine Idle.back ?_ 0
      rw [Shell.closeAll_eq]
      exact hbg.of_eq rfl rfl rfl rfl rfl rfl
    · have ht : Tracked s.spawned 1 [some s.made] := h.tracked.spawned
      rw [Shell.closeAll_eq]
      refine ⟨ht.of_eq rfl rfl rfl rfl rfl,le_rfl,fun hlast => ?_,fun t hlast => ?_⟩
      · cases hlast
      · cases hlast
        exact ⟨rfl,⟨_,mem_cons_self,rfl⟩,fun _ => rfl⟩
  · dsimp only
    rw [Shell.closeAll_eq]
    split
    · refine Idle.back ?_ 127
      exact h.of_eq rfl rfl rfl rfl rfl h.job.symm
    · have ht : Tracked s 0 [none] := { h.tracked with stages := fun t ht => by simp at ht }
      refine ⟨ht.of_eq rfl rfl rfl rfl rfl,fun t hlast => ?_,fun _ => rfl⟩
      cases hlast

lemma inv_await {tids : List (Option ℕ)} (h : Tracked s (tids.countP isSome) tids) (p : Pipeline)
    (hlast : p.bg = false → ∀ t, tids.getLast? = some (some t) → none ∉ tids ∧ (∃ c ∈ s.children, c.tid = t) ∧ s.codes t = none) :
    Inv (s.await p tids) := by
  have hfailed : tids.getLast? = some none → tids.any isNone = true := fun hnone =>
    List.any_eq_true.mpr ⟨none,mem_of_getLast? hnone,rfl⟩
  have hjob : ∀ t, (if p.bg then [] else tids).getLast? = some t → p.bg = false ∧ tids.getLast? = some t := by
    intro t ht
    split at ht
    · cases ht
    · next hbg => exact ⟨by simpa using hbg,ht⟩
  have hsub : Tracked s (tids.countP isSome) (if p.bg then [] else tids) := by
    refine h.forget fun t ht => ?_
    split at ht
    · cases ht
    · exact ht
  unfold Shell.await
  dsimp only
  split
  · next hzero =>
    rw [hzero] at hsub
    refine ⟨?_,fun t ht => ?_,fun hnone => ?_⟩
    · have hback := hsub.of_eq (t := { s with job := if p.bg then [] else tids }.back
        (if tids.any isNone then 127 else 0)) rfl rfl rfl rfl rfl
      simpa [Shell.back,Phase.live,Phase.tids] using hback
    · have hmem := mem_of_getLast? (hjob _ ht).2
      exact absurd rfl (List.countP_eq_zero.mp hzero _ hmem)
    · simp [Shell.back,hfailed (hjob _ hnone).2]
  · next hpos =>
    refine ⟨?_,Nat.pos_of_ne_zero hpos,fun hnone => hfailed (hjob _ hnone).2,fun t ht => ?_⟩
    · have hgoto := hsub.of_eq (t := { s with job := if p.bg then [] else tids }.goto
        (.waits (tids.any isNone) (tids.countP isSome) 0)) rfl rfl rfl rfl rfl
      simpa [Shell.goto,Phase.live,Phase.tids] using hgoto
    · obtain ⟨hbg,hget⟩ := hjob _ ht
      obtain ⟨hnone,hthere,hcode⟩ := hlast hbg t hget
      refine ⟨?_,hthere,fun hne => absurd hcode hne⟩
      refine List.any_eq_false.mpr fun x hx hisNone => hnone ?_
      rw [Option.isNone_iff_eq_none.mp hisNone] at hx
      exact hx

lemma inv_stage {p : Pipeline} {inFd outFd : Option ℕ} {ps : List (ℕ × ℕ)} {tids : List (Option ℕ)}
    (h : Tracked s (tids.countP isSome) tids) (hjob : s.job = []) {ok : Bool}
    (hok : (Phase.stages p inFd outFd ps tids).broken = true → ok = false) :
    Inv (s.stage p inFd outFd ps tids ok) := by
  unfold Shell.stage Shell.staged
  cases ok with
  | true =>
    have ht := h.spawned
    have hcount : (tids ++ [some s.made]).countP isSome = tids.countP isSome + 1 := by
      simp [countP_append]
    rw [← hcount] at ht
    rw [if_pos rfl]
    split
    · refine ⟨?_,hjob⟩
      have hnil : (s.spawned.goto (.stages p inFd outFd ps (tids ++ [some s.made]))).job = [] := hjob
      rw [hnil]
      exact ht.of_eq rfl rfl rfl rfl rfl
    · next hlen =>
      refine inv_await (ht.closeAll _) p fun hbg t hget => ?_
      rw [getLast?_append_of_ne_nil _ (by simp)] at hget
      cases hget
      rw [Shell.closeAll_eq]
      refine ⟨fun hnone => ?_,⟨_,mem_cons_self,rfl⟩,h.unborn _ le_rfl⟩
      have hmem : none ∈ tids := by simpa using hnone
      rw [length_append,length_singleton] at hlen
      have hbroken : (Phase.stages p inFd outFd ps tids).broken = true := by
        simp only [Phase.broken,hbg,Bool.not_false,Bool.true_and,Bool.and_eq_true,decide_eq_true_eq]
        exact ⟨Nat.not_lt.mp hlen,List.any_eq_true.mpr ⟨none,hmem,rfl⟩⟩
      cases hok hbroken
  | false =>
    have ht : Tracked s ((tids ++ [none]).countP isSome) (tids ++ [none]) := by
      have hcount : (tids ++ [none]).countP isSome = tids.countP isSome := by
        simp [countP_append]
      rw [hcount]
      exact h.forget fun t ht => by simpa using ht
    rw [if_neg Bool.false_ne_true]
    split
    · refine ⟨?_,hjob⟩
      have hnil : (s.goto (.stages p inFd outFd ps (tids ++ [none]))).job = [] := hjob
      rw [hnil]
      exact ht.of_eq rfl rfl rfl rfl rfl
    · refine inv_await (ht.closeAll _) p fun hbg t hget => ?_
      rw [getLast?_append_of_ne_nil _ (by simp)] at hget
      cases hget

lemma inv_call {s t : Shell} (h : Inv s) {ok : Bool} (hok : Orderly s (.call ok)) (hcall : s.call ok = some t) : Inv t := by
  unfold Shell.call at hcall
  split at hcall
  case h_1 c hp =>
    have hidle := h.idle (by rw [hp]; rfl)
    split at hcall
    · cases hcall
      exact hidle.back 1
    · next out s' hopen =>
      cases hcall
      refine (hidle.opened hopen).goto ?_
      split <;> rfl
  case h_2 c out hp =>
    have hidle := h.idle (by rw [hp]; rfl)
    split at hcall
    · cases hcall
      exact (hidle.closeAll [out]).back 1
    · next fd s' hopen =>
      cases hcall
      exact (hidle.opened hopen).goto rfl
  case h_3 c inFd outFd hp =>
    cases hcall
    exact inv_launch (h.idle (by rw [hp]; rfl)) c inFd outFd ok
  case h_4 p hp =>
    have hidle := h.idle (by rw [hp]; rfl)
    split at hcall
    · cases hcall
      exact hidle.back 1
    · next fd s' hopen =>
      cases hcall
      exact (hidle.opened hopen).goto (early_opening _ _)
  case h_5 p inFd hp =>
    have hidle := h.idle (by rw [hp]; rfl)
    split at hcall
    · cases hcall
      exact (hidle.closeAll _).back 1
    · next out s' hopen =>
      cases hcall
      exact (hidle.opened hopen).goto (early_piping _ _ _ _)
  case h_6 p inFd outFd ps hp =>
    have hidle := h.idle (by rw [hp]; rfl)
    split at hcall
    · cases hcall
      exact (hidle.closeAll _).back 1
    · next q s' hpipe =>
      cases hcall
      obtain ⟨⟨r,u⟩,hr,hmap⟩ := Option.bind_eq_some_iff.mp hpipe
      obtain ⟨⟨w,v⟩,hw,heq⟩ := Option.map_eq_some_iff.mp hmap
      cases heq
      exact ((hidle.opened hr).opened hw).goto (early_piping _ _ _ _)
  case h_7 p inFd outFd ps tids hp =>
    cases hcall
    obtain ⟨ht,hsettled⟩ := h
    rw [Settled,hp] at hsettled
    rw [hp,hsettled] at ht
    exact inv_stage ht hsettled fun hbroken => hok (hp ▸ hbroken)
  case h_8 => cases hcall

lemma inv_wait {s t : Shell} (h : Inv s) (hwait : s.wait = some t) : Inv t := by
  unfold Shell.wait at hwait
  split at hwait
  case h_2 => cases hwait
  case h_1 failed left last hp =>
    obtain ⟨ht,hsettled⟩ := h
    rw [Settled,hp] at hsettled
    rw [hp] at ht
    obtain ⟨hleft,hmissing,hlast⟩ := hsettled
    split at hwait
    case h_2 =>
      split at hwait
      · next hempty =>
        have hlive := ht.live
        rw [List.isEmpty_iff.mp hempty] at hlive
        simp only [countP_nil,Phase.live] at hlive
        omega
      · cases hwait
    case h_1 tid code hfind =>
      cases hwait
      obtain ⟨c,hc,hmap⟩ := exists_of_findSome?_eq_some hfind
      obtain ⟨_,hcode,heq⟩ := Option.map_eq_some_iff.mp hmap
      cases heq
      obtain ⟨m,rfl,hreap⟩ := ht.reap hc hcode
      have hcodes : s.codes c.tid = some code := (ht.codes c hc).symm.trans hcode
      unfold Shell.waited
      split
      · next hone =>
        obtain rfl : m = 0 := by omega
        refine ⟨?_,fun t hget => ?_,fun hnone => ?_⟩
        · exact hreap.of_eq rfl rfl rfl rfl rfl
        · -- the last stage is the only child left, so it is the one that was found
          obtain ⟨rfl,⟨b,hb,rfl⟩,-⟩ := hlast t hget
          have hfront := (ht.stages b.tid (mem_append_left _ (mem_of_getLast? hget))).1
          by_cases hbc : b.tid = c.tid
          · rw [hbc]
            exact hcodes
          · exact absurd (decide_eq_true hfront)
              (List.countP_eq_zero.mp hreap.live b (List.mem_filter.mpr ⟨hb,decide_eq_true hbc⟩))
        · simp [Shell.back,hmissing hnone]
      · next hmore =>
        refine ⟨?_,by omega,hmissing,fun t hget => ?_⟩
        · exact hreap.of_eq rfl rfl rfl rfl rfl
        · obtain ⟨hfailed,⟨b,hb,rfl⟩,hend⟩ := hlast t hget
          have hbc : b.tid ≠ c.tid := fun heq => by
            have hone := hend (by rw [heq,hcodes]; exact some_ne_none code)
            omega
          refine ⟨hfailed,⟨b,List.mem_filter.mpr ⟨hb,decide_eq_true hbc⟩,rfl⟩,fun hne => ?_⟩
          have hone := hend hne
          omega

lemma inv_exit (h : Inv s) {tid : ℕ} {code : ℤ} (hok : Orderly s (.exit tid code))
    (hthere : (s.children.any fun c => c.tid == tid && c.exited.isNone) = true) : Inv (s.exit tid code) := by
  obtain ⟨c,hc,hand⟩ := List.any_eq_true.mp hthere
  obtain rfl : c.tid = tid := by
    have := (Bool.and_eq_true_iff.mp hand).1
    exact beq_iff_eq.mp this
  obtain ⟨hfront,hlone⟩ := hok
  obtain ⟨ht,hsettled⟩ := h
  refine ⟨ht.exited hfront code (ht.fresh c hc),?_⟩
  unfold Settled at hsettled ⊢
  have hphase : (s.exit c.tid code).phase = s.phase := rfl
  rw [hphase]
  revert ht hsettled
  cases s.phase with
  | prompt =>
    intro ht _
    exact absurd (decide_eq_true hfront) (List.countP_eq_zero.mp ht.live c hc)
  | waits failed left last =>
    intro ht ⟨hleft,hmissing,hlast⟩
    refine ⟨hleft,hmissing,fun t hget => ?_⟩
    obtain ⟨hfailed,⟨b,hb,rfl⟩,hend⟩ := hlast t hget
    refine ⟨hfailed,⟨_,List.mem_map_of_mem hb,by split <;> rfl⟩,fun hne => ?_⟩
    by_cases hbc : b.tid = c.tid
    · have hothers : ((s.children.filter (·.tid ≠ c.tid)).countP fun a => decide (a.tid ∉ s.bgs)) = 0 := by
        refine List.countP_eq_zero.mpr fun a ha hfa => ?_
        obtain ⟨ha,hac⟩ := List.mem_filter.mp ha
        rw [hbc] at hget
        exact of_decide_eq_true hac (hlone hget a ha (of_decide_eq_true hfa))
      have hlive := ht.live
      rw [countP_remove ht.nodup hc (decide_eq_true hfront),hothers] at hlive
      exact hlive.symm
    · exact hend (by simpa [Shell.exit,update_of_ne hbc] using hne)
  | _ => exact fun _ hjob => hjob

lemma inv_step {s t : Shell} {e : Event} {r : Unit} (h : Inv s) (hok : Orderly s e) (hstep : s.step e = some (r,t)) : Inv t := by
  cases e with
  | line text ok =>
    simp only [Shell.step] at hstep
    split at hstep
    · next hp =>
      cases hstep
      exact inv_read h hp text ok
    · cases hstep
  | call ok =>
    obtain ⟨u,hu,heq⟩ := Option.map_eq_some_iff.mp hstep
    cases heq
    exact inv_call h hok hu
  | wait =>
    obtain ⟨u,hu,heq⟩ := Option.map_eq_some_iff.mp hstep
    cases heq
    exact inv_wait h hu
  | exit tid code =>
    simp only [Shell.step] at hstep
    split at hstep
    · next hthere =>
      cases hstep
      exact inv_exit h hok hthere
    · cases hstep
  | other =>
    cases hstep
    obtain ⟨⟨h₁,h₂,h₃,h₄,h₅,h₆,h₇,h₈,h₉,h₁₀⟩,hsettled⟩ := h
    refine ⟨⟨h₁,fun c hc => Nat.lt_succ_of_lt (h₂ c hc),fun t ht => Nat.lt_succ_of_lt (h₃ t ht),
      fun t ht => Nat.lt_succ_of_lt (h₄ t ht),fun t ht => h₅ t (Nat.le_of_succ_le ht),h₆,h₇,h₈,h₉,h₁₀⟩,hsettled⟩

/-- In a session without the three kinds of events, each prompt comes when the command before it is over,
with the code of its last stage. -/
theorem sessions_account {s₀ : Shell} (h : s₀.Starts) (es : List Event) (s : Shell)
    (hrun : Runs Shell.step Orderly s₀ es s) : Accounted s :=
  Inv.accounted (hrun.invariant (fun _ _ _ _ hs ok now => inv_step hs ok now) h.inv) (holds_run h hrun)

def first : Shell where
  phase := .prompt
  status := 0
  fds fd := decide (fd < 3)
  children := []
  made := 1
  before fd := decide (fd < 3)
  job := []
  bgs := []
  codes _ := none
  reaped := []
  prompts := 1
  exitedAt _ := 0

lemma first_starts : first.Starts := ⟨rfl,rfl,rfl,rfl,fun _ => rfl,rfl,rfl⟩

theorem sessions_account_pipeline : ∃ es s, Runs Shell.step Orderly first es s ∧ Accounted s ∧ s.phase = .prompt ∧
    s.job = [some 2,some 3] ∧ s.status = 5 := by
  let es : List Event := [.line "d &".toList true,.call true,.line "a | b > f".toList true,.call true,.call true,.call true,
    .call true,.exit 2 1,.wait,.exit 3 5,.wait]
  have hrun : ∃ s, execute (fun s e => if decide (Orderly s e) then s.step e else none) first es = some s ∧
      s.phase = .prompt ∧ s.job = [some 2,some 3] ∧ s.status = 5 := ⟨_,rfl,rfl,rfl,rfl⟩
  obtain ⟨s,hs,hrest⟩ := hrun
  have hruns : Runs Shell.step Orderly first es s := Runs.of_guarded (fun _ _ hok => of_decide_eq_true hok) hs
  exact ⟨es,s,hruns,sessions_account first_starts es s hruns,hrest⟩

/-- A child from the background exits while the shell waits for another one. -/
theorem background_ends_wait : ∃ es s, Runs Shell.step (fun _ _ => True) first es s ∧ first.Starts ∧ ¬Accounted s := by
  let es : List Event := [.line "d &".toList true,.call true,.line "a".toList true,.call true,.exit 1 7,.wait]
  have hrun : ∃ s, execute Shell.step first es = some s ∧ s.phase = .prompt ∧ s.job = [some 2] ∧ s.codes 2 = none :=
    ⟨_,rfl,rfl,rfl,rfl⟩
  obtain ⟨s,hs,hphase,hjob,hcode⟩ := hrun
  refine ⟨es,s,Runs.of_execute hs,first_starts,fun h => h.finished hphase 2 ?_ hcode⟩
  rw [hjob]
  exact mem_singleton_self _

end VibeOS.Sh

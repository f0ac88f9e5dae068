import VibeOS.Make.Cycles
import Mathlib.Algebra.Order.BigOperators.Group.List
import Mathlib.Algebra.Order.Ring.Nat

/-! How often a target is built. -/
namespace VibeOS.Make
open Function List Option

variable {m : Makefile} {rc : List Recipe → ℤ} {ds : List Name} {s s' : State} {ok : Bool}

def requests (m : Makefile) (visits : List Name) (p : Name) : ℕ := (visits.map fun q => (m.deps q).count p).sum

@[simp] lemma requests_cons (q : Name) (visits : List Name) (p : Name) :
    requests m (q :: visits) p = (m.deps q).count p + requests m visits p := by
  simp [requests]

lemma requests_append (l l' : List Name) (p : Name) : requests m (l ++ l') p = requests m l p + requests m l' p := by
  simp [requests]

variable {p : Name} {visits : List Name}

lemma requests_eq_zero (h : ∀ q ∈ visits, p ∉ m.deps q) : requests m visits p = 0 := by
  induction visits with
  | nil => rfl
  | cons q visits ih =>
    rw [requests_cons,List.count_eq_zero.mpr (h q mem_cons_self),ih fun x hx => h x (mem_cons_of_mem q hx)]

lemma requests_of_only {p q : Name} (hone : (m.deps q).count p = 1)
    (honly : ∀ x ∈ visits, p ∈ m.deps x → x = q) : requests m visits p = visits.count q := by
  induction visits with
  | nil => rfl
  | cons x visits ih =>
    rw [requests_cons,ih fun y hy => honly y (mem_cons_of_mem x hy),count_cons]
    by_cases hx : x = q
    · subst hx
      rw [hone,if_pos (beq_self_eq_true x),Nat.add_comm]
    · rw [List.count_eq_zero.mpr fun hp => hx (honly x mem_cons_self hp),if_neg fun heq => hx (eq_of_beq heq),
        Nat.zero_add,Nat.add_zero]

lemma only_of_requests (h : requests m visits p = 1) :
    ∃ q, (m.deps q).count p = 1 ∧ visits.count q = 1 ∧ ∀ x ∈ visits, p ∈ m.deps x → x = q := by
  induction visits with
  | nil => cases h
  | cons x visits ih =>
    rw [requests_cons] at h
    have hsplit : ((m.deps x).count p = 1 ∧ requests m visits p = 0) ∨
        ((m.deps x).count p = 0 ∧ requests m visits p = 1) := by omega
    obtain ⟨hone,hzero⟩ | ⟨hzero,hone⟩ := hsplit
    · have hnone : ∀ y ∈ visits, p ∉ m.deps y := by
        intro y hy hp
        have hle : (m.deps y).count p ≤ requests m visits p :=
          le_sum_of_mem (List.mem_map_of_mem hy)
        have hpos : 0 < (m.deps y).count p := List.count_pos_iff.mpr hp
        omega
      have hx : x ∉ visits := fun hx => hnone x hx (List.count_pos_iff.mp (by omega))
      refine ⟨x,hone,?_,fun y hy hp => ?_⟩
      · rw [List.count_cons_self,List.count_eq_zero.mpr hx]
      · exact (List.mem_cons.mp hy).resolve_right fun hy => hnone y hy hp
    · obtain ⟨q,hq,hcount,honly⟩ := ih hone
      have hxq : x ≠ q := fun heq => by
        subst heq
        omega
      refine ⟨q,hq,by rw [List.count_cons_of_ne hxq,hcount],fun y hy hp => ?_⟩
      obtain rfl | hy := List.mem_cons.mp hy
      · exact absurd hp (List.count_eq_zero.mp hzero)
      · exact honly y hy hp

/-- A target of a pattern, or a phony one, with a rule. -/
def Makefile.Loose (m : Makefile) (p : Name) : Prop := m.lookup p ≠ none ∧ ¬m.Fixed p

/-- What a walk over targets has begun, and of what it has begun the recipe. -/
structure Ledger (m : Makefile) (ds begun ran : List Name) (ok : Bool) : Prop where
  reach : ∀ q ∈ begun, m.lookup q ≠ none ∧ ∃ d ∈ ds, m.Reach d q
  le : ∀ p, ran.count p ≤ begun.count p
  asked : ∀ p, m.Loose p → begun.count p ≤ ds.count p + requests m begun p
  all : ok = true → ∀ p, begun.count p = ran.count p ∧ (m.Loose p → begun.count p = ds.count p + requests m begun p)

lemma loose_not_cached {slot : Slot} {r : Rule} (hs : Tidy m s) (hp : m.Loose p)
    (hd : m.lookup p = some (slot,r)) : (s.found slot).built slot = false := by
  obtain ⟨rfl,-⟩ | ⟨rfl,-⟩ := Makefile.lookup_slot hd
  · by_contra hb
    exact hp.2 ((hs.found (some p)).built p (by simpa using hb)).1
  · simp [State.found]

lemma Ledger.skip {begun ran : List Name} (h : Ledger m ds begun ran ok) {d : Name} (hd : ¬m.Loose d) :
    Ledger m (d :: ds) begun ran ok := by
  have hcount : ∀ p, m.Loose p → (d :: ds).count p = ds.count p := fun p hp =>
    List.count_cons_of_ne fun heq : d = p => hd (heq ▸ hp)
  refine ⟨fun q hq => ?_,h.le,fun p hp => ?_,fun hok p => ⟨(h.all hok p).1,fun hp => ?_⟩⟩
  · obtain ⟨hlook,x,hx,hr⟩ := h.reach q hq
    exact ⟨hlook,x,mem_cons_of_mem d hx,hr⟩
  · rw [hcount p hp]
    exact h.asked p hp
  · rw [hcount p hp]
    exact (h.all hok p).2 hp

lemma Ledger.down {begun ran : List Name} {d : Name} (h : Ledger m (m.deps d) begun ran ok) (hd : m.lookup d ≠ none) :
    Ledger m (d :: ds) (begun ++ [d]) ran false := by
  refine ⟨fun q hq => ?_,fun p => ?_,fun p hp => ?_,fun hok => by cases hok⟩
  · obtain hq | hq := List.mem_append.mp hq
    · obtain ⟨hlook,x,hx,hr⟩ := h.reach q hq
      exact ⟨hlook,d,mem_cons_self,.head hx hr⟩
    · rw [List.mem_singleton.mp hq]
      exact ⟨hd,d,mem_cons_self,.refl⟩
  · rw [count_append]
    exact (h.le p).trans (Nat.le_add_right _ _)
  · have := h.asked p hp
    rw [count_append,requests_append,requests_cons,count_cons,count_cons]
    simp only [requests,map_nil,sum_nil,count_nil]
    simp only [requests] at this
    omega

lemma Ledger.next {begun ran begun' ran' : List Name} {d : Name} (h : Ledger m (m.deps d) begun ran true)
    (hd : m.lookup d ≠ none) (h' : Ledger m ds begun' ran' ok) :
    Ledger m (d :: ds) (begun' ++ (begun ++ [d])) (ran' ++ d :: ran) ok := by
  have hdown : Ledger m (d :: ds) (begun ++ [d]) ran false := h.down hd
  refine ⟨fun q hq => ?_,fun p => ?_,fun p hp => ?_,fun hok p => ⟨?_,fun hp => ?_⟩⟩
  · obtain hq | hq := List.mem_append.mp hq
    · obtain ⟨hlook,x,hx,hr⟩ := h'.reach q hq
      exact ⟨hlook,x,mem_cons_of_mem d hx,hr⟩
    · exact hdown.reach q hq
  · have hran := h'.le p
    have heq := (h.all rfl p).1
    simp only [count_append,count_cons,count_nil]
    omega
  · have hasked := h'.asked p hp
    have heq := (h.all rfl p).2 hp
    simp only [count_append,count_cons,count_nil,requests_append,requests_cons]
    simp only [requests,map_nil,sum_nil] at hasked heq ⊢
    omega
  · have hran := (h'.all hok p).1
    have heq := (h.all rfl p).1
    simp only [count_append,count_cons,count_nil]
    omega
  · have hasked := (h'.all hok p).2 hp
    have heq := (h.all rfl p).2 hp
    simp only [count_append,count_cons,count_nil,requests_append,requests_cons]
    simp only [requests,map_nil,sum_nil] at hasked heq ⊢
    omega

lemma Ledger.nil : Ledger m [] [] [] ok :=
  ⟨fun q hq => (by cases hq),fun _ => Nat.le_refl _,fun _ _ => Nat.zero_le _,fun _ _ => ⟨rfl,fun _ => rfl⟩⟩

lemma Ledger.fail : Ledger m ds [] [] false :=
  ⟨fun q hq => (by cases hq),fun _ => Nat.le_refl _,fun _ _ => Nat.zero_le _,fun h => by cases h⟩

lemma Built.ledger (h : Built m rc ds s ok s') (hs : Tidy m s) : ∃ begun ran, s'.visits = begun ++ s.visits ∧
    s'.runs = ran ++ s.runs ∧ Ledger m ds begun ran ok := by
  induction h with
  | nil s => exact ⟨[],[],rfl,rfl,Ledger.nil⟩
  | @leaf d ds s s' ok hd rest ih =>
    obtain ⟨begun,ran,hbegun,hran,hledger⟩ := ih hs
    exact ⟨begun,ran,hbegun,hran,hledger.skip fun hl => hl.1 hd⟩
  | @cached d ds s s' ok slot r hd hb rest ih =>
    obtain ⟨begun,ran,hbegun,hran,hledger⟩ := ih (hs.found slot)
    rw [(found_log s slot).2.1] at hran
    rw [(found_log s slot).2.2] at hbegun
    refine ⟨begun,ran,hbegun,hran,hledger.skip fun hl => ?_⟩
    rw [loose_not_cached hs hl hd] at hb
    cases hb
  | @cycle d ds s slot =>
    exact ⟨[],[],(found_log s slot).2.2,(found_log s slot).2.1,Ledger.fail⟩
  | @depFail d ds s s₁ slot r hd hb hp deps ih =>
    obtain ⟨begun,ran,hbegun,hran,hledger⟩ := ih ((hs.found slot).begin slot d)
    refine ⟨begun ++ [d],ran,?_,?_,?_⟩
    · simpa [State.leave,State.begin,(found_log s slot).2.2] using hbegun
    · simpa [State.leave,State.begin,(found_log s slot).2.1] using hran
    · rw [← Makefile.deps_eq hd] at hledger
      exact hledger.down (by rw [hd]; exact some_ne_none _)
  | @recipeFail d ds s s₁ s₂ slot r code hd hb hp deps hrun hcode ih =>
    obtain ⟨begun,ran,hbegun,hran,hledger⟩ := ih ((hs.found slot).begin slot d)
    obtain ⟨_,_,-,rfl,-⟩ := Makefile.runRecipe_eq hrun
    refine ⟨[] ++ (begun ++ [d]),[] ++ d :: ran,?_,?_,?_⟩
    · simpa [State.leave,State.begin,(found_log s slot).2.2] using hbegun
    · simpa [State.leave,State.begin,(found_log s slot).2.1] using hran
    · rw [← Makefile.deps_eq hd] at hledger
      exact hledger.next (by rw [hd]; exact some_ne_none _) Ledger.fail
  | @done d ds s s₁ s₂ s' ok slot r hd hb hp deps hrun rest ih ih' =>
    have hone : Built m rc [d] s true (s₂.finish slot (m.mkIsPhony d)) := .done hd hb hp deps hrun (.nil _)
    obtain ⟨begun,ran,hbegun,hran,hledger⟩ := ih ((hs.found slot).begin slot d)
    obtain ⟨begun',ran',hbegun',hran',hledger'⟩ := ih' (hone.tidy hs).1
    obtain ⟨_,_,-,rfl,-⟩ := Makefile.runRecipe_eq hrun
    refine ⟨begun' ++ (begun ++ [d]),ran' ++ d :: ran,?_,?_,?_⟩
    · rw [hbegun']
      simpa [State.finish,State.leave,State.begin,(found_log s slot).2.2] using hbegun
    · rw [hran']
      simpa [State.finish,State.leave,State.begin,(found_log s slot).2.1] using hran
    · rw [← Makefile.deps_eq hd] at hledger
      exact hledger.next (by rw [hd]; exact some_ne_none _) hledger'

def Flagged (m : Makefile) (s : State) : Prop := ∀ q, m.Fixed q →
  s.visits.count q = if s.built (some q) = true ∨ s.inProgress (some q) = true then 1 else 0

lemma Flagged.found (h : Flagged m s) (slot : Slot) : Flagged m (s.found slot) := by
  intro q hq
  rw [(found_log s slot).2.2,(found_some s slot q).1,(found_some s slot q).2]
  exact h q hq

lemma Flagged.begin (h : Flagged m s) {d : Name} {slot : Slot} {r : Rule} (hd : m.lookup d = some (slot,r))
    (hb : s.built slot = false) (hp : s.inProgress slot = false) : Flagged m (s.begin slot d) := by
  intro q hq
  have hcount := h q hq
  by_cases hqd : q = d
  · subst hqd
    obtain ⟨rfl,-⟩ | ⟨-,hnone⟩ := Makefile.lookup_slot hd
    · rw [if_neg (by rw [hb,hp]; simp)] at hcount
      simp [State.begin,hcount]
    · rw [Makefile.Fixed,hnone] at hq
      cases hq.1
  · have hslot : (some q : Slot) ≠ slot := by
      obtain ⟨rfl,-⟩ | ⟨rfl,-⟩ := Makefile.lookup_slot hd
      · exact fun heq => hqd (some.inj heq)
      · exact some_ne_none q
    simp only [State.begin,List.count_cons_of_ne (Ne.symm hqd),update_of_ne hslot]
    exact hcount

lemma Built.flagged (h : Built m rc ds s ok s') (hs : Flagged m s) :
    (ok = true → Flagged m s') ∧ ∀ q, m.Fixed q → s'.visits.count q ≤ 1 := by
  have hle : ∀ {s : State}, Flagged m s → ∀ q, m.Fixed q → s.visits.count q ≤ 1 := by
    intro s hs q hq
    rw [hs q hq]
    split <;> omega
  induction h with
  | nil => exact ⟨fun _ => hs,hle hs⟩
  | leaf _ _ ih => exact ih hs
  | cached _ _ _ ih => exact ih (hs.found _)
  | cycle => exact ⟨fun h => (by cases h),hle (hs.found _)⟩
  | depFail hd hb hp _ ih => exact ⟨fun h => (by cases h),(ih ((hs.found _).begin hd hb hp)).2⟩
  | recipeFail hd hb hp _ hrun _ ih =>
    obtain ⟨_,_,-,rfl,-⟩ := Makefile.runRecipe_eq hrun
    exact ⟨fun h => (by cases h),(ih ((hs.found _).begin hd hb hp)).2⟩
  | @done d ds s s₁ s₂ s' ok slot r hd hb hp deps hrun rest ih ih' =>
    have hf := (ih ((hs.found slot).begin hd hb hp)).1 rfl
    have hprogress := deps.inProgress
    obtain ⟨_,_,-,rfl,-⟩ := Makefile.runRecipe_eq hrun
    refine ih' fun q hq => ?_
    have hcount := hf q hq
    obtain ⟨rfl,hexact⟩ | ⟨rfl,-⟩ := Makefile.lookup_slot hd
    · by_cases hqd : q = d
      · subst hqd
        rw [if_pos (.inr ((hprogress q).trans (update_self ..)))] at hcount
        simp [State.finish,State.leave,hcount,hq.2]
      · have hslot : (some q : Slot) ≠ some d := fun heq => hqd (some.inj heq)
        simp only [State.finish,State.leave,update_of_ne hslot]
        exact hcount
    · simp only [State.finish,State.leave,update_of_ne (some_ne_none q)]
      exact hcount

/-- A target that the build of `root` asks for once: one target that it reaches asks for it, once, and that
one is built once itself. -/
inductive Once (m : Makefile) (root : Name) : Name → Prop
  | root : Once m root root
  | fixed {q p : Name} (hq : m.Reach root q) (hone : (m.deps q).count p = 1)
      (honly : ∀ x, m.Reach root x → p ∈ m.deps x → x = q) (hfixed : m.Fixed q) : Once m root p
  | loose {q p : Name} (hq : m.Reach root q) (hone : (m.deps q).count p = 1)
      (honly : ∀ x, m.Reach root x → p ∈ m.deps x → x = q) (habove : Once m root q) : Once m root p

variable {root : Name}

lemma tidy_start : Tidy m .start where
  entries e he := by cases he
  grounded e he := by cases he
  order pre e post h := by simp [State.start] at h
  built t ht := by cases ht

lemma flagged_start : Flagged m .start := fun _ _ => rfl

lemma not_needs_root (hg : m.Grounded root) {q : Name} (hq : m.Reach root q) : root ∉ m.deps q := fun hr =>
  hg.not_onCycle (Relation.TransGen.tail' hq hr)

lemma Once.count_le (h : Once m root p) (hg : m.Grounded root) (hb : Built m rc [root] .start ok s') :
    s'.visits.count p ≤ 1 := by
  obtain ⟨begun,ran,hbegun,-,hledger⟩ := hb.ledger tidy_start
  obtain rfl : s'.visits = begun := hbegun.trans (append_nil _)
  have hreach : ∀ q ∈ s'.visits, m.Reach root q := fun q hq => by
    obtain ⟨-,d,hd,hr⟩ := hledger.reach q hq
    rwa [List.mem_singleton.mp hd] at hr
  have hfixed := (hb.flagged flagged_start).2
  -- a target without a rule is not begun
  have hloose : ∀ p, (m.Loose p → s'.visits.count p ≤ 1) → s'.visits.count p ≤ 1 := by
    intro p hp
    by_cases hl : m.Loose p
    · exact hp hl
    · by_cases hf : m.Fixed p
      · exact hfixed p hf
      · have hnot : p ∉ s'.visits := fun hmem => hl ⟨(hledger.reach p hmem).1,hf⟩
        rw [List.count_eq_zero.mpr hnot]
        exact Nat.zero_le 1
  -- the one target that asks is begun at most once
  have hchild : ∀ {q p : Name}, m.Reach root q → (m.deps q).count p = 1 → (∀ x, m.Reach root x → p ∈ m.deps x → x = q) →
      s'.visits.count q ≤ 1 → s'.visits.count p ≤ 1 := by
    intro q p hq hone honly habove
    refine hloose p fun hl => ?_
    have hasked := hledger.asked p hl
    have hmem : p ∈ m.deps q := List.count_pos_iff.mp (by omega)
    have hroot : root ≠ p := fun heq => not_needs_root hg hq (heq ▸ hmem)
    rw [requests_of_only hone fun x hx hp => honly x (hreach x hx) hp,List.count_cons_of_ne hroot] at hasked
    simp only [count_nil,Nat.zero_add] at hasked
    exact hasked.trans habove
  induction h with
  | root =>
    refine hloose root fun hl => ?_
    have hasked := hledger.asked root hl
    rw [requests_eq_zero fun q hq => not_needs_root hg (hreach q hq)] at hasked
    simpa using hasked
  | fixed hq hone honly hf => exact hchild hq hone honly (hfixed _ hf)
  | loose hq hone honly _ ih => exact hchild hq hone honly ih

lemma once_of_count (hg : m.Grounded root) (hb : Built m rc [root] .start true s') (hp : m.Reach root p)
    (hl : m.Loose p) (hcount : s'.visits.count p = 1) : Once m root p := by
  obtain ⟨begun,ran,hbegun,hran,hledger⟩ := hb.ledger tidy_start
  obtain rfl : s'.visits = begun := hbegun.trans (append_nil _)
  obtain rfl : s'.runs = ran := hran.trans (append_nil _)
  have hdone := ((hb.tidy tidy_start).2 rfl root (mem_singleton_self root)).2
  have hbegun : ∀ x, m.Reach root x → m.lookup x ≠ none → x ∈ s'.visits := fun x hx hlook => by
    have hmem := List.count_pos_iff.mpr ((hdone x hx).2 hlook)
    have heq := (hledger.all rfl x).1
    exact List.count_pos_iff.mp (by omega)
  let above (a b : {d // m.Reach root d}) : Prop := Relation.TransGen m.Needs a.1 b.1
  have htrans : IsTrans {d // m.Reach root d} above := ⟨fun a b c hab hbc => hab.trans hbc⟩
  have hirrefl : Std.Irrefl above := ⟨fun a => Makefile.grounded_iff.mp hg a.1 a.2⟩
  have hwf : WellFounded above := Finite.wellFounded_of_trans_of_irrefl above
  have hall : ∀ a : {d // m.Reach root d}, m.Loose a.1 → s'.visits.count a.1 = 1 → Once m root a.1 := fun a => by
    induction a using hwf.induction with
    | _ a ih =>
      obtain ⟨p,hp⟩ := a
      intro hl hcount
      by_cases hroot : root = p
      · subst hroot
        exact .root
      · have hasked := (hledger.all rfl p).2 hl
        rw [List.count_cons_of_ne hroot,count_nil,Nat.zero_add,hcount] at hasked
        obtain ⟨q,hone,hq,honly⟩ := only_of_requests hasked.symm
        have hmem : q ∈ s'.visits := List.count_pos_iff.mp (by omega)
        obtain ⟨hlook,d,hd,hr⟩ := hledger.reach q hmem
        rw [List.mem_singleton.mp hd] at hr
        have hneeds : m.Needs q p := List.count_pos_iff.mp (by omega)
        have honly' : ∀ x, m.Reach root x → p ∈ m.deps x → x = q := fun x hx hpx => by
          refine honly x (hbegun x hx fun hnone => ?_) hpx
          rw [Makefile.deps_none hnone] at hpx
          cases hpx
        by_cases hf : m.Fixed q
        · exact .fixed hr hone honly' hf
        · exact .loose hr hone honly' (ih ⟨q,hr⟩ (.single hneeds) ⟨hlook,hf⟩ hq)
  exact hall ⟨p,hp⟩ hl hcount

end VibeOS.Make

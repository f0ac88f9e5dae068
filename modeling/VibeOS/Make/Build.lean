import VibeOS.Widths
import Mathlib.Data.List.Basic

/-! The rules of a Makefile as `mk_parse` leaves them, and `mk_build`. -/
namespace VibeOS.Make
open Function

/-- MK_MAX_NAME -/
def mkMaxName : ℕ := 96

/-- A `char[MK_MAX_NAME]`, up to its NUL. -/
abbrev Name := {s : List UInt8 // s.length < mkMaxName}

def Name.clip (s : List UInt8) : Name :=
  ⟨s.take (mkMaxName - 1),by rw [List.length_take]; simp only [mkMaxName]; omega⟩

abbrev Line := List UInt8

/-- `mk_rule`, without its flags. -/
structure Rule where
  target : Name
  deps : List Name
  recipe : List Line

/-- `mk_pattern` -/
structure Pattern where
  targetPrefix : Name
  targetSuffix : Name
  depPrefix : Name
  depSuffix : Name
  recipe : List Line

/-- `g_rules`, `g_patterns` and `g_phony`. -/
structure Makefile where
  rules : List Rule
  patterns : List Pattern
  phony : List Name

/-- A call of `mk_run_recipe`: the line, and what `$@`, and `$<` and `$^`, are in it. -/
structure Recipe where
  target : Name
  deps : List Name
  raw : Line
  deriving DecidableEq

/-- Where a rule's flags are: with its target, of which `mk_find_exact` only finds the first rule, or in
`g_pattern_synth`. -/
abbrev Slot := Option Name

/-- The flags, and the recipe lines that were run, each with the rule it is of. What is behind them is kept
too: the targets whose dependencies, and those whose recipes, were begun. -/
structure State where
  inProgress : Slot → Bool
  built : Slot → Bool
  log : List Recipe
  visits : List Name
  runs : List Name

def State.start : State := ⟨fun _ => false,fun _ => false,[],[],[]⟩

namespace State
variable (s : State)

/-- The end of `mk_find_pattern`, which resets its slot. -/
def found (slot : Slot) : State :=
  if slot = none then
    { s with inProgress := update s.inProgress none false, built := update s.built none false }
  else s

def begin (slot : Slot) (t : Name) : State :=
  { s with inProgress := update s.inProgress slot true, visits := t :: s.visits }

def leave (slot : Slot) : State := { s with inProgress := update s.inProgress slot false }

def finish (slot : Slot) (phony : Bool) : State :=
  { s.leave slot with built := update s.built slot !phony }

end State

namespace Makefile
variable (m : Makefile)

def mkFindExact (t : Name) : Option Rule := m.rules.find? fun r => r.target = t

def fromPattern (p : Pattern) (t : Name) : Option Rule :=
  if p.targetPrefix.1.isPrefixOf t.1 && p.targetSuffix.1.isSuffixOf t.1 &&
      decide (p.targetPrefix.1.length + p.targetSuffix.1.length ≤ t.1.length) then
    let stem := (t.1.drop p.targetPrefix.1.length).take (t.1.length - p.targetPrefix.1.length - p.targetSuffix.1.length)
    some ⟨t,[.clip (p.depPrefix.1 ++ stem ++ p.depSuffix.1)],p.recipe⟩
  else none

def mkFindPattern (t : Name) : Option Rule := m.patterns.findSome? fun p => fromPattern p t

def mkIsPhony (t : Name) : Bool := m.phony.contains t

def lookup (t : Name) : Option (Slot × Rule) :=
  match m.mkFindExact t with
  | some r => some (some t,r)
  | none => (m.mkFindPattern t).map fun r => (none,r)

/-- The loop over the recipe, where `rc` tells how the last line that was run comes out. -/
def runRecipe (rc : List Recipe → ℤ) (target : Name) (deps : List Name) : List Line → State → ℤ × State
  | [], s => (0,s)
  | raw :: lines, s =>
    let log := s.log ++ [⟨target,deps,raw⟩]
    if rc log ≠ 0 then (rc log,{ s with log := log }) else runRecipe rc target deps lines { s with log := log }

def buildDeps (build : Name → State → Option (ℤ × State)) : List Name → State → Option (Bool × State)
  | [], s => some (true,s)
  | d :: ds, s => (build d s).bind fun (r,s) => if r ≠ 0 then some (false,s) else buildDeps build ds s

/-- The end of `mk_build`, once it is over with the dependencies. -/
def buildRecipe (rc : List Recipe → ℤ) (slot : Slot) (t : Name) (r : Rule) : Bool × State → ℤ × State
  | (false,s) => (-1,s.leave slot)
  | (true,s) =>
    let (code,s) := runRecipe rc t r.deps r.recipe { s with runs := t :: s.runs }
    if code ≠ 0 then (code,s.leave slot) else (0,s.finish slot (m.mkIsPhony t))

/-- `mk_build`, with calls inside calls up to `fuel`. -/
def mkBuild (rc : List Recipe → ℤ) (fuel : ℕ) (t : Name) (s : State) : Option (ℤ × State) :=
  match fuel with
  | 0 => none
  | fuel + 1 =>
    match m.lookup t with
    | none => some (0,s)
    | some (slot,r) =>
      let s := s.found slot
      if s.built slot then some (0,s)
      else if s.inProgress slot then some (-1,s)
      else (buildDeps (mkBuild rc fuel) r.deps (s.begin slot t)).map (m.buildRecipe rc slot t r)

end Makefile

/-! What `mk_build` does for a list of targets, as a relation, and that the code does it. -/

inductive Built (m : Makefile) (rc : List Recipe → ℤ) : List Name → State → Bool → State → Prop
  | nil (s : State) : Built m rc [] s true s
  | leaf {d : Name} {ds : List Name} {s s' : State} {ok : Bool} (hd : m.lookup d = none)
      (rest : Built m rc ds s ok s') : Built m rc (d :: ds) s ok s'
  | cached {d : Name} {ds : List Name} {s s' : State} {ok : Bool} {slot : Slot} {r : Rule} (hd : m.lookup d = some (slot,r))
      (hb : (s.found slot).built slot = true) (rest : Built m rc ds (s.found slot) ok s') : Built m rc (d :: ds) s ok s'
  | cycle {d : Name} {ds : List Name} {s : State} {slot : Slot} {r : Rule} (hd : m.lookup d = some (slot,r))
      (hb : (s.found slot).built slot = false) (hp : (s.found slot).inProgress slot = true) :
      Built m rc (d :: ds) s false (s.found slot)
  | depFail {d : Name} {ds : List Name} {s s₁ : State} {slot : Slot} {r : Rule} (hd : m.lookup d = some (slot,r))
      (hb : (s.found slot).built slot = false) (hp : (s.found slot).inProgress slot = false)
      (deps : Built m rc r.deps ((s.found slot).begin slot d) false s₁) : Built m rc (d :: ds) s false (s₁.leave slot)
  | recipeFail {d : Name} {ds : List Name} {s s₁ s₂ : State} {slot : Slot} {r : Rule} {code : ℤ}
      (hd : m.lookup d = some (slot,r)) (hb : (s.found slot).built slot = false) (hp : (s.found slot).inProgress slot = false)
      (deps : Built m rc r.deps ((s.found slot).begin slot d) true s₁)
      (hrun : Makefile.runRecipe rc d r.deps r.recipe { s₁ with runs := d :: s₁.runs } = (code,s₂)) (hcode : code ≠ 0) :
      Built m rc (d :: ds) s false (s₂.leave slot)
  | done {d : Name} {ds : List Name} {s s₁ s₂ s' : State} {ok : Bool} {slot : Slot} {r : Rule}
      (hd : m.lookup d = some (slot,r)) (hb : (s.found slot).built slot = false) (hp : (s.found slot).inProgress slot = false)
      (deps : Built m rc r.deps ((s.found slot).begin slot d) true s₁)
      (hrun : Makefile.runRecipe rc d r.deps r.recipe { s₁ with runs := d :: s₁.runs } = (0,s₂))
      (rest : Built m rc ds (s₂.finish slot (m.mkIsPhony d)) ok s') : Built m rc (d :: ds) s ok s'

namespace Built
variable {m : Makefile} {rc : List Recipe → ℤ} {d : Name} {ds : List Name} {s s₁ s' : State} {ok : Bool}

lemma one_true (h : Built m rc [d] s true s₁) (rest : Built m rc ds s₁ ok s') : Built m rc (d :: ds) s ok s' := by
  cases h with
  | leaf hd hnil =>
    cases hnil
    exact .leaf hd rest
  | cached hd hb hnil =>
    cases hnil
    exact .cached hd hb rest
  | done hd hb hp deps hrun hnil =>
    cases hnil
    exact .done hd hb hp deps hrun rest

lemma one_false (h : Built m rc [d] s false s') : Built m rc (d :: ds) s false s' := by
  cases h with
  | leaf hd hnil | cached hd hb hnil | done hd hb hp deps hrun hnil => cases hnil
  | cycle hd hb hp => exact .cycle hd hb hp
  | depFail hd hb hp deps => exact .depFail hd hb hp deps
  | recipeFail hd hb hp deps hrun hcode => exact .recipeFail hd hb hp deps hrun hcode

lemma append {pre post : List Name} (h : Built m rc pre s true s₁) (h' : Built m rc post s₁ ok s') :
    Built m rc (pre ++ post) s ok s' := by
  generalize htrue : true = b at h
  induction h with
  | nil => exact h'
  | leaf hd _ ih => exact .leaf hd (ih h' htrue)
  | cached hd hb _ ih => exact .cached hd hb (ih h' htrue)
  | cycle | depFail | recipeFail => cases htrue
  | done hd hb hp deps hrun _ _ ih => exact .done hd hb hp deps hrun (ih h' htrue)

lemma append_false {pre post : List Name} {s s' : State} (h : Built m rc pre s false s') : Built m rc (pre ++ post) s false s' := by
  generalize hfalse : false = b at h
  induction h with
  | nil => cases hfalse
  | leaf hd _ ih => exact .leaf hd (ih hfalse)
  | cached hd hb _ ih => exact .cached hd hb (ih hfalse)
  | cycle hd hb hp => exact .cycle hd hb hp
  | depFail hd hb hp deps => exact .depFail hd hb hp deps
  | recipeFail hd hb hp deps hrun hcode => exact .recipeFail hd hb hp deps hrun hcode
  | done hd hb hp deps hrun _ _ ih => exact .done hd hb hp deps hrun (ih hfalse)

end Built

namespace Makefile
variable {m : Makefile} {rc : List Recipe → ℤ}

lemma buildDeps_cons (f : Name → State → Option (ℤ × State)) (d : Name) (ds : List Name) (s : State) :
    buildDeps f (d :: ds) s = (f d s).bind fun (r,s) => if r ≠ 0 then some (false,s) else buildDeps f ds s := rfl

variable {s s' : State}

lemma built_of_buildDeps {n : ℕ} {ds : List Name} {ok : Bool}
    (h : buildDeps (m.mkBuild rc n) ds s = some (ok,s')) : Built m rc ds s ok s' := by
  induction n generalizing ds s ok s' with
  | zero =>
    cases ds with
    | nil =>
      cases h
      exact .nil _
    | cons d ds => cases h
  | succ n ihn =>
    induction ds generalizing s with
    | nil =>
      cases h
      exact .nil _
    | cons d ds ihd =>
      rw [buildDeps_cons,mkBuild] at h
      split at h
      · next hd => exact .leaf hd (ihd h)
      · next slot r hd =>
        dsimp only at h
        split at h
        · next hb => exact .cached hd hb (ihd h)
        · next hb =>
          have hb := Bool.eq_false_iff.mpr hb
          split at h
          · next hp =>
            cases h
            exact .cycle hd hb hp
          · next hp =>
            have hp := Bool.eq_false_iff.mpr hp
            obtain ⟨⟨code,s₂⟩,hmap,hrest⟩ := Option.bind_eq_some_iff.mp h
            obtain ⟨⟨ok₁,s₁⟩,hdeps,hrecipe⟩ := Option.map_eq_some_iff.mp hmap
            have hbuilt := ihn hdeps
            cases ok₁ with
            | false =>
              cases hrecipe
              cases hrest
              exact .depFail hd hb hp hbuilt
            | true =>
              simp only [buildRecipe] at hrecipe
              cases hrun : runRecipe rc d r.deps r.recipe { s₁ with runs := d :: s₁.runs } with
              | mk code' s₃ =>
                rw [hrun] at hrecipe
                dsimp only at hrecipe
                split at hrecipe
                · next hcode =>
                  cases hrecipe
                  rw [if_pos hcode] at hrest
                  cases hrest
                  exact .recipeFail hd hb hp hbuilt hrun hcode
                · next hcode =>
                  cases hrecipe
                  obtain rfl : code' = 0 := not_not.mp hcode
                  exact .done hd hb hp hbuilt hrun (ihd hrest)

lemma buildDeps_of_built {ds : List Name} {ok : Bool} (h : Built m rc ds s ok s') :
    ∃ n, ∀ k ≥ n, buildDeps (m.mkBuild rc k) ds s = some (ok,s') := by
  induction h with
  | nil s => exact ⟨0,fun _ _ => rfl⟩
  | leaf hd _ ih =>
    obtain ⟨n,hn⟩ := ih
    refine ⟨n + 1,fun k hk => ?_⟩
    obtain ⟨k,rfl⟩ : ∃ j, k = j + 1 := ⟨k - 1,by omega⟩
    rw [buildDeps_cons,mkBuild,hd]
    exact hn (k + 1) (by omega)
  | cached hd hb _ ih =>
    obtain ⟨n,hn⟩ := ih
    refine ⟨n + 1,fun k hk => ?_⟩
    obtain ⟨k,rfl⟩ : ∃ j, k = j + 1 := ⟨k - 1,by omega⟩
    rw [buildDeps_cons,mkBuild,hd]
    simp only [hb,if_true]
    exact hn (k + 1) (by omega)
  | cycle hd hb hp =>
    refine ⟨1,fun k hk => ?_⟩
    obtain ⟨k,rfl⟩ : ∃ j, k = j + 1 := ⟨k - 1,by omega⟩
    rw [buildDeps_cons,mkBuild,hd]
    simp only [hb,hp,if_true,Bool.false_eq_true,if_false]
    rfl
  | depFail hd hb hp _ ih =>
    obtain ⟨n,hn⟩ := ih
    refine ⟨n + 1,fun k hk => ?_⟩
    obtain ⟨k,rfl⟩ : ∃ j, k = j + 1 := ⟨k - 1,by omega⟩
    rw [buildDeps_cons,mkBuild,hd]
    simp only [hb,hp,Bool.false_eq_true,if_false,hn k (by omega)]
    rfl
  | recipeFail hd hb hp _ hrun hcode ih =>
    obtain ⟨n,hn⟩ := ih
    refine ⟨n + 1,fun k hk => ?_⟩
    obtain ⟨k,rfl⟩ : ∃ j, k = j + 1 := ⟨k - 1,by omega⟩
    rw [buildDeps_cons,mkBuild,hd]
    simp only [hb,hp,Bool.false_eq_true,if_false,hn k (by omega),Option.map_some,Option.bind_some,buildRecipe,hrun]
    rw [if_pos hcode]
    exact if_pos hcode
  | done hd hb hp _ hrun _ ih ih' =>
    obtain ⟨n,hn⟩ := ih
    obtain ⟨n',hn'⟩ := ih'
    refine ⟨max n n' + 1,fun k hk => ?_⟩
    obtain ⟨k,rfl⟩ : ∃ j, k = j + 1 := ⟨k - 1,by omega⟩
    rw [buildDeps_cons,mkBuild,hd]
    simp only [hb,hp,Bool.false_eq_true,if_false,hn k (by omega),Option.map_some,Option.bind_some,buildRecipe,hrun,ne_eq,
      not_true_eq_false]
    exact hn' (k + 1) (by omega)

lemma built_of_mkBuild {n : ℕ} {t : Name} {r : ℤ} (h : m.mkBuild rc n t s = some (r,s')) :
    Built m rc [t] s (decide (r = 0)) s' := by
  refine built_of_buildDeps (n := n) ?_
  rw [buildDeps_cons,h,Option.bind_some]
  by_cases hr : r = 0
  · subst hr
    rfl
  · simp [hr]

lemma mkBuild_of_built {t : Name} {ok : Bool} (h : Built m rc [t] s ok s') :
    ∃ n r, m.mkBuild rc n t s = some (r,s') ∧ (r = 0 ↔ ok = true) := by
  obtain ⟨n,hn⟩ := buildDeps_of_built h
  obtain ⟨⟨r,s₁⟩,hcall,hrest⟩ := Option.bind_eq_some_iff.mp (hn n (Nat.le_refl n))
  refine ⟨n,r,?_⟩
  dsimp only at hrest
  split at hrest
  · next hr =>
    cases hrest
    exact ⟨hcall,iff_of_false hr Bool.false_ne_true⟩
  · next hr =>
    cases hrest
    exact ⟨hcall,iff_of_true (not_not.mp hr) rfl⟩

end Makefile
end VibeOS.Make

import VibeOS.Widths

/-! Runs of a machine with partial steps, where each step may have to meet a condition. -/
namespace VibeOS

variable {σ ε α : Type*} {step : σ → ε → Option (α × σ)} {P Q : σ → ε → Prop}

/-- The events lead from one state to another, and each meets the condition where it happens. -/
inductive Runs (step : σ → ε → Option (α × σ)) (P : σ → ε → Prop) : σ → List ε → σ → Prop
  | nil (s : σ) : Runs step P s [] s
  | cons {s t u : σ} {e : ε} {es : List ε} {a : α} (ok : P s e) (now : step s e = some (a,t))
      (rest : Runs step P t es u) : Runs step P s (e :: es) u

/-- The state that the events lead to, if each of them can happen. -/
def execute (step : σ → ε → Option (α × σ)) : σ → List ε → Option σ
  | s, [] => some s
  | s, e :: es => (step s e).bind fun x => execute step x.2 es

namespace Runs

lemma of_execute {s t : σ} {es : List ε} (h : execute step s es = some t) : Runs step (fun _ _ => True) s es t := by
  induction es generalizing s with
  | nil =>
    cases h
    exact .nil _
  | cons e es ih =>
    obtain ⟨⟨a,u⟩,hu,hrest⟩ := Option.bind_eq_some_iff.mp h
    exact .cons trivial hu (ih hrest)

lemma of_guarded {test : σ → ε → Bool} (htest : ∀ s e, test s e = true → P s e) {s t : σ} {es : List ε}
    (h : execute (fun s e => if test s e then step s e else none) s es = some t) : Runs step P s es t := by
  induction es generalizing s with
  | nil =>
    cases h
    exact .nil _
  | cons e es ih =>
    obtain ⟨⟨a,u⟩,hu,hrest⟩ := Option.bind_eq_some_iff.mp h
    dsimp only at hu
    split at hu
    · next ok => exact .cons (htest s e ok) hu (ih hrest)
    · cases hu

lemma append {s t u : σ} {es fs : List ε} (h : Runs step P s es t) (h' : Runs step P t fs u) :
    Runs step P s (es ++ fs) u := by
  induction h with
  | nil => exact h'
  | cons ok now _ ih => exact .cons ok now (ih h')

lemma of_forall {s t : σ} {es : List ε} (h : Runs step Q s es t) (hP : ∀ e ∈ es, ∀ s, P s e) : Runs step P s es t := by
  induction h with
  | nil s => exact .nil s
  | cons _ now _ ih =>
    exact .cons (hP _ List.mem_cons_self _) now (ih fun e he => hP e (List.mem_cons_of_mem _ he))

lemma invariant {I : σ → Prop} (hI : ∀ s e a t, I s → P s e → step s e = some (a,t) → I t)
    {s t : σ} {es : List ε} (h : Runs step P s es t) (hs : I s) : I t := by
  induction h with
  | nil => exact hs
  | cons ok now _ ih => exact ih (hI _ _ _ _ hs ok now)

lemma congr {I : σ → Prop} (hI : ∀ s e a t, I s → step s e = some (a,t) → I t) (hPQ : ∀ s e, I s → (P s e ↔ Q s e))
    {s t : σ} {es : List ε} (hs : I s) : Runs step P s es t ↔ Runs step Q s es t := by
  constructor
  · intro h
    induction h with
    | nil => exact .nil _
    | cons ok now _ ih => exact .cons ((hPQ _ _ hs).mp ok) now (ih (hI _ _ _ _ hs now))
  · intro h
    induction h with
    | nil => exact .nil _
    | cons ok now _ ih => exact .cons ((hPQ _ _ hs).mpr ok) now (ih (hI _ _ _ _ hs now))

end Runs
end VibeOS

import VibeOS.Storage.Program

/-! A store served by a layer with a state of its own. Every request of a program over the
upper store is answered by a program over the lower one; a relation that each answer keeps
carries what is known of the program over to the layer. -/
namespace VibeOS.Storage

structure Layer (σ V W : Type) where
  read : σ → ℕ → Prog W (Option V × σ)
  write : σ → ℕ → V → Prog W (Bool × σ)

variable {σ V W α β : Type}

def Layer.serve (l : Layer σ V W) : Prog V α → σ → Prog W (α × σ)
  | .ret a, s => .ret (a,s)
  | .read a k, s => l.read s a >>= fun r => l.serve (k r.1) r.2
  | .write a v k, s => l.write s a v >>= fun r => l.serve (k r.1) r.2

/-- The relation says which upper store the layer and the lower store stand for; the answers
are right at the given addresses. -/
structure Layer.Correct (l : Layer σ V W) (E : Env W) (addr : ℕ → Prop)
    (R : Store V → σ → Store W → Prop) : Prop where
  crash : ∀ u s d, R u s d → E.crash d
  read : ∀ u s d a, R u s d → addr a →
    Safe E (fun r d' => R u r.2 d' ∧ r.1 = some (u a)) (l.read s a) d
  write : ∀ u s d a v, R u s d → addr a →
    Safe E (fun r d' => R (Function.update u a v) r.2 d' ∧ r.1 = true) (l.write s a v) d

lemma Layer.Correct.serve {l : Layer σ V W} {E : Env W} {addr : ℕ → Prop}
    {R : Store V → σ → Store W → Prop} (h : l.Correct E addr R) {p : Prog V α}
    {Q : α → Store V → Prop} {u : Store V} {s : σ} {d : Store W}
    (hp : Safe ((Env.reliable).withAddr addr) Q p u) (hR : R u s d) :
    Safe E (fun r d' => ∃ u', R u' r.2 d' ∧ Q r.1 u') (l.serve p s) d := by
  induction p generalizing u s d with
  | ret a => exact ⟨h.crash u s d hR,u,hR,hp.2⟩
  | read a k ih =>
    refine (h.read u s d a hR hp.2.1).seq fun r d' ⟨hR',hr⟩ => ?_
    have hk := hp.2.2 .ok rfl
    rw [hr]
    exact ih _ hk hR'
  | write a v k ih =>
    refine (h.write u s d a v hR hp.2.1).seq fun r d' ⟨hR',hr⟩ => ?_
    have hk := hp.2.2 .ok rfl
    rw [hr]
    exact ih _ hk hR'

/-- The program makes no write on a device that answers every request. -/
def Prog.Quiet : Prog V α → Store V → Prop
  | .ret _, _ => True
  | .read a k, d => (k (some (d a))).Quiet d
  | .write _ _ _, _ => False

lemma Prog.Quiet.bind {p : Prog V α} {f : α → Prog V β} {d : Store V} (h : p.Quiet d)
    (hf : (f (p.run d).1).Quiet d) : (p >>= f).Quiet d := by
  induction p with
  | ret a => exact hf
  | read a k ih => exact ih _ h hf
  | write a v k => exact h.elim

lemma Prog.Quiet.safe {p : Prog V α} {d : Store V} {C : Store V → Prop} {Q : α → Store V → Prop}
    (h : p.Quiet d) (hp : Safe Env.reliable Q p d) (hc : C d) :
    Safe ((Env.reliable).withCrash C) (fun a d' => d' = d ∧ Q a d') p d := by
  induction p with
  | ret a => exact ⟨hc,rfl,hp.2⟩
  | read a k ih =>
    refine ⟨hc,trivial,fun o ho => ?_⟩
    cases ho
    exact ih _ h (hp.2.2 .ok rfl)
  | write a v k => exact h.elim

def Prog.ReadOnly : Prog V α → Prop
  | .ret _ => True
  | .read _ k => ∀ r, (k r).ReadOnly
  | .write _ _ _ => False

end VibeOS.Storage

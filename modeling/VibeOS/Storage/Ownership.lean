import VibeOS.Widths

/-! Exclusive ownership of resources. A position owns a resource or nothing (`nil`); no two
positions own the same resource and every owned resource is held. The rules say how the
ownership survives when a fresh resource is acquired and when positions give theirs back. -/
namespace VibeOS.Storage
open Function

variable {ι β : Type} {nil : β} {held held' : β → Prop} {own own' : ι → β}

structure Owns (nil : β) (held : β → Prop) (own : ι → β) : Prop where
  held : ∀ p, own p ≠ nil → held (own p)
  inj : ∀ p q, own p ≠ nil → own p = own q → p = q

namespace Owns

lemma mono (h : Owns nil held own) (hh : ∀ b, held b → held' b) : Owns nil held' own :=
  ⟨fun p hp => hh _ (h.held p hp),h.inj⟩

lemma ne_of_not_held (h : Owns nil held own) {b : β} (hb : ¬ held b) {p : ι} (hp : own p ≠ nil) :
    own p ≠ b := by
  rintro rfl
  exact hb (h.held p hp)

lemma release (h : Owns nil held own) (hs : ∀ p, own' p = nil ∨ own' p = own p)
    (hd : ∀ b, held b → held' b ∨ ∀ q, own q = b → own' q = nil) : Owns nil held' own' := by
  have hkeep (p : ι) (hp : own' p ≠ nil) : own' p = own p := (hs p).resolve_left hp
  refine ⟨fun p hp => ?_,fun p q hp hpq => ?_⟩
  · have hown : own p ≠ nil := hkeep p hp ▸ hp
    rcases hd (own p) (h.held p hown) with hheld | hgone
    · rwa [hkeep p hp]
    · exact absurd (hgone p rfl) hp
  · have hq : own' q ≠ nil := hpq ▸ hp
    rw [hkeep p hp,hkeep q hq] at hpq
    exact h.inj p q (hkeep p hp ▸ hp) hpq

lemma forget (h : Owns nil held own) (hs : ∀ p, own' p = nil ∨ own' p = own p) :
    Owns nil held own' :=
  h.release hs fun _ hb => .inl hb

variable [DecidableEq ι]

lemma acquire (h : Owns nil held own) (p : ι) {b : β} (hb : ¬ held b)
    (hh : ∀ c, held c ∨ c = b → held' c) : Owns nil held' (update own p b) := by
  have hother (q : ι) (hq : q ≠ p) : update own p b q = own q := update_of_ne hq _ _
  refine ⟨fun q hq => ?_,fun q r hq hqr => ?_⟩
  · by_cases hqp : q = p
    · subst hqp
      rw [update_self]
      exact hh b (.inr rfl)
    · rw [hother q hqp] at hq ⊢
      exact hh _ (.inl (h.held q hq))
  · by_cases hqp : q = p <;> by_cases hrp : r = p
    · rw [hqp,hrp]
    · subst hqp
      rw [update_self] at hq hqr
      rw [hother r hrp] at hqr
      exact absurd hqr.symm (h.ne_of_not_held hb (hqr ▸ hq))
    · subst hrp
      rw [update_self,hother q hqp] at hqr
      rw [hother q hqp] at hq
      exact absurd hqr (h.ne_of_not_held hb hq)
    · rw [hother q hqp] at hq hqr
      rw [hother r hrp] at hqr
      exact h.inj q r hq hqr

lemma transfer (h : Owns nil held own) (p q : ι) (hq : own q = nil) :
    Owns nil held (update (update own p nil) q (own p)) := by
  by_cases hpq : p = q
  · subst hpq
    rw [update_idem,update_eq_self]
    exact h
  -- the owner of a resource, seen from the owner it has now
  have hback (x : ι) (hx : update (update own p nil) q (own p) x ≠ nil) :
      ∃ y, own y = update (update own p nil) q (own p) x ∧ x = if y = p then q else y := by
    by_cases hxq : x = q
    · subst hxq
      exact ⟨p,by rw [update_self],(if_pos rfl).symm⟩
    · rw [update_of_ne hxq] at hx ⊢
      by_cases hxp : x = p
      · subst hxp
        exact absurd (update_self _ _ _) hx
      · rw [update_of_ne hxp]
        exact ⟨x,rfl,(if_neg hxp).symm⟩
  refine ⟨fun x hx => ?_,fun x y hx hxy => ?_⟩
  · obtain ⟨x',heq,-⟩ := hback x hx
    rw [← heq] at hx ⊢
    exact h.held x' hx
  · obtain ⟨x',heq,hx'⟩ := hback x hx
    obtain ⟨y',heq',hy'⟩ := hback y (hxy ▸ hx)
    have hown : own x' = own y' := heq.trans (hxy.trans heq'.symm)
    rw [hx',hy',h.inj x' y' (heq ▸ hx) hown]

end Owns
end VibeOS.Storage

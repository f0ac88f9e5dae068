import VibeOS.Widths
import Mathlib.Data.List.Nodup

/-! Objects with a reference count, freed when it drops to zero. The rules say what the operations
keep where every holder has one reference. -/
namespace VibeOS.Storage
open Function

structure Counted where
  refs : ℕ → ℤ
  freed : List ℕ

namespace Counted
variable (c : Counted) {made : ℕ → Prop} {n : ℕ → ℕ} {a m : ℕ}

def create (a : ℕ) : Counted := { c with refs := update c.refs a 1 }

def share (a : ℕ) : Counted := { c with refs := update c.refs a (c.refs a + 1) }

def unref (a : ℕ) : Counted :=
  let r := c.refs a - 1
  { refs := update c.refs a r,freed := if r > 0 then c.freed else a :: c.freed }

/-- An object that was made has as many references as holders, and is freed once when it has none. -/
def Fits (made : ℕ → Prop) (n : ℕ → ℕ) : Prop :=
  ∀ a, (made a → c.refs a = n a ∧ c.freed.count a = if n a = 0 then 1 else 0) ∧
    (¬ made a → n a = 0 ∧ c.freed.count a = 0)

variable {c}

lemma Fits.made_of_pos (h : c.Fits made n) (hn : 0 < n a) : made a := by
  by_contra hno
  have := ((h a).2 hno).1
  omega

lemma Fits.create (h : c.Fits made n) (ha : ¬ made a) : (c.create a).Fits (fun b => b = a ∨ made b) (update n a 1) := by
  intro b
  by_cases hb : b = a
  · subst hb
    refine ⟨fun _ => ⟨?_,?_⟩,fun hno => absurd (.inl rfl) hno⟩
    · simp [Counted.create]
    · rw [update_self]
      exact ((h b).2 ha).2
  · unfold Counted.create
    dsimp only
    rw [update_of_ne hb,update_of_ne hb]
    exact ⟨fun hm => (h b).1 (hm.resolve_left hb),fun hno => (h b).2 fun hm => hno (.inr hm)⟩

lemma Fits.share (h : c.Fits made n) (ha : 0 < n a) : (c.share a).Fits made (update n a (n a + 1)) := by
  intro b
  unfold Counted.share
  by_cases hb : b = a
  · subst hb
    obtain ⟨hrefs,hfreed⟩ := (h b).1 (h.made_of_pos ha)
    rw [if_neg (by omega)] at hfreed
    refine ⟨fun _ => ⟨?_,?_⟩,fun hno => absurd (h.made_of_pos ha) hno⟩
    · dsimp only
      rw [update_self,update_self,hrefs]
      push_cast
      rfl
    · rw [update_self,if_neg (Nat.succ_ne_zero _)]
      exact hfreed
  · dsimp only
    rw [update_of_ne hb,update_of_ne hb]
    exact h b

lemma Fits.unref (h : c.Fits made n) (ha : n a = m + 1) : (c.unref a).Fits made (update n a m) := by
  have hmade := h.made_of_pos (a := a) (by omega)
  obtain ⟨hrefs,hfreed⟩ := (h a).1 hmade
  rw [if_neg (by omega)] at hfreed
  have hr : c.refs a - 1 = m := by
    rw [hrefs,ha]
    push_cast
    omega
  intro b
  unfold Counted.unref
  dsimp only
  rw [hr]
  by_cases hb : b = a
  · subst hb
    refine ⟨fun _ => ⟨?_,?_⟩,fun hno => absurd hmade hno⟩
    · rw [update_self,update_self]
    · rw [update_self]
      split_ifs with h₁ h₂ h₂
      · omega
      · exact hfreed
      · rw [List.count_cons_self,hfreed]
      · omega
  · have hcount : (if (m : ℤ) > 0 then c.freed else a :: c.freed).count b = c.freed.count b := by
      split
      · rfl
      · exact List.count_cons_of_ne (Ne.symm hb)
    rw [update_of_ne hb,update_of_ne hb,hcount]
    exact h b

lemma Fits.congr {made' : ℕ → Prop} {n' : ℕ → ℕ} (h : c.Fits made n) (hm : ∀ a, made' a ↔ made a) (hn : ∀ a, n' a = n a) :
    c.Fits made' n' := by
  intro a
  rw [hm,hn]
  exact h a

lemma Fits.drop {n' : ℕ → ℕ} (h : c.Fits made n) (x : Option ℕ) (hn : ∀ a, n' a + (x == some a).toNat = n a) :
    (match x with
      | some a => c.unref a
      | none => c).Fits made n' := by
  cases x with
  | none => exact h.congr (fun _ => .rfl) hn
  | some a =>
    have ha : n a = n' a + 1 := by
      have := hn a
      simp only [beq_self_eq_true,Bool.toNat_true] at this
      exact this.symm
    refine (h.unref ha).congr (fun _ => .rfl) fun b => ?_
    rcases eq_or_ne b a with rfl | hne
    · rw [update_self]
    · have := hn b
      simp only [Option.some_beq_some,beq_eq_false_iff_ne.mpr hne.symm,Bool.toNat_false,Nat.add_zero] at this
      rw [update_of_ne hne]
      exact this

lemma Fits.first (h : c.Fits made n) (ha : ¬ made a) :
    (c.create a).Fits (fun b => some a = some b ∨ made b) fun b => n b + (some a == some b).toNat := by
  refine (h.create ha).congr (fun b => ?_) fun b => ?_
  · rw [Option.some_inj,eq_comm]
  · rcases eq_or_ne b a with rfl | hne
    · rw [update_self,((h b).2 ha).1,beq_self_eq_true]
      rfl
    · rw [update_of_ne hne,beq_eq_false_iff_ne.mpr fun heq => hne (Option.some_inj.mp heq).symm]
      rfl

lemma Fits.further (h : c.Fits made n) (ha : 0 < n a) :
    (c.share a).Fits (fun b => some a = some b ∨ made b) fun b => n b + (some a == some b).toNat := by
  refine (h.share ha).congr (fun b => ?_) fun b => ?_
  · constructor
    · rintro (heq | hm)
      · cases heq
        exact h.made_of_pos ha
      · exact hm
    · exact .inr
  · rcases eq_or_ne b a with rfl | hne
    · rw [update_self,beq_self_eq_true]
      rfl
    · rw [update_of_ne hne,beq_eq_false_iff_ne.mpr fun heq => hne (Option.some_inj.mp heq).symm]
      rfl

lemma Fits.nobody (h : c.Fits made n) : c.Fits (fun b => none = some b ∨ made b) fun b => n b + (none == some b).toNat :=
  h.congr (fun _ => by simp) fun _ => rfl

end Counted

variable {T : Type} {all : ℕ → Option T} {p : T → Bool} {N s : ℕ}

/-- How many of the first `N` entries satisfy `p`. -/
def tally (N : ℕ) (all : ℕ → Option T) (p : T → Bool) : ℕ := (List.range N).countP fun s => (all s).any p

lemma tally_succ : tally (N + 1) all p = tally N all p + ((all N).any p).toNat := by
  unfold tally
  rw [List.range_succ,List.countP_append,List.countP_singleton]
  cases (all N).any p <;> rfl

lemma tally_congr {all' : ℕ → Option T} {q : T → Bool} (h : ∀ s, s < N → (all' s).any q = (all s).any p) : tally N all' q = tally N all p :=
  List.countP_congr fun s hs => by rw [h s (List.mem_range.mp hs)]

lemma tally_le : tally N all p ≤ N := (List.countP_le_length).trans (List.length_range).le

lemma tally_update (o : Option T) (hs : s < N) :
    tally N (update all s o) p + ((all s).any p).toNat = tally N all p + (o.any p).toNat := by
  induction N with
  | zero => omega
  | succ N ih =>
    rw [tally_succ,tally_succ]
    rcases Nat.lt_succ_iff_lt_or_eq.mp hs with hlt | rfl
    · have := ih hlt
      rw [update_of_ne (by omega)]
      omega
    · have hsame : tally s (update all s o) p = tally s all p :=
        tally_congr fun r hr => by rw [update_of_ne (by omega)]
      rw [hsame,update_self]
      omega

lemma tally_pos (hs : s < N) (hp : (all s).any p = true) : 0 < tally N all p :=
  List.countP_pos_iff.mpr ⟨s,List.mem_range.mpr hs,hp⟩

lemma tally_mono {M : ℕ} (h : N ≤ M) : tally N all p ≤ tally M all p :=
  (List.range_sublist.mpr h).countP_le

lemma tally_update_le (k : ℕ) (o : Option T) : tally N (update all k o) p ≤ tally N all p + (o.any p).toNat := by
  rcases Nat.lt_or_ge k N with hk | hk
  · have : tally N (update all k o) p + ((all k).any p).toNat = tally N all p + (o.any p).toNat := tally_update o hk
    omega
  · have hsame : tally N (update all k o) p = tally N all p :=
      tally_congr fun r hr => by rw [update_of_ne (by omega)]
    omega

lemma tally_remove {k r : ℕ} {o : Option T} (hk : (all k).any p = true) (ho : o.any p = false) (h : ∀ N, tally N all p ≤ r) (N : ℕ) :
    tally N (update all k o) p ≤ r - 1 := by
  have hmono : tally N (update all k o) p ≤ tally (max N (k + 1)) (update all k o) p := tally_mono (Nat.le_max_left ..)
  have hupdate : tally (max N (k + 1)) (update all k o) p + ((all k).any p).toNat =
      tally (max N (k + 1)) all p + (o.any p).toNat :=
    tally_update o (Nat.lt_of_lt_of_le (Nat.lt_succ_self k) (Nat.le_max_right N (k + 1)))
  have hr := h (max N (k + 1))
  rw [hk,ho,Bool.toNat_true,Bool.toNat_false] at hupdate
  omega

section Tracked
variable {α : Type*} [DecidableEq α]

/-- What was freed fits the references: an object that is known is freed once when it has none. -/
structure Tracked (known : α → Prop) (refs : α → ℕ) (frees : List α) : Prop where
  seen : ∀ o, 0 < refs o → known o
  dead : ∀ o, known o → refs o = 0 → frees.count o = 1
  alive : ∀ o, 0 < refs o ∨ ¬ known o → frees.count o = 0

variable {known : α → Prop} {refs : α → ℕ} {frees : List α} {o a : α}

lemma Tracked.nodup (h : Tracked known refs frees) : frees.Nodup := by
  refine List.nodup_iff_count_le_one.mpr fun o => ?_
  by_cases hk : known o
  · rcases Nat.eq_zero_or_pos (refs o) with hz | hpos
    · exact (h.dead o hk hz).le
    · rw [h.alive o (.inl hpos)]
      exact Nat.zero_le 1
  · rw [h.alive o (.inr hk)]
    exact Nat.zero_le 1

lemma Tracked.not_mem (h : Tracked known refs frees) (ho : 0 < refs o) : o ∉ frees :=
  List.count_eq_zero.mp (h.alive o (.inl ho))

lemma Tracked.mem_iff (h : Tracked known refs frees) (hk : known o) : o ∈ frees ↔ refs o = 0 := by
  constructor
  · intro hmem
    by_contra hne
    exact h.not_mem (Nat.pos_of_ne_zero hne) hmem
  · intro hz
    refine List.count_pos_iff.mp ?_
    rw [h.dead o hk hz]
    exact Nat.one_pos

lemma Tracked.drop (h : Tracked known refs frees) (ha : 0 < refs a) :
    Tracked known (update refs a (refs a - 1)) (if refs a - 1 = 0 then a :: frees else frees) := by
  have hcount (o : α) (ho : o ≠ a) : (if refs a - 1 = 0 then a :: frees else frees).count o = frees.count o := by
    split
    · exact List.count_cons_of_ne (Ne.symm ho)
    · rfl
  refine ⟨fun o ho => ?_,fun o hk hz => ?_,fun o ho => ?_⟩
  · rcases eq_or_ne o a with rfl | hne
    · exact h.seen o ha
    · rw [update_of_ne hne] at ho
      exact h.seen o ho
  · rcases eq_or_ne o a with rfl | hne
    · rw [update_self] at hz
      rw [if_pos hz,List.count_cons_self,h.alive o (.inl ha)]
    · rw [update_of_ne hne] at hz
      rw [hcount o hne]
      exact h.dead o hk hz
  · rcases eq_or_ne o a with rfl | hne
    · rw [update_self] at ho
      have hpos := ho.resolve_right (not_not.mpr (h.seen o ha))
      rw [if_neg (by omega)]
      exact h.alive o (.inl ha)
    · rw [update_of_ne hne] at ho
      rw [hcount o hne]
      exact h.alive o ho

end Tracked

end VibeOS.Storage

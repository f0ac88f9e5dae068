import VibeOS.Threads.Lifecycle

/-! What an exited thread had is freed when its parent reaps it or exits, as long as no parent exits
before its child. -/
namespace VibeOS.Threads.Lifecycle
open Function List Option
open VibeOS.Storage

namespace Kernel
variable (k : Kernel)

/-- The thread has exited, and its parent has reaped it or has itself exited. -/
def due (s : ℕ) : Bool := k.exits s && (k.reaped s || (k.creator s).any k.exits)

def unreclaimed (s : ℕ) : Option Thread := if k.due s then none else k.born s

def living (s : ℕ) : Option Thread := if k.exits s then none else k.born s

def IsSpace (a : ℕ) : Prop := ∃ s b, k.born s = some b ∧ b.as = some a

def IsTable (f : ℕ) : Prop := ∃ s b, k.born s = some b ∧ b.fdt = some f

end Kernel

def usesSpace (a : ℕ) (t : Thread) : Bool := t.as == some a
def usesTable (f : ℕ) (t : Thread) : Bool := t.fdt == some f

structure Reclaimed (k : Kernel) : Prop where
  once : ∀ s b, k.born s = some b → k.due s = true →
    k.structFrees.count s = 1 ∧ k.stackFrees.count s = b.stack.toNat ∧ k.ringFrees.count s = (k.traced s).toNat
  before : ∀ s, k.due s = false → k.structFrees.count s = 0 ∧ k.ringFrees.count s = 0 ∧ k.stackFrees.count s ≤ 1
  /-- A space has a reference for each thread that is not reclaimed, and is destroyed once it has none. -/
  spaces : k.spaces.Fits k.IsSpace fun a => tally k.made k.unreclaimed (usesSpace a)
  tables : k.tables.Fits k.IsTable fun f => tally k.made k.living (usesTable f)
  count : k.count = tally k.made k.unreclaimed fun _ => true

/-- No thread exits whose parent exited before, and the ids have not run over. -/
def Fostered (k : Kernel) : Event → Prop
  | .create _ _ _ => k.made < 2^31
  | .exit p => ∀ t, k.all p = some t → 0 ≤ t.parent
  | _ => True

structure Listing (k : Kernel) : Prop where
  serial : ∀ s t, k.all s = some t → t.serial = s
  listed : ∀ s, k.all s = none ↔ k.made ≤ s ∨ k.reaped s = true
  born : ∀ s t, k.all s = some t → ∃ b, k.born s = some b ∧ t.as = b.as ∧ t.fdt = b.fdt
  unborn : ∀ s, k.made ≤ s → k.born s = none ∧ k.traced s = false ∧ k.reaped s = false
  names : ∀ s b, k.born s = some b → (∀ a, b.as = some a → a < k.made) ∧ ∀ f, b.fdt = some f → f < k.made
  small : k.made ≤ 2^31

structure Frees (k : Kernel) (s : ℕ) : Prop where
  ofStruct : k.structFrees.count s = (k.reaped s).toNat
  ofStack : k.stackFrees.count s + ((k.all s).any (·.stack)).toNat = ((k.born s).any (·.stack)).toNat
  ofRing : k.ringFrees.count s = (k.reaped s && k.traced s).toNat
  strace : ∀ t, k.all s = some t → t.strace = k.traced s

/-- What threads share has a reference for each of them. -/
structure Counts (k : Kernel) : Prop where
  spaces : k.spaces.Fits k.IsSpace fun a => tally k.made k.all (usesSpace a)
  tables : k.tables.Fits k.IsTable fun f => tally k.made k.all fun t => usesTable f t && !t.exited
  count : k.count = tally k.made k.all fun _ => true

structure Ledger (k : Kernel) : Prop where
  listing : Listing k
  frees : ∀ s, Frees k s
  counts : Counts k

structure Family (k : Kernel) : Prop where
  exited : ∀ s t, k.all s = some t → t.exited = k.exits s
  parent : ∀ s t, k.all s = some t →
    t.parent = match k.creator s with
      | some c => if k.exits c then -1 else pid c
      | none => -1
  creator : ∀ s c, k.creator s = some c → c < s ∧ s < k.made
  reaped : ∀ s, k.reaped s = true → k.exits s = true
  swept : ∀ s c, k.creator s = some c → k.exits s = true → k.exits c = true → k.reaped s = true
  unborn : ∀ s, k.made ≤ s → k.exits s = false

variable {k k' : Kernel} {s r p me : ℕ} {t u u' : Thread} {o : Option Thread}

lemma pid_eq (hs : s < 2^31) : pid s = s := by
  unfold pid
  rw [Int.bmod_eq_of_le] <;> push_cast <;> omega

lemma Listing.lt (h : Listing k) (hs : k.all s = some t) : s < k.made := by
  by_contra hno
  have := (h.listed s).mpr (.inl (Nat.le_of_not_lt hno))
  rw [hs] at this
  cases this

lemma Listing.not_reaped (h : Listing k) (hs : k.all s = some t) : k.reaped s = false := by
  by_contra hno
  have := (h.listed s).mpr (.inr (Bool.eq_true_of_not_eq_false hno))
  rw [hs] at this
  cases this

/-- The kernels differ in one entry of the list, and in what was freed for it. -/
structure Change (k k' : Kernel) (s : ℕ) (u : Thread) (o : Option Thread) : Prop where
  was : k.all s = some u
  all : k'.all = update k.all s o
  made : k'.made = k.made
  born : k'.born = k.born
  keeps : ∀ t, o = some t → t.serial = s ∧ t.as = u.as ∧ t.fdt = u.fdt
  reaped : k'.reaped = update k.reaped s o.isNone
  traced : ∀ r, r ≠ s → k'.traced r = k.traced r
  frees : ∀ r, r ≠ s → k'.structFrees.count r = k.structFrees.count r ∧ k'.stackFrees.count r = k.stackFrees.count r ∧
    k'.ringFrees.count r = k.ringFrees.count r

lemma Change.all_of_ne (hc : Change k k' s u o) (hr : r ≠ s) : k'.all r = k.all r := by
  rw [hc.all,update_of_ne hr]

lemma Change.all_self (hc : Change k k' s u o) : k'.all s = o := by
  rw [hc.all,update_self]

lemma Change.listing (hc : Change k k' s u o) (h : Listing k) : Listing k' := by
  have hlt := h.lt hc.was
  refine ⟨fun r t hr => ?_,fun r => ?_,fun r t hr => ?_,fun r hr => ?_,?_,hc.made ▸ h.small⟩
  · rcases eq_or_ne r s with rfl | hne
    · exact (hc.keeps t (hc.all_self ▸ hr)).1
    · exact h.serial r t (hc.all_of_ne hne ▸ hr)
  · rw [hc.made,hc.reaped]
    rcases eq_or_ne r s with rfl | hne
    · rw [hc.all_self,update_self,isNone_iff_eq_none]
      exact ⟨.inr,fun h => h.resolve_left (by omega)⟩
    · rw [hc.all_of_ne hne,update_of_ne hne]
      exact h.listed r
  · rw [hc.born]
    rcases eq_or_ne r s with rfl | hne
    · obtain ⟨b,hb,has,hfdt⟩ := h.born r u hc.was
      obtain ⟨-,has',hfdt'⟩ := hc.keeps t (hc.all_self ▸ hr)
      exact ⟨b,hb,has'.trans has,hfdt'.trans hfdt⟩
    · exact h.born r t (hc.all_of_ne hne ▸ hr)
  · rw [hc.made] at hr
    have hne : r ≠ s := by omega
    rw [hc.born,hc.traced r hne,hc.reaped,update_of_ne hne]
    exact h.unborn r hr
  · rw [hc.made,hc.born]
    exact h.names

lemma Change.frees_of_ne (hc : Change k k' s u o) (hr : r ≠ s) (h : Frees k r) : Frees k' r := by
  obtain ⟨h₁,h₂,h₃⟩ := hc.frees r hr
  refine ⟨?_,?_,?_,?_⟩
  · rw [h₁,hc.reaped,update_of_ne hr]
    exact h.ofStruct
  · rw [h₂,hc.all_of_ne hr,hc.born]
    exact h.ofStack
  · rw [h₃,hc.reaped,update_of_ne hr,hc.traced r hr]
    exact h.ofRing
  · rw [hc.all_of_ne hr,hc.traced r hr]
    exact h.strace

lemma Change.tally (hc : Change k k' s u o) (h : Listing k) (q : Thread → Bool) :
    tally k'.made k'.all q + (q u).toNat = Storage.tally k.made k.all q + (o.any q).toNat := by
  have hu : Storage.tally k.made (update k.all s o) q + ((k.all s).any q).toNat =
      Storage.tally k.made k.all q + (o.any q).toNat := tally_update o (h.lt hc.was)
  rw [hc.was] at hu
  rw [hc.all,hc.made]
  exact hu

lemma isSpace_congr (hb : k'.born = k.born) (a : ℕ) : k'.IsSpace a ↔ k.IsSpace a := by
  unfold Kernel.IsSpace
  rw [hb]

lemma isTable_congr (hb : k'.born = k.born) (f : ℕ) : k'.IsTable f ↔ k.IsTable f := by
  unfold Kernel.IsTable
  rw [hb]

lemma Change.counts (hc : Change k k' s u (some u')) (h : Listing k) (hk : Counts k) (hspaces : k'.spaces = k.spaces)
    (htables : k'.tables = k.tables) (hcount : k'.count = k.count) (hexited : u'.exited = u.exited) : Counts k' := by
  obtain ⟨-,has,hfdt⟩ := hc.keeps u' rfl
  have hsame {q : Thread → Bool} (hq : q u' = q u) : Storage.tally k'.made k'.all q = Storage.tally k.made k.all q := by
    have := hc.tally h q
    rw [any_some,hq] at this
    omega
  refine ⟨?_,?_,?_⟩
  · rw [hspaces]
    exact hk.spaces.congr (isSpace_congr hc.born) fun a => hsame (by unfold usesSpace; rw [has])
  · rw [htables]
    exact hk.tables.congr (isTable_congr hc.born) fun f => hsame (by unfold usesTable; rw [hfdt,hexited])
  · rw [hcount,hk.count]
    exact (hsame rfl).symm

lemma change_set (h : Listing k) (hs : k.all s = some u) (v : ℤ) :
    Change k (k.set s (some { u with parent := v })) s u (some { u with parent := v }) where
  was := hs
  all := rfl
  made := rfl
  born := rfl
  keeps t ht := by
    cases ht
    exact ⟨h.serial s u hs,rfl,rfl⟩
  reaped := by
    rw [isNone_some,← h.not_reaped hs,update_eq_self]
    rfl
  traced _ _ := rfl
  frees _ _ := ⟨rfl,rfl,rfl⟩

lemma Ledger.set (h : Ledger k) (hs : k.all s = some u) (v : ℤ) : Ledger (k.set s (some { u with parent := v })) := by
  have hc := change_set h.listing hs v
  refine ⟨hc.listing h.listing,fun r => ?_,hc.counts h.listing h.counts rfl rfl rfl rfl⟩
  rcases eq_or_ne r s with rfl | hne
  · obtain ⟨h₁,h₂,h₃,h₄⟩ := h.frees r
    rw [hs] at h₂
    exact ⟨h₁,by rw [hc.all_self]; exact h₂,h₃,fun t' ht' => by
      rw [hc.all_self] at ht'
      cases ht'
      exact h₄ u hs⟩
  · exact hc.frees_of_ne hne (h.frees r)

lemma count_cons_of_ne {l : List ℕ} {c : Prop} [Decidable c] (hr : r ≠ s) : (if c then s :: l else l).count r = l.count r := by
  split
  · exact List.count_cons_of_ne hr.symm
  · rfl

lemma count_cons_self {l : List ℕ} {b : Bool} : (if b then s :: l else l).count s = l.count s + b.toNat := by
  cases b
  · rfl
  · exact List.count_cons_self

lemma change_reclaim (h : Listing k) (hs : k.all s = some u) : Change k (k.reclaim u) s u none := by
  have hserial := h.serial s u hs
  subst hserial
  exact ⟨hs,rfl,rfl,rfl,nofun,rfl,fun _ _ => rfl,fun r hr => ⟨List.count_cons_of_ne hr.symm,count_cons_of_ne hr,count_cons_of_ne hr⟩⟩

lemma Ledger.reclaim (h : Ledger k) (hs : k.all s = some u) (hu : u.exited = true) : Ledger (k.reclaim u) := by
  have hc := change_reclaim h.listing hs
  have htally (q : Thread → Bool) := hc.tally h.listing q
  have hserial := h.listing.serial s u hs
  subst hserial
  refine ⟨hc.listing h.listing,fun r => ?_,?_,?_,?_⟩
  · rcases eq_or_ne r u.serial with rfl | hne
    · obtain ⟨h₁,h₂,h₃,h₄⟩ := h.frees u.serial
      have hnot := h.listing.not_reaped hs
      rw [hnot] at h₁ h₃
      rw [hs] at h₂
      refine ⟨?_,?_,?_,fun t' ht' => ?_⟩
      · rw [hc.reaped,update_self]
        exact List.count_cons_self.trans (congrArg Nat.succ h₁)
      · rw [hc.all_self]
        exact count_cons_self.trans h₂
      · rw [hc.reaped,update_self,isNone_none,Bool.true_and]
        refine count_cons_self.trans ?_
        rw [h₃,h₄ u hs,Bool.false_and,Bool.toNat_false,Nat.zero_add]
        rfl
      · rw [hc.all_self] at ht'
        cases ht'
    · exact hc.frees_of_ne hne (h.frees r)
  · exact (h.counts.spaces.drop u.as fun a => htally (usesSpace a)).congr (isSpace_congr rfl) fun _ => rfl
  · refine h.counts.tables.congr (isTable_congr rfl) fun f => ?_
    have := htally fun t => usesTable f t && !t.exited
    rw [hu,Bool.not_true,Bool.and_false] at this
    exact this
  · have := htally fun _ => true
    have hle : tally k.made k.all (fun _ => true) ≤ k.made := tally_le
    have hsmall := h.listing.small
    have hcount := h.counts.count
    rw [Bool.toNat_true,any_none,Bool.toNat_false] at this
    change (k.count + (2^32 - 1)) % 2^32 = _
    omega

lemma change_mark (h : Listing k) (hs : k.all s = some t) :
    Change k ((k.closeAll t).set s (some { t with exited := true })) s t (some { t with exited := true }) where
  was := hs
  all := rfl
  made := rfl
  born := rfl
  keeps t' ht' := by
    cases ht'
    exact ⟨h.serial s t hs,rfl,rfl⟩
  reaped := by
    rw [isNone_some,← h.not_reaped hs,update_eq_self]
    rfl
  traced _ _ := rfl
  frees _ _ := ⟨rfl,rfl,rfl⟩

lemma Ledger.mark (h : Ledger k) (hs : k.all s = some t) (ht : t.exited = false) :
    Ledger ((k.closeAll t).set s (some { t with exited := true })) := by
  have hc := change_mark h.listing hs
  have htally (q : Thread → Bool) := hc.tally h.listing q
  refine ⟨hc.listing h.listing,fun r => ?_,?_,?_,?_⟩
  · rcases eq_or_ne r s with rfl | hne
    · obtain ⟨h₁,h₂,h₃,h₄⟩ := h.frees r
      rw [hs] at h₂
      exact ⟨h₁,by rw [hc.all_self]; exact h₂,h₃,fun t' ht' => by
        rw [hc.all_self] at ht'
        cases ht'
        exact h₄ t hs⟩
    · exact hc.frees_of_ne hne (h.frees r)
  · exact h.counts.spaces.congr (isSpace_congr rfl) fun a => Nat.add_right_cancel (htally (usesSpace a))
  · refine (h.counts.tables.drop t.fdt fun f => ?_).congr (isTable_congr rfl) fun _ => rfl
    have := htally fun t => usesTable f t && !t.exited
    rw [ht,Bool.not_false,Bool.and_true,any_some,Bool.not_true,Bool.and_false,Bool.toNat_false] at this
    exact this
  · exact h.counts.count.trans (Nat.add_right_cancel (htally fun _ => true)).symm

lemma change_drain (h : Listing k) (hs : k.all s = some u) (hserial : t.serial = s) :
    Change k (k.drain t) s u (some { u with stack := false }) := by
  subst hserial
  refine ⟨hs,?_,rfl,rfl,?_,?_,fun _ _ => rfl,fun r hr => ⟨rfl,count_cons_of_ne hr,rfl⟩⟩
  · unfold Kernel.drain
    rw [hs]
    rfl
  · intro t' ht'
    cases ht'
    exact ⟨h.serial _ u hs,rfl,rfl⟩
  · rw [isNone_some,← h.not_reaped hs,update_eq_self]
    rfl

lemma Ledger.drain (h : Ledger k) (hs : k.all s = some u) (hserial : t.serial = s) (hstack : t.stack = u.stack) :
    Ledger (k.drain t) := by
  have hc := change_drain h.listing hs hserial
  refine ⟨hc.listing h.listing,fun r => ?_,hc.counts h.listing h.counts rfl rfl rfl rfl⟩
  rcases eq_or_ne r s with rfl | hne
  · obtain ⟨h₁,h₂,h₃,h₄⟩ := h.frees r
    rw [hs] at h₂
    subst hserial
    refine ⟨h₁,?_,h₃,fun t' ht' => ?_⟩
    · rw [hc.all_self]
      refine Eq.trans ?_ h₂
      rw [any_some,any_some,← hstack]
      exact count_cons_self
    · rw [hc.all_self] at ht'
      cases ht'
      exact h₄ u hs
  · exact hc.frees_of_ne hne (h.frees r)

lemma Ledger.trace (h : Ledger k) (hs : k.all s = some t) : Ledger (k.trace t) := by
  have hserial := h.listing.serial s t hs
  subst hserial
  have hc : Change k (k.trace t) t.serial t (some { t with strace := true }) := by
    refine ⟨hs,rfl,rfl,rfl,?_,?_,fun r hr => update_of_ne hr _ _,fun _ _ => ⟨rfl,rfl,rfl⟩⟩
    · intro t' ht'
      cases ht'
      exact ⟨rfl,rfl,rfl⟩
    · rw [isNone_some,← h.listing.not_reaped hs,update_eq_self]
      rfl
  refine ⟨hc.listing h.listing,fun r => ?_,hc.counts h.listing h.counts rfl rfl rfl rfl⟩
  rcases eq_or_ne r t.serial with rfl | hne
  · obtain ⟨h₁,h₂,h₃,-⟩ := h.frees t.serial
    rw [hs] at h₂
    rw [h.listing.not_reaped hs] at h₃
    refine ⟨h₁,?_,?_,fun t' ht' => ?_⟩
    · rw [hc.all_self]
      exact h₂
    · rw [hc.reaped,update_self]
      exact h₃
    · rw [hc.all_self] at ht'
      cases ht'
      exact (update_self t.serial true k.traced).symm
  · exact hc.frees_of_ne hne (h.frees r)

/-- What the sweep of `me` leaves of an entry. -/
def adopt (me : ℕ) (o : Option Thread) : Option Thread :=
  o.bind fun u => if u.parent = pid me then if u.exited then none else some { u with parent := -1 } else some u

/-- The sweep of `me` reaps the thread. -/
def taken (me : ℕ) (o : Option Thread) : Bool := o.any fun u => decide (u.parent = pid me) && u.exited

structure Swept (me : ℕ) (l : List ℕ) (k k' : Kernel) : Prop where
  all : ∀ s, k'.all s = if s ∈ l then adopt me (k.all s) else k.all s
  reaped : ∀ s, k'.reaped s = if s ∈ l then k.reaped s || taken me (k.all s) else k.reaped s
  made : k'.made = k.made
  creator : k'.creator = k.creator
  born : k'.born = k.born
  traced : k'.traced = k.traced
  exits : k'.exits = k.exits

lemma adopt_some (h : adopt me o = some u') : ∃ u, o = some u ∧ u'.exited = u.exited ∧
    (u.parent ≠ pid me ∧ u'.parent = u.parent ∨ u.parent = pid me ∧ u'.parent = -1) := by
  obtain ⟨u,rfl,hu⟩ := Option.bind_eq_some_iff.mp h
  refine ⟨u,rfl,?_⟩
  split at hu
  · next hp =>
    split at hu
    · cases hu
    · cases hu
      exact ⟨rfl,.inr ⟨hp,rfl⟩⟩
  · next hp =>
    cases hu
    exact ⟨rfl,.inl ⟨hp,rfl⟩⟩

lemma taken_iff : taken me o = true ↔ ∃ u, o = some u ∧ u.parent = pid me ∧ u.exited = true := by
  unfold taken
  rw [Option.any_eq_true]
  simp

lemma Swept.one (hs : k'.all = update k.all s (adopt me (k.all s)))
    (hr : k'.reaped = update k.reaped s (k.reaped s || taken me (k.all s)))
    (hsame : k'.made = k.made ∧ k'.creator = k.creator ∧ k'.born = k.born ∧ k'.traced = k.traced ∧ k'.exits = k.exits) :
    Swept me [s] k k' := by
  obtain ⟨h₁,h₂,h₃,h₄,h₅⟩ := hsame
  refine ⟨fun r => ?_,fun r => ?_,h₁,h₂,h₃,h₄,h₅⟩
  · rw [hs]
    rcases eq_or_ne r s with rfl | hne
    · rw [update_self,if_pos (mem_singleton_self r)]
    · rw [update_of_ne hne,if_neg fun h => hne (List.mem_singleton.mp h)]
  · rw [hr]
    rcases eq_or_ne r s with rfl | hne
    · rw [update_self,if_pos (mem_singleton_self r)]
    · rw [update_of_ne hne,if_neg fun h => hne (List.mem_singleton.mp h)]

lemma Swept.skip (hs : adopt me (k.all s) = k.all s) (ht : taken me (k.all s) = false) : Swept me [s] k k := by
  refine .one ?_ ?_ ⟨rfl,rfl,rfl,rfl,rfl⟩
  · rw [hs,update_eq_self]
  · rw [ht,Bool.or_false,update_eq_self]

lemma sweepOne_spec (h : Ledger k) (me s : ℕ) : Ledger (k.sweepOne me s) ∧ Swept me [s] k (k.sweepOne me s) := by
  unfold Kernel.sweepOne
  split
  · next hs => exact ⟨h,.skip (by rw [hs]; rfl) (by rw [hs]; rfl)⟩
  · next u hs =>
    by_cases hp : u.parent = pid me
    · rw [if_pos hp]
      by_cases hu : u.exited = true
      · rw [if_pos hu]
        have hserial := h.listing.serial s u hs
        subst hserial
        refine ⟨h.reclaim hs hu,.one ?_ ?_ ⟨rfl,rfl,rfl,rfl,rfl⟩⟩
        · rw [hs]
          simp [adopt,hp,hu,Kernel.reclaim]
        · rw [hs]
          simp [taken,hp,hu,Kernel.reclaim]
      · rw [if_neg hu]
        refine ⟨h.set hs (-1),.one ?_ ?_ ⟨rfl,rfl,rfl,rfl,rfl⟩⟩
        · rw [hs]
          simp [adopt,hp,hu,Kernel.set]
        · rw [hs]
          simp [taken,hu,Kernel.set]
    · rw [if_neg hp]
      exact ⟨h,.skip (by rw [hs]; simp [adopt,hp]) (by rw [hs]; simp [taken,hp])⟩

lemma foldl_sweep (me : ℕ) {l : List ℕ} (h : Ledger k) (hl : l.Nodup) :
    Ledger (l.foldl (fun k s => k.sweepOne me s) k) ∧ Swept me l k (l.foldl (fun k s => k.sweepOne me s) k) := by
  induction l generalizing k with
  | nil => exact ⟨h,⟨fun _ => rfl,fun _ => rfl,rfl,rfl,rfl,rfl,rfl⟩⟩
  | cons s l ih =>
    obtain ⟨hs,hl⟩ := List.nodup_cons.mp hl
    obtain ⟨h₁,hone⟩ := sweepOne_spec h me s
    obtain ⟨h₂,hrest⟩ := ih h₁ hl
    refine ⟨h₂,⟨fun r => ?_,fun r => ?_,hrest.made.trans hone.made,hrest.creator.trans hone.creator,
      hrest.born.trans hone.born,hrest.traced.trans hone.traced,hrest.exits.trans hone.exits⟩⟩
    · refine (hrest.all r).trans ?_
      rcases eq_or_ne r s with rfl | hne
      · rw [if_neg hs,if_pos mem_cons_self,hone.all,if_pos (mem_singleton_self r)]
      · have hr : r ∉ [s] := fun h => hne (List.mem_singleton.mp h)
        rw [hone.all,if_neg hr]
        simp [hne]
    · refine (hrest.reaped r).trans ?_
      rcases eq_or_ne r s with rfl | hne
      · rw [if_neg hs,if_pos mem_cons_self,hone.reaped,if_pos (mem_singleton_self r)]
      · have hr : r ∉ [s] := fun h => hne (List.mem_singleton.mp h)
        rw [hone.reaped,if_neg hr,hone.all,if_neg hr]
        simp [hne]

lemma sweep_spec (h : Ledger k) (me : ℕ) : Ledger (k.sweep me) ∧ (∀ s, (k.sweep me).all s = adopt me (k.all s)) ∧
    (∀ s, (k.sweep me).reaped s = (k.reaped s || taken me (k.all s))) ∧ (k.sweep me).made = k.made ∧
    (k.sweep me).creator = k.creator ∧ (k.sweep me).born = k.born ∧ (k.sweep me).exits = k.exits := by
  obtain ⟨hledger,hswept⟩ := foldl_sweep me h (List.pairwise_reverse.mpr (List.nodup_range.imp Ne.symm))
  have hout : ∀ s, s ∉ k.listed → k.all s = none := fun s hs => by
    refine (h.listing.listed s).mpr (.inl (Nat.le_of_not_lt fun hlt => hs ?_))
    exact List.mem_reverse.mpr (List.mem_range.mpr hlt)
  refine ⟨hledger,fun s => ?_,fun s => ?_,hswept.made,hswept.creator,hswept.born,hswept.exits⟩
  · refine (hswept.all s).trans ?_
    split
    · rfl
    · next hs =>
      rw [hout s hs]
      rfl
  · refine (hswept.reaped s).trans ?_
    split
    · rfl
    · next hs =>
      rw [hout s hs]
      exact (Bool.or_false _).symm

variable {as fdt : Option ℕ} {spaces tables : Counted} {how : Make} {table : Bool}

lemma newSpace_spec (h : Ledger k) (hs : k.all p = some t) (hn : k.newSpace t how = some (as,spaces)) :
    spaces.Fits (fun a => as = some a ∨ k.IsSpace a) (fun a => tally k.made k.all (usesSpace a) + (as == some a).toNat) ∧
      ∀ a, as = some a → a < k.made + 1 := by
  unfold Kernel.newSpace at hn
  cases how with
  | kernel =>
    cases hn
    exact ⟨h.counts.spaces.nobody,nofun⟩
  | user =>
    cases hn
    refine ⟨h.counts.spaces.first ?_,fun a ha => ?_⟩
    · rintro ⟨s,b,hb,ha⟩
      exact absurd ((h.listing.names s b hb).1 _ ha) (Nat.lt_irrefl _)
    · cases ha
      exact Nat.lt_succ_self _
  | shared files =>
    obtain ⟨a,ha,heq⟩ := Option.map_eq_some_iff.mp hn
    cases heq
    refine ⟨h.counts.spaces.further (tally_pos (h.listing.lt hs) ?_),fun b hb => ?_⟩
    · rw [hs]
      unfold usesSpace
      simp [ha]
    · cases hb
      obtain ⟨b,hb,has,-⟩ := h.listing.born p t hs
      have := (h.listing.names p b hb).1 a (has ▸ ha)
      omega

lemma newTable_spec (h : Ledger k) (hs : k.all p = some t) (ht : t.exited = false) (hn : k.newTable t how table = (fdt,tables)) :
    tables.Fits (fun f => fdt = some f ∨ k.IsTable f)
        (fun f => tally k.made k.all (fun t => usesTable f t && !t.exited) + (fdt == some f).toNat) ∧
      ∀ f, fdt = some f → f < k.made + 1 := by
  have hfresh : ¬ k.IsTable k.made := by
    rintro ⟨s,b,hb,hf⟩
    exact absurd ((h.listing.names s b hb).2 _ hf) (Nat.lt_irrefl _)
  unfold Kernel.newTable at hn
  split at hn
  · next f hf =>
    cases hn
    refine ⟨h.counts.tables.further (tally_pos (h.listing.lt hs) ?_),fun g hg => ?_⟩
    · rw [hs]
      unfold usesTable
      simp [hf,ht]
    · cases hg
      obtain ⟨b,hb,-,hfdt⟩ := h.listing.born p t hs
      have := (h.listing.names p b hb).2 f (hfdt ▸ hf)
      omega
  · split at hn
    · cases hn
      refine ⟨h.counts.tables.first hfresh,fun g hg => ?_⟩
      cases hg
      exact Nat.lt_succ_self _
    · cases hn
      exact ⟨h.counts.tables.nobody,nofun⟩

lemma exists_update {β : Type} {f : ℕ → Option β} {s : ℕ} (hs : f s = none) {b : β} {P : β → Prop} :
    (∃ r c, update f s (some b) r = some c ∧ P c) ↔ P b ∨ ∃ r c, f r = some c ∧ P c := by
  constructor
  · rintro ⟨r,c,hc,hp⟩
    rcases eq_or_ne r s with rfl | hne
    · rw [update_self] at hc
      cases hc
      exact .inl hp
    · rw [update_of_ne hne] at hc
      exact .inr ⟨r,c,hc,hp⟩
  · rintro (hp | ⟨r,c,hc,hp⟩)
    · exact ⟨s,b,update_self ..,hp⟩
    · have hne : r ≠ s := fun heq => by
        rw [heq,hs] at hc
        cases hc
      exact ⟨r,c,(update_of_ne hne _ _).trans hc,hp⟩

lemma tally_new (new : Thread) (q : Thread → Bool) :
    tally (k.made + 1) (update k.all k.made (some new)) q = tally k.made k.all q + (q new).toNat := by
  rw [tally_succ,update_self]
  congr 1
  exact tally_congr fun r hr => by rw [update_of_ne (by omega)]

lemma Ledger.create (h : Ledger k) (hs : k.all p = some t) (ht : t.exited = false) (hlt : k.made < 2^31)
    (hn : k.create t how table = some k') : Ledger k' := by
  unfold Kernel.create at hn
  obtain ⟨⟨as,spaces⟩,hspace,rfl⟩ := Option.map_eq_some_iff.mp hn
  obtain ⟨hspaces,has⟩ := newSpace_spec h hs hspace
  cases htable : k.newTable t how table with
  | mk fdt tables =>
  obtain ⟨htables,hfdt⟩ := newTable_spec h hs ht htable
  obtain ⟨hborn,htraced,hreaped⟩ := h.listing.unborn k.made (Nat.le_refl _)
  refine ⟨⟨fun r u hr => ?_,fun r => ?_,fun r u hr => ?_,fun r hr => ?_,fun r b hb => ?_,?_⟩,fun r => ?_,?_,?_,?_⟩
  all_goals dsimp only at *
  · rcases eq_or_ne r k.made with rfl | hne
    · rw [update_self] at hr
      cases hr
      rfl
    · rw [update_of_ne hne] at hr
      exact h.listing.serial r u hr
  · rcases eq_or_ne r k.made with rfl | hne
    · simp [hreaped]
    · rw [update_of_ne hne,h.listing.listed r]
      have : k.made ≤ r ↔ k.made + 1 ≤ r := by omega
      rw [this]
  · rcases eq_or_ne r k.made with rfl | hne
    · rw [update_self] at hr ⊢
      exact ⟨u,hr,rfl,rfl⟩
    · rw [update_of_ne hne] at hr ⊢
      exact h.listing.born r u hr
  · rw [update_of_ne (by omega)]
    exact h.listing.unborn r (by omega)
  · rcases eq_or_ne r k.made with rfl | hne
    · rw [update_self] at hb
      cases hb
      exact ⟨has,hfdt⟩
    · rw [update_of_ne hne] at hb
      obtain ⟨h₁,h₂⟩ := h.listing.names r b hb
      exact ⟨fun a ha => Nat.lt_succ_of_lt (h₁ a ha),fun f hf => Nat.lt_succ_of_lt (h₂ f hf)⟩
  · omega
  · obtain ⟨h₁,h₂,h₃,h₄⟩ := h.frees r
    rcases eq_or_ne r k.made with rfl | hne
    · have hnone : k.all k.made = none := (h.listing.listed _).mpr (.inl (Nat.le_refl _))
      rw [hnone,hborn] at h₂
      refine ⟨h₁,?_,h₃,fun u hu => ?_⟩
      · dsimp only
        rw [update_self,update_self]
        simpa using h₂
      · dsimp only at hu
        rw [update_self] at hu
        cases hu
        exact htraced.symm
    · refine ⟨h₁,?_,h₃,fun u hu => ?_⟩
      · dsimp only
        rw [update_of_ne hne,update_of_ne hne]
        exact h₂
      · dsimp only at hu
        rw [update_of_ne hne] at hu
        exact h₄ u hu
  · exact hspaces.congr (fun a => exists_update hborn) fun a => tally_new _ _
  · refine htables.congr (fun f => exists_update hborn) fun f => ?_
    rw [tally_new,Bool.not_false,Bool.and_true]
    rfl
  · have hle : tally k.made k.all (fun _ => true) ≤ k.made := tally_le
    have hcount := h.counts.count
    rw [tally_new,Bool.toNat_true]
    omega

lemma Family.reclaim (hf : Family k) (h : Listing k) (hs : k.all s = some u) (hu : u.exited = true) : Family (k.reclaim u) := by
  have hc := change_reclaim h hs
  have hold : ∀ r t, (k.reclaim u).all r = some t → k.all r = some t := fun r t hr => by
    rcases eq_or_ne r s with rfl | hne
    · rw [hc.all_self] at hr
      cases hr
    · rwa [hc.all_of_ne hne] at hr
  refine ⟨fun r t hr => hf.exited r t (hold r t hr),fun r t hr => hf.parent r t (hold r t hr),hf.creator,fun r hr => ?_,?_,hf.unborn⟩
  · rw [hc.reaped] at hr
    rcases eq_or_ne r s with rfl | hne
    · exact (hf.exited r u hs).symm.trans hu
    · rw [update_of_ne hne] at hr
      exact hf.reaped r hr
  · intro r c hcr hr hce
    rw [hc.reaped]
    rcases eq_or_ne r s with rfl | hne
    · rw [update_self]
      rfl
    · rw [update_of_ne hne]
      exact hf.swept r c hcr hr hce

lemma Family.parent_eq (hf : Family k) (h : Listing k) (hs : k.all s = some u) (hp : p < 2^31) :
    u.parent = pid p ↔ k.creator s = some p ∧ k.exits p = false := by
  have hparent := hf.parent s u hs
  have hsmall := h.small
  have hlt : ∀ c, k.creator s = some c → pid c = c := fun c hc => pid_eq (by have := hf.creator s c hc; omega)
  rw [pid_eq hp]
  cases hc : k.creator s with
  | none =>
    rw [hc] at hparent
    dsimp only at hparent
    constructor
    · intro
      omega
    · exact fun h => by cases h.1
  | some c =>
    rw [hc] at hparent
    dsimp only at hparent
    rw [hlt c hc] at hparent
    cases hexit : k.exits c with
    | true =>
      rw [hexit,if_pos rfl] at hparent
      constructor
      · intro
        omega
      · rintro ⟨heq,hno⟩
        cases heq
        rw [hexit] at hno
        cases hno
    | false =>
      rw [hexit,if_neg Bool.false_ne_true] at hparent
      constructor
      · intro heq
        have : c = p := by omega
        subst this
        exact ⟨rfl,hexit⟩
      · rintro ⟨heq,-⟩
        cases heq
        exact hparent

lemma Family.create (hf : Family k) (h : Listing k) (hs : k.all p = some t) (ht : t.exited = false) (hn : k.create t how table = some k') : Family k' := by
  unfold Kernel.create at hn
  obtain ⟨⟨as,spaces⟩,-,rfl⟩ := Option.map_eq_some_iff.mp hn
  have hserial := h.serial p t hs
  have hlt := h.lt hs
  have hne_of_lt {r : ℕ} (hr : r < k.made) : r ≠ k.made := Nat.ne_of_lt hr
  have hnew := hf.unborn k.made (Nat.le_refl _)
  refine ⟨fun r u hr => ?_,fun r u hr => ?_,fun r c hc => ?_,hf.reaped,fun r c hc hr hce => ?_,fun r hr => hf.unborn r ?_⟩
  all_goals dsimp only at *
  · rcases eq_or_ne r k.made with rfl | hne
    · rw [update_self] at hr
      cases hr
      exact hnew.symm
    · rw [update_of_ne hne] at hr
      exact hf.exited r u hr
  · rcases eq_or_ne r k.made with rfl | hne
    · rw [update_self] at hr ⊢
      cases hr
      dsimp only
      rw [hserial,← hf.exited p t hs,ht,if_neg Bool.false_ne_true]
    · rw [update_of_ne hne] at hr ⊢
      exact hf.parent r u hr
  · rcases eq_or_ne r k.made with rfl | hne
    · rw [update_self] at hc
      cases hc
      omega
    · rw [update_of_ne hne] at hc
      have := hf.creator r c hc
      omega
  · rcases eq_or_ne r k.made with rfl | hne
    · rw [hnew] at hr
      cases hr
    · rw [update_of_ne hne] at hc
      exact hf.swept r c hc hr hce
  · omega

structure AfterSweep (k k' : Kernel) (t : Thread) : Prop where
  ledger : Ledger k'
  self : k'.all t.serial = some { t with exited := true }
  others : ∀ s, s ≠ t.serial → k'.all s = adopt t.serial (k.all s)
  self_kept : k'.reaped t.serial = false
  reaped : ∀ s, s ≠ t.serial → k'.reaped s = (k.reaped s || taken t.serial (k.all s))
  made : k'.made = k.made
  creator : k'.creator = k.creator
  born : k'.born = k.born
  exits : k'.exits = k.exits

lemma afterSweep (h : Ledger k) (hf : Family k) (hs : k.all p = some t) (ht : t.exited = false) :
    AfterSweep k (((k.closeAll t).set t.serial (some { t with exited := true })).sweep t.serial) t := by
  have hserial := h.listing.serial p t hs
  subst hserial
  have hlt := h.listing.lt hs
  have hsmall := h.listing.small
  obtain ⟨hledger,hall,hreaped,hmade,hcreator,hborn,hexits⟩ := sweep_spec (h.mark hs ht) t.serial
  have hparent : ¬ t.parent = pid t.serial := fun heq => by
    have := hf.creator _ _ ((hf.parent_eq h.listing hs (by omega)).mp heq).1
    omega
  have hself : ((k.closeAll t).set t.serial (some { t with exited := true })).all t.serial = some { t with exited := true } :=
    update_self ..
  have hother : ∀ s, s ≠ t.serial → ((k.closeAll t).set t.serial (some { t with exited := true })).all s = k.all s :=
    fun s hne => update_of_ne hne _ _
  refine ⟨hledger,?_,fun s hne => ?_,?_,fun s hne => ?_,hmade,hcreator,hborn,hexits⟩
  · rw [hall,hself]
    simp [adopt,hparent]
  · rw [hall,hother s hne]
  · rw [hreaped,hself]
    simp only [taken,any_some,hparent,decide_false,Bool.false_and,Bool.or_false]
    exact h.listing.not_reaped hs
  · rw [hreaped,hother s hne]
    rfl

lemma Ledger.exits (h : Ledger k) (f : ℕ → Bool) : Ledger { k with exits := f } where
  listing := ⟨h.listing.serial,h.listing.listed,h.listing.born,h.listing.unborn,h.listing.names,h.listing.small⟩
  frees s := ⟨(h.frees s).ofStruct,(h.frees s).ofStack,(h.frees s).ofRing,(h.frees s).strace⟩
  counts := ⟨h.counts.spaces,h.counts.tables,h.counts.count⟩

lemma Ledger.exit (h : Ledger k) (hf : Family k) (hs : k.all p = some t) (ht : t.exited = false) (hp : 0 ≤ t.parent) :
    Ledger (k.exit t) := by
  have ha := afterSweep h hf hs ht
  unfold Kernel.exit
  dsimp only
  rw [if_pos hp]
  exact (ha.ledger.drain ha.self rfl rfl).exits _

lemma Family.exit (h : Ledger k) (hf : Family k) (hs : k.all p = some t) (ht : t.exited = false) (hp : 0 ≤ t.parent) :
    Family (k.exit t) := by
  have hserial := h.listing.serial p t hs
  subst hserial
  have hsmall := h.listing.small
  have hlt := h.listing.lt hs
  have hp' : t.serial < 2^31 := by omega
  have ha := afterSweep h hf hs ht
  have hrun : k.exits t.serial = false := (hf.exited _ t hs).symm.trans ht
  unfold Kernel.exit
  dsimp only
  rw [if_pos hp]
  generalize ((k.closeAll t).set t.serial (some { t with exited := true })).sweep t.serial = k₂ at ha ⊢
  have hself : (k₂.drain t).all t.serial = some { t with exited := true,stack := false } := by
    unfold Kernel.drain
    dsimp only
    rw [update_self,ha.self]
    rfl
  have hother : ∀ s, s ≠ t.serial → (k₂.drain t).all s = adopt t.serial (k.all s) := fun s hne => by
    unfold Kernel.drain
    dsimp only
    rw [update_of_ne hne,ha.others s hne]
  have hexits : (k₂.drain t).exits = k.exits := ha.exits
  have hcreator : (k₂.drain t).creator = k.creator := ha.creator
  have hmade : (k₂.drain t).made = k.made := ha.made
  have hreaped : (k₂.drain t).reaped = k₂.reaped := rfl
  -- the parent is there still, so it is not the thread itself
  have hcreates : ∀ c, k.creator t.serial = some c → c ≠ t.serial ∧ k.exits c = false := fun c hc => by
    have hparent := hf.parent _ t hs
    rw [hc] at hparent
    dsimp only at hparent
    refine ⟨fun heq => absurd (hf.creator _ c hc).1 (by omega),?_⟩
    by_contra hex
    rw [Bool.not_eq_false] at hex
    rw [hex,if_pos rfl] at hparent
    omega
  refine ⟨fun s u hu => ?_,fun s u hu => ?_,?_,fun s hr => ?_,fun s c hc hse hce => ?_,fun s hle => ?_⟩
  all_goals dsimp only at *
  all_goals rw [hexits] at *
  · rcases eq_or_ne s t.serial with rfl | hne
    · rw [hself] at hu
      cases hu
      rw [update_self]
    · rw [hother s hne] at hu
      obtain ⟨v,hv,hex,-⟩ := adopt_some hu
      rw [update_of_ne hne,hex]
      exact hf.exited s v hv
  · rw [hcreator]
    rcases eq_or_ne s t.serial with rfl | hne
    · rw [hself] at hu
      cases hu
      have hparent := hf.parent _ t hs
      cases hc : k.creator t.serial with
      | none =>
        rw [hc] at hparent
        exact hparent
      | some c =>
        rw [hc] at hparent
        change t.parent = if update k.exits t.serial true c then -1 else pid c
        rw [update_of_ne (hcreates c hc).1]
        exact hparent
    · rw [hother s hne] at hu
      obtain ⟨v,hv,-,hcase⟩ := adopt_some hu
      have hparent := hf.parent s v hv
      have hchild := hf.parent_eq h.listing hv hp'
      cases hc : k.creator s with
      | none =>
        rw [hc] at hparent hchild
        rcases hcase with ⟨-,heq⟩ | ⟨hpid,-⟩
        · exact heq.trans hparent
        · cases (hchild.mp hpid).1
      | some c =>
        rw [hc] at hparent hchild
        change u.parent = if update k.exits t.serial true c then -1 else pid c
        rcases eq_or_ne c t.serial with rfl | hnc
        · rw [update_self,if_pos rfl]
          rcases hcase with ⟨hpid,-⟩ | ⟨-,heq⟩
          · exact absurd (hchild.mpr ⟨rfl,hrun⟩) hpid
          · exact heq
        · rw [update_of_ne hnc]
          rcases hcase with ⟨-,heq⟩ | ⟨hpid,-⟩
          · exact heq.trans hparent
          · exact absurd (Option.some_inj.mp (hchild.mp hpid).1) hnc
  · rw [hcreator,hmade]
    exact hf.creator
  · rcases eq_or_ne s t.serial with rfl | hne
    · exact update_self ..
    · rw [hreaped,ha.reaped s hne,Bool.or_eq_true] at hr
      rw [update_of_ne hne]
      rcases hr with hr | hr
      · exact hf.reaped s hr
      · obtain ⟨v,hv,-,hex⟩ := taken_iff.mp hr
        exact (hf.exited s v hv).symm.trans hex
  · rw [hcreator] at hc
    rcases eq_or_ne s t.serial with rfl | hne
    · obtain ⟨hnc,hno⟩ := hcreates c hc
      rw [update_of_ne hnc,hno] at hce
      cases hce
    · rw [update_of_ne hne] at hse
      rw [hreaped,ha.reaped s hne,Bool.or_eq_true]
      rcases eq_or_ne c t.serial with rfl | hnc
      · cases hv : k.all s with
        | none =>
          have hnot : ¬ k.made ≤ s := Nat.not_le_of_lt (hf.creator s _ hc).2
          exact .inl (((h.listing.listed s).mp hv).resolve_left hnot)
        | some v =>
          have hpid := (hf.parent_eq h.listing hv hp').mpr ⟨hc,hrun⟩
          exact .inr (taken_iff.mpr ⟨v,rfl,hpid,(hf.exited s v hv).trans hse⟩)
      · rw [update_of_ne hnc] at hce
        exact .inl (hf.swept s c hc hse hce)
  · rw [hmade] at hle
    rw [update_of_ne (by omega)]
    exact hf.unborn s hle

lemma Family.trace (hf : Family k) (h : Listing k) (hs : k.all p = some t) : Family (k.trace t) := by
  have hserial := h.serial p t hs
  subst hserial
  have hold : ∀ r u, (k.trace t).all r = some u → ∃ v, k.all r = some v ∧ u.exited = v.exited ∧ u.parent = v.parent := by
    intro r u hr
    unfold Kernel.trace at hr
    dsimp only at hr
    rcases eq_or_ne r t.serial with rfl | hne
    · rw [update_self] at hr
      cases hr
      exact ⟨t,hs,rfl,rfl⟩
    · rw [update_of_ne hne] at hr
      exact ⟨u,hr,rfl,rfl⟩
  refine ⟨fun r u hr => ?_,fun r u hr => ?_,hf.creator,hf.reaped,hf.swept,hf.unborn⟩
  · obtain ⟨v,hv,hex,-⟩ := hold r u hr
    exact hex.trans (hf.exited r v hv)
  · obtain ⟨v,hv,-,hparent⟩ := hold r u hr
    exact hparent.trans (hf.parent r v hv)

lemma running_some (h : k.running p = some t) : k.all p = some t ∧ t.exited = false := by
  obtain ⟨hs,ht⟩ := Option.filter_eq_some_iff.mp h
  exact ⟨hs,by simpa using ht⟩

lemma step_kept (h : Ledger k) (hf : Family k) {e : Event} (ok : Fostered k e) (now : k.step e = some ((),k')) : Ledger k' ∧ Family k' := by
  cases e with
  | create p how table =>
    obtain ⟨t,hrun,hnext⟩ := Option.bind_eq_some_iff.mp now
    obtain ⟨k₁,hcreate,heq⟩ := Option.map_eq_some_iff.mp hnext
    cases heq
    obtain ⟨hs,ht⟩ := running_some hrun
    exact ⟨h.create hs ht ok hcreate,hf.create h.listing hs ht hcreate⟩
  | trace p =>
    obtain ⟨t,hrun,heq⟩ := Option.map_eq_some_iff.mp now
    cases heq
    obtain ⟨hs,-⟩ := running_some hrun
    exact ⟨h.trace hs,hf.trace h.listing hs⟩
  | waitpid p target =>
    obtain ⟨t,hrun,heq⟩ := Option.map_eq_some_iff.mp now
    cases heq
    unfold Kernel.waitpid
    dsimp only
    split
    · next u hfind =>
      obtain ⟨hmem,hu⟩ := And.intro (mem_of_find?_eq_some hfind) (find?_some hfind)
      obtain ⟨s,-,hs⟩ := List.mem_filterMap.mp hmem
      have hex : u.exited = true := (Bool.and_eq_true_iff.mp hu).2
      exact ⟨h.reclaim hs hex,hf.reclaim h.listing hs hex⟩
    · exact ⟨h,hf⟩
  | exit p =>
    obtain ⟨t,hrun,heq⟩ := Option.map_eq_some_iff.mp now
    cases heq
    obtain ⟨hs,ht⟩ := running_some hrun
    exact ⟨h.exit hf hs ht (ok t hs),hf.exit h hs ht (ok t hs)⟩

lemma due_eq (hf : Family k) (s : ℕ) : k.due s = k.reaped s := by
  unfold Kernel.due
  cases hr : k.reaped s with
  | true => rw [hf.reaped s hr,Bool.true_or,Bool.true_and]
  | false =>
    cases hs : k.exits s with
    | false => rfl
    | true =>
      cases hc : k.creator s with
      | none => rfl
      | some c =>
        rw [Bool.true_and,Bool.false_or,any_some]
        by_contra hno
        rw [Bool.not_eq_false] at hno
        rw [hf.swept s c hc hs hno] at hr
        cases hr

lemma any_unreclaimed (h : Ledger k) (hf : Family k) (hs : s < k.made) {q : Thread → Bool} (hq : ∀ t b, t.as = b.as → q t = q b) :
    (k.unreclaimed s).any q = (k.all s).any q := by
  unfold Kernel.unreclaimed
  rw [due_eq hf]
  cases hall : k.all s with
  | none =>
    rw [((h.listing.listed s).mp hall).resolve_left (by omega)]
    rfl
  | some t =>
    obtain ⟨b,hb,has,-⟩ := h.listing.born s t hall
    rw [h.listing.not_reaped hall,if_neg Bool.false_ne_true,hb]
    exact (hq t b has).symm

lemma any_living (h : Ledger k) (hf : Family k) (hlt : s < k.made) (f : ℕ) :
    (k.living s).any (usesTable f) = (k.all s).any fun t => usesTable f t && !t.exited := by
  unfold Kernel.living
  cases hall : k.all s with
  | none =>
    rw [hf.reaped s (((h.listing.listed s).mp hall).resolve_left (by omega))]
    rfl
  | some t =>
    obtain ⟨b,hb,-,hfdt⟩ := h.listing.born s t hall
    have hex := hf.exited s t hall
    cases hs : k.exits s with
    | true =>
      rw [hs] at hex
      simp [hex]
    | false =>
      rw [hs] at hex
      rw [hb]
      simp [hex,usesTable,hfdt]

lemma reclaimed (h : Ledger k) (hf : Family k) : Reclaimed k where
  once s b hb hdue := by
    rw [due_eq hf] at hdue
    obtain ⟨h₁,h₂,h₃,-⟩ := h.frees s
    rw [(h.listing.listed s).mpr (.inr hdue),hb] at h₂
    rw [hdue] at h₁ h₃
    exact ⟨h₁,h₂,h₃⟩
  before s hdue := by
    rw [due_eq hf] at hdue
    obtain ⟨h₁,h₂,h₃,-⟩ := h.frees s
    rw [hdue] at h₁ h₃
    have := Bool.toNat_le ((k.born s).any (·.stack))
    exact ⟨h₁,h₃,by omega⟩
  spaces := h.counts.spaces.congr (fun _ => .rfl) fun a => tally_congr fun s hs =>
    any_unreclaimed h hf hs fun t b has => by unfold usesSpace; rw [has]
  tables := h.counts.tables.congr (fun _ => .rfl) fun f => tally_congr fun s hs => any_living h hf hs f
  count := h.counts.count.trans (tally_congr fun s hs => any_unreclaimed h hf hs fun _ _ _ => rfl).symm

lemma initial_ledger : Ledger initial := by
  have hall : ∀ s t, initial.all s = some t → s = 0 ∧ t = boot := fun s t hs => by
    rcases eq_or_ne s 0 with rfl | hne
    · cases hs
      exact ⟨rfl,rfl⟩
    · unfold initial at hs
      dsimp only at hs
      rw [update_of_ne hne] at hs
      cases hs
  have hne : ∀ s, s ≠ 0 → initial.all s = none ∧ initial.born s = none := fun s hs => by
    unfold initial
    dsimp only
    rw [update_of_ne hs]
    exact ⟨rfl,rfl⟩
  have hborn : ∀ s b, initial.born s = some b → s = 0 ∧ b = boot := hall
  refine ⟨⟨fun s t hs => ?_,fun s => ?_,fun s t hs => ?_,fun s hs => ?_,fun s b hb => ?_,by decide⟩,fun s => ?_,?_,?_,rfl⟩
  · obtain ⟨rfl,rfl⟩ := hall s t hs
    rfl
  · change initial.all s = none ↔ 1 ≤ s ∨ false = true
    rcases eq_or_ne s 0 with rfl | hs
    · simp [initial]
    · simp [(hne s hs).1]
      omega
  · obtain ⟨rfl,rfl⟩ := hall s t hs
    exact ⟨boot,rfl,rfl,rfl⟩
  · have : 1 ≤ s := hs
    exact ⟨(hne s (by omega)).2,rfl,rfl⟩
  · obtain ⟨rfl,rfl⟩ := hborn s b hb
    refine ⟨nofun,fun f hf => ?_⟩
    cases hf
    exact Nat.one_pos
  · rcases eq_or_ne s 0 with rfl | hs
    · refine ⟨rfl,rfl,rfl,fun t ht => ?_⟩
      cases ht
      rfl
    · obtain ⟨h₁,h₂⟩ := hne s hs
      exact ⟨rfl,by rw [h₁,h₂]; rfl,rfl,fun t ht => by rw [h₁] at ht; cases ht⟩
  · intro a
    refine ⟨?_,fun _ => ⟨rfl,rfl⟩⟩
    rintro ⟨s,b,hb,ha⟩
    obtain ⟨-,rfl⟩ := hborn s b hb
    cases ha
  · intro f
    by_cases hf : f = 0
    · subst hf
      exact ⟨fun _ => ⟨rfl,rfl⟩,fun hno => absurd ⟨0,boot,rfl,rfl⟩ hno⟩
    · refine ⟨?_,fun _ => ⟨?_,rfl⟩⟩
      · rintro ⟨s,b,hb,hfdt⟩
        obtain ⟨-,rfl⟩ := hborn s b hb
        exact absurd (Option.some_inj.mp hfdt).symm hf
      · refine List.countP_eq_zero.mpr fun s hs => ?_
        have hs : s = 0 := by
          have : s < 1 := List.mem_range.mp hs
          omega
        subst hs
        have hne : ¬ (some 0 == some f && true) = true := by
          rw [Bool.and_true,beq_iff_eq,some_inj]
          exact fun heq => hf heq.symm
        exact hne

lemma initial_family : Family initial := by
  refine ⟨fun s t hs => ?_,fun s t hs => ?_,nofun,nofun,nofun,fun _ _ => rfl⟩
  all_goals
    rcases eq_or_ne s 0 with rfl | hne
    · cases hs
      rfl
    · unfold initial at hs
      dsimp only at hs
      rw [update_of_ne hne] at hs
      cases hs

lemma orphan_leaks (h : Ledger k) (hf : Family k) (hs : k.all p = some t) (ht : t.exited = false) (hp : t.parent < 0)
    (hmade : (k.creator p).isSome = true) : ¬ Reclaimed (k.exit t) := by
  intro hr
  have hserial := h.listing.serial p t hs
  subst hserial
  have ha := afterSweep h hf hs ht
  obtain ⟨c,hc⟩ := Option.isSome_iff_exists.mp hmade
  have hcreator := hf.creator _ c hc
  have hsmall := h.listing.small
  have hparent := hf.parent _ t hs
  rw [hc] at hparent
  have hgone : k.exits c = true := by
    by_contra hno
    rw [Bool.not_eq_true] at hno
    dsimp only at hparent
    rw [hno,if_neg Bool.false_ne_true,pid_eq (by omega)] at hparent
    omega
  obtain ⟨b,hb,-⟩ := h.listing.born _ t hs
  unfold Kernel.exit at hr
  dsimp only at hr
  rw [if_neg (by omega)] at hr
  generalize ((k.closeAll t).set t.serial (some { t with exited := true })).sweep t.serial = k₂ at ha hr
  have hdue : Kernel.due { (k₂.set t.serial none).drain t with
      exits := update ((k₂.set t.serial none).drain t).exits t.serial true } t.serial = true := by
    have hce : update k₂.exits t.serial true c = true := by
      rw [update_of_ne (by omega),ha.exits]
      exact hgone
    have hck : k₂.creator t.serial = some c := by rw [ha.creator,hc]
    change (update k₂.exits t.serial true t.serial &&
      (k₂.reaped t.serial || (k₂.creator t.serial).any (update k₂.exits t.serial true))) = true
    rw [update_self,hck,any_some,hce,Bool.or_true,Bool.true_and]
  have honce := (hr.once t.serial b (by
    change k₂.born t.serial = some b
    rw [ha.born,hb]) hdue).1
  have hzero := (ha.ledger.frees t.serial).ofStruct
  rw [ha.self_kept] at hzero
  exact absurd (hzero.symm.trans honce) (by decide)

/-- As long as no parent exits before its child, all that an exited thread had is freed once it is
reaped or its parent exits; the first thread to exit after its parent is not reclaimed. -/
theorem threads_reclaimed {es : List Event} (run : Runs Kernel.step Fostered initial es k) :
    Reclaimed k ∧ ∀ p t, (k.creator p).isSome = true → k.running p = some t → (Reclaimed (k.exit t) ↔ 0 ≤ t.parent) := by
  obtain ⟨h,hf⟩ : Ledger k ∧ Family k :=
    run.invariant (fun _ _ _ _ hk ok now => step_kept hk.1 hk.2 ok now) ⟨initial_ledger,initial_family⟩
  refine ⟨reclaimed h hf,fun p t hmade hrun => ?_⟩
  obtain ⟨hs,ht⟩ := running_some hrun
  constructor
  · intro hr
    by_contra hno
    exact orphan_leaks h hf hs ht (by omega) hmade hr
  · exact fun hp => reclaimed (h.exit hf hs ht hp) (hf.exit h hs ht hp)

def fostered (k : Kernel) : Event → Bool
  | .create _ _ _ => k.made < 2^31
  | .exit p => (k.all p).all fun t => decide (0 ≤ t.parent)
  | _ => true

lemma fostered_sound (k : Kernel) (e : Event) (h : fostered k e = true) : Fostered k e := by
  cases e with
  | create p how table => exact (of_decide_eq_true h : k.made < 2^31)
  | trace p | waitpid p target => trivial
  | exit p =>
    intro t ht
    simp only [fostered] at h
    rw [ht] at h
    exact of_decide_eq_true h

/-- A program, a thread of it and one of its children, each reaped. -/
def household : List Event :=
  [.create 0 .user true,.trace 1,.create 1 (.shared true) true,.create 1 .user true,.exit 2,.exit 3,.waitpid 1 3,.exit 1,
    .waitpid 0 (-1)]

theorem threads_reclaimed_household : ∃ k, Runs Kernel.step Fostered initial household k ∧ Reclaimed k := by
  have hsome : (execute (fun s e => if fostered s e then Kernel.step s e else none) initial household).isSome = true := by
    decide
  obtain ⟨k,hk⟩ := Option.isSome_iff_exists.mp hsome
  have run := Runs.of_guarded fostered_sound hk
  exact ⟨k,run,(threads_reclaimed run).1⟩

/-- A parent exits, and then its child: the child's space stays, and the count of the threads. -/
theorem orphan_stays : ∃ k, Runs Kernel.step (fun _ _ => True) initial [.create 0 .user true,.create 1 .user true,.exit 1,.exit 2] k ∧
    ¬ Reclaimed k := by
  have hany : ((execute Kernel.step initial [.create 0 .user true,.create 1 .user true,.exit 1,.exit 2]).any fun k =>
      decide (k.count ≠ tally k.made k.unreclaimed fun _ => true)) = true := by decide
  obtain ⟨k,hk,hne⟩ := (Option.any_eq_true _ _).mp hany
  exact ⟨k,.of_execute hk,fun hr => of_decide_eq_true hne hr.count⟩

end VibeOS.Threads.Lifecycle

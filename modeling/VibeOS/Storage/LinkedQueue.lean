import VibeOS.Widths
import Mathlib.Data.List.Basic

/-! Queues as linked lists of cells in a heap, with a head, a tail and a count. -/
namespace VibeOS.Storage
open Function List

structure Cell (P α : Type*) where
  next : Option P
  value : α

abbrev CellHeap (P α : Type*) := P → Option (Cell P α)

structure LinkedQueue (P : Type*) where
  head : Option P
  tail : Option P
  count : ℕ
  deriving DecidableEq

/-- The cells from a pointer to the end of the list, with their values. -/
inductive Chain {P α : Type*} (h : CellHeap P α) : Option P → List P → List α → Prop
  | nil : Chain h none [] []
  | cons {p c ps xs} (cell : h p = some c) (rest : Chain h c.next ps xs) :
      Chain h (some p) (p :: ps) (c.value :: xs)

/-- The queue holds these values, in the cells `ps`. -/
structure LinkedQueue.Holds {P α : Type*} (q : LinkedQueue P) (h : CellHeap P α) (ps : List P) (xs : List α) :
    Prop where
  chain : Chain h q.head ps xs
  nodup : ps.Nodup
  tail : q.tail = ps.getLast?
  count : q.count = ps.length

variable {P α : Type*} {h h' : CellHeap P α} {q : LinkedQueue P} {p : P} {ps : List P}
  {xs : List α} {x : α} {c : Cell P α} {s : Option P}

lemma Chain.length (hc : Chain h s ps xs) : xs.length = ps.length := by
  induction hc with
  | nil => rfl
  | cons _ _ ih => rw [length_cons,length_cons,ih]

lemma Chain.allocated (hc : Chain h s ps xs) (hp : p ∈ ps) : (h p).isSome = true := by
  induction hc with
  | nil => cases hp
  | cons cell _ ih =>
    rcases List.mem_cons.mp hp with rfl | hp
    · rw [cell]
      rfl
    · exact ih hp

lemma Chain.congr (hc : Chain h s ps xs) (hh : ∀ p ∈ ps, h' p = h p) : Chain h' s ps xs := by
  induction hc with
  | nil => exact .nil
  | cons cell _ ih =>
    refine .cons ((hh _ mem_cons_self).trans cell) (ih fun p hp => ?_)
    exact hh p (mem_cons_of_mem _ hp)

lemma LinkedQueue.Holds.congr (hq : q.Holds h ps xs) (hh : ∀ p ∈ ps, h' p = h p) : q.Holds h' ps xs :=
  ⟨hq.chain.congr hh,hq.nodup,hq.tail,hq.count⟩

lemma Chain.of_nil (hc : Chain h s [] xs) : s = none ∧ xs = [] := by
  cases hc
  exact ⟨rfl,rfl⟩

def LinkedQueue.empty : LinkedQueue P := ⟨none,none,0⟩

/-- Take the first cell out; `none` where there is none. -/
def LinkedQueue.pop (h : CellHeap P α) (q : LinkedQueue P) : Option (P × LinkedQueue P) :=
  q.head.bind fun p => (h p).map fun c => (p,⟨c.next,if c.next = none then none else q.tail,q.count - 1⟩)

lemma LinkedQueue.empty_holds (h : CellHeap P α) : LinkedQueue.empty.Holds h [] [] := ⟨.nil,nodup_nil,rfl,rfl⟩

lemma LinkedQueue.Holds.pop (hq : q.Holds h (p :: ps) xs) : ∃ c ys, h p = some c ∧ xs = c.value :: ys ∧
    q.head = some p ∧ ∃ q', q.pop h = some (p,q') ∧ q'.Holds h ps ys := by
  obtain ⟨hchain,hnd,htail,hcount⟩ := hq
  unfold LinkedQueue.pop
  generalize q.head = s at hchain
  cases hchain with
  | @cons _ c _ ys cell rest =>
    refine ⟨c,ys,cell,rfl,rfl,⟨c.next,if c.next = none then none else q.tail,q.count - 1⟩,?_,⟨rest,hnd.of_cons,?_,?_⟩⟩
    · simp [cell]
    · cases ps with
      | nil =>
        cases hn : c.next with
        | none => rfl
        | some p' =>
          rw [hn] at rest
          cases rest
      | cons p' ps =>
        cases hn : c.next with
        | none =>
          rw [hn] at rest
          cases rest
        | some _ => simpa using htail
    · rw [hcount]
      rfl

variable [DecidableEq P]

def setNext (h : CellHeap P α) (p : P) (next : Option P) : CellHeap P α :=
  update h p ((h p).map fun c => { c with next := next })

/-- The cell at `p` becomes the last one. -/
def LinkedQueue.push (h : CellHeap P α) (q : LinkedQueue P) (p : P) : CellHeap P α × LinkedQueue P :=
  let h := setNext h p none
  match q.tail with
  | some t => (setNext h t (some p),⟨q.head,some p,q.count + 1⟩)
  | none => (h,⟨some p,some p,q.count + 1⟩)

/-- Free the cells from a pointer on, in at most `fuel` turns. -/
def freeChain : ℕ → CellHeap P α → Option P → Option (CellHeap P α)
  | _, h, none => some h
  | 0, _, some _ => none
  | fuel + 1, h, some p => (h p).bind fun c => freeChain fuel (update h p none) c.next

lemma setNext_of_ne {p' : P} (hp : p' ≠ p) (s : Option P) : setNext h p s p' = h p' := update_of_ne hp _ _

lemma setNext_self (hp : h p = some c) (s : Option P) : setNext h p s p = some { c with next := s } := by
  rw [setNext,update_self,hp]
  rfl

lemma Chain.append {t : P} (hc : Chain h s (ps ++ [t]) xs) (hnd : (ps ++ [t]).Nodup) (hp : h p = some c)
    (hnext : c.next = none) (hfresh : p ∉ ps ++ [t]) :
    Chain (setNext h t (some p)) s (ps ++ [t] ++ [p]) (xs ++ [c.value]) := by
  have hpt : p ≠ t := by
    rintro rfl
    exact hfresh (mem_append_right _ mem_cons_self)
  induction ps generalizing s xs with
  | nil =>
    cases hc with
    | @cons _ c₀ _ _ cell rest =>
      obtain ⟨-,rfl⟩ := rest.of_nil
      refine .cons (c := { c₀ with next := some p }) (setNext_self cell _) (.cons ((setNext_of_ne hpt _).trans hp) ?_)
      rw [hnext]
      exact .nil
  | cons p₀ ps ih =>
    cases hc with
    | cons cell rest =>
      have hnd' := List.nodup_cons.mp hnd
      have hne : p₀ ≠ t := by
        rintro rfl
        exact hnd'.1 (mem_append_right _ mem_cons_self)
      refine .cons ((setNext_of_ne hne _).trans cell) (ih rest hnd'.2 fun hmem => hfresh ?_)
      exact mem_cons_of_mem _ hmem

lemma LinkedQueue.Holds.push (hq : q.Holds h ps xs) (hp : h p = some c) (hfresh : p ∉ ps) :
    (q.push h p).2.Holds (q.push h p).1 (ps ++ [p]) (xs ++ [c.value]) ∧
      ∀ p', p' ≠ p → p' ∉ ps → (q.push h p).1 p' = h p' := by
  unfold LinkedQueue.push
  have hnd : (ps ++ [p]).Nodup :=
    List.nodup_append.mpr ⟨hq.nodup,List.nodup_cons.mpr ⟨not_mem_nil,nodup_nil⟩,fun a ha b hb => by
      rw [List.mem_singleton.mp hb]
      rintro rfl
      exact hfresh ha⟩
  have hh : ∀ a ∈ ps, setNext h p none a = h a := fun a ha => by
    refine setNext_of_ne ?_ _
    rintro rfl
    exact hfresh ha
  have hlast : some p = (ps ++ [p]).getLast? := by simp
  have hlen : q.count + 1 = (ps ++ [p]).length := by rw [hq.count,length_append,length_singleton]
  cases ht : q.tail with
  | none =>
    have hnil : ps = [] := List.getLast?_eq_none_iff.mp (hq.tail.symm.trans ht)
    subst hnil
    have hxs : xs = [] := List.length_eq_zero_iff.mp hq.chain.length
    subst hxs
    have hcell : setNext h p none p = some { c with next := none } := setNext_self hp _
    exact ⟨⟨.cons (c := { c with next := none }) hcell .nil,hnd,hlast,hlen⟩,fun p' hne _ => setNext_of_ne hne _⟩
  | some t =>
    obtain ⟨ps₀,rfl⟩ := List.getLast?_eq_some_iff.mp (hq.tail.symm.trans ht)
    refine ⟨⟨?_,hnd,hlast,hlen⟩,fun p' hne hmem => ?_⟩
    · exact (hq.chain.congr hh).append (c := { c with next := none }) hq.nodup (setNext_self hp _) rfl hfresh
    · have hpt : p' ≠ t := by
        rintro rfl
        exact hmem (mem_append_right _ mem_cons_self)
      exact (setNext_of_ne hpt _).trans (setNext_of_ne hne _)

lemma Chain.free (hc : Chain h s ps xs) (hnd : ps.Nodup) (fuel : ℕ) (hf : ps.length ≤ fuel) :
    ∃ h', freeChain fuel h s = some h' ∧ ∀ p, h' p = if p ∈ ps then none else h p := by
  induction ps generalizing h s xs fuel with
  | nil =>
    cases hc
    refine ⟨h,?_,fun p => by simp⟩
    cases fuel <;> rfl
  | cons p₀ ps ih =>
    cases hc with
    | cons cell rest =>
      obtain ⟨hp,hnd'⟩ := List.nodup_cons.mp hnd
      obtain ⟨fuel,rfl⟩ : ∃ n, fuel = n + 1 := ⟨fuel - 1,by rw [length_cons] at hf; omega⟩
      have hrest : Chain (update h p₀ none) _ ps _ := rest.congr fun a ha => by
        refine update_of_ne ?_ _ _
        rintro rfl
        exact hp ha
      obtain ⟨h',hfree,hh'⟩ := ih hrest hnd' fuel (Nat.le_of_succ_le_succ hf)
      refine ⟨h',?_,fun a => ?_⟩
      · simp [freeChain,cell,hfree]
      · rw [hh' a]
        by_cases ha : a = p₀
        · subst ha
          simp
        · rw [update_of_ne ha]
          simp [ha]

end VibeOS.Storage

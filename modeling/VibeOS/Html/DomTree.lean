import VibeOS.Html.Dom
import Mathlib.Data.List.Range
import Mathlib.Data.List.Nodup

/-! The nodes as a tree, and its destruction. -/
namespace VibeOS.DomBuilder
open VibeOS.Html VibeOS.Libc List Option

def parentOf (nodes : List DomNode) (j : ℕ) : Option ℕ := (nodes[j]?).bind DomNode.parent

def childrenOf (nodes : List DomNode) (p : ℕ) : List ℕ := (List.range nodes.length).filter fun j => parentOf nodes j = some p

structure Linked (nodes : List DomNode) : Prop where
  root : ∃ n, nodes[0]? = some n ∧ n.parent = none ∧ n.nextSibling = none
  parent : ∀ j n, nodes[j]? = some n → 0 < j → ∃ p, p < j ∧ n.parent = some p
  first : ∀ j n, nodes[j]? = some n → n.firstChild = (childrenOf nodes j).head?
  last : ∀ j n, nodes[j]? = some n → n.lastChild = (childrenOf nodes j).getLast?
  next : ∀ j n p, nodes[j]? = some n → n.parent = some p → n.nextSibling = ((childrenOf nodes p).filter fun k => j < k).head?

/-- `j` is `a` or stands below it. -/
inductive Under (nodes : List DomNode) (a : ℕ) : ℕ → Prop
  | refl : Under nodes a a
  | step {p j : ℕ} (h : Under nodes a p) (hp : parentOf nodes j = some p) : Under nodes a j

variable {nodes : List DomNode}

lemma mem_childrenOf {p j : ℕ} : j ∈ childrenOf nodes p ↔ j < nodes.length ∧ parentOf nodes j = some p := by
  rw [childrenOf,mem_filter,mem_range,decide_eq_true_eq]

lemma childrenOf_sorted (nodes : List DomNode) (p : ℕ) : (childrenOf nodes p).Pairwise (· < ·) := List.Pairwise.filter _ pairwise_lt_range

lemma parentOf_lt {j p : ℕ} (h : parentOf nodes j = some p) : j < nodes.length := by
  by_contra hj
  rw [parentOf,getElem?_eq_none (by omega)] at h
  exact nomatch h

lemma Linked.parent_lt (h : Linked nodes) {j p : ℕ} (hp : parentOf nodes j = some p) : p < j := by
  have hj := parentOf_lt hp
  rw [parentOf,getElem?_eq_getElem hj,bind_some] at hp
  obtain ⟨n,hn,hnone,-⟩ := h.root
  have hpos : 0 < j := by
    by_contra hzero
    obtain rfl : j = 0 := by omega
    rw [getElem?_eq_getElem hj] at hn
    rw [some.inj hn] at hp
    rw [hnone] at hp
    exact nomatch hp
  obtain ⟨q,hq,hparent⟩ := h.parent j _ (getElem?_eq_getElem hj) hpos
  rw [hp] at hparent
  rw [some.inj hparent]
  exact hq

lemma Under.le (h : Linked nodes) {a j : ℕ} (hu : Under nodes a j) : a ≤ j := by
  induction hu with
  | refl => exact Nat.le_refl a
  | step _ hp ih => exact ih.trans (h.parent_lt hp).le

lemma under_iff {a j p : ℕ} (hp : parentOf nodes j = some p) : Under nodes a j ↔ a = j ∨ Under nodes a p := by
  constructor
  · intro h
    cases h with
    | refl => exact .inl rfl
    | step h hq =>
      rw [hp] at hq
      rw [some.inj hq]
      exact .inr h
  · rintro (rfl | h)
    · exact .refl
    · exact .step h hp

lemma under_iff_eq {a j : ℕ} (hp : parentOf nodes j = none) : Under nodes a j ↔ a = j := by
  constructor
  · intro h
    cases h with
    | refl => rfl
    | step _ hq =>
      rw [hp] at hq
      exact nomatch hq
  · rintro rfl
    exact .refl

variable {j : ℕ}

lemma Linked.under_root (h : Linked nodes) (hj : j < nodes.length) : Under nodes 0 j := by
  induction j using Nat.strong_induction_on with
  | _ j ih =>
    rcases Nat.eq_zero_or_pos j with rfl | hpos
    · exact .refl
    · obtain ⟨p,hp,hparent⟩ := h.parent j _ (getElem?_eq_getElem hj) hpos
      refine .step (ih p hp (by omega)) ?_
      rw [parentOf,getElem?_eq_getElem hj,bind_some,hparent]

/-- An older node behind a new child of `p`. -/
def relinked (nodes : List DomNode) (p j : ℕ) (s : DomNode) : DomNode :=
  { s with
    firstChild := if j = p ∧ s.lastChild = none then some nodes.length else s.firstChild
    lastChild := if j = p then some nodes.length else s.lastChild
    nextSibling := if (nodes[p]?).bind DomNode.lastChild = some j then some nodes.length else s.nextSibling }

lemma length_appendChild (nodes : List DomNode) (p : ℕ) (child : DomNode) : (domNodeAppendChild nodes p child).length = nodes.length + 1 := by
  unfold domNodeAppendChild
  dsimp only
  split <;> simp only [length_append,length_modify,length_singleton]

lemma appendChild_old (nodes : List DomNode) (p : ℕ) (child : DomNode) (hj : j < nodes.length) :
    (domNodeAppendChild nodes p child)[j]? = (nodes[j]?).map (relinked nodes p j) := by
  unfold domNodeAppendChild
  dsimp only
  rw [getElem?_append_left (by split <;> simpa only [length_modify] using hj),getElem?_eq_getElem hj]
  split
  · rename_i l hl
    have hfirst : ¬ (j = p ∧ nodes[j].lastChild = none) := by
      rintro ⟨rfl,hnone⟩
      rw [getElem?_eq_getElem hj,bind_some,hnone] at hl
      exact nomatch hl
    simp only [getElem?_modify,getElem?_eq_getElem hj,map_some,relinked,hl,if_neg hfirst]
    by_cases hp : p = j
    · by_cases hlj : l = j <;> simp [hp,hlj]
    · by_cases hlj : l = j <;> simp [hp,hlj,Ne.symm hp]
  · rename_i hl
    simp only [getElem?_modify,getElem?_eq_getElem hj,map_some,relinked,hl]
    by_cases hp : p = j
    · subst hp
      rw [getElem?_eq_getElem hj,bind_some] at hl
      simp [hl]
    · simp [hp,Ne.symm hp]

lemma appendChild_new (nodes : List DomNode) (p : ℕ) (child : DomNode) :
    (domNodeAppendChild nodes p child)[nodes.length]? = some { child with parent := some p } := by
  unfold domNodeAppendChild
  dsimp only
  split
  · rw [getElem?_append_right (by simp only [length_modify,le_refl])]
    simp only [length_modify,Nat.sub_self,getElem?_cons_zero]
  · rw [getElem?_append_right (by simp only [length_modify,le_refl])]
    simp only [length_modify,Nat.sub_self,getElem?_cons_zero]

lemma appendChild_cases {p : ℕ} {child : DomNode} {n : DomNode} (hn : (domNodeAppendChild nodes p child)[j]? = some n) :
    (∃ s, nodes[j]? = some s ∧ n = relinked nodes p j s ∧ j < nodes.length) ∨ (j = nodes.length ∧ n = { child with parent := some p }) := by
  have hj : j < nodes.length + 1 := by
    rw [← length_appendChild nodes p child]
    exact (List.getElem?_eq_some_iff.mp hn).1
  rcases Nat.lt_succ_iff_lt_or_eq.mp hj with hj | rfl
  · rw [appendChild_old nodes p child hj,getElem?_eq_getElem hj,map_some] at hn
    exact .inl ⟨_,getElem?_eq_getElem hj,(some.inj hn).symm,hj⟩
  · rw [appendChild_new] at hn
    exact .inr ⟨rfl,(some.inj hn).symm⟩

lemma parentOf_old (p : ℕ) (child : DomNode) (hj : j < nodes.length) :
    parentOf (domNodeAppendChild nodes p child) j = parentOf nodes j := by
  rw [parentOf,parentOf,appendChild_old nodes p child hj,getElem?_eq_getElem hj]
  rfl

lemma parentOf_new (nodes : List DomNode) (p : ℕ) (child : DomNode) : parentOf (domNodeAppendChild nodes p child) nodes.length = some p := by
  rw [parentOf,appendChild_new]
  rfl

lemma childrenOf_append (nodes : List DomNode) (p : ℕ) (child : DomNode) (q : ℕ) :
    childrenOf (domNodeAppendChild nodes p child) q = childrenOf nodes q ++ if p = q then [nodes.length] else [] := by
  rw [childrenOf,length_appendChild,range_succ,filter_append]
  congr 1
  · refine filter_congr fun j hj => ?_
    rw [parentOf_old p child (List.mem_range.mp hj)]
  · rw [filter_singleton,parentOf_new]
    by_cases h : p = q
    · rw [if_pos h,h]
      simp
    · rw [if_neg h]
      simp [h]

lemma head?_append_singleton {l : List ℕ} {n : ℕ} : (l ++ [n]).head? = if l.getLast? = none then some n else l.head? := by
  cases l with
  | nil | cons a l => rfl

lemma filter_lt_eq_nil {l : List ℕ} (hl : l.Pairwise (· < ·)) (hj : j ∈ l) : l.filter (fun k => j < k) = [] ↔ l.getLast? = some j := by
  induction l with
  | nil => exact nomatch hj
  | cons a l ih =>
    obtain ⟨ha,hl⟩ := List.pairwise_cons.mp hl
    rcases List.mem_cons.mp hj with rfl | hj
    · cases l with
      | nil => simp
      | cons b l =>
        have hb := ha b mem_cons_self
        refine iff_of_false (fun h => ?_) fun h => ?_
        · rw [filter_eq_nil_iff] at h
          exact h b (mem_cons_of_mem _ mem_cons_self) (decide_eq_true hb)
        · rw [getLast?_cons_cons] at h
          exact Nat.lt_irrefl _ (ha j (mem_of_getLast? h))
    · have hne : l ≠ [] := ne_nil_of_mem hj
      have hlast : (a :: l).getLast? = l.getLast? := by
        cases l with
        | nil => exact absurd rfl hne
        | cons b l => exact getLast?_cons_cons
      rw [hlast,← ih hl hj,filter_cons_of_neg (by simpa using (ha j hj).le)]

lemma Linked.append (h : Linked nodes) {p : ℕ} (hp : p < nodes.length) {child : DomNode} (hfirst : child.firstChild = none)
    (hlast : child.lastChild = none) (hnext : child.nextSibling = none) : Linked (domNodeAppendChild nodes p child) := by
  have hpos : 0 < nodes.length := by omega
  have hplast : (nodes[p]?).bind DomNode.lastChild = (childrenOf nodes p).getLast? := by
    rw [getElem?_eq_getElem hp,bind_some]
    exact h.last p _ (getElem?_eq_getElem hp)
  have hnochild : childrenOf nodes nodes.length = [] := by
    rw [eq_nil_iff_forall_not_mem]
    intro k hk
    rw [mem_childrenOf] at hk
    have := h.parent_lt hk.2
    omega
  refine ⟨?_,?_,?_,?_,?_⟩
  · obtain ⟨n,hn,hparent,hsib⟩ := h.root
    refine ⟨relinked nodes p 0 n,?_,hparent,?_⟩
    · rw [appendChild_old nodes p child hpos,hn]
      rfl
    · refine (if_neg fun hl => ?_).trans hsib
      rw [hplast] at hl
      have hmem := mem_childrenOf.mp (mem_of_getLast? hl)
      rw [parentOf,hn,bind_some,hparent] at hmem
      exact nomatch hmem.2
  · intro j n hn hj
    rcases appendChild_cases hn with ⟨s,hs,rfl,-⟩ | ⟨rfl,rfl⟩
    · exact h.parent j s hs hj
    · exact ⟨p,hp,rfl⟩
  · intro j n hn
    rw [childrenOf_append]
    rcases appendChild_cases hn with ⟨s,hs,rfl,-⟩ | ⟨rfl,rfl⟩
    · dsimp only [relinked]
      by_cases hj : p = j
      · subst hj
        rw [if_pos rfl,head?_append_singleton,← h.last p s hs,← h.first p s hs]
        simp only [true_and]
      · rw [if_neg hj,append_nil,if_neg fun hh => hj hh.1.symm]
        exact h.first j s hs
    · rw [hnochild,if_neg (by omega)]
      exact hfirst
  · intro j n hn
    rw [childrenOf_append]
    rcases appendChild_cases hn with ⟨s,hs,rfl,-⟩ | ⟨rfl,rfl⟩
    · dsimp only [relinked]
      by_cases hj : p = j
      · rw [if_pos hj,if_pos hj.symm,getLast?_concat]
      · rw [if_neg hj,append_nil,if_neg fun hh => hj hh.symm]
        exact h.last j s hs
    · rw [hnochild,if_neg (by omega)]
      exact hlast
  · intro j n q hn hparent
    rw [childrenOf_append]
    rcases appendChild_cases hn with ⟨s,hs,rfl,hj⟩ | ⟨rfl,rfl⟩
    · have hold := h.next j s q hs hparent
      have hmem : j ∈ childrenOf nodes q := mem_childrenOf.mpr ⟨hj,by rw [parentOf,hs]; exact hparent⟩
      dsimp only [relinked]
      rw [hplast]
      by_cases hq : p = q
      · subst hq
        have hsingle : [nodes.length].filter (fun k => decide (j < k)) = [nodes.length] := by
          simp only [filter_cons,hj,decide_true,if_true,filter_nil]
        rw [if_pos rfl,filter_append,hsingle]
        by_cases hl : (childrenOf nodes p).getLast? = some j
        · rw [if_pos hl,(filter_lt_eq_nil (childrenOf_sorted nodes p) hmem).mpr hl]
          rfl
        · rw [if_neg hl,hold]
          have hne := mt (filter_lt_eq_nil (childrenOf_sorted nodes p) hmem).mp hl
          exact (head?_append_of_ne_nil _ hne).symm
      · rw [if_neg hq,append_nil,if_neg fun hl => ?_]
        · exact hold
        · have hother := (mem_childrenOf.mp (mem_of_getLast? hl)).2
          rw [(mem_childrenOf.mp hmem).2] at hother
          exact hq (some.inj hother).symm
    · obtain rfl : p = q := some.inj hparent
      have hnone : (childrenOf nodes p ++ if p = p then [nodes.length] else []).filter (fun k => nodes.length < k) = [] := by
        rw [if_pos rfl,filter_eq_nil_iff]
        intro k hk
        rcases List.mem_append.mp hk with hk | hk
        · have := (mem_childrenOf.mp hk).1
          simp only [decide_eq_true_eq]
          omega
        · rw [List.mem_singleton.mp hk]
          simp only [decide_eq_true_eq]
          omega
      rw [hnone]
      exact hnext

section Count
open scoped Classical

lemma countP_exclusive {α : Type} (p q : α → Prop) [DecidablePred p] [DecidablePred q] (l : List α) (h : ∀ a ∈ l, ¬ (p a ∧ q a)) :
    l.countP (fun a => decide (p a ∨ q a)) = l.countP (fun a => decide (p a)) + l.countP (fun a => decide (q a)) := by
  induction l with
  | nil => rfl
  | cons a l ih =>
    have hrest := ih fun b hb => h b (mem_cons_of_mem a hb)
    have hhead := h a mem_cons_self
    rw [countP_cons,countP_cons,countP_cons,hrest]
    by_cases hp : p a
    · have hq : ¬ q a := fun hq => hhead ⟨hp,hq⟩
      simp only [hp,hq,true_or,decide_true,if_true,decide_false,Bool.false_eq_true,if_false]
      omega
    · by_cases hq : q a
      · simp only [hp,hq,or_true,decide_true,if_true,decide_false,Bool.false_eq_true,if_false]
        omega
      · simp only [hp,hq,or_false,decide_false,Bool.false_eq_true,if_false]
        omega

lemma count_childrenOf (nodes : List DomNode) (a b : ℕ) : (childrenOf nodes a).count b = if parentOf nodes b = some a then 1 else 0 := by
  have hnodup : (childrenOf nodes a).Nodup := (childrenOf_sorted nodes a).imp fun h => Nat.ne_of_lt h
  by_cases h : parentOf nodes b = some a
  · rw [if_pos h]
    exact count_eq_one_of_mem hnodup (mem_childrenOf.mpr ⟨parentOf_lt h,h⟩)
  · rw [if_neg h]
    exact count_eq_zero_of_not_mem fun hmem => h (mem_childrenOf.mp hmem).2

variable {nodes : List DomNode}

lemma Linked.count_under (h : Linked nodes) (a b : ℕ) :
    (childrenOf nodes a).countP (fun c => decide (Under nodes c b)) + (if a = b then 1 else 0) = if Under nodes a b then 1 else 0 := by
  induction b using Nat.strong_induction_on with
  | _ b ih =>
    have heq : (childrenOf nodes a).countP (fun c => decide (c = b)) = if parentOf nodes b = some a then 1 else 0 := by
      rw [← count_childrenOf,count_eq_countP]
      refine countP_congr fun c _ => ?_
      rw [decide_eq_true_eq,beq_iff_eq]
    rcases hp : parentOf nodes b with _ | p
    · have hiff : (childrenOf nodes a).countP (fun c => decide (Under nodes c b)) = (childrenOf nodes a).countP (fun c => decide (c = b)) := by
        refine countP_congr fun c _ => ?_
        rw [decide_eq_true_eq,decide_eq_true_eq,under_iff_eq hp]
      rw [hiff,heq,hp,if_neg (by exact nofun),Nat.zero_add]
      simp only [under_iff_eq hp]
    · have hpb := h.parent_lt hp
      have hiff : (childrenOf nodes a).countP (fun c => decide (Under nodes c b)) =
          (childrenOf nodes a).countP (fun c => decide (c = b ∨ Under nodes c p)) := by
        refine countP_congr fun c _ => ?_
        rw [decide_eq_true_eq,decide_eq_true_eq,under_iff hp]
      have hsplit := countP_exclusive (· = b) (Under nodes · p) (childrenOf nodes a) fun c _ hc => by
        obtain ⟨rfl,hu⟩ := hc
        have := hu.le h
        omega
      have hparent := ih p hpb
      rw [hiff,hsplit,heq,hp]
      by_cases hab : a = b
      · subst hab
        have hno : ¬ Under nodes a p := fun hu => by
          have := hu.le h
          omega
        have hne : ¬ a = p := by omega
        rw [if_neg hno,if_neg hne] at hparent
        have hparent' : ¬ some p = some a := fun he => hne (some.inj he).symm
        rw [if_neg hparent',if_pos rfl,if_pos .refl]
        omega
      · rw [if_neg hab]
        have hwhole : Under nodes a b ↔ Under nodes a p := by
          rw [under_iff hp]
          exact or_iff_right hab
        simp only [hwhole]
        by_cases hap : a = p
        · subst hap
          rw [if_pos rfl] at hparent ⊢
          omega
        · rw [if_neg hap] at hparent
          rw [if_neg fun he => hap (some.inj he).symm]
          omega

/-- The nodes that `dom_node_free` goes over, as it frees them. -/
def freed (nodes : List DomNode) : ℕ → Option ℕ → List ℕ
  | _,none => []
  | 0,some _ => []
  | fuel+1,some c =>
    match nodes[c]? with
    | none => []
    | some n => freed nodes fuel n.firstChild ++ c :: freed nodes fuel n.nextSibling

lemma Linked.next_child (h : Linked nodes) {q c : ℕ} {done rest : List ℕ} (hs : childrenOf nodes q = done ++ c :: rest) :
    ∃ n, nodes[c]? = some n ∧ n.nextSibling = rest.head? := by
  have hmem : c ∈ childrenOf nodes q := by
    rw [hs]
    exact mem_append_right _ mem_cons_self
  obtain ⟨hc,hparent⟩ := mem_childrenOf.mp hmem
  have hn := getElem?_eq_getElem hc
  refine ⟨nodes[c],hn,?_⟩
  rw [parentOf,hn,bind_some] at hparent
  have hsorted := childrenOf_sorted nodes q
  rw [hs,pairwise_append] at hsorted
  obtain ⟨-,hright,hbefore⟩ := hsorted
  have hdone : done.filter (fun k => c < k) = [] := by
    rw [filter_eq_nil_iff]
    intro k hk
    have := hbefore k hk c mem_cons_self
    simp only [decide_eq_true_eq]
    omega
  have hrest : rest.filter (fun k => c < k) = rest := List.filter_eq_self.mpr fun k hk => decide_eq_true ((List.pairwise_cons.mp hright).1 k hk)
  rw [h.next c _ q hn hparent,hs,filter_append,hdone,nil_append,filter_cons_of_neg (by simp),hrest]

lemma Linked.count_freed (h : Linked nodes) (b : ℕ) {fuel q : ℕ} {done rest : List ℕ} (hs : childrenOf nodes q = done ++ rest)
    (hfuel : ∀ c, rest.head? = some c → nodes.length ≤ c + fuel) :
    (freed nodes fuel rest.head?).count b = rest.countP fun c => decide (Under nodes c b) := by
  induction fuel generalizing q done rest with
  | zero =>
    cases rest with
    | nil => rfl
    | cons c rest =>
      have hmem : c ∈ childrenOf nodes q := by
        rw [hs]
        exact mem_append_right _ mem_cons_self
      have hc := (mem_childrenOf.mp hmem).1
      have := hfuel c rfl
      omega
  | succ fuel ih =>
    cases rest with
    | nil => rfl
    | cons c rest =>
      have hbound := hfuel c rfl
      obtain ⟨n,hn,hnext⟩ := h.next_child hs
      have hsorted := childrenOf_sorted nodes q
      rw [hs,pairwise_append] at hsorted
      have hright := (List.pairwise_cons.mp hsorted.2.1).1
      have hchildren : (freed nodes fuel n.firstChild).count b = (childrenOf nodes c).countP fun c => decide (Under nodes c b) := by
        rw [h.first c n hn]
        refine ih (nil_append _).symm fun d hd => ?_
        have := h.parent_lt (mem_childrenOf.mp (mem_of_head? hd)).2
        omega
      have hrest : (freed nodes fuel n.nextSibling).count b = rest.countP fun c => decide (Under nodes c b) := by
        rw [hnext]
        refine ih (hs.trans (append_cons done c rest)) fun d hd => ?_
        have := hright d (mem_of_head? hd)
        omega
      have hunder := h.count_under c b
      rw [head?_cons,freed,hn]
      dsimp only
      rw [count_append,count_cons,hchildren,hrest,countP_cons]
      simp only [beq_iff_eq,decide_eq_true_eq]
      omega

lemma Linked.freed_perm (h : Linked nodes) {n : DomNode} (hn : nodes[0]? = some n) :
    (freed nodes nodes.length n.firstChild ++ [0]).Perm (List.range nodes.length) := by
  rw [perm_iff_count]
  intro b
  have hpos : 0 < nodes.length := (List.getElem?_eq_some_iff.mp hn).1
  have hcount : (freed nodes nodes.length n.firstChild).count b = (childrenOf nodes 0).countP fun c => decide (Under nodes c b) := by
    rw [h.first 0 n hn]
    exact h.count_freed b (nil_append _).symm fun c _ => Nat.le_add_left _ _
  have hunder := h.count_under 0 b
  have hrange : (List.range nodes.length).count b = if Under nodes 0 b then 1 else 0 := by
    by_cases hb : b < nodes.length
    · rw [if_pos (h.under_root hb)]
      exact count_eq_one_of_mem nodup_range (List.mem_range.mpr hb)
    · have hno : ¬ Under nodes 0 b := fun hu => by
        have hnone : parentOf nodes b = none := by
          rw [parentOf,getElem?_eq_none (by omega)]
          rfl
        have := (under_iff_eq hnone).mp hu
        omega
      rw [if_neg hno]
      exact count_eq_zero_of_not_mem fun hmem => hb (List.mem_range.mp hmem)
  rw [count_append,hcount,count_singleton,hrange,← hunder]
  simp only [beq_iff_eq]

end Count

def blocksAt (nodes : List DomNode) (j : ℕ) : List ℕ := ((nodes[j]?).map DomNode.blocks).getD []

variable {nodes : List DomNode}

lemma blocksAt_some {j : ℕ} {n : DomNode} (hn : nodes[j]? = some n) : blocksAt nodes j = n.blocks := by
  rw [blocksAt,hn]
  rfl

lemma block_mem_blocks (n : DomNode) : n.block ∈ n.blocks := mem_append_right _ (mem_singleton_self _)

lemma flatMap_blocksAt (nodes : List DomNode) : (List.range nodes.length).flatMap (blocksAt nodes) = nodes.flatMap DomNode.blocks := by
  have hmap : (List.range nodes.length).map (blocksAt nodes) = nodes.map DomNode.blocks := by
    refine ext_getElem (by simp) fun j hj hj' => ?_
    rw [getElem_map,getElem_map,getElem_range]
    exact blocksAt_some (getElem?_eq_getElem _)
  rw [flatMap_def,flatMap_def,hmap]

lemma Linked.younger (h : Linked nodes) {j k : ℕ} {n : DomNode} (hn : nodes[j]? = some n)
    (hk : n.firstChild = some k ∨ n.nextSibling = some k) : j < k ∧ k < nodes.length := by
  rcases hk with hk | hk
  · rw [h.first j n hn] at hk
    have hmem := mem_childrenOf.mp (mem_of_head? hk)
    exact ⟨h.parent_lt hmem.2,hmem.1⟩
  · rcases hp : n.parent with _ | p
    · rcases Nat.eq_zero_or_pos j with rfl | hpos
      · obtain ⟨r,hr,-,hsib⟩ := h.root
        rw [hn] at hr
        rw [some.inj hr,hsib] at hk
        exact nomatch hk
      · obtain ⟨p,-,hparent⟩ := h.parent j n hn hpos
        rw [hp] at hparent
        exact nomatch hparent
    · rw [h.next j n p hn hp] at hk
      have hmem := List.mem_filter.mp (mem_of_head? hk)
      exact ⟨of_decide_eq_true hmem.2,(mem_childrenOf.mp hmem.1).1⟩

lemma Linked.domFreeList_spec (h : Linked nodes) {fuel : ℕ} {c : Option ℕ} {heap : Heap} {rest : List ℕ}
    (hc : ∀ k, c = some k → k < nodes.length ∧ nodes.length ≤ k + fuel)
    (hlive : heap.live.Perm ((freed nodes fuel c).flatMap (blocksAt nodes) ++ rest)) :
    ∃ heap', domFreeList nodes fuel c heap = some heap' ∧ heap'.live.Perm rest := by
  induction fuel generalizing c heap rest with
  | zero =>
    cases c with
    | none => exact ⟨heap,rfl,hlive⟩
    | some k =>
      have := hc k rfl
      omega
  | succ fuel ih =>
    cases c with
    | none => exact ⟨heap,rfl,hlive⟩
    | some k =>
      obtain ⟨hk,hbound⟩ := hc k rfl
      have hn := getElem?_eq_getElem hk
      have hlink (m : ℕ) (hm : nodes[k].firstChild = some m ∨ nodes[k].nextSibling = some m) : m < nodes.length ∧ nodes.length ≤ m + fuel := by
        obtain ⟨hlt,hlen⟩ := h.younger hn hm
        exact ⟨hlen,by omega⟩
      rw [freed,hn] at hlive
      dsimp only at hlive
      rw [flatMap_append,flatMap_cons,blocksAt_some hn,append_assoc,append_assoc] at hlive
      have hblock : nodes[k].block ∈ heap.live :=
        hlive.symm.subset (mem_append_right _ (mem_append_left _ (block_mem_blocks _)))
      obtain ⟨heap₁,hfirst,hlive₁⟩ := ih (fun m hm => hlink m (.inl hm)) hlive
      obtain ⟨heap₂,hown,hlive₂⟩ := freeAll_spec hlive₁
      obtain ⟨heap₃,hnext,hlive₃⟩ := ih (fun m hm => hlink m (.inr hm)) hlive₂
      refine ⟨heap₃,?_,hlive₃⟩
      rw [domFreeList,hn]
      dsimp only
      rw [if_pos hblock,hfirst,bind_some,hown,bind_some,hnext]

lemma Linked.domDestroy_spec {d : Dom} (h : Linked d.nodes) (howned : d.heap.live.Perm (d.nodes.flatMap DomNode.blocks)) :
    ∃ heap, domDestroy d = some heap ∧ heap.live = [] := by
  obtain ⟨n,hn,-⟩ := h.root
  have hpos : 0 < d.nodes.length := (List.getElem?_eq_some_iff.mp hn).1
  have hperm := (h.freed_perm hn).flatMap_right (blocksAt d.nodes)
  rw [flatMap_blocksAt,flatMap_append,flatMap_singleton,blocksAt_some hn] at hperm
  have hlive := howned.trans hperm.symm
  have hblock : n.block ∈ d.heap.live := hlive.symm.subset (mem_append_right _ (block_mem_blocks n))
  obtain ⟨heap₁,hfirst,hlive₁⟩ := h.domFreeList_spec (c := n.firstChild) (fun k hk => by
    have := h.younger hn (.inl hk)
    exact ⟨this.2,by omega⟩) hlive
  rw [← append_nil n.blocks] at hlive₁
  obtain ⟨heap₂,hown,hlive₂⟩ := freeAll_spec hlive₁
  refine ⟨heap₂,?_,List.Perm.eq_nil hlive₂⟩
  rw [domDestroy,hn]
  dsimp only
  rw [if_pos hblock,hfirst,bind_some,hown]

end VibeOS.DomBuilder

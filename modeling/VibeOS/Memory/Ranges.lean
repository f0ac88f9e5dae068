import VibeOS.Memory.Windows

/-! The list of free ranges that `wm_freelist_take` and `wm_freelist_release` keep: in order, with a
gap between any two, and each address is in one of them at most. -/
namespace VibeOS.Memory
open List Option

def WmVaRange.covers (r : WmVaRange) (x : ℕ) : Bool := r.va ≤ x && x < r.va + r.nPages*pageSize

def coverCount (rs : List WmVaRange) (x : ℕ) : ℕ := rs.countP fun r => r.covers x

/-- No range is empty, and each ends before the next one starts. -/
structure Spaced (rs : List WmVaRange) : Prop where
  pos : ∀ r ∈ rs, 0 < r.nPages
  apart : rs.Pairwise fun a b => a.va + a.nPages*pageSize < b.va

section Ranges
variable {rs pre post : List WmVaRange} {r : WmVaRange} {va n x : ℕ}

lemma covers_iff : r.covers x = true ↔ r.va ≤ x ∧ x < r.va + r.nPages*pageSize := by
  unfold WmVaRange.covers
  rw [Bool.and_eq_true,decide_eq_true_iff,decide_eq_true_iff]

lemma coverCount_cons (r : WmVaRange) (rs : List WmVaRange) (x : ℕ) :
    coverCount (r :: rs) x = coverCount rs x + if r.covers x then 1 else 0 := countP_cons

lemma coverCount_append (pre post : List WmVaRange) (x : ℕ) :
    coverCount (pre ++ post) x = coverCount pre x + coverCount post x := countP_append

lemma coverCount_mid (pre : List WmVaRange) (r : WmVaRange) (post : List WmVaRange) (x : ℕ) :
    coverCount (pre ++ r :: post) x = coverCount (pre ++ post) x + if r.covers x then 1 else 0 := by
  rw [coverCount_append,coverCount_append,coverCount_cons,Nat.add_assoc]

lemma covers_join (va a b x : ℕ) : (if (⟨va,a + b⟩ : WmVaRange).covers x then 1 else 0) =
    (if (⟨va,a⟩ : WmVaRange).covers x then 1 else 0) + if (⟨va + a*pageSize,b⟩ : WmVaRange).covers x then 1 else 0 := by
  simp only [covers_iff]
  unfold pageSize
  split_ifs <;> omega

lemma coverCount_pos (h : r ∈ rs) (hx : r.covers x = true) : 0 < coverCount rs x :=
  List.countP_pos_iff.mpr ⟨r,h,hx⟩

lemma not_covers_of_count (h : coverCount rs x = 0) (hr : r ∈ rs) : r.covers x = false := by
  by_contra hc
  have := coverCount_pos hr ((Bool.not_eq_false _).mp hc)
  omega

lemma bestFit_spec {k j : ℕ} {best : Option (ℕ × WmVaRange)} (h : AddressSpace.bestFit n k rs best = some (j,r)) :
    best = some (j,r) ∨ ∃ pre post, rs = pre ++ r :: post ∧ j = k + pre.length ∧ n ≤ r.nPages := by
  induction rs generalizing k best with
  | nil => exact .inl h
  | cons q rs ih =>
    rw [AddressSpace.bestFit] at h
    split at h
    · next hq =>
      rcases ih h with hb | ⟨pre,post,rfl,hj,hn⟩
      · obtain ⟨rfl,rfl⟩ := Prod.mk.inj (some.inj hb)
        exact .inr ⟨[],rs,rfl,rfl,hq.1⟩
      · exact .inr ⟨q :: pre,post,rfl,by rw [hj,length_cons]; omega,hn⟩
    · rcases ih h with hb | ⟨pre,post,rfl,hj,hn⟩
      · exact .inl hb
      · exact .inr ⟨q :: pre,post,rfl,by rw [hj,length_cons]; omega,hn⟩

/-- What is left of a range of which `n` pages are taken. -/
def remainder (r : WmVaRange) (n : ℕ) : List WmVaRange :=
  if r.nPages = n then [] else [⟨r.va + n*pageSize,r.nPages - n⟩]

lemma wmFreelistTake_spec {as as' : AddressSpace} (h : as.wmFreelistTake n = some (va,as')) :
    ∃ pre r post, as.wmFreelist = pre ++ r :: post ∧ r.va = va ∧ n ≤ r.nPages ∧
      as' = { as with wmFreelist := pre ++ (remainder r n ++ post) } := by
  obtain ⟨⟨k,r⟩,hbest,htake⟩ := Option.map_eq_some_iff.mp h
  dsimp only at htake
  obtain ⟨rfl,rfl⟩ := Prod.mk.inj htake
  rcases bestFit_spec hbest with hnone | ⟨pre,post,hlist,hk,hn⟩
  · cases hnone
  · refine ⟨pre,r,post,hlist,rfl,hn,?_⟩
    rw [Nat.zero_add] at hk
    rw [hlist,hk,remainder]
    split
    · rw [eraseIdx_append_of_length_le le_rfl,Nat.sub_self,eraseIdx_cons_zero,nil_append]
    · rw [set_append_right _ _ le_rfl,Nat.sub_self,set_cons_zero,singleton_append]

lemma mem_remainder {q : WmVaRange} (hn : n ≤ r.nPages) (h : q ∈ remainder r n) :
    0 < q.nPages ∧ q.va = r.va + n*pageSize ∧ q.va + q.nPages*pageSize = r.va + r.nPages*pageSize := by
  unfold remainder at h
  split at h
  · exact absurd h not_mem_nil
  · next hne =>
    rw [List.mem_singleton.mp h]
    unfold pageSize
    dsimp only
    omega

lemma Spaced.take (h : Spaced (pre ++ r :: post)) (hn : n ≤ r.nPages) : Spaced (pre ++ (remainder r n ++ post)) := by
  obtain ⟨hpre,hrest,hcross⟩ := List.pairwise_append.mp h.apart
  obtain ⟨hr,hpost⟩ := List.pairwise_cons.mp hrest
  constructor
  · intro q hq
    rcases List.mem_append.mp hq with hq | hq
    · exact h.pos q (mem_append_left _ hq)
    · rcases List.mem_append.mp hq with hq | hq
      · exact (mem_remainder hn hq).1
      · exact h.pos q (mem_append_right _ (mem_cons_of_mem _ hq))
  · refine List.pairwise_append.mpr ⟨hpre,List.pairwise_append.mpr ⟨?_,hpost,?_⟩,?_⟩
    · unfold remainder
      split
      · exact .nil
      · exact pairwise_singleton _ _
    · intro q hq p hp
      rw [(mem_remainder hn hq).2.2]
      exact hr p hp
    · intro q hq p hp
      rcases List.mem_append.mp hp with hp | hp
      · have := hcross q hq r mem_cons_self
        rw [(mem_remainder hn hp).2.1]
        omega
      · exact hcross q hq p (mem_cons_of_mem _ hp)

lemma coverCount_take (hn : n ≤ r.nPages) (x : ℕ) : coverCount (pre ++ r :: post) x =
    coverCount (pre ++ (remainder r n ++ post)) x + if (⟨r.va,n⟩ : WmVaRange).covers x then 1 else 0 := by
  rw [coverCount_append,coverCount_append,coverCount_append,coverCount_cons]
  have hwhole := covers_join r.va n (r.nPages - n) x
  rw [Nat.add_sub_cancel' hn] at hwhole
  unfold remainder
  by_cases he : r.nPages = n
  · have hnone : coverCount [] x = 0 := rfl
    subst he
    rw [if_pos rfl,hnone,Nat.zero_add]
    exact (Nat.add_assoc _ _ _).symm
  · rw [if_neg he]
    have hone : coverCount [⟨r.va + n*pageSize,r.nPages - n⟩] x =
        if (⟨r.va + n*pageSize,r.nPages - n⟩ : WmVaRange).covers x then 1 else 0 := by
      rw [coverCount_cons,coverCount,countP_nil,Nat.zero_add]
    rw [hone]
    change coverCount pre x + (coverCount post x + if (⟨r.va,r.nPages⟩ : WmVaRange).covers x then 1 else 0) = _
    omega

lemma Spaced.split (h : Spaced rs) (hn : 0 < n) (hfree : ∀ x, (⟨va,n⟩ : WmVaRange).covers x = true → coverCount rs x = 0) :
    (∀ a ∈ rs.takeWhile fun r => r.va < va, a.va + a.nPages*pageSize ≤ va) ∧
      ∀ c ∈ rs.dropWhile fun r => r.va < va, va + n*pageSize ≤ c.va := by
  have hva : (⟨va,n⟩ : WmVaRange).covers va = true := covers_iff.mpr ⟨le_rfl,by unfold pageSize; dsimp only; omega⟩
  constructor
  · intro a ha
    have hlt : a.va < va := of_decide_eq_true (List.all_eq_true.mp all_takeWhile a ha)
    have hmem : a ∈ rs := (takeWhile_subset _) ha
    have hno := not_covers_of_count (hfree va hva) hmem
    by_contra hle
    have hyes : a.covers va = true := covers_iff.mpr ⟨hlt.le,by omega⟩
    rw [hno] at hyes
    cases hyes
  · have hsuffix : Spaced (rs.dropWhile fun r => r.va < va) :=
      ⟨fun r hr => h.pos r ((dropWhile_subset _) hr),h.apart.sublist (dropWhile_sublist _)⟩
    have hall : ∀ c ∈ rs.dropWhile fun r => r.va < va, va ≤ c.va := by
      cases hd : rs.dropWhile fun r => r.va < va with
      | nil => exact fun c hc => absurd hc not_mem_nil
      | cons b bs =>
        have hb : va ≤ b.va := by
          have hfalse := head_dropWhile_not (fun r : WmVaRange => decide (r.va < va)) (l := rs) (by rw [hd]; simp)
          simp only [hd,head_cons,decide_eq_false_iff_not] at hfalse
          omega
        rw [hd] at hsuffix
        intro c hc
        rcases List.mem_cons.mp hc with rfl | hc
        · exact hb
        · have := (List.pairwise_cons.mp hsuffix.apart).1 c hc
          omega
    intro c hc
    have hge := hall c hc
    have hmem : c ∈ rs := (dropWhile_subset _) hc
    have hpos := h.pos c hmem
    by_contra hlt
    have hin : (⟨va,n⟩ : WmVaRange).covers c.va = true := covers_iff.mpr ⟨hge,by dsimp only; omega⟩
    have hno := not_covers_of_count (hfree _ hin) hmem
    have hyes : c.covers c.va = true := covers_iff.mpr ⟨le_rfl,by unfold pageSize; omega⟩
    rw [hno] at hyes
    cases hyes

structure Released (rs : List WmVaRange) (va n : ℕ) (ok : Bool) (rs' : List WmVaRange) : Prop where
  spaced : Spaced rs'
  aligned : ∀ q ∈ rs', q.va = va ∨ ∃ r ∈ rs, q.va = r.va
  count : (∀ x, coverCount rs' x = coverCount rs x + if (⟨va,n⟩ : WmVaRange).covers x then 1 else 0) ∨
    (ok = false ∧ rs' = rs)

lemma Spaced.insert (hpre : Spaced pre) (hpost : Spaced post) (hr : 0 < r.nPages)
    (hlow : ∀ a ∈ pre, a.va + a.nPages*pageSize < r.va) (hhigh : ∀ c ∈ post, r.va + r.nPages*pageSize < c.va) :
    Spaced (pre ++ r :: post) := by
  refine ⟨List.forall_mem_append.mpr ⟨hpre.pos,List.forall_mem_cons.mpr ⟨hr,hpost.pos⟩⟩,?_⟩
  refine List.pairwise_append.mpr ⟨hpre.apart,List.pairwise_cons.mpr ⟨hhigh,hpost.apart⟩,fun a ha c hc => ?_⟩
  have := hlow a ha
  rcases List.mem_cons.mp hc with rfl | hc
  · exact this
  · have := hhigh c hc
    omega

lemma released_spec (h : Spaced rs) (hn : 0 < n) (hfree : ∀ x, (⟨va,n⟩ : WmVaRange).covers x = true → coverCount rs x = 0)
    {as : AddressSpace} (hrs : as.wmFreelist = rs) (ok : Bool) :
    ∃ rs', as.wmFreelistRelease va n ok = { as with wmFreelist := rs' } ∧ Released rs va n ok rs' := by
  obtain ⟨hbefore,hafter⟩ := h.split hn hfree
  have hlist : (rs.takeWhile fun r => r.va < va) ++ (rs.dropWhile fun r => r.va < va) = rs := takeWhile_append_dropWhile
  unfold AddressSpace.wmFreelistRelease
  dsimp only
  rw [if_neg hn.ne',hrs]
  generalize (rs.takeWhile fun r => r.va < va) = before at hbefore hlist ⊢
  generalize (rs.dropWhile fun r => r.va < va) = after at hafter hlist ⊢
  subst hlist
  obtain ⟨hpb,hpa,-⟩ := List.pairwise_append.mp h.apart
  have hposb (a : WmVaRange) (ha : a ∈ before) : 0 < a.nPages := h.pos a (mem_append_left _ ha)
  have hposa (c : WmVaRange) (hc : c ∈ after) : 0 < c.nPages := h.pos c (mem_append_right _ hc)
  have hpost : Spaced after := ⟨hposa,hpa⟩
  -- a neighbour below that the range does not touch is not the last one, or ends earlier
  have hlow (hnone : before.getLast?.filter (fun p => p.va + p.nPages*pageSize == va) = none) :
      ∀ a ∈ before, a.va + a.nPages*pageSize < va := by
    intro a ha
    rcases eq_nil_or_concat before with rfl | ⟨b,p,rfl⟩
    · exact absurd ha not_mem_nil
    · rw [concat_eq_append] at *
      have hp : p.va + p.nPages*pageSize ≠ va := by
        rw [getLast?_concat,filter_eq_none_iff] at hnone
        simpa using hnone p rfl
      have hple := hbefore p (by simp)
      rcases List.mem_append.mp ha with hab | hap
      · have := (List.pairwise_append.mp hpb).2.2 a hab p (mem_singleton_self p)
        omega
      · rw [List.mem_singleton.mp hap]
        omega
  have hhigh (hnone : after.head?.filter (fun c => va + n*pageSize == c.va) = none) :
      ∀ c ∈ after, va + n*pageSize < c.va := by
    intro c hc
    cases after with
    | nil => exact absurd hc not_mem_nil
    | cons d ds =>
      have hd : va + n*pageSize ≠ d.va := by
        rw [head?_cons,filter_eq_none_iff] at hnone
        simpa using hnone d rfl
      have hdle := hafter d mem_cons_self
      rcases List.mem_cons.mp hc with rfl | hcs
      · omega
      · have := (List.pairwise_cons.mp hpa).1 c hcs
        omega
  cases hprev : before.getLast?.filter (fun p => p.va + p.nPages*pageSize == va) with
  | none =>
    have hb := hlow hprev
    have hpre : Spaced before := ⟨hposb,hpb⟩
    cases hcur : after.head?.filter (fun c => va + n*pageSize == c.va) with
    | none =>
      have ha := hhigh hcur
      cases ok with
      | false => exact ⟨_,rfl,⟨h,fun q hq => .inr ⟨q,hq,rfl⟩,.inr ⟨rfl,rfl⟩⟩⟩
      | true =>
        refine ⟨_,rfl,hpre.insert hpost hn hb ha,?_,.inl fun x => coverCount_mid before ⟨va,n⟩ after x⟩
        exact List.forall_mem_append.mpr ⟨fun q hq => .inr ⟨q,mem_append_left _ hq,rfl⟩,
          List.forall_mem_cons.mpr ⟨.inl rfl,fun q hq => .inr ⟨q,mem_append_right _ hq,rfl⟩⟩⟩
    | some c =>
      obtain ⟨hhead,htouch⟩ := Option.filter_eq_some_iff.mp hcur
      have htouch : va + n*pageSize = c.va := by simpa using htouch
      cases after with
      | nil => cases hhead
      | cons d ds =>
        obtain rfl : d = c := some.inj hhead
        obtain ⟨hd,hds⟩ := List.pairwise_cons.mp hpa
        have hdpos := hposa d mem_cons_self
        refine ⟨_,rfl,hpre.insert ⟨fun q hq => hposa q (mem_cons_of_mem _ hq),hds⟩ ?_ hb fun c hc => ?_,?_,.inl fun x => ?_⟩
        · dsimp only
          omega
        · have := hd c hc
          unfold pageSize at *
          dsimp only
          omega
        · exact List.forall_mem_append.mpr ⟨fun q hq => .inr ⟨q,mem_append_left _ hq,rfl⟩,
            List.forall_mem_cons.mpr ⟨.inl rfl,fun q hq => .inr ⟨q,mem_append_right _ (mem_cons_of_mem _ hq),rfl⟩⟩⟩
        · change coverCount (before ++ ⟨va,d.nPages + n⟩ :: ds) x = _
          have hjoin := covers_join va n d.nPages x
          rw [htouch] at hjoin
          rw [coverCount_mid,coverCount_mid,Nat.add_comm d.nPages n,hjoin]
          change _ = coverCount (before ++ ds) x + (if (⟨d.va,d.nPages⟩ : WmVaRange).covers x then 1 else 0) + _
          omega
  | some p =>
    obtain ⟨hlast,htouch⟩ := Option.filter_eq_some_iff.mp hprev
    have htouch : p.va + p.nPages*pageSize = va := by simpa using htouch
    rcases eq_nil_or_concat before with rfl | ⟨b,p',rfl⟩
    · cases hlast
    rw [concat_eq_append] at *
    rw [getLast?_concat] at hlast
    obtain rfl := some.inj hlast
    obtain ⟨hpb',-,hbp⟩ := List.pairwise_append.mp hpb
    have hppos := hposb p' (by simp)
    have hbp (a : WmVaRange) (ha : a ∈ b) : a.va + a.nPages*pageSize < p'.va := hbp a ha p' (mem_singleton_self p')
    have hmemp : p' ∈ (b ++ [p']) ++ after := by simp
    have hpre : Spaced b := ⟨fun a ha => hposb a (mem_append_left _ ha),hpb'⟩
    cases hcur : after.head?.filter (fun c => va + n*pageSize == c.va) with
    | none =>
      have ha := hhigh hcur
      refine ⟨_,rfl,?_,?_,.inl fun x => ?_⟩
      · rw [dropLast_concat]
        refine hpre.insert hpost ?_ hbp fun c hc => ?_
        · dsimp only
          omega
        · have := ha c hc
          unfold pageSize at *
          dsimp only
          omega
      · rw [dropLast_concat]
        exact List.forall_mem_append.mpr ⟨fun q hq => .inr ⟨q,mem_append_left _ (mem_append_left _ hq),rfl⟩,
          List.forall_mem_cons.mpr ⟨.inr ⟨p',hmemp,rfl⟩,fun q hq => .inr ⟨q,mem_append_right _ hq,rfl⟩⟩⟩
      · change coverCount ((b ++ [p']).dropLast ++ ⟨p'.va,p'.nPages + n⟩ :: after) x = _
        have hjoin := covers_join p'.va p'.nPages n x
        rw [htouch] at hjoin
        rw [dropLast_concat,coverCount_mid,hjoin,append_assoc,singleton_append,coverCount_mid]
        change _ = coverCount (b ++ after) x + (if (⟨p'.va,p'.nPages⟩ : WmVaRange).covers x then 1 else 0) + _
        omega
    | some c =>
      obtain ⟨hhead,hctouch⟩ := Option.filter_eq_some_iff.mp hcur
      have hctouch : va + n*pageSize = c.va := by simpa using hctouch
      cases after with
      | nil => cases hhead
      | cons d ds =>
        obtain rfl : d = c := some.inj hhead
        obtain ⟨hd,hds⟩ := List.pairwise_cons.mp hpa
        refine ⟨_,rfl,?_,?_,.inl fun x => ?_⟩
        · rw [dropLast_concat]
          refine hpre.insert ⟨fun q hq => hposa q (mem_cons_of_mem _ hq),hds⟩ ?_ hbp fun c hc => ?_
          · dsimp only
            omega
          · have := hd c hc
            unfold pageSize at *
            dsimp only
            omega
        · rw [dropLast_concat]
          exact List.forall_mem_append.mpr ⟨fun q hq => .inr ⟨q,mem_append_left _ (mem_append_left _ hq),rfl⟩,
            List.forall_mem_cons.mpr ⟨.inr ⟨p',hmemp,rfl⟩,
              fun q hq => .inr ⟨q,mem_append_right _ (mem_cons_of_mem _ hq),rfl⟩⟩⟩
        · change coverCount ((b ++ [p']).dropLast ++ ⟨p'.va,p'.nPages + (n + d.nPages)⟩ :: ds) x = _
          have hjoin := covers_join p'.va p'.nPages (n + d.nPages) x
          have hjoin' := covers_join va n d.nPages x
          rw [htouch] at hjoin
          rw [hctouch] at hjoin'
          rw [dropLast_concat,coverCount_mid,hjoin,hjoin',append_assoc,singleton_append,coverCount_mid,
            coverCount_mid]
          change _ = coverCount (b ++ ds) x + (if (⟨d.va,d.nPages⟩ : WmVaRange).covers x then 1 else 0) +
            (if (⟨p'.va,p'.nPages⟩ : WmVaRange).covers x then 1 else 0) + _
          omega

end Ranges
end VibeOS.Memory

import VibeOS.Memory.SpaceCalls

/-! Address spaces come and go: `address_space_create` and `address_space_destroy`. -/
namespace VibeOS.Memory
open Function List Option
open VibeOS.Storage

variable {tight : Prop} {m m' : Pmem} {spaces : Spaces} {held : ℕ → Bool} {as as' : AddressSpace} {a f l1 l2 : ℕ}
  {i : Index} {d e : Desc}

/-- What `address_space_destroy` does about one part of the address space. -/
def AddressSpace.dropPart (as : AddressSpace) (m : Pmem) : Part → Pmem
  | .page i => (as.entry i).frame.elim m m.decAndFree
  | .l3 i => (as.l2 i).elim m fun t => m.freePage t.pa
  | .l2 => m.freePage as.l2Pa
  | .l1 => m.freePage as.l1Pa

def tableParts (i : Fin 512) : List Part := (finRange 512).map (fun j => .page (i,j)) ++ [.l3 i]

def allParts : List Part := (finRange 512).flatMap tableParts ++ [.l2,.l1]

lemma mem_tableParts {l : Fin 512} {p : Part} : p ∈ tableParts l ↔ (∃ j, p = .page (l,j)) ∨ p = .l3 l := by
  simp [tableParts,eq_comm]

lemma mem_allParts (p : Part) : p ∈ allParts := by
  unfold allParts
  cases p with
  | l1 | l2 => simp
  | l3 i => exact mem_append_left _ (List.mem_flatMap.mpr ⟨i,mem_finRange i,mem_tableParts.mpr (.inr rfl)⟩)
  | page i => exact mem_append_left _ (List.mem_flatMap.mpr ⟨i.1,mem_finRange _,mem_tableParts.mpr (.inl ⟨i.2,rfl⟩)⟩)

lemma nodup_allParts : allParts.Nodup := by
  unfold allParts
  refine List.Nodup.append ?_ (by decide) ?_
  · refine List.nodup_flatMap.mpr ⟨fun l _ => ?_,?_⟩
    · refine List.Nodup.append ?_ (nodup_singleton _) (by simp)
      exact (nodup_finRange 512).map fun j k heq => (Prod.mk.inj (Part.page.inj heq)).2
    · refine (nodup_finRange 512).imp fun {k l} hne p hk hl => ?_
      rw [mem_tableParts] at hk hl
      rcases hk with ⟨j,rfl⟩ | rfl
      · rcases hl with ⟨j',heq⟩ | heq
        · exact hne (Prod.mk.inj (Part.page.inj heq)).1
        · cases heq
      · rcases hl with ⟨j',heq⟩ | heq
        · cases heq
        · exact hne (Part.l3.inj heq)
  · intro p hp hlast
    obtain ⟨l,-,hl⟩ := List.mem_flatMap.mp hp
    rw [mem_tableParts] at hl
    rcases hl with ⟨j,rfl⟩ | rfl <;> simp at hlast

lemma teardownEntry_pmem (mem : Mem) (e : Desc) :
    (AddressSpace.teardownEntry mem e).pmem = e.frame.elim mem.pmem mem.pmem.decAndFree := by
  unfold AddressSpace.teardownEntry Desc.frame
  cases e.valid <;> cases e.wmWindow <;> cases e.pagecache <;> rfl

lemma teardownTable_pmem (mem : Mem) {l : Fin 512} : ((as.l2 l).elim mem (AddressSpace.teardownTable mem)).pmem =
    (tableParts l).foldl as.dropPart mem.pmem := by
  have hpages (js : List (Fin 512)) (g : Fin 512 → Desc) (hg : ∀ j, as.entry (l,j) = g j) :
      (js.foldl (fun mem j => AddressSpace.teardownEntry mem (g j)) mem).pmem =
        (js.map fun j => Part.page (l,j)).foldl as.dropPart mem.pmem := by
    rw [foldl_map]
    refine (foldl_hom Mem.pmem fun mem j => ?_).symm
    show (as.entry (l,j)).frame.elim _ _ = _
    rw [hg,teardownEntry_pmem]
  unfold tableParts
  rw [foldl_append]
  cases hl : as.l2 l with
  | none =>
    rw [← hpages _ (fun _ => .zero) fun j => entry_of_none hl]
    show mem.pmem = (as.l2 l).elim _ _
    rw [hl]
    have hnothing (js : List (Fin 512)) : js.foldl (fun mem _ => AddressSpace.teardownEntry mem .zero) mem = mem := by
      induction js with
      | nil => rfl
      | cons j js ih => exact ih
    rw [hnothing]
    rfl
  | some t =>
    rw [← hpages _ t.entries fun j => entry_of_table hl]
    show _ = (as.l2 l).elim _ _
    rw [hl]
    rfl

lemma teardownRange_pmem (ls : List (Fin 512)) (mem : Mem) :
    (ls.foldl (fun mem l => (as.l2 l).elim mem (AddressSpace.teardownTable mem)) mem).pmem =
      ls.foldl (fun m l => (tableParts l).foldl as.dropPart m) mem.pmem := by
  induction ls generalizing mem with
  | nil => rfl
  | cons l ls ih =>
    rw [foldl_cons,foldl_cons,ih,teardownTable_pmem]

lemma destroy_cases (as : AddressSpace) (mem : Mem) : (∃ left, as.destroy mem = (some { as with refcount := left },mem)) ∨
    ((as.destroy mem).1 = none ∧ (as.destroy mem).2.pmem = allParts.foldl as.dropPart mem.pmem) := by
  unfold AddressSpace.destroy
  dsimp only
  split
  · exact .inl ⟨_,rfl⟩
  · refine .inr ⟨rfl,?_⟩
    have hlast (m : Pmem) : [Part.l2,.l1].foldl as.dropPart m = (m.freePage as.l2Pa).freePage as.l1Pa := rfl
    unfold allParts
    rw [foldl_append,foldl_flatMap,hlast,← teardownRange_pmem]
    rfl

lemma destroy_of_one {mem : Mem} (h : as.refcount = 1) : (as.destroy mem).1 = none := by
  have hleft : ¬ AddressSpace.subReturn32 1 > 0 := by decide
  unfold AddressSpace.destroy
  simp only [h,if_neg hleft]

lemma Books.dropParts (a : ℕ) (as : AddressSpace) {H : Holder → Option ℕ} {E : Holder → Prop} (ps : List Part) (hnodup : ps.Nodup) (h : Books tight m H E)
    (hE : ∀ p, (∀ i, p ≠ .page i) → E (.part a p)) (hH : ∀ p ∈ ps, H (.part a p) = as.part p) :
    ∃ H', Books tight (ps.foldl as.dropPart m) H' E ∧ Untouched m (ps.foldl as.dropPart m) H' ∧
      (∀ p ∈ ps, H' (.part a p) = none) ∧ ∀ k, (∀ p ∈ ps, k ≠ .part a p) → H' k = H k := by
  induction ps generalizing m H with
  | nil => exact ⟨H,h,fun _ _ _ => rfl,fun _ h => absurd h not_mem_nil,fun _ _ => rfl⟩
  | cons p ps ih =>
    obtain ⟨hp,hps⟩ := List.nodup_cons.mp hnodup
    -- the first part, and then the rest
    have hstep : Books tight (as.dropPart m p) (update H (.part a p) none) E ∧
        Untouched m (as.dropPart m p) (update H (.part a p) none) := by
      have hself := hH p mem_cons_self
      have hback (hp : ∀ i, p ≠ .page i) (f : ℕ) (hf : as.part p = some f) :
          Books tight (m.freePage f) (update H (.part a p) none) E ∧
            Untouched m (m.freePage f) (update H (.part a p) none) :=
        h.giveBack (hself.trans hf) (h.alone _ f (hE p hp) (hself.trans hf))
      have hnone (hno : as.part p = none) : Books tight m (update H (.part a p) none) E ∧
          Untouched m m (update H (.part a p) none) := by
        rw [update_eq_self_iff.mpr (hself.trans hno).symm]
        exact ⟨h,fun _ _ _ => rfl⟩
      cases p with
      | l1 | l2 => exact hback (fun i h => by cases h) _ rfl
      | l3 l =>
        simp only [AddressSpace.dropPart]
        cases hl : as.l2 l with
        | none => exact hnone (by simp [AddressSpace.part,hl])
        | some t => exact hback (fun i h => by cases h) t.pa (by simp [AddressSpace.part,hl])
      | page i =>
        simp only [AddressSpace.dropPart]
        cases hf : (as.entry i).frame with
        | none => exact hnone hf
        | some f => exact h.leave (hself.trans hf)
    have hother (k : Holder) (hk : k ≠ .part a p) : update H (.part a p) none k = H k := update_of_ne hk _ _
    have hne (q : Part) (hq : q ∈ ps) : Holder.part a q ≠ .part a p := fun heq => hp ((Holder.part.inj heq).2 ▸ hq)
    obtain ⟨H',hbooks,huntouched,hgone,hrest⟩ := ih hps hstep.1 fun q hq =>
      (hother _ (hne q hq)).trans (hH q (mem_cons_of_mem _ hq))
    have hp' : H' (.part a p) = none := by
      rw [hrest _ fun q hq => (hne q hq).symm]
      exact update_self _ _ _
    refine ⟨H',hbooks,fun k f hk => ?_,fun q hq => ?_,fun k hk => ?_⟩
    · refine (huntouched k f hk).trans ?_
      by_cases hkq : ∃ q ∈ ps, k = .part a q
      · obtain ⟨q,hq,rfl⟩ := hkq
        rw [hgone q hq] at hk
        cases hk
      · push Not at hkq
        exact hstep.2 k f ((hrest k hkq).symm.trans hk)
    · rcases List.mem_cons.mp hq with rfl | hq
      · exact hp'
      · exact hgone q hq
    · rw [hrest k fun q hq => hk q (mem_cons_of_mem _ hq)]
      exact hother k (hk p mem_cons_self)

lemma Accounted.destroy (mem : Mem) (h : Accounted tight mem.pmem spaces held) (ha : spaces a = some as) :
    Accounted tight (as.destroy mem).2.pmem (update spaces a (as.destroy mem).1) held ∧
      ((as.destroy mem).1 = none ∨ ∃ left, (as.destroy mem).1 = some { as with refcount := left }) ∧
        ∀ x, view (as.destroy mem).2.pmem (update spaces a (as.destroy mem).1) x =
          if x.1 = a ∧ (as.destroy mem).1 = none then none else view mem.pmem spaces x := by
  rcases destroy_cases as mem with ⟨left,heq⟩ | ⟨hgone,hpmem⟩
  · rw [heq]
    obtain ⟨hacc,hview⟩ := h.fields { as with refcount := left } ha ⟨rfl,rfl,rfl⟩
    exact ⟨hacc,.inr ⟨left,rfl⟩,fun x => by rw [if_neg fun h => (by cases h.2)]; exact congrFun hview x⟩
  · rw [hgone,hpmem]
    obtain ⟨H,hbooks,huntouched,hnone,hrest⟩ := h.books.dropParts a as allParts nodup_allParts
      (fun p hp => by
        cases p with
        | page i => exact absurd rfl (hp i)
        | l1 | l2 => trivial
        | l3 l => trivial)
      (fun p _ => by simp [holds,ha])
    have hH : H = holds (update spaces a none) held := by
      funext k
      cases k with
      | kernel pa => exact hrest _ fun _ _ h => (by cases h)
      | part c p =>
        by_cases hc : c = a
        · subst hc
          rw [hnone p (mem_allParts p)]
          simp [holds]
        · rw [hrest _ fun q _ heq => hc (Holder.part.inj heq).1]
          simp [holds,hc]
    rw [hH] at hbooks huntouched
    have hex (k : Holder) (f : ℕ) (hk : Exclusive (update spaces a none) k)
        (hf : holds (update spaces a none) held k = some f) : Exclusive spaces k := by
      cases k with
      | kernel pa => trivial
      | part c p =>
        cases p with
        | l1 | l2 | l3 l => trivial
        | page i =>
          by_cases hc : c = a
          · subst hc
            simp [holds] at hf
          · intro as₁ has₁
            exact hk as₁ ((update_of_ne hc _ _).trans has₁)
    refine ⟨⟨⟨hbooks.shared,fun k f hk hf => hbooks.alone k f (hex k f hk hf) hf,hbooks.good⟩,?_⟩,.inl rfl,fun x => ?_⟩
    · intro c as₁ i hc
      by_cases hca : c = a
      · subst hca
        rw [update_self] at hc
        cases hc
      · rw [update_of_ne hca] at hc
        exact h.flagged c as₁ i hc
    · rw [congrFun (view_congr held huntouched) x]
      unfold view
      by_cases hx : x.1 = a
      · simp [hx]
      · simp [hx]

lemma Accounted.newSpace (h : Accounted tight m spaces held) (as : AddressSpace) (ha : spaces a = none) (h1 : held l1 = true) (h2 : held l2 = true)
    (hne : l2 ≠ l1) (hw1 : ¬ Windowed spaces l1) (hw2 : ¬ Windowed spaces l2) (has : as.l1Pa = l1 ∧ as.l2Pa = l2 ∧ as.l2 = fun _ => none) :
    Accounted tight m (update spaces a (some as)) (update (update held l1 false) l2 false) ∧
      view m (update spaces a (some as)) = view m spaces := by
  have hentry (j : Index) : as.entry j = .zero := entry_of_none (by rw [has.2.2])
  have hback {c : ℕ} {as₁ : AddressSpace} (hc : update spaces a (some as) c = some as₁) :
      (c = a ∧ as₁ = as) ∨ spaces c = some as₁ := by
    by_cases hca : c = a
    · subst hca
      rw [update_self,some.injEq] at hc
      exact .inl ⟨rfl,hc.symm⟩
    · exact .inr ((update_of_ne hca _ _).symm.trans hc)
  refine ⟨⟨?_,?_⟩,?_⟩
  · have hk1 : holds spaces held (.kernel l1) = some l1 := by simp [holds,h1]
    have hk2 : holds spaces held (.kernel l2) = some l2 := by simp [holds,h2]
    have hq1 : holds spaces held (.part a .l1) = none := by simp [holds,ha]
    have hq2 : holds spaces held (.part a .l2) = none := by simp [holds,ha]
    have hpass1 := h.books.pass hk1 hq1 (h.books.alone (.kernel l1) l1 trivial hk1) (X := Exclusive spaces) fun _ _ hx => hx
    have hpass2 := hpass1.pass (k := .kernel l2) (q := .part a .l2) (f := l2) (X := Exclusive (update spaces a (some as)))
      (by simp [hne,hk2]) (by simp [hq2]) (h.books.alone (.kernel l2) l2 trivial hk2) fun k _ hk => by
        cases k with
        | kernel pa => trivial
        | part c p =>
          cases p with
          | l1 | l2 | l3 l => trivial
          | page i =>
            intro as₁ hc
            have hca : c ≠ a := by
              rintro rfl
              cases ha.symm.trans hc
            exact hk as₁ ((update_of_ne hca _ _).trans hc)
    have hH : holds (update spaces a (some as)) (update (update held l1 false) l2 false) =
        update (update (update (update (holds spaces held) (.kernel l1) none)
          (.part a .l1) (some l1)) (.kernel l2) none) (.part a .l2) (some l2) := by
      funext k
      cases k with
      | kernel pa =>
        by_cases hp2 : pa = l2
        · subst hp2
          simp [holds]
        · by_cases hp1 : pa = l1
          · subst hp1
            simp [holds,hp2]
          · simp [holds,hp1,hp2]
      | part c p =>
        by_cases hc : c = a
        · subst hc
          cases p with
          | l1 => simp [holds,AddressSpace.part,has.1]
          | l2 => simp [holds,AddressSpace.part,has.2.1]
          | l3 l => simp [holds,AddressSpace.part,has.2.2,ha]
          | page i => simp [holds,AddressSpace.part,hentry,ha]
        · simp [holds,hc]
    rw [hH]
    exact hpass2
  · intro c as₁ i hc
    rcases hback hc with ⟨rfl,rfl⟩ | hc
    · rw [hentry]
      intro hvalid
      cases hvalid
    · exact Flagged.give (Flagged.give h.flagged hw1) hw2 c as₁ i hc
  · funext x
    unfold view
    by_cases hx : x.1 = a
    · rw [hx,update_self,ha,bind_some,hentry]
      rfl
    · rw [update_of_ne hx]

lemma create_spec (kmallocOk : Bool) (h : Accounted tight m spaces held) (ha : spaces a = none) :
    (∃ m' held', create kmallocOk m = (none,m') ∧ Accounted tight m' spaces held' ∧ view m' spaces = view m spaces ∧
      m'.rc = m.rc ∧ ∀ f, held f = true → held' f = true) ∨
    ∃ as m', create kmallocOk m = (some as,m') ∧ Accounted tight m' (update spaces a (some as)) held ∧
      view m' (update spaces a (some as)) = view m spaces ∧ m'.rc = m.rc ∧ (∀ j, as.entry j = .zero) ∧
        as.vmas = [] ∧ as.refcount = 1 := by
  unfold create
  cases kmallocOk with
  | false => exact .inl ⟨m,held,rfl,h,rfl,rfl,fun _ hf => hf⟩
  | true =>
    rw [Bool.not_true,if_neg Bool.false_ne_true]
    rcases h.alloc with hno | ⟨l1,m₁,halloc₁,hne₁,hnew₁,hw₁,h₁,hview₁,hrc₁,-⟩
    · rw [hno]
      exact .inl ⟨m,held,rfl,h,rfl,rfl,fun _ hf => hf⟩
    rw [halloc₁]
    dsimp only
    rw [if_neg hne₁]
    rcases h₁.alloc with hno | ⟨l2,m₂,halloc₂,hne₂,hnew₂,hw₂,h₂,hview₂,hrc₂,-⟩
    · rw [hno]
      refine .inl ⟨m₁,_,rfl,h₁,hview₁,hrc₁,fun f hf => ?_⟩
      by_cases hfl : f = l1
      · exact hfl ▸ update_self _ _ _
      · exact (update_of_ne hfl _ _).trans hf
    rw [halloc₂]
    dsimp only
    rw [if_neg hne₂]
    have hne : l2 ≠ l1 := by
      rintro rfl
      rw [update_self] at hnew₂
      cases hnew₂
    obtain ⟨hacc,hview⟩ := h₂.newSpace ⟨l1,l2,fun _ => none,0,userHeapBase,[],userMmapBase,[],1⟩ ha
      (by rw [update_of_ne hne.symm,update_self]) (update_self _ _ _) hne hw₁ hw₂ ⟨rfl,rfl,rfl⟩
    have hheld : update (update (update (update held l1 true) l2 true) l1 false) l2 false = held := by
      rw [update_comm hne,update_idem,update_idem]
      rw [update_of_ne hne] at hnew₂
      have hback : update held l1 false = held := update_eq_self_iff.mpr hnew₁.symm
      rw [hback,update_eq_self_iff.mpr hnew₂.symm]
    rw [hheld] at hacc
    exact .inr ⟨_,m₂,rfl,hacc,hview.trans (hview₂.trans hview₁),hrc₂.trans hrc₁,fun _ => rfl,rfl,rfl⟩

end VibeOS.Memory

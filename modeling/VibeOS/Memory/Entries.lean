import VibeOS.Memory.Accounts

/-! What the accounts and the processes see when an entry of a page table changes. -/
namespace VibeOS.Memory
open Function Option
open VibeOS.Storage

variable {tight : Prop} {m m' : Pmem} {spaces spaces' : Spaces} {held : ℕ → Bool} {as as' src dst : AddressSpace} {a b f pa : ℕ}
  {i : Index} {d e : Desc} {q : Holder}

lemma setEntry_exclusive (ha : spaces a = some as) (ht : as.l2 i.1 ≠ none) (hq : q ≠ .part a (.page i))
    (h : Exclusive (update spaces a (some (as.setEntry i d))) q) : Exclusive spaces q := by
  cases q with
  | kernel pa => trivial
  | part c p =>
    cases p with
    | l1 | l2 | l3 l => trivial
    | page j =>
      intro as₁ hc
      by_cases hca : c = a
      · subst hca
        have hj : j ≠ i := fun heq => hq (heq ▸ rfl)
        have hw := h (as.setEntry i d) (update_self _ _ _)
        rw [entry_setEntry ht,if_neg hj] at hw
        exact some.inj (ha.symm.trans hc) ▸ hw
      · exact h as₁ ((update_of_ne hca _ _).trans hc)

lemma setEntry_cases (ha : spaces a = some as) (ht : as.l2 i.1 ≠ none) {c : ℕ} {j : Index}
    (hc : update spaces a (some (as.setEntry i d)) c = some as') :
    as'.entry j = d ∨ ∃ as₁, spaces c = some as₁ ∧ as'.entry j = as₁.entry j := by
  by_cases hca : c = a
  · subst hca
    rw [update_self,some.injEq] at hc
    subst hc
    rw [entry_setEntry ht]
    split
    · exact .inl rfl
    · exact .inr ⟨as,ha,rfl⟩
  · rw [update_of_ne hca] at hc
    exact .inr ⟨as',hc,rfl⟩

lemma setEntry_flagged (ha : spaces a = some as) (ht : as.l2 i.1 ≠ none) (h : Flagged spaces held)
    (hd : d.valid = true → d.frame = none → d.cow = false ∧ (d.writable = true → held d.pa = true)) :
    Flagged (update spaces a (some (as.setEntry i d))) held := by
  intro c as' j hc
  rcases setEntry_cases ha ht (j := j) hc with heq | ⟨as₁,hc₁,heq⟩
  · rw [heq]
    exact hd
  · rw [heq]
    exact h c as₁ j hc₁

lemma view_setEntry (ha : spaces a = some as) (ht : as.l2 i.1 ≠ none) :
    view m (update spaces a (some (as.setEntry i d))) = update (view m spaces) (a,i) (d.cell m) := by
  funext x
  by_cases hx : x = (a,i)
  · subst hx
    simp [view,entry_setEntry ht]
  · rw [update_of_ne hx]
    unfold view
    by_cases hxa : x.1 = a
    · have hxi : x.2 ≠ i := fun heq => hx (Prod.ext hxa heq)
      rw [hxa,update_self,ha,bind_some,bind_some,entry_setEntry ht,if_neg hxi]
    · rw [update_of_ne hxa]

lemma holds_page (held : ℕ → Bool) (ha : spaces a = some as) (i : Index) : holds spaces held (.part a (.page i)) = (as.entry i).frame := by
  simp [holds,ha,AddressSpace.part]

lemma table_of_frame (hf : (as.entry i).frame = some f) : as.l2 i.1 ≠ none := by
  intro hnone
  rw [entry_of_none hnone] at hf
  cases hf

lemma Accounted.fields (h : Accounted tight m spaces held) (as' : AddressSpace) (ha : spaces a = some as)
    (hsame : as'.l1Pa = as.l1Pa ∧ as'.l2Pa = as.l2Pa ∧ as'.l2 = as.l2) :
    Accounted tight m (update spaces a (some as')) held ∧ view m (update spaces a (some as')) = view m spaces := by
  have hentry (j : Index) : as'.entry j = as.entry j := by
    unfold AddressSpace.entry AddressSpace.entryLookup
    rw [hsame.2.2]
  have hentries := SameEntries.update ha hentry
  have hholds : holds (update spaces a (some as')) held = holds spaces held := by
    rw [holds_part ha (p := .l1) (o := some as.l1Pa) (congrArg some hsame.1),update_eq_self_iff.mpr]
    · simp [holds,ha,AddressSpace.part]
    · intro p hp
      cases p with
      | l1 => exact absurd rfl hp
      | l2 => exact congrArg some hsame.2.1
      | l3 l => exact congrArg (fun t => (t l).map L3Table.pa) hsame.2.2
      | page j => exact congrArg Desc.frame (hentry j)
  refine ⟨⟨?_,hentries.flagged h.flagged⟩,hentries.view⟩
  rw [hholds]
  exact ⟨h.books.shared,fun k f hk => h.books.alone k f (hentries.exclusive hk),h.books.good⟩

lemma Books.pass {H : Holder → Option ℕ} {E X : Holder → Prop} {k q : Holder} (h : Books tight m H E) (hk : H k = some f)
    (hq : H q = none) (hrc : m.rc f = 0) (hex : ∀ x, x ≠ q → X x → E x) :
    Books tight m (update (update H k none) q (some f)) X := by
  refine ⟨h.shared.pass hk hq,fun x g hx hg => ?_,fun g hg => h.good g ?_⟩
  · by_cases hxq : x = q
    · subst hxq
      rw [update_self] at hg
      exact some.inj hg ▸ hrc
    · rw [update_of_ne hxq] at hg
      by_cases hxk : x = k
      · subst hxk
        rw [update_self] at hg
        cases hg
      · rw [update_of_ne hxk] at hg
        exact h.alone x g (hex x hxq hx) hg
  · rcases hg with hg | ⟨x,hg⟩
    · exact .inl hg
    · by_cases hxq : x = q
      · subst hxq
        rw [update_self] at hg
        exact .inr ⟨k,hk.trans hg⟩
      · rw [update_of_ne hxq] at hg
        by_cases hxk : x = k
        · subst hxk
          rw [update_self] at hg
          cases hg
        · rw [update_of_ne hxk] at hg
          exact .inr ⟨x,hg⟩

/-- A frame that the kernel has in hand is mapped. A page that was there is lost, and the counts are
no longer tight when it was shared. -/
lemma Accounted.place (h : Accounted tight m spaces held) (ha : spaces a = some as) (ht : as.l2 i.1 ≠ none)
    (hheld : held pa = true) (hw : ¬ Windowed spaces pa) (hold : tight → ∀ f, (as.entry i).frame = some f → m.rc f ≤ 1)
    (hd : d.frame = some pa) : Accounted tight m (update spaces a (some (as.setEntry i d))) (update held pa false) ∧
      view m (update spaces a (some (as.setEntry i d))) = update (view m spaces) (a,i) (d.cell m) := by
  refine ⟨⟨?_,?_⟩,view_setEntry ha ht⟩
  · have hk : holds spaces held (.kernel pa) = some pa := by simp [holds,hheld]
    have hrc := h.books.alone (.kernel pa) pa trivial hk
    have hlost : Books tight m (update (holds spaces held) (.part a (.page i)) none) (Exclusive spaces) :=
      h.books.change none (h.books.shared.lose fun ht f hf => hold ht f (holds_page held ha i ▸ hf)) (fun _ _ hq => hq)
        (fun _ _ _ _ _ h0 => h0) (by simp) ⟨rfl,rfl⟩ (fun f hf => .inl hf) (by simp)
    have hne : Holder.part a (.page i) ≠ .kernel pa := fun h => by cases h
    have hpass := hlost.pass (k := .kernel pa) (q := .part a (.page i)) ((update_of_ne hne.symm _ _).trans hk)
      (update_self _ _ _) hrc (X := Exclusive (update spaces a (some (as.setEntry i d))))
      fun x hx hex => setEntry_exclusive ha ht hx hex
    rw [holds_kernel,holds_setEntry held ha ht,hd,if_neg Bool.false_ne_true]
    rwa [update_comm hne,update_idem,update_comm hne.symm] at hpass
  · exact setEntry_flagged ha ht (Flagged.give h.flagged hw) fun _ hnone => (by cases hd.symm.trans hnone)

lemma Accounted.clear (h : Accounted tight m spaces held) (ha : spaces a = some as) (hf : (as.entry i).frame = some f) :
    Accounted tight (m.decAndFree f) (update spaces a (some (as.setEntry i .zero))) held ∧
      view (m.decAndFree f) (update spaces a (some (as.setEntry i .zero))) =
        update (view m spaces) (a,i) none := by
  have ht := table_of_frame hf
  obtain ⟨hbooks,huntouched⟩ := h.books.leave ((holds_page held ha i).trans hf)
  rw [← frame_zero,← holds_setEntry held ha ht] at hbooks huntouched
  refine ⟨⟨⟨hbooks.shared,fun k g hk hg => hbooks.alone k g ?_ hg,hbooks.good⟩,?_⟩,?_⟩
  · by_cases hkp : k = .part a (.page i)
    · subst hkp
      rw [holds_setEntry held ha ht,update_self] at hg
      cases hg
    · exact setEntry_exclusive ha ht hkp hk
  · exact setEntry_flagged ha ht h.flagged nofun
  · rw [view_congr _ huntouched,view_setEntry ha ht]
    rfl

lemma Accounted.upgrade (h : Accounted tight m spaces held) (m' : Pmem) (ha : spaces a = some as) (hf : (as.entry i).frame = some f)
    (hone : m.rc f ≤ 1) (hd : d.frame = some f) (hrc : m'.rc = update m.rc f 0)
    (hsame : m'.free = m.free ∧ m'.bytes = m.bytes ∧ m'.rcBase = m.rcBase ∧ m'.rcPages = m.rcPages) :
    Accounted tight m' (update spaces a (some (as.setEntry i d))) held ∧
      view m' (update spaces a (some (as.setEntry i d))) = update (view m spaces) (a,i) (d.cell m) := by
  have ht := table_of_frame hf
  have hk := (holds_page held ha i).trans hf
  have hholds := holds_setEntry (d := d) held ha ht
  have hself : update (holds spaces held) (.part a (.page i)) (some f) = holds spaces held :=
    update_eq_self_iff.mpr hk.symm
  refine ⟨⟨?_,?_⟩,?_⟩
  · rw [hholds,hd]
    refine h.books.change (some f) ?_ (fun x hx hex => setEntry_exclusive ha ht hx hex) (fun q g _ _ _ h0 => ?_)
      (fun g hg _ => ?_) hsame.2.2 (fun g hg => .inl (hsame.1 ▸ hg)) fun g hg => some.inj hg ▸ h.books.good f (.inr ⟨_,hk⟩)
    · rw [hself,hsame.1,hrc]
      exact h.books.shared.settle hone
    · rw [hrc]
      by_cases hgf : g = f
      · exact hgf ▸ update_self _ _ _
      · exact (update_of_ne hgf _ _).trans h0
    · rw [hrc,← some.inj hg]
      exact update_self _ _ _
  · exact setEntry_flagged ha ht h.flagged fun _ hnone => (by cases hd.symm.trans hnone)
  · exact (view_congr held fun k g _ => congrFun hsame.2.1 g).trans (view_setEntry ha ht)

lemma Accounted.demote (h : Accounted tight m spaces held) (ha : spaces a = some as) (hf : (as.entry i).frame = some f)
    (hd : d.frame = some f) (hw : d.writable = false) :
    Accounted tight m (update spaces a (some (as.setEntry i d))) held ∧
      view m (update spaces a (some (as.setEntry i d))) = update (view m spaces) (a,i) (d.cell m) := by
  have ht := table_of_frame hf
  have hk := (holds_page held ha i).trans hf
  refine ⟨⟨?_,?_⟩,view_setEntry ha ht⟩
  · rw [holds_setEntry held ha ht,hd,update_eq_self_iff.mpr hk.symm]
    refine ⟨h.books.shared,fun k g hex hg => h.books.alone k g ?_ hg,h.books.good⟩
    by_cases hkp : k = .part a (.page i)
    · subst hkp
      have hwritable := hex (as.setEntry i d) (update_self _ _ _)
      rw [entry_setEntry ht,if_pos rfl,hw] at hwritable
      cases hwritable
    · exact setEntry_exclusive ha ht hkp hex
  · exact setEntry_flagged ha ht h.flagged fun _ hnone => (by cases hd.symm.trans hnone)

lemma Accounted.share (h : Accounted tight m spaces held) (ha : spaces a = some src) (hb : spaces b = some dst)
    (hf : (src.entry i).frame = some f) (hro : (src.entry i).writable = false) (hnone : (dst.entry i).frame = none)
    (ht : dst.l2 i.1 ≠ none) (hd : d.frame = some f) (hw : d.writable = false) (hroom : m.rc f + 1 < 2^16) :
    Accounted tight (m.refcountShare f) (update spaces b (some (dst.setEntry i d))) held ∧
      view (m.refcountShare f) (update spaces b (some (dst.setEntry i d))) =
        update (view m spaces) (b,i) (d.cell m) := by
  have hk := (holds_page held ha i).trans hf
  have hgood := h.books.good f (.inr ⟨_,hk⟩)
  have hshare : m.refcountShare f = { m with rc := update m.rc f (if m.rc f = 0 then 2 else m.rc f + 1) } := by
    unfold Pmem.refcountShare
    rw [Books.refcountSet_good hgood,Nat.mod_eq_of_lt hroom]
  rw [hshare]
  refine ⟨⟨?_,?_⟩,?_⟩
  · rw [holds_setEntry held hb ht,hd]
    refine h.books.change (some f) (h.books.shared.share hk ((holds_page held hb i).trans hnone))
      (fun x hx hex => setEntry_exclusive hb ht hx hex) (fun q g _ hq hg h0 => ?_) (fun g _ hex => ?_) ⟨rfl,rfl⟩
      (fun g hg => .inl hg) fun g hg => some.inj hg ▸ hgood
    · -- a holder that does not share has another frame
      have hgf : g ≠ f := by
        rintro rfl
        have hqa := h.books.shared.sole (by omega) hk hg
        subst hqa
        rw [hq src ha] at hro
        cases hro
      exact (update_of_ne hgf _ _).trans h0
    · have hwritable := hex (dst.setEntry i d) (update_self _ _ _)
      rw [entry_setEntry ht,if_pos rfl,hw] at hwritable
      cases hwritable
  · exact setEntry_flagged hb ht h.flagged fun _ hno => absurd (hd.symm.trans hno) nofun
  · exact (view_congr held fun _ _ _ => rfl).trans (view_setEntry hb ht)

end VibeOS.Memory

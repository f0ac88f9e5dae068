import VibeOS.Memory.Break
import VibeOS.Memory.Ranges
import VibeOS.Memory.SpaceCalls

/-! What the loops that install, uninstall and unmap do to the entries of an address space, and to
its tables. -/
namespace VibeOS.Memory
open Option

/-- The place is that of one of the `n` pages from `va` on. -/
def PageOf (va n : ℕ) (j : Index) : Prop := ∃ t < n, j = indexOf (va + t*pageSize)

def TablesStay (as as' : AddressSpace) : Prop :=
  ∀ k t, as.l2 k = some t → (as'.l2 k).map L3Table.pa = some t.pa

def OnlyTables (as as' : AddressSpace) : Prop :=
  as' = { as with l2 := as'.l2, userPagesAlloced := as'.userPagesAlloced }

section Pages
variable {as as' : AddressSpace} {m m' : Pmem} {va n x : ℕ} {j : Index} {d : Desc} {l : Fin 512}

lemma pageOf_succ : PageOf va (n+1) j ↔ j = indexOf va ∨ PageOf (va + pageSize) n j := by
  have hnext (t : ℕ) : va + pageSize + t*pageSize = va + (t+1)*pageSize := by rw [Nat.succ_mul]; omega
  constructor
  · rintro ⟨t,ht,rfl⟩
    cases t with
    | zero => exact .inl (by rw [Nat.zero_mul,Nat.add_zero])
    | succ t => exact .inr ⟨t,by omega,by rw [hnext]⟩
  · rintro (rfl | ⟨t,ht,rfl⟩)
    · exact ⟨0,Nat.succ_pos n,by rw [Nat.zero_mul,Nat.add_zero]⟩
    · exact ⟨t+1,by omega,by rw [hnext]⟩

lemma not_pageOf_zero : ¬ PageOf va 0 j := fun ⟨t,ht,_⟩ => Nat.not_lt_zero t ht

lemma pageOf_iff (hva : va % pageSize = 0) (hlo : userMmapBase ≤ va) (hhi : va + n*pageSize ≤ userMmapMax)
    (hx : userMmapBase ≤ x ∧ x < userMmapMax) : PageOf va n (indexOf x) ↔ (⟨va,n⟩ : WmVaRange).covers x = true := by
  rw [covers_iff]
  dsimp only
  constructor
  · rintro ⟨t,ht,he⟩
    have htn : t*pageSize + pageSize ≤ n*pageSize := by rw [← Nat.succ_mul]; exact Nat.mul_le_mul_right _ ht
    have hpage := indexOf_inj (by unfold userMmapBase userMmapMax userVaBase userVaEnd at *; omega)
      (by unfold userMmapBase userMmapMax userVaBase userVaEnd pageSize at *; omega) he
    unfold pageSize at *
    omega
  · rintro ⟨hle,hlt⟩
    refine ⟨(x - va)/pageSize,?_,?_⟩
    · unfold pageSize at *
      omega
    · have hpage : (va + (x - va)/pageSize*pageSize)/pageSize = x/pageSize := by
        unfold pageSize at *
        omega
      unfold indexOf
      unfold pageSize at *
      congr 2 <;> omega

lemma TablesStay.refl (as : AddressSpace) : TablesStay as as := fun k t h => by rw [h]; rfl

lemma TablesStay.trans {as₁ as₂ as₃ : AddressSpace} (h : TablesStay as₁ as₂) (h' : TablesStay as₂ as₃) :
    TablesStay as₁ as₃ := by
  intro k t ht
  obtain ⟨t',ht',hpa⟩ := Option.map_eq_some_iff.mp (h k t ht)
  exact hpa ▸ h' k t' ht'

lemma tablesStay_setEntry (as : AddressSpace) (i : Index) (d : Desc) : TablesStay as (as.setEntry i d) := by
  intro k t ht
  rw [l3_setEntry,ht]
  rfl

lemma l3For_stays (h : as.l3For l m = some (as',m')) :
    as'.l2 l ≠ none ∧ (∀ j, as'.entry j = as.entry j) ∧ TablesStay as as' ∧ OnlyTables as as' := by
  unfold AddressSpace.l3For at h
  cases hl : as.l2 l with
  | some t =>
    rw [hl] at h
    obtain ⟨rfl,-⟩ := Prod.mk.inj (some.inj h)
    exact ⟨by rw [hl]; exact some_ne_none t,fun _ => rfl,.refl as,rfl⟩
  | none =>
    rw [hl] at h
    dsimp only at h
    split at h
    · cases h
    · obtain ⟨rfl,-⟩ := Prod.mk.inj (some.inj h)
      refine ⟨by simp,fun j => entry_newTable hl _ j,fun k t ht => ?_,rfl⟩
      have hne : k ≠ l := by
        rintro rfl
        rw [hl] at ht
        cases ht
      dsimp only
      rw [Function.update_of_ne hne,ht]
      rfl

lemma tables_of_entries (hstay : TablesStay as as') (hentry : ∀ j, as'.entry j = as.entry j) (k : Fin 512) :
    as'.l2 k = as.l2 k ∨ (as.l2 k = none ∧ ∃ pa, as'.l2 k = some ⟨pa,fun _ => .zero⟩) := by
  cases hk : as.l2 k with
  | none =>
    cases hk' : as'.l2 k with
    | none => exact .inl rfl
    | some t' =>
      refine .inr ⟨rfl,t'.pa,?_⟩
      have hzero (y : Fin 512) : t'.entries y = .zero := by
        rw [← entry_of_table (i := (k,y)) hk',hentry,entry_of_none hk]
      rw [← funext hzero]
  | some t =>
    obtain ⟨t',ht',hpa⟩ := Option.map_eq_some_iff.mp (hstay k t hk)
    have hsame (y : Fin 512) : t'.entries y = t.entries y := by
      rw [← entry_of_table (i := (k,y)) ht',hentry,entry_of_table hk]
    obtain ⟨pa,entries⟩ := t
    obtain ⟨pa',entries'⟩ := t'
    obtain rfl : entries' = entries := funext hsame
    obtain rfl : pa' = pa := hpa
    exact .inl ht'

lemma installLoop_spec {pas : List ℕ} {i k : ℕ} {ok : Bool}
    (h : AddressSpace.installLoop pas i va as m = (ok,k,as',m')) :
    ∃ n, k = i + n ∧ n ≤ pas.length ∧ (ok = true → n = pas.length) ∧ OnlyTables as as' ∧ TablesStay as as' ∧
      (∀ j, ¬ PageOf va n j → as'.entry j = as.entry j) ∧
      ∀ j, PageOf va n j → (as'.entry j).valid = true ∧ (as'.entry j).wmWindow = true := by
  induction pas generalizing i va as m with
  | nil =>
    obtain ⟨rfl,rfl,rfl,-⟩ : true = ok ∧ i = k ∧ as = as' ∧ m = m' := by simpa [AddressSpace.installLoop] using h
    exact ⟨0,rfl,le_rfl,fun _ => rfl,rfl,.refl as,fun _ _ => rfl,fun j hj => absurd hj not_pageOf_zero⟩
  | cons pa pas ih =>
    have hstop : (false,i,as,m) = (ok,k,as',m') → ∃ n, k = i + n ∧ n ≤ (pa :: pas).length ∧
        (ok = true → n = (pa :: pas).length) ∧ OnlyTables as as' ∧ TablesStay as as' ∧
        (∀ j, ¬ PageOf va n j → as'.entry j = as.entry j) ∧
        ∀ j, PageOf va n j → (as'.entry j).valid = true ∧ (as'.entry j).wmWindow = true := by
      intro he
      simp only [Prod.mk.injEq] at he
      obtain ⟨rfl,rfl,rfl,-⟩ := he
      exact ⟨0,rfl,Nat.zero_le _,fun h => absurd h (by decide),rfl,.refl as,fun _ _ => rfl,
        fun j hj => absurd hj not_pageOf_zero⟩
    rw [AddressSpace.installLoop] at h
    split at h
    · exact hstop h
    split at h
    · exact hstop h
    · next as₁ m₁ hl3 =>
      obtain ⟨htab,hentry,hstay,honly⟩ := l3For_stays hl3
      obtain ⟨n,rfl,hn,hok,honly',hstay',hout,hin⟩ := ih h
      have hset (j : Index) : ((as₁.setEntry (indexOf va) (AddressSpace.windowDesc pa)).onePageMore).entry j =
          if j = indexOf va then AddressSpace.windowDesc pa else as₁.entry j := entry_setEntry htab j
      refine ⟨n+1,by omega,Nat.succ_le_succ hn,fun h => congrArg (· + 1) (hok h),?_,?_,fun j hj => ?_,fun j hj => ?_⟩
      · unfold OnlyTables at *
        rw [honly']
        unfold AddressSpace.onePageMore AddressSpace.setEntry
        rw [honly]
      · exact hstay.trans ((tablesStay_setEntry as₁ _ _).trans hstay')
      · rw [pageOf_succ,not_or] at hj
        rw [hout j hj.2,hset,if_neg hj.1,hentry]
      · by_cases hjn : PageOf (va + pageSize) n j
        · exact hin j hjn
        · have hself := (pageOf_succ.mp hj).resolve_right hjn
          rw [hout j hjn,hset,if_pos hself]
          exact ⟨rfl,rfl⟩

lemma unmapWindow_spec (n va : ℕ) (as : AddressSpace) : OnlyTables as (AddressSpace.unmapWindow n va as) ∧
    TablesStay as (AddressSpace.unmapWindow n va as) ∧
    (∀ j, ¬ PageOf va n j → (AddressSpace.unmapWindow n va as).entry j = as.entry j) ∧
    ∀ j, PageOf va n j → (AddressSpace.unmapWindow n va as).entry j = .zero := by
  induction n generalizing va as with
  | zero => exact ⟨rfl,.refl as,fun _ _ => rfl,fun j hj => absurd hj not_pageOf_zero⟩
  | succ n ih =>
    rw [AddressSpace.unmapWindow]
    set as₁ := (if (as.entryLookup (indexOf va)).isSome then as.setEntry (indexOf va) .zero else as).onePageLess with has₁
    have hentry (j : Index) : as₁.entry j = if j = indexOf va then .zero else as.entry j := by
      rw [has₁]
      cases hl : as.l2 (indexOf va).1 with
      | none =>
        have hlook : as.entryLookup (indexOf va) = none := by unfold AddressSpace.entryLookup; rw [hl]; rfl
        rw [hlook]
        by_cases hj : j = indexOf va
        · rw [if_pos hj,hj]
          exact entry_of_none hl
        · rw [if_neg hj]
          rfl
      | some t =>
        have hlook : (as.entryLookup (indexOf va)).isSome = true := by unfold AddressSpace.entryLookup; rw [hl]; rfl
        rw [hlook]
        exact entry_setEntry (by rw [hl]; exact some_ne_none t) j
    have honly : OnlyTables as as₁ := by
      rw [has₁]
      split <;> rfl
    have hstay : TablesStay as as₁ := by
      rw [has₁]
      split
      · exact tablesStay_setEntry as _ _
      · exact .refl as
    obtain ⟨honly',hstay',hout,hin⟩ := ih (va + pageSize) as₁
    refine ⟨?_,hstay.trans hstay',fun j hj => ?_,fun j hj => ?_⟩
    · unfold OnlyTables at *
      rw [honly',honly]
    · rw [pageOf_succ,not_or] at hj
      rw [hout j hj.2,hentry,if_neg hj.1]
    · by_cases hjn : PageOf (va + pageSize) n j
      · exact hin j hjn
      · rw [hout j hjn,hentry,if_pos ((pageOf_succ.mp hj).resolve_right hjn)]

lemma munmapLoop_spec (n va : ℕ) (as : AddressSpace) (mem : Mem) : OnlyTables as (AddressSpace.unmapLoop n va as mem).1 ∧
    ∀ j, (AddressSpace.unmapLoop n va as mem).1.entry j = as.entry j ∨
      (AddressSpace.unmapLoop n va as mem).1.entry j = .zero := by
  induction n generalizing va as mem with
  | zero => exact ⟨rfl,fun _ => .inl rfl⟩
  | succ n ih =>
    unfold AddressSpace.unmapLoop
    cases hlook : as.entryLookup (indexOf va) with
    | none => exact ih _ as mem
    | some e =>
      dsimp only
      split
      · exact ih _ as mem
      · have htab : as.l2 (indexOf va).1 ≠ none := by
          intro hl
          unfold AddressSpace.entryLookup at hlook
          rw [hl] at hlook
          cases hlook
        have hset (j : Index) : (as.setEntry (indexOf va) .zero).onePageLess.entry j =
            if j = indexOf va then .zero else as.entry j := entry_setEntry htab j
        obtain ⟨honly,hout⟩ := ih (va + pageSize) (as.setEntry (indexOf va) .zero).onePageLess
          (if e.pagecache then { mem with cache := mem.cache.release e.pa } else { mem with pmem := mem.pmem.decAndFree e.pa })
        refine ⟨?_,fun j => ?_⟩
        · unfold OnlyTables at *
          rw [honly]
          rfl
        · rcases hout j with h | h
          · rw [h,hset]
            split
            · exact .inr rfl
            · exact .inl rfl
          · exact .inr h

end Pages
end VibeOS.Memory

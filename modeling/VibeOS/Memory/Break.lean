import VibeOS.Memory.Accounts
import VibeOS.Runs

/-! The program break: `sys_sbrk` over `address_space_set_brk`, call after call, while other
programs take frames and give them back. -/
namespace VibeOS.Memory
open Function List Option

def AddressSpace.IsTable (as : AddressSpace) (pa : ℕ) : Prop := ∃ l, (as.l2 l).map L3Table.pa = some pa

lemma indexOf_inj {a b : ℕ} (ha : userVaBase ≤ a ∧ a < userVaEnd) (hb : userVaBase ≤ b ∧ b < userVaEnd)
    (h : indexOf a = indexOf b) : a/pageSize = b/pageSize := by
  have h1 := congrArg (fun i : Index => i.1.val) h
  have h2 := congrArg (fun i : Index => i.2.val) h
  unfold userVaBase userVaEnd at ha hb
  simp only [indexOf,Fin.ofNat] at h1 h2
  unfold pageSize
  omega

/-- A frame that goes back to the free ones when its last page goes. -/
def Pmem.Usable (m : Pmem) (pa : ℕ) : Prop := pa ≠ 0 ∧ pa % pageSize = 0 ∧ m.refcountGet pa < 2

instance (m : Pmem) (pa : ℕ) : Decidable (m.Usable pa) := inferInstanceAs (Decidable (_ ∧ _ ∧ _))

section Frames
variable {m : Pmem} {p q : ℕ}

lemma refcountGet_set_le (m : Pmem) (q v : ℕ) (hv : v ≤ m.refcountGet q) (p : ℕ) :
    (m.refcountSet q v).refcountGet p ≤ m.refcountGet p := by
  unfold Pmem.refcountSet
  split
  next hq =>
    by_cases hpq : p = q
    · subst hpq
      unfold Pmem.refcountGet at hv ⊢
      rw [if_pos hq] at hv ⊢
      change (if m.paInRange p then update m.rc p v p else 0) ≤ _
      rw [if_pos hq,update_self]
      exact hv
    · have hrc : update m.rc q v p = m.rc p := update_of_ne hpq _ _
      change (if m.paInRange p then update m.rc q v p else 0) ≤ _
      rw [hrc]
      exact le_rfl
  next => exact le_rfl

lemma refcountGet_freePage (m : Pmem) (q p : ℕ) : (m.freePage q).refcountGet p = m.refcountGet p := by
  unfold Pmem.freePage
  split <;> rfl

lemma decAndFree_spec (m : Pmem) (q : ℕ) : (∀ p, (m.decAndFree q).refcountGet p ≤ m.refcountGet p) ∧
    (∀ p ∈ m.free, p ∈ (m.decAndFree q).free) ∧ (m.Usable q → q ∈ (m.decAndFree q).free) ∧
    ∀ p ∈ (m.decAndFree q).free, p ∈ m.free ∨ m.Usable p := by
  unfold Pmem.decAndFree
  by_cases hq : q = 0
  · rw [if_pos hq]
    exact ⟨fun _ => le_rfl,fun _ h => h,fun h => absurd hq h.1,fun _ h => .inl h⟩
  rw [if_neg hq]
  by_cases hshared : m.refcountGet q ≥ 2
  · rw [if_pos hshared]
    have hfree : (m.refcountDec q).free = m.free := by
      unfold Pmem.refcountDec Pmem.refcountSet
      split_ifs <;> rfl
    refine ⟨fun p => ?_,fun _ h => hfree ▸ h,fun h => absurd h.2.2 (by omega),fun _ h => .inl (hfree ▸ h)⟩
    unfold Pmem.refcountDec
    split
    next => exact le_rfl
    next =>
      refine refcountGet_set_le m q _ ?_ p
      unfold Pmem.refcountGet at hshared ⊢
      split at hshared
      next h => rw [if_pos h]; exact Nat.sub_le _ _
      next => omega
  · rw [if_neg hshared]
    have hset : (if m.refcountGet q = 1 then m.refcountSet q 0 else m).free = m.free := by
      unfold Pmem.refcountSet
      split_ifs <;> rfl
    have hle (p : ℕ) : (if m.refcountGet q = 1 then m.refcountSet q 0 else m).refcountGet p ≤ m.refcountGet p := by
      split
      next => exact refcountGet_set_le m q 0 (Nat.zero_le _) p
      next => exact le_rfl
    generalize (if m.refcountGet q = 1 then m.refcountSet q 0 else m) = m' at hset hle
    refine ⟨fun p => (refcountGet_freePage m' q p).trans_le (hle p),fun p hp => ?_,fun h => ?_,fun p hp => ?_⟩
    · unfold Pmem.freePage
      split
      next => exact hset ▸ hp
      next => exact mem_cons_of_mem _ (hset ▸ hp)
    · rw [Pmem.freePage,if_neg (not_or.mpr ⟨hq,not_not.mpr h.2.1⟩)]
      exact mem_cons_self
    · unfold Pmem.freePage at hp
      split at hp
      next => exact .inl (hset ▸ hp)
      next hgood =>
        rcases List.mem_cons.mp hp with rfl | hp
        · rw [not_or,not_not] at hgood
          exact .inr ⟨hq,hgood.2,by omega⟩
        · exact .inl (hset ▸ hp)

lemma Pmem.Usable.of_le {m' : Pmem} (h : m.Usable p) (hle : m'.refcountGet p ≤ m.refcountGet p) : m'.Usable p :=
  ⟨h.1,h.2.1,hle.trans_lt h.2.2⟩

end Frames

/-- The frames that `n` more pages from `va` on take: one for each, and one for each table that is
missing. -/
def framesFor (missing : Fin 512 → Bool) : ℕ → ℕ → ℕ
  | 0, _ => 0
  | n + 1, va => (if missing (indexOf va).1 then 2 else 1) +
      framesFor (update missing (indexOf va).1 false) n (va + pageSize)

def AddressSpace.missing (as : AddressSpace) (l : Fin 512) : Bool := (as.l2 l).isNone

/-- What growing by `n` pages from `va` on does with as many frames as it needs. -/
structure Grew (n va : ℕ) (as : AddressSpace) (m : Pmem) (as' : AddressSpace) (m' : Pmem) : Prop where
  brk : as'.heapBrk = as.heapBrk
  other : ∀ j, (∀ k < n, j ≠ indexOf (va + k*pageSize)) → as'.entry j = as.entry j
  valid : ∀ k < n, (as'.entry (indexOf (va + k*pageSize))).valid = true
  tables : ∀ pa, as.IsTable pa → as'.IsTable pa
  taken : ∃ taken, m.free = taken ++ m'.free ∧ ∀ pa ∈ taken,
    (∃ k < n, as'.entry (indexOf (va + k*pageSize)) = .page pa true false) ∨ as'.IsTable pa
  counts : m'.refcountGet = m.refcountGet

section Growing
variable {as : AddressSpace} {m : Pmem} {va : ℕ}

lemma map_page (as : AddressSpace) (m : Pmem) {pa : ℕ} (hva : va % pageSize = 0) (hlo : userVaBase ≤ va) (hhi : va + pageSize ≤ userVaEnd)
    (hpa : pa % pageSize = 0) (hfree : ∀ p ∈ m.free, p ≠ 0)
    (hroom : as.missing (indexOf va).1 = true → 0 < m.free.length) :
    ∃ as' m', as.map va pa 1 true false m = (true,as',m') ∧ as'.heapBrk = as.heapBrk ∧
      (∀ j, as'.entry j = if j = indexOf va then .page pa true false else as.entry j) ∧
      as'.missing = update as.missing (indexOf va).1 false ∧
      (∀ q, as.IsTable q → as'.IsTable q) ∧ m'.refcountGet = m.refcountGet ∧
      ∃ taken, m.free = taken ++ m'.free ∧ (∀ q ∈ taken, as'.IsTable q) ∧
        taken.length = if as.missing (indexOf va).1 then 1 else 0 := by
  have hguard : ¬ (1 = 0 ∨ va % pageSize ≠ 0 ∨ pa % pageSize ≠ 0 ∨ va < userVaBase ∨
      (va + 1*pageSize) % 2^64 > userVaEnd) := by
    unfold userVaBase userVaEnd pageSize at *
    omega
  rw [AddressSpace.map,if_neg hguard,AddressSpace.mapLoop,AddressSpace.l3For]
  have hmore (as₁ : AddressSpace) (l : Fin 512) (hl : as₁.missing l = false) (e : Desc) (k : Index) (hk : k.1 = l) :
      (as₁.setEntry k e).onePageMore.missing = as₁.missing := by
    funext x
    change ((as₁.setEntry k e).l2 x).isNone = (as₁.l2 x).isNone
    have ht : (as₁.setEntry k e).l2 x = none ↔ as₁.l2 x = none := table_setEntry x
    rw [Bool.eq_iff_iff,isNone_iff_eq_none,isNone_iff_eq_none,ht]
  have htable (as₁ : AddressSpace) (e : Desc) (k : Index) (q : ℕ) (h : as₁.IsTable q) :
      (as₁.setEntry k e).onePageMore.IsTable q := by
    obtain ⟨l,hl⟩ := h
    have hkeep : ((as₁.setEntry k e).l2 l).map L3Table.pa = (as₁.l2 l).map L3Table.pa := l3_setEntry l
    exact ⟨l,hkeep.trans hl⟩
  cases hl : as.l2 (indexOf va).1 with
  | some t =>
    have hmiss : as.missing (indexOf va).1 = false := by
      unfold AddressSpace.missing
      rw [hl]
      rfl
    refine ⟨_,m,rfl,rfl,fun j => entry_setEntry (by rw [hl]; exact some_ne_none t) j,?_,
      fun q hq => htable as _ _ q hq,rfl,[],rfl,fun q hq => absurd hq not_mem_nil,by rw [hmiss]; rfl⟩
    rw [hmore as _ hmiss _ _ rfl,← hmiss,update_eq_self]
  | none =>
    have hmiss : as.missing (indexOf va).1 = true := by
      unfold AddressSpace.missing
      rw [hl]
      rfl
    cases hf : m.free with
    | nil => exact absurd (hroom hmiss) (by rw [hf]; exact lt_irrefl _)
    | cons f rest =>
      have hf0 : f ≠ 0 := hfree f (hf ▸ mem_cons_self)
      have halloc : m.allocPage = (f,{ m with free := rest, bytes := update m.bytes f fun _ => 0 }) := by
        unfold Pmem.allocPage
        rw [hf]
      dsimp only
      rw [halloc]
      dsimp only
      rw [if_neg hf0]
      have hnew : ({ as with l2 := update as.l2 (indexOf va).1 (some ⟨f,fun _ => .zero⟩) } : AddressSpace).missing =
          update as.missing (indexOf va).1 false := by
        funext x
        unfold AddressSpace.missing
        by_cases hx : x = (indexOf va).1
        · subst hx
          simp only [update_self]
          rfl
        · simp only [update_of_ne hx]
      refine ⟨_,_,rfl,rfl,fun j => ?_,?_,fun q hq => htable _ _ _ q ?_,rfl,[f],rfl,fun q hq => htable _ _ _ q ?_,
        by rw [hmiss]; rfl⟩
      · refine (entry_setEntry (by simp) j).trans ?_
        rw [entry_newTable hl]
      · exact (hmore _ (indexOf va).1 (by rw [hnew,update_self]) _ _ rfl).trans hnew
      · obtain ⟨l,hlq⟩ := hq
        refine ⟨l,?_⟩
        have hne : l ≠ (indexOf va).1 := by
          rintro rfl
          rw [hl] at hlq
          cases hlq
        simpa only [update_of_ne hne] using hlq
      · refine ⟨(indexOf va).1,?_⟩
        rw [List.mem_singleton.mp hq]
        simp only [update_self]
        rfl

lemma growHeap_enough (n : ℕ) (hva : va % pageSize = 0) (hlo : userHeapBase ≤ va)
    (hhi : va + n*pageSize ≤ userHeapMax) (hfree : ∀ p ∈ m.free, m.Usable p)
    (hroom : framesFor as.missing n va ≤ m.free.length) :
    ∃ as' m', AddressSpace.growHeap n va as m = (true,as',m') ∧ Grew n va as m as' m' := by
  induction n generalizing va as m with
  | zero =>
    exact ⟨as,m,rfl,rfl,fun _ _ => rfl,fun k hk => absurd hk (Nat.not_lt_zero k),fun _ h => h,
      ⟨[],rfl,fun q hq => absurd hq not_mem_nil⟩,rfl⟩
  | succ n ih =>
    have hnext (k : ℕ) : va + pageSize + k*pageSize = va + (k+1)*pageSize := by rw [Nat.succ_mul]; omega
    have hspan : va + pageSize + n*pageSize ≤ userHeapMax := by rw [hnext]; exact hhi
    rw [framesFor] at hroom
    cases hf : m.free with
    | nil =>
      rw [hf] at hroom
      split at hroom <;> simp at hroom
    | cons pa rest =>
      have hpa := hfree pa (hf ▸ mem_cons_self)
      rw [hf,length_cons] at hroom
      have halloc : m.allocPage = (pa,{ m with free := rest, bytes := update m.bytes pa fun _ => 0 }) := by
        unfold Pmem.allocPage
        rw [hf]
      rw [AddressSpace.growHeap,halloc]
      dsimp only
      rw [if_neg hpa.1]
      have hrest : ∀ p ∈ rest, m.Usable p := fun p hp => hfree p (hf ▸ mem_cons_of_mem _ hp)
      obtain ⟨as₁,m₁,hmap,hbrk,hentry,hmiss,htab,hcount,taken,htaken,htt,hlen⟩ := map_page as
        { m with free := rest, bytes := update m.bytes pa fun _ => 0 } hva
        (by unfold userHeapBase userVaBase at *; omega)
        (by unfold userHeapMax userVaEnd at *; omega) hpa.2.1 (fun p hp => (hrest p hp).1)
        (fun h => by rw [if_pos h] at hroom; change 0 < rest.length; omega)
      rw [hmap]
      dsimp only
      change rest = taken ++ m₁.free at htaken
      have hsplit := congrArg List.length htaken
      rw [length_append,hlen] at hsplit
      have hcount' : m₁.refcountGet = m.refcountGet := hcount
      obtain ⟨as₂,m₂,hgrow,hg⟩ := @ih as₁ m₁ (va + pageSize)
        (by rw [Nat.add_mod_right]; exact hva) (by omega) hspan
        (fun p hp => (hrest p (htaken ▸ mem_append_right _ hp)).of_le (congrFun hcount' p).le) (by
          rw [hmiss]
          by_cases hm : as.missing (indexOf va).1 = true
          · rw [if_pos hm] at hroom hsplit
            omega
          · rw [if_neg hm] at hroom hsplit
            omega)
      have hself : as₂.entry (indexOf va) = .page pa true false ∨ ∃ k < n, indexOf va = indexOf (va + pageSize + k*pageSize) := by
        by_cases hk : ∀ k < n, indexOf va ≠ indexOf (va + pageSize + k*pageSize)
        · rw [hg.other _ hk,hentry,if_pos rfl]
          exact .inl rfl
        · push Not at hk
          exact .inr hk
      -- the pages of the range have places of their own
      have hself : as₂.entry (indexOf va) = .page pa true false := hself.resolve_right fun ⟨k,hk,he⟩ => by
        have hkp : k*pageSize + pageSize ≤ n*pageSize := by rw [← Nat.succ_mul]; exact Nat.mul_le_mul_right _ hk
        have hpage := indexOf_inj (by unfold userHeapBase userHeapMax userVaBase userVaEnd pageSize at *; omega)
          (by unfold userHeapBase userHeapMax userVaBase userVaEnd pageSize at *; omega) he
        rw [show va + pageSize + k*pageSize = va + (k+1)*pageSize by rw [Nat.succ_mul]; omega,
          Nat.add_mul_div_right _ _ (by decide)] at hpage
        omega
      refine ⟨as₂,m₂,hgrow,hg.brk.trans hbrk,fun j hj => ?_,fun k hk => ?_,fun q hq => hg.tables q (htab q hq),?_,
        hg.counts.trans hcount'⟩
      · have h0 := hj 0 (Nat.succ_pos n)
        rw [Nat.zero_mul,Nat.add_zero] at h0
        rw [hg.other j fun k hk => by rw [hnext]; exact hj (k+1) (by omega), hentry,if_neg h0]
      · cases k with
        | zero =>
          rw [Nat.zero_mul,Nat.add_zero,hself]
          rfl
        | succ k =>
          rw [← hnext]
          exact hg.valid k (by omega)
      · obtain ⟨more,hmore,hmt⟩ := hg.taken
        refine ⟨pa :: (taken ++ more),?_,fun q hq => ?_⟩
        · rw [hf,htaken,hmore,cons_append,append_assoc]
        · rcases List.mem_cons.mp hq with rfl | hq
          · exact .inl ⟨0,Nat.succ_pos n,by rw [Nat.zero_mul,Nat.add_zero]; exact hself⟩
          · rcases List.mem_append.mp hq with hq | hq
            · exact .inr (hg.tables q (htt q hq))
            · rcases hmt q hq with ⟨k,hk,he⟩ | ht
              · exact .inl ⟨k+1,by omega,by rw [← hnext]; exact he⟩
              · exact .inr ht

/-- Where there is no frame for the first page or its table, nothing changes but the order of the
free frames. -/
lemma growHeap_none (n : ℕ) (hfree : ∀ p ∈ m.free, m.Usable p)
    (hroom : m.free.length < framesFor as.missing 1 va) :
    ∃ m', AddressSpace.growHeap (n+1) va as m = (false,as,m') ∧ m'.free = m.free ∧ m'.refcountGet = m.refcountGet := by
  rw [framesFor,framesFor,Nat.add_zero] at hroom
  rw [AddressSpace.growHeap]
  cases hf : m.free with
  | nil =>
    have halloc : m.allocPage = (0,m) := by
      unfold Pmem.allocPage
      rw [hf]
    rw [halloc]
    exact ⟨m,if_pos rfl,hf,rfl⟩
  | cons pa rest =>
    have hpa := hfree pa (hf ▸ mem_cons_self)
    have hmiss : as.l2 (indexOf va).1 = none := by
      rw [hf,length_cons] at hroom
      unfold AddressSpace.missing at hroom
      split at hroom
      next h => exact Option.isNone_iff_eq_none.mp h
      next => omega
    have hrest : rest = [] := by
      rw [hf,length_cons] at hroom
      rw [← length_eq_zero_iff]
      split at hroom <;> omega
    have halloc : m.allocPage = (pa,{ m with free := [], bytes := update m.bytes pa fun _ => 0 }) := by
      unfold Pmem.allocPage
      rw [hf,hrest]
    rw [halloc]
    dsimp only
    rw [if_neg hpa.1]
    have hmap : as.map va pa 1 true false { m with free := [], bytes := update m.bytes pa fun _ => 0 } =
        (false,as,{ m with free := [], bytes := update m.bytes pa fun _ => 0 }) := by
      unfold AddressSpace.map
      split
      · rfl
      · rw [AddressSpace.mapLoop,AddressSpace.l3For,hmiss]
        rfl
    rw [hmap]
    refine ⟨_,rfl,?_,funext fun p => refcountGet_freePage _ pa p⟩
    rw [Pmem.freePage,if_neg (not_or.mpr ⟨hpa.1,not_not.mpr hpa.2.1⟩),hrest]
    rfl

end Growing

/-- What shrinking by `n` pages from `va` on does. -/
structure Shrank (n va : ℕ) (as : AddressSpace) (m : Pmem) (as' : AddressSpace) (m' : Pmem) : Prop where
  brk : as'.heapBrk = as.heapBrk
  other : ∀ j, (∀ k < n, j ≠ indexOf (va + k*pageSize)) → as'.entry j = as.entry j
  invalid : ∀ k < n, (as'.entry (indexOf (va + k*pageSize))).valid = false
  tables : ∀ pa, as.IsTable pa → as'.IsTable pa
  free : ∀ p ∈ m.free, p ∈ m'.free
  returned : ∀ k < n, (as.entry (indexOf (va + k*pageSize))).valid = true →
    m.Usable (as.entry (indexOf (va + k*pageSize))).pa → (as.entry (indexOf (va + k*pageSize))).pa ∈ m'.free
  usable : ∀ p ∈ m'.free, p ∈ m.free ∨ m'.Usable p
  counts : ∀ p, m'.refcountGet p ≤ m.refcountGet p

lemma shrinkHeap_shrank (n va : ℕ) (as : AddressSpace) (m : Pmem) :
    Shrank n va as m (AddressSpace.shrinkHeap n va as m).1 (AddressSpace.shrinkHeap n va as m).2 := by
  induction n generalizing va as m with
  | zero =>
    exact ⟨rfl,fun _ _ => rfl,fun k hk => absurd hk (Nat.not_lt_zero k),fun _ h => h,fun _ h => h,
      fun k hk => absurd hk (Nat.not_lt_zero k),fun _ h => .inl h,fun _ => le_rfl⟩
  | succ n ih =>
    have hnext (k : ℕ) : va + pageSize + k*pageSize = va + (k+1)*pageSize := by rw [Nat.succ_mul]; omega
    have hstart : va + 0*pageSize = va := by omega
    -- one page that is not mapped afterwards, then the others
    have hstep {as₁ : AddressSpace} {m₁ : Pmem} (hbrk : as₁.heapBrk = as.heapBrk)
        (hother : ∀ j, j ≠ indexOf va → as₁.entry j = as.entry j) (hself : (as₁.entry (indexOf va)).valid = false)
        (htab : ∀ pa, as.IsTable pa → as₁.IsTable pa) (hfree : ∀ p ∈ m.free, p ∈ m₁.free)
        (hret : (as.entry (indexOf va)).valid = true → m.Usable (as.entry (indexOf va)).pa →
          (as.entry (indexOf va)).pa ∈ m₁.free)
        (husable : ∀ p ∈ m₁.free, p ∈ m.free ∨ m₁.Usable p)
        (hcount : ∀ p, m₁.refcountGet p ≤ m.refcountGet p) :
        Shrank (n+1) va as m (AddressSpace.shrinkHeap n (va + pageSize) as₁ m₁).1
          (AddressSpace.shrinkHeap n (va + pageSize) as₁ m₁).2 := by
      have h := ih (va + pageSize) as₁ m₁
      refine ⟨h.brk.trans hbrk,fun j hj => ?_,fun k hk => ?_,fun pa hp => h.tables pa (htab pa hp),
        fun p hp => h.free p (hfree p hp),fun k hk hv hu => ?_,fun p hp => ?_,fun p => (h.counts p).trans (hcount p)⟩
      · have h0 := hj 0 (Nat.succ_pos n)
        rw [hstart] at h0
        rw [h.other j fun k hk => by rw [hnext]; exact hj (k+1) (by omega), hother j h0]
      · cases k with
        | zero =>
          rw [hstart]
          by_cases hin : ∀ i < n, indexOf va ≠ indexOf (va + pageSize + i*pageSize)
          · rw [h.other _ hin]
            exact hself
          · push Not at hin
            obtain ⟨i,hi,he⟩ := hin
            rw [he]
            exact h.invalid i hi
        | succ k =>
          rw [← hnext]
          exact h.invalid k (by omega)
      · cases k with
        | zero =>
          rw [hstart] at hv hu ⊢
          exact h.free _ (hret hv hu)
        | succ k =>
          rw [← hnext] at hv hu ⊢
          by_cases hsame : indexOf (va + pageSize + k*pageSize) = indexOf va
          · rw [hsame] at hv hu ⊢
            exact h.free _ (hret hv hu)
          · have he := hother _ hsame
            have hr := h.returned k (by omega)
            rw [he] at hr
            exact hr hv (hu.of_le (hcount _))
      · rcases h.usable p hp with hp | hp
        · exact (husable p hp).imp_right fun hu => hu.of_le (h.counts p)
        · exact .inr hp
    rw [AddressSpace.shrinkHeap]
    cases hlook : as.entryLookup (indexOf va) with
    | none =>
      have hz : as.entry (indexOf va) = .zero := by
        unfold AddressSpace.entry
        rw [hlook]
        rfl
      exact hstep rfl (fun _ _ => rfl) (by rw [hz]; rfl) (fun _ h => h) (fun _ h => h)
        (fun h => by rw [hz] at h; cases h) (fun _ h => .inl h) fun _ => le_rfl
    | some e =>
      have he := entry_of_lookup hlook
      dsimp only
      cases hv : e.valid with
      | false =>
        exact hstep rfl (fun _ _ => rfl) (by rw [he]; exact hv) (fun _ h => h) (fun _ h => h)
          (fun h => by rw [he,hv] at h; cases h) (fun _ h => .inl h) fun _ => le_rfl
      | true =>
        have ht : as.l2 (indexOf va).1 ≠ none := by
          intro hn
          rw [AddressSpace.entryLookup,hn] at hlook
          cases hlook
        obtain ⟨hc,hf,hr,hu⟩ := decAndFree_spec m e.pa
        have hset (j : Index) : (as.setEntry (indexOf va) .zero).onePageLess.entry j =
            if j = indexOf va then .zero else as.entry j := entry_setEntry ht j
        refine hstep rfl (fun j hj => by rw [hset,if_neg hj]) (by rw [hset,if_pos rfl]; rfl) (fun pa hp => ?_) hf
          (fun _ hus => by rw [he] at hus ⊢; exact hr hus)
          (fun p hp => (hu p hp).imp_right fun hus => hus.of_le (hc p)) hc
        obtain ⟨l,hl⟩ := hp
        exact ⟨l,(l3_setEntry l).trans hl⟩

/-- The break that `sys_sbrk` asks for, unless the sum wraps around. -/
def sbrkRequest (oldBrk : ℕ) (inc : Int64) : Option ℕ :=
  if 0 ≤ inc.toInt then
    let newBrk := (oldBrk + inc.toInt.toNat) % 2^64
    if newBrk < oldBrk then none else some newBrk
  else
    let mag := (-inc.toInt).toNat
    if mag > (oldBrk + 2^64 - userHeapBase) % 2^64 then some userHeapBase else some (oldBrk - mag)

/-- `sys_sbrk` -/
def AddressSpace.sysSbrk (as : AddressSpace) (inc : Int64) (m : Pmem) : ℤ × AddressSpace × Pmem :=
  match sbrkRequest as.heapBrk inc with
  | none => (-1,as,m)
  | some newBrk =>
    match as.setBrk newBrk m with
    | (true,as',m) => (as.heapBrk,as',m)
    | (false,as,m) => (-1,as,m)

/-- An address space, the frames, and which of them were taken by its calls and not given back. -/
structure BreakState where
  as : AddressSpace
  mem : Pmem
  held : List ℕ

/-- A call, or other programs have taken and given back frames. -/
inductive BreakEvent
  | sbrk (inc : Int64)
  | others (mem : Pmem)

namespace BreakState

/-- Nobody else gives back or shares a frame of this address space. -/
def step (s : BreakState) : BreakEvent → Option (ℤ × BreakState)
  | .sbrk inc =>
    let (r,as,m) := s.as.sysSbrk inc s.mem
    some (r,⟨as,m,(s.held ++ s.mem.free).filter (· ∉ m.free)⟩)
  | .others m =>
    if (∀ pa ∈ m.free, m.Usable pa ∧ pa ∉ s.held) ∧ ∀ pa ∈ s.held, m.Usable pa then some (0,{ s with mem := m })
    else none

def pageUp (va : ℕ) : ℕ := (va + pageSize - 1)/pageSize*pageSize

/-- The page is mapped, to the frame `pa`. -/
def Maps (as : AddressSpace) (va pa : ℕ) : Prop :=
  (as.entry (indexOf va)).valid = true ∧ (as.entry (indexOf va)).pa = pa

/-- The law of the program break. -/
structure Lawful (s : BreakState) : Prop where
  inside : userHeapBase ≤ s.as.heapBrk ∧ s.as.heapBrk ≤ userHeapMax
  mapped : ∀ va, va % pageSize = 0 → userHeapBase ≤ va → va < userHeapMax →
    ((s.as.entry (indexOf va)).valid = true ↔ va < pageUp s.as.heapBrk)
  accounted : ∀ pa ∈ s.held, s.as.IsTable pa ∨
    ∃ va, va % pageSize = 0 ∧ userHeapBase ≤ va ∧ va < userHeapMax ∧ Maps s.as va pa

structure Kept (s : BreakState) : Prop extends Lawful s where
  aligned : s.as.heapBrk % pageSize = 0
  free : ∀ pa ∈ s.mem.free, s.mem.Usable pa
  held : ∀ pa ∈ s.held, s.mem.Usable pa

/-- An address space in order, before the first of the calls. -/
structure Start (s : BreakState) : Prop extends Kept s where
  none : s.held = []

/-- The frames are there for all pages that the call has to map, or not even for the first of them. -/
def Enough (s : BreakState) : BreakEvent → Prop
  | .sbrk inc => ∀ newBrk ∈ sbrkRequest s.as.heapBrk inc, AddressSpace.brkTarget newBrk ≤ userHeapMax →
      framesFor s.as.missing ((AddressSpace.brkTarget newBrk - s.as.heapBrk)/pageSize) s.as.heapBrk ≤ s.mem.free.length ∨
      s.mem.free.length < framesFor s.as.missing 1 s.as.heapBrk
  | .others _ => True

instance (s : BreakState) (e : BreakEvent) : Decidable (s.Enough e) := by
  cases e <;> unfold Enough <;> infer_instance

lemma pageUp_of_aligned {va : ℕ} (h : va % pageSize = 0) : pageUp va = va := by
  unfold pageUp
  unfold pageSize at h ⊢
  omega

lemma page_eq {a b : ℕ} (ha : a % pageSize = 0) (hb : b % pageSize = 0) (hal : userHeapBase ≤ a) (hau : a < userHeapMax)
    (hbl : userHeapBase ≤ b) (hbu : b < userHeapMax) (h : indexOf a = indexOf b) : a = b := by
  have hp := indexOf_inj (by unfold userHeapBase userHeapMax userVaBase userVaEnd at *; omega)
    (by unfold userHeapBase userHeapMax userVaBase userVaEnd at *; omega) h
  unfold pageSize at ha hb hp
  omega

/-- What a call does that does not stop half way. -/
inductive Outcome (s : BreakState) (as' : AddressSpace) (m' : Pmem) : ℤ → Prop
  | failed (as_eq : as' = s.as) (free : m'.free = s.mem.free) (counts : m'.refcountGet = s.mem.refcountGet) :
      Outcome s as' m' (-1)
  | grew {r : ℤ} {n : ℕ} {as : AddressSpace} (ok : 0 ≤ r) (top : s.as.heapBrk + n*pageSize ≤ userHeapMax)
      (grew : Grew n s.as.heapBrk s.as s.mem as m') (as_eq : as' = { as with heapBrk := s.as.heapBrk + n*pageSize }) :
      Outcome s as' m' r
  | shrank {r : ℤ} {n target : ℕ} {as : AddressSpace} (ok : 0 ≤ r) (bottom : userHeapBase ≤ target)
      (span : s.as.heapBrk = target + n*pageSize) (shrank : Shrank n target s.as s.mem as m')
      (as_eq : as' = { as with heapBrk := target }) : Outcome s as' m' r

lemma brkTarget_spec (newBrk : ℕ) : AddressSpace.brkTarget newBrk % pageSize = 0 ∧
    userHeapBase ≤ AddressSpace.brkTarget newBrk := by
  unfold AddressSpace.brkTarget
  refine ⟨?_,le_max_right _ _⟩
  rcases max_choice ((newBrk + pageSize - 1) % 2^64/pageSize*pageSize) userHeapBase with h | h <;> rw [h]
  · exact Nat.mul_mod_left _ _
  · decide

lemma setBrk_outcome {s : BreakState} (h : s.Kept) (newBrk : ℕ)
    (henough : AddressSpace.brkTarget newBrk ≤ userHeapMax →
      framesFor s.as.missing ((AddressSpace.brkTarget newBrk - s.as.heapBrk)/pageSize) s.as.heapBrk ≤ s.mem.free.length ∨
      s.mem.free.length < framesFor s.as.missing 1 s.as.heapBrk) :
    ∃ ok as' m', s.as.setBrk newBrk s.mem = (ok,as',m') ∧ Outcome s as' m' (if ok then s.as.heapBrk else -1) := by
  obtain ⟨halign,hbase⟩ := brkTarget_spec newBrk
  have hbrk := h.aligned
  unfold AddressSpace.setBrk
  dsimp only
  generalize AddressSpace.brkTarget newBrk = target at halign hbase henough
  by_cases hmax : target > userHeapMax
  · rw [if_pos hmax]
    exact ⟨false,_,_,rfl,.failed rfl rfl rfl⟩
  rw [if_neg hmax]
  by_cases hgrow : target > s.as.heapBrk
  · rw [if_pos hgrow]
    have hn : target = s.as.heapBrk + (target - s.as.heapBrk)/pageSize*pageSize ∧
        (target - s.as.heapBrk + pageSize - 1)/pageSize = (target - s.as.heapBrk)/pageSize ∧
        0 < (target - s.as.heapBrk)/pageSize := by
      unfold pageSize at halign hbrk ⊢
      omega
    rw [hn.2.1]
    have hen := henough (by omega)
    generalize (target - s.as.heapBrk)/pageSize = n at hn hen
    rcases hen with hroom | hnone
    · obtain ⟨as',m',hg,hgrew⟩ := growHeap_enough n hbrk h.inside.1 (by omega) h.free hroom
      rw [hg]
      refine ⟨true,_,_,rfl,.grew (Int.natCast_nonneg _) (by omega) hgrew ?_⟩
      rw [← hn.1]
    · obtain ⟨n,rfl⟩ : ∃ k, n = k+1 := ⟨n-1,by omega⟩
      obtain ⟨m',hg,hfree,hcount⟩ := growHeap_none n h.free hnone
      rw [hg]
      exact ⟨false,_,_,rfl,.failed rfl hfree hcount⟩
  · rw [if_neg hgrow]
    have hn : s.as.heapBrk = target + (s.as.heapBrk - target + pageSize - 1)/pageSize*pageSize := by
      unfold pageSize at halign hbrk ⊢
      omega
    generalize (s.as.heapBrk - target + pageSize - 1)/pageSize = n at hn
    exact ⟨true,_,_,rfl,.shrank (n := n) (Int.natCast_nonneg _) hbase hn (shrinkHeap_shrank n target s.as s.mem) rfl⟩

lemma sbrk_outcome {s : BreakState} (h : s.Kept) {inc : Int64} (henough : s.Enough (.sbrk inc)) :
    Outcome s (s.as.sysSbrk inc s.mem).2.1 (s.as.sysSbrk inc s.mem).2.2 (s.as.sysSbrk inc s.mem).1 := by
  unfold AddressSpace.sysSbrk
  cases hreq : sbrkRequest s.as.heapBrk inc with
  | none => exact .failed rfl rfl rfl
  | some newBrk =>
    obtain ⟨ok,as',m',heq,hout⟩ := setBrk_outcome h newBrk (henough newBrk hreq)
    dsimp only
    rw [heq]
    cases ok with
    | true | false => exact hout

lemma mem_held {held free free' : List ℕ} {pa : ℕ} (h : pa ∈ (held ++ free).filter (· ∉ free')) :
    (pa ∈ held ∨ pa ∈ free) ∧ pa ∉ free' := by
  rw [mem_filter,mem_append,decide_eq_true_eq] at h
  exact h

lemma Outcome.kept {s : BreakState} (h : s.Kept) {as' : AddressSpace} {m' : Pmem} {r : ℤ} (ho : Outcome s as' m' r) :
    Kept ⟨as',m',(s.held ++ s.mem.free).filter (· ∉ m'.free)⟩ := by
  have hup := pageUp_of_aligned h.aligned
  obtain ⟨hlo,hhi⟩ := h.inside
  cases ho with
  | failed as_eq free counts =>
    subst as_eq
    have hold {pa : ℕ} (hpa : pa ∈ (s.held ++ s.mem.free).filter (· ∉ m'.free)) : pa ∈ s.held := by
      obtain ⟨hin,hout⟩ := mem_held hpa
      exact hin.resolve_right fun hf => hout (free ▸ hf)
    exact ⟨⟨h.inside,h.mapped,fun pa hpa => h.accounted pa (hold hpa)⟩,h.aligned,
      fun pa hpa => (h.free pa (free ▸ hpa)).of_le (congrFun counts pa).le,
      fun pa hpa => (h.held pa (hold hpa)).of_le (congrFun counts pa).le⟩
  | @grew _ n as _ top grew as_eq =>
    subst as_eq
    obtain ⟨taken,htaken,hwhere⟩ := grew.taken
    have halign : (s.as.heapBrk + n*pageSize) % pageSize = 0 := by
      rw [Nat.add_mul_mod_self_right]
      exact h.aligned
    have hpage (k : ℕ) (hk : k < n) : (s.as.heapBrk + k*pageSize) % pageSize = 0 ∧
        s.as.heapBrk + k*pageSize < s.as.heapBrk + n*pageSize := by
      refine ⟨by rw [Nat.add_mul_mod_self_right]; exact h.aligned,?_⟩
      have := Nat.mul_lt_mul_of_pos_right hk (show 0 < pageSize by decide)
      omega
    have hsame {va : ℕ} (hva : va % pageSize = 0) (hl : userHeapBase ≤ va) (hu : va < userHeapMax)
        (hout : va < s.as.heapBrk ∨ s.as.heapBrk + n*pageSize ≤ va) : as.entry (indexOf va) = s.as.entry (indexOf va) := by
      refine grew.other _ fun k hk he => ?_
      obtain ⟨hk0,hk1⟩ := hpage k hk
      have := page_eq hva hk0 hl hu (by omega) (by omega) he
      omega
    refine ⟨⟨⟨by dsimp only; omega,top⟩,fun va hva hl hu => ?_,fun pa hpa => ?_⟩,halign,fun pa hpa => ?_,fun pa hpa => ?_⟩
    · rw [pageUp_of_aligned halign]
      change (as.entry (indexOf va)).valid = true ↔ _
      by_cases hin : s.as.heapBrk ≤ va ∧ va < s.as.heapBrk + n*pageSize
      · have hk : va = s.as.heapBrk + (va - s.as.heapBrk)/pageSize*pageSize := by
          have := h.aligned
          unfold pageSize at this hva ⊢
          omega
        have hkn : (va - s.as.heapBrk)/pageSize < n := by
          rw [Nat.div_lt_iff_lt_mul (by decide)]
          omega
        rw [hk] at hin ⊢
        exact ⟨fun _ => hin.2,fun _ => grew.valid _ hkn⟩
      · have hmap := h.mapped va hva hl hu
        rw [hup] at hmap
        rw [hsame hva hl hu (by omega),hmap]
        omega
    · obtain ⟨hin,hout⟩ := mem_held hpa
      rcases hin with hin | hin
      · rcases h.accounted pa hin with ht | ⟨va,hva,hl,hu,hm⟩
        · exact .inl (grew.tables pa ht)
        · have hlt := (h.mapped va hva hl hu).mp hm.1
          rw [hup] at hlt
          refine .inr ⟨va,hva,hl,hu,?_⟩
          change (as.entry _).valid = true ∧ (as.entry _).pa = pa
          rwa [hsame hva hl hu (.inl hlt)]
      · rw [htaken] at hin
        rcases hwhere pa ((List.mem_append.mp hin).resolve_right hout) with ⟨k,hk,he⟩ | ht
        · obtain ⟨hk0,hk1⟩ := hpage k hk
          refine .inr ⟨_,hk0,by omega,by omega,?_⟩
          change (as.entry _).valid = true ∧ (as.entry _).pa = pa
          rw [he]
          exact ⟨rfl,rfl⟩
        · exact .inl ht
    · exact (h.free pa (htaken ▸ mem_append_right _ hpa)).of_le (congrFun grew.counts pa).le
    · exact ((mem_held hpa).1.elim (h.held pa) (h.free pa)).of_le (congrFun grew.counts pa).le
  | @shrank _ n target as _ bottom span shrank as_eq =>
    subst as_eq
    have halign : target % pageSize = 0 := by
      have hb := h.aligned
      rwa [span,Nat.add_mul_mod_self_right] at hb
    have hsame {va : ℕ} (hva : va % pageSize = 0) (hl : userHeapBase ≤ va) (hu : va < userHeapMax)
        (hout : va < target ∨ s.as.heapBrk ≤ va) : as.entry (indexOf va) = s.as.entry (indexOf va) := by
      refine shrank.other _ fun k hk he => ?_
      have hlt := Nat.mul_lt_mul_of_pos_right hk (show 0 < pageSize by decide)
      have := page_eq hva (by rw [Nat.add_mul_mod_self_right]; exact halign) hl hu (by omega) (by omega) he
      omega
    have hinside {va : ℕ} (hva : va % pageSize = 0) (hin : target ≤ va ∧ va < s.as.heapBrk) :
        ∃ k < n, va = target + k*pageSize := by
      refine ⟨(va - target)/pageSize,?_,?_⟩
      · rw [Nat.div_lt_iff_lt_mul (by decide)]
        omega
      · unfold pageSize at hva halign ⊢
        omega
    refine ⟨⟨⟨bottom,by dsimp only; omega⟩,fun va hva hl hu => ?_,fun pa hpa => ?_⟩,halign,fun pa hpa => ?_,fun pa hpa => ?_⟩
    · rw [pageUp_of_aligned halign]
      change (as.entry (indexOf va)).valid = true ↔ _
      by_cases hin : target ≤ va ∧ va < s.as.heapBrk
      · obtain ⟨k,hk,rfl⟩ := hinside hva hin
        rw [shrank.invalid k hk]
        exact ⟨fun hf => (by cases hf),fun hlt => absurd hlt (by omega)⟩
      · have hmap := h.mapped va hva hl hu
        rw [hup] at hmap
        rw [hsame hva hl hu (by omega),hmap]
        omega
    · obtain ⟨hin,hout⟩ := mem_held hpa
      rcases hin with hin | hin
      · rcases h.accounted pa hin with ht | ⟨va,hva,hl,hu,hv,hp⟩
        · exact .inl (shrank.tables pa ht)
        · refine .inr ⟨va,hva,hl,hu,?_⟩
          change (as.entry _).valid = true ∧ (as.entry _).pa = pa
          by_cases hgone : target ≤ va ∧ va < s.as.heapBrk
          · obtain ⟨k,hk,rfl⟩ := hinside hva hgone
            exact absurd (hp ▸ shrank.returned k hk hv (hp ▸ h.held pa hin)) hout
          · rw [hsame hva hl hu (by omega)]
            exact ⟨hv,hp⟩
      · exact absurd (shrank.free pa hin) hout
    · rcases shrank.usable pa hpa with hp | hp
      · exact (h.free pa hp).of_le (shrank.counts pa)
      · exact hp
    · exact ((mem_held hpa).1.elim (h.held pa) (h.free pa)).of_le (shrank.counts pa)

lemma step_kept {s t : BreakState} {e : BreakEvent} {r : ℤ} (h : s.Kept) (henough : s.Enough e)
    (hstep : s.step e = some (r,t)) : t.Kept := by
  cases e with
  | sbrk inc =>
    have hk := (sbrk_outcome h henough).kept h
    cases hstep
    exact hk
  | others m =>
    change (if _ then _ else none) = _ at hstep
    split at hstep
    · next hok =>
      cases hstep
      exact ⟨⟨h.inside,h.mapped,h.accounted⟩,h.aligned,fun pa hpa => (hok.1 pa hpa).1,hok.2⟩
    · cases hstep

/-- The law holds after every call, and a call that fails leaves the break and the mappings as they
were, where no call runs out of frames behind its first page. -/
theorem sbrk_lawful {s t : BreakState} {es : List BreakEvent} (h : s.Start) (run : Runs step Enough s es t) :
    t.Lawful ∧ ∀ inc, t.Enough (.sbrk inc) → ∀ r u, t.step (.sbrk inc) = some (r,u) → r = -1 →
      u.as.heapBrk = t.as.heapBrk ∧ ∀ i, u.as.entry i = t.as.entry i := by
  have hk : t.Kept := run.invariant (I := Kept) (fun _ _ _ _ hs hP hn => step_kept hs hP hn) h.toKept
  refine ⟨hk.toLawful,fun inc henough r u hstep hr => ?_⟩
  have ho := sbrk_outcome hk henough
  obtain ⟨h1,h2⟩ := Prod.mk.inj (some.inj hstep)
  have has : u.as = (t.as.sysSbrk inc t.mem).2.1 := congrArg BreakState.as h2.symm
  rw [has]
  replace hr : (t.as.sysSbrk inc t.mem).1 = -1 := h1.trans hr
  clear h1 h2 hstep has
  generalize (t.as.sysSbrk inc t.mem).1 = r', (t.as.sysSbrk inc t.mem).2.1 = as',
    (t.as.sysSbrk inc t.mem).2.2 = m' at ho hr
  cases ho with
  | failed as_eq => subst as_eq; exact ⟨rfl,fun _ => rfl⟩
  | grew ok | shrank ok => exact absurd ok (by rw [hr]; decide)

def created (frames : List ℕ) : BreakState :=
  ⟨⟨0x1000,0x2000,fun _ => none,0,userHeapBase,[],userMmapBase,[],1⟩,⟨frames,fun _ _ => 0,0,0,fun _ => 0⟩,[]⟩

lemma created_start {frames : List ℕ} (h : ∀ pa ∈ frames, pa ≠ 0 ∧ pa % pageSize = 0) : (created frames).Start := by
  refine ⟨⟨⟨⟨le_rfl,show userHeapBase ≤ userHeapMax by decide⟩,fun va _ hl _ => ?_,fun pa hpa => absurd hpa not_mem_nil⟩,
    show userHeapBase % pageSize = 0 by decide,
    fun pa hpa => ⟨(h pa hpa).1,(h pa hpa).2,?_⟩,fun pa hpa => absurd hpa not_mem_nil⟩,rfl⟩
  · have hz : (created frames).as.entry (indexOf va) = .zero := entry_of_none rfl
    have hbase : userHeapBase % pageSize = 0 := by decide
    have hup : pageUp (created frames).as.heapBrk = (created frames).as.heapBrk := pageUp_of_aligned hbase
    rw [hz,hup]
    exact ⟨fun hf => (by cases hf),fun hlt => absurd hlt (Nat.not_lt.mpr hl)⟩
  · have h0 : (created frames).mem.refcountGet pa = 0 := ite_self 0
    omega

/-- A page is mapped and unmapped again. -/
theorem sbrk_lawful_page : ∃ t, Runs step Enough (created [0x3000,0x4000]) [.sbrk 4096,.sbrk (-4096)] t ∧ t.Lawful := by
  have hsome : (execute (fun s e => if s.Enough e then s.step e else none) (created [0x3000,0x4000])
      [.sbrk 4096,.sbrk (-4096)]).isSome = true := by decide +kernel
  obtain ⟨t,ht⟩ := Option.isSome_iff_exists.mp hsome
  have run : Runs step Enough (created [0x3000,0x4000]) [.sbrk 4096,.sbrk (-4096)] t :=
    Runs.of_guarded (fun s e (hok : decide (s.Enough e) = true) => of_decide_eq_true hok)
      (by simpa only [decide_eq_true_eq] using ht)
  exact ⟨t,run,(sbrk_lawful (created_start (by decide)) run).1⟩

/-- With frames for two of three pages the call fails, and the two pages stay mapped. -/
theorem sbrk_unlawful : ∃ t, Runs step (fun _ _ => True) (created [0x3000,0x4000,0x5000]) [.sbrk 12288] t ∧
    (created [0x3000,0x4000,0x5000]).Start ∧ ¬ t.Lawful := by
  have hsome : (execute step (created [0x3000,0x4000,0x5000]) [.sbrk 12288]).map
      (fun t => ((t.as.entry (indexOf userHeapBase)).valid,t.as.heapBrk)) = some (true,userHeapBase) := by decide
  obtain ⟨t,ht,hval⟩ := Option.map_eq_some_iff.mp hsome
  obtain ⟨hvalid,hbrk⟩ := Prod.mk.inj hval
  refine ⟨t,Runs.of_execute ht,created_start (by decide),fun hl => ?_⟩
  have hlt := (hl.mapped userHeapBase (by decide) le_rfl (by decide)).mp hvalid
  rw [hbrk] at hlt
  exact absurd hlt (by decide)

end BreakState
end VibeOS.Memory

import VibeOS.Memory.WindowPages

/-! Where the windows of an address space and its mmap regions are, call after call: the free list
has none of their pages, and a window that cannot be installed leaves nothing behind. -/
namespace VibeOS.Memory
open List Option

def Vma.holds (v : Vma) (x : ℕ) : Bool := v.va ≤ x && x < v.va + v.len

def regionCount (vs : List Vma) (x : ℕ) : ℕ := vs.countP fun v => v.holds x

/-- An address is in one free range or one region at most, and has an entry only where it is in no
free range. Windows are outside of the regions. -/
structure Ordered (as : AddressSpace) : Prop where
  spaced : Spaced as.wmFreelist
  aligned : ∀ r ∈ as.wmFreelist, r.va % pageSize = 0
  regions : ∀ v ∈ as.vmas, v.va % pageSize = 0 ∧ v.len % pageSize = 0
  brk : as.mmapBrk % pageSize = 0 ∧ userMmapBase ≤ as.mmapBrk ∧ as.mmapBrk ≤ userMmapMax
  once : ∀ x, coverCount as.wmFreelist x + regionCount as.vmas x ≤
    if userMmapBase ≤ x ∧ x < as.mmapBrk then 1 else 0
  entries : ∀ x, userMmapBase ≤ x → x < userMmapMax → as.entry (indexOf x) ≠ .zero →
    (as.entry (indexOf x)).valid = true ∧ x < as.mmapBrk ∧ coverCount as.wmFreelist x = 0 ∧
      ((as.entry (indexOf x)).wmWindow = true → regionCount as.vmas x = 0)

/-- Nothing has the `n` pages from `va` on. -/
structure Reserved (as : AddressSpace) (va n : ℕ) : Prop where
  aligned : va % pageSize = 0
  low : userMmapBase ≤ va
  high : va + n*pageSize ≤ as.mmapBrk
  unused : ∀ x, (⟨va,n⟩ : WmVaRange).covers x = true →
    coverCount as.wmFreelist x = 0 ∧ regionCount as.vmas x = 0 ∧ as.entry (indexOf x) = .zero

section Views
variable {as as' as₁ : AddressSpace} {m m' : Pmem} {va n x : ℕ}

lemma holds_iff {v : Vma} : v.holds x = true ↔ v.va ≤ x ∧ x < v.va + v.len := by
  unfold Vma.holds
  rw [Bool.and_eq_true,decide_eq_true_iff,decide_eq_true_iff]

lemma regionCount_pos {v : Vma} {vs : List Vma} (h : v ∈ vs) (hx : v.holds x = true) : 0 < regionCount vs x :=
  List.countP_pos_iff.mpr ⟨v,h,hx⟩

lemma regionCount_insert (v : Vma) (vs : List Vma) (x : ℕ) : regionCount (AddressSpace.vmaInsertSorted v vs) x =
    regionCount vs x + if v.holds x then 1 else 0 := by
  induction vs with
  | nil =>
    rw [AddressSpace.vmaInsertSorted]
    exact countP_cons
  | cons w vs ih =>
    rw [AddressSpace.vmaInsertSorted]
    split
    · have hl : regionCount (w :: AddressSpace.vmaInsertSorted v vs) x =
          regionCount (AddressSpace.vmaInsertSorted v vs) x + if w.holds x then 1 else 0 := countP_cons
      have hr : regionCount (w :: vs) x = regionCount vs x + if w.holds x then 1 else 0 := countP_cons
      rw [hl,hr,ih]
      omega
    · exact countP_cons

lemma Ordered.inside (h : Ordered as) (hx : 0 < coverCount as.wmFreelist x + regionCount as.vmas x) :
    userMmapBase ≤ x ∧ x < as.mmapBrk := by
  have hone := h.once x
  split at hone
  · assumption
  · omega

lemma Ordered.range (h : Ordered as) {r : WmVaRange} (hr : r ∈ as.wmFreelist) :
    userMmapBase ≤ r.va ∧ r.va + r.nPages*pageSize ≤ as.mmapBrk := by
  have hpos := h.spaced.pos r hr
  have hfirst : r.covers r.va = true := covers_iff.mpr ⟨le_rfl,by unfold pageSize; omega⟩
  have hlast : r.covers (r.va + r.nPages*pageSize - 1) = true :=
    covers_iff.mpr ⟨by unfold pageSize; omega,by unfold pageSize; omega⟩
  have hlow := h.inside (x := r.va) (Nat.add_pos_left (coverCount_pos hr hfirst) _)
  have hhigh := h.inside (x := r.va + r.nPages*pageSize - 1) (Nat.add_pos_left (coverCount_pos hr hlast) _)
  unfold pageSize at *
  omega

lemma Ordered.congr (h : Ordered as) (hfree : as'.wmFreelist = as.wmFreelist) (hvmas : as'.vmas = as.vmas)
    (hbrk : as'.mmapBrk = as.mmapBrk) (hentry : ∀ j, as'.entry j = as.entry j) : Ordered as' := by
  constructor
  · rw [hfree]
    exact h.spaced
  · rw [hfree]
    exact h.aligned
  · rw [hvmas]
    exact h.regions
  · rw [hbrk]
    exact h.brk
  · rw [hfree,hvmas,hbrk]
    exact h.once
  · intro x
    rw [hfree,hvmas,hbrk,hentry]
    exact h.entries x

lemma Ordered.take (h : Ordered as) (ht : as.wmFreelistTake n = some (va,as₁)) :
    Ordered as₁ ∧ Reserved as₁ va n ∧ (∃ rs, as₁ = { as with wmFreelist := rs }) ∧
      ∀ x, coverCount as.wmFreelist x = coverCount as₁.wmFreelist x + if (⟨va,n⟩ : WmVaRange).covers x then 1 else 0 := by
  obtain ⟨pre,r,post,hlist,rfl,hnr,rfl⟩ := wmFreelistTake_spec ht
  have hcount (x : ℕ) : coverCount as.wmFreelist x = coverCount (pre ++ (remainder r n ++ post)) x +
      if (⟨r.va,n⟩ : WmVaRange).covers x then 1 else 0 := by
    rw [hlist]
    exact coverCount_take hnr x
  have hmem : r ∈ as.wmFreelist := by
    rw [hlist]
    exact mem_append_right _ mem_cons_self
  obtain ⟨hlow,hhigh⟩ := h.range hmem
  have hle : n*pageSize ≤ r.nPages*pageSize := Nat.mul_le_mul_right _ hnr
  refine ⟨⟨?_,fun q hq => ?_,h.regions,h.brk,fun x => ?_,fun x hlo hhi hx => ?_⟩,⟨h.aligned r hmem,hlow,by dsimp only; omega,
    fun x hx => ?_⟩,⟨_,rfl⟩,hcount⟩
  · have hs := h.spaced
    rw [hlist] at hs
    exact hs.take hnr
  · rcases List.mem_append.mp hq with hq | hq
    · exact h.aligned q (hlist ▸ mem_append_left _ hq)
    · rcases List.mem_append.mp hq with hq | hq
      · have hr := h.aligned r hmem
        rw [(mem_remainder hnr hq).2.1]
        unfold pageSize at *
        omega
      · exact h.aligned q (hlist ▸ mem_append_right _ (mem_cons_of_mem _ hq))
  · have hone := h.once x
    rw [hcount x] at hone
    dsimp only
    omega
  · obtain ⟨hv,hb,hc,hw⟩ := h.entries x hlo hhi hx
    rw [hcount x] at hc
    exact ⟨hv,hb,by dsimp only; omega,hw⟩
  · have hone := h.once x
    have hin : 0 < coverCount as.wmFreelist x := by
      rw [hcount x,if_pos hx]
      exact Nat.succ_pos _
    have hbounds := h.inside (x := x) (Nat.add_pos_left hin _)
    rw [if_pos hbounds] at hone
    have hc := hcount x
    rw [if_pos hx] at hc
    refine ⟨by dsimp only; omega,by dsimp only; omega,?_⟩
    by_contra hne
    have hbrk := h.brk.2.2
    have hzero := (h.entries x hbounds.1 (by omega) hne).2.2.1
    omega

lemma Ordered.alloc (h : Ordered as) {pages : ℕ} (ht : as.mmapBrkAlloc pages = some (va,as₁)) :
    va = as.mmapBrk ∧ as₁ = { as with mmapBrk := as.mmapBrk + pages*pageSize % 2^64 } ∧
      as.mmapBrk + pages*pageSize % 2^64 ≤ userMmapMax ∧ Ordered as₁ ∧
      ∀ x, as.mmapBrk ≤ x → x < userMmapMax →
        coverCount as.wmFreelist x = 0 ∧ regionCount as.vmas x = 0 ∧ as.entry (indexOf x) = .zero := by
  unfold AddressSpace.mmapBrkAlloc at ht
  dsimp only at ht
  split at ht
  · cases ht
  next hwrap =>
  split at ht
  · cases ht
  next hmax =>
  obtain ⟨rfl,hbrk⟩ := Prod.mk.inj (some.inj ht)
  obtain ⟨hal,hlo,hhi⟩ := h.brk
  have htop : (as.mmapBrk + pages*pageSize % 2^64) % 2^64 = as.mmapBrk + pages*pageSize % 2^64 := by
    unfold userMmapMax at hhi
    omega
  rw [htop] at hwrap hmax hbrk
  subst hbrk
  refine ⟨rfl,rfl,not_lt.mp hmax,⟨h.spaced,h.aligned,h.regions,⟨?_,by dsimp only; omega,not_lt.mp hmax⟩,fun x => ?_,
    fun x hlo hhi hx => ?_⟩,fun x hbelow hx => ?_⟩
  · have hmul : pages*pageSize % 2^64 % pageSize = 0 := by
      rw [Nat.mod_mod_of_dvd _ (by decide),Nat.mul_mod_left]
    dsimp only
    unfold pageSize at *
    omega
  · have hone := h.once x
    dsimp only
    split at hone
    · rw [if_pos (by omega)]
      exact hone
    · omega
  · obtain ⟨hv,hb,hc,hw⟩ := h.entries x hlo hhi hx
    exact ⟨hv,by dsimp only; omega,hc,hw⟩
  · have hone := h.once x
    rw [if_neg (by omega)] at hone
    refine ⟨by omega,by omega,?_⟩
    by_contra hne
    have := (h.entries x (by omega) hx hne).2.1
    omega

lemma covers_of_pageOf {k : ℕ} (hk : k ≤ n) {j : Index} (hj : PageOf va k j) :
    ∃ x, (⟨va,n⟩ : WmVaRange).covers x = true ∧ j = indexOf x := by
  obtain ⟨t,ht,rfl⟩ := hj
  have htn : t*pageSize + pageSize ≤ n*pageSize := by rw [← Nat.succ_mul]; exact Nat.mul_le_mul_right _ (by omega)
  exact ⟨_,covers_iff.mpr ⟨Nat.le_add_right _ _,by dsimp only; unfold pageSize at *; omega⟩,rfl⟩

lemma Reserved.fill (hr : Reserved as va n) (h : Ordered as) (honly : OnlyTables as as')
    (hout : ∀ j, ¬ PageOf va n j → as'.entry j = as.entry j)
    (hin : ∀ j, PageOf va n j → (as'.entry j).valid = true ∧ (as'.entry j).wmWindow = true) : Ordered as' := by
  have hfree : as'.wmFreelist = as.wmFreelist := by rw [honly]
  have hvmas : as'.vmas = as.vmas := by rw [honly]
  have hbrk : as'.mmapBrk = as.mmapBrk := by rw [honly]
  refine ⟨hfree ▸ h.spaced,hfree ▸ h.aligned,hvmas ▸ h.regions,hbrk ▸ h.brk,by rw [hfree,hvmas,hbrk]; exact h.once,
    fun x hlo hhi hx => ?_⟩
  rw [hfree,hvmas,hbrk]
  by_cases hp : PageOf va n (indexOf x)
  · have hmax := h.brk.2.2
    have hc := (pageOf_iff hr.aligned hr.low (hr.high.trans hmax) ⟨hlo,hhi⟩).mp hp
    obtain ⟨hf,hv,-⟩ := hr.unused x hc
    have hlt : x < as.mmapBrk := by
      have := (covers_iff.mp hc).2
      have := hr.high
      dsimp only at *
      omega
    exact ⟨(hin _ hp).1,hlt,hf,fun _ => hv⟩
  · rw [hout _ hp] at hx ⊢
    exact h.entries x hlo hhi hx

lemma Reserved.release (hr : Reserved as va n) (h : Ordered as) (hn : 0 < n) (ok : Bool) :
    Ordered (as.wmFreelistRelease va n ok) ∧ (∃ rs, as.wmFreelistRelease va n ok = { as with wmFreelist := rs }) ∧
      ((∀ x, coverCount (as.wmFreelistRelease va n ok).wmFreelist x =
        coverCount as.wmFreelist x + if (⟨va,n⟩ : WmVaRange).covers x then 1 else 0) ∨
        (ok = false ∧ (as.wmFreelistRelease va n ok).wmFreelist = as.wmFreelist)) := by
  obtain ⟨rs,hrel,hspec⟩ := released_spec h.spaced hn (fun x hx => (hr.unused x hx).1) rfl ok
  rw [hrel]
  refine ⟨?_,⟨rs,rfl⟩,hspec.count⟩
  rcases hspec.count with hcount | ⟨-,rfl⟩
  · refine ⟨hspec.spaced,fun q hq => ?_,h.regions,h.brk,fun x => ?_,fun x hlo hhi hx => ?_⟩
    · rcases hspec.aligned q hq with hva | ⟨r,hmem,hva⟩
      · rw [hva]
        exact hr.aligned
      · rw [hva]
        exact h.aligned r hmem
    · have hone := h.once x
      dsimp only
      rw [hcount x]
      by_cases hx : (⟨va,n⟩ : WmVaRange).covers x = true
      · obtain ⟨hf,hv,-⟩ := hr.unused x hx
        have hb := covers_iff.mp hx
        have hlow := hr.low
        have hhigh := hr.high
        dsimp only at hb
        rw [if_pos hx,hf,hv,if_pos ⟨by omega,by omega⟩]
      · rw [if_neg hx]
        exact hone
    · obtain ⟨hv,hb,hc,hw⟩ := h.entries x hlo hhi hx
      refine ⟨hv,hb,?_,hw⟩
      dsimp only
      rw [hcount x,hc,if_neg]
      intro hcov
      exact hx (hr.unused x hcov).2.2
  · exact h

def FreeVa (as : AddressSpace) (x : ℕ) : Prop := ∃ r ∈ as.wmFreelist, r.covers x = true

lemma freeVa_iff : FreeVa as x ↔ 0 < coverCount as.wmFreelist x := List.countP_pos_iff.symm

/-- An install that failed: tables that came in are empty, the break is where it was, and the free
addresses are the same, but for the range where there was no memory for its node. -/
structure FailedInstall (as as' : AddressSpace) (n : ℕ) (kmallocOk : Bool) : Prop where
  tables : ∀ k, as'.l2 k = as.l2 k ∨ (as.l2 k = none ∧ ∃ pa, as'.l2 k = some ⟨pa,fun _ => .zero⟩)
  brk : as'.mmapBrk = as.mmapBrk
  free : (∀ x, FreeVa as' x ↔ FreeVa as x) ∨ (kmallocOk = false ∧
    ∃ lost : WmVaRange, lost.nPages = n ∧ ∀ x, FreeVa as' x ↔ FreeVa as x ∧ lost.covers x = false)

lemma FailedInstall.refl (as : AddressSpace) (n : ℕ) (ok : Bool) : FailedInstall as as n ok :=
  ⟨fun _ => .inl rfl,rfl,.inl fun _ => Iff.rfl⟩

lemma Reserved.install (hr : Reserved as va n) (h : Ordered as) {pas : List ℕ} (hlen : pas.length = n) {k : ℕ} {ok : Bool}
    (hloop : AddressSpace.installLoop pas 0 va as m = (ok,k,as',m')) :
    (ok = true → Ordered as' ∧ as'.mmapBrk = as.mmapBrk) ∧
      OnlyTables as (AddressSpace.unmapWindow k va as') ∧ TablesStay as (AddressSpace.unmapWindow k va as') ∧
        ∀ j, (AddressSpace.unmapWindow k va as').entry j = as.entry j := by
  obtain ⟨d,rfl,hd,hok,honly,hstay,hout,hin⟩ := installLoop_spec hloop
  rw [Nat.zero_add]
  obtain ⟨honly',hstay',hout',hin'⟩ := unmapWindow_spec d va as'
  refine ⟨fun htrue => ?_,?_,hstay.trans hstay',fun j => ?_⟩
  · rw [hok htrue,hlen] at hout hin
    exact ⟨hr.fill h honly hout hin,by rw [honly]⟩
  · unfold OnlyTables at *
    rw [honly',honly]
  · by_cases hj : PageOf va d j
    · obtain ⟨x,hx,rfl⟩ := covers_of_pageOf (hlen ▸ hd) hj
      rw [hin' _ hj,(hr.unused x hx).2.2]
    · rw [hout' j hj,hout j hj]

lemma installWmWindow_spec (h : Ordered as) {pas : List ℕ} (hpas : 8*pas.length ≤ 2^39) (ok : Bool) {r : Option ℕ}
    (hi : as.installWmWindow pas ok m = (r,as',m')) : Ordered as' ∧
      (r = none → FailedInstall as as' pas.length ok) ∧
      as.mmapBrk ≤ as'.mmapBrk ∧
      ∀ va ∈ r, va % pageSize = 0 ∧ userMmapBase ≤ va ∧ va + pas.length*pageSize ≤ as'.mmapBrk := by
  unfold AddressSpace.installWmWindow at hi
  split at hi
  · simp only [Prod.mk.injEq] at hi
    obtain ⟨rfl,rfl,-⟩ := hi
    exact ⟨h,fun _ => .refl as _ ok,le_rfl,fun va hva => absurd hva (not_mem_none va)⟩
  next hne =>
  have hn : 0 < pas.length := List.length_pos_iff.mpr hne
  split at hi
  · -- the range is from the free list
    next va as₁ htake =>
    obtain ⟨h₁,hr,⟨rs,has₁⟩,hcount⟩ := h.take htake
    have hbrk₁ : as₁.mmapBrk = as.mmapBrk := by rw [has₁]
    split at hi
    · next as₂ m₂ hloop =>
      simp only [Prod.mk.injEq] at hi
      obtain ⟨rfl,rfl,-⟩ := hi
      obtain ⟨h₂,hbrk₂⟩ := (hr.install h₁ rfl hloop).1 rfl
      refine ⟨h₂,fun hnone => absurd hnone (some_ne_none va),by rw [hbrk₂,hbrk₁],fun w hw => ?_⟩
      obtain rfl : va = w := some.inj hw
      exact ⟨hr.aligned,hr.low,hbrk₂ ▸ hr.high⟩
    · next k as₂ m₂ hloop =>
      simp only [Prod.mk.injEq] at hi
      obtain ⟨rfl,rfl,-⟩ := hi
      obtain ⟨-,honly,hstay,hentry⟩ := hr.install h₁ rfl hloop
      generalize AddressSpace.unmapWindow k va as₂ = as₃ at honly hstay hentry
      have hfree₃ : as₃.wmFreelist = as₁.wmFreelist := by rw [honly]
      have hvmas₃ : as₃.vmas = as₁.vmas := by rw [honly]
      have hbrk₃ : as₃.mmapBrk = as₁.mmapBrk := by rw [honly]
      have hr₃ : Reserved as₃ va pas.length :=
        ⟨hr.aligned,hr.low,hbrk₃ ▸ hr.high,fun x hx => by rw [hfree₃,hvmas₃,hentry]; exact hr.unused x hx⟩
      obtain ⟨h₄,⟨rs',has₄⟩,hcount'⟩ := hr₃.release (h₁.congr hfree₃ hvmas₃ hbrk₃ hentry) hn ok
      have hbrk₄ : (as₃.wmFreelistRelease va pas.length ok).mmapBrk = as.mmapBrk := by
        rw [has₄]
        exact hbrk₃.trans hbrk₁
      refine ⟨h₄,fun _ => ⟨fun k => ?_,hbrk₄,?_⟩,hbrk₄.ge,fun va hva => absurd hva (not_mem_none va)⟩
      · have hl2 : (as₃.wmFreelistRelease va pas.length ok).l2 = as₃.l2 := by rw [has₄]
        have hsame : as₁.l2 = as.l2 := by rw [has₁]
        have := tables_of_entries hstay hentry k
        rw [hsame] at this
        rw [hl2]
        exact this
      · simp only [freeVa_iff]
        rcases hcount' with hsum | ⟨hfail,hlost⟩
        · left
          intro x
          rw [hsum x,hcount x,hfree₃]
        · refine .inr ⟨hfail,⟨va,pas.length⟩,rfl,fun x => ?_⟩
          rw [hlost,hfree₃,hcount x]
          by_cases hx : (⟨va,pas.length⟩ : WmVaRange).covers x = true
          · rw [if_pos hx,(hr.unused x hx).1,hx]
            simp
          · rw [if_neg hx,Nat.add_zero,Bool.eq_false_iff.mpr hx]
            simp
  · split at hi
    · simp only [Prod.mk.injEq] at hi
      obtain ⟨rfl,rfl,-⟩ := hi
      exact ⟨h,fun _ => .refl as _ ok,le_rfl,fun va hva => absurd hva (not_mem_none va)⟩
    -- the range is from the break
    next va as₁ halloc =>
    obtain ⟨rfl,has₁,hmax,h₁,hfresh⟩ := h.alloc halloc
    have hbytes : pas.length*pageSize % 2^64 = pas.length*pageSize := by
      unfold pageSize
      omega
    rw [hbytes] at has₁ hmax
    have hbrk₁ : as₁.mmapBrk = as.mmapBrk + pas.length*pageSize := by rw [has₁]
    have hr : Reserved as₁ as.mmapBrk pas.length := by
      refine ⟨h.brk.1,h.brk.2.1,hbrk₁.ge,fun x hx => ?_⟩
      obtain ⟨hle,hlt⟩ := covers_iff.mp hx
      dsimp only at hle hlt
      rw [has₁]
      exact hfresh x hle (by omega)
    split at hi
    · next as₂ m₂ hloop =>
      simp only [Prod.mk.injEq] at hi
      obtain ⟨rfl,rfl,-⟩ := hi
      obtain ⟨h₂,hbrk₂⟩ := (hr.install h₁ rfl hloop).1 rfl
      refine ⟨h₂,fun hnone => absurd hnone (some_ne_none _),by omega,fun w hw => ?_⟩
      obtain rfl : as.mmapBrk = w := some.inj hw
      exact ⟨hr.aligned,hr.low,hbrk₂ ▸ hr.high⟩
    · next k as₂ m₂ hloop =>
      simp only [Prod.mk.injEq] at hi
      obtain ⟨rfl,rfl,-⟩ := hi
      obtain ⟨-,honly,hstay,hentry⟩ := hr.install h₁ rfl hloop
      generalize AddressSpace.unmapWindow k as.mmapBrk as₂ = as₃ at honly hstay hentry
      have hback : (as₃.mmapBrk + 2^64 - pas.length*pageSize % 2^64) % 2^64 = as.mmapBrk := by
        have hbrk₃ : as₃.mmapBrk = as₁.mmapBrk := by rw [honly]
        have hle := h.brk.2.2
        unfold userMmapMax at hle
        rw [hbrk₃,hbrk₁,hbytes]
        omega
      have hfree : as₃.wmFreelist = as.wmFreelist := by rw [honly,has₁]
      have hvmas : as₃.vmas = as.vmas := by rw [honly,has₁]
      have hsame : as₁.l2 = as.l2 := by rw [has₁]
      have hentry' (j : Index) : as₃.entry j = as.entry j := by
        rw [hentry,has₁]
        rfl
      rw [hback]
      refine ⟨h.congr hfree hvmas rfl hentry',fun _ => ⟨fun k => ?_,rfl,.inl fun x => ?_⟩,le_rfl,
        fun va hva => absurd hva (not_mem_none va)⟩
      · have := tables_of_entries hstay hentry k
        rw [hsame] at this
        exact this
      · unfold FreeVa
        rw [← hfree]

lemma allWindow_spec (hall : as.allWindow n va = true) {j : Index} (hj : PageOf va n j) :
    (as.entry j).valid = true ∧ (as.entry j).wmWindow = true := by
  induction n generalizing va with
  | zero => exact absurd hj not_pageOf_zero
  | succ n ih =>
    rw [AddressSpace.allWindow,Bool.and_eq_true] at hall
    rcases pageOf_succ.mp hj with rfl | hj
    · obtain ⟨e,he,hflags⟩ := (Option.any_eq_true _ _).mp hall.1
      rw [entry_of_lookup he]
      rwa [Bool.and_eq_true] at hflags
    · exact ih hall.2 hj

lemma uninstallWmWindow_spec (h : Ordered as) (hva : va % pageSize = 0) (hlo : userMmapBase ≤ va)
    (hhi : va + n*pageSize ≤ as.mmapBrk) (ok : Bool) :
    Ordered (as.uninstallWmWindow va n ok).2 ∧ (as.uninstallWmWindow va n ok).2.mmapBrk = as.mmapBrk := by
  unfold AddressSpace.uninstallWmWindow
  split
  · exact ⟨h,rfl⟩
  next hn =>
  split
  · exact ⟨h,rfl⟩
  split
  · exact ⟨h,rfl⟩
  next hall =>
  have hall : as.allWindow n va = true := by simpa using hall
  have hmax := hhi.trans h.brk.2.2
  obtain ⟨honly,-,hout,hin⟩ := unmapWindow_spec n va as
  dsimp only
  generalize AddressSpace.unmapWindow n va as = as₁ at honly hout hin
  have hfree : as₁.wmFreelist = as.wmFreelist := by rw [honly]
  have hvmas : as₁.vmas = as.vmas := by rw [honly]
  have hbrk : as₁.mmapBrk = as.mmapBrk := by rw [honly]
  have h₁ : Ordered as₁ := by
    refine ⟨hfree ▸ h.spaced,hfree ▸ h.aligned,hvmas ▸ h.regions,hbrk ▸ h.brk,by rw [hfree,hvmas,hbrk]; exact h.once,
      fun x hxlo hxhi hx => ?_⟩
    have hp : ¬ PageOf va n (indexOf x) := fun hp => hx (hin _ hp)
    rw [hfree,hvmas,hbrk]
    rw [hout _ hp] at hx ⊢
    exact h.entries x hxlo hxhi hx
  have hr : Reserved as₁ va n := by
    refine ⟨hva,hlo,hbrk ▸ hhi,fun x hx => ?_⟩
    have hb := covers_iff.mp hx
    dsimp only at hb
    have hbounds : userMmapBase ≤ x ∧ x < userMmapMax := ⟨by omega,by omega⟩
    have hp : PageOf va n (indexOf x) := (pageOf_iff hva hlo hmax hbounds).mpr hx
    obtain ⟨hv,hw⟩ := allWindow_spec hall hp
    obtain ⟨-,-,hc,hreg⟩ := h.entries x hbounds.1 hbounds.2 fun hz => by rw [hz] at hv; cases hv
    rw [hfree,hvmas]
    exact ⟨hc,hreg hw,hin _ hp⟩
  obtain ⟨h₂,⟨rs,has₂⟩,-⟩ := hr.release h₁ (Nat.pos_of_ne_zero hn) ok
  exact ⟨h₂,by rw [has₂]; exact hbrk⟩

lemma mmapRegion_spec (h : Ordered as) (pages : ℕ) (ok : Bool) (v : ℕ → Vma)
    (hv : ∀ va, (v va).va = va ∧ (v va).len = pages*pageSize % 2^64) :
    Ordered (as.mmapRegion pages ok v).2 ∧ as.mmapBrk ≤ (as.mmapRegion pages ok v).2.mmapBrk := by
  unfold AddressSpace.mmapRegion
  cases hbrk : as.mmapBrkAlloc pages with
  | none => exact ⟨h,le_rfl⟩
  | some r =>
    obtain ⟨va,as₁⟩ := r
    obtain ⟨rfl,rfl,hmax,h₁,hfresh⟩ := h.alloc hbrk
    have hback : (as.mmapBrk + pages*pageSize % 2^64 + 2^64 - pages*pageSize % 2^64) % 2^64 = as.mmapBrk := by
      have hle := h.brk.2.2
      unfold userMmapMax at hle
      omega
    dsimp only
    split
    · dsimp only
      rw [hback]
      exact ⟨h.congr rfl rfl rfl fun _ => rfl,le_rfl⟩
    · obtain ⟨hva,hlen⟩ := hv as.mmapBrk
      have hmul : pages*pageSize % 2^64 % pageSize = 0 := by
        rw [Nat.mod_mod_of_dvd _ (by decide),Nat.mul_mod_left]
      refine ⟨⟨h₁.spaced,h₁.aligned,fun w hw => ?_,h₁.brk,fun x => ?_,fun x hlo hhi hx => ?_⟩,Nat.le_add_right _ _⟩
      · rcases mem_vmaInsertSorted _ _ _ hw with rfl | hw
        · rw [hva,hlen]
          exact ⟨h.brk.1,hmul⟩
        · exact h.regions w hw
      · have hone := h₁.once x
        dsimp only at hone ⊢
        rw [regionCount_insert]
        by_cases hx : (v as.mmapBrk).holds x = true
        · have hb := holds_iff.mp hx
          rw [hva,hlen] at hb
          obtain ⟨hf,hreg,-⟩ := hfresh x hb.1 (by omega)
          have hlow := h.brk.2.1
          rw [if_pos hx,hf,hreg,if_pos ⟨by omega,hb.2⟩]
        · rw [if_neg hx]
          exact hone
      · obtain ⟨hvalid,hb,hc,hw⟩ := h₁.entries x hlo hhi hx
        refine ⟨hvalid,hb,hc,fun hwm => ?_⟩
        dsimp only
        rw [regionCount_insert,hw hwm,if_neg]
        intro hxv
        have hxb := holds_iff.mp hxv
        rw [hva] at hxb
        exact hx (hfresh x hxb.1 hhi).2.2

lemma mmapAnon_ordered (h : Ordered as) (pages prot : ℕ) (ok : Bool) : Ordered (as.mmapAnon pages prot ok).2 ∧
    as.mmapBrk ≤ (as.mmapAnon pages prot ok).2.mmapBrk := by
  unfold AddressSpace.mmapAnon
  split
  · exact ⟨h,le_rfl⟩
  split
  · exact ⟨h,le_rfl⟩
  exact mmapRegion_spec h pages ok _ fun _ => ⟨rfl,rfl⟩

lemma mmapRamfs_ordered (h : Ordered as) (pages ramfsIndex fileOffset : ℕ) (ramfs : ℕ → Option Blob) (ok : Bool) :
    Ordered (as.mmapRamfs pages ramfsIndex fileOffset ramfs ok).2 ∧
      as.mmapBrk ≤ (as.mmapRamfs pages ramfsIndex fileOffset ramfs ok).2.mmapBrk := by
  unfold AddressSpace.mmapRamfs
  split
  · exact ⟨h,le_rfl⟩
  split
  · exact ⟨h,le_rfl⟩
  split
  · exact ⟨h,le_rfl⟩
  exact mmapRegion_spec h pages ok _ fun _ => ⟨rfl,rfl⟩

lemma vmaFind_spec {v : Vma} {vs : List Vma} (h : AddressSpace.vmaFind va vs = some v) : v ∈ vs ∧ v.holds va = true := by
  induction vs with
  | nil => cases h
  | cons w vs ih =>
    rw [AddressSpace.vmaFind] at h
    split at h
    · next hw =>
      obtain rfl := some.inj h
      exact ⟨mem_cons_self,holds_iff.mpr hw⟩
    · split at h
      · cases h
      · exact ⟨mem_cons_of_mem _ (ih h).1,(ih h).2⟩

lemma Ordered.fault (h : Ordered as) {v : Vma} (hv : AddressSpace.vmaFind va as.vmas = some v) (hva : va % pageSize = 0)
    (hl3 : as.l3For (indexOf va).1 m = some (as₁,m')) {e : Desc} (he : e.valid = true ∧ e.wmWindow = false) :
    Ordered (as₁.setEntry (indexOf va) e).onePageMore ∧ as₁.mmapBrk = as.mmapBrk := by
  obtain ⟨hmem,hholds⟩ := vmaFind_spec hv
  obtain ⟨htab,hentry,-,honly⟩ := l3For_stays hl3
  have hfree : as₁.wmFreelist = as.wmFreelist := by rw [honly]
  have hvmas : as₁.vmas = as.vmas := by rw [honly]
  have hbrk : as₁.mmapBrk = as.mmapBrk := by rw [honly]
  have hset (j : Index) : (as₁.setEntry (indexOf va) e).onePageMore.entry j = if j = indexOf va then e else as₁.entry j :=
    entry_setEntry htab j
  refine ⟨⟨?_,?_,?_,?_,?_,fun x hlo hhi hx => ?_⟩,hbrk⟩
  · exact (hfree ▸ h.spaced : Spaced as₁.wmFreelist)
  · exact (hfree ▸ h.aligned : ∀ r ∈ as₁.wmFreelist, r.va % pageSize = 0)
  · exact (hvmas ▸ h.regions : ∀ v ∈ as₁.vmas, v.va % pageSize = 0 ∧ v.len % pageSize = 0)
  · exact (hbrk ▸ h.brk : as₁.mmapBrk % pageSize = 0 ∧ userMmapBase ≤ as₁.mmapBrk ∧ as₁.mmapBrk ≤ userMmapMax)
  · change ∀ x, coverCount as₁.wmFreelist x + regionCount as₁.vmas x ≤ if userMmapBase ≤ x ∧ x < as₁.mmapBrk then 1 else 0
    rw [hfree,hvmas,hbrk]
    exact h.once
  · change _ ∧ x < as₁.mmapBrk ∧ coverCount as₁.wmFreelist x = 0 ∧ (_ → regionCount as₁.vmas x = 0)
    rw [hset] at hx ⊢
    rw [hfree,hvmas,hbrk]
    by_cases hj : indexOf x = indexOf va
    · have hb := holds_iff.mp hholds
      obtain ⟨hval,hlen⟩ := h.regions v hmem
      have hin := h.inside (x := va) (Nat.add_pos_right _ (regionCount_pos hmem hholds))
      have hmax := h.brk.2.2
      have hpage := indexOf_inj (by unfold userMmapBase userMmapMax userVaBase userVaEnd at *; omega)
        (by unfold userMmapBase userMmapMax userVaBase userVaEnd at *; omega) hj
      have hxv : v.holds x = true := holds_iff.mpr (by unfold pageSize at *; omega)
      have hpos := regionCount_pos hmem hxv
      have hone := h.once x
      have hxin := h.inside (x := x) (Nat.add_pos_right _ hpos)
      rw [if_pos hxin] at hone
      rw [if_pos hj]
      exact ⟨he.1,hxin.2,by omega,fun hw => by rw [he.2] at hw; cases hw⟩
    · rw [if_neg hj,hentry] at hx ⊢
      exact h.entries x hlo hhi hx

lemma handleMmapFault_ordered (h : Ordered as) (faultVa : ℕ) (isWrite : Bool) (mem : Mem) :
    Ordered (as.handleMmapFault faultVa isWrite mem).2.1 ∧
      (as.handleMmapFault faultVa isWrite mem).2.1.mmapBrk = as.mmapBrk := by
  have hal : faultVa/pageSize*pageSize % pageSize = 0 := Nat.mul_mod_left _ _
  unfold AddressSpace.handleMmapFault
  dsimp only
  generalize faultVa/pageSize*pageSize = va at hal
  split
  · exact ⟨h,rfl⟩
  split
  · exact ⟨h,rfl⟩
  next v hv =>
  split
  · exact ⟨h,rfl⟩
  split
  · exact ⟨h,rfl⟩
  split
  · split
    · exact ⟨h,rfl⟩
    split
    · exact ⟨h,rfl⟩
    next as₁ m₁ hl3 => exact h.fault hv hal hl3 ⟨rfl,rfl⟩
  · split
    · exact ⟨h,rfl⟩
    split
    · exact ⟨h,rfl⟩
    next as₁ m₁ hl3 => exact h.fault hv hal hl3 ⟨rfl,rfl⟩

lemma Ordered.replace (h : Ordered as) {i : Index} {d e : Desc} (hlook : as.entryLookup i = some d) (hd : d.valid = true)
    (he : e.valid = true ∧ e.wmWindow = false) : Ordered (as.setEntry i e) := by
  have htab : as.l2 i.1 ≠ none := by
    intro hl
    unfold AddressSpace.entryLookup at hlook
    rw [hl] at hlook
    cases hlook
  refine ⟨h.spaced,h.aligned,h.regions,h.brk,h.once,fun x hlo hhi hx => ?_⟩
  rw [entry_setEntry htab] at hx ⊢
  by_cases hj : indexOf x = i
  · have hne : as.entry (indexOf x) ≠ .zero := by
      rw [hj,entry_of_lookup hlook]
      rintro rfl
      cases hd
    obtain ⟨-,hb,hc,-⟩ := h.entries x hlo hhi hne
    rw [if_pos hj]
    exact ⟨he.1,hb,hc,fun hw => by rw [he.2] at hw; cases hw⟩
  · rw [if_neg hj] at hx ⊢
    exact h.entries x hlo hhi hx

lemma handleCowFault_ordered (h : Ordered as) (faultVa : ℕ) (m : Pmem) : Ordered (as.handleCowFault faultVa m).2.1 ∧
    (as.handleCowFault faultVa m).2.1.mmapBrk = as.mmapBrk := by
  unfold AddressSpace.handleCowFault
  dsimp only
  split
  · exact ⟨h,rfl⟩
  split
  · exact ⟨h,rfl⟩
  next e hlook =>
  split
  · exact ⟨h,rfl⟩
  next hvalid =>
  have hvalid : e.valid = true := by simpa using hvalid
  split
  · exact ⟨h,rfl⟩
  split
  · exact ⟨h,rfl⟩
  split
  · exact ⟨h.replace hlook hvalid ⟨rfl,rfl⟩,rfl⟩
  split
  · exact ⟨h,rfl⟩
  · exact ⟨h.replace hlook hvalid ⟨rfl,rfl⟩,rfl⟩

lemma munmap_ordered (h : Ordered as) (va : ℕ) (mem : Mem) : Ordered (as.munmap va mem).2.1 ∧
    (as.munmap va mem).2.1.mmapBrk = as.mmapBrk := by
  unfold AddressSpace.munmap
  split
  · exact ⟨h,rfl⟩
  next v hfind =>
  obtain ⟨hv,pre,post,hsplit,hpre⟩ := List.find?_eq_some_iff_append.mp hfind
  have herase : (as.vmas.eraseP fun v => v.va == va) = pre ++ post := by
    rw [hsplit,eraseP_append_right _ fun w hw => by simpa using hpre w hw,
      eraseP_cons_of_pos (p := fun v : Vma => v.va == va) hv]
  have hcount (x : ℕ) : regionCount (pre ++ post) x ≤ regionCount as.vmas x := by
    rw [hsplit]
    exact (List.Sublist.append_left (sublist_cons_self v post) pre).countP_le
  rw [herase]
  dsimp only
  obtain ⟨honly,hout⟩ := munmapLoop_spec ((v.len + pageSize - 1)/pageSize) v.va { as with vmas := pre ++ post } mem
  generalize (AddressSpace.unmapLoop ((v.len + pageSize - 1)/pageSize) v.va { as with vmas := pre ++ post } mem).1 = as₁
    at honly hout
  have hfree : as₁.wmFreelist = as.wmFreelist := by rw [honly]
  have hvmas : as₁.vmas = pre ++ post := by rw [honly]
  have hbrk : as₁.mmapBrk = as.mmapBrk := by rw [honly]
  refine ⟨⟨hfree ▸ h.spaced,hfree ▸ h.aligned,fun w hw => h.regions w ?_,hbrk ▸ h.brk,fun x => ?_,fun x hlo hhi hx => ?_⟩,hbrk⟩
  · rw [hvmas] at hw
    rw [hsplit]
    exact (List.Sublist.append_left (sublist_cons_self v post) pre).subset hw
  · rw [hfree,hvmas,hbrk]
    exact (Nat.add_le_add_left (hcount x) _).trans (h.once x)
  · have hsame : as₁.entry (indexOf x) = as.entry (indexOf x) := (hout _).resolve_right hx
    rw [hsame] at hx ⊢
    rw [hfree,hvmas,hbrk]
    obtain ⟨hv,hb,hc,hw⟩ := h.entries x hlo hhi hx
    exact ⟨hv,hb,hc,fun hwm => Nat.eq_zero_of_le_zero ((hcount x).trans (hw hwm).le)⟩

end Views

structure WindowSpace where
  as : AddressSpace
  windows : List WmVaRange

/-- The physical addresses of the pages of a window. The array has a place among the addresses of
39 bits that `TCR_EL1` gives. -/
abbrev PageArray := { pas : List ℕ // 8*pas.length ≤ 2^39 }

inductive WindowCall
  | install (pages : PageArray) (kmallocOk : Bool) (m : Pmem)
  | uninstall (k : ℕ) (kmallocOk : Bool)
  | mmapAnon (pages prot : ℕ) (kmallocOk : Bool)
  | mmapRamfs (pages ramfsIndex fileOffset : ℕ) (ramfs : ℕ → Option Blob) (kmallocOk : Bool)
  | mmapFault (va : ℕ) (isWrite : Bool) (mem : Mem)
  | cowFault (va : ℕ) (m : Pmem)
  | munmap (va : ℕ) (mem : Mem)

namespace WindowSpace

/-- A call, and whether it succeeds. The memory is what other programs have left of it; a window
that is uninstalled is one that was installed, maybe one that is gone already. -/
def step (s : WindowSpace) : WindowCall → Option (Bool × WindowSpace)
  | .install pages kmallocOk m =>
    match s.as.installWmWindow pages.1 kmallocOk m with
    | (some va,as,_) => some (true,⟨as,⟨va,pages.1.length⟩ :: s.windows⟩)
    | (none,as,_) => some (false,{ s with as := as })
  | .uninstall k kmallocOk =>
    s.windows[k]?.map fun w =>
      let (ok,as) := s.as.uninstallWmWindow w.va w.nPages kmallocOk
      (ok,{ s with as := as })
  | .mmapAnon pages prot kmallocOk =>
    let (va,as) := s.as.mmapAnon pages prot kmallocOk
    some (va != 0,{ s with as := as })
  | .mmapRamfs pages ramfsIndex fileOffset ramfs kmallocOk =>
    let (va,as) := s.as.mmapRamfs pages ramfsIndex fileOffset ramfs kmallocOk
    some (va != 0,{ s with as := as })
  | .mmapFault va isWrite mem =>
    let (ok,as,_) := s.as.handleMmapFault va isWrite mem
    some (ok,{ s with as := as })
  | .cowFault va m =>
    let (ok,as,_) := s.as.handleCowFault va m
    some (ok,{ s with as := as })
  | .munmap va mem =>
    let (ok,as,_) := s.as.munmap va mem
    some (ok,{ s with as := as })

/-- An address space that `address_space_create` made, with any program below its mmap region. -/
structure Start (s : WindowSpace) : Prop where
  windows : s.windows = []
  free : s.as.wmFreelist = []
  regions : s.as.vmas = []
  brk : s.as.mmapBrk = userMmapBase
  empty : ∀ x, userMmapBase ≤ x → x < userMmapMax → s.as.entry (indexOf x) = .zero

/-- The free list is in order, without ranges that touch or overlap, and nothing is mapped in it. -/
structure FreelistSound (as : AddressSpace) : Prop where
  sorted : as.wmFreelist.Pairwise fun a b => a.va < b.va ∧ a.va + a.nPages*pageSize < b.va
  inside : ∀ r ∈ as.wmFreelist, 0 < r.nPages ∧ userMmapBase ≤ r.va ∧ r.va + r.nPages*pageSize ≤ as.mmapBrk
  unmapped : ∀ r ∈ as.wmFreelist, ∀ x, r.covers x = true →
    (as.entry (indexOf x)).valid = false ∧ ∀ v ∈ as.vmas, v.holds x = false

structure Kept (s : WindowSpace) : Prop where
  ordered : Ordered s.as
  windows : ∀ w ∈ s.windows, w.va % pageSize = 0 ∧ userMmapBase ≤ w.va ∧ w.va + w.nPages*pageSize ≤ s.as.mmapBrk

section Steps
variable {s t : WindowSpace} {c : WindowCall} {r : Bool}

lemma Start.kept (h : s.Start) : s.Kept := by
  refine ⟨⟨?_,?_,?_,?_,fun x => ?_,fun x hlo hhi hx => absurd (h.empty x hlo hhi) hx⟩,fun w hw => ?_⟩
  · rw [h.free]
    exact ⟨fun r hr => absurd hr not_mem_nil,.nil⟩
  · rw [h.free]
    exact fun r hr => absurd hr not_mem_nil
  · rw [h.regions]
    exact fun v hv => absurd hv not_mem_nil
  · rw [h.brk]
    decide
  · rw [h.free,h.regions]
    exact Nat.zero_le _
  · rw [h.windows] at hw
    exact absurd hw not_mem_nil

lemma Kept.onward {as : AddressSpace} (h : s.Kept) (has : Ordered as ∧ s.as.mmapBrk ≤ as.mmapBrk) : Kept { s with as := as } :=
  ⟨has.1,fun w hw => ⟨(h.windows w hw).1,(h.windows w hw).2.1,(h.windows w hw).2.2.trans has.2⟩⟩

lemma step_kept (h : s.Kept) (hs : s.step c = some (r,t)) : t.Kept := by
  cases c with
  | install pages ok m =>
    rw [step] at hs
    rcases hi : s.as.installWmWindow pages.1 ok m with ⟨w,as,m'⟩
    obtain ⟨h',-,hbrk,hva⟩ := installWmWindow_spec h.ordered pages.2 ok hi
    rw [hi] at hs
    cases w with
    | none =>
      obtain ⟨-,rfl⟩ := Prod.mk.inj (some.inj hs)
      exact h.onward ⟨h',hbrk⟩
    | some va =>
      obtain ⟨-,rfl⟩ := Prod.mk.inj (some.inj hs)
      refine ⟨h',fun w hw => ?_⟩
      rcases List.mem_cons.mp hw with rfl | hw
      · exact hva va rfl
      · exact (h.onward ⟨h',hbrk⟩).windows w hw
  | uninstall k ok =>
    obtain ⟨w,hw,hstep⟩ := Option.map_eq_some_iff.mp hs
    obtain ⟨-,rfl⟩ := Prod.mk.inj hstep
    obtain ⟨hal,hlo,hhi⟩ := h.windows w (mem_of_getElem? hw)
    obtain ⟨h',hbrk⟩ := uninstallWmWindow_spec h.ordered hal hlo hhi ok
    exact h.onward ⟨h',hbrk.ge⟩
  | mmapAnon pages prot ok =>
    obtain ⟨-,rfl⟩ := Prod.mk.inj (some.inj hs)
    exact h.onward (mmapAnon_ordered h.ordered pages prot ok)
  | mmapRamfs pages ramfsIndex fileOffset ramfs ok =>
    obtain ⟨-,rfl⟩ := Prod.mk.inj (some.inj hs)
    exact h.onward (mmapRamfs_ordered h.ordered pages ramfsIndex fileOffset ramfs ok)
  | mmapFault va isWrite mem =>
    obtain ⟨-,rfl⟩ := Prod.mk.inj (some.inj hs)
    obtain ⟨h',hbrk⟩ := handleMmapFault_ordered h.ordered va isWrite mem
    exact h.onward ⟨h',hbrk.ge⟩
  | cowFault va m =>
    obtain ⟨-,rfl⟩ := Prod.mk.inj (some.inj hs)
    obtain ⟨h',hbrk⟩ := handleCowFault_ordered h.ordered va m
    exact h.onward ⟨h',hbrk.ge⟩
  | munmap va mem =>
    obtain ⟨-,rfl⟩ := Prod.mk.inj (some.inj hs)
    obtain ⟨h',hbrk⟩ := munmap_ordered h.ordered va mem
    exact h.onward ⟨h',hbrk.ge⟩

lemma Kept.sound (h : s.Kept) : FreelistSound s.as := by
  refine ⟨h.ordered.spaced.apart.imp fun hab => ⟨by omega,hab⟩,fun q hq => ⟨h.ordered.spaced.pos q hq,h.ordered.range hq⟩,
    fun q hq x hx => ?_⟩
  have hpos := coverCount_pos hq hx
  have hin := h.ordered.inside (x := x) (Nat.add_pos_left hpos _)
  have hmax := h.ordered.brk.2.2
  constructor
  · by_contra hv
    have hne : s.as.entry (indexOf x) ≠ .zero := fun hz => hv (by rw [hz]; rfl)
    have := (h.ordered.entries x hin.1 (by omega) hne).2.2.1
    omega
  · intro v hv
    by_contra hx
    have hone := h.ordered.once x
    rw [if_pos hin] at hone
    have := regionCount_pos hv (by simpa using hx)
    omega

end Steps

def fresh : WindowSpace := ⟨⟨0x1000,0x2000,fun _ => none,0,userHeapBase,[],userMmapBase,[],1⟩,[]⟩

end WindowSpace
end VibeOS.Memory

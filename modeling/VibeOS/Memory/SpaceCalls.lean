import VibeOS.Memory.Entries

/-! What the calls of `address_space.c` that map, grow, shrink and unmap do to the accounts. -/
namespace VibeOS.Memory
open Function
open VibeOS.Storage

/-- Every page that is mapped is the address space's own. -/
def Plain (as : AddressSpace) : Prop := ∀ i, (as.entry i).valid = true → (as.entry i).frame = some (as.entry i).pa

variable {tight : Prop} {m m' : Pmem} {spaces : Spaces} {held : ℕ → Bool} {as as' src dst : AddressSpace}
  {a b f pa va n target : ℕ} {i j : Index} {d e : Desc}

namespace Plain

lemma congr (h : Plain as) (hentry : ∀ j, as'.entry j = as.entry j) : Plain as' :=
  fun j hj => by rw [hentry] at hj ⊢; exact h j hj

lemma update (h : Plain as) (hentry : ∀ j, as'.entry j = if j = i then d else as.entry j)
    (hd : d.valid = true → d.frame = some d.pa) : Plain as' := by
  intro j hj
  rw [hentry] at hj ⊢
  split at hj
  next heq => rw [if_pos heq]; exact hd hj
  next hne => rw [if_neg hne]; exact h j hj

end Plain

lemma Accounted.same (h : Accounted tight m spaces held) (ha : spaces a = some as) :
    Accounted tight m (update spaces a (some as)) held := by
  rw [update_eq_self_iff.mpr ha.symm]
  exact h

lemma Accounted.mapPage (h : Accounted tight m spaces held) (ha : spaces a = some as) (hheld : held pa = true)
    (hw : ¬ Windowed spaces pa) (hold : tight → ∀ f, (as.entry i).frame = some f → m.rc f ≤ 1) (hd : d.frame = some pa) :
    as.l3For i.1 m = none ∨ ∃ as₁ m₁, as.l3For i.1 m = some (as₁,m₁) ∧
      Accounted tight m₁ (update spaces a (some (as₁.setEntry i d).onePageMore)) (update held pa false) ∧
        m₁.rc = m.rc ∧ (∀ j, (as₁.setEntry i d).onePageMore.entry j = if j = i then d else as.entry j) ∧ as₁.vmas = as.vmas := by
  rcases h.l3For ha i.1 with hnone | ⟨as₁,m₁,hl3,h₁,-,hrc,ht,hentry,hfields⟩
  · exact .inl hnone
  have hsame := SameEntries.update ha hentry
  have hplace := (h₁.place (update_self _ _ _) ht hheld (fun hno => hw (hsame.windowed hno))
    (fun htight f hf => by rw [hrc]; exact hold htight f (hentry i ▸ hf)) hd).1
  rw [update_idem] at hplace
  have hmore := (hplace.fields (as₁.setEntry i d).onePageMore (update_self _ _ _) ⟨rfl,rfl,rfl⟩).1
  rw [update_idem] at hmore
  refine .inr ⟨as₁,m₁,hl3,hmore,hrc,fun j => ?_,by rw [hfields]⟩
  show (as₁.setEntry i d).entry j = _
  rw [entry_setEntry ht,hentry]

lemma Windowed.of_update (h : Windowed (update spaces a (some as')) pa) (ha : spaces a = some as)
    (hentry : ∀ j, as'.entry j = if j = i then d else as.entry j) (hd : d.valid = true → d.frame ≠ none) :
    Windowed spaces pa := by
  obtain ⟨c,as₁,j,hc,hvalid,hframe,hrest⟩ := h
  by_cases hca : c = a
  · subst hca
    rw [update_self,Option.some.injEq] at hc
    subst hc
    rw [hentry] at hvalid hframe hrest
    split at hvalid
    next heq => rw [if_pos heq] at hframe; exact absurd hframe (hd hvalid)
    next hne =>
      rw [if_neg hne] at hframe hrest
      exact ⟨c,as,j,ha,hvalid,hframe,hrest⟩
  · rw [update_of_ne hca] at hc
    exact ⟨c,as₁,j,hc,hvalid,hframe,hrest⟩

lemma rc_le_one_of_entry (h : Accounted tight m spaces held) (hheld : held pa = true)
    (hentry : ∀ j, as'.entry j = if j = i then d else as.entry j) (hd : d.frame = some pa)
    (hold : ∀ f, (as.entry j).frame = some f → m.rc f ≤ 1) (hf : (as'.entry j).frame = some f) : m.rc f ≤ 1 := by
  rw [hentry] at hf
  split at hf
  · rw [hd,Option.some.injEq] at hf
    subst hf
    rw [h.books.alone (.kernel pa) pa trivial (by simp [holds,hheld])]
    exact Nat.zero_le 1
  · exact hold f hf

lemma mapLoop_spec (w x : Bool) (n va pa : ℕ) (h : Accounted tight m spaces held) (ha : spaces a = some as)
    (hheld : ∀ k, k < n → held (pa + k*pageSize) = true) (hw : ∀ k, k < n → ¬ Windowed spaces (pa + k*pageSize))
    (hold : tight → ∀ k, k < n → ∀ f, (as.entry (indexOf (va + k*pageSize))).frame = some f → m.rc f ≤ 1) :
    ∃ ok as' m' held', AddressSpace.mapLoop w x n va pa as m = (ok,as',m') ∧
      Accounted tight m' (update spaces a (some as')) held' ∧ (Plain as → Plain as') ∧ as'.vmas = as.vmas ∧
        ∀ f, held f = true → (∀ k, k < n → f ≠ pa + k*pageSize) → held' f = true := by
  induction n generalizing va pa as m spaces held with
  | zero => exact ⟨true,as,m,held,rfl,h.same ha,id,rfl,fun f hf _ => hf⟩
  | succ n ih =>
    have hnext (v k : ℕ) : v + pageSize + k*pageSize = v + (k + 1)*pageSize := by rw [Nat.succ_mul]; omega
    have hheld₀ := hheld 0 (Nat.succ_pos n)
    have hw₀ := hw 0 (Nat.succ_pos n)
    have hold₀ := fun ht => hold ht 0 (Nat.succ_pos n)
    rw [Nat.zero_mul,Nat.add_zero] at hheld₀ hw₀
    simp only [Nat.zero_mul,Nat.add_zero] at hold₀
    unfold AddressSpace.mapLoop
    rcases h.mapPage ha hheld₀ hw₀ hold₀ (frame_page pa w x) with hnone | ⟨as₁,m₁,hl3,h₁,hrc,hentry,hvmas⟩
    · rw [hnone]
      exact ⟨false,as,m,held,rfl,h.same ha,id,rfl,fun f hf _ => hf⟩
    · rw [hl3]
      have hstill (k : ℕ) (hk : k < n) : update held pa false (pa + pageSize + k*pageSize) = true := by
        rw [hnext,update_of_ne (by rw [Nat.succ_mul]; unfold pageSize; omega)]
        exact hheld (k + 1) (by omega)
      have hwindow (k : ℕ) (hk : k < n) :
          ¬ Windowed (update spaces a (some (as₁.setEntry (indexOf va) (.page pa w x)).onePageMore))
            (pa + pageSize + k*pageSize) := by
        intro hno
        rw [hnext] at hno
        exact hw (k + 1) (by omega) (hno.of_update ha hentry fun _ => nofun)
      obtain ⟨ok,as',m',held',heq,h',hplain,hv,hrest⟩ := ih (va + pageSize) (pa + pageSize) h₁ (update_self _ _ _)
        hstill hwindow fun ht k hk f hf => by
          rw [hrc]
          rw [hnext] at hf
          exact rc_le_one_of_entry h hheld₀ hentry (frame_page pa w x) (hold ht (k + 1) (by omega)) hf
      rw [update_idem] at h'
      refine ⟨ok,as',m',held',heq,h',fun hp => hplain (hp.update hentry fun _ => rfl),hv.trans hvmas,fun f hf hne => ?_⟩
      have hf₀ : f ≠ pa := by simpa using hne 0 (Nat.succ_pos n)
      refine hrest f (by rw [update_of_ne hf₀]; exact hf) fun k hk => ?_
      rw [hnext]
      exact hne (k + 1) (by omega)

lemma map_one (va : ℕ) (h : Accounted tight m spaces (update held pa true)) (ha : spaces a = some as)
    (hw : ¬ Windowed spaces pa) (hnew : held pa = false)
    (hold : tight → ∀ f, (as.entry (indexOf va)).frame = some f → m.rc f ≤ 1) :
    as.map va pa 1 true false m = (false,as,m) ∨ ∃ as₁ m₁, as.map va pa 1 true false m = (true,as₁,m₁) ∧
      Accounted tight m₁ (update spaces a (some as₁)) held ∧ m₁.rc = m.rc ∧
        (∀ j, as₁.entry j = if j = indexOf va then .page pa true false else as.entry j) ∧ as₁.vmas = as.vmas := by
  unfold AddressSpace.map
  split
  next => exact .inl rfl
  next =>
    unfold AddressSpace.mapLoop
    rcases h.mapPage ha (update_self _ _ _) hw hold (frame_page pa true false) with
      hnone | ⟨as₁,m₁,hl3,h₁,hrc,hentry,hvmas⟩
    · rw [hnone]
      exact .inl rfl
    · rw [hl3]
      have hback : update held pa false = held := update_eq_self_iff.mpr hnew.symm
      refine .inr ⟨_,m₁,rfl,?_,hrc,hentry,hvmas⟩
      rwa [update_idem,hback] at h₁

lemma growHeap_spec (n va : ℕ) (h : Accounted tight m spaces held) (ha : spaces a = some as)
    (hold : tight → ∀ k, k < n → ∀ f, (as.entry (indexOf (va + k*pageSize))).frame = some f → m.rc f ≤ 1) :
    ∃ ok as' m', AddressSpace.growHeap n va as m = (ok,as',m') ∧
      Accounted tight m' (update spaces a (some as')) held ∧ (Plain as → Plain as') ∧ as'.vmas = as.vmas := by
  induction n generalizing va as m spaces with
  | zero => exact ⟨true,as,m,rfl,h.same ha,id,rfl⟩
  | succ n ih =>
    have hnext (k : ℕ) : va + pageSize + k*pageSize = va + (k + 1)*pageSize := by rw [Nat.succ_mul]; omega
    have hold₀ := fun ht => hold ht 0 (Nat.succ_pos n)
    simp only [Nat.zero_mul,Nat.add_zero] at hold₀
    unfold AddressSpace.growHeap
    rcases h.alloc with hnone | ⟨pa,m₁,halloc,hne,hnew,hw,h₁,-,hrc₁,-⟩
    · rw [hnone]
      exact ⟨false,as,m,rfl,h.same ha,id,rfl⟩
    · rw [halloc]
      dsimp only
      rw [if_neg hne]
      rcases map_one va h₁ ha hw hnew (fun ht f hf => by rw [hrc₁]; exact hold₀ ht f hf) with
        hfail | ⟨as₂,m₂,hmap,h₂,hrc₂,hentry,hvmas⟩
      · rw [hfail]
        have hback := (h₁.free_kernel (update_self _ _ _) hw).1
        rw [update_idem,update_eq_self_iff.mpr hnew.symm] at hback
        exact ⟨false,as,_,rfl,hback.same ha,id,rfl⟩
      · rw [hmap]
        obtain ⟨ok,as',m',heq,h',hplain,hv⟩ := ih (va + pageSize) h₂ (update_self _ _ _) fun ht k hk f hf => by
          rw [hrc₂]
          rw [hnext] at hf
          refine rc_le_one_of_entry h₁ (update_self _ _ _) hentry (frame_page pa true false) ?_ hf
          intro g hg
          rw [hrc₁]
          exact hold ht (k + 1) (by omega) g hg
        rw [update_idem] at h'
        exact ⟨ok,as',m',heq,h',fun hp => hplain (hp.update hentry fun _ => rfl),hv.trans hvmas⟩

lemma Accounted.unmapPage (h : Accounted tight m spaces held) (ha : spaces a = some as) (hf : (as.entry i).frame = some f) :
    Accounted tight (m.decAndFree f) (update spaces a (some (as.setEntry i .zero).onePageLess)) held := by
  have hless := ((h.clear ha hf).1.fields (as.setEntry i .zero).onePageLess (update_self _ _ _)
    ⟨rfl,rfl,rfl⟩).1
  rwa [update_idem] at hless

lemma Plain.unmapPage (h : Plain as) (hf : (as.entry i).frame = some f) : Plain (as.setEntry i .zero).onePageLess :=
  h.update (i := i) (d := .zero) (entry_setEntry (table_of_frame hf)) nofun

lemma shrinkHeap_spec (n va : ℕ) (h : Accounted tight m spaces held) (ha : spaces a = some as) (hp : Plain as) :
    ∃ as' m', AddressSpace.shrinkHeap n va as m = (as',m') ∧
      Accounted tight m' (update spaces a (some as')) held ∧ Plain as' ∧ as'.vmas = as.vmas := by
  induction n generalizing va as m spaces with
  | zero => exact ⟨as,m,rfl,h.same ha,hp,rfl⟩
  | succ n ih =>
    unfold AddressSpace.shrinkHeap
    cases hlook : as.entryLookup (indexOf va) with
    | none => exact ih (va + pageSize) h ha hp
    | some e =>
      dsimp only
      cases hvalid : e.valid with
      | false => exact ih (va + pageSize) h ha hp
      | true =>
        have hentry := entry_of_lookup hlook
        have hf := hp (indexOf va) (hentry ▸ hvalid)
        rw [hentry] at hf
        have hframe : (as.entry (indexOf va)).frame = some e.pa := hentry ▸ hf
        obtain ⟨as',m',heq,h',hp',hv⟩ := ih (va + pageSize) (h.unmapPage ha hframe) (update_self _ _ _)
          (hp.unmapPage hframe)
        rw [update_idem] at h'
        exact ⟨as',m',heq,h',hp',hv⟩

/-- The growing `address_space_set_brk` maps its pages where nothing is, or what the address space
has there it does not share. -/
def AddressSpace.NoSharedOverwrite (as : AddressSpace) (newBrk : ℕ) (m : Pmem) : Prop :=
  ∀ k f, as.heapBrk + k*pageSize < brkTarget newBrk → brkTarget newBrk ≤ userHeapMax →
    (as.entry (indexOf (as.heapBrk + k*pageSize))).frame = some f → m.rc f ≤ 1

lemma setBrk_spec (newBrk : ℕ) (h : Accounted tight m spaces held) (ha : spaces a = some as) (hp : Plain as)
    (hold : tight → as.NoSharedOverwrite newBrk m) : ∃ ok as' m', as.setBrk newBrk m = (ok,as',m') ∧
      Accounted tight m' (update spaces a (some as')) held ∧ Plain as' ∧ as'.vmas = as.vmas := by
  have hbrk {as₁ : AddressSpace} {m₁ : Pmem} (h₁ : Accounted tight m₁ (update spaces a (some as₁)) held) :
      Accounted tight m₁ (update spaces a (some { as₁ with heapBrk := AddressSpace.brkTarget newBrk })) held := by
    have hfields := (h₁.fields { as₁ with heapBrk := AddressSpace.brkTarget newBrk }
      (update_self _ _ _) ⟨rfl,rfl,rfl⟩).1
    rwa [update_idem] at hfields
  unfold AddressSpace.setBrk
  dsimp only
  split
  next => exact ⟨false,as,m,rfl,h.same ha,hp,rfl⟩
  next hmax =>
    split
    next hgrow =>
      have hroom (ht : tight) (k : ℕ) (hk : k < (AddressSpace.brkTarget newBrk - as.heapBrk + pageSize - 1)/pageSize)
          (f : ℕ) (hf : (as.entry (indexOf (as.heapBrk + k*pageSize))).frame = some f) : m.rc f ≤ 1 := by
        refine hold ht k f ?_ (by omega) hf
        unfold pageSize at hk ⊢
        omega
      obtain ⟨ok,as',m',heq,h',hplain,hv⟩ := growHeap_spec _ as.heapBrk h ha hroom
      rw [heq]
      cases ok with
      | false => exact ⟨false,as',m',rfl,h',hplain hp,hv⟩
      | true => exact ⟨true,_,m',rfl,hbrk h',hplain hp,hv⟩
    next =>
      obtain ⟨as',m',heq,h',hp',hv⟩ := shrinkHeap_spec
        ((as.heapBrk - AddressSpace.brkTarget newBrk + pageSize - 1)/pageSize) (AddressSpace.brkTarget newBrk) h ha hp
      rw [heq]
      exact ⟨true,_,m',rfl,hbrk h',hp',hv⟩

def AllAnon (as : AddressSpace) : Prop := ∀ v ∈ as.vmas, v.kind = .anon

lemma mem_vmaInsertSorted (v w : Vma) (vs : List Vma) (h : w ∈ AddressSpace.vmaInsertSorted v vs) : w = v ∨ w ∈ vs := by
  induction vs with
  | nil => exact .inl (List.mem_singleton.mp h)
  | cons u vs ih =>
    unfold AddressSpace.vmaInsertSorted at h
    split at h
    · rcases List.mem_cons.mp h with rfl | h
      · exact .inr List.mem_cons_self
      · exact (ih h).imp_right (List.mem_cons_of_mem _)
    · exact List.mem_cons.mp h

lemma mem_of_vmaFind {v : Vma} {vs : List Vma} (h : AddressSpace.vmaFind va vs = some v) : v ∈ vs := by
  induction vs with
  | nil => cases h
  | cons w vs ih =>
    unfold AddressSpace.vmaFind at h
    split at h
    · exact Option.some.inj h ▸ List.mem_cons_self
    · split at h
      · cases h
      · exact List.mem_cons_of_mem _ (ih h)

structure OnlyRegion (as as' : AddressSpace) : Prop where
  tables : as'.l1Pa = as.l1Pa ∧ as'.l2Pa = as.l2Pa ∧ as'.l2 = as.l2
  anon : AllAnon as → AllAnon as'

namespace OnlyRegion

lemma refl (as : AddressSpace) : OnlyRegion as as := ⟨⟨rfl,rfl,rfl⟩,id⟩

lemma trans {as₁ as₂ as₃ : AddressSpace} (h : OnlyRegion as₁ as₂) (h' : OnlyRegion as₂ as₃) : OnlyRegion as₁ as₃ :=
  ⟨⟨h'.tables.1.trans h.tables.1,h'.tables.2.1.trans h.tables.2.1,h'.tables.2.2.trans h.tables.2.2⟩,h'.anon ∘ h.anon⟩

lemma moveBrk (as : AddressSpace) (top : ℕ) : OnlyRegion as { as with mmapBrk := top } := ⟨⟨rfl,rfl,rfl⟩,id⟩

lemma insert (as : AddressSpace) (v : Vma) (hv : v.kind = .anon) :
    OnlyRegion as { as with vmas := AddressSpace.vmaInsertSorted v as.vmas } := by
  refine ⟨⟨rfl,rfl,rfl⟩,fun h w hw => ?_⟩
  rcases mem_vmaInsertSorted _ _ _ hw with rfl | hw
  · exact hv
  · exact h w hw

lemma entry (h : OnlyRegion as as') (j : Index) : as'.entry j = as.entry j := by
  unfold AddressSpace.entry AddressSpace.entryLookup
  rw [h.tables.2.2]

end OnlyRegion

lemma mmapBrkAlloc_eq {pages : ℕ} (h : as.mmapBrkAlloc pages = some (va,as')) :
    va = as.mmapBrk ∧ ∃ top, as' = { as with mmapBrk := top } := by
  unfold AddressSpace.mmapBrkAlloc at h
  dsimp only at h
  split_ifs at h
  obtain ⟨hva,has⟩ := Prod.mk.inj (Option.some.inj h)
  exact ⟨hva.symm,_,has.symm⟩

lemma mmapRegion_region (as : AddressSpace) (pages : ℕ) (kmallocOk : Bool) (v : ℕ → Vma) (hv : ∀ va, (v va).kind = .anon) :
    OnlyRegion as (as.mmapRegion pages kmallocOk v).2 := by
  unfold AddressSpace.mmapRegion
  cases hbrk : as.mmapBrkAlloc pages with
  | none => exact .refl as
  | some r =>
    have hr : OnlyRegion as r.2 := by
      obtain ⟨-,top,heq⟩ := mmapBrkAlloc_eq (hbrk : as.mmapBrkAlloc pages = some (r.1,r.2))
      exact heq ▸ OnlyRegion.moveBrk as top
    dsimp only
    split
    · exact hr.trans (.moveBrk r.2 _)
    · exact hr.trans (.insert r.2 _ (hv r.1))

lemma mmapAnon_region (as : AddressSpace) (pages prot : ℕ) (kmallocOk : Bool) :
    OnlyRegion as (as.mmapAnon pages prot kmallocOk).2 := by
  unfold AddressSpace.mmapAnon
  split
  · exact .refl as
  split
  · exact .refl as
  exact mmapRegion_region as pages kmallocOk _ fun _ => rfl

lemma unmapLoop_spec (n va : ℕ) (mem : Mem) (h : Accounted tight mem.pmem spaces held) (ha : spaces a = some as) (hp : Plain as) :
    ∃ as' mem', AddressSpace.unmapLoop n va as mem = (as',mem') ∧
      Accounted tight mem'.pmem (update spaces a (some as')) held ∧ Plain as' ∧ as'.vmas = as.vmas := by
  induction n generalizing va as mem spaces with
  | zero => exact ⟨as,mem,rfl,h.same ha,hp,rfl⟩
  | succ n ih =>
    unfold AddressSpace.unmapLoop
    cases hlook : as.entryLookup (indexOf va) with
    | none => exact ih (va + pageSize) mem h ha hp
    | some e =>
      dsimp only
      cases hvalid : e.valid with
      | false => exact ih (va + pageSize) mem h ha hp
      | true =>
        have hentry := entry_of_lookup hlook
        have hframe : (as.entry (indexOf va)).frame = some e.pa := by
          have hf := hp (indexOf va) (hentry ▸ hvalid)
          rwa [hentry] at hf ⊢
        have hcache : e.pagecache = false := (frame_eq (hentry ▸ hframe)).2.1
        rw [hcache]
        obtain ⟨as',mem',heq,h',hp',hv⟩ := ih (va + pageSize) { mem with pmem := mem.pmem.decAndFree e.pa }
          (h.unmapPage ha hframe) (update_self _ _ _) (hp.unmapPage hframe)
        rw [update_idem] at h'
        exact ⟨as',mem',heq,h',hp',hv⟩

lemma munmap_spec (va : ℕ) {mem : Mem} (h : Accounted tight mem.pmem spaces held) (ha : spaces a = some as) (hp : Plain as) :
    ∃ ok as' mem', as.munmap va mem = (ok,as',mem') ∧ Accounted tight mem'.pmem (update spaces a (some as')) held ∧
      Plain as' ∧ (AllAnon as → AllAnon as') := by
  unfold AddressSpace.munmap
  cases hfind : as.vmas.find? fun v => v.va == va with
  | none => exact ⟨false,as,mem,rfl,h.same ha,hp,id⟩
  | some v =>
    have hless := (h.fields { as with vmas := as.vmas.eraseP fun v => v.va == va } ha ⟨rfl,rfl,rfl⟩).1
    obtain ⟨as',mem',heq,h',hp',hv⟩ := unmapLoop_spec ((v.len + pageSize - 1)/pageSize) v.va mem hless
      (update_self _ _ _) (hp.congr fun _ => rfl)
    rw [update_idem] at h'
    dsimp only
    rw [heq]
    refine ⟨true,as',mem',rfl,h',hp',fun hanon w hw => hanon w ?_⟩
    rw [hv] at hw
    exact List.mem_of_mem_eraseP hw

lemma handleMmapFault_spec (faultVa : ℕ) (isWrite : Bool) {mem : Mem} (h : Accounted tight mem.pmem spaces held)
    (ha : spaces a = some as) (hanon : ∀ v ∈ as.vmas, v.kind = .anon ∨ (isWrite = true ∧ v.prot &&& AddressSpace.protWrite = 0)) : ∃ ok as' mem', as.handleMmapFault faultVa isWrite mem = (ok,as',mem') ∧
      Accounted tight mem'.pmem (update spaces a (some as')) held ∧ (Plain as → Plain as') ∧ as'.vmas = as.vmas := by
  have hrefuse : ∃ ok as' mem', (false,as,mem) = (ok,as',mem') ∧
      Accounted tight mem'.pmem (update spaces a (some as')) held ∧ (Plain as → Plain as') ∧ as'.vmas = as.vmas :=
    ⟨false,as,mem,rfl,h.same ha,id,rfl⟩
  unfold AddressSpace.handleMmapFault
  dsimp only
  split
  · exact hrefuse
  cases hfind : AddressSpace.vmaFind (faultVa/pageSize*pageSize) as.vmas with
  | none => exact hrefuse
  | some v =>
    dsimp only
    split
    · exact hrefuse
    next hprot =>
    split
    · exact hrefuse
    next hinvalid =>
      rw [(hanon v (mem_of_vmaFind hfind)).resolve_right hprot]
      dsimp only
      have hnone (f : ℕ) : (as.entry (indexOf (faultVa/pageSize*pageSize))).frame ≠ some f := by
        intro hf
        apply hinvalid
        have hvalid := (frame_eq hf).1
        unfold AddressSpace.entry at hvalid
        cases hlook : as.entryLookup (indexOf (faultVa/pageSize*pageSize)) with
        | none => rw [hlook] at hvalid; cases hvalid
        | some e => rw [hlook] at hvalid; exact hvalid
      rcases h.alloc with hno | ⟨pa,m₁,halloc,hne,hnew,hw,h₁,-,-,-⟩
      · rw [hno]
        exact ⟨false,as,_,rfl,h.same ha,id,rfl⟩
      · rw [halloc]
        dsimp only
        rw [if_neg hne]
        have hback : update held pa false = held := update_eq_self_iff.mpr hnew.symm
        rcases h₁.mapPage (i := indexOf (faultVa/pageSize*pageSize)) ha (update_self _ _ _) hw
          (fun _ f hf => absurd hf (hnone f)) (d := AddressSpace.buildUserDesc pa (v.prot &&& AddressSpace.protWrite != 0) false)
          rfl with hno | ⟨as₂,m₂,hl3,h₂,-,hentry,hv⟩
        · rw [hno]
          have hfree := (h₁.free_kernel (update_self _ _ _) hw).1
          rw [update_idem,hback] at hfree
          exact ⟨false,as,_,rfl,hfree.same ha,id,rfl⟩
        · rw [hl3]
          rw [update_idem,hback] at h₂
          exact ⟨true,_,_,rfl,h₂,fun hp => hp.update hentry fun _ => rfl,hv⟩

end VibeOS.Memory

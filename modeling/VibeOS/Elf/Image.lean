import VibeOS.Elf.Stack

/-! What a loaded program finds in its memory. -/
namespace VibeOS.Elf
open Function
open Storage Memory

variable {data : List UInt8} {ph : Phdr} {argv : List (List UInt8)} {as as' : AddressSpace} {m m' : Pmem}
  {out out' : UserImage} {n k i va a b : ℕ} {seen seen' : Bool}

def segmentPage (data : List UInt8) (ph : Phdr) (base : ℕ) : ℕ → UInt8 :=
  filledPage data ph base (List.range pageSize) fun _ => 0

def Phdr.Maps (ph : Phdr) (va : ℕ) : Prop := ph.type = ptLoad ∧ ph.vaLo ≤ va ∧ va < ph.vaHi

instance (va : ℕ) : Decidable (ph.Maps va) := inferInstanceAs (Decidable (_ ∧ _))

/-- The pages of the segment are user pages below the stack guard. -/
def Phdr.InRange (ph : Phdr) : Prop :=
  ph.type = ptLoad → userVaBase ≤ ph.vaddr ∧ ph.vaddr + ph.memsz ≤ userStackGuardVa

lemma indexOf_congr (h : a/pageSize = b/pageSize) : indexOf a = indexOf b := by
  unfold pageSize at h
  have h21 : a/2^21 = b/2^21 := by omega
  have h12 : a/2^12 = b/2^12 := h
  rw [indexOf,indexOf,h21,h12]

lemma indexOf_iff (ha : userVaBase ≤ a ∧ a < userVaEnd) (hb : userVaBase ≤ b ∧ b < userVaEnd) :
    indexOf a = indexOf b ↔ a/pageSize = b/pageSize :=
  ⟨indexOf_inj ha hb,indexOf_congr⟩

lemma pageBase_eq {lo : ℕ} (hal : lo % pageSize = 0) (h : lo + k*pageSize ≤ va) (h' : va < lo + k*pageSize + pageSize) :
    va/pageSize*pageSize = lo + k*pageSize := by
  unfold pageSize at *
  omega

lemma Phdr.InRange.bounds (h : ph.InRange) (hload : ph.type = ptLoad) : userVaBase ≤ ph.vaLo ∧
    ph.vaHi ≤ userStackGuardVa ∧ ph.vaHi = ph.vaLo + ph.pages*pageSize := by
  obtain ⟨hlo,hhi⟩ := h hload
  unfold Phdr.pages Phdr.vaLo Phdr.vaHi
  unfold userVaBase userStackGuardVa userStackTop userStackPages at *
  unfold pageSize at *
  omega

lemma loadPages_pages (h : Tidy as m) (hlo : userVaBase ≤ ph.vaLo) (hhi : ph.vaLo + (k + n)*pageSize ≤ userVaEnd)
    (now : loadPages data ph n k as m = .ok (true,as',m')) : Tidy as' m' ∧ ∀ va, userVaBase ≤ va → va < userVaEnd →
      pageAt as' m' (indexOf va) = if ph.vaLo + k*pageSize ≤ va ∧ va < ph.vaLo + (k + n)*pageSize
        then some (segmentPage data ph (va/pageSize*pageSize)) else pageAt as m (indexOf va) := by
  induction n generalizing k as m with
  | zero =>
    cases now
    refine ⟨h,fun va _ _ => (if_neg fun ⟨h1,h2⟩ => ?_).symm⟩
    rw [Nat.add_zero] at h2
    omega
  | succ n ih =>
    rw [loadPages] at now
    cases halloc : m.allocPage with
    | mk pa m₁ =>
      rw [halloc] at now
      dsimp only at now
      by_cases hpa : pa = 0
      · rw [if_pos hpa] at now
        cases now
      rw [if_neg hpa,copyPage_spec] at now
      obtain ⟨rest,hf,hfree,hbytes⟩ := allocPage_of_ne halloc hpa
      by_cases hin : ∀ e ∈ byteDemands ph (ph.pageVa k) (List.range pageSize), e.inside data.length = true
      swap
      · rw [if_neg hin] at now
        cases now
      rw [if_pos hin] at now
      dsimp only [bind,Except.bind] at now
      have hzero : m₁.bytes pa = fun _ => 0 := by rw [hbytes,update_self]
      rw [hzero] at now
      cases hmap : as.map (ph.pageVa k) pa 1 true true
          { m₁ with bytes := update m₁.bytes pa (segmentPage data ph (ph.pageVa k)) } with
      | mk ok r =>
        obtain ⟨as₂,m₂⟩ := r
        rw [show filledPage data ph (ph.pageVa k) (List.range pageSize) (fun _ => 0) = segmentPage data ph (ph.pageVa k)
          from rfl,hmap] at now
        cases ok with
        | false => cases now
        | true =>
          dsimp only at now
          have hbytes' : update m₁.bytes pa (segmentPage data ph (ph.pageVa k)) =
              update m.bytes pa (segmentPage data ph (ph.pageVa k)) := by rw [hbytes,update_idem]
          obtain ⟨htidy,hpages,-⟩ := h.mapPage hf (pageVa_aligned ph k) (by exact hfree) (by exact hbytes') hmap
          obtain ⟨htidy',hpages'⟩ := ih htidy (by rw [show k + 1 + n = k + (n + 1) by omega]; exact hhi) now
          refine ⟨htidy',fun va hva hva' => ?_⟩
          have hend : k*pageSize + pageSize ≤ (k + (n + 1))*pageSize := by
            rw [← Nat.succ_mul]
            exact Nat.mul_le_mul_right _ (by omega)
          have hVa : ph.pageVa k = ph.vaLo + k*pageSize := by
            refine Nat.mod_eq_of_lt ?_
            unfold userVaEnd at hhi
            unfold pageSize at *
            omega
          have hal : ph.vaLo % pageSize = 0 := Nat.mul_mod_left _ _
          have hiff : indexOf va = indexOf (ph.pageVa k) ↔ ph.vaLo + k*pageSize ≤ va ∧ va < ph.vaLo + k*pageSize + pageSize := by
            rw [indexOf_iff ⟨hva,hva'⟩ (by rw [hVa]; unfold pageSize at *; omega),hVa]
            unfold pageSize at *
            omega
          have hnext : (k + 1)*pageSize = k*pageSize + pageSize := Nat.succ_mul _ _
          have hcount : (k + 1 + n)*pageSize = (k + (n + 1))*pageSize := by rw [show k + 1 + n = k + (n + 1) by omega]
          rw [hpages' va hva hva',hpages,hnext,hcount]
          by_cases hthis : indexOf va = indexOf (ph.pageVa k)
          · have hwhere := hiff.mp hthis
            rw [if_neg (by omega),if_pos hthis,if_pos (by omega)]
            have hbase : va/pageSize*pageSize = ph.pageVa k := by
              rw [hVa]
              exact pageBase_eq hal hwhere.1 hwhere.2
            exact congrArg (fun base => some (segmentPage data ph base)) hbase.symm
          · have hwhere := mt hiff.mpr hthis
            rw [if_neg hthis]
            refine if_congr ?_ rfl rfl
            omega

lemma loadSegments_pages {phoff phentsize : ℕ} (h : Tidy as m)
    (hrange : ∀ j < n, (phdrAt data ((phoff + (i + j)*phentsize) % 2^64)).InRange)
    (now : loadSegments data phoff phentsize n i seen as m = .ok (true,seen',as',m')) : Tidy as' m' ∧
      ∀ va, userVaBase ≤ va → va < userVaEnd →
        (∃ j < n, (phdrAt data ((phoff + (i + j)*phentsize) % 2^64)).Maps va ∧
          (∀ j', j < j' → j' < n → ¬ (phdrAt data ((phoff + (i + j')*phentsize) % 2^64)).Maps va) ∧
          pageAt as' m' (indexOf va) =
            some (segmentPage data (phdrAt data ((phoff + (i + j)*phentsize) % 2^64)) (va/pageSize*pageSize))) ∨
        ((∀ j < n, ¬ (phdrAt data ((phoff + (i + j)*phentsize) % 2^64)).Maps va) ∧
          pageAt as' m' (indexOf va) = pageAt as m (indexOf va)) := by
  induction n generalizing i seen as m with
  | zero =>
    cases now
    exact ⟨h,fun va _ _ => .inr ⟨fun j hj => absurd hj (Nat.not_lt_zero j),rfl⟩⟩
  | succ n ih =>
    rw [loadSegments,readPhdr_spec] at now
    have hhead := hrange 0 (Nat.succ_pos n)
    rw [Nat.add_zero] at hhead
    have hrange' : ∀ j < n, (phdrAt data ((phoff + (i + 1 + j)*phentsize) % 2^64)).InRange := fun j hj => by
      rw [show i + 1 + j = i + (j + 1) by omega]
      exact hrange (j + 1) (Nat.succ_lt_succ hj)
    by_cases hin : ∀ e ∈ phdrDemands data ((phoff + i*phentsize) % 2^64), e.inside data.length = true
    swap
    · rw [if_neg hin] at now
      cases now
    rw [if_pos hin] at now
    dsimp only [bind,Except.bind] at now
    generalize hph : phdrAt data ((phoff + i*phentsize) % 2^64) = ph at now hhead
    have hphj : ∀ j, phdrAt data ((phoff + (i + (j + 1))*phentsize) % 2^64) =
        phdrAt data ((phoff + (i + 1 + j)*phentsize) % 2^64) := fun j => by rw [show i + (j + 1) = i + 1 + j by omega]
    -- what the header itself does
    obtain ⟨as₁,m₁,seen₁,htidy,hpages,hrest⟩ : ∃ as₁ m₁ seen₁, Tidy as₁ m₁ ∧
        (∀ va, userVaBase ≤ va → va < userVaEnd → pageAt as₁ m₁ (indexOf va) =
          if ph.Maps va then some (segmentPage data ph (va/pageSize*pageSize)) else pageAt as m (indexOf va)) ∧
        loadSegments data phoff phentsize n (i + 1) seen₁ as₁ m₁ = .ok (true,seen',as',m') := by
      by_cases hskip : ph.type ≠ ptLoad ∨ ph.pages = 0
      · rw [if_pos hskip] at now
        refine ⟨as,m,seen,h,fun va _ _ => (if_neg fun hmaps => ?_).symm,now⟩
        obtain ⟨hload,h1,h2⟩ := hmaps
        obtain ⟨-,-,hhi⟩ := hhead.bounds hload
        rw [hskip.resolve_left (not_not.mpr hload)] at hhi
        omega
      · rw [if_neg hskip] at now
        obtain ⟨hload,hpos⟩ := not_or.mp hskip
        obtain ⟨hlo,hguard,hhi⟩ := hhead.bounds (not_not.mp hload)
        cases hpl : loadPages data ph ph.pages 0 as m with
        | error e =>
          rw [hpl] at now
          cases now
        | ok r =>
          obtain ⟨ok,as₁,m₁⟩ := r
          rw [hpl] at now
          dsimp only at now
          cases ok with
          | false => cases now
          | true =>
            have hend : ph.vaLo + (0 + ph.pages)*pageSize ≤ userVaEnd := by
              rw [Nat.zero_add,← hhi]
              exact hguard.trans (by decide)
            obtain ⟨htidy,hpages⟩ := loadPages_pages h hlo hend hpl
            refine ⟨as₁,m₁,true,htidy,fun va hva hva' => (hpages va hva hva').trans (if_congr ?_ rfl rfl),now⟩
            rw [Nat.zero_mul,Nat.add_zero,Nat.zero_add,← hhi]
            exact ⟨fun h => ⟨not_not.mp hload,h⟩,fun h => h.2⟩
    obtain ⟨htidy',hall⟩ := ih htidy hrange' hrest
    refine ⟨htidy',fun va hva hva' => ?_⟩
    rcases hall va hva hva' with ⟨j,hj,hmaps,hlast,hpage⟩ | ⟨hnone,hpage⟩
    · refine .inl ⟨j + 1,Nat.succ_lt_succ hj,by rw [hphj]; exact hmaps,fun j' hlt hlt' => ?_,by rw [hphj]; exact hpage⟩
      obtain ⟨j'',rfl⟩ := Nat.exists_eq_succ_of_ne_zero (Nat.ne_of_gt ((Nat.succ_pos j).trans hlt))
      rw [hphj]
      exact hlast j'' (Nat.succ_lt_succ_iff.mp hlt) (Nat.succ_lt_succ_iff.mp hlt')
    · rw [hpages va hva hva'] at hpage
      by_cases hmaps : ph.Maps va
      · rw [if_pos hmaps] at hpage
        refine .inl ⟨0,Nat.succ_pos n,by rw [Nat.add_zero,hph]; exact hmaps,fun j' hlt hlt' => ?_,by rw [Nat.add_zero,hph]; exact hpage⟩
        obtain ⟨j'',rfl⟩ := Nat.exists_eq_succ_of_ne_zero (Nat.ne_of_gt hlt)
        rw [hphj]
        exact hnone j'' (Nat.succ_lt_succ_iff.mp hlt')
      · rw [if_neg hmaps] at hpage
        refine .inr ⟨fun j hj => ?_,hpage⟩
        cases j with
        | zero => rwa [Nat.add_zero,hph]
        | succ j =>
          rw [hphj]
          exact hnone j (Nat.succ_lt_succ_iff.mp hj)

def phdrOf (data : List UInt8) (i : ℕ) : Phdr := phdrAt data ((phoff data + i*phentsize data) % 2^64)

/-- The headers and segments lie in the file, no segment has more bytes in it than in memory, and the bytes of
the segments are apart from each other and from the stack and its guard. -/
structure WellFormed (data : List UInt8) : Prop where
  within : WithinFile data
  sizes : ∀ i < phnum data, (phdrOf data i).type = ptLoad → (phdrOf data i).filesz ≤ (phdrOf data i).memsz
  range : ∀ i < phnum data, (phdrOf data i).InRange
  disjoint : ∀ i < phnum data, ∀ j < phnum data, i ≠ j → (phdrOf data i).type = ptLoad → (phdrOf data j).type = ptLoad →
    ∀ va, (phdrOf data i).vaddr ≤ va → va < (phdrOf data i).vaddr + (phdrOf data i).memsz →
      (phdrOf data j).vaddr ≤ va → ¬ va < (phdrOf data j).vaddr + (phdrOf data j).memsz

/-- Every byte of a segment reads as the file has it, and as zero behind what comes from the file. -/
def Loaded (data : List UInt8) (as : AddressSpace) (m : Pmem) : Prop :=
  ∀ i < phnum data, (phdrOf data i).type = ptLoad → ∀ k < (phdrOf data i).memsz,
    peek as m ((phdrOf data i).vaddr + k) =
      some (if k < (phdrOf data i).filesz then data.getD ((phdrOf data i).offset + k) 0 else 0)

/-- No byte of a segment that is not zero lies on a page of a later segment. -/
def Unclobbered (data : List UInt8) : Prop :=
  ∀ i < phnum data, ∀ j < phnum data, i < j → (phdrOf data i).type = ptLoad → ∀ k < (phdrOf data i).filesz,
    data.getD ((phdrOf data i).offset + k) 0 ≠ 0 → ¬ (phdrOf data j).Maps ((phdrOf data i).vaddr + k)

lemma segmentPage_eq (hbase : i = va/pageSize*pageSize) : segmentPage data ph i (va % pageSize) =
    if ph.Covers va then data.getD (ph.place va) 0 else 0 := by
  have hmem : va % pageSize ∈ List.range pageSize := List.mem_range.mpr (Nat.mod_lt _ (by decide))
  have hva : i + va % pageSize = va := by
    rw [hbase,Nat.mul_comm]
    exact Nat.div_add_mod va pageSize
  unfold segmentPage filledPage
  rw [hva]
  exact if_congr ⟨fun h => h.2,fun h => ⟨hmem,h⟩⟩ rfl rfl

lemma maps_of_mem (hrange : ph.InRange) (hload : ph.type = ptLoad) (hk : k < ph.memsz) : ph.Maps (ph.vaddr + k) := by
  obtain ⟨hlo,hhi⟩ := hrange hload
  refine ⟨hload,?_,?_⟩
  · unfold Phdr.vaLo pageSize
    omega
  · unfold Phdr.vaHi
    unfold userStackGuardVa userStackTop userStackPages at hhi
    unfold pageSize at *
    omega

lemma WellFormed.page (h : WellFormed data) (hsize : data.length < 2^64) {j : ℕ} (hi : i < phnum data) (hj : j < phnum data)
    (hload : (phdrOf data i).type = ptLoad) (hload' : (phdrOf data j).type = ptLoad) (hk : k < (phdrOf data i).memsz) :
    segmentPage data (phdrOf data j) (((phdrOf data i).vaddr + k)/pageSize*pageSize) (((phdrOf data i).vaddr + k) % pageSize) =
      if j = i ∧ k < (phdrOf data i).filesz then data.getD ((phdrOf data i).offset + k) 0 else 0 := by
  rw [segmentPage_eq rfl]
  have hsizes := h.sizes j hj hload'
  have hend := (h.range j hj hload').2
  have hguard : userStackGuardVa < 2^64 := by decide
  have hnowrap : ((phdrOf data j).vaddr + (phdrOf data j).filesz) % 2^64 = (phdrOf data j).vaddr + (phdrOf data j).filesz :=
    Nat.mod_eq_of_lt (by omega)
  have hcov : (phdrOf data j).Covers ((phdrOf data i).vaddr + k) ↔ (phdrOf data j).vaddr ≤ (phdrOf data i).vaddr + k ∧
      (phdrOf data i).vaddr + k < (phdrOf data j).vaddr + (phdrOf data j).filesz := by rw [Phdr.Covers,hnowrap]
  rcases eq_or_ne j i with rfl | hne
  · by_cases hfile : k < (phdrOf data j).filesz
    · rw [if_pos (hcov.mpr ⟨Nat.le_add_right _ _,by omega⟩),if_pos ⟨rfl,hfile⟩]
      obtain ⟨hfits,hrange⟩ := h.within j hj
      have hoff : (phoff data + j*phentsize data) % 2^64 = phoff data + j*phentsize data := Nat.mod_eq_of_lt (by omega)
      have hph : phdrOf data j = phdrAt data (phoff data + j*phentsize data) := by rw [phdrOf,hoff]
      have htype : le data (phoff data + j*phentsize data) 4 = ptLoad := by
        rw [hph,phdrAt] at hload
        split_ifs at hload with ht
        · exact absurd hload ht
        · exact not_not.mp ht
      have hspan := hrange htype
      have hfields : (phdrOf data j).offset = le data (phoff data + j*phentsize data + 8) 8 ∧
          (phdrOf data j).filesz = le data (phoff data + j*phentsize data + 32) 8 := by
        rw [hph,phdrAt,if_neg (not_not.mpr htype)]
        exact ⟨rfl,rfl⟩
      rw [Phdr.place,Nat.add_sub_cancel_left,Nat.mod_eq_of_lt (by omega)]
    · rw [if_neg fun h => (by have := (hcov.mp h).2; omega),if_neg fun h => hfile h.2]
  · have hapart := h.disjoint i hi j hj hne.symm hload hload' ((phdrOf data i).vaddr + k) (Nat.le_add_right _ _) (by omega)
    rw [if_neg fun h => hapart (hcov.mp h).1 (by have := (hcov.mp h).2; omega),if_neg fun h => hne h.1]

lemma elfLoadUser_true (now : elfLoadUser data argv as m out = .ok (true,out',as',m')) :
    ∃ seen as₁ m₁, loadSegments data (phoff data) (phentsize data) (phnum data) 0 false as m = .ok (true,seen,as₁,m₁) ∧
      finishImage (le data 24 8) argv as₁ m₁ out = (true,out',as',m') := by
  by_cases hid : Identified data
  swap
  · rw [elfLoadUser_unidentified hid] at now
    cases now
  rw [elfLoadUser_identified hid] at now
  cases hseg : loadSegments data (phoff data) (phentsize data) (phnum data) 0 false as m with
  | error e =>
    rw [hseg] at now
    cases now
  | ok r =>
    obtain ⟨ok,seen,as₁,m₁⟩ := r
    rw [hseg] at now
    change (if !ok || !seen then Except.ok (false,out,as₁,m₁) else Except.ok (finishImage (le data 24 8) argv as₁ m₁ out)) =
      Except.ok (true,out',as',m') at now
    split_ifs at now with hbad
    · cases now
    · rw [Bool.or_eq_true,not_or,Bool.not_eq_true',Bool.not_eq_false] at hbad
      exact ⟨seen,as₁,m₁,by rw [hbad.1],Except.ok.inj now⟩

/-- A well-formed file that is loaded is in memory as it says, with its arguments on the stack, exactly when no
segment wipes out bytes of an earlier one that shares a page with it. -/
theorem elf_image (hsize : data.length < 2^64) (hwf : WellFormed data) (hargv : ∀ s ∈ argv, 0 ∉ s)
    (hnew : ∀ i, (as.entry i).valid = false) (hnodup : m.free.Nodup) (husable : ∀ pa ∈ m.free, pa ≠ 0 ∧ pa % pageSize = 0)
    (now : elfLoadUser data argv as m out = .ok (true,out',as',m')) :
    (Loaded data as' m' ∧ out'.stackTopVa % 16 = 0 ∧ peekArgv as' m' out'.stackTopVa = some argv) ↔ Unclobbered data := by
  have htidy : Tidy as m := ⟨hnodup,husable,fun i hi => (by rw [hnew] at hi; cases hi),fun i j hi => by rw [hnew] at hi; cases hi⟩
  obtain ⟨seen,as₁,m₁,hseg,hfinish⟩ := elfLoadUser_true now
  obtain ⟨htidy₁,hpages⟩ := loadSegments_pages htidy (fun j hj => by rw [Nat.zero_add]; exact hwf.range j hj) hseg
  simp only [Nat.zero_add] at hpages
  obtain ⟨hfits,hsp,hbelow,htop⟩ := finishImage_pages htidy₁ hfinish
  have hargs : out'.stackTopVa % 16 = 0 ∧ peekArgv as' m' out'.stackTopVa = some argv := by
    rw [hsp]
    refine ⟨?_,peekArgv_eq hfits hargv htop⟩
    have := hfits.2
    unfold stackTotal pageSize at *
    unfold userStackTop
    omega
  -- the last segment that has the page of a byte
  have hlast : ∀ i < phnum data, (phdrOf data i).type = ptLoad → ∀ k < (phdrOf data i).memsz, ∃ j < phnum data, i ≤ j ∧
      (phdrOf data j).Maps ((phdrOf data i).vaddr + k) ∧
      (∀ j', j < j' → j' < phnum data → ¬ (phdrOf data j').Maps ((phdrOf data i).vaddr + k)) ∧
      peek as' m' ((phdrOf data i).vaddr + k) =
        some (if j = i ∧ k < (phdrOf data i).filesz then data.getD ((phdrOf data i).offset + k) 0 else 0) := by
    intro i hi hload k hk
    have hmaps := maps_of_mem (hwf.range i hi) hload hk
    obtain ⟨hlo,hhi⟩ := hwf.range i hi hload
    have hva : userVaBase ≤ (phdrOf data i).vaddr + k ∧ (phdrOf data i).vaddr + k < userStackGuardVa := by omega
    have hva' : (phdrOf data i).vaddr + k < userVaEnd := hva.2.trans (by decide)
    rcases hpages _ hva.1 hva' with ⟨j,hj,hjm,hjl,hpage⟩ | ⟨hnone,-⟩
    · refine ⟨j,hj,?_,hjm,hjl,?_⟩
      · by_contra hlt
        exact hjl i (by omega) hi hmaps
      · rw [peek,if_pos ⟨hva.1,hva'⟩,hbelow _ hva.1 hva.2,hpage]
        exact congrArg some (hwf.page hsize hi hj hload hjm.1 hk)
    · exact absurd hmaps (hnone i hi)
  constructor
  · rintro ⟨hloaded,-⟩ i hi j hj hij hload k hk hbyte hmaps
    have hk' := Nat.lt_of_lt_of_le hk (hwf.sizes i hi hload)
    obtain ⟨j₁,hj₁,hle,-,hnone,hpeek⟩ := hlast i hi hload k hk'
    have hne : j₁ ≠ i := by
      rintro rfl
      exact hnone j hij hj hmaps
    rw [hloaded i hi hload k hk',if_pos hk,if_neg fun h => hne h.1] at hpeek
    exact hbyte (Option.some.inj hpeek)
  · intro hun
    refine ⟨fun i hi hload k hk => ?_,hargs⟩
    obtain ⟨j,hj,hle,hmaps,-,hpeek⟩ := hlast i hi hload k hk
    rw [hpeek]
    by_cases hfile : k < (phdrOf data i).filesz
    · rcases eq_or_ne j i with rfl | hne
      · rw [if_pos ⟨rfl,hfile⟩,if_pos hfile]
      · rw [if_neg fun h => hne h.1,if_pos hfile]
        by_contra hbyte
        exact hun i hi j hj (Nat.lt_of_le_of_ne hle hne.symm) hload k hfile (fun h => hbyte (congrArg some h.symm)) hmaps
    · rw [if_neg fun h => hfile h.2,if_neg hfile]

def word64 (v : ℕ) : List UInt8 := (List.range 8).map fun i => UInt8.ofNat (v/256^i)

/-- The header of a PT_LOAD with one byte. -/
def byteSegment (offset vaddr : ℕ) : List UInt8 :=
  [1,0,0,0,0,0,0,0] ++ word64 offset ++ word64 vaddr ++ word64 0 ++ word64 1 ++ word64 1 ++ word64 0

/-- A file with two segments of one byte, which are the first two bytes of the file. -/
def twoSegments (second : ℕ) : List UInt8 := bareElf 2 ++ byteSegment 0 userVaBase ++ byteSegment 1 second

def manyFrames : Pmem := ⟨(List.range 24).map fun i => (i + 1)*pageSize,fun _ _ => 0,0,0,fun _ => 0⟩

def loadsWith (data : List UInt8) (argv : List (List UInt8)) (test : UserImage → AddressSpace → Pmem → Bool) : Bool :=
  match elfLoadUser data argv freshSpace manyFrames ⟨0,0⟩ with
  | .ok (true,out,as,m) => test out as m
  | _ => false

lemma of_loadsWith (data : List UInt8) (argv : List (List UInt8)) (test : UserImage → AddressSpace → Pmem → Bool)
    (h : loadsWith data argv test = true) :
    ∃ out as m, elfLoadUser data argv freshSpace manyFrames ⟨0,0⟩ = .ok (true,out,as,m) ∧ test out as m = true := by
  unfold loadsWith at h
  split at h
  · next out as m heq => exact ⟨out,as,m,heq,h⟩
  · cases h

lemma WellFormed.of_two {second : ℕ} (hnum : phnum data = 2)
    (hwithin : WithinFile data) (hfirst : phdrOf data 0 = ⟨1,0,userVaBase,1,1⟩) (hsecond : phdrOf data 1 = ⟨1,1,second,1,1⟩)
    (hlo : userVaBase < second) (hhi : second < userStackGuardVa) : WellFormed data := by
  have hcases : ∀ i < phnum data, i = 0 ∨ i = 1 := fun i hi => by omega
  have hguard : userVaBase < userStackGuardVa := by decide
  refine ⟨hwithin,fun i hi _ => ?_,fun i hi _ => ?_,fun i hi j hj hij _ _ va h1 h2 h3 h4 => ?_⟩
  · rcases hcases i hi with rfl | rfl
    · rw [hfirst]
    · rw [hsecond]
  · rcases hcases i hi with rfl | rfl
    · rw [hfirst]
      exact ⟨Nat.le_refl _,hguard⟩
    · rw [hsecond]
      exact ⟨Nat.le_of_lt hlo,hhi⟩
  · rcases hcases i hi with rfl | rfl <;> rcases hcases j hj with rfl | rfl
    · exact hij rfl
    · rw [hfirst] at h1 h2
      rw [hsecond] at h3 h4
      dsimp only at h1 h2 h3 h4
      omega
    · rw [hsecond] at h1 h2
      rw [hfirst] at h3 h4
      dsimp only at h1 h2 h3 h4
      omega
    · exact hij rfl

instance (data : List UInt8) : Decidable (WithinFile data) := inferInstanceAs (Decidable (∀ i < phnum data, _ ∧ _))

theorem elf_image_two_pages : ∃ out as m,
    elfLoadUser (twoSegments (userVaBase + pageSize)) [[108,115],[47]] freshSpace manyFrames ⟨0,0⟩ = .ok (true,out,as,m) ∧
      Loaded (twoSegments (userVaBase + pageSize)) as m ∧ out.stackTopVa % 16 = 0 ∧
        peekArgv as m out.stackTopVa = some [[108,115],[47]] := by
  have hnum : phnum (twoSegments (userVaBase + pageSize)) = 2 := by decide
  have hfirst : phdrOf (twoSegments (userVaBase + pageSize)) 0 = ⟨1,0,userVaBase,1,1⟩ := rfl
  have hsecond : phdrOf (twoSegments (userVaBase + pageSize)) 1 = ⟨1,1,userVaBase + pageSize,1,1⟩ := rfl
  have hwf : WellFormed (twoSegments (userVaBase + pageSize)) :=
    WellFormed.of_two hnum (by decide +kernel) hfirst hsecond (by decide) (by decide)
  obtain ⟨out,as,m,now,-⟩ := of_loadsWith (twoSegments (userVaBase + pageSize)) [[108,115],[47]] (fun _ _ _ => true)
    (by decide +kernel)
  refine ⟨out,as,m,now,(elf_image (by decide +kernel) hwf (by decide) (fun _ => rfl) (by decide) (by decide) now).mpr ?_⟩
  intro i hi j hj hij _ k _ _ hmaps
  obtain ⟨rfl,rfl⟩ : i = 0 ∧ j = 1 := by omega
  rw [hfirst,hsecond] at hmaps
  have hlo : userVaBase + pageSize ≤ userVaBase + k := hmaps.2.1
  have hk : k < 1 := by assumption
  unfold pageSize at hlo
  omega

/-- Two segments that share a page: the first byte is lost, since the second segment comes with a page of its own. -/
theorem elf_image_shared_page : WellFormed (twoSegments (userVaBase + 1)) ∧ (twoSegments (userVaBase + 1))[0]? = some 0x7F ∧
    ∃ out as m, elfLoadUser (twoSegments (userVaBase + 1)) [] freshSpace manyFrames ⟨0,0⟩ = .ok (true,out,as,m) ∧
      peek as m userVaBase = some 0 ∧ ¬ Loaded (twoSegments (userVaBase + 1)) as m := by
  have hnum : phnum (twoSegments (userVaBase + 1)) = 2 := by decide
  have hfirst : phdrOf (twoSegments (userVaBase + 1)) 0 = ⟨1,0,userVaBase,1,1⟩ := rfl
  have hsecond : phdrOf (twoSegments (userVaBase + 1)) 1 = ⟨1,1,userVaBase + 1,1,1⟩ := rfl
  refine ⟨WellFormed.of_two hnum (by decide +kernel) hfirst hsecond (by decide) (by decide),rfl,?_⟩
  obtain ⟨out,as,m,now,hpeek⟩ := of_loadsWith (twoSegments (userVaBase + 1)) []
    (fun _ as m => peek as m userVaBase == some 0) (by decide +kernel)
  have hzero := eq_of_beq hpeek
  refine ⟨out,as,m,now,hzero,fun hloaded => ?_⟩
  have hbyte := hloaded 0 (by rw [hnum]; decide) (by rw [hfirst]; rfl) 0 (by rw [hfirst]; decide)
  rw [hfirst] at hbyte
  change peek as m userVaBase = some 0x7F at hbyte
  rw [hzero] at hbyte
  cases hbyte

end VibeOS.Elf

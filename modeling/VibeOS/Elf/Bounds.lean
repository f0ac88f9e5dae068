import VibeOS.Elf.Demands

/-! When loading a file stays inside of it. -/
namespace VibeOS.Elf
open Function List Nat
open Storage Memory

variable {data : List UInt8} {ph : Phdr} {argv : List (List UInt8)} {as as' : AddressSpace} {m m' : Pmem}
  {out : UserImage} {s s' : Supply} {ds es : List Demand} {d : Demand} {n k i va : ℕ} {l : Fin 512} {seen : Bool}

def Demand.table? : Demand → Option (Fin 512)
  | .table va => some (indexOf va).1
  | _ => none

def tablesOf (ds : List Demand) : Finset (Fin 512) := (ds.filterMap Demand.table?).toFinset

/-- There is room for the pages in the user range, and there are frames for them and for their tables. -/
def Supply.Affords (s : Supply) (ds : List Demand) : Prop :=
  (∀ va, .page va ∈ ds → Mappable va) ∧ ds.count .frame + ((tablesOf ds).filter (s.2 ·)).card ≤ s.1

lemma tablesOf_cons_of_none (h : d.table? = none) : tablesOf (d :: ds) = tablesOf ds := by
  rw [tablesOf,filterMap_cons_none h]
  rfl

lemma tablesOf_table (va : ℕ) (ds : List Demand) : tablesOf (.table va :: ds) = insert (indexOf va).1 (tablesOf ds) := by
  rw [tablesOf,filterMap_cons_some (show Demand.table? (.table va) = some (indexOf va).1 from rfl),toFinset_cons]
  rfl

lemma filter_insert_missing {f : Fin 512 → Bool} (hl : f l = true) (tables : Finset (Fin 512)) :
    ((insert l tables).filter (f ·)).card = (tables.filter (update f l false ·)).card + 1 := by
  have hset : (insert l tables).filter (f ·) = insert l (tables.filter (update f l false ·)) := by
    ext x
    rcases eq_or_ne x l with rfl | hne
    · simp [hl]
    · simp [hne]
  rw [hset,Finset.card_insert_of_notMem (by simp)]

lemma affords_iff (s : Supply) (ds : List Demand) : (ds.foldlM Supply.take s).isSome = true ↔ s.Affords ds := by
  unfold Supply.Affords
  induction ds generalizing s with
  | nil =>
    refine ⟨fun _ => ⟨fun va hva => absurd hva not_mem_nil,?_⟩,fun _ => rfl⟩
    simp [tablesOf]
  | cons d ds ih =>
    rw [foldlM_cons]
    cases d with
    | read off n =>
      have htake : s.take (.read off n) = some s := rfl
      have hcount : (Demand.read off n :: ds).count .frame = ds.count .frame := List.count_cons_of_ne fun h => by cases h
      rw [htake,hcount,tablesOf_cons_of_none rfl]
      simpa using ih s
    | frame =>
      rw [List.count_cons_self,tablesOf_cons_of_none rfl]
      by_cases h0 : s.1 = 0
      · have htake : s.take .frame = none := if_pos h0
        rw [htake]
        refine ⟨fun h => (by cases h),fun h => ?_⟩
        have := h.2
        omega
      · have htake : s.take .frame = some (s.1 - 1,s.2) := if_neg h0
        rw [htake]
        refine (ih (s.1 - 1,s.2)).trans (and_congr (by simp) ?_)
        dsimp only
        omega
    | page va =>
      have hcount : (Demand.page va :: ds).count .frame = ds.count .frame := List.count_cons_of_ne fun h => by cases h
      rw [hcount,tablesOf_cons_of_none rfl]
      by_cases hok : Mappable va
      · have htake : s.take (.page va) = some s := if_pos hok
        rw [htake]
        refine (ih s).trans (and_congr ⟨fun h q hq => ?_,fun h q hq => h q (mem_cons_of_mem _ hq)⟩ Iff.rfl)
        rcases List.mem_cons.mp hq with heq | hq
        · cases heq
          exact hok
        · exact h q hq
      · have htake : s.take (.page va) = none := if_neg hok
        rw [htake]
        exact ⟨fun h => (by cases h),fun h => absurd (h.1 va mem_cons_self) hok⟩
    | table va =>
      have hcount : (Demand.table va :: ds).count .frame = ds.count .frame := List.count_cons_of_ne fun h => by cases h
      have hpages : (∀ q, Demand.page q ∈ Demand.table va :: ds → Mappable q) ↔ ∀ q, Demand.page q ∈ ds → Mappable q := by simp
      rw [hcount,tablesOf_table,hpages]
      by_cases hl : s.2 (indexOf va).1 = true
      · rw [filter_insert_missing hl]
        by_cases h0 : s.1 = 0
        · have htake : s.take (.table va) = none := by rw [Supply.take,if_pos hl,if_pos h0]
          rw [htake]
          refine ⟨fun h => (by cases h),fun h => ?_⟩
          have := h.2
          omega
        · have htake : s.take (.table va) = some (s.1 - 1,update s.2 (indexOf va).1 false) := by
            rw [Supply.take,if_pos hl,if_neg h0]
          rw [htake]
          refine (ih (s.1 - 1,update s.2 (indexOf va).1 false)).trans (and_congr Iff.rfl ?_)
          dsimp only
          omega
      · have htake : s.take (.table va) = some s := by rw [Supply.take,if_neg hl]
        rw [htake,Finset.filter_insert,if_neg hl]
        exact ih s

/-- The loop over the headers does what its demands say. -/
inductive Loads (seen : Bool) : Checked (Option Supply) → Checked (Bool × Bool × AddressSpace × Pmem) → Prop
  | fault : Loads seen (.error .outside) (.error .outside)
  | short (seen' : Bool) (as : AddressSpace) (m : Pmem) : Loads seen (.ok none) (.ok (false,seen',as,m))
  | done {s : Supply} {as : AddressSpace} {m : Pmem} (h : Supplies s as m) : Loads seen (.ok (some s)) (.ok (true,seen,as,m))

lemma phdrDemands_free (data : List UInt8) (off : ℕ) : ∀ d ∈ phdrDemands data off, s.take d = some s := fun d hd => by
  unfold phdrDemands at hd
  split_ifs at hd <;> simp only [mem_cons,not_mem_nil,or_false] at hd
  · rw [hd]
    rfl
  · rcases hd with rfl | rfl | rfl | rfl | rfl <;> rfl

lemma frame_notMem_phdrDemands (data : List UInt8) (off : ℕ) : Demand.frame ∉ phdrDemands data off := fun hd => by
  unfold phdrDemands at hd
  split_ifs at hd <;> simp at hd

lemma loadSegments_loads (data : List UInt8) (phoff phentsize n i : ℕ) (seen : Bool) (h : Supplies s as m) :
    Loads (seen || decide (.frame ∈ segmentDemands data phoff phentsize n i))
      (play (Demand.inside data.length) Supply.take (segmentDemands data phoff phentsize n i) s)
      (loadSegments data phoff phentsize n i seen as m) := by
  induction n generalizing i seen s as m with
  | zero =>
    have hseen : (seen || decide (Demand.frame ∈ segmentDemands data phoff phentsize 0 i)) = seen := by
      rw [segmentDemands,decide_eq_false not_mem_nil,Bool.or_false]
    rw [hseen]
    exact .done h
  | succ n ih =>
    rw [segmentDemands,loadSegments]
    dsimp only
    rw [append_assoc,play_free (phdrDemands_free data _),readPhdr_spec]
    by_cases hin : ∀ e ∈ phdrDemands data ((phoff + i*phentsize) % 2^64), e.inside data.length = true
    · rw [if_pos hin,if_pos hin]
      dsimp only [bind,Except.bind]
      have hnot := frame_notMem_phdrDemands data ((phoff + i*phentsize) % 2^64)
      by_cases hskip : (phdrAt data ((phoff + i*phentsize) % 2^64)).type ≠ ptLoad ∨
          (phdrAt data ((phoff + i*phentsize) % 2^64)).pages = 0
      · rw [if_pos hskip,if_pos hskip,nil_append]
        have hmem : (Demand.frame ∈ phdrDemands data ((phoff + i*phentsize) % 2^64) ++
            segmentDemands data phoff phentsize n (i + 1)) ↔ Demand.frame ∈ segmentDemands data phoff phentsize n (i + 1) :=
          ⟨fun hx => (List.mem_append.mp hx).resolve_left hnot,fun hx => mem_append_right _ hx⟩
        simp only [hmem]
        exact ih (i + 1) seen h
      · rw [if_neg hskip,if_neg hskip,play_append]
        have hmem : Demand.frame ∈ phdrDemands data ((phoff + i*phentsize) % 2^64) ++
            (pageDemands (phdrAt data ((phoff + i*phentsize) % 2^64)) (phdrAt data ((phoff + i*phentsize) % 2^64)).pages 0 ++
              segmentDemands data phoff phentsize n (i + 1)) := by
          refine mem_append_right _ (mem_append_left _ ?_)
          obtain ⟨p,hp⟩ := exists_eq_succ_of_ne_zero (not_or.mp hskip).2
          rw [hp]
          exact mem_cons_self
        rw [decide_eq_true hmem,Bool.or_true]
        have hmeets := loadPages_meets data (phdrAt data ((phoff + i*phentsize) % 2^64))
          (phdrAt data ((phoff + i*phentsize) % 2^64)).pages 0 h
        revert hmeets
        generalize play (Demand.inside data.length) Supply.take _ s = r
        generalize loadPages data _ _ 0 as m = c
        rintro (_ | ⟨as',m'⟩ | hsup)
        · exact .fault
        · exact .short seen as' m'
        · have hrest := ih (i + 1) true hsup
          rw [Bool.true_or] at hrest
          exact hrest
    · rw [if_neg hin,if_neg hin]
      exact .fault

lemma mapStack_spec (n k top : ℕ) (h : Supplies s as m) (size : ℕ) :
    (play (Demand.inside size) Supply.take (stackDemands n k) s = .ok none ∧
      ∃ top' as' m', mapStack n k top as m = (false,top',as',m')) ∨
    (∃ s' top' as' m', play (Demand.inside size) Supply.take (stackDemands n k) s = .ok (some s') ∧
      mapStack n k top as m = (true,top',as',m') ∧ Supplies s' as' m') := by
  induction n generalizing k top s as m with
  | zero => exact .inr ⟨s,top,as,m,rfl,rfl,h⟩
  | succ n ih =>
    rw [stackDemands,mapStack,play_frame]
    rcases h.alloc with ⟨hnone,halloc⟩ | ⟨s₁,pa,m₁,hs,halloc,hne,hal,hsup⟩
    · rw [hnone,halloc]
      exact .inl ⟨rfl,_,_,_,rfl⟩
    · rw [hs,halloc]
      dsimp only
      rw [if_neg hne]
      have hva : (userStackBot + k*pageSize) % pageSize = 0 := by
        unfold userStackBot userStackTop userStackPages pageSize
        omega
      rcases hsup.map hva hal true false size (stackDemands n (k + 1)) with
        ⟨hplay,as',m',hmap⟩ | ⟨s',as',m',hplay,hmap,hrest⟩
      · rw [hplay,hmap]
        exact .inl ⟨rfl,_,_,_,rfl⟩
      · rw [hplay,hmap]
        exact ih (k + 1) pa hrest

lemma take_there (h : s.take d = some s') (hl : s.2 l = false) : s'.2 l = false := by
  cases d with
  | read off n =>
    cases h
    exact hl
  | frame | page va =>
    simp only [Supply.take] at h
    split_ifs at h
    cases h
    exact hl
  | table va =>
    simp only [Supply.take] at h
    split_ifs at h <;> cases h
    · rcases eq_or_ne l (indexOf va).1 with rfl | hne
      · exact update_self ..
      · exact (update_of_ne hne _ _).trans hl
    · exact hl

lemma foldlM_there (h : ds.foldlM Supply.take s = some s') (hl : s.2 l = false) : s'.2 l = false := by
  induction ds generalizing s with
  | nil =>
    cases h
    exact hl
  | cons d ds ih =>
    rw [foldlM_cons] at h
    obtain ⟨t,ht,hrest⟩ := Option.bind_eq_some_iff.mp h
    exact ih hrest (take_there ht hl)

lemma foldlM_table (h : ds.foldlM Supply.take s = some s') (hva : .table va ∈ ds) : s'.2 (indexOf va).1 = false := by
  induction ds generalizing s with
  | nil => exact absurd hva not_mem_nil
  | cons d ds ih =>
    rw [foldlM_cons] at h
    obtain ⟨t,ht,hrest⟩ := Option.bind_eq_some_iff.mp h
    rcases List.mem_cons.mp hva with rfl | hva
    · refine foldlM_there hrest ?_
      simp only [Supply.take] at ht
      split_ifs at ht with hl h0 <;> cases ht
      · exact update_self ..
      · exact eq_false_of_ne_true hl
    · exact ih hrest hva

def Fits (argv : List (List UInt8)) : Prop := argv.length ≤ maxUserArgv ∧ stackTotal argv ≤ pageSize

lemma finishImage_spec (h : Supplies s as m) (entry : ℕ) (argv : List (List UInt8)) (out : UserImage) (size : ℕ) :
    (finishImage entry argv as m out).1 = true ↔
      (∃ s', play (Demand.inside size) Supply.take (stackDemands userStackPages 0) s = .ok (some s')) ∧ Fits argv := by
  unfold finishImage
  dsimp only
  rcases mapStack_spec userStackPages 0 0 h size with ⟨hplay,top',as',m',hmap⟩ | ⟨s',top',as',m',hplay,hmap,hsup⟩
  · rw [hplay,hmap]
    exact ⟨fun h => (by cases h),fun h => by obtain ⟨⟨s',h⟩,-⟩ := h; cases h⟩
  · rw [hplay,hmap]
    dsimp only
    have hfold := (play_eq_some.mp hplay).2
    have htable : s'.2 (indexOf userStackBot).1 = false := foldlM_table hfold (by decide)
    have hsame : (indexOf userStackGuardVa).1 = (indexOf userStackBot).1 := by decide
    have hmiss : (as'.l2 (indexOf userStackGuardVa).1).isNone = false := by
      rw [hsame]
      exact (congrFun hsup.tables _).trans htable
    have hne : as'.l2 (indexOf userStackGuardVa).1 ≠ none := fun hnone => by
      rw [hnone] at hmiss
      cases hmiss
    obtain ⟨t,ht⟩ := Option.ne_none_iff_exists'.mp hne
    have hguard : as'.installGuard (indexOf userStackGuardVa) m' =
        some (as'.setEntry (indexOf userStackGuardVa) { Desc.zero with guard := true },m') := by
      rw [AddressSpace.installGuard,AddressSpace.l3For,ht]
    rw [hguard]
    dsimp only
    unfold buildUserInitStack Fits
    split_ifs with hbad
    · exact ⟨fun h => (by cases h),fun h => by have := h.2; omega⟩
    · exact ⟨fun _ => ⟨⟨s',rfl⟩,by omega⟩,fun _ => rfl⟩

lemma elfLoadUser_header (h : ehdrSize ≤ data.length) (argv : List (List UInt8)) (as : AddressSpace) (m : Pmem)
    (out : UserImage) : elfLoadUser data argv as m out =
      if le data 0 4 ≠ elfMag then .ok (false,out,as,m)
      else if le data 4 1 ≠ elfClass64 ∨ le data 5 1 ≠ elfData2Lsb then .ok (false,out,as,m)
      else if le data 16 2 ≠ etExec ∨ le data 18 2 ≠ emAarch64 then .ok (false,out,as,m)
      else do
        let (ok,seenLoad,as,m) ← loadSegments data (phoff data) (phentsize data) (phnum data) 0 false as m
        if !ok || !seenLoad then return (false,out,as,m)
        else return finishImage (le data 24 8) argv as m out := by
  unfold ehdrSize at h
  unfold elfLoadUser phoff phentsize phnum
  rw [if_neg (by unfold ehdrSize; omega),fetchLe_of_le (by omega),fetchLe_of_le (by omega),fetchLe_of_le (by omega),
    fetchLe_of_le (by omega),fetchLe_of_le (by omega),fetchLe_of_le (by omega),fetchLe_of_le (by omega),
    fetchLe_of_le (by omega),fetchLe_of_le (by omega)]
  dsimp only [bind,Except.bind,pure,Except.pure]

lemma elfLoadUser_identified (h : Identified data) (argv : List (List UInt8)) (as : AddressSpace) (m : Pmem)
    (out : UserImage) : elfLoadUser data argv as m out = (do
      let (ok,seenLoad,as,m) ← loadSegments data (phoff data) (phentsize data) (phnum data) 0 false as m
      if !ok || !seenLoad then return (false,out,as,m)
      else return finishImage (le data 24 8) argv as m out) := by
  obtain ⟨hlen,hmag,hcls,hord,htype,hmach⟩ := h
  rw [elfLoadUser_header hlen,if_neg (not_not.mpr hmag),if_neg (not_or.mpr ⟨not_not.mpr hcls,not_not.mpr hord⟩),
    if_neg (not_or.mpr ⟨not_not.mpr htype,not_not.mpr hmach⟩)]

lemma elfLoadUser_unidentified (h : ¬ Identified data) (argv : List (List UInt8)) (as : AddressSpace) (m : Pmem)
    (out : UserImage) : elfLoadUser data argv as m out = .ok (false,out,as,m) := by
  by_cases hlen : ehdrSize ≤ data.length
  · rw [elfLoadUser_header hlen]
    split_ifs with hmag hcls htype
    · rfl
    · rfl
    · rfl
    · rw [not_or,not_not,not_not] at hcls htype
      exact absurd ⟨hlen,not_not.mp hmag,hcls.1,hcls.2,htype.1,htype.2⟩ h
  · rw [elfLoadUser,if_pos (by omega)]
    rfl

/-- The program headers lie in the file, and so do the bytes that the PT_LOAD headers name. -/
def WithinFile (data : List UInt8) : Prop := ∀ i < phnum data,
  let off := phoff data + i*phentsize data
  off + phdrSize ≤ data.length ∧
    (le data off 4 = ptLoad → le data (off + 8) 8 + le data (off + 32) 8 ≤ data.length)

/-- No read of the loader is outside of the file, and a file whose headers or segments do not lie within it is
refused. -/
def Contained (data : List UInt8) (argv : List (List UInt8)) (as : AddressSpace) (m : Pmem) (out : UserImage) : Prop :=
  elfLoadUser data argv as m out ≠ .error .outside ∧
    (¬ WithinFile data → ∃ out' as' m', elfLoadUser data argv as m out = .ok (false,out',as',m'))

/-- Before the loader comes to a byte outside of the file, something that it asks for is refused. -/
def StopsShort (data : List UInt8) (s : Supply) : Prop := ∀ pre off n post,
  fileDemands data = pre ++ .read off n :: post → data.length < off + n → ¬ s.Affords pre

/-- The loader has no segment to load, or something is refused that the segments and the stack ask for, or the
arguments do not fit. -/
def Refused (data : List UInt8) (argv : List (List UInt8)) (s : Supply) : Prop :=
  .frame ∉ fileDemands data ∨ ¬ s.Affords (fileDemands data ++ stackDemands userStackPages 0) ∨ ¬ Fits argv

lemma byteDemands_inside (h : ph.offset + ph.filesz ≤ data.length) (bs : List ℕ) :
    ∀ d ∈ byteDemands ph va bs, d.inside data.length = true := fun d hd => by
  obtain ⟨b,hb,rfl⟩ := List.mem_map.mp hd
  obtain ⟨hlo,hhi⟩ := of_decide_eq_true (List.mem_filter.mp hb).2
  refine decide_eq_true ?_
  have hmod : (ph.vaddr + ph.filesz) % 2^64 ≤ ph.vaddr + ph.filesz := mod_le _ _
  have hplace : ph.place (va + b) ≤ ph.offset + (va + b - ph.vaddr) := mod_le _ _
  omega

lemma pageDemands_inside (h : ph.offset + ph.filesz ≤ data.length) (n k : ℕ) :
    ∀ d ∈ pageDemands ph n k, d.inside data.length = true := by
  induction n generalizing k with
  | zero => exact fun d hd => absurd hd not_mem_nil
  | succ n ih =>
    intro d hd
    rw [pageDemands] at hd
    rcases List.mem_append.mp hd with hd | hd
    · rcases List.mem_cons.mp hd with rfl | hd
      · rfl
      · exact byteDemands_inside h _ d hd
    · rcases List.mem_cons.mp hd with rfl | hd
      · rfl
      rcases List.mem_cons.mp hd with rfl | hd
      · rfl
      · exact ih (k + 1) d hd

lemma phdrDemands_inside {off : ℕ} (h : off + phdrSize ≤ data.length) :
    ∀ d ∈ phdrDemands data off, d.inside data.length = true := fun d hd => by
  unfold phdrSize at h
  unfold phdrDemands at hd
  split_ifs at hd <;> simp only [mem_cons,not_mem_nil,or_false] at hd
  · subst hd
    exact decide_eq_true (by omega)
  · rcases hd with rfl | rfl | rfl | rfl | rfl <;> exact decide_eq_true (by omega)

lemma segmentDemands_inside {phoff phentsize : ℕ} (hsize : data.length < 2^64) (h : ∀ j < n,
    phoff + (i + j)*phentsize + phdrSize ≤ data.length ∧ (le data (phoff + (i + j)*phentsize) 4 = ptLoad →
      le data (phoff + (i + j)*phentsize + 8) 8 + le data (phoff + (i + j)*phentsize + 32) 8 ≤ data.length)) :
    ∀ d ∈ segmentDemands data phoff phentsize n i, d.inside data.length = true := by
  induction n generalizing i with
  | zero => exact fun d hd => absurd hd not_mem_nil
  | succ n ih =>
    intro d hd
    obtain ⟨hfits,hrange⟩ := h 0 (Nat.succ_pos n)
    rw [Nat.add_zero] at hfits hrange
    have hoff : (phoff + i*phentsize) % 2^64 = phoff + i*phentsize := mod_eq_of_lt (by omega)
    rw [segmentDemands,hoff] at hd
    rcases List.mem_append.mp hd with hd | hd
    · rcases List.mem_append.mp hd with hd | hd
      · exact phdrDemands_inside hfits d hd
      · split_ifs at hd with hskip
        · exact absurd hd not_mem_nil
        · refine pageDemands_inside ?_ _ _ d hd
          by_cases hload : le data (phoff + i*phentsize) 4 = ptLoad
          · rw [phdrAt,if_neg (not_not.mpr hload)]
            exact hrange hload
          · rw [phdrAt,if_pos hload]
            exact Nat.zero_le _
    · refine ih (fun j hj => ?_) d hd
      have hj' := h (j + 1) (succ_lt_succ hj)
      rw [show i + (j + 1) = i + 1 + j by omega] at hj'
      exact hj'

lemma WithinFile.inside (hsize : data.length < 2^64) (h : WithinFile data) :
    ∀ d ∈ fileDemands data, d.inside data.length = true :=
  segmentDemands_inside hsize fun j hj => by
    rw [Nat.zero_add]
    exact h j hj

lemma stackDemands_inside (size n k : ℕ) : ∀ d ∈ stackDemands n k, d.inside size = true := by
  induction n generalizing k with
  | zero => exact fun d hd => absurd hd not_mem_nil
  | succ n ih =>
    intro d hd
    rw [stackDemands] at hd
    rcases List.mem_cons.mp hd with rfl | hd
    · rfl
    rcases List.mem_cons.mp hd with rfl | hd
    · rfl
    rcases List.mem_cons.mp hd with rfl | hd
    · rfl
    · exact ih (k + 1) d hd

lemma stopsShort_iff (data : List UInt8) (s : Supply) :
    StopsShort data s ↔ play (Demand.inside data.length) Supply.take (fileDemands data) s ≠ .error .outside := by
  rw [ne_eq,play_eq_error]
  constructor
  · rintro h ⟨pre,d,post,hds,hd,hpre⟩
    cases d with
    | read off n => exact h pre off n post hds (by simpa [Demand.inside] using hd) ((affords_iff s pre).mp hpre)
    | frame | page va | table va => cases hd
  · intro h pre off n post hds hlt hpre
    exact h ⟨pre,_,post,hds,decide_eq_false (Nat.not_le.mpr hlt),(affords_iff s pre).mpr hpre⟩

/-- The loader reads inside the file and refuses what does not lie within it, exactly when the file is not one that
it knows, or lies within itself, or is refused for another reason before the first read outside. -/
theorem elf_contained (hsize : data.length < 2^64) (argv : List (List UInt8)) (as : AddressSpace) (m : Pmem)
    (out : UserImage) (husable : ∀ pa ∈ m.free, pa ≠ 0 ∧ pa % pageSize = 0) :
    Contained data argv as m out ↔ ¬ Identified data ∨ WithinFile data ∨
      (StopsShort data (m.free.length,as.missing) ∧ Refused data argv (m.free.length,as.missing)) := by
  have hsup : Supplies (m.free.length,as.missing) as m := ⟨rfl,rfl,husable⟩
  generalize ((m.free.length,as.missing) : Supply) = s at *
  unfold Contained
  by_cases hid : Identified data
  swap
  · rw [elfLoadUser_unidentified hid]
    exact ⟨fun _ => .inl hid,fun _ => ⟨fun h => (by cases h),fun _ => ⟨out,as,m,rfl⟩⟩⟩
  rw [elfLoadUser_identified hid,stopsShort_iff]
  have hloads : Loads (false || decide (.frame ∈ fileDemands data)) _ _ :=
    loadSegments_loads data (phoff data) (phentsize data) (phnum data) 0 false hsup
  rw [Bool.false_or] at hloads
  change Loads _ (play _ _ (fileDemands data) s) _ at hloads
  revert hloads
  generalize hplay : play (Demand.inside data.length) Supply.take (fileDemands data) s = r
  generalize loadSegments data (phoff data) (phentsize data) (phnum data) 0 false as m = c
  rintro (_ | ⟨seen,as',m'⟩ | hsup')
  · -- a read outside
    refine ⟨fun ⟨h,_⟩ => absurd rfl h,?_⟩
    rintro (h | h | ⟨h,-⟩)
    · exact absurd hid h
    · obtain ⟨pre,d,post,hds,hd,-⟩ := play_eq_error.mp hplay
      have hin := h.inside hsize d (hds ▸ mem_append_right _ mem_cons_self)
      rw [hin] at hd
      cases hd
    · exact absurd rfl h
  · -- a segment is refused
    refine ⟨fun _ => .inr (.inr ⟨fun h => (by cases h),.inr (.inl fun haff => ?_)⟩),fun _ => ⟨fun h => (by cases h),fun _ => ⟨out,as',m',rfl⟩⟩⟩
    rw [← affords_iff,foldlM_append,foldlM_of_play hplay] at haff
    cases haff
  · rename_i s' as' m'
    have hfold := (play_eq_some.mp hplay).2
    by_cases hframe : Demand.frame ∈ fileDemands data
    swap
    · rw [decide_eq_false hframe]
      exact ⟨fun _ => .inr (.inr ⟨fun h => (by cases h),.inl hframe⟩),fun _ => ⟨fun h => (by cases h),fun _ => ⟨out,as',m',rfl⟩⟩⟩
    rw [decide_eq_true hframe]
    change ((Except.ok (finishImage (le data 24 8) argv as' m' out) : Checked _) ≠ .error .outside ∧ (¬ WithinFile data → ∃ out' as₁ m₁,
      (Except.ok (finishImage (le data 24 8) argv as' m' out) : Checked _) = .ok (false,out',as₁,m₁))) ↔ _
    have hfinish := finishImage_spec hsup' (le data 24 8) argv out data.length
    have haff : Supply.Affords s (fileDemands data ++ stackDemands userStackPages 0) ↔
        ∃ s₁, play (Demand.inside data.length) Supply.take (stackDemands userStackPages 0) s' = .ok (some s₁) := by
      rw [← affords_iff,foldlM_append,hfold]
      simp only [play_eq_some]
      exact Option.isSome_iff_exists.trans (exists_congr fun s₁ =>
        ⟨fun h => ⟨stackDemands_inside _ _ _,h⟩,fun h => h.2⟩)
    rw [← haff] at hfinish
    cases hres : finishImage (le data 24 8) argv as' m' out with
    | mk ok rest =>
      rw [hres] at hfinish
      cases ok with
      | false =>
        refine ⟨fun _ => .inr (.inr ⟨fun h => (by cases h),?_⟩),fun _ => ⟨fun h => (by cases h),fun _ => ⟨_,_,_,rfl⟩⟩⟩
        by_cases hfits : Fits argv
        · exact .inr (.inl fun h => by cases hfinish.mpr ⟨h,hfits⟩)
        · exact .inr (.inr hfits)
      | true =>
        obtain ⟨hall,hfits⟩ := hfinish.mp rfl
        refine ⟨fun ⟨_,h⟩ => .inr (.inl (by_contra fun hw => ?_)),?_⟩
        · obtain ⟨_,_,_,heq⟩ := h hw
          cases heq
        · rintro (h | h | ⟨-,h | h | h⟩)
          · exact absurd hid h
          · exact ⟨fun h => (by cases h),fun hw => absurd h hw⟩
          · exact absurd hframe h
          · exact absurd hall h
          · exact absurd hfits h

/-- An ELF header with a number of program headers, which begin behind it. -/
def bareElf (phnum : UInt8) : List UInt8 :=
  [0x7F,0x45,0x4C,0x46,2,1,1,0,0,0,0,0,0,0,0,0,2,0,183,0,1,0,0,0,0,0,0,0,0,0,0,0,64,0,0,0,0,0,0,0,0,0,0,0,0,0,0,0,
    0,0,0,0,64,0,56,0,phnum,0,0,0,0,0,0,0]

def freshSpace : AddressSpace := ⟨0x1000,0x2000,fun _ => none,0,userHeapBase,[],userMmapBase,[],1⟩
def threeFrames : Pmem := ⟨[0x3000,0x4000,0x5000],fun _ _ => 0,0,0,fun _ => 0⟩

theorem elf_contained_bare : Contained (bareElf 0) [] freshSpace threeFrames ⟨0,0⟩ :=
  (elf_contained (by decide) [] freshSpace threeFrames ⟨0,0⟩ (by decide)).mpr
    (.inr (.inl fun i hi => absurd hi (by rw [show phnum (bareElf 0) = 0 from rfl]; exact Nat.not_lt_zero i)))

/-- A file that ends behind its ELF header, with a program header to come: the loader reads on. -/
theorem elf_reads_outside : elfLoadUser (bareElf 1) [] freshSpace threeFrames ⟨0,0⟩ = .error .outside ∧
    (bareElf 1).length = 64 ∧ ¬ Contained (bareElf 1) [] freshSpace threeFrames ⟨0,0⟩ := by
  have hrun : elfLoadUser (bareElf 1) [] freshSpace threeFrames ⟨0,0⟩ = .error .outside := rfl
  exact ⟨hrun,rfl,fun h => h.1 hrun⟩

end VibeOS.Elf

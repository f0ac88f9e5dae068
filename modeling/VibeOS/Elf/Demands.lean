import VibeOS.Elf.Loader
import VibeOS.Memory.Break

/-! What loading a file asks for, read off the file: bytes of it, frames, and pages of the address space. -/
namespace VibeOS.Elf
open Function List Option Except
open Storage Memory

inductive Demand
  | read (off n : ℕ)
  | frame
  | page (va : ℕ)
  | table (va : ℕ)
  deriving DecidableEq

/-- `address_space_map` takes the page. -/
def Mappable (va : ℕ) : Prop := userVaBase ≤ va ∧ (va + pageSize) % 2^64 ≤ userVaEnd

instance (va : ℕ) : Decidable (Mappable va) := inferInstanceAs (Decidable (_ ∧ _))

def Demand.inside (size : ℕ) : Demand → Bool
  | .read off n => off + n ≤ size
  | _ => true

/-- The frames that are left, and the L3 tables that are missing. -/
abbrev Supply := ℕ × (Fin 512 → Bool)

def Supply.take (s : Supply) : Demand → Option Supply
  | .read _ _ => some s
  | .frame => if s.1 = 0 then none else some (s.1 - 1,s.2)
  | .page va => if Mappable va then some s else none
  | .table va =>
    if s.2 (indexOf va).1 then
      if s.1 = 0 then none else some (s.1 - 1,update s.2 (indexOf va).1 false)
    else some s

/-- A header as the file has it; what is outside of the file reads as zero here. -/
def phdrAt (data : List UInt8) (off : ℕ) : Phdr :=
  if le data off 4 ≠ ptLoad then ⟨le data off 4,0,0,0,0⟩
  else ⟨le data off 4,le data (off + 8) 8,le data (off + 16) 8,le data (off + 32) 8,le data (off + 40) 8⟩

def phdrDemands (data : List UInt8) (off : ℕ) : List Demand :=
  .read off 4 :: if le data off 4 ≠ ptLoad then []
    else [.read (off + 16) 8,.read (off + 40) 8,.read (off + 8) 8,.read (off + 32) 8]

def byteDemands (ph : Phdr) (pgVa : ℕ) (bs : List ℕ) : List Demand :=
  (bs.filter fun b => ph.Covers (pgVa + b)).map fun b => .read (ph.place (pgVa + b)) 1

def pageDemands (ph : Phdr) : ℕ → ℕ → List Demand
  | 0, _ => []
  | n + 1, k => .frame :: byteDemands ph (ph.pageVa k) (List.range pageSize) ++
    .page (ph.pageVa k) :: .table (ph.pageVa k) :: pageDemands ph n (k + 1)

def segmentDemands (data : List UInt8) (phoff phentsize : ℕ) : ℕ → ℕ → List Demand
  | 0, _ => []
  | n + 1, i =>
    let off := (phoff + i*phentsize) % 2^64
    let ph := phdrAt data off
    phdrDemands data off ++ (if ph.type ≠ ptLoad ∨ ph.pages = 0 then [] else pageDemands ph ph.pages 0) ++
      segmentDemands data phoff phentsize n (i + 1)

def stackDemands : ℕ → ℕ → List Demand
  | 0, _ => []
  | n + 1, k => .frame :: .page (userStackBot + k*pageSize) :: .table (userStackBot + k*pageSize) :: stackDemands n (k + 1)

def phnum (data : List UInt8) : ℕ := le data 56 2
def phoff (data : List UInt8) : ℕ := le data 32 8
def phentsize (data : List UInt8) : ℕ := le data 54 2

/-- All that the program headers of a file ask for, in the order in which the loader comes to it. -/
def fileDemands (data : List UInt8) : List Demand := segmentDemands data (phoff data) (phentsize data) (phnum data) 0

/-- The file is an ELF64 file for AArch64. -/
def Identified (data : List UInt8) : Prop :=
  ehdrSize ≤ data.length ∧ le data 0 4 = elfMag ∧ le data 4 1 = elfClass64 ∧ le data 5 1 = elfData2Lsb ∧
    le data 16 2 = etExec ∧ le data 18 2 = emAarch64

instance (data : List UInt8) : Decidable (Identified data) := inferInstanceAs (Decidable (_ ∧ _))

variable {data : List UInt8} {ph : Phdr} {as as' : AddressSpace} {m m' : Pmem} {s s' : Supply} {off n k va pa : ℕ}
  {w x : Bool}

structure Supplies (s : Supply) (as : AddressSpace) (m : Pmem) : Prop where
  frames : m.free.length = s.1
  tables : as.missing = s.2
  usable : ∀ pa ∈ m.free, pa ≠ 0 ∧ pa % pageSize = 0

lemma readPhdr_spec (data : List UInt8) (off : ℕ) : readPhdr data off =
    if ∀ e ∈ phdrDemands data off, e.inside data.length = true then .ok (phdrAt data off) else .error .outside := by
  unfold readPhdr phdrDemands phdrAt
  by_cases h₀ : off + 4 ≤ data.length
  · rw [fetchLe_of_le h₀]
    by_cases htype : le data off 4 ≠ ptLoad
    · rw [if_pos htype,if_pos htype,if_pos fun e he => ?_]
      · show (if le data off 4 ≠ ptLoad then _ else _) = _
        rw [if_pos htype]
        rfl
      · rw [List.mem_singleton.mp he]
        exact decide_eq_true h₀
    · simp only [if_neg htype,forall_mem_cons,Demand.inside,decide_eq_true_eq]
      by_cases h₄ : off + 40 + 8 ≤ data.length
      · rw [if_pos ⟨h₀,by omega,h₄,by omega,by omega,fun _ he => by cases he⟩]
        show (if le data off 4 ≠ ptLoad then _ else _) = _
        rw [if_neg htype,fetchLe_of_le (by omega : off + 16 + 8 ≤ data.length),fetchLe_of_le h₄,
          fetchLe_of_le (by omega : off + 8 + 8 ≤ data.length),fetchLe_of_le (by omega : off + 32 + 8 ≤ data.length)]
        rfl
      · rw [if_neg fun hall => h₄ hall.2.2.1]
        show (if le data off 4 ≠ ptLoad then _ else _) = _
        rw [if_neg htype]
        by_cases h₂ : off + 16 + 8 ≤ data.length
        · rw [fetchLe_of_le h₂,fetchLe_of_gt (by decide) (by omega : data.length < off + 40 + 8)]
          rfl
        · rw [fetchLe_of_gt (by decide) (by omega : data.length < off + 16 + 8)]
          rfl
  · rw [fetchLe_of_gt (by decide) (by omega : data.length < off + 4),if_neg fun hall => h₀ ?_]
    · rfl
    · exact of_decide_eq_true (hall _ mem_cons_self)

lemma Supplies.alloc (h : Supplies s as m) :
    (s.take .frame = none ∧ m.allocPage = (0,m)) ∨
    (∃ s' pa m', s.take .frame = some s' ∧ m.allocPage = (pa,m') ∧ pa ≠ 0 ∧ pa % pageSize = 0 ∧ Supplies s' as m') := by
  cases hf : m.free with
  | nil =>
    have h0 : s.1 = 0 := by rw [← h.frames,hf]; rfl
    exact .inl ⟨if_pos h0,by rw [Pmem.allocPage,hf]⟩
  | cons pa rest =>
    have h1 : s.1 = rest.length + 1 := by rw [← h.frames,hf]; rfl
    obtain ⟨hne,hal⟩ := h.usable pa (hf ▸ mem_cons_self)
    refine .inr ⟨_,pa,_,if_neg (by omega),by rw [Pmem.allocPage,hf],hne,hal,?_,h.tables,fun q hq => ?_⟩
    · show rest.length = s.1 - 1
      omega
    · exact h.usable q (hf ▸ mem_cons_of_mem _ hq)

lemma Supplies.l3For (h : Supplies s as m) (va : ℕ) :
    (s.take (.table va) = none ∧ as.l3For (indexOf va).1 m = none) ∨
    (∃ s' as' m', s.take (.table va) = some s' ∧ as.l3For (indexOf va).1 m = some (as',m') ∧ Supplies s' as' m') := by
  have hmiss : (as.l2 (indexOf va).1).isNone = s.2 (indexOf va).1 := congrFun h.tables _
  cases hl : as.l2 (indexOf va).1 with
  | some t =>
    rw [hl,isNone_some] at hmiss
    refine .inr ⟨s,as,m,?_,by rw [AddressSpace.l3For,hl],h⟩
    simp only [Supply.take,← hmiss]
    rfl
  | none =>
    rw [hl,isNone_none] at hmiss
    rcases h.alloc with ⟨hnone,halloc⟩ | ⟨s',pa,m',hs,halloc,hne,hal,hsup⟩
    · have h0 : s.1 = 0 := by_contra fun h0 => by rw [Supply.take,if_neg h0] at hnone; cases hnone
      refine .inl ⟨?_,?_⟩
      · simp only [Supply.take,← hmiss,if_pos h0]
        rfl
      · rw [AddressSpace.l3For,hl]
        dsimp only
        rw [halloc]
        rfl
    · have h0 : s.1 ≠ 0 := fun h0 => by rw [Supply.take,if_pos h0] at hs; cases hs
      rw [Supply.take,if_neg h0] at hs
      cases hs
      refine .inr ⟨(s.1 - 1,update s.2 (indexOf va).1 false),
        { as with l2 := update as.l2 (indexOf va).1 (some ⟨pa,fun _ => .zero⟩) },m',?_,?_,hsup.frames,?_,hsup.usable⟩
      · simp only [Supply.take,← hmiss,if_neg h0]
        rfl
      · rw [AddressSpace.l3For,hl]
        dsimp only
        rw [halloc]
        exact if_neg hne
      · funext l
        show (update as.l2 (indexOf va).1 _ l).isNone = _
        rcases eq_or_ne l (indexOf va).1 with rfl | hne'
        · rw [update_self]
          exact (update_self (indexOf va).1 false s.2).symm
        · rw [update_of_ne hne']
          exact (congrFun h.tables l).trans (update_of_ne hne' false s.2).symm

lemma map_one (as : AddressSpace) (m : Pmem) (hva : va % pageSize = 0) (hpa : pa % pageSize = 0) :
    as.map va pa 1 w x m = if Mappable va then match as.l3For (indexOf va).1 m with
      | none => (false,as,m)
      | some (as',m') => (true,(as'.setEntry (indexOf va) (.page pa w x)).onePageMore,m')
    else (false,as,m) := by
  unfold AddressSpace.map
  rw [Nat.one_mul]
  by_cases hok : Mappable va
  · have hbounds := hok
    unfold Mappable at hbounds
    rw [if_pos hok,if_neg (by omega),AddressSpace.mapLoop]
    cases as.l3For (indexOf va).1 m <;> rfl
  · have hbounds := hok
    unfold Mappable at hbounds
    rw [if_neg hok,if_pos (by omega)]

lemma missing_setEntry (as : AddressSpace) (i : Index) (e : Desc) : (as.setEntry i e).onePageMore.missing = as.missing := by
  funext l
  have ht : (as.setEntry i e).l2 l = none ↔ as.l2 l = none := table_setEntry l
  show ((as.setEntry i e).l2 l).isNone = (as.l2 l).isNone
  rw [Bool.eq_iff_iff,isNone_iff_eq_none,isNone_iff_eq_none,ht]

lemma play_frame (size : ℕ) (ds : List Demand) (s : Supply) : play (Demand.inside size) Supply.take (.frame :: ds) s =
    match s.take .frame with
    | none => .ok none
    | some s => play (Demand.inside size) Supply.take ds s := by
  rw [play,if_pos (show Demand.inside size .frame = true from rfl)]
  cases s.take .frame <;> rfl

lemma play_page (size : ℕ) (ds : List Demand) (s : Supply) (va : ℕ) :
    play (Demand.inside size) Supply.take (.page va :: .table va :: ds) s =
      if Mappable va then match s.take (.table va) with
        | none => .ok none
        | some s => play (Demand.inside size) Supply.take ds s
      else .ok none := by
  rw [play,if_pos (show Demand.inside size (.page va) = true from rfl)]
  by_cases hok : Mappable va
  · have hpage : s.take (.page va) = some s := if_pos hok
    rw [if_pos hok,hpage]
    dsimp only
    rw [play,if_pos (show Demand.inside size (.table va) = true from rfl)]
    cases s.take (.table va) <;> rfl
  · have hpage : s.take (.page va) = none := if_neg hok
    rw [if_neg hok,hpage]

lemma Supplies.map (h : Supplies s as m) (hva : va % pageSize = 0) (hpa : pa % pageSize = 0) (w x : Bool) (size : ℕ)
    (ds : List Demand) :
    (play (Demand.inside size) Supply.take (.page va :: .table va :: ds) s = .ok none ∧
      ∃ as' m', as.map va pa 1 w x m = (false,as',m')) ∨
    (∃ s' as' m', play (Demand.inside size) Supply.take (.page va :: .table va :: ds) s =
      play (Demand.inside size) Supply.take ds s' ∧ as.map va pa 1 w x m = (true,as',m') ∧ Supplies s' as' m') := by
  rw [map_one as m hva hpa,play_page]
  by_cases hok : Mappable va
  · rw [if_pos hok,if_pos hok]
    rcases h.l3For va with ⟨hnone,hl⟩ | ⟨s',as',m',hs,hl,hsup⟩
    · exact .inl ⟨by rw [hnone],_,_,by rw [hl]⟩
    · refine .inr ⟨s',_,_,by rw [hs],by rw [hl],hsup.frames,?_,hsup.usable⟩
      rw [missing_setEntry]
      exact hsup.tables
  · rw [if_neg hok,if_neg hok]
    exact .inl ⟨rfl,_,_,rfl⟩

def filledPage (data : List UInt8) (ph : Phdr) (pgVa : ℕ) (bs : List ℕ) (dst : ℕ → UInt8) : ℕ → UInt8 :=
  fun i => if i ∈ bs ∧ ph.Covers (pgVa + i) then data.getD (ph.place (pgVa + i)) 0 else dst i

lemma copyPage_spec (data : List UInt8) (ph : Phdr) (pgVa : ℕ) (bs : List ℕ) (dst : ℕ → UInt8) :
    copyPage data ph pgVa bs dst = if ∀ e ∈ byteDemands ph pgVa bs, e.inside data.length = true
      then .ok (filledPage data ph pgVa bs dst) else .error .outside := by
  induction bs generalizing dst with
  | nil =>
    refine Eq.trans ?_ (if_pos fun e he => absurd he not_mem_nil).symm
    refine congrArg ok (funext fun i => ?_)
    exact (if_neg fun h => not_mem_nil h.1).symm
  | cons b bs ih =>
    rw [copyPage]
    by_cases hb : ph.Covers (pgVa + b)
    · have hd : byteDemands ph pgVa (b :: bs) = .read (ph.place (pgVa + b)) 1 :: byteDemands ph pgVa bs := by
        have hdec : decide (ph.Covers (pgVa + b)) = true := decide_eq_true hb
        simp only [byteDemands,filter_cons,hdec,if_true,map_cons]
      rw [if_pos hb,hd]
      by_cases hin : ph.place (pgVa + b) < data.length
      · rw [fetch_of_lt hin]
        show copyPage data ph pgVa bs (update dst b data[ph.place (pgVa + b)]) = _
        have hhead : (Demand.read (ph.place (pgVa + b)) 1).inside data.length = true := decide_eq_true hin
        simp only [ih,forall_mem_cons,hhead,true_and]
        refine if_congr Iff.rfl (congrArg ok (funext fun i => ?_)) rfl
        unfold filledPage
        by_cases hi : i ∈ bs ∧ ph.Covers (pgVa + i)
        · rw [if_pos hi,if_pos ⟨mem_cons_of_mem _ hi.1,hi.2⟩]
        · rw [if_neg hi]
          rcases eq_or_ne i b with rfl | hne
          · rw [update_self,if_pos ⟨mem_cons_self,hb⟩,getD_eq_getElem?_getD,getElem?_eq_getElem hin,getD_some]
          · rw [update_of_ne hne,if_neg fun h => hi ⟨(List.mem_cons.mp h.1).resolve_left hne,h.2⟩]
      · rw [fetch_of_ge (by omega),if_neg fun hall => hin ?_]
        · rfl
        · exact of_decide_eq_true (hall _ mem_cons_self)
    · have hd : byteDemands ph pgVa (b :: bs) = byteDemands ph pgVa bs := by
        have hdec : decide (ph.Covers (pgVa + b)) = false := decide_eq_false hb
        simp only [byteDemands,filter_cons,hdec,Bool.false_eq_true,if_false]
      rw [if_neg hb,hd,ih]
      refine if_congr Iff.rfl (congrArg ok (funext fun i => ?_)) rfl
      unfold filledPage
      refine if_congr ⟨fun h => ⟨mem_cons_of_mem _ h.1,h.2⟩,fun h => ⟨?_,h.2⟩⟩ rfl rfl
      exact (List.mem_cons.mp h.1).resolve_left fun hib => hb (hib ▸ h.2)

/-- A part of the loader does what its demands say. -/
inductive Meets : Checked (Option Supply) → Checked (Bool × AddressSpace × Pmem) → Prop
  | fault : Meets (.error .outside) (.error .outside)
  | short (as : AddressSpace) (m : Pmem) : Meets (.ok none) (.ok (false,as,m))
  | done {s : Supply} {as : AddressSpace} {m : Pmem} (h : Supplies s as m) : Meets (.ok (some s)) (.ok (true,as,m))

lemma pageVa_aligned (ph : Phdr) (k : ℕ) : ph.pageVa k % pageSize = 0 := by
  unfold Phdr.pageVa Phdr.vaLo pageSize
  omega

lemma loadPages_meets (data : List UInt8) (ph : Phdr) (n k : ℕ) (h : Supplies s as m) :
    Meets (play (Demand.inside data.length) Supply.take (pageDemands ph n k) s) (loadPages data ph n k as m) := by
  induction n generalizing k s as m with
  | zero => exact .done h
  | succ n ih =>
    rw [pageDemands,loadPages,cons_append,play_frame]
    rcases h.alloc with ⟨hnone,halloc⟩ | ⟨s₁,pa,m₁,hs,halloc,hne,hal,hsup⟩
    · rw [hnone,halloc]
      exact .short as m
    · rw [hs,halloc]
      dsimp only
      rw [if_neg hne,play_free fun e he => ?_,copyPage_spec]
      · by_cases hin : ∀ e ∈ byteDemands ph (ph.pageVa k) (List.range pageSize), e.inside data.length = true
        · rw [if_pos hin,if_pos hin]
          have hsup' : ∀ page, Supplies s₁ as { m₁ with bytes := update m₁.bytes pa page } := fun page =>
            ⟨hsup.frames,hsup.tables,hsup.usable⟩
          dsimp only [bind,Except.bind]
          rcases (hsup' (filledPage data ph (ph.pageVa k) (List.range pageSize) (m₁.bytes pa))).map (pageVa_aligned ph k)
              hal true true data.length (pageDemands ph n (k + 1)) with ⟨hplay,as',m',hmap⟩ | ⟨s',as',m',hplay,hmap,hrest⟩
          · rw [hplay,hmap]
            exact .short as' m'
          · rw [hplay,hmap]
            exact ih (k + 1) hrest
        · rw [if_neg hin,if_neg hin]
          exact .fault
      · obtain ⟨b,-,rfl⟩ := List.mem_map.mp he
        rfl

end VibeOS.Elf

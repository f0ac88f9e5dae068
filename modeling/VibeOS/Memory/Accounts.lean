import VibeOS.Memory.AddressSpace
import VibeOS.Storage.Sharing

/-! Who holds which frame: the tables and the pages of all address spaces, and the kernel for
frames that it has in hand. What a process sees of its pages is a cell for each. -/
namespace VibeOS.Memory
open Function
open VibeOS.Storage

/-- The frame that an address space has through a descriptor. The page cache and the window
manager have theirs themselves. -/
def Desc.frame (d : Desc) : Option ℕ := if d.valid && !d.pagecache && !d.wmWindow then some d.pa else none

/-- The descriptor of a page, which is zero where there is no table. -/
def AddressSpace.entry (as : AddressSpace) (i : Index) : Desc := (as.entryLookup i).getD .zero

inductive Part
  | l1
  | l2
  | l3 (i : Fin 512)
  | page (i : Index)
  deriving DecidableEq

def AddressSpace.part (as : AddressSpace) : Part → Option ℕ
  | .l1 => some as.l1Pa
  | .l2 => some as.l2Pa
  | .l3 i => (as.l2 i).map L3Table.pa
  | .page i => (as.entry i).frame

inductive Holder
  | part (a : ℕ) (p : Part)
  | kernel (pa : ℕ)
  deriving DecidableEq

abbrev Spaces := ℕ → Option AddressSpace

def holds (spaces : Spaces) (held : ℕ → Bool) : Holder → Option ℕ
  | .part a p => (spaces a).bind fun as => as.part p
  | .kernel pa => if held pa then some pa else none

/-- Holders that never share: all but the read-only pages. -/
def Exclusive (spaces : Spaces) : Holder → Prop
  | .part a (.page i) => ∀ as, spaces a = some as → (as.entry i).writable = true
  | _ => True

/-- A frame that pmem can have and the table of counts covers. -/
def Pmem.Good (m : Pmem) (f : ℕ) : Prop := f ≠ 0 ∧ f % pageSize = 0 ∧ m.paInRange f

/-- The counts and the free list fit who holds what; `E` are the holders that do not share. -/
structure Books (tight : Prop) (m : Pmem) (H : Holder → Option ℕ) (E : Holder → Prop) : Prop where
  shared : Shared tight m.free m.rc H
  alone : ∀ k f, E k → H k = some f → m.rc f = 0
  good : ∀ f, f ∈ m.free ∨ (∃ k, H k = some f) → m.Good f

/-- Forks do not share the pages of others, and the kernel has in hand those that can be written. -/
def Flagged (spaces : Spaces) (held : ℕ → Bool) : Prop :=
  ∀ a as i, spaces a = some as → (as.entry i).valid = true → (as.entry i).frame = none →
    (as.entry i).cow = false ∧ ((as.entry i).writable = true → held (as.entry i).pa = true)

structure Accounted (tight : Prop) (m : Pmem) (spaces : Spaces) (held : ℕ → Bool) : Prop where
  books : Books tight m (holds spaces held) (Exclusive spaces)
  flagged : Flagged spaces held

/-- What a process has at a page: whether it may write and execute, and the bytes. -/
@[ext] structure Cell where
  writable : Bool
  uxn : Bool
  bytes : ℕ → UInt8

def Desc.cell (m : Pmem) (d : Desc) : Option Cell :=
  d.frame.map fun pa => ⟨d.writable || d.cow,d.uxn,m.bytes pa⟩

def view (m : Pmem) (spaces : Spaces) (x : ℕ × Index) : Option Cell :=
  (spaces x.1).bind fun as => (as.entry x.2).cell m

variable {tight : Prop} {m m' : Pmem} {spaces spaces' : Spaces} {held : ℕ → Bool} {as as' src dst : AddressSpace} {a b f pa n va : ℕ}
  {i j : Index} {d e : Desc} {p : Part} {l : Fin 512}

@[simp] lemma frame_zero : Desc.zero.frame = none := rfl
@[simp] lemma frame_page (pa : ℕ) (w x : Bool) : (Desc.page pa w x).frame = some pa := rfl
@[simp] lemma frame_shared (e : Desc) : (AddressSpace.shared e).frame = some e.pa := rfl

lemma frame_eq (h : d.frame = some f) : d.valid = true ∧ d.pagecache = false ∧ d.wmWindow = false ∧ d.pa = f := by
  unfold Desc.frame at h
  split at h
  next hd =>
    simp only [Bool.and_eq_true,Bool.not_eq_true'] at hd
    exact ⟨hd.1.1,hd.1.2,hd.2,Option.some.inj h⟩
  next => cases h

lemma entry_of_lookup (h : as.entryLookup i = some e) : as.entry i = e := by
  unfold AddressSpace.entry
  rw [h]
  rfl

lemma entry_of_none (h : as.l2 i.1 = none) : as.entry i = .zero := by
  unfold AddressSpace.entry AddressSpace.entryLookup
  rw [h]
  rfl

lemma entry_of_table {t : L3Table} (h : as.l2 i.1 = some t) : as.entry i = t.entries i.2 := by
  unfold AddressSpace.entry AddressSpace.entryLookup
  rw [h]
  rfl

lemma entry_setEntry (h : as.l2 i.1 ≠ none) (j : Index) :
    (as.setEntry i d).entry j = if j = i then d else as.entry j := by
  obtain ⟨t,ht⟩ := Option.ne_none_iff_exists'.mp h
  have hset : (as.setEntry i d).l2 = update as.l2 i.1 (some { t with entries := update t.entries i.2 d }) := by
    unfold AddressSpace.setEntry
    rw [ht]
    rfl
  by_cases hj : j.1 = i.1
  · have hj2 : (as.setEntry i d).l2 j.1 = some { t with entries := update t.entries i.2 d } := by
      rw [hset,hj,update_self]
    rw [entry_of_table hj2,entry_of_table (hj ▸ ht)]
    by_cases hji : j.2 = i.2
    · rw [if_pos (Prod.ext hj hji)]
      exact hji ▸ update_self _ _ _
    · rw [if_neg fun heq => hji (congrArg Prod.snd heq)]
      exact update_of_ne hji _ _
  · rw [if_neg fun heq => hj (congrArg Prod.fst heq)]
    have hsame : (as.setEntry i d).l2 j.1 = as.l2 j.1 := by
      rw [hset]
      exact update_of_ne hj _ _
    unfold AddressSpace.entry AddressSpace.entryLookup
    rw [hsame]

lemma l3_setEntry (k : Fin 512) : ((as.setEntry i d).l2 k).map L3Table.pa = (as.l2 k).map L3Table.pa := by
  unfold AddressSpace.setEntry
  by_cases hk : k = i.1
  · subst hk
    simp only [update_self,Option.map_map]
    rfl
  · simp only [update_of_ne hk]

lemma table_setEntry (k : Fin 512) : (as.setEntry i d).l2 k = none ↔ as.l2 k = none := by
  have h : ((as.setEntry i d).l2 k).map L3Table.pa = (as.l2 k).map L3Table.pa := l3_setEntry k
  rw [← Option.map_eq_none_iff (f := L3Table.pa),h,Option.map_eq_none_iff]

lemma holds_kernel (spaces : Spaces) (held : ℕ → Bool) (pa : ℕ) (v : Bool) : holds spaces (update held pa v) =
    update (holds spaces held) (.kernel pa) (if v then some pa else none) := by
  funext h
  cases h with
  | part a p => rw [update_of_ne (nofun : Holder.part a p ≠ .kernel pa)]; rfl
  | kernel q =>
    by_cases hq : q = pa
    · subst hq
      simp [holds]
    · rw [update_of_ne fun heq => hq (Holder.kernel.inj heq)]
      simp [holds,hq]

lemma holds_part {o : Option ℕ} (ha : spaces a = some as) (hp : as'.part p = o) (hother : ∀ q, q ≠ p → as'.part q = as.part q) :
    holds (update spaces a (some as')) held = update (holds spaces held) (.part a p) o := by
  funext h
  cases h with
  | kernel q => rw [update_of_ne (nofun : Holder.kernel q ≠ .part a p)]; rfl
  | part c q =>
    by_cases hc : c = a
    · subst hc
      by_cases hq : q = p
      · subst hq
        simp [holds,hp]
      · rw [update_of_ne fun heq => hq (Holder.part.inj heq).2]
        simp [holds,ha,hother q hq]
    · rw [update_of_ne fun heq => hc (Holder.part.inj heq).1]
      simp [holds,hc]

lemma holds_setEntry (held : ℕ → Bool) (ha : spaces a = some as) (h : as.l2 i.1 ≠ none) :
    holds (update spaces a (some (as.setEntry i d))) held =
      update (holds spaces held) (.part a (.page i)) d.frame := by
  refine holds_part ha ?_ fun q hq => ?_
  · show ((as.setEntry i d).entry i).frame = _
    rw [entry_setEntry h,if_pos rfl]
  · cases q with
    | l1 | l2 => rfl
    | l3 k => exact l3_setEntry k
    | page j =>
      show ((as.setEntry i d).entry j).frame = _
      rw [entry_setEntry h,if_neg fun heq => hq (congrArg Part.page heq)]
      rfl

def Untouched (m m' : Pmem) (H : Holder → Option ℕ) : Prop := ∀ k f, H k = some f → m'.bytes f = m.bytes f

lemma view_congr (held : ℕ → Bool) (h : Untouched m m' (holds spaces held)) : view m' spaces = view m spaces := by
  funext x
  unfold view
  cases hx : spaces x.1 with
  | none => rfl
  | some as =>
    show (as.entry x.2).cell m' = (as.entry x.2).cell m
    unfold Desc.cell
    cases hf : (as.entry x.2).frame with
    | none => rfl
    | some f =>
      have hbytes := h (.part x.1 (.page x.2)) f (by simp [holds,hx,AddressSpace.part,hf])
      simp [hbytes]

namespace Books
variable {H : Holder → Option ℕ} {E X : Holder → Prop} {k : Holder}

lemma change (h : Books tight m H E) (o : Option ℕ) (hshared : Shared tight m'.free m'.rc (update H k o))
    (hex : ∀ q, q ≠ k → X q → E q) (hrc : ∀ q f, q ≠ k → E q → H q = some f → m.rc f = 0 → m'.rc f = 0)
    (hself : ∀ f, o = some f → X k → m'.rc f = 0) (hrange : m'.rcBase = m.rcBase ∧ m'.rcPages = m.rcPages)
    (hfree : ∀ f ∈ m'.free, f ∈ m.free ∨ ∃ q, H q = some f) (ho : ∀ f, o = some f → m.Good f) :
    Books tight m' (update H k o) X := by
  have hgood (f : ℕ) (hf : m.Good f) : m'.Good f := by
    unfold Pmem.Good Pmem.paInRange at *
    rw [hrange.1,hrange.2]
    exact hf
  refine ⟨hshared,fun q f hq hf => ?_,fun f hf => hgood f ?_⟩
  · by_cases hqk : q = k
    · subst hqk
      rw [update_self] at hf
      exact hself f hf hq
    · rw [update_of_ne hqk] at hf
      have hq' := hex q hqk hq
      exact hrc q f hqk hq' hf (h.alone q f hq' hf)
  · rcases hf with hf | ⟨q,hf⟩
    · exact h.good f (hfree f hf)
    · by_cases hqk : q = k
      · subst hqk
        rw [update_self] at hf
        exact ho f hf
      · rw [update_of_ne hqk] at hf
        exact h.good f (.inr ⟨q,hf⟩)

lemma allocPage_cases (h : Books tight m H E) : m.allocPage = (0,m) ∨ ∃ pa rest, m.free = pa :: rest ∧ m.Good pa ∧
    m.rc pa = 0 ∧ (∀ k, H k ≠ some pa) ∧
      m.allocPage = (pa,{ m with free := rest, bytes := update m.bytes pa fun _ => 0 }) := by
  unfold Pmem.allocPage
  cases hfree : m.free with
  | nil => exact .inl rfl
  | cons pa rest =>
    have hmem : pa ∈ m.free := by rw [hfree]; exact List.mem_cons_self
    obtain ⟨hrc,hnone⟩ := h.shared.unheld pa hmem
    exact .inr ⟨pa,rest,rfl,h.good pa (.inl hmem),hrc,hnone,rfl⟩

lemma alloc (h : Books tight m H E) (hk : H k = none) (hex : ∀ q, q ≠ k → X q → E q) : m.allocPage = (0,m) ∨
    ∃ pa m', m.allocPage = (pa,m') ∧ pa ≠ 0 ∧ (∀ q, H q ≠ some pa) ∧ Books tight m' (update H k (some pa)) X ∧
      Untouched m m' H ∧ m'.rc = m.rc ∧ ∀ i, m'.bytes pa i = 0 := by
  rcases h.allocPage_cases with hnone | ⟨pa,rest,hfree,hgood,hrc,hnone,halloc⟩
  · exact .inl hnone
  have hshared := h.shared
  rw [hfree] at hshared
  refine .inr ⟨pa,_,halloc,hgood.1,hnone,?_,?_,rfl,fun i => by simp⟩
  · exact h.change (some pa) (hshared.acquire hk) hex (fun _ _ _ _ _ h0 => h0) (fun f hf _ => Option.some.inj hf ▸ hrc)
      ⟨rfl,rfl⟩ (fun f hf => .inl (by rw [hfree]; exact List.mem_cons_of_mem _ hf)) (fun f hf => Option.some.inj hf ▸ hgood)
  · intro q f hq
    have hne : f ≠ pa := fun heq => hnone q (heq ▸ hq)
    exact update_of_ne hne _ _

lemma freePage_good (hgood : m.Good pa) : m.freePage pa = m.pushFree pa :=
  if_neg (by unfold Pmem.Good at hgood; tauto)

lemma pushFree_untouched {rc : ℕ → ℕ} (h : Shared tight (f :: m.free) rc H) (hbytes : m'.bytes = m.bytes) :
    Untouched m (m'.pushFree f) H := by
  intro k g hk
  have hne : g ≠ f := fun heq => h.not_free hk (heq ▸ List.mem_cons_self)
  exact (update_of_ne hne _ _).trans (congrFun hbytes g)

lemma giveBack (h : Books tight m H E) (hk : H k = some f) (hrc : m.rc f = 0) :
    Books tight (m.freePage f) (update H k none) E ∧ Untouched m (m.freePage f) (update H k none) := by
  rw [freePage_good (h.good f (.inr ⟨k,hk⟩))]
  have hrelease := h.shared.release hk (by omega)
  rw [update_eq_self_iff.mpr hrc.symm] at hrelease
  refine ⟨h.change none hrelease (fun _ _ hq => hq) (fun _ _ _ _ _ h0 => h0) nofun ⟨rfl,rfl⟩ (fun g hg => ?_) nofun,
    pushFree_untouched hrelease rfl⟩
  rcases List.mem_cons.mp hg with rfl | hg
  · exact .inr ⟨_,hk⟩
  · exact .inl hg

lemma refcountGet_good (hgood : m.Good f) : m.refcountGet f = m.rc f := if_pos hgood.2.2

lemma refcountSet_good (hgood : m.Good f) (v : ℕ) : m.refcountSet f v = { m with rc := update m.rc f v } :=
  if_pos hgood.2.2

lemma refcountDec_good (hgood : m.Good f) :
    m.refcountDec f = { m with rc := update m.rc f (m.rc f - 1) } := by
  unfold Pmem.refcountDec
  split
  next h0 => rw [h0,update_eq_self_iff.mpr h0.symm]
  next => exact refcountSet_good hgood _

lemma leave (h : Books tight m H E) (hk : H k = some f) :
    Books tight (m.decAndFree f) (update H k none) E ∧ Untouched m (m.decAndFree f) (update H k none) := by
  have hgood := h.good f (.inr ⟨k,hk⟩)
  unfold Pmem.decAndFree
  rw [if_neg hgood.1,refcountGet_good hgood]
  split
  next htwo =>
    rw [refcountDec_good hgood]
    refine ⟨h.change none (h.shared.leave hk htwo) (fun _ _ hq => hq) (fun q g _ _ _ h0 => ?_) nofun ⟨rfl,rfl⟩
      (fun g hg => .inl hg) nofun,fun _ _ _ => rfl⟩
    have hne : g ≠ f := by
      rintro rfl
      omega
    exact (update_of_ne hne _ _).trans h0
  next hless =>
    have hrelease := h.shared.release hk (by omega)
    have hset : (if m.rc f = 1 then m.refcountSet f 0 else m) = { m with rc := update m.rc f 0 } := by
      split
      next => exact refcountSet_good hgood 0
      next hone => rw [update_eq_self_iff.mpr (by omega : 0 = m.rc f)]
    have hgood' : Pmem.Good { m with rc := update m.rc f 0 } f := hgood
    rw [hset,freePage_good hgood']
    refine ⟨h.change none hrelease (fun _ _ hq => hq) (fun q g _ _ _ h0 => ?_) nofun ⟨rfl,rfl⟩ (fun g hg => ?_) nofun,
      pushFree_untouched hrelease rfl⟩
    · by_cases hg : g = f
      · exact hg ▸ update_self _ _ _
      · exact (update_of_ne hg _ _).trans h0
    · rcases List.mem_cons.mp hg with rfl | hg
      · exact .inr ⟨_,hk⟩
      · exact .inl hg

end Books

def Windowed (spaces : Spaces) (pa : ℕ) : Prop := ∃ a as i, spaces a = some as ∧ (as.entry i).valid = true ∧
  (as.entry i).frame = none ∧ (as.entry i).writable = true ∧ (as.entry i).pa = pa

lemma Flagged.take (h : Flagged spaces held) : Flagged spaces (update held pa true) := by
  intro a as i ha hvalid hframe
  obtain ⟨hcow,hw⟩ := h a as i ha hvalid hframe
  refine ⟨hcow,fun hwritable => ?_⟩
  by_cases heq : (as.entry i).pa = pa
  · rw [heq,update_self]
  · rw [update_of_ne heq]
    exact hw hwritable

lemma Flagged.give (h : Flagged spaces held) (hw : ¬ Windowed spaces pa) : Flagged spaces (update held pa false) := by
  intro a as i ha hvalid hframe
  obtain ⟨hcow,hheld⟩ := h a as i ha hvalid hframe
  refine ⟨hcow,fun hwritable => ?_⟩
  have hne : (as.entry i).pa ≠ pa := fun heq => hw ⟨a,as,i,ha,hvalid,hframe,hwritable,heq⟩
  rw [update_of_ne hne]
  exact hheld hwritable

lemma Accounted.alloc (h : Accounted tight m spaces held) : m.allocPage = (0,m) ∨ ∃ pa m', m.allocPage = (pa,m') ∧ pa ≠ 0 ∧
    held pa = false ∧ ¬ Windowed spaces pa ∧ Accounted tight m' spaces (update held pa true) ∧
      view m' spaces = view m spaces ∧ m'.rc = m.rc ∧ ∀ i, m'.bytes pa i = 0 := by
  rcases h.books.allocPage_cases with hnone | ⟨pa,rest,hfree,hgood,hrc,hnone,halloc⟩
  · exact .inl hnone
  have hnotheld : held pa = false := by
    by_contra hheld
    exact hnone (.kernel pa) (by simp [holds,eq_true_of_ne_false hheld])
  rcases h.books.alloc (k := .kernel pa) (X := Exclusive spaces) (by simp [holds,hnotheld]) (fun _ _ hq => hq) with
    hno | ⟨pa',m',halloc',hne,-,hbooks,huntouched,hsame,hzero⟩
  · exact .inl hno
  · obtain ⟨rfl,rfl⟩ := Prod.mk.inj (halloc.symm.trans halloc')
    refine .inr ⟨pa,_,halloc,hne,hnotheld,?_,⟨?_,Flagged.take h.flagged⟩,view_congr _ huntouched,hsame,hzero⟩
    · rintro ⟨a,as,i,ha,hvalid,hframe,hw,rfl⟩
      rw [(h.flagged a as i ha hvalid hframe).2 hw] at hnotheld
      cases hnotheld
    · rw [holds_kernel]
      exact hbooks

lemma Accounted.free_kernel (h : Accounted tight m spaces held) (hheld : held pa = true) (hw : ¬ Windowed spaces pa) :
    Accounted tight (m.freePage pa) spaces (update held pa false) ∧ view (m.freePage pa) spaces = view m spaces := by
  have hk : holds spaces held (.kernel pa) = some pa := by simp [holds,hheld]
  obtain ⟨hbooks,huntouched⟩ := h.books.giveBack hk (h.books.alone (.kernel pa) pa trivial hk)
  have hholds := holds_kernel spaces held pa false
  rw [if_neg Bool.false_ne_true] at hholds
  exact ⟨⟨hholds ▸ hbooks,Flagged.give h.flagged hw⟩,view_congr _ (hholds ▸ huntouched)⟩

def SameEntries (spaces spaces' : Spaces) : Prop := ∀ c i, (spaces' c).map (·.entry i) = (spaces c).map (·.entry i)

namespace SameEntries

lemma update (ha : spaces a = some as) (h : ∀ i, as'.entry i = as.entry i) :
    SameEntries spaces (update spaces a (some as')) := by
  intro c i
  by_cases hc : c = a
  · subst hc
    rw [update_self,ha,Option.map_some,Option.map_some,h]
  · rw [update_of_ne hc]

lemma back (h : SameEntries spaces spaces') (hc : spaces' a = some as') (i : Index) :
    ∃ as, spaces a = some as ∧ as'.entry i = as.entry i := by
  have hi := h a i
  rw [hc,Option.map_some] at hi
  obtain ⟨as,has,heq⟩ := Option.map_eq_some_iff.mp hi.symm
  exact ⟨as,has,heq.symm⟩

lemma symm (h : SameEntries spaces spaces') : SameEntries spaces' spaces := fun c i => (h c i).symm

lemma exclusive (h : SameEntries spaces spaces') {k : Holder} (hk : Exclusive spaces' k) : Exclusive spaces k := by
  cases k with
  | kernel pa => trivial
  | part a p =>
    cases p with
    | l1 | l2 | l3 i => trivial
    | page i =>
      intro as ha
      obtain ⟨as',ha',heq⟩ := h.symm.back ha i
      exact (congrArg Desc.writable heq).trans (hk as' ha')

lemma flagged (h : SameEntries spaces spaces') (hf : Flagged spaces held) : Flagged spaces' held := by
  intro a as' i ha
  obtain ⟨as,has,heq⟩ := h.back ha i
  rw [heq]
  exact hf a as i has

lemma windowed (h : SameEntries spaces spaces') (hw : Windowed spaces' pa) : Windowed spaces pa := by
  obtain ⟨a,as',i,ha,hrest⟩ := hw
  obtain ⟨as,has,heq⟩ := h.back ha i
  rw [heq] at hrest
  exact ⟨a,as,i,has,hrest⟩

lemma view (h : SameEntries spaces spaces') : view m spaces' = view m spaces := by
  funext x
  have hx := congrArg (fun o => o.bind (Desc.cell m)) (h x.1 x.2)
  simpa [Memory.view,Option.bind_map,Function.comp_def] using hx

end SameEntries

lemma entry_newTable (h : as.l2 l = none) (pa : ℕ) (j : Index) :
    ({ as with l2 := update as.l2 l (some ⟨pa,fun _ => .zero⟩) } : AddressSpace).entry j = as.entry j := by
  by_cases hj : j.1 = l
  · subst hj
    rw [entry_of_none h,entry_of_table (t := ⟨pa,fun _ => .zero⟩) (update_self _ _ _)]
  · have hsame : update as.l2 l (some ⟨pa,fun _ => .zero⟩) j.1 = as.l2 j.1 := update_of_ne hj _ _
    show ((update as.l2 l _ j.1).map _).getD _ = _
    rw [hsame]
    rfl

lemma Accounted.l3For (h : Accounted tight m spaces held) (ha : spaces a = some as) (l : Fin 512) :
    as.l3For l m = none ∨ ∃ as' m', as.l3For l m = some (as',m') ∧ Accounted tight m' (update spaces a (some as')) held ∧
      Untouched m m' (holds spaces held) ∧ m'.rc = m.rc ∧ as'.l2 l ≠ none ∧ (∀ j, as'.entry j = as.entry j) ∧
        as' = { as with l2 := as'.l2 } := by
  unfold AddressSpace.l3For
  cases hl : as.l2 l with
  | some t =>
    have hsame : update spaces a (some as) = spaces := update_eq_self_iff.mpr ha.symm
    exact .inr ⟨as,m,rfl,hsame.symm ▸ h,fun _ _ _ => rfl,rfl,by rw [hl]; exact Option.some_ne_none t,fun _ => rfl,rfl⟩
  | none =>
    have hold : holds spaces held (.part a (.l3 l)) = none := by simp [holds,ha,AddressSpace.part,hl]
    rcases h.books.alloc (X := Exclusive spaces) hold (fun _ _ hq => hq) with hnone | ⟨pa,m',halloc,hne,-,hbooks,huntouched,hrc,-⟩
    · rw [hnone]
      exact .inl (if_pos rfl)
    · rw [halloc]
      dsimp only
      rw [if_neg hne]
      have hentry := entry_newTable hl pa
      have hsame := SameEntries.update ha hentry
      refine .inr ⟨_,_,rfl,⟨?_,hsame.flagged h.flagged⟩,huntouched,hrc,?_,hentry,rfl⟩
      · rw [holds_part ha (p := .l3 l) (o := some pa) (by simp [AddressSpace.part]) fun q hq => ?_]
        · exact ⟨hbooks.shared,fun k f hk => hbooks.alone k f (hsame.exclusive hk),hbooks.good⟩
        · cases q with
          | l1 | l2 => rfl
          | l3 k =>
            have hk : k ≠ l := fun heq => hq (congrArg Part.l3 heq)
            simp [AddressSpace.part,hk]
          | page j => exact congrArg Desc.frame (hentry j)
      · show update as.l2 l _ l ≠ none
        rw [update_self]
        exact Option.some_ne_none _

end VibeOS.Memory

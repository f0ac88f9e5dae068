import VibeOS.Memory.Isolation
import VibeOS.Memory.WindowPages

/-! `copy_to_user` of `uaccess.c`: every page of the buffer is made writable, and then the bytes go
through the entries of the caller. -/
namespace VibeOS.Memory
open Function List Option
open VibeOS.Storage

def Uaccess.efault : ℤ := 14

def rangeInUser (uptr len : UInt64) : Bool :=
  if uptr.toNat < userVaBase ∨ uptr.toNat ≥ userVaEnd then false
  -- `uptr + len` may wrap
  else if len.toNat > userVaEnd then false
  else if (uptr + len).toNat > userVaEnd then false
  else true

namespace AddressSpace
variable (as : AddressSpace)

/-- `prefault_user_write`; what the first call returns is not looked at. -/
def prefaultUserWrite (va : ℕ) (mem : Mem) : Bool × AddressSpace × Mem :=
  let (_,as,mem) := as.handleMmapFault va true mem
  let (ok,as,m) := as.makeWritable va mem.pmem
  (ok,as,{ mem with pmem := m })

/-- The loop of `copy_to_user` over the pages. -/
def prefaultPages : ℕ → ℕ → AddressSpace → Mem → Bool × AddressSpace × Mem
  | 0, _, as, mem => (true,as,mem)
  | n + 1, p, as, mem =>
    match as.prefaultUserWrite p mem with
    | (false,as,mem) => (false,as,mem)
    | (true,as,mem) => prefaultPages n (p + pageSize) as mem

def CanWrite (i : Index) : Prop := (as.entry i).valid = true ∧ (as.entry i).writable = true

instance (i : Index) : Decidable (as.CanWrite i) := inferInstanceAs (Decidable (_ ∧ _))

/-- The loop over the first `n` bytes. An abort at EL1 ends the machine. -/
def copyBytes (uptr : ℕ) (src : ℕ → UInt8) : ℕ → Pmem → Option Pmem
  | 0, m => some m
  | n + 1, m => (copyBytes uptr src n m).bind fun m =>
    if as.CanWrite (indexOf (uptr + n)) then some (storeByte as (uptr + n) (src n) m) else none

end AddressSpace

/-- `copy_to_user` by a thread whose address space is `a`. -/
def Kernel.copyToUser (k : Kernel) (a : ℕ) (uptr : UInt64) (src : ℕ → UInt8) (len : UInt64) : Option (ℤ × Kernel) :=
  if !rangeInUser uptr len then some (-Uaccess.efault,k)
  else (k.spaces a).bind fun as =>
    let first := uptr.toNat/pageSize*pageSize
    let last := (uptr + len - 1).toNat/pageSize*pageSize
    let pages := if len = 0 then 0 else (last - first)/pageSize + 1
    match as.prefaultPages pages first k.mem with
    | (false,as,mem) => some (-Uaccess.efault,{ k with mem := mem, spaces := update k.spaces a (some as) })
    | (true,as,mem) => (as.copyBytes uptr.toNat src len.toNat mem.pmem).map fun m =>
        (0,{ k with mem := { mem with pmem := m }, spaces := update k.spaces a (some as) })

variable {k : Kernel} {m m' m'' : Pmem} {mem : Mem} {spaces : Spaces} {held : ℕ → Bool} {as as' as'' bs : AddressSpace}
  {a b f p pa va n : ℕ} {i j : Index} {d : Desc}

/-- Only frames that were free have other bytes, and no frame comes free. -/
structure Spares (m m' : Pmem) : Prop where
  bytes : ∀ f, f ∉ m.free → m'.bytes f = m.bytes f
  free : ∀ f ∈ m'.free, f ∈ m.free

namespace Spares

lemma refl (m : Pmem) : Spares m m := ⟨fun _ _ => rfl,fun _ hf => hf⟩

lemma trans (h : Spares m m') (h' : Spares m' m'') : Spares m m'' :=
  ⟨fun f hf => (h'.bytes f fun hno => hf (h.free f hno)).trans (h.bytes f hf),fun f hf => h.free f (h'.free f hf)⟩

lemma write (h : Spares m m') (hpa : pa ∈ m.free) (page : ℕ → UInt8) :
    Spares m { m' with bytes := update m'.bytes pa page } := by
  refine ⟨fun f hf => ?_,h.free⟩
  have hne : f ≠ pa := fun heq => hf (heq ▸ hpa)
  exact (update_of_ne hne _ _).trans (h.bytes f hf)

lemma freePage (h : Spares m m') (hpa : pa ∈ m.free) : Spares m (m'.freePage pa) := by
  unfold Pmem.freePage
  split
  · exact h
  · refine ⟨(h.write hpa _).bytes,fun f hf => ?_⟩
    rcases List.mem_cons.mp hf with rfl | hf
    · exact hpa
    · exact h.free f hf

lemma refcountDec (h : Spares m m') (f : ℕ) : Spares m (m'.refcountDec f) := by
  unfold Pmem.refcountDec Pmem.refcountSet
  split
  · exact h
  split
  · exact ⟨h.bytes,h.free⟩
  · exact h

end Spares

lemma allocPage_spares (h : m.allocPage = (pa,m')) :
    Spares m m' ∧ (pa ≠ 0 → pa ∈ m.free ∧ (m.free.Nodup → pa ∉ m'.free) ∧ m'.bytes pa = fun _ => 0) := by
  unfold Pmem.allocPage at h
  cases hfree : m.free with
  | nil =>
    rw [hfree] at h
    cases h
    exact ⟨.refl m,fun hne => absurd rfl hne⟩
  | cons q rest =>
    rw [hfree] at h
    cases h
    have hmem : pa ∈ m.free := hfree ▸ mem_cons_self
    refine ⟨⟨fun f hf => ?_,fun f hf => hfree ▸ mem_cons_of_mem _ hf⟩,fun _ => ⟨mem_cons_self,fun hnodup => ?_,?_⟩⟩
    · have hne : f ≠ pa := by
        rintro rfl
        exact hf hmem
      exact update_of_ne hne _ _
    · exact (List.nodup_cons.mp hnodup).1
    · exact update_self _ _ _

lemma l3For_spares {l : Fin 512} (h : as.l3For l m = some (as',m')) : Spares m m' := by
  unfold AddressSpace.l3For at h
  cases hl : as.l2 l with
  | some t =>
    rw [hl] at h
    cases h
    exact .refl m
  | none =>
    rw [hl] at h
    dsimp only at h
    split at h
    · cases h
    · cases h
      exact (allocPage_spares (Prod.eta m.allocPage).symm).1

def AddressSpace.sees (as : AddressSpace) (m : Pmem) (j : Index) : Option (ℕ → UInt8) :=
  if (as.entry j).valid then some (m.bytes (as.entry j).pa) else none

/-- A page of an anonymous region that can be written. A fault fills it with zeros. -/
def AddressSpace.OnDemand (as : AddressSpace) (j : Index) : Prop := ∃ va, InUser va ∧ indexOf va = j ∧
  ∃ v, AddressSpace.vmaFind (va/pageSize*pageSize) as.vmas = some v ∧ v.kind = .anon ∧ v.prot &&& AddressSpace.protWrite ≠ 0

/-- The page belongs to a window or to the page cache. -/
def Desc.Lent (d : Desc) : Prop := d.valid = true ∧ d.frame = none

def AddressSpace.NoneFree (as : AddressSpace) (m : Pmem) : Prop := ∀ j, (as.entry j).valid = true → (as.entry j).pa ∉ m.free

/-- A program sees the same pages, and perhaps a few of zeros that a fault would have brought.
Only entries that a write fault may change do. -/
structure Settles (as : AddressSpace) (m : Pmem) (as' : AddressSpace) (m' : Pmem) : Prop where
  seen : ∀ j, as'.sees m' j = as.sees m j ∨ (as.sees m j = none ∧ as.OnDemand j ∧ as'.sees m' j = some fun _ => 0)
  kept : ∀ j, (as.entry j).valid = true → (as.entry j).writable = true ∨ (as.entry j).cow = false → as'.entry j = as.entry j
  lent : ∀ j, (as'.entry j).Lent → as'.entry j = as.entry j
  spares : Spares m m'
  vmas : as'.vmas = as.vmas

namespace Settles

lemma refl (as : AddressSpace) (m : Pmem) : Settles as m as m := ⟨fun _ => .inl rfl,fun _ _ _ => rfl,fun _ _ => rfl,.refl m,rfl⟩

lemma trans (h : Settles as m as' m') (h' : Settles as' m' as'' m'') : Settles as m as'' m'' := by
  refine ⟨fun j => ?_,fun j hvalid hwhy => ?_,fun j hj => ?_,h.spares.trans h'.spares,h'.vmas.trans h.vmas⟩
  · rcases h'.seen j with hsame' | ⟨hnone,hdemand,hzero⟩
    · rw [hsame']
      exact h.seen j
    · rcases h.seen j with hsame | ⟨-,-,hsome⟩
      · refine .inr ⟨hsame.symm.trans hnone,?_,hzero⟩
        unfold AddressSpace.OnDemand at hdemand
        rwa [h.vmas] at hdemand
      · exact nomatch hsome.symm.trans hnone
  · have heq := h.kept j hvalid hwhy
    rw [h'.kept j (heq ▸ hvalid) (heq ▸ hwhy),heq]
  · have heq := h'.lent j hj
    exact heq.trans (h.lent j (heq ▸ hj))

lemma sees_eq (hmapped : as.NoneFree m) (hs : Spares m m') (j : Index) :
    as.sees m' j = as.sees m j := by
  unfold AddressSpace.sees
  split
  next hj => rw [hs.bytes _ (hmapped j hj)]
  next => rfl

lemma frames (hmapped : as.NoneFree m) (hs : Spares m m') : Settles as m as m' :=
  ⟨fun j => .inl (sees_eq hmapped hs j),fun _ _ _ => rfl,fun _ _ => rfl,hs,rfl⟩

lemma update (hentry : ∀ j, as'.entry j = if j = i then d else as.entry j) (hs : Spares m m')
    (hmapped : as.NoneFree m) (hd : d.frame ≠ none) (hv : as'.vmas = as.vmas)
    (hold : ((as.entry i).valid = false ∧ as.OnDemand i ∧ m'.bytes d.pa = fun _ => 0) ∨
      ((as.entry i).valid = true ∧ (as.entry i).writable = false ∧ (as.entry i).cow = true ∧
        m'.bytes d.pa = m.bytes (as.entry i).pa)) : Settles as m as' m' := by
  obtain ⟨g,hg⟩ := Option.ne_none_iff_exists'.mp hd
  have hdvalid := (frame_eq hg).1
  refine ⟨fun j => ?_,fun j hvalid hwhy => ?_,fun j hj => ?_,hs,hv⟩
  · by_cases hj : j = i
    · subst hj
      unfold AddressSpace.sees
      rw [hentry,if_pos rfl,if_pos hdvalid]
      rcases hold with ⟨hno,hdemand,hzero⟩ | ⟨hvalid,-,-,hbytes⟩
      · rw [if_neg (by simp [hno]),hzero]
        exact .inr ⟨rfl,hdemand,rfl⟩
      · rw [if_pos hvalid,hbytes]
        exact .inl rfl
    · refine .inl (Eq.trans ?_ (sees_eq hmapped hs j))
      unfold AddressSpace.sees
      rw [hentry,if_neg hj]
  · rw [hentry,if_neg]
    rintro rfl
    rcases hold with ⟨hno,-⟩ | ⟨-,hw,hc,-⟩
    · exact nomatch hno.symm.trans hvalid
    · rcases hwhy with h | h
      · exact nomatch hw.symm.trans h
      · exact nomatch hc.symm.trans h
  · by_cases hji : j = i
    · rw [hentry,if_pos hji] at hj
      exact absurd hj.2 hd
    · rw [hentry,if_neg hji]

end Settles

lemma table_of_lookup {e : Desc} (h : as.entryLookup i = some e) : as.l2 i.1 ≠ none := by
  intro hnone
  unfold AddressSpace.entryLookup at h
  rw [hnone] at h
  cases h

lemma handleCowFault_settles (hmapped : as.NoneFree m) (va : ℕ) :
    Settles as m (as.handleCowFault va m).2.1 (as.handleCowFault va m).2.2 := by
  unfold AddressSpace.handleCowFault
  dsimp only
  rw [indexOf_page]
  split
  · exact .refl as m
  cases hlook : as.entryLookup (indexOf va) with
  | none => exact .refl as m
  | some e =>
    have hentry := entry_of_lookup hlook
    have ht := table_of_lookup hlook
    dsimp only
    cases hvalid : e.valid with
    | false => exact .refl as m
    | true =>
      cases hcow : e.cow with
      | false => exact .refl as m
      | true =>
        cases hw : e.writable with
        | true => exact .refl as m
        | false =>
          have hpa := hmapped _ (hentry ▸ hvalid)
          rw [hentry] at hpa
          simp only [Bool.not_true,Bool.false_eq_true,if_false]
          have hchange {m' : Pmem} {g : ℕ} (hs : Spares m m') (hbytes : m'.bytes g = m.bytes e.pa) :
              Settles as m (as.setEntry (indexOf va) (.page g true (!e.uxn))) m' := by
            refine .update (entry_setEntry ht) hs hmapped (by rw [frame_page]; exact some_ne_none _) rfl (.inr ?_)
            rw [hentry]
            exact ⟨hvalid,hw,hcow,hbytes⟩
          split
          · split
            · exact hchange ((Spares.refl m).refcountDec _) (((Spares.refl m).refcountDec e.pa).bytes _ hpa)
            · exact hchange (.refl m) rfl
          · cases halloc : m.allocPage with
            | mk new m₁ =>
            obtain ⟨hs,hnew⟩ := allocPage_spares halloc
            dsimp only
            split
            · exact .frames hmapped hs
            next hne =>
              have hcopied : Spares m (AddressSpace.copyPage m₁ e.pa new) := hs.write (hnew hne).1 _
              refine hchange (hcopied.refcountDec _) ?_
              have hdec : ((AddressSpace.copyPage m₁ e.pa new).refcountDec e.pa).bytes = (AddressSpace.copyPage m₁ e.pa new).bytes := by
                unfold Pmem.refcountDec Pmem.refcountSet
                split_ifs <;> rfl
              rw [hdec]
              exact (update_self _ _ _).trans (hs.bytes _ hpa)

lemma makeWritable_settles (hmapped : as.NoneFree m) (va : ℕ) :
    Settles as m (as.makeWritable va m).2.1 (as.makeWritable va m).2.2 := by
  unfold AddressSpace.makeWritable
  split
  · exact .refl as m
  cases as.entryLookup (indexOf va) with
  | none => exact .refl as m
  | some e =>
    dsimp only
    split
    · exact .refl as m
    split
    · exact .refl as m
    split
    · exact .refl as m
    · exact handleCowFault_settles hmapped va

/-- The accounts fit. Frames of windows and of the page cache are the kernel's; a window is mapped
once in an address space, and regions of files are for reading. -/
structure Orderly (m : Pmem) (spaces : Spaces) (held : ℕ → Bool) : Prop where
  accounted : Accounted False m spaces held
  backed : ∀ a as i, spaces a = some as → (as.entry i).Lent → held (as.entry i).pa = true
  windows : ∀ a as i b bs j, spaces a = some as → spaces b = some bs → (as.entry i).Lent → (as.entry i).writable = true →
    (bs.entry j).Lent → (bs.entry j).pa = (as.entry i).pa →
      (b,j) = (a,i) ∨ (b ≠ a ∧ (as.entry i).wmWindow = true ∧ (bs.entry j).wmWindow = true ∧ (bs.entry j).writable = true)
  files : ∀ a as, spaces a = some as → ∀ v ∈ as.vmas, v.kind = .fileRamfs → v.prot &&& AddressSpace.protWrite = 0

def Kernel.Orderly (k : Kernel) : Prop := ∃ held, Memory.Orderly k.mem.pmem k.spaces held

namespace Orderly

lemma mapped (h : Orderly m spaces held) (ha : spaces a = some as) : as.NoneFree m := by
  intro j hj
  cases hf : (as.entry j).frame with
  | some f =>
    rw [(frame_eq hf).2.2.2]
    exact h.accounted.books.shared.not_free ((holds_page held ha j).trans hf)
  | none =>
    have hk : holds spaces held (.kernel (as.entry j).pa) = some (as.entry j).pa := by
      simp [holds,h.backed a as j ha ⟨hj,hf⟩]
    exact h.accounted.books.shared.not_free hk

lemma lent_before (ha : spaces a = some as) (hs : Settles as m as' m') {c : ℕ} {cs : AddressSpace}
    (hc : update spaces a (some as') c = some cs) :
    ∃ cs₀, spaces c = some cs₀ ∧ ∀ j, (cs.entry j).Lent → cs.entry j = cs₀.entry j := by
  rcases update_cases hc with ⟨rfl,heq⟩ | ⟨-,hc⟩
  · cases heq
    exact ⟨as,ha,hs.lent⟩
  · exact ⟨cs,hc,fun _ _ => rfl⟩

lemma settle (h : Orderly m spaces held) (ha : spaces a = some as) (hs : Settles as m as' m')
    (hacc : Accounted False m' (update spaces a (some as')) held) :
    Orderly m' (update spaces a (some as')) held := by
  refine ⟨hacc,fun c cs i hc hi => ?_,fun c cs i d ds j hc hd hi hw hj hpa => ?_,fun c cs hc v hv => ?_⟩
  · obtain ⟨cs₀,hc₀,hsame⟩ := lent_before ha hs hc
    have heq := hsame i hi
    rw [heq] at hi ⊢
    exact h.backed c cs₀ i hc₀ hi
  · obtain ⟨cs₀,hc₀,hcs⟩ := lent_before ha hs hc
    obtain ⟨ds₀,hd₀,hds⟩ := lent_before ha hs hd
    have heq := hcs i hi
    have heq' := hds j hj
    rw [heq] at hi hw hpa ⊢
    rw [heq'] at hj hpa ⊢
    exact h.windows c cs₀ i d ds₀ j hc₀ hd₀ hi hw hj hpa
  · rcases update_cases hc with ⟨-,heq⟩ | ⟨-,hc⟩
    · cases heq
      rw [hs.vmas] at hv
      exact h.files a as ha v hv
    · exact h.files c cs hc v hv

lemma alone (h : Orderly m spaces held) (ha : spaces a = some as) (hw : as.CanWrite i) (hb : spaces b = some bs)
    (hj : (bs.entry j).valid = true) (hpa : (bs.entry j).pa = (as.entry i).pa) :
    (b,j) = (a,i) ∨ (b ≠ a ∧ (as.entry i).wmWindow = true ∧ (bs.entry j).wmWindow = true ∧ (bs.entry j).writable = true) := by
  have hbooks := h.accounted.books
  have hkernel (g : ℕ) (hg : held g = true) : holds spaces held (.kernel g) = some g := by simp [holds,hg]
  cases hf : (as.entry i).frame with
  | some f =>
    have hself := (holds_page held ha i).trans hf
    have hrc := hbooks.alone (.part a (.page i)) f (fun as₁ ha₁ => some.inj (ha.symm.trans ha₁) ▸ hw.2) hself
    have hpf := (frame_eq hf).2.2.2
    cases hg : (bs.entry j).frame with
    | some g =>
      have hgf : g = f := (frame_eq hg).2.2.2.symm.trans (hpa.trans hpf)
      have hother := (holds_page held hb j).trans hg
      rw [hgf] at hother
      obtain ⟨rfl,hpage⟩ := Holder.part.inj (hbooks.shared.sole (by omega) hself hother)
      exact .inl (congrArg (Prod.mk b) (Part.page.inj hpage))
    | none =>
      have hheld := h.backed b bs j hb ⟨hj,hg⟩
      rw [hpa,hpf] at hheld
      cases hbooks.shared.sole (by omega) hself (hkernel f hheld)
  | none =>
    cases hg : (bs.entry j).frame with
    | some g =>
      have hheld := h.backed a as i ha ⟨hw.1,hf⟩
      have hgpa : g = (as.entry i).pa := (frame_eq hg).2.2.2.symm.trans hpa
      have hother := (holds_page held hb j).trans hg
      rw [hgpa] at hother
      have hrc := hbooks.alone (.kernel _) _ trivial (hkernel _ hheld)
      cases hbooks.shared.sole (by omega) (hkernel _ hheld) hother
    | none => exact h.windows a as i b bs j ha hb ⟨hw.1,hf⟩ hw.2 ⟨hj,hg⟩ hpa

end Orderly

lemma Kernel.Balanced.orderly (h : k.Balanced False) : k.Orderly := by
  obtain ⟨held,hacc,-⟩ := h.accounts
  have hplain {a : ℕ} {as : AddressSpace} {i : Index} (ha : k.spaces a = some as) (hi : (as.entry i).Lent) : False :=
    nomatch hi.2.symm.trans (h.plain a as ha i hi.1)
  refine ⟨held,hacc,fun a as i ha hi => (hplain ha hi).elim,fun a as i b bs j ha hb hi hw hj hpa => (hplain ha hi).elim,
    fun a as ha v hv hkind => ?_⟩
  exact nomatch hkind.symm.trans (h.anon a as ha v hv)

lemma run_orderly {k₀ : Kernel} (es : List KernelEvent) (hboots : k₀.Boots) (h : Runs Kernel.step (fun k e => k.Contract e ∧
    ∀ a b kmallocOk src, e = .clone a b kmallocOk → k.spaces a = some src → ForkRoom k.mem.pmem src) k₀ es k) : k.Orderly :=
  (h.invariant (I := Kernel.Balanced False)
    (fun _ _ _ _ hk hok hstep => step_balanced hk hok.1 False.elim hok.2 hstep) (boots_balanced hboots)).orderly

lemma handleMmapFault_settles (h : Orderly mem.pmem spaces held) (ha : spaces a = some as) (va : ℕ) :
    Settles as mem.pmem (as.handleMmapFault va true mem).2.1 (as.handleMmapFault va true mem).2.2.pmem := by
  unfold AddressSpace.handleMmapFault
  dsimp only
  rw [indexOf_page]
  split
  · exact .refl as mem.pmem
  next hin =>
    cases hfind : AddressSpace.vmaFind (va/pageSize*pageSize) as.vmas with
    | none => exact .refl as mem.pmem
    | some v =>
      dsimp only
      split
      · exact .refl as mem.pmem
      next hprot =>
        have hprot' : v.prot &&& AddressSpace.protWrite ≠ 0 := fun hno => hprot ⟨rfl,hno⟩
        have hanon : v.kind = .anon := by
          cases hkind : v.kind with
          | anon => rfl
          | fileRamfs => exact absurd (h.files a as ha v (mem_of_vmaFind hfind) hkind) hprot'
        split
        · exact .refl as mem.pmem
        next hinvalid =>
          rw [hanon]
          dsimp only
          have hnot : (as.entry (indexOf va)).valid = false := by
            unfold AddressSpace.entry
            cases hlook : as.entryLookup (indexOf va) with
            | none => rfl
            | some e =>
              rw [hlook] at hinvalid
              simpa using hinvalid
          cases halloc : mem.pmem.allocPage with
          | mk pa m₁ =>
          obtain ⟨hs,hnew⟩ := allocPage_spares halloc
          dsimp only
          split
          · exact .frames (h.mapped ha) hs
          next hne =>
            obtain ⟨hmem,hused,hzero⟩ := hnew hne
            cases hl3 : as.l3For (indexOf va).1 m₁ with
            | none => exact .frames (h.mapped ha) (hs.freePage hmem)
            | some r =>
              obtain ⟨as₁,m₂⟩ := r
              have hs₂ := l3For_spares hl3
              obtain ⟨ht,hentry,-,honly⟩ := l3For_stays hl3
              refine .update (i := indexOf va) (d := AddressSpace.buildUserDesc pa (v.prot &&& AddressSpace.protWrite != 0) false)
                (fun j => ?_) (hs.trans hs₂) (h.mapped ha) nofun ?_ (.inl ⟨hnot,⟨va,by unfold InUser; omega,rfl,v,hfind,hanon,hprot'⟩,?_⟩)
              · exact (entry_setEntry ht j).trans (by rw [hentry])
              · show as₁.vmas = as.vmas
                rw [honly]
              · exact (hs₂.bytes pa (hused h.accounted.books.shared.nodup)).trans hzero

lemma prefaultUserWrite_spec (h : Orderly mem.pmem spaces held) (ha : spaces a = some as) (va : ℕ) {ok : Bool} {mem' : Mem}
    (hr : as.prefaultUserWrite va mem = (ok,as',mem')) : Orderly mem'.pmem (update spaces a (some as')) held ∧
      Settles as mem.pmem as' mem'.pmem ∧ (ok = true → as'.CanWrite (indexOf va)) := by
  unfold AddressSpace.prefaultUserWrite at hr
  have hfault := handleMmapFault_settles h ha va
  obtain ⟨ok₁,as₁,mem₁,hmmap,hacc,-⟩ := handleMmapFault_spec va true h.accounted ha fun v hv => by
    cases hkind : v.kind with
    | anon => exact .inl rfl
    | fileRamfs => exact .inr ⟨rfl,h.files a as ha v hv hkind⟩
  rw [hmmap] at hfault hr
  have h₁ := h.settle ha hfault hacc
  have ha₁ : update spaces a (some as₁) a = some as₁ := update_self _ _ _
  have hresolved := makeWritable_spec va h₁.accounted ha₁
  have hwritable := makeWritable_settles (h₁.mapped ha₁) va
  have h₂ := h₁.settle ha₁ hwritable hresolved.accounted
  rw [update_idem] at h₂
  cases hr
  exact ⟨h₂,hfault.trans hwritable,hresolved.writable⟩

lemma prefaultPages_spec (n p : ℕ) (h : Orderly mem.pmem spaces held) (ha : spaces a = some as) {ok : Bool} {mem' : Mem}
    (hr : AddressSpace.prefaultPages n p as mem = (ok,as',mem')) : Orderly mem'.pmem (update spaces a (some as')) held ∧
      Settles as mem.pmem as' mem'.pmem ∧ (ok = true → ∀ k < n, as'.CanWrite (indexOf (p + k*pageSize))) := by
  induction n generalizing p as mem spaces with
  | zero =>
    cases hr
    rw [update_eq_self_iff.mpr ha.symm]
    exact ⟨h,.refl _ _,fun _ k hk => absurd hk (Nat.not_lt_zero k)⟩
  | succ n ih =>
    rw [AddressSpace.prefaultPages] at hr
    cases hpage : as.prefaultUserWrite p mem with
    | mk ok₁ r =>
    obtain ⟨as₁,mem₁⟩ := r
    obtain ⟨h₁,hs₁,hw₁⟩ := prefaultUserWrite_spec h ha p hpage
    rw [hpage] at hr
    cases ok₁ with
    | false =>
      cases hr
      exact ⟨h₁,hs₁,nofun⟩
    | true =>
      obtain ⟨h₂,hs₂,hw₂⟩ := ih (p + pageSize) h₁ (update_self _ _ _) hr
      rw [update_idem] at h₂
      refine ⟨h₂,hs₁.trans hs₂,fun hok k hk => ?_⟩
      cases k with
      | zero =>
        rw [Nat.zero_mul,Nat.add_zero]
        obtain ⟨hvalid,hwritable⟩ := hw₁ rfl
        have heq := hs₂.kept _ hvalid (.inl hwritable)
        unfold AddressSpace.CanWrite
        rw [heq]
        exact ⟨hvalid,hwritable⟩
      | succ k =>
        have hlater := hw₂ hok k (by omega)
        rwa [show p + pageSize + k*pageSize = p + (k+1)*pageSize by rw [Nat.succ_mul]; omega] at hlater

lemma copyBytes_spec (uptr : ℕ) (src : ℕ → UInt8) (n : ℕ) (hw : ∀ i < n, as.CanWrite (indexOf (uptr + i)))
    (hinj : ∀ i < n, ∀ j < n, (as.entry (indexOf (uptr + i))).pa = (as.entry (indexOf (uptr + j))).pa →
      (uptr + i) % pageSize = (uptr + j) % pageSize → i = j) :
    ∃ bytes, as.copyBytes uptr src n m = some { m with bytes := bytes } ∧
      (∀ i < n, bytes (as.entry (indexOf (uptr + i))).pa ((uptr + i) % pageSize) = src i) ∧
        ∀ f off, (∀ i < n, (as.entry (indexOf (uptr + i))).pa = f → (uptr + i) % pageSize ≠ off) → bytes f off = m.bytes f off := by
  induction n with
  | zero => exact ⟨m.bytes,rfl,fun i hi => absurd hi (Nat.not_lt_zero i),fun _ _ _ => rfl⟩
  | succ n ih =>
    obtain ⟨bytes,hrun,hdata,hsame⟩ := ih (fun i hi => hw i (by omega)) fun i hi j hj => hinj i (by omega) j (by omega)
    have hnow : (as.copyBytes uptr src (n+1) m) = some (storeByte as (uptr + n) (src n) { m with bytes := bytes }) := by
      rw [AddressSpace.copyBytes,hrun,bind_some,if_pos (hw n (by omega))]
    have hstore (f off : ℕ) : (storeByte as (uptr + n) (src n) { m with bytes := bytes }).bytes f off =
        if f = (as.entry (indexOf (uptr + n))).pa ∧ off = (uptr + n) % pageSize then src n else bytes f off := by
      unfold storeByte
      dsimp only
      by_cases hf : f = (as.entry (indexOf (uptr + n))).pa
      · subst hf
        rw [update_self,update_apply]
        simp
      · rw [update_of_ne hf,if_neg fun hno => hf hno.1]
    refine ⟨_,hnow,fun i hi => ?_,fun f off hout => ?_⟩
    · refine (hstore _ _).trans ?_
      split
      next hhit => rw [hinj i hi n (by omega) hhit.1 hhit.2]
      next hmiss =>
        have hne : i ≠ n := by
          rintro rfl
          exact hmiss ⟨rfl,rfl⟩
        exact hdata i (by omega)
    · refine (hstore _ _).trans ?_
      rw [if_neg fun hno => hout n (by omega) hno.1.symm hno.2.symm]
      exact hsame f off fun i hi => hout i (by omega)

lemma inUser_iff : InUser va ↔ userVaBase ≤ va ∧ va < userVaEnd := by
  unfold InUser userVaBase userVaEnd pageSize
  omega

lemma rangeInUser_iff (uptr len : UInt64) : rangeInUser uptr len = true ↔
    userVaBase ≤ uptr.toNat ∧ uptr.toNat < userVaEnd ∧ uptr.toNat + len.toNat ≤ userVaEnd := by
  have hsum := UInt64.toNat_add uptr len
  have := uptr.toNat_lt
  have := len.toNat_lt
  unfold rangeInUser
  rw [hsum]
  split_ifs <;> unfold userVaBase userVaEnd at * <;> simp <;> omega

lemma page_covered {uptr len : UInt64} (h : rangeInUser uptr len = true) {i : ℕ} (hi : i < len.toNat) :
    ∃ t, t < (if len = 0 then 0 else ((uptr + len - 1).toNat/pageSize*pageSize - uptr.toNat/pageSize*pageSize)/pageSize + 1) ∧
      (uptr.toNat/pageSize*pageSize + t*pageSize) = (uptr.toNat + i)/pageSize*pageSize := by
  obtain ⟨-,hlt,hle⟩ := (rangeInUser_iff uptr len).mp h
  have hne : len ≠ 0 := by
    rintro rfl
    exact absurd hi (Nat.not_lt_zero i)
  have hlast : (uptr + len - 1).toNat = uptr.toNat + len.toNat - 1 := by
    have hsum := UInt64.toNat_add uptr len
    have hsub := UInt64.toNat_sub_of_le (uptr + len) 1
    have hone : (1 : UInt64).toNat = 1 := rfl
    rw [UInt64.le_iff_toNat_le,hsum,hone] at hsub
    unfold userVaEnd at hlt hle
    omega
  rw [if_neg hne,hlast]
  refine ⟨(uptr.toNat + i)/pageSize - uptr.toNat/pageSize,?_,?_⟩
  · unfold pageSize
    omega
  · unfold pageSize
    omega

lemma read_eq (k : Kernel) (p va : ℕ) :
    k.read p va = (k.spaces p).bind fun as => (as.sees k.mem.pmem (indexOf va)).map fun page => page (va % pageSize) := by
  unfold Kernel.read AddressSpace.sees
  refine Option.bind_congr fun as _ => ?_
  dsimp only
  split <;> rfl

/-- A byte of a page of zeros that came in by the call, where a read would have brought it in. -/
def Kernel.Appears (k k' : Kernel) (a p va : ℕ) : Prop := p = a ∧ k.read p va = none ∧ k'.read p va = some 0 ∧
  ∃ as, k.spaces a = some as ∧ as.OnDemand (indexOf va)

/-- A byte of a window that the caller and another process have both, where the call wrote it. -/
def Kernel.Mirrors (k k' : Kernel) (a uptr : ℕ) (src : ℕ → UInt8) (len p va : ℕ) : Prop := p ≠ a ∧
  ∃ as bs, k.spaces a = some as ∧ k.spaces p = some bs ∧ (bs.entry (indexOf va)).wmWindow = true ∧
    ∃ i < len, (as.entry (indexOf (uptr + i))).wmWindow = true ∧ (bs.entry (indexOf va)).pa = (as.entry (indexOf (uptr + i))).pa ∧
      va % pageSize = (uptr + i) % pageSize ∧ k'.read p va = some (src i)

def Kernel.KeepsReadOnly (k k' : Kernel) : Prop := ∀ p as j, k.spaces p = some as → (as.entry j).valid = true →
  (as.entry j).writable = false → (as.entry j).cow = false →
    ∃ as', k'.spaces p = some as' ∧ as'.entry j = as.entry j ∧ k'.mem.pmem.bytes (as.entry j).pa = k.mem.pmem.bytes (as.entry j).pa

def Kernel.Untouched (k k' : Kernel) (a : ℕ) : Prop := ∀ p va, InUser va → k'.read p va = k.read p va ∨ k.Appears k' a p va

/-- A call that comes through. -/
structure Kernel.Copied (k k' : Kernel) (a uptr : ℕ) (src : ℕ → UInt8) (len : ℕ) : Prop where
  inUser : userVaBase ≤ uptr ∧ uptr + len ≤ userVaEnd
  data : ∀ i < len, k'.read a (uptr + i) = some (src i)
  others : ∀ p va, InUser va → (p = a → ∀ i < len, va ≠ uptr + i) →
    k'.read p va = k.read p va ∨ k.Appears k' a p va ∨ k.Mirrors k' a uptr src len p va
  siblings : ∀ p bs va, p ≠ a → InUser va → k.spaces p = some bs →
    (bs.entry (indexOf va)).wmWindow = false ∨ (bs.entry (indexOf va)).cow = true → k'.read p va = k.read p va

lemma Settles.reads {k' : Kernel} (hs : Settles as k.mem.pmem as' k'.mem.pmem) (ha : k.spaces a = some as)
    (hspaces : k'.spaces = Function.update k.spaces a (some as'))
    (hmapped : ∀ p bs, k.spaces p = some bs → bs.NoneFree k.mem.pmem) :
    k.Untouched k' a := by
  intro p va _
  unfold Kernel.Appears
  rw [read_eq k',read_eq k,hspaces]
  by_cases hp : p = a
  · subst hp
    rw [update_self,ha,bind_some,bind_some]
    rcases hs.seen (indexOf va) with hsame | ⟨hnone,hdemand,hzero⟩
    · exact .inl (by rw [hsame])
    · rw [hnone,hzero]
      exact .inr ⟨rfl,rfl,rfl,as,rfl,hdemand⟩
  · rw [update_of_ne hp]
    cases hb : k.spaces p with
    | none => exact .inl rfl
    | some bs =>
      rw [bind_some,bind_some,sees_eq (hmapped p bs hb) hs.spares]
      exact .inl rfl

lemma Settles.keepsReadOnly {k' : Kernel} (hs : Settles as k.mem.pmem as' k'.mem.pmem) (ha : k.spaces a = some as)
    (hspaces : k'.spaces = Function.update k.spaces a (some as'))
    (hmapped : ∀ p bs, k.spaces p = some bs → bs.NoneFree k.mem.pmem) :
    k.KeepsReadOnly k' := by
  intro p bs j hp hvalid hw hcow
  rw [hspaces]
  have hbytes := hs.spares.bytes _ (hmapped p bs hp j hvalid)
  by_cases hpa : p = a
  · subst hpa
    cases ha.symm.trans hp
    exact ⟨as',update_self _ _ _,hs.kept j hvalid (.inr hcow),hbytes⟩
  · exact ⟨bs,(update_of_ne hpa _ _).trans hp,rfl,hbytes⟩

lemma Kernel.KeepsReadOnly.trans {k₁ k₂ : Kernel} (h : k.KeepsReadOnly k₁) (h' : k₁.KeepsReadOnly k₂) : k.KeepsReadOnly k₂ := by
  intro p as j hp hvalid hw hcow
  obtain ⟨as₁,hp₁,heq,hbytes⟩ := h p as j hp hvalid hw hcow
  rw [← heq] at hvalid hw hcow hbytes
  obtain ⟨as₂,hp₂,heq',hbytes'⟩ := h' p as₁ j hp₁ hvalid hw hcow
  refine ⟨as₂,hp₂,heq'.trans heq,?_⟩
  rw [← heq]
  exact hbytes'.trans hbytes

lemma Kernel.Mirrors.before {k₁ k₂ : Kernel} {uptr len : ℕ} {src : ℕ → UInt8} (h : k₁.Mirrors k₂ a uptr src len p va)
    (hs : Settles as m as' m') (ha : k.spaces a = some as) (hspaces : k₁.spaces = update k.spaces a (some as'))
    (hw : ∀ i < len, as'.CanWrite (indexOf (uptr + i))) : k.Mirrors k₂ a uptr src len p va := by
  obtain ⟨hp,as₁,bs,ha₁,hb,hwindow,i,hi,hwin,hrest⟩ := h
  rw [hspaces] at ha₁ hb
  rw [update_self] at ha₁
  rw [update_of_ne hp] at hb
  cases ha₁
  have heq := hs.lent _ ⟨(hw i hi).1,by simp [Desc.frame,hwin]⟩
  rw [heq] at hwin hrest
  exact ⟨hp,as,bs,ha,hb,hwindow,i,hi,hwin,hrest⟩

section Bytes
variable {uptr : ℕ}

lemma Orderly.distinct (h : Orderly m spaces held) (ha : spaces a = some as) (hin : userVaBase ≤ uptr ∧ uptr + n ≤ userVaEnd)
    (hw : ∀ i < n, as.CanWrite (indexOf (uptr + i))) : ∀ i < n, ∀ j < n,
      (as.entry (indexOf (uptr + i))).pa = (as.entry (indexOf (uptr + j))).pa →
        (uptr + i) % pageSize = (uptr + j) % pageSize → i = j := by
  intro i hi j hj hpa hoff
  rcases h.alone ha (hw j hj) ha (hw i hi).1 hpa with heq | ⟨hne,-⟩
  · have hpage := indexOf_inj (by omega) (by omega) (Prod.mk.inj heq).2
    unfold pageSize at hpage hoff
    omega
  · exact absurd rfl hne

lemma copyBytes_reads (src : ℕ → UInt8) (h : Orderly k.mem.pmem k.spaces held) (ha : k.spaces a = some as)
    (hin : userVaBase ≤ uptr ∧ uptr + n ≤ userVaEnd) (hw : ∀ i < n, as.CanWrite (indexOf (uptr + i))) :
    ∃ m', as.copyBytes uptr src n k.mem.pmem = some m' ∧ (⟨{ k.mem with pmem := m' },k.spaces,k.fresh⟩ : Kernel).Orderly ∧
      k.KeepsReadOnly ⟨{ k.mem with pmem := m' },k.spaces,k.fresh⟩ ∧
      (∀ i < n, (⟨{ k.mem with pmem := m' },k.spaces,k.fresh⟩ : Kernel).read a (uptr + i) = some (src i)) ∧
        ∀ p va, InUser va → (p = a → ∀ i < n, va ≠ uptr + i) →
          (⟨{ k.mem with pmem := m' },k.spaces,k.fresh⟩ : Kernel).read p va = k.read p va ∨
            k.Mirrors ⟨{ k.mem with pmem := m' },k.spaces,k.fresh⟩ a uptr src n p va := by
  obtain ⟨bytes,hrun,hdata,hsame⟩ := copyBytes_spec (m := k.mem.pmem) uptr src n hw (h.distinct ha hin hw)
  refine ⟨_,hrun,⟨held,h.accounted.contents bytes,h.backed,h.windows,h.files⟩,fun p bs j hp hvalid hnot hcow => ?_,
    fun i hi => ?_,fun p va huser hout => ?_⟩
  · -- a page that is not written is at none of the places
    refine ⟨bs,hp,rfl,funext fun off => hsame _ _ fun i hi hpa _ => ?_⟩
    rcases h.alone ha (hw i hi) hp hvalid hpa.symm with heq | ⟨-,-,-,hwritable⟩
    · obtain ⟨rfl,rfl⟩ := Prod.mk.inj heq
      cases ha.symm.trans hp
      exact nomatch hnot.symm.trans (hw i hi).2
    · exact nomatch hnot.symm.trans hwritable
  · unfold Kernel.read
    rw [ha,bind_some]
    dsimp only
    rw [if_pos (hw i hi).1,hdata i hi]
  · cases hp : k.spaces p with
    | none =>
      unfold Kernel.read
      rw [hp]
      exact .inl rfl
    | some bs =>
      cases hvalid : (bs.entry (indexOf va)).valid with
      | false =>
        unfold Kernel.read
        rw [hp,bind_some,bind_some]
        dsimp only
        rw [hvalid]
        exact .inl rfl
      | true =>
        have hread (m' : Pmem) : (⟨{ k.mem with pmem := m' },k.spaces,k.fresh⟩ : Kernel).read p va =
            some (m'.bytes (bs.entry (indexOf va)).pa (va % pageSize)) := by
          unfold Kernel.read
          rw [hp,bind_some]
          exact if_pos hvalid
        by_cases hhit : ∃ i < n, (as.entry (indexOf (uptr + i))).pa = (bs.entry (indexOf va)).pa ∧ (uptr + i) % pageSize = va % pageSize
        · obtain ⟨i,hi,hpa,hoff⟩ := hhit
          rcases h.alone ha (hw i hi) hp hvalid hpa.symm with heq | ⟨hne,hwin,hwindow,-⟩
          · exfalso
            obtain ⟨rfl,hindex⟩ := Prod.mk.inj heq
            have hpage := indexOf_inj (inUser_iff.mp huser) (by omega) hindex
            refine hout rfl i hi ?_
            unfold pageSize at hpage hoff
            omega
          · refine .inr ⟨hne,as,bs,ha,hp,hwindow,i,hi,hwin,hpa.symm,hoff.symm,?_⟩
            rw [hread,← hpa,← hoff]
            exact congrArg some (hdata i hi)
        · refine .inl ((hread _).trans ((congrArg some ?_).trans (hread k.mem.pmem).symm))
          exact hsame _ _ fun i hi hpa hoff => hhit ⟨i,hi,hpa,hoff⟩

end Bytes

/-- `copy_to_user` does not stop the machine. When it fails, every process reads what it read before,
and when it comes through, the buffer holds the bytes and nothing else is different. -/
theorem copy_to_user_spec (hk : k.Orderly) (ha : k.spaces a = some as) (uptr len : UInt64) (src : ℕ → UInt8) :
    ∃ r k', k.copyToUser a uptr src len = some (r,k') ∧ k'.Orderly ∧ k.KeepsReadOnly k' ∧
      (r = -Uaccess.efault ∧ k.Untouched k' a ∨ r = 0 ∧ k.Copied k' a uptr.toNat src len.toNat) := by
  obtain ⟨held,h⟩ := hk
  unfold Kernel.copyToUser
  cases hrange : rangeInUser uptr len with
  | false => exact ⟨_,k,rfl,⟨held,h⟩,fun p bs j hp _ _ _ => ⟨bs,hp,rfl,rfl⟩,.inl ⟨rfl,fun p va _ => .inl rfl⟩⟩
  | true =>
    obtain ⟨hlo,hlt,hhi⟩ := (rangeInUser_iff uptr len).mp hrange
    rw [ha]
    simp only [Bool.not_true,Bool.false_eq_true,if_false,bind_some]
    generalize hpages : (if len = 0 then 0 else ((uptr + len - 1).toNat/pageSize*pageSize - uptr.toNat/pageSize*pageSize)/pageSize + 1) = pages
    cases hrun : AddressSpace.prefaultPages pages (uptr.toNat/pageSize*pageSize) as k.mem with
    | mk ok r =>
    obtain ⟨as',mem'⟩ := r
    obtain ⟨h₁,hs,hw⟩ := prefaultPages_spec pages _ h ha hrun
    have hmapped (p : ℕ) (bs : AddressSpace) (hp : k.spaces p = some bs) := h.mapped hp
    have huntouched : k.Untouched ⟨mem',update k.spaces a (some as'),k.fresh⟩ a := hs.reads ha rfl hmapped
    have hkeeps : k.KeepsReadOnly ⟨mem',update k.spaces a (some as'),k.fresh⟩ := hs.keepsReadOnly ha rfl hmapped
    cases ok with
    | false => exact ⟨_,_,rfl,⟨held,h₁⟩,hkeeps,.inl ⟨rfl,huntouched⟩⟩
    | true =>
      have hwrites (i : ℕ) (hi : i < len.toNat) : as'.CanWrite (indexOf (uptr.toNat + i)) := by
        obtain ⟨t,ht,hpage⟩ := page_covered hrange hi
        rw [hpages] at ht
        have hcan := hw rfl t ht
        rwa [hpage,indexOf_page] at hcan
      obtain ⟨m',hcopy,hgood,hro,hdata,hothers⟩ := copyBytes_reads (k := ⟨mem',update k.spaces a (some as'),k.fresh⟩)
        src h₁ (update_self _ _ _) ⟨hlo,hhi⟩ hwrites
      dsimp only at hcopy ⊢
      rw [hcopy]
      have hall (p va : ℕ) (huser : InUser va) (hout : p = a → ∀ i < len.toNat, va ≠ uptr.toNat + i) :
          (⟨{ mem' with pmem := m' },update k.spaces a (some as'),k.fresh⟩ : Kernel).read p va = k.read p va ∨
            k.Appears ⟨{ mem' with pmem := m' },update k.spaces a (some as'),k.fresh⟩ a p va ∨
              k.Mirrors ⟨{ mem' with pmem := m' },update k.spaces a (some as'),k.fresh⟩ a uptr.toNat src len.toNat p va := by
        rcases hothers p va huser hout with hsame | hmirror
        · rcases huntouched p va huser with hbefore | ⟨hp,hnone,hzero,hdemand⟩
          · exact .inl (hsame.trans hbefore)
          · exact .inr (.inl ⟨hp,hnone,hsame.trans hzero,hdemand⟩)
        · exact .inr (.inr (hmirror.before hs ha rfl hwrites))
      refine ⟨0,_,rfl,hgood,hkeeps.trans hro,.inr ⟨rfl,⟨hlo,hhi⟩,hdata,hall,fun p bs va hp huser hb hwhy => ?_⟩⟩
      rcases hall p va huser fun hno => absurd hno hp with hsame | ⟨hno,-⟩ | ⟨-,as₁,bs₁,-,hb₁,hwindow,i,-,-,-,-,hread⟩
      · exact hsame
      · exact absurd hno hp
      · cases hb.symm.trans hb₁
        rcases hwhy with hnot | hcow
        · exact nomatch hnot.symm.trans hwindow
        · -- pages of windows are not shared copies
          have hvalid : (bs.entry (indexOf va)).valid = true := by
            unfold Kernel.read at hread
            simp only [update_of_ne hp,hb,bind_some] at hread
            split at hread
            next hv => exact hv
            next => cases hread
          exact nomatch (h.accounted.flagged p bs _ hb hvalid (by simp [Desc.frame,hwindow])).1.symm.trans hcow

/-- After a fork the kernel writes two bytes for the child into a page that the parent has too. -/
theorem copy_to_user_after_fork : ∃ k k' : Kernel, k.copyToUser 1 (UInt64.ofNat userHeapBase) (fun i => UInt8.ofNat (7 + i)) 2 = some (0,k') ∧
    k'.read 1 userHeapBase = some 7 ∧ k'.read 1 (userHeapBase + 1) = some 8 ∧ k'.read 0 userHeapBase = some 0 := by
  have hsteps : ∃ (k k₁ k₂ : Kernel) (child parent : AddressSpace), Runs Kernel.step (fun k e => k.Contract e ∧
      ∀ a b kmallocOk src, e = .clone a b kmallocOk → k.spaces a = some src → ForkRoom k.mem.pmem src) eightFrames halfGrowth k ∧
        (∀ c, c ≠ 0 → k.spaces c = none) ∧ k.spaces 0 = some halfGrown ∧ k.mem.pmem.rc = (fun _ => 0) ∧
          k.step (.clone 0 1 true) = some (true,k₁) ∧ k₁.copyToUser 1 (UInt64.ofNat userHeapBase) (fun i => UInt8.ofNat (7 + i)) 2 = some (0,k₂) ∧
            k₁.spaces 1 = some child ∧ k₁.spaces 0 = some parent ∧ (parent.entry (indexOf userHeapBase)).cow = true ∧
              k₁.read 0 userHeapBase = some 0 := by
    refine ⟨_,_,_,_,_,.cons ⟨rfl,nofun⟩ rfl (.cons ⟨trivial,nofun⟩ rfl (.cons ⟨trivial,nofun⟩ rfl (.cons ⟨trivial,nofun⟩ rfl
      (.cons ⟨trivial,nofun⟩ rfl (.cons ⟨trivial,nofun⟩ rfl (.cons ⟨rfl,nofun⟩ rfl (.cons ⟨rfl,nofun⟩ rfl
        (.cons ⟨rfl,nofun⟩ rfl (.cons ⟨rfl,nofun⟩ rfl (.nil _)))))))))),
          fun c hc => (update_of_ne hc _ _).trans (update_of_ne hc _ _),rfl,rfl,step_clone_eq halfGrown rfl
            (cloneCow_one halfGrown_zero rfl rfl halfGrown_table),rfl,rfl,rfl,rfl,rfl⟩
  obtain ⟨k,k₁,k₂,child,parent,hrun,hnone,hparent,hrc,hclone,hcopy,hchild,hshares,hcow,hread⟩ := hsteps
  have hroom (a b : ℕ) (ok : Bool) (src : AddressSpace) (he : KernelEvent.clone 0 1 true = .clone a b ok)
      (hsrc : k.spaces a = some src) : ForkRoom k.mem.pmem src := by
    intro f
    cases he
    cases hparent.symm.trans hsrc
    have hcount : (allIndexes.countP fun j => (halfGrown.entry j).frame = some f) ≤ 1 :=
      countP_le_one (onePage_entry _ _ _ _) f
    rw [hrc]
    show max 1 0 + _ < _
    omega
  have hcontract : k.Contract (.clone 0 1 true) := by
    refine ⟨hnone 1 (by decide),fun as f ha => ?_⟩
    cases hparent.symm.trans ha
    exact few_sharers hparent hnone (onePage_entry _ _ _ _) f
  have hk := run_orderly _ eightFrames_boots (hrun.append (.cons ⟨hcontract,hroom⟩ hclone (.nil _)))
  obtain ⟨r,k',hr,-,-,hresult⟩ := copy_to_user_spec hk hchild (UInt64.ofNat userHeapBase) 2 fun i => UInt8.ofNat (7 + i)
  cases hcopy.symm.trans hr
  rcases hresult with ⟨hno,-⟩ | ⟨-,hcopied⟩
  · exact absurd hno (by decide)
  · have huser : InUser userHeapBase := inUser_iff.mpr (by decide)
    exact ⟨k₁,k₂,hcopy,hcopied.data 0 (by decide),hcopied.data 1 (by decide),
      (hcopied.siblings 0 parent userHeapBase (by decide) huser hshares (.inr hcow)).trans hread⟩

end VibeOS.Memory

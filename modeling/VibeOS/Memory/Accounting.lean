import VibeOS.Memory.Processes

/-! The sharing counts fit the page tables in every run in which no heap grows over a shared page. -/
namespace VibeOS.Memory
open Function (update update_eq_self_iff update_of_ne update_self)
open VibeOS.Storage

variable {tight : Prop} {k k' : Kernel} {held : ℕ → Bool} {as as' src dst : AddressSpace} {mem mem' : Mem}
  {m m' m₁ : Pmem} {a b f pa va : ℕ} {i : Index} {d : Desc} {ok : Bool}

lemma update_cases {spaces : Spaces} {o : Option AddressSpace} {c : ℕ} (h : update spaces a o c = some as) :
    (c = a ∧ o = some as) ∨ (c ≠ a ∧ spaces c = some as) := by
  by_cases hc : c = a
  · subst hc
    rw [update_self] at h
    exact .inl ⟨rfl,h⟩
  · exact .inr ⟨hc,(update_of_ne hc _ _).symm.trans h⟩

/-- The accounts fit, callers have in hand what they think, and every process has only pages of its
own. -/
structure Kernel.Balanced (tight : Prop) (k : Kernel) : Prop where
  accounts : ∃ held, Accounted tight k.mem.pmem k.spaces held ∧ ∀ f, k.fresh f = true → held f = true
  plain : ∀ a as, k.spaces a = some as → Plain as
  anon : ∀ a as, k.spaces a = some as → AllAnon as

namespace Kernel.Balanced

lemma not_windowed (h : k.Balanced tight) : ¬ Windowed k.spaces pa := by
  rintro ⟨a,as,i,ha,hvalid,hframe,-⟩
  exact absurd (hframe.symm.trans (h.plain a as ha i hvalid)) nofun

lemma on_fresh (h : k.Balanced tight) {g : AddressSpace → Mem → Bool × AddressSpace × Mem} (hstep : k.on a g = some (ok,k'))
    (fresh : ℕ → Bool) (hg : ∀ as held, k.spaces a = some as → Accounted tight k.mem.pmem k.spaces held →
      (∀ f, k.fresh f = true → held f = true) → ∃ ok as' mem' held', g as k.mem = (ok,as',mem') ∧
        Accounted tight mem'.pmem (update k.spaces a (some as')) held' ∧ (∀ f, fresh f = true → held' f = true) ∧
          Plain as' ∧ AllAnon as') : Kernel.Balanced tight { k' with fresh := fresh } := by
  obtain ⟨held,hacc,hfresh⟩ := h.accounts
  unfold Kernel.on at hstep
  obtain ⟨as,ha,hr⟩ := Option.map_eq_some_iff.mp hstep
  obtain ⟨ok',as',mem',held',heq,hacc',hfresh',hplain,hanon⟩ := hg as held ha hacc hfresh
  rw [heq] at hr
  cases hr
  refine ⟨⟨held',hacc',hfresh'⟩,fun c as₁ hc => ?_,fun c as₁ hc => ?_⟩
  · rcases update_cases hc with ⟨-,hc⟩ | ⟨-,hc⟩
    · exact Option.some.inj hc ▸ hplain
    · exact h.plain c as₁ hc
  · rcases update_cases hc with ⟨-,hc⟩ | ⟨-,hc⟩
    · exact Option.some.inj hc ▸ hanon
    · exact h.anon c as₁ hc

lemma on (h : k.Balanced tight) {g : AddressSpace → Mem → Bool × AddressSpace × Mem} (hstep : k.on a g = some (ok,k'))
    (hg : ∀ as held, k.spaces a = some as → Accounted tight k.mem.pmem k.spaces held → ∃ ok as' mem', g as k.mem = (ok,as',mem') ∧
      Accounted tight mem'.pmem (update k.spaces a (some as')) held ∧ Plain as' ∧ AllAnon as') : k'.Balanced tight := by
  have hfresh : k'.fresh = k.fresh := by
    unfold Kernel.on at hstep
    obtain ⟨as,-,hr⟩ := Option.map_eq_some_iff.mp hstep
    cases hr
    rfl
  have h' := h.on_fresh hstep k.fresh fun as held ha hacc hin => by
    obtain ⟨ok',as',mem',heq,hacc',hplain,hanon⟩ := hg as held ha hacc
    exact ⟨ok',as',mem',held,heq,hacc',hin,hplain,hanon⟩
  rwa [← hfresh] at h'

lemma onPmem (h : k.Balanced tight) {g : AddressSpace → Pmem → Bool × AddressSpace × Pmem} (hstep : k.onPmem a g = some (ok,k'))
    (hg : ∀ as held, k.spaces a = some as → Accounted tight k.mem.pmem k.spaces held → ∃ ok as' m', g as k.mem.pmem = (ok,as',m') ∧
      Accounted tight m' (update k.spaces a (some as')) held ∧ Plain as' ∧ AllAnon as') : k'.Balanced tight := by
  unfold Kernel.onPmem at hstep
  refine h.on hstep fun as held ha hacc => ?_
  obtain ⟨ok',as',m',heq,hacc',hplain,hanon⟩ := hg as held ha hacc
  rw [heq]
  exact ⟨ok',as',_,rfl,hacc',hplain,hanon⟩

lemma resolved (h : k.Balanced tight) (va : ℕ) {g : AddressSpace → Pmem → Bool × AddressSpace × Pmem} (hstep : k.onPmem a g = some (ok,k'))
    (hg : ∀ as held, k.spaces a = some as → Accounted tight k.mem.pmem k.spaces held →
      Resolved tight k.spaces held a va as k.mem.pmem (g as k.mem.pmem)) : k'.Balanced tight := by
  refine h.onPmem hstep fun as held ha hacc => ?_
  have hr := hg as held ha hacc
  refine ⟨_,_,_,rfl,hr.accounted,hr.plain (h.plain a as ha),fun v hv => h.anon a as ha v ?_⟩
  rwa [hr.vmas] at hv

end Kernel.Balanced

lemma Kernel.Balanced.made (h : k.Balanced tight) {spaces : Spaces} (hmade : ∀ c as, spaces c = some as → k.spaces c = some as ∨
    (Plain as ∧ AllAnon as)) (haccounts : ∃ held, Accounted tight mem.pmem spaces held ∧ ∀ f, k.fresh f = true → held f = true) :
    Kernel.Balanced tight { k with mem := mem, spaces := spaces } := by
  refine ⟨haccounts,fun c as hc => ?_,fun c as hc => ?_⟩
  · exact (hmade c as hc).elim (h.plain c as) And.left
  · exact (hmade c as hc).elim (h.anon c as) And.right

variable {kmallocOk : Bool}

lemma step_create (h : k.Balanced tight) (hb : k.spaces b = none)
    (hstep : k.step (.create b kmallocOk) = some (ok,k')) : k'.Balanced tight := by
  obtain ⟨held,hacc,hfresh⟩ := h.accounts
  simp only [Kernel.step] at hstep
  rcases create_spec kmallocOk hacc hb with ⟨m₁,held₁,hcreate,h₁,-,-,hheld⟩ | ⟨as,m₁,hcreate,h₁,-,-,hentry,hvmas,-⟩
  · rw [hcreate] at hstep
    cases hstep
    have hsame : update k.spaces b none = k.spaces := update_eq_self_iff.mpr hb.symm
    exact h.made (fun c as hc => .inl (hsame ▸ hc)) ⟨held₁,hsame.symm ▸ h₁,fun f hf => hheld f (hfresh f hf)⟩
  · rw [hcreate] at hstep
    cases hstep
    refine h.made (fun c as₁ hc => ?_) ⟨held,h₁,hfresh⟩
    rcases update_cases hc with ⟨-,hc⟩ | ⟨-,hc⟩
    · cases hc
      refine .inr ⟨fun j hj => ?_,fun v hv => ?_⟩
      · rw [hentry] at hj
        cases hj
      · rw [hvmas] at hv
        cases hv
    · exact .inl hc

lemma step_alloc (h : k.Balanced tight) (hstep : k.step .alloc = some (ok,k')) : k'.Balanced tight := by
  obtain ⟨held,hacc,hfresh⟩ := h.accounts
  simp only [Kernel.step] at hstep
  rcases hacc.alloc with hno | ⟨pa,m₁,halloc,hne,-,-,h₁,-,-,-⟩
  · rw [hno] at hstep
    cases hstep
    exact ⟨⟨held,hacc,fun f hf => hfresh f hf⟩,h.plain,h.anon⟩
  · rw [halloc] at hstep
    dsimp only at hstep
    rw [if_neg hne] at hstep
    cases hstep
    refine ⟨⟨_,h₁,fun f hf => ?_⟩,h.plain,h.anon⟩
    dsimp only at hf
    by_cases hfp : f = pa
    · exact hfp ▸ update_self _ _ _
    · rw [update_of_ne hfp] at hf ⊢
      exact hfresh f hf

lemma step_map (h : k.Balanced tight) {pages : ℕ} {writable executable : Bool}
    (hcontract : k.Contract (.map a va pa pages writable executable))
    (hstep : k.step (.map a va pa pages writable executable) = some (ok,k')) : k'.Balanced tight := by
  simp only [Kernel.step] at hstep
  obtain ⟨⟨ok₁,k₁⟩,hon,hk⟩ := Option.map_eq_some_iff.mp hstep
  cases hk
  have hsame : k₁.fresh = k.fresh := by
    unfold Kernel.onPmem Kernel.on at hon
    obtain ⟨as,-,hr⟩ := Option.map_eq_some_iff.mp hon
    cases hr
    rfl
  -- what the callers still have in hand are the other frames
  have hless (f : ℕ) (hf : (k₁.fresh f && !(List.range pages).any fun j => pa + j*pageSize == f) = true) :
      k.fresh f = true ∧ ∀ j, j < pages → f ≠ pa + j*pageSize := by
    rw [Bool.and_eq_true,Bool.not_eq_true',List.any_eq_false,hsame] at hf
    exact ⟨hf.1,fun j hj heq => hf.2 j (List.mem_range.mpr hj) (by simp [heq])⟩
  unfold Kernel.onPmem at hon
  refine h.on_fresh hon _ fun as held ha hacc hfresh => ?_
  have hmap : ∃ ok as' m' held', as.map va pa pages writable executable k.mem.pmem = (ok,as',m') ∧
      Accounted tight m' (update k.spaces a (some as')) held' ∧ (Plain as → Plain as') ∧ as'.vmas = as.vmas ∧
        ∀ f, held f = true → (∀ j, j < pages → f ≠ pa + j*pageSize) → held' f = true := by
    unfold AddressSpace.map
    split
    next => exact ⟨false,as,_,held,rfl,hacc.same ha,id,rfl,fun f hf _ => hf⟩
    next =>
      refine mapLoop_spec writable executable pages va pa hacc ha (fun j hj => hfresh _ (hcontract j hj).1)
        (fun _ _ => h.not_windowed) fun _ j hj f hf => ?_
      have hvalid := (frame_eq hf).1
      rw [(hcontract j hj).2 as ha] at hvalid
      cases hvalid
  obtain ⟨ok',as',m',held',heq,hacc',hplain,hvmas,hheld⟩ := hmap
  dsimp only
  rw [heq]
  exact ⟨ok',as',_,held',rfl,hacc',fun f hf => hheld f (hfresh f (hless f hf).1) (hless f hf).2,hplain (h.plain a as ha),
    fun v hv => h.anon a as ha v (hvmas ▸ hv)⟩

lemma step_clone (h : k.Balanced tight) (hb : k.spaces b = none)
    (hroom : ∀ src, k.spaces a = some src → ForkRoom k.mem.pmem src)
    (hstep : k.step (.clone a b kmallocOk) = some (ok,k')) : k'.Balanced tight := by
  obtain ⟨held,hacc,hfresh⟩ := h.accounts
  simp only [Kernel.step] at hstep
  obtain ⟨src,ha,hr⟩ := Option.map_eq_some_iff.mp hstep
  have hcloned := cloneCow_spec kmallocOk hacc ha hb (hroom src ha)
  generalize src.cloneCow kmallocOk k.mem = r at hr hcloned
  obtain ⟨child,src',mem'⟩ := r
  cases hr
  obtain ⟨held',hacc',hheld⟩ := hcloned.accounted
  refine h.made (fun c as₁ hc => ?_) ⟨held',hacc',fun f hf => hheld f (hfresh f hf)⟩
  rcases update_cases hc with ⟨-,hchild⟩ | ⟨-,hc⟩
  · refine .inr ⟨hcloned.plain.2 (h.plain a src ha) as₁ hchild,fun v hv => ?_⟩
    rw [hcloned.vmas.2 as₁ hchild] at hv
    cases hv
  · rcases update_cases hc with ⟨-,hc⟩ | ⟨-,hc⟩
    · cases hc
      exact .inr ⟨hcloned.plain.1 (h.plain a src ha),fun v hv => h.anon a src ha v (hcloned.vmas.1 ▸ hv)⟩
    · exact .inl hc

lemma Kernel.Balanced.left (h : k.Balanced tight) {left : Option AddressSpace} (ha : k.spaces a = some as)
    (haccounts : ∃ held, Accounted tight mem.pmem (update k.spaces a left) held ∧ ∀ f, k.fresh f = true → held f = true)
    (hleft : left = none ∨ ∃ n, left = some { as with refcount := n }) :
    Kernel.Balanced tight { k with mem := mem, spaces := update k.spaces a left } := by
  refine h.made (fun c as₁ hc => ?_) haccounts
  rcases update_cases hc with ⟨-,hc⟩ | ⟨-,hc⟩
  · rcases hleft with rfl | ⟨n,rfl⟩
    · cases hc
    · cases hc
      exact .inr ⟨(h.plain a as ha).congr fun _ => rfl,h.anon a as ha⟩
  · exact .inl hc

lemma step_destroy (h : k.Balanced tight) (hstep : k.step (.destroy a) = some (ok,k')) : k'.Balanced tight := by
  obtain ⟨held,hacc,hfresh⟩ := h.accounts
  simp only [Kernel.step] at hstep
  cases ha : k.spaces a with
  | none =>
    rw [ha] at hstep
    cases hstep
  | some as =>
    rw [ha,Option.map_some] at hstep
    simp only [Option.some.injEq,Prod.mk.injEq] at hstep
    obtain ⟨-,hk⟩ := hstep
    obtain ⟨h₁,hleft,-⟩ := hacc.destroy k.mem ha
    rw [← hk]
    exact h.left ha ⟨held,h₁,hfresh⟩ hleft

lemma step_store (h : k.Balanced tight) {byte : UInt8} {byKernel : Bool}
    (hstep : k.step (.store a va byte byKernel) = some (ok,k')) : k'.Balanced tight := by
  simp only [Kernel.step] at hstep
  refine h.onPmem hstep fun as held ha hacc => ?_
  -- the write fault, or nothing, and then the byte
  have hthen {r : Bool × AddressSpace × Pmem} (hr : Resolved tight k.spaces held a va as k.mem.pmem r) :
      ∃ ok as' m', (r.1,r.2.1,if r.1 then storeByte r.2.1 va byte r.2.2 else r.2.2) = (ok,as',m') ∧
        Accounted tight m' (update k.spaces a (some as')) held ∧ Plain as' ∧ AllAnon as' := by
    refine ⟨_,_,_,rfl,?_,hr.plain (h.plain a as ha),fun v hv => h.anon a as ha v (hr.vmas ▸ hv)⟩
    split
    · exact hr.accounted.contents _
    · exact hr.accounted
  cases byKernel with
  | true => exact hthen (makeWritable_spec va hacc ha)
  | false =>
    rw [if_neg Bool.false_ne_true]
    split
    next hw => exact hthen (.already hacc ha (by simpa using hw))
    next => exact hthen (handleCowFault_spec va hacc ha)

lemma step_balanced (h : k.Balanced tight) {e : KernelEvent} (hcontract : k.Contract e) (hunshared : tight → k.Unshared e)
    (hroom : ∀ a b kmallocOk src, e = .clone a b kmallocOk → k.spaces a = some src → ForkRoom k.mem.pmem src)
    (hstep : k.step e = some (ok,k')) : k'.Balanced tight := by
  cases e with
  | create b kmallocOk => exact step_create h hcontract hstep
  | alloc => exact step_alloc h hstep
  | free pa =>
    obtain ⟨held,hacc,hfresh⟩ := h.accounts
    cases hstep
    refine ⟨⟨_,(hacc.free_kernel (hfresh pa hcontract) h.not_windowed).1,fun f hf => ?_⟩,h.plain,h.anon⟩
    dsimp only at hf
    by_cases hfp : f = pa
    · rw [hfp,update_self] at hf
      cases hf
    · rw [update_of_ne hfp] at hf ⊢
      exact hfresh f hf
  | map a va pa pages writable executable => exact step_map h hcontract hstep
  | clone a b kmallocOk => exact step_clone h hcontract.1 (fun src ha => hroom a b kmallocOk src rfl ha) hstep
  | cowFault a va =>
    simp only [Kernel.step] at hstep
    exact h.resolved va hstep fun as held ha hacc => handleCowFault_spec va hacc ha
  | makeWritable a va =>
    simp only [Kernel.step] at hstep
    exact h.resolved va hstep fun as held ha hacc => makeWritable_spec va hacc ha
  | setBrk a newBrk =>
    simp only [Kernel.step] at hstep
    refine h.onPmem hstep fun as held ha hacc => ?_
    obtain ⟨ok',as',m',heq,hacc',hplain,hvmas⟩ := setBrk_spec newBrk hacc ha (h.plain a as ha) fun ht => hunshared ht as ha
    exact ⟨ok',as',m',heq,hacc',hplain,fun v hv => h.anon a as ha v (hvmas ▸ hv)⟩
  | mmapAnon a pages prot kmallocOk =>
    simp only [Kernel.step] at hstep
    refine h.onPmem hstep fun as held ha hacc => ?_
    have hregion := mmapAnon_region as pages prot kmallocOk
    exact ⟨_,_,_,rfl,(hacc.fields _ ha hregion.tables).1,(h.plain a as ha).congr hregion.entry,hregion.anon (h.anon a as ha)⟩
  | mmapFault a va isWrite =>
    simp only [Kernel.step] at hstep
    refine h.on hstep fun as held ha hacc => ?_
    obtain ⟨ok',as',mem',heq,hacc',hplain,hvmas⟩ := handleMmapFault_spec va isWrite hacc ha fun v hv => .inl (h.anon a as ha v hv)
    exact ⟨ok',as',mem',heq,hacc',hplain (h.plain a as ha),fun v hv => h.anon a as ha v (hvmas ▸ hv)⟩
  | munmap a va =>
    simp only [Kernel.step] at hstep
    refine h.on hstep fun as held ha hacc => ?_
    obtain ⟨ok',as',mem',heq,hacc',hplain,hanon⟩ := munmap_spec va hacc ha (h.plain a as ha)
    exact ⟨ok',as',mem',heq,hacc',hplain,hanon (h.anon a as ha)⟩
  | destroy a => exact step_destroy h hstep
  | store a va byte byKernel => exact step_store h hstep

lemma Accounted.sharers_eq (h : Accounted tight k.mem.pmem k.spaces held) (hrc : 2 ≤ k.mem.pmem.rc f) :
    sharers (holds k.spaces held) f = (fun x : ℕ × Index => Holder.part x.1 (.page x.2)) '' k.mappers f := by
  have hnot {q : Holder} (hq : holds k.spaces held q = some f) (hex : Exclusive k.spaces q) : False := by
    have := h.books.alone q f hex hq
    omega
  ext q
  constructor
  · intro hq
    cases q with
    | kernel pa => exact (hnot hq trivial).elim
    | part c p =>
      cases p with
      | l1 | l2 | l3 l => exact (hnot hq trivial).elim
      | page i =>
        refine ⟨(c,i),?_,rfl⟩
        unfold holds at hq
        obtain ⟨as,hc,hf⟩ := Option.bind_eq_some_iff.mp hq
        exact ⟨as,hc,hf⟩
  · rintro ⟨x,⟨as,hx,hf⟩,rfl⟩
    exact (holds_page held hx x.2).trans hf

lemma Accounted.encard_mappers (h : Accounted tight k.mem.pmem k.spaces held) (ht : tight) (hrc : 2 ≤ k.mem.pmem.rc f) :
    (k.mappers f).encard = k.mem.pmem.rc f := by
  have hinj : Function.Injective fun x : ℕ × Index => Holder.part x.1 (.page x.2) := by
    intro x y heq
    obtain ⟨h1,h2⟩ := Holder.part.inj heq
    exact Prod.ext h1 (Part.page.inj h2)
  have hexact := ((h.books.shared.counts f).of_two_le hrc).2 ht
  rwa [h.sharers_eq hrc,hinj.encard_image] at hexact

lemma Accounted.mappers_sole (h : Accounted tight k.mem.pmem k.spaces held) (hrc : k.mem.pmem.rc f ≤ 1) {x y : ℕ × Index}
    (hx : x ∈ k.mappers f) (hy : y ∈ k.mappers f) : y = x := by
  obtain ⟨as,ha,hf⟩ := hx
  obtain ⟨bs,hb,hg⟩ := hy
  have hsole := h.books.shared.sole hrc ((holds_page held ha x.2).trans hf) ((holds_page held hb y.2).trans hg)
  obtain ⟨h1,h2⟩ := Holder.part.inj hsole
  exact Prod.ext h1 (Part.page.inj h2)

lemma forkRoom (h : k.Balanced True) (hfew : ∀ f, (k.mappers f).encard +
    (allIndexes.countP fun j => (as.entry j).frame = some f : ℕ) < 65535) : ForkRoom k.mem.pmem as := by
  obtain ⟨held,hacc,-⟩ := h.accounts
  intro f
  have hf := hfew f
  by_cases hrc : 2 ≤ k.mem.pmem.rc f
  · rw [hacc.encard_mappers trivial hrc] at hf
    have hf' : k.mem.pmem.rc f + (allIndexes.countP fun j => (as.entry j).frame = some f) < 65535 := by exact_mod_cast hf
    omega
  · have hle : ((allIndexes.countP fun j => (as.entry j).frame = some f : ℕ) : ℕ∞) < 65535 := lt_of_le_of_lt le_add_self hf
    have hle' : (allIndexes.countP fun j => (as.entry j).frame = some f) < 65535 := by exact_mod_cast hle
    omega

/-- The frame of an entry is not free, the count is the number of its entries from two on and 0 or
1 for one, and an entry that can be written has it alone. -/
def Kernel.Sound (k : Kernel) : Prop := ∀ a as i f, k.spaces a = some as → (as.entry i).frame = some f →
  f ∉ k.mem.pmem.free ∧ (2 ≤ (k.mappers f).encard → (k.mappers f).encard = k.mem.pmem.refcountGet f) ∧
    ((k.mappers f).encard = 1 → k.mem.pmem.refcountGet f ≤ 1) ∧ ((as.entry i).writable = true → k.mappers f = {(a,i)})

lemma Kernel.Balanced.sound (h : k.Balanced True) : k.Sound := by
  obtain ⟨held,hacc,-⟩ := h.accounts
  intro a as i f ha hf
  have hk := (holds_page held ha i).trans hf
  have hmem : (a,i) ∈ k.mappers f := ⟨as,ha,hf⟩
  rw [Books.refcountGet_good (hacc.books.good f (.inr ⟨_,hk⟩))]
  refine ⟨hacc.books.shared.not_free hk,fun htwo => ?_,fun hone => ?_,fun hw => ?_⟩
  · refine hacc.encard_mappers trivial ?_
    by_contra hrc
    have hle : (k.mappers f).encard ≤ 1 := Set.encard_le_one_iff.mpr fun x y hx hy => hacc.mappers_sole (by omega) hy hx
    exact absurd (htwo.trans hle) (by decide)
  · by_contra hrc
    have heq := hacc.encard_mappers trivial (f := f) (by omega)
    rw [hone] at heq
    have : (1 : ℕ) = k.mem.pmem.rc f := by exact_mod_cast heq
    omega
  · have hrc := hacc.books.alone (.part a (.page i)) f (fun as₁ ha₁ => Option.some.inj (ha.symm.trans ha₁) ▸ hw) hk
    exact Set.eq_singleton_iff_unique_mem.mpr ⟨hmem,fun x hx => hacc.mappers_sole (by omega) hmem hx⟩

lemma boots_balanced (h : k.Boots) : k.Balanced tight := by
  obtain ⟨hspaces,hfresh,hnodup,hgood,hrc⟩ := h
  have hnone (q : Holder) : holds k.spaces (fun _ => false) q = none := by
    cases q with
    | kernel pa => rfl
    | part a p => simp [holds,hspaces]
  refine ⟨⟨fun _ => false,⟨⟨⟨hnodup,fun f _ => ⟨hrc f,fun q hq => (by cases (hnone q).symm.trans hq)⟩,fun f => ?_⟩,
    fun q f _ hq => (by cases (hnone q).symm.trans hq),fun f hf => ?_⟩,?_⟩,fun f hf => ?_⟩,?_,?_⟩
  · have hempty : sharers (holds k.spaces fun _ => false) f = ∅ :=
      Set.eq_empty_of_forall_notMem fun q hq => by cases (hnone q).symm.trans hq
    rw [hempty,hrc]
    exact .inl ⟨Nat.zero_le 1,by simp⟩
  · rcases hf with hf | ⟨q,hq⟩
    · exact hgood f hf
    · cases (hnone q).symm.trans hq
  · intro a as i ha
    rw [hspaces] at ha
    cases ha
  · rw [hfresh] at hf
    cases hf
  · intro a as ha
    rw [hspaces] at ha
    cases ha
  · intro a as ha
    rw [hspaces] at ha
    cases ha

lemma run_balanced (es : List KernelEvent) (hboots : k.Boots)
    (h : Runs Kernel.step (fun k e => k.Contract e ∧ k.Unshared e) k es k') : k'.Balanced True := by
  refine h.invariant (I := Kernel.Balanced True) ?_ (boots_balanced hboots)
  intro k e ok k' hk hok hstep
  refine step_balanced hk hok.1 (fun _ => hok.2) (fun a b kmallocOk src he ha => ?_) hstep
  have hcontract := hok.1
  rw [he] at hcontract
  exact forkRoom hk fun f => hcontract.2 src f ha

/-- In every run in which no heap grows over a page that it shares. -/
theorem cow_frame_accounting (es : List KernelEvent) (hboots : k.Boots)
    (h : Runs Kernel.step (fun k e => k.Contract e ∧ k.Unshared e) k es k') : k'.Sound := (run_balanced es hboots h).sound

lemma cloneLoop_zero (is : List Index) (h : ∀ j ∈ is, src.entry j = .zero) :
    AddressSpace.cloneLoop is src dst m = (true,src,dst,m) := by
  induction is with
  | nil => rfl
  | cons j is ih =>
    have hround : AddressSpace.cloneEntry j src dst m = (true,src,dst,m) := by
      unfold AddressSpace.cloneEntry
      cases hlook : src.entryLookup j with
      | none => rfl
      | some e =>
        have he : e = .zero := (entry_of_lookup hlook).symm.trans (h j List.mem_cons_self)
        rw [he]
        rfl
    unfold AddressSpace.cloneLoop
    rw [hround]
    exact ih fun j hj => h j (List.mem_cons_of_mem _ hj)

lemma cloneLoop_append (is js : List Index) (hfirst : AddressSpace.cloneLoop is src dst m = (true,as,as',m')) :
    AddressSpace.cloneLoop (is ++ js) src dst m = AddressSpace.cloneLoop js as as' m' := by
  induction is generalizing src dst m with
  | nil => cases hfirst; rfl
  | cons j is ih =>
    rw [List.cons_append]
    simp only [AddressSpace.cloneLoop] at hfirst ⊢
    generalize AddressSpace.cloneEntry j src dst m = r at hfirst ⊢
    obtain ⟨ok,src₁,dst₁,m₁⟩ := r
    cases ok with
    | false => cases hfirst
    | true => exact ih hfirst

lemma cloneCow_one (hzero : ∀ j, j ≠ i → src.entry j = .zero) (hcreate : create true mem.pmem = (some dst,m₁))
    (hround : AddressSpace.cloneEntry i src dst m₁ = (true,src.setEntry i d,as',m')) (ht : src.l2 i.1 ≠ none) :
    src.cloneCow true mem = (some { as' with heapBrk := src.heapBrk },src.setEntry i d,{ mem with pmem := m' }) := by
  have hloop : AddressSpace.cloneLoop allIndexes src dst m₁ = (true,src.setEntry i d,as',m') := by
    obtain ⟨is,js,hsplit⟩ := List.append_of_mem (mem_allIndexes i)
    have hnodup := nodup_allIndexes
    rw [hsplit] at hnodup ⊢
    have hnot := List.nodup_middle.mp hnodup
    have hother := (List.nodup_cons.mp hnot).1
    rw [List.mem_append,not_or] at hother
    rw [cloneLoop_append is (i :: js) (cloneLoop_zero is fun j hj => hzero j fun heq => hother.1 (heq ▸ hj))]
    unfold AddressSpace.cloneLoop
    rw [hround]
    refine cloneLoop_zero js fun j hj => ?_
    have hne : j ≠ i := fun heq => hother.2 (heq ▸ hj)
    rw [entry_setEntry ht,if_neg hne]
    exact hzero j hne
  unfold AddressSpace.cloneCow
  rw [hcreate]
  dsimp only
  rw [hloop]
  rfl

def eightFrames : Kernel :=
  ⟨⟨⟨[4096,8192,12288,16384,20480,24576,28672,32768],fun _ _ => 0,0,9,fun _ => 0⟩,.init,fun _ => none⟩,fun _ => none,fun _ => false⟩

def halfGrowth : List KernelEvent := [.create 0 true,.alloc,.alloc,.alloc,.alloc,.setBrk 0 (userHeapBase + 2*pageSize),
  .free 24576,.free 20480,.free 16384,.free 12288]

def onePage (l1 l2 l3 : ℕ) (d : Desc) : AddressSpace :=
  AddressSpace.onePageMore (AddressSpace.setEntry ⟨l1,l2,update (fun _ => none) 128 (some ⟨l3,fun _ => .zero⟩),0,
    userHeapBase,[],userMmapBase,[],1⟩ (128,0) d)

lemma onePage_entry (l1 l2 l3 : ℕ) (d : Desc) (j : Index) : (onePage l1 l2 l3 d).entry j = if j = (128,0) then d else .zero := by
  let before : AddressSpace := ⟨l1,l2,fun _ => none,0,userHeapBase,[],userMmapBase,[],1⟩
  let after : AddressSpace := ⟨l1,l2,update (fun _ => none) 128 (some ⟨l3,fun _ => .zero⟩),0,userHeapBase,[],userMmapBase,[],1⟩
  have hnone : before.l2 128 = none := rfl
  have hold : after.entry j = before.entry j := entry_newTable hnone l3 j
  have htable : after.l2 (128 : Fin 512) ≠ none := by simp [after]
  have hset : (after.setEntry (128,0) d).entry j = if j = (128,0) then d else after.entry j := entry_setEntry htable j
  rw [hold] at hset
  exact hset

def halfGrown : AddressSpace := onePage 4096 8192 32768 (.page 28672 true false)

def halfGrownChild : AddressSpace :=
  { onePage 12288 16384 20480 (AddressSpace.shared (.page 28672 true false)) with heapBrk := userHeapBase }

lemma halfGrownChild_entry (j : Index) :
    halfGrownChild.entry j = if j = (128,0) then AddressSpace.shared (.page 28672 true false) else .zero := onePage_entry _ _ _ _ j

lemma step_clone_eq (src : AddressSpace) {child : Option AddressSpace} (ha : k.spaces a = some src)
    (hclone : src.cloneCow kmallocOk k.mem = (child,as',mem')) : k.step (.clone a b kmallocOk) =
      some (child.isSome,{ k with mem := mem', spaces := update (update k.spaces a (some as')) b child }) := by
  simp only [Kernel.step]
  rw [ha,Option.map_some,hclone]

lemma countP_le_one (hone : ∀ j, src.entry j = if j = i then d else .zero) (f : ℕ) :
    (allIndexes.countP fun j => (src.entry j).frame = some f) ≤ 1 := by
  have hmono := List.countP_mono_left (l := allIndexes) (p := fun j => (src.entry j).frame = some f) (q := (· == i)) fun j _ hf => by
    by_contra hne
    rw [hone,if_neg (by simpa using hne)] at hf
    simp at hf
  exact hmono.trans (List.count_eq_one_of_mem nodup_allIndexes (mem_allIndexes i)).le

lemma few_sharers (ha : k.spaces a = some src) (hothers : ∀ c, c ≠ a → k.spaces c = none)
    (hone : ∀ j, src.entry j = if j = i then d else .zero) (f : ℕ) :
    (k.mappers f).encard + (allIndexes.countP fun j => (src.entry j).frame = some f : ℕ) < 65535 := by
  have hj (j : Index) (hf : (src.entry j).frame = some f) : j = i := by
    by_contra hne
    rw [hone,if_neg hne] at hf
    cases hf
  have hmappers : (k.mappers f).encard ≤ 1 := by
    refine (Set.encard_le_encard fun x hx => ?_).trans (Set.encard_singleton (a,i)).le
    obtain ⟨as,hx,hf⟩ := hx
    have hxa : x.1 = a := by
      by_contra hne
      rw [hothers x.1 hne] at hx
      cases hx
    rw [hxa,ha,Option.some.injEq] at hx
    exact Prod.ext hxa (hj x.2 (hx ▸ hf))
  have hcount := countP_le_one hone f
  calc (k.mappers f).encard + (allIndexes.countP fun j => (src.entry j).frame = some f : ℕ) ≤ 1 + ((1 : ℕ) : ℕ∞) :=
        add_le_add hmappers (by exact_mod_cast hcount)
    _ < 65535 := by decide

lemma halfGrown_table : halfGrown.l2 (128 : Fin 512) ≠ none := by
  simp [halfGrown,onePage,AddressSpace.onePageMore,AddressSpace.setEntry]

lemma halfGrown_zero (j : Index) (hj : j ≠ (128,0)) : halfGrown.entry j = .zero := (onePage_entry _ _ _ _ j).trans (if_neg hj)

lemma eightFrames_boots : eightFrames.Boots := by
  have hall : ∀ f ∈ eightFrames.mem.pmem.free, f ≠ 0 ∧ f % pageSize = 0 ∧ 0 ≤ f ∧ (f - 0)/pageSize < 9 := by decide
  exact ⟨rfl,rfl,by decide,hall,fun _ => rfl⟩

/-- After the fork both processes map the frame 28672 at the start of the heap. -/
theorem cow_frame_accounting_fork : ∃ k, Runs Kernel.step (fun k e => k.Contract e ∧ k.Unshared e) eightFrames
    (halfGrowth ++ [.clone 0 1 true]) k ∧ k.mem.pmem.refcountGet 28672 = 2 ∧ k.Sound := by
  have hrun : ∃ k, Runs Kernel.step (fun k e => k.Contract e ∧ k.Unshared e) eightFrames (halfGrowth ++ [.clone 0 1 true]) k ∧
      k.mem.pmem.refcountGet 28672 = 2 := by
    refine ⟨_,.cons ⟨rfl,trivial⟩ rfl (.cons ⟨trivial,trivial⟩ rfl (.cons ⟨trivial,trivial⟩ rfl (.cons ⟨trivial,trivial⟩ rfl
      (.cons ⟨trivial,trivial⟩ rfl (.cons ⟨trivial,?_⟩ rfl (.cons ⟨rfl,trivial⟩ rfl (.cons ⟨rfl,trivial⟩ rfl
        (.cons ⟨rfl,trivial⟩ rfl (.cons ⟨rfl,trivial⟩ rfl (.cons ⟨⟨rfl,?_⟩,trivial⟩ (step_clone_eq halfGrown rfl
          (cloneCow_one halfGrown_zero rfl rfl halfGrown_table)) (.nil _))))))))))),rfl⟩
    · intro as ha j f _ _ hf
      cases ha
      cases hf
    · intro as f ha
      cases ha
      exact few_sharers rfl (fun c hc => (update_of_ne hc _ _).trans (update_of_ne hc _ _)) (onePage_entry _ _ _ _) f
  obtain ⟨k,hrun,hrc⟩ := hrun
  exact ⟨k,hrun,hrc,cow_frame_accounting _ eightFrames_boots hrun⟩

/-- The parent grows its heap again and maps a new frame over the one that it shares. -/
theorem regrowth_keeps_count : ∃ k, Runs Kernel.step Kernel.Contract eightFrames
    (halfGrowth ++ [.clone 0 1 true,.setBrk 0 (userHeapBase + pageSize)]) k ∧ ¬ k.Sound := by
  have hrun : ∃ k as, Runs Kernel.step Kernel.Contract eightFrames (halfGrowth ++ [.clone 0 1 true,.setBrk 0 (userHeapBase + pageSize)]) k ∧
      k.mem.pmem.refcountGet 28672 = 2 ∧ k.spaces 0 = some as ∧
        (∀ j, as.entry j = if j = (128,0) then .page 24576 true false else .zero) ∧ k.spaces 1 = some halfGrownChild ∧
          ∀ c, c ≠ 0 → c ≠ 1 → k.spaces c = none := by
    refine ⟨_,_,.cons rfl rfl (.cons trivial rfl (.cons trivial rfl (.cons trivial rfl
      (.cons trivial rfl (.cons trivial rfl (.cons rfl rfl (.cons rfl rfl
        (.cons rfl rfl (.cons rfl rfl (.cons ⟨rfl,?_⟩ (step_clone_eq halfGrown rfl
          (cloneCow_one halfGrown_zero rfl rfl halfGrown_table)) (.cons trivial rfl (.nil _)))))))))))),rfl,rfl,?_,rfl,?_⟩
    · intro as f ha
      cases ha
      exact few_sharers rfl (fun c hc => (update_of_ne hc _ _).trans (update_of_ne hc _ _)) (onePage_entry _ _ _ _) f
    · intro j
      show ((halfGrown.setEntry (128,0) (AddressSpace.shared (.page 28672 true false))).setEntry (128,0)
        (.page 24576 true false)).entry j = _
      rw [setEntry_setEntry,entry_setEntry halfGrown_table,halfGrown,onePage_entry]
      split <;> rfl
    · intro c h0 h1
      exact (update_of_ne h0 _ _).trans ((update_of_ne h1 _ _).trans ((update_of_ne h0 _ _).trans
        ((update_of_ne h0 _ _).trans (update_of_ne h0 _ _))))
  obtain ⟨k,as,hrun,hrc,hparent,hentry,hchild,hothers⟩ := hrun
  refine ⟨k,hrun,fun hsound => ?_⟩
  have hshared : (halfGrownChild.entry (128,0)).frame = some 28672 := by
    rw [halfGrownChild_entry]
    rfl
  have hone : k.mappers 28672 = {(1,(128,0))} := by
    ext ⟨c,j⟩
    constructor
    · rintro ⟨as₁,hc,hf⟩
      by_cases h0 : c = 0
      · subst h0
        cases hparent.symm.trans hc
        rw [hentry] at hf
        split at hf <;> cases hf
      · by_cases h1 : c = 1
        · subst h1
          cases hchild.symm.trans hc
          rw [halfGrownChild_entry] at hf
          split at hf
          next hj => exact Prod.ext rfl hj
          next => cases hf
        · cases (hothers c h0 h1).symm.trans hc
    · rintro heq
      cases heq
      exact ⟨halfGrownChild,hchild,hshared⟩
  have hcount := (hsound 1 halfGrownChild (128,0) 28672 hchild hshared).2.2.1
  rw [hone,hrc] at hcount
  exact absurd (hcount (Set.encard_singleton _)) (by decide)

end VibeOS.Memory

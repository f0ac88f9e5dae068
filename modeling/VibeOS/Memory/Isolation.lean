import VibeOS.Memory.Accounting

/-! Forks, writes and exits do to what the processes see what they would do if each process had its
own copy of every page. -/
namespace VibeOS.Memory
open Function (update update_of_ne update_self)
open VibeOS.Storage

variable {tight : Prop} {k k' k'' : Kernel} {spaces : Spaces} {held : ℕ → Bool} {as as' src : AddressSpace} {m m' : Pmem}
  {a b f p va : ℕ} {i : Index} {d : Desc} {ok : Bool} {c : Cell} {byte : UInt8} {e : KernelEvent} {es : List KernelEvent}

abbrev Copies := ℕ × Index → Option Cell

def Cell.write (c : Cell) (off : ℕ) (byte : UInt8) : Cell := { c with bytes := update c.bytes off byte }

@[simp] lemma write_self (c : Cell) (off : ℕ) (byte : UInt8) : (c.write off byte).bytes off = byte := update_self _ _ _

lemma write_of_ne (c : Cell) {off n : ℕ} (byte : UInt8) (h : n ≠ off) : (c.write off byte).bytes n = c.bytes n :=
  update_of_ne h _ _

/-- A fork copies, a write changes the copy of the process that writes, and an exit drops its
copies; `ok` tells whether the call came through. -/
def Copies.step (w : Copies) (e : KernelEvent) (ok : Bool) : Copies :=
  match e with
  | .clone a b _ => if ok then fun x => if x.1 = b then w (a,x.2) else w x else w
  | .store a va byte _ =>
    if ok then update w (a,indexOf va) ((w (a,indexOf va)).map fun c => c.write (va % pageSize) byte) else w
  | .destroy a => if ok then fun x => if x.1 = a then none else w x else w
  | _ => w

namespace Kernel

def copies (k : Kernel) : Copies := view k.mem.pmem k.spaces

def read (k : Kernel) (p va : ℕ) : Option UInt8 :=
  (k.spaces p).bind fun as =>
    let e := as.entry (indexOf va)
    if e.valid then some (k.mem.pmem.bytes e.pa (va % pageSize)) else none

def Accountable (k : Kernel) : Prop := ∃ held, Accounted False k.mem.pmem k.spaces held

/-- Forks, the faults that follow them, writes and exits. A fork has room in the counts. -/
def Forking (k : Kernel) : KernelEvent → Prop
  | .clone a b _ => k.spaces b = none ∧ ∀ as, k.spaces a = some as → ForkRoom k.mem.pmem as
  | .cowFault _ _ | .makeWritable _ _ | .destroy _ | .store _ _ _ _ => True
  | _ => False

end Kernel

lemma read_of_copies (h : k.copies (p,indexOf va) = some c) : k.read p va = some (c.bytes (va % pageSize)) := by
  unfold Kernel.copies view at h
  obtain ⟨as,hp,hcell⟩ := Option.bind_eq_some_iff.mp h
  unfold Desc.cell at hcell
  obtain ⟨pa,hframe,hc⟩ := Option.map_eq_some_iff.mp hcell
  obtain ⟨hvalid,-,-,hpa⟩ := frame_eq hframe
  unfold Kernel.read
  rw [hp,Option.bind_some,if_pos hvalid,← hc,hpa]

lemma Accounted.storeByte_view (h : Accounted tight m spaces held) (ha : spaces a = some as)
    (hw : (as.entry (indexOf va)).valid = true ∧ (as.entry (indexOf va)).writable = true) :
    view (storeByte as va byte m) spaces =
      update (view m spaces) (a,indexOf va) ((view m spaces (a,indexOf va)).map fun c => c.write (va % pageSize) byte) := by
  have hother {x : ℕ × Index} (hx : x ≠ (a,indexOf va)) {bs : AddressSpace} (hb : spaces x.1 = some bs) {g : ℕ}
      (hg : (bs.entry x.2).frame = some g) : g ≠ (as.entry (indexOf va)).pa := by
    rintro rfl
    have hk := (holds_page held hb x.2).trans hg
    cases hframe : (as.entry (indexOf va)).frame with
    | none =>
      -- a window's frame is in the kernel's hand
      have hkernel : holds spaces held (.kernel (as.entry (indexOf va)).pa) = some (as.entry (indexOf va)).pa := by
        simp [holds,(h.flagged a as _ ha hw.1 hframe).2 hw.2]
      have hrc := h.books.alone _ _ (show Exclusive spaces (.kernel _) from trivial) hkernel
      cases h.books.shared.sole (by omega) hkernel hk
    | some f =>
      have hself := (holds_page held ha (indexOf va)).trans hframe
      rw [(frame_eq hframe).2.2.2] at hk
      have hrc := h.books.alone (.part a (.page (indexOf va))) f (fun as₁ ha₁ => Option.some.inj (ha.symm.trans ha₁) ▸ hw.2) hself
      obtain ⟨h1,h2⟩ := Holder.part.inj (h.books.shared.sole (by omega) hself hk)
      exact hx (Prod.ext h1 (Part.page.inj h2))
  funext x
  by_cases hx : x = (a,indexOf va)
  · subst hx
    rw [update_self]
    unfold view Desc.cell
    rw [ha,Option.bind_some,Option.bind_some]
    cases hframe : (as.entry (indexOf va)).frame with
    | none => rfl
    | some f =>
      rw [Option.map_some,Option.map_some,Option.map_some]
      unfold storeByte
      rw [(frame_eq hframe).2.2.2]
      simp [Cell.write]
  · rw [update_of_ne hx]
    unfold view
    cases hb : spaces x.1 with
    | none => rfl
    | some bs =>
      show (bs.entry x.2).cell _ = (bs.entry x.2).cell m
      unfold Desc.cell
      cases hg : (bs.entry x.2).frame with
      | none => rfl
      | some g =>
        have hbytes : (storeByte as va byte m).bytes g = m.bytes g := update_of_ne (hother hx hb hg) _ _
        rw [Option.map_some,Option.map_some,hbytes]

lemma onPmem_resolved (va : ℕ) (hk : k.Accountable) {g : AddressSpace → Pmem → Bool × AddressSpace × Pmem}
    (hg : ∀ as held, k.spaces a = some as → Accounted False k.mem.pmem k.spaces held →
      Resolved False k.spaces held a va as k.mem.pmem (g as k.mem.pmem))
    (hstep : k.onPmem a g = some (ok,k')) : k'.Accountable ∧ k'.copies = k.copies ∧
      (ok = true → ∃ as, k'.spaces a = some as ∧ (as.entry (indexOf va)).valid = true ∧ (as.entry (indexOf va)).writable = true) := by
  obtain ⟨held,hacc⟩ := hk
  unfold Kernel.onPmem Kernel.on at hstep
  obtain ⟨as,ha,hr⟩ := Option.map_eq_some_iff.mp hstep
  have hresolved := hg as held ha hacc
  cases hr
  exact ⟨⟨held,hresolved.accounted⟩,hresolved.view,fun hok => ⟨_,update_self _ _ _,hresolved.writable hok⟩⟩

lemma makeWritable_of_writable (hin : InUser va) (hvalid : (as.entry (indexOf va)).valid = true)
    (hw : (as.entry (indexOf va)).writable = true) : (as.makeWritable va m).1 = true := by
  unfold InUser at hin
  unfold AddressSpace.makeWritable
  rw [if_neg (by omega)]
  unfold AddressSpace.entry at hvalid hw
  cases hlook : as.entryLookup (indexOf va) with
  | none => rw [hlook] at hvalid; cases hvalid
  | some e =>
    rw [hlook] at hvalid hw
    have hvalid' : e.valid = true := hvalid
    have hw' : e.writable = true := hw
    simp [hvalid',hw']

lemma store_cases (hk : k.Accountable) {byKernel : Bool} (hstep : k.step (.store a va byte byKernel) = some (ok,k')) :
    ∃ held as r, k.spaces a = some as ∧ Resolved False k.spaces held a va as k.mem.pmem r ∧ ok = r.1 ∧
      (InUser va → (as.entry (indexOf va)).valid = true → (as.entry (indexOf va)).writable = true → ok = true) ∧ k' = ⟨{ k.mem with pmem := if r.1 then storeByte r.2.1 va byte r.2.2 else r.2.2 },update k.spaces a (some r.2.1),k.fresh⟩ := by
  obtain ⟨held,hacc⟩ := hk
  simp only [Kernel.step] at hstep
  unfold Kernel.onPmem Kernel.on at hstep
  obtain ⟨as,ha,hr⟩ := Option.map_eq_some_iff.mp hstep
  cases hr
  cases byKernel with
  | true => exact ⟨held,as,_,ha,makeWritable_spec va hacc ha,rfl,makeWritable_of_writable,rfl⟩
  | false =>
    dsimp only
    rw [if_neg Bool.false_ne_true]
    split
    next hw => exact ⟨held,as,_,ha,.already hacc ha (by simpa using hw),rfl,fun _ _ _ => rfl,rfl⟩
    next hno => exact ⟨held,as,_,ha,handleCowFault_spec va hacc ha,rfl,fun _ hvalid hw => absurd (by simp [hvalid,hw]) hno,rfl⟩

lemma step_copies (hk : k.Accountable) (he : k.Forking e) (hstep : k.step e = some (ok,k')) :
    k'.Accountable ∧ k'.copies = Copies.step k.copies e ok := by
  cases e with
  | clone a b kmallocOk =>
    obtain ⟨held,hacc⟩ := hk
    simp only [Kernel.step] at hstep
    obtain ⟨src,ha,hr⟩ := Option.map_eq_some_iff.mp hstep
    have hcloned := cloneCow_spec kmallocOk hacc ha he.1 (he.2 src ha)
    generalize src.cloneCow kmallocOk k.mem = r at hr hcloned
    obtain ⟨child,src',mem'⟩ := r
    cases hr
    obtain ⟨held',hacc',-⟩ := hcloned.accounted
    refine ⟨⟨held',hacc'⟩,funext fun x => (hcloned.view x).trans ?_⟩
    unfold Copies.step Kernel.copies
    cases child with
    | none => rw [if_neg fun hno => hno.2 rfl]; rfl
    | some child =>
      show _ = if x.1 = b then _ else _
      by_cases hx : x.1 = b
      · rw [if_pos ⟨hx,fun h => by cases h⟩,if_pos hx]
      · rw [if_neg fun hno => hx hno.1, if_neg hx]
  | cowFault a va =>
    simp only [Kernel.step] at hstep
    obtain ⟨hacc,hcopies,-⟩ := onPmem_resolved va hk (fun as held ha hacc => handleCowFault_spec va hacc ha) hstep
    exact ⟨hacc,hcopies⟩
  | makeWritable a va =>
    simp only [Kernel.step] at hstep
    obtain ⟨hacc,hcopies,-⟩ := onPmem_resolved va hk (fun as held ha hacc => makeWritable_spec va hacc ha) hstep
    exact ⟨hacc,hcopies⟩
  | destroy a =>
    obtain ⟨held,hacc⟩ := hk
    simp only [Kernel.step] at hstep
    obtain ⟨as,ha,hr⟩ := Option.map_eq_some_iff.mp hstep
    obtain ⟨h₁,-,hview⟩ := hacc.destroy k.mem ha
    generalize as.destroy k.mem = r at hr h₁ hview
    obtain ⟨left,mem'⟩ := r
    cases hr
    refine ⟨⟨held,h₁⟩,funext fun x => (hview x).trans ?_⟩
    unfold Copies.step Kernel.copies
    cases left with
    | none =>
      show _ = if x.1 = a then none else _
      by_cases hx : x.1 = a
      · rw [if_pos ⟨hx,rfl⟩,if_pos hx]
      · rw [if_neg fun hno => hx hno.1, if_neg hx]
    | some left => rw [if_neg fun hno => (by cases hno.2)]; rfl
  | store a va byte byKernel =>
    obtain ⟨held,as,r,ha,hr,rfl,-,rfl⟩ := store_cases hk hstep
    unfold Copies.step Kernel.copies
    dsimp only
    cases hok : r.1 with
    | false => exact ⟨⟨held,hr.accounted⟩,hr.view⟩
    | true =>
      refine ⟨⟨held,hr.accounted.contents _⟩,?_⟩
      rw [if_pos rfl,if_pos rfl,hr.accounted.storeByte_view (update_self _ _ _) (hr.writable hok),hr.view]
  | create b kmallocOk
  | alloc
  | free pa
  | map a va pa pages writable executable
  | setBrk a newBrk
  | mmapAnon a pages prot kmallocOk
  | mmapFault a va isWrite
  | munmap a va => exact he.elim

def KernelEvent.writes (e : KernelEvent) (p : ℕ) (i : Index) (off : ℕ) : Option UInt8 :=
  match e with
  | .store a va byte _ => if a = p ∧ indexOf va = i ∧ va % pageSize = off then some byte else none
  | _ => none

def lastWritten (p : ℕ) (i : Index) (off : ℕ) : Kernel → List KernelEvent → Option UInt8
  | _, [] => none
  | k, e :: es =>
    match k.step e with
    | none => none
    | some (ok,k') => (lastWritten p i off k' es).or (if ok then e.writes p i off else none)

lemma step_copy (hk : k.Accountable) (he : k.Forking e) (hstep : k.step e = some (ok,k')) (hp : e ≠ .destroy p)
    (hc : k.copies (p,i) = some c) :
    k'.copies (p,i) = some { c with bytes := fun off => (if ok then e.writes p i off else none).getD (c.bytes off) } := by
  have hsame (e : KernelEvent) (he : ∀ off, e.writes p i off = none) :
      some c = some { c with bytes := fun off => (if ok then e.writes p i off else none).getD (c.bytes off) } := by
    refine congrArg some (Cell.ext rfl rfl (funext fun off => ?_))
    dsimp only
    rw [he]
    split <;> rfl
  rw [(step_copies hk he hstep).2]
  cases e with
  | clone a b kmallocOk =>
    have hpb : p ≠ b := by
      rintro rfl
      unfold Kernel.copies view at hc
      rw [he.1] at hc
      cases hc
    refine Eq.trans ?_ (hsame (.clone a b kmallocOk) fun _ => rfl)
    unfold Copies.step
    dsimp only
    split
    · exact (if_neg hpb).trans hc
    · exact hc
  | cowFault a va => exact hc.trans (hsame (.cowFault a va) fun _ => rfl)
  | makeWritable a va => exact hc.trans (hsame (.makeWritable a va) fun _ => rfl)
  | destroy a =>
    have hpa : p ≠ a := fun heq => hp (heq ▸ rfl)
    refine Eq.trans ?_ (hsame (.destroy a) fun _ => rfl)
    unfold Copies.step
    dsimp only
    split
    · exact (if_neg hpa).trans hc
    · exact hc
  | store a va byte byKernel =>
    unfold Copies.step
    cases ok with
    | false => exact hc.trans rfl
    | true =>
      dsimp only
      rw [if_pos rfl]
      by_cases hpi : (p,i) = (a,indexOf va)
      · obtain ⟨rfl,rfl⟩ := Prod.mk.inj hpi
        rw [update_self,hc,Option.map_some]
        refine congrArg some (Cell.ext rfl rfl (funext fun off => ?_))
        by_cases hoff : va % pageSize = off
        · subst hoff
          simp [KernelEvent.writes]
        · simp [KernelEvent.writes,hoff,write_of_ne c byte (Ne.symm hoff)]
      · rw [update_of_ne hpi,hc]
        refine hsame (.store a va byte byKernel) fun off => if_neg fun hno => hpi ?_
        rw [hno.1,hno.2.1]
  | create b kmallocOk
  | alloc
  | free pa
  | map a va pa pages writable executable
  | setBrk a newBrk
  | mmapAnon a pages prot kmallocOk
  | mmapFault a va isWrite
  | munmap a va => exact he.elim

/-- A process has in its copies what it wrote itself, and what was there before where it wrote
nothing. -/
lemma run_copy (h : Runs Kernel.step Kernel.Forking k es k') (hk : k.Accountable) (hp : .destroy p ∉ es)
    (hc : k.copies (p,i) = some c) :
    k'.copies (p,i) = some { c with bytes := fun off => (lastWritten p i off k es).getD (c.bytes off) } := by
  induction h generalizing c with
  | nil => exact hc
  | cons he hstep _ ih =>
    rw [List.mem_cons,not_or] at hp
    have hfirst := step_copy hk he hstep (Ne.symm hp.1) hc
    rw [ih (step_copies hk he hstep).1 hp.2 hfirst]
    refine congrArg some (Cell.ext rfl rfl (funext fun off => ?_))
    simp only [lastWritten]
    rw [hstep]
    dsimp only
    cases lastWritten p i off _ _ with
    | none => rw [Option.none_or]; rfl
    | some byte => rfl

lemma run_accountable (h : Runs Kernel.step Kernel.Forking k es k') (hk : k.Accountable) : k'.Accountable :=
  h.invariant (I := Kernel.Accountable) (fun _ _ _ _ hk he hstep => (step_copies hk he hstep).1) hk

lemma copy_writable (hk : k.Accountable) (hc : k.copies (p,indexOf va) = some c) (hw : c.writable = true) (hin : InUser va)
    (hfree : k.mem.pmem.free ≠ []) (byte : UInt8) (byKernel : Bool) :
    ∃ k', k.step (.store p va byte byKernel) = some (true,k') ∧ k'.read p va = some byte := by
  have hcopy := hc
  unfold Kernel.copies view at hc
  obtain ⟨as,hp,hcell⟩ := Option.bind_eq_some_iff.mp hc
  unfold Desc.cell at hcell
  obtain ⟨pa,hframe,hc⟩ := Option.map_eq_some_iff.mp hcell
  have hvalid := (frame_eq hframe).1
  obtain ⟨ok,k',hstep⟩ : ∃ ok k', k.step (.store p va byte byKernel) = some (ok,k') := by
    simp only [Kernel.step,Kernel.onPmem,Kernel.on]
    rw [hp]
    exact ⟨_,_,rfl⟩
  have hok : ok = true := by
    obtain ⟨held,as₁,r,hp₁,hr,rfl,hwritable,-⟩ := store_cases hk hstep
    cases hp.symm.trans hp₁
    cases hnow : (as.entry (indexOf va)).writable with
    | true => exact hwritable hin hvalid hnow
    | false =>
      refine hr.comesThrough hin hvalid ?_ hnow hfree
      rw [← hc] at hw
      simpa [hnow] using hw
  subst hok
  have hwritten := step_copy (e := .store p va byte byKernel) (p := p) hk trivial hstep (fun h => by cases h) hcopy
  refine ⟨k',hstep,?_⟩
  rw [read_of_copies hwritten]
  simp [KernelEvent.writes]

lemma copy_readonly (hk : k.Accountable) (hc : k.copies (p,indexOf va) = some c) (hw : c.writable = false) {byKernel : Bool}
    (hstep : k.step (.store p va byte byKernel) = some (ok,k')) : ok = false := by
  cases ok with
  | false => rfl
  | true =>
    exfalso
    obtain ⟨held,as,r,hp,hr,hok,-,-⟩ := store_cases hk hstep
    have hview := congrFun hr.view (p,indexOf va)
    rw [show view k.mem.pmem k.spaces (p,indexOf va) = some c from hc] at hview
    unfold view at hview
    rw [update_self,Option.bind_some] at hview
    unfold Desc.cell at hview
    obtain ⟨pa,-,hcell⟩ := Option.map_eq_some_iff.mp hview
    rw [← hcell,(hr.writable hok.symm).2] at hw
    cases hw

/-- The accounts fit in whatever way the processes came about, heaps that grew over shared pages
included. -/
lemma run_from_boot (es : List KernelEvent) (hboots : k.Boots) (h : Runs Kernel.step (fun k e => k.Contract e ∧
    ∀ a b kmallocOk src, e = .clone a b kmallocOk → k.spaces a = some src → ForkRoom k.mem.pmem src) k es k') : k'.Accountable := by
  have hbalanced := h.invariant (I := Kernel.Balanced False)
    (fun k e ok k' hk hok hstep => step_balanced hk hok.1 False.elim hok.2 hstep) (boots_balanced hboots)
  obtain ⟨held,hacc,-⟩ := hbalanced.accounts
  exact ⟨held,hacc⟩

/-- After a fork, in any order of further forks, writes, faults and exits, a process reads at an
address what it last wrote there itself, or what the page held at the fork. Pages that could be
written can be, and the others cannot. -/
theorem fork_memory_semantics {k₀ k₁ k₂ : Kernel} {es₀ : List KernelEvent} {kmallocOk : Bool} (h₀ : k₀.Accountable)
    (hbefore : Runs Kernel.step Kernel.Forking k₀ es₀ k) (hroom : k.Forking (.clone a b kmallocOk))
    (hfork : k.step (.clone a b kmallocOk) = some (true,k₁)) (hafter : Runs Kernel.step Kernel.Forking k₁ es k₂)
    (hp : .destroy p ∉ es) (hc : k.copies (if p = b then a else p,indexOf va) = some c) :
    k₂.read p va = some ((lastWritten p (indexOf va) (va % pageSize) k₁ es).getD (c.bytes (va % pageSize))) ∧
      (c.writable = true → InUser va → k₂.mem.pmem.free ≠ [] → ∀ byte byKernel,
        ∃ k₃, k₂.step (.store p va byte byKernel) = some (true,k₃) ∧ k₃.read p va = some byte) ∧
      (c.writable = false → ∀ byte byKernel ok k₃, k₂.step (.store p va byte byKernel) = some (ok,k₃) → ok = false) := by
  have hk := run_accountable hbefore h₀
  obtain ⟨hk₁,hcopies⟩ := step_copies hk hroom hfork
  have hc₁ : k₁.copies (p,indexOf va) = some c := by
    rw [hcopies,← hc]
    unfold Copies.step
    dsimp only
    rw [if_pos rfl]
    by_cases hpb : p = b
    · rw [if_pos hpb,if_pos hpb]
    · rw [if_neg hpb,if_neg hpb]
  have hk₂ := run_accountable hafter hk₁
  have hc₂ := run_copy hafter hk₁ hp hc₁
  exact ⟨read_of_copies hc₂,fun hw hin hfree byte byKernel => copy_writable hk₂ hc₂ hw hin hfree byte byKernel,
    fun hw byte byKernel ok k₃ hstep => copy_readonly hk₂ hc₂ hw hstep⟩

/-- Parent and child write to the page that they share. -/
theorem fork_memory_semantics_both : ∃ k k₁ k₂ : Kernel, k.step (.clone 0 1 true) = some (true,k₁) ∧
    Runs Kernel.step Kernel.Forking k₁ [.store 1 userHeapBase 7 false,.store 0 userHeapBase 9 false] k₂ ∧
      k₂.read 1 userHeapBase = some 7 ∧ k₂.read 0 userHeapBase = some 9 := by
  have hsteps : ∃ (k k₁ k₂ k₃ : Kernel) (c : Cell), Runs Kernel.step (fun k e => k.Contract e ∧ ∀ a b kmallocOk src, e = .clone a b kmallocOk →
      k.spaces a = some src → ForkRoom k.mem.pmem src) eightFrames halfGrowth k ∧ k.spaces 1 = none ∧ k.spaces 0 = some halfGrown ∧
        k.mem.pmem.rc = (fun _ => 0) ∧ k.step (.clone 0 1 true) = some (true,k₁) ∧
          k₁.step (.store 1 userHeapBase 7 false) = some (true,k₂) ∧ k₂.step (.store 0 userHeapBase 9 false) = some (true,k₃) ∧
            k.copies (0,indexOf userHeapBase) = some c := by
    refine ⟨_,_,_,_,_,.cons ⟨rfl,nofun⟩ rfl (.cons ⟨trivial,nofun⟩ rfl (.cons ⟨trivial,nofun⟩ rfl (.cons ⟨trivial,nofun⟩ rfl
      (.cons ⟨trivial,nofun⟩ rfl (.cons ⟨trivial,nofun⟩ rfl (.cons ⟨rfl,nofun⟩ rfl (.cons ⟨rfl,nofun⟩ rfl
        (.cons ⟨rfl,nofun⟩ rfl (.cons ⟨rfl,nofun⟩ rfl (.nil _)))))))))),rfl,rfl,rfl,step_clone_eq halfGrown rfl
          (cloneCow_one halfGrown_zero rfl rfl halfGrown_table),rfl,rfl,rfl⟩
  obtain ⟨k,k₁,k₂,k₃,c,hrun,hnone,hparent,hrc,hclone,hchildWrites,hparentWrites,hc⟩ := hsteps
  have hk := run_from_boot _ eightFrames_boots hrun
  have hroom : k.Forking (.clone 0 1 true) := by
    refine ⟨hnone,fun as has f => ?_⟩
    cases hparent.symm.trans has
    have hcount : (allIndexes.countP fun j => (halfGrown.entry j).frame = some f) ≤ 1 :=
      countP_le_one (onePage_entry _ _ _ _) f
    rw [hrc]
    show max 1 0 + _ < _
    omega
  have hafter : Runs Kernel.step Kernel.Forking k₁ [.store 1 userHeapBase 7 false,.store 0 userHeapBase 9 false] k₃ :=
    .cons trivial hchildWrites (.cons trivial hparentWrites (.nil _))
  have hchild := (fork_memory_semantics (p := 1) hk (.nil _) hroom hclone hafter (by simp) hc).1
  have hself := (fork_memory_semantics (p := 0) hk (.nil _) hroom hclone hafter (by simp) hc).1
  refine ⟨k,k₁,k₃,hclone,hafter,hchild.trans ?_,hself.trans ?_⟩
  · simp [lastWritten,hchildWrites,hparentWrites,KernelEvent.writes]
  · simp [lastWritten,hchildWrites,hparentWrites,KernelEvent.writes]

end VibeOS.Memory

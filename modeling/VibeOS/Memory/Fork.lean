import VibeOS.Memory.Teardown

/-! Shared pages: the write fault that ends the sharing, and the fork that begins it. -/
namespace VibeOS.Memory
open Function List Option
open VibeOS.Storage

variable {tight : Prop} {m m' : Pmem} {spaces : Spaces} {held : ℕ → Bool} {as as' src dst : AddressSpace} {a b f pa va : ℕ}
  {i j : Index} {d e : Desc}

lemma Accounted.contents (h : Accounted tight m spaces held) (bytes : ℕ → ℕ → UInt8) :
    Accounted tight { m with bytes := bytes } spaces held := ⟨⟨h.books.shared,h.books.alone,h.books.good⟩,h.flagged⟩

lemma setEntry_setEntry (as : AddressSpace) (i : Index) (d e : Desc) : (as.setEntry i d).setEntry i e = as.setEntry i e := by
  unfold AddressSpace.setEntry
  simp only [update_self,update_idem,Option.map_map]
  congr 2
  cases as.l2 i.1 with
  | none => rfl
  | some t => simp

lemma indexOf_page (va : ℕ) : indexOf (va/pageSize*pageSize) = indexOf va := by
  unfold indexOf pageSize
  rw [(by omega : va/4096*4096/2^21 = va/2^21),(by omega : va/4096*4096/2^12 = va/2^12)]

lemma cell_of_frame (h : d.frame = some f) : d.cell m = some ⟨d.writable || d.cow,d.uxn,m.bytes f⟩ := by
  unfold Desc.cell
  rw [h]
  rfl

lemma Accounted.unshare (h : Accounted tight m spaces held) (ha : spaces a = some as) (hf : (as.entry i).frame = some f)
    (hcow : (as.entry i).cow = true) (hshared : 2 ≤ m.rc f) : m.allocPage = (0,m) ∨ ∃ new m₁, m.allocPage = (new,m₁) ∧ new ≠ 0 ∧
      Accounted tight ((AddressSpace.copyPage m₁ f new).refcountDec f)
        (update spaces a (some (as.setEntry i (.page new true (!(as.entry i).uxn))))) held ∧
      view ((AddressSpace.copyPage m₁ f new).refcountDec f)
        (update spaces a (some (as.setEntry i (.page new true (!(as.entry i).uxn))))) = view m spaces := by
  rcases h.alloc with hno | ⟨new,m₁,halloc,hne,hnew,hw,h₁,hview₁,hrc₁,-⟩
  · exact .inl hno
  refine .inr ⟨new,m₁,halloc,hne,?_⟩
  have hk := (holds_page held ha i).trans hf
  have hk₁ : holds spaces (update held new true) (.part a (.page i)) = some f := hk
  have hgood := h₁.books.good f (.inr ⟨_,hk₁⟩)
  have hback : update held new false = held := update_eq_self_iff.mpr hnew.symm
  -- nobody else has the new frame
  have hfresh : Untouched m₁ (AddressSpace.copyPage m₁ f new) (holds spaces held) := by
    intro k g hkg
    refine update_of_ne (fun heq => ?_) _ _
    subst heq
    have hkernel : holds spaces (update held g true) (.kernel g) = some g := by simp [holds]
    have hrc := h₁.books.alone (.kernel g) g trivial hkernel
    have hkg₁ : holds spaces (update held g true) k = some g := by
      rw [holds_kernel]
      by_cases hkk : k = .kernel g
      · rw [hkk,update_self]
        rfl
      · rw [update_of_ne hkk]
        exact hkg
    have hsole := h₁.books.shared.sole (by omega) hkernel hkg₁
    rw [hsole] at hkg
    simp [holds,hnew] at hkg
  have h₂ : Accounted tight (AddressSpace.copyPage m₁ f new) spaces (update held new true) := h₁.contents _
  have hdec : (AddressSpace.copyPage m₁ f new).decAndFree f = (AddressSpace.copyPage m₁ f new).refcountDec f := by
    have hget : (AddressSpace.copyPage m₁ f new).refcountGet f = m.rc f :=
      (Books.refcountGet_good (m := AddressSpace.copyPage m₁ f new) hgood).trans (congrFun hrc₁ f)
    unfold Pmem.decAndFree
    rw [if_neg hgood.1,hget,if_pos hshared]
  obtain ⟨h₃,hview₃⟩ := h₂.clear ha hf
  rw [hdec] at h₃ hview₃
  have ht := table_of_frame hf
  have hsetNone (j : Index) : (as.setEntry i .zero).entry j = if j = i then .zero else as.entry j := entry_setEntry ht j
  obtain ⟨h₄,hview₄⟩ := h₃.place (i := i) (d := .page new true (!(as.entry i).uxn)) (update_self _ _ _)
    (by rw [Ne,table_setEntry]; exact ht) (update_self _ _ _)
    (fun hno => hw (hno.of_update ha hsetNone (by rintro ⟨⟩))) (fun _ g hg => by rw [hsetNone,if_pos rfl] at hg; cases hg) rfl
  rw [update_idem,setEntry_setEntry,update_idem,hback] at h₄
  rw [update_idem,setEntry_setEntry] at hview₄
  refine ⟨h₄,?_⟩
  rw [hview₄,hview₃,update_idem,view_congr held hfresh,hview₁]
  refine update_eq_self_iff.mpr ?_
  have hbytes : ((AddressSpace.copyPage m₁ f new).refcountDec f).bytes new = m₁.bytes f := by
    rw [Books.refcountDec_good (m := AddressSpace.copyPage m₁ f new) hgood]
    exact update_self _ _ _
  have hold : view m spaces (a,i) = view m₁ spaces (a,i) := congrFun hview₁.symm _
  rw [hold]
  unfold view
  rw [ha,bind_some,cell_of_frame hf,cell_of_frame (frame_page _ _ _),hbytes,hcow]
  simp [Desc.page]

lemma Accounted.inPlace (h : Accounted tight m spaces held) (ha : spaces a = some as) (hf : (as.entry i).frame = some f)
    (hcow : (as.entry i).cow = true) (hone : m.rc f ≤ 1) :
    Accounted tight (if m.rc f = 1 then m.refcountDec f else m)
        (update spaces a (some (as.setEntry i (.page f true (!(as.entry i).uxn))))) held ∧
      view (if m.rc f = 1 then m.refcountDec f else m)
        (update spaces a (some (as.setEntry i (.page f true (!(as.entry i).uxn))))) = view m spaces := by
  have hgood := h.books.good f (.inr ⟨_,(holds_page held ha i).trans hf⟩)
  have hm : (if m.rc f = 1 then m.refcountDec f else m) = { m with rc := update m.rc f 0 } := by
    split
    next h1 => rw [Books.refcountDec_good hgood,h1]
    next h1 => rw [update_eq_self_iff.mpr (by omega : 0 = m.rc f)]
  rw [hm]
  obtain ⟨h',hview⟩ := h.upgrade (d := .page f true (!(as.entry i).uxn)) { m with rc := update m.rc f 0 }
    ha hf hone rfl rfl ⟨rfl,rfl,rfl,rfl⟩
  refine ⟨h',hview.trans (update_eq_self_iff.mpr ?_)⟩
  unfold view
  rw [ha,bind_some,cell_of_frame hf,cell_of_frame (frame_page _ _ _),hcow]
  simp [Desc.page]

def InUser (va : ℕ) : Prop := userVaBase ≤ va/pageSize*pageSize ∧ va/pageSize*pageSize < userVaEnd

/-- What the calls that resolve a write fault leave. A process sees no difference. They come through
for every page in the state that a fork leaves, while there are frames. -/
structure Resolved (tight : Prop) (spaces : Spaces) (held : ℕ → Bool) (a va : ℕ) (as : AddressSpace) (m : Pmem)
    (r : Bool × AddressSpace × Pmem) : Prop where
  accounted : Accounted tight r.2.2 (update spaces a (some r.2.1)) held
  view : view r.2.2 (update spaces a (some r.2.1)) = view m spaces
  plain : Plain as → Plain r.2.1
  vmas : r.2.1.vmas = as.vmas
  writable : r.1 = true → (r.2.1.entry (indexOf va)).valid = true ∧ (r.2.1.entry (indexOf va)).writable = true
  comesThrough : InUser va → (as.entry (indexOf va)).valid = true → (as.entry (indexOf va)).cow = true →
    (as.entry (indexOf va)).writable = false → m.free ≠ [] → r.1 = true

lemma Resolved.refuse (h : Accounted tight m spaces held) (ha : spaces a = some as) (hwhy : InUser va →
    (as.entry (indexOf va)).valid = true → (as.entry (indexOf va)).cow = true →
      (as.entry (indexOf va)).writable = false → m.free ≠ [] → False) : Resolved tight spaces held a va as m (false,as,m) := by
  refine ⟨h.same ha,?_,id,rfl,nofun,fun h1 h2 h3 h4 h5 => (hwhy h1 h2 h3 h4 h5).elim⟩
  show Memory.view m (update spaces a (some as)) = _
  rw [update_eq_self_iff.mpr ha.symm]

lemma Resolved.already (h : Accounted tight m spaces held) (ha : spaces a = some as)
    (hw : (as.entry (indexOf va)).valid = true ∧ (as.entry (indexOf va)).writable = true) :
    Resolved tight spaces held a va as m (true,as,m) := by
  refine ⟨h.same ha,?_,id,rfl,fun _ => hw,fun _ _ _ _ _ => rfl⟩
  show Memory.view m (update spaces a (some as)) = _
  rw [update_eq_self_iff.mpr ha.symm]

lemma Resolved.upgrade (ht : as.l2 (indexOf va).1 ≠ none) (hw : d.writable = true) (hd : d.frame = some d.pa)
    (h : Accounted tight m' (update spaces a (some (as.setEntry (indexOf va) d))) held)
    (hview : Memory.view m' (update spaces a (some (as.setEntry (indexOf va) d))) = Memory.view m spaces) :
    Resolved tight spaces held a va as m (true,as.setEntry (indexOf va) d,m') := by
  have hset (j : Index) : (as.setEntry (indexOf va) d).entry j = if j = indexOf va then d else as.entry j := entry_setEntry ht j
  refine ⟨h,hview,fun hp => hp.update hset fun _ => hd,rfl,fun _ => ?_,fun _ _ _ _ _ => rfl⟩
  show ((as.setEntry (indexOf va) d).entry (indexOf va)).valid = true ∧ _
  rw [hset,if_pos rfl]
  exact ⟨(frame_eq hd).1,hw⟩

lemma handleCowFault_spec (va : ℕ) (h : Accounted tight m spaces held) (ha : spaces a = some as) :
    Resolved tight spaces held a va as m (as.handleCowFault va m) := by
  unfold AddressSpace.handleCowFault
  dsimp only
  rw [indexOf_page]
  split
  next hout => exact .refuse h ha fun hin _ _ _ _ => by unfold InUser at hin; omega
  next =>
    cases hlook : as.entryLookup (indexOf va) with
    | none =>
      have hentry : as.entry (indexOf va) = .zero := by
        unfold AddressSpace.entry
        rw [hlook]
        rfl
      exact .refuse h ha fun _ hvalid _ _ _ => by rw [hentry] at hvalid; cases hvalid
    | some e =>
      have hentry := entry_of_lookup hlook
      dsimp only
      cases hvalid : e.valid with
      | false => exact .refuse h ha fun _ hv _ _ _ => by rw [hentry,hvalid] at hv; cases hv
      | true =>
        cases hcow : e.cow with
        | false => exact .refuse h ha fun _ _ hc _ _ => by rw [hentry,hcow] at hc; cases hc
        | true =>
          cases hw : e.writable with
          | true => exact .refuse h ha fun _ _ _ hw' _ => by rw [hentry,hw] at hw'; cases hw'
          | false =>
            -- a page in this state is the address space's own
            have hf : (as.entry (indexOf va)).frame = some e.pa := by
              cases hframe : (as.entry (indexOf va)).frame with
              | none =>
                have hno := (h.flagged a as (indexOf va) ha (hentry ▸ hvalid) hframe).1
                rw [hentry,hcow] at hno
                cases hno
              | some f => rw [← (frame_eq hframe).2.2.2,hentry]
            have hcow' : (as.entry (indexOf va)).cow = true := hentry ▸ hcow
            have ht := table_of_frame hf
            have hgood := h.books.good e.pa (.inr ⟨_,(holds_page held ha (indexOf va)).trans hf⟩)
            simp only [Bool.not_true,Bool.false_eq_true,if_false,Books.refcountGet_good hgood]
            split
            next hone =>
              obtain ⟨h',hview⟩ := h.inPlace ha hf hcow' hone
              rw [hentry] at h' hview
              exact .upgrade ht rfl rfl h' hview
            next hmany =>
              rcases h.unshare ha hf hcow' (by omega) with hno | ⟨new,m₁,halloc,hne,h',hview⟩
              · rw [hno]
                refine .refuse h ha fun _ _ _ _ hfree => hfree ?_
                unfold Pmem.allocPage at hno
                cases hlist : m.free with
                | nil => rfl
                | cons pa rest =>
                  rw [hlist] at hno
                  have hpa : pa = 0 := (Prod.mk.inj hno).1
                  exact absurd hpa (h.books.good pa (.inl (hlist ▸ mem_cons_self))).1
              · rw [halloc]
                dsimp only
                rw [if_neg hne]
                rw [hentry] at h' hview
                exact .upgrade ht rfl rfl h' hview

lemma makeWritable_spec (va : ℕ) (h : Accounted tight m spaces held) (ha : spaces a = some as) :
    Resolved tight spaces held a va as m (as.makeWritable va m) := by
  unfold AddressSpace.makeWritable
  split
  next hout => exact .refuse h ha fun hin _ _ _ _ => by unfold InUser at hin; omega
  next =>
    cases hlook : as.entryLookup (indexOf va) with
    | none =>
      have hentry : as.entry (indexOf va) = .zero := by
        unfold AddressSpace.entry
        rw [hlook]
        rfl
      exact .refuse h ha fun _ hvalid _ _ _ => by rw [hentry] at hvalid; cases hvalid
    | some e =>
      have hentry := entry_of_lookup hlook
      dsimp only
      cases hvalid : e.valid with
      | false => exact .refuse h ha fun _ hv _ _ _ => by rw [hentry,hvalid] at hv; cases hv
      | true =>
        cases hw : e.writable with
        | true => exact .already h ha (hentry ▸ ⟨hvalid,hw⟩)
        | false =>
          cases hcow : e.cow with
          | false => exact .refuse h ha fun _ _ hc _ _ => by rw [hentry,hcow] at hc; cases hc
          | true => exact handleCowFault_spec va h ha

lemma Accounted.mark (h : Accounted tight m spaces held) (ha : spaces a = some as) (ht : as.l2 i.1 ≠ none)
    (hold : (as.entry i).frame = none) (hd : d.frame = none) (hinvalid : d.valid = false) :
    Accounted tight m (update spaces a (some (as.setEntry i d))) held ∧
      view m (update spaces a (some (as.setEntry i d))) = view m spaces := by
  have hk := (holds_page held ha i).trans hold
  have hholds : holds (update spaces a (some (as.setEntry i d))) held = holds spaces held := by
    rw [holds_setEntry held ha ht,hd,update_eq_self_iff.mpr hk.symm]
  refine ⟨⟨?_,setEntry_flagged ha ht h.flagged fun hv => nomatch hinvalid.symm.trans hv⟩,?_⟩
  · rw [hholds]
    refine ⟨h.books.shared,fun k f hex hf => h.books.alone k f ?_ hf,h.books.good⟩
    by_cases hkp : k = .part a (.page i)
    · subst hkp
      exact absurd (hk.symm.trans hf) nofun
    · exact setEntry_exclusive ha ht hkp hex
  · rw [view_setEntry ha ht]
    refine update_eq_self_iff.mpr ?_
    unfold view Desc.cell
    rw [ha,bind_some,hold,hd]
    rfl

/-- After the pages `is` of `a` have been shared with `b`, or as many of them as there were tables
for. -/
structure Forked (tight : Prop) (spaces : Spaces) (held : ℕ → Bool) (a b : ℕ) (src dst : AddressSpace) (m : Pmem)
    (is : List Index) (r : Bool × AddressSpace × AddressSpace × Pmem) : Prop where
  accounted : Accounted tight r.2.2.2 (update (update spaces a (some r.2.1)) b (some r.2.2.1)) held
  others : ∀ x : ℕ × Index, (x.1 = b → x.2 ∉ is) →
    view r.2.2.2 (update (update spaces a (some r.2.1)) b (some r.2.2.1)) x = view m spaces x
  child : r.1 = true → ∀ j ∈ is,
    view r.2.2.2 (update (update spaces a (some r.2.1)) b (some r.2.2.1)) (b,j) = view m spaces (a,j)
  rest : ∀ j, j ∉ is → r.2.2.1.entry j = dst.entry j
  frames : ∀ j, (r.2.1.entry j).frame = (src.entry j).frame
  counts : ∀ f, max 1 (r.2.2.2.rc f) ≤ max 1 (m.rc f) + is.countP fun j => (src.entry j).frame = some f
  plain : (Plain src → Plain r.2.1) ∧ (Plain dst → Plain r.2.2.1)
  vmas : r.2.1.vmas = src.vmas ∧ r.2.2.1.vmas = dst.vmas
  refcount : r.2.1.refcount = src.refcount ∧ r.2.2.1.refcount = dst.refcount

lemma update_both (ha : spaces a = some src) (hb : spaces b = some dst) :
    update (update spaces a (some src)) b (some dst) = spaces := by
  have hsrc : update spaces a (some src) = spaces := update_eq_self_iff.mpr ha.symm
  rw [hsrc,update_eq_self_iff.mpr hb.symm]

lemma view_of_frame_none (ha : spaces a = some as) (hf : (as.entry i).frame = none) : view m spaces (a,i) = none := by
  unfold view Desc.cell
  rw [ha,bind_some,hf]
  rfl

namespace Forked

lemma skip {ok : Bool} (h : Accounted tight m spaces held) (ha : spaces a = some src) (hb : spaces b = some dst)
    (hnone : (dst.entry i).frame = none) (hsrc : ok = true → (src.entry i).frame = none) :
    Forked tight spaces held a b src dst m [i] (ok,src,dst,m) := by
  have hsame := update_both ha hb
  refine ⟨hsame.symm ▸ h,fun x _ => by rw [hsame],fun hok j hj => ?_,fun _ _ => rfl,fun _ => rfl,
    fun _ => Nat.le_add_right _ _,⟨id,id⟩,⟨rfl,rfl⟩,rfl,rfl⟩
  rw [hsame,List.mem_singleton.mp hj,view_of_frame_none hb hnone,view_of_frame_none ha (hsrc hok)]

lemma trans {is js : List Index} {src₁ dst₁ : AddressSpace} {m₁ : Pmem} {r : Bool × AddressSpace × AddressSpace × Pmem}
    (hab : a ≠ b) (h : Forked tight spaces held a b src dst m is (true,src₁,dst₁,m₁))
    (h' : Forked tight (update (update spaces a (some src₁)) b (some dst₁)) held a b src₁ dst₁ m₁ js r) :
    Forked tight spaces held a b src dst m (is ++ js) r := by
  have hspaces (x y : AddressSpace) : update (update (update (update spaces a (some src₁)) b
      (some dst₁)) a (some x)) b (some y) = update (update spaces a (some x)) b (some y) := by
    rw [update_comm hab.symm,update_idem,update_idem]
  have hview := h'.others
  have hchild := h'.child
  have hacc := h'.accounted
  rw [hspaces] at hview hchild hacc
  have hfirst (x : ℕ × Index) (hx : x.1 = b → x.2 ∉ is) := h.others x hx
  refine ⟨hacc,fun x hx => ?_,fun hok j hj => ?_,fun j hj => ?_,fun j => (h'.frames j).trans (h.frames j),fun f => ?_,
    ⟨h'.plain.1 ∘ h.plain.1,h'.plain.2 ∘ h.plain.2⟩,⟨h'.vmas.1.trans h.vmas.1,h'.vmas.2.trans h.vmas.2⟩,
    h'.refcount.1.trans h.refcount.1,h'.refcount.2.trans h.refcount.2⟩
  · exact (hview x fun hb hj => hx hb (mem_append_right _ hj)).trans
      (hfirst x fun hb hi => hx hb (mem_append_left _ hi))
  · by_cases hjs : j ∈ js
    · exact (hchild hok j hjs).trans (hfirst (a,j) fun heq => absurd heq hab)
    · rw [hview (b,j) fun _ => hjs]
      exact h.child rfl j ((List.mem_append.mp hj).resolve_right hjs)
  · exact (h'.rest j fun hjs => hj (mem_append_right _ hjs)).trans (h.rest j fun his => hj (mem_append_left _ his))
  · have hcount := h'.counts f
    simp only [h.frames] at hcount
    have hcount₁ := h.counts f
    dsimp only at hcount₁
    rw [countP_append]
    omega

lemma stopped {is : List Index} {src₁ dst₁ : AddressSpace} {m₁ : Pmem}
    (h : Forked tight spaces held a b src dst m is (false,src₁,dst₁,m₁)) (js : List Index) :
    Forked tight spaces held a b src dst m (is ++ js) (false,src₁,dst₁,m₁) := by
  refine ⟨h.accounted,fun x hx => h.others x fun hb hi => hx hb (mem_append_left _ hi),nofun,
    fun j hj => h.rest j fun hi => hj (mem_append_left _ hi),h.frames,fun f => ?_,h.plain,h.vmas,h.refcount⟩
  rw [countP_append]
  exact (h.counts f).trans (by omega)

lemma table (h : Accounted tight m spaces held) (ha : spaces a = some src) (hb : spaces b = some dst) :
    dst.l3For i.1 m = none ∨ ∃ dst₁ m₁, dst.l3For i.1 m = some (dst₁,m₁) ∧ dst₁.l2 i.1 ≠ none ∧
      Forked tight spaces held a b src dst m [] (true,src,dst₁,m₁) ∧ m₁.rc = m.rc := by
  rcases h.l3For hb i.1 with hno | ⟨dst₁,m₁,hl3,h₁,huntouched,hrc,ht,hsame,hfields⟩
  · exact .inl hno
  have hsrc : update spaces a (some src) = spaces := update_eq_self_iff.mpr ha.symm
  have hview : view m₁ (update spaces b (some dst₁)) = view m spaces := by
    rw [(SameEntries.update hb hsame).view]
    exact view_congr held huntouched
  refine .inr ⟨dst₁,m₁,hl3,ht,⟨hsrc.symm ▸ h₁,fun x _ => hsrc.symm ▸ congrFun hview x,nofun,fun j _ => hsame j,fun _ => rfl,
    fun f => by rw [hrc]; exact Nat.le_add_right _ _,⟨id,fun hp => hp.congr hsame⟩,⟨rfl,by rw [hfields]⟩,rfl,by rw [hfields]⟩,hrc⟩

lemma guard (h : Accounted tight m spaces held) (ha : spaces a = some src) (hb : spaces b = some dst) (ht : dst.l2 i.1 ≠ none)
    (hnone : (dst.entry i).frame = none) (hsrc : (src.entry i).frame = none) :
    Forked tight spaces held a b src dst m [i] (true,src,dst.setEntry i { Desc.zero with guard := true },m) := by
  obtain ⟨h₂,hview⟩ := h.mark (i := i) (d := { Desc.zero with guard := true }) hb ht hnone rfl rfl
  have hset (j : Index) : (dst.setEntry i { Desc.zero with guard := true }).entry j =
      if j = i then { Desc.zero with guard := true } else dst.entry j := entry_setEntry ht j
  have hsame : update spaces a (some src) = spaces := update_eq_self_iff.mpr ha.symm
  refine ⟨hsame.symm ▸ h₂,fun x _ => hsame.symm ▸ congrFun hview x,fun _ j hj => ?_,fun j hj => ?_,fun _ => rfl,
    fun _ => Nat.le_add_right _ _,⟨id,fun hp => hp.update hset nofun⟩,⟨rfl,rfl⟩,rfl,rfl⟩
  · rw [hsame,hview,List.mem_singleton.mp hj,view_of_frame_none hb hnone,view_of_frame_none ha hsrc]
  · exact (hset j).trans (if_neg fun heq => hj (List.mem_singleton.mpr heq))

lemma sharePage (h : Accounted tight m spaces held) (ha : spaces a = some src) (hb : spaces b = some dst) (hab : a ≠ b)
    (ht : dst.l2 i.1 ≠ none) (hnone : (dst.entry i).frame = none) (hf : (src.entry i).frame = some f)
    (hroom : m.rc f + 1 < 2^16) : Forked tight spaces held a b src dst m [i]
      (true,src.setEntry i (AddressSpace.shared (src.entry i)),
        (dst.setEntry i (AddressSpace.shared (src.entry i))).onePageMore,m.refcountShare f) := by
  have hd : (AddressSpace.shared (src.entry i)).frame = some f := by
    rw [frame_shared,(frame_eq hf).2.2.2]
  have hsrc := table_of_frame hf
  obtain ⟨h₁,hview₁⟩ := h.demote ha hf hd rfl
  have hset₁ (j : Index) : (src.setEntry i (AddressSpace.shared (src.entry i))).entry j =
      if j = i then AddressSpace.shared (src.entry i) else src.entry j := entry_setEntry hsrc j
  have hset₂ (j : Index) : (dst.setEntry i (AddressSpace.shared (src.entry i))).onePageMore.entry j =
      if j = i then AddressSpace.shared (src.entry i) else dst.entry j := entry_setEntry ht j
  obtain ⟨h₂,hview₂⟩ := h₁.share (i := i) (f := f) (update_self _ _ _) ((update_of_ne hab.symm _ _).trans hb)
    (by rw [hset₁,if_pos rfl]; exact hd) (by rw [hset₁,if_pos rfl]; rfl) hnone ht hd rfl hroom
  obtain ⟨h₃,hview₃⟩ := h₂.fields (dst.setEntry i (AddressSpace.shared (src.entry i))).onePageMore
    (update_self _ _ _) ⟨rfl,rfl,rfl⟩
  rw [update_idem] at h₃ hview₃
  -- the parent sees what it saw before, and the child the same
  have hcell : view m spaces (a,i) = (AddressSpace.shared (src.entry i)).cell m := by
    unfold view
    rw [ha,bind_some,cell_of_frame hf,cell_of_frame hd]
    simp [AddressSpace.shared]
  have hview : view (m.refcountShare f) (update (update spaces a (some (src.setEntry i
      (AddressSpace.shared (src.entry i))))) b (some (dst.setEntry i (AddressSpace.shared (src.entry i))).onePageMore)) =
        update (view m spaces) (b,i) (view m spaces (a,i)) := by
    rw [hview₃,hview₂,hview₁,hcell]
    congr 1
    exact update_eq_self_iff.mpr hcell.symm
  have hgood := h.books.good f (.inr ⟨_,(holds_page held ha i).trans hf⟩)
  refine ⟨h₃,fun x hx => ?_,fun _ j hj => ?_,fun j hj => ?_,fun j => ?_,fun g => ?_,⟨fun hp => hp.update hset₁ fun _ => ?_,
    fun hp => hp.update hset₂ fun _ => ?_⟩,⟨rfl,rfl⟩,rfl,rfl⟩
  · rw [hview,update_of_ne]
    rintro rfl
    exact hx rfl (List.mem_singleton.mpr rfl)
  · rw [hview,List.mem_singleton.mp hj,update_self]
  · exact (hset₂ j).trans (if_neg fun heq => hj (List.mem_singleton.mpr heq))
  · show ((src.setEntry i (AddressSpace.shared (src.entry i))).entry j).frame = _
    rw [hset₁]
    split
    next heq => rw [heq,hd,hf]
    next => rfl
  · show max 1 ((m.refcountShare f).rc g) ≤ _
    unfold Pmem.refcountShare
    rw [Books.refcountSet_good hgood,Nat.mod_eq_of_lt hroom]
    by_cases hgf : g = f
    · subst hgf
      simp only [update_self,countP_singleton,hf,decide_true,if_true]
      split <;> omega
    · simp only [update_of_ne hgf]
      exact Nat.le_add_right _ _
  · exact frame_shared _
  · exact frame_shared _

end Forked

lemma cloneEntry_spec (h : Accounted tight m spaces held) (ha : spaces a = some src) (hb : spaces b = some dst) (hab : a ≠ b)
    (hnone : (dst.entry i).frame = none) (hroom : ∀ f, (src.entry i).frame = some f → m.rc f + 1 < 2^16) :
    Forked tight spaces held a b src dst m [i] (AddressSpace.cloneEntry i src dst m) := by
  -- what comes after the child has a table
  have hthen {dst₁ : AddressSpace} {m₁ : Pmem} {r : Bool × AddressSpace × AddressSpace × Pmem}
      (h₁ : Forked tight spaces held a b src dst m [] (true,src,dst₁,m₁))
      (h₂ : Forked tight (update spaces b (some dst₁)) held a b src dst₁ m₁ [i] r) :
      Forked tight spaces held a b src dst m [i] r := by
    have hsrc : update spaces a (some src) = spaces := update_eq_self_iff.mpr ha.symm
    exact h₁.trans hab (by rw [hsrc]; exact h₂)
  have hback {dst₁ : AddressSpace} : update spaces b (some dst₁) a = some src := (update_of_ne hab _ _).trans ha
  have hacc {dst₁ : AddressSpace} {m₁ : Pmem} (h₁ : Forked tight spaces held a b src dst m [] (true,src,dst₁,m₁)) :
      Accounted tight m₁ (update spaces b (some dst₁)) held := by
    have h₂ := h₁.accounted
    have hsrc : update spaces a (some src) = spaces := update_eq_self_iff.mpr ha.symm
    rwa [hsrc] at h₂
  unfold AddressSpace.cloneEntry
  cases hlook : src.entryLookup i with
  | none =>
    have hentry : src.entry i = .zero := by
      unfold AddressSpace.entry
      rw [hlook]
      rfl
    exact .skip h ha hb hnone fun _ => by rw [hentry]; rfl
  | some e =>
    have hentry := entry_of_lookup hlook
    dsimp only
    cases hvalid : e.valid with
    | false =>
      have hframe : (src.entry i).frame = none := by
        rw [hentry]
        unfold Desc.frame
        rw [hvalid]
        rfl
      cases hguard : e.guard with
      | false => exact .skip h ha hb hnone fun _ => hframe
      | true =>
        simp only [Bool.not_false,if_true]
        unfold AddressSpace.installGuard
        rcases Forked.table (i := i) h ha hb with hno | ⟨dst₁,m₁,hl3,ht,h₁,-⟩
        · rw [hno]
          exact .skip h ha hb hnone nofun
        · rw [hl3]
          have hnone₁ : (dst₁.entry i).frame = none := (congrArg Desc.frame (h₁.rest i nofun)).trans hnone
          exact hthen h₁ (.guard (hacc h₁) hback (update_self _ _ _) ht hnone₁ hframe)
    | true =>
      cases hcache : e.pagecache with
      | true => exact .skip h ha hb hnone fun _ => by rw [hentry]; unfold Desc.frame; rw [hcache]; simp
      | false =>
        cases hwindow : e.wmWindow with
        | true => exact .skip h ha hb hnone fun _ => by rw [hentry]; unfold Desc.frame; rw [hwindow]; simp
        | false =>
          have hf : (src.entry i).frame = some e.pa := by
            rw [hentry]
            unfold Desc.frame
            rw [hvalid,hcache,hwindow]
            rfl
          simp only [Bool.not_true,Bool.false_eq_true,if_false]
          rcases Forked.table (i := i) h ha hb with hno | ⟨dst₁,m₁,hl3,ht,h₁,hrc⟩
          · rw [hno]
            exact .skip h ha hb hnone nofun
          · rw [hl3]
            have hnone₁ : (dst₁.entry i).frame = none := (congrArg Desc.frame (h₁.rest i nofun)).trans hnone
            have h₂ := Forked.sharePage (hacc h₁) hback (update_self _ _ _) hab ht hnone₁ hf
              (by rw [hrc]; exact hroom e.pa hf)
            rw [hentry] at h₂
            exact hthen h₁ h₂

lemma cloneLoop_spec (is : List Index) (hnodup : is.Nodup) (h : Accounted tight m spaces held) (ha : spaces a = some src)
    (hb : spaces b = some dst) (hab : a ≠ b) (hnone : ∀ i ∈ is, (dst.entry i).frame = none)
    (hroom : ∀ f, max 1 (m.rc f) + (is.countP fun j => (src.entry j).frame = some f) < 2^16) :
    Forked tight spaces held a b src dst m is (AddressSpace.cloneLoop is src dst m) := by
  induction is generalizing src dst m spaces with
  | nil =>
    have hsame := update_both ha hb
    exact ⟨hsame.symm ▸ h,fun x _ => congrFun (hsame.symm ▸ rfl) x,nofun,fun _ _ => rfl,fun _ => rfl,fun _ => le_rfl,⟨id,id⟩,
      ⟨rfl,rfl⟩,rfl,rfl⟩
  | cons i is ih =>
    obtain ⟨hi,his⟩ := List.nodup_cons.mp hnodup
    have hround := cloneEntry_spec h ha hb hab (hnone i mem_cons_self) fun f hf => by
      have := hroom f
      rw [countP_cons_of_pos (by simpa using hf)] at this
      omega
    unfold AddressSpace.cloneLoop
    generalize AddressSpace.cloneEntry i src dst m = r at hround
    obtain ⟨ok,src₁,dst₁,m₁⟩ := r
    cases ok with
    | false => exact hround.stopped is
    | true =>
      refine hround.trans hab (ih his hround.accounted ((update_of_ne hab _ _).trans (update_self _ _ _))
        (update_self _ _ _) (fun j hj => ?_) fun f => ?_)
      · have hji : j ∉ [i] := fun hmem => hi (List.mem_singleton.mp hmem ▸ hj)
        rw [hround.rest j hji]
        exact hnone j (mem_cons_of_mem _ hj)
      · have hcount := hround.counts f
        have hall := hroom f
        have hsplit : (i :: is).countP (fun j => (src.entry j).frame = some f) =
          [i].countP (fun j => (src.entry j).frame = some f) + is.countP (fun j => (src.entry j).frame = some f) := by
            rw [← singleton_append,countP_append]
        simp only [hround.frames]
        dsimp only at hcount
        omega

/-- Every frame of the parent can be shared as often as the parent has it. -/
def ForkRoom (m : Pmem) (src : AddressSpace) : Prop :=
  ∀ f, max 1 (m.rc f) + (allIndexes.countP fun j => (src.entry j).frame = some f) < 2^16

lemma mem_allIndexes (i : Index) : i ∈ allIndexes := List.pair_mem_product.mpr ⟨mem_finRange _,mem_finRange _⟩

lemma nodup_allIndexes : allIndexes.Nodup := (nodup_finRange 512).product (nodup_finRange 512)

/-- What `address_space_clone_cow` leaves: all processes see their pages as before, and the child
sees its parent's. -/
structure Cloned (tight : Prop) (spaces : Spaces) (held : ℕ → Bool) (a b : ℕ) (src : AddressSpace) (mem : Mem)
    (r : Option AddressSpace × AddressSpace × Mem) : Prop where
  accounted : ∃ held', Accounted tight r.2.2.pmem (update (update spaces a (some r.2.1)) b r.1) held' ∧
    ∀ f, held f = true → held' f = true
  view : ∀ x, view r.2.2.pmem (update (update spaces a (some r.2.1)) b r.1) x =
    if x.1 = b ∧ r.1 ≠ none then view mem.pmem spaces (a,x.2) else view mem.pmem spaces x
  plain : (Plain src → Plain r.2.1) ∧ (Plain src → ∀ child, r.1 = some child → Plain child)
  vmas : r.2.1.vmas = src.vmas ∧ ∀ child, r.1 = some child → child.vmas = []

lemma Cloned.failed {mem left : Mem} (h : Accounted tight left.pmem (update (update spaces a (some as)) b none) held)
    (hview : ∀ x, Memory.view left.pmem (update (update spaces a (some as)) b none) x = Memory.view mem.pmem spaces x)
    (hplain : Plain src → Plain as) (hvmas : as.vmas = src.vmas) : Cloned tight spaces held a b src mem (none,as,left) := by
  refine ⟨⟨held,h,fun _ hf => hf⟩,fun x => ?_,⟨hplain,fun _ _ => nofun⟩,hvmas,nofun⟩
  rw [if_neg fun hno => hno.2 rfl]
  exact hview x

lemma cloneCow_spec (kmallocOk : Bool) {mem : Mem} (h : Accounted tight mem.pmem spaces held) (ha : spaces a = some src)
    (hb : spaces b = none) (hroom : ForkRoom mem.pmem src) :
    Cloned tight spaces held a b src mem (src.cloneCow kmallocOk mem) := by
  have hab : a ≠ b := by
    rintro rfl
    exact absurd (hb.symm.trans ha) nofun
  have hsrc : update spaces a (some src) = spaces := update_eq_self_iff.mpr ha.symm
  have hnob : update spaces b none = spaces := update_eq_self_iff.mpr hb.symm
  have hviewb (m : Pmem) (j : Index) : Memory.view m spaces (b,j) = none := by
    unfold Memory.view
    rw [hb]
    rfl
  unfold AddressSpace.cloneCow
  rcases create_spec kmallocOk h hb with ⟨m₁,held₁,hcreate,h₁,hview₁,-,hheld⟩ | ⟨dst,m₁,hcreate,h₁,hview₁,hrc₁,hentry,hvmas,hone⟩
  · rw [hcreate]
    refine ⟨⟨held₁,?_,hheld⟩,fun x => ?_,⟨id,fun _ _ => nofun⟩,rfl,nofun⟩
    · show Accounted tight m₁ (update (update spaces a (some src)) b none) held₁
      rwa [hsrc,hnob]
    · show Memory.view m₁ (update (update spaces a (some src)) b none) x = _
      rw [hsrc,hnob,if_neg fun hx => hx.2 rfl]
      exact congrFun hview₁ x
  · rw [hcreate]
    dsimp only
    have hloop := cloneLoop_spec allIndexes nodup_allIndexes h₁ ((update_of_ne hab _ _).trans ha) (update_self _ _ _)
      hab (fun i _ => by rw [hentry]; rfl) (by rw [hrc₁]; exact hroom)
    generalize AddressSpace.cloneLoop allIndexes src dst m₁ = r at hloop
    obtain ⟨ok,src₂,dst₂,m₂⟩ := r
    have hspaces (x y : AddressSpace) : update (update (update spaces b (some dst)) a (some x)) b (some y) =
        update (update spaces a (some x)) b (some y) := by
      rw [update_comm hab.symm,update_idem]
    have hacc := hloop.accounted
    have hothers := hloop.others
    have hchild := hloop.child
    rw [hspaces] at hacc hothers hchild
    rw [hview₁] at hothers hchild
    cases ok with
    | true =>
      dsimp only at hacc hothers hchild ⊢
      obtain ⟨h₃,hview₃⟩ := hacc.fields { dst₂ with heapBrk := src₂.heapBrk } (update_self _ _ _) ⟨rfl,rfl,rfl⟩
      rw [update_idem] at h₃ hview₃
      refine ⟨⟨held,h₃,fun _ hf => hf⟩,fun x => ?_,⟨hloop.plain.1,fun _ child hc => ?_⟩,hloop.vmas.1,fun child hc => ?_⟩
      · refine (congrFun hview₃ x).trans ?_
        by_cases hx : x.1 = b
        · obtain ⟨c,j⟩ := x
          subst hx
          rw [if_pos ⟨rfl,nofun⟩]
          exact hchild rfl j (mem_allIndexes j)
        · rw [if_neg fun h => hx h.1]
          exact hothers x fun heq => absurd heq hx
      · rw [← some.inj hc]
        have hplain : Plain dst₂ := hloop.plain.2 fun j hj => by rw [hentry] at hj; cases hj
        exact hplain.congr fun _ => rfl
      · rw [← some.inj hc]
        exact hloop.vmas.2.trans hvmas
    | false =>
      dsimp only at hacc hothers ⊢
      obtain ⟨h₃,-,hview₃⟩ := Accounted.destroy { mem with pmem := m₂ } hacc (update_self _ _ _)
      have hgone : (dst₂.destroy { mem with pmem := m₂ }).1 = none := destroy_of_one (hloop.refcount.2.trans hone)
      rw [update_idem,hgone] at h₃ hview₃
      refine .failed h₃ (fun x => (hview₃ x).trans ?_) hloop.plain.1 hloop.vmas.1
      by_cases hx : x.1 = b
      · obtain ⟨c,j⟩ := x
        subst hx
        rw [if_pos ⟨rfl,rfl⟩]
        exact (hviewb _ j).symm
      · rw [if_neg fun hno => hx hno.1]
        exact hothers x fun heq => absurd heq hx

end VibeOS.Memory

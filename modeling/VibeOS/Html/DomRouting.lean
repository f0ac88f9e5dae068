import VibeOS.Html.DomTree

/-! The builder over a run: the tree, its skeleton, and where the content of the page goes. -/
namespace VibeOS.DomBuilder
open VibeOS.Html VibeOS.Libc List Option

lemma domStrdupN_spec (s : List Char) (h : Heap) : ((domStrdupN s h).1 = none ∧ (domStrdupN s h).2.live = h.live) ∨
    ∃ str, (domStrdupN s h).1 = some str ∧ str.chars = s ∧ (domStrdupN s h).2.live = str.block :: h.live := by
  unfold domStrdupN
  rcases hm : h.malloc with ⟨_ | b,h'⟩ <;> have hspec := malloc_spec h <;> rw [hm] at hspec
  · rcases hspec with ⟨-,hlive⟩ | ⟨b,hb,-⟩
    · exact .inl ⟨rfl,hlive⟩
    · exact nomatch hb
  · rcases hspec with ⟨hb,-⟩ | ⟨b',hb,hlive⟩
    · exact nomatch hb
    · obtain rfl := some.inj hb
      exact .inr ⟨_,rfl,rfl,hlive⟩

lemma nodeWith_spec (s : List Char) (h : Heap) : ∃ r, nodeWith s h = some r ∧ ((r.1 = none ∧ r.2.live.Perm h.live) ∨
    ∃ b str, r.1 = some (b,str) ∧ str.chars = s ∧ r.2.live = str.block :: b :: h.live) := by
  unfold nodeWith
  rcases hm : h.malloc with ⟨_ | b,h'⟩ <;> have hspec := malloc_spec h <;> rw [hm] at hspec
  · rcases hspec with ⟨-,hlive⟩ | ⟨b,hb,-⟩
    · exact ⟨_,rfl,.inl ⟨rfl,.of_eq hlive⟩⟩
    · exact nomatch hb
  · rcases hspec with ⟨hb,-⟩ | ⟨b',hb,hlive⟩
    · exact nomatch hb
    · obtain rfl := some.inj hb
      dsimp only at hlive ⊢
      rcases hd : domStrdupN s h' with ⟨_ | str,h''⟩ <;> have hdup := domStrdupN_spec s h' <;> rw [hd] at hdup
      · rcases hdup with ⟨-,hlive'⟩ | ⟨str,hs,-⟩
        · dsimp only at hlive' ⊢
          obtain ⟨h₃,hfree,hlive₃⟩ := free_spec (.of_eq (hlive'.trans hlive))
          rw [hfree]
          exact ⟨_,rfl,.inl ⟨rfl,hlive₃⟩⟩
        · exact nomatch hs
      · rcases hdup with ⟨hs,-⟩ | ⟨str',hs,hchars,hlive'⟩
        · exact nomatch hs
        · obtain rfl := some.inj hs
          dsimp only at hlive' ⊢
          rw [hlive] at hlive'
          exact ⟨_,rfl,.inr ⟨_,_,rfl,hchars,hlive'⟩⟩

lemma makeAttr_spec (src : HtmlAttr) (h : Heap) : ∃ r, makeAttr src h = some r ∧ ((r.1 = none ∧ r.2.live.Perm h.live) ∨
    ∃ a, r.1 = some a ∧ r.2.live.Perm (a.blocks ++ h.live)) := by
  unfold makeAttr
  rcases hm : h.malloc with ⟨_ | b,h'⟩ <;> have hspec := malloc_spec h <;> rw [hm] at hspec
  · rcases hspec with ⟨-,hlive⟩ | ⟨b,hb,-⟩
    · exact ⟨_,rfl,.inl ⟨rfl,.of_eq hlive⟩⟩
    · exact nomatch hb
  · rcases hspec with ⟨hb,-⟩ | ⟨b',hb,hlive⟩
    · exact nomatch hb
    · obtain rfl := some.inj hb
      dsimp only at hlive ⊢
      -- what was made of the name and the value, and the blocks of it
      have hname : (domStrdupN src.name h').2.live.Perm ((domStrdupN src.name h').1.toList.map (·.block) ++ h'.live) := by
        rcases domStrdupN_spec src.name h' with ⟨hn,hl⟩ | ⟨str,hn,-,hl⟩
        · rw [hn,hl]
          exact .refl _
        · rw [hn,hl]
          exact .refl _
      have hvalue : (domStrdupN src.value (domStrdupN src.name h').2).2.live.Perm
          ((domStrdupN src.value (domStrdupN src.name h').2).1.toList.map (·.block) ++ (domStrdupN src.name h').2.live) := by
        rcases domStrdupN_spec src.value (domStrdupN src.name h').2 with ⟨hn,hl⟩ | ⟨str,hn,-,hl⟩
        · rw [hn,hl]
          exact .refl _
        · rw [hn,hl]
          exact .refl _
      have hall := hvalue.trans (hname.append_left _)
      rw [hlive] at hall
      generalize (domStrdupN src.value (domStrdupN src.name h').2) = value at hall ⊢
      generalize (domStrdupN src.name h') = name at hall ⊢
      have hgone (n v : Option DomStr) (hperm : value.2.live.Perm (v.toList.map (·.block) ++ (n.toList.map (·.block) ++ b :: h.live))) :
          ∃ r, (freeAll (n.toList.map (·.block) ++ v.toList.map (·.block) ++ [b]) value.2).map (fun h => ((none : Option DomAttr),h)) = some r ∧
            ((r.1 = none ∧ r.2.live.Perm h.live) ∨ ∃ a, r.1 = some a ∧ r.2.live.Perm (a.blocks ++ h.live)) := by
        have hswap : (v.toList.map (·.block) ++ (n.toList.map (·.block) ++ b :: h.live)).Perm
            (n.toList.map (·.block) ++ v.toList.map (·.block) ++ [b] ++ h.live) := by
          rw [← append_assoc,append_assoc _ [b] h.live]
          exact List.perm_append_comm.append_right _
        obtain ⟨h₃,hfree,hlive₃⟩ := freeAll_spec (hperm.trans hswap)
        rw [hfree]
        exact ⟨_,rfl,.inl ⟨rfl,hlive₃⟩⟩
      obtain ⟨name,h₁⟩ := name
      obtain ⟨value,h₂⟩ := value
      dsimp only at hall hgone ⊢
      match name,value with
      | some n,some v => exact ⟨_,rfl,.inr ⟨_,rfl,hall.trans (List.Perm.swap _ _ _)⟩⟩
      | none,none => exact hgone none none hall
      | none,some v => exact hgone none (some v) hall
      | some n,none => exact hgone (some n) none hall

lemma addAttrs_spec (merge : Bool) (srcs : List HtmlAttr) (as : List DomAttr) (h : Heap) : ∃ r, addAttrs merge srcs as h = some r ∧
    ∀ rest, h.live.Perm (as.flatMap DomAttr.blocks ++ rest) → r.2.2.live.Perm (r.1.flatMap DomAttr.blocks ++ rest) := by
  induction srcs generalizing as h with
  | nil => exact ⟨_,rfl,fun _ hlive => hlive⟩
  | cons src srcs ih =>
    rw [addAttrs]
    split
    · exact ih as h
    · obtain ⟨r,hr,hspec⟩ := makeAttr_spec src h
      rw [hr,bind_some]
      rcases hspec with ⟨hnone,hlive⟩ | ⟨a,hsome,hlive⟩
      · rw [hnone]
        exact ⟨_,rfl,fun rest hrest => hlive.trans hrest⟩
      · rw [hsome]
        obtain ⟨q,hq,hkept⟩ := ih (as ++ [a]) r.2
        refine ⟨q,hq,fun rest hrest => hkept rest ?_⟩
        rw [flatMap_append,flatMap_singleton,append_assoc]
        refine (hlive.trans (hrest.append_left _)).trans ?_
        rw [← append_assoc,← append_assoc]
        exact List.perm_append_comm.append_right _

/-- A node that is in no list. -/
structure Fresh (n : DomNode) : Prop where
  first : n.firstChild = none
  last : n.lastChild = none
  next : n.nextSibling = none

lemma domMakeElement_spec (t : HtmlToken) (h : Heap) : ∃ r, domMakeElement t h = some r ∧ ((r.1 = none ∧ r.2.live.Perm h.live) ∨
    ∃ e tag, r.1 = some e ∧ Fresh e ∧ e.type = .element ∧ e.tag = some tag ∧ tag.chars = t.tagName ∧ r.2.live.Perm (e.blocks ++ h.live)) := by
  unfold domMakeElement
  obtain ⟨r,hr,hspec⟩ := nodeWith_spec t.tagName h
  rw [hr,bind_some]
  rcases hspec with ⟨hnone,hlive⟩ | ⟨b,tag,hsome,hchars,hlive⟩
  · rw [hnone]
    exact ⟨_,rfl,.inl ⟨rfl,hlive⟩⟩
  · rw [hsome]
    dsimp only
    obtain ⟨q,hq,hkept⟩ := addAttrs_spec false t.attrs [] r.2
    have hattrs := hkept (tag.block :: b :: h.live) (.of_eq hlive)
    rw [hq,bind_some]
    -- the blocks of the element
    have hblocks : (q.1.flatMap DomAttr.blocks ++ tag.block :: b :: h.live).Perm
        (DomNode.blocks { domNodeNew b .element with tag := some tag, attrs := q.1 } ++ h.live) := by
      change (q.1.flatMap DomAttr.blocks ++ ([tag.block] ++ ([b] ++ h.live))).Perm ((([tag.block] ++ []) ++ q.1.flatMap DomAttr.blocks ++ [b]) ++ h.live)
      rw [append_nil,append_assoc,append_assoc,← append_assoc,← append_assoc [tag.block]]
      exact List.perm_append_comm.append_right _
    split
    · exact ⟨_,rfl,.inr ⟨_,_,rfl,⟨rfl,rfl,rfl⟩,rfl,rfl,hchars,hattrs.trans hblocks⟩⟩
    · obtain ⟨h₃,hfree,hlive₃⟩ := freeAll_spec (hattrs.trans hblocks)
      rw [hfree]
      exact ⟨_,rfl,.inl ⟨rfl,hlive₃⟩⟩

/-- `s` is the one element of that name. -/
def Slot (nodes : List DomNode) (name : List Char) (s : Option ℕ) : Prop := ∀ j, isElement nodes name j = true ↔ s = some j

lemma isElement_append (nodes : List DomNode) (p : ℕ) (child : DomNode) (name : List Char) (j : ℕ) :
    isElement (domNodeAppendChild nodes p child) name j = if j = nodes.length then child.isNamed name else isElement nodes name j := by
  unfold isElement
  rcases Nat.lt_trichotomy j nodes.length with hj | rfl | hj
  · rw [if_neg (by omega),appendChild_old nodes p child hj,getElem?_eq_getElem hj]
    rfl
  · rw [if_pos rfl,appendChild_new]
    rfl
  · have hlen : (domNodeAppendChild nodes p child).length ≤ j := by
      rw [length_appendChild]
      exact hj
    rw [if_neg (by omega),getElem?_eq_none hlen,getElem?_eq_none (by omega)]

variable {name : List Char} {nodes : List DomNode} {s : Option ℕ}

lemma Slot.lt (h : Slot nodes name s) {j : ℕ} (hj : s = some j) : j < nodes.length := by
  have helement := (h j).mpr hj
  by_contra hge
  rw [isElement,getElem?_eq_none (by omega)] at helement
  exact nomatch helement

variable {child : DomNode}

lemma Slot.append_other (h : Slot nodes name s) (p : ℕ)
    (hchild : child.isNamed name = false) : Slot (domNodeAppendChild nodes p child) name s := by
  intro j
  rw [isElement_append]
  split
  · rename_i hj
    subst hj
    rw [hchild]
    exact iff_of_false nofun fun hs => Nat.lt_irrefl _ (h.lt hs)
  · exact h j

lemma Slot.append_new (h : Slot nodes name none) (p : ℕ)
    (hchild : child.isNamed name = true) : Slot (domNodeAppendChild nodes p child) name (some nodes.length) := by
  intro j
  rw [isElement_append]
  split
  · rename_i hj
    subst hj
    exact iff_of_true hchild rfl
  · rename_i hj
    exact iff_of_false (fun he => nomatch (h j).mp he) fun hs => hj (some.inj hs).symm

def isSkeletonTag (tag : List Char) : Bool := domStreq tag htmlTag || domStreq tag headTag || domStreq tag bodyTag

def PageElement (n : DomNode) : Prop :=
  n.type = .element ∧ ∃ tag, n.tag = some tag ∧ domIsHeadOnlyTag tag.chars = false ∧ isSkeletonTag tag.chars = false

def HeadOnly (n : DomNode) : Prop := n.type = .element ∧ ∃ tag, n.tag = some tag ∧ domIsHeadOnlyTag tag.chars = true

def InHeadOnly (nodes : List DomNode) (j : ℕ) : Prop := ∃ a n, nodes[a]? = some n ∧ HeadOnly n ∧ Under nodes a j

/-- What has to be shown: the elements of the page, and its text outside head-only elements. -/
def Content (nodes : List DomNode) (j : ℕ) (n : DomNode) : Prop :=
  PageElement n ∨ n.type = .text ∧ (∃ text, n.text = some text ∧ isBlank text.chars = false) ∧ ¬ InHeadOnly nodes j

def Routed (nodes : List DomNode) (body : Option ℕ) : Prop := ∀ j n, nodes[j]? = some n → Content nodes j n → ∃ b, body = some b ∧ Under nodes b j

lemma Under.append {a j : ℕ} (h : Under nodes a j) (p : ℕ) (child : DomNode) :
    Under (domNodeAppendChild nodes p child) a j := by
  induction h with
  | refl => exact .refl
  | step _ hq ih => exact .step ih ((parentOf_old p child (parentOf_lt hq)).trans hq)

lemma InHeadOnly.append {j : ℕ} (h : InHeadOnly nodes j) (p : ℕ) (child : DomNode) :
    InHeadOnly (domNodeAppendChild nodes p child) j := by
  obtain ⟨a,n,hn,hhead,hunder⟩ := h
  have ha := (List.getElem?_eq_some_iff.mp hn).1
  refine ⟨a,relinked nodes p a n,?_,hhead,hunder.append p child⟩
  rw [appendChild_old nodes p child ha,hn]
  rfl

lemma Routed.append {body : Option ℕ} (h : Routed nodes body) {p : ℕ}
    (hnew : PageElement child ∨ child.type = .text ∧ (∃ text, child.text = some text ∧ isBlank text.chars = false) ∧ ¬ InHeadOnly nodes p →
      ∃ b, body = some b ∧ Under nodes b p) : Routed (domNodeAppendChild nodes p child) body := by
  intro j n hn hcontent
  rcases appendChild_cases hn with ⟨s,hs,rfl,-⟩ | ⟨rfl,rfl⟩
  · have hold : Content nodes j s := hcontent.imp id fun ⟨htype,htext,hout⟩ => ⟨htype,htext,fun hin => hout (hin.append p child)⟩
    obtain ⟨b,hb,hunder⟩ := h j s hs hold
    exact ⟨b,hb,hunder.append p child⟩
  · have hchild : PageElement child ∨ child.type = .text ∧ (∃ text, child.text = some text ∧ isBlank text.chars = false) ∧ ¬ InHeadOnly nodes p := by
      refine hcontent.imp id fun ⟨htype,htext,hout⟩ => ⟨htype,htext,fun hin => hout ?_⟩
      obtain ⟨a,n,hn',hhead,hunder⟩ := hin.append p child
      exact ⟨a,n,hn',hhead,.step hunder (parentOf_new nodes p child)⟩
    obtain ⟨b,hb,hunder⟩ := hnew hchild
    exact ⟨b,hb,.step (hunder.append p child) (parentOf_new nodes p child)⟩

lemma Routed.no_body (h : Routed nodes none) (body : Option ℕ) : Routed nodes body := fun j n hn hcontent => by
  obtain ⟨b,hb,-⟩ := h j n hn hcontent
  exact nomatch hb

def reattr (nodes : List DomNode) (i : ℕ) (as : List DomAttr) : List DomNode := nodes.modify i fun n => { n with attrs := as }

lemma getElem?_reattr (nodes : List DomNode) (i : ℕ) (as : List DomAttr) (j : ℕ) :
    (reattr nodes i as)[j]? = (nodes[j]?).map fun n => { n with attrs := if i = j then as else n.attrs } := by
  rw [reattr,getElem?_modify]
  rcases nodes[j]? with _ | n
  · rfl
  · by_cases h : i = j
    · simp [h]
    · simp [h]

lemma reattr_some {i j : ℕ} {as : List DomAttr} {n : DomNode} (hn : (reattr nodes i as)[j]? = some n) :
    ∃ s, nodes[j]? = some s ∧ n = { s with attrs := if i = j then as else s.attrs } := by
  rw [getElem?_reattr] at hn
  rcases hs : nodes[j]? with _ | s
  · rw [hs] at hn
    exact nomatch hn
  · rw [hs] at hn
    exact ⟨s,rfl,(some.inj hn).symm⟩

lemma parentOf_reattr (nodes : List DomNode) (i : ℕ) (as : List DomAttr) : parentOf (reattr nodes i as) = parentOf nodes := by
  funext j
  rw [parentOf,parentOf,getElem?_reattr]
  cases nodes[j]? <;> rfl

lemma childrenOf_reattr (nodes : List DomNode) (i : ℕ) (as : List DomAttr) : childrenOf (reattr nodes i as) = childrenOf nodes := by
  funext p
  rw [childrenOf,childrenOf,parentOf_reattr,reattr,length_modify]

lemma under_reattr {i : ℕ} {as : List DomAttr} {a j : ℕ} : Under (reattr nodes i as) a j ↔ Under nodes a j := by
  constructor
  · intro h
    induction h with
    | refl => exact .refl
    | step _ hp ih =>
      rw [parentOf_reattr] at hp
      exact .step ih hp
  · intro h
    induction h with
    | refl => exact .refl
    | step _ hp ih => exact .step ih (by rw [parentOf_reattr]; exact hp)

lemma Linked.reattr (h : Linked nodes) (i : ℕ) (as : List DomAttr) : Linked (reattr nodes i as) := by
  refine ⟨?_,?_,?_,?_,?_⟩
  · obtain ⟨n,hn,hlinks⟩ := h.root
    refine ⟨{ n with attrs := if i = 0 then as else n.attrs },?_,hlinks⟩
    rw [getElem?_reattr,hn]
    rfl
  · intro j n hn
    obtain ⟨s,hs,rfl⟩ := reattr_some hn
    exact h.parent j s hs
  · intro j n hn
    obtain ⟨s,hs,rfl⟩ := reattr_some hn
    rw [childrenOf_reattr]
    exact h.first j s hs
  · intro j n hn
    obtain ⟨s,hs,rfl⟩ := reattr_some hn
    rw [childrenOf_reattr]
    exact h.last j s hs
  · intro j n p hn hp
    obtain ⟨s,hs,rfl⟩ := reattr_some hn
    rw [childrenOf_reattr]
    exact h.next j s p hs hp

lemma Slot.reattr (h : Slot nodes name s) (i : ℕ) (as : List DomAttr) :
    Slot (reattr nodes i as) name s := by
  intro j
  rw [← h j,isElement,isElement,getElem?_reattr]
  cases nodes[j]? <;> rfl

lemma Routed.reattr {body : Option ℕ} (h : Routed nodes body) (i : ℕ) (as : List DomAttr) : Routed (reattr nodes i as) body := by
  intro j n hn hcontent
  obtain ⟨s,hs,rfl⟩ := reattr_some hn
  have hold : Content nodes j s := by
    refine hcontent.imp id fun ⟨htype,htext,hout⟩ => ⟨htype,htext,fun ⟨a,m,hm,hhead,hunder⟩ => hout ?_⟩
    refine ⟨a,{ m with attrs := if i = a then as else m.attrs },?_,hhead,under_reattr.mpr hunder⟩
    rw [getElem?_reattr,hm]
    rfl
  obtain ⟨b,hb,hunder⟩ := h j s hs hold
  exact ⟨b,hb,under_reattr.mpr hunder⟩

lemma reattr_blocks {i : ℕ} {n : DomNode} (hn : nodes[i]? = some n) : ∃ rest,
    (nodes.flatMap DomNode.blocks).Perm (n.attrs.flatMap DomAttr.blocks ++ rest) ∧
      ∀ as, ((reattr nodes i as).flatMap DomNode.blocks).Perm (as.flatMap DomAttr.blocks ++ rest) := by
  induction nodes generalizing i with
  | nil => exact nomatch hn
  | cons m nodes ih =>
    cases i with
    | zero =>
      obtain rfl : m = n := some.inj hn
      have hsplit (as : List DomAttr) : (DomNode.blocks { m with attrs := as } ++ nodes.flatMap DomNode.blocks).Perm
          (as.flatMap DomAttr.blocks ++ (m.tag.toList.map (·.block) ++ m.text.toList.map (·.block) ++ ([m.block] ++ nodes.flatMap DomNode.blocks))) := by
        unfold DomNode.blocks
        dsimp only
        rw [append_assoc _ [m.block],← append_assoc (as.flatMap _)]
        exact List.perm_append_comm.append_right _
      exact ⟨_,hsplit m.attrs,hsplit⟩
    | succ i =>
      obtain ⟨rest,hold,hnew⟩ := ih hn
      have hbehind {l : List ℕ} (as : List DomAttr) (hl : l.Perm (as.flatMap DomAttr.blocks ++ rest)) :
          (m.blocks ++ l).Perm (as.flatMap DomAttr.blocks ++ (m.blocks ++ rest)) := by
        refine (hl.append_left _).trans ?_
        rw [← append_assoc,← append_assoc]
        exact List.perm_append_comm.append_right _
      exact ⟨m.blocks ++ rest,hbehind _ hold,fun as => hbehind as (hnew as)⟩

structure Inv (d : Dom) : Prop where
  linked : Linked d.nodes
  size : d.nNodes = d.nodes.length
  opened : ∀ i ∈ d.openStack, i < d.nodes.length
  owned : d.heap.live.Perm (d.nodes.flatMap DomNode.blocks)
  html : Slot d.nodes htmlTag d.html
  head : Slot d.nodes headTag d.head
  body : Slot d.nodes bodyTag d.body

variable {d : Dom}

lemma Inv.top (h : Inv d) : domTop d < d.nodes.length := by
  unfold domTop
  rcases hs : d.openStack with _ | ⟨i,is⟩
  · obtain ⟨n,hn,-⟩ := h.linked.root
    exact (List.getElem?_eq_some_iff.mp hn).1
  · exact h.opened i (by rw [hs]; exact mem_cons_self)

lemma Inv.getD (h : Inv d) (hs : Slot d.nodes name s) : s.getD 0 < d.nodes.length := by
  cases s with
  | none =>
    obtain ⟨n,hn,-⟩ := h.linked.root
    exact (List.getElem?_eq_some_iff.mp hn).1
  | some i => exact hs.lt rfl

lemma Inv.heap (h : Inv d) {heap : Heap} (hlive : heap.live.Perm d.heap.live) : Inv { d with heap := heap } :=
  ⟨h.linked,h.size,h.opened,hlive.trans h.owned,h.html,h.head,h.body⟩

lemma Inv.stack (h : Inv d) {stack : List ℕ} (hstack : ∀ i ∈ stack, i < d.nodes.length) : Inv { d with openStack := stack } :=
  ⟨h.linked,h.size,hstack,h.owned,h.html,h.head,h.body⟩

lemma blocks_append (nodes : List DomNode) (p : ℕ) (child : DomNode) :
    (domNodeAppendChild nodes p child).flatMap DomNode.blocks = nodes.flatMap DomNode.blocks ++ child.blocks := by
  rw [← flatMap_blocksAt,← flatMap_blocksAt nodes,length_appendChild,range_succ,flatMap_append,flatMap_singleton]
  congr 1
  · rw [flatMap_def,flatMap_def]
    refine congrArg flatten (map_congr_left fun j hj => ?_)
    rw [blocksAt,blocksAt,appendChild_old nodes p child (List.mem_range.mp hj)]
    cases nodes[j]? <;> rfl
  · exact blocksAt_some (n := { child with parent := some p }) (appendChild_new nodes p child)

lemma Inv.append (h : Inv d) {p : ℕ} (hp : p < d.nodes.length) (hfresh : Fresh child) {heap : Heap}
    (hlive : heap.live.Perm (child.blocks ++ d.heap.live)) {html head body : Option ℕ} (hhtml : Slot (domNodeAppendChild d.nodes p child) htmlTag html)
    (hhead : Slot (domNodeAppendChild d.nodes p child) headTag head) (hbody : Slot (domNodeAppendChild d.nodes p child) bodyTag body) :
    Inv ⟨domNodeAppendChild d.nodes p child,html,head,body,d.nNodes + 1,d.openStack,heap⟩ := by
  refine ⟨h.linked.append hp hfresh.first hfresh.last hfresh.next,?_,?_,?_,hhtml,hhead,hbody⟩
  · dsimp only
    rw [length_appendChild,h.size]
  · intro i hi
    dsimp only
    rw [length_appendChild]
    exact Nat.lt_succ_of_lt (h.opened i hi)
  · dsimp only
    rw [blocks_append]
    exact (hlive.trans (h.owned.append_left _)).trans perm_append_comm

/-- The call comes back, with the invariant and with the content where it was right before; where it does not return -1, with `P`. -/
def Keeps (ρ : Prop) (P : Dom → Prop) (r : Option (Dom × Bool)) : Prop :=
  ∃ d ok, r = some (d,ok) ∧ Inv d ∧ (ρ → Routed d.nodes d.body) ∧ (ok = true → P d)

variable {ρ : Prop}

lemma andThen_keeps {P Q : Dom → Prop} {r : Option (Dom × Bool)} {f : Dom → Option (Dom × Bool)} (hr : Keeps ρ P r)
    (hf : ∀ d, Inv d → (ρ → Routed d.nodes d.body) → P d → Keeps ρ Q (f d)) : Keeps ρ Q (andThen r f) := by
  obtain ⟨d,ok,rfl,hinv,hrouted,hpost⟩ := hr
  unfold andThen
  rw [bind_some]
  cases ok with
  | true => exact hf d hinv hrouted (hpost rfl)
  | false => exact ⟨d,false,rfl,hinv,hrouted,nofun⟩

lemma Keeps.mono {P Q : Dom → Prop} {r : Option (Dom × Bool)} (h : Keeps ρ P r) (hPQ : ∀ d, P d → Q d) : Keeps ρ Q r := by
  obtain ⟨d,ok,hr,hinv,hrouted,hpost⟩ := h
  exact ⟨d,ok,hr,hinv,hrouted,fun hok => hPQ d (hpost hok)⟩

lemma push_keeps (hd : Inv d) (hrouted : ρ → Routed d.nodes d.body) {n : ℕ} (hn : n < d.nodes.length) :
    Keeps ρ (fun d' => d' = { d with openStack := n :: d.openStack }) (some (domPush n d)) := by
  unfold domPush
  split
  · exact ⟨d,false,rfl,hd,hrouted,nofun⟩
  · exact ⟨_,true,rfl,hd.stack (List.forall_mem_cons.mpr ⟨hn,hd.opened⟩),hrouted,fun _ => rfl⟩

lemma popThrough_eq (name : List Char) (d : Dom) : ∃ stack, popThrough name d = { d with openStack := stack } ∧ ∀ i ∈ stack, i ∈ d.openStack := by
  unfold popThrough
  have hsub : ∀ i ∈ domFindOpen d name, i ∈ d.openStack := fun i hi => (dropWhile_sublist _).subset hi
  split
  · exact ⟨d.openStack,rfl,fun _ hi => hi⟩
  · rename_i i below hfind
    rw [hfind] at hsub
    exact ⟨below,rfl,fun j hj => hsub j (mem_cons_of_mem _ hj)⟩

lemma popAbove_eq (name : List Char) (d : Dom) : ∃ stack, popAbove name d = { d with openStack := stack } ∧ ∀ i ∈ stack, i ∈ d.openStack := by
  unfold popAbove
  have hsub : ∀ i ∈ domFindOpen d name, i ∈ d.openStack := fun i hi => (dropWhile_sublist _).subset hi
  split
  · exact ⟨d.openStack,rfl,fun _ hi => hi⟩
  · rename_i i below hfind
    rw [hfind] at hsub
    exact ⟨i :: below,rfl,hsub⟩

lemma not_content {tag : DomStr} (htype : child.type = .element) (htag : child.tag = some tag) (hskel : isSkeletonTag tag.chars = true)
    {Q : Prop} : ¬ (PageElement child ∨ child.type = .text ∧ Q) := by
  rintro (⟨-,tag',htag',-,hno⟩ | ⟨htext,-⟩)
  · rw [htag] at htag'
    rw [← some.inj htag',hskel] at hno
    exact nomatch hno
  · rw [htype] at htext
    exact nomatch htext

lemma isNamed_eq {tag : DomStr} (htype : child.type = .element) (htag : child.tag = some tag) (name : List Char) :
    child.isNamed name = domStreq tag.chars name := by
  rw [DomNode.isNamed,htype,htag]
  rfl

lemma openImplicit_spec (name : List Char) (set : ℕ → Dom → Dom) (p : ℕ) (d : Dom) :
    (∃ heap, openImplicit name set p d = some ({ d with heap := heap },false) ∧ heap.live.Perm d.heap.live) ∨
    ∃ child tag heap, Fresh child ∧ child.type = .element ∧ child.tag = some tag ∧ tag.chars = name ∧ heap.live.Perm (child.blocks ++ d.heap.live) ∧
      openImplicit name set p d = some (domPush d.nodes.length (set d.nodes.length
        ⟨domNodeAppendChild d.nodes p child,d.html,d.head,d.body,d.nNodes + 1,d.openStack,heap⟩)) := by
  unfold openImplicit
  obtain ⟨r,hr,⟨hnone,hlive⟩ | ⟨b,tag,hsome,hchars,hlive⟩⟩ := nodeWith_spec name d.heap
  · rw [hr,map_some,hnone]
    exact .inl ⟨_,rfl,hlive⟩
  · rw [hr,map_some,hsome]
    exact .inr ⟨_,_,_,⟨rfl,rfl,rfl⟩,rfl,rfl,hchars,.of_eq hlive,rfl⟩

lemma domEnsureHtml_keeps (hd : Inv d) (hrouted : ρ → Routed d.nodes d.body) :
    Keeps ρ (fun d' => d'.head = d.head ∧ d'.body = d.body) (domEnsureHtml d) := by
  unfold domEnsureHtml
  split
  · exact ⟨d,true,rfl,hd,hrouted,fun _ => ⟨rfl,rfl⟩⟩
  · rename_i hnone
    have hslot := hd.html
    rw [Option.not_isSome_iff_eq_none.mp hnone] at hslot
    have hroot := hd.getD hslot
    rcases openImplicit_spec htmlTag (fun i d => { d with html := some i }) 0 d with ⟨heap,hcall,hlive⟩ |
      ⟨child,tag,heap,hfresh,htype,htag,hchars,hlive,hcall⟩
    · rw [hcall]
      exact ⟨_,_,rfl,hd.heap hlive,hrouted,nofun⟩
    · rw [hcall]
      have hnamed := isNamed_eq htype htag
      rw [hchars] at hnamed
      have hinv := hd.append hroot hfresh hlive (hslot.append_new 0 (hnamed _)) (hd.head.append_other 0 (hnamed _)) (hd.body.append_other 0 (hnamed _))
      have hkept : ρ → Routed (domNodeAppendChild d.nodes 0 child) d.body := fun hρ =>
        (hrouted hρ).append fun hc => absurd hc (not_content htype htag (by rw [hchars]; rfl))
      refine (push_keeps hinv hkept (by dsimp only; rw [length_appendChild]; exact Nat.lt_succ_self _)).mono fun d' hd' => ?_
      rw [hd']
      exact ⟨rfl,rfl⟩

lemma domEnsureHead_keeps (hd : Inv d) (hrouted : ρ → Routed d.nodes d.body) : Keeps ρ (fun d' => d'.body = d.body) (domEnsureHead d) := by
  unfold domEnsureHead
  split
  · exact ⟨d,true,rfl,hd,hrouted,fun _ => rfl⟩
  · rename_i hnone
    refine andThen_keeps (domEnsureHtml_keeps hd hrouted) fun e he hrouted' ⟨hhead,hbody⟩ => ?_
    have hslot := he.head
    rw [hhead,Option.not_isSome_iff_eq_none.mp hnone] at hslot
    have hroot := he.getD he.html
    rcases openImplicit_spec headTag (fun i d => { d with head := some i }) (e.html.getD 0) e with ⟨heap,hcall,hlive⟩ |
      ⟨child,tag,heap,hfresh,htype,htag,hchars,hlive,hcall⟩
    · rw [hcall]
      exact ⟨_,_,rfl,he.heap hlive,hrouted',nofun⟩
    · rw [hcall]
      have hnamed := isNamed_eq htype htag
      rw [hchars] at hnamed
      have hinv := he.append hroot hfresh hlive (he.html.append_other _ (hnamed _)) (hslot.append_new _ (hnamed _)) (he.body.append_other _ (hnamed _))
      have hkept : ρ → Routed (domNodeAppendChild e.nodes (e.html.getD 0) child) e.body := fun hρ =>
        (hrouted' hρ).append fun hc => absurd hc (not_content htype htag (by rw [hchars]; rfl))
      refine (push_keeps hinv hkept (by dsimp only; rw [length_appendChild]; exact Nat.lt_succ_self _)).mono fun d' hd' => ?_
      rw [hd']
      exact hbody

lemma domEnsureBody_keeps (hd : Inv d) (hrouted : ρ → Routed d.nodes d.body) :
    Keeps ρ (fun d' => if d.body.isSome then d' = d else d'.body = some (domTop d')) (domEnsureBody d) := by
  unfold domEnsureBody
  by_cases hsome : d.body.isSome = true
  · rw [if_pos hsome]
    refine ⟨d,true,rfl,hd,hrouted,fun _ => ?_⟩
    dsimp only
    rw [if_pos hsome]
  · rw [if_neg hsome]
    refine andThen_keeps (domEnsureHtml_keeps hd hrouted) fun e he hrouted' ⟨_,hbody⟩ => ?_
    have hnone : e.body = none := hbody.trans (Option.not_isSome_iff_eq_none.mp hsome)
    obtain ⟨stack,hpop,hstack⟩ := popThrough_eq headTag e
    have hpopped := he.stack fun i hi => he.opened i (hstack i hi)
    have hroot := he.getD he.html
    have hslot := he.body
    rw [hnone] at hslot
    rw [hpop]
    rcases openImplicit_spec bodyTag (fun i d => { d with body := some i }) (e.html.getD 0) { e with openStack := stack } with ⟨heap,hcall,hlive⟩ |
      ⟨child,tag,heap,hfresh,htype,htag,hchars,hlive,hcall⟩
    · rw [hcall]
      exact ⟨_,_,rfl,hpopped.heap hlive,hrouted',nofun⟩
    · rw [hcall]
      have hnamed := isNamed_eq htype htag
      rw [hchars] at hnamed
      have hinv := hpopped.append hroot hfresh hlive (he.html.append_other _ (hnamed _)) (he.head.append_other _ (hnamed _)) (hslot.append_new _ (hnamed _))
      have hkept : ρ → Routed (domNodeAppendChild e.nodes (e.html.getD 0) child) (some e.nodes.length) := fun hρ => by
        have hold := hrouted' hρ
        rw [hnone] at hold
        exact (hold.append fun hc => absurd hc (not_content htype htag (by rw [hchars]; rfl))).no_body _
      refine (push_keeps hinv hkept (by dsimp only; rw [length_appendChild]; exact Nat.lt_succ_self _)).mono fun d' hd' => ?_
      rw [if_neg hsome,hd']
      rfl

lemma domMergeAttrs_keeps (hd : Inv d) (hrouted : ρ → Routed d.nodes d.body) {i : ℕ} (hi : i < d.nodes.length) (t : HtmlToken) :
    Keeps ρ (fun _ => True) (domMergeAttrs i t d) := by
  unfold domMergeAttrs
  have hn := getElem?_eq_getElem hi
  rw [hn]
  dsimp only
  obtain ⟨r,hr,hkept⟩ := addAttrs_spec true t.attrs d.nodes[i].attrs d.heap
  obtain ⟨rest,hold,hnew⟩ := reattr_blocks hn
  rw [hr,map_some]
  refine ⟨_,_,rfl,⟨hd.linked.reattr i r.1,?_,?_,?_,hd.html.reattr i r.1,hd.head.reattr i r.1,hd.body.reattr i r.1⟩,fun hρ => (hrouted hρ).reattr i r.1,
    fun _ => trivial⟩
  · dsimp only
    rw [length_modify]
    exact hd.size
  · dsimp only
    rw [length_modify]
    exact hd.opened
  · exact (hkept rest (hd.owned.trans hold)).trans (hnew r.1).symm

def InBody (d : Dom) : Prop := ∃ b, d.body = some b ∧ Under d.nodes b (domTop d)

variable {t : HtmlToken}

lemma insertElement_keeps (hd : Inv d) (hrouted : ρ → Routed d.nodes d.body) (hskel : isSkeletonTag t.tagName = false)
    (hcontent : ρ → domIsHeadOnlyTag t.tagName = false → InBody d) : Keeps ρ (fun _ => True) (insertElement t d) := by
  unfold insertElement
  obtain ⟨r,hr,⟨hnone,hlive⟩ | ⟨e,tag,hsome,hfresh,htype,htag,hchars,hlive⟩⟩ := domMakeElement_spec t d.heap
  · rw [hr,map_some,hnone]
    exact ⟨_,_,rfl,hd.heap hlive,hrouted,fun _ => trivial⟩
  · rw [hr,map_some,hsome]
    have hnamed := isNamed_eq htype htag
    rw [hchars] at hnamed
    simp only [isSkeletonTag,Bool.or_eq_false_iff] at hskel
    obtain ⟨⟨hno₁,hno₂⟩,hno₃⟩ := hskel
    have hinv := hd.append hd.top hfresh hlive (hd.html.append_other _ ((hnamed _).trans hno₁)) (hd.head.append_other _ ((hnamed _).trans hno₂))
      (hd.body.append_other _ ((hnamed _).trans hno₃))
    have hkept : ρ → Routed (domNodeAppendChild d.nodes (domTop d) e) d.body := fun hρ => by
      refine (hrouted hρ).append ?_
      rintro (⟨-,tag',htag',hpage,-⟩ | ⟨htext,-⟩)
      · rw [htag] at htag'
        rw [← some.inj htag',hchars] at hpage
        exact hcontent hρ hpage
      · rw [htype] at htext
        exact nomatch htext
    dsimp only
    split
    · exact ⟨_,_,rfl,hinv,hkept,fun _ => trivial⟩
    · exact (push_keeps hinv hkept (by dsimp only; rw [length_appendChild]; exact Nat.lt_succ_self _)).mono fun _ _ => trivial

lemma insertText_keeps (hd : Inv d) (hrouted : ρ → Routed d.nodes d.body) {type : DomNodeType} (htype : type ≠ .element) {p : ℕ}
    (hp : p < d.nodes.length)
    (hcontent : ρ → type = .text → isBlank t.data = false → InHeadOnly d.nodes p ∨ ∃ b, d.body = some b ∧ Under d.nodes b p) :
    Keeps ρ (fun _ => True) (insertText type p t d) := by
  unfold insertText
  obtain ⟨r,hr,⟨hnone,hlive⟩ | ⟨b,text,hsome,hchars,hlive⟩⟩ := nodeWith_spec t.data d.heap
  · rw [hr,map_some,hnone]
    exact ⟨_,_,rfl,hd.heap hlive,hrouted,fun _ => trivial⟩
  · rw [hr,map_some,hsome]
    have hnamed (name : List Char) : DomNode.isNamed name { domNodeNew b type with text := some text } = false := by
      have hno : decide (type = .element) = false := decide_eq_false htype
      unfold DomNode.isNamed
      change (decide (type = .element) && _) = false
      rw [hno]
      rfl
    have hinv := hd.append hp ⟨rfl,rfl,rfl⟩ (.of_eq hlive : r.2.live.Perm (DomNode.blocks { domNodeNew b type with text := some text } ++ d.heap.live))
      (hd.html.append_other p (hnamed _)) (hd.head.append_other p (hnamed _)) (hd.body.append_other p (hnamed _))
    refine ⟨_,_,rfl,hinv,fun hρ => (hrouted hρ).append ?_,fun _ => trivial⟩
    rintro (⟨helement,-⟩ | ⟨htext,⟨text',htext',hblank⟩,hout⟩)
    · exact absurd helement htype
    · obtain rfl : text = text' := some.inj htext'
      rw [hchars] at hblank
      exact (hcontent hρ htext hblank).resolve_left hout

/-- A token whose content, if it has some, comes to the body: the insertion point is in the body, or there is none yet and the insertion
point is where one is opened; text may also stand in a head-only element. -/
def Routes (t : HtmlToken) (d : Dom) : Prop :=
  match t.type with
  | .start => isSkeletonTag t.tagName = true ∨ domIsHeadOnlyTag t.tagName = true ∨ InBody d ∨ (d.body = none ∧ atSkeleton d = true)
  | .chars => isBlank t.data = true ∨ InBody d ∨ if domTop d = 0 ∨ some (domTop d) = d.html then d.body = none else InHeadOnly d.nodes (domTop d)
  | _ => True

/-- Behind `dom_ensure_body` the insertion point is in the body where it was before, or where there was no body. -/
lemma inBody_ensured {d d' : Dom} (hbody : if d.body.isSome then d' = d else d'.body = some (domTop d')) (h : InBody d ∨ d.body = none) : InBody d' := by
  rcases hb : d.body with _ | b
  · rw [hb,if_neg (by exact nofun)] at hbody
    exact ⟨_,hbody,.refl⟩
  · rw [hb,if_pos (isSome_some)] at hbody
    rw [hbody]
    rw [hb] at h
    exact h.resolve_right nofun

lemma domHandleStart_keeps (hd : Inv d) (hrouted : ρ → Routed d.nodes d.body) (ht : t.type = .start)
    (hroutes : ρ → Routes t d) : Keeps ρ (fun _ => True) (domHandleStart t d) := by
  unfold domHandleStart
  by_cases hhtml : domStreq t.tagName htmlTag = true
  · rw [if_pos hhtml]
    exact andThen_keeps (domEnsureHtml_keeps hd hrouted) fun e he hr _ => domMergeAttrs_keeps he hr (he.getD he.html) t
  rw [if_neg hhtml]
  by_cases hhead : domStreq t.tagName headTag = true
  · rw [if_pos hhead]
    exact andThen_keeps (domEnsureHead_keeps hd hrouted) fun e he hr _ => domMergeAttrs_keeps he hr (he.getD he.head) t
  rw [if_neg hhead]
  by_cases hbody : domStreq t.tagName bodyTag = true
  · rw [if_pos hbody]
    exact andThen_keeps (domEnsureBody_keeps hd hrouted) fun e he hr _ => domMergeAttrs_keeps he hr (he.getD he.body) t
  rw [if_neg hbody]
  have hskel : isSkeletonTag t.tagName = false := by
    simp only [isSkeletonTag,hhtml,hhead,hbody,Bool.or_false]
  by_cases honly : domIsHeadOnlyTag t.tagName = true
  · rw [if_pos honly]
    refine andThen_keeps (domEnsureHead_keeps hd hrouted) fun e he hr _ => ?_
    obtain ⟨stack,hpop,hstack⟩ := popAbove_eq headTag e
    have hpopped := he.stack fun i hi => he.opened i (hstack i hi)
    split
    · rw [hpop]
      exact insertElement_keeps hpopped hr hskel fun _ hno => absurd honly (by rw [hno]; exact nofun)
    · exact insertElement_keeps he hr hskel fun _ hno => absurd honly (by rw [hno]; exact nofun)
  · rw [if_neg honly]
    have hplace (hρ : ρ) : InBody d ∨ (d.body = none ∧ atSkeleton d = true) := by
      have hr := hroutes hρ
      rw [Routes,ht] at hr
      dsimp only at hr
      rw [hskel] at hr
      exact (hr.resolve_left nofun).resolve_left honly
    by_cases hat : atSkeleton d = true
    · rw [if_pos hat]
      exact andThen_keeps (domEnsureBody_keeps hd hrouted) fun e he hr hpost => insertElement_keeps he hr hskel fun hρ _ =>
        inBody_ensured hpost ((hplace hρ).imp id And.left)
    · rw [if_neg hat]
      have hsame : Keeps ρ (fun e => e = d) (some (d,true)) := ⟨d,true,rfl,hd,hrouted,fun _ => rfl⟩
      refine andThen_keeps hsame fun e he hr heq => insertElement_keeps he hr hskel fun hρ _ => ?_
      rw [heq]
      exact (hplace hρ).resolve_right fun h => hat h.2

lemma domHandleChars_keeps (hd : Inv d) (hrouted : ρ → Routed d.nodes d.body) (ht : t.type = .chars)
    (hroutes : ρ → Routes t d) : Keeps ρ (fun _ => True) (domHandleChars t d) := by
  unfold domHandleChars
  have hplace (hρ : ρ) (hblank : isBlank t.data = false) :
      InBody d ∨ if domTop d = 0 ∨ some (domTop d) = d.html then d.body = none else InHeadOnly d.nodes (domTop d) := by
    have hr := hroutes hρ
    rw [Routes,ht] at hr
    dsimp only at hr
    rw [hblank] at hr
    exact hr.resolve_left nofun
  have htext : DomNodeType.text ≠ .element := by decide
  by_cases hat : domTop d = 0 ∨ some (domTop d) = d.html
  · rw [if_pos hat]
    split
    · exact ⟨d,true,rfl,hd,hrouted,fun _ => trivial⟩
    · refine andThen_keeps (domEnsureBody_keeps hd hrouted) fun e he hr hpost => insertText_keeps he hr htext he.top fun hρ _ hblank => ?_
      have hin := hplace hρ hblank
      rw [if_pos hat] at hin
      exact .inr (inBody_ensured hpost hin)
  · rw [if_neg hat]
    refine insertText_keeps hd hrouted htext hd.top fun hρ _ hblank => ?_
    have hin := hplace hρ hblank
    rw [if_neg hat] at hin
    exact hin.symm

lemma domStep_keeps (hd : Inv d) (hrouted : ρ → Routed d.nodes d.body) (hroutes : ρ → Routes t d) :
    Keeps ρ (fun _ => True) (domStep t d) := by
  have hroot : 0 < d.nodes.length := by
    obtain ⟨n,hn,-⟩ := hd.linked.root
    exact (List.getElem?_eq_some_iff.mp hn).1
  unfold domStep
  split
  · exact domHandleChars_keeps hd hrouted ‹_› hroutes
  · exact domHandleStart_keeps hd hrouted ‹_› hroutes
  · obtain ⟨stack,hpop,hstack⟩ := popThrough_eq t.tagName d
    rw [domHandleEnd,hpop]
    exact ⟨_,_,rfl,hd.stack fun i hi => hd.opened i (hstack i hi),hrouted,fun _ => trivial⟩
  · exact insertText_keeps hd hrouted (by decide : DomNodeType.comment ≠ .element) hd.top fun _ h => nomatch h
  · exact insertText_keeps hd hrouted (by decide : DomNodeType.doctype ≠ .element) hroot fun _ h => nomatch h
  · exact ⟨d,true,rfl,hd,hrouted,fun _ => trivial⟩
  · exact ⟨d,true,rfl,hd,hrouted,fun _ => trivial⟩

def RoutesAll : List HtmlToken → Dom → Prop
  | [],_ => True
  | t :: ts,d => (t.type = .none ∨ t.type = .eof) ∨ Routes t d ∧ ∀ d', domStep t d = some (d',true) → RoutesAll ts d'

lemma domBuild_keeps (toks : List HtmlToken) (hd : Inv d) (hrouted : ρ → Routed d.nodes d.body) (hroutes : ρ → RoutesAll toks d) :
    Keeps ρ (fun _ => True) (domBuild toks d) := by
  induction toks generalizing d with
  | nil => exact ⟨d,true,rfl,hd,hrouted,fun _ => trivial⟩
  | cons t ts ih =>
    rw [domBuild]
    by_cases hend : t.type = .none ∨ t.type = .eof
    · rw [if_pos hend]
      exact ⟨d,true,rfl,hd,hrouted,fun _ => trivial⟩
    · rw [if_neg hend]
      obtain ⟨e,ok,hstep,he,hr,-⟩ := domStep_keeps hd hrouted fun hρ => ((hroutes hρ).resolve_left hend).1
      rw [hstep]
      cases ok with
      | false => exact ⟨e,false,rfl,he,hr,fun _ => trivial⟩
      | true => exact ih he hr fun hρ => ((hroutes hρ).resolve_left hend).2 e hstep

lemma domInit_spec {h h' : Heap} (hempty : h.live = []) (hinit : domInit h = (some d,h')) : Inv d ∧ Routed d.nodes d.body := by
  unfold domInit at hinit
  rcases hm : h.malloc with ⟨_ | b,heap⟩ <;> rw [hm] at hinit
  · exact nomatch (Prod.mk.inj hinit).1
  · have hspec := malloc_spec h
    rw [hm,hempty] at hspec
    have hlive : heap.live = [b] := by
      rcases hspec with ⟨hb,-⟩ | ⟨b',hb,hlive⟩
      · exact nomatch hb
      · obtain rfl := some.inj hb
        exact hlive
    obtain rfl := some.inj (Prod.mk.inj hinit).1
    have hone {j : ℕ} {n : DomNode} (hn : [domNodeNew b .document][j]? = some n) : j = 0 ∧ n = domNodeNew b .document := by
      cases j with
      | zero => exact ⟨rfl,(some.inj hn).symm⟩
      | succ j => exact nomatch hn
    have hnone (p : ℕ) : childrenOf [domNodeNew b .document] p = [] := rfl
    have hslot (name : List Char) : Slot [domNodeNew b .document] name none := by
      intro j
      refine iff_of_false (fun he => ?_) nofun
      cases j with
      | zero | succ j => exact nomatch he
    refine ⟨⟨⟨⟨_,rfl,rfl,rfl⟩,?_,?_,?_,?_⟩,rfl,nofun,.of_eq hlive,hslot _,hslot _,hslot _⟩,?_⟩
    · intro j n hn hj
      rw [(hone hn).1] at hj
      exact nomatch hj
    · intro j n hn
      rw [(hone hn).2,hnone]
      rfl
    · intro j n hn
      rw [(hone hn).2,hnone]
      rfl
    · intro j n p hn hp
      rw [(hone hn).2] at hp
      exact nomatch hp
    · intro j n hn hcontent
      rw [(hone hn).2] at hcontent
      rcases hcontent with ⟨htype,-⟩ | ⟨htype,-⟩
      · exact nomatch htype
      · exact nomatch htype

/-- Whatever the tokens and whichever `malloc` fails, the nodes are a tree with at most one html, head and body, and `dom_destroy` frees all
of it once; where every token routes, the content of the page is in the body. -/
theorem dom_builds {h h' : Heap} {d : Dom} (hempty : h.live = []) (hinit : domInit h = (some d,h')) (toks : List HtmlToken) :
    ∃ d' ok, domBuild toks d = some (d',ok) ∧ Linked d'.nodes ∧ (∀ j < d'.nodes.length, Under d'.nodes 0 j) ∧ d'.nNodes = d'.nodes.length ∧
      Slot d'.nodes htmlTag d'.html ∧ Slot d'.nodes headTag d'.head ∧ Slot d'.nodes bodyTag d'.body ∧
      (∃ heap, domDestroy d' = some heap ∧ heap.live = []) ∧ (RoutesAll toks d → Routed d'.nodes d'.body) := by
  obtain ⟨hinv,hrouted⟩ := domInit_spec hempty hinit
  obtain ⟨d',ok,hbuild,hinv',hrouted',-⟩ := domBuild_keeps toks hinv (fun _ => hrouted) fun h : RoutesAll toks d => h
  exact ⟨d',ok,hbuild,hinv'.linked,fun j hj => hinv'.linked.under_root hj,hinv'.size,hinv'.html,hinv'.head,hinv'.body,
    hinv'.linked.domDestroy_spec hinv'.owned,hrouted'⟩

def emptyDom : Dom := ⟨[domNodeNew 0 .document],none,none,none,1,[],⟨fun _ => true,1,[0]⟩⟩

/-- `<p>` -/
def paragraph : HtmlToken := ⟨.start,['p'],false,[],[]⟩

theorem dom_builds_paragraph : ∃ d' ok, domBuild [paragraph] emptyDom = some (d',ok) ∧ Routed d'.nodes d'.body ∧
    ∃ heap, domDestroy d' = some heap ∧ heap.live = [] := by
  have hinit : domInit ⟨fun _ => true,0,[]⟩ = (some emptyDom,⟨fun _ => true,1,[0]⟩) := rfl
  obtain ⟨d',ok,hbuild,-,-,-,-,-,-,hfreed,hrouted⟩ := dom_builds rfl hinit [paragraph]
  exact ⟨d',ok,hbuild,hrouted (.inr ⟨.inr (.inr (.inr ⟨rfl,rfl⟩)),fun _ _ => trivial⟩),hfreed⟩

/-- `<body></body><p>`: the paragraph stands under the html element. -/
theorem paragraph_outside_body :
    ∃ d', domBuild [⟨.start,bodyTag,false,[],[]⟩,⟨.close,bodyTag,false,[],[]⟩,paragraph] emptyDom = some (d',true) ∧ ¬ Routed d'.nodes d'.body := by
  refine ⟨_,rfl,fun hrouted => ?_⟩
  obtain ⟨b,hb,hunder⟩ := hrouted 3 _ rfl (.inl ⟨rfl,_,rfl,rfl,rfl⟩)
  obtain rfl : 2 = b := some.inj hb
  cases hunder with
  | step h hp =>
    obtain rfl := some.inj hp
    cases h with
    | step h hp =>
      obtain rfl := some.inj hp
      cases h with
      | step _ hp => exact nomatch hp

end VibeOS.DomBuilder

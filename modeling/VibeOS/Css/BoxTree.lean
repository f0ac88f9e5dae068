import VibeOS.Css.LineBreaking

/-! `layout.h`, the box tree: `layout_build_subtree` over a DOM tree, and `layout_inline_format` in each container
that directly holds inline content. Every `malloc` succeeds. -/
namespace VibeOS.Css

open List

/-- A node with its number. A missing text is empty, and the style is the one that the box gets. -/
inductive DomTree
  | text (dom : ℕ) (text : List Char)
  | element (dom : ℕ) (node : DomNode) (style : LayoutComputed) (children : List DomTree)
  | comment
  | doctype

inductive BoxTree
  | node (box : LayoutBox) (children : List BoxTree)

def BoxTree.box : BoxTree → LayoutBox
  | node b _ => b

def BoxTree.isBlock (t : BoxTree) : Bool := t.box.kind = .block || t.box.kind = .anonBlock

def layoutBoxNew (kind : BoxKind) (style : Option LayoutComputed) (dom : Option ℕ) : LayoutBox :=
  ⟨kind,style,dom,none,0,0,0,0,0,0,0,none⟩

/-- `lay__img_size_fn`. -/
abbrev ImgSize := List Char → Option (ℤ × ℤ)

/-- The loop, with `last_was_ws`. -/
def collapseWs : Bool → List Char → List Char
  | _, [] => []
  | last, c :: s =>
    if layIsWs c then if last then collapseWs true s else ' ' :: collapseWs true s else c :: collapseWs false s

def layoutCollapseText (src : List Char) (preserveWs : Bool) : Option (List Char) :=
  let out := if preserveWs then src else collapseWs false src
  if out = [] then none else some out

def layoutDomAttr (n : DomNode) (name : String) : Option (List Char) :=
  (n.attrs.find? fun a => layStreqCi a.name name.toList).bind (·.value)

/-- The bytes of the marker, in UTF-8. -/
def bulletText : ListStyle → List Char
  | .circle => [0xE2,0x97,0xA6,0x20].map Char.ofNat
  | .square => [0xE2,0x96,0xAA,0x20].map Char.ofNat
  | .none => []
  | .decimal => "1. ".toList
  | .disc => [0xE2,0x80,0xA2,0x20].map Char.ofNat

def isTag (node : DomNode) (tag : String) : Bool := layStreqCi node.tag tag.toList

def textBox (kind : BoxKind) (style : Option LayoutComputed) (dom : Option ℕ) (text : List Char) : BoxTree :=
  .node { layoutBoxNew kind style dom with text := some text, textLen := text.length } []

def bullet (node : DomNode) (style : LayoutComputed) : List BoxTree :=
  if (style.display = .listItem ∨ isTag node "li") ∧ bulletText style.listStyle ≠ [] then
    [textBox .bullet style none (bulletText style.listStyle)]
  else []

def replacedBox (imgSize : ImgSize) (dom : ℕ) (node : DomNode) (style : LayoutComputed) : LayoutBox :=
  let attr name := (((layoutDomAttr node name).bind layParseInt).map (·.1)).getD 0
  let size := ((layoutDomAttr node "src").bind imgSize).getD (0,0)
  let pick (a i : ℤ) : ℤ := if 0 < a then a else if 0 < i then i else 16
  { layoutBoxNew .replaced style dom with
    replacedW := pick (attr "width") size.1
    replacedH := pick (attr "height") size.2
    replacedAlt := layoutDomAttr node "alt" }

def BoxTree.isBlank (t : BoxTree) : Bool := t.box.kind = .text && (t.box.text.getD []).all layIsWs

/-- The open wrapper with its children; without a child there is none. -/
def anonBlock (style : LayoutComputed) (cs : List BoxTree) : List BoxTree :=
  if cs = [] then [] else [.node (layoutBoxNew .anonBlock style none) cs]

/-- The second pass where some child is a block: `anon` is in the open wrapper. -/
def wrapRuns (style : LayoutComputed) : List BoxTree → List BoxTree → List BoxTree
  | anon, [] => anonBlock style anon
  | anon, c :: cs =>
    if c.isBlock then anonBlock style anon ++ c :: wrapRuns style [] cs
    else if c.isBlank then wrapRuns style anon cs
    else wrapRuns style (anon ++ [c]) cs

def layoutEmitChildren (style : LayoutComputed) (built : List BoxTree) : List BoxTree :=
  if built.any (·.isBlock) then wrapRuns style [] built else built

def isBlockDisplay (d : LayoutDisplay) : Bool := d ∈ [.block,.listItem,.table,.tableRow,.tableCell]

mutual
def layoutBuildSubtree (imgSize : ImgSize) (parent : LayoutComputed) : DomTree → Option BoxTree
  | .comment | .doctype => none
  | .text dom s => (layoutCollapseText s (parent.whiteSpace = .pre)).map (textBox .text parent dom)
  | .element dom node style cs =>
    if style.display = .none then none
    else if isTag node "br" then some (.node (layoutBoxNew .br style dom) [])
    else if isTag node "img" then some (.node (replacedBox imgSize dom node style) [])
    else
      let kind := if isBlockDisplay style.display then .block else .inline
      some (.node (layoutBoxNew kind style dom)
        (bullet node style ++ layoutEmitChildren style (buildChildren imgSize style cs)))

/-- The first pass of `layout_emit_children`. -/
def buildChildren (imgSize : ImgSize) (parent : LayoutComputed) : List DomTree → List BoxTree
  | [] => []
  | c :: cs => (layoutBuildSubtree imgSize parent c).toList ++ buildChildren imgSize parent cs
end

def buildDocument (imgSize : ImgSize) (rootStyle : LayoutComputed) (dom : ℕ) (cs : List DomTree) : BoxTree :=
  .node (layoutBoxNew .block rootStyle dom) (layoutEmitChildren rootStyle (buildChildren imgSize rootStyle cs))

def layoutGlyphWidth (fontSizePx : ℤ) : ℤ := max (fontSizePx.tdiv 2) 9

def LayoutBox.wordItem (b : LayoutBox) (kind : ItemKind) (text : List Char) (glyphs : ℕ) : LayoutItem :=
  ⟨kind,text,glyphs * layoutGlyphWidth ((b.style.map (·.fontSizePx)).getD 16),layoutLineBoxHeight b.style,b.style,b.dom,
    none⟩

def LayoutBox.flush (b : LayoutBox) (word : List Char) : Items :=
  if word = [] then [] else [b.wordItem .word word word.length]

/-- The words and the spaces of a text: `word` is the one that it stands in, and `ws` tells that it stands in white
space. Whenever `leading` is set there is an item, so that every space is pushed. -/
def LayoutBox.textItems (b : LayoutBox) : Bool → List Char → List Char → Items
  | _, word, [] => b.flush word
  | ws, word, c :: s =>
    if layIsWs c then b.flush word ++ (if ws then [] else [b.wordItem .space [] 1]) ++ b.textItems true [] s
    else b.textItems false (word ++ [c]) s

mutual
def layoutCollectInline : List BoxTree → Items
  | [] => []
  | c :: cs => collectBox c ++ layoutCollectInline cs

def collectBox : BoxTree → Items
  | .node b cs =>
    match b.kind with
    | .br => [⟨.br,[],0,layoutLineBoxHeight b.style,b.style,b.dom,none⟩]
    | .replaced =>
      [⟨.replaced,[],b.replacedW,if 0 < b.replacedH then b.replacedH else layoutLineBoxHeight b.style,b.style,b.dom,
        b.replacedAlt⟩]
    | .bullet => [b.wordItem .word (b.text.getD []) b.textLen]
    | .text => b.textItems false [] (b.text.getD [])
    | .inline => layoutCollectInline cs
    -- a block is skipped
    | .block | .anonBlock => []
end

/-- The origin and the content width of the container at a path. -/
abbrev Places := List ℕ → ℤ × ℤ × ℤ

mutual
def layoutTree (place : Places) (path : List ℕ) : BoxTree → Option BoxTree
  | .node b cs =>
    if cs ≠ [] ∧ ¬cs.any (·.isBlock) then
      let items := layoutCollectInline cs
      let (x,y,w) := place path
      (layoutInlineFormat ⟨b.style,x,w,fun _ _ => true⟩ y (items.length + 1) items).map fun r =>
        .node b (r.1.map (.node · []))
    else (layoutChildren place path 0 cs).map (.node b)

def layoutChildren (place : Places) (path : List ℕ) : ℕ → List BoxTree → Option (List BoxTree)
  | _, [] => some []
  | i, c :: cs =>
    (if c.isBlock then layoutTree place (i :: path) c else some c).bind fun c' =>
      (layoutChildren place path (i + 1) cs).map (c' :: ·)
end

def visible (s : List Char) : List Char := s.filter fun c => !layIsWs c

mutual
/-- The text of the nodes that are not under `display: none`. -/
def DomTree.shown : DomTree → List Char
  | .comment | .doctype => []
  | .text _ s => visible s
  | .element _ _ style cs => if style.display = .none then [] else shownNodes cs

def shownNodes : List DomTree → List Char
  | [] => []
  | c :: cs => c.shown ++ shownNodes cs
end

/-- The text of a node in a box; a list marker is the box of no node. -/
def LayoutBox.words (b : LayoutBox) : List Char := if b.dom.isSome then visible (b.text.getD []) else []

def LayoutBox.shown (b : LayoutBox) : List Char := if b.kind = .text then b.words else []

mutual
def BoxTree.shown : BoxTree → List Char
  | .node b cs => b.shown ++ shownBoxes cs

def shownBoxes : List BoxTree → List Char
  | [] => []
  | c :: cs => c.shown ++ shownBoxes cs
end

def DomTree.isBlock : DomTree → Bool
  | .element _ node style _ => isBlockDisplay style.display && !isTag node "br" && !isTag node "img"
  | _ => false

/-- The children of such an element are not laid out: an atom has no boxes of its children, and an inline box with
a block among its children has only blocks. -/
def hides (node : DomNode) (style : LayoutComputed) (cs : List DomTree) : Prop :=
  isTag node "br" ∨ isTag node "img" ∨ (isBlockDisplay style.display = false ∧ cs.any (·.isBlock))

mutual
/-- Nothing is shown under an element that hides its children. -/
def DomTree.Keeps : DomTree → Prop
  | .element _ node style cs =>
    style.display = .none ∨ ((hides node style cs → shownNodes cs = []) ∧ KeepsAll cs)
  | _ => True

def KeepsAll : List DomTree → Prop
  | [] => True
  | c :: cs => c.Keeps ∧ KeepsAll cs
end

mutual
def BoxTree.kept : BoxTree → List Char
  | .node b cs =>
    match b.kind with
    | .text | .bullet => b.words
    | .br | .replaced => []
    | .inline => keptRun cs
    | .block | .anonBlock => if cs.any (·.isBlock) then keptFlow cs else keptRun cs

def keptRun : List BoxTree → List Char
  | [] => []
  | c :: cs => (if c.isBlock then [] else c.kept) ++ keptRun cs

def keptFlow : List BoxTree → List Char
  | [] => []
  | c :: cs => (if c.isBlock then c.kept else c.shown) ++ keptFlow cs
end

def LayoutItem.shown (it : LayoutItem) : List Char :=
  if it.kind = .word ∧ it.domSnap.isSome then visible it.text else []

/-- No width is negative, and a space has no text. -/
structure LayoutItem.Sound (it : LayoutItem) : Prop where
  wide : 0 ≤ it.widthPx
  blank : it.isSpace → it.text = []

/-- No atom has a negative width. -/
inductive BoxTree.Sized : BoxTree → Prop
  | node {b : LayoutBox} {cs : List BoxTree} (wide : 0 ≤ b.replacedW) (children : ∀ c ∈ cs, c.Sized) :
    Sized (.node b cs)

variable {c : Container} {its : Items} {it : LayoutItem} {b : LayoutBox} {s w : List Char}

lemma LayoutItem.Sound.box_shown (hit : it.Sound) {m : ℕ → Bool} (hm : ∀ k, m k) (x y h e : ℤ) :
    (it.box m x y h e).toList.flatMap LayoutBox.shown = it.shown := by
  have hblank := hit.blank
  unfold LayoutItem.box LayoutItem.shown
  cases hk : it.kind with
  | word => simp [layoutEmitInlineWord,hm,LayoutBox.shown,LayoutBox.words]
  | replaced => simp [emitReplaced,hm,LayoutBox.shown]
  | br => simp
  | space =>
    have htext : it.text = [] := hblank (by simp [LayoutItem.isSpace,hk])
    split_ifs <;> simp [layoutEmitInlineWord,hm,LayoutBox.shown,LayoutBox.words,htext,visible]

lemma Placed.shown {y h x : ℤ} {j : ℕ} {bs : List LayoutBox} (hp : Placed c y h j x its bs) (hm : ∀ j k, c.malloc j k)
    (hs : ∀ it ∈ its, it.Sound) : bs.flatMap LayoutBox.shown = its.flatMap LayoutItem.shown := by
  induction hp with
  | nil => rfl
  | cons wide hit rest ih =>
    rw [flatMap_append,flatMap_cons,ih fun it hit => hs it (mem_cons_of_mem _ hit),
      (hs _ mem_cons_self).box_shown (hm _)]

lemma filter_isSolid_shown (its : Items) :
    (its.filter LayoutItem.isSolid).flatMap LayoutItem.shown = its.flatMap LayoutItem.shown := by
  induction its with
  | nil => rfl
  | cons it its ih =>
    by_cases hit : it.isSolid
    · rw [filter_cons_of_pos hit,flatMap_cons,flatMap_cons,ih]
    · have : it.shown = [] := by
        refine if_neg fun h => hit ?_
        simp [LayoutItem.isSolid,h.1]
      rw [filter_cons_of_neg hit,flatMap_cons,ih,this,nil_append]

lemma Formatted.shown {n : ℕ} {y : ℤ} {lines : List LineBox} (hf : Formatted c n y its lines)
    (hm : ∀ j k, c.malloc j k) (hs : ∀ it ∈ its, it.Sound) :
    (lines.flatMap (·.boxes)).flatMap LayoutBox.shown = its.flatMap LayoutItem.shown := by
  induction hf with
  | done spaces => rw [← filter_isSolid_shown,filter_isSolid_spaces spaces]; rfl
  | @line y x lead its rest l ls spaces first fits ends left placed next ih =>
    have hs' : ∀ it ∈ its, it.Sound := fun it hit => hs it (mem_append_right _ hit)
    have hlead : lead.flatMap LayoutItem.shown = [] := by
      rw [← filter_isSolid_shown,filter_isSolid_spaces spaces]
      rfl
    rw [flatMap_cons,flatMap_append,flatMap_append,hlead,nil_append,
      placed.shown hm fun it hit => hs' it (ends.subset.1 hit),ih fun it hit => hs' it (ends.subset.2 hit),
      ← filter_isSolid_shown its,ends.solid,flatMap_append,filter_isSolid_shown,filter_isSolid_shown]

lemma LayoutBox.wordItem_sound {kind : ItemKind} (n : ℕ) (h : kind = .space → s = []) :
    (b.wordItem kind s n).Sound where
  wide := by
    apply mul_nonneg (Int.natCast_nonneg _)
    exact le_max_of_le_right (by decide)
  blank := fun hs => h (of_decide_eq_true hs)

lemma LayoutBox.flush_sound : ∀ it ∈ b.flush w, it.Sound := by
  unfold flush
  split_ifs
  · simp
  · simpa using (wordItem_sound w.length nofun : (b.wordItem .word w w.length).Sound)

lemma LayoutBox.textItems_sound (ws : Bool) : ∀ it ∈ b.textItems ws w s, it.Sound := by
  induction s generalizing ws w with
  | nil => exact flush_sound
  | cons c s ih =>
    rw [textItems]
    split_ifs
    · simpa [or_imp,forall_and] using ⟨flush_sound,ih true⟩
    · simpa [or_imp,forall_and] using ⟨flush_sound,wordItem_sound 1 fun _ => rfl,ih true⟩
    · exact ih false

mutual
lemma collectBox_sound : ∀ t : BoxTree, t.Sized → ∀ it ∈ collectBox t, it.Sound
  | .node b cs, hs => by
    cases hs with
    | node wide children =>
      rw [collectBox]
      split
      · simpa using ⟨le_refl 0,nofun⟩
      · simpa using ⟨wide,nofun⟩
      · simpa using (LayoutBox.wordItem_sound b.textLen nofun : (b.wordItem .word (b.text.getD []) b.textLen).Sound)
      · exact LayoutBox.textItems_sound false
      · exact layoutCollectInline_sound cs children
      · simp
      · simp

lemma layoutCollectInline_sound : ∀ cs : List BoxTree, (∀ c ∈ cs, c.Sized) → ∀ it ∈ layoutCollectInline cs, it.Sound
  | [], _ => by simp [layoutCollectInline]
  | c :: cs, hs => by
    intro it hit
    rw [layoutCollectInline,mem_append] at hit
    cases hit with
    | inl hit => exact collectBox_sound c (hs c mem_cons_self) it hit
    | inr hit => exact layoutCollectInline_sound cs (fun c hc => hs c (mem_cons_of_mem _ hc)) it hit
end

@[simp] lemma LayoutBox.wordItem_shown (n : ℕ) :
    (b.wordItem .word s n).shown = if b.dom.isSome then visible s else [] := by
  simp [LayoutItem.shown,wordItem]

@[simp] lemma LayoutBox.flush_shown :
    (b.flush w).flatMap LayoutItem.shown = if b.dom.isSome then visible w else [] := by
  unfold flush
  split_ifs with h₁ h₂ <;> simp_all [visible]

lemma LayoutBox.textItems_shown (ws : Bool) :
    (b.textItems ws w s).flatMap LayoutItem.shown = if b.dom.isSome then visible (w ++ s) else [] := by
  have hspace : (b.wordItem .space [] 1).shown = [] := if_neg nofun
  induction s generalizing ws w with
  | nil => simp [textItems]
  | cons c s ih =>
    rw [textItems]
    by_cases hc : layIsWs c
    · cases ws <;> simp [hc,ih,hspace,visible] <;> split_ifs <;> simp
    · rw [if_neg hc,ih]
      simp

mutual
lemma collectBox_shown :
    ∀ t : BoxTree, (collectBox t).flatMap LayoutItem.shown = if t.isBlock then [] else t.kept
  | .node b cs => by
    have := layoutCollectInline_shown cs
    cases hk : b.kind <;>
      simp [collectBox,BoxTree.isBlock,BoxTree.box,BoxTree.kept,hk,this,LayoutBox.textItems_shown,LayoutBox.words,
        LayoutItem.shown,LayoutBox.wordItem]

lemma layoutCollectInline_shown :
    ∀ cs : List BoxTree, (layoutCollectInline cs).flatMap LayoutItem.shown = keptRun cs
  | [] => rfl
  | c :: cs => by
    rw [layoutCollectInline,flatMap_append,keptRun,collectBox_shown c,layoutCollectInline_shown cs]
end

lemma shownBoxes_leaves (bs : List LayoutBox) : shownBoxes (bs.map (.node · [])) = bs.flatMap LayoutBox.shown := by
  induction bs with
  | nil => rfl
  | cons b bs ih => simp [shownBoxes,BoxTree.shown,ih]

mutual
lemma layoutTree_shown (place : Places) (path : List ℕ) : ∀ t : BoxTree, t.Sized → t.isBlock →
    ∃ t', layoutTree place path t = some t' ∧ t'.shown = t.kept
  | .node b cs, .node wide children, hb => by
    have hshown : b.shown = [] := by
      refine if_neg fun h => ?_
      simp [BoxTree.isBlock,BoxTree.box,h] at hb
    have hkept : (BoxTree.node b cs).kept = if cs.any (·.isBlock) then keptFlow cs else keptRun cs := by
      rw [BoxTree.kept]
      split <;> simp_all [BoxTree.isBlock,BoxTree.box]
    rw [layoutTree,hkept]
    by_cases h : cs ≠ [] ∧ ¬cs.any (·.isBlock)
    · have hsound := layoutCollectInline_sound cs children
      obtain ⟨lines,hf,hrun⟩ := formatLoop_formatted ⟨b.style,(place path).1,(place path).2.2,fun _ _ => true⟩
        (layoutCollectInline cs).length (place path).2.1 fun it hit => (hsound it hit).wide
      refine ⟨.node b ((lines.flatMap (·.boxes)).map (.node · [])),?_,?_⟩
      · rw [if_pos h]
        simp [layoutInlineFormat,hrun _ (Nat.lt_succ_self _)]
      · rw [if_neg h.2,BoxTree.shown,hshown,nil_append,shownBoxes_leaves,hf.shown (fun _ _ => rfl) hsound,
          layoutCollectInline_shown]
    · obtain ⟨cs',hrun,hcs⟩ := layoutChildren_shown place path 0 cs children
      refine ⟨.node b cs',by rw [if_neg h,hrun]; rfl,?_⟩
      rw [BoxTree.shown,hshown,nil_append,hcs]
      split_ifs with hany
      · rfl
      · have : cs = [] := by simpa [hany] using h
        rw [this]
        rfl

lemma layoutChildren_shown (place : Places) (path : List ℕ) (i : ℕ) : ∀ cs : List BoxTree,
    (∀ c ∈ cs, c.Sized) → ∃ cs', layoutChildren place path i cs = some cs' ∧ shownBoxes cs' = keptFlow cs
  | [], _ => ⟨[],rfl,rfl⟩
  | c :: cs, hs => by
    obtain ⟨cs',hrun,hcs⟩ := layoutChildren_shown place path (i + 1) cs fun c hc => hs c (mem_cons_of_mem _ hc)
    rw [layoutChildren,keptFlow,hrun,← hcs]
    by_cases hc : c.isBlock
    · obtain ⟨c',hc',hshown⟩ := layoutTree_shown place (i :: path) c (hs c mem_cons_self) hc
      refine ⟨c' :: cs',?_,?_⟩
      · rw [if_pos hc,hc']
        rfl
      · rw [if_pos hc,shownBoxes,hshown]
    · refine ⟨c :: cs',?_,?_⟩
      · rw [if_neg hc]
        rfl
      · rw [if_neg hc,shownBoxes]
end

/-- Of the text `t` is left `o`, which is all of it just in a case. -/
def KeptOf (o t : List Char) (all : Prop) : Prop := o <+ t ∧ (o = t ↔ all)

variable {o o' t t' : List Char} {p q : Prop}

lemma KeptOf.append (h : KeptOf o t p) (h' : KeptOf o' t' q) : KeptOf (o ++ o') (t ++ t') (p ∧ q) := by
  refine ⟨h.1.append h'.1,?_⟩
  rw [← h.2,← h'.2]
  constructor
  · intro heq
    have hl := h.1.length_le
    have hl' := h'.1.length_le
    have hlen := congrArg length heq
    rw [length_append,length_append] at hlen
    exact ⟨h.1.eq_of_length (by omega),h'.1.eq_of_length (by omega)⟩
  · rintro ⟨rfl,rfl⟩
    rfl

lemma KeptOf.whole (h : p) : KeptOf t t p := ⟨.refl t,iff_of_true rfl h⟩

lemma KeptOf.hidden (hp : p) (h : t = [] → q) : KeptOf [] t ((p → t = []) ∧ q) :=
  ⟨nil_sublist t,fun ht => ⟨fun _ => ht.symm,h ht.symm⟩,fun h => (h.1 hp).symm⟩

lemma KeptOf.seen (hp : ¬p) (h : KeptOf o t q) : KeptOf o t ((p → t = []) ∧ q) :=
  ⟨h.1,h.2.trans ⟨fun hq => ⟨fun h => absurd h hp,hq⟩,And.right⟩⟩

lemma visible_collapseWs (last : Bool) : visible (collapseWs last s) = visible s := by
  induction s generalizing last with
  | nil => rfl
  | cons c s ih =>
    have hsp : layIsWs ' ' := by decide
    rw [collapseWs]
    split_ifs with hc hlast <;> simp_all [visible]

lemma visible_layoutCollapseText (pre : Bool) : visible ((layoutCollapseText s pre).getD []) = visible s := by
  have hout : visible (if pre then s else collapseWs false s) = visible s := by
    split_ifs
    · rfl
    · exact visible_collapseWs false
  rw [← hout]
  unfold layoutCollapseText
  dsimp only
  generalize (if pre then s else collapseWs false s) = out
  split_ifs with h
  · rw [h]; rfl
  · rfl

mutual
lemma DomTree.keeps_of_empty : ∀ n : DomTree, n.shown = [] → n.Keeps
  | .comment, _ | .doctype, _ | .text .., _ => trivial
  | .element dom node style cs, h => by
    rw [DomTree.shown] at h
    rw [DomTree.Keeps]
    split_ifs at h with hd
    · exact .inl hd
    · exact .inr ⟨fun _ => h,keepsAll_of_empty cs h⟩

lemma keepsAll_of_empty : ∀ cs : List DomTree, shownNodes cs = [] → KeepsAll cs
  | [], _ => trivial
  | c :: cs, h => by
    rw [shownNodes,append_eq_nil_iff] at h
    exact ⟨DomTree.keeps_of_empty c h.1,keepsAll_of_empty cs h.2⟩
end

variable {style : LayoutComputed} {built anon markers : List BoxTree}

lemma keptRun_append (cs cs' : List BoxTree) : keptRun (cs ++ cs') = keptRun cs ++ keptRun cs' := by
  induction cs with
  | nil => rfl
  | cons c cs ih => rw [cons_append,keptRun,keptRun,ih,append_assoc]

lemma keptRun_inline (h : ∀ c ∈ built, c.isBlock = false) : keptRun built = built.flatMap BoxTree.kept := by
  induction built <;> simp_all [keptRun]

lemma keptRun_blocks (h : ∀ c ∈ built, c.isBlock) : keptRun built = [] := by
  induction built <;> simp_all [keptRun]

def Markers (l : List BoxTree) : Prop := ∀ c ∈ l, c.isBlock = false ∧ c.kept = [] ∧ c.shown = []

lemma keptFlow_blocks (hm : Markers markers) (h : ∀ c ∈ built, c.isBlock) :
    keptFlow (markers ++ built) = built.flatMap BoxTree.kept := by
  induction markers with
  | nil =>
    rw [nil_append]
    induction built <;> simp_all [keptFlow]
  | cons c cs ih =>
    obtain ⟨hc,-,hs⟩ := hm c mem_cons_self
    rw [cons_append,keptFlow,hc,hs,ih fun c hc => hm c (mem_cons_of_mem _ hc)]
    rfl

lemma markers_flatMap (hm : Markers markers) : markers.flatMap BoxTree.kept = [] :=
  flatMap_eq_nil_iff.mpr fun c hc => (hm c hc).2.1

lemma bullet_markers (node : DomNode) (style : LayoutComputed) : Markers (bullet node style) := by
  unfold bullet
  split_ifs <;> simp [Markers,textBox,BoxTree.isBlock,BoxTree.box,BoxTree.kept,BoxTree.shown,shownBoxes,layoutBoxNew,
    LayoutBox.shown,LayoutBox.words]

lemma anonBlock_kept (style : LayoutComputed) (h : ∀ c ∈ anon, c.isBlock = false) :
    (∀ c ∈ anonBlock style anon, c.isBlock) ∧ (anonBlock style anon).flatMap BoxTree.kept = anon.flatMap BoxTree.kept := by
  unfold anonBlock
  split_ifs with hnil
  · simp [hnil]
  · have hany : anon.any (·.isBlock) = false := by simpa using h
    constructor
    · simp [BoxTree.isBlock,BoxTree.box,layoutBoxNew]
    · rw [flatMap_singleton,BoxTree.kept,← keptRun_inline h]
      simp only [layoutBoxNew,hany]
      rfl

lemma isBlank_kept {t : BoxTree} (h : t.isBlank) : t.kept = [] := by
  cases t with
  | node b cs =>
    obtain ⟨hk,hws⟩ := (Bool.and_eq_true _ _).mp h
    have hk : b.kind = .text := of_decide_eq_true hk
    have hws : visible (b.text.getD []) = [] := by simpa [visible,BoxTree.box] using hws
    simp [BoxTree.kept,hk,LayoutBox.words,hws]

/-- The second pass makes blocks, and they keep what the children do. -/
lemma wrapRuns_kept (style : LayoutComputed) (built : List BoxTree) (h : ∀ c ∈ anon, c.isBlock = false) :
    (∀ c ∈ wrapRuns style anon built, c.isBlock) ∧
      (wrapRuns style anon built).flatMap BoxTree.kept = anon.flatMap BoxTree.kept ++ built.flatMap BoxTree.kept := by
  induction built generalizing anon with
  | nil => simpa [wrapRuns] using anonBlock_kept style h
  | cons c cs ih =>
    rw [wrapRuns]
    split_ifs with hc hblank
    · obtain ⟨hb,hk⟩ := anonBlock_kept style h
      obtain ⟨hb',hk'⟩ := @ih [] (by simp)
      constructor
      · simpa [or_imp,forall_and] using ⟨hb,hc,hb'⟩
      · rw [flatMap_append,hk,flatMap_cons,hk',flatMap_cons]
        rfl
    · obtain ⟨hb,hk⟩ := ih h
      exact ⟨hb,by rw [hk,flatMap_cons,isBlank_kept hblank,nil_append]⟩
    · obtain ⟨hb,hk⟩ := @ih (anon ++ [c]) (by simpa [or_imp,forall_and] using ⟨h,by simpa using hc⟩)
      exact ⟨hb,by simp [hk]⟩

lemma mem_wrapRuns {c : BoxTree} (h : c ∈ built) (hc : c.isBlock) : c ∈ wrapRuns style anon built := by
  induction built generalizing anon with
  | nil => cases h
  | cons d cs ih =>
    rw [wrapRuns]
    cases h with
    | head => simp [hc]
    | tail _ h => split_ifs <;> simp [ih h]

lemma sized_leaf {b : LayoutBox} (h : 0 ≤ b.replacedW) : (BoxTree.node b []).Sized := .node h nofun

lemma wrapRuns_sized (ha : ∀ c ∈ anon, c.Sized) (hb : ∀ c ∈ built, c.Sized) :
    ∀ c ∈ wrapRuns style anon built, c.Sized := by
  have hanon : ∀ {anon : List BoxTree}, (∀ c ∈ anon, c.Sized) → ∀ c ∈ anonBlock style anon, c.Sized := by
    intro anon ha
    unfold anonBlock
    split_ifs
    · simp
    · simpa using .node (le_refl 0) ha
  induction built generalizing anon with
  | nil => exact hanon ha
  | cons c cs ih =>
    obtain ⟨hc,hcs⟩ := forall_mem_cons.mp hb
    rw [wrapRuns]
    split_ifs
    · simpa [or_imp,forall_and] using ⟨hanon ha,hc,@ih [] (by simp) hcs⟩
    · exact ih ha hcs
    · exact ih (by simpa [or_imp,forall_and] using ⟨ha,hc⟩) hcs

lemma layoutEmitChildren_sized (h : ∀ c ∈ built, c.Sized) : ∀ c ∈ layoutEmitChildren style built, c.Sized := by
  unfold layoutEmitChildren
  split_ifs
  · exact wrapRuns_sized (by simp) h
  · exact h

lemma bullet_sized {node : DomNode} : ∀ c ∈ bullet node style, c.Sized := by
  unfold bullet
  split_ifs
  · rw [forall_mem_singleton]
    exact sized_leaf (le_refl 0)
  · simp

variable {imgSize : ImgSize}

mutual
lemma layoutBuildSubtree_sized (parent : LayoutComputed) :
    ∀ (n : DomTree), ∀ t ∈ layoutBuildSubtree imgSize parent n, t.Sized
  | .comment | .doctype => by simp [layoutBuildSubtree]
  | .text dom s => by
    simp only [layoutBuildSubtree,Option.mem_map]
    rintro _ ⟨u,-,rfl⟩
    exact sized_leaf (le_refl 0)
  | .element dom node style cs => by
    have hcs := buildChildren_sized style cs
    rw [layoutBuildSubtree]
    split_ifs
    · simp
    · simpa using sized_leaf (le_refl 0)
    · have : 0 ≤ (replacedBox imgSize dom node style).replacedW := by
        dsimp only [replacedBox]
        split_ifs <;> omega
      simpa using sized_leaf this
    all_goals
      rintro _ ⟨⟩
      refine .node (le_refl 0) fun c hc => ?_
      cases mem_append.mp hc with
      | inl hc => exact bullet_sized c hc
      | inr hc => exact layoutEmitChildren_sized hcs c hc

lemma buildChildren_sized (parent : LayoutComputed) :
    ∀ cs : List DomTree, ∀ t ∈ buildChildren imgSize parent cs, t.Sized
  | [] => by simp [buildChildren]
  | c :: cs => by
    intro t ht
    rw [buildChildren,mem_append,Option.mem_toList] at ht
    cases ht with
    | inl ht => exact layoutBuildSubtree_sized parent c t ht
    | inr ht => exact buildChildren_sized parent cs t ht
end

lemma isBlock_layoutBuildSubtree (parent : LayoutComputed) (n : DomTree) :
    (layoutBuildSubtree imgSize parent n).any (·.isBlock) = n.isBlock := by
  cases n with
  | comment | doctype => rfl
  | text dom s =>
    rw [layoutBuildSubtree]
    cases layoutCollapseText s (parent.whiteSpace = .pre) <;> rfl
  | element dom node style cs =>
    have hnone : isBlockDisplay .none = false := rfl
    rw [layoutBuildSubtree,DomTree.isBlock]
    split_ifs <;> simp_all [BoxTree.isBlock,BoxTree.box,layoutBoxNew,replacedBox]

lemma isBlock_buildChildren (parent : LayoutComputed) (cs : List DomTree) :
    (buildChildren imgSize parent cs).any (·.isBlock) = cs.any (·.isBlock) := by
  induction cs with
  | nil => rfl
  | cons c cs ih =>
    rw [buildChildren,any_append,any_cons,ih,← @isBlock_layoutBuildSubtree imgSize parent]
    cases layoutBuildSubtree imgSize parent c <;> simp

lemma block_kept {b : LayoutBox} (hb : b.kind = .block) (hm : Markers markers) :
    (BoxTree.node b (markers ++ layoutEmitChildren style built)).kept = built.flatMap BoxTree.kept := by
  rw [BoxTree.kept,hb]
  dsimp only
  unfold layoutEmitChildren
  by_cases h : built.any (·.isBlock)
  · obtain ⟨hblocks,hkept⟩ := @wrapRuns_kept [] style built (by simp)
    obtain ⟨c,hc,hcb⟩ := any_eq_true.mp h
    rw [if_pos h,if_pos (any_eq_true.mpr ⟨c,mem_append_right _ (mem_wrapRuns hc hcb),hcb⟩),keptFlow_blocks hm hblocks,
      hkept]
    rfl
  · have hall : ∀ c ∈ markers ++ built, c.isBlock = false := by
      have : ∀ c ∈ built, c.isBlock = false := by simpa using h
      simpa [or_imp,forall_and] using ⟨fun c hc => (hm c hc).1,this⟩
    have hany : (markers ++ built).any (·.isBlock) = false := any_eq_false.mpr fun c hc => by simp [hall c hc]
    rw [if_neg h,hany,if_neg Bool.false_ne_true,keptRun_inline hall,flatMap_append,markers_flatMap hm,nil_append]

lemma inline_kept {b : LayoutBox} (hb : b.kind = .inline) (hm : Markers markers) :
    (BoxTree.node b (markers ++ layoutEmitChildren style built)).kept
      = if built.any (·.isBlock) then [] else built.flatMap BoxTree.kept := by
  have hmark : keptRun markers = [] := by rw [keptRun_inline fun c hc => (hm c hc).1,markers_flatMap hm]
  rw [BoxTree.kept,hb]
  dsimp only
  rw [keptRun_append,hmark,nil_append]
  unfold layoutEmitChildren
  split_ifs with h
  · exact keptRun_blocks (wrapRuns_kept _ _ (by simp)).1
  · exact keptRun_inline (by simpa using h)

mutual
/-- What a node shows is kept, apart from what is hidden. -/
lemma layoutBuildSubtree_part (parent : LayoutComputed) : ∀ n : DomTree,
    KeptOf ((layoutBuildSubtree imgSize parent n).toList.flatMap BoxTree.kept) n.shown n.Keeps
  | .comment | .doctype => KeptOf.whole trivial
  | .text dom s => by
    rw [layoutBuildSubtree,DomTree.shown,← visible_layoutCollapseText (parent.whiteSpace = .pre)]
    cases layoutCollapseText s (parent.whiteSpace = .pre) with
    | none => exact KeptOf.whole trivial
    | some u =>
      have : (textBox .text parent dom u).kept = visible u := rfl
      rw [Option.map_some,Option.toList_some,flatMap_singleton,this]
      exact KeptOf.whole trivial
  | .element dom node style cs => by
    have hcs := buildChildren_part style cs
    rw [layoutBuildSubtree,DomTree.shown,DomTree.Keeps]
    by_cases hd : style.display = .none
    · rw [if_pos hd,if_pos hd]
      exact KeptOf.whole (.inl hd)
    · rw [if_neg hd,if_neg hd,or_iff_right hd]
      split_ifs with hbr himg hblock
      · exact KeptOf.hidden (.inl hbr) (keepsAll_of_empty cs)
      · exact KeptOf.hidden (.inr (.inl himg)) (keepsAll_of_empty cs)
      · refine KeptOf.seen (by simp [hides,hbr,himg,hblock]) ?_
        rw [Option.toList_some,flatMap_singleton,block_kept rfl (bullet_markers node style)]
        exact hcs
      · rw [Option.toList_some,flatMap_singleton,inline_kept rfl (bullet_markers node style),isBlock_buildChildren]
        split_ifs with hany
        · exact KeptOf.hidden (by simp [hides,hblock,hany]) (keepsAll_of_empty cs)
        · exact KeptOf.seen (by simp [hides,hbr,himg,hany]) hcs

lemma buildChildren_part (parent : LayoutComputed) : ∀ cs : List DomTree,
    KeptOf ((buildChildren imgSize parent cs).flatMap BoxTree.kept) (shownNodes cs) (KeepsAll cs)
  | [] => KeptOf.whole trivial
  | c :: cs => by
    rw [buildChildren,flatMap_append]
    exact (layoutBuildSubtree_part parent c).append (buildChildren_part parent cs)
end

/-- After the layout, the boxes show the text of the nodes just where nothing is shown under an element that hides
its children. -/
theorem layout_shown_iff (imgSize : ImgSize) (rootStyle : LayoutComputed) (dom : ℕ)
    (cs : List DomTree) (place : Places) :
    ∃ t, layoutTree place [] (buildDocument imgSize rootStyle dom cs) = some t ∧
      (t.shown = shownNodes cs ↔ KeepsAll cs) := by
  have hsized : ∀ c ∈ layoutEmitChildren rootStyle (buildChildren imgSize rootStyle cs), c.Sized :=
    layoutEmitChildren_sized (buildChildren_sized rootStyle cs)
  obtain ⟨t,ht,hshown⟩ := layoutTree_shown place [] (buildDocument imgSize rootStyle dom cs) (.node (le_refl 0) hsized) rfl
  have hkept : (buildDocument imgSize rootStyle dom cs).kept = _ := block_kept rfl (show Markers [] from nofun)
  refine ⟨t,ht,?_⟩
  rw [hshown,hkept]
  exact (buildChildren_part rootStyle cs).2

def tagged (tag : String) : DomNode := ⟨.element,tag.toList,[]⟩

def spanDiv : List DomTree :=
  [.element 1 (tagged "span") layoutComputedInit
    [.element 2 (tagged "div") { layoutComputedInit with display := .block } [.text 3 ['x']]]]

/-- The text of a block in an inline element is gone. -/
theorem text_lost :
    shownNodes spanDiv = ['x'] ∧
      (layoutTree (fun _ => (0,0,80)) [] (buildDocument (fun _ => none) layoutComputedInit 0 spanDiv)).map (·.shown)
        = some [] := by
  decide

end VibeOS.Css

import VibeOS.Css.Cascade

/-! Where the cascade of the engine is regular, the style that it computes follows the law. -/
namespace VibeOS.Css
open VibeOS.Ranking List

lemma LayoutOrigin.rank_injective {a b : LayoutOrigin} (h : a.rank = b.rank) : a = b := by
  cases a <;> cases b <;> first | rfl | simp [LayoutOrigin.rank] at h

lemma Counts.eq_of_le {c d : Counts} (h : c.le d) (h' : d.le c) : c = d := by
  have := le_antisymm h h'
  simp only [List.cons.injEq,and_true] at this
  obtain ⟨hi,hc,ht⟩ := this
  cases c
  cases d
  simp_all

lemma layoutDecl_long {prop : List Char} (h : 63 ≤ prop.length) (value : List Char) (pfs root : ℤ) :
    layoutDecl prop value pfs root = none := by
  have hname (k : String) (hk : k.toList.length < 63) : layStreqCi prop k.toList = false := by
    by_contra hne
    have heq : prop.map layLower = k.toList.map layLower := by simpa [layStreqCi] using hne
    have hlen := congrArg List.length heq
    simp only [length_map] at hlen
    omega
  simp (disch := decide) only [layoutDecl,ignoredProperties,any_cons,any_nil,hname,
    Bool.or_false,Bool.false_eq_true,if_false]

lemma settings_inlineDecl {piece : List Char × List Char} (h : piece.2.length < 256) (pfs root : ℤ) :
    layoutDecl (inlineDecl piece).property (inlineDecl piece).value pfs root
      = layoutDecl (wholeDecl piece).property (wholeDecl piece).value pfs root := by
  have hv : piece.2.take 255 = piece.2 := take_of_length_le (by omega)
  by_cases hp : piece.1.length ≤ 63
  · have : piece.1.take 63 = piece.1 := take_of_length_le hp
    simp only [inlineDecl,wholeDecl,hv,this]
  · rw [layoutDecl_long (by simp [inlineDecl]; omega),layoutDecl_long (by simp [wholeDecl]; omega)]

section
variable (e : LayoutEngine) (n : DomPath) (parent : Option LayoutComputed) (css : List Char)

/-- What `layout_resolve` applies, with the ranks of the law. -/
def appliedSettings : List (Rank × Setting) :=
  ((insertionSort layoutMatchCmp (layoutCollect e n)).flatMap fun m =>
    rankedList m.rank (settingsOf e parent m.rule.rule.decls))
  ++ rankedList inlineRank (settingsOf e parent ((inlinePieces css).map wholeDecl))

end

namespace Regular

variable {e : LayoutEngine} {n : DomPath} {parent : Option LayoutComputed} {css : List Char}
  (h : Regular e n parent css)
include h

lemma collect_eq : layoutCollect e n = e.matching n := by
  rw [layoutCollect_eq,take_of_length_le h.few]

lemma agrees : (e.matching n).Pairwise (Agrees layoutMatchCmp LayoutMatch.Below) := by
  refine ((h.packed.and h.sheets).and (matching_pairwise e n)).imp_of_mem ?_
  rintro a b ha hb ⟨⟨hpacked,hsheets⟩,hplace⟩
  by_cases ho : a.origin = b.origin
  · obtain ⟨hlt,hgt⟩ := hpacked ho
    by_cases hs : a.specificity = b.specificity
    · have hle : a.sourceOrder ≤ b.sourceOrder := by
        by_cases hsheet : a.rule.sheet = b.rule.sheet
        · have hia : a.sourceOrder = a.rule.index := rules_numbered (mem_matching ha)
          have hib : b.sourceOrder = b.rule.index := rules_numbered (mem_matching hb)
          omega
        · exact hsheets hsheet ho hs
      have hcmp : ¬0 < layoutMatchCmp a b := by
        simp only [layoutMatchCmp,ho,hs,ne_eq,not_true_eq_false,if_false]
        omega
      rw [Agrees,if_neg hcmp]
      exact LayoutMatch.below_of_place ho (fun hc => absurd (hlt.mpr hc) (by omega))
        (fun hc => absurd (hgt.mpr hc) (by omega)) hplace
    · have hcmp : layoutMatchCmp a b = (a.specificity : ℤ) - b.specificity := by
        simp only [layoutMatchCmp,ho,ne_eq,not_true_eq_false,if_false,hs,not_false_eq_true,if_true]
      rw [Agrees,hcmp]
      split_ifs with hpos
      · exact LayoutMatch.below_of_counts ho.symm (hgt.mp (by omega))
      · exact LayoutMatch.below_of_counts ho (hlt.mp (by omega))
  · have hcmp : layoutMatchCmp a b = (a.origin.rank : ℤ) - b.origin.rank := by
      simp only [layoutMatchCmp,ne_eq,ho,not_false_eq_true,if_true]
    have hne : a.origin.rank ≠ b.origin.rank := fun hr => ho (LayoutOrigin.rank_injective hr)
    rw [Agrees,hcmp]
    split_ifs with hpos
    · exact LayoutMatch.below_of_origin (by omega)
    · exact LayoutMatch.below_of_origin (by omega)

lemma sorted : (insertionSort layoutMatchCmp (layoutCollect e n)).Pairwise LayoutMatch.Below := by
  rw [h.collect_eq]
  exact insertionSort_pairwise LayoutMatch.Below.trans h.agrees

lemma appliedSettings_pairwise : (appliedSettings e n parent css).Pairwise fun x y => x.1 < y.1 := by
  refine List.pairwise_append.mpr ⟨List.pairwise_flatMap.mpr ⟨fun m _ => ?_,?_⟩,?_,?_⟩
  · exact rankedList_pairwise (fun i j hij => by simp [LayoutMatch.rank,ruleRank,cons_lt_cons_iff,hij]) _
  · refine h.sorted.imp fun {m m'} hm x hx y hy => ?_
    obtain ⟨k,-,hk⟩ := mem_rankedList.mp hx
    obtain ⟨k',-,hk'⟩ := mem_rankedList.mp hy
    rw [hk,hk']
    exact hm k k'
  · exact rankedList_pairwise (fun i j hij => by simp [inlineRank,cons_lt_cons_iff,hij]) _
  · intro x hx y hy
    obtain ⟨m,-,hx⟩ := List.mem_flatMap.mp hx
    obtain ⟨k,-,hk⟩ := mem_rankedList.mp hx
    obtain ⟨k',-,hk'⟩ := mem_rankedList.mp hy
    rw [hk,hk']
    exact List.cons_lt_cons_iff.mpr (.inl Nat.zero_lt_one)

lemma mem_appliedSettings {q : Rank} {a : Setting} :
    (q,a) ∈ appliedSettings e n parent css ↔ Declared e n parent css q a := by
  have hmem (m : LayoutMatch) :
      m ∈ insertionSort layoutMatchCmp (layoutCollect e n) ↔ m ∈ e.matching n := by
    rw [(insertionSort_perm _ _).mem_iff,h.collect_eq]
  rw [appliedSettings,mem_append,mem_flatMap]
  constructor
  · rintro (⟨m,hm,hq⟩ | hq)
    · obtain ⟨k,hk,rfl⟩ := mem_rankedList.mp hq
      have hm := (hmem m).mp hm
      exact .rule (mem_matching hm) (h.first m hm) hk
    · obtain ⟨k,hk,rfl⟩ := mem_rankedList.mp hq
      exact .inline hk
  · intro hd
    cases hd with
    | @rule r sel k _ hr hsel hk =>
      obtain ⟨m,hm,rfl⟩ := matching_of_hits hr hsel.mem hsel.hits
      have hfirst := h.first m hm
      have hcounts : cssCounts sel = cssCounts m.sel :=
        Counts.eq_of_le (hfirst.top sel hsel.mem hsel.hits) (hsel.top m.sel hfirst.mem hfirst.hits)
      refine .inl ⟨m,(hmem m).mpr hm,mem_rankedList.mpr ⟨k,hk,?_⟩⟩
      rw [LayoutMatch.rank,hcounts]
    | inline hk => exact .inr (mem_rankedList.mpr ⟨_,hk,rfl⟩)

lemma appliedSettings_map_snd :
    (appliedSettings e n parent css).map (·.2)
      = declSettings (parentFontSize parent) e.rootFontSizePx (appliedDecls e n css) := by
  have hinline : settingsOf e parent ((inlinePieces css).map wholeDecl)
      = settingsOf e parent ((inlinePieces css).map inlineDecl) := by
    simp only [settingsOf,declSettings,flatMap_map]
    exact flatMap_congr fun piece hp => by rw [settings_inlineDecl (h.whole piece hp)]
  rw [appliedSettings,hinline,map_append,map_flatMap,appliedDecls,declSettings,
    flatMap_append,flatMap_assoc]
  simp only [rankedList_map_snd,settingsOf,declSettings]

lemma layoutResolve_eq (hn : n.node.type = .element) :
    layoutResolve e n parent css = some (((appliedSettings e n parent css).map (·.2)).foldl
      (Setting.run e.rootFontSizePx) (layoutBase parent)) := by
  rw [layoutResolve,if_neg (by simpa using hn),foldl_layoutApplyDecl,h.appliedSettings_map_snd]

/-- What stands after a winner in the row are settings of other properties, and of the font size
where the line height does not depend on it. -/
lemma winner_read {p : Rank} {a : Setting} (hw : Winner e n parent css p a) {out : LayoutComputed}
    (hout : out = ((appliedSettings e n parent css).map (·.2)).foldl
      (Setting.run e.rootFontSizePx) (layoutBase parent)) :
    out.read a.field = a.meant e.rootFontSizePx out.fontSizePx := by
  obtain ⟨l,l',hl⟩ := append_of_mem (h.mem_appliedSettings.mpr hw.declared)
  have hpair := h.appliedSettings_pairwise
  rw [hl] at hpair
  have habove (q : Rank) (b : Setting) (hb : (q,b) ∈ l') : p < q :=
    (List.pairwise_cons.mp (List.pairwise_append.mp hpair).2.1).1 (q,b) hb
  have hdecl (q : Rank) (b : Setting) (hb : (q,b) ∈ l') : Declared e n parent css q b := by
    rw [← h.mem_appliedSettings,hl]
    exact mem_append_right _ (mem_cons_of_mem _ hb)
  have hlast : ∀ b ∈ l'.map (·.2), b.field ≠ a.field := by
    intro b hb hf
    obtain ⟨⟨q,b⟩,hq,rfl⟩ := List.mem_map.mp hb
    exact absurd (hw.top q b (hdecl q b hq) hf) (not_le.mpr (habove q b hq))
  rw [hl,map_append,map_cons] at hout
  have hread : out.read a.field = a.stored e.rootFontSizePx
      ((l.map (·.2)).foldl (Setting.run e.rootFontSizePx) (layoutBase parent)).fontSizePx := by
    rw [hout]
    exact read_foldl_of_last hlast
  rw [hread]
  cases a with
  | lineHeight lh =>
    obtain habs | hsize := h.sized p lh hw
    · exact congrArg Datum.px (habs.px_eq _ _)
    · have hfont : ∀ b ∈ Setting.lineHeight lh :: l'.map (·.2), b.field ≠ .fontSize := by
        intro b hb
        obtain rfl | hb := List.mem_cons.mp hb
        · simp [Setting.field]
        · obtain ⟨⟨q,b⟩,hq,rfl⟩ := List.mem_map.mp hb
          intro hf
          cases b with
          | fontSize px => exact absurd (hsize q px (hdecl q _ hq)) (not_le.mpr (habove q _ hq))
          | _ => cases hf
      have hsame : out.fontSizePx
          = ((l.map (·.2)).foldl (Setting.run e.rootFontSizePx) (layoutBase parent)).fontSizePx := by
        rw [hout,foldl_append,fontSizePx_foldl hfont]
      rw [hsame]
      rfl
  | borderPx s len =>
    obtain hunit | rfl := h.widths p s len hw
    · simp [Setting.stored,Setting.meant,layResolveLength,hunit]
    · rfl
  | _ => rfl

end Regular

/-- A regular cascade follows the law. -/
theorem layoutResolve_follows {e : LayoutEngine} {n : DomPath} {parent : Option LayoutComputed}
    {css : List Char} (hn : n.node.type = .element) (h : Regular e n parent css) :
    ∃ out, layoutResolve e n parent css = some out ∧ Follows e n parent css out := by
  refine ⟨_,h.layoutResolve_eq hn,fun p a hw => h.winner_read hw rfl,fun f hf => ?_,
    fun r hr sel hsel hhits => ?_⟩
  · refine read_foldl_of_none fun b hb => ?_
    obtain ⟨⟨q,b⟩,hq,rfl⟩ := List.mem_map.mp hb
    exact hf q b (h.mem_appliedSettings.mp hq)
  · rw [h.collect_eq]
    exact matching_of_hits hr hsel hhits

def paragraph : DomPath := ⟨⟨.element,"p".toList,[]⟩,[]⟩

def pSelector : CssChain := [⟨[.type "p".toList],.none⟩]

def uaDecls : List CssDecl := [⟨"font-size".toList,"20px".toList⟩,⟨"color".toList,"red".toList⟩]

def authorDecls : List CssDecl := [⟨"line-height".toList,"1.5".toList⟩,⟨"color".toList,"blue".toList⟩]

def pageEngine : LayoutEngine :=
  layoutEngineAdd (layoutEngineAdd layoutEngineInit (some (CssStylesheet.init.append [pSelector] uaDecls)) .ua)
    (some (CssStylesheet.init.append [pSelector] authorDecls)) .author

def uaRule : RulePtr := ⟨0,0,.ua,⟨[pSelector],uaDecls,0⟩⟩

def authorRule : RulePtr := ⟨1,0,.author,⟨[pSelector],authorDecls,0⟩⟩

lemma page_rules : pageEngine.rules = [uaRule,authorRule] := rfl

lemma page_matching : pageEngine.matching paragraph = [⟨uaRule,pSelector⟩,⟨authorRule,pSelector⟩] := by
  decide

lemma page_highest : Highest paragraph uaRule.rule pSelector ∧ Highest paragraph authorRule.rule pSelector := by
  refine ⟨⟨mem_singleton_self _,by decide,fun sel hsel _ => ?_⟩,
    ⟨mem_singleton_self _,by decide,fun sel hsel _ => ?_⟩⟩
  all_goals
    rw [List.mem_singleton.mp hsel]
    exact le_refl _

lemma page_declared {q : Rank} {a : Setting} (h : Declared pageEngine paragraph none [] q a) :
    (q,a) ∈ [([0,0,0,0,1,0,0,0],Setting.fontSize 20),([0,0,0,0,1,0,0,1],.color 0xFFFF0000),
      ([0,1,0,0,1,1,0,0],.lineHeight (.number 150)),([0,1,0,0,1,1,0,1],.color 0xFF0000FF)] := by
  cases h with
  | @rule r sel k _ hr hsel hk =>
    rw [page_rules] at hr
    have hcounts : cssCounts sel = ⟨0,0,1⟩ := by
      obtain rfl | hr := List.mem_cons.mp hr
      · rw [List.mem_singleton.mp hsel.mem]; rfl
      · obtain rfl := List.mem_singleton.mp hr
        rw [List.mem_singleton.mp hsel.mem]; rfl
    obtain rfl | hr := List.mem_cons.mp hr
    · have hs : settingsOf pageEngine none uaRule.rule.decls = [.fontSize 20,.color 0xFFFF0000] := by
        decide
      rw [hs] at hk
      rw [ruleRank,hcounts]
      rcases k with _ | _ | k <;> cases hk <;> simp [uaRule,LayoutOrigin.rank]
    · obtain rfl := List.mem_singleton.mp hr
      have hs : settingsOf pageEngine none authorRule.rule.decls
          = [.lineHeight (.number 150),.color 0xFF0000FF] := by
        decide
      rw [hs] at hk
      rw [ruleRank,hcounts]
      rcases k with _ | _ | k <;> cases hk <;> simp [authorRule,LayoutOrigin.rank]
  | inline hk =>
    have hs : settingsOf pageEngine none ((inlinePieces []).map wholeDecl) = [] := by decide
    rw [hs] at hk
    cases hk

lemma page_regular : Regular pageEngine paragraph none [] where
  few := by rw [page_matching]; decide
  first := by
    rw [page_matching]
    simpa using page_highest
  packed := by
    rw [page_matching]
    simp [LayoutMatch.origin,uaRule,authorRule]
  sheets := by
    rw [page_matching]
    simp [LayoutMatch.origin,uaRule,authorRule]
  whole := by decide
  sized := by
    intro p h hw
    have hp := page_declared hw.declared
    simp only [mem_cons,Prod.mk.injEq,reduceCtorEq,and_false,false_or,or_false,not_mem_nil] at hp
    refine .inr fun q px hq => ?_
    have hq := page_declared hq
    simp only [mem_cons,Prod.mk.injEq,reduceCtorEq,and_false,or_false,not_mem_nil] at hq
    rw [hp.1,hq.1]
    exact le_of_lt (List.cons_lt_cons_iff.mpr (.inr ⟨rfl,List.cons_lt_cons_iff.mpr (.inl Nat.zero_lt_one)⟩))
  widths := by
    intro p s len hw
    have hp := page_declared hw.declared
    simp at hp

theorem layoutResolve_follows_page : ∃ out, layoutResolve pageEngine paragraph none [] = some out ∧
    Follows pageEngine paragraph none [] out ∧ out.lineHeightPx = 30 := by
  obtain ⟨out,hout,h⟩ := @layoutResolve_follows _ _ none [] rfl page_regular
  have hpx : (layoutResolve pageEngine paragraph none []).map (·.lineHeightPx) = some 30 := by decide
  rw [hout] at hpx
  exact ⟨out,hout,h,by simpa using hpx⟩

def lineFirst : List Char := "line-height:1.5;font-size:32px".toList

lemma lineFirst_settings : settingsOf layoutEngineInit none ((inlinePieces lineFirst).map wholeDecl)
    = [.lineHeight (.number 150),.fontSize 32] := by
  decide

lemma lineFirst_winner :
    Winner layoutEngineInit paragraph none lineFirst (inlineRank 0) (.lineHeight (.number 150)) where
  declared := .inline (by rw [lineFirst_settings]; rfl)
  top := by
    intro q b hb hf
    cases hb with
    | rule hr => cases hr
    | @inline k _ hk =>
      rw [lineFirst_settings] at hk
      match k, hk with
      | 0, _ => exact le_refl _
      | 1, hk => cases hk; cases hf

/-- The line height is one and a half of the font size of the parent. -/
theorem cascade_not_lawful : ¬∀ e n parent css, n.node.type = .element →
    ∃ out, layoutResolve e n parent css = some out ∧ Follows e n parent css out := by
  intro h
  obtain ⟨out,hout,hlaw⟩ := h layoutEngineInit paragraph none lineFirst rfl
  have hpx : (layoutResolve layoutEngineInit paragraph none lineFirst).map
      (fun c => (c.lineHeightPx,c.fontSizePx)) = some (24,32) := by
    decide
  rw [hout] at hpx
  have hline : out.lineHeightPx = 24 := by simpa using congrArg (Option.map Prod.fst) hpx
  have hfont : out.fontSizePx = 32 := by simpa using congrArg (Option.map Prod.snd) hpx
  have hread := hlaw.winner _ _ lineFirst_winner
  rw [hfont] at hread
  have h48 : (Setting.lineHeight (.number 150)).meant layoutEngineInit.rootFontSizePx 32 = .px 48 := by
    decide
  rw [h48] at hread
  have : out.lineHeightPx = 48 := by simpa [LayoutComputed.read,Setting.field] using hread
  omega

end VibeOS.Css

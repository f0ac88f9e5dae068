import VibeOS.Css.Parser
import Mathlib.Data.List.Infix

/-! The selectors of the grammar over `css.h`, what they mean, and what the parser and the matcher make of them. -/
namespace VibeOS.Css
open List Bool

def IsIdent (name : List Char) : Prop :=
  ∃ c s, name = c :: s ∧ (cssIsAlpha c = true ∨ c = '-' ∨ c = '_') ∧ ∀ d ∈ s, cssIsIdent d = true

/-- Classes and ids one behind the other. -/
inductive Subclasses : List Char → List CssSimple → Prop
  | nil : Subclasses [] []
  | cls {name t : List Char} {xs : List CssSimple} (hname : IsIdent name) (rest : Subclasses t xs) :
      Subclasses ('.' :: (name ++ t)) (.cls name :: xs)
  | id {name t : List Char} {xs : List CssSimple} (hname : IsIdent name) (rest : Subclasses t xs) :
      Subclasses ('#' :: (name ++ t)) (.id name :: xs)

/-- A compound: a type or the universal selector in front, or a class or an id. -/
inductive CompoundText : List Char → List CssSimple → Prop
  | subclasses {t : List Char} {xs : List CssSimple} (h : Subclasses t xs) (hne : xs ≠ []) : CompoundText t xs
  | type {name t : List Char} {xs : List CssSimple} (hname : IsIdent name) (rest : Subclasses t xs) :
      CompoundText (name ++ t) (.type name :: xs)
  | universal {t : List Char} {xs : List CssSimple} (rest : Subclasses t xs) : CompoundText ('*' :: t) (.universal :: xs)

inductive Combinator
  | descendant | child
deriving DecidableEq

inductive Complex
  | compound (xs : List CssSimple)
  | step (left : Complex) (comb : Combinator) (xs : List CssSimple)

def Blank (ws : List Char) : Prop := ∀ c ∈ ws, cssIsWs c = true

inductive ComplexText : List Char → Complex → Prop
  | compound {t : List Char} {xs : List CssSimple} (h : CompoundText t xs) : ComplexText t (.compound xs)
  | descendant {t ws t' : List Char} {left : Complex} {xs : List CssSimple} (h : ComplexText t left) (hws : Blank ws) (hne : ws ≠ [])
      (h' : CompoundText t' xs) : ComplexText (t ++ (ws ++ t')) (.step left .descendant xs)
  | child {t ws ws' t' : List Char} {left : Complex} {xs : List CssSimple} (h : ComplexText t left) (hws : Blank ws) (hws' : Blank ws')
      (h' : CompoundText t' xs) : ComplexText (t ++ (ws ++ '>' :: (ws' ++ t'))) (.step left .child xs)

inductive ListText : List Char → List Complex → Prop
  | single {ws t ws' : List Char} {c : Complex} (hws : Blank ws) (hws' : Blank ws') (h : ComplexText t c) : ListText (ws ++ (t ++ ws')) [c]
  | cons {ws t ws' t' : List Char} {c : Complex} {cs : List Complex} (hws : Blank ws) (hws' : Blank ws') (h : ComplexText t c)
      (rest : ListText t' cs) : ListText (ws ++ (t ++ (ws' ++ ',' :: t'))) (c :: cs)

/-- A simple selector of the grammar on an element: types without regard to case, classes and ids as they are. -/
def CssSimple.Holds (n : DomNode) : CssSimple → Prop
  | universal => True
  | type name => n.tag.map cssLower = name.map cssLower
  | cls name => ∃ v ∈ n.attr "class", name ∈ cssWords v
  | id name => n.attr "id" = some name
  | pseudoTrue => False
  | pseudoFalse => False

def Complex.simples : Complex → List CssSimple
  | .compound xs => xs
  | .step left _ xs => xs ++ left.simples

/-- The name has no upper-case letter where the case counts. -/
def CssSimple.Plain : CssSimple → Prop
  | cls name => name.map cssLower = name
  | id name => name.map cssLower = name
  | _ => True

def CssSimple.lowered : CssSimple → CssSimple
  | type name => .type (name.map cssLower)
  | cls name => .cls (name.map cssLower)
  | id name => .id (name.map cssLower)
  | x => x

def Combinator.comb : Combinator → CssComb
  | descendant => .descendant
  | child => .child

def Complex.chain : Complex → CssChain
  | .compound xs => [⟨xs.map (·.lowered),.none⟩]
  | .step left comb xs => ⟨xs.map (·.lowered),comb.comb⟩ :: left.chain

def Ends (s : List Char) : Prop := ∀ c ∈ s.head?, cssEndsCompound c = true

def NoIdent (s : List Char) : Prop := ∀ c ∈ s.head?, cssIsIdent c = false

lemma Ends.noIdent {s : List Char} (h : Ends s) : NoIdent s := by
  intro c hc
  have := h c hc
  simp only [cssEndsCompound,cssIsWs,or_eq_true,beq_iff_eq] at this
  rcases this with (((rfl | rfl) | rfl) | rfl) | ((((rfl | rfl) | rfl) | rfl) | rfl) <;> decide

lemma cssTakeIdent_name {name s : List Char} (hname : IsIdent name) (hs : NoIdent s) : cssTakeIdent (name ++ s) = some (name.map cssLower,s) := by
  obtain ⟨c,t,rfl,hc,ht⟩ := hname
  have hdrop : (t ++ s).dropWhile cssIsIdent = s := by
    rw [dropWhile_append_of_pos ht]
    cases s with
    | nil => rfl
    | cons d s => exact dropWhile_cons_of_neg (by rw [hs d rfl]; decide)
  have htake : (t ++ s).takeWhile cssIsIdent = t := by
    rw [takeWhile_append_of_pos ht]
    cases s with
    | nil => exact append_nil t
    | cons d s => rw [takeWhile_cons_of_neg (by rw [hs d rfl]; decide),append_nil]
  rw [cons_append,cssTakeIdent,if_pos hc,htake,hdrop]

lemma Subclasses.noIdent {t s : List Char} {xs : List CssSimple} (h : Subclasses t xs) (hs : Ends s) : NoIdent (t ++ s) := by
  cases h with
  | nil => exact hs.noIdent
  | cls =>
    intro c hc
    obtain rfl : '.' = c := Option.some_inj.mp hc
    decide
  | id =>
    intro c hc
    obtain rfl : '#' = c := Option.some_inj.mp hc
    decide

lemma cssParseSimples_end {fuel : ℕ} {s : List Char} (hs : Ends s) (hfuel : 0 < fuel) : cssParseSimples fuel s = (some [],s) := by
  obtain ⟨fuel,rfl⟩ := Nat.exists_eq_add_of_le' hfuel
  cases s with
  | nil => rfl
  | cons c s => exact if_pos (hs c rfl)

lemma Subclasses.parse {t s : List Char} {xs : List CssSimple} (h : Subclasses t xs) (hs : Ends s) {fuel : ℕ} (hfuel : t.length < fuel) :
    cssParseSimples fuel (t ++ s) = (some (xs.map (·.lowered)),s) := by
  induction h generalizing fuel with
  | nil => exact cssParseSimples_end hs hfuel
  | @cls name t xs hname rest ih =>
    obtain ⟨fuel,rfl⟩ := Nat.exists_eq_add_of_le' (by omega : 1 ≤ fuel)
    rw [length_cons,length_append] at hfuel
    have hsimple : cssParseSimple '.' (name ++ (t ++ s)) = (some (.cls (name.map cssLower)),t ++ s) := by
      rw [cssParseSimple,if_neg (by decide),if_pos rfl,cssNamed,cssTakeIdent_name hname (rest.noIdent hs)]
    rw [cons_append,append_assoc,cssParseSimples,if_neg (by decide),hsimple]
    dsimp only
    rw [ih (by omega : t.length < fuel)]
    rfl
  | @id name t xs hname rest ih =>
    obtain ⟨fuel,rfl⟩ := Nat.exists_eq_add_of_le' (by omega : 1 ≤ fuel)
    rw [length_cons,length_append] at hfuel
    have hsimple : cssParseSimple '#' (name ++ (t ++ s)) = (some (.id (name.map cssLower)),t ++ s) := by
      rw [cssParseSimple,if_neg (by decide),if_neg (by decide),if_pos rfl,cssNamed,cssTakeIdent_name hname (rest.noIdent hs)]
    rw [cons_append,append_assoc,cssParseSimples,if_neg (by decide),hsimple]
    dsimp only
    rw [ih (by omega : t.length < fuel)]
    rfl

def Starts (c : Char) : Prop := cssIsAlpha c = true ∨ c = '-' ∨ c = '_' ∨ c = '.' ∨ c = '#' ∨ c = '*'

lemma Starts.plain {c : Char} (h : Starts c) : cssEndsCompound c = false ∧ c ≠ '/' ∧ c ≠ '@' := by
  have hends {d : Char} (hd : cssEndsCompound d = true ∨ d = '/' ∨ d = '@') : ¬ Starts d := by
    simp only [cssEndsCompound,cssIsWs,or_eq_true,beq_iff_eq] at hd
    rcases hd with ((((rfl | rfl) | rfl) | rfl) | ((((rfl | rfl) | rfl) | rfl) | rfl)) | rfl | rfl <;> (unfold Starts; decide)
  refine ⟨?_,?_,?_⟩
  · by_contra hc
    exact hends (.inl (by simpa using hc)) h
  · rintro rfl
    exact hends (.inr (.inl rfl)) h
  · rintro rfl
    exact hends (.inr (.inr rfl)) h

lemma CompoundText.starts {t : List Char} {xs : List CssSimple} (h : CompoundText t xs) : ∃ c s, t = c :: s ∧ Starts c := by
  cases h with
  | subclasses h hne =>
    cases h with
    | nil => exact absurd rfl hne
    | cls | id => exact ⟨_,_,rfl,by simp [Starts]⟩
  | type hname rest =>
    obtain ⟨c,s,rfl,hc,-⟩ := hname
    refine ⟨c,_,rfl,?_⟩
    unfold Starts
    tauto
  | universal => exact ⟨_,_,rfl,by simp [Starts]⟩

lemma CompoundText.parse {t s : List Char} {xs : List CssSimple} (h : CompoundText t xs) (hs : Ends s) {fuel : ℕ} (hfuel : t.length < fuel) :
    cssParseCompound fuel (t ++ s) = (some (xs.map (·.lowered)),s) := by
  obtain ⟨c,r,rfl,hc⟩ := h.starts
  rw [cons_append,cssParseCompound,if_neg (by rw [hc.plain.1]; decide),← cons_append]
  generalize ht : c :: r = t at h hfuel ⊢
  cases h with
  | subclasses h hne => exact h.parse hs hfuel
  | @type name t xs hname rest =>
    obtain ⟨fuel,rfl⟩ := Nat.exists_eq_add_of_le' (by omega : 1 ≤ fuel)
    obtain ⟨d,u,rfl,hd,hu⟩ := id hname
    rw [cons_append,length_cons,length_append] at hfuel
    have hstart : Starts d := by
      unfold Starts
      tauto
    have hnot : d ≠ '*' ∧ d ≠ '.' ∧ d ≠ '#' ∧ d ≠ ':' := by
      refine ⟨?_,?_,?_,?_⟩ <;> (rintro rfl; revert hd; decide)
    have hsimple : cssParseSimple d (u ++ (t ++ s)) = (some (.type ((d :: u).map cssLower)),t ++ s) := by
      rw [cssParseSimple,if_neg hnot.1,if_neg hnot.2.1,if_neg hnot.2.2.1,if_neg hnot.2.2.2,if_pos hd,cssNamed,← cons_append,
        cssTakeIdent_name hname (rest.noIdent hs)]
    rw [cons_append,cons_append,append_assoc,cssParseSimples,if_neg (by rw [hstart.plain.1]; decide),hsimple]
    dsimp only
    rw [rest.parse hs (by omega : t.length < fuel)]
    rfl
  | @universal t xs rest =>
    obtain ⟨fuel,rfl⟩ := Nat.exists_eq_add_of_le' (by omega : 1 ≤ fuel)
    rw [length_cons] at hfuel
    rw [cons_append,cssParseSimples,if_neg (by decide)]
    change (let rest := cssParseSimples fuel (t ++ s); (rest.1.map (CssSimple.universal :: ·),rest.2)) = _
    rw [rest.parse hs (by omega : t.length < fuel)]
    rfl

lemma dropWhile_blank {ws s : List Char} {c : Char} (hws : Blank ws) (hc : cssIsWs c = false) : (ws ++ c :: s).dropWhile cssIsWs = c :: s := by
  rw [dropWhile_append_of_pos hws,dropWhile_cons_of_neg (by rw [hc]; decide)]

lemma cssSkip_blank {ws s : List Char} {c : Char} (hws : Blank ws) (hc : cssIsWs c = false) (hcomment : c ≠ '/') :
    cssSkipWsAndComments (ws ++ c :: s) = c :: s := by
  have hdrop := @dropWhile_blank ws s c hws hc
  rw [cssSkipWsAndComments]
  split
  next r h =>
    rw [hdrop] at h
    exact absurd (List.cons.inj h).1 hcomment
  next => exact hdrop

lemma Starts.notWs {c : Char} (h : Starts c) : cssIsWs c = false := by
  have := h.plain.1
  rw [cssEndsCompound,or_eq_false_iff] at this
  exact this.2

lemma Blank.ends {ws s : List Char} (hws : Blank ws) (hs : Ends s) : Ends (ws ++ s) := by
  cases ws with
  | nil => exact hs
  | cons c ws =>
    intro d hd
    obtain rfl : c = d := Option.some_inj.mp hd
    rw [cssEndsCompound,hws c mem_cons_self,Bool.or_true]

lemma ends_cons {c : Char} (s : List Char) (hc : cssEndsCompound c = true) : Ends (c :: s) := by
  intro d hd
  obtain rfl : c = d := Option.some_inj.mp hd
  exact hc

lemma ComplexText.starts {t : List Char} {c : Complex} (h : ComplexText t c) : ∃ d s, t = d :: s ∧ Starts d := by
  induction h with
  | compound h => exact h.starts
  | descendant _ _ _ _ ih | child _ _ _ _ ih =>
    obtain ⟨d,s,rfl,hd⟩ := ih
    exact ⟨d,_,rfl,hd⟩

lemma ComplexText.parse {t : List Char} {c : Complex} (h : ComplexText t c) {s : List Char} (hs : Ends s) {fuel : ℕ} (hfuel : t.length < fuel) :
    ∃ fuel', fuel ≤ fuel' + t.length ∧ cssParseSelector fuel (t ++ s) = cssParseChain fuel' c.chain s := by
  induction h generalizing s with
  | @compound t xs h =>
    obtain ⟨d,u,rfl,hd⟩ := h.starts
    refine ⟨fuel,Nat.le_add_right _ _,?_⟩
    have hskip : cssSkipWsAndComments (d :: u ++ s) = d :: u ++ s := @cssSkip_blank [] (u ++ s) d nofun hd.notWs hd.plain.2.1
    rw [cssParseSelector,hskip,h.parse hs hfuel]
    rfl
  | @descendant t ws t' left xs h hws hne h' ih =>
    rw [length_append,length_append] at hfuel
    obtain ⟨d,u,rfl,hd⟩ := h'.starts
    have hpos := List.length_pos_iff.mpr hne
    obtain ⟨w,ws,rfl⟩ := exists_cons_of_ne_nil hne
    have hw := hws w mem_cons_self
    obtain ⟨fuel',hle,heq⟩ := @ih (w :: ws ++ (d :: u ++ s)) (ends_cons _ (by rw [cssEndsCompound,hw,Bool.or_true])) (by omega)
    obtain ⟨fuel',rfl⟩ := Nat.exists_eq_add_of_le' (by omega : 1 ≤ fuel')
    refine ⟨fuel',by rw [length_append,length_append]; omega,?_⟩
    have hdrop : (w :: (ws ++ (d :: u ++ s))).dropWhile cssIsWs = d :: (u ++ s) := @dropWhile_blank (w :: ws) (u ++ s) d hws hd.notWs
    have hfirst : (w :: (ws ++ (d :: u ++ s))).head?.any cssIsWs = true := hw
    have hends := hd.plain.1
    simp only [cssEndsCompound,or_eq_false_iff,beq_eq_false_iff_ne] at hends
    rw [append_assoc,append_assoc,heq,cssParseChain]
    dsimp only
    rw [cons_append,hdrop]
    dsimp only
    rw [if_neg (by tauto),if_neg hends.1.1.2,if_pos hfirst,← cons_append,h'.parse hs (by omega)]
    rfl
  | @child t ws ws' t' left xs h hws hws' h' ih =>
    rw [length_append,length_append,length_cons,length_append] at hfuel
    obtain ⟨d,u,rfl,hd⟩ := h'.starts
    obtain ⟨fuel',hle,heq⟩ := @ih (ws ++ '>' :: (ws' ++ (d :: u ++ s))) (hws.ends (ends_cons _ rfl)) (by omega)
    obtain ⟨fuel',rfl⟩ := Nat.exists_eq_add_of_le' (by omega : 1 ≤ fuel')
    refine ⟨fuel',by rw [length_append,length_append,length_cons,length_append]; omega,?_⟩
    have hdrop := @dropWhile_blank ws (ws' ++ (d :: u ++ s)) '>' hws rfl
    have hskip := @cssSkip_blank ws' (u ++ s) d hws' hd.notWs hd.plain.2.1
    rw [append_assoc,append_assoc,cons_append,append_assoc,heq,cssParseChain]
    dsimp only
    rw [hdrop]
    dsimp only
    rw [if_neg (by decide),if_pos rfl,cons_append,hskip,← cons_append,h'.parse hs (by omega)]
    rfl

lemma cssParseChain_end {fuel : ℕ} {chain : CssChain} {ws s : List Char} {c : Char} (hfuel : 0 < fuel) (hws : Blank ws) (hc : c = ',' ∨ c = '{') :
    cssParseChain fuel chain (ws ++ c :: s) = (some chain,ws ++ c :: s) := by
  obtain ⟨fuel,rfl⟩ := Nat.exists_eq_add_of_le' hfuel
  have hnot : cssIsWs c = false := by rcases hc with rfl | rfl <;> rfl
  rw [cssParseChain]
  dsimp only
  rw [dropWhile_blank hws hnot]
  exact if_pos hc

lemma ListText.parse {t : List Char} {cs : List Complex} (h : ListText t cs) {fuel : ℕ} (hfuel : t.length + 1 < fuel) (sels : List CssChain) (s : List Char) :
    ∃ r, cssParseSelectors fuel sels (t ++ '{' :: s) = (some (sels ++ cs.map Complex.chain),r) ∧ cssSkipWsAndComments r = '{' :: s := by
  induction h generalizing fuel sels with
  | @single ws t ws' c hws hws' h =>
    rw [length_append,length_append] at hfuel
    obtain ⟨fuel,rfl⟩ := Nat.exists_eq_add_of_le' (by omega : 1 ≤ fuel)
    obtain ⟨d,u,ht,hd⟩ := h.starts
    obtain ⟨fuel',hle,heq⟩ := h.parse (hws'.ends (@ends_cons '{' s rfl)) (by omega : t.length < fuel)
    have hskip : cssSkipWsAndComments (ws ++ (t ++ (ws' ++ '{' :: s))) = t ++ (ws' ++ '{' :: s) := by
      rw [ht]
      exact cssSkip_blank hws hd.notWs hd.plain.2.1
    have hbrace : cssSkipWsAndComments (ws' ++ '{' :: s) = '{' :: s := cssSkip_blank hws' rfl (by decide)
    refine ⟨'{' :: s,?_,@cssSkip_blank [] s '{' nofun rfl (by decide)⟩
    rw [append_assoc,append_assoc,cssParseSelectors,hskip,heq,cssParseChain_end (by omega) hws' (.inr rfl)]
    dsimp only
    rw [hbrace]
    rfl
  | @cons ws t ws' t' c cs hws hws' h rest ih =>
    rw [length_append,length_append,length_append,length_cons] at hfuel
    obtain ⟨fuel,rfl⟩ := Nat.exists_eq_add_of_le' (by omega : 1 ≤ fuel)
    obtain ⟨d,u,ht,hd⟩ := h.starts
    obtain ⟨fuel',hle,heq⟩ := h.parse (hws'.ends (@ends_cons ',' (t' ++ '{' :: s) rfl)) (by omega : t.length < fuel)
    have hskip : cssSkipWsAndComments (ws ++ (t ++ (ws' ++ ',' :: (t' ++ '{' :: s)))) = t ++ (ws' ++ ',' :: (t' ++ '{' :: s)) := by
      rw [ht]
      exact cssSkip_blank hws hd.notWs hd.plain.2.1
    have hcomma : cssSkipWsAndComments (ws' ++ ',' :: (t' ++ '{' :: s)) = ',' :: (t' ++ '{' :: s) := cssSkip_blank hws' rfl (by decide)
    obtain ⟨r,hr,hbrace⟩ := @ih fuel (by omega) (sels ++ [c.chain])
    refine ⟨r,?_,hbrace⟩
    rw [append_assoc,append_assoc,append_assoc,cons_append,cssParseSelectors,hskip,heq,cssParseChain_end (by omega) hws' (.inl rfl)]
    dsimp only
    rw [hcomma]
    change cssParseSelectors fuel (sels ++ [c.chain]) (t' ++ '{' :: s) = _
    rw [hr,map_cons,append_assoc]
    rfl

def CssSimple.Documented : CssSimple → Prop
  | pseudoTrue => False
  | pseudoFalse => False
  | _ => True

/-- The names of a selector are as the matcher compares them. -/
def Complex.Plain (c : Complex) : Prop := ∀ x ∈ c.simples, x.Plain

lemma Subclasses.documented {t : List Char} {xs : List CssSimple} (h : Subclasses t xs) : ∀ x ∈ xs, x.Documented := by
  induction h with
  | nil => exact fun x hx => absurd hx not_mem_nil
  | cls _ _ ih | id _ _ ih => exact List.forall_mem_cons.mpr ⟨trivial,ih⟩

lemma CompoundText.documented {t : List Char} {xs : List CssSimple} (h : CompoundText t xs) : ∀ x ∈ xs, x.Documented := by
  cases h with
  | subclasses h _ => exact h.documented
  | type _ rest | universal rest => exact List.forall_mem_cons.mpr ⟨trivial,rest.documented⟩

lemma ComplexText.documented {t : List Char} {c : Complex} (h : ComplexText t c) : ∀ x ∈ c.simples, x.Documented := by
  induction h with
  | compound h => exact h.documented
  | descendant _ _ _ h' ih | child _ _ _ h' ih => exact List.forall_mem_append.mpr ⟨h'.documented,ih⟩

lemma ListText.documented {t : List Char} {cs : List Complex} (h : ListText t cs) : ∀ c ∈ cs, ∀ x ∈ c.simples, x.Documented := by
  induction h with
  | single _ _ h => exact List.forall_mem_singleton.mpr h.documented
  | cons _ _ h _ ih => exact List.forall_mem_cons.mpr ⟨h.documented,ih⟩

lemma ListText.starts {t : List Char} {cs : List Complex} (h : ListText t cs) : ∃ ws c s, t = ws ++ c :: s ∧ Blank ws ∧ Starts c := by
  cases h with
  | single hws _ h | cons hws _ h _ =>
    obtain ⟨c,s,rfl,hc⟩ := h.starts
    exact ⟨_,c,_,rfl,hws,hc⟩

lemma cssParse_rules (fuel : ℕ) (ss : CssStylesheet) (s : List Char) : ss.rules <+: (cssParse fuel ss s).rules := by
  induction fuel generalizing ss s with
  | zero => exact prefix_refl _
  | succ fuel ih =>
    rw [cssParse]
    split
    · exact prefix_refl _
    · split
      · exact ih _ _
      · split
        · exact ih _ _
        · split
          · exact ih _ _
          · split
            · exact (prefix_append ss.rules _).trans (ih (ss.append _ _) _)
            · exact ih _ _

lemma cssParseSelectors_blank {fuel : ℕ} {sels : List CssChain} {ws s : List Char} {c : Char} (hfuel : 0 < fuel) (hws : Blank ws) (hc : cssIsWs c = false)
    (hcomment : c ≠ '/') : cssParseSelectors fuel sels (ws ++ c :: s) = cssParseSelectors fuel sels (c :: s) := by
  obtain ⟨fuel,rfl⟩ := Nat.exists_eq_add_of_le' hfuel
  have hnone : cssSkipWsAndComments (c :: s) = c :: s := @cssSkip_blank [] s c nofun hc hcomment
  rw [cssParseSelectors,cssParseSelectors,cssSkip_blank hws hc hcomment,hnone]

lemma ListText.rule {text : List Char} {cs : List Complex} (h : ListText text cs) (ss : CssStylesheet) (s : List Char) {fuel : ℕ}
    (hfuel : text.length + 2 < fuel) :
    ∃ r, (cssParse fuel ss (text ++ '{' :: s)).rules[ss.rules.length]? = some r ∧ r.selectors = cs.map Complex.chain := by
  obtain ⟨fuel,rfl⟩ := Nat.exists_eq_add_of_le' (by omega : 1 ≤ fuel)
  obtain ⟨ws,c,t,rfl,hws,hc⟩ := h.starts
  obtain ⟨r,hr,hbrace⟩ := h.parse (by omega : (ws ++ c :: t).length + 1 < fuel) [] s
  rw [append_assoc,cons_append,cssParseSelectors_blank (by omega) hws hc.notWs hc.plain.2.1] at hr
  have hend := hc.plain.1
  simp only [cssEndsCompound,or_eq_false_iff,beq_eq_false_iff_ne] at hend
  have hstep : cssParse (fuel+1) ss (ws ++ c :: t ++ '{' :: s) =
      cssParse fuel (ss.append (cs.map Complex.chain) (cssParseDecls fuel [] s).1)
        (if (cssParseDecls fuel [] s).2.head? = some '}' then (cssParseDecls fuel [] s).2.tail else (cssParseDecls fuel [] s).2) := by
    rw [append_assoc,cons_append,cssParse,cssSkip_blank hws hc.notWs hc.plain.2.1]
    dsimp only
    rw [if_neg hc.plain.2.2,if_neg hend.1.2,hr]
    dsimp only
    rw [hbrace]
    rfl
  obtain ⟨more,hmore⟩ := cssParse_rules fuel (ss.append (cs.map Complex.chain) (cssParseDecls fuel [] s).1)
    (if (cssParseDecls fuel [] s).2.head? = some '}' then (cssParseDecls fuel [] s).2.tail else (cssParseDecls fuel [] s).2)
  refine ⟨⟨cs.map Complex.chain,(cssParseDecls fuel [] s).1,ss.rules.length⟩,?_,rfl⟩
  rw [hstep,← hmore,CssStylesheet.append,append_assoc,getElem?_append_right (Nat.le_refl _),Nat.sub_self]
  rfl

def Complex.count (p : CssSimple → Bool) (c : Complex) : ℕ := c.simples.countP p

/-- An item of a list, of class `x`. -/
def item : DomNode := ⟨.element,['l','i'],[⟨"class".toList,some ['x']⟩]⟩
end VibeOS.Css

import VibeOS.Libc.Conversions
import VibeOS.Libc.Scanning

/-! `sscanf` over a whole format, against C99. -/
namespace VibeOS.Scanf
open List Option Nat

lemma wrap64_of_lt {x : ℤ} (h₀ : -2^63 ≤ x) (h : x < 2^63) : wrap64 x = x := by
  rw [wrap64,BitVec.toInt_ofInt]
  exact Int.bmod_eq_of_le (by omega) (by omega)

lemma intStore_eq {spec : Spec} (hspec : spec.isInteger = true) {long : Bool} {r : Number} (h : r.Fits spec long) :
    intStore spec.char long r.neg (r.value % 2^64) = c99Store spec long r := by
  have hsigned (h : if long = true then -2^63 ≤ r.signed ∧ r.signed < 2^63 else -2^31 ≤ r.signed ∧ r.signed < 2^31) :
      (if r.neg = true then wrap64 (-wrap64 (r.value % 2^64 : ℕ)) else wrap64 (r.value % 2^64 : ℕ)) = r.signed := by
    have hrange : -2^63 ≤ r.signed ∧ r.signed < 2^63 := by
      split at h
      · exact h
      · omega
    unfold Number.signed at hrange ⊢
    by_cases hneg : r.neg = true
    · rw [if_pos hneg] at hrange
      rw [if_pos hneg,if_pos hneg]
      by_cases hmin : r.value = 2^63
      · rw [hmin]
        decide
      · have hin : wrap64 (r.value : ℤ) = r.value := wrap64_of_lt (by omega) (by omega)
        rw [mod_eq_of_lt (by omega),hin,wrap64_of_lt (by omega) (by omega)]
    · rw [if_neg hneg] at hrange
      rw [if_neg hneg,if_neg hneg,mod_eq_of_lt (by omega),wrap64_of_lt (by omega) (by omega)]
  have hunsigned (h : (r.neg = true → r.value = 0) ∧ if long = true then r.value < 2^64 else r.value < 2^32) :
      r.value % 2^64 = r.unsigned ∧ (long = false → r.value % 2^64 % 2^32 = r.unsigned) := by
    have hlt : r.value < 2^64 := by
      have hif := h.2
      split at hif
      · exact hif
      · omega
    have hsame : r.unsigned = r.value := by
      unfold Number.unsigned
      split
      · rename_i hneg
        rw [h.1 hneg,Nat.sub_zero,mod_self]
      · rfl
    rw [hsame,mod_eq_of_lt hlt]
    refine ⟨rfl,fun hlong => mod_eq_of_lt ?_⟩
    have hif := h.2
    rw [hlong] at hif
    exact hif
  cases spec with
  | d | i =>
    have hval := hsigned h
    rw [intStore,if_pos (by decide)]
    dsimp only
    rw [hval,c99Store]
    cases long with
    | true => rfl
    | false => exact congrArg Store.int (Printf.wrap32_of_lt h.1 h.2)
  | u | o | x =>
    obtain ⟨hlong,hint⟩ := hunsigned h
    rw [intStore,if_neg (by decide)]
    cases long with
    | true => exact congrArg Store.ulong hlong
    | false => exact congrArg Store.uint (hint rfl)
  | _ => exact absurd hspec (by decide)

/-- What the code makes of a directive, `literal` where it is one. -/
def Steps (sc : Scan) (r : Scan × Bool) (literal : Bool) (t : List Char) (pos : ℕ) : Step → Prop
  | .input => r.2 = false ∧ r.1.matched = sc.matched ∧ r.1.stores = sc.stores ∧ r.1.gotAny = sc.gotAny
  | .matching => r.2 = false ∧ r.1.matched = sc.matched ∧ r.1.stores = sc.stores ∧ r.1.gotAny = true
  | .done stores conv n used => r.2 = true ∧ At r.1.src (t.drop used) (pos + used) ∧ r.1.matched = sc.matched + n ∧
      r.1.stores = sc.stores ++ stores ∧ r.1.gotAny = (sc.gotAny || conv || literal)

variable {t : List Char}

lemma take_steps (sc : Scan) (v : Conversion) {src : Src} {store store' : Store} {pos used : ℕ}
    (hstore : v.suppress = false → store = store') (h : At src (t.drop used) (pos + used)) :
    Steps sc (sc.take v.suppress src store,true) false t pos (v.done store' used) := by
  unfold Scan.take Conversion.done
  cases hs : v.suppress with
  | true => exact ⟨rfl,h,rfl,(append_nil _).symm,by cases sc.gotAny <;> rfl⟩
  | false =>
    rw [hstore hs]
    exact ⟨rfl,h,rfl,rfl,by cases sc.gotAny <;> rfl⟩

variable {v : Conversion}

lemma Conversion.WellFormed.limit (h : v.WellFormed) : v.limit ≠ some 0 := by
  obtain ⟨hdigits,hhead,-⟩ := h
  unfold Conversion.limit
  rcases hw : v.width with _ | ⟨c,ds⟩
  · exact nofun
  · rw [hw] at hdigits hhead
    have hc := (hdigits c mem_cons_self).1
    have hne : c ≠ '0' := fun h => hhead (congrArg some h)
    have hlt : '0'.toNat < c.toNat := by
      have hle : '0'.toNat ≤ c.toNat := hc
      have hcne : c.toNat ≠ '0'.toNat := fun h => hne (Char.toNat_inj.mp h)
      omega
    have hle := Printf.le_numeral ds (0 * 10 + (c.toNat - '0'.toNat))
    change (if (c :: ds) = [] then none else some (Printf.numeral (0 * 10 + (c.toNat - '0'.toNat)) ds)) ≠ some 0
    rw [if_neg (cons_ne_nil _ _)]
    intro h
    rw [some.inj h] at hle
    omega

lemma integer_steps (hwf : v.WellFormed) (hspec : v.spec.isInteger = true) {p : ℕ} {m : Scan} {f : ℕ}
    (h : At m.src t p) (hfuel : t.length < f)
    (hserved : UnsignedServed v.spec (v.limit.map (· - signs (behindSpace t))) ((behindSpace t).drop (signs (behindSpace t))))
    (hfits : v.suppress = false → ∀ n, c99Number v.spec (cut v.limit (behindSpace t)) = some n → n.Fits v.spec v.long) :
    Steps m (match scnInteger f v.spec.char (widthInt v.limit) m.src with
      | (gotAny,none) => ({ m with gotAny := m.gotAny || gotAny },false)
      | (_,some (neg,acc,s)) => (m.take v.suppress s (intStore v.spec.char v.long neg acc),true)) false t p
      (if behindSpace t = [] then .input
       else match c99Number v.spec (cut v.limit (behindSpace t)) with
        | none => .matching
        | some n => v.done (c99Store v.spec v.long n) (spaceLength t + n.length)) := by
  by_cases hnil : behindSpace t = []
  · obtain ⟨s',hs',-⟩ := scnSkipWs_spec h hfuel
    have hrun : scnInteger f v.spec.char (widthInt v.limit) m.src = (false,none) := by
      rw [scnInteger,hs',decide_eq_true hnil]
    rw [if_pos hnil,hrun]
    exact ⟨rfl,rfl,rfl,Bool.or_false _⟩
  · have hinteger := scnInteger_spec hspec hwf.limit h hfuel hnil hserved
    rw [if_neg hnil]
    rcases hnumber : c99Number v.spec (cut v.limit (behindSpace t)) with _ | r <;> rw [hnumber] at hinteger
    · dsimp only at hinteger
      rw [hinteger]
      exact ⟨rfl,rfl,rfl,Bool.or_true _⟩
    · obtain ⟨s',hs',hat⟩ := hinteger
      rw [hs']
      exact take_steps m v (fun hsup => intStore_eq hspec (hfits hsup r hnumber)) hat

variable {pos : ℕ}

lemma string_steps (hwf : v.WellFormed) {sc : Scan} {fuel : ℕ} (h : At sc.src t pos)
    (hfuel : t.length < fuel) (hserved : v.limit = none → ((behindSpace t).takeWhile fun c => !scnIsspace c).length < 2^31) :
    Steps sc (match scnSkipWs fuel sc.src with
      | (true,s) => ({ sc with src := s },false)
      | (false,s) =>
        let r := stringLoop fuel (if 0 < widthInt v.limit then (widthInt v.limit).toNat else noWidth) s
        if r.1 = [] then ({ sc with src := r.2 },false) else (sc.take v.suppress r.2 (.str r.1),true)) false t pos
      (if behindSpace t = [] then .input
       else v.done (.str (cut v.limit ((behindSpace t).takeWhile fun c => !scnIsspace c)))
        (spaceLength t + (cut v.limit ((behindSpace t).takeWhile fun c => !scnIsspace c)).length)) := by
  obtain ⟨s',hs',hat⟩ := scnSkipWs_spec h hfuel
  have hlen : (behindSpace t).length ≤ t.length := (dropWhile_sublist _).length_le
  by_cases hnil : behindSpace t = []
  · rw [if_pos hnil,hs',decide_eq_true hnil]
    exact ⟨rfl,rfl,rfl,rfl⟩
  · rw [if_neg hnil,hs',decide_eq_false hnil]
    dsimp only
    obtain ⟨hfst,hat'⟩ := stringLoop_spec (b := if 0 < widthInt v.limit then (widthInt v.limit).toNat else noWidth) hat (hlen.trans_lt hfuel)
    have hbudget : ((behindSpace t).takeWhile fun c => !scnIsspace c).take (if 0 < widthInt v.limit then (widthInt v.limit).toNat else noWidth) =
        cut v.limit ((behindSpace t).takeWhile fun c => !scnIsspace c) := by
      rcases hlimit : v.limit with _ | w
      · exact take_of_length_le (le_of_lt_succ (hserved hlimit))
      · have hpos : 0 < widthInt (some w) := by
          have hne : w ≠ 0 := fun h => hwf.limit (by rw [hlimit,h])
          change (0 : ℤ) < w
          omega
        rw [if_pos hpos]
        rfl
    have hne : cut v.limit ((behindSpace t).takeWhile fun c => !scnIsspace c) ≠ [] := by
      rcases hu : behindSpace t with _ | ⟨c,u⟩
      · exact absurd hu hnil
      · have hc : scnIsspace c = false := by
          have hhead := head_dropWhile_not scnIsspace hnil
          have hhead' : (behindSpace t).head hnil = c := by simp only [hu,head_cons]
          rw [← hhead']
          exact hhead
        rw [takeWhile_cons_of_pos (by rw [hc]; rfl),cut_cons hwf.limit]
        exact cons_ne_nil _ _
    rw [hbudget] at hfst hat'
    rw [hfst,if_neg hne]
    refine take_steps sc v (fun _ => rfl) ?_
    rw [drop_spaceLength,← Nat.add_assoc]
    exact hat'

lemma char_steps (hwf : v.WellFormed) {sc : Scan} {fuel : ℕ} (h : At sc.src t pos)
    (hfuel : t.length < fuel) (hserved : v.suppress = true ∨ t = [] ∨ v.limit.getD 1 ≤ t.length) :
    Steps sc (let r := charLoop fuel (if 0 < widthInt v.limit then (widthInt v.limit).toNat else 1) sc.src
      if r.2.1 = true ∧ (v.suppress = true ∨ r.1 = []) then ({ sc with src := r.2.2, gotAny := sc.gotAny || r.1 ≠ [] },false)
      else (sc.take v.suppress r.2.2 (.chars r.1),true)) false t pos
      (if t = [] then .input else if t.length < v.limit.getD 1 then .matching
       else v.done (.chars (t.take (v.limit.getD 1))) (v.limit.getD 1)) := by
  have hbudget : (if 0 < widthInt v.limit then (widthInt v.limit).toNat else 1) = v.limit.getD 1 ∧ 0 < v.limit.getD 1 := by
    rcases hlimit : v.limit with _ | w
    · exact ⟨rfl,Nat.one_pos⟩
    · have hne : w ≠ 0 := fun h => hwf.limit (by rw [hlimit,h])
      have hpos : 0 < widthInt (some w) := by
        change (0 : ℤ) < w
        omega
      rw [if_pos hpos]
      exact ⟨rfl,Nat.pos_of_ne_zero hne⟩
  obtain ⟨hbudget,hpos⟩ := hbudget
  obtain ⟨hfst,hend,hat⟩ := charLoop_spec (b := v.limit.getD 1) h hfuel
  rw [hbudget]
  dsimp only
  rw [hfst,hend]
  by_cases hnil : t = []
  · subst hnil
    rw [if_pos ⟨decide_eq_true hpos,.inr take_nil⟩,if_pos rfl,take_nil]
    exact ⟨rfl,rfl,rfl,by cases sc.gotAny <;> rfl⟩
  · have hne : t.take (v.limit.getD 1) ≠ [] := fun h => by
      rcases List.take_eq_nil_iff.mp h with h | h
      · omega
      · exact hnil h
    rw [if_neg hnil]
    by_cases hshort : t.length < v.limit.getD 1
    · have hsup : v.suppress = true := by
        rcases hserved with h | h | h
        · exact h
        · exact absurd h hnil
        · omega
      rw [if_pos hshort,if_pos ⟨decide_eq_true hshort,.inl hsup⟩]
      refine ⟨rfl,rfl,rfl,?_⟩
      rw [decide_eq_true hne]
      exact Bool.or_true _
    · rw [if_neg hshort,if_neg fun h => hshort (of_decide_eq_true h.1)]
      refine take_steps sc v (fun _ => rfl) ?_
      rw [length_take,Nat.min_eq_left (Nat.le_of_not_lt hshort)] at hat
      exact hat

lemma scnConvert_steps (hwf : v.WellFormed) {sc : Scan} {fuel : ℕ} (hserved : v.Served t pos)
    (h : At sc.src t pos) (hfuel : t.length < fuel) :
    Steps sc (scnConvert fuel sc v.suppress (widthInt v.limit) v.long v.spec.char) false t pos (v.step t pos) := by
  obtain ⟨hlimit,hserved⟩ := hserved
  have hinteger := fun hspec => integer_steps (m := sc) (p := pos) (f := fuel) hwf hspec h hfuel
  rcases hspec : v.spec <;> rw [hspec] at hserved hinteger <;> rw [Conversion.step,hspec]
  case d | i | u | o | x => exact hinteger rfl hserved.1 hserved.2
  case s => exact string_steps hwf h hfuel hserved
  case c => exact char_steps hwf h hfuel hserved
  case n =>
    change Steps sc (if v.suppress = true then sc else { sc with stores := sc.stores ++ [.int (Printf.wrap32 sc.src.consumed)] },true) false t pos _
    have hpos : pos < 2^31 := hserved
    rw [h.pos,Printf.wrap32_of_lt (by omega) (by omega)]
    have hgot : sc.gotAny = (sc.gotAny || false || false) := by cases sc.gotAny <;> rfl
    cases v.suppress with
    | true => exact ⟨rfl,h,rfl,(append_nil _).symm,hgot⟩
    | false => exact ⟨rfl,h,rfl,rfl,hgot⟩

def Conversion.tail (v : Conversion) (s : List Char) : List Char := (if v.long then ['l'] else []) ++ v.spec.char :: s

lemma Conversion.noDigit_tail (v : Conversion) (s : List Char) : Printf.NoDigit (v.tail s) := by
  unfold Conversion.tail
  cases v.long <;> cases v.spec <;> rintro _ ⟨⟩ <;> decide

lemma Conversion.takeLength_tail (v : Conversion) (s : List Char) : Printf.takeLength (v.tail s) = (v.long,v.spec.char :: s) := by
  unfold Conversion.tail
  cases v.long <;> cases v.spec <;> rfl

lemma scnDirective_eq (hwf : v.WellFormed) (hlimit : ∀ w, v.limit = some w → w < 2^31) (fuel : ℕ) (sc : Scan) (rest : List Char) :
    scnDirective fuel sc (v.text ++ rest) = ((scnConvert fuel sc v.suppress (widthInt v.limit) v.long v.spec.char).1,
      (scnConvert fuel sc v.suppress (widthInt v.limit) v.long v.spec.char).2,rest) := by
  have htext : v.text ++ rest = (if v.suppress then ['*'] else []) ++ (v.width ++ v.tail rest) := by
    simp only [Conversion.text,Conversion.tail,append_assoc,singleton_append]
  have hhead : (v.width ++ v.tail rest).head? ≠ some '*' := by
    rcases hw : v.width with _ | ⟨c,ds⟩
    · rw [nil_append]
      unfold Conversion.tail
      cases v.long <;> cases v.spec <;> exact fun h => absurd (some.inj h) (by decide)
    · have hc := hwf.1 c (by rw [hw]; exact mem_cons_self)
      rintro h
      rw [some.inj h] at hc
      exact absurd hc (by decide)
  have hfront : decide ((v.text ++ rest).head? = some '*') = v.suppress ∧
      (if (v.text ++ rest).head? = some '*' then (v.text ++ rest).tail else v.text ++ rest) = v.width ++ v.tail rest := by
    rw [htext]
    cases v.suppress with
    | true => exact ⟨rfl,rfl⟩
    | false => exact ⟨decide_eq_false hhead,if_neg hhead⟩
  have hwidth : Printf.takeDigits 0 (v.width ++ v.tail rest) = (widthInt v.limit,v.tail rest) := by
    refine Prod.ext ?_ (Printf.takeDigits_rest hwf.1 (v.noDigit_tail rest) 0)
    by_cases hnil : v.width = []
    · have hnone : v.limit = none := if_pos hnil
      rw [hnil,hnone,nil_append,Printf.takeDigits_none (v.noDigit_tail rest)]
      rfl
    · have hsome : v.limit = some (Printf.numeral 0 v.width) := if_neg hnil
      have hvalue := Printf.takeDigits_value hwf.1 (v.noDigit_tail rest) (n := 0) (hlimit _ hsome)
      rw [Nat.cast_zero] at hvalue
      rw [hvalue,hsome]
      rfl
  unfold scnDirective
  dsimp only
  rw [hfront.2,hfront.1,hwidth]
  dsimp only
  rw [v.takeLength_tail]

lemma scnLiteral_steps (sc : Scan) (c : Char) (h : At sc.src t pos) :
    Steps sc (scnLiteral sc c) true t pos ((Item.literal c).step t pos) := by
  unfold scnLiteral Item.step
  dsimp only
  cases t with
  | nil =>
    rw [h.get_nil]
    exact ⟨rfl,rfl,rfl,rfl⟩
  | cons d t =>
    rw [h.get_cons,if_neg (cons_ne_nil d t),head?_cons]
    dsimp only
    by_cases hd : d = c
    · rw [if_neg (not_not_intro hd),if_pos (congrArg some hd)]
      exact ⟨rfl,At.mk' t (pos+1),rfl,(append_nil _).symm,(Bool.or_true _).symm⟩
    · rw [if_pos hd,if_neg fun h => hd (some.inj h)]
      exact ⟨rfl,rfl,rfl,rfl⟩

lemma Conversion.count_of_none (v : Conversion) {stores : List Store} {conv : Bool} {n used : ℕ}
    (h : v.step t pos = .done stores conv n used) (hconv : conv = false) : n = 0 := by
  have hdone (store : Store) (used' : ℕ) (h : v.done store used' = .done stores conv n used) : n = 0 := by
    unfold Conversion.done at h
    split at h
    · exact (Step.done.inj h).2.2.1.symm
    · rw [hconv] at h
      exact nomatch (Step.done.inj h).2.1
  unfold Conversion.step at h
  dsimp only at h
  split at h
  · exact (Step.done.inj h).2.2.1.symm
  · split at h
    · exact nomatch h
    · split at h
      · exact nomatch h
      · exact hdone _ _ h
  · split at h
    · exact nomatch h
    · exact hdone _ _ h
  · split at h
    · exact nomatch h
    · split at h
      · exact nomatch h
      · exact hdone _ _ h

def formatText (items : List Item) : List Char := items.flatMap Item.text

def Scan.result (t : Scan) : ℤ × List Store := (if t.matched = 0 ∧ !t.gotAny then -1 else t.matched,t.stores)

/-- The run of the code against the run of C99, from where a directive starts. -/
def Agrees (final : Scan) (stores : List Store) (c99 : ℤ × List Store) : Prop := final.result = (c99.1,stores ++ c99.2)

section
variable {sc : Scan} {t : List Char} {pos count : ℕ} {converted matched : Bool}

lemma Steps.agrees {r : Scan × Bool} {i : Item} {items : List Item} (h : Steps sc r i.isLiteral t pos (i.step t pos))
    (hserved : Served (i :: items) t pos converted matched) (hcount : sc.matched = count) (hgot : sc.gotAny = (converted || matched))
    (hfirst : converted = false → count = 0) {rest : Scan}
    (hrest : ∀ stores conv n used, i.step t pos = .done stores conv n used → Served items (t.drop used) (pos + used) (converted || conv) (matched || i.isLiteral) →
      At r.1.src (t.drop used) (pos + used) → r.1.matched = count + n → r.1.gotAny = ((converted || conv) || (matched || i.isLiteral)) →
      Agrees rest (sc.stores ++ stores) (c99Scan items (t.drop used) (pos + used) (count + n) (converted || conv))) :
    Agrees (if r.2 then rest else r.1) sc.stores (c99Scan (i :: items) t pos count converted) := by
  rw [Served] at hserved
  rw [c99Scan]
  rcases hstep : i.step t pos with _ | _ | ⟨stores,conv,n,used⟩ <;> rw [hstep] at h hserved
  · obtain ⟨hstop,hmatched,hstores,hgotAny⟩ := h
    have hend : matched = true → converted = true := hserved.2
    rw [hstop,if_neg Bool.false_ne_true]
    dsimp only
    unfold Agrees Scan.result
    rw [hmatched,hstores,hgotAny,hgot,hcount,append_nil]
    refine Prod.ext ?_ rfl
    dsimp only
    cases converted with
    | true =>
      rw [if_neg fun h => nomatch h.2]
      rfl
    | false =>
      have hnone : matched = false := by
        cases matched with
        | true => exact absurd (hend rfl) Bool.false_ne_true
        | false => rfl
      rw [if_pos ⟨hfirst rfl,by rw [hnone]; rfl⟩]
      rfl
  · obtain ⟨hstop,hmatched,hstores,hgotAny⟩ := h
    rw [hstop,if_neg Bool.false_ne_true]
    dsimp only
    unfold Agrees Scan.result
    rw [hmatched,hstores,hgotAny,hcount,append_nil]
    refine Prod.ext ?_ rfl
    dsimp only
    rw [if_neg fun h => nomatch h.2]
  · obtain ⟨hgo,hat,hmatched,hstores,hgotAny⟩ := h
    rw [hgo,if_pos rfl]
    dsimp only
    have hagrees := hrest stores conv n used hstep hserved.2 hat (by rw [hmatched,hcount]) (by
      rw [hgotAny,hgot]
      cases converted <;> cases conv <;> cases matched <;> rfl)
    unfold Agrees at hagrees ⊢
    rw [hagrees,append_assoc]

lemma scnLoop_spec {fuel : ℕ} {items : List Item} (hwf : ∀ i ∈ items, i.WellFormed) (hserved : Served items t pos converted matched)
    (h : At sc.src t pos) (hcount : sc.matched = count) (hgot : sc.gotAny = (converted || matched)) (hfirst : converted = false → count = 0)
    (hfuel : t.length < fuel) {turns : ℕ} (hturns : (formatText items).length ≤ turns) :
    Agrees (scnLoop fuel turns sc (formatText items)) sc.stores (c99Scan items t pos count converted) := by
  induction items generalizing sc t pos count converted matched turns with
  | nil =>
    have hend : converted = true ∨ matched = true := hserved
    have hrun : scnLoop fuel turns sc (formatText []) = sc := by cases turns <;> rfl
    have hany : sc.gotAny = true := by
      rw [hgot,Bool.or_eq_true]
      exact hend
    rw [hrun]
    unfold Agrees Scan.result
    rw [c99Scan,hany,hcount,if_neg fun h => nomatch h.2]
    dsimp only
    rw [append_nil]
  | cons i items ih =>
    obtain ⟨hitem,hitems⟩ := List.forall_mem_cons.mp hwf
    rw [formatText,flatMap_cons,length_append] at hturns
    change i.text.length + (formatText items).length ≤ turns at hturns
    have hone : 1 ≤ i.text.length := by cases i <;> exact Nat.succ_pos _
    obtain ⟨turns,rfl⟩ := Nat.exists_eq_add_of_le' (by omega : 1 ≤ turns)
    -- the rest of the run, from where this directive leaves the scan
    have hrest (r : Scan × Bool) (hstores : ∀ stores conv n used, i.step t pos = .done stores conv n used → r.1.stores = sc.stores ++ stores)
        (hcounted : ∀ stores conv n used, i.step t pos = .done stores conv n used → conv = false → n = 0) :
        ∀ stores conv n used, i.step t pos = .done stores conv n used →
        Served items (t.drop used) (pos + used) (converted || conv) (matched || i.isLiteral) → At r.1.src (t.drop used) (pos + used) →
        r.1.matched = count + n → r.1.gotAny = ((converted || conv) || (matched || i.isLiteral)) →
        Agrees (scnLoop fuel turns r.1 (formatText items)) (sc.stores ++ stores)
          (c99Scan items (t.drop used) (pos + used) (count + n) (converted || conv)) := by
      intro stores conv n used hstep hserved' hat hmatched hgotAny
      rw [← hstores stores conv n used hstep]
      refine ih hitems hserved' hat hmatched hgotAny ?_ ((drop_sublist _ _).length_le.trans_lt hfuel) (by omega)
      intro hconv
      rw [Bool.or_eq_false_iff] at hconv
      rw [hfirst hconv.1,hcounted stores conv n used hstep hconv.2]
    cases i with
    | space c =>
      have hspace : scnIsspace c = true := hitem
      obtain ⟨s',hs',hat⟩ := scnSkipWs_spec h hfuel
      have hsteps : Steps sc ({ sc with src := s' },true) false t pos ((Item.space c).step t pos) := by
        refine ⟨rfl,?_,rfl,(append_nil _).symm,by cases sc.gotAny <;> rfl⟩
        have hdrop := drop_spaceLength t 0
        rw [Nat.add_zero,drop_zero] at hdrop
        rw [hdrop]
        exact hat
      have hagrees := Steps.agrees hsteps hserved hcount hgot hfirst (hrest ({ sc with src := s' },true)
        (by rintro _ _ _ _ ⟨⟩; exact (append_nil _).symm) (by rintro _ _ _ _ ⟨⟩ _; rfl))
      change Agrees (scnLoop fuel (turns+1) sc (c :: formatText items)) _ _
      rw [scnLoop,if_pos hspace,hs']
      exact hagrees
    | literal c =>
      obtain ⟨hspace,hpercent,-⟩ := hitem
      have hsteps := scnLiteral_steps sc c h
      have hagrees := Steps.agrees hsteps hserved hcount hgot hfirst (hrest (scnLiteral sc c)
        (fun stores conv n used hstep => by rw [hstep] at hsteps; exact hsteps.2.2.2.1)
        (fun stores conv n used hstep _ => by
          simp only [Item.step] at hstep
          split at hstep
          · exact nomatch hstep
          · split at hstep
            · exact (Step.done.inj hstep).2.2.1.symm
            · exact nomatch hstep))
      change Agrees (scnLoop fuel (turns+1) sc (c :: formatText items)) _ _
      rw [scnLoop,if_neg (by rw [hspace]; exact nofun),if_pos hpercent]
      exact hagrees
    | conversion v =>
      have hsteps := scnConvert_steps hitem hserved.1 h hfuel
      have hagrees := Steps.agrees (i := .conversion v) hsteps hserved hcount hgot hfirst
        (hrest (scnConvert fuel sc v.suppress (widthInt v.limit) v.long v.spec.char)
          (fun stores conv n used hstep => by
            have hstep : v.step t pos = .done stores conv n used := hstep
            rw [hstep] at hsteps
            exact hsteps.2.2.2.1)
          (fun stores conv n used hstep hconv => v.count_of_none hstep hconv))
      change Agrees (scnLoop fuel (turns+1) sc ('%' :: (v.text ++ formatText items))) _ _
      rw [scnLoop,if_neg (by decide),if_neg (not_not_intro rfl)]
      dsimp only
      rw [scnDirective_eq hitem hserved.1.1]
      exact hagrees

end

/-- For an input whose run over the format is served, the call returns and stores what C99 says. -/
theorem vsscanf_conforms {items : List Item} (hwf : ∀ i ∈ items, i.WellFormed) {input : List Char} (hserved : Served items input 0 false false) :
    vsscanf input (formatText items) = c99Scan items input 0 0 false :=
  (scnLoop_spec hwf hserved ⟨rfl,rfl⟩ rfl rfl (fun _ => rfl) (Nat.lt_succ_self _) (Nat.le_refl _)).trans
    (congrArg (Prod.mk _) (nil_append _))

/-- `%2x,%n` -/
def hexItems : List Item := [.conversion ⟨false,['2'],false,.x⟩,.literal ',',.conversion ⟨false,[],false,.n⟩]

lemma hexItems_wellFormed : ∀ i ∈ hexItems, i.WellFormed := by
  refine List.forall_mem_cons.mpr ⟨⟨?_,?_,nofun⟩,List.forall_mem_cons.mpr ⟨⟨rfl,by decide,by decide⟩,List.forall_mem_singleton.mpr ⟨?_,nofun,nofun⟩⟩⟩
  · exact List.forall_mem_singleton.mpr (by decide)
  · exact fun h => absurd (some.inj h) (by decide)
  · exact fun _ h => absurd h not_mem_nil

theorem vsscanf_conforms_hex : vsscanf ['1','f',','] (formatText hexItems) = (1,[.uint 31,.int 3]) :=
  vsscanf_conforms hexItems_wellFormed
    ⟨⟨fun _ h => by rw [← some.inj h]; decide,⟨nofun,fun _ h => absurd h (by decide),fun _ _ h => absurd (some.inj h) (by decide)⟩,
      fun _ r h => by rw [← some.inj h]; exact ⟨nofun,by decide⟩⟩,trivial,⟨nofun,by decide⟩,.inl rfl⟩

/-- The 0 of a number is counted twice against the width, and an input that ends after a literal is not `EOF`. -/
theorem zero_counted_twice :
    (vsscanf ['0','1','2'] (formatText [.conversion ⟨false,['2'],false,.x⟩]) = (1,[.uint 0]) ∧
      c99Scan [.conversion ⟨false,['2'],false,.x⟩] ['0','1','2'] 0 0 false = (1,[.uint 1])) ∧
    vsscanf ['a'] (formatText [.literal 'a',.conversion ⟨false,[],false,.d⟩]) = (0,[]) ∧
      c99Scan [.literal 'a',.conversion ⟨false,[],false,.d⟩] ['a'] 0 0 false = (-1,[]) := by
  decide

end VibeOS.Scanf

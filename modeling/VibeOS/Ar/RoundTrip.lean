import VibeOS.Ar.Archiver
import Mathlib.Data.Nat.Digits.Lemmas

/-! `cmd_rc` writes an archive that `cmd_t` lists, unless a longer file stood there before or a name or a member is too
long; `cmd_t` ends unless the sizes of the headers lead back. -/
namespace VibeOS.Ar
open List Option Nat

def Steady (took : Kernel) (a b : ℕ) : Prop := ∀ k, a ≤ k → k < b → took k ≠ none

/-- Between `o` and `r` the bytes `p` were to be written; all of them were exactly when no call failed. -/
structure Wrote (took : Kernel) (o r : Out) (p : List UInt8) : Prop where
  calls : o.calls ≤ r.calls
  bytes : ∃ q : List UInt8, q.length ≤ p.length ∧ r.done = o.done ++ q ∧ r.rest = o.rest.drop q.length ∧
    (q = p ↔ Steady took o.calls r.calls)

lemma Wrote.refl (took : Kernel) (o : Out) : Wrote took o o [] :=
  ⟨le_rfl,[],le_rfl,by simp,by simp,by simp only [Steady,true_iff]; omega⟩

lemma Wrote.trans {took : Kernel} {o r s : Out} {p p' : List UInt8} (h : Wrote took o r p) (h' : Wrote took r s p') :
    Wrote took o s (p ++ p') := by
  obtain ⟨q,hlen,hdone,hrest,hall⟩ := h.bytes
  obtain ⟨q',hlen',hdone',hrest',hall'⟩ := h'.bytes
  refine ⟨h.calls.trans h'.calls,q ++ q',by simp only [length_append]; omega,by rw [hdone',hdone,append_assoc],
    by rw [hrest',hrest,drop_drop,length_append],?_⟩
  have hboth : q ++ q' = p ++ p' ↔ q = p ∧ q' = p' := by
    refine ⟨fun heq => append_inj heq ?_,fun heq => by rw [heq.1,heq.2]⟩
    have := congrArg List.length heq
    simp only [length_append] at this
    omega
  rw [hboth,hall,hall']
  refine ⟨fun ⟨hl,hr⟩ k hk hlt => ?_,fun hs => ⟨fun k hk hlt => hs k hk (hlt.trans_le h'.calls),fun k hk => hs k (h.calls.trans hk)⟩⟩
  rcases lt_or_ge k r.calls with hkr | hkr
  · exact hl k hk hkr
  · exact hr k hkr hlt

lemma writeAll_wrote (took : Kernel) (o : Out) (p : List UInt8) : Wrote took o (writeAll took o p) p := by
  fun_induction writeAll took o p with
  | case1 o => exact Wrote.refl took o
  | case2 o p hne hfail =>
    refine ⟨le_succ _,[],Nat.zero_le _,by simp,by simp,?_⟩
    refine ⟨fun heq => absurd heq.symm hne,fun hs => absurd hfail (hs _ le_rfl (Nat.lt_succ_self _))⟩
  | case3 o p hne t htook ih =>
    have hput : Wrote took o (o.put (p.take (t + 1))) (p.take (t + 1)) := by
      refine ⟨le_succ _,_,le_rfl,rfl,rfl,by
        simp only [true_iff]
        intro k hk hlt
        obtain rfl : k = o.calls := by simp only [Out.put] at hlt; omega
        simp [htook]⟩
    have := hput.trans ih
    rwa [take_append_drop] at this

def Input.written (f : Input) : List UInt8 :=
  header f.name f.total f.longName ++ (if f.longName then f.name else []) ++ f.data ++ if f.total % 2 = 1 then [10] else []

lemma addMember_wrote (took : Kernel) (o : Out) (f : Input) : Wrote took o (addMember took o f) f.written := by
  have hif : ∀ (c : Prop) [Decidable c] (o : Out) (p : List UInt8),
      Wrote took o (if c then writeAll took o p else o) (if c then p else []) := fun c _ o p => by
    split_ifs
    · exact writeAll_wrote took o p
    · exact Wrote.refl took o
  exact (((writeAll_wrote took o _).trans (hif _ _ _)).trans (writeAll_wrote took _ _)).trans (hif _ _ _)

def inputs (readWhole : Chars → Option (List UInt8)) (paths : List Chars) : List Input :=
  paths.filterMap fun path => (readWhole path).map (Input.mk path)

lemma addMembers_wrote {took : Kernel} {readWhole : Chars → Option (List UInt8)} {paths : List Chars} {o r : Out}
    (h : addMembers took readWhole o paths = some r) :
    Wrote took o r ((inputs readWhole paths).flatMap Input.written) := by
  induction paths generalizing o with
  | nil =>
    exact some.inj h ▸ Wrote.refl took o
  | cons path paths ih =>
    simp only [addMembers,bind_eq_bind,bind_eq_some_iff] at h
    obtain ⟨data,hread,hrest⟩ := h
    simp only [inputs,filterMap_cons,hread,map_some,flatMap_cons]
    exact (addMember_wrote took o _).trans (ih hrest)

lemma cmdRc_wrote {took : Kernel} {readWhole : Chars → Option (List UInt8)} {old : List UInt8} {paths : List Chars} {o : Out}
    (h : cmdRc took readWhole old paths = some o) :
    Wrote took ⟨[],old,0⟩ o (magic ++ (inputs readWhole paths).flatMap Input.written) :=
  (writeAll_wrote took _ magic).trans (addMembers_wrote h)

lemma decStr_digit {v : ℕ} {c : UInt8} (hc : c ∈ decStr v) : 48 ≤ c ∧ c ≤ 57 := by
  have hdigit : ∀ d < 10, 48 ≤ 48 + UInt8.ofNat d ∧ 48 + UInt8.ofNat d ≤ 57 := by decide
  simp only [decStr,mem_reverse] at hc
  split_ifs at hc
  · rw [List.mem_singleton.mp hc]
    decide
  · obtain ⟨d,hd,rfl⟩ := List.mem_map.mp hc
    exact hdigit d (digits_lt_base (by omega) hd)

lemma decStr_ne_nil (v : ℕ) : decStr v ≠ [] := by
  simp only [decStr,ne_eq,reverse_eq_nil_iff]
  split_ifs with hv
  · simp
  · simpa using Nat.digits_ne_nil_iff_ne_zero.mpr hv

lemma decStr_length_le {v k : ℕ} (hk : 0 < k) : (decStr v).length ≤ k ↔ v < 10^k := by
  simp only [decStr,length_reverse]
  split_ifs with hv
  · subst hv
    simp only [length_singleton,pow_pos (by omega : 0 < 10) k,iff_true]
    exact hk
  · rw [length_map,digits_length_le_iff (by omega)]

lemma number_decStr (v : ℕ) : number (decStr v) = UInt64.ofNat v := by
  have hdigit : ∀ d < 10, (48 + UInt8.ofNat d).toUInt64 - 48 = UInt64.ofNat d := by decide
  have hfold : ∀ ds : List ℕ, (∀ d ∈ ds, d < 10) →
      number (ds.map fun d => 48 + UInt8.ofNat d).reverse = UInt64.ofNat (ofDigits 10 ds) := by
    intro ds
    induction ds with
    | nil => intro _; rfl
    | cons d ds ih =>
      intro hlt
      have := ih fun x hx => hlt x (mem_cons_of_mem _ hx)
      simp only [number,map_cons,reverse_cons,foldl_append,foldl_cons,foldl_nil] at this ⊢
      rw [this,hdigit d (hlt d mem_cons_self),ofDigits_cons,UInt64.ofNat_add,UInt64.ofNat_mul,UInt64.add_comm,UInt64.mul_comm]
      rfl
  rw [decStr]
  split_ifs with hv
  · subst hv
    rfl
  · rw [hfold _ fun d hd => digits_lt_base (by omega) hd,ofDigits_digits]

variable {s : List UInt8}

lemma padField_eq {width : ℕ} (h : s.length ≤ width) : padField width s 32 = field width s := by
  rw [padField,field,take_of_length_le h]

lemma length_field {width : ℕ} (h : s.length ≤ width) : (field width s).length = width := by
  simp only [field,length_append,length_replicate]
  omega

lemma takeWhile_field {width : ℕ} (h : ∀ c ∈ s, c ≠ 32) : (field width s).takeWhile (· ≠ 32) = s := by
  rw [field,takeWhile_append_of_pos (by simpa using h)]
  rcases width - s.length with _ | n <;> simp [replicate_succ]

lemma rdropWhile_field (width : ℕ) (s : List UInt8) : (field width s).rdropWhile (· = 32) = s.rdropWhile (· = 32) := by
  rw [field]
  generalize width - s.length = n
  induction n with
  | zero => simp
  | succ n ih => rw [replicate_succ',← append_assoc,rdropWhile_concat_pos _ _ _ (by simp),ih]

lemma total_eq (f : Input) : f.total = (payload f.name f.data).length := by
  rw [Input.total,payload,Input.longName]
  split_ifs with h h' h' <;> simp_all <;> omega

lemma written_eq {f : Input} (h : Fits f) : f.written = member f.name f.data := by
  have hname : (if f.longName then [35,49,47] ++ decStr f.name.length else f.name.take 15 ++ [47]) = nameField f.name := by
    rw [nameField,Input.longName]
    by_cases hlong : f.name.length ≤ 15
    · rw [if_neg (by simpa using hlong),if_pos hlong,take_of_length_le hlong]
    · rw [if_pos (by simpa using hlong),if_neg hlong]
  have hpay : (if f.longName then f.name else []) ++ f.data = payload f.name f.data := by
    rw [payload,Input.longName]
    by_cases hlong : f.name.length ≤ 15
    · rw [if_neg (by simpa using hlong),if_pos hlong,nil_append]
    · rw [if_pos (by simpa using hlong),if_neg hlong]
  rw [Input.written,header,hname,total_eq,padField_eq h.name,padField_eq h.size,member,← hpay]
  simp only [append_assoc]
  rfl

lemma fits_iff {f : Input} (hname : f.name.length ≤ 255) : Fits f ↔ f.total < 10^10 := by
  rw [total_eq,← decStr_length_le (by omega)]
  refine ⟨fun h => h.size,fun h => ⟨?_,h⟩⟩
  rw [nameField]
  split_ifs with hlong
  · simp only [length_append,length_singleton]
    omega
  · have := (decStr_length_le (v := f.name.length) (k := 3) (by omega)).mpr (by omega)
    simp only [length_append,length_cons,length_nil]
    omega

lemma toNat_add {a b : UInt64} (h : a.toNat + b.toNat < 2^64) : (a + b).toNat = a.toNat + b.toNat := by
  rw [UInt64.toNat_add,mod_eq_of_lt h]

lemma toNat_ofNat {n : ℕ} (h : n < 2^64) : (UInt64.ofNat n).toNat = n := UInt64.toNat_ofNat_of_lt' h

variable {data : List UInt8}

lemma copy_eq (hsize : data.length < 2^64) {n : ℕ} {a : UInt64} (h : a.toNat + n ≤ data.length) :
    copy data a n = some ((data.drop a.toNat).take n) := by
  induction n generalizing a with
  | zero => simp [copy]
  | succ n ih =>
    have hnext : (a + 1).toNat = a.toNat + 1 := toNat_add (by simp; omega)
    have hlt : a.toNat < data.length := by omega
    rw [copy,getElem?_eq_getElem hlt,ih (a := a + 1) (by omega),hnext,drop_eq_getElem_cons hlt]
    rfl

lemma copy_eq_none (hsize : data.length < 2^64) {n : ℕ} {a : UInt64} (hn : 0 < n)
    (h : data.length < a.toNat + n) : copy data a n = none := by
  induction n generalizing a with
  | zero => omega
  | succ n ih =>
    rcases lt_or_ge a.toNat data.length with hlt | hge
    · have hnext : (a + 1).toNat = a.toNat + 1 := by
        rw [UInt64.toNat_add]
        exact mod_eq_of_lt (by simp; omega)
      simp [copy,getElem?_eq_getElem hlt,ih (a := a + 1) (by omega) (by omega)]
    · simp [copy,getElem?_eq_none hge]

def nameAt (data : List UInt8) (off : UInt64) : List UInt8 := memberName ((data.drop off.toNat).take 16)

def sizeAt (data : List UInt8) (off : UInt64) : UInt64 :=
  number (((data.drop (off.toNat + 48)).take 10).takeWhile (· ≠ 32))

def behindAt (data : List UInt8) (off : UInt64) : ℕ :=
  if [35,49,47].isPrefixOf (nameAt data off) then min (number ((nameAt data off).drop 3)).toNat 255 else 0

def hop (data : List UInt8) (off : UInt64) : UInt64 :=
  let next := off + (60 + sizeAt data off)
  if next % 2 = 1 then next + 1 else next

def lineAt (data : List UInt8) (off : UInt64) : List UInt8 :=
  if [35,49,47].isPrefixOf (nameAt data off) then cstr ((data.drop (off.toNat + 60)).take (behindAt data off)) else nameAt data off

lemma length_cstr_le (l : List UInt8) : (cstr l).length ≤ l.length := ( takeWhile_prefix _).length_le

lemma length_lineAt_le (data : List UInt8) (off : UInt64) : (lineAt data off).length ≤ 255 := by
  rw [lineAt]
  split_ifs with hlong
  · refine (length_cstr_le _).trans ((length_take_le _ _).trans ?_)
    rw [behindAt,if_pos hlong]
    omega
  · have hshort : (cstr (((data.drop off.toNat).take 16).rdropWhile (· = 32))).length ≤ 16 :=
      ((length_cstr_le _).trans ( rdropWhile_prefix _ _).length_le).trans (length_take_le _ _)
    rw [nameAt,memberName]
    split_ifs
    · rw [length_dropLast]
      omega
    · omega

def Inside (data : List UInt8) (off : UInt64) : Prop := off.toNat + 60 + behindAt data off ≤ data.length

variable {off : UInt64}

lemma listOne_inside (hsize : data.length < 2^64) (h : Inside data off) :
    listOne data off = some (lineAt data off,hop data off) := by
  have hlen : off.toNat + 60 ≤ data.length := le_trans (Nat.le_add_right _ _) h
  have h48 : (off + 48).toNat = off.toNat + 48 := toNat_add (by simp; omega)
  have h60 : (off + 60).toNat = off.toNat + 60 := toNat_add (by simp; omega)
  have hsz := copy_eq hsize (a := off + 48) (n := 10) (by omega)
  have hnm := copy_eq hsize (a := off) (n := 16) (by omega)
  have hname := copy_eq hsize (a := off + 60) (n := behindAt data off) (by rw [h60]; exact h)
  rw [h48] at hsz
  rw [h60] at hname
  simp only [listOne,hsz,hnm,bind_eq_bind,bind_some]
  rw [← nameAt]
  by_cases hlong : [35,49,47].isPrefixOf (nameAt data off)
  · have hbehind : behindAt data off = min (number ((nameAt data off).drop 3)).toNat 255 := if_pos hlong
    rw [if_pos hlong,← hbehind,hname,lineAt,if_pos hlong]
    rfl
  · rw [if_neg hlong,lineAt,if_neg hlong]
    rfl

/-- The loop of `cmd_t` goes on. -/
def Live (data : List UInt8) (off : UInt64) : Prop := off + 60 ≤ UInt64.ofNat data.length

lemma listOne_outside (hsize : data.length + 60 < 2^64) (hlive : Live data off)
    (h : ¬ Inside data off) : listOne data off = none := by
  have hsz : data.length < 2^64 := by omega
  rcases le_or_gt (off.toNat + 60) data.length with hlen | hlen
  · have h48 : (off + 48).toNat = off.toNat + 48 := toNat_add (by simp; omega)
    have h60 : (off + 60).toNat = off.toNat + 60 := toNat_add (by simp; omega)
    have hs := copy_eq hsz (a := off + 48) (n := 10) (by omega)
    have hn := copy_eq hsz (a := off) (n := 16) (by omega)
    simp only [listOne,hs,hn,bind_eq_bind,bind_some]
    rw [Inside,behindAt] at h
    split_ifs at h with hlong
    · rw [nameAt] at hlong
      have hc := copy_eq_none hsz (a := off + 60) (n := min (number ((nameAt data off).drop 3)).toNat 255) (by omega) (by omega)
      rw [if_pos hlong,← nameAt,hc]
      rfl
    · omega
  · -- the test passes although the header ends behind the buffer: the sum has come round
    have hround : data.length < off.toNat + 16 := by
      have hle : (off + 60).toNat ≤ data.length := by
        have := UInt64.le_iff_toNat_le.mp hlive
        rwa [toNat_ofNat hsz] at this
      rw [UInt64.toNat_add] at hle
      have := off.toNat_lt
      have h60 : (60 : UInt64).toNat = 60 := rfl
      rw [h60] at hle
      omega
    have hn := copy_eq_none hsz (a := off) (n := 16) (by omega) hround
    simp only [listOne,hn]
    cases copy data (off + 48) 10 <;> rfl

/-- The loop ends after `N` members exactly when the first `N` headers are gone through and the next is not begun. -/
lemma cmdTLoop_done_iff (hsize : data.length + 60 < 2^64) (off : UInt64) :
    (∃ fuel lines, cmdTLoop data fuel off = .done lines) ↔
      ∃ N, ¬ Live data ((hop data)^[N] off) ∧ ∀ k < N, Live data ((hop data)^[k] off) ∧ Inside data ((hop data)^[k] off) := by
  constructor
  · rintro ⟨fuel,lines,h⟩
    induction fuel generalizing off lines with
    | zero => cases h
    | succ fuel ih =>
      rw [cmdTLoop] at h
      split_ifs at h with hlive
      · by_cases hin : Inside data off
        · have hone := listOne_inside (by omega) hin
          rw [hone] at h
          obtain ⟨ls,hls⟩ : ∃ ls, cmdTLoop data fuel (hop data off) = .done ls := by
            dsimp only at h
            cases hrest : cmdTLoop data fuel (hop data off) <;> simp_all [Listing.cons]
          obtain ⟨N,hend,hall⟩ := ih _ _ hls
          refine ⟨N + 1,hend,fun k hk => ?_⟩
          rcases k with _ | k
          · exact ⟨hlive,hin⟩
          · exact hall k (by omega)
        · rw [listOne_outside hsize hlive hin] at h
          cases h
      · exact ⟨0,hlive,by omega⟩
  · rintro ⟨N,hend,hall⟩
    induction N generalizing off with
    | zero => exact ⟨1,[],if_neg hend⟩
    | succ N ih =>
      obtain ⟨hlive,hin⟩ := hall 0 (by omega)
      obtain ⟨fuel,lines,hrest⟩ := ih (hop data off) hend fun k hk => hall (k + 1) (by omega)
      refine ⟨fuel + 1,lineAt data off :: lines,?_⟩
      change off + 60 ≤ _ at hlive
      rw [cmdTLoop,if_pos hlive,listOne_inside (by omega) (show Inside data off from hin)]
      simp only [hrest,Listing.cons]

/-- Every header that is begun lies in the buffer with its name, and the sizes never lead back to one of them. -/
structure Sane (data : List UInt8) : Prop where
  inside : ∀ k, (∀ i ≤ k, Live data ((hop data)^[i] 8)) → Inside data ((hop data)^[k] 8)
  fresh : ∀ i j, i < j → (∀ k ≤ j, Live data ((hop data)^[k] 8)) → (hop data)^[i] 8 ≠ (hop data)^[j] 8

lemma sane_iff (data : List UInt8) : Sane data ↔
    ∃ N, ¬ Live data ((hop data)^[N] 8) ∧ ∀ k < N, Live data ((hop data)^[k] 8) ∧ Inside data ((hop data)^[k] 8) := by
  classical
  constructor
  · intro h
    have hends : ∃ N, ¬ Live data ((hop data)^[N] 8) := by
      by_contra hnone
      push Not at hnone
      -- more headers than offsets
      refine not_injective_infinite_finite (fun k => ((hop data)^[k] 8).toFin) fun i j heq => ?_
      have hoff : (hop data)^[i] 8 = (hop data)^[j] 8 := UInt64.toFin_inj.mp heq
      rcases lt_trichotomy i j with hij | hij | hij
      · exact absurd hoff (h.fresh i j hij fun k _ => hnone k)
      · exact hij
      · exact absurd hoff.symm (h.fresh j i hij fun k _ => hnone k)
    have hlive : ∀ k < Nat.find hends, Live data ((hop data)^[k] 8) := fun k hk => not_not.mp (Nat.find_min hends hk)
    exact ⟨Nat.find hends,Nat.find_spec hends,fun k hk => ⟨hlive k hk,h.inside k fun i hi => hlive i (hi.trans_lt hk)⟩⟩
  · rintro ⟨N,hend,hall⟩
    refine ⟨fun k hk => ?_,fun i j hij hlive heq => ?_⟩
    · refine (hall k (lt_of_not_ge fun hN => hend (hk N hN))).2
    · have hjN : j < N := lt_of_not_ge fun hN => hend (hlive N hN)
      -- the last header has been met `j - i` headers before
      have hback : (hop data)^[N - j + j] 8 = (hop data)^[N - j + i] 8 := by
        rw [Function.iterate_add_apply,Function.iterate_add_apply,heq]
      rw [Nat.sub_add_cancel hjN.le] at hback
      exact hend (hback ▸ (hall (N - j + i) (by omega)).1)

lemma robust_iff (hsize : data.length + 60 < 2^64) :
    Robust data ↔ (magic.isPrefixOf data → Sane data) := by
  by_cases hmagic : magic.isPrefixOf data
  · rw [sane_iff,← cmdTLoop_done_iff hsize]
    simp [Robust,cmdT,hmagic]
  · simp [Robust,cmdT,hmagic]

lemma basenameFrom_chars {p q r : List UInt8} (h : r = q ++ p) (hq : 47 ∉ q) :
    47 ∉ basenameFrom r p ∧ ∀ c ∈ basenameFrom r p, c ∈ r := by
  induction p generalizing q r with
  | nil =>
    rw [append_nil] at h
    exact ⟨h ▸ hq,fun _ hc => hc⟩
  | cons c p ih =>
    rw [basenameFrom]
    split_ifs with hc
    · have := ih (q := []) rfl (by simp)
      exact ⟨this.1,fun x hx => h ▸ mem_append_right _ (mem_cons_of_mem _ (this.2 x hx))⟩
    · exact ih (q := q ++ [c]) (by rw [h,append_assoc]; rfl) (by simp [hq,Ne.symm hc])

lemma name_chars (f : Input) : 47 ∉ f.name ∧ 0 ∉ f.name := by
  have := basenameFrom_chars (p := f.path.1) (q := []) rfl (by simp)
  exact ⟨this.1,fun h => f.path.2 (this.2 0 h)⟩

lemma cstr_eq (h : 0 ∉ s) : cstr s = s := by
  rw [cstr,takeWhile_eq_self_iff]
  intro c hc
  simpa using fun heq : c = 0 => h (heq ▸ hc)

lemma memberName_short {name : List UInt8} (hzero : 0 ∉ name) : memberName (field 16 (name ++ [47])) = name := by
  have hcut : (field 16 (name ++ [47])).rdropWhile (· = 32) = name ++ [47] := by
    rw [rdropWhile_field,rdropWhile_concat_neg _ _ _ (by decide)]
  rw [memberName,hcut,cstr_eq (by simp [hzero])]
  simp

lemma memberName_long (n : ℕ) : memberName (field 16 ([35,49,47] ++ decStr n)) = [35,49,47] ++ decStr n := by
  have hlast : ∀ hne : [35,49,47] ++ decStr n ≠ [], ([35,49,47] ++ decStr n).getLast hne ∈ decStr n := fun hne => by
    rw [getLast_append_of_right_ne_nil _ _ (decStr_ne_nil n)]
    exact getLast_mem _
  have hcut : (field 16 ([35,49,47] ++ decStr n)).rdropWhile (· = 32) = [35,49,47] ++ decStr n := by
    rw [rdropWhile_field,rdropWhile_eq_self_iff]
    intro hne heq
    have := decStr_digit (hlast hne)
    rw [of_decide_eq_true heq] at this
    exact absurd this.1 (by decide)
  have hzero : 0 ∉ [35,49,47] ++ decStr n := fun h => by
    rcases List.mem_append.mp h with h | h
    · exact absurd h (by decide)
    · exact absurd (decStr_digit h).1 (by decide)
  rw [memberName,hcut,cstr_eq hzero,if_neg]
  intro h
  have hslash := decStr_digit (hlast (by simp))
  rw [getLast?_eq_some_getLast (by simp),some.injEq] at h
  rw [h] at hslash
  exact absurd hslash.1 (by decide)

lemma length_member {f : Input} (h : Fits f) : (member f.name f.data).length =
    60 + (payload f.name f.data).length + (payload f.name f.data).length % 2 := by
  simp only [member,length_append,length_field h.name,length_field h.size]
  rw [show (field 12 [48]).length = 12 from rfl,show (field 6 [48]).length = 6 from rfl,
    show (field 8 [49,48,48,54,52,52]).length = 8 from rfl]
  split_ifs with hodd <;> simp only [length_cons,length_nil] <;> omega

lemma drop_append {l a b : List UInt8} {i k : ℕ} (h : l.drop i = a ++ b) (hk : a.length = k) : l.drop (i + k) = b := by
  rw [← drop_drop,h,drop_left' hk]

lemma lists_member {data rest : List UInt8} (f : Input) (hsize : data.length + 60 < 2^64)
    (hdata : data.drop off.toNat = member f.name f.data ++ rest) (hfit : Fits f) (hname : f.name.length ≤ 255)
    (heven : off.toNat % 2 = 0) :
    Live data off ∧ Inside data off ∧ lineAt data off = f.name ∧
      (hop data off).toNat = off.toNat + (member f.name f.data).length := by
  have hmem := length_member hfit
  have hlen : off.toNat + (member f.name f.data).length ≤ data.length := by
    have := congrArg List.length hdata
    simp only [length_drop,length_append] at this
    omega
  -- the header at `off`, cut into its fields
  rw [member] at hdata
  simp only [append_assoc] at hdata
  have h16 : (data.drop off.toNat).take 16 = field 16 (nameField f.name) := by rw [hdata,take_left' (length_field hfit.name)]
  have h48 := drop_append (drop_append (drop_append (drop_append (drop_append hdata (length_field hfit.name)) (k := 12) rfl)
    (k := 6) rfl) (k := 6) rfl) (k := 8) rfl
  have h60 := drop_append (drop_append h48 (length_field hfit.size)) (k := 2) rfl
  have hsz : sizeAt data off = UInt64.ofNat (payload f.name f.data).length := by
    rw [sizeAt,show off.toNat + 48 = off.toNat + 16 + 12 + 6 + 6 + 8 by omega,h48,take_left' (length_field hfit.size),
      takeWhile_field fun c hc heq => absurd (heq ▸ decStr_digit hc).1 (by decide),number_decStr]
  -- the name is in its field or behind the header
  have hshown : behindAt data off = (if f.name.length ≤ 15 then 0 else f.name.length) ∧ lineAt data off = f.name := by
    have hnm : nameAt data off = memberName (field 16 (nameField f.name)) := by rw [nameAt,h16]
    rw [nameField] at hnm
    by_cases hshort : f.name.length ≤ 15
    · rw [if_pos hshort,memberName_short (name_chars f).2] at hnm
      have hplain : ¬ [35,49,47].isPrefixOf f.name := fun h =>
        (name_chars f).1 (( List.isPrefixOf_iff_prefix.mp h).subset (by simp))
      rw [lineAt,behindAt,hnm,if_neg hplain,if_neg hplain,if_pos hshort]
      exact ⟨rfl,rfl⟩
    · rw [if_neg hshort,memberName_long] at hnm
      have hlong : [35,49,47].isPrefixOf (nameAt data off) := hnm ▸ List.isPrefixOf_iff_prefix.mpr (prefix_append _ _)
      have hbehind : behindAt data off = f.name.length := by
        rw [behindAt,if_pos hlong,hnm,drop_left' (show ([35,49,47] : List UInt8).length = 3 from rfl),number_decStr,toNat_ofNat (by omega)]
        omega
      have hpay : payload f.name f.data = f.name ++ f.data := if_neg hshort
      rw [hpay,append_assoc] at h60
      rw [lineAt,if_pos hlong,hbehind,if_neg hshort,show off.toNat + 60 = off.toNat + 16 + 12 + 6 + 6 + 8 + 10 + 2 by omega,h60,
        take_left' rfl,cstr_eq (name_chars f).2]
      exact ⟨rfl,rfl⟩
  have hbehind : behindAt data off ≤ (payload f.name f.data).length := by
    rw [hshown.1,payload]
    split_ifs
    · exact Nat.zero_le _
    · rw [length_append]
      omega
  have hnext : (off + (60 + sizeAt data off)).toNat = off.toNat + (60 + (payload f.name f.data).length) := by
    have hto : (UInt64.ofNat (payload f.name f.data).length).toNat = (payload f.name f.data).length :=
      toNat_ofNat (by omega)
    have h60 : (60 + sizeAt data off).toNat = 60 + (payload f.name f.data).length := by
      rw [toNat_add] <;> rw [hsz,hto]
      · rfl
      · change 60 + _ < _
        omega
    rw [toNat_add (by rw [h60]; omega),h60]
  refine ⟨?_,by rw [Inside]; omega,hshown.2,?_⟩
  · rw [Live,UInt64.le_iff_toNat_le,toNat_ofNat (by omega),toNat_add (by change _ + 60 < _; omega)]
    change off.toNat + 60 ≤ _
    omega
  · have hodd : (off + (60 + sizeAt data off)) % 2 = 1 ↔ (payload f.name f.data).length % 2 = 1 := by
      rw [← UInt64.toNat_inj,UInt64.toNat_mod,hnext]
      change (off.toNat + (60 + (payload f.name f.data).length)) % 2 = 1 ↔ _
      omega
    rw [hop]
    split_ifs with hpar
    · rw [toNat_add (by rw [hnext]; change _ + 1 < _; omega),hnext]
      change _ + 1 = _
      have := hodd.mp hpar
      omega
    · rw [hnext]
      have := mt hodd.mpr hpar
      omega

lemma lists_members (hsize : data.length + 60 < 2^64) (fs : List Input)
    (hfit : ∀ f ∈ fs, Fits f ∧ f.name.length ≤ 255) (heven : off.toNat % 2 = 0) (hoff : off.toNat ≤ data.length)
    (hdata : data.drop off.toNat = fs.flatMap fun f => member f.name f.data) :
    cmdTLoop data (fs.length + 1) off = .done (fs.map Input.name) := by
  induction fs generalizing off with
  | nil =>
    have hend := List.drop_eq_nil_iff.mp hdata
    rw [length_nil,cmdTLoop,if_neg]
    · rfl
    · rw [UInt64.le_iff_toNat_le,toNat_ofNat (by omega),toNat_add (by change _ + 60 < _; omega)]
      change ¬ (_ + 60 ≤ _)
      omega
  | cons f fs ih =>
    obtain ⟨hf,hn⟩ := hfit f mem_cons_self
    rw [flatMap_cons] at hdata
    obtain ⟨hlive,hin,hline,hhop⟩ := lists_member f hsize hdata hf hn heven
    have hmem := length_member hf
    have hlen := congrArg List.length hdata
    simp only [length_drop,length_append] at hlen
    have hrest : cmdTLoop data (fs.length + 1) (hop data off) = .done (fs.map Input.name) :=
      ih (fun g hg => hfit g (mem_cons_of_mem _ hg)) (by omega) (by omega) (by rw [hhop]; exact drop_append hdata rfl)
    rw [length_cons,cmdTLoop]
    rw [Live] at hlive
    rw [if_pos hlive,listOne_inside (by omega) hin]
    simp only [hrest,Listing.cons,map_cons,hline]

lemma length_line_le (hsize : data.length + 60 < 2^64) {fuel : ℕ} {lines : List (List UInt8)}
    (h : cmdTLoop data fuel off = .done lines) : ∀ line ∈ lines, line.length ≤ 255 := by
  induction fuel generalizing off lines with
  | zero => cases h
  | succ fuel ih =>
    rw [cmdTLoop] at h
    split_ifs at h with hlive
    · by_cases hin : Inside data off
      · rw [listOne_inside (by omega) hin] at h
        dsimp only at h
        cases hrest : cmdTLoop data fuel (hop data off) with
        | done ls =>
          rw [hrest] at h
          obtain rfl := Listing.done.inj h
          intro line hline
          rcases List.mem_cons.mp hline with rfl | hline
          · exact length_lineAt_le data off
          · exact ih hrest line hline
        | outside | running =>
          rw [hrest] at h
          cases h
      · rw [listOne_outside hsize hlive hin] at h
        cases h
    · cases h
      simp

variable {fs : List Input}

lemma written_eq_archive (h : ∀ f ∈ fs, Fits f) : magic ++ fs.flatMap Input.written = archive fs := by
  rw [archive,flatMap_congr fun f hf => written_eq (h f hf)]

lemma archive_roundTrip (hsize : (archive fs).length + 60 < 2^64)
    (h : ∀ f ∈ fs, f.name.length ≤ 255 ∧ f.total < 10^10) : RoundTrip fs (archive fs) := by
  have hfit : ∀ f ∈ fs, Fits f := fun f hf => (fits_iff (h f hf).1).mpr (h f hf).2
  refine ⟨hfit,rfl,fs.length + 1,?_⟩
  have hmagic : magic.isPrefixOf (archive fs) := List.isPrefixOf_iff_prefix.mpr (prefix_append _ _)
  rw [cmdT,if_pos hmagic]
  refine congrArg some (lists_members hsize fs (fun f hf => ⟨hfit f hf,(h f hf).1⟩) rfl ?_ rfl)
  simp only [archive,length_append]
  exact Nat.le_add_right _ _

lemma RoundTrip.bounds {file : List UInt8} (hsize : file.length + 60 < 2^64) (h : RoundTrip fs file) :
    ∀ f ∈ fs, f.name.length ≤ 255 ∧ f.total < 10^10 := by
  obtain ⟨fuel,hlist⟩ := h.lists
  rw [cmdT] at hlist
  split_ifs at hlist
  intro f hf
  have hname := length_line_le hsize (some.inj hlist) f.name (List.mem_map_of_mem hf)
  exact ⟨hname,(fits_iff hname).mp (h.fits f hf)⟩

/-- After a run of `cmd_rc` in which no `write` failed the file is an archive of the inputs that `cmd_t` lists exactly when
the old file was no longer and names and members are short enough. After a failed `write` it is one only where the old file
had the same length. And `cmd_t` ends within its buffer exactly when the buffer is refused or sane. -/
theorem ar_conforms (took : Kernel) (readWhole : Chars → Option (List UInt8)) (paths : List Chars) :
    (∀ old o, cmdRc took readWhole old paths = some o → o.bytes.length + 60 < 2^64 →
      (Steady took 0 o.calls → (RoundTrip (inputs readWhole paths) o.bytes ↔
        old.length ≤ (archive (inputs readWhole paths)).length ∧
          ∀ f ∈ inputs readWhole paths, f.name.length ≤ 255 ∧ f.total < 10^10)) ∧
      (¬ Steady took 0 o.calls → RoundTrip (inputs readWhole paths) o.bytes →
        old.length = (archive (inputs readWhole paths)).length)) ∧
    ∀ data : List UInt8, data.length + 60 < 2^64 → (Robust data ↔ (magic.isPrefixOf data → Sane data)) := by
  refine ⟨fun old o h hsize => ?_,fun data hsize => robust_iff hsize⟩
  obtain ⟨q,hlen,hdone,hrest,hall⟩ := (cmdRc_wrote h).bytes
  generalize inputs readWhole paths = fs at *
  have hfile : o.bytes = q ++ old.drop q.length := by rw [Out.bytes,hdone,hrest,nil_append]
  refine ⟨fun hsteady => ⟨fun hround => ?_,fun ⟨hold,hshort⟩ => ?_⟩,fun hfail hround => ?_⟩
  · refine ⟨?_,hround.bounds hsize⟩
    rw [hall.mpr hsteady,written_eq_archive hround.fits] at hfile
    have := congrArg List.length (hfile.symm.trans hround.exact)
    simp only [length_append,length_drop] at this
    omega
  · have hwritten := written_eq_archive fun f hf => (fits_iff (hshort f hf).1).mpr (hshort f hf).2
    rw [hall.mpr hsteady,hwritten,drop_eq_nil_of_le hold,append_nil] at hfile
    rw [hfile] at hsize ⊢
    exact archive_roundTrip hsize hshort
  · rw [written_eq_archive hround.fits] at hlen hall
    have heq : q ++ old.drop q.length = archive fs := hfile.symm.trans hround.exact
    have hsum := congrArg List.length heq
    simp only [length_append,length_drop] at hsum
    have hless : q.length < (archive fs).length := lt_of_le_of_ne hlen fun hl => hfail (hall.mp ?_)
    · omega
    · rw [← heq,length_append] at hl
      rw [← heq,List.length_eq_zero_iff.mp (by omega : (old.drop q.length).length = 0),append_nil]

/-- One file of one byte, over an archive of no members. -/
theorem ar_conforms_one : (∃ o, cmdRc (fun _ => some 99) (fun _ => some [1]) magic [⟨[97],by decide⟩] = some o ∧
    RoundTrip [⟨⟨[97],by decide⟩,[1]⟩] o.bytes) ∧ Robust magic := by
  obtain ⟨o,ho⟩ : ∃ o, cmdRc (fun _ => some 99) (fun _ => some [1]) magic [⟨[97],by decide⟩] = some o := ⟨_,rfl⟩
  have hsize : o.bytes.length + 60 < 2^64 := by
    obtain ⟨q,hlen,hdone,hrest,-⟩ := (cmdRc_wrote ho).bytes
    have hwritten : (magic ++ (inputs (fun _ => some [1]) [⟨[97],by decide⟩]).flatMap Input.written).length = 70 := by rfl
    rw [Out.bytes,hdone,hrest]
    simp only [length_append,length_drop,length_nil,show magic.length = 8 from rfl]
    omega
  refine ⟨⟨o,ho,(((ar_conforms _ _ _).1 magic o ho hsize).1 fun _ _ _ => some_ne_none _).mpr ⟨by decide,by decide⟩⟩,
    ((ar_conforms (fun _ => none) (fun _ => none) []).2 magic (by decide)).mpr fun _ => ⟨fun k hk => ?_,fun i j _ hlive => ?_⟩⟩
  · exact absurd (hk 0 (Nat.zero_le _)) (by rw [Live]; decide)
  · exact absurd (hlive 0 (Nat.zero_le _)) (by rw [Live]; decide)

/-- A header whose size field is `*0`: the size is 60 less than 2^64. -/
def returning : List UInt8 := magic ++ replicate 48 48 ++ [42,48] ++ replicate 10 32

/-- The old file is one byte longer than the empty archive, and the byte stays. The size of the header in `returning` leads
back to this header. -/
theorem rc_leaves_old : (cmdRc (fun _ => some 7) (fun _ => none) (replicate 9 0) []).map Out.bytes = some (magic ++ [0]) ∧
    ¬ RoundTrip [] (magic ++ [0]) ∧ ¬ Robust returning := by
  refine ⟨?_,fun h => absurd h.exact (by decide),fun h => ?_⟩
  · simp [cmdRc,addMembers,writeAll,magic,Out.put,Out.bytes]
  · refine ((robust_iff (by decide)).mp h (by decide)).fresh 0 1 Nat.zero_lt_one (fun k hk => ?_) (by decide)
    interval_cases k <;> rw [Live] <;> decide

end VibeOS.Ar

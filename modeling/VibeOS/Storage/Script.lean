import VibeOS.Widths
import Mathlib.Data.List.Basic

/-! Reads from a buffer of bytes, with the fault of a read outside of it. -/
namespace VibeOS.Storage

inductive Fault
  | outside
deriving DecidableEq

/-- A computation that ends with its result or at its first read outside. -/
abbrev Checked (α : Type) := Except Fault α

def fetch (buf : List UInt8) (off : ℕ) : Checked UInt8 :=
  match buf[off]? with
  | some b => .ok b
  | none => .error .outside

def fetchBe16 (buf : List UInt8) (off : ℕ) : Checked ℕ := do
  let hi ← fetch buf off
  let lo ← fetch buf (off + 1)
  return hi.toNat*256 + lo.toNat

def fetchLe (buf : List UInt8) (off : ℕ) : ℕ → Checked ℕ
  | 0 => .ok 0
  | n + 1 => do
    let lo ← fetch buf off
    let hi ← fetchLe buf (off + 1) n
    return lo.toNat + 256*hi

variable {buf : List UInt8} {off : ℕ}

lemma fetch_eq_ok {b : UInt8} : fetch buf off = .ok b ↔ buf[off]? = some b := by
  unfold fetch
  cases buf[off]? <;> simp

lemma fetch_of_lt (h : off < buf.length) : fetch buf off = .ok (buf[off]) := by
  rw [fetch_eq_ok,List.getElem?_eq_getElem h]

lemma fetch_of_ge (h : buf.length ≤ off) : fetch buf off = .error .outside := by
  rw [fetch,List.getElem?_eq_none h]

def be16 (buf : List UInt8) (off : ℕ) : ℕ := (buf.getD off 0).toNat*256 + (buf.getD (off + 1) 0).toNat

lemma fetchBe16_of_lt (h : off + 1 < buf.length) : fetchBe16 buf off = .ok (be16 buf off) := by
  unfold fetchBe16 be16
  rw [fetch_of_lt (Nat.lt_of_succ_lt h),fetch_of_lt h]
  simp only [List.getD_eq_getElem?_getD,List.getElem?_eq_getElem h,List.getElem?_eq_getElem (Nat.lt_of_succ_lt h),
    Option.getD_some]
  rfl

def le (buf : List UInt8) (off : ℕ) : ℕ → ℕ
  | 0 => 0
  | n + 1 => (buf.getD off 0).toNat + 256*le buf (off + 1) n

lemma fetchLe_of_le {n : ℕ} (h : off + n ≤ buf.length) : fetchLe buf off n = .ok (le buf off n) := by
  induction n generalizing off with
  | zero => rfl
  | succ n ih =>
    unfold fetchLe le
    rw [fetch_of_lt (by omega),ih (by omega)]
    simp only [List.getD_eq_getElem?_getD,List.getElem?_eq_getElem (show off < buf.length by omega),Option.getD_some]
    rfl

lemma fetchLe_of_gt {n : ℕ} (hn : 0 < n) (h : buf.length < off + n) : fetchLe buf off n = .error .outside := by
  induction n generalizing off with
  | zero => omega
  | succ n ih =>
    unfold fetchLe
    by_cases hoff : off < buf.length
    · rw [fetch_of_lt hoff]
      by_cases hn' : n = 0
      · omega
      · rw [ih (by omega) (by omega)]
        rfl
    · rw [fetch_of_ge (by omega)]
      rfl

end VibeOS.Storage

/-! What a computation asks for, one thing after the other: it stops at the first thing that it does not get, and
faults at the first one that it must not ask for. -/
namespace VibeOS.Storage

variable {ε σ : Type} {inside : ε → Bool} {take : σ → ε → Option σ} {s s' : σ} {es fs : List ε} {e : ε}

/-- `some` is what is left when everything was granted. -/
def play (inside : ε → Bool) (take : σ → ε → Option σ) : List ε → σ → Checked (Option σ)
  | [], s => .ok (some s)
  | e :: es, s =>
    if inside e then match take s e with
      | none => .ok none
      | some s => play inside take es s
    else .error .outside

lemma play_append : play inside take (es ++ fs) s = (do
    match ← play inside take es s with
    | none => .ok none
    | some s => play inside take fs s) := by
  induction es generalizing s with
  | nil => rfl
  | cons e es ih =>
    rw [List.cons_append,play,play]
    split_ifs with he
    · cases take s e with
      | none => rfl
      | some t => exact ih
    · rfl

lemma play_free (hfree : ∀ e ∈ es, take s e = some s) : play inside take (es ++ fs) s =
    if ∀ e ∈ es, inside e = true then play inside take fs s else .error .outside := by
  induction es with
  | nil => exact (if_pos fun e he => absurd he List.not_mem_nil).symm
  | cons e es ih =>
    rw [List.cons_append,play]
    by_cases he : inside e = true
    · rw [if_pos he,hfree e List.mem_cons_self]
      refine (ih fun x hx => hfree x (List.mem_cons_of_mem _ hx)).trans ?_
      simp only [List.forall_mem_cons,he,true_and]
    · rw [if_neg he,if_neg fun hall => he (hall e List.mem_cons_self)]

lemma play_eq_some : play inside take es s = .ok (some s') ↔ (∀ e ∈ es, inside e = true) ∧ es.foldlM take s = some s' := by
  induction es generalizing s with
  | nil => exact ⟨fun h => ⟨fun e he => absurd he List.not_mem_nil,by cases h; rfl⟩,fun ⟨_,h⟩ => by cases h; rfl⟩
  | cons e es ih =>
    rw [play,List.foldlM_cons]
    split_ifs with he
    · cases take s e with
      | none => exact ⟨fun h => (by cases h),fun ⟨_,h⟩ => by cases h⟩
      | some t =>
        refine ih.trans ⟨fun ⟨hall,h⟩ => ⟨fun x hx => ?_,h⟩,fun ⟨hall,h⟩ => ⟨fun x hx => hall x (List.mem_cons_of_mem _ hx),h⟩⟩
        rcases List.mem_cons.mp hx with rfl | hx
        · exact he
        · exact hall x hx
    · exact ⟨fun h => (by cases h),fun ⟨hall,_⟩ => absurd (hall e List.mem_cons_self) he⟩

lemma play_eq_error : play inside take es s = .error .outside ↔
    ∃ pre e post, es = pre ++ e :: post ∧ inside e = false ∧ (pre.foldlM take s).isSome = true := by
  induction es generalizing s with
  | nil => exact ⟨fun h => (by cases h),fun ⟨pre,e,post,h,_⟩ => by cases pre <;> cases h⟩
  | cons d es ih =>
    rw [play]
    split_ifs with hd
    · cases ht : take s d with
      | none =>
        refine ⟨fun h => (by cases h),fun ⟨pre,e,post,h,he,hpre⟩ => ?_⟩
        cases pre with
        | nil =>
          cases h
          rw [hd] at he
          cases he
        | cons _ pre =>
          cases h
          rw [List.foldlM_cons,ht] at hpre
          cases hpre
      | some t =>
        refine ih.trans ⟨fun ⟨pre,e,post,h,he,hpre⟩ => ⟨d :: pre,e,post,by rw [h]; rfl,he,?_⟩,fun ⟨pre,e,post,h,he,hpre⟩ => ?_⟩
        · rw [List.foldlM_cons,ht]
          exact hpre
        · cases pre with
          | nil =>
            cases h
            rw [hd] at he
            cases he
          | cons _ pre =>
            cases h
            rw [List.foldlM_cons,ht] at hpre
            exact ⟨pre,e,post,rfl,he,hpre⟩
    · exact ⟨fun _ => ⟨[],d,es,rfl,eq_false_of_ne_true hd,rfl⟩,fun _ => rfl⟩

lemma foldlM_of_play (h : play inside take es s = .ok none) : es.foldlM take s = none := by
  induction es generalizing s with
  | nil => cases h
  | cons e es ih =>
    rw [play] at h
    rw [List.foldlM_cons]
    split_ifs at h
    cases ht : take s e with
    | none => rfl
    | some t =>
      rw [ht] at h
      exact ih h

end VibeOS.Storage

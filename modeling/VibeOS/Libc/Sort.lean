import VibeOS.Arrangement

/-! `qsort` and `bsearch` of the C library, on an array in memory that they may not leave. Indices are at most
`nmemb`, so that `size_t` never wraps. -/
namespace VibeOS.Libc
open Function Option
open Arrangement

abbrev Memory := ℕ → UInt8

abbrev Elem (size : ℕ) := Fin size → UInt8

/-! ### The code

Every access outside the object from `first` up to `last` gives `none`. -/

section
variable (first last : ℕ) {size : ℕ} (cmp : Elem size → Elem size → ℤ)

def load (m : Memory) (a : ℕ) : Option UInt8 := if first ≤ a ∧ a < last then some (m a) else none

def store (m : Memory) (a : ℕ) (v : UInt8) : Option Memory := if first ≤ a ∧ a < last then some (update m a v) else none

/-- `__osdev_swap_bytes`. -/
def swapBytes (m : Memory) (a b : ℕ) : ℕ → Option Memory
  | 0 => some m
  | n+1 => do
    let t ← load first last m a
    let u ← load first last m b
    let m ← store first last m a u
    let m ← store first last m b t
    swapBytes m (a+1) (b+1) n

/-- The bytes that a comparison reads behind one of its pointers. -/
def element (size : ℕ) (m : Memory) (a : ℕ) : Option (Elem size) :=
  if first ≤ a ∧ a + size ≤ last then some fun k => m (a + k) else none

def compare (m : Memory) (a b : ℕ) : Option ℤ := do
  let x ← element first last size m a
  let y ← element first last size m b
  return cmp x y

/-- The inner loop of the insertion sort, from `j` downwards. -/
def sink (base : ℕ) (m : Memory) : ℕ → Option Memory
  | 0 => some m
  | j+1 => do
    if (← compare first last cmp m (base + (j+1)*size) (base + j*size)) < 0 then
      sink base (← swapBytes first last m (base + (j+1)*size) (base + j*size) size) j
    else some m

/-- The insertion sort; the first element is in place without a turn of the inner loop. -/
def insertionSort (base : ℕ) (m : Memory) : ℕ → Option Memory
  | 0 => some m
  | i+1 => do sink first last cmp base (← insertionSort base m i) i

/-- `while (lo <= hi && cmp(base + lo * size, base) <= 0) lo++`. -/
def scanUp (base : ℕ) (m : Memory) (lo hi : ℕ) : Option ℕ :=
  if lo ≤ hi then do
    if (← compare first last cmp m (base + lo*size) base) ≤ 0 then scanUp base m (lo+1) hi else some lo
  else some lo
termination_by hi + 1 - lo

/-- `while (hi >= lo && cmp(base + hi * size, base) > 0)`, with its way out at zero. -/
def scanDown (base : ℕ) (m : Memory) (lo : ℕ) : ℕ → Option ℕ
  | 0 => if lo ≤ 0 then do
      let _ ← compare first last cmp m (base + 0*size) base
      some 0
    else some 0
  | hi+1 => if lo ≤ hi+1 then do
      if 0 < (← compare first last cmp m (base + (hi+1)*size) base) then scanDown base m lo hi else some (hi+1)
    else some (hi+1)

/-- The partition loop of at most `fuel` turns: the memory and the place of the pivot. -/
def partition (base : ℕ) : ℕ → Memory → ℕ → ℕ → Option (Memory × ℕ)
  | 0,_,_,_ => none
  | fuel+1,m,lo,hi => do
    let lo ← scanUp first last cmp base m lo hi
    let hi ← scanDown first last cmp base m lo hi
    if hi < lo then some (m,hi)
    else partition base fuel (← swapBytes first last m (base + lo*size) (base + hi*size) size) lo hi

/-- `__osdev_qsort`, nested at most `fuel` deep. -/
def quicksort : ℕ → Memory → ℕ → ℕ → Option Memory
  | 0,_,_,_ => none
  | fuel+1,m,base,nmemb =>
    if nmemb < 12 then insertionSort first last cmp base m nmemb
    else do
      let mid := nmemb / 2
      let m ← swapBytes first last m base (base + mid*size) size
      let (m,hi) ← partition first last cmp base (fuel+1) m 1 (nmemb-1)
      let m ← swapBytes first last m base (base + hi*size) size
      let m ← quicksort fuel m base hi
      quicksort fuel m (base + (hi+1)*size) (nmemb - hi - 1)

/-- `none` for a null pointer. -/
def qsort (fuel : ℕ) (m : Memory) (base : Option ℕ) (nmemb : ℕ) (cmp : Option (Elem size → Elem size → ℤ)) : Option Memory :=
  if nmemb ≤ 1 ∨ size = 0 then some m
  else match base,cmp with
    | some base,some cmp => quicksort first last cmp fuel m base nmemb
    | _,_ => some m

/-- The loop of `bsearch`: the address of the element that was found. -/
def search (cmp : Elem size → ℤ) (m : Memory) (base lo hi : ℕ) : Option (Option ℕ) :=
  if lo < hi then
    let mid := lo + (hi - lo) / 2
    (element first last size m (base + mid*size)).bind fun x =>
      if cmp x = 0 then some (some (base + mid*size))
      else if cmp x < 0 then search cmp m base lo mid
      else search cmp m base (mid + 1) hi
  else some none
termination_by hi - lo

def bsearch (m : Memory) (key : Elem size) (base nmemb : ℕ) (cmp : Option (Elem size → Elem size → ℤ)) : Option (Option ℕ) :=
  if nmemb = 0 ∨ size = 0 then some none
  else match cmp with
    | some cmp => search first last (cmp key) m base 0 nmemb
    | none => some none

end

def elements (size first : ℕ) (m : Memory) : ℕ → Elem size := fun i k => m (first + i*size + k)

/-- What a step on the array may do: the elements in a range change places. -/
structure Sorts (size first lo hi : ℕ) (m m' : Memory) : Prop where
  moved : Rearranged lo hi (elements size first m) (elements size first m')
  below : ∀ a < first, m' a = m a

namespace Sorts
variable {size first lo hi lo' hi' : ℕ} {m m' m'' : Memory}

lemma refl (lo hi : ℕ) (m : Memory) : Sorts size first lo hi m m := ⟨.refl _ _ _,fun _ _ => rfl⟩

lemma mono (h : Sorts size first lo hi m m') (hlo : lo' ≤ lo) (hhi : hi ≤ hi') : Sorts size first lo' hi' m m' :=
  ⟨h.moved.mono hlo hhi,h.below⟩

lemma trans (h : Sorts size first lo hi m m') (h' : Sorts size first lo hi m' m'') : Sorts size first lo hi m m'' :=
  ⟨h.moved.trans h'.moved,fun a ha => (h'.below a ha).trans (h.below a ha)⟩

end Sorts

lemma address_le {first size i j : ℕ} (h : i < j) : first + i*size + size ≤ first + j*size := by
  have := Nat.mul_le_mul_right size (Nat.succ_le_of_lt h)
  rw [Nat.succ_mul] at this
  omega

section
variable {first size n : ℕ} {cmp : Elem size → Elem size → ℤ} {m : Memory}

lemma load_some {last a : ℕ} (hfirst : first ≤ a) (hlast : a < last) : load first last m a = some (m a) := if_pos ⟨hfirst,hlast⟩

lemma store_some {last a : ℕ} {v : UInt8} (hfirst : first ≤ a) (hlast : a < last) :
    store first last m a v = some (update m a v) := if_pos ⟨hfirst,hlast⟩

lemma swapBytes_spec {last a b k : ℕ} (ha : first ≤ a ∧ a + k ≤ last) (hb : first ≤ b ∧ b + k ≤ last)
    (hab : a = b ∨ a + k ≤ b ∨ b + k ≤ a) : ∃ m', swapBytes first last m a b k = some m' ∧
      ∀ c, m' c = if a ≤ c ∧ c < a + k then m (b + (c - a)) else if b ≤ c ∧ c < b + k then m (a + (c - b)) else m c := by
  induction k generalizing a b m with
  | zero =>
    refine ⟨m,rfl,fun c => ?_⟩
    rw [if_neg (by omega),if_neg (by omega)]
  | succ k ih =>
    obtain ⟨m',hm',hbytes⟩ := @ih (update (update m a (m b)) b (m a)) (a+1) (b+1) (by omega) (by omega) (by omega)
    refine ⟨m',?_,fun c => ?_⟩
    · simp only [swapBytes,load_some ha.1 (by omega : a < last),load_some hb.1 (by omega : b < last),
        store_some ha.1 (by omega : a < last),store_some hb.1 (by omega : b < last),bind_eq_bind,bind_some]
      exact hm'
    · rw [hbytes]
      have hrest (x : ℕ) (hxa : x ≠ a) (hxb : x ≠ b) : update (update m a (m b)) b (m a) x = m x := by
        rw [update_of_ne hxb,update_of_ne hxa]
      by_cases hca : c = a
      · subst hca
        rw [if_neg (by omega),if_neg (by omega),if_pos (by omega),Nat.sub_self,Nat.add_zero]
        by_cases hcb : c = b
        · rw [← hcb,update_self]
        · rw [update_of_ne hcb,update_self]
      · by_cases hcb : c = b
        · subst hcb
          rw [if_neg (by omega),if_neg (by omega),if_neg (by omega),if_pos (by omega),update_self,Nat.sub_self,Nat.add_zero]
        · by_cases hin : a ≤ c ∧ c < a + (k+1)
          · rw [if_pos (by omega),if_pos hin,hrest _ (by omega) (by omega)]
            congr 1
            omega
          · rw [if_neg (by omega),if_neg hin]
            by_cases hin' : b ≤ c ∧ c < b + (k+1)
            · rw [if_pos (by omega),if_pos hin',hrest _ (by omega) (by omega)]
              congr 1
              omega
            · rw [if_neg (by omega),if_neg hin',hrest c hca hcb]

lemma element_some {i : ℕ} (hi : i < n) : element first (first + n*size) size m (first + i*size) = some (elements size first m i) := by
  have := @address_le first size i n hi
  exact if_pos ⟨by omega,this⟩

lemma compare_some {i j : ℕ} (hi : i < n) (hj : j < n) :
    compare first (first + n*size) cmp m (first + i*size) (first + j*size) =
      some (cmp (elements size first m i) (elements size first m j)) := by
  simp only [compare,element_some hi,element_some hj,bind_eq_bind,bind_some,Option.pure_def]

lemma swap_some {i j : ℕ} (hi : i < n) (hj : j < n) : ∃ m', swapBytes first (first + n*size) m (first + i*size) (first + j*size) size = some m' ∧
    (∀ k, elements size first m' k = elements size first m (Equiv.swap i j k)) ∧ ∀ a < first, m' a = m a := by
  have hai := @address_le first size i n hi
  have haj := @address_le first size j n hj
  have hapart : first + i*size = first + j*size ∨ first + i*size + size ≤ first + j*size ∨ first + j*size + size ≤ first + i*size := by
    rcases Nat.lt_trichotomy i j with h | rfl | h
    · exact .inr (.inl (address_le h))
    · exact .inl rfl
    · exact .inr (.inr (address_le h))
  obtain ⟨m',hm',hbytes⟩ := @swapBytes_spec first m (first + n*size) _ _ size ⟨by omega,hai⟩ ⟨by omega,haj⟩ hapart
  refine ⟨m',hm',fun k => funext fun ⟨o,ho⟩ => ?_,fun a ha => ?_⟩
  · simp only [elements,hbytes]
    have hk {l : ℕ} (hne : k ≠ l) : ¬ (first + l*size ≤ first + k*size + o ∧ first + k*size + o < first + l*size + size) := by
      rcases Nat.lt_or_gt_of_ne hne with h | h
      · have := @address_le first size k l h
        omega
      · have := @address_le first size l k h
        omega
    by_cases hki : k = i
    · subst hki
      rw [if_pos (by omega),Equiv.swap_apply_left]
      congr 1
      omega
    · rw [if_neg (hk hki)]
      by_cases hkj : k = j
      · subst hkj
        rw [if_pos (by omega),Equiv.swap_apply_right]
        congr 1
        omega
      · rw [if_neg (hk hkj),Equiv.swap_apply_of_ne_of_ne hki hkj]
  · rw [hbytes,if_neg (by omega),if_neg (by omega)]

lemma place (first size b j : ℕ) : first + b*size + j*size = first + (b + j)*size := by rw [Nat.add_mul,Nat.add_assoc]

lemma Sorts.of_swap {i j lo hi : ℕ} {m' : Memory} (hi' : lo ≤ i ∧ i < hi) (hj : lo ≤ j ∧ j < hi)
    (helems : ∀ k, elements size first m' k = elements size first m (Equiv.swap i j k)) (hbelow : ∀ a < first, m' a = m a) :
    Sorts size first lo hi m m' := by
  refine ⟨?_,hbelow⟩
  rw [show elements size first m' = fun k => elements size first m (Equiv.swap i j k) from funext helems]
  exact .swap hi' hj

variable (h : TotalPreorder cmp)
include h

lemma sink_spec {b j top : ℕ} (hj : j ≤ top) (htop : b + top < n)
    (hsorted : ∀ p q, p < q → q ≤ top → q ≠ j → cmp (elements size first m (b+p)) (elements size first m (b+q)) ≤ 0) :
    ∃ m', sink first (first + n*size) cmp (first + b*size) m j = some m' ∧ Sorts size first b (b+top+1) m m' ∧
      Ascending cmp b (b+top+1) (elements size first m') := by
  have hdone {m' : Memory} (hall : ∀ p q, p < q → q ≤ top → cmp (elements size first m' (b+p)) (elements size first m' (b+q)) ≤ 0) :
      Ascending cmp b (b+top+1) (elements size first m') := by
    intro p q hp hpq hq
    obtain ⟨p,rfl⟩ := Nat.exists_eq_add_of_le hp
    obtain ⟨q,rfl⟩ := Nat.exists_eq_add_of_le (hp.trans hpq.le)
    exact hall p q (by omega) (by omega)
  induction j generalizing m with
  | zero => exact ⟨m,rfl,.refl _ _ _,hdone fun p q hpq hq => hsorted p q hpq hq (by omega)⟩
  | succ j ih =>
    simp only [sink,place,compare_some (by omega : b + (j+1) < n) (by omega : b + j < n),bind_eq_bind,bind_some]
    split
    next hlt =>
      obtain ⟨m',hm',helems,hbelow⟩ := @swap_some first size n m (b+(j+1)) (b+j) (by omega) (by omega)
      have hat (k : ℕ) (hk : k ≠ j + 1) (hk' : k ≠ j) : elements size first m' (b+k) = elements size first m (b+k) := by
        rw [helems,Equiv.swap_apply_of_ne_of_ne (by omega) (by omega)]
      have hupper : elements size first m' (b+(j+1)) = elements size first m (b+j) := by rw [helems,Equiv.swap_apply_left]
      have hlower : elements size first m' (b+j) = elements size first m (b+(j+1)) := by rw [helems,Equiv.swap_apply_right]
      have hstep : Sorts size first b (b+top+1) m m' := .of_swap (by omega) (by omega) helems hbelow
      obtain ⟨m'',hm'',hsorts,hasc⟩ := @ih m' (by omega) fun p q hpq hq hne => by
        by_cases hq' : q = j + 1
        · subst hq'
          rw [hupper]
          by_cases hp : p = j
          · rw [hp,hlower]
            exact hlt.le
          · rw [hat p (by omega) hp]
            exact hsorted p j (by omega) (by omega) (by omega)
        · rw [hat q hq' hne]
          by_cases hp : p = j + 1
          · rw [hp,hupper]
            exact hsorted j q (by omega) hq hq'
          · by_cases hp' : p = j
            · rw [hp',hlower]
              exact hsorted (j+1) q (by omega) hq hq'
            · rw [hat p hp hp']
              exact hsorted p q hpq hq hq'
      refine ⟨m'',?_,hstep.trans hsorts,hasc⟩
      rw [hm',bind_some]
      exact hm''
    next hge =>
      refine ⟨m,rfl,.refl _ _ _,hdone fun p q hpq hq => ?_⟩
      by_cases hq' : q = j + 1
      · subst hq'
        have hle := h.le_of_not_neg hge
        by_cases hp : p = j
        · rw [hp]
          exact hle
        · exact h.trans _ _ _ (hsorted p j (by omega) (by omega) (by omega)) hle
      · exact hsorted p q hpq hq hq'

lemma insertionSort_spec {b k : ℕ} (hb : b + k ≤ n) : ∃ m', insertionSort first (first + n*size) cmp (first + b*size) m k = some m' ∧
    Sorts size first b (b+k) m m' ∧ Ascending cmp b (b+k) (elements size first m') := by
  induction k with
  | zero => exact ⟨m,rfl,.refl _ _ _,fun p q hp hpq hq => by omega⟩
  | succ k ih =>
    obtain ⟨m',hm',hsorts,hasc⟩ := ih (by omega)
    obtain ⟨m'',hm'',hsorts',hasc'⟩ := @sink_spec first size n cmp m' h b k k (Nat.le_refl k) (by omega)
      fun p q hpq hq hne => hasc _ _ (by omega) (by omega) (by omega)
    refine ⟨m'',?_,(hsorts.mono (Nat.le_refl b) (by omega)).trans hsorts',hasc'⟩
    rw [insertionSort,hm',bind_eq_bind,bind_some]
    exact hm''

omit h in
lemma scanUp_spec {b lo hi : ℕ} (hhi : b + hi < n) (hlo : lo ≤ hi + 1) : ∃ lo', scanUp first (first + n*size) cmp (first + b*size) m lo hi = some lo' ∧
    lo ≤ lo' ∧ lo' ≤ hi + 1 ∧ (∀ i, lo ≤ i → i < lo' → cmp (elements size first m (b+i)) (elements size first m b) ≤ 0) ∧
      (lo' ≤ hi → 0 < cmp (elements size first m (b+lo')) (elements size first m b)) := by
  induction hk : hi + 1 - lo generalizing lo with
  | zero =>
    refine ⟨lo,?_,Nat.le_refl _,hlo,fun i _ _ => by omega,fun _ => by omega⟩
    rw [scanUp,if_neg (by omega)]
  | succ k ih =>
    rw [scanUp,if_pos (by omega),place,compare_some (by omega) (by omega),bind_eq_bind,bind_some]
    split
    next hle =>
      obtain ⟨lo',hlo',hge,htop,hall,hstop⟩ := @ih (lo+1) (by omega) (by omega)
      refine ⟨lo',hlo',by omega,htop,fun i hi hlt => ?_,hstop⟩
      by_cases heq : i = lo
      · rw [heq]
        exact hle
      · exact hall i (by omega) hlt
    next hgt => exact ⟨lo,rfl,Nat.le_refl _,hlo,fun i _ _ => by omega,fun _ => not_le.mp hgt⟩

omit h in
lemma scanDown_spec {b lo hi : ℕ} (hhi : b + hi < n) (hpos : 0 < lo) (hlo : lo ≤ hi + 1) :
    ∃ hi', scanDown first (first + n*size) cmp (first + b*size) m lo hi = some hi' ∧
    hi' ≤ hi ∧ lo ≤ hi' + 1 ∧ (∀ i, hi' < i → i ≤ hi → 0 < cmp (elements size first m (b+i)) (elements size first m b)) ∧
      (lo ≤ hi' → cmp (elements size first m (b+hi')) (elements size first m b) ≤ 0) := by
  induction hi with
  | zero =>
    refine ⟨0,?_,Nat.le_refl 0,hlo,fun i _ _ => by omega,fun _ => by omega⟩
    rw [scanDown,if_neg (by omega)]
  | succ hi ih =>
    rw [scanDown]
    split
    next hin =>
      rw [place,compare_some (by omega) (by omega),bind_eq_bind,bind_some]
      split
      next hgt =>
        obtain ⟨hi',hhi',hle,hlo',hall,hstop⟩ := ih (by omega) hin
        refine ⟨hi',hhi',by omega,hlo',fun i hlt hle => ?_,hstop⟩
        by_cases heq : i = hi + 1
        · rw [heq]
          exact hgt
        · exact hall i hlt (by omega)
      next hle => exact ⟨hi+1,rfl,Nat.le_refl _,hlo,fun i _ _ => by omega,fun _ => not_lt.mp hle⟩
    next hout => exact ⟨hi+1,rfl,Nat.le_refl _,hlo,fun i _ _ => by omega,fun _ => by omega⟩

omit h in
lemma partition_spec {b k lo hi fuel : ℕ} (hk : b + k ≤ n) (hpos : 0 < lo) (hlo : lo ≤ hi + 1) (hhi : hi < k)
    (hfuel : hi + 1 - lo < fuel ∨ hi + 1 - lo ≤ fuel ∧ lo ≤ hi ∧ cmp (elements size first m (b+lo)) (elements size first m b) ≤ 0)
    (hsmall : ∀ i, 0 < i → i < lo → cmp (elements size first m (b+i)) (elements size first m b) ≤ 0)
    (hlarge : ∀ i, hi < i → i < k → 0 < cmp (elements size first m (b+i)) (elements size first m b)) :
    ∃ m' p, partition first (first + n*size) cmp (first + b*size) fuel m lo hi = some (m',p) ∧ p < k ∧ Sorts size first (b+1) (b+k) m m' ∧
      (∀ i, 0 < i → i ≤ p → cmp (elements size first m' (b+i)) (elements size first m' b) ≤ 0) ∧
        ∀ i, p < i → i < k → 0 < cmp (elements size first m' (b+i)) (elements size first m' b) := by
  induction fuel generalizing m lo hi with
  | zero => omega
  | succ fuel ih =>
    obtain ⟨lo',hup,hge,htop,hallUp,hstopUp⟩ := @scanUp_spec first size n cmp m b lo hi (by omega) hlo
    obtain ⟨hi',hdown,hle,hcross,hallDown,hstopDown⟩ := @scanDown_spec first size n cmp m b lo' hi (by omega) (by omega) htop
    have hsmall' (i : ℕ) (hi : 0 < i) (hlt : i < lo') : cmp (elements size first m (b+i)) (elements size first m b) ≤ 0 := by
      by_cases hin : i < lo
      · exact hsmall i hi hin
      · exact hallUp i (by omega) hlt
    have hlarge' (i : ℕ) (hgt : hi' < i) (hlt : i < k) : 0 < cmp (elements size first m (b+i)) (elements size first m b) := by
      by_cases hin : i ≤ hi
      · exact hallDown i hgt hin
      · exact hlarge i (by omega) hlt
    simp only [partition,hup,hdown,bind_eq_bind,bind_some]
    split
    next hdone => exact ⟨m,hi',rfl,by omega,.refl _ _ _,fun i hi hlt => hsmall' i hi (by omega),hlarge'⟩
    next hmore =>
      have hgt := hstopUp (by omega)
      have hle' := hstopDown (by omega)
      have hne : lo' ≠ hi' := by
        rintro rfl
        omega
      obtain ⟨m₁,hm₁,helems,hbelow⟩ := @swap_some first size n m (b+lo') (b+hi') (by omega) (by omega)
      have hpivot : elements size first m₁ b = elements size first m b := by
        rw [helems,Equiv.swap_apply_of_ne_of_ne (by omega) (by omega)]
      have hat (i : ℕ) (hi : i ≠ lo') (hi' : i ≠ hi') : elements size first m₁ (b+i) = elements size first m (b+i) := by
        rw [helems,Equiv.swap_apply_of_ne_of_ne (by omega) (by omega)]
      have hat_lo : elements size first m₁ (b+lo') = elements size first m (b+hi') := by rw [helems,Equiv.swap_apply_left]
      have hprogress : hi' + 1 - lo' ≤ fuel := by
        rcases hfuel with hfuel | ⟨hfuel,hin,hfirst⟩
        · omega
        · have : lo' ≠ lo := by
            rintro rfl
            omega
          omega
      obtain ⟨m',p,hm',hp,hsorts,hbefore,hbehind⟩ := @ih m₁ lo' hi' (by omega) (by omega) (by omega)
        (.inr ⟨hprogress,by omega,by rw [hat_lo,hpivot]; exact hle'⟩)
        (fun i hi hlt => by rw [hat i (by omega) (by omega),hpivot]; exact hsmall' i hi hlt)
        (fun i hi hlt => by rw [hat i (by omega) (by omega),hpivot]; exact hlarge' i hi hlt)
      refine ⟨m',p,?_,hp,(Sorts.of_swap (by omega) (by omega) helems hbelow).trans hsorts,hbefore,hbehind⟩
      rw [place,place,hm₁,bind_some]
      exact hm'

omit h in
lemma partition_succ {base fuel lo hi : ℕ} {r : Memory × ℕ} (hr : partition first n cmp base fuel m lo hi = some r) :
    partition first n cmp base (fuel+1) m lo hi = some r := by
  induction fuel generalizing m lo hi with
  | zero => exact absurd hr (by simp [partition])
  | succ fuel ih =>
    rw [partition] at hr ⊢
    simp only [bind_eq_bind,bind_eq_some_iff] at hr ⊢
    obtain ⟨lo',hup,hi',hdown,hrest⟩ := hr
    refine ⟨lo',hup,hi',hdown,?_⟩
    split at hrest
    next hdone => rwa [if_pos hdone]
    next hmore =>
      rw [if_neg hmore]
      obtain ⟨m',hm',hpart⟩ := Option.bind_eq_some_iff.mp hrest
      exact Option.bind_eq_some_iff.mpr ⟨m',hm',ih hpart⟩

omit h in
lemma quicksort_succ {base k fuel : ℕ} {m' : Memory} (hr : quicksort first n cmp fuel m base k = some m') :
    quicksort first n cmp (fuel+1) m base k = some m' := by
  induction fuel generalizing m m' base k with
  | zero => exact absurd hr (by simp [quicksort])
  | succ fuel ih =>
    rw [quicksort] at hr ⊢
    split at hr
    next hsmall => rwa [if_pos hsmall]
    next hlarge =>
      rw [if_neg hlarge]
      simp only [bind_eq_bind,bind_eq_some_iff] at hr ⊢
      obtain ⟨m₁,hm₁,r,hr,m₃,hm₃,m₄,hleft,hright⟩ := hr
      exact ⟨m₁,hm₁,r,partition_succ hr,m₃,hm₃,m₄,ih hleft,ih hright⟩

omit h in
lemma quicksort_mono {base k fuel fuel' : ℕ} {m' : Memory} (hr : quicksort first n cmp fuel m base k = some m') (hle : fuel ≤ fuel') :
    quicksort first n cmp fuel' m base k = some m' := by
  induction hle with
  | refl => exact hr
  | step _ ih => exact quicksort_succ ih

lemma quicksort_spec {b k fuel : ℕ} (hk : b + k ≤ n) (hfuel : k < fuel) :
    ∃ m', quicksort first (first + n*size) cmp fuel m (first + b*size) k = some m' ∧ Sorts size first b (b+k) m m' ∧
      Ascending cmp b (b+k) (elements size first m') := by
  induction fuel generalizing m b k with
  | zero => omega
  | succ fuel ih =>
    rw [quicksort]
    split
    next => exact insertionSort_spec h hk
    next hlarge =>
      dsimp only
      obtain ⟨m₁,hm₁,helems₁,hbelow₁⟩ := @swap_some first size n m b (b+k/2) (by omega) (by omega)
      have hs₁ : Sorts size first b (b+k) m m₁ := .of_swap (by omega) (by omega) helems₁ hbelow₁
      obtain ⟨m₂,p,hm₂,hp,hs₂,hbefore,hbehind⟩ := @partition_spec first size n cmp m₁ b k 1 (k-1) (fuel+1) hk (by omega) (by omega) (by omega)
        (.inl (by omega)) (fun i _ _ => by omega) (fun i _ _ => by omega)
      obtain ⟨m₃,hm₃,helems₃,hbelow₃⟩ := @swap_some first size n m₂ b (b+p) (by omega) (by omega)
      have hs₃ : Sorts size first b (b+k) m₂ m₃ := .of_swap (by omega) (by omega) helems₃ hbelow₃
      have hpivot : elements size first m₃ (b+p) = elements size first m₂ b := by rw [helems₃,Equiv.swap_apply_right]
      have hat (i : ℕ) (hi : i ≠ b) (hi' : i ≠ b + p) : elements size first m₃ i = elements size first m₂ i := by
        rw [helems₃,Equiv.swap_apply_of_ne_of_ne hi hi']
      obtain ⟨m₄,hm₄,hs₄,hasc₄⟩ := @ih m₃ b p (by omega) (by omega)
      obtain ⟨m₅,hm₅,hs₅,hasc₅⟩ := @ih m₄ (b+(p+1)) (k-p-1) (by omega) (by omega)
      rw [show b + (p+1) + (k-p-1) = b + k by omega] at hs₅ hasc₅
      refine ⟨m₅,?_,?_,?_⟩
      · simp only [place,hm₁,hm₂,hm₃,hm₄,hm₅,bind_eq_bind,bind_some]
      · exact (((hs₁.trans (hs₂.mono (by omega) (Nat.le_refl _))).trans hs₃).trans (hs₄.mono (Nat.le_refl b) (by omega))).trans
          (hs₅.mono (by omega) (Nat.le_refl _))
      · have hsmall : ∀ i, b ≤ i → i < b + p → cmp (elements size first m₄ i) (elements size first m₃ (b+p)) ≤ 0 := by
          refine hs₄.moved.all (p := fun x => cmp x (elements size first m₃ (b+p)) ≤ 0) fun i hi hlt => ?_
          rw [hpivot]
          by_cases hib : i = b
          · rw [hib,helems₃,Equiv.swap_apply_left]
            exact hbefore p (by omega) (Nat.le_refl p)
          · rw [hat i hib (by omega)]
            have := hbefore (i - b) (by omega) (by omega)
            rwa [show b + (i - b) = i by omega] at this
        have hlargeParts : ∀ i, b + (p+1) ≤ i → i < b + k → cmp (elements size first m₃ (b+p)) (elements size first m₅ i) ≤ 0 := by
          refine hs₅.moved.all (p := fun x => cmp (elements size first m₃ (b+p)) x ≤ 0) fun i hi hlt => ?_
          rw [hs₄.moved.outside (by omega),hpivot,hat i (by omega) (by omega)]
          have := hbehind (i - b) (by omega) (by omega)
          rw [show b + (i - b) = i by omega] at this
          exact h.flip_le this
        have hmid : elements size first m₅ (b+p) = elements size first m₃ (b+p) := by
          rw [hs₅.moved.outside (by omega),hs₄.moved.outside (by omega)]
        have hleft (i : ℕ) (hlt : i < b + p) : elements size first m₅ i = elements size first m₄ i := hs₅.moved.outside (by omega)
        refine @Ascending.join _ _ h b (b+p) (b+k) _ (fun i j hi hij hj => ?_) (by rwa [Nat.add_assoc]) (fun i hi hlt => ?_) fun i hlt hi => ?_
        · rw [hleft i (by omega),hleft j hj]
          exact hasc₄ i j hi hij hj
        · rw [hleft i hlt,hmid]
          exact hsmall i hi hlt
        · rw [hmid]
          exact hlargeParts i (by omega) hi

omit h in
lemma search_spec {key : Elem size → ℤ} {lo hi : ℕ} (hhi : hi ≤ n)
    (hsorted : ∀ i j, i < j → j < n → (key (elements size first m i) < 0 → key (elements size first m j) < 0) ∧
      (0 < key (elements size first m j) → 0 < key (elements size first m i)))
    (hout : ∀ i, i < n → key (elements size first m i) = 0 → lo ≤ i ∧ i < hi) :
    ∃ r, search first (first + n*size) key m first lo hi = some r ∧
      (∀ a, r = some a → ∃ i < n, a = first + i*size ∧ key (elements size first m i) = 0) ∧
        (r = none → ∀ i < n, key (elements size first m i) ≠ 0) := by
  induction hk : hi - lo using Nat.strong_induction_on generalizing lo hi with
  | h k ih =>
  rw [search]
  split
  next hlt =>
    dsimp only
    generalize hmid : lo + (hi - lo) / 2 = mid
    rw [element_some (by omega : mid < n),bind_some]
    split
    next hzero =>
      refine ⟨_,rfl,fun a ha => ⟨mid,by omega,(Option.some_inj.mp ha).symm,hzero⟩,fun hnone => absurd hnone (by simp)⟩
    next hne =>
      split
      next hneg =>
        refine ih _ ?_ (by omega) (fun i hi hzero => ⟨(hout i hi hzero).1,?_⟩) rfl
        · omega
        · by_contra hge
          by_cases heq : i = mid
          · rw [heq] at hzero
            exact hne hzero
          · have := (hsorted mid i (by omega) hi).1 hneg
            omega
      next hpos =>
        refine ih _ ?_ hhi (fun i hi hzero => ⟨?_,(hout i hi hzero).2⟩) rfl
        · omega
        · by_contra hge
          by_cases heq : i = mid
          · rw [heq] at hzero
            exact hne hzero
          · have := (hsorted i mid (by omega) (by omega)).2 (by omega)
            omega
  next hge =>
    refine ⟨none,rfl,fun a ha => absurd ha (by simp),fun _ i hi hzero => ?_⟩
    have := hout i hi hzero
    omega

end

/-- `qsort` comes to an end within the array and leaves its elements rearranged in ascending order; `bsearch` in
an ascending array finds an element that equals the key where there is one. An object has at least one byte. -/
theorem qsort_bsearch {size : ℕ} {cmp : Elem size → Elem size → ℤ} (h : TotalPreorder cmp) (base nmemb : ℕ) (m : Memory) :
    (∃ m', (∀ fuel, nmemb < fuel → qsort base (base + nmemb*size) fuel m (some base) nmemb (some cmp) = some m') ∧
      (∃ σ : Equiv.Perm (Fin nmemb), ∀ i : Fin nmemb, elements size base m' i = elements size base m (σ i)) ∧
        Ascending cmp 0 nmemb (elements size base m') ∧ ∀ a, a < base ∨ base + nmemb*size ≤ a → m' a = m a) ∧
    (0 < size → Ascending cmp 0 nmemb (elements size base m) → ∀ key : Elem size,
      ∃ r, bsearch base (base + nmemb*size) m key base nmemb (some cmp) = some r ∧
        (∀ a, r = some a → ∃ i < nmemb, a = base + i*size ∧ cmp key (elements size base m i) = 0) ∧
          (r = none → ∀ i < nmemb, cmp key (elements size base m i) ≠ 0)) := by
  have hrefl (x : Elem size) : cmp x x ≤ 0 := not_lt.mp fun hpos => by have := (h.flip x x).mpr hpos; omega
  constructor
  · by_cases hearly : nmemb ≤ 1 ∨ size = 0
    · refine ⟨m,fun fuel _ => if_pos hearly,⟨Equiv.refl _,fun _ => rfl⟩,fun i j _ hij hj => ?_,fun _ _ => rfl⟩
      rcases hearly with hone | rfl
      · omega
      · rw [Subsingleton.elim (elements 0 base m i) (elements 0 base m j)]
        exact hrefl _
    · obtain ⟨m',hm',hsorts,hasc⟩ := @quicksort_spec base size nmemb cmp m h 0 nmemb (nmemb+1) (by omega) (by omega)
      rw [Nat.zero_add] at hsorts hasc
      refine ⟨m',fun fuel hfuel => ?_,hsorts.moved.onFin,hasc,fun a ha => ?_⟩
      · rw [qsort,if_neg hearly]
        rw [Nat.zero_mul,Nat.add_zero] at hm'
        exact quicksort_mono hm' hfuel
      · rcases ha with hlt | hge
        · exact hsorts.below a hlt
        · have hsize : 0 < size := by omega
          have hindex : nmemb ≤ (a - base) / size := (Nat.le_div_iff_mul_le hsize).mpr (by omega)
          have heq := congrFun (hsorts.moved.outside (i := (a - base) / size) (.inr hindex)) ⟨(a - base) % size,Nat.mod_lt _ hsize⟩
          have hdiv := Nat.div_add_mod (a - base) size
          rw [Nat.mul_comm] at hdiv
          simp only [elements] at heq
          rwa [show base + (a - base) / size * size + (a - base) % size = a by omega] at heq
  · intro hsize hasc key
    by_cases hnone : nmemb = 0
    · exact ⟨none,if_pos (.inl hnone),fun a ha => absurd ha (by simp),fun _ i hi => by omega⟩
    · rw [bsearch,if_neg (by omega)]
      refine search_spec (Nat.le_refl _) (fun i j hij hj => ⟨fun hneg => ?_,fun hpos => ?_⟩) fun i hi _ => ⟨Nat.zero_le i,hi⟩
      · have hle := hasc i j (Nat.zero_le i) hij hj
        by_contra hge
        have := h.trans _ _ _ hle (h.le_of_not_neg hge)
        have := (h.flip _ _).mp hneg
        omega
      · have hle := hasc i j (Nat.zero_le i) hij hj
        by_contra hge
        have := h.trans _ _ _ (not_lt.mp hge) hle
        omega

def byteOrder (x y : Elem 1) : ℤ := (x 0).toNat - (y 0).toNat

lemma byteOrder_total : TotalPreorder byteOrder := by
  constructor
  · intro x y
    unfold byteOrder
    omega
  · intro x y z
    unfold byteOrder
    omega

theorem qsort_bsearch_bytes : ∃ m', qsort 4 (4 + 14*1) 15 (fun a => UInt8.ofNat (100 - a)) (some 4) 14 (some byteOrder) = some m' ∧
    Ascending byteOrder 0 14 (elements 1 4 m') := by
  obtain ⟨⟨m',hm',-,hasc,-⟩,-⟩ := qsort_bsearch byteOrder_total 4 14 fun a => UInt8.ofNat (100 - a)
  exact ⟨m',hm' 15 (by decide),hasc⟩

end VibeOS.Libc

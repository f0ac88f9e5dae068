import VibeOS.Widths
import Mathlib.Data.List.Lex
import Mathlib.Tactic.Cases

/-! The memory and string functions of `cstring.c`, one byte at a time. A memory keeps the addresses that were read and written. Loops up to a
terminator have fuel. -/
namespace VibeOS.CString
open List Option

structure Mem where
  byte : ℕ → UInt8
  reads : List ℕ
  writes : List ℕ

def Mem.load (m : Mem) (a : ℕ) : UInt8 × Mem := (m.byte a,{ m with reads := m.reads ++ [a] })
def Mem.store (m : Mem) (a : ℕ) (v : UInt8) : Mem := { m with byte := fun x => if x = a then v else m.byte x, writes := m.writes ++ [a] }

/-- An `int` as an `unsigned char`. -/
def uchar (c : ℤ) : UInt8 := UInt8.ofNat (c % 256).toNat

/-- `while (n--) *d++ = *s++` -/
def copyUp : ℕ → ℕ → ℕ → Mem → Mem
  | 0,_,_,m => m
  | n+1,d,s,m =>
    let (b,m) := m.load s
    copyUp n (d+1) (s+1) (m.store d b)

/-- `while (n--) *--d = *--s` -/
def copyDown : ℕ → ℕ → ℕ → Mem → Mem
  | 0,_,_,m => m
  | n+1,d,s,m =>
    let (b,m) := m.load (s-1)
    copyDown n (d-1) (s-1) (m.store (d-1) b)

/-- `while (n--) *d++ = v` -/
def fill : ℕ → ℕ → UInt8 → Mem → Mem
  | 0,_,_,m => m
  | n+1,d,v,m => fill n (d+1) v (m.store d v)

def memcpy (d s n : ℕ) (m : Mem) : ℕ × Mem := (d,copyUp n d s m)

def memmove (d s n : ℕ) (m : Mem) : ℕ × Mem :=
  if d = s ∨ n = 0 then (d,m)
  else if d < s then (d,copyUp n d s m)
  else (d,copyDown n (d+n) (s+n) m)

def memset (d : ℕ) (c : ℤ) (n : ℕ) (m : Mem) : ℕ × Mem := (d,fill n d (uchar c) m)

/-- `(int)*a - (int)*b` -/
def byteDiff (a b : ℕ) (m : Mem) : ℤ × Mem :=
  let (x,m) := m.load a
  let (y,m) := m.load b
  ((x.toNat : ℤ) - y.toNat,m)

def memcmp : ℕ → ℕ → ℕ → Mem → ℤ × Mem
  | _,_,0,m => (0,m)
  | a,b,n+1,m =>
    let (x,m) := m.load a
    let (y,m) := m.load b
    if x ≠ y then byteDiff a b m else memcmp (a+1) (b+1) n m

def strcmp : ℕ → ℕ → ℕ → Mem → Option (ℤ × Mem)
  | 0,_,_,_ => none
  | fuel+1,a,b,m =>
    let (x,m) := m.load a
    if x ≠ 0 then
      let (y,m) := m.load b
      if x = y then strcmp fuel (a+1) (b+1) m else some (byteDiff a b m)
    else some (byteDiff a b m)

def strncmp : ℕ → ℕ → ℕ → Mem → ℤ × Mem
  | _,_,0,m => (0,m)
  | a,b,n+1,m =>
    let (x,m) := m.load a
    if x ≠ 0 then
      let (y,m) := m.load b
      if x = y then strncmp (a+1) (b+1) n m else byteDiff a b m
    else byteDiff a b m

/-- `while ((*d++ = *s++)) { }` -/
def copyString : ℕ → ℕ → ℕ → Mem → Option Mem
  | 0,_,_,_ => none
  | fuel+1,d,s,m =>
    let (b,m) := m.load s
    if b ≠ 0 then copyString fuel (d+1) (s+1) (m.store d b) else some (m.store d b)

def strcpy (fuel d s : ℕ) (m : Mem) : Option (ℕ × Mem) := (copyString fuel d s m).map fun m => (d,m)

/-- `while (n && (*d++ = *s++)) { n--; }`: what is left of `n`, and `d`. -/
def copyBounded : ℕ → ℕ → ℕ → Mem → ℕ × ℕ × Mem
  | 0,d,_,m => (0,d,m)
  | n+1,d,s,m =>
    let (b,m) := m.load s
    if b ≠ 0 then copyBounded n (d+1) (s+1) (m.store d b) else (n+1,d+1,m.store d b)

def strncpy (d s n : ℕ) (m : Mem) : ℕ × Mem :=
  let (left,p,m) := copyBounded n d s m
  (d,fill left p 0 m)

/-- `while (*d) d++` -/
def stringEnd : ℕ → ℕ → Mem → Option (ℕ × Mem)
  | 0,_,_ => none
  | fuel+1,d,m =>
    let (b,m) := m.load d
    if b ≠ 0 then stringEnd fuel (d+1) m else some (d,m)

def strcat (fuel d s : ℕ) (m : Mem) : Option (ℕ × Mem) := do
  let (e,m) ← stringEnd fuel d m
  let m ← copyString fuel e s m
  return (d,m)

/-- A null pointer is `none`. -/
def strchr : ℕ → ℕ → ℤ → Mem → Option (Option ℕ × Mem)
  | 0,_,_,_ => none
  | fuel+1,s,c,m =>
    let (b,m) := m.load s
    if b ≠ 0 then if b = uchar c then some (some s,m) else strchr fuel (s+1) c m
    else some (if c = 0 then some s else none,m)

def strrchrLoop : ℕ → ℕ → ℤ → Option ℕ → Mem → Option (Option ℕ × Mem)
  | 0,_,_,_,_ => none
  | fuel+1,s,c,last,m =>
    let (b,m) := m.load s
    if b ≠ 0 then strrchrLoop fuel (s+1) c (if b = uchar c then some s else last) m
    else some (last,m)

def strrchr (fuel s : ℕ) (c : ℤ) (m : Mem) : Option (Option ℕ × Mem) := strrchrLoop fuel s c (if c = 0 then some s else none) m

/-- `while (*a && *b && *a == *b) { a++; b++; }`, and whether `*b` is the terminator then. -/
def matchHere : ℕ → ℕ → ℕ → Mem → Option (Bool × Mem)
  | 0,_,_,_ => none
  | fuel+1,a,b,m =>
    let (x,m) := m.load a
    if x ≠ 0 then
      let (y,m) := m.load b
      if y ≠ 0 ∧ x = y then matchHere fuel (a+1) (b+1) m else some (y = 0,m)
    else
      let (y,m) := m.load b
      some (y = 0,m)

def strstrLoop : ℕ → ℕ → ℕ → ℕ → Mem → Option (Option ℕ × Mem)
  | 0,_,_,_,_ => none
  | fuel+1,inner,h,n,m =>
    let (x,m) := m.load h
    if x ≠ 0 then do
      let (found,m) ← matchHere inner h n m
      if found then return (some h,m) else strstrLoop fuel inner (h+1) n m
    else some (none,m)

def strstr (fuel h n : ℕ) (m : Mem) : Option (Option ℕ × Mem) :=
  let (b,m) := m.load n
  if b = 0 then some (some h,m) else strstrLoop fuel fuel h n m


/-! What C99 says of the functions of `cstring.c`, and which of their calls do it. -/

/-- What a run read lies in `rd`, and what it wrote is `wr`. -/
structure Touches (m m' : Mem) (rd wr : ℕ → Prop) : Prop where
  reads : ∃ rs, m'.reads = m.reads ++ rs ∧ ∀ a ∈ rs, rd a
  writes : ∃ ws, m'.writes = m.writes ++ ws ∧ ∀ a, a ∈ ws ↔ wr a

structure ReadOnly (m m' : Mem) (rd : ℕ → Prop) : Prop where
  byte : m'.byte = m.byte
  writes : m'.writes = m.writes
  reads : ∃ rs, m'.reads = m.reads ++ rs ∧ ∀ a ∈ rs, rd a

lemma ReadOnly.refl (m : Mem) (rd : ℕ → Prop) : ReadOnly m m rd := ⟨rfl,rfl,[],(append_nil _).symm,nofun⟩

lemma ReadOnly.load (m : Mem) {a : ℕ} {rd : ℕ → Prop} (h : rd a) : ReadOnly m (m.load a).2 rd :=
  ⟨rfl,rfl,[a],rfl,fun _ hx => List.mem_singleton.mp hx ▸ h⟩

lemma ReadOnly.trans {m m' m'' : Mem} {rd : ℕ → Prop} (h : ReadOnly m m' rd) (h' : ReadOnly m' m'' rd) : ReadOnly m m'' rd := by
  obtain ⟨rs,hrs,hin⟩ := h.reads
  obtain ⟨rs',hrs',hin'⟩ := h'.reads
  refine ⟨h'.byte.trans h.byte,h'.writes.trans h.writes,rs ++ rs',?_,fun a ha => (List.mem_append.mp ha).elim (hin a) (hin' a)⟩
  rw [hrs',hrs,append_assoc]

lemma ReadOnly.mono {m m' : Mem} {rd rd' : ℕ → Prop} (h : ReadOnly m m' rd) (hsub : ∀ a, rd a → rd' a) : ReadOnly m m' rd' := by
  obtain ⟨rs,hrs,hin⟩ := h.reads
  exact ⟨h.byte,h.writes,rs,hrs,fun a ha => hsub a (hin a ha)⟩

lemma ReadOnly.touches {m m' : Mem} {rd : ℕ → Prop} (h : ReadOnly m m' rd) : Touches m m' rd fun _ => False :=
  ⟨h.reads,[],by rw [h.writes,append_nil],fun _ => ⟨nofun,nofun⟩⟩

lemma byteDiff_readOnly (m : Mem) {a b : ℕ} {rd : ℕ → Prop} (ha : rd a) (hb : rd b) : ReadOnly m (byteDiff a b m).2 rd :=
  (ReadOnly.load m ha).trans (.load _ hb)

/-- A string of `l` characters. -/
structure StrAt (b : ℕ → UInt8) (s l : ℕ) : Prop where
  nonzero : ∀ i < l, b (s+i) ≠ 0
  stop : b (s+l) = 0

/-- An array of `n` characters, of which `l` are before the terminator. -/
structure StrnAt (b : ℕ → UInt8) (s n l : ℕ) : Prop where
  le : l ≤ n
  nonzero : ∀ i < l, b (s+i) ≠ 0
  stop : l < n → b (s+l) = 0

lemma StrAt.bounded {b : ℕ → UInt8} {s l n : ℕ} (h : StrAt b s l) (hn : l ≤ n) : StrnAt b s n l := ⟨hn,h.nonzero,fun _ => h.stop⟩

lemma StrAt.congr {b b' : ℕ → UInt8} {s l : ℕ} (h : StrAt b s l) (hsame : ∀ i ≤ l, b' (s+i) = b (s+i)) : StrAt b' s l :=
  ⟨fun i hi => by rw [hsame i hi.le]; exact h.nonzero i hi,by rw [hsame l (Nat.le_refl l)]; exact h.stop⟩

lemma StrAt.tail {b : ℕ → UInt8} {s l : ℕ} (h : StrAt b s (l+1)) : StrAt b (s+1) l :=
  ⟨fun i hi => by rw [Nat.add_assoc,Nat.add_comm 1]; exact h.nonzero (i+1) (by omega),by rw [Nat.add_assoc,Nat.add_comm 1]; exact h.stop⟩

lemma StrnAt.tail {b : ℕ → UInt8} {s n l : ℕ} (h : StrnAt b s (n+1) (l+1)) : StrnAt b (s+1) n l :=
  ⟨by have := h.le; omega,fun i hi => by rw [Nat.add_assoc,Nat.add_comm 1]; exact h.nonzero (i+1) (by omega),
    fun hl => by rw [Nat.add_assoc,Nat.add_comm 1]; exact h.stop (by omega)⟩

lemma StrnAt.cases {b : ℕ → UInt8} {s n l : ℕ} (h : StrnAt b s (n+1) l) : (l = 0 ∧ b s = 0) ∨ ∃ k, l = k + 1 ∧ b s ≠ 0 := by
  cases l with
  | zero => exact .inl ⟨rfl,h.stop (Nat.succ_pos n)⟩
  | succ k => exact .inr ⟨k,rfl,h.nonzero 0 (Nat.succ_pos k)⟩

def bytesAt (b : ℕ → UInt8) (s l : ℕ) : List UInt8 := (List.range l).map fun i => b (s+i)

lemma bytesAt_succ (b : ℕ → UInt8) (s l : ℕ) : bytesAt b s (l+1) = b s :: bytesAt b (s+1) l := by
  unfold bytesAt
  rw [range_succ_eq_map,map_cons,List.map_map,Nat.add_zero]
  exact congrArg _ (map_congr_left fun i _ => congrArg b (by simp only [Nat.succ_eq_add_one]; omega))

/-- `r` has the sign of the comparison of the characters as `unsigned char`. -/
def Order (r : ℤ) (xs ys : List UInt8) : Prop := (r < 0 ↔ xs < ys) ∧ (r = 0 ↔ xs = ys) ∧ (0 < r ↔ ys < xs)

lemma order_nil : Order 0 [] [] := ⟨⟨nofun,fun h => absurd h (not_lt_nil _)⟩,⟨fun _ => rfl,fun _ => rfl⟩,⟨nofun,fun h => absurd h (not_lt_nil _)⟩⟩

lemma order_cons {r : ℤ} {xs ys : List UInt8} (x : UInt8) (h : Order r xs ys) : Order r (x :: xs) (x :: ys) := by
  obtain ⟨hlt,heq,hgt⟩ := h
  simp [Order,hlt,heq,hgt]

lemma order_diff {x y : UInt8} (xs ys : List UInt8) (h : x ≠ y) : Order ((x.toNat : ℤ) - y.toNat) (x :: xs) (y :: ys) := by
  have hne : x.toNat ≠ y.toNat := fun he => h (UInt8.toNat_inj.mp he)
  unfold Order
  rw [cons_lt_cons_iff,cons_lt_cons_iff,UInt8.lt_iff_toNat_lt,UInt8.lt_iff_toNat_lt]
  refine ⟨?_,?_,?_⟩
  · exact ⟨fun hr => .inl (by omega),fun hr => hr.elim (fun hlt => by omega) fun he => absurd he.1 h⟩
  · exact ⟨fun hr => absurd (by omega) hne,fun he => absurd (List.cons.inj he).1 h⟩
  · exact ⟨fun hr => .inl (by omega),fun hr => hr.elim (fun hlt => by omega) fun he => absurd he.1 h.symm⟩

lemma order_stop {x : UInt8} (h : x ≠ 0) (xs : List UInt8) : Order ((x.toNat : ℤ) - (0 : UInt8).toNat) (x :: xs) [] ∧
    Order (((0 : UInt8).toNat : ℤ) - x.toNat) [] (x :: xs) := by
  have hpos : 0 < x.toNat := Nat.pos_of_ne_zero fun he => h (UInt8.toNat_inj.mp he)
  have hzero : (0 : UInt8).toNat = 0 := rfl
  have hlt : [] < x :: xs := nil_lt_cons x xs
  rw [hzero]
  refine ⟨⟨?_,?_,?_⟩,?_,?_,?_⟩
  · exact ⟨fun hr => by omega,fun hr => absurd hr (not_lt_nil _)⟩
  · exact ⟨fun hr => by omega,nofun⟩
  · exact ⟨fun _ => hlt,fun _ => by omega⟩
  · exact ⟨fun _ => hlt,fun _ => by omega⟩
  · exact ⟨fun hr => by omega,nofun⟩
  · exact ⟨fun hr => by omega,fun hr => absurd hr (not_lt_nil _)⟩

lemma order_first {b : ℕ → UInt8} {a c n la lc : ℕ} (ha : StrnAt b a (n+1) la) (hc : StrnAt b c (n+1) lc) (h : b a = 0 ∨ b a ≠ b c) :
    Order ((b a).toNat - (b c).toNat) (bytesAt b a la) (bytesAt b c lc) := by
  rcases ha.cases with ⟨rfl,ha0⟩ | ⟨k,rfl,ha0⟩ <;> rcases hc.cases with ⟨rfl,hc0⟩ | ⟨j,rfl,hc0⟩
  · rw [ha0,hc0]
    exact order_nil
  · rw [ha0,bytesAt_succ]
    exact (order_stop hc0 _).2
  · rw [hc0,bytesAt_succ]
    exact (order_stop ha0 _).1
  · rw [bytesAt_succ,bytesAt_succ]
    exact order_diff _ _ (h.resolve_left ha0)

lemma strncmp_spec {n : ℕ} {a c la lc : ℕ} {m : Mem} (ha : StrnAt m.byte a n la) (hc : StrnAt m.byte c n lc) :
    Order (strncmp a c n m).1 (bytesAt m.byte a la) (bytesAt m.byte c lc) ∧
      ReadOnly m (strncmp a c n m).2 fun x => (a ≤ x ∧ x ≤ a + la ∧ x < a + n) ∨ (c ≤ x ∧ x ≤ c + lc ∧ x < c + n) := by
  induction n generalizing a c la lc m with
  | zero =>
    obtain rfl : la = 0 := Nat.le_zero.mp ha.le
    obtain rfl : lc = 0 := Nat.le_zero.mp hc.le
    exact ⟨order_nil,.refl m _⟩
  | succ n ih =>
    have hina : (a ≤ a ∧ a ≤ a + la ∧ a < a + (n+1)) ∨ (c ≤ a ∧ a ≤ c + lc ∧ a < c + (n+1)) := .inl (by omega)
    have hinc : (a ≤ c ∧ c ≤ a + la ∧ c < a + (n+1)) ∨ (c ≤ c ∧ c ≤ c + lc ∧ c < c + (n+1)) := .inr (by omega)
    unfold strncmp
    dsimp only [Mem.load]
    by_cases ha0 : m.byte a = 0
    · rw [if_neg (not_not.mpr ha0)]
      exact ⟨order_first ha hc (.inl ha0),(ReadOnly.load m hina).trans (byteDiff_readOnly _ hina hinc)⟩
    rw [if_pos ha0]
    by_cases hne : m.byte a = m.byte c
    · rw [if_pos hne]
      obtain ⟨k,rfl⟩ : ∃ k, la = k + 1 := ha.cases.elim (fun h => absurd h.2 ha0) fun ⟨k,h,_⟩ => ⟨k,h⟩
      obtain ⟨j,rfl⟩ : ∃ j, lc = j + 1 := hc.cases.elim (fun h => absurd (hne.trans h.2) ha0) fun ⟨j,h,_⟩ => ⟨j,h⟩
      obtain ⟨horder,hread⟩ := @ih (a+1) (c+1) k j ((m.load a).2.load c).2 ha.tail hc.tail
      refine ⟨?_,((ReadOnly.load m hina).trans (.load _ hinc)).trans (hread.mono fun x hx => ?_)⟩
      · rw [bytesAt_succ,bytesAt_succ,hne]
        exact order_cons _ horder
      · omega
    · rw [if_neg hne]
      exact ⟨order_first ha hc (.inr hne),((ReadOnly.load m hina).trans (.load _ hinc)).trans (byteDiff_readOnly _ hina hinc)⟩

lemma strcmp_eq {fuel a c la : ℕ} {m : Mem} (ha : StrAt m.byte a la) (hfuel : la < fuel) : strcmp fuel a c m = some (strncmp a c fuel m) := by
  induction fuel generalizing a c la m with
  | zero => omega
  | succ fuel ih =>
    unfold strcmp strncmp
    dsimp only [Mem.load]
    split
    · rename_i ha0
      split
      · cases la with
        | zero => exact absurd ha.stop ha0
        | succ k => exact ih ha.tail (by omega)
      · rfl
    · rfl

lemma memcmp_spec {n a c : ℕ} {m : Mem} : Order (memcmp a c n m).1 (bytesAt m.byte a n) (bytesAt m.byte c n) ∧
    ReadOnly m (memcmp a c n m).2 fun x => (a ≤ x ∧ x < a + n) ∨ (c ≤ x ∧ x < c + n) := by
  induction n generalizing a c m with
  | zero => exact ⟨order_nil,.refl m _⟩
  | succ n ih =>
    have hina : (a ≤ a ∧ a < a + (n+1)) ∨ (c ≤ a ∧ a < c + (n+1)) := .inl (by omega)
    have hinc : (a ≤ c ∧ c < a + (n+1)) ∨ (c ≤ c ∧ c < c + (n+1)) := .inr (by omega)
    have hloads : ReadOnly m ((m.load a).2.load c).2 fun x => (a ≤ x ∧ x < a + (n+1)) ∨ (c ≤ x ∧ x < c + (n+1)) :=
      (ReadOnly.load m hina).trans (.load _ hinc)
    unfold memcmp
    dsimp only [Mem.load]
    rw [bytesAt_succ,bytesAt_succ]
    by_cases hne : m.byte a = m.byte c
    · rw [if_neg (not_not.mpr hne),hne]
      obtain ⟨horder,hread⟩ := @ih (a+1) (c+1) ((m.load a).2.load c).2
      exact ⟨order_cons _ horder,hloads.trans (hread.mono fun x hx => by omega)⟩
    · rw [if_pos hne]
      exact ⟨order_diff _ _ hne,hloads.trans (byteDiff_readOnly _ hina hinc)⟩

/-- `r` points to the first `v` of the string, its terminator counted in. -/
def First (b : ℕ → UInt8) (s l : ℕ) (v : UInt8) (r : Option ℕ) : Prop :=
  (∃ i ≤ l, r = some (s+i) ∧ b (s+i) = v ∧ ∀ j < i, b (s+j) ≠ v) ∨ (r = none ∧ ∀ i ≤ l, b (s+i) ≠ v)

/-- `r` points to the last one. -/
def Last (b : ℕ → UInt8) (s l : ℕ) (v : UInt8) (r : Option ℕ) : Prop :=
  (∃ i ≤ l, r = some (s+i) ∧ b (s+i) = v ∧ ∀ j ≤ l, i < j → b (s+j) ≠ v) ∨ (r = none ∧ ∀ i ≤ l, b (s+i) ≠ v)

lemma uchar_eq_zero (c : ℤ) : uchar c = 0 ↔ c % 256 = 0 := by
  have hlt : (c % 256).toNat < 256 := by omega
  unfold uchar
  rw [← UInt8.toNat_inj,UInt8.toNat_ofNat',Nat.mod_eq_of_lt hlt]
  exact ⟨fun h => by have h' : (c % 256).toNat = 0 := h; omega,fun h => by rw [h]; rfl⟩

lemma strchr_spec {fuel s l : ℕ} (c : ℤ) {m : Mem} (hs : StrAt m.byte s l) (hfuel : l < fuel) :
    ∃ r m', strchr fuel s c m = some (r,m') ∧ ReadOnly m m' (fun x => s ≤ x ∧ x ≤ s + l) ∧
      ((∃ i < l, r = some (s+i) ∧ m.byte (s+i) = uchar c ∧ ∀ j < i, m.byte (s+j) ≠ uchar c) ∨
        ((∀ i < l, m.byte (s+i) ≠ uchar c) ∧ r = if c = 0 then some (s+l) else none)) := by
  induction fuel generalizing s l m with
  | zero => omega
  | succ fuel ih =>
    have hload : ReadOnly m (m.load s).2 fun x => s ≤ x ∧ x ≤ s + l := .load m (by omega)
    unfold strchr
    cases l with
    | zero =>
      have h0 : m.byte s = 0 := hs.stop
      dsimp only [Mem.load]
      rw [if_neg (not_not.mpr h0)]
      exact ⟨_,_,rfl,hload,.inr ⟨nofun,rfl⟩⟩
    | succ l =>
      have h0 : m.byte s ≠ 0 := hs.nonzero 0 (Nat.succ_pos l)
      dsimp only [Mem.load]
      rw [if_pos h0]
      by_cases hfound : m.byte s = uchar c
      · rw [if_pos hfound]
        exact ⟨_,_,rfl,hload,.inl ⟨0,Nat.succ_pos l,rfl,hfound,nofun⟩⟩
      · rw [if_neg hfound]
        obtain ⟨r,m',hrun,hread,hcase⟩ := @ih (s+1) l (m.load s).2 hs.tail (by omega)
        refine ⟨r,m',hrun,hload.trans (hread.mono fun x hx => by omega),?_⟩
        have hshift (i : ℕ) : s + 1 + i = s + (i + 1) := by omega
        rcases hcase with ⟨i,hi,hr,hat,hbefore⟩ | ⟨hnone,hr⟩
        · refine .inl ⟨i+1,by omega,by rw [← hshift]; exact hr,by rw [← hshift]; exact hat,fun j hj => ?_⟩
          cases j with
          | zero => exact hfound
          | succ j => rw [← hshift]; exact hbefore j (by omega)
        · refine .inr ⟨fun j hj => ?_,by rw [← hshift]; exact hr⟩
          cases j with
          | zero => exact hfound
          | succ j => rw [← hshift]; exact hnone j (by omega)

lemma strrchrLoop_spec {fuel s l : ℕ} (c : ℤ) (last : Option ℕ) {m : Mem} (hs : StrAt m.byte s l) (hfuel : l < fuel) :
    ∃ r m', strrchrLoop fuel s c last m = some (r,m') ∧ ReadOnly m m' (fun x => s ≤ x ∧ x ≤ s + l) ∧
      ((∃ i < l, r = some (s+i) ∧ m.byte (s+i) = uchar c ∧ ∀ j < l, i < j → m.byte (s+j) ≠ uchar c) ∨
        ((∀ i < l, m.byte (s+i) ≠ uchar c) ∧ r = last)) := by
  induction fuel generalizing s l last m with
  | zero => omega
  | succ fuel ih =>
    have hload : ReadOnly m (m.load s).2 fun x => s ≤ x ∧ x ≤ s + l := .load m (by omega)
    unfold strrchrLoop
    cases l with
    | zero =>
      have h0 : m.byte s = 0 := hs.stop
      dsimp only [Mem.load]
      rw [if_neg (not_not.mpr h0)]
      exact ⟨_,_,rfl,hload,.inr ⟨nofun,rfl⟩⟩
    | succ l =>
      have h0 : m.byte s ≠ 0 := hs.nonzero 0 (Nat.succ_pos l)
      dsimp only [Mem.load]
      rw [if_pos h0]
      obtain ⟨r,m',hrun,hread,hcase⟩ := @ih (s+1) l (if m.byte s = uchar c then some s else last) (m.load s).2 hs.tail (by omega)
      refine ⟨r,m',hrun,hload.trans (hread.mono fun x hx => by omega),?_⟩
      have hshift (i : ℕ) : s + 1 + i = s + (i + 1) := by omega
      rcases hcase with ⟨i,hi,hr,hat,hafter⟩ | ⟨hnone,hr⟩
      · refine .inl ⟨i+1,by omega,by rw [← hshift]; exact hr,by rw [← hshift]; exact hat,fun j hj hij => ?_⟩
        obtain ⟨j,rfl⟩ : ∃ k, j = k + 1 := ⟨j-1,by omega⟩
        rw [← hshift]
        exact hafter j (by omega) (by omega)
      · have hrest (j : ℕ) (hj : j < l) : m.byte (s + (j+1)) ≠ uchar c := by
          rw [← hshift]
          exact hnone j hj
        by_cases hfound : m.byte s = uchar c
        · rw [if_pos hfound] at hr
          refine .inl ⟨0,Nat.succ_pos l,hr,hfound,fun j hj hpos => ?_⟩
          obtain ⟨j,rfl⟩ : ∃ k, j = k + 1 := ⟨j-1,by omega⟩
          exact hrest j (by omega)
        · rw [if_neg hfound] at hr
          refine .inr ⟨fun j hj => ?_,hr⟩
          cases j with
          | zero => exact hfound
          | succ j => exact hrest j (by omega)

/-- The `k` characters at `n` stand at place `i` of the string at `h`. -/
def Occurs (b : ℕ → UInt8) (h n k i : ℕ) : Prop := ∀ j < k, b (h+i+j) = b (n+j)

/-- `r` points to the first place where they do. -/
def FirstMatch (b : ℕ → UInt8) (h l n k : ℕ) (r : Option ℕ) : Prop :=
  (∃ i, i + k ≤ l ∧ r = some (h+i) ∧ Occurs b h n k i ∧ ∀ j < i, ¬ Occurs b h n k j) ∨ (r = none ∧ ∀ i, i + k ≤ l → ¬ Occurs b h n k i)

lemma matchHere_spec {fuel a n la k : ℕ} {m : Mem} (ha : StrAt m.byte a la) (hn : StrAt m.byte n k) (hfuel : la < fuel) :
    ∃ found m', matchHere fuel a n m = some (found,m') ∧ ReadOnly m m' (fun x => (a ≤ x ∧ x ≤ a + la) ∨ (n ≤ x ∧ x ≤ n + k)) ∧
      (found = true ↔ k ≤ la ∧ Occurs m.byte a n k 0) := by
  induction fuel generalizing a n la k m with
  | zero => omega
  | succ fuel ih =>
    have hina : (a ≤ a ∧ a ≤ a + la) ∨ (n ≤ a ∧ a ≤ n + k) := .inl (by omega)
    have hinn : (a ≤ n ∧ n ≤ a + la) ∨ (n ≤ n ∧ n ≤ n + k) := .inr (by omega)
    have hloads : ReadOnly m ((m.load a).2.load n).2 fun x => (a ≤ x ∧ x ≤ a + la) ∨ (n ≤ x ∧ x ≤ n + k) :=
      (ReadOnly.load m hina).trans (.load _ hinn)
    unfold matchHere
    dsimp only [Mem.load]
    cases k with
    | zero =>
      have hn0 : m.byte n = 0 := hn.stop
      have hresult : decide (m.byte n = 0) = true ↔ 0 ≤ la ∧ Occurs m.byte a n 0 0 := ⟨fun _ => ⟨Nat.zero_le la,nofun⟩,fun _ => decide_eq_true hn0⟩
      split
      · rw [if_neg (fun h => h.1 hn0)]
        exact ⟨_,_,rfl,hloads,hresult⟩
      · exact ⟨_,_,rfl,hloads,hresult⟩
    | succ k =>
      have hn0 : m.byte n ≠ 0 := hn.nonzero 0 (Nat.succ_pos k)
      have hwrong : m.byte a ≠ m.byte n → (decide (m.byte n = 0) = true ↔ k + 1 ≤ la ∧ Occurs m.byte a n (k+1) 0) := fun hne =>
        ⟨fun h => absurd (of_decide_eq_true h) hn0,fun h => absurd (h.2 0 (Nat.succ_pos k)) hne⟩
      cases la with
      | zero =>
        have ha0 : m.byte a = 0 := ha.stop
        rw [if_neg (not_not.mpr ha0)]
        exact ⟨_,_,rfl,hloads,hwrong fun h => hn0 (h ▸ ha0)⟩
      | succ la =>
        have ha0 : m.byte a ≠ 0 := ha.nonzero 0 (Nat.succ_pos la)
        rw [if_pos ha0]
        by_cases heq : m.byte a = m.byte n
        · rw [if_pos ⟨hn0,heq⟩]
          obtain ⟨found,m',hrun,hread,hfound⟩ := @ih (a+1) (n+1) la k ((m.load a).2.load n).2 ha.tail hn.tail (by omega)
          refine ⟨found,m',hrun,hloads.trans (hread.mono fun x hx => by omega),hfound.trans ⟨fun h => ⟨by omega,fun j hj => ?_⟩,fun h =>
            ⟨by omega,fun j hj => ?_⟩⟩⟩
          · cases j with
            | zero => exact heq
            | succ j =>
              have hat : m.byte (a + 1 + 0 + j) = m.byte (n + 1 + j) := h.2 j (by omega)
              rw [show a + 0 + (j+1) = a + 1 + 0 + j by omega,show n + (j+1) = n + 1 + j by omega]
              exact hat
          · have hat : m.byte (a + 0 + (j+1)) = m.byte (n + (j+1)) := h.2 (j+1) (by omega)
            rw [show a + 0 + (j+1) = a + 1 + 0 + j by omega,show n + (j+1) = n + 1 + j by omega] at hat
            exact hat
        · rw [if_neg (fun h => heq h.2)]
          exact ⟨_,_,rfl,hloads,hwrong heq⟩

lemma strstrLoop_spec {fuel inner h n l k : ℕ} {m : Mem} (hh : StrAt m.byte h l) (hn : StrAt m.byte n k) (hk : 0 < k) (hfuel : l < fuel)
    (hinner : l < inner) : ∃ r m', strstrLoop fuel inner h n m = some (r,m') ∧
      ReadOnly m m' (fun x => (h ≤ x ∧ x ≤ h + l) ∨ (n ≤ x ∧ x ≤ n + k)) ∧ FirstMatch m.byte h l n k r := by
  induction fuel generalizing h l m with
  | zero => omega
  | succ fuel ih =>
    have hload : ReadOnly m (m.load h).2 fun x => (h ≤ x ∧ x ≤ h + l) ∨ (n ≤ x ∧ x ≤ n + k) := .load m (.inl (by omega))
    unfold strstrLoop
    dsimp only [Mem.load]
    cases l with
    | zero =>
      have h0 : m.byte h = 0 := hh.stop
      rw [if_neg (not_not.mpr h0)]
      exact ⟨_,_,rfl,hload,.inr ⟨rfl,fun i hi => by omega⟩⟩
    | succ l =>
      have h0 : m.byte h ≠ 0 := hh.nonzero 0 (Nat.succ_pos l)
      obtain ⟨found,m',hrun,hread,hfound⟩ := @matchHere_spec inner h n (l+1) k (m.load h).2 hh hn hinner
      dsimp only [Mem.load] at hrun
      rw [if_pos h0,hrun]
      dsimp only [bind_eq_bind,bind_some]
      have hhere := hload.trans hread
      cases found with
      | true =>
        obtain ⟨hle,hocc⟩ := hfound.mp rfl
        exact ⟨_,_,rfl,hhere,.inl ⟨0,by omega,rfl,hocc,nofun⟩⟩
      | false =>
        have hbyte : m'.byte = m.byte := hread.byte
        have hnot (hle : k ≤ l + 1) : ¬ Occurs m.byte h n k 0 := fun hocc => nomatch hfound.mpr ⟨hle,hocc⟩
        obtain ⟨r,m'',hrun',hread',hfirst⟩ := @ih (h+1) l m' (by rw [hbyte]; exact hh.tail) (by rw [hbyte]; exact hn) (by omega) (by omega)
        refine ⟨r,m'',hrun',hhere.trans (hread'.mono fun x hx => by omega),?_⟩
        have hshift (i : ℕ) : Occurs m'.byte (h+1) n k i ↔ Occurs m.byte h n k (i+1) := by
          unfold Occurs
          rw [hbyte,show h + 1 + i = h + (i + 1) by omega]
        rcases hfirst with ⟨i,hi,hr,hocc,hbefore⟩ | ⟨hr,hnone⟩
        · refine .inl ⟨i+1,by omega,by rw [hr]; exact congrArg some (by omega),(hshift i).mp hocc,fun j hj => ?_⟩
          cases j with
          | zero => exact hnot (by omega)
          | succ j => exact fun h => hbefore j (by omega) ((hshift j).mpr h)
        · refine .inr ⟨hr,fun j hj => ?_⟩
          cases j with
          | zero => exact hnot (by omega)
          | succ j => exact fun h => hnone j (by omega) ((hshift j).mpr h)

lemma strstr_spec {fuel h n l k : ℕ} {m : Mem} (hh : StrAt m.byte h l) (hn : StrAt m.byte n k) (hfuel : l < fuel) :
    ∃ r m', strstr fuel h n m = some (r,m') ∧ ReadOnly m m' (fun x => (h ≤ x ∧ x ≤ h + l) ∨ (n ≤ x ∧ x ≤ n + k)) ∧
      FirstMatch m.byte h l n k r := by
  have hload : ReadOnly m (m.load n).2 fun x => (h ≤ x ∧ x ≤ h + l) ∨ (n ≤ x ∧ x ≤ n + k) := .load m (.inr (by omega))
  unfold strstr
  dsimp only [Mem.load]
  cases k with
  | zero =>
    have hn0 : m.byte n = 0 := hn.stop
    rw [if_pos hn0]
    exact ⟨_,_,rfl,hload,.inl ⟨0,by omega,rfl,nofun,nofun⟩⟩
  | succ k =>
    have hn0 : m.byte n ≠ 0 := hn.nonzero 0 (Nat.succ_pos k)
    rw [if_neg hn0]
    obtain ⟨r,m',hrun,hread,hfirst⟩ := @strstrLoop_spec fuel fuel h n l (k+1) (m.load n).2 hh hn (Nat.succ_pos k) hfuel hfuel
    exact ⟨r,m',hrun,hload.trans hread,hfirst⟩

end VibeOS.CString

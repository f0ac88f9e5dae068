import VibeOS.Libc.CString
import Mathlib.Data.List.Range

/-! The bytes that the functions of `cstring.c` write, and which calls of all of them are as C99 says. -/
namespace VibeOS.CString
open List Option

/-- `n` bytes at `s` copied to `d`. -/
def copied (b : ℕ → UInt8) (d s n : ℕ) : ℕ → UInt8 := fun x => if d ≤ x ∧ x < d + n then b (s + (x - d)) else b x

def filled (b : ℕ → UInt8) (d n : ℕ) (v : UInt8) : ℕ → UInt8 := fun x => if d ≤ x ∧ x < d + n then v else b x

/-- The ranges of `n` bytes at `a` and of `k` bytes at `b` do not meet. -/
def Apart (a n b k : ℕ) : Prop := a + n ≤ b ∨ b + k ≤ a

lemma copied_zero (b : ℕ → UInt8) (d s : ℕ) : copied b d s 0 = b := funext fun x => if_neg (by omega)

lemma copied_succ {b : ℕ → UInt8} {d s n : ℕ} (h : d ≤ s ∨ s + (n+1) ≤ d) :
    copied (fun x => if x = d then b s else b x) (d+1) (s+1) n = copied b d s (n+1) := by
  funext x
  unfold copied
  dsimp only
  rcases Nat.lt_trichotomy x d with hx | rfl | hx
  · rw [if_neg (by omega),if_neg (by omega),if_neg (by omega)]
  · rw [if_neg (by omega),if_pos rfl,if_pos (by omega),Nat.sub_self,Nat.add_zero]
  · by_cases hin : x < d + (n+1)
    · rw [if_pos (by omega),if_neg (by omega),if_pos (by omega),show s + 1 + (x - (d+1)) = s + (x - d) by omega]
    · rw [if_neg (by omega),if_neg (by omega),if_neg (by omega)]

lemma copied_last {b : ℕ → UInt8} {d s n : ℕ} (h : s ≤ d) :
    copied (fun x => if x = d + n then b (s+n) else b x) d s n = copied b d s (n+1) := by
  funext x
  unfold copied
  dsimp only
  by_cases hlast : x = d + n
  · subst hlast
    rw [if_neg (by omega),if_pos rfl,if_pos (by omega),Nat.add_sub_cancel_left]
  · by_cases hin : d ≤ x ∧ x < d + n
    · rw [if_pos hin,if_neg (by omega),if_pos (by omega)]
    · rw [if_neg hin,if_neg hlast,if_neg (by omega)]

lemma filled_succ (b : ℕ → UInt8) (d n : ℕ) (v : UInt8) : filled (fun x => if x = d then v else b x) (d+1) n v = filled b d (n+1) v := by
  funext x
  unfold filled
  dsimp only
  rcases Nat.lt_trichotomy x d with hx | rfl | hx
  · rw [if_neg (by omega),if_neg (by omega),if_neg (by omega)]
  · rw [if_neg (by omega),if_pos rfl,if_pos (by omega)]
  · by_cases hin : x < d + (n+1)
    · rw [if_pos (by omega),if_pos (by omega)]
    · rw [if_neg (by omega),if_neg (by omega),if_neg (by omega)]

lemma append_range (rs : List ℕ) (a n : ℕ) : rs ++ [a] ++ range' (a+1) n = rs ++ range' a (n+1) := by
  rw [append_assoc]
  rfl

lemma copyUp_spec {n d s : ℕ} {m : Mem} (h : d ≤ s ∨ s + n ≤ d) :
    copyUp n d s m = ⟨copied m.byte d s n,m.reads ++ range' s n,m.writes ++ range' d n⟩ := by
  induction n generalizing d s m with
  | zero =>
    rw [copied_zero]
    simp [copyUp]
  | succ n ih =>
    rw [copyUp]
    dsimp only [Mem.load,Mem.store]
    rw [ih (by omega)]
    dsimp only
    rw [copied_succ h,append_range,append_range]

lemma copyDown_spec {n d s : ℕ} {m : Mem} (h : s ≤ d) :
    copyDown n (d+n) (s+n) m = ⟨copied m.byte d s n,m.reads ++ (range' s n).reverse,m.writes ++ (range' d n).reverse⟩ := by
  induction n generalizing m with
  | zero =>
    rw [copied_zero]
    simp [copyDown]
  | succ n ih =>
    rw [← Nat.add_assoc,← Nat.add_assoc,copyDown]
    dsimp only [Mem.load,Mem.store]
    rw [Nat.add_sub_cancel,Nat.add_sub_cancel,ih]
    dsimp only
    rw [copied_last h,range'_concat,range'_concat,reverse_append,reverse_append]
    simp

lemma fill_spec (n d : ℕ) (v : UInt8) (m : Mem) : fill n d v m = ⟨filled m.byte d n v,m.reads,m.writes ++ range' d n⟩ := by
  induction n generalizing d m with
  | zero =>
    have hsame : filled m.byte d 0 v = m.byte := funext fun x => if_neg (by omega)
    rw [hsame]
    simp [fill]
  | succ n ih =>
    rw [fill,ih]
    dsimp only [Mem.store]
    rw [filled_succ,append_range]

lemma copyString_spec {fuel d s l : ℕ} {m : Mem} (hs : StrAt m.byte s l) (happart : Apart d (l+1) s (l+1)) (hfuel : l < fuel) :
    copyString fuel d s m = some ⟨copied m.byte d s (l+1),m.reads ++ range' s (l+1),m.writes ++ range' d (l+1)⟩ := by
  unfold Apart at happart
  induction fuel generalizing d s l m with
  | zero => omega
  | succ fuel ih =>
    unfold copyString
    dsimp only [Mem.load,Mem.store]
    cases l with
    | zero =>
      have h0 : m.byte s = 0 := hs.stop
      rw [if_neg (not_not.mpr h0),← copied_succ (by omega),copied_zero]
      rfl
    | succ l =>
      have h0 : m.byte s ≠ 0 := hs.nonzero 0 (Nat.succ_pos l)
      have htail : StrAt (fun x => if x = d then m.byte s else m.byte x) (s+1) l := hs.tail.congr fun i hi => if_neg (by omega)
      rw [if_pos h0,ih htail (by omega) (by omega)]
      dsimp only
      rw [copied_succ (by omega),append_range,append_range]

lemma copyBounded_spec {n d s l : ℕ} {m : Mem} (hs : StrnAt m.byte s n l) (happart : Apart d n s (min n (l+1))) :
    copyBounded n d s m = (n - l,d + min n (l+1),⟨copied m.byte d s (min n (l+1)),m.reads ++ range' s (min n (l+1)),
      m.writes ++ range' d (min n (l+1))⟩) := by
  unfold Apart at happart
  induction n generalizing d s l m with
  | zero =>
    rw [Nat.zero_min,copied_zero]
    simp [copyBounded]
  | succ n ih =>
    unfold copyBounded
    dsimp only [Mem.load,Mem.store]
    rcases hs.cases with ⟨rfl,h0⟩ | ⟨k,rfl,h0⟩
    · have hone : min (n+1) (0+1) = 0 + 1 := by omega
      rw [if_neg (not_not.mpr h0),hone,← copied_succ (by omega),copied_zero]
      rfl
    · have hmin : min (n+1) (k+1+1) = min n (k+1) + 1 := by omega
      rw [hmin] at happart ⊢
      have htail : StrnAt (fun x => if x = d then m.byte s else m.byte x) (s+1) n k := by
        refine ⟨hs.tail.le,fun i hi => ?_,fun hk => ?_⟩
        · have hle := hs.tail.le
          rw [if_neg (by omega)]
          exact hs.tail.nonzero i hi
        · rw [if_neg (by omega)]
          exact hs.tail.stop hk
      rw [if_pos h0,ih htail (by omega)]
      dsimp only
      rw [copied_succ (by omega),append_range,append_range,Nat.succ_sub_succ,show d + 1 + min n (k+1) = d + (min n (k+1) + 1) by omega]

lemma stringEnd_spec {fuel d l : ℕ} {m : Mem} (hd : StrAt m.byte d l) (hfuel : l < fuel) :
    stringEnd fuel d m = some (d + l,⟨m.byte,m.reads ++ range' d (l+1),m.writes⟩) := by
  induction fuel generalizing d l m with
  | zero => omega
  | succ fuel ih =>
    unfold stringEnd
    dsimp only [Mem.load]
    cases l with
    | zero =>
      have h0 : m.byte d = 0 := hd.stop
      rw [if_neg (not_not.mpr h0)]
      rfl
    | succ l =>
      have h0 : m.byte d ≠ 0 := hd.nonzero 0 (Nat.succ_pos l)
      have htail : StrAt (m.load d).2.byte (d+1) l := hd.tail
      have hrest := ih htail (by omega)
      dsimp only [Mem.load] at hrest
      rw [if_pos h0,hrest,append_range,show d + 1 + l = d + (l + 1) by omega]

def Within (a n x : ℕ) : Prop := a ≤ x ∧ x < a + n

/-- With enough fuel the call ends, returns what `ret` says, leaves `bytes`, reads inside `rd` and writes exactly `wr`. -/
def Conforms {ρ : Type} (m : Mem) (run : ℕ → Option (ρ × Mem)) (ret : ρ → Prop) (bytes : ℕ → UInt8) (rd wr : ℕ → Prop) : Prop :=
  ∃ least, ∀ fuel ≥ least, ∃ r m', run fuel = some (r,m') ∧ ret r ∧ m'.byte = bytes ∧ Touches m m' rd wr

def MemcpyConforms (m : Mem) (d s n : ℕ) : Prop :=
  Conforms m (fun _ => some (memcpy d s n m)) (· = d) (copied m.byte d s n) (Within s n) (Within d n)

/-- Bytes copied onto themselves need no write. -/
def MemmoveConforms (m : Mem) (d s n : ℕ) : Prop :=
  Conforms m (fun _ => some (memmove d s n m)) (· = d) (copied m.byte d s n) (Within s n) fun x => d ≠ s ∧ Within d n x

def MemsetConforms (m : Mem) (d : ℕ) (c : ℤ) (n : ℕ) : Prop :=
  Conforms m (fun _ => some (memset d c n m)) (· = d) (filled m.byte d n (uchar c)) (fun _ => False) (Within d n)

def MemcmpConforms (m : Mem) (a b n : ℕ) : Prop :=
  Conforms m (fun _ => some (memcmp a b n m)) (fun r => Order r (bytesAt m.byte a n) (bytesAt m.byte b n)) m.byte
    (fun x => Within a n x ∨ Within b n x) fun _ => False

/-- Of strings of `la` and `lb` characters. -/
def StrcmpConforms (m : Mem) (a b la lb : ℕ) : Prop :=
  Conforms m (fun fuel => strcmp fuel a b m) (fun r => Order r (bytesAt m.byte a la) (bytesAt m.byte b lb)) m.byte
    (fun x => Within a (la+1) x ∨ Within b (lb+1) x) fun _ => False

def StrncmpConforms (m : Mem) (a b n la lb : ℕ) : Prop :=
  Conforms m (fun _ => some (strncmp a b n m)) (fun r => Order r (bytesAt m.byte a la) (bytesAt m.byte b lb)) m.byte
    (fun x => Within a (min n (la+1)) x ∨ Within b (min n (lb+1)) x) fun _ => False

def StrcpyConforms (m : Mem) (d s l : ℕ) : Prop :=
  Conforms m (fun fuel => strcpy fuel d s m) (· = d) (copied m.byte d s (l+1)) (Within s (l+1)) (Within d (l+1))

/-- `l` characters copied and zeros up to `n`. -/
def padded (b : ℕ → UInt8) (d s n l : ℕ) : ℕ → UInt8 := fun x => if d ≤ x ∧ x < d + n then if x - d < l then b (s + (x - d)) else 0 else b x

def StrncpyConforms (m : Mem) (d s n l : ℕ) : Prop :=
  Conforms m (fun _ => some (strncpy d s n m)) (· = d) (padded m.byte d s n l) (Within s (min n (l+1))) (Within d n)

def StrcatConforms (m : Mem) (d s k l : ℕ) : Prop :=
  Conforms m (fun fuel => strcat fuel d s m) (· = d) (copied m.byte (d+k) s (l+1)) (fun x => Within d (k+1) x ∨ Within s (l+1) x) (Within (d+k) (l+1))

def StrchrConforms (m : Mem) (s : ℕ) (c : ℤ) (l : ℕ) : Prop :=
  Conforms m (fun fuel => strchr fuel s c m) (First m.byte s l (uchar c)) m.byte (Within s (l+1)) fun _ => False

def StrrchrConforms (m : Mem) (s : ℕ) (c : ℤ) (l : ℕ) : Prop :=
  Conforms m (fun fuel => strrchr fuel s c m) (Last m.byte s l (uchar c)) m.byte (Within s (l+1)) fun _ => False

def StrstrConforms (m : Mem) (h n l k : ℕ) : Prop :=
  Conforms m (fun fuel => strstr fuel h n m) (FirstMatch m.byte h l n k) m.byte (fun x => Within h (l+1) x ∨ Within n (k+1) x) fun _ => False

lemma mem_within {a n x : ℕ} : x ∈ range' a n ↔ Within a n x := mem_range'_1

lemma touches_lists {m : Mem} {b : ℕ → UInt8} {rs ws : List ℕ} {rd wr : ℕ → Prop} (hr : ∀ a ∈ rs, rd a) (hw : ∀ a, a ∈ ws ↔ wr a) :
    Touches m ⟨b,m.reads ++ rs,m.writes ++ ws⟩ rd wr := ⟨⟨rs,rfl,hr⟩,ws,rfl,hw⟩

lemma memcpy_conforms {m : Mem} {d s n : ℕ} (h : Apart d n s n) : MemcpyConforms m d s n := by
  unfold Apart at h
  refine ⟨0,fun _ _ => ⟨d,_,rfl,rfl,?_⟩⟩
  rw [copyUp_spec (by omega)]
  exact ⟨rfl,touches_lists (fun _ => mem_within.mp) fun _ => mem_within⟩

lemma memmove_conforms (m : Mem) (d s n : ℕ) : MemmoveConforms m d s n := by
  refine ⟨0,fun _ _ => ?_⟩
  unfold memmove
  by_cases hskip : d = s ∨ n = 0
  · rw [if_pos hskip]
    refine ⟨d,m,rfl,rfl,?_,⟨[],(append_nil _).symm,nofun⟩,[],(append_nil _).symm,fun a => ⟨nofun,fun h => ?_⟩⟩
    · funext x
      unfold copied
      split
      · rw [show s + (x - d) = x by omega]
      · rfl
    · unfold Within at h
      omega
  rw [if_neg hskip]
  have hne : d ≠ s := fun h => hskip (.inl h)
  by_cases hlt : d < s
  · rw [if_pos hlt,copyUp_spec (by omega)]
    exact ⟨d,_,rfl,rfl,rfl,touches_lists (fun _ => mem_within.mp) fun _ => mem_within.trans ⟨fun h => ⟨hne,h⟩,And.right⟩⟩
  · rw [if_neg hlt,copyDown_spec (by omega)]
    exact ⟨d,_,rfl,rfl,rfl,touches_lists (fun _ h => mem_within.mp (List.mem_reverse.mp h)) fun _ =>
      (List.mem_reverse.trans mem_within).trans ⟨fun h => ⟨hne,h⟩,And.right⟩⟩

lemma memset_conforms (m : Mem) (d : ℕ) (c : ℤ) (n : ℕ) : MemsetConforms m d c n := by
  refine ⟨0,fun _ _ => ⟨d,_,rfl,rfl,?_⟩⟩
  rw [fill_spec]
  exact ⟨rfl,⟨[],(append_nil _).symm,nofun⟩,_,rfl,fun _ => mem_within⟩

lemma memcmp_conforms (m : Mem) (a b n : ℕ) : MemcmpConforms m a b n :=
  have h := @memcmp_spec n a b m
  ⟨0,fun _ _ => ⟨_,_,rfl,h.1,h.2.byte,h.2.touches⟩⟩

lemma strncmp_conforms {m : Mem} {a b n la lb : ℕ} (ha : StrnAt m.byte a n la) (hb : StrnAt m.byte b n lb) : StrncmpConforms m a b n la lb := by
  obtain ⟨horder,hread⟩ := strncmp_spec ha hb
  refine ⟨0,fun _ _ => ⟨_,_,rfl,horder,hread.byte,(hread.mono fun x hx => ?_).touches⟩⟩
  unfold Within
  omega

lemma strcmp_conforms {m : Mem} {a b la lb : ℕ} (ha : StrAt m.byte a la) (hb : StrAt m.byte b lb) : StrcmpConforms m a b la lb := by
  refine ⟨max la lb + 1,fun fuel hfuel => ?_⟩
  obtain ⟨horder,hread⟩ := strncmp_spec (ha.bounded (by omega : la ≤ fuel)) (hb.bounded (by omega : lb ≤ fuel))
  refine ⟨_,_,strcmp_eq ha (by omega),horder,hread.byte,(hread.mono fun x hx => ?_).touches⟩
  unfold Within
  omega

lemma strcpy_conforms {m : Mem} {d s l : ℕ} (hs : StrAt m.byte s l) (h : Apart d (l+1) s (l+1)) : StrcpyConforms m d s l := by
  refine ⟨l+1,fun fuel hfuel => ⟨d,_,?_,rfl,rfl,touches_lists (fun _ => mem_within.mp) fun _ => mem_within⟩⟩
  beta_reduce
  rw [strcpy,copyString_spec hs h hfuel]
  rfl

lemma strcat_conforms {m : Mem} {d s k l : ℕ} (hd : StrAt m.byte d k) (hs : StrAt m.byte s l) (h : Apart d (k+l+1) s (l+1)) :
    StrcatConforms m d s k l := by
  unfold Apart at h
  refine ⟨k+l+1,fun fuel hfuel => ⟨d,⟨copied m.byte (d+k) s (l+1),m.reads ++ range' d (k+1) ++ range' s (l+1),
    m.writes ++ range' (d+k) (l+1)⟩,?_,rfl,rfl,?_⟩⟩
  · have hcopy := @copyString_spec fuel (d+k) s l ⟨m.byte,m.reads ++ range' d (k+1),m.writes⟩ hs (by unfold Apart; omega) (by omega)
    beta_reduce
    rw [strcat,stringEnd_spec hd (by omega)]
    dsimp only [bind_eq_bind,bind_some]
    rw [hcopy]
    rfl
  · rw [append_assoc]
    exact touches_lists (fun a ha => (List.mem_append.mp ha).imp mem_within.mp mem_within.mp) fun _ => mem_within

lemma strstr_conforms {m : Mem} {h n l k : ℕ} (hh : StrAt m.byte h l) (hn : StrAt m.byte n k) : StrstrConforms m h n l k := by
  refine ⟨l+1,fun fuel hfuel => ?_⟩
  obtain ⟨r,m',hrun,hread,hfirst⟩ := strstr_spec hh hn hfuel
  refine ⟨r,m',hrun,hfirst,hread.byte,(hread.mono fun x hx => ?_).touches⟩
  unfold Within
  omega

lemma strncpy_conforms_iff {m : Mem} {d s n l : ℕ} (hs : StrnAt m.byte s n l) (h : Apart d n s (min n (l+1))) :
    StrncpyConforms m d s n l ↔ l = n := by
  have hrun : strncpy d s n m = (d,⟨filled (copied m.byte d s (min n (l+1))) (d + min n (l+1)) (n-l) 0,m.reads ++ range' s (min n (l+1)),
      m.writes ++ (range' d (min n (l+1)) ++ range' (d + min n (l+1)) (n-l))⟩) := by
    rw [strncpy,copyBounded_spec hs h]
    dsimp only
    rw [fill_spec,append_assoc]
  constructor
  · rintro ⟨least,hleast⟩
    obtain ⟨r,m',hr,-,-,-,ws,hws,hwr⟩ := hleast least (Nat.le_refl least)
    rw [hrun] at hr
    obtain ⟨-,rfl⟩ := Prod.mk.inj (some.inj hr)
    have hsame := append_cancel_left hws
    by_contra hne
    have hlt : l < n := Nat.lt_of_le_of_ne hs.le hne
    have hin : d + n ∈ ws := by
      rw [← hsame]
      exact mem_append_right _ (mem_within.mpr ⟨by omega,by omega⟩)
    have hout := (hwr (d+n)).mp hin
    exact Nat.lt_irrefl _ hout.2
  · rintro rfl
    refine ⟨0,fun _ _ => ⟨d,_,congrArg some hrun,rfl,?_,touches_lists (fun _ => mem_within.mp) fun a => ?_⟩⟩
    · rw [Nat.sub_self,Nat.min_eq_left (Nat.le_succ l)]
      funext x
      unfold filled copied padded
      dsimp only
      rw [if_neg (by omega)]
      by_cases hin : d ≤ x ∧ x < d + l
      · rw [if_pos hin,if_pos hin,if_pos (by omega)]
      · rw [if_neg hin,if_neg hin]
    · rw [Nat.sub_self,Nat.min_eq_left (Nat.le_succ l),range'_zero,append_nil]
      exact mem_within

lemma strchr_conforms_iff {m : Mem} {s l : ℕ} {c : ℤ} (hs : StrAt m.byte s l) : StrchrConforms m s c l ↔ (c % 256 = 0 → c = 0) := by
  rw [← uchar_eq_zero]
  constructor
  · rintro ⟨least,hleast⟩ hzero
    obtain ⟨r,m',hr,hfirst,-⟩ := hleast (max least (l+1)) (Nat.le_max_left _ _)
    obtain ⟨r',m'',hr',-,hcase⟩ := strchr_spec c hs (Nat.le_max_right least (l+1))
    obtain ⟨rfl,-⟩ := Prod.mk.inj (some.inj (hr.symm.trans hr'))
    rcases hcase with ⟨i,hi,-,hat,-⟩ | ⟨-,hend⟩
    · exact absurd (hat.trans hzero) (hs.nonzero i hi)
    · by_contra hc
      rw [if_neg hc] at hend
      rcases hfirst with ⟨i,-,hsome,-⟩ | ⟨-,hall⟩
      · exact nomatch hend.symm.trans hsome
      · exact hall l (Nat.le_refl l) (hs.stop.trans hzero.symm)
  · intro hc
    refine ⟨l+1,fun fuel hfuel => ?_⟩
    obtain ⟨r,m',hrun,hread,hcase⟩ := strchr_spec c hs hfuel
    refine ⟨r,m',hrun,?_,hread.byte,(hread.mono fun x hx => ⟨hx.1,by omega⟩).touches⟩
    rcases hcase with ⟨i,hi,hr,hat,hbefore⟩ | ⟨hnone,hr⟩
    · exact .inl ⟨i,hi.le,hr,hat,hbefore⟩
    · by_cases h0 : uchar c = 0
      · rw [if_pos (hc h0)] at hr
        exact .inl ⟨l,Nat.le_refl l,hr,hs.stop.trans h0.symm,hnone⟩
      · have hc0 : c ≠ 0 := fun hz => h0 ((uchar_eq_zero c).mpr (by omega))
        rw [if_neg hc0] at hr
        refine .inr ⟨hr,fun i hi => ?_⟩
        rcases Nat.lt_or_eq_of_le hi with hlt | rfl
        · exact hnone i hlt
        · rw [hs.stop]
          exact fun h => h0 h.symm

lemma strrchr_conforms_iff {m : Mem} {s l : ℕ} {c : ℤ} (hs : StrAt m.byte s l) :
    StrrchrConforms m s c l ↔ (c % 256 = 0 → c = 0 ∧ l = 0) := by
  rw [← uchar_eq_zero]
  constructor
  · rintro ⟨least,hleast⟩ hzero
    obtain ⟨r,m',hr,hlast,-⟩ := hleast (max least (l+1)) (Nat.le_max_left _ _)
    obtain ⟨r',m'',hr',-,hcase⟩ := strrchrLoop_spec c (if c = 0 then some s else none) hs (Nat.le_max_right least (l+1))
    obtain ⟨rfl,-⟩ := Prod.mk.inj (some.inj (hr.symm.trans hr'))
    rcases hcase with ⟨i,hi,-,hat,-⟩ | ⟨-,hend⟩
    · exact absurd (hat.trans hzero) (hs.nonzero i hi)
    · rcases hlast with ⟨i,hi,hsome,hat,-⟩ | ⟨-,hall⟩
      · obtain rfl : i = l := by
          by_contra hne
          exact hs.nonzero i (Nat.lt_of_le_of_ne hi hne) (hat.trans hzero)
        rw [hsome] at hend
        by_cases hc : c = 0
        · rw [if_pos hc] at hend
          have hsum := some.inj hend
          exact ⟨hc,by omega⟩
        · rw [if_neg hc] at hend
          exact nomatch hend
      · exact absurd (hs.stop.trans hzero.symm) (hall l (Nat.le_refl l))
  · intro hc
    refine ⟨l+1,fun fuel hfuel => ?_⟩
    obtain ⟨r,m',hrun,hread,hcase⟩ := strrchrLoop_spec c (if c = 0 then some s else none) hs hfuel
    refine ⟨r,m',hrun,?_,hread.byte,(hread.mono fun x hx => ⟨hx.1,by omega⟩).touches⟩
    by_cases h0 : uchar c = 0
    · obtain ⟨rfl,rfl⟩ := hc h0
      rcases hcase with ⟨i,hi,-⟩ | ⟨-,hr⟩
      · omega
      · exact .inl ⟨0,Nat.le_refl 0,hr,hs.stop.trans h0.symm,fun j hj hpos => by omega⟩
    · have hend : m.byte (s+l) ≠ uchar c := fun h => h0 (h.symm.trans hs.stop)
      rcases hcase with ⟨i,hi,hr,hat,hafter⟩ | ⟨hnone,hr⟩
      · refine .inl ⟨i,hi.le,hr,hat,fun j hj hij => ?_⟩
        rcases Nat.lt_or_eq_of_le hj with hlt | rfl
        · exact hafter j hlt hij
        · exact hend
      · have hc0 : c ≠ 0 := fun hz => h0 ((uchar_eq_zero c).mpr (by omega))
        rw [if_neg hc0] at hr
        refine .inr ⟨hr,fun i hi => ?_⟩
        rcases Nat.lt_or_eq_of_le hi with hlt | rfl
        · exact hnone i hlt
        · exact hend

/-- The functions conform on every call that C99 defines, but for `strncpy` of a string shorter than `n`, `strchr` for a multiple of 256 other than
0, and `strrchr` for a multiple of 256 other than 0 in the empty string. -/
theorem cstring_conforms (m : Mem) :
    (∀ d s n, Apart d n s n → MemcpyConforms m d s n) ∧ (∀ d s n, MemmoveConforms m d s n) ∧ (∀ d c n, MemsetConforms m d c n) ∧
    (∀ a b n, MemcmpConforms m a b n) ∧
    (∀ a b la lb, StrAt m.byte a la → StrAt m.byte b lb → StrcmpConforms m a b la lb) ∧
    (∀ a b n la lb, StrnAt m.byte a n la → StrnAt m.byte b n lb → StrncmpConforms m a b n la lb) ∧
    (∀ d s l, StrAt m.byte s l → Apart d (l+1) s (l+1) → StrcpyConforms m d s l) ∧
    (∀ d s k l, StrAt m.byte d k → StrAt m.byte s l → Apart d (k+l+1) s (l+1) → StrcatConforms m d s k l) ∧
    (∀ h n l k, StrAt m.byte h l → StrAt m.byte n k → StrstrConforms m h n l k) ∧
    (∀ d s n l, StrnAt m.byte s n l → Apart d n s (min n (l+1)) → (StrncpyConforms m d s n l ↔ l = n)) ∧
    (∀ s c l, StrAt m.byte s l → (StrchrConforms m s c l ↔ (c % 256 = 0 → c = 0))) ∧
    ∀ s c l, StrAt m.byte s l → (StrrchrConforms m s c l ↔ (c % 256 = 0 → c = 0 ∧ l = 0)) :=
  ⟨fun _ _ _ => memcpy_conforms,memmove_conforms m,memset_conforms m,memcmp_conforms m,fun _ _ _ _ => strcmp_conforms,
    fun _ _ _ _ _ => strncmp_conforms,fun _ _ _ => strcpy_conforms,fun _ _ _ _ => strcat_conforms,fun _ _ _ _ => strstr_conforms,
    fun _ _ _ _ => strncpy_conforms_iff,fun _ _ _ => strchr_conforms_iff,fun _ _ _ => strrchr_conforms_iff⟩

/-- A copy of two characters of a longer string. -/
theorem cstring_conforms_two : StrncpyConforms ⟨fun _ => 65,[],[]⟩ 0 10 2 2 :=
  have h := (cstring_conforms ⟨fun _ => 65,[],[]⟩).2.2.2.2.2.2.2.2.2.1 0 10 2 2
  (h ⟨Nat.le_refl 2,fun _ _ => (by decide : (65 : UInt8) ≠ 0),fun h => absurd h (Nat.lt_irrefl 2)⟩ (.inl (by decide))).mpr rfl

/-- The empty string, copied into one byte. -/
theorem strncpy_overrun : ¬ StrncpyConforms ⟨fun _ => 0,[],[]⟩ 0 10 1 0 := fun h =>
  nomatch (strncpy_conforms_iff ⟨Nat.zero_le 1,nofun,fun _ => rfl⟩ (.inl (by decide))).mp h

end VibeOS.CString

import VibeOS.Heap.Kmalloc
import Mathlib.Tactic.Linarith

/-! What `kmalloc` and `kfree` do to a heap whose blocks tile its region. -/
namespace VibeOS.Heap
open Function List Nat

/-- A region that `kheap_init` is given. -/
structure Region where
  base : ℕ
  size : ℕ
  base_aligned : base % 16 = 0
  base_large : 32 ≤ base
  aligned : size % 16 = 0
  large : 32 ≤ size
  fits : base + size < 2^64

/-- The blocks of the heap are these. -/
structure Laid (r : Region) (h : Kheap) (bs : List Block) : Prop where
  heapStart : h.heapStart = r.base
  heapEnd : h.heapEnd = r.base + r.size
  tiles : Tiles h.mem r.base 0 bs (r.base + r.size)

variable {r : Region} {h h' : Kheap} {b c : Block} {bs xs ys : List Block} {x y v need : ℕ} {u : Bool}

lemma wrap_of_lt (h : x < 2^64) : wrap x = x := mod_eq_of_lt h

lemma Block.tag_and_one (hb : b.Sized) : b.tag &&& 1 = if b.used then 1 else 0 := by
  have heven := hb.aligned
  rw [and_one_is_mod]
  unfold Block.tag
  split_ifs <;> omega

lemma Block.size_or_inUse (hb : b.Sized) : (b.size ||| if b.used then 1 else 0) = b.tag := by
  have heven := hb.aligned
  unfold Block.tag
  split_ifs
  · have htwo : b.size = 2*(b.size/2) := by omega
    rw [htwo,Nat.two_mul,← Nat.two_mul]
    exact (two_pow_add_eq_or_of_lt (i := 1) (b := 1) (by decide) (b.size/2)).symm
  · rw [Nat.or_zero,Nat.add_zero]

lemma kheapInit_laid (r : Region) (mem : ℕ → ℕ) : Laid r (kheapInit r.base r.size mem) [⟨r.size,false⟩] := by
  have hb : Block.Sized ⟨r.size,false⟩ := ⟨r.aligned,r.large⟩
  refine ⟨rfl,rfl,?_,update_self _ _ _,hb,rfl⟩
  exact (update_of_ne (by omega) _ _).trans ((update_self _ _ _).trans (Nat.or_zero _))

lemma store_self (x v : ℕ) : (h.store x v).mem x = v := update_self _ _ _

lemma store_of_ne (hne : y ≠ x) : (h.store x v).mem y = h.mem y := update_of_ne hne _ _

lemma blkInUse_eq (htag : h.mem x = b.tag) (hb : b.Sized) : h.blkInUse x = b.used := by
  unfold Kheap.blkInUse
  rw [htag,Block.tag_and_one hb]
  cases b.used <;> rfl

lemma blkSize_eq (htag : h.mem x = b.tag) (hb : b.Sized) : h.blkSize x = b.size := by
  unfold Kheap.blkSize
  rw [htag,Block.tag_and_one hb]
  exact Nat.add_sub_cancel _ _

lemma blkSet_eq (hb : b.Sized) : h.blkSet x b.size b.used = h.store x b.tag := by
  unfold Kheap.blkSet
  rw [Block.size_or_inUse hb]

lemma blkNext_eq (htag : h.mem x = b.tag) (hb : b.Sized) (hys : ∀ c ∈ ys, c.Sized)
    (hend : x + b.size + span ys = h.heapEnd) (hfits : h.heapEnd < 2^64) :
    h.blkNext x = if ys = [] then none else some (x + b.size) := by
  unfold Kheap.blkNext
  dsimp only
  rw [blkSize_eq htag hb,wrap_of_lt (by omega)]
  cases ys with
  | nil =>
    rw [span_nil] at hend
    rw [if_pos (by omega),if_pos rfl]
  | cons c ys =>
    have hlarge := (hys c mem_cons_self).large
    rw [span_cons] at hend
    rw [if_neg (by omega),if_neg (cons_ne_nil _ _)]

lemma tellNext_spec (htag : h.mem x = b.tag) (hb : b.Sized) (hys : ∀ c ∈ ys, c.Sized)
    (hend : x + b.size + span ys = h.heapEnd) (hfits : h.heapEnd < 2^64) (v : ℕ) :
    ((h.tellNext x v).heapStart = h.heapStart ∧ (h.tellNext x v).heapEnd = h.heapEnd) ∧
      (∀ y, y ≠ x + b.size + 8 → (h.tellNext x v).mem y = h.mem y) ∧
        (ys ≠ [] → (h.tellNext x v).mem (x + b.size + 8) = v) := by
  unfold Kheap.tellNext
  rw [blkNext_eq htag hb hys hend hfits]
  cases ys with
  | nil => exact ⟨⟨rfl,rfl⟩,fun _ _ => rfl,fun hne => absurd rfl hne⟩
  | cons c ys => exact ⟨⟨rfl,rfl⟩,fun _ hne => store_of_ne hne,fun _ => store_self _ _⟩

lemma Laid.block (hl : Laid r h (xs ++ b :: ys)) : h.mem (r.base + span xs) = b.tag ∧
    h.mem (r.base + span xs + 8) = lastSize 0 xs ∧ b.Sized ∧
      r.base + span xs + b.size + span ys = h.heapEnd := by
  obtain ⟨-,htag,hprev,hsized,hrest⟩ := tiles_append.mp hl.tiles
  exact ⟨htag,hprev,hsized,hrest.end_eq.trans hl.heapEnd.symm⟩

lemma Laid.sized (hl : Laid r h (xs ++ ys)) : ∀ c ∈ ys, c.Sized :=
  fun c hc => hl.tiles.sized c (mem_append_right _ hc)

lemma Laid.after (hl : Laid r h (xs ++ b :: ys)) : ∀ c ∈ ys, c.Sized :=
  fun c hc => hl.sized c (mem_cons_of_mem _ hc)

lemma Laid.end_lt (hl : Laid r h bs) : h.heapEnd < 2^64 := hl.heapEnd ▸ r.fits

lemma Laid.blkInUse (hl : Laid r h (xs ++ b :: ys)) : h.blkInUse (r.base + span xs) = b.used :=
  blkInUse_eq hl.block.1 hl.block.2.2.1

lemma Laid.blkSize (hl : Laid r h (xs ++ b :: ys)) : h.blkSize (r.base + span xs) = b.size :=
  blkSize_eq hl.block.1 hl.block.2.2.1

lemma Laid.blkNext (hl : Laid r h (xs ++ b :: ys)) :
    h.blkNext (r.base + span xs) = if ys = [] then none else some (r.base + span (xs ++ [b])) := by
  obtain ⟨htag,-,hsized,hend⟩ := hl.block
  rw [blkNext_eq htag hsized hl.after hend hl.end_lt,span_append,span_cons,span_nil,Nat.add_zero,Nat.add_assoc]

lemma Laid.blkPrev (hl : Laid r h (xs ++ b :: ys)) :
    (xs = [] ∧ h.blkPrev (r.base + span xs) = none) ∨
      ∃ ws q, xs = ws ++ [q] ∧ h.blkPrev (r.base + span xs) = some (r.base + span ws) := by
  obtain ⟨-,hprev,-,hend⟩ := hl.block
  have hfits := hl.end_lt
  unfold Kheap.blkPrev Kheap.prevSize
  rw [hprev]
  rcases eq_nil_or_concat xs with rfl | ⟨ws,q,rfl⟩
  · exact .inl ⟨rfl,if_pos rfl⟩
  · refine .inr ⟨ws,q,concat_eq_append,?_⟩
    have hlarge := (hl.tiles.sized q (by simp)).large
    simp only [concat_eq_append,span_append,span_cons,span_nil,lastSize_append,lastSize_cons,lastSize_nil] at hend ⊢
    rw [if_neg (by omega)]
    congr 1
    unfold wrap
    omega

lemma firstFit_spec (xs : List Block) (need fuel : ℕ) (hl : Laid r h (xs ++ ys)) (hf : ys.length ≤ fuel)
    (s : Option ℕ) (hs : s = if ys = [] then none else some (r.base + span xs)) :
    (h.firstFit need fuel s = some none ∧ ∀ b ∈ ys, b.used = false → b.size < need) ∨
      ∃ ws b zs, ys = ws ++ b :: zs ∧ h.firstFit need fuel s = some (some (r.base + span (xs ++ ws))) ∧
        b.used = false ∧ need ≤ b.size := by
  induction ys generalizing xs fuel s with
  | nil =>
    subst hs
    refine .inl ⟨?_,fun b hb => absurd hb not_mem_nil⟩
    unfold Kheap.firstFit
    rfl
  | cons b ys ih =>
    subst hs
    obtain ⟨fuel,rfl⟩ : ∃ n, fuel = n + 1 := ⟨fuel - 1,by rw [length_cons] at hf; omega⟩
    have hnext := hl.blkNext
    rw [if_neg (cons_ne_nil _ _)]
    unfold Kheap.firstFit
    rw [hl.blkInUse,hl.blkSize,hnext]
    -- the walk goes on behind a block that does not serve
    have hon (hno : b.used = false → b.size < need) :
        (h.firstFit need fuel (if ys = [] then none else some (r.base + span (xs ++ [b]))) = some none ∧
          ∀ b' ∈ b :: ys, b'.used = false → b'.size < need) ∨
        ∃ ws b' zs, b :: ys = ws ++ b' :: zs ∧
          h.firstFit need fuel (if ys = [] then none else some (r.base + span (xs ++ [b]))) =
            some (some (r.base + span (xs ++ ws))) ∧ b'.used = false ∧ need ≤ b'.size := by
      rcases ih (xs ++ [b]) fuel (by simpa using hl) (le_of_succ_le_succ hf) _ rfl with
        ⟨hnone,hall⟩ | ⟨ws,b',zs,hys,hsome,hfree,hfit⟩
      · refine .inl ⟨hnone,fun b' hb' => ?_⟩
        rcases List.mem_cons.mp hb' with rfl | hb'
        · exact hno
        · exact hall b' hb'
      · refine .inr ⟨b :: ws,b',zs,by rw [hys]; rfl,?_,hfree,hfit⟩
        rw [hsome,append_assoc]
        rfl
    cases hused : b.used with
    | true => exact hon fun hfree => absurd (hused.symm.trans hfree) (by decide)
    | false =>
      by_cases hsmall : b.size < need
      · rw [if_neg Bool.false_ne_true,if_pos hsmall]
        exact hon fun _ => hsmall
      · rw [if_neg Bool.false_ne_true,if_neg hsmall]
        exact .inr ⟨[],b,ys,rfl,by rw [append_nil],hused,Nat.le_of_not_lt hsmall⟩

lemma Laid.replace (old new : List Block) (hl : Laid r h (xs ++ (old ++ ys))) (hregion : h'.heapStart = h.heapStart ∧ h'.heapEnd = h.heapEnd)
    (hnew : Tiles h'.mem (r.base + span xs) (lastSize 0 xs) new (r.base + span xs + span old))
    (hmem : ∀ x, (x < r.base + span xs ∨ r.base + span xs + span old ≤ x) → x ≠ r.base + span xs + span old + 8 →
      h'.mem x = h.mem x)
    (hnext : ys ≠ [] → h'.mem (r.base + span xs + span old + 8) = lastSize (lastSize 0 xs) new) :
    Laid r h' (xs ++ (new ++ ys)) :=
  ⟨hregion.1.trans hl.heapStart,hregion.2.trans hl.heapEnd,hl.tiles.replace hnew hmem hnext⟩

lemma Laid.retag (hl : Laid r h (xs ++ b :: ys)) (u : Bool) :
    Laid r (h.blkSet (r.base + span xs) b.size u) (xs ++ ⟨b.size,u⟩ :: ys) := by
  obtain ⟨-,hprev,hsized,-⟩ := hl.block
  have hlarge := hsized.large
  have hsame : Block.Sized ⟨b.size,u⟩ := ⟨hsized.aligned,hsized.large⟩
  have hspan : span [b] = b.size := Nat.add_zero _
  refine Laid.replace [b] [⟨b.size,u⟩] hl ⟨rfl,rfl⟩ ?_ ?_ ?_
  · rw [hspan,blkSet_eq hsame]
    exact ⟨store_self _ _,(store_of_ne (by omega)).trans hprev,hsame,rfl⟩
  · intro x hx _
    rw [hspan] at hx
    rw [blkSet_eq hsame]
    exact store_of_ne (by omega)
  · intro hys
    obtain ⟨c,zs,rfl⟩ := exists_cons_of_ne_nil hys
    obtain ⟨-,-,-,-,-,hafter,-⟩ := tiles_append.mp hl.tiles
    rw [hspan,blkSet_eq hsame]
    exact (store_of_ne (by omega)).trans hafter

/-- What is left of a block when `need` bytes of it are taken. -/
def carve (need n : ℕ) : List Block :=
  if need + minBlockSize ≤ n then [⟨need,true⟩,⟨n - need,false⟩] else [⟨n,true⟩]

lemma take_spec (hl : Laid r h (xs ++ b :: ys)) (hneed : Block.Sized ⟨need,true⟩) (hfit : need ≤ b.size) :
    Laid r (h.take need (r.base + span xs)) (xs ++ (carve need b.size ++ ys)) := by
  obtain ⟨-,hprev,hsized,hend⟩ := hl.block
  have hfits := hl.end_lt
  have hbase := r.base_large
  unfold Kheap.take carve minBlockSize
  dsimp only
  rw [hl.blkSize,wrap_of_lt (by omega),wrap_of_lt (by omega)]
  split
  next hsplit =>
    have hlarge : 32 ≤ need := hneed.large
    have hrest : Block.Sized ⟨b.size - need,false⟩ :=
      ⟨(Nat.dvd_iff_mod_eq_zero.mp (Nat.dvd_sub (dvd_of_mod_eq_zero hsized.aligned) (dvd_of_mod_eq_zero hneed.aligned))),
        by dsimp only; omega⟩
    have hspan : span [b] = b.size := Nat.add_zero _
    rw [blkSet_eq hrest,blkSet_eq hneed]
    -- the heap with both blocks written, before the block after them is told
    generalize hg : (((h.store (r.base + span xs + need) (Block.tag ⟨b.size - need,false⟩)).setPrevSize
      (r.base + span xs + need) need).store (r.base + span xs) (Block.tag ⟨need,true⟩)) = g
    have htail : g.mem (r.base + span xs + need) = Block.tag ⟨b.size - need,false⟩ := by
      rw [← hg,store_of_ne (by omega)]
      exact (store_of_ne (by omega)).trans (store_self _ _)
    have hregion : g.heapStart = h.heapStart ∧ g.heapEnd = h.heapEnd := by
      rw [← hg]
      exact ⟨rfl,rfl⟩
    have hout (x : ℕ) (hx : x < r.base + span xs ∨ r.base + span xs + b.size ≤ x) : g.mem x = h.mem x := by
      rw [← hg,store_of_ne (by omega)]
      exact (store_of_ne (by omega)).trans (store_of_ne (by omega))
    have hhead : g.mem (r.base + span xs) = Block.tag ⟨need,true⟩ ∧ g.mem (r.base + span xs + 8) = lastSize 0 xs ∧
        g.mem (r.base + span xs + need + 8) = need := by
      rw [← hg]
      refine ⟨store_self _ _,?_,(store_of_ne (by omega)).trans (store_self _ _)⟩
      rw [store_of_ne (by omega)]
      exact (store_of_ne (by omega)).trans ((store_of_ne (by omega)).trans hprev)
    obtain ⟨hregion',hsame,htold⟩ := tellNext_spec (v := g.blkSize (r.base + span xs + need)) htail hrest hl.after
      (by rw [hregion.2]; dsimp only; omega) (hregion.2 ▸ hfits)
    have hafter : r.base + span xs + need + (b.size - need) = r.base + span xs + b.size := by omega
    dsimp only at hsame htold
    rw [hafter] at hsame htold
    refine Laid.replace [b] [⟨need,true⟩,⟨b.size - need,false⟩] hl
      ⟨hregion'.1.trans hregion.1,hregion'.2.trans hregion.2⟩ ?_ ?_ ?_
    · rw [hspan]
      refine ⟨(hsame _ (by omega)).trans hhead.1,(hsame _ (by omega)).trans hhead.2.1,hneed,?_⟩
      exact ⟨(hsame _ (by dsimp only; omega)).trans htail,(hsame _ (by dsimp only; omega)).trans hhead.2.2,hrest,hafter⟩
    · intro x hx hne
      rw [hspan] at hx hne
      exact (hsame x hne).trans (hout x hx)
    · intro hys
      rw [hspan,htold hys]
      exact blkSize_eq htail hrest
  next hwhole => exact hl.retag true

lemma needOf_le_iff (hb : b.Sized) (size : ℕ) (hsize : size + 31 < 2^64) : needOf size ≤ b.size ↔ size ≤ b.size - headerSize := by
  have haligned := hb.aligned
  have hlarge := hb.large
  unfold needOf alignUp wrap minBlockSize headerSize
  dsimp only
  split_ifs <;> omega

lemma needOf_sized (size : ℕ) (hsize : size + 31 < 2^64) : Block.Sized ⟨needOf size,true⟩ ∧ size + headerSize ≤ needOf size := by
  unfold needOf alignUp wrap minBlockSize headerSize
  dsimp only
  split_ifs with hsmall
  · exact ⟨⟨rfl,le_rfl⟩,by omega⟩
  · exact ⟨⟨mul_mod_left _ _,Nat.le_of_not_lt hsmall⟩,by omega⟩

lemma Laid.length_le (hl : Laid r h bs) : bs.length ≤ (h.heapEnd - h.heapStart)/16 + 1 := by
  have hend := hl.tiles.end_eq
  have hspan : 32*bs.length ≤ span bs := by
    have hsized := hl.tiles.sized
    clear hl hend
    induction bs with
    | nil => exact le_rfl
    | cons b bs ih =>
      have hlarge := (hsized b mem_cons_self).large
      have hrest := ih fun c hc => hsized c (mem_cons_of_mem _ hc)
      rw [length_cons,span_cons]
      omega
  rw [hl.heapEnd,hl.heapStart]
  omega

lemma kmalloc_spec (hl : Laid r h bs) (size : ℕ) (hpos : size ≠ 0) (hsize : size + 31 < 2^64) :
    (h.kmalloc size = some (none,h) ∧ ∀ b ∈ bs, b.used = false → b.size < needOf size) ∨
      ∃ xs b ys h', bs = xs ++ b :: ys ∧ b.used = false ∧ needOf size ≤ b.size ∧
        h.kmalloc size = some (some (r.base + span xs + headerSize),h') ∧
          Laid r h' (xs ++ (carve (needOf size) b.size ++ ys)) := by
  unfold Kheap.kmalloc
  rw [if_neg hpos]
  have hne : bs ≠ [] := by
    rintro rfl
    have hend := hl.tiles.end_eq
    have hlarge := r.large
    rw [span_nil] at hend
    omega
  rcases firstFit_spec [] (needOf size) _ hl hl.length_le (some h.heapStart)
    (by rw [if_neg hne,hl.heapStart]; rfl) with ⟨hnone,hall⟩ | ⟨xs,b,ys,rfl,hsome,hfree,hfit⟩
  · rw [hnone]
    exact .inl ⟨rfl,hall⟩
  · rw [hsome]
    exact .inr ⟨xs,b,ys,_,rfl,hfree,hfit,rfl,take_spec hl (needOf_sized size hsize).1 hfit⟩

lemma Block.Sized.join (hb : b.Sized) (hc : c.Sized) : Block.Sized ⟨b.size + c.size,false⟩ :=
  ⟨Nat.dvd_iff_mod_eq_zero.mp (Nat.dvd_add (dvd_of_mod_eq_zero hb.aligned) (dvd_of_mod_eq_zero hc.aligned)),
    hb.large.trans (Nat.le_add_right _ _)⟩

lemma merge_spec (hl : Laid r h (xs ++ b :: c :: ys)) :
    Laid r (h.merge (r.base + span xs) (wrap (b.size + c.size))) (xs ++ ⟨b.size + c.size,false⟩ :: ys) := by
  obtain ⟨-,hprev,hb,hend⟩ := hl.block
  have hc := hl.after c mem_cons_self
  have hfits := hl.end_lt
  have hjoin := hb.join hc
  have hlarge := hb.large
  have hspan : span [b,c] = b.size + c.size := rfl
  rw [span_cons] at hend
  unfold Kheap.merge
  rw [wrap_of_lt (by omega),blkSet_eq hjoin]
  obtain ⟨hregion,hsame,htold⟩ := tellNext_spec (h := h.store (r.base + span xs) (Block.tag ⟨b.size + c.size,false⟩))
    (v := b.size + c.size) (store_self _ _) hjoin (fun d hd => hl.after d (mem_cons_of_mem _ hd))
    (by dsimp only [Kheap.store]; omega) hfits
  refine Laid.replace [b,c] [⟨b.size + c.size,false⟩] hl hregion ?_ ?_ ?_
  · rw [hspan]
    exact ⟨(hsame _ (by dsimp only; omega)).trans (store_self _ _),
      (hsame _ (by dsimp only; omega)).trans ((store_of_ne (by omega)).trans hprev),hjoin,rfl⟩
  · intro x hx hne
    rw [hspan] at hx hne
    exact (hsame x hne).trans (store_of_ne (by omega))
  · intro hys
    rw [hspan]
    exact htold hys

lemma coalesceForward_spec (hl : Laid r h (xs ++ b :: ys)) (hfree : b.used = false) :
    ∃ d zs, Laid r (h.coalesceForward (r.base + span xs)) (xs ++ d :: zs) ∧ d.used = false ∧
      ((d = b ∧ zs = ys ∧ ∀ c ∈ ys.head?, c.used = true) ∨ ∃ c, ys = c :: zs ∧ c.used = false) := by
  unfold Kheap.coalesceForward
  rw [hl.blkNext]
  cases ys with
  | nil => exact ⟨b,[],hl,hfree,.inl ⟨rfl,rfl,fun c hc => absurd hc (by simp)⟩⟩
  | cons c ys =>
    have hl' : Laid r h ((xs ++ [b]) ++ c :: ys) := by rwa [append_assoc]
    rw [if_neg (cons_ne_nil _ _)]
    dsimp only
    rw [hl'.blkInUse,hl'.blkSize,hl.blkSize]
    cases hused : c.used with
    | true => exact ⟨b,c :: ys,hl,hfree,.inl ⟨rfl,rfl,fun d hd => (Option.mem_some_iff.mp hd) ▸ hused⟩⟩
    | false => exact ⟨_,ys,merge_spec hl,rfl,.inr ⟨c,rfl,hused⟩⟩

lemma coalesceBackward_spec (hl : Laid r h (xs ++ b :: ys)) (hfree : b.used = false) :
    ∃ ws d, Laid r (h.coalesceBackward (r.base + span xs)) (ws ++ d :: ys) ∧ d.used = false ∧
      ((ws = xs ∧ ∀ c ∈ xs.getLast?, c.used = true) ∨ ∃ c, xs = ws ++ [c] ∧ c.used = false) := by
  unfold Kheap.coalesceBackward
  rcases hl.blkPrev with ⟨rfl,hprev⟩ | ⟨ws,q,rfl,hprev⟩
  · rw [hprev]
    exact ⟨[],b,hl,hfree,.inl ⟨rfl,fun c hc => absurd hc (by simp)⟩⟩
  · rw [hprev]
    have hl' : Laid r h (ws ++ q :: b :: ys) := by rwa [append_cons]
    dsimp only
    rw [hl'.blkInUse,hl'.blkSize,hl.blkSize]
    cases hused : q.used with
    | true => exact ⟨ws ++ [q],b,hl,hfree,.inl ⟨rfl,fun d hd => by
        rw [getLast?_concat] at hd
        exact (Option.mem_some_iff.mp hd) ▸ hused⟩⟩
    | false => exact ⟨ws,_,merge_spec hl',rfl,.inr ⟨q,rfl,hused⟩⟩

lemma kfree_spec (hl : Laid r h (xs ++ b :: ys)) :
    ∃ h' ws d zs, h.kfree (r.base + span xs + headerSize) = some h' ∧ Laid r h' (ws ++ d :: zs) ∧ d.used = false ∧
      ((ws = xs ∧ ∀ c ∈ xs.getLast?, c.used = true) ∨ ∃ c, xs = ws ++ [c] ∧ c.used = false) ∧
        ((zs = ys ∧ ∀ c ∈ ys.head?, c.used = true) ∨ ∃ c, ys = c :: zs ∧ c.used = false) := by
  obtain ⟨-,-,hsized,hend⟩ := hl.block
  have hlarge := hsized.large
  have hfits := hl.end_lt
  have hstart := hl.heapStart
  unfold Kheap.kfree headerSize
  have hb : wrap (r.base + span xs + 16 + 2^64 - 16) = r.base + span xs := by
    unfold wrap
    omega
  rw [if_neg (by omega),if_neg (by omega)]
  dsimp only
  rw [hb,hl.blkSize]
  obtain ⟨d,zs,hforward,hd,hzs⟩ := coalesceForward_spec (hl.retag false) rfl
  obtain ⟨ws,d',hbackward,hd',hws⟩ := coalesceBackward_spec hforward hd
  refine ⟨_,ws,d',zs,rfl,hbackward,hd',hws,?_⟩
  rcases hzs with ⟨-,hzs,hhead⟩ | hzs
  · exact .inl ⟨hzs,hhead⟩
  · exact .inr hzs

end VibeOS.Heap

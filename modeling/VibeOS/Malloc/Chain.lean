import VibeOS.Malloc.Allocator

/-! The list of free blocks, and what the stores of the allocator leave of it. -/
namespace VibeOS.Malloc
open VibeOS.Storage VibeOS.Memory List

structure Blk where
  addr : ℕ
  size : ℕ

def Live.blk (l : Live) : Blk := ⟨l.addr,l.size⟩

def Blk.Apart (b c : Blk) : Prop := b.addr + b.size ≤ c.addr ∨ c.addr + c.size ≤ b.addr

/-- A block in the memory that `sbrk` gave. -/
structure Blk.InHeap (brk : ℕ) (b : Blk) : Prop where
  lower : userHeapBase ≤ b.addr
  upper : b.addr + b.size ≤ brk
  aligned : b.addr % 16 = 0
  rounded : b.size % 16 = 0
  least : 32 ≤ b.size

inductive Chain (h : Heap) : Loc → List Blk → Prop
  | nil {pp} (last : h.get pp = 0) : Chain h pp []
  | cons {pp b bs} (link : h.get pp = b.addr) (pos : 0 < b.addr) (size : h.size b.addr = b.size)
      (rest : Chain h (.next b.addr) bs) : Chain h pp (b :: bs)

def after : Loc → List Blk → Loc
  | pp,[] => pp
  | _,b :: bs => after (.next b.addr) bs

def Keeps (bs : List Blk) (h h' : Heap) : Prop :=
  ∀ b ∈ bs, ∀ a, b.addr ≤ a → a < b.addr + b.size → h'.mem a = h.mem a

/-- The blocks of a list and their links are as they were, but for the link behind them. -/
structure Behind (bs : List Blk) (h h' : Heap) : Prop where
  head : bs ≠ [] → h'.freeHead = h.freeHead
  size : ∀ b ∈ bs, h'.size b.addr = h.size b.addr
  link : ∀ b ∈ bs.dropLast, h'.link b.addr = h.link b.addr

/-- Nothing but the allocator's own data has changed. -/
structure Same (h h' : Heap) : Prop where
  live : h'.live = h.live
  contents : h'.contents = h.contents
  copies : h'.copies = h.copies

variable {h h' h'' : Heap} {pp q : Loc} {xs ys zs : List Blk} {b c : Blk} {a v brk : ℕ}

lemma Blk.Apart.symm (hbc : b.Apart c) : c.Apart b := Or.symm hbc

lemma Same.refl (h : Heap) : Same h h := ⟨rfl,rfl,rfl⟩

lemma Same.trans (h₁ : Same h h') (h₂ : Same h' h'') : Same h h'' :=
  ⟨h₂.live.trans h₁.live,h₂.contents.trans h₁.contents,h₂.copies.trans h₁.copies⟩

lemma same_store (h : Heap) (a v : ℕ) : Same h (h.store a v) := ⟨rfl,rfl,rfl⟩

lemma same_set (h : Heap) (v : ℕ) (pp : Loc) : Same h (h.set v pp) := by
  cases pp <;> exact ⟨rfl,rfl,rfl⟩

lemma Keeps.refl (bs : List Blk) (h : Heap) : Keeps bs h h := fun _ _ _ _ _ => rfl

lemma Keeps.trans (h₁ : Keeps xs h h') (h₂ : Keeps xs h' h'') : Keeps xs h h'' :=
  fun b hb a ha ha' => (h₂ b hb a ha ha').trans (h₁ b hb a ha ha')

lemma Keeps.mono (hk : Keeps ys h h') (hsub : ∀ b ∈ xs, b ∈ ys) : Keeps xs h h' := fun b hb => hk b (hsub b hb)

lemma keeps_store (hc : c.addr ≤ a ∧ a + 8 ≤ c.addr + c.size) (happ : ∀ b ∈ xs, c.Apart b) : Keeps xs h (h.store a v) := by
  intro b hb x hx hx'
  refine store64_of_out ?_
  have := happ b hb
  unfold Blk.Apart at this
  omega

lemma Keeps.size (hk : Keeps xs h h') (hb : b ∈ xs) (hsize : 8 ≤ b.size) : h'.size b.addr = h.size b.addr :=
  load64_congr fun x hx hx' => hk b hb x hx (by omega)

lemma Keeps.link (hk : Keeps xs h h') (hb : b ∈ xs) (hsize : 16 ≤ b.size) : h'.link b.addr = h.link b.addr :=
  load64_congr fun x hx hx' => hk b hb x (by omega) (by omega)

lemma Behind.trans (h₁ : Behind xs h h') (h₂ : Behind xs h' h'') : Behind xs h h'' :=
  ⟨fun hne => (h₂.head hne).trans (h₁.head hne),fun b hb => (h₂.size b hb).trans (h₁.size b hb),
    fun b hb => (h₂.link b hb).trans (h₁.link b hb)⟩

lemma Keeps.behind (hk : Keeps xs h h') (hhead : h'.freeHead = h.freeHead) (hsize : ∀ b ∈ xs, 16 ≤ b.size) :
    Behind xs h h' where
  head _ := hhead
  size b hb := hk.size hb (by have := hsize b hb; omega)
  link b hb := hk.link ((dropLast_subset xs hb)) (hsize b ((dropLast_subset xs hb)))

lemma after_cases (pp : Loc) (xs : List Blk) : xs = [] ∧ after pp xs = pp ∨ ∃ ys b, xs = ys ++ [b] ∧ after pp xs = .next b.addr := by
  induction xs generalizing pp with
  | nil => exact .inl ⟨rfl,rfl⟩
  | cons b bs ih =>
    right
    rcases ih (.next b.addr) with ⟨rfl,heq⟩ | ⟨ys,c,rfl,heq⟩
    · exact ⟨[],b,rfl,heq⟩
    · exact ⟨b :: ys,c,rfl,heq⟩

lemma get_set (hv : v < 2^64) (pp : Loc) : (h.set v pp).get pp = v := by
  cases pp with
  | head => rfl
  | next b => exact load64_store64 hv

lemma behind_set (happ : xs.Pairwise Blk.Apart) (hsize : ∀ b ∈ xs, 16 ≤ b.size) :
    Behind xs h (h.set v (after .head xs)) := by
  rcases after_cases .head xs with ⟨rfl,-⟩ | ⟨ys,b,rfl,heq⟩
  · exact ⟨fun hne => absurd rfl hne,fun _ hb => (by cases hb),fun _ hb => (by cases hb)⟩
  · rw [heq]
    rw [pairwise_append] at happ
    have hb := hsize b (mem_append_right _ (mem_singleton_self b))
    have hothers : Keeps ys h (h.store (b.addr + 8) v) :=
      keeps_store ⟨by omega,by omega⟩ fun c hc => (happ.2.2 c hc b (mem_singleton_self b)).symm
    refine ⟨fun _ => rfl,fun c hc => ?_,fun c hc => ?_⟩
    · rcases List.mem_append.mp hc with hc | hc
      · exact hothers.size hc (by have := hsize c (mem_append_left _ hc); omega)
      · obtain rfl := List.mem_singleton.mp hc
        exact load64_store64_of_apart (.inr (by omega))
    · rw [dropLast_concat] at hc
      exact hothers.link hc (hsize c (mem_append_left _ hc))

lemma keeps_set (hsize : ∀ b ∈ xs, 16 ≤ b.size) (happ : ∀ b ∈ xs, ∀ c ∈ ys, b.Apart c) :
    Keeps ys h (h.set v (after .head xs)) := by
  rcases after_cases .head xs with ⟨rfl,-⟩ | ⟨zs,b,rfl,heq⟩
  · exact Keeps.refl ys h
  · rw [heq]
    have hb : b ∈ zs ++ [b] := mem_append_right _ (mem_singleton_self b)
    have := hsize b hb
    exact keeps_store ⟨by omega,by omega⟩ (happ b hb)

lemma Chain.congr (hc : Chain h pp xs) (hget : h'.get q = h.get pp) (hk : Keeps xs h h') (hsize : ∀ b ∈ xs, 16 ≤ b.size) :
    Chain h' q xs := by
  induction hc generalizing q with
  | nil last => exact .nil (hget.trans last)
  | @cons pp b bs link pos size rest ih =>
    have hb : b ∈ b :: bs := mem_cons_self
    have h16 := hsize b hb
    refine .cons (hget.trans link) pos ((hk.size hb (by omega)).trans size) (ih ?_ ?_ ?_)
    · exact hk.link hb h16
    · exact hk.mono fun c hc => mem_cons_of_mem b hc
    · exact fun c hc => hsize c (mem_cons_of_mem b hc)

lemma Chain.drop (hc : Chain h pp (xs ++ ys)) : Chain h (after pp xs) ys := by
  induction xs generalizing pp with
  | nil => exact hc
  | cons b bs ih =>
    cases hc with
    | cons _ _ _ rest => exact ih rest

lemma Chain.splice (hc : Chain h pp (xs ++ ys)) (hnew : Chain h' (after pp xs) zs) (hget : xs ≠ [] → h'.get pp = h.get pp)
    (hsize : ∀ b ∈ xs, h'.size b.addr = h.size b.addr) (hlink : ∀ b ∈ xs.dropLast, h'.link b.addr = h.link b.addr) :
    Chain h' pp (xs ++ zs) := by
  induction xs generalizing pp with
  | nil => exact hnew
  | cons b bs ih =>
    cases hc with
    | cons link pos size rest =>
      refine .cons ((hget nofun).trans link) pos ((hsize b mem_cons_self).trans size) (ih rest hnew (fun hne => ?_) ?_ ?_)
      · refine hlink b ?_
        rw [dropLast_cons_of_ne_nil hne]
        exact mem_cons_self
      · exact fun c hc => hsize c (mem_cons_of_mem b hc)
      · intro c hc
        refine hlink c ?_
        have hne : bs ≠ [] := by
          rintro rfl
          cases hc
        rw [dropLast_cons_of_ne_nil hne]
        exact mem_cons_of_mem b hc

lemma Chain.splice_head (hc : Chain h .head (xs ++ ys)) (hnew : Chain h' (after .head xs) zs) (hb : Behind xs h h') :
    Chain h' .head (xs ++ zs) :=
  hc.splice hnew hb.head hb.size hb.link

lemma walk_spec (stop : ℕ → Bool) {fuel : ℕ} (hc : Chain h pp xs) (hlen : xs.length ≤ fuel) :
    ∃ ys zs, xs = ys ++ zs ∧ h.walk stop fuel pp = some (after pp ys) ∧ ∀ b ∈ zs.head?, stop b.addr = true := by
  induction hc generalizing fuel with
  | @nil pp last =>
    refine ⟨[],[],rfl,?_,nofun⟩
    unfold Heap.walk
    rw [if_pos (by simp [last])]
    rfl
  | @cons pp b bs link pos size rest ih =>
    unfold Heap.walk
    rw [link]
    by_cases hstop : stop b.addr = true
    · refine ⟨[],b :: bs,rfl,?_,fun c hc => ?_⟩
      · rw [if_pos (by simp [hstop])]
        rfl
      · cases hc
        exact hstop
    · rw [if_neg (by simp [hstop]; omega)]
      cases fuel with
      | zero => exact absurd hlen (by simp)
      | succ fuel =>
        obtain ⟨ys,zs,rfl,hwalk,hhead⟩ := ih (Nat.le_of_succ_le_succ hlen)
        exact ⟨b :: ys,zs,rfl,hwalk,hhead⟩

lemma walk_some {stop : ℕ → Bool} {fuel : ℕ} (hc : Chain h pp xs) (hw : h.walk stop fuel pp = some q) :
    ∃ ys zs, xs = ys ++ zs ∧ q = after pp ys ∧ ∀ b ∈ zs.head?, stop b.addr = true := by
  induction hc generalizing fuel with
  | @nil pp last =>
    unfold Heap.walk at hw
    rw [if_pos (by simp [last])] at hw
    cases hw
    exact ⟨[],[],rfl,rfl,nofun⟩
  | @cons pp b bs link pos size rest ih =>
    unfold Heap.walk at hw
    rw [link] at hw
    by_cases hstop : stop b.addr = true
    · rw [if_pos (by simp [hstop])] at hw
      cases hw
      refine ⟨[],b :: bs,rfl,rfl,fun c hc => ?_⟩
      cases hc
      exact hstop
    · rw [if_neg (by simp [hstop]; omega)] at hw
      cases fuel with
      | zero => cases hw
      | succ fuel =>
        obtain ⟨ys,zs,rfl,rfl,hhead⟩ := ih hw
        exact ⟨b :: ys,zs,rfl,rfl,hhead⟩

end VibeOS.Malloc

import VibeOS.Heap.Operations
import VibeOS.Runs
import Mathlib.Data.List.Chain
import Mathlib.Data.List.Perm.Basic

/-! The blocks of the kernel heap and what its callers hold, over every sequence of calls. -/
namespace VibeOS.Heap
open List Option Prod

/-- The heap, with the pointers that `kmalloc` gave out and `kfree` did not get back. With each
stands what was asked for. -/
structure World where
  heap : Kheap
  live : List (ℕ × ℕ)

inductive Event
  | malloc (size : ℕ)
  | free (ptr : ℕ)
  | write (a v : ℕ)

/-- Callers give back what they have and write to what they asked for. -/
def Legal (w : World) : Event → Prop
  | .malloc size => size + 31 < 2^64
  | .free ptr => ptr ∈ w.live.map fst
  | .write a _ => ∃ x ∈ w.live, x.1 ≤ a ∧ a < x.1 + x.2

/-- A call and what it returns, or `none` where the kernel stops or loops. -/
def World.step (w : World) : Event → Option (Option ℕ × World)
  | .malloc size =>
    (w.heap.kmalloc size).map fun (p,h) => (p,⟨h,p.elim w.live fun ptr => (ptr,size) :: w.live⟩)
  | .free ptr => (w.heap.kfree ptr).map fun h => (none,⟨h,w.live.eraseP fun x => x.1 == ptr⟩)
  | .write a v => some (none,{ w with heap := w.heap.store a v })

def World.initial (r : Region) (mem : ℕ → ℕ) : World := ⟨kheapInit r.base r.size mem,[]⟩

def payloads : ℕ → List Block → List (ℕ × ℕ)
  | _, [] => []
  | a, b :: bs =>
    if b.used then (a + headerSize,b.size - headerSize) :: payloads (a + b.size) bs else payloads (a + b.size) bs

def Spaced (bs : List Block) : Prop := bs.IsChain fun b c => b.used = true ∨ c.used = true

/-- The heap is in order and its used blocks are what the callers hold. -/
structure Sound (r : Region) (w : World) (bs : List Block) : Prop where
  laid : Laid r w.heap bs
  spaced : Spaced bs
  held : (w.live.map fst).Perm ((payloads r.base bs).map fst)
  enough : ∀ x ∈ w.live, ∃ len, (x.1,len) ∈ payloads r.base bs ∧ x.2 ≤ len

variable {r : Region} {w : World} {mem : ℕ → ℕ} {a e n prev : ℕ} {b : Block} {bs xs ys : List Block}

@[simp] lemma payloads_append (a : ℕ) (xs ys : List Block) :
    payloads a (xs ++ ys) = payloads a xs ++ payloads (a + span xs) ys := by
  induction xs generalizing a with
  | nil => rfl
  | cons b xs ih =>
    simp only [cons_append,payloads,ih,span_cons,Nat.add_assoc]
    split_ifs <;> rfl

@[simp] lemma payloads_free (hfree : b.used = false) (a : ℕ) (bs : List Block) :
    payloads a (b :: bs) = payloads (a + b.size) bs := if_neg (by rw [hfree]; decide)

@[simp] lemma payloads_used (hused : b.used = true) (a : ℕ) (bs : List Block) :
    payloads a (b :: bs) = (a + headerSize,b.size - headerSize) :: payloads (a + b.size) bs := if_pos hused

lemma Tiles.payload_mem (h : Tiles mem a prev bs e) (ha : a % 16 = 0) :
    ∀ x ∈ payloads a bs, x.1 % 16 = 0 ∧ a + headerSize ≤ x.1 ∧ 0 < x.2 ∧ x.1 + x.2 ≤ e := by
  induction bs generalizing a prev with
  | nil => exact fun x hx => absurd hx not_mem_nil
  | cons b bs ih =>
    obtain ⟨-,-,hsized,hrest⟩ := h
    have haligned := hsized.aligned
    have hlarge := hsized.large
    have hend := hrest.end_eq
    have hin := ih hrest (by omega)
    intro x hx
    unfold payloads at hx
    split at hx
    next hused =>
      rcases List.mem_cons.mp hx with rfl | hx
      · unfold headerSize
        exact ⟨by dsimp only; omega,le_rfl,by dsimp only; omega,by dsimp only; omega⟩
      · have := hin x hx
        omega
    next hfree =>
      have := hin x hx
      omega

lemma Tiles.payloads_disjoint (h : Tiles mem a prev bs e) (ha : a % 16 = 0) :
    (payloads a bs).Pairwise fun x y => x.1 + x.2 ≤ y.1 := by
  induction bs generalizing a prev with
  | nil => exact .nil
  | cons b bs ih =>
    obtain ⟨-,-,hsized,hrest⟩ := h
    have haligned := hsized.aligned
    have hlarge := hsized.large
    have hsorted := ih hrest (by omega)
    have hin := hrest.payload_mem (by omega)
    unfold payloads
    split
    next hused =>
      refine hsorted.cons fun x hx => ?_
      have := hin x hx
      unfold headerSize at *
      dsimp only
      omega
    next hfree => exact hsorted

lemma Tiles.payloads_nodup (h : Tiles mem a prev bs e) (ha : a % 16 = 0) : ((payloads a bs).map Prod.fst).Nodup := by
  refine List.pairwise_map.mpr ((h.payloads_disjoint ha).imp_of_mem fun {x} y hx _ hxy => ?_)
  have := h.payload_mem ha x hx
  omega

lemma exists_block_of_mem (x : ℕ × ℕ) (hx : x ∈ payloads a bs) :
    ∃ xs b ys, bs = xs ++ b :: ys ∧ b.used = true ∧ x = (a + span xs + headerSize,b.size - headerSize) := by
  induction bs generalizing a with
  | nil => exact absurd hx not_mem_nil
  | cons b bs ih =>
    have hon (hx : x ∈ payloads (a + b.size) bs) : ∃ xs b' ys, b :: bs = xs ++ b' :: ys ∧ b'.used = true ∧
        x = (a + span xs + headerSize,b'.size - headerSize) := by
      obtain ⟨xs,b',ys,rfl,hused,rfl⟩ := ih hx
      exact ⟨b :: xs,b',ys,rfl,hused,by rw [span_cons,Nat.add_assoc a]⟩
    unfold payloads at hx
    split at hx
    next hused =>
      rcases List.mem_cons.mp hx with rfl | hx
      · exact ⟨[],b,bs,rfl,hused,rfl⟩
      · exact hon hx
    next hfree => exact hon hx

lemma spaced_append : Spaced (xs ++ ys) ↔
    Spaced xs ∧ Spaced ys ∧ ∀ b ∈ xs.getLast?, ∀ c ∈ ys.head?, b.used = true ∨ c.used = true := isChain_append

lemma spaced_cons : Spaced (b :: ys) ↔ (∀ c ∈ ys.head?, b.used = true ∨ c.used = true) ∧ Spaced ys := isChain_cons

lemma spaced_free (hfree : b.used = false) : Spaced (xs ++ b :: ys) ↔
    Spaced xs ∧ Spaced ys ∧ (∀ c ∈ xs.getLast?, c.used = true) ∧ ∀ c ∈ ys.head?, c.used = true := by
  simp only [spaced_append,spaced_cons,hfree,head?_cons,mem_def,some.injEq,forall_eq',
    Bool.false_eq_true,or_false,false_or]
  tauto

lemma spaced_used (hused : b.used = true) : Spaced (xs ++ b :: ys) ↔ Spaced xs ∧ Spaced ys := by
  simp only [spaced_append,spaced_cons,hused,head?_cons,mem_def,some.injEq,forall_eq',
    or_true,true_or,implies_true,true_and,and_true]

lemma Sound.nodup (hs : Sound r w bs) : (w.live.map Prod.fst).Nodup :=
  hs.held.nodup_iff.mpr (hs.laid.tiles.payloads_nodup r.base_aligned)

lemma payloads_carve (a : ℕ) {need n : ℕ} (hfit : need ≤ n) :
    span (carve need n) = n ∧ ∃ len, payloads a (carve need n) = [(a + headerSize,len)] ∧ need - headerSize ≤ len := by
  unfold carve
  split
  next hsplit => exact ⟨by simp only [span_cons,span_nil]; omega,_,rfl,le_rfl⟩
  next hwhole => exact ⟨rfl,_,rfl,Nat.sub_le_sub_right hfit _⟩

lemma spaced_carve {need : ℕ} (hfree : b.used = false) (h : Spaced (xs ++ b :: ys)) :
    Spaced (xs ++ (carve need b.size ++ ys)) := by
  obtain ⟨hxs,hys,-,hhead⟩ := (spaced_free hfree).mp h
  unfold carve
  split
  next hsplit => exact (spaced_used rfl).mpr ⟨hxs,spaced_cons.mpr ⟨fun c hc => .inr (hhead c hc),hys⟩⟩
  next hwhole => exact (spaced_used rfl).mpr ⟨hxs,hys⟩

lemma malloc_sound (hs : Sound r w bs) (size : ℕ) (hsize : size + 31 < 2^64) :
    ∃ p w', w.step (.malloc size) = some (p,w') ∧ (∃ bs', Sound r w' bs') ∧
      (p = none ↔ size = 0 ∨ ∀ b ∈ bs, b.used = false → b.size - headerSize < size) := by
  by_cases hzero : size = 0
  · subst hzero
    exact ⟨none,w,rfl,⟨bs,hs⟩,fun _ => .inl rfl,fun _ => rfl⟩
  simp only [World.step]
  have hserves (b : Block) (hb : b ∈ bs) := needOf_le_iff (hs.laid.tiles.sized b hb) size hsize
  rcases kmalloc_spec hs.laid size hzero hsize with ⟨hnone,hall⟩ | ⟨xs,b,ys,h',rfl,hfree,hfit,hsome,hlaid⟩
  · rw [hnone]
    refine ⟨none,w,rfl,⟨bs,hs⟩,fun _ => .inr fun b hb hfree => ?_,fun _ => rfl⟩
    have hsmall := hall b hb hfree
    have := hserves b hb
    omega
  · rw [hsome]
    have hneed := (needOf_sized size hsize).2
    obtain ⟨hspan,len,hcarve,hlen⟩ := payloads_carve (r.base + span xs) hfit
    have hbefore : payloads r.base (xs ++ b :: ys) = payloads r.base xs ++ payloads (r.base + span xs + b.size) ys := by
      rw [payloads_append,payloads_free hfree]
    have hafter : payloads r.base (xs ++ (carve (needOf size) b.size ++ ys)) =
        payloads r.base xs ++ (r.base + span xs + headerSize,len) :: payloads (r.base + span xs + b.size) ys := by
      rw [payloads_append,payloads_append,hcarve,hspan]
      rfl
    refine ⟨_,_,rfl,⟨_,hlaid,spaced_carve hfree hs.spaced,?_,?_⟩,fun hp => absurd hp (some_ne_none _),fun hno => ?_⟩
    · have hheld := hs.held
      rw [hbefore,map_append] at hheld
      rw [hafter,map_append,map_cons]
      exact (hheld.cons _).trans List.perm_middle.symm
    · intro x hx
      rw [hafter]
      rcases List.mem_cons.mp hx with rfl | hx
      · exact ⟨len,by simp,by dsimp only; omega⟩
      · obtain ⟨len',hmem,hle⟩ := hs.enough x hx
        rw [hbefore,mem_append] at hmem
        exact ⟨len',by rw [mem_append,mem_cons]; tauto,hle⟩
    · have := hserves b (by simp)
      rcases hno with hno | hno
      · exact absurd hno hzero
      · have := hno b (by simp) hfree
        omega

lemma free_left {ws : List Block} (hxs : Spaced xs) (h : (ws = xs ∧ ∀ c ∈ xs.getLast?, c.used = true) ∨
    ∃ c, xs = ws ++ [c] ∧ c.used = false) :
    Spaced ws ∧ (∀ c ∈ ws.getLast?, c.used = true) ∧ payloads a ws = payloads a xs := by
  rcases h with ⟨rfl,hlast⟩ | ⟨c,rfl,hfree⟩
  · exact ⟨hxs,hlast,rfl⟩
  · obtain ⟨hws,-,hlast,-⟩ := (spaced_free hfree).mp hxs
    exact ⟨hws,hlast,by rw [payloads_append,payloads_free hfree,payloads,append_nil]⟩

lemma free_right {zs : List Block} (hys : Spaced ys) (h : (zs = ys ∧ ∀ c ∈ ys.head?, c.used = true) ∨
    ∃ c, ys = c :: zs ∧ c.used = false) :
    Spaced zs ∧ (∀ c ∈ zs.head?, c.used = true) ∧ ∃ n, span ys = n + span zs ∧ payloads a ys = payloads (a + n) zs := by
  rcases h with ⟨rfl,hhead⟩ | ⟨c,rfl,hfree⟩
  · exact ⟨hys,hhead,0,(Nat.zero_add _).symm,rfl⟩
  · obtain ⟨hhead,hzs⟩ := spaced_cons.mp hys
    exact ⟨hzs,fun d hd => (hhead d hd).resolve_left (by rw [hfree]; decide),c.size,span_cons _ _,payloads_free hfree _ _⟩

lemma free_sound (hs : Sound r w bs) {ptr : ℕ} (hlive : ptr ∈ w.live.map fst) :
    ∃ w', w.step (.free ptr) = some (none,w') ∧ (∃ bs', Sound r w' bs') ∧
      (w.live.map fst).Perm (ptr :: w'.live.map fst) := by
  obtain ⟨x,hx,rfl⟩ := List.mem_map.mp (hs.held.mem_iff.mp hlive)
  obtain ⟨xs,b,ys,rfl,hused,rfl⟩ := exists_block_of_mem x hx
  obtain ⟨h',ws,d,zs,hfree,hlaid,hd,hws,hzs⟩ := kfree_spec hs.laid
  obtain ⟨hxs,hys⟩ := (spaced_used hused).mp hs.spaced
  obtain ⟨hws,hlast,hleft⟩ := free_left (a := r.base) hxs hws
  obtain ⟨hzs,hhead,n,hn,hright⟩ := free_right (a := r.base + span xs + b.size) hys hzs
  have hspan : r.base + span ws + d.size = r.base + span xs + b.size + n := by
    have hbefore := hs.laid.tiles.end_eq
    have hafter := hlaid.tiles.end_eq
    rw [span_append,span_cons] at hbefore hafter
    omega
  have hbefore : payloads r.base (xs ++ b :: ys) = payloads r.base ws ++
      (r.base + span xs + headerSize,b.size - headerSize) :: payloads (r.base + span ws + d.size) zs := by
    rw [payloads_append,payloads_used hused,hleft,hright,hspan]
  have hafter : payloads r.base (ws ++ d :: zs) = payloads r.base ws ++ payloads (r.base + span ws + d.size) zs := by
    rw [payloads_append,payloads_free hd]
  -- what the callers hold without the pointer
  obtain ⟨y,hy,hyptr⟩ := List.mem_map.mp hlive
  obtain ⟨y',l,l',-,hy',hsplit,herase⟩ := exists_of_eraseP (p := fun x => x.1 == r.base + span xs + headerSize) hy
    (beq_iff_eq.mpr hyptr)
  have hptr : y'.1 = r.base + span xs + headerSize := beq_iff_eq.mp hy'
  have hperm : (w.live.map fst).Perm ((r.base + span xs + headerSize) :: (l ++ l').map fst) := by
    rw [hsplit,map_append,map_cons,hptr,map_append]
    exact perm_middle
  simp only [World.step,hfree,map_some,herase]
  refine ⟨_,rfl,⟨_,hlaid,(spaced_free hd).mpr ⟨hws,hzs,hlast,hhead⟩,?_,?_⟩,hperm⟩
  · have hheld := hperm.symm.trans hs.held
    rw [hbefore,map_append,map_append,map_cons] at hheld
    rw [hafter,map_append,map_append]
    exact (hheld.trans perm_middle).cons_inv
  · intro z hz
    obtain ⟨len,hmem,hle⟩ := hs.enough z (by rw [hsplit]; simp only [mem_append,mem_cons] at hz ⊢; tauto)
    have hother : z.1 ≠ r.base + span xs + headerSize := by
      intro heq
      have hnodup := hperm.nodup_iff.mp hs.nodup
      exact (List.nodup_cons.mp hnodup).1 (List.mem_map.mpr ⟨z,hz,heq⟩)
    rw [hbefore,mem_append,mem_cons] at hmem
    refine ⟨len,?_,hle⟩
    rw [hafter,mem_append]
    rcases hmem with hmem | heq | hmem
    · exact .inl hmem
    · exact absurd (congrArg fst heq) hother
    · exact .inr hmem

lemma write_sound (hs : Sound r w bs) {a : ℕ} (hlive : ∃ x ∈ w.live, x.1 ≤ a ∧ a < x.1 + x.2) (v : ℕ) :
    Sound r { w with heap := w.heap.store a v } bs := by
  obtain ⟨x,hx,hle,hlt⟩ := hlive
  obtain ⟨len,hmem,hlen⟩ := hs.enough x hx
  obtain ⟨xs,b,ys,rfl,hused,heq⟩ := exists_block_of_mem _ hmem
  obtain ⟨hptr,rfl⟩ := Prod.mk.inj heq
  obtain ⟨htag,hprev,hsized,-⟩ := hs.laid.block
  have hlarge := hsized.large
  unfold headerSize at *
  have hspan : span [b] = b.size := Nat.add_zero _
  have houtside (y : ℕ) (hy : y ≠ a) := store_of_ne (h := w.heap) (v := v) hy
  refine ⟨Laid.replace [b] [b] hs.laid ⟨rfl,rfl⟩ ?_ ?_ ?_,hs.spaced,hs.held,hs.enough⟩
  · rw [hspan]
    exact ⟨(houtside _ (by omega)).trans htag,(houtside _ (by omega)).trans hprev,hsized,rfl⟩
  · intro y hy hne
    rw [hspan] at hy
    exact houtside y (by omega)
  · intro hys
    obtain ⟨c,zs,rfl⟩ := exists_cons_of_ne_nil hys
    obtain ⟨-,-,-,-,-,hafter,-⟩ := tiles_append.mp hs.laid.tiles
    rw [hspan]
    exact (houtside _ (by omega)).trans hafter

lemma step_sound (hs : Sound r w bs) {ev : Event} (hlegal : Legal w ev) :
    ∃ p w', w.step ev = some (p,w') ∧ ∃ bs', Sound r w' bs' := by
  cases ev with
  | malloc size =>
    obtain ⟨p,w',hstep,hsound,-⟩ := malloc_sound hs size hlegal
    exact ⟨p,w',hstep,hsound⟩
  | free ptr =>
    obtain ⟨w',hstep,hsound,-⟩ := free_sound hs hlegal
    exact ⟨none,w',hstep,hsound⟩
  | write a v => exact ⟨none,_,rfl,bs,write_sound hs hlegal v⟩

lemma initial_sound (r : Region) (mem : ℕ → ℕ) : Sound r (World.initial r mem) [⟨r.size,false⟩] :=
  ⟨kheapInit_laid r mem,isChain_singleton _,.refl _,fun _ hx => absurd hx not_mem_nil⟩

lemma run_sound {es : List Event} (h : Runs World.step Legal (World.initial r mem) es w) : ∃ bs, Sound r w bs := by
  refine h.invariant (I := fun w => ∃ bs, Sound r w bs) (fun w ev p w' ⟨bs,hs⟩ hlegal hstep => ?_) ⟨_,initial_sound r mem⟩
  obtain ⟨p',w'',hstep',hsound⟩ := step_sound hs hlegal
  rw [hstep',some.injEq,Prod.mk.injEq] at hstep
  exact hstep.2 ▸ hsound

lemma payloads_eq_nil (h : payloads a (b :: bs) = []) : b.used = false ∧ payloads (a + b.size) bs = [] := by
  unfold payloads at h
  split at h
  next hused => exact absurd h (cons_ne_nil _ _)
  next hfree => exact ⟨eq_false_of_ne_true hfree,h⟩

lemma Sound.single (hs : Sound r w bs) (hlive : w.live = []) : bs = [⟨r.size,false⟩] := by
  have hend := hs.laid.tiles.end_eq
  have hspaced := hs.spaced
  have hnone : payloads r.base bs = [] := by
    have hheld := hs.held
    rw [hlive] at hheld
    exact List.map_eq_nil_iff.mp hheld.nil_eq.symm
  cases bs with
  | nil =>
    have hlarge := r.large
    rw [span_nil] at hend
    omega
  | cons b bs =>
    obtain ⟨hfree,hnone⟩ := payloads_eq_nil hnone
    cases bs with
    | nil =>
      obtain ⟨size,used⟩ := b
      rw [span_cons,span_nil] at hend
      dsimp only at hend hfree
      rw [hfree,(by omega : size = r.size)]
    | cons c bs =>
      obtain ⟨hfree',-⟩ := payloads_eq_nil hnone
      have hapart := (spaced_cons.mp hspaced).1 c rfl
      rw [hfree,hfree'] at hapart
      exact absurd hapart (by decide)

lemma free_all (hs : Sound r w bs) {ps : List ℕ} (hps : (w.live.map fst).Perm ps) :
    ∃ w', Runs World.step Legal w (ps.map .free) w' ∧ w'.live = [] ∧ ∃ bs', Sound r w' bs' := by
  induction ps generalizing w bs with
  | nil => exact ⟨w,.nil w,List.map_eq_nil_iff.mp hps.eq_nil,bs,hs⟩
  | cons p ps ih =>
    have hp := hps.mem_iff.mpr mem_cons_self
    obtain ⟨w',hstep,⟨bs',hs'⟩,hrest⟩ := free_sound hs hp
    obtain ⟨w'',hrun,hdone⟩ := ih hs' (hrest.symm.trans hps).cons_inv
    exact ⟨w'',.cons hp hstep hrun,hdone⟩

/-- After every sequence of calls the blocks tile the region, each with the size of the one before
it, and no two free blocks are neighbours. What the callers hold are the payloads of the used
blocks: they are aligned, apart from each other and as long as was asked for. `kmalloc` returns
NULL just for a request of 0 bytes and where no free block has a payload that is long enough.
Giving everything back in any order leaves the one free block of the start. -/
theorem heap_integrity (r : Region) (mem : ℕ → ℕ) (es : List Event)
    (h : Runs World.step Legal (World.initial r mem) es w) :
    ∃ bs, Sound r w bs ∧ (∀ x ∈ w.live, x.1 % 16 = 0) ∧ (payloads r.base bs).Pairwise (fun x y => x.1 + x.2 ≤ y.1) ∧
      (∀ size, size + 31 < 2^64 → ∃ p w', w.step (.malloc size) = some (p,w') ∧
        (p = none ↔ size = 0 ∨ ∀ b ∈ bs, b.used = false → b.size - headerSize < size)) ∧
      ∀ ps, (w.live.map fst).Perm ps → ∃ w', Runs World.step Legal w (ps.map .free) w' ∧ w'.live = [] ∧
        Laid r w'.heap [⟨r.size,false⟩] := by
  obtain ⟨bs,hs⟩ := run_sound h
  refine ⟨bs,hs,fun x hx => ?_,hs.laid.tiles.payloads_disjoint r.base_aligned,fun size hsize => ?_,fun ps hps => ?_⟩
  · obtain ⟨len,hmem,-⟩ := hs.enough x hx
    exact (hs.laid.tiles.payload_mem r.base_aligned _ hmem).1
  · obtain ⟨p,w',hstep,-,hnull⟩ := malloc_sound hs size hsize
    exact ⟨p,w',hstep,hnull⟩
  · obtain ⟨w',hrun,hlive,bs',hs'⟩ := free_all hs hps
    exact ⟨w',hrun,hlive,hs'.single hlive ▸ hs'.laid⟩

def page : Region := ⟨4096,64,rfl,by decide,rfl,by decide,by decide⟩

theorem heap_integrity_page : ∃ w, Runs World.step Legal (World.initial page fun _ => 0) [.malloc 8,.malloc 16] w ∧
    w.live = [(4144,16),(4112,8)] ∧ ∃ bs, Sound page w bs := by
  have hrun : ∃ w, Runs World.step Legal (World.initial page fun _ => 0) [.malloc 8,.malloc 16] w ∧
      w.live = [(4144,16),(4112,8)] :=
    ⟨_,.cons (by decide : 8 + 31 < 2^64) rfl (.cons (by decide : 16 + 31 < 2^64) rfl (.nil _)),rfl⟩
  obtain ⟨w,hrun,hlive⟩ := hrun
  obtain ⟨bs,hs,-⟩ := heap_integrity page _ _ hrun
  exact ⟨w,hrun,hlive,bs,hs⟩

/-- A request of 0 bytes gets NULL though there is a free block. -/
theorem kmalloc_zero_returns_null : Laid page (World.initial page fun _ => 0).heap [⟨64,false⟩] ∧
    ((World.initial page fun _ => 0).step (.malloc 0)).map fst = some none ∧ ¬ 64 - headerSize < 0 :=
  ⟨kheapInit_laid page _,rfl,by decide⟩

end VibeOS.Heap

import VibeOS.Malloc.Chain

/-! The heap of a program stays sound under every sequence of calls. -/
namespace VibeOS.Malloc
open VibeOS.Storage VibeOS.Memory List

variable {h h' : Heap} {fs us xs ys : List Blk} {b c u : Blk} {need fuel v : ℕ}

/-- The free blocks `fs` and the blocks in use `us` share the heap. -/
structure Core (h : Heap) (fs us : List Blk) : Prop where
  chain : Chain h .head fs
  apart : (fs ++ us).Pairwise Blk.Apart
  placed : ∀ b ∈ fs ++ us, b.InHeap h.brk
  header : ∀ b ∈ us, h.size b.addr = b.size
  lower : userHeapBase ≤ h.brk
  upper : h.brk ≤ userHeapMax
  aligned : h.brk % 16 = 0

lemma Core.least (hc : Core h fs us) (hb : b ∈ fs ++ us) : 16 ≤ b.size := by
  have := (hc.placed b hb).least
  omega

lemma Core.small (hc : Core h fs us) (hb : b ∈ fs ++ us) : b.addr + b.size < 2^63 ∧ 0 < b.addr := by
  have hp := hc.placed b hb
  have h₁ := hp.upper
  have h₂ := hp.lower
  have h₃ := hc.upper
  unfold userHeapMax at h₃
  unfold userHeapBase at h₂
  omega

lemma roundSize_spec {want : ℕ} (hw : want + 24 ≤ 2^63) :
    roundSize want % 16 = 0 ∧ 32 ≤ roundSize want ∧ want + 8 ≤ roundSize want ∧ roundSize want < 2^63 := by
  unfold roundSize roundUp wrap hdrSize align
  dsimp only
  split <;> omega

lemma growSize_spec (hn : need % 16 = 0) (hlt : need < 2^63) :
    growSize need % 16 = 0 ∧ need ≤ growSize need ∧ 32 ≤ growSize need ∧ growSize need < 2^63 := by
  unfold growSize roundUp wrap align mallocGrow
  split <;> omega

lemma sysSbrk_spec {brk inc brk' : ℕ} {room : Bool} (hinc : inc < 2^63) (hbrk : brk ≤ userHeapMax)
    (now : sysSbrk brk inc room = some brk') : brk + inc ≤ brk' ∧ brk' ≤ userHeapMax ∧ brk' % 16 = 0 := by
  unfold sysSbrk at now
  rw [if_pos hinc] at now
  dsimp only at now
  unfold userHeapMax at *
  split at now
  · cases now
  · split at now
    · cases now
    · next hno =>
      cases now
      unfold AddressSpace.brkTarget pageSize userHeapBase at *
      omega

lemma Blk.Apart.part (h : b.Apart c) (hl : b.addr ≤ u.addr) (hr : u.addr + u.size ≤ b.addr + b.size) : u.Apart c := by
  unfold Blk.Apart at *
  omega

variable {zs : List Blk}

lemma apart_middle : (xs ++ b :: ys ++ zs).Pairwise Blk.Apart ↔
    (∀ c ∈ xs ++ ys ++ zs, b.Apart c) ∧ (xs ++ ys ++ zs).Pairwise Blk.Apart := by
  rw [append_assoc,cons_append,pairwise_middle Blk.Apart.symm,pairwise_cons,append_assoc]

lemma apart_used : (xs ++ b :: zs).Pairwise Blk.Apart ↔
    (∀ c ∈ xs ++ zs, b.Apart c) ∧ (xs ++ zs).Pairwise Blk.Apart := by
  rw [pairwise_middle Blk.Apart.symm,pairwise_cons]

lemma mem_middle {P : Blk → Prop} :
    (∀ c ∈ xs ++ b :: ys ++ zs, P c) ↔ P b ∧ ∀ c ∈ xs ++ ys ++ zs, P c := by
  simp only [mem_append,mem_cons]
  constructor
  · exact fun h => ⟨h b (.inl (.inr (.inl rfl))),fun c hc => h c (by tauto)⟩
  · rintro ⟨hb,h⟩ c ((hc | rfl | hc) | hc)
    · exact h c (.inl (.inl hc))
    · exact hb
    · exact h c (.inl (.inr hc))
    · exact h c (.inr hc)

lemma mem_used {P : Blk → Prop} : (∀ c ∈ xs ++ b :: zs, P c) ↔ P b ∧ ∀ c ∈ xs ++ zs, P c := by
  simp only [mem_append,mem_cons]
  constructor
  · exact fun h => ⟨h b (.inr (.inl rfl)),fun c hc => h c (by tauto)⟩
  · rintro ⟨hb,h⟩ c (hc | rfl | hc)
    · exact h c (.inl hc)
    · exact hb
    · exact h c (.inr hc)

structure Around (h : Heap) (xs : List Blk) (b : Blk) (ys us : List Blk) : Prop where
  others : ∀ c ∈ xs ++ ys ++ us, b.Apart c
  apart : (xs ++ ys ++ us).Pairwise Blk.Apart
  block : b.InHeap h.brk
  placed : ∀ c ∈ xs ++ ys ++ us, c.InHeap h.brk
  small : b.addr + b.size < 2^63 ∧ 0 < b.addr

lemma Core.around (hc : Core h (xs ++ b :: ys) us) : Around h xs b ys us where
  others := (apart_middle.mp hc.apart).1
  apart := (apart_middle.mp hc.apart).2
  block := (mem_middle.mp hc.placed).1
  placed := (mem_middle.mp hc.placed).2
  small := hc.small (mem_append_left _ (mem_append_right _ mem_cons_self))

namespace Around
variable (ha : Around h xs b ys us)
include ha

lemma front : xs.Pairwise Blk.Apart := (List.pairwise_append.mp (List.pairwise_append.mp ha.apart).1).1

lemma front_least : ∀ c ∈ xs, 16 ≤ c.size := fun c hc => by
  have := (ha.placed c (mem_append_left _ (mem_append_left _ hc))).least
  omega

lemma back_least : ∀ c ∈ ys, 16 ≤ c.size := fun c hc => by
  have := (ha.placed c (mem_append_left _ (mem_append_right _ hc))).least
  omega

lemma cross : ∀ c ∈ xs, ∀ d ∈ ys ++ us, c.Apart d := by
  have h := ha.apart
  rw [append_assoc] at h
  exact (List.pairwise_append.mp h).2.2

lemma store_keeps {k : Heap} {a : ℕ} (hl : b.addr ≤ a) (hr : a + 8 ≤ b.addr + b.size) : Keeps (xs ++ ys ++ us) k (k.store a v) :=
  keeps_store ⟨hl,hr⟩ ha.others

lemma set_keeps {k : Heap} : Keeps (b :: (ys ++ us)) k (k.set v (after .head xs)) :=
  keeps_set ha.front_least fun c hc d hd => by
    rcases List.mem_cons.mp hd with rfl | hd
    · exact (ha.others c (mem_append_left _ (mem_append_left _ hc))).symm
    · exact ha.cross c hc d hd

lemma behind {k : Heap} (hk : Keeps (xs ++ ys ++ us) h k) (hhead : k.freeHead = h.freeHead) :
    Behind xs h (k.set v (after .head xs)) :=
  ((hk.mono fun _ hc => mem_append_left _ (mem_append_left _ hc)).behind hhead ha.front_least).trans
    (behind_set ha.front ha.front_least)

lemma keeps {k : Heap} (hk : Keeps (xs ++ ys ++ us) h k) : Keeps (ys ++ us) h (k.set v (after .head xs)) :=
  (hk.mono fun c hc => by
    rcases List.mem_append.mp hc with hc | hc
    · exact mem_append_left _ (mem_append_right _ hc)
    · exact mem_append_right _ hc).trans (ha.set_keeps.mono fun c hc => mem_cons_of_mem b hc)

end Around

lemma Keeps.left (hk : Keeps (xs ++ ys) h h') : Keeps xs h h' := hk.mono fun _ hc => mem_append_left _ hc
lemma Keeps.right (hk : Keeps (xs ++ ys) h h') : Keeps ys h h' := hk.mono fun _ hc => mem_append_right _ hc

lemma set_brk (h : Heap) (v : ℕ) (pp : Loc) : (h.set v pp).brk = h.brk := by
  cases pp <;> rfl

lemma split_spec (hc : Core h (xs ++ b :: ys) us) (hneed : need % 16 = 0) (hleast : 32 ≤ need)
    (hleft : 32 ≤ b.size - need) (hlink : h.link b.addr < 2^64) :
    let k := ((h.store (b.addr + need) (b.size - need)).store (b.addr + need + 8) (h.link b.addr)).store b.addr need
    Core (k.set (b.addr + need) (after .head xs)) (xs ++ ⟨b.addr + need,b.size - need⟩ :: ys) (⟨b.addr,need⟩ :: us) ∧
      Keeps us h (k.set (b.addr + need) (after .head xs)) := by
  intro k
  have ha := hc.around
  have hsmall := ha.small
  have hin := ha.block
  have hk : Keeps (xs ++ ys ++ us) h k :=
    ((ha.store_keeps (by omega) (by omega)).trans (ha.store_keeps (by omega) (by omega))).trans
      (ha.store_keeps (by omega) (by omega))
  have hkeeps := ha.keeps (v := b.addr + need) hk
  have hload {a : ℕ} (hl : b.addr ≤ a) (hr : a + 8 ≤ b.addr + b.size) :
      load64 (k.set (b.addr + need) (after .head xs)).mem a = load64 k.mem a :=
    load64_congr fun x hx hx' => ha.set_keeps b mem_cons_self x (by omega) (by omega)
  have hsize_b : (k.set (b.addr + need) (after .head xs)).size b.addr = need :=
    (hload (Nat.le_refl _) (by omega)).trans (load64_store64 (by omega))
  have hsize_t : (k.set (b.addr + need) (after .head xs)).size (b.addr + need) = b.size - need :=
    calc load64 (k.set (b.addr + need) (after .head xs)).mem (b.addr + need) = load64 k.mem (b.addr + need) :=
          hload (by omega) (by omega)
      _ = load64 ((h.store (b.addr + need) (b.size - need)).store (b.addr + need + 8) (h.link b.addr)).mem (b.addr + need) :=
          load64_store64_of_apart (.inl (by omega))
      _ = load64 (h.store (b.addr + need) (b.size - need)).mem (b.addr + need) := load64_store64_of_apart (.inr (by omega))
      _ = b.size - need := load64_store64 (by omega)
  have hlink_t : (k.set (b.addr + need) (after .head xs)).link (b.addr + need) = h.link b.addr :=
    calc load64 (k.set (b.addr + need) (after .head xs)).mem (b.addr + need + 8) = load64 k.mem (b.addr + need + 8) :=
          hload (by omega) (by omega)
      _ = load64 ((h.store (b.addr + need) (b.size - need)).store (b.addr + need + 8) (h.link b.addr)).mem
            (b.addr + need + 8) := load64_store64_of_apart (.inl (by omega))
      _ = h.link b.addr := load64_store64 hlink
  have hb : Blk.InHeap h.brk ⟨b.addr,need⟩ ∧ Blk.InHeap h.brk ⟨b.addr + need,b.size - need⟩ := by
    obtain ⟨h₁,h₂,h₃,h₄,h₅⟩ := hin
    exact ⟨⟨h₁,by dsimp only; omega,h₃,hneed,hleast⟩,⟨by dsimp only; omega,by dsimp only; omega,by dsimp only; omega,
      by dsimp only; omega,hleft⟩⟩
  refine ⟨⟨?_,?_,?_,?_,?_,?_,?_⟩,hkeeps.right⟩
  · refine hc.chain.splice_head (.cons (get_set (by omega) _) ?_ hsize_t ?_) (ha.behind hk rfl)
    · change 0 < b.addr + need
      omega
    · have hrest := hc.chain.drop
      cases hrest with
      | cons _ _ _ hys => exact hys.congr hlink_t hkeeps.left ha.back_least
  · rw [apart_middle,apart_used]
    refine ⟨?_,fun c hc => (ha.others c hc).part (Nat.le_refl _) (by dsimp only; omega),ha.apart⟩
    rw [mem_used]
    refine ⟨.inr (Nat.le_refl _),fun c hc => (ha.others c hc).part (Nat.le_add_right _ _) (by dsimp only; omega)⟩
  · rw [mem_middle,mem_used,set_brk]
    exact ⟨hb.2,hb.1,ha.placed⟩
  · intro d hd
    rcases List.mem_cons.mp hd with rfl | hd
    · exact hsize_b
    · exact (hkeeps.right.size hd (by have := hc.least (mem_append_right _ hd); omega)).trans (hc.header d hd)
  all_goals rw [set_brk]
  · exact hc.lower
  · exact hc.upper
  · exact hc.aligned

lemma whole_spec (hc : Core h (xs ++ b :: ys) us) : Core (h.set (h.link b.addr) (after .head xs)) (xs ++ ys) (b :: us) ∧
    Keeps us h (h.set (h.link b.addr) (after .head xs)) := by
  have ha := hc.around
  have hkeeps := ha.keeps (v := h.link b.addr) (Keeps.refl _ h)
  have hrest := hc.chain.drop
  cases hrest with
  | cons _ _ hsize hys =>
  refine ⟨⟨?_,?_,?_,?_,?_,?_,?_⟩,hkeeps.right⟩
  · refine hc.chain.splice_head ?_ (ha.behind (Keeps.refl _ h) rfl)
    exact hys.congr (get_set (load64_lt _ _) _) hkeeps.left ha.back_least
  · rw [apart_used]
    exact ⟨ha.others,ha.apart⟩
  · rw [mem_used,set_brk]
    exact ⟨ha.block,ha.placed⟩
  · intro d hd
    rcases List.mem_cons.mp hd with rfl | hd
    · have := ha.block.least
      exact (ha.set_keeps.size mem_cons_self (by omega)).trans hsize
    · exact (hkeeps.right.size hd (by have := hc.least (mem_append_right _ hd); omega)).trans (hc.header d hd)
  all_goals rw [set_brk]
  · exact hc.lower
  · exact hc.upper
  · exact hc.aligned

/-- `malloc` gave out a block, or NULL. -/
structure Given (h : Heap) (us : List Blk) (need p : ℕ) (h' : Heap) : Prop where
  keeps : Keeps us h h'
  same : Same h h'
  result : (p = 0 ∧ ∃ fs, Core h' fs us) ∨ ∃ fs b, p = b.addr + hdrSize ∧ need ≤ b.size ∧ Core h' fs (b :: us)

lemma take_spec (hc : Core h (xs ++ b :: ys) us) (hneed : need % 16 = 0) (hleast : 32 ≤ need) (hfit : need ≤ b.size) :
    Given h us need (b.addr + hdrSize) (h.take need b.addr (after .head xs)) := by
  have hsmall := hc.around.small
  have hrest := hc.chain.drop
  cases hrest with
  | cons _ _ hsize hys =>
  unfold Heap.take
  rw [hsize]
  dsimp only
  split
  · next hleft =>
    have htail : wrap (b.addr + need) = b.addr + need := Nat.mod_eq_of_lt (by omega)
    have hlink : (h.store (b.addr + need) (b.size - need)).link b.addr = h.link b.addr :=
      load64_store64_of_apart (.inr (by omega))
    rw [htail,hlink]
    obtain ⟨hcore,hkeeps⟩ := split_spec hc hneed hleast hleft (load64_lt _ _)
    have hstores := ((same_store h (b.addr + need) (b.size - need)).trans (same_store _ (b.addr + need + 8) (h.link b.addr))).trans
      (same_store _ b.addr need)
    exact ⟨hkeeps,hstores.trans (same_set _ _ _),.inr ⟨_,⟨b.addr,need⟩,rfl,Nat.le_refl _,hcore⟩⟩
  · obtain ⟨hcore,hkeeps⟩ := whole_spec hc
    exact ⟨hkeeps,same_set _ _ _,.inr ⟨_,_,rfl,hfit,hcore⟩⟩

lemma Blk.InHeap.mono {brk brk' : ℕ} (h : b.InHeap brk) (hle : brk ≤ brk') : b.InHeap brk' :=
  ⟨h.lower,h.upper.trans hle,h.aligned,h.rounded,h.least⟩

lemma grow_spec (hc : Core h fs us) (hneed : need % 16 = 0) (hlt : need < 2^63) {room : Bool}
    (now : h.grow need room = some h') :
    Core h' (⟨h.brk,growSize need⟩ :: fs) us ∧ Keeps us h h' ∧ Same h h' ∧ need ≤ growSize need := by
  obtain ⟨hmul,hle,hleast,hbound⟩ := growSize_spec hneed hlt
  unfold Heap.grow at now
  dsimp only at now
  cases hs : sysSbrk h.brk (growSize need) room with
  | none =>
    rw [hs] at now
    cases now
  | some brk =>
    rw [hs] at now
    cases now
    obtain ⟨hbrk,hmax,hal⟩ := sysSbrk_spec hbound hc.upper hs
    have hlower := hc.lower
    have hupper := hc.upper
    have hnew : ∀ c ∈ fs ++ us, (⟨h.brk,growSize need⟩ : Blk).Apart c := fun c hcm => .inr (hc.placed c hcm).upper
    have hfirst : Keeps (fs ++ us) h ({ h with brk := brk }.store h.brk (growSize need)) :=
      keeps_store (h := h) (c := ⟨h.brk,growSize need⟩) ⟨Nat.le_refl h.brk,show h.brk + 8 ≤ h.brk + growSize need by omega⟩ hnew
    have hkeeps : Keeps (fs ++ us) h (({ h with brk := brk }.store h.brk (growSize need)).store (h.brk + 8) h.freeHead) :=
      hfirst.trans (keeps_store (c := ⟨h.brk,growSize need⟩)
        ⟨Nat.le_add_right h.brk 8,show h.brk + 8 + 8 ≤ h.brk + growSize need by omega⟩ hnew)
    have hhead : h.freeHead < 2^64 := by
      have hchain := hc.chain
      cases hchain with
      | nil last =>
        have : h.freeHead = 0 := last
        omega
      | @cons _ b bs link _ _ _ =>
        have : h.freeHead = b.addr := link
        have := (hc.small (mem_append_left _ (mem_cons_self (a := b) (l := bs)))).1
        omega
    unfold userHeapMax userHeapBase at *
    refine ⟨⟨?_,?_,?_,?_,?_,hmax,hal⟩,hkeeps.right,⟨rfl,rfl,rfl⟩,hle⟩
    · refine .cons rfl (show 0 < h.brk by omega) ?_ ?_
      · exact (load64_store64_of_apart (.inr (Nat.le_refl (h.brk + 8)))).trans (load64_store64 (by omega))
      · exact hc.chain.congr (load64_store64 hhead) hkeeps.left fun c hcm => hc.least (mem_append_left _ hcm)
    · exact List.pairwise_cons.mpr ⟨hnew,hc.apart⟩
    · intro c hcm
      rcases List.mem_cons.mp hcm with rfl | hcm
      · exact ⟨by unfold userHeapBase; exact hlower,hbrk,hc.aligned,hmul,hleast⟩
      · exact (hc.placed c hcm).mono (show h.brk ≤ brk by omega)
    · intro c hcm
      exact (hkeeps.right.size hcm (by have := hc.least (mem_append_right _ hcm); omega)).trans (hc.header c hcm)
    · change 0x1010000000 ≤ brk
      omega

lemma Given.start {h₀ : Heap} {p : ℕ} (hg : Given h us need p h') (hk : Keeps us h₀ h) (hs : Same h₀ h) : Given h₀ us need p h' :=
  ⟨hk.trans hg.keeps,hs.trans hg.same,hg.result⟩

lemma attempt_spec (hneed : need % 16 = 0) (hleast : 32 ≤ need) (hlt : need < 2^63) {rooms : List Bool} {p : ℕ}
    (hc : Core h fs us) (now : h.attempt need fuel rooms = some (p,h')) : Given h us need p h' := by
  induction rooms generalizing h fs with
  | nil =>
    cases now
    exact ⟨.refl us _,.refl _,.inl ⟨rfl,_,hc⟩⟩
  | cons room rooms ih =>
    unfold Heap.attempt at now
    obtain ⟨pp,hwalk,hrest⟩ := Option.bind_eq_some_iff.mp now
    obtain ⟨xs,zs,rfl,rfl,hstop⟩ := walk_some hc.chain hwalk
    cases zs with
    | nil =>
      have hzero : h.get (after .head xs) = 0 := by
        have h' := hc.chain.drop
        cases h' with
        | nil last => exact last
      rw [if_neg (not_not.mpr hzero)] at hrest
      cases hgrow : h.grow need room with
      | none =>
        rw [hgrow] at hrest
        cases hrest
        exact ⟨.refl us _,.refl _,.inl ⟨rfl,_,hc⟩⟩
      | some h₁ =>
        rw [hgrow] at hrest
        obtain ⟨hcore,hkeeps,hsame,-⟩ := grow_spec hc hneed hlt hgrow
        exact (ih hcore hrest).start hkeeps hsame
    | cons b ys =>
      have hb : h.get (after .head xs) = b.addr ∧ h.size b.addr = b.size ∧ 0 < b.addr := by
        have h' := hc.chain.drop
        cases h' with
        | cons link pos size _ => exact ⟨link,size,pos⟩
      have hfit := of_decide_eq_true (hstop b rfl)
      rw [hb.2.1] at hfit
      rw [hb.1,if_pos (Nat.pos_iff_ne_zero.mp hb.2.2)] at hrest
      cases hrest
      exact take_spec hc hneed hleast hfit

lemma malloc_spec {want p : ℕ} {room : Bool × Bool} (hw : want + 24 ≤ 2^63) (hc : Core h fs us)
    (now : h.malloc want room fuel = some (p,h')) : Given h us (want + 8) p h' := by
  obtain ⟨hmul,hleast,hle,hlt⟩ := roundSize_spec hw
  unfold Heap.malloc at now
  split at now
  · cases now
    exact ⟨.refl us _,.refl _,.inl ⟨rfl,_,hc⟩⟩
  · obtain ⟨hk,hs,hr⟩ := attempt_spec hmul hleast hlt hc now
    refine ⟨hk,hs,hr.imp_right ?_⟩
    rintro ⟨fs',b,hp,hsize,hcore⟩
    exact ⟨fs',b,hp,hle.trans hsize,hcore⟩

lemma Core.around_used {zs : List Blk} (hc : Core h (xs ++ zs) (b :: us)) : Around h xs b zs us where
  others := (apart_used.mp hc.apart).1
  apart := (apart_used.mp hc.apart).2
  block := (mem_used.mp hc.placed).1
  placed := (mem_used.mp hc.placed).2
  small := hc.small (mem_append_right _ mem_cons_self)

lemma Keeps.get_after {k : Heap} (hk : Keeps xs h k) (hhead : k.freeHead = h.freeHead) (hsize : ∀ b ∈ xs, 16 ≤ b.size) :
    k.get (after .head xs) = h.get (after .head xs) := by
  rcases after_cases .head xs with ⟨rfl,-⟩ | ⟨ys,b,rfl,heq⟩
  · exact hhead
  · rw [heq]
    have hb := mem_append_right ys (mem_singleton_self b)
    exact hk.link hb (hsize b hb)

lemma Core.get_lt {zs : List Blk} (hc : Core h (xs ++ zs) us) : h.get (after .head xs) < 2^64 := by
  have hrest := hc.chain.drop
  cases hrest with
  | nil last => omega
  | @cons _ c cs link _ _ _ =>
    have hmem : c ∈ xs ++ c :: cs ++ us := mem_append_left _ (mem_append_right _ mem_cons_self)
    have := (hc.small hmem).1
    omega

lemma insert_spec {zs : List Blk} (hc : Core h (xs ++ zs) (b :: us)) :
    let k := h.store (b.addr + 8) (h.get (after .head xs))
    Core (k.set b.addr (after .head xs)) (xs ++ b :: zs) us ∧ Keeps us h (k.set b.addr (after .head xs)) := by
  intro k
  have ha := hc.around_used
  have hsmall := ha.small
  have hleast := ha.block.least
  have hk : Keeps (xs ++ zs ++ us) h k := ha.store_keeps (by omega) (by omega)
  have hkeeps := ha.keeps (v := b.addr) hk
  have hsize : (k.set b.addr (after .head xs)).size b.addr = b.size :=
    calc load64 (k.set b.addr (after .head xs)).mem b.addr = load64 k.mem b.addr := ha.set_keeps.size mem_cons_self (by omega)
      _ = load64 h.mem b.addr := load64_store64_of_apart (.inr (by omega))
      _ = b.size := hc.header b mem_cons_self
  have hlink : (k.set b.addr (after .head xs)).link b.addr = h.get (after .head xs) :=
    (ha.set_keeps.link mem_cons_self (by omega)).trans (load64_store64 hc.get_lt)
  refine ⟨⟨?_,?_,?_,?_,?_,?_,?_⟩,hkeeps.right⟩
  · refine hc.chain.splice_head (.cons (get_set (by omega) _) hsmall.2 hsize ?_) (ha.behind hk rfl)
    exact hc.chain.drop.congr hlink hkeeps.left ha.back_least
  · exact apart_middle.mpr ⟨ha.others,ha.apart⟩
  · rw [mem_middle,set_brk]
    exact ⟨ha.block,ha.placed⟩
  · intro d hd
    exact (hkeeps.right.size hd (by have := hc.least (mem_append_right _ (mem_cons_of_mem b hd)); omega)).trans
      (hc.header d (mem_cons_of_mem b hd))
  all_goals rw [set_brk]
  · exact hc.lower
  · exact hc.upper
  · exact hc.aligned

lemma merge_spec (hc : Core h (xs ++ b :: c :: ys) us) (hmeet : b.addr + b.size = c.addr) :
    let k := (h.store b.addr (b.size + c.size)).store (b.addr + 8) (h.link c.addr)
    Core k (xs ++ ⟨b.addr,b.size + c.size⟩ :: ys) us ∧ Keeps us h k := by
  intro k
  have ha := hc.around
  have hleast := ha.block.least
  have hrest := (hc.chain.drop : Chain h (after .head xs) (b :: c :: ys))
  have hall : (c :: (xs ++ ys) ++ us).Perm (xs ++ c :: ys ++ us) := List.perm_middle.symm.append_right us
  have hother : ∀ d ∈ xs ++ ys ++ us, d ∈ xs ++ c :: ys ++ us := fun d hd => hall.subset (mem_cons_of_mem c hd)
  have hcin : c ∈ xs ++ c :: ys ++ us := hall.subset mem_cons_self
  have hcplaced := ha.placed c hcin
  have hcsmall := hc.small (b := c) (by simp)
  have hk : Keeps (xs ++ c :: ys ++ us) h k :=
    (ha.store_keeps (Nat.le_refl _) (by omega)).trans (ha.store_keeps (by omega) (by omega))
  have hkeeps : Keeps (xs ++ ys ++ us) h k := hk.mono hother
  have hcapart := (apart_middle.mp ha.apart)
  have hsize : k.size b.addr = b.size + c.size :=
    (load64_store64_of_apart (.inr (Nat.le_refl (b.addr + 8)))).trans (load64_store64 (by omega))
  have hmerged : ∀ d ∈ xs ++ ys ++ us, Blk.Apart ⟨b.addr,b.size + c.size⟩ d := fun d hd => by
    have h₁ := ha.others d (hother d hd)
    have h₂ := hcapart.1 d hd
    have h₃ := (ha.placed d (hother d hd)).least
    unfold Blk.Apart at *
    dsimp only
    omega
  refine ⟨⟨?_,?_,?_,?_,hc.lower,hc.upper,hc.aligned⟩,hkeeps.right⟩
  · cases hrest with
    | cons link pos _ hrest =>
    cases hrest with
    | cons _ _ _ hys =>
    refine hc.chain.splice_head (.cons ?_ pos hsize ?_) (hkeeps.left.left.behind rfl ha.front_least)
    · exact (hkeeps.left.left.get_after rfl ha.front_least).trans link
    · exact hys.congr (load64_store64 (load64_lt _ _)) hkeeps.left.right fun d hd => ha.back_least d (mem_cons_of_mem c hd)
  · exact apart_middle.mpr ⟨hmerged,hcapart.2⟩
  · rw [mem_middle]
    refine ⟨⟨ha.block.lower,?_,ha.block.aligned,?_,?_⟩,fun d hd => ha.placed d (hother d hd)⟩
    · have := hcplaced.upper
      change b.addr + (b.size + c.size) ≤ h.brk
      omega
    · have h₁ := ha.block.rounded
      have h₂ := hcplaced.rounded
      dsimp only
      omega
    · dsimp only
      omega
  · intro d hd
    exact (hkeeps.right.size hd (by have := hc.least (mem_append_right _ hd); omega)).trans (hc.header d hd)

lemma free_spec (hc : Core h fs (b :: us)) (now : h.free (b.addr + hdrSize) fuel = some h') :
    ∃ fs', Core h' fs' us ∧ Keeps us h h' ∧ Same h h' := by
  have hplaced := hc.placed b (mem_append_right _ mem_cons_self)
  have hlow := hplaced.lower
  unfold userHeapBase at hlow
  unfold Heap.free at now
  rw [if_neg (by omega),if_neg (by omega)] at now
  obtain ⟨pp,hwalk,hrest⟩ := Option.bind_eq_some_iff.mp now
  obtain ⟨xs,zs,rfl,rfl,-⟩ := walk_some hc.chain hwalk
  rw [Nat.add_sub_cancel] at hrest
  obtain ⟨hcore,hkeeps⟩ := insert_spec hc
  have hsame : Same h ((h.store (b.addr + 8) (h.get (after .head xs))).set b.addr (after .head xs)) :=
    (same_store h _ _).trans (same_set _ _ _)
  dsimp only at hrest
  split at hrest
  · next hmeet =>
    cases hrest
    have hrest := (hcore.chain.drop : Chain _ (after .head xs) (b :: zs))
    cases hrest with
    | cons _ _ hsize hzs =>
    rw [hsize] at hmeet ⊢
    cases hzs with
    | nil last => exact absurd last hmeet.1
    | @cons _ c ys link _ hsize' _ =>
      have hlink : Heap.link _ b.addr = c.addr := link
      rw [hlink] at hmeet ⊢
      rw [hsize']
      obtain ⟨hcore',hkeeps'⟩ := merge_spec hcore hmeet.2
      have hsmall := (hcore.small (b := b) (by simp)).1
      have hsmall' := (hcore.small (b := c) (by simp)).1
      have hwrap : wrap (b.size + c.size) = b.size + c.size := Nat.mod_eq_of_lt (by omega)
      have hnext : (Heap.store ((h.store (b.addr + 8) (h.get (after .head xs))).set b.addr (after .head xs)) b.addr
          (b.size + c.size)).link c.addr =
          ((h.store (b.addr + 8) (h.get (after .head xs))).set b.addr (after .head xs)).link c.addr :=
        load64_store64_of_apart (.inl (by have := hplaced.least; omega))
      rw [hwrap,hnext]
      exact ⟨_,hcore',hkeeps.trans hkeeps',hsame.trans ((same_store _ _ _).trans (same_store _ _ _))⟩
  · cases hrest
    exact ⟨_,hcore,hkeeps,hsame⟩

end VibeOS.Malloc

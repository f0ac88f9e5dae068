import VibeOS.Malloc.Soundness

/-! Sequences of calls by the owners of their pointers. -/
namespace VibeOS.Malloc
open VibeOS.Storage VibeOS.Memory List Option Bool

variable {h h' : Heap} {fs us : List Blk} {need fuel p want : ℕ} {e : Event}

/-- The sizes stay below the largest that the rounding and the signed increment of `sbrk` can take. -/
def Modest (_ : Heap) : ℕ × Event → Prop
  | (_,.malloc want _) => want.toNat + 24 ≤ 2^63
  | (_,.calloc n size _) => n.toNat*size.toNat + 24 ≤ 2^63 ∨ 2^64 ≤ n.toNat*size.toNat
  | (_,.realloc _ want _) => want.toNat + 24 ≤ 2^63
  | (_,.free _) => True
  | (_,.write _ _) => True

/-- A pointer that is given back is NULL or that of a block in use, and a byte that is written is in one. -/
def Legal (h : Heap) : Event → Prop
  | .realloc p _ _ => h.owns p = true
  | .free p => h.owns p = true
  | .write a _ => (h.live.any fun l => l.addr + hdrSize ≤ a && a < l.addr + l.size) = true
  | _ => True

/-- The heap as its users see it. -/
structure Healthy (h : Heap) : Prop where
  blocks : ∃ fs, Chain h .head fs ∧ (fs ++ h.used).Pairwise Blk.Apart ∧
    ∀ b ∈ fs ++ h.used, userHeapBase ≤ b.addr ∧ b.addr + b.size ≤ h.brk ∧ 0 < b.size
  headers : ∀ l ∈ h.live, h.size l.addr = l.size
  enough : ∀ l ∈ h.live, l.want + hdrSize ≤ l.size ∧ (l.addr + hdrSize) % 16 = 8
  contents : ∀ l ∈ h.live, ∀ a, l.addr + hdrSize ≤ a → a < l.addr + l.size → h.mem a = h.contents a
  copies : ∀ c ∈ h.copies, c.new.take (min c.old.length c.want) = c.old.take c.want
  returns : ∀ fuel e, userHeapMax ≤ fuel → Legal h e → Modest h (fuel,e) → (call fuel h e).isSome = true

lemma give_mem (h : Heap) (p want : ℕ) : (h.give p want).mem = h.mem := by
  unfold Heap.give
  split <;> rfl

lemma Sound.give_size (hs : Sound (h.give p want) fs) (hp : p ≠ 0) : want ≤ (h.give p want).size (p - hdrSize) - hdrSize := by
  have hsize : (h.give p want).size (p - hdrSize) = h.size (p - hdrSize) := by
    unfold Heap.size
    rw [give_mem]
  have hlive : (h.give p want).live = ⟨p - hdrSize,h.size (p - hdrSize),want⟩ :: h.live := by
    unfold Heap.give
    rw [if_neg hp]
  have := hs.enough ⟨p - hdrSize,h.size (p - hdrSize),want⟩ (hlive ▸ mem_cons_self)
  dsimp only at this
  omega

variable {room : Bool × Bool}

lemma realloc_sound {want : UInt64} (hs : Sound h fs) (hm : want.toNat + 24 ≤ 2^63)
    (now : call fuel h (.realloc p want room) = some h') : ∃ fs', Sound h' fs' := by
  simp only [call] at now
  split at now
  · cases now
  next howns =>
  obtain ⟨⟨np,k⟩,hcall,rfl⟩ := Option.map_eq_some_iff.mp now
  rw [not_eq_true',not_eq_false] at howns
  by_cases hp : p = 0
  · subst hp
    have hgive := hs.malloc hm (hcall : h.malloc want.toNat room fuel = some (np,k))
    dsimp only
    split
    · next hnp =>
      subst hnp
      obtain ⟨fs',hk⟩ := (hgive : ∃ fs', Sound k fs')
      split
      · exact ⟨fs',hk.drop 0⟩
      · exact ⟨fs',hk⟩
    · rw [if_pos rfl]
      exact hgive
  · by_cases hw : want.toNat = 0
    · unfold Heap.realloc at hcall
      rw [if_neg hp,if_pos hw] at hcall
      obtain ⟨k',hfree,heq⟩ := Option.map_eq_some_iff.mp hcall
      cases heq
      dsimp only
      rw [if_pos rfl,if_pos hw]
      exact hs.free howns hfree
    · obtain ⟨l,hl,rfl⟩ := owned howns hp
      dsimp only
      rcases hs.realloc hl hw hm hcall with ⟨rfl,hk⟩ | ⟨hne,fs',hk,hcopy⟩
      · rw [if_pos rfl,if_neg hw]
        exact hk
      · rw [if_neg hne,if_neg hp]
        refine ⟨fs',hk.core.beside rfl rfl rfl,hk.enough,hk.contents,fun c hc => ?_⟩
        rcases List.mem_append.mp hc with hc | hc
        · exact hk.copies c hc
        · obtain rfl := List.mem_singleton.mp hc
          have hheader : h.size (l.addr + hdrSize - hdrSize) = l.size := by
            rw [Nat.add_sub_cancel]
            exact hs.core.header l.blk (mem_used_of_live hl)
          have hsize := hk.give_size hne
          rw [hheader]
          dsimp only
          refine take_bytes hsize fun x hx => ?_
          rw [give_mem]
          exact hcopy x hx

lemma calloc_sound {n size : UInt64} (hs : Sound h fs)
    (hm : n.toNat*size.toNat + 24 ≤ 2^63 ∨ 2^64 ≤ n.toNat*size.toNat)
    (now : call fuel h (.calloc n size room) = some h') : ∃ fs', Sound h' fs' := by
  simp only [call] at now
  obtain ⟨⟨p,k⟩,hcall,rfl⟩ := Option.map_eq_some_iff.mp now
  exact hs.give (calloc_spec n.toNat_lt hm hs.core hcall)

lemma call_sound (hs : Sound h fs) (hm : Modest h (fuel,e)) (now : call fuel h e = some h') : ∃ fs', Sound h' fs' := by
  cases e with
  | malloc want room =>
    obtain ⟨⟨p,k⟩,hcall,rfl⟩ := Option.map_eq_some_iff.mp now
    exact hs.malloc hm hcall
  | calloc n size room => exact calloc_sound hs hm now
  | realloc p want room => exact realloc_sound hs hm now
  | free p =>
    simp only [call] at now
    split at now
    · cases now
    next howns =>
    obtain ⟨k,hcall,rfl⟩ := Option.map_eq_some_iff.mp now
    rw [not_eq_true',not_eq_false] at howns
    exact hs.free howns hcall
  | write a v =>
    simp only [call] at now
    split at now
    · next hany =>
      cases now
      obtain ⟨l,hl,hin⟩ := List.any_eq_true.mp hany
      rw [and_eq_true,decide_eq_true_eq,decide_eq_true_eq] at hin
      exact ⟨fs,hs.write hl hin.1 hin.2⟩
    · cases now

lemma Core.length_le (hc : Core h fs us) : fs.length ≤ userHeapMax := by
  have hfree : fs.Pairwise Blk.Apart := (List.pairwise_append.mp hc.apart).1
  have hnodup : (fs.map Blk.addr).Nodup := by
    refine List.pairwise_map.mpr (List.Pairwise.imp_of_mem (fun hb hc' h => ?_) hfree)
    exact h.addr_ne (hc.least (mem_append_left _ hb)) (hc.least (mem_append_left _ hc'))
  have hsub : fs.map Blk.addr ⊆ List.range userHeapMax := by
    intro a ha
    obtain ⟨b,hb,rfl⟩ := List.mem_map.mp ha
    have hp := hc.placed b (mem_append_left _ hb)
    have h₁ := hp.upper
    have h₂ := hp.least
    have h₃ := hc.upper
    exact List.mem_range.mpr (by omega)
  have hlen := (subperm_of_subset hnodup hsub).length_le
  rwa [length_map,length_range] at hlen

lemma Core.walk_isSome (hc : Core h fs us) (stop : ℕ → Bool) (hf : userHeapMax ≤ fuel) : ∃ q, h.walk stop fuel .head = some q := by
  obtain ⟨xs,_,-,hw,-⟩ := walk_spec stop hc.chain (hc.length_le.trans hf)
  exact ⟨_,hw⟩

lemma attempt_isSome (hneed : need % 16 = 0) (hlt : need < 2^63) (hf : userHeapMax ≤ fuel) {rooms : List Bool} (hc : Core h fs us) :
    (h.attempt need fuel rooms).isSome = true := by
  induction rooms generalizing h fs with
  | nil => rfl
  | cons room rooms ih =>
    obtain ⟨q,hw⟩ := hc.walk_isSome (fun b => decide (h.size b ≥ need)) hf
    unfold Heap.attempt
    rw [hw]
    dsimp only [bind_eq_bind,bind_some]
    split
    · rfl
    · cases hg : h.grow need room with
      | none => rfl
      | some k => exact ih (grow_spec hc hneed hlt hg).1

lemma malloc_isSome (room : Bool × Bool) (hw : want + 24 ≤ 2^63) (hf : userHeapMax ≤ fuel) (hc : Core h fs us) :
    (h.malloc want room fuel).isSome = true := by
  obtain ⟨hmul,-,-,hlt⟩ := roundSize_spec hw
  unfold Heap.malloc
  split
  · rfl
  · exact attempt_isSome hmul hlt hf hc

lemma free_isSome (hf : userHeapMax ≤ fuel) (hc : Core h fs us) : (h.free p fuel).isSome = true := by
  unfold Heap.free
  split
  · rfl
  · split
    · rfl
    · obtain ⟨q,hw⟩ := hc.walk_isSome (fun c => decide (c ≥ p - hdrSize)) hf
      dsimp only
      rw [hw]
      dsimp only [bind_eq_bind,bind_some]
      split <;> rfl

lemma calloc_isSome {n size : ℕ} (hn : n < 2^64) (hw : n*size + 24 ≤ 2^63 ∨ 2^64 ≤ n*size)
    (hf : userHeapMax ≤ fuel) (hc : Core h fs us) : (h.calloc n size room fuel).isSome = true := by
  unfold Heap.calloc
  dsimp only
  split
  · rfl
  · next hcheck =>
    have htotal := total_eq hn hcheck
    have hlt : wrap (n*size) < 2^64 := Nat.mod_lt _ (by decide)
    rw [htotal] at hlt ⊢
    obtain ⟨⟨q,k⟩,hk⟩ := Option.isSome_iff_exists.mp (malloc_isSome room (by omega : n*size + 24 ≤ 2^63) hf hc)
    rw [hk]
    dsimp only [bind_eq_bind,bind_some]
    split <;> rfl

lemma realloc_isSome (hw : want + 24 ≤ 2^63) (hf : userHeapMax ≤ fuel) (hs : Sound h fs)
    (hp : h.owns p = true) : (h.realloc p want room fuel).isSome = true := by
  unfold Heap.realloc
  split
  · exact malloc_isSome room hw hf hs.core
  · next hne =>
    split
    · rw [isSome_map]
      exact free_isSome hf hs.core
    · obtain ⟨l,hl,rfl⟩ := owned hp hne
      obtain ⟨⟨q,k⟩,hk⟩ := Option.isSome_iff_exists.mp (malloc_isSome room hw hf hs.core)
      have hg := malloc_spec hw hs.core hk
      rw [hk]
      dsimp only [bind_eq_bind,bind_some]
      split
      · rfl
      · next hq =>
        have hheader : h.size (l.addr + hdrSize - hdrSize) = l.size := by
          rw [Nat.add_sub_cancel]
          exact hs.core.header l.blk (mem_used_of_live hl)
        rw [hheader]
        have hg' := hg.touch (touches_copy k q (l.addr + hdrSize) (min (l.size - hdrSize) want)) ⟨rfl,rfl,rfl⟩
          (Nat.add_le_add_right (Nat.min_le_right _ _) _) hq
        rcases hg'.result with ⟨rfl,-⟩ | ⟨fs',b,-,-,hcore⟩
        · exact absurd rfl hq
        · obtain ⟨k',hk'⟩ := Option.isSome_iff_exists.mp (free_isSome (p := l.addr + hdrSize) hf hcore)
          rw [hk']
          rfl

lemma call_isSome (hs : Sound h fs) (hl : Legal h e) (hm : Modest h (fuel,e)) (hf : userHeapMax ≤ fuel) :
    (call fuel h e).isSome = true := by
  cases e with
  | malloc want room =>
    refine (isSome_map).trans ?_
    exact malloc_isSome room hm hf hs.core
  | calloc n size room =>
    refine (isSome_map).trans ?_
    exact calloc_isSome n.toNat_lt hm hf hs.core
  | realloc p want room =>
    have howns : h.owns p = true := hl
    simp only [call]
    rw [howns,if_neg (by simp),isSome_map]
    exact realloc_isSome hm hf hs howns
  | free p =>
    have howns : h.owns p = true := hl
    simp only [call]
    rw [howns,if_neg (by simp),isSome_map]
    exact free_isSome hf hs.core
  | write a v =>
    have hany : (h.live.any fun l => l.addr + hdrSize ≤ a && a < l.addr + l.size) = true := hl
    simp only [call]
    rw [if_pos hany]
    rfl

lemma initial_sound (mem : ByteMem) : Sound (initial mem) [] where
  core := ⟨.nil rfl,.nil,nofun,nofun,Nat.le_refl _,(by decide : userHeapBase ≤ userHeapMax),(by decide : userHeapBase % 16 = 0)⟩
  enough := nofun
  contents := nofun
  copies := nofun

lemma Sound.healthy (hs : Sound h fs) : Healthy h where
  blocks := ⟨fs,hs.core.chain,hs.core.apart,fun b hb =>
    ⟨(hs.core.placed b hb).lower,(hs.core.placed b hb).upper,by have := hs.core.least hb; omega⟩⟩
  headers l hl := hs.core.header l.blk (mem_used_of_live hl)
  enough l hl := ⟨hs.enough l hl,by
    have : l.addr % 16 = 0 := (hs.core.placed l.blk (mem_append_right _ (mem_used_of_live hl))).aligned
    unfold hdrSize
    omega⟩
  contents := hs.contents
  copies := hs.copies
  returns _ _ hf hl hm := call_isSome hs hl hm hf

/-- However the calls are mixed, and whether or not there is memory for them. -/
theorem heap_sound {mem : ByteMem} {es : List (ℕ × Event)} (run : Runs step Modest (initial mem) es h) : Healthy h := by
  obtain ⟨fs,hs⟩ : ∃ fs, Sound h fs := by
    refine run.invariant (I := fun h => ∃ fs, Sound h fs) (fun s e _ t hs hm now => ?_) ⟨[],initial_sound mem⟩
    obtain ⟨fs,hs⟩ := hs
    obtain ⟨k,hcall,heq⟩ := Option.map_eq_some_iff.mp now
    cases heq
    exact call_sound hs hm hcall
  exact hs.healthy

/-- Two blocks, the first of which is moved behind the second, filled, and given back. -/
def moving : List (ℕ × Event) :=
  [(4,.malloc 100 (true,true)),(4,.calloc 3 7 (true,true)),(4,.write 0x1010000010 5),(4,.realloc 0x1010000008 200 (true,true)),
    (4,.free 0x1010000078),(4,.malloc 70000 (false,true))]

theorem heap_sound_moving : ∃ h, Runs step Modest (initial fun _ => 0) moving h ∧ Healthy h := by
  have hsome : (execute step (initial fun _ => 0) moving).isSome = true := by decide +kernel
  obtain ⟨h,hh⟩ := Option.isSome_iff_exists.mp hsome
  have hmodest : ∀ e ∈ moving, ∀ s, Modest s e := by
    unfold moving
    simp [Modest]
  have run := (Runs.of_execute hh).of_forall hmodest
  exact ⟨h,run,heap_sound run⟩

/-- The payload starts behind a header of eight bytes. -/
theorem payload_misaligned : ∃ h l, Runs step (fun _ _ => True) (initial fun _ => 0) [(1,.malloc 1 (true,true))] h ∧ l ∈ h.live ∧
    (l.addr + hdrSize) % 16 ≠ 0 := by
  have hany : ((execute step (initial fun _ => 0) [(1,.malloc 1 (true,true))]).any fun h =>
      h.live.any fun l => (l.addr + hdrSize) % 16 ≠ 0) = true := by decide
  obtain ⟨h,hh,hl⟩ := (Option.any_eq_true _ _).mp hany
  obtain ⟨l,hl,hmod⟩ := List.any_eq_true.mp hl
  exact ⟨h,l,.of_execute hh,hl,of_decide_eq_true hmod⟩

end VibeOS.Malloc

import VibeOS.Malloc.Integrity

/-! Every run of calls leaves the heap sound: the blocks lie apart, and what their owners have in
them stays. -/
namespace VibeOS.Malloc
open Function List
open VibeOS.Storage VibeOS.Memory

variable {h h' h'' k : Heap} {fs us vs : List Blk} {b c : Blk} {l : Live} {need fuel p want : ℕ}

/-- Only bytes from `p` on are changed, so many at most. -/
structure Touches (p n : ℕ) (h k : Heap) : Prop where
  out : ∀ x, x < p ∨ p + n ≤ x → k.mem x = h.mem x
  head : k.freeHead = h.freeHead
  brk : k.brk = h.brk

lemma Touches.keeps {n : ℕ} (ht : Touches p n h k) (hp : b.addr ≤ p) (hn : p + n ≤ b.addr + b.size)
    (happ : ∀ c ∈ us, b.Apart c) : Keeps us h k := fun c hc x hx hx' => by
  have h := happ c hc
  unfold Blk.Apart at h
  exact ht.out x (by omega)

lemma Core.perm (hc : Core h fs us) (hp : us.Perm vs) : Core h fs vs where
  chain := hc.chain
  apart := (hp.append_left fs).pairwise hc.apart Blk.Apart.symm
  placed c hcm := hc.placed c ((hp.append_left fs).mem_iff.mpr hcm)
  header c hcm := hc.header c (hp.mem_iff.mpr hcm)
  lower := hc.lower
  upper := hc.upper
  aligned := hc.aligned

lemma Core.sublist (hc : Core h fs us) (hs : vs.Sublist us) : Core h fs vs where
  chain := hc.chain
  apart := hc.apart.sublist (hs.append_left fs)
  placed c hcm := hc.placed c ((hs.append_left fs).subset hcm)
  header c hcm := hc.header c (hs.subset hcm)
  lower := hc.lower
  upper := hc.upper
  aligned := hc.aligned

lemma Core.touch {n : ℕ} (hc : Core h fs (b :: us)) (ht : Touches p n h k) (hp : b.addr + hdrSize ≤ p)
    (hn : p + n ≤ b.addr + b.size) : Core k fs (b :: us) ∧ Keeps us h k := by
  have hall := (mem_used.mp hc.placed).2
  have happ := (apart_used.mp hc.apart).1
  have hkeeps : Keeps (fs ++ us) h k := ht.keeps (Nat.le_of_add_right_le hp) hn happ
  refine ⟨⟨?_,hc.apart,?_,?_,?_,?_,?_⟩,hkeeps.right⟩
  · exact hc.chain.congr ht.head hkeeps.left fun c hcm => hc.least (mem_append_left _ hcm)
  · rw [ht.brk]
    exact hc.placed
  · intro c hcm
    rcases List.mem_cons.mp hcm with rfl | hcu
    · have hsame : load64 k.mem c.addr = load64 h.mem c.addr := load64_congr fun x _ hx => ht.out x (by unfold hdrSize at hp; omega)
      exact hsame.trans (hc.header c hcm)
    · have := hc.least (mem_append_right fs hcm)
      exact (hkeeps.right.size hcu (by omega)).trans (hc.header c hcm)
  all_goals rw [ht.brk]
  · exact hc.lower
  · exact hc.upper
  · exact hc.aligned

lemma Core.beside (hc : Core h fs us) (hmem : k.mem = h.mem) (hhead : k.freeHead = h.freeHead) (hbrk : k.brk = h.brk) :
    Core k fs us := by
  have hkeeps : ∀ bs, Keeps bs h k := fun bs c _ a _ _ => congrFun hmem a
  refine ⟨?_,hc.apart,?_,?_,?_,?_,?_⟩
  · exact hc.chain.congr hhead (hkeeps fs) fun c hcm => hc.least (mem_append_left _ hcm)
  · rw [hbrk]
    exact hc.placed
  · intro c hcm
    have := hc.least (mem_append_right fs hcm)
    exact ((hkeeps us).size hcm (by omega)).trans (hc.header c hcm)
  all_goals rw [hbrk]
  · exact hc.lower
  · exact hc.upper
  · exact hc.aligned

lemma touches_clear (h : Heap) (p n : ℕ) : Touches p n h (h.clear p n) := ⟨fun _ _ => if_neg (by omega),rfl,rfl⟩

lemma touches_copy (h : Heap) (p q n : ℕ) : Touches p n h (h.copy p q n) := ⟨fun _ _ => if_neg (by omega),rfl,rfl⟩

lemma Given.touch {n : ℕ} (hg : Given h us need p h') (ht : Touches p n h' k) (hs : Same h' k) (hn : n + hdrSize ≤ need)
    (hp : p ≠ 0) : Given h us need p k := by
  rcases hg.result with ⟨rfl,-⟩ | ⟨fs,b,rfl,hsize,hcore⟩
  · exact absurd rfl hp
  · obtain ⟨hcore',hkeeps⟩ := hcore.touch ht (Nat.le_refl _) (by omega)
    exact ⟨hg.keeps.trans hkeeps,hg.same.trans hs,.inr ⟨fs,b,rfl,hsize,hcore'⟩⟩

lemma Given.null (hc : Core h fs us) : Given h us need 0 h := ⟨.refl us h,.refl h,.inl ⟨rfl,fs,hc⟩⟩

lemma total_eq {n size : ℕ} (hn : n < 2^64) (hcheck : ¬(n ≠ 0 ∧ wrap (n*size)/n ≠ size)) : wrap (n*size) = n*size := by
  unfold wrap at *
  rcases Nat.eq_zero_or_pos n with rfl | hpos
  · simp
  · have hdiv : n*size % 2^64/n = size := by
      by_contra hne
      exact hcheck ⟨by omega,hne⟩
    have hle : size*n ≤ n*size % 2^64 := (Nat.le_div_iff_mul_le hpos).mp hdiv.ge
    have := Nat.mod_le (n*size) (2^64)
    have := Nat.mul_comm n size
    omega

variable {room : Bool × Bool}

lemma calloc_spec {n size : ℕ} (hn : n < 2^64) (hw : n*size + 24 ≤ 2^63 ∨ 2^64 ≤ n*size)
    (hc : Core h fs us) (now : h.calloc n size room fuel = some (p,h')) :
    Given h us (n*size + 8) p h' := by
  unfold Heap.calloc at now
  dsimp only at now
  split at now
  · cases now
    exact .null hc
  · next hcheck =>
    have htotal := total_eq hn hcheck
    have hlt : wrap (n*size) < 2^64 := Nat.mod_lt _ (by decide)
    rw [htotal] at now hlt
    obtain ⟨⟨q,h₁⟩,hmalloc,hrest⟩ := Option.bind_eq_some_iff.mp now
    have hg := malloc_spec (by omega) hc hmalloc
    dsimp only at hrest
    split at hrest
    · cases hrest
      exact hg
    · next hne =>
      cases hrest
      exact hg.touch (touches_clear h₁ p (n*size)) ⟨rfl,rfl,rfl⟩ (Nat.le_refl _) hne

/-- `realloc` of a block in use either gives a new block for it, with the bytes that both have room
for, or leaves the block. -/
lemma realloc_spec {np : ℕ} (hpos : want ≠ 0) (hw : want + 24 ≤ 2^63) (hc : Core h fs (b :: us))
    (now : h.realloc (b.addr + hdrSize) want room fuel = some (np,h')) :
    np = 0 ∧ Given h (b :: us) (want + 8) np h' ∨
      np ≠ 0 ∧ Given h us (want + 8) np h' ∧
        ∀ x, x < min (b.size - hdrSize) want → h'.mem (np + x) = h.mem (b.addr + hdrSize + x) := by
  have hleast := (hc.placed b (mem_append_right _ mem_cons_self)).least
  unfold Heap.realloc at now
  rw [if_neg (by unfold hdrSize; omega),if_neg hpos,Nat.add_sub_cancel,hc.header b mem_cons_self] at now
  obtain ⟨⟨q,h₁⟩,hmalloc,hrest⟩ := Option.bind_eq_some_iff.mp now
  have hg := malloc_spec hw hc hmalloc
  dsimp only at hrest
  split at hrest
  · next hzero =>
    cases hrest
    exact .inl ⟨rfl,hzero ▸ hg⟩
  · next hne =>
    obtain ⟨h₂,hfree,hrest⟩ := Option.bind_eq_some_iff.mp hrest
    cases hrest
    have hg' := hg.touch (touches_copy h₁ np (b.addr + hdrSize) (min (b.size - hdrSize) want)) ⟨rfl,rfl,rfl⟩
      (by unfold hdrSize; omega) hne
    rcases hg'.result with ⟨rfl,-⟩ | ⟨fs₁,c,rfl,hsize,hcore⟩
    · exact absurd rfl hne
    · obtain ⟨fs₂,hcore',hkeeps,hsame⟩ := free_spec (hcore.perm (.swap b c us)) hfree
      have hus : Keeps us h h' :=
        (hg'.keeps.mono fun d hd => mem_cons_of_mem b hd).trans (hkeeps.mono fun d hd => mem_cons_of_mem c hd)
      refine .inr ⟨hne,⟨hus,hg'.same.trans hsame,.inr ⟨fs₂,c,rfl,hsize,hcore'⟩⟩,fun x hx => ?_⟩
      unfold hdrSize at *
      calc h'.mem (c.addr + 8 + x) = (h₁.copy (c.addr + 8) (b.addr + 8) (min (b.size - 8) want)).mem (c.addr + 8 + x) :=
            hkeeps c mem_cons_self _ (by omega) (by omega)
        _ = h₁.mem (b.addr + 8 + x) := by
            unfold Heap.copy
            dsimp only
            rw [if_pos ⟨Nat.le_add_right _ _,by omega⟩,Nat.add_sub_cancel_left]
        _ = h.mem (b.addr + 8 + x) := hg.keeps b mem_cons_self _ (by omega) (by omega)

def Heap.used (h : Heap) : List Blk := h.live.map Live.blk

/-- What the callers rely on. -/
structure Sound (h : Heap) (fs : List Blk) : Prop where
  core : Core h fs h.used
  enough : ∀ l ∈ h.live, l.want + hdrSize ≤ l.size
  contents : ∀ l ∈ h.live, ∀ a, l.addr + hdrSize ≤ a → a < l.addr + l.size → h.mem a = h.contents a
  copies : ∀ c ∈ h.copies, c.new.take (min c.old.length c.want) = c.old.take c.want

lemma mem_used_of_live (hl : l ∈ h.live) : l.blk ∈ h.used := List.mem_map_of_mem hl

lemma Blk.Apart.addr_ne (h : b.Apart c) (hb : 16 ≤ b.size) (hc : 16 ≤ c.size) : b.addr ≠ c.addr := by
  unfold Blk.Apart at h
  omega

lemma perm_drop {ls : List Live} (happ : (ls.map Live.blk).Pairwise Blk.Apart) (hleast : ∀ l ∈ ls, 16 ≤ l.size) (hl : l ∈ ls) :
    (ls.map Live.blk).Perm (l.blk :: (ls.filter fun d => d.addr + hdrSize ≠ l.addr + hdrSize).map Live.blk) := by
  induction ls with
  | nil => cases hl
  | cons d ls ih =>
    rw [map_cons,pairwise_cons] at happ
    rcases List.mem_cons.mp hl with rfl | hl
    · have hrest : (ls.filter fun d => d.addr + hdrSize ≠ l.addr + hdrSize) = ls := by
        rw [filter_eq_self]
        intro d hd
        have hne : l.addr ≠ d.addr := (happ.1 d.blk (List.mem_map_of_mem hd)).addr_ne (hleast l mem_cons_self)
          (hleast d (mem_cons_of_mem l hd))
        exact decide_eq_true fun heq => hne (Nat.add_right_cancel heq).symm
      rw [filter_cons_of_neg (by simp),hrest]
      exact .refl _
    · have hne : d.addr ≠ l.addr := (happ.1 l.blk (List.mem_map_of_mem hl)).addr_ne (hleast d mem_cons_self)
        (hleast l (mem_cons_of_mem d hl))
      have hkept : d.addr + hdrSize ≠ l.addr + hdrSize := fun heq => hne (Nat.add_right_cancel heq)
      have hfilter : ((d :: ls).filter fun d => d.addr + hdrSize ≠ l.addr + hdrSize) =
          d :: ls.filter fun d => d.addr + hdrSize ≠ l.addr + hdrSize := filter_cons_of_pos (by simpa using hkept)
      rw [hfilter]
      exact ((ih happ.2 (fun c hc => hleast c (mem_cons_of_mem d hc)) hl).cons d.blk).trans (.swap l.blk d.blk _)

lemma Core.perm_drop (hc : Core h fs h.used) (hl : l ∈ h.live) : h.used.Perm (l.blk :: (h.drop (l.addr + hdrSize)).used) :=
  Malloc.perm_drop (List.pairwise_append.mp hc.apart).2.1
    (fun l hl => hc.least (b := l.blk) (mem_append_right fs (mem_used_of_live hl))) hl

lemma Sound.drop (hs : Sound h fs) (p : ℕ) : Sound (h.drop p) fs where
  core := (hs.core.sublist ((filter_sublist).map Live.blk)).beside rfl rfl rfl
  enough l hl := hs.enough l (mem_of_mem_filter hl)
  contents l hl := hs.contents l (mem_of_mem_filter hl)
  copies := hs.copies

lemma Given.drop (hg : Given h us need p h') (q : ℕ) : Given (h.drop q) us need p (h'.drop q) where
  keeps := hg.keeps
  same := ⟨congrArg (List.filter _) hg.same.live,hg.same.contents,hg.same.copies⟩
  result := hg.result.imp (.imp_right fun ⟨fs,hc⟩ => ⟨fs,hc.beside rfl rfl rfl⟩)
    fun ⟨fs,b,hp,hsize,hc⟩ => ⟨fs,b,hp,hsize,hc.beside rfl rfl rfl⟩

lemma Sound.give (hs : Sound h fs) (hg : Given h h.used (want + hdrSize) p h') : ∃ fs', Sound (h'.give p want) fs' := by
  obtain ⟨hkeeps,⟨hlive,hcontents,hcopies⟩,hresult⟩ := hg
  have hold : ∀ l ∈ h.live, ∀ a, l.addr + hdrSize ≤ a → a < l.addr + l.size → h'.mem a = h.contents a := fun l hl a ha ha' =>
    (hkeeps l.blk (mem_used_of_live hl) a (Nat.le_of_add_right_le ha) ha').trans (hs.contents l hl a ha ha')
  unfold Heap.give
  rcases hresult with ⟨rfl,fs',hc⟩ | ⟨fs',b,rfl,hsize,hc⟩
  · rw [if_pos rfl]
    refine ⟨fs',?_,?_,?_,?_⟩
    · have hused : h'.used = h.used := congrArg (List.map Live.blk) hlive
      rw [hused]
      exact hc
    · exact hlive ▸ hs.enough
    · exact hlive ▸ hcontents ▸ hold
    · exact hcopies ▸ hs.copies
  · have hheader : h'.size b.addr = b.size := hc.header b mem_cons_self
    have happ := (apart_used.mp hc.apart).1
    rw [if_neg (by unfold hdrSize; omega),Nat.add_sub_cancel]
    dsimp only
    rw [hheader,hlive,hcontents,hcopies]
    refine ⟨fs',?_,?_,?_,hs.copies⟩
    · exact hc.beside rfl rfl rfl
    · intro l hl
      rcases List.mem_cons.mp hl with rfl | hl
      · exact hsize
      · exact hs.enough l hl
    · intro l hl a ha ha'
      dsimp only
      rcases List.mem_cons.mp hl with rfl | hl
      · rw [if_pos ⟨ha,ha'⟩]
      · have := happ l.blk (mem_append_right fs' (mem_used_of_live hl))
        unfold Blk.Apart Live.blk hdrSize at *
        rw [if_neg (by dsimp only at this; omega)]
        exact hold l hl a ha ha'

lemma owned (hs : h.owns p = true) (hp : p ≠ 0) : ∃ l ∈ h.live, p = l.addr + hdrSize := by
  unfold Heap.owns at hs
  rw [Bool.or_eq_true,beq_iff_eq,List.any_eq_true] at hs
  rcases hs with h | ⟨l,hl,heq⟩
  · exact absurd h hp
  · exact ⟨l,hl,(beq_iff_eq.mp heq).symm⟩

lemma Sound.malloc (hs : Sound h fs) (hw : want + 24 ≤ 2^63) (now : h.malloc want room fuel = some (p,h')) :
    ∃ fs', Sound (h'.give p want) fs' :=
  hs.give (malloc_spec hw hs.core now)

lemma Sound.free (hs : Sound h fs) (hp : h.owns p = true) (now : h.free p fuel = some h') : ∃ fs', Sound (h'.drop p) fs' := by
  rcases eq_or_ne p 0 with rfl | hne
  · unfold Heap.free at now
    rw [if_pos rfl] at now
    cases now
    exact ⟨fs,hs.drop 0⟩
  · obtain ⟨l,hl,rfl⟩ := owned hp hne
    obtain ⟨fs',hcore,hkeeps,hsame⟩ := free_spec (hs.core.perm (hs.core.perm_drop hl)) now
    have hg : Given h (h.drop (l.addr + hdrSize)).used (0 + hdrSize) 0 h' := ⟨hkeeps,hsame,.inl ⟨rfl,fs',hcore⟩⟩
    exact (hs.drop _).give (hg.drop _)

lemma Sound.realloc (hs : Sound h fs) (hl : l ∈ h.live) {np : ℕ} (hpos : want ≠ 0) (hw : want + 24 ≤ 2^63)
    (now : h.realloc (l.addr + hdrSize) want room fuel = some (np,h')) :
    np = 0 ∧ (∃ fs', Sound h' fs') ∨
      np ≠ 0 ∧ ∃ fs', Sound ((h'.drop (l.addr + hdrSize)).give np want) fs' ∧
        ∀ x, x < min (l.size - hdrSize) want → h'.mem (np + x) = h.mem (l.addr + hdrSize + x) := by
  have hperm := hs.core.perm_drop hl
  rcases realloc_spec hpos hw (hs.core.perm hperm) now with ⟨rfl,hg⟩ | ⟨hne,hg,hcopy⟩
  · have hg' : Given h h.used (want + hdrSize) 0 h' :=
      ⟨hg.keeps.mono fun _ hb => hperm.subset hb,hg.same,.inl ⟨rfl,by
        rcases hg.result with ⟨-,fs',hc⟩ | ⟨_,b,hp,-⟩
        · exact ⟨fs',hc.perm hperm.symm⟩
        · unfold hdrSize at hp
          omega⟩⟩
    exact .inl ⟨rfl,hs.give hg'⟩
  · obtain ⟨fs',hsound⟩ := (hs.drop (l.addr + hdrSize)).give (hg.drop (l.addr + hdrSize))
    exact .inr ⟨hne,fs',hsound,hcopy⟩

lemma take_bytes {old new n a c : ℕ} (hnew : n ≤ new) (hsame : ∀ x, x < min old n → h'.mem (c + x) = h.mem (a + x)) :
    (h'.bytes c new).take (min (h.bytes a old).length n) = (h.bytes a old).take n := by
  unfold Heap.bytes
  rw [length_map,length_range,← map_take,← map_take,take_range,take_range,Nat.min_assoc,
    Nat.min_eq_left hnew,Nat.min_comm n old]
  refine map_congr_left fun x hx => hsame x (List.mem_range.mp hx)

lemma Sound.write (hs : Sound h fs) {a : ℕ} {v : UInt8} (hl : l ∈ h.live) (ha : l.addr + hdrSize ≤ a) (ha' : a < l.addr + l.size) :
    Sound { h with mem := update h.mem a v, contents := update h.contents a v } fs := by
  have hperm := hs.core.perm_drop hl
  have ht : Touches a 1 h { h with mem := update h.mem a v, contents := update h.contents a v } :=
    ⟨fun x hx => update_of_ne (by omega) v h.mem,rfl,rfl⟩
  have hcore := ((hs.core.perm hperm).touch ht ha ha').1.perm hperm.symm
  refine ⟨hcore,hs.enough,fun d hd x hx hx' => ?_,hs.copies⟩
  change update h.mem a v x = update h.contents a v x
  rcases eq_or_ne x a with rfl | hne
  · rw [update_self,update_self]
  · rw [update_of_ne hne,update_of_ne hne]
    exact hs.contents d hd x hx hx'

end VibeOS.Malloc

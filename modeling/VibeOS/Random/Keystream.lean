import VibeOS.Random.Csprng
import Mathlib.Data.List.NodupEquivFin
import Mathlib.Tactic.Cases
import Mathlib.Data.Vector.Defs

/-! When the blocks of the generator come from different pairs of a key and a counter. -/
namespace VibeOS.Random.Sys
open Function
open List hiding Vector
open VibeOS

variable {s t u : Sys} {e : Event} {es : List Event} {r : Option (ℤ × List UInt8)} {i j : ℕ} {k : Key}

def counters (s : Sys) (k : Key) : List UInt32 := (s.blocks.filter fun b => b.1 = k).map Prod.snd

/-- A new seed leads to a key that no block is from, and a block is computed only while fewer than
2^32 are from the key in place. -/
def Fresh (s : Sys) : Event → Prop
  | .mix i => ∀ g, s.rekeyed i = some g → s.counters g.key = []
  | .draw _ => (s.counters s.g.key).length < 2^32
  | _ => True

def fresh (s : Sys) : Event → Bool
  | .mix i => (s.rekeyed i).all fun g => (s.counters g.key).isEmpty
  | .draw _ => decide ((s.counters s.g.key).length < 2^32)
  | _ => true

lemma fresh_sound (s : Sys) (e : Event) (h : fresh s e = true) : Fresh s e := by
  cases e with
  | mix i =>
    intro g hg
    rw [fresh,hg] at h
    exact List.isEmpty_iff.mp h
  | draw i =>
    have hlen : (s.counters s.g.key).length < 2^32 := of_decide_eq_true h
    exact hlen
  | _ => trivial

structure Kept (s : Sys) : Prop where
  once : s.blocks.Nodup
  /-- The blocks from the key in place have the counters below the next one. -/
  current : ∃ n ≤ 2^32, s.g.counter = UInt32.ofNat n ∧ s.counters s.g.key = ((List.range n).map UInt32.ofNat).reverse
  /-- The first block from each key has the counter 0. -/
  first : ∀ b ∈ s.blocks, (b.1,0) ∈ s.blocks

lemma mem_counters {c : UInt32} : c ∈ s.counters k ↔ (k,c) ∈ s.blocks := by
  constructor
  · intro h
    obtain ⟨⟨k',c'⟩,hb,rfl⟩ := List.mem_map.mp h
    obtain ⟨hmem,hk⟩ := List.mem_filter.mp hb
    obtain rfl : k' = k := of_decide_eq_true hk
    exact hmem
  · intro h
    exact List.mem_map.mpr ⟨(k,c),List.mem_filter.mpr ⟨h,decide_eq_true rfl⟩,rfl⟩

lemma counters_congr (h : t.blocks = s.blocks) : t.counters k = s.counters k := by
  unfold counters
  rw [h]

/-- What one step does to the generator and its blocks. -/
inductive Moves (s t : Sys) : Event → Prop
  | rest {e : Event} (key : t.g.key = s.g.key) (counter : t.g.counter = s.g.counter) (blocks : t.blocks = s.blocks) :
      Moves s t e
  | mix {i : ℕ} {g : Csprng} (h : s.rekeyed i = some g) (now : t.g = g) (blocks : t.blocks = s.blocks) : Moves s t (.mix i)
  | draw {i : ℕ} (key : t.g.key = s.g.key) (counter : t.g.counter = s.g.counter + 1)
      (blocks : t.blocks = (s.g.key,s.g.counter) :: s.blocks) : Moves s t (.draw i)

lemma step_draw (h : s.step (.draw i) = some (r,t)) :
    t.g = s.drawn ∧ t.blocks = (s.g.key,s.g.counter) :: s.blocks := by
  simp only [step] at h
  split at h
  · split at h <;> cases h <;> exact ⟨rfl,rfl⟩
  · cases h

lemma step_moves (h : s.step e = some (r,t)) : Moves s t e := by
  cases e with
  | init i present =>
    simp only [step] at h
    split at h
    · split at h <;> cases h <;> exact .rest rfl rfl rfl
    · cases h
  | bytes i out len =>
    simp only [step] at h
    split at h
    · split_ifs at h <;> cases h <;> exact .rest rfl rfl rfl
    · cases h
  | test i =>
    simp only [step] at h
    split at h <;> cases h
    exact .rest rfl rfl rfl
  | fetch i seed =>
    simp only [step] at h
    split at h <;> cases h <;> exact .rest rfl rfl rfl
  | mix i =>
    obtain ⟨g,hg,hrest⟩ := Option.map_eq_some_iff.mp h
    cases hrest
    exact .mix hg rfl rfl
  | draw i =>
    obtain ⟨hg,hblocks⟩ := step_draw h
    exact .draw (by rw [hg]; rfl) (by rw [hg]; rfl) hblocks

lemma rekeyed_counter {g : Csprng} (h : s.rekeyed i = some g) : g.counter = 0 := by
  unfold rekeyed at h
  split at h <;> cases h <;> rfl

lemma mixKey_zero (key : Key) : mixKey key (Vector.replicate 32 0) = key := by
  ext i hi
  simp [mixKey,seedWord,Vector.get]

lemma kept_initial : Kept initial where
  once := nodup_nil
  current := ⟨0,by decide,rfl,rfl⟩
  first _ h := nomatch h

lemma ofNat_succ (n : ℕ) : UInt32.ofNat n + 1 = UInt32.ofNat (n + 1) := by
  rw [UInt32.ofNat_add]
  rfl

lemma ofNat_inj_of_lt {m n : ℕ} (hm : m < 2^32) (hn : n < 2^32) (h : UInt32.ofNat m = UInt32.ofNat n) : m = n := by
  have h' := congrArg UInt32.toNat h
  rwa [UInt32.toNat_ofNat_of_lt' hm,UInt32.toNat_ofNat_of_lt' hn] at h'

lemma Moves.kept (h : Moves s t e) (hs : Kept s) (ok : Fresh s e) : Kept t := by
  obtain ⟨n,hn,hc,hl⟩ := hs.current
  cases h with
  | rest key counter blocks =>
    refine ⟨blocks ▸ hs.once,⟨n,hn,counter.trans hc,?_⟩,blocks ▸ hs.first⟩
    rw [key,counters_congr blocks,hl]
  | mix h now blocks =>
    refine ⟨blocks ▸ hs.once,⟨0,Nat.zero_le _,?_,?_⟩,blocks ▸ hs.first⟩
    · rw [now,rekeyed_counter h]
      rfl
    · rw [now,counters_congr blocks]
      exact ok _ h
  | draw key counter blocks =>
    have hlen : n < 2^32 := by
      have hok : (s.counters s.g.key).length < 2^32 := ok
      simpa [hl] using hok
    have hnew : (s.g.key,s.g.counter) ∉ s.blocks := by
      intro hmem
      have hin := mem_counters.mpr hmem
      rw [hl,hc] at hin
      obtain ⟨m,hm,heq⟩ := List.mem_map.mp (List.mem_reverse.mp hin)
      have hm' := List.mem_range.mp hm
      have := ofNat_inj_of_lt (by omega) hlen heq
      omega
    have hcons : t.counters s.g.key = s.g.counter :: s.counters s.g.key := by
      simp [counters,blocks]
    refine ⟨?_,⟨n + 1,hlen,?_,?_⟩,?_⟩
    · rw [blocks]
      exact List.nodup_cons.mpr ⟨hnew,hs.once⟩
    · rw [counter,hc,ofNat_succ]
    · rw [key,hcons,hl,hc,range_succ,map_append,reverse_append]
      rfl
    · intro b hb
      rw [blocks] at hb ⊢
      rcases List.mem_cons.mp hb with rfl | hb
      · rcases Nat.eq_zero_or_pos n with rfl | hpos
        · exact List.mem_cons.mpr (.inl (by rw [hc]; rfl))
        · refine mem_cons_of_mem _ (mem_counters.mp ?_)
          rw [hl]
          exact List.mem_reverse.mpr (List.mem_map.mpr ⟨0,List.mem_range.mpr hpos,rfl⟩)
      · exact mem_cons_of_mem _ (hs.first b hb)

lemma kept_of_runs (h : Runs step Fresh initial es s) : Kept s :=
  h.invariant (fun _ _ _ _ hs ok now => (step_moves now).kept hs ok) kept_initial

lemma draw_repeats (h : s.step (.draw i) = some (r,t)) (hold : (s.g.key,s.g.counter) ∈ s.blocks) : ¬ t.blocks.Nodup := by
  rw [(step_draw h).2]
  exact fun hnodup => (List.nodup_cons.mp hnodup).1 hold

lemma Moves.blocks_suffix (h : Moves s t e) : s.blocks <:+ t.blocks := by
  cases h with
  | rest _ _ blocks | mix _ _ blocks =>
    exact blocks ▸ suffix_rfl
  | draw _ _ blocks =>
    rw [blocks]
    exact suffix_cons _ _

/-- An event that is not the locked section with a new seed. -/
def KeepsKey (_ : Sys) : Event → Prop
  | .mix _ => False
  | _ => True

/-- The next block will be one from a pair that has been used, or two blocks are from one pair. -/
def Stale (n : ℕ) (s : Sys) : Prop :=
  ¬ s.blocks.Nodup ∨ s.blocks.length = n ∧ (s.g.key,s.g.counter) ∈ s.blocks

lemma Moves.stale {n : ℕ} (h : Moves s t e) (hs : Stale n s) (ok : KeepsKey s e) : Stale n t := by
  rcases hs with hdup | ⟨hlen,hold⟩
  · exact .inl fun hnodup => hdup (hnodup.sublist h.blocks_suffix.sublist)
  · cases h with
    | rest key counter blocks => exact .inr ⟨by rw [blocks,hlen],by rwa [key,counter,blocks]⟩
    | mix => exact ok.elim
    | draw _ _ blocks =>
      left
      rw [blocks]
      exact fun hnodup => (List.nodup_cons.mp hnodup).1 hold

lemma Kept.pair_of_full (hs : Kept s) (hfull : 2^32 ≤ (s.counters s.g.key).length) :
    (s.g.key,s.g.counter) ∈ s.blocks := by
  obtain ⟨n,hn,hc,hl⟩ := hs.current
  have hlen : (s.counters s.g.key).length = n := by simp [hl]
  obtain rfl : n = 2^32 := by omega
  have hc0 : s.g.counter = 0 := by rw [hc]; rfl
  rw [hc0]
  refine mem_counters.mp ?_
  rw [hl]
  exact List.mem_reverse.mpr (List.mem_map.mpr ⟨0,List.mem_range.mpr (by decide),rfl⟩)

lemma stale_of_not_fresh (hs : Kept s) (h : s.step e = some (r,t)) (hbad : ¬ Fresh s e) : Stale s.blocks.length t := by
  cases e with
  | mix i =>
    obtain ⟨g,hg,hrest⟩ := Option.map_eq_some_iff.mp h
    cases hrest
    have hused : s.counters g.key ≠ [] := by
      intro hnil
      refine hbad fun g' hg' => ?_
      rw [hg] at hg'
      cases hg'
      exact hnil
    obtain ⟨c,hc⟩ := exists_mem_of_ne_nil _ hused
    refine .inr ⟨rfl,?_⟩
    change (g.key,g.counter) ∈ s.blocks
    rw [rekeyed_counter hg]
    exact hs.first _ (mem_counters.mp hc)
  | draw i =>
    exact .inl (draw_repeats h (hs.pair_of_full (not_lt.mp hbad)))
  | _ => exact (hbad trivial).elim

/-- Every run of `random_init` and `random_bytes` in which each new seed leads to a key that no block
is from, and each block is computed while fewer than 2^32 are from the key in place, computes every
block from a pair of its own; behind any other step, the first block before the next new seed is
from a pair that has been used. -/
theorem keystream_fresh (h : Runs step Fresh initial es s) :
    s.blocks.Nodup ∧ ∀ e r t, s.step e = some (r,t) → ¬ Fresh s e →
      ∀ fs u, Runs step KeepsKey t fs u → s.blocks.length < u.blocks.length → ¬ u.blocks.Nodup := by
  refine ⟨(kept_of_runs h).once,fun e r t now hbad fs u hrun hmore => ?_⟩
  have hstale := hrun.invariant (fun _ _ _ _ hs ok now => (step_moves now).stale hs ok) (stale_of_not_fresh (kept_of_runs h) now hbad)
  rcases hstale with hdup | ⟨hlen,_⟩
  · exact hdup
  · omega

theorem keystream_fresh_two : ∃ es s, Runs step Fresh initial es s ∧ s.blocks.length = 2 ∧ s.blocks.Nodup := by
  let es : List Event := [.init 0 true,.fetch 0 (Vector.replicate 32 7),.mix 0,.bytes 0 true 100,.test 0,.draw 0,.test 0,.draw 0]
  have hrun : (execute (fun s e => if fresh s e then step s e else none) initial es).any (fun s => s.blocks.length == 2) = true := by
    decide +kernel
  obtain ⟨s,hs,hlen⟩ := (Option.any_eq_true _ _).mp hrun
  have hruns := Runs.of_guarded fresh_sound hs
  exact ⟨es,s,hruns,eq_of_beq hlen,(keystream_fresh hruns).1⟩

/-! A reseed with zeros after 256 KiB. -/

lemma chacha20Block_length (key : Key) (n : Vector UInt32 3) (c : UInt32) : (chacha20Block key n c).length = 64 := by
  simp only [chacha20Block,length_flatMap,length_cons,length_nil,map_const',Vector.length_toList]
  rfl

lemma turn {len : ℕ} {dst : List UInt8} (hpc : s.pc i = .test len dst) (hsince : s.g.sinceReseed < reseedBytes)
    (hmore : dst.length + 64 < len) :
    ∃ t dst', Runs step (fun _ _ => True) s [.test i,.draw i] t ∧ t.pc i = .test len dst' ∧ dst'.length = dst.length + 64 ∧
      t.g = s.drawn ∧ t.blocks = (s.g.key,s.g.counter) :: s.blocks := by
  have htest : s.step (.test i) = some (none,s.goTo i (.draw len dst)) := by
    have hlow : ¬ reseedBytes ≤ s.g.sinceReseed := UInt32.not_le.mpr hsince
    simp only [step,hpc,if_neg hlow]
  let dst' := dst ++ (chacha20Block s.g.key nonce s.g.counter).take (len - dst.length)
  have hdst : dst'.length = dst.length + 64 := by
    simp only [dst',length_append,length_take,chacha20Block_length]
    omega
  let t : Sys := { s.goTo i (.draw len dst) with g := s.drawn,blocks := (s.g.key,s.g.counter) :: s.blocks }.goTo i (.test len dst')
  have hdraw : (s.goTo i (.draw len dst)).step (.draw i) = some (none,t) := by
    have hpc' : (s.goTo i (.draw len dst)).pc i = .draw len dst := update_self ..
    have hless : dst'.length < len := by omega
    simp only [step,hpc']
    exact if_pos hless
  exact ⟨t,dst',.cons trivial htest (.cons trivial hdraw (.nil t)),update_self ..,hdst,rfl,rfl⟩

lemma turns (n : ℕ) (hn : n < 4096) : ∃ es s dst, Runs step (fun _ _ => True) initial es s ∧
    s.pc 0 = .test (64*4097) dst ∧ dst.length = 64*(n + 1) ∧ s.g.sinceReseed = UInt32.ofNat (64*(n + 1)) ∧
    (s.g.key,0) ∈ s.blocks := by
  induction n with
  | zero =>
    let es : List Event := [.init 0 true,.fetch 0 (Vector.replicate 32 7),.mix 0,.bytes 0 true (64*4097)]
    have hstart : ∃ s, execute step initial es = some s ∧ s.pc 0 = .test (64*4097) [] ∧ s.g.sinceReseed = 0 ∧ s.g.counter = 0 :=
      ⟨_,rfl,rfl,rfl,rfl⟩
    obtain ⟨s,hs,hpc,hsince,hcounter⟩ := hstart
    obtain ⟨t,dst,hrun,hpc',hdst,hg,hblocks⟩ := turn hpc (by rw [hsince]; decide) (by decide)
    refine ⟨_,t,dst,(Runs.of_execute hs).append hrun,hpc',by simpa using hdst,?_,?_⟩
    · rw [hg]
      simp only [drawn,hsince]
      rfl
    · rw [hg,hblocks]
      simp [drawn,hcounter]
  | succ n ih =>
    obtain ⟨es,s,dst,hs,hpc,hdst,hsince,hmem⟩ := ih (by omega)
    have hlt : s.g.sinceReseed < reseedBytes := by
      rw [hsince,UInt32.lt_iff_toNat_lt,UInt32.toNat_ofNat_of_lt' (by rw [UInt32.size]; omega)]
      change _ < 256*1024
      omega
    obtain ⟨t,dst',hrun,hpc',hdst',hg,hblocks⟩ := turn hpc hlt (by omega)
    refine ⟨_,t,dst',hs.append hrun,hpc',by omega,?_,?_⟩
    · rw [hg]
      simp only [drawn,hsince]
      rw [show 64*(n + 1 + 1) = 64*(n + 1) + 64 from by omega,UInt32.ofNat_add]
      rfl
    · rw [hg,hblocks]
      exact mem_cons_of_mem _ hmem

/-- virtio-rng may answer a reseed with zeros. -/
theorem keystream_repeats : ∃ es s, Runs step (fun _ _ => True) initial es s ∧ ¬ s.blocks.Nodup := by
  obtain ⟨es,s,dst,hs,hpc,hdst,hsince,hmem⟩ := turns 4095 (by decide)
  have htest : s.step (.test 0) = some (none,s.goTo 0 (.fetch (64*4097) dst)) := by
    have hhigh : reseedBytes ≤ s.g.sinceReseed := by
      rw [hsince]
      decide
    simp only [step,hpc,if_pos hhigh]
  let zeros : Seed := Vector.replicate 32 0
  let s₁ := s.goTo 0 (.mix (64*4097) dst zeros)
  let s₂ : Sys := { s₁ with g := s.g.mixIntoKeyLocked zeros }.goTo 0 (.draw (64*4097) dst)
  have hfetch : (s.goTo 0 (.fetch (64*4097) dst)).step (.fetch 0 zeros) = some (none,s₁) := by
    simp only [step,goTo,update_self,update_idem]
    rfl
  have hmix : s₁.step (.mix 0) = some (none,s₂) := by
    simp only [step,rekeyed,afterMix,s₁,goTo,update_self]
    rfl
  have hdraw : ∃ r t, s₂.step (.draw 0) = some (r,t) := by
    have hpc₂ : s₂.pc 0 = .draw (64*4097) dst := update_self 0 _ s₁.pc
    simp only [step,hpc₂]
    split <;> exact ⟨_,_,rfl⟩
  obtain ⟨r,t,ht⟩ := hdraw
  refine ⟨_,t,hs.append (.cons trivial htest (.cons trivial hfetch (.cons trivial hmix (.cons trivial ht (.nil t))))),draw_repeats ht ?_⟩
  have hkey : s₂.g.key = s.g.key := mixKey_zero s.g.key
  rw [hkey]
  exact hmem

end VibeOS.Random.Sys

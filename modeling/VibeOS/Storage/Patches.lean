import VibeOS.Userfs.Call

/-! Memory as bytes, and the 64-bit words in it. -/
namespace VibeOS.Storage
open VibeOS.Userfs (leBytes leNat length_leBytes leNat_leBytes)

abbrev ByteMem := ℕ → UInt8

def load64 (m : ByteMem) (a : ℕ) : ℕ := leNat ((List.range 8).map fun k => m (a + k))

def store64 (m : ByteMem) (a v : ℕ) : ByteMem := fun x => if a ≤ x ∧ x < a + 8 then (leBytes 8 v).getD (x - a) 0 else m x

variable {m m' : ByteMem} {a b v x : ℕ}

lemma store64_of_out (h : x < a ∨ a + 8 ≤ x) : store64 m a v x = m x := if_neg (by omega)

lemma leNat_lt (bytes : List UInt8) : leNat bytes < 256^bytes.length := by
  induction bytes with
  | nil => exact Nat.one_pos
  | cons b bytes ih =>
    have hb := b.toNat_lt
    rw [List.length_cons,Nat.pow_succ]
    change b.toNat + 256*leNat bytes < _
    omega

lemma load64_lt (m : ByteMem) (a : ℕ) : load64 m a < 2^64 := by
  have h := leNat_lt ((List.range 8).map fun k => m (a + k))
  rw [List.length_map,List.length_range] at h
  exact h

lemma load64_congr (h : ∀ x, a ≤ x → x < a + 8 → m' x = m x) : load64 m' a = load64 m a := by
  unfold load64
  congr 1
  refine List.map_congr_left fun k hk => h _ (Nat.le_add_right a k) ?_
  have := List.mem_range.mp hk
  omega

lemma load64_store64 (hv : v < 2^64) : load64 (store64 m a v) a = v := by
  have hbytes : ((List.range 8).map fun k => store64 m a v (a + k)) = leBytes 8 v := by
    refine List.ext_getElem (by simp) fun k hk hk' => ?_
    rw [length_leBytes] at hk'
    rw [List.getElem_map,List.getElem_range]
    unfold store64
    rw [if_pos ⟨by omega,by omega⟩,Nat.add_sub_cancel_left]
    simp [hk']
  unfold load64
  rw [hbytes,leNat_leBytes]
  exact hv

lemma load64_store64_of_apart (h : a + 8 ≤ b ∨ b + 8 ≤ a) : load64 (store64 m a v) b = load64 m b :=
  load64_congr fun x hx hx' => store64_of_out (by omega)

end VibeOS.Storage

/-! Writes to a memory one after another, each of which may look at the bytes that it replaces, and
may fail. -/
namespace VibeOS.Storage

def splice (m : ByteMem) (a : ℕ) (bytes : List UInt8) : ByteMem :=
  fun x => if a ≤ x ∧ x < a + bytes.length then bytes.getD (x - a) 0 else m x

/-- `make` sees no other byte than those it replaces. -/
structure Patch where
  addr : ℕ
  width : ℕ
  make : ByteMem → Option (List UInt8)
  length_make : ∀ m bytes, make m = some bytes → bytes.length = width
  make_congr : ∀ m m', (∀ x, addr ≤ x → x < addr + width → m x = m' x) → make m = make m'

namespace Patch
variable {p q : Patch} {ps : List Patch} {m m' : ByteMem} {x : ℕ}

def const (a : ℕ) (bytes : List UInt8) : Patch where
  addr := a
  width := bytes.length
  make _ := some bytes
  length_make _ _ h := by
    cases h
    rfl
  make_congr _ _ _ := rfl

def apply (p : Patch) (m : ByteMem) : Option ByteMem := (p.make m).map (splice m p.addr)

def Apart (p q : Patch) : Prop := p.addr + p.width ≤ q.addr ∨ q.addr + q.width ≤ p.addr

def Misses (p : Patch) (x : ℕ) : Prop := x < p.addr ∨ p.addr + p.width ≤ x

lemma apply_of_misses (h : p.apply m = some m') (hx : p.Misses x) : m' x = m x := by
  obtain ⟨bytes,hb,rfl⟩ := Option.map_eq_some_iff.mp h
  have hlen := p.length_make m bytes hb
  exact if_neg fun hin => by
    unfold Misses at hx
    omega

lemma apply_of_hits (h : p.apply m = some m') : ∃ bytes, p.make m = some bytes ∧ ∀ k < p.width, m' (p.addr + k) = bytes.getD k 0 := by
  obtain ⟨bytes,hb,rfl⟩ := Option.map_eq_some_iff.mp h
  have hlen := p.length_make m bytes hb
  refine ⟨bytes,hb,fun k hk => ?_⟩
  unfold splice
  rw [if_pos ⟨by omega,by omega⟩,Nat.add_sub_cancel_left]

lemma foldlM_apply (hapart : ps.Pairwise Apart) (h : ps.foldlM (fun m p => p.apply m) m = some m') :
    (∀ p ∈ ps, ∃ bytes, p.make m = some bytes ∧ ∀ k < p.width, m' (p.addr + k) = bytes.getD k 0) ∧
      ∀ x, (∀ p ∈ ps, p.Misses x) → m' x = m x := by
  induction ps generalizing m with
  | nil =>
    cases h
    exact ⟨fun p hp => absurd hp List.not_mem_nil,fun _ _ => rfl⟩
  | cons p ps ih =>
    obtain ⟨hp,hps⟩ := List.pairwise_cons.mp hapart
    obtain ⟨m₁,hm₁,hrest⟩ := Option.bind_eq_some_iff.mp h
    obtain ⟨hhits,hmisses⟩ := ih hps hrest
    refine ⟨fun q hq => ?_,fun x hx => ?_⟩
    · rcases List.mem_cons.mp hq with rfl | hq
      · obtain ⟨bytes,hb,hbytes⟩ := apply_of_hits hm₁
        refine ⟨bytes,hb,fun k hk => ?_⟩
        rw [hmisses (q.addr + k) fun r hr => ?_,hbytes k hk]
        rcases hp r hr with hle | hle
        · exact .inl (by omega)
        · exact .inr (by omega)
      · obtain ⟨bytes,hb,hbytes⟩ := hhits q hq
        refine ⟨bytes,?_,hbytes⟩
        rw [q.make_congr m m₁ fun x hx hx' => ?_]
        · exact hb
        · refine (apply_of_misses hm₁ ?_).symm
          rcases hp q hq with hle | hle
          · exact .inr (by omega)
          · exact .inl (by omega)
    · rw [hmisses x fun r hr => hx r (List.mem_cons_of_mem _ hr),apply_of_misses hm₁ (hx p List.mem_cons_self)]

end Patch
end VibeOS.Storage

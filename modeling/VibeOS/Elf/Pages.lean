import VibeOS.Elf.Demands

/-! What the pages of an address space hold, and how the loader fills them. -/
namespace VibeOS.Elf
open Function List
open Storage Memory

def pageAt (as : AddressSpace) (m : Pmem) (i : Index) : Option (ℕ → UInt8) :=
  if (as.entry i).valid then some (m.bytes (as.entry i).pa) else none

def peek (as : AddressSpace) (m : Pmem) (va : ℕ) : Option UInt8 :=
  if userVaBase ≤ va ∧ va < userVaEnd then (pageAt as m (indexOf va)).map (· (va % pageSize)) else none

/-- Every page has a frame of its own, which is not free. -/
structure Tidy (as : AddressSpace) (m : Pmem) : Prop where
  nodup : m.free.Nodup
  usable : ∀ pa ∈ m.free, pa ≠ 0 ∧ pa % pageSize = 0
  apart : ∀ i, (as.entry i).valid = true → (as.entry i).pa ∉ m.free
  single : ∀ i j, (as.entry i).valid = true → (as.entry j).valid = true → (as.entry i).pa = (as.entry j).pa → i = j

variable {data : List UInt8} {ph : Phdr} {argv : List (List UInt8)} {as as' : AddressSpace} {m m' : Pmem} {l : Fin 512}
  {n k va pa : ℕ} {i : Index} {w x : Bool} {c : ℕ → UInt8}

lemma l3For_spec (h : as.l3For l m = some (as',m')) : (∀ j, as'.entry j = as.entry j) ∧ as'.l2 l ≠ none ∧
    (m' = m ∨ ∃ q, m.free = q :: m'.free ∧ m'.bytes = update m.bytes q fun _ => 0) := by
  unfold AddressSpace.l3For at h
  cases hl : as.l2 l with
  | some t =>
    rw [hl] at h
    cases h
    exact ⟨fun _ => rfl,by rw [hl]; exact Option.some_ne_none t,.inl rfl⟩
  | none =>
    rw [hl] at h
    cases hf : m.free with
    | nil =>
      have halloc : m.allocPage = (0,m) := by rw [Pmem.allocPage,hf]
      rw [halloc] at h
      cases h
    | cons q rest =>
      have halloc : m.allocPage = (q,{ m with free := rest, bytes := update m.bytes q fun _ => 0 }) := by
        rw [Pmem.allocPage,hf]
      rw [halloc] at h
      dsimp only at h
      split_ifs at h
      cases h
      refine ⟨entry_newTable hl q,?_,.inr ⟨q,rfl,rfl⟩⟩
      dsimp only
      rw [update_self]
      exact Option.some_ne_none _

lemma Tidy.mapPage (h : Tidy as m) {rest : List ℕ} (hf : m.free = pa :: rest) (hva : va % pageSize = 0)
    {m₁ : Pmem} (hfree : m₁.free = rest) (hbytes : m₁.bytes = update m.bytes pa c)
    (now : as.map va pa 1 w x m₁ = (true,as',m')) :
    Tidy as' m' ∧ (∀ i, pageAt as' m' i = if i = indexOf va then some c else pageAt as m i) ∧
      (as'.entry (indexOf va)).pa = pa := by
  rw [map_one as m₁ hva (h.usable pa (hf ▸ mem_cons_self)).2] at now
  by_cases hok : Mappable va
  swap
  · rw [if_neg hok] at now
    cases now
  rw [if_pos hok] at now
  cases hl : as.l3For (indexOf va).1 m₁ with
  | none =>
    rw [hl] at now
    cases now
  | some r =>
    obtain ⟨as₂,m₂⟩ := r
    rw [hl] at now
    cases now
    obtain ⟨hentry,htable,hm⟩ := l3For_spec hl
    have hset : ∀ j, (as₂.setEntry (indexOf va) (.page pa w x)).onePageMore.entry j =
        if j = indexOf va then .page pa w x else as.entry j := fun j => by
      rw [← hentry]
      exact entry_setEntry htable j
    have hnodup := h.nodup
    rw [hf,nodup_cons] at hnodup
    have hsub : ∀ q ∈ m'.free, q ∈ rest := fun q hq => by
      rcases hm with rfl | ⟨q',hq',-⟩
      · exact hfree ▸ hq
      · rw [← hfree,hq']
        exact mem_cons_of_mem _ hq
    have hsame : ∀ q, q ∉ rest → m'.bytes q = m₁.bytes q := fun q hq => by
      rcases hm with rfl | ⟨q',hq',hb⟩
      · rfl
      · rw [hb,update_of_ne]
        rintro rfl
        exact hq (by rw [← hfree,hq']; exact mem_cons_self)
    have hold : ∀ j, (as.entry j).valid = true → (as.entry j).pa ≠ pa ∧ (as.entry j).pa ∉ rest := fun j hj => by
      have := h.apart j hj
      rw [hf,mem_cons,not_or] at this
      exact this
    refine ⟨⟨?_,fun q hq => h.usable q (hf ▸ mem_cons_of_mem _ (hsub q hq)),fun j hj hmem => ?_,fun j j' hj hj' heq => ?_⟩,
      fun j => ?_,?_⟩
    · rcases hm with rfl | ⟨q',hq',-⟩
      · exact hfree ▸ hnodup.2
      · have hn := hnodup.2
        rw [← hfree,hq',nodup_cons] at hn
        exact hn.2
    · rw [hset] at hj hmem
      split_ifs at hj hmem with hj₀
      · exact hnodup.1 (hsub _ hmem)
      · exact (hold j hj).2 (hsub _ hmem)
    · rw [hset] at hj heq
      rw [hset] at hj' heq
      split_ifs at hj hj' heq with h₁ h₂ h₂
      · rw [h₁,h₂]
      · exact absurd heq.symm (hold j' hj').1
      · exact absurd heq (hold j hj).1
      · exact h.single j j' hj hj' heq
    · unfold pageAt
      rw [hset]
      split_ifs with h₁ h₂ h₂
      · rw [show (Desc.page pa w x).pa = pa from rfl,hsame pa hnodup.1,hbytes,update_self]
      · exact absurd rfl h₂
      · rw [hsame _ (hold j h₂).2,hbytes,update_of_ne (hold j h₂).1]
      · rfl
    · rw [hset,if_pos rfl]
      rfl

lemma allocPage_of_ne (h : m.allocPage = (pa,m')) (hne : pa ≠ 0) :
    ∃ rest, m.free = pa :: rest ∧ m'.free = rest ∧ m'.bytes = update m.bytes pa fun _ => 0 := by
  unfold Pmem.allocPage at h
  split at h
  · cases h
    exact absurd rfl hne
  · next q rest hf =>
    cases h
    exact ⟨rest,hf,rfl,rfl⟩

end VibeOS.Elf

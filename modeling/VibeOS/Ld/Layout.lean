import VibeOS.Ld.Linker

/-! Where `layout_sections` puts the sections of the inputs. -/
namespace VibeOS.Ld
open VibeOS.Storage List Nat

variable {objs : List Object} {o o' : Object} {k l : Kind} {sh sh' : Shdr} {i j v e size : ℕ}

def AlignOk (a : ℕ) : Prop := a = 0 ∨ ∃ e, a = 2^e

lemma and_mask {x : ℕ} (hx : x < 2^64) (he : e ≤ 64) : x &&& (2^64 - 2^e) = x/2^e*2^e := by
  have hmask : 2^64 - 2^e = (2^(64 - e) - 1)*2^e := by
    rw [Nat.sub_mul,Nat.one_mul,← Nat.pow_add,Nat.sub_add_cancel he]
  apply eq_of_testBit_eq
  intro n
  rw [testBit_and,hmask,testBit_mul_two_pow,testBit_mul_two_pow,testBit_two_pow_sub_one,testBit_div_two_pow]
  by_cases hn : e ≤ n
  · rw [Nat.sub_add_cancel hn]
    by_cases hn' : n < 64
    · simp [hn,show n - e < 64 - e by omega]
    · rw [testBit_lt_two_pow (hx.trans_le (Nat.pow_le_pow_right (by decide) (by omega)))]
      simp
  · simp [hn]

lemma alignUp_spec (h : v + 2^e ≤ 2^63) : 2^e ∣ alignUp v (2^e) ∧ v ≤ alignUp v (2^e) ∧ alignUp v (2^e) < v + 2^e := by
  have hpos : 0 < 2^e := Nat.two_pow_pos e
  have he : e ≤ 64 := by
    by_contra hno
    have : 2^64 ≤ 2^e := Nat.pow_le_pow_right (by decide) (by omega)
    omega
  have hsum : (v + 2^e + (2^64 - 1)) % 2^64 = v + 2^e - 1 := by omega
  have heq : alignUp v (2^e) = (v + 2^e - 1)/2^e*2^e := by
    unfold alignUp
    rw [if_neg (Nat.pos_iff_ne_zero.mp hpos),hsum,and_mask (by omega) he]
  rw [heq]
  have hdiv := div_add_mod (v + 2^e - 1) (2^e)
  have hmod := mod_lt (v + 2^e - 1) hpos
  rw [Nat.mul_comm] at hdiv
  exact ⟨Nat.dvd_mul_left ..,by omega,by omega⟩

def Object.weight (o : Object) (k : Kind) : ℕ :=
  match o.sec k with
  | none => 0
  | some sh => (if sh.align = 0 then 1 else sh.align) + sh.size

def weight (k : Kind) (objs : List Object) : ℕ := (objs.map (·.weight k)).sum

/-- The sections of one output section, each behind the ones before it. -/
structure Placed (k : Kind) (objs : List Object) (size : ℕ) (r : List ℕ × ℕ) : Prop where
  grows : size ≤ r.2
  bounded : r.2 ≤ size + weight k objs
  inside : ∀ i o sh, objs[i]? = some o → o.sec k = some sh → size ≤ r.1.getD i 0 ∧ r.1.getD i 0 + sh.size ≤ r.2
  aligned : ∀ i o sh, objs[i]? = some o → o.sec k = some sh → sh.align ≠ 0 → sh.align ∣ r.1.getD i 0
  apart : ∀ i j o o' sh sh', i < j → objs[i]? = some o → objs[j]? = some o' → o.sec k = some sh → o'.sec k = some sh' →
    r.1.getD i 0 + sh.size ≤ r.1.getD j 0

lemma placed (hal : ∀ o ∈ objs, ∀ sh, o.sec k = some sh → AlignOk sh.align) (h : size + weight k objs ≤ 2^63) :
    Placed k objs size (place k objs size) := by
  induction objs generalizing size with
  | nil => exact ⟨le_rfl,Nat.le_add_right ..,nofun,nofun,nofun⟩
  | cons o objs ih =>
    have hweight : weight k (o :: objs) = o.weight k + weight k objs := rfl
    rw [hweight] at h
    have hal' : ∀ o ∈ objs, ∀ sh, o.sec k = some sh → AlignOk sh.align := fun o ho => hal o (mem_cons_of_mem _ ho)
    cases hsec : o.sec k with
    | none =>
      have hzero : o.weight k = 0 := by
        unfold Object.weight
        rw [hsec]
      have hr : Placed k objs size (place k objs size) := ih hal' (by omega)
      have hplace : place k (o :: objs) size = (0 :: (place k objs size).1,(place k objs size).2) := by
        rw [place,hsec]
      rw [hplace]
      refine ⟨hr.grows,by rw [hweight,hzero,Nat.zero_add]; exact hr.bounded,fun i o₁ sh hi hsh => ?_,fun i o₁ sh hi hsh => ?_,
        fun i j o₁ o₂ sh sh' hij hi hj hsh hsh' => ?_⟩
      · cases i with
        | zero =>
          cases hi
          cases hsec.symm.trans hsh
        | succ i => exact hr.inside i o₁ sh hi hsh
      · cases i with
        | zero =>
          cases hi
          cases hsec.symm.trans hsh
        | succ i => exact hr.aligned i o₁ sh hi hsh
      · cases i with
        | zero =>
          cases hi
          cases hsec.symm.trans hsh
        | succ i =>
          cases j with
          | zero => omega
          | succ j => exact hr.apart i j o₁ o₂ sh sh' (by omega) hi hj hsh hsh'
    | some s =>
      have hone : o.weight k = (if s.align = 0 then 1 else s.align) + s.size := by
        unfold Object.weight
        rw [hsec]
      generalize hoff : alignUp size (if s.align = 0 then 1 else s.align) = off
      have halign : (s.align ≠ 0 → s.align ∣ off) ∧ size ≤ off ∧ off < size + (if s.align = 0 then 1 else s.align) := by
        rcases hal o mem_cons_self s hsec with hz | ⟨e,he⟩
        · rw [if_pos hz] at hoff ⊢
          have hone' : o.weight k = 1 + s.size := by rw [hone,if_pos hz]
          have hspec := alignUp_spec (v := size) (e := 0) (by omega)
          rw [Nat.pow_zero,hoff] at hspec
          exact ⟨fun hne => absurd hz hne,hspec.2⟩
        · have hne : s.align ≠ 0 := by
            rw [he]
            exact (Nat.two_pow_pos e).ne'
          rw [if_neg hne] at hoff ⊢
          rw [he] at hoff ⊢
          rw [if_neg hne,he] at hone
          have hspec := alignUp_spec (v := size) (e := e) (by omega)
          rw [hoff] at hspec
          exact ⟨fun _ => hspec.1,hspec.2⟩
      rw [hone] at h hweight
      obtain ⟨hdvd,hle,hlt⟩ := halign
      have hmod : (off + s.size) % 2^64 = off + s.size := mod_eq_of_lt (by omega)
      have hr : Placed k objs (off + s.size) (place k objs (off + s.size)) := ih hal' (by omega)
      have hplace : place k (o :: objs) size = (off :: (place k objs (off + s.size)).1,(place k objs (off + s.size)).2) := by
        rw [place,hsec]
        dsimp only
        rw [hoff,hmod]
      rw [hplace]
      have hgrows := hr.grows
      have hbounded := hr.bounded
      refine ⟨by dsimp only; omega,by dsimp only; omega,fun i o₁ sh hi hsh => ?_,fun i o₁ sh hi hsh hne => ?_,
        fun i j o₁ o₂ sh sh' hij hi hj hsh hsh' => ?_⟩
      · cases i with
        | zero =>
          cases hi
          cases hsec.symm.trans hsh
          exact ⟨hle,hgrows⟩
        | succ i =>
          have := hr.inside i o₁ sh hi hsh
          exact ⟨by simp only [getD_cons_succ]; omega,by simp only [getD_cons_succ]; omega⟩
      · cases i with
        | zero =>
          cases hi
          cases hsec.symm.trans hsh
          exact hdvd hne
        | succ i => exact hr.aligned i o₁ sh hi hsh hne
      · cases j with
        | zero => omega
        | succ j =>
          cases i with
          | zero =>
            cases hi
            cases hsec.symm.trans hsh
            exact (hr.inside j o₂ sh' hj hsh').1
          | succ i => exact hr.apart i j o₁ o₂ sh sh' (by omega) hi hj hsh hsh'

/-- The sections fit into the address space with room to spare. -/
def Small (objs : List Object) : Prop := weight .text objs + weight .rodata objs + weight .data objs + weight .bss objs ≤ 2^62

structure Aligned (objs : List Object) : Prop where
  ok : ∀ o ∈ objs, ∀ k sh, o.sec k = some sh → AlignOk sh.align
  small : Small objs

lemma Aligned.placed (h : Aligned objs) (k : Kind) : Placed k objs 0 (place k objs 0) := by
  have hsmall := h.small
  unfold Small at hsmall
  refine Ld.placed (fun o ho => h.ok o ho k) ?_
  cases k <;> omega

/-- The order of the output sections in the file and in memory. -/
structure Laid (objs : List Object) (L : Layout) : Prop where
  text : L.foff .text = 4096
  rodata : 4096 + L.size .text ≤ L.foff .rodata
  rodata_aligned : 8 ∣ L.foff .rodata
  data : L.foff .rodata + L.size .rodata ≤ L.foff .data
  data_aligned : 4096 ∣ L.foff .data
  va : ∀ k, k ≠ .bss → L.va k = loadBase + L.foff k
  va_bss : L.va .bss = L.va .data + L.size .data
  small : L.foff .data + L.size .data + L.size .bss ≤ 2^63 - 2^40

lemma Aligned.laid (h : Aligned objs) : Laid objs (layout objs) := by
  have hsmall := h.small
  unfold Small at hsmall
  have ht := (h.placed .text).bounded
  have hr := (h.placed .rodata).bounded
  have hd := (h.placed .data).bounded
  have hb := (h.placed .bss).bounded
  have htext : alignUp (64 + 2*56) segAlign = 4096 := by decide
  have hro := alignUp_spec (v := 4096 + (place .text objs 0).2) (e := 3) (by omega)
  generalize hrodata : alignUp (4096 + (place .text objs 0).2) (2^3) = rodata at hro
  have hda := alignUp_spec (v := rodata + (place .rodata objs 0).2) (e := 12) (by omega)
  generalize hdata : alignUp (rodata + (place .rodata objs 0).2) (2^12) = data at hda
  have hfr : (layout objs).foff .rodata = rodata := by
    change alignUp ((alignUp (64 + 2*56) segAlign + (place .text objs 0).2) % 2^64) 8 = rodata
    rw [htext,mod_eq_of_lt (by omega)]
    exact hrodata
  have hfd : (layout objs).foff .data = data := by
    change alignUp (((layout objs).foff .rodata + (place .rodata objs 0).2) % 2^64) segAlign = data
    rw [hfr,mod_eq_of_lt (by omega)]
    exact hdata
  have hva : ∀ k, k ≠ .bss → (layout objs).va k = (loadBase + (layout objs).foff k) % 2^64 := by
    intro k hk
    cases k <;> first | rfl | exact absurd rfl hk
  have hbase : loadBase = 68720525312 := rfl
  have hvad : (layout objs).va .data = loadBase + data := by
    rw [hva .data nofun,hfd]
    exact mod_eq_of_lt (by omega)
  refine ⟨htext,?_,?_,?_,?_,fun k hk => ?_,?_,?_⟩
  · rw [hfr]
    exact hro.2.1
  · rw [hfr]
    exact hro.1
  · rw [hfr,hfd]
    exact hda.2.1
  · rw [hfd]
    exact hda.1
  · rw [hva k hk]
    refine mod_eq_of_lt ?_
    cases k with
    | text =>
      have : (layout objs).foff .text = 4096 := htext
      omega
    | rodata =>
      rw [hfr]
      omega
    | data =>
      rw [hfd]
      omega
    | bss => exact absurd rfl hk
  · change ((layout objs).va .data + (place .data objs 0).2) % 2^64 = (layout objs).va .data + (place .data objs 0).2
    rw [hvad]
    exact mod_eq_of_lt (by omega)
  · rw [hfd]
    change data + (place .data objs 0).2 + (place .bss objs 0).2 ≤ _
    omega

def addr (objs : List Object) (i : ℕ) (k : Kind) : ℕ := (layout objs).secVa i k

lemma Aligned.inside (h : Aligned objs) (ho : objs[i]? = some o) (hsh : o.sec k = some sh) :
    addr objs i k = (layout objs).va k + (layout objs).offset i k ∧ (layout objs).offset i k + sh.size ≤ (layout objs).size k := by
  have hin := (h.placed k).inside i o sh ho hsh
  have hl := h.laid
  have hbase : loadBase = 68720525312 := rfl
  refine ⟨mod_eq_of_lt ?_,hin.2⟩
  have hle : (layout objs).offset i k ≤ (layout objs).size k := by
    have : (layout objs).offset i k + sh.size ≤ (layout objs).size k := hin.2
    omega
  have h₁ := hl.text
  have h₂ := hl.rodata
  have h₃ := hl.data
  have h₄ := hl.small
  have h₅ := hl.va_bss
  have h₆ := hl.va .data nofun
  cases k with
  | text =>
    have := hl.va .text nofun
    omega
  | rodata =>
    have := hl.va .rodata nofun
    omega
  | data | bss => omega

/-- The greatest alignment that the output section has. -/
def Kind.bound : Kind → ℕ
  | .text => 4096
  | .rodata => 8
  | .data => 4096
  | .bss => 1

lemma Aligned.apart (h : Aligned objs) (ho : objs[i]? = some o) (hsh : o.sec k = some sh) (ho' : objs[j]? = some o')
    (hsh' : o'.sec l = some sh') (hne : ¬ (i = j ∧ k = l)) :
    addr objs i k + sh.size ≤ addr objs j l ∨ addr objs j l + sh'.size ≤ addr objs i k := by
  obtain ⟨ha,hin⟩ := h.inside ho hsh
  obtain ⟨ha',hin'⟩ := h.inside ho' hsh'
  have hl := h.laid
  have h₁ := hl.va .text nofun
  have h₂ := hl.va .rodata nofun
  have h₃ := hl.va .data nofun
  have h₄ := hl.va_bss
  have h₅ := hl.text
  have h₆ := hl.rodata
  have h₇ := hl.data
  rw [ha,ha']
  rcases eq_or_ne k l with rfl | hkl
  · have hij : i ≠ j := fun heq => hne ⟨heq,rfl⟩
    rcases Nat.lt_or_gt_of_ne hij with hlt | hgt
    · have hap : (layout objs).offset i k + sh.size ≤ (layout objs).offset j k := (h.placed k).apart i j o o' sh sh' hlt ho ho' hsh hsh'
      left
      omega
    · have hap : (layout objs).offset j k + sh'.size ≤ (layout objs).offset i k := (h.placed k).apart j i o' o sh' sh hgt ho' ho hsh' hsh
      right
      omega
  · cases k <;> cases l <;> first
      | exact absurd rfl hkl
      | (left; omega)
      | (right; omega)

end VibeOS.Ld

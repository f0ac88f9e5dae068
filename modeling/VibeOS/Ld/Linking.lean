import VibeOS.Ld.Symbols

/-! What an executable that `ld` writes without an error holds, and where. -/
namespace VibeOS.Ld
open VibeOS.Storage List Option
open VibeOS.Userfs (leBytes leNat length_leBytes leNat_leBytes)

variable {objs : List Object} {o o' : Object} {k l : Kind} {sh sh' : Shdr} {i j : ℕ} {r r' : Rela} {t : List GSym} {m m' : ByteMem}
  {explicit : Option Name} {exe : Exe}

/-- An object as the format describes it; no two relocations are for one place. -/
structure Object.WellFormed (o : Object) : Prop where
  align : ∀ k sh, o.sec k = some sh → AlignOk sh.align
  type : ∀ k sh, o.sec k = some sh → (sh.type = shtNobits ↔ k = .bss)
  contents : ∀ k sh, o.sec k = some sh → k ≠ .bss → sh.bytes.length = sh.size
  inside : ∀ r ∈ o.relas, ∃ sh, o.sec .text = some sh ∧ r.offset + r.width ≤ sh.size
  apart : o.relas.Pairwise fun r r' => r.offset + r.width ≤ r'.offset ∨ r'.offset + r'.width ≤ r.offset

/-- S of a relocation: of the section itself, of the only global definition, or in the same file. -/
inductive SymbolAt (objs : List Object) (i : ℕ) (o : Object) (n S : ℕ) : Prop
  | sect (s : Sym) (k : Kind) (hs : o.syms[n]? = some s) (hk : o.kindOf s.shndx = some k) (h : S = addr objs i k)
  | global (s : Sym) (d : Definition) (hs : o.syms[n]? = some s) (hb : s.bind = stbGlobal) (hd : defs (globals objs) s.name = [d])
      (h : S = (addr objs d.input d.kind + d.value) % 2^64)
  | «local» (s : Sym) (k : Kind) (hs : o.syms[n]? = some s) (hb : s.bind ≠ stbGlobal) (hk : o.kindOf s.shndx = some k)
      (h : S = (addr objs i k + s.value) % 2^64)

def Exe.Holds (e : Exe) (x : ℕ) (bytes : List UInt8) : Prop := ∀ n < bytes.length, e.byteAt (x + n) = some (bytes.getD n 0)

/-- A branch to `S + A` at `P`, with the bits of the instruction that it replaces. -/
structure Branch (insn w : BitVec 32) (P S : ℕ) (A : ℤ) : Prop where
  displacement : 4*(w.setWidth 26).toInt = ((S : ℤ) + A - P).bmod (2^64)
  opcode : w &&& 0xFC000000#32 = insn &&& 0xFC000000#32

inductive Applied (e : Exe) (P S : ℕ) (r : Rela) (old : List UInt8) : Prop
  | abs64 (hr : r.type = rAbs64) (h : e.Holds P (leBytes 8 (((S : ℤ) + r.addend) % 2^64).toNat))
  | branch (hr : r.type = rCall26 ∨ r.type = rJump26) (w : BitVec 32) (h : e.Holds P (leBytes 4 w.toNat))
      (hw : Branch (BitVec.ofNat 32 (leNat (old.take 4))) w P S r.addend)

structure Linked (explicit : Option Name) (objs : List Object) (e : Exe) : Prop where
  aligned : ∀ i o k sh, objs[i]? = some o → o.sec k = some sh → sh.align ∣ k.bound → sh.align ∣ addr objs i k
  apart : ∀ i o k sh j o' l sh', objs[i]? = some o → o.sec k = some sh → objs[j]? = some o' → o'.sec l = some sh' → ¬ (i = j ∧ k = l) →
    addr objs i k + sh.size ≤ addr objs j l ∨ addr objs j l + sh'.size ≤ addr objs i k
  bytes : ∀ i o k sh x, objs[i]? = some o → o.sec k = some sh → x < sh.size →
    (k = .text → ∀ r ∈ o.relas, x < r.offset ∨ r.offset + r.width ≤ x) →
    e.byteAt (addr objs i k + x) = some (if k = .bss then 0 else sh.bytes.getD x 0)
  relocated : ∀ i o r sh, objs[i]? = some o → r ∈ o.relas → o.sec .text = some sh →
    ∃ S, SymbolAt objs i o r.sym S ∧ Applied e (addr objs i .text + r.offset) S r (sh.bytes.drop r.offset)
  once : ∀ name, (defs (globals objs) name).length ≤ 1
  entry : ∃ d, e.entry = (addr objs d.input d.kind + d.value) % 2^64 ∧
    match explicit with
    | some n => defs (globals objs) n = [d]
    | none => defs (globals objs) userStart = [d] ∨ defs (globals objs) userStart = [] ∧ defs (globals objs) start = [d]

lemma aligned_of (hwf : ∀ o ∈ objs, o.WellFormed) (hsmall : Small objs) : Aligned objs := ⟨fun o ho => (hwf o ho).align,hsmall⟩

def fileAddr (objs : List Object) (i : ℕ) (k : Kind) : ℕ := (layout objs).foff k + (layout objs).offset i k

lemma Aligned.addr_eq (h : Aligned objs) (ho : objs[i]? = some o) (hsh : o.sec k = some sh) (hk : k ≠ .bss) :
    addr objs i k = loadBase + fileAddr objs i k := by
  rw [(h.inside ho hsh).1,h.laid.va k hk]
  exact Nat.add_assoc ..

lemma Aligned.fileAddr_lt (h : Aligned objs) (ho : objs[i]? = some o) (hsh : o.sec k = some sh) (hk : k ≠ .bss) :
    4096 ≤ fileAddr objs i k ∧ fileAddr objs i k + sh.size < 2^63 := by
  have hin := (h.inside ho hsh).2
  have hl := h.laid
  have h₁ := hl.text
  have h₂ := hl.rodata
  have h₃ := hl.data
  have h₄ := hl.small
  unfold fileAddr
  cases k with
  | text | rodata | data => omega
  | bss => exact absurd rfl hk

lemma Aligned.file_apart (h : Aligned objs) (ho : objs[i]? = some o) (hsh : o.sec k = some sh) (hk : k ≠ .bss) (ho' : objs[j]? = some o')
    (hsh' : o'.sec l = some sh') (hl : l ≠ .bss) (hne : ¬ (i = j ∧ k = l)) :
    fileAddr objs i k + sh.size ≤ fileAddr objs j l ∨ fileAddr objs j l + sh'.size ≤ fileAddr objs i k := by
  have hap := h.apart ho hsh ho' hsh' hne
  rw [h.addr_eq ho hsh hk,h.addr_eq ho' hsh' hl] at hap
  omega

lemma pairwise_zipIdx {α : Type} (xs : List α) : xs.zipIdx.Pairwise fun x y => x.2 < y.2 := by
  refine List.pairwise_map.mp ?_
  rw [zipIdx_map_snd]
  exact pairwise_lt_range' ..

lemma mem_copies {c : ℕ × List UInt8} (hwf : ∀ o ∈ objs, o.WellFormed) (hsmall : Small objs) :
    c ∈ copies (layout objs) objs ↔ ∃ i o k sh, objs[i]? = some o ∧ o.sec k = some sh ∧ k ≠ .bss ∧ c = (fileAddr objs i k,sh.bytes) := by
  have hal := aligned_of hwf hsmall
  have hmod : ∀ i o k sh, objs[i]? = some o → o.sec k = some sh → k ≠ .bss →
      ((layout objs).foff k + (layout objs).offset i k) % 2^64 = fileAddr objs i k := fun i o k sh ho hsh hk =>
    Nat.mod_eq_of_lt (by have := hal.fileAddr_lt ho hsh hk; unfold fileAddr at this; omega)
  unfold copies
  rw [mem_flatMap]
  constructor
  · rintro ⟨⟨o,i⟩,hmem,hc⟩
    rw [mem_zipIdx_iff_getElem?] at hmem
    obtain ⟨k,hk,hc⟩ := List.mem_filterMap.mp hc
    dsimp only at hc hmem
    have hkb : k ≠ .bss := by
      rintro rfl
      simp at hk
    split at hc
    · cases hc
    · next sh hsh =>
      split at hc
      · cases hc
      · cases hc
        exact ⟨i,o,k,sh,hmem,hsh,hkb,by rw [hmod i o k sh hmem hsh hkb]⟩
  · rintro ⟨i,o,k,sh,ho,hsh,hk,rfl⟩
    have htype : sh.type ≠ shtNobits := fun heq => hk (((hwf o (mem_of_getElem? ho)).type k sh hsh).mp heq)
    refine ⟨(o,i),List.mem_zipIdx_iff_getElem?.mpr ho,List.mem_filterMap.mpr ⟨k,?_,?_⟩⟩
    · cases k <;> simp at hk ⊢
    · dsimp only
      rw [hsh]
      dsimp only
      rw [if_neg htype,hmod i o k sh ho hsh hk]

lemma copies_apart (hwf : ∀ o ∈ objs, o.WellFormed) (hsmall : Small objs) :
    ((copies (layout objs) objs).map fun c => Patch.const c.1 c.2).Pairwise Patch.Apart := by
  have hal := aligned_of hwf hsmall
  rw [pairwise_map]
  have hpair : ∀ i o k sh j o' l sh', objs[i]? = some o → o.sec k = some sh → k ≠ .bss → objs[j]? = some o' → o'.sec l = some sh' → l ≠ .bss →
      ¬ (i = j ∧ k = l) → Patch.Apart (Patch.const (((layout objs).foff k + (layout objs).offset i k) % 2^64) sh.bytes)
        (Patch.const (((layout objs).foff l + (layout objs).offset j l) % 2^64) sh'.bytes) := by
    intro i o k sh j o' l sh' ho hsh hk ho' hsh' hl hne
    have hap := hal.file_apart ho hsh hk ho' hsh' hl hne
    have hlt := hal.fileAddr_lt ho hsh hk
    have hlt' := hal.fileAddr_lt ho' hsh' hl
    unfold fileAddr at hap hlt hlt'
    unfold Patch.Apart
    change _ + sh.bytes.length ≤ _ ∨ _ + sh'.bytes.length ≤ _
    rw [(hwf o (mem_of_getElem? ho)).contents k sh hsh hk,(hwf o' (mem_of_getElem? ho')).contents l sh' hsh' hl]
    change (_ % 2^64) + _ ≤ (_ % 2^64) ∨ (_ % 2^64) + _ ≤ (_ % 2^64)
    rw [Nat.mod_eq_of_lt (by omega),Nat.mod_eq_of_lt (by omega)]
    exact hap
  have hentry : ∀ i o k c, objs[i]? = some o → k ∈ [Kind.text,.rodata,.data] →
      ((o.sec k).bind fun sh =>
        if sh.type = shtNobits then none else some (((layout objs).foff k + (layout objs).offset i k) % 2^64,sh.bytes)) = some c →
      k ≠ .bss ∧ ∃ sh, o.sec k = some sh ∧ c = (((layout objs).foff k + (layout objs).offset i k) % 2^64,sh.bytes) := by
    intro i o k c ho hk hc
    refine ⟨by rintro rfl; simp at hk,?_⟩
    obtain ⟨sh,hsh,hc⟩ := Option.bind_eq_some_iff.mp hc
    split_ifs at hc
    cases hc
    exact ⟨sh,hsh,rfl⟩
  unfold copies
  rw [pairwise_flatMap]
  refine ⟨?_,?_⟩
  · rintro ⟨o,i⟩ hmem
    rw [mem_zipIdx_iff_getElem?] at hmem
    rw [pairwise_filterMap]
    have hkinds : [Kind.text,.rodata,.data].Pairwise (· ≠ ·) := by decide
    refine hkinds.imp_of_mem fun {k l} hk hl hkl c hc c' hc' => ?_
    obtain ⟨hkb,sh,hsh,rfl⟩ := hentry i o k c hmem hk ((by cases o.sec k <;> rfl : _ = _).trans hc)
    obtain ⟨hlb,sh',hsh',rfl⟩ := hentry i o l c' hmem hl ((by cases o.sec l <;> rfl : _ = _).trans hc')
    exact hpair i o k sh i o l sh' hmem hsh hkb hmem hsh' hlb fun h => hkl h.2
  · refine (pairwise_zipIdx objs).imp_of_mem fun {x y} hx hy hlt c hc c' hc' => ?_
    rw [mem_zipIdx_iff_getElem?] at hx hy
    obtain ⟨k,hk,hc⟩ := List.mem_filterMap.mp hc
    obtain ⟨l,hl,hc'⟩ := List.mem_filterMap.mp hc'
    obtain ⟨hkb,sh,hsh,rfl⟩ := hentry x.2 x.1 k c hx hk ((by cases x.1.sec k <;> rfl : _ = _).trans hc)
    obtain ⟨hlb,sh',hsh',rfl⟩ := hentry y.2 y.1 l c' hy hl ((by cases y.1.sec l <;> rfl : _ = _).trans hc')
    exact hpair x.2 x.1 k sh y.2 y.1 l sh' hx hsh hkb hy hsh' hlb fun h => absurd h.1 (Nat.ne_of_lt hlt)

lemma copied (hwf : ∀ o ∈ objs, o.WellFormed) (hsmall : Small objs)
    (h : ((copies (layout objs) objs).map fun c => Patch.const c.1 c.2).foldlM (fun m p => p.apply m) m = some m')
    (ho : objs[i]? = some o) (hsh : o.sec k = some sh) (hk : k ≠ .bss) {x : ℕ} (hx : x < sh.size) :
    m' (fileAddr objs i k + x) = sh.bytes.getD x 0 := by
  have hmem : (fileAddr objs i k,sh.bytes) ∈ copies (layout objs) objs := (mem_copies hwf hsmall).mpr ⟨i,o,k,sh,ho,hsh,hk,rfl⟩
  obtain ⟨bytes,hb,hbytes⟩ := (Patch.foldlM_apply (copies_apart hwf hsmall) h).1 _ (List.mem_map_of_mem hmem)
  cases hb
  refine hbytes x ?_
  change x < sh.bytes.length
  rw [(hwf o (mem_of_getElem? ho)).contents k sh hsh hk]
  exact hx

end VibeOS.Ld

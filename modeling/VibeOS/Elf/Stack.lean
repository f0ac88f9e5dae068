import VibeOS.Elf.Pages
import VibeOS.Elf.Bounds

/-! The arguments on the initial stack of a program, and how they are read back. -/
namespace VibeOS.Elf
open Function List Option Nat
open Storage Memory

variable {argv : List (List UInt8)} {as as' : AddressSpace} {m m' : Pmem} {out out' : UserImage}
  {n k i j va pa off v top top' : ℕ} {page page' c : ℕ → UInt8} {vs : List ℕ} {bs s : List UInt8}

def peekLe (as : AddressSpace) (m : Pmem) (va : ℕ) : ℕ → Option ℕ
  | 0 => some 0
  | n + 1 => do
    let lo ← peek as m va
    let hi ← peekLe as m (va + 1) n
    return lo.toNat + 256*hi

/-- A string up to its NUL, which is one of the next `n` bytes. -/
def peekString (as : AddressSpace) (m : Pmem) : ℕ → ℕ → Option (List UInt8)
  | 0, _ => none
  | n + 1, va => do
    let b ← peek as m va
    if b = 0 then return [] else (peekString as m n (va + 1)).map (b :: ·)

/-- So many strings from a vector that a NULL ends, with an empty environment behind it. -/
def peekArgs (as : AddressSpace) (m : Pmem) : ℕ → ℕ → Option (List (List UInt8))
  | 0, va => if peekLe as m va 8 = some 0 ∧ peekLe as m (va + 8) 8 = some 0 then some [] else none
  | n + 1, va => do
    let p ← peekLe as m va 8
    let s ← peekString as m pageSize p
    (peekArgs as m n (va + 8)).map (s :: ·)

/-- What a program takes for its arguments when it starts with a stack pointer. -/
def peekArgv (as : AddressSpace) (m : Pmem) (sp : ℕ) : Option (List (List UInt8)) := do
  let argc ← peekLe as m sp 8
  peekArgs as m argc (sp + 8)

def leAt (page : ℕ → UInt8) (off : ℕ) : ℕ → ℕ
  | 0 => 0
  | n + 1 => (page off).toNat + 256*leAt page (off + 1) n

lemma leAt_congr (h : ∀ j < n, page (off + j) = page' (off + j)) : leAt page off n = leAt page' off n := by
  induction n generalizing off with
  | zero => rfl
  | succ n ih =>
    have h0 := h 0 (Nat.succ_pos n)
    rw [Nat.add_zero] at h0
    rw [leAt,leAt,h0,ih fun j hj => ?_]
    rw [Nat.add_assoc,Nat.add_comm 1 j]
    exact h (j + 1) (succ_lt_succ hj)

lemma leAt_digits (v c : ℕ) (h : ∀ j < n, page (off + j) = UInt8.ofNat (v/256^(c + j))) :
    leAt page off n = v/256^c % 256^n := by
  induction n generalizing off c with
  | zero => rw [leAt,Nat.pow_zero,mod_one]
  | succ n ih =>
    have h0 := h 0 (Nat.succ_pos n)
    rw [Nat.add_zero,Nat.add_zero] at h0
    have hrest : leAt page (off + 1) n = v/256^(c + 1) % 256^n := ih (c + 1) fun j hj => by
      rw [Nat.add_assoc,Nat.add_assoc,Nat.add_comm 1 j]
      exact h (j + 1) (succ_lt_succ hj)
    rw [leAt,h0,hrest,UInt8.toNat_ofNat',Nat.pow_succ 256 c,← Nat.div_div_eq_div_mul,Nat.pow_succ 256 n,Nat.mul_comm (256^n) 256,
      mod_mul]

lemma writeWord_of_ne (h : i < off ∨ off + 8 ≤ i) : writeWord page off v i = page i := if_neg (by omega)

lemma leAt_writeWord (hv : v < 2^64) : leAt (writeWord page off v) off 8 = v := by
  have h : leAt (writeWord page off v) off 8 = v/256^0 % 256^8 := leAt_digits v 0 fun j hj => by
    rw [writeWord,if_pos (by omega),Nat.add_sub_cancel_left,Nat.zero_add]
  rw [h,Nat.pow_zero,Nat.div_one]
  exact mod_eq_of_lt hv

lemma leAt_writeWord_of_ne (h : i + 8 ≤ off ∨ off + 8 ≤ i) : leAt (writeWord page off v) i 8 = leAt page i 8 :=
  leAt_congr fun j hj => writeWord_of_ne (by omega)

lemma writeWords_of_ne (h : i < off ∨ off + 8*vs.length ≤ i) : writeWords page off vs i = page i := by
  induction vs generalizing page off with
  | nil => rfl
  | cons v vs ih =>
    rw [length_cons] at h
    rw [writeWords,ih (by omega),writeWord_of_ne (by omega)]

lemma leAt_writeWords (hvs : ∀ v ∈ vs, v < 2^64) (hi : i < vs.length) :
    leAt (writeWords page off vs) (off + 8*i) 8 = vs[i] := by
  induction vs generalizing page off i with
  | nil => exact absurd hi (Nat.not_lt_zero i)
  | cons v vs ih =>
    rw [writeWords]
    cases i with
    | zero =>
      have hword : leAt (writeWord page off v) off 8 = v := leAt_writeWord (hvs v mem_cons_self)
      refine Eq.trans (leAt_congr fun j hj => ?_) hword
      exact writeWords_of_ne (by omega)
    | succ i =>
      rw [show off + 8*(i + 1) = off + 8 + 8*i by omega]
      exact ih (fun v hv => hvs v (mem_cons_of_mem _ hv)) (Nat.succ_lt_succ_iff.mp hi)

lemma writeBytes_of_ne (h : i < off ∨ off + bs.length ≤ i) : writeBytes page off bs i = page i := by
  induction bs generalizing page off with
  | nil => rfl
  | cons b bs ih =>
    rw [length_cons] at h
    rw [writeBytes,ih (by omega),update_of_ne (by omega)]

lemma writeBytes_getElem (hi : i < bs.length) : writeBytes page off bs (off + i) = bs[i] := by
  induction bs generalizing page off i with
  | nil => exact absurd hi (Nat.not_lt_zero i)
  | cons b bs ih =>
    rw [writeBytes]
    cases i with
    | zero =>
      rw [writeBytes_of_ne (.inl (by omega)),Nat.add_zero,update_self]
      rfl
    | succ i =>
      rw [show off + (i + 1) = off + 1 + i by omega]
      exact ih (Nat.succ_lt_succ_iff.mp hi)

lemma length_argVas (va : ℕ) (argv : List (List UInt8)) : (argVas va argv).length = argv.length := by
  induction argv generalizing va with
  | nil => rfl
  | cons s argv ih => rw [argVas,length_cons,length_cons,ih]

lemma argVas_bounds (hv : v ∈ argVas off argv) : off ≤ v ∧ v < off + stringsBytes argv := by
  induction argv generalizing off with
  | nil => exact absurd hv not_mem_nil
  | cons s argv ih =>
    have hsum : stringsBytes (s :: argv) = s.length + 1 + stringsBytes argv := rfl
    rcases List.mem_cons.mp hv with rfl | hv
    · omega
    · have := ih hv
      omega

lemma argVas_end (hi : i < argv.length) (hi' : i < (argVas off argv).length) :
    (argVas off argv)[i] + argv[i].length + 1 ≤ off + stringsBytes argv := by
  induction argv generalizing off i with
  | nil => exact absurd hi (Nat.not_lt_zero i)
  | cons s argv ih =>
    have hsum : stringsBytes (s :: argv) = s.length + 1 + stringsBytes argv := rfl
    cases i with
    | zero =>
      change off + s.length + 1 ≤ _
      omega
    | succ i =>
      have := ih (Nat.succ_lt_succ_iff.mp hi) (Nat.succ_lt_succ_iff.mp hi')
      refine this.trans (Nat.le_of_eq ?_)
      omega

lemma argVas_add (va d : ℕ) (argv : List (List UInt8)) : argVas (va + d) argv = (argVas va argv).map (· + d) := by
  induction argv generalizing va with
  | nil => rfl
  | cons s argv ih =>
    rw [argVas,argVas,map_cons,← ih,show va + s.length + 1 + d = va + d + s.length + 1 by omega]

lemma writeStrings_of_lt (h : i < off) : writeStrings page off argv i = page i := by
  induction argv generalizing page off with
  | nil => rfl
  | cons s argv ih => rw [writeStrings,ih (by omega),writeBytes_of_ne (.inl h)]

lemma writeStrings_getElem (hi : i < argv.length) (hi' : i < (argVas off argv).length)
    (hj : j < (argv[i] ++ [0]).length) : writeStrings page off argv ((argVas off argv)[i] + j) = (argv[i] ++ [0])[j] := by
  induction argv generalizing page off i with
  | nil => exact absurd hi (Nat.not_lt_zero i)
  | cons s argv ih =>
    cases i with
    | zero =>
      have hj' : j < (s ++ [0]).length := hj
      change writeStrings (writeBytes page off (s ++ [0])) (off + s.length + 1) argv (off + j) = (s ++ [0])[j]
      rw [writeStrings_of_lt,writeBytes_getElem hj']
      rw [length_append,length_singleton] at hj'
      omega
    | succ i => exact ih (Nat.succ_lt_succ_iff.mp hi) (Nat.succ_lt_succ_iff.mp hi') hj

/-- What the blob has where, if it fits the page. -/
structure Laid (argv : List (List UInt8)) (page : ℕ → UInt8) (off : ℕ) : Prop where
  argc : leAt page off 8 = argv.length
  vector : ∀ i (hi : i < (argVas (userStackTop - stringsBytes argv) argv).length),
    leAt page (off + 8 + 8*i) 8 = (argVas (userStackTop - stringsBytes argv) argv)[i]
  null : leAt page (off + 8 + 8*argv.length) 8 = 0
  env : leAt page (off + 8 + 8*argv.length + 8) 8 = 0
  strings : ∀ i (hi : i < argv.length) (hi' : i < (argVas (pageSize - stringsBytes argv) argv).length) j
    (hj : j < (argv[i] ++ [0]).length), page ((argVas (pageSize - stringsBytes argv) argv)[i] + j) = (argv[i] ++ [0])[j]

lemma stackPage_laid (hfits : Fits argv) : Laid argv (stackPage argv) (pageSize - stackTotal argv) := by
  obtain ⟨hargc,htotal⟩ := hfits
  have hspan : pageSize - stackTotal argv + (8*argv.length + 24) ≤ pageSize - stringsBytes argv := by
    unfold stackTotal vectorBytes pageSize at *
    omega
  have hstrings : stringsBytes argv ≤ userStackTop := by
    unfold stackTotal vectorBytes pageSize at htotal
    unfold userStackTop
    omega
  have hlen : (argVas (userStackTop - stringsBytes argv) argv).length = argv.length := length_argVas _ _
  unfold maxUserArgv at hargc
  unfold stackPage
  dsimp only
  rw [show argv.length*8 = 8*argv.length by omega,show (argv.length + 1)*8 = 8*argv.length + 8 by omega]
  generalize pageSize - stackTotal argv = off at *
  refine ⟨?_,fun i hi => ?_,?_,?_,fun i hi hi' j hj => ?_⟩
  · rw [leAt_writeWord_of_ne (by omega),leAt_writeWord_of_ne (by omega)]
    refine Eq.trans (leAt_congr fun j hj => writeWords_of_ne (by omega)) (leAt_writeWord (by omega))
  · rw [leAt_writeWord_of_ne (by omega),leAt_writeWord_of_ne (by omega)]
    refine leAt_writeWords (fun v hv => ?_) hi
    have hbound := (argVas_bounds hv).2
    have htop : userStackTop < 2^64 := by decide
    omega
  · rw [leAt_writeWord_of_ne (by omega),leAt_writeWord (by decide)]
  · rw [← Nat.add_assoc]
    exact leAt_writeWord (by decide)
  · have hpos := (argVas_bounds (getElem_mem hi')).1
    rw [writeWord_of_ne (by omega),writeWord_of_ne (by omega),writeWords_of_ne (by omega),writeWord_of_ne (by omega)]
    exact writeStrings_getElem hi hi' hj

def topPage : ℕ := userStackTop - pageSize

section Reading
variable (hpage : ∀ va, topPage ≤ va → va < userStackTop → pageAt as m (indexOf va) = some page)
include hpage

lemma peek_top (h : off < pageSize) : peek as m (topPage + off) = some (page off) := by
  have hmod : (topPage + off) % pageSize = off := by
    unfold topPage userStackTop pageSize at *
    omega
  have hrange : userVaBase ≤ topPage + off ∧ topPage + off < userVaEnd := by
    unfold topPage userStackTop userVaBase userVaEnd pageSize at *
    omega
  rw [peek,if_pos hrange,hpage _ (Nat.le_add_right _ _) hrange.2,map_some,hmod]

lemma peekLe_top (h : off + n ≤ pageSize) : peekLe as m (topPage + off) n = some (leAt page off n) := by
  induction n generalizing off with
  | zero => rfl
  | succ n ih =>
    rw [peekLe,peek_top hpage (by omega),Nat.add_assoc,ih (by omega)]
    rfl

end Reading

lemma peekString_eq (hs : 0 ∉ s) (hn : s.length < n)
    (h : ∀ j (hj : j < (s ++ [0]).length), peek as m (va + j) = some (s ++ [0])[j]) : peekString as m n va = some s := by
  induction s generalizing n va with
  | nil =>
    obtain ⟨n,rfl⟩ := exists_eq_succ_of_ne_zero (Nat.ne_of_gt hn)
    have h0 : peek as m va = some 0 := h 0 Nat.zero_lt_one
    rw [peekString,h0]
    rfl
  | cons b s ih =>
    obtain ⟨n,rfl⟩ := exists_eq_succ_of_ne_zero (Nat.ne_of_gt (Nat.lt_of_le_of_lt (Nat.zero_le _) hn))
    rw [mem_cons,not_or] at hs
    have h0 : peek as m va = some b := h 0 (Nat.succ_pos _)
    have hrest : peekString as m n (va + 1) = some s := ih hs.2 (Nat.succ_lt_succ_iff.mp hn) fun j hj => by
      rw [Nat.add_assoc,Nat.add_comm 1 j]
      exact h (j + 1) (succ_lt_succ hj)
    rw [peekString,h0]
    change (if b = 0 then some [] else (peekString as m n (va + 1)).map (b :: ·)) = _
    rw [if_neg (Ne.symm hs.1),hrest]
    rfl

lemma peekArgs_eq (h : ∀ i (hi : i < argv.length), ∃ p, peekLe as m (va + 8*i) 8 = some p ∧
      peekString as m pageSize p = some argv[i])
    (hnull : peekLe as m (va + 8*argv.length) 8 = some 0) (henv : peekLe as m (va + 8*argv.length + 8) 8 = some 0) :
    peekArgs as m argv.length va = some argv := by
  induction argv generalizing va with
  | nil => exact if_pos ⟨hnull,henv⟩
  | cons s argv ih =>
    obtain ⟨p,hp,hs⟩ := h 0 (Nat.succ_pos _)
    have hnext : ∀ i, va + 8 + 8*i = va + 8*(i + 1) := fun i => by omega
    have hrest : peekArgs as m argv.length (va + 8) = some argv := by
      refine ih (fun i hi => ?_) ?_ ?_
      · rw [hnext]
        exact h (i + 1) (succ_lt_succ hi)
      · rw [hnext]
        exact hnull
      · rw [hnext]
        exact henv
    rw [length_cons,peekArgs]
    rw [Nat.mul_zero,Nat.add_zero] at hp
    rw [hp]
    change (do
      let s ← peekString as m pageSize p
      (peekArgs as m argv.length (va + 8)).map (s :: ·)) = _
    rw [hs,hrest]
    rfl

lemma length_lt_stringsBytes (hs : s ∈ argv) : s.length < stringsBytes argv := by
  induction argv with
  | nil => exact absurd hs not_mem_nil
  | cons t argv ih =>
    have hsum : stringsBytes (t :: argv) = t.length + 1 + stringsBytes argv := rfl
    rcases List.mem_cons.mp hs with rfl | hs
    · omega
    · have := ih hs
      omega

lemma peekArgv_eq (hfits : Fits argv) (hnul : ∀ s ∈ argv, 0 ∉ s)
    (hpage : ∀ va, topPage ≤ va → va < userStackTop → pageAt as m (indexOf va) = some (stackPage argv)) :
    peekArgv as m (userStackTop - stackTotal argv) = some argv := by
  have hlaid := stackPage_laid hfits
  have hspan : pageSize - stackTotal argv + (8*argv.length + 24) + stringsBytes argv ≤ pageSize ∧
      stackTotal argv ≤ pageSize := by
    have := hfits.2
    unfold stackTotal vectorBytes pageSize at *
    omega
  have hsp : userStackTop - stackTotal argv = topPage + (pageSize - stackTotal argv) := by
    have hle : pageSize ≤ userStackTop := by decide
    unfold topPage
    omega
  rw [hsp]
  generalize pageSize - stackTotal argv = off at *
  rw [peekArgv,peekLe_top hpage (by omega),hlaid.argc]
  change peekArgs as m argv.length (topPage + off + 8) = _
  refine peekArgs_eq (fun i hi => ?_) ?_ ?_
  · have hi₁ : i < (argVas (userStackTop - stringsBytes argv) argv).length := by rw [length_argVas]; exact hi
    have hi₂ : i < (argVas (pageSize - stringsBytes argv) argv).length := by rw [length_argVas]; exact hi
    have hword := hlaid.vector i hi₁
    refine ⟨(argVas (userStackTop - stringsBytes argv) argv)[i],?_,?_⟩
    · rw [show topPage + off + 8 + 8*i = topPage + (off + 8 + 8*i) by omega,peekLe_top hpage (by omega),hword]
    · have hva : userStackTop - stringsBytes argv = pageSize - stringsBytes argv + topPage := by
        have hle : pageSize ≤ userStackTop := by decide
        unfold topPage
        omega
      have hget : (argVas (userStackTop - stringsBytes argv) argv)[i] =
          topPage + (argVas (pageSize - stringsBytes argv) argv)[i] := by
        simp only [hva,argVas_add,getElem_map,Nat.add_comm topPage]
      have hmem : argv[i] ∈ argv := getElem_mem hi
      have hlen := length_lt_stringsBytes hmem
      rw [hget]
      refine peekString_eq (hnul _ hmem) (by omega) fun j hj => ?_
      have hend := argVas_end hi hi₂
      rw [length_append,length_singleton] at hj
      rw [Nat.add_assoc,peek_top hpage (by omega),hlaid.strings i hi hi₂ j]
  · rw [show topPage + off + 8 + 8*argv.length = topPage + (off + 8 + 8*argv.length) by omega,peekLe_top hpage (by omega),
      hlaid.null]
  · rw [show topPage + off + 8 + 8*argv.length + 8 = topPage + (off + 8 + 8*argv.length + 8) by omega,
      peekLe_top hpage (by omega),hlaid.env]

lemma mapStack_pages (h : Tidy as m) (hn : k + n = userStackPages)
    (now : mapStack n k top as m = (true,top',as',m')) : Tidy as' m' ∧
      (∀ va, userVaBase ≤ va → va < userStackBot + k*pageSize → pageAt as' m' (indexOf va) = pageAt as m (indexOf va)) ∧
      (0 < n → (pageAt as' m' (indexOf topPage)).isSome = true ∧ (as'.entry (indexOf topPage)).pa = top') := by
  induction n generalizing k top as m with
  | zero =>
    cases now
    exact ⟨h,fun _ _ _ => rfl,fun h => absurd h (Nat.lt_irrefl 0)⟩
  | succ n ih =>
    rw [mapStack] at now
    cases halloc : m.allocPage with
    | mk pa m₁ =>
      rw [halloc] at now
      dsimp only at now
      by_cases hpa : pa = 0
      · rw [if_pos hpa] at now
        cases now
      rw [if_neg hpa] at now
      obtain ⟨rest,hf,hfree,hbytes⟩ := allocPage_of_ne halloc hpa
      cases hmap : as.map (userStackBot + k*pageSize) pa 1 true false m₁ with
      | mk ok r =>
        obtain ⟨as₂,m₂⟩ := r
        rw [hmap] at now
        cases ok with
        | false => cases now
        | true =>
          dsimp only at now
          have hva : (userStackBot + k*pageSize) % pageSize = 0 := by
            unfold userStackBot userStackTop userStackPages pageSize
            omega
          have hrange : userVaBase ≤ userStackBot + k*pageSize ∧ userStackBot + k*pageSize < userVaEnd := by
            unfold userStackPages at hn
            unfold userStackBot userStackTop userStackPages userVaBase userVaEnd pageSize
            omega
          have hnext : (k + 1)*pageSize = k*pageSize + pageSize := Nat.succ_mul _ _
          obtain ⟨htidy,hpages,hentry⟩ := h.mapPage hf hva hfree hbytes hmap
          obtain ⟨htidy',hbelow,htop⟩ := ih htidy (by omega) now
          refine ⟨htidy',fun va hlo hhi => ?_,fun _ => ?_⟩
          · rw [hbelow va hlo (by omega),hpages,if_neg]
            intro heq
            have := indexOf_inj ⟨hlo,hhi.trans hrange.2⟩ hrange heq
            unfold pageSize at *
            omega
          · rcases Nat.eq_zero_or_pos n with rfl | hpos
            · cases now
              have hlast : userStackBot + k*pageSize = topPage := by
                rw [show k = userStackPages - 1 by omega]
                decide
              rw [← hlast,hpages,if_pos rfl]
              exact ⟨rfl,hentry⟩
            · exact htop hpos

lemma Tidy.guard (h : Tidy as m) {g : Index} (now : as.installGuard g m = some (as',m')) :
    Tidy as' m' ∧ ∀ j, j ≠ g → as'.entry j = as.entry j ∧ pageAt as' m' j = pageAt as m j := by
  unfold AddressSpace.installGuard at now
  cases hl : as.l3For g.1 m with
  | none =>
    rw [hl] at now
    cases now
  | some r =>
    obtain ⟨as₁,m₁⟩ := r
    rw [hl] at now
    cases now
    obtain ⟨hentry,htable,hm⟩ := l3For_spec hl
    have hset : ∀ j, (as₁.setEntry g { Desc.zero with guard := true }).entry j =
        if j = g then { Desc.zero with guard := true } else as.entry j := fun j => by
      rw [← hentry]
      exact entry_setEntry htable j
    have hold : ∀ j, ((as₁.setEntry g { Desc.zero with guard := true }).entry j).valid = true →
        (as₁.setEntry g { Desc.zero with guard := true }).entry j = as.entry j := fun j hj => by
      rw [hset] at hj ⊢
      split_ifs at hj with hg
      · cases hj
      · exact if_neg hg
    have hsub : ∀ q ∈ m'.free, q ∈ m.free := fun q hq => by
      rcases hm with rfl | ⟨q',hq',-⟩
      · exact hq
      · rw [hq']
        exact mem_cons_of_mem _ hq
    have hnodup : m'.free.Nodup := by
      rcases hm with rfl | ⟨q',hq',-⟩
      · exact h.nodup
      · have hn := h.nodup
        rw [hq',nodup_cons] at hn
        exact hn.2
    have hsame : ∀ q, q ∉ m.free → m'.bytes q = m.bytes q := fun q hq => by
      rcases hm with rfl | ⟨q',hq',hb⟩
      · rfl
      · rw [hb,update_of_ne]
        rintro rfl
        exact hq (by rw [hq']; exact mem_cons_self)
    refine ⟨⟨hnodup,fun q hq => h.usable q (hsub q hq),fun j hj hmem => ?_,fun j j' hj hj' heq => ?_⟩,fun j hj => ?_⟩
    · have hj₀ := hold j hj
      rw [hj₀] at hj hmem
      exact h.apart j hj (hsub _ hmem)
    · have hj₀ := hold j hj
      have hj₁ := hold j' hj'
      rw [hj₀] at hj heq
      rw [hj₁] at hj' heq
      exact h.single j j' hj hj' heq
    · have hj' := (hset j).trans (if_neg hj)
      refine ⟨hj',?_⟩
      unfold pageAt
      rw [hj']
      split_ifs with hvalid
      · rw [hsame _ (h.apart j hvalid)]
      · rfl

lemma Tidy.fill (h : Tidy as m) {i : Index} (hi : (pageAt as m i).isSome = true) (hpa : (as.entry i).pa = pa) (j : Index) :
    pageAt as { m with bytes := update m.bytes pa c } j = if j = i then some c else pageAt as m j := by
  have hvalid : (as.entry i).valid = true := by
    unfold pageAt at hi
    split_ifs at hi with hv
    · exact hv
    · cases hi
  unfold pageAt
  rcases eq_or_ne j i with rfl | hne
  · rw [if_pos rfl,if_pos hvalid,hpa]
    exact congrArg some (update_self _ _ _)
  · rw [if_neg hne]
    split_ifs with hj
    · refine congrArg some (update_of_ne ?_ _ _)
      rw [← hpa]
      exact fun heq => hne (h.single j i hj hvalid heq)
    · rfl

lemma finishImage_pages (h : Tidy as m) {entry : ℕ} (now : finishImage entry argv as m out = (true,out',as',m')) :
    Fits argv ∧ out'.stackTopVa = userStackTop - stackTotal argv ∧
      (∀ va, userVaBase ≤ va → va < userStackGuardVa → pageAt as' m' (indexOf va) = pageAt as m (indexOf va)) ∧
      ∀ va, topPage ≤ va → va < userStackTop → pageAt as' m' (indexOf va) = some (stackPage argv) := by
  unfold finishImage at now
  dsimp only at now
  cases hstack : mapStack userStackPages 0 0 as m with
  | mk ok r =>
    obtain ⟨top,as₁,m₁⟩ := r
    rw [hstack] at now
    cases ok with
    | false => cases now
    | true =>
      dsimp only at now
      obtain ⟨htidy,hbelow,htop⟩ := mapStack_pages h (Nat.zero_add _) hstack
      obtain ⟨hthere,hpa⟩ := htop (by decide)
      cases hguard : as₁.installGuard (indexOf userStackGuardVa) m₁ with
      | none =>
        rw [hguard] at now
        cases now
      | some r =>
        obtain ⟨as₂,m₂⟩ := r
        rw [hguard] at now
        dsimp only at now
        obtain ⟨htidy₂,hkeep⟩ := htidy.guard hguard
        have htopne : indexOf topPage ≠ indexOf userStackGuardVa := by decide
        obtain ⟨hentry,hpage⟩ := hkeep _ htopne
        unfold buildUserInitStack at now
        split_ifs at now with hbad
        · cases now
        · cases now
          have hpa' : (as'.entry (indexOf topPage)).pa = top := by rw [hentry,hpa]
          have hfill := htidy₂.fill (c := stackPage argv) (by rw [hpage]; exact hthere) hpa'
          refine ⟨⟨by omega,by omega⟩,rfl,fun va hlo hhi => ?_,fun va hlo hhi => ?_⟩
          · have hrange : userVaBase ≤ va ∧ va < userVaEnd := ⟨hlo,hhi.trans (by decide)⟩
            have hne : indexOf va ≠ indexOf userStackGuardVa := by
              intro heq
              have := indexOf_inj hrange (by decide) heq
              unfold userStackGuardVa userStackTop userStackPages pageSize at *
              omega
            have hne' : indexOf va ≠ indexOf topPage := by
              intro heq
              have := indexOf_inj hrange (by decide) heq
              unfold userStackGuardVa topPage userStackTop userStackPages pageSize at *
              omega
            rw [hfill,if_neg hne',(hkeep _ hne).2]
            refine hbelow va hlo (hhi.trans ?_)
            decide
          · rw [hfill,if_pos]
            have hdiv : va/pageSize = topPage/pageSize := by
              unfold topPage userStackTop pageSize at *
              omega
            unfold indexOf
            unfold pageSize at hdiv
            rw [show va/2^21 = topPage/2^21 by omega,show va/2^12 = topPage/2^12 from hdiv]

end VibeOS.Elf

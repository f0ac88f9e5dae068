import VibeOS.Osfs2.BlockTree

/-! What `osfs2_truncate` does to a volume: the pointers from the first block that is not kept
on are cleared and their blocks given back, and the indirect block too once it has no entry. -/
namespace VibeOS.Osfs2
open Function List
open VibeOS.Storage

def Vol.giveAll (v : Vol) (l : List UInt32) : Vol := l.foldl Vol.give v

section GiveAll
variable (v : Vol) (l l' : List UInt32)

lemma Vol.giveAll_append : v.giveAll (l ++ l') = (v.giveAll l).giveAll l' := foldl_append ..

@[simp] lemma Vol.giveAll_inode : (v.giveAll l).inode = v.inode := by
  induction l generalizing v with
  | nil => rfl
  | cons b l ih => exact ih (v.give b)

@[simp] lemma Vol.giveAll_data : (v.giveAll l).data = v.data := by
  induction l generalizing v with
  | nil => rfl
  | cons b l ih => exact ih (v.give b)

@[simp] lemma Vol.giveAll_live : (v.giveAll l).live = v.live := by
  induction l generalizing v with
  | nil => rfl
  | cons b l ih => exact ih (v.give b)

lemma Vol.giveAll_used (b : UInt32) : (v.giveAll l).used b = if b ∈ l then false else v.used b := by
  induction l generalizing v with
  | nil => rfl
  | cons c l ih =>
    refine (ih (v.give c)).trans ?_
    by_cases hbc : b = c
    · subst hbc; simp
    · simp [hbc]

end GiveAll

def keptBlocks (size : UInt32) : ℕ :=
  if size = 0 then 0 else (size.toNat + blockSize - 1) / blockSize

/-- A record that `osfs2_truncate` accepts. -/
def Vol.Cuttable (v : Vol) (i : UInt32) : Prop :=
  validInode i ∧ ((v.inode i).type = typeFile ∨ (v.inode i).type = typeDir)

def cutDirect (kept : ℕ) (x : Inode) (is : List (Fin 16)) : List UInt32 :=
  (is.filter fun n => kept ≤ n.val ∧ x.direct n ≠ 0).map x.direct

def keepDirect (kept : ℕ) (x : Inode) (is : List (Fin 16)) : Inode :=
  { x with direct := fun n => if n ∈ is ∧ kept ≤ n.val then 0 else x.direct n }

/-- The blocks behind the indirect table that are freed, looking at the given entries. -/
def cutEntries (kept : ℕ) (t : Block) (js : List ℕ) : List UInt32 :=
  (js.filter fun j => kept ≤ directPtrs + j ∧ tableAt t j ≠ 0).map (tableAt t)

def keepEntries (kept : ℕ) (t : Block) (js : List ℕ) : Block :=
  js.foldl (fun t j => if kept ≤ directPtrs + j ∧ tableAt t j ≠ 0 then tableSet t j 0 else t) t

def anyKept (kept : ℕ) (t : Block) (js : List ℕ) : Bool :=
  js.any fun j => !(decide (kept ≤ directPtrs + j)) && tableAt t j != 0

lemma mem_cutDirect {kept : ℕ} {x : Inode} {is : List (Fin 16)} {b : UInt32} :
    b ∈ cutDirect kept x is ↔ ∃ n ∈ is, kept ≤ n.val ∧ x.direct n ≠ 0 ∧ x.direct n = b := by
  simp only [cutDirect,List.mem_map,mem_filter,decide_eq_true_eq,and_assoc]

lemma mem_cutEntries {kept : ℕ} {t : Block} {js : List ℕ} {b : UInt32} :
    b ∈ cutEntries kept t js ↔ ∃ j ∈ js, kept ≤ 16 + j ∧ tableAt t j ≠ 0 ∧ tableAt t j = b := by
  simp only [cutEntries,List.mem_map,mem_filter,decide_eq_true_eq,and_assoc]
  rfl

lemma tableAt_keepEntries (kept : ℕ) (t : Block) (js : List ℕ) (hjs : ∀ j ∈ js, j < 1024) (k : ℕ) :
    tableAt (keepEntries kept t js) k = if k ∈ js ∧ kept ≤ 16 + k then 0 else tableAt t k := by
  induction js generalizing t with
  | nil => simp [keepEntries]
  | cons j js ih =>
    have hjs' : ∀ j ∈ js, j < 1024 := fun j hj => hjs j (by simp [hj])
    have hstep : keepEntries kept t (j :: js) = keepEntries kept
      (if kept ≤ directPtrs + j ∧ tableAt t j ≠ 0 then tableSet t j 0 else t) js := rfl
    rw [hstep,ih _ hjs']
    by_cases hkj : k = j
    · subst hkj
      by_cases hcut : kept ≤ directPtrs + k ∧ tableAt t k ≠ 0
      · have hc : kept ≤ 16 + k := hcut.1
        simp [hcut,hc,tableAt_tableSet_self _ (hjs k (by simp))]
      · rw [if_neg hcut]
        by_cases hc : kept ≤ 16 + k
        · have h0 : tableAt t k = 0 := by
            by_contra hne
            exact hcut ⟨hc,hne⟩
          simp [hc,h0]
        · simp [hc]
    · have hsame : tableAt (if kept ≤ directPtrs + j ∧ tableAt t j ≠ 0 then tableSet t j 0 else t) k =
          tableAt t k := by
        split_ifs
        · exact tableAt_tableSet_of_ne _ _ (Ne.symm hkj)
        · rfl
      simp [hsame,hkj]

lemma keepEntries_of_nil {kept : ℕ} {t : Block} {js : List ℕ} (h : cutEntries kept t js = []) :
    keepEntries kept t js = t := by
  unfold cutEntries at h
  rw [map_eq_nil_iff,filter_eq_nil_iff] at h
  induction js with
  | nil => rfl
  | cons j js ih =>
    have hj : ¬ (kept ≤ directPtrs + j ∧ tableAt t j ≠ 0) := by
      simpa only [decide_eq_true_eq] using h j mem_cons_self
    unfold keepEntries at ih ⊢
    rw [foldl_cons,if_neg hj]
    exact ih fun k hk => h k (mem_cons_of_mem _ hk)

/-- The volume after `osfs2_truncate` of inode `i`, whose record was `x`. -/
def Vol.truncated (v : Vol) (i : UInt32) (x : Inode) (kept : ℕ) (size : UInt32) : Vol :=
  let is := finRange 16
  let js := List.range indirectPtrs
  let t := v.data x.indirect
  let y := keepDirect kept x is
  if x.indirect = 0 then (v.giveAll (cutDirect kept x is)).setInode i { y with size := size }
  else if anyKept kept t js then
    ((v.giveAll (cutDirect kept x is ++ cutEntries kept t js)).setData x.indirect
      (keepEntries kept t js)).setInode i { y with size := size }
  else (v.giveAll (cutDirect kept x is ++ cutEntries kept t js ++ [x.indirect])).setInode i
    { y with indirect := 0, size := size }

variable {v : Vol} {x : Inode} {i : UInt32}

namespace Does

lemma truncateDirect {Q : Inode → Vol → Prop} (kept : ℕ) (is : List (Fin 16)) (hn : is.Nodup)
    (hd : ∀ n, x.direct n ≠ 0 → dataBlock (x.direct n))
    (h : Q (keepDirect kept x is) (v.giveAll (cutDirect kept x is))) :
    Does (truncateDirect kept is x) v Q := by
  induction is generalizing v x with
  | nil =>
    refine pure ?_
    have hx : keepDirect kept x [] = x := by simp [keepDirect]
    rwa [hx] at h
  | cons n is ih =>
    rw [nodup_cons] at hn
    unfold VibeOS.Osfs2.truncateDirect
    by_cases hcut : n.val ≥ kept ∧ x.direct n ≠ 0
    · rw [if_pos hcut]
      refine bind (freeBlock (hd n hcut.2) (ih hn.2 ?_ ?_))
      · intro m hm
        by_cases hmn : m = n
        · subst hmn; simp at hm
        · simp only [update_of_ne hmn] at hm ⊢
          exact hd m hm
      · have hk : keepDirect kept { x with direct := update x.direct n 0 } is =
            keepDirect kept x (n :: is) := by
          unfold keepDirect
          congr 1
          funext m
          by_cases hmn : m = n
          · subst hmn
            simp [hcut.1]
          · simp [hmn]
        have hc : cutDirect kept { x with direct := update x.direct n 0 } is =
            cutDirect kept x is := by
          unfold cutDirect
          have hne : ∀ m ∈ is, m ≠ n := fun m hm he => hn.1 (he ▸ hm)
          rw [filter_congr (q := fun m => decide (kept ≤ m.val ∧ x.direct m ≠ 0))
            fun m hm => by simp [hne m hm]]
          refine map_congr_left fun m hm => ?_
          exact update_of_ne (hne m (mem_of_mem_filter hm)) _ _
        rw [hk,hc]
        have hl : cutDirect kept x (n :: is) = x.direct n :: cutDirect kept x is := by
          unfold cutDirect
          rw [filter_cons_of_pos (by simpa using hcut),map_cons]
        rwa [hl] at h
    · rw [if_neg hcut]
      refine ih hn.2 hd ?_
      have hk : keepDirect kept x is = keepDirect kept x (n :: is) := by
        unfold keepDirect
        congr 1
        funext m
        by_cases hmn : m = n
        · subst hmn
          by_cases hk : kept ≤ m.val
          · have h0 : x.direct m = 0 := by
              by_contra hne
              exact hcut ⟨hk,hne⟩
            simp [h0]
          · simp [hk]
        · simp [hmn]
      have hc : cutDirect kept x (n :: is) = cutDirect kept x is := by
        unfold cutDirect
        rw [filter_cons_of_neg (by simpa using hcut)]
      rwa [hc,← hk] at h

lemma truncateTable {Q : Block × Bool × Bool → Vol → Prop} (kept : ℕ) (js : List ℕ) (hn : js.Nodup)
    {t : Block} (hjs : ∀ j ∈ js, j < 1024) (hd : ∀ j ∈ js, tableAt t j ≠ 0 → dataBlock (tableAt t j))
    (dirty any : Bool) (h : Q (keepEntries kept t js,dirty || !(cutEntries kept t js).isEmpty,
      any || anyKept kept t js) (v.giveAll (cutEntries kept t js))) :
    Does (truncateTable kept js t dirty any) v Q := by
  induction js generalizing v t dirty any with
  | nil =>
    have hv : v.giveAll [] = v := rfl
    refine pure ?_
    simpa [keepEntries,cutEntries,anyKept,hv] using h
  | cons j js ih =>
    rw [nodup_cons] at hn
    have hjs' : ∀ k ∈ js, k < 1024 := fun k hk => hjs k (by simp [hk])
    have hd' : ∀ k ∈ js, tableAt t k ≠ 0 → dataBlock (tableAt t k) := fun k hk => hd k (by simp [hk])
    unfold VibeOS.Osfs2.truncateTable
    by_cases hcut : directPtrs + j ≥ kept ∧ tableAt t j ≠ 0
    · rw [if_pos hcut]
      have hne : ∀ k ∈ js, j ≠ k := fun k hk he => hn.1 (he ▸ hk)
      have hsame : ∀ k ∈ js, tableAt (tableSet t j 0) k = tableAt t k :=
        fun k hk => tableAt_tableSet_of_ne _ _ (hne k hk)
      have hcut' : kept ≤ directPtrs + j ∧ tableAt t j ≠ 0 := hcut
      refine bind (freeBlock (hd j (by simp) hcut.2) (ih hn.2 hjs' ?_ _ _ ?_))
      · intro k hk
        rw [hsame k hk]
        exact hd' k hk
      · have hk : keepEntries kept (tableSet t j 0) js = keepEntries kept t (j :: js) := by
          unfold keepEntries
          rw [foldl_cons,if_pos hcut']
        have hc : cutEntries kept (tableSet t j 0) js = cutEntries kept t js := by
          unfold cutEntries
          rw [filter_congr (q := fun k => decide (kept ≤ directPtrs + k ∧ tableAt t k ≠ 0))
            fun k hk => by simp [hsame k hk]]
          exact map_congr_left fun k hk => hsame k (mem_of_mem_filter hk)
        have ha : anyKept kept (tableSet t j 0) js = anyKept kept t (j :: js) := by
          unfold anyKept
          rw [any_cons]
          have hj : decide (kept ≤ directPtrs + j) = true := by simpa using hcut.1
          rw [hj,Bool.not_true,Bool.false_and,Bool.false_or]
          rw [Bool.eq_iff_iff,List.any_eq_true,List.any_eq_true]
          exact exists_congr fun k => and_congr_right fun hk => by rw [hsame k hk]
        have hl : cutEntries kept t (j :: js) = tableAt t j :: cutEntries kept t js := by
          unfold cutEntries
          rw [filter_cons_of_pos (by simpa using hcut'),map_cons]
        have hv : v.giveAll (tableAt t j :: cutEntries kept t js) =
            (v.give (tableAt t j)).giveAll (cutEntries kept t js) := rfl
        rw [hk,hc,ha,← hv]
        rw [hl] at h
        simpa using h
    · rw [if_neg hcut]
      have hcut' : ¬ (kept ≤ directPtrs + j ∧ tableAt t j ≠ 0) := hcut
      have hk : keepEntries kept t (j :: js) = keepEntries kept t js := by
        unfold keepEntries
        rw [foldl_cons,if_neg hcut']
      have hc : cutEntries kept t (j :: js) = cutEntries kept t js := by
        unfold cutEntries
        rw [filter_cons_of_neg (by simpa using hcut')]
      rw [hk,hc] at h
      by_cases h0 : tableAt t j = 0
      · rw [if_neg (not_not.mpr h0)]
        refine ih hn.2 hjs' hd' _ _ ?_
        have ha : anyKept kept t (j :: js) = anyKept kept t js := by
          unfold anyKept
          rw [any_cons,h0]
          simp
        rwa [ha] at h
      · rw [if_pos h0]
        refine ih hn.2 hjs' hd' _ _ ?_
        have hj : ¬ kept ≤ directPtrs + j := fun hle => hcut ⟨hle,h0⟩
        have ha : anyKept kept t (j :: js) = true := by
          unfold anyKept
          rw [any_cons]
          simp [hj,h0]
        rw [ha] at h
        simpa using h

lemma truncateIndirect {Q : Option Inode → Vol → Prop} (kept : ℕ)
    (hd : x.indirect ≠ 0 → dataBlock x.indirect)
    (he : x.indirect ≠ 0 → ∀ j < 1024, tableAt (v.data x.indirect) j ≠ 0 →
      dataBlock (tableAt (v.data x.indirect) j))
    (hnone : x.indirect = 0 → Q (some x) v)
    (hkeep : x.indirect ≠ 0 → anyKept kept (v.data x.indirect) (List.range indirectPtrs) = true →
      Q (some x) ((v.giveAll (cutEntries kept (v.data x.indirect) (List.range indirectPtrs))).setData
        x.indirect (keepEntries kept (v.data x.indirect) (List.range indirectPtrs))))
    (hgo : x.indirect ≠ 0 → anyKept kept (v.data x.indirect) (List.range indirectPtrs) = false →
      Q (some { x with indirect := 0 })
        (v.giveAll (cutEntries kept (v.data x.indirect) (List.range indirectPtrs) ++ [x.indirect]))) :
    Does (truncateIndirect kept x) v Q := by
  unfold VibeOS.Osfs2.truncateIndirect
  by_cases h0 : x.indirect = 0
  · rw [if_pos h0]
    exact pure (hnone h0)
  rw [if_neg h0]
  refine bind (readBlock (hd h0) ?_)
  dsimp only
  generalize hjs : List.range indirectPtrs = js at hkeep hgo ⊢
  have hmem : ∀ j ∈ js, j < 1024 := fun j hj => by
    rw [← hjs,mem_range] at hj
    exact hj
  refine bind (truncateTable kept js (hjs ▸ nodup_range) hmem (fun j hj => he h0 j (hmem j hj))
    false false ?_)
  simp only [Bool.false_or]
  cases ha : anyKept kept (v.data x.indirect) js with
  | false =>
    rw [if_pos (by decide)]
    refine bind (freeBlock (hd h0) (pure ?_))
    have hg := hgo h0 ha
    rwa [Vol.giveAll_append] at hg
  | true =>
    rw [if_neg (by decide)]
    have hk := hkeep h0 ha
    cases hc : (cutEntries kept (v.data x.indirect) js).isEmpty with
    | false =>
      rw [if_pos (by decide)]
      refine bind (writeBlock (hd h0) ?_)
      rw [if_pos rfl]
      exact pure hk
    | true =>
      rw [if_neg (by decide)]
      -- nothing was cleared, so the table in memory is still the one on disk
      have hnil := List.isEmpty_iff.mp hc
      rw [keepEntries_of_nil hnil,hnil] at hk
      have hv : (v.giveAll []).setData x.indirect (v.data x.indirect) = v := by
        unfold Vol.setData
        change { v with data := update v.data x.indirect (v.data x.indirect) } = v
        rw [update_eq_self]
      rw [hv] at hk
      rw [hnil]
      exact pure hk

lemma osfs2Truncate {Q : ℤ → Vol → Prop} {size : UInt32} (ho : v.Owned)
    (hbad : ¬ (v.Cuttable i ∧ size.toNat ≤ maxFileBytes) → Q (-1) v)
    (hok : v.Cuttable i → size.toNat ≤ maxFileBytes →
      Q 0 (v.truncated i (v.inode i) (keptBlocks size) size)) :
    Does (osfs2Truncate i size) v Q := by
  have hself : v.OwnedWith i (v.inode i) := by
    unfold Vol.OwnedWith Vol.setInode
    rwa [update_eq_self]
  refine get fun s hs _ _ _ => ?_
  rw [hs,if_neg (by decide)]
  refine bind (readInode (fun hi => pure (hbad fun h => hi h.1.1)) fun hi => ?_)
  dsimp only
  by_cases hty : (v.inode i).type ≠ typeFile ∧ (v.inode i).type ≠ typeDir
  · rw [if_pos hty]
    exact pure (hbad fun h => h.1.2.elim hty.1 hty.2)
  by_cases hsz : size.toNat > maxFileBytes
  · rw [if_neg hty,if_pos hsz]
    exact pure (hbad fun h => absurd h.2 (by omega))
  rw [if_neg hty,if_neg hsz]
  have hres := hok ⟨hi,by tauto⟩ (by omega)
  rw [show (if size = 0 then 0 else (size.toNat + blockSize - 1)/blockSize) = keptBlocks size from rfl]
  generalize keptBlocks size = kept at hres ⊢
  generalize hx : v.inode i = x at hself hres ⊢
  unfold Vol.truncated at hres
  have hdir (n : Fin 16) (h0 : x.direct n ≠ 0) : dataBlock (x.direct n) := by
    have hp := hself.held (p := .lbn n.val) (by rwa [Vol.pointer_lbn,Vol.ptr_direct])
    rw [Vol.pointer_lbn,Vol.ptr_direct] at hp
    exact hp.1
  refine bind (truncateDirect kept _ (nodup_finRange 16) hdir ?_)
  have hent (h0 : x.indirect ≠ 0) (j : ℕ) (hj : j < 1024) (hne : tableAt (v.data x.indirect) j ≠ 0) :
      dataBlock (tableAt (v.data x.indirect) j) := by
    have hptr : v.ptr x (16+j) = tableAt (v.data x.indirect) j := by
      rw [Vol.ptr_entry _ _ hj,Vol.entry,if_neg h0]
    have hp := hself.held (p := .lbn (16+j)) (by rwa [Vol.pointer_lbn,hptr])
    rw [Vol.pointer_lbn,hptr] at hp
    exact hp.1
  have hwrite {y : Inode} {w : Vol} (h : Q 0 (w.setInode i { y with size := size })) :
      Does (do if ← VibeOS.Osfs2.writeInode i { y with size := size } then return (0 : ℤ) else return -1)
        w Q := by
    refine bind (writeInode hi ?_)
    exact pure h
  refine bind (truncateIndirect kept (fun h0 => hself.indirect h0) ?_ ?_ ?_ ?_)
  · intro h0 j hj hne
    rw [Vol.giveAll_data] at hne ⊢
    exact hent h0 j hj hne
  · intro h0
    rw [if_pos (show x.indirect = 0 from h0)] at hres
    exact hwrite hres
  · intro h0 ha
    rw [Vol.giveAll_data] at ha
    have ha : anyKept kept (v.data x.indirect) (List.range indirectPtrs) = true := ha
    rw [if_neg (show ¬ x.indirect = 0 from h0),if_pos ha,Vol.giveAll_append] at hres
    rw [Vol.giveAll_data]
    exact hwrite hres
  · intro h0 ha
    rw [Vol.giveAll_data] at ha
    have ha : anyKept kept (v.data x.indirect) (List.range indirectPtrs) = false := ha
    rw [if_neg (show ¬ x.indirect = 0 from h0),if_neg (by rw [ha]; decide),append_assoc,
      Vol.giveAll_append] at hres
    rw [Vol.giveAll_data]
    exact hwrite hres

end Does

lemma anyKept_eq_false {kept : ℕ} {t : Block} (h : anyKept kept t (List.range indirectPtrs) = false)
    {j : ℕ} (hj : j < 1024) (hk : ¬ kept ≤ 16 + j) : tableAt t j = 0 := by
  unfold anyKept at h
  have hnot := List.any_eq_false.mp h j (List.mem_range.mpr hj)
  have hk' : decide (kept ≤ directPtrs + j) = false := decide_eq_false hk
  simpa [hk'] using hnot

lemma keepDirect_direct (kept : ℕ) (x : Inode) (n : Fin 16) :
    (keepDirect kept x (finRange 16)).direct n = if kept ≤ n.val then 0 else x.direct n := by
  simp [keepDirect,mem_finRange]

/-- What a volume `w` looks like after a truncation of inode `i` on `v` that keeps the first
`kept` blocks: the positions cut are 0, their blocks are free, and nothing else is touched. -/
structure Cut (v : Vol) (i : UInt32) (kept : ℕ) (size : UInt32) (w : Vol) : Prop where
  record : ∃ dir ind, w.inode =
    update v.inode i { v.inode i with direct := dir, indirect := ind, size := size }
  live : w.live = v.live
  data : ∀ b, b ≠ (v.inode i).indirect → w.data b = v.data b
  lbn : ∀ n, w.own (i,.lbn n) = if kept ≤ n then 0 else v.own (i,.lbn n)
  indirect : w.own (i,.indirect) = 0 ∨ w.own (i,.indirect) = v.own (i,.indirect)
  empty : kept = 0 → w.own (i,.indirect) = 0
  used : ∀ b, w.used b = true ↔
    v.used b = true ∧ ∀ p, v.own (i,p) = b → w.own (i,p) = 0 → b = 0

lemma Vol.own_self {w : Vol} {y : Inode} (h : w.inode i = y) (p : Vol.Pos) :
    w.own (i,p) = w.pointer y p := by
  unfold Vol.own
  rw [h]

lemma ptr_keepDirect {kept n : ℕ} (w : Vol) (ind size : UInt32) (hn : n < 16) :
    w.ptr { keepDirect kept x (finRange 16) with indirect := ind, size := size } n =
      if kept ≤ n then 0 else v.ptr x n := by
  rw [Vol.ptr_of_lt _ _ hn,Vol.ptr_of_lt _ _ hn]
  exact keepDirect_direct kept x ⟨n,hn⟩

lemma not_mem_cut {kept : ℕ} {w : Vol} {b : UInt32} (hv : v.inode i = x)
    (hl : ∀ n, w.own (i,.lbn n) = if kept ≤ n then 0 else v.own (i,.lbn n)) :
    (∀ n, v.own (i,.lbn n) = b → w.own (i,.lbn n) = 0 → b = 0) ↔
      b ∉ cutDirect kept x (finRange 16) ∧ (x.indirect ≠ 0 →
        b ∉ cutEntries kept (v.data x.indirect) (List.range indirectPtrs)) := by
  have hdir (n : Fin 16) : v.own (i,.lbn n.val) = x.direct n := by
    rw [Vol.own_self hv,Vol.pointer_lbn,Vol.ptr_direct]
  have hent {j : ℕ} (hj : j < 1024) : v.own (i,.lbn (16+j)) = v.entry x j := by
    rw [Vol.own_self hv,Vol.pointer_lbn,Vol.ptr_entry _ _ hj]
  constructor
  · intro h
    constructor
    · rw [mem_cutDirect]
      rintro ⟨n,-,hn,hne,rfl⟩
      exact hne (h n.val (hdir n) (by rw [hl,if_pos hn]))
    · intro h0
      rw [mem_cutEntries]
      rintro ⟨j,hj,hk,hne,rfl⟩
      have hj : j < 1024 := List.mem_range.mp hj
      exact hne (h (16+j) (by rw [hent hj,Vol.entry,if_neg h0]) (by rw [hl,if_pos hk]))
  · rintro ⟨hd,he⟩ n hn hz
    by_contra hb
    have hk : kept ≤ n := by
      by_contra hk
      rw [hl,if_neg hk,hn] at hz
      exact hb hz
    by_cases h16 : n < 16
    · refine hd (mem_cutDirect.mpr ⟨⟨n,h16⟩,mem_finRange _,hk,?_⟩)
      have hx : x.direct ⟨n,h16⟩ = b := (hdir ⟨n,h16⟩).symm.trans hn
      exact ⟨hx ▸ hb,hx⟩
    · by_cases hfar : n < 1040
      · have hj : n - 16 < 1024 := by omega
        have hidx : 16 + (n - 16) = n := by omega
        have hx := hent hj
        rw [hidx,hn,Vol.entry] at hx
        by_cases h0 : x.indirect = 0
        · rw [if_pos h0] at hx
          exact hb hx
        · rw [if_neg h0] at hx
          refine he h0 (mem_cutEntries.mpr ⟨n-16,List.mem_range.mpr hj,by omega,?_⟩)
          exact ⟨hx ▸ hb,hx.symm⟩
      · rw [Vol.own_self hv,Vol.pointer_lbn,Vol.ptr_far _ _ (by omega)] at hn
        exact hb hn.symm

lemma Cut.intro {kept : ℕ} {size : UInt32} {w : Vol} (ind : UInt32) (hv : v.inode i = x)
    (hrec : w.inode = update v.inode i
      { keepDirect kept x (finRange 16) with indirect := ind, size := size })
    (hlive : w.live = v.live) (hdata : ∀ b, b ≠ x.indirect → w.data b = v.data b)
    (hfar : ∀ j < 1024, (if ind = 0 then 0 else tableAt (w.data ind) j) =
      if kept ≤ 16 + j then 0 else v.entry x j)
    (hind : ind = 0 ∨ ind = x.indirect) (hempty : kept = 0 → ind = 0)
    (hused : ∀ b, w.used b = true ↔ v.used b = true ∧ (b ∉ cutDirect kept x (finRange 16) ∧
      (x.indirect ≠ 0 → b ∉ cutEntries kept (v.data x.indirect) (List.range indirectPtrs))) ∧
      (x.indirect = b → ind = 0 → b = 0)) : Cut v i kept size w := by
  have hself : w.inode i = { keepDirect kept x (finRange 16) with indirect := ind, size := size } := by
    rw [hrec,update_self]
  have hlbn (n : ℕ) : w.own (i,.lbn n) = if kept ≤ n then 0 else v.own (i,.lbn n) := by
    rw [Vol.own_self hself,Vol.own_self hv,Vol.pointer_lbn,Vol.pointer_lbn]
    by_cases h16 : n < 16
    · exact ptr_keepDirect w ind size h16
    · by_cases hn : n < 1040
      · rw [Vol.ptr_of_ge _ _ (by omega),Vol.ptr_of_ge _ _ (by omega),if_pos hn,if_pos hn]
        have hj := hfar (n-16) (by omega)
        rwa [Nat.add_sub_cancel' (by omega)] at hj
      · rw [Vol.ptr_far _ _ (by omega),Vol.ptr_far _ _ (by omega),ite_self]
  have hown : w.own (i,.indirect) = ind := by rw [Vol.own_self hself,Vol.pointer_indirect]
  have hown' : v.own (i,.indirect) = x.indirect := by rw [Vol.own_self hv,Vol.pointer_indirect]
  refine ⟨⟨(keepDirect kept x (finRange 16)).direct,ind,?_⟩,hlive,by rwa [hv],hlbn,
    by rwa [hown,hown'],by rwa [hown],fun b => ?_⟩
  · rw [hrec,hv]
    rfl
  · rw [hused,← not_mem_cut hv hlbn]
    refine and_congr_right fun _ => ⟨?_,fun h => ⟨fun n => h _,?_⟩⟩
    · rintro ⟨hl,hi'⟩ (n | _) hp
      · exact hl n hp
      · rw [hown'] at hp
        rw [hown]
        exact hi' hp
    · intro hb h0
      exact h .indirect (hown'.trans hb) (hown.trans h0)

lemma truncated_cut (hi : v.inode i = x) (kept : ℕ) (size : UInt32) :
    Cut v i kept size (v.truncated i x kept size) := by
  have hrec (l : List UInt32) (y : Inode) (w : Vol) (hw : w.inode = v.inode) :
      ((w.giveAll l).setInode i y).inode = update v.inode i y := by
    rw [Vol.setInode_inode,Vol.giveAll_inode,hw]
  have hcut (l : List UInt32) (b : UInt32) : (v.giveAll l).used b = true ↔ v.used b = true ∧ b ∉ l := by
    rw [Vol.giveAll_used]
    split_ifs with hb <;> simp [hb]
  -- the last kept block is before the entry unless it is cleared
  have hent {ind : UInt32} (h0 : ind ≠ 0) (hx : x.indirect = ind) {j : ℕ} (hj : j < 1024) :
      tableAt (keepEntries kept (v.data ind) (List.range indirectPtrs)) j =
        if kept ≤ 16 + j then 0 else v.entry x j := by
    have hmem : j ∈ List.range indirectPtrs := List.mem_range.mpr hj
    subst hx
    rw [tableAt_keepEntries kept _ (List.range indirectPtrs) (fun k hk => List.mem_range.mp hk),
      Vol.entry,if_neg h0]
    simp only [hmem,true_and]
  unfold Vol.truncated
  by_cases h0 : x.indirect = 0
  · rw [if_pos h0]
    refine Cut.intro x.indirect hi (hrec _ _ v rfl) (Vol.giveAll_live ..)
      (fun b _ => by rw [Vol.setInode_data,Vol.giveAll_data]) (fun j _ => ?_) (.inr rfl) (fun _ => h0)
      fun b => ?_
    · rw [if_pos h0,Vol.entry,if_pos h0,ite_self]
    · rw [Vol.setInode_used,hcut]
      refine and_congr_right fun _ => ⟨fun hb => ⟨⟨hb,fun hne => absurd h0 hne⟩,?_⟩,fun h => h.1.1⟩
      exact fun hb _ => hb.symm.trans h0
  rw [if_neg h0]
  cases ha : anyKept kept (v.data x.indirect) (List.range indirectPtrs) with
  | true =>
    rw [if_pos rfl]
    refine Cut.intro x.indirect hi ?_ (Vol.giveAll_live ..) (fun b hb => ?_) (fun j hj => ?_)
      (.inr rfl) (fun hk => ?_) fun b => ?_
    · rw [Vol.setInode_inode,Vol.setData_inode,Vol.giveAll_inode]
      rfl
    · rw [Vol.setInode_data,Vol.setData_data,update_of_ne hb,Vol.giveAll_data]
    · rw [if_neg h0,Vol.setInode_data,Vol.setData_data,update_self]
      exact hent h0 rfl hj
    · subst hk
      simp [anyKept] at ha
    · rw [Vol.setInode_used,Vol.setData_used,hcut,mem_append,not_or]
      refine and_congr_right fun _ => ⟨fun hb => ⟨⟨hb.1,fun _ => hb.2⟩,fun _ he => absurd he h0⟩,?_⟩
      exact fun h => ⟨h.1.1,h.1.2 h0⟩
  | false =>
    rw [if_neg (by decide)]
    refine Cut.intro 0 hi (hrec _ _ v rfl) (Vol.giveAll_live ..)
      (fun b _ => by rw [Vol.setInode_data,Vol.giveAll_data]) (fun j hj => ?_) (.inl rfl)
      (fun _ => rfl) fun b => ?_
    · rw [if_pos rfl,Vol.entry,if_neg h0]
      split_ifs with hk
      · rfl
      · exact (anyKept_eq_false ha hj hk).symm
    · rw [Vol.setInode_used,hcut,mem_append,mem_append,not_or,not_or,
        mem_singleton]
      refine and_congr_right fun _ => ⟨fun hb => ⟨⟨hb.1.1,fun _ => hb.1.2⟩,?_⟩,fun h => ⟨⟨h.1.1,h.1.2 h0⟩,?_⟩⟩
      · exact fun hx _ => absurd hx.symm hb.2
      · rintro rfl
        exact h0 (h.2 rfl rfl)

namespace Cut
variable {w : Vol} {kept : ℕ} {size : UInt32}

lemma inode_of_ne (h : Cut v i kept size w) {k : UInt32} (hk : k ≠ i) : w.inode k = v.inode k := by
  obtain ⟨dir,ind,hrec⟩ := h.record
  rw [hrec,update_of_ne hk]

lemma type (h : Cut v i kept size w) (k : UInt32) : (w.inode k).type = (v.inode k).type := by
  obtain ⟨dir,ind,hrec⟩ := h.record
  rw [hrec]
  by_cases hk : k = i
  · subst hk; rw [update_self]
  · rw [update_of_ne hk]

lemma size_self (h : Cut v i kept size w) : (w.inode i).size = size := by
  obtain ⟨dir,ind,hrec⟩ := h.record
  rw [hrec,update_self]

lemma own_of_ne (h : Cut v i kept size w) (ho : v.Owned) {k : UInt32} (hk : k ≠ i) (p : Vol.Pos) :
    w.own (k,p) = v.own (k,p) := by
  have hw : w.inode k = v.inode k := h.inode_of_ne hk
  unfold Vol.own
  rw [hw]
  refine Vol.pointer_congr (fun h0 => h.data _ fun he => hk ?_) p
  have hinj := Owns.inj ho (k,.indirect) (i,.indirect) h0 he
  exact (Prod.mk.inj hinj).1

lemma own_self (h : Cut v i kept size w) (p : Vol.Pos) :
    w.own (i,p) = 0 ∨ w.own (i,p) = v.own (i,p) := by
  cases p with
  | lbn n =>
    rw [h.lbn]
    split_ifs
    · exact .inl rfl
    · exact .inr rfl
  | indirect => exact h.indirect

lemma owned (h : Cut v i kept size w) (ho : v.Owned) : w.Owned := by
  refine Owns.release ho (fun ⟨k,p⟩ => ?_) fun b ⟨hb,hu⟩ => ?_
  · by_cases hk : k = i
    · subst hk; exact h.own_self p
    · exact .inr (h.own_of_ne ho hk p)
  · by_cases hw : w.used b = true
    · exact .inl ⟨hb,hw⟩
    · right
      rintro ⟨k,p⟩ rfl
      by_contra hne
      refine hw ((h.used _).mpr ⟨hu,fun q hq hz => ?_⟩)
      by_contra h0
      have hinj := Owns.inj ho (i,q) (k,p) (hq ▸ h0) hq
      rw [← hinj] at hne
      exact hne hz

end Cut

end VibeOS.Osfs2

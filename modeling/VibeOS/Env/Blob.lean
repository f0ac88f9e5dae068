import VibeOS.Env.Coherence

/-! The bytes of the kernel's environment block, and the list of entries that they stand for. -/
namespace VibeOS.Env
open Function List Option Nat

/-- The array `env` of a thread. -/
abbrev Blob := ℕ → UInt8

/-- `s_len` of what begins at an offset; no string of a block is longer than it. -/
def sLen (blob : Blob) : ℕ → ℕ → ℕ
  | 0, _ => 0
  | n + 1, off => if blob off = 0 then 0 else sLen blob n (off + 1) + 1

/-- The loop of `env_used`. -/
def blobUsed (blob : Blob) : ℕ → ℕ → ℕ
  | 0, off => off
  | n + 1, off => if blob off = 0 then off else blobUsed blob n (off + sLen blob threadEnvMax off + 1)

/-- The test of `env_find` for the entry at an offset. -/
def entryMatches (blob : Blob) (key : List UInt8) (off : ℕ) : Bool :=
  (List.range key.length).all (fun i => blob (off + i) == key.getD i 0) && blob (off + key.length) == eq

/-- The loop of `env_find`. -/
def blobFind (blob : Blob) (key : List UInt8) : ℕ → ℕ → Option ℕ
  | 0, _ => none
  | n + 1, off =>
    if blob off = 0 then none
    else if entryMatches blob key off then some off
    else blobFind blob key n (off + sLen blob threadEnvMax off + 1)

/-- The loop of `env_delete_at` that moves the tail down. -/
def shiftDown (len used : ℕ) : ℕ → ℕ → Blob → Blob
  | 0, _, blob => blob
  | n + 1, i, blob =>
    if i + len < used then shiftDown len used n (i + 1) (update blob i (blob (i + len))) else blob

/-- `env_delete_at` -/
def blobDelete (blob : Blob) (off : ℕ) : Blob :=
  let len := sLen blob threadEnvMax off + 1
  let used := blobUsed blob threadEnvMax 0
  let moved := shiftDown len used threadEnvMax off blob
  fun i => if used - len ≤ i ∧ i < threadEnvMax then 0 else moved i

def writeAt (blob : Blob) (off : ℕ) (bytes : List UInt8) : Blob :=
  fun i => if off ≤ i ∧ i < off + bytes.length then bytes.getD (i - off) 0 else blob i

/-- `sys_setenv` on the bytes. -/
def blobSetenv (blob : Blob) (fault : Bool) (key val : List UInt8) : ℤ × Blob :=
  if fault then (-efault,blob)
  else if keyMax ≤ key.length ∨ threadEnvMax ≤ val.length then (-enametoolong,blob)
  else if key = [] ∨ eq ∈ key then (-einval,blob)
  else
    let blob := match blobFind blob key threadEnvMax 0 with
      | some off => blobDelete blob off
      | none => blob
    let used := blobUsed blob threadEnvMax 0
    if used + (key.length + 1 + val.length + 1) > threadEnvMax - 1 then (-enomem,blob)
    else (0,writeAt blob used (key ++ eq :: val ++ [0,0]))

/-- `sys_unsetenv` on the bytes. -/
def blobUnsetenv (blob : Blob) (fault : Bool) (key : List UInt8) : ℤ × Blob :=
  if fault then (-efault,blob)
  else if keyMax ≤ key.length then (-enametoolong,blob)
  else match blobFind blob key threadEnvMax 0 with
    | none => (-enoent,blob)
    | some off => (0,blobDelete blob off)

/-- `sys_getenv`, with the value that it copies out. -/
def blobGetenv (blob : Blob) (fault bufFault : Bool) (key : List UInt8) (cap : ℤ) : ℤ × Option (List UInt8) :=
  if cap ≤ 0 then (-einval,none)
  else if fault then (-efault,none)
  else if threadEnvMax ≤ key.length then (-enametoolong,none)
  else match blobFind blob key threadEnvMax 0 with
    | none => (-enoent,none)
    | some off =>
      let val := off + key.length + 1
      let need := sLen blob threadEnvMax val + 1
      if cap < need then (-einval,none)
      else if bufFault then (-efault,none)
      else (need,some ((List.range (need - 1)).map fun i => blob (val + i)))

def copyEnv (parent : Blob) : ℕ → ℕ → Bool → Blob → Blob
  | 0, _, _, child => child
  | n + 1, i, seenTerm, child =>
    let child := update child i (parent i)
    if parent i = 0 then (if seenTerm then child else copyEnv parent n (i + 1) true child)
    else copyEnv parent n (i + 1) false child

/-- The block of a child, in memory that holds anything before. -/
def inheritEnv (parent child : Blob) : Blob :=
  update (update (copyEnv parent threadEnvMax 0 false child) (threadEnvMax - 2) 0) (threadEnvMax - 1) 0

def Spells (blob : Blob) (off : ℕ) (bytes : List UInt8) : Prop := ∀ j (hj : j < bytes.length), blob (off + j) = bytes[j]

def Packs (blob : Blob) (block : List Entry) : Prop := Spells blob 0 (packed block ++ [0])

variable {blob blob' : Blob} {key val bytes a b : List UInt8} {block pre post : List Entry} {e : Entry} {fault : Bool}
  {n off i len used : ℕ}

lemma spells_append : Spells blob off (a ++ b) ↔ Spells blob off a ∧ Spells blob (off + a.length) b := by
  constructor
  · intro h
    refine ⟨fun j hj => ?_,fun j hj => ?_⟩
    · have hj' : j < (a ++ b).length := by rw [length_append]; omega
      rw [h j hj',getElem_append_left hj]
    · have hj' : a.length + j < (a ++ b).length := by rw [length_append]; omega
      rw [Nat.add_assoc,h _ hj',getElem_append_right (Nat.le_add_right _ _)]
      simp only [Nat.add_sub_cancel_left]
  · rintro ⟨ha,hb⟩ j hj
    by_cases hja : j < a.length
    · rw [ha j hja,getElem_append_left hja]
    · have hj' : j - a.length < b.length := by rw [length_append] at hj; omega
      rw [getElem_append_right (Nat.le_of_not_lt hja),← hb _ hj']
      exact congrArg blob (by omega)

lemma spells_cons {x : UInt8} : Spells blob off (x :: b) ↔ blob off = x ∧ Spells blob (off + 1) b := by
  refine (spells_append (a := [x])).trans (and_congr ⟨fun h => h 0 Nat.zero_lt_one,fun h j hj => ?_⟩ Iff.rfl)
  obtain rfl : j = 0 := Nat.lt_one_iff.mp hj
  exact h

lemma Spells.congr (h : Spells blob off bytes) (hsame : ∀ j < bytes.length, blob' (off + j) = blob (off + j)) :
    Spells blob' off bytes := fun j hj => (hsame j hj).trans (h j hj)

lemma packed_cons (e : Entry) (block : List Entry) : packed (e :: block) = e ++ [0] ++ packed block := rfl

lemma packed_append (a b : List Entry) : packed (a ++ b) = packed a ++ packed b := flatMap_append

lemma length_packed (block : List Entry) : (packed block).length = envUsed block := by
  induction block with
  | nil => rfl
  | cons e block ih =>
    rw [packed_cons,length_append,length_append,ih]
    rfl

lemma sLen_eq (h : Spells blob off (e ++ [0])) (h0 : 0 ∉ e) (hn : e.length < n) : sLen blob n off = e.length := by
  induction e generalizing n off with
  | nil =>
    obtain ⟨n,rfl⟩ := exists_eq_succ_of_ne_zero (Nat.ne_of_gt hn)
    exact if_pos (h 0 Nat.zero_lt_one)
  | cons b e ih =>
    obtain ⟨n,rfl⟩ := exists_eq_succ_of_ne_zero (Nat.ne_of_gt (zero_lt_of_lt hn))
    rw [mem_cons,not_or] at h0
    obtain ⟨hb,hrest⟩ := spells_cons.mp h
    rw [sLen,hb,if_neg (Ne.symm h0.1),ih hrest h0.2 (Nat.succ_lt_succ_iff.mp hn)]
    rfl

/-- The entries of a block, as the loops over them need them. -/
def Readable (block : List Entry) : Prop := ∀ e ∈ block, e ≠ [] ∧ 0 ∉ e ∧ e.length < threadEnvMax

lemma Valid.readable (h : Valid block) : Readable block := fun e he => by
  obtain ⟨k,v,hnamed⟩ := h.named e he
  refine ⟨?_,hnamed.noNul,?_⟩
  · rw [hnamed.split]
    exact append_ne_nil_of_right_ne_nil _ (cons_ne_nil _ _)
  · have hle : envUsed [e] ≤ envUsed block := envUsed_sublist (List.singleton_sublist.mpr he)
    have hfits := h.fits
    have hone : envUsed [e] = e.length + 1 + 0 := rfl
    have hmax : threadEnvMax = 512 := rfl
    omega

lemma spells_entry (h : Spells blob off (packed (e :: block) ++ [0])) (he : e ≠ [] ∧ 0 ∉ e ∧ e.length < threadEnvMax) :
    blob off ≠ 0 ∧ Spells blob off (e ++ [0]) ∧ sLen blob threadEnvMax off = e.length ∧
      Spells blob (off + e.length + 1) (packed block ++ [0]) := by
  rw [packed_cons,append_assoc,spells_append,length_append,length_singleton] at h
  obtain ⟨hentry,hrest⟩ := h
  refine ⟨?_,hentry,sLen_eq hentry he.2.1 he.2.2,hrest⟩
  cases e with
  | nil => exact absurd rfl he.1
  | cons b e =>
    rw [(spells_cons.mp hentry).1]
    exact fun hb => he.2.1 (hb ▸ mem_cons_self)

lemma blobUsed_eq (h : Spells blob off (packed block ++ [0])) (hr : Readable block) (hn : block.length < n) :
    blobUsed blob n off = off + envUsed block := by
  induction block generalizing n off with
  | nil =>
    obtain ⟨n,rfl⟩ := exists_eq_succ_of_ne_zero (Nat.ne_of_gt hn)
    exact if_pos (h 0 Nat.zero_lt_one)
  | cons e block ih =>
    obtain ⟨n,rfl⟩ := exists_eq_succ_of_ne_zero (Nat.ne_of_gt (zero_lt_of_lt hn))
    obtain ⟨hne,-,hlen,hrest⟩ := spells_entry h (hr e mem_cons_self)
    have hsum : envUsed (e :: block) = e.length + 1 + envUsed block := rfl
    rw [blobUsed,if_neg hne,hlen,ih hrest (fun x hx => hr x (mem_cons_of_mem _ hx)) (Nat.succ_lt_succ_iff.mp hn),hsum]
    omega

lemma entryMatches_eq (h : Spells blob off (e ++ [0])) (hk : 0 ∉ key) : entryMatches blob key off = isFor key e := by
  rw [Bool.eq_iff_iff,isFor_iff,entryMatches,Bool.and_eq_true,List.all_eq_true,beq_iff_eq]
  induction key generalizing e off with
  | nil =>
    cases e with
    | nil =>
      have h0 : blob off = 0 := h 0 Nat.zero_lt_one
      refine ⟨fun ⟨_,heq⟩ => ?_,fun ⟨v,hv⟩ => (by cases hv)⟩
      rw [length_nil,Nat.add_zero,h0] at heq
      cases heq
    | cons b e =>
      obtain ⟨hb,-⟩ := spells_cons.mp h
      refine ⟨fun ⟨_,heq⟩ => ⟨e,?_⟩,fun ⟨v,hv⟩ => ⟨fun i hi => absurd hi not_mem_nil,?_⟩⟩
      · rw [length_nil,Nat.add_zero,hb] at heq
        rw [heq]
        rfl
      · cases hv
        exact hb
  | cons x key ih =>
    rw [mem_cons,not_or] at hk
    have hcons : (∀ i ∈ List.range (x :: key).length, (blob (off + i) == (x :: key).getD i 0) = true) ↔
        blob off = x ∧ ∀ i ∈ List.range key.length, (blob (off + 1 + i) == key.getD i 0) = true := by
      simp only [mem_range,beq_iff_eq,length_cons]
      constructor
      · intro hall
        refine ⟨hall 0 (Nat.succ_pos _),fun i hi => ?_⟩
        rw [Nat.add_assoc,Nat.add_comm 1 i]
        exact hall (i + 1) (succ_lt_succ hi)
      · rintro ⟨hx,hall⟩ i hi
        cases i with
        | zero => exact hx
        | succ i =>
          have := hall i (Nat.succ_lt_succ_iff.mp hi)
          rwa [Nat.add_assoc,Nat.add_comm 1 i] at this
    rw [hcons,length_cons,Nat.add_comm key.length 1,← Nat.add_assoc,and_assoc]
    cases e with
    | nil =>
      have h0 : blob off = 0 := h 0 Nat.zero_lt_one
      refine ⟨fun ⟨hx,_⟩ => absurd (h0.symm.trans hx) hk.1,fun ⟨v,hv⟩ => by cases hv⟩
    | cons b e =>
      obtain ⟨hb,hrest⟩ := spells_cons.mp h
      rw [ih hrest hk.2,hb]
      constructor
      · rintro ⟨rfl,v,rfl⟩
        exact ⟨v,rfl⟩
      · rintro ⟨v,hv⟩
        cases hv
        exact ⟨rfl,v,rfl⟩

lemma blobFind_eq (h : Spells blob off (packed block ++ [0])) (hr : Readable block) (hk : 0 ∉ key) (hn : block.length < n) :
    (blobFind blob key n off = none ∧ ∀ e ∈ block, isFor key e = false) ∨
    ∃ pre e post, block = pre ++ e :: post ∧ (∀ x ∈ pre, isFor key x = false) ∧ isFor key e = true ∧
      blobFind blob key n off = some (off + envUsed pre) := by
  induction block generalizing n off with
  | nil =>
    obtain ⟨n,rfl⟩ := exists_eq_succ_of_ne_zero (Nat.ne_of_gt hn)
    exact .inl ⟨if_pos (h 0 Nat.zero_lt_one),fun e he => absurd he not_mem_nil⟩
  | cons e block ih =>
    obtain ⟨n,rfl⟩ := exists_eq_succ_of_ne_zero (Nat.ne_of_gt (zero_lt_of_lt hn))
    obtain ⟨hne,hentry,hlen,hrest⟩ := spells_entry h (hr e mem_cons_self)
    rw [blobFind,if_neg hne,entryMatches_eq hentry hk,hlen]
    by_cases hfor : isFor key e = true
    · rw [if_pos hfor]
      exact .inr ⟨[],e,block,rfl,fun x hx => absurd hx not_mem_nil,hfor,rfl⟩
    · rw [if_neg hfor]
      have hfor' : isFor key e = false := eq_false_of_ne_true hfor
      rcases ih hrest (fun x hx => hr x (mem_cons_of_mem _ hx)) (Nat.succ_lt_succ_iff.mp hn) with
        ⟨hnone,hall⟩ | ⟨pre,e',post,rfl,hpre,he',hsome⟩
      · refine .inl ⟨hnone,fun x hx => ?_⟩
        rcases List.mem_cons.mp hx with rfl | hx
        · exact hfor'
        · exact hall x hx
      · refine .inr ⟨e :: pre,e',post,rfl,fun x hx => ?_,he',?_⟩
        · rcases List.mem_cons.mp hx with rfl | hx
          · exact hfor'
          · exact hpre x hx
        · have hsum : envUsed (e :: pre) = e.length + 1 + envUsed pre := rfl
          rw [hsome,hsum]
          exact congrArg some (by omega)

lemma shiftDown_eq (hlen : 0 < len) (j : ℕ) : shiftDown len used n i blob j =
    if i ≤ j ∧ j < i + n ∧ j + len < used then blob (j + len) else blob j := by
  induction n generalizing i blob with
  | zero => exact (if_neg (by omega)).symm
  | succ n ih =>
    rw [shiftDown]
    by_cases hi : i + len < used
    · rw [if_pos hi,ih]
      rcases Nat.lt_trichotomy j i with hji | rfl | hji
      · rw [if_neg (by omega),if_neg (by omega),update_of_ne (by omega)]
      · rw [if_neg (by omega),if_pos (by omega),update_self]
      · rw [update_of_ne (by omega),update_of_ne (by omega)]
        exact if_congr (by omega) rfl rfl
    · rw [if_neg hi,if_neg (by omega)]

lemma packs_delete (h : Packs blob (pre ++ e :: post)) (hr : Readable (pre ++ e :: post))
    (hfits : envUsed (pre ++ e :: post) < threadEnvMax) : Packs (blobDelete blob (envUsed pre)) (pre ++ post) := by
  have hcount : (pre ++ e :: post).length < threadEnvMax := by
    refine Nat.lt_of_le_of_lt ?_ hfits
    generalize pre ++ e :: post = block
    induction block with
    | nil => exact Nat.zero_le _
    | cons x block ih =>
      have hsum : envUsed (x :: block) = x.length + 1 + envUsed block := rfl
      rw [length_cons,hsum]
      omega
  have hused : blobUsed blob threadEnvMax 0 = envUsed (pre ++ e :: post) := by
    rw [blobUsed_eq h hr hcount,Nat.zero_add]
  have hsum : envUsed (pre ++ e :: post) = envUsed pre + (e.length + 1 + envUsed post) := envUsed_append _ _
  have hparts := h
  rw [Packs,packed_append,append_assoc,spells_append,length_packed,Nat.zero_add] at hparts
  obtain ⟨hpre,hrest⟩ := hparts
  obtain ⟨-,-,hlen,hpost⟩ := spells_entry hrest (hr e (mem_append_right _ mem_cons_self))
  have hdel : ∀ j, blobDelete blob (envUsed pre) j = if envUsed (pre ++ post) ≤ j ∧ j < threadEnvMax then 0
      else if envUsed pre ≤ j ∧ j < envUsed pre + threadEnvMax ∧ j + (e.length + 1) < envUsed (pre ++ e :: post)
        then blob (j + (e.length + 1)) else blob j := fun j => by
    unfold blobDelete
    rw [hlen,hused,shiftDown_eq (Nat.succ_pos _)]
    have hless : envUsed (pre ++ e :: post) - (e.length + 1) = envUsed (pre ++ post) := by
      rw [hsum,envUsed_append]
      omega
    rw [hless]
  have hshort : envUsed (pre ++ post) = envUsed pre + envUsed post := envUsed_append _ _
  rw [Packs,packed_append,append_assoc,spells_append,spells_append,length_packed,length_packed,Nat.zero_add]
  refine ⟨hpre.congr fun j hj => ?_,fun j hj => ?_,fun j hj => ?_⟩
  · rw [length_packed] at hj
    rw [hdel,if_neg (by omega),if_neg (by omega)]
  · have hpost' := (spells_append.mp hpost).1 j hj
    rw [length_packed] at hj
    rw [hdel,if_neg (by omega),if_pos (by omega),← hpost']
    exact congrArg blob (by omega)
  · obtain rfl : j = 0 := Nat.lt_one_iff.mp hj
    rw [hdel,if_pos (by omega)]
    rfl

lemma packs_write (h : Packs blob block) (e : Entry) :
    Packs (writeAt blob (envUsed block) (e ++ [0,0])) (block ++ [e]) := by
  rw [Packs,packed_append,packed_cons,append_assoc,spells_append,length_packed,Nat.zero_add]
  refine ⟨(spells_append.mp h).1.congr fun j hj => if_neg ?_,fun j hj => ?_⟩
  · rw [length_packed] at hj
    omega
  · have hbytes : e ++ [0] ++ packed [] ++ [0] = e ++ [0,0] := by simp [packed]
    have hj' : j < (e ++ [0,0]).length := by rw [← hbytes]; exact hj
    rw [writeAt,if_pos ⟨Nat.le_add_right _ _,by omega⟩,Nat.add_sub_cancel_left,getD_eq_getElem?_getD,
      getElem?_eq_getElem hj',getD_some]
    simp only [hbytes]

lemma eraseP_middle {p : Entry → Bool} (hpre : ∀ x ∈ pre, p x = false) (he : p e = true) :
    (pre ++ e :: post).eraseP p = pre ++ post := by
  rw [eraseP_append_right _ fun x hx => by rw [hpre x hx]; exact Bool.false_ne_true,eraseP_cons_of_pos he]

lemma Valid.count (h : Valid block) : block.length < threadEnvMax :=
  Nat.lt_trans h.length_lt (by decide)

lemma Valid.room (h : Valid block) : envUsed block < threadEnvMax := by
  have := h.fits
  have hmax : threadEnvMax = 512 := rfl
  omega

lemma blobSetenv_eq (h : Packs blob block) (hv : Valid block) (fault : Bool) (hk : 0 ∉ key) :
    (blobSetenv blob fault key val).1 = (sysSetenv block fault key val).1 ∧
      Packs (blobSetenv blob fault key val).2 (sysSetenv block fault key val).2 := by
  unfold blobSetenv sysSetenv
  split_ifs with hfault hlong hbad
  · exact ⟨rfl,h⟩
  · exact ⟨rfl,h⟩
  · exact ⟨rfl,h⟩
  obtain ⟨blob',hpacks,hblob⟩ : ∃ blob', Packs blob' (block.eraseP (isFor key)) ∧
      (match blobFind blob key threadEnvMax 0 with
        | some off => blobDelete blob off
        | none => blob) = blob' := by
    rcases blobFind_eq h hv.readable hk hv.count with ⟨hnone,hall⟩ | ⟨pre,e,post,rfl,hpre,he,hsome⟩
    · rw [hnone]
      refine ⟨blob,?_,rfl⟩
      rwa [eraseP_of_forall_not fun x hx => by rw [hall x hx]; exact Bool.false_ne_true]
    · rw [hsome,eraseP_middle hpre he,Nat.zero_add]
      exact ⟨_,packs_delete h hv.readable hv.room,rfl⟩
  have hv' : Valid (block.eraseP (isFor key)) := hv.sublist eraseP_sublist
  dsimp only
  rw [hblob,blobUsed_eq hpacks hv'.readable hv'.count,Nat.zero_add]
  split_ifs with hfull
  · exact ⟨rfl,hpacks⟩
  · exact ⟨rfl,packs_write hpacks _⟩

lemma blobUnsetenv_eq (h : Packs blob block) (hv : Valid block) (fault : Bool) (hk : 0 ∉ key) :
    (blobUnsetenv blob fault key).1 = (sysUnsetenv block fault key).1 ∧
      Packs (blobUnsetenv blob fault key).2 (sysUnsetenv block fault key).2 := by
  unfold blobUnsetenv sysUnsetenv
  split_ifs with hfault hlong hany
  · exact ⟨rfl,h⟩
  · exact ⟨rfl,h⟩
  · rcases blobFind_eq h hv.readable hk hv.count with ⟨hnone,hall⟩ | ⟨pre,e,post,rfl,hpre,he,hsome⟩
    · obtain ⟨x,hx,hfor⟩ := List.any_eq_true.mp hany
      rw [hall x hx] at hfor
      cases hfor
    · rw [hsome,eraseP_middle hpre he,Nat.zero_add]
      exact ⟨rfl,packs_delete h hv.readable hv.room⟩
  · rcases blobFind_eq h hv.readable hk hv.count with ⟨hnone,hall⟩ | ⟨pre,e,post,rfl,hpre,he,hsome⟩
    · rw [hnone]
      exact ⟨rfl,h⟩
    · exact absurd (List.any_eq_true.mpr ⟨e,mem_append_right _ mem_cons_self,he⟩) hany

lemma copyEnv_of_lt {parent child : Blob} {seen : Bool} {j : ℕ} (h : j < i) : copyEnv parent n i seen child j = child j := by
  induction n generalizing i seen child with
  | zero => rfl
  | succ n ih =>
    rw [copyEnv]
    split_ifs
    · exact update_of_ne (by omega) _ _
    · rw [ih (by omega),update_of_ne (by omega)]
    · rw [ih (by omega),update_of_ne (by omega)]

lemma copyEnv_eq {parent child : Blob} {seen : Bool} {j : ℕ} (hlo : i ≤ j) (hhi : j < i + n)
    (hterm : ∀ k, i ≤ k → k < j → parent k = 0 → (if k = i then seen = false else parent (k - 1) ≠ 0)) :
    copyEnv parent n i seen child j = parent j := by
  induction n generalizing i seen child with
  | zero => omega
  | succ n ih =>
    rw [copyEnv]
    rcases Nat.eq_or_lt_of_le hlo with rfl | hlt
    · split_ifs
      · exact update_self ..
      · rw [copyEnv_of_lt (Nat.lt_succ_self _),update_self]
      · rw [copyEnv_of_lt (Nat.lt_succ_self _),update_self]
    · by_cases hz : parent i = 0
      · have hseen := hterm i (Nat.le_refl i) hlt hz
        rw [if_pos rfl] at hseen
        rw [if_pos hz,if_neg (by rw [hseen]; exact Bool.false_ne_true)]
        refine ih hlt (by omega) fun k hk hkj hkz => ?_
        have := hterm k (by omega) hkj hkz
        rw [if_neg (by omega)] at this
        have hki : k ≠ i + 1 := by
          rintro rfl
          exact this hz
        rw [if_neg hki]
        exact this
      · rw [if_neg hz]
        refine ih hlt (by omega) fun k hk hkj hkz => ?_
        have := hterm k (by omega) hkj hkz
        rw [if_neg (by omega)] at this
        split_ifs with hki
        · rfl
        · exact this

lemma packed_nul (h : Spells blob off (packed block)) (hr : Readable block) {k : ℕ} (hlo : off ≤ k) (hhi : k < off + envUsed block)
    (hz : blob k = 0) : off < k ∧ blob (k - 1) ≠ 0 := by
  induction block generalizing off with
  | nil => exact absurd hhi (Nat.not_lt.mpr hlo)
  | cons e block ih =>
    rw [packed_cons,spells_append,spells_append,length_append,length_singleton] at h
    obtain ⟨⟨hentry,-⟩,hrest⟩ := h
    obtain ⟨hne,h0,-⟩ := hr e mem_cons_self
    have hsum : envUsed (e :: block) = e.length + 1 + envUsed block := rfl
    have hpos := List.length_pos_iff.mpr hne
    have hchar : ∀ j < e.length, blob (off + j) ≠ 0 := fun j hj => by
      rw [hentry j hj]
      exact fun hj0 => h0 (hj0 ▸ getElem_mem hj)
    rcases Nat.lt_trichotomy k (off + e.length) with hk | rfl | hk
    · have := hchar (k - off) (by omega)
      rw [Nat.add_sub_cancel' hlo] at this
      exact absurd hz this
    · refine ⟨by omega,?_⟩
      have := hchar (e.length - 1) (by omega)
      rwa [← Nat.add_sub_assoc hpos] at this
    · obtain ⟨hlt,hprev⟩ := ih hrest (fun x hx => hr x (mem_cons_of_mem _ hx)) (by omega) (by omega)
      exact ⟨by omega,hprev⟩

lemma getLast_packed (h : Packs blob block) (hne : block ≠ []) : blob (envUsed block - 1) = 0 := by
  obtain ⟨init,last,rfl⟩ := (eq_nil_or_concat block).resolve_left hne
  rw [concat_eq_append] at *
  rw [Packs,packed_append,packed_cons,append_assoc,spells_append,append_assoc,append_assoc,spells_append,
    Nat.zero_add] at h
  have hnul := (spells_cons.mp h.2.2).1
  rw [length_packed] at hnul
  rw [envUsed_append]
  have hone : envUsed [last] = last.length + 1 + 0 := rfl
  rw [hone]
  exact hnul

lemma packs_inherit (h : Packs blob block) (hv : Valid block) (child : Blob) : Packs (inheritEnv blob child) block := by
  have hlen : (packed block ++ [0]).length = envUsed block + 1 := by
    rw [length_append,length_packed,length_singleton]
  have hused := hv.fits
  have hmax : threadEnvMax = 512 := rfl
  rw [hmax] at hused
  have hend : blob (envUsed block) = 0 := by
    have := (spells_append.mp h).2 0 Nat.zero_lt_one
    rw [Nat.zero_add,length_packed] at this
    exact this
  refine h.congr fun j hj => ?_
  rw [hlen] at hj
  rw [Nat.zero_add]
  have hcopy : copyEnv blob threadEnvMax 0 false child j = blob j := by
    refine copyEnv_eq (Nat.zero_le _) (by omega) fun k _ hkj hkz => ?_
    obtain ⟨hlt,hprev⟩ := packed_nul (spells_append.mp h).1 hv.readable (Nat.zero_le k) (by omega) hkz
    rw [if_neg (by omega)]
    exact hprev
  unfold inheritEnv
  rw [hmax] at *
  rcases eq_or_ne j 511 with rfl | h511
  · rw [update_self]
    have : envUsed block = 511 := by omega
    rw [this] at hend
    exact hend.symm
  · rw [update_of_ne h511]
    rcases eq_or_ne j 510 with rfl | h510
    · rw [update_self]
      rcases Nat.lt_or_ge 510 (envUsed block) with hlt | hge
      · have hne : block ≠ [] := by
          rintro rfl
          exact absurd hlt (by decide)
        have := getLast_packed h hne
        rw [show envUsed block - 1 = 510 by omega] at this
        exact this.symm
      · rw [show envUsed block = 510 by omega] at hend
        exact hend.symm
    · rw [update_of_ne h510,hcopy]

end VibeOS.Env

import VibeOS.Env.Environment
import Mathlib.Data.List.Perm.Basic
import Mathlib.Data.List.Nodup
import Mathlib.Data.Nat.Basic
import Mathlib.Tactic.Cases

/-! The variables of `env.h` and those of the kernel's block. -/
namespace VibeOS.Env
open VibeOS List Option

variable {name k v val bytes : List UInt8} {e : Entry} {block : List Entry} {fault : Bool}

def keyOf (e : Entry) : List UInt8 := e.takeWhile (· ≠ eq)

lemma keyOf_append (hk : eq ∉ k) : keyOf (k ++ eq :: v) = k := by
  induction k with
  | nil => simp [keyOf]
  | cons b k ih =>
    obtain ⟨hb,hk'⟩ := not_or.mp (List.mem_cons.not.mp hk)
    have hb' : b ≠ eq := Ne.symm hb
    have htail : (k ++ eq :: v).takeWhile (· ≠ eq) = k := ih hk'
    unfold keyOf
    rw [cons_append,takeWhile_cons_of_pos (by simpa using hb'),htail]

lemma isFor_iff (e : Entry) : isFor name e = true ↔ ∃ v, e = name ++ eq :: v := by
  unfold isFor
  rw [Bool.and_eq_true, isPrefixOf_iff_prefix,beq_iff_eq]
  constructor
  · rintro ⟨⟨t,rfl⟩,ht⟩
    rw [getElem?_append_right le_rfl,Nat.sub_self] at ht
    cases t with
    | nil => cases ht
    | cons b t =>
      cases ht
      exact ⟨t,rfl⟩
  · rintro ⟨v,rfl⟩
    exact ⟨prefix_append _ _,by simp⟩

structure Named (e : Entry) (k v : List UInt8) : Prop where
  split : e = k ++ eq :: v
  nonempty : k ≠ []
  noEq : eq ∉ k
  short : k.length < keyMax
  noNul : 0 ∉ e

lemma Named.key (h : Named e k v) : keyOf e = k := by
  rw [h.split,keyOf_append h.noEq]

lemma Named.isFor_iff (h : Named e k v) (hn : eq ∉ name) : isFor name e = true ↔ k = name := by
  rw [Env.isFor_iff,h.split]
  constructor
  · rintro ⟨w,hw⟩
    have := congrArg keyOf hw
    rwa [keyOf_append h.noEq,keyOf_append hn] at this
  · rintro rfl
    exact ⟨v,rfl⟩

/-- What the kernel keeps of a block. -/
structure Valid (block : List Entry) : Prop where
  named : ∀ e ∈ block, ∃ k v, Named e k v
  distinct : (block.map keyOf).Nodup
  fits : envUsed block ≤ threadEnvMax - 1

lemma valid_nil : Valid [] where
  named _ h := nomatch h
  distinct := nodup_nil
  fits := Nat.zero_le _

lemma envUsed_append (a b : List Entry) : envUsed (a ++ b) = envUsed a + envUsed b := by
  simp [envUsed]

lemma envUsed_sublist {a b : List Entry} (h : a.Sublist b) : envUsed a ≤ envUsed b := by
  induction h with
  | slnil => exact le_rfl
  | cons e _ ih => exact Nat.le_trans ih (Nat.le_add_left _ _)
  | cons_cons e _ ih => exact Nat.add_le_add_left ih _

lemma Valid.sublist {a : List Entry} (h : Valid block) (ha : a.Sublist block) : Valid a where
  named e he := h.named e (ha.subset he)
  distinct := h.distinct.sublist (ha.map _)
  fits := Nat.le_trans (envUsed_sublist ha) h.fits

lemma Valid.notFor (h : Valid block) (hn : eq ∉ name) : ∀ e ∈ block.eraseP (isFor name), isFor name e = false := by
  intro e he
  rw [Bool.eq_false_iff]
  intro hfor
  obtain ⟨k,w,hnamed⟩ := h.named e (eraseP_subset he)
  obtain rfl := (hnamed.isFor_iff hn).mp hfor
  obtain ⟨a,l₁,l₂,hl₁,ha,rfl,hl⟩ := exists_of_eraseP (eraseP_subset he) hfor
  obtain ⟨k',w',hnamed'⟩ := h.named a (by simp)
  obtain rfl := (hnamed'.isFor_iff hn).mp ha
  rw [hl] at he
  have hnodup := h.distinct
  rw [map_append,map_cons,nodup_middle] at hnodup
  refine (List.nodup_cons.mp hnodup).1 ?_
  rw [← map_append]
  exact List.mem_map.mpr ⟨e,he,hnamed.key.trans hnamed'.key.symm⟩

lemma Valid.add (h : Valid block) (hfor : ∀ e ∈ block, isFor k e = false) (hnamed : Named e k v)
    (hfits : envUsed block + (e.length + 1) ≤ threadEnvMax - 1) : Valid (block ++ [e]) where
  named e' he := by
    rcases List.mem_append.mp he with he | he
    · exact h.named e' he
    · obtain rfl := List.mem_singleton.mp he
      exact ⟨k,v,hnamed⟩
  distinct := by
    rw [map_append,map_singleton]
    refine List.nodup_append.mpr ⟨h.distinct,nodup_singleton _,fun a ha b hb => ?_⟩
    obtain ⟨e',he,rfl⟩ := List.mem_map.mp ha
    obtain rfl := List.mem_singleton.mp hb
    rintro heq
    obtain ⟨k',v',hnamed'⟩ := h.named e' he
    have hkey : k' = k := by rw [← hnamed'.key,heq,hnamed.key]
    have := (hnamed'.isFor_iff hnamed.noEq).mpr hkey
    rw [hfor e' he] at this
    cases this
  fits := by
    rw [envUsed_append]
    simpa [envUsed] using hfits

lemma named_append (hk : k ≠ []) (hn : eq ∉ k) (hlen : k.length < keyMax) (h0 : 0 ∉ k) (hv : 0 ∉ v) :
    Named (k ++ eq :: v) k v := by
  refine ⟨rfl,hk,hn,hlen,?_⟩
  rw [mem_append,mem_cons]
  rintro (h | h | h)
  · exact h0 h
  · exact absurd h (by decide)
  · exact hv h

lemma valid_sysSetenv (h : Valid block) (hk : 0 ∉ k) (hv : 0 ∉ v) : Valid (sysSetenv block fault k v).2 := by
  unfold sysSetenv
  split_ifs with hfault hlong hbad
  · exact h
  · exact h
  · exact h
  dsimp only
  split_ifs with hfull
  · exact h.sublist eraseP_sublist
  · rw [not_or] at hbad hlong
    refine (h.sublist eraseP_sublist).add (h.notFor hbad.2) (named_append hbad.1 hbad.2 (not_le.mp hlong.1) hk hv) ?_
    rw [length_append,length_cons]
    omega

lemma valid_sysUnsetenv (h : Valid block) : Valid (sysUnsetenv block fault k).2 := by
  unfold sysUnsetenv
  split_ifs
  · exact h
  · exact h
  · exact h.sublist (eraseP_sublist)
  · exact h

lemma Valid.length_lt (h : Valid block) : block.length < envMaxEntries := by
  have hthree : ∀ l : List Entry, (∀ e ∈ l, ∃ k v, Named e k v) → 3*l.length ≤ envUsed l := by
    intro l hl
    induction l with
    | nil => exact Nat.zero_le _
    | cons e l ih =>
      obtain ⟨k,v,hnamed⟩ := hl e mem_cons_self
      have hlen : 2 ≤ e.length := by
        rw [hnamed.split,length_append,length_cons]
        have := List.length_pos_iff.mpr hnamed.nonempty
        omega
      have := ih fun e he => hl e (mem_cons_of_mem _ he)
      have hcons : envUsed (e :: l) = e.length + 1 + envUsed l := rfl
      rw [hcons,length_cons]
      omega
  have := hthree block h.named
  have hfits := h.fits
  have hmax : threadEnvMax = 512 := rfl
  have hentries : envMaxEntries = 256 := rfl
  omega

lemma slices_append (he : 0 ∉ e) (cur bytes : List UInt8) (hne : cur ++ e ≠ []) :
    slices cur (e ++ 0 :: bytes) = (cur ++ e) :: slices [] bytes := by
  induction e generalizing cur with
  | nil =>
    rw [append_nil] at hne ⊢
    simp [slices,hne]
  | cons b e ih =>
    obtain ⟨hb,he'⟩ := not_or.mp (List.mem_cons.not.mp he)
    have hb' : b ≠ 0 := Ne.symm hb
    rw [cons_append,slices,if_neg hb',ih he' _ (by simp)]
    simp

lemma slices_packed (h : ∀ e ∈ block, e ≠ [] ∧ 0 ∉ e) : slices [] (packed block) = block := by
  induction block with
  | nil => rfl
  | cons e block ih =>
    obtain ⟨hne,h0⟩ := h e mem_cons_self
    have hpacked : packed (e :: block) = e ++ 0 :: packed block := by simp [packed]
    rw [hpacked,slices_append h0 [] _ hne,ih fun e he => h e (mem_cons_of_mem _ he)]
    rfl

lemma Valid.slices (h : Valid block) : (slices [] (packed block)).take envMaxEntries = block := by
  rw [slices_packed,take_of_length_le (Nat.le_of_lt h.length_lt)]
  intro e he
  obtain ⟨k,v,hnamed⟩ := h.named e he
  refine ⟨?_,hnamed.noNul⟩
  rw [hnamed.split]
  simp

namespace Process
variable {s t : Process} {r : Result} {initFault overwrite : Bool} {faults : ℕ → Bool}

/-- The variables that the next call of `env.h` goes by. -/
def visible (s : Process) : List Entry := if s.inited then s.table else s.block

def InitOk (s : Process) (fault : Bool) : Prop := s.inited = true ∨ fault = false ∨ s.block = []

/-- The bytes of the arena in use behind `_env_init`. -/
def arenaUsed (s : Process) : ℕ := if s.inited then s.used else envUsed s.block

/-- The block has room for the variable, without an old value of it. -/
def Fits (s : Process) (name value : List UInt8) : Prop :=
  envUsed (s.block.eraseP (isFor name)) + (name.length + 1 + value.length + 1) ≤ threadEnvMax - 1

/-- Either nothing is to be done, or the kernel accepts the variable and the arena has room for it,
or neither of them has room. -/
def SetOk (s : Process) (initFault fault : Bool) (name value : List UInt8) (overwrite : Bool) : Prop :=
  badName name = true ∨ s.InitOk initFault ∧
    (s.block.any (isFor name) = true ∧ overwrite = false ∨
      if s.arenaUsed + (name.length + 1 + value.length + 1) ≤ envArenaSize then
        name.length < keyMax ∧ fault = false ∧ s.Fits name value
      else ¬ s.Fits name value)

def Meets (s : Process) : Event → Prop
  | .getenv initFault name => name.val = [] ∨ s.InitOk initFault
  | .setenv initFault fault name value overwrite => s.SetOk initFault fault name value overwrite
  | .unsetenv initFault fault name =>
    badName name = true ∨ s.InitOk initFault ∧ (s.block.any (isFor name) = true → fault = false)
  | .putenv initFault fault str =>
    eq ∉ str.val ∨ s.SetOk initFault fault (keyOf str) (str.val.drop ((keyOf str).length + 1)) true
  | .clearenv initFault faults =>
    s.InitOk initFault ∧ (∀ e ∈ s.block, (keyOf e).length ≤ 63) ∧ ∀ i < s.block.length, faults i = false

/-- What calls that meet the condition keep. -/
structure Inv (s : Process) : Prop where
  valid : Valid s.block
  same : s.inited = true → s.table.Perm s.block
  unread : s.inited = false → s.used = 0 ∧ s.table = []

lemma Inv.visible_perm (hs : Inv s) : s.visible.Perm s.block := by
  unfold visible
  split
  · next h => exact hs.same h
  · exact .refl _

lemma Inv.envInit (hs : Inv s) {fault : Bool} (ok : s.InitOk fault) :
    Inv (s.envInit fault) ∧ (s.envInit fault).inited = true ∧ (s.envInit fault).block = s.block ∧
      (s.envInit fault).used = s.arenaUsed := by
  unfold Process.envInit arenaUsed
  cases hi : s.inited with
  | true => exact ⟨hs,hi,rfl,rfl⟩
  | false =>
    obtain ⟨hused,htable⟩ := hs.unread hi
    have hfits := hs.valid.fits
    have hmax : threadEnvMax = 512 := rfl
    have hsize : envArenaSize = 16384 := rfl
    have hcap : ¬ envArenaSize < envUsed s.block + 1 := by omega
    simp only [Bool.false_eq_true,if_false]
    by_cases hfault : fault = true
    · have hnil : s.block = [] := by
        rcases ok with h | h | h
        · rw [hi] at h
          cases h
        · rw [hfault] at h
          cases h
        · exact h
      have hn : svcCheck (sysGetenvAll s.block fault envArenaSize) ≤ 0 := by
        rw [sysGetenvAll,if_neg hcap,if_pos hfault]
        decide
      rw [if_pos hn]
      refine ⟨⟨hs.valid,fun _ => ?_,nofun⟩,rfl,rfl,?_⟩
      · rw [htable,hnil]
      · rw [hused,hnil]
        rfl
    · have hn : ¬ svcCheck (sysGetenvAll s.block fault envArenaSize) ≤ 0 := by
        rw [sysGetenvAll,if_neg hcap,if_neg hfault,svcCheck]
        split <;> omega
      rw [if_neg hn]
      refine ⟨⟨hs.valid,fun _ => ?_,nofun⟩,rfl,rfl,rfl⟩
      dsimp only
      rw [hs.valid.slices]

lemma Inv.envFind (hs : Inv s) (hi : s.inited = true) (name : List UInt8) :
    (s.envFind name).isSome = s.block.any (isFor name) := by
  rw [Process.envFind,findIdx?_isSome,(hs.same hi).any_eq]

lemma eraseP_distinct (hs : Inv s) (hi : s.inited = true) (hn : eq ∉ name) :
    (s.table.eraseP (isFor name)).Perm (s.block.eraseP (isFor name)) := by
  refine List.Perm.eraseP _ ?_ (hs.same hi)
  have hnodup : (s.table.map keyOf).Nodup := ((hs.same hi).map keyOf).nodup_iff.mpr hs.valid.distinct
  refine (List.pairwise_map.mp hnodup).imp_of_mem fun {a b} ha hb hne hfa hfb => hne ?_
  obtain ⟨k,v,hnamed⟩ := hs.valid.named a ((hs.same hi).subset ha)
  obtain ⟨k',v',hnamed'⟩ := hs.valid.named b ((hs.same hi).subset hb)
  rw [hnamed.key,hnamed'.key,(hnamed.isFor_iff hn).mp hfa,(hnamed'.isFor_iff hn).mp hfb]

lemma eraseIdx_envFind {i : ℕ} (h : s.envFind name = some i) : s.table.eraseIdx i = s.table.eraseP (isFor name) ∧ i < s.table.length := by
  obtain ⟨hlt,hidx⟩ := List.findIdx?_eq_some_iff_findIdx_eq.mp h
  refine ⟨?_,hlt⟩
  rw [eraseP_eq_eraseIdx,show s.table.findIdx? (isFor name) = some i from h]

lemma not_badName (h : ¬ badName name = true) : name ≠ [] ∧ eq ∉ name := by
  unfold badName at h
  rwa [decide_eq_true_eq,not_or] at h

lemma writeThrough_fits (hname : name ≠ [] ∧ eq ∉ name) (hlen : name.length < keyMax) (hfits : s.Fits name v) :
    s.writeThrough false name v = (.int 0 none,{ s with block := s.block.eraseP (isFor name) ++ [name ++ eq :: v] }) := by
  have hroom := hfits
  unfold Fits at hroom
  have hmax : threadEnvMax = 512 := rfl
  have hshort : ¬ (keyMax ≤ name.length ∨ threadEnvMax ≤ v.length) := by omega
  have hgood : ¬ (name = [] ∨ eq ∈ name) := not_or.mpr hname
  have hcall : sysSetenv s.block false name v = (0,s.block.eraseP (isFor name) ++ [name ++ eq :: v]) := by
    unfold sysSetenv
    rw [if_neg Bool.false_ne_true,if_neg hshort,if_neg hgood]
    exact if_neg (by omega)
  unfold writeThrough
  rw [hcall]
  rfl

/-- What a call returned and left behind is all right. -/
structure Good (s : Process) (p : Result × Process) : Prop where
  inv : Inv p.2
  unchanged : p.1.failed = true → p.2.block = s.block

lemma Good.rest (ht : Inv t) (h : t.block = s.block) (r : Result) : Good s (r,t) := ⟨ht,fun _ => h⟩

lemma Inv.store (hs : Inv s) (hi : s.inited = true) (hname : name ≠ [] ∧ eq ∉ name) (hlen : name.length < keyMax)
    (h0 : 0 ∉ name) (hv : 0 ∉ v) (hfits : s.Fits name v) {table : List Entry}
    (htable : table.Perm ((name ++ eq :: v) :: s.table.eraseP (isFor name))) (used : ℕ) :
    Inv { s with used := used,table := table,block := s.block.eraseP (isFor name) ++ [name ++ eq :: v] } where
  valid := by
    refine (hs.valid.sublist eraseP_sublist).add (hs.valid.notFor hname.2) (named_append hname.1 hname.2 hlen h0 hv) ?_
    unfold Fits at hfits
    rw [length_append,length_cons]
    omega
  same _ := by
    refine htable.trans (.trans ?_ (perm_append_singleton _ _).symm)
    exact (eraseP_distinct hs hi hname.2).cons _
  unread h := by
    dsimp only at h
    rw [hi] at h
    cases h

lemma Inv.setenv (hs : Inv s) (ok : s.SetOk initFault fault name v overwrite) (h0 : 0 ∉ name) (hv : 0 ∉ v) :
    Good s (s.setenv initFault fault name v overwrite) ∧
      ((s.setenv initFault fault name v overwrite).1 = .int (-1) (some enomem) → ¬ s.Fits name v) := by
  unfold Process.setenv
  by_cases hbad : badName name = true
  · rw [if_pos hbad]
    exact ⟨.rest hs rfl _,fun h => absurd (Result.int.inj h).2 (by decide)⟩
  rw [if_neg hbad]
  have hname := not_badName hbad
  obtain ⟨hinit,hdo⟩ := ok.resolve_left hbad
  obtain ⟨hs₁,hi,hblock,hused⟩ := hs.envInit hinit
  dsimp only
  generalize s.envInit initFault = s₁ at hs₁ hi hblock hused ⊢
  have hfind := hs₁.envFind hi name
  rw [hblock] at hfind
  by_cases hkeep : ((s₁.envFind name).isSome && !overwrite) = true
  · rw [if_pos hkeep]
    exact ⟨.rest hs₁ hblock _,fun h => nomatch h⟩
  rw [if_neg hkeep]
  have hset := hdo.resolve_left fun hold => hkeep (by rw [hfind,hold.1,hold.2]; rfl)
  by_cases hroom : s.arenaUsed + (name.length + 1 + v.length + 1) ≤ envArenaSize
  · rw [if_pos hroom] at hset
    obtain ⟨hlen,rfl,hfits⟩ := hset
    rw [← hused] at hroom
    rw [if_neg (not_lt.mpr hroom)]
    have hfits₁ : s₁.Fits name v := by
      unfold Fits
      rwa [hblock]
    have hstore := fun {table : List Entry} (htable : table.Perm ((name ++ eq :: v) :: s₁.table.eraseP (isFor name))) =>
      hs₁.store hi hname hlen h0 hv hfits₁ htable (s₁.used + (name.length + 1 + v.length + 1))
    have hwrite (table : List Entry) : { s₁ with used := s₁.used + (name.length + 1 + v.length + 1),table := table }.writeThrough false name v =
        (.int 0 none,{ s₁ with
          used := s₁.used + (name.length + 1 + v.length + 1)
          table := table
          block := s₁.block.eraseP (isFor name) ++ [name ++ eq :: v] }) := writeThrough_fits hname hlen hfits₁
    cases hidx : s₁.envFind name with
    | some i =>
      obtain ⟨herase,hlt⟩ := eraseIdx_envFind hidx
      dsimp only
      rw [hwrite]
      refine ⟨⟨hstore ?_,fun h => nomatch h⟩,fun h => nomatch h⟩
      rw [← herase]
      exact set_perm_cons_eraseIdx hlt _
    | none =>
      have hnone : ∀ e ∈ s₁.table, ¬ isFor name e = true := by
        rw [hidx] at hfind
        intro e he hfor
        have hany : s.block.any (isFor name) = true := by
          rw [← hblock,← (hs₁.same hi).any_eq]
          exact List.any_eq_true.mpr ⟨e,he,hfor⟩
        rw [hany] at hfind
        cases hfind
      have hcount : ¬ s₁.table.length ≥ envMaxEntries := by
        rw [(hs₁.same hi).length_eq]
        exact not_le.mpr hs₁.valid.length_lt
      dsimp only
      rw [if_neg hcount,hwrite]
      refine ⟨⟨hstore ?_,fun h => nomatch h⟩,fun h => nomatch h⟩
      rw [eraseP_of_forall_not hnone]
      exact perm_append_singleton _ _
  · rw [if_neg hroom] at hset
    rw [← hused] at hroom
    rw [if_pos (not_le.mp hroom)]
    exact ⟨.rest hs₁ hblock _,fun _ => hset⟩

lemma Inv.unsetInited (hs : Inv s) (hi : s.inited = true) (hname : name ≠ [] ∧ eq ∉ name)
    (ok : s.block.any (isFor name) = true → fault = false) :
    Good s (s.unsetenv false fault name) ∧ (s.unsetenv false fault name).2.inited = true ∧
      (s.unsetenv false fault name).2.table = s.table.eraseP (isFor name) ∧
      (s.block.any (isFor name) = true → (s.unsetenv false fault name).1 = .int 0 none) := by
  have hgood : ¬ badName name = true := by
    unfold badName
    rwa [decide_eq_true_eq,not_or]
  have hinit : s.envInit false = s := by
    unfold Process.envInit
    rw [if_pos hi]
  have hfind := hs.envFind hi name
  unfold Process.unsetenv
  rw [if_neg hgood,hinit]
  cases hidx : s.envFind name with
  | some i =>
    rw [hidx] at hfind
    have hany : s.block.any (isFor name) = true := hfind.symm
    obtain ⟨herase,_⟩ := eraseIdx_envFind hidx
    obtain ⟨e,he,hfor⟩ := List.any_eq_true.mp hany
    obtain ⟨k,w,hnamed⟩ := hs.valid.named e he
    have hlen : ¬ keyMax ≤ name.length := by
      rw [← (hnamed.isFor_iff hname.2).mp hfor]
      exact not_le.mpr hnamed.short
    have hcall : sysUnsetenv s.block fault name = (0,s.block.eraseP (isFor name)) := by
      unfold sysUnsetenv
      rw [ok hany,if_neg Bool.false_ne_true,if_neg hlen,if_pos hany]
    have hdrop : s.dropEntry name = { s with table := s.table.eraseP (isFor name) } := by
      unfold dropEntry
      rw [hidx,← herase]
    rw [hdrop]
    dsimp only
    rw [hcall]
    refine ⟨⟨⟨hs.valid.sublist eraseP_sublist,fun _ => eraseP_distinct hs hi hname.2,fun h => ?_⟩,fun h => nomatch h⟩,hi,rfl,fun _ => rfl⟩
    dsimp only at h
    rw [hi] at h
    cases h
  | none =>
    rw [hidx] at hfind
    have hany : s.block.any (isFor name) = false := hfind.symm
    have hcall : (sysUnsetenv s.block fault name).2 = s.block := by
      unfold sysUnsetenv
      rw [hany]
      split_ifs with _ _ h
      · rfl
      · rfl
      · exact h.elim
      · rfl
    have hdrop : s.dropEntry name = s := by
      unfold dropEntry
      rw [hidx]
    rw [hdrop]
    dsimp only
    rw [hcall]
    refine ⟨.rest hs rfl _,hi,?_,fun h => ?_⟩
    · refine (eraseP_of_forall_not fun e he hfor => ?_).symm
      have htrue : s.table.any (isFor name) = true := List.any_eq_true.mpr ⟨e,he,hfor⟩
      rw [(hs.same hi).any_eq,hany] at htrue
      cases htrue
    · rw [hany] at h
      cases h

lemma Inv.unsetenv (hs : Inv s)
    (ok : badName name = true ∨ s.InitOk initFault ∧ (s.block.any (isFor name) = true → fault = false)) :
    Good s (s.unsetenv initFault fault name) := by
  by_cases hbad : badName name = true
  · unfold Process.unsetenv
    rw [if_pos hbad]
    exact .rest hs rfl _
  · obtain ⟨hinit,hdo⟩ := ok.resolve_left hbad
    obtain ⟨hs₁,hi,hblock,_⟩ := hs.envInit hinit
    have heq : s.unsetenv initFault fault name = (s.envInit initFault).unsetenv false fault name := by
      have hagain : (s.envInit initFault).envInit false = s.envInit initFault := if_pos hi
      unfold Process.unsetenv
      rw [hagain,if_neg hbad,if_neg hbad]
    rw [heq]
    rw [← hblock] at hdo
    obtain ⟨hgood,_⟩ := hs₁.unsetInited hi (not_badName hbad) hdo
    exact ⟨hgood.inv,fun h => (hgood.unchanged h).trans hblock⟩

lemma Inv.putenv (hs : Inv s) {str : List UInt8} (h0 : 0 ∉ str)
    (ok : eq ∉ str ∨ s.SetOk initFault fault (keyOf str) (str.drop ((keyOf str).length + 1)) true) :
    Good s (s.putenv initFault fault str) := by
  unfold Process.putenv
  dsimp only
  split_ifs with hbad
  · exact .rest hs rfl _
  · rw [not_or,not_not] at hbad
    have hsub : 0 ∉ keyOf str := fun h => h0 ((takeWhile_sublist _).subset h)
    exact (hs.setenv (ok.resolve_left (not_not.mpr hbad.1)) hsub fun h => h0 (mem_of_mem_drop h)).1

lemma Inv.unsetNames (rest : List Entry) : ∀ {s : Process}, Inv s → s.inited = true → s.table = rest →
    ∃ t, unsetNames (rest.map fun e => (keyOf e,false)) (.int 0 none,s) = (.int 0 none,t) ∧ Inv t ∧ t.inited = true ∧
      t.table = [] := by
  induction rest with
  | nil => exact fun {s} hs hi htable => ⟨s,rfl,hs,hi,htable⟩
  | cons e rest ih =>
    intro s hs hi htable
    have hmem : e ∈ s.block := (hs.same hi).subset (htable ▸ mem_cons_self)
    obtain ⟨k,v,hnamed⟩ := hs.valid.named e hmem
    have hfor : isFor k e = true := (hnamed.isFor_iff hnamed.noEq).mpr rfl
    have hany : s.block.any (isFor k) = true := List.any_eq_true.mpr ⟨e,hmem,hfor⟩
    obtain ⟨hgood,hi',htable',hret⟩ := hs.unsetInited hi ⟨hnamed.nonempty,hnamed.noEq⟩ (fun _ => (rfl : false = false))
    rw [htable,eraseP_cons_of_pos hfor] at htable'
    obtain ⟨t,ht,hdone⟩ := ih hgood.inv hi' htable'
    refine ⟨t,?_,hdone⟩
    rw [map_cons,hnamed.key,Process.unsetNames]
    dsimp only
    rw [hret hany]
    exact ht

lemma Inv.clearenv (hs : Inv s) (hinit : s.InitOk initFault) (hkeys : ∀ e ∈ s.block, (keyOf e).length ≤ 63)
    (hfaults : ∀ i < s.block.length, faults i = false) : Good s (s.clearenv initFault faults) := by
  obtain ⟨hs₁,hi,hblock,_⟩ := hs.envInit hinit
  unfold Process.clearenv
  generalize s.envInit initFault = s₁ at hs₁ hi hblock ⊢
  dsimp only
  have hperm := hs₁.same hi
  rw [hblock] at hperm
  have hlen : s₁.table.length ≤ envMaxEntries := by
    rw [hperm.length_eq]
    exact Nat.le_of_lt hs.valid.length_lt
  have hnames : (((s₁.table.take envMaxEntries).map clearName).mapIdx fun i name => (name,faults i)) =
      s₁.table.map fun e => (keyOf e,false) := by
    rw [take_of_length_le hlen]
    refine ext_getElem (by simp) fun i hi₁ hi₂ => ?_
    rw [length_map] at hi₂
    rw [getElem_mapIdx,getElem_map,getElem_map,hfaults i (hperm.length_eq ▸ hi₂)]
    congr 1
    exact take_of_length_le (hkeys _ (hperm.subset (getElem_mem hi₂)))
  obtain ⟨t,ht,htinv,hti,httable⟩ := Inv.unsetNames s₁.table hs₁ hi rfl
  rw [hnames,ht]
  refine ⟨⟨htinv.valid,fun _ => ?_,fun h => ?_⟩,fun h => nomatch h⟩
  · have := htinv.same hti
    rwa [httable] at this
  · dsimp only at h
    rw [hti] at h
    cases h

lemma Inv.getenv (hs : Inv s) (hname : name ≠ [] ∧ eq ∉ name) (hinit : s.InitOk initFault) :
    ∃ value, (s.getenv initFault name).1 = .value value ∧ ∀ v, value = some v ↔ name ++ eq :: v ∈ s.block := by
  obtain ⟨hs₁,hi,hblock,_⟩ := hs.envInit hinit
  unfold Process.getenv
  rw [if_neg hname.1]
  generalize s.envInit initFault = s₁ at hs₁ hi hblock ⊢
  dsimp only
  have hfind := hs₁.envFind hi name
  have hperm := hs₁.same hi
  rw [hblock] at hfind hperm
  cases hidx : s₁.envFind name with
  | none =>
    rw [hidx] at hfind
    refine ⟨none,rfl,fun v => ⟨nofun,fun hmem => ?_⟩⟩
    have hany : s.block.any (isFor name) = true := List.any_eq_true.mpr ⟨_,hmem,(isFor_iff _).mpr ⟨v,rfl⟩⟩
    rw [← hfind] at hany
    cases hany
  | some i =>
    have hlt := (eraseIdx_envFind hidx).2
    have hfor : isFor name s₁.table[i] = true := by
      obtain ⟨_,hidx'⟩ := List.findIdx?_eq_some_iff_findIdx_eq.mp hidx
      subst hidx'
      exact findIdx_getElem
    obtain ⟨w,hw⟩ := (isFor_iff _).mp hfor
    have hmem : name ++ eq :: w ∈ s.block := hperm.subset (hw ▸ getElem_mem hlt)
    refine ⟨some w,?_,fun v => ⟨fun h => some.inj h ▸ hmem,fun hmem' => ?_⟩⟩
    · dsimp only
      rw [getElem?_eq_getElem hlt,hw,map_some]
      have hdrop : (name ++ eq :: w).dropWhile (· ≠ eq) = eq :: w := by
        rw [dropWhile_append_of_pos fun b hb => by
          rw [decide_eq_true_eq]
          rintro rfl
          exact hname.2 hb]
        rw [dropWhile_cons_of_neg (by simp)]
      rw [hdrop]
      rfl
    · have hnodup := hs.valid.distinct
      have hkeys : keyOf (name ++ eq :: w) = keyOf (name ++ eq :: v) := by
        rw [keyOf_append hname.2,keyOf_append hname.2]
      have := inj_on_of_nodup_map hnodup hmem hmem' hkeys
      rw [append_cancel_left_eq] at this
      cases this
      rfl

lemma Inv.getenv_good (hs : Inv s) (ok : name = [] ∨ s.InitOk initFault) : Good s (s.getenv initFault name) := by
  unfold Process.getenv
  split_ifs with hname
  · exact .rest hs rfl _
  · obtain ⟨hs₁,_,hblock,_⟩ := hs.envInit (ok.resolve_left hname)
    dsimp only
    split <;> exact .rest hs₁ hblock _

lemma step_good (hs : Inv s) {e : Event} (ok : s.Meets e) (h : s.step e = some (r,t)) : Good s (r,t) := by
  cases e with
  | getenv initFault name =>
    rw [← some.inj h]
    exact hs.getenv_good ok
  | setenv initFault fault name value overwrite =>
    rw [← some.inj h]
    exact (hs.setenv ok name.2 value.2).1
  | unsetenv initFault fault name =>
    rw [← some.inj h]
    exact hs.unsetenv ok
  | putenv initFault fault str =>
    rw [← some.inj h]
    exact hs.putenv str.2 ok
  | clearenv initFault faults =>
    rw [← some.inj h]
    exact hs.clearenv ok.1 ok.2.1 ok.2.2

lemma inv_start (h : Valid block) : Inv (start block) := ⟨h,nofun,fun _ => ⟨rfl,rfl⟩⟩

lemma inv_of_runs (h : Valid block) {es : List Event} (hrun : Runs step Meets (start block) es s) : Inv s :=
  hrun.invariant (fun _ _ _ _ hs ok now => (step_good hs ok now).inv) (inv_start h)

/-- In every run of calls that meet the condition, the variables of `env.h` are those of the block
after each call, `getenv` returns their values, a call that returns -1 changes neither, and `setenv`
runs out of memory only where the block has no room. -/
theorem env_coherent (h : Valid block) (es : List Event) (s : Process) (hrun : Runs step Meets (start block) es s) :
    s.visible.Perm s.block ∧
      (∀ initFault name, name ≠ [] → eq ∉ name → s.InitOk initFault →
        ∃ value, (s.getenv initFault name).1 = .value value ∧ ∀ v, value = some v ↔ name ++ eq :: v ∈ s.block) ∧
      (∀ e r t, s.Meets e → s.step e = some (r,t) → r.failed = true → t.visible.Perm s.visible ∧ t.block = s.block) ∧
      ∀ initFault fault name value overwrite t, s.Meets (.setenv initFault fault name value overwrite) →
        s.step (.setenv initFault fault name value overwrite) = some (.int (-1) (some enomem),t) → ¬ s.Fits name value := by
  have hs := inv_of_runs h hrun
  refine ⟨hs.visible_perm,fun _ _ hne hn hinit => hs.getenv ⟨hne,hn⟩ hinit,fun e r t ok now hfail => ?_,?_⟩
  · have hgood := step_good hs ok now
    have hblock := hgood.unchanged hfail
    refine ⟨hgood.inv.visible_perm.trans ?_,hblock⟩
    rw [hblock]
    exact hs.visible_perm.symm
  · intro initFault fault name value overwrite t ok now
    exact (hs.setenv ok name.2 value.2).2 (congrArg Prod.fst (some.inj now))

theorem env_coherent_set : ∃ es s, Runs step Meets (start []) es s ∧ s.block = [[65,eq,49]] ∧ s.visible.Perm s.block := by
  let e : Event := .setenv false false ⟨[65],by decide⟩ ⟨[49],by decide⟩ true
  have ok : (start []).Meets e := by
    refine .inr ⟨.inr (.inl rfl),.inr ?_⟩
    rw [if_pos (by decide)]
    refine ⟨by decide,rfl,?_⟩
    unfold Fits
    decide
  have now : (start []).step e = some (.int 0 none,⟨true,4,[[65,eq,49]],[[65,eq,49]]⟩) := rfl
  have hrun : Runs step Meets (start []) [e] ⟨true,4,[[65,eq,49]],[[65,eq,49]]⟩ := .cons ok now (.nil _)
  exact ⟨_,_,hrun,rfl,(env_coherent valid_nil _ _ hrun).1⟩

/-- The kernel refuses a name of 128 bytes, the table has it. -/
theorem long_name : ∃ es s, Runs step (fun _ _ => True) (start []) es s ∧ ¬ s.visible.Perm s.block := by
  let e : Event := .setenv false false ⟨replicate 128 65,by decide⟩ ⟨[49],by decide⟩ true
  have hstep : ((start []).step e).any (fun p => p.2.visible.length ≠ p.2.block.length) = true := by decide +kernel
  obtain ⟨⟨r,t⟩,now,hne⟩ := (Option.any_eq_true _ _).mp hstep
  exact ⟨[e],t,.cons trivial now (.nil t),fun hperm => of_decide_eq_true hne hperm.length_eq⟩

end Process
end VibeOS.Env

import VibeOS.Osfs2.Regrowth
import Mathlib.Data.List.Basic

/-! Paths and what they name: a resolver that splits the whole path and compares whole components,
and the two routines of `osfs2.c` that parse paths, beside it. -/
namespace VibeOS.Osfs2
open VibeOS.Storage List Option

/-- The components of a path: what is between the slashes, without the empty ones. -/
def components (p : List UInt8) : List (List UInt8) := (p.splitOn slash).filter (· ≠ [])

lemma components_append (a b : List UInt8) : components (a ++ slash :: b) = components a ++ components b := by
  unfold components
  rw [splitOn_append_cons_of_beq _ _ (beq_self_eq_true slash),filter_append]

@[simp] lemma components_nil : components [] = [] := rfl

@[simp] lemma components_slash (p : List UInt8) : components (slash :: p) = components p :=
  components_append [] p

@[simp] lemma components_dropWhile (p : List UInt8) : components (p.dropWhile (· == slash)) = components p := by
  induction p with
  | nil => rfl
  | cons c p ih =>
    rw [dropWhile_cons]
    split
    · next hc => rw [ih,eq_of_beq hc,components_slash]
    · rfl

lemma components_single {c : List UInt8} (hc : slash ∉ c) (h0 : c ≠ []) : components c = [c] := by
  unfold components splitOn
  rw [splitOnP_eq_singleton fun x hx => by
    rw [beq_eq_false_iff_ne]
    exact fun he => hc (he ▸ hx)]
  simp [h0]

lemma components_trimSlashes (p : List UInt8) : components (trimSlashes p) = components p := by
  induction p using reverseRecOn with
  | nil => rfl
  | append_singleton p c ih =>
    unfold trimSlashes at ih ⊢
    rw [reverse_append,reverse_singleton,singleton_append,dropWhile_cons]
    split
    · next hc => rw [ih,eq_of_beq hc,components_append,components_nil,append_nil]
    · rw [reverse_cons,reverse_reverse]

lemma mem_components {p c : List UInt8} (h : c ∈ components p) : c ⊆ p := by
  unfold components splitOn at h
  replace h := mem_of_mem_filter h
  induction p generalizing c with
  | nil =>
    rw [splitOnP_nil,mem_singleton] at h
    exact h ▸ List.Subset.refl _
  | cons b p ih =>
    rw [splitOnP_cons_eq_if_modifyHead] at h
    split at h
    · rcases List.mem_cons.mp h with rfl | h
      · exact nil_subset _
      · exact fun x hx => mem_cons_of_mem _ (ih h hx)
    · generalize hs : p.splitOnP (· == slash) = s at h ih
      cases s with
      | nil => exact absurd h not_mem_nil
      | cons a s =>
        rw [modifyHead_cons] at h
        rcases List.mem_cons.mp h with rfl | h
        · exact cons_subset_cons _ (ih mem_cons_self)
        · exact fun x hx => mem_cons_of_mem _ (ih (mem_cons_of_mem _ h) hx)

lemma components_cons {c : UInt8} {q : List UInt8} (hc : c ≠ slash) : components (c :: q) =
    (c :: q).takeWhile (· != slash) :: components ((c :: q).dropWhile (· != slash)) := by
  have hbne : (c != slash) = true := bne_iff_ne.mpr hc
  have hn : slash ∉ (c :: q).takeWhile (· != slash) := fun h =>
    absurd (List.all_eq_true.mp all_takeWhile _ h) (by simp)
  have h0 : (c :: q).takeWhile (· != slash) ≠ [] := by
    rw [takeWhile_cons,if_pos hbne]
    exact cons_ne_nil _ _
  conv_lhs => rw [← takeWhile_append_dropWhile (p := (· != slash)) (l := c :: q)]
  cases hd : (c :: q).dropWhile (· != slash) with
  | nil => rw [append_nil,components_single hn h0,components_nil]
  | cons b r =>
    have hb := head?_dropWhile_not (· != slash) (c :: q)
    rw [hd] at hb
    obtain rfl : b = slash := by simpa using hb
    rw [components_append,components_single hn h0,components_slash]
    rfl

lemma dropWhile_slash {p q : List UInt8} {c : UInt8} (h : p.dropWhile (· == slash) = c :: q) : c ≠ slash := by
  have hc := head?_dropWhile_not (· == slash) p
  rw [h] at hc
  simpa using hc

lemma pathNextComponent_none {p : List UInt8} : pathNextComponent p = none ↔ components p = [] := by
  rw [← components_dropWhile,pathNextComponent]
  cases h : p.dropWhile (· == slash) with
  | nil => simp
  | cons c q => simp [components_cons (dropWhile_slash h)]

lemma pathNextComponent_some {p comp rest : List UInt8} (h : pathNextComponent p = some (comp,rest)) :
    ∃ c, components p = c :: components rest ∧ comp = c.take (nameMax-1) := by
  rw [← components_dropWhile]
  unfold pathNextComponent at h
  cases hd : p.dropWhile (· == slash) with
  | nil => rw [hd] at h; cases h
  | cons c q =>
    rw [hd] at h
    obtain ⟨rfl,rfl⟩ := Prod.mk.inj (some.inj h)
    exact ⟨_,by rw [components_cons (dropWhile_slash hd),components_dropWhile],rfl⟩

lemma leafStart_spec (p : List UInt8) : leafStart p = 0 ∨ ∃ n, leafStart p = n+1 ∧ p[n]? = some slash := by
  unfold leafStart
  generalize List.range p.length = is
  have hfold (s : ℕ) (hs : s = 0 ∨ ∃ n, s = n+1 ∧ p[n]? = some slash) :
      (fun s => s = 0 ∨ ∃ n, s = n+1 ∧ p[n]? = some slash) (is.foldl
        (fun s i => if p[i]? = some slash ∧ ∃ c, p[i+1]? = some c ∧ c ≠ slash then i+1 else s) s) := by
    induction is generalizing s with
    | nil => exact hs
    | cons i is ih =>
      rw [foldl_cons]
      refine ih _ ?_
      split
      · next h => exact .inr ⟨i,rfl,h.1⟩
      · exact hs
  exact hfold 0 (.inl rfl)

lemma splitPath_components {p parent leaf : List UInt8} (h : splitPath p = some (parent,leaf)) :
    components p = components parent ++ [leaf] := by
  unfold splitPath at h
  dsimp only at h
  split_ifs at h with h1 h2 h3 h4
  obtain ⟨rfl,rfl⟩ := Prod.mk.inj (some.inj h)
  rw [not_or,length_eq_zero_iff] at h2
  rw [components_trimSlashes]
  have hleaf : components ((p.dropWhile (· == slash)).drop (leafStart (p.dropWhile (· == slash)))) =
      [trimSlashes ((p.dropWhile (· == slash)).drop (leafStart (p.dropWhile (· == slash))))] := by
    rw [← components_trimSlashes,components_single h3 h2.1]
  -- the slashes in front are part of the parent's path
  have hfront : p.take (p.length - (p.dropWhile (· == slash)).length + leafStart (p.dropWhile (· == slash))) =
      p.takeWhile (· == slash) ++ (p.dropWhile (· == slash)).take (leafStart (p.dropWhile (· == slash))) := by
    have hlen := congrArg List.length (takeWhile_append_dropWhile (p := (· == slash)) (l := p))
    rw [length_append] at hlen
    have hk : p.length - (p.dropWhile (· == slash)).length = (p.takeWhile (· == slash)).length := by omega
    rw [hk]
    exact (congrArg (List.take _) List.takeWhile_append_dropWhile.symm).trans (take_length_add_append ..)
  have hslashes (q : List UInt8) : components (p.takeWhile (· == slash) ++ q) = components q := by
    have hall : ∀ c ∈ p.takeWhile (· == slash), c = slash := fun c hc => by
      simpa using List.all_eq_true.mp all_takeWhile _ hc
    generalize p.takeWhile (· == slash) = s at hall
    induction s with
    | nil => rfl
    | cons c s ih =>
      rw [hall c mem_cons_self,cons_append,components_slash]
      exact ih fun d hd => hall d (mem_cons_of_mem _ hd)
  rw [hfront,hslashes,← components_dropWhile p]
  rcases leafStart_spec (p.dropWhile (· == slash)) with h0 | ⟨n,hn,hs⟩
  · rw [h0] at hleaf ⊢
    rw [take_zero,components_nil,nil_append,← hleaf,drop_zero]
  · rw [hn] at hleaf ⊢
    have hlt := (List.getElem?_eq_some_iff.mp hs).1
    have hget := (List.getElem?_eq_some_iff.mp hs).2
    conv_lhs => rw [← take_append_drop n (p.dropWhile (· == slash)),drop_eq_getElem_cons hlt,hget,
      components_append,hleaf]
    rw [take_succ_eq_append_getElem hlt,hget,components_append,components_nil,append_nil]

lemma splitPath_parent {p parent leaf : List UInt8} (h : splitPath p = some (parent,leaf)) : parent ⊆ p := by
  unfold splitPath at h
  dsimp only at h
  split_ifs at h
  obtain ⟨rfl,-⟩ := Prod.mk.inj (some.inj h)
  exact fun c hc => mem_of_mem_take (trimSlashes_subset _ hc)

/-- The name of a dirent, up to the NUL. -/
def Dirent.label (e : Dirent) : List UInt8 := ((List.range 60).map e.name.get).takeWhile (· ≠ 0)

/-- The inode that the first dirent of the directory with the whole name leads to. -/
def Vol.child (v : Vol) (d : UInt32) (name : List UInt8) : Option UInt32 :=
  if validInode d ∧ (v.inode d).type = typeDir then
    ((List.range (v.inode d).slots).find? fun m =>
      (v.slot (v.inode d) m).any fun e => e.ino ≠ 0 ∧ e.label = name).bind
      fun m => (v.slot (v.inode d) m).map Dirent.ino
  else none

def Vol.resolve (v : Vol) : UInt32 → List (List UInt8) → Option UInt32
  | d, [] => some d
  | d, c :: cs => (v.child d c).bind fun i => v.resolve i cs

/-- The result of a lookup: 0 for the root and where nothing is. -/
def lookedUp : Option UInt32 → UInt32
  | some i => if i = inodeRoot then 0 else i
  | none => 0

def Vol.reference (v : Vol) (path : List UInt8) : UInt32 := lookedUp (v.resolve inodeRoot (components path))

variable {v w : Vol} {x y : Inode} {i k d : UInt32} {m n : ℕ} {e : Dirent}

lemma strEqFrom_iff (a : Bytes 60) {s : List UInt8} (hs : 0 ∉ s) (k : ℕ) : strEqFrom a k s = true ↔
    ((range' k (60-k)).map a.get).takeWhile (· ≠ 0) = s := by
  induction s generalizing k with
  | nil =>
    rw [strEqFrom,beq_iff_eq]
    by_cases hk : k < 60
    · rw [show 60-k = (60-(k+1))+1 by omega,range'_succ,map_cons,takeWhile_cons]
      by_cases h0 : a.get k = 0 <;> simp [h0]
    · rw [show 60-k = 0 by omega,Bytes.get_of_ge _ (by omega)]
      simp
  | cons c s ih =>
    rw [mem_cons,not_or] at hs
    have hc : c ≠ 0 := Ne.symm hs.1
    rw [strEqFrom]
    by_cases hk : k < 60
    · rw [show 60-k = (60-(k+1))+1 by omega,range'_succ,map_cons,takeWhile_cons]
      by_cases h0 : a.get k = 0
      · rw [if_neg fun h => h.1 h0, beq_iff_eq,h0]
        simp [hs.1]
      · rw [if_pos ⟨h0,hc⟩,Bool.and_eq_true,beq_iff_eq,ih hs.2,if_pos (by simpa using h0),List.cons.injEq]
    · rw [show 60-k = 0 by omega,Bytes.get_of_ge _ (by omega),if_neg fun h => h.1 rfl]
      simp [hs.1]

lemma strEq_iff {s : List UInt8} (hs : 0 ∉ s) : strEq e.name s = true ↔ e.label = s := by
  rw [Dirent.label,range_eq_range']
  exact strEqFrom_iff e.name hs 0

lemma child_iff {name : List UInt8} (h0 : 0 ∉ name) : v.child d name = some i ↔ v.NamedIn d name i := by
  have hany (m : ℕ) : ((v.slot (v.inode d) m).any fun e => e.ino ≠ 0 ∧ e.label = name) = true ↔
      ∃ e, v.slot (v.inode d) m = some e ∧ e.ino ≠ 0 ∧ strEq e.name name = true := by
    cases h : v.slot (v.inode d) m with
    | none => simp
    | some e => simp [strEq_iff h0]
  unfold Vol.child
  by_cases hd : validInode d ∧ (v.inode d).type = typeDir
  swap
  · rw [if_neg hd]
    exact ⟨fun h => (by cases h),fun h => absurd ⟨h.1,h.2.1⟩ hd⟩
  rw [if_pos hd,bind_eq_some_iff]
  constructor
  · rintro ⟨m,hm,hi⟩
    obtain ⟨hp,hlt,hfirst⟩ := List.find?_range_eq_some.mp hm
    obtain ⟨e,hs,hu,hn⟩ := (hany m).mp hp
    rw [hs] at hi
    refine ⟨hd.1,hd.2,m,e,⟨⟨List.mem_range.mp hlt,hs,hu,hn⟩,fun j hj f hf => ?_⟩,some.inj hi⟩
    have hj := hfirst j hj
    rw [Bool.not_eq_true',← Bool.not_eq_true,hany] at hj
    exact hj ⟨f,hf.slot,hf.used,hf.called⟩
  · rintro ⟨-,-,m,e,hf,rfl⟩
    refine ⟨m,List.find?_range_eq_some.mpr ⟨(hany m).mpr ⟨e,hf.slot,hf.used,hf.called⟩,List.mem_range.mpr hf.lt,
      fun j hj => ?_⟩,by rw [hf.slot]; rfl⟩
    rw [Bool.not_eq_true',← Bool.not_eq_true,hany]
    rintro ⟨f,hs,hu,hn⟩
    exact hf.first j hj f ⟨hj.trans hf.lt,hs,hu,hn⟩

/-- A component as `walk` looks it up. -/
def cutName (c : List UInt8) : List UInt8 := c.take (nameMax-1)

lemma zero_notMem_cutName {p c : List UInt8} (hp : 0 ∉ p) (hc : c ∈ components p) : 0 ∉ cutName c :=
  fun h => hp (mem_components hc (mem_of_mem_take h))

lemma components_rest_subset {p comp rest : List UInt8} (h : pathNextComponent p = some (comp,rest)) :
    rest ⊆ p := by
  unfold pathNextComponent at h
  cases hd : p.dropWhile (· == slash) with
  | nil => rw [hd] at h; cases h
  | cons c q =>
    rw [hd] at h
    obtain ⟨-,rfl⟩ := Prod.mk.inj (some.inj h)
    refine ((dropWhile_sublist _).trans ((dropWhile_sublist _).trans ?_)).subset
    rw [← hd]
    exact dropWhile_sublist _

lemma follows_iff {p : List UInt8} (hp : 0 ∉ p) : v.Follows d p i ↔
    v.resolve d ((components p).map cutName) = some i := by
  induction hn : p.length using Nat.strong_induction_on generalizing d p with
  | h n ih =>
    cases hnext : pathNextComponent p with
    | none =>
      rw [pathNextComponent_none.mp hnext]
      constructor
      · intro h
        cases h with
        | here => rfl
        | step next => rw [hnext] at next; cases next
      · intro h
        cases h
        exact .here hnext
    | some cr =>
      obtain ⟨comp,rest⟩ := cr
      obtain ⟨c,hc,rfl⟩ := pathNextComponent_some hnext
      have hrest : 0 ∉ rest := fun h => hp (components_rest_subset hnext h)
      have h0 : 0 ∉ cutName c := zero_notMem_cutName hp (hc ▸ mem_cons_self)
      have ih' (k : UInt32) := ih _ (hn ▸ pathNextComponent_length hnext) (d := k) hrest rfl
      rw [hc,map_cons,Vol.resolve,bind_eq_some_iff]
      constructor
      · intro h
        cases h with
        | here last => rw [hnext] at last; cases last
        | step next named follows =>
          rw [hnext] at next
          obtain ⟨rfl,rfl⟩ := Prod.mk.inj (some.inj next)
          exact ⟨_,(child_iff h0).mpr named,(ih' _).mp follows⟩
      · rintro ⟨k,hk,hr⟩
        exact .step hnext ((child_iff h0).mp hk) ((ih' k).mpr hr)

/-- Where `walk` gets to: it looks at what was in its buffer if the path is slashes only, and at
components that are cut off otherwise. -/
def Vol.reached (v : Vol) (junk path : List UInt8) : Option UInt32 :=
  if components path = [] ∧ 2 ≤ path.length ∧ junk ≠ [] then v.child inodeRoot junk
  else v.resolve inodeRoot ((components path).map cutName)

lemma walks_iff {junk p : List UInt8} (hj : 0 ∉ junk) (hp : 0 ∉ p) :
    v.Walks junk (some p) i ↔ v.reached junk p = some i := by
  have hshort : p = [] ∨ p = [slash] ↔ components p = [] ∧ p.length < 2 := by
    constructor
    · rintro (rfl | rfl)
      · exact ⟨rfl,by decide⟩
      · exact ⟨components_slash [],by decide⟩
    · rintro ⟨hc,hlt⟩
      match p with
      | [] => exact .inl rfl
      | [c] =>
        by_cases hs : c = slash
        · exact .inr (hs ▸ rfl)
        · rw [components_cons hs] at hc
          cases hc
      | _ :: _ :: _ => exact absurd hlt (by simp)
  unfold Vol.Walks Vol.reached
  dsimp only
  by_cases h : p = [] ∨ p = [slash]
  · obtain ⟨hc,hlt⟩ := hshort.mp h
    rw [if_pos h,if_neg fun hr => absurd hr.2.1 (by omega), hc]
    exact ⟨fun hi => congrArg some hi.symm,fun hi => (some.inj hi).symm⟩
  rw [if_neg h]
  by_cases hr : components p = [] ∧ junk ≠ []
  · rw [if_pos (hr.imp_left pathNextComponent_none.mpr),if_pos ⟨hr.1,by_contra fun hlt => h (hshort.mpr ⟨hr.1,by omega⟩),hr.2⟩,child_iff hj]
  · rw [if_neg fun h' => hr (h'.imp_left pathNextComponent_none.mp), if_neg fun h' => hr ⟨h'.1,h'.2.2⟩,
      follows_iff hp]

lemma Sys.Sound.lookup {σ : Sys} (h : σ.Sound) (junk path : CString) :
    (σ.exec (osfs2Lookup junk.val (some path))).1 = lookedUp (σ.vol.reached junk.val path.val) := by
  refine ((Does.osfs2Lookup (Q := fun r _ => r = lookedUp (σ.vol.reached junk.val path.val)) h.owned
    (fun r hr => ?_) fun hno => ?_).exec h.mounts).2
  · rw [(walks_iff junk.2 path.2).mp hr]
    rfl
  · cases hr : σ.vol.reached junk.val path.val with
    | none => rfl
    | some r => exact absurd ((walks_iff junk.2 path.2).mpr hr) (hno r)

def Vol.Labelled (v : Vol) : Prop := ∀ d m e, v.Names d m e → e.label.length < nameMax

lemma label_newDirent (ino : UInt32) {a : List UInt8} (ha : 0 ∉ a) (hlen : a.length < nameMax) :
    (newDirent ino a).label = a :=
  (strEq_iff ha).mp ((strEq_newDirent ino ha hlen ha).mpr rfl)

lemma Vol.Renames.labelled {c : Call} {r : ℤ} (h : v.Renames c r w) (hl : v.Labelled) : w.Labelled := by
  intro d m e hn
  cases h with
  | keeps keeps => exact hl d m e (keeps.names hn)
  | create split links | mkdir split links =>
    rcases links.names.mp hn with ⟨-,-,rfl⟩ | ⟨-,hv⟩
    · obtain ⟨h0,-,hlen⟩ := split.leaf
      rwa [label_newDirent _ h0 hlen]
    · exact hl d m e hv
  | unlink _ _ gone | rmdir _ _ _ gone => exact hl d m e (gone.names.mp hn).2.2

lemma labelled_after (es : List Event) : (fresh.after es).vol.Named ∧ (fresh.after es).vol.Labelled :=
  (fresh_sound.after (I := fun v => v.Named ∧ v.Labelled)
    (fun _ _ _ _ ho hv hh => ⟨(hh.renames ho hv.1).named hv.1,(hh.renames ho hv.1).labelled hv.2⟩)
    (fresh_vol.symm ▸ ⟨imageVol_named,fun d m e hn => absurd hn (imageVol_no_names d m e)⟩) es).2

section Named
variable (hN : v.Named)
include hN

lemma Vol.Named.child {name : List UInt8} (h0 : 0 ∉ name) (hl : v.live d = true) (hc : v.child d name = some i) :
    v.live i = true ∧ validInode i ∧ i ≠ inodeRoot := by
  obtain ⟨-,hd,m,e,hf,rfl⟩ := (child_iff h0).mp hc
  have hn := hf.toEntry.names hl hd
  exact ⟨hN.live hn,hN.valid hn,hN.ne_root hn⟩

lemma Vol.Named.resolve {cs : List (List UInt8)} (h0 : ∀ c ∈ cs, 0 ∉ c) (hl : v.live d = true)
    (hr : v.resolve d cs = some i) : v.live i = true ∧ (cs ≠ [] → validInode i ∧ i ≠ inodeRoot) := by
  induction cs generalizing d with
  | nil =>
    cases hr
    exact ⟨hl,fun h => absurd rfl h⟩
  | cons c cs ih =>
    obtain ⟨k,hk,hr⟩ := Option.bind_eq_some_iff.mp hr
    obtain ⟨hlk,hvk,hnk⟩ := hN.child (h0 c mem_cons_self) hl hk
    obtain ⟨hli,hi⟩ := ih (fun c hc => h0 c (mem_cons_of_mem _ hc)) hlk hr
    refine ⟨hli,fun _ => ?_⟩
    cases cs with
    | nil =>
      cases hr
      exact ⟨hvk,hnk⟩
    | cons => exact hi (cons_ne_nil _ _)

lemma Vol.Labelled.resolve_none (h : v.Labelled) {cs : List (List UInt8)} (h0 : ∀ c ∈ cs, 0 ∉ c)
    (hl : v.live d = true) (hlong : ∃ c ∈ cs, nameMax ≤ c.length) : v.resolve d cs = none := by
  induction cs generalizing d with
  | nil => obtain ⟨c,hc,-⟩ := hlong; exact absurd hc not_mem_nil
  | cons c cs ih =>
    have h0c := h0 c mem_cons_self
    rw [Vol.resolve,bind_eq_none_iff]
    intro k hk
    refine ih (fun c hc => h0 c (mem_cons_of_mem _ hc)) (hN.child h0c hl hk).1 ?_
    obtain ⟨b,hb,hlen⟩ := hlong
    rcases List.mem_cons.mp hb with rfl | hb
    · obtain ⟨-,hd,m,e,hf,-⟩ := (child_iff h0c).mp hk
      have hlt := h d m e (hf.toEntry.names hl hd)
      rw [(strEq_iff h0c).mp hf.called] at hlt
      omega
    · exact ⟨b,hb,hlen⟩

end Named

/-- Where a creation puts the name: a slot that no entry had, in a directory without the name. -/
structure Vol.Places (v : Vol) (parent : UInt32) (n : ℕ) (ino type : UInt32) (name : List UInt8) (w : Vol) :
    Prop extends v.Links parent n ino type name w where
  slot_le : n ≤ (v.inode parent).slots
  unused : ∀ a e, ¬ v.Entry (v.inode parent) a n e
  absent : ∀ k e, ¬ v.Entry (v.inode parent) name k e

lemma Creates.places {parent type r : UInt32} {name : List UInt8} (h : Creates v parent name type r w)
    (ho : v.Owned) (hp : v.live parent = true) (h0 : r ≠ 0) :
    (w = v ∧ v.NamedIn parent name r) ∨ ∃ n, v.Places parent n r type name w := by
  cases h with
  | badName | noParent | taken | noInode | noRoom => exact absurd rfl h0
  | existing hit hdir hvalid => exact .inl ⟨rfl,hvalid,hdir,_,_,hit,rfl⟩
  | @made _ _ n _ _ _ _ _ hdir new found slot =>
    refine .inr ⟨n,slot.links ho hp hdir new found,?_,fun a e he => ?_,found.miss rfl⟩
    · cases slot with
      | reuse hn => exact (found.empty n hn).1.le
      | extend | block => exact le_rfl
    · cases slot with
      | reuse hn =>
        obtain ⟨-,f,hf,hz⟩ := found.empty n hn
        rw [he.slot] at hf
        exact he.used (some.inj hf ▸ hz)
      | extend | block => exact absurd he.lt (lt_irrefl _)

section Places
variable {parent ino type : UInt32} {name : List UInt8} (h : v.Places parent n ino type name w)
include h

lemma Vol.Places.dir (hl : v.live d = true) : (w.inode d).type = (v.inode d).type ∧ w.live d = true := by
  have hne : d ≠ ino := fun he => by
    rw [he,h.new.free] at hl
    cases hl
  refine ⟨h.type d hne,?_⟩
  rw [h.live,Function.update_of_ne hne]
  exact hl

lemma Vol.Places.namedIn {c : List UInt8} (hc : 0 ∉ c) (hn : 0 ∉ name) (hlen : name.length < nameMax)
    (hl : v.live d = true) (hd : v.NamedIn d c i) : w.NamedIn d c i := by
  obtain ⟨htype,hlw⟩ := h.dir hl
  obtain ⟨hv,hdir,k,e,hf,he⟩ := hd
  have hdirw : (w.inode d).type = typeDir := htype.trans hdir
  have hle : (v.inode d).slots ≤ (w.inode d).slots := by
    by_cases hp : d = parent
    · exact hp ▸ h.le
    · rw [(h.other d (fun he => by rw [he,h.new.free] at hl; cases hl) hp).inode]
  refine ⟨hv,hdirw,k,e,⟨⟨hf.lt.trans_le hle,?_,hf.used,hf.called⟩,fun m hm f hfm => ?_⟩,he⟩
  · refine (h.names.mpr (.inr ⟨?_,hf.toEntry.names hl hdir⟩)).slot
    rintro ⟨rfl,rfl⟩
    exact h.unused _ _ hf.toEntry
  · rcases h.names.mp (hfm.names hlw hdirw) with ⟨rfl,-,rfl⟩ | ⟨-,hold⟩
    · obtain rfl := (strEq_newDirent ino hn hlen hc).mp hfm.called
      exact h.absent _ _ hf.toEntry
    · exact hf.first m hm f ⟨hm.trans hf.lt,hold.slot,hold.used,hfm.called⟩

lemma Vol.Places.new_namedIn (hn : 0 ∉ name) (hlen : name.length < nameMax) (hv : validInode parent)
    (hl : v.live parent = true) (hdir : (v.inode parent).type = typeDir) : w.NamedIn parent name ino := by
  obtain ⟨htype,hlw⟩ := h.dir hl
  have hdirw : (w.inode parent).type = typeDir := htype.trans hdir
  have hnew : w.Names parent n (newDirent ino name) := h.names.mpr (.inl ⟨rfl,rfl,rfl⟩)
  refine ⟨hv,hdirw,n,_,⟨⟨h.lt,hnew.slot,hnew.used,(strEq_newDirent ino hn hlen hn).mpr rfl⟩,fun m hm f hf => ?_⟩,rfl⟩
  rcases h.names.mp (hf.names hlw hdirw) with ⟨-,he,-⟩ | ⟨-,hold⟩
  · omega
  · exact h.absent m f ⟨hm.trans_le h.slot_le,hold.slot,hold.used,hf.called⟩

lemma Vol.Places.resolve (hN : v.Named) (hn : 0 ∉ name) (hlen : name.length < nameMax) {cs : List (List UInt8)}
    (hcs : ∀ c ∈ cs, 0 ∉ c) (hl : v.live d = true) (hr : v.resolve d cs = some i) : w.resolve d cs = some i := by
  induction cs generalizing d with
  | nil => exact hr
  | cons c cs ih =>
    obtain ⟨k,hk,hr⟩ := Option.bind_eq_some_iff.mp hr
    have hc := hcs c mem_cons_self
    have hkw := (child_iff hc).mpr (h.namedIn hc hn hlen hl ((child_iff hc).mp hk))
    rw [Vol.resolve,hkw]
    exact ih (fun c hc => hcs c (mem_cons_of_mem _ hc)) (hN.child hc hl hk).1 hr

end Places

lemma resolve_append (v : Vol) (cs ds : List (List UInt8)) :
    v.resolve d (cs ++ ds) = (v.resolve d cs).bind fun i => v.resolve i ds := by
  induction cs generalizing d with
  | nil => rfl
  | cons c cs ih =>
    rw [cons_append,Vol.resolve,Vol.resolve,bind_assoc]
    exact congrArg _ (funext fun i => ih)

lemma cutName_of_lt {c : List UInt8} (h : c.length < nameMax) : cutName c = c :=
  take_of_length_le (by unfold nameMax at h ⊢; omega)

lemma Creates.reached {parent type r : UInt32} {leaf : List UInt8} {path : CString} (hN : v.Named) (ho : v.Owned)
    (hp : v.Parent (some path.val) parent leaf) (h : Creates v parent leaf type r w) (h0 : r ≠ 0) (junk : List UInt8) :
    w.reached junk path.val = some r ∧ r ≠ inodeRoot := by
  have hl := hN.parent hp
  obtain ⟨hz,hne,hlen⟩ := Vol.Parent.leaf (show v.Parent (Option.map Subtype.val (some path)) parent leaf from hp)
  obtain ⟨p,q,hpath,hsplit,hwalk,hvalid,hdir⟩ := hp
  obtain rfl := some.inj hpath
  have hcs := splitPath_components hsplit
  have hq0 : ∀ c ∈ (components q).map cutName, 0 ∉ c := by
    intro c hc
    obtain ⟨b,hb,rfl⟩ := List.mem_map.mp hc
    exact zero_notMem_cutName path.2 (hcs ▸ mem_append_left _ hb)
  have hq : v.resolve inodeRoot ((components q).map cutName) = some parent := by
    have hqz : 0 ∉ q := fun h => path.2 (splitPath_parent hsplit h)
    have hr : v.reached [] q = some parent := (walks_iff not_mem_nil hqz).mp hwalk
    rwa [Vol.reached,if_neg fun h => h.2.2 rfl] at hr
  rw [Vol.reached,if_neg fun h => absurd h.1 (by rw [hcs]; simp), hcs,map_append,resolve_append,
    map_singleton,cutName_of_lt hlen]
  rcases h.places ho hl h0 with ⟨rfl,hin⟩ | ⟨n,hpl⟩
  · rw [hq,bind_some,Vol.resolve,(child_iff hz).mpr hin]
    exact ⟨rfl,(hN.child hz hl ((child_iff hz).mpr hin)).2.2⟩
  · rw [hpl.resolve hN hz hlen hq0 hN.rootLive hq,bind_some,Vol.resolve,
      (child_iff hz).mpr (hpl.new_namedIn hz hlen hvalid hl hdir)]
    exact ⟨rfl,hpl.new.ne_root⟩

/-- What the path functions promise for a path, with `junk` on the stack where `walk` has its
component buffer. -/
structure Sys.Exact (σ : Sys) (junk path : CString) : Prop where
  lookup : (σ.exec (osfs2Lookup junk.val (some path))).1 = σ.vol.reference path.val
  create : ∀ ino ≠ 0, (σ.exec (osfs2Create (some path))).1 = ino →
    ((σ.exec (osfs2Create (some path))).2.exec (osfs2Lookup junk.val (some path))).1 = ino
  mkdir : ∀ ino ≠ 0, (σ.exec (osfs2Mkdir (some path))).1 = ino →
    ((σ.exec (osfs2Mkdir (some path))).2.exec (osfs2Lookup junk.val (some path))).1 = ino

/-- Neither the buffer that is not written nor the cut in it matters. -/
structure Vol.Clear (v : Vol) (junk path : List UInt8) : Prop where
  slashes : components path = [] → 2 ≤ path.length → junk = [] ∨ v.child inodeRoot junk = none
  long : (∃ c ∈ components path, nameMax ≤ c.length) →
    v.resolve inodeRoot ((components path).map cutName) = none

lemma Sys.Sound.created {σ : Sys} (h : σ.Sound) (hN : σ.vol.Named) (junk path : CString) (type : UInt32)
    (ino : UInt32) (h0 : ino ≠ 0) (hr : (σ.exec (createAt type (some path))).1 = ino) :
    ((σ.exec (createAt type (some path))).2.exec (osfs2Lookup junk.val (some path))).1 = ino := by
  have hdoes : Does (createAt type (some path)) σ.vol fun r w => w.Owned ∧ (r ≠ 0 → ∀ junk : List UInt8,
      w.reached junk path.val = some r ∧ r ≠ inodeRoot) :=
    Does.createAt h.owned (fun _ => ⟨h.owned,fun hne => absurd rfl hne⟩) fun parent leaf hp r w hc =>
      ⟨hc.owned h.owned,fun hne => hc.reached hN h.owned hp hne⟩
  obtain ⟨hm,hq⟩ := hdoes.exec h.mounts
  have hs : (σ.exec (createAt type (some path))).2.Sound := ⟨hm,hq.1⟩
  obtain ⟨hreach,hroot⟩ := hq.2 (hr ▸ h0) junk.val
  rw [hs.lookup,hreach,lookedUp,if_neg hroot,hr]

lemma Vol.Named.lookedUp_eq_zero (hN : v.Named) {cs : List (List UInt8)} (h0 : ∀ c ∈ cs, 0 ∉ c) (hcs : cs ≠ [])
    (h : lookedUp (v.resolve inodeRoot cs) = 0) : v.resolve inodeRoot cs = none := by
  cases hr : v.resolve inodeRoot cs with
  | none => rfl
  | some i =>
    obtain ⟨hvalid,hroot⟩ := (hN.resolve h0 hN.rootLive hr).2 hcs
    rw [hr,lookedUp,if_neg hroot] at h
    exact absurd h hvalid.1

lemma reached_iff (hN : v.Named) (hL : v.Labelled) {junk path : List UInt8} (hj : 0 ∉ junk) (hp : 0 ∉ path) :
    lookedUp (v.reached junk path) = v.reference path ↔ v.Clear junk path := by
  have h0 : ∀ c ∈ components path, 0 ∉ c := fun c hc h => hp (mem_components hc h)
  have h0' : ∀ c ∈ (components path).map cutName, 0 ∉ c := by
    intro c hc
    obtain ⟨b,hb,rfl⟩ := List.mem_map.mp hc
    exact zero_notMem_cutName hp hb
  unfold Vol.reached Vol.reference
  by_cases hs : components path = [] ∧ 2 ≤ path.length ∧ junk ≠ []
  · rw [if_pos hs,hs.1]
    change lookedUp (v.child inodeRoot junk) = 0 ↔ _
    constructor
    · intro h
      refine ⟨fun _ _ => .inr ?_,fun ⟨c,hc,_⟩ => absurd (hs.1 ▸ hc) not_mem_nil⟩
      cases hc : v.child inodeRoot junk with
      | none => rfl
      | some i =>
        obtain ⟨-,hvalid,hroot⟩ := hN.child hj hN.rootLive hc
        rw [hc,lookedUp,if_neg hroot] at h
        exact absurd h hvalid.1
    · intro h
      rw [(h.slashes hs.1 hs.2.1).resolve_left hs.2.2]
      rfl
  rw [if_neg hs]
  have hjunk : components path = [] → 2 ≤ path.length → junk = [] ∨ v.child inodeRoot junk = none :=
    fun hc hl => .inl (by_contra fun hne => hs ⟨hc,hl,hne⟩)
  by_cases hlong : ∃ c ∈ components path, nameMax ≤ c.length
  · have hne : (components path).map cutName ≠ [] := by
      obtain ⟨c,hc,-⟩ := hlong
      exact List.map_eq_nil_iff.not.mpr (ne_nil_of_mem hc)
    rw [hL.resolve_none hN h0 hN.rootLive hlong]
    change _ = 0 ↔ _
    exact ⟨fun h => ⟨hjunk,fun _ => hN.lookedUp_eq_zero h0' hne h⟩,fun h => by rw [h.long hlong]; rfl⟩
  · have hmap : (components path).map cutName = components path := by
      refine (map_congr_left fun c hc => ?_).trans (List.map_id _)
      exact cutName_of_lt (by_contra fun hge => hlong ⟨c,hc,by omega⟩)
    rw [hmap]
    exact ⟨fun _ => ⟨hjunk,fun h => absurd h hlong⟩,fun _ => rfl⟩

/-- In every reachable state, the path functions are exact for a path unless it has nothing but
slashes, two or more, and the buffer names something by chance, or it has a component too long for
a name and the cut components lead somewhere. -/
theorem path_exact_iff (es : List Event) (junk path : CString) :
    (fresh.after es).Exact junk path ↔ (fresh.after es).vol.Clear junk.val path.val := by
  have hs := (named_after es).1
  obtain ⟨hN,hL⟩ := labelled_after es
  rw [← reached_iff hN hL junk.2 path.2,← hs.lookup]
  exact ⟨fun h => h.lookup,fun h => ⟨h,hs.created hN junk path typeFile,hs.created hN junk path typeDir⟩⟩

def letters (n : ℕ) : CString := ⟨replicate n 97,fun h => absurd (eq_of_mem_replicate h) (by decide)⟩

lemma components_letters {n : ℕ} (hn : n ≠ 0) : components (letters n).val = [(letters n).val] :=
  components_single (fun h => absurd (eq_of_mem_replicate h) (by decide))
    (fun h => hn (by simpa [letters] using h))

lemma splitPath_letters : splitPath (letters 59).val = some ([],(letters 59).val) := by decide

lemma Creates.first {name : List UInt8} {r : UInt32} (h : Creates imageVol inodeRoot name typeFile r w)
    (h0 : name.length ≠ 0) (hlen : name.length < nameMax) : r ≠ 0 := by
  have hL := imageVol_letters
  have hno {m : ℕ} {e : Dirent} : ¬ imageVol.Entry (imageVol.inode inodeRoot) name m e :=
    fun he => imageVol_no_names _ _ _ (he.names imageVol_named.rootLive hL.rootDir)
  cases h with
  | badName hbad => omega
  | noParent hbad => exact absurd ⟨by decide,hL.rootDir⟩ hbad
  | taken hit | existing hit => exact absurd hit.toEntry hno
  | noInode hall =>
    have hlive := (hL.live 2 (by decide) (by decide)).mp (hall 2 (by decide) (by decide))
    exact absurd hlive (by decide)
  | noRoom _ _ why =>
    rw [hL.slots] at why
    exact why.elim (fun hfar => absurd hfar (by decide)) fun hf => absurd hf hL.not_full
  | made _ _ _ _ new => exact new.valid.1

/-- A name one byte too long is found as the name that it starts with. -/
theorem path_exact_fails :
    ¬ (fresh.after [.call (.create (some (letters 59)))]).Exact (letters 0) (letters 60) := by
  intro hex
  have hc := ((path_exact_iff _ _ _).mp hex).long
  rw [components_letters (by decide)] at hc
  have hnone := hc ⟨_,mem_singleton_self _,by decide⟩
  have hh := (fresh_sound.call (.create (some (letters 59)))).2
  rw [fresh_vol] at hh
  change (fresh.call (.create (some (letters 59)))).2.vol.resolve inodeRoot [(letters 59).val] = none at hnone
  generalize (fresh.call (.create (some (letters 59)))).1 = r, (fresh.call (.create (some (letters 59)))).2.vol = w
    at hh hnone
  generalize hp : some (letters 59) = path at hh
  cases hh with
  | createMiss miss =>
    subst hp
    exact miss inodeRoot _ ⟨_,_,rfl,splitPath_letters,rfl,by decide,imageVol_letters.rootDir⟩
  | @create _ parent leaf r _ split made =>
    subst hp
    obtain ⟨p,q,hpath,hs,hw,-⟩ := id split
    obtain rfl := some.inj hpath
    rw [splitPath_letters] at hs
    obtain ⟨rfl,rfl⟩ := Prod.mk.inj (some.inj hs)
    obtain rfl : parent = inodeRoot := hw
    have hr := (made.reached imageVol_named imageVol_owned split (made.first (by decide) (by decide)) []).1
    rw [Vol.reached,if_neg fun h => h.2.2 rfl, components_letters (by decide)] at hr
    exact absurd (hnone.symm.trans hr) (by simp)

end VibeOS.Osfs2

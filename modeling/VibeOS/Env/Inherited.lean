import VibeOS.Env.Blob

/-! The environments of all threads: what each of them has set, and what its children inherit. -/
namespace VibeOS.Env
open Function List Option
open VibeOS

structure Threads where
  env : ℕ → Option Blob

/-- What the threads have set, by what the calls returned to them. -/
abbrev Vars := ℕ → List UInt8 → Option (List UInt8)

inductive Call
  | setenv (fault : Bool) (key val : CString)
  | unsetenv (fault : Bool) (key : CString)
  | getenv (fault bufFault : Bool) (key : CString) (cap : ℤ)

/-- `thread_create`, fork and spawn copy the block of a thread to a new one; the first threads start empty. What
the memory of a new thread held before is `garbage`. -/
inductive ThreadEvent
  | call (th : ℕ) (c : Call)
  | boot (th : ℕ) (garbage : Blob)
  | child (th parent : ℕ) (garbage : Blob)

/-- What a call returns, and the value that `sys_getenv` copies out. -/
abbrev Reply := ℤ × Option (List UInt8)

def Call.run (blob : Blob) : Call → Reply × Blob
  | .setenv fault key val => let r := blobSetenv blob fault key val; ((r.1,none),r.2)
  | .unsetenv fault key => let r := blobUnsetenv blob fault key; ((r.1,none),r.2)
  | .getenv fault bufFault key cap => (blobGetenv blob fault bufFault key cap,blob)

/-- What a call that was answered has done to the variables of its thread. -/
def Call.effect (vars : List UInt8 → Option (List UInt8)) : Call → Reply → List UInt8 → Option (List UInt8)
  | .setenv _ key val, r => if r.1 < 0 then vars else update vars key.val (some val.val)
  | .unsetenv _ key, r => if r.1 < 0 then vars else update vars key.val none
  | .getenv .., _ => vars

structure State where
  threads : Threads
  vars : Vars

namespace State

def setThread (s : State) (th : ℕ) (blob : Blob) (vars : List UInt8 → Option (List UInt8)) : State :=
  ⟨⟨update s.threads.env th (some blob)⟩,update s.vars th vars⟩

def step (s : State) : ThreadEvent → Option (Option Reply × State)
  | .call th c => (s.threads.env th).map fun blob =>
    let (r,blob) := c.run blob
    (some r,s.setThread th blob (c.effect (s.vars th) r))
  | .boot th garbage => if (s.threads.env th).isSome then none else
    some (none,s.setThread th (update (update garbage 0 0) 1 0) fun _ => none)
  | .child th parent garbage => if (s.threads.env th).isSome then none else
    (s.threads.env parent).map fun blob => (none,s.setThread th (inheritEnv blob garbage) (s.vars parent))

def initial : State := ⟨⟨fun _ => none⟩,fun _ _ => none⟩

end State

def lookup (block : List Entry) (key : List UInt8) : Option (List UInt8) :=
  (block.find? (isFor key)).map (·.drop (key.length + 1))

/-- `sys_getenv` over the value of the variable. -/
def getFrom (value : Option (List UInt8)) (fault bufFault : Bool) (keyLen : ℕ) (cap : ℤ) : Reply :=
  if cap ≤ 0 then (-einval,none)
  else if fault then (-efault,none)
  else if threadEnvMax ≤ keyLen then (-enametoolong,none)
  else match value with
    | none => (-enoent,none)
    | some v =>
      if cap < v.length + 1 then (-einval,none)
      else if bufFault then (-efault,none)
      else (v.length + 1,some v)

variable {blob : Blob} {key val v : List UInt8} {block pre post : List Entry} {e : Entry} {fault bufFault : Bool} {cap : ℤ}

lemma lookup_none (h : ∀ e ∈ block, isFor key e = false) : lookup block key = none := by
  rw [lookup,List.find?_eq_none.mpr fun e he => by rw [h e he]; exact Bool.false_ne_true]
  rfl

lemma lookup_middle (hpre : ∀ x ∈ pre, isFor key x = false) (he : e = key ++ eq :: v) :
    lookup (pre ++ e :: post) key = some v := by
  have hfor : isFor key e = true := (isFor_iff e).mpr ⟨v,he⟩
  have hnone : pre.find? (isFor key) = none := List.find?_eq_none.mpr fun x hx => by rw [hpre x hx]; exact Bool.false_ne_true
  rw [lookup,find?_append,hnone,none_or,find?_cons_of_pos hfor,map_some,he,
    List.drop_append,drop_of_length_le (by omega)]
  simp

lemma blobGetenv_eq (h : Packs blob block) (hv : Valid block) (fault bufFault : Bool) (hk : 0 ∉ key) (cap : ℤ) :
    blobGetenv blob fault bufFault key cap = getFrom (lookup block key) fault bufFault key.length cap := by
  unfold blobGetenv getFrom
  refine if_congr Iff.rfl rfl (if_congr Iff.rfl rfl (if_congr Iff.rfl rfl ?_))
  rcases blobFind_eq h hv.readable hk hv.count with ⟨hnone,hall⟩ | ⟨pre,e,post,rfl,hpre,he,hsome⟩
  · rw [hnone,lookup_none hall]
  · obtain ⟨v,hev⟩ := (isFor_iff e).mp he
    rw [hsome,lookup_middle hpre hev,Nat.zero_add]
    dsimp only
    have hparts := h
    rw [Packs,packed_append,append_assoc,spells_append,length_packed,Nat.zero_add] at hparts
    obtain ⟨-,hentry,-,-⟩ := spells_entry hparts.2 (hv.readable e (mem_append_right _ mem_cons_self))
    obtain ⟨-,h0,hshort⟩ := hv.readable e (mem_append_right _ mem_cons_self)
    have hsplit : e ++ [0] = key ++ eq :: (v ++ [0]) := by rw [hev,append_assoc,cons_append]
    rw [hsplit,spells_append,spells_cons] at hentry
    have hval : Spells blob (envUsed pre + key.length + 1) (v ++ [0]) := hentry.2.2
    have hv0 : 0 ∉ v := fun hmem => h0 (by rw [hev]; exact mem_append_right _ (mem_cons_of_mem _ hmem))
    have hvlen : v.length < threadEnvMax := by
      rw [hev,length_append,length_cons] at hshort
      omega
    have hbytes : (List.range v.length).map (fun i => blob (envUsed pre + key.length + 1 + i)) = v := by
      refine ext_getElem (by rw [length_map,length_range]) fun j hj hj' => ?_
      rw [getElem_map,getElem_range]
      exact (spells_append.mp hval).1 j hj'
    rw [sLen_eq hval hv0 hvlen,Nat.add_sub_cancel,hbytes]
    rfl

/-- The block of a thread is packed and says what the thread has set. -/
def Tells (blob : Blob) (vars : List UInt8 → Option (List UInt8)) : Prop :=
  ∃ block, Packs blob block ∧ Valid block ∧ (∀ key, eq ∉ key → lookup block key = vars key) ∧ ∀ key, eq ∈ key → vars key = none

/-- A variable that is set has room for its new value, if that is all that can go wrong, and a name with '=' in it
finds nothing. -/
def Call.Meets (blob : Blob) : Call → Prop
  | .setenv fault key val => fault = true ∨ keyMax ≤ key.val.length ∨ threadEnvMax ≤ val.val.length ∨ eq ∈ key.val ∨
      ∀ off, blobFind blob key threadEnvMax 0 = some off →
        blobUsed blob threadEnvMax 0 + (key.val.length + 1 + val.val.length + 1) ≤
          threadEnvMax - 1 + (sLen blob threadEnvMax off + 1)
  | .unsetenv fault key => fault = true ∨ keyMax ≤ key.val.length ∨ eq ∉ key.val ∨ blobFind blob key threadEnvMax 0 = none
  | .getenv fault _ key cap => cap ≤ 0 ∨ fault = true ∨ threadEnvMax ≤ key.val.length ∨ eq ∉ key.val ∨
      blobFind blob key threadEnvMax 0 = none

def State.Meets (s : State) : ThreadEvent → Prop
  | .call th c => ∀ blob, s.threads.env th = some blob → c.Meets blob
  | _ => True

/-- What a call does for its thread, if the block says what the thread has set. -/
structure Right (blob : Blob) (vars : List UInt8 → Option (List UInt8)) (c : Call) (r : Reply) (blob' : Blob) : Prop where
  tells : Tells blob' (c.effect vars r)
  error : r.1 < 0 → blob' = blob
  get : ∀ fault bufFault key cap, c = .getenv fault bufFault key cap →
    r = getFrom (vars key.val) fault bufFault key.val.length cap

lemma lookup_append_self (hfor : ∀ e ∈ block, isFor key e = false) : lookup (block ++ [key ++ eq :: v]) key = some v :=
  lookup_middle hfor rfl

variable {k name : List UInt8}

lemma find?_named (h : Named e k v) (hn : eq ∉ name) (hne : name ≠ k) : isFor name e = false :=
  eq_false_of_ne_true fun hfor => hne ((h.isFor_iff hn).mp hfor).symm

lemma lookup_eraseP (hv : Valid block) (hk : eq ∉ k) (hn : eq ∉ name) (hne : name ≠ k) :
    lookup (block.eraseP (isFor k)) name = lookup block name := by
  induction block with
  | nil => rfl
  | cons e block ih =>
    obtain ⟨k',v',hnamed⟩ := hv.named e mem_cons_self
    by_cases hfor : isFor k e = true
    · rw [eraseP_cons_of_pos hfor]
      have hkey := (hnamed.isFor_iff hk).mp hfor
      have hno := find?_named hnamed hn (hkey ▸ hne)
      rw [lookup,lookup,find?_cons_of_neg (by rw [hno]; exact Bool.false_ne_true)]
    · rw [eraseP_cons_of_neg hfor]
      have hrest := ih (hv.sublist (sublist_cons_self e block))
      unfold lookup at hrest ⊢
      by_cases hname : isFor name e = true
      · rw [find?_cons_of_pos hname,find?_cons_of_pos hname]
      · rw [find?_cons_of_neg hname,find?_cons_of_neg hname,hrest]

lemma lookup_append_of_ne (h : Named e k v) (hn : eq ∉ name) (hne : name ≠ k) :
    lookup (block ++ [e]) name = lookup block name := by
  have hno := find?_named h hn hne
  unfold lookup
  rw [find?_append,find?_cons_of_neg (by rw [hno]; exact Bool.false_ne_true),find?_nil,or_none]

lemma tells_find (h : Packs blob block) (hv : Valid block) (hk : 0 ∉ key) :
    (blobFind blob key threadEnvMax 0 = none → ∀ e ∈ block, isFor key e = false) := fun hnone => by
  rcases blobFind_eq h hv.readable hk hv.count with ⟨-,hall⟩ | ⟨pre,e,post,-,-,-,hsome⟩
  · exact hall
  · rw [hsome] at hnone
    cases hnone

lemma fits_of_found (h : Packs blob block) (hv : Valid block) (hk : 0 ∉ key) {need : ℕ}
    (hroom : ∀ off, blobFind blob key threadEnvMax 0 = some off →
      blobUsed blob threadEnvMax 0 + need ≤ threadEnvMax - 1 + (sLen blob threadEnvMax off + 1))
    (hfull : envUsed (block.eraseP (isFor key)) + need > threadEnvMax - 1) : ∀ e ∈ block, isFor key e = false := by
  rcases blobFind_eq h hv.readable hk hv.count with ⟨-,hall⟩ | ⟨pre,e,post,rfl,hpre,he,hsome⟩
  · exact hall
  · exfalso
    have hle := hroom _ hsome
    have hparts := h
    rw [Packs,packed_append,append_assoc,spells_append,length_packed,Nat.zero_add] at hparts
    obtain ⟨-,-,hlen,-⟩ := spells_entry hparts.2 (hv.readable e (mem_append_right _ mem_cons_self))
    rw [Nat.zero_add,hlen,blobUsed_eq h hv.readable hv.count,Nat.zero_add,envUsed_append] at hle
    rw [eraseP_middle hpre he,envUsed_append] at hfull
    have hsum : envUsed (e :: post) = e.length + 1 + envUsed post := rfl
    omega

lemma neg_errors : -efault < 0 ∧ -enametoolong < 0 ∧ -einval < 0 ∧ -enomem < 0 ∧ -enoent < 0 := by decide

lemma blobSetenv_error (h : Packs blob block) (hv : Valid block) (key val : CString)
    (ok : (Call.setenv fault key val).Meets blob) (hr : (blobSetenv blob fault key val).1 < 0) :
    (blobSetenv blob fault key val).2 = blob := by
  unfold blobSetenv at hr ⊢
  by_cases hfault : fault = true
  · rw [if_pos hfault]
  rw [if_neg hfault] at hr ⊢
  by_cases hlong : keyMax ≤ key.val.length ∨ threadEnvMax ≤ val.val.length
  · rw [if_pos hlong]
  rw [if_neg hlong] at hr ⊢
  by_cases hbad : key.val = [] ∨ eq ∈ key.val
  · rw [if_pos hbad]
  rw [if_neg hbad] at hr ⊢
  rw [not_or] at hlong hbad
  have hroom := (((ok.resolve_left hfault).resolve_left hlong.1).resolve_left hlong.2).resolve_left hbad.2
  rcases blobFind_eq h hv.readable key.property hv.count with ⟨hnone,-⟩ | ⟨pre,e,post,rfl,hpre,he,hsome⟩
  · rw [hnone] at hr ⊢
    dsimp only at hr ⊢
    split_ifs at hr ⊢ with hfull
    · rfl
    · exact absurd hr (Int.lt_irrefl 0)
  · exfalso
    rw [hsome,Nat.zero_add] at hr
    dsimp only at hr
    have hpacks := packs_delete h hv.readable hv.room
    have hv' : Valid (pre ++ post) := by
      rw [← eraseP_middle hpre he]
      exact hv.sublist eraseP_sublist
    rw [blobUsed_eq hpacks hv'.readable hv'.count,Nat.zero_add] at hr
    split_ifs at hr with hfull
    · have hnot := fits_of_found h hv key.property hroom (by rw [eraseP_middle hpre he]; exact hfull)
      rw [hnot e (mem_append_right _ mem_cons_self)] at he
      cases he
    · exact absurd hr (Int.lt_irrefl 0)

lemma sysSetenv_ok (hr : ¬ (sysSetenv block fault key val).1 < 0) : key ≠ [] ∧ eq ∉ key ∧ key.length < keyMax ∧
    (sysSetenv block fault key val).2 = block.eraseP (isFor key) ++ [key ++ eq :: val] := by
  obtain ⟨h1,h2,h3,h4,-⟩ := neg_errors
  unfold sysSetenv at hr ⊢
  split_ifs at hr ⊢ with hfault hlong hbad
  · exact absurd h1 hr
  · exact absurd h2 hr
  · exact absurd h3 hr
  rw [not_or] at hbad hlong
  dsimp only at hr ⊢
  split_ifs at hr ⊢ with hfull
  · exact absurd h4 hr
  · exact ⟨hbad.1,hbad.2,not_le.mp hlong.1,rfl⟩

variable {vars : List UInt8 → Option (List UInt8)}

lemma setenv_right (h : Tells blob vars) (fault : Bool) (key val : CString) (ok : (Call.setenv fault key val).Meets blob) :
    Right blob vars (.setenv fault key val) ((blobSetenv blob fault key val).1,none) (blobSetenv blob fault key val).2 := by
  have htells := h
  obtain ⟨block,hp,hv,hlook,hnoeq⟩ := h
  have hboth : (blobSetenv blob fault key val).1 = (sysSetenv block fault key val).1 ∧
    Packs (blobSetenv blob fault key val).2 (sysSetenv block fault key val).2 := blobSetenv_eq hp hv fault key.property
  obtain ⟨hret,hpacks⟩ := hboth
  refine ⟨?_,blobSetenv_error hp hv key val ok,fun _ _ _ _ hc => by cases hc⟩
  change Tells _ (if (blobSetenv blob fault key val).1 < 0 then vars else update vars key.val (some val.val))
  by_cases hr : (blobSetenv blob fault key val).1 < 0
  · rw [if_pos hr,blobSetenv_error hp hv key val ok hr]
    exact htells
  · rw [if_neg hr]
    rw [hret] at hr
    obtain ⟨hne,hnk,hklen,hblock⟩ := sysSetenv_ok hr
    have hvalid : Valid (sysSetenv block fault key.val val.val).2 := valid_sysSetenv hv key.property val.property
    rw [hblock] at hpacks hvalid
    have hnamed := named_append hne hnk hklen key.property val.property
    refine ⟨_,hpacks,hvalid,fun name hn => ?_,fun name hn => ?_⟩
    · rcases eq_or_ne name key.val with rfl | hdiff
      · rw [lookup_append_self (hv.notFor hnk),update_self]
      · rw [lookup_append_of_ne hnamed hn hdiff,lookup_eraseP hv hnk hn hdiff,update_of_ne hdiff]
        exact hlook name hn
    · have hdiff : name ≠ key.val := fun heq => hnk (heq ▸ hn)
      rw [update_of_ne hdiff]
      exact hnoeq name hn

lemma unsetenv_right (h : Tells blob vars) (fault : Bool) (key : CString) (ok : (Call.unsetenv fault key).Meets blob) :
    Right blob vars (.unsetenv fault key) ((blobUnsetenv blob fault key).1,none) (blobUnsetenv blob fault key).2 := by
  have htells := h
  obtain ⟨block,hp,hv,hlook,hnoeq⟩ := h
  obtain ⟨h1,h2,-,-,h5⟩ := neg_errors
  have herr : (blobUnsetenv blob fault key).1 < 0 → (blobUnsetenv blob fault key).2 = blob := fun hr => by
    unfold blobUnsetenv at hr ⊢
    split_ifs at hr ⊢
    · rfl
    · rfl
    · cases hf : blobFind blob key threadEnvMax 0 with
      | none => rfl
      | some off =>
        rw [hf] at hr
        exact absurd hr (Int.lt_irrefl 0)
  refine ⟨?_,herr,fun _ _ _ _ hc => by cases hc⟩
  change Tells _ (if (blobUnsetenv blob fault key).1 < 0 then vars else update vars key.val none)
  by_cases hr : (blobUnsetenv blob fault key).1 < 0
  · rw [if_pos hr,herr hr]
    exact htells
  · rw [if_neg hr]
    obtain ⟨hret,hpacks⟩ := blobUnsetenv_eq hp hv fault key.property
    have hvalid : Valid (sysUnsetenv block fault key.val).2 := valid_sysUnsetenv hv
    unfold blobUnsetenv at hr
    unfold sysUnsetenv at hpacks hvalid
    by_cases hfault : fault = true
    · rw [if_pos hfault] at hr
      exact absurd h1 hr
    rw [if_neg hfault] at hr hpacks hvalid
    by_cases hlong : keyMax ≤ key.val.length
    · rw [if_pos hlong] at hr
      exact absurd h2 hr
    rw [if_neg hlong] at hr hpacks hvalid
    rcases blobFind_eq hp hv.readable key.property hv.count with ⟨hnone,-⟩ | ⟨pre,e,post,hsplit,hpre,he,hsome⟩
    · rw [hnone] at hr
      exact absurd h5 hr
    have hnk : eq ∉ key.val := by
      rcases ok with ok | ok | ok | ok
      · exact absurd ok hfault
      · exact absurd ok hlong
      · exact ok
      · rw [hsome] at ok
        cases ok
    have hany : block.any (isFor key.val) = true :=
      List.any_eq_true.mpr ⟨e,by rw [hsplit]; exact mem_append_right _ mem_cons_self,he⟩
    rw [if_pos hany] at hpacks hvalid
    refine ⟨_,hpacks,hvalid,fun name hn => ?_,fun name hn => ?_⟩
    · rcases eq_or_ne name key.val with rfl | hdiff
      · rw [lookup_none (hv.notFor hnk),update_self]
      · rw [lookup_eraseP hv hnk hn hdiff,update_of_ne hdiff]
        exact hlook name hn
    · rcases eq_or_ne name key.val with rfl | hdiff
      · exact update_self ..
      · rw [update_of_ne hdiff]
        exact hnoeq name hn

lemma getenv_right (h : Tells blob vars) (fault bufFault : Bool) (key : CString) (cap : ℤ)
    (ok : (Call.getenv fault bufFault key cap).Meets blob) :
    Right blob vars (.getenv fault bufFault key cap) (blobGetenv blob fault bufFault key cap) blob := by
  refine ⟨h,fun _ => rfl,fun _ _ _ _ hc => ?_⟩
  cases hc
  obtain ⟨block,hp,hv,hlook,hnoeq⟩ := h
  rw [blobGetenv_eq hp hv fault bufFault key.property]
  by_cases hnk : eq ∉ key.val
  · rw [hlook _ hnk]
  · rw [hnoeq _ (not_not.mp hnk)]
    unfold getFrom
    rcases ok with ok | ok | ok | ok | ok
    · rw [if_pos ok,if_pos ok]
    · rw [ok]
      rfl
    · refine if_congr Iff.rfl rfl (if_congr Iff.rfl rfl ?_)
      rw [if_pos ok,if_pos ok]
    · exact absurd ok hnk
    · rw [lookup_none (tells_find hp hv key.property ok)]

lemma call_right (h : Tells blob vars) (c : Call) (ok : c.Meets blob) : Right blob vars c (c.run blob).1 (c.run blob).2 := by
  cases c with
  | setenv fault key val => exact setenv_right h fault key val ok
  | unsetenv fault key => exact unsetenv_right h fault key ok
  | getenv fault bufFault key cap => exact getenv_right h fault bufFault key cap ok

namespace State
variable {s t : State} {es : List ThreadEvent} {ev : ThreadEvent} {r : Option Reply}

def Coherent (s : State) : Prop := ∀ th blob, s.threads.env th = some blob → Tells blob (s.vars th)

lemma Coherent.setThread (h : s.Coherent) {th : ℕ} (ht : Tells blob vars) : (s.setThread th blob vars).Coherent :=
  fun th' blob' hb => by
    unfold State.setThread at hb ⊢
    rcases eq_or_ne th' th with rfl | hne
    · dsimp only at hb ⊢
      rw [update_self] at hb ⊢
      cases hb
      exact ht
    · dsimp only at hb ⊢
      rw [update_of_ne hne] at hb ⊢
      exact h th' blob' hb

lemma Coherent.step (h : s.Coherent) (ok : s.Meets ev) (now : s.step ev = some (r,t)) : t.Coherent := by
  cases ev with
  | call th c =>
    obtain ⟨blob,hb,hx⟩ := Option.map_eq_some_iff.mp now
    cases hx
    exact h.setThread (call_right (h th blob hb) c (ok blob hb)).tells
  | boot th garbage =>
    rw [State.step] at now
    split at now <;> cases now
    refine h.setThread ⟨[],fun j hj => ?_,valid_nil,fun _ _ => rfl,fun _ _ => rfl⟩
    obtain rfl : j = 0 := Nat.lt_one_iff.mp hj
    rfl
  | child th parent garbage =>
    rw [State.step] at now
    split at now
    · cases now
    obtain ⟨blob,hb,hx⟩ := Option.map_eq_some_iff.mp now
    cases hx
    obtain ⟨block,hp,hv,hlook,hnoeq⟩ := h parent blob hb
    exact h.setThread ⟨block,packs_inherit hp hv garbage,hv,hlook,hnoeq⟩

lemma coherent_of_runs (run : Runs step Meets initial es s) : s.Coherent :=
  run.invariant (fun _ _ _ _ hs ok now => Coherent.step hs ok now) fun _ _ h => by cases h

end State

/-- In every run whose calls meet the condition, the block of every thread stays a packed list of variables with
different names inside its array, and every call does for its thread what it says: a variable reads as it was last
set, and an error leaves the block as it was. -/
theorem env_map {es : List ThreadEvent} {s : State} (run : Runs State.step State.Meets .initial es s) :
    (∀ th blob, s.threads.env th = some blob → Tells blob (s.vars th)) ∧
    ∀ th c blob, s.threads.env th = some blob → c.Meets blob → Right blob (s.vars th) c (c.run blob).1 (c.run blob).2 := by
  have h := State.coherent_of_runs run
  exact ⟨h,fun th c blob hb ok => call_right (h th blob hb) c ok⟩

def keyA : CString := ⟨[65],by decide⟩
def one : CString := ⟨[49],by decide⟩
def long : CString := ⟨replicate 511 120,fun h => absurd (eq_of_mem_replicate h) (by decide)⟩

lemma child_run : ∃ s, Runs State.step State.Meets .initial
      [.boot 1 fun _ => 7,.call 1 (.setenv false keyA one),.child 2 1 fun _ => 9] s ∧
    ∃ blob, s.threads.env 2 = some blob ∧ s.vars 2 [65] = some [49] := by
  refine ⟨_,.cons trivial rfl (.cons (fun blob hb => ?_) rfl (.cons trivial rfl (.nil _))),_,rfl,rfl⟩
  cases hb
  refine .inr (.inr (.inr (.inr fun off hoff => ?_)))
  cases hoff

theorem env_map_child : ∃ (s : State) (blob : Blob), s.threads.env 2 = some blob ∧ Tells blob (s.vars 2) ∧ s.vars 2 [65] = some [49] := by
  obtain ⟨s,run,blob,hb,hv⟩ := child_run
  exact ⟨s,blob,hb,(env_map run).1 2 blob hb,hv⟩

/-- A variable is set again to a value that does not fit: the call fails, and the variable is gone. -/
theorem setenv_drops_value : ∃ s blob, Runs State.step (fun _ _ => True) .initial
      [.boot 1 fun _ => 0,.call 1 (.setenv false keyA one)] s ∧ s.threads.env 1 = some blob ∧
    blobGetenv blob false false [65] 512 = (2,some [49]) ∧ (blobSetenv blob false keyA long).1 = -enomem ∧
    blobGetenv (blobSetenv blob false keyA long).2 false false [65] 512 = (-enoent,none) :=
  ⟨_,_,.of_execute rfl,rfl,by decide +kernel,by decide +kernel,by decide +kernel⟩

end VibeOS.Env

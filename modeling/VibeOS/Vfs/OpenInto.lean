import VibeOS.Userfs.Mounts

/-! `vfs_open_into`: what a slot held before it was opened over, and what is left of it when the open
fails. -/
namespace VibeOS.Vfs.OpenInto
open Function
open VibeOS.Storage VibeOS.Userfs
open VibeOS.Userfs.Mounts (enoent ebadf enomem erofs fdTableSize slash)

def oWronly : UInt32 := 1
def oRdwr : UInt32 := 2
def oCreat : UInt32 := 64
def oTrunc : UInt32 := 512
def oAppend : UInt32 := 1024

/-- `enum fd_kind` -/
inductive FdKind
  | console
  | file
  | pipeR
  | pipeW
  | tmpfsRw
  | socket
  | socketListen
  | ptyMaster
  | ptySlave
  | osfs2File
  | srvListen
  | srvConn
  | userfsFile
  deriving DecidableEq

/-- `struct fd_entry`, with the objects behind its pointers by number. -/
structure FdEntry where
  inUse : Bool
  kind : FdKind
  offset : ℕ
  ramfsIndex : ℤ
  osfsStart : ℕ
  osfsSize : ℕ
  pipe : Option ℕ
  socketCid : ℤ
  pty : Option ℕ
  osfs2Ino : ℕ
  srvL : Option ℕ
  srvC : Option ℕ
  srvIsService : Bool
  userfsCh : Option ℕ
  userfsHandle : ℕ
  deriving DecidableEq

/-- What a descriptor may hold one reference of. The ends of a channel of `/srv` and the sockets are
open or not, which counts as 1 or 0. -/
inductive Ref
  | pipeR (p : ℕ)
  | pipeW (p : ℕ)
  | pty (y : ℕ)
  | listen (l : ℕ)
  | conn (c : ℕ) (service : Bool)
  | socket (cid : ℤ)
  | channel (c : ℕ)
  deriving DecidableEq

/-- The `struct fs_ops` that have a method `open`. -/
inductive Fs
  | ramfs
  | osfs
  | tmpfs
  | osfs2
  | userfs (c : ℕ)
  deriving DecidableEq

/-- `struct mount`; `fs` is `none` when `ops` or its `open` is NULL. -/
structure Mount where
  pfx : List UInt8
  fs : Option Fs
  ro : Bool
  deriving DecidableEq

inductive File
  | ramfs (i : ℕ)
  | osfs (start size : ℕ)
  | tmpfs (i : ℕ)
  | osfs2 (ino : ℕ)
  | userfs (c handle : ℕ)
  deriving DecidableEq

/-- What the drivers find, by the name. -/
structure World where
  ramfsLookup : List UInt8 → Option ℕ
  osfsLookup : List UInt8 → Option (ℕ × ℕ)
  tmpfsLookup : List UInt8 → Option ℕ
  tmpfsCreate : List UInt8 → Option ℕ
  /-- `g_files[tidx].size` at the end of the open -/
  tmpfsSize : ℕ → ℕ
  osfs2Present : Bool
  osfs2Lookup : List UInt8 → Option ℕ
  osfs2Create : List UInt8 → Option ℕ
  osfs2Truncate : ℕ → Bool
  /-- `userfs_call` with P9_OP_OPEN: what it returns, and the status and the handle of the answer -/
  userfsOpen : ℕ → List UInt8 → UInt32 → ℤ × ℤ × ℕ

/-- `tmpfs_strip_slash` and its copies -/
def stripSlash : List UInt8 → List UInt8
  | [] => []
  | c :: rel => if c = slash then rel else c :: rel

namespace World
variable (w : World)

def tmpfsOpOpen (rel : List UInt8) (flags : UInt32) : Except ℤ (File × ℕ) :=
  let bare := stripSlash rel
  let opened (i : ℕ) : Except ℤ (File × ℕ) := .ok (.tmpfs i,if flags &&& oAppend != 0 then w.tmpfsSize i else 0)
  if bare = [] then .error (-einval)
  else if flags &&& oCreat != 0 then
    match w.tmpfsLookup bare with
    | some i => opened i
    | none =>
      match w.tmpfsCreate bare with
      | some i => opened i
      | none => .error (-enomem)
  else
    match w.tmpfsLookup bare with
    | some i => opened i
    | none => .error (-enoent)

def osfs2OpOpen (rel : List UInt8) (flags : UInt32) : Except ℤ (File × ℕ) :=
  let bare := stripSlash rel
  if bare = [] then .error (-einval)
  else if !w.osfs2Present then .error (-enoent)
  else
    match w.osfs2Lookup bare with
    | some ino =>
      if (flags &&& oTrunc != 0) && !(flags &&& oAppend != 0) && !w.osfs2Truncate ino then .error (-eio)
      else .ok (.osfs2 ino,0)
    | none =>
      if flags &&& oCreat != 0 then
        match w.osfs2Create bare with
        | some ino => .ok (.osfs2 ino,0)
        | none => .error (-enomem)
      else .error (-enoent)

/-- The `open` of a driver: the file, and the offset that the descriptor starts with. -/
def opOpen (rel : List UInt8) (flags : UInt32) : Fs → Except ℤ (File × ℕ)
  | .ramfs =>
    match w.ramfsLookup rel with
    | some i => .ok (.ramfs i,0)
    | none => .error (-enoent)
  | .osfs =>
    if stripSlash rel = [] then .error (-einval)
    else
      match w.osfsLookup (stripSlash rel) with
      | some (start,size) => .ok (.osfs start size,0)
      | none => .error (-enoent)
  | .tmpfs => w.tmpfsOpOpen rel flags
  | .osfs2 => w.osfs2OpOpen rel flags
  | .userfs c =>
    if p9MaxPayload < rel.length then .error (-einval)
    else
      match w.userfsOpen c rel flags with
      | (r,status,handle) =>
        if r < 0 then .error r else if status < 0 then .error status else .ok (.userfs c handle,0)

end World

namespace FdEntry
variable (e : FdEntry)

/-- The fields that every driver sets to the same. -/
def cleared : FdEntry :=
  { e with
    offset := 0, ramfsIndex := -1, osfsStart := 0, osfsSize := 0, pipe := none, socketCid := -1, pty := none
    osfs2Ino := 0, srvL := none, srvC := none, srvIsService := false }

/-- What a driver writes to the slot; only those of ramfs and of userfs set the last two fields. -/
def fill (offset : ℕ) : File → FdEntry
  | .ramfs i => { e.cleared with kind := .file, ramfsIndex := i, userfsCh := none, userfsHandle := 0 }
  | .osfs start size => { e.cleared with kind := .file, osfsStart := start, osfsSize := size }
  | .tmpfs i => { e.cleared with kind := .tmpfsRw, offset := offset, ramfsIndex := i }
  | .osfs2 ino => { e.cleared with kind := .osfs2File, osfs2Ino := ino }
  | .userfs c handle => { e.cleared with kind := .userfsFile, userfsCh := some c, userfsHandle := handle }

def RefersTo : File → Prop
  | .ramfs i => e.kind = .file ∧ e.ramfsIndex = i ∧ e.osfsStart = 0 ∧ e.osfsSize = 0
  | .osfs start size => e.kind = .file ∧ e.ramfsIndex = -1 ∧ e.osfsStart = start ∧ e.osfsSize = size
  | .tmpfs i => e.kind = .tmpfsRw ∧ e.ramfsIndex = i
  | .osfs2 ino => e.kind = .osfs2File ∧ e.osfs2Ino = ino
  | .userfs c handle => e.kind = .userfsFile ∧ e.userfsCh = some c ∧ e.userfsHandle = handle

end FdEntry

/-- The tables of the threads, the mounts and the counts; a pty reads and writes by the pipes `m2s` and `s2m`. -/
structure Sys where
  mounts : List Mount
  slot : ℕ → ℕ → FdEntry
  refs : Ref → ℕ
  m2s : ℕ → ℕ
  s2m : ℕ → ℕ

/-- The test of `vfs_resolve`. -/
def Mount.covers (m : Mount) (path : List UInt8) : Bool :=
  m.pfx.isPrefixOf path && ((path.drop m.pfx.length).head?).all (· == slash)

/-- One turn of the loop of `vfs_resolve`. -/
def better (path : List UInt8) (best : Option Mount × ℕ) (m : Mount) : Option Mount × ℕ :=
  if m.pfx = [slash] then if best.2 = 0 then (some m,1) else best
  else if m.covers path && decide (best.2 < m.pfx.length) then (some m,m.pfx.length)
  else best

def Mount.rel (m : Mount) (path : List UInt8) : List UInt8 := if m.pfx = [slash] then path else path.drop m.pfx.length

def writes (flags : UInt32) : Bool :=
  flags &&& oWronly != 0 || flags &&& oRdwr != 0 || flags &&& oCreat != 0 || flags &&& oTrunc != 0

namespace Sys
variable (s : Sys)

/-- `vfs_resolve` -/
def resolve (path : List UInt8) : Option Mount := (s.mounts.foldl (better path) (none,0)).1

/-- The part of `vfs_open_into` between the release of the old object and the driver's fields. -/
def dispatch (w : World) (name : List UInt8) (flags : UInt32) : Except ℤ (File × ℕ) :=
  match s.resolve name with
  | none => .error (-enoent)
  | some m =>
    match m.fs with
    | none => .error (-enoent)
    | some fs => if m.ro && writes flags then .error (-erofs) else w.opOpen (m.rel name) flags fs

def unref (r : Ref) : Sys := { s with refs := update s.refs r (s.refs r - 1) }

def setSlot (t fd : ℕ) (e : FdEntry) : Sys :=
  { s with slot := update s.slot t (update (s.slot t) fd e) }

def ptyCloseMaster (y : ℕ) : Sys := ((s.unref (.pipeR (s.s2m y))).unref (.pipeW (s.m2s y))).unref (.pty y)
def ptyCloseSlave (y : ℕ) : Sys := ((s.unref (.pipeR (s.m2s y))).unref (.pipeW (s.s2m y))).unref (.pty y)

/-- The kinds that `vfs_open_into` knows. -/
def release (e : FdEntry) : Sys :=
  match e.kind with
  | .pipeR => e.pipe.elim s fun p => s.unref (.pipeR p)
  | .pipeW => e.pipe.elim s fun p => s.unref (.pipeW p)
  | .ptyMaster => e.pty.elim s s.ptyCloseMaster
  | .ptySlave => e.pty.elim s s.ptyCloseSlave
  | .srvListen => e.srvL.elim s fun l => s.unref (.listen l)
  | .srvConn => e.srvC.elim s fun c => s.unref (.conn c e.srvIsService)
  | _ => s

def dropOld (t fd : ℕ) : Sys :=
  let e := s.slot t fd
  if e.inUse then (s.release e).setSlot t fd { e with pipe := none, pty := none, srvL := none, srvC := none }
  else s

/-- `open_fds++` of a channel; the other drivers count nothing. -/
def retain : File → Sys
  | .userfs c _ => { s with refs := update s.refs (.channel c) (s.refs (.channel c) + 1) }
  | _ => s

def openInto (w : World) (t : Option ℕ) (fd : ℤ) (name : Option (List UInt8)) (flags : UInt32) : ℤ × Sys :=
  match t,name with
  | some t,some name =>
    if fd < 0 ∨ fdTableSize ≤ fd then (-ebadf,s)
    else
      let u := s.dropOld t fd.toNat
      match u.dispatch w name flags with
      | .error e => (e,u)
      | .ok (file,offset) => (0,(u.retain file).setSlot t fd.toNat { (u.slot t fd.toNat).fill offset file with inUse := true })
  | _,_ => (-einval,s)

/-- What `vfs_close` gives back for a descriptor. -/
def held (e : FdEntry) : List Ref :=
  if !e.inUse then []
  else
    match e.kind with
    | .pipeR => e.pipe.toList.map .pipeR
    | .pipeW => e.pipe.toList.map .pipeW
    | .socket | .socketListen => if 0 ≤ e.socketCid then [.socket e.socketCid] else []
    | .ptyMaster => e.pty.elim [] fun y => [.pipeR (s.s2m y),.pipeW (s.m2s y),.pty y]
    | .ptySlave => e.pty.elim [] fun y => [.pipeR (s.m2s y),.pipeW (s.s2m y),.pty y]
    | .srvListen => e.srvL.toList.map .listen
    | .srvConn => e.srvC.toList.map fun c => .conn c e.srvIsService
    | .userfsFile => e.userfsCh.toList.map .channel
    | _ => []

end Sys

def File.refs : File → List Ref
  | .userfs c _ => [.channel c]
  | _ => []

/-- The kinds of descriptors that hold a reference which `vfs_open_into` does not know. -/
def FdKind.forgotten : FdKind → Bool
  | .socket | .socketListen | .userfsFile => true
  | _ => false

lemma World.opOpen_neg {w : World} {rel : List UInt8} {flags : UInt32} {fs : Fs} {r : ℤ}
    (h : w.opOpen rel flags fs = .error r) : r < 0 := by
  have herr {r' : ℤ} (hr : r' < 0) {o : Except ℤ (File × ℕ)} (ho : o = .error r') (he : o = .error r) : r < 0 := by
    rw [ho] at he
    cases he
    exact hr
  cases fs with
  | ramfs =>
    rw [opOpen] at h
    split at h
    · cases h
    · exact herr (by decide) rfl h
  | osfs =>
    rw [opOpen] at h
    split_ifs at h
    · exact herr (by decide) rfl h
    · split at h
      · cases h
      · exact herr (by decide) rfl h
  | tmpfs =>
    simp only [opOpen,tmpfsOpOpen] at h
    split at h
    · exact herr (by decide) rfl h
    · split at h
      · split at h
        · cases h
        · split at h
          · cases h
          · exact herr (by decide) rfl h
      · split at h
        · cases h
        · exact herr (by decide) rfl h
  | osfs2 =>
    simp only [opOpen,osfs2OpOpen] at h
    split at h
    · exact herr (by decide) rfl h
    · split at h
      · exact herr (by decide) rfl h
      · split at h
        · split at h
          · exact herr (by decide) rfl h
          · cases h
        · split at h
          · split at h
            · cases h
            · exact herr (by decide) rfl h
          · exact herr (by decide) rfl h
  | userfs c =>
    simp only [opOpen] at h
    split_ifs at h with hlen hr hstatus
    · exact herr (by decide) rfl h
    · exact herr hr rfl h
    · exact herr hstatus rfl h

namespace Sys
variable {s : Sys} {w : World} {e : FdEntry} {name : List UInt8} {flags : UInt32}

lemma dispatch_neg {r : ℤ} (h : s.dispatch w name flags = .error r) : r < 0 := by
  unfold dispatch at h
  split at h
  · cases h
    decide
  · split at h
    · cases h
      decide
    · split_ifs at h
      · cases h
        decide
      · exact World.opOpen_neg h

lemma dispatch_congr {u : Sys} (h : u.mounts = s.mounts) : u.dispatch w name flags = s.dispatch w name flags := by
  simp only [dispatch,resolve,h]

lemma count_three {a b y : ℕ} (r : Ref) :
    update (update (update s.refs (.pipeR a) (s.refs (.pipeR a) - 1)) (.pipeW b) (s.refs (.pipeW b) - 1))
      (.pty y) (s.refs (.pty y) - 1) r = s.refs r - [Ref.pipeR a,.pipeW b,.pty y].count r := by
  cases r <;> simp [update_apply,List.count_cons] <;> split_ifs <;> simp_all

lemma count_one {r' : Ref} (r : Ref) : update s.refs r' (s.refs r' - 1) r = s.refs r - [r'].count r := by
  by_cases h : r = r'
  · subst h
    simp
  · rw [update_of_ne h,List.count_singleton,if_neg (by simpa using fun h' => h h'.symm),Nat.sub_zero]

lemma release_none (hpipe : e.pipe = none) (hpty : e.pty = none) (hl : e.srvL = none) (hc : e.srvC = none) :
    s.release e = s := by
  unfold release
  rw [hpipe,hpty,hl,hc]
  cases e.kind <;> rfl

lemma release_mounts : (s.release e).mounts = s.mounts := by
  unfold release
  split
  · cases e.pipe <;> rfl
  · cases e.pipe <;> rfl
  · cases e.pty <;> rfl
  · cases e.pty <;> rfl
  · cases e.srvL <;> rfl
  · cases e.srvC <;> rfl
  · rfl

lemma release_slot : (s.release e).slot = s.slot := by
  unfold release
  split
  · cases e.pipe <;> rfl
  · cases e.pipe <;> rfl
  · cases e.pty <;> rfl
  · cases e.pty <;> rfl
  · cases e.srvL <;> rfl
  · cases e.srvC <;> rfl
  · rfl

lemma release_refs (hin : e.inUse = true) (r : Ref) :
    (s.release e).refs r = s.refs r - if e.kind.forgotten then 0 else (s.held e).count r := by
  obtain ⟨inUse,kind,offset,ramfsIndex,osfsStart,osfsSize,pipe,socketCid,pty,ino,srvL,srvC,service,userfsCh,handle⟩ := e
  obtain rfl : inUse = true := hin
  cases kind with
  | console | file | tmpfsRw | osfs2File | socket | socketListen | userfsFile => rfl
  | pipeR | pipeW =>
    cases pipe with
    | none => rfl
    | some p => exact count_one r
  | ptyMaster | ptySlave =>
    cases pty with
    | none => rfl
    | some y => exact count_three r
  | srvListen =>
    cases srvL with
    | none => rfl
    | some l => exact count_one r
  | srvConn =>
    cases srvC with
    | none => rfl
    | some c => exact count_one r

section Slot
variable {t fd : ℕ}

lemma dropOld_mounts : (s.dropOld t fd).mounts = s.mounts := by
  dsimp only [dropOld]
  split_ifs
  · exact release_mounts
  · rfl

lemma setSlot_slot {t' fd' : ℕ} (h : (t',fd') ≠ (t,fd)) : (s.setSlot t fd e).slot t' fd' = s.slot t' fd' := by
  by_cases ht : t' = t
  · subst ht
    simp only [setSlot,update_self]
    exact update_of_ne (fun hfd => h (by rw [hfd])) ..
  · simp only [setSlot,update_of_ne ht]

lemma dropOld_slot {t' fd' : ℕ} (h : (t',fd') ≠ (t,fd)) : (s.dropOld t fd).slot t' fd' = s.slot t' fd' := by
  dsimp only [dropOld]
  split_ifs
  · rw [setSlot_slot h,release_slot]
  · rfl

lemma dropOld_refs (r : Ref) :
    (s.dropOld t fd).refs r = s.refs r - if (s.slot t fd).kind.forgotten then 0 else (s.held (s.slot t fd)).count r := by
  dsimp only [dropOld]
  by_cases hin : (s.slot t fd).inUse = true
  · rw [if_pos hin]
    exact release_refs hin r
  · simp [hin,held]

lemma dropOld_eq_self : s.dropOld t fd = s ↔
    ((s.slot t fd).inUse = true →
      (s.slot t fd).pipe = none ∧ (s.slot t fd).pty = none ∧ (s.slot t fd).srvL = none ∧ (s.slot t fd).srvC = none) := by
  constructor
  · intro h hin
    have hslot := congrFun (congrFun (congrArg Sys.slot h) t) fd
    simp only [dropOld,hin,if_true,setSlot,update_self] at hslot
    rw [← hslot]
    exact ⟨rfl,rfl,rfl,rfl⟩
  · intro h
    dsimp only [dropOld]
    split_ifs with hin
    · obtain ⟨hpipe,hpty,hl,hc⟩ := h hin
      have hsame : { s.slot t fd with pipe := none, pty := none, srvL := none, srvC := none } = s.slot t fd := by
        generalize s.slot t fd = e at hpipe hpty hl hc
        cases e
        simp_all
      simp only [hsame,release_none hpipe hpty hl hc,setSlot,update_eq_self]
    · rfl

end Slot

lemma retain_refs (file : File) (r : Ref) : (s.retain file).refs r = s.refs r + file.refs.count r := by
  cases file with
  | userfs c handle =>
    by_cases h : r = .channel c
    · subst h
      simp [retain,File.refs]
    · simp [retain,File.refs,update_of_ne h,Ne.symm h]
  | _ => rfl

lemma retain_slot (file : File) : (s.retain file).slot = s.slot := by
  cases file <;> rfl

end Sys

lemma FdEntry.fill_refersTo (e : FdEntry) (offset : ℕ) (file : File) :
    FdEntry.RefersTo { e.fill offset file with inUse := true } file := by
  cases file <;> simp [fill,cleared,RefersTo]

namespace Sys

/-- A call that returned an error has changed nothing. One that returned 0 has given back what the slot held, and
the slot is one of the file that the path leads to. -/
def Atomic (s : Sys) (w : World) (t : Option ℕ) (fd : ℤ) (name : Option (List UInt8)) (flags : UInt32) (r : ℤ × Sys) : Prop :=
  (r.1 < 0 → r.2 = s) ∧
    (r.1 = 0 → ∃ t' name' file offset, t = some t' ∧ name = some name' ∧ s.dispatch w name' flags = .ok (file,offset) ∧
      (r.2.slot t' fd.toNat).inUse = true ∧ (r.2.slot t' fd.toNat).RefersTo file ∧
      (∀ t₁ fd₁, (t₁,fd₁) ≠ (t',fd.toNat) → r.2.slot t₁ fd₁ = s.slot t₁ fd₁) ∧
      ∀ ref, r.2.refs ref = s.refs ref - (s.held (s.slot t' fd.toNat)).count ref + file.refs.count ref)

/-- A slot in use has no pointer when the open will fail, and nothing that is forgotten when it will not. -/
def Safe (s : Sys) (w : World) (t : Option ℕ) (fd : ℤ) (name : Option (List UInt8)) (flags : UInt32) : Prop :=
  ∀ t' name', t = some t' → name = some name' → 0 ≤ fd → fd < fdTableSize → (s.slot t' fd.toNat).inUse = true →
    match s.dispatch w name' flags with
    | .error _ =>
      (s.slot t' fd.toNat).pipe = none ∧ (s.slot t' fd.toNat).pty = none ∧ (s.slot t' fd.toNat).srvL = none ∧
        (s.slot t' fd.toNat).srvC = none
    | .ok _ => (s.slot t' fd.toNat).kind.forgotten = true → ∀ ref ∈ s.held (s.slot t' fd.toNat), s.refs ref = 0

variable {s : Sys} {w : World} {t : ℕ} {fd : ℤ} {name : List UInt8} {flags : UInt32}

lemma held_inUse {e : FdEntry} {ref : Ref} (h : ref ∈ s.held e) : e.inUse = true := by
  by_contra hin
  simp [held,hin] at h

lemma refs_iff {e : FdEntry} (k : Ref → ℕ) :
    (∀ ref, (s.refs ref - if e.kind.forgotten then 0 else (s.held e).count ref) + k ref = s.refs ref - (s.held e).count ref + k ref) ↔
      (e.kind.forgotten = true → ∀ ref ∈ s.held e, s.refs ref = 0) := by
  by_cases hforgot : e.kind.forgotten = true
  · simp only [hforgot,if_true,true_implies,Nat.sub_zero]
    constructor
    · intro h ref href
      have hcount := List.count_pos_iff.mpr href
      have := h ref
      omega
    · intro h ref
      by_cases href : ref ∈ s.held e
      · rw [h ref href,Nat.zero_sub]
      · rw [List.count_eq_zero.mpr href,Nat.sub_zero]
  · simp [hforgot]

/-- The call is atomic exactly when the slot is safe to open over. -/
theorem open_into_atomic (s : Sys) (w : World) (t : Option ℕ) (fd : ℤ) (name : Option (List UInt8)) (flags : UInt32) :
    s.Atomic w t fd name flags (s.openInto w t fd name flags) ↔ s.Safe w t fd name flags := by
  match t,name with
  | none,_ =>
    refine iff_of_true ⟨fun _ => rfl,fun h => absurd h (by decide : -einval ≠ 0)⟩ fun t' name' ht => ?_
    cases ht
  | some t,none =>
    refine iff_of_true ⟨fun _ => rfl,fun h => absurd h (by decide : -einval ≠ 0)⟩ fun t' name' _ hname => ?_
    cases hname
  | some t,some name =>
    by_cases hfd : fd < 0 ∨ fdTableSize ≤ fd
    · have hopen : s.openInto w (some t) fd (some name) flags = (-ebadf,s) := if_pos hfd
      rw [hopen]
      refine iff_of_true ⟨fun _ => rfl,fun h => absurd h (by decide : -ebadf ≠ 0)⟩ fun t' name' _ _ h₀ h₁ => ?_
      omega
    · have hopen : s.openInto w (some t) fd (some name) flags = _ := if_neg hfd
      have hdispatch : (s.dropOld t fd.toNat).dispatch w name flags = s.dispatch w name flags := dispatch_congr dropOld_mounts
      rw [hdispatch] at hopen
      rw [hopen]
      cases hd : s.dispatch w name flags with
      | error e =>
        have hneg : e < 0 := dispatch_neg hd
        simp only
        constructor
        · rintro ⟨hfail,-⟩ t' name' ht hname - - hin
          cases ht
          cases hname
          rw [hd]
          exact dropOld_eq_self.mp (hfail hneg) hin
        · intro hsafe
          refine ⟨fun _ => dropOld_eq_self.mpr fun hin => ?_,fun h => absurd h hneg.ne⟩
          have := hsafe t name rfl rfl (by omega) (by omega) hin
          rwa [hd] at this
      | ok found =>
        obtain ⟨file,offset⟩ := found
        have hrefs (ref : Ref) :
            ((s.dropOld t fd.toNat).retain file).refs ref =
              (s.refs ref - if (s.slot t fd.toNat).kind.forgotten then 0 else (s.held (s.slot t fd.toNat)).count ref) +
                file.refs.count ref := by
          rw [retain_refs,dropOld_refs]
        constructor
        · rintro ⟨-,hdone⟩ t' name' ht hname - - -
          cases ht
          cases hname
          obtain ⟨t',name',file',offset',ht,hname,hd',-,-,-,hcount⟩ := hdone rfl
          cases ht
          cases hname
          cases hd.symm.trans hd'
          rw [hd]
          exact (refs_iff _).mp fun ref => (hrefs ref).symm.trans (hcount ref)
        · intro hsafe
          refine ⟨fun h => absurd h (by simp),fun _ => ⟨t,name,file,offset,rfl,rfl,hd,?_,?_,?_,?_⟩⟩
          · simp [setSlot]
          · simp only [setSlot,update_self]
            exact FdEntry.fill_refersTo _ _ _
          · intro t₁ fd₁ hne
            rw [setSlot_slot hne,retain_slot,dropOld_slot hne]
          · intro ref
            refine (hrefs ref).trans ((refs_iff (file.refs.count ·)).mpr (fun hforgot r hr => ?_) ref)
            have := hsafe t name rfl rfl (by omega) (by omega) (held_inUse hr)
            rw [hd] at this
            exact this hforgot r hr

/-- `/motd` on the root, and two threads: one inherited a file of a channel as its descriptor 0, the other one the end
of a pipe. -/
def redirected : Sys where
  mounts := [⟨[slash],some .ramfs,true⟩]
  slot t _ :=
    if t = 1 then ⟨true,.userfsFile,0,-1,0,0,none,-1,none,0,none,none,false,some 0,4⟩
    else ⟨true,.pipeR,0,-1,0,0,some 0,-1,none,0,none,none,false,none,0⟩
  refs _ := 2
  m2s _ := 0
  s2m _ := 0

/-- The names of `g_ramfs`; no other driver finds anything. -/
def motdOnly : World where
  ramfsLookup name := if name = [47,109,111,116,100] then some 0 else none
  osfsLookup _ := none
  tmpfsLookup _ := none
  tmpfsCreate _ := none
  tmpfsSize _ := 0
  osfs2Present := false
  osfs2Lookup _ := none
  osfs2Create _ := none
  osfs2Truncate _ := false
  userfsOpen _ _ _ := (-eio,0,0)

/-- `/motd` over the file of the channel, whose count stays, and `/gone` over the pipe, whose count drops. -/
theorem open_into_not_atomic :
    ¬ redirected.Atomic motdOnly (some 1) 0 (some [47,109,111,116,100]) 0
        (redirected.openInto motdOnly (some 1) 0 (some [47,109,111,116,100]) 0) ∧
      ¬ redirected.Atomic motdOnly (some 2) 0 (some [47,103,111,110,101]) 0
        (redirected.openInto motdOnly (some 2) 0 (some [47,103,111,110,101]) 0) := by
  constructor
  · rintro ⟨-,hdone⟩
    obtain ⟨t',name',file,offset,ht,hname,hd,-,-,-,hcount⟩ := hdone rfl
    cases ht
    cases hname
    have hfile : file = .ramfs 0 := by
      cases hd
      rfl
    subst hfile
    exact absurd (hcount (.channel 0)) (by decide)
  · rintro ⟨hfail,-⟩
    exact absurd (congrArg (fun u => u.refs (.pipeR 0)) (hfail (by decide))) (by decide)

end Sys
end VibeOS.Vfs.OpenInto

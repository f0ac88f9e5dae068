import VibeOS.Osfs2.Names

/-! `osfs2_op_open` and the files that it leaves open: each call of the driver keeps a file
allocated or frees its record. -/
namespace VibeOS.Osfs2
open Function
open VibeOS.Storage

variable {v w : Vol} {i : UInt32}

/-- The flags of `open` that the writable file systems look at. -/
structure OpenFlags where
  creat : Bool
  trunc : Bool
  append : Bool

/-- `osfs2_strip_slash` and `tmpfs_strip_slash`: one leading slash goes. -/
def stripSlash (rel : CString) : CString :=
  match rel with
  | ⟨[],h⟩ => ⟨[],h⟩
  | ⟨c :: s,h⟩ => if c = slash then ⟨s,fun hs => h (List.mem_cons_of_mem c hs)⟩ else ⟨c :: s,h⟩

def enoent : ℤ := 2
def eio : ℤ := 5
def enomem : ℤ := 12
def einval : ℤ := 22

/-- `osfs2_op_open`: the error, or the inode that the descriptor gets. -/
def osfs2OpOpen (junk : List UInt8) (flags : OpenFlags) (rel : CString) : Fs (Except ℤ UInt32) := do
  let bare := stripSlash rel
  if bare.val = [] then return .error (-einval)
  else if !(← get).present then return .error (-enoent)
  else
    let ino ← osfs2Lookup junk (some bare)
    if ino = 0 then
      if !flags.creat then return .error (-enoent)
      else
        let ino ← osfs2Create (some bare)
        if ino = 0 then return .error (-enomem) else return .ok ino
    else if flags.trunc && !flags.append then
      if (← osfs2Truncate ino 0) ≠ 0 then return .error (-eio) else return .ok ino
    else return .ok ino

/-- `osfs2_size` -/
def osfs2Size (ino : UInt32) : Fs ℕ := do
  match ← readInode ino with
  | none => return 0
  | some x => if x.type = typeFree then return 0 else return x.size.toNat

/-- A call happened, or nothing. -/
inductive Vol.Moves (v : Vol) : Vol → Prop
  | stays : Moves v v
  | call {c r w} (now : Happens v c r w) : Moves v w

lemma Creates.live {parent type r : UInt32} {name : List UInt8} (h : Creates v parent name type r w)
    (ho : v.Owned) (hN : v.Named) (hp : v.live parent = true) (hr : r ≠ 0) : w.live r = true := by
  cases h with
  | badName | noParent | taken | noInode | noRoom => exact absurd rfl hr
  | existing hit hdir => exact hN.live (hit.toEntry.names hp hdir)
  | made _ _ _ hdir new found slot =>
    rw [(slot.links ho hp hdir new found).live,update_self]

namespace Does

lemma osfs2OpOpen {junk : List UInt8} {flags : OpenFlags} {rel : CString} (ho : v.Owned) (hN : v.Named) :
    Does (osfs2OpOpen junk flags rel) v fun r w => v.Moves w ∧ ∀ ino, r = .ok ino → w.live ino = true := by
  unfold VibeOS.Osfs2.osfs2OpOpen
  by_cases hbare : (stripSlash rel).val = []
  · rw [if_pos hbare]
    exact pure ⟨.stays,fun _ hr => nomatch hr⟩
  rw [if_neg hbare]
  refine get fun s hs _ _ _ => ?_
  rw [hs,if_neg (by decide)]
  have create : Does (do
      let ino ← VibeOS.Osfs2.osfs2Create (some (stripSlash rel))
      if ino = 0 then return Except.error (-enomem) else return .ok ino) v
      fun r w => v.Moves w ∧ ∀ ino, r = .ok ino → w.live ino = true := by
    refine bind (createAt ho (fun _ => ?_) fun parent leaf hp r w made => ?_)
    · rw [if_pos rfl]
      exact pure ⟨.stays,fun _ hr => nomatch hr⟩
    · split
      · exact pure ⟨.call (.create hp made),fun _ hr => nomatch hr⟩
      · next hr =>
        refine pure ⟨.call (.create hp made),fun ino he => ?_⟩
        cases he
        exact made.live ho hN (hN.parent hp) hr
  have miss : Does (if !flags.creat then return Except.error (-enoent)
      else do
        let ino ← VibeOS.Osfs2.osfs2Create (some (stripSlash rel))
        if ino = 0 then return .error (-enomem) else return .ok ino) v
      fun r w => v.Moves w ∧ ∀ ino, r = .ok ino → w.live ino = true := by
    split
    · exact pure ⟨.stays,fun _ hr => nomatch hr⟩
    · exact create
  refine bind (osfs2Lookup ho (fun r hr => ?_) fun _ => ?_)
  swap
  · rw [if_pos rfl]
    exact miss
  have hlive := hN.walks hr
  by_cases hroot : r = inodeRoot
  · rw [if_pos hroot,if_pos rfl]
    exact miss
  rw [if_neg hroot]
  by_cases hino : r = 0
  · rw [if_pos hino]
    exact miss
  rw [if_neg hino]
  split
  · refine bind (truncates ho fun rc w cut => ?_)
    split
    · exact pure ⟨.call (.truncate cut),fun _ hr => nomatch hr⟩
    · refine pure ⟨.call (.truncate cut),fun ino he => ?_⟩
      cases he
      rw [(cut.keeps ho).live]
      exact hlive
  · refine pure ⟨.stays,fun ino he => ?_⟩
    cases he
    exact hlive

lemma osfs2Size : Does (osfs2Size i) v fun _ w => w = v := by
  refine bind (readInode (fun _ => pure rfl) fun _ => ?_)
  dsimp only
  split
  · exact pure rfl
  · exact pure rfl

end Does

lemma Vol.Renames.keepsOrFrees {c : Call} {r : ℤ} (h : v.Renames c r w) (hi : v.live i = true) :
    w.live i = true ∨ (w.inode i).type = typeFree := by
  have linked {parent n ino type name} (l : v.Links parent n ino type name w) : w.live i = true := by
    rw [l.live,update_apply]
    split
    · rfl
    · exact hi
  have unlinked {parent n ino} (u : v.Unlinks parent n ino w) : w.live i = true ∨ (w.inode i).type = typeFree := by
    by_cases he : i = ino
    · exact .inr (he ▸ u.freed)
    · rw [u.live,update_of_ne he]
      exact .inl hi
  cases h with
  | keeps k => exact .inl (k.live ▸ hi)
  | create _ l | mkdir _ l => exact .inl (linked l)
  | unlink _ _ u | rmdir _ _ _ u => exact unlinked u

lemma Vol.Moves.owned (h : v.Moves w) (ho : v.Owned) : w.Owned := by
  cases h with
  | stays => exact ho
  | call now => exact now.owned ho

lemma Vol.Moves.named (h : v.Moves w) (ho : v.Owned) (hN : v.Named) : w.Named := by
  cases h with
  | stays => exact hN
  | call now => exact (now.renames ho hN).named hN

lemma Vol.Moves.keepsOrFrees (h : v.Moves w) (ho : v.Owned) (hN : v.Named) (hi : v.live i = true) :
    w.live i = true ∨ (w.inode i).type = typeFree := by
  cases h with
  | stays => exact .inl hi
  | call now => exact (now.renames ho hN).keepsOrFrees hi

lemma Writes.free {offset len : UInt64} {src : ℕ → UInt8} {r : ℤ} (h : Writes v i offset src len r w)
    (hf : (v.inode i).type = typeFree) : w = v ∧ (r = -1 ∨ len = 0) := by
  have bad {offset' len'} (ok : Writable v i offset' len') : False :=
    absurd (hf.symm.trans ok.file) (by decide)
  cases h with
  | nothing h => exact ⟨rfl,.inr h⟩
  | refused => exact ⟨rfl,.inl rfl⟩
  | full ok | wrote ok => exact (bad ok).elim

end VibeOS.Osfs2

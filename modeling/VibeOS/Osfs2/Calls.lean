import VibeOS.Osfs2.Format

/-! Runs of the driver: calls of its public functions with any arguments, and flushes of the
cache at any time in between, on a device that completes every request. -/
namespace VibeOS.Osfs2
open VibeOS.Storage

/-- A call that may change the file system. A path is `none` where the pointer is NULL. -/
inductive Call
  | create (path : Option CString)
  | mkdir (path : Option CString)
  | unlink (path : Option CString)
  | rmdir (path : Option CString)
  | write (ino : UInt32) (offset : UInt64) (src : ℕ → UInt8) (len : UInt64)
  | truncate (ino size : UInt32)

def Call.run : Call → Fs ℤ
  | .create path => do let ino ← osfs2Create path; return (ino.toNat : ℤ)
  | .mkdir path => do let ino ← osfs2Mkdir path; return (ino.toNat : ℤ)
  | .unlink path => osfs2Unlink path
  | .rmdir path => osfs2Rmdir path
  | .write ino offset src len => osfs2Write ino offset src len
  | .truncate ino size => osfs2Truncate ino size

/-- What a call may return and leave behind on a volume. -/
inductive Happens (v : Vol) : Call → ℤ → Vol → Prop
  | createMiss {path} (miss : ∀ parent leaf, ¬ v.Parent (path.map Subtype.val) parent leaf) :
      Happens v (.create path) 0 v
  | create {path parent leaf r w} (split : v.Parent (path.map Subtype.val) parent leaf)
      (made : Creates v parent leaf typeFile r w) : Happens v (.create path) r.toNat w
  | mkdirMiss {path} (miss : ∀ parent leaf, ¬ v.Parent (path.map Subtype.val) parent leaf) :
      Happens v (.mkdir path) 0 v
  | mkdir {path parent leaf r w} (split : v.Parent (path.map Subtype.val) parent leaf)
      (made : Creates v parent leaf typeDir r w) : Happens v (.mkdir path) r.toNat w
  | unlinkMiss {path} : Happens v (.unlink path) (-1) v
  | unlink {path parent n e r w} (victim : v.Victim (path.map Subtype.val) parent n e)
      (file : (v.inode e.ino).type ≠ typeDir) (gone : Removes v parent n e.ino r w) :
      Happens v (.unlink path) r w
  | rmdirMiss {path} : Happens v (.rmdir path) (-1) v
  | rmdir {path parent n e r w} (victim : v.Victim (path.map Subtype.val) parent n e)
      (dir : (v.inode e.ino).type = typeDir) (ne_root : e.ino ≠ inodeRoot)
      (empty : ∀ m < (v.inode e.ino).slots, ∃ d, v.slot (v.inode e.ino) m = some d ∧ d.ino = 0)
      (gone : Removes v parent n e.ino r w) : Happens v (.rmdir path) r w
  | write {ino offset src len r w} (went : Writes v ino offset src len r w) :
      Happens v (.write ino offset src len) r w
  | truncate {ino size r w} (cut : Truncates v ino size r w) : Happens v (.truncate ino size) r w

lemma Does.call {v : Vol} (ho : v.Owned) (c : Call) : Does c.run v (Happens v c) := by
  cases c with
  | create path =>
    exact bind (createAt ho (fun hm => pure (.createMiss hm)) fun _ _ hp _ _ hc => pure (.create hp hc))
  | mkdir path =>
    exact bind (createAt ho (fun hm => pure (.mkdirMiss hm)) fun _ _ hp _ _ hc => pure (.mkdir hp hc))
  | unlink path => exact osfs2Unlink ho .unlinkMiss fun _ _ _ hv hf _ _ hr => .unlink hv hf hr
  | rmdir path => exact osfs2Rmdir ho .rmdirMiss fun _ _ _ hv hd hn he _ _ hr => .rmdir hv hd hn he hr
  | write ino offset src len => exact osfs2Write ho fun _ _ hw => .write hw
  | truncate ino size => exact truncates ho fun _ _ ht => .truncate ht

lemma Happens.owned {v w : Vol} {c : Call} {r : ℤ} (h : Happens v c r w) (ho : v.Owned) : w.Owned := by
  cases h with
  | createMiss | mkdirMiss | unlinkMiss | rmdirMiss => exact ho
  | create _ made | mkdir _ made => exact made.owned ho
  | unlink _ _ gone | rmdir _ _ _ _ gone => exact gone.owned ho
  | write went => exact went.owned ho
  | truncate cut => exact cut.owned ho

lemma Happens.writes {v w : Vol} {i : UInt32} {offset len : UInt64} {src : ℕ → UInt8} {r : ℤ}
    (h : Happens v (.write i offset src len) r w) : Writes v i offset src len r w := by
  cases h with
  | write went => exact went

lemma Happens.truncates {v w : Vol} {i size : UInt32} {r : ℤ} (h : Happens v (.truncate i size) r w) :
    Truncates v i size r w := by
  cases h with
  | truncate cut => exact cut

/-- What happens to the mounted system: a call, or a flush of the cache. -/
inductive Event
  | call (c : Call)
  | flush

namespace Sys

def call (σ : Sys) (c : Call) : ℤ × Sys := σ.exec c.run

def step (σ : Sys) : Event → Sys
  | .call c => (σ.call c).2
  | .flush => σ.flush.2

def after (σ : Sys) (es : List Event) : Sys := es.foldl step σ

lemma after_append (σ : Sys) (es es' : List Event) : σ.after (es ++ es') = (σ.after es).after es' :=
  List.foldl_append

/-- The system holds a volume without shared or free blocks in use. -/
structure Sound (σ : Sys) : Prop where
  mounts : σ.Mounts σ.vol
  owned : σ.vol.Owned

lemma Sound.call {σ : Sys} (h : σ.Sound) (c : Call) :
    (σ.call c).2.Sound ∧ Happens σ.vol c (σ.call c).1 (σ.call c).2.vol := by
  obtain ⟨hm,hh⟩ := (Does.call h.owned c).exec h.mounts
  exact ⟨⟨hm,hh.owned h.owned⟩,hh⟩

lemma Sound.flush {σ : Sys} (h : σ.Sound) : σ.flush.2.Sound ∧ σ.flush.2.vol = σ.vol := by
  have hm := h.mounts.flush
  have hv := hm.vol_eq
  exact ⟨⟨hv ▸ hm,hv ▸ h.owned⟩,hv⟩

lemma Sound.after {I : Vol → Prop} (hI : ∀ v c r w, v.Owned → I v → Happens v c r w → I w) {σ : Sys}
    (h : σ.Sound) (hv : I σ.vol) (es : List Event) : (σ.after es).Sound ∧ I (σ.after es).vol := by
  induction es generalizing σ with
  | nil => exact ⟨h,hv⟩
  | cons e es ih =>
    cases e with
    | call c =>
      obtain ⟨hs,hh⟩ := h.call c
      exact ih hs (hI _ _ _ _ h.owned hv hh)
    | flush =>
      obtain ⟨hs,he⟩ := h.flush
      exact ih hs (he ▸ hv)

lemma Sound.stages {P : ℕ → Vol → Prop} {c : ℕ → Call} {n : ℕ} (hP : ∀ k < n, ∀ v r w, v.Owned → P k v →
    Happens v (c k) r w → P (k+1) w) {σ : Sys} (h : σ.Sound) (h0 : P 0 σ.vol) :
    (σ.after ((List.range n).map fun k => .call (c k))).Sound ∧
      P n (σ.after ((List.range n).map fun k => .call (c k))).vol := by
  induction n with
  | zero => exact ⟨h,h0⟩
  | succ n ih =>
    obtain ⟨hs,hp⟩ := ih fun k hk => hP k (by omega)
    rw [List.range_succ,List.map_append,after_append]
    obtain ⟨hs',hh⟩ := hs.call (c n)
    exact ⟨hs',hP n (by omega) _ _ _ hs.owned hp hh⟩

end Sys

lemma fresh_vol : fresh.vol = imageVol := fresh_mounts.vol_eq

lemma fresh_sound : fresh.Sound where
  mounts := by rw [fresh_vol]; exact fresh_mounts
  owned := by rw [fresh_vol]; exact imageVol_owned

/-- Every pointer of an inode that is marked in the bitmap is to a data block that is marked
in the bitmap, and no two positions hold the same block. -/
structure BlocksOwned (s : FsState) (v : Vol) : Prop where
  inside : ∀ i p, v.live i = true → v.own (i,p) ≠ 0 →
    s.sb.dataStartBlock ≤ v.own (i,p) ∧ v.own (i,p) < s.sb.totalBlocks
  used : ∀ i p, v.live i = true → v.own (i,p) ≠ 0 → bitmapGet s.blockBitmap (v.own (i,p)) = true
  once : ∀ i p k q, v.live i = true → v.live k = true → v.own (i,p) ≠ 0 →
    v.own (i,p) = v.own (k,q) → i = k ∧ p = q

lemma Sys.Sound.blocksOwned {σ : Sys} (h : σ.Sound) : BlocksOwned σ.fs σ.vol := by
  obtain ⟨_,_,hr⟩ := h.mounts
  have hlo : σ.fs.sb.dataStartBlock.toNat = 100 := by rw [hr.sb]; rfl
  have hhi : σ.fs.sb.totalBlocks.toNat = 16384 := by rw [hr.sb]; rfl
  refine ⟨fun i p _ h0 => ?_,fun i p _ h0 => ?_,fun i p k q _ _ h0 he => ?_⟩
  · obtain ⟨hd,-⟩ := Owns.held h.owned (i,p) h0
    rw [UInt32.le_iff_toNat_le,UInt32.lt_iff_toNat_lt,hlo,hhi]
    exact hd
  · rw [← hr.used]
    exact (Owns.held h.owned (i,p) h0).2
  · exact Prod.mk.inj (Owns.inj h.owned (i,p) (k,q) h0 he)

/-- From a freshly formatted image, after any calls with any arguments and any flushes, the
blocks of the allocated inodes are owned. -/
theorem blocks_owned (es : List Event) : BlocksOwned (fresh.after es).fs (fresh.after es).vol :=
  ((fresh_sound.after (I := fun _ => True) (fun _ _ _ _ _ _ _ => trivial) trivial es).1).blocksOwned

end VibeOS.Osfs2

import VibeOS.Osfs2.Unlinking
import VibeOS.Osfs2.CacheCoherence
import VibeOS.Storage.Served

/-! The driver on its cache: the functions of `osfs2.c` with `osfs2_cache_read` and
`osfs2_cache_write` behind `read_block` and `write_block`, on a device that completes every
request. What `Does` says of a function on a volume holds of it here. -/
namespace VibeOS.Osfs2
open Function
open VibeOS.Storage

def cacheLayer : Layer Cache Block Sector where
  read c a := osfs2CacheRead c (UInt32.ofNat a)
  write c a b := osfs2CacheWrite c (UInt32.ofNat a) b

/-- The module states of the driver, its cache and its journal, and the disk. -/
structure Sys where
  fs : FsState
  cache : Cache
  disk : Disk

namespace Sys
variable (σ : Sys)

def exec {α : Type} (f : Fs α) : α × Sys :=
  let r := (cacheLayer.serve (f σ.fs) σ.cache).run σ.disk
  (r.1.1.1,⟨r.1.1.2,r.1.2,r.2⟩)

/-- A flush of the whole cache, by `fsync` or by the background thread. -/
def flush : Bool × Sys :=
  let r := (osfs2CacheFlush σ.cache).run σ.disk
  (r.1.1,⟨σ.fs,r.1.2,r.2⟩)

def block (b : UInt32) : Block :=
  match findSlot σ.cache b with
  | some i => (σ.cache.slots i).data
  | none => blockAt σ.disk b

def vol : Vol := volOf σ.fs fun a => σ.block (UInt32.ofNat a)

end Sys

/-- Where `mkosfs2.py` puts the journal. -/
def journalPlace : JournalPlace := (osfs2JournalInit 67 32).toJournalPlace

lemma journalPlace_fits : journalPlace.Fits := osfs2JournalInit_fits 67 32

lemma journalPlace_owns (b : UInt32) : journalPlace.owns b ↔ 67 ≤ b.toNat ∧ b.toNat ≤ 99 := by
  have hb := b.toNat_lt
  have hm : journalPlace.maxBlocks = 32 := by decide
  have hh : journalPlace.headerBlock = 67 := rfl
  rw [JournalPlace.owns,hm,hh,UInt32.le_iff_toNat_le,UInt32.toNat_sub]
  change (2^32 - 67 + b.toNat) % 2^32 ≤ 32 ↔ _
  omega

lemma fsBlock.toNat {a : ℕ} (h : fsBlock a) : (UInt32.ofNat a).toNat = a := by
  have hlt := h.2.1
  rw [UInt32.toNat_ofNat']
  omega

lemma fsBlock.outside {a : ℕ} (h : fsBlock a) : ¬ journalPlace.owns (UInt32.ofNat a) := by
  rw [journalPlace_owns,h.toNat]
  have := h.2.2
  omega

variable {c : Cache} {d : Disk} {latest : UInt32 → Block}

lemma commit_single_rc (j : Journal) (hj : j.toJournalPlace = journalPlace) (w : UInt32 × Block) (d : Disk) :
    ((osfs2JournalCommit j [w]).run d).1.1.rc = 0 := by
  have hm : j.maxBlocks = 32 := by rw [hj]; decide
  rw [commit_run j [w] d (by simp) (by rw [hm]; exact (by decide : 1 ≤ UInt32.toNat 32))]
  rfl

lemma flushSlot_succeeds (hj : c.journal.toJournalPlace = journalPlace) (i : Fin 32) (d : Disk) :
    ((flushSlot c i).run d).1.1 = true := by
  unfold flushSlot
  split_ifs
  · rfl
  · rw [Prog.run_bind,if_neg (by simp [commit_single_rc _ hj])]
    rfl

lemma evict_succeeds (hj : c.journal.toJournalPlace = journalPlace) (i : Fin 32) (d : Disk) :
    ((evict c i).run d).1.1 = true := by
  unfold evict
  cases hv : (c.slots i).valid with
  | false => rfl
  | true =>
    rw [if_pos rfl,Prog.run_bind]
    have hok : ((if (c.slots i).dirty then flushSlot c i else .ret (true,c)).run d).1.1 = true := by
      split_ifs
      · exact flushSlot_succeeds hj i d
      · rfl
    rw [if_pos hok]
    rfl

lemma osfs2CacheRead_reliable (h : Coherent journalPlace latest c d) {b : UInt32} (hb : ¬ journalPlace.owns b) :
    Safe Env.reliable (fun r d' => Coherent journalPlace latest r.2 d' ∧ r.1 = some (latest b))
      (osfs2CacheRead c b) d := by
  have hsome : ((osfs2CacheRead c b).run d).1.1 ≠ none := by
    unfold osfs2CacheRead
    cases findSlot c b with
    | some i => exact Option.some_ne_none _
    | none =>
      rw [Prog.run_bind,if_neg (by simp [evict_succeeds h.place]),Prog.run_bind,rawRead_run]
      exact Option.some_ne_none _
  obtain ⟨hc,hval⟩ := (osfs2CacheRead_coherent journalPlace_fits h b).run_sound trivial
  refine Safe.reliable_iff.mpr ⟨hc,?_⟩
  obtain ⟨x,hx⟩ := Option.ne_none_iff_exists'.mp hsome
  rw [hx,hval x hx hb]

lemma osfs2CacheWrite_reliable (h : Coherent journalPlace latest c d) (b : UInt32) (buf : Block) :
    Safe Env.reliable (fun r d' => Coherent journalPlace (update latest b buf) r.2 d' ∧ r.1 = true)
      (osfs2CacheWrite c b buf) d := by
  have htrue : ((osfs2CacheWrite c b buf).run d).1.1 = true := by
    unfold osfs2CacheWrite
    cases findSlot c b with
    | some i => rfl
    | none =>
      rw [Prog.run_bind,if_neg (by simp [evict_succeeds h.place])]
      rfl
  have hc := (osfs2CacheWrite_coherent journalPlace_fits h b buf).run_sound trivial
  rw [if_pos htrue] at hc
  exact Safe.reliable_iff.mpr ⟨hc,htrue⟩

/-- The blocks that a driver above a coherent cache sees. -/
def Shows (u : Store Block) (c : Cache) (d : Disk) : Prop :=
  ∃ latest, Coherent journalPlace latest c d ∧ ∀ a, fsBlock a → u a = latest (UInt32.ofNat a)

lemma cacheLayer_correct : cacheLayer.Correct Env.reliable fsBlock Shows where
  crash _ _ _ _ := trivial
  read u c d a := by
    rintro ⟨latest,hc,hu⟩ ha
    refine (osfs2CacheRead_reliable hc ha.outside).mono fun r d' ⟨hc',hr⟩ => ?_
    exact ⟨⟨latest,hc',hu⟩,by rw [hr,hu a ha]⟩
  write u c d a b := by
    rintro ⟨latest,hc,hu⟩ ha
    refine (osfs2CacheWrite_reliable hc (UInt32.ofNat a) b).mono fun r d' ⟨hc',hr⟩ => ?_
    refine ⟨⟨_,hc',fun k hk => ?_⟩,hr⟩
    by_cases hka : k = a
    · subst hka
      rw [update_self,update_self]
    · have hne : UInt32.ofNat k ≠ UInt32.ofNat a := fun he => hka (by
        rw [← hk.toNat,he,ha.toNat])
      rw [update_of_ne hka,update_of_ne hne,hu k hk]

lemma Rep.congr {v : Vol} {s : FsState} {u u' : Store Block} (h : Rep v s u)
    (he : ∀ a, fsBlock a → u' a = u a) : Rep v s u' where
  present := h.present
  sb := h.sb
  used := h.used
  live := h.live
  blockBitmap := (he 1 (by unfold fsBlock; omega)).trans h.blockBitmap
  inodeBitmap := (he 2 (by unfold fsBlock; omega)).trans h.inodeBitmap
  inode i := by
    rw [h.inode]
    split_ifs with hi
    · rw [he (3 + i.toNat/32) (by unfold fsBlock; omega)]
    · rfl
  data b := by
    rw [h.data]
    split_ifs with hb
    · rw [he b.toNat hb.fsBlock]
    · rfl

/-- The system holds the volume: the cache is coherent, and what it shows represents it. -/
def Sys.Mounts (σ : Sys) (v : Vol) : Prop := ∃ u, Shows u σ.cache σ.disk ∧ Rep v σ.fs u

lemma Coherent.block {σ : Sys} (h : Coherent journalPlace latest σ.cache σ.disk) {b : UInt32}
    (hb : ¬ journalPlace.owns b) : σ.block b = latest b := by
  unfold Sys.block
  cases hf : findSlot σ.cache b with
  | some i =>
    obtain ⟨hv,rfl⟩ := findSlot_some hf
    exact h.data i hv hb
  | none => exact h.disk b hb fun i hv _ => findSlot_none hf i hv

lemma Sys.Mounts.vol_eq {σ : Sys} {v : Vol} (h : σ.Mounts v) : σ.vol = v := by
  obtain ⟨u,⟨latest,hc,hu⟩,hr⟩ := h
  refine ((hr.congr fun a ha => ?_).eq_volOf).symm
  rw [hu a ha,hc.block ha.outside]

lemma Does.exec {α : Type} {f : Fs α} {v : Vol} {Q : α → Vol → Prop} (hf : Does f v Q) {σ : Sys}
    (h : σ.Mounts v) : (σ.exec f).2.Mounts (σ.exec f).2.vol ∧ Q (σ.exec f).1 (σ.exec f).2.vol := by
  obtain ⟨u,hu,hr⟩ := h
  obtain ⟨u',hu',v',hr',hq⟩ := (cacheLayer_correct.serve (hf σ.fs u hr) hu).run_sound rfl
  have hm : (σ.exec f).2.Mounts v' := ⟨u',hu',hr'⟩
  rw [hm.vol_eq]
  exact ⟨hm,hq⟩

lemma Sys.Mounts.flush {σ : Sys} {v : Vol} (h : σ.Mounts v) : σ.flush.2.Mounts v := by
  obtain ⟨u,⟨latest,hc,hu⟩,hr⟩ := h
  exact ⟨u,⟨latest,((osfs2CacheFlush_coherent journalPlace_fits hc).run_sound trivial).1,hu⟩,hr⟩

end VibeOS.Osfs2

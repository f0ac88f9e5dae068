import VibeOS.Osfs2.JournalDisk

/-! The write-back block cache of `osfs2_cache.c`: 32 slots in front of the device, a victim
chosen by age, and every write to the device handed to the journal. -/
namespace VibeOS.Osfs2
open Function
open VibeOS.Storage

structure Slot where
  blk : UInt32
  valid : Bool
  dirty : Bool
  lastUsed : UInt64
  data : Block

/-- The module state; the journal's own state travels with it. -/
structure Cache where
  slots : Fin 32 → Slot
  clock : UInt64
  hits : UInt64
  misses : UInt64
  writebacks : UInt64
  evictions : UInt64
  journal : Journal

namespace Cache

def setSlot (c : Cache) (i : Fin 32) (s : Slot) : Cache :=
  { c with slots := update c.slots i s }

@[simp] lemma setSlot_slots (c : Cache) (i : Fin 32) (s : Slot) :
    (c.setSlot i s).slots = update c.slots i s := rfl
@[simp] lemma setSlot_journal (c : Cache) (i : Fin 32) (s : Slot) :
    (c.setSlot i s).journal = c.journal := rfl

/-- `dirty = 0; g_writebacks++`. -/
def markClean (c : Cache) (i : Fin 32) : Cache :=
  { c.setSlot i { c.slots i with dirty := false } with writebacks := c.writebacks + 1 }

@[simp] lemma markClean_slots (c : Cache) (i : Fin 32) :
    (c.markClean i).slots = update c.slots i { c.slots i with dirty := false } := rfl
@[simp] lemma markClean_journal (c : Cache) (i : Fin 32) :
    (c.markClean i).journal = c.journal := rfl

end Cache

def osfs2CacheInit (j : Journal) : Cache where
  slots _ := ⟨0,false,false,0,Bytes.zero⟩
  clock := 0
  hits := 0
  misses := 0
  writebacks := 0
  evictions := 0
  journal := j

def findSlot (c : Cache) (blk : UInt32) : Option (Fin 32) :=
  (List.finRange 32).find? fun i => (c.slots i).valid && (c.slots i).blk == blk

/-- The loop of `pick_victim` over the slots still to be looked at. -/
def pickVictimFrom (c : Cache) : List (Fin 32) → Fin 32 → UInt64 → Fin 32
  | [], victim, _ => victim
  | i :: is, victim, oldest =>
    if !(c.slots i).valid then i
    else if (c.slots i).lastUsed < oldest then pickVictimFrom c is i (c.slots i).lastUsed
    else pickVictimFrom c is victim oldest

def pickVictim (c : Cache) : Fin 32 := pickVictimFrom c (List.finRange 32) 0 0xFFFFFFFFFFFFFFFF

def flushSlot (c : Cache) (i : Fin 32) : Prog Sector (Bool × Cache) :=
  if !(c.slots i).valid || !(c.slots i).dirty then .ret (true,c)
  else osfs2JournalCommit c.journal [((c.slots i).blk,(c.slots i).data)] >>= fun r =>
    if r.1.rc ≠ 0 then .ret (false,{ c with journal := r.2 })
    else .ret (true,({ c with journal := r.2 } : Cache).markClean i)

/-- Both misses start by flushing a dirty victim; the slot may be reused when this succeeds. -/
def evict (c : Cache) (v : Fin 32) : Prog Sector (Bool × Cache) :=
  if (c.slots v).valid then
    (if (c.slots v).dirty then flushSlot c v else .ret (true,c)) >>= fun r =>
      if r.1 then .ret (true,{ r.2 with evictions := r.2.evictions + 1 }) else .ret (false,r.2)
  else .ret (true,c)

/-- The result is the block, or `none` for the return value -1. A failed read leaves part of
the block in the victim's buffer, which nothing looks at while the slot is invalid. -/
def osfs2CacheRead (c : Cache) (blk : UInt32) : Prog Sector (Option Block × Cache) :=
  match findSlot c blk with
  | some i =>
    .ret (some (c.slots i).data,{ c.setSlot i { c.slots i with lastUsed := c.clock + 1 } with
      clock := c.clock + 1
      hits := c.hits + 1 })
  | none =>
    let v := pickVictim c
    evict c v >>= fun r =>
      if !r.1 then .ret (none,r.2)
      else rawRead blk >>= fun
        | none => .ret (none,r.2.setSlot v { r.2.slots v with valid := false })
        | some b => .ret (some b,{ r.2.setSlot v ⟨blk,true,false,r.2.clock + 1,b⟩ with
            clock := r.2.clock + 1
            misses := r.2.misses + 1 })

/-- The last lines of `osfs2_cache_write`, for the slot that now holds the block. -/
def Cache.store (c : Cache) (i : Fin 32) (blk : UInt32) (buf : Block) : Cache :=
  { c.setSlot i ⟨blk,true,true,c.clock + 1,buf⟩ with clock := c.clock + 1 }

def osfs2CacheWrite (c : Cache) (blk : UInt32) (buf : Block) : Prog Sector (Bool × Cache) :=
  match findSlot c blk with
  | some i => .ret (true,c.store i blk buf)
  | none =>
    let v := pickVictim c
    evict c v >>= fun r => if !r.1 then .ret (false,r.2) else .ret (true,r.2.store v blk buf)

def dirtySlots (c : Cache) : List (Fin 32) :=
  (List.finRange 32).filter fun i => (c.slots i).valid && (c.slots i).dirty

def dirtyBatch (c : Cache) : Batch := (dirtySlots c).map fun i => ((c.slots i).blk,(c.slots i).data)

def osfs2CacheFlush (c : Cache) : Prog Sector (Bool × Cache) :=
  if (dirtySlots c).length = 0 then .ret (true,c)
  else osfs2JournalCommit c.journal (dirtyBatch c) >>= fun r =>
    if r.1.rc ≠ 0 then .ret (false,{ c with journal := r.2 })
    else .ret (true,(dirtySlots c).foldl Cache.markClean { c with journal := r.2 })

lemma findSlot_some {c : Cache} {blk : UInt32} {i : Fin 32} (h : findSlot c blk = some i) :
    (c.slots i).valid = true ∧ (c.slots i).blk = blk := by
  have hp := List.find?_some h
  simpa using hp

lemma findSlot_none {c : Cache} {blk : UInt32} (h : findSlot c blk = none) (i : Fin 32)
    (hv : (c.slots i).valid = true) : (c.slots i).blk ≠ blk := by
  have hp := List.find?_eq_none.mp h i (List.mem_finRange i)
  simpa [hv] using hp

lemma mem_dirtySlots {c : Cache} {i : Fin 32} :
    i ∈ dirtySlots c ↔ (c.slots i).valid = true ∧ (c.slots i).dirty = true := by
  simp [dirtySlots,List.mem_finRange]

lemma foldl_markClean_slots (m : List (Fin 32)) (c : Cache) (i : Fin 32) :
    (m.foldl Cache.markClean c).slots i =
      if i ∈ m then { c.slots i with dirty := false } else c.slots i := by
  induction m generalizing c with
  | nil => rfl
  | cons k m ih =>
    rw [List.foldl_cons,ih,Cache.markClean_slots]
    by_cases hk : i = k
    · subst hk
      by_cases hm : i ∈ m <;> simp [hm]
    · simp [hk]

lemma foldl_markClean_journal (m : List (Fin 32)) (c : Cache) :
    (m.foldl Cache.markClean c).journal = c.journal := by
  induction m generalizing c with
  | nil => rfl
  | cons k m ih => rw [List.foldl_cons,ih,Cache.markClean_journal]

/-- The cache and the disk together hold the contents `latest` of every block outside the
journal: a block is in at most one slot, its slot is up to date, and the disk is up to date
wherever no dirty slot is. -/
structure Coherent (g : JournalPlace) (latest : UInt32 → Block) (c : Cache) (d : Disk) : Prop where
  place : c.journal.toJournalPlace = g
  unique : ∀ i k, (c.slots i).valid = true → (c.slots k).valid = true →
    (c.slots i).blk = (c.slots k).blk → i = k
  clean : ∀ i, (c.slots i).valid = false → (c.slots i).dirty = false
  data : ∀ i, (c.slots i).valid = true → ¬ g.owns (c.slots i).blk →
    (c.slots i).data = latest (c.slots i).blk
  disk : ∀ b, ¬ g.owns b → (∀ i, (c.slots i).valid = true → (c.slots i).dirty = true →
    (c.slots i).blk ≠ b) → blockAt d b = latest b

lemma osfs2CacheInit_coherent (j : Journal) (d : Disk) :
    Coherent j.toJournalPlace (blockAt d) (osfs2CacheInit j) d where
  place := rfl
  unique _ _ h := absurd h (by simp [osfs2CacheInit])
  clean _ _ := rfl
  data _ h := absurd h (by simp [osfs2CacheInit])
  disk _ _ _ := rfl

/-- A commit changes no block outside the journal and its batch, and a successful one writes
all of the batch. The destinations may be anywhere. -/
lemma commit_blocks {g : JournalPlace} {j : Journal} (hj : j.toJournalPlace = g) (hg : g.Fits)
    (batch : Batch) (hn : (batch.map Prod.fst).Nodup) (d : Disk) :
    Safe Env.faulty (fun r d' => r.2.toJournalPlace = g ∧
      (∀ b, ¬ g.owns b → (∀ w ∈ batch, w.1 ≠ b) → blockAt d' b = blockAt d b) ∧
      (r.1.rc = 0 → ∀ w ∈ batch, ¬ g.owns w.1 → blockAt d' w.1 = w.2))
      (osfs2JournalCommit j batch) d := by
  subst hj
  by_cases h0 : batch.length = 0
  · rw [osfs2JournalCommit,if_pos h0]
    refine ⟨trivial,rfl,fun _ _ _ => rfl,fun _ w hw => ?_⟩
    rw [List.length_eq_zero_iff.mp h0] at hw
    exact absurd hw List.not_mem_nil
  by_cases hle : batch.length ≤ j.maxBlocks.toNat
  swap
  · rw [osfs2JournalCommit,if_neg h0,if_pos (by omega)]
    exact ⟨trivial,rfl,fun _ _ _ => rfl,fun h => absurd h (by simp [CommitExit.rc])⟩
  have hout {d₁ d₂ : Disk} (h : Agree j.toJournalPlace d₁ d₂) {b : UInt32}
      (hb : ¬ j.owns b) : blockAt d₁ b = blockAt d₂ b :=
    blockAt_congr fun i hi => h _ (by rwa [inJournal_sector hi])
  have happly (n : ℕ) {b : UInt32} (hb : ¬ j.owns b) (hne : ∀ w ∈ batch, w.1 ≠ b) :
      blockAt (applyDisk j batch d n) b = blockAt d b := by
    have hh : blockAt (headerDone j batch d) b = blockAt d b :=
      hout (headerDone_eq ▸ headerDisk_agree hg hle _) hb
    rw [← hh]
    refine blockAt_congr fun i hi => applyWrites_of_not_mem _ _ fun s hs he => ?_
    obtain ⟨w,hw,k,hk,rfl⟩ := mem_batchSectors (List.mem_of_mem_take hs)
    exact hne w hw (lba_inj hk hi he).1
  have hcheck (n : ℕ) {b : UInt32} (hb : ¬ j.owns b) :
      blockAt (checkpointDisk j batch d n) b = blockAt (applyDone j batch d) b :=
    hout (agree_zeroHeaderDisk _ _ _) hb
  have hdone {w : UInt32 × Block} (hw : w ∈ batch) : blockAt (applyDone j batch d) w.1 = w.2 :=
    blockAt_batch_of_mem batch _ hn hw
  have hfull : checkpointDone j batch d = checkpointDisk j batch d
      (blockSectors j.headerBlock JournalHeader.zero.toBlock).length := by
    rw [checkpointDisk,List.take_length,checkpointDone]
  have hend (n : ℕ) : (∀ b, ¬ j.owns b → (∀ w ∈ batch, w.1 ≠ b) →
        blockAt (checkpointDisk j batch d n) b = blockAt d b) ∧
      ∀ w ∈ batch, ¬ j.owns w.1 → blockAt (checkpointDisk j batch d n) w.1 = w.2 := by
    refine ⟨fun b hb hne => ?_,fun w hw hb => ?_⟩
    · rw [hcheck n hb,applyDone_eq,happly _ hb hne]
    · rw [hcheck n hb,hdone hw]
  have hfail (e : CommitExit) (he : e.rc ≠ 0) {d' : Disk}
      (h : ∀ b, ¬ j.owns b → (∀ w ∈ batch, w.1 ≠ b) → blockAt d' b = blockAt d b) :
      (journalAfter j batch e).toJournalPlace = j.toJournalPlace ∧
      (∀ b, ¬ j.owns b → (∀ w ∈ batch, w.1 ≠ b) → blockAt d' b = blockAt d b) ∧
      (e.rc = 0 → ∀ w ∈ batch, ¬ j.owns w.1 → blockAt d' w.1 = w.2) :=
    ⟨journalAfter_place _ _ _,h,fun h0 => absurd h0 he⟩
  refine Safe.commit j batch d (fun _ => trivial) h0 hle (fun _ => trivial) (fun _ => trivial)
    (fun _ => trivial) (fun _ => trivial)
    (fun _ n => hfail _ (by decide) fun b hb _ => hout (payloadDisk_agree hg hle n) hb)
    (fun _ n => hfail _ (by decide) fun b hb _ => hout (headerDisk_agree hg hle n) hb)
    (fun _ n => hfail _ (by decide) fun b hb hne => happly n hb hne)
    (fun _ n => ⟨journalAfter_place _ _ _,(hend n).1,fun _ => (hend n).2⟩) ?_
  rw [hfull]
  exact ⟨journalAfter_place _ _ _,(hend _).1,fun _ => (hend _).2⟩

end VibeOS.Osfs2

import VibeOS.Osfs2.Journal

/-! What the journal's programs do to the disk, sector by sector: where the journal lies,
what its header and slots say, the disks a commit passes through and the ways a replay ends. -/
namespace VibeOS.Osfs2
open VibeOS.Storage List

/-- The slots follow the header and there are at most 32 of them. -/
structure JournalPlace.Fits (g : JournalPlace) : Prop where
  next : g.dataBlock0 = g.headerBlock + 1
  le : g.maxBlocks.toNat ≤ 32

lemma osfs2JournalInit_fits (hb n : UInt32) : (osfs2JournalInit hb n).Fits where
  next := rfl
  le := by
    simp only [osfs2JournalInit]
    split_ifs with h
    · decide
    · simpa [UInt32.le_iff_toNat_le,journalDataBlocks] using h

/-- The block is the header or one of the payload slots; the subtraction wraps around as
the slot numbers do. -/
def JournalPlace.owns (g : JournalPlace) (b : UInt32) : Prop := b - g.headerBlock ≤ g.maxBlocks

instance (g : JournalPlace) (b : UInt32) : Decidable (g.owns b) :=
  inferInstanceAs (Decidable (b - g.headerBlock ≤ g.maxBlocks))

def inJournal (g : JournalPlace) (a : ℕ) : Prop := ∃ b, g.owns b ∧ ∃ i < 8, a = lba b + i

def Agree (g : JournalPlace) (d d' : Disk) : Prop := ∀ a, ¬ inJournal g a → d a = d' a

def Outside (g : JournalPlace) (batch : Batch) : Prop := ∀ w ∈ batch, ¬ g.owns w.1

def diskHeader (g : JournalPlace) (d : Disk) : JournalHeader :=
  JournalHeader.ofBytes (d (lba g.headerBlock))

/-- The contents of the first `n` payload slots. -/
def slotsAt (g : JournalPlace) (d : Disk) (n : ℕ) : List Block :=
  (List.range n).map fun i => blockAt d (g.dataBlock0 + UInt32.ofNat i)

def Idle (g : JournalPlace) (d : Disk) : Prop := headerIsCommitted g (diskHeader g d) = false

/-- The journal on disk (header, CRC and payload slots) describes the whole batch. -/
structure Holds (g : JournalPlace) (d : Disk) (batch : Batch) : Prop where
  committed : headerIsCommitted g (diskHeader g d) = true
  dests : (diskHeader g d).dests = batch.map Prod.fst
  crc : (diskHeader g d).crc32 = computeCommitCrc batch
  slots : slotsAt g d batch.length = batch.map Prod.snd

def applyBatch (batch : Batch) (d : Disk) : Disk := applyWrites (batchSectors batch) d

namespace Agree
variable {g : JournalPlace} {d d' d'' : Disk}

lemma refl (d : Disk) : Agree g d d := fun _ _ => rfl
lemma trans (h : Agree g d d') (h' : Agree g d' d'') : Agree g d d'' :=
  fun a ha => (h a ha).trans (h' a ha)

lemma applyWrites (ws : List (ℕ × Sector)) (h : Agree g d d') :
    Agree g (applyWrites ws d) (applyWrites ws d') :=
  fun a ha => applyWrites_agree ws fun _ => h a ha

end Agree

variable {g : JournalPlace}

lemma inJournal_sector {b : UInt32} {i : ℕ} (hi : i < 8) :
    inJournal g (lba b + i) ↔ g.owns b := by
  constructor
  · rintro ⟨c,hc,k,hk,he⟩
    rwa [(lba_inj hi hk he).1]
  · intro hb
    exact ⟨b,hb,i,hi,rfl⟩

lemma owns_header (g : JournalPlace) : g.owns g.headerBlock := by
  rw [JournalPlace.owns,UInt32.sub_self,UInt32.le_iff_toNat_le]
  exact Nat.zero_le _

lemma slot_sub_header (hg : g.Fits) {i : ℕ} (hi : i < g.maxBlocks.toNat) :
    (g.dataBlock0 + UInt32.ofNat i - g.headerBlock).toNat = i + 1 := by
  have hl := hg.le
  have hh := g.headerBlock.toNat_lt
  rw [hg.next,UInt32.toNat_sub,UInt32.toNat_add,UInt32.toNat_add,UInt32.toNat_one,
    UInt32.toNat_ofNat']
  omega

lemma owns_slot (hg : g.Fits) {i : ℕ} (hi : i < g.maxBlocks.toNat) :
    g.owns (g.dataBlock0 + UInt32.ofNat i) := by
  have hs := slot_sub_header hg hi
  rw [JournalPlace.owns,UInt32.le_iff_toNat_le,hs]
  omega

lemma slot_ne_header (hg : g.Fits) {i : ℕ} (hi : i < g.maxBlocks.toNat) :
    g.dataBlock0 + UInt32.ofNat i ≠ g.headerBlock := by
  intro h
  have hs := slot_sub_header hg hi
  rw [h,UInt32.sub_self] at hs
  exact absurd hs (by simp)

variable {batch : Batch} {s : ℕ × Sector}

lemma Outside.sector (h : Outside g batch)
    (hs : s ∈ batchSectors batch) : ¬ inJournal g s.1 := by
  obtain ⟨w,hw,i,hi,rfl⟩ := mem_batchSectors hs
  rw [inJournal_sector hi]
  exact h w hw

def headerSector (g : JournalPlace) (a : ℕ) : Prop := ∃ k < 8, a = lba g.headerBlock + k

lemma headerSector_zero (g : JournalPlace) : headerSector g (lba g.headerBlock) :=
  ⟨0,by omega,rfl⟩

lemma headerSector.inJournal {a : ℕ} (h : headerSector g a) : inJournal g a := by
  obtain ⟨k,hk,rfl⟩ := h
  exact (inJournal_sector hk).mpr (owns_header g)

lemma mem_payloadSlots (hg : g.Fits) (hb : batch.length ≤ g.maxBlocks.toNat)
    (hs : s ∈ batchSectors (payloadSlots g batch)) :
    inJournal g s.1 ∧ ¬ headerSector g s.1 := by
  obtain ⟨w,hw,k,hk,rfl⟩ := mem_batchSectors hs
  obtain ⟨i,hi,rfl⟩ := List.mem_mapIdx.mp hw
  refine ⟨(inJournal_sector hk).mpr (owns_slot hg (by omega)),?_⟩
  rintro ⟨k',hk',he⟩
  exact slot_ne_header hg (by omega) (lba_inj hk hk' he).1

lemma payloadSlots_nodup (hg : g.Fits) (hb : batch.length ≤ g.maxBlocks.toNat) :
    ((payloadSlots g batch).map Prod.fst).Nodup := by
  rw [nodup_iff_injective_getElem]
  intro i j h
  have hi := i.isLt
  have hj := j.isLt
  simp only [payloadSlots,length_map,length_mapIdx] at hi hj
  simp only [payloadSlots,getElem_map,getElem_mapIdx] at h
  have hl := congrArg (fun b => (b - g.headerBlock).toNat) h
  simp only [slot_sub_header hg (show i.val < g.maxBlocks.toNat by omega),
    slot_sub_header hg (show j.val < g.maxBlocks.toNat by omega)] at hl
  exact Fin.ext (by omega)

lemma slotsAt_congr (hg : g.Fits) {d d' : Disk} {n : ℕ} (hn : n ≤ g.maxBlocks.toNat)
    (h : ∀ a, inJournal g a → ¬ headerSector g a → d a = d' a) :
    slotsAt g d n = slotsAt g d' n := by
  apply map_congr_left
  intro i hi
  rw [mem_range] at hi
  apply blockAt_congr
  intro k hk
  apply h
  · exact (inJournal_sector hk).mpr (owns_slot hg (by omega))
  · rintro ⟨k',hk',he⟩
    exact slot_ne_header hg (by omega) (lba_inj hk hk' he).1

lemma slotsAt_payloadSlots (hg : g.Fits) (d : Disk)
    (hb : batch.length ≤ g.maxBlocks.toNat) :
    slotsAt g (applyWrites (batchSectors (payloadSlots g batch)) d) batch.length =
      batch.map Prod.snd := by
  apply ext_getElem
  · simp [slotsAt]
  · intro i hi _
    simp only [slotsAt,length_map,length_range] at hi
    simp only [slotsAt,getElem_map,getElem_range]
    refine blockAt_batch_of_mem _ d (payloadSlots_nodup hg hb) ?_
    exact List.mem_mapIdx.mpr ⟨i,hi,rfl⟩

lemma diskHeader_take (d : Disk) (h : JournalHeader) (n : ℕ) :
    diskHeader g (applyWrites ((blockSectors g.headerBlock h.toBlock).take n) d) =
      if n = 0 then diskHeader g d else h := by
  cases n with
  | zero => rfl
  | succ n =>
    have hsplit : blockSectors g.headerBlock h.toBlock = (lba g.headerBlock,sectorOf h.toBlock 0) ::
        (List.range 7).map fun i => (lba g.headerBlock + (i+1),sectorOf h.toBlock (i+1)) := rfl
    have hs : applyWrites ((blockSectors g.headerBlock h.toBlock).take (n+1)) d (lba g.headerBlock) =
        sectorOf h.toBlock 0 := by
      rw [hsplit,take_succ_cons,applyWrites_cons,applyWrites_of_not_mem]
      · exact Function.update_self ..
      · intro w hw he
        obtain ⟨i,_,rfl⟩ := List.mem_map.mp (mem_of_mem_take hw)
        simp only at he
        omega
    rw [if_neg (by omega),diskHeader,hs,JournalHeader.ofBytes_sectorOf_zero]

lemma mem_headerSectors {h : JournalHeader} {n : ℕ}
    (hs : s ∈ (blockSectors g.headerBlock h.toBlock).take n) :
    headerSector g s.1 := by
  obtain ⟨i,hi,rfl⟩ := mem_blockSectors (mem_of_mem_take hs)
  exact ⟨i,hi,rfl⟩

lemma not_committed_zero : headerIsCommitted g JournalHeader.zero = false := by
  simp [headerIsCommitted,JournalHeader.zero]

lemma count_committedHeader (hg : g.Fits) (txn : UInt32)
    (hb : batch.length ≤ g.maxBlocks.toNat) :
    (committedHeader txn batch).blockCount.toNat = batch.length := by
  have hl := hg.le
  rw [committedHeader,UInt32.toNat_ofNat']
  omega

lemma committed_committedHeader (hg : g.Fits) (txn : UInt32)
    (h0 : batch.length ≠ 0) (hb : batch.length ≤ g.maxBlocks.toNat) :
    headerIsCommitted g (committedHeader txn batch) = true := by
  have hc := count_committedHeader hg txn hb
  have hne : (committedHeader txn batch).blockCount ≠ 0 := by
    intro he
    rw [he] at hc
    exact h0 hc.symm
  have hle : (committedHeader txn batch).blockCount ≤ g.maxBlocks := by
    rw [UInt32.le_iff_toNat_le,hc]
    exact hb
  simp only [headerIsCommitted,Bool.and_eq_true,bne_iff_ne,ne_eq,hne,not_false_eq_true,
    and_true,beq_iff_eq,Bool.not_eq_true',decide_eq_false_iff_not]
  exact ⟨rfl,UInt32.not_lt.mpr hle⟩

lemma dests_committedHeader (hg : g.Fits) (txn : UInt32)
    (hb : batch.length ≤ g.maxBlocks.toNat) :
    (committedHeader txn batch).dests = batch.map Prod.fst := by
  have hl := hg.le
  apply ext_getElem
  · simp [JournalHeader.dests,count_committedHeader hg txn hb]
  · intro i hi _
    rw [JournalHeader.dests,length_map,length_range,count_committedHeader hg txn hb] at hi
    simp only [JournalHeader.dests,getElem_map,getElem_range]
    rw [JournalHeader.destAt,dif_pos (by omega)]
    simp [committedHeader,hi]

variable {d : Disk}

lemma Holds.of_header (hg : g.Fits) {txn : UInt32}
    (h0 : batch.length ≠ 0) (hb : batch.length ≤ g.maxBlocks.toNat)
    (hh : diskHeader g d = committedHeader txn batch)
    (hs : slotsAt g d batch.length = batch.map Prod.snd) : Holds g d batch where
  committed := hh ▸ committed_committedHeader hg txn h0 hb
  dests := hh ▸ dests_committedHeader hg txn hb
  crc := by rw [hh]; rfl
  slots := hs

lemma count_le_of_committed {h : JournalHeader} (hc : headerIsCommitted g h = true) :
    h.blockCount.toNat ≤ g.maxBlocks.toNat := by
  simp only [headerIsCommitted,Bool.and_eq_true,Bool.not_eq_true',decide_eq_false_iff_not] at hc
  exact UInt32.le_iff_toNat_le.mp (UInt32.not_lt.mp hc.2)

lemma Holds.length (h : Holds g d batch) :
    (diskHeader g d).blockCount.toNat = batch.length := by
  have hl := congrArg List.length h.dests
  simpa [JournalHeader.dests] using hl

lemma Holds.length_le (h : Holds g d batch) :
    batch.length ≤ g.maxBlocks.toNat := h.length ▸ count_le_of_committed h.committed

lemma Holds.congr (hg : g.Fits) {d d' : Disk} (h : Holds g d batch)
    (he : ∀ a, inJournal g a → d a = d' a) : Holds g d' batch := by
  have hh : diskHeader g d' = diskHeader g d := by
    rw [diskHeader,diskHeader,he _ (headerSector_zero g).inJournal]
  exact ⟨hh ▸ h.committed,hh ▸ h.dests,hh ▸ h.crc,
    (slotsAt_congr hg h.length_le fun a ha _ => he a ha).symm.trans h.slots⟩

lemma Idle.congr {d d' : Disk} (h : Idle g d) (he : d (lba g.headerBlock) = d' (lba g.headerBlock)) :
    Idle g d' := by
  rwa [Idle,diskHeader,← he]

/-- Step 1: some of the payload sectors are in the slots. -/
def payloadDisk (j : Journal) (batch : Batch) (d : Disk) (n : ℕ) : Disk :=
  applyWrites ((batchSectors (payloadSlots j.toJournalPlace batch)).take n) d

def payloadDone (j : Journal) (batch : Batch) (d : Disk) : Disk :=
  applyWrites (batchSectors (payloadSlots j.toJournalPlace batch)) d

/-- Step 2: some of the header's sectors are on disk. -/
def headerDisk (j : Journal) (batch : Batch) (d : Disk) (n : ℕ) : Disk :=
  applyWrites ((blockSectors j.headerBlock (committedHeader j.nextTxnId batch).toBlock).take n)
    (payloadDone j batch d)

def headerDone (j : Journal) (batch : Batch) (d : Disk) : Disk :=
  applyWrites (blockSectors j.headerBlock (committedHeader j.nextTxnId batch).toBlock)
    (payloadDone j batch d)

/-- Step 3: some of the destination sectors are written. -/
def applyDisk (j : Journal) (batch : Batch) (d : Disk) (n : ℕ) : Disk :=
  applyWrites ((batchSectors batch).take n) (headerDone j batch d)

def applyDone (j : Journal) (batch : Batch) (d : Disk) : Disk :=
  applyBatch batch (headerDone j batch d)

/-- Step 4: some of the zeroed header's sectors are on disk. -/
def checkpointDisk (j : Journal) (batch : Batch) (d : Disk) (n : ℕ) : Disk :=
  applyWrites ((blockSectors j.headerBlock JournalHeader.zero.toBlock).take n) (applyDone j batch d)

def checkpointDone (j : Journal) (batch : Batch) (d : Disk) : Disk :=
  applyWrites (blockSectors j.headerBlock JournalHeader.zero.toBlock) (applyDone j batch d)

def journalAfter (j : Journal) (batch : Batch) : CommitExit → Journal
  | .nothing | .tooMany | .payloadFailed => j
  | .headerFailed | .applyFailed => { j with nextTxnId := j.nextTxnId + 1 }
  | .done => { j with
      nextTxnId := j.nextTxnId + 1
      commitCount := j.commitCount + 1
      journalledBlocks := j.journalledBlocks + UInt64.ofNat batch.length }

@[simp] lemma journalAfter_place (j : Journal) (batch : Batch) (e : CommitExit) :
    (journalAfter j batch e).toJournalPlace = j.toJournalPlace := by
  cases e <;> rfl

/-- A commit passes through the four steps in order; on an error it returns from the step it
is in, except that a failed checkpoint is still a success. -/
lemma Safe.commit {E : Env Sector} {Q : CommitExit × Journal → Disk → Prop} (j : Journal)
    (batch : Batch) (d : Disk) (haddr : ∀ a, E.addr a) (hne : batch.length ≠ 0)
    (hle : batch.length ≤ j.maxBlocks.toNat)
    (c1 : ∀ n, E.crash (payloadDisk j batch d n)) (c2 : ∀ n, E.crash (headerDisk j batch d n))
    (c3 : ∀ n, E.crash (applyDisk j batch d n)) (c4 : ∀ n, E.crash (checkpointDisk j batch d n))
    (q1 : E.mayFail → ∀ n, Q (.payloadFailed,journalAfter j batch .payloadFailed) (payloadDisk j batch d n))
    (q2 : E.mayFail → ∀ n, Q (.headerFailed,journalAfter j batch .headerFailed) (headerDisk j batch d n))
    (q3 : E.mayFail → ∀ n, Q (.applyFailed,journalAfter j batch .applyFailed) (applyDisk j batch d n))
    (q4 : E.mayFail → ∀ n, Q (.done,journalAfter j batch .done) (checkpointDisk j batch d n))
    (qd : Q (.done,journalAfter j batch .done) (checkpointDone j batch d)) :
    Safe E Q (osfs2JournalCommit j batch) d := by
  have htake (ws : List (ℕ × Sector)) (d : Disk) :
      applyWrites ws d = applyWrites (ws.take ws.length) d := by rw [take_length]
  have c1' : E.crash (payloadDone j batch d) := by
    rw [payloadDone,htake]; exact c1 _
  have c2' : E.crash (headerDone j batch d) := by
    rw [headerDone,htake]; exact c2 _
  have c4' : E.crash (checkpointDone j batch d) := by
    rw [checkpointDone,htake]; exact c4 _
  rw [osfs2JournalCommit,if_neg hne,if_neg (by omega),rawWriteAll_eq]
  refine Safe.bind (Safe.writeAll _ _ (fun _ _ => haddr _) c1 ?_ fun hE n => ⟨c1 n,q1 hE n⟩)
  refine Safe.bind (Safe.writeAll _ _ (fun _ _ => haddr _) c2 ?_ fun hE n => ⟨c2 n,q2 hE n⟩)
  rw [if_pos rfl,rawWriteAll_eq]
  refine Safe.bind (Safe.writeAll _ _ (fun _ _ => haddr _) c3 ?_ fun hE n => ⟨c3 n,q3 hE n⟩)
  exact Safe.bind (Safe.writeAll _ _ (fun _ _ => haddr _) c4 ⟨c4',qd⟩ fun hE n => ⟨c4 n,q4 hE n⟩)

lemma Safe.readSlots {E : Env Sector} {Q : Option (List Block) → Disk → Prop}
    (g : JournalPlace) (haddr : ∀ a, E.addr a) (hc : E.crash d) (n i : ℕ)
    (hs : Q (some ((List.range n).map fun k => blockAt d (g.dataBlock0 + UInt32.ofNat (i+k)))) d)
    (hn : E.mayFail → Q none d) : Safe E Q (readSlots g n i) d := by
  induction n generalizing i Q with
  | zero => exact ⟨hc,hs⟩
  | succ n ih =>
    refine Safe.bind (Safe.rawRead hc (fun _ _ => haddr _) ?_ fun hE => ⟨hc,hn hE⟩)
    refine Safe.bind (ih (i+1) ⟨hc,?_⟩ fun hE => ⟨hc,hn hE⟩)
    simpa [range_succ_eq_map,Function.comp_def,Nat.add_assoc,Nat.add_comm 1] using hs

def replayBatch (g : JournalPlace) (d : Disk) : Batch :=
  (diskHeader g d).dests.zip (slotsAt g d (diskHeader g d).blockCount.toNat)

/-- The check replay makes before it applies anything. -/
def CrcMatches (g : JournalPlace) (d : Disk) : Prop :=
  computeReplayCrc (diskHeader g d).dests (slotsAt g d (diskHeader g d).blockCount.toNat) =
    (diskHeader g d).crc32

def zeroHeaderDisk (g : JournalPlace) (d : Disk) (n : ℕ) : Disk :=
  applyWrites ((blockSectors g.headerBlock JournalHeader.zero.toBlock).take n) d

def zeroHeaderDone (g : JournalPlace) (d : Disk) : Disk :=
  applyWrites (blockSectors g.headerBlock JournalHeader.zero.toBlock) d

/-- Replay returns at once, discards the journal, or applies what it holds and then clears
the header. -/
lemma Safe.replay {E : Env Sector} {Q : ℤ × Journal → Disk → Prop} (j : Journal) (d : Disk)
    (haddr : ∀ a, E.addr a) (hE : ¬ E.mayFail) (hc : E.crash d)
    (hidle : Idle j.toJournalPlace d → Q (0,j) d)
    (hbad : ¬ CrcMatches j.toJournalPlace d → (∀ n, E.crash (zeroHeaderDisk j.toJournalPlace d n)) ∧
      Q (0,j) (zeroHeaderDone j.toJournalPlace d))
    (hgood : headerIsCommitted j.toJournalPlace (diskHeader j.toJournalPlace d) = true →
      CrcMatches j.toJournalPlace d → ∀ d', d' = applyBatch (replayBatch j.toJournalPlace d) d →
      (∀ n, E.crash (applyWrites ((batchSectors (replayBatch j.toJournalPlace d)).take n) d)) ∧
      (∀ n, E.crash (zeroHeaderDisk j.toJournalPlace d' n)) ∧
      ∀ j' : Journal, j'.toJournalPlace = j.toJournalPlace →
        Q (0,j') (zeroHeaderDone j.toJournalPlace d')) :
    Safe E Q (osfs2JournalReplay j) d := by
  by_cases h0 : j.maxBlocks = 0
  · rw [osfs2JournalReplay,if_pos h0]
    refine ⟨hc,hidle (Bool.eq_false_iff.mpr fun hcom => ?_)⟩
    have hle := count_le_of_committed hcom
    simp only [headerIsCommitted,Bool.and_eq_true,bne_iff_ne] at hcom
    have hz : (diskHeader j.toJournalPlace d).blockCount.toNat ≤ (0 : UInt32).toNat := h0 ▸ hle
    exact hcom.1.2 (UInt32.toNat_inj.mp (Nat.le_zero.mp hz))
  rw [osfs2JournalReplay,if_neg h0]
  refine Safe.bind (Safe.rawRead hc (fun _ _ => haddr _) ?_ fun h => (hE h).elim)
  simp only [JournalHeader.ofBytes_blockAt]
  change Safe E Q (if (!headerIsCommitted j.toJournalPlace (diskHeader j.toJournalPlace d)) = true
    then _ else _) d
  by_cases hcom : headerIsCommitted j.toJournalPlace (diskHeader j.toJournalPlace d) = true
  · rw [hcom,if_neg (by decide)]
    refine Safe.bind (Safe.readSlots _ haddr hc _ _ ?_ fun h => (hE h).elim)
    simp only [Nat.zero_add]
    change Safe E Q (if computeReplayCrc (diskHeader j.toJournalPlace d).dests
      (slotsAt j.toJournalPlace d (diskHeader j.toJournalPlace d).blockCount.toNat) ≠
        (diskHeader j.toJournalPlace d).crc32 then _ else _) d
    by_cases hcrc : computeReplayCrc (diskHeader j.toJournalPlace d).dests
      (slotsAt j.toJournalPlace d (diskHeader j.toJournalPlace d).blockCount.toNat) =
        (diskHeader j.toJournalPlace d).crc32
    swap
    · obtain ⟨hz,hq⟩ := hbad hcrc
      rw [if_pos (Ne.intro hcrc)]
      refine Safe.bind (Safe.writeAll _ _ (fun _ _ => haddr _) hz ⟨?_,hq⟩ fun h => (hE h).elim)
      have hl := hz (blockSectors j.headerBlock JournalHeader.zero.toBlock).length
      rwa [zeroHeaderDisk,take_length] at hl
    · obtain ⟨ha,hz,hq⟩ := hgood hcom hcrc _ rfl
      rw [if_neg (not_ne_iff.mpr hcrc),rawWriteAll_eq]
      refine Safe.bind (Safe.writeAll _ _ (fun _ _ => haddr _) ha ?_ fun h => (hE h).elim)
      refine Safe.bind (Safe.writeAll _ _ (fun _ _ => haddr _) hz ⟨?_,hq _ rfl⟩ fun h => (hE h).elim)
      have hl := hz (blockSectors j.headerBlock JournalHeader.zero.toBlock).length
      rwa [zeroHeaderDisk,take_length] at hl
  · have hno : headerIsCommitted j.toJournalPlace (diskHeader j.toJournalPlace d) = false := by
      simpa using hcom
    rw [hno,if_pos (by decide)]
    exact ⟨hc,hidle hno⟩

lemma diskHeader_zeroHeaderDisk (g : JournalPlace) (d : Disk) (n : ℕ) :
    diskHeader g (zeroHeaderDisk g d n) = if n = 0 then diskHeader g d else JournalHeader.zero :=
  diskHeader_take d JournalHeader.zero n

lemma idle_zeroHeaderDone (g : JournalPlace) (d : Disk) : Idle g (zeroHeaderDone g d) := by
  have h := diskHeader_zeroHeaderDisk g d (blockSectors g.headerBlock JournalHeader.zero.toBlock).length
  rw [zeroHeaderDisk,take_length] at h
  rw [Idle,zeroHeaderDone,h]
  exact not_committed_zero

lemma agree_zeroHeaderDisk (g : JournalPlace) (d : Disk) (n : ℕ) :
    Agree g (zeroHeaderDisk g d n) d := by
  intro a ha
  apply applyWrites_of_not_mem
  intro s hs he
  exact ha (he ▸ (mem_headerSectors hs).inJournal)

lemma agree_zeroHeaderDone (g : JournalPlace) (d : Disk) : Agree g (zeroHeaderDone g d) d := by
  have h := agree_zeroHeaderDisk g d (blockSectors g.headerBlock JournalHeader.zero.toBlock).length
  rwa [zeroHeaderDisk,take_length] at h

/-- Writing the destinations of a batch in part changes neither the journal nor the outcome
of writing all of them. -/
lemma Holds.applyDisk (hg : g.Fits) (ho : Outside g batch)
    (h : Holds g d batch) (n : ℕ) : Holds g (applyWrites ((batchSectors batch).take n) d) batch := by
  refine h.congr hg fun a ha => (applyWrites_of_not_mem _ _ fun s hs he => ?_).symm
  exact ho.sector (mem_of_mem_take hs) (he ▸ ha)

lemma applyBatch_take (batch : Batch) (d : Disk) (n : ℕ) :
    applyBatch batch (applyWrites ((batchSectors batch).take n) d) = applyBatch batch d := by
  refine applyWrites_again _ fun a ha => applyWrites_of_not_mem _ _ fun s hs => ?_
  exact ha s (mem_of_mem_take hs)

lemma applyBatch_applyBatch (batch : Batch) (d : Disk) :
    applyBatch batch (applyBatch batch d) = applyBatch batch d := by
  have h := applyBatch_take batch d (batchSectors batch).length
  rwa [take_length] at h

lemma Holds.replay (h : Holds g d batch) :
    replayBatch g d = batch ∧ CrcMatches g d := by
  constructor
  · rw [replayBatch,h.length,h.slots,h.dests,← unzip_fst,← unzip_snd,zip_unzip]
  · rw [CrcMatches,h.length,h.slots,h.dests,h.crc]
    rfl

variable {j : Journal} {batch : Batch} {d : Disk}

lemma payloadDisk_agree (hg : j.Fits) (hle : batch.length ≤ j.maxBlocks.toNat) (n : ℕ) :
    Agree j.toJournalPlace (payloadDisk j batch d n) d := by
  intro a ha
  refine applyWrites_of_not_mem _ _ fun s hs he => ha ?_
  exact he ▸ (mem_payloadSlots hg hle (mem_of_mem_take hs)).1

lemma payloadDisk_header (hg : j.Fits) (hle : batch.length ≤ j.maxBlocks.toNat) (n : ℕ) :
    payloadDisk j batch d n (lba j.headerBlock) = d (lba j.headerBlock) := by
  refine applyWrites_of_not_mem _ _ fun s hs he => ?_
  exact (mem_payloadSlots hg hle (mem_of_mem_take hs)).2 (he ▸ headerSector_zero _)

lemma payloadDone_eq : payloadDone j batch d =
    payloadDisk j batch d (batchSectors (payloadSlots j.toJournalPlace batch)).length := by
  rw [payloadDisk,take_length,payloadDone]

lemma headerDone_eq : headerDone j batch d = headerDisk j batch d
    (blockSectors j.headerBlock (committedHeader j.nextTxnId batch).toBlock).length := by
  rw [headerDisk,take_length,headerDone]

lemma headerDisk_agree (hg : j.Fits) (hle : batch.length ≤ j.maxBlocks.toNat) (n : ℕ) :
    Agree j.toJournalPlace (headerDisk j batch d n) d := by
  have hp : Agree j.toJournalPlace (payloadDone j batch d) d :=
    payloadDone_eq ▸ payloadDisk_agree hg hle _
  refine Agree.trans (fun a ha => ?_) hp
  exact applyWrites_of_not_mem _ _ fun s hs he => ha (he ▸ (mem_headerSectors hs).inJournal)

lemma headerDisk_holds (hg : j.Fits) (h0 : batch.length ≠ 0)
    (hle : batch.length ≤ j.maxBlocks.toNat) {n : ℕ} (hn : n ≠ 0) :
    Holds j.toJournalPlace (headerDisk j batch d n) batch := by
  refine Holds.of_header hg h0 hle (?_ : diskHeader _ _ = committedHeader j.nextTxnId batch) ?_
  · rw [headerDisk,diskHeader_take,if_neg hn]
  · rw [← slotsAt_payloadSlots hg d hle]
    refine slotsAt_congr hg hle fun a _ ha => applyWrites_of_not_mem _ _ fun s hs he => ?_
    exact ha (he ▸ mem_headerSectors hs)

lemma applyDisk_holds (hg : j.Fits) (h0 : batch.length ≠ 0)
    (hle : batch.length ≤ j.maxBlocks.toNat) (ho : Outside j.toJournalPlace batch) (n : ℕ) :
    Holds j.toJournalPlace (applyDisk j batch d n) batch := by
  refine Holds.applyDisk hg ho ?_ n
  rw [headerDone_eq]
  exact headerDisk_holds hg h0 hle (by simp [blockSectors])

lemma applyDone_eq : applyDone j batch d = applyDisk j batch d (batchSectors batch).length := by
  rw [applyDisk,take_length,applyDone,applyBatch]

lemma applyDone_agree (hg : j.Fits) (hle : batch.length ≤ j.maxBlocks.toNat) :
    Agree j.toJournalPlace (applyDone j batch d) (applyBatch batch d) := by
  rw [applyDone,headerDone_eq]
  exact (headerDisk_agree hg hle _).applyWrites _

end VibeOS.Osfs2

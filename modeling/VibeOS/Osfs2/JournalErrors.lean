import VibeOS.Osfs2.JournalCrash

/-! The journal on a device that reports write errors. A commit that fails while it writes
its destinations leaves a batch partly applied, and only the journal can complete it; the
next commit may overwrite the payload slots it needs. What holds is proved for the runs in
which such a batch is submitted again until it gets through. -/
namespace VibeOS.Osfs2
open VibeOS.Storage List Option

variable {g : JournalPlace}

/-- Outside the journal the two disks differ at most in the batch's destination sectors. -/
def AgreeOff (g : JournalPlace) (batch : Batch) (d w : Disk) : Prop :=
  ∀ a, ¬ inJournal g a → (∀ s ∈ batchSectors batch, s.1 ≠ a) → d a = w a

lemma Agree.off {d w : Disk} (h : Agree g d w) (batch : Batch) : AgreeOff g batch d w :=
  fun a ha _ => h a ha

lemma AgreeOff.of_agree {batch : Batch} {d d' w : Disk} (h : AgreeOff g batch d w)
    (hd : Agree g d' d) : AgreeOff g batch d' w :=
  fun a ha hs => (hd a ha).trans (h a ha hs)

lemma AgreeOff.applyBatch {batch : Batch} {d w : Disk} (h : AgreeOff g batch d w) :
    Agree g (applyBatch batch d) (applyBatch batch w) :=
  fun a ha => applyWrites_agree _ (h a ha)

/-- The header, if it is committed at all, is that of some submitted batch, and applying that
batch would again give whole batches. -/
def Stale (g : JournalPlace) (bs : List Batch) (d₀ d : Disk) : Prop :=
  headerIsCommitted g (diskHeader g d) = true → ∃ b ∈ bs, Outside g b ∧
    (diskHeader g d).dests = b.map Prod.fst ∧ (diskHeader g d).crc32 = computeCommitCrc b ∧
    ∃ whole, whole.Sublist bs ∧ Agree g (applyBatch b d) (applyAll whole d₀)

/-- Every batch is on disk entirely or not at all. -/
def Settled (g : JournalPlace) (bs : List Batch) (d₀ d : Disk) : Prop :=
  ∃ whole, whole.Sublist bs ∧ Agree g d (applyAll whole d₀) ∧ Stale g bs d₀ d

/-- One batch is partly applied over whole ones, and the journal describes all of it. -/
def Pending (g : JournalPlace) (bs : List Batch) (d₀ : Disk) (b : Batch) (d : Disk) : Prop :=
  ∃ whole, (whole ++ [b]).Sublist bs ∧ Outside g b ∧ Holds g d b ∧ AgreeOff g b d (applyAll whole d₀)

/-- Some but not all destinations of a batch are written only while the journal describes it. -/
def Replayable (g : JournalPlace) (bs : List Batch) (d₀ d : Disk) : Prop :=
  Settled g bs d₀ d ∨ ∃ b, Pending g bs d₀ b d

/-- The CRC on disk matches the slots only if these hold the payloads it was computed from. -/
def NoCollision (g : JournalPlace) (bs : List Batch) (d : Disk) : Prop :=
  ∀ b ∈ bs, (diskHeader g d).dests = b.map Prod.fst → (diskHeader g d).crc32 = computeCommitCrc b →
    CrcMatches g d → slotsAt g d b.length = b.map Prod.snd

def Torn (g : JournalPlace) (bs : List Batch) (d₀ d : Disk) : Prop :=
  ∀ whole : List Batch, whole.Sublist bs → ¬ Agree g d (applyAll whole d₀)

/-- While a batch is only partly on disk the one that the journal describes is submitted
again; batches that commit refuses or that are empty never reach the disk and do not matter. -/
def Completes (g : JournalPlace) (bs : List Batch) (d₀ d : Disk) (b : Batch) : Prop :=
  Torn g bs d₀ d → Holds g d b ∨ b.length = 0 ∨ g.maxBlocks.toNat < b.length

/-- Commits one after another, the device answering each request as it likes: the batches
submitted so far, the journal state and the disk. -/
inductive CommitRun (allowed : List Batch → Disk → Batch → Prop) (j₀ : Journal) (d₀ : Disk) :
    List Batch → Journal → Disk → Prop
  | start : CommitRun allowed j₀ d₀ [] j₀ d₀
  | commit {bs j d b os e j' d'} (run : CommitRun allowed j₀ d₀ bs j d)
      (outside : Outside j₀.toJournalPlace b) (next : allowed bs d b)
      (returned : Prog.steps os (osfs2JournalCommit j b,d) = (.ret (e,j'),d')) :
      CommitRun allowed j₀ d₀ (bs ++ [b]) j' d'

variable {bs : List Batch} {d₀ d : Disk}

lemma Settled.mono (h : Settled g bs d₀ d) (b : Batch) :
    Settled g (bs ++ [b]) d₀ d := by
  obtain ⟨whole,hs,ha,hst⟩ := h
  refine ⟨whole,hs.trans (sublist_append_left _ _),ha,fun hc => ?_⟩
  obtain ⟨c,hm,ho,hd,hcrc,whole',hs',ha'⟩ := hst hc
  exact ⟨c,by simp [hm],ho,hd,hcrc,whole',hs'.trans (sublist_append_left _ _),ha'⟩

lemma Pending.mono {c : Batch} (h : Pending g bs d₀ c d)
    (b : Batch) : Pending g (bs ++ [b]) d₀ c d := by
  obtain ⟨whole,hs,hrest⟩ := h
  exact ⟨whole,hs.trans (sublist_append_left _ _),hrest⟩

lemma Replayable.mono (h : Replayable g bs d₀ d) (b : Batch) :
    Replayable g (bs ++ [b]) d₀ d := by
  rcases h with h | ⟨c,h⟩
  · exact .inl (h.mono b)
  · exact .inr ⟨c,h.mono b⟩

lemma Holds.unique {d : Disk} {b c : Batch} (hb : Holds g d b) (hc : Holds g d c) : b = c := by
  have h := hb.replay.1
  rw [hc.replay.1] at h
  exact h.symm

lemma Pending.settled {c : Batch} (h : Pending g bs d₀ c d)
    (ht : ¬ Torn g bs d₀ d) : Settled g bs d₀ d := by
  obtain ⟨whole,hs,ho,hc,ha⟩ := h
  unfold Torn at ht
  push Not at ht
  obtain ⟨whole',hs',ha'⟩ := ht
  refine ⟨whole',hs',ha',fun _ => ⟨c,hs.subset (by simp),ho,hc.dests,hc.crc,whole ++ [c],hs,?_⟩⟩
  rw [applyAll_append]
  exact ha.applyBatch

lemma Settled.of_agree {d₀ d d' : Disk} (h : Settled g bs d₀ d)
    (hd : Agree g d' d) (hh : d' (lba g.headerBlock) = d (lba g.headerBlock)) :
    Settled g bs d₀ d' := by
  obtain ⟨whole,hs,ha,hst⟩ := h
  refine ⟨whole,hs,hd.trans ha,fun hc => ?_⟩
  have he : diskHeader g d' = diskHeader g d := by rw [diskHeader,hh,diskHeader]
  rw [he] at hc ⊢
  obtain ⟨c,hm,ho,hdst,hcrc,whole',hs',ha'⟩ := hst hc
  exact ⟨c,hm,ho,hdst,hcrc,whole',hs',(hd.applyWrites _).trans ha'⟩

lemma payloadDisk_of_holds {j : Journal} {b : Batch} {d : Disk} (h : Holds j.toJournalPlace d b)
    (n : ℕ) : payloadDisk j b d n = d := by
  have hfix : ∀ s ∈ batchSectors (payloadSlots j.toJournalPlace b), d s.1 = s.2 := by
    intro s hs
    obtain ⟨w,hw,k,hk,rfl⟩ := mem_batchSectors hs
    obtain ⟨i,hi,rfl⟩ := List.mem_mapIdx.mp hw
    have hslot := congrArg (fun l => l[i]?) h.slots
    simp only [slotsAt,getElem?_map,getElem?_range hi,map_some,
      getElem?_eq_getElem hi,some.injEq] at hslot
    have hsec := sectorOf_blockAt d (j.dataBlock0 + UInt32.ofNat i) hk
    rw [hslot] at hsec
    exact hsec.symm
  have hws (ws : List (ℕ × Sector)) (hws : ∀ s ∈ ws, d s.1 = s.2) : applyWrites ws d = d := by
    induction ws with
    | nil => rfl
    | cons w ws ih =>
      rw [applyWrites_cons,← hws w (by simp),Function.update_eq_self]
      exact ih fun s hs => hws s (by simp [hs])
  exact hws _ fun s hs => hfix s (mem_of_mem_take hs)

section Stages
variable {j : Journal} {b : Batch} {bs : List Batch} {whole : List Batch} {d₀ d : Disk}

lemma applyDisk_pending (hg : j.Fits) (h0 : b.length ≠ 0) (hle : b.length ≤ j.maxBlocks.toNat)
    (ho : Outside j.toJournalPlace b) (hs : (whole ++ [b]).Sublist bs)
    (ha : AgreeOff j.toJournalPlace b d (applyAll whole d₀)) (n : ℕ) :
    Pending j.toJournalPlace bs d₀ b (applyDisk j b d n) := by
  refine ⟨whole,hs,ho,applyDisk_holds hg h0 hle ho n,fun a hj hb => ?_⟩
  have hw : applyDisk j b d n a = headerDone j b d a :=
    applyWrites_of_not_mem _ _ fun s hs => hb s (mem_of_mem_take hs)
  rw [hw,headerDone_eq,headerDisk_agree hg hle _ a hj]
  exact ha a hj hb

/-- Once its destinations are written a batch counts as whole, whether or not the header
could be cleared. -/
lemma checkpointDisk_settled (hg : j.Fits) (h0 : b.length ≠ 0)
    (hle : b.length ≤ j.maxBlocks.toNat) (ho : Outside j.toJournalPlace b)
    (hs : (whole ++ [b]).Sublist bs) (ha : AgreeOff j.toJournalPlace b d (applyAll whole d₀))
    (n : ℕ) : Settled j.toJournalPlace bs d₀ (checkpointDisk j b d n) := by
  have hdone : Agree j.toJournalPlace (applyDone j b d) (applyAll (whole ++ [b]) d₀) := by
    rw [applyAll_append]
    exact (applyDone_agree hg hle).trans ha.applyBatch
  have hagree := (agree_zeroHeaderDisk j.toJournalPlace (applyDone j b d) n).trans hdone
  refine ⟨whole ++ [b],hs,hagree,fun hc => ?_⟩
  cases n with
  | zero =>
    have hh : Holds j.toJournalPlace (applyDone j b d) b := applyDone_eq ▸ applyDisk_holds hg h0 hle ho _
    refine ⟨b,hs.subset (by simp),ho,hh.dests,hh.crc,whole ++ [b],hs,?_⟩
    have hidem : applyBatch b (applyDone j b d) = applyDone j b d := applyBatch_applyBatch _ _
    exact hidem ▸ hdone
  | succ n =>
    change headerIsCommitted _ (diskHeader _ (zeroHeaderDisk _ (applyDone j b d) (n+1))) = true at hc
    rw [diskHeader_zeroHeaderDisk,if_neg (by omega),not_committed_zero] at hc
    exact absurd hc (by decide)

lemma commit_settled (hg : j.Fits) (h0 : b.length ≠ 0) (hle : b.length ≤ j.maxBlocks.toNat)
    (ho : Outside j.toJournalPlace b) (h : Settled j.toJournalPlace bs d₀ d) :
    Safe (Env.faulty.withCrash (Replayable j.toJournalPlace (bs ++ [b]) d₀))
      (fun r d' => r.2.toJournalPlace = j.toJournalPlace ∧
        Replayable j.toJournalPlace (bs ++ [b]) d₀ d')
      (osfs2JournalCommit j b) d := by
  have hset := h
  obtain ⟨whole,hs,ha,-⟩ := h
  have hsub : (whole ++ [b]).Sublist (bs ++ [b]) := hs.append (List.Sublist.refl _)
  have hp (n : ℕ) : Settled j.toJournalPlace (bs ++ [b]) d₀ (payloadDisk j b d n) :=
    (hset.mono b).of_agree (payloadDisk_agree hg hle n) (payloadDisk_header hg hle n)
  have hh (n : ℕ) : Settled j.toJournalPlace (bs ++ [b]) d₀ (headerDisk j b d n) := by
    cases n with
    | zero =>
      have h1 := hp (batchSectors (payloadSlots j.toJournalPlace b)).length
      rwa [← payloadDone_eq] at h1
    | succ n =>
      have hd := headerDisk_agree (d := d) hg hle (n+1)
      have hb := headerDisk_holds (d := d) hg h0 hle (Nat.succ_ne_zero n)
      refine ⟨whole,hs.trans (sublist_append_left _ _),hd.trans ha,fun _ => ?_⟩
      refine ⟨b,by simp,ho,hb.dests,hb.crc,whole ++ [b],hsub,?_⟩
      rw [applyAll_append]
      exact (hd.trans ha).applyWrites _
  have hq := applyDisk_pending hg h0 hle ho hsub (ha.off b)
  have hc := checkpointDisk_settled hg h0 hle ho hsub (ha.off b)
  refine Safe.commit j b d (fun _ => trivial) h0 hle (fun n => .inl (hp n)) (fun n => .inl (hh n))
    (fun n => .inr ⟨b,hq n⟩) (fun n => .inl (hc n))
    (fun _ n => ⟨journalAfter_place _ _ _,.inl (hp n)⟩)
    (fun _ n => ⟨journalAfter_place _ _ _,.inl (hh n)⟩)
    (fun _ n => ⟨journalAfter_place _ _ _,.inr ⟨b,hq n⟩⟩)
    (fun _ n => ⟨journalAfter_place _ _ _,.inl (hc n)⟩) ⟨journalAfter_place _ _ _,.inl ?_⟩
  have hfull := hc (blockSectors j.headerBlock JournalHeader.zero.toBlock).length
  rwa [checkpointDisk,take_length] at hfull

lemma commit_pending (hg : j.Fits) (h0 : b.length ≠ 0) (hle : b.length ≤ j.maxBlocks.toNat)
    (h : Pending j.toJournalPlace bs d₀ b d) :
    Safe (Env.faulty.withCrash (Replayable j.toJournalPlace (bs ++ [b]) d₀))
      (fun r d' => r.2.toJournalPlace = j.toJournalPlace ∧
        Replayable j.toJournalPlace (bs ++ [b]) d₀ d')
      (osfs2JournalCommit j b) d := by
  obtain ⟨whole,hs,ho,hb,ha⟩ := h
  have hsub : (whole ++ [b]).Sublist (bs ++ [b]) := hs.trans (sublist_append_left _ _)
  have hp (n : ℕ) : Pending j.toJournalPlace (bs ++ [b]) d₀ b (payloadDisk j b d n) := by
    rw [payloadDisk_of_holds hb]
    exact ⟨whole,hsub,ho,hb,ha⟩
  have hh (n : ℕ) : Pending j.toJournalPlace (bs ++ [b]) d₀ b (headerDisk j b d n) := by
    cases n with
    | zero =>
      have h1 := hp (batchSectors (payloadSlots j.toJournalPlace b)).length
      rwa [← payloadDone_eq] at h1
    | succ n =>
      exact ⟨whole,hsub,ho,headerDisk_holds hg h0 hle (Nat.succ_ne_zero n),
        ha.of_agree (headerDisk_agree hg hle _)⟩
  have hq := applyDisk_pending hg h0 hle ho hsub ha
  have hc := checkpointDisk_settled hg h0 hle ho hsub ha
  refine Safe.commit j b d (fun _ => trivial) h0 hle (fun n => .inr ⟨b,hp n⟩)
    (fun n => .inr ⟨b,hh n⟩) (fun n => .inr ⟨b,hq n⟩) (fun n => .inl (hc n))
    (fun _ n => ⟨journalAfter_place _ _ _,.inr ⟨b,hp n⟩⟩)
    (fun _ n => ⟨journalAfter_place _ _ _,.inr ⟨b,hh n⟩⟩)
    (fun _ n => ⟨journalAfter_place _ _ _,.inr ⟨b,hq n⟩⟩)
    (fun _ n => ⟨journalAfter_place _ _ _,.inl (hc n)⟩) ⟨journalAfter_place _ _ _,.inl ?_⟩
  have hfull := hc (blockSectors j.headerBlock JournalHeader.zero.toBlock).length
  rwa [checkpointDisk,take_length] at hfull

end Stages

variable {bs : List Batch}

lemma commit_replayable {j : Journal} (hj : j.toJournalPlace = g) (hg : g.Fits) {b : Batch}
    {d₀ d : Disk} (ho : Outside g b) (hp : Completes g bs d₀ d b)
    (h : Replayable g bs d₀ d) :
    Safe (Env.faulty.withCrash (Replayable g (bs ++ [b]) d₀))
      (fun r d' => r.2.toJournalPlace = g ∧ Replayable g (bs ++ [b]) d₀ d')
      (osfs2JournalCommit j b) d := by
  subst hj
  by_cases h0 : b.length = 0
  · rw [osfs2JournalCommit,if_pos h0]
    exact ⟨h.mono b,rfl,h.mono b⟩
  by_cases hle : b.length ≤ j.maxBlocks.toNat
  swap
  · rw [osfs2JournalCommit,if_neg h0,if_pos (by omega)]
    exact ⟨h.mono b,rfl,h.mono b⟩
  rcases h with h | ⟨c,h⟩
  · exact commit_settled hg h0 hle ho h
  by_cases ht : Torn j.toJournalPlace bs d₀ d
  · rcases hp ht with hb | hb | hb
    · have hcb : c = b := by
        obtain ⟨_,_,_,hc,_⟩ := h
        exact hc.unique hb
      exact commit_pending hg h0 hle (hcb ▸ h)
    · exact absurd hb h0
    · omega
  · exact commit_settled hg h0 hle ho (h.settled ht)

lemma CommitRun.replayable {j₀ j : Journal} {d₀ d : Disk}
    (hp : j₀.toJournalPlace = g) (hg : g.Fits) (hi : Idle g d₀)
    (run : CommitRun (fun bs d => Completes g bs d₀ d) j₀ d₀ bs j d) :
    j.toJournalPlace = g ∧ Replayable g bs d₀ d := by
  subst hp
  induction run with
  | start =>
    refine ⟨rfl,.inl ⟨[],List.Sublist.refl _,Agree.refl _,fun hc => ?_⟩⟩
    rw [hi] at hc
    exact absurd hc (by decide)
  | @commit bs j d b os e j' d' _ ho hp hret ih =>
    obtain ⟨hj,hinv⟩ := ih
    exact (commit_replayable hj hg ho hp hinv).result_sound os (fun _ _ => trivial) hret

lemma Replayable.replay {j : Journal} (hg : j.Fits) {d₀ d : Disk}
    (h : Replayable j.toJournalPlace bs d₀ d) (hn : NoCollision j.toJournalPlace bs d) :
    ((osfs2JournalReplay j).run d).1.1 = 0 ∧ ∃ whole : List Batch, whole.Sublist bs ∧
      Agree j.toJournalPlace ((osfs2JournalReplay j).run d).2 (applyAll whole d₀) := by
  have hrec {w : Disk} (hw : Recovers j.toJournalPlace w d) : ((osfs2JournalReplay j).run d).1.1 = 0 ∧
      Agree j.toJournalPlace ((osfs2JournalReplay j).run d).2 w := by
    obtain ⟨h0,_,_,ha⟩ := (replay_recovers j hg hw).run_sound rfl
    exact ⟨h0,ha⟩
  rcases h with ⟨whole,hs,ha,hst⟩ | ⟨b,whole,hs,ho,hb,ha⟩
  · by_cases hm : headerIsCommitted j.toJournalPlace (diskHeader j.toJournalPlace d) = true ∧
      CrcMatches j.toJournalPlace d
    · obtain ⟨c,hc,ho,hd,hcrc,whole',hs',ha'⟩ := hst hm.1
      have hslots := hn c hc hd hcrc hm.2
      obtain ⟨h0,hr⟩ := hrec (.inr ⟨c,ho,⟨hm.1,hd,hcrc,hslots⟩,Agree.refl _⟩)
      exact ⟨h0,whole',hs',hr.trans ha'⟩
    · -- the journal is idle or fails its CRC: replay leaves the destinations alone
      refine Safe.reliable_iff.mp (Safe.replay (Q := fun r d' => r.1 = 0 ∧ ∃ whole : List Batch,
        whole.Sublist bs ∧ Agree j.toJournalPlace d' (applyAll whole d₀)) j d (fun _ => trivial)
        Env.reliable_not_mayFail trivial (fun _ => ⟨rfl,whole,hs,ha⟩) ?_ ?_)
      · exact fun _ => ⟨fun _ => trivial,rfl,whole,hs,(agree_zeroHeaderDone _ _).trans ha⟩
      · exact fun hcom hcrc => absurd ⟨hcom,hcrc⟩ hm
  · obtain ⟨h0,hr⟩ := hrec (.inr ⟨b,ho,hb,ha.applyBatch⟩)
    refine ⟨h0,whole ++ [b],hs,?_⟩
    rw [applyAll_append]
    exact hr

/-- Mount any disk and run any commits, with any write reporting an error, such that no new
batch is submitted while another is only partly on disk. At every point of the next such
commit the journal describes the batch that is partly on disk, if there is one, and a replay
from there leaves whole batches. -/
theorem commit_errors_replayable (hb n : UInt32) (d₀ : Disk) :
    let j := osfs2JournalInit hb n
    let g := j.toJournalPlace
    let mounted := (osfs2JournalReplay j).run d₀
    ∀ bs jr d, CommitRun (fun bs d => Completes g bs mounted.2 d) mounted.1.2 mounted.2 bs jr d →
      Replayable g bs mounted.2 d ∧
      ∀ b os, Outside g b → Completes g bs mounted.2 d b →
        let crash := (Prog.steps os (osfs2JournalCommit jr b,d)).2
        Replayable g (bs ++ [b]) mounted.2 crash ∧
        (NoCollision g (bs ++ [b]) crash → ((osfs2JournalReplay j).run crash).1.1 = 0 ∧
          ∃ whole : List Batch, whole.Sublist (bs ++ [b]) ∧
            Agree g ((osfs2JournalReplay j).run crash).2 (applyAll whole mounted.2)) := by
  intro j g mounted bs jr d run
  have hg : j.Fits := osfs2JournalInit_fits hb n
  obtain ⟨_,hmp,hmi⟩ := replay_idle j d₀
  obtain ⟨hj,hr⟩ := run.replayable hmp hg hmi
  refine ⟨hr,fun b os ho hc => ?_⟩
  have hcrash := (commit_replayable hj hg ho hc hr).crash_sound os fun _ _ => trivial
  exact ⟨hcrash,fun hn => Replayable.replay hg hcrash hn⟩

/-- A commit on a device that loses one write in step 3 returns with the destinations
written so far. -/
lemma commit_loses_write (j : Journal) (b : Batch) (d : Disk) (h0 : b.length ≠ 0)
    (hle : b.length ≤ j.maxBlocks.toNat) {n : ℕ} (hn : n < (batchSectors b).length) :
    ∃ os, Prog.steps os (osfs2JournalCommit j b,d) =
      (.ret (.applyFailed,journalAfter j b .applyFailed),applyDisk j b d n) := by
  rw [osfs2JournalCommit,if_neg h0,if_neg (by omega),rawWriteAll_eq]
  refine ⟨replicate (batchSectors (payloadSlots j.toJournalPlace b)).length .ok ++
    (replicate 8 .ok ++ (replicate n .ok ++ [.lost])),?_⟩
  have hlen : 8 = (blockSectors j.headerBlock (committedHeader j.nextTxnId b).toBlock).length := by
    simp [blockSectors]
  rw [Prog.steps_append,steps_writeAll,if_pos rfl,Prog.steps_append,writeCommittedHeader,rawWrite,
    hlen,steps_writeAll,if_pos rfl,rawWriteAll_eq,steps_writeAll_lost _ _ _ hn]
  rfl

lemma commit_cut_payload (j : Journal) (b : Batch) (d : Disk) (h0 : b.length ≠ 0)
    (hle : b.length ≤ j.maxBlocks.toNat) {n : ℕ}
    (hn : n ≤ (batchSectors (payloadSlots j.toJournalPlace b)).length) :
    (Prog.steps (replicate n .ok) (osfs2JournalCommit j b,d)).2 = payloadDisk j b d n := by
  rw [osfs2JournalCommit,if_neg h0,if_neg (by omega),rawWriteAll_eq,steps_writeAll_take _ _ _ hn]
  rfl

namespace Torn

def place : Journal := osfs2JournalInit 67 32
def ones : Disk := fun _ => Bytes.ofFn fun _ => 0xff

/-- The batch that is left partly applied, and the one submitted after it. -/
def first : Batch := [(200,Bytes.zero),(201,Bytes.zero)]
def second : Batch := [(300,Bytes.ofFn fun i => if i = 0 then 1 else 0)]

/-- The first destination of the first batch is written, the second one is not, and the first
sector of its payload slots is overwritten. -/
def crash : Disk :=
  payloadDisk (journalAfter place first .applyFailed) second (applyDisk place first ones 8) 1

lemma first_outside : Outside place.toJournalPlace first := by
  intro w hw
  rcases List.mem_cons.mp hw with rfl | hw
  · decide
  · rw [List.mem_singleton.mp hw]
    decide

lemma second_outside : Outside place.toJournalPlace second := by
  intro w hw
  rw [List.mem_singleton.mp hw]
  decide

lemma place_fits : place.Fits := osfs2JournalInit_fits 67 32

lemma crash_header : diskHeader place.toJournalPlace crash =
    diskHeader place.toJournalPlace (applyDisk place first ones 8) := by
  have h : crash (lba place.headerBlock) = applyDisk place first ones 8 (lba place.headerBlock) :=
    payloadDisk_header (j := journalAfter place first .applyFailed) place_fits (by decide) 1
  exact congrArg JournalHeader.ofBytes h

lemma crash_agree : Agree place.toJournalPlace crash (applyDisk place first ones 8) :=
  payloadDisk_agree (j := journalAfter place first .applyFailed) place_fits (by decide) 1

lemma not_inJournal {b : UInt32} (h : ¬ place.owns b) : ¬ inJournal place.toJournalPlace (lba b) :=
  fun hj => h ((inJournal_sector (i := 0) (by omega)).mp hj)

lemma crash_first_destination : crash (lba 200) = Bytes.zero := by
  rw [crash_agree _ (not_inJournal (by decide))]
  have htake : (batchSectors first).take 8 = blockSectors 200 Bytes.zero := rfl
  rw [applyDisk,htake]
  have hw := applyWrites_blockSectors (headerDone place first ones) 200 Bytes.zero (i := 0) (by omega)
  rw [Nat.add_zero] at hw
  rw [hw]
  apply Bytes.ext_get
  intro i hi
  rw [sectorOf,Bytes.get_ofFn _ hi,Bytes.get_zero,Bytes.get_zero]

lemma crash_second_destination : crash (lba 201) = Bytes.ofFn fun _ => 0xff := by
  have hout : ¬ inJournal place.toJournalPlace (lba 201) := not_inJournal (by decide)
  rw [crash_agree _ hout]
  have htake : (batchSectors first).take 8 = blockSectors 200 Bytes.zero := rfl
  rw [applyDisk,htake,applyWrites_of_not_mem,headerDone_eq,
    headerDisk_agree place_fits (by decide) _ _ hout]
  · rfl
  · intro w hw he
    obtain ⟨i,hi,rfl⟩ := mem_blockSectors hw
    exact absurd (lba_inj (c := 201) (j := 0) hi (by omega) he).1 (by decide)

lemma ones_ne_zero : (Bytes.ofFn fun _ => 0xff : Sector) ≠ Bytes.zero := by
  intro h
  have h0 := congrFun h 0
  simp [Bytes.ofFn,Bytes.zero] at h0

lemma applyBatch_first (d : Disk) {b : UInt32} (hb : b = 200 ∨ b = 201) :
    applyBatch first d (lba b) = Bytes.zero := by
  have hm : (b,Bytes.zero) ∈ first := by
    rcases hb with rfl | rfl <;> simp [first]
  have hblk := blockAt_batch_of_mem first d (by decide) hm
  have hsec := sectorOf_blockAt (applyBatch first d) b (i := 0) (by omega)
  rw [Nat.add_zero] at hsec
  rw [← hsec,applyBatch,hblk]
  apply Bytes.ext_get
  intro i hi
  rw [sectorOf,Bytes.get_ofFn _ hi,Bytes.get_zero,Bytes.get_zero]

lemma applyBatch_second (d : Disk) {b : UInt32} (hb : b ≠ 300) :
    applyBatch second d (lba b) = d (lba b) := by
  refine applyWrites_of_not_mem _ _ fun s hs he => ?_
  obtain ⟨w,hw,i,hi,rfl⟩ := mem_batchSectors hs
  rw [List.mem_singleton.mp hw] at he
  exact hb (lba_inj (j := 0) hi (by omega) he).1.symm

lemma applyAll_destinations {whole : List Batch} (hs : whole.Sublist [first,second]) :
    applyAll whole ones (lba 200) = applyAll whole ones (lba 201) := by
  have hrest {r : List Batch} (hr : r.Sublist [second]) (d : Disk) {b : UInt32} (hb : b ≠ 300) :
      applyAll r d (lba b) = d (lba b) := by
    rcases List.sublist_singleton.mp hr with rfl | rfl
    · rfl
    · exact applyBatch_second d hb
  rcases List.sublist_cons_iff.mp hs with h | ⟨r,rfl,h⟩
  · rw [hrest h _ (by decide),hrest h _ (by decide)]
    rfl
  · change applyAll r (applyBatch first ones) _ = applyAll r (applyBatch first ones) _
    rw [hrest h _ (by decide),hrest h _ (by decide),applyBatch_first _ (.inl rfl),
      applyBatch_first _ (.inr rfl)]

lemma crash_not_holds_first : ¬ Holds place.toJournalPlace crash first := by
  intro h
  have hslot := congrArg (fun l => l[0]?) h.slots
  have hz : place.dataBlock0 = 68 := by decide
  have hb : blockAt crash 68 = Bytes.zero := by simpa [slotsAt,first,hz] using hslot
  have hsec := sectorOf_blockAt crash 68 (i := 0) (by omega)
  have htake : (batchSectors (payloadSlots place.toJournalPlace second)).take 1 =
      [(lba 68,sectorOf (Bytes.ofFn fun i => if i = 0 then 1 else 0) 0)] := rfl
  have hw : crash (lba 68) = sectorOf (Bytes.ofFn fun i => if i = 0 then 1 else 0) 0 := by
    rw [crash,payloadDisk,journalAfter_place,htake,applyWrites_cons,applyWrites_nil]
    exact Function.update_self ..
  rw [hb,Nat.add_zero,hw] at hsec
  have h0 := congrFun hsec 0
  simp [sectorOf,Bytes.ofFn,Bytes.get,Bytes.zero] at h0

lemma crash_not_holds_second : ¬ Holds place.toJournalPlace crash second := by
  intro h
  have hd := h.dests
  have hf := applyDisk_holds (j := place) (d := ones) place_fits (by decide) (by decide) first_outside 8
  rw [crash_header,hf.dests] at hd
  exact absurd (congrArg List.length hd) (by decide)

lemma crash_not_replayable : ¬ Replayable place.toJournalPlace [first,second] ones crash := by
  rintro (⟨whole,hs,ha,_⟩ | ⟨b,whole,hs,_,hb,_⟩)
  · have h := applyAll_destinations hs
    rw [← ha _ (not_inJournal (by decide)),← ha _ (not_inJournal (by decide)),
      crash_first_destination,crash_second_destination] at h
    exact ones_ne_zero h.symm
  · have hmem : b ∈ [first,second] := hs.subset (by simp)
    rcases List.mem_cons.mp hmem with rfl | hmem
    · exact crash_not_holds_first hb
    · rw [List.mem_singleton.mp hmem] at hb
      exact crash_not_holds_second hb

end Torn

/-- Without the condition it fails: a commit loses a write between its two destinations, and
the next one is cut off after the first sector of its payload. -/
theorem commit_errors_not_replayable :
    ¬ ∀ bs jr d b os, CommitRun (fun _ _ _ => True) (osfs2JournalInit 67 32) Torn.ones bs jr d →
      Outside (osfs2JournalInit 67 32).toJournalPlace b →
      Replayable (osfs2JournalInit 67 32).toJournalPlace (bs ++ [b]) Torn.ones
        (Prog.steps os (osfs2JournalCommit jr b,d)).2 := by
  intro h
  obtain ⟨os,hos⟩ := commit_loses_write Torn.place Torn.first Torn.ones (by decide) (by decide)
    (n := 8) (by decide)
  have run : CommitRun (fun _ _ _ => True) Torn.place Torn.ones [Torn.first] _ _ :=
    .commit .start Torn.first_outside trivial hos
  have hr := h _ _ _ Torn.second (replicate 1 .ok) run Torn.second_outside
  rw [commit_cut_payload _ _ _ (by decide) (by decide) (by decide)] at hr
  exact Torn.crash_not_replayable hr

theorem commit_errors_replayable_first :
    let mounted := (osfs2JournalReplay (osfs2JournalInit 67 32)).run Torn.ones
    Replayable (osfs2JournalInit 67 32).toJournalPlace ([] ++ [Torn.first]) mounted.2
      (Prog.steps [.ok,.lost] (osfs2JournalCommit mounted.1.2 Torn.first,mounted.2)).2 := by
  have h := commit_errors_replayable 67 32 Torn.ones [] _ _ .start
  have hstep := h.2 Torn.first [.ok,.lost] Torn.first_outside
    fun ht => (ht [] (List.Sublist.refl _) (Agree.refl _)).elim
  exact hstep.1

end VibeOS.Osfs2

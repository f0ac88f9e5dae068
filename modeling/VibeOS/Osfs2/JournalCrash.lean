import VibeOS.Osfs2.JournalDisk

/-! Crash atomicity of the journal. A disk is *recoverable to* a target when replay would
turn it into the target outside the journal; every sector write of a commit keeps the disk
recoverable to the state before the batch or to the state after it, and every sector write
of a replay keeps the target. -/
namespace VibeOS.Osfs2
open VibeOS.Storage List

variable {g : JournalPlace}

/-- Replay turns `d` into `w` outside the journal: either the journal is idle and `d` is `w`
already, or it holds a batch that completes `d` to `w`. -/
def Recovers (g : JournalPlace) (w d : Disk) : Prop :=
  (Idle g d ∧ Agree g d w) ∨
    ∃ batch, Outside g batch ∧ Holds g d batch ∧ Agree g (applyBatch batch d) w

lemma Recovers.zeroHeaderDisk {d w : Disk} (h : Recovers g w d) (hw : Agree g d w) (n : ℕ) :
    Recovers g w (zeroHeaderDisk g d n) := by
  cases n with
  | zero => exact h
  | succ n =>
    refine .inl ⟨?_,(agree_zeroHeaderDisk g d _).trans hw⟩
    rw [Idle,diskHeader_zeroHeaderDisk,if_neg (by omega)]
    exact not_committed_zero

/-- Replay of a recoverable disk, interrupted anywhere, leaves a disk recoverable to the
same target; run to its end it reaches the target. -/
lemma replay_recovers (j : Journal) (hg : j.Fits) {d w : Disk}
    (h : Recovers j.toJournalPlace w d) :
    Safe (Env.reliable.withCrash (Recovers j.toJournalPlace w))
      (fun r d' => r.1 = 0 ∧ r.2.toJournalPlace = j.toJournalPlace ∧ Idle j.toJournalPlace d' ∧
        Agree j.toJournalPlace d' w) (osfs2JournalReplay j) d := by
  rcases h with ⟨hi,ha⟩ | ⟨batch,ho,hb,ha⟩
  · refine Safe.replay j d (fun _ => trivial) (Env.withCrash_not_mayFail _) (.inl ⟨hi,ha⟩)
      (fun _ => ⟨rfl,rfl,hi,ha⟩) ?_ ?_
    · intro _
      exact ⟨Recovers.zeroHeaderDisk (.inl ⟨hi,ha⟩) ha,rfl,rfl,idle_zeroHeaderDone _ _,
        (agree_zeroHeaderDone _ _).trans ha⟩
    · intro hcom
      rw [hi] at hcom
      exact absurd hcom (by decide)
  · obtain ⟨hr,hcrc⟩ := hb.replay
    refine Safe.replay j d (fun _ => trivial) (Env.withCrash_not_mayFail _) (.inr ⟨batch,ho,hb,ha⟩)
      ?_ (fun hn => absurd hcrc hn) ?_
    · intro hi
      rw [Idle,hb.committed] at hi
      exact absurd hi (by decide)
    · rintro _ _ d' rfl
      rw [hr]
      have hfull : Recovers j.toJournalPlace w (applyBatch batch d) := by
        refine .inr ⟨batch,ho,?_,?_⟩
        · have := hb.applyDisk hg ho (batchSectors batch).length
          rwa [take_length] at this
        · rwa [applyBatch_applyBatch]
      refine ⟨fun n => .inr ⟨batch,ho,hb.applyDisk hg ho n,?_⟩,hfull.zeroHeaderDisk ha,fun j' hj => ?_⟩
      · rwa [applyBatch_take]
      · exact ⟨rfl,hj,idle_zeroHeaderDone _ _,(agree_zeroHeaderDone _ _).trans ha⟩

/-- Every disk met during a commit on an idle journal is recoverable to the state before the
batch or to the state after it. -/
lemma commit_recovers (j : Journal) (hg : j.Fits) {d : Disk} {b : Batch}
    (hi : Idle j.toJournalPlace d) (ho : Outside j.toJournalPlace b) :
    Safe (Env.reliable.withCrash fun c => Recovers j.toJournalPlace d c ∨
        (b.length ≤ j.maxBlocks.toNat ∧ Recovers j.toJournalPlace (applyBatch b d) c))
      (fun r d' => r.2.toJournalPlace = j.toJournalPlace ∧ Idle j.toJournalPlace d' ∧
        ((r.1.rc = 0 ∧ b.length ≤ j.maxBlocks.toNat ∧
            Agree j.toJournalPlace d' (applyBatch b d)) ∨
          (r.1.rc ≠ 0 ∧ j.maxBlocks.toNat < b.length ∧ d' = d)))
      (osfs2JournalCommit j b) d := by
  have hold : Recovers j.toJournalPlace d d := .inl ⟨hi,Agree.refl d⟩
  by_cases h0 : b.length = 0
  · have hb : applyBatch b d = d := by
      rw [List.length_eq_zero_iff.mp h0]; rfl
    rw [osfs2JournalCommit,if_pos h0,hb]
    exact ⟨.inl hold,rfl,hi,.inl ⟨rfl,by omega,Agree.refl d⟩⟩
  by_cases hle : b.length ≤ j.maxBlocks.toNat
  swap
  · rw [osfs2JournalCommit,if_neg h0,if_pos (by omega)]
    exact ⟨.inl hold,rfl,hi,.inr ⟨by simp [CommitExit.rc],by omega,rfl⟩⟩
  have hdone : Recovers j.toJournalPlace (applyBatch b d) (applyDone j b d) := by
    refine .inr ⟨b,ho,?_,?_⟩
    · exact applyDone_eq ▸ applyDisk_holds hg h0 hle ho _
    · rw [applyDone,applyBatch_applyBatch]
      exact applyDone_agree hg hle
  have hpay (n : ℕ) : Recovers j.toJournalPlace d (payloadDisk j b d n) :=
    .inl ⟨hi.congr (payloadDisk_header hg hle n).symm,payloadDisk_agree hg hle n⟩
  refine Safe.commit j b d (fun _ => trivial) h0 hle (fun n => .inl (hpay n)) (fun n => ?_)
    (fun n => .inr ⟨hle,?_⟩)
    (fun n => .inr ⟨hle,hdone.zeroHeaderDisk (applyDone_agree hg hle) n⟩)
    ?_ ?_ ?_ ?_ ?_
  · cases n with
    | zero =>
      have hp := hpay (batchSectors (payloadSlots j.toJournalPlace b)).length
      rw [← payloadDone_eq] at hp
      exact .inl hp
    | succ n =>
      refine .inr ⟨hle,.inr ⟨b,ho,headerDisk_holds hg h0 hle (by omega),?_⟩⟩
      exact (headerDisk_agree hg hle _).applyWrites _
  · refine .inr ⟨b,ho,applyDisk_holds hg h0 hle ho n,?_⟩
    rw [applyDisk,applyBatch_take]
    exact applyDone_agree hg hle
  iterate 4 exact fun h => ((Env.withCrash_not_mayFail _) h).elim
  refine ⟨journalAfter_place j b .done,idle_zeroHeaderDone _ _,.inl ⟨rfl,hle,?_⟩⟩
  exact (agree_zeroHeaderDone _ _).trans (applyDone_agree hg hle)

def commitAll (j : Journal) : List Batch → Prog Sector (List ℤ × Journal)
  | [] => .ret ([],j)
  | b :: bs => osfs2JournalCommit j b >>= fun r =>
    commitAll r.2 bs >>= fun rs => .ret (r.1.rc :: rs.1,rs.2)

/-- The batches that a commit does not refuse for their size. -/
def accepted (g : JournalPlace) (bs : List Batch) : List Batch :=
  bs.filter fun b => b.length ≤ g.maxBlocks.toNat

/-- The state of the disk after whole batches, in order. -/
def applyAll (bs : List Batch) (d : Disk) : Disk := bs.foldl (fun d b => applyBatch b d) d

lemma applyAll_append (bs bs' : List Batch) (d : Disk) :
    applyAll (bs ++ bs') d = applyAll bs' (applyAll bs d) := by
  simp only [applyAll,foldl_append]

lemma Agree.applyAll {d d' : Disk} (bs : List Batch) (h : Agree g d d') :
    Agree g (applyAll bs d) (applyAll bs d') := by
  induction bs generalizing d d' with
  | nil => exact h
  | cons b bs ih => exact ih (h.applyWrites _)

lemma commitAll_run (j : Journal) (hg : j.Fits) {d : Disk} (bs : List Batch)
    (hi : Idle j.toJournalPlace d) (ho : ∀ b ∈ bs, Outside j.toJournalPlace b) :
    ((commitAll j bs).run d).1.2.toJournalPlace = j.toJournalPlace ∧
    Idle j.toJournalPlace ((commitAll j bs).run d).2 ∧
    Agree j.toJournalPlace ((commitAll j bs).run d).2 (applyAll (accepted j.toJournalPlace bs) d) ∧
    ((commitAll j bs).run d).1.1 = bs.map fun b =>
      if b.length ≤ j.maxBlocks.toNat then 0 else -1 := by
  induction bs generalizing j d with
  | nil => exact ⟨rfl,hi,Agree.refl d,rfl⟩
  | cons b bs ih =>
    obtain ⟨hp,hi',hres⟩ := (commit_recovers j hg hi (ho b (by simp))).run_sound rfl
    obtain ⟨ip,ii,ia,ir⟩ := ih ((osfs2JournalCommit j b).run d).1.2 (hp ▸ hg) (hp ▸ hi')
      (fun b' h => hp ▸ ho b' (by simp [h]))
    rw [hp] at ip ii ia ir
    simp only [commitAll,Prog.run_bind,Prog.run_ret]
    refine ⟨ip,ii,ia.trans ?_,?_⟩
    · rcases hres with ⟨_,hle,ha⟩ | ⟨_,hgt,he⟩
      · have hacc : accepted j.toJournalPlace (b :: bs) = b :: accepted j.toJournalPlace bs := by
          simp [accepted,hle]
        rw [hacc]
        exact ha.applyAll _
      · have hacc : accepted j.toJournalPlace (b :: bs) = accepted j.toJournalPlace bs := by
          simp [accepted,hgt]
        rw [hacc,he]
        exact Agree.refl _
    · rw [ir,map_cons]
      congr 1
      rcases hres with ⟨hr,hle,_⟩ | ⟨hr,hgt,_⟩
      · rw [hr,if_pos hle]
      · rw [if_neg (by omega)]
        cases he : ((osfs2JournalCommit j b).run d).1.1 <;> simp_all [CommitExit.rc]

lemma replay_idle (j : Journal) (d : Disk) :
    ((osfs2JournalReplay j).run d).1.1 = 0 ∧
    ((osfs2JournalReplay j).run d).1.2.toJournalPlace = j.toJournalPlace ∧
    Idle j.toJournalPlace ((osfs2JournalReplay j).run d).2 := by
  refine Safe.reliable_iff.mp (Safe.replay (Q := fun r d' => r.1 = 0 ∧
    r.2.toJournalPlace = j.toJournalPlace ∧ Idle j.toJournalPlace d') j d (fun _ => trivial)
    Env.reliable_not_mayFail trivial (fun hi => ⟨rfl,rfl,hi⟩) ?_ ?_)
  · exact fun _ => ⟨fun _ => trivial,rfl,rfl,idle_zeroHeaderDone _ _⟩
  · exact fun _ _ _ _ => ⟨fun _ => trivial,fun _ => trivial,
      fun _ hj => ⟨rfl,hj,idle_zeroHeaderDone _ _⟩⟩

/-- The disk left by replays that are themselves cut off after the given numbers of requests. -/
def replayCuts (j : Journal) (cuts : List ℕ) (d : Disk) : Disk :=
  cuts.foldl (fun d n => (Prog.steps (replicate n .ok) (osfs2JournalReplay j,d)).2) d

lemma replayCuts_recovers (j : Journal) (hg : j.Fits) (cuts : List ℕ) {d w : Disk}
    (h : Recovers j.toJournalPlace w d) : Recovers j.toJournalPlace w (replayCuts j cuts d) := by
  induction cuts generalizing d with
  | nil => exact h
  | cons n cuts ih =>
    exact ih ((replay_recovers j hg h).crash_sound _ fun o ho => eq_of_mem_replicate ho)

/-- Mount any disk, commit any batches with destinations outside the journal, cut the power
after any number of sector writes into one more commit, and replay, with any number of
replays cut off as well. The last replay succeeds and leaves, outside the journal, the
committed batches with or without the one in progress, and with it if its commit had
returned success. -/
theorem commit_crash_atomic (hb n : UInt32) (d₀ : Disk) (bs : List Batch) (batch : Batch)
    (ho : ∀ b ∈ bs ++ [batch], Outside (osfs2JournalInit hb n).toJournalPlace b)
    (k : ℕ) (cuts : List ℕ) :
    let j := osfs2JournalInit hb n
    let g := j.toJournalPlace
    let mounted := (osfs2JournalReplay j).run d₀
    let before := (commitAll mounted.1.2 bs).run mounted.2
    let crash := Prog.steps (replicate k .ok) (osfs2JournalCommit before.1.2 batch,before.2)
    let final := (osfs2JournalReplay j).run (replayCuts j cuts crash.2)
    final.1.1 = 0 ∧
    before.1.1 = bs.map (fun b => if b.length ≤ g.maxBlocks.toNat then 0 else -1) ∧
    (Agree g final.2 (applyAll (accepted g bs) mounted.2) ∨
      Agree g final.2 (applyAll (accepted g (bs ++ [batch])) mounted.2)) ∧
    (∀ e j', crash.1 = .ret (e,j') → e.rc = 0 →
      Agree g final.2 (applyAll (accepted g (bs ++ [batch])) mounted.2)) := by
  intro j g mounted before crash final
  have hg : j.Fits := osfs2JournalInit_fits hb n
  obtain ⟨_,hmp,hmi⟩ := replay_idle j d₀
  obtain ⟨hbp,hbi,hba,hbr⟩ := commitAll_run mounted.1.2 (hmp ▸ hg) bs (hmp ▸ hmi)
    (fun b hb => hmp ▸ ho b (by simp [hb]))
  rw [hmp] at hbp hbi hba hbr
  have hcommit := commit_recovers before.1.2 (hbp ▸ hg) (b := batch) (hbp ▸ hbi)
    (hbp ▸ ho batch (by simp))
  rw [hbp] at hcommit
  have hall (o : Outcome) (h : o ∈ replicate k Outcome.ok) : o = .ok :=
    eq_of_mem_replicate h
  -- whatever the crashed disk recovers to, the interrupted replays keep and the last one reaches
  have hreach (w : Disk) (h : Recovers g w crash.2) : final.1.1 = 0 ∧ Agree g final.2 w := by
    obtain ⟨h0,_,_,ha⟩ := (replay_recovers j hg (replayCuts_recovers j hg cuts h)).run_sound rfl
    exact ⟨h0,ha⟩
  have hold {w : Disk} (h : Agree g w before.2) : Agree g w (applyAll (accepted g bs) mounted.2) :=
    h.trans hba
  have hnew {w : Disk} (hle : batch.length ≤ g.maxBlocks.toNat)
      (h : Agree g w (applyBatch batch before.2)) :
      Agree g w (applyAll (accepted g (bs ++ [batch])) mounted.2) := by
    have hacc : accepted g (bs ++ [batch]) = accepted g bs ++ [batch] := by
      simp [accepted,filter_append,hle]
    rw [hacc,applyAll_append]
    exact h.trans (hba.applyWrites _)
  have hcrash := hcommit.crash_sound (replicate k .ok) hall
  refine ⟨?_,hbr,?_,?_⟩
  · rcases hcrash with h | ⟨_,h⟩ <;> exact (hreach _ h).1
  · rcases hcrash with h | ⟨hle,h⟩
    · exact .inl (hold (hreach _ h).2)
    · exact .inr (hnew hle (hreach _ h).2)
  · intro e j' hret hrc
    obtain ⟨_,hidle,hres⟩ := hcommit.result_sound _ hall (Prod.ext hret rfl)
    rcases hres with ⟨_,hle,ha⟩ | ⟨hne,_,_⟩
    · exact hnew hle (hreach _ (.inl ⟨hidle,ha⟩)).2
    · exact absurd hrc hne

lemma outside_two_hundred : ∀ b ∈ ([] : List Batch) ++ [[(200,Bytes.zero)]],
    Outside (osfs2JournalInit 67 32).toJournalPlace b := by
  intro b hb w hw
  rw [nil_append,mem_singleton] at hb
  rw [hb,mem_singleton] at hw
  rw [hw]
  decide

theorem commit_crash_atomic_oneBlock :
    let j := osfs2JournalInit 67 32
    let mounted := (osfs2JournalReplay j).run fun _ => Bytes.zero
    let before := (commitAll mounted.1.2 []).run mounted.2
    let crash := Prog.steps (replicate 11 .ok)
      (osfs2JournalCommit before.1.2 [(200,Bytes.zero)],before.2)
    ((osfs2JournalReplay j).run (replayCuts j [3] crash.2)).1.1 = 0 := by
  have h := commit_crash_atomic 67 32 (fun _ => Bytes.zero) [] [(200,Bytes.zero)]
    outside_two_hundred 11 [3]
  exact h.1

end VibeOS.Osfs2

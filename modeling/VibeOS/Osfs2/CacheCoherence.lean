import VibeOS.Osfs2.Cache

/-! Coherence of the block cache on a device on which any request may fail. Every operation
keeps the slots, the disk and the latest written contents in step for the blocks outside the
journal, so a read gives the latest contents and a flush brings the disk up to date. -/
namespace VibeOS.Osfs2
open Function (update update_of_ne update_self)
open VibeOS.Storage

variable {g : JournalPlace} {latest : UInt32 → Block} {c : Cache} {d : Disk}

def SameBlocks (c c' : Cache) : Prop := ∀ k, (c'.slots k).valid = (c.slots k).valid ∧
  (c'.slots k).blk = (c.slots k).blk ∧ (c'.slots k).data = (c.slots k).data

lemma SameBlocks.refl (c : Cache) : SameBlocks c c := fun _ => ⟨rfl,rfl,rfl⟩

lemma Coherent.after_commit {c' : Cache} {d' : Disk} (h : Coherent g latest c d)
    (hs : SameBlocks c c') (hj : c'.journal.toJournalPlace = g)
    (hd : ∀ k, (c'.slots k).dirty = true → (c.slots k).dirty = true)
    (hdisk : ∀ b, ¬ g.owns b → (∀ k, (c.slots k).valid = true → (c.slots k).dirty = true →
      (c.slots k).blk ≠ b) → blockAt d' b = blockAt d b)
    (hclean : ∀ k, (c.slots k).valid = true → (c.slots k).dirty = true →
      (c'.slots k).dirty = false → ¬ g.owns (c.slots k).blk →
      blockAt d' (c.slots k).blk = (c.slots k).data) :
    Coherent g latest c' d' where
  place := hj
  unique i k hi hk hb := by
    rw [(hs i).1] at hi
    rw [(hs k).1] at hk
    rw [(hs i).2.1,(hs k).2.1] at hb
    exact h.unique i k hi hk hb
  clean i hi := by
    rw [(hs i).1] at hi
    cases hdi : (c'.slots i).dirty with
    | false => rfl
    | true => rw [← hd i hdi,h.clean i hi]
  data i hi hb := by
    rw [(hs i).1] at hi
    rw [(hs i).2.1] at hb ⊢
    rw [(hs i).2.2]
    exact h.data i hi hb
  disk b hb hno := by
    by_cases hold : ∃ k, (c.slots k).valid = true ∧ (c.slots k).dirty = true ∧ (c.slots k).blk = b
    · obtain ⟨k,hv,hdk,rfl⟩ := hold
      have hck : (c'.slots k).dirty = false := by
        cases hdk' : (c'.slots k).dirty with
        | false => rfl
        | true => exact absurd (hs k).2.1 (hno k ((hs k).1.trans hv) hdk')
      rw [hclean k hv hdk hck hb]
      exact h.data k hv hb
    · have hnone : ∀ k, (c.slots k).valid = true → (c.slots k).dirty = true → (c.slots k).blk ≠ b :=
        fun k hv hdk he => hold ⟨k,hv,hdk,he⟩
      rw [hdisk b hb hnone]
      exact h.disk b hb hnone

lemma flushSlot_coherent (hg : g.Fits) (h : Coherent g latest c d) (i : Fin 32) :
    Safe Env.faulty (fun r d' => Coherent g latest r.2 d' ∧ SameBlocks c r.2 ∧
      (r.1 = true → (r.2.slots i).dirty = false)) (flushSlot c i) d := by
  unfold flushSlot
  cases hv : (c.slots i).valid with
  | false =>
    rw [if_pos (by simp)]
    exact ⟨trivial,h,SameBlocks.refl c,fun _ => h.clean i hv⟩
  | true =>
    cases hdi : (c.slots i).dirty with
    | false =>
      rw [if_pos (by simp)]
      exact ⟨trivial,h,SameBlocks.refl c,fun _ => hdi⟩
    | true =>
      rw [if_neg (by simp)]
      refine (commit_blocks h.place hg _ (by simp) d).seq fun r d' ⟨hj,hout,hin⟩ => ?_
      have hdisk : ∀ b, ¬ g.owns b → (∀ k, (c.slots k).valid = true → (c.slots k).dirty = true →
          (c.slots k).blk ≠ b) → blockAt d' b = blockAt d b := by
        intro b hb hno
        refine hout b hb fun w hw => ?_
        rw [List.mem_singleton.mp hw]
        exact hno i hv hdi
      by_cases hrc : r.1.rc = 0
      · rw [if_neg (by simp [hrc])]
        have hs : SameBlocks c (({ c with journal := r.2 } : Cache).markClean i) := by
          intro k
          by_cases hk : k = i
          · subst hk; simp
          · simp [hk]
        refine ⟨trivial,h.after_commit hs hj (fun k hk => ?_) hdisk fun k hvk hdk hck hb => ?_,hs,?_⟩
        · by_cases hki : k = i
          · subst hki; exact hdi
          · simpa [hki] using hk
        · have hki : k = i := by
            by_contra hne
            simp [hne,hdk] at hck
          subst hki
          exact hin hrc ((c.slots k).blk,(c.slots k).data) (List.mem_singleton_self _) hb
        · simp
      · rw [if_pos (by simpa using hrc)]
        refine ⟨trivial,h.after_commit (SameBlocks.refl c) hj (fun _ hk => hk) hdisk ?_,
          SameBlocks.refl c,by simp⟩
        intro k _ hdk hck
        rw [hdk] at hck
        exact absurd hck (by decide)

lemma evict_coherent (hg : g.Fits) (h : Coherent g latest c d) (v : Fin 32) :
    Safe Env.faulty (fun r d' => Coherent g latest r.2 d' ∧ SameBlocks c r.2 ∧
      (r.1 = true → (r.2.slots v).dirty = false)) (evict c v) d := by
  unfold evict
  cases hv : (c.slots v).valid with
  | false =>
    rw [if_neg (by decide)]
    exact ⟨trivial,h,SameBlocks.refl c,fun _ => h.clean v hv⟩
  | true =>
    rw [if_pos rfl]
    have hflush : Safe Env.faulty (fun r d' => Coherent g latest r.2 d' ∧ SameBlocks c r.2 ∧
        (r.1 = true → (r.2.slots v).dirty = false))
        (if (c.slots v).dirty then flushSlot c v else .ret (true,c)) d := by
      cases hd : (c.slots v).dirty with
      | true => exact flushSlot_coherent hg h v
      | false => exact ⟨trivial,h,SameBlocks.refl c,fun _ => hd⟩
    refine hflush.seq fun r d' ⟨hc,hs,hcl⟩ => ?_
    cases hr : r.1 with
    | false =>
      rw [if_neg (by decide)]
      exact ⟨trivial,hc,hs,by simp⟩
    | true =>
      rw [if_pos rfl]
      exact ⟨trivial,⟨hc.place,hc.unique,hc.clean,hc.data,hc.disk⟩,hs,fun _ => hcl hr⟩

lemma Coherent.drop (h : Coherent g latest c d) {v : Fin 32} (hv : (c.slots v).dirty = false) :
    Coherent g latest (c.setSlot v { c.slots v with valid := false }) d where
  place := h.place
  unique i k hi hk hb := by
    have hiv : i ≠ v := fun he => by subst he; simp at hi
    have hkv : k ≠ v := fun he => by subst he; simp at hk
    simp only [Cache.setSlot_slots,update_of_ne hiv,update_of_ne hkv] at hi hk hb
    exact h.unique i k hi hk hb
  clean i hi := by
    by_cases hiv : i = v
    · subst hiv; simpa using hv
    · simp only [Cache.setSlot_slots,update_of_ne hiv] at hi ⊢
      exact h.clean i hi
  data i hi hb := by
    have hiv : i ≠ v := fun he => by subst he; simp at hi
    simp only [Cache.setSlot_slots,update_of_ne hiv] at hi hb ⊢
    exact h.data i hi hb
  disk b hb hno := by
    refine h.disk b hb fun i hi hdi => ?_
    have hiv : i ≠ v := fun he => by subst he; rw [hv] at hdi; exact absurd hdi (by decide)
    simpa [hiv] using hno i (by simpa [hiv] using hi) (by simpa [hiv] using hdi)

/-- A block that no other slot holds may be put into the slot that holds it or into one
without dirty data: a copy of the disk block, or new contents that are marked dirty. -/
lemma Coherent.put (h : Coherent g latest c d) {v : Fin 32} {blk : UInt32}
    (hv : (c.slots v).dirty = true → (c.slots v).blk = blk)
    (hno : ∀ i, i ≠ v → (c.slots i).valid = true → (c.slots i).blk ≠ blk) (s : Slot)
    (hs : s.blk = blk ∧ s.valid = true) {m : UInt32 → Block}
    (hold : ∀ b, b ≠ blk → m b = latest b) (hdata : ¬ g.owns blk → s.data = m blk)
    (hdirty : s.dirty = false → ¬ g.owns blk → blockAt d blk = m blk) :
    Coherent g m (c.setSlot v s) d where
  place := h.place
  unique i k hi hk hb := by
    by_cases hiv : i = v <;> by_cases hkv : k = v
    · rw [hiv,hkv]
    · subst hiv
      simp only [Cache.setSlot_slots,update_self,update_of_ne hkv,hs.1] at hk hb
      exact absurd hb.symm (hno k hkv hk)
    · subst hkv
      simp only [Cache.setSlot_slots,update_self,update_of_ne hiv,hs.1] at hi hb
      exact absurd hb (hno i hiv hi)
    · simp only [Cache.setSlot_slots,update_of_ne hiv,update_of_ne hkv] at hi hk hb
      exact h.unique i k hi hk hb
  clean i hi := by
    by_cases hiv : i = v
    · subst hiv; simp [hs.2] at hi
    · simp only [Cache.setSlot_slots,update_of_ne hiv] at hi ⊢
      exact h.clean i hi
  data i hi hb := by
    by_cases hiv : i = v
    · subst hiv
      simp only [Cache.setSlot_slots,update_self,hs.1] at hb ⊢
      exact hdata hb
    · simp only [Cache.setSlot_slots,update_of_ne hiv] at hi hb ⊢
      rw [hold _ (hno i hiv hi)]
      exact h.data i hi hb
  disk b hb hfree := by
    by_cases hbb : b = blk
    · subst hbb
      refine hdirty ?_ hb
      cases hd : s.dirty with
      | false => rfl
      | true => exact absurd hs.1 (by simpa using hfree v (by simp [hs.2]) (by simp [hd]))
    · rw [hold b hbb]
      refine h.disk b hb fun i hi hdi => ?_
      by_cases hiv : i = v
      · subst hiv
        rw [hv hdi]
        exact fun he => hbb he.symm
      · simpa [hiv] using hfree i (by simpa [hiv] using hi) (by simpa [hiv] using hdi)

lemma osfs2CacheRead_coherent (hg : g.Fits) (h : Coherent g latest c d) (blk : UInt32) :
    Safe Env.faulty (fun r d' => Coherent g latest r.2 d' ∧
      ∀ b, r.1 = some b → ¬ g.owns blk → b = latest blk) (osfs2CacheRead c blk) d := by
  unfold osfs2CacheRead
  cases hf : findSlot c blk with
  | some i =>
    obtain ⟨hv,hb⟩ := findSlot_some hf
    refine ⟨trivial,?_,?_⟩
    · have hs : SameBlocks c (c.setSlot i { c.slots i with lastUsed := c.clock + 1 }) := by
        intro k
        by_cases hk : k = i
        · subst hk; simp
        · simp [hk]
      have hd (k : Fin 32) : ((c.setSlot i { c.slots i with lastUsed := c.clock + 1 }).slots k).dirty =
          (c.slots k).dirty := by
        by_cases hk : k = i
        · subst hk; simp
        · simp [hk]
      have hc := h.after_commit hs h.place (fun k hk => hd k ▸ hk) (fun _ _ _ => rfl)
        (fun k _ hdk hck => by rw [hd,hdk] at hck; exact absurd hck (by decide))
      exact ⟨hc.place,hc.unique,hc.clean,hc.data,hc.disk⟩
    · rintro b hr ho
      have hrd : (c.slots i).data = b := Option.some.inj hr
      rw [← hrd,h.data i hv (hb ▸ ho),hb]
  | none =>
    refine (evict_coherent hg h (pickVictim c)).seq fun r d' ⟨hc,hs,hcl⟩ => ?_
    cases hr : r.1 with
    | false =>
      rw [if_pos (by decide)]
      exact ⟨trivial,hc,by simp⟩
    | true =>
      rw [if_neg (by decide)]
      have hno : ∀ i, (r.2.slots i).valid = true → (r.2.slots i).blk ≠ blk := by
        intro i hi
        rw [(hs i).1] at hi
        rw [(hs i).2.1]
        exact findSlot_none hf i hi
      have hdisk : ¬ g.owns blk → blockAt d' blk = latest blk :=
        fun ho => hc.disk blk ho fun i hi _ => hno i hi
      refine Safe.bind (Safe.rawRead trivial (fun _ _ => trivial) ⟨trivial,?_,?_⟩ fun _ => ?_)
      · have hv : (r.2.slots (pickVictim c)).dirty = true → (r.2.slots (pickVictim c)).blk = blk := by
          intro hd
          rw [hcl hr] at hd
          exact absurd hd (by decide)
        have hp := hc.put hv (fun i _ => hno i) ⟨blk,true,false,r.2.clock + 1,blockAt d' blk⟩ ⟨rfl,rfl⟩
          (fun _ _ => rfl) hdisk fun _ => hdisk
        exact ⟨hp.place,hp.unique,hp.clean,hp.data,hp.disk⟩
      · intro b hb ho
        rw [← Option.some.inj hb]
        exact hdisk ho
      · exact ⟨trivial,hc.drop (hcl hr),by simp⟩

lemma Coherent.store (h : Coherent g latest c d) {i : Fin 32} {blk : UInt32} (buf : Block)
    (hi : (c.slots i).valid = true ∧ (c.slots i).blk = blk ∨ (c.slots i).dirty = false ∧
      ∀ k, (c.slots k).valid = true → (c.slots k).blk ≠ blk) :
    Coherent g (update latest blk buf) (c.store i blk buf) d := by
  have hv : (c.slots i).dirty = true → (c.slots i).blk = blk := by
    rcases hi with ⟨_,hb⟩ | ⟨hd,_⟩
    · exact fun _ => hb
    · intro h
      rw [hd] at h
      exact absurd h (by decide)
  have hno : ∀ k, k ≠ i → (c.slots k).valid = true → (c.slots k).blk ≠ blk := by
    rcases hi with ⟨hvi,rfl⟩ | ⟨_,hno⟩
    · exact fun k hk hvk he => hk (h.unique k i hvk hvi he)
    · exact fun k _ => hno k
  have hput := h.put hv hno ⟨blk,true,true,c.clock + 1,buf⟩ ⟨rfl,rfl⟩
    (m := update latest blk buf) (fun b hb => update_of_ne hb _ _)
    (fun _ => by rw [update_self]) (by simp)
  exact ⟨hput.place,hput.unique,hput.clean,hput.data,hput.disk⟩

lemma osfs2CacheWrite_coherent (hg : g.Fits) (h : Coherent g latest c d) (blk : UInt32)
    (buf : Block) :
    Safe Env.faulty (fun r d' => Coherent g
      (if r.1 then update latest blk buf else latest) r.2 d') (osfs2CacheWrite c blk buf) d := by
  unfold osfs2CacheWrite
  cases hf : findSlot c blk with
  | some i => exact ⟨trivial,h.store buf (.inl (findSlot_some hf))⟩
  | none =>
    refine (evict_coherent hg h (pickVictim c)).seq fun r d' ⟨hc,hs,hcl⟩ => ?_
    cases hr : r.1 with
    | false =>
      rw [if_pos (by decide)]
      exact ⟨trivial,hc⟩
    | true =>
      rw [if_neg (by decide)]
      refine ⟨trivial,hc.store buf (.inr ⟨hcl hr,fun k hk => ?_⟩)⟩
      rw [(hs k).1] at hk
      rw [(hs k).2.1]
      exact findSlot_none hf k hk

lemma dirtyBatch_nodup (h : Coherent g latest c d) : ((dirtyBatch c).map Prod.fst).Nodup := by
  rw [dirtyBatch,List.map_map]
  refine List.Nodup.map_on (fun i hi k hk he => ?_) ((List.nodup_finRange 32).filter _)
  exact h.unique i k (mem_dirtySlots.mp hi).1 (mem_dirtySlots.mp hk).1 he

lemma osfs2CacheFlush_coherent (hg : g.Fits) (h : Coherent g latest c d) :
    Safe Env.faulty (fun r d' => Coherent g latest r.2 d' ∧
      (r.1 = true → ∀ i, (r.2.slots i).dirty = false)) (osfs2CacheFlush c) d := by
  unfold osfs2CacheFlush
  have hclean {i : Fin 32} (hi : i ∉ dirtySlots c) : (c.slots i).dirty = false := by
    rw [mem_dirtySlots] at hi
    cases hv : (c.slots i).valid with
    | false => exact h.clean i hv
    | true => simpa [hv] using hi
  by_cases h0 : (dirtySlots c).length = 0
  · rw [if_pos h0]
    refine ⟨trivial,h,fun _ i => hclean ?_⟩
    rw [List.length_eq_zero_iff.mp h0]
    exact List.not_mem_nil
  rw [if_neg h0]
  refine (commit_blocks h.place hg _ (dirtyBatch_nodup h) d).seq fun r d' ⟨hj,hout,hin⟩ => ?_
  have hdisk : ∀ b, ¬ g.owns b → (∀ k, (c.slots k).valid = true → (c.slots k).dirty = true →
      (c.slots k).blk ≠ b) → blockAt d' b = blockAt d b := by
    intro b hb hno
    refine hout b hb fun w hw => ?_
    obtain ⟨k,hk,rfl⟩ := List.mem_map.mp hw
    exact hno k (mem_dirtySlots.mp hk).1 (mem_dirtySlots.mp hk).2
  by_cases hrc : r.1.rc = 0
  · rw [if_neg (by simp [hrc])]
    have hslot (i : Fin 32) := foldl_markClean_slots (dirtySlots c) { c with journal := r.2 } i
    refine ⟨trivial,h.after_commit (fun k => ?_) ?_ (fun k hk => ?_) hdisk fun k hv hd _ hb => ?_,
      fun _ k => ?_⟩
    · rw [hslot]
      split_ifs <;> exact ⟨rfl,rfl,rfl⟩
    · rw [foldl_markClean_journal]
      exact hj
    · rw [hslot] at hk
      split_ifs at hk
      exact hk
    · exact hin hrc ((c.slots k).blk,(c.slots k).data)
        (List.mem_map.mpr ⟨k,mem_dirtySlots.mpr ⟨hv,hd⟩,rfl⟩) hb
    · rw [hslot]
      split_ifs with hk
      · rfl
      · exact hclean hk
  · rw [if_pos (by simpa using hrc)]
    refine ⟨trivial,h.after_commit (SameBlocks.refl c) hj (fun _ hk => hk) hdisk ?_,by simp⟩
    intro k _ hdk hck
    rw [hdk] at hck
    exact absurd hck (by decide)

/-- Calls of the cache one after another on a device that may fail any request. The contents
written last are recorded beside the cache and the disk; a call that fails writes nothing. -/
inductive CacheRun (j : Journal) (d₀ : Disk) : (UInt32 → Block) → Cache → Disk → Prop
  | start : CacheRun j d₀ (blockAt d₀) (osfs2CacheInit j) d₀
  | read {latest c d blk os r c' d'} (run : CacheRun j d₀ latest c d)
      (returned : Prog.steps os (osfs2CacheRead c blk,d) = (.ret (r,c'),d')) :
      CacheRun j d₀ latest c' d'
  | write {latest c d blk buf os r c' d'} (run : CacheRun j d₀ latest c d)
      (returned : Prog.steps os (osfs2CacheWrite c blk buf,d) = (.ret (r,c'),d')) :
      CacheRun j d₀ (if r then update latest blk buf else latest) c' d'
  | flush {latest c d os r c' d'} (run : CacheRun j d₀ latest c d)
      (returned : Prog.steps os (osfs2CacheFlush c,d) = (.ret (r,c'),d')) :
      CacheRun j d₀ latest c' d'

lemma CacheRun.coherent {j : Journal} (hg : j.Fits) {d₀ : Disk} (run : CacheRun j d₀ latest c d) :
    Coherent j.toJournalPlace latest c d := by
  have hall {os : List Outcome} : ∀ o ∈ os, (Env.faulty : Env Sector).allowed o := fun _ _ => trivial
  induction run with
  | start => exact osfs2CacheInit_coherent j d₀
  | read _ hret ih => exact ((osfs2CacheRead_coherent hg ih _).result_sound _ hall hret).1
  | write _ hret ih => exact (osfs2CacheWrite_coherent hg ih _ _).result_sound _ hall hret
  | flush _ hret ih => exact ((osfs2CacheFlush_coherent hg ih).result_sound _ hall hret).1

/-- For any calls on any blocks, with any request failing: no block is in two slots, a read
that succeeds on a block outside the journal gives what was written to it last, and after a
flush that succeeds no slot is dirty and the disk has the last contents of every such block. -/
theorem cache_coherent (hb n : UInt32) (d₀ : Disk) (latest : UInt32 → Block) (c : Cache) (d : Disk)
    (run : CacheRun (osfs2JournalInit hb n) d₀ latest c d) :
    (∀ i k, (c.slots i).valid = true → (c.slots k).valid = true →
      (c.slots i).blk = (c.slots k).blk → i = k) ∧
    (∀ blk os b c' d', ¬ (osfs2JournalInit hb n).owns blk →
      Prog.steps os (osfs2CacheRead c blk,d) = (.ret (some b,c'),d') → b = latest blk) ∧
    (∀ os c' d', Prog.steps os (osfs2CacheFlush c,d) = (.ret (true,c'),d') →
      (∀ i, (c'.slots i).dirty = false) ∧
      ∀ blk, ¬ (osfs2JournalInit hb n).owns blk → blockAt d' blk = latest blk) := by
  have hg := osfs2JournalInit_fits hb n
  have h := run.coherent hg
  refine ⟨h.unique,fun blk os b c' d' ho hret => ?_,fun os c' d' hret => ?_⟩
  · exact ((osfs2CacheRead_coherent hg h blk).result_sound os (fun _ _ => trivial) hret).2 b rfl ho
  · obtain ⟨hc,hclean⟩ := (osfs2CacheFlush_coherent hg h).result_sound os (fun _ _ => trivial) hret
    refine ⟨hclean rfl,fun blk ho => hc.disk blk ho fun i _ hd => ?_⟩
    rw [hclean rfl i] at hd
    exact absurd hd (by decide)

theorem cache_coherent_write :
    let c := (osfs2CacheInit (osfs2JournalInit 67 32)).store 0 200 Bytes.zero
    ∀ i k, (c.slots i).valid = true → (c.slots k).valid = true →
      (c.slots i).blk = (c.slots k).blk → i = k := by
  have run := @CacheRun.write (osfs2JournalInit 67 32) (fun _ => Bytes.zero) _ _ _ 200 Bytes.zero []
    _ _ _ .start rfl
  exact (cache_coherent 67 32 (fun _ => Bytes.zero) _ _ _ run).1

lemma commit_run (j : Journal) (batch : Batch) (d : Disk) (h0 : batch.length ≠ 0)
    (hle : batch.length ≤ j.maxBlocks.toNat) :
    (osfs2JournalCommit j batch).run d = ((.done,journalAfter j batch .done),checkpointDone j batch d) := by
  have h := Safe.commit (E := Env.reliable) (Q := fun r d' => (r,d') =
    ((CommitExit.done,journalAfter j batch .done),checkpointDone j batch d)) j batch d
    (fun _ => trivial) h0 hle (fun _ => trivial) (fun _ => trivial) (fun _ => trivial)
    (fun _ => trivial) (fun h => (Env.reliable_not_mayFail h).elim)
    (fun h => (Env.reliable_not_mayFail h).elim) (fun h => (Env.reliable_not_mayFail h).elim)
    (fun h => (Env.reliable_not_mayFail h).elim) rfl
  exact Safe.reliable_iff.mp h

lemma osfs2CacheFlush_run (c : Cache) (d : Disk) (h0 : (dirtySlots c).length ≠ 0)
    (hle : (dirtySlots c).length ≤ c.journal.maxBlocks.toNat) :
    (osfs2CacheFlush c).run d =
      ((true,(dirtySlots c).foldl Cache.markClean
        { c with journal := journalAfter c.journal (dirtyBatch c) .done }),
        checkpointDone c.journal (dirtyBatch c) d) := by
  have hl : (dirtyBatch c).length = (dirtySlots c).length := List.length_map _
  rw [osfs2CacheFlush,if_neg h0,Prog.run_bind,commit_run _ _ _ (by omega) (by omega)]
  rfl

lemma rawRead_run (blk : UInt32) (d : Disk) : (rawRead blk).run d = (some (blockAt d blk),d) :=
  Safe.reliable_iff.mp (Safe.rawRead (Q := fun r d' => (r,d') = (some (blockAt d blk),d)) trivial
    (fun _ _ => trivial) rfl fun h => (Env.reliable_not_mayFail h).elim)

lemma osfs2CacheRead_miss (c : Cache) (blk : UInt32) (d : Disk) (hf : findSlot c blk = none)
    (hv : (c.slots (pickVictim c)).dirty = false) :
    ((osfs2CacheRead c blk).run d).1.1 = some (blockAt d blk) := by
  have he : ∃ c', (evict c (pickVictim c)).run d = ((true,c'),d) := by
    unfold evict
    rw [hv]
    cases (c.slots (pickVictim c)).valid with
    | true | false => exact ⟨_,rfl⟩
  obtain ⟨c',he⟩ := he
  unfold osfs2CacheRead
  rw [hf,Prog.run_bind,he,Bool.not_true,if_neg (by decide),Prog.run_bind,rawRead_run]
  rfl

namespace JournalWrite

def ones : Block := Bytes.ofFn fun _ => 0xff

def written : Cache := (osfs2CacheInit (osfs2JournalInit 67 32)).store 0 200 ones
def flushed : (Bool × Cache) × Disk := (osfs2CacheFlush written).run fun _ => Bytes.zero

lemma written_dirty : dirtySlots written = [0] := by
  decide

lemma flushed_eq : flushed = ((true,({ written with
      journal := journalAfter written.journal [(200,ones)] .done } : Cache).markClean 0),
    checkpointDone written.journal [(200,ones)] fun _ => Bytes.zero) := by
  have h := osfs2CacheFlush_run written (fun _ => Bytes.zero) (by rw [written_dirty]; decide)
    (by rw [written_dirty]; decide)
  have hb : dirtyBatch written = [(200,ones)] := by rw [dirtyBatch,written_dirty]; rfl
  rw [hb,written_dirty] at h
  exact h

lemma flushed_slot : blockAt flushed.2 68 = ones := by
  have hslot : (68,ones) ∈ payloadSlots written.journal.toJournalPlace [(200,ones)] :=
    List.mem_mapIdx.mpr ⟨0,by decide,rfl⟩
  have hpay : blockAt (payloadDone written.journal [(200,ones)] fun _ => Bytes.zero) 68 = ones :=
    blockAt_batch_of_mem _ _ (payloadSlots_nodup (osfs2JournalInit_fits 67 32) (by decide)) hslot
  rw [flushed_eq]
  change blockAt (checkpointDone written.journal [(200,ones)] fun _ => Bytes.zero) 68 = ones
  rw [checkpointDone,blockAt_applyWrites_of_ne _ _ (by decide),applyDone,applyBatch,
    blockAt_batch_of_not_mem _ _ (by simp),headerDone,blockAt_applyWrites_of_ne _ _ (by decide),hpay]

lemma flushed_slots (i : Fin 32) : (flushed.1.2.slots i).dirty = false ∧
    ((flushed.1.2.slots i).valid = true → (flushed.1.2.slots i).blk = 200) := by
  rw [flushed_eq]
  by_cases hi : i = 0
  · subst hi
    exact ⟨rfl,fun _ => rfl⟩
  · simp [hi,written,Cache.store,osfs2CacheInit]

end JournalWrite

/-- On a block of the journal it fails: block 200 is written and flushed, and a read of block
68, which nobody wrote, gives its contents. -/
theorem cache_incoherent_in_journal :
    ¬ ∀ latest c d, CacheRun (osfs2JournalInit 67 32) (fun _ => Bytes.zero) latest c d →
      ∀ blk os b c' d', Prog.steps os (osfs2CacheRead c blk,d) = (.ret (some b,c'),d') →
        b = latest blk := by
  intro h
  have hwrite : CacheRun (osfs2JournalInit 67 32) (fun _ => Bytes.zero) _ JournalWrite.written _ :=
    @CacheRun.write _ _ _ _ _ 200 JournalWrite.ones [] _ _ _ .start rfl
  have hflush := hwrite.flush (Prog.steps_requests _ _)
  have hread := Prog.steps_requests (osfs2CacheRead JournalWrite.flushed.1.2 68) JournalWrite.flushed.2
  have hmiss := osfs2CacheRead_miss JournalWrite.flushed.1.2 68 JournalWrite.flushed.2
    (List.find?_eq_none.mpr fun i _ hi => by
      simp only [Bool.and_eq_true,beq_iff_eq] at hi
      rw [(JournalWrite.flushed_slots i).2 hi.1] at hi
      exact absurd hi.2 (by decide))
    (JournalWrite.flushed_slots _).1
  rw [JournalWrite.flushed_slot] at hmiss
  have heq := h _ _ _ hflush 68 _ JournalWrite.ones _ _ (by rw [← hmiss]; exact hread)
  have h0 := congrFun heq 0
  simp [JournalWrite.ones,Bytes.ofFn,blockAt] at h0

end VibeOS.Osfs2

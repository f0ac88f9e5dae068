import VibeOS.Traps.Handlers

/-! Programs do not notice their signals, as long as handlers leave the FP registers alone. -/
namespace VibeOS.Traps
open VibeOS.Srv

variable {t t' : Signals} {s s' : Saved} {u u' : User} {l : List (Fin 32)} {n m : Fin 32} {k k' : Task} {d : Delivery}
  {r : Reply} {e : TaskEvent}

lemma getLsbD_mask : ∀ n m : Fin 32, (1 <<< UInt32.ofNat n : UInt32).toBitVec.getLsbD m = decide (m = n) := by
  decide

lemma Signals.isPending_eq (t : Signals) (n : Fin 32) : t.isPending n = t.pending.toBitVec.getLsbD n := by
  unfold isPending
  cases hb : t.pending.toBitVec.getLsbD n with
  | true =>
    rw [bne_iff_ne]
    intro hzero
    have hbit : (t.pending &&& (1 <<< UInt32.ofNat n)).toBitVec.getLsbD n = true := by
      rw [UInt32.toBitVec_and,BitVec.getLsbD_and,hb,getLsbD_mask,decide_eq_true rfl]
      rfl
    rw [hzero] at hbit
    simp at hbit
  | false =>
    rw [bne_eq_false_iff_eq]
    apply UInt32.toBitVec_inj.mp
    apply BitVec.eq_of_getLsbD_eq
    intro i hi
    rw [UInt32.toBitVec_and,BitVec.getLsbD_and,getLsbD_mask n ⟨i,hi⟩]
    by_cases hin : (⟨i,hi⟩ : Fin 32) = n
    · rw [← hin] at hb
      rw [show t.pending.toBitVec.getLsbD i = false from hb]
      simp
    · rw [decide_eq_false hin,Bool.and_false]
      simp

lemma Signals.isPending_clear (t : Signals) (n m : Fin 32) : (t.clear n).isPending m = (t.isPending m && decide (m ≠ n)) := by
  rw [isPending_eq,isPending_eq]
  unfold clear
  dsimp only
  rw [UInt32.toBitVec_and,UInt32.toBitVec_not,BitVec.getLsbD_and,BitVec.getLsbD_not,getLsbD_mask,decide_eq_true m.isLt,
    Bool.true_and,decide_not]

lemma Signals.isPending_post (t : Signals) (sig : ℤ) (h : t.isPending m = true) : (t.post sig).isPending m = true := by
  unfold post
  split
  · exact h
  · rw [isPending_eq] at h ⊢
    dsimp only
    rw [UInt32.toBitVec_or,BitVec.getLsbD_or,h,Bool.true_or]

lemma isPending_inherited (t : Signals) (n : Fin 32) : t.inherited.isPending n = false := by
  rw [Signals.isPending_eq]
  simp [Signals.inherited]

lemma isPending_fresh (n : Fin 32) : Signals.fresh.isPending n = false := by
  rw [Signals.isPending_eq]
  simp [Signals.fresh]

structure Tail (t t' : Signals) (next : Option (Fin 32)) : Prop where
  old : ∀ m, t'.isPending m = true → t.isPending m = true
  gone : ∀ m, t.isPending m = true → t'.isPending m = false → next = some m ∨ t.drops m = true
  next : ∀ m, next = some m → t.isPending m = true ∧ t'.isPending m = false ∧ t.drops m = false

lemma Tail.skip {next : Option (Fin 32)} (h : Tail (t.clear n) t' next) (hdrop : t.drops n = true) : Tail t t' next where
  old m hm := by
    have h' := h.old m hm
    rw [Signals.isPending_clear,Bool.and_eq_true] at h'
    exact h'.1
  gone m hm hm' := by
    by_cases hmn : m = n
    · exact .inr (hmn ▸ hdrop)
    · exact h.gone m (by rw [Signals.isPending_clear,hm,decide_eq_true hmn]; rfl) hm'
  next m hm := by
    have h' := h.next m hm
    rw [Signals.isPending_clear,Bool.and_eq_true] at h'
    exact ⟨h'.1.1,h'.2⟩

lemma signalTail_spec (now : signalTail s u l t = some (t',s',u')) : Tail t t' (nextSignal l t) ∧
    (nextSignal l t = none ∧ s' = s ∧ u' = u ∨ ∃ n t₀ h, nextSignal l t = some n ∧ s.deliverSignal t₀ n h u = some (s',u')) := by
  induction l generalizing t with
  | nil =>
    cases now
    exact ⟨⟨fun _ => id,fun m h h' => (by rw [h] at h'; cases h'),nofun⟩,.inl ⟨rfl,rfl,rfl⟩⟩
  | cons n rest ih =>
    simp only [signalTail] at now
    simp only [nextSignal]
    split at now
    · next hp =>
      rw [if_pos hp]
      split at now
      · next h1 =>
        have h1' : t.handlers n = 1 := h1
        rw [if_pos h1']
        obtain ⟨htail,hrest⟩ := ih now
        exact ⟨htail.skip (by simp [Signals.drops,h1']),hrest⟩
      · next h1 =>
        have h1' : ¬ t.handlers n = 1 := h1
        rw [if_neg h1']
        split at now
        · next h0 =>
          have h0' : t.handlers n = 0 := h0
          rw [if_pos h0']
          split at now
          · next hc =>
            rw [if_pos hc]
            obtain ⟨htail,hrest⟩ := ih now
            exact ⟨htail.skip (by simp [Signals.drops,h0',hc]),hrest⟩
          · cases now
        · next h0 =>
          have h0' : ¬ t.handlers n = 0 := h0
          rw [if_neg h0']
          obtain ⟨⟨s'',u''⟩,hd,heq⟩ := Option.map_eq_some_iff.mp now
          cases heq
          refine ⟨⟨fun m hm => ?_,fun m hm hm' => .inl ?_,fun m hm => ?_⟩,.inr ⟨n,_,_,rfl,hd⟩⟩
          · rw [Signals.isPending_clear,Bool.and_eq_true] at hm
            exact hm.1
          · rw [Signals.isPending_clear,hm,Bool.true_and,decide_eq_false_iff_not,not_not] at hm'
            rw [hm']
          · obtain rfl := Option.some.inj hm
            refine ⟨hp,?_,by simp [Signals.drops,h0',h1']⟩
            rw [Signals.isPending_clear,decide_eq_false (by simp),Bool.and_false]
    · next hp =>
      rw [if_neg hp]
      exact ih now

lemma getLsbD_fifteen : ∀ i : Fin 64, (0xf : UInt64).toBitVec.getLsbD i = decide (i.val < 4) := by
  decide

lemma and_not_fifteen (x : UInt64) : x &&& ~~~(0xf : UInt64) = (x >>> 4) <<< 4 := by
  apply UInt64.toBitVec_inj.mp
  apply BitVec.eq_of_getLsbD_eq
  intro i hi
  have hmask : (0xf : UInt64).toBitVec.getLsbD i = decide (i < 4) := getLsbD_fifteen ⟨i,hi⟩
  rw [UInt64.toBitVec_and,UInt64.toBitVec_not,BitVec.getLsbD_and,BitVec.getLsbD_not,hmask,UInt64.toBitVec_shiftLeft,
    UInt64.toBitVec_shiftRight]
  rcases Nat.lt_or_ge i 4 with h | h
  · simp [hi,h]
  · have h' : ¬ i < 4 := by omega
    simp [hi,h',Nat.add_sub_cancel' h]

lemma Saved.sigframeAddr_le (s : Saved) (h : s.sigframeAddr.toNat ≤ userVaEnd) :
    s.sigframeAddr.toNat + SigframeK.size ≤ s.spEl0.toNat := by
  have haddr : s.sigframeAddr.toNat = (s.spEl0 - UInt64.ofNat SigframeK.size).toNat / 16 * 16 := by
    unfold sigframeAddr
    rw [and_not_fifteen,UInt64.toNat_shiftLeft,UInt64.toNat_shiftRight,Nat.shiftLeft_eq,Nat.shiftRight_eq_div_pow]
    have hlt := (s.spEl0 - UInt64.ofNat SigframeK.size).toNat_lt
    refine Nat.mod_eq_of_lt ?_
    simp
    omega
  have hsp := s.spEl0.toNat_lt
  have hsub : (s.spEl0 - UInt64.ofNat SigframeK.size).toNat = (2^64 - SigframeK.size + s.spEl0.toNat) % 2^64 := by
    rw [UInt64.toNat_sub]
    rfl
  unfold SigframeK.size at *
  unfold userVaEnd at h
  omega

lemma Saved.deliverSignal_spec {h : UInt64} (now : s.deliverSignal t n h u = some (s',u')) :
    s'.spEl0 = s.sigframeAddr ∧ userSigframe u' s.sigframeAddr = some (s.sigframe n) ∧
      (∀ a, a < s.sigframeAddr.toNat ∨ s.sigframeAddr.toNat + SigframeK.size ≤ a → u'.mem a = u.mem a) ∧
      s.sigframeAddr.toNat + SigframeK.size ≤ s.spEl0.toNat := by
  unfold deliverSignal at now
  split at now
  · cases now
  cases hc : copyToUser u s.sigframeAddr.toNat (s.sigframe n).bytes with
  | mk rc v =>
    simp only [hc] at now
    split at now
    · cases now
    next hrc =>
    cases now
    refine ⟨rfl,userSigframe_copyToUser hc (by omega),fun a ha => ?_,s.sigframeAddr_le ?_⟩
    · unfold copyToUser at hc
      split at hc
      · cases hc
        rw [SigframeK.length_bytes]
        exact if_neg (by omega)
      · cases hc
        exact absurd (by decide) hrc
    · unfold copyToUser at hc
      split at hc
      · next hacc =>
        have hrange := rangeInUser_of_accepts hacc
        unfold rangeInUser at hrange
        have := of_decide_eq_true hrange
        omega
      · cases hc
        exact absurd (by decide) hrc

lemma userSigframe_congr {p : UInt64}
    (h : ∀ a, p.toNat ≤ a → a < p.toNat + SigframeK.size → u'.mem a = u.mem a) :
    Saved.userSigframe u' p = Saved.userSigframe u p := by
  unfold Saved.userSigframe copyFromUser
  split
  · have hbytes : u'.bytes p.toNat SigframeK.size = u.bytes p.toNat SigframeK.size := by
      unfold User.bytes
      refine List.map_congr_left fun i hi => h _ (Nat.le_add_right _ _) ?_
      have := List.mem_range.mp hi
      omega
    rw [hbytes]
  · rfl

lemma Saved.restore_sigframe (s : Saved) (n : Fin 32) : restore (s.sigframe n) = s := rfl

/-- The frame of a handler is there, and memory above it is as it would be. -/
structure Intact (u : User) (d : Delivery) : Prop where
  frame : Saved.userSigframe u d.addr = some (d.saved.sigframe d.signum)
  mem : ∀ a, d.top ≤ a → u.mem a = d.clean a

/-- The invariant of every run; what is to be said of the FP registers is left open. -/
structure Followed (P : Return → Prop) (k : Task) : Prop where
  active : ∀ d ∈ k.active, Intact k.user d
  done : ∀ r ∈ k.done, r.regs = r.handler.saved.eret ∧ (∀ a, r.handler.top ≤ a → r.mem a = r.handler.clean a) ∧ P r
  once : ∀ n, k.raised n = k.delivered n + k.dropped n + if k.signals.isPending n then 1 else 0

variable {P : Return → Prop}

lemma Followed.write {w : ℕ → Option UInt8} {prefault : ℕ → Bool} (hk : Followed P k)
    (hw : ∀ d ∈ k.active, ∀ a, d.addr.toNat ≤ a → a < d.addr.toNat + SigframeK.size → w a = none) :
    Followed P { k with
      user := { k.user with mem := patch w k.user.mem, prefault := prefault }
      active := k.active.map fun d => { d with clean := patch w d.clean } } where
  active d hd := by
    obtain ⟨d₀,hd₀,rfl⟩ := List.mem_map.mp hd
    obtain ⟨hframe,hmem⟩ := hk.active d₀ hd₀
    refine ⟨(userSigframe_congr fun a ha ha' => ?_).trans hframe,fun a ha => ?_⟩
    · change (w a).getD (k.user.mem a) = k.user.mem a
      rw [hw d₀ hd₀ a ha ha']
      rfl
    · change (w a).getD (k.user.mem a) = (w a).getD (d₀.clean a)
      rw [hmem a ha]
  done := hk.done
  once := hk.once

lemma Followed.post (hk : Followed P k) (sig : ℤ) : Followed P { k with
    signals := k.signals.post sig
    raised := fun n => k.raised n + if (k.signals.post sig).isPending n && !k.signals.isPending n then 1 else 0 } where
  active := hk.active
  done := hk.done
  once n := by
    have hold := hk.once n
    dsimp only
    rw [hold]
    cases hp : k.signals.isPending n with
    | true =>
      rw [Signals.isPending_post k.signals sig hp]
      simp
    | false => simp

lemma Followed.drop (hk : Followed P k) (t : Signals) (hold : ∀ n, t.isPending n = true → k.signals.isPending n = true) :
    Followed P { k with signals := t, dropped := k.lost k.signals t fun _ => true } where
  active := hk.active
  done := hk.done
  once n := by
    have honce := hk.once n
    unfold Task.lost
    dsimp only
    rw [honce]
    cases hp : k.signals.isPending n with
    | true => cases ht : t.isPending n <;> simp [Nat.add_assoc]
    | false =>
      cases ht : t.isPending n with
      | true =>
        have h := hold n ht
        rw [hp] at h
        cases h
      | false => simp

lemma Followed.finish {v : Served} (hk : Followed P { k with signals := v.signals })
    (hapart : ∀ n, nextSignal catchable v.signals = some n →
      ∀ d ∈ k.active, d.Apart v.saved.sigframeAddr.toNat SigframeK.size)
    (now : k.finish v = some k') : Followed P k' := by
  unfold Task.finish at now
  obtain ⟨⟨t,s,u⟩,htail,heq⟩ := Option.map_eq_some_iff.mp now
  obtain ⟨hbits,hframe⟩ := signalTail_spec htail
  have honce (n : Fin 32) : k.raised n = k.delivered n + (if nextSignal catchable v.signals = some n then 1 else 0) +
      k.lost v.signals t v.signals.drops n + if t.isPending n then 1 else 0 := by
    have hold := hk.once n
    dsimp only at hold
    unfold Task.lost
    rw [hold]
    by_cases hn : nextSignal catchable v.signals = some n
    · obtain ⟨hp,hp',hd⟩ := hbits.next n hn
      simp [hn,hp,hp',hd]
      omega
    · rw [if_neg hn]
      cases hp : v.signals.isPending n with
      | true =>
        cases hp' : t.isPending n with
        | true => simp
        | false =>
          have hd := (hbits.gone n hp hp').resolve_left hn
          simp [hd]
          omega
      | false =>
        have hp' : t.isPending n = false := Bool.eq_false_iff.mpr fun h => Bool.false_ne_true (hp.symm.trans (hbits.old n h))
        simp [hp']
  dsimp only at heq
  rcases hframe with ⟨hnone,rfl,rfl⟩ | ⟨n,t₀,h,hsome,hdel⟩
  · rw [hnone] at heq honce
    cases heq
    exact ⟨hk.active,hk.done,fun n => by simpa using honce n⟩
  · rw [hsome] at heq honce
    cases heq
    obtain ⟨haddr,hread,hmem,hbelow⟩ := Saved.deliverSignal_spec hdel
    refine ⟨fun d hd => ?_,hk.done,fun m => ?_⟩
    · rcases List.mem_cons.mp hd with rfl | hd
      · refine ⟨?_,fun a ha => hmem a (.inr ?_)⟩
        · rw [haddr]
          exact hread
        · dsimp only at ha
          omega
      · obtain ⟨d₀,hd₀,rfl⟩ := List.mem_map.mp hd
        have hin := hk.active d₀ hd₀
        refine ⟨(userSigframe_congr fun a ha ha' => hmem a ?_).trans hin.frame,fun a ha => ?_⟩
        · have hap := hapart n hsome d₀ hd₀
          unfold Delivery.Apart at hap
          dsimp only at ha ha'
          omega
        · have hle := (Nat.max_le).mp ha
          exact (hmem a (.inr (by omega))).trans (hin.mem a hle.1)
    · have h := honce m
      dsimp only
      rw [h,Function.update_apply]
      by_cases hm : m = n
      · rw [if_pos hm,hm,if_pos rfl]
      · rw [if_neg hm,if_neg fun heq => hm (Option.some.inj heq).symm,Nat.add_zero]

lemma svcDispatch_pending {v : Served} (now : svcDispatch r u t s = some v) (hret : s.x 8 ≠ sysSigreturnNo) :
    (∀ n, v.signals.isPending n = t.isPending n) ∨
      s.x 8 = sysExecNo ∧ r.loaded.toOption.isSome = true ∧ ∀ n, v.signals.isPending n = false := by
  unfold svcDispatch at now
  dsimp only at now
  split at now
  · cases now
  split at now
  · cases now
    exact .inl fun _ => rfl
  split at now
  · next hexec =>
    cases now
    unfold sysExec
    cases hl : r.loaded with
    | error e => exact .inl fun _ => rfl
    | ok img => exact .inr ⟨hexec,rfl,isPending_fresh⟩
  split at now
  · cases now
    refine .inl fun n => ?_
    unfold Signals.sysSigaction
    split <;> rfl
  · cases now
    exact .inl fun _ => rfl

lemma Followed.svc (hk : Followed P k) (hhandled : Handled k (.svc r)) {a : Unit}
    (now : k.step (.svc r) = some (a,k')) : Followed P k' := by
  simp only [Task.step] at now
  split at now
  · cases now
  next hnum =>
  obtain ⟨v,hv,hfin⟩ := Option.bind_eq_some_iff.mp now
  obtain ⟨k₁,hfin,heq⟩ := Option.map_eq_some_iff.mp hfin
  cases heq
  have hpend : (∀ n, v.signals.isPending n = k.signals.isPending n) ∨
      k.regs.x 8 = sysExecNo ∧ r.loaded.toOption.isSome = true ∧ ∀ n, v.signals.isPending n = false :=
    svcDispatch_pending hv hnum
  split at hfin
  · -- a new program
    next hexec =>
    have hdrop : Followed P { k with signals := v.signals, dropped := k.lost k.signals v.signals fun _ => true } := by
      refine hk.drop v.signals fun n hn => ?_
      rcases hpend with hsame | ⟨-,-,hnone⟩
      · rw [← hsame n]
        exact hn
      · rw [hnone n] at hn
        cases hn
    have hclear : Followed P { k with
        signals := v.signals, active := [], dropped := k.lost k.signals v.signals fun _ => true } :=
      ⟨nofun,hdrop.done,hdrop.once⟩
    exact Followed.finish hclear (fun _ _ _ hd => by cases hd) hfin
  · next hexec =>
    have hsame : ∀ n, v.signals.isPending n = k.signals.isPending n :=
      hpend.resolve_right fun h => hexec ⟨h.1,h.2.1⟩
    have hk' : Followed P { k with signals := v.signals } :=
      ⟨hk.active,hk.done,fun n => by
        dsimp only
        rw [hsame n]
        exact hk.once n⟩
    exact hk'.finish (fun n hn => hhandled v n hv hn) hfin

lemma Followed.sigreturn (hk : Followed P k) (hhandled : Handled k (.sigreturn r)) {a : Unit}
    (hP : ∀ d ∈ k.active.head?, P ⟨d,d.saved.eret,k.fp,k.user.mem⟩)
    (now : k.step (.sigreturn r) = some (a,k')) : Followed P k' := by
  simp only [Task.step] at now
  split at now
  · next hnum =>
    obtain ⟨v,hv,hret⟩ := Option.bind_eq_some_iff.mp now
    cases hact : k.active with
    | nil =>
      rw [hact] at hret
      cases hret
    | cons d rest =>
      rw [hact] at hret
      have hhead : d ∈ k.active.head? := by
        rw [hact]
        rfl
      have hin := hk.active d (by rw [hact]; exact List.mem_cons_self)
      have hframe : Saved.userSigframe k.user ((k.regs.trap .svc).x 0) = some (d.saved.sigframe d.signum) := by
        change Saved.userSigframe k.user (k.regs.x 0) = _
        rw [hhandled d hhead]
        exact hin.frame
      have hv' := Machine.svcDispatch_sigreturn (r := r) (t := k.signals) (s := k.regs.trap .svc) hnum hframe
      have hsaved : (Saved.restore (d.saved.sigframe d.signum)).setRet ((d.saved.sigframe d.signum).x 0) = d.saved := by
        rw [Saved.restore_sigframe]
        unfold Saved.setRet Saved.sigframe
        dsimp only
        rw [Function.update_eq_self]
      rw [hsaved] at hv'
      obtain rfl : ⟨k.signals,d.saved,none⟩ = v := Option.some.inj (hv'.symm.trans hv)
      cases hret
      refine ⟨fun d' hd' => hk.active d' (by rw [hact]; exact List.mem_cons_of_mem _ hd'),fun x hx => ?_,hk.once⟩
      rcases List.mem_append.mp hx with hx | hx
      · exact hk.done x hx
      · rw [List.mem_singleton.mp hx]
        exact ⟨rfl,hin.mem,hP d hhead⟩
  · cases now

lemma Followed.step (hk : Followed P k) (hhandled : Handled k e) {a : Unit}
    (hP : ∀ r, e = .sigreturn r → ∀ d ∈ k.active.head?, P ⟨d,d.saved.eret,k.fp,k.user.mem⟩)
    (now : k.step e = some (a,k')) : Followed P k' := by
  cases e with
  | run r fp =>
    cases now
    exact ⟨hk.active,hk.done,hk.once⟩
  | write w prefault =>
    cases now
    exact hk.write hhandled
  | post sig =>
    cases now
    exact hk.post sig
  | svc r => exact hk.svc hhandled now
  | child r fp =>
    simp only [Task.step] at now
    split at now
    · obtain ⟨v,-,hchild⟩ := Option.bind_eq_some_iff.mp now
      obtain ⟨c,-,heq⟩ := Option.map_eq_some_iff.mp hchild
      cases heq
      have hdrop := hk.drop k.signals.inherited fun n hn => by
        rw [isPending_inherited] at hn
        cases hn
      exact ⟨hdrop.active,hdrop.done,hdrop.once⟩
    · cases now
  | sigreturn r => exact hk.sigreturn hhandled (hP r rfl) now

lemma Task.Starts.followed (h : k.Starts) : Followed P k where
  active d hd := by
    rw [h.active] at hd
    cases hd
  done r hr := by
    rw [h.done] at hr
    cases hr
  once n := by rw [h.raised,h.delivered,h.dropped,Nat.zero_add]

/-- Handlers that leave the FP registers alone are not noticed, in any order and nesting. -/
theorem signals_transparent {es : List TaskEvent} (hstart : k.Starts)
    (run : Runs Task.step (fun k e => Handled k e ∧ KeepsFp k e) k es k') : Transparent k' := by
  have hfollow : Followed (fun r => r.fp = r.handler.fp) k' := by
    refine run.invariant (fun k e a k' hk hok now => ?_) hstart.followed
    refine hk.step hok.1 (fun r he d hd => ?_) now
    rw [he] at hok
    exact hok.2 d hd
  refine ⟨fun r hr => ?_,hfollow.once⟩
  obtain ⟨hregs,hmem,hfp⟩ := hfollow.done r hr
  exact ⟨hregs,hfp,hmem⟩

def zeroFp : FpRegs := ⟨fun _ => 0,0,0⟩

/-- A thread with a handler for signal 2, which is pending. -/
def interrupted : Task where
  regs := ⟨fun _ => 0,0x1000000000,0x1000002000,spsrUser⟩
  fp := zeroFp
  signals := ⟨4,fun n => if n = 2 then 0x1000000100 else 0,0x1000000200⟩
  user := ⟨fun _ => 0,true,fun _ => true⟩
  active := []
  done := []
  raised n := if (⟨4,fun _ => 0,0⟩ : Signals).isPending n then 1 else 0
  delivered _ := 0
  dropped _ := 0

lemma interrupted_starts : interrupted.Starts := ⟨rfl,rfl,fun _ => rfl,fun _ => rfl,fun _ => rfl⟩

def quietReply : Reply := ⟨7,.error 0,false,false⟩

def atRestorer : UserRegs := ⟨fun k => if k = 8 then sysSigreturnNo else if k = 0 then 0x1000001ee0 else 0,0,0x1000001ee0,0⟩

/-- The signal is delivered when the call returns; `fp` is what its handler leaves. -/
def handle (fp : FpRegs) : List TaskEvent := [.svc quietReply,.run atRestorer fp,.sigreturn quietReply]

set_option maxRecDepth 20000 in
theorem signals_transparent_handler : ∃ k, Runs Task.step (fun k e => Handled k e ∧ KeepsFp k e) interrupted (handle zeroFp) k ∧
    k.done.length = 1 ∧ Transparent k := by
  have run : Runs Task.step (fun k e => Handled k e ∧ KeepsFp k e) interrupted (handle zeroFp) _ :=
    .cons ⟨fun _ _ _ _ _ hd => (by cases hd),trivial⟩ rfl <| .cons ⟨trivial,trivial⟩ rfl <|
    .cons ⟨fun d hd => (by cases hd; rfl),fun d hd => (by cases hd; rfl)⟩ rfl <| .nil _
  exact ⟨_,run,rfl,signals_transparent interrupted_starts run⟩

set_option maxRecDepth 20000 in
/-- A handler that sets an exception flag of FPSR: the program finds it set. -/
theorem handler_changes_fp : ¬ ∀ (k k' : Task) (es : List TaskEvent), k.Starts → Runs Task.step Handled k es k' →
    Transparent k' := by
  intro h
  have run : Runs Task.step Handled interrupted (handle ⟨fun _ => 0,0,1⟩) _ :=
    .cons (fun _ _ _ _ _ hd => by cases hd) rfl <| .cons trivial rfl <| .cons (fun d hd => by cases hd; rfl) rfl <| .nil _
  have hfp := ((h _ _ _ interrupted_starts run).resumed _ (List.mem_singleton_self _)).fp
  exact absurd (congrArg FpRegs.fpsr hfp) (by decide)

end VibeOS.Traps

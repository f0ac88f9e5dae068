import VibeOS.Userfs.Call
import Mathlib.Data.Nat.Bitwise

/-! The replies that calls of `userfs_call` take from the reply pipe, for every stream of bytes that
the daemon writes and every order of the threads. -/
namespace VibeOS.Userfs
open Function List Option
open VibeOS.Storage

structure Reply (o : Outcome) : Prop where
  began : o.began = true
  reply : ∃ hdr payload rsp, o.rsp = some rsp ∧ o.segment = hdr ++ payload ∧ hdr.length = P9Msg.size ∧
    rsp = P9Msg.ofBytes hdr ∧ payload.length = rsp.length.toNat ∧ rsp.tag = o.tag ∧ rsp.op = o.req.op ||| p9Reply ∧
    o.buf = payload.take (min rsp.length.toNat o.req.cap.toNat)

def Call.Holding (c : Call) : Prop := c.phase ≠ .lock

/-- What holds of a mount in every run. -/
structure Framed (w : Mount) : Prop where
  /-- a call that returned 0 took its reply -/
  replies : ∀ o ∈ w.log, o.value = 0 → Reply o
  /-- and the calls took all that is gone from the pipe, one after the other -/
  stream : ∃ cur rest, w.sent = w.log.flatMap Outcome.segment ++ cur ++ rest ∧ w.ch.rspPipe.ring.Holds rest ∧
    ∀ th c, w.calls th = some c → c.Holding → c.segment = cur
  alone : ∀ th th' c c', w.calls th = some c → w.calls th' = some c' → c.Holding → c'.Holding → th = th'
  dead : ∀ o ∈ w.log, o.began = true → o.value ≠ 0 → w.ch.alive = false
  later : w.log.Pairwise fun o o' => o.began = true → o.value ≠ 0 → o'.value ≠ 0

structure Accepted (c : Call) (rsp : P9Msg) (hdr : List UInt8) : Prop where
  length : hdr.length = P9Msg.size
  parse : rsp = P9Msg.ofBytes hdr
  accepts : c.req.accepts c.tag rsp = true

def Call.Took (c : Call) : Prop :=
  match c.phase with
  | .readHeader got _ => c.segment = got ∧ got.length ≤ P9Msg.size
  | .readPayload rsp done _ => ∃ hdr, Accepted c rsp hdr ∧ c.segment = hdr ++ done ∧ done.length ≤ c.req.take rsp
  | .drop rsp done left _ => ∃ hdr rest, Accepted c rsp hdr ∧ c.segment = hdr ++ (done ++ rest) ∧
      done.length = c.req.take rsp ∧ done.length + rest.length + left = rsp.length.toNat
  | _ => c.segment = []

/-- The invariant of every run. -/
structure Sound (w : Mount) : Prop where
  framed : Framed w
  took : ∀ th c, w.calls th = some c → c.Took
  locked : ∀ th c, w.calls th = some c → c.Holding → w.ch.inFlight = true ∧ w.ch.alive = true
  idle : (∀ th c, w.calls th = some c → ¬ c.Holding) → ∃ rest, w.ch.rspPipe.ring.Holds rest ∧
    w.sent = w.log.flatMap Outcome.segment ++ rest

variable {w : Mount} {ch : Channel} {th : ℕ} {c c' : Call} {bytes : List UInt8} {v : ℤ} {rsp : P9Msg}

lemma Request.accepts_iff {r : Request} {tag : UInt32} (h : r.accepts tag rsp = true) :
    rsp.op = r.op ||| p9Reply ∧ rsp.tag = tag := by
  unfold Request.accepts at h
  simp only [Bool.and_eq_true,beq_iff_eq,bne_iff_ne] at h
  obtain ⟨⟨hop,hbit⟩,htag⟩ := h
  refine ⟨?_,htag⟩
  have hsplit : rsp.op = (rsp.op &&& ~~~p9Reply) ||| (rsp.op &&& p9Reply) := by
    apply UInt32.toBitVec_inj.mp
    ext i
    simp only [UInt32.toBitVec_or,UInt32.toBitVec_and,UInt32.toBitVec_not,BitVec.getElem_or,BitVec.getElem_and,
      BitVec.getElem_not]
    cases rsp.op.toBitVec[i] <;> cases p9Reply.toBitVec[i] <;> rfl
  have hreply : rsp.op &&& p9Reply = p9Reply := by
    have hval : (rsp.op &&& p9Reply).toNat = (rsp.op.toNat.testBit 31).toNat*2^31 := by
      have hpow : p9Reply.toNat = 2^31 := by decide
      rw [UInt32.toNat_and,hpow]
      exact Nat.and_two_pow _ _
    apply UInt32.toNat_inj.mp
    cases hb : rsp.op.toNat.testBit 31 with
    | true =>
      rw [hval,hb]
      rfl
    | false =>
      rw [hb,Bool.toNat_false,Nat.zero_mul] at hval
      exact absurd (UInt32.toNat_inj.mp hval) hbit
  rw [hsplit,hop,hreply]

lemma calls_setCall {th' : ℕ} {x : Option Call} (h : (w.setCall th x).calls th' = some c') :
    (th' = th ∧ x = some c') ∨ (th' ≠ th ∧ w.calls th' = some c') := by
  unfold Mount.setCall at h
  dsimp only at h
  rw [update_apply] at h
  split_ifs at h with ht
  · exact .inl ⟨ht,h⟩
  · exact .inr ⟨ht,h⟩

lemma Sound.advance (hw : Sound w) (hc : w.calls th = some c) (hh : c.Holding) (halive : ch.alive = w.ch.alive)
    (hlock : ch.inFlight = w.ch.inFlight) (hh' : c'.Holding) (htook : c'.Took) (hseg : c'.segment = c.segment ++ bytes)
    (hpipe : ∀ xs, w.ch.rspPipe.ring.Holds xs → ∃ ys, xs = bytes ++ ys ∧ ch.rspPipe.ring.Holds ys) :
    Sound ({ w with ch := ch }.setCall th (some c')) := by
  have hother {th₁ : ℕ} {c₁ : Call} (h₁ : w.calls th₁ = some c₁) (hne : th₁ ≠ th) : ¬ c₁.Holding :=
    fun hh₁ => hne (hw.framed.alone _ _ _ _ h₁ hc hh₁ hh)
  refine ⟨⟨hw.framed.replies,?_,?_,fun o ho hb hv => halive.trans (hw.framed.dead o ho hb hv),hw.framed.later⟩,?_,?_,?_⟩
  · obtain ⟨cur,rest,hsent,hrest,hcur⟩ := hw.framed.stream
    obtain ⟨ys,rfl,hys⟩ := hpipe rest hrest
    refine ⟨cur ++ bytes,ys,?_,hys,fun th₁ c₁ h₁ hh₁ => ?_⟩
    · change w.sent = _
      rw [hsent]
      simp [Mount.setCall]
    · rcases calls_setCall h₁ with ⟨-,heq⟩ | ⟨hne,h₁⟩
      · obtain rfl := some.inj heq
        rw [hseg,hcur th c hc hh]
      · exact absurd hh₁ (hother h₁ hne)
  · intro th₁ th₂ c₁ c₂ h₁ h₂ hh₁ hh₂
    rcases calls_setCall h₁ with ⟨rfl,-⟩ | ⟨hne,h₁⟩
    · rcases calls_setCall h₂ with ⟨rfl,-⟩ | ⟨hne,h₂⟩
      · rfl
      · exact absurd hh₂ (hother h₂ hne)
    · exact absurd hh₁ (hother h₁ hne)
  · intro th₁ c₁ h₁
    rcases calls_setCall h₁ with ⟨-,heq⟩ | ⟨-,h₁⟩
    · obtain rfl := some.inj heq
      exact htook
    · exact hw.took th₁ c₁ h₁
  · intro th₁ c₁ h₁ hh₁
    obtain ⟨hin,hal⟩ := hw.locked th c hc hh
    exact ⟨hlock.trans hin,halive.trans hal⟩
  · intro hidle
    exact absurd hh' (hidle th c' (update_self ..))

lemma Sound.move (hw : Sound w) (hc : w.calls th = some c) (hh : c.Holding) (hh' : c'.Holding) (htook : c'.Took)
    (hseg : c'.segment = c.segment) : Sound (w.setCall th (some c')) :=
  have hnone : c'.segment = c.segment ++ [] := by rw [append_nil,hseg]
  hw.advance hc hh rfl rfl hh' htook hnone fun xs hxs => ⟨xs,rfl,hxs⟩

lemma calls_leave {th' : ℕ} {began : Bool} {x : Option P9Msg} {buf : List UInt8}
    (h : (w.leave th c began v x buf).calls th' = some c') : th' ≠ th ∧ w.calls th' = some c' := by
  unfold Mount.leave at h
  dsimp only at h
  rw [update_apply] at h
  split_ifs at h with ht
  exact ⟨ht,h⟩

lemma Sound.release (hw : Sound w) (hc : w.calls th = some c) (hh : c.Holding) {x : Option P9Msg} {buf : List UInt8}
    {alive : Bool} (hok : v = 0 → alive = true ∧ Reply ⟨th,c.req,c.tag,true,v,x,buf,c.segment⟩)
    (hfail : v ≠ 0 → alive = false) :
    Sound ({ w with ch := { w.ch with alive := alive, inFlight := false } }.leave th c true v x buf) := by
  obtain ⟨-,hal⟩ := hw.locked th c hc hh
  have hno {th₁ : ℕ} {c₁ : Call}
      (h₁ : ({ w with ch := { w.ch with alive := alive, inFlight := false } }.leave th c true v x buf).calls th₁ =
        some c₁) : ¬ c₁.Holding := by
    obtain ⟨hne,h₁⟩ := calls_leave h₁
    exact fun hh₁ => hne (hw.framed.alone _ _ _ _ h₁ hc hh₁ hh)
  -- no call failed before, for the channel was alive
  have hgood {o : Outcome} (ho : o ∈ w.log) (hb : o.began = true) : ¬ o.value ≠ 0 := by
    intro hv
    rw [hw.framed.dead o ho hb hv] at hal
    cases hal
  obtain ⟨cur,rest,hsent,hrest,hcur⟩ := hw.framed.stream
  have hflat : w.sent = (w.log ++ [(⟨th,c.req,c.tag,true,v,x,buf,c.segment⟩ : Outcome)]).flatMap Outcome.segment ++ rest := by
    rw [hsent,← hcur th c hc hh]
    simp
  refine ⟨⟨?_,⟨[],rest,?_,hrest,fun th₁ c₁ h₁ hh₁ => absurd hh₁ (hno h₁)⟩,?_,?_,?_⟩,?_,?_,fun _ => ⟨rest,hrest,hflat⟩⟩
  · intro o ho hv
    rcases List.mem_append.mp ho with ho | ho
    · exact hw.framed.replies o ho hv
    · obtain rfl := List.mem_singleton.mp ho
      exact (hok hv).2
  · rw [append_nil]
    exact hflat
  · intro th₁ th₂ c₁ c₂ h₁ _ hh₁
    exact absurd hh₁ (hno h₁)
  · intro o ho hb hv
    rcases List.mem_append.mp ho with ho | ho
    · exact absurd hv (hgood ho hb)
    · obtain rfl := List.mem_singleton.mp ho
      exact hfail hv
  · refine List.pairwise_append.mpr ⟨hw.framed.later,pairwise_singleton _ _,fun o ho o' _ hb hv => ?_⟩
    exact absurd hv (hgood ho hb)
  · intro th₁ c₁ h₁
    exact hw.took th₁ c₁ (calls_leave h₁).2
  · intro th₁ c₁ h₁ hh₁
    exact absurd hh₁ (hno h₁)

lemma Sound.refuse (hw : Sound w) (hc : ∀ c', w.calls th = some c' → ¬ c'.Holding) (hseg : c.segment = [])
    (hv : v ≠ 0) : Sound (w.leave th c false v none []) := by
  have hflat : (w.log ++ [(⟨th,c.req,c.tag,false,v,none,[],c.segment⟩ : Outcome)]).flatMap Outcome.segment =
      w.log.flatMap Outcome.segment := by
    simp [hseg]
  obtain ⟨cur,rest,hsent,hrest,hcur⟩ := hw.framed.stream
  refine ⟨⟨?_,⟨cur,rest,?_,hrest,fun th₁ c₁ h₁ => hcur th₁ c₁ (calls_leave h₁).2⟩,?_,?_,?_⟩,?_,?_,?_⟩
  · intro o ho hv'
    rcases List.mem_append.mp ho with ho | ho
    · exact hw.framed.replies o ho hv'
    · obtain rfl := List.mem_singleton.mp ho
      exact absurd hv' hv
  · change w.sent = (w.log ++ [_]).flatMap _ ++ cur ++ rest
    rw [hflat]
    exact hsent
  · intro th₁ th₂ c₁ c₂ h₁ h₂
    exact hw.framed.alone _ _ _ _ (calls_leave h₁).2 (calls_leave h₂).2
  · intro o ho hb hv'
    rcases List.mem_append.mp ho with ho | ho
    · exact hw.framed.dead o ho hb hv'
    · obtain rfl := List.mem_singleton.mp ho
      cases hb
  · refine List.pairwise_append.mpr ⟨hw.framed.later,pairwise_singleton _ _,fun o _ o' ho' _ _ => ?_⟩
    obtain rfl := List.mem_singleton.mp ho'
    exact hv
  · intro th₁ c₁ h₁
    exact hw.took th₁ c₁ (calls_leave h₁).2
  · intro th₁ c₁ h₁
    exact hw.locked th₁ c₁ (calls_leave h₁).2
  · intro hidle
    have hidle' (th₁ : ℕ) (c₁ : Call) (h₁ : w.calls th₁ = some c₁) : ¬ c₁.Holding := by
      by_cases ht : th₁ = th
      · subst ht
        exact hc c₁ h₁
      · refine hidle th₁ c₁ ?_
        unfold Mount.leave
        dsimp only
        rw [update_of_ne ht]
        exact h₁
    obtain ⟨rest,hrest,hsent⟩ := hw.idle hidle'
    refine ⟨rest,hrest,?_⟩
    change w.sent = (w.log ++ [_]).flatMap _ ++ rest
    rw [hflat]
    exact hsent

lemma Sound.readReply (hw : Sound w) (hc : w.calls th = some c) (hh : c.Holding) {woken late sigPending : Bool}
    {len : ℕ} {block : Phase} {next : List UInt8 → Phase} (hlen : 0 < len)
    (hblock : { c with phase := block }.Holding ∧ { c with phase := block }.Took)
    (hnext : ∀ bytes, bytes.length ≤ len → { c with phase := next bytes, segment := c.segment ++ bytes }.Holding ∧
      { c with phase := next bytes, segment := c.segment ++ bytes }.Took) :
    Sound (w.readReply th c woken len late sigPending block next) := by
  obtain ⟨cur,rest,-,hrest,-⟩ := hw.framed.stream
  unfold Mount.readReply
  cases hr : w.ch.rspPipe.readTurn woken len late sigPending with
  | block =>
    exact hw.move hc hh hblock.1 hblock.2 rfl
  | ret r bytes p =>
    dsimp only
    split_ifs with hneg
    · unfold Mount.fail
      refine hw.release hc hh (fun hv => absurd hv ?_) fun _ => rfl
      split_ifs <;> decide
    · rcases Pipe.readTurn_ret hrest hr hlen with ⟨hle,-⟩ | ⟨-,-,hfits,ys,hys,hp⟩
      · exact absurd hle hneg
      · obtain ⟨hhold,htook⟩ := hnext bytes hfits
        refine hw.advance hc hh rfl rfl hhold htook rfl fun xs hxs => ?_
        rcases Pipe.readTurn_ret hxs hr hlen with ⟨hle,-⟩ | ⟨-,-,-,zs,hzs,hp⟩
        · exact absurd hle hneg
        · exact ⟨zs,hzs,hp⟩

lemma Sound.writeRequest (hw : Sound w) (hc : w.calls th = some c) (hh : c.Holding) {src : List UInt8}
    {written : ℕ} {late : Bool} {wrote : ℕ → Phase} {next : Phase}
    (hwrote : ∀ n, { c with phase := wrote n }.Holding ∧ { c with phase := wrote n }.Took)
    (hnext : { c with phase := next }.Holding ∧ { c with phase := next }.Took) :
    Sound (w.writeRequest th c src written late wrote next) := by
  unfold Mount.writeRequest
  cases w.ch.reqPipe.writeTurn src written late with
  | block => exact hw
  | moved n p =>
    exact hw.advance hc hh rfl rfl (hwrote n).1 (hwrote n).2 (append_nil _).symm fun xs hxs => ⟨xs,rfl,hxs⟩
  | ret r =>
    dsimp only
    split_ifs
    · unfold Mount.fail
      refine hw.release hc hh (fun hv => absurd hv ?_) fun _ => rfl
      split_ifs <;> decide
    · exact hw.move hc hh hnext.1 hnext.2 rfl

lemma Sound.lock (hw : Sound w) (hseg : c.segment = [])
    (hin : w.ch.inFlight = false) (hal : w.ch.alive = true) :
    Sound ({ w with ch := { w.ch with inFlight := true, nextTag := w.ch.nextTag + 1 } }.setCall th
      (some { c with tag := w.ch.nextTag, phase := .writeHeader 0 })) := by
  have hno (th₁ : ℕ) (c₁ : Call) (h₁ : w.calls th₁ = some c₁) : ¬ c₁.Holding := fun hh₁ => by
    have h := (hw.locked th₁ c₁ h₁ hh₁).1
    rw [hin] at h
    cases h
  obtain ⟨rest,hrest,hsent⟩ := hw.idle hno
  refine ⟨⟨hw.framed.replies,⟨[],rest,?_,hrest,fun th₁ c₁ h₁ hh₁ => ?_⟩,?_,hw.framed.dead,hw.framed.later⟩,?_,?_,?_⟩
  · rw [append_nil]
    exact hsent
  · rcases calls_setCall h₁ with ⟨-,heq⟩ | ⟨-,h₁⟩
    · obtain rfl := some.inj heq
      exact hseg
    · exact absurd hh₁ (hno th₁ c₁ h₁)
  · intro th₁ th₂ c₁ c₂ h₁ h₂ hh₁ hh₂
    rcases calls_setCall h₁ with ⟨rfl,-⟩ | ⟨-,h₁⟩
    · rcases calls_setCall h₂ with ⟨rfl,-⟩ | ⟨-,h₂⟩
      · rfl
      · exact absurd hh₂ (hno th₂ c₂ h₂)
    · exact absurd hh₁ (hno th₁ c₁ h₁)
  · intro th₁ c₁ h₁
    rcases calls_setCall h₁ with ⟨-,heq⟩ | ⟨-,h₁⟩
    · obtain rfl := some.inj heq
      exact hseg
    · exact hw.took th₁ c₁ h₁
  · exact fun _ _ _ _ => ⟨rfl,hal⟩
  · intro hidle
    exact absurd (by simp [Call.Holding]) (hidle th _ (update_self ..))

lemma Call.Took.reply {done : List UInt8} {woken : Bool} (h : c.Took) (hph : c.phase = .drop rsp done 0 woken) :
    Reply ⟨th,c.req,c.tag,true,0,some rsp,done,c.segment⟩ := by
  unfold Call.Took at h
  rw [hph] at h
  obtain ⟨hdr,rest,hacc,hseg,htake,hlen⟩ := h
  obtain ⟨hop,htag⟩ := Request.accepts_iff hacc.accepts
  refine ⟨rfl,hdr,done ++ rest,rsp,rfl,hseg,hacc.length,hacc.parse,?_,htag,hop,?_⟩
  · rw [length_append]
    omega
  · exact (take_left' htake).symm

lemma Sound.turn (hw : Sound w) (hc : w.calls th = some c) (late sigPending : Bool) :
    Sound (w.turn th c late sigPending) := by
  have htook := hw.took th c hc
  unfold Mount.turn
  cases hph : c.phase with
  | lock =>
    have hl : ¬ c.Holding := fun h => h hph
    have hseg : c.segment = [] := by simpa [Call.Took,hph] using htook
    dsimp only
    split_ifs with hin hal
    · exact hw
    · refine hw.refuse (fun c' hc' => ?_) hseg (by decide)
      obtain rfl := some.inj (hc.symm.trans hc')
      exact hl
    · exact hw.lock hseg (by simpa using hin) (by simpa using hal)
  | writeHeader n =>
    have hh : c.Holding := by simp [Call.Holding,hph]
    have hseg : c.segment = [] := by simpa [Call.Took,hph] using htook
    refine hw.writeRequest hc hh (fun n => ⟨by simp [Call.Holding],hseg⟩) ?_
    split_ifs
    · exact ⟨by simp [Call.Holding],hseg⟩
    · exact ⟨by simp [Call.Holding],hseg,Nat.zero_le _⟩
  | writePayload n =>
    have hh : c.Holding := by simp [Call.Holding,hph]
    have hseg : c.segment = [] := by simpa [Call.Took,hph] using htook
    exact hw.writeRequest hc hh (fun n => ⟨by simp [Call.Holding],hseg⟩) ⟨by simp [Call.Holding],hseg,Nat.zero_le _⟩
  | readHeader got woken =>
    have hh : c.Holding := by simp [Call.Holding,hph]
    unfold Call.Took at htook
    rw [hph] at htook
    obtain ⟨hseg,hgot⟩ := htook
    dsimp only
    split_ifs with hmore hbad hlong
    · refine hw.readReply hc hh (by omega) ⟨by simp [Call.Holding],hseg,hgot⟩ fun bytes hb => ?_
      refine ⟨by simp [Call.Holding],by rw [← hseg],?_⟩
      rw [length_append]
      omega
    · unfold Mount.fail
      exact hw.release hc hh (fun hv => absurd hv (by decide)) fun _ => rfl
    · unfold Mount.fail
      exact hw.release hc hh (fun hv => absurd hv (by decide)) fun _ => rfl
    · have hacc : Accepted c (P9Msg.ofBytes got) got := ⟨by omega,rfl,by simpa using hbad⟩
      refine hw.move hc hh (by simp [Call.Holding]) ?_ rfl
      exact ⟨got,⟨hacc.length,hacc.parse,hacc.accepts⟩,by rw [append_nil]; exact hseg,Nat.zero_le _⟩
  | readPayload rsp done woken =>
    have hh : c.Holding := by simp [Call.Holding,hph]
    unfold Call.Took at htook
    rw [hph] at htook
    obtain ⟨hdr,hacc,hseg,hdone⟩ := htook
    dsimp only
    split_ifs with hmore
    · refine hw.readReply hc hh (by omega) ⟨by simp [Call.Holding],hdr,⟨hacc.length,hacc.parse,hacc.accepts⟩,hseg,hdone⟩
        fun bytes hb => ⟨by simp [Call.Holding],hdr,⟨hacc.length,hacc.parse,hacc.accepts⟩,?_,?_⟩
      · dsimp only
        rw [hseg,append_assoc]
      · rw [length_append]
        change done.length + bytes.length ≤ c.req.take rsp
        omega
    · refine hw.move hc hh (by simp [Call.Holding]) ?_ rfl
      have htake : c.req.take rsp ≤ rsp.length.toNat := Nat.min_le_left _ _
      refine ⟨hdr,[],⟨hacc.length,hacc.parse,hacc.accepts⟩,?_,?_,?_⟩
      · rw [append_nil]
        exact hseg
      · change done.length = c.req.take rsp
        omega
      · rw [length_nil]
        omega
  | drop rsp done left woken =>
    have hh : c.Holding := by simp [Call.Holding,hph]
    dsimp only
    split_ifs with hmore
    · unfold Call.Took at htook
      rw [hph] at htook
      obtain ⟨hdr,rest,hacc,hseg,htake,hlen⟩ := htook
      refine hw.readReply hc hh (by omega) ⟨by simp [Call.Holding],hdr,rest,⟨hacc.length,hacc.parse,hacc.accepts⟩,hseg,
        htake,hlen⟩ fun bytes hb => ⟨by simp [Call.Holding],hdr,rest ++ bytes,⟨hacc.length,hacc.parse,hacc.accepts⟩,?_,
        htake,?_⟩
      · dsimp only
        rw [hseg]
        simp only [append_assoc]
      · rw [length_append]
        omega
    · obtain rfl : left = 0 := by omega
      have hal := (hw.locked th c hc hh).2
      have hrel : Sound ({ w with ch := { w.ch with alive := w.ch.alive, inFlight := false } }.leave th c true 0
          (some rsp) done) :=
        hw.release hc hh (fun _ => ⟨hal,htook.reply hph⟩) fun h => absurd rfl h
      exact hrel

lemma Sound.daemon (hw : Sound w) (halive : ch.alive = w.ch.alive) (hlock : ch.inFlight = w.ch.inFlight)
    (hpipe : ∀ xs, w.ch.rspPipe.ring.Holds xs → ch.rspPipe.ring.Holds (xs ++ bytes)) :
    Sound { w with ch := ch, sent := w.sent ++ bytes } where
  framed :=
    { replies := hw.framed.replies
      stream := by
        obtain ⟨cur,rest,hsent,hrest,hcur⟩ := hw.framed.stream
        refine ⟨cur,rest ++ bytes,?_,hpipe rest hrest,hcur⟩
        dsimp only
        rw [hsent,append_assoc]
      alone := hw.framed.alone
      dead := fun o ho hb hv => halive.trans (hw.framed.dead o ho hb hv)
      later := hw.framed.later }
  took := hw.took
  locked th c hc hh := ⟨hlock.trans (hw.locked th c hc hh).1,halive.trans (hw.locked th c hc hh).2⟩
  idle hidle := by
    obtain ⟨rest,hrest,hsent⟩ := hw.idle hidle
    refine ⟨rest ++ bytes,hpipe rest hrest,?_⟩
    dsimp only
    rw [hsent,append_assoc]

lemma Sound.quiet (hw : Sound w) (halive : ch.alive = w.ch.alive) (hlock : ch.inFlight = w.ch.inFlight)
    (hring : ch.rspPipe.ring = w.ch.rspPipe.ring) : Sound { w with ch := ch } := by
  have h : Sound { w with ch := ch, sent := w.sent ++ [] } :=
    hw.daemon halive hlock fun xs hxs => by rw [hring,append_nil]; exact hxs
  rwa [append_nil] at h

lemma Sound.enter (hw : Sound w) (hth : w.calls th = none) (req : Request) : Sound (w.enter th req) := by
  have hno (c' : Call) (hc : w.calls th = some c') : ¬ c'.Holding := by
    rw [hth] at hc
    cases hc
  unfold Mount.enter
  dsimp only
  split_ifs
  · exact hw.refuse hno rfl (by decide)
  · exact hw.refuse hno rfl (by decide)
  · exact hw.refuse hno rfl (by decide)
  have hcalls {th₁ : ℕ} {c₁ : Call} (h₁ : (w.setCall th (some ⟨req,0,.lock,[]⟩)).calls th₁ = some c₁)
      (hh : c₁.Holding) : w.calls th₁ = some c₁ := by
    rcases calls_setCall h₁ with ⟨-,heq⟩ | ⟨-,h₁⟩
    · obtain rfl := some.inj heq
      exact absurd rfl hh
    · exact h₁
  refine ⟨⟨hw.framed.replies,?_,?_,hw.framed.dead,hw.framed.later⟩,?_,?_,?_⟩
  · obtain ⟨cur,rest,hsent,hrest,hcur⟩ := hw.framed.stream
    exact ⟨cur,rest,hsent,hrest,fun th₁ c₁ h₁ hh => hcur th₁ c₁ (hcalls h₁ hh) hh⟩
  · intro th₁ th₂ c₁ c₂ h₁ h₂ hh₁ hh₂
    exact hw.framed.alone _ _ _ _ (hcalls h₁ hh₁) (hcalls h₂ hh₂) hh₁ hh₂
  · intro th₁ c₁ h₁
    rcases calls_setCall h₁ with ⟨-,heq⟩ | ⟨-,h₁⟩
    · obtain rfl := some.inj heq
      rfl
    · exact hw.took th₁ c₁ h₁
  · intro th₁ c₁ h₁ hh
    exact hw.locked th₁ c₁ (hcalls h₁ hh) hh
  · intro hidle
    refine hw.idle fun th₁ c₁ h₁ => hidle th₁ c₁ ?_
    have hne : th₁ ≠ th := by
      rintro rfl
      rw [hth] at h₁
      cases h₁
    unfold Mount.setCall
    dsimp only
    rw [update_of_ne hne]
    exact h₁

lemma Sound.step {w' : Mount} {e : Event} {a : Unit} (hw : Sound w) (now : w.step e = some (a,w')) : Sound w' := by
  cases e with
  | call th req =>
    unfold Mount.step at now
    dsimp only at now
    split_ifs at now with hth
    cases now
    exact hw.enter (by simpa using hth) req
  | turn th late sigPending =>
    obtain ⟨c,hc,heq⟩ := Option.map_eq_some_iff.mp now
    cases heq
    exact hw.turn hc late sigPending
  | daemonWrite bytes =>
    unfold Mount.step at now
    dsimp only at now
    split_ifs at now
    cases now
    refine hw.daemon rfl rfl fun xs hxs => hxs.write ?_
    have hfits := hxs.fits
    have hcount := hxs.count
    rw [length_take]
    omega
  | daemonRead len =>
    unfold Mount.step at now
    dsimp only at now
    split_ifs at now
    cases now
    exact hw.quiet rfl rfl rfl
  | daemonDup | daemonCloseReq | daemonCloseRsp =>
    cases now
    exact hw.quiet rfl rfl rfl

lemma sound_initial (ownerPid : ℤ) (buf : Fin pipeBufSize → UInt8) : Sound (.initial ownerPid buf) :=
  ⟨⟨fun o ho => (by cases ho),⟨[],[],rfl,Ring.holds_nil buf,fun _ _ h => (by cases h)⟩,fun _ _ _ _ h => (by cases h),
    fun o ho => (by cases ho),.nil⟩,fun _ _ h => (by cases h),fun _ _ h => (by cases h),
    fun _ => ⟨[],Ring.holds_nil buf,rfl⟩⟩

/-- In every run the calls share the reply pipe without mixing their replies. -/
theorem calls_framed {ownerPid : ℤ} {buf : Fin pipeBufSize → UInt8} {es : List Event}
    (run : Runs Mount.step (fun _ _ => True) (.initial ownerPid buf) es w) : Framed w :=
  (run.invariant (fun _ _ _ _ hw _ now => hw.step now) (sound_initial ownerPid buf)).framed

/-- A call with room for one byte, that the daemon answers with two. -/
def shortRead : List Event :=
  [.call 5 ⟨1,0,0,0,[],1⟩,.turn 5 false false,.turn 5 false false,.turn 5 false false,
    .daemonWrite ((⟨0x80000001,1,0,0,0,2,0⟩ : P9Msg).bytes ++ [7,9]),.turn 5 false false,.turn 5 false false,
    .turn 5 false false,.turn 5 false false,.turn 5 false false,.turn 5 false false]

theorem calls_framed_reply : ∃ w, execute Mount.step (.initial 3 fun _ => 0) shortRead = some w ∧
    (w.log.map fun o => (o.value,o.buf)) = [(0,[7])] ∧ Framed w := by
  have hend : ((execute Mount.step (.initial 3 fun _ => 0) shortRead).map fun w =>
      w.log.map fun o => (o.value,o.buf)) = some [(0,[7])] := by
    decide
  obtain ⟨w,hw,hlog⟩ := Option.map_eq_some_iff.mp hend
  exact ⟨w,hw,hlog,calls_framed (.of_execute hw)⟩

end VibeOS.Userfs

import VibeOS.Userfs.Daemon
import VibeOS.Userfs.Framing
import Mathlib.Data.List.Forall2
import Mathlib.Tactic.IntervalCases

/-! A daemon whose callbacks return what they filled and the kernel's calls stay in step, whatever the pipes split. -/
namespace VibeOS.Userfs
open Function List Option
open VibeOS.Storage

variable {h : Handler} {s t : Session} {c : Call} {th : ℕ} {a : Answer} {req msg : P9Msg} {rd : ℕ → UInt8} {x : Served}
  {base : List Served} {pay xs ys bytes : List UInt8} {put : ℕ}

/-- A reply is to the request, has as many bytes behind it as it says, and these are of what the callback filled. -/
structure Served.Good (x : Served) : Prop where
  op : x.response.msg.op = x.msg.op ||| p9Reply
  tag : x.response.msg.tag = x.msg.tag
  length : x.response.payload.length = x.response.msg.length.toNat
  fits : x.response.payload.length ≤ p9MaxPayload
  filled : x.response.payload <+: x.filled

/-- The callback stays in its buffer, and does not return more than it filled. -/
def Honest (h : Handler) (s : Session) : Session.Event → Prop
  | .answer a => ∀ req pay cap, s.d = .dispatch req pay → h.bufferCap req = some cap →
      a.filled.length ≤ cap ∧ (¬ a.value < 0 → a.value.toUInt32.toNat ≤ a.filled.length)
  | _ => True

lemma P9Msg.readCap_le (req : P9Msg) : req.readCap ≤ p9MaxPayload := by
  unfold P9Msg.readCap
  split <;> omega

lemma bufferCap_le {cap : ℕ} (hcap : h.bufferCap req = some cap) : cap ≤ p9MaxPayload := by
  unfold Handler.bufferCap at hcap
  split at hcap
  · cases hcap
    exact req.readCap_le
  · split at hcap <;> cases hcap
    exact le_rfl

lemma Answer.map_fill {n : ℕ} (hn : n ≤ a.filled.length) : (List.range n).map (a.fill rd) = a.filled.take n := by
  refine ext_getElem (by simp [hn]) fun i hi hi' => ?_
  rw [length_map,length_range] at hi
  rw [getElem_map,getElem_range,getElem_take,Answer.fill,dif_pos (by omega)]

lemma good_plain (op tag handle flags : UInt32) (status : Int32) (pay filled : List UInt8) (hop : req.op = op) (htag : req.tag = tag) :
    Served.Good ⟨req,pay,filled,sendReply op tag handle flags status rd 0⟩ :=
  ⟨by rw [hop]; rfl,htag.symm,rfl,Nat.zero_le _, nil_prefix⟩

lemma good_filled (handle flags : UInt32) (status : Int32) (pay : List UInt8)
    (hhonest : a.filled.length ≤ p9MaxPayload ∧ a.value.toUInt32.toNat ≤ a.filled.length) :
    Served.Good ⟨req,pay,a.filled,sendReply req.op req.tag handle flags status (a.fill rd) a.value.toUInt32⟩ := by
  have hpay : (sendReply req.op req.tag handle flags status (a.fill rd) a.value.toUInt32).payload =
      a.filled.take a.value.toUInt32.toNat := Answer.map_fill hhonest.2
  have hlen : (a.filled.take a.value.toUInt32.toNat).length = a.value.toUInt32.toNat := length_take_of_le hhonest.2
  refine ⟨rfl,rfl,?_,?_,?_⟩
  · exact (congrArg List.length hpay).trans hlen
  · exact (congrArg List.length hpay).trans hlen |>.le.trans (hhonest.2.trans hhonest.1)
  · exact hpay ▸ take_prefix _ _

lemma dispatch_good (hhonest : ∀ cap, h.bufferCap req = some cap →
      a.filled.length ≤ cap ∧ (¬ a.value < 0 → a.value.toUInt32.toNat ≤ a.filled.length)) (pay : List UInt8) :
    Served.Good ⟨req,pay,a.filled,(dispatch h req a rd).1⟩ := by
  have plain (handle flags : UInt32) (status : Int32) :
      Served.Good ⟨req,pay,a.filled,sendReply req.op req.tag handle flags status rd 0⟩ :=
    good_plain _ _ _ _ _ _ _ rfl rfl
  have filled {cap : ℕ} (hcap : h.bufferCap req = some cap) (hpos : ¬ a.value < 0) :
      a.filled.length ≤ p9MaxPayload ∧ a.value.toUInt32.toNat ≤ a.filled.length :=
    ⟨(hhonest cap hcap).1.trans (bufferCap_le hcap),(hhonest cap hcap).2 hpos⟩
  unfold dispatch
  dsimp only
  split
  · split <;> exact plain ..
  split
  · next hread =>
    split
    · exact plain ..
    · next hset =>
      have hcap : h.bufferCap req = some req.readCap := if_pos ⟨hread,by simpa using hset⟩
      split
      · exact plain ..
      · next hpos => exact good_filled _ _ _ _ (filled hcap hpos)
  split
  · split
    · exact plain ..
    · split
      · exact plain ..
      · exact ⟨rfl,rfl,rfl,Nat.zero_le _, nil_prefix⟩
  split
  · exact plain ..
  split
  · next hlist =>
    split
    · exact plain ..
    · next hset =>
      have hcap : h.bufferCap req = some p9MaxPayload := by
        unfold Handler.bufferCap
        rw [if_neg (fun hr => absurd (hlist.symm.trans hr.1) (by decide)),if_pos ⟨hlist,by simpa using hset⟩]
      split
      · exact plain ..
      · next hpos => exact good_filled _ _ _ _ (filled hcap hpos)
  split
  · exact plain ..
  split
  · exact plain ..
  split
  · split_ifs <;> exact plain ..
  · exact plain ..

def Reading (msg : P9Msg) (pay : List UInt8) (eaten : ℕ) : Serving → Prop
  | .header got => got = msg.bytes.take eaten ∧ eaten < P9Msg.size
  | .payload req got => req = msg ∧ got = pay.take got.length ∧ got.length < pay.length ∧ eaten = P9Msg.size + got.length
  | .dispatch req p => req = msg ∧ p = pay ∧ eaten = P9Msg.size + pay.length
  | .done => True
  | _ => False

def Remaining (x : Served) (left : List UInt8) : Serving → Prop
  | .reply r n => r = x.response ∧ n < P9Msg.size ∧ left = r.msg.bytes.drop n ++ r.payload
  | .replyPayload r n => r = x.response ∧ n < r.payload.length ∧ left = r.payload.drop n
  | .header got => got = [] ∧ left = []
  | .done => True
  | _ => False

/-- A round trip of which `put` bytes of the request are in the pipe or read from it. `seg` is what the kernel
took of the reply, as long as it waits for it. -/
inductive Stage (s : Session) (base : List Served) (msg : P9Msg) (pay : List UInt8) (put : ℕ) (seg : Option (List UInt8)) : Prop
  | reading (eaten : ℕ) (hserved : s.served = base) (hle : eaten ≤ put) (hput : put ≤ P9Msg.size + pay.length)
      (hring : s.m.ch.reqPipe.ring.Holds (((msg.bytes ++ pay).take put).drop eaten)) (hd : Reading msg pay eaten s.d)
      (hout : ∀ g, seg = some g → g = [] ∧ s.m.ch.rspPipe.ring.Holds [])
  | answering (x : Served) (left : List UInt8) (hserved : s.served = base ++ [x]) (hmsg : x.msg = msg) (hpay : x.payload = pay)
      (hput : put = P9Msg.size + pay.length) (hring : s.m.ch.reqPipe.ring.Holds []) (hd : Remaining x left s.d)
      (hout : ∀ g, seg = some g → ∃ rest, s.m.ch.rspPipe.ring.Holds rest ∧ g ++ rest ++ left = x.response.msg.bytes ++ x.response.payload)

/-- How much of its request a call has written. -/
def PutAt (c : Call) (put : ℕ) : Prop :=
  match c.phase with
  | .lock => False
  | .writeHeader n => put = n ∧ n ≤ P9Msg.size
  | .writePayload n => put = P9Msg.size + n ∧ n ≤ c.req.payload.length
  | _ => put = P9Msg.size + c.req.payload.length

/-- A call that returned 0 has the reply to its request. -/
structure Matches (o : Outcome) (x : Served) : Prop where
  msg : x.msg = o.req.message o.tag
  payload : x.payload = o.req.payload
  rsp : o.rsp = some x.response.msg
  buf : o.buf = x.response.payload.take o.req.cap.toNat

/-- The calls that returned 0 in their order, each with its reply. -/
def Answered (log : List Outcome) (served : List Served) : Prop := List.Forall₂ Matches (log.filter fun o => o.value == 0) served

def Sized (msg : P9Msg) (pay : List UInt8) : Prop := msg.length.toNat = pay.length ∧ pay.length ≤ p9MaxPayload

inductive Talk (s : Session) : Prop
  | idle (hno : ∀ th c, s.m.calls th = some c → ¬ c.Holding) (hreq : s.m.ch.reqPipe.ring.Holds [])
      (hrsp : s.m.ch.rspPipe.ring.Holds []) (hd : s.d = .header [] ∨ s.d = .done) (hans : Answered s.m.log s.served)
  | busy (th : ℕ) (c : Call) (base : List Served) (put : ℕ) (hc : s.m.calls th = some c) (hold : c.Holding) (hput : PutAt c put)
      (hans : Answered s.m.log base) (stage : Stage s base (c.req.message c.tag) c.req.payload put (some c.segment))
  | dead (hdead : s.m.ch.alive = false) (base : List Served) (msg : P9Msg) (pay : List UInt8) (put : ℕ) (hsized : Sized msg pay)
      (hans : Answered s.m.log base) (stage : Stage s base msg pay put none)

structure Inv (s : Session) : Prop where
  sound : Sound s.m
  kernelReads : s.m.ch.rspPipe.rRefs ≠ 0
  daemonOpen : s.d ≠ .done → s.m.ch.reqPipe.rRefs ≠ 0 ∧ s.m.ch.rspPipe.wRefs ≠ 0
  good : ∀ x ∈ s.served, x.Good
  asked : ∀ th c, s.m.calls th = some c → c.req.op.toNat ≤ p9OpLoad.toNat ∧ Sized (c.req.message c.tag) c.req.payload
  talk : Talk s

lemma holds_read {p : Pipe} {k : ℕ} (hp : p.ring.Holds xs) (hk : k ≤ p.ring.count) :
    (p.ring.read k).1 = xs.take k ∧ (p.ring.read k).2.Holds (xs.drop k) ∧ k ≤ xs.length := by
  rw [hp.count] at hk
  obtain ⟨hout,hleft⟩ := hp.read hk
  exact ⟨hout,hleft,hk⟩

lemma drop_take_front {l : List UInt8} {put eaten k : ℕ} (hpos : 0 < k) (hk : k ≤ ((l.take put).drop eaten).length) :
    ((l.take put).drop eaten).take k = (l.drop eaten).take k ∧ eaten + k ≤ put ∧ eaten + k ≤ l.length := by
  rw [length_drop,length_take] at hk
  refine ⟨?_,by omega,by omega⟩
  rw [drop_take,take_take]
  congr 1
  omega

lemma reading_header {eaten k : ℕ} (hsized : Sized msg pay) (hk : 0 < k) (hkle : eaten + k ≤ P9Msg.size) :
    Reading msg pay (eaten + k) (.gotHeader (msg.bytes.take eaten ++ (((msg.bytes ++ pay).drop eaten).take k))) := by
  have hlen : msg.bytes.length = P9Msg.size := msg.length_bytes
  have hgot : msg.bytes.take eaten ++ ((msg.bytes ++ pay).drop eaten).take k = msg.bytes.take (eaten + k) := by
    rw [drop_append_of_le_length (by omega),take_append_of_le_length (by rw [length_drop]; omega),← take_add]
  rw [hgot]
  unfold Serving.gotHeader
  rw [length_take,hlen,Nat.min_eq_left hkle]
  split
  · next hmore => exact ⟨rfl,hmore⟩
  · have hall : msg.bytes.take (eaten + k) = msg.bytes := take_of_length_le (by omega)
    rw [hall,P9Msg.ofBytes_bytes]
    obtain ⟨hl,hfit⟩ := hsized
    dsimp only
    rw [if_neg (by omega)]
    split
    · refine ⟨rfl,rfl,?_,?_⟩
      · rw [length_nil]
        omega
      · rw [length_nil]
        omega
    · have hnil : pay.length = 0 := by omega
      exact ⟨rfl,(List.length_eq_zero_iff.mp hnil).symm,by omega⟩

lemma reading_payload {got : List UInt8} {k : ℕ} (hsized : Sized msg pay) (hgot : got = pay.take got.length)
    (hk : got.length + k ≤ pay.length) :
    Reading msg pay (P9Msg.size + got.length + k)
      (.gotPayload msg (got ++ (((msg.bytes ++ pay).drop (P9Msg.size + got.length)).take k))) := by
  have hlen : msg.bytes.length = P9Msg.size := msg.length_bytes
  have hall : got ++ ((msg.bytes ++ pay).drop (P9Msg.size + got.length)).take k = pay.take (got.length + k) := by
    rw [← hlen,drop_length_add_append,take_add]
    exact congrArg (· ++ _) hgot
  have hn : (pay.take (got.length + k)).length = got.length + k := length_take_of_le hk
  rw [hall]
  unfold Serving.gotPayload
  rw [hn,hsized.1]
  split
  · next hmore => exact ⟨rfl,by rw [hn],by omega,by omega⟩
  · exact ⟨rfl,take_of_length_le (by omega),by omega⟩

variable {seg : Option (List UInt8)} {k : ℕ} {sigPending : Bool} {r : Unit}

lemma Stage.exit (hs : Stage s base msg pay put seg) : Stage s.exit base msg pay put seg := by
  cases hs with
  | reading eaten hserved hle hput hring hd hout => exact .reading eaten hserved hle hput hring trivial hout
  | answering x left hserved hmsg hpay hput hring hd hout => exact .answering x left hserved hmsg hpay hput hring trivial hout

lemma Stage.readFailed (hs : Stage s base msg pay put seg) : Stage s.readFailed base msg pay put seg := by
  have hexit := hs.exit
  unfold Session.readFailed
  split
  · next req left hd =>
    exfalso
    cases hs with
    | reading eaten hserved hle hput hring hd' hout | answering x left hserved hmsg hpay hput hring hd' hout =>
      rw [hd] at hd'
      exact hd'
  · exact hexit

lemma Stage.read (hs : Stage s base msg pay put seg) (hsized : Sized msg pay) (now : s.step h (.read k sigPending) = some (r,t)) :
    Stage t base msg pay put seg := by
  obtain ⟨n,hask,now⟩ := Option.bind_eq_some_iff.mp now
  dsimp only at now
  split at now
  · split at now <;> cases now
    exact hs.readFailed
  next hsome =>
  split at now
  · cases now
  next hk =>
  obtain ⟨hk0,hkn,hkc⟩ : 0 < k ∧ k ≤ n ∧ k ≤ s.m.ch.reqPipe.ring.count := by omega
  cases now
  cases hs with
  | answering x left hserved hmsg hpay hput hring hd hout => exact absurd hring.count hsome
  | reading eaten hserved hle hput hring hd hout =>
    obtain ⟨hbytes,hrest,hlen⟩ := holds_read hring hkc
    obtain ⟨hfront,hput',hall⟩ := drop_take_front hk0 hlen
    rw [drop_drop] at hrest
    rw [hfront] at hbytes
    unfold Session.took
    dsimp only
    cases hph : s.d with
    | header got =>
      rw [hph] at hd hask
      obtain ⟨rfl,hless⟩ := hd
      have hn : P9Msg.size - (msg.bytes.take eaten).length = n := some.inj hask
      rw [length_take,msg.length_bytes] at hn
      rw [hbytes]
      exact .reading (eaten + k) hserved hput' hput hrest (reading_header hsized hk0 (by omega)) hout
    | payload req got =>
      rw [hph] at hd hask
      obtain ⟨rfl,hgot,hless,rfl⟩ := hd
      have hn : req.length.toNat - got.length = n := some.inj hask
      have hl := hsized.1
      rw [hbytes]
      exact .reading (P9Msg.size + got.length + k) hserved hput' hput hrest (reading_payload hsized hgot (by omega)) hout
    | drain req left =>
      rw [hph] at hd
      exact hd.elim
    | dispatch | reply | replyPayload | done =>
      rw [hph] at hask
      cases hask

lemma Stage.write (hs : Stage s base msg pay put seg) (hreads : s.m.ch.rspPipe.rRefs ≠ 0)
    (now : s.step h (.write k) = some (r,t)) : Stage t base msg pay put seg := by
  obtain ⟨⟨rsp,src⟩,hwrites,now⟩ := Option.bind_eq_some_iff.mp now
  dsimp only at now
  rw [if_neg hreads] at now
  split at now
  · cases now
  next hk =>
  obtain ⟨hk0,hkn,hroom⟩ : 0 < k ∧ k ≤ src.length ∧ k ≤ pipeBufSize - s.m.ch.rspPipe.ring.count := by omega
  cases now
  cases hs with
  | reading eaten hserved hle hput hring hd hout =>
    exfalso
    cases hph : s.d with
    | header | payload | drain | dispatch | done =>
      rw [hph] at hwrites
      cases hwrites
    | reply | replyPayload =>
      rw [hph] at hd
      exact hd
  | answering x left hserved hmsg hpay hput hring hd hout =>
    -- what stays to be written
    have hnext : ∃ left', left = src.take k ++ left' ∧ Remaining x left' (s.d.wrote k) := by
      cases hph : s.d with
      | header | payload | drain | dispatch | done =>
        rw [hph] at hwrites
        cases hwrites
      | reply r' n =>
        rw [hph] at hwrites hd
        cases hwrites
        obtain ⟨rfl,hless,rfl⟩ := hd
        have hlen : (x.response.msg.bytes.drop n).length = P9Msg.size - n := by rw [length_drop,P9Msg.length_bytes]
        refine ⟨x.response.msg.bytes.drop (n + k) ++ x.response.payload,?_,?_⟩
        · rw [← append_assoc,← drop_drop,take_append_drop]
        · unfold Serving.wrote
          dsimp only
          split
          · next hmore => exact ⟨rfl,hmore,rfl⟩
          · have hnil : x.response.msg.bytes.drop (n + k) = [] := by
              rw [drop_eq_nil_iff,P9Msg.length_bytes]
              omega
            rw [hnil,nil_append]
            split
            · next hpos => exact ⟨rfl,hpos,rfl⟩
            · next hnone => exact ⟨rfl,List.length_eq_zero_iff.mp (by omega)⟩
      | replyPayload r' n =>
        rw [hph] at hwrites hd
        cases hwrites
        obtain ⟨rfl,hless,rfl⟩ := hd
        have hlen : (x.response.payload.drop n).length = x.response.payload.length - n := length_drop
        refine ⟨x.response.payload.drop (n + k),?_,?_⟩
        · rw [← drop_drop,take_append_drop]
        · unfold Serving.wrote
          dsimp only
          split
          · next hmore => exact ⟨rfl,hmore,rfl⟩
          · refine ⟨rfl,List.drop_eq_nil_iff.mpr (by omega)⟩
    obtain ⟨left',rfl,hd'⟩ := hnext
    refine .answering x left' hserved hmsg hpay hput hring hd' fun g hg => ?_
    obtain ⟨rest,hrest,hstream⟩ := hout g hg
    have hlen : (src.take k).length = k := length_take_of_le hkn
    refine ⟨rest ++ src.take k,hrest.write ?_,?_⟩
    · have hfits := hrest.fits
      have hcount := hrest.count
      rw [hlen]
      omega
    · rw [← hstream]
      simp only [append_assoc]

lemma Stage.answer (hs : Stage s base msg pay put seg) (now : s.step h (.answer a) = some (r,t)) :
    Stage t base msg pay put seg := by
  unfold Session.step at now
  dsimp only at now
  split at now
  · next req p hph =>
    cases now
    cases hs with
    | answering x left hserved hmsg hpay hput hring hd hout =>
      rw [hph] at hd
      exact hd.elim
    | reading eaten hserved hle hput hring hd hout =>
      rw [hph] at hd
      obtain ⟨rfl,rfl,rfl⟩ := hd
      have hnil : ((req.bytes ++ p).take put).drop (P9Msg.size + p.length) = [] := by
        rw [drop_eq_nil_iff,length_take,length_append,P9Msg.length_bytes]
        omega
      rw [hnil] at hring
      refine .answering ⟨req,p,a.filled,(dispatch h req a s.rd).1⟩ _ (congrArg (· ++ _) hserved) rfl rfl (by omega) hring
        ⟨rfl,by decide,rfl⟩ fun g hg => ?_
      obtain ⟨rfl,hquiet⟩ := hout g hg
      exact ⟨[],hquiet,rfl⟩
  · cases now

lemma Talk.not_drain (hs : Talk s) {left : ℕ} : s.d ≠ .drain req left := by
  intro hd
  have stage {base : List Served} {msg : P9Msg} {pay : List UInt8} {put : ℕ} {seg : Option (List UInt8)}
      (stage : Stage s base msg pay put seg) : False := by
    cases stage with
    | reading eaten hserved hle hput hring hd' hout | answering x left hserved hmsg hpay hput hring hd' hout =>
      rw [hd] at hd'
      exact hd'
  cases hs with
  | idle hno hreq hrsp hd' hans => rcases hd' with h | h <;> rw [hd] at h <;> cases h
  | busy th c base put hc hold hput hans hstage | dead hdead base msg pay put hsized hans hstage => exact stage hstage

lemma Talk.daemon (hs : Inv s) (hcalls : t.m.calls = s.m.calls) (hlog : t.m.log = s.m.log) (halive : t.m.ch.alive = s.m.ch.alive)
    (hidle : s.m.ch.reqPipe.ring.Holds [] → s.m.ch.rspPipe.ring.Holds [] → (s.d = .header [] ∨ s.d = .done) →
      t.m.ch.reqPipe.ring.Holds [] ∧ t.m.ch.rspPipe.ring.Holds [] ∧ (t.d = .header [] ∨ t.d = .done) ∧ t.served = s.served)
    (hstage : ∀ base msg pay put seg, Sized msg pay → Stage s base msg pay put seg → Stage t base msg pay put seg) : Talk t := by
  cases hs.talk with
  | idle hno hreq hrsp hd hans =>
    obtain ⟨hreq',hrsp',hd',hserved⟩ := hidle hreq hrsp hd
    exact .idle (hcalls ▸ hno) hreq' hrsp' hd' (by rw [hlog,hserved]; exact hans)
  | busy th c base put hc hold hput hans stage =>
    exact .busy th c base put (hcalls ▸ hc) hold hput (hlog ▸ hans) (hstage _ _ _ _ _ (hs.asked th c hc).2 stage)
  | dead hdead base msg pay put hsized hans stage =>
    exact .dead (halive.trans hdead) base msg pay put hsized (hlog ▸ hans) (hstage _ _ _ _ _ hsized stage)

lemma Inv.exit (hs : Inv s) : Inv s.exit where
  sound := hs.sound.quiet rfl rfl rfl
  kernelReads := hs.kernelReads
  daemonOpen hne := absurd rfl hne
  good := hs.good
  asked := hs.asked
  talk := Talk.daemon hs rfl rfl rfl (fun hreq hrsp _ => ⟨hreq,hrsp,.inr rfl,rfl⟩) fun _ _ _ _ _ _ stage => stage.exit

lemma Inv.readFailed (hs : Inv s) : Inv s.readFailed := by
  have hexit := hs.exit
  unfold Session.readFailed
  split
  · next hd => exact absurd hd hs.talk.not_drain
  · exact hexit

lemma took_same (s : Session) (bytes : List UInt8) (hno : ∀ req left, s.d ≠ .drain req left) :
    (s.took bytes).m = s.m ∧ (s.took bytes).served = s.served ∧ ((s.took bytes).d = .done → s.d = .done) := by
  have hheader (got : List UInt8) : Serving.gotHeader got ≠ .done := by
    unfold Serving.gotHeader
    dsimp only
    split_ifs <;> exact nofun
  have hpayload (req : P9Msg) (got : List UInt8) : Serving.gotPayload req got ≠ .done := by
    unfold Serving.gotPayload
    split_ifs <;> exact nofun
  unfold Session.took
  split
  · exact ⟨rfl,rfl,fun hd => absurd hd (hheader _)⟩
  · exact ⟨rfl,rfl,fun hd => absurd hd (hpayload _ _)⟩
  · next hd => exact absurd hd (hno _ _)
  · exact ⟨rfl,rfl,id⟩

lemma Inv.read (hs : Inv s) (now : s.step h (.read k sigPending) = some (r,t)) : Inv t := by
  have hstage (base : List Served) (msg : P9Msg) (pay : List UInt8) (put : ℕ) (seg : Option (List UInt8)) (hsized : Sized msg pay)
      (stage : Stage s base msg pay put seg) : Stage t base msg pay put seg := stage.read hsized now
  obtain ⟨n,hask,now⟩ := Option.bind_eq_some_iff.mp now
  dsimp only at now
  split at now
  · split at now <;> cases now
    exact hs.readFailed
  next hsome =>
  split at now
  · cases now
  cases now
  let read : Session := { s with m := { s.m with ch := { s.m.ch with
    reqPipe := { s.m.ch.reqPipe with ring := (s.m.ch.reqPipe.ring.read k).2 } } } }
  obtain ⟨hm,hserved,hdone⟩ := took_same read (s.m.ch.reqPipe.ring.read k).1 fun req left => hs.talk.not_drain
  change Inv (read.took (s.m.ch.reqPipe.ring.read k).1)
  have hsound : Sound read.m := hs.sound.quiet rfl rfl rfl
  refine ⟨hm.symm ▸ hsound,hm.symm ▸ hs.kernelReads,fun hne => ?_,hserved.symm ▸ hs.good,hm.symm ▸ hs.asked,?_⟩
  · rw [hm]
    exact hs.daemonOpen fun hd => hne (by
      unfold Session.took
      rw [show read.d = .done from hd]
      exact hd)
  · exact Talk.daemon hs (by rw [hm]) (by rw [hm]) (by rw [hm]) (fun hreq _ _ => absurd hreq.count hsome) hstage

lemma Inv.write (hs : Inv s) (now : s.step h (.write k) = some (r,t)) : Inv t := by
  have hstage (base : List Served) (msg : P9Msg) (pay : List UInt8) (put : ℕ) (seg : Option (List UInt8)) (_ : Sized msg pay)
      (stage : Stage s base msg pay put seg) : Stage t base msg pay put seg := stage.write hs.kernelReads now
  obtain ⟨⟨rsp,src⟩,hwrites,now⟩ := Option.bind_eq_some_iff.mp now
  dsimp only at now
  rw [if_neg hs.kernelReads] at now
  split at now
  · cases now
  next hk =>
  cases now
  have hne : s.d ≠ .done := by
    intro hd
    rw [hd] at hwrites
    cases hwrites
  refine ⟨?_,hs.kernelReads,fun _ => hs.daemonOpen hne,hs.good,hs.asked,?_⟩
  · refine hs.sound.daemon rfl rfl fun xs hxs => hxs.write ?_
    have hfits := hxs.fits
    have hcount := hxs.count
    rw [length_take]
    omega
  · refine Talk.daemon hs rfl rfl rfl (fun _ _ hd => ?_) hstage
    rcases hd with hd | hd <;> rw [hd] at hwrites <;> cases hwrites

lemma Inv.answer (hs : Inv s) (hhonest : Honest h s (.answer a)) (now : s.step h (.answer a) = some (r,t)) : Inv t := by
  have hstage (base : List Served) (msg : P9Msg) (pay : List UInt8) (put : ℕ) (seg : Option (List UInt8)) (_ : Sized msg pay)
      (stage : Stage s base msg pay put seg) : Stage t base msg pay put seg := stage.answer now
  unfold Session.step at now
  dsimp only at now
  split at now
  · next req p hph =>
    cases now
    refine ⟨hs.sound,hs.kernelReads,fun _ => hs.daemonOpen (by rw [hph]; exact nofun),?_,hs.asked,?_⟩
    · intro x hx
      rcases List.mem_append.mp hx with hx | hx
      · exact hs.good x hx
      · rw [mem_singleton] at hx
        exact hx ▸ dispatch_good (fun cap hcap => hhonest req p cap hph hcap) p
    · refine Talk.daemon hs rfl rfl rfl (fun _ _ hd => ?_) hstage
      rcases hd with hd | hd <;> rw [hph] at hd <;> cases hd
  · cases now

variable {m : Mount} {c' : Call} {put' : ℕ} {seg' : Option (List UInt8)} {g : List UInt8} {o : Outcome} {log : List Outcome}

/-- The invariant but for what the calls alone keep. -/
structure Going (s : Session) : Prop where
  kernelReads : s.m.ch.rspPipe.rRefs ≠ 0
  daemonOpen : s.d ≠ .done → s.m.ch.reqPipe.rRefs ≠ 0 ∧ s.m.ch.rspPipe.wRefs ≠ 0
  asked : ∀ th c, s.m.calls th = some c → c.req.op.toNat ≤ p9OpLoad.toNat ∧ Sized (c.req.message c.tag) c.req.payload
  talk : Talk s

lemma Inv.of_going (hs : Inv s) (hsound : Sound m) (hgoing : Going { s with m := m }) : Inv { s with m := m } :=
  ⟨hsound,hgoing.kernelReads,hgoing.daemonOpen,hs.good,hgoing.asked,hgoing.talk⟩

lemma answered_append (hans : Answered log base) (ho : o.value ≠ 0) : Answered (log ++ [o]) base := by
  unfold Answered
  rw [filter_append,filter_cons_of_neg (by simpa using ho),filter_nil,append_nil]
  exact hans

lemma Stage.kept (stage : Stage s base msg pay put seg) (hreq : m.ch.reqPipe.ring = s.m.ch.reqPipe.ring)
    (hrsp : ∀ g, seg' = some g → seg = some g ∧ m.ch.rspPipe.ring = s.m.ch.rspPipe.ring) :
    Stage { s with m := m } base msg pay put seg' := by
  cases stage with
  | reading eaten hserved hle hput hring hd hout =>
    refine .reading eaten hserved hle hput (hreq.symm ▸ hring) hd fun g hg => ?_
    obtain ⟨hseg,hsame⟩ := hrsp g hg
    exact hsame.symm ▸ hout g hseg
  | answering x left hserved hmsg hpay hput hring hd hout =>
    refine .answering x left hserved hmsg hpay hput (hreq.symm ▸ hring) hd fun g hg => ?_
    obtain ⟨hseg,hsame⟩ := hrsp g hg
    exact hsame.symm ▸ hout g hseg

lemma Stage.puts (stage : Stage s base msg pay put seg) (hlt : put < put') (hle : put' ≤ P9Msg.size + pay.length)
    (hreq : ∀ xs, s.m.ch.reqPipe.ring.Holds xs → m.ch.reqPipe.ring.Holds (xs ++ ((msg.bytes ++ pay).drop put).take (put' - put)))
    (hrsp : m.ch.rspPipe.ring = s.m.ch.rspPipe.ring) : Stage { s with m := m } base msg pay put' seg := by
  cases stage with
  | answering x left hserved hmsg hpay hput hring hd hout => omega
  | reading eaten hserved hle' hput hring hd hout =>
    refine .reading eaten hserved (hle'.trans hlt.le) hle ?_ hd fun g hg => hrsp.symm ▸ hout g hg
    have hmore := hreq _ hring
    have hlen : (msg.bytes ++ pay).length = P9Msg.size + pay.length := by rw [length_append,P9Msg.length_bytes]
    rw [← drop_append_of_le_length (by rw [length_take]; omega),← take_add,
      Nat.add_sub_cancel' hlt.le] at hmore
    exact hmore

lemma Stage.takes (stage : Stage s base msg pay put (some g)) (hpos : bytes ≠ []) (hreq : m.ch.reqPipe.ring = s.m.ch.reqPipe.ring)
    (hrsp : ∀ xs, s.m.ch.rspPipe.ring.Holds xs → ∃ ys, xs = bytes ++ ys ∧ m.ch.rspPipe.ring.Holds ys) :
    Stage { s with m := m } base msg pay put (some (g ++ bytes)) := by
  cases stage with
  | reading eaten hserved hle hput hring hd hout =>
    obtain ⟨ys,hys,-⟩ := hrsp [] (hout g rfl).2
    exact absurd (List.append_eq_nil_iff.mp hys.symm).1 hpos
  | answering x left hserved hmsg hpay hput hring hd hout =>
    refine .answering x left hserved hmsg hpay hput (hreq.symm ▸ hring) hd fun g' hg => ?_
    cases hg
    obtain ⟨rest,hrest,hstream⟩ := hout g rfl
    obtain ⟨ys,rfl,hys⟩ := hrsp rest hrest
    exact ⟨ys,hys,by rw [← hstream]; simp only [append_assoc]⟩

lemma Inv.holder (hs : Inv s) (hc : s.m.calls th = some c) (hold : c.Holding) : ∃ base put, PutAt c put ∧ Answered s.m.log base ∧
    Stage s base (c.req.message c.tag) c.req.payload put (some c.segment) := by
  cases hs.talk with
  | idle hno hreq hrsp hd hans => exact absurd hold (hno th c hc)
  | busy th' c' base put hc' hold' hput hans stage =>
    obtain rfl := hs.sound.framed.alone _ _ _ _ hc hc' hold hold'
    rw [hc,some.injEq] at hc'
    subst hc'
    exact ⟨base,put,hput,hans,stage⟩
  | dead hdead base msg pay put hsized hans stage =>
    have halive := (hs.sound.locked th c hc hold).2
    rw [hdead] at halive
    cases halive

lemma Inv.asked_setCall (hs : Inv s) (hc : s.m.calls th = some c) (hreq : c'.req = c.req) {ch : Channel} :
    ∀ th₁ c₁, ({ s.m with ch := ch }.setCall th (some c')).calls th₁ = some c₁ →
      c₁.req.op.toNat ≤ p9OpLoad.toNat ∧ Sized (c₁.req.message c₁.tag) c₁.req.payload := by
  intro th₁ c₁ h₁
  rcases calls_setCall h₁ with ⟨-,heq⟩ | ⟨-,h₁⟩
  · cases heq
    rw [hreq]
    exact hs.asked th c hc
  · exact hs.asked th₁ c₁ h₁

lemma Inv.advance (hs : Inv s) (hc : s.m.calls th = some c) {ch : Channel} {phase : Phase} {seg : List UInt8} (hphase : phase ≠ .lock)
    (hans : Answered s.m.log base) (hput : PutAt { c with phase := phase,segment := seg } put)
    (hkernel : ch.rspPipe.rRefs = s.m.ch.rspPipe.rRefs) (hopen : ch.reqPipe.rRefs = s.m.ch.reqPipe.rRefs ∧ ch.rspPipe.wRefs = s.m.ch.rspPipe.wRefs)
    (stage : Stage { s with m := { s.m with ch := ch }.setCall th (some { c with phase := phase,segment := seg }) } base
      (c.req.message c.tag) c.req.payload put (some seg)) :
    Going { s with m := { s.m with ch := ch }.setCall th (some { c with phase := phase,segment := seg }) } where
  kernelReads := hkernel.symm ▸ hs.kernelReads
  daemonOpen hne := ⟨hopen.1.symm ▸ (hs.daemonOpen hne).1,hopen.2.symm ▸ (hs.daemonOpen hne).2⟩
  asked := hs.asked_setCall hc (show ({ c with phase := phase,segment := seg } : Call).req = c.req from rfl)
  talk := .busy th { c with phase := phase,segment := seg } base put (update_self ..) hphase hput hans stage

lemma Inv.fail (hs : Inv s) (hc : s.m.calls th = some c) (hold : c.Holding) (v : ℤ) : Going { s with m := s.m.fail th c v } := by
  obtain ⟨base,put,hput,hans,stage⟩ := hs.holder hc hold
  refine ⟨hs.kernelReads,hs.daemonOpen,fun th₁ c₁ h₁ => hs.asked th₁ c₁ (calls_leave h₁).2,?_⟩
  refine .dead rfl base _ _ put (hs.asked th c hc).2 ?_ (stage.kept rfl nofun)
  refine answered_append hans ?_
  dsimp only
  split_ifs <;> decide

lemma Inv.readReply (hs : Inv s) (hc : s.m.calls th = some c) (hold : c.Holding) {woken late sigPending : Bool} {len : ℕ}
    {block : Phase} {next : List UInt8 → Phase} (hlen : 0 < len) (hans : Answered s.m.log base)
    (stage : Stage s base (c.req.message c.tag) c.req.payload put (some c.segment))
    (hblock : block ≠ .lock ∧ PutAt { c with phase := block } put)
    (hnext : ∀ bytes, next bytes ≠ .lock ∧ PutAt { c with phase := next bytes,segment := c.segment ++ bytes } put) :
    Going { s with m := s.m.readReply th c woken len late sigPending block next } := by
  unfold Mount.readReply
  split
  · exact hs.advance hc hblock.1 hans hblock.2 rfl ⟨rfl,rfl⟩ (stage.kept rfl fun g hg => ⟨hg,rfl⟩)
  · next v bytes p hr =>
    split
    · exact hs.fail hc hold v
    · next hneg =>
      obtain ⟨hrr,hwr⟩ := Pipe.readTurn_refs hr
      have htakes (xs : List UInt8) (hxs : s.m.ch.rspPipe.ring.Holds xs) : bytes ≠ [] ∧ ∃ ys, xs = bytes ++ ys ∧ p.ring.Holds ys := by
        rcases Pipe.readTurn_ret hxs hr hlen with ⟨hle,-⟩ | ⟨hpos,hv,-,ys,hys,hp⟩
        · exact absurd hle hneg
        · refine ⟨?_,ys,hys,hp⟩
          rintro rfl
          rw [length_nil] at hv
          omega
      obtain ⟨cur,rest,-,hrest,-⟩ := hs.sound.framed.stream
      exact hs.advance hc (hnext bytes).1 hans (hnext bytes).2 hrr ⟨rfl,hwr⟩
        (stage.takes (htakes rest hrest).1 rfl fun xs hxs => (htakes xs hxs).2)

lemma Inv.writeRequest (hs : Inv s) (hc : s.m.calls th = some c) (hold : c.Holding) {src : List UInt8} (tail : List UInt8) (off : ℕ)
    {n : ℕ} {late : Bool} {wrote : ℕ → Phase} {next : Phase} (hans : Answered s.m.log base)
    (stage : Stage s base (c.req.message c.tag) c.req.payload (off + n) (some c.segment))
    (hsrc : ((c.req.message c.tag).bytes ++ c.req.payload).drop off = src ++ tail) (hn : n ≤ src.length)
    (hoff : off + src.length ≤ P9Msg.size + c.req.payload.length)
    (hwrote : ∀ k, k ≤ src.length → wrote k ≠ .lock ∧ PutAt { c with phase := wrote k } (off + k))
    (hnext : next ≠ .lock ∧ PutAt { c with phase := next } (off + src.length)) :
    Going { s with m := s.m.writeRequest th c src n late wrote next } := by
  unfold Mount.writeRequest
  split
  · exact ⟨hs.kernelReads,hs.daemonOpen,hs.asked,hs.talk⟩
  · next k p hw =>
    have hmoves (xs : List UInt8) (hxs : s.m.ch.reqPipe.ring.Holds xs) := Pipe.writeTurn_moves hxs hw
    have hany : ∃ xs, s.m.ch.reqPipe.ring.Holds xs := by
      cases stage with
      | reading eaten hserved hle hput hring hd hout | answering x left hserved hmsg hpay hput hring hd hout => exact ⟨_,hring⟩
    obtain ⟨xs,hxs⟩ := hany
    obtain ⟨-,hlt,hle,hrr,-⟩ := hmoves xs hxs
    refine hs.advance hc (hwrote k hle).1 hans (hwrote k hle).2 rfl ⟨hrr,rfl⟩ (stage.puts (by omega) (by omega) (fun ys hys => ?_) rfl)
    have hpart : (((c.req.message c.tag).bytes ++ c.req.payload).drop (off + n)).take (off + k - (off + n)) =
        (src.drop n).take (k - n) := by
      rw [← drop_drop,hsrc,drop_append_of_le_length hn,take_append_of_le_length (by rw [length_drop]; omega),
        Nat.add_sub_add_left]
    rw [hpart]
    exact (hmoves ys hys).1
  · next v hw =>
    split
    · exact hs.fail hc hold v
    · next hv =>
      obtain rfl : v = src.length := of_not_not hv
      have hall := Pipe.writeTurn_ret hn hw
      exact hs.advance hc hnext.1 hans hnext.2 rfl ⟨rfl,rfl⟩ (hall ▸ stage.kept rfl fun g hg => ⟨hg,rfl⟩)

lemma Stage.took (stage : Stage s base msg pay put (some g)) (hpos : g ≠ []) : ∃ x left rest, s.served = base ++ [x] ∧
    x.msg = msg ∧ x.payload = pay ∧ s.m.ch.reqPipe.ring.Holds [] ∧ Remaining x left s.d ∧ s.m.ch.rspPipe.ring.Holds rest ∧
      g ++ rest ++ left = x.response.msg.bytes ++ x.response.payload := by
  cases stage with
  | reading eaten hserved hle hput hring hd hout => exact absurd (hout g rfl).1 hpos
  | answering x left hserved hmsg hpay hput hring hd hout =>
    obtain ⟨rest,hrest,hstream⟩ := hout g rfl
    exact ⟨x,left,rest,hserved,hmsg,hpay,hring,hd,hrest,hstream⟩

lemma header_of_stream {hdr more tail : List UInt8} (hlen : hdr.length = P9Msg.size)
    (hstream : hdr ++ more = x.response.msg.bytes ++ tail) : hdr = x.response.msg.bytes ∧ more = tail :=
  append_inj hstream (hlen.trans x.response.msg.length_bytes.symm)

lemma Remaining.nil (hd : Remaining x [] s.d) : s.d = .header [] ∨ s.d = .done := by
  cases hph : s.d with
  | header got =>
    rw [hph] at hd
    exact .inl (hd.1 ▸ rfl)
  | reply r n =>
    rw [hph] at hd
    obtain ⟨-,hn,hnil⟩ := hd
    have hlen := congrArg List.length (List.append_eq_nil_iff.mp hnil.symm).1
    rw [length_drop,P9Msg.length_bytes,length_nil] at hlen
    omega
  | replyPayload r n =>
    rw [hph] at hd
    obtain ⟨-,hn,hnil⟩ := hd
    have hlen := List.drop_eq_nil_iff.mp hnil.symm
    omega
  | done => exact .inr rfl
  | payload | drain | dispatch =>
    rw [hph] at hd
    exact hd.elim

lemma Inv.finish (hs : Inv s) (hc : s.m.calls th = some c) (hold : c.Holding) {rsp : P9Msg} {done : List UInt8} {woken : Bool}
    (hph : c.phase = .drop rsp done 0 woken) :
    Going { s with m := { s.m with ch := { s.m.ch with inFlight := false } }.leave th c true 0 (some rsp) done } := by
  obtain ⟨base,put,-,hans,stage⟩ := hs.holder hc hold
  have htook := hs.sound.took th c hc
  unfold Call.Took at htook
  rw [hph] at htook
  obtain ⟨hdr,more,hacc,hseg,htake,hlen⟩ := htook
  have hpos : c.segment ≠ [] := by
    rw [hseg]
    intro hnil
    have hhdr := hacc.length
    rw [(List.append_eq_nil_iff.mp hnil).1] at hhdr
    cases hhdr
  obtain ⟨x,left,rest,hserved,hmsg,hpay,hreq,hd,hrest,hstream⟩ := stage.took hpos
  have hgood := hs.good x (hserved ▸ mem_append_right _ mem_cons_self)
  rw [hseg,append_assoc,append_assoc] at hstream
  obtain ⟨rfl,hpayload⟩ := header_of_stream hacc.length hstream
  have hrsp : rsp = x.response.msg := hacc.parse.trans (P9Msg.ofBytes_bytes _)
  have htotal := congrArg List.length hpayload
  simp only [length_append] at htotal
  have hlength := hgood.length
  rw [← hrsp] at hlength
  have hrest0 : rest = [] := List.length_eq_zero_iff.mp (by omega)
  have hleft0 : left = [] := List.length_eq_zero_iff.mp (by omega)
  subst hrest0 hleft0
  have hbuf : done = x.response.payload.take c.req.cap.toNat := by
    have hmin : done.length = min rsp.length.toNat c.req.cap.toNat := htake
    rw [← hpayload,append_nil,append_nil]
    rcases Nat.le_total rsp.length.toNat c.req.cap.toNat with hle | hle
    · have hnil : more = [] := List.length_eq_zero_iff.mp (by omega)
      rw [hnil,append_nil,take_of_length_le (by omega)]
    · rw [take_left' (by omega)]
  refine ⟨hs.kernelReads,hs.daemonOpen,fun th₁ c₁ h₁ => hs.asked th₁ c₁ (calls_leave h₁).2,.idle ?_ hreq hrest hd.nil ?_⟩
  · intro th₁ c₁ h₁ hh₁
    obtain ⟨hne,h₁⟩ := calls_leave h₁
    exact hne (hs.sound.framed.alone _ _ _ _ h₁ hc hh₁ hold)
  · change Answered (s.m.log ++ [_]) s.served
    unfold Answered
    rw [filter_append,hserved,filter_cons_of_pos (by rfl),filter_nil]
    exact rel_append hans (.cons ⟨hmsg,hpay,congrArg some hrsp,hbuf⟩ .nil)

lemma Inv.aside (hs : Inv s) (hch : m.ch = s.m.ch) (hans : ∀ base, Answered s.m.log base → Answered m.log base)
    (hheld : ∀ th c, c.Holding → (m.calls th = some c ↔ s.m.calls th = some c))
    (hasked : ∀ th c, m.calls th = some c → c.req.op.toNat ≤ p9OpLoad.toNat ∧ Sized (c.req.message c.tag) c.req.payload) :
    Going { s with m := m } where
  kernelReads := hch.symm ▸ hs.kernelReads
  daemonOpen hne := hch.symm ▸ hs.daemonOpen hne
  asked := hasked
  talk := by
    cases hs.talk with
    | idle hno hreq hrsp hd hans' =>
      exact .idle (fun th c hc hold => hno th c ((hheld th c hold).mp hc) hold) (hch.symm ▸ hreq) (hch.symm ▸ hrsp) hd (hans _ hans')
    | busy th c base put hc hold hput hans' stage =>
      exact .busy th c base put ((hheld th c hold).mpr hc) hold hput (hans _ hans') (stage.kept (by rw [hch]) fun g hg => ⟨hg,by rw [hch]⟩)
    | dead hdead base msg pay put hsized hans' stage =>
      exact .dead (hch.symm ▸ hdead) base msg pay put hsized (hans _ hans') (stage.kept (by rw [hch]) nofun)

lemma Inv.leaveWaiting (hs : Inv s) (hc : ∀ c, s.m.calls th = some c → ¬ c.Holding) {v : ℤ} {began : Bool} {rsp : Option P9Msg} (hv : v ≠ 0) :
    Going { s with m := s.m.leave th c began v rsp [] } := by
  refine hs.aside rfl (fun base hans => answered_append hans hv) (fun th₁ c₁ hold => ?_) fun th₁ c₁ h₁ => hs.asked th₁ c₁ (calls_leave h₁).2
  refine ⟨fun h₁ => (calls_leave h₁).2,fun h₁ => ?_⟩
  have hne : th₁ ≠ th := by
    rintro rfl
    exact hc c₁ h₁ hold
  unfold Mount.leave
  dsimp only
  rw [update_of_ne hne]
  exact h₁

lemma Inv.lock (hs : Inv s) (hc : s.m.calls th = some c) (hseg : c.segment = []) (hin : s.m.ch.inFlight = false)
    (halive : s.m.ch.alive = true) :
    Going { s with m := ({ s.m with ch := { s.m.ch with inFlight := true, nextTag := s.m.ch.nextTag + 1 } }.setCall th
      (some { c with tag := s.m.ch.nextTag, phase := .writeHeader 0 })) } := by
  have hasked := hs.asked th c hc
  refine ⟨hs.kernelReads,hs.daemonOpen,
    hs.asked_setCall hc (show ({ c with tag := s.m.ch.nextTag, phase := .writeHeader 0 } : Call).req = c.req from rfl),?_⟩
  cases hs.talk with
  | busy th' c' base put hc' hold' hput hans stage =>
    have hlocked := (hs.sound.locked th' c' hc' hold').1
    rw [hin] at hlocked
    cases hlocked
  | dead hdead base msg pay put hsized hans stage =>
    rw [hdead] at halive
    cases halive
  | idle hno hreq hrsp hd hans =>
    refine .busy th { c with tag := s.m.ch.nextTag, phase := .writeHeader 0 } s.served 0 (update_self ..) nofun
      ⟨rfl,Nat.zero_le _⟩ hans ?_
    refine .reading 0 rfl le_rfl (Nat.zero_le _) hreq ?_ fun g hg => ?_
    · rcases hd with hd | hd <;> dsimp only <;> rw [hd]
      · exact ⟨rfl,by decide⟩
      · trivial
    · cases hg
      exact ⟨hseg,hrsp⟩

lemma Inv.turn (hs : Inv s) (hc : s.m.calls th = some c) (late sigPending : Bool) :
    Going { s with m := s.m.turn th c late sigPending } := by
  have hseg (hph : c.phase = .lock) : c.segment = [] := by simpa [Call.Took,hph] using hs.sound.took th c hc
  have htook := hs.sound.took th c hc
  unfold Mount.turn
  cases hph : c.phase with
  | lock =>
    dsimp only
    split_ifs with hin halive
    · exact ⟨hs.kernelReads,hs.daemonOpen,hs.asked,hs.talk⟩
    · refine hs.leaveWaiting (fun c' hc' => ?_) (by decide)
      obtain rfl := some.inj (hc.symm.trans hc')
      exact fun hold => hold hph
    · exact hs.lock hc (hseg hph) (by simpa using hin) (by simpa using halive)
  | writeHeader n =>
    have hold : c.Holding := by simp [Call.Holding,hph]
    obtain ⟨base,put,hput,hans,stage⟩ := hs.holder hc hold
    simp only [PutAt,hph] at hput
    obtain ⟨rfl,hn⟩ := hput
    have hlen : (c.req.message c.tag).bytes.length = P9Msg.size := P9Msg.length_bytes _
    refine hs.writeRequest hc hold c.req.payload 0 hans ((Nat.zero_add put).symm ▸ stage) rfl (by omega) (by omega)
      (fun k hk => ⟨fun h => (by cases h),Nat.zero_add k,hlen ▸ hk⟩) ?_
    rw [Nat.zero_add,hlen]
    split_ifs with hpay
    · exact ⟨fun h => (by cases h),rfl,Nat.zero_le _⟩
    · refine ⟨fun h => (by cases h),?_⟩
      have hnil : c.req.payload.length = 0 := by omega
      simp only [PutAt,hnil,Nat.add_zero]
  | writePayload n =>
    have hold : c.Holding := by simp [Call.Holding,hph]
    obtain ⟨base,put,hput,hans,stage⟩ := hs.holder hc hold
    simp only [PutAt,hph] at hput
    obtain ⟨rfl,hn⟩ := hput
    have hlen : (c.req.message c.tag).bytes.length = P9Msg.size := P9Msg.length_bytes _
    refine hs.writeRequest hc hold [] P9Msg.size hans stage ?_ hn le_rfl (fun k hk => ⟨fun h => (by cases h),rfl,hk⟩) ⟨fun h => (by cases h),rfl⟩
    rw [← hlen,drop_left,append_nil]
  | readHeader got woken =>
    have hold : c.Holding := by simp [Call.Holding,hph]
    obtain ⟨base,put,hput,hans,stage⟩ := hs.holder hc hold
    simp only [PutAt,hph] at hput
    dsimp only
    split_ifs with hmore hbad hlong
    · exact hs.readReply hc hold (by omega) hans stage ⟨fun h => (by cases h),hput⟩ fun bytes => ⟨fun h => (by cases h),hput⟩
    · exact hs.fail hc hold _
    · exact hs.fail hc hold _
    · exact hs.advance hc (fun h => by cases h) hans hput rfl ⟨rfl,rfl⟩ (stage.kept rfl fun g hg => ⟨hg,rfl⟩)
  | readPayload rsp done woken =>
    have hold : c.Holding := by simp [Call.Holding,hph]
    obtain ⟨base,put,hput,hans,stage⟩ := hs.holder hc hold
    simp only [PutAt,hph] at hput
    dsimp only
    split_ifs with hmore
    · exact hs.readReply hc hold (by omega) hans stage ⟨fun h => (by cases h),hput⟩ fun bytes => ⟨fun h => (by cases h),hput⟩
    · exact hs.advance hc (fun h => by cases h) hans hput rfl ⟨rfl,rfl⟩ (stage.kept rfl fun g hg => ⟨hg,rfl⟩)
  | drop rsp done left woken =>
    have hold : c.Holding := by simp [Call.Holding,hph]
    obtain ⟨base,put,hput,hans,stage⟩ := hs.holder hc hold
    simp only [PutAt,hph] at hput
    dsimp only
    split_ifs with hmore
    · exact hs.readReply hc hold (by omega) hans stage ⟨fun h => (by cases h),hput⟩ fun bytes => ⟨fun h => (by cases h),hput⟩
    · obtain rfl : left = 0 := by omega
      exact hs.finish hc hold hph

lemma Inv.enter (hs : Inv s) {req : Request} (hth : s.m.calls th = none) (hop : req.op.toNat ≤ p9OpLoad.toNat) :
    Going { s with m := s.m.enter th req } := by
  have hno (c' : Call) (hc : s.m.calls th = some c') : ¬ c'.Holding := by
    rw [hth] at hc
    cases hc
  unfold Mount.enter
  dsimp only
  split_ifs with hlong halive howner
  · exact hs.leaveWaiting hno (by decide)
  · exact hs.leaveWaiting hno (by decide)
  · exact hs.leaveWaiting hno (by decide)
  · refine hs.aside rfl (fun base hans => hans) (fun th₁ c₁ hold => ?_) fun th₁ c₁ h₁ => ?_
    · have hne (h₁ : s.m.calls th₁ = some c₁) : th₁ ≠ th := by
        rintro rfl
        exact hno c₁ h₁ hold
      refine ⟨fun h₁ => ?_,fun h₁ => ?_⟩
      · rcases calls_setCall h₁ with ⟨-,heq⟩ | ⟨-,h₁⟩
        · cases heq
          exact absurd rfl hold
        · exact h₁
      · unfold Mount.setCall
        dsimp only
        rw [update_of_ne (hne h₁)]
        exact h₁
    · rcases calls_setCall h₁ with ⟨-,heq⟩ | ⟨-,h₁⟩
      · cases heq
        have hmax : p9MaxPayload = 2048 := rfl
        exact ⟨hop,UInt32.toNat_ofNat_of_lt' (by simp only [UInt32.size]; omega),by dsimp only; omega⟩
      · exact hs.asked th₁ c₁ h₁

lemma Inv.step (hs : Inv s) {e : Session.Event} (hhonest : Honest h s e) (now : s.step h e = some (r,t)) : Inv t := by
  cases e with
  | call th req =>
    unfold Session.step at now
    dsimp only at now
    split_ifs at now with hop
    obtain ⟨⟨⟨⟩,m⟩,hm,hr⟩ := Option.map_eq_some_iff.mp now
    cases hr
    have hsound := hs.sound.step hm
    unfold Mount.step at hm
    dsimp only at hm
    split_ifs at hm with hth
    cases hm
    exact hs.of_going hsound (hs.enter (by simpa using hth) (Nat.not_lt.mp hop))
  | turn th late sigPending =>
    obtain ⟨⟨⟨⟩,m⟩,hm,hr⟩ := Option.map_eq_some_iff.mp now
    cases hr
    have hsound := hs.sound.step hm
    obtain ⟨c,hc,heq⟩ := Option.map_eq_some_iff.mp hm
    cases heq
    exact hs.of_going hsound (hs.turn hc late sigPending)
  | read k sigPending => exact hs.read now
  | write k => exact hs.write now
  | answer a => exact hs.answer hhonest now

lemma Inv.initial (ownerPid : ℤ) (buf : Fin pipeBufSize → UInt8) (rd : ℕ → UInt8) : Inv (.initial ownerPid buf rd) :=
  ⟨sound_initial ownerPid buf,Nat.one_ne_zero,fun _ => ⟨Nat.one_ne_zero,Nat.one_ne_zero⟩,fun _ hx => (by cases hx),fun _ _ hc => (by cases hc),
    .idle (fun _ _ hc => (by cases hc)) (Ring.holds_nil buf) (Ring.holds_nil buf) (.inl rfl) .nil⟩

lemma writeRequest_alive {src : List UInt8} {n : ℕ} {wrote : ℕ → Phase} {next : Phase} (hn : n ≤ src.length)
    (hreads : m.ch.reqPipe.rRefs ≠ 0) : (m.writeRequest th c src n false wrote next).ch.alive = m.ch.alive := by
  unfold Mount.writeRequest Pipe.writeTurn
  by_cases hdone : src.length ≤ n
  · rw [if_pos hdone]
    dsimp only
    rw [if_neg (by omega)]
    rfl
  · rw [if_neg hdone,if_neg hreads]
    by_cases hfull : m.ch.reqPipe.ring.count = pipeBufSize
    · rw [if_pos hfull,if_neg (by decide)]
    · rw [if_neg hfull]
      rfl

lemma readReply_alive {woken : Bool} {len : ℕ} {block : Phase} {next : List UInt8 → Phase} (hlen : 0 < len)
    (hwrites : m.ch.rspPipe.wRefs ≠ 0) : (m.readReply th c woken len false false block next).ch.alive = m.ch.alive := by
  unfold Mount.readReply Pipe.readTurn
  rw [Bool.and_false]
  by_cases hempty : m.ch.rspPipe.ring.count = 0
  · rw [if_pos hempty,if_neg (by decide),if_neg hwrites]
    rfl
  · rw [if_neg hempty]
    dsimp only
    rw [if_neg (by omega)]
    rfl

lemma reply_op {op : UInt32} (hop : op.toNat ≤ p9OpLoad.toNat) : (op ||| p9Reply) &&& ~~~p9Reply = op ∧ (op ||| p9Reply) &&& p9Reply ≠ 0 := by
  have hle : op.toNat ≤ 9 := hop
  obtain ⟨n,hn,rfl⟩ : ∃ n, n ≤ 9 ∧ UInt32.ofNat n = op := ⟨op.toNat,hle,UInt32.ofNat_toNat⟩
  interval_cases n <;> decide

lemma Inv.alive (hs : Inv s) (hc : s.m.calls th = some c) (hd : s.d ≠ .done) (halive : s.m.ch.alive = true) :
    (s.m.turn th c false false).ch.alive = true := by
  obtain ⟨hreads,hwrites⟩ := hs.daemonOpen hd
  have htook := hs.sound.took th c hc
  have hfacts (hold : c.Holding) := hs.holder hc hold
  unfold Mount.turn
  cases hph : c.phase with
  | lock =>
    dsimp only
    split_ifs <;> exact halive
  | writeHeader n =>
    obtain ⟨base,put,hput,-,-⟩ := hfacts (by simp [Call.Holding,hph])
    simp only [PutAt,hph] at hput
    exact (writeRequest_alive (by rw [P9Msg.length_bytes]; exact hput.2) hreads).trans halive
  | writePayload n =>
    obtain ⟨base,put,hput,-,-⟩ := hfacts (by simp [Call.Holding,hph])
    simp only [PutAt,hph] at hput
    exact (writeRequest_alive hput.2 hreads).trans halive
  | readHeader got woken =>
    dsimp only
    split_ifs with hmore hbad hlong
    · exact (readReply_alive (by omega) hwrites).trans halive
    all_goals
      obtain ⟨base,put,-,-,stage⟩ := hfacts (by simp [Call.Holding,hph])
      simp only [Call.Took,hph] at htook
      obtain ⟨hseg,hgot⟩ := htook
      have hlen : got.length = P9Msg.size := by omega
      have hpos : c.segment ≠ [] := by
        rw [hseg]
        rintro rfl
        cases hlen
      obtain ⟨x,left,rest,hserved,hmsg,hpay,-,-,-,hstream⟩ := stage.took hpos
      have hgood := hs.good x (hserved ▸ mem_append_right _ mem_cons_self)
      rw [hseg,append_assoc] at hstream
      have hrsp : P9Msg.ofBytes got = x.response.msg := by rw [(header_of_stream hlen hstream).1,P9Msg.ofBytes_bytes]
    · exfalso
      obtain ⟨hop,hbit⟩ := reply_op (hs.asked th c hc).1
      have hmsgop : x.msg.op = c.req.op := congrArg P9Msg.op hmsg
      have hmsgtag : x.msg.tag = c.tag := congrArg P9Msg.tag hmsg
      have haccepts : c.req.accepts c.tag (P9Msg.ofBytes got) = true := by
        unfold Request.accepts
        rw [hrsp,hgood.op,hgood.tag,hmsgop,hmsgtag,hop]
        simpa using hbit
      rw [haccepts] at hbad
      cases hbad
    · exfalso
      rw [hrsp] at hlong
      have hfits := hgood.fits
      have hlength := hgood.length
      omega
    · exact halive
  | readPayload rsp done woken | drop rsp done left woken =>
    dsimp only
    split_ifs with hmore
    · exact (readReply_alive (by omega) hwrites).trans halive
    · exact halive

structure Agrees (s : Session) : Prop where
  good : ∀ x ∈ s.served, x.Good
  /-- the calls that returned 0 have one reply each, and at most the request in progress has another -/
  answered : ∃ l rest, s.served = l ++ rest ∧ Answered s.m.log l ∧ rest.length ≤ 1 ∧ (s.m.ch.alive = true → ∀ x ∈ rest,
    ∃ th c, s.m.calls th = some c ∧ c.Holding ∧ x.msg = c.req.message c.tag ∧ x.payload = c.req.payload)
  settled : s.m.ch.alive = true → s.m.ch.inFlight = false → s.m.ch.reqPipe.ring.Holds [] ∧ s.m.ch.rspPipe.ring.Holds [] ∧
    Answered s.m.log s.served ∧ (s.d = .header [] ∨ s.d = .done)
  accepted : ∀ th c, s.m.calls th = some c → s.d ≠ .done → s.m.ch.alive = true → (s.m.turn th c false false).ch.alive = true

lemma Stage.served (stage : Stage s base msg pay put seg) :
    ∃ rest, s.served = base ++ rest ∧ rest.length ≤ 1 ∧ ∀ x ∈ rest, x.msg = msg ∧ x.payload = pay := by
  cases stage with
  | reading eaten hserved hle hput hring hd hout => exact ⟨[],by rw [hserved,append_nil],Nat.zero_le _,fun x hx => nomatch hx⟩
  | answering x left hserved hmsg hpay hput hring hd hout =>
    refine ⟨[x],hserved,le_rfl,fun y hy => ?_⟩
    rw [mem_singleton] at hy
    exact hy ▸ ⟨hmsg,hpay⟩

lemma Inv.agrees (hs : Inv s) : Agrees s where
  good := hs.good
  accepted th c hc hd halive := hs.alive hc hd halive
  answered := by
    cases hs.talk with
    | idle hno hreq hrsp hd hans => exact ⟨s.served,[],(append_nil _).symm,hans,Nat.zero_le _,fun _ x hx => nomatch hx⟩
    | busy th c base put hc hold hput hans stage =>
      obtain ⟨rest,hserved,hlen,hrest⟩ := stage.served
      exact ⟨base,rest,hserved,hans,hlen,fun _ x hx => ⟨th,c,hc,hold,hrest x hx⟩⟩
    | dead hdead base msg pay put hsized hans stage =>
      obtain ⟨rest,hserved,hlen,-⟩ := stage.served
      refine ⟨base,rest,hserved,hans,hlen,fun halive => ?_⟩
      rw [hdead] at halive
      cases halive
  settled halive hin := by
    cases hs.talk with
    | idle hno hreq hrsp hd hans => exact ⟨hreq,hrsp,hans,hd⟩
    | busy th c base put hc hold hput hans stage =>
      have hlocked := (hs.sound.locked th c hc hold).1
      rw [hin] at hlocked
      cases hlocked
    | dead hdead base msg pay put hsized hans stage =>
      rw [hdead] at halive
      cases halive

/-- In every run in which no callback stores more than it has room for or returns more than it stored, for any requests
and any splitting of the transfers, the daemon and the kernel agree. -/
theorem wire_agrees {ownerPid : ℤ} {buf : Fin pipeBufSize → UInt8} {rd : ℕ → UInt8} {es : List Session.Event}
    (hrun : Runs (Session.step h) (Honest h) (.initial ownerPid buf rd) es s) : Agrees s :=
  (hrun.invariant (I := Inv) (fun _ _ _ _ hs hhonest now => hs.step hhonest now) (.initial ownerPid buf rd)).agrees

def honest (h : Handler) (s : Session) : Session.Event → Bool
  | .answer a =>
    match s.d with
    | .dispatch req _ => (h.bufferCap req).all fun cap =>
        decide (a.filled.length ≤ cap ∧ (¬ a.value < 0 → a.value.toUInt32.toNat ≤ a.filled.length))
    | _ => true
  | _ => true

lemma honest_sound (s : Session) (e : Session.Event) (he : honest h s e = true) : Honest h s e := by
  cases e with
  | answer a =>
    intro req pay cap hd hcap
    simp only [honest,hd,hcap,all_some,decide_eq_true_eq] at he
    exact he
  | call | turn | read | write => trivial

def Handler.full : Handler := ⟨true,true,true,true,true,true,true,true⟩

/-- A READ of ten bytes up to the callback. -/
def readRequest : List Session.Event :=
  [.call 7 ⟨p9OpRead,3,10,0,[],10⟩,.turn 7 false false,.turn 7 false false,.turn 7 false false,.read 20 false,.read 12 false]

theorem wire_agrees_read : ∃ es s, Runs (Session.step .full) (Honest .full) (.initial 5 (fun _ => 0) fun _ => 0) es s ∧
    s.served.length = 1 ∧ s.m.ch.reqPipe.ring.Holds [] ∧ s.m.ch.rspPipe.ring.Holds [] ∧ Answered s.m.log s.served := by
  let es := readRequest ++ [.answer ⟨3,0,0,[1,2,3],fun _ => 9⟩,.write 32,.write 1,.write 2,.turn 7 false false,.turn 7 false false,
    .turn 7 false false,.turn 7 false false,.turn 7 false false]
  have hrun : (execute (fun s e => if honest .full s e then Session.step .full s e else none)
      (.initial 5 (fun _ => 0) fun _ => 0) es).any (fun s => s.served.length == 1 && s.m.ch.alive && !s.m.ch.inFlight) = true := by
    decide
  obtain ⟨s,hs,hfacts⟩ := (Option.any_eq_true _ _).mp hrun
  simp only [Bool.and_eq_true,beq_iff_eq,Bool.not_eq_true'] at hfacts
  obtain ⟨⟨hlen,halive⟩,hin⟩ := hfacts
  have hruns := Runs.of_guarded honest_sound hs
  obtain ⟨hreq,hrsp,hans,-⟩ := (wire_agrees hruns).settled halive hin
  exact ⟨es,s,hruns,hlen,hreq,hrsp,hans⟩

def Fills (h : Handler) (s : Session) : Session.Event → Prop
  | .answer a => ∀ req pay cap, s.d = .dispatch req pay → h.bufferCap req = some cap → a.filled.length ≤ cap
  | _ => True

/-- A callback that returns more than it filled makes the daemon send what lay in the buffer before. -/
theorem sends_unfilled : ∃ es s, Runs (Session.step .full) (Fills .full) (.initial 5 (fun _ => 0) fun _ => 0) es s ∧
    ∃ x ∈ s.served, ¬ x.response.payload <+: x.filled := by
  let es := readRequest ++ [.answer ⟨5,0,0,[],fun _ => 9⟩]
  have hrun : (execute (Session.step .full) (.initial 5 (fun _ => 0) fun _ => 0) es).any (fun s => s.served.any fun x =>
      x.response.payload.length == 5 && x.filled.length == 0) = true := by
    decide
  obtain ⟨s,hs,hfacts⟩ := (Option.any_eq_true _ _).mp hrun
  obtain ⟨x,hx,hlen⟩ := List.any_eq_true.mp hfacts
  simp only [Bool.and_eq_true,beq_iff_eq] at hlen
  refine ⟨es,s,(Runs.of_execute hs).of_forall fun e he s => ?_,x,hx,fun hpre => ?_⟩
  · have hempty : ∀ e ∈ es, (match e with | .answer a => a.filled.length | _ => 0) = 0 := by decide
    cases e with
    | answer a =>
      intro req pay cap _ _
      have hnone := hempty _ he
      dsimp only at hnone
      omega
    | call | turn | read | write => trivial
  · have hle := hpre.length_le
    omega

end VibeOS.Userfs

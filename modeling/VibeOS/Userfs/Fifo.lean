import VibeOS.Userfs.Pipe
import VibeOS.Runs

/-! One pipe with any number of reads and writes under way. -/
namespace VibeOS.Storage.Ring
variable {α : Type*} {n : ℕ} [NeZero n] {r : Ring α n} {xs ys : List α}

def contents (r : Ring α n) : List α := (List.range r.count).map fun i => r.buf (Fin.ofNat n (r.head + i))

lemma Holds.contents (h : Holds r xs) : r.contents = xs := by
  refine List.ext_getElem (by rw [Ring.contents,List.length_map,List.length_range,h.count]) fun i hi hi' => ?_
  simp only [Ring.contents,List.getElem_map,List.getElem_range]
  exact h.cell i hi'

lemma tail_readLoop (k : ℕ) (r : Ring α n) : (readLoop k r).2.tail = r.tail := by
  induction k generalizing r with
  | zero => rfl
  | succ k ih => exact ih _

lemma tail_writeLoop (r : Ring α n) (h : r.tail < n) : (writeLoop ys r).tail < n := by
  induction ys generalizing r with
  | nil => exact h
  | cons y ys ih => exact ih _ (Nat.mod_lt _ (Nat.pos_of_ne_zero (NeZero.ne n)))

end VibeOS.Storage.Ring

namespace VibeOS.Userfs
open VibeOS.Storage

inductive PipeRef
  | r
  | w
  deriving DecidableEq

def Pipe.ref (p : Pipe) : PipeRef → Pipe
  | .r => { p with rRefs := p.rRefs + 1 }
  | .w => { p with wRefs := p.wRefs + 1 }

def Pipe.unref (p : Pipe) : PipeRef → Pipe
  | .r => p.unrefR
  | .w => p.unrefW

/-- A call that has not returned. A write has a number, and the bytes before `written` are stored. -/
inductive PipeCall
  | read (len : ℕ) (timed woken : Bool)
  | write (id : ℕ) (src : List UInt8) (timed : Bool) (written : ℕ)

inductive PipeEvent
  | read (th : ℕ) (null : Bool) (len : ℕ) (timed : Bool)
  | write (th : ℕ) (null : Bool) (src : List UInt8) (timed : Bool)
  | turn (th : ℕ) (late sigPending : Bool)
  | ref (which : PipeRef)
  | unref (which : PipeRef)

inductive PipeReturn
  | read (len : ℕ) (value : ℤ) (bytes : List UInt8)
  | write (id : ℕ) (src : List UInt8) (value : ℤ)

/-- The pipe, the calls of the threads, and what has gone in and out of it: `put` are the bytes that were
stored, each with the number of its write, and `got` those that were copied out. -/
structure Pipeline where
  pipe : Pipe
  freed : Bool
  calls : ℕ → Option PipeCall
  writes : ℕ
  put : List (ℕ × UInt8)
  got : List UInt8

variable {p p' : Pipe} {bytes src : List UInt8} {woken late sigPending : Bool} {len written n : ℕ} {v : ℤ}

lemma Pipe.readTurn_tail (now : p.readTurn woken len late sigPending = .ret v bytes p') :
    p'.ring.tail = p.ring.tail := by
  unfold Pipe.readTurn at now
  split_ifs at now <;> cases now
  · rfl
  · rfl
  · rfl
  · exact Ring.tail_readLoop _ _

lemma Pipe.readTurn_zero (hlen : 0 < len) (now : p.readTurn woken len late sigPending = .ret 0 bytes p') :
    p'.ring.count = 0 ∧ p'.wRefs = 0 := by
  unfold Pipe.readTurn at now
  split_ifs at now with hempty hsig hw hlate
  · injection now with hv
    exact absurd hv (by decide)
  · cases now
    exact ⟨hempty,hw⟩
  · injection now with hv
    exact absurd hv (by decide)
  · injection now with hv
    omega

lemma Pipe.writeTurn_tail (h : p.ring.tail < pipeBufSize) (now : p.writeTurn src written late = .moved n p') :
    p'.ring.tail < pipeBufSize := by
  unfold Pipe.writeTurn at now
  split_ifs at now
  cases now
  exact Ring.tail_writeLoop _ h

lemma Pipe.writeTurn_value (now : p.writeTurn src written late = .ret v) : v = written ∨ written = 0 ∧ v < 0 := by
  have hepipe : epipe = 32 := rfl
  have hlate : etimedout = 110 := rfl
  unfold Pipe.writeTurn at now
  split_ifs at now <;> rw [WriteTurn.ret.injEq] at now <;> omega

namespace Pipeline

def initial (buf : Fin pipeBufSize → UInt8) : Pipeline := ⟨.alloc buf,false,fun _ => none,0,[],[]⟩

def stored (s : Pipeline) (id : ℕ) : List UInt8 := (s.put.filter (·.1 = id)).map Prod.snd

/-- `pipe_read_until` up to its loop. -/
def enterRead (s : Pipeline) (th : ℕ) (null : Bool) (len : ℕ) (timed : Bool) : Option PipeReturn × Pipeline :=
  if null then (some (.read len (-einval) []),s)
  else if len = 0 then (some (.read len 0 []),s)
  else (none,{ s with calls := Function.update s.calls th (some (.read len timed false)) })

/-- `pipe_write_until` up to its loop. -/
def enterWrite (s : Pipeline) (th : ℕ) (null : Bool) (src : List UInt8) (timed : Bool) : Option PipeReturn × Pipeline :=
  let s' := { s with writes := s.writes + 1 }
  if null then (some (.write s.writes src (-einval)),s')
  else if src.length = 0 then (some (.write s.writes src 0),s')
  else (none,{ s' with calls := Function.update s.calls th (some (.write s.writes src timed 0)) })

/-- A turn of the loop that the thread is in; only a call with a deadline can be late. -/
def turn (s : Pipeline) (th : ℕ) (late sigPending : Bool) : PipeCall → Option PipeReturn × Pipeline
  | .read len timed woken => match s.pipe.readTurn woken len (timed && late) sigPending with
    | .ret value bytes p => (some (.read len value bytes),
        { s with pipe := p, calls := Function.update s.calls th none, got := s.got ++ bytes })
    | .block => (none,{ s with calls := Function.update s.calls th (some (.read len timed true)) })
  | .write id src timed written => match s.pipe.writeTurn src written (timed && late) with
    | .ret value => (some (.write id src value),{ s with calls := Function.update s.calls th none })
    | .block => (none,s)
    | .moved written' p => (none,{ s with
        pipe := p
        calls := Function.update s.calls th (some (.write id src timed written'))
        put := s.put ++ ((src.drop written).take (written' - written)).map (id,·) })

/-- A pipe without references is freed; nothing is said about a call that still uses it then. -/
def step (s : Pipeline) (e : PipeEvent) : Option (Option PipeReturn × Pipeline) :=
  if s.freed then none else match e with
  | .read th null len timed => if (s.calls th).isSome then none else some (s.enterRead th null len timed)
  | .write th null src timed => if (s.calls th).isSome then none else some (s.enterWrite th null src timed)
  | .turn th late sigPending => (s.calls th).map (s.turn th late sigPending)
  | .ref which => some (none,{ s with pipe := s.pipe.ref which })
  | .unref which =>
    let p := s.pipe.unref which
    some (none,{ s with pipe := p, freed := p.rRefs == 0 && p.wRefs == 0 })

def Tracks (s : Pipeline) : PipeCall → Prop
  | .read len _ _ => 0 < len
  | .write id src _ written => id < s.writes ∧ written ≤ src.length ∧ s.stored id = src.take written

structure Inv (s : Pipeline) : Prop where
  holds : ∃ xs, s.pipe.ring.Holds xs ∧ s.put.map Prod.snd = s.got ++ xs
  tail : s.pipe.ring.tail < pipeBufSize
  numbered : ∀ x ∈ s.put, x.1 < s.writes
  tracks : ∀ th c, s.calls th = some c → s.Tracks c
  apart : ∀ th th' id src src' timed timed' written written', s.calls th = some (.write id src timed written) →
    s.calls th' = some (.write id src' timed' written') → th = th'

/-- A call that returns a value tells what it did: a write how many of its bytes it stored, a read how many it
copied out, and a read that returns zero, if it wanted bytes, found neither a byte nor a writer. -/
def Honest (s : Pipeline) : PipeReturn → Prop
  | .read len value bytes => (0 ≤ value → value = bytes.length) ∧ (value < 0 → bytes = []) ∧
      (value = 0 → len = 0 ∨ s.pipe.ring.count = 0 ∧ s.pipe.wRefs = 0)
  | .write id src value => (0 ≤ value → s.stored id = src.take value.toNat ∧ (s.stored id).length = value) ∧
      (value < 0 → s.stored id = [])

variable {s s' : Pipeline} {e : PipeEvent} {es : List PipeEvent} {ret : Option PipeReturn} {r : PipeReturn}
  {c : PipeCall} {th id : ℕ} {null timed late sigPending : Bool} {len written : ℕ} {src : List UInt8}

lemma stored_fresh (h : ∀ x ∈ s.put, x.1 < s.writes) (hid : s.writes ≤ id) : s.stored id = [] := by
  have hnone : s.put.filter (·.1 = id) = [] := by
    refine List.filter_eq_nil_iff.mpr fun x hx => ?_
    have hlt := h x hx
    simp only [decide_eq_true_eq]
    omega
  rw [stored,hnone]
  rfl

lemma Tracks.writes_succ (h : s.Tracks c) : Tracks { s with writes := s.writes + 1 } c := by
  cases c with
  | read len timed woken => exact h
  | write id src timed written => exact ⟨h.1.trans (Nat.lt_succ_self _),h.2⟩

lemma Inv.initial (buf : Fin pipeBufSize → UInt8) : (Pipeline.initial buf).Inv where
  holds := ⟨[],Ring.holds_nil buf,rfl⟩
  tail := Nat.succ_pos _
  numbered := fun _ hx => by cases hx
  tracks := fun _ _ hc => by cases hc
  apart := fun _ _ _ _ _ _ _ _ _ hc => by cases hc

lemma Inv.leave (h : s.Inv) (th : ℕ) : Inv { s with calls := Function.update s.calls th none } := by
  have hold : ∀ th' c, Function.update s.calls th none th' = some c → s.calls th' = some c := fun th' c hc => by
    rcases eq_or_ne th' th with rfl | hne
    · rw [Function.update_self] at hc
      cases hc
    · rwa [Function.update_of_ne hne] at hc
  exact ⟨h.holds,h.tail,h.numbered,fun th' c hc => h.tracks th' c (hold _ _ hc),
    fun t t' id src src' td td' w w' ht ht' => h.apart t t' id src src' td td' w w' (hold _ _ ht) (hold _ _ ht')⟩

lemma Inv.reading (h : s.Inv) (th : ℕ) (hlen : 0 < len) (timed woken : Bool) :
    Inv { s with calls := Function.update s.calls th (some (.read len timed woken)) } := by
  have hold : ∀ th' id src td w, Function.update s.calls th (some (.read len timed woken)) th' = some (.write id src td w) →
      s.calls th' = some (.write id src td w) := fun th' id src td w hc => by
    rcases eq_or_ne th' th with rfl | hne
    · rw [Function.update_self] at hc
      cases hc
    · rwa [Function.update_of_ne hne] at hc
  refine ⟨h.holds,h.tail,h.numbered,fun th' c hc => ?_,
    fun t t' id src src' td td' w w' ht ht' => h.apart t t' id src src' td td' w w' (hold _ _ _ _ _ ht) (hold _ _ _ _ _ ht')⟩
  rcases eq_or_ne th' th with rfl | hne
  · dsimp only at hc
    rw [Function.update_self] at hc
    cases hc
    exact hlen
  · dsimp only at hc
    rw [Function.update_of_ne hne] at hc
    exact h.tracks th' c hc

lemma Inv.writing (h : s.Inv) (th : ℕ) (src : List UInt8) (timed : Bool) :
    Inv { s with writes := s.writes + 1, calls := Function.update s.calls th (some (.write s.writes src timed 0)) } := by
  have hold : ∀ th' id src' td w, Function.update s.calls th (some (.write s.writes src timed 0)) th' =
      some (.write id src' td w) → th' = th ∧ id = s.writes ∨ id < s.writes ∧ s.calls th' = some (.write id src' td w) :=
    fun th' id src' td w hc => by
      rcases eq_or_ne th' th with rfl | hne
      · rw [Function.update_self] at hc
        cases hc
        exact .inl ⟨rfl,rfl⟩
      · rw [Function.update_of_ne hne] at hc
        exact .inr ⟨(h.tracks th' _ hc).1,hc⟩
  refine ⟨h.holds,h.tail,fun x hx => (h.numbered x hx).trans (Nat.lt_succ_self _),fun th' c hc => ?_,
    fun t t' id src₁ src₂ td td' w w' ht ht' => ?_⟩
  · dsimp only at hc
    rcases eq_or_ne th' th with rfl | hne
    · rw [Function.update_self] at hc
      cases hc
      exact ⟨Nat.lt_succ_self _,Nat.zero_le _,stored_fresh (s := s) h.numbered (Nat.le_refl _)⟩
    · rw [Function.update_of_ne hne] at hc
      exact (h.tracks th' c hc).writes_succ
  · rcases hold _ _ _ _ _ ht with ⟨rfl,rfl⟩ | ⟨hlt,ht⟩ <;> rcases hold _ _ _ _ _ ht' with ⟨rfl,hid⟩ | ⟨hlt',ht'⟩
    · rfl
    · exact absurd hlt' (Nat.lt_irrefl _)
    · exact absurd hlt (hid ▸ Nat.lt_irrefl _)
    · exact h.apart t t' id src₁ src₂ td td' w w' ht ht'

lemma Inv.refs (h : s.Inv) {p : Pipe} (hring : p.ring = s.pipe.ring) (freed : Bool) :
    Inv { s with pipe := p, freed := freed } :=
  ⟨by rw [hring]; exact h.holds,by rw [hring]; exact h.tail,h.numbered,h.tracks,h.apart⟩

lemma ref_ring (p : Pipe) (which : PipeRef) : (p.ref which).ring = p.ring ∧ (p.unref which).ring = p.ring := by
  cases which <;> exact ⟨rfl,rfl⟩

lemma Inv.reads (h : s.Inv) {woken : Bool} {v : ℤ} {bytes : List UInt8} {p : Pipe} (hlen : 0 < len)
    (now : s.pipe.readTurn woken len late sigPending = .ret v bytes p) :
    Inv { s with pipe := p, got := s.got ++ bytes } ∧
      Honest { s with pipe := p, got := s.got ++ bytes } (.read len v bytes) := by
  obtain ⟨xs,hxs,hput⟩ := h.holds
  have htail : p.ring.tail < pipeBufSize := by
    rw [Pipe.readTurn_tail now]
    exact h.tail
  rcases Pipe.readTurn_ret hxs now hlen with ⟨hv,rfl,rfl⟩ | ⟨hv,hn,-,ys,rfl,hys⟩
  · rw [List.append_nil]
    refine ⟨h,fun hv' => Int.le_antisymm hv hv',fun _ => rfl,fun hzero => .inr ?_⟩
    exact Pipe.readTurn_zero hlen (hzero ▸ now)
  · refine ⟨⟨⟨ys,hys,?_⟩,htail,h.numbered,h.tracks,h.apart⟩,fun _ => hn,fun hneg => absurd hneg (by omega),
      fun hzero => absurd hzero (by omega)⟩
    rw [hput,List.append_assoc]

lemma stored_append (s : Pipeline) (id id' : ℕ) (bytes : List UInt8) (p : Pipe) (calls : ℕ → Option PipeCall) :
    stored { s with pipe := p, calls := calls, put := s.put ++ bytes.map (id,·) } id' =
      s.stored id' ++ (if id = id' then bytes else []) := by
  have hmine : (bytes.map (id,·)).filter (·.1 = id') = if id = id' then bytes.map (id,·) else [] := by
    have hfst : ∀ x ∈ bytes.map (id,·), x.1 = id := fun x hx => by
      obtain ⟨_,-,rfl⟩ := List.mem_map.mp hx
      rfl
    by_cases hid : id = id'
    · rw [if_pos hid,List.filter_eq_self.mpr fun x hx => decide_eq_true ((hfst x hx).trans hid)]
    · rw [if_neg hid,List.filter_eq_nil_iff.mpr fun x hx => by rw [hfst x hx,decide_eq_true_eq]; exact hid]
  rw [stored,List.filter_append,List.map_append,hmine]
  by_cases hid : id = id'
  · rw [if_pos hid,if_pos hid,List.map_map,stored]
    exact congrArg _ (List.map_id bytes)
  · rw [if_neg hid,if_neg hid,stored]
    rfl

lemma Inv.moves (h : s.Inv) {p : Pipe} {written' : ℕ} (hc : s.calls th = some (.write id src timed written))
    (now : s.pipe.writeTurn src written late = .moved written' p) :
    Inv { s with
      pipe := p
      calls := Function.update s.calls th (some (.write id src timed written'))
      put := s.put ++ ((src.drop written).take (written' - written)).map (id,·) } := by
  obtain ⟨xs,hxs,hput⟩ := h.holds
  obtain ⟨hid,hle,hstored⟩ := h.tracks th _ hc
  obtain ⟨hring,hlt,hle',-⟩ := Pipe.writeTurn_moves hxs now
  refine ⟨⟨_,hring,?_⟩,?_,fun x hx => ?_,fun th' c hc' => ?_,fun t t' id' src₁ src₂ td td' w w' ht ht' => ?_⟩
  · rw [List.map_append,List.map_map,hput,List.append_assoc]
    exact congrArg _ (congrArg _ (List.map_id _))
  · exact Pipe.writeTurn_tail h.tail now
  · rcases List.mem_append.mp hx with hx | hx
    · exact h.numbered x hx
    · obtain ⟨_,-,rfl⟩ := List.mem_map.mp hx
      exact hid
  · dsimp only at hc'
    rcases eq_or_ne th' th with rfl | hne
    · rw [Function.update_self] at hc'
      cases hc'
      refine ⟨hid,hle',?_⟩
      rw [stored_append,if_pos rfl,hstored,← List.take_add,Nat.add_sub_cancel' (Nat.le_of_lt hlt)]
    · rw [Function.update_of_ne hne] at hc'
      cases c with
      | read len td woken => exact h.tracks th' _ hc'
      | write id' src' td w =>
        obtain ⟨hid',hw,hst⟩ := h.tracks th' _ hc'
        have hother : id ≠ id' := fun heq => hne (h.apart th' th id' _ _ _ _ _ _ hc' (heq ▸ hc))
        refine ⟨hid',hw,?_⟩
        rw [stored_append,if_neg hother,List.append_nil]
        exact hst
  · have hold : ∀ t src' td w, Function.update s.calls th (some (.write id src timed written')) t =
        some (.write id' src' td w) → ∃ src' td w, s.calls t = some (.write id' src' td w) := fun t src' td w ht => by
      rcases eq_or_ne t th with rfl | hne
      · rw [Function.update_self] at ht
        cases ht
        exact ⟨_,_,_,hc⟩
      · rw [Function.update_of_ne hne] at ht
        exact ⟨_,_,_,ht⟩
    obtain ⟨_,_,_,ht⟩ := hold _ _ _ _ ht
    obtain ⟨_,_,_,ht'⟩ := hold _ _ _ _ ht'
    exact h.apart t t' id' _ _ _ _ _ _ ht ht'

lemma Tracks.returns {v : ℤ} (h : s.Tracks (.write id src timed written))
    (now : s.pipe.writeTurn src written late = .ret v) : s.Honest (.write id src v) := by
  obtain ⟨-,hle,hstored⟩ := h
  rcases Pipe.writeTurn_value now with rfl | ⟨rfl,hneg⟩
  · refine ⟨fun _ => ⟨?_,?_⟩,fun hneg => absurd hneg (by omega)⟩
    · rw [Int.toNat_natCast]
      exact hstored
    · rw [hstored,List.length_take_of_le hle]
  · refine ⟨fun hv => absurd hv (by omega),fun _ => ?_⟩
    rw [hstored,List.take_zero]

lemma Inv.turn (h : s.Inv) (hc : s.calls th = some c) {x : Option PipeReturn × Pipeline}
    (now : s.turn th late sigPending c = x) : x.2.Inv ∧ ∀ r, x.1 = some r → x.2.Honest r := by
  have ht := h.tracks th c hc
  cases c with
  | read len timed woken =>
    cases hr : s.pipe.readTurn woken len (timed && late) sigPending with
    | block =>
      simp only [Pipeline.turn,hr] at now
      subst now
      exact ⟨h.reading th ht timed true,fun r hr => by cases hr⟩
    | ret value bytes p =>
      simp only [Pipeline.turn,hr] at now
      subst now
      obtain ⟨hinv,hhonest⟩ := h.reads ht hr
      refine ⟨hinv.leave th,fun r hr => ?_⟩
      cases hr
      exact hhonest
  | write id src timed written =>
    cases hw : s.pipe.writeTurn src written (timed && late) with
    | ret value =>
      simp only [Pipeline.turn,hw] at now
      subst now
      refine ⟨h.leave th,fun r hr => ?_⟩
      cases hr
      exact ht.returns hw
    | block =>
      simp only [Pipeline.turn,hw] at now
      subst now
      exact ⟨h,fun r hr => by cases hr⟩
    | moved written' p =>
      simp only [Pipeline.turn,hw] at now
      subst now
      exact ⟨h.moves hc hw,fun r hr => by cases hr⟩

lemma Inv.enterRead (h : s.Inv) (th : ℕ) (null : Bool) (len : ℕ) (timed : Bool) :
    (s.enterRead th null len timed).2.Inv ∧ ∀ r, (s.enterRead th null len timed).1 = some r →
      (s.enterRead th null len timed).2.Honest r := by
  unfold Pipeline.enterRead
  split_ifs with hnull hlen
  · refine ⟨h,fun r hr => ?_⟩
    cases hr
    exact ⟨fun hv => absurd hv (by decide),fun _ => rfl,fun hv => absurd hv (by decide)⟩
  · refine ⟨h,fun r hr => ?_⟩
    cases hr
    exact ⟨fun _ => rfl,fun hv => absurd hv (by decide),fun _ => .inl hlen⟩
  · exact ⟨h.reading th (Nat.pos_of_ne_zero hlen) timed false,fun r hr => by cases hr⟩

lemma Inv.enterWrite (h : s.Inv) (th : ℕ) (null : Bool) (src : List UInt8) (timed : Bool) :
    (s.enterWrite th null src timed).2.Inv ∧ ∀ r, (s.enterWrite th null src timed).1 = some r →
      (s.enterWrite th null src timed).2.Honest r := by
  have hfresh : s.stored s.writes = [] := stored_fresh h.numbered (Nat.le_refl _)
  have hnext : Inv { s with writes := s.writes + 1 } :=
    ⟨h.holds,h.tail,fun x hx => (h.numbered x hx).trans (Nat.lt_succ_self _),
      fun th c hc => (h.tracks th c hc).writes_succ,h.apart⟩
  unfold Pipeline.enterWrite
  dsimp only
  split_ifs with hnull hlen
  · refine ⟨hnext,fun r hr => ?_⟩
    cases hr
    exact ⟨fun hv => absurd hv (by decide),fun _ => hfresh⟩
  · refine ⟨hnext,fun r hr => ?_⟩
    cases hr
    exact ⟨fun _ => ⟨hfresh,congrArg (fun l => (List.length l : ℤ)) hfresh⟩,fun hv => absurd hv (by decide)⟩
  · exact ⟨h.writing th src timed,fun r hr => by cases hr⟩

lemma Inv.step (h : s.Inv) (now : s.step e = some (ret,s')) : s'.Inv ∧ ∀ r, ret = some r → s'.Honest r := by
  unfold Pipeline.step at now
  split at now
  · cases now
  cases e with
  | read th null len timed =>
    dsimp only at now
    split at now
    · cases now
    · have hx := h.enterRead th null len timed
      rw [Option.some.inj now] at hx
      exact hx
  | write th null src timed =>
    dsimp only at now
    split at now
    · cases now
    · have hx := h.enterWrite th null src timed
      rw [Option.some.inj now] at hx
      exact hx
  | turn th late sigPending =>
    obtain ⟨c,hc,hx⟩ := Option.map_eq_some_iff.mp now
    exact h.turn hc hx
  | ref which =>
    cases now
    exact ⟨h.refs (ref_ring _ which).1 s.freed,fun r hr => by cases hr⟩
  | unref which =>
    cases now
    exact ⟨h.refs (ref_ring _ which).2 _,fun r hr => by cases hr⟩

/-- The counters of the ring fit it, and it holds what was stored and not yet copied out. -/
structure Fifo (s : Pipeline) : Prop where
  count : s.pipe.ring.count ≤ pipeBufSize
  tail : s.pipe.ring.tail = (s.pipe.ring.head + s.pipe.ring.count) % pipeBufSize
  order : s.got ++ s.pipe.ring.contents = s.put.map Prod.snd

lemma Inv.fifo (h : s.Inv) : s.Fifo := by
  obtain ⟨xs,hxs,hput⟩ := h.holds
  refine ⟨?_,?_,by rw [hxs.contents,hput]⟩
  · rw [hxs.count]
    exact hxs.fits
  · have ht := hxs.tail
    rwa [Nat.mod_eq_of_lt h.tail,← hxs.count] at ht

/-- In every run from the allocation on the bytes leave the pipe in the order in which they came in, and every
call that returns tells the truth. -/
theorem fifo_run {buf : Fin pipeBufSize → UInt8} (run : Runs step (fun _ _ => True) (initial buf) es s) :
    s.Fifo ∧ ∀ e ret s', s.step e = some (ret,s') → ∀ r, ret = some r → s'.Honest r := by
  have hinv : s.Inv := run.invariant (fun _ _ _ _ hs _ now => (Inv.step hs now).1) (.initial buf)
  exact ⟨hinv.fifo,fun e ret s' now => (hinv.step now).2⟩

theorem fifo_run_partial : ∃ s, (Runs step (fun _ _ => True) (initial fun _ => 0)
      [.write 1 false [1,2,3] false,.turn 1 false false,.read 2 false 2 true,.turn 2 true false,.unref .w] s ∧
    s.got = [1,2]) ∧ s.Fifo := by
  have run : Runs step (fun _ _ => True) (initial fun _ => 0)
    [.write 1 false [1,2,3] false,.turn 1 false false,.read 2 false 2 true,.turn 2 true false,.unref .w] _ := .of_execute rfl
  exact ⟨_,⟨run,rfl⟩,(fifo_run run).1⟩

/-- Errors and reads of nothing: a write to a pipe that no one reads returns an error, which is not a number of
bytes, and a read of no bytes returns zero whatever the pipe holds. -/
theorem fifo_exceptions :
    (∃ s s', Runs step (fun _ _ => True) (initial fun _ => 0) [.write 1 false [7] false,.unref .r] s ∧
      s.step (.turn 1 false false) = some (some (.write 0 [7] (-32)),s') ∧ ((s'.stored 0).length : ℤ) ≠ -32) ∧
    ∃ s s', Runs step (fun _ _ => True) (initial fun _ => 0) [.write 1 false [7] false,.turn 1 false false] s ∧
      s.step (.read 2 false 0 false) = some (some (.read 0 0 []),s') ∧ s'.pipe.ring.count = 1 ∧ s'.pipe.wRefs = 1 :=
  ⟨⟨_,_,.of_execute rfl,rfl,by decide⟩,⟨_,_,.of_execute rfl,rfl,rfl,rfl⟩⟩

end Pipeline
end VibeOS.Userfs

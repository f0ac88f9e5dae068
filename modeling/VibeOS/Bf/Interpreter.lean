import VibeOS.Widths
import Mathlib.Logic.Function.Basic
import Mathlib.Data.List.Basic

/-! `bf.c`: the table of jumps and the loop that runs a program, against the meaning of its loops. -/
namespace VibeOS.Bf

open List Function

abbrev Bytes := List UInt8

def tapeCells : ℕ := 30000

/-- The pointer is always on the tape. Behind the last byte of `input` is the end of file. -/
structure State where
  tape : Fin tapeCells → UInt8
  dp : Fin tapeCells
  input : Bytes
  output : Bytes

/-- What `die` is called for. -/
inductive Death
  | noTable | closing | opening | right | left
deriving DecidableEq

/-- What is there in the end, or why the program died and what it had written. -/
abbrev Outcome := Except (Death × Bytes) State

def State.cell (s : State) : UInt8 := s.tape s.dp

def State.put (s : State) (v : UInt8) : State := { s with tape := update s.tape s.dp v }

/-- The cases of the `switch` but the brackets. -/
def State.act (s : State) (op : UInt8) : Outcome :=
  if op = 62 then
    if h : s.dp + 1 < tapeCells then .ok { s with dp := ⟨s.dp + 1,h⟩ } else .error (.right,s.output)
  else if op = 60 then
    if s.dp.val = 0 then .error (.left,s.output)
    else .ok { s with dp := ⟨s.dp - 1,(Nat.sub_le ..).trans_lt s.dp.isLt⟩ }
  else if op = 43 then .ok (s.put (s.cell + 1))
  else if op = 45 then .ok (s.put (s.cell - 1))
  else if op = 46 then .ok { s with output := s.output ++ [s.cell] }
  else if op = 44 then
    match s.input with
    | [] => .ok s
    | c :: input => .ok { s.put c with input := input }
  else .ok s

/-- The second loop of `compute_jumps` from the byte `i` on; `st` is its stack. -/
def jumpsLoop : Bytes → ℕ → List ℕ → (ℕ → ℤ) → Except Death (ℕ → ℤ)
  | [], _, st, jump => if st = [] then .ok jump else .error .opening
  | c :: cs, i, st, jump =>
    if c = 91 then jumpsLoop cs (i + 1) (i :: st) jump
    else if c = 93 then
      match st with
      | [] => .error .closing
      | o :: st => jumpsLoop cs (i + 1) st (update (update jump o i) i o)
    else jumpsLoop cs (i + 1) st jump

/-- `malloc` has no room of no bytes to give. -/
def computeJumps (prog : Bytes) : Except Death (ℕ → ℤ) :=
  if prog = [] then .error .noTable else jumpsLoop prog 0 [] fun _ => -1

/-- The loop of `run`, for as many turns as there is fuel. No bracket has -1 in the table. -/
def run (prog : Bytes) (jump : ℕ → ℤ) : ℕ → ℕ → State → Option Outcome
  | 0, _, _ => none
  | fuel+1, ip, s =>
    match prog[ip]? with
    | none => some (.ok s)
    | some op =>
      if op = 91 then run prog jump fuel ((if s.cell = 0 then (jump ip).toNat else ip) + 1) s
      else if op = 93 then run prog jump fuel ((if s.cell ≠ 0 then (jump ip).toNat else ip) + 1) s
      else
        match s.act op with
        | .error e => some (.error e)
        | .ok s => run prog jump fuel (ip + 1) s

/-- No bracket. -/
abbrev Op := {c : UInt8 // c ≠ 91 ∧ c ≠ 93}

inductive Code
  | nil
  | op (c : Op) (next : Code)
  | loop (body next : Code)

def Code.text : Code → Bytes
  | .nil => []
  | .op c next => c.1 :: next.text
  | .loop body next => 91 :: (body.text ++ 93 :: next.text)

/-- A loop runs its body again as long as the cell it comes back to is not zero. -/
inductive Exec : Code → State → Outcome → Prop
  | done {s : State} : Exec .nil s (.ok s)
  | dies {c : Op} {next : Code} {s : State} {e : Death × Bytes} (h : s.act c.1 = .error e) :
    Exec (.op c next) s (.error e)
  | op {c : Op} {next : Code} {s s' : State} {r : Outcome} (h : s.act c.1 = .ok s') (after : Exec next s' r) :
    Exec (.op c next) s r
  | skip {body next : Code} {s : State} {r : Outcome} (h : s.cell = 0) (after : Exec next s r) :
    Exec (.loop body next) s r
  | inside {body next : Code} {s : State} {e : Death × Bytes} (h : s.cell ≠ 0) (now : Exec body s (.error e)) :
    Exec (.loop body next) s (.error e)
  | again {body next : Code} {s s' : State} {r : Outcome} (h : s.cell ≠ 0) (now : Exec body s (.ok s'))
      (after : Exec (.loop body next) s' r) : Exec (.loop body next) s r

variable {c : Op} {code : Code} {s : State} {r r' : Outcome} {prog cs rest : Bytes} {i k e : ℕ} {st : List ℕ} {jump J : ℕ → ℤ}

/-- What is written and off the stack stays. -/
lemma jumpsLoop_frame (h : jumpsLoop cs i st jump = .ok J) (hst : ∀ o ∈ st, o < i) {p : ℕ} (hp : p < i)
    (hno : p ∉ st) : J p = jump p := by
  induction cs generalizing i st jump with
  | nil =>
    simp only [jumpsLoop] at h
    split_ifs at h
    cases h
    rfl
  | cons c cs ih =>
    simp only [jumpsLoop] at h
    split_ifs at h
    · apply ih h
      · simpa using fun o ho => Nat.lt_succ_of_lt (hst o ho)
      · exact Nat.lt_succ_of_lt hp
      · simpa using ⟨hp.ne,hno⟩
    · cases st with
      | nil => cases h
      | cons o st =>
        simp only [mem_cons,not_or] at hno
        simp only [ih h (fun x hx => Nat.lt_succ_of_lt (hst x (mem_cons_of_mem _ hx))) (Nat.lt_succ_of_lt hp) hno.2,
          update_of_ne hp.ne,update_of_ne hno.1]
    · exact ih h (fun o ho => Nat.lt_succ_of_lt (hst o ho)) (Nat.lt_succ_of_lt hp) hno

/-- The code stands at `i`, ends at `e`, and the brackets of its loops know each other. -/
def Placed (prog : Bytes) (jump : ℕ → ℤ) : ℕ → Code → ℕ → Prop
  | i, .nil, e => e = i
  | i, .op c next, e => prog[i]? = some c.1 ∧ Placed prog jump (i + 1) next e
  | i, .loop body next, e => ∃ k : ℕ, prog[i]? = some 91 ∧ Placed prog jump (i + 1) body k ∧ prog[k]? = some 93 ∧
      jump i = k ∧ jump k = i ∧ Placed prog jump (k + 1) next e

lemma drop_cons {c : UInt8} (h : prog.drop i = c :: cs) : prog[i]? = some c ∧ prog.drop (i + 1) = cs := by
  constructor
  · have : (prog.drop i)[0]? = some c := by rw [h]; rfl
    rwa [getElem?_drop] at this
  · simpa [drop_drop] using congrArg (drop 1) h

lemma jumpsLoop_text (code : Code) (rest : Bytes) (i : ℕ) (st : List ℕ) (jump : ℕ → ℤ) : ∃ jump',
    jumpsLoop (code.text ++ rest) i st jump = jumpsLoop rest (i + code.text.length) st jump' := by
  induction code generalizing rest i st jump with
  | nil => exact ⟨jump,by simp [Code.text]⟩
  | op c next ih =>
    obtain ⟨J,h⟩ := ih rest (i + 1) st jump
    exact ⟨J,by simp [Code.text,jumpsLoop,c.2,h,Nat.add_assoc,Nat.add_comm 1]⟩
  | loop body next now after =>
    obtain ⟨J,h⟩ := now (93 :: (next.text ++ rest)) (i + 1) (i :: st) jump
    obtain ⟨J',h'⟩ := after rest (i + 1 + body.text.length + 1) st
      (update (update J i ↑(i + 1 + body.text.length)) (i + 1 + body.text.length) i)
    refine ⟨J',?_⟩
    simp only [Code.text,cons_append,append_assoc,jumpsLoop,if_pos,h,length_cons,length_append]
    rw [if_neg (by decide),h']
    simp only [Nat.add_assoc,Nat.add_comm,Nat.add_left_comm]

lemma raise (hst : (i :: st).Pairwise (· > ·)) (hk : i ≤ k) : (k :: st).Pairwise (· > ·) :=
  pairwise_cons.2 ⟨fun o ho => ((pairwise_cons.1 hst).1 o ho).trans_le hk,(pairwise_cons.1 hst).2⟩

lemma placed (h : jumpsLoop (code.text ++ rest) i st jump = .ok J) (hst : (i :: st).Pairwise (· > ·))
    (hp : prog.drop i = code.text ++ rest) : Placed prog J i code (i + code.text.length) ∧
    prog.drop (i + code.text.length) = rest ∧ ∃ jump', jumpsLoop rest (i + code.text.length) st jump' = .ok J := by
  induction code generalizing rest i st jump with
  | nil => exact ⟨rfl,hp,jump,h⟩
  | op c next ih =>
    simp only [Code.text,cons_append,jumpsLoop,c.2.1,c.2.2,if_false] at h hp
    obtain ⟨hat,hp⟩ := drop_cons hp
    have := ih h (raise hst i.le_succ) hp
    rw [Nat.add_right_comm] at this
    exact ⟨⟨hat,this.1⟩,this.2⟩
  | loop body next now after =>
    simp only [Code.text,cons_append,append_assoc,jumpsLoop,if_pos] at h hp
    obtain ⟨hat,hp⟩ := drop_cons hp
    have hbelow : ∀ o ∈ st, o < i := (pairwise_cons.1 hst).1
    have hpush : ((i + 1) :: i :: st).Pairwise (· > ·) :=
      pairwise_cons.2 ⟨by simpa using fun o ho => Nat.lt_succ_of_lt (hbelow o ho),hst⟩
    obtain ⟨hb,hp,J1,h⟩ := now h hpush hp
    obtain ⟨hclose,hp⟩ := drop_cons hp
    have hlt : i < i + 1 + body.text.length := by omega
    have hlow : ∀ o ∈ st, o < i + 1 + body.text.length + 1 := by
      intro o ho
      have := hbelow o ho
      omega
    rw [jumpsLoop,if_neg (by decide),if_pos rfl] at h
    have hopen : J i = ↑(i + 1 + body.text.length) := by
      simpa [update_of_ne hlt.ne] using jumpsLoop_frame h hlow (Nat.lt_succ_of_lt hlt) fun ho => (hbelow i ho).false
    have hback : J (i + 1 + body.text.length) = i := by
      simpa using jumpsLoop_frame h hlow (Nat.lt_succ_self _) fun ho => by have := hbelow _ ho; omega
    have hrest := after h (raise hst (by omega)) hp
    have hend : i + 1 + body.text.length + 1 + next.text.length = i + (Code.loop body next).text.length := by
      simp [Code.text]; omega
    rw [hend] at hrest
    exact ⟨⟨_,hat,hb,hclose,hopen,hback,hrest.1⟩,hrest.2⟩

lemma parsed (h : jumpsLoop cs i st jump = .ok J) : ∃ (code : Code) (rest : Bytes), cs = code.text ++ rest ∧
    (rest = [] ∧ st = [] ∨ ∃ (cs' : Bytes) (o : ℕ) (st' : List ℕ) (i' : ℕ) (jump' : ℕ → ℤ), rest = 93 :: cs' ∧
      st = o :: st' ∧ jumpsLoop cs' i' st' jump' = .ok J) := by
  induction hn : cs.length using Nat.strong_induction_on generalizing cs i st jump with
  | h n ih =>
    cases cs with
    | nil =>
      simp only [jumpsLoop] at h
      split_ifs at h with hst
      exact ⟨.nil,[],rfl,.inl ⟨rfl,hst⟩⟩
    | cons c cs =>
      simp only [jumpsLoop] at h
      split_ifs at h with ho hc
      · subst ho
        obtain ⟨body,rest,rfl,hstop⟩ := ih cs.length (by simp at hn; omega) h rfl
        obtain ⟨_,hst⟩ | ⟨cs',o,st',i',jump',rfl,hst,h⟩ := hstop
        · cases hst
        · cases hst
          obtain ⟨next,rest,rfl,hstop⟩ := ih cs'.length (by simp at hn; omega) h rfl
          exact ⟨.loop body next,rest,by simp [Code.text],hstop⟩
      · subst hc
        cases st with
        | nil => cases h
        | cons o st => exact ⟨.nil,_,rfl,.inr ⟨_,_,_,_,_,rfl,rfl,h⟩⟩
      · obtain ⟨next,rest,rfl,hstop⟩ := ih cs.length (by simp at hn; omega) h rfl
        exact ⟨.op ⟨c,ho,hc⟩ next,rest,rfl,hstop⟩

/-- Not a program is refused but the empty one and those whose brackets do not match. -/
theorem computeJumps_ok_iff (prog : Bytes) :
    (∃ J, computeJumps prog = .ok J) ↔ prog ≠ [] ∧ ∃ code : Code, code.text = prog := by
  constructor
  · rintro ⟨J,h⟩
    rw [computeJumps] at h
    split_ifs at h with hne
    obtain ⟨code,rest,hp,⟨rfl,-⟩ | ⟨_,_,_,_,_,_,hst,_⟩⟩ := parsed h
    · exact ⟨hne,code,by simp [hp]⟩
    · cases hst
  · rintro ⟨hne,code,rfl⟩
    obtain ⟨J,h⟩ := jumpsLoop_text code [] 0 [] fun _ => -1
    exact ⟨J,by simpa [computeJumps,hne,jumpsLoop] using h⟩

/-- What comes of an outcome at the byte `e`, within the fuel. -/
def Finish (prog : Bytes) (jump : ℕ → ℤ) (e bound : ℕ) : Outcome → Outcome → Prop
  | .error d, r' => r' = .error d
  | .ok s, r' => ∃ fuel ≤ bound, run prog jump fuel e s = some r'

lemma Finish.mono {bound bound' : ℕ} (hle : bound ≤ bound') (h : Finish prog J e bound r r') :
    Finish prog J e bound' r r' := by
  cases r with
  | error d => exact h
  | ok s =>
    obtain ⟨fuel,hf,h⟩ := h
    exact ⟨fuel,hf.trans hle,h⟩

lemma run_op (h : prog[i]? = some c.1) (fuel : ℕ) :
    run prog J (fuel + 1) i s =
      (s.act c.1).casesOn (fun d => some (.error d)) fun s => run prog J fuel (i + 1) s := by
  simp only [run,h,c.2.1,c.2.2,if_false]
  cases s.act c.1 <;> rfl

lemma run_open (h : prog[i]? = some 91) (hj : J i = k) (fuel : ℕ) :
    run prog J (fuel + 1) i s = run prog J fuel (if s.cell = 0 then k + 1 else i + 1) s := by
  simp only [run,h,hj,if_pos,Int.toNat_natCast]
  split_ifs <;> rfl

/-- Behind its body a loop goes on as if it began there. -/
lemma run_close (ho : prog[i]? = some 91) (hc : prog[k]? = some 93) (hi : J i = k) (hk : J k = i)
    (fuel : ℕ) : run prog J fuel k s = run prog J fuel i s := by
  cases fuel with
  | zero => rfl
  | succ fuel =>
    rw [run_open ho hi,run,hc]
    have hno : (93 : UInt8) ≠ 91 := by decide
    simp only [hk,Int.toNat_natCast,ne_eq,ite_not,hno,if_false,if_true]
    split_ifs <;> rfl

lemma run_of_exec {n : ℕ} (h : Exec code s r) (hp : Placed prog J i code e) (hf : Finish prog J e n r r') :
    ∃ fuel, run prog J fuel i s = some r' := by
  induction h generalizing i e n with
  | done =>
    obtain ⟨fuel,-,h⟩ := hf
    cases hp
    exact ⟨fuel,h⟩
  | dies h =>
    cases hf
    exact ⟨1,by rw [run_op hp.1,h]⟩
  | op h _ ih =>
    obtain ⟨fuel,hr⟩ := ih hp.2 hf
    exact ⟨fuel + 1,by rw [run_op hp.1,h]; exact hr⟩
  | skip h _ ih =>
    obtain ⟨k,ho,-,-,hi,-,hn⟩ := hp
    obtain ⟨fuel,hr⟩ := ih hn hf
    exact ⟨fuel + 1,by rwa [run_open ho hi,if_pos h]⟩
  | inside h _ ih =>
    obtain ⟨k,ho,hb,-,hi,-⟩ := hp
    cases hf
    obtain ⟨fuel,hr⟩ := ih (n := n) hb rfl
    exact ⟨fuel + 1,by rwa [run_open ho hi,if_neg h]⟩
  | again h _ _ now after =>
    obtain ⟨fuel,hr⟩ := after hp hf
    obtain ⟨k,ho,hb,hc,hi,hk,-⟩ := hp
    rw [← run_close ho hc hi hk] at hr
    obtain ⟨fuel,hr⟩ := now hb ⟨fuel,le_rfl,hr⟩
    exact ⟨fuel + 1,by rwa [run_open ho hi,if_neg h]⟩

lemma exec_of_run {fuel : ℕ} (hr : run prog J fuel i s = some r') (hp : Placed prog J i code e) :
    ∃ r, Exec code s r ∧ Finish prog J e fuel r r' := by
  induction fuel using Nat.strong_induction_on generalizing i s code e with
  | h fuel ih =>
    cases code with
    | nil =>
      cases hp
      exact ⟨.ok s,.done,fuel,le_rfl,hr⟩
    | op c next =>
      cases fuel with
      | zero => cases hr
      | succ fuel =>
        rw [run_op hp.1] at hr
        cases ha : s.act c.1 with
        | error d =>
          rw [ha] at hr
          exact ⟨_,.dies ha,(Option.some.inj hr).symm⟩
        | ok s' =>
          rw [ha] at hr
          obtain ⟨r,hx,hf⟩ := ih fuel fuel.lt_succ_self hr hp.2
          exact ⟨r,.op ha hx,hf.mono fuel.le_succ⟩
    | loop body next =>
      obtain ⟨k,ho,hb,hc,hi,hk,hn⟩ := id hp
      cases fuel with
      | zero => cases hr
      | succ fuel =>
        rw [run_open ho hi] at hr
        split_ifs at hr with hz
        · obtain ⟨r,hx,hf⟩ := ih fuel fuel.lt_succ_self hr hn
          exact ⟨r,.skip hz hx,hf.mono fuel.le_succ⟩
        · obtain ⟨r,hx,hf⟩ := ih fuel fuel.lt_succ_self hr hb
          cases r with
          | error d => exact ⟨_,.inside hz hx,hf⟩
          | ok s' =>
            obtain ⟨fuel',hle,hr⟩ := hf
            rw [run_close ho hc hi hk] at hr
            obtain ⟨r,hx',hf⟩ := ih fuel' (Nat.lt_succ_of_le hle) hr hp
            exact ⟨r,.again hz hx hx',hf.mono (hle.trans fuel.le_succ)⟩

/-- The jumps that are worked out in advance run every loop as the language has it. -/
theorem run_iff_exec (code : Code) (hne : code.text ≠ []) : ∃ J, computeJumps code.text = .ok J ∧
    ∀ (s : State) (r : Outcome), (∃ fuel, run code.text J fuel 0 s = some r) ↔ Exec code s r := by
  obtain ⟨jump,h⟩ := jumpsLoop_text code [] 0 [] fun _ => -1
  have hloop : jumpsLoop (code.text ++ []) 0 [] (fun _ => -1) = .ok jump := h
  refine ⟨jump,by simpa [computeJumps,hne] using hloop,fun s r => ?_⟩
  have hp := (placed hloop (pairwise_singleton ..) (append_nil _).symm).1
  rw [Nat.zero_add] at hp
  have hend (bound : ℕ) (r r' : Outcome) (h : Finish code.text jump code.text.length bound r r') : r = r' := by
    cases r with
    | error d => exact Eq.symm h
    | ok s =>
      obtain ⟨fuel,-,h⟩ := h
      cases fuel with
      | zero => cases h
      | succ fuel => simpa [run] using h
  constructor
  · rintro ⟨fuel,hr⟩
    obtain ⟨r',hx,hf⟩ := exec_of_run hr hp
    exact hend _ _ _ hf ▸ hx
  · intro hx
    apply run_of_exec hx hp (n := 1)
    cases r with
    | error d => rfl
    | ok s => exact ⟨1,le_rfl,by simp [run]⟩

/-- A program that only steps to the left of the tape dies there. -/
theorem run_iff_exec_left : (Code.op ⟨60,by decide⟩ .nil).text ≠ [] ∧
    ∃ J, computeJumps [60] = .ok J ∧ ∃ fuel, run [60] J fuel 0 ⟨fun _ => 0,⟨0,by decide⟩,[],[]⟩ = some (.error (.left,[])) := by
  obtain ⟨J,h,hr⟩ := run_iff_exec (.op ⟨60,by decide⟩ .nil) (by simp [Code.text])
  exact ⟨by simp [Code.text],J,h,(hr _ _).2 (.dies rfl)⟩

end VibeOS.Bf

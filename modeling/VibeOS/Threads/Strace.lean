import VibeOS.Widths
import Mathlib.Data.List.Nodup
import Mathlib.Data.List.Pairwise

/-! The trace ring of `strace.c`: one traced thread and one reader, whose statements interleave in any order. -/
namespace VibeOS.Strace
open List Option

/-- Where the traced thread is: between two calls, behind the statement of `idx`, in the branch of a full ring in front of `lost++` and of `tail++`,
in front of the store of field `j`, of `head++`, of `ret` and of `completed`. -/
inductive Writer where
  | idle
  | entered
  | dropping
  | counted
  | write (j : ℕ)
  | bump
  | running
  | stamp
  deriving DecidableEq

/-- Where the reader is, with its local copies of `head` and `tail`: in front of the read of `tail`, of `lost`, of the test of `lost`, of `r->lost = 0`,
of the loop condition, of the next field or of `completed`, of `ret`, and of `r->tail = tail`. -/
inductive Reader where
  | idle
  | tail (h : ℕ)
  | lost (h t : ℕ)
  | report (h t l : ℕ)
  | clear (h t : ℕ)
  | loop (h t : ℕ)
  | words (h t : ℕ) (ws : List ℕ)
  | ret (h t : ℕ) (ws : List ℕ)
  | store (t : ℕ)

/-- What is written to the output: a number of lost entries, or an entry with its time, number and arguments, and the value it shows. -/
inductive Item where
  | lost (n : ℕ)
  | entry (ws : List ℕ) (ret : Option ℕ)

/-- Fields 0 to 7 of an entry are `ts_ms`, `syscall_no` and `args`, 8 is `ret` and 9 is `completed`. `calls` counts the entries made. -/
structure St where
  head : ℕ
  tail : ℕ
  lost : ℕ
  slots : ℕ → ℕ → ℕ
  calls : ℕ
  slot : ℕ
  w : Writer
  r : Reader
  out : List Item

/-- Behind `strace_enable`. -/
def St.start : St := ⟨0,0,0,fun _ _ => 0,0,0,.idle,.idle,[]⟩

/-- `head - tail` -/
def St.used (s : St) : ℕ := (s.head + 2^32 - s.tail) % 2^32

def setField (slots : ℕ → ℕ → ℕ) (a j v : ℕ) : ℕ → ℕ → ℕ := fun b i => if b = a ∧ i = j then v else slots b i

/-- `word k j` is field `j` of the `k`th call, `ret k` what it returns. -/
structure Calls where
  word : ℕ → ℕ → ℕ
  ret : ℕ → ℕ

/-- What `strace_enter` stores. -/
def Calls.field (c : Calls) (k j : ℕ) : ℕ := if j < 8 then c.word k j else 0

def writer (c : Calls) (s : St) : St :=
  match s.w with
  | .idle => { s with slot := s.head % 64, w := .entered }
  | .entered => if 64 ≤ s.used then { s with w := .dropping } else { s with w := .write 0 }
  | .dropping => { s with lost := (s.lost + 1) % 2^32, w := .counted }
  | .counted => { s with tail := (s.tail + 1) % 2^32, w := .write 0 }
  | .write j => { s with slots := setField s.slots s.slot j (c.field s.calls j), w := if j = 9 then .bump else .write (j+1) }
  | .bump => { s with head := (s.head + 1) % 2^32, calls := s.calls + 1, w := .running }
  | .running => { s with slots := setField s.slots s.slot 8 (c.ret (s.calls - 1)), w := .stamp }
  | .stamp => { s with slots := setField s.slots s.slot 9 1, w := .idle }

/-- One statement of the reader; with `stop` it finds its output full. -/
def reader (stop : Bool) (s : St) : St :=
  match s.r with
  | .idle => { s with r := .tail s.head }
  | .tail h => { s with r := .lost h s.tail }
  | .lost h t => { s with r := .report h t s.lost }
  | .report h t l => if l ≠ 0 then { s with out := s.out ++ [.lost l], r := .clear h t } else { s with r := .loop h t }
  | .clear h t => { s with lost := 0, r := .loop h t }
  | .loop h t => if t = h ∨ stop = true then { s with r := .store t } else { s with r := .words h t [] }
  | .words h t ws =>
    if ws.length < 8 then { s with r := .words h t (ws ++ [s.slots (t % 64) ws.length]) }
    else if s.slots (t % 64) 9 ≠ 0 then { s with r := .ret h t ws }
    else { s with out := s.out ++ [.entry ws none], r := .loop h ((t + 1) % 2^32) }
  | .ret h t ws => { s with out := s.out ++ [.entry ws (some (s.slots (t % 64) 8))], r := .loop h ((t + 1) % 2^32) }
  | .store t => { s with tail := t, r := .idle }

/-- Whose statement comes next. -/
inductive Move where
  | writer
  | reader (stop : Bool)

def step (c : Calls) (m : Move) (s : St) : St :=
  match m with
  | .writer => writer c s
  | .reader stop => reader stop s

def run (c : Calls) : List Move → St → St
  | [],s => s
  | m :: ms,s => run c ms (step c m s)

def entriesOf (out : List Item) : List (List ℕ × Option ℕ) := out.filterMap fun i =>
  match i with
  | .entry ws ret => some (ws,ret)
  | .lost _ => none

def reported (out : List Item) : ℕ := (out.map fun i =>
  match i with
  | .lost n => n
  | .entry _ _ => 0).sum

/-- The entry is the one of call `k`. -/
def Shows (c : Calls) (k : ℕ) (e : List ℕ × Option ℕ) : Prop := e.1 = (List.range 8).map (c.word k) ∧ ∀ v, e.2 = some v → v = c.ret k

/-- No loss is between its count and the move of `tail`, or reported and not yet cleared. -/
def Settled (s : St) : Prop := s.w ≠ .counted ∧ ∀ h t, s.r ≠ .clear h t

/-- The reader is not in a call while the traced thread finds the ring full and drops an entry, and `lost` does not wrap around. -/
def StepOk (m : Move) (s : St) : Prop :=
  match m with
  | .writer => (s.w = .entered → 64 ≤ s.used → s.r = .idle) ∧ (s.w = .dropping → s.lost + 1 < 2^32)
  | .reader _ => s.r = .idle → s.w ≠ .dropping ∧ s.w ≠ .counted

def RunOk (c : Calls) : List Move → St → Prop
  | [],_ => True
  | m :: ms,s => StepOk m s ∧ RunOk c ms (step c m s)

section
variable (c : Calls)

/-- The slot of call `k` holds it. -/
def HoldsCall (slots : ℕ → ℕ → ℕ) (k : ℕ) : Prop := (∀ j < 8, slots (k % 64) j = c.word k j) ∧ (slots (k % 64) 9 ≠ 0 → slots (k % 64) 8 = c.ret k)

def WriterAt (s : St) (T : ℕ) : Prop :=
  match s.w with
  | .idle => True
  | .entered => s.slot = s.calls % 64
  | .dropping => s.slot = s.calls % 64 ∧ s.calls = T + 64 ∧ s.r = .idle
  | .counted => s.slot = s.calls % 64 ∧ s.calls = T + 64 ∧ s.r = .idle
  | .write j => s.slot = s.calls % 64 ∧ s.calls < T + 64 ∧ j ≤ 9 ∧ ∀ i < j, s.slots s.slot i = c.field s.calls i
  | .bump => s.slot = s.calls % 64 ∧ s.calls < T + 64 ∧ ∀ i < 10, s.slots s.slot i = c.field s.calls i
  | .running => 0 < s.calls ∧ s.slot = (s.calls - 1) % 64 ∧ s.slots s.slot 9 = 0
  | .stamp => 0 < s.calls ∧ s.slot = (s.calls - 1) % 64 ∧ s.slots s.slot 9 = 0 ∧ s.slots s.slot 8 = c.ret (s.calls - 1)

/-- The local copies are the `head` of some moment and the place `R` up to which everything was shown. -/
def Copies (s : St) (R h t : ℕ) : Prop := (∃ H, h = H % 2^32 ∧ R ≤ H ∧ H ≤ s.calls) ∧ t = R % 2^32

def Ahead (s : St) (R h t : ℕ) : Prop := (∃ H, h = H % 2^32 ∧ R < H ∧ H ≤ s.calls) ∧ t = R % 2^32

def ReaderAt (s : St) (T R : ℕ) : Prop :=
  match s.r with
  | .idle => R = T
  | .tail h => R = T ∧ ∃ H, h = H % 2^32 ∧ R ≤ H ∧ H ≤ s.calls
  | .lost h t => R = T ∧ Copies s R h t
  | .report h t l => R = T ∧ Copies s R h t ∧ l = s.lost
  | .clear h t => R = T ∧ Copies s R h t
  | .loop h t => Copies s R h t
  | .words h t ws => Ahead s R h t ∧ R < s.calls ∧ ws.length ≤ 8 ∧ ws = (List.range ws.length).map (c.word R)
  | .ret h t ws => Ahead s R h t ∧ R < s.calls ∧ ws = (List.range 8).map (c.word R) ∧ s.slots (R % 64) 9 ≠ 0
  | .store t => t = R % 2^32

/-- What is counted in `lost` beside the lost calls that are not reported. -/
def pending (s : St) : ℕ :=
  (if s.w = .counted then 1 else 0) + match s.r with
    | .clear _ _ => s.lost
    | _ => 0

/-- `T` calls are out of the ring and `R` out of it or shown; the calls `ks` were shown and the calls `ls` dropped. -/
structure Inv (s : St) (T R : ℕ) (ks ls : List ℕ) : Prop where
  head : s.head = s.calls % 2^32
  tail : s.tail = T % 2^32
  le : T ≤ R
  made : R ≤ s.calls
  cap : s.calls ≤ T + 64
  held : ∀ k, T ≤ k → k < s.calls → HoldsCall c s.slots k
  writer : WriterAt c s T
  reader : ReaderAt c s T R
  sorted : ks.Pairwise (· < ·)
  shown : List.Forall₂ (Shows c) ks (entriesOf s.out)
  all : (ks ++ ls).Perm (List.range R)
  gone : ∀ k ∈ ls, k < T
  count : reported s.out + s.lost = ls.length + pending s

variable {c}
variable {s : St} {T R : ℕ} {ks ls : List ℕ}

lemma Inv.used (h : Inv c s T R ks ls) : s.used = s.calls - T := by
  have hle := Nat.le_trans h.le h.made
  have hcap := h.cap
  unfold St.used
  rw [h.head,h.tail]
  omega

lemma HoldsCall.other {slots : ℕ → ℕ → ℕ} {k a : ℕ} (h : HoldsCall c slots k) (ha : a ≠ k % 64) (j v : ℕ) :
    HoldsCall c (setField slots a j v) k := by
  have hsame (i : ℕ) : setField slots a j v (k % 64) i = slots (k % 64) i := if_neg fun h => ha h.1.symm
  unfold HoldsCall
  simp only [hsame]
  exact h


lemma ReaderAt.setField {a j v : ℕ} {w : Writer} (h : ReaderAt c s T R) (hkeep : s.slots (R % 64) 9 ≠ 0 → R < s.calls →
    setField s.slots a j v (R % 64) 9 ≠ 0) : ReaderAt c { s with slots := setField s.slots a j v, w := w } T R := by
  unfold ReaderAt at h ⊢
  cases hr : s.r with
  | ret x t ws =>
    rw [hr] at h
    dsimp only at h ⊢
    exact ⟨h.1,h.2.1,h.2.2.1,hkeep h.2.2.2 h.2.1⟩
  | _ =>
    rw [hr] at h
    exact h

lemma Inv.setWriter (h : Inv c s T R ks ls) {a : ℕ} {w : Writer} (hw : WriterAt c { s with slot := a, w := w } T)
    (hold : s.w ≠ .counted) (hnew : w ≠ .counted) : Inv c { s with slot := a, w := w } T R ks ls := by
  refine ⟨h.head,h.tail,h.le,h.made,h.cap,h.held,hw,h.reader,h.sorted,h.shown,h.all,h.gone,?_⟩
  have hcount := h.count
  unfold pending at hcount ⊢
  rw [if_neg hold] at hcount
  rw [if_neg hnew]
  exact hcount

lemma Inv.setSlot (h : Inv c s T R ks ls) {a j v : ℕ} {w : Writer} (hw : WriterAt c { s with slots := setField s.slots a j v, w := w } T)
    (hold : s.w ≠ .counted) (hnew : w ≠ .counted) (hheld : ∀ k, T ≤ k → k < s.calls → HoldsCall c (setField s.slots a j v) k)
    (hkeep : s.slots (R % 64) 9 ≠ 0 → R < s.calls → setField s.slots a j v (R % 64) 9 ≠ 0) :
    Inv c { s with slots := setField s.slots a j v, w := w } T R ks ls := by
  refine ⟨h.head,h.tail,h.le,h.made,h.cap,hheld,hw,h.reader.setField hkeep,h.sorted,h.shown,h.all,h.gone,?_⟩
  have hcount := h.count
  unfold pending at hcount ⊢
  rw [if_neg hold] at hcount
  rw [if_neg hnew]
  exact hcount

lemma setField_same (slots : ℕ → ℕ → ℕ) (a j v : ℕ) : setField slots a j v a j = v := if_pos ⟨rfl,rfl⟩

lemma setField_ne (slots : ℕ → ℕ → ℕ) {a b i j : ℕ} (v : ℕ) (h : b = a → i ≠ j) : setField slots a j v b i = slots b i :=
  if_neg fun he => h he.1 he.2

lemma inv_write (h : Inv c s T R ks ls) {j : ℕ} (hw : s.w = .write j) : Inv c (writer c s) T R ks ls := by
  have hat := h.writer
  unfold WriterAt at hat
  rw [hw] at hat
  obtain ⟨hslot,hroom,hj,hfields⟩ := hat
  have hfar (k : ℕ) (hT : T ≤ k) (hk : k < s.calls) : s.slot ≠ k % 64 := by
    rw [hslot]
    omega
  have hold : s.w ≠ .counted := by
    rw [hw]
    exact nofun
  have hnew : (if j = 9 then Writer.bump else .write (j+1)) ≠ .counted := by
    split <;> exact nofun
  have hdone : ∀ i < j + 1, setField s.slots s.slot j (c.field s.calls j) s.slot i = c.field s.calls i := fun i hi => by
    by_cases hij : i = j
    · rw [hij,setField_same]
    · rw [setField_ne _ _ fun _ => hij,hfields i (by omega)]
  unfold writer
  rw [hw]
  refine h.setSlot ?_ hold hnew (fun k hT hk => (h.held k hT hk).other (hfar k hT hk) _ _) fun hne hR => ?_
  · unfold WriterAt
    by_cases h9 : j = 9
    · subst h9
      exact ⟨hslot,hroom,hdone⟩
    · rw [if_neg h9]
      exact ⟨hslot,hroom,by omega,hdone⟩
  · rw [setField_ne _ _ fun he => absurd he.symm (hfar R h.le hR)]
    exact hne

lemma inv_bump (h : Inv c s T R ks ls) (hw : s.w = .bump) : Inv c (writer c s) T R ks ls := by
  have hat := h.writer
  unfold WriterAt at hat
  rw [hw] at hat
  obtain ⟨hslot,hroom,hfields⟩ := hat
  have hmade := h.made
  unfold writer
  rw [hw]
  refine ⟨?_,h.tail,h.le,by dsimp only; omega,by dsimp only; omega,fun k hT hk => ?_,⟨Nat.succ_pos _,hslot,?_⟩,?_,h.sorted,h.shown,h.all,h.gone,?_⟩
  · dsimp only
    rw [h.head]
    omega
  · dsimp only at hk ⊢
    by_cases hlast : k = s.calls
    · subst hlast
      unfold HoldsCall
      rw [← hslot]
      refine ⟨fun j hj => ?_,fun hne => ?_⟩
      · rw [hfields j (by omega),Calls.field,if_pos hj]
      · rw [hfields 9 (by omega)] at hne
        exact absurd rfl hne
    · exact h.held k hT (by omega)
  · exact hfields 9 (by omega)
  · have hr := h.reader
    unfold ReaderAt Copies Ahead at hr ⊢
    dsimp only
    cases hc : s.r <;> rw [hc] at hr <;> dsimp only at hr ⊢
    · exact hr
    · obtain ⟨hR,H,hH,hle,hcalls⟩ := hr
      exact ⟨hR,H,hH,hle,by omega⟩
    · obtain ⟨hR,⟨H,hH,hle,hcalls⟩,ht⟩ := hr
      exact ⟨hR,⟨H,hH,hle,by omega⟩,ht⟩
    · obtain ⟨hR,⟨⟨H,hH,hle,hcalls⟩,ht⟩,hl⟩ := hr
      exact ⟨hR,⟨⟨H,hH,hle,by omega⟩,ht⟩,hl⟩
    · obtain ⟨hR,⟨H,hH,hle,hcalls⟩,ht⟩ := hr
      exact ⟨hR,⟨H,hH,hle,by omega⟩,ht⟩
    · obtain ⟨⟨H,hH,hle,hcalls⟩,ht⟩ := hr
      exact ⟨⟨H,hH,hle,by omega⟩,ht⟩
    · obtain ⟨⟨⟨H,hH,hle,hcalls⟩,ht⟩,hR,hws⟩ := hr
      exact ⟨⟨⟨H,hH,hle,by omega⟩,ht⟩,by omega,hws⟩
    · obtain ⟨⟨⟨H,hH,hle,hcalls⟩,ht⟩,hR,hws⟩ := hr
      exact ⟨⟨⟨H,hH,hle,by omega⟩,ht⟩,by omega,hws⟩
    · exact hr
  · have hcount := h.count
    unfold pending at hcount ⊢
    rw [hw] at hcount
    exact hcount

lemma Inv.last (h : Inv c s T R ks ls) {k : ℕ} (hT : T ≤ k) (hk : k < s.calls) (hslot : (s.calls - 1) % 64 = k % 64) : k = s.calls - 1 := by
  have := h.cap
  omega

lemma inv_running (h : Inv c s T R ks ls) (hw : s.w = .running) : Inv c (writer c s) T R ks ls := by
  have hat := h.writer
  unfold WriterAt at hat
  rw [hw] at hat
  obtain ⟨hpos,hslot,hopen⟩ := hat
  unfold writer
  rw [hw]
  refine h.setSlot ⟨hpos,hslot,?_,setField_same _ _ _ _⟩ (by rw [hw]; exact nofun) nofun (fun k hT hk => ?_) fun hne _ => ?_
  · dsimp only
    rw [setField_ne _ _ fun _ => (by decide : (9 : ℕ) ≠ 8)]
    exact hopen
  · by_cases hsame : s.slot = k % 64
    · obtain rfl := h.last hT hk (hslot.symm.trans hsame)
      refine ⟨fun j hj => ?_,fun _ => ?_⟩
      · rw [setField_ne _ _ fun _ => (by omega : j ≠ 8)]
        exact (h.held _ hT hk).1 j hj
      · rw [← hsame]
        exact setField_same _ _ _ _
    · exact (h.held k hT hk).other hsame _ _
  · rw [setField_ne _ _ fun _ => (by decide : (9 : ℕ) ≠ 8)]
    exact hne

lemma inv_stamp (h : Inv c s T R ks ls) (hw : s.w = .stamp) : Inv c (writer c s) T R ks ls := by
  have hat := h.writer
  unfold WriterAt at hat
  rw [hw] at hat
  obtain ⟨hpos,hslot,-,hret⟩ := hat
  unfold writer
  rw [hw]
  refine h.setSlot trivial (by rw [hw]; exact nofun) nofun (fun k hT hk => ?_) fun hne _ => ?_
  · by_cases hsame : s.slot = k % 64
    · obtain rfl := h.last hT hk (hslot.symm.trans hsame)
      refine ⟨fun j hj => ?_,fun _ => ?_⟩
      · rw [setField_ne _ _ fun _ => (by omega : j ≠ 9)]
        exact (h.held _ hT hk).1 j hj
      · rw [setField_ne _ _ fun _ => (by decide : (8 : ℕ) ≠ 9),← hsame]
        exact hret
    · exact (h.held k hT hk).other hsame _ _
  · unfold setField
    split
    · exact Nat.one_ne_zero
    · exact hne

lemma readerAt_idle (h : ReaderAt c s T R) (hr : s.r = .idle) : R = T := by
  unfold ReaderAt at h
  rw [hr] at h
  exact h

lemma writer_inv (h : Inv c s T R ks ls) (hok : StepOk .writer s) : ∃ T' R' ls', Inv c (writer c s) T' R' ks ls' := by
  have hat := h.writer
  unfold WriterAt at hat
  cases hw : s.w with
  | idle =>
    refine ⟨T,R,ls,?_⟩
    unfold writer
    rw [hw]
    refine h.setWriter ?_ (by rw [hw]; exact nofun) nofun
    have hhead := h.head
    unfold WriterAt
    dsimp only
    omega
  | entered =>
    rw [hw] at hat
    refine ⟨T,R,ls,?_⟩
    unfold writer
    rw [hw]
    dsimp only
    have hused := h.used
    have hcap := h.cap
    by_cases hfull : 64 ≤ s.used
    · rw [if_pos hfull]
      exact h.setWriter ⟨hat,by dsimp only; omega,hok.1 hw hfull⟩ (by rw [hw]; exact nofun) nofun
    · rw [if_neg hfull]
      exact h.setWriter ⟨hat,by dsimp only; omega,by omega,fun i hi => by omega⟩ (by rw [hw]; exact nofun) nofun
  | dropping =>
    rw [hw] at hat
    have hwrap := hok.2 hw
    refine ⟨T,R,ls,?_⟩
    unfold writer
    rw [hw]
    refine ⟨h.head,h.tail,h.le,h.made,h.cap,h.held,hat,?_,h.sorted,h.shown,h.all,h.gone,?_⟩
    · unfold ReaderAt
      rw [hat.2.2]
      exact readerAt_idle h.reader hat.2.2
    · have hcount := h.count
      unfold pending at hcount ⊢
      rw [hw,hat.2.2] at hcount
      rw [hat.2.2]
      dsimp only at hcount ⊢
      rw [if_neg nofun] at hcount
      rw [if_pos rfl,Nat.mod_eq_of_lt hwrap]
      omega
  | counted =>
    rw [hw] at hat
    obtain ⟨hslot,hfull,hidle⟩ := hat
    obtain rfl := readerAt_idle h.reader hidle
    refine ⟨R+1,R+1,ls ++ [R],?_⟩
    unfold writer
    rw [hw]
    refine ⟨h.head,?_,Nat.le_refl _,by dsimp only; omega,by dsimp only; omega,fun k hk => h.held k (by omega),
      ⟨hslot,by dsimp only; omega,by omega,fun i hi => by omega⟩,?_,h.sorted,h.shown,?_,fun k hk => ?_,?_⟩
    · dsimp only
      rw [h.tail]
      omega
    · unfold ReaderAt
      rw [hidle]
    · rw [← append_assoc,range_succ]
      exact h.all.append_right [R]
    · rcases List.mem_append.mp hk with hk | hk
      · have := h.gone k hk
        omega
      · rw [List.mem_singleton.mp hk]
        exact Nat.lt_succ_self R
    · have hcount := h.count
      unfold pending at hcount ⊢
      rw [hw,hidle] at hcount
      rw [hidle,length_append,length_singleton]
      exact hcount
  | write j => exact ⟨T,R,ls,inv_write h hw⟩
  | bump => exact ⟨T,R,ls,inv_bump h hw⟩
  | running => exact ⟨T,R,ls,inv_running h hw⟩
  | stamp => exact ⟨T,R,ls,inv_stamp h hw⟩

/-- The traced thread is not dropping an entry. -/
def Quiet (s : St) : Prop := s.w ≠ .dropping ∧ s.w ≠ .counted

lemma Inv.quiet (h : Inv c s T R ks ls) (hr : s.r ≠ .idle) : Quiet s := by
  have hat := h.writer
  unfold WriterAt at hat
  constructor <;> intro hw <;> rw [hw] at hat <;> exact hr hat.2.2

lemma WriterAt.ofQuiet {s' : St} {T' : ℕ} (h : WriterAt c s T) (hq : Quiet s) (hw : s'.w = s.w) (hslot : s'.slot = s.slot) (hcalls : s'.calls = s.calls)
    (hslots : s'.slots = s.slots) (hT : T ≤ T') : WriterAt c s' T' := by
  unfold WriterAt at h ⊢
  rw [hw,hslot,hcalls,hslots]
  cases hc : s.w <;> rw [hc] at h <;> dsimp only at h ⊢
  · exact h
  · exact absurd hc hq.1
  · exact absurd hc hq.2
  · exact ⟨h.1,by omega,h.2.2⟩
  · exact ⟨h.1,by omega,h.2.2⟩
  · exact h
  · exact h

lemma Inv.setReader (h : Inv c s T R ks ls) (hq : Quiet s) {r : Reader} (hr : ReaderAt c { s with r := r } T R)
    (hold : ∀ x t, s.r ≠ .clear x t) (hnew : ∀ x t, r ≠ .clear x t) : Inv c { s with r := r } T R ks ls := by
  refine ⟨h.head,h.tail,h.le,h.made,h.cap,h.held,h.writer.ofQuiet hq rfl rfl rfl rfl (Nat.le_refl T),hr,h.sorted,h.shown,h.all,h.gone,?_⟩
  have hcount := h.count
  have hsame : pending { s with r := r } = pending s := by
    unfold pending
    dsimp only
    cases r <;> cases hs : s.r <;> first | rfl | exact absurd rfl (hnew _ _) | exact absurd hs (hold _ _)
  rw [hsame]
  exact hcount

lemma entriesOf_append (out : List Item) (i : Item) : entriesOf (out ++ [i]) = entriesOf out ++ entriesOf [i] := filterMap_append

lemma reported_append (out : List Item) (i : Item) : reported (out ++ [i]) = reported out + reported [i] := by
  unfold reported
  rw [map_append,sum_append]

lemma pending_quiet (hq : Quiet s) (hr : ∀ x t, s.r ≠ .clear x t) : pending s = 0 := by
  unfold pending
  rw [if_neg hq.2]
  cases hs : s.r <;> first | rfl | exact absurd hs (hr _ _)

lemma inv_show (h : Inv c s T R ks ls) (hq : Quiet s) (hr : ∀ x t, s.r ≠ .clear x t) {x t : ℕ} (hahead : Ahead s R x t) {ws : List ℕ} {ret : Option ℕ}
    (hshows : Shows c R (ws,ret)) :
    Inv c { s with out := s.out ++ [.entry ws ret], r := .loop x ((t + 1) % 2^32) } T (R+1) (ks ++ [R]) ls := by
  obtain ⟨⟨H,hH,hlt,hcalls⟩,ht⟩ := hahead
  have hmem (k : ℕ) (hk : k ∈ ks) : k < R := List.mem_range.mp (h.all.mem_iff.mp (mem_append_left ls hk))
  refine ⟨h.head,h.tail,by have := h.le; omega,by dsimp only; omega,h.cap,h.held,h.writer.ofQuiet hq rfl rfl rfl rfl (Nat.le_refl T),
    ⟨⟨H,hH,hlt,hcalls⟩,by omega⟩,?_,?_,?_,h.gone,?_⟩
  · refine List.pairwise_append.mpr ⟨h.sorted,pairwise_singleton _ R,fun k hk j hj => ?_⟩
    rw [List.mem_singleton.mp hj]
    exact hmem k hk
  · dsimp only
    rw [entriesOf_append]
    exact rel_append h.shown (.cons hshows .nil)
  · have hswap : (ks ++ [R] ++ ls).Perm (ks ++ ls ++ [R]) := by
      rw [append_assoc,append_assoc]
      exact List.perm_append_comm.append_left ks
    rw [range_succ]
    exact hswap.trans (h.all.append_right [R])
  · have hcount := h.count
    have hnone : pending { s with out := s.out ++ [.entry ws ret], r := .loop x ((t + 1) % 2^32) } = 0 := pending_quiet hq fun _ _ hc => nomatch hc
    rw [pending_quiet hq hr] at hcount
    rw [hnone]
    dsimp only
    rw [reported_append]
    exact hcount

lemma reader_inv (h : Inv c s T R ks ls) {stop : Bool} (hok : StepOk (.reader stop) s) : ∃ T' R' ks', Inv c (reader stop s) T' R' ks' ls := by
  have hat := h.reader
  have hmade := h.made
  unfold ReaderAt at hat
  cases hr : s.r with
  | idle =>
    rw [hr] at hat
    refine ⟨T,R,ks,?_⟩
    unfold reader
    rw [hr]
    exact h.setReader (hok hr) ⟨hat,s.calls,h.head,hmade,Nat.le_refl _⟩ (fun x t hc => nomatch hr.symm.trans hc) nofun
  | tail x =>
    rw [hr] at hat
    refine ⟨T,R,ks,?_⟩
    unfold reader
    rw [hr]
    refine h.setReader (h.quiet fun hc => nomatch hr.symm.trans hc) ⟨hat.1,hat.2,?_⟩ (fun x t hc => nomatch hr.symm.trans hc) nofun
    rw [h.tail,hat.1]
  | lost x t =>
    rw [hr] at hat
    refine ⟨T,R,ks,?_⟩
    unfold reader
    rw [hr]
    exact h.setReader (h.quiet fun hc => nomatch hr.symm.trans hc) ⟨hat.1,hat.2,rfl⟩ (fun x t hc => nomatch hr.symm.trans hc) nofun
  | report x t l =>
    rw [hr] at hat
    obtain ⟨hR,hcopies,hl⟩ := hat
    have hq := h.quiet fun hc => nomatch hr.symm.trans hc
    have hclear : ∀ x t, s.r ≠ .clear x t := fun x t hc => nomatch hr.symm.trans hc
    refine ⟨T,R,ks,?_⟩
    unfold reader
    rw [hr]
    dsimp only
    split
    · refine ⟨h.head,h.tail,h.le,h.made,h.cap,h.held,h.writer.ofQuiet hq rfl rfl rfl rfl (Nat.le_refl T),⟨hR,hcopies⟩,h.sorted,?_,h.all,h.gone,?_⟩
      · dsimp only
        rw [entriesOf_append]
        exact (append_nil (entriesOf s.out)).symm ▸ h.shown
      · have hcount := h.count
        rw [pending_quiet hq hclear] at hcount
        have hpending : pending { s with out := s.out ++ [.lost l], r := .clear x t } = s.lost := by
          unfold pending
          dsimp only
          rw [if_neg hq.2,Nat.zero_add]
        have hone : reported [.lost l] = l := Nat.add_zero l
        rw [hpending]
        dsimp only
        rw [reported_append,hone]
        omega
    · exact h.setReader hq hcopies hclear nofun
  | clear x t =>
    rw [hr] at hat
    have hq := h.quiet fun hc => nomatch hr.symm.trans hc
    refine ⟨T,R,ks,?_⟩
    unfold reader
    rw [hr]
    refine ⟨h.head,h.tail,h.le,h.made,h.cap,h.held,h.writer.ofQuiet hq rfl rfl rfl rfl (Nat.le_refl T),hat.2,h.sorted,h.shown,h.all,h.gone,?_⟩
    have hcount := h.count
    unfold pending at hcount ⊢
    rw [if_neg hq.2,hr] at hcount
    dsimp only at hcount ⊢
    rw [if_neg hq.2]
    omega
  | loop x t =>
    rw [hr] at hat
    have hq := h.quiet fun hc => nomatch hr.symm.trans hc
    refine ⟨T,R,ks,?_⟩
    unfold reader
    rw [hr]
    dsimp only
    split
    · exact h.setReader hq hat.2 (fun x t hc => nomatch hr.symm.trans hc) nofun
    · rename_i hgo
      obtain ⟨⟨H,hH,hle,hcalls⟩,ht⟩ := hat
      have hne : R ≠ H := fun he => hgo (.inl (by rw [ht,hH,he]))
      exact h.setReader hq ⟨⟨⟨H,hH,by omega,hcalls⟩,ht⟩,by dsimp only; omega,Nat.zero_le _,rfl⟩ (fun x t hc => nomatch hr.symm.trans hc) nofun
  | words x t ws =>
    rw [hr] at hat
    obtain ⟨hahead,hlt,hlen,hws⟩ := hat
    have hq := h.quiet fun hc => nomatch hr.symm.trans hc
    have hclear : ∀ x t, s.r ≠ .clear x t := fun x t hc => nomatch hr.symm.trans hc
    have hslot : t % 64 = R % 64 := by
      have ht := hahead.2
      omega
    have hheld := h.held R h.le hlt
    unfold reader
    rw [hr]
    dsimp only
    rw [hslot]
    by_cases hmore : ws.length < 8
    · rw [if_pos hmore]
      refine ⟨T,R,ks,h.setReader hq ⟨hahead,hlt,?_,?_⟩ hclear nofun⟩
      · rw [length_append,length_singleton]
        exact hmore
      · rw [length_append,length_singleton,range_succ,map_append,← hws,hheld.1 _ hmore]
        rfl
    rw [if_neg hmore]
    have hfull : ws = (List.range 8).map (c.word R) := by
      rw [(by omega : ws.length = 8)] at hws
      exact hws
    split
    · exact ⟨T,R,ks,h.setReader hq ⟨hahead,hlt,hfull,‹_›⟩ hclear nofun⟩
    · exact ⟨T,R+1,ks ++ [R],inv_show h hq hclear hahead ⟨hfull,nofun⟩⟩
  | ret x t ws =>
    rw [hr] at hat
    obtain ⟨hahead,hlt,hws,hdone⟩ := hat
    have hslot : t % 64 = R % 64 := by
      have ht := hahead.2
      omega
    unfold reader
    rw [hr]
    dsimp only
    rw [hslot]
    refine ⟨T,R+1,ks ++ [R],inv_show h (h.quiet fun hc => nomatch hr.symm.trans hc) (fun x t hc => nomatch hr.symm.trans hc) hahead ⟨hws,fun v hv => ?_⟩⟩
    rw [← some.inj hv]
    exact (h.held R h.le hlt).2 hdone
  | store t =>
    rw [hr] at hat
    have hq := h.quiet fun hc => nomatch hr.symm.trans hc
    have hle := h.le
    have hcap := h.cap
    refine ⟨R,R,ks,?_⟩
    unfold reader
    rw [hr]
    refine ⟨h.head,hat,Nat.le_refl R,hmade,by dsimp only; omega,fun k hk => h.held k (by omega),h.writer.ofQuiet hq rfl rfl rfl rfl hle,rfl,h.sorted,h.shown,h.all,
      fun k hk => by have := h.gone k hk; omega,?_⟩
    have hcount := h.count
    have hnone : pending { s with tail := t, r := .idle } = 0 := pending_quiet hq fun _ _ hc => nomatch hc
    rw [pending_quiet hq fun x t hc => nomatch hr.symm.trans hc] at hcount
    rw [hnone]
    exact hcount

lemma inv_start : Inv c .start 0 0 [] [] :=
  ⟨rfl,rfl,Nat.le_refl 0,Nat.le_refl 0,Nat.zero_le _,fun k _ hk => absurd hk (Nat.not_lt_zero k),trivial,rfl,.nil,.nil,.refl _,nofun,rfl⟩

lemma step_inv (h : Inv c s T R ks ls) {m : Move} (hok : StepOk m s) : ∃ T' R' ks' ls', Inv c (step c m s) T' R' ks' ls' := by
  cases m with
  | writer =>
    obtain ⟨T',R',ls',h'⟩ := writer_inv h hok
    exact ⟨T',R',ks,ls',h'⟩
  | reader stop =>
    obtain ⟨T',R',ks',h'⟩ := reader_inv h hok
    exact ⟨T',R',ks',ls,h'⟩

end

end VibeOS.Strace

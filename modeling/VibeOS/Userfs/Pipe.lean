import VibeOS.Storage.Ring

/-! A pipe of `pipe.c`, one turn of the loops that read and write it. -/
namespace VibeOS.Userfs
open VibeOS.Storage List

def eintr : ℤ := 4
def eio : ℤ := 5
def einval : ℤ := 22
def epipe : ℤ := 32
def edeadlk : ℤ := 35
def etimedout : ℤ := 110

/-- PIPE_BUF_SIZE -/
abbrev pipeBufSize : ℕ := 4096

structure Pipe where
  ring : Ring UInt8 pipeBufSize
  rRefs : ℕ
  wRefs : ℕ

/-- `pipe_alloc`; what the cells hold is left to the heap. -/
def Pipe.alloc (buf : Fin pipeBufSize → UInt8) : Pipe := ⟨⟨buf,0,0,0⟩,1,1⟩

/-- The end of a turn of `pipe_read_until`: it returns, with the bytes that it copied out, or blocks. -/
inductive ReadTurn
  | ret (value : ℤ) (bytes : List UInt8) (p : Pipe)
  | block

/-- `woken` tells whether the thread comes out of a block, `late` whether the deadline has passed. -/
def Pipe.readTurn (p : Pipe) (woken : Bool) (len : ℕ) (late sigPending : Bool) : ReadTurn :=
  if p.ring.count = 0 then
    if woken && sigPending then .ret (-eintr) [] p
    else if p.wRefs = 0 then .ret 0 [] p
    else if late then .ret (-etimedout) [] p
    else .block
  else
    let n := min len p.ring.count
    let (bytes,ring) := p.ring.read n
    .ret n bytes { p with ring := ring }

/-- The end of a turn of `pipe_write_until`: it may also go on behind the bytes that it copied. -/
inductive WriteTurn
  | ret (value : ℤ)
  | block
  | moved (written : ℕ) (p : Pipe)

def Pipe.writeTurn (p : Pipe) (src : List UInt8) (written : ℕ) (late : Bool) : WriteTurn :=
  if src.length ≤ written then .ret written
  else if p.rRefs = 0 then .ret (if written > 0 then written else -epipe)
  else if p.ring.count = pipeBufSize then
    if late then .ret (if written > 0 then written else -etimedout) else .block
  else
    let want := min (src.length - written) (pipeBufSize - p.ring.count)
    .moved (written + want) { p with ring := p.ring.write ((src.drop written).take want) }

def Pipe.unrefR (p : Pipe) : Pipe := { p with rRefs := p.rRefs - 1 }
def Pipe.unrefW (p : Pipe) : Pipe := { p with wRefs := p.wRefs - 1 }

variable {p p' : Pipe} {xs bytes src : List UInt8} {woken late sigPending : Bool} {len written : ℕ} {v : ℤ}

lemma Pipe.readTurn_ret (h : p.ring.Holds xs) (now : p.readTurn woken len late sigPending = .ret v bytes p')
    (hlen : 0 < len) : (v ≤ 0 ∧ bytes = [] ∧ p' = p) ∨ (0 < v ∧ v = bytes.length ∧ bytes.length ≤ len ∧
      ∃ ys, xs = bytes ++ ys ∧ p'.ring.Holds ys) := by
  unfold Pipe.readTurn at now
  split_ifs at now with hempty hsig hw hlate
  · cases now
    exact .inl ⟨by decide,rfl,rfl⟩
  · cases now
    exact .inl ⟨Int.le_refl 0,rfl,rfl⟩
  · cases now
    exact .inl ⟨by decide,rfl,rfl⟩
  · have hn : min len p.ring.count ≤ xs.length := (Nat.min_le_right _ _).trans (Nat.le_of_eq h.count)
    obtain ⟨hout,hleft⟩ := h.read hn
    dsimp only at now
    cases hr : p.ring.read (min len p.ring.count) with
    | mk out ring =>
      rw [hr] at now hout hleft
      dsimp only at hout hleft
      cases now
      have hlen' : out.length = min len p.ring.count := by rw [hout,length_take_of_le hn]
      refine .inr ⟨by omega,by rw [hlen'],by rw [hlen']; exact Nat.min_le_left _ _,xs.drop (min len p.ring.count),?_,hleft⟩
      rw [hout,take_append_drop]

lemma Pipe.writeTurn_moves (h : p.ring.Holds xs) (now : p.writeTurn src written late = .moved len p') :
    p'.ring.Holds (xs ++ (src.drop written).take (len - written)) ∧ written < len ∧ len ≤ src.length ∧
      p'.rRefs = p.rRefs ∧ p'.wRefs = p.wRefs := by
  unfold Pipe.writeTurn at now
  split_ifs at now with hdone hr hfull hlate
  cases now
  have hfits := h.fits
  have hcount := h.count
  refine ⟨?_,by omega,by omega,rfl,rfl⟩
  rw [Nat.add_sub_cancel_left]
  refine h.write ?_
  rw [length_take,length_drop]
  omega

lemma Pipe.writeTurn_ret (hle : written ≤ src.length) (now : p.writeTurn src written late = .ret src.length) :
    written = src.length := by
  have hepipe : epipe = 32 := rfl
  have hlate : etimedout = 110 := rfl
  unfold Pipe.writeTurn at now
  split_ifs at now <;> rw [WriteTurn.ret.injEq] at now <;> omega

lemma Pipe.readTurn_refs (now : p.readTurn woken len late sigPending = .ret v bytes p') :
    p'.rRefs = p.rRefs ∧ p'.wRefs = p.wRefs := by
  unfold Pipe.readTurn at now
  split_ifs at now <;> cases now <;> exact ⟨rfl,rfl⟩

end VibeOS.Userfs

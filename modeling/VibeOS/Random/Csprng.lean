import VibeOS.Runs
import Mathlib.Logic.Function.Iterate
import Mathlib.Data.Int.Notation

/-! `kernel/core/random.c`: the ChaCha20 keystream, its reseeding, and `random_init` and
`random_bytes` by any number of threads. -/
namespace VibeOS.Random

/-- RESEED_BYTES -/
def reseedBytes : UInt32 := 256*1024

abbrev Key := Vector UInt32 8
abbrev Seed := Vector UInt8 32
abbrev Words := Vector UInt32 16

def rotl32 (v n : UInt32) : UInt32 := (v <<< n) ||| (v >>> (32 - n))

def quarter (a b c d : UInt32) : UInt32 × UInt32 × UInt32 × UInt32 :=
  let a := a + b
  let d := rotl32 (d ^^^ a) 16
  let c := c + d
  let b := rotl32 (b ^^^ c) 12
  let a := a + b
  let d := rotl32 (d ^^^ a) 8
  let c := c + d
  let b := rotl32 (b ^^^ c) 7
  (a,b,c,d)

example : quarter 0x11111111 0x01020304 0x9b8d6f43 0x01234567 = (0xea2a92f4,0xcb1cf8ce,0x4581472e,0x5881c4bb) := by decide

def quarterAt (i j k l : Fin 16) (x : Words) : Words :=
  let (a,b,c,d) := quarter x[i] x[j] x[k] x[l]
  (((x.set i a).set j b).set k c).set l d

def doubleRound (x : Words) : Words :=
  let x := quarterAt 3 7 11 15 (quarterAt 2 6 10 14 (quarterAt 1 5 9 13 (quarterAt 0 4 8 12 x)))
  quarterAt 3 4 9 14 (quarterAt 2 7 8 13 (quarterAt 1 6 11 12 (quarterAt 0 5 10 15 x)))

def chacha20Block (key : Key) (nonce : Vector UInt32 3) (counter : UInt32) : List UInt8 :=
  let s : Words := #v[0x61707865,0x3320646e,0x79622d32,0x6b206574,
    key[0],key[1],key[2],key[3],key[4],key[5],key[6],key[7],counter,nonce[0],nonce[1],nonce[2]]
  let x := doubleRound^[10] s
  (x.zipWith (· + ·) s).toList.flatMap fun w : UInt32 => [w.toUInt8,(w >>> 8).toUInt8,(w >>> 16).toUInt8,(w >>> 24).toUInt8]

/-- `g_nonce` -/
def nonce : Vector UInt32 3 := #v[0,0,0]

/-- The little-endian word `i` of a seed. -/
def seedWord (seed : Seed) (i : Fin 8) : UInt32 :=
  let byte (j : Fin 4) := (seed.get ⟨i.val*4 + j.val,by omega⟩).toUInt32
  byte 0 ||| (byte 1 <<< 8) ||| (byte 2 <<< 16) ||| (byte 3 <<< 24)

def mixKey (key : Key) (seed : Seed) : Key := Vector.ofFn fun i => key[i] ^^^ seedWord seed i

/-- The state that `g_lock` protects, and `g_ready` and `g_strong`. -/
structure Csprng where
  ready : Bool
  strong : Bool
  key : Key
  counter : UInt32
  sinceReseed : UInt32

def Csprng.mixIntoKeyLocked (g : Csprng) (seed : Seed) : Csprng :=
  { g with key := mixKey g.key seed,counter := 0,sinceReseed := 0 }

/-- Where a thread is; `len` and `dst` are those of its `random_bytes`. -/
inductive Pc
  | idle
  /-- `random_init` behind its test of `g_ready` -/
  | initFetch
  | initMix (seed : Seed)
  /-- the top of the loop of `random_bytes` -/
  | test (len : ℕ) (dst : List UInt8)
  | fetch (len : ℕ) (dst : List UInt8)
  | mix (len : ℕ) (dst : List UInt8) (seed : Seed)
  | draw (len : ℕ) (dst : List UInt8)

/-- `blocks` are the pairs from which blocks were computed, the last one first. -/
structure Sys where
  g : Csprng
  pc : ℕ → Pc
  blocks : List (Key × UInt32)

inductive Event
  /-- a call of `random_init`; is virtio-rng there? -/
  | init (i : ℕ) (present : Bool)
  /-- a call of `random_bytes`; is `out` not NULL? -/
  | bytes (i : ℕ) (out : Bool) (len : ℕ)
  | test (i : ℕ)
  /-- `fetch_seed` returns, from virtio-rng or from `fallback_seed`. -/
  | fetch (i : ℕ) (seed : Seed)
  /-- the locked section with a new seed -/
  | mix (i : ℕ)
  /-- the locked section that computes a block -/
  | draw (i : ℕ)

namespace Sys
variable (s : Sys)

def goTo (i : ℕ) (pc : Pc) : Sys := { s with pc := Function.update s.pc i pc }

/-- What the new seed of a thread makes of the state. -/
def rekeyed (i : ℕ) : Option Csprng :=
  match s.pc i with
  | .initMix seed => some { ({ s.g with key := Vector.replicate 8 0 }.mixIntoKeyLocked seed) with ready := true }
  | .mix _ _ seed => some (s.g.mixIntoKeyLocked seed)
  | _ => none

/-- Where the thread goes on behind the section with the new seed. -/
def afterMix (i : ℕ) : Pc :=
  match s.pc i with
  | .mix len dst _ => .draw len dst
  | _ => .idle

def drawn : Csprng := { s.g with counter := s.g.counter + 1,sinceReseed := s.g.sinceReseed + 64 }

def step (s : Sys) : Event → Option (Option (ℤ × List UInt8) × Sys)
  | .init i present =>
    match s.pc i with
    | .idle => if s.g.ready then some (none,s) else some (none,{ s with g := { s.g with strong := present } }.goTo i .initFetch)
    | _ => none
  | .bytes i out len =>
    match s.pc i with
    | .idle =>
      if !s.g.ready then some (some (-1,[]),s)
      else if !out && decide (len ≠ 0) then some (some (-1,[]),s)
      else if len = 0 then some (some (0,[]),s)
      else some (none,s.goTo i (.test len []))
    | _ => none
  | .test i =>
    match s.pc i with
    | .test len dst => some (none,s.goTo i (if reseedBytes ≤ s.g.sinceReseed then .fetch len dst else .draw len dst))
    | _ => none
  | .fetch i seed =>
    match s.pc i with
    | .initFetch => some (none,s.goTo i (.initMix seed))
    | .fetch len dst => some (none,s.goTo i (.mix len dst seed))
    | _ => none
  | .mix i => (s.rekeyed i).map fun g => (none,{ s with g := g }.goTo i (s.afterMix i))
  | .draw i =>
    match s.pc i with
    | .draw len dst =>
      let dst := dst ++ (chacha20Block s.g.key nonce s.g.counter).take (len - dst.length)
      let s := { s with g := s.drawn,blocks := (s.g.key,s.g.counter) :: s.blocks }
      if dst.length < len then some (none,s.goTo i (.test len dst)) else some (some (dst.length,dst),s.goTo i .idle)
    | _ => none

def initial : Sys where
  g := ⟨false,false,Vector.replicate 8 0,0,0⟩
  pc _ := .idle
  blocks := []

end Sys
end VibeOS.Random

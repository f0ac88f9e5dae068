import VibeOS.Widths
import Mathlib.Tactic.SplitIfs

/-! The deflate decoder of `png.h`: its bit reader, its Huffman tables and its three kinds of blocks. -/
namespace VibeOS.Libc
open Function List

/-- How a decoder stops: its own check, an access outside its arrays or to a place never written, or no turns left. -/
inductive Stop
  | malformed
  | outside
  | fuel
  deriving DecidableEq

/-- `struct png_br`; `p` is an offset into the source. -/
structure BitReader where
  p : ℕ
  bitbuf : ℕ
  nbits : ℕ

def readByte (src : List UInt8) (p : ℕ) : Except Stop ℕ :=
  match src[p]? with
  | some b => .ok b.toNat
  | none => .error .outside

/-- `png_br_need`, which reads no more than `turns` bytes. -/
def brNeed (src : List UInt8) (n : ℕ) : ℕ → BitReader → Except Stop BitReader
  | 0,br => if br.nbits < n then .error .fuel else .ok br
  | turns+1,br =>
    if br.nbits < n then
      if src.length ≤ br.p then .error .malformed
      else do
        let b ← readByte src br.p
        brNeed src n turns ⟨br.p + 1,(br.bitbuf ||| b <<< br.nbits) % 2^32,br.nbits + 8⟩
    else .ok br

def brGet (br : BitReader) (n : ℕ) : ℕ × BitReader := (br.bitbuf % 2^n,⟨br.p,br.bitbuf >>> n,br.nbits - n⟩)

/-- The two calls as they come together; two bytes make up any request. -/
def brBits (src : List UInt8) (br : BitReader) (n : ℕ) : Except Stop (ℕ × BitReader) := do
  return brGet (← brNeed src n 2 br) n

def brAlignByte (br : BitReader) : BitReader := ⟨br.p,br.bitbuf >>> (br.nbits % 8),br.nbits - br.nbits % 8⟩

def maxCodeLen : ℕ := 15
def maxSyms : ℕ := 288

/-- `struct png_huff`, with `none` in the places of `syms` that nothing was written to. -/
structure Huff where
  counts : ℕ → ℕ
  syms : ℕ → Option ℕ

/-- The first place in `syms` for each length. -/
def offsets (counts : ℕ → ℕ) : ℕ → ℕ
  | 0 => 0
  | 1 => 0
  | l+2 => offsets counts (l+1) + counts (l+1)

/-- `counts[lens[i]]++` for every symbol. -/
def huffCounts (lens : List ℕ) : ℕ → ℕ := lens.foldl (fun counts l => update counts l (counts l + 1)) fun _ => 0

/-- The placing loop, from symbol `i` on. -/
def huffPlace : List ℕ → ℕ → (ℕ → ℕ) → (ℕ → Option ℕ) → Except Stop (ℕ → Option ℕ)
  | [],_,_,syms => .ok syms
  | l :: lens,i,cursor,syms =>
    if 0 < l then
      if cursor l < maxSyms then huffPlace lens (i+1) (update cursor l (cursor l + 1)) (update syms (cursor l) (some i))
      else .error .outside
    else huffPlace lens (i+1) cursor syms

/-- `png_huff_build`. -/
def huffBuild (lens : List ℕ) : Except Stop Huff :=
  if lens.all fun l => l ≤ maxCodeLen then do
    let counts := huffCounts lens
    return ⟨counts,← huffPlace lens 0 (offsets counts) fun _ => none⟩
  else .error .malformed

/-- The loop of `png_huff_decode` at length `l`, with `turns` lengths to come. -/
def huffDecodeFrom (src : List UInt8) (h : Huff) : ℕ → ℕ → BitReader → ℕ → ℕ → ℕ → Except Stop (ℕ × BitReader)
  | 0,_,_,_,_,_ => .error .malformed
  | turns+1,l,br,code,first,base => do
    let (b,br) ← brBits src br 1
    let code := (code <<< 1) ||| b
    if (code : ℤ) - first < h.counts l then
      match h.syms (base + (code - first)) with
      | some s => return (s,br)
      | none => .error .outside
    else huffDecodeFrom src h turns (l+1) br code ((first + h.counts l) <<< 1) (base + h.counts l)

/-- `png_huff_decode`. -/
def huffDecode (src : List UInt8) (h : Huff) (br : BitReader) : Except Stop (ℕ × BitReader) :=
  huffDecodeFrom src h maxCodeLen 1 br 0 0 0

def lenBase : List ℕ := [3,4,5,6,7,8,9,10,11,13,15,17,19,23,27,31,35,43,51,59,67,83,99,115,131,163,195,227,258]
def lenExtra : List ℕ := [0,0,0,0,0,0,0,0,1,1,1,1,2,2,2,2,3,3,3,3,4,4,4,4,5,5,5,5,0]
def distBase : List ℕ :=
  [1,2,3,4,5,7,9,13,17,25,33,49,65,97,129,193,257,385,513,769,1025,1537,2049,3073,4097,6145,8193,12289,16385,24577]
def distExtra : List ℕ := [0,0,0,0,1,1,2,2,3,3,4,4,5,5,6,6,7,7,8,8,9,9,10,10,11,11,12,12,13,13]
def clPerm : List ℕ := [16,17,18,0,8,7,9,6,10,5,11,4,12,3,13,2,14,1,15]

def entry (t : List ℕ) (i : ℕ) : Except Stop ℕ :=
  match t[i]? with
  | some v => .ok v
  | none => .error .outside

/-- `out[(*opos)++] = v`; what was put out so far has `opos` bytes. -/
def putByte (cap : ℕ) (out : List UInt8) (v : UInt8) : Except Stop (List UInt8) :=
  if out.length < cap then .ok (out ++ [v]) else .error .outside

def copyStored (src : List UInt8) (cap p : ℕ) : ℕ → List UInt8 → Except Stop (List UInt8)
  | 0,out => .ok out
  | n+1,out => do
    let b ← readByte src p
    copyStored src cap (p+1) n (← putByte cap out (UInt8.ofNat b))

/-- `png_inflate_stored`. -/
def inflateStored (src : List UInt8) (cap : ℕ) (br : BitReader) (out : List UInt8) : Except Stop (BitReader × List UInt8) :=
  let br := brAlignByte br
  if src.length < br.p + 4 then .error .malformed
  else do
    let len := (← readByte src br.p) ||| (← readByte src (br.p+1)) <<< 8
    let nlen := (← readByte src (br.p+2)) ||| (← readByte src (br.p+3)) <<< 8
    if 65535 - len ≠ nlen then .error .malformed
    else if src.length < br.p + 4 + len then .error .malformed
    else if cap < out.length + len then .error .malformed
    else return (⟨br.p + 4 + len,0,0⟩,← copyStored src cap (br.p+4) len out)

/-- The copying loop of a back reference: `out[*opos] = out[*opos - dist_v]`. -/
def copyBack (cap dist : ℕ) : ℕ → List UInt8 → Except Stop (List UInt8)
  | 0,out => .ok out
  | n+1,out =>
    match out[out.length - dist]? with
    | some b => do copyBack cap dist n (← putByte cap out b)
    | none => .error .outside

/-- `png_inflate_huff_block`, of at most `fuel` symbols. -/
def inflateHuffBlock (src : List UInt8) (lit dist : Huff) (cap : ℕ) : ℕ → BitReader → List UInt8 → Except Stop (BitReader × List UInt8)
  | 0,_,_ => .error .fuel
  | fuel+1,br,out => do
    let (sym,br) ← huffDecode src lit br
    if sym < 256 then
      if cap ≤ out.length then .error .malformed
      else inflateHuffBlock src lit dist cap fuel br (← putByte cap out (UInt8.ofNat sym))
    else if sym = 256 then return (br,out)
    else if 29 ≤ sym - 257 then .error .malformed
    else
      let (extra,br) ← brBits src br (← entry lenExtra (sym - 257))
      let len := (← entry lenBase (sym - 257)) + extra
      let (dsym,br) ← huffDecode src dist br
      if 30 ≤ dsym then .error .malformed
      else
        let (extra,br) ← brBits src br (← entry distExtra dsym)
        let d := (← entry distBase dsym) + extra
        if d = 0 ∨ out.length < d then .error .malformed
        else if cap < out.length + len then .error .malformed
        else inflateHuffBlock src lit dist cap fuel br (← copyBack cap d len out)

def fixedLens : List ℕ := replicate 144 8 ++ replicate 112 9 ++ replicate 24 7 ++ replicate 8 8
def fixedDistLens : List ℕ := replicate 30 5

/-- `cl_lens[png_cl_perm[i]] = png_br_get(br, 3)`, `turns` times from `i` on. -/
def readClLens (src : List UInt8) : ℕ → ℕ → BitReader → List ℕ → Except Stop (List ℕ × BitReader)
  | 0,_,br,lens => .ok (lens,br)
  | turns+1,i,br,lens => do
    let (l,br) ← brBits src br 3
    let s ← entry clPerm i
    if s < lens.length then readClLens src turns (i+1) br (lens.set s l) else .error .outside

/-- The loop over `all_lens`, of at most `fuel` turns. -/
def readLens (src : List UInt8) (cl : Huff) (total : ℕ) : ℕ → BitReader → List ℕ → Except Stop (List ℕ × BitReader)
  | 0,_,_ => .error .fuel
  | fuel+1,br,lens =>
    if lens.length < total then do
      let (sym,br) ← huffDecode src cl br
      if sym < 16 then readLens src cl total fuel br (lens ++ [sym])
      else if sym = 16 then
        match lens.getLast? with
        | none => .error .malformed
        | some prev => do
          let (v,br) ← brBits src br 2
          if total < lens.length + (v + 3) then .error .malformed
          else readLens src cl total fuel br (lens ++ replicate (v + 3) prev)
      else if sym = 17 then do
        let (v,br) ← brBits src br 3
        if total < lens.length + (v + 3) then .error .malformed
        else readLens src cl total fuel br (lens ++ replicate (v + 3) 0)
      else if sym = 18 then do
        let (v,br) ← brBits src br 7
        if total < lens.length + (v + 11) then .error .malformed
        else readLens src cl total fuel br (lens ++ replicate (v + 11) 0)
      else .error .malformed
    else .ok (lens,br)

/-- `png_inflate_dynamic_tables`. -/
def inflateDynamicTables (src : List UInt8) (fuel : ℕ) (br : BitReader) : Except Stop (Huff × Huff × BitReader) := do
  let br ← brNeed src 14 2 br
  let (v,br) := brGet br 5
  let hlit := v + 257
  let (v,br) := brGet br 5
  let hdist := v + 1
  let (v,br) := brGet br 4
  let hclen := v + 4
  if 286 < hlit ∨ 30 < hdist then .error .malformed
  else
    let (clLens,br) ← readClLens src hclen 0 br (replicate 19 0)
    let cl ← huffBuild clLens
    let (lens,br) ← readLens src cl (hlit + hdist) fuel br []
    return (← huffBuild (lens.take hlit),← huffBuild (lens.drop hlit),br)

def inflateBlock (src : List UInt8) (cap turns btype : ℕ) (br : BitReader) (out : List UInt8) : Except Stop (BitReader × List UInt8) :=
  if btype = 0 then inflateStored src cap br out
  else if btype = 1 then do
    inflateHuffBlock src (← huffBuild fixedLens) (← huffBuild fixedDistLens) cap turns br out
  else if btype = 2 then do
    let (lit,dist,br) ← inflateDynamicTables src turns br
    inflateHuffBlock src lit dist cap turns br out
  else .error .malformed

/-- The loop over the blocks, of at most `fuel` turns. -/
def inflateBlocks (src : List UInt8) (cap turns : ℕ) : ℕ → BitReader → List UInt8 → Except Stop (List UInt8)
  | 0,_,_ => .error .fuel
  | fuel+1,br,out => do
    let br ← brNeed src 3 2 br
    let (bfinal,br) := brGet br 1
    let (btype,br) := brGet br 2
    let (br,out) ← inflateBlock src cap turns btype br out
    if bfinal = 0 then inflateBlocks src cap turns fuel br out
    else if out.length = cap then return out
    else .error .malformed

end VibeOS.Libc

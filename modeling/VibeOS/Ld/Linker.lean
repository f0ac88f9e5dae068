import VibeOS.Storage.Patches

/-! `/bin/ld`: the objects as `load_input` finds them, their global symbols, the layout, and the
image with its relocations applied. -/
namespace VibeOS.Ld
open VibeOS.Storage
open VibeOS.Userfs (leBytes leNat length_leBytes)

abbrev Name := List UInt8

/-- The output sections, LD_S_TEXT and so on. -/
inductive Kind
  | text
  | rodata
  | data
  | bss
  deriving DecidableEq

def kinds : List Kind := [.text,.rodata,.data,.bss]

def Kind.name : Kind → Name
  | .text => [46,116,101,120,116]
  | .rodata => [46,114,111,100,97,116,97]
  | .data => [46,100,97,116,97]
  | .bss => [46,98,115,115]

def shtNobits : ℕ := 8
def stbGlobal : ℕ := 1
def sttSection : ℕ := 3
def rAbs64 : ℕ := 257
def rJump26 : ℕ := 282
def rCall26 : ℕ := 283
/-- LD_MAX_INPUTS -/
def ldMaxInputs : ℕ := 16
/-- LD_MAX_SYMS -/
def ldMaxSyms : ℕ := 2048
/-- What `copy_name` keeps of a name. -/
def nameCap : ℕ := 63
/-- LD_LOAD_BASE -/
def loadBase : ℕ := 0x1000100000
/-- LD_TEXT_SEG_ALIGN and LD_DATA_SEG_ALIGN -/
def segAlign : ℕ := 0x1000

/-- A section header, with the bytes at its offset in the file. -/
structure Shdr where
  name : Name
  type : ℕ
  align : ℕ
  size : ℕ
  bytes : List UInt8

structure Sym where
  name : Name
  bind : ℕ
  type : ℕ
  shndx : ℕ
  value : ℕ

structure Rela where
  offset : ℕ
  sym : ℕ
  type : ℕ
  addend : ℤ

/-- An object: its sections, the symbols of its `.symtab` and the entries of its `.rela.text`. -/
structure Object where
  shdrs : List Shdr
  syms : List Sym
  relas : List Rela

namespace Object
variable (o : Object)

def shIndex (n : Name) : Option ℕ := ((List.range o.shdrs.length).filter fun i => (o.shdrs[i]?).any (·.name == n)).getLast?

def sec (k : Kind) : Option Shdr := (o.shIndex k.name).bind fun i => o.shdrs[i]?

/-- `sec_kind_for_input_shndx` -/
def kindOf (shndx : ℕ) : Option Kind := kinds.find? fun k => o.shIndex k.name == some shndx

end Object

structure Definition where
  input : ℕ
  kind : Kind
  value : ℕ

/-- `ld_gsym_t` -/
structure GSym where
  name : Name
  definition : Option Definition

/-- `gsym_find` -/
def gsymFind (t : List GSym) (name : Name) : Option GSym := t.find? (·.name == name)

def definitionOf (t : List GSym) (name : Name) : Option Definition := (gsymFind t name).bind (·.definition)

/-- `gsym_add_or_update` but for the size of the table. -/
def update (name : Name) (d : Option Definition) : List GSym → Option (List GSym)
  | [] => some [⟨name.take nameCap,d⟩]
  | g :: t =>
    if g.name = name then
      match d,g.definition with
      | none,_ => some (g :: t)
      | some d,none => some (⟨g.name,some d⟩ :: t)
      | some _,some _ => none
    else (update name d t).map (g :: ·)

def addOrUpdate (t : List GSym) (name : Name) (d : Option Definition) : Option (List GSym) :=
  if (gsymFind t name).isNone ∧ ldMaxSyms ≤ t.length then none else update name d t

/-- What `merge_input_symbols` enters for an object. -/
def Object.globals (o : Object) (i : ℕ) : List (Name × Option Definition) :=
  o.syms.filterMap fun s =>
    if s.bind ≠ stbGlobal ∨ s.name = [] then none
    else
      some (s.name,if 0 < s.shndx ∧ s.shndx < o.shdrs.length then (o.kindOf s.shndx).map (⟨i,·,s.value⟩) else none)

def globals (objs : List Object) : List (Name × Option Definition) := objs.zipIdx.flatMap fun x => x.1.globals x.2

def mergeSymbols (objs : List Object) : Option (List GSym) := (globals objs).foldlM (fun t x => addOrUpdate t x.1 x.2) []

/-- `align_up` -/
def alignUp (v a : ℕ) : ℕ := if a = 0 then v else ((v + a + (2^64 - 1)) % 2^64) &&& (2^64 - a)

def place (k : Kind) : List Object → ℕ → List ℕ × ℕ
  | [],size => ([],size)
  | o :: objs,size =>
    match o.sec k with
    | none =>
      let r := place k objs size
      (0 :: r.1,r.2)
    | some sh =>
      let off := alignUp size (if sh.align = 0 then 1 else sh.align)
      let r := place k objs ((off + sh.size) % 2^64)
      (off :: r.1,r.2)

structure Layout where
  off : Kind → List ℕ
  size : Kind → ℕ
  foff : Kind → ℕ
  va : Kind → ℕ

/-- `layout_sections` -/
def layout (objs : List Object) : Layout :=
  let size k := (place k objs 0).2
  let text := alignUp (64 + 2*56) segAlign
  let rodata := alignUp ((text + size .text) % 2^64) 8
  let data := alignUp ((rodata + size .rodata) % 2^64) segAlign
  { off := fun k => (place k objs 0).1
    size := size
    foff := fun
      | .text => text
      | .rodata => rodata
      | .data => data
      | .bss => 0
    va := fun
      | .text => (loadBase + text) % 2^64
      | .rodata => (loadBase + rodata) % 2^64
      | .data => (loadBase + data) % 2^64
      | .bss => ((loadBase + data) % 2^64 + size .data) % 2^64 }

namespace Layout
variable (L : Layout)

def offset (i : ℕ) (k : Kind) : ℕ := (L.off k).getD i 0

/-- `input_sec_va` -/
def secVa (i : ℕ) (k : Kind) : ℕ := (L.va k + L.offset i k) % 2^64

def definitionVa (d : Definition) : ℕ := (L.secVa d.input d.kind + d.value) % 2^64

end Layout

/-- `resolve_input_sym` -/
def resolveInputSym (L : Layout) (t : List GSym) (i : ℕ) (o : Object) (sym : ℕ) : Option ℕ :=
  match o.syms[sym]? with
  | none => none
  | some s =>
    if s.type = sttSection then (o.kindOf s.shndx).map (L.secVa i)
    else if s.bind = stbGlobal then (definitionOf t s.name).map L.definitionVa
    else (o.kindOf s.shndx).map fun k => (L.secVa i k + s.value) % 2^64

def word32 (m : ByteMem) (a : ℕ) : ℕ := leNat ((List.range 4).map fun k => m (a + k))

def withImm26 (insn : ℕ) (imm : ℤ) : BitVec 32 := (BitVec.ofNat 32 insn &&& 0xFC000000#32) ||| (BitVec.ofInt 32 imm &&& 0x03FFFFFF#32)

/-- `sym_va + addend` -/
def plusAddend (S : ℕ) (addend : ℤ) : ℕ := ((S + addend) % 2^64).toNat

/-- `apply_one_reloc` at an address of the file, with the symbol and the address of the place in memory. -/
def relocBytes (m : ByteMem) (fileOff P S type : ℕ) (addend : ℤ) : Option (List UInt8) :=
  if type = rAbs64 then some (leBytes 8 (plusAddend S addend))
  else if type = rCall26 ∨ type = rJump26 then
    let delta := ((plusAddend S addend : ℤ) - P).bmod (2^64)
    if delta % 4 ≠ 0 then none
    else if delta/4 < -2^25 ∨ 2^25 ≤ delta/4 then none
    else some (leBytes 4 (withImm26 (word32 m fileOff) (delta/4)).toNat)
  else none

def Rela.width (r : Rela) : ℕ := if r.type = rAbs64 then 8 else 4

/-- One entry of `.rela.text`. -/
def relocPatch (L : Layout) (t : List GSym) (i : ℕ) (o : Object) (r : Rela) : Patch where
  addr := (L.foff .text + L.offset i .text + r.offset) % 2^64
  width := r.width
  make m :=
    (resolveInputSym L t i o r.sym).bind fun S =>
      relocBytes m ((L.foff .text + L.offset i .text + r.offset) % 2^64) ((L.va .text + L.offset i .text + r.offset) % 2^64) S r.type r.addend
  length_make m bytes h := by
    obtain ⟨S,-,h⟩ := Option.bind_eq_some_iff.mp h
    unfold Rela.width
    unfold relocBytes at h
    split at h
    · next habs =>
      cases h
      rw [if_pos habs,length_leBytes]
    · next habs =>
      rw [if_neg habs]
      split at h
      · dsimp only at h
        split at h
        · cases h
        · split at h
          · cases h
          · cases h
            rw [length_leBytes]
      · cases h
  make_congr m m' h := by
    refine congrArg _ (funext fun S => ?_)
    unfold relocBytes
    split
    · rfl
    · next habs =>
      have hword : word32 m ((L.foff .text + L.offset i .text + r.offset) % 2^64) = word32 m' ((L.foff .text + L.offset i .text + r.offset) % 2^64) := by
        unfold word32
        refine congrArg leNat (List.map_congr_left fun k hk => h _ (Nat.le_add_right ..) ?_)
        have hk := List.mem_range.mp hk
        unfold Rela.width
        rw [if_neg habs]
        omega
      rw [hword]

/-- `copy_input_sections` -/
def copies (L : Layout) (objs : List Object) : List (ℕ × List UInt8) :=
  objs.zipIdx.flatMap fun x => [Kind.text,.rodata,.data].filterMap fun k =>
    match x.1.sec k with
    | none => none
    | some sh => if sh.type = shtNobits then none else some ((L.foff k + L.offset x.2 k) % 2^64,sh.bytes)

def relocs (L : Layout) (t : List GSym) (objs : List Object) : List Patch :=
  objs.zipIdx.flatMap fun x => x.1.relas.map (relocPatch L t x.2 x.1)

/-- A program header of type PT_LOAD. -/
structure Segment where
  flags : ℕ
  offset : ℕ
  vaddr : ℕ
  filesz : ℕ
  memsz : ℕ

def Segment.bytes (s : Segment) : List UInt8 :=
  leBytes 4 1 ++ leBytes 4 s.flags ++ leBytes 8 s.offset ++ leBytes 8 s.vaddr ++ leBytes 8 s.vaddr ++ leBytes 8 s.filesz ++
    leBytes 8 s.memsz ++ leBytes 8 segAlign

def segments (L : Layout) : List Segment :=
  [⟨5,0,loadBase,(L.foff .rodata + L.size .rodata) % 2^64,(L.foff .rodata + L.size .rodata) % 2^64⟩,
    ⟨6,L.foff .data,L.va .data,L.size .data,(L.size .data + L.size .bss) % 2^64⟩]

/-- The ELF header. -/
def ehdr (entry : ℕ) : List UInt8 :=
  [0x7f,69,76,70,2,1,1,0,0,0,0,0,0,0,0,0] ++ leBytes 2 2 ++ leBytes 2 183 ++ leBytes 4 1 ++ leBytes 8 entry ++ leBytes 8 64 ++ leBytes 8 0 ++
    leBytes 4 0 ++ leBytes 2 64 ++ leBytes 2 56 ++ leBytes 2 2 ++ leBytes 2 0 ++ leBytes 2 0 ++ leBytes 2 0

structure Exe where
  image : ByteMem
  size : ℕ
  entry : ℕ
  segments : List Segment

/-- `_user_start` -/
def userStart : Name := [95,117,115,101,114,95,115,116,97,114,116]
/-- `_start` -/
def start : Name := [95,115,116,97,114,116]

/-- The choice of the entry in `main`; `explicit` is the argument of `-e`. -/
def entryDefinition (t : List GSym) (explicit : Option Name) : Option Definition :=
  match explicit with
  | some n => definitionOf t n
  | none =>
    match definitionOf t userStart with
    | some d => some d
    | none => definitionOf t start

/-- `main` behind its options; `room` is whether the image can be allocated. -/
def link (explicit : Option Name) (objs : List Object) (room : Bool) : Option Exe :=
  if objs = [] ∨ ldMaxInputs < objs.length then none
  else do
    let t ← mergeSymbols objs
    let L := layout objs
    if !room then none
    else
      let copied ← ((copies L objs).map fun c => Patch.const c.1 c.2).foldlM (fun m p => p.apply m) fun _ => 0
      let patched ← (relocs L t objs).foldlM (fun m p => p.apply m) copied
      let d ← entryDefinition t explicit
      let entry := L.definitionVa d
      some
        { image := splice patched 0 (ehdr entry ++ (segments L).flatMap Segment.bytes)
          size := max (max ((L.foff .data + L.size .data) % 2^64) ((L.foff .rodata + L.size .rodata) % 2^64)) ((L.foff .text + L.size .text) % 2^64)
          entry := entry
          segments := segments L }

def Exe.byteAt (e : Exe) (x : ℕ) : Option UInt8 :=
  (e.segments.find? fun s => decide (s.vaddr ≤ x) && decide (x < s.vaddr + s.memsz)).map fun s =>
    if x < s.vaddr + s.filesz then e.image (s.offset + (x - s.vaddr)) else 0

end VibeOS.Ld

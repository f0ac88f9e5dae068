import VibeOS.Storage.Script
import VibeOS.Memory.PageTable

/-! The ELF loader of `elf.c`. The file is a buffer of its own, the frames are the machine's. -/
namespace VibeOS.Elf
open Function
open Storage Memory

/-- ELFMAG0 to ELFMAG3 as one number. -/
def elfMag : ℕ := 0x464C457F
def elfClass64 : ℕ := 2
def elfData2Lsb : ℕ := 1
def etExec : ℕ := 2
def emAarch64 : ℕ := 183
def ptLoad : ℕ := 1

/-- The size of `struct elf64_ehdr`. -/
def ehdrSize : ℕ := 64
/-- The size of `struct elf64_phdr`. -/
def phdrSize : ℕ := 56

def userStackTop : ℕ := 0x1040000000
def userStackPages : ℕ := 16
def userStackBot : ℕ := userStackTop - userStackPages*pageSize
def userStackGuardVa : ℕ := userStackTop - (userStackPages + 1)*pageSize
def maxUserArgv : ℕ := 64

structure UserImage where
  entryVa : ℕ
  stackTopVa : ℕ

/-- What the loader uses of `struct elf64_phdr`. -/
structure Phdr where
  type : ℕ
  offset : ℕ
  vaddr : ℕ
  filesz : ℕ
  memsz : ℕ

/-- Only the type is read of a header that is not a PT_LOAD. -/
def readPhdr (data : List UInt8) (off : ℕ) : Checked Phdr := do
  let type ← fetchLe data off 4
  if type ≠ ptLoad then return ⟨type,0,0,0,0⟩
  else
    let vaddr ← fetchLe data (off + 16) 8
    let memsz ← fetchLe data (off + 40) 8
    let offset ← fetchLe data (off + 8) 8
    let filesz ← fetchLe data (off + 32) 8
    return ⟨type,offset,vaddr,filesz,memsz⟩

namespace Phdr
variable (ph : Phdr)

def vaLo : ℕ := ph.vaddr/pageSize*pageSize
def vaHi : ℕ := (ph.vaddr + ph.memsz + pageSize - 1) % 2^64/pageSize*pageSize
def pages : ℕ := (2^64 + ph.vaHi - ph.vaLo) % 2^64/pageSize
def pageVa (k : ℕ) : ℕ := (ph.vaLo + k*pageSize) % 2^64

def Covers (va : ℕ) : Prop := ph.vaddr ≤ va ∧ va < (ph.vaddr + ph.filesz) % 2^64

instance (va : ℕ) : Decidable (ph.Covers va) := inferInstanceAs (Decidable (_ ∧ _))

def place (va : ℕ) : ℕ := (ph.offset + (va - ph.vaddr)) % 2^64

end Phdr

def copyPage (data : List UInt8) (ph : Phdr) (pgVa : ℕ) : List ℕ → (ℕ → UInt8) → Checked (ℕ → UInt8)
  | [], dst => return dst
  | b :: bs, dst =>
    if ph.Covers (pgVa + b) then do
      let byte ← fetch data (ph.place (pgVa + b))
      copyPage data ph pgVa bs (update dst b byte)
    else copyPage data ph pgVa bs dst

/-- The loop over the pages of a segment, with `n` of them left; `true` stands for going on and `false` for
-1, here and below. -/
def loadPages (data : List UInt8) (ph : Phdr) : ℕ → ℕ → AddressSpace → Pmem → Checked (Bool × AddressSpace × Pmem)
  | 0, _, as, m => return (true,as,m)
  | n + 1, k, as, m =>
    let (pgPa,m) := m.allocPage
    if pgPa = 0 then return (false,as,m)
    else do
      let page ← copyPage data ph (ph.pageVa k) (List.range pageSize) (m.bytes pgPa)
      match as.map (ph.pageVa k) pgPa 1 true true { m with bytes := update m.bytes pgPa page } with
      | (false,as,m) => return (false,as,m)
      | (true,as,m) => loadPages data ph n (k + 1) as m

/-- The loop over the program headers, with `n` of them left. -/
def loadSegments (data : List UInt8) (phoff phentsize : ℕ) :
    ℕ → ℕ → Bool → AddressSpace → Pmem → Checked (Bool × Bool × AddressSpace × Pmem)
  | 0, _, seenLoad, as, m => return (true,seenLoad,as,m)
  | n + 1, i, seenLoad, as, m => do
    let ph ← readPhdr data ((phoff + i*phentsize) % 2^64)
    if ph.type ≠ ptLoad ∨ ph.pages = 0 then loadSegments data phoff phentsize n (i + 1) seenLoad as m
    else
      let (ok,as,m) ← loadPages data ph ph.pages 0 as m
      if ok then loadSegments data phoff phentsize n (i + 1) true as m else return (false,seenLoad,as,m)

/-- The loop that maps the user stack, with `n` pages left; it keeps the frame of the page that it mapped last. -/
def mapStack : ℕ → ℕ → ℕ → AddressSpace → Pmem → Bool × ℕ × AddressSpace × Pmem
  | 0, _, top, as, m => (true,top,as,m)
  | n + 1, k, top, as, m =>
    let (pa,m) := m.allocPage
    if pa = 0 then (false,top,as,m)
    else match as.map (userStackBot + k*pageSize) pa 1 true false m with
      | (false,as,m) => (false,top,as,m)
      | (true,as,m) => mapStack n (k + 1) pa as m

def stringsBytes (argv : List (List UInt8)) : ℕ := (argv.map fun s => s.length + 1).sum
def vectorBytes (argc : ℕ) : ℕ := 8 + (argc + 1)*8 + 8
def stackTotal (argv : List (List UInt8)) : ℕ := (vectorBytes argv.length + stringsBytes argv + 15)/16*16

def writeWord (page : ℕ → UInt8) (off value : ℕ) : ℕ → UInt8 :=
  fun i => if off ≤ i ∧ i < off + 8 then UInt8.ofNat (value/256^(i - off)) else page i

def writeWords (page : ℕ → UInt8) (off : ℕ) : List ℕ → ℕ → UInt8
  | [] => page
  | v :: vs => writeWords (writeWord page off v) (off + 8) vs

def writeBytes (page : ℕ → UInt8) (off : ℕ) : List UInt8 → ℕ → UInt8
  | [] => page
  | b :: bs => writeBytes (update page off b) (off + 1) bs

/-- The strings are packed from an offset on, each with its NUL. -/
def writeStrings (page : ℕ → UInt8) (off : ℕ) : List (List UInt8) → ℕ → UInt8
  | [] => page
  | s :: argv => writeStrings (writeBytes page off (s ++ [0])) (off + s.length + 1) argv

/-- `arg_vas` -/
def argVas (va : ℕ) : List (List UInt8) → List ℕ
  | [] => []
  | s :: argv => va :: argVas (va + s.length + 1) argv

def stackPage (argv : List (List UInt8)) : ℕ → UInt8 :=
  let argc := argv.length
  let page := writeStrings (fun _ => 0) (pageSize - stringsBytes argv) argv
  let spOff := pageSize - stackTotal argv
  let page := writeWord page spOff argc
  let page := writeWords page (spOff + 8) (argVas (userStackTop - stringsBytes argv) argv)
  let page := writeWord page (spOff + 8 + argc*8) 0
  writeWord page (spOff + 8 + (argc + 1)*8) 0

/-- The strings of `argv` have no NUL in them; a NULL `argv` is an empty one. -/
def buildUserInitStack (topPagePa : ℕ) (argv : List (List UInt8)) (m : Pmem) : Option (ℕ × Pmem) :=
  if maxUserArgv < argv.length ∨ pageSize < stackTotal argv then none
  else some (userStackTop - stackTotal argv,{ m with bytes := update m.bytes topPagePa (stackPage argv) })

def finishImage (entry : ℕ) (argv : List (List UInt8)) (as : AddressSpace) (m : Pmem) (out : UserImage) :
    Bool × UserImage × AddressSpace × Pmem :=
  let out := { out with entryVa := entry }
  match mapStack userStackPages 0 0 as m with
  | (false,_,as,m) => (false,out,as,m)
  | (true,topPagePa,as,m) =>
    match as.installGuard (indexOf userStackGuardVa) m with
    | none => (false,out,as,m)
    | some (as,m) =>
      match buildUserInitStack topPagePa argv m with
      | none => (false,out,as,m)
      | some (sp,m) => (true,{ out with stackTopVa := sp },as,m)

def elfLoadUser (data : List UInt8) (argv : List (List UInt8)) (as : AddressSpace) (m : Pmem) (out : UserImage) :
    Checked (Bool × UserImage × AddressSpace × Pmem) :=
  if data.length < ehdrSize then return (false,out,as,m)
  else do
    let magic ← fetchLe data 0 4
    if magic ≠ elfMag then return (false,out,as,m)
    let cls ← fetchLe data 4 1
    let order ← fetchLe data 5 1
    if cls ≠ elfClass64 ∨ order ≠ elfData2Lsb then return (false,out,as,m)
    let type ← fetchLe data 16 2
    let machine ← fetchLe data 18 2
    if type ≠ etExec ∨ machine ≠ emAarch64 then return (false,out,as,m)
    let phnum ← fetchLe data 56 2
    let phoff ← fetchLe data 32 8
    let phentsize ← fetchLe data 54 2
    let (ok,seenLoad,as,m) ← loadSegments data phoff phentsize phnum 0 false as m
    if !ok || !seenLoad then return (false,out,as,m)
    let entry ← fetchLe data 24 8
    return finishImage entry argv as m out

end VibeOS.Elf

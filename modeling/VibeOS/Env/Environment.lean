import VibeOS.Runs
import Mathlib.Data.Int.Notation
import Mathlib.Data.List.Basic

/-! The environment of a process: the block that the kernel keeps for its children, and the arena
and the table of `env.h` in front of it. -/
namespace VibeOS.Env

def enoent : ℤ := 2
def enomem : ℤ := 12
def efault : ℤ := 14
def einval : ℤ := 22
def enametoolong : ℤ := 36

/-- THREAD_ENV_MAX -/
def threadEnvMax : ℕ := 512
/-- The size of `key` in `sys_setenv` and `sys_unsetenv`. -/
def keyMax : ℕ := 128
/-- ENV_ARENA_SIZE -/
def envArenaSize : ℕ := 16*1024
/-- ENV_MAX_ENTRIES -/
def envMaxEntries : ℕ := 256
def eq : UInt8 := 61

abbrev CString := {s : List UInt8 // 0 ∉ s}

/-- A string "KEY=VAL". -/
abbrev Entry := List UInt8

/-- The test of `env_find` and of `_env_find`. -/
def isFor (name : List UInt8) (e : Entry) : Bool := name.isPrefixOf e && e[name.length]? == some eq

/-- `env_used` -/
def envUsed (block : List Entry) : ℕ := (block.map fun e => e.length + 1).sum

/-- The bytes of the block up to its last NUL. -/
def packed (block : List Entry) : List UInt8 := block.flatMap fun e => e ++ [0]

/-- `fault` tells that a pointer of the call is bad. -/
def sysSetenv (block : List Entry) (fault : Bool) (key val : List UInt8) : ℤ × List Entry :=
  if fault then (-efault,block)
  else if keyMax ≤ key.length ∨ threadEnvMax ≤ val.length then (-enametoolong,block)
  else if key = [] ∨ eq ∈ key then (-einval,block)
  else
    let block := block.eraseP (isFor key)
    if envUsed block + (key.length + 1 + val.length + 1) > threadEnvMax - 1 then (-enomem,block)
    else (0,block ++ [key ++ eq :: val])

def sysUnsetenv (block : List Entry) (fault : Bool) (key : List UInt8) : ℤ × List Entry :=
  if fault then (-efault,block)
  else if keyMax ≤ key.length then (-enametoolong,block)
  else if block.any (isFor key) then (0,block.eraseP (isFor key))
  else (-enoent,block)

/-- What `sys_getenv_all` returns; the bytes are those of the block and one more NUL. -/
def sysGetenvAll (block : List Entry) (fault : Bool) (cap : ℕ) : ℤ :=
  if cap < envUsed block + 1 then -einval else if fault then -efault else envUsed block + 1

/-- A process with its block. The table is `g_env_envv`, with the strings that it points to, and
`used` is `g_env_arena_used`. -/
structure Process where
  inited : Bool
  used : ℕ
  table : List Entry
  block : List Entry

/-- What a call returns: a pointer to a value, or an int and what it left in `errno`. -/
inductive Result
  | value (v : Option (List UInt8))
  | int (ret : ℤ) (errno : Option ℤ)

def Result.failed : Result → Bool
  | .value _ => false
  | .int ret _ => ret == -1

/-- `__svc_check` -/
def svcCheck (r : ℤ) : ℤ := if r < 0 then -1 else r

/-- The walk of `_env_init`; `cur` is the string so far. -/
def slices (cur : List UInt8) : List UInt8 → List Entry
  | [] => if cur = [] then [] else [cur]
  | b :: bytes => if b = 0 then (if cur = [] then slices [] bytes else cur :: slices [] bytes) else slices (cur ++ [b]) bytes

namespace Process
variable (s : Process)

def envInit (fault : Bool) : Process :=
  if s.inited then s
  else
    let n := svcCheck (sysGetenvAll s.block fault envArenaSize)
    if n ≤ 0 then { s with inited := true }
    else { s with inited := true,used := envUsed s.block,table := (slices [] (packed s.block)).take envMaxEntries }

/-- `_env_find` -/
def envFind (name : List UInt8) : Option ℕ := s.table.findIdx? (isFor name)

def getenv (fault : Bool) (name : List UInt8) : Result × Process :=
  if name = [] then (.value none,s)
  else
    let s := s.envInit fault
    match s.envFind name with
    | none => (.value none,s)
    | some i => (.value (s.table[i]?.map fun e => (e.dropWhile (· ≠ eq)).tail),s)

def badName (name : List UInt8) : Bool := name = [] ∨ eq ∈ name

/-- `setenv` behind its table; the kernel gets the variable. -/
def writeThrough (fault : Bool) (name value : List UInt8) : Result × Process :=
  let (r,block) := sysSetenv s.block fault name value
  let rc := svcCheck r
  (if rc < 0 then .int (-1) (some (-rc)) else .int 0 none,{ s with block := block })

def setenv (initFault fault : Bool) (name value : List UInt8) (overwrite : Bool) : Result × Process :=
  if badName name then (.int (-1) (some einval),s)
  else
    let s := s.envInit initFault
    let idx := s.envFind name
    if idx.isSome && !overwrite then (.int 0 none,s)
    else
      -- `_env_arena_add`
      let need := name.length + 1 + value.length + 1
      if s.used + need > envArenaSize then (.int (-1) (some enomem),s)
      else
        let entry := name ++ eq :: value
        let s := { s with used := s.used + need }
        match idx with
        | some i => { s with table := s.table.set i entry }.writeThrough fault name value
        | none =>
          if s.table.length ≥ envMaxEntries then (.int (-1) (some enomem),s)
          else { s with table := s.table ++ [entry] }.writeThrough fault name value

/-- `unsetenv` takes the name out of the table. -/
def dropEntry (name : List UInt8) : Process :=
  match s.envFind name with
  | some i => { s with table := s.table.eraseIdx i }
  | none => s

def unsetenv (initFault fault : Bool) (name : List UInt8) : Result × Process :=
  if badName name then (.int (-1) (some einval),s)
  else
    let s := (s.envInit initFault).dropEntry name
    let (r,block) := sysUnsetenv s.block fault name
    let rc := svcCheck r
    -- `rc` is never -2
    (if rc < 0 ∧ rc ≠ -2 then .int (-1) (some (-rc)) else .int 0 none,{ s with block := block })

def putenv (initFault fault : Bool) (str : List UInt8) : Result × Process :=
  let key := str.takeWhile (· ≠ eq)
  if eq ∉ str ∨ key = [] then (.int (-1) (some einval),s)
  else s.setenv initFault fault key (str.drop (key.length + 1)) true

/-- A copy of a key in `clearenv`. -/
def clearName (e : Entry) : List UInt8 := (e.takeWhile (· ≠ eq)).take 63

/-- The loop of `clearenv`; the kernel call for each name may fail. -/
def unsetNames : List (List UInt8 × Bool) → Result × Process → Result × Process
  | [], p => p
  | (name,fault) :: names, (r,s) =>
    let (r',s') := s.unsetenv false fault name
    unsetNames names (match r' with
      | .int 0 _ => (r,s')
      | r' => (r',s'))

def clearenv (initFault : Bool) (faults : ℕ → Bool) : Result × Process :=
  let s := s.envInit initFault
  let names := (s.table.take envMaxEntries).map clearName
  let (r,s) := unsetNames (names.mapIdx fun i name => (name,faults i)) (.int 0 none,s)
  (r,{ s with used := 0,table := [] })

end Process

/-- A call; the flags tell that the kernel calls in it find a bad pointer. -/
inductive Event
  | getenv (initFault : Bool) (name : CString)
  | setenv (initFault fault : Bool) (name value : CString) (overwrite : Bool)
  | unsetenv (initFault fault : Bool) (name : CString)
  | putenv (initFault fault : Bool) (str : CString)
  | clearenv (initFault : Bool) (faults : ℕ → Bool)

def Process.step (s : Process) : Event → Option (Result × Process)
  | .getenv initFault name => some (s.getenv initFault name)
  | .setenv initFault fault name value overwrite => some (s.setenv initFault fault name value overwrite)
  | .unsetenv initFault fault name => some (s.unsetenv initFault fault name)
  | .putenv initFault fault str => some (s.putenv initFault fault str)
  | .clearenv initFault faults => some (s.clearenv initFault faults)

def start (block : List Entry) : Process := ⟨false,0,[],block⟩

end VibeOS.Env

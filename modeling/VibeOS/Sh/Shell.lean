import Mathlib.Data.List.DropRight
import VibeOS.Runs

/-! What `main` of `sh.c` makes of a line that `expand_vars` has been through. -/
namespace VibeOS.Sh
open Function (update)

/-- PATH_MAX -/
def pathMax : ℕ := 96
/-- MAX_SEGMENTS -/
def maxSegments : ℕ := 8

/-- `redir_in`, or `redir_out` with `redir_out_append`. -/
structure Redirect where
  path : List Char
  append : Bool

/-- A simple command: `cmd`, `args`. -/
structure Command where
  cmd : List Char
  args : List Char
  input : Option Redirect
  output : Option Redirect
  bg : Bool

/-- The `segs` of a pipeline. The shell does not look at `bg` here. -/
structure Pipeline where
  segs : List (List Char)
  input : Option Redirect
  output : Option Redirect
  bg : Bool

inductive Line
  /-- what leaves `$?` as it is -/
  | builtin
  | exit
  /-- `rm` and `mkdir` -/
  | files (names : List (List Char))
  /-- a syntax error -/
  | bad
  | simple (c : Command)
  | pipeline (p : Pipeline)

def blank (c : Char) : Bool := c == ' ' || c == '\t'

/-- The end of the word behind a `<` or `>`. -/
def stops (c : Char) : Bool := blank c || c == '<' || c == '>' || c == '|'

/-- Looks for the first `c`, which is `<` or `>`, and cuts it out of the command with the word behind
it. There is none where the word is empty. -/
def redirect (c : Char) (cmd : List Char) : Option (Option Redirect × List Char) :=
  match cmd.span (· != c) with
  | (_,[]) => some (none,cmd)
  | (before,_ :: rest) =>
    let two := c == '>' && rest.head? == some '>'
    let q := (if two then rest.drop 1 else rest).dropWhile blank
    let word := q.takeWhile (!stops ·)
    if word = [] then none
    else
      let gap := if before.getLast?.any (!blank ·) then [' '] else []
      some (some ⟨word.take (pathMax - 1),two⟩,(before ++ gap ++ q.dropWhile (!stops ·)).rdropWhile blank)

/-- The suffix `&`. -/
def background (cmd : List Char) : Bool × List Char :=
  let s := cmd.rdropWhile blank
  if s.getLast? = some '&' then (true,s.dropLast.rdropWhile blank) else (false,cmd)

def command (cmd : List Char) (input output : Option Redirect) (bg : Bool) : Line :=
  if cmd.contains '|' then
    let segs := (cmd.splitOn '|').map fun s => (s.dropWhile blank).rdropWhile blank
    if maxSegments < segs.length ∨ [] ∈ segs then .bad else .pipeline ⟨segs,input,output,bg⟩
  else .simple ⟨cmd.takeWhile (!blank ·),(cmd.dropWhile (!blank ·)).dropWhile blank,input,output,bg⟩

/-- A line that is not for a built-in, after the prefix `time `. -/
def external (cmd : List Char) : Line :=
  let (bg,cmd) := background cmd
  match redirect '<' cmd with
  | none => .bad
  | some (input,cmd) =>
    match redirect '>' cmd with
    | none => .bad
    | some (output,cmd) => command cmd input output bg

def words (s : List Char) : List (List Char) := (s.splitOnP blank).filter (· ≠ [])

def parse (line : List Char) : Line :=
  let begins (s : String) := s.toList.isPrefixOf line
  if line = [] ∨ line ∈ ["help".toList,"pwd".toList,"cd".toList,"time".toList] then .builtin
  else if line = "exit".toList ∨ begins "exit " then .exit
  else if begins "cd " || begins "export " || begins "unset " then .builtin
  else if begins "rm " then .files (words (line.drop 3))
  else if begins "mkdir " then .files (words (line.drop 6))
  else if begins "time " then
    match (line.drop 5).dropWhile blank with
    | [] => .builtin
    | cmd => external cmd
  else external line


/-! The loop of `main` in `sh.c` over its command lines, with the descriptors and the children of the
shell. A step is one system call of the shell, or the exit of a child. -/

/-- FD_TABLE_SIZE -/
def fdTableSize : ℕ := 16

/-- A thread on the list of all threads whose parent is the shell, with its `exit_code` from
THREAD_EXITED on. -/
structure Child where
  tid : ℕ
  exited : Option ℤ

/-- Where the shell is, with `sh_in_fd`, `sh_out_fd`, `pipes` and `tids`. -/
inductive Phase
  | prompt
  /-- a simple command before its `open`s and its spawn -/
  | openOut (c : Command)
  | openIn (c : Command) (out : ℕ)
  | spawn (c : Command) (inFd outFd : Option ℕ)
  /-- a pipeline before its `open`s, its `pipe`s and its spawns -/
  | pipeIn (p : Pipeline)
  | pipeOut (p : Pipeline) (inFd : Option ℕ)
  | pipes (p : Pipeline) (inFd outFd : Option ℕ) (pipes : List (ℕ × ℕ))
  | stages (p : Pipeline) (inFd outFd : Option ℕ) (pipes : List (ℕ × ℕ)) (tids : List (Option ℕ))
  /-- in `wait`, which is called `left` more times, with `spawn_failed` and `last_code` -/
  | waits (failed : Bool) (left : ℕ) (lastCode : ℤ)
  | gone

/-- The shell, with `g_last_exit`, its descriptors in use, its children from the newest one on, and the
number of threads made in all. What is behind them is kept beside the program's own data: the
descriptors when the line was read, the stages of the command in the foreground with `none` for one that
could not be spawned, the children of the commands in the background, the codes of all children that
exited, who was reaped, how often the prompt was shown, and how often it had been when a child exited. -/
structure Shell where
  phase : Phase
  status : ℤ
  fds : ℕ → Bool
  children : List Child
  made : ℕ
  before : ℕ → Bool
  job : List (Option ℕ)
  bgs : List ℕ
  codes : ℕ → Option ℤ
  reaped : List ℕ
  prompts : ℕ
  exitedAt : ℕ → ℕ

inductive Event
  /-- a line comes in; `ok` tells whether an `rm` or `mkdir` meets no error -/
  | line (text : List Char) (ok : Bool)
  /-- the next `open`, `pipe` or spawn; `ok` tells whether it succeeds where there are descriptors -/
  | call (ok : Bool)
  /-- the next `wait` returns -/
  | wait
  | exit (tid : ℕ) (code : ℤ)
  /-- a thread is made elsewhere -/
  | other

/-- Where a pipeline goes on with `npipe` pipes to allocate. -/
def Phase.piping (p : Pipeline) (inFd outFd : Option ℕ) (pipes : List (ℕ × ℕ)) : Phase :=
  if pipes.length < p.segs.length - 1 then .pipes p inFd outFd pipes else .stages p inFd outFd pipes []

def Phase.opening (p : Pipeline) (inFd : Option ℕ) : Phase :=
  if p.output.isSome then .pipeOut p inFd else .piping p inFd none []

/-- The descriptors that are closed at the end of a pipeline. -/
def flat (pipes : List (ℕ × ℕ)) (inFd outFd : Option ℕ) : List ℕ :=
  pipes.flatMap (fun q => [q.1,q.2]) ++ (inFd.toList ++ outFd.toList)

namespace Shell
variable (s : Shell)

def goto (p : Phase) : Shell := { s with phase := p }

/-- The loop starts again, with `$?` set. -/
def back (status : ℤ) : Shell := { s with phase := .prompt, status := status, prompts := s.prompts + 1 }

/-- `open` -/
def openFd (ok : Bool) : Option (ℕ × Shell) :=
  if ok then
    ((List.range fdTableSize).find? fun fd => decide (3 ≤ fd) && !s.fds fd).map fun fd =>
      (fd,{ s with fds := update s.fds fd true })
  else none

/-- `pipe`, which changes nothing where there is no second descriptor. -/
def pipe (ok : Bool) : Option ((ℕ × ℕ) × Shell) :=
  (s.openFd ok).bind fun (r,s) => (s.openFd ok).map fun (w,s) => ((r,w),s)

def close (fd : ℕ) : Shell := { s with fds := update s.fds fd false }

def closeAll (l : List ℕ) : Shell := l.foldl close s

/-- `spawn`, `spawn_redir`, `spawn_pipe` -/
def spawned : Shell := { s with children := ⟨s.made,none⟩ :: s.children, made := s.made + 1 }

def read (text : List Char) (ok : Bool) : Shell :=
  let s := { s with before := s.fds, job := [] }
  match parse text with
  | .builtin => s.back s.status
  | .exit => s.goto .gone
  | .files names => s.back (if names = [] ∨ ok then 0 else 1)
  | .bad => s.back 2
  | .simple c => s.goto (if c.output.isSome then .openOut c else .spawn c none none)
  | .pipeline p => s.goto (if p.input.isSome then .pipeIn p else .opening p none)

def launch (c : Command) (inFd outFd : Option ℕ) (ok : Bool) : Shell :=
  if ok then
    let tid := s.made
    let s := s.spawned.closeAll (flat [] inFd outFd)
    if c.bg then { s with bgs := tid :: s.bgs }.back 0
    else { s with job := [some tid] }.goto (.waits false 1 0)
  else
    let s := s.closeAll (flat [] inFd outFd)
    { s with job := if c.bg then [] else [none] }.back 127

def await (p : Pipeline) (tids : List (Option ℕ)) : Shell :=
  let failed := tids.any Option.isNone
  let waits := tids.countP Option.isSome
  let s := { s with job := if p.bg then [] else tids }
  if waits = 0 then s.back (if failed then 127 else 0) else s.goto (.waits failed waits 0)

def staged (p : Pipeline) (inFd outFd : Option ℕ) (pipes : List (ℕ × ℕ)) (tids : List (Option ℕ)) : Shell :=
  if tids.length < p.segs.length then s.goto (.stages p inFd outFd pipes tids)
  else (s.closeAll (flat pipes inFd outFd)).await p tids

def stage (p : Pipeline) (inFd outFd : Option ℕ) (pipes : List (ℕ × ℕ)) (tids : List (Option ℕ)) (ok : Bool) : Shell :=
  if ok then s.spawned.staged p inFd outFd pipes (tids ++ [some s.made])
  else s.staged p inFd outFd pipes (tids ++ [none])

def call (ok : Bool) : Option Shell :=
  match s.phase with
  | .openOut c =>
    match s.openFd ok with
    | none => some (s.back 1)
    | some (out,s) => some (s.goto (if c.input.isSome then .openIn c out else .spawn c none (some out)))
  | .openIn c out =>
    match s.openFd ok with
    | none => some ((s.close out).back 1)
    | some (fd,s) => some (s.goto (.spawn c (some fd) (some out)))
  | .spawn c inFd outFd => some (s.launch c inFd outFd ok)
  | .pipeIn p =>
    match s.openFd ok with
    | none => some (s.back 1)
    | some (fd,s) => some (s.goto (.opening p (some fd)))
  | .pipeOut p inFd =>
    match s.openFd ok with
    | none => some ((s.closeAll inFd.toList).back 1)
    | some (out,s) => some (s.goto (.piping p inFd (some out) []))
  | .pipes p inFd outFd pipes =>
    match s.pipe ok with
    | none => some ((s.closeAll (flat pipes inFd outFd)).back 1)
    | some (q,s) => some (s.goto (.piping p inFd outFd (pipes ++ [q])))
  | .stages p inFd outFd pipes tids => some (s.stage p inFd outFd pipes tids ok)
  | _ => none

/-- What follows a `wait` that stored `code`. -/
def waited (failed : Bool) (left : ℕ) (code : ℤ) : Shell :=
  if left ≤ 1 then s.back (if failed then 127 else code) else s.goto (.waits failed (left - 1) code)

def reap (tid : ℕ) : Shell :=
  { s with children := s.children.filter (·.tid ≠ tid), reaped := tid :: s.reaped }

/-- `thread_wait`, which sleeps while no child has exited. -/
def wait : Option Shell :=
  match s.phase with
  | .waits failed left _ =>
    match s.children.findSome? fun c => c.exited.map fun code => (c.tid,code) with
    | some (tid,code) => some ((s.reap tid).waited failed left code)
    | none => if s.children.isEmpty then some (s.waited failed left 0) else none
  | _ => none

/-- `thread_exit` of a child. -/
def exit (tid : ℕ) (code : ℤ) : Shell :=
  { s with
    children := s.children.map fun c => if c.tid = tid then { c with exited := some code } else c
    codes := update s.codes tid (some code)
    exitedAt := update s.exitedAt tid s.prompts }

def step (s : Shell) : Event → Option (Unit × Shell)
  | .line text ok =>
    match s.phase with
    | .prompt => some ((),s.read text ok)
    | _ => none
  | .call ok => (s.call ok).map fun s => ((),s)
  | .wait => s.wait.map fun s => ((),s)
  | .exit tid code =>
    if s.children.any fun c => c.tid == tid && c.exited.isNone then some ((),s.exit tid code) else none
  | .other => some ((),{ s with made := s.made + 1 })

end Shell

structure Shell.Starts (s : Shell) : Prop where
  prompt : s.phase = .prompt
  children : s.children = []
  job : s.job = []
  bgs : s.bgs = []
  codes : ∀ t, s.codes t = none
  reaped : s.reaped = []
  before : s.before = s.fds

end VibeOS.Sh

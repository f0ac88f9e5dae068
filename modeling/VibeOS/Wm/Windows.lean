import VibeOS.Runs
import Mathlib.Data.List.FinRange

/-! The window table of `kernel/core/wm.c`, with its event rings and the routing of the input. -/
namespace VibeOS.Wm
open Function (update)

abbrev maxWindows : ℕ := 16
abbrev eventQueueCap : ℕ := 64

/-- The size of `g_keys_held`: the bytes and the `GUI_KEY_*` codes. -/
abbrev keyCount : ℕ := 0x110

def minWidth : UInt32 := 80
def minHeight : UInt32 := 40
def maxWidth : UInt32 := 2048
def maxHeight : UInt32 := 2048
def titleHeight : Int32 := 24
def border : Int32 := 1
def gripSize : Int32 := 14
def closeBtnW : Int32 := 20
def minBtnW : Int32 := 20
def btnGap : Int32 := 2

def guiEventKey : UInt32 := 1
def guiEventClose : UInt32 := 2
def guiEventMouseMove : UInt32 := 3
def guiEventMouseDown : UInt32 := 4
def guiEventMouseUp : UInt32 := 5
def guiEventResize : UInt32 := 6
def guiEventKeyUp : UInt32 := 7

def guiBtnLeft : UInt32 := 1

def flagNoDecoration : UInt32 := 0x1
def flagAlwaysOnTop : UInt32 := 0x2
def flagPinToBottom : UInt32 := 0x4
def flagResizable : UInt32 := 0x10

def einval : ℤ := 22
def enomem : ℤ := 12
def enoent : ℤ := 2
def efault : ℤ := 14
def enospc : ℤ := 28

structure GuiEvent where
  type : UInt32
  windowId : ℤ
  arg0 : UInt32
  arg1 : UInt32
  arg2 : UInt32
  arg3 : UInt32
  deriving DecidableEq, Repr

/-- `head` is the next slot to write, `tail` the next one to read. -/
structure GuiEventRing where
  slots : Fin eventQueueCap → GuiEvent
  head : Fin eventQueueCap
  tail : Fin eventQueueCap

namespace GuiEventRing

def push (r : GuiEventRing) (ev : GuiEvent) : Bool × GuiEventRing :=
  if r.head + 1 = r.tail then (false,r)
  else (true,{ r with slots := update r.slots r.head ev, head := r.head + 1 })

def pop (r : GuiEventRing) : Option (GuiEvent × GuiEventRing) :=
  if r.head = r.tail then none else some (r.slots r.tail,{ r with tail := r.tail + 1 })

/-- The event pushed last takes over the first two arguments of a new one that it matches. -/
def coalesce (matching : GuiEvent → GuiEvent → Bool) (r : GuiEventRing) (ev : GuiEvent) : Option GuiEventRing :=
  if r.head = r.tail then none
  else
    let last := r.head + 63
    if matching (r.slots last) ev then
      some { r with slots := update r.slots last { r.slots last with arg0 := ev.arg0, arg1 := ev.arg1 } }
    else none

def coalesceMouseMove : GuiEventRing → GuiEvent → Option GuiEventRing :=
  coalesce fun last ev => last.type == guiEventMouseMove && last.arg2 == ev.arg2

def coalesceResize : GuiEventRing → GuiEvent → Option GuiEventRing :=
  coalesce fun last _ => last.type == guiEventResize

end GuiEventRing

/-- A record of `g_wins`, less the mapping of its pixels into the owner's address space. The last two
fields are not in the code: the events generated for the window, and those its owner has polled. -/
structure Window where
  inUse : Bool
  id : ℤ
  ownerPid : UInt64
  z : UInt32
  flags : UInt32
  minimized : Bool
  x : Int32
  y : Int32
  w : UInt32
  h : UInt32
  pixels : Option (ℕ → ℕ → UInt32)
  title : List UInt8
  events : GuiEventRing
  inputPassthrough : Bool
  generated : List GuiEvent
  polled : List GuiEvent

namespace Window

def has (w : Window) (flag : UInt32) : Bool := w.flags &&& flag != 0

/-- `ring_push` on the ring of the window. -/
def push (w : Window) (ev : GuiEvent) : Bool × Window :=
  let (ok,r) := w.events.push ev
  (ok,{ w with events := r, generated := w.generated ++ [ev] })

/-- An event that is pushed where it does not coalesce. -/
def post (coalesce : GuiEventRing → GuiEvent → Option GuiEventRing) (w : Window) (ev : GuiEvent) : Window :=
  match coalesce w.events ev with
  | some r => { w with events := r, generated := w.generated ++ [ev] }
  | none => (w.push ev).2

def decoWidth (w : Window) : Int32 := w.w.toInt32 + 2*border
def decoHeight (w : Window) : Int32 := w.h.toInt32 + titleHeight + border

def covers (w : Window) (sx sy : Int32) : Bool :=
  let x1 := if w.has flagNoDecoration then w.x + w.w.toInt32 else w.x + w.w.toInt32 + 2*border
  let y1 := if w.has flagNoDecoration then w.y + w.h.toInt32 else w.y + w.h.toInt32 + titleHeight + border
  !(sx < w.x || x1 ≤ sx) && !(sy < w.y || y1 ≤ sy)

end Window

/-- What `classify_click` says of a point, with the place in the content for `B`. -/
inductive Zone
  | close | minimize | grip | title | miss
  | body (cx cy : Int32)

def Window.gripX (w : Window) : Int32 := w.x + w.decoWidth - gripSize - border
def Window.gripY (w : Window) : Int32 := w.y + w.decoHeight - gripSize - border

def Window.classifyClick (w : Window) (sx sy : Int32) : Zone :=
  if w.has flagNoDecoration then
    if sx < w.x || w.x + w.w.toInt32 ≤ sx then .miss
    else if sy < w.y || w.y + w.h.toInt32 ≤ sy then .miss
    else .body (sx - w.x) (sy - w.y)
  else if sx < w.x || w.x + w.decoWidth ≤ sx then .miss
  else if sy < w.y || w.y + w.decoHeight ≤ sy then .miss
  else if (w.has flagResizable && gripSize + 2 ≤ w.decoWidth && gripSize + titleHeight + 2 ≤ w.decoHeight) &&
      (w.gripX ≤ sx && sx < w.gripX + gripSize && w.gripY ≤ sy && sy < w.gripY + gripSize) then .grip
  else
    let by0 := w.y + 2
    let inBar := by0 ≤ sy && sy < by0 + titleHeight - 4
    let closeX := w.x + w.decoWidth - closeBtnW - 2
    let minX := w.x + w.decoWidth - closeBtnW - 2 - btnGap - minBtnW
    if closeBtnW + 4 ≤ w.decoWidth && (closeX ≤ sx && sx < closeX + closeBtnW && inBar) then .close
    else if closeBtnW + minBtnW + btnGap + 8 ≤ w.decoWidth && (minX ≤ sx && sx < minX + minBtnW && inBar) then .minimize
    else if sy < w.y + titleHeight then .title
    else
      let cx := sx - (w.x + border)
      let cy := sy - (w.y + titleHeight)
      if cx < 0 || cy < 0 then .miss
      else if w.w.toInt32 ≤ cx || w.h.toInt32 ≤ cy then .miss
      else .body cx cy

/-- The variables of the module. `nextZ` counts without the wrap of `g_next_z`, which is its value
modulo `2^32`: it is only ever incremented and then stored in a window. -/
structure State where
  wins : Fin maxWindows → Window
  nextZ : ℕ
  nextCascade : UInt32
  focusId : ℤ
  keysHeld : Fin keyCount → Bool
  pointerX : Int32
  pointerY : Int32
  buttons : UInt32
  dragId : ℤ
  dragDx : Int32
  dragDy : Int32
  resizeId : ℤ
  resizeGripDx : Int32
  resizeGripDy : Int32
  resizeOriginW : UInt32
  resizeOriginH : UInt32
  resizeOriginX : Int32
  resizeOriginY : Int32
  csiState : ℕ
  csiParam : Int32

def slotOf (id : ℤ) : Option (Fin maxWindows) :=
  if h : 0 ≤ id ∧ id < maxWindows then some ⟨id.toNat,by omega⟩ else none

/-- `-1` where a loop over the table has found no window. -/
def idOf : Option (Fin maxWindows) → ℤ
  | none => -1
  | some i => i.val

/-- A loop over the table that keeps a window until a better one comes. -/
def pick (wins : Fin maxWindows → Window) (eligible : Window → Bool) (better : Window → Window → Bool) :
    Option (Fin maxWindows) :=
  (List.finRange maxWindows).foldl (fun best i =>
    if eligible (wins i) then
      match best with
      | none => some i
      | some b => if better (wins i) (wins b) then some i else best
    else best) none

namespace State

def winById (s : State) (id : ℤ) : Option (Fin maxWindows) := (slotOf id).filter fun i => (s.wins i).inUse

def winOwnedBy (s : State) (id : ℤ) (pid : UInt64) : Option (Fin maxWindows) :=
  (s.winById id).filter fun i => (s.wins i).ownerPid == pid

def setWin (s : State) (i : Fin maxWindows) (w : Window) : State := { s with wins := update s.wins i w }

/-- `ring_push` on the ring of a window, with its result dropped. -/
def push (s : State) (i : Fin maxWindows) (ev : GuiEvent) : State := s.setWin i ((s.wins i).push ev).2

def topmostId (s : State) : ℤ := idOf (pick s.wins (fun w => w.inUse) fun o b => b.z ≤ o.z)

def deliverKey (s : State) (i : Fin maxWindows) (key : UInt32) : State :=
  let s := s.push i ⟨guiEventKey,(s.wins i).id,key,0,0,0⟩
  if h : key.toNat < keyCount then { s with keysHeld := update s.keysHeld ⟨key.toNat,h⟩ true } else s

/-- One turn of the loop of `synthesize_releases_to`. -/
def releaseKey (w : Option (Fin maxWindows)) (s : State) (k : Fin keyCount) : State :=
  if s.keysHeld k then
    let s := { s with keysHeld := update s.keysHeld k false }
    match w with
    | some i => s.push i ⟨guiEventKeyUp,(s.wins i).id,UInt32.ofNat k,0,0,0⟩
    | none => s
  else s

def synthesizeReleasesTo (s : State) (w : Option (Fin maxWindows)) : State :=
  (List.finRange keyCount).foldl (releaseKey w) s

def setFocus (s : State) (newId : ℤ) : State :=
  if newId = s.focusId then s
  else
    let s := if 0 ≤ s.focusId then s.synthesizeReleasesTo (s.winById s.focusId) else s
    { s with focusId := newId }

def esc : UInt8 := 0x1B

/-- The first case of the parser, which the second one goes back to. -/
def idleByte (s : State) (i : Fin maxWindows) (c : UInt8) : State :=
  if c = esc then { s with csiState := 1 } else s.deliverKey i c.toUInt32

def isDigit (c : UInt8) : Bool := 48 ≤ c && c ≤ 57

def finalKey (c : UInt8) : Option UInt32 :=
  if c = 65 then some 0x101
  else if c = 66 then some 0x102
  else if c = 67 then some 0x103
  else if c = 68 then some 0x104
  else if c = 72 then some 0x105
  else if c = 70 then some 0x106
  else none

/-- The code that a parameter before `~` stands for. -/
def paramKey (p : Int32) : Option UInt32 :=
  if p = 5 then some 0x107
  else if p = 6 then some 0x108
  else none

def deliverIf (s : State) (i : Fin maxWindows) : Option UInt32 → State
  | some key => s.deliverKey i key
  | none => s

def keyboardByte (s : State) (c : UInt8) : ℤ × State :=
  match s.winById s.focusId with
  | none => (0,{ s with csiState := 0 })
  | some i =>
    let param := s.csiParam*10 + (c.toUInt32 - 48).toInt32
    (1,match s.csiState with
      | 0 => s.idleByte i c
      | 1 =>
        if c = 91 then { s with csiState := 2, csiParam := 0 }
        else ({ s with csiState := 0 }.deliverKey i esc.toUInt32).idleByte i c
      | 2 =>
        if isDigit c then { s with csiState := 3, csiParam := param }
        else { s with csiState := 0 }.deliverIf i (finalKey c)
      | _ =>
        if isDigit c then { s with csiParam := param }
        else if c = 126 then { s with csiState := 0, csiParam := 0 }.deliverIf i (paramKey s.csiParam)
        else { s with csiState := 0, csiParam := 0 })

def flushPendingKeys (s : State) : State :=
  if s.csiState = 0 then s
  else
    let s := { s with csiState := 0, csiParam := 0 }
    match s.winById s.focusId with
    | none => s
    | some i => s.deliverKey i esc.toUInt32

def keyboardRelease (s : State) (key : UInt32) : ℤ × State :=
  if s.focusId < 0 then (0,s)
  else
    let release (s : State) : ℤ × State :=
      match s.winById s.focusId with
      | none => (0,s)
      | some i => (1,s.push i ⟨guiEventKeyUp,(s.wins i).id,key,0,0,0⟩)
    if h : key.toNat < keyCount then
      if s.keysHeld ⟨key.toNat,h⟩ then release { s with keysHeld := update s.keysHeld ⟨key.toNat,h⟩ false }
      else (0,s)
    else release s

/-- `w->z = ++g_next_z` -/
def bumpZ (s : State) (i : Fin maxWindows) : State :=
  { s.setWin i { s.wins i with z := UInt32.ofNat (s.nextZ + 1) } with nextZ := s.nextZ + 1 }

def bumpUnlessTop (s : State) (i : Fin maxWindows) : State :=
  if (s.wins i).has flagAlwaysOnTop then s else s.bumpZ i

def raiseWindow (s : State) (id : ℤ) : ℤ × State :=
  match slotOf id with
  | none => (-einval,s)
  | some i =>
    if !(s.wins i).inUse then (-enoent,s)
    else
      let s := s.setWin i { s.wins i with minimized := false }
      let s := s.bumpUnlessTop i
      (0,s.setFocus (s.wins i).id)

/-- The window that the focus goes to when its window is hidden. -/
def nextVisible (s : State) : Option (Fin maxWindows) :=
  pick s.wins (fun o => o.inUse && !o.minimized && !o.has flagPinToBottom) fun o b => b.z < o.z

def setMinimized (s : State) (id : ℤ) (on : Bool) : ℤ × State :=
  match slotOf id with
  | none => (-einval,s)
  | some i =>
    if !(s.wins i).inUse then (-enoent,s)
    else if (s.wins i).has flagPinToBottom then (-einval,s)
    else if on then
      if (s.wins i).minimized then (0,s)
      else
        let s := s.setWin i { s.wins i with minimized := true }
        if s.focusId = (s.wins i).id then
          (0,s.setFocus (match s.nextVisible with
            | some b => (s.wins b).id
            | none => -1))
        else (0,s)
    else if !(s.wins i).minimized then (0,s)
    else
      let s := s.setWin i { s.wins i with minimized := false }
      let s := s.bumpUnlessTop i
      (0,s.setFocus (s.wins i).id)

def moveWindow (s : State) (id : ℤ) (x y : Int32) : ℤ × State :=
  match slotOf id with
  | none => (-einval,s)
  | some i =>
    if !(s.wins i).inUse then (-enoent,s)
    else (0,s.setWin i { s.wins i with x := x, y := y })

def setInputPassthrough (s : State) (id : ℤ) (on : Bool) : ℤ × State :=
  match slotOf id with
  | none => (-einval,s)
  | some i =>
    if !(s.wins i).inUse then (-enoent,s)
    else (0,s.setWin i { s.wins i with inputPassthrough := on })

/-- `wm_deliver_event`, with the event that `copy_from_user` gives. -/
def deliverEvent (s : State) (id : ℤ) (ev : Option GuiEvent) : ℤ × State :=
  match slotOf id with
  | none => (-einval,s)
  | some i =>
    if !(s.wins i).inUse then (-enoent,s)
    else
      match ev with
      | none => (-efault,s)
      | some ev =>
        let (ok,w) := (s.wins i).push { ev with windowId := (s.wins i).id }
        (if ok then 0 else -enospc,s.setWin i w)

/-- `wm_poll_event` takes from the first window of the process that has events; `copied` says whether
`copy_to_user` succeeds. -/
def pollEvent (s : State) (pid : UInt64) (copied : Bool) : ℤ × State :=
  let holds (i : Fin maxWindows) : Bool :=
    (s.wins i).inUse && (s.wins i).ownerPid == pid && (s.wins i).events.pop.isSome
  match (List.finRange maxWindows).find? holds with
  | none => (0,s)
  | some i =>
    match (s.wins i).events.pop with
    | none => (0,s)
    | some (ev,r) =>
      if copied then (1,s.setWin i { s.wins i with events := r, polled := (s.wins i).polled ++ [ev] })
      else (-efault,s.setWin i { s.wins i with events := r })

/-- The colour of a window that its owner has not painted. -/
def blank : UInt32 := 0x00202020

def clamp (lo hi v : UInt32) : UInt32 := min hi (max lo v)

/-- `resize_window_to`; `alloc` says whether `kmalloc` succeeds. -/
def resizeWindowTo (s : State) (i : Fin maxWindows) (newW newH : UInt32) (alloc : Bool) : State :=
  let w := s.wins i
  let newW := clamp minWidth maxWidth newW
  let newH := clamp minHeight maxHeight newH
  if newW = w.w && newH = w.h then s
  else if !alloc then s
  else
    let copied := fun row col =>
      if row < min w.h.toNat newH.toNat ∧ col < min w.w.toNat newW.toNat then (w.pixels.getD fun _ _ => blank) row col
      else blank
    let w := { w with pixels := some copied, w := newW, h := newH }
    s.setWin i (w.post GuiEventRing.coalesceResize ⟨guiEventResize,w.id,newW,newH,0,0⟩)

def draggedSize (least : UInt32) (most : UInt32) (v : Int32) : UInt32 :=
  (min most.toInt32 (max least.toInt32 v)).toUInt32

/-- A pointer that has moved drags a window, resizes one, or is seen by the one with the focus. -/
def routeMove (s : State) (sx sy : Int32) (alloc : Bool) : State :=
  if 0 ≤ s.dragId then
    match s.winById s.dragId with
    | some i => s.setWin i { s.wins i with x := sx - s.dragDx, y := sy - s.dragDy }
    | none => { s with dragId := -1 }
  else if 0 ≤ s.resizeId then
    match (s.winById s.resizeId).filter fun i => (s.wins i).has flagResizable with
    | some i =>
      let w := s.wins i
      let cornerX := sx + (gripSize - s.resizeGripDx) - 1
      let cornerY := sy + (gripSize - s.resizeGripDy) - 1
      let newW := cornerX - w.x + 1 - 2*border
      let newH := cornerY - w.y + 1 - titleHeight - border
      s.resizeWindowTo i (draggedSize minWidth maxWidth newW) (draggedSize minHeight maxHeight newH) alloc
    | none => { s with resizeId := -1 }
  else
    match (s.winById s.focusId).filter fun i => !(s.wins i).inputPassthrough with
    | some i =>
      match (s.wins i).classifyClick sx sy with
      | .body cx cy =>
        s.setWin i ((s.wins i).post GuiEventRing.coalesceMouseMove
          ⟨guiEventMouseMove,(s.wins i).id,cx.toUInt32,cy.toUInt32,s.buttons,0⟩)
      | _ => s
    | none => s

def pointerMove (s : State) (sx sy : Int32) (alloc : Bool) : State :=
  if s.pointerX = sx && s.pointerY = sy then s
  else { s with pointerX := sx, pointerY := sy }.routeMove sx sy alloc

/-- `hit_test`: the topmost window under the pointer. -/
def hitTest (s : State) (sx sy : Int32) : Option (Fin maxWindows) :=
  pick s.wins
    (fun w => w.inUse && !w.has flagPinToBottom && !w.minimized && !w.inputPassthrough && w.covers sx sy)
    fun o b =>
      let pinned := o.has flagAlwaysOnTop
      let bestPinned := b.has flagAlwaysOnTop
      (pinned && !bestPinned) || (pinned == bestPinned && b.z < o.z)

def pressLeft (s : State) (i : Fin maxWindows) (button : UInt32) : State :=
  let zone := (s.wins i).classifyClick s.pointerX s.pointerY
  let s := s.bumpUnlessTop i
  let s := s.setFocus (s.wins i).id
  let w := s.wins i
  match zone with
  | .close => s.push i ⟨guiEventClose,w.id,0,0,0,0⟩
  | .minimize => (s.setMinimized w.id true).2
  | .title => { s with dragId := w.id, dragDx := s.pointerX - w.x, dragDy := s.pointerY - w.y }
  | .grip =>
    { s with
      resizeId := w.id
      resizeGripDx := s.pointerX - w.gripX
      resizeGripDy := s.pointerY - w.gripY
      resizeOriginW := w.w
      resizeOriginH := w.h
      resizeOriginX := w.x
      resizeOriginY := w.y }
  | .body cx cy => s.push i ⟨guiEventMouseDown,w.id,cx.toUInt32,cy.toUInt32,button,s.buttons⟩
  | .miss => s

def routeButton (s : State) (button : UInt32) (down : Bool) : State :=
  if !down && button == guiBtnLeft && 0 ≤ s.dragId then { s with dragId := -1 }
  else if !down && button == guiBtnLeft && 0 ≤ s.resizeId then { s with resizeId := -1 }
  else if s.pointerX < 0 || s.pointerY < 0 then s
  else if down && button == guiBtnLeft then
    match s.hitTest s.pointerX s.pointerY with
    | none => s
    | some i => s.pressLeft i button
  else
    match (s.winById s.focusId).filter fun i => !(s.wins i).inputPassthrough with
    | some i =>
      match (s.wins i).classifyClick s.pointerX s.pointerY with
      | .body cx cy =>
        s.push i ⟨if down then guiEventMouseDown else guiEventMouseUp,(s.wins i).id,cx.toUInt32,cy.toUInt32,button,
          s.buttons⟩
      | _ => s
    | none => s

def pointerButton (s : State) (button : UInt32) (down : Bool) : State :=
  { s with buttons := if down then s.buttons ||| button else s.buttons &&& ~~~button }.routeButton button down

/-- The arguments of `wm_create_window_ex`, with the title that `copy_string_from_user` gives. -/
structure Request where
  pid : UInt64
  w : UInt32
  h : UInt32
  title : Option (List UInt8)
  flags : UInt32
  wantX : Int32
  wantY : Int32

def Request.valid (q : Request) : Bool :=
  let has (flag : UInt32) : Bool := q.flags &&& flag != 0
  let least (floor : UInt32) : UInt32 := if has flagNoDecoration then 8 else floor
  (q.flags &&& ~~~(flagNoDecoration ||| flagAlwaysOnTop ||| flagPinToBottom ||| flagResizable)) == 0 &&
    !(has flagPinToBottom && has flagAlwaysOnTop) && !(has flagResizable && has flagNoDecoration) &&
    !(q.w < least minWidth || maxWidth < q.w) && !(q.h < least minHeight || maxHeight < q.h)

def freeSlot (s : State) : Option (Fin maxWindows) := (List.finRange maxWindows).find? fun i => !(s.wins i).inUse

def Request.place (q : Request) (cascade : UInt32) : Int32 × Int32 :=
  let step := ((cascade % 8)*32).toInt32
  if 0 ≤ q.wantX && 0 ≤ q.wantY then (q.wantX,q.wantY) else (80 + step,60 + step)

/-- What `wm_create_window_ex` writes into the record that it takes. -/
def enter (w : Window) (q : Request) (i : Fin maxWindows) (z : UInt32) (cascade : UInt32) : Window :=
  { w with
    inUse := true
    id := i.val
    ownerPid := q.pid
    z := z
    flags := q.flags
    minimized := false
    w := q.w
    h := q.h
    pixels := some fun _ _ => blank
    events := { w.events with head := 0, tail := 0 }
    x := (q.place cascade).1
    y := (q.place cascade).2
    title := q.title.getD []
    generated := []
    polled := [] }

def createWindowEx (s : State) (q : Request) (alloc : Bool) : ℤ × State :=
  if !q.valid then (-einval,s)
  else
    match s.freeSlot with
    | none => (-enospc,s)
    | some i =>
      if !alloc then (-enomem,s)
      else
        let s := { s.setWin i (enter (s.wins i) q i (UInt32.ofNat (s.nextZ + 1)) s.nextCascade) with
          nextZ := s.nextZ + 1
          nextCascade := if 0 ≤ q.wantX && 0 ≤ q.wantY then s.nextCascade else s.nextCascade + 1 }
        if q.flags &&& (flagAlwaysOnTop ||| flagPinToBottom) != 0 then (i.val,s)
        else (i.val,s.setFocus i.val)

def close (s : State) (i : Fin maxWindows) : State := s.setWin i { s.wins i with pixels := none, inUse := false }

def refocus (s : State) : State := { s with keysHeld := fun _ => false, focusId := s.topmostId }

def undrag (s : State) (id : ℤ) : State :=
  { s with
    dragId := if s.dragId = id then -1 else s.dragId
    resizeId := if s.resizeId = id then -1 else s.resizeId }

def destroyWindow (s : State) (pid : UInt64) (id : ℤ) : ℤ × State :=
  match s.winOwnedBy id pid with
  | none => (-enoent,s)
  | some i =>
    let s := s.close i
    let s := if s.focusId = id then s.refocus else s
    (0,s.undrag id)

/-- One turn of the loop of `wm_destroy_owner`. -/
def destroyOwned (pid : UInt64) (s : State) (i : Fin maxWindows) : State :=
  if (s.wins i).inUse && (s.wins i).ownerPid == pid then (s.close i).undrag i.val else s

def destroyAll (s : State) (pid : UInt64) : State := (List.finRange maxWindows).foldl (destroyOwned pid) s

def destroyOwner (s : State) (pid : UInt64) : State :=
  let any := (List.finRange maxWindows).any fun i => (s.wins i).inUse && (s.wins i).ownerPid == pid
  let s := s.destroyAll pid
  if !any then s
  else if 0 ≤ s.focusId && (s.winById s.focusId).isNone then s.refocus
  else s

inductive Call
  | createWindowEx (q : Request) (alloc : Bool)
  | destroyWindow (pid : UInt64) (id : ℤ)
  | destroyOwner (pid : UInt64)
  | raiseWindow (id : ℤ)
  | setMinimized (id : ℤ) (on : Bool)
  | moveWindow (id : ℤ) (x y : Int32)
  | setInputPassthrough (id : ℤ) (on : Bool)
  | pointerMove (sx sy : Int32) (alloc : Bool)
  | pointerButton (button : UInt32) (down : Bool)
  | keyboardByte (c : UInt8)
  | flushPendingKeys
  | keyboardRelease (key : UInt32)
  | deliverEvent (id : ℤ) (ev : Option GuiEvent)
  | pollEvent (pid : UInt64) (copied : Bool)

def call (s : State) : Call → ℤ × State
  | .createWindowEx q alloc => s.createWindowEx q alloc
  | .destroyWindow pid id => s.destroyWindow pid id
  | .destroyOwner pid => (0,s.destroyOwner pid)
  | .raiseWindow id => s.raiseWindow id
  | .setMinimized id on => s.setMinimized id on
  | .moveWindow id x y => s.moveWindow id x y
  | .setInputPassthrough id on => s.setInputPassthrough id on
  | .pointerMove sx sy alloc => (0,s.pointerMove sx sy alloc)
  | .pointerButton button down => (0,s.pointerButton button down)
  | .keyboardByte c => s.keyboardByte c
  | .flushPendingKeys => (0,s.flushPendingKeys)
  | .keyboardRelease key => s.keyboardRelease key
  | .deliverEvent id ev => s.deliverEvent id ev
  | .pollEvent pid copied => s.pollEvent pid copied

def step (s : State) (c : Call) : Option (ℤ × State) := some (s.call c)

/-- The variables before the first call, whatever the records hold besides their flags. -/
structure Start (s : State) : Prop where
  unused : ∀ i, (s.wins i).inUse = false
  plain : ∀ i, (s.wins i).inputPassthrough = false
  nextZ : s.nextZ = 1
  focusId : s.focusId = -1
  dragId : s.dragId = -1
  resizeId : s.resizeId = -1
  keysHeld : ∀ k, s.keysHeld k = false

end State
end VibeOS.Wm

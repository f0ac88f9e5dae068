import VibeOS.Storage.Bytes
import VibeOS.Runs
import Mathlib.Order.Fin.Basic

/-! The block driver of `virtio_blk.c` and its device: one page that both use, a driver that goes
through `do_request` statement by statement, and a device that serves what was published whenever
it likes. -/
namespace VibeOS.Virtio
open Function
open VibeOS.Storage

def descFNext : UInt16 := 1
def descFWrite : UInt16 := 2
def headerOff : ℕ := 0x200
def statusOff : ℕ := 0x210
def dataBufOff : ℕ := 0x400
def typeIn : UInt32 := 0
def typeOut : UInt32 := 1
def statusOk : UInt8 := 0
def spinMax : ℕ := 2^28

structure VringDesc where
  addr : ℕ
  len : ℕ
  flags : UInt16
  next : UInt16
  deriving DecidableEq

structure Page where
  desc : Fin 8 → VringDesc
  ring : Fin 8 → UInt16
  availIdx : UInt16
  usedIdx : UInt16
  type : UInt32
  reserved : UInt32
  sector : UInt64
  status : UInt8
  data : Bytes 512

/-- One of the stores that `do_request` makes before it publishes. -/
inductive Store
  | type (v : UInt32)
  | reserved (v : UInt32)
  | sector (v : UInt64)
  | data (i : Fin 512) (v : UInt8)
  | addr (i : Fin 8) (v : ℕ)
  | len (i : Fin 8) (v : ℕ)
  | flags (i : Fin 8) (v : UInt16)
  | next (i : Fin 8) (v : UInt16)
  | status (v : UInt8)
  | ring (slot : Fin 8) (v : UInt16)

namespace Page

def setDesc (p : Page) (i : Fin 8) (d : VringDesc) : Page := { p with desc := update p.desc i d }

def store (p : Page) : Store → Page
  | .type v => { p with type := v }
  | .reserved v => { p with reserved := v }
  | .sector v => { p with sector := v }
  | .data i v => { p with data := update p.data i v }
  | .addr i v => p.setDesc i { p.desc i with addr := v }
  | .len i v => p.setDesc i { p.desc i with len := v }
  | .flags i v => p.setDesc i { p.desc i with flags := v }
  | .next i v => p.setDesc i { p.desc i with next := v }
  | .status v => { p with status := v }
  | .ring slot v => { p with ring := update p.ring slot v }

end Page

abbrev Disk := UInt64 → Bytes 512

/-- A call of `virtio_blk_read` or `virtio_blk_write`. -/
structure Call where
  isRead : Bool
  sector : UInt64
  buf : Bytes 512

/-- A call that was made: how many were published before it, and the disk then. -/
structure Request extends Call where
  serial : ℕ
  before : Disk

def slotOf (idx : UInt16) : Fin 8 := Fin.ofNat 8 idx.toNat

def dataFlags (isRead : Bool) : UInt16 := descFNext ||| (if isRead then descFWrite else 0)

/-- The stores of `do_request` up to the ring slot, in their order. -/
def statements (c : Call) (slot : Fin 8) : List Store :=
  [.type (if c.isRead then typeIn else typeOut),.reserved 0,.sector c.sector] ++
  (if c.isRead then [] else (List.finRange 512).map fun i => .data i (c.buf i)) ++
  [.addr 0 headerOff,.len 0 16,.flags 0 descFNext,.next 0 1,
   .addr 1 dataBufOff,.len 1 512,.flags 1 (dataFlags c.isRead),.next 1 2,
   .addr 2 statusOff,.len 2 1,.flags 2 descFWrite,.next 2 0,
   .status 0xff,.ring slot 0]

/-- Where the driver is in `do_request`. -/
inductive Pc
  | idle
  | filling (q : Request) (todo : List Store)
  | exposing (q : Request)
  | polling (q : Request) (target : UInt16) (spin : ℕ)
  | gotIt (q : Request) (target : UInt16)
  | checking (q : Request)
  | copying (q : Request) (i : ℕ) (buf : Bytes 512)

/-- What a call returns, with the caller's buffer. -/
structure Result where
  request : Request
  code : ℤ
  buf : Bytes 512

/-- A request that the device has taken from the ring. -/
structure Flight where
  serial : ℕ
  /-- to read or to write, where the chain and the header make sense -/
  isRead : Option Bool
  sector : UInt64
  moved : ℕ
  answer : Option UInt8

/-- The driver, the page and the device. The device counts what it has taken; the log has the
requests that it put into the used ring, with their status. -/
structure State where
  page : Page
  availIdxSeen : UInt16
  usedIdxSeen : UInt16
  pc : Pc
  disk : Disk
  taken : UInt16
  inFlight : List Flight
  published : ℕ
  fetched : ℕ
  log : List (ℕ × UInt8)

inductive Event
  | call (c : Call)
  | driver
  | fetch
  | move (k : ℕ)
  | settle (k : ℕ) (status : UInt8)
  | retire (k : ℕ)

namespace State
variable (s : State)

/-- The next statement of `do_request`. -/
def driver : Option (Option Result × State) :=
  match s.pc with
  | .idle => none
  | .filling q (st :: todo) => some (none,{ s with page := s.page.store st, pc := .filling q todo })
  | .filling q [] => some (none,{ s with availIdxSeen := s.availIdxSeen + 1, pc := .exposing q })
  | .exposing q =>
    some (none,{ s with page := { s.page with availIdx := s.availIdxSeen }, published := s.published + 1,
                        pc := .polling q (s.usedIdxSeen + 1) 0 })
  | .polling q target spin =>
    if spin ≥ spinMax then some (some ⟨q,-1,q.buf⟩,{ s with pc := .idle })
    else if s.page.usedIdx = target then some (none,{ s with pc := .gotIt q target })
    else some (none,{ s with pc := .polling q target (spin + 1) })
  | .gotIt q target => some (none,{ s with usedIdxSeen := target, pc := .checking q })
  | .checking q =>
    if s.page.status ≠ statusOk then some (some ⟨q,-1,q.buf⟩,{ s with pc := .idle })
    else if q.isRead then some (none,{ s with pc := .copying q 0 q.buf })
    else some (some ⟨q,0,q.buf⟩,{ s with pc := .idle })
  | .copying q i buf =>
    if h : i < 512 then
      some (none,{ s with pc := .copying q (i + 1) (update buf ⟨i,h⟩ (s.page.data ⟨i,h⟩)) })
    else some (some ⟨q,0,buf⟩,{ s with pc := .idle })

def readChain (p : Page) (head : UInt16) : Option Bool :=
  if head = 0 ∧ p.desc 0 = ⟨headerOff,16,descFNext,1⟩ ∧ (p.desc 1).addr = dataBufOff ∧ (p.desc 1).len = 512 ∧
      (p.desc 1).next = 2 ∧ p.desc 2 = ⟨statusOff,1,descFWrite,0⟩ then
    if p.type = typeIn ∧ (p.desc 1).flags = dataFlags true then some true
    else if p.type = typeOut ∧ (p.desc 1).flags = dataFlags false then some false
    else none
  else none

def fetch : Option State :=
  if s.taken = s.page.availIdx then none
  else
    let head := s.page.ring (slotOf s.taken)
    some { s with taken := s.taken + 1, fetched := s.fetched + 1,
                  inFlight := s.inFlight ++ [⟨s.fetched,readChain s.page head,s.page.sector,0,none⟩] }

def move (k : ℕ) : Option State :=
  match s.inFlight[k]? with
  | none => none
  | some f =>
    if h : f.moved < 512 then
      match f.isRead, f.answer with
      | some true, none =>
        some { s with page := { s.page with data := update s.page.data ⟨f.moved,h⟩ (s.disk f.sector ⟨f.moved,h⟩) },
                      inFlight := s.inFlight.set k { f with moved := f.moved + 1 } }
      | some false, none =>
        some { s with
          disk := update s.disk f.sector (update (s.disk f.sector) ⟨f.moved,h⟩ (s.page.data ⟨f.moved,h⟩)),
          inFlight := s.inFlight.set k { f with moved := f.moved + 1 } }
      | _, _ => none
    else none

/-- It writes the status of a request, which is good only when all bytes were moved. -/
def settle (k : ℕ) (status : UInt8) : Option State :=
  match s.inFlight[k]? with
  | none => none
  | some f =>
    if f.answer = none ∧ (status = statusOk → f.isRead ≠ none ∧ f.moved = 512) then
      some { s with page := { s.page with status := status }, inFlight := s.inFlight.set k { f with answer := some status } }
    else none

def retire (k : ℕ) : Option State :=
  match s.inFlight[k]? with
  | none => none
  | some f =>
    f.answer.map fun status =>
      { s with page := { s.page with usedIdx := s.page.usedIdx + 1 }, inFlight := s.inFlight.eraseIdx k,
               log := s.log ++ [(f.serial,status)] }

def step : Event → Option (Option Result × State)
  | .call c =>
    match s.pc with
    | .idle =>
      some (none,{ s with pc := .filling ⟨c,s.published,s.disk⟩ (statements c (slotOf s.availIdxSeen)) })
    | _ => none
  | .driver => s.driver
  | .fetch => s.fetch.map fun t => (none,t)
  | .move k => (s.move k).map fun t => (none,t)
  | .settle k status => (s.settle k status).map fun t => (none,t)
  | .retire k => (s.retire k).map fun t => (none,t)

end State

/-- The page tells the device what the call asks for. -/
structure Ready (c : Call) (p : Page) : Prop where
  chain : State.readChain p 0 = some c.isRead
  sector : p.sector = c.sector
  data : c.isRead = false → p.data = c.buf
  ring : ∀ i, p.ring i = 0

lemma foldl_data (p : Page) (buf : Bytes 512) (is : List (Fin 512)) :
    (is.map fun i => Store.data i (buf i)).foldl Page.store p =
      { p with data := fun i => if i ∈ is then buf i else p.data i } := by
  induction is generalizing p with
  | nil => simp
  | cons i is ih =>
    rw [List.map_cons,List.foldl_cons,ih]
    simp only [Page.store,Page.mk.injEq,true_and]
    funext j
    by_cases hj : j ∈ is
    · simp [hj]
    · by_cases hij : j = i
      · subst hij; simp
      · simp [hj,hij]

lemma ready_statements (c : Call) (slot : Fin 8) (p : Page) (hring : ∀ i, p.ring i = 0) :
    Ready c ((statements c slot).foldl Page.store p) := by
  have hupdate (i : Fin 8) : update p.ring slot 0 i = 0 := by
    rw [update_apply,hring,ite_self]
  unfold statements
  cases hr : c.isRead with
  | true =>
    refine ⟨?_,rfl,fun h => absurd (hr.symm.trans h) (by decide),hupdate⟩
    rw [hr]
    rfl
  | false =>
    have hall : ∀ i : Fin 512, i ∈ List.finRange 512 := List.mem_finRange
    generalize List.finRange 512 = is at hall
    rw [if_neg Bool.false_ne_true,if_neg Bool.false_ne_true,List.foldl_append,List.foldl_append,foldl_data]
    refine ⟨?_,rfl,fun _ => ?_,hupdate⟩
    · rw [hr]
      rfl
    · funext i
      exact if_pos (hall i)

lemma statements_ring {c : Call} {slot : Fin 8} {st : Store} (h : st ∈ statements c slot) (p : Page)
    (hring : ∀ i, p.ring i = 0) (i : Fin 8) : (p.store st).ring i = 0 := by
  cases st with
  | ring s v =>
    have hv : v = 0 := by
      unfold statements at h
      cases hr : c.isRead <;> simp [hr] at h
      · exact h.2
      · exact h.2
    change update p.ring s v i = 0
    rw [update_apply,hring,hv,ite_self]
  | _ => exact hring i

lemma store_idx (p : Page) (st : Store) : (p.store st).usedIdx = p.usedIdx ∧ (p.store st).availIdx = p.availIdx := by
  cases st <;> exact ⟨rfl,rfl⟩

end VibeOS.Virtio

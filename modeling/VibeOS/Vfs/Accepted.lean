import VibeOS.Vfs.SysWrite
import VibeOS.Vfs.SharedTable
import VibeOS.Tcp.Identity

/-! What the result of `sys_write` tells, for every kind of descriptor that takes data. The loops go over
chunks, and for each chunk over the turns of a driver between which other threads run. -/
namespace VibeOS.Vfs
open VibeOS.Storage List Option

/-- The kinds other than files of tmpfs and OSFS-2. -/
inductive Sink
  | pipe
  | ptySlave
  | ptyMaster
  | socket (cid : ℤ)
  | userfs
  | console

/-- The size of `chunk` in the loop of the kind. -/
def Sink.chunkSize : Sink → ℕ
  | .socket _ => 4096
  | _ => Vfs.chunkSize

def Sink.failure : Sink → ℤ → ℤ
  | .socket _,_ => -Userfs.eio
  | _,w => w

/-- A loop that ends with a chunk which is taken in part. -/
def Sink.stopsShort : Sink → Bool
  | .userfs => true
  | _ => false

def Sink.advance (s : Sink) (offset : UInt64) (w : ℕ) : UInt64 :=
  match s with
  | .userfs => offset + UInt64.ofNat w
  | _ => offset

/-- Of the bytes that are accepted, those that are stored or queued. -/
def Sink.passes (s : Sink) (bytes : List UInt8) : List UInt8 :=
  match s with
  | .ptyMaster => bytes.filter (· != SharedTable.ctrlC)
  | _ => bytes

/-- `pipe_write` behind `written` bytes of `src`. Each turn finds the pipe as other threads have left it;
`put` are the bytes that come into it. -/
inductive PipeWrites (src : List UInt8) : ℕ → List UInt8 → ℤ → Prop
  | ret {p : Userfs.Pipe} {written : ℕ} {v : ℤ} (turn : p.writeTurn src written false = .ret v) : PipeWrites src written [] v
  | block {p : Userfs.Pipe} {written : ℕ} {put : List UInt8} {v : ℤ} (turn : p.writeTurn src written false = .block)
      (next : PipeWrites src written put v) : PipeWrites src written put v
  | moved {p p' : Userfs.Pipe} {written len : ℕ} {xs ys put : List UInt8} {v : ℤ}
      (turn : p.writeTurn src written false = .moved len p') (before : p.ring.Holds xs) (after : p'.ring.Holds (xs ++ ys))
      (next : PipeWrites src len put v) : PipeWrites src written (ys ++ put) v

/-- `pty_master_write` with the bytes that are left, behind `accepted` of them. -/
inductive MasterWrites : List UInt8 → ℕ → List UInt8 → ℤ → Prop
  | done {accepted : ℕ} : MasterWrites [] accepted [] accepted
  | signal {bytes put : List UInt8} {accepted : ℕ} {v : ℤ} (next : MasterWrites bytes (accepted + 1) put v) :
      MasterWrites (SharedTable.ctrlC :: bytes) accepted put v
  | forward {b : UInt8} {bytes one put : List UInt8} {accepted : ℕ} {w v : ℤ} (plain : b ≠ SharedTable.ctrlC)
      (call : PipeWrites [b] 0 one w) (went : 0 < w) (next : MasterWrites bytes (accepted + 1) put v) :
      MasterWrites (b :: bytes) accepted (one ++ put) v
  | fail {b : UInt8} {bytes one : List UInt8} {accepted : ℕ} {w : ℤ} (plain : b ≠ SharedTable.ctrlC)
      (call : PipeWrites [b] 0 one w) (failed : w ≤ 0) :
      MasterWrites (b :: bytes) accepted one (if accepted > 0 then accepted else w)

def queued (m m' : Tcp.Machine) (cid : ℤ) : List UInt8 :=
  match m.getConn cid with
  | none => []
  | some i => Tcp.slice (m'.conns i).txBuf (m.conns i).txLen.toNat ((m'.conns i).txLen - (m.conns i).txLen).toNat

/-- A call of the driver with a chunk: what is stored or queued, and the result. Of a daemon it is what its
reply acknowledges. -/
inductive Accepts : Sink → List UInt8 → List UInt8 → ℤ → Prop
  | pipe {chunk put : List UInt8} {w : ℤ} (call : PipeWrites chunk 0 put w) : Accepts .pipe chunk put w
  | ptySlave {chunk put : List UInt8} {w : ℤ} (call : PipeWrites chunk 0 put w) : Accepts .ptySlave chunk put w
  | ptyMaster {chunk put : List UInt8} {w : ℤ} (call : MasterWrites chunk 0 put w) : Accepts .ptyMaster chunk put w
  | socket {chunk : List UInt8} {cid w : ℤ} {m m' : Tcp.Machine}
      (call : Tcp.tcpSend m cid (chunk.getD · 0) (UInt32.ofNat chunk.length) = some (w,m')) :
      Accepts (.socket cid) chunk (queued m m' cid) w
  | userfsError {chunk : List UInt8} {r : ℤ} (error : r < 0) : Accepts .userfs chunk [] r
  | userfsReply {chunk : List UInt8} (flags : UInt32) :
      Accepts .userfs chunk (chunk.take (min flags.toNat chunk.length)) (min flags.toNat chunk.length : ℕ)
  | console {chunk : List UInt8} : Accepts .console chunk chunk chunk.length

def UserBuf.bytes (buf : UserBuf) (total n : ℕ) : List UInt8 := (List.range n).map fun j => buf.byte (total + j)

/-- What the loop of a kind does behind `total` bytes: what it puts, what it returns and the offset. -/
inductive LoopWrites (s : Sink) (buf : UserBuf) (len : ℕ) : ℕ → UInt64 → List UInt8 → ℤ → UInt64 → Prop
  | done {total : ℕ} {offset : UInt64} (all : len ≤ total) : LoopWrites s buf len total offset [] total offset
  | fault {total : ℕ} {offset : UInt64} (left : total < len) (bad : buf.fault total = true) :
      LoopWrites s buf len total offset [] (-efault) offset
  | failed {total : ℕ} {offset : UInt64} {put : List UInt8} {w : ℤ} (left : total < len) (good : buf.fault total = false)
      (call : Accepts s (buf.bytes total (min s.chunkSize (len - total))) put w) (error : w < 0) :
      LoopWrites s buf len total offset put (if total > 0 then total else s.failure w) offset
  | short {total : ℕ} {offset : UInt64} {put : List UInt8} {w : ℕ} (left : total < len) (good : buf.fault total = false)
      (call : Accepts s (buf.bytes total (min s.chunkSize (len - total))) put w) (stops : s.stopsShort = true)
      (part : w < min s.chunkSize (len - total)) : LoopWrites s buf len total offset put (total + w) (s.advance offset w)
  | next {total : ℕ} {offset offset' : UInt64} {put rest : List UInt8} {w : ℕ} {v : ℤ} (left : total < len)
      (good : buf.fault total = false) (call : Accepts s (buf.bytes total (min s.chunkSize (len - total))) put w)
      (goes : s.stopsShort = true → min s.chunkSize (len - total) ≤ w)
      (onward : LoopWrites s buf len (total + w) (s.advance offset w) rest v offset') :
      LoopWrites s buf len total offset (put ++ rest) v offset'

/-- `sys_write` of `len` bytes to a descriptor of the kind. -/
inductive SysWrites (s : Sink) (buf : UserBuf) (offset : UInt64) : ℤ → List UInt8 → ℤ → UInt64 → Prop
  | negative {len : ℤ} (h : len < 0) : SysWrites s buf offset len [] (-Osfs2.einval) offset
  | none : SysWrites s buf offset 0 [] 0 offset
  | unconnected {len cid : ℤ} (h : 0 < len) (kind : s = .socket cid) (bad : cid < 0) : SysWrites s buf offset len [] (-ebadf) offset
  | loop {len v : ℤ} {put : List UInt8} {offset' : UInt64} (h : 0 < len) (kind : ∀ cid, s = .socket cid → 0 ≤ cid)
      (run : LoopWrites s buf len.toNat 0 offset put v offset') : SysWrites s buf offset len put v offset'

variable {s : Sink} {src chunk bytes put : List UInt8} {written accepted n total len : ℕ} {v w : ℤ} {buf : UserBuf}
  {offset offset' : UInt64}

lemma holds_unique {α : Type*} {n : ℕ} [NeZero n] {r : Ring α n} {xs ys : List α} (h : r.Holds xs) (h' : r.Holds ys) : xs = ys :=
  ext_getElem (h.count.symm.trans h'.count) fun i hi hi' => (h.cell i hi).symm.trans (h'.cell i hi')

lemma PipeWrites.spec (h : PipeWrites src written put v) (hle : written ≤ src.length) : (v < 0 ∧ put = [] ∧ written = 0) ∨
    ∃ n : ℕ, v = n ∧ written ≤ n ∧ n ≤ src.length ∧ put = (src.drop written).take (n - written) := by
  induction h with
  | @ret p written v turn =>
    have hhere : ∃ n : ℕ, (written : ℤ) = n ∧ written ≤ n ∧ n ≤ src.length ∧ [] = (src.drop written).take (n - written) :=
      ⟨written,rfl,Nat.le_refl _,hle,by simp⟩
    simp only [Userfs.Pipe.writeTurn,Bool.false_eq_true,if_false] at turn
    split_ifs at turn with hdone hreaders hwritten
    · cases turn
      exact .inr hhere
    · cases turn
      exact .inr hhere
    · cases turn
      exact .inl ⟨by decide,rfl,by omega⟩
  | block turn next ih => exact ih hle
  | @moved p p' written len xs ys put v turn before after next ih =>
    obtain ⟨hholds,hlt,hlen,-⟩ := Userfs.Pipe.writeTurn_moves before turn
    have hys : ys = (src.drop written).take (len - written) := append_cancel_left (holds_unique after hholds)
    rcases ih hlen with ⟨-,-,hzero⟩ | ⟨n,hv,hn,hsrc,hput⟩
    · omega
    · refine .inr ⟨n,hv,by omega,hsrc,?_⟩
      rw [hys,hput,show n - written = (len - written) + (n - len) by omega,take_add,drop_drop,
        show written + (len - written) = len by omega]

lemma MasterWrites.spec (h : MasterWrites bytes accepted put v) : (v < 0 ∧ put = [] ∧ accepted = 0) ∨
    ∃ n : ℕ, v = (accepted + n : ℕ) ∧ n ≤ bytes.length ∧ put = (bytes.take n).filter (· != SharedTable.ctrlC) := by
  induction h with
  | done => exact .inr ⟨0,rfl,Nat.le_refl _,rfl⟩
  | signal next ih =>
    rcases ih with ⟨-,-,hzero⟩ | ⟨n,rfl,hn,rfl⟩
    · omega
    · exact .inr ⟨n + 1,by omega,by simpa using hn,by simp⟩
  | @forward b bytes one put accepted w v plain call went next ih =>
    have hone : one = [b] := by
      rcases call.spec (Nat.zero_le _) with ⟨hneg,-⟩ | ⟨n,rfl,-,hn,rfl⟩
      · omega
      · rw [drop_zero,Nat.sub_zero,take_of_length_le (by rw [length_singleton]; omega)]
    rcases ih with ⟨-,-,hzero⟩ | ⟨n,rfl,hn,rfl⟩
    · omega
    · exact .inr ⟨n + 1,by omega,by simpa using hn,by simp [hone,plain]⟩
  | @fail b bytes one accepted w plain call failed =>
    have hnone : one = [] := by
      rcases call.spec (Nat.zero_le _) with ⟨-,hput,-⟩ | ⟨n,rfl,-,hn,rfl⟩
      · exact hput
      · rw [show n = 0 by omega]
        rfl
    rw [hnone]
    split
    · exact .inr ⟨0,by simp,Nat.zero_le _,rfl⟩
    · rcases lt_or_eq_of_le failed with hneg | hzero
      · exact .inl ⟨hneg,rfl,by omega⟩
      · exact .inr ⟨0,by omega,Nat.zero_le _,rfl⟩

lemma tcpSend_queued {m m' : Tcp.Machine} {cid : ℤ} {data : ℕ → UInt8} {len : UInt32}
    (h : Tcp.tcpSend m cid data len = some (w,m')) : (w < 0 ∧ queued m m' cid = []) ∨
      ∃ n : ℕ, w = n ∧ n ≤ len.toNat ∧ queued m m' cid = (List.range n).map data := by
  unfold Tcp.tcpSend at h
  unfold queued
  cases hget : m.getConn cid with
  | none =>
    rw [hget] at h
    obtain ⟨rfl,-⟩ := Prod.mk.inj (some.inj h)
    exact .inl ⟨by decide,rfl⟩
  | some i =>
    rw [hget] at h
    dsimp only at h ⊢
    have hsame : Tcp.slice (m.conns i).txBuf (m.conns i).txLen.toNat ((m.conns i).txLen - (m.conns i).txLen).toNat = [] := by
      rw [UInt32.sub_self]
      rfl
    have hle := Tcp.shorter_le len (UInt32.ofNat Tcp.bufSize - (m.conns i).txLen)
    generalize (if len < UInt32.ofNat Tcp.bufSize - (m.conns i).txLen then len
      else UInt32.ofNat Tcp.bufSize - (m.conns i).txLen) = room at h hle
    split_ifs at h with hreset hstate hroom
    · obtain ⟨rfl,rfl⟩ := Prod.mk.inj (some.inj h)
      exact .inl ⟨by decide,hsame⟩
    · obtain ⟨rfl,rfl⟩ := Prod.mk.inj (some.inj h)
      exact .inl ⟨by decide,hsame⟩
    · obtain ⟨⟨c,n⟩,hdrain,hm⟩ := Option.bind_eq_some_iff.mp h
      obtain ⟨rfl,rfl⟩ := Prod.mk.inj (some.inj hm)
      obtain ⟨_,_,_,rfl⟩ := Tcp.tcpDrainTx_transmits hdrain
      refine .inr ⟨room.toNat,rfl,UInt32.le_iff_toNat_le.mp hle.1,?_⟩
      simp only [Tcp.Machine.setConn,Function.update_self]
      rw [UInt32.add_comm (m.conns i).txLen,UInt32.add_sub_cancel]
      refine map_congr_left fun j hj => ?_
      rw [mem_range] at hj
      have hfits : (m.conns i).txLen.toNat + room.toNat ≤ Tcp.bufSize := by
        by_contra hno
        refine hroom ⟨?_,by omega⟩
        rintro rfl
        exact absurd hj (Nat.not_lt_zero j)
      rw [Bytes.get_splice _ _ _ _ (by omega),if_pos ⟨Nat.le_add_right _ _,by omega⟩,Nat.add_sub_cancel_left]

lemma Accepts.spec (h : Accepts s chunk put w) (hlen : chunk.length < 2^32) : (w < 0 ∧ put = []) ∨
    ∃ n : ℕ, w = n ∧ n ≤ chunk.length ∧ put = s.passes (chunk.take n) := by
  have hpipe {w : ℤ} {put : List UInt8} (call : PipeWrites chunk 0 put w) : (w < 0 ∧ put = []) ∨
      ∃ n : ℕ, w = n ∧ n ≤ chunk.length ∧ put = chunk.take n := by
    rcases call.spec (Nat.zero_le _) with ⟨hneg,hput,-⟩ | ⟨n,hw,-,hn,hput⟩
    · exact .inl ⟨hneg,hput⟩
    · exact .inr ⟨n,hw,hn,hput⟩
  cases h with
  | pipe call | ptySlave call => exact hpipe call
  | ptyMaster call =>
    rcases call.spec with ⟨hneg,hput,-⟩ | ⟨n,hw,hn,hput⟩
    · exact .inl ⟨hneg,hput⟩
    · exact .inr ⟨n,by rw [hw,Nat.zero_add],hn,hput⟩
  | socket call =>
    rcases tcpSend_queued call with hneg | ⟨n,hw,hn,hput⟩
    · exact .inl hneg
    · rw [UInt32.toNat_ofNat_of_lt' hlen] at hn
      refine .inr ⟨n,hw,hn,hput.trans (ext_getElem (by simp [Sink.passes,hn]) fun j hj hj' => ?_)⟩
      simp only [getElem_map,getElem_range,Sink.passes,getElem_take]
      rw [length_map,length_range] at hj
      rw [getD_eq_getElem?_getD,getElem?_eq_getElem (by omega)]
      rfl
  | userfsError error => exact .inl ⟨error,rfl⟩
  | userfsReply flags => exact .inr ⟨_,rfl,Nat.min_le_right _ _,rfl⟩
  | console => exact .inr ⟨_,rfl,Nat.le_refl _,(take_length).symm⟩

@[simp] lemma length_bytes (buf : UserBuf) (total n : ℕ) : (buf.bytes total n).length = n := by
  simp [UserBuf.bytes]

lemma bytes_add (buf : UserBuf) (total a b : ℕ) : buf.bytes total (a + b) = buf.bytes total a ++ buf.bytes (total + a) b := by
  simp [UserBuf.bytes,range_add,Nat.add_assoc]

lemma bytes_take (buf : UserBuf) (total : ℕ) {a n : ℕ} (h : a ≤ n) : (buf.bytes total n).take a = buf.bytes total a := by
  obtain ⟨b,rfl⟩ := Nat.exists_eq_add_of_le h
  rw [bytes_add,take_left' (length_bytes _ _ _)]

lemma passes_append (s : Sink) (xs ys : List UInt8) : s.passes (xs ++ ys) = s.passes xs ++ s.passes ys := by
  cases s with
  | ptyMaster => exact filter_append xs ys
  | _ => rfl

lemma advance_add (s : Sink) (offset : UInt64) (a b : ℕ) : s.advance (s.advance offset a) b = s.advance offset (a + b) := by
  cases s with
  | userfs =>
    unfold Sink.advance
    dsimp only
    rw [UInt64.ofNat_add,UInt64.add_assoc]
  | _ => rfl

lemma advance_zero (s : Sink) (offset : UInt64) : s.advance offset 0 = offset := by
  cases s with
  | userfs => exact UInt64.add_zero offset
  | _ => rfl

lemma failure_neg (s : Sink) (h : w < 0) : s.failure w < 0 := by
  cases s with
  | socket cid => exact (by decide : -Userfs.eio < 0)
  | _ => exact h

/-- A loop behind `total` bytes: its result counts what it puts, and it fails with bytes put only where a
later chunk cannot be read. -/
lemma LoopWrites.spec (h : LoopWrites s buf len total offset put v offset') (hle : total ≤ len) :
    (0 ≤ v → ∃ c : ℕ, v = (total + c : ℕ) ∧ total + c ≤ len ∧ put = s.passes (buf.bytes total c) ∧ offset' = s.advance offset c) ∧
      (v < 0 → (∀ j, 0 < j → j < len → buf.fault j = false) → total = 0 ∧ put = [] ∧ offset' = offset) := by
  have hnil : s.passes [] = [] := by cases s <;> rfl
  have hchunk : s.chunkSize < 2^32 := by cases s <;> simp [Sink.chunkSize,Vfs.chunkSize]
  induction h with
  | @done total offset all =>
    exact ⟨fun _ => ⟨0,by simp,by omega,by rw [UserBuf.bytes,range_zero,map_nil,hnil],(advance_zero s offset).symm⟩,
      fun hneg => by omega⟩
  | @fault total offset left bad =>
    refine ⟨fun hpos => absurd hpos (by decide),fun _ hgood => ⟨?_,rfl,rfl⟩⟩
    by_contra hne
    rw [hgood total (by omega) left] at bad
    cases bad
  | @failed total offset put w left good call error =>
    have hput : put = [] := by
      rcases call.spec (by rw [length_bytes]; omega) with ⟨-,hput⟩ | ⟨n,rfl,-⟩
      · exact hput
      · omega
    subst hput
    split
    next hpos =>
      exact ⟨fun _ => ⟨0,by simp,by omega,by rw [UserBuf.bytes,range_zero,map_nil,hnil],(advance_zero s offset).symm⟩,
        fun hneg => by omega⟩
    next hzero => exact ⟨fun hpos => absurd (failure_neg s error) (by omega),fun _ _ => ⟨by omega,rfl,rfl⟩⟩
  | @short total offset put w left good call stops part =>
    rcases call.spec (by rw [length_bytes]; omega) with ⟨hneg,-⟩ | ⟨n,hw,hn,hput⟩
    · omega
    · obtain rfl : w = n := by omega
      rw [length_bytes] at hn
      rw [bytes_take _ _ hn] at hput
      exact ⟨fun _ => ⟨w,by omega,by omega,hput,rfl⟩,fun hneg => by omega⟩
  | @next total offset offset' put rest w v left good call goes onward ih =>
    rcases call.spec (by rw [length_bytes]; omega) with ⟨hneg,-⟩ | ⟨n,hw,hn,hput⟩
    · omega
    · obtain rfl : w = n := by omega
      rw [length_bytes] at hn
      rw [bytes_take _ _ hn] at hput
      obtain ⟨hpos,hneg⟩ := ih (by omega)
      refine ⟨fun hv => ?_,fun hv hgood => ?_⟩
      · obtain ⟨c,rfl,hc,hrest,hoff⟩ := hpos hv
        refine ⟨w + c,by omega,by omega,?_,by rw [hoff,advance_add]⟩
        rw [hput,hrest,bytes_add,passes_append]
      · obtain ⟨hzero,hrest,hoff⟩ := hneg hv hgood
        obtain rfl : w = 0 := by omega
        rw [hput,hrest,hoff,advance_zero,UserBuf.bytes,range_zero,map_nil,hnil]
        exact ⟨by omega,rfl,rfl⟩

namespace Files
variable {f : Files} {t : Target} {kbuf : ℕ → Option Buffer}

end Files

lemma SysWrites.spec {len : ℤ} (h : SysWrites s buf offset len put v offset') :
    (0 ≤ v → ∃ c : ℕ, v = c ∧ (c : ℤ) ≤ max len 0 ∧ put = s.passes (buf.bytes 0 c) ∧ offset' = s.advance offset c) ∧
      (v < 0 → (∀ j : ℕ, 0 < j → (j : ℤ) < len → buf.fault j = false) → put = [] ∧ offset' = offset) := by
  have hnil : s.passes [] = [] := by cases s <;> rfl
  cases h with
  | negative h => exact ⟨fun hpos => absurd hpos (by decide : ¬ 0 ≤ -Osfs2.einval),fun _ _ => ⟨rfl,rfl⟩⟩
  | none =>
    refine ⟨fun _ => ⟨0,rfl,by simp,by rw [UserBuf.bytes,range_zero,map_nil,hnil],(advance_zero s offset).symm⟩,
      fun hneg => absurd hneg (lt_irrefl 0)⟩
  | unconnected h kind bad => exact ⟨fun hpos => absurd hpos (by decide : ¬ 0 ≤ -ebadf),fun _ _ => ⟨rfl,rfl⟩⟩
  | loop h kind run =>
    obtain ⟨hpos,hneg⟩ := run.spec (Nat.zero_le _)
    refine ⟨fun hv => ?_,fun hv hgood => ?_⟩
    · obtain ⟨c,hvc,hc,hput,hoff⟩ := hpos hv
      exact ⟨c,by omega,by omega,hput,hoff⟩
    · exact (hneg hv fun j hj hlt => hgood j hj (by omega)).2

end VibeOS.Vfs

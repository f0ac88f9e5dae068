import VibeOS.Osfs2.Disk
import Mathlib.Data.Fin.VecNotation
import Mathlib.Data.Fintype.Basic

/-! The single-transaction physical-block journal of `osfs2_journal.c`: one header block
and a row of payload slots, all written with raw requests that bypass the cache. -/
namespace VibeOS.Osfs2
open VibeOS.Storage

/-- OSFS2_JOURNAL_DATA_BLOCKS. -/
def journalDataBlocks : ℕ := 32

/-- The pairs of destination and payload handed to one commit. -/
abbrev Batch := List (UInt32 × Block)

def crc32Round (crc : UInt32) : UInt32 := (crc >>> 1) ^^^ (0xEDB88320 &&& (0 - (crc &&& 1)))

def crc32Step (crc : UInt32) (b : UInt8) : UInt32 := crc32Round^[8] (crc ^^^ b.toUInt32)

def crc32Buf (crc : UInt32) (buf : List UInt8) : UInt32 := buf.foldl crc32Step crc

/-- The loops shared by the two CRC functions: the destinations as little-endian bytes,
then the payload blocks, in order. -/
def crcOf (dest : List UInt32) (data : List Block) : UInt32 :=
  let crc := dest.foldl (fun crc d => crc32Buf crc ((List.range 4).map (Bytes.wordByte d))) 0xFFFFFFFF
  let crc := data.foldl (fun crc b => crc32Buf crc (List.ofFn b)) crc
  crc ^^^ 0xFFFFFFFF

def computeCommitCrc (batch : Batch) : UInt32 :=
  crcOf (batch.map Prod.fst) (batch.map Prod.snd)

def computeReplayCrc (dest : List UInt32) (payload : List Block) : UInt32 := crcOf dest payload

/-- The persistent header without its padding, which is written as zeros and never read. -/
structure JournalHeader where
  magic : Bytes 8
  txnId : UInt32
  blockCount : UInt32
  crc32 : UInt32
  reserved : UInt32
  dest : Fin 32 → UInt32
  deriving DecidableEq

namespace JournalHeader

/-- "OSFSJRNL". -/
def magicBytes : Bytes 8 := ![0x4f,0x53,0x46,0x53,0x4a,0x52,0x4e,0x4c]

def zero : JournalHeader := ⟨Bytes.zero,0,0,0,0,fun _ => 0⟩

def word (h : JournalHeader) : ℕ → UInt32
  | 0 => h.txnId
  | 1 => h.blockCount
  | 2 => h.crc32
  | _ => h.reserved

def destAt (h : JournalHeader) (i : ℕ) : UInt32 := if hi : i < 32 then h.dest ⟨i,hi⟩ else 0

def toBlock (h : JournalHeader) : Block :=
  Bytes.ofFn fun i =>
    if i < 8 then h.magic.get i
    else if i < 24 then Bytes.wordByte (h.word ((i-8)/4)) ((i-8)%4)
    else if i < 152 then Bytes.wordByte (h.destAt ((i-24)/4)) ((i-24)%4)
    else 0

/-- The cast of a buffer to the header; it looks at the first 152 bytes only. -/
def ofBytes {n : ℕ} (b : Bytes n) : JournalHeader where
  magic := Bytes.ofFn b.get
  txnId := b.u32 8
  blockCount := b.u32 12
  crc32 := b.u32 16
  reserved := b.u32 20
  dest i := b.u32 (24+4*i.val)

lemma ofBytes_congr {n m : ℕ} {b : Bytes n} {c : Bytes m} (h : ∀ i < 152, b.get i = c.get i) :
    ofBytes b = ofBytes c := by
  have hm : (Bytes.ofFn b.get : Bytes 8) = Bytes.ofFn c.get := by
    funext i
    exact h i.val (by omega)
  have hd : (fun i : Fin 32 => b.u32 (24+4*i.val)) = fun i => c.u32 (24+4*i.val) := by
    funext i
    exact Bytes.u32_congr fun k hk => h _ (by omega)
  simp only [ofBytes,hm,hd,mk.injEq,true_and,and_true]
  refine ⟨?_,?_,?_,?_⟩ <;> exact Bytes.u32_congr fun k hk => h _ (by omega)

lemma toBlock_word (h : JournalHeader) (w : ℕ) (hw : w < 4) :
    h.toBlock.u32 (8+4*w) = h.word w := by
  apply Bytes.u32_of_bytes
  intro k hk
  rw [toBlock,Bytes.get_ofFn _ (by omega),if_neg (by omega),if_pos (by omega)]
  congr 2 <;> omega

lemma toBlock_dest (h : JournalHeader) (i : Fin 32) : h.toBlock.u32 (24+4*i.val) = h.dest i := by
  apply Bytes.u32_of_bytes
  intro k hk
  rw [toBlock,Bytes.get_ofFn _ (by omega),if_neg (by omega),if_neg (by omega),if_pos (by omega)]
  have hi : (24+4*i.val+k-24)/4 = i.val := by omega
  rw [hi,destAt,dif_pos i.isLt]
  congr 1
  omega

lemma ofBytes_toBlock (h : JournalHeader) : ofBytes h.toBlock = h := by
  have hm : (Bytes.ofFn h.toBlock.get : Bytes 8) = h.magic := by
    apply Bytes.ext_get
    intro i hi
    rw [Bytes.get_ofFn _ hi,toBlock,Bytes.get_ofFn _ (by omega),if_pos hi]
  have hd : (fun i : Fin 32 => h.toBlock.u32 (24+4*i.val)) = h.dest := funext h.toBlock_dest
  have h0 := h.toBlock_word 0 (by omega)
  have h1 := h.toBlock_word 1 (by omega)
  have h2 := h.toBlock_word 2 (by omega)
  have h3 := h.toBlock_word 3 (by omega)
  simp only [ofBytes,hm,hd]
  cases h
  simp_all [word]

lemma ofBytes_blockAt (d : Disk) (blk : UInt32) : ofBytes (blockAt d blk) = ofBytes (d (lba blk)) := by
  apply ofBytes_congr
  intro i hi
  rw [blockAt,Bytes.get_ofFn _ (by omega)]
  have h0 : i/512 = 0 := by omega
  have h1 : i%512 = i := by omega
  rw [h0,h1,Nat.add_zero]

lemma ofBytes_sectorOf_zero (h : JournalHeader) : ofBytes (sectorOf h.toBlock 0) = h := by
  rw [← ofBytes_toBlock h]
  apply ofBytes_congr
  intro i hi
  rw [ofBytes_toBlock,sectorOf,Bytes.get_ofFn _ (by omega)]
  congr 1
  omega

end JournalHeader

structure JournalPlace where
  headerBlock : UInt32
  dataBlock0 : UInt32
  maxBlocks : UInt32
  deriving DecidableEq

structure Journal extends JournalPlace where
  nextTxnId : UInt32
  commitCount : UInt64
  replayCount : UInt64
  journalledBlocks : UInt64
  deriving DecidableEq

def osfs2JournalInit (headerBlock dataBlocks : UInt32) : Journal where
  headerBlock := headerBlock
  dataBlock0 := headerBlock + 1
  maxBlocks := if dataBlocks > UInt32.ofNat journalDataBlocks then UInt32.ofNat journalDataBlocks
    else dataBlocks
  nextTxnId := 1
  commitCount := 0
  replayCount := 0
  journalledBlocks := 0

def headerIsCommitted (j : JournalPlace) (h : JournalHeader) : Bool :=
  h.magic == JournalHeader.magicBytes && h.blockCount != 0 && !(h.blockCount > j.maxBlocks)

def committedHeader (txn : UInt32) (batch : Batch) : JournalHeader where
  magic := JournalHeader.magicBytes
  txnId := txn
  blockCount := UInt32.ofNat batch.length
  crc32 := computeCommitCrc batch
  reserved := 0
  dest i := (batch[i.val]?.map Prod.fst).getD 0

def writeCommittedHeader (j : JournalPlace) (txn : UInt32) (batch : Batch) : Prog Sector Bool :=
  rawWrite j.headerBlock (committedHeader txn batch).toBlock

def writeZeroHeader (j : JournalPlace) : Prog Sector Bool :=
  rawWrite j.headerBlock JournalHeader.zero.toBlock

def payloadSlots (j : JournalPlace) (batch : Batch) : List (UInt32 × Block) :=
  batch.mapIdx fun i b => (j.dataBlock0 + UInt32.ofNat i,b.2)

/-- The return statements of `osfs2_journal_commit`. -/
inductive CommitExit
  | nothing | tooMany | payloadFailed | headerFailed | applyFailed | done
  deriving DecidableEq, Repr

def CommitExit.rc : CommitExit → ℤ
  | .nothing => 0
  | .done => 0
  | _ => -1

def osfs2JournalCommit (j : Journal) (batch : Batch) : Prog Sector (CommitExit × Journal) :=
  if batch.length = 0 then .ret (.nothing,j)
  else if batch.length > j.maxBlocks.toNat then .ret (.tooMany,j)
  else do
    if ← rawWriteAll (payloadSlots j.toJournalPlace batch) then
      let j' := { j with nextTxnId := j.nextTxnId + 1 }
      if ← writeCommittedHeader j.toJournalPlace j.nextTxnId batch then
        if ← rawWriteAll batch then
          -- a failed checkpoint write is only a warning
          let _ ← writeZeroHeader j.toJournalPlace
          return (.done,{ j' with
            commitCount := j.commitCount + 1
            journalledBlocks := j.journalledBlocks + UInt64.ofNat batch.length })
        else return (.applyFailed,j')
      else return (.headerFailed,j')
    else return (.payloadFailed,j)

/-- Read the payload slots `i, i+1, …`. -/
def readSlots (j : JournalPlace) : ℕ → ℕ → Prog Sector (Option (List Block))
  | 0, _ => .ret (some [])
  | n+1, i => rawRead (j.dataBlock0 + UInt32.ofNat i) >>= fun
    | none => .ret none
    | some b => readSlots j n (i+1) >>= fun
      | none => .ret none
      | some bs => .ret (some (b :: bs))

def JournalHeader.dests (h : JournalHeader) : List UInt32 :=
  (List.range h.blockCount.toNat).map h.destAt

def osfs2JournalReplay (j : Journal) : Prog Sector (ℤ × Journal) :=
  if j.maxBlocks = 0 then .ret (0,j)
  else rawRead j.headerBlock >>= fun
    | none => .ret (-1,j)
    | some hdr =>
      let h := JournalHeader.ofBytes hdr
      if !headerIsCommitted j.toJournalPlace h then .ret (0,j)
      else readSlots j.toJournalPlace h.blockCount.toNat 0 >>= fun
        | none => .ret (-1,j)
        | some payload =>
          if computeReplayCrc h.dests payload ≠ h.crc32 then do
            if ← writeZeroHeader j.toJournalPlace then return (0,j) else return (-1,j)
          else do
            if ← rawWriteAll (h.dests.zip payload) then
              if ← writeZeroHeader j.toJournalPlace then
                return (0,{ j with
                  replayCount := j.replayCount + 1
                  nextTxnId := if h.txnId ≥ j.nextTxnId then h.txnId + 1 else j.nextTxnId })
              else return (-1,j)
            else return (-1,j)

end VibeOS.Osfs2

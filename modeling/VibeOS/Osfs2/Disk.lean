import VibeOS.Storage.Program
import VibeOS.Storage.Bytes

/-! The virtio-blk device behind OSFS-2: 512-byte sectors, and the raw 4 KiB block reads and
writes that both the cache and the journal issue as eight sector requests in order. -/
namespace VibeOS.Osfs2
open VibeOS.Storage List

abbrev Sector := Bytes 512
abbrev Block := Bytes 4096
abbrev Disk := Store Sector

/-- The first sector of a block; the product is taken in 64 bits and cannot wrap. -/
def lba (blk : UInt32) : ℕ := blk.toNat * 8

def sectorOf (b : Block) (i : ℕ) : Sector := Bytes.ofFn fun j => b.get (512*i + j)

def blockAt (d : Disk) (blk : UInt32) : Block :=
  Bytes.ofFn fun i => (d (lba blk + i/512)).get (i%512)

def blockSectors (blk : UInt32) (src : Block) : List (ℕ × Sector) :=
  (List.range 8).map fun i => (lba blk + i,sectorOf src i)

def rawReadFrom (blk : UInt32) : ℕ → ℕ → Block → Prog Sector (Option Block)
  | 0, _, dst => .ret (some dst)
  | n+1, i, dst => .read (lba blk + i) fun
    | none => .ret none
    | some s => rawReadFrom blk n (i+1) (dst.splice (512*i) 512 s.get)

def rawRead (blk : UInt32) : Prog Sector (Option Block) := rawReadFrom blk 8 0 Bytes.zero

def rawWrite (blk : UInt32) (src : Block) : Prog Sector Bool := writeAll (blockSectors blk src)

def rawWriteAll : List (UInt32 × Block) → Prog Sector Bool
  | [] => .ret true
  | w :: ws => rawWrite w.1 w.2 >>= fun ok => if ok then rawWriteAll ws else .ret false

def batchSectors (ws : List (UInt32 × Block)) : List (ℕ × Sector) :=
  ws.flatMap fun w => blockSectors w.1 w.2

lemma rawWriteAll_eq (ws : List (UInt32 × Block)) :
    rawWriteAll ws = writeAll (batchSectors ws) := by
  induction ws with
  | nil => rfl
  | cons w ws ih =>
    rw [rawWriteAll,batchSectors,flatMap_cons,writeAll_append,rawWrite,ih,batchSectors]

lemma lba_inj {b c : UInt32} {i j : ℕ} (hi : i < 8) (hj : j < 8)
    (h : lba b + i = lba c + j) : b = c ∧ i = j := by
  unfold lba at h
  have hbc : b.toNat = c.toNat := by omega
  exact ⟨UInt32.toNat_inj.mp hbc,by omega⟩

variable {blk : UInt32}

lemma mem_blockSectors {src : Block} {w : ℕ × Sector}
    (h : w ∈ blockSectors blk src) : ∃ i < 8, w = (lba blk + i,sectorOf src i) := by
  simp only [blockSectors,List.mem_map,mem_range] at h
  obtain ⟨i,hi,rfl⟩ := h
  exact ⟨i,hi,rfl⟩

lemma mem_batchSectors {ws : List (UInt32 × Block)} {s : ℕ × Sector}
    (h : s ∈ batchSectors ws) : ∃ w ∈ ws, ∃ i < 8, s = (lba w.1 + i,sectorOf w.2 i) := by
  obtain ⟨w,hw,hs⟩ := List.mem_flatMap.mp h
  exact ⟨w,hw,mem_blockSectors hs⟩

lemma blockAt_congr {d d' : Disk} (h : ∀ i < 8, d (lba blk + i) = d' (lba blk + i)) :
    blockAt d blk = blockAt d' blk := by
  apply Bytes.ext_get
  intro i hi
  rw [blockAt,blockAt,Bytes.get_ofFn _ hi,Bytes.get_ofFn _ hi,h (i/512) (by omega)]

lemma sectorOf_blockAt (d : Disk) (blk : UInt32) {i : ℕ} (hi : i < 8) :
    sectorOf (blockAt d blk) i = d (lba blk + i) := by
  apply Bytes.ext_get
  intro j hj
  rw [sectorOf,Bytes.get_ofFn _ hj,blockAt,Bytes.get_ofFn _ (by omega)]
  congr 2
  · congr 1; omega
  · omega

lemma applyWrites_blockSectors (d : Disk) (blk : UInt32) (src : Block) {i : ℕ} (hi : i < 8) :
    applyWrites (blockSectors blk src) d (lba blk + i) = sectorOf src i := by
  have hi' : i = 0 ∨ i = 1 ∨ i = 2 ∨ i = 3 ∨ i = 4 ∨ i = 5 ∨ i = 6 ∨ i = 7 := by omega
  rcases hi' with rfl | rfl | rfl | rfl | rfl | rfl | rfl | rfl <;>
    simp [blockSectors,range_succ]

lemma blockAt_applyWrites_self (d : Disk) (blk : UInt32) (src : Block) :
    blockAt (applyWrites (blockSectors blk src) d) blk = src := by
  apply Bytes.ext_get
  intro i hi
  rw [blockAt,Bytes.get_ofFn _ hi,applyWrites_blockSectors d blk src (by omega),sectorOf,
    Bytes.get_ofFn _ (by omega)]
  congr 1
  omega

lemma blockAt_applyWrites_take_of_ne (d : Disk) {blk b : UInt32} (src : Block) (n : ℕ)
    (h : blk ≠ b) : blockAt (applyWrites ((blockSectors blk src).take n) d) b = blockAt d b := by
  apply blockAt_congr
  intro i hi
  apply applyWrites_of_not_mem
  intro w hw he
  obtain ⟨j,hj,rfl⟩ := mem_blockSectors (mem_of_mem_take hw)
  exact h (lba_inj hj hi he).1

lemma blockAt_applyWrites_of_ne (d : Disk) {blk b : UInt32} (src : Block)
    (h : blk ≠ b) : blockAt (applyWrites (blockSectors blk src) d) b = blockAt d b := by
  have ht := blockAt_applyWrites_take_of_ne d src (blockSectors blk src).length h
  rwa [take_length] at ht

lemma blockAt_batch_of_not_mem (ws : List (UInt32 × Block)) (d : Disk) {b : UInt32}
    (h : ∀ w ∈ ws, w.1 ≠ b) : blockAt (applyWrites (batchSectors ws) d) b = blockAt d b := by
  apply blockAt_congr
  intro i hi
  apply applyWrites_of_not_mem
  intro s hs he
  obtain ⟨w,hw,j,hj,rfl⟩ := mem_batchSectors hs
  exact h w hw (lba_inj hj hi he).1

lemma blockAt_batch_of_mem (ws : List (UInt32 × Block)) (d : Disk) {b : UInt32} {src : Block}
    (hn : (ws.map Prod.fst).Nodup) (hw : (b,src) ∈ ws) :
    blockAt (applyWrites (batchSectors ws) d) b = src := by
  induction ws generalizing d with
  | nil => simp at hw
  | cons x ws ih =>
    rw [map_cons,nodup_cons] at hn
    have hsplit : batchSectors (x :: ws) = blockSectors x.1 x.2 ++ batchSectors ws := rfl
    rw [hsplit,applyWrites_append]
    rcases List.mem_cons.mp hw with rfl | hm
    · rw [blockAt_batch_of_not_mem _ _ fun y hy he => hn.1 (List.mem_map.mpr ⟨y,hy,he⟩)]
      exact blockAt_applyWrites_self d b src
    · exact ih _ hn.2 hm

lemma Safe.rawReadFrom {E : Env Sector} {Q : Option Block → Disk → Prop} {d : Disk}
    (hc : E.crash d) (ha : ∀ i < 8, E.addr (lba blk + i))
    (hs : Q (some (blockAt d blk)) d) (hn : E.mayFail → Q none d)
    (n i : ℕ) (dst : Block) (hi : i + n = 8)
    (hd : ∀ k < 512*i, dst.get k = (blockAt d blk).get k) :
    Safe E Q (rawReadFrom blk n i dst) d := by
  induction n generalizing i dst with
  | zero =>
    have he : dst = blockAt d blk := Bytes.ext_get fun k hk => hd k (by omega)
    exact ⟨hc,he ▸ hs⟩
  | succ n ih =>
    refine ⟨hc,ha i (by omega),fun o ho => ?_⟩
    cases o with
    | ok =>
      refine ih (i+1) _ (by omega) fun k hk => ?_
      rw [Bytes.get_splice _ _ _ _ (by omega)]
      split_ifs with hin
      · rw [blockAt,Bytes.get_ofFn _ (by omega),← sectorOf_blockAt d blk (by omega : i < 8)]
        rw [← sectorOf_blockAt d blk (by omega : k/512 < 8)]
        congr 2 <;> omega
      · exact hd k (by omega)
    | lost | stored => exact ⟨hc,hn ⟨_,ho,by decide⟩⟩

lemma Safe.rawRead {E : Env Sector} {Q : Option Block → Disk → Prop} {d : Disk}
    (hc : E.crash d) (ha : ∀ i < 8, E.addr (lba blk + i)) (hs : Q (some (blockAt d blk)) d)
    (hn : E.mayFail → Q none d) : Safe E Q (rawRead blk) d :=
  Safe.rawReadFrom hc ha hs hn 8 0 _ rfl (by intro k hk; omega)

end VibeOS.Osfs2

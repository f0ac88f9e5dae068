import VibeOS.Osfs2.System
import VibeOS.Osfs2.JournalCrash

/-! The image that `mkosfs2.py` writes when it is given no files, and mounting: `osfs2_init`
with the journal replay, and the order in which `main.c` sets up the driver and its cache. -/
namespace VibeOS.Osfs2
open Function
open VibeOS.Storage

namespace Superblock

def word (sb : Superblock) : ℕ → UInt32
  | 0 => sb.blockSize
  | 1 => sb.totalBlocks
  | 2 => sb.inodeCount
  | 3 => sb.blockBitmapBlock
  | 4 => sb.inodeBitmapBlock
  | 5 => sb.inodeTableBlock
  | 6 => sb.inodeTableBlocks
  | 7 => sb.dataStartBlock
  | 8 => sb.rootInode
  | 9 => sb.journalHeaderBlock
  | 10 => sb.journalDataBlocks
  | _ => sb.reserved

def toBlock (sb : Superblock) : Block :=
  Bytes.ofFn fun i =>
    if i < 8 then sb.magic.get i
    else if i < 56 then Bytes.wordByte (sb.word ((i-8)/4)) ((i-8)%4)
    else 0

def ofBlock (b : Block) : Superblock where
  magic := Bytes.ofFn b.get
  blockSize := b.u32 8
  totalBlocks := b.u32 12
  inodeCount := b.u32 16
  blockBitmapBlock := b.u32 20
  inodeBitmapBlock := b.u32 24
  inodeTableBlock := b.u32 28
  inodeTableBlocks := b.u32 32
  dataStartBlock := b.u32 36
  rootInode := b.u32 40
  journalHeaderBlock := b.u32 44
  journalDataBlocks := b.u32 48
  reserved := b.u32 52

lemma toBlock_word (sb : Superblock) {w : ℕ} (hw : w < 12) : sb.toBlock.u32 (8+4*w) = sb.word w := by
  apply Bytes.u32_of_bytes
  intro k hk
  rw [toBlock,Bytes.get_ofFn _ (by omega),if_neg (by omega),if_pos (by omega)]
  congr 2 <;> omega

lemma ofBlock_toBlock (sb : Superblock) : ofBlock sb.toBlock = sb := by
  have hm : (Bytes.ofFn sb.toBlock.get : Bytes 8) = sb.magic := by
    apply Bytes.ext_get
    intro i hi
    rw [Bytes.get_ofFn _ hi,toBlock,Bytes.get_ofFn _ (by omega),if_pos hi]
  have hw (w : ℕ) (h : w < 12) := sb.toBlock_word h
  have h0 := hw 0 (by omega)
  have h1 := hw 1 (by omega)
  have h2 := hw 2 (by omega)
  have h3 := hw 3 (by omega)
  have h4 := hw 4 (by omega)
  have h5 := hw 5 (by omega)
  have h6 := hw 6 (by omega)
  have h7 := hw 7 (by omega)
  have h8 := hw 8 (by omega)
  have h9 := hw 9 (by omega)
  have h10 := hw 10 (by omega)
  have h11 := hw 11 (by omega)
  simp only [Nat.mul_zero,Nat.add_zero,Nat.mul_one,Nat.reduceMul,Nat.reduceAdd,word] at h0 h1 h2 h3 h4 h5 h6 h7 h8 h9 h10 h11
  unfold ofBlock
  rw [hm,h0,h1,h2,h3,h4,h5,h6,h7,h8,h9,h10,h11]

end Superblock

def mkBitmap (bits : List UInt32) : Block := bits.foldl bitmapSet Bytes.zero

def imageBlockBitmap : Block := mkBitmap ((List.range 101).map UInt32.ofNat)

def imageInodeBitmap : Block := mkBitmap [0,inodeRoot]

def imageRoot : Inode :=
  { Inode.zero with
    type := typeDir
    nlink := 1
    mode := 0o755
    direct := update (fun _ => 0) 0 100 }

def image : Store Block := fun b =>
  if b = 0 then geometry.toBlock
  else if b = 1 then imageBlockBitmap
  else if b = 2 then imageInodeBitmap
  else if b = 3 then Inode.toBlock Bytes.zero 1 imageRoot
  else Bytes.zero

def imageDisk : Disk := fun a => sectorOf (image (a/8)) (a%8)

lemma blockAt_imageDisk (b : UInt32) : blockAt imageDisk b = image b.toNat := by
  apply Bytes.ext_get
  intro i hi
  have hd : (lba b + i/512) / 8 = b.toNat := by unfold lba; omega
  have hm : (lba b + i/512) % 8 = i/512 := by unfold lba; omega
  rw [blockAt,Bytes.get_ofFn _ hi,imageDisk,hd,hm,sectorOf,Bytes.get_ofFn _ (by omega)]
  congr 1
  omega

lemma bitmapGet_zero (bit : UInt32) : bitmapGet Bytes.zero bit = false := by
  rw [bitmapGet_eq,Bytes.get_zero]
  exact Nat.zero_testBit _

lemma bitmapGet_foldl (bits : List UInt32) (hb : ∀ b ∈ bits, b.toNat < 32768) (bm : Block) (bit : UInt32) :
    bitmapGet (bits.foldl bitmapSet bm) bit = (decide (bit ∈ bits) || bitmapGet bm bit) := by
  induction bits generalizing bm with
  | nil => simp
  | cons b bits ih =>
    rw [List.foldl_cons,ih fun c hc => hb c (List.mem_cons_of_mem _ hc),
      bitmapGet_bitmapSet _ (hb b List.mem_cons_self)]
    by_cases hbit : bit = b
    · subst hbit; simp
    · simp [hbit]

lemma bitmapGet_mkBitmap {bits : List UInt32} (hb : ∀ b ∈ bits, b.toNat < 32768) (bit : UInt32) :
    bitmapGet (mkBitmap bits) bit = decide (bit ∈ bits) := by
  rw [mkBitmap,bitmapGet_foldl bits hb,bitmapGet_zero,Bool.or_false]

lemma imageBlockBitmap_get (b : UInt32) : bitmapGet imageBlockBitmap b = decide (b.toNat < 101) := by
  have hb := b.toNat_lt
  rw [imageBlockBitmap,bitmapGet_mkBitmap]
  · congr 1
    rw [eq_iff_iff,List.mem_map]
    constructor
    · rintro ⟨k,hk,rfl⟩
      rw [List.mem_range] at hk
      rw [UInt32.toNat_ofNat']
      omega
    · intro h
      exact ⟨b.toNat,List.mem_range.mpr h,UInt32.ofNat_toNat⟩
  · intro c hc
    obtain ⟨k,hk,rfl⟩ := List.mem_map.mp hc
    rw [List.mem_range] at hk
    rw [UInt32.toNat_ofNat']
    omega

lemma imageInodeBitmap_get (i : UInt32) : bitmapGet imageInodeBitmap i = decide (i = 0 ∨ i = inodeRoot) := by
  have hbits : ∀ b ∈ [0,inodeRoot], b.toNat < 32768 := by
    intro b hb
    obtain rfl | rfl := List.mem_pair.mp hb <;> simp [inodeRoot]
  rw [imageInodeBitmap,bitmapGet_mkBitmap hbits]
  exact decide_eq_decide.mpr List.mem_pair

/-- The end of `osfs2_init`. -/
def loadBitmaps : Fs Bool := do
  let s ← get
  match ← readBlock s.sb.blockBitmapBlock with
  | none => return false
  | some b =>
    set { s with blockBitmap := b }
    match ← readBlock s.sb.inodeBitmapBlock with
    | none => return false
    | some b' =>
      set { s with blockBitmap := b, inodeBitmap := b', present := true }
      return true

/-- `osfs2_init`, with `none` for its returns of -1. The cache is in its initial state when it
is called; the bitmaps are read through it. -/
def osfs2Init (devPresent : Bool) (c : Cache) : Prog Sector (Option (FsState × Cache)) :=
  if !devPresent then .ret none
  else rawRead 0 >>= fun
    | none => .ret none
    | some sbBuf =>
      let sb := Superblock.ofBlock sbBuf
      if sb.magic ≠ geometry.magic then .ret none
      else if sb.blockSize ≠ UInt32.ofNat blockSize then .ret none
      else if sb.inodeCount = 0 ∨ sb.inodeCount > 65536 then .ret none
      else osfs2JournalReplay (osfs2JournalInit sb.journalHeaderBlock sb.journalDataBlocks) >>= fun r =>
        if r.1 ≠ 0 then .ret none
        else cacheLayer.serve (loadBitmaps ⟨false,sb,Bytes.zero,Bytes.zero⟩) { c with journal := r.2 } >>=
          fun r => if r.1.1 then .ret (some (r.1.2,r.2)) else .ret none

def noJournal : Journal := ⟨⟨0,0,0⟩,0,0,0,0⟩

/-- The lines of `main.c`: the cache is set up once the driver is. -/
def mount : Prog Sector (Option (FsState × Cache)) :=
  osfs2Init true (osfs2CacheInit noJournal) >>= fun
    | none => .ret none
    | some (s,c) => .ret (some (s,osfs2CacheInit c.journal))

def boot (d : Disk) : Option Sys :=
  match mount.run d with
  | (some (s,c),d') => some ⟨s,c,d'⟩
  | (none,_) => none

def Cache.Clean (c : Cache) : Prop := ∀ i, (c.slots i).dirty = false

lemma evict_clean {c : Cache} {i : Fin 32} (h : (c.slots i).dirty = false) :
    ∃ c', evict c i = .ret (true,c') ∧ c'.slots = c.slots := by
  unfold evict
  rw [h]
  cases (c.slots i).valid with
  | true | false => exact ⟨_,rfl,rfl⟩

lemma rawReadFrom_quiet (blk : UInt32) (n i : ℕ) (dst : Block) (d : Disk) :
    (rawReadFrom blk n i dst).Quiet d := by
  induction n generalizing i dst with
  | zero => trivial
  | succ n ih => exact ih _ _

lemma osfs2CacheRead_quiet {c : Cache} (h : c.Clean) (b : UInt32) (d : Disk) :
    (osfs2CacheRead c b).Quiet d ∧ ((osfs2CacheRead c b).run d).1.2.Clean := by
  unfold osfs2CacheRead
  cases hf : findSlot c b with
  | some i =>
    refine ⟨trivial,fun k => ?_⟩
    change (update c.slots i _ k).dirty = false
    by_cases hk : k = i
    · subst hk
      rw [update_self]
      exact h k
    · rw [update_of_ne hk]
      exact h k
  | none =>
    obtain ⟨c',he,hs⟩ := evict_clean (h (pickVictim c))
    dsimp only
    rw [he,Prog.ret_bind,if_neg (by simp)]
    refine ⟨Prog.Quiet.bind (rawReadFrom_quiet _ _ _ _ d) ?_,?_⟩
    · rw [rawRead_run]
      trivial
    · rw [Prog.run_bind,rawRead_run]
      intro k
      change (update c'.slots _ _ k).dirty = false
      by_cases hk : k = pickVictim c
      · subst hk
        rw [update_self]
      · rw [update_of_ne hk,hs]
        exact h k

lemma serve_quiet {α : Type} {p : Prog Block α} (hp : p.ReadOnly) {c : Cache} (hc : c.Clean) (d : Disk) :
    (cacheLayer.serve p c).Quiet d := by
  induction p generalizing c with
  | ret a => trivial
  | read a k ih =>
    obtain ⟨hq,hclean⟩ := osfs2CacheRead_quiet hc (UInt32.ofNat a) d
    exact hq.bind (ih _ (hp _) hclean)
  | write a b k => exact hp.elim

def mountedFs (w : Disk) : FsState := ⟨true,geometry,blockAt w 1,blockAt w 2⟩

lemma readBlock_readOnly {α : Type} (b : UInt32) (s : FsState) {k : Option Block × FsState → Prog Block α}
    (hk : ∀ r, (k r).ReadOnly) : (readBlock b s >>= k).ReadOnly := by
  unfold readBlock
  split_ifs
  · exact hk _
  · exact fun r => hk _

lemma loadBitmaps_readOnly (s : FsState) : (loadBitmaps s).ReadOnly := by
  refine readBlock_readOnly _ _ fun r => ?_
  obtain ⟨_ | b,s'⟩ := r
  · trivial
  · refine readBlock_readOnly _ _ fun r => ?_
    obtain ⟨_ | b',s''⟩ := r <;> trivial

lemma loadBitmaps_safe (u : Store Block) :
    Safe fsEnv (fun r u' => r = (true,⟨true,geometry,u 1,u 2⟩) ∧ u' = u)
      (loadBitmaps ⟨false,geometry,Bytes.zero,Bytes.zero⟩) u := by
  have h1 : geometry.blockBitmapBlock.toNat = 1 := rfl
  have h2 : geometry.inodeBitmapBlock.toNat = 2 := rfl
  have hb1 : fsBlock geometry.blockBitmapBlock.toNat := by rw [h1]; unfold fsBlock; omega
  have hb2 : fsBlock geometry.inodeBitmapBlock.toNat := by rw [h2]; unfold fsBlock; omega
  refine Safe.bind (Safe.ret trivial ?_)
  refine Safe.bind (Safe.readBlock (s := ⟨false,geometry,Bytes.zero,Bytes.zero⟩) rfl hb1 ?_)
  rw [h1]
  refine Safe.bind (Safe.ret trivial ?_)
  refine Safe.bind (Safe.readBlock (s := ⟨false,geometry,u 1,Bytes.zero⟩) rfl hb2 ?_)
  rw [h2]
  refine Safe.bind (Safe.ret trivial ?_)
  exact ⟨trivial,rfl,rfl⟩

lemma mount_recovers {d w : Disk} (hsb : Superblock.ofBlock (blockAt d 0) = geometry)
    (h : Recovers journalPlace w d) :
    Safe ((Env.reliable).withCrash (Recovers journalPlace w))
      (fun r d' => Idle journalPlace d' ∧ Agree journalPlace d' w ∧
        ∃ j, j.toJournalPlace = journalPlace ∧ r = some (mountedFs w,osfs2CacheInit j)) mount d := by
  have hE : ¬ ((Env.reliable : Env Sector).withCrash (Recovers journalPlace w)).mayFail :=
    Env.withCrash_not_mayFail _
  unfold mount osfs2Init
  rw [if_neg (by decide)]
  refine Safe.bind (Safe.bind (Safe.rawRead h (fun _ _ => trivial) ?_ fun hm => (hE hm).elim))
  dsimp only
  rw [hsb,if_neg (by simp),if_neg (by decide),if_neg (by decide)]
  refine Safe.bind ((replay_recovers (osfs2JournalInit 67 32) journalPlace_fits h).mono
    fun r d' ⟨hr,hj,hi,ha⟩ => ?_)
  rw [if_neg (by simp [hr])]
  have hb {b : UInt32} (ho : ¬ journalPlace.owns b) : blockAt d' b = blockAt w b :=
    blockAt_congr fun i hi => ha _ (by rwa [inJournal_sector hi])
  have hfirst := osfs2CacheInit_coherent r.2 d'
  rw [show r.2.toJournalPlace = journalPlace from hj] at hfirst
  have hshows : Shows (fun a => blockAt d' (UInt32.ofNat a)) { osfs2CacheInit noJournal with journal := r.2 } d' :=
    ⟨_,hfirst,fun _ _ => rfl⟩
  have hload := cacheLayer_correct.serve (loadBitmaps_safe fun a => blockAt d' (UInt32.ofNat a)) hshows
  have hquiet := serve_quiet (loadBitmaps_readOnly ⟨false,geometry,Bytes.zero,Bytes.zero⟩)
    (c := { osfs2CacheInit noJournal with journal := r.2 }) (fun _ => rfl) d'
  refine Safe.bind ((hquiet.safe hload (.inl ⟨hi,ha⟩)).mono fun r' d'' ⟨hd,u,⟨latest,hc,_⟩,hres,_⟩ => ?_)
  subst hd
  rw [hres]
  refine ⟨.inl ⟨hi,ha⟩,.inl ⟨hi,ha⟩,hi,ha,r'.2.journal,hc.place,?_⟩
  rw [mountedFs,← hb (b := 1) (by rw [journalPlace_owns]; decide),
    ← hb (b := 2) (by rw [journalPlace_owns]; decide)]
  rfl

def imageVol : Vol where
  inode := update (fun _ => Inode.zero) inodeRoot imageRoot
  data _ := Bytes.zero
  used b := decide (b.toNat < 101)
  live i := decide (i = 0 ∨ i = inodeRoot)

lemma imageVol_root : imageVol.inode inodeRoot = imageRoot := by
  simp [imageVol]

lemma imageVol_inode_of_ne {i : UInt32} (h : i ≠ inodeRoot) : imageVol.inode i = Inode.zero := by
  simp [imageVol,h]

lemma image_zero {b : ℕ} (h : 3 < b) : image b = Bytes.zero := by
  unfold image
  rw [if_neg (by omega),if_neg (by omega),if_neg (by omega),if_neg (by omega)]

lemma image_inode (i : UInt32) (hi : i.toNat < 2048) :
    Inode.ofBlock (image (3 + i.toNat/32)) (i.toNat%32) = imageVol.inode i := by
  have h1 : i = inodeRoot ↔ i.toNat = 1 := by rw [← UInt32.toNat_inj]; rfl
  by_cases hb : i.toNat/32 = 0
  · rw [hb]
    change Inode.ofBlock (Inode.toBlock Bytes.zero 1 imageRoot) (i.toNat%32) = _
    by_cases hr : i = inodeRoot
    · subst hr
      rw [imageVol_root]
      exact Inode.ofBlock_toBlock _ (by decide) _
    · have hne : 1 ≠ i.toNat%32 := fun he => hr (h1.mpr (by omega))
      rw [imageVol_inode_of_ne hr,Inode.ofBlock_toBlock_of_ne _ _ hne,Inode.ofBlock_zero]
  · have hr : i ≠ inodeRoot := fun he => hb (by rw [h1.mp he])
    have hlt : 3 < 3 + i.toNat/32 := by omega
    rw [image_zero hlt,imageVol_inode_of_ne hr,Inode.ofBlock_zero]

lemma image_rep {u : Store Block} (hu : ∀ a, fsBlock a → u a = image a) {s : FsState}
    (hs : s = ⟨true,geometry,image 1,image 2⟩) : Rep imageVol s u := by
  subst hs
  refine ⟨rfl,rfl,funext fun b => (imageBlockBitmap_get b).symm,
    funext fun i => (imageInodeBitmap_get i).symm,hu 1 ?_,hu 2 ?_,fun i => ?_,fun b => ?_⟩
  · unfold fsBlock; omega
  · unfold fsBlock; omega
  · split_ifs with hi
    · rw [hu _ (by unfold fsBlock; omega),image_inode i hi]
    · refine imageVol_inode_of_ne fun he => hi ?_
      rw [he]
      decide
  · split_ifs with hb
    · have hlt : 3 < b.toNat := by have := hb.1; omega
      rw [hu _ hb.fsBlock,image_zero hlt]
      rfl
    · rfl

lemma JournalHeader.ofBytes_zero {n : ℕ} : JournalHeader.ofBytes (Bytes.zero : Bytes n) = .zero := by
  unfold JournalHeader.ofBytes JournalHeader.zero
  congr 1
  · funext k
    exact Bytes.get_zero _
  all_goals simp

lemma image_recovers : Recovers journalPlace imageDisk imageDisk := by
  refine .inl ⟨?_,Agree.refl _⟩
  have hh : diskHeader journalPlace imageDisk = JournalHeader.zero := by
    rw [diskHeader,← JournalHeader.ofBytes_blockAt,blockAt_imageDisk]
    change JournalHeader.ofBytes (image 67) = _
    rw [image_zero (by omega),JournalHeader.ofBytes_zero]
  rw [Idle,hh]
  exact not_committed_zero

lemma image_superblock : Superblock.ofBlock (blockAt imageDisk 0) = geometry := by
  rw [blockAt_imageDisk]
  exact Superblock.ofBlock_toBlock geometry

/-- A system after a mount: nothing is cached and the journal is idle. -/
structure Sys.Fresh (σ : Sys) (w : Disk) : Prop where
  fs : σ.fs = mountedFs w
  clean : ∃ j, j.toJournalPlace = journalPlace ∧ σ.cache = osfs2CacheInit j
  idle : Idle journalPlace σ.disk
  agree : Agree journalPlace σ.disk w

lemma boot_fresh {d w : Disk} (hsb : Superblock.ofBlock (blockAt d 0) = geometry)
    (h : Recovers journalPlace w d) : ∃ σ, boot d = some σ ∧ σ.Fresh w := by
  obtain ⟨hi,ha,j,hj,hr⟩ := (mount_recovers hsb h).run_sound rfl
  unfold boot
  rw [show mount.run d = (some (mountedFs w,osfs2CacheInit j),(mount.run d).2) from Prod.ext hr rfl]
  exact ⟨_,rfl,rfl,⟨j,hj,rfl⟩,hi,ha⟩

lemma Sys.Fresh.shows {σ : Sys} {w : Disk} (h : σ.Fresh w) :
    Shows (fun a => blockAt w (UInt32.ofNat a)) σ.cache σ.disk := by
  obtain ⟨j,hj,hc⟩ := h.clean
  have hco := osfs2CacheInit_coherent j σ.disk
  rw [hj] at hco
  refine ⟨_,hc ▸ hco,fun a ha => ?_⟩
  exact (blockAt_congr fun i hi => h.agree _ (by rw [inJournal_sector hi]; exact ha.outside)).symm

lemma boot_image_isSome : (boot imageDisk).isSome := by
  obtain ⟨σ,hb,-⟩ := boot_fresh image_superblock image_recovers
  rw [hb]
  rfl

def fresh : Sys := (boot imageDisk).get boot_image_isSome

lemma fresh_fresh : fresh.Fresh imageDisk := by
  obtain ⟨σ,hb,hf⟩ := boot_fresh image_superblock image_recovers
  have hs : fresh = σ := by
    unfold fresh
    rw [Option.get_of_eq_some _ hb]
  rwa [hs]

lemma fresh_mounts : fresh.Mounts imageVol := by
  refine ⟨_,fresh_fresh.shows,image_rep (fun a ha => ?_) ?_⟩
  · rw [blockAt_imageDisk,ha.toNat]
  · rw [fresh_fresh.fs,mountedFs,blockAt_imageDisk,blockAt_imageDisk]
    rfl

lemma imageRoot_direct (k : Fin 16) : imageRoot.direct k = if k = 0 then 100 else 0 := by
  by_cases hk : k = 0
  · rw [if_pos hk,hk]
    rfl
  · rw [if_neg hk]
    simp [imageRoot,hk]

lemma Inode.pointer_zero (v : Vol) (p : Vol.Pos) : v.pointer Inode.zero p = 0 :=
  (congrFun (v.pointer_record (x := Inode.zero) (y := newInode typeFree) rfl rfl) p).symm.trans
    (v.pointer_newInode _ p)

lemma imageVol_own (i : UInt32) (p : Vol.Pos) :
    imageVol.own (i,p) = if i = inodeRoot ∧ p = .lbn 0 then 100 else 0 := by
  unfold Vol.own
  by_cases hi : i = inodeRoot
  · subst hi
    rw [imageVol_root]
    cases p with
    | indirect => rfl
    | lbn n =>
      rw [Vol.pointer_lbn]
      by_cases hn : n < 16
      · have hk : (⟨n,hn⟩ : Fin 16) = 0 ↔ n = 0 := by rw [Fin.ext_iff]; rfl
        rw [Vol.ptr_of_lt _ _ hn,imageRoot_direct]
        simp [hk]
      · rw [if_neg (by rintro ⟨-,h⟩; exact hn (Vol.Pos.lbn.inj h ▸ by omega)),
          Vol.ptr_of_ge _ _ (by omega),Vol.entry,if_pos (show imageRoot.indirect = 0 from rfl),ite_self]
  · rw [if_neg fun h => hi h.1, imageVol_inode_of_ne hi,Inode.pointer_zero]

lemma imageVol_owned : imageVol.Owned := by
  refine ⟨fun ⟨i,p⟩ h0 => ?_,fun ⟨i,p⟩ ⟨k,q⟩ h0 he => ?_⟩
  · rw [imageVol_own] at h0 ⊢
    split_ifs at h0 ⊢
    · exact ⟨by decide,by decide⟩
    · exact absurd rfl h0
  · rw [imageVol_own] at h0 he
    rw [imageVol_own] at he
    by_cases hi : i = inodeRoot ∧ p = .lbn 0
    · rw [if_pos hi] at he
      by_cases hk : k = inodeRoot ∧ q = .lbn 0
      · rw [hi.1,hi.2,hk.1,hk.2]
      · rw [if_neg hk] at he
        exact absurd he (by decide)
    · rw [if_neg hi] at h0
      exact absurd rfl h0

end VibeOS.Osfs2

import VibeOS.Vfs.Identity

/-! `sys_write` on files under `/tmp` and `/data`: the loop over chunks of 256 bytes, and what it leaves
in the file. -/
namespace VibeOS.Vfs
open Function
open VibeOS.Osfs2

def efault : ℤ := 14
/-- The bounce buffer of `sys_write`. -/
def chunkSize : ℕ := 256

/-- The buffer of the caller; `fault` where `copy_from_user` of the chunk that starts there fails. -/
structure UserBuf where
  byte : ℕ → UInt8
  fault : ℕ → Bool

/-- The place of the first byte of a write; `tmpfs_write` is called with 32 bits of the offset. -/
def Target.at : Target → UInt64 → ℕ
  | .tmp _,offset => offset.toUInt32.toNat
  | .data _,offset => offset.toNat

def Target.isTmp : Target → Bool
  | .tmp _ => true
  | .data _ => false

/-- How `sys_write` returns; `stored` is what its chunks have put into the file. -/
structure Written where
  value : ℤ
  stored : ℕ
  offset : UInt64
  files : Files

namespace Files

/-- The loop of `sys_write` after `total` bytes; a `tmpfs_write` is never short. -/
def writeLoop (f : Files) (t : Target) (offset : UInt64) (buf : UserBuf) (kbuf : ℕ → Option Buffer) (len total : ℕ) : Written :=
  if total < len then
    let n := min chunkSize (len - total)
    if buf.fault total then ⟨-efault,total,offset,f⟩
    else
      let r := f.write t offset (fun j => buf.byte (total + j)) (UInt64.ofNat n) (kbuf total)
      if r.1 < 0 then ⟨if total > 0 then total else r.1,total,offset,r.2⟩
      else if r.1.toNat < n then ⟨total + r.1,total + r.1.toNat,offset + UInt64.ofNat r.1.toNat,r.2⟩
      else r.2.writeLoop t (offset + UInt64.ofNat n) buf kbuf len (total + n)
  else ⟨total,total,offset,f⟩
termination_by len - total
decreasing_by
  have : 0 < chunkSize := by decide
  omega

/-- `sys_write` of a file; `len` is a `long`. -/
def sysWrite (f : Files) (t : Target) (offset : UInt64) (buf : UserBuf) (kbuf : ℕ → Option Buffer) (len : ℤ) : Written :=
  if len < 0 then ⟨-einval,0,offset,f⟩ else if len = 0 then ⟨0,0,offset,f⟩ else f.writeLoop t offset buf kbuf len.toNat 0

def length (f : Files) : Target → ℕ
  | .tmp i => (f.tmp i).size
  | .data ino => (f.sys.vol.inode ino).size.toNat

def byte (f : Files) : Target → ℕ → UInt8
  | .tmp i => (f.tmp i).data
  | .data ino => f.sys.vol.byteAt (f.sys.vol.inode ino)

/-- The volume is sound and each of its names leads to a file. -/
structure Good (f : Files) : Prop where
  sound : f.sys.Sound
  named : f.sys.vol.Named

lemma Moves.good {f g : Files} (h : f.Moves g) (hf : f.Good) : g.Good := ⟨h.sound,h.vol.named hf.sound.owned hf.named⟩

/-- `c` bytes went to `o`, and no other byte of the file has changed. Only tmpfs makes zeros of a gap before `o`. -/
structure Stored (f g : Files) (t : Target) (o c : ℕ) (src : ℕ → UInt8) : Prop where
  length : g.length t = if c = 0 then f.length t else max (f.length t) (o + c)
  bytes : ∀ p, o ≤ p → p < o + c → g.byte t p = src (p - o)
  old : ∀ p < f.length t, ¬ (o ≤ p ∧ p < o + c) → g.byte t p = f.byte t p
  gap : c ≠ 0 → t.isTmp = true → ∀ p, f.length t ≤ p → p < o → g.byte t p = 0

variable {f g h : Files} {t : Target} {o a b : ℕ} {src : ℕ → UInt8} {offset : UInt64}

lemma Stored.none (hlen : g.length t = f.length t) (hbyte : ∀ p < f.length t, g.byte t p = f.byte t p) :
    Stored f g t o 0 src :=
  ⟨hlen,fun p h₁ h₂ => absurd h₂ (by omega),fun p hp _ => hbyte p hp,fun h => absurd rfl h⟩

lemma Stored.refl : Stored f f t o 0 src := .none rfl fun _ _ => rfl

lemma Stored.trans (hab : Stored f g t o a src) (hbc : Stored g h t (o + a) b fun j => src (a + j)) (ha : 0 < a) :
    Stored f h t o (a + b) src := by
  have hg : g.length t = max (f.length t) (o + a) := by rw [hab.length,if_neg (by omega)]
  refine ⟨?_,fun p h₁ h₂ => ?_,fun p hp hout => ?_,fun _ ht p hp ho => ?_⟩
  · rw [if_neg (by omega : a + b ≠ 0),hbc.length,hg]
    split_ifs with hb
    · rw [hb,Nat.add_zero]
    · omega
  · by_cases hp : p < o + a
    · rw [hbc.old p (by rw [hg]; exact lt_max_of_lt_right hp) (by omega)]
      exact hab.bytes p h₁ hp
    · rw [hbc.bytes p (by omega) (by omega)]
      congr 1
      omega
  · rw [hbc.old p (by rw [hg]; exact lt_max_of_lt_left hp) (by omega)]
    exact hab.old p hp (by omega)
  · rw [hbc.old p (by rw [hg]; exact lt_max_of_lt_right (by omega)) (by omega)]
    exact hab.gap (by omega) ht p hp ho

def Chunk (f g : Files) (t : Target) (offset : UInt64) (n : ℕ) (src : ℕ → UInt8) (w : ℤ) : Prop :=
  (w < 0 ∧ Stored f g t 0 0 src) ∨
    ∃ c, 0 < c ∧ c ≤ n ∧ w = c ∧ Stored f g t (t.at offset) c src ∧ t.at (offset + UInt64.ofNat c) = t.at offset + c

lemma growTo_kept {x y : TmpfsFile} {need : ℕ} {kbuf : Option Buffer} (hg : x.growTo need kbuf = some y) :
    y.size = x.size ∧ ∀ p < x.size, y.data p = x.data p := by
  dsimp only [TmpfsFile.growTo] at hg
  generalize Tmpfs.doubled need 18 (if x.cap = 0 then tmpfsInitialCap else x.cap) = newcap at hg
  split at hg
  · cases hg
    exact ⟨rfl,fun _ _ => rfl⟩
  split at hg
  · cases hg
  split at hg
  · cases hg
  obtain ⟨nbuf,-,rfl⟩ := Option.map_eq_some_iff.mp hg
  exact ⟨rfl,fun p hp => if_pos hp⟩

variable {n : ℕ}

lemma chunk_toNat (h : n ≤ chunkSize) : (UInt64.ofNat n).toNat = n := by
  rw [UInt64.toNat_ofNat']
  unfold chunkSize at h
  omega

lemma tmp_chunk {i : Fin 16} {kbuf : Option Buffer} {w : ℤ} (hn : 0 < n) (hle : n ≤ chunkSize)
    (now : f.write (.tmp i) offset src (UInt64.ofNat n) kbuf = (w,g)) : Chunk f g (.tmp i) offset n src w := by
  have hlen := chunk_toNat hle
  simp only [Files.write,Tmpfs.write,hlen] at now
  split_ifs at now with huse hzero hmax
  · cases now
    exact .inl ⟨(by decide : -ebadf < 0),.none rfl fun _ _ => rfl⟩
  · omega
  · cases now
    exact .inl ⟨(by decide : -enospc < 0),.none rfl fun _ _ => rfl⟩
  · cases hg : (f.tmp i).growTo (offset.toUInt32.toNat + n) kbuf with
    | none =>
      rw [hg] at now
      cases now
      exact .inl ⟨(by decide : -enomem < 0),.none rfl fun _ _ => rfl⟩
    | some x =>
      rw [hg] at now
      cases now
      obtain ⟨hsize,hdata⟩ := growTo_kept hg
      refine .inr ⟨n,hn,le_rfl,rfl,⟨?_,fun p h₁ h₂ => ?_,fun p hp hout => ?_,fun _ _ p hp ho => ?_⟩,?_⟩
      · simp only [length,Target.at,update_self,TmpfsFile.store,hsize]
        rw [if_neg (by omega)]
      · simp only [byte,Target.at,update_self,TmpfsFile.store] at h₁ h₂ ⊢
        rw [if_pos ⟨h₁,h₂⟩]
      · simp only [byte,length,Target.at,update_self,TmpfsFile.store] at hp hout ⊢
        rw [if_neg hout,if_neg (by omega)]
        exact hdata p hp
      · simp only [byte,length,Target.at,update_self,TmpfsFile.store,hsize] at hp ho ⊢
        rw [if_neg (by omega),if_pos ⟨hp,ho⟩]
      · simp only [Target.at,UInt64.toNat_toUInt32,UInt64.toNat_add,UInt64.toNat_ofNat'] at hmax ⊢
        unfold tmpfsMaxFileSize at hmax
        omega

lemma grow_size {x : Inode} {finish : UInt64} (h : finish.toNat < 2^32) : (x.grow finish).size.toNat = max x.size.toNat finish.toNat := by
  unfold Inode.grow
  split_ifs with hgt
  · rw [gt_iff_lt,UInt64.lt_iff_toNat_lt,UInt32.toNat_toUInt64] at hgt
    rw [UInt64.toNat_toUInt32,Nat.mod_eq_of_lt h,max_eq_right hgt.le]
  · rw [gt_iff_lt,UInt64.lt_iff_toNat_lt,UInt32.toNat_toUInt64,not_lt] at hgt
    rw [max_eq_left hgt]

lemma writes_inside {v w : Vol} {y : Inode} {i : UInt32} {len : UInt64} (hlen : len.toNat ≤ chunkSize)
    (ok : Writable v i offset len) (first : FirstTurn v (v.inode i) offset len.toNat w y) :
    offset.toNat + len.toNat ≤ maxFileBytes := by
  obtain ⟨r,x₁,v₁,hr,hres,-⟩ := first
  have hnear : ¬ 1040 ≤ lbnAt offset 0 := fun hfar => hr ((hres.here hr).symm.trans (v₁.ptr_far x₁ hfar))
  have hfits := ok.fits
  rw [UInt64.toNat_add] at hfits
  by_cases hwrap : offset.toNat + len.toNat < 2^64
  · rwa [Nat.mod_eq_of_lt hwrap] at hfits
  · -- so close to the end, the block is the last that 32 bits can say
    refine absurd ?_ hnear
    have hdiv : ((offset + UInt64.ofNat 0) / 4096).toNat = offset.toNat / 4096 := by
      rw [UInt64.toNat_div,UInt64.toNat_add]
      simp
    have hoff := offset.toNat_lt
    rw [lbnAt,UInt64.toNat_toUInt32,hdiv]
    unfold chunkSize at hlen
    omega

lemma data_writes {ino : UInt32} {len : UInt64} {kbuf : Option Buffer} {w : ℤ} (hf : f.Good)
    (now : f.write (.data ino) offset src len kbuf = (w,g)) : Writes f.sys.vol ino offset src len w g.sys.vol := by
  have hd : Does (osfs2Write ino offset src len) f.sys.vol fun r w => f.sys.vol.Moves w ∧ Writes f.sys.vol ino offset src len r w :=
    Does.osfs2Write hf.sound.owned fun r w hw => ⟨.call (.write hw),hw⟩
  obtain ⟨-,hq⟩ := exec_spec hf.sound hd f.tmp
  simp only [Files.write] at now
  cases now
  exact hq

lemma data_chunk {ino : UInt32} {kbuf : Option Buffer} {w : ℤ} (hf : f.Good) (hn : 0 < n) (hle : n ≤ chunkSize)
    (now : f.write (.data ino) offset src (UInt64.ofNat n) kbuf = (w,g)) : Chunk f g (.data ino) offset n src w := by
  have hlen := chunk_toNat hle
  have hq := data_writes hf now
  generalize hw : g.sys.vol = v at hq
  cases hq with
  | nothing h =>
    rw [h] at hlen
    exact absurd hlen (by simp; omega)
  | refused => exact .inl ⟨by decide,.none (by simp only [length,hw]) fun p _ => by simp only [byte,hw]⟩
  | full ok none =>
    obtain ⟨hgrown,-⟩ := none.grown (hf.sound.owned.self ino)
    refine .inl ⟨by decide,.none ?_ fun p _ => ?_⟩
    · simp only [length,hw,hgrown.inode]
    · have hsame : f.sys.vol.Same v ino := by
        rcases none.of_zero with ⟨rfl,-⟩ | ⟨b,-,-,-,fresh,-,rfl⟩
        · exact .refl _ _
        · exact hf.sound.owned.same_take fresh ino
      simp only [byte,hw]
      exact congrFun hsame.byteAt p
  | @wrote c y w ok hpos hc short first went =>
    rw [hlen] at hc
    have hin := writes_inside (by rw [hlen]; exact hle) ok first
    rw [hlen] at hin
    have hmax : maxFileBytes < 2^32 := by decide
    have hend : (offset + UInt64.ofNat c).toNat = offset.toNat + c := pos_toNat (by omega)
    have hbytes := went.bytes (by omega)
    have hbyte : (w.setInode ino (y.grow (offset + UInt64.ofNat c))).byteAt (y.grow (offset + UInt64.ofNat c)) = w.byteAt y :=
      Vol.byteAt_record (Inode.grow_direct _ _) (Inode.grow_indirect _ _)
    have hsize : y.size = (f.sys.vol.inode ino).size := by rw [went.grown.record]
    refine .inr ⟨c,hpos,hc,rfl,⟨?_,fun p h₁ h₂ => ?_,fun p _ hout => ?_,fun _ ht => nomatch ht⟩,hend⟩
    · simp only [length,Target.at,hw,Vol.setInode_inode,update_self]
      rw [if_neg (by omega),grow_size (by omega),hend,hsize]
    · simp only [byte,Target.at,hw,Vol.setInode_inode,update_self,hbyte] at h₁ h₂ ⊢
      rw [hbytes,if_pos ⟨h₁,h₂⟩]
    · simp only [byte,Target.at,hw,Vol.setInode_inode,update_self,hbyte] at hout ⊢
      rw [hbytes,if_neg hout]

lemma write_chunk {kbuf : Option Buffer} {w : ℤ} (hf : f.Good) (hn : 0 < n) (hle : n ≤ chunkSize)
    (now : f.write t offset src (UInt64.ofNat n) kbuf = (w,g)) : g.Good ∧ Chunk f g t offset n src w := by
  refine ⟨(write_spec hf.sound now).1.good hf,?_⟩
  cases t with
  | tmp i => exact tmp_chunk hn hle now
  | data ino => exact data_chunk hf hn hle now

/-- What a loop that was entered with `total` bytes stored has done with `c` more. -/
structure Loops (f : Files) (t : Target) (offset : UInt64) (buf : UserBuf) (len total c : ℕ) (r : Written) : Prop where
  good : r.files.Good
  stored : r.stored = total + c
  le : total + c ≤ len
  moved : r.offset = offset + UInt64.ofNat c
  place : t.at r.offset = t.at offset + c
  file : Stored f r.files t (t.at offset) c fun j => buf.byte (total + j)
  value : (r.value < 0 ∧ r.stored < len) ∨ (r.value = r.stored ∧ (total < len → 0 < r.stored))

variable {buf : UserBuf} {kbuf : ℕ → Option Buffer}

lemma writeLoop_spec {len total : ℕ} (hf : f.Good) (hle : total ≤ len) :
    ∃ c, Loops f t offset buf len total c (f.writeLoop t offset buf kbuf len total) := by
  induction hk : len - total using Nat.strong_induction_on generalizing f offset total with
  | h k ih =>
  have hstop {value : ℤ} {g : Files} (hg : g.Good) (hsame : Stored f g t 0 0 (fun j => buf.byte (total + j)))
      (hvalue : (value < 0 ∧ total < len) ∨ (value = (total : ℤ) ∧ (total < len → 0 < total))) : Loops f t offset buf len total 0 ⟨value,total,offset,g⟩ :=
    ⟨hg,rfl,hle,(UInt64.add_zero offset).symm,rfl,.none hsame.length fun p hp => hsame.old p hp (by omega),hvalue⟩
  rw [writeLoop]
  by_cases hlt : total < len
  swap
  · rw [if_neg hlt]
    exact ⟨0,hstop hf .refl (.inr ⟨rfl,fun h => absurd h hlt⟩)⟩
  rw [if_pos hlt]
  dsimp only
  by_cases hfault : buf.fault total = true
  · rw [if_pos hfault]
    exact ⟨0,hstop hf .refl (.inl ⟨by decide,hlt⟩)⟩
  rw [if_neg hfault]
  have hchunk : 0 < chunkSize := by decide
  generalize hn : min chunkSize (len - total) = n
  cases hw : f.write t offset (fun j => buf.byte (total + j)) (UInt64.ofNat n) (kbuf total) with
  | mk w g =>
  obtain ⟨hg,⟨hneg,hsame⟩ | ⟨c,hpos,hcn,rfl,hstored,hplace⟩⟩ := write_chunk hf (by omega) (by omega) hw
  · dsimp only
    rw [if_pos hneg]
    refine ⟨0,hstop hg hsame ?_⟩
    split_ifs with htotal
    · exact .inr ⟨rfl,fun _ => htotal⟩
    · exact .inl ⟨hneg,hlt⟩
  · dsimp only
    rw [if_neg (by omega),Int.toNat_natCast]
    split_ifs with hshort
    · exact ⟨c,hg,rfl,by omega,rfl,hplace,hstored,.inr ⟨by simp,fun _ => (by omega : 0 < total + c)⟩⟩
    · obtain rfl : c = n := by omega
      obtain ⟨d,hd⟩ := @ih (len - (total + c)) (by omega) _ (offset + UInt64.ofNat c) (total + c) hg (by omega) rfl
      have hsum := hd.stored
      refine ⟨c + d,hd.good,by rw [hsum,Nat.add_assoc],by have := hd.le; omega,?_,?_,?_,?_⟩
      · rw [hd.moved,UInt64.add_assoc,UInt64.ofNat_add]
      · rw [hd.place,hplace]
        omega
      · refine hstored.trans ?_ hpos
        have hfile := hd.file
        rw [hplace] at hfile
        simpa only [Nat.add_assoc] using hfile
      · exact hd.value.imp_right fun h => ⟨h.1,fun _ => by rw [hsum]; omega⟩

def Refuses (f : Files) (t : Target) (offset : UInt64) (n : ℕ) (kbuf : Option Buffer) : Prop :=
  match t with
  | .tmp i => (f.tmp i).inUse = false ∨ tmpfsMaxFileSize < offset.toUInt32.toNat + n ∨
      ((f.tmp i).growTo (offset.toUInt32.toNat + n) kbuf).isNone = true
  | .data ino => ¬ Writable f.sys.vol ino offset (UInt64.ofNat n) ∨
      ∃ y w, Resolves f.sys.vol (f.sys.vol.inode ino) (lbnAt offset 0) 0 y w

lemma resolves_zero {v w w' : Vol} {x y y' : Inode} {r : UInt32} (h₀ : Resolves v x n 0 y w)
    (h : Resolves v x n r y' w') : r = 0 := by
  by_contra hr
  have hhere := h.here hr
  have hn : n < 1040 := by
    by_contra hfar
    exact hr (hhere.symm.trans (w'.ptr_far y' (by omega)))
  generalize hz : (0 : UInt32) = z at h₀
  cases h₀ with
  | far hfar => omega
  | found hit => exact hit hz.symm
  | full _ miss full =>
    cases h with
    | far => omega
    | found hit => exact hit miss
    | full | stranded => exact hr rfl
    | attach _ att => exact absurd (full _ att.fresh.1) (by rw [att.fresh.2]; decide)
    | both _ _ _ fresh => exact absurd (full _ fresh.1) (by rw [fresh.2]; decide)
  | attach _ att | both _ _ _ _ att => exact att.fresh.1.ne_zero hz.symm
  | @stranded b hn hn' tier fresh full =>
    have hhole {u : Vol} {z : Inode} (hz : z.indirect = 0) : u.ptr z n = 0 := by
      rw [u.ptr_of_ge z hn',if_pos hn,Vol.entry,if_pos hz]
    cases h with
    | far => omega
    | found hit => exact hit (hhole tier)
    | full | stranded => exact hr rfl
    | attach _ att here =>
      cases att with
      | direct => exact hr (here.symm.trans (hhole tier))
      | indirect =>
        refine hr (here.symm.trans ?_)
        rw [Vol.ptr_of_ge _ _ hn',if_pos hn,Vol.entry]
        simp [Vol.take]
      | entry _ other => exact other tier
    | @both b' _ _ _ _ _ _ fresh' att =>
      have hb : b' = b := by
        by_contra hne
        have hused : (v.take b).used b' = true := full b' fresh'.1
        rw [Vol.take_used,update_of_ne hne,fresh'.2] at hused
        cases hused
      rw [hb] at att
      exact absurd (full _ att.fresh.1) (by rw [att.fresh.2]; decide)

lemma write_neg_iff {kbuf : Option Buffer} (hf : f.Good) (hn : 0 < n) (hle : n ≤ chunkSize) :
    (f.write t offset src (UInt64.ofNat n) kbuf).1 < 0 ↔ f.Refuses t offset n kbuf := by
  have hlen := chunk_toNat hle
  cases t with
  | tmp i =>
    simp only [Files.write,Tmpfs.write,hlen,Refuses]
    split_ifs with huse hzero hmax
    · exact iff_of_true (by decide : -ebadf < 0) (.inl (by simpa using huse))
    · omega
    · exact iff_of_true (by decide : -enospc < 0) (.inr (.inl hmax))
    · cases hg : (f.tmp i).growTo (offset.toUInt32.toNat + n) kbuf with
      | none => exact iff_of_true (by decide : -enomem < 0) (.inr (.inr rfl))
      | some x =>
        refine iff_of_false (fun h : (n : ℤ) < 0 => by omega) ?_
        rintro (h | h | h)
        · exact huse (by simpa using h)
        · exact hmax h
        · cases h
  | data ino =>
    cases hw : f.write (.data ino) offset src (UInt64.ofNat n) kbuf with
    | mk w g =>
    have hq := data_writes hf hw
    generalize g.sys.vol = v at hq
    cases hq with
    | nothing h =>
      rw [h] at hlen
      exact absurd hlen (by simp; omega)
    | refused _ why => exact iff_of_true (by decide : (-1 : ℤ) < 0) (.inl why)
    | full _ none => exact iff_of_true (by decide : (-1 : ℤ) < 0) (.inr ⟨_,_,none⟩)
    | @wrote c _ _ ok _ _ _ first _ =>
      refine iff_of_false (fun h : (c : ℤ) < 0 => by omega) ?_
      rintro (h | ⟨_,_,h₀⟩)
      · exact h ok
      · obtain ⟨r,_,_,hr,hres,-⟩ := first
        exact hr (resolves_zero h₀ hres)

lemma writeLoop_stored {len : ℕ} (hf : f.Good) (hlen : 0 < len) :
    (f.writeLoop t offset buf kbuf len 0).stored = 0 ↔
      buf.fault 0 = true ∨ f.Refuses t offset (min chunkSize len) (kbuf 0) := by
  have hchunk : 0 < chunkSize := by decide
  rw [writeLoop,if_pos hlen]
  dsimp only
  by_cases hfault : buf.fault 0 = true
  · rw [if_pos hfault]
    exact iff_of_true rfl (.inl hfault)
  rw [if_neg hfault]
  generalize hn : min chunkSize (len - 0) = n
  rw [Nat.sub_zero] at hn
  rw [← @write_neg_iff _ _ (fun j => buf.byte (0 + j)) _ _ _ hf (by omega) (by omega)]
  cases hw : f.write t offset (fun j => buf.byte (0 + j)) (UInt64.ofNat n) (kbuf 0) with
  | mk w g =>
  dsimp only
  by_cases hneg : w < 0
  · rw [if_pos hneg]
    exact iff_of_true rfl (.inr hneg)
  rw [if_neg hneg]
  obtain ⟨hg,⟨hneg',-⟩ | ⟨c,hpos,hcn,rfl,-⟩⟩ := write_chunk hf (by omega) (by omega) hw
  · exact absurd hneg' hneg
  refine iff_of_false ?_ (by simp [hfault])
  rw [Int.toNat_natCast]
  split_ifs
  · simp only
    omega
  · obtain ⟨d,hd⟩ := @writeLoop_spec _ t (offset + UInt64.ofNat n) buf kbuf len (0 + n) hg (by omega)
    rw [hd.stored]
    omega

lemma sysWrite_spec {len : ℤ} (hf : f.Good) :
    let r := f.sysWrite t offset buf kbuf len
    r.files.Good ∧ r.stored ≤ len.toNat ∧ r.offset = offset + UInt64.ofNat r.stored ∧
      t.at r.offset = t.at offset + r.stored ∧ Stored f r.files t (t.at offset) r.stored buf.byte ∧
      ((r.value < 0 ∧ (0 < len → r.stored < len.toNat)) ∨ (r.value = r.stored ∧ (0 < len → 0 < r.stored))) := by
  unfold sysWrite
  split_ifs with hneg hzero
  · exact ⟨hf,Nat.zero_le _,(UInt64.add_zero offset).symm,rfl,.refl,.inl ⟨(by decide : -einval < 0),fun h => absurd h (by omega)⟩⟩
  · exact ⟨hf,Nat.zero_le _,(UInt64.add_zero offset).symm,rfl,.refl,.inr ⟨rfl,fun h => absurd h (by omega)⟩⟩
  · obtain ⟨c,hc⟩ := @writeLoop_spec _ t offset buf kbuf len.toNat 0 hf (Nat.zero_le _)
    have hstored := hc.stored
    rw [Nat.zero_add] at hstored
    have hle := hc.le
    have hfile := hc.file
    simp only [Nat.zero_add] at hle hfile
    refine ⟨hc.good,hstored ▸ hle,hstored ▸ hc.moved,hstored ▸ hc.place,hstored ▸ hfile,?_⟩
    exact hc.value.imp (fun h => ⟨h.1,fun _ => h.2⟩) fun h => ⟨h.1,fun _ => h.2 (by omega)⟩

lemma sysWrite_stored {len : ℤ} (hf : f.Good) :
    (f.sysWrite t offset buf kbuf len).stored = 0 ↔
      len ≤ 0 ∨ buf.fault 0 = true ∨ f.Refuses t offset (min chunkSize len.toNat) (kbuf 0) := by
  unfold sysWrite
  split_ifs with hneg hzero
  · exact iff_of_true rfl (.inl hneg.le)
  · exact iff_of_true rfl (.inl hzero.le)
  · rw [writeLoop_stored hf (by omega)]
    exact ⟨.inr,fun h => h.resolve_left (by omega)⟩

lemma writeLoop_keeps {P : Files → Prop} {len total : ℕ} (hf : P f)
    (hP : ∀ f offset src n kbuf, P f → P (f.write t offset src n kbuf).2) :
    P (f.writeLoop t offset buf kbuf len total).files := by
  induction hk : len - total using Nat.strong_induction_on generalizing f offset total with
  | h k ih =>
  rw [writeLoop]
  have hchunk : 0 < chunkSize := by decide
  by_cases hlt : total < len
  swap
  · rw [if_neg hlt]
    exact hf
  rw [if_pos hlt]
  dsimp only
  split
  · exact hf
  split
  · exact hP _ _ _ _ _ hf
  split
  · exact hP _ _ _ _ _ hf
  · exact ih (len - (total + min chunkSize (len - total))) (by omega) (hP _ _ _ _ _ hf) rfl

lemma sysWrite_keeps {P : Files → Prop} {len : ℤ} (hf : P f)
    (hP : ∀ f offset src n kbuf, P f → P (f.write t offset src n kbuf).2) :
    P (f.sysWrite t offset buf kbuf len).files := by
  unfold sysWrite
  split_ifs
  · exact hf
  · exact hf
  · exact writeLoop_keeps hf hP

lemma sysWrite_one (hfault : buf.fault 0 = false)
    (hw : f.write t offset buf.byte 1 (kbuf 0) = (1,g)) : f.sysWrite t offset buf kbuf 1 = ⟨1,1,offset + 1,g⟩ := by
  have hone : f.write t offset (fun j => buf.byte (0 + j)) (UInt64.ofNat (min chunkSize (1 - 0))) (kbuf 0) = (1,g) := by
    simp only [Nat.zero_add]
    exact hw
  unfold sysWrite
  rw [if_neg (by decide),if_neg (by decide),Int.toNat_one,writeLoop,if_pos (by decide)]
  dsimp only
  rw [if_neg (by simp [hfault]),hone,if_neg (by decide : ¬ (1 : ℤ) < 0),if_neg (by decide : ¬ Int.toNat 1 < min chunkSize (1 - 0)),writeLoop,if_neg (by decide)]
  rfl

end Files
end VibeOS.Vfs

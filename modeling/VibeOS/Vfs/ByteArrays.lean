import VibeOS.Vfs.Append

/-! `/tmp` as a table of byte arrays, and when the calls of processes on it are those of the table. -/
namespace VibeOS.Vfs
open Function (update update_apply update_eq_self update_of_ne update_self)
open VibeOS.Osfs2

abbrev Arrays := Fin 16 → Option (List UInt8 × List UInt8)

/-- `n` bytes put at `o`, with zeros in a gap before them. -/
def putAt (x : List UInt8) (o n : ℕ) (src : ℕ → UInt8) : List UInt8 :=
  (List.range (max x.length (o + n))).map fun p => if o ≤ p ∧ p < o + n then src (p - o) else x.getD p 0

namespace Arrays
variable (a : Arrays)

def lookup (name : List UInt8) : Option (Fin 16) := (List.finRange 16).find? fun i => (a i).any (·.1 == name)

def freeSlot : Option (Fin 16) := (List.finRange 16).find? fun i => (a i).isNone

def size (i : Fin 16) : ℕ := ((a i).map fun x => x.2.length).getD 0

/-- `mem` when there is memory for a new file. -/
def opOpen (flags : OpenFlags) (rel : CString) (mem : Bool) : Except ℤ (Fin 16 × ℕ) × Arrays :=
  let bare := (stripSlash rel).val
  if bare = [] then (.error (-einval),a)
  else
    match a.lookup bare with
    | some i =>
      if flags.append then (.ok (i,a.size i),a)
      else (.ok (i,0),if flags.creat then update a i (some (bare,[])) else a)
    | none =>
      if !flags.creat then (.error (-enoent),a)
      else
        match a.freeSlot with
        | none => (.error (-enomem),a)
        | some i =>
          if bare.length ≥ tmpfsMaxName ∨ mem = false then (.error (-enomem),a)
          else (.ok (i,0),update a i (some (bare,[])))

def opUnlink (rel : CString) : ℤ × Arrays :=
  let bare := (stripSlash rel).val
  if bare = [] then (-einval,a)
  else
    match a.lookup bare with
    | none => (-enoent,a)
    | some i => (0,update a i none)

end Arrays

/-- The files, and the slot and the offset of each descriptor. -/
structure ArrayFs where
  slots : Arrays
  fds : ℕ → ℕ → Option (Fin 16 × ℕ)

inductive TmpEvent
  | open (t fd : ℕ) (rel : CString) (flags : OpenFlags) (kbuf : Option Buffer)
  /-- with SEEK_SET -/
  | lseek (t fd : ℕ) (off : Int64)
  | read (t fd : ℕ) (len : UInt64)
  | write (t fd : ℕ) (buf : UserBuf) (kbuf : ℕ → Option Buffer) (len : ℤ)
  | unlink (rel : CString)
  | close (t fd : ℕ)

namespace ArrayFs
variable (a : ArrayFs)

def setFd (t fd : ℕ) (e : Option (Fin 16 × ℕ)) : ArrayFs :=
  { a with fds := update a.fds t (update (a.fds t) fd e) }

/-- The calls but `write`. -/
def call : TmpEvent → Answer × ArrayFs
  | .open t fd rel flags kbuf =>
    match a.slots.opOpen flags rel kbuf.isSome with
    | (.error e,slots) => (⟨e,[]⟩,{ a with slots := slots })
    | (.ok place,slots) => (⟨fd,[]⟩,{ a with slots := slots }.setFd t fd (some place))
  | .lseek t fd off =>
    match a.fds t fd with
    | none => (⟨-ebadf,[]⟩,a)
    | some (i,_) => if off.toInt < 0 then (⟨-einval,[]⟩,a) else (⟨off.toInt,[]⟩,a.setFd t fd (some (i,off.toInt.toNat)))
  | .read t fd len =>
    match a.fds t fd with
    | none => (⟨-ebadf,[]⟩,a)
    | some (i,o) =>
      match a.slots i with
      | none => (⟨-ebadf,[]⟩,a)
      | some x =>
        let bytes := (x.2.drop o).take len.toNat
        (⟨bytes.length,bytes⟩,a.setFd t fd (some (i,o + bytes.length)))
  | .unlink rel =>
    let (r,slots) := a.slots.opUnlink rel
    (⟨r,[]⟩,{ a with slots := slots })
  | .close t fd =>
    match a.fds t fd with
    | none => (⟨-ebadf,[]⟩,a)
    | some _ => if fd < 3 then (⟨0,[]⟩,a) else (⟨0,[]⟩,a.setFd t fd none)
  | .write .. => (⟨0,[]⟩,a)

/-- A write changes nothing, for a reason, or puts all its bytes into the file. -/
inductive Writes (t fd : ℕ) (buf : UserBuf) (kbuf : ℕ → Option Buffer) (len : ℤ) : Answer → ArrayFs → Prop
  | nothing (h : len = 0) : Writes t fd buf kbuf len ⟨0,[]⟩ a
  | refused {i o r} (held : a.fds t fd = some (i,o)) (neg : r < 0)
      (why : len < 0 ∨ a.slots i = none ∨ tmpfsMaxFileSize < o + len.toNat ∨ (∃ j, buf.fault j = true) ∨ ∃ j, kbuf j = none) :
      Writes t fd buf kbuf len ⟨r,[]⟩ a
  | stored {i o x} (held : a.fds t fd = some (i,o)) (file : a.slots i = some x) (pos : 0 < len)
      (fits : o + len.toNat ≤ tmpfsMaxFileSize) :
      Writes t fd buf kbuf len ⟨len,[]⟩
        ({ a with slots := update a.slots i (some (x.1,putAt x.2 o len.toNat buf.byte)) }.setFd t fd (some (i,o + len.toNat)))

def Step : TmpEvent → Answer → ArrayFs → Prop
  | .write t fd buf kbuf len,ans,a' => a.Writes t fd buf kbuf len ans a'
  | e,ans,a' => a.call e = (ans,a')

end ArrayFs

def TmpfsFile.contents (x : TmpfsFile) : List UInt8 := (List.range x.size).map x.data

def TmpfsFile.array (x : TmpfsFile) : Option (List UInt8 × List UInt8) := if x.inUse then some (x.name,x.contents) else none

def Tmpfs.arrays (g : Tmpfs) : Arrays := fun i => (g i).array

def FdEntry.place (e : FdEntry) : Option (Fin 16 × ℕ) :=
  match e.target with
  | .tmp i => some (i,e.offset.toNat)
  | .data _ => none

namespace Kernel

def arrays (k : Kernel) : ArrayFs := ⟨k.files.tmp.arrays,fun t fd => (k.fds t fd).bind FdEntry.place⟩

/-- The calls on names under `/tmp` and on their descriptors. -/
def tmpStep (k : Kernel) : TmpEvent → Option (Answer × Kernel)
  | .open t fd rel flags kbuf => k.step (.open t fd (.tmp rel) flags [] kbuf)
  | .lseek t fd off => k.step (.lseek t fd off.toInt 0)
  | .read t fd len => k.step (.read t fd len)
  | .write t fd buf kbuf len => (k.fds t fd).map fun e =>
    let r := k.files.sysWrite e.target e.offset buf kbuf len
    (⟨r.value,[]⟩,(k.become r.files).setFd t fd (some { e with offset := r.offset }))
  | .unlink rel => k.step (.unlink (.tmp rel))
  | .close t fd => k.step (.close t fd)

/-- A write is below 4 GiB, and in one chunk or without a fault and a failed allocation inside of the largest size; or its
first chunk is not stored. -/
def Whole (k : Kernel) : TmpEvent → Prop
  | .write t fd buf kbuf len => ∀ e, k.fds t fd = some e →
    len ≤ 0 ∨ buf.fault 0 = true ∨ k.files.Refuses e.target e.offset (min chunkSize len.toNat) (kbuf 0) ∨
      e.offset.toNat < 2^32 ∧ (len.toNat ≤ chunkSize ∨
        e.offset.toNat + len.toNat ≤ tmpfsMaxFileSize ∧ ∀ j < len.toNat, buf.fault j = false ∧ (kbuf j).isSome = true)
  | _ => True

end Kernel

namespace Tmpfs
variable {g : Tmpfs} {i : Fin 16}

lemma arrays_update (x : TmpfsFile) : arrays (update g i x) = update g.arrays i x.array := by
  funext j
  by_cases h : j = i
  · subst h
    simp [arrays]
  · simp [arrays,update_of_ne h]

lemma lookup_arrays (name : List UInt8) : g.arrays.lookup name = g.lookup name := by
  unfold Arrays.lookup lookup
  congr 1
  funext i
  unfold arrays TmpfsFile.array
  cases (g i).inUse <;> simp

lemma freeSlot_arrays : g.arrays.freeSlot = g.freeSlot := by
  unfold Arrays.freeSlot freeSlot
  congr 1
  funext i
  unfold arrays TmpfsFile.array
  cases (g i).inUse <;> simp

lemma size_arrays (h : (g i).inUse = true) : g.arrays.size i = (g i).size := by
  simp [Arrays.size,arrays,TmpfsFile.array,h,TmpfsFile.contents]

lemma name_of_lookup {name : List UInt8} (h : g.lookup name = some i) : (g i).name = name := by
  have hp := List.find?_some (p := fun i => (g i).inUse && (g i).name == name) h
  simpa using (Bool.and_eq_true_iff.mp hp).2

lemma opUnlink_arrays (rel : CString) : g.arrays.opUnlink rel = ((g.opUnlink rel).1,(g.opUnlink rel).2.arrays) := by
  unfold Arrays.opUnlink opUnlink
  dsimp only
  split_ifs
  · rfl
  · rw [lookup_arrays]
    unfold unlink
    cases g.lookup (stripSlash rel).val with
    | none => rfl
    | some i => simp [arrays_update,TmpfsFile.array]

lemma opOpen_arrays (flags : OpenFlags) (rel : CString) (kbuf : Option Buffer) :
    g.arrays.opOpen flags rel kbuf.isSome = ((g.opOpen flags rel kbuf).1,(g.opOpen flags rel kbuf).2.arrays) := by
  unfold Arrays.opOpen opOpen
  dsimp only
  by_cases hbare : (stripSlash rel).val = []
  · rw [if_pos hbare,if_pos hbare]
  rw [if_neg hbare,if_neg hbare,lookup_arrays]
  unfold findOrMake
  cases hl : g.lookup (stripSlash rel).val with
  | some i =>
    have hin := inUse_of_lookup hl
    have htrunc : (g.createOrTruncate (stripSlash rel).val kbuf).2 = update g i { g i with size := 0 } := by
      unfold createOrTruncate
      rw [if_neg hbare,hl]
    cases ha : flags.append <;> cases hc : flags.creat <;>
      simp [size_arrays hin,htrunc,arrays_update,TmpfsFile.array,TmpfsFile.contents,hin,name_of_lookup hl,Except.map]
  | none =>
    cases hc : flags.creat with
    | false => simp [Except.map]
    | true =>
      simp only [Bool.not_true,Bool.false_eq_true,if_false,if_true]
      unfold createOrTruncate
      rw [if_neg hbare,hl,freeSlot_arrays]
      dsimp only
      cases hfree : g.freeSlot with
      | none => simp [Except.map]
      | some i =>
        by_cases hlong : (stripSlash rel).val.length ≥ tmpfsMaxName
        · simp [hlong,Except.map]
        · cases kbuf with
          | none => simp [hlong,Except.map]
          | some data => simp [hlong,Except.map,arrays_update,TmpfsFile.array,TmpfsFile.contents]

lemma opOpen_small {flags : OpenFlags} {rel : CString} {kbuf : Option Buffer} (h : ∀ j, (g j).size ≤ tmpfsMaxFileSize) (j : Fin 16) :
    ((g.opOpen flags rel kbuf).2 j).size ≤ tmpfsMaxFileSize := by
  have hcreate (name : List UInt8) : ((g.createOrTruncate name kbuf).2 j).size ≤ tmpfsMaxFileSize := by
    have hupdate (i : Fin 16) (x : TmpfsFile) (hx : x.size = 0) : (update g i x j).size ≤ tmpfsMaxFileSize := by
      rw [update_apply]
      split_ifs
      · omega
      · exact h j
    unfold createOrTruncate
    split
    · exact h j
    split
    · exact hupdate _ _ rfl
    split
    · exact h j
    split
    · exact h j
    split
    · exact h j
    · exact hupdate _ _ rfl
  have hfind (bare : List UInt8) : ((g.findOrMake flags bare kbuf).2 j).size ≤ tmpfsMaxFileSize := by
    unfold findOrMake
    cases g.lookup bare with
    | some i =>
      dsimp only
      split_ifs
      · exact hcreate _
      · exact h j
    | none =>
      dsimp only
      split_ifs
      · have hnew := hcreate bare
        cases hc : g.createOrTruncate bare kbuf with
        | mk slot g' =>
          rw [hc] at hnew
          cases slot <;> exact hnew
      · exact h j
  unfold opOpen
  dsimp only
  split_ifs
  · exact h j
  · exact hfind _
  · exact hfind _

lemma opOpen_offset {flags : OpenFlags} {rel : CString} {kbuf : Option Buffer} {o : ℕ} {g' : Tmpfs}
    (h : g.opOpen flags rel kbuf = (.ok (i,o),g')) : o ≤ (g' i).size := by
  unfold opOpen at h
  dsimp only at h
  split at h
  · cases h
  · cases hf : g.findOrMake flags (stripSlash rel).val kbuf with
    | mk slot g₁ =>
      rw [hf] at h
      cases slot with
      | error e => cases h
      | ok j =>
        cases h
        split_ifs
        · exact le_rfl
        · exact Nat.zero_le _

lemma opUnlink_small {rel : CString} (h : ∀ j, (g j).size ≤ tmpfsMaxFileSize) (j : Fin 16) :
    ((g.opUnlink rel).2 j).size ≤ tmpfsMaxFileSize := by
  unfold opUnlink unlink
  dsimp only
  split
  · exact h j
  split
  · exact h j
  · next i _ =>
    change (update g i ⟨false,[],(g i).data,0,0⟩ j).size ≤ _
    rw [update_apply]
    split_ifs
    · exact Nat.zero_le _
    · exact h j

end Tmpfs

lemma Tmpfs.le_doubled {need : ℕ} (hneed : need ≤ tmpfsMaxFileSize) (fuel : ℕ) {cap : ℕ} (h : tmpfsMaxFileSize ≤ cap * 2^fuel) :
    need ≤ doubled need fuel cap := by
  induction fuel generalizing cap with
  | zero =>
    rw [pow_zero,Nat.mul_one] at h
    exact hneed.trans h
  | succ fuel ih =>
    rw [doubled]
    split_ifs with hlt hlast
    · exact hneed
    · refine ih ?_
      rw [pow_succ] at h
      calc tmpfsMaxFileSize ≤ cap * (2^fuel * 2) := h
        _ = 2*cap * 2^fuel := by ring
    · omega

lemma TmpfsFile.growTo_isSome {x : TmpfsFile} {need : ℕ} {kbuf : Option Buffer} (hneed : need ≤ tmpfsMaxFileSize)
    (hbuf : kbuf.isSome = true) : (x.growTo need kbuf).isSome = true := by
  have hcap : 1 ≤ if x.cap = 0 then tmpfsInitialCap else x.cap := by
    split_ifs with h
    · decide
    · omega
  have hmax : tmpfsMaxFileSize ≤ (if x.cap = 0 then tmpfsInitialCap else x.cap) * 2^18 :=
    (by decide : tmpfsMaxFileSize ≤ 1 * 2^18).trans (Nat.mul_le_mul_right _ hcap)
  have hle := Tmpfs.le_doubled hneed 18 hmax
  dsimp only [growTo]
  generalize Tmpfs.doubled need 18 (if x.cap = 0 then tmpfsInitialCap else x.cap) = newcap at hle
  split
  · rfl
  rw [if_neg (by omega),if_neg (by omega),Option.isSome_map]
  exact hbuf

lemma TmpfsFile.growTo_same {x y : TmpfsFile} {need : ℕ} {kbuf : Option Buffer} (hg : x.growTo need kbuf = some y) :
    y = { x with data := y.data, cap := y.cap } := by
  dsimp only [growTo] at hg
  generalize Tmpfs.doubled need 18 (if x.cap = 0 then tmpfsInitialCap else x.cap) = newcap at hg
  split at hg
  · cases hg
    rfl
  split at hg
  · cases hg
  split at hg
  · cases hg
  obtain ⟨nbuf,-,rfl⟩ := Option.map_eq_some_iff.mp hg
  rfl

namespace Files
variable {f g h : Files} {i : Fin 16} {offset : UInt64} {buf : UserBuf} {kbuf : ℕ → Option Buffer}

/-- A write to slot `i` leaves the others, and its name. -/
structure OnlyIn (i : Fin 16) (f g : Files) : Prop where
  other : ∀ j, j ≠ i → g.tmp j = f.tmp j
  inUse : (g.tmp i).inUse = (f.tmp i).inUse
  name : (g.tmp i).name = (f.tmp i).name
  small : (f.tmp i).size ≤ tmpfsMaxFileSize → (g.tmp i).size ≤ tmpfsMaxFileSize

lemma OnlyIn.refl : OnlyIn i f f := ⟨fun _ _ => rfl,rfl,rfl,id⟩

lemma OnlyIn.trans (hfg : OnlyIn i f g) (hgh : OnlyIn i g h) : OnlyIn i f h :=
  ⟨fun j hj => (hgh.other j hj).trans (hfg.other j hj),hgh.inUse.trans hfg.inUse,hgh.name.trans hfg.name,fun hs => hgh.small (hfg.small hs)⟩

lemma tmp_write (src : ℕ → UInt8) (len : UInt64) (kbuf : Option Buffer) :
    OnlyIn i f (f.write (.tmp i) offset src len kbuf).2 ∧
      ((f.write (.tmp i) offset src len kbuf).1 < 0 ∨ (f.write (.tmp i) offset src len kbuf).1 = len.toNat) := by
  simp only [Files.write,Tmpfs.write]
  split_ifs with huse hzero hmax
  · exact ⟨.refl,.inl (by decide : -ebadf < 0)⟩
  · rw [hzero]
    exact ⟨.refl,.inr rfl⟩
  · exact ⟨.refl,.inl (by decide : -enospc < 0)⟩
  · cases hg : (f.tmp i).growTo (offset.toUInt32.toNat + len.toNat) kbuf with
    | none => exact ⟨.refl,.inl (by decide : -enomem < 0)⟩
    | some x =>
      have hx := TmpfsFile.growTo_same hg
      refine ⟨⟨fun j hj => update_of_ne hj _ _,?_,?_,fun hs => ?_⟩,.inr rfl⟩
      · simp only [update_self,TmpfsFile.store]
        rw [hx]
      · simp only [update_self,TmpfsFile.store]
        rw [hx]
      · simp only [update_self,TmpfsFile.store]
        rw [hx]
        exact max_le hs (by omega)

lemma sysWrite_onlyIn (len : ℤ) : OnlyIn i f (f.sysWrite (.tmp i) offset buf kbuf len).files :=
  sysWrite_keeps (P := OnlyIn i f) .refl fun _ _ src n kbuf hfg => hfg.trans (tmp_write src n kbuf).1

lemma writeLoop_full {len total : ℕ} (hf : f.Good) (hin : (f.tmp i).inUse = true)
    (hfit : (Target.tmp i).at offset + (len - total) ≤ tmpfsMaxFileSize) (hle : total ≤ len)
    (hok : ∀ j, total ≤ j → j < len → buf.fault j = false ∧ (kbuf j).isSome = true) :
    (f.writeLoop (.tmp i) offset buf kbuf len total).stored = len := by
  induction hk : len - total using Nat.strong_induction_on generalizing f offset total with
  | h k ih =>
  rw [writeLoop]
  have hchunk : 0 < chunkSize := by decide
  by_cases hlt : total < len
  swap
  · rw [if_neg hlt]
    exact (by omega : total = len)
  obtain ⟨hfault,hmem⟩ := hok total le_rfl hlt
  rw [if_pos hlt]
  dsimp only
  rw [if_neg (by simp [hfault])]
  generalize hn : min chunkSize (len - total) = n
  have hrefuses : ¬ f.Refuses (.tmp i) offset n (kbuf total) := by
    have hneed : offset.toUInt32.toNat + n ≤ tmpfsMaxFileSize := le_trans (Nat.add_le_add_left (by omega) _) hfit
    rintro (hfree | hlarge | hnone)
    · exact absurd (hfree.symm.trans hin) (by decide)
    · omega
    · have hsome := TmpfsFile.growTo_isSome (x := f.tmp i) hneed hmem
      rw [Option.isNone_iff_eq_none.mp hnone] at hsome
      cases hsome
  rw [← @write_neg_iff _ _ (fun j => buf.byte (total + j)) _ _ _ hf (by omega) (by omega)] at hrefuses
  have honly := @tmp_write f i offset (fun j => buf.byte (total + j)) (UInt64.ofNat n) (kbuf total)
  rw [chunk_toNat (by omega)] at honly
  cases hw : f.write (.tmp i) offset (fun j => buf.byte (total + j)) (UInt64.ofNat n) (kbuf total) with
  | mk w g =>
  rw [hw] at hrefuses honly
  obtain ⟨hg,⟨hneg,-⟩ | ⟨c,hpos,hcn,rfl,-,hplace⟩⟩ := write_chunk hf (by omega) (by omega) hw
  · exact absurd hneg hrefuses
  obtain rfl : c = n := by
    have := honly.2.resolve_left hrefuses
    dsimp only at this
    omega
  dsimp only
  rw [if_neg hrefuses,Int.toNat_natCast,if_neg (by omega)]
  exact ih (len - (total + c)) (by omega) hg (honly.1.inUse.trans hin) (by omega) (by omega) (fun j h₁ h₂ => hok j (by omega) h₂) rfl

lemma writeLoop_single {len : ℕ} (hpos : 0 < len) (hle : len ≤ chunkSize) :
    (f.writeLoop (.tmp i) offset buf kbuf len 0).stored = 0 ∨ (f.writeLoop (.tmp i) offset buf kbuf len 0).stored = len := by
  have hn : min chunkSize (len - 0) = len := by omega
  rw [writeLoop,if_pos hpos]
  dsimp only
  rw [hn]
  have honly := (@tmp_write f i offset (fun j => buf.byte (0 + j)) (UInt64.ofNat len) (kbuf 0)).2
  rw [chunk_toNat hle] at honly
  by_cases hfault : buf.fault 0 = true
  · rw [if_pos hfault]
    exact .inl rfl
  rw [if_neg hfault]
  rcases honly with hneg | hfull
  · rw [if_pos hneg]
    exact .inl rfl
  · rw [hfull,if_neg (by omega),Int.toNat_natCast,if_neg (by omega),writeLoop,if_neg (by omega)]
    exact .inr (Nat.zero_add len)

lemma sysWrite_whole {len : ℤ} (hf : f.Good)
    (hwhole : len ≤ 0 ∨ buf.fault 0 = true ∨ f.Refuses (.tmp i) offset (min chunkSize len.toNat) (kbuf 0) ∨
      offset.toNat < 2^32 ∧ (len.toNat ≤ chunkSize ∨
        offset.toNat + len.toNat ≤ tmpfsMaxFileSize ∧ ∀ j < len.toNat, buf.fault j = false ∧ (kbuf j).isSome = true)) :
    (f.sysWrite (.tmp i) offset buf kbuf len).stored = 0 ∨
      0 < len ∧ offset.toNat < 2^32 ∧ (f.sysWrite (.tmp i) offset buf kbuf len).stored = len.toNat := by
  by_cases hzero : (f.sysWrite (.tmp i) offset buf kbuf len).stored = 0
  · exact .inl hzero
  have hstored := hzero
  rw [sysWrite_stored hf] at hzero
  push Not at hzero
  obtain ⟨hpos,hfault,hrefuses⟩ := hzero
  obtain ⟨hsmall,hparts⟩ := ((hwhole.resolve_left (by omega)).resolve_left hfault).resolve_left hrefuses
  refine .inr ⟨hpos,hsmall,?_⟩
  unfold sysWrite at hstored ⊢
  rw [if_neg (by omega),if_neg (by omega)] at hstored ⊢
  rcases hparts with hsingle | ⟨hfit,hok⟩
  · exact (writeLoop_single (by omega) hsingle).resolve_left hstored
  · have hin : (f.tmp i).inUse = true := by
      by_contra hfree
      exact hrefuses (.inl (by simpa using hfree))
    refine writeLoop_full hf hin ?_ (Nat.zero_le _) fun j _ hj => hok j hj
    rw [Target.at,UInt64.toNat_toUInt32,Nat.mod_eq_of_lt hsmall]
    exact hfit

end Files

namespace Files
variable {f g : Files} {i : Fin 16} {o n : ℕ} {src : ℕ → UInt8}

lemma Stored.contents_zero (h : Stored f g (.tmp i) o 0 src) : (g.tmp i).contents = (f.tmp i).contents := by
  have hsize : (g.tmp i).size = (f.tmp i).size := h.length
  unfold TmpfsFile.contents
  rw [hsize]
  exact List.map_congr_left fun p hp => h.old p (List.mem_range.mp hp) (by omega)

lemma contents_getD (x : TmpfsFile) (p : ℕ) : x.contents.getD p 0 = if p < x.size then x.data p else 0 := by
  unfold TmpfsFile.contents
  split_ifs with h
  · simp [List.getD_eq_getElem?_getD,h]
  · simp [List.getD_eq_getElem?_getD,h]

lemma Stored.contents (h : Stored f g (.tmp i) o n src) (hn : n ≠ 0) :
    (g.tmp i).contents = putAt (f.tmp i).contents o n src := by
  have hsize : (g.tmp i).size = max (f.tmp i).size (o + n) := h.length.trans (if_neg hn)
  have hlen : (f.tmp i).contents.length = (f.tmp i).size := by simp [TmpfsFile.contents]
  unfold putAt
  rw [TmpfsFile.contents,hsize,hlen]
  refine List.map_congr_left fun p hp => ?_
  split_ifs with hin
  · exact h.bytes p hin.1 hin.2
  · rw [contents_getD]
    split_ifs with hold
    · exact h.old p hold hin
    · have hlt := List.mem_range.mp hp
      exact h.gap hn rfl p (not_lt.mp hold) (by omega)

lemma OnlyIn.array (h : OnlyIn i f g) :
    (g.tmp i).array = if (f.tmp i).inUse then some ((f.tmp i).name,(g.tmp i).contents) else none := by
  unfold TmpfsFile.array
  rw [h.inUse,h.name]

lemma OnlyIn.arrays (h : OnlyIn i f g) : g.tmp.arrays = update f.tmp.arrays i (g.tmp i).array := by
  funext j
  by_cases hj : j = i
  · subst hj
    rw [update_self]
    rfl
  · rw [update_of_ne hj]
    exact congrArg TmpfsFile.array (h.other j hj)

end Files

lemma ArrayFs.setFd_same {a : ArrayFs} {t fd : ℕ} {e : Option (Fin 16 × ℕ)} (h : a.fds t fd = e) : a.setFd t fd e = a := by
  subst h
  simp [setFd]

namespace Kernel
variable {k k' : Kernel} {t fd : ℕ} {i : Fin 16} {e : FdEntry}

/-- The descriptors are of `/tmp`, and no file of it is too large. -/
structure TmpSound (k : Kernel) : Prop where
  good : k.files.Good
  small : ∀ i, (k.files.tmp i).size ≤ tmpfsMaxFileSize
  tmp : ∀ t fd e, k.fds t fd = some e → ∃ i, e.target = .tmp i

lemma arrays_setFd (e : Option FdEntry) : (k.setFd t fd e).arrays = k.arrays.setFd t fd (e.bind FdEntry.place) := by
  unfold setFd ArrayFs.setFd arrays
  congr 1
  funext t' fd'
  by_cases ht : t' = t
  · subst ht
    by_cases hfd : fd' = fd
    · subst hfd
      simp
    · simp [update_of_ne hfd]
  · simp [update_of_ne ht]

lemma fds_arrays (he : k.fds t fd = some e) (hi : e.target = .tmp i) : k.arrays.fds t fd = some (i,e.offset.toNat) := by
  simp [arrays,he,FdEntry.place,hi]

lemma TmpSound.setFd (hk : k.TmpSound) (e : Option FdEntry) (he : ∀ d, e = some d → ∃ i, d.target = .tmp i) :
    (k.setFd t fd e).TmpSound :=
  ⟨hk.good,hk.small,fun t' fd' d hd => (fds_setFd hd).elim (he d) (hk.tmp t' fd' d)⟩

lemma write_arrays {buf : UserBuf} {kbuf : ℕ → Option Buffer} {len : ℤ} (hk : k.TmpSound) (he : k.fds t fd = some e)
    (hi : e.target = .tmp i) (ok : k.Whole (.write t fd buf kbuf len)) :
    let r := k.files.sysWrite (.tmp i) e.offset buf kbuf len
    k.arrays.Writes t fd buf kbuf len ⟨r.value,[]⟩ (({ k.arrays with slots := r.files.tmp.arrays }).setFd t fd (some (i,r.offset.toNat))) := by
  have hheld := fds_arrays he hi
  have hwhole := @Files.sysWrite_whole _ i e.offset buf kbuf len hk.good (hi ▸ ok e he)
  have honly := @Files.sysWrite_onlyIn k.files i e.offset buf kbuf len
  have hzero := @Files.sysWrite_stored _ (.tmp i) e.offset buf kbuf len hk.good
  obtain ⟨-,-,hoffset,-,hfile,hvalue⟩ := @Files.sysWrite_spec _ (.tmp i) e.offset buf kbuf len hk.good
  have hempty (hlen : len = 0) : k.files.sysWrite (.tmp i) e.offset buf kbuf len = ⟨0,0,e.offset,k.files⟩ := by
    rw [hlen]
    rfl
  have hnegative (hlen : len < 0) : k.files.sysWrite (.tmp i) e.offset buf kbuf len = ⟨-einval,0,e.offset,k.files⟩ := if_pos hlen
  generalize k.files.sysWrite (.tmp i) e.offset buf kbuf len = r at *
  dsimp only
  rcases hwhole with hnone | ⟨hpos,hsmall,hall⟩
  · -- the array and the offset are as they were
    rw [hnone] at hfile hoffset hvalue hzero
    have hslots : r.files.tmp.arrays = k.arrays.slots := by
      rw [honly.arrays,honly.array,hfile.contents_zero]
      exact update_eq_self i k.files.tmp.arrays
    have hoff : r.offset = e.offset := hoffset.trans (UInt64.add_zero _)
    have hstate : ({ k.arrays with slots := r.files.tmp.arrays } : ArrayFs).setFd t fd (some (i,r.offset.toNat)) = k.arrays := by
      rw [hslots,hoff]
      exact ArrayFs.setFd_same hheld
    rw [hstate]
    rcases lt_trichotomy len 0 with hlen | hlen | hlen
    · rw [hnegative hlen]
      exact .refused hheld (by decide : -einval < 0) (.inl hlen)
    · rw [hempty hlen]
      exact .nothing hlen
    · have hneg : r.value < 0 := by
        rcases hvalue with h | h
        · exact h.1
        · exact absurd (h.2 hlen) (lt_irrefl 0)
      refine .refused hheld hneg ?_
      rcases (hzero.mp rfl).resolve_left (by omega) with hfault | hfree | hlarge | hgrow
      · exact .inr (.inr (.inr (.inl ⟨0,hfault⟩)))
      · refine .inr (.inl ?_)
        exact if_neg (by simp [hfree])
      · refine .inr (.inr (.inl ?_))
        rw [UInt64.toNat_toUInt32] at hlarge
        omega
      · by_cases hlarge : tmpfsMaxFileSize < e.offset.toNat + len.toNat
        · exact .inr (.inr (.inl hlarge))
        · refine .inr (.inr (.inr (.inr ⟨0,?_⟩)))
          by_contra hmem
          have hsome := @TmpfsFile.growTo_isSome (k.files.tmp i) (e.offset.toUInt32.toNat + min chunkSize len.toNat) _
            (by rw [UInt64.toNat_toUInt32]; omega) (Option.isSome_iff_ne_none.mpr hmem)
          rw [Option.isNone_iff_eq_none.mp hgrow] at hsome
          cases hsome
  · -- the whole buffer is in the array
    have hne : r.stored ≠ 0 := by omega
    have hin : (k.files.tmp i).inUse = true := by
      by_contra hfree
      exact hne (hzero.mpr (.inr (.inr (.inl (by simpa using hfree)))))
    have hvalue' : r.value = len := by
      rcases hvalue with h | h
      · have := h.2 hpos
        omega
      · omega
    have hat : (Target.tmp i).at e.offset = e.offset.toNat := by
      rw [Target.at,UInt64.toNat_toUInt32,Nat.mod_eq_of_lt hsmall]
    rw [hat,hall] at hfile
    have hfits : e.offset.toNat + len.toNat ≤ tmpfsMaxFileSize := by
      have hsize : r.files.length (.tmp i) ≤ tmpfsMaxFileSize := honly.small (hk.small i)
      rw [hfile.length,if_neg (by omega)] at hsize
      exact le_trans (le_max_right _ _) hsize
    have hoff : r.offset.toNat = e.offset.toNat + len.toNat := by
      unfold tmpfsMaxFileSize at hfits
      rw [hoffset,hall,UInt64.toNat_add,UInt64.toNat_ofNat']
      omega
    have hslots : r.files.tmp.arrays = update k.arrays.slots i
        (some ((k.files.tmp i).name,putAt (k.files.tmp i).contents e.offset.toNat len.toNat buf.byte)) := by
      rw [honly.arrays,honly.array,hfile.contents (by omega),if_pos hin]
      rfl
    rw [hvalue',hslots,hoff]
    exact .stored hheld (if_pos hin) hpos hfits

lemma contents_read {x : TmpfsFile} {o n : ℕ} :
    (x.contents.drop o).take n = (List.range (min n (x.size - o))).map fun p => x.data (o + p) := by
  refine List.ext_getElem (by simp [TmpfsFile.contents]) fun p h₁ h₂ => ?_
  simp [TmpfsFile.contents]

lemma read_arrays {len : UInt64} {ans : Answer} (hk : k.TmpSound) (hi : e.target = .tmp i) (he : k.fds t fd = some e)
    (now : k.step (.read t fd len) = some (ans,k')) : k.arrays.call (.read t fd len) = (ans,k'.arrays) ∧ k'.TmpSound := by
  obtain ⟨target,offset,opened⟩ := e
  obtain rfl : target = .tmp i := hi
  have hheld := fds_arrays he rfl
  have hsmall := hk.small i
  simp only [step,on,he,Files.read,Tmpfs.read] at now
  simp only [ArrayFs.call,hheld]
  have hslot : k.arrays.slots i = (k.files.tmp i).array := rfl
  by_cases hfree : (k.files.tmp i).inUse = false
  · rw [if_pos (by simp [hfree])] at now
    cases now
    rw [hslot,TmpfsFile.array,if_neg (by simp [hfree])]
    exact ⟨rfl,hk.good,hk.small,hk.tmp⟩
  · have hin : (k.files.tmp i).inUse = true := by simpa using hfree
    have hbytes : (if offset.toNat ≥ (k.files.tmp i).size then (.ok [] : Except ℤ (List UInt8))
        else .ok ((List.range (min len.toNat ((k.files.tmp i).size - offset.toNat))).map fun p => (k.files.tmp i).data (offset.toNat + p))) =
        .ok (((k.files.tmp i).contents.drop offset.toNat).take len.toNat) := by
      rw [contents_read]
      split_ifs with hend
      · rw [Nat.sub_eq_zero_of_le hend,Nat.min_zero]
        rfl
      · rfl
    rw [if_neg (by simp [hin]),hbytes] at now
    cases now
    rw [hslot,TmpfsFile.array,if_pos hin,arrays_setFd]
    have hlen : (((k.files.tmp i).contents.drop offset.toNat).take len.toNat).length = min len.toNat ((k.files.tmp i).size - offset.toNat) := by
      simp [TmpfsFile.contents]
    have hoff : (offset + UInt64.ofNat (((k.files.tmp i).contents.drop offset.toNat).take len.toNat).length).toNat =
        offset.toNat + (((k.files.tmp i).contents.drop offset.toNat).take len.toNat).length := by
      have hlt := offset.toNat_lt
      unfold tmpfsMaxFileSize at hsmall
      rw [UInt64.toNat_add,UInt64.toNat_ofNat',hlen]
      omega
    refine ⟨?_,(⟨hk.good,hk.small,hk.tmp⟩ : (k.become _).TmpSound).setFd _ fun d hd => ?_⟩
    · simp only [FdEntry.place,Option.bind_some,hoff]
      rfl
    · cases hd
      exact ⟨i,rfl⟩

lemma tmpStep_refines {ev : TmpEvent} {ans : Answer} (hk : k.TmpSound) (ok : k.Whole ev) (now : k.tmpStep ev = some (ans,k')) :
    k.arrays.Step ev ans k'.arrays ∧ k'.TmpSound := by
  have hgood (f : Files) (hf : f.Good) (hsmall : ∀ i, (f.tmp i).size ≤ tmpfsMaxFileSize) : (k.become f).TmpSound := ⟨hf,hsmall,hk.tmp⟩
  have hclosed {t fd : ℕ} (he : k.fds t fd = none) : k.arrays.fds t fd = none := by simp [arrays,he]
  cases ev with
  | «open» t fd rel flags kbuf =>
    have hnext := step_good (e := .open t fd (.tmp rel) flags [] kbuf) hk.good now
    simp only [tmpStep,step,Files.open] at now
    have hopen : k.arrays.slots.opOpen flags rel kbuf.isSome = _ := Tmpfs.opOpen_arrays (g := k.files.tmp) flags rel kbuf
    have hsmall := @Tmpfs.opOpen_small _ flags rel kbuf hk.small
    change k.arrays.call _ = _ ∧ _
    simp only [ArrayFs.call,hopen]
    cases hr : k.files.tmp.opOpen flags rel kbuf with
    | mk r g =>
      rw [hr] at now hsmall
      cases r with
      | error err =>
        cases now
        exact ⟨rfl,hgood _ hnext hsmall⟩
      | ok found =>
        obtain ⟨i,o⟩ := found
        have ho := (Tmpfs.opOpen_offset hr).trans (hsmall i)
        have hoff : (UInt64.ofNat o).toNat = o := by
          unfold tmpfsMaxFileSize at ho
          rw [UInt64.toNat_ofNat']
          omega
        cases now
        refine ⟨?_,(hgood _ hnext hsmall).setFd _ fun d hd => ?_⟩
        · rw [arrays_setFd]
          simp only [FdEntry.place,Option.bind_some,hoff]
          rfl
        · cases hd
          exact ⟨i,rfl⟩
  | lseek t fd off =>
    simp only [tmpStep,step,on] at now
    change k.arrays.call _ = _ ∧ _
    cases he : k.fds t fd with
    | none =>
      rw [he] at now
      cases now
      simp only [ArrayFs.call,hclosed he]
      exact ⟨trivial,hk⟩
    | some e =>
      obtain ⟨i,hi⟩ := hk.tmp t fd e he
      rw [he] at now
      simp only [ArrayFs.call,fds_arrays he hi]
      dsimp only at now
      rw [if_neg (by decide : ¬ ((0 : ℤ) < 0 ∨ (0 : ℤ) > 2)),if_neg (by decide : ¬ (0 : ℤ) = 2),FdEntry.seekBase,if_pos rfl,zero_add] at now
      by_cases hneg : off.toInt < 0
      · rw [if_pos hneg] at now
        cases now
        rw [if_pos hneg]
        exact ⟨rfl,hgood _ hk.good hk.small⟩
      · rw [if_neg hneg] at now
        cases now
        rw [if_neg hneg,arrays_setFd]
        have hoff : (UInt64.ofInt off.toInt).toNat = off.toInt.toNat := by
          have hlt := Int64.toInt_lt off
          simp only [UInt64.ofInt,UInt64.toNat_ofNat']
          omega
        refine ⟨?_,(hgood _ hk.good hk.small).setFd _ fun d hd => ?_⟩
        · simp only [FdEntry.place,Option.bind_some,hi,hoff]
          rfl
        · cases hd
          exact ⟨i,hi⟩
  | read t fd len =>
    cases he : k.fds t fd with
    | none =>
      simp only [tmpStep,step,on,he] at now
      cases now
      change k.arrays.call _ = _ ∧ _
      simp only [ArrayFs.call,hclosed he]
      exact ⟨trivial,hk⟩
    | some e =>
      obtain ⟨i,hi⟩ := hk.tmp t fd e he
      exact read_arrays hk hi he now
  | write t fd buf kbuf len =>
    obtain ⟨e,he,hr⟩ := Option.map_eq_some_iff.mp now
    obtain ⟨i,hi⟩ := hk.tmp t fd e he
    have hwrites := write_arrays hk he hi ok
    obtain ⟨target,offset,opened⟩ := e
    obtain rfl : target = .tmp i := hi
    cases hr
    have hspec := @Files.sysWrite_spec _ (.tmp i) offset buf kbuf len hk.good
    have honly := @Files.sysWrite_onlyIn k.files i offset buf kbuf len
    refine ⟨?_,(hgood _ hspec.1 fun j => ?_).setFd _ fun d hd => ?_⟩
    · rw [arrays_setFd]
      exact hwrites
    · by_cases hj : j = i
      · exact hj ▸ honly.small (hk.small i)
      · rw [honly.other j hj]
        exact hk.small j
    · cases hd
      exact ⟨i,rfl⟩
  | unlink rel =>
    have hnext := step_good (e := .unlink (.tmp rel)) hk.good now
    have hun : k.arrays.slots.opUnlink rel = _ := Tmpfs.opUnlink_arrays (g := k.files.tmp) rel
    cases now
    change k.arrays.call _ = _ ∧ _
    simp only [ArrayFs.call,hun]
    exact ⟨rfl,hgood _ hnext (Tmpfs.opUnlink_small hk.small)⟩
  | close t fd =>
    simp only [tmpStep,step,on] at now
    change k.arrays.call _ = _ ∧ _
    cases he : k.fds t fd with
    | none =>
      rw [he] at now
      cases now
      simp only [ArrayFs.call,hclosed he]
      exact ⟨trivial,hk⟩
    | some e =>
      obtain ⟨i,hi⟩ := hk.tmp t fd e he
      rw [he] at now
      simp only [ArrayFs.call,fds_arrays he hi]
      dsimp only at now
      split_ifs at now ⊢
      · cases now
        exact ⟨rfl,hk⟩
      · cases now
        rw [arrays_setFd]
        exact ⟨rfl,hk.setFd _ fun d hd => by cases hd⟩

/-- The calls of a run, each with an answer that the byte arrays may give too. -/
inductive Follows : Kernel → ArrayFs → List TmpEvent → Kernel → ArrayFs → Prop
  | nil (k : Kernel) (a : ArrayFs) : Follows k a [] k a
  | cons {k k₁ k₂ : Kernel} {a a₁ a₂ : ArrayFs} {ev : TmpEvent} {es : List TmpEvent} {ans : Answer} (now : k.tmpStep ev = some (ans,k₁))
      (like : a.Step ev ans a₁) (rest : Follows k₁ a₁ es k₂ a₂) : Follows k a (ev :: es) k₂ a₂

def noArrays : ArrayFs := ⟨fun _ => none,fun _ _ => none⟩

lemma follows_of_runs {es : List TmpEvent} (hk : k.TmpSound) (run : Runs tmpStep Whole k es k') :
    Follows k k.arrays es k' k'.arrays := by
  induction run with
  | nil k => exact .nil k k.arrays
  | cons ok now _ ih =>
    obtain ⟨like,hnext⟩ := tmpStep_refines hk ok now
    exact .cons now like (ih hnext)

/-- In a run whose writes are whole, every call on `/tmp` answers as the byte arrays do. -/
theorem tmpfs_refines {es : List TmpEvent} (boot : k.Boots) (empty : k.files.tmp = Tmpfs.init) (run : Runs tmpStep Whole k es k') :
    Follows k noArrays es k' k'.arrays := by
  have hk : k.TmpSound := by
    refine ⟨⟨boot.sound,boot.named⟩,fun i => ?_,fun t fd e he => ?_⟩
    · rw [empty]
      exact Nat.zero_le _
    · rw [boot.fds] at he
      cases he
  have harrays : k.arrays = noArrays := by
    unfold arrays noArrays
    rw [empty,boot.fds]
    rfl
  exact harrays ▸ follows_of_runs hk run

def oneByteFile : List TmpEvent := [.open 0 3 nameA ⟨true,false,false⟩ zeros,.write 0 3 (Appending.letter 65) (fun _ => none) 1]

theorem tmpfs_refines_one : ∃ k, Follows start noArrays oneByteFile k k.arrays := by
  have hwhole (k : Kernel) (e : FdEntry) (he : k.fds 0 3 = some e) (hoff : e.offset = 0) :
      k.Whole (.write 0 3 (Appending.letter 65) (fun _ => none) 1) := by
    intro e' he'
    cases he.symm.trans he'
    exact .inr (.inr (.inr ⟨by rw [hoff]; decide,.inl (by decide)⟩))
  exact ⟨_,tmpfs_refines start_boots rfl (.cons trivial rfl (.cons (hwhole _ ⟨.tmp 0,0,1⟩ rfl rfl) rfl (.nil _)))⟩

/-- A byte written at 4 GiB is at the beginning of the file. -/
theorem write_at_4gib : ∃ k k' ans, Runs tmpStep (fun _ _ => True) start
      [.open 0 3 nameA ⟨true,false,false⟩ zeros,.lseek 0 3 0x100000000] k ∧
    k.tmpStep (.write 0 3 (Appending.letter 65) (fun _ => none) 1) = some (ans,k') ∧
    ∀ a, ¬ k.arrays.Step (.write 0 3 (Appending.letter 65) (fun _ => none) 1) ans a := by
  obtain ⟨k,run,hfd,g,hw⟩ : ∃ k, Runs tmpStep (fun _ _ => True) start
      [.open 0 3 nameA ⟨true,false,false⟩ zeros,.lseek 0 3 0x100000000] k ∧ k.fds 0 3 = some ⟨.tmp 0,0x100000000,1⟩ ∧
      ∃ g, k.files.write (.tmp 0) 0x100000000 (Appending.letter 65).byte 1 none = (1,g) :=
    ⟨_,.cons trivial rfl (.cons trivial rfl (.nil _)),rfl,_,rfl⟩
  have hone : k.files.sysWrite (.tmp 0) 0x100000000 (Appending.letter 65) (fun _ => none) 1 = ⟨1,1,_,g⟩ := Files.sysWrite_one rfl hw
  have hnow : k.tmpStep (.write 0 3 (Appending.letter 65) (fun _ => none) 1) =
      some (⟨1,[]⟩,(k.become g).setFd 0 3 (some ⟨.tmp 0,0x100000000 + 1,1⟩)) := by
    simp only [tmpStep,hfd,Option.map_some,hone]
  refine ⟨k,_,_,run,hnow,fun a hstep => ?_⟩
  cases hstep with
  | refused _ neg => exact absurd neg (by decide)
  | stored held _ _ fits =>
    cases (fds_arrays hfd rfl).symm.trans held
    exact absurd fits (by decide)

end Kernel
end VibeOS.Vfs

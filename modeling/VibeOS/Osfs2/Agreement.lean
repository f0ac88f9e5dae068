import VibeOS.Osfs2.Seeded

/-! The formatter and the kernel: what `mkosfs2.py` puts into an image the kernel finds, with the
host's bytes, and keeps while other files are made and written. -/
namespace VibeOS.Osfs2
open VibeOS.Storage List

/-- What the kernel takes for granted: the bitmaps mark exactly what is in use, each pointer is to a
block of its own, and the names of a directory differ and have no slash. -/
structure OnDisk (v : Vol) : Prop where
  blocks : ∀ b : UInt32, v.used b = true ↔ b.toNat < 100 ∨ b ≠ 0 ∧ ∃ p, v.own p = b
  inodes : ∀ i : UInt32, v.live i = true ↔ i = 0 ∨ (v.inode i).type ≠ typeFree
  inside : ∀ p, v.own p ≠ 0 → dataBlock (v.own p)
  once : ∀ p q, v.own p ≠ 0 → v.own p = v.own q → p = q
  names : ∀ d n e, v.Names d n e → e.label ≠ [] ∧ slash ∉ e.label ∧ ∀ n' e', v.Names d n' e' → e'.label = e.label → n' = n

structure GoodNames (files : List CString) : Prop where
  distinct : (files.map fun spec => (specName spec).val).Nodup
  proper : ∀ spec ∈ files, (specName spec).val ≠ [] ∧ slash ∉ (specName spec).val

/-- A call that makes something or writes to an inode that is none of the first `n` files, or a
flush. -/
def Elsewhere (n : ℕ) : Event → Prop
  | .flush => True
  | .call (.create _) => True
  | .call (.mkdir _) => True
  | .call (.write ino _ _ _) => ∀ k < n, ino ≠ seedIno k
  | _ => False

/-- A lookup of the name of each file gives an inode, and a read of it the bytes of the host. -/
def Finds (host : List UInt8 → Option (List UInt8)) (files : List CString) (σ : Sys) : Prop :=
  ∀ spec ∈ files, ∀ junk : CString, ∃ ino data, ino ≠ 0 ∧ host (specPath spec) = some data ∧
    (σ.exec (osfs2Lookup junk.val (some (specName spec)))).1 = ino ∧
    ∀ offset len : UInt64, ((σ.exec (osfs2Lookup junk.val (some (specName spec)))).2.exec (osfs2Read ino offset len)).1 =
      some ((data.drop offset.toNat).take len.toNat)

structure Agrees (host : List UInt8 → Option (List UInt8)) (files : List CString) (img : Store Block) : Prop where
  onDisk : OnDisk (seededVol img)
  mounts : ∃ σ, boot (diskOf img) = some σ ∧
    ∀ es, (∀ e ∈ es, Elsewhere files.length e) → Finds host files (σ.after es)

variable {host : List UInt8 → Option (List UInt8)} {files : List CString} {seeds : List Seed} {m : Making}
  {v w : Vol} {img : Store Block} {k n : ℕ}

lemma parseSpec_some {spec : CString} {s : Seed} (h : parseSpec host spec = some s) :
    s.name = specName spec ∧ host (specPath spec) = some s.data := by
  unfold parseSpec at h
  split at h
  · obtain ⟨data,hdata,rfl⟩ := Option.map_eq_some_iff.mp h
    exact ⟨rfl,hdata⟩
  · cases h

lemma names_of_parse (h : List.Forall₂ (fun spec s => parseSpec host spec = some s) files seeds) :
    (files.map fun spec => (specName spec).val) = seeds.map fun s => s.name.val := by
  induction h with
  | nil => rfl
  | cons hparse _ ih => rw [map_cons,map_cons,ih,(parseSpec_some hparse).1]

lemma goodNames_of_onDisk (hw : Making.Walked seeds m) (hparse : List.Forall₂ (fun spec s => parseSpec host spec = some s) files seeds)
    (h : OnDisk (seededVol m.finish)) : GoodNames files := by
  have hlabel {k : ℕ} (hk : k < seeds.length) : (newDirent (seedIno k) seeds[k].name.val).label = seeds[k].name.val :=
    label_newDirent _ seeds[k].name.2 (hw.names _ (getElem_mem hk))
  constructor
  · rw [names_of_parse hparse]
    refine List.nodup_iff_injective_getElem.mpr fun i j hij => ?_
    have hi : i.val < seeds.length := by simpa using i.isLt
    have hj : j.val < seeds.length := by simpa using j.isLt
    have hsame : seeds[i.val].name.val = seeds[j.val].name.val := by simpa using hij
    refine Fin.ext ((h.names _ _ _ (hw.names_iff.mpr ⟨rfl,hj,rfl⟩)).2.2 _ _ (hw.names_iff.mpr ⟨rfl,hi,rfl⟩) ?_)
    rw [hlabel hi,hlabel hj,hsame]
  · intro spec hspec
    have hmem : (specName spec).val ∈ seeds.map fun s => s.name.val := by
      rw [← names_of_parse hparse]
      exact List.mem_map.mpr ⟨spec,hspec,rfl⟩
    obtain ⟨s,hs,hname⟩ := List.mem_map.mp hmem
    obtain ⟨k,hk,rfl⟩ := getElem_of_mem hs
    obtain ⟨h0,hslash,-⟩ := h.names _ _ _ (hw.names_iff.mpr ⟨rfl,hk,rfl⟩)
    rw [hlabel hk,hname] at h0 hslash
    exact ⟨h0,hslash⟩

namespace Making.Walked
variable (hw : Walked seeds m)
include hw

omit hw in
lemma exists_file (seeds : List Seed) {b : ℕ} (hlo : 101 ≤ b) (j : ℕ) (hj : j ≤ seeds.length) (hb : b < firstBlock seeds j) :
    ∃ k, ∃ hk : k < seeds.length, firstBlock seeds k ≤ b ∧ b < firstBlock seeds k + span seeds[k].data := by
  induction j with
  | zero =>
    have h0 : firstBlock seeds 0 = 101 := rfl
    omega
  | succ j ih =>
    by_cases hlt : b < firstBlock seeds j
    · exact ih (by omega) hlt
    · rw [firstBlock_succ (by omega)] at hb
      exact ⟨j,by omega,not_lt.mp hlt,hb⟩

lemma own_of_used {b : UInt32} (hlo : 100 ≤ b.toNat) (hb : b.toNat < m.nextDataBlock) :
    ∃ p, (seededVol m.finish).own p = b := by
  by_cases h100 : b.toNat = 100
  · refine ⟨(inodeRoot,.lbn 0),?_⟩
    rw [Vol.own_lbn,hw.inode_root,ptr_root,if_pos rfl]
    exact UInt32.toNat_inj.mp h100.symm
  · obtain ⟨k,hk,hge,hlt⟩ := exists_file seeds (show 101 ≤ b.toNat by omega) _ le_rfl (hw.next ▸ hb)
    have hof {c : ℕ} (hc : c = b.toNat) : UInt32.ofNat c = b := by rw [hc,UInt32.ofNat_toNat]
    have hfile {n : ℕ} (hn : n < blocksOf seeds[k].data) (hnum : blockNumber (firstBlock seeds k) n = b.toNat) :
        ∃ p, (seededVol m.finish).own p = b :=
      ⟨(seedIno k,.lbn n),by rw [Vol.own_lbn,hw.ptr_file hk,if_pos hn]; exact hof hnum⟩
    unfold span at hlt
    unfold blockNumber at hfile
    by_cases h16 : 16 < blocksOf seeds[k].data
    · rw [if_pos h16] at hlt
      rcases lt_trichotomy (b.toNat - firstBlock seeds k) 16 with ho | ho | ho
      · exact hfile (n := b.toNat - firstBlock seeds k) (by omega) (by rw [if_pos ho]; omega)
      · refine ⟨(seedIno k,.indirect),?_⟩
        unfold Vol.own
        rw [Vol.pointer_indirect]
        dsimp only
        rw [hw.inode_file hk,(hw.filed k hk).indirect,if_pos h16]
        exact hof (by omega)
      · exact hfile (n := b.toNat - firstBlock seeds k - 1) (by omega) (by rw [if_neg (by omega)]; omega)
    · rw [if_neg h16] at hlt
      exact hfile (n := b.toNat - firstBlock seeds k) (by omega) (by rw [if_pos (by omega)]; omega)

lemma onDisk (hnodup : (seeds.map fun s => s.name.val).Nodup)
    (hproper : ∀ s ∈ seeds, s.name.val ≠ [] ∧ slash ∉ s.name.val) : OnDisk (seededVol m.finish) := by
  have hused (b : UInt32) : (seededVol m.finish).used b = decide (b.toNat < m.nextDataBlock) := hw.used b
  have hnext : 101 ≤ m.nextDataBlock := by
    rw [hw.next]
    unfold firstBlock
    omega
  have hlabel {k : ℕ} (hk : k < seeds.length) : (newDirent (seedIno k) seeds[k].name.val).label = seeds[k].name.val :=
    label_newDirent _ seeds[k].name.2 (hw.names _ (getElem_mem hk))
  refine ⟨fun b => ?_,fun i => ?_,fun p hp => (hw.owned.held p hp).1,hw.owned.inj,fun d n e he => ?_⟩
  · rw [hused,decide_eq_true_iff]
    constructor
    · intro hb
      by_cases hlo : b.toNat < 100
      · exact .inl hlo
      · refine .inr ⟨fun h0 => ?_,hw.own_of_used (not_lt.mp hlo) hb⟩
        rw [h0] at hlo
        exact hlo (by decide)
    · rintro (hb | ⟨h0,p,rfl⟩)
      · omega
      · have := (hw.owned.held p h0).2
        rw [hused,decide_eq_true_iff] at this
        exact this
  · rw [hw.seeded_live,decide_eq_true_iff]
    by_cases hr : i = inodeRoot
    · subst hr
      refine ⟨fun _ => .inr ?_,fun _ => show (1 : ℕ) < _ by omega⟩
      rw [hw.inode_root]
      exact (by decide : typeDir ≠ typeFree)
    by_cases hf : ∃ k < seeds.length, i = seedIno k
    · obtain ⟨k,hk,rfl⟩ := hf
      refine ⟨fun _ => .inr ?_,fun _ => by rw [hw.ino hk]; omega⟩
      rw [hw.file_type hk]
      decide
    · push Not at hf
      rw [hw.inode_other hr hf]
      constructor
      · intro hi
        left
        have h0 : i.toNat = 0 ∨ i.toNat = 1 := by
          by_contra hc
          refine hf (i.toNat - 2) (by omega) (UInt32.toNat_inj.mp ?_)
          rw [hw.ino (by omega)]
          omega
        rcases h0 with h0 | h1
        · exact UInt32.toNat_inj.mp h0
        · exact absurd (UInt32.toNat_inj.mp h1) hr
      · rintro (rfl | hne)
        · exact show (0 : ℕ) < _ by omega
        · exact absurd rfl hne
  · obtain ⟨rfl,hn,rfl⟩ := hw.names_iff.mp he
    obtain ⟨h0,hslash⟩ := hproper _ (getElem_mem hn)
    refine ⟨by rwa [hlabel hn],by rwa [hlabel hn],fun n' e' he' hsame => ?_⟩
    obtain ⟨-,hn',rfl⟩ := hw.names_iff.mp he'
    rw [hlabel hn,hlabel hn'] at hsame
    exact (@List.Nodup.getElem_inj_iff _ _ hnodup n' (by rw [length_map]; exact hn') n
      (by rw [length_map]; exact hn)).mp (by rw [getElem_map,getElem_map]; exact hsame)

end Making.Walked

lemma seeded_boot (hw : Making.Walked seeds m) : ∃ σ, boot (diskOf m.finish) = some σ ∧ σ.Mounts (seededVol m.finish) := by
  have hblock (b : UInt32) : blockAt (diskOf m.finish) b = m.finish b.toNat := blockAt_diskOf _ b
  have hsb : Superblock.ofBlock (blockAt (diskOf m.finish) 0) = geometry := by
    rw [hblock]
    exact Superblock.ofBlock_toBlock geometry
  have hrec : Recovers journalPlace (diskOf m.finish) (diskOf m.finish) := by
    refine .inl ⟨?_,Agree.refl _⟩
    have hh : diskHeader journalPlace (diskOf m.finish) = JournalHeader.zero := by
      rw [diskHeader,← JournalHeader.ofBytes_blockAt,hblock]
      change JournalHeader.ofBytes (m.image 67) = _
      rw [hw.low 67 (by decide),JournalHeader.ofBytes_zero]
    rw [Idle,hh]
    exact not_committed_zero
  obtain ⟨σ,hboot,hfresh⟩ := boot_fresh hsb hrec
  refine ⟨σ,hboot,_,hfresh.shows,?_⟩
  have hrep : Rep (seededVol m.finish) ⟨true,geometry,m.finish 1,m.finish 2⟩ m.finish :=
    ⟨rfl,rfl,rfl,rfl,rfl,rfl,fun _ => rfl,fun _ => rfl⟩
  rw [hfresh.fs,mountedFs,hblock,hblock]
  exact hrep.congr fun a ha => by rw [hblock,ha.toNat]

/-- The files are where they were, with their names, and their blocks are as they were. -/
structure Still (seeds : List Seed) (v₀ v : Vol) : Prop where
  named : v.Named
  same : ∀ k < seeds.length, v₀.Same v (seedIno k)
  live : ∀ k < seeds.length, v.live (seedIno k) = true
  found : ∀ k (hk : k < seeds.length), v.NamedIn inodeRoot seeds[k].name.val (seedIno k)

lemma Vol.Same.namedIn {d i : UInt32} {name : List UInt8} (h : v.Same w d) (hn : v.NamedIn d name i) : w.NamedIn d name i := by
  obtain ⟨hv,hdir,k,e,hf,rfl⟩ := hn
  have hentry {j : ℕ} {f : Dirent} : w.Entry (w.inode d) name j f ↔ v.Entry (v.inode d) name j f := by
    constructor
    · rintro ⟨h1,h2,h3,h4⟩
      exact ⟨h.inode ▸ h1,h.slot ▸ h2,h3,h4⟩
    · rintro ⟨h1,h2,h3,h4⟩
      exact ⟨h.inode.symm ▸ h1,h.slot.symm ▸ h2,h3,h4⟩
  exact ⟨hv,h.inode.symm ▸ hdir,k,e,⟨hentry.mpr hf.toEntry,fun j hj f hff => hf.first j hj f (hentry.mp hff)⟩,rfl⟩

section Runs
variable {v₀ : Vol} (hfile : ∀ k < seeds.length, (v₀.inode (seedIno k)).type = typeFile)
include hfile

lemma Still.created {parent type r : UInt32} {leaf : List UInt8} (h : Still seeds v₀ v) (ho : v.Owned)
    (hp : v.live parent = true) (hdir : (v.inode parent).type = typeDir) (h0 : 0 ∉ leaf) (hlen : leaf.length < nameMax)
    (made : Creates v parent leaf type r w) (hNw : w.Named) : Still seeds v₀ w := by
  have hne {ino : UInt32} (hfree : v.live ino = false) (k : ℕ) (hk : k < seeds.length) : seedIno k ≠ ino := by
    rintro rfl
    rw [h.live k hk] at hfree
    cases hfree
  by_cases hr : r = 0
  · rcases made.spec ho hp with (rfl | ⟨ino,new,rfl⟩) | ⟨n,links⟩
    · exact h
    · have hroot : inodeRoot ≠ ino := new.ne_root.symm
      exact ⟨hNw,fun k hk => (h.same k hk).trans (v.same_setInode _ (hne new.free k hk)),h.live,
        fun k hk => (v.same_setInode _ hroot).namedIn (h.found k hk)⟩
    · exact absurd hr links.new.valid.1
  · rcases made.places ho hp hr with ⟨rfl,-⟩ | ⟨n,places⟩
    · exact h
    · refine ⟨hNw,fun k hk => (h.same k hk).trans (places.other _ (hne places.new.free k hk) ?_),fun k hk => ?_,
        fun k hk => places.namedIn seeds[k].name.2 h0 hlen h.named.rootLive (h.found k hk)⟩
      · rintro rfl
        rw [(h.same k hk).inode,hfile k hk] at hdir
        exact absurd hdir (by decide)
      · rw [places.live,Function.update_of_ne (hne places.new.free k hk)]
        exact h.live k hk

lemma Still.step {c : Call} {r : ℤ} (h : Still seeds v₀ v) (ho : v.Owned) (hc : Elsewhere seeds.length (.call c))
    (hh : Happens v c r w) : Still seeds v₀ w := by
  have hNw : w.Named := (hh.renames ho h.named).named h.named
  cases hh with
  | createMiss | mkdirMiss => exact h
  | create split made | mkdir split made =>
    obtain ⟨h0,-,hlen⟩ := split.leaf
    have hp := h.named.parent split
    obtain ⟨-,-,-,-,-,-,hdir⟩ := split
    exact h.created hfile ho hp hdir h0 hlen made hNw
  | write went =>
    obtain ⟨hlive,-,-,hs⟩ := went.frame ho
    have hroot : v.Same w inodeRoot := by
      refine (hs inodeRoot).resolve_right fun hr => ?_
      rw [h.named.rootDir] at hr
      exact absurd hr.2 (by decide)
    exact ⟨hNw,fun k hk => (h.same k hk).trans ((hs _).resolve_right fun hr => hc k hk hr.1.symm),
      fun k hk => hlive ▸ h.live k hk,fun k hk => hroot.namedIn (h.found k hk)⟩
  | unlinkMiss | unlink | rmdirMiss | rmdir | truncate => exact hc.elim

lemma Still.after {σ : Sys} (hs : σ.Sound) (h : Still seeds v₀ σ.vol) {es : List Event}
    (hes : ∀ e ∈ es, Elsewhere seeds.length e) : (σ.after es).Sound ∧ Still seeds v₀ (σ.after es).vol := by
  induction es generalizing σ with
  | nil => exact ⟨hs,h⟩
  | cons e es ih =>
    have hrest : ∀ e ∈ es, Elsewhere seeds.length e := fun e he => hes e (mem_cons_of_mem _ he)
    cases e with
    | call c =>
      obtain ⟨hs',hh⟩ := hs.call c
      exact ih hs' (h.step hfile hs.owned (hes _ mem_cons_self) hh) hrest
    | flush =>
      obtain ⟨hs',he⟩ := hs.flush
      exact ih hs' (he ▸ h) hrest

end Runs

lemma reached_of_namedIn (junk : List UInt8) {name : List UInt8} {i : UInt32} (h0 : 0 ∉ name) (hne : name ≠ []) (hslash : slash ∉ name)
    (hlen : name.length < nameMax) (h : v.NamedIn inodeRoot name i) : v.reached junk name = some i := by
  have hc : components name = [name] := components_single hslash hne
  unfold Vol.reached
  rw [if_neg (by rw [hc]; exact fun h => absurd h.1 (cons_ne_nil _ _)),hc,map_singleton,cutName_of_lt hlen,
    Vol.resolve,(child_iff h0).mpr h]
  rfl

lemma Still.finds (hw : Making.Walked seeds m) {σ : Sys} (hs : σ.Sound) (h : Still seeds (seededVol m.finish) σ.vol)
    (hk : k < seeds.length) (hproper : seeds[k].name.val ≠ [] ∧ slash ∉ seeds[k].name.val) (junk : CString) :
    (σ.exec (osfs2Lookup junk.val (some seeds[k].name))).1 = seedIno k ∧ ∀ offset len : UInt64,
      ((σ.exec (osfs2Lookup junk.val (some seeds[k].name))).2.exec (osfs2Read (seedIno k) offset len)).1 =
        some ((seeds[k].data.drop offset.toNat).take len.toNat) := by
  have hreached := reached_of_namedIn junk.val seeds[k].name.2 hproper.1 hproper.2
    (hw.names _ (getElem_mem hk)) (h.found k hk)
  have hlook : (σ.exec (osfs2Lookup junk.val (some seeds[k].name))).1 = seedIno k := by
    rw [hs.lookup,hreached]
    exact if_neg (hw.ino_valid hk).2
  refine ⟨hlook,fun offset len => ?_⟩
  have hdoes : Does (osfs2Lookup junk.val (some seeds[k].name)) σ.vol fun _ w => w = σ.vol :=
    Does.osfs2Lookup hs.owned (fun _ _ => rfl) fun _ => rfl
  obtain ⟨hm,hv⟩ := hdoes.exec hs.mounts
  rw [hv] at hm
  have hsame := h.same k hk
  have htype : (σ.vol.inode (seedIno k)).type = typeFile := by rw [hsame.inode,hw.file_type hk]
  refine ((Does.osfs2Read (Q := fun r _ => r = some ((seeds[k].data.drop offset.toNat).take len.toNat)) hs.owned
    (fun hbad => absurd ⟨(hw.ino_valid hk).1,.inl htype⟩ hbad) fun _ _ => ?_).exec hm).2
  rw [← hw.bytesAt hk]
  unfold Vol.bytesAt
  rw [hsame.byteAt,hsame.inode]

lemma agrees_of_goodNames (hw : Making.Walked seeds m)
    (hparse : List.Forall₂ (fun spec s => parseSpec host spec = some s) files seeds) (h : GoodNames files) :
    Agrees host files m.finish := by
  have hlen := hparse.length_eq
  have hnames := names_of_parse hparse
  have hnodup : (seeds.map fun s => s.name.val).Nodup := hnames ▸ h.distinct
  have hproper : ∀ s ∈ seeds, s.name.val ≠ [] ∧ slash ∉ s.name.val := by
    intro s hs
    have hmem : s.name.val ∈ files.map fun spec => (specName spec).val := by
      rw [hnames]
      exact List.mem_map.mpr ⟨s,hs,rfl⟩
    obtain ⟨spec,hspec,hname⟩ := List.mem_map.mp hmem
    rw [← hname]
    exact h.proper spec hspec
  refine ⟨hw.onDisk hnodup hproper,?_⟩
  obtain ⟨σ,hboot,hm⟩ := seeded_boot hw
  have hvol := hm.vol_eq
  have hsound : σ.Sound := ⟨by rw [hvol]; exact hm,by rw [hvol]; exact hw.owned⟩
  have hstill : Still seeds (seededVol m.finish) σ.vol := by
    rw [hvol]
    exact ⟨hw.named,fun k _ => .refl _ _,fun k hk => hw.file_live hk,fun k hk => hw.namedIn hnodup hk⟩
  refine ⟨σ,hboot,fun es hes spec hspec junk => ?_⟩
  obtain ⟨hs,hst⟩ := hstill.after (fun k hk => hw.file_type hk) hsound (hlen ▸ hes)
  obtain ⟨k,hk,rfl⟩ := getElem_of_mem hspec
  have hk' : k < seeds.length := hlen ▸ hk
  obtain ⟨hname,hdata⟩ := parseSpec_some (hparse.get hk hk')
  obtain ⟨hlook,hread⟩ := hst.finds hw hs hk' (hproper _ (getElem_mem hk')) junk
  rw [get_eq_getElem,get_eq_getElem] at hname hdata
  dsimp only at hname hdata
  rw [hname] at hlook hread
  exact ⟨seedIno k,seeds[k].data,(hw.ino_valid hk').1.1,hdata,hlook,hread⟩

/-- The formatter and the kernel agree on an image exactly where the names differ, are not empty and
have no slash. -/
theorem formatter_agrees_iff (h : formatImage host files = some img) : Agrees host files img ↔ GoodNames files := by
  obtain ⟨seeds,m,hparse,hw,rfl⟩ := formatImage_spec h
  exact ⟨fun ha => goodNames_of_onDisk hw hparse ha.onDisk,agrees_of_goodNames hw hparse⟩

/-- The argument `a=h`. -/
def plainSpec : CString := ⟨[97,61,104],by decide⟩

/-- The argument `a/b=h`. -/
def slashSpec : CString := ⟨[97,47,98,61,104],by decide⟩

def oneByte (_ : List UInt8) : Option (List UInt8) := some [7]

theorem formatter_agrees_iff_plain : ∃ img, formatImage oneByte [plainSpec] = some img ∧
    (Agrees oneByte [plainSpec] img ↔ GoodNames [plainSpec]) := by
  have hsome : (formatImage oneByte [plainSpec]).isSome = true := by decide
  obtain ⟨img,himg⟩ := Option.isSome_iff_exists.mp hsome
  exact ⟨img,himg,formatter_agrees_iff himg⟩

/-- The tool takes a name with a slash, which no name on the disk may have. -/
theorem formatter_disagrees : ∃ img, formatImage oneByte [slashSpec] = some img ∧ ¬ Agrees oneByte [slashSpec] img := by
  have hsome : (formatImage oneByte [slashSpec]).isSome = true := by decide
  obtain ⟨img,himg⟩ := Option.isSome_iff_exists.mp hsome
  obtain ⟨seeds,m,hparse,hw,rfl⟩ := formatImage_spec himg
  refine ⟨_,himg,fun ha => ?_⟩
  have hgood := (goodNames_of_onDisk hw hparse ha.onDisk).proper slashSpec mem_cons_self
  exact hgood.2 (by decide)

end VibeOS.Osfs2

import VibeOS.Cookies.Jar
import Mathlib.Data.List.Nodup

/-! What requests carry: the cookies that the same host set last under their names and paths. -/
namespace VibeOS.Cookies
open Function List Option

def Same (h h' : CString) : Prop := lower h.1 = lower h'.1

def Cookie.key (c : Cookie) : List Char × List Char := (c.name,c.path)

/-- The cookie was set for the host, and none with its name and path after it. -/
def Last (sets : List (CString × Cookie)) (host : CString) (c : Cookie) : Prop :=
  ∃ newer older h, sets = newer ++ (h,c) :: older ∧ Same h host ∧ ∀ p ∈ newer, Same p.1 host → p.2.key ≠ c.key

/-- The stored path is a prefix of the other one and ends, or is followed, by a '/'. -/
def Covers (stored path : List Char) : Prop :=
  ∃ rest, path = stored ++ rest ∧ (rest = [] ∨ rest.head? = some '/' ∨ stored.getLast? = some '/')

def header (cs : List Cookie) : List Char := "; ".toList.intercalate (cs.map pair)

def OwnFile (d : Disk) (host : CString) : Prop :=
  ∀ h ∈ d.hosts, sanitizeHost h.1 = sanitizeHost host.1 ↔ Same h host

/-- A response is within the limits and has no tab or line end in what is stored, no blank comes between
the value and a `;`, no cookie of the host differs from its own only in the case of name and path, and where it has a
new name or path the jar has room, with cookies counted that are over. -/
structure Storable (d : Disk) (host : CString) (header : List Char) (c : Cookie) : Prop where
  blanks : ';' ∈ header → (rawValue header).getLast?.any blank = false
  wellFormed : WellFormed c
  case : ∀ old, Last d.sets host old → replaces c old = true → old.key = c.key
  room : (∃ old, Last d.sets host old ∧ old.key = c.key) ∨
    ∀ jar : List Cookie, jar.Nodup → (∀ old ∈ jar, Last d.sets host old) → jar.length < maxPerHost

/-- The files can be read and written, each is for one host, and what is set can be stored. -/
def Meets (d : Disk) : Event → Prop
  | .response host header now readOk writeOk => readOk = true ∧ writeOk = true ∧ OwnFile d host ∧
      ∀ c, reading header now = some c → Storable d host header c
  | .request host _ _ _ ok => ok = true ∧ OwnFile d host

lemma attr_clamp (now : ℤ) (clamp : List Char → List Char) (c : Cookie) (a : List Char) :
    attr now clamp { c with path := clamp c.path } a =
      { attr now id c a with path := clamp (attr now id c a).path } := by
  unfold attr
  dsimp only
  split
  · split <;> rfl
  · split
    · split <;> rfl
    · rfl

lemma foldl_attr_clamp (now : ℤ) (clamp : List Char → List Char) (attrs : List (List Char)) (c : Cookie) :
    attrs.foldl (attr now clamp) { c with path := clamp c.path } =
      { attrs.foldl (attr now id) c with path := clamp (attrs.foldl (attr now id) c).path } := by
  induction attrs generalizing c with
  | nil => rfl
  | cons a attrs ih => rw [foldl_cons,attr_clamp,ih,foldl_cons]

lemma attr_keeps (now : ℤ) (clamp : List Char → List Char) (c : Cookie) (a : List Char) :
    (attr now clamp c a).name = c.name ∧ (attr now clamp c a).value = c.value := by
  unfold attr
  dsimp only
  split
  · split <;> exact ⟨rfl,rfl⟩
  · split
    · split <;> exact ⟨rfl,rfl⟩
    · exact ⟨rfl,rfl⟩

lemma foldl_attr_keeps (now : ℤ) (clamp : List Char → List Char) (attrs : List (List Char)) (c : Cookie) :
    (attrs.foldl (attr now clamp) c).name = c.name ∧ (attrs.foldl (attr now clamp) c).value = c.value := by
  induction attrs generalizing c with
  | nil => exact ⟨rfl,rfl⟩
  | cons a attrs ih =>
    obtain ⟨hname,hvalue⟩ := attr_keeps now clamp c a
    obtain ⟨hn,hv⟩ := ih (attr now clamp c a)
    exact ⟨hn.trans hname,hv.trans hvalue⟩

lemma cookieParseSet_none {header : List Char} {now : ℤ} (h : reading header now = none) :
    cookieParseSet header now = none := by
  unfold reading at h
  dsimp only at h
  split at h
  · next hbad =>
    unfold cookieParseSet
    dsimp only
    refine if_pos (hbad.imp_right fun hname => ?_)
    rw [hname]
    rfl
  · cases h

lemma cookieParseSet_some {header : List Char} {now : ℤ} {c : Cookie} (h : reading header now = some c)
    (hc : WellFormed c) (hblank : ';' ∈ header → (rawValue header).getLast?.any blank = false) :
    cookieParseSet header now = some c := by
  unfold reading at h
  dsimp only at h
  split at h
  · cases h
  · next hgood =>
    have heq := some.inj h
    obtain ⟨hname,hvalue⟩ := foldl_attr_keeps now id (((header.dropWhile (· != ';')).tail).splitOn ';')
      ⟨trim ((header.takeWhile (· != ';')).takeWhile (· != '=')),(rawValue header).rdropWhile blank,['/'],0⟩
    rw [heq] at hname hvalue
    have hclampName := copyClamped_of_lt hc.name.2.1 hc.name.2.2.1
    have hclampValue := copyClamped_of_lt hc.value.1 hc.value.2.1
    have hclampPath := copyClamped_of_lt hc.path.2.1 hc.path.2.2.1
    dsimp only at hname hvalue
    rw [hname] at hclampName
    rw [hvalue] at hclampValue
    have hfold := foldl_attr_clamp now (copyClamped pathMax) (((header.dropWhile (· != ';')).tail).splitOn ';')
      ⟨trim ((header.takeWhile (· != ';')).takeWhile (· != '=')),(rawValue header).rdropWhile blank,['/'],0⟩
    have hslash : copyClamped pathMax ['/'] = ['/'] := by decide
    dsimp only at hfold
    rw [hslash,heq,hclampPath] at hfold
    unfold cookieParseSet
    dsimp only
    rw [hclampName,hclampValue,if_neg hgood,hfold]
    split
    · next hany =>
      have hsemi : ';' ∉ header := fun hmem => by
        rw [hblank hmem] at hany
        cases hany
      have hdrop : header.dropWhile (· != ';') = [] :=
        List.dropWhile_eq_nil_iff.mpr fun a ha => bne_iff_ne.mpr fun h => hsemi (h ▸ ha)
      rw [hdrop] at heq
      exact congrArg some heq
    · rfl

lemma ieqPrefix_refl (s : List Char) : ieqPrefix s s = true := by
  induction s with
  | nil => rfl
  | cons a s ih => simp [ieqPrefix,ih]

lemma replaces_of_key {c old : Cookie} (h : old.key = c.key) : replaces c old = true := by
  obtain ⟨hname,hpath⟩ := Prod.mk.inj h
  simp [replaces,hname,hpath,ieqPrefix_refl]

lemma merge_spec {jar : List Cookie} {c : Cookie} (hkeys : (jar.map Cookie.key).Nodup)
    (hcase : ∀ old ∈ jar, replaces c old = true → old.key = c.key)
    (hroom : (∃ old ∈ jar, old.key = c.key) ∨ jar.length < maxPerHost) (hlen : jar.length ≤ maxPerHost) :
    ∃ jar', merge jar c = some jar' ∧ jar'.length ≤ maxPerHost ∧ (jar'.map Cookie.key).Nodup ∧
      ∀ x, x ∈ jar' ↔ x = c ∨ x ∈ jar ∧ x.key ≠ c.key := by
  unfold merge
  split
  · next slot hfind =>
    obtain ⟨hslot,hreplaces,-⟩ := List.findIdx?_eq_some_iff_getElem.mp hfind
    have hkey : jar[slot].key = c.key := hcase _ (getElem_mem hslot) hreplaces
    have hmap : (jar.set slot c).map Cookie.key = jar.map Cookie.key := by
      refine ext_getElem? fun j => ?_
      rw [map_set,getElem?_set]
      split
      · next heq =>
        subst heq
        simp [hslot,hkey]
      · rfl
    have hnodup : ((jar.set slot c).map Cookie.key).Nodup := by rwa [hmap]
    have hc : c ∈ jar.set slot c := mem_set hslot c
    refine ⟨_,rfl,by simpa using hlen,hnodup,fun x => ⟨fun hx => ?_,?_⟩⟩
    · by_cases heq : x = c
      · exact .inl heq
      · refine .inr ⟨(mem_or_eq_of_mem_set hx).resolve_right heq,fun hk => heq ?_⟩
        exact inj_on_of_nodup_map hnodup hx hc hk
    · rintro (rfl | ⟨hx,hk⟩)
      · exact hc
      · obtain ⟨j,hj,rfl⟩ := List.mem_iff_getElem.mp hx
        have hne : slot ≠ j := by
          rintro rfl
          exact hk hkey
        refine List.mem_iff_getElem.mpr ⟨j,by simpa using hj,?_⟩
        rw [getElem_set_ne hne]
  · next hfind =>
    have hnone := List.findIdx?_eq_none_iff.mp hfind
    have hne : ∀ old ∈ jar, old.key ≠ c.key := fun old hold hk => by
      have hno := hnone old hold
      rw [replaces_of_key hk] at hno
      cases hno
    have hlt : jar.length < maxPerHost := hroom.resolve_left fun ⟨old,hold,hk⟩ => hne old hold hk
    rw [if_neg (Nat.not_le.mpr hlt)]
    refine ⟨_,rfl,?_,?_,fun x => ?_⟩
    · rw [length_append,length_singleton]
      exact hlt
    · rw [map_append]
      refine List.nodup_append.mpr ⟨hkeys,nodup_singleton _,?_⟩
      intro a ha b hb heq
      obtain ⟨old,hold,rfl⟩ := List.mem_map.mp ha
      rw [map_singleton,mem_singleton] at hb
      exact hne old hold (heq.trans hb)
    · rw [mem_append,mem_singleton,or_comm]
      exact or_congr_right ⟨fun hx => ⟨hx,hne x hx⟩,And.left⟩

lemma last_cons {sets : List (CString × Cookie)} {host h : CString} {c x : Cookie} :
    Last ((host,c) :: sets) h x ↔ (x = c ∧ Same host h) ∨ Last sets h x ∧ (Same host h → c.key ≠ x.key) := by
  constructor
  · rintro ⟨newer,older,h',heq,hsame,hnew⟩
    cases newer with
    | nil =>
      obtain ⟨hp,-⟩ := List.cons.inj heq
      obtain ⟨rfl,rfl⟩ := Prod.mk.inj hp
      exact .inl ⟨rfl,hsame⟩
    | cons p newer =>
      obtain ⟨rfl,hrest⟩ := List.cons.inj heq
      exact .inr ⟨⟨newer,older,h',hrest,hsame,fun q hq => hnew q (mem_cons_of_mem _ hq)⟩,hnew _ mem_cons_self⟩
  · rintro (⟨rfl,hsame⟩ | ⟨⟨newer,older,h',rfl,hsame,hnew⟩,hne⟩)
    · exact ⟨[],sets,host,rfl,hsame,fun q hq => by cases hq⟩
    · refine ⟨(host,c) :: newer,older,h',rfl,hsame,fun q hq => ?_⟩
      obtain rfl | hq := List.mem_cons.mp hq
      · exact hne
      · exact hnew q hq

lemma Last.told {sets : List (CString × Cookie)} {h : CString} {c : Cookie} (hl : Last sets h c) :
    ∃ h', (h',c) ∈ sets ∧ Same h' h := by
  obtain ⟨newer,older,h',rfl,hsame,-⟩ := hl
  exact ⟨h',mem_append_right _ mem_cons_self,hsame⟩

lemma Last.of_same {sets : List (CString × Cookie)} {h h' : CString} (hs : Same h h') {c : Cookie} (hl : Last sets h c) :
    Last sets h' c := by
  obtain ⟨newer,older,g,rfl,hsame,hnew⟩ := hl
  exact ⟨newer,older,g,rfl,hsame.trans hs,fun p hp hg => hnew p hp (hg.trans hs.symm)⟩

structure Jar (d : Disk) (h : CString) (jar : List Cookie) : Prop where
  file : (d.files (sanitizeHost h.1) = none ∧ jar = []) ∨ d.files (sanitizeHost h.1) = some (written jar)
  wellFormed : ∀ c ∈ jar, WellFormed c
  length : jar.length ≤ maxPerHost
  keys : (jar.map Cookie.key).Nodup
  last : ∀ c, c ∈ jar ↔ Last d.sets h c

structure Inv (d : Disk) : Prop where
  files : ∀ name, d.files name ≠ none → ∃ h ∈ d.hosts, sanitizeHost h.1 = name
  sets : ∀ p ∈ d.sets, p.1 ∈ d.hosts
  jars : ∀ h ∈ d.hosts, ∃ jar, Jar d h jar

lemma Inv.jar {d : Disk} (hd : Inv d) {host : CString} (hown : OwnFile d host) : ∃ jar, Jar d host jar := by
  by_cases hknown : ∃ h ∈ d.hosts, Same h host
  · obtain ⟨h,hh,hsame⟩ := hknown
    obtain ⟨jar,hfile,hwf,hlen,hkeys,hlast⟩ := hd.jars h hh
    rw [(hown h hh).mpr hsame] at hfile
    refine ⟨jar,hfile,hwf,hlen,hkeys,fun c => (hlast c).trans ⟨Last.of_same hsame,Last.of_same hsame.symm⟩⟩
  · refine ⟨[],.inl ⟨?_,rfl⟩,fun c hc => (by cases hc),Nat.zero_le _,nodup_nil,fun c => ⟨fun hc => (by cases hc),fun hl => ?_⟩⟩
    · by_contra hne
      obtain ⟨h,hh,hname⟩ := hd.files _ hne
      exact hknown ⟨h,hh,(hown h hh).mp hname⟩
    · obtain ⟨h,hmem,hsame⟩ := hl.told
      exact absurd ⟨h,hd.sets _ hmem,hsame⟩ hknown

lemma Jar.load {d : Disk} {h : CString} {jar : List Cookie} (hj : Jar d h jar) :
    (d.load h true = none ∧ jar = []) ∨ d.load h true = some jar := by
  rw [Disk.load,if_pos rfl]
  obtain ⟨hnone,hjar⟩ | hsome := hj.file
  · exact .inl ⟨by rw [hnone]; rfl,hjar⟩
  · refine .inr ?_
    rw [hsome,map_some,loadLines_written hj.wellFormed hj.length]

lemma Inv.asked {d : Disk} (hd : Inv d) {host : CString} (hown : OwnFile d host) :
    Inv { d with hosts := host :: d.hosts } := by
  refine ⟨fun name hne => ?_,fun p hp => mem_cons_of_mem _ (hd.sets p hp),fun h hh => ?_⟩
  · obtain ⟨h,hh,hname⟩ := hd.files name hne
    exact ⟨h,mem_cons_of_mem _ hh,hname⟩
  · have hjar : ∃ jar, Jar d h jar := by
      obtain rfl | hh := List.mem_cons.mp hh
      · exact hd.jar hown
      · exact hd.jars h hh
    obtain ⟨jar,hfile,hwf,hlen,hkeys,hlast⟩ := hjar
    exact ⟨jar,hfile,hwf,hlen,hkeys,hlast⟩

lemma Inv.set {d : Disk} (hd : Inv d) {host : CString} (hown : OwnFile d host) {header : List Char} {c : Cookie}
    (hc : Storable d host header c) :
    Inv (Disk.cookieStoreSet { d with sets := (host,c) :: d.sets, hosts := host :: d.hosts } host c true true).2 := by
  obtain ⟨jar,hj⟩ := hd.jar hown
  have hload : ((Disk.load { d with sets := (host,c) :: d.sets, hosts := host :: d.hosts } host true).getD []) = jar := by
    have hsame : Disk.load { d with sets := (host,c) :: d.sets, hosts := host :: d.hosts } host true = d.load host true := rfl
    rw [hsame]
    obtain ⟨hl,rfl⟩ | hl := hj.load
    · rw [hl]
      rfl
    · rw [hl]
      rfl
  have hroom : (∃ old ∈ jar, old.key = c.key) ∨ jar.length < maxPerHost :=
    hc.room.imp (fun ⟨old,hl,hk⟩ => ⟨old,(hj.last old).mpr hl,hk⟩)
      fun h => h jar (List.Nodup.of_map _ hj.keys) fun old hold => (hj.last old).mp hold
  obtain ⟨jar',hmerge,hlen,hkeys,hmem⟩ :=
    merge_spec hj.keys (fun old hold => hc.case old ((hj.last old).mp hold)) hroom hj.length
  have hset : (Disk.cookieStoreSet { d with sets := (host,c) :: d.sets, hosts := host :: d.hosts } host c true true).2 =
      ⟨update d.files (sanitizeHost host.1) (some (written jar')),(host,c) :: d.sets,host :: d.hosts⟩ := by
    rw [Disk.cookieStoreSet,hload,hmerge]
    rfl
  have hnew : Jar ⟨update d.files (sanitizeHost host.1) (some (written jar')),(host,c) :: d.sets,host :: d.hosts⟩ host jar' := by
    refine ⟨.inr ?_,fun x hx => ?_,hlen,hkeys,fun x => ?_⟩
    · exact update_self ..
    · obtain rfl | ⟨hx,-⟩ := (hmem x).mp hx
      · exact hc.wellFormed
      · exact hj.wellFormed x hx
    · rw [hmem,last_cons,hj.last]
      refine or_congr ⟨fun h => ⟨h,rfl⟩,And.left⟩ (and_congr_right fun _ => ?_)
      exact ⟨fun h _ => h.symm,fun h => (h rfl).symm⟩
  rw [hset]
  refine ⟨fun name hne => ?_,fun p hp => ?_,fun h hh => ?_⟩
  · by_cases hname : name = sanitizeHost host.1
    · exact ⟨host,mem_cons_self,hname.symm⟩
    · have hold : d.files name ≠ none := by simpa [update_of_ne hname] using hne
      obtain ⟨h,hh,heq⟩ := hd.files name hold
      exact ⟨h,mem_cons_of_mem _ hh,heq⟩
  · obtain rfl | hp := List.mem_cons.mp hp
    · exact mem_cons_self
    · exact mem_cons_of_mem _ (hd.sets p hp)
  · obtain rfl | hh := List.mem_cons.mp hh
    · exact ⟨jar',hnew⟩
    · by_cases hsame : Same h host
      · obtain ⟨hfile,hwf,hl,hk,hlast⟩ := hnew
        refine ⟨jar',?_,hwf,hl,hk,fun x => (hlast x).trans ⟨Last.of_same hsame.symm,Last.of_same hsame⟩⟩
        rw [(hown h hh).mpr hsame]
        exact hfile
      · obtain ⟨old,hfile,hwf,hl,hk,hlast⟩ := hd.jars h hh
        have hne : sanitizeHost h.1 ≠ sanitizeHost host.1 := fun heq => hsame ((hown h hh).mp heq)
        refine ⟨old,?_,hwf,hl,hk,fun x => (hlast x).trans ?_⟩
        · simpa only [update_of_ne hne] using hfile
        · rw [last_cons]
          constructor
          · exact fun hx => .inr ⟨hx,fun hs => absurd hs.symm hsame⟩
          · rintro (⟨-,hs⟩ | ⟨hx,-⟩)
            · exact absurd hs.symm hsame
            · exact hx

lemma inv_step {d d' : Disk} {e : Event} {r : Option (ℤ × List Char)} (hd : Inv d) (ok : Meets d e)
    (hstep : d.step e = some (r,d')) : Inv d' := by
  cases e with
  | response host header now readOk writeOk =>
    obtain ⟨rfl,rfl,hown,hstorable⟩ := ok
    simp only [Disk.step] at hstep
    cases hread : reading header now with
    | none =>
      rw [cookieParseSet_none hread,hread] at hstep
      cases hstep
      exact hd.asked hown
    | some c =>
      have hc := hstorable c hread
      rw [cookieParseSet_some hread hc.wellFormed hc.blanks,hread] at hstep
      cases hstep
      exact hd.set hown hc
  | request host path now cap ok' =>
    cases hstep
    exact hd.asked ok.2

end VibeOS.Cookies

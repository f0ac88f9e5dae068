import VibeOS.Widths
import Mathlib.Data.List.Basic
import Mathlib.Data.List.TakeWhile

/-! `url.h` and `origin.h`: the parser of absolute URLs and the comparison of origins. A string is the list of its characters before the
terminator, a pointer into it the rest of the list. -/
namespace VibeOS.Url
open List Option

inductive Scheme where
  | http
  | https
  deriving DecidableEq

def Scheme.text : Scheme → List Char
  | .http => ['h','t','t','p',':','/','/']
  | .https => ['h','t','t','p','s',':','/','/']

def Scheme.port : Scheme → ℕ
  | .http => 80
  | .https => 443

structure Url where
  scheme : Scheme
  port : ℕ
  host : List Char
  path : List Char
  frag : List Char
  deriving DecidableEq

/-- `url_strncasecmp` of a string with a whole literal, 0 as `true`. -/
def caseEq : List Char → List Char → Bool
  | _,[] => true
  | [],_ :: _ => false
  | c :: s,d :: p => if c.toLower ≠ d.toLower then false else caseEq s p

/-- `url_copy_n` -/
def copyN (cap : ℕ) (src : List Char) : Option (List Char) := if cap < src.length + 1 then none else some src

def schemeOf (s : List Char) : Option (Scheme × List Char) :=
  if caseEq s Scheme.http.text then some (.http,s.drop 7)
  else if caseEq s Scheme.https.text then some (.https,s.drop 8)
  else none

def isStop (c : Char) : Bool := c = ':' || c = '/' || c = '?' || c = '#'

def scanHost : List Char → Option (List Char × List Char)
  | [] => some ([],[])
  | c :: p =>
    if isStop c then some ([],c :: p)
    else if c = '@' ∨ c = '[' then none
    else (scanHost p).map fun (h,r) => (c :: h,r)

def hostOf (p : List Char) : Option (List Char × List Char) :=
  match p with
  | [] => none
  | c :: _ =>
    if c = '/' ∨ c = '?' ∨ c = '#' then none
    else if c = '[' ∨ c = '@' then none
    else do
      let (h,r) ← scanHost p
      if h.length = 0 ∨ 253 < h.length then none
      else do
        let h ← copyN 256 h
        return (h,r)

def portLoop : ℕ → List Char → Option (ℕ × List Char)
  | v,[] => some (v,[])
  | v,c :: p =>
    if c.isDigit then if 65535 < 10 * v + (c.toNat - '0'.toNat) then none else portLoop (10 * v + (c.toNat - '0'.toNat)) p
    else some (v,c :: p)

def portOf (default : ℕ) (p : List Char) : Option (ℕ × List Char) :=
  match p with
  | ':' :: c :: p =>
    if c.isDigit then do
      let (v,r) ← portLoop 0 (c :: p)
      if v = 0 then none else some (v,r)
    else none
  | [':'] => none
  | _ => some (default,p)

def pathStart (p : List Char) : Bool :=
  match p with
  | [] => true
  | c :: _ => c = '/' || c = '?' || c = '#'

def noHash (c : Char) : Bool := c ≠ '#'

def pathOf (p : List Char) : Option (List Char × List Char) :=
  match p with
  | '/' :: _ => do
    let path ← copyN 1024 (p.takeWhile noHash)
    return (path,p.dropWhile noHash)
  | '?' :: _ => if 1024 < 1 + (p.takeWhile noHash).length + 1 then none else some ('/' :: p.takeWhile noHash,p.dropWhile noHash)
  | _ => some (['/'],p)

def fragOf (p : List Char) : Option (List Char) :=
  match p with
  | '#' :: p => copyN 256 p
  | _ => some []

/-- `url_parse` -/
def urlParse (s : List Char) : Option Url := do
  let (scheme,p) ← schemeOf s
  let (host,p) ← hostOf p
  let (port,p) ← portOf scheme.port p
  if pathStart p = false then none
  else do
    let (path,p) ← pathOf p
    let frag ← fragOf p
    return ⟨scheme,port,host,path,frag⟩

structure Origin where
  scheme : Scheme
  port : ℕ
  host : List Char
  deriving DecidableEq

/-- `origin_parse` -/
def originParse (url : List Char) : Option Origin := (urlParse url).map fun u => ⟨u.scheme,u.port,(u.host.take 255).map Char.toLower⟩

/-- The loop over the hosts, which ends at a common terminator or at the size of the arrays. -/
def hostEq : ℕ → List Char → List Char → Bool
  | 0,_,_ => true
  | n+1,a :: as,b :: bs => if a ≠ b then false else hostEq n as bs
  | _+1,[],[] => true
  | _+1,_,_ => false

/-- `origin_eq` -/
def originEq (urlA urlB : List Char) : Bool :=
  match originParse urlA,originParse urlB with
  | some a,some b => if a.scheme ≠ b.scheme then false else if a.port ≠ b.port then false else hostEq 256 a.host b.host
  | _,_ => false

def Plain (h : List Char) : Prop := ∀ c ∈ h, isStop c = false ∧ c ≠ '@' ∧ c ≠ '['

def PortText (scheme : Scheme) (port : ℕ) (t : List Char) : Prop :=
  (t = [] ∧ port = scheme.port) ∨
  ∃ ds, t = ':' :: ds ∧ ds ≠ [] ∧ (∀ c ∈ ds, c.isDigit = true) ∧ Nat.ofDigitChars 10 ds 0 = port ∧ 1 ≤ port ∧ port ≤ 65535

def PathText (path t : List Char) : Prop :=
  ('#' ∉ t) ∧ path.length ≤ 1023 ∧ ((t = [] ∧ path = ['/']) ∨ (t.head? = some '/' ∧ path = t) ∨ (t.head? = some '?' ∧ path = '/' :: t))

def FragText (frag t : List Char) : Prop := frag.length ≤ 255 ∧ ((t = [] ∧ frag = []) ∨ t = '#' :: frag)

/-- `s` is a spelling of the URL `u`: scheme://host[:port][/path][?query][#frag]. -/
structure Spells (u : Url) (s : List Char) : Prop where
  parts : ∃ scheme port path frag, s = scheme ++ (u.host ++ (port ++ (path ++ frag))) ∧ scheme.map Char.toLower = u.scheme.text ∧
    PortText u.scheme u.port port ∧ PathText u.path path ∧ FragText u.frag frag
  host : 1 ≤ u.host.length ∧ u.host.length ≤ 253 ∧ Plain u.host

/-- The spelling with a lower-case scheme and the port written out. -/
def rebuild (u : Url) : List Char :=
  u.scheme.text ++ (u.host ++ (':' :: Nat.toDigits 10 u.port ++ (u.path ++ if u.frag = [] then [] else '#' :: u.frag)))

lemma caseEq_iff {s lit : List Char} : caseEq s lit = true ↔ ∃ pre rest, s = pre ++ rest ∧ pre.map Char.toLower = lit.map Char.toLower := by
  induction lit generalizing s with
  | nil =>
    refine ⟨fun _ => ⟨[],s,rfl,rfl⟩,fun _ => ?_⟩
    unfold caseEq
    rfl
  | cons d p ih =>
    cases s with
    | nil =>
      refine ⟨nofun,fun ⟨pre,rest,hs,hpre⟩ => ?_⟩
      rw [(List.append_eq_nil_iff.mp hs.symm).1] at hpre
      exact nomatch hpre
    | cons c s =>
      unfold caseEq
      by_cases hc : c.toLower = d.toLower
      · rw [if_neg (not_not.mpr hc),ih]
        constructor
        · rintro ⟨pre,rest,rfl,hpre⟩
          exact ⟨c :: pre,rest,rfl,by rw [map_cons,map_cons,hc,hpre]⟩
        · rintro ⟨pre,rest,hs,hpre⟩
          cases pre with
          | nil => exact nomatch hpre
          | cons c' pre =>
            obtain ⟨rfl,htail⟩ := List.cons.inj hs
            exact ⟨pre,rest,htail,(List.cons.inj hpre).2⟩
      · rw [if_pos hc]
        refine ⟨nofun,fun ⟨pre,rest,hs,hpre⟩ => ?_⟩
        cases pre with
        | nil => exact nomatch hpre
        | cons c' pre =>
          obtain ⟨rfl,-⟩ := List.cons.inj hs
          exact absurd (List.cons.inj hpre).1 hc

lemma text_lower (scheme : Scheme) : scheme.text.map Char.toLower = scheme.text := by cases scheme <;> rfl

variable {scheme : Scheme}

lemma schemeOf_iff {s r : List Char} :
    schemeOf s = some (scheme,r) ↔ ∃ pre, s = pre ++ r ∧ pre.map Char.toLower = scheme.text := by
  have hlen {pre : List Char} {sc : Scheme} (h : pre.map Char.toLower = sc.text) : pre.length = sc.text.length := by
    rw [← h,length_map]
  unfold schemeOf
  constructor
  · intro h
    split at h
    · rename_i heq
      obtain ⟨pre,rest,rfl,hpre⟩ := caseEq_iff.mp heq
      rw [text_lower] at hpre
      obtain ⟨rfl,rfl⟩ := Prod.mk.inj (some.inj h)
      exact ⟨pre,by rw [drop_left' (show pre.length = 7 from hlen hpre)],hpre⟩
    · split at h
      · rename_i heq
        obtain ⟨pre,rest,rfl,hpre⟩ := caseEq_iff.mp heq
        rw [text_lower] at hpre
        obtain ⟨rfl,rfl⟩ := Prod.mk.inj (some.inj h)
        exact ⟨pre,by rw [drop_left' (show pre.length = 8 from hlen hpre)],hpre⟩
      · exact nomatch h
  · rintro ⟨pre,rfl,hpre⟩
    have heq : caseEq (pre ++ r) scheme.text = true := caseEq_iff.mpr ⟨pre,r,rfl,by rw [text_lower,hpre]⟩
    have hdrop := hlen hpre
    cases scheme with
    | http =>
      rw [if_pos heq,drop_left' (show pre.length = 7 from hdrop)]
    | https =>
      have hnot : ¬ caseEq (pre ++ r) Scheme.http.text = true := fun h => by
        obtain ⟨pre',rest,hs,hpre'⟩ := caseEq_iff.mp h
        rw [text_lower] at hpre'
        have hfirst := congrArg (fun l => (l.map Char.toLower)[4]?) hs
        simp only [map_append,hpre,hpre'] at hfirst
        rw [getElem?_append_left (by decide),getElem?_append_left (by decide)] at hfirst
        exact absurd hfirst (by decide)
      rw [if_neg hnot,if_pos heq,drop_left' (show pre.length = 8 from hdrop)]

def Stops (r : List Char) : Prop := ∀ c ∈ r.head?, isStop c = true

lemma scanHost_iff {p h r : List Char} : scanHost p = some (h,r) ↔ p = h ++ r ∧ Plain h ∧ Stops r := by
  induction p generalizing h with
  | nil =>
    constructor
    · intro heq
      obtain ⟨rfl,rfl⟩ := Prod.mk.inj (some.inj heq)
      exact ⟨rfl,nofun,nofun⟩
    · rintro ⟨hp,-,-⟩
      obtain ⟨rfl,rfl⟩ := List.append_eq_nil_iff.mp hp.symm
      rfl
  | cons c p ih =>
    unfold scanHost
    by_cases hstop : isStop c = true
    · rw [if_pos hstop]
      constructor
      · intro heq
        obtain ⟨rfl,rfl⟩ := Prod.mk.inj (some.inj heq)
        exact ⟨rfl,nofun,fun d hd => some.inj hd ▸ hstop⟩
      · rintro ⟨hp,hplain,-⟩
        cases h with
        | nil => rw [hp,nil_append]
        | cons d h =>
          obtain ⟨rfl,-⟩ := List.cons.inj hp
          exact absurd hstop (by rw [(hplain c mem_cons_self).1]; decide)
    rw [if_neg hstop]
    have hmust : ∀ h', (c :: p = h' ++ r ∧ Plain h' ∧ Stops r) → ∃ t, h' = c :: t ∧ p = t ++ r := fun h' ⟨hp,_,hr⟩ => by
      cases h' with
      | nil =>
        rw [nil_append] at hp
        exact absurd (hr c (by rw [← hp]; rfl)) hstop
      | cons d t =>
        obtain ⟨rfl,htail⟩ := List.cons.inj hp
        exact ⟨t,rfl,htail⟩
    by_cases hbad : c = '@' ∨ c = '['
    · rw [if_pos hbad]
      refine ⟨nofun,fun hall => ?_⟩
      obtain ⟨t,rfl,-⟩ := hmust h hall
      have hc := (hall.2.1 c mem_cons_self).2
      exact (hbad.elim hc.1 hc.2).elim
    rw [if_neg hbad,map_eq_some_iff]
    constructor
    · rintro ⟨⟨t,r'⟩,hscan,heq⟩
      obtain ⟨rfl,rfl⟩ := Prod.mk.inj heq
      obtain ⟨rfl,hplain,hr⟩ := ih.mp hscan
      refine ⟨rfl,fun d hd => ?_,hr⟩
      rcases List.mem_cons.mp hd with rfl | hd
      · exact ⟨eq_false_of_ne_true hstop,fun h => hbad (.inl h),fun h => hbad (.inr h)⟩
      · exact hplain d hd
    · intro hall
      obtain ⟨t,rfl,hp⟩ := hmust h hall
      exact ⟨(t,r),ih.mpr ⟨hp,fun d hd => hall.2.1 d (mem_cons_of_mem c hd),hall.2.2⟩,rfl⟩

lemma hostOf_iff {p h r : List Char} :
    hostOf p = some (h,r) ↔ p = h ++ r ∧ (1 ≤ h.length ∧ h.length ≤ 253 ∧ Plain h) ∧ Stops r := by
  have hafter : ∀ q, (do
      let (h,r) ← scanHost q
      if h.length = 0 ∨ 253 < h.length then none
      else do
        let h ← copyN 256 h
        return (h,r)) = some (h,r) ↔ q = h ++ r ∧ (1 ≤ h.length ∧ h.length ≤ 253 ∧ Plain h) ∧ Stops r := fun q => by
    rcases hs : scanHost q with _ | ⟨h',r'⟩
    · refine ⟨nofun,fun ⟨hq,⟨_,_,hplain⟩,hr⟩ => ?_⟩
      exact nomatch hs.symm.trans (scanHost_iff.mpr ⟨hq,hplain,hr⟩)
    · obtain ⟨hq,hplain,hr⟩ := scanHost_iff.mp hs
      dsimp only [bind_eq_bind,bind_some]
      constructor
      · intro heq
        split at heq
        · exact nomatch heq
        · rename_i hlen
          unfold copyN at heq
          rw [if_neg (by omega)] at heq
          obtain ⟨rfl,rfl⟩ := Prod.mk.inj (some.inj heq)
          exact ⟨hq,⟨by omega,by omega,hplain⟩,hr⟩
      · rintro ⟨hq',⟨hpos,hle,hplain'⟩,hr'⟩
        obtain ⟨rfl,rfl⟩ := Prod.mk.inj (some.inj (hs.symm.trans (scanHost_iff.mpr ⟨hq',hplain',hr'⟩)))
        unfold copyN
        rw [if_neg (by omega),if_neg (by omega)]
        rfl
  have hfirst (c : Char) (q : List Char) (hall : c :: q = h ++ r ∧ (1 ≤ h.length ∧ h.length ≤ 253 ∧ Plain h) ∧ Stops r) :
      isStop c = false ∧ c ≠ '@' ∧ c ≠ '[' := by
    obtain ⟨hp,⟨hpos,-,hplain⟩,-⟩ := hall
    cases h with
    | nil => exact absurd hpos (by decide)
    | cons d h =>
      obtain ⟨rfl,-⟩ := List.cons.inj hp
      exact hplain c mem_cons_self
  unfold hostOf
  split
  · refine ⟨nofun,fun ⟨hp,⟨hpos,_⟩,_⟩ => ?_⟩
    rw [(List.append_eq_nil_iff.mp hp.symm).1] at hpos
    exact absurd hpos (by decide)
  · rename_i c q
    split
    · rename_i hc
      refine ⟨nofun,fun hall => ?_⟩
      have hstop := (hfirst c q hall).1
      rcases hc with rfl | rfl | rfl <;> exact absurd hstop (by decide)
    split
    · rename_i hc
      refine ⟨nofun,fun hall => ?_⟩
      have hplain := (hfirst c q hall).2
      exact (hc.elim hplain.2 hplain.1).elim
    · exact hafter _

lemma ofDigitChars_mono (ds : List Char) (v : ℕ) : v ≤ Nat.ofDigitChars 10 ds v := by
  induction ds generalizing v with
  | nil => rw [Nat.ofDigitChars_nil]
  | cons c ds ih =>
    rw [Nat.ofDigitChars_cons]
    have := ih (10 * v + (c.toNat - '0'.toNat))
    omega

def NoDigit (r : List Char) : Prop := ∀ c ∈ r.head?, c.isDigit = false

lemma portLoop_iff {v w : ℕ} {p r : List Char} (hv : v ≤ 65535) : portLoop v p = some (w,r) ↔
    ∃ ds, p = ds ++ r ∧ (∀ c ∈ ds, c.isDigit = true) ∧ NoDigit r ∧ Nat.ofDigitChars 10 ds v = w ∧ w ≤ 65535 := by
  induction p generalizing v with
  | nil =>
    constructor
    · intro heq
      obtain ⟨rfl,rfl⟩ := Prod.mk.inj (some.inj heq)
      exact ⟨[],rfl,nofun,nofun,Nat.ofDigitChars_nil,hv⟩
    · rintro ⟨ds,hp,-,-,hw,-⟩
      obtain ⟨rfl,rfl⟩ := List.append_eq_nil_iff.mp hp.symm
      rw [← hw,Nat.ofDigitChars_nil]
      rfl
  | cons c p ih =>
    unfold portLoop
    by_cases hc : c.isDigit = true
    · rw [if_pos hc]
      have hsplit : ∀ ds, c :: p = ds ++ r → NoDigit r → ∃ t, ds = c :: t ∧ p = t ++ r := fun ds hp hr => by
        cases ds with
        | nil =>
          rw [nil_append] at hp
          exact absurd hc (by rw [hr c (by rw [← hp]; rfl)]; decide)
        | cons d t =>
          obtain ⟨rfl,htail⟩ := List.cons.inj hp
          exact ⟨t,rfl,htail⟩
      by_cases hbig : 65535 < 10 * v + (c.toNat - '0'.toNat)
      · rw [if_pos hbig]
        refine ⟨nofun,fun ⟨ds,hp,_,hr,hw,hle⟩ => ?_⟩
        obtain ⟨t,rfl,-⟩ := hsplit ds hp hr
        rw [Nat.ofDigitChars_cons] at hw
        have := ofDigitChars_mono t (10 * v + (c.toNat - '0'.toNat))
        omega
      · rw [if_neg hbig,ih (by omega)]
        constructor
        · rintro ⟨ds,rfl,hds,hr,hw,hle⟩
          exact ⟨c :: ds,rfl,fun d hd => (List.mem_cons.mp hd).elim (fun h => h ▸ hc) (hds d),hr,by rw [Nat.ofDigitChars_cons]; exact hw,hle⟩
        · rintro ⟨ds,hp,hds,hr,hw,hle⟩
          obtain ⟨t,rfl,hp'⟩ := hsplit ds hp hr
          exact ⟨t,hp',fun d hd => hds d (mem_cons_of_mem c hd),hr,by rw [Nat.ofDigitChars_cons] at hw; exact hw,hle⟩
    · rw [if_neg hc]
      constructor
      · intro heq
        obtain ⟨rfl,rfl⟩ := Prod.mk.inj (some.inj heq)
        exact ⟨[],rfl,nofun,fun d hd => some.inj hd ▸ eq_false_of_ne_true hc,Nat.ofDigitChars_nil,hv⟩
      · rintro ⟨ds,hp,hds,-,hw,-⟩
        cases ds with
        | nil => rw [← hw,Nat.ofDigitChars_nil,hp,nil_append]
        | cons d t =>
          obtain ⟨rfl,-⟩ := List.cons.inj hp
          exact absurd (hds c mem_cons_self) hc

lemma portOf_iff {p r : List Char} {n : ℕ} (hr : pathStart r = true) (hp : Stops p) :
    portOf scheme.port p = some (n,r) ↔ ∃ t, p = t ++ r ∧ PortText scheme n t := by
  have hnoDigit : NoDigit r := fun c hc => by
    cases r with
    | nil => exact nomatch hc
    | cons d r =>
      obtain rfl := some.inj hc
      unfold pathStart at hr
      simp only [Bool.or_eq_true,decide_eq_true_eq] at hr
      rcases hr with (rfl | rfl) | rfl <;> rfl
  have hcolon : r.head? ≠ some ':' := fun hc => by
    cases r with
    | nil => exact nomatch hc
    | cons d r =>
      obtain rfl := some.inj hc
      have hnot : pathStart (':' :: r) = false := rfl
      exact nomatch hr.symm.trans hnot
  unfold portOf
  split
  · rename_i c p
    have hnil : ∀ t, ':' :: c :: p = t ++ r → t ≠ [] := fun t ht he => hcolon (by
      rw [he,nil_append] at ht
      rw [← ht]
      rfl)
    by_cases hc : c.isDigit = true
    · rw [if_pos hc]
      constructor
      · intro heq
        rcases hl : portLoop 0 (c :: p) with _ | ⟨v,r'⟩ <;> rw [hl] at heq
        · exact nomatch heq
        dsimp only [bind_eq_bind,bind_some] at heq
        split at heq
        · exact nomatch heq
        · rename_i hv
          obtain ⟨rfl,rfl⟩ := Prod.mk.inj (some.inj heq)
          obtain ⟨ds,hcp,hds,-,hval,hle⟩ := (portLoop_iff (Nat.zero_le _)).mp hl
          refine ⟨':' :: ds,by rw [hcp]; rfl,.inr ⟨ds,rfl,fun hnone => ?_,hds,hval,by omega,hle⟩⟩
          rw [hnone,Nat.ofDigitChars_nil] at hval
          omega
      · rintro ⟨t,ht,⟨rfl,-⟩ | ⟨ds,rfl,-,hds,hval,hpos,hle⟩⟩
        · exact absurd rfl (hnil [] ht)
        · have htail : c :: p = ds ++ r := (List.cons.inj ht).2
          rw [(portLoop_iff (Nat.zero_le _)).mpr ⟨ds,htail,hds,hnoDigit,hval,hle⟩]
          dsimp only [bind_eq_bind,bind_some]
          rw [if_neg (by omega)]
    · rw [if_neg hc]
      refine ⟨nofun,fun ⟨t,ht,hport⟩ => ?_⟩
      rcases hport with ⟨rfl,-⟩ | ⟨ds,rfl,hne,hds,-⟩
      · exact absurd rfl (hnil [] ht)
      · have htail : c :: p = ds ++ r := (List.cons.inj ht).2
        cases ds with
        | nil => exact absurd rfl hne
        | cons d ds =>
          obtain ⟨rfl,-⟩ := List.cons.inj htail
          exact absurd (hds c mem_cons_self) hc
  · refine ⟨nofun,fun ⟨t,ht,hport⟩ => ?_⟩
    rcases hport with ⟨rfl,-⟩ | ⟨ds,rfl,hne,-⟩
    · rw [nil_append] at ht
      exact absurd (by rw [← ht]; rfl) hcolon
    · have htail : [] = ds ++ r := (List.cons.inj ht).2
      exact absurd (List.append_eq_nil_iff.mp htail.symm).1 hne
  · rename_i hdigits hlone
    constructor
    · intro heq
      obtain ⟨rfl,rfl⟩ := Prod.mk.inj (some.inj heq)
      exact ⟨[],rfl,.inl ⟨rfl,rfl⟩⟩
    · rintro ⟨t,rfl,⟨rfl,rfl⟩ | ⟨ds,rfl,hne,-⟩⟩
      · rfl
      · cases ds with
        | nil => exact absurd rfl hne
        | cons d ds => exact absurd rfl (hdigits d (ds ++ r))

lemma takeWhile_noHash {t r : List Char} (ht : '#' ∉ t) (hr : r = [] ∨ r.head? = some '#') :
    (t ++ r).takeWhile noHash = t ∧ (t ++ r).dropWhile noHash = r := by
  have hall : ∀ c ∈ t, noHash c = true := fun c hc => by
    unfold noHash
    exact decide_eq_true fun he => ht (he ▸ hc)
  have hstop : r.takeWhile noHash = [] ∧ r.dropWhile noHash = r := by
    rcases hr with rfl | hr
    · exact ⟨rfl,rfl⟩
    · cases r with
      | nil => exact nomatch hr
      | cons c r =>
        obtain rfl := some.inj hr
        exact ⟨rfl,rfl⟩
  rw [takeWhile_append_of_pos hall,dropWhile_append_of_pos hall,hstop.1,hstop.2,append_nil]
  exact ⟨rfl,rfl⟩

lemma noHash_split (p : List Char) : '#' ∉ p.takeWhile noHash ∧ (p.dropWhile noHash = [] ∨ (p.dropWhile noHash).head? = some '#') := by
  refine ⟨fun hmem => ?_,?_⟩
  · exact absurd (mem_takeWhile_imp hmem) (by decide)
  · cases hd : p.dropWhile noHash with
    | nil => exact .inl rfl
    | cons c r =>
      have hne : p.dropWhile noHash ≠ [] := by
        rw [hd]
        exact cons_ne_nil c r
      have hc := head_dropWhile_not noHash hne
      simp only [hd,head_cons] at hc
      unfold noHash at hc
      rw [decide_eq_false_iff_not,ne_eq,not_not] at hc
      exact .inr (congrArg some hc)

lemma pathOf_iff {p r path : List Char} (hp : pathStart p = true) :
    pathOf p = some (path,r) ↔ ∃ t, p = t ++ r ∧ PathText path t ∧ (r = [] ∨ r.head? = some '#') := by
  obtain ⟨hmem,hrest⟩ := noHash_split p
  have hparts := takeWhile_append_dropWhile (p := noHash) (l := p)
  have hunique : ∀ t, p = t ++ r → '#' ∉ t → (r = [] ∨ r.head? = some '#') → p.takeWhile noHash = t ∧ p.dropWhile noHash = r := fun t ht hno hr => by
    rw [ht]
    exact takeWhile_noHash hno hr
  unfold pathOf
  split
  · rename_i q
    unfold copyN
    have hhead : (('/' :: q).takeWhile noHash).head? = some '/' := rfl
    constructor
    · intro heq
      split at heq
      · exact nomatch heq
      · rename_i hlen
        obtain ⟨rfl,rfl⟩ := Prod.mk.inj (some.inj heq)
        exact ⟨_,hparts.symm,⟨hmem,by omega,.inr (.inl ⟨hhead,rfl⟩)⟩,hrest⟩
    · rintro ⟨t,ht,⟨hno,hlen,hcase⟩,hr⟩
      obtain ⟨rfl,rfl⟩ := hunique t ht hno hr
      rcases hcase with ⟨hnil,-⟩ | ⟨-,rfl⟩ | ⟨hq,-⟩
      · rw [hnil] at hhead
        exact nomatch hhead
      · rw [if_neg (by omega)]
        rfl
      · exact absurd (hhead.symm.trans hq) (by decide)
  · rename_i q
    have hhead : (('?' :: q).takeWhile noHash).head? = some '?' := rfl
    constructor
    · intro heq
      split at heq
      · exact nomatch heq
      · rename_i hlen
        obtain ⟨rfl,rfl⟩ := Prod.mk.inj (some.inj heq)
        exact ⟨_,hparts.symm,⟨hmem,by rw [length_cons]; omega,.inr (.inr ⟨hhead,rfl⟩)⟩,hrest⟩
    · rintro ⟨t,ht,⟨hno,hlen,hcase⟩,hr⟩
      obtain ⟨rfl,rfl⟩ := hunique t ht hno hr
      rcases hcase with ⟨hnil,-⟩ | ⟨hq,-⟩ | ⟨-,rfl⟩
      · rw [hnil] at hhead
        exact nomatch hhead
      · exact absurd (hhead.symm.trans hq) (by decide)
      · rw [length_cons] at hlen
        rw [if_neg (by omega)]
  · rename_i hslash hquery
    have hstart : p = [] ∨ p.head? = some '#' := by
      cases p with
      | nil => exact .inl rfl
      | cons c q =>
        unfold pathStart at hp
        simp only [Bool.or_eq_true,decide_eq_true_eq] at hp
        rcases hp with (rfl | rfl) | rfl
        · exact absurd rfl (hslash q)
        · exact absurd rfl (hquery q)
        · exact .inr rfl
    obtain ⟨htake,hdrop⟩ := takeWhile_noHash (t := []) (r := p) nofun hstart
    rw [nil_append] at htake hdrop
    constructor
    · intro heq
      obtain ⟨rfl,rfl⟩ := Prod.mk.inj (some.inj heq)
      exact ⟨[],rfl,⟨nofun,by decide,.inl ⟨rfl,rfl⟩⟩,hstart⟩
    · rintro ⟨t,ht,⟨hno,-,hcase⟩,hr⟩
      obtain ⟨hnil,hdropped⟩ := hunique t ht hno hr
      rw [htake] at hnil
      rw [hdrop] at hdropped
      subst hnil
      rcases hcase with ⟨-,rfl⟩ | ⟨hq,-⟩ | ⟨hq,-⟩
      · rw [hdropped]
      · exact nomatch hq
      · exact nomatch hq

lemma fragOf_iff {p frag : List Char} (hp : p = [] ∨ p.head? = some '#') : fragOf p = some frag ↔ FragText frag p := by
  unfold fragOf FragText
  split
  · rename_i q
    unfold copyN
    constructor
    · intro heq
      split at heq
      · exact nomatch heq
      · obtain rfl := some.inj heq
        exact ⟨by omega,.inr rfl⟩
    · rintro ⟨hlen,⟨hnil,-⟩ | heq⟩
      · exact nomatch hnil
      · obtain rfl := (List.cons.inj heq).2
        rw [if_neg (by omega)]
  · rename_i hhash
    have hnil : p = [] := hp.resolve_right fun hhead => by
      cases p with
      | nil => exact nomatch hhead
      | cons c q => exact hhash q (by rw [some.inj hhead])
    subst hnil
    constructor
    · intro heq
      exact ⟨by rw [← some.inj heq]; decide,.inl ⟨rfl,(some.inj heq).symm⟩⟩
    · rintro ⟨-,⟨-,rfl⟩ | heq⟩
      · rfl
      · exact nomatch heq

lemma pathStart_texts {path t frag f : List Char} (ht : PathText path t) (hf : FragText frag f) :
    pathStart (t ++ f) = true ∧ (f = [] ∨ f.head? = some '#') := by
  have hfrag : f = [] ∨ f.head? = some '#' := hf.2.imp And.left fun h => by
    rw [h]
    rfl
  refine ⟨?_,hfrag⟩
  rcases ht.2.2 with ⟨rfl,-⟩ | ⟨hhead,-⟩ | ⟨hhead,-⟩
  · cases f with
    | nil => rfl
    | cons c f =>
      obtain rfl := some.inj (hfrag.resolve_left (cons_ne_nil c f))
      rfl
  · cases t with
    | nil => exact nomatch hhead
    | cons c t =>
      obtain rfl := some.inj hhead
      rfl
  · cases t with
    | nil => exact nomatch hhead
    | cons c t =>
      obtain rfl := some.inj hhead
      rfl

lemma stops_texts {n : ℕ} {t r : List Char} (ht : PortText scheme n t) (hr : pathStart r = true) : Stops (t ++ r) := by
  rcases ht with ⟨rfl,-⟩ | ⟨ds,rfl,-⟩
  · intro c hc
    cases r with
    | nil => exact nomatch hc
    | cons d r =>
      obtain rfl := some.inj hc
      unfold pathStart at hr
      simp only [Bool.or_eq_true,decide_eq_true_eq] at hr
      rcases hr with (rfl | rfl) | rfl <;> rfl
  · intro c hc
    obtain rfl := some.inj hc
    rfl

lemma urlParse_iff (s : List Char) (u : Url) : urlParse s = some u ↔ Spells u s := by
  unfold urlParse
  constructor
  · intro h
    rcases hs : schemeOf s with _ | ⟨scheme,p₁⟩ <;> rw [hs] at h
    · exact nomatch h
    dsimp only [bind_eq_bind,bind_some] at h
    rcases hh : hostOf p₁ with _ | ⟨host,p₂⟩ <;> rw [hh] at h
    · exact nomatch h
    dsimp only [bind_some] at h
    rcases hp : portOf scheme.port p₂ with _ | ⟨port,p₃⟩ <;> rw [hp] at h
    · exact nomatch h
    dsimp only [bind_some] at h
    split at h
    · exact nomatch h
    rename_i hstart
    rw [Bool.not_eq_false] at hstart
    rcases ht : pathOf p₃ with _ | ⟨path,p₄⟩ <;> rw [ht] at h
    · exact nomatch h
    dsimp only [bind_some] at h
    rcases hf : fragOf p₄ with _ | frag <;> rw [hf] at h
    · exact nomatch h
    obtain rfl := some.inj h
    obtain ⟨sch,rfl,hsch⟩ := schemeOf_iff.mp hs
    obtain ⟨rfl,hhost,hstops⟩ := hostOf_iff.mp hh
    obtain ⟨portText,rfl,hport⟩ := (portOf_iff hstart hstops).mp hp
    obtain ⟨pathText,rfl,hpath,hrest⟩ := (pathOf_iff hstart).mp ht
    exact ⟨⟨sch,portText,pathText,p₄,rfl,hsch,hport,hpath,(fragOf_iff hrest).mp hf⟩,hhost⟩
  · rintro ⟨⟨sch,portText,pathText,fragText,rfl,hsch,hport,hpath,hfrag⟩,hhost⟩
    obtain ⟨hstart,hrest⟩ := pathStart_texts hpath hfrag
    have hstops := stops_texts hport hstart
    rw [schemeOf_iff.mpr ⟨sch,rfl,hsch⟩]
    dsimp only [bind_eq_bind,bind_some]
    rw [hostOf_iff.mpr ⟨rfl,hhost,hstops⟩]
    dsimp only [bind_some]
    rw [(portOf_iff hstart hstops).mpr ⟨portText,rfl,hport⟩]
    dsimp only [bind_some]
    rw [if_neg (by rw [hstart]; decide),(pathOf_iff hstart).mpr ⟨pathText,rfl,hpath,hrest⟩]
    dsimp only [bind_some]
    rw [(fragOf_iff hrest).mpr hfrag]
    rfl

lemma PathText.head {path t : List Char} (h : PathText path t) : path.head? = some '/' ∧ '#' ∉ path := by
  obtain ⟨hno,-,⟨rfl,rfl⟩ | ⟨hhead,rfl⟩ | ⟨-,rfl⟩⟩ := h
  · exact ⟨rfl,by decide⟩
  · exact ⟨hhead,hno⟩
  · exact ⟨rfl,fun hmem => (List.mem_cons.mp hmem).elim (by decide) hno⟩

lemma PortText.range {n : ℕ} {t : List Char} (h : PortText scheme n t) : 1 ≤ n ∧ n ≤ 65535 := by
  rcases h with ⟨-,rfl⟩ | ⟨ds,-,-,-,-,hpos,hle⟩
  · cases scheme <;> decide
  · exact ⟨hpos,hle⟩

lemma urlParse_rebuild {s : List Char} {u : Url} (h : urlParse s = some u) : urlParse (rebuild u) = some u := by
  obtain ⟨⟨sch,portText,pathText,fragText,-,-,hport,hpath,hfrag⟩,hhost⟩ := (urlParse_iff s u).mp h
  obtain ⟨hpos,hle⟩ := hport.range
  obtain ⟨hhead,hno⟩ := hpath.head
  refine (urlParse_iff _ u).mpr ⟨⟨u.scheme.text,':' :: Nat.toDigits 10 u.port,u.path,_,rfl,text_lower _,.inr ⟨_,rfl,Nat.toDigits_ne_nil,fun c hc => ?_,?_,hpos,hle⟩,
    ⟨hno,hpath.2.1,.inr (.inl ⟨hhead,rfl⟩)⟩,hfrag.1,?_⟩,hhost⟩
  · exact Nat.isDigit_of_mem_toDigits (by decide) (by decide) hc
  · exact Nat.ofDigitChars_ten_toDigits
  · by_cases hempty : u.frag = []
    · rw [if_pos hempty]
      exact .inl ⟨rfl,hempty⟩
    · rw [if_neg hempty]
      exact .inr rfl

lemma hostEq_iff {n : ℕ} {a b : List Char} (ha : a.length < n) (hb : b.length < n) : hostEq n a b = true ↔ a = b := by
  induction n generalizing a b with
  | zero => omega
  | succ n ih =>
    cases a with
    | nil =>
      cases b with
      | nil => exact ⟨fun _ => rfl,fun _ => rfl⟩
      | cons d b => exact ⟨nofun,nofun⟩
    | cons c a =>
      cases b with
      | nil => exact ⟨nofun,nofun⟩
      | cons d b =>
        rw [length_cons] at ha hb
        unfold hostEq
        by_cases hc : c = d
        · rw [if_neg (not_not.mpr hc),ih (by omega) (by omega),List.cons.injEq]
          exact ⟨fun h => ⟨hc,h⟩,And.right⟩
        · rw [if_pos hc]
          exact ⟨nofun,fun h => absurd (List.cons.inj h).1 hc⟩

/-- Two accepted URLs of the same scheme, host (in any case) and port. -/
def SameOrigin (s t : List Char) : Prop :=
  ∃ u v, urlParse s = some u ∧ urlParse t = some v ∧ u.scheme = v.scheme ∧ u.host.map Char.toLower = v.host.map Char.toLower ∧ u.port = v.port

lemma originEq_iff (s t : List Char) : originEq s t = true ↔ SameOrigin s t := by
  have hlower (u : Url) (r : List Char) (h : urlParse r = some u) :
      (u.host.take 255).map Char.toLower = u.host.map Char.toLower ∧ (u.host.map Char.toLower).length < 256 := by
    have hlen := ((urlParse_iff r u).mp h).host.2.1
    rw [take_of_length_le (by omega),length_map]
    exact ⟨rfl,by omega⟩
  unfold originEq originParse SameOrigin
  rcases hs : urlParse s with _ | u
  · exact ⟨nofun,fun ⟨_,_,h,_⟩ => nomatch h⟩
  rcases ht : urlParse t with _ | v
  · exact ⟨nofun,fun ⟨_,_,_,h,_⟩ => nomatch h⟩
  obtain ⟨hu,hulen⟩ := hlower u s hs
  obtain ⟨hv,hvlen⟩ := hlower v t ht
  dsimp only [map_some]
  rw [hu,hv]
  constructor
  · intro h
    split at h
    · exact nomatch h
    · split at h
      · exact nomatch h
      · exact ⟨u,v,rfl,rfl,not_not.mp ‹_›,(hostEq_iff hulen hvlen).mp h,not_not.mp ‹_›⟩
  · rintro ⟨u',v',hu',hv',hscheme,hhost,hport⟩
    obtain rfl := some.inj hu'
    obtain rfl := some.inj hv'
    rw [if_neg (not_not.mpr hscheme),if_neg (not_not.mpr hport)]
    exact (hostEq_iff hulen hvlen).mpr hhost

/-- The grammar of `url_parse`, its round trip through the fields, and the comparison of origins. -/
theorem url_grammar : (∀ s u, urlParse s = some u ↔ Spells u s) ∧ (∀ s u, urlParse s = some u → urlParse (rebuild u) = some u) ∧
    (∀ s t, originEq s t = true ↔ SameOrigin s t) ∧ (∀ s u, urlParse s = some u → originEq s s = true) ∧
    (∀ s t, originEq s t = true → originEq t s = true) ∧ ∀ s t r, originEq s t = true → originEq t r = true → originEq s r = true := by
  refine ⟨urlParse_iff,fun _ _ => urlParse_rebuild,originEq_iff,fun s u h => (originEq_iff s s).mpr ⟨u,u,h,h,rfl,rfl,rfl⟩,fun s t h => ?_,fun s t r h h' => ?_⟩
  · obtain ⟨u,v,hu,hv,hscheme,hhost,hport⟩ := (originEq_iff s t).mp h
    exact (originEq_iff t s).mpr ⟨v,u,hv,hu,hscheme.symm,hhost.symm,hport.symm⟩
  · obtain ⟨u,v,hu,hv,hscheme,hhost,hport⟩ := (originEq_iff s t).mp h
    obtain ⟨v',w,hv',hw,hscheme',hhost',hport'⟩ := (originEq_iff t r).mp h'
    obtain rfl := some.inj (hv.symm.trans hv')
    exact (originEq_iff s r).mpr ⟨u,w,hu,hw,hscheme.trans hscheme',hhost.trans hhost',hport.trans hport'⟩

theorem url_grammar_short : urlParse (rebuild ⟨.http,80,['h'],['/'],[]⟩) = some ⟨.http,80,['h'],['/'],[]⟩ :=
  url_grammar.2.1 ['H','t','t','p',':','/','/','h'] _ (by rfl)

/-- `http://h:8080/` and `http://h:08080/#` have the same fields. -/
theorem urlParse_spellings : ∃ u, urlParse ['h','t','t','p',':','/','/','h',':','8','0','8','0','/'] = some u ∧
    urlParse ['h','t','t','p',':','/','/','h',':','0','8','0','8','0','/','#'] = some u :=
  ⟨⟨.http,8080,['h'],['/'],[]⟩,by rfl,by rfl⟩

end VibeOS.Url

import VibeOS.Dns.Message
import Mathlib.Data.List.TakeWhile

/-! What the resolver takes for an answer, and that a name comes back from its encoding. -/
namespace VibeOS.Dns
open VibeOS.Storage List Option

section
variable (limit : ℕ) (msg : List UInt8)

/-- A name from one offset to another, by labels of a length up to the limit. -/
inductive NameEnd : ℕ → ℕ → Prop
  | root {off : ℕ} (h : msg[off]? = some 0) : NameEnd off (off + 1)
  | pointer {off : ℕ} {b : UInt8} (h : msg[off]? = some b) (hb : 192 ≤ b.toNat) : NameEnd off (off + 2)
  | label {off e : ℕ} {b : UInt8} (h : msg[off]? = some b) (hpos : 0 < b.toNat) (hb : b.toNat ≤ limit)
      (hin : off + 1 + b.toNat ≤ msg.length) (rest : NameEnd (off + 1 + b.toNat) e) : NameEnd off e

inductive Questions : ℕ → ℕ → ℕ → Prop
  | done (off : ℕ) : Questions 0 off off
  | next {k off n e : ℕ} (name : NameEnd limit msg off n) (hin : n + 4 ≤ msg.length)
      (rest : Questions k (n + 4) e) : Questions (k + 1) off e

/-- A record whose name ends at `n` lies inside the message. -/
structure Record (off n : ℕ) : Prop where
  name : NameEnd limit msg off n
  fits : n + 10 + be16 msg (n + 8) ≤ msg.length

def IsAddress (n : ℕ) : Prop := be16 msg n = typeA ∧ be16 msg (n + 2) = classIn ∧ be16 msg (n + 8) = 4

inductive FirstAddress : ℕ → ℕ → List UInt8 → Prop
  | here {k off n : ℕ} (record : Record limit msg off n) (address : IsAddress msg n) :
      FirstAddress (k + 1) off ((msg.drop (n + 10)).take 4)
  | later {k off n : ℕ} {ip : List UInt8} (record : Record limit msg off n) (other : ¬IsAddress msg n)
      (rest : FirstAddress k (n + 10 + be16 msg (n + 8)) ip) : FirstAddress (k + 1) off ip

/-- The message is a response without an error, in full, that gives the address. -/
structure Answered (ip : List UInt8) : Prop where
  header : 12 ≤ msg.length
  response : isResponse (be16 msg 2) = true
  whole : isTruncated (be16 msg 2) = false
  noError : rcode (be16 msg 2) = 0
  found : ∃ off, Questions limit msg (be16 msg 4) 12 off ∧ FirstAddress limit msg (be16 msg 6) off ip

end

def maxLabel : ℕ := 63

/-- The largest byte that is no pointer for `skip_name`. -/
def maxLength : ℕ := 191

variable {msg : List UInt8} {off : ℕ}

lemma isPointer_iff (b : UInt8) : b &&& 0xC0 = 0xC0 ↔ 192 ≤ b.toNat := by
  have hall : ∀ i : Fin 256, UInt8.ofFin i &&& 0xC0 = 0xC0 ↔ 192 ≤ i.val := by decide +kernel
  exact hall b.toFin

lemma skipLabels_spec (msg : List UInt8) (left off : ℕ) :
    ∃ r, skipLabels msg left off = .ok r ∧ ∀ e, r = some e → NameEnd maxLength msg off e := by
  induction left generalizing off with
  | zero =>
    unfold skipLabels
    split_ifs with hoff
    · rw [fetch_of_lt hoff]
      have hget := getElem?_eq_getElem hoff
      simp only [bind,Except.bind]
      split_ifs with hptr hzero hlong
      · exact ⟨_,rfl,fun e he => by cases he; exact .pointer hget ((isPointer_iff _).mp hptr)⟩
      · exact ⟨_,rfl,fun e he => by cases he; exact .root (hzero ▸ hget)⟩
      · exact ⟨_,rfl,nofun⟩
      · exact ⟨_,rfl,nofun⟩
    · exact ⟨_,rfl,nofun⟩
  | succ left ih =>
    unfold skipLabels
    split_ifs with hoff
    · rw [fetch_of_lt hoff]
      have hget := getElem?_eq_getElem hoff
      simp only [bind,Except.bind]
      split_ifs with hptr hzero hlong
      · exact ⟨_,rfl,fun e he => by cases he; exact .pointer hget ((isPointer_iff _).mp hptr)⟩
      · exact ⟨_,rfl,fun e he => by cases he; exact .root (hzero ▸ hget)⟩
      · exact ⟨_,rfl,nofun⟩
      · obtain ⟨r,hr,hname⟩ := ih (off + 1 + msg[off].toNat)
        refine ⟨r,hr,fun e he => .label hget ?_ ?_ (by omega) (hname e he)⟩
        · exact Nat.pos_of_ne_zero fun h => hzero (UInt8.toNat_inj.mp h)
        · have := (isPointer_iff msg[off]).not.mp hptr
          unfold maxLength
          omega
    · exact ⟨_,rfl,nofun⟩

lemma skipQuestions_spec (msg : List UInt8) (qd off : ℕ) :
    ∃ r, skipQuestions msg qd off = .ok r ∧ ∀ e, r = some e → Questions maxLength msg qd off e := by
  induction qd generalizing off with
  | zero => exact ⟨_,rfl,fun e he => by cases he; exact .done off⟩
  | succ qd ih =>
    obtain ⟨r,hr,hname⟩ := skipLabels_spec msg 128 off
    unfold skipQuestions skipName
    rw [hr]
    cases r with
    | none => exact ⟨_,rfl,nofun⟩
    | some n =>
      simp only [bind,Except.bind]
      split_ifs with hin
      · exact ⟨_,rfl,nofun⟩
      · obtain ⟨r,hr,hrest⟩ := ih (n + 4)
        exact ⟨r,hr,fun e he => .next (hname n rfl) (not_lt.mp hin) (hrest e he)⟩

lemma take_four (h : off + 4 ≤ msg.length) :
    (msg.drop off).take 4 = [msg[off],msg[off + 1],msg[off + 2],msg[off + 3]] := by
  rw [drop_eq_getElem_cons (by omega),drop_eq_getElem_cons (by omega),drop_eq_getElem_cons (by omega),
    drop_eq_getElem_cons (by omega)]
  rfl

lemma findAddress_spec (msg : List UInt8) (an off : ℕ) :
    ∃ r, findAddress msg an off = .ok r ∧ ∀ ip, r = some ip → FirstAddress maxLength msg an off ip := by
  induction an generalizing off with
  | zero => exact ⟨_,rfl,nofun⟩
  | succ an ih =>
    obtain ⟨r,hr,hname⟩ := skipLabels_spec msg 128 off
    unfold findAddress skipName
    rw [hr]
    cases r with
    | none => exact ⟨_,rfl,nofun⟩
    | some n =>
      simp only [bind,Except.bind]
      split_ifs with hin
      · exact ⟨_,rfl,nofun⟩
      · rw [fetchBe16_of_lt (by omega),fetchBe16_of_lt (by omega),fetchBe16_of_lt (by omega)]
        dsimp only
        split_ifs with hfits haddress
        · exact ⟨_,rfl,nofun⟩
        · have hrecord : Record maxLength msg off n := ⟨hname n rfl,not_lt.mp hfits⟩
          have hfour : n + 10 + 4 ≤ msg.length := haddress.2.2 ▸ hrecord.fits
          rw [fetch_of_lt (by omega),fetch_of_lt (by omega),fetch_of_lt (by omega),fetch_of_lt (by omega)]
          refine ⟨_,rfl,fun ip hip => ?_⟩
          cases hip
          rw [← take_four hfour]
          exact .here hrecord haddress
        · obtain ⟨r,hr,hrest⟩ := ih (n + 10 + be16 msg (n + 8))
          exact ⟨r,hr,fun ip hip => .later ⟨hname n rfl,not_lt.mp hfits⟩ haddress (hrest ip hip)⟩

lemma parseAnswer_spec (msg : List UInt8) :
    ∃ r, parseAnswer msg = .ok r ∧ ∀ ip, r = some ip → Answered maxLength msg ip := by
  unfold parseAnswer
  split_ifs with hlen
  · exact ⟨_,rfl,nofun⟩
  · rw [fetchBe16_of_lt (by omega),fetchBe16_of_lt (by omega),fetchBe16_of_lt (by omega)]
    simp only [bind,Except.bind]
    by_cases hresponse : isResponse (be16 msg 2) = true
    · rw [if_neg (not_not.mpr hresponse)]
      split_ifs with htruncated hcode hnone
      · exact ⟨_,rfl,nofun⟩
      · exact ⟨_,rfl,nofun⟩
      · exact ⟨_,rfl,nofun⟩
      · obtain ⟨r,hr,hquestions⟩ := skipQuestions_spec msg (be16 msg 4) 12
        rw [hr]
        cases r with
        | none => exact ⟨_,rfl,nofun⟩
        | some off =>
          obtain ⟨r,hr,hfound⟩ := findAddress_spec msg (be16 msg 6) off
          refine ⟨r,hr,fun ip hip => ⟨not_lt.mp hlen,hresponse,Bool.eq_false_iff.mpr htruncated,not_not.mp hcode,off,
            hquestions off rfl,hfound ip hip⟩⟩
    · rw [if_pos hresponse]
      exact ⟨_,rfl,nofun⟩

def decodeLabels : ℕ → List UInt8 → List (List UInt8)
  | 0, _ => []
  | _, [] => []
  | fuel + 1, b :: rest => if b = 0 then [] else rest.take b.toNat :: decodeLabels fuel (rest.drop b.toNat)

def decodeQname (enc : List UInt8) : List (List UInt8) := decodeLabels enc.length enc

def joinLabels (labels : List (List UInt8)) : List UInt8 := [dot].intercalate labels

def unrooted (name : List UInt8) : List UInt8 := if name.getLast? = some dot then name.dropLast else name

def wire (labels : List (List UInt8)) : List UInt8 := labels.flatMap fun label => UInt8.ofNat label.length :: label

def LabelOk (label : List UInt8) : Prop := 0 < label.length ∧ label.length ≤ maxLabel

variable {label : List UInt8}

lemma LabelOk.toNat (h : LabelOk label) : (UInt8.ofNat label.length).toNat = label.length := by
  have := h.2
  unfold maxLabel at this
  rw [UInt8.toNat_ofNat']
  omega

lemma unrooted_cons {rest : List UInt8} (h : rest ≠ []) :
    unrooted (label ++ dot :: rest) = label ++ dot :: unrooted rest := by
  have hlast : (label ++ dot :: rest).getLast? = rest.getLast? := by
    rw [getLast?_append_of_ne_nil _ (cons_ne_nil _ _),getLast?_cons_of_ne_nil h]
  unfold unrooted
  rw [hlast]
  split_ifs
  · rw [dropLast_append_of_ne_nil (cons_ne_nil _ _),dropLast_cons_of_ne_nil h]
  · rfl

lemma unrooted_of_notMem (h : dot ∉ label) : unrooted label = label := by
  unfold unrooted
  rw [if_neg fun hlast => h (mem_of_getLast? hlast)]

lemma unrooted_dot (label : List UInt8) : unrooted (label ++ [dot]) = label := by
  simp [unrooted]

lemma label_split (q : List UInt8) : ∃ label rest, q.takeWhile (· ≠ dot) = label ∧ dot ∉ label ∧
    q.drop (label.length + 1) = rest ∧ (q = label ∧ rest = [] ∨ q = label ++ dot :: rest) := by
  have hsplit := takeWhile_append_dropWhile (p := fun x => decide (x ≠ dot)) (l := q)
  have hnot : dot ∉ q.takeWhile (· ≠ dot) := fun hmem => by simpa using mem_takeWhile_imp hmem
  refine ⟨q.takeWhile (· ≠ dot),_,rfl,hnot,rfl,?_⟩
  have hhead := head?_dropWhile_not (fun x => decide (x ≠ dot)) q
  generalize q.takeWhile (fun x => decide (x ≠ dot)) = label at hsplit
  cases hd : q.dropWhile fun x => decide (x ≠ dot) with
  | nil =>
    rw [hd,append_nil] at hsplit
    subst hsplit
    exact .inl ⟨rfl,drop_eq_nil_of_le (by omega)⟩
  | cons d rest =>
    rw [hd] at hhead hsplit
    obtain rfl : d = dot := by simpa using hhead
    subst hsplit
    right
    rw [List.drop_append]
    simp

lemma encodeLabels_spec {cap fuel : ℕ} {p buf enc : List UInt8} (h : encodeLabels cap fuel p buf = some enc) :
    ∃ labels, enc = buf ++ wire labels ++ [0] ∧ (∀ label ∈ labels, LabelOk label) ∧ (p = [] → labels = []) ∧
      (p ≠ [] → labels ≠ [] ∧ joinLabels labels = unrooted p) := by
  induction fuel generalizing p buf with
  | zero =>
    cases p with
    | nil =>
      unfold encodeLabels at h
      split_ifs at h
      cases h
      exact ⟨[],by simp [wire],nofun,fun _ => rfl,fun hne => absurd rfl hne⟩
    | cons b p => cases h
  | succ fuel ih =>
    cases p with
    | nil =>
      unfold encodeLabels at h
      split_ifs at h
      cases h
      exact ⟨[],by simp [wire],nofun,fun _ => rfl,fun hne => absurd rfl hne⟩
    | cons b p =>
      unfold encodeLabels at h
      dsimp only at h
      generalize b :: p = q at h
      obtain ⟨label,rest,hlabel,hnot,hrest,hq⟩ := label_split q
      rw [hlabel,hrest] at h
      split_ifs at h with hbad hroom
      obtain ⟨labels,henc,hok,hnil,hjoin⟩ := ih h
      obtain ⟨hpos,hmax⟩ := not_or.mp hbad
      refine ⟨label :: labels,?_,fun l hl => ?_,fun hq' => ?_,fun _ => ⟨cons_ne_nil _ _,?_⟩⟩
      · rw [henc]
        simp [wire]
      · obtain rfl | hl := List.mem_cons.mp hl
        · exact ⟨Nat.pos_of_ne_zero hpos,not_lt.mp hmax⟩
        · exact hok l hl
      · obtain ⟨rfl,-⟩ | rfl := hq
        · exact absurd (congrArg List.length hq') hpos
        · simp at hq'
      -- nothing follows the label, or a dot at the end, or a dot and more labels
      · obtain ⟨rfl,rfl⟩ | rfl := hq
        · rw [hnil rfl,unrooted_of_notMem hnot]
          exact intercalate_singleton
        · cases rest with
          | nil =>
            rw [hnil rfl,unrooted_dot]
            exact intercalate_singleton
          | cons x rest =>
            obtain ⟨hne,hjoin⟩ := hjoin (cons_ne_nil x rest)
            rw [unrooted_cons (cons_ne_nil x rest),← hjoin,joinLabels,intercalate_cons_of_ne_nil hne]
            simp [joinLabels]

lemma decodeLabels_wire {labels : List (List UInt8)} (hok : ∀ label ∈ labels, LabelOk label) {fuel : ℕ}
    (hfuel : labels.length < fuel) : decodeLabels fuel (wire labels ++ [0]) = labels := by
  induction labels generalizing fuel with
  | nil =>
    obtain ⟨fuel,rfl⟩ := Nat.exists_eq_add_one_of_ne_zero (by omega : fuel ≠ 0)
    rfl
  | cons label labels ih =>
    obtain ⟨fuel,rfl⟩ := Nat.exists_eq_add_one_of_ne_zero (by omega : fuel ≠ 0)
    have hlabel := hok label mem_cons_self
    have hne : UInt8.ofNat label.length ≠ 0 := fun h => by
      have := hlabel.toNat
      rw [h] at this
      have := hlabel.1
      simp_all
    have hsplit : wire (label :: labels) ++ [0] = UInt8.ofNat label.length :: (label ++ (wire labels ++ [0])) := by
      simp [wire]
    rw [hsplit,decodeLabels,if_neg hne,hlabel.toNat,take_left,drop_left,
      ih (fun l hl => hok l (mem_cons_of_mem _ hl)) (by rw [length_cons] at hfuel; omega)]

lemma length_le_wire (labels : List (List UInt8)) : labels.length ≤ (wire labels).length := by
  induction labels with
  | nil => exact le_rfl
  | cons label labels ih =>
    simp only [wire,flatMap_cons,length_append,length_cons] at ih ⊢
    omega

lemma skipLabels_wire {labels : List (List UInt8)} (hok : ∀ label ∈ labels, LabelOk label) {left : ℕ}
    (hleft : labels.length ≤ left) (pre post : List UInt8) :
    skipLabels (pre ++ (wire labels ++ [0]) ++ post) left pre.length
      = .ok (some (pre.length + (wire labels ++ [0]).length)) := by
  induction labels generalizing left pre with
  | nil =>
    have hmsg : pre ++ (wire [] ++ [0]) ++ post = pre ++ 0 :: post := by simp [wire]
    have hget : (pre ++ 0 :: post)[pre.length]? = some 0 := by simp
    unfold skipLabels
    rw [hmsg,if_pos (by simp),fetch_eq_ok.mpr hget]
    rfl
  | cons label labels ih =>
    obtain ⟨left,rfl⟩ := Nat.exists_eq_add_one_of_ne_zero
      (by rw [length_cons] at hleft; omega : left ≠ 0)
    have hlabel := hok label mem_cons_self
    have hmsg : pre ++ (wire (label :: labels) ++ [0]) ++ post
        = (pre ++ UInt8.ofNat label.length :: label) ++ (wire labels ++ [0]) ++ post := by
      simp [wire]
    have hget : ((pre ++ UInt8.ofNat label.length :: label) ++ (wire labels ++ [0]) ++ post)[pre.length]?
        = some (UInt8.ofNat label.length) := by simp
    have hnext := ih (fun l hl => hok l (mem_cons_of_mem _ hl)) (Nat.le_of_succ_le_succ hleft)
      (pre ++ UInt8.ofNat label.length :: label)
    have hptr : ¬UInt8.ofNat label.length &&& 0xC0 = 0xC0 := by
      rw [isPointer_iff,hlabel.toNat]
      have := hlabel.2
      unfold maxLabel at this
      omega
    have hzero : UInt8.ofNat label.length ≠ 0 := fun h => by
      have := hlabel.toNat
      rw [h] at this
      have := hlabel.1
      simp_all
    have hend : (pre ++ UInt8.ofNat label.length :: label).length = pre.length + 1 + label.length := by
      simp
      omega
    unfold skipLabels
    rw [hmsg,if_pos (by simp),fetch_eq_ok.mpr hget]
    simp only [bind,Except.bind]
    rw [if_neg hptr,if_neg hzero,hlabel.toNat,if_neg (by simp; omega),← hend,hnext,hend]
    simp [wire]
    omega

lemma encodeQname_spec {cap : ℕ} {name enc : List UInt8} (h : encodeQname cap name = some enc) :
    joinLabels (decodeQname enc) = unrooted name ∧ ((decodeQname enc).length ≤ 128 → ∀ pre post,
      skipName (pre ++ enc ++ post) pre.length = .ok (some (pre.length + enc.length))) := by
  unfold encodeQname at h
  split_ifs at h with hname
  obtain ⟨labels,henc,hok,-,hjoin⟩ := encodeLabels_spec h
  rw [nil_append] at henc
  subst henc
  have hdecode : decodeQname (wire labels ++ [0]) = labels := by
    refine decodeLabels_wire hok ?_
    have := length_le_wire labels
    rw [length_append,length_singleton]
    omega
  rw [hdecode]
  exact ⟨(hjoin hname).2,fun hleft pre post => skipLabels_wire hok hleft pre post⟩

def Parses (limit : ℕ) (msg : Message) : Prop :=
  ∃ r, parseAnswer msg.val = .ok r ∧ ∀ ip, r = some ip → Answered limit msg.val ip

/-- Over a name anywhere in a message there is no read outside either. -/
def Skips (limit : ℕ) (msg : Message) : Prop :=
  ∀ off, ∃ r, skipName msg.val off = .ok r ∧ ∀ e, r = some e → NameEnd limit msg.val off e

def SkipsName (enc : List UInt8) : Prop := ∀ pre post,
  skipName (pre ++ enc ++ post) pre.length = .ok (some (pre.length + enc.length))

/-- What the resolver does with messages and names. Any length byte that is no pointer counts as a label. -/
theorem dns_parsing (msg : Message) (cap : ℕ) (name : List UInt8) :
    Parses maxLength msg ∧ Skips maxLength msg ∧ ∀ enc, encodeQname cap name = some enc →
      joinLabels (decodeQname enc) = unrooted name ∧ ((decodeQname enc).length ≤ 128 → SkipsName enc) :=
  ⟨parseAnswer_spec msg.val,skipLabels_spec msg.val 128,fun _ h => encodeQname_spec h⟩

def longLabel : Message :=
  ⟨[0,1,0x80,0,0,0,0,1,0,0,0,0] ++ 64 :: replicate 64 120 ++ [0,0,1,0,1,0,0,0,0,0,4,10,0,2,2],by decide⟩

lemma longLabel_not_parsed : ¬Parses maxLabel longLabel := by
  rintro ⟨r,hr,hanswer⟩
  have hfound : parseAnswer longLabel.val = .ok (some [10,0,2,2]) := by decide
  rw [hfound] at hr
  cases hr
  obtain ⟨off,hquestions,haddress⟩ := (hanswer _ rfl).found
  have hqd : be16 longLabel.val 4 = 0 := by decide
  rw [hqd] at hquestions
  cases hquestions
  have hbyte : longLabel.val[12]? = some 64 := by decide
  have hname : ∀ e, ¬NameEnd maxLabel longLabel.val 12 e := by
    intro e h
    cases h with
    | root h =>
      rw [hbyte] at h
      cases h
    | pointer h hb | label h _ hb =>
      rw [hbyte] at h
      cases h
      exact absurd hb (by decide)
  have hcount : be16 longLabel.val 6 = 1 := by decide
  rw [hcount] at haddress
  have hnone : ∀ ip, ¬FirstAddress maxLabel longLabel.val 1 12 ip := by
    intro ip h
    cases h with
    | here record | later record => exact hname _ record.name
  exact hnone _ haddress

/-- `a.` -/
def rooted : List UInt8 := [97,dot]

def manyLabels : List UInt8 := joinLabels (replicate 129 [97])

/-- Labels of 64 bytes are taken, the dot at the end of a name is lost, and a name can be too long to be skipped. -/
theorem dns_parsing_differs : ¬(∀ msg, Parses maxLabel msg) ∧
    (¬∀ name enc, encodeQname 496 name = some enc → joinLabels (decodeQname enc) = name) ∧
    ¬∀ name enc, encodeQname 496 name = some enc → SkipsName enc := by
  refine ⟨fun h => longLabel_not_parsed (h longLabel),fun h => ?_,fun h => ?_⟩
  · have henc : encodeQname 496 rooted = some [1,97,0] := by decide
    exact absurd (h _ _ henc) (by decide)
  · obtain ⟨enc,henc⟩ := Option.isSome_iff_exists.mp (by decide +kernel : (encodeQname 496 manyLabels).isSome = true)
    have hskip := h _ _ henc [] []
    have hlong : (encodeQname 496 manyLabels).map (fun enc => skipName ([] ++ enc ++ []) 0) = some (.ok none) := by
      decide +kernel
    rw [henc,map_some] at hlong
    rw [length_nil,some.inj hlong] at hskip
    cases hskip

end VibeOS.Dns

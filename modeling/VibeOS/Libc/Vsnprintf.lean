import VibeOS.Libc.Conversions

/-! `vsnprintf` over a whole format, against C99. -/
namespace VibeOS.Printf
open List Option

section
variable {buf : Option (ℕ → Char)} {cap : ℕ} {out : List Char} {st : List (BitVec 64 × ℤ)} {s : FmtSink}

lemma Directive.resolve_some {d : Directive} {args args' : List Arg} {r : Request} (h : d.resolve args = some (r,args')) :
    ∃ args₁, d.resolveWidth args = some ((r.flags,r.width),args₁) ∧ d.resolvePrec args₁ = some (r.prec,r.arg :: args') ∧
      r.length = d.length ∧ r.conv = d.conv := by
  simp only [Directive.resolve,bind_eq_bind,bind_eq_some_iff,Prod.exists] at h
  obtain ⟨fs,w,args₁,hwidth,prec,args₂,hprec,h⟩ := h
  cases args₂ with
  | nil => exact nomatch h
  | cons arg args₂ =>
    simp only [some.injEq,Prod.mk.injEq] at h
    obtain ⟨rfl,rfl⟩ := h
    exact ⟨args₁,hwidth,hprec,rfl,rfl⟩

lemma fmtDirective_spec {d : Directive} (hd : d.WellFormed) {args args' : List Arg} {r : Request} (hres : d.resolve args = some (r,args'))
    (hserved : r.Served) {t : List Char} {st' : List (BitVec 64 × ℤ)} (hout : r.output out.length = some (t,st')) (hlen : out.length < 2^31)
    (h : Sent buf cap out st s) (rest : List Char) :
    ∃ s', fmtDirective s (d.text ++ rest) args = some (s',rest,args') ∧ Sent buf cap (out ++ t) (st ++ st') s' := by
  obtain ⟨args₁,hwidth,hprec,hlength,hconv⟩ := Directive.resolve_some hres
  have htext : d.text ++ rest = d.flags.map Flag.char ++ d.fromWidth rest := by
    simp only [Directive.text,Directive.fromWidth,append_assoc,singleton_append]
  have hflags := takeFlags_text d.flags ⟨false,false,false,false,false⟩ (d.fromWidth_head hd rest)
  simp only [Bool.false_or] at hflags
  obtain ⟨left,htake,hf⟩ := takeWidth_spec hd (Flags.Are.settle d.flags) hwidth hserved.1 rest
  obtain ⟨s',hs',hsent⟩ := fmtConvert_spec hf hserved hout hlen h args'
  refine ⟨s',?_,hsent⟩
  rw [fmtDirective,htext,hflags]
  dsimp only
  rw [htake,bind_eq_bind,bind_some]
  dsimp only
  rw [takePrec_spec hd hprec hserved.2.1 rest,bind_eq_bind,bind_some]
  dsimp only
  rw [takeLength_spec]
  dsimp only
  rw [← hlength,← hconv,hs']
  rfl

lemma fmtDirective_percent (s : FmtSink) (rest : List Char) (args : List Arg) :
    fmtDirective s ('%' :: rest) args = some (fmtEmit s '%',rest,args) := rfl

lemma c99Output_extends {ps : List Piece} {out out' : List Char} {st : List (BitVec 64 × ℤ)} (h : c99Output ps out = some (out',st)) :
    out.length ≤ out'.length := by
  induction ps generalizing out st with
  | nil =>
    simp only [c99Output,some.injEq,Prod.mk.injEq] at h
    rw [h.1]
  | cons p ps ih =>
    cases p with
    | plain c =>
      have hle := ih h
      rw [length_append] at hle
      omega
    | request r =>
      obtain ⟨⟨t,st₁⟩,-,hrest⟩ := Option.bind_eq_some_iff.mp h
      obtain ⟨⟨out₂,st₂⟩,hps,heq⟩ := Option.map_eq_some_iff.mp hrest
      obtain ⟨rfl,-⟩ := Prod.mk.inj heq
      have hle := ih hps
      rw [length_append] at hle
      omega

def formatText (items : List Item) : List Char := items.flatMap Item.text

lemma fmtLoop_spec {items : List Item} (hwf : ∀ i ∈ items, i.WellFormed) {args : List Arg} {ps : List Piece} (hres : resolveAll items args = some ps)
    (hserved : ∀ r, .request r ∈ ps → r.Served) {out' : List Char} {st' : List (BitVec 64 × ℤ)} (hout : c99Output ps out = some (out',st'))
    (hlen : out'.length < 2^31) (h : Sent buf cap out st s) {fuel : ℕ} (hfuel : (formatText items).length ≤ fuel) :
    ∃ s', fmtLoop fuel s (formatText items) args = some s' ∧ Sent buf cap out' (st ++ st') s' := by
  induction items generalizing args ps out st st' s fuel with
  | nil =>
    obtain rfl : [] = ps := some.inj hres
    simp only [c99Output,some.injEq,Prod.mk.injEq] at hout
    obtain ⟨rfl,rfl⟩ := hout
    refine ⟨s,?_,?_⟩
    · cases fuel <;> rfl
    · rw [append_nil]
      exact h
  | cons item items ih =>
    obtain ⟨hitem,hitems⟩ := List.forall_mem_cons.mp hwf
    rw [formatText,flatMap_cons,length_append] at hfuel
    change item.text.length + (formatText items).length ≤ fuel at hfuel
    cases item with
    | plain c =>
      obtain ⟨ps',hps,rfl⟩ := Option.map_eq_some_iff.mp hres
      have htext : (Item.plain c).text.length = 1 := rfl
      obtain ⟨fuel,rfl⟩ := Nat.exists_eq_add_of_le' (by omega : 1 ≤ fuel)
      obtain ⟨s',hs',hsent⟩ := ih hitems hps (fun r hr => hserved r (mem_cons_of_mem _ hr)) hout (h.emit c)
        (by omega : (formatText items).length ≤ fuel)
      refine ⟨s',?_,hsent⟩
      rw [← hs']
      change fmtLoop (fuel+1) s (c :: formatText items) args = _
      have hne : c ≠ '%' := hitem.1
      rw [fmtLoop,if_pos hne]
    | percent =>
      obtain ⟨ps',hps,rfl⟩ := Option.map_eq_some_iff.mp hres
      have htext : Item.percent.text.length = 2 := rfl
      obtain ⟨fuel,rfl⟩ := Nat.exists_eq_add_of_le' (by omega : 1 ≤ fuel)
      obtain ⟨s',hs',hsent⟩ := ih hitems hps (fun r hr => hserved r (mem_cons_of_mem _ hr)) hout (h.emit '%')
        (by omega : (formatText items).length ≤ fuel)
      refine ⟨s',?_,hsent⟩
      rw [← hs']
      change fmtLoop (fuel+1) s ('%' :: '%' :: formatText items) args = _
      rw [fmtLoop,if_neg (not_not_intro rfl),fmtDirective_percent]
      rfl
    | directive d =>
      obtain ⟨⟨r,args'⟩,hd,hrest⟩ := Option.bind_eq_some_iff.mp hres
      obtain ⟨ps',hps,rfl⟩ := Option.map_eq_some_iff.mp hrest
      obtain ⟨⟨t,st₁⟩,ht,hrest⟩ := Option.bind_eq_some_iff.mp hout
      obtain ⟨⟨out₂,st₂⟩,hps',heq⟩ := Option.map_eq_some_iff.mp hrest
      simp only [Prod.mk.injEq] at heq
      obtain ⟨rfl,rfl⟩ := heq
      have hle := c99Output_extends hps'
      rw [length_append] at hle
      have htext : (Item.directive d).text.length = d.text.length + 1 := rfl
      obtain ⟨fuel,rfl⟩ := Nat.exists_eq_add_of_le' (by omega : 1 ≤ fuel)
      obtain ⟨s₁,hs₁,hsent₁⟩ := fmtDirective_spec hitem hd (hserved r mem_cons_self) ht (by omega) h (formatText items)
      obtain ⟨s',hs',hsent⟩ := ih hitems hps (fun r hr => hserved r (mem_cons_of_mem _ hr)) hps' hsent₁
        (by omega : (formatText items).length ≤ fuel)
      refine ⟨s',?_,?_⟩
      · rw [← hs']
        change fmtLoop (fuel+1) s ('%' :: (d.text ++ formatText items)) args = _
        rw [fmtLoop,if_neg (not_not_intro rfl),hs₁]
        rfl
      · rw [← append_assoc]
        exact hsent

def c99Memory (m : ℕ → Char) (cap : ℕ) (out : List Char) : ℕ → Char := if cap = 0 then m else filled m (out.take (cap - 1) ++ ['\x00'])

/-- The call returns the length of the output, leaves the memory at the buffer as it should, writes to no descriptor, and stores
what `%n` says. -/
structure Conforms (buf : Option (ℕ → Char)) (cap : ℕ) (out : List Char) (stored : List (BitVec 64 × ℤ)) (result : FmtSink × ℤ) : Prop where
  value : result.2 = out.length
  memory : ∀ m, buf = some m → result.1.buf = some (c99Memory m cap out)
  silent : result.1.writes = []
  stores : result.1.stored = stored

lemma Sent.finish_buffer {m : ℕ → Char} (h : Sent (some m) cap out st s) :
    (fmtFinish s).buf = some (c99Memory m cap out) ∧ (fmtFinish s).writes = [] ∧ (fmtFinish s).stored = st := by
  obtain ⟨hbuf,hused,hwrites⟩ := h.kept m rfl
  have hsize := h.size
  have hflush : fmtFlush s = s := if_neg fun hn => by
    rw [hbuf] at hn
    exact nomatch hn.1
  rw [fmtFinish,hflush]
  simp only [hbuf]
  by_cases hcap : 0 < s.cap
  · have hat : (if s.used < s.cap then s.used else s.cap - 1) = (out.take (cap - 1)).length := by
      rw [length_take,if_pos (by omega),hused]
    rw [if_pos hcap,hat,filled_concat,c99Memory,if_neg (by omega)]
    exact ⟨rfl,hwrites,h.stored⟩
  · have hzero : cap = 0 := by omega
    rw [if_neg hcap,c99Memory,if_pos hzero]
    rw [hzero] at hbuf
    exact ⟨hbuf,hwrites,h.stored⟩

lemma Sent.finish_stdout (h : Sent none cap out st s) :
    (fmtFinish s).writes.flatten = out ∧ [] ∉ (fmtFinish s).writes ∧ (fmtFinish s).stored = st := by
  obtain ⟨hbuf,hout,-,hwrites⟩ := h.printed rfl
  by_cases hbatch : s.batch = []
  · have hflush : fmtFlush s = s := if_neg fun hn => hn.2 hbatch
    rw [fmtFinish,hflush]
    simp only [hbuf]
    rw [hbatch,append_nil] at hout
    exact ⟨hout,hwrites,h.stored⟩
  · have hflush : fmtFlush s = { s with writes := s.writes ++ [s.batch], batch := [] } := if_pos ⟨by rw [hbuf]; rfl,hbatch⟩
    rw [fmtFinish,hflush]
    simp only [hbuf]
    refine ⟨?_,?_,h.stored⟩
    · rw [flatten_append,flatten_singleton,hout]
    · rw [mem_append,mem_singleton]
      rintro (hmem | hmem)
      · exact hwrites hmem
      · exact hbatch hmem.symm

end

/-- For a format whose requests the code serves, and an output whose length is an `int`, the call conforms exactly when it has a
buffer or nothing to write. -/
theorem vsnprintf_conforms {items : List Item} (hwf : ∀ i ∈ items, i.WellFormed) {args : List Arg} {ps : List Piece}
    (hres : resolveAll items args = some ps) (hserved : ∀ r, .request r ∈ ps → r.Served) {out : List Char} {stored : List (BitVec 64 × ℤ)}
    (hout : c99Output ps [] = some (out,stored)) (hlen : out.length < 2^31) (buf : Option (ℕ → Char)) (cap : ℕ) :
    ∃ result, vsnprintf buf cap (formatText items) args = some result ∧ (Conforms buf cap out stored result ↔ buf ≠ none ∨ out = []) := by
  have hinit : Sent buf cap [] [] ⟨buf,cap,0,0,[],[],[]⟩ := by
    refine ⟨rfl,rfl,rfl,?_,?_⟩
    · rintro m rfl
      exact ⟨by rw [take_nil]; rfl,(Nat.min_eq_right (Nat.zero_le _)).symm,rfl⟩
    · rintro rfl
      exact ⟨rfl,rfl,Nat.zero_lt_succ _,not_mem_nil⟩
  obtain ⟨s,hs,hsent⟩ := fmtLoop_spec hwf hres hserved hout hlen hinit (Nat.le_refl _)
  rw [nil_append] at hsent
  have hvalue : wrap32 s.total = out.length := by
    rw [hsent.total]
    exact wrap32_of_lt (by omega) (by omega)
  refine ⟨(fmtFinish s,wrap32 s.total),by rw [vsnprintf,fmtVformat,hs]; rfl,?_⟩
  rcases buf with _ | m
  · obtain ⟨hflat,hnil,hstored⟩ := hsent.finish_stdout
    constructor
    · intro h
      have hsilent : (fmtFinish s).writes = [] := h.silent
      rw [hsilent] at hflat
      exact .inr hflat.symm
    · rintro (h | rfl)
      · exact absurd rfl h
      · refine ⟨hvalue,nofun,?_,hstored⟩
        rcases hw : (fmtFinish s).writes with _ | ⟨w,ws⟩
        · rfl
        · rw [hw,flatten_cons,append_eq_nil_iff] at hflat
          rw [hw,hflat.1] at hnil
          exact absurd mem_cons_self hnil
  · obtain ⟨hmem,hwrites,hstored⟩ := hsent.finish_buffer
    refine iff_of_true ⟨hvalue,?_,hwrites,hstored⟩ (.inl (some_ne_none m))
    rintro _ ⟨⟩
    exact hmem

/-- `%#x!` -/
def hexItems : List Item := [.directive ⟨[.hash],none,none,.plain,.x⟩,.plain '!']

theorem vsnprintf_conforms_hex : ∃ result, vsnprintf (some fun _ => 'z') 4 (formatText hexItems) [.int 255] = some result ∧
    result.2 = 5 ∧ result.1.buf = some (c99Memory (fun _ => 'z') 4 ['0','x','f','f','!']) := by
  have hwf : ∀ i ∈ hexItems, i.WellFormed := List.forall_mem_cons.mpr ⟨⟨nofun,nofun⟩,List.forall_mem_singleton.mpr ⟨by decide,by decide⟩⟩
  have hserved : ∀ r, Piece.request r ∈ [.request ⟨[.hash],0,none,.plain,.x,.int 255⟩,.plain '!'] → r.Served := by
    intro r hr
    simp only [mem_cons,Piece.request.injEq,reduceCtorEq,not_mem_nil,or_false] at hr
    subst hr
    exact ⟨Nat.zero_lt_succ _,nofun,rfl⟩
  have hres : resolveAll hexItems [.int 255] = some [.request ⟨[.hash],0,none,.plain,.x,.int 255⟩,.plain '!'] := rfl
  have hout : c99Output [.request ⟨[.hash],0,none,.plain,.x,.int 255⟩,.plain '!'] [] = some (['0','x','f','f','!'],[]) := by
    simp [c99Output,Request.output,Length.unsigned,Request.field,Request.digits,numberText]
    decide
  obtain ⟨result,hrun,hiff⟩ := vsnprintf_conforms hwf hres hserved hout (by decide) (some fun _ => 'z') 4
  have h := hiff.mpr (.inl (some_ne_none _))
  exact ⟨result,hrun,h.value,h.memory _ rfl⟩

/-- `%#.0o` -/
def octalZero : Directive := ⟨[.hash],none,some (.number ['0']),.plain,.o⟩

/-- A query for the size prints the text, and an octal zero with no digits of its own is lost. -/
theorem size_query_prints :
    (∃ result, vsnprintf none 0 (formatText [.plain 'A']) [] = some result ∧ result.1.writes = [['A']] ∧
      c99Output [.plain 'A'] [] = some (['A'],[]) ∧ ¬ Conforms none 0 ['A'] [] result) ∧
    ∃ result ps, vsnprintf (some fun _ => 'z') 2 (formatText [.directive octalZero]) [.int 0] = some result ∧
      resolveAll [.directive octalZero] [.int 0] = some ps ∧ c99Output ps [] = some (['0'],[]) ∧ result.2 = 0 := by
  refine ⟨⟨_,rfl,rfl,rfl,fun h => ?_⟩,_,_,rfl,rfl,?_,rfl⟩
  · exact nomatch h.silent
  · simp [c99Output,octalZero,Request.output,Length.unsigned,Request.field,Request.octal,Request.digits,numberText,numeral]

end VibeOS.Printf

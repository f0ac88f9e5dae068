import VibeOS.Libc.Huffman
import Mathlib.Algebra.Order.Group.Unbundled.Int

/-! `png.h`: the rows that the inflater leaves, with their filters, and that `png_unfilter_row` takes back what the
format's filters do. An access outside an array fails. -/
namespace VibeOS.Png

open VibeOS.Libc List

def byteAt (buf : List UInt8) (i : ℕ) : Except Stop UInt8 := buf[i]?.elim (.error .outside) .ok

/-- `png_paeth` -/
def paeth (a b c : UInt8) : UInt8 :=
  let p : ℤ := (a.toNat : ℤ) + b.toNat - c.toNat
  let pa := if p > a.toNat then p - a.toNat else a.toNat - p
  let pb := if p > b.toNat then p - b.toNat else b.toNat - p
  let pc := if p > c.toNat then p - c.toNat else c.toNat - p
  if pa ≤ pb ∧ pa ≤ pc then a else if pb ≤ pc then b else c

/-- `cur[x] += pred` for the `n` bytes from `x` on. -/
def addLoop (pred : List UInt8 → ℕ → Except Stop UInt8) : ℕ → ℕ → List UInt8 → Except Stop (List UInt8)
  | 0, _, cur => .ok cur
  | n+1, x, cur => do
    let v ← pred cur x
    let c ← byteAt cur x
    addLoop pred n (x + 1) (cur.set x (c + v))

def leftAt (bpp : ℕ) (cur : List UInt8) (x : ℕ) : Except Stop UInt8 := if bpp ≤ x then byteAt cur (x - bpp) else .ok 0

/-- There is no row above the first one. -/
def prevAt (prev : Option (List UInt8)) (x : ℕ) : Except Stop UInt8 := prev.elim (.ok 0) (byteAt · x)

def cornerAt (bpp : ℕ) (prev : Option (List UInt8)) (x : ℕ) : Except Stop UInt8 := if bpp ≤ x then prevAt prev (x - bpp) else .ok 0

/-- `png_unfilter_row` -/
def unfilterRow (filt : ℕ) (cur : List UInt8) (prev : Option (List UInt8)) (bpp : ℕ) : Except Stop (List UInt8) :=
  match filt with
  | 0 => .ok cur
  | 1 => addLoop (fun cur x => byteAt cur (x - bpp)) (cur.length - bpp) bpp cur
  | 2 => prev.elim (.ok cur) fun p => addLoop (fun _ x => byteAt p x) cur.length 0 cur
  | 3 => addLoop (fun cur x => do
      let a ← leftAt bpp cur x
      let b ← prevAt prev x
      return UInt8.ofNat ((a.toNat + b.toNat) >>> 1)) cur.length 0 cur
  | 4 => addLoop (fun cur x => do
      let a ← leftAt bpp cur x
      let b ← prevAt prev x
      let c ← cornerAt bpp prev x
      return paeth a b c) cur.length 0 cur
  | _ => .error .malformed

/-- The loop over the rows in `png_decode`: a byte for the filter of each, and its data. -/
def unfilterRows (rowData bpp : ℕ) : ℕ → Option (List UInt8) → List UInt8 → Except Stop (List (List UInt8))
  | 0, _, _ => .ok []
  | n+1, prev, raw => do
    let filt ← byteAt raw 0
    let data ← if raw.length < rowData + 1 then .error .outside
      else unfilterRow filt.toNat ((raw.drop 1).take rowData) prev bpp
    let rows ← unfilterRows rowData bpp n (some data) (raw.drop (rowData + 1))
    return data :: rows

/-! ### The filters of the format -/

/-- The neighbour that is nearest to `a + b - c`, the left one and then the upper one first. -/
def paethPredictor (a b c : UInt8) : UInt8 :=
  let p : ℤ := (a.toNat : ℤ) + b.toNat - c.toNat
  if |p - a.toNat| ≤ |p - b.toNat| ∧ |p - a.toNat| ≤ |p - c.toNat| then a else if |p - b.toNat| ≤ |p - c.toNat| then b else c

inductive Filter
  | none | sub | up | average | paeth

def Filter.code : Filter → ℕ
  | .none => 0
  | .sub => 1
  | .up => 2
  | .average => 3
  | .paeth => 4

/-- From the left, the upper and the upper left byte. -/
def Filter.predictor (a b c : UInt8) : Filter → UInt8
  | .none => 0
  | .sub => a
  | .up => b
  | .average => UInt8.ofNat ((a.toNat + b.toNat) / 2)
  | .paeth => paethPredictor a b c

def leftOf (bpp : ℕ) (row : List UInt8) (x : ℕ) : UInt8 := if bpp ≤ x then row.getD (x - bpp) 0 else 0

def predicted (filt : Filter) (bpp : ℕ) (prev row : List UInt8) (x : ℕ) : UInt8 :=
  filt.predictor (leftOf bpp row x) (prev.getD x 0) (leftOf bpp prev x)

/-- Behind the row `prev`, where all is zero if there is none. -/
def filterRow (filt : Filter) (bpp : ℕ) (prev row : List UInt8) : List UInt8 :=
  row.mapIdx fun x b => b - predicted filt bpp prev row x

def filterRows (bpp : ℕ) : List UInt8 → List (Filter × List UInt8) → List UInt8
  | _, [] => []
  | prev, (filt,row) :: rows => UInt8.ofNat filt.code :: (filterRow filt bpp prev row ++ filterRows bpp row rows)

/-! ### The way back -/

variable {cur row : List UInt8} {prev : Option (List UInt8)} {bpp x : ℕ}

lemma byteAt_ok (hx : x < row.length) : byteAt row x = .ok (row.getD x 0) := by
  simp [byteAt,hx]

lemma byteAt_done (hx : x < row.length) (t : List UInt8) {y : ℕ} (hy : y < x) :
    byteAt (row.take x ++ t) y = .ok (row.getD y 0) := by
  rw [byteAt_ok (by simp; omega)]
  rw [getD_eq_getElem?_getD,getD_eq_getElem?_getD,getElem?_append_left (by simp; omega),getElem?_take_of_lt hy]

lemma paeth_eq (a b c : UInt8) : paeth a b c = paethPredictor a b c := by
  have habs (p q : ℤ) : (if p > q then p - q else q - p) = |p - q| := by
    split_ifs with h
    · exact (abs_of_pos (by omega)).symm
    · rw [abs_of_nonpos (by omega)]
      omega
  simp only [paeth,paethPredictor,habs]

/-- What is in front of `x` is the row again. -/
lemma addLoop_undo {f : List UInt8 → ℕ → Except Stop UInt8} {value : ℕ → UInt8} {a : ℕ}
    (hlen : cur.length = row.length)
    (hf : ∀ x t, a ≤ x → x < row.length → f (row.take x ++ t) x = .ok (value x))
    (hval : ∀ x, a ≤ x → x < row.length → cur.getD x 0 + value x = row.getD x 0) (n : ℕ) (hx : a ≤ x)
    (hn : x + n = row.length) : addLoop f n x (row.take x ++ cur.drop x) = .ok row := by
  induction n generalizing x with
  | zero => simp [addLoop,show x = row.length from hn,drop_of_length_le hlen.le]
  | succ n ih =>
    have hlt : x < row.length := by omega
    have hmin : min x row.length = x := min_eq_left hlt.le
    have hat : byteAt (row.take x ++ cur.drop x) x = .ok (cur.getD x 0) := by
      rw [byteAt_ok (by simp; omega)]
      simp [getElem?_append,hmin]
    have hset : (row.take x ++ cur.drop x).set x (row.getD x 0) = row.take (x + 1) ++ cur.drop (x + 1) := by
      rw [drop_eq_getElem_cons (by omega),set_append_right _ _ (by simp),length_take,hmin,Nat.sub_self,set_cons_zero,
        take_succ_eq_append_getElem hlt,append_assoc,singleton_append,
        show row.getD x 0 = row[x] by simp [hlt]]
    rw [addLoop,hf x _ hx hlt,Stop.ok_bind,hat,Stop.ok_bind,hval x hx hlt,hset]
    exact ih (by omega) (by omega)

lemma filterRow_getD (filt : Filter) (prev : List UInt8) (hx : x < row.length) :
    (filterRow filt bpp prev row).getD x 0 + predicted filt bpp prev row x = row.getD x 0 := by
  simp [filterRow,hx]

lemma filterRow_zero {filt : Filter} {prev : List UInt8} (h : ∀ x < row.length, predicted filt bpp prev row x = 0) :
    filterRow filt bpp prev row = row := by
  apply ext_getElem (by simp [filterRow])
  intro x _ hx
  simp [filterRow,h x hx]

lemma leftAt_done (hbpp : 0 < bpp) (hx : x < row.length) (t : List UInt8) :
    leftAt bpp (row.take x ++ t) x = .ok (leftOf bpp row x) := by
  rw [leftAt,leftOf]
  split_ifs with h
  · exact byteAt_done hx t (by omega)
  · rfl

lemma prevAt_ok (hprev : ∀ p ∈ prev, p.length = row.length) (hx : x < row.length) :
    prevAt prev x = .ok ((prev.getD []).getD x 0) := by
  cases prev with
  | none => rfl
  | some p => exact byteAt_ok (by rwa [hprev p rfl])

lemma unfilterRow_filterRow (hbpp : 0 < bpp) (hprev : ∀ p ∈ prev, p.length = row.length) (filt : Filter) :
    unfilterRow filt.code (filterRow filt bpp (prev.getD []) row) prev bpp = .ok row := by
  have hlen : (filterRow filt bpp (prev.getD []) row).length = row.length := by simp [filterRow]
  have hall {pred : List UInt8 → ℕ → Except Stop UInt8} (hpred : ∀ x t, x < row.length →
      pred (row.take x ++ t) x = .ok (predicted filt bpp (prev.getD []) row x)) :
      addLoop pred (filterRow filt bpp (prev.getD []) row).length 0 (filterRow filt bpp (prev.getD []) row) = .ok row :=
    addLoop_undo hlen (fun x t _ => hpred x t) (fun x _ => filterRow_getD filt _) _ (Nat.zero_le 0) (by omega)
  cases filt with
  | none => exact congrArg Except.ok (filterRow_zero fun _ _ => rfl)
  | sub =>
    have hleft (x : ℕ) : predicted .sub bpp (prev.getD []) row x = leftOf bpp row x := rfl
    change addLoop (fun cur x => byteAt cur (x - bpp)) _ bpp _ = _
    by_cases hwide : bpp ≤ row.length
    · have hfirst : (filterRow .sub bpp (prev.getD []) row).take bpp = row.take bpp := by
        apply ext_getElem (by simp [hlen])
        intro x h h'
        have hx : ¬bpp ≤ x := by simp at h'; omega
        simp [filterRow,hleft,leftOf,hx]
      have h := addLoop_undo hlen (f := fun cur x => byteAt cur (x - bpp)) (a := bpp)
        (fun x t hx hlt => byteAt_done hlt t (by omega)) (fun x hx hlt => ?_) (row.length - bpp) le_rfl (by omega)
      · rwa [← hfirst,take_append_drop,← hlen] at h
      · have : _ + predicted .sub bpp _ row x = _ := filterRow_getD .sub (prev.getD []) hlt
        rwa [hleft,leftOf,if_pos hx] at this
    · have hzero : filterRow .sub bpp (prev.getD []) row = row :=
        filterRow_zero fun x hx => if_neg (by omega)
      simp [hzero,Nat.sub_eq_zero_of_le (Nat.le_of_not_le hwide),addLoop]
  | up =>
    cases prev with
    | none => exact congrArg Except.ok (filterRow_zero fun _ _ => rfl)
    | some p =>
      apply hall
      intro x t hx
      exact byteAt_ok (by rwa [hprev p rfl])
  | average =>
    apply hall
    intro x t hx
    simp only [leftAt_done hbpp hx,prevAt_ok hprev hx,Stop.ok_bind]
    rfl
  | paeth =>
    apply hall
    intro x t hx
    have hcorner : cornerAt bpp prev x = .ok (leftOf bpp (prev.getD []) x) := by
      rw [cornerAt,leftOf]
      split_ifs
      · exact prevAt_ok hprev (by omega)
      · rfl
    simp only [leftAt_done hbpp hx,prevAt_ok hprev hx,hcorner,Stop.ok_bind,paeth_eq]
    rfl

lemma unfilterRows_go (hbpp : 0 < bpp) {rowData : ℕ} (rows : List (Filter × List UInt8)) (hrows : ∀ r ∈ rows, r.2.length = rowData)
    (hprev : ∀ p ∈ prev, p.length = rowData) :
    unfilterRows rowData bpp rows.length prev (filterRows bpp (prev.getD []) rows) = .ok (rows.map (·.2)) := by
  induction rows generalizing prev with
  | nil => rfl
  | cons r rows ih =>
    obtain ⟨filt,row⟩ := r
    have hrow : row.length = rowData := hrows _ mem_cons_self
    have hlen : (filterRow filt bpp (prev.getD []) row).length = rowData := by simp [filterRow,hrow]
    have hcode : (UInt8.ofNat filt.code).toNat = filt.code := by cases filt <;> rfl
    have hdata := unfilterRow_filterRow hbpp (fun p hp => (hprev p hp).trans hrow.symm) filt
    have hnext : unfilterRows rowData bpp rows.length (some row) (filterRows bpp row rows) = .ok (rows.map (·.2)) :=
      @ih (some row) (fun r hr => hrows r (mem_cons_of_mem _ hr)) (by simpa using hrow)
    rw [length_cons,filterRows,unfilterRows,byteAt_ok (by simp)]
    simp [hlen,hcode,hdata,hnext,Stop.ok_bind]

/-- Whatever filters an encoder has taken for the rows of an image, the decoder has the rows again, and reads no byte
that is not theirs. -/
theorem unfilterRows_filterRows {bpp rowData : ℕ} (hbpp : 0 < bpp) (rows : List (Filter × List UInt8))
    (hrows : ∀ r ∈ rows, r.2.length = rowData) :
    unfilterRows rowData bpp rows.length none (filterRows bpp [] rows) = .ok (rows.map (·.2)) :=
  unfilterRows_go hbpp rows hrows nofun

theorem unfilterRows_two : (0 < 1 ∧ ∀ r ∈ [(Filter.sub,[200,100]),(.paeth,[3,4])], r.2.length = 2) ∧
    unfilterRows 2 1 2 none [1,200,156,4,59,1] = .ok [[200,100],[3,4]] :=
  ⟨by decide,unfilterRows_filterRows Nat.one_pos [(.sub,[200,100]),(.paeth,[3,4])] (by decide)⟩

end VibeOS.Png

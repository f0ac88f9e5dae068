import VibeOS.Vfs.SharedTable
import Mathlib.Tactic.Cases

/-! Pipes, ptys and channels live as long as the calls inside them, where no thread gives up the last
references of an object that another is inside of. -/
namespace VibeOS.Vfs.SharedTable
open List Option
open Function (update update_apply update_idem update_of_ne update_self)
open VibeOS VibeOS.Storage VibeOS.Userfs

def reads (m2s s2m : ℕ → ℕ) (p : ℕ) : Entry → Bool
  | .pipeR q => q == p
  | .ptyMaster y => s2m y == p
  | .ptySlave y => m2s y == p
  | _ => false

def writes (m2s s2m : ℕ → ℕ) (p : ℕ) : Entry → Bool
  | .pipeW q => q == p
  | .ptyMaster y => m2s y == p
  | .ptySlave y => s2m y == p
  | _ => false

def ofPty (y : ℕ) : Entry → Bool
  | .ptyMaster z => z == y
  | .ptySlave z => z == y
  | _ => false

/-- The references of a descriptor to an object. -/
def weight (m2s s2m : ℕ → ℕ) (e : Entry) : Obj → ℕ
  | .pipe p => (reads m2s s2m p e).toNat + (writes m2s s2m p e).toNat
  | .pty y => (ofPty y e).toNat
  | .channel _ => 0

def Refers (m2s s2m : ℕ → ℕ) (e : Entry) (o : Obj) : Prop :=
  0 < weight m2s s2m e o ∨ ∃ c handle offset, e = .userfs c handle offset ∧ o = .channel c

/-- The objects that a call goes on with when it runs. -/
def Call.uses (m2s : ℕ → ℕ) : Call → List Obj
  | .read p _ _ => [.pipe p]
  | .loop _ _ => []
  | .write p _ _ _ _ => [.pipe p]
  | .master y _ _ _ _ => [.pipe (m2s y),.pty y]
  | .userRead c _ _ | .userWrite c _ _ _ | .close c _ => [.channel c]

namespace Sys
variable {s t u : Sys} {i fd p c : ℕ} {k : Call} {e : Entry} {o : Obj} {r : Option ℤ}

def refs (s : Sys) : Obj → ℕ
  | .pipe p => (s.pipe p).rRefs + (s.pipe p).wRefs
  | .pty y => s.ptyRefs y
  | .channel c => if .channel c ∈ s.frees then 0 else 1

def InUse (s : Sys) (o : Obj) : Prop := ∃ i k, s.call i = some k ∧ o ∈ k.uses s.m2s

/-- No call is inside an object that loses its last references with this descriptor. -/
def Quiet (s : Sys) (e : Entry) : Prop :=
  ∀ o, 0 < weight s.m2s s.s2m e o → s.refs o = weight s.m2s s.s2m e o → ¬ s.InUse o

/-- A close and a `dup2` are quiet about the descriptor that goes away, a close of a userfs file finds
no pipe and no pty in its slot when it comes back from the daemon, and a channel is unmounted only
when no descriptor and no call is left on it. -/
def Meets (s : Sys) : Event → Prop
  | .close _ fd => 3 ≤ fd → ∀ e, s.slots fd = some e → s.Quiet e
  | .dup2 _ old new => old ≠ new → s.slots old ≠ none → ∀ e, s.slots new = some e → s.Quiet e
  | .turn i _ _ => ∀ c fd, s.call i = some (.close c fd) → (s.chan c).calls i = none →
      ∀ e, s.slots fd = some e → ∀ o, weight s.m2s s.s2m e o = 0
  | .umount c => s.openFds c = 0 → (∀ fd handle offset, s.slots fd ≠ some (.userfs c handle offset)) ∧ ¬ s.InUse (.channel c)
  | _ => True

structure Outside where
  r : ℕ → ℕ
  w : ℕ → ℕ
  pty : ℕ → ℕ

variable {out : Outside} {known : Obj → Prop}

structure Held (out : Outside) (s : Sys) : Prop where
  table : ∀ fd, fdTableSize ≤ fd → s.slots fd = none
  r : ∀ p, (s.pipe p).rRefs = tally fdTableSize s.slots (reads s.m2s s.s2m p) + out.r p
  w : ∀ p, (s.pipe p).wRefs = tally fdTableSize s.slots (writes s.m2s s.s2m p) + out.w p
  pty : ∀ y, s.ptyRefs y = tally fdTableSize s.slots (ofPty y) + out.pty y

structure Inv (out : Outside) (known : Obj → Prop) (s : Sys) : Prop where
  held : Held out s
  tracked : Tracked known s.refs s.frees
  channels : ∀ fd c handle offset, s.slots fd = some (.userfs c handle offset) → .channel c ∉ s.frees
  calls : ∀ o, s.InUse o → o ∉ s.frees

lemma Held.lt (h : Held out s) (he : s.slots fd = some e) : fd < fdTableSize := by
  by_contra hge
  rw [h.table fd (not_lt.mp hge)] at he
  cases he

lemma Held.weight_le (h : Held out s) (he : s.slots fd = some e) (o : Obj) : weight s.m2s s.s2m e o ≤ s.refs o := by
  have hany (q : Entry → Bool) : ((s.slots fd).any q).toNat ≤ tally fdTableSize s.slots q := by
    cases hq : (s.slots fd).any q with
    | false => exact Nat.zero_le _
    | true => exact tally_pos (h.lt he) hq
  rw [he] at hany
  cases o with
  | pipe p =>
    have hr := hany (reads s.m2s s.s2m p)
    have hw := hany (writes s.m2s s.s2m p)
    have hr' := h.r p
    have hw' := h.w p
    simp only [any_some] at hr hw
    simp only [weight,refs]
    omega
  | pty y =>
    have hy := hany (ofPty y)
    have hy' := h.pty y
    simp only [any_some] at hy
    simp only [weight,refs]
    omega
  | channel c => exact Nat.zero_le _

lemma Inv.alive (hs : Inv out known s) (he : s.slots fd = some e) (ho : Refers s.m2s s.s2m e o) : o ∉ s.frees := by
  rcases ho with hpos | ⟨c,handle,offset,rfl,rfl⟩
  · exact hs.tracked.not_mem (hpos.trans_le (hs.held.weight_le he o))
  · exact hs.channels fd c handle offset he

@[simp] lemma freeIfUnused_pipe (s : Sys) (p : ℕ) : (s.freeIfUnused p).pipe = s.pipe := by
  unfold freeIfUnused
  split <;> rfl
@[simp] lemma freeIfUnused_ptyRefs (s : Sys) (p : ℕ) : (s.freeIfUnused p).ptyRefs = s.ptyRefs := by
  unfold freeIfUnused
  split <;> rfl
@[simp] lemma freeIfUnused_slots (s : Sys) (p : ℕ) : (s.freeIfUnused p).slots = s.slots := by
  unfold freeIfUnused
  split <;> rfl
@[simp] lemma freeIfUnused_m2s (s : Sys) (p : ℕ) : (s.freeIfUnused p).m2s = s.m2s := by
  unfold freeIfUnused
  split <;> rfl
@[simp] lemma freeIfUnused_s2m (s : Sys) (p : ℕ) : (s.freeIfUnused p).s2m = s.s2m := by
  unfold freeIfUnused
  split <;> rfl
@[simp] lemma freeIfUnused_call (s : Sys) (p : ℕ) : (s.freeIfUnused p).call = s.call := by
  unfold freeIfUnused
  split <;> rfl

lemma freeIfUnused_frees (s : Sys) (p : ℕ) :
    (s.freeIfUnused p).frees = if (s.pipe p).rRefs = 0 ∧ (s.pipe p).wRefs = 0 then .pipe p :: s.frees else s.frees := by
  unfold freeIfUnused
  split <;> rfl

/-- What a function of the state leaves alone, besides the references. -/
structure Frame (s t : Sys) : Prop where
  slots : t.slots = s.slots
  m2s : t.m2s = s.m2s
  s2m : t.s2m = s.s2m
  call : t.call = s.call

lemma Frame.trans (h : Frame s t) (h' : Frame t u) : Frame s u :=
  ⟨h'.slots.trans h.slots,h'.m2s.trans h.m2s,h'.s2m.trans h.s2m,h'.call.trans h.call⟩

lemma frame_unrefR (s : Sys) (p : ℕ) : Frame s (s.unrefR p) := ⟨by simp [unrefR,setPipe],by simp [unrefR,setPipe],by simp [unrefR,setPipe],by simp [unrefR,setPipe]⟩
lemma frame_unrefW (s : Sys) (p : ℕ) : Frame s (s.unrefW p) := ⟨by simp [unrefW,setPipe],by simp [unrefW,setPipe],by simp [unrefW,setPipe],by simp [unrefW,setPipe]⟩
lemma frame_unrefPty (s : Sys) (y : ℕ) : Frame s (s.unrefPty y) := by
  unfold unrefPty
  dsimp only
  split <;> exact ⟨rfl,rfl,rfl,rfl⟩

/-- The counts of `s` and `t` differ by the references of a descriptor. -/
structure Counts (f : ℕ → ℕ → ℕ) (e : Entry) (s t : Sys) : Prop where
  r : ∀ p, (t.pipe p).rRefs = f (s.pipe p).rRefs (reads s.m2s s.s2m p e).toNat
  w : ∀ p, (t.pipe p).wRefs = f (s.pipe p).wRefs (writes s.m2s s.s2m p e).toNat
  pty : ∀ y, t.ptyRefs y = f (s.ptyRefs y) (ofPty y e).toNat

lemma toNat_beq (a b : ℕ) : (a == b).toNat = if b = a then 1 else 0 := by
  by_cases h : a = b
  · subst h
    simp
  · rw [beq_eq_false_iff_ne.mpr h,if_neg (Ne.symm h)]
    rfl

lemma unrefR_r (s : Sys) (p q : ℕ) : ((s.unrefR p).pipe q).rRefs = (s.pipe q).rRefs - (p == q).toNat := by
  rw [toNat_beq]
  by_cases h : q = p
  · subst h
    simp [unrefR,setPipe,Pipe.unrefR]
  · simp [unrefR,setPipe,h]

lemma unrefR_w (s : Sys) (p q : ℕ) : ((s.unrefR p).pipe q).wRefs = (s.pipe q).wRefs := by
  by_cases h : q = p
  · subst h
    simp [unrefR,setPipe,Pipe.unrefR]
  · simp [unrefR,setPipe,h]

lemma unrefW_w (s : Sys) (p q : ℕ) : ((s.unrefW p).pipe q).wRefs = (s.pipe q).wRefs - (p == q).toNat := by
  rw [toNat_beq]
  by_cases h : q = p
  · subst h
    simp [unrefW,setPipe,Pipe.unrefW]
  · simp [unrefW,setPipe,h]

lemma unrefW_r (s : Sys) (p q : ℕ) : ((s.unrefW p).pipe q).rRefs = (s.pipe q).rRefs := by
  by_cases h : q = p
  · subst h
    simp [unrefW,setPipe,Pipe.unrefW]
  · simp [unrefW,setPipe,h]

@[simp] lemma unrefR_ptyRefs (s : Sys) (p : ℕ) : (s.unrefR p).ptyRefs = s.ptyRefs := by simp [unrefR,setPipe]
@[simp] lemma unrefW_ptyRefs (s : Sys) (p : ℕ) : (s.unrefW p).ptyRefs = s.ptyRefs := by simp [unrefW,setPipe]

lemma unrefPty_pipe (s : Sys) (y : ℕ) : (s.unrefPty y).pipe = s.pipe := by
  unfold unrefPty
  dsimp only
  split <;> rfl

lemma unrefPty_ptyRefs (s : Sys) (y z : ℕ) : (s.unrefPty y).ptyRefs z = s.ptyRefs z - (y == z).toNat := by
  have hrefs : (s.unrefPty y).ptyRefs = update s.ptyRefs y (s.ptyRefs y - 1) := by
    unfold unrefPty
    dsimp only
    split <;> rfl
  rw [hrefs,toNat_beq]
  by_cases h : z = y
  · subst h
    simp
  · simp [h]

lemma release_pty (s : Sys) (a b y : ℕ) :
    Frame s (((s.unrefR a).unrefW b).unrefPty y) ∧
      (∀ q, ((((s.unrefR a).unrefW b).unrefPty y).pipe q).rRefs = (s.pipe q).rRefs - (a == q).toNat) ∧
      (∀ q, ((((s.unrefR a).unrefW b).unrefPty y).pipe q).wRefs = (s.pipe q).wRefs - (b == q).toNat) ∧
      ∀ z, (((s.unrefR a).unrefW b).unrefPty y).ptyRefs z = s.ptyRefs z - (y == z).toNat := by
  refine ⟨((frame_unrefR s a).trans (frame_unrefW _ b)).trans (frame_unrefPty _ y),fun q => ?_,fun q => ?_,fun z => ?_⟩
  · rw [unrefPty_pipe,unrefW_r,unrefR_r]
  · rw [unrefPty_pipe,unrefW_w,unrefR_w]
  · rw [unrefPty_ptyRefs,unrefW_ptyRefs,unrefR_ptyRefs]

lemma release_counts (s : Sys) (e : Entry) : Frame s (s.release (some e)) ∧ Counts (· - ·) e s (s.release (some e)) := by
  cases e with
  | pipeR p => exact ⟨frame_unrefR s p,unrefR_r s p,unrefR_w s p,fun _ => by rw [release,unrefR_ptyRefs]; rfl⟩
  | pipeW p => exact ⟨frame_unrefW s p,unrefW_r s p,unrefW_w s p,fun _ => by rw [release,unrefW_ptyRefs]; rfl⟩
  | ptyMaster y =>
    obtain ⟨hframe,hr,hw,hpty⟩ := release_pty s (s.s2m y) (s.m2s y) y
    exact ⟨hframe,hr,hw,hpty⟩
  | ptySlave y =>
    obtain ⟨hframe,hr,hw,hpty⟩ := release_pty s (s.m2s y) (s.s2m y) y
    exact ⟨hframe,hr,hw,hpty⟩
  | userfs c handle offset | other => exact ⟨⟨rfl,rfl,rfl,rfl⟩,fun _ => rfl,fun _ => rfl,fun _ => rfl⟩

lemma retain_counts (s : Sys) (e : Entry) :
    Frame s (s.retain e) ∧ (s.retain e).frees = s.frees ∧ Counts (· + ·) e s (s.retain e) := by
  cases e with
  | pipeR p =>
    refine ⟨⟨rfl,rfl,rfl,rfl⟩,rfl,fun q => ?_,fun q => ?_,fun _ => rfl⟩ <;>
      simp only [retain,refR,setPipe,reads,writes,toNat_beq,update_apply] <;> split <;> simp_all
  | pipeW p =>
    refine ⟨⟨rfl,rfl,rfl,rfl⟩,rfl,fun q => ?_,fun q => ?_,fun _ => rfl⟩ <;>
      simp only [retain,refW,setPipe,reads,writes,toNat_beq,update_apply] <;> split <;> simp_all
  | ptyMaster y | ptySlave y =>
    refine ⟨⟨rfl,rfl,rfl,rfl⟩,rfl,fun q => ?_,fun q => ?_,fun z => ?_⟩
    · simp only [retain,refR,refW,refPty,setPipe,reads,toNat_beq,update_apply]
      split_ifs <;> simp_all
    · simp only [retain,refR,refW,refPty,setPipe,writes,toNat_beq,update_apply]
      split_ifs <;> simp_all
    · simp only [retain,refR,refW,refPty,setPipe,ofPty,toNat_beq,update_apply]
      split_ifs <;> simp_all
  | userfs c handle offset | other => exact ⟨⟨rfl,rfl,rfl,rfl⟩,rfl,fun _ => rfl,fun _ => rfl,fun _ => rfl⟩

lemma tracked_drop {a : Obj} (h : Tracked known s.refs s.frees) (ha : 0 < s.refs a)
    (hfrees : t.frees = if s.refs a - 1 = 0 then a :: s.frees else s.frees)
    (hrefs : ∀ o, (∀ c, o ≠ .channel c) → t.refs o = update s.refs a (s.refs a - 1) o) (hchan : ∀ c, a ≠ .channel c) :
    Tracked known t.refs t.frees := by
  have hall : t.refs = update s.refs a (s.refs a - 1) := by
    funext o
    cases o with
    | channel c =>
      rw [update_of_ne (Ne.symm (hchan c))]
      simp only [refs]
      have hmem : Obj.channel c ∈ t.frees ↔ Obj.channel c ∈ s.frees := by
        rw [hfrees]
        split
        · rw [mem_cons,or_iff_right (Ne.symm (hchan c))]
        · exact Iff.rfl
      rw [if_congr hmem rfl rfl]
    | pipe p | pty y => exact hrefs _ fun c => nofun
  rw [hall,hfrees]
  exact h.drop ha

lemma tracked_unrefR (h : Tracked known s.refs s.frees) (hp : 0 < (s.pipe p).rRefs) :
    Tracked known (s.unrefR p).refs (s.unrefR p).frees := by
  refine tracked_drop (a := .pipe p) h (by simp only [refs]; omega) ?_ (fun o _ => ?_) fun c => nofun
  · have hself : (s.setPipe p (s.pipe p).unrefR).pipe p = (s.pipe p).unrefR := update_self ..
    rw [unrefR,freeIfUnused_frees,hself]
    refine if_congr ?_ rfl rfl
    simp only [Pipe.unrefR,refs]
    omega
  · cases o with
    | pipe q =>
      simp only [refs,unrefR_r,unrefR_w,update_apply,toNat_beq,Obj.pipe.injEq]
      split
      · next hq =>
        subst hq
        omega
      · rfl
    | pty y =>
      rw [update_of_ne (show Obj.pty y ≠ .pipe p from nofun)]
      simp only [refs,unrefR_ptyRefs]
    | channel c => rename_i h; exact absurd rfl (h c)

lemma tracked_unrefW (h : Tracked known s.refs s.frees) (hp : 0 < (s.pipe p).wRefs) :
    Tracked known (s.unrefW p).refs (s.unrefW p).frees := by
  refine tracked_drop (a := .pipe p) h (by simp only [refs]; omega) ?_ (fun o _ => ?_) fun c => nofun
  · have hself : (s.setPipe p (s.pipe p).unrefW).pipe p = (s.pipe p).unrefW := update_self ..
    rw [unrefW,freeIfUnused_frees,hself]
    refine if_congr ?_ rfl rfl
    simp only [Pipe.unrefW,refs]
    omega
  · cases o with
    | pipe q =>
      simp only [refs,unrefW_r,unrefW_w,update_apply,toNat_beq,Obj.pipe.injEq]
      split
      · next hq =>
        subst hq
        omega
      · rfl
    | pty y =>
      rw [update_of_ne (show Obj.pty y ≠ .pipe p from nofun)]
      simp only [refs,unrefW_ptyRefs]
    | channel c => rename_i h; exact absurd rfl (h c)

lemma tracked_unrefPty {y : ℕ} (h : Tracked known s.refs s.frees) (hy : 0 < s.ptyRefs y) :
    Tracked known (s.unrefPty y).refs (s.unrefPty y).frees := by
  refine tracked_drop (a := .pty y) h hy ?_ (fun o _ => ?_) fun c => nofun
  · by_cases hz : s.ptyRefs y - 1 = 0
    · simp [unrefPty,refs,hz]
    · simp [unrefPty,refs,hz]
  · cases o with
    | pipe q =>
      rw [update_of_ne (show Obj.pipe q ≠ .pty y from nofun)]
      simp only [refs,unrefPty_pipe]
    | pty z =>
      simp only [refs,unrefPty_ptyRefs,update_apply,toNat_beq,Obj.pty.injEq]
      split
      · next hz => rw [hz]
      · rfl
    | channel c => rename_i h; exact absurd rfl (h c)

/-- The objects have the references of the descriptor. -/
structure Backs (s : Sys) (e : Entry) : Prop where
  r : ∀ p, reads s.m2s s.s2m p e = true → 0 < (s.pipe p).rRefs
  w : ∀ p, writes s.m2s s.s2m p e = true → 0 < (s.pipe p).wRefs
  pty : ∀ y, ofPty y e = true → 0 < s.ptyRefs y

lemma Held.backs (h : Held out s) (he : s.slots fd = some e) : Backs s e := by
  have hpos {q : Entry → Bool} (hq : q e = true) : 0 < tally fdTableSize s.slots q := by
    refine tally_pos (h.lt he) ?_
    rw [he]
    exact hq
  exact ⟨fun p hp => (hpos hp).trans_le (h.r p ▸ Nat.le_add_right _ _),fun p hp => (hpos hp).trans_le (h.w p ▸ Nat.le_add_right _ _),
    fun y hy => (hpos hy).trans_le (h.pty y ▸ Nat.le_add_right _ _)⟩

lemma tracked_pty {a b y : ℕ} (h : Tracked known s.refs s.frees) (ha : 0 < (s.pipe a).rRefs) (hb : 0 < (s.pipe b).wRefs)
    (hy : 0 < s.ptyRefs y) :
    Tracked known (((s.unrefR a).unrefW b).unrefPty y).refs (((s.unrefR a).unrefW b).unrefPty y).frees :=
  tracked_unrefPty (tracked_unrefW (tracked_unrefR h ha) (by rwa [unrefR_w])) (by rwa [unrefW_ptyRefs,unrefR_ptyRefs])

lemma release_tracked (h : Tracked known s.refs s.frees) (hb : Backs s e) :
    Tracked known (s.release (some e)).refs (s.release (some e)).frees := by
  cases e with
  | pipeR p => exact tracked_unrefR h (hb.r p (beq_self_eq_true p))
  | pipeW p => exact tracked_unrefW h (hb.w p (beq_self_eq_true p))
  | ptyMaster y
  | ptySlave y => exact tracked_pty h (hb.r _ (beq_self_eq_true _)) (hb.w _ (beq_self_eq_true _)) (hb.pty y (beq_self_eq_true y))
  | userfs c handle offset | other => exact h

lemma tracked_more (h : Tracked known s.refs s.frees) (hfrees : t.frees = s.frees) (hle : ∀ o, 0 < t.refs o ↔ 0 < s.refs o) :
    Tracked known t.refs t.frees where
  seen o ho := h.seen o ((hle o).mp ho)
  dead o hk hz := by
    rw [hfrees]
    refine h.dead o hk ?_
    by_contra hne
    have := (hle o).mpr (Nat.pos_of_ne_zero hne)
    omega
  alive o ho := by
    rw [hfrees]
    exact h.alive o (ho.imp_left (hle o).mp)

lemma retain_tracked (h : Tracked known s.refs s.frees) (hb : Backs s e) : Tracked known (s.retain e).refs (s.retain e).frees := by
  obtain ⟨hframe,hfrees,hcounts⟩ := retain_counts s e
  refine tracked_more h hfrees fun o => ?_
  cases o with
  | pipe p =>
    have hr := hcounts.r p
    have hw := hcounts.w p
    have hbr := hb.r p
    have hbw := hb.w p
    simp only [refs]
    rcases hreads : reads s.m2s s.s2m p e with _ | _ <;> rcases hwrites : writes s.m2s s.s2m p e with _ | _ <;>
      rw [hreads] at hr <;> rw [hwrites] at hw <;> simp only [Bool.toNat_true,Bool.toNat_false] at hr hw <;> grind
  | pty y =>
    have hy := hcounts.pty y
    have hby := hb.pty y
    simp only [refs]
    cases hof : ofPty y e with
    | true =>
      rw [hof,Bool.toNat_true] at hy
      have := hby hof
      omega
    | false =>
      rw [hof,Bool.toNat_false] at hy
      omega
  | channel c => simp only [refs,hfrees]

/-- The descriptor without its handle and offset. -/
def bare : Entry → Entry
  | .userfs c _ _ => .userfs c 0 0
  | e => e

/-- The references are the same, and so is what the descriptors lead to. -/
structure Alike (s t : Sys) : Prop where
  r : ∀ p, (t.pipe p).rRefs = (s.pipe p).rRefs
  w : ∀ p, (t.pipe p).wRefs = (s.pipe p).wRefs
  pty : t.ptyRefs = s.ptyRefs
  m2s : t.m2s = s.m2s
  s2m : t.s2m = s.s2m
  frees : t.frees = s.frees
  slots : ∀ fd, (t.slots fd).map bare = (s.slots fd).map bare

lemma Alike.refl (s : Sys) : Alike s s := ⟨fun _ => rfl,fun _ => rfl,rfl,rfl,rfl,rfl,fun _ => rfl⟩

lemma Alike.any (h : Alike s t) {q : Entry → Bool} (hq : ∀ e, q (bare e) = q e) (fd : ℕ) : (t.slots fd).any q = (s.slots fd).any q := by
  have hbare (o : Option Entry) : o.any q = (o.map bare).any q := by
    cases o with
    | none => rfl
    | some e => exact (hq e).symm
  rw [hbare,h.slots,← hbare]

lemma Alike.refs (h : Alike s t) : t.refs = s.refs := by
  funext o
  cases o with
  | pipe p => simp only [Sys.refs,h.r,h.w]
  | pty y => simp only [Sys.refs,h.pty]
  | channel c => simp only [Sys.refs,h.frees]

lemma Alike.held (h : Alike s t) (hs : Held out s) : Held out t where
  table fd hfd := by
    have := h.slots fd
    rw [hs.table fd hfd] at this
    exact Option.map_eq_none_iff.mp this
  r p := by
    rw [h.r,hs.r,h.m2s,h.s2m]
    congr 1
    exact (tally_congr fun fd _ => h.any (by intro e; cases e <;> rfl) fd).symm
  w p := by
    rw [h.w,hs.w,h.m2s,h.s2m]
    congr 1
    exact (tally_congr fun fd _ => h.any (by intro e; cases e <;> rfl) fd).symm
  pty y := by
    rw [h.pty,hs.pty]
    congr 1
    exact (tally_congr fun fd _ => h.any (by intro e; cases e <;> rfl) fd).symm

/-- A call is inside the object, or a descriptor leads to it. -/
def Reaches (s : Sys) (o : Obj) : Prop := s.InUse o ∨ ∃ fd e, s.slots fd = some e ∧ Refers s.m2s s.s2m e o

/-- The references stay, and the calls go on with what was in reach. -/
structure Mild (s t : Sys) : Prop where
  alike : Alike s t
  calls : ∀ o, t.InUse o → s.Reaches o

lemma Inv.not_freed (hs : Inv out known s) (h : s.Reaches o) : o ∉ s.frees := by
  rcases h with h | ⟨fd,e,he,ho⟩
  · exact hs.calls o h
  · exact hs.alive he ho

lemma Mild.inv (h : Mild s t) (hs : Inv out known s) : Inv out known t where
  held := h.alike.held hs.held
  tracked := by
    rw [h.alike.refs,h.alike.frees]
    exact hs.tracked
  channels fd c handle offset he := by
    have hslot := h.alike.slots fd
    rw [he,map_some] at hslot
    obtain ⟨e,he',hbare⟩ := Option.map_eq_some_iff.mp hslot.symm
    cases e with
    | userfs c' handle' offset' =>
      cases hbare
      rw [h.alike.frees]
      exact hs.channels fd c handle' offset' he'
    | _ => cases hbare
  calls o ho := by
    rw [h.alike.frees]
    exact hs.not_freed (h.calls o ho)

lemma mild_setCall (h : Alike s t) (hcall : t.call = s.call) (k' : Option Call)
    (hk : ∀ k, k' = some k → ∀ o ∈ k.uses s.m2s, s.Reaches o) : Mild s (t.setCall i k') where
  alike := ⟨h.r,h.w,h.pty,h.m2s,h.s2m,h.frees,h.slots⟩
  calls o ho := by
    obtain ⟨j,k,hj,hmem⟩ := ho
    have hmem' : o ∈ k.uses s.m2s := h.m2s ▸ hmem
    by_cases hji : j = i
    · subst hji
      have hself : (t.setCall j k').call j = k' := update_self ..
      rw [hself] at hj
      exact hk k hj o hmem'
    · have hother : (t.setCall i k').call j = t.call j := update_of_ne hji ..
      rw [hother,hcall] at hj
      exact .inl ⟨j,k,hj,hmem'⟩

lemma mild_ret (h : Alike s t) (hcall : t.call = s.call) (v : ℤ) : Mild s (t.ret i v).2 :=
  mild_setCall h hcall none fun _ hk => nomatch hk

lemma mild_stay (h : Alike s t) (hcall : t.call = s.call) (hk : ∀ o ∈ k.uses s.m2s, s.Reaches o) : Mild s (t.stay i k).2 :=
  mild_setCall h hcall (some k) fun k' hk' => by
    cases hk'
    exact hk

lemma mild_wrote (h : Alike s t) (hcall : t.call = s.call) (kind : Entry) (w : Writing) (v : ℤ) : Mild s (t.wrote i kind w v).2 := by
  unfold wrote
  split
  · exact mild_ret h hcall _
  · exact mild_stay h hcall fun o ho => nomatch ho

lemma alike_setPipe {v : Pipe} (hr : v.rRefs = (s.pipe p).rRefs) (hw : v.wRefs = (s.pipe p).wRefs) : Alike s (s.setPipe p v) := by
  refine ⟨fun q => ?_,fun q => ?_,rfl,rfl,rfl,rfl,fun _ => rfl⟩
  · simp only [setPipe,update_apply]
    split
    · next h => rw [h,hr]
    · rfl
  · simp only [setPipe,update_apply]
    split
    · next h => rw [h,hw]
    · rfl

lemma alike_setChan (s : Sys) (c : ℕ) (m : Mount) : Alike s (s.setChan c m) := ⟨fun _ => rfl,fun _ => rfl,rfl,rfl,rfl,rfl,fun _ => rfl⟩

lemma alike_advance (s : Sys) (fd n : ℕ) : Alike s (s.advance fd n) ∧ (s.advance fd n).call = s.call := by
  unfold advance
  split
  · next c handle offset he =>
    refine ⟨⟨fun _ => rfl,fun _ => rfl,rfl,rfl,rfl,rfl,fun fd' => ?_⟩,rfl⟩
    by_cases h : fd' = fd
    · subst h
      simp only [setSlot,update_self,he]
      rfl
    · simp [setSlot,h]
  · exact ⟨.refl s,rfl⟩

lemma readTurn_refs {v : Pipe} {len : ℕ} {woken late sig : Bool} {x : ℤ} {bytes : List UInt8} {v' : Pipe}
    (h : v.readTurn woken len late sig = .ret x bytes v') : v'.rRefs = v.rRefs ∧ v'.wRefs = v.wRefs := by
  unfold Pipe.readTurn at h
  split_ifs at h <;> cases h <;> exact ⟨rfl,rfl⟩

lemma writeTurn_refs {v v' : Pipe} {src : List UInt8} {written n : ℕ} {late : Bool}
    (h : v.writeTurn src written late = .moved n v') : v'.rRefs = v.rRefs ∧ v'.wRefs = v.wRefs := by
  unfold Pipe.writeTurn at h
  split_ifs at h
  cases h
  exact ⟨rfl,rfl⟩

lemma mild_beginCall (s : Sys) (req : Request) (hk : ∀ o ∈ k.uses s.m2s, s.Reaches o) : Mild s (s.beginCall i c req k).2 :=
  mild_stay (alike_setChan s c _) rfl hk

lemma reaches_slot (he : s.slots fd = some e) (ho : Refers s.m2s s.s2m e o) : s.Reaches o := .inr ⟨fd,e,he,ho⟩

lemma reaches_own (hk : s.call i = some k) : ∀ o ∈ k.uses s.m2s, s.Reaches o := fun _ ho => .inl ⟨i,k,hk,ho⟩

lemma refers_reads (h : reads s.m2s s.s2m p e = true) : Refers s.m2s s.s2m e (.pipe p) := by
  left
  simp only [weight,h,Bool.toNat_true]
  omega

lemma refers_writes (h : writes s.m2s s.s2m p e = true) : Refers s.m2s s.s2m e (.pipe p) := by
  left
  simp only [weight,h,Bool.toNat_true]
  omega

lemma refers_pty {y : ℕ} (h : ofPty y e = true) : Refers s.m2s s.s2m e (.pty y) := by
  left
  simp only [weight,h,Bool.toNat_true]
  omega

lemma reaches_pipe (he : (s.slots fd).bind Entry.pipe = some p) : s.Reaches (.pipe p) := by
  obtain ⟨e,he',hp⟩ := Option.bind_eq_some_iff.mp he
  cases e with
  | pipeR q =>
    cases hp
    exact reaches_slot he' (refers_reads (beq_self_eq_true p))
  | pipeW q =>
    cases hp
    exact reaches_slot he' (refers_writes (beq_self_eq_true p))
  | _ => cases hp

lemma reaches_one {a : Obj} (h : s.Reaches a) : ∀ o ∈ [a], s.Reaches o := fun _ ho => by
  obtain rfl := List.mem_singleton.mp ho
  exact h

lemma reaches_channel {handle : UInt32} {offset : UInt64} (he : s.slots fd = some (.userfs c handle offset)) : s.Reaches (.channel c) :=
  reaches_slot he (.inr ⟨c,handle,offset,rfl,rfl⟩)

lemma loop_mild (s : Sys) (i : ℕ) (kind : Entry) (w : Writing) : Mild s (s.loop i kind w).2 := by
  unfold Sys.loop
  split
  · exact mild_ret (.refl s) rfl _
  split
  · split
    · next p hp => exact mild_stay (.refl s) rfl (reaches_one (reaches_pipe hp))
    · exact mild_wrote (.refl s) rfl _ _ _
  · split
    · next c handle offset he => exact mild_beginCall s _ (reaches_one (reaches_channel he))
    · exact mild_wrote (.refl s) rfl _ _ _
  · split
    · next y he =>
      refine mild_stay (.refl s) rfl fun o ho => ?_
      rcases List.mem_cons.mp ho with rfl | ho
      · exact reaches_slot he (refers_writes (beq_self_eq_true _))
      · exact reaches_one (reaches_slot he (refers_pty (beq_self_eq_true y))) o ho
    · next y he => exact mild_stay (.refl s) rfl (reaches_one (reaches_slot he (refers_writes (beq_self_eq_true _))))
    · exact mild_wrote (.refl s) rfl _ _ _

lemma finish_mild (s : Sys) (i c : ℕ) (k : Call) (hk : ∀ c fd, k ≠ .close c fd) : Mild s (s.finish i c k).2 := by
  unfold Sys.finish
  split
  · next fd n =>
    split
    · next rsp _ =>
      split
      · exact mild_ret (.refl s) rfl _
      · exact mild_ret (alike_advance s _ _).1 (alike_advance s _ _).2 _
    · exact mild_ret (.refl s) rfl _
  · next n kind w =>
    split
    · next rsp _ =>
      split
      · exact mild_wrote (.refl s) rfl _ _ _
      · dsimp only
        split
        · exact mild_ret (alike_advance s _ _).1 (alike_advance s _ _).2 _
        · exact mild_wrote (alike_advance s _ _).1 (alike_advance s _ _).2 _ _ _
    · exact mild_wrote (.refl s) rfl _ _ _
  · next c fd => exact absurd rfl (hk c fd)
  · exact mild_ret (.refl s) rfl _

lemma userTurn_mild (hc : ∀ o ∈ k.uses s.m2s, s.Reaches o) (hk : ∀ c fd, k = .close c fd → (s.chan c).calls i ≠ none)
    (c : ℕ) (hch : ∀ c' fd, k = .close c' fd → c' = c) (late sig : Bool) :
    Mild s (match (s.chan c).calls i with
      | none => s.finish i c k
      | some call => (s.setChan c ((s.chan c).turn i call late sig)).stay i k).2 := by
  split
  · next hnone =>
    refine finish_mild s i c k fun c' fd heq => ?_
    obtain rfl := hch c' fd heq
    exact hk c' fd heq hnone
  · exact mild_stay (alike_setChan s c _) rfl hc

lemma turn_mild (hcall : s.call i = some k) (hk : ∀ c fd, k = .close c fd → (s.chan c).calls i ≠ none) (late sig : Bool) :
    Mild s (s.turn i k late sig).2 := by
  have hown := reaches_own hcall
  unfold Sys.turn
  split
  · next p len woken =>
    split
    · exact mild_stay (.refl s) rfl hown
    · next now =>
      obtain ⟨hr,hw⟩ := readTurn_refs now
      exact mild_ret (alike_setPipe hr hw) rfl _
  · exact loop_mild s i _ _
  · split
    · exact mild_stay (.refl s) rfl hown
    · next now =>
      obtain ⟨hr,hw⟩ := writeTurn_refs now
      exact mild_stay (alike_setPipe hr hw) rfl hown
    · exact mild_wrote (.refl s) rfl _ _ _
  · next y kind chunk accepted w =>
    split
    · exact mild_wrote (.refl s) rfl _ _ _
    · split
      · exact mild_stay (.refl s) rfl hown
      · split
        · exact mild_stay (.refl s) rfl hown
        · next now =>
          obtain ⟨hr,hw⟩ := writeTurn_refs now
          exact mild_stay (alike_setPipe hr hw) rfl hown
        · exact mild_wrote (.refl s) rfl _ _ _
  · exact userTurn_mild hown hk _ (fun _ _ h => nomatch h) late sig
  · exact userTurn_mild hown hk _ (fun _ _ h => nomatch h) late sig
  · exact userTurn_mild hown hk _ (fun _ _ h => by cases h; rfl) late sig

lemma read_mild (s : Sys) (i fd len : ℕ) : Mild s (s.read i fd len).2 := by
  unfold Sys.read
  split
  · exact mild_ret (.refl s) rfl _
  · next p he =>
    split
    · exact mild_ret (.refl s) rfl _
    · exact mild_stay (.refl s) rfl (reaches_one (reaches_slot he (refers_reads (beq_self_eq_true p))))
  · exact mild_ret (.refl s) rfl _
  · next y he =>
    split
    · exact mild_ret (.refl s) rfl _
    · exact mild_stay (.refl s) rfl (reaches_one (reaches_slot he (refers_reads (beq_self_eq_true _))))
  · next y he =>
    split
    · exact mild_ret (.refl s) rfl _
    · exact mild_stay (.refl s) rfl (reaches_one (reaches_slot he (refers_reads (beq_self_eq_true _))))
  · next c handle offset he =>
    dsimp only
    split
    · exact mild_ret (.refl s) rfl _
    · exact mild_beginCall s _ (reaches_one (reaches_channel he))
  · exact mild_ret (.refl s) rfl _

lemma write_mild (s : Sys) (i fd : ℕ) (bytes : List UInt8) : Mild s (s.write i fd bytes).2 := by
  unfold Sys.write
  split
  · exact mild_ret (.refl s) rfl _
  · exact mild_ret (.refl s) rfl _
  · exact mild_ret (.refl s) rfl _
  · exact mild_stay (.refl s) rfl fun o ho => nomatch ho

lemma Inv.ret (hs : Inv out known s) (v : ℤ) : Inv out known (s.ret i v).2 := (mild_ret (.refl s) rfl v).inv hs

lemma release_channels (s : Sys) (e : Entry) (c : ℕ) : .channel c ∈ (s.release (some e)).frees ↔ .channel c ∈ s.frees := by
  have hpipe (s : Sys) (p : ℕ) : .channel c ∈ (s.freeIfUnused p).frees ↔ .channel c ∈ s.frees := by
    rw [freeIfUnused_frees]
    split
    · rw [mem_cons,or_iff_right nofun]
    · exact .rfl
  have hR (s : Sys) (p : ℕ) : .channel c ∈ (s.unrefR p).frees ↔ .channel c ∈ s.frees := hpipe _ _
  have hW (s : Sys) (p : ℕ) : .channel c ∈ (s.unrefW p).frees ↔ .channel c ∈ s.frees := hpipe _ _
  have hPty (s : Sys) (y : ℕ) : .channel c ∈ (s.unrefPty y).frees ↔ .channel c ∈ s.frees := by
    by_cases hz : s.ptyRefs y - 1 = 0 <;> simp [unrefPty,hz]
  cases e with
  | pipeR p => exact hR s p
  | pipeW p => exact hW s p
  | ptyMaster y | ptySlave y => exact (hPty _ y).trans ((hW _ _).trans (hR _ _))
  | userfs c' handle offset | other => exact .rfl

lemma release_refs (hs : Held out s) (he : s.slots fd = some e) (hcounts : Counts (· - ·) e s t) (hchan : ∀ c, o ≠ .channel c) :
    t.refs o = s.refs o - weight s.m2s s.s2m e o := by
  have hback := hs.backs he
  cases o with
  | pipe p =>
    have hr := hback.r p
    have hw := hback.w p
    simp only [refs,weight,hcounts.r,hcounts.w]
    cases hreads : reads s.m2s s.s2m p e <;> cases hwrites : writes s.m2s s.s2m p e
    · rfl
    · have := hw hwrites
      simp only [Bool.toNat_true,Bool.toNat_false]
      omega
    · have := hr hreads
      simp only [Bool.toNat_true,Bool.toNat_false]
      omega
    · have := hr hreads
      have := hw hwrites
      simp only [Bool.toNat_true]
      omega
  | pty y => exact hcounts.pty y
  | channel c => exact absurd rfl (hchan c)

lemma inUse_alive (hs : Inv out known s) (hquiet : s.Quiet e) (he : s.slots fd = some e) (ho : s.InUse o) :
    o ∉ (s.release (some e)).frees := by
  have halive := hs.calls o ho
  have hcounts := (release_counts s e).2
  have ht := release_tracked hs.tracked (hs.held.backs he)
  intro hmem
  by_cases hchan : ∃ c, o = .channel c
  · obtain ⟨c,rfl⟩ := hchan
    exact halive ((release_channels s e c).mp hmem)
  have hrefs := release_refs hs.held he hcounts (o := o) fun c hc => hchan ⟨c,hc⟩
  have hknown : known o := by
    by_contra hno
    exact List.count_eq_zero.mp (ht.alive o (.inr hno)) hmem
  have hzero := (ht.mem_iff hknown).mp hmem
  have hpos : 0 < s.refs o := by
    by_contra hz
    exact halive ((hs.tracked.mem_iff hknown).mpr (by omega))
  have hle := hs.held.weight_le he o
  exact hquiet o (by omega) (by omega) ho

lemma inv_release (hs : Inv out known s) (he : s.slots fd = some e) (hquiet : s.Quiet e) :
    Inv out known ((s.release (some e)).setSlot fd none) := by
  obtain ⟨hframe,hcounts⟩ := release_counts s e
  have hlt := hs.held.lt he
  have htally (q : Entry → Bool) : tally fdTableSize (update s.slots fd none) q + (q e).toNat = tally fdTableSize s.slots q := by
    have : tally fdTableSize (update s.slots fd none) q + ((s.slots fd).any q).toNat =
        tally fdTableSize s.slots q + ((none : Option Entry).any q).toNat := tally_update none hlt
    rwa [he,any_some,any_none,Bool.toNat_false,Nat.add_zero] at this
  refine ⟨⟨fun fd' hfd => ?_,fun p => ?_,fun p => ?_,fun y => ?_⟩,release_tracked hs.tracked (hs.held.backs he),?_,?_⟩
  · have hne : fd' ≠ fd := by omega
    simp only [setSlot,hframe.slots,update_of_ne hne]
    exact hs.held.table fd' hfd
  · have := htally (reads s.m2s s.s2m p)
    have hr := hs.held.r p
    simp only [setSlot,hframe.slots,hframe.m2s,hframe.s2m,hcounts.r]
    omega
  · have := htally (writes s.m2s s.s2m p)
    have hw := hs.held.w p
    simp only [setSlot,hframe.slots,hframe.m2s,hframe.s2m,hcounts.w]
    omega
  · have := htally (ofPty y)
    have hy := hs.held.pty y
    simp only [setSlot,hframe.slots,hcounts.pty]
    omega
  · intro fd' c handle offset h
    simp only [setSlot,hframe.slots] at h ⊢
    rw [release_channels]
    by_cases hne : fd' = fd
    · subst hne
      rw [update_self] at h
      cases h
    · rw [update_of_ne hne] at h
      exact hs.channels fd' c handle offset h
  · intro o ho
    apply inUse_alive hs hquiet he
    obtain ⟨j,k,hj,hmem⟩ := ho
    refine ⟨j,k,?_,?_⟩
    · have := hframe.call
      simp only [setSlot] at hj
      rwa [this] at hj
    · simpa only [setSlot,hframe.m2s] using hmem

lemma inv_copy {new : ℕ} (hs : Inv out known s) (he : s.slots fd = some e) (hnew : s.slots new = none) (hlt : new < fdTableSize) :
    Inv out known ((s.setSlot new (some e)).retain e) := by
  obtain ⟨hframe,hfrees,hcounts⟩ := retain_counts (s.setSlot new (some e)) e
  have hback : Backs (s.setSlot new (some e)) e := ⟨(hs.held.backs he).r,(hs.held.backs he).w,(hs.held.backs he).pty⟩
  have htally (q : Entry → Bool) : tally fdTableSize (update s.slots new (some e)) q = tally fdTableSize s.slots q + (q e).toNat := by
    have : tally fdTableSize (update s.slots new (some e)) q + ((s.slots new).any q).toNat =
        tally fdTableSize s.slots q + ((some e).any q).toNat := tally_update (some e) hlt
    rwa [hnew,any_some,any_none,Bool.toNat_false,Nat.add_zero] at this
  refine ⟨⟨fun fd' hfd => ?_,fun p => ?_,fun p => ?_,fun y => ?_⟩,retain_tracked hs.tracked hback,?_,?_⟩
  · have hne : fd' ≠ new := by omega
    rw [hframe.slots]
    simp only [setSlot,update_of_ne hne]
    exact hs.held.table fd' hfd
  · have := htally (reads s.m2s s.s2m p)
    have hr := hs.held.r p
    rw [hcounts.r,hframe.slots,hframe.m2s,hframe.s2m]
    simp only [setSlot]
    omega
  · have := htally (writes s.m2s s.s2m p)
    have hw := hs.held.w p
    rw [hcounts.w,hframe.slots,hframe.m2s,hframe.s2m]
    simp only [setSlot]
    omega
  · have := htally (ofPty y)
    have hy := hs.held.pty y
    rw [hcounts.pty,hframe.slots]
    simp only [setSlot]
    omega
  · intro fd' c handle offset h
    rw [hfrees]
    rw [hframe.slots] at h
    simp only [setSlot] at h ⊢
    by_cases hne : fd' = new
    · subst hne
      rw [update_self] at h
      cases h
      exact hs.channels fd c handle offset he
    · rw [update_of_ne hne] at h
      exact hs.channels fd' c handle offset h
  · intro o ho
    rw [hfrees]
    refine hs.calls o ?_
    obtain ⟨j,k,hj,hmem⟩ := ho
    refine ⟨j,k,?_,?_⟩
    · rw [hframe.call] at hj
      exact hj
    · rw [hframe.m2s] at hmem
      exact hmem

lemma inv_dup2 {old new : ℕ} (hs : Inv out known s) (hquiet : old ≠ new → s.slots old ≠ none → ∀ e, s.slots new = some e → s.Quiet e) :
    Inv out known (s.dup2 i old new).2 := by
  unfold Sys.dup2
  split
  · exact hs.ret _
  next hlt =>
  rw [not_or,not_le,not_le] at hlt
  split
  · exact hs.ret _
  next e he =>
  split
  · exact hs.ret _
  next hne =>
  refine Inv.ret ?_ _
  cases hd : s.slots new with
  | none => exact inv_copy hs he hd hlt.2
  | some d =>
    have hrel := inv_release hs hd (hquiet hne (by rw [he]; nofun) d hd)
    have hslots := (release_counts s d).1.slots
    have hold : ((s.release (some d)).setSlot new none).slots old = some e := by
      simp only [setSlot,hslots,update_of_ne hne]
      exact he
    have hcopy := inv_copy hrel hold (update_self ..) hlt.2
    have hsame : ((s.release (some d)).setSlot new none).setSlot new (some e) = (s.release (some d)).setSlot new (some e) := by
      simp only [setSlot,update_idem]
    rwa [hsame] at hcopy

lemma inv_close (hs : Inv out known s) (hquiet : 3 ≤ fd → ∀ e, s.slots fd = some e → s.Quiet e) : Inv out known (s.close i fd).2 := by
  unfold Sys.close
  split
  · exact hs.ret _
  next e he =>
  split
  · exact hs.ret _
  next hfd =>
  split
  · next c handle offset => exact (mild_beginCall (k := .close c fd) s _ (reaches_one (reaches_channel he))).inv hs
  · exact (inv_release hs he (hquiet (by omega) _ he)).ret _

lemma inv_finish (hs : Inv out known s) (h : ∀ e, s.slots fd = some e → ∀ o, weight s.m2s s.s2m e o = 0) (f : ℕ → ℕ) :
    Inv out known (({ s with openFds := f }.setSlot fd none).ret i 0).2 := by
  refine Inv.ret ?_ _
  have hany {q : Entry → Bool} (hq : ∀ e, s.slots fd = some e → q e = false) :
      tally fdTableSize (update s.slots fd none) q = tally fdTableSize s.slots q := by
    refine (tally_congr fun fd' _ => ?_).symm
    by_cases hne : fd' = fd
    · subst hne
      rw [update_self]
      cases he : s.slots fd' with
      | none => rfl
      | some e =>
        rw [any_some,hq e he]
        rfl
    · rw [update_of_ne hne]
  have hpipe (p : ℕ) (e : Entry) (he : s.slots fd = some e) : reads s.m2s s.s2m p e = false ∧ writes s.m2s s.s2m p e = false := by
    have := h e he (.pipe p)
    simp only [weight] at this
    exact ⟨Bool.toNat_eq_zero.mp (by omega),Bool.toNat_eq_zero.mp (by omega)⟩
  refine ⟨⟨fun fd' hfd => ?_,fun p => ?_,fun p => ?_,fun y => ?_⟩,hs.tracked,fun fd' c handle offset he => ?_,fun o ho => hs.calls o ho⟩
  · simp only [setSlot,update_apply]
    split
    · rfl
    · exact hs.held.table fd' hfd
  · exact (hs.held.r p).trans (congrArg (· + out.r p) (hany fun e he => (hpipe p e he).1).symm)
  · exact (hs.held.w p).trans (congrArg (· + out.w p) (hany fun e he => (hpipe p e he).2).symm)
  · refine (hs.held.pty y).trans (congrArg (· + out.pty y) (hany fun e he => ?_).symm)
    exact Bool.toNat_eq_zero.mp (h e he (.pty y))
  · simp only [setSlot,update_apply] at he
    split at he
    · cases he
    · exact hs.channels fd' c handle offset he

lemma inv_umount (hs : Inv out known s) (hmounted : .channel c ∉ s.frees) (hslots : ∀ fd handle offset, s.slots fd ≠ some (.userfs c handle offset))
    (hcalls : ¬ s.InUse (.channel c)) (m : Mount) : Inv out known { s.setChan c m with frees := .channel c :: s.frees } := by
  have hpos : s.refs (.channel c) = 1 := if_neg hmounted
  have hrefs : Sys.refs { s.setChan c m with frees := .channel c :: s.frees } = update s.refs (.channel c) (s.refs (.channel c) - 1) := by
    funext o
    cases o with
    | channel d =>
      by_cases h : d = c
      · subst h
        rw [update_self,hpos]
        exact if_pos mem_cons_self
      · rw [update_of_ne fun heq => h (Obj.channel.inj heq)]
        refine if_congr ?_ rfl rfl
        rw [mem_cons,or_iff_right fun heq => h (Obj.channel.inj heq)]
    | pipe p => rw [update_of_ne (show Obj.pipe p ≠ .channel c from nofun)]; rfl
    | pty y => rw [update_of_ne (show Obj.pty y ≠ .channel c from nofun)]; rfl
  have htracked := hs.tracked.drop (a := .channel c) (by omega)
  rw [if_pos (by omega),← hrefs] at htracked
  refine ⟨⟨hs.held.table,hs.held.r,hs.held.w,hs.held.pty⟩,htracked,fun fd d handle offset he hmem => ?_,fun o ho hmem => ?_⟩
  · rcases List.mem_cons.mp hmem with heq | hmem
    · cases heq
      exact hslots fd handle offset he
    · exact hs.channels fd d handle offset he hmem
  · rcases List.mem_cons.mp hmem with rfl | hmem
    · exact hcalls ho
    · exact hs.calls o ho hmem

lemma step_inv {ev : Event} (hs : Inv out known s) (ok : s.Meets ev) (h : s.step ev = some (r,t)) : Inv out known t := by
  cases ev with
  | read i fd len =>
    simp only [step,enter] at h
    split at h
    · cases h
    obtain rfl := congrArg Prod.snd (some.inj h)
    split
    · exact hs.ret _
    · exact (read_mild s i fd len).inv hs
  | write i fd bytes =>
    simp only [step,enter] at h
    split at h
    · cases h
    obtain rfl := congrArg Prod.snd (some.inj h)
    split
    · exact hs.ret _
    · exact (write_mild s i fd bytes).inv hs
  | close i fd =>
    simp only [step,enter] at h
    split at h
    · cases h
    obtain rfl := congrArg Prod.snd (some.inj h)
    split
    · exact hs.ret _
    · exact inv_close hs ok
  | dup2 i old new =>
    simp only [step,enter] at h
    split at h
    · cases h
    obtain rfl := congrArg Prod.snd (some.inj h)
    exact inv_dup2 hs ok
  | turn i late sig =>
    obtain ⟨k,hk,hturn⟩ := Option.map_eq_some_iff.mp h
    have ht : t = (s.turn i k late sig).2 := (congrArg Prod.snd hturn).symm
    subst ht
    by_cases hclose : ∃ c fd, k = .close c fd ∧ (s.chan c).calls i = none
    · obtain ⟨c,fd,rfl,hnone⟩ := hclose
      simp only [turn,hnone,finish]
      exact inv_finish hs (ok c fd hk hnone) _
    · exact (turn_mild hk (fun c fd heq hnone => hclose ⟨c,fd,heq,hnone⟩) late sig).inv hs
  | peerWrite p bytes | peerRead p n =>
    cases h
    exact Mild.inv ⟨alike_setPipe rfl rfl,fun o ho => .inl ho⟩ hs
  | daemonWrite c bytes | daemonRead c n =>
    obtain ⟨m,_,hm⟩ := Option.map_eq_some_iff.mp h
    cases hm
    exact Mild.inv ⟨alike_setChan s c _,fun o ho => .inl ho⟩ hs
  | umount c =>
    simp only [step] at h
    split at h
    · cases h
    next hmounted =>
    split at h
    · cases h
      exact hs
    · next hopen =>
      cases h
      obtain ⟨hslots,hcalls⟩ := ok (by omega)
      exact inv_umount hs hmounted hslots hcalls _

/-- Any table, with the references of its descriptors and others, and nobody in a call. -/
structure Start (out : Outside) (s : Sys) : Prop where
  held : Held out s
  idle : ∀ i, s.call i = none
  nothing : s.frees = []

def Outside.refs (out : Outside) : Obj → ℕ
  | .pipe p => out.r p + out.w p
  | .pty y => out.pty y
  | .channel _ => 0

lemma Start.inv (h : Start out s) : Inv out (fun o => 0 < s.refs o) s where
  held := h.held
  tracked := by
    rw [h.nothing]
    exact ⟨fun _ ho => ho,fun o hpos hz => absurd hz hpos.ne',fun _ _ => rfl⟩
  channels _ _ _ _ _ := by
    rw [h.nothing]
    exact not_mem_nil
  calls o ho := by
    obtain ⟨i,k,hk,_⟩ := ho
    rw [h.idle] at hk
    cases hk

lemma Held.refs_eq_zero (hs : Held out s) (hchan : ∀ c, o ≠ .channel c) :
    s.refs o = 0 ↔ out.refs o = 0 ∧ ∀ fd e, s.slots fd = some e → weight s.m2s s.s2m e o = 0 := by
  constructor
  · intro hz
    refine ⟨?_,fun fd e he => Nat.eq_zero_of_le_zero (hz ▸ hs.weight_le he o)⟩
    cases o with
    | pipe p =>
      have hr := hs.r p
      have hw := hs.w p
      simp only [refs,Outside.refs] at hz ⊢
      omega
    | pty y =>
      have hy := hs.pty y
      simp only [refs,Outside.refs] at hz ⊢
      omega
    | channel c => exact absurd rfl (hchan c)
  · rintro ⟨hout,hslots⟩
    have htally {q : Entry → Bool} (hq : ∀ fd e, s.slots fd = some e → q e = false) : tally fdTableSize s.slots q = 0 := by
      refine List.countP_eq_zero.mpr fun fd _ hany => ?_
      cases he : s.slots fd with
      | none =>
        rw [he] at hany
        cases hany
      | some e =>
        rw [he,any_some,hq fd e he] at hany
        cases hany
    cases o with
    | pipe p =>
      have hzero (fd : ℕ) (e : Entry) (he : s.slots fd = some e) : reads s.m2s s.s2m p e = false ∧ writes s.m2s s.s2m p e = false := by
        have := hslots fd e he
        simp only [weight] at this
        exact ⟨Bool.toNat_eq_zero.mp (by omega),Bool.toNat_eq_zero.mp (by omega)⟩
      have hr := hs.r p
      have hw := hs.w p
      rw [htally fun fd e he => (hzero fd e he).1] at hr
      rw [htally fun fd e he => (hzero fd e he).2] at hw
      simp only [refs,Outside.refs] at hout ⊢
      omega
    | pty y =>
      have hy := hs.pty y
      rw [htally fun fd e he => Bool.toNat_eq_zero.mp (hslots fd e he)] at hy
      simp only [refs,Outside.refs] at hout ⊢
      omega
    | channel c => exact absurd rfl (hchan c)

/-- Where nobody gives up the last references of an object that a call is inside of, no call is ever
inside an object that was freed, no object is freed twice, and a pipe or pty is freed as soon as
nothing refers to it. -/
theorem objects_outlive_calls {s₀ : Sys} (h : Start out s₀) (es : List Event) (s : Sys) (hrun : Runs step Meets s₀ es s) :
    (∀ i k, s.call i = some k → ∀ o ∈ k.uses s.m2s, o ∉ s.frees) ∧ s.frees.Nodup ∧
      ∀ o, (∀ c, o ≠ .channel c) → 0 < s₀.refs o →
        (o ∈ s.frees ↔ out.refs o = 0 ∧ ∀ fd e, s.slots fd = some e → weight s.m2s s.s2m e o = 0) := by
  have hs : Inv out (fun o => 0 < s₀.refs o) s := hrun.invariant (fun _ _ _ _ hs ok now => step_inv hs ok now) h.inv
  refine ⟨fun i k hk o ho => hs.calls o ⟨i,k,hk,ho⟩,hs.tracked.nodup,fun o hchan hpos => ?_⟩
  exact (hs.tracked.mem_iff hpos).trans (hs.held.refs_eq_zero hchan)

/-! A pipe with both ends in the table. -/

def onePipe : Sys where
  slots fd := if fd = 3 then some (.pipeR 0) else if fd = 4 then some (.pipeW 0) else none
  pipe p := if p = 0 then .alloc fun _ => 0 else ⟨⟨fun _ => 0,0,0,0⟩,0,0⟩
  m2s _ := 0
  s2m _ := 0
  ptyRefs _ := 0
  chan _ := .initial 0 fun _ => 0
  openFds _ := 0
  call _ := none
  frees := []

def nobody : Outside := ⟨fun _ => 0,fun _ => 0,fun _ => 0⟩

lemma start_onePipe : Start nobody onePipe := by
  refine ⟨⟨fun fd hfd => ?_,fun p => ?_,fun p => ?_,fun y => ?_⟩,fun _ => rfl,rfl⟩
  · have h16 : 16 ≤ fd := hfd
    simp only [onePipe]
    rw [if_neg (by omega),if_neg (by omega)]
  · by_cases hp : p = 0
    · subst hp
      decide
    · have htally : tally fdTableSize onePipe.slots (reads onePipe.m2s onePipe.s2m p) = 0 := by
        refine List.countP_eq_zero.mpr fun fd _ => ?_
        simp only [onePipe]
        split_ifs <;> simp [reads,Ne.symm hp]
      rw [htally]
      simp [onePipe,hp,nobody]
  · by_cases hp : p = 0
    · subst hp
      decide
    · have htally : tally fdTableSize onePipe.slots (writes onePipe.m2s onePipe.s2m p) = 0 := by
        refine List.countP_eq_zero.mpr fun fd _ => ?_
        simp only [onePipe]
        split_ifs <;> simp [writes,Ne.symm hp]
      rw [htally]
      simp [onePipe,hp,nobody]
  · have htally : tally fdTableSize onePipe.slots (ofPty y) = 0 := by
      refine List.countP_eq_zero.mpr fun fd _ => ?_
      simp only [onePipe]
      split_ifs <;> simp [ofPty]
    rw [htally]
    rfl

theorem objects_outlive_calls_read : ∃ es s, Runs step Meets onePipe es s ∧ s.call 0 = some (.read 0 1 true) ∧
    .pipe 0 ∉ s.frees := by
  let es : List Event := [.read 0 3 1,.turn 0 false false]
  have hrun : ∃ s, execute step onePipe es = some s ∧ s.call 0 = some (.read 0 1 true) := ⟨_,rfl,rfl⟩
  obtain ⟨s,hs,hcall⟩ := hrun
  have hmeets : Runs step Meets onePipe es s := by
    obtain ⟨⟨r₁,s₁⟩,h₁,h₂⟩ := Option.bind_eq_some_iff.mp hs
    obtain ⟨⟨r₂,s₂⟩,h₃,h₄⟩ := Option.bind_eq_some_iff.mp h₂
    cases h₄
    refine .cons trivial h₁ (.cons ?_ h₃ (.nil _))
    intro c fd hclose
    cases h₁
    cases hclose
  exact ⟨es,s,hmeets,hcall,(objects_outlive_calls start_onePipe es s hmeets).1 0 _ hcall _ mem_cons_self⟩

/-- A thread closes both ends while another waits in the read. -/
theorem freed_under_read : ∃ es s, Runs step (fun _ _ => True) onePipe es s ∧
    ∃ i k o, s.call i = some k ∧ o ∈ k.uses s.m2s ∧ o ∈ s.frees := by
  let es : List Event := [.read 0 3 1,.turn 0 false false,.close 1 4,.close 1 3]
  have hrun : ∃ s, execute step onePipe es = some s ∧ s.call 0 = some (.read 0 1 true) ∧ s.frees = [.pipe 0] := ⟨_,rfl,rfl,rfl⟩
  obtain ⟨s,hs,hcall,hfrees⟩ := hrun
  refine ⟨es,s,Runs.of_execute hs,0,_,.pipe 0,hcall,mem_cons_self,?_⟩
  rw [hfrees]
  exact mem_cons_self

end Sys
end VibeOS.Vfs.SharedTable

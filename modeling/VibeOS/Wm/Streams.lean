import VibeOS.Wm.Focus
import VibeOS.Wm.Rings

/-! The events that a process polls from its windows, over all runs. -/
namespace VibeOS.Wm
open List Option

variable {k : UInt32} {e last : GuiEvent} {es es' g r : List GuiEvent}

def IsKey (k : UInt32) (e : GuiEvent) : Prop := e.type = guiEventKey ∧ e.arg0 = k

def IsKeyUp (k : UInt32) (e : GuiEvent) : Prop := e.type = guiEventKeyUp ∧ e.arg0 = k

structure Quiet (e : GuiEvent) : Prop where
  key : e.type ≠ guiEventKey
  keyUp : e.type ≠ guiEventKeyUp

lemma quiet_of_type (type : UInt32) (he : e.type = type) (ht : type ≠ guiEventKey ∧ type ≠ guiEventKeyUp) : Quiet e :=
  ⟨he ▸ ht.1,he ▸ ht.2⟩

lemma key_ne_keyUp : guiEventKey ≠ guiEventKeyUp := by decide

/-- The stream has a press of the key and no release of it after that. -/
def Unmatched (k : UInt32) (es : List GuiEvent) : Prop :=
  ∃ pre e post, es = pre ++ e :: post ∧ IsKey k e ∧ ∀ u ∈ post, ¬ IsKeyUp k u

/-- Every release follows a press of its key that no other one has matched. -/
def Paired (es : List GuiEvent) : Prop :=
  ∀ pre e post, es = pre ++ e :: post → e.type = guiEventKeyUp → Unmatched e.arg0 pre

/-- A stream that was generated, and what is left of it: an event may be dropped, and one that moves
the pointer or resizes the window may take the place of the one before it. -/
inductive Delivered : List GuiEvent → List GuiEvent → Prop
  | nil : Delivered [] []
  | kept {g r : List GuiEvent} {e : GuiEvent} : Delivered g r → Delivered (g ++ [e]) (r ++ [e])
  | merged {g r : List GuiEvent} {last e : GuiEvent} : Delivered g (r ++ [last]) → last.type = e.type →
    e.type = guiEventMouseMove ∨ e.type = guiEventResize → Delivered (g ++ [e]) (r ++ [e])
  | dropped {g r : List GuiEvent} {e : GuiEvent} : Delivered g r → Delivered (g ++ [e]) r

lemma Delivered.sublist (h : Delivered g r) : r.Sublist g := by
  induction h with
  | nil => exact List.Sublist.refl _
  | kept _ ih => exact ih.append (List.Sublist.refl _)
  | merged _ _ _ ih => exact ((sublist_append_left _ _).trans ih).append (List.Sublist.refl _)
  | dropped _ ih => exact ih.trans (sublist_append_left _ _)

lemma not_unmatched_nil : ¬ Unmatched k [] := by
  rintro ⟨pre,e,post,h,-⟩
  exact absurd h.symm (by simp)

lemma unmatched_concat : Unmatched k (es ++ [e]) ↔ IsKey k e ∨ (Unmatched k es ∧ ¬ IsKeyUp k e) := by
  constructor
  · rintro ⟨pre,f,post,h,hf,hpost⟩
    rcases eq_nil_or_concat post with rfl | ⟨post,u,rfl⟩
    · obtain ⟨-,he⟩ := append_inj' h rfl
      obtain rfl := List.singleton_inj.mp he
      exact .inl hf
    · rw [concat_eq_append] at h hpost
      have hsplit : es ++ [e] = (pre ++ f :: post) ++ [u] := by rw [h,append_assoc,cons_append]
      obtain ⟨hes,he⟩ := append_inj' hsplit rfl
      obtain rfl := List.singleton_inj.mp he
      exact .inr ⟨⟨pre,f,post,hes,hf,fun v hv => hpost v (mem_append_left _ hv)⟩,
        hpost e (mem_append_right _ (mem_singleton_self e))⟩
  · rintro (he | ⟨⟨pre,f,post,rfl,hf,hpost⟩,he⟩)
    · exact ⟨es,e,[],rfl,he,fun u hu => absurd hu not_mem_nil⟩
    · refine ⟨pre,f,post ++ [e],by rw [append_assoc,cons_append],hf,fun u hu => ?_⟩
      rcases List.mem_append.mp hu with hu | hu
      · exact hpost u hu
      · rwa [List.mem_singleton.mp hu]

lemma unmatched_quiet (he : Quiet e) : Unmatched k (es ++ [e]) ↔ Unmatched k es := by
  rw [unmatched_concat]
  constructor
  · rintro (h | h)
    · exact absurd h.1 he.key
    · exact h.1
  · exact fun h => .inr ⟨h,fun hu => he.keyUp hu.1⟩

lemma paired_nil : Paired [] := fun pre _ _ h => absurd h.symm (by simp)

lemma paired_concat (h : Paired es) (he : e.type = guiEventKeyUp → Unmatched e.arg0 es) : Paired (es ++ [e]) := by
  intro pre f post hsplit hf
  rcases eq_nil_or_concat post with rfl | ⟨post,u,rfl⟩
  · obtain ⟨rfl,hef⟩ := append_inj' hsplit rfl
    obtain rfl := List.singleton_inj.mp hef
    exact he hf
  · rw [concat_eq_append] at hsplit
    have hsplit : es ++ [e] = (pre ++ f :: post) ++ [u] := by rw [hsplit,append_assoc,cons_append]
    exact h pre f post (append_inj' hsplit rfl).1 hf

lemma Paired.left (h : Paired (es ++ es')) : Paired es := fun pre f post hsplit hf =>
  h pre f (post ++ es') (by rw [hsplit,append_assoc,cons_append]) hf

/-- The window's events: those generated for it, and those in its ring or polled already. -/
structure Line where
  inUse : Bool
  id : ℤ
  generated : List GuiEvent
  received : List GuiEvent

def Window.received (w : Window) : List GuiEvent := w.polled ++ w.events.queue

def Window.line (w : Window) : Line := ⟨w.inUse,w.id,w.generated,w.received⟩

structure Board where
  lines : Fin maxWindows → Line
  focusId : ℤ
  keysHeld : Fin keyCount → Bool

def State.board (s : State) : Board := ⟨fun i => (s.wins i).line,s.focusId,s.keysHeld⟩

structure Line.Good (l : Line) : Prop where
  delivered : Delivered l.generated l.received
  paired : Paired l.received
  addressed : ∀ e ∈ l.received, e.windowId = l.id

def HeldIn (keysHeld : Fin keyCount → Bool) (k : UInt32) : Prop :=
  ∃ h : k.toNat < keyCount, keysHeld ⟨k.toNat,h⟩ = true

namespace Board
variable {b : Board} {i : Fin maxWindows} {l : Line} {keysHeld : Fin keyCount → Bool}

/-- The held keys are those that the window with the focus has got no release for. -/
structure Tuned (b : Board) : Prop where
  id : ∀ i, (b.lines i).inUse = true → (b.lines i).id = i.val
  focus : b.focusId = -1 ∨ ∃ i : Fin maxWindows, b.focusId = i.val ∧ (b.lines i).inUse = true
  idle : b.focusId = -1 → ∀ k, b.keysHeld k = false
  good : ∀ i, (b.lines i).inUse = true → (b.lines i).Good
  held : ∀ i, (b.lines i).inUse = true → ∀ k,
    Unmatched k (b.lines i).received ↔ b.focusId = i.val ∧ HeldIn b.keysHeld k

namespace Tuned

lemma focused (h : b.Tuned) {j : Fin maxWindows} (hj : b.focusId = j.val) : (b.lines j).inUse = true := by
  rcases h.focus with hn | ⟨k,hk,hku⟩
  · have : (j.val : ℤ) = -1 := hj.symm.trans hn
    omega
  · obtain rfl : k = j := Fin.ext (Int.natCast_inj.mp (hk.symm.trans hj))
    exact hku

lemma update (h : b.Tuned) (hu : (b.lines i).inUse = true) (hl : l.inUse = true) (hid : l.id = i.val) (hgood : l.Good)
    (hheld : ∀ k, Unmatched k l.received ↔ b.focusId = i.val ∧ HeldIn keysHeld k)
    (hkeys : b.focusId = i.val ∨ keysHeld = b.keysHeld) :
    Tuned ⟨Function.update b.lines i l,b.focusId,keysHeld⟩ := by
  have hline (j : Fin maxWindows) (hj : (Function.update b.lines i l j).inUse = true) :
      j = i ∧ Function.update b.lines i l j = l ∨
        j ≠ i ∧ (b.lines j).inUse = true ∧ Function.update b.lines i l j = b.lines j := by
    by_cases hij : j = i
    · subst hij
      exact .inl ⟨rfl,Function.update_self ..⟩
    · rw [Function.update_of_ne hij] at hj
      exact .inr ⟨hij,hj,Function.update_of_ne hij _ _⟩
  refine ⟨fun j hj => ?_,?_,fun hf k => ?_,fun j hj => ?_,fun j hj k => ?_⟩
  · rcases hline j hj with ⟨rfl,he⟩ | ⟨-,hj',he⟩
    · exact (congrArg Line.id he).trans hid
    · exact (congrArg Line.id he).trans (h.id j hj')
  · rcases h.focus with hf | ⟨j,hj,hju⟩
    · exact .inl hf
    · refine .inr ⟨j,hj,?_⟩
      change (Function.update b.lines i l j).inUse = true
      by_cases hij : j = i
      · subst hij
        rw [Function.update_self]
        exact hl
      · rwa [Function.update_of_ne hij]
  · rcases hkeys with hi | hk
    · exact absurd (hi.symm.trans hf) (by omega)
    · exact (congrFun hk k).trans (h.idle hf k)
  · change (Function.update b.lines i l j).Good
    rcases hline j hj with ⟨-,he⟩ | ⟨-,hj',he⟩
    · rw [he]
      exact hgood
    · rw [he]
      exact h.good j hj'
  · change Unmatched k (Function.update b.lines i l j).received ↔ _
    rcases hline j hj with ⟨rfl,he⟩ | ⟨hne,hj',he⟩
    · rw [he]
      exact hheld k
    · rw [he,h.held j hj' k]
      rcases hkeys with hi | hk
      · have hno : b.focusId ≠ j.val := fun hf => hne (Fin.ext (Int.natCast_inj.mp (hf.symm.trans hi)))
        exact ⟨fun hc => absurd hc.1 hno,fun hc => absurd hc.1 hno⟩
      · rw [hk]

lemma handover (h : b.Tuned) (hnone : ∀ k, b.keysHeld k = false) {id : ℤ}
    (hid : id = -1 ∨ ∃ i : Fin maxWindows, id = i.val ∧ (b.lines i).inUse = true) : Tuned { b with focusId := id } := by
  have hno (k : UInt32) : ¬ HeldIn b.keysHeld k := fun ⟨hk,hh⟩ => Bool.false_ne_true ((hnone _).symm.trans hh)
  refine ⟨h.id,hid,fun _ => hnone,h.good,fun i hi k => ?_⟩
  rw [h.held i hi k]
  exact ⟨fun hc => absurd hc.2 (hno k),fun hc => absurd hc.2 (hno k)⟩

lemma replace (h : b.Tuned) (hf : b.focusId ≠ i.val)
    (hl : l.inUse = true → l.id = i.val ∧ l.generated = [] ∧ l.received = []) :
    Tuned { b with lines := Function.update b.lines i l } := by
  have hother (j : Fin maxWindows) (hij : j ≠ i) : Function.update b.lines i l j = b.lines j :=
    Function.update_of_ne hij _ _
  refine ⟨fun j hj => ?_,?_,h.idle,fun j hj => ?_,fun j hj k => ?_⟩
  · change (Function.update b.lines i l j).id = _
    change (Function.update b.lines i l j).inUse = true at hj
    by_cases hij : j = i
    · subst hij
      rw [Function.update_self] at hj ⊢
      exact (hl hj).1
    · rw [hother j hij] at hj ⊢
      exact h.id j hj
  · rcases h.focus with hn | ⟨j,hj,hju⟩
    · exact .inl hn
    · have hij : j ≠ i := fun he => hf (by rw [hj,he])
      exact .inr ⟨j,hj,(congrArg Line.inUse (hother j hij)).trans hju⟩
  · change (Function.update b.lines i l j).Good
    change (Function.update b.lines i l j).inUse = true at hj
    by_cases hij : j = i
    · subst hij
      rw [Function.update_self] at hj ⊢
      obtain ⟨-,hg,hr⟩ := hl hj
      refine ⟨?_,?_,fun e he => ?_⟩
      · rw [hg,hr]
        exact .nil
      · rw [hr]
        exact paired_nil
      · rw [hr] at he
        exact absurd he not_mem_nil
    · rw [hother j hij] at hj ⊢
      exact h.good j hj
  · change Unmatched k (Function.update b.lines i l j).received ↔ _
    change (Function.update b.lines i l j).inUse = true at hj
    by_cases hij : j = i
    · subst hij
      rw [Function.update_self] at hj ⊢
      rw [(hl hj).2.2]
      exact ⟨fun hc => absurd hc not_unmatched_nil,fun hc => absurd hc.1 hf⟩
    · rw [hother j hij] at hj ⊢
      exact h.held j hj k

lemma keep (h : b.Tuned) {lines : Fin maxWindows → Line} (hsub : ∀ j, (lines j).inUse = true → lines j = b.lines j)
    (hf : b.focusId = -1 ∨ ∃ i : Fin maxWindows, b.focusId = i.val ∧ (lines i).inUse = true) :
    Tuned { b with lines := lines } := by
  have hin (j : Fin maxWindows) (hj : (lines j).inUse = true) : (b.lines j).inUse = true := hsub j hj ▸ hj
  refine ⟨fun j hj => ?_,hf,h.idle,fun j hj => ?_,fun j hj k => ?_⟩
  · exact (congrArg Line.id (hsub j hj)).trans (h.id j (hin j hj))
  · change (lines j).Good
    rw [hsub j hj]
    exact h.good j (hin j hj)
  · change Unmatched k (lines j).received ↔ _
    rw [hsub j hj]
    exact h.held j (hin j hj) k

lemma lose (h : b.Tuned) {lines : Fin maxWindows → Line} (hsub : ∀ j, (lines j).inUse = true → lines j = b.lines j)
    (hgone : ∀ i : Fin maxWindows, b.focusId = i.val → (lines i).inUse = false) {id : ℤ}
    (hid : id = -1 ∨ ∃ i : Fin maxWindows, id = i.val ∧ (lines i).inUse = true) :
    Tuned ⟨lines,id,fun _ => false⟩ := by
  have hin (j : Fin maxWindows) (hj : (lines j).inUse = true) : (b.lines j).inUse = true := hsub j hj ▸ hj
  refine ⟨fun j hj => ?_,hid,fun _ _ => rfl,fun j hj => ?_,fun j hj k => ?_⟩
  · exact (congrArg Line.id (hsub j hj)).trans (h.id j (hin j hj))
  · change (lines j).Good
    rw [hsub j hj]
    exact h.good j (hin j hj)
  · change Unmatched k (lines j).received ↔ _
    have hj' : (lines j).inUse = true := hj
    rw [hsub j hj,h.held j (hin j hj) k]
    constructor
    · intro hc
      rw [hgone j hc.1] at hj'
      cases hj'
    · rintro ⟨-,_,hc⟩
      cases hc

end Tuned
end Board

structure Took (w : Window) (e : GuiEvent) (w' : Window) : Prop where
  inUse : w'.inUse = w.inUse
  id : w'.id = w.id
  generated : w'.generated = w.generated ++ [e]
  received : w'.received = w.received ++ [e] ∨ w'.received = w.received ∨ ∃ pre last, w.received = pre ++ [last] ∧
    w'.received = pre ++ [e] ∧ last.type = e.type ∧ (e.type = guiEventMouseMove ∨ e.type = guiEventResize)

lemma received_push {w : Window} (h : w.events.queue.length < 63) (e : GuiEvent) :
    (w.push e).2.received = w.received ++ [e] := by
  change w.polled ++ (w.events.push e).2.queue = _
  rw [(GuiEventRing.queue_push h e).2,Window.received,append_assoc]

lemma received_push_full {w : Window} (h : ¬ w.events.queue.length < 63) (e : GuiEvent) :
    (w.push e).2.received = w.received := by
  change w.polled ++ (w.events.push e).2.queue = _
  rw [GuiEventRing.push_full h e]
  rfl

lemma Took.push (w : Window) (e : GuiEvent) : Took w e (w.push e).2 := by
  refine ⟨rfl,rfl,rfl,?_⟩
  by_cases h : w.events.queue.length < 63
  · exact .inl (received_push h e)
  · exact .inr (.inl (received_push_full h e))

/-- The last event in the ring becomes the new one where it takes over its first two arguments. -/
def Trails (matching : GuiEvent → GuiEvent → Bool) (w : Window) (e : GuiEvent) : Prop :=
  ∀ last, w.events.queue.getLast? = some last → matching last e = true →
    { last with arg0 := e.arg0, arg1 := e.arg1, windowId := e.windowId } = e

lemma Took.post {matching : GuiEvent → GuiEvent → Bool} {w : Window} {e : GuiEvent} (ht : Trails matching w e)
    (hgood : w.line.Good) (hid : e.windowId = w.id) (hm : ∀ last, matching last e = true → last.type = e.type)
    (he : e.type = guiEventMouseMove ∨ e.type = guiEventResize) :
    Took w e (w.post (GuiEventRing.coalesce matching) e) := by
  unfold Window.post
  split
  · next r hr =>
    obtain ⟨pre,last,hq,hmatch,hq'⟩ := GuiEventRing.coalesce_queue hr
    refine ⟨rfl,rfl,rfl,.inr (.inr ⟨w.polled ++ pre,last,?_,?_,hm last hmatch,he⟩)⟩
    · rw [Window.received,hq,append_assoc]
    · have hrec : w.received = w.polled ++ pre ++ [last] := by rw [Window.received,hq,append_assoc]
      have hlast : last.windowId = e.windowId := by
        rw [hid]
        refine hgood.addressed last ?_
        change last ∈ w.received
        rw [hrec]
        exact mem_append_right _ (mem_singleton_self last)
      have hmerged := ht last (by rw [hq,getLast?_concat]) hmatch
      rw [← hlast] at hmerged
      change w.polled ++ r.queue = _
      rw [hq',hmerged,append_assoc]
  · exact .push w e

variable {w w' : Window}

lemma Took.quiet (h : Took w e w') (hgood : w.line.Good) (he : Quiet e) (hid : e.windowId = w.id) :
    w'.line.Good ∧ ∀ k, Unmatched k w'.received ↔ Unmatched k w.received := by
  have hkeys : e.type = guiEventKeyUp → Unmatched e.arg0 w.received := fun hu => absurd hu he.keyUp
  have hdel : Delivered w.generated w.received := hgood.delivered
  have hpair : Paired w.received := hgood.paired
  have haddr : ∀ u ∈ w.received, u.windowId = w.id := hgood.addressed
  have hline : w'.line = ⟨w.inUse,w.id,w.generated ++ [e],w'.received⟩ := by
    unfold Window.line
    rw [h.inUse,h.id,h.generated]
  rw [hline]
  rcases h.received with hr | hr | ⟨pre,last,hpre,hr,htype,hmerge⟩
  · rw [hr]
    refine ⟨⟨hdel.kept,paired_concat hpair hkeys,fun u hu => ?_⟩,fun k => unmatched_quiet he⟩
    rcases List.mem_append.mp hu with hu | hu
    · exact haddr u hu
    · rw [List.mem_singleton.mp hu]
      exact hid
  · rw [hr]
    exact ⟨⟨hdel.dropped,hpair,haddr⟩,fun k => Iff.rfl⟩
  · rw [hpre] at hdel hpair haddr
    have hlast : Quiet last := ⟨htype ▸ he.key,htype ▸ he.keyUp⟩
    rw [hr,hpre]
    refine ⟨⟨hdel.merged htype hmerge,paired_concat hpair.left fun hu => absurd hu he.keyUp,fun u hu => ?_⟩,fun k => ?_⟩
    · rcases List.mem_append.mp hu with hu | hu
      · exact haddr u (mem_append_left _ hu)
      · rw [List.mem_singleton.mp hu]
        exact hid
    · rw [unmatched_quiet he,unmatched_quiet hlast]

namespace State
variable {s t : State} {i : Fin maxWindows} {id : ℤ}

lemma board_setWin (s : State) (i : Fin maxWindows) (w : Window) :
    (s.setWin i w).board = { s.board with lines := Function.update s.board.lines i w.line } := by
  have hlines : (fun j => (Function.update s.wins i w j).line) = Function.update (fun j => (s.wins j).line) i w.line :=
    Function.comp_update Window.line s.wins i w
  unfold board setWin
  dsimp only
  rw [hlines]

lemma board_setWin_self (h : w.line = (s.wins i).line) : (s.setWin i w).board = s.board := by
  have hself : Function.update s.board.lines i (s.board.lines i) = s.board.lines := Function.update_eq_self ..
  rw [board_setWin,h]
  change { s.board with lines := Function.update s.board.lines i (s.board.lines i) } = s.board
  rw [hself]

lemma tuned_took (h : s.board.Tuned) (hu : (s.wins i).inUse = true) (ht : Took (s.wins i) e w) (he : Quiet e)
    (hid : e.windowId = (s.wins i).id) : (s.setWin i w).board.Tuned := by
  obtain ⟨hgood,hsame⟩ := ht.quiet (h.good i hu) he hid
  rw [board_setWin]
  exact h.update hu (ht.inUse.trans hu) (ht.id.trans (h.id i hu)) hgood
    (fun k => (hsame k).trans (h.held i hu k)) (.inr rfl)

lemma tuned_push (h : s.board.Tuned) (hu : (s.wins i).inUse = true) (he : Quiet e) (hid : e.windowId = (s.wins i).id) :
    (s.push i e).board.Tuned := tuned_took h hu (.push _ e) he hid

lemma toNat_ofNat_key (k : Fin keyCount) : (UInt32.ofNat k.val).toNat = k.val := by
  have hk : k.val < 272 := k.isLt
  rw [UInt32.toNat_ofNat']
  omega

lemma heldIn_update (keysHeld : Fin keyCount → Bool) (k : Fin keyCount) (v : Bool) (x : UInt32) :
    HeldIn (Function.update keysHeld k v) x ↔ if x.toNat = k.val then v = true else HeldIn keysHeld x := by
  unfold HeldIn
  split
  · next hx =>
    have hlt : x.toNat < keyCount := hx ▸ k.isLt
    have hk : (⟨x.toNat,hlt⟩ : Fin keyCount) = k := Fin.ext hx
    constructor
    · rintro ⟨_,hv⟩
      rw [hk,Function.update_self] at hv
      exact hv
    · intro hv
      refine ⟨hlt,?_⟩
      rw [hk,Function.update_self]
      exact hv
  · next hx =>
    refine exists_congr fun hlt => ?_
    rw [Function.update_of_ne fun he => hx (congrArg Fin.val he)]

lemma tuned_keyEvent {keysHeld : Fin keyCount → Bool} (h : s.board.Tuned) (hu : (s.wins i).inUse = true)
    (hf : s.focusId = i.val) (hid : e.windowId = (s.wins i).id) (hroom : (s.wins i).events.queue.length < 63)
    (hup : e.type = guiEventKeyUp → Unmatched e.arg0 (s.wins i).received)
    (hheld : ∀ x, Unmatched x ((s.wins i).received ++ [e]) ↔ HeldIn keysHeld x) :
    ({ s.push i e with keysHeld := keysHeld } : State).board.Tuned := by
  have hgood : (s.wins i).line.Good := h.good i hu
  have hboard : ({ s.push i e with keysHeld := keysHeld } : State).board =
      { s.board with lines := Function.update s.board.lines i ((s.wins i).push e).2.line, keysHeld := keysHeld } :=
    congrArg (fun b : Board => { b with keysHeld := keysHeld }) (board_setWin s i ((s.wins i).push e).2)
  rw [hboard]
  refine h.update (l := ((s.wins i).push e).2.line) hu hu (h.id i hu) ⟨?_,?_,fun u hu' => ?_⟩ (fun x => ?_) (.inl hf)
  · change Delivered ((s.wins i).generated ++ [e]) ((s.wins i).push e).2.received
    rw [received_push hroom]
    exact hgood.delivered.kept
  · change Paired ((s.wins i).push e).2.received
    rw [received_push hroom]
    exact paired_concat hgood.paired hup
  · change u ∈ ((s.wins i).push e).2.received at hu'
    rw [received_push hroom] at hu'
    rcases List.mem_append.mp hu' with hu' | hu'
    · exact hgood.addressed u hu'
    · rw [List.mem_singleton.mp hu']
      exact hid
  · change Unmatched x ((s.wins i).push e).2.received ↔ _
    rw [received_push hroom,hheld x]
    exact ⟨fun hx => ⟨hf,hx⟩,fun hx => hx.2⟩

lemma unmatched_iff (h : s.board.Tuned) (hu : (s.wins i).inUse = true) (hf : s.focusId = i.val) (x : UInt32) :
    Unmatched x (s.wins i).received ↔ HeldIn s.keysHeld x :=
  (h.held i hu x).trans ⟨fun hx => hx.2,fun hx => ⟨hf,hx⟩⟩

lemma keysHeld_push (s : State) (i : Fin maxWindows) (e : GuiEvent) : (s.push i e).keysHeld = s.keysHeld := rfl

lemma tuned_deliverKey {key : UInt32} (h : s.board.Tuned) (hu : (s.wins i).inUse = true) (hf : s.focusId = i.val)
    (hk : key.toNat < keyCount)
    (hroom : (s.wins i).events.queue.length < 63 ∨ HeldIn s.keysHeld key) : (s.deliverKey i key).board.Tuned := by
  unfold deliverKey
  dsimp only
  rw [dif_pos hk,keysHeld_push]
  have hsame (x : UInt32) : x.toNat = key.toNat ↔ key = x := by rw [eq_comm,← UInt32.toNat_inj]
  by_cases hr : (s.wins i).events.queue.length < 63
  · refine tuned_keyEvent h hu hf rfl hr (fun hc => absurd hc key_ne_keyUp) fun x => ?_
    rw [unmatched_concat,heldIn_update,unmatched_iff h hu hf]
    have hup : ¬ IsKeyUp x ⟨guiEventKey,(s.wins i).id,key,0,0,0⟩ := fun hc => key_ne_keyUp hc.1
    split
    · next hx => exact ⟨fun _ => rfl,fun _ => .inl ⟨rfl,(hsame x).mp hx⟩⟩
    · next hx => exact ⟨fun hc => (hc.resolve_left fun hkey => hx ((hsame x).mpr hkey.2)).1,fun hc => .inr ⟨hc,hup⟩⟩
  · have hheld := hroom.resolve_left hr
    have hkeys : Function.update s.keysHeld ⟨key.toNat,hk⟩ true = s.keysHeld := by
      obtain ⟨_,hv⟩ := hheld
      rw [← hv]
      exact Function.update_eq_self _ _
    rw [hkeys]
    have hgood : (s.wins i).line.Good := h.good i hu
    have hline : ((s.wins i).push ⟨guiEventKey,(s.wins i).id,key,0,0,0⟩).2.line =
        ⟨(s.wins i).inUse,(s.wins i).id,(s.wins i).generated ++ [⟨guiEventKey,(s.wins i).id,key,0,0,0⟩],(s.wins i).received⟩ := by
      rw [← received_push_full hr ⟨guiEventKey,(s.wins i).id,key,0,0,0⟩]
      rfl
    change (s.push i ⟨guiEventKey,(s.wins i).id,key,0,0,0⟩).board.Tuned
    rw [push,board_setWin,hline]
    exact h.update hu hu (h.id i hu) ⟨hgood.delivered.dropped,hgood.paired,hgood.addressed⟩ (h.held i hu) (.inr rfl)

lemma tuned_keyUp {key : UInt32} (h : s.board.Tuned) (hu : (s.wins i).inUse = true) (hf : s.focusId = i.val)
    (hk : key.toNat < keyCount) (hheld : s.keysHeld ⟨key.toNat,hk⟩ = true)
    (hroom : (s.wins i).events.queue.length < 63) :
    ({ s.push i ⟨guiEventKeyUp,(s.wins i).id,key,0,0,0⟩ with
      keysHeld := Function.update s.keysHeld ⟨key.toNat,hk⟩ false } : State).board.Tuned := by
  have hsame (x : UInt32) : x.toNat = key.toNat ↔ key = x := by rw [eq_comm,← UInt32.toNat_inj]
  refine tuned_keyEvent h hu hf rfl hroom (fun _ => (unmatched_iff h hu hf key).mpr ⟨hk,hheld⟩) fun x => ?_
  rw [unmatched_concat,heldIn_update,unmatched_iff h hu hf]
  have hkey : ¬ IsKey x ⟨guiEventKeyUp,(s.wins i).id,key,0,0,0⟩ := fun hc => key_ne_keyUp hc.1.symm
  split
  · next hx => exact ⟨fun hc => absurd ⟨rfl,(hsame x).mp hx⟩ (hc.resolve_left hkey).2,fun hc => absurd hc Bool.false_ne_true⟩
  · next hx => exact ⟨fun hc => (hc.resolve_left hkey).1,fun hc => .inr ⟨hc,fun hup => hx ((hsame x).mpr hup.2)⟩⟩

/-- So many events fit into the ring of the window with the focus. -/
def KeyRoom (s : State) (n : ℕ) : Prop :=
  ∀ i, s.winById s.focusId = some i → (s.wins i).events.queue.length + n < eventQueueCap

def heldCount (s : State) : ℕ := (finRange keyCount).countP s.keysHeld

lemma inUse_of_desk (h : t.desk = s.desk) (i : Fin maxWindows) : (t.wins i).inUse = (s.wins i).inUse :=
  congrArg (fun d : Desk => (d.cards i).inUse) h

lemma focusId_of_desk (h : t.desk = s.desk) : t.focusId = s.focusId := congrArg Desk.focusId h

lemma queue_push_le (s : State) (i : Fin maxWindows) (e : GuiEvent) :
    ((s.push i e).wins i).events.queue.length ≤ (s.wins i).events.queue.length + 1 := by
  have hself : (s.push i e).wins i = ((s.wins i).push e).2 := Function.update_self ..
  rw [hself]
  change ((s.wins i).events.push e).2.queue.length ≤ _
  by_cases h : (s.wins i).events.queue.length < 63
  · rw [(GuiEventRing.queue_push h e).2,length_append,length_singleton]
  · rw [GuiEventRing.push_full h e]
    exact Nat.le_succ _

lemma tuned_releaseKeys (l : List (Fin keyCount)) (h : s.board.Tuned) (hu : (s.wins i).inUse = true)
    (hf : s.focusId = i.val) (hroom : (s.wins i).events.queue.length + l.countP s.keysHeld < eventQueueCap) :
    (l.foldl (releaseKey (some i)) s).board.Tuned ∧
    (∀ k, (l.foldl (releaseKey (some i)) s).keysHeld k = true → k ∉ l ∧ s.keysHeld k = true) := by
  induction l generalizing s with
  | nil => exact ⟨h,fun k hk => ⟨not_mem_nil,hk⟩⟩
  | cons k l ih =>
    rw [foldl_cons]
    by_cases hk : s.keysHeld k = true
    · rw [countP_cons_of_pos hk] at hroom
      have hturn : releaseKey (some i) s k = { s.push i ⟨guiEventKeyUp,(s.wins i).id,UInt32.ofNat k,0,0,0⟩ with
          keysHeld := Function.update s.keysHeld k false } := by
        rw [releaseKey,if_pos hk]
        rfl
      have hkey := toNat_ofNat_key k
      have hlt : (UInt32.ofNat k.val).toNat < keyCount := hkey.trans_lt k.isLt
      have hfin : (⟨(UInt32.ofNat k.val).toNat,hlt⟩ : Fin keyCount) = k := Fin.ext hkey
      have htuned := tuned_keyUp h hu hf hlt (by rw [hfin]; exact hk) (by unfold eventQueueCap at hroom; omega)
      rw [hfin,← hturn] at htuned
      have hdesk : (releaseKey (some i) s k).desk = s.desk := desk_releaseKey (some i) s k
      have hless (x : Fin keyCount) (hx : (releaseKey (some i) s k).keysHeld x = true) : x ≠ k ∧ s.keysHeld x = true := by
        rw [hturn] at hx
        change Function.update s.keysHeld k false x = true at hx
        by_cases hxk : x = k
        · subst hxk
          rw [Function.update_self] at hx
          cases hx
        · rw [Function.update_of_ne hxk] at hx
          exact ⟨hxk,hx⟩
      have hqueue : ((releaseKey (some i) s k).wins i).events.queue.length ≤ (s.wins i).events.queue.length + 1 := by
        rw [hturn]
        exact queue_push_le s i _
      have hcount : l.countP (releaseKey (some i) s k).keysHeld ≤ l.countP s.keysHeld :=
        countP_mono_left fun x _ hx => (hless x hx).2
      obtain ⟨hall,hleft⟩ := ih htuned ((inUse_of_desk hdesk i).trans hu) ((focusId_of_desk hdesk).trans hf) (by omega)
      refine ⟨hall,fun x hx => ?_⟩
      obtain ⟨hxl,hx'⟩ := hleft x hx
      obtain ⟨hxk,hxs⟩ := hless x hx'
      exact ⟨fun hm => (List.mem_cons.mp hm).elim hxk hxl,hxs⟩
    · have hturn : releaseKey (some i) s k = s := by rw [releaseKey,if_neg hk]
      rw [countP_cons_of_neg hk] at hroom
      rw [hturn]
      obtain ⟨hall,hleft⟩ := ih h hu hf hroom
      refine ⟨hall,fun x hx => ?_⟩
      obtain ⟨hxl,hxs⟩ := hleft x hx
      exact ⟨fun hm => (List.mem_cons.mp hm).elim (fun he => hk (he ▸ hxs)) hxl,hxs⟩

lemma tuned_setFocus (h : s.board.Tuned) (hid : id = -1 ∨ ∃ j : Fin maxWindows, id = j.val ∧ (s.wins j).inUse = true)
    (hroom : id ≠ s.focusId → s.KeyRoom s.heldCount) :
    (s.setFocus id).board.Tuned ∧ (id ≠ s.focusId → ∀ k, (s.setFocus id).keysHeld k = false) := by
  unfold setFocus
  split
  · next he => exact ⟨h,fun hne => absurd he hne⟩
  · next hne =>
    dsimp only
    rcases h.focus with hf | ⟨i,hi,hu⟩
    · have hf : s.focusId = -1 := hf
      rw [if_neg (by omega)]
      exact ⟨h.handover (h.idle hf) hid,fun _ => h.idle hf⟩
    · have hi : s.focusId = i.val := hi
      have hw : s.winById s.focusId = some i := winById_some.mpr ⟨hi,hu⟩
      rw [if_pos (by omega),hw]
      obtain ⟨hall,hleft⟩ := tuned_releaseKeys (finRange keyCount) h hu hi (hroom hne i hw)
      have hdesk : (s.synthesizeReleasesTo (some i)).desk = s.desk := desk_synthesizeReleasesTo s (some i)
      unfold synthesizeReleasesTo at hdesk ⊢
      generalize (finRange keyCount).foldl (releaseKey (some i)) s = t at hall hleft hdesk ⊢
      have hnone (k : Fin keyCount) : t.keysHeld k = false := by
        by_contra hk
        exact (hleft k ((Bool.not_eq_false _).mp hk)).1 (mem_finRange k)
      refine ⟨hall.handover hnone ?_,fun _ => hnone⟩
      rcases hid with hid | ⟨j,hj,hju⟩
      · exact .inl hid
      · exact .inr ⟨j,hj,(inUse_of_desk hdesk j).trans hju⟩

/-- The states differ in nothing that the streams and the rings depend on. -/
structure Alike (s t : State) : Prop where
  board : t.board = s.board
  events : ∀ j, (t.wins j).events = (s.wins j).events

namespace Alike

lemma setWin (hl : w.line = (s.wins i).line) (he : w.events = (s.wins i).events) : s.Alike (s.setWin i w) := by
  refine ⟨board_setWin_self hl,fun j => ?_⟩
  change (Function.update s.wins i w j).events = _
  by_cases hij : j = i
  · subst hij
    rw [Function.update_self]
    exact he
  · rw [Function.update_of_ne hij]

lemma bump (s : State) (i : Fin maxWindows) : s.Alike (s.bumpUnlessTop i) := by
  unfold bumpUnlessTop
  split
  · exact ⟨rfl,fun _ => rfl⟩
  · have h : s.Alike (s.setWin i { s.wins i with z := UInt32.ofNat (s.nextZ + 1) }) := .setWin rfl rfl
    exact ⟨h.board,h.events⟩

lemma trans {u : State} (h : s.Alike t) (h' : t.Alike u) : s.Alike u :=
  ⟨h'.board.trans h.board,fun j => (h'.events j).trans (h.events j)⟩

lemma focusId (h : s.Alike t) : t.focusId = s.focusId := congrArg Board.focusId h.board

lemma inUse (h : s.Alike t) (j : Fin maxWindows) : (t.wins j).inUse = (s.wins j).inUse :=
  congrArg (fun b : Board => (b.lines j).inUse) h.board

lemma line_id (h : s.Alike t) (j : Fin maxWindows) : (t.wins j).id = (s.wins j).id :=
  congrArg (fun b : Board => (b.lines j).id) h.board

lemma keyRoom (h : s.Alike t) {n : ℕ} (hr : s.KeyRoom n) : t.KeyRoom n := by
  intro j hj
  obtain ⟨hf,hu⟩ := winById_some.mp hj
  rw [h.events j]
  exact hr j (winById_some.mpr ⟨h.focusId.symm.trans hf,(h.inUse j).symm.trans hu⟩)

lemma heldCount (h : s.Alike t) : t.heldCount = s.heldCount := by
  have hk : t.keysHeld = s.keysHeld := congrArg Board.keysHeld h.board
  unfold State.heldCount
  rw [hk]

end Alike

lemma tuned_focusOn (h : s.board.Tuned) (ha : s.Alike t) (hu : (s.wins i).inUse = true)
    (hroom : s.focusId ≠ i.val → s.KeyRoom s.heldCount) : (t.setFocus (t.wins i).id).board.Tuned ∧
      (s.focusId ≠ i.val → ∀ k, (t.setFocus (t.wins i).id).keysHeld k = false) := by
  have ht : t.board.Tuned := ha.board ▸ h
  have hid : (t.wins i).id = i.val := (ha.line_id i).trans (h.id i hu)
  rw [hid]
  obtain ⟨htuned,hnone⟩ := tuned_setFocus ht (.inr ⟨i,rfl,(ha.inUse i).trans hu⟩) fun hne => by
    rw [ha.heldCount]
    exact ha.keyRoom (hroom fun he => hne (by rw [ha.focusId,he]))
  exact ⟨htuned,fun hne => hnone fun he => hne (by rw [← ha.focusId,← he])⟩

/-- A call that hides the window with the focus, or shows another one, finds room for the held keys. -/
def RoomToMinimize (s : State) (id : ℤ) (on : Bool) : Prop :=
  ∀ i, s.winById id = some i → (s.wins i).has flagPinToBottom = false → (s.wins i).minimized = !on →
    (on = true ↔ s.focusId = id) → s.KeyRoom s.heldCount

lemma tuned_setMinimized (h : s.board.Tuned) {on : Bool} (hroom : s.RoomToMinimize id on) :
    (s.setMinimized id on).2.board.Tuned := by
  unfold State.setMinimized
  cases hi : slotOf id with
  | none => exact h
  | some i =>
    have hidi := slotOf_some hi
    dsimp only
    split
    · exact h
    · next hu =>
      have hu : (s.wins i).inUse = true := by simpa using hu
      have hw : s.winById id = some i := winById_some.mpr ⟨hidi,hu⟩
      have hself : (s.wins i).id = id := (h.id i hu).trans hidi.symm
      split
      · exact h
      · next hpin =>
        have halike (m : Bool) : s.Alike (s.setWin i { s.wins i with minimized := m }) := .setWin rfl rfl
        cases on with
        | true =>
          rw [if_pos rfl]
          split
          · exact h
          · next hm =>
            split
            · next hf =>
              have hf : s.focusId = id := by
                have hsame : (Function.update s.wins i { s.wins i with minimized := true } i).id = (s.wins i).id := by
                  rw [Function.update_self]
                exact (show s.focusId = _ from hf).trans (hsame.trans hself)
              have hr := hroom i hw (Bool.eq_false_iff.mpr hpin) (Bool.eq_false_iff.mpr hm) ⟨fun _ => hf,fun _ => rfl⟩
              have ha := halike true
              have ht : (s.setWin i { s.wins i with minimized := true }).board.Tuned := ha.board ▸ h
              refine (tuned_setFocus ht ?_ fun _ => ?_).1
              · split
                · next b hb =>
                  have hshow := (shows_of_nextVisible hb).inUse
                  exact .inr ⟨b,ht.id b hshow,hshow⟩
                · exact .inl rfl
              · rw [ha.heldCount]
                exact ha.keyRoom hr
            · exact (halike true).board ▸ h
        | false =>
          rw [if_neg Bool.false_ne_true]
          split
          · exact h
          · next hm =>
            refine (tuned_focusOn h ((halike false).trans (.bump _ i)) hu fun hne => ?_).1
            exact hroom i hw (Bool.eq_false_iff.mpr hpin) (by simpa using hm)
              ⟨fun hc => absurd hc Bool.false_ne_true,fun hc => absurd (hc.trans hidi) hne⟩

lemma tuned_raiseWindow (h : s.board.Tuned)
    (hroom : ∀ i, s.winById id = some i → s.focusId ≠ id → s.KeyRoom s.heldCount) :
    (s.raiseWindow id).2.board.Tuned := by
  unfold State.raiseWindow
  cases hi : slotOf id with
  | none => exact h
  | some i =>
    have hidi := slotOf_some hi
    dsimp only
    split
    · exact h
    · next hu =>
      have hu : (s.wins i).inUse = true := by simpa using hu
      have halike : s.Alike (s.setWin i { s.wins i with minimized := false }) := .setWin rfl rfl
      refine (tuned_focusOn h (halike.trans (.bump _ i)) hu fun hne => ?_).1
      exact hroom i (winById_some.mpr ⟨hidi,hu⟩) fun hf => hne (hf.trans hidi)

def RoomToPress (s : State) (i : Fin maxWindows) : Prop :=
  s.focusId ≠ i.val ∨ (s.wins i).classifyClick s.pointerX s.pointerY = .minimize → s.KeyRoom s.heldCount

lemma tuned_pressLeft (h : s.board.Tuned) (hu : (s.wins i).inUse = true) (hroom : s.RoomToPress i) (button : UInt32) :
    (s.pressLeft i button).board.Tuned := by
  unfold State.pressLeft
  have ha : s.Alike (s.bumpUnlessTop i) := .bump s i
  obtain ⟨hfocus,hnone⟩ := tuned_focusOn h ha hu fun hne => hroom (.inl hne)
  have hdesk := desk_setFocus (s.bumpUnlessTop i) ((s.bumpUnlessTop i).wins i).id
  have huse : (((s.bumpUnlessTop i).setFocus ((s.bumpUnlessTop i).wins i).id).wins i).inUse = true :=
    ((congrArg (fun d : Desk => (d.cards i).inUse) hdesk).trans (ha.inUse i)).trans hu
  have hsame (hf : s.focusId = i.val) : (s.bumpUnlessTop i).setFocus ((s.bumpUnlessTop i).wins i).id = s.bumpUnlessTop i := by
    rw [setFocus,if_pos]
    rw [ha.focusId,hf]
    exact (ha.line_id i).trans (h.id i hu)
  dsimp only
  cases hz : (s.wins i).classifyClick s.pointerX s.pointerY with
  | close => exact tuned_push hfocus huse (quiet_of_type guiEventClose rfl (by decide)) rfl
  | minimize =>
    refine tuned_setMinimized hfocus fun _ _ _ _ _ => ?_
    by_cases hf : s.focusId = i.val
    · rw [hsame hf,ha.heldCount]
      exact ha.keyRoom (hroom (.inr hz))
    · -- the keys were released when the focus came
      have hzero : ((s.bumpUnlessTop i).setFocus ((s.bumpUnlessTop i).wins i).id).heldCount = 0 :=
        List.countP_eq_zero.mpr fun k _ => by rw [hnone hf k]; exact Bool.false_ne_true
      rw [hzero]
      exact fun j _ => GuiEventRing.length_lt _
  | title | grip | miss => exact hfocus
  | body cx cy => exact tuned_push hfocus huse (quiet_of_type guiEventMouseDown rfl (by decide)) rfl

def pressed (s : State) (button : UInt32) (down : Bool) : Option (Fin maxWindows) :=
  if s.pointerX < 0 || s.pointerY < 0 then none
  else if down && button == guiBtnLeft then s.hitTest s.pointerX s.pointerY
  else none

lemma tuned_pointerButton {button : UInt32} {down : Bool} (h : s.board.Tuned)
    (hroom : ∀ i, s.pressed button down = some i → s.RoomToPress i) : (s.pointerButton button down).board.Tuned := by
  unfold State.pointerButton
  generalize (if down then s.buttons ||| button else s.buttons &&& ~~~button) = buttons
  have hb : ({ s with buttons := buttons } : State).board.Tuned := h
  have hr : ∀ i, ({ s with buttons := buttons } : State).pressed button down = some i →
      ({ s with buttons := buttons } : State).RoomToPress i := hroom
  generalize ({ s with buttons := buttons } : State) = t at hb hr ⊢
  unfold routeButton
  split
  · exact hb
  · split
    · exact hb
    · split
      · exact hb
      · next hpos =>
        split
        · next hleft =>
          split
          · exact hb
          · next i hi =>
            have hin : t.pressed button down = some i := by rw [pressed,if_neg hpos,if_pos hleft,hi]
            exact tuned_pressLeft hb (shows_of_hitTest hi).inUse (hr i hin) button
        · split
          · next i hi =>
            have hu := (winById_some.mp (Option.filter_eq_some_iff.mp hi).1).2
            split
            · refine tuned_push hb hu ?_ rfl
              cases down with
              | true => exact quiet_of_type guiEventMouseDown rfl (by decide)
              | false => exact quiet_of_type guiEventMouseUp rfl (by decide)
            · exact hb
          · exact hb

def PlainResize (w : Window) : Prop :=
  ∀ last, w.events.queue.getLast? = some last → last.type = guiEventResize → last.arg2 = 0 ∧ last.arg3 = 0

/-- The last event of the ring, where it is a move with these buttons, was made by a move. -/
def PlainMove (w : Window) (buttons : UInt32) : Prop :=
  ∀ last, w.events.queue.getLast? = some last → last.type = guiEventMouseMove → last.arg2 = buttons → last.arg3 = 0

/-- What a new event is merged into would have come from the window manager too. -/
structure RoomToMove (s : State) : Prop where
  resize : 0 ≤ s.resizeId → ∀ i, s.winById s.resizeId = some i → (s.wins i).has flagResizable = true →
    PlainResize (s.wins i)
  move : s.resizeId < 0 → ∀ i, s.winById s.focusId = some i → (s.wins i).inputPassthrough = false →
    PlainMove (s.wins i) s.buttons

lemma trails_resize {w : Window} (h : PlainResize w) (newW newH : UInt32) :
    Trails (fun last _ => last.type == guiEventResize) w ⟨guiEventResize,w.id,newW,newH,0,0⟩ := by
  intro last hl ht
  have htype : last.type = guiEventResize := by simpa using ht
  obtain ⟨h2,h3⟩ := h last hl htype
  cases last
  simp only at htype h2 h3
  simp [htype,h2,h3]

lemma trails_move {w : Window} {buttons : UInt32} (h : PlainMove w buttons) (x y : UInt32) :
    Trails (fun last e => last.type == guiEventMouseMove && last.arg2 == e.arg2) w
      ⟨guiEventMouseMove,w.id,x,y,buttons,0⟩ := by
  intro last hl ht
  obtain ⟨htype,h2⟩ : last.type = guiEventMouseMove ∧ last.arg2 = buttons := by simpa using ht
  have h3 := h last hl htype h2
  cases last
  simp only at htype h2 h3
  simp [htype,h2,h3]

lemma tuned_resizeWindowTo (h : s.board.Tuned) (hu : (s.wins i).inUse = true) (hp : PlainResize (s.wins i))
    (newW newH : UInt32) (alloc : Bool) : (s.resizeWindowTo i newW newH alloc).board.Tuned := by
  unfold resizeWindowTo
  dsimp only
  split
  · exact h
  · split
    · exact h
    · generalize clamp minWidth maxWidth newW = newW
      generalize clamp minHeight maxHeight newH = newH
      generalize (some _ : Option (ℕ → ℕ → UInt32)) = pixels
      have htook := Took.post (w := { s.wins i with pixels := pixels, w := newW, h := newH })
        (trails_resize (w := { s.wins i with pixels := pixels, w := newW, h := newH }) hp newW newH) (h.good i hu) rfl
        (fun last hm => by simpa using hm) (.inr rfl)
      exact tuned_took h hu ⟨htook.inUse,htook.id,htook.generated,htook.received⟩ (quiet_of_type guiEventResize rfl (by decide)) rfl

lemma tuned_pointerMove {sx sy : Int32} (h : s.board.Tuned)
    (hroom : (s.pointerX = sx && s.pointerY = sy) = false → s.dragId < 0 → s.RoomToMove) (alloc : Bool) :
    (s.pointerMove sx sy alloc).board.Tuned := by
  unfold State.pointerMove
  split
  · exact h
  · next hmoved =>
    have hp : ({ s with pointerX := sx, pointerY := sy } : State).board.Tuned := h
    have hr : ({ s with pointerX := sx, pointerY := sy } : State).dragId < 0 →
        ({ s with pointerX := sx, pointerY := sy } : State).RoomToMove := fun hd =>
      ⟨(hroom (Bool.eq_false_iff.mpr hmoved) hd).resize,(hroom (Bool.eq_false_iff.mpr hmoved) hd).move⟩
    generalize ({ s with pointerX := sx, pointerY := sy } : State) = t at hp hr ⊢
    unfold routeMove
    split
    · split
      · next i _ =>
        have ha : t.Alike (t.setWin i { t.wins i with x := sx - t.dragDx, y := sy - t.dragDy }) := .setWin rfl rfl
        exact ha.board ▸ hp
      · exact hp
    · next hd =>
      have hroom := hr (Int.not_le.mp hd)
      split
      · next hz =>
        split
        · next i hi =>
          obtain ⟨hw,hres⟩ := Option.filter_eq_some_iff.mp hi
          exact tuned_resizeWindowTo hp (winById_some.mp hw).2 (hroom.resize hz i hw hres) _ _ alloc
        · exact hp
      · next hz =>
        split
        · next i hi =>
          obtain ⟨hw,hpass⟩ := Option.filter_eq_some_iff.mp hi
          have hu := (winById_some.mp hw).2
          split
          · next cx cy _ =>
            have hplain := hroom.move (Int.not_le.mp hz) i hw (by simpa using hpass)
            refine tuned_took hp hu (Took.post (trails_move hplain cx.toUInt32 cy.toUInt32) (hp.good i hu) rfl
              (fun last hm => ?_) (.inl rfl)) (quiet_of_type guiEventMouseMove rfl (by decide)) rfl
            exact (beq_iff_eq.mp (Bool.and_eq_true_iff.mp hm).1)
          · exact hp
        · exact hp

lemma tuned_createWindowEx {q : Request} {alloc : Bool} (h : s.board.Tuned)
    (hroom : q.valid = true → alloc = true → s.freeSlot.isSome = true →
      (q.flags &&& (flagAlwaysOnTop ||| flagPinToBottom) != 0) = false → s.KeyRoom s.heldCount) :
    (s.createWindowEx q alloc).2.board.Tuned := by
  unfold State.createWindowEx
  split
  · exact h
  · next hvalid =>
    cases hfree : s.freeSlot with
    | none => exact h
    | some i =>
      dsimp only
      split
      · exact h
      · next halloc =>
        have hi := free_of_freeSlot hfree
        have hf : s.focusId ≠ i.val := fun he => by
          rcases h.focus with hn | ⟨j,hj,hu⟩
          · have : s.focusId = -1 := hn
            omega
          · obtain rfl : j = i := Fin.ext (Int.natCast_inj.mp ((show s.focusId = j.val from hj).symm.trans he))
            exact Bool.false_ne_true (hi.symm.trans hu)
        generalize (if 0 ≤ q.wantX && 0 ≤ q.wantY then s.nextCascade else s.nextCascade + 1) = cascade
        generalize hw : enter (s.wins i) q i (UInt32.ofNat (s.nextZ + 1)) s.nextCascade = w
        have hline : w.line = ⟨true,i.val,[],[]⟩ := by
          have hempty : (⟨(s.wins i).events.slots,0,0⟩ : GuiEventRing).queue = [] := rfl
          rw [← hw]
          unfold Window.line Window.received enter
          dsimp only
          rw [hempty]
          rfl
        have htuned : ({ s.setWin i w with nextZ := s.nextZ + 1, nextCascade := cascade } : State).board.Tuned := by
          have hboard := board_setWin s i w
          rw [hline] at hboard
          change (s.setWin i w).board.Tuned
          rw [hboard]
          exact h.replace hf fun _ => ⟨rfl,rfl,rfl⟩
        have hother (j : Fin maxWindows) (hj : j ≠ i) :
            ({ s.setWin i w with nextZ := s.nextZ + 1, nextCascade := cascade } : State).wins j = s.wins j :=
          Function.update_of_ne hj _ _
        have hself : ({ s.setWin i w with nextZ := s.nextZ + 1, nextCascade := cascade } : State).wins i = w :=
          Function.update_self ..
        have hfocus : ({ s.setWin i w with nextZ := s.nextZ + 1, nextCascade := cascade } : State).focusId = s.focusId := rfl
        have hcount : ({ s.setWin i w with nextZ := s.nextZ + 1, nextCascade := cascade } : State).heldCount = s.heldCount := rfl
        generalize ({ s.setWin i w with nextZ := s.nextZ + 1, nextCascade := cascade } : State) = t at *
        split
        · exact htuned
        · next hpin =>
          have hr := hroom (by simpa using hvalid) (by simpa using halloc) (by rw [hfree]; rfl) (Bool.eq_false_iff.mpr hpin)
          refine (tuned_setFocus htuned (.inr ⟨i,rfl,?_⟩) fun _ j hj => ?_).1
          · rw [hself]
            exact congrArg Line.inUse hline
          · obtain ⟨hjf,hju⟩ := winById_some.mp hj
            have hji : j ≠ i := fun he => hf (by rw [← hfocus,hjf,he])
            rw [hother j hji] at hju ⊢
            rw [hcount]
            exact hr j (winById_some.mpr ⟨hfocus.symm.trans hjf,hju⟩)

lemma topmostId_names (s : State) : s.topmostId = -1 ∨ ∃ j : Fin maxWindows, s.topmostId = j.val ∧ (s.wins j).inUse = true := by
  unfold topmostId
  cases hb : pick s.wins (fun w => w.inUse) fun o b => b.z ≤ o.z with
  | none => exact .inl rfl
  | some b => exact .inr ⟨b,rfl,eligible_of_pick hb⟩

lemma tuned_gone (h : s.board.Tuned) (hsub : ∀ j, (t.wins j).inUse = true → t.wins j = s.wins j) :
    ((∀ i : Fin maxWindows, s.focusId = i.val → (t.wins i).inUse = false) → t.refocus.board.Tuned) ∧
    ((∀ i : Fin maxWindows, s.focusId = i.val → (t.wins i).inUse = true) → t.focusId = s.focusId →
      t.keysHeld = s.keysHeld → t.board.Tuned) := by
  have hlines (j : Fin maxWindows) (hj : (t.wins j).line.inUse = true) : (t.wins j).line = (s.wins j).line :=
    congrArg Window.line (hsub j hj)
  constructor
  · intro hgone
    exact h.lose hlines hgone (topmostId_names t)
  · intro hstays hf hk
    have hboard : t.board = { s.board with lines := fun j => (t.wins j).line } := by
      unfold board
      rw [hf,hk]
    rw [hboard]
    refine h.keep hlines ?_
    rcases h.focus with hn | ⟨i,hi,-⟩
    · exact .inl hn
    · exact .inr ⟨i,hi,hstays i hi⟩

lemma tuned_destroyWindow {pid : UInt64} (h : s.board.Tuned) : (s.destroyWindow pid id).2.board.Tuned := by
  unfold State.destroyWindow
  cases hi : s.winOwnedBy id pid with
  | none => exact h
  | some i =>
    obtain ⟨hid,-⟩ := winById_some.mp (Option.filter_eq_some_iff.mp hi).1
    have hself : (s.close i).wins i = { s.wins i with pixels := none, inUse := false } := Function.update_self ..
    have hother (j : Fin maxWindows) (hj : j ≠ i) : (s.close i).wins j = s.wins j := Function.update_of_ne hj _ _
    have hsub (j : Fin maxWindows) (hj : ((s.close i).wins j).inUse = true) : (s.close i).wins j = s.wins j := by
      by_cases hij : j = i
      · subst hij
        rw [hself] at hj
        cases hj
      · exact hother j hij
    obtain ⟨hlose,hkeep⟩ := tuned_gone h hsub
    dsimp only
    split
    · next hf =>
      refine hlose fun j hj => ?_
      obtain rfl : j = i := Fin.ext (Int.natCast_inj.mp (hj.symm.trans ((show s.focusId = id from hf).trans hid)))
      rw [hself]
    · next hf =>
      refine hkeep (fun j hj => ?_) rfl rfl
      have hij : j ≠ i := fun he => hf (show s.focusId = id by rw [hj,hid,he])
      rw [hother j hij]
      exact h.focused hj

lemma destroyAll_keysHeld (pid : UInt64) (l : List (Fin maxWindows)) (s : State) :
    (l.foldl (destroyOwned pid) s).keysHeld = s.keysHeld := by
  induction l generalizing s with
  | nil => rfl
  | cons i l ih =>
    refine (ih (destroyOwned pid s i)).trans ?_
    unfold destroyOwned
    split <;> rfl

lemma tuned_destroyOwner {pid : UInt64} (h : s.board.Tuned) : (s.destroyOwner pid).board.Tuned := by
  obtain ⟨hwins,hfocus,-⟩ := destroyed_spec pid (finRange maxWindows) s
  have hkeys : (s.destroyAll pid).keysHeld = s.keysHeld := destroyAll_keysHeld pid _ s
  change ∀ j, (s.destroyAll pid).wins j = _ at hwins
  change (s.destroyAll pid).focusId = s.focusId at hfocus
  have hsub (j : Fin maxWindows) (hj : ((s.destroyAll pid).wins j).inUse = true) :
      (s.destroyAll pid).wins j = s.wins j := by
    rw [hwins j] at hj ⊢
    split
    · next ho =>
      rw [if_pos ho] at hj
      cases hj
    · rfl
  obtain ⟨hlose,hkeep⟩ := tuned_gone h hsub
  unfold State.destroyOwner
  dsimp only
  split
  · next hany =>
    refine hkeep (fun j hj => ?_) hfocus hkeys
    have hall : ∀ j : Fin maxWindows, owned pid (s.wins j) = false := by simpa [owned] using hany
    rw [hwins j,if_neg fun hc => Bool.false_ne_true ((hall j).symm.trans hc.2)]
    exact h.focused hj
  · generalize s.destroyAll pid = t at *
    split
    · next hlost =>
      refine hlose fun j hj => ?_
      by_contra hu
      have hfound : t.winById t.focusId = some j := winById_some.mpr ⟨hfocus.trans hj,(Bool.not_eq_false _).mp hu⟩
      rw [hfound] at hlost
      simp at hlost
    · next hkept =>
      refine hkeep (fun j hj => ?_) hfocus hkeys
      by_contra hu
      refine hkept ?_
      have hnone : t.winById t.focusId = none := by
        cases hw : t.winById t.focusId with
        | none => rfl
        | some k =>
          obtain ⟨hk,hku⟩ := winById_some.mp hw
          obtain rfl : k = j := Fin.ext (Int.natCast_inj.mp ((hk.symm.trans hfocus).trans hj))
          exact absurd hku hu
      rw [hnone,hfocus,hj]
      simp

def idleKeys (c : UInt8) : List UInt32 := if c = esc then [] else [c.toUInt32]

def keysOf (s : State) (c : UInt8) : List UInt32 :=
  match s.csiState with
  | 0 => idleKeys c
  | 1 => if c = 91 then [] else esc.toUInt32 :: idleKeys c
  | 2 => if isDigit c then [] else (finalKey c).toList
  | _ => if isDigit c then [] else if c = 126 then (paramKey s.csiParam).toList else []

def deliverKeys (i : Fin maxWindows) (s : State) (keys : List UInt32) : State := keys.foldl (fun s k => s.deliverKey i k) s

def withCsi (s : State) (a : ℕ) (p : Int32) : State := { s with csiState := a, csiParam := p }

lemma deliverKeys_withCsi (s : State) (i : Fin maxWindows) (keys : List UInt32) (a : ℕ) (p : Int32) :
    deliverKeys i (s.withCsi a p) keys = (deliverKeys i s keys).withCsi a p := by
  induction keys generalizing s with
  | nil => rfl
  | cons k keys ih =>
    have hone : (s.withCsi a p).deliverKey i k = (s.deliverKey i k).withCsi a p := by
      unfold deliverKey withCsi
      dsimp only
      split <;> rfl
    unfold deliverKeys at ih ⊢
    rw [foldl_cons,foldl_cons,hone]
    exact ih (s.deliverKey i k)

lemma idleByte_eq (s : State) (i : Fin maxWindows) (c : UInt8) :
    ∃ a p, s.idleByte i c = (deliverKeys i s (idleKeys c)).withCsi a p := by
  unfold idleByte idleKeys
  split
  · exact ⟨1,s.csiParam,rfl⟩
  · exact ⟨s.csiState,s.csiParam,deliverKeys_withCsi s i [c.toUInt32] s.csiState s.csiParam⟩

lemma deliverIf_eq (s : State) (i : Fin maxWindows) (key : Option UInt32) (a : ℕ) (p : Int32) :
    (s.withCsi a p).deliverIf i key = (deliverKeys i s key.toList).withCsi a p := by
  cases key with
  | none => rfl
  | some k => exact deliverKeys_withCsi s i [k] a p

lemma keyboardByte_eq (c : UInt8) (hi : s.winById s.focusId = some i) :
    ∃ a p, (s.keyboardByte c).2 = (deliverKeys i s (s.keysOf c)).withCsi a p := by
  unfold keyboardByte keysOf
  rw [hi]
  dsimp only
  rcases s.csiState with _ | _ | _ | n
  · exact idleByte_eq s i c
  · by_cases hc : c = 91
    · exact ⟨2,0,by simp only [if_pos hc]; rfl⟩
    · obtain ⟨a,p,ha⟩ := idleByte_eq (deliverKeys i (s.withCsi 0 s.csiParam) [esc.toUInt32]) i c
      refine ⟨a,p,?_⟩
      simp only [if_neg hc]
      refine ha.trans ?_
      rw [deliverKeys_withCsi,deliverKeys_withCsi]
      rfl
  · by_cases hc : isDigit c = true
    · exact ⟨3,_,by simp only [if_pos hc]; rfl⟩
    · refine ⟨0,s.csiParam,?_⟩
      simp only [if_neg hc]
      exact deliverIf_eq s i (finalKey c) 0 s.csiParam
  · by_cases hc : isDigit c = true
    · exact ⟨_,_,by simp only [if_pos hc]; rfl⟩
    · by_cases ht : c = 126
      · refine ⟨0,0,?_⟩
        simp only [if_neg hc,if_pos ht]
        exact deliverIf_eq s i (paramKey s.csiParam) 0 0
      · exact ⟨0,0,by simp only [if_neg hc,if_neg ht]; rfl⟩

lemma keysOf_lt (s : State) (c : UInt8) : ∀ k ∈ s.keysOf c, k.toNat < keyCount := by
  have hbyte (c : UInt8) : c.toUInt32.toNat < keyCount := by
    have := c.toNat_lt
    rw [UInt8.toNat_toUInt32]
    exact this.trans (by decide)
  have hidle : ∀ k ∈ idleKeys c, k.toNat < keyCount := by
    intro k hk
    unfold idleKeys at hk
    split at hk
    · exact absurd hk not_mem_nil
    · rw [List.mem_singleton.mp hk]
      exact hbyte c
  have hfinal : ∀ k ∈ (finalKey c).toList, k.toNat < keyCount := by
    intro k hk
    rw [mem_toList] at hk
    unfold finalKey at hk
    split_ifs at hk <;> cases hk <;> decide
  have hparam : ∀ k ∈ (paramKey s.csiParam).toList, k.toNat < keyCount := by
    intro k hk
    rw [mem_toList] at hk
    unfold paramKey at hk
    split_ifs at hk <;> cases hk <;> decide
  intro k hk
  unfold keysOf at hk
  split at hk
  · exact hidle k hk
  · split at hk
    · exact absurd hk not_mem_nil
    · rcases List.mem_cons.mp hk with rfl | hk
      · exact hbyte esc
      · exact hidle k hk
  · split at hk
    · exact absurd hk not_mem_nil
    · exact hfinal k hk
  · split at hk
    · exact absurd hk not_mem_nil
    · split at hk
      · exact hparam k hk
      · exact absurd hk not_mem_nil

/-- The keys fit into the ring, or all of them are held already. -/
def Takes (s : State) (keys : List UInt32) : Prop := s.KeyRoom keys.length ∨ ∀ k ∈ keys, HeldIn s.keysHeld k

lemma keysHeld_deliverKey {key x : UInt32} (hx : HeldIn s.keysHeld x) : HeldIn (s.deliverKey i key).keysHeld x := by
  unfold deliverKey
  dsimp only
  split
  · refine (heldIn_update s.keysHeld _ true x).mpr ?_
    split
    · rfl
    · exact hx
  · exact hx

lemma queue_deliverKey_le (s : State) (i : Fin maxWindows) (key : UInt32) :
    ((s.deliverKey i key).wins i).events.queue.length ≤ (s.wins i).events.queue.length + 1 := by
  unfold deliverKey
  dsimp only
  split <;> exact queue_push_le s i _

lemma tuned_deliverKeys {keys : List UInt32} (h : s.board.Tuned) (hu : (s.wins i).inUse = true) (hf : s.focusId = i.val)
    (hkeys : ∀ k ∈ keys, k.toNat < keyCount)
    (hroom : (s.wins i).events.queue.length + keys.length < eventQueueCap ∨ ∀ k ∈ keys, HeldIn s.keysHeld k) :
    (deliverKeys i s keys).board.Tuned := by
  induction keys generalizing s with
  | nil => exact h
  | cons k keys ih =>
    rw [length_cons] at hroom
    have hone : (s.deliverKey i k).board.Tuned := by
      refine tuned_deliverKey h hu hf (hkeys k mem_cons_self) ?_
      rcases hroom with hroom | hheld
      · exact .inl (by unfold eventQueueCap at hroom; omega)
      · exact .inr (hheld k mem_cons_self)
    have hdesk := desk_deliverKey s i k
    refine ih hone ((inUse_of_desk hdesk i).trans hu) ((focusId_of_desk hdesk).trans hf)
      (fun x hx => hkeys x (mem_cons_of_mem _ hx)) ?_
    rcases hroom with hroom | hheld
    · have hlen := queue_deliverKey_le s i k
      refine .inl ?_
      change ((s.deliverKey i k).wins i).events.queue.length + keys.length < eventQueueCap
      omega
    · exact .inr fun x hx => keysHeld_deliverKey (hheld x (mem_cons_of_mem _ hx))

lemma tuned_takes {keys : List UInt32} (h : s.board.Tuned) (hi : s.winById s.focusId = some i)
    (hkeys : ∀ k ∈ keys, k.toNat < keyCount) (hroom : s.Takes keys) : (deliverKeys i s keys).board.Tuned := by
  obtain ⟨hf,hu⟩ := winById_some.mp hi
  exact tuned_deliverKeys h hu hf hkeys (hroom.imp_left fun hr => hr i hi)

lemma tuned_keyboardByte {c : UInt8} (h : s.board.Tuned) (hroom : s.Takes (s.keysOf c)) :
    (s.keyboardByte c).2.board.Tuned := by
  cases hi : s.winById s.focusId with
  | none =>
    unfold keyboardByte
    rw [hi]
    exact h
  | some i =>
    obtain ⟨a,p,he⟩ := keyboardByte_eq c hi
    rw [he]
    exact tuned_takes h hi (keysOf_lt s c) hroom

lemma tuned_flushPendingKeys (h : s.board.Tuned) (hroom : s.csiState ≠ 0 → s.Takes [esc.toUInt32]) :
    s.flushPendingKeys.board.Tuned := by
  unfold flushPendingKeys
  split
  · exact h
  · next hcsi =>
    dsimp only
    split
    · exact h
    · next i hi =>
      have hkeys : ∀ k ∈ [esc.toUInt32], k.toNat < keyCount := by
        intro k hk
        rw [List.mem_singleton.mp hk]
        decide
      have htakes := tuned_takes h hi hkeys (hroom hcsi)
      rw [show ({ s with csiState := 0, csiParam := 0 } : State).deliverKey i esc.toUInt32 = _ from
        deliverKeys_withCsi s i [esc.toUInt32] 0 0]
      exact htakes

/-- A release that is delivered is of a key that has its place in the table, and fits into the ring. -/
def RoomToRelease (s : State) (key : UInt32) : Prop :=
  key.toNat < keyCount ∧ (HeldIn s.keysHeld key → s.KeyRoom 1)

lemma tuned_keyboardRelease {key : UInt32} (h : s.board.Tuned) (hroom : 0 ≤ s.focusId → s.RoomToRelease key) :
    (s.keyboardRelease key).2.board.Tuned := by
  unfold keyboardRelease
  split
  · exact h
  · next hneg =>
    obtain ⟨hk,hr⟩ := hroom (Int.not_lt.mp hneg)
    dsimp only
    rw [dif_pos hk]
    split
    · next hheld =>
      split
      · next hnone =>
        rcases h.focus with hf | ⟨i,hi,hu⟩
        · have : s.focusId = -1 := hf
          omega
        · have hsome : s.winById s.focusId = some i := winById_some.mpr ⟨hi,hu⟩
          exact absurd (hnone.symm.trans hsome) (by simp)
      · next i hi =>
        obtain ⟨hf,hu⟩ := winById_some.mp (show s.winById s.focusId = some i from hi)
        have hlen := hr ⟨hk,hheld⟩ i hi
        exact tuned_keyUp h hu hf hk hheld (by unfold eventQueueCap at hlen; omega)
    · exact h

lemma tuned_deliverEvent {ev : Option GuiEvent} (h : s.board.Tuned)
    (hquiet : ∀ i e, s.winById id = some i → ev = some e → Quiet e) : (s.deliverEvent id ev).2.board.Tuned := by
  unfold deliverEvent
  cases hi : slotOf id with
  | none => exact h
  | some i =>
    dsimp only
    split
    · exact h
    · next hu =>
      have hu : (s.wins i).inUse = true := by simpa using hu
      cases ev with
      | none => exact h
      | some e =>
        have he := hquiet i e (winById_some.mpr ⟨slotOf_some hi,hu⟩) rfl
        exact tuned_took h hu (.push _ { e with windowId := (s.wins i).id }) ⟨he.key,he.keyUp⟩ rfl

def Pending (s : State) (pid : UInt64) : Prop :=
  ∃ i, (s.wins i).inUse = true ∧ (s.wins i).ownerPid = pid ∧ (s.wins i).events.pop.isSome = true

lemma pollEvent_spec {pid : UInt64} {copied : Bool} (hc : s.Pending pid → copied = true) :
    (s.pollEvent pid copied).2.board = s.board ∧ 0 ≤ (s.pollEvent pid copied).1 := by
  unfold pollEvent
  dsimp only
  split
  · exact ⟨rfl,le_rfl⟩
  · next i hi =>
    have hhas := find?_some hi
    simp only [Bool.and_eq_true,beq_iff_eq] at hhas
    split
    · exact ⟨rfl,le_rfl⟩
    · next ev r hpop =>
      rw [if_pos (hc ⟨i,hhas.1.1,hhas.1.2,hhas.2⟩)]
      refine ⟨board_setWin_self ?_,Int.one_nonneg⟩
      have hq : (s.wins i).events.queue = ev :: r.queue := GuiEventRing.pop_queue hpop
      unfold Window.line Window.received
      rw [hq]
      dsimp only
      rw [append_assoc,singleton_append]

/-- No event about a key is dropped or comes from a process, none is merged into one that a process has
made up, and a poll can hand over what it takes. -/
def Polite (s : State) : Call → Prop
  | .createWindowEx q alloc => q.valid = true → alloc = true → s.freeSlot.isSome = true →
    (q.flags &&& (flagAlwaysOnTop ||| flagPinToBottom) != 0) = false → s.KeyRoom s.heldCount
  | .raiseWindow id => ∀ i, s.winById id = some i → s.focusId ≠ id → s.KeyRoom s.heldCount
  | .setMinimized id on => s.RoomToMinimize id on
  | .pointerButton button down => ∀ i, s.pressed button down = some i → s.RoomToPress i
  | .pointerMove sx sy _ => (s.pointerX = sx && s.pointerY = sy) = false → s.dragId < 0 → s.RoomToMove
  | .keyboardByte c => s.Takes (s.keysOf c)
  | .flushPendingKeys => s.csiState ≠ 0 → s.Takes [esc.toUInt32]
  | .keyboardRelease key => 0 ≤ s.focusId → s.RoomToRelease key
  | .deliverEvent id ev => ∀ i e, s.winById id = some i → ev = some e → Quiet e
  | .pollEvent pid copied => s.Pending pid → copied = true
  | .destroyWindow _ _ | .destroyOwner _ | .moveWindow _ _ _ | .setInputPassthrough _ _ => True

lemma tuned_call {c : Call} (h : s.board.Tuned) (hc : s.Polite c) : (s.call c).2.board.Tuned := by
  cases c with
  | createWindowEx q alloc => exact tuned_createWindowEx h hc
  | destroyWindow pid id => exact tuned_destroyWindow h
  | destroyOwner pid => exact tuned_destroyOwner h
  | raiseWindow id => exact tuned_raiseWindow h hc
  | setMinimized id on => exact tuned_setMinimized h hc
  | moveWindow id x y =>
    have hboard : (s.moveWindow id x y).2.board = s.board := by
      unfold moveWindow
      split
      · rfl
      · split
        · rfl
        · exact board_setWin_self rfl
    exact hboard ▸ h
  | setInputPassthrough id on =>
    have hboard : (s.setInputPassthrough id on).2.board = s.board := by
      unfold setInputPassthrough
      split
      · rfl
      · split
        · rfl
        · exact board_setWin_self rfl
    exact hboard ▸ h
  | pointerMove sx sy alloc => exact tuned_pointerMove h hc alloc
  | pointerButton button down => exact tuned_pointerButton h hc
  | keyboardByte c => exact tuned_keyboardByte h hc
  | flushPendingKeys => exact tuned_flushPendingKeys h hc
  | keyboardRelease key => exact tuned_keyboardRelease h hc
  | deliverEvent id ev => exact tuned_deliverEvent h hc
  | pollEvent pid copied => exact (pollEvent_spec hc).1 ▸ h

lemma Start.tuned (h : s.Start) : s.board.Tuned := by
  have hnone (i : Fin maxWindows) : (s.board.lines i).inUse ≠ true := by
    rw [show (s.board.lines i).inUse = false from h.unused i]
    exact Bool.false_ne_true
  exact ⟨fun i hi => absurd hi (hnone i),.inl h.focusId,fun _ => h.keysHeld,fun i hi => absurd hi (hnone i),
    fun i hi => absurd hi (hnone i)⟩

structure InOrder (s : State) (i : Fin maxWindows) : Prop where
  subsequence : (s.wins i).polled.Sublist (s.wins i).generated
  paired : Paired (s.wins i).polled
  released : s.focusId ≠ i.val → ∀ k, ¬ Unmatched k (s.wins i).received
  coalesced : Delivered (s.wins i).generated (s.wins i).received

/-- In a run of polite calls the streams of all windows are in order, and a poll that fails takes nothing. -/
theorem streams_in_order {cs : List Call} (h0 : s.Start) (run : Runs step Polite s cs t) :
    (∀ i, (t.wins i).inUse = true → t.InOrder i) ∧ ∀ pid copied, t.Polite (.pollEvent pid copied) →
      (t.pollEvent pid copied).1 < 0 → (t.pollEvent pid copied).2 = t := by
  have tuned : t.board.Tuned := by
    refine Runs.invariant (I := fun u : State => u.board.Tuned) (fun u c r v hu hc hstep => ?_) run h0.tuned
    obtain ⟨-,rfl⟩ := Prod.mk.inj (some.inj hstep)
    exact tuned_call hu hc
  constructor
  · intro i hi
    have hgood : (t.wins i).line.Good := tuned.good i hi
    have hpair : Paired ((t.wins i).polled ++ (t.wins i).events.queue) := hgood.paired
    have hsub : ((t.wins i).polled ++ (t.wins i).events.queue).Sublist (t.wins i).generated := hgood.delivered.sublist
    exact ⟨(sublist_append_left _ _).trans hsub,hpair.left,
      fun hf k hk => hf ((tuned.held i hi k).mp hk).1,hgood.delivered⟩
  · intro pid copied hc hneg
    exact absurd (pollEvent_spec hc).2 (Int.not_le.mpr hneg)

instance (s : State) (n : ℕ) : Decidable (s.KeyRoom n) :=
  inferInstanceAs (Decidable (∀ i, s.winById s.focusId = some i → (s.wins i).events.queue.length + n < eventQueueCap))

/-- A test that is enough for calls of the keyboard and polls. -/
def fits (s : State) : Call → Bool
  | .createWindowEx _ _ => s.KeyRoom s.heldCount
  | .keyboardByte c => s.KeyRoom (s.keysOf c).length
  | .keyboardRelease key => key.toNat < keyCount && s.KeyRoom 1
  | .pollEvent _ copied => copied
  | _ => false

lemma polite_of_fits (s : State) (c : Call) (h : s.fits c = true) : s.Polite c := by
  cases c with
  | createWindowEx q alloc => exact fun _ _ _ _ => of_decide_eq_true h
  | keyboardByte c => exact .inl (of_decide_eq_true h)
  | keyboardRelease key =>
    obtain ⟨hk,hr⟩ := Bool.and_eq_true_iff.mp h
    exact fun _ => ⟨of_decide_eq_true hk,fun _ => of_decide_eq_true hr⟩
  | pollEvent pid copied => exact fun _ => h
  | destroyWindow | destroyOwner | raiseWindow | setMinimized | moveWindow | setInputPassthrough | pointerMove
  | pointerButton | flushPendingKeys | deliverEvent => cases h

/-- A key goes down and up, and a window gets the focus while another key is held. -/
def typing : List Call := [small 0,.keyboardByte 97,.pollEvent 1 true,.keyboardRelease 97,.pollEvent 1 true,.keyboardByte 27,
  .keyboardByte 91,.keyboardByte 65,small 0,.pollEvent 1 true,.pollEvent 1 true]

lemma fits_of_execute {cs : List Call}
    (h : execute (fun s c => if s.fits c = true then s.step c else none) s cs = some t) : Runs step Polite s cs t :=
  Runs.of_guarded polite_of_fits h

theorem streams_in_order_typing : ∃ t, Runs step Polite booted typing t ∧ (t.wins 0).polled.length = 4 ∧ t.InOrder 0 := by
  have hsome : (execute (fun s c => if s.fits c = true then s.step c else none) booted typing).any (fun t => decide
      ((t.wins 0).polled.length = 4 ∧ (t.wins 0).inUse = true)) = true := by decide +kernel
  obtain ⟨t,ht,hgot⟩ := (Option.any_eq_true _ _).mp hsome
  obtain ⟨hlen,hu⟩ := of_decide_eq_true hgot
  have run : Runs step Polite booted typing t := fits_of_execute ht
  exact ⟨t,run,hlen,(streams_in_order booted_start run).1 0 hu⟩

/-- A poll that cannot copy the event loses it, and the release of a key comes without the press. -/
theorem streams_out_of_order :
    (∃ t, Runs step (fun _ _ => True) booted [small 0,.keyboardByte 97] t ∧ (t.pollEvent 1 false).1 < 0 ∧
      (t.pollEvent 1 false).2 ≠ t) ∧
    ∃ t, Runs step (fun _ _ => True) booted
      [small 0,.keyboardByte 97,.pollEvent 1 false,.keyboardRelease 97,.pollEvent 1 true] t ∧
      (t.wins 0).inUse = true ∧ ¬ t.InOrder 0 := by
  have hlost : (execute step booted [small 0,.keyboardByte 97]).any (fun t => decide ((t.pollEvent 1 false).1 < 0 ∧
      ((t.pollEvent 1 false).2.wins 0).events.tail ≠ (t.wins 0).events.tail)) = true := by decide
  have halone : (execute step booted
      [small 0,.keyboardByte 97,.pollEvent 1 false,.keyboardRelease 97,.pollEvent 1 true]).any (fun t => decide
      ((t.wins 0).inUse = true ∧ (t.wins 0).polled = [⟨guiEventKeyUp,0,97,0,0,0⟩])) = true := by decide
  constructor
  · obtain ⟨t,ht,h⟩ := (Option.any_eq_true _ _).mp hlost
    obtain ⟨hneg,htail⟩ := of_decide_eq_true h
    exact ⟨t,.of_execute ht,hneg,fun he => htail (congrArg (fun u : State => (u.wins 0).events.tail) he)⟩
  · obtain ⟨t,ht,h⟩ := (Option.any_eq_true _ _).mp halone
    obtain ⟨hu,hpolled⟩ := of_decide_eq_true h
    exact ⟨t,.of_execute ht,hu,fun hin => not_unmatched_nil (hin.paired [] ⟨guiEventKeyUp,0,97,0,0,0⟩ [] hpolled rfl)⟩

end State
end VibeOS.Wm

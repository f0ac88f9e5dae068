import VibeOS.Wm.Windows

/-! Focus, stacking order and drags over all runs of the window table. -/
namespace VibeOS.Wm
open Function (update update_eq_self update_of_ne update_self)

variable {wins wins' : Fin maxWindows → Window} {eligible eligible' : Window → Bool}
  {better : Window → Window → Bool}

def keepBest (wins : Fin maxWindows → Window) (eligible : Window → Bool) (better : Window → Window → Bool)
    (best : Option (Fin maxWindows)) (i : Fin maxWindows) : Option (Fin maxWindows) :=
  if eligible (wins i) then
    match best with
    | none => some i
    | some b => if better (wins i) (wins b) then some i else best
  else best

lemma pick_eq : pick wins eligible better = (List.finRange maxWindows).foldl (keepBest wins eligible better) none := rfl

lemma keepBest_eligible {best : Option (Fin maxWindows)} {i : Fin maxWindows}
    (h : ∀ b, best = some b → eligible (wins b) = true) {b : Fin maxWindows}
    (hb : keepBest wins eligible better best i = some b) : eligible (wins b) = true := by
  unfold keepBest at hb
  split at hb
  · next hi =>
    cases best with
    | none =>
      obtain rfl := Option.some.inj hb
      exact hi
    | some c =>
      dsimp only at hb
      split at hb
      · obtain rfl := Option.some.inj hb
        exact hi
      · exact h b hb
  · exact h b hb

lemma foldl_keepBest_eligible (l : List (Fin maxWindows)) {best : Option (Fin maxWindows)}
    (h : ∀ b, best = some b → eligible (wins b) = true) {b : Fin maxWindows}
    (hb : l.foldl (keepBest wins eligible better) best = some b) : eligible (wins b) = true := by
  induction l generalizing best with
  | nil => exact h b hb
  | cons i l ih => exact ih (fun _ hc => keepBest_eligible h hc) hb

lemma eligible_of_pick {b : Fin maxWindows} (hb : pick wins eligible better = some b) : eligible (wins b) = true :=
  foldl_keepBest_eligible _ (fun _ h => (by cases h)) hb

lemma pick_congr (hwins : ∀ i, eligible (wins i) = eligible' (wins' i))
    (hbetter : ∀ i j, better (wins i) (wins j) = better (wins' i) (wins' j)) :
    pick wins eligible better = pick wins' eligible' better := by
  have hturn : keepBest wins eligible better = keepBest wins' eligible' better := by
    funext best i
    unfold keepBest
    rw [hwins i]
    cases best with
    | none => rfl
    | some b =>
      dsimp only
      rw [hbetter i b]
  rw [pick_eq,pick_eq,hturn]

/-- The part of a record that the focus and the stacking order depend on. -/
structure Card where
  inUse : Bool
  id : ℤ
  z : UInt32
  flags : UInt32
  minimized : Bool

def Window.card (w : Window) : Card := ⟨w.inUse,w.id,w.z,w.flags,w.minimized⟩

structure Desk where
  cards : Fin maxWindows → Card
  nextZ : ℕ
  focusId : ℤ
  dragId : ℤ
  resizeId : ℤ

def State.desk (s : State) : Desk := ⟨fun i => (s.wins i).card,s.nextZ,s.focusId,s.dragId,s.resizeId⟩

namespace Desk
variable {d : Desk} {i : Fin maxWindows} {c : Card} {id : ℤ}

def put (d : Desk) (i : Fin maxWindows) (c : Card) : Desk := { d with cards := update d.cards i c }

def Names (d : Desk) (id : ℤ) : Prop := id = -1 ∨ ∃ i : Fin maxWindows, id = i.val ∧ (d.cards i).inUse = true

structure Shows (d : Desk) (i : Fin maxWindows) : Prop where
  inUse : (d.cards i).inUse = true
  shown : (d.cards i).minimized = false
  free : ((d.cards i).flags &&& flagPinToBottom != 0) = false

/-- The place of a window in the stacking order; the last number before the counter wraps is 0. -/
def zRank (z : UInt32) : ℕ := if z = 0 then 2^32 else z.toNat

structure Stacked (d : Desk) : Prop where
  le : ∀ i, (d.cards i).inUse = true → zRank (d.cards i).z ≤ d.nextZ
  distinct : ∀ i j, (d.cards i).inUse = true → (d.cards j).inUse = true → (d.cards i).z = (d.cards j).z → i = j

/-- What holds whatever the focus is. -/
structure Sound (d : Desk) : Prop where
  id : ∀ i, (d.cards i).inUse = true → (d.cards i).id = i.val
  drag : d.Names d.dragId
  resize : d.Names d.resizeId
  stacked : d.nextZ ≤ 2^32 → d.Stacked

def Visible (d : Desk) : Prop := d.focusId = -1 ∨ ∃ i : Fin maxWindows, d.focusId = i.val ∧ d.Shows i

lemma zRank_ofNat {n : ℕ} (h : n + 1 ≤ 2^32) : zRank (UInt32.ofNat (n + 1)) = n + 1 := by
  unfold zRank
  have hval : (UInt32.ofNat (n + 1)).toNat = (n + 1) % 2^32 := UInt32.toNat_ofNat'
  have hzero : UInt32.ofNat (n + 1) = 0 ↔ (n + 1) % 2^32 = 0 := by
    rw [← UInt32.toNat_inj,hval]
    rfl
  split
  · next h0 =>
    have := hzero.mp h0
    omega
  · next h0 =>
    have := mt hzero.mpr h0
    rw [hval]
    omega

lemma Names.put (h : d.Names id) (hc : (d.cards i).inUse = true → c.inUse = true) : (d.put i c).Names id := by
  rcases h with h | ⟨j,hj,hu⟩
  · exact .inl h
  · refine .inr ⟨j,hj,?_⟩
    change (update d.cards i c j).inUse = true
    by_cases hij : j = i
    · subst hij
      rw [update_self]
      exact hc hu
    · rwa [update_of_ne hij]

lemma Shows.put_of_ne {j : Fin maxWindows} (h : d.Shows j) (hij : j ≠ i) : (d.put i c).Shows j := by
  have hcard : (d.put i c).cards j = d.cards j := update_of_ne hij _ _
  exact ⟨hcard ▸ h.inUse,hcard ▸ h.shown,hcard ▸ h.free⟩

lemma Visible.put (h : d.Visible) (hne : d.focusId ≠ i.val) : (d.put i c).Visible := by
  rcases h with h | ⟨j,hj,hs⟩
  · exact .inl h
  · exact .inr ⟨j,hj,hs.put_of_ne fun he => hne (by rw [hj,he])⟩

lemma Visible.congr {d' : Desk} (h : d.Visible) (hcards : d'.cards = d.cards) (hfocus : d'.focusId = d.focusId) :
    d'.Visible := by
  rcases h with h | ⟨i,hi,hs⟩
  · exact .inl (hfocus.trans h)
  · exact .inr ⟨i,hfocus.trans hi,hcards ▸ hs.inUse,hcards ▸ hs.shown,hcards ▸ hs.free⟩

namespace Sound

lemma stack (h : d.Sound) (hu : c.inUse = true) (hid : c.id = i.val) (hz : c.z = UInt32.ofNat (d.nextZ + 1)) :
    Sound { d.put i c with nextZ := d.nextZ + 1 } where
  id j hj := by
    change (update d.cards i c j).id = _
    change (update d.cards i c j).inUse = true at hj
    by_cases hij : j = i
    · subst hij
      rw [update_self]
      exact hid
    · rw [update_of_ne hij] at hj ⊢
      exact h.id j hj
  drag := h.drag.put fun _ => hu
  resize := h.resize.put fun _ => hu
  stacked hle := by
    have hs := h.stacked ((Nat.le_succ _).trans hle)
    have hrank : zRank c.z = d.nextZ + 1 := by rw [hz]; exact zRank_ofNat hle
    have hother (j : Fin maxWindows) (hj : (d.cards j).inUse = true) : (d.cards j).z ≠ c.z := fun he => by
      have := hs.le j hj
      rw [he,hrank] at this
      omega
    constructor
    · intro j hj
      change zRank (update d.cards i c j).z ≤ d.nextZ + 1
      change (update d.cards i c j).inUse = true at hj
      by_cases hij : j = i
      · subst hij
        rw [update_self,hrank]
      · rw [update_of_ne hij] at hj ⊢
        exact (hs.le j hj).trans (Nat.le_succ _)
    · intro j k hj hk he
      change (update d.cards i c j).inUse = true at hj
      change (update d.cards i c k).inUse = true at hk
      change (update d.cards i c j).z = (update d.cards i c k).z at he
      by_cases hij : j = i <;> by_cases hik : k = i
      · rw [hij,hik]
      · subst hij
        rw [update_of_ne hik] at hk he
        rw [update_self] at he
        exact absurd he.symm (hother k hk)
      · subst hik
        rw [update_of_ne hij] at hj he
        rw [update_self] at he
        exact absurd he (hother j hj)
      · rw [update_of_ne hij] at hj he
        rw [update_of_ne hik] at hk he
        exact hs.distinct j k hj hk he

lemma put (h : d.Sound) (hu : c.inUse = (d.cards i).inUse) (hid : c.id = (d.cards i).id) (hz : c.z = (d.cards i).z) :
    (d.put i c).Sound := by
  have hcard (j : Fin maxWindows) : ((d.put i c).cards j).inUse = (d.cards j).inUse ∧
      ((d.put i c).cards j).id = (d.cards j).id ∧ ((d.put i c).cards j).z = (d.cards j).z := by
    by_cases hij : j = i
    · subst hij
      have hself : (d.put j c).cards j = c := update_self ..
      rw [hself]
      exact ⟨hu,hid,hz⟩
    · have hne : (d.put i c).cards j = d.cards j := update_of_ne hij _ _
      rw [hne]
      exact ⟨rfl,rfl,rfl⟩
  refine ⟨fun j hj => ?_,h.drag.put fun h => hu ▸ h,h.resize.put fun h => hu ▸ h,fun hle => ?_⟩
  · rw [(hcard j).2.1]
    exact h.id j ((hcard j).1 ▸ hj)
  · have hs := h.stacked hle
    refine ⟨fun j hj => ?_,fun j k hj hk he => ?_⟩
    · rw [(hcard j).2.2]
      exact hs.le j ((hcard j).1 ▸ hj)
    · rw [(hcard j).2.2,(hcard k).2.2] at he
      exact hs.distinct j k ((hcard j).1 ▸ hj) ((hcard k).1 ▸ hk) he

lemma close (h : d.Sound) (hu : c.inUse = false) : Sound { d.put i c with
    dragId := if d.dragId = i.val then -1 else d.dragId
    resizeId := if d.resizeId = i.val then -1 else d.resizeId } := by
  have hcard (j : Fin maxWindows) (hj : ((d.put i c).cards j).inUse = true) : (d.put i c).cards j = d.cards j := by
    by_cases hij : j = i
    · subst hij
      have hself : (d.put j c).cards j = c := update_self ..
      rw [hself,hu] at hj
      cases hj
    · exact update_of_ne hij _ _
  have hnames (id : ℤ) (hn : d.Names id) : (d.put i c).Names (if id = i.val then -1 else id) := by
    split
    · exact .inl rfl
    · next hne =>
      rcases hn with hn | ⟨j,hj,hju⟩
      · exact .inl hn
      · refine .inr ⟨j,hj,?_⟩
        have hsame : (d.put i c).cards j = d.cards j :=
          update_of_ne (fun he => hne (by rw [hj,he])) _ _
        rw [hsame]
        exact hju
  refine ⟨fun j hj => ?_,hnames _ h.drag,hnames _ h.resize,fun hle => ?_⟩
  · have hj' := hcard j hj
    change ((d.put i c).cards j).id = _
    rw [hj']
    exact h.id j (hj' ▸ hj)
  · have hs := h.stacked hle
    refine ⟨fun j hj => ?_,fun j k hj hk he => ?_⟩
    · have hj' := hcard j hj
      change zRank ((d.put i c).cards j).z ≤ d.nextZ
      rw [hj']
      exact hs.le j (hj' ▸ hj)
    · have hj' := hcard j hj
      have hk' := hcard k hk
      change ((d.put i c).cards j).z = ((d.put i c).cards k).z at he
      rw [hj',hk'] at he
      exact hs.distinct j k (hj' ▸ hj) (hk' ▸ hk) he

lemma stacked_of (h : d.Sound) {focusId dragId resizeId : ℤ} (hle : d.nextZ ≤ 2^32) :
    Stacked ⟨d.cards,d.nextZ,focusId,dragId,resizeId⟩ := ⟨(h.stacked hle).le,(h.stacked hle).distinct⟩

lemma refocus (h : d.Sound) (id : ℤ) : Sound { d with focusId := id } := ⟨h.id,h.drag,h.resize,h.stacked_of⟩

end Sound
end Desk

namespace State
variable {s t : State} {i j : Fin maxWindows} {w : Window} {id : ℤ}

lemma desk_setWin (s : State) (i : Fin maxWindows) (w : Window) : (s.setWin i w).desk = s.desk.put i w.card := by
  have hcards : (fun j => (update s.wins i w j).card) = update (fun j => (s.wins j).card) i w.card :=
    Function.comp_update Window.card s.wins i w
  unfold desk setWin Desk.put
  dsimp only
  rw [hcards]

lemma desk_setWin_self (h : w.card = (s.wins i).card) : (s.setWin i w).desk = s.desk := by
  have hself : update s.desk.cards i (s.desk.cards i) = s.desk.cards := update_eq_self ..
  rw [desk_setWin,h]
  change { s.desk with cards := update s.desk.cards i (s.desk.cards i) } = s.desk
  rw [hself]

lemma card_post (coalesce : GuiEventRing → GuiEvent → Option GuiEventRing) (w : Window) (ev : GuiEvent) :
    (w.post coalesce ev).card = w.card := by
  unfold Window.post
  split <;> rfl

lemma desk_push (s : State) (i : Fin maxWindows) (ev : GuiEvent) : (s.push i ev).desk = s.desk := desk_setWin_self rfl

lemma desk_deliverKey (s : State) (i : Fin maxWindows) (key : UInt32) : (s.deliverKey i key).desk = s.desk := by
  unfold deliverKey
  dsimp only
  split <;> exact desk_push s i _

lemma desk_releaseKey (o : Option (Fin maxWindows)) (s : State) (k : Fin keyCount) : (releaseKey o s k).desk = s.desk := by
  unfold releaseKey
  split
  · cases o with
    | none => rfl
    | some i => exact desk_push { s with keysHeld := update s.keysHeld k false } i _
  · rfl

lemma desk_releaseKeys (o : Option (Fin maxWindows)) (s : State) (l : List (Fin keyCount)) :
    (l.foldl (releaseKey o) s).desk = s.desk := by
  induction l generalizing s with
  | nil => rfl
  | cons k l ih => exact (ih (releaseKey o s k)).trans (desk_releaseKey o s k)

lemma desk_synthesizeReleasesTo (s : State) (o : Option (Fin maxWindows)) : (s.synthesizeReleasesTo o).desk = s.desk :=
  desk_releaseKeys o s _

lemma desk_setFocus (s : State) (id : ℤ) : (s.setFocus id).desk = { s.desk with focusId := id } := by
  unfold setFocus
  split
  · next h =>
    subst h
    rfl
  · dsimp only
    split
    · have h := desk_synthesizeReleasesTo s (s.winById s.focusId)
      generalize s.synthesizeReleasesTo (s.winById s.focusId) = t at h ⊢
      rw [← h]
      rfl
    · rfl

lemma desk_idleByte (s : State) (i : Fin maxWindows) (c : UInt8) : (s.idleByte i c).desk = s.desk := by
  unfold idleByte
  split
  · rfl
  · exact desk_deliverKey s i _

lemma desk_deliverIf (s : State) (i : Fin maxWindows) (key : Option UInt32) : (s.deliverIf i key).desk = s.desk := by
  cases key with
  | none => rfl
  | some key => exact desk_deliverKey s i key

lemma desk_keyboardByte (s : State) (c : UInt8) : (s.keyboardByte c).2.desk = s.desk := by
  unfold keyboardByte
  split
  · rfl
  · next i _ =>
    dsimp only
    split
    · exact desk_idleByte s i c
    · split
      · rfl
      · exact (desk_idleByte _ i c).trans (desk_deliverKey { s with csiState := 0 } i _)
    · split
      · rfl
      · exact desk_deliverIf { s with csiState := 0 } i _
    · split
      · rfl
      · split
        · exact desk_deliverIf { s with csiState := 0, csiParam := 0 } i _
        · rfl

lemma desk_flushPendingKeys (s : State) : s.flushPendingKeys.desk = s.desk := by
  unfold flushPendingKeys
  split
  · rfl
  · dsimp only
    split
    · rfl
    · exact desk_deliverKey { s with csiState := 0, csiParam := 0 } _ _

lemma desk_keyboardRelease (s : State) (key : UInt32) : (s.keyboardRelease key).2.desk = s.desk := by
  unfold keyboardRelease
  split
  · rfl
  · dsimp only
    split
    · next hk =>
      split
      · split
        · rfl
        · exact desk_push { s with keysHeld := update s.keysHeld ⟨key.toNat,hk⟩ false } _ _
      · rfl
    · split
      · rfl
      · exact desk_push s _ _

lemma desk_deliverEvent (s : State) (id : ℤ) (ev : Option GuiEvent) : (s.deliverEvent id ev).2.desk = s.desk := by
  unfold deliverEvent
  split
  · rfl
  · split
    · rfl
    · split
      · rfl
      · exact desk_setWin_self rfl

lemma desk_pollEvent (s : State) (pid : UInt64) (copied : Bool) : (s.pollEvent pid copied).2.desk = s.desk := by
  unfold pollEvent
  dsimp only
  split
  · rfl
  · split
    · rfl
    · split <;> exact desk_setWin_self rfl

lemma desk_resizeWindowTo (s : State) (i : Fin maxWindows) (newW newH : UInt32) (alloc : Bool) :
    (s.resizeWindowTo i newW newH alloc).desk = s.desk := by
  unfold resizeWindowTo
  dsimp only
  split
  · rfl
  · split
    · rfl
    · exact desk_setWin_self (card_post _ _ _)

/-- The invariant: a sound desk, with the focus on a window that the keyboard may go to. -/
structure Held (s : State) : Prop where
  sound : s.desk.Sound
  visible : s.desk.Visible

lemma Held.of_desk (h : s.Held) (he : t.desk = s.desk) : t.Held := ⟨he ▸ h.sound,he ▸ h.visible⟩

lemma Held.grab (h : s.Held) (hwins : t.wins = s.wins) (hz : t.nextZ = s.nextZ) (hf : t.focusId = s.focusId)
    (hd : s.desk.Names t.dragId) (hr : s.desk.Names t.resizeId) : t.Held := by
  have hdesk : t.desk = ⟨s.desk.cards,s.desk.nextZ,s.desk.focusId,t.dragId,t.resizeId⟩ := by
    unfold desk
    rw [hwins,hz,hf]
  constructor
  · rw [hdesk]
    exact ⟨h.sound.id,hd,hr,h.sound.stacked_of⟩
  · rw [hdesk]
    exact h.visible.congr rfl rfl

lemma Held.names (h : s.Held) (hi : (s.wins i).inUse = true) : s.desk.Names (s.wins i).id :=
  .inr ⟨i,h.sound.id i hi,hi⟩

lemma Held.focusOn (h : s.desk.Sound) (hs : s.desk.Shows i) : (s.setFocus (s.wins i).id).Held := by
  have hid : (s.wins i).id = i.val := h.id i hs.inUse
  constructor
  · rw [desk_setFocus]
    exact h.refocus _
  · rw [desk_setFocus]
    exact .inr ⟨i,hid,hs.inUse,hs.shown,hs.free⟩

lemma Held.focusNone (h : s.desk.Sound) : (s.setFocus (-1)).Held := by
  constructor
  · rw [desk_setFocus]
    exact h.refocus _
  · rw [desk_setFocus]
    exact .inl rfl

lemma slotOf_some (h : slotOf id = some i) : id = i.val := by
  unfold slotOf at h
  split at h
  · obtain rfl := Option.some.inj h
    dsimp only
    omega
  · cases h

lemma slotOf_val (i : Fin maxWindows) : slotOf i.val = some i := by
  have hi := i.isLt
  have h : (0 : ℤ) ≤ i.val ∧ (i.val : ℤ) < maxWindows := by omega
  rw [slotOf,dif_pos h]
  rfl

lemma winById_some : s.winById id = some i ↔ id = i.val ∧ (s.wins i).inUse = true := by
  unfold winById
  rw [Option.filter_eq_some_iff]
  constructor
  · rintro ⟨hi,hu⟩
    exact ⟨slotOf_some hi,hu⟩
  · rintro ⟨rfl,hu⟩
    exact ⟨slotOf_val i,hu⟩

lemma bumpUnlessTop_spec (h : s.desk.Sound) (hi : (s.wins i).inUse = true) : (s.bumpUnlessTop i).desk.Sound ∧
    ((s.bumpUnlessTop i).wins i).id = (s.wins i).id ∧
    (∀ j, (s.bumpUnlessTop i).desk.Shows j ↔ s.desk.Shows j) ∧ (s.bumpUnlessTop i).focusId = s.focusId := by
  unfold bumpUnlessTop
  split
  · exact ⟨h,rfl,fun _ => Iff.rfl,rfl⟩
  · have hdesk : (s.bumpZ i).desk = { s.desk.put i { (s.wins i).card with z := UInt32.ofNat (s.nextZ + 1) } with
        nextZ := s.nextZ + 1 } :=
      congrArg (fun d : Desk => { d with nextZ := s.nextZ + 1 })
        (desk_setWin s i { s.wins i with z := UInt32.ofNat (s.nextZ + 1) })
    have hcard (j : Fin maxWindows) : ((s.bumpZ i).wins j).inUse = (s.wins j).inUse ∧
        ((s.bumpZ i).wins j).minimized = (s.wins j).minimized ∧ ((s.bumpZ i).wins j).flags = (s.wins j).flags ∧
        ((s.bumpZ i).wins j).id = (s.wins j).id := by
      change (update s.wins i _ j).inUse = _ ∧ (update s.wins i _ j).minimized = _ ∧
        (update s.wins i _ j).flags = _ ∧ (update s.wins i _ j).id = _
      by_cases hij : j = i
      · subst hij
        simp only [update_self,and_self]
      · simp only [update_of_ne hij,and_self]
    refine ⟨?_,(hcard i).2.2.2,fun j => ?_,rfl⟩
    · rw [hdesk]
      exact h.stack hi (h.id i hi) rfl
    · obtain ⟨hu,hm,hf,-⟩ := hcard j
      constructor
      · rintro ⟨h1,h2,h3⟩
        exact ⟨hu.symm.trans h1,hm.symm.trans h2,(congrArg (fun f => f &&& flagPinToBottom != 0) hf).symm.trans h3⟩
      · rintro ⟨h1,h2,h3⟩
        exact ⟨hu.trans h1,hm.trans h2,(congrArg (fun f => f &&& flagPinToBottom != 0) hf).trans h3⟩

lemma Held.lift (h : s.desk.Sound) (hs : s.desk.Shows i) :
    ((s.bumpUnlessTop i).setFocus ((s.bumpUnlessTop i).wins i).id).Held := by
  obtain ⟨hsound,-,hshows,-⟩ := bumpUnlessTop_spec h hs.inUse
  exact .focusOn hsound ((hshows i).mpr hs)

lemma Held.raiseWindow (h : s.Held) (hfree : ∀ i, s.winById id = some i → (s.wins i).has flagPinToBottom = false) :
    (s.raiseWindow id).2.Held := by
  unfold State.raiseWindow
  cases hi : slotOf id with
  | none => exact h
  | some i =>
    dsimp only
    split
    · exact h
    · next hu =>
      have hu : (s.wins i).inUse = true := by simpa using hu
      have hcard := desk_setWin s i { s.wins i with minimized := false }
      have hsound : (s.setWin i { s.wins i with minimized := false }).desk.Sound := by
        rw [hcard]
        exact h.sound.put rfl rfl rfl
      refine Held.lift hsound ⟨?_,?_,?_⟩ <;> rw [hcard,Desk.put] <;> simp only [update_self]
      · exact hu
      · rfl
      · exact hfree i (winById_some.mpr ⟨slotOf_some hi,hu⟩)

lemma shows_of_nextVisible (h : s.nextVisible = some i) : s.desk.Shows i := by
  have he := eligible_of_pick h
  simp only [Bool.and_eq_true,Bool.not_eq_true'] at he
  exact ⟨he.1.1,he.1.2,he.2⟩

lemma Held.setMinimized (h : s.Held) (id : ℤ) (on : Bool) : (s.setMinimized id on).2.Held := by
  unfold State.setMinimized
  cases hi : slotOf id with
  | none => exact h
  | some i =>
    dsimp only
    split
    · exact h
    · next hu =>
      have hu : (s.wins i).inUse = true := by simpa using hu
      split
      · exact h
      · next hpin =>
        have hsound (m : Bool) : (s.setWin i { s.wins i with minimized := m }).desk.Sound := by
          rw [desk_setWin]
          exact h.sound.put rfl rfl rfl
        cases on with
        | true =>
          rw [if_pos rfl]
          split
          · exact h
          · split
            · -- the window that is hidden had the focus
              split
              · next b hb => exact .focusOn (hsound true) (shows_of_nextVisible hb)
              · exact .focusNone (hsound true)
            · next hne =>
              refine ⟨hsound true,?_⟩
              rw [desk_setWin]
              have hid : (update s.wins i { s.wins i with minimized := true } i).id = i.val := by
                rw [update_self]
                exact h.sound.id i hu
              exact h.visible.put fun he => hne (he.trans hid.symm)
        | false =>
          rw [if_neg Bool.false_ne_true]
          split
          · exact h
          · refine Held.lift (hsound false) ⟨?_,?_,?_⟩ <;> rw [desk_setWin,Desk.put] <;> simp only [update_self]
            · exact hu
            · rfl
            · exact Bool.eq_false_iff.mpr hpin

lemma shows_of_hitTest {sx sy : Int32} (h : s.hitTest sx sy = some i) : s.desk.Shows i := by
  have he := eligible_of_pick h
  simp only [Bool.and_eq_true,Bool.not_eq_true'] at he
  exact ⟨he.1.1.1.1,he.1.1.2,he.1.1.1.2⟩

lemma Held.pressLeft (h : s.Held) (hs : s.desk.Shows i) (button : UInt32) : (s.pressLeft i button).Held := by
  unfold State.pressLeft
  have hfocus := Held.lift h.sound hs
  have hnames : ((s.bumpUnlessTop i).setFocus ((s.bumpUnlessTop i).wins i).id).desk.Names
      (((s.bumpUnlessTop i).setFocus ((s.bumpUnlessTop i).wins i).id).wins i).id := by
    refine hfocus.names ?_
    have hcards := congrArg (fun d : Desk => (d.cards i).inUse)
      (desk_setFocus (s.bumpUnlessTop i) ((s.bumpUnlessTop i).wins i).id)
    exact hcards.trans (((bumpUnlessTop_spec h.sound hs.inUse).2.2.1 i).mpr hs).inUse
  dsimp only
  generalize (s.bumpUnlessTop i).setFocus ((s.bumpUnlessTop i).wins i).id = t at hfocus hnames ⊢
  cases (s.wins i).classifyClick s.pointerX s.pointerY with
  | close | body cx cy => exact hfocus.of_desk (desk_push t i _)
  | minimize => exact hfocus.setMinimized _ true
  | title => exact hfocus.grab rfl rfl rfl hnames hfocus.sound.resize
  | grip => exact hfocus.grab rfl rfl rfl hfocus.sound.drag hnames
  | miss => exact hfocus

lemma Held.pointerButton (h : s.Held) (button : UInt32) (down : Bool) : (s.pointerButton button down).Held := by
  unfold State.pointerButton
  generalize (if down then s.buttons ||| button else s.buttons &&& ~~~button) = buttons
  have hb : ({ s with buttons := buttons } : State).Held := h.of_desk rfl
  generalize ({ s with buttons := buttons } : State) = t at hb ⊢
  unfold routeButton
  split
  · exact hb.grab rfl rfl rfl (.inl rfl) hb.sound.resize
  · split
    · exact hb.grab rfl rfl rfl hb.sound.drag (.inl rfl)
    · split
      · exact hb
      · split
        · split
          · exact hb
          · next i hi => exact hb.pressLeft (shows_of_hitTest hi) button
        · split
          · split
            · exact hb.of_desk (desk_push t _ _)
            · exact hb
          · exact hb

lemma Held.pointerMove (h : s.Held) (sx sy : Int32) (alloc : Bool) : (s.pointerMove sx sy alloc).Held := by
  unfold State.pointerMove
  split
  · exact h
  · have hp : ({ s with pointerX := sx, pointerY := sy } : State).Held := h.of_desk rfl
    generalize ({ s with pointerX := sx, pointerY := sy } : State) = t at hp ⊢
    unfold routeMove
    split
    · split
      · exact hp.of_desk (desk_setWin_self rfl)
      · exact hp.grab rfl rfl rfl (.inl rfl) hp.sound.resize
    · split
      · split
        · exact hp.of_desk (desk_resizeWindowTo t _ _ _ alloc)
        · exact hp.grab rfl rfl rfl hp.sound.drag (.inl rfl)
      · split
        · split
          · exact hp.of_desk (desk_setWin_self (card_post _ _ _))
          · exact hp
        · exact hp

/-- The topmost of the windows that are left when some go. -/
def heir (s : State) (gone : Window → Bool) : Option (Fin maxWindows) :=
  pick s.wins (fun w => w.inUse && !gone w) fun o b => b.z ≤ o.z

/-- The keyboard may go to the topmost of the windows that are left. -/
def HeirShows (s : State) (gone : Window → Bool) : Prop := ∀ b, s.heir gone = some b → s.desk.Shows b

lemma visible_of_heir {gone : Window → Bool} (hheir : s.HeirShows gone)
    (hgone : ∀ j, gone (s.wins j) = false → (s.wins j).inUse = true → t.wins j = s.wins j)
    (hleft : ∀ j, (t.wins j).inUse = ((s.wins j).inUse && !gone (s.wins j))) (hz : ∀ j, (t.wins j).z = (s.wins j).z) :
    t.refocus.desk.Visible := by
  have hpick : pick t.wins (fun w => w.inUse) (fun o b => b.z ≤ o.z) = s.heir gone :=
    pick_congr hleft fun i j => by rw [hz,hz]
  unfold Desk.Visible
  change t.topmostId = -1 ∨ ∃ i : Fin maxWindows, t.topmostId = i.val ∧ _
  rw [topmostId,hpick]
  cases hb : s.heir gone with
  | none => exact .inl rfl
  | some b =>
    have hs := hheir b hb
    have he := eligible_of_pick hb
    simp only [Bool.and_eq_true,Bool.not_eq_true'] at he
    have hsame := hgone b he.2 he.1
    refine .inr ⟨b,rfl,?_,?_,?_⟩
    · exact (congrArg Window.inUse hsame).trans hs.inUse
    · exact (congrArg Window.minimized hsame).trans hs.shown
    · exact (congrArg (fun w => w.flags &&& flagPinToBottom != 0) hsame).trans hs.free

lemma sound_close (h : s.desk.Sound) (i : Fin maxWindows) : ((s.close i).undrag i.val).desk.Sound := by
  have hdesk : (s.close i).desk = s.desk.put i _ := desk_setWin s i { s.wins i with pixels := none, inUse := false }
  have hclose := h.close (i := i) (c := { s.wins i with pixels := none, inUse := false }.card) rfl
  rw [← hdesk] at hclose
  exact hclose

lemma Held.destroyWindow {pid : UInt64} (h : s.Held)
    (hheir : ∀ i, s.winOwnedBy id pid = some i → s.focusId = id → s.HeirShows fun w => w.id == id) :
    (s.destroyWindow pid id).2.Held := by
  unfold State.destroyWindow
  cases hi : s.winOwnedBy id pid with
  | none => exact h
  | some i =>
    obtain ⟨hid,hu⟩ := winById_some.mp (Option.filter_eq_some_iff.mp hi).1
    subst hid
    have hsound := sound_close h.sound i
    dsimp only
    split
    · next hf =>
      refine ⟨hsound.refocus _,?_⟩
      have hids (j : Fin maxWindows) (hj : (s.wins j).inUse = true) : ((s.wins j).id == i.val) = decide (j = i) := by
        rw [show (s.wins j).id = j.val from h.sound.id j hj,Bool.eq_iff_iff,beq_iff_eq,decide_eq_true_iff,Fin.ext_iff,
          Int.natCast_inj]
      have hother (j : Fin maxWindows) (hj : j ≠ i) : (s.close i).wins j = s.wins j := update_of_ne hj _ _
      have hself : (s.close i).wins i = { s.wins i with pixels := none, inUse := false } := update_self ..
      refine visible_of_heir (t := (s.close i).undrag i.val) (hheir i hi hf) (fun j hg hj => ?_) (fun j => ?_) fun j => ?_
      · rw [hids j hj,decide_eq_false_iff_not] at hg
        exact hother j hg
      · change ((s.close i).wins j).inUse = _
        by_cases hij : j = i
        · subst hij
          rw [hself,hids j hu,decide_eq_true rfl,Bool.not_true,Bool.and_false]
        · rw [hother j hij]
          cases hj : (s.wins j).inUse with
          | false => rfl
          | true => rw [hids j hj,decide_eq_false hij,Bool.not_false,Bool.and_true]
      · change ((s.close i).wins j).z = _
        by_cases hij : j = i
        · subst hij
          rw [hself]
        · rw [hother j hij]
    · next hf =>
      refine ⟨hsound,?_⟩
      have hclose : (s.close i).desk = s.desk.put i _ := desk_setWin s i { s.wins i with pixels := none, inUse := false }
      have hvis : (s.close i).desk.Visible := by
        rw [hclose]
        exact h.visible.put hf
      exact hvis.congr rfl rfl

/-! A process ends. -/

def owned (pid : UInt64) (w : Window) : Bool := w.inUse && w.ownerPid == pid

def Closed (w : Window) : Window := { w with pixels := none, inUse := false }

lemma destroyOwned_wins (pid : UInt64) (s : State) (i j : Fin maxWindows) : (destroyOwned pid s i).wins j =
    if j = i ∧ owned pid (s.wins j) = true then Closed (s.wins j) else s.wins j := by
  unfold destroyOwned
  split
  · next ho =>
    change update s.wins i _ j = _
    by_cases hij : j = i
    · subst hij
      rw [update_self,if_pos ⟨rfl,ho⟩]
      rfl
    · rw [update_of_ne hij,if_neg fun h => hij h.1]
  · next ho =>
    rw [if_neg]
    rintro ⟨rfl,h⟩
    exact ho h

lemma destroyed_spec (pid : UInt64) (l : List (Fin maxWindows)) (s : State) :
    (∀ j, (l.foldl (destroyOwned pid) s).wins j =
      if j ∈ l ∧ owned pid (s.wins j) = true then Closed (s.wins j) else s.wins j) ∧
    (l.foldl (destroyOwned pid) s).focusId = s.focusId ∧
    (s.desk.Sound → (l.foldl (destroyOwned pid) s).desk.Sound) := by
  induction l generalizing s with
  | nil => exact ⟨fun j => (if_neg fun h => (by cases h.1)).symm,rfl,id⟩
  | cons i l ih =>
    obtain ⟨hwins,hfocus,hsound⟩ := ih (destroyOwned pid s i)
    refine ⟨fun j => ?_,hfocus.trans ?_,fun h => hsound ?_⟩
    · rw [List.foldl_cons,hwins j,destroyOwned_wins pid s i j]
      have hclosed : owned pid (Closed (s.wins j)) = false := rfl
      by_cases hij : j = i ∧ owned pid (s.wins j) = true
      · rw [if_pos hij,if_neg fun h => Bool.false_ne_true (hclosed.symm.trans h.2),
          if_pos ⟨hij.1 ▸ List.mem_cons_self,hij.2⟩]
      · rw [if_neg hij]
        refine if_congr ⟨fun h => ⟨List.mem_cons_of_mem _ h.1,h.2⟩,fun h => ⟨?_,h.2⟩⟩ rfl rfl
        exact (List.mem_cons.mp h.1).resolve_left fun he => hij ⟨he,h.2⟩
    · unfold destroyOwned
      split <;> rfl
    · unfold destroyOwned
      split
      · exact sound_close h i
      · exact h

lemma Held.destroyOwner {pid : UInt64} (h : s.Held) (hheir : ∀ i, s.winById s.focusId = some i →
    (s.wins i).ownerPid = pid → s.HeirShows fun w => w.ownerPid == pid) : (s.destroyOwner pid).Held := by
  obtain ⟨hwins,hfocus,hsound⟩ := destroyed_spec pid (List.finRange maxWindows) s
  replace hsound := hsound h.sound
  have hleft (j : Fin maxWindows) (hj : owned pid (s.wins j) = false) : (s.destroyAll pid).wins j = s.wins j := by
    refine (hwins j).trans (if_neg ?_)
    rw [hj]
    exact fun hc => Bool.false_ne_true hc.2
  have hgone (j : Fin maxWindows) (hj : owned pid (s.wins j) = true) :
      (s.destroyAll pid).wins j = Closed (s.wins j) := (hwins j).trans (if_pos ⟨List.mem_finRange j,hj⟩)
  change (s.destroyAll pid).desk.Sound at hsound
  change (s.destroyAll pid).focusId = s.focusId at hfocus
  -- the window with the focus is still there
  have hstays (hs : ∀ j : Fin maxWindows, s.focusId = j.val → owned pid (s.wins j) = false) :
      (s.destroyAll pid).Held := by
    refine ⟨hsound,?_⟩
    rcases h.visible with hv | ⟨j,hj,hshow⟩
    · exact .inl (hfocus.trans hv)
    · have hsame := hleft j (hs j hj)
      refine .inr ⟨j,hfocus.trans hj,?_,?_,?_⟩
      · exact (congrArg Window.inUse hsame).trans hshow.inUse
      · exact (congrArg Window.minimized hsame).trans hshow.shown
      · exact (congrArg (fun w => w.flags &&& flagPinToBottom != 0) hsame).trans hshow.free
  unfold State.destroyOwner
  dsimp only
  generalize s.destroyAll pid = t at *
  split
  · next hany =>
    refine hstays fun j _ => ?_
    have hall : ∀ j : Fin maxWindows, owned pid (s.wins j) = false := by simpa [owned] using hany
    exact hall j
  · split
    · next hlost =>
      rcases h.visible with hv | ⟨i,hi,hshow⟩
      · simp only [Bool.and_eq_true,decide_eq_true_eq] at hlost
        have h0 := hlost.1
        rw [hfocus] at h0
        exact absurd (h0.trans_eq hv) (by decide)
      · have hown : owned pid (s.wins i) = true := by
          by_contra hno
          have hsame := hleft i (Bool.eq_false_iff.mpr hno)
          have hfound : t.winById t.focusId = some i :=
            winById_some.mpr ⟨hfocus.trans hi,(congrArg Window.inUse hsame).trans hshow.inUse⟩
          rw [hfound] at hlost
          simp at hlost
        have hpid : (s.wins i).ownerPid = pid := by
          unfold owned at hown
          simpa using (Bool.and_eq_true_iff.mp hown).2
        refine ⟨hsound.refocus _,visible_of_heir (hheir i (winById_some.mpr ⟨hi,hshow.inUse⟩) hpid) ?_ ?_ ?_⟩
        · intro j hg _
          exact hleft j (by rw [owned,hg,Bool.and_false])
        · intro j
          by_cases hj : owned pid (s.wins j) = true
          · rw [hgone j hj]
            unfold owned at hj
            rw [(Bool.and_eq_true_iff.mp hj).2,Bool.not_true,Bool.and_false]
            rfl
          · rw [hleft j (Bool.eq_false_iff.mpr hj)]
            unfold owned at hj
            cases hu : (s.wins j).inUse with
            | false => rfl
            | true =>
              rw [hu,Bool.true_and] at hj
              rw [Bool.eq_false_iff.mpr hj]
              rfl
        · intro j
          by_cases hj : owned pid (s.wins j) = true
          · rw [hgone j hj]
            rfl
          · rw [hleft j (Bool.eq_false_iff.mpr hj)]
    · next hkeeps =>
      refine hstays fun j hj => ?_
      by_contra hown
      have hown := (Bool.not_eq_false _).mp hown
      refine hkeeps ?_
      have hnone : t.winById t.focusId = none := by
        cases hw : t.winById t.focusId with
        | none => rfl
        | some k =>
          obtain ⟨hk,hku⟩ := winById_some.mp hw
          obtain rfl : j = k := by
            have : (j.val : ℤ) = k.val := by rw [← hj,← hfocus,hk]
            exact Fin.ext (Int.natCast_inj.mp this)
          rw [hgone j hown] at hku
          cases hku
      rw [hnone,hfocus,hj]
      simp

lemma free_of_freeSlot (h : s.freeSlot = some i) : (s.wins i).inUse = false := by
  have := List.find?_some h
  simpa using this

lemma Held.focusId_ne (h : s.Held) (hi : (s.wins i).inUse = false) : s.focusId ≠ i.val := fun he => by
  rcases h.visible with hv | ⟨j,hj,hs⟩
  · have : (i.val : ℤ) = -1 := he.symm.trans hv
    omega
  · obtain rfl : j = i := Fin.ext (Int.natCast_inj.mp (hj.symm.trans he))
    exact Bool.false_ne_true (hi.symm.trans hs.inUse)

lemma Names_ne (hn : s.desk.Names id) (hi : (s.wins i).inUse = false) : id ≠ i.val := fun he => by
  rcases hn with hn | ⟨j,hj,hu⟩
  · omega
  · obtain rfl : j = i := Fin.ext (Int.natCast_inj.mp (hj.symm.trans he))
    exact Bool.false_ne_true (hi.symm.trans hu)

/-- A record that holds what the request and the counters say, and nothing else. -/
def opened (q : Request) (i : Fin maxWindows) (nextZ : ℕ) (cascade : UInt32)
    (slots : Fin eventQueueCap → GuiEvent) : Window where
  inUse := true
  id := i.val
  ownerPid := q.pid
  z := UInt32.ofNat (nextZ + 1)
  flags := q.flags
  minimized := false
  x := (q.place cascade).1
  y := (q.place cascade).2
  w := q.w
  h := q.h
  pixels := some fun _ _ => blank
  title := q.title.getD []
  events := ⟨slots,0,0⟩
  inputPassthrough := false
  generated := []
  polled := []

/-- A window that was created in a state has nothing of an earlier one; what the ring held is behind its indices. -/
structure Fresh (s : State) (q : Request) (t : State) (i : Fin maxWindows) : Prop where
  record : ∃ slots, t.wins i = State.opened q i s.nextZ s.nextCascade slots
  drag : t.dragId ≠ i.val
  resize : t.resizeId ≠ i.val

lemma releaseKeys_wins (o : Option (Fin maxWindows)) (ho : o ≠ some i) (l : List (Fin keyCount)) (s : State) :
    (l.foldl (releaseKey o) s).wins i = s.wins i := by
  induction l generalizing s with
  | nil => rfl
  | cons k l ih =>
    refine (ih (releaseKey o s k)).trans ?_
    unfold releaseKey
    split
    · cases o with
      | none => rfl
      | some j => exact update_of_ne (fun he => ho (congrArg some he.symm)) _ _
    · rfl

lemma setFocus_wins (n : ℤ) (h : s.focusId ≠ i.val) : (s.setFocus n).wins i = s.wins i := by
  have hw : s.winById s.focusId ≠ some i := fun hi => h (winById_some.mp hi).1
  have hrel : (s.synthesizeReleasesTo (s.winById s.focusId)).wins i = s.wins i := by
    unfold synthesizeReleasesTo
    exact releaseKeys_wins _ hw _ s
  unfold setFocus
  split
  · rfl
  · dsimp only
    split
    · exact hrel
    · rfl

lemma flags_of_mask {f : UInt32} (h : (f &&& (flagAlwaysOnTop ||| flagPinToBottom) != 0) = false) :
    (f &&& flagPinToBottom != 0) = false := by
  have hz : f &&& (flagAlwaysOnTop ||| flagPinToBottom) = 0 := by simpa using h
  have hmask : flagPinToBottom = (flagAlwaysOnTop ||| flagPinToBottom) &&& flagPinToBottom := by decide
  rw [hmask,← UInt32.and_assoc,hz,UInt32.zero_and]
  rfl

lemma Held.createWindowEx (h : s.Held) (q : Request) (alloc : Bool) : (s.createWindowEx q alloc).2.Held ∧
    ∀ i : Fin maxWindows, (s.createWindowEx q alloc).1 = i.val →
      (q.valid = true → alloc = true → ∀ i, s.freeSlot = some i → (s.wins i).inputPassthrough = false) →
      s.Fresh q (s.createWindowEx q alloc).2 i := by
  unfold State.createWindowEx
  have herror (e : ℤ) (he : 0 < e) (i : Fin maxWindows) : -e ≠ i.val := by omega
  split
  · exact ⟨h,fun i hi => absurd hi (herror _ (by decide) i)⟩
  · next hvalid =>
    cases hfree : s.freeSlot with
    | none => exact ⟨h,fun i hi => absurd hi (herror _ (by decide) i)⟩
    | some i =>
      dsimp only
      split
      · exact ⟨h,fun i hi => absurd hi (herror _ (by decide) i)⟩
      · next halloc =>
        have hi := free_of_freeSlot hfree
        have hfocus := h.focusId_ne hi
        have hplain : (q.valid = true → alloc = true → ∀ i, s.freeSlot = some i → (s.wins i).inputPassthrough = false) →
            (s.wins i).inputPassthrough = false := fun hp => hp (by simpa using hvalid) (by simpa using halloc) i hfree
        rw [hfree] at hplain
        generalize hw : enter (s.wins i) q i (UInt32.ofNat (s.nextZ + 1)) s.nextCascade = w
        generalize (if 0 ≤ q.wantX && 0 ≤ q.wantY then s.nextCascade else s.nextCascade + 1) = cascade
        have hsound : ({ s.setWin i w with nextZ := s.nextZ + 1, nextCascade := cascade } : State).desk.Sound := by
          have hdesk : ({ s.setWin i w with nextZ := s.nextZ + 1, nextCascade := cascade } : State).desk =
              { s.desk.put i w.card with nextZ := s.nextZ + 1 } :=
            congrArg (fun d : Desk => { d with nextZ := s.nextZ + 1 }) (desk_setWin s i w)
          rw [hdesk]
          subst hw
          exact h.sound.stack rfl rfl rfl
        have hrecord : ({ s.setWin i w with nextZ := s.nextZ + 1, nextCascade := cascade } : State).wins i = w :=
          update_self ..
        have hopened (hp : (s.wins i).inputPassthrough = false) :
            ∃ slots, w = opened q i s.nextZ s.nextCascade slots := by
          refine ⟨(s.wins i).events.slots,?_⟩
          rw [← hw,enter,hp]
          rfl
        have hvisible : ({ s.setWin i w with nextZ := s.nextZ + 1, nextCascade := cascade } : State).desk.Visible := by
          have hput := h.visible.put (c := w.card) hfocus
          rw [← desk_setWin] at hput
          exact hput.congr rfl rfl
        have hdrag : s.dragId ≠ i.val := Names_ne h.sound.drag hi
        have hresize : s.resizeId ≠ i.val := Names_ne h.sound.resize hi
        generalize ht : ({ s.setWin i w with nextZ := s.nextZ + 1, nextCascade := cascade } : State) = t at *
        have htfocus : t.focusId = s.focusId := by rw [← ht]; rfl
        have htdrag : t.dragId = s.dragId ∧ t.resizeId = s.resizeId := by rw [← ht]; exact ⟨rfl,rfl⟩
        split
        · refine ⟨⟨hsound,hvisible⟩,fun j hj hp => ?_⟩
          obtain rfl : i = j := Fin.ext (Int.natCast_inj.mp hj)
          exact ⟨hrecord ▸ hopened (hplain hp),htdrag.1 ▸ hdrag,htdrag.2 ▸ hresize⟩
        · next hpin =>
          have hshows : t.desk.Shows i := by
            refine ⟨?_,?_,?_⟩
            · change (t.wins i).inUse = true
              rw [hrecord,← hw]
              rfl
            · change (t.wins i).minimized = false
              rw [hrecord,← hw]
              rfl
            · change ((t.wins i).flags &&& flagPinToBottom != 0) = false
              rw [hrecord,← hw]
              exact flags_of_mask (Bool.eq_false_iff.mpr hpin)
          have hid : (t.wins i).id = i.val := hsound.id i hshows.inUse
          have hfocused := Held.focusOn hsound hshows
          rw [hid] at hfocused
          refine ⟨hfocused,fun j hj hp => ?_⟩
          obtain rfl : i = j := Fin.ext (Int.natCast_inj.mp hj)
          have hsame : (t.setFocus i.val).wins i = w :=
            (setFocus_wins _ (by rw [htfocus]; exact hfocus)).trans hrecord
          have hdesk := desk_setFocus t i.val
          exact ⟨hsame ▸ hopened (hplain hp),fun he => hdrag (htdrag.1 ▸ (congrArg Desk.dragId hdesk).symm.trans he),
            fun he => hresize (htdrag.2 ▸ (congrArg Desk.resizeId hdesk).symm.trans he)⟩

/-- The call does not hand the focus to a window that is hidden or pinned, and a new window gets a record whose
`input_passthrough` is clear. -/
def Apt (s : State) : Call → Prop
  | .createWindowEx q alloc =>
    q.valid = true → alloc = true → ∀ i, s.freeSlot = some i → (s.wins i).inputPassthrough = false
  | .raiseWindow id => ∀ i, s.winById id = some i → (s.wins i).has flagPinToBottom = false
  | .destroyWindow pid id => ∀ i, s.winOwnedBy id pid = some i → s.focusId = id → s.HeirShows fun w => w.id == id
  | .destroyOwner pid => ∀ i, s.winById s.focusId = some i → (s.wins i).ownerPid = pid →
    s.HeirShows fun w => w.ownerPid == pid
  | _ => True

lemma Held.call (h : s.Held) {c : Call} (hc : s.Apt c) : (s.call c).2.Held := by
  cases c with
  | createWindowEx q alloc => exact (h.createWindowEx q alloc).1
  | destroyWindow pid id => exact h.destroyWindow hc
  | destroyOwner pid => exact h.destroyOwner hc
  | raiseWindow id => exact h.raiseWindow hc
  | setMinimized id on => exact h.setMinimized id on
  | moveWindow id x y =>
    refine h.of_desk ?_
    unfold State.call moveWindow
    dsimp only
    split
    · rfl
    · split
      · rfl
      · exact desk_setWin_self rfl
  | setInputPassthrough id on =>
    refine h.of_desk ?_
    unfold State.call setInputPassthrough
    dsimp only
    split
    · rfl
    · split
      · rfl
      · exact desk_setWin_self rfl
  | pointerMove sx sy alloc => exact h.pointerMove sx sy alloc
  | pointerButton button down => exact h.pointerButton button down
  | keyboardByte c => exact h.of_desk (desk_keyboardByte s c)
  | flushPendingKeys => exact h.of_desk (desk_flushPendingKeys s)
  | keyboardRelease key => exact h.of_desk (desk_keyboardRelease s key)
  | deliverEvent id ev => exact h.of_desk (desk_deliverEvent s id ev)
  | pollEvent pid copied => exact h.of_desk (desk_pollEvent s pid copied)

lemma Start.held (h : s.Start) : s.Held := by
  have hnone (i : Fin maxWindows) : (s.desk.cards i).inUse ≠ true := by
    rw [show (s.desk.cards i).inUse = false from h.unused i]
    exact Bool.false_ne_true
  exact ⟨⟨fun i hi => absurd hi (hnone i),.inl h.dragId,.inl h.resizeId,fun _ =>
    ⟨fun i hi => absurd hi (hnone i),fun i _ hi => absurd hi (hnone i)⟩⟩,.inl h.focusId⟩

/-- How often `g_next_z` was incremented. -/
def raises (s : State) : ℕ := s.nextZ - 1

/-- What the focus and the stacking order promise of a state. -/
structure Lawful (s : State) : Prop where
  distinct : ∀ i j, (s.wins i).inUse = true → (s.wins j).inUse = true → (s.wins i).z = (s.wins j).z → i = j
  drag : s.dragId = -1 ∨ ∃ i : Fin maxWindows, s.dragId = i.val ∧ (s.wins i).inUse = true
  resize : s.resizeId = -1 ∨ ∃ i : Fin maxWindows, s.resizeId = i.val ∧ (s.wins i).inUse = true
  focus : s.focusId = -1 ∨ ∃ i : Fin maxWindows, s.focusId = i.val ∧ (s.wins i).inUse = true ∧
    (s.wins i).minimized = false ∧ (s.wins i).has flagPinToBottom = false

/-- In a run of apt calls every state is lawful, and every window is fresh when it is created. -/
theorem focus_lawful {cs : List Call} (h0 : s.Start) (run : Runs step Apt s cs t) (hz : t.raises < 2^32) :
    t.Lawful ∧ ∀ (q : Request) (alloc : Bool) (i : Fin maxWindows), t.Apt (.createWindowEx q alloc) →
      (t.createWindowEx q alloc).1 = i.val → t.Fresh q (t.createWindowEx q alloc).2 i := by
  have held : t.Held := by
    refine run.invariant (fun u c r v hu hc hstep => ?_) h0.held
    obtain ⟨-,rfl⟩ := Prod.mk.inj (Option.some.inj hstep)
    exact hu.call hc
  have hle : t.nextZ ≤ 2^32 := by
    unfold raises at hz
    omega
  refine ⟨⟨(held.sound.stacked hle).distinct,held.sound.drag,held.sound.resize,?_⟩,fun q alloc i hapt hi =>
    (held.createWindowEx q alloc).2 i hi hapt⟩
  rcases held.visible with hv | ⟨i,hi,hs⟩
  · exact .inl hv
  · exact .inr ⟨i,hi,hs.inUse,hs.shown,hs.free⟩

/-! Runs of the calls. -/

instance (d : Desk) (i : Fin maxWindows) : Decidable (d.Shows i) :=
  decidable_of_iff ((d.cards i).inUse = true ∧ (d.cards i).minimized = false ∧
    ((d.cards i).flags &&& flagPinToBottom != 0) = false) ⟨fun h => ⟨h.1,h.2.1,h.2.2⟩,fun h => ⟨h.inUse,h.shown,h.free⟩⟩

instance (s : State) (gone : Window → Bool) : Decidable (s.HeirShows gone) :=
  inferInstanceAs (Decidable (∀ b, s.heir gone = some b → s.desk.Shows b))

instance (s : State) : (c : Call) → Decidable (s.Apt c)
  | .createWindowEx q alloc => inferInstanceAs (Decidable (q.valid = true → alloc = true → ∀ i, s.freeSlot = some i →
      (s.wins i).inputPassthrough = false))
  | .raiseWindow id => inferInstanceAs (Decidable (∀ i, s.winById id = some i → (s.wins i).has flagPinToBottom = false))
  | .destroyWindow pid id => inferInstanceAs (Decidable (∀ i, s.winOwnedBy id pid = some i → s.focusId = id →
      s.HeirShows fun w => w.id == id))
  | .destroyOwner pid => inferInstanceAs (Decidable (∀ i, s.winById s.focusId = some i → (s.wins i).ownerPid = pid →
      s.HeirShows fun w => w.ownerPid == pid))
  | .setMinimized _ _ | .moveWindow _ _ _ | .setInputPassthrough _ _ | .pointerMove _ _ _ | .pointerButton _ _
  | .keyboardByte _ | .flushPendingKeys | .keyboardRelease _ | .deliverEvent _ _ | .pollEvent _ _ => .isTrue trivial

def booted : State where
  wins := fun _ => ⟨false,0,0,0,0,false,0,0,0,0,none,[],⟨fun _ => ⟨0,0,0,0,0,0⟩,0,0⟩,false,[],[]⟩
  nextZ := 1
  nextCascade := 0
  focusId := -1
  keysHeld := fun _ => false
  pointerX := -1
  pointerY := -1
  buttons := 0
  dragId := -1
  dragDx := 0
  dragDy := 0
  resizeId := -1
  resizeGripDx := 0
  resizeGripDy := 0
  resizeOriginW := 0
  resizeOriginH := 0
  resizeOriginX := 0
  resizeOriginY := 0
  csiState := 0
  csiParam := 0

lemma booted_start : booted.Start := ⟨fun _ => rfl,fun _ => rfl,rfl,rfl,rfl,rfl,fun _ => rfl⟩

def small (flags : UInt32) : Call := .createWindowEx ⟨1,200,100,none,flags,-1,-1⟩ true

/-- A window is hidden and raised again before the one that had the focus is closed. -/
def closing : List Call := [small 0,small 0,small flagPinToBottom,.setMinimized 0 true,.raiseWindow 0,.destroyWindow 1 1]

lemma apt_of_execute {cs : List Call}
    (h : execute (fun s c => if decide (s.Apt c) = true then s.step c else none) s cs = some t) : Runs step Apt s cs t :=
  Runs.of_guarded (fun _ _ hok => of_decide_eq_true hok) h

theorem focus_lawful_closing : ∃ t, Runs step Apt booted closing t ∧ t.Lawful := by
  have hsome : (execute (fun s c => if decide (s.Apt c) = true then s.step c else none) booted closing).any
      (fun t => decide (t.raises < 2^32)) = true := by decide +kernel
  obtain ⟨t,ht,hz⟩ := (Option.any_eq_true _ _).mp hsome
  have run : Runs step Apt booted closing t := apt_of_execute ht
  exact ⟨t,run,(focus_lawful booted_start run (of_decide_eq_true hz)).1⟩

/-- The focus goes to a hidden window when the one that has it is closed, to the desktop when that is raised, and
a window takes over that the pointer passes through the one before it. -/
theorem focus_unlawful :
    (∃ t, Runs step (fun _ _ => True) booted [small 0,small 0,.setMinimized 0 true,.destroyWindow 1 1] t ∧
      t.raises < 2^32 ∧ ¬ t.Lawful) ∧
    (∃ t, Runs step (fun _ _ => True) booted [small flagPinToBottom,.raiseWindow 0] t ∧ t.raises < 2^32 ∧ ¬ t.Lawful) ∧
    ∃ t, Runs step (fun _ _ => True) booted [small 0,.setInputPassthrough 0 true,.destroyWindow 1 0] t ∧
      t.raises < 2^32 ∧ (t.createWindowEx ⟨1,200,100,none,0,-1,-1⟩ true).1 = 0 ∧
      ¬ t.Fresh ⟨1,200,100,none,0,-1,-1⟩ (t.createWindowEx ⟨1,200,100,none,0,-1,-1⟩ true).2 0 := by
  have hunlawful (t : State) (h : t.focusId = 0 ∧ ((t.wins 0).minimized = true ∨ (t.wins 0).has flagPinToBottom = true)) :
      ¬ t.Lawful := fun hl => by
    rcases hl.focus with hf | ⟨i,hi,-,hm,hp⟩
    · omega
    · obtain rfl : i = 0 := Fin.ext (Int.natCast_inj.mp (hi.symm.trans h.1))
      rcases h.2 with h' | h'
      · exact Bool.false_ne_true (hm.symm.trans h')
      · exact Bool.false_ne_true (hp.symm.trans h')
  have hhidden : (execute step booted [small 0,small 0,.setMinimized 0 true,.destroyWindow 1 1]).any (fun t => decide
      (t.raises < 2^32 ∧ t.focusId = 0 ∧ ((t.wins 0).minimized = true ∨ (t.wins 0).has flagPinToBottom = true))) = true := by
    decide +kernel
  have hpinned : (execute step booted [small flagPinToBottom,.raiseWindow 0]).any (fun t => decide
      (t.raises < 2^32 ∧ t.focusId = 0 ∧ ((t.wins 0).minimized = true ∨ (t.wins 0).has flagPinToBottom = true))) = true := by
    decide
  have hstale : (execute step booted [small 0,.setInputPassthrough 0 true,.destroyWindow 1 0]).any (fun t => decide
      (t.raises < 2^32 ∧ (t.createWindowEx ⟨1,200,100,none,0,-1,-1⟩ true).1 = 0 ∧
        ((t.createWindowEx ⟨1,200,100,none,0,-1,-1⟩ true).2.wins 0).inputPassthrough = true)) = true := by
    decide
  refine ⟨?_,?_,?_⟩
  · obtain ⟨t,ht,h⟩ := (Option.any_eq_true _ _).mp hhidden
    obtain ⟨hz,hbad⟩ := of_decide_eq_true h
    exact ⟨t,.of_execute ht,hz,hunlawful t hbad⟩
  · obtain ⟨t,ht,h⟩ := (Option.any_eq_true _ _).mp hpinned
    obtain ⟨hz,hbad⟩ := of_decide_eq_true h
    exact ⟨t,.of_execute ht,hz,hunlawful t hbad⟩
  · obtain ⟨t,ht,h⟩ := (Option.any_eq_true _ _).mp hstale
    obtain ⟨hz,hid,hbad⟩ := of_decide_eq_true h
    refine ⟨t,.of_execute ht,hz,hid,fun hf => ?_⟩
    obtain ⟨slots,hrec⟩ := hf.record
    have hclear := congrArg Window.inputPassthrough hrec
    exact Bool.false_ne_true (hclear.symm.trans hbad)

end State
end VibeOS.Wm

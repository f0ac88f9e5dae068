import VibeOS.Wm.Windows

/-! The event ring of a window is a queue of at most 63 events. -/
namespace VibeOS.Wm
open Function List Option
namespace GuiEventRing
variable {r : GuiEventRing} {ev : GuiEvent}

def queue (r : GuiEventRing) : List GuiEvent :=
  (List.range (r.head - r.tail).val).map fun k => r.slots (r.tail + Fin.ofNat eventQueueCap k)

lemma length_queue (r : GuiEventRing) : r.queue.length = (r.head - r.tail).val := by
  rw [queue,length_map,length_range]

lemma val_sub (a b : Fin eventQueueCap) : (a - b).val = (64 - b.val + a.val) % 64 := by
  rw [Fin.sub_def]

lemma val_succ (a : Fin eventQueueCap) : (a + 1).val = (a.val + 1) % 64 := by
  rw [Fin.val_add]
  rfl

lemma val_shift (a : Fin eventQueueCap) (k : ℕ) : (a + Fin.ofNat eventQueueCap k).val = (a.val + k % 64) % 64 := by
  rw [Fin.val_add]
  rfl

lemma full_iff : r.head + 1 = r.tail ↔ r.queue.length = 63 := by
  have hh : r.head.val < 64 := r.head.isLt
  have ht : r.tail.val < 64 := r.tail.isLt
  rw [length_queue,val_sub,Fin.ext_iff,val_succ]
  omega

lemma length_lt (r : GuiEventRing) : r.queue.length < eventQueueCap := by
  rw [length_queue]
  exact (r.head - r.tail).isLt

lemma queue_push (h : r.queue.length < 63) (ev : GuiEvent) : (r.push ev).1 = true ∧ (r.push ev).2.queue = r.queue ++ [ev] := by
  have hroom : ¬ r.head + 1 = r.tail := fun he => by
    have := full_iff.mp he
    omega
  have hh : r.head.val < 64 := r.head.isLt
  have ht : r.tail.val < 64 := r.tail.isLt
  rw [length_queue,val_sub] at h
  rw [push,if_neg hroom]
  refine ⟨rfl,?_⟩
  have hlen : (r.head + 1 - r.tail).val = (r.head - r.tail).val + 1 := by
    rw [val_sub,val_sub,val_succ]
    omega
  unfold queue
  dsimp only
  rw [hlen,range_succ,map_append,map_singleton]
  congr 1
  · refine map_congr_left fun k hk => update_of_ne (fun he => ?_) _ _
    rw [mem_range,val_sub] at hk
    rw [Fin.ext_iff,val_shift] at he
    omega
  · have hlast : r.tail + Fin.ofNat eventQueueCap (r.head - r.tail).val = r.head := by
      rw [Fin.ext_iff,val_shift,val_sub]
      omega
    rw [hlast,update_self]

lemma push_full (h : ¬ r.queue.length < 63) (ev : GuiEvent) : r.push ev = (false,r) := by
  have := r.length_lt
  rw [push,if_pos (full_iff.mpr (by unfold eventQueueCap at this; omega))]

lemma pop_queue {r' : GuiEventRing} (h : r.pop = some (ev,r')) : r.queue = ev :: r'.queue := by
  unfold pop at h
  split at h
  · cases h
  · next hne =>
    obtain ⟨rfl,rfl⟩ := Prod.mk.inj (some.inj h)
    have hh : r.head.val < 64 := r.head.isLt
    have ht : r.tail.val < 64 := r.tail.isLt
    rw [Fin.ext_iff] at hne
    have hlen : (r.head - r.tail).val = (r.head - (r.tail + 1)).val + 1 := by
      rw [val_sub,val_sub,val_succ]
      omega
    unfold queue
    dsimp only
    rw [hlen,range_succ_eq_map,map_cons,List.map_map]
    congr 1
    · have hfirst : r.tail + Fin.ofNat eventQueueCap 0 = r.tail := by
        rw [Fin.ext_iff,val_shift]
        omega
      rw [hfirst]
    · refine map_congr_left fun k _ => ?_
      have hnext : r.tail + Fin.ofNat eventQueueCap (k+1) = r.tail + 1 + Fin.ofNat eventQueueCap k := by
        rw [Fin.ext_iff,val_shift,val_shift,val_succ]
        omega
      exact congrArg r.slots hnext

lemma coalesce_queue {matching : GuiEvent → GuiEvent → Bool} {r' : GuiEventRing} (h : coalesce matching r ev = some r') :
    ∃ pre last, r.queue = pre ++ [last] ∧ matching last ev = true ∧
      r'.queue = pre ++ [{ last with arg0 := ev.arg0, arg1 := ev.arg1 }] := by
  unfold coalesce at h
  split at h
  · cases h
  · next hne =>
    dsimp only at h
    split at h
    · next hm =>
      obtain rfl := some.inj h
      have hh : r.head.val < 64 := r.head.isLt
      have ht : r.tail.val < 64 := r.tail.isLt
      rw [Fin.ext_iff] at hne
      obtain ⟨n,hn⟩ : ∃ n, (r.head - r.tail).val = n + 1 := ⟨(r.head - r.tail).val - 1,by rw [val_sub]; omega⟩
      have hlast : r.tail + Fin.ofNat eventQueueCap n = r.head + 63 := by
        have h63 : (r.head + 63).val = (r.head.val + 63) % 64 := by
          rw [Fin.val_add]
          rfl
        rw [val_sub] at hn
        rw [Fin.ext_iff,val_shift,h63]
        omega
      refine ⟨(List.range n).map fun k => r.slots (r.tail + Fin.ofNat eventQueueCap k),r.slots (r.head + 63),?_,hm,?_⟩
      · rw [queue,hn,range_succ,map_append,map_singleton,hlast]
      · unfold queue
        dsimp only
        rw [hn,range_succ,map_append,map_singleton,hlast,update_self]
        congr 1
        refine map_congr_left fun k hk => update_of_ne (fun he => ?_) _ _
        rw [mem_range] at hk
        rw [val_sub] at hn
        rw [← hlast,Fin.ext_iff,val_shift,val_shift] at he
        omega
    · cases h

end GuiEventRing
end VibeOS.Wm

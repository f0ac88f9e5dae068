import VibeOS.Memory.PageTable
import VibeOS.Storage.Ownership
import VibeOS.Runs

/-! Who has the pages of the page cache, over every order of the sections of concurrent calls. -/
namespace VibeOS.Memory
open Function List Option
open VibeOS.Storage

/-- The cache and the frames, what each call of `page_cache_get_or_load` is at, the frames that
others have from pmem, and how often each page was returned and released. -/
structure CacheWorld where
  cache : PageCache
  pmem : Pmem
  calls : ℕ → Call
  others : ℕ → ℕ
  gets : ℕ → ℕ
  releases : ℕ → ℕ

inductive CacheEvent
  /-- a call of `page_cache_get_or_load` begins -/
  | get (n cacheId offset : ℕ)
  /-- a call that has begun goes on, with what its loader returns -/
  | next (n : ℕ) (ok : Bool)
  | release (pa : ℕ)
  /-- others take frames and give them back -/
  | take (k : ℕ)
  | give (k : ℕ)

def Call.victim : Call → Option (Fin pageCacheSlots)
  | .allocating v | .loading v _ | .failed v _ | .abandoning v | .installing v _ => some v
  | _ => none

/-- The frame that a call has and that is not in its slot. -/
def Call.page : Call → ℕ
  | .loading _ pa | .failed _ pa | .installing _ pa => pa
  | _ => 0

namespace CacheWorld
variable (w : CacheWorld)

/-- A call is at `call`, or over with a return value. -/
def after (n : ℕ) (c : PageCache) (m : Pmem) (call : Call) (r : Option ℕ) : CacheWorld :=
  { w with
    cache := c
    pmem := m
    calls := update w.calls n call
    gets := match r with
      | none => w.gets
      | some pa => if pa = 0 then w.gets else update w.gets pa (w.gets pa + 1) }

def step (w : CacheWorld) : CacheEvent → Option (Option ℕ × CacheWorld)
  | .get n cacheId offset =>
    if w.calls n ≠ .idle then none
    else if offset % pageSize ≠ 0 then some (some 0,w)
    else
      let (c,call,r) := w.cache.lookupSection cacheId offset
      some (r,w.after n c w.pmem call r)
  | .next n ok =>
    if w.calls n = .idle then none
    else
      let (c,m,call,r) := (w.calls n).next w.cache w.pmem ok
      some (r,w.after n c m call r)
  | .release pa => some (none,
      { w with cache := w.cache.release pa, releases := update w.releases pa (w.releases pa + 1) })
  | .take k =>
    if w.others k ≠ 0 then none
    else
      let (pa,m) := w.pmem.allocPage
      some (some pa,{ w with pmem := m, others := update w.others k pa })
  | .give k => some (none,{ w with pmem := w.pmem.freePage (w.others k), others := update w.others k 0 })

def initial (m : Pmem) : CacheWorld := ⟨.init,m,fun _ => .idle,fun _ => 0,fun _ => 0,fun _ => 0⟩

end CacheWorld

inductive Keeper
  | slot (i : Fin pageCacheSlots)
  | call (n : ℕ)
  | other (k : ℕ)
  deriving DecidableEq

def CacheWorld.has (w : CacheWorld) : Keeper → ℕ
  | .slot i => if (w.cache.slots i).used then (w.cache.slots i).pa else 0
  | .call n => (w.calls n).page
  | .other k => w.others k

def PageCache.Reserved (c : PageCache) (i : Fin pageCacheSlots) : Prop :=
  (c.slots i).used = true ∧ (c.slots i).pa = 0 ∧ (c.slots i).refcount = 1

/-- What holds of the page cache when no call evicts and none waits for another's load. -/
structure Owned (w : CacheWorld) : Prop where
  nodup : w.pmem.free.Nodup
  free_ne : 0 ∉ w.pmem.free
  owns : Owns 0 (· ∉ w.pmem.free) w.has
  reserved : Owns none (fun v => ∃ i, v = some i ∧ w.cache.Reserved i) fun n => (w.calls n).victim
  keys : ∀ i j, (w.cache.slots i).used = true → (w.cache.slots j).used = true →
    (w.cache.slots i).cacheId = (w.cache.slots j).cacheId → (w.cache.slots i).offset = (w.cache.slots j).offset → i = j
  counted : ∀ i, (w.cache.slots i).used = true → (w.cache.slots i).pa ≠ 0 →
    (w.cache.slots i).refcount + w.releases (w.cache.slots i).pa = w.gets (w.cache.slots i).pa
  fresh : ∀ pa, pa ≠ 0 → (∀ i, (w.cache.slots i).used = true → (w.cache.slots i).pa ≠ pa) →
    w.gets pa = 0 ∧ w.releases pa = 0
  noEviction : ∀ n, (∀ id offset pa, w.calls n ≠ .evicting id offset pa) ∧ ∀ id offset, w.calls n ≠ .evicted id offset

/-- A caller releases what it got and has not released. -/
def Contract (w : CacheWorld) : CacheEvent → Prop
  | .release pa => w.releases pa < w.gets pa
  | _ => True

/-- A call that finds its key finds the page there, and its count has room; one that does not
find it is not about to evict. -/
def Undisturbed (w : CacheWorld) : CacheEvent → Prop
  | .get _ cacheId offset =>
    match w.cache.findSlot cacheId offset with
    | some i => (w.cache.slots i).pa ≠ 0 ∧ (w.cache.slots i).refcount + 1 < 2^32
    | none => ∀ v, w.cache.pickVictim = some v → (w.cache.slots v).used = false
  | _ => True

variable {w w' : CacheWorld} {c : PageCache} {m : Pmem} {call : Call} {r : Option ℕ} {n cacheId offset pa : ℕ}
  {i v : Fin pageCacheSlots}

lemma findSlot_some (h : c.findSlot cacheId offset = some i) :
    (c.slots i).used = true ∧ (c.slots i).cacheId = cacheId ∧ (c.slots i).offset = offset := by
  have hfound := find?_some h
  simpa [and_assoc] using hfound

lemma findSlot_none (h : c.findSlot cacheId offset = none) (i : Fin pageCacheSlots) (hused : (c.slots i).used = true)
    (hid : (c.slots i).cacheId = cacheId) : (c.slots i).offset ≠ offset := by
  have hno := List.find?_eq_none.mp h i (mem_finRange i)
  simpa [hused,hid] using hno

lemma findSlotByPa_some (h : c.findSlotByPa pa = some i) : (c.slots i).used = true ∧ (c.slots i).pa = pa := by
  have hfound := find?_some h
  simpa using hfound

lemma findSlotByPa_none (h : c.findSlotByPa pa = none) (i : Fin pageCacheSlots) (hused : (c.slots i).used = true) :
    (c.slots i).pa ≠ pa := by
  have hno := List.find?_eq_none.mp h i (mem_finRange i)
  simpa [hused] using hno

lemma lookupSection_cases (h : Undisturbed w (.get n cacheId offset)) :
    (∃ i, w.cache.findSlot cacheId offset = some i ∧ (w.cache.slots i).pa ≠ 0 ∧ (w.cache.slots i).refcount + 1 < 2^32 ∧
      w.cache.lookupSection cacheId offset = (w.cache.hit i,.idle,some (w.cache.slots i).pa)) ∨
    w.cache.lookupSection cacheId offset = (w.cache,.idle,some 0) ∨
    ∃ v, w.cache.findSlot cacheId offset = none ∧ (w.cache.slots v).used = false ∧
      w.cache.lookupSection cacheId offset = (w.cache.reserve v cacheId offset,.allocating v,none) := by
  simp only [Undisturbed] at h
  unfold PageCache.lookupSection PageCache.reserveSection
  cases hfind : w.cache.findSlot cacheId offset with
  | some i =>
    rw [hfind] at h
    exact .inl ⟨i,rfl,h.1,h.2,rfl⟩
  | none =>
    rw [hfind] at h
    cases hpick : w.cache.pickVictim with
    | none => exact .inr (.inl rfl)
    | some v =>
      have hunused := h v hpick
      dsimp only
      rw [if_neg (by rw [hunused]; decide)]
      exact .inr (.inr ⟨v,rfl,hunused,rfl⟩)

def PageCache.page (c : PageCache) (i : Fin pageCacheSlots) : ℕ := if (c.slots i).used then (c.slots i).pa else 0

@[simp] lemma setSlot_self (s : Slot) : (c.setSlot i s).slots i = s := update_self _ _ _

lemma setSlot_of_ne {s : Slot} (h : v ≠ i) : (c.setSlot i s).slots v = c.slots v := update_of_ne h _ _

lemma has_after (hpage : ∀ i, c.page i = w.cache.page i) :
    (w.after n c m call r).has = update w.has (.call n) call.page := by
  funext k
  cases k with
  | slot i =>
    rw [update_of_ne (fun h => (by cases h) : Keeper.slot i ≠ .call n)]
    exact hpage i
  | call x =>
    by_cases hx : x = n
    · subst hx
      simp [CacheWorld.has,CacheWorld.after]
    · simp [CacheWorld.has,CacheWorld.after,hx]
  | other k =>
    rw [update_of_ne (fun h => (by cases h) : Keeper.other k ≠ .call n)]
    rfl

lemma victim_after : (fun x => ((w.after n c m call r).calls x).victim) =
    update (fun x => (w.calls x).victim) n call.victim := by
  funext x
  by_cases hx : x = n
  · subst hx
    simp [CacheWorld.after]
  · simp [CacheWorld.after,hx]

lemma Owned.apart (hw : Owned w) (hi : (w.cache.slots i).used = true) (hv : (w.cache.slots v).used = true)
    (hpa : (w.cache.slots i).pa ≠ 0) (heq : (w.cache.slots i).pa = (w.cache.slots v).pa) : i = v := by
  have hhas := hw.owns.inj (.slot i) (.slot v)
  simp only [CacheWorld.has,hi,hv,if_true,Keeper.slot.injEq] at hhas
  exact hhas hpa heq

lemma calls_after_self : (w.after n c m call r).calls n = call := update_self _ _ _

lemma calls_after_of_ne {x : ℕ} (hx : x ≠ n) : (w.after n c m call r).calls x = w.calls x := update_of_ne hx _ _

lemma Owned.noEviction_after (hw : Owned w) (h : (∀ id offset pa, call ≠ .evicting id offset pa) ∧
    ∀ id offset, call ≠ .evicted id offset) (x : ℕ) :
    (∀ id offset pa, (w.after n c m call r).calls x ≠ .evicting id offset pa) ∧
      ∀ id offset, (w.after n c m call r).calls x ≠ .evicted id offset := by
  by_cases hx : x = n
  · subst hx
    rw [calls_after_self]
    exact h
  · rw [calls_after_of_ne hx]
    exact hw.noEviction x

lemma Owned.hit (hw : Owned w) (hidle : w.calls n = .idle) (hused : (w.cache.slots i).used = true)
    (hpa : (w.cache.slots i).pa ≠ 0) (hroom : (w.cache.slots i).refcount + 1 < 2^32) :
    Owned (w.after n (w.cache.hit i) w.pmem .idle (some (w.cache.slots i).pa)) := by
  have hslot (j : Fin pageCacheSlots) (hj : j ≠ i) : (w.cache.hit i).slots j = w.cache.slots j := setSlot_of_ne hj
  have hself : (w.cache.hit i).slots i =
      { w.cache.slots i with refcount := (w.cache.slots i).refcount + 1, lastUsed := tick w.cache.clock } := by
    have htick : tick (w.cache.slots i).refcount = (w.cache.slots i).refcount + 1 := Nat.mod_eq_of_lt hroom
    rw [← htick]
    exact setSlot_self _
  -- only the count and the stamp of one slot change
  have hkey (j : Fin pageCacheSlots) : ((w.cache.hit i).slots j).used = (w.cache.slots j).used ∧
      ((w.cache.hit i).slots j).cacheId = (w.cache.slots j).cacheId ∧
        ((w.cache.hit i).slots j).offset = (w.cache.slots j).offset ∧ ((w.cache.hit i).slots j).pa = (w.cache.slots j).pa := by
    by_cases hj : j = i
    · subst hj
      rw [hself]
      exact ⟨rfl,rfl,rfl,rfl⟩
    · rw [hslot j hj]
      exact ⟨rfl,rfl,rfl,rfl⟩
  have hgets : (w.after n (w.cache.hit i) w.pmem .idle (some (w.cache.slots i).pa)).gets =
      update w.gets (w.cache.slots i).pa (w.gets (w.cache.slots i).pa + 1) := if_neg hpa
  refine ⟨hw.nodup,hw.free_ne,?_,?_,?_,?_,?_,hw.noEviction_after ⟨nofun,nofun⟩⟩
  · have hsame : update w.has (.call n) (Call.page .idle) = w.has :=
      update_eq_self_iff.mpr (by simp [CacheWorld.has,hidle,Call.page])
    rw [has_after (fun j => by rw [PageCache.page,PageCache.page,(hkey j).1,(hkey j).2.2.2]),hsame]
    exact hw.owns
  · have hsame : update (fun x => (w.calls x).victim) n (Call.victim .idle) = fun x => (w.calls x).victim :=
      update_eq_self_iff.mpr (by simp [hidle,Call.victim])
    rw [victim_after,hsame]
    refine hw.reserved.mono ?_
    rintro _ ⟨j,rfl,hj⟩
    have hji : j ≠ i := fun heq => hpa (heq ▸ hj.2.1)
    exact ⟨j,rfl,by rw [PageCache.Reserved]; exact (hslot j hji).symm ▸ hj⟩
  · intro j k hj hk hid hoffset
    exact hw.keys j k ((hkey j).1 ▸ hj) ((hkey k).1 ▸ hk) ((hkey j).2.1 ▸ (hkey k).2.1 ▸ hid)
      ((hkey j).2.2.1 ▸ (hkey k).2.2.1 ▸ hoffset)
  · intro j hj hjpa
    rw [hgets]
    have hcount := hw.counted j ((hkey j).1 ▸ hj) ((hkey j).2.2.2 ▸ hjpa)
    by_cases hji : j = i
    · subst hji
      show ((w.cache.hit j).slots j).refcount + w.releases ((w.cache.hit j).slots j).pa =
        update w.gets (w.cache.slots j).pa _ ((w.cache.hit j).slots j).pa
      rw [hself]
      dsimp only
      rw [update_self]
      omega
    · show ((w.cache.hit i).slots j).refcount + w.releases ((w.cache.hit i).slots j).pa =
        update w.gets (w.cache.slots i).pa _ ((w.cache.hit i).slots j).pa
      rw [hslot j hji,update_of_ne fun heq => hji (hw.apart ((hkey j).1 ▸ hj) hused ((hkey j).2.2.2 ▸ hjpa) heq)]
      exact hcount
  · intro pa hne hnone
    rw [hgets]
    have hother : pa ≠ (w.cache.slots i).pa := by
      rintro rfl
      exact hnone i ((hkey i).1.trans hused) (hkey i).2.2.2
    rw [update_of_ne hother]
    exact hw.fresh pa hne fun j hj => (hkey j).2.2.2 ▸ hnone j ((hkey j).1.trans hj)

lemma Owned.reserve (hw : Owned w) (hidle : w.calls n = .idle) (hunused : (w.cache.slots v).used = false)
    (hfind : w.cache.findSlot cacheId offset = none) :
    Owned (w.after n (w.cache.reserve v cacheId offset) w.pmem (.allocating v) none) := by
  have hslot (j : Fin pageCacheSlots) (hj : j ≠ v) : (w.cache.reserve v cacheId offset).slots j = w.cache.slots j :=
    setSlot_of_ne hj
  have hself : (w.cache.reserve v cacheId offset).slots v = ⟨true,cacheId,offset,0,1,tick w.cache.clock⟩ := setSlot_self _
  have hused (j : Fin pageCacheSlots) (hj : j ≠ v) (h : ((w.cache.reserve v cacheId offset).slots j).used = true) :
      (w.cache.slots j).used = true := hslot j hj ▸ h
  refine ⟨hw.nodup,hw.free_ne,?_,?_,?_,?_,?_,hw.noEviction_after ⟨nofun,nofun⟩⟩
  · have hsame : update w.has (.call n) (Call.page (.allocating v)) = w.has :=
      update_eq_self_iff.mpr (by simp [CacheWorld.has,hidle,Call.page])
    rw [has_after fun j => ?_, hsame]
    · exact hw.owns
    · unfold PageCache.page
      by_cases hj : j = v
      · subst hj
        rw [hself,hunused]
        rfl
      · rw [hslot j hj]
  · rw [victim_after]
    refine hw.reserved.acquire n (b := some v) ?_ ?_
    · rintro ⟨j,hj,hreserved⟩
      obtain rfl := some.inj hj
      exact absurd (hunused.symm.trans hreserved.1) (by decide)
    · rintro _ (⟨j,rfl,hj⟩ | rfl)
      · have hjv : j ≠ v := fun heq => absurd (hunused.symm.trans (heq ▸ hj.1)) (by decide)
        exact ⟨j,rfl,by rw [PageCache.Reserved]; exact (hslot j hjv).symm ▸ hj⟩
      · exact ⟨v,rfl,by rw [PageCache.Reserved]; exact hself.symm ▸ ⟨rfl,rfl,rfl⟩⟩
  · intro j k hj hk hid hoffset
    by_contra hjk
    change ((w.cache.reserve v cacheId offset).slots j).cacheId = ((w.cache.reserve v cacheId offset).slots k).cacheId at hid
    change ((w.cache.reserve v cacheId offset).slots j).offset = ((w.cache.reserve v cacheId offset).slots k).offset at hoffset
    by_cases hjv : j = v
    · subst hjv
      have hkv : k ≠ j := Ne.symm hjk
      rw [hself,hslot k hkv] at hid hoffset
      exact findSlot_none hfind k (hused k hkv hk) hid.symm hoffset.symm
    · by_cases hkv : k = v
      · subst hkv
        rw [hself,hslot j hjv] at hid hoffset
        exact findSlot_none hfind j (hused j hjv hj) hid hoffset
      · rw [hslot j hjv,hslot k hkv] at hid hoffset
        exact hjk (hw.keys j k (hused j hjv hj) (hused k hkv hk) hid hoffset)
  · intro j hj hpa
    change ((w.cache.reserve v cacheId offset).slots j).pa ≠ 0 at hpa
    have hjv : j ≠ v := by
      rintro rfl
      rw [hself] at hpa
      exact hpa rfl
    rw [hslot j hjv] at hpa
    show ((w.cache.reserve v cacheId offset).slots j).refcount + w.releases ((w.cache.reserve v cacheId offset).slots j).pa =
      w.gets ((w.cache.reserve v cacheId offset).slots j).pa
    rw [hslot j hjv]
    exact hw.counted j (hused j hjv hj) hpa
  · intro pa hne hnone
    refine hw.fresh pa hne fun j hj => ?_
    have hjv : j ≠ v := fun heq => absurd (hunused.symm.trans (heq ▸ hj)) (by decide)
    have := hnone j ((congrArg Slot.used (hslot j hjv)).trans hj)
    exact fun heq => this ((congrArg Slot.pa (hslot j hjv)).trans heq)

lemma Owned.same_cache (hw : Owned w) (hnodup : m.free.Nodup) (hne : 0 ∉ m.free)
    (howns : Owns 0 (· ∉ m.free) (update w.has (.call n) call.page)) (hvictim : call.victim = (w.calls n).victim)
    (hcall : (∀ id offset pa, call ≠ .evicting id offset pa) ∧ ∀ id offset, call ≠ .evicted id offset) :
    Owned (w.after n w.cache m call none) := by
  refine ⟨hnodup,hne,?_,?_,hw.keys,hw.counted,hw.fresh,hw.noEviction_after hcall⟩
  · rw [has_after fun _ => rfl]
    exact howns
  · rw [victim_after,hvictim,update_eq_self]
    exact hw.reserved

lemma freePage_free (m : Pmem) (pa : ℕ) : (m.freePage pa).free = m.free ∨ (m.freePage pa).free = pa :: m.free := by
  unfold Pmem.freePage
  split
  · exact .inl rfl
  · exact .inr rfl

lemma Owned.give_back (hw : Owned w) (k : Keeper) :
    (w.pmem.freePage (w.has k)).free.Nodup ∧ 0 ∉ (w.pmem.freePage (w.has k)).free ∧
      Owns 0 (· ∉ (w.pmem.freePage (w.has k)).free) (update w.has k 0) := by
  by_cases hpa : w.has k = 0
  · have hsame : update w.has k 0 = w.has := update_eq_self_iff.mpr hpa.symm
    rw [hpa,hsame]
    exact ⟨hw.nodup,hw.free_ne,hw.owns⟩
  · have hheld := hw.owns.held k hpa
    have hgives (q : Keeper) : update w.has k 0 q = 0 ∨ update w.has k 0 q = w.has q := by
      by_cases hq : q = k
      · exact .inl (hq ▸ update_self _ _ _)
      · exact .inr (update_of_ne hq _ _)
    rcases freePage_free w.pmem (w.has k) with hfree | hfree
    · rw [hfree]
      exact ⟨hw.nodup,hw.free_ne,hw.owns.forget hgives⟩
    · rw [hfree]
      refine ⟨List.nodup_cons.mpr ⟨hheld,hw.nodup⟩,?_,hw.owns.release hgives fun b hb => ?_⟩
      · exact not_mem_cons_of_ne_of_not_mem (Ne.symm hpa) hw.free_ne
      · by_cases heq : b = w.has k
        · refine .inr fun q hq => ?_
          have hqk : q = k := hw.owns.inj q k (by rw [hq,heq]; exact hpa) (hq.trans heq)
          rw [hqk,update_self]
        · exact .inl (not_mem_cons_of_ne_of_not_mem heq hb)

lemma Owned.take_frame (hw : Owned w) {k : Keeper} (hk : w.has k = 0) :
    w.pmem.allocPage.2.free.Nodup ∧ 0 ∉ w.pmem.allocPage.2.free ∧
      Owns 0 (· ∉ w.pmem.allocPage.2.free) (update w.has k w.pmem.allocPage.1) := by
  have hnodup := hw.nodup
  have hne := hw.free_ne
  have howns := hw.owns
  unfold Pmem.allocPage
  cases hfree : w.pmem.free with
  | nil =>
    have hsame : update w.has k 0 = w.has := update_eq_self_iff.mpr hk.symm
    dsimp only
    rw [hfree] at howns ⊢
    rw [hsame]
    exact ⟨.nil,not_mem_nil,howns⟩
  | cons pa rest =>
    rw [hfree] at hnodup hne howns
    obtain ⟨hpa,hnodup⟩ := List.nodup_cons.mp hnodup
    refine ⟨hnodup,fun h0 => hne (mem_cons_of_mem _ h0),howns.acquire k (fun hno => hno mem_cons_self) ?_⟩
    rintro b (hb | rfl)
    · exact fun h => hb (mem_cons_of_mem _ h)
    · exact hpa

lemma Owned.victim_reserved (hw : Owned w) (hv : (w.calls n).victim = some v) : w.cache.Reserved v := by
  obtain ⟨j,hj,hreserved⟩ := hw.reserved.held n (by rw [hv]; exact some_ne_none v)
  rw [hv,some.injEq] at hj
  exact hj ▸ hreserved

lemma Owned.victim_dropped (hw : Owned w) (hv : (w.calls n).victim = some v)
    (hslot : ∀ j, j ≠ v → c.slots j = w.cache.slots j) :
    Owns none (fun o => ∃ j, o = some j ∧ c.Reserved j) (update (fun x => (w.calls x).victim) n none) := by
  refine hw.reserved.release (fun x => ?_) ?_
  · by_cases hx : x = n
    · exact .inl (hx ▸ update_self _ _ _)
    · exact .inr (update_of_ne hx _ _)
  · rintro _ ⟨j,rfl,hj⟩
    by_cases hjv : j = v
    · subst hjv
      refine .inr fun x hx => ?_
      have hxn : x = n := hw.reserved.inj x n (by rw [hx]; exact some_ne_none j) (hx.trans hv.symm)
      rw [hxn,update_self]
    · exact .inl ⟨j,rfl,by rw [PageCache.Reserved]; exact (hslot j hjv).symm ▸ hj⟩

lemma Owned.abandon (hw : Owned w) (hcall : w.calls n = .abandoning v) :
    Owned (w.after n (w.cache.clear v) w.pmem .idle (some 0)) := by
  have hvictim : (w.calls n).victim = some v := by rw [hcall]; rfl
  obtain ⟨-,hpa,-⟩ := hw.victim_reserved hvictim
  have hslot (j : Fin pageCacheSlots) (hj : j ≠ v) : (w.cache.clear v).slots j = w.cache.slots j := setSlot_of_ne hj
  have hself : (w.cache.clear v).slots v = { w.cache.slots v with used := false, refcount := 0 } := setSlot_self _
  have hne (j : Fin pageCacheSlots) (h : ((w.cache.clear v).slots j).used = true) : j ≠ v := by
    rintro rfl
    rw [hself] at h
    exact absurd h Bool.false_ne_true
  have hused (j : Fin pageCacheSlots) (h : ((w.cache.clear v).slots j).used = true) : (w.cache.slots j).used = true :=
    hslot j (hne j h) ▸ h
  refine ⟨hw.nodup,hw.free_ne,?_,?_,?_,?_,?_,hw.noEviction_after ⟨nofun,nofun⟩⟩
  · have hsame : update w.has (.call n) (Call.page .idle) = w.has :=
      update_eq_self_iff.mpr (by simp [CacheWorld.has,hcall,Call.page])
    rw [has_after fun j => ?_, hsame]
    · exact hw.owns
    · unfold PageCache.page
      by_cases hj : j = v
      · subst hj
        simp [hself,hpa]
      · rw [hslot j hj]
  · rw [victim_after]
    exact hw.victim_dropped hvictim hslot
  · intro j k hj hk hid hoffset
    change ((w.cache.clear v).slots j).cacheId = ((w.cache.clear v).slots k).cacheId at hid
    change ((w.cache.clear v).slots j).offset = ((w.cache.clear v).slots k).offset at hoffset
    rw [hslot j (hne j hj),hslot k (hne k hk)] at hid hoffset
    exact hw.keys j k (hused j hj) (hused k hk) hid hoffset
  · intro j hj hjpa
    change ((w.cache.clear v).slots j).pa ≠ 0 at hjpa
    show ((w.cache.clear v).slots j).refcount + w.releases ((w.cache.clear v).slots j).pa =
      w.gets ((w.cache.clear v).slots j).pa
    rw [hslot j (hne j hj)] at hjpa ⊢
    exact hw.counted j (hused j hj) hjpa
  · intro pa hpane hnone
    refine hw.fresh pa hpane fun j hj heq => ?_
    by_cases hjv : j = v
    · subst hjv
      exact hpane (heq.symm.trans hpa)
    · exact hnone j ((congrArg Slot.used (hslot j hjv)).trans hj) ((congrArg Slot.pa (hslot j hjv)).trans heq)

lemma Owned.install (hw : Owned w) (hcall : w.calls n = .installing v pa) :
    Owned (w.after n (w.cache.install v pa) w.pmem .idle (some pa)) := by
  have hvictim : (w.calls n).victim = some v := by rw [hcall]; rfl
  have hhas : w.has (.call n) = pa := by simp [CacheWorld.has,hcall,Call.page]
  obtain ⟨hused,hpa,hcount⟩ := hw.victim_reserved hvictim
  have hslot (j : Fin pageCacheSlots) (hj : j ≠ v) : (w.cache.install v pa).slots j = w.cache.slots j := setSlot_of_ne hj
  have hself : (w.cache.install v pa).slots v = { w.cache.slots v with pa := pa } := setSlot_self _
  have hkey (j : Fin pageCacheSlots) : ((w.cache.install v pa).slots j).used = (w.cache.slots j).used ∧
      ((w.cache.install v pa).slots j).cacheId = (w.cache.slots j).cacheId ∧
        ((w.cache.install v pa).slots j).offset = (w.cache.slots j).offset := by
    by_cases hj : j = v
    · subst hj
      rw [hself]
      exact ⟨rfl,rfl,rfl⟩
    · rw [hslot j hj]
      exact ⟨rfl,rfl,rfl⟩
  -- the page was in no slot before
  have hnew (hne : pa ≠ 0) (j : Fin pageCacheSlots) (hj : (w.cache.slots j).used = true) : (w.cache.slots j).pa ≠ pa := by
    intro heq
    have hkeeper := hw.owns.inj (.slot j) (.call n)
    simp only [CacheWorld.has,hj,if_true,hcall,Call.page] at hkeeper
    exact absurd (hkeeper (heq ▸ hne) heq) nofun
  refine ⟨hw.nodup,hw.free_ne,?_,?_,?_,?_,?_,hw.noEviction_after ⟨nofun,nofun⟩⟩
  · have hmove : (w.after n (w.cache.install v pa) w.pmem .idle (some pa)).has =
        update (update w.has (.call n) 0) (.slot v) (w.has (.call n)) := by
      funext k
      rw [hhas]
      cases k with
      | slot j =>
        show (w.cache.install v pa).page j = _
        unfold PageCache.page
        by_cases hj : j = v
        · subst hj
          rw [hself,update_self]
          exact if_pos hused
        · rw [hslot j hj,update_of_ne fun h => hj (Keeper.slot.inj h),
            update_of_ne (nofun : Keeper.slot j ≠ .call n)]
          rfl
      | call x =>
        rw [update_of_ne (nofun : Keeper.call x ≠ .slot v)]
        by_cases hx : x = n
        · subst hx
          rw [update_self]
          show ((w.after x _ _ _ _).calls x).page = 0
          rw [calls_after_self]
          rfl
        · rw [update_of_ne fun h => hx (Keeper.call.inj h)]
          show ((w.after n _ _ _ _).calls x).page = _
          rw [calls_after_of_ne hx]
          rfl
      | other k =>
        rw [update_of_ne (nofun : Keeper.other k ≠ .slot v),
          update_of_ne (fun h => (by cases h) : Keeper.other k ≠ .call n)]
        rfl
    rw [hmove]
    exact hw.owns.transfer _ _ (by simp [CacheWorld.has,hpa])
  · rw [victim_after]
    exact hw.victim_dropped hvictim hslot
  · intro j k hj hk hid hoffset
    exact hw.keys j k ((hkey j).1 ▸ hj) ((hkey k).1 ▸ hk) ((hkey j).2.1 ▸ (hkey k).2.1 ▸ hid)
      ((hkey j).2.2 ▸ (hkey k).2.2 ▸ hoffset)
  · intro j hj hjpa
    change ((w.cache.install v pa).slots j).pa ≠ 0 at hjpa
    show ((w.cache.install v pa).slots j).refcount + w.releases ((w.cache.install v pa).slots j).pa =
      (if pa = 0 then w.gets else update w.gets pa (w.gets pa + 1)) ((w.cache.install v pa).slots j).pa
    by_cases hjv : j = v
    · subst hjv
      rw [hself] at hjpa ⊢
      obtain ⟨hgets,hreleases⟩ := hw.fresh pa hjpa (hnew hjpa)
      rw [if_neg hjpa,update_self,hgets,hreleases]
      exact hcount
    · rw [hslot j hjv] at hjpa ⊢
      have hjused := (hkey j).1 ▸ hj
      rw [hw.counted j hjused hjpa]
      split
      · rfl
      · next hne => rw [update_of_ne (hnew hne j hjused)]
  · intro qa hne hnone
    have hold (j : Fin pageCacheSlots) (hj : (w.cache.slots j).used = true) : (w.cache.slots j).pa ≠ qa := by
      by_cases hjv : j = v
      · subst hjv
        exact fun heq => hne (heq.symm.trans hpa)
      · exact fun heq => hnone j ((hkey j).1.trans hj) ((congrArg Slot.pa (hslot j hjv)).trans heq)
    have hother : qa ≠ pa := fun heq => hnone v ((hkey v).1.trans hused) ((congrArg Slot.pa hself).trans heq.symm)
    show (if pa = 0 then w.gets else update w.gets pa (w.gets pa + 1)) qa = 0 ∧ w.releases qa = 0
    split
    · exact hw.fresh qa hne hold
    · rw [update_of_ne hother]
      exact hw.fresh qa hne hold

lemma Owned.release (hw : Owned w) (hheld : w.releases pa < w.gets pa) :
    Owned { w with cache := w.cache.release pa, releases := update w.releases pa (w.releases pa + 1) } := by
  by_cases hpa : pa = 0
  · subst hpa
    refine ⟨hw.nodup,hw.free_ne,hw.owns,hw.reserved,hw.keys,fun i hi hne => ?_,fun qa hne hnone => ?_,hw.noEviction⟩
    · change (w.cache.slots i).pa ≠ 0 at hne
      show (w.cache.slots i).refcount + update w.releases 0 _ (w.cache.slots i).pa = w.gets (w.cache.slots i).pa
      rw [update_of_ne hne]
      exact hw.counted i hi hne
    · show _ ∧ update w.releases 0 _ qa = 0
      rw [update_of_ne hne]
      exact hw.fresh qa hne hnone
  -- the page is in a slot, with a count above 0
  obtain ⟨i,hfind⟩ : ∃ i, w.cache.findSlotByPa pa = some i := by
    by_contra hno
    rw [← isSome_iff_exists,not_isSome_iff_eq_none] at hno
    have hfresh := (hw.fresh pa hpa fun i hi => findSlotByPa_none hno i hi).1
    omega
  obtain ⟨hused,rfl⟩ := findSlotByPa_some hfind
  have hcount := hw.counted i hused hpa
  have hrelease : w.cache.release (w.cache.slots i).pa =
      w.cache.setSlot i { w.cache.slots i with refcount := (w.cache.slots i).refcount - 1 } := by
    unfold PageCache.release
    rw [if_neg hpa,hfind]
    exact if_pos (by omega)
  have hslot (j : Fin pageCacheSlots) (hj : j ≠ i) : (w.cache.release (w.cache.slots i).pa).slots j = w.cache.slots j := by
    rw [hrelease]
    exact setSlot_of_ne hj
  have hself : (w.cache.release (w.cache.slots i).pa).slots i =
      { w.cache.slots i with refcount := (w.cache.slots i).refcount - 1 } := by
    rw [hrelease]
    exact setSlot_self _
  have hkey (j : Fin pageCacheSlots) : ((w.cache.release (w.cache.slots i).pa).slots j).used = (w.cache.slots j).used ∧
      ((w.cache.release (w.cache.slots i).pa).slots j).cacheId = (w.cache.slots j).cacheId ∧
        ((w.cache.release (w.cache.slots i).pa).slots j).offset = (w.cache.slots j).offset ∧
          ((w.cache.release (w.cache.slots i).pa).slots j).pa = (w.cache.slots j).pa := by
    by_cases hj : j = i
    · subst hj
      rw [hself]
      exact ⟨rfl,rfl,rfl,rfl⟩
    · rw [hslot j hj]
      exact ⟨rfl,rfl,rfl,rfl⟩
  refine ⟨hw.nodup,hw.free_ne,?_,?_,?_,?_,?_,hw.noEviction⟩
  · refine hw.owns.forget fun k => .inr ?_
    cases k with
    | slot j => simp only [CacheWorld.has,(hkey j).1,(hkey j).2.2.2]
    | call x | other k => rfl
  · refine hw.reserved.mono ?_
    rintro _ ⟨j,rfl,hj⟩
    have hji : j ≠ i := fun heq => hpa (heq ▸ hj.2.1)
    exact ⟨j,rfl,by rw [PageCache.Reserved]; exact (hslot j hji).symm ▸ hj⟩
  · intro j k hj hk hid hoffset
    exact hw.keys j k ((hkey j).1 ▸ hj) ((hkey k).1 ▸ hk) ((hkey j).2.1 ▸ (hkey k).2.1 ▸ hid)
      ((hkey j).2.2.1 ▸ (hkey k).2.2.1 ▸ hoffset)
  · intro j hj hjpa
    show ((w.cache.release (w.cache.slots i).pa).slots j).refcount + update w.releases (w.cache.slots i).pa _
      ((w.cache.release (w.cache.slots i).pa).slots j).pa = w.gets ((w.cache.release (w.cache.slots i).pa).slots j).pa
    by_cases hji : j = i
    · subst hji
      rw [hself]
      dsimp only
      rw [update_self]
      omega
    · rw [hslot j hji,update_of_ne fun heq => hji (hw.apart ((hkey j).1 ▸ hj) hused ((hkey j).2.2.2 ▸ hjpa) heq)]
      exact hw.counted j ((hkey j).1 ▸ hj) ((hkey j).2.2.2 ▸ hjpa)
  · intro qa hne hnone
    have hother : qa ≠ (w.cache.slots i).pa := by
      rintro rfl
      exact hnone i ((hkey i).1.trans hused) (hkey i).2.2.2
    show w.gets qa = 0 ∧ update w.releases (w.cache.slots i).pa _ qa = 0
    rw [update_of_ne hother]
    exact hw.fresh qa hne fun j hj => (hkey j).2.2.2 ▸ hnone j ((hkey j).1.trans hj)

lemma Owned.others (hw : Owned w) (k : ℕ) (hnodup : m.free.Nodup) (hne : 0 ∉ m.free)
    (howns : Owns 0 (· ∉ m.free) (update w.has (.other k) pa)) :
    Owned { w with pmem := m, others := update w.others k pa } := by
  refine ⟨hnodup,hne,?_,hw.reserved,hw.keys,hw.counted,hw.fresh,hw.noEviction⟩
  refine howns.forget fun q => .inr ?_
  cases q with
  | slot i =>
    rw [update_of_ne (nofun : Keeper.slot i ≠ .other k)]
    rfl
  | call n =>
    rw [update_of_ne (nofun : Keeper.call n ≠ .other k)]
    rfl
  | other x =>
    by_cases hx : x = k
    · subst hx
      rw [update_self]
      exact update_self _ _ _
    · rw [update_of_ne fun h => hx (Keeper.other.inj h)]
      exact update_of_ne hx _ _

lemma next_owned (hw : Owned w) (ok : Bool) {c : PageCache} {m : Pmem} {call : Call} {r : Option ℕ}
    (hnext : (w.calls n).next w.cache w.pmem ok = (c,m,call,r)) (hbusy : w.calls n ≠ .idle) : Owned (w.after n c m call r) := by
  have hhas : w.has (.call n) = (w.calls n).page := rfl
  cases hcall : w.calls n with
  | idle => exact absurd hcall hbusy
  | evicting id offset pa => exact absurd hcall ((hw.noEviction n).1 id offset pa)
  | evicted id offset => exact absurd hcall ((hw.noEviction n).2 id offset)
  | allocating v =>
    rw [hcall] at hnext hhas
    obtain ⟨hnodup,hne,howns⟩ := hw.take_frame hhas
    by_cases hpa : w.pmem.allocPage.1 = 0
    · simp only [Call.next,if_pos hpa] at hnext
      cases hnext
      rw [hpa] at howns
      exact hw.same_cache hnodup hne howns (by rw [hcall]; rfl) ⟨nofun,nofun⟩
    · simp only [Call.next,if_neg hpa] at hnext
      cases hnext
      exact hw.same_cache hnodup hne howns (by rw [hcall]; rfl) ⟨nofun,nofun⟩
  | loading v pa =>
    rw [hcall] at hnext hhas
    have hsame : update w.has (.call n) pa = w.has := update_eq_self_iff.mpr hhas.symm
    cases ok <;> cases hnext <;>
      exact hw.same_cache hw.nodup hw.free_ne (hsame.symm ▸ hw.owns) (by rw [hcall]; rfl) ⟨nofun,nofun⟩
  | failed v pa =>
    rw [hcall] at hnext hhas
    cases hnext
    obtain ⟨hnodup,hne,howns⟩ := hw.give_back (.call n)
    rw [hhas] at hnodup hne howns
    exact hw.same_cache hnodup hne howns (by rw [hcall]; rfl) ⟨nofun,nofun⟩
  | abandoning v =>
    rw [hcall] at hnext
    cases hnext
    exact hw.abandon hcall
  | installing v pa =>
    rw [hcall] at hnext
    cases hnext
    exact hw.install hcall

lemma step_owned (hw : Owned w) {ev : CacheEvent} (hcontract : Contract w ev) (hundisturbed : Undisturbed w ev)
    (hstep : w.step ev = some (r,w')) : Owned w' := by
  cases ev with
  | get n id offset =>
    simp only [CacheWorld.step] at hstep
    split at hstep
    · cases hstep
    next hidle =>
      have hidle := not_not.mp hidle
      split at hstep
      · cases hstep
        exact hw
      next haligned =>
        rcases lookupSection_cases hundisturbed with ⟨i,hfind,hpa,hroom,hlookup⟩ | hlookup | ⟨v,hfind,hunused,hlookup⟩
        · rw [hlookup] at hstep
          cases hstep
          exact hw.hit hidle (findSlot_some hfind).1 hpa hroom
        · rw [hlookup] at hstep
          cases hstep
          have hsame : update w.has (.call n) (Call.page .idle) = w.has :=
            update_eq_self_iff.mpr (by simp [CacheWorld.has,hidle,Call.page])
          exact hw.same_cache hw.nodup hw.free_ne (hsame.symm ▸ hw.owns) (by rw [hidle]) ⟨nofun,nofun⟩
        · rw [hlookup] at hstep
          cases hstep
          exact hw.reserve hidle hunused hfind
  | next n ok =>
    simp only [CacheWorld.step] at hstep
    split at hstep
    · cases hstep
    next hbusy =>
      cases hstep
      exact next_owned hw ok rfl hbusy
  | release pa =>
    cases hstep
    exact hw.release hcontract
  | take k =>
    simp only [CacheWorld.step] at hstep
    split at hstep
    · cases hstep
    next hk =>
      cases hstep
      obtain ⟨hnodup,hne,howns⟩ := hw.take_frame (k := .other k) (not_not.mp hk)
      exact hw.others k hnodup hne howns
  | give k =>
    cases hstep
    obtain ⟨hnodup,hne,howns⟩ := hw.give_back (.other k)
    exact hw.others k hnodup hne howns

lemma initial_owned (hnodup : m.free.Nodup) (hne : 0 ∉ m.free) : Owned (.initial m) := by
  have hunused (i : Fin pageCacheSlots) (h : ((CacheWorld.initial m).cache.slots i).used = true) : False :=
    Bool.false_ne_true h
  refine ⟨hnodup,hne,?_,?_,?_,?_,?_,fun _ => ⟨nofun,nofun⟩⟩
  · have hnone (k : Keeper) : (CacheWorld.initial m).has k = 0 := by cases k <;> rfl
    exact ⟨fun k hk => absurd (hnone k) hk,fun k q hk _ => absurd (hnone k) hk⟩
  · exact ⟨fun n hn => absurd rfl hn,fun n x hn _ => absurd rfl hn⟩
  · exact fun i j hi _ _ _ => (hunused i hi).elim
  · exact fun i hi _ => (hunused i hi).elim
  · exact fun _ _ _ => ⟨rfl,rfl⟩

/-- Keys and pages are in one slot each, no page in a slot is free, and a page that was returned
is in a slot that counts the calls which have it. -/
def Consistent (w : CacheWorld) : Prop :=
  (∀ i j, (w.cache.slots i).used = true → (w.cache.slots j).used = true →
    (w.cache.slots i).cacheId = (w.cache.slots j).cacheId → (w.cache.slots i).offset = (w.cache.slots j).offset → i = j) ∧
  (∀ i j, (w.cache.slots i).used = true → (w.cache.slots j).used = true →
    (w.cache.slots i).pa ≠ 0 → (w.cache.slots i).pa = (w.cache.slots j).pa → i = j) ∧
  (∀ i, (w.cache.slots i).used = true → (w.cache.slots i).pa ∉ w.pmem.free) ∧
  ∀ pa, pa ≠ 0 → 0 < w.gets pa → ∃ i, (w.cache.slots i).used = true ∧ (w.cache.slots i).pa = pa ∧
    (w.cache.slots i).refcount + w.releases pa = w.gets pa

lemma Owned.consistent (hw : Owned w) : Consistent w := by
  refine ⟨hw.keys,fun i j hi hj hpa heq => hw.apart hi hj hpa heq,fun i hi => ?_,fun pa hpa hgets => ?_⟩
  · by_cases hpa : (w.cache.slots i).pa = 0
    · exact hpa ▸ hw.free_ne
    · have hhas : w.has (.slot i) = (w.cache.slots i).pa := if_pos hi
      exact hhas ▸ hw.owns.held (.slot i) (hhas ▸ hpa)
  · by_contra hno
    have hfresh := (hw.fresh pa hpa fun i hi heq => hno ⟨i,hi,heq,heq ▸ hw.counted i hi (heq ▸ hpa)⟩).1
    omega

/-- In every run of concurrent calls in which no call waits for another's load, evicts or
overflows a count. -/
theorem page_cache_ownership (m : Pmem) (hnodup : m.free.Nodup) (hne : 0 ∉ m.free) (es : List CacheEvent)
    (h : Runs CacheWorld.step (fun w ev => Contract w ev ∧ Undisturbed w ev) (.initial m) es w) : Consistent w := by
  refine Owned.consistent (h.invariant (I := Owned) ?_ (initial_owned hnodup hne))
  intro w ev r w' hw hok hstep
  exact step_owned hw hok.1 hok.2 hstep

def twoFrames : Pmem := ⟨[4096,8192],fun _ _ => 0,0,3,fun _ => 0⟩

theorem page_cache_ownership_shared : ∃ w, Runs CacheWorld.step (fun w ev => Contract w ev ∧ Undisturbed w ev) (.initial twoFrames)
    [.get 0 1 0,.next 0 true,.next 0 true,.next 0 true,.get 1 1 0,.release 4096] w ∧
      w.gets 4096 = 2 ∧ w.releases 4096 = 1 ∧ Consistent w := by
  have hrun : ∃ w, Runs CacheWorld.step (fun w ev => Contract w ev ∧ Undisturbed w ev) (.initial twoFrames)
      [.get 0 1 0,.next 0 true,.next 0 true,.next 0 true,.get 1 1 0,.release 4096] w ∧ w.gets 4096 = 2 ∧ w.releases 4096 = 1 := by
    refine ⟨_,.cons ⟨trivial,?_⟩ rfl (.cons ⟨trivial,trivial⟩ rfl (.cons ⟨trivial,trivial⟩ rfl (.cons ⟨trivial,trivial⟩ rfl
      (.cons ⟨trivial,?_⟩ rfl (.cons ⟨?_,trivial⟩ rfl (.nil _)))))),rfl,rfl⟩
    · exact fun v hv => by cases hv; rfl
    · exact ⟨by decide,by decide⟩
    · exact (by decide : 0 < 2)
  obtain ⟨w,hrun,hgets,hreleases⟩ := hrun
  exact ⟨w,hrun,hgets,hreleases,page_cache_ownership twoFrames (by decide) (by decide) _ hrun⟩

/-- A call that finds the key of a page which is still being loaded gets nothing, and its share
stays in the count. -/
theorem waiter_leaks_share : ∃ w, Runs CacheWorld.step Contract (.initial twoFrames)
    [.get 0 1 0,.get 1 1 0,.next 0 true,.next 0 true,.next 0 true] w ∧ w.gets 4096 = 1 ∧ ¬ Consistent w := by
  have hrun : ∃ w, Runs CacheWorld.step Contract (.initial twoFrames)
      [.get 0 1 0,.get 1 1 0,.next 0 true,.next 0 true,.next 0 true] w ∧ w.gets 4096 = 1 ∧ w.releases 4096 = 0 ∧
        (w.cache.slots ⟨0,by decide⟩).refcount = 2 ∧ ∀ i, (w.cache.slots i).used = true → i = ⟨0,by decide⟩ :=
    ⟨_,.cons trivial rfl (.cons trivial rfl (.cons trivial rfl (.cons trivial rfl (.cons trivial rfl (.nil _))))),
      rfl,rfl,rfl,by decide⟩
  obtain ⟨w,hrun,hgets,hreleases,hcount,hone⟩ := hrun
  refine ⟨w,hrun,hgets,fun hw => ?_⟩
  obtain ⟨i,hi,-,hrefcount⟩ := hw.2.2.2 4096 (by decide) (by omega)
  rw [hone i hi,hcount,hgets,hreleases] at hrefcount
  exact absurd hrefcount (by decide)

end VibeOS.Memory

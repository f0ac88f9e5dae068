import VibeOS.Srv.Bus
import Mathlib.Data.List.GetD

/-! The handshake of `srv_connect` and `srv_accept`, for any number of clients and services. -/
namespace VibeOS.Srv.Registry
open Function List Option

/-- A thread is inside `srv_connect` with this connection. -/
def Bus.Connecting (b : Bus) (c : ConnRef) : Prop := ∃ th l path a, b.calls th = some (.connect l path c a)

def Bus.Referred (b : Bus) (n : ℕ) : Prop := ∃ c : ConnRef, c.serial = n ∧ (b.Connecting c ∨ ∃ e, b.held e c = true)

/-- What the handshake is to keep. -/
structure Served (b : Bus) : Prop where
  waiting : ∀ th l path c, b.calls th = some (.connect l path c true) →
    c ∈ (b.listeners l).pending ∧ (b.listeners l).inUse = true ∧ cstr (b.listeners l).name = cstr path
  freed : ∀ n < b.serial, b.frees n ≤ 1 ∧ (b.frees n = 1 ↔ ¬ b.Referred n)
  returned : ∀ x ∈ b.returned, x.2 = 0

/-- A client that runs on after it lost its place in the queue, with no open service at the other
end, finds no signal and the listener slot free. -/
def Orderly (b : Bus) (e : Event) : Prop := ∀ th l path c, e = .turn th → b.calls th = some (.connect l path c false) →
  c ∉ (b.listeners l).pending → (b.conn c.ptr).opened .service = false →
    b.sigPending th = false ∧ (b.listeners l).inUse = false

lemma strnEq_cstr {x y : List UInt8} {k : ℕ} : ∀ {i : ℕ}, strnEq x y i k = true → (∃ j, i ≤ j ∧ j < i + k ∧ charAt y j = 0) →
    cstr (x.drop i) = cstr (y.drop i) := by
  have hnil {s : List UInt8} {i : ℕ} (h : charAt s i = 0) : cstr (s.drop i) = [] := by
    unfold cstr
    rcases Nat.lt_or_ge i s.length with hi | hi
    · unfold charAt at h
      rw [drop_eq_getElem_cons hi]
      rw [getD_eq_getElem _ _ hi] at h
      rw [h]
      rfl
    · rw [drop_eq_nil_of_le hi]
      rfl
  have hcons {s : List UInt8} {i : ℕ} (h : charAt s i ≠ 0) : cstr (s.drop i) = charAt s i :: cstr (s.drop (i + 1)) := by
    unfold cstr
    rcases Nat.lt_or_ge i s.length with hi | hi
    · unfold charAt at h ⊢
      rw [drop_eq_getElem_cons hi,getD_eq_getElem _ _ hi,takeWhile_cons_of_pos]
      rw [getD_eq_getElem _ _ hi] at h
      simpa using h
    · exact absurd (getD_eq_default _ _ hi) h
  induction k with
  | zero =>
    intro i _ ⟨j,hij,hj,_⟩
    omega
  | succ k ih =>
    intro i h ⟨j,hij,hj,hz⟩
    unfold strnEq at h
    split_ifs at h with hne hzero
    · have heq : charAt x i = charAt y i := not_not.mp hne
      rw [hnil hzero,hnil (heq ▸ hzero)]
    · have heq : charAt x i = charAt y i := not_not.mp hne
      have hlt : i ≠ j := by
        rintro rfl
        exact hzero (heq.trans hz)
      have hy : charAt y i ≠ 0 := fun hy => hzero (heq.trans hy)
      calc cstr (x.drop i) = charAt x i :: cstr (x.drop (i + 1)) := hcons hzero
        _ = charAt y i :: cstr (y.drop (i + 1)) := by rw [heq,ih h ⟨j,by omega,by omega,hz⟩]
        _ = cstr (y.drop i) := (hcons hy).symm

lemma validName_ends {path : List UInt8} {k : ℕ} : ∀ {i : ℕ}, validName path i k = true →
    ∃ j, i ≤ j ∧ j < i + k ∧ charAt path j = 0 := by
  induction k with
  | zero => intro i h; cases h
  | succ k ih =>
    intro i h
    unfold validName at h
    split_ifs at h with hzero hslash
    · exact ⟨i,le_refl i,by omega,hzero⟩
    · obtain ⟨j,hij,hj,hz⟩ := ih h
      exact ⟨j,by omega,by omega,hz⟩

lemma findListener_some {b : Bus} {path : List UInt8} {l : Fin maxListeners} (hpath : validateSrvPath path = true)
    (h : b.findListener path = some l) : (b.listeners l).inUse = true ∧ cstr (b.listeners l).name = cstr path := by
  have hl := find?_some h
  rw [Bool.and_eq_true] at hl
  refine ⟨hl.1,strnEq_cstr (i := 0) hl.2 ?_⟩
  unfold validateSrvPath at hpath
  split_ifs at hpath
  obtain ⟨j,-,hj,hz⟩ := validName_ends hpath
  exact ⟨j,Nat.zero_le j,by unfold nameMax at *; omega,hz⟩

/-- What holds between two steps, but for a connection that may be about to be freed. -/
structure Tidy (b : Bus) : Prop where
  call : ∀ {c}, b.Connecting c → b.live c.ptr = some c.serial
  handle : ∀ {e c}, b.held e c = true → b.live c.ptr = some c.serial
  alone : ∀ {th th' l l' path path' c a a'}, b.calls th = some (.connect l path c a) →
    b.calls th' = some (.connect l' path' c a') → th = th'
  apart : ∀ {c}, b.Connecting c → b.held .client c = false
  client : ∀ {c}, b.live c.ptr = some c.serial →
    ((b.conn c.ptr).opened .client = true ↔ b.held .client c = true ∨ b.Connecting c)
  service : ∀ {c}, b.live c.ptr = some c.serial → ((b.conn c.ptr).opened .service = true ↔ b.held .service c = true)
  queue : ∀ {l c}, c ∈ (b.listeners l).pending → (b.listeners l).inUse = true ∧ (b.conn c.ptr).opened .service = false ∧
    ∃ th path a, b.calls th = some (.connect l path c a) ∧ cstr (b.listeners l).name = cstr path
  nodup : ∀ l, (b.listeners l).pending.Nodup
  asleep : ∀ {th l path c}, b.calls th = some (.connect l path c true) → c ∈ (b.listeners l).pending
  fresh : ∀ {p n}, b.live p = some n → n < b.serial
  once : ∀ {p q n}, b.live p = some n → b.live q = some n → p = q
  freed : ∀ n < b.serial, (b.frees n = 0 ∧ ∃ p, b.live p = some n) ∨ (b.frees n = 1 ∧ ∀ p, b.live p ≠ some n)
  unborn : ∀ n, b.serial ≤ n → b.frees n = 0
  returned : ∀ x ∈ b.returned, x.2 = 0

def Bus.Open (b : Bus) : Prop := ∀ c : ConnRef, b.live c.ptr = some c.serial →
  (b.conn c.ptr).opened .client = true ∨ (b.conn c.ptr).opened .service = true

variable {b b' : Bus} {th : ℕ} {l : Fin maxListeners} {path : List UInt8} {c : ConnRef} {e : End} {v : Bool}

lemma Tidy.served (hb : Tidy b) (ho : b.Open) : Served b where
  waiting th l path c hc := by
    have hq := hb.asleep hc
    obtain ⟨huse,-,th',path',a',hc',hname⟩ := hb.queue hq
    obtain rfl := hb.alone hc hc'
    have heq := hc.symm.trans hc'
    simp only [some.injEq,Call.connect.injEq] at heq
    refine ⟨hq,huse,?_⟩
    rw [heq.2.1]
    exact hname
  freed n hn := by
    rcases hb.freed n hn with ⟨hf,p,hp⟩ | ⟨hf,hno⟩
    · refine ⟨by omega,fun h => by omega,fun h => absurd ?_ h⟩
      have hlive : b.live (⟨p,n⟩ : ConnRef).ptr = some (⟨p,n⟩ : ConnRef).serial := hp
      rcases ho ⟨p,n⟩ hlive with hcl | hsv
      · rcases (hb.client hlive).mp hcl with hh | hconn
        · exact ⟨_,rfl,.inr ⟨_,hh⟩⟩
        · exact ⟨_,rfl,.inl hconn⟩
      · exact ⟨_,rfl,.inr ⟨_,(hb.service hlive).mp hsv⟩⟩
    · refine ⟨by omega,fun _ => ?_,fun _ => hf⟩
      rintro ⟨c,rfl,hconn | ⟨e,he⟩⟩
      · exact hno _ (hb.call hconn)
      · exact hno _ (hb.handle he)
  returned := hb.returned

/-- The same clients are inside `srv_connect`, some of them awake now. -/
structure Stirred (b b' : Bus) : Prop where
  old : ∀ {th l path c a'}, b'.calls th = some (.connect l path c a') →
    ∃ a, b.calls th = some (.connect l path c a) ∧ (a' = true → a = true)
  new : ∀ {th l path c a}, b.calls th = some (.connect l path c a) → ∃ a', b'.calls th = some (.connect l path c a')

lemma Stirred.connecting (hs : Stirred b b') : b'.Connecting c ↔ b.Connecting c := by
  constructor
  · rintro ⟨th,l,path,a,hc⟩
    obtain ⟨a',hc',-⟩ := hs.old hc
    exact ⟨th,l,path,a',hc'⟩
  · rintro ⟨th,l,path,a,hc⟩
    obtain ⟨a',hc'⟩ := hs.new hc
    exact ⟨th,l,path,a',hc'⟩

lemma Tidy.stir {calls : ℕ → Option Call} (hb : Tidy b) (hs : Stirred b { b with calls := calls }) :
    Tidy { b with calls := calls } where
  call hc := hb.call (hs.connecting.mp hc)
  handle := hb.handle
  alone h h' := by
    obtain ⟨_,h₁,-⟩ := hs.old h
    obtain ⟨_,h₂,-⟩ := hs.old h'
    exact hb.alone h₁ h₂
  apart hc := hb.apart (hs.connecting.mp hc)
  client hl := (hb.client hl).trans (or_congr Iff.rfl hs.connecting.symm)
  service := hb.service
  queue hc := by
    obtain ⟨huse,hop,th,path,a,hcall,hname⟩ := hb.queue hc
    obtain ⟨a',hcall'⟩ := hs.new hcall
    exact ⟨huse,hop,th,path,a',hcall',hname⟩
  nodup := hb.nodup
  asleep h := by
    obtain ⟨a,h₁,ha⟩ := hs.old h
    rw [ha rfl] at h₁
    exact hb.asleep h₁
  fresh := hb.fresh
  once := hb.once
  freed := hb.freed
  unborn := hb.unborn
  returned := hb.returned

lemma stirred_wakeConn (b : Bus) (p : Ptr) : Stirred b (b.wakeConn p) where
  old {th l path c a'} h := by
    unfold Bus.wakeConn at h
    dsimp only at h
    obtain ⟨call,hcall,heq⟩ := Option.map_eq_some_iff.mp h
    cases call with
    | accept l' a => cases heq
    | connect l' path' c' a =>
      dsimp only at heq
      split_ifs at heq
      · cases heq
        exact ⟨_,hcall,nofun⟩
      · cases heq
        exact ⟨_,hcall,id⟩
  new {th l path c a} h := by
    unfold Bus.wakeConn
    dsimp only
    rw [h]
    dsimp only [map_some]
    split_ifs
    · exact ⟨false,rfl⟩
    · exact ⟨a,rfl⟩

lemma stirred_wakeListen (b : Bus) (l : Fin maxListeners) : Stirred b (b.wakeListen l) where
  old {th l₁ path c a'} h := by
    unfold Bus.wakeListen at h
    dsimp only at h
    obtain ⟨call,hcall,heq⟩ := Option.map_eq_some_iff.mp h
    cases call with
    | accept l' a =>
      dsimp only at heq
      split_ifs at heq
    | connect l' path' c' a =>
      cases heq
      exact ⟨_,hcall,id⟩
  new {th l₁ path c a} h := by
    unfold Bus.wakeListen
    dsimp only
    rw [h]
    exact ⟨a,rfl⟩

lemma stirred_setCall {x : Option Call} (hold : ∀ l path c a, b.calls th ≠ some (.connect l path c a))
    (hnew : ∀ l path c a, x ≠ some (.connect l path c a)) : Stirred b (b.setCall th x) where
  old {th' l path c a'} h := by
    unfold Bus.setCall at h
    dsimp only at h
    rw [update_apply] at h
    split_ifs at h with heq
    · exact absurd h (hnew _ _ _ _)
    · exact ⟨a',h,id⟩
  new {th' l path c a} h := by
    have hne : th' ≠ th := by
      rintro rfl
      exact hold _ _ _ _ h
    unfold Bus.setCall
    dsimp only
    rw [update_of_ne hne]
    exact ⟨a,h⟩

variable {a : Bool}

lemma Tidy.doze (hb : Tidy b) (hcall : b.calls th = some (.connect l path c a))
    (hq : c ∈ (b.listeners l).pending) : Tidy (b.setCall th (some (.connect l path c true))) := by
  have hold {th' l' path' c' a'} (h : (b.setCall th (some (.connect l path c true))).calls th' = some (.connect l' path' c' a')) :
      ∃ a₀, b.calls th' = some (.connect l' path' c' a₀) ∧ (a' = true → c' ∈ (b.listeners l').pending) := by
    unfold Bus.setCall at h
    dsimp only at h
    rw [update_apply] at h
    split_ifs at h with heq
    · cases h
      exact ⟨a,heq ▸ hcall,fun _ => hq⟩
    · refine ⟨a',h,fun ha => ?_⟩
      rw [ha] at h
      exact hb.asleep h
  have hnew {th' l' path' c' a'} (h : b.calls th' = some (.connect l' path' c' a')) :
      ∃ a₀, (b.setCall th (some (.connect l path c true))).calls th' = some (.connect l' path' c' a₀) := by
    unfold Bus.setCall
    dsimp only
    rw [update_apply]
    split_ifs with heq
    · rw [heq,hcall] at h
      cases h
      exact ⟨true,rfl⟩
    · exact ⟨a',h⟩
  have hconn {c'} : (b.setCall th (some (.connect l path c true))).Connecting c' ↔ b.Connecting c' := by
    constructor
    · rintro ⟨th',l',path',a',h⟩
      obtain ⟨a₀,h,-⟩ := hold h
      exact ⟨th',l',path',a₀,h⟩
    · rintro ⟨th',l',path',a',h⟩
      obtain ⟨a₀,h⟩ := hnew h
      exact ⟨th',l',path',a₀,h⟩
  refine ⟨fun h => hb.call (hconn.mp h),hb.handle,fun h h' => ?_,fun h => hb.apart (hconn.mp h),
    fun hl => (hb.client hl).trans (or_congr Iff.rfl hconn.symm),hb.service,fun h => ?_,hb.nodup,fun h => ?_,hb.fresh,hb.once,
    hb.freed,hb.unborn,hb.returned⟩
  · obtain ⟨_,h₁,-⟩ := hold h
    obtain ⟨_,h₂,-⟩ := hold h'
    exact hb.alone h₁ h₂
  · obtain ⟨huse,hop,th',path',a',hcall',hname⟩ := hb.queue h
    obtain ⟨a₀,hcall₀⟩ := hnew hcall'
    exact ⟨huse,hop,th',path',a₀,hcall₀,hname⟩
  · obtain ⟨_,-,ha⟩ := hold h
    exact ha rfl

lemma Tidy.relist {ls : SrvListen} (hb : Tidy b) (hsub : ∀ x ∈ ls.pending, x ∈ (b.listeners l).pending)
    (hnodup : ls.pending.Nodup) (hsame : ls.pending ≠ [] → ls.inUse = (b.listeners l).inUse ∧ ls.name = (b.listeners l).name)
    (hawake : ∀ {th path c}, b.calls th = some (.connect l path c true) → c ∈ ls.pending) : Tidy (b.setListen l ls) := by
  have hother {l'} (h : l' ≠ l) : (b.setListen l ls).listeners l' = b.listeners l' := update_of_ne h ..
  have hself : (b.setListen l ls).listeners l = ls := update_self ..
  refine ⟨hb.call,hb.handle,hb.alone,hb.apart,hb.client,hb.service,@fun l' c hc => ?_,fun l' => ?_,@fun th l' path c hc => ?_,
    hb.fresh,hb.once,hb.freed,hb.unborn,hb.returned⟩
  · rcases eq_or_ne l' l with rfl | hne
    · rw [hself] at hc ⊢
      obtain ⟨huse,hname⟩ := hsame (ne_nil_of_mem hc)
      rw [huse,hname]
      exact hb.queue (hsub c hc)
    · rw [hother hne] at hc ⊢
      exact hb.queue hc
  · rcases eq_or_ne l' l with rfl | hne
    · rw [hself]
      exact hnodup
    · rw [hother hne]
      exact hb.nodup l'
  · rcases eq_or_ne l' l with rfl | hne
    · rw [hself]
      exact hawake hc
    · rw [hother hne]
      exact hb.asleep hc

variable {conn : Ptr → SrvConn}

lemma Tidy.reopen {held : End → ConnRef → Bool} (hb : Tidy b) (hlive : b.live c.ptr = some c.serial)
    (hq : ∀ l, c ∉ (b.listeners l).pending) (hclient : e = .client → ¬ b.Connecting c)
    (hconn : (conn c.ptr).opened e = v) (hconn' : ∀ p e', p ≠ c.ptr ∨ e' ≠ e → (conn p).opened e' = (b.conn p).opened e')
    (hheld : held e c = v) (hheld' : ∀ e' c', c' ≠ c ∨ e' ≠ e → held e' c' = b.held e' c') :
    Tidy { b with conn := conn, held := held } := by
  have hptr {c'} (h : b.live c'.ptr = some c'.serial) (hp : c'.ptr = c.ptr) : c' = c := by
    rw [hp] at h
    exact ConnRef.ext hp (some.inj (h.symm.trans hlive))
  have hends {c' e'} (h : b.live c'.ptr = some c'.serial) (hiff : c' ≠ c ∨ e' ≠ e) :
      (conn c'.ptr).opened e' = (b.conn c'.ptr).opened e' ∧ held e' c' = b.held e' c' :=
    ⟨hconn' _ _ (hiff.imp_left fun hne hp => hne (hptr h hp)),hheld' _ _ hiff⟩
  refine ⟨hb.call,@fun e' c' h => ?_,hb.alone,@fun c' h => ?_,@fun c' h => ?_,@fun c' h => ?_,@fun l c' h => ?_,hb.nodup,hb.asleep,
    hb.fresh,hb.once,hb.freed,hb.unborn,hb.returned⟩
  · by_cases hiff : c' ≠ c ∨ e' ≠ e
    · exact hb.handle ((hheld' _ _ hiff).symm.trans h)
    · obtain ⟨rfl,rfl⟩ : c' = c ∧ e' = e := by tauto
      exact hlive
  · by_cases hiff : c' ≠ c ∨ .client ≠ e
    · exact (hheld' _ _ hiff).trans (hb.apart h)
    · obtain ⟨rfl,rfl⟩ : c' = c ∧ .client = e := by tauto
      exact absurd h (hclient rfl)
  · by_cases hiff : c' ≠ c ∨ .client ≠ e
    · dsimp only
      rw [(hends h hiff).1,(hends h hiff).2]
      exact hb.client h
    · obtain ⟨rfl,rfl⟩ : c' = c ∧ .client = e := by tauto
      dsimp only
      rw [hconn,hheld]
      exact ⟨.inl,fun hor => hor.resolve_right (hclient rfl)⟩
  · by_cases hiff : c' ≠ c ∨ .service ≠ e
    · dsimp only
      rw [(hends h hiff).1,(hends h hiff).2]
      exact hb.service h
    · obtain ⟨rfl,rfl⟩ : c' = c ∧ .service = e := by tauto
      dsimp only
      rw [hconn,hheld]
  · obtain ⟨huse,hop,hcall⟩ := hb.queue h
    have hne : c' ≠ c := by
      rintro rfl
      exact hq l h
    obtain ⟨th,path,a,hth,hname⟩ := hcall
    exact ⟨huse,(hends (hb.call ⟨th,l,path,a,hth⟩) (.inl hne)).1.trans hop,th,path,a,hth,hname⟩

lemma Tidy.leave {held : End → ConnRef → Bool} (hb : Tidy b)
    (hcall : b.calls th = some (.connect l path c a)) (hq : ∀ l, c ∉ (b.listeners l).pending)
    (hconn : (conn c.ptr).opened .client = v)
    (hconn' : ∀ p e', p ≠ c.ptr ∨ e' ≠ .client → (conn p).opened e' = (b.conn p).opened e')
    (hheld : held .client c = v) (hheld' : ∀ e' c', c' ≠ c ∨ e' ≠ .client → held e' c' = b.held e' c') :
    Tidy { b with conn := conn, held := held, calls := update b.calls th none } := by
  have hlive := hb.call ⟨th,l,path,a,hcall⟩
  have hptr {c'} (h : b.live c'.ptr = some c'.serial) (hp : c'.ptr = c.ptr) : c' = c := by
    rw [hp] at h
    exact ConnRef.ext hp (some.inj (h.symm.trans hlive))
  have hends {c' e'} (h : b.live c'.ptr = some c'.serial) (hiff : c' ≠ c ∨ e' ≠ .client) :
      (conn c'.ptr).opened e' = (b.conn c'.ptr).opened e' ∧ held e' c' = b.held e' c' :=
    ⟨hconn' _ _ (hiff.imp_left fun hne hp => hne (hptr h hp)),hheld' _ _ hiff⟩
  have hold {th' x} (h : update b.calls th none th' = some x) : th' ≠ th ∧ b.calls th' = some x := by
    rw [update_apply] at h
    split_ifs at h with heq
    exact ⟨heq,h⟩
  have hgo {c'} : ({ b with conn := conn, held := held, calls := update b.calls th none } : Bus).Connecting c' ↔
      b.Connecting c' ∧ c' ≠ c := by
    constructor
    · rintro ⟨th',l',path',a',h⟩
      obtain ⟨hne,h⟩ := hold h
      refine ⟨⟨th',l',path',a',h⟩,?_⟩
      rintro rfl
      exact hne (hb.alone h hcall)
    · rintro ⟨⟨th',l',path',a',h⟩,hne⟩
      refine ⟨th',l',path',a',?_⟩
      dsimp only
      rw [update_of_ne,h]
      rintro rfl
      rw [hcall] at h
      cases h
      exact hne rfl
  refine ⟨fun h => hb.call (hgo.mp h).1,@fun e' c' h => ?_,fun h h' => hb.alone (hold h).2 (hold h').2,@fun c' h => ?_,
    @fun c' h => ?_,@fun c' h => ?_,@fun l' c' h => ?_,hb.nodup,fun h => hb.asleep (hold h).2,hb.fresh,hb.once,hb.freed,hb.unborn,
    hb.returned⟩
  · by_cases hiff : c' ≠ c ∨ e' ≠ .client
    · exact hb.handle ((hheld' _ _ hiff).symm.trans h)
    · obtain ⟨rfl,rfl⟩ : c' = c ∧ e' = .client := by tauto
      exact hlive
  · obtain ⟨hc,hne⟩ := hgo.mp h
    exact (hheld' _ _ (.inl hne)).trans (hb.apart hc)
  · by_cases hc : c' = c
    · subst hc
      dsimp only
      rw [hconn,hheld]
      exact ⟨.inl,fun hor => hor.resolve_right fun hc => (hgo.mp hc).2 rfl⟩
    · dsimp only
      rw [(hends h (.inl hc)).1,(hends h (.inl hc)).2,hb.client h]
      refine or_congr Iff.rfl (Iff.trans ?_ hgo.symm)
      exact ⟨fun h => ⟨h,hc⟩,And.left⟩
  · dsimp only
    have hsame : (conn c'.ptr).opened .service = (b.conn c'.ptr).opened .service ∧ held .service c' = b.held .service c' :=
      hends h (.inr (by decide))
    rw [hsame.1,hsame.2]
    exact hb.service h
  · obtain ⟨huse,hop,th',path',a',hth,hname⟩ := hb.queue h
    have hne : c' ≠ c := by
      rintro rfl
      exact hq l' h
    refine ⟨huse,(hends (hb.call ⟨th',l',path',a',hth⟩) (.inl hne)).1.trans hop,th',path',a',?_,hname⟩
    dsimp only
    rw [update_of_ne,hth]
    rintro rfl
    rw [hcall] at hth
    cases hth
    exact hne rfl

lemma Tidy.kfree (hb : Tidy b) (hlive : b.live c.ptr = some c.serial) (hconn : ¬ b.Connecting c)
    (hheld : ∀ e, b.held e c = false) : Tidy (b.kfree c) := by
  have hpast {c' : ConnRef} (hne : c' ≠ c) (h : b.live c'.ptr = some c'.serial) :
      (b.kfree c).live c'.ptr = some c'.serial := by
    unfold Bus.kfree
    dsimp only
    rw [update_of_ne,h]
    intro hp
    rw [hp] at h
    exact hne (ConnRef.ext hp (some.inj (h.symm.trans hlive)))
  have hback {p n} (h : (b.kfree c).live p = some n) : p ≠ c.ptr ∧ b.live p = some n := by
    unfold Bus.kfree at h
    dsimp only at h
    rw [update_apply] at h
    split_ifs at h with heq
    exact ⟨heq,h⟩
  have hfrees {n} (hne : n ≠ c.serial) : (b.kfree c).frees n = b.frees n := update_of_ne hne ..
  refine ⟨@fun c' h => ?_,@fun e' c' h => ?_,hb.alone,hb.apart,fun h => hb.client (hback h).2,fun h => hb.service (hback h).2,hb.queue,
    hb.nodup,hb.asleep,fun h => hb.fresh (hback h).2,fun h h' => hb.once (hback h).2 (hback h').2,fun n hn => ?_,fun n hn => ?_,
    hb.returned⟩
  · refine hpast ?_ (hb.call h)
    rintro rfl
    exact hconn h
  · refine hpast ?_ (hb.handle h)
    rintro rfl
    rw [show (b.kfree c').held e' c' = b.held e' c' from rfl,hheld] at h
    cases h
  · rcases eq_or_ne n c.serial with rfl | hne
    · have hzero : b.frees c.serial = 0 := by
        rcases hb.freed _ hn with ⟨h,-⟩ | ⟨-,hno⟩
        · exact h
        · exact absurd hlive (hno _)
      refine .inr ⟨?_,fun p hp => ?_⟩
      · unfold Bus.kfree
        dsimp only
        rw [update_self,hzero]
      · obtain ⟨hne,hp⟩ := hback hp
        exact hne (hb.once hp hlive)
    · rw [hfrees hne]
      refine (hb.freed n hn).imp (And.imp_right ?_) (And.imp_right fun hno p hp => hno p (hback hp).2)
      rintro ⟨p,hp⟩
      exact ⟨p,@hpast ⟨p,n⟩ (fun h => hne (congrArg ConnRef.serial h)) hp⟩
  · rw [hfrees]
    · exact hb.unborn n hn
    · rintro rfl
      exact absurd (hb.fresh hlive) (Nat.not_lt.mpr hn)

lemma Tidy.junk {p : Ptr} {x : SrvConn} (hb : Tidy b) (hp : b.live p = none) :
    Tidy { b with conn := update b.conn p x } := by
  have hsame {c : ConnRef} (h : b.live c.ptr = some c.serial) : update b.conn p x c.ptr = b.conn c.ptr := by
    rw [update_of_ne]
    intro heq
    rw [heq,hp] at h
    cases h
  refine ⟨hb.call,hb.handle,hb.alone,hb.apart,@fun c h => ?_,@fun c h => ?_,@fun l c h => ?_,hb.nodup,hb.asleep,hb.fresh,hb.once,
    hb.freed,hb.unborn,hb.returned⟩
  · dsimp only
    rw [hsame h]
    exact hb.client h
  · dsimp only
    rw [hsame h]
    exact hb.service h
  · obtain ⟨huse,hop,th,path,a,hth,hname⟩ := hb.queue h
    refine ⟨huse,?_,th,path,a,hth,hname⟩
    dsimp only
    rw [hsame (hb.call ⟨th,l,path,a,hth⟩)]
    exact hop

lemma Tidy.stillborn {p : Ptr} (hb : Tidy b) (hp : b.live p = none) : Tidy ((b.alloc th p).kfree ⟨p,b.serial⟩) := by
  have hj : Tidy { b with conn := (b.alloc th p).conn } := hb.junk hp
  have hlive : ((b.alloc th p).kfree ⟨p,b.serial⟩).live = b.live := by
    change update (update b.live p (some b.serial)) p none = b.live
    rw [update_idem,← hp,update_eq_self]
  have hfrees {n} (hne : n ≠ b.serial) : ((b.alloc th p).kfree ⟨p,b.serial⟩).frees n = b.frees n :=
    update_of_ne hne ..
  refine ⟨fun h => ?_,fun h => ?_,hj.alone,hj.apart,fun h => ?_,fun h => ?_,hj.queue,hj.nodup,hj.asleep,fun h => ?_,fun h h' => ?_,
    fun n hn => ?_,fun n hn => ?_,hj.returned⟩
  · rw [hlive]
    exact hj.call h
  · rw [hlive]
    exact hj.handle h
  · rw [hlive] at h
    exact hj.client h
  · rw [hlive] at h
    exact hj.service h
  · rw [hlive] at h
    exact Nat.lt_succ_of_lt (hb.fresh h)
  · rw [hlive] at h h'
    exact hb.once h h'
  · rw [hlive]
    rcases eq_or_ne n b.serial with rfl | hne
    · refine .inr ⟨?_,fun p hp => absurd (hb.fresh hp) (Nat.lt_irrefl _)⟩
      change update b.frees b.serial (b.frees b.serial + 1) b.serial = 1
      rw [update_self,hb.unborn _ (Nat.le_refl _)]
    · rw [hfrees hne]
      exact hb.freed n (Nat.lt_of_le_of_ne (Nat.le_of_lt_succ hn) hne)
  · have hn' : b.serial < n := hn
    rw [hfrees (Nat.ne_of_gt hn')]
    exact hb.unborn n (Nat.le_of_lt hn')

lemma Tidy.join {p : Ptr} (hb : Tidy b) (hp : b.live p = none) (hth : b.calls th = none)
    (huse : (b.listeners l).inUse = true) (hname : cstr (b.listeners l).name = cstr path) (k : ℕ) :
    Tidy (((b.alloc th p).setListen l { b.listeners l with
      pending := (b.listeners l).pending ++ [⟨p,b.serial⟩], pendingCount := k }).setCall th
        (some (.connect l path ⟨p,b.serial⟩ true))) := by
  have hj : Tidy { b with conn := (b.alloc th p).conn } := hb.junk hp
  generalize hb' : ((b.alloc th p).setListen l { b.listeners l with
      pending := (b.listeners l).pending ++ [⟨p,b.serial⟩], pendingCount := k }).setCall th
        (some (.connect l path ⟨p,b.serial⟩ true)) = b'
  have hcalls {th' x} : b'.calls th' = some x ↔ th' = th ∧ x = .connect l path ⟨p,b.serial⟩ true ∨ b.calls th' = some x := by
    rw [← hb']
    change update b.calls th _ th' = some x ↔ _
    rw [update_apply]
    split_ifs with heq
    · rw [heq,hth]
      exact ⟨fun h => .inl ⟨rfl,(some.inj h).symm⟩,fun h => h.elim (fun h => congrArg some h.2.symm) nofun⟩
    · exact ⟨.inr,fun h => h.resolve_left fun h => heq h.1⟩
  have hlive {p' n} : b'.live p' = some n ↔ p' = p ∧ n = b.serial ∨ b.live p' = some n := by
    rw [← hb']
    change update b.live p (some b.serial) p' = some n ↔ _
    rw [update_apply]
    split_ifs with heq
    · rw [heq,hp]
      exact ⟨fun h => .inl ⟨rfl,(some.inj h).symm⟩,fun h => h.elim (fun h => congrArg some h.2.symm) nofun⟩
    · exact ⟨.inr,fun h => h.resolve_left fun h => heq h.1⟩
  have hconn {c'} : b'.Connecting c' ↔ c' = ⟨p,b.serial⟩ ∨ b.Connecting c' := by
    constructor
    · rintro ⟨th',l',path',a',h⟩
      rcases hcalls.mp h with ⟨-,heq⟩ | h
      · cases heq
        exact .inl rfl
      · exact .inr ⟨th',l',path',a',h⟩
    · rintro (rfl | ⟨th',l',path',a',h⟩)
      · exact ⟨th,l,path,true,hcalls.mpr (.inl ⟨rfl,rfl⟩)⟩
      · exact ⟨th',l',path',a',hcalls.mpr (.inr h)⟩
  have hnew {c' : ConnRef} (h : b.live c'.ptr = some c'.serial) : c' ≠ ⟨p,b.serial⟩ := by
    rintro rfl
    exact absurd (hb.fresh h) (Nat.lt_irrefl _)
  have hnone {e} : b.held e ⟨p,b.serial⟩ = false := by
    cases hh : b.held e ⟨p,b.serial⟩ with
    | false => rfl
    | true => exact absurd rfl (hnew (hb.handle hh))
  have hheld : b'.held = b.held := by rw [← hb']; rfl
  have hopened : b'.conn = (b.alloc th p).conn := by rw [← hb']; rfl
  have hfirst : (b'.conn p).opened = fun e => e == .client := by
    rw [hopened]
    unfold Bus.alloc
    dsimp only
    rw [update_self]
  have hpend {l' c'} (h : c' ∈ (b'.listeners l').pending) :
      c' ∈ (b.listeners l').pending ∨ l' = l ∧ c' = ⟨p,b.serial⟩ := by
    rw [← hb'] at h
    change c' ∈ (update b.listeners l _ l').pending at h
    rw [update_apply] at h
    split_ifs at h with heq
    · rcases List.mem_append.mp h with h | h
      · exact .inl (heq ▸ h)
      · exact .inr ⟨heq,List.mem_singleton.mp h⟩
    · exact .inl h
  have hsame (l') : (b'.listeners l').inUse = (b.listeners l').inUse ∧ (b'.listeners l').name = (b.listeners l').name := by
    rw [← hb']
    change (update b.listeners l _ l').inUse = _ ∧ (update b.listeners l _ l').name = _
    rw [update_apply]
    split_ifs with heq
    · rw [heq]
      exact ⟨rfl,rfl⟩
    · exact ⟨rfl,rfl⟩
  have hserial : b'.serial = b.serial + 1 := by rw [← hb']; rfl
  have hfrees : b'.frees = b.frees := by rw [← hb']; rfl
  refine ⟨@fun c' h => ?_,@fun e' c' h => ?_,@fun th₁ th₂ _ _ _ _ c' _ _ h₁ h₂ => ?_,@fun c' h => ?_,@fun c' h => ?_,@fun c' h => ?_,
    @fun l' c' h => ?_,fun l' => ?_,@fun th' l' path' c' h => ?_,@fun p' n h => ?_,@fun p₁ p₂ n h₁ h₂ => ?_,fun n hn => ?_,
    fun n hn => ?_,?_⟩
  · rcases hconn.mp h with rfl | h
    · exact hlive.mpr (.inl ⟨rfl,rfl⟩)
    · exact hlive.mpr (.inr (hb.call h))
  · rw [hheld] at h
    exact hlive.mpr (.inr (hb.handle h))
  · rcases hcalls.mp h₁ with ⟨rfl,hx₁⟩ | h₁ <;> rcases hcalls.mp h₂ with ⟨rfl,hx₂⟩ | h₂
    · rfl
    · cases hx₁
      exact absurd rfl (hnew (hb.call ⟨_,_,_,_,h₂⟩))
    · cases hx₂
      exact absurd rfl (hnew (hb.call ⟨_,_,_,_,h₁⟩))
    · exact hb.alone h₁ h₂
  · rw [hheld]
    rcases hconn.mp h with rfl | h
    · exact hnone
    · exact hb.apart h
  · rw [hheld,hconn]
    rcases hlive.mp h with ⟨hp',hn⟩ | h
    · obtain rfl : c' = ⟨p,b.serial⟩ := ConnRef.ext hp' hn
      rw [hfirst]
      exact ⟨fun _ => .inr (.inl rfl),fun _ => rfl⟩
    · rw [hopened]
      exact (hj.client h).trans (or_congr Iff.rfl ⟨.inr,fun hor => hor.resolve_left (hnew h)⟩)
  · rw [hheld]
    rcases hlive.mp h with ⟨hp',hn⟩ | h
    · obtain rfl : c' = ⟨p,b.serial⟩ := ConnRef.ext hp' hn
      rw [hfirst,hnone]
      exact ⟨nofun,nofun⟩
    · rw [hopened]
      exact hj.service h
  · rw [(hsame l').1,(hsame l').2]
    rcases hpend h with h | ⟨rfl,rfl⟩
    · obtain ⟨hu,hop,th',path',a',hcall,hn⟩ := hj.queue h
      rw [hopened]
      exact ⟨hu,hop,th',path',a',hcalls.mpr (.inr hcall),hn⟩
    · refine ⟨huse,?_,th,path,true,hcalls.mpr (.inl ⟨rfl,rfl⟩),hname⟩
      change (b'.conn p).opened .service = false
      rw [hfirst]
      rfl
  · rw [← hb']
    change (update b.listeners l _ l').pending.Nodup
    rw [update_apply]
    split_ifs with heq
    · refine (hb.nodup l).append (nodup_singleton _) ?_
      intro c' hc' heq
      obtain rfl := List.mem_singleton.mp heq
      obtain ⟨-,-,th',path',a',hcall,-⟩ := hb.queue hc'
      exact hnew (hb.call ⟨th',l,path',a',hcall⟩) rfl
    · exact hb.nodup l'
  · have hmem : l' = l ∧ c' = ⟨p,b.serial⟩ ∨ c' ∈ (b.listeners l').pending := by
      rcases hcalls.mp h with ⟨-,heq⟩ | h
      · cases heq
        exact .inl ⟨rfl,rfl⟩
      · exact .inr (hb.asleep h)
    rw [← hb']
    change c' ∈ (update b.listeners l _ l').pending
    rw [update_apply]
    split_ifs with heq
    · rcases hmem with ⟨-,rfl⟩ | hmem
      · exact mem_append_right _ (mem_singleton_self _)
      · exact mem_append_left _ (heq ▸ hmem)
    · exact hmem.resolve_left fun h => heq h.1
  · rw [hserial]
    rcases hlive.mp h with ⟨-,rfl⟩ | h
    · exact Nat.lt_succ_self _
    · exact Nat.lt_succ_of_lt (hb.fresh h)
  · rcases hlive.mp h₁ with ⟨rfl,hn⟩ | h₁ <;> rcases hlive.mp h₂ with ⟨rfl,hn'⟩ | h₂
    · rfl
    · rw [hn] at h₂
      exact absurd (hb.fresh h₂) (Nat.lt_irrefl _)
    · rw [hn'] at h₁
      exact absurd (hb.fresh h₁) (Nat.lt_irrefl _)
    · exact hb.once h₁ h₂
  · rw [hserial] at hn
    rw [hfrees]
    rcases eq_or_ne n b.serial with rfl | hne
    · exact .inl ⟨hb.unborn _ (Nat.le_refl _),p,hlive.mpr (.inl ⟨rfl,rfl⟩)⟩
    · refine (hb.freed n (by omega)).imp (And.imp_right ?_) (And.imp_right fun hno p' hp' => ?_)
      · rintro ⟨p',hp'⟩
        exact ⟨p',hlive.mpr (.inr hp')⟩
      · rcases hlive.mp hp' with ⟨-,heq⟩ | hp'
        · exact hne heq
        · exact hno p' hp'
  · rw [hserial] at hn
    rw [hfrees]
    exact hb.unborn n (by omega)
  · rw [← hb']
    exact hb.returned

lemma opened_setOpened (b : Bus) (p p' : Ptr) (e e' : End) (v : Bool) :
    ((b.setOpened p e v).conn p').opened e' = if p' = p ∧ e' = e then v else (b.conn p').opened e' := by
  unfold Bus.setOpened
  dsimp only
  rcases eq_or_ne p' p with rfl | hp
  · rw [update_self]
    dsimp only
    rcases eq_or_ne e' e with rfl | he
    · rw [update_self,if_pos ⟨rfl,rfl⟩]
    · rw [update_of_ne he,if_neg fun h => he h.2]
  · rw [update_of_ne hp,if_neg fun h => hp h.1]

lemma opened_setPeerPid (b : Bus) (p p' : Ptr) (e e' : End) (th : ℕ) :
    ((b.setPeerPid p e th).conn p').opened e' = (b.conn p').opened e' := by
  unfold Bus.setPeerPid
  dsimp only
  rw [update_apply]
  split_ifs with h
  · rw [h]
  · rfl

lemma held_setHeld (b : Bus) (c c' : ConnRef) (e e' : End) (v : Bool) :
    (b.setHeld e c v).held e' c' = if c' = c ∧ e' = e then v else b.held e' c' := by
  unfold Bus.setHeld
  dsimp only
  rcases eq_or_ne e' e with rfl | he
  · rw [update_self]
    rcases eq_or_ne c' c with rfl | hc
    · rw [update_self,if_pos ⟨rfl,rfl⟩]
    · rw [update_of_ne hc,if_neg fun h => hc h.1]
  · rw [update_of_ne he,if_neg fun h => he h.2]

lemma Bus.Open.kfree (ho : ∀ c' : ConnRef, c'.ptr ≠ c.ptr → b.live c'.ptr = some c'.serial →
    (b.conn c'.ptr).opened .client = true ∨ (b.conn c'.ptr).opened .service = true) : (b.kfree c).Open := by
  intro c' h
  unfold Bus.kfree at h
  dsimp only at h
  rw [update_apply] at h
  split_ifs at h with hp
  exact ho c' hp h

lemma Tidy.mem_pending {l' : Fin maxListeners} (hb : Tidy b) (hcall : b.calls th = some (.connect l path c a))
    (hq : c ∈ (b.listeners l').pending) : l' = l := by
  obtain ⟨-,-,th',path',a',hcall',-⟩ := hb.queue hq
  obtain rfl := hb.alone hcall hcall'
  rw [hcall] at hcall'
  cases hcall'
  rfl

lemma Tidy.not_mem_pending (hb : Tidy b) (hsv : (b.conn c.ptr).opened .service = true) (l : Fin maxListeners) :
    c ∉ (b.listeners l).pending := by
  intro hq
  have hno := (hb.queue hq).2.1
  rw [hsv] at hno
  cases hno

lemma wakeConn_awake {p : Ptr} (h : (b.wakeConn p).calls th = some (.connect l path c true)) :
    c.ptr ≠ p ∧ b.calls th = some (.connect l path c true) := by
  unfold Bus.wakeConn at h
  dsimp only at h
  obtain ⟨call,hcall,heq⟩ := Option.map_eq_some_iff.mp h
  cases call with
  | accept l' a => cases heq
  | connect l' path' c' a =>
    dsimp only at heq
    split_ifs at heq with hp
    · cases heq
    · cases heq
      exact ⟨hp,hcall⟩

lemma Tidy.acceptTurn (hb : Tidy b) (ho : b.Open) (hth : ∀ l path c a, b.calls th ≠ some (.connect l path c a)) :
    Tidy (b.acceptTurn th l) ∧ (b.acceptTurn th l).Open := by
  unfold Bus.acceptTurn
  dsimp only
  cases hpend : (b.listeners l).pending with
  | nil => exact ⟨hb.stir (stirred_setCall hth nofun),ho⟩
  | cons c rest =>
    dsimp only
    have hq : c ∈ (b.listeners l).pending := by
      rw [hpend]
      exact mem_cons_self
    have hnodup := hb.nodup l
    rw [hpend] at hnodup
    obtain ⟨-,hop,th₀,path₀,a₀,hcall₀,-⟩ := hb.queue hq
    have hlive := hb.call ⟨th₀,l,path₀,a₀,hcall₀⟩
    -- the client is woken first here, so that no thread asleep loses its place
    have hw : Tidy (b.wakeConn c.ptr) := hb.stir (stirred_wakeConn b c.ptr)
    have hpop : Tidy ((b.wakeConn c.ptr).setListen l { b.listeners l with
        pending := rest, pendingCount := (b.listeners l).pendingCount - 1 }) := by
      refine hw.relist (fun x hx => ?_) hnodup.of_cons (fun _ => ⟨rfl,rfl⟩) fun h => ?_
      · change x ∈ (b.listeners l).pending
        rw [hpend]
        exact mem_cons_of_mem _ hx
      · obtain ⟨hne,hcall⟩ := wakeConn_awake h
        have hmem := hb.asleep hcall
        rw [hpend] at hmem
        exact (List.mem_cons.mp hmem).resolve_left fun heq => hne (congrArg ConnRef.ptr heq)
    have hgone (l' : Fin maxListeners) : c ∉ (((b.wakeConn c.ptr).setListen l { b.listeners l with
        pending := rest, pendingCount := (b.listeners l).pendingCount - 1 }).listeners l').pending := by
      unfold Bus.setListen
      dsimp only
      rw [update_apply]
      split_ifs with heq
      · exact (List.nodup_cons.mp hnodup).1
      · exact fun hmem => heq (hb.mem_pending hcall₀ hmem)
    have hserve : Tidy ({ ((b.wakeConn c.ptr).setListen l { b.listeners l with
        pending := rest, pendingCount := (b.listeners l).pendingCount - 1 }) with
      conn := ((b.setOpened c.ptr .service true).setPeerPid c.ptr .service th).conn
      held := (b.setHeld .service c true).held }) := by
      refine hpop.reopen (e := .service) (v := true) hlive hgone (fun h => by cases h) ?_ (fun p e' hne => ?_) ?_ fun e' c' hne => ?_
      · rw [opened_setPeerPid,opened_setOpened,if_pos ⟨rfl,rfl⟩]
      · rw [opened_setPeerPid,opened_setOpened,if_neg (by tauto)]
        rfl
      · rw [held_setHeld,if_pos ⟨rfl,rfl⟩]
      · rw [held_setHeld,if_neg (by tauto)]
        rfl
    refine ⟨hserve.stir (stirred_setCall (fun l path c' a h => ?_) nofun),fun c' h => ?_⟩
    · obtain ⟨a',h,-⟩ := (stirred_wakeConn b c.ptr).old h
      exact hth _ _ _ _ h
    · change (((b.setOpened c.ptr .service true).setPeerPid c.ptr .service th).conn c'.ptr).opened .client = true ∨
        (((b.setOpened c.ptr .service true).setPeerPid c.ptr .service th).conn c'.ptr).opened .service = true
      rw [opened_setPeerPid,opened_setPeerPid,opened_setOpened,opened_setOpened,if_neg (by simp)]
      split_ifs
      · exact .inr rfl
      · exact ho c' h

lemma rejected (l : Fin maxListeners) : ∀ (cs : List ConnRef) (b : Bus),
    (∀ c ∈ cs, (b.conn c.ptr).opened .service = false) →
    ∃ calls, cs.foldl (fun b c => b.reject l c) b = { b with calls := calls } ∧ Stirred b { b with calls := calls } ∧
      ∀ th l' path c, c ∈ cs → calls th ≠ some (.connect l' path c true) := by
  intro cs
  induction cs with
  | nil => exact fun b _ => ⟨b.calls,rfl,⟨fun h => ⟨_,h,id⟩,fun h => ⟨_,h⟩⟩,fun _ _ _ _ h => by cases h⟩
  | cons c cs ih =>
    intro b hclosed
    have hsame : b.setOpened c.ptr .service false = b := by
      have hc := hclosed c mem_cons_self
      unfold Bus.setOpened
      rw [← hc,update_eq_self,update_eq_self]
    have hstir : Stirred b (b.reject l c) := by
      unfold Bus.reject
      rw [hsame]
      have h₁ := stirred_wakeListen b l
      have h₂ := stirred_wakeConn (b.wakeListen l) c.ptr
      refine ⟨fun h => ?_,fun h => ?_⟩
      · obtain ⟨a,h,ha⟩ := h₂.old h
        obtain ⟨a',h,ha'⟩ := h₁.old h
        exact ⟨a',h,fun h => ha' (ha h)⟩
      · obtain ⟨a,h⟩ := h₁.new h
        exact h₂.new h
    have hreject : b.reject l c = { b with calls := (b.reject l c).calls } := by
      unfold Bus.reject
      rw [hsame]
      rfl
    have hopened : (b.reject l c).conn = b.conn := by
      rw [hreject]
    obtain ⟨calls,hfold,hs,hawake⟩ := ih (b.reject l c) fun c' hc' => by
      rw [hopened]
      exact hclosed c' (mem_cons_of_mem _ hc')
    refine ⟨calls,?_,⟨fun h => ?_,fun h => ?_⟩,fun th l' path c' hc' h => ?_⟩
    · rw [foldl_cons,hfold,hreject]
    · obtain ⟨a,h,ha⟩ := hs.old h
      obtain ⟨a',h,ha'⟩ := hstir.old h
      exact ⟨a',h,fun h => ha' (ha h)⟩
    · obtain ⟨a,h⟩ := hstir.new h
      exact hs.new h
    · rcases List.mem_cons.mp hc' with rfl | hc'
      · obtain ⟨a,h,ha⟩ := hs.old h
        rw [ha rfl] at h
        unfold Bus.reject at h
        exact (wakeConn_awake h).1 rfl
      · exact hawake th l' path c' hc' h

lemma Tidy.srvUnrefListen (hb : Tidy b) (ho : b.Open) : Tidy (b.srvUnrefListen l) ∧ (b.srvUnrefListen l).Open := by
  unfold Bus.srvUnrefListen
  dsimp only
  split_ifs with hrefs
  · exact ⟨hb.relist (fun _ => id) (hb.nodup l) (fun _ => ⟨rfl,rfl⟩) hb.asleep,ho⟩
  · obtain ⟨calls,hfold,hs,hawake⟩ := rejected l (b.listeners l).pending b fun c hc => (hb.queue hc).2.1
    rw [hfold]
    have hw : Tidy { b with calls := calls } := hb.stir hs
    exact ⟨hw.relist (fun x hx => by cases hx) nodup_nil (fun h => absurd rfl h) fun h => absurd h (hawake _ _ _ _ (hw.asleep h)),ho⟩

lemma Tidy.srvBind (hb : Tidy b) (ho : b.Open) : Tidy (b.srvBind th path).2 ∧ (b.srvBind th path).2.Open := by
  unfold Bus.srvBind
  split_ifs
  · exact ⟨hb,ho⟩
  · exact ⟨hb,ho⟩
  cases hfree : (finRange maxListeners).find? fun l => !(b.listeners l).inUse with
  | none => exact ⟨hb,ho⟩
  | some l =>
    have huse : (b.listeners l).inUse = false := by simpa using find?_some hfree
    have hempty {c : ConnRef} (hc : c ∈ (b.listeners l).pending) : False := by
      have h := (hb.queue hc).1
      rw [huse] at h
      cases h
    exact ⟨hb.relist (fun x hx => by cases hx) nodup_nil (fun h => absurd rfl h) fun h => (hempty (hb.asleep h)).elim,ho⟩

lemma Tidy.srvConnect {cell : Option Ptr} {node : Bool} (hb : Tidy b) (ho : b.Open) (hth : b.calls th = none)
    (hcell : ∀ p, cell = some p → b.live p = none) :
    Tidy (b.srvConnect th path cell node) ∧ (b.srvConnect th path cell node).Open := by
  unfold Bus.srvConnect
  split
  · exact ⟨hb,ho⟩
  next hvalid =>
  cases hfind : b.findListener path with
  | none => exact ⟨hb,ho⟩
  | some l =>
    dsimp only
    split
    · exact ⟨hb,ho⟩
    cases cell with
    | none => exact ⟨hb,ho⟩
    | some p =>
      have hp := hcell p rfl
      obtain ⟨huse,hname⟩ := findListener_some (by simpa using hvalid) hfind
      have hold {c' : ConnRef} (hne : c'.ptr ≠ p) (h : (b.alloc th p).live c'.ptr = some c'.serial) :
          ((b.alloc th p).conn c'.ptr).opened .client = true ∨ ((b.alloc th p).conn c'.ptr).opened .service = true := by
        unfold Bus.alloc at h ⊢
        dsimp only at h ⊢
        rw [update_of_ne hne] at h
        rw [update_of_ne hne]
        exact ho c' h
      dsimp only
      split
      · exact ⟨hb.stillborn hp,Bus.Open.kfree fun c' hne h => hold hne h⟩
      · have hw : Tidy (b.wakeListen l) := hb.stir (stirred_wakeListen b l)
        have hth' : (b.wakeListen l).calls th = none := by
          unfold Bus.wakeListen
          dsimp only
          rw [hth]
          rfl
        refine ⟨hw.join hp hth' huse hname ((b.listeners l).pendingCount + 1),fun c' h => ?_⟩
        change ((b.alloc th p).conn c'.ptr).opened .client = true ∨ ((b.alloc th p).conn c'.ptr).opened .service = true
        rcases eq_or_ne c'.ptr p with heq | hne
        · left
          unfold Bus.alloc
          dsimp only
          rw [heq,update_self]
          rfl
        · exact hold hne h

lemma Tidy.srvUnrefConn (hb : Tidy b) (ho : b.Open) (hheld : b.held e c = true) :
    Tidy (b.srvUnrefConn c e) ∧ (b.srvUnrefConn c e).Open := by
  have hlive := hb.handle hheld
  have hconn (he : e = .client) : ¬ b.Connecting c := by
    rintro hc
    rw [he,hb.apart hc] at hheld
    cases hheld
  have hq (l : Fin maxListeners) : c ∉ (b.listeners l).pending := by
    intro hmem
    cases e with
    | client =>
      obtain ⟨-,-,th,path,a,hcall,-⟩ := hb.queue hmem
      exact hconn rfl ⟨th,l,path,a,hcall⟩
    | service => exact hb.not_mem_pending ((hb.service hlive).mpr hheld) l hmem
  have hw : Tidy (b.wakeConn c.ptr) := hb.stir (stirred_wakeConn b c.ptr)
  have hclosed : Tidy (((b.setOpened c.ptr e false).wakeConn c.ptr).setHeld e c false) := by
    refine hw.reopen (v := false) hlive hq (fun he hc => hconn he ((stirred_wakeConn b c.ptr).connecting.mp hc)) ?_ (fun p e' hne => ?_) ?_
      fun e' c' hne => ?_
    · exact (opened_setOpened ..).trans (if_pos ⟨rfl,rfl⟩)
    · exact (opened_setOpened ..).trans (if_neg (by tauto))
    · exact (held_setHeld ..).trans (if_pos ⟨rfl,rfl⟩)
    · exact (held_setHeld ..).trans (if_neg (by tauto))
  have hothers (c' : ConnRef) (hne : c'.ptr ≠ c.ptr) (h : b.live c'.ptr = some c'.serial) :
      ((b.setOpened c.ptr e false).conn c'.ptr).opened .client = true ∨
        ((b.setOpened c.ptr e false).conn c'.ptr).opened .service = true := by
    rw [opened_setOpened,opened_setOpened,if_neg fun h => hne h.1,if_neg fun h => hne h.1]
    exact ho c' h
  unfold Bus.srvUnrefConn
  dsimp only
  split_ifs with hboth
  · rw [Bool.and_eq_true,Bool.not_eq_true',Bool.not_eq_true'] at hboth
    have hlive' : (((b.setOpened c.ptr e false).wakeConn c.ptr).setHeld e c false).live c.ptr = some c.serial := hlive
    have hnone : ¬ ((((b.setOpened c.ptr e false).wakeConn c.ptr).setHeld e c false).held .client c = true ∨
        (((b.setOpened c.ptr e false).wakeConn c.ptr).setHeld e c false).Connecting c) := by
      rw [← hclosed.client hlive',hboth.1]
      exact Bool.false_ne_true
    refine ⟨hclosed.kfree hlive' (fun h => hnone (.inr h)) fun e' => ?_,Bus.Open.kfree hothers⟩
    cases e' with
    | client => exact Bool.eq_false_iff.mpr fun h => hnone (.inl h)
    | service => exact Bool.eq_false_iff.mpr fun h => Bool.false_ne_true (hboth.2.symm.trans ((hclosed.service hlive').mpr h))
  · refine ⟨hclosed,fun c' h => ?_⟩
    rcases eq_or_ne c'.ptr c.ptr with heq | hne
    · rw [heq]
      rw [Bool.and_eq_true,Bool.not_eq_true',Bool.not_eq_true',not_and_or,Bool.not_eq_false,Bool.not_eq_false] at hboth
      exact hboth
    · exact hothers c' hne h

lemma Tidy.free (hb : Tidy { b with conn := conn, calls := update b.calls th none })
    (hlive : b.live c.ptr = some c.serial) (hclient : (conn c.ptr).opened .client = false)
    (hservice : (conn c.ptr).opened .service = false)
    (ho : ∀ c' : ConnRef, c'.ptr ≠ c.ptr → b.live c'.ptr = some c'.serial →
      (conn c'.ptr).opened .client = true ∨ (conn c'.ptr).opened .service = true) :
    Tidy (({ b with conn := conn, calls := update b.calls th none } : Bus).kfree c) ∧
      (({ b with conn := conn, calls := update b.calls th none } : Bus).kfree c).Open := by
  have hnone : ¬ (b.held .client c = true ∨
      ({ b with conn := conn, calls := update b.calls th none } : Bus).Connecting c) := by
    intro h
    exact Bool.false_ne_true (hclient.symm.trans ((hb.client hlive).mpr h))
  refine ⟨hb.kfree hlive (fun h => hnone (.inr h)) fun e => ?_,Bus.Open.kfree ho⟩
  cases e with
  | client => exact Bool.eq_false_iff.mpr fun h => hnone (.inl h)
  | service => exact Bool.eq_false_iff.mpr fun h => Bool.false_ne_true (hservice.symm.trans ((hb.service hlive).mpr h))

lemma Bus.Open.others (ho : b.Open) (c' : ConnRef) (hne : c'.ptr ≠ c.ptr) (h : b.live c'.ptr = some c'.serial) :
    ((b.setOpened c.ptr e v).conn c'.ptr).opened .client = true ∨
      ((b.setOpened c.ptr e v).conn c'.ptr).opened .service = true := by
  rw [opened_setOpened,opened_setOpened,if_neg fun h => hne h.1,if_neg fun h => hne h.1]
  exact ho c' h

lemma Tidy.closeClient (hb : Tidy b) (hcall : b.calls th = some (.connect l path c a))
    (hq : ∀ l, c ∉ (b.listeners l).pending) :
    Tidy { b with conn := (b.setOpened c.ptr .client false).conn, calls := update b.calls th none } := by
  refine hb.leave (v := false) hcall hq ?_ (fun p e' hne => ?_) (hb.apart ⟨th,l,path,a,hcall⟩) fun _ _ _ => rfl
  · rw [opened_setOpened,if_pos ⟨rfl,rfl⟩]
  · rw [opened_setOpened,if_neg (by tauto)]

lemma eraseP_congr {α : Type*} {p q : α → Bool} {xs : List α} (h : ∀ x ∈ xs, p x = q x) : xs.eraseP p = xs.eraseP q := by
  induction xs with
  | nil => rfl
  | cons x xs ih =>
    rw [eraseP_cons,eraseP_cons,h x mem_cons_self,ih fun y hy => h y (mem_cons_of_mem _ hy)]

lemma Tidy.erase {k : ℕ} (hb : Tidy b) (hcall : b.calls th = some (.connect l path c a)) (ha : a = false) :
    Tidy (b.setListen l { b.listeners l with
      pending := (b.listeners l).pending.eraseP fun c' => c'.ptr == c.ptr, pendingCount := k }) ∧
      c ∉ (b.listeners l).pending.eraseP fun c' => c'.ptr == c.ptr := by
  have hlive := hb.call ⟨th,l,path,a,hcall⟩
  have hiff {c' : ConnRef} (hc' : c' ∈ (b.listeners l).pending) : (c'.ptr == c.ptr) = true ↔ c' = c := by
    obtain ⟨-,-,th',path',a',hth',-⟩ := hb.queue hc'
    have hlive' := hb.call ⟨th',l,path',a',hth'⟩
    refine ⟨fun heq => ?_,fun heq => by rw [heq,beq_self_eq_true]⟩
    have hp : c'.ptr = c.ptr := eq_of_beq heq
    rw [hp] at hlive'
    exact ConnRef.ext hp (some.inj (hlive'.symm.trans hlive))
  have herase : (b.listeners l).pending.eraseP (fun c' => c'.ptr == c.ptr) = (b.listeners l).pending.erase c := by
    rw [erase_eq_eraseP]
    refine eraseP_congr fun c' hc' => ?_
    rw [Bool.eq_iff_iff,hiff hc',beq_iff_eq]
    exact eq_comm
  rw [herase]
  refine ⟨hb.relist (fun x hx => mem_of_mem_erase hx) ((hb.nodup l).erase c) (fun _ => ⟨rfl,rfl⟩) @fun th' path' c' h => ?_,
    (hb.nodup l).not_mem_erase⟩
  refine (mem_erase_of_ne ?_).mpr (hb.asleep h)
  rintro rfl
  obtain rfl := hb.alone hcall h
  rw [hcall] at h
  cases h
  cases ha

lemma Tidy.connectWoken (hb : Tidy b) (ho : b.Open) (hcall : b.calls th = some (.connect l path c false))
    (hok : c ∉ (b.listeners l).pending → (b.conn c.ptr).opened .service = false →
      b.sigPending th = false ∧ (b.listeners l).inUse = false) :
    Tidy (b.connectWoken th l path c) ∧ (b.connectWoken th l path c).Open := by
  have hlive := hb.call ⟨th,l,path,false,hcall⟩
  have helsewhere (hq : c ∉ (b.listeners l).pending) (l' : Fin maxListeners) : c ∉ (b.listeners l').pending := fun h => by
    rw [hb.mem_pending hcall h] at h
    exact hq h
  have hshut : ((b.setOpened c.ptr .client false).conn c.ptr).opened .client = false := by
    rw [opened_setOpened,if_pos ⟨rfl,rfl⟩]
  have hkeep : ((b.setOpened c.ptr .client false).conn c.ptr).opened .service = (b.conn c.ptr).opened .service := by
    rw [opened_setOpened,if_neg (by simp)]
  unfold Bus.connectWoken
  dsimp only
  split
  · next hsig =>
    split
    · next hmine =>
      -- interrupted in the queue
      rw [Bool.and_eq_true,Bool.not_eq_true'] at hmine
      obtain ⟨herased,hgone⟩ := hb.erase (k := (b.listeners l).pendingCount - 1) hcall rfl
      have hleft (l' : Fin maxListeners) : c ∉ ((b.setListen l { b.listeners l with
          pending := (b.listeners l).pending.eraseP fun c' => c'.ptr == c.ptr
          pendingCount := (b.listeners l).pendingCount - 1 }).listeners l').pending := by
        unfold Bus.setListen
        dsimp only
        rw [update_apply]
        split_ifs with heq
        · exact hgone
        · exact fun h => heq (hb.mem_pending hcall h)
      exact (herased.closeClient hcall hleft).free hlive hshut (hkeep.trans hmine.1) ho.others
    · next hother =>
      -- interrupted, with the service there
      have hsv : (b.conn c.ptr).opened .service = true := by
        by_contra hno
        rw [Bool.not_eq_true] at hno
        rw [hno,Bool.not_false,Bool.true_and] at hother
        have hq : c ∉ (b.listeners l).pending := fun h => hother (List.any_eq_true.mpr ⟨c,h,beq_self_eq_true _⟩)
        rw [(hok hq hno).1] at hsig
        cases hsig
      refine ⟨hb.closeClient hcall (hb.not_mem_pending hsv),fun c' h => ?_⟩
      rcases eq_or_ne c'.ptr c.ptr with heq | hne
      · rw [heq]
        exact .inr (hkeep.trans hsv)
      · exact ho.others c' hne h
  · split
    · next hgone =>
      -- the listener went away
      rw [Bool.and_eq_true,Bool.not_eq_true',Bool.not_eq_true'] at hgone
      have hq : c ∉ (b.listeners l).pending := fun h => by
        have huse := (hb.queue h).1
        rw [hgone.1] at huse
        cases huse
      exact (hb.closeClient hcall (helsewhere hq)).free hlive hshut (hkeep.trans hgone.2) ho.others
    · next hstay =>
      split
      · next hsv =>
        -- accepted
        have hzero : b.frees c.serial = 0 := by
          rcases hb.freed _ (hb.fresh hlive) with ⟨h,-⟩ | ⟨-,hno⟩
          · exact h
          · exact absurd hlive (hno _)
        have hclient : (b.conn c.ptr).opened .client = true := (hb.client hlive).mpr (.inr ⟨th,l,path,false,hcall⟩)
        have hout : Tidy { b with
            conn := b.conn, held := (b.setHeld .client c true).held, calls := update b.calls th none } :=
          hb.leave (v := true) hcall (hb.not_mem_pending hsv) hclient (fun _ _ _ => rfl)
            ((held_setHeld ..).trans (if_pos ⟨rfl,rfl⟩)) fun e' c' hne => (held_setHeld ..).trans (if_neg (by tauto))
        refine ⟨{ hout with returned := fun x hx => ?_ },ho⟩
        rcases List.mem_append.mp hx with hx | hx
        · exact hb.returned x hx
        · rw [List.mem_singleton.mp hx]
          exact hzero
      · next hsv =>
        -- it waits on
        have hno : (b.conn c.ptr).opened .service = false := Bool.not_eq_true _ ▸ hsv
        have hq : c ∈ (b.listeners l).pending := by
          by_contra hq
          rw [(hok hq hno).2,hno] at hstay
          exact hstay rfl
        exact ⟨hb.doze hcall hq,ho⟩

lemma Tidy.step {b' : Bus} {ev : Event} {a : Unit} (hb : Tidy b) (ho : b.Open) (hok : Orderly b ev)
    (now : step b ev = some (a,b')) : Tidy b' ∧ b'.Open := by
  cases ev with
  | bind th path =>
    unfold Registry.step at now
    dsimp only at now
    split_ifs at now
    cases now
    exact hb.srvBind ho
  | unrefListen l =>
    unfold Registry.step at now
    dsimp only at now
    split_ifs at now
    cases now
    exact hb.srvUnrefListen ho
  | accept th l =>
    unfold Registry.step at now
    dsimp only at now
    split_ifs at now with hth
    cases now
    unfold Bus.srvAccept
    split
    · exact ⟨hb,ho⟩
    · exact hb.acceptTurn ho fun l path c a h => hth (by rw [h]; rfl)
  | connect th path cell node =>
    unfold Registry.step at now
    dsimp only at now
    split_ifs at now with hno
    cases now
    rw [Bool.or_eq_true,not_or,Bool.not_eq_true,isSome_eq_false_iff,isNone_iff_eq_none] at hno
    refine hb.srvConnect ho hno.1 fun p hp => ?_
    have hcell := hno.2
    rw [hp,any_some,Bool.not_eq_true,isSome_eq_false_iff,isNone_iff_eq_none] at hcell
    exact hcell
  | turn th =>
    obtain ⟨b₁,hturn,heq⟩ := Option.map_eq_some_iff.mp now
    cases heq
    unfold Bus.turn at hturn
    split at hturn
    · next l hcall =>
      cases hturn
      have hno (l' path c a') (h : b.calls th = some (.connect l' path c a')) : False := by
        rw [hcall] at h
        cases h
      unfold Bus.acceptWoken
      split_ifs
      · exact ⟨hb.stir (stirred_setCall hno nofun),ho⟩
      · exact ⟨hb.stir (stirred_setCall hno nofun),ho⟩
      · exact hb.acceptTurn ho hno
    · next l path c hcall =>
      cases hturn
      exact hb.connectWoken ho hcall (hok th l path c rfl hcall)
    · cases hturn
  | unrefConn c e =>
    unfold Registry.step at now
    dsimp only at now
    split_ifs at now with hheld
    cases now
    exact hb.srvUnrefConn ho hheld
  | signal th =>
    cases now
    have hs : Stirred b { b with calls := update b.calls th ((b.calls th).map Call.awake) } := by
      refine ⟨@fun th' l path c a' h => ?_,@fun th' l path c a h => ?_⟩
      · dsimp only at h
        rw [update_apply] at h
        split_ifs at h with heq
        · obtain ⟨call,hcall,hawake⟩ := Option.map_eq_some_iff.mp h
          cases call with
          | accept => cases hawake
          | connect l' path' c' a =>
            cases hawake
            exact ⟨a,heq ▸ hcall,nofun⟩
        · exact ⟨a',h,id⟩
      · dsimp only
        rw [update_apply]
        split_ifs with heq
        · rw [← heq,h]
          exact ⟨false,rfl⟩
        · exact ⟨a,h⟩
    have hw : Tidy { b with calls := update b.calls th ((b.calls th).map Call.awake) } := hb.stir hs
    exact ⟨{ hw with },ho⟩
  | handled th =>
    cases now
    exact ⟨{ hb with },ho⟩

lemma tidy_initial (conn : Ptr → SrvConn) : Tidy (initial conn) ∧ (initial conn).Open := by
  have hno {c} : ¬ (initial conn).Connecting c := by
    rintro ⟨_,_,_,_,h⟩
    cases h
  refine ⟨⟨fun h => absurd h hno,?_,?_,fun h => absurd h hno,?_,?_,?_,fun _ => .nil,?_,?_,?_,?_,fun _ _ => rfl,?_⟩,fun c h => ?_⟩
  all_goals
    intros
    simp_all [initial]

/-- In every orderly run a client that waits has its place, and connections are freed once, when
both ends are gone. -/
theorem clients_served {conn : Ptr → SrvConn} {es : List Event} (run : Runs step Orderly (initial conn) es b) :
    Served b := by
  have h : Tidy b ∧ b.Open :=
    run.invariant (I := fun b => Tidy b ∧ b.Open) (fun _ _ _ _ hI hok now => hI.1.step hI.2 hok now) (tidy_initial conn)
  exact h.1.served h.2

def pathA : List UInt8 := [47,115,114,118,47,97]

/-- Client 2 connects to service 1 and the service accepts it; `after` is what follows. -/
def meeting (after : List Event) : List Event := [.bind 1 pathA,.connect 2 pathA (some 64) true,.accept 1 0] ++ after

theorem clients_served_meeting : ∃ b, Runs step Orderly (initial fun _ => ⟨fun _ => false,fun _ => 0⟩) (meeting [.turn 2]) b ∧
    b.held .client ⟨64,0⟩ = true ∧ Served b := by
  have run : Runs step Orderly (initial fun _ => ⟨fun _ => false,fun _ => 0⟩) (meeting [.turn 2]) _ :=
    .cons (fun _ _ _ _ h => by cases h) rfl <| .cons (fun _ _ _ _ h => by cases h) rfl <|
    .cons (fun _ _ _ _ h => by cases h) rfl <| .cons (fun th l path c h hcall hq hsv => by
      cases h
      cases hcall
      cases hsv) rfl <| .nil _
  exact ⟨_,run,rfl,clients_served run⟩

/-- The service closes its end before the client runs on, which then sleeps outside the queue. -/
theorem client_left_waiting : ¬ ∀ (conn : Ptr → SrvConn) (es : List Event) (b : Bus),
    Runs step (fun _ _ => True) (initial conn) es b → Served b := by
  intro h
  have hend : ((execute step (initial fun _ => ⟨fun _ => false,fun _ => 0⟩) (meeting [.unrefConn ⟨64,0⟩ .service,.turn 2])).map
      fun b => ((b.listeners 0).pending,b.calls 2)) = some ([],some (.connect 0 pathA ⟨64,0⟩ true)) := rfl
  obtain ⟨b,hb,heq⟩ := Option.map_eq_some_iff.mp hend
  obtain ⟨hpend,hcall⟩ := Prod.mk.inj heq
  have hmem := ((h _ _ b (.of_execute hb)).waiting 2 0 pathA ⟨64,0⟩ hcall).1
  rw [hpend] at hmem
  cases hmem

end VibeOS.Srv.Registry

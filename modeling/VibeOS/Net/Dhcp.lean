import VibeOS.Widths
import Mathlib.Tactic.Cases
import Mathlib.Data.Vector.Defs

/-! `dhcp.c`: the parser of the options, the receiver and `dhcp_acquire`. A read outside a buffer and a loop that runs out of fuel are `none`. -/
namespace VibeOS.Dhcp
open List hiding Vector
open Option

def slice4 (buf : List UInt8) (i : ℕ) : Option (List UInt8) := if i + 4 ≤ buf.length then some ((buf.drop i).take 4) else none

def be32 (buf : List UInt8) (i : ℕ) : Option ℕ := do
  let b ← slice4 buf i
  return b.foldl (fun n x => n * 256 + x.toNat) 0

/-- What `parse_options` sets: the type of the message and the globals of the offer. -/
structure Options where
  msgType : UInt8
  gw : List UInt8
  msk : List UInt8
  dns : List UInt8
  serverId : List UInt8
  haveSubnet : Bool
  haveRouter : Bool
  haveDns : Bool

def zeroIp : List UInt8 := [0,0,0,0]

def Options.cleared : Options := ⟨0,zeroIp,zeroIp,zeroIp,zeroIp,false,false,false⟩

/-- One option of `olen` bytes at `i`. -/
def applyOption (opt : List UInt8) (code olen : UInt8) (i : ℕ) (o : Options) : Option Options :=
  if code = 53 then if olen = 1 then (opt[i]?).map fun t => { o with msgType := t } else some o
  else if code = 1 then if olen = 4 then (slice4 opt i).map fun a => { o with msk := a, haveSubnet := true } else some o
  else if code = 3 then if 4 ≤ olen then (slice4 opt i).map fun a => { o with gw := a, haveRouter := true } else some o
  else if code = 54 then if olen = 4 then (slice4 opt i).map fun a => { o with serverId := a } else some o
  else if code = 6 then if 4 ≤ olen then (slice4 opt i).map fun a => { o with dns := a, haveDns := true } else some o
  else some o

def optionsLoop (opt : List UInt8) : ℕ → ℕ → Options → Option Options
  | 0,_,_ => none
  | fuel+1,i,o =>
    if opt.length ≤ i then some o
    else do
      let code ← opt[i]?
      if code = 0 then optionsLoop opt fuel (i+1) o
      else if code = 255 then return o
      else if opt.length ≤ i + 1 then return o
      else do
        let olen ← opt[i+1]?
        if opt.length < i + 2 + olen.toNat then return o
        else do
          let o ← applyOption opt code olen (i+2) o
          optionsLoop opt fuel (i + 2 + olen.toNat) o

def parseOptions (opt : List UInt8) : Option Options := optionsLoop opt (opt.length + 1) 0 .cleared

inductive State where
  | init
  | offered
  | bound
  | failed
  deriving DecidableEq

structure Globals where
  state : State
  xid : ℕ
  offeredIp : List UInt8
  opts : Options

/-- `dhcp_rx` -/
def dhcpRx (g : Globals) (payload : List UInt8) : Option Globals :=
  if payload.length < 240 + 4 then some g
  else do
    let op ← payload[0]?
    if op ≠ 2 then return g
    else do
      let xid ← be32 payload 4
      if xid ≠ g.xid then return g
      else do
        let cookie ← be32 payload 236
        if cookie ≠ 0x63825363 then return g
        else do
          let ip ← slice4 payload 16
          let opts ← parseOptions (payload.drop 240)
          let g := { g with offeredIp := ip, opts := opts }
          if opts.msgType = 2 then return if g.state = .init then { g with state := .offered } else g
          else if opts.msgType = 5 then return if g.state = .offered then { g with state := .bound } else g
          else return g

/-- The payloads of one `net_poll`. -/
def poll : List (List UInt8) → Globals → Option Globals
  | [],g => some g
  | p :: ps,g => do poll ps (← dhcpRx g p)

/-- `build_bootp` -/
def buildBootp (xid : ℕ) (mac : Vector UInt8 6) (msgType : UInt8) (names : Option (List UInt8 × List UInt8)) : List UInt8 :=
  [1,1,6,0,UInt8.ofNat (xid / 2^24),UInt8.ofNat (xid / 2^16),UInt8.ofNat (xid / 2^8),UInt8.ofNat xid,0,0,0x80,0] ++ replicate 16 0 ++ mac.toList ++
    replicate 202 0 ++ [0x63,0x82,0x53,0x63] ++ [53,1,msgType] ++
    (match names with
      | some (ip,server) => [50,4] ++ ip ++ [54,4] ++ server
      | none => []) ++ [55,4,1,3,6,51,255]

/-- What a call meets: whether the card is there and the calls below succeed, the counter and the MAC, and the payloads by the turn of the loop
that polls. -/
structure Env where
  present : Bool
  binds : Bool
  discovers : Bool
  requests : Bool
  configures : Bool
  xid : ℕ
  mac : Vector UInt8 6
  spinIters : ℕ
  offers : ℕ → List (List UInt8)
  acks : ℕ → List (List UInt8)

/-- The `n` turns from `i` on of a loop that polls while the state is `st`. -/
def wait (st : State) (arrive : ℕ → List (List UInt8)) : ℕ → ℕ → Globals → Option Globals
  | 0,_,g => some g
  | n+1,i,g =>
    if g.state = st then do
      let g ← if i % 4096 = 0 then poll (arrive i) g else some g
      wait st arrive n (i+1) g
    else some g

structure Net where
  ip : List UInt8
  gw : List UInt8
  msk : List UInt8
  dns : List UInt8

/-- The lease of the globals, with the assumptions for what the server left out. -/
def install (g : Globals) (net : Net) : Net :=
  let msk := if g.opts.haveSubnet then g.opts.msk else [255,255,255,0]
  let gw := if g.opts.haveRouter then g.opts.gw else g.offeredIp.take 3 ++ [1]
  ⟨g.offeredIp,gw,msk,if g.opts.haveDns then g.opts.dns else net.dns⟩

/-- Where a call stands behind the REQUEST: the globals and the packet. -/
def requestPhase (e : Env) (g : Globals) : Option (Option (Globals × List UInt8)) :=
  if e.present = false then some none
  else if e.binds = false then some none
  else if e.discovers = false then some none
  else do
    let g ← wait .init e.offers (e.spinIters / 2) 0 { g with state := .init, xid := e.xid, opts := { g.opts with haveSubnet := false, haveRouter := false } }
    if g.state ≠ .offered then return none
    else if e.requests = false then return none
    else return some (g,buildBootp e.xid e.mac 3 (some (g.offeredIp,g.opts.serverId)))

/-- `dhcp_acquire`: what is returned, the REQUEST that was sent, and the addresses. -/
def dhcpAcquire (e : Env) (g : Globals) (net : Net) : Option (ℤ × List UInt8 × Net) := do
  match ← requestPhase e g with
  | none => return (-1,[],net)
  | some (g,request) => do
    let g ← wait .offered e.acks (e.spinIters / 2) 0 g
    if g.state ≠ .bound then return (-1,request,net)
    else if e.configures = false then return (-1,request,net)
    else return (0,request,install g net)

lemma slice4_some {buf : List UInt8} {i : ℕ} (h : i + 4 ≤ buf.length) : slice4 buf i = some ((buf.drop i).take 4) := if_pos h

lemma length_slice4 {buf a : List UInt8} {i : ℕ} (h : slice4 buf i = some a) : a.length = 4 := by
  unfold slice4 at h
  split at h
  · rw [← some.inj h,length_take,length_drop]
    omega
  · exact nomatch h

lemma applyOption_some {opt : List UInt8} {code olen : UInt8} {i : ℕ} {o : Options} (hi : i + olen.toNat ≤ opt.length)
    (ho : o.serverId.length = 4) : ∃ o', applyOption opt code olen i o = some o' ∧ o'.serverId.length = 4 := by
  have hslice (h : 4 ≤ olen.toNat) : slice4 opt i = some ((opt.drop i).take 4) := slice4_some (by omega)
  have hsize (h : 4 ≤ olen.toNat) : ((opt.drop i).take 4).length = 4 := length_slice4 (hslice h)
  have hskip : ∃ o', some o = some o' ∧ o'.serverId.length = 4 := ⟨o,rfl,ho⟩
  unfold applyOption
  by_cases h53 : code = 53
  · rw [if_pos h53]
    by_cases h1 : olen = 1
    · subst h1
      have hin : i < opt.length := by
        have hone : (1 : UInt8).toNat = 1 := rfl
        omega
      rw [if_pos rfl,getElem?_eq_getElem hin]
      exact ⟨_,rfl,ho⟩
    · rw [if_neg h1]
      exact hskip
  have hfour : olen = 4 → 4 ≤ olen.toNat := fun h => by
    rw [h]
    decide
  have hle : 4 ≤ olen → 4 ≤ olen.toNat := fun h => UInt8.le_iff_toNat_le.mp h
  rw [if_neg h53]
  split
  · split
    · rw [hslice (hfour ‹_›)]
      exact ⟨_,rfl,ho⟩
    · exact hskip
  · split
    · split
      · rw [hslice (hle ‹_›)]
        exact ⟨_,rfl,ho⟩
      · exact hskip
    · split
      · split
        · rw [hslice (hfour ‹_›)]
          exact ⟨_,rfl,hsize (hfour ‹_›)⟩
        · exact hskip
      · split
        · split
          · rw [hslice (hle ‹_›)]
            exact ⟨_,rfl,ho⟩
          · exact hskip
        · exact hskip

lemma optionsLoop_some {opt : List UInt8} {fuel i : ℕ} {o : Options} (hfuel : 0 < fuel) (hin : opt.length < i + fuel) (ho : o.serverId.length = 4) :
    ∃ o', optionsLoop opt fuel i o = some o' ∧ o'.serverId.length = 4 := by
  induction fuel generalizing i o with
  | zero => omega
  | succ fuel ih =>
    unfold optionsLoop
    by_cases hend : opt.length ≤ i
    · rw [if_pos hend]
      exact ⟨o,rfl,ho⟩
    rw [if_neg hend,getElem?_eq_getElem (by omega)]
    dsimp only [bind_eq_bind,bind_some]
    split
    · exact ih (by omega) (by omega) ho
    split
    · exact ⟨o,rfl,ho⟩
    by_cases hcut : opt.length ≤ i + 1
    · rw [if_pos hcut]
      exact ⟨o,rfl,ho⟩
    rw [if_neg hcut,getElem?_eq_getElem (by omega)]
    dsimp only [bind_some]
    split
    · exact ⟨o,rfl,ho⟩
    · obtain ⟨o',hopt,ho'⟩ := @applyOption_some opt opt[i] opt[i+1] (i+2) o (by omega) ho
      rw [hopt,bind_some]
      exact ih (by omega) (by omega) ho'

lemma parseOptions_some (opt : List UInt8) : ∃ o, parseOptions opt = some o ∧ o.serverId.length = 4 :=
  optionsLoop_some (Nat.succ_pos _) (by omega) rfl

/-- The messages that `dhcp_rx` looks into. -/
structure Accepted (xid : ℕ) (p : List UInt8) : Prop where
  length : 244 ≤ p.length
  op : p[0]? = some 2
  xid : be32 p 4 = some xid
  cookie : be32 p 236 = some 0x63825363

structure Says (p ip : List UInt8) (o : Options) : Prop where
  ip : slice4 p 16 = some ip
  opts : parseOptions (p.drop 240) = some o

def nextState (st : State) (msgType : UInt8) : State :=
  if msgType = 2 then if st = .init then .offered else st else if msgType = 5 then if st = .offered then .bound else st else st

variable {g : Globals}

lemma dhcpRx_accepted {p : List UInt8} (h : Accepted g.xid p) :
    ∃ ip o, Says p ip o ∧ dhcpRx g p = some ⟨nextState g.state o.msgType,g.xid,ip,o⟩ ∧ ip.length = 4 ∧ o.serverId.length = 4 := by
  have hip := @slice4_some p 16 (by have := h.length; omega)
  obtain ⟨o,hopts,hserver⟩ := parseOptions_some (p.drop 240)
  refine ⟨_,o,⟨hip,hopts⟩,?_,length_slice4 hip,hserver⟩
  unfold dhcpRx
  rw [if_neg (by have := h.length; omega),h.op]
  dsimp only [bind_eq_bind,bind_some]
  rw [if_neg (not_not.mpr rfl),h.xid,bind_some,if_neg (not_not.mpr rfl),h.cookie,bind_some,if_neg (not_not.mpr rfl),hip,bind_some,
    hopts,bind_some]
  unfold nextState
  by_cases h2 : o.msgType = 2
  · rw [if_pos h2,if_pos h2]
    split <;> rfl
  rw [if_neg h2,if_neg h2]
  by_cases h5 : o.msgType = 5
  · rw [if_pos h5,if_pos h5]
    split <;> rfl
  · rw [if_neg h5,if_neg h5]
    rfl

lemma dhcpRx_ignored {p : List UInt8} (h : ¬ Accepted g.xid p) : dhcpRx g p = some g := by
  unfold dhcpRx
  by_cases hshort : p.length < 240 + 4
  · rw [if_pos hshort]
  have hlen : 244 ≤ p.length := by omega
  rw [if_neg hshort,getElem?_eq_getElem (by omega)]
  dsimp only [bind_eq_bind,bind_some]
  by_cases hop : p[0] = 2
  · rw [if_neg (not_not.mpr hop)]
    obtain ⟨xid,hxid⟩ : ∃ xid, be32 p 4 = some xid := by
      unfold be32
      rw [slice4_some (by omega)]
      exact ⟨_,rfl⟩
    obtain ⟨cookie,hcookie⟩ : ∃ cookie, be32 p 236 = some cookie := by
      unfold be32
      rw [slice4_some (by omega)]
      exact ⟨_,rfl⟩
    rw [hxid,bind_some]
    by_cases hx : xid = g.xid
    · rw [if_neg (not_not.mpr hx),hcookie,bind_some]
      by_cases hc : cookie = 0x63825363
      · exact absurd ⟨hlen,by rw [getElem?_eq_getElem (by omega),hop],hx ▸ hxid,hc ▸ hcookie⟩ h
      · rw [if_pos hc]
        rfl
    · rw [if_pos hx]
      rfl
  · rw [if_pos hop]
    rfl

/-- Every state but the first one comes with addresses of four bytes. -/
def Sized (g : Globals) : Prop := g.state ≠ .init → g.offeredIp.length = 4 ∧ g.opts.serverId.length = 4

lemma dhcpRx_sized (g : Globals) (p : List UInt8) (hg : Sized g) : ∃ g', dhcpRx g p = some g' ∧ Sized g' ∧ g'.xid = g.xid := by
  by_cases h : Accepted g.xid p
  · obtain ⟨ip,o,-,hrx,hip,hserver⟩ := dhcpRx_accepted h
    exact ⟨_,hrx,fun _ => ⟨hip,hserver⟩,rfl⟩
  · exact ⟨g,dhcpRx_ignored h,hg,rfl⟩

lemma poll_sized (ps : List (List UInt8)) (g : Globals) (hg : Sized g) : ∃ g', poll ps g = some g' ∧ Sized g' ∧ g'.xid = g.xid := by
  induction ps generalizing g with
  | nil => exact ⟨g,rfl,hg,rfl⟩
  | cons p ps ih =>
    obtain ⟨g₁,hrx,hg₁,hx₁⟩ := dhcpRx_sized g p hg
    obtain ⟨g₂,hpoll,hg₂,hx₂⟩ := ih g₁ hg₁
    refine ⟨g₂,?_,hg₂,hx₂.trans hx₁⟩
    rw [poll,hrx]
    exact hpoll

lemma wait_sized (st : State) (arrive : ℕ → List (List UInt8)) (n i : ℕ) (g : Globals) (hg : Sized g) :
    ∃ g', wait st arrive n i g = some g' ∧ Sized g' ∧ g'.xid = g.xid := by
  induction n generalizing i g with
  | zero => exact ⟨g,rfl,hg,rfl⟩
  | succ n ih =>
    unfold wait
    split
    · split
      · obtain ⟨g₁,hpoll,hg₁,hx₁⟩ := poll_sized (arrive i) g hg
        obtain ⟨g₂,hwait,hg₂,hx₂⟩ := ih (i+1) g₁ hg₁
        rw [hpoll]
        exact ⟨g₂,hwait,hg₂,hx₂.trans hx₁⟩
      · exact ih (i+1) g hg
    · exact ⟨g,rfl,hg,rfl⟩

lemma requestPhase_some (e : Env) (g : Globals) : ∃ r, requestPhase e g = some r ∧ ∀ g' request, r = some (g',request) →
    g'.state = .offered ∧ g'.xid = e.xid ∧ g'.offeredIp.length = 4 ∧ g'.opts.serverId.length = 4 ∧
    request = buildBootp e.xid e.mac 3 (some (g'.offeredIp,g'.opts.serverId)) := by
  unfold requestPhase
  split
  · exact ⟨none,rfl,nofun⟩
  split
  · exact ⟨none,rfl,nofun⟩
  split
  · exact ⟨none,rfl,nofun⟩
  obtain ⟨g₁,hwait,hsized,hxid⟩ := wait_sized State.init e.offers (e.spinIters / 2) 0
    { g with state := .init, xid := e.xid, opts := { g.opts with haveSubnet := false, haveRouter := false } } fun h => absurd rfl h
  rw [hwait]
  dsimp only [bind_eq_bind,bind_some]
  by_cases hst : g₁.state = .offered
  · rw [if_neg (not_not.mpr hst)]
    split
    · exact ⟨none,rfl,nofun⟩
    · refine ⟨_,rfl,fun g' request heq => ?_⟩
      obtain ⟨rfl,rfl⟩ := Prod.mk.inj (some.inj heq)
      obtain ⟨hip,hserver⟩ := hsized (by rw [hst]; exact nofun)
      exact ⟨hst,hxid,hip,hserver,rfl⟩
  · rw [if_pos hst]
    exact ⟨none,rfl,nofun⟩

/-- The addresses that a REQUEST names. -/
def namedIp (request : List UInt8) : List UInt8 := (request.drop 245).take 4
def namedServer (request : List UInt8) : List UInt8 := (request.drop 251).take 4

variable {ip server : List UInt8}

lemma named_request (xid : ℕ) (mac : Vector UInt8 6) (hip : ip.length = 4) (hserver : server.length = 4) :
    namedIp (buildBootp xid mac 3 (some (ip,server))) = ip ∧ namedServer (buildBootp xid mac 3 (some (ip,server))) = server := by
  have hmac : mac.toList.length = 6 := Vector.length_toList
  unfold namedIp namedServer buildBootp
  generalize mac.toList = m at hmac
  match m,hmac,ip,hip,server,hserver with
  | [_,_,_,_,_,_],_,[_,_,_,_],_,[_,_,_,_],_ => exact ⟨rfl,rfl⟩

/-- The configuration is what stands in one ACK, with the assumptions for what it leaves out, and the ACK is of the address and the server that
the REQUEST names. -/
structure Leased (xid : ℕ) (request p : List UInt8) (net net' : Net) : Prop where
  accepted : Accepted xid p
  message : ∃ o, Says p net'.ip o ∧ o.msgType = 5 ∧ o.serverId = namedServer request ∧
    net'.msk = (if o.haveSubnet then o.msk else [255,255,255,0]) ∧ net'.gw = (if o.haveRouter then o.gw else net'.ip.take 3 ++ [1]) ∧
    net'.dns = if o.haveDns then o.dns else net.dns
  ip : net'.ip = namedIp request

/-- Where the call returns 0, it has installed the lease of one ACK among those that came behind the REQUEST. -/
def Consistent (e : Env) (g : Globals) (net : Net) : Prop :=
  ∀ request net', dhcpAcquire e g net = some (0,request,net') → ∃ i, ∃ p ∈ e.acks i, Leased e.xid request p net net'

/-- The ACKs of a poll are for what was asked, and nothing that `dhcp_rx` looks into comes behind one. -/
structure Clean (xid : ℕ) (ip server : List UInt8) (ps : List (List UInt8)) : Prop where
  names : ∀ p ∈ ps, Accepted xid p → ∀ a o, Says p a o → o.msgType = 5 → a = ip ∧ o.serverId = server
  last : ∀ pre p post, ps = pre ++ p :: post → Accepted xid p → (∀ a o, Says p a o → o.msgType = 5) → ∀ q ∈ post, ¬ Accepted xid q

/-- What the globals hold is what stands in the ACK `p`. -/
structure Holds (p ip server : List UInt8) (g : Globals) : Prop where
  accepted : Accepted g.xid p
  message : Says p g.offeredIp g.opts
  ack : g.opts.msgType = 5
  ip : g.offeredIp = ip
  server : g.opts.serverId = server

lemma Says.unique {p ip ip' : List UInt8} {o o' : Options} (h : Says p ip o) (h' : Says p ip' o') : ip = ip' ∧ o = o' :=
  ⟨some.inj (h.ip.symm.trans h'.ip),some.inj (h.opts.symm.trans h'.opts)⟩

variable {ps : List (List UInt8)}

lemma poll_ignored (h : ∀ q ∈ ps, ¬ Accepted g.xid q) : poll ps g = some g := by
  induction ps with
  | nil => rfl
  | cons p ps ih =>
    rw [poll,dhcpRx_ignored (h p mem_cons_self)]
    exact ih fun q hq => h q (mem_cons_of_mem p hq)

lemma Clean.tail {xid : ℕ} {ip server p : List UInt8} (h : Clean xid ip server (p :: ps)) : Clean xid ip server ps :=
  ⟨fun q hq => h.names q (mem_cons_of_mem p hq),fun pre q post heq => h.last (p :: pre) q post (congrArg _ heq)⟩

lemma poll_clean (hst : g.state = .offered) (h : Clean g.xid ip server ps) :
    ∃ g', poll ps g = some g' ∧ g'.xid = g.xid ∧ (g'.state = .offered ∨ ∃ p ∈ ps, Holds p ip server g') := by
  induction ps generalizing g with
  | nil => exact ⟨g,rfl,rfl,.inl hst⟩
  | cons p ps ih =>
    rw [poll]
    by_cases hacc : Accepted g.xid p
    · obtain ⟨a,o,hmsg,hrx,-⟩ := dhcpRx_accepted hacc
      rw [hrx]
      dsimp only [bind_eq_bind,bind_some]
      by_cases h5 : o.msgType = 5
      · have hack : ∀ a' o', Says p a' o' → o'.msgType = 5 := fun a' o' hs => (hmsg.unique hs).2 ▸ h5
        obtain ⟨hip,hserver⟩ := h.names p mem_cons_self hacc a o hmsg h5
        refine ⟨_,poll_ignored (g := ⟨nextState g.state o.msgType,g.xid,a,o⟩) (h.last [] p ps rfl hacc hack),rfl,
          .inr ⟨p,mem_cons_self,hacc,hmsg,h5,hip,hserver⟩⟩
      · have hnext : nextState g.state o.msgType = .offered := by
          unfold nextState
          rw [hst,if_neg h5]
          split <;> rfl
        obtain ⟨g',hpoll,hxid,hcase⟩ := @ih ⟨nextState g.state o.msgType,g.xid,a,o⟩ hnext h.tail
        exact ⟨g',hpoll,hxid,hcase.imp_right fun ⟨q,hq,hholds⟩ => ⟨q,mem_cons_of_mem p hq,hholds⟩⟩
    · rw [dhcpRx_ignored hacc]
      obtain ⟨g',hpoll,hxid,hcase⟩ := ih hst h.tail
      exact ⟨g',hpoll,hxid,hcase.imp_right fun ⟨q,hq,hholds⟩ => ⟨q,mem_cons_of_mem p hq,hholds⟩⟩

lemma wait_clean {arrive : ℕ → List (List UInt8)} (h : ∀ i, Clean g.xid ip server (arrive i))
    (hst : g.state = .offered) (n i : ℕ) : ∃ g', wait .offered arrive n i g = some g' ∧ g'.xid = g.xid ∧
      (g'.state = .offered ∨ ∃ j, ∃ p ∈ arrive j, Holds p ip server g') := by
  induction n generalizing i g with
  | zero => exact ⟨g,rfl,rfl,.inl hst⟩
  | succ n ih =>
    unfold wait
    rw [if_pos hst]
    split
    · obtain ⟨g₁,hpoll,hxid,hcase⟩ := poll_clean hst (h i)
      rw [hpoll]
      dsimp only [bind_eq_bind,bind_some]
      by_cases hst₁ : g₁.state = .offered
      · obtain ⟨g₂,hwait,hxid₂,hcase₂⟩ := ih (by rw [hxid]; exact h) hst₁ (i+1)
        exact ⟨g₂,hwait,hxid₂.trans hxid,hcase₂⟩
      · obtain ⟨p,hp,hholds⟩ := hcase.resolve_left hst₁
        refine ⟨g₁,?_,hxid,.inr ⟨i,p,hp,hholds⟩⟩
        cases n with
        | zero => rfl
        | succ n => exact if_neg hst₁
    · exact ih h hst (i+1)

/-- `parse_options` stays inside its buffer and ends, so does the whole exchange, and where every poll behind the REQUEST is clean the lease is
one ACK's. -/
theorem dhcpAcquire_consistent (e : Env) (g : Globals) (net : Net)
    (h : ∀ g' request, requestPhase e g = some (some (g',request)) → ∀ i, Clean e.xid g'.offeredIp g'.opts.serverId (e.acks i)) :
    (∀ opt, ∃ o, parseOptions opt = some o) ∧ (∃ r, dhcpAcquire e g net = some r) ∧ Consistent e g net := by
  have hne : (-1 : ℤ) ≠ 0 := by decide
  refine ⟨fun opt => (parseOptions_some opt).imp fun o ho => ho.1,?_⟩
  unfold Consistent dhcpAcquire
  obtain ⟨r,hphase,hr⟩ := requestPhase_some e g
  rw [hphase]
  dsimp only [bind_eq_bind,bind_some]
  rcases r with _ | ⟨g₁,request⟩
  · exact ⟨⟨_,rfl⟩,fun request net' hrun => absurd (congrArg Prod.fst (some.inj hrun)) hne⟩
  obtain ⟨hst,hxid,hip,hserver,hrequest⟩ := hr g₁ request rfl
  have hclean := h g₁ request hphase
  rw [← hxid] at hclean
  obtain ⟨g₂,hwait,hxid₂,hcase⟩ := wait_clean hclean hst (e.spinIters / 2) 0
  dsimp only
  rw [hwait,bind_some]
  by_cases hbound : g₂.state = .bound
  · rw [if_neg (not_not.mpr hbound)]
    split
    · exact ⟨⟨_,rfl⟩,fun request net' hrun => absurd (congrArg Prod.fst (some.inj hrun)) hne⟩
    · refine ⟨⟨_,rfl⟩,fun request' net' hrun => ?_⟩
      obtain ⟨rfl,rfl⟩ := Prod.mk.inj (Prod.mk.inj (some.inj hrun)).2
      obtain ⟨i,p,hp,hholds⟩ := hcase.resolve_left (by rw [hbound]; exact nofun)
      obtain ⟨hnameIp,hnameServer⟩ := named_request e.xid e.mac hip hserver
      rw [← hrequest] at hnameIp hnameServer
      refine ⟨i,p,hp,?_,⟨g₂.opts,hholds.message,hholds.ack,hholds.server.trans hnameServer.symm,rfl,rfl,rfl⟩,hholds.ip.trans hnameIp.symm⟩
      rw [← hxid,← hxid₂]
      exact hholds.accepted
  · rw [if_pos hbound]
    exact ⟨⟨_,rfl⟩,fun request net' hrun => absurd (congrArg Prod.fst (some.inj hrun)) hne⟩

/-- A reply of the server `server` for the address `ip`. -/
def reply (msgType : UInt8) (ip server : List UInt8) : List UInt8 :=
  [2,1,6,0,0,0,0,7] ++ replicate 8 0 ++ ip ++ replicate 216 0 ++ [0x63,0x82,0x53,0x63] ++ [53,1,msgType,54,4] ++ server ++ [255]

def firstIp : List UInt8 := [10,0,2,15]
def firstServer : List UInt8 := [10,0,2,2]
def secondIp : List UInt8 := [10,0,9,9]
def secondServer : List UInt8 := [10,0,9,1]

/-- An exchange with the first server, with `behind` in the poll of its ACK. -/
def exchange (behind : List (List UInt8)) : Env :=
  ⟨true,true,true,true,true,7,Vector.replicate 6 0,2,fun _ => [reply 2 firstIp firstServer],fun _ => reply 5 firstIp firstServer :: behind⟩

def idle : Globals := ⟨.init,0,zeroIp,.cleared⟩
def unset : Net := ⟨zeroIp,zeroIp,zeroIp,zeroIp⟩

def optionsOf (msgType : UInt8) (server : List UInt8) : Options := ⟨msgType,zeroIp,zeroIp,zeroIp,server,false,false,false⟩

set_option maxRecDepth 8000 in
lemma reply_message (msgType a b c d e f g h : UInt8) : Says (reply msgType [a,b,c,d] [e,f,g,h]) [a,b,c,d] (optionsOf msgType [e,f,g,h]) := by
  refine ⟨rfl,?_⟩
  have hbehind : (reply msgType [a,b,c,d] [e,f,g,h]).drop 240 = [53,1,msgType,54,4,e,f,g,h,255] := rfl
  rw [hbehind]
  rfl

set_option maxRecDepth 8000 in
lemma reply_accepted (msgType a b c d e f g h : UInt8) : Accepted 7 (reply msgType [a,b,c,d] [e,f,g,h]) :=
  ⟨Nat.le_of_ble_eq_true rfl,rfl,rfl,rfl⟩

lemma dhcpRx_reply (st : State) (ip : List UInt8) (o : Options) (msgType a b c d e f g h : UInt8) :
    dhcpRx ⟨st,7,ip,o⟩ (reply msgType [a,b,c,d] [e,f,g,h]) = some ⟨nextState st msgType,7,[a,b,c,d],optionsOf msgType [e,f,g,h]⟩ := by
  obtain ⟨ip',o',hmsg,hrx,-⟩ := @dhcpRx_accepted ⟨st,7,ip,o⟩ _ (reply_accepted msgType a b c d e f g h)
  obtain ⟨rfl,rfl⟩ := hmsg.unique (reply_message msgType a b c d e f g h)
  exact hrx

lemma exchange_request (behind : List (List UInt8)) : requestPhase (exchange behind) idle =
    some (some (⟨.offered,7,firstIp,optionsOf 2 firstServer⟩,buildBootp 7 (Vector.replicate 6 0) 3 (some (firstIp,firstServer)))) := by
  simp [requestPhase,exchange,idle,wait,poll,firstIp,firstServer,dhcpRx_reply,nextState,optionsOf]

lemma exchange_two : ∃ request, dhcpAcquire (exchange [reply 2 secondIp secondServer]) idle unset =
    some (0,request,⟨secondIp,[10,0,9,1],[255,255,255,0],zeroIp⟩) := by
  unfold dhcpAcquire
  rw [exchange_request]
  simp [exchange,wait,poll,firstIp,firstServer,secondIp,secondServer,dhcpRx_reply,nextState,optionsOf,install,unset]

theorem dhcpAcquire_one_server : Consistent (exchange []) idle unset :=
  (dhcpAcquire_consistent (exchange []) idle unset fun g' request hphase i => by
    rw [exchange_request] at hphase
    obtain ⟨rfl,-⟩ := Prod.mk.inj (some.inj (some.inj hphase))
    refine ⟨fun p hp _ a o hmsg _ => ?_,fun pre p post heq _ _ q hq => ?_⟩
    · obtain rfl := List.mem_singleton.mp hp
      obtain ⟨rfl,rfl⟩ := hmsg.unique (reply_message 5 10 0 2 15 10 0 2 2)
      exact ⟨rfl,rfl⟩
    · obtain ⟨-,-,rfl⟩ := List.append_eq_singleton_iff.mp heq.symm |>.resolve_right fun h => nomatch h.2
      exact nomatch hq).2.2

/-- The offer of a second server comes behind the ACK and is installed. -/
theorem dhcpAcquire_two_servers : ¬ Consistent (exchange [reply 2 secondIp secondServer]) idle unset := fun h => by
  obtain ⟨request,hrun⟩ := exchange_two
  obtain ⟨i,p,hp,hleased⟩ := h request _ hrun
  obtain ⟨o,hmsg,htype,-⟩ := hleased.message
  rcases List.mem_cons.mp hp with rfl | hp
  · exact absurd (hmsg.unique (reply_message 5 10 0 2 15 10 0 2 2)).1 (by decide)
  · obtain rfl := List.mem_singleton.mp hp
    rw [(hmsg.unique (reply_message 2 10 0 9 9 10 0 9 1)).2] at htype
    exact absurd htype (by decide)

end VibeOS.Dhcp

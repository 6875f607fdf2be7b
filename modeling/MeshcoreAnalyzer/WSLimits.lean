import MeshcoreAnalyzer.Addresses

namespace MeshcoreAnalyzer.WSLimits

open GoBytes Spaces Addresses

/-! cmd/server/ws_limits.go. Times are nanoseconds. -/

def wsUpgradeWindow : Int := 60000000000

def wsBucketIdleGC : Int := 10 * wsUpgradeWindow

inductive RejectReason
  | deny
  | rate
  | connCap
deriving DecidableEq

structure IPState where
  conns : Nat
  upgrades : List Int
  lastSeenAt : Int

/-- A limit of 0 is no limit. -/
structure Limiter where
  maxConnsPerIP : Nat
  upgradesPerMin : Nat
  trustedProxies : List IPNet
  denyNets : List IPNet
  state : Bytes → Option IPState := fun _ => none
  rejectedDeny : Nat := 0
  rejectedRate : Nat := 0
  rejectedConnCap : Nat := 0
  warnedIndistinct : Bool := false

/-- The address of the connection, and the first `X-Forwarded-For` header, if any. -/
structure Request where
  remoteAddr : Bytes
  forwardedFor : Bytes

def ipInAny : Option IP → List IPNet → Bool
  | none, _ => false
  | some ip, nets => nets.any fun n => n.contains ip

def firstHop (xff : Bytes) : Option IP := parseIP (trimSpace (xff.takeWhile (· != 0x2C)))

def peerOf (remoteAddr : Bytes) : Option IP := parseIP (trimSpace ((splitHost remoteAddr).getD remoteAddr))

def Limiter.clientIP (l : Limiter) (r : Request) : Option IP × Bool :=
  match peerOf r.remoteAddr with
  | none => (none, false)
  | some peer =>
      if ipInAny (some peer) l.trustedProxies then
        match if r.forwardedFor = [] then none else firstHop r.forwardedFor with
        | some fwd => (some fwd, true)
        | none => (some peer, true)
      else if peer.isLoopback || peer.isPrivate || peer.isLinkLocalUnicast then (some peer, false)
      else (some peer, true)

def Limiter.clientKey (l : Limiter) (r : Request) : Option Bytes :=
  match l.clientIP r with
  | (some ip, true) => some ip.string
  | _ => none

/-- What `allow` returns; `releases` says that the release function is no no-op. -/
structure Verdict where
  ok : Bool
  reason : Option RejectReason := none
  key : Bytes := []
  releases : Bool := false

def gcLocked (state : Bytes → Option IPState) (now : Int) : Bytes → Option IPState := fun k =>
  (state k).filter fun st => !(st.conns == 0 && wsBucketIdleGC < now - st.lastSeenAt)

def keepWindow (upgrades : List Int) (now : Int) : List Int := upgrades.filter fun t => now - wsUpgradeWindow < t

/-- The part of `allow` for a client that can be told apart. -/
def Limiter.charge (l : Limiter) (key : Bytes) (now : Int) : Limiter × Verdict :=
  let state := gcLocked l.state now
  let st := { (state key).getD { conns := 0, upgrades := [], lastSeenAt := 0 } with lastSeenAt := now }
  let st := if 0 < l.upgradesPerMin then { st with upgrades := keepWindow st.upgrades now } else st
  let l : Limiter := { l with state := Function.update state key (some st) }
  if 0 < l.upgradesPerMin ∧ l.upgradesPerMin ≤ st.upgrades.length then
    ({ l with rejectedRate := l.rejectedRate + 1 }, { ok := false, reason := some .rate, key })
  else if 0 < l.maxConnsPerIP ∧ l.maxConnsPerIP ≤ st.conns then
    ({ l with rejectedConnCap := l.rejectedConnCap + 1 }, { ok := false, reason := some .connCap, key })
  else
    let upgrades := if 0 < l.upgradesPerMin then st.upgrades ++ [now] else st.upgrades
    ({ l with state := Function.update l.state key (some { st with conns := st.conns + 1, upgrades }) },
      { ok := true, key, releases := true })

def noAddress : Bytes := [0x3C, 0x6E, 0x69, 0x6C, 0x3E]

def keyOf (ip : Option IP) : Bytes := (ip.map IP.string).getD noAddress

def Limiter.allow (l : Limiter) (r : Request) (now : Int) : Limiter × Verdict :=
  let (ip, distinct) := l.clientIP r
  if ipInAny ip l.denyNets then
    ({ l with rejectedDeny := l.rejectedDeny + 1 }, { ok := false, reason := some .deny, key := keyOf ip })
  else if l.maxConnsPerIP = 0 ∧ l.upgradesPerMin = 0 then (l, { ok := true })
  else if !distinct then ({ l with warnedIndistinct := true }, { ok := true })
  else l.charge (keyOf ip) now

/-- The release function of a grant, the first time it is called. -/
def Limiter.release (l : Limiter) (key : Bytes) (now : Int) : Limiter :=
  match l.state key with
  | some s =>
      if 0 < s.conns then
        { l with state := Function.update l.state key (some { s with conns := s.conns - 1, lastSeenAt := now }) }
      else l
  | none => l

def appended (supplied real : Bytes) : Bytes :=
  if supplied = [] then real else supplied ++ [0x2C, 0x20] ++ real

def named (supplied real : Bytes) : Option IP := firstHop (if supplied = [] then real else supplied)

/-- The two headers name one address; the proxy's own stands for one that cannot be read. -/
def SameName (peer : IP) (real supplied₁ supplied₂ : Bytes) : Prop :=
  match named supplied₁ real, named supplied₂ real with
  | some ip₁, some ip₂ => ip₁ = ip₂
  | some ip, none => ip = peer
  | none, some ip => ip = peer
  | none, none => True

instance (peer : IP) (real supplied₁ supplied₂ : Bytes) : Decidable (SameName peer real supplied₁ supplied₂) := by
  rw [SameName]
  split <;> infer_instance

theorem takeWhile_comma (entry rest : Bytes) :
    (entry ++ 0x2C :: rest).takeWhile (· != 0x2C) = entry.takeWhile (· != 0x2C) := by
  induction entry with
  | nil => rfl
  | cons c entry ih =>
      rw [List.cons_append, List.takeWhile_cons, List.takeWhile_cons, ih]

theorem firstHop_appended (supplied real : Bytes) : firstHop (appended supplied real) = named supplied real := by
  rw [appended, named]
  by_cases hsupplied : supplied = []
  · rw [if_pos hsupplied, if_pos hsupplied]
  · rw [if_neg hsupplied, if_neg hsupplied, firstHop, firstHop, List.append_assoc]
    exact congrArg (parseIP ∘ trimSpace) (takeWhile_comma supplied (0x20 :: real))

theorem clientIP_appended {l : Limiter} {remoteAddr : Bytes} {peer : IP} (hpeer : peerOf remoteAddr = some peer)
    (htrusted : ipInAny (some peer) l.trustedProxies = true) {supplied real : Bytes} (hreal : real ≠ []) :
    l.clientIP { remoteAddr, forwardedFor := appended supplied real } =
      (some ((named supplied real).getD peer), true) := by
  have hsome : appended supplied real ≠ [] := by
    rw [appended]
    split
    · exact hreal
    · simp
  rw [Limiter.clientIP, hpeer]
  dsimp only
  rw [if_pos htrusted, if_neg hsome, firstHop_appended]
  cases named supplied real with
  | none => rfl
  | some ip => rfl

/-- Whatever the client supplies, the limiter sees it under one address. -/
def Unchosen (l : Limiter) (remoteAddr real supplied₁ supplied₂ : Bytes) : Prop :=
  l.clientIP { remoteAddr, forwardedFor := appended supplied₁ real } =
      l.clientIP { remoteAddr, forwardedFor := appended supplied₂ real } ∧
    ∀ now, l.allow { remoteAddr, forwardedFor := appended supplied₁ real } now =
      l.allow { remoteAddr, forwardedFor := appended supplied₂ real } now

theorem unchosen_iff_sameName (l : Limiter) (remoteAddr : Bytes) (peer : IP) (hpeer : peerOf remoteAddr = some peer)
    (htrusted : ipInAny (some peer) l.trustedProxies = true) (client : IP) (supplied₁ supplied₂ : Bytes) :
    Unchosen l remoteAddr client.string supplied₁ supplied₂ ↔ SameName peer client.string supplied₁ supplied₂ := by
  have hclient : l.clientIP { remoteAddr, forwardedFor := appended supplied₁ client.string } =
        l.clientIP { remoteAddr, forwardedFor := appended supplied₂ client.string } ↔
      (named supplied₁ client.string).getD peer = (named supplied₂ client.string).getD peer := by
    rw [clientIP_appended hpeer htrusted client.string_ne_nil, clientIP_appended hpeer htrusted client.string_ne_nil,
      Prod.mk.injEq, Option.some.injEq, and_iff_left rfl]
  have hsame : SameName peer client.string supplied₁ supplied₂ ↔
      (named supplied₁ client.string).getD peer = (named supplied₂ client.string).getD peer := by
    rw [SameName]
    cases named supplied₁ client.string with
    | none =>
        cases named supplied₂ client.string with
        | none => exact iff_of_true trivial rfl
        | some ip => exact eq_comm
    | some ip =>
        cases named supplied₂ client.string with
        | none => exact Iff.rfl
        | some ip' => exact Iff.rfl
  rw [Unchosen, hclient, hsame, and_iff_left_iff_imp]
  intro heq now
  rw [Limiter.allow, Limiter.allow, hclient.mpr heq]

def behindProxy : Limiter where
  maxConnsPerIP := 5
  upgradesPerMin := 30
  trustedProxies := [{ ip := [10, 0, 0, 1], mask := [255, 255, 255, 255] }]
  denyNets := []

def proxyAddr : Bytes := [0x31, 0x30, 0x2E, 0x30, 0x2E, 0x30, 0x2E, 0x31, 0x3A, 0x38, 0x30]

def proxyIP : IP := ⟨v4InV6Prefix ++ [10, 0, 0, 1], rfl⟩

def client : IP := ⟨v4InV6Prefix ++ [203, 0, 113, 7], rfl⟩

def forged : Bytes := [0x31, 0x2E, 0x31, 0x2E, 0x31, 0x2E, 0x31]

/-- A client may as well send its own address. -/
theorem unchosen_iff_sameName_honest : Unchosen behindProxy proxyAddr client.string [] client.string :=
  (unchosen_iff_sameName behindProxy proxyAddr proxyIP (by decide) (by decide) client [] client.string).mpr
    (by decide)

theorem not_unchosen_forged : peerOf proxyAddr = some proxyIP ∧ ipInAny (some proxyIP) behindProxy.trustedProxies = true ∧
    ¬ Unchosen behindProxy proxyAddr client.string [] forged := by
  refine ⟨by decide, by decide, ?_⟩
  rintro ⟨hclient, -⟩
  have hdiffer : behindProxy.clientIP { remoteAddr := proxyAddr, forwardedFor := appended [] client.string } ≠
      behindProxy.clientIP { remoteAddr := proxyAddr, forwardedFor := appended forged client.string } := by
    decide
  exact hdiffer hclient

end MeshcoreAnalyzer.WSLimits

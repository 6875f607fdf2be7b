import MeshcoreAnalyzer.WSLimits
import Mathlib.Logic.Function.Basic

namespace MeshcoreAnalyzer.WSLimits

open GoBytes Addresses

def after (c : Int) (times : List Int) : List Int := times.filter fun t => decide (c < t)

theorem after_after {c d : Int} (h : c ≤ d) (times : List Int) : after d (after c times) = after d times := by
  rw [after, after, List.filter_filter]
  apply List.filter_congr
  intro t _
  rw [Bool.and_eq_left_iff_imp, decide_eq_true_iff, decide_eq_true_iff]
  exact lt_of_le_of_lt h

theorem after_append (c : Int) (times more : List Int) : after c (times ++ more) = after c times ++ after c more :=
  List.filter_append _ _

theorem after_eq_nil {c : Int} {times : List Int} (h : ∀ t ∈ times, t ≤ c) : after c times = [] := by
  rw [after, List.filter_eq_nil_iff]
  intro t ht
  rw [decide_eq_true_iff, not_lt]
  exact h t ht

theorem keepWindow_eq (times : List Int) (now : Int) : keepWindow times now = after (now - wsUpgradeWindow) times := rfl

/-- A connection that was let in; `noop` says that its release function does nothing. -/
structure Grant where
  request : Request
  key : Bytes
  time : Int
  noop : Bool
  released : Bool := false

/-- The limiter, and every grant it has given. -/
structure Server where
  limiter : Limiter
  grants : List Grant := []

inductive Event
  | allow (r : Request) (now : Int)
  | release (i : Nat) (now : Int)
  | gc (now : Int)

def Event.time : Event → Int
  | .allow _ now | .release _ now | .gc now => now

def Server.step (s : Server) : Event → Server
  | .allow r now =>
      let (limiter, v) := s.limiter.allow r now
      { limiter
        grants :=
          if v.ok then s.grants ++ [{ request := r, key := v.key, time := now, noop := !v.releases }] else s.grants }
  | .release i now =>
      match s.grants[i]? with
      | some g =>
          if g.released then s
          else
            { limiter := if g.noop then s.limiter else s.limiter.release g.key now
              grants := s.grants.set i { g with released := true } }
      | none => s
  | .gc now => { s with limiter := { s.limiter with state := gcLocked s.limiter.state now } }

def run (s : Server) (events : List Event) : Server := events.foldl Server.step s

def Grant.live (key : Bytes) (g : Grant) : Bool := decide (g.key = key) && !g.released

def live (grants : List Grant) (key : Bytes) : Nat := grants.countP (Grant.live key)

def times (grants : List Grant) (key : Bytes) : List Int := (grants.filter fun g => decide (g.key = key)).map Grant.time

def inWindow (grants : List Grant) (key : Bytes) (t : Int) : Nat :=
  (times grants key).countP fun u => decide (t - wsUpgradeWindow < u) && decide (u ≤ t)

def connsOf (st : Option IPState) : Nat := (st.map IPState.conns).getD 0

def upgradesOf (st : Option IPState) : List Int := (st.map IPState.upgrades).getD []

/-- The limits after a run, at any time that is not before its events. What is counted under an address is what its
client is granted. -/
structure Limits (C U : Nat) (s : Server) (now : Int) : Prop where
  granted : ∀ r ip, s.limiter.clientIP r = (some ip, true) → (s.limiter.allow r now).2.ok = true →
    (s.limiter.allow r now).2.key = ip.string ∧ (s.limiter.allow r now).2.releases = true
  counted : ∀ g ∈ s.grants, ∀ ip, s.limiter.clientIP g.request = (some ip, true) → g.key = ip.string ∧ g.noop = false
  conns : ∀ ip : IP, connsOf (s.limiter.state ip.string) = live s.grants ip.string
  cap : ∀ ip : IP, live s.grants ip.string ≤ C
  window : ∀ (ip : IP) (t : Int), inWindow s.grants ip.string t ≤ U
  rejected : ∀ r, (s.limiter.allow r now).2.ok = false → ∀ ip : IP,
    connsOf ((s.limiter.allow r now).1.state ip.string) = connsOf (s.limiter.state ip.string) ∧
      keepWindow (upgradesOf ((s.limiter.allow r now).1.state ip.string)) now =
        keepWindow (upgradesOf (s.limiter.state ip.string)) now
  refused : ∀ r, (s.limiter.allow r now).2.ok = false →
    ipInAny (s.limiter.clientIP r).1 s.limiter.denyNets = true ∨
      ∃ ip, s.limiter.clientIP r = (some ip, true) ∧
        (U ≤ inWindow s.grants ip.string now ∨ C ≤ live s.grants ip.string)
  collected : ∀ (ip : IP) (st : IPState), s.limiter.state ip.string = some st →
    gcLocked s.limiter.state now ip.string = none →
      live s.grants ip.string = 0 ∧ keepWindow st.upgrades now = [] ∧ inWindow s.grants ip.string now = 0

/-- What the record of a key says of its grants, at a time not before them. -/
structure Account (C U : Nat) (st : Option IPState) (grants : List Grant) (key : Bytes) (last : Int) : Prop where
  conns : connsOf st = live grants key
  cap : live grants key ≤ C
  window : ∀ t, inWindow grants key t ≤ U
  upgrades : ∀ c, last - wsUpgradeWindow ≤ c → after c (upgradesOf st) = after c (times grants key)
  seen : ∀ r, st = some r → r.lastSeenAt ≤ last ∧ ∀ t ∈ r.upgrades, t ≤ r.lastSeenAt
  past : ∀ t ∈ times grants key, t ≤ last
  counted : ∀ g ∈ grants, g.key = key → g.noop = false

variable {C U : Nat} {st : Option IPState} {grants : List Grant} {key : Bytes} {last now : Int}

theorem Account.mono (h : Account C U st grants key last) (hlast : last ≤ now) : Account C U st grants key now where
  conns := h.conns
  cap := h.cap
  window := h.window
  upgrades := fun c hc => h.upgrades c (by omega)
  seen := fun r hr => ⟨(h.seen r hr).1.trans hlast, (h.seen r hr).2⟩
  past := fun t ht => (h.past t ht).trans hlast
  counted := h.counted

theorem countP_window (h : ∀ t ∈ times grants key, t ≤ now) :
    inWindow grants key now = (after (now - wsUpgradeWindow) (times grants key)).length := by
  rw [inWindow, after, ← List.countP_eq_length_filter]
  apply List.countP_congr
  intro t ht
  rw [Bool.and_eq_true, decide_eq_true_iff, decide_eq_true_iff, and_iff_left (h t ht)]

theorem Account.dropped {r : IPState} (h : Account C U (some r) grants key last) (hlast : last ≤ now)
    (hidle : (r.conns == 0 && decide (wsBucketIdleGC < now - r.lastSeenAt)) = true) :
    live grants key = 0 ∧ ∀ c, now - wsUpgradeWindow ≤ c → after c r.upgrades = [] ∧ after c (times grants key) = [] := by
  rw [Bool.and_eq_true, beq_iff_eq, decide_eq_true_iff] at hidle
  refine ⟨h.conns.symm.trans hidle.1, fun c hc => ?_⟩
  have hnil : after c r.upgrades = [] := by
    apply after_eq_nil
    intro t ht
    have hseen := (h.seen r rfl).2 t ht
    have hgc := hidle.2
    simp only [wsBucketIdleGC, wsUpgradeWindow] at hgc hc
    omega
  exact ⟨hnil, (h.upgrades c (by omega)).symm.trans hnil⟩

theorem Account.gc {state : Bytes → Option IPState} (h : Account C U (state key) grants key last) (hlast : last ≤ now) :
    Account C U (gcLocked state now key) grants key now := by
  cases hst : state key with
  | none =>
      rw [gcLocked, hst]
      rw [hst] at h
      exact h.mono hlast
  | some r =>
      rw [hst] at h
      by_cases hidle : (r.conns == 0 && decide (wsBucketIdleGC < now - r.lastSeenAt)) = true
      · have hnone : gcLocked state now key = none := by
          rw [gcLocked, hst, Option.filter_some, hidle]
          rfl
        obtain ⟨hlive, hnil⟩ := h.dropped hlast hidle
        rw [hnone]
        exact {
          conns := hlive.symm
          cap := h.cap
          window := h.window
          upgrades := fun c hc => (hnil c hc).2.symm
          seen := fun r hr => by cases hr
          past := fun t ht => (h.past t ht).trans hlast
          counted := h.counted }
      · have hsome : gcLocked state now key = some r := by
          rw [Bool.not_eq_true] at hidle
          rw [gcLocked, hst, Option.filter_some, hidle]
          rfl
        rw [hsome]
        exact h.mono hlast

/-- What `charge` does to the record of its key, which stands for `none` where there is none. -/
inductive Charged (C U : Nat) (key : Bytes) (old : Option IPState) (now : Int) : Option IPState → Verdict → Prop
  | rate (reason : Option RejectReason) (h : U ≤ (keepWindow (upgradesOf old) now).length) :
      Charged C U key old now (some ⟨connsOf old, keepWindow (upgradesOf old) now, now⟩) ⟨false, reason, key, false⟩
  | connCap (reason : Option RejectReason) (h : C ≤ connsOf old) :
      Charged C U key old now (some ⟨connsOf old, keepWindow (upgradesOf old) now, now⟩) ⟨false, reason, key, false⟩
  | granted (hrate : (keepWindow (upgradesOf old) now).length < U) (hcap : connsOf old < C) :
      Charged C U key old now (some ⟨connsOf old + 1, keepWindow (upgradesOf old) now ++ [now], now⟩)
        ⟨true, none, key, true⟩

variable {l : Limiter}

def SameConfig (l l' : Limiter) : Prop :=
  l'.maxConnsPerIP = l.maxConnsPerIP ∧ l'.upgradesPerMin = l.upgradesPerMin ∧ l'.trustedProxies = l.trustedProxies ∧
    l'.denyNets = l.denyNets

theorem charge_spec (l : Limiter) (hC : 0 < l.maxConnsPerIP) (hU : 0 < l.upgradesPerMin) (key : Bytes) (now : Int) :
    SameConfig l (l.charge key now).1 ∧
      (∀ k, k ≠ key → (l.charge key now).1.state k = gcLocked l.state now k) ∧
      Charged l.maxConnsPerIP l.upgradesPerMin key (gcLocked l.state now key) now ((l.charge key now).1.state key)
        (l.charge key now).2 := by
  have hconns : ((gcLocked l.state now key).getD { conns := 0, upgrades := [], lastSeenAt := 0 }).conns =
      connsOf (gcLocked l.state now key) := by
    cases gcLocked l.state now key with
    | none => rfl
    | some r => rfl
  have hupgrades : ((gcLocked l.state now key).getD { conns := 0, upgrades := [], lastSeenAt := 0 }).upgrades =
      upgradesOf (gcLocked l.state now key) := by
    cases gcLocked l.state now key with
    | none => rfl
    | some r => rfl
  rw [Limiter.charge]
  dsimp only
  simp only [hC, hU, if_true, true_and, hconns, hupgrades]
  split
  · next hrate =>
    refine ⟨⟨rfl, rfl, rfl, rfl⟩, fun k hk => Function.update_of_ne hk _ _, ?_⟩
    dsimp only
    rw [Function.update_self]
    exact .rate _ hrate
  · next hrate =>
    split
    · next hcap =>
      refine ⟨⟨rfl, rfl, rfl, rfl⟩, fun k hk => Function.update_of_ne hk _ _, ?_⟩
      dsimp only
      rw [Function.update_self]
      exact .connCap _ hcap
    · next hcap =>
      refine ⟨⟨rfl, rfl, rfl, rfl⟩, fun k hk => ?_, ?_⟩
      · dsimp only
        rw [Function.update_of_ne hk, Function.update_of_ne hk]
      · dsimp only
        rw [Function.update_self]
        exact .granted (not_le.mp hrate) (not_le.mp hcap)

/-- A call is refused by the deny list, lets a client in that cannot be told apart, or is charged to an address. -/
inductive Allowed (l : Limiter) (r : Request) (now : Int) : Limiter × Verdict → Prop
  | denied (key : Bytes) (h : ipInAny (l.clientIP r).1 l.denyNets = true) :
      Allowed l r now ({ l with rejectedDeny := l.rejectedDeny + 1 }, ⟨false, some .deny, key, false⟩)
  | indistinct (h : (l.clientIP r).2 = false) :
      Allowed l r now ({ l with warnedIndistinct := true }, ⟨true, none, [], false⟩)
  | charged (ip : IP) (h : l.clientIP r = (some ip, true)) : Allowed l r now (l.charge ip.string now)

theorem clientIP_distinct {r : Request} (h : (l.clientIP r).2 = true) : ∃ ip, l.clientIP r = (some ip, true) := by
  rw [Limiter.clientIP] at h ⊢
  cases hpeer : peerOf r.remoteAddr with
  | none =>
      rw [hpeer] at h
      cases h
  | some peer =>
      rw [hpeer] at h
      dsimp only at h ⊢
      by_cases htrusted : ipInAny (some peer) l.trustedProxies = true
      · rw [if_pos htrusted]
        cases (if r.forwardedFor = [] then none else firstHop r.forwardedFor) with
        | none => exact ⟨peer, rfl⟩
        | some fwd => exact ⟨fwd, rfl⟩
      · rw [if_neg htrusted] at h ⊢
        by_cases hlocal : (peer.isLoopback || peer.isPrivate || peer.isLinkLocalUnicast) = true
        · rw [if_pos hlocal] at h
          cases h
        · exact ⟨peer, if_neg hlocal⟩

theorem allow_eq (l : Limiter) (r : Request) (now : Int) : l.allow r now =
    if ipInAny (l.clientIP r).1 l.denyNets then
      ({ l with rejectedDeny := l.rejectedDeny + 1 }, { ok := false, reason := some .deny, key := keyOf (l.clientIP r).1 })
    else if l.maxConnsPerIP = 0 ∧ l.upgradesPerMin = 0 then (l, { ok := true })
    else if !(l.clientIP r).2 then ({ l with warnedIndistinct := true }, { ok := true })
    else l.charge (keyOf (l.clientIP r).1) now := rfl

theorem allow_spec (hC : 0 < l.maxConnsPerIP) (r : Request) (now : Int) : Allowed l r now (l.allow r now) := by
  rw [allow_eq]
  by_cases hdeny : ipInAny (l.clientIP r).1 l.denyNets = true
  · rw [if_pos hdeny]
    exact .denied _ hdeny
  · rw [if_neg hdeny, if_neg (by omega)]
    cases hdistinct : (l.clientIP r).2 with
    | false => exact .indistinct hdistinct
    | true =>
        obtain ⟨ip, hip⟩ := clientIP_distinct hdistinct
        rw [hip]
        exact .charged ip hip

theorem live_append (grants more : List Grant) (key : Bytes) : live (grants ++ more) key = live grants key + live more key :=
  List.countP_append

theorem times_append (grants more : List Grant) (key : Bytes) :
    times (grants ++ more) key = times grants key ++ times more key := by
  rw [times, List.filter_append, List.map_append]
  rfl

theorem live_singleton (g : Grant) : live [g] key = if g.key = key ∧ g.released = false then 1 else 0 := by
  by_cases hkey : g.key = key <;> simp [live, Grant.live, hkey]

theorem times_singleton (g : Grant) : times [g] key = if g.key = key then [g.time] else [] := by
  by_cases hkey : g.key = key <;> simp [times, hkey]

theorem Account.other (h : Account C U st grants key last) {g : Grant} (hg : g.key ≠ key) :
    Account C U st (grants ++ [g]) key last := by
  have hlive : live (grants ++ [g]) key = live grants key := by
    rw [live_append, live_singleton, if_neg fun hboth => hg hboth.1, Nat.add_zero]
  have htimes : times (grants ++ [g]) key = times grants key := by
    rw [times_append, times_singleton, if_neg hg, List.append_nil]
  exact {
    conns := h.conns.trans hlive.symm
    cap := hlive ▸ h.cap
    window := fun t => by
      rw [inWindow, htimes]
      exact h.window t
    upgrades := fun c hc => by
      rw [htimes]
      exact h.upgrades c hc
    seen := h.seen
    past := htimes ▸ h.past
    counted := by
      intro g' hg' hkey
      rcases List.mem_append.mp hg' with hmem | hmem
      · exact h.counted g' hmem hkey
      · exact absurd (List.mem_singleton.mp hmem ▸ hkey) hg }

theorem Account.keepWindow_eq (h : Account C U st grants key now) :
    (keepWindow (upgradesOf st) now).length = inWindow grants key now := by
  rw [countP_window h.past, WSLimits.keepWindow_eq, h.upgrades _ le_rfl]

theorem Account.refused (h : Account C U st grants key now) :
    Account C U (some ⟨connsOf st, keepWindow (upgradesOf st) now, now⟩) grants key now where
  conns := h.conns
  cap := h.cap
  window := h.window
  upgrades := fun c hc => (after_after hc _).trans (h.upgrades c hc)
  seen := by
    rintro r ⟨rfl⟩
    refine ⟨le_rfl, fun t ht => h.past t ?_⟩
    have hmem : t ∈ after (now - wsUpgradeWindow) (times grants key) := h.upgrades _ le_rfl ▸ ht
    exact List.mem_of_mem_filter hmem
  past := h.past
  counted := h.counted

theorem Account.granted (h : Account C U st grants key now) (hrate : (keepWindow (upgradesOf st) now).length < U)
    (hcap : connsOf st < C) {g : Grant} (hkey : g.key = key) (htime : g.time = now) (hnoop : g.noop = false)
    (hreleased : g.released = false) :
    Account C U (some ⟨connsOf st + 1, keepWindow (upgradesOf st) now ++ [now], now⟩) (grants ++ [g]) key now := by
  have hlive : live (grants ++ [g]) key = live grants key + 1 := by
    rw [live_append, live_singleton, if_pos ⟨hkey, hreleased⟩]
  have htimes : times (grants ++ [g]) key = times grants key ++ [now] := by
    rw [times_append, times_singleton, if_pos hkey, htime]
  have hpast : ∀ t ∈ times (grants ++ [g]) key, t ≤ now := by
    rw [htimes]
    intro t ht
    rcases List.mem_append.mp ht with hmem | hmem
    · exact h.past t hmem
    · exact (List.mem_singleton.mp hmem).le
  refine ⟨?_, ?_, fun t => ?_, fun c hc => ?_, ?_, hpast, ?_⟩
  · rw [hlive, ← h.conns]
    rfl
  · rw [hlive, ← h.conns]
    exact hcap
  · by_cases ht : now ≤ t
    · have hle : inWindow (grants ++ [g]) key t ≤ inWindow (grants ++ [g]) key now := by
        apply List.countP_mono_left
        intro u hu hwindow
        rw [Bool.and_eq_true, decide_eq_true_iff, decide_eq_true_iff] at hwindow ⊢
        exact ⟨by omega, hpast u hu⟩
      have hnow : inWindow (grants ++ [g]) key now ≤ inWindow grants key now + 1 := by
        rw [inWindow, htimes, List.countP_append]
        exact Nat.add_le_add_left List.countP_le_length _
      rw [h.keepWindow_eq] at hrate
      omega
    · have hsame : inWindow (grants ++ [g]) key t = inWindow grants key t := by
        have hlate : (decide (t - wsUpgradeWindow < now) && decide (now ≤ t)) = false := by
          rw [decide_eq_false ht, Bool.and_false]
        rw [inWindow, htimes, List.countP_append, List.countP_singleton, hlate]
        rfl
      rw [hsame]
      exact h.window t
  · rw [htimes, after_append]
    change after c (keepWindow (upgradesOf st) now ++ [now]) = _
    rw [after_append, WSLimits.keepWindow_eq, after_after hc, h.upgrades c hc]
  · rintro r ⟨rfl⟩
    refine ⟨le_rfl, fun t ht => ?_⟩
    rcases List.mem_append.mp ht with hmem | hmem
    · exact (h.refused.seen _ rfl).2 t hmem
    · exact (List.mem_singleton.mp hmem).le
  · intro g' hg' hkey'
    rcases List.mem_append.mp hg' with hmem | hmem
    · exact h.counted g' hmem hkey'
    · rw [List.mem_singleton.mp hmem]
      exact hnoop

theorem times_release (pre post : List Grant) (g : Grant) (key : Bytes) :
    times (pre ++ { g with released := true } :: post) key = times (pre ++ g :: post) key := by
  rw [times, times, List.filter_append, List.filter_append, List.filter_cons, List.filter_cons]
  by_cases hkey : g.key = key <;> simp [hkey]

theorem counted_release {pre post : List Grant} {g : Grant} (h : ∀ g' ∈ pre ++ g :: post, g'.key = key → g'.noop = false) :
    ∀ g' ∈ pre ++ { g with released := true } :: post, g'.key = key → g'.noop = false := by
  intro g' hg' hkey
  rcases List.mem_append.mp hg' with hmem | hmem
  · exact h g' (List.mem_append_left _ hmem) hkey
  · rcases List.mem_cons.mp hmem with rfl | hmem
    · exact h g (List.mem_append_right _ List.mem_cons_self) hkey
    · exact h g' (List.mem_append_right _ (List.mem_cons_of_mem _ hmem)) hkey

theorem Account.released {pre post : List Grant} {g : Grant} {r : IPState}
    (h : Account C U (some r) (pre ++ g :: post) key last) (hlast : last ≤ now) (hkey : g.key = key)
    (hreleased : g.released = false) :
    0 < r.conns ∧ Account C U (some { r with conns := r.conns - 1, lastSeenAt := now })
      (pre ++ { g with released := true } :: post) key now := by
  have hlive : live (pre ++ g :: post) key = live (pre ++ { g with released := true } :: post) key + 1 := by
    rw [live, live, List.countP_append, List.countP_append, List.countP_cons, List.countP_cons]
    simp [Grant.live, hkey, hreleased]
    omega
  have hconns : r.conns = live (pre ++ { g with released := true } :: post) key + 1 := h.conns.trans hlive
  refine ⟨by omega, ?_⟩
  exact {
    conns := by
      change r.conns - 1 = _
      omega
    cap := by
      have hcap := h.cap
      omega
    window := fun t => by
      rw [inWindow, times_release]
      exact h.window t
    upgrades := fun c hc => by
      rw [times_release]
      exact h.upgrades c (by omega)
    seen := by
      rintro r' ⟨rfl⟩
      obtain ⟨hseen, hold⟩ := h.seen r rfl
      exact ⟨le_rfl, fun t ht => (hold t ht).trans (hseen.trans hlast)⟩
    past := fun t ht => (h.past t (times_release pre post g key ▸ ht)).trans hlast
    counted := counted_release h.counted }

theorem Account.skip {pre post : List Grant} {g : Grant} (h : Account C U st (pre ++ g :: post) key last)
    (hkey : g.key ≠ key) : Account C U st (pre ++ { g with released := true } :: post) key last := by
  have hlive : live (pre ++ { g with released := true } :: post) key = live (pre ++ g :: post) key := by
    rw [live, live, List.countP_append, List.countP_append, List.countP_cons, List.countP_cons]
    simp [Grant.live, hkey]
  exact {
    conns := h.conns.trans hlive.symm
    cap := hlive ▸ h.cap
    window := fun t => by
      rw [inWindow, times_release]
      exact h.window t
    upgrades := fun c hc => by
      rw [times_release]
      exact h.upgrades c hc
    seen := h.seen
    past := (times_release pre post g key).symm ▸ h.past
    counted := counted_release h.counted }

theorem release_config (l : Limiter) (key : Bytes) (now : Int) : SameConfig l (l.release key now) := by
  rw [Limiter.release]
  split
  · split <;> exact ⟨rfl, rfl, rfl, rfl⟩
  · exact ⟨rfl, rfl, rfl, rfl⟩

theorem release_other (l : Limiter) {k : Bytes} (hk : k ≠ key) (now : Int) : (l.release key now).state k = l.state k := by
  rw [Limiter.release]
  split
  · split
    · exact Function.update_of_ne hk _ _
    · rfl
  · rfl

theorem release_state {r : IPState} (hst : l.state key = some r) (hconns : 0 < r.conns) (now : Int) :
    (l.release key now).state key = some { r with conns := r.conns - 1, lastSeenAt := now } := by
  rw [Limiter.release, hst]
  dsimp only
  rw [if_pos hconns]
  exact Function.update_self _ _ _

theorem clientKey_of_clientIP {r : Request} {ip : IP} (h : l.clientIP r = (some ip, true)) :
    l.clientKey r = some ip.string := by
  rw [Limiter.clientKey, h]

theorem clientKey_of_indistinct {r : Request} (h : (l.clientIP r).2 = false) : l.clientKey r = none := by
  rw [Limiter.clientKey]
  split
  · next heq => simp [heq] at h
  · rfl

theorem clientKey_congr {l' : Limiter} (h : SameConfig l l') : l'.clientKey = l.clientKey := by
  funext r
  simp only [Limiter.clientKey, Limiter.clientIP, h.2.2.1]

def Keyed (l : Limiter) (g : Grant) : Prop := g.key = (l.clientKey g.request).getD []

theorem Keyed.key_eq {g : Grant} (h : Keyed l g) (ip : IP) :
    g.key = ip.string ↔ l.clientKey g.request = some ip.string := by
  rw [Keyed] at h
  rw [h]
  cases hkey : l.clientKey g.request with
  | none => simpa using ip.string_ne_nil.symm
  | some key => simp

/-- The accounts of every key that a limiter gives. -/
structure Inv (C U : Nat) (s : Server) (last : Int) : Prop where
  maxConns : s.limiter.maxConnsPerIP = C
  upgrades : s.limiter.upgradesPerMin = U
  account : ∀ key, key ≠ [] → Account C U (s.limiter.state key) s.grants key last
  keyed : ∀ g ∈ s.grants, Keyed s.limiter g

variable {s : Server}

theorem Inv.mono (h : Inv C U s last) (hlast : last ≤ now) : Inv C U s now where
  maxConns := h.maxConns
  upgrades := h.upgrades
  account := fun key hkey => (h.account key hkey).mono hlast
  keyed := h.keyed

theorem keyed_congr {l' : Limiter} (h : SameConfig l l') (hkeyed : ∀ g ∈ grants, Keyed l g) :
    ∀ g ∈ grants, Keyed l' g := by
  intro g hg
  rw [Keyed, clientKey_congr h]
  exact hkeyed g hg

theorem keyed_append (hkeyed : ∀ g ∈ grants, Keyed l g) {g : Grant} (hg : Keyed l g) :
    ∀ g' ∈ grants ++ [g], Keyed l g' := by
  intro g' hg'
  rcases List.mem_append.mp hg' with hmem | hmem
  · exact hkeyed g' hmem
  · exact List.mem_singleton.mp hmem ▸ hg

theorem keyed_set (hkeyed : ∀ g ∈ grants, Keyed l g) {i : Nat} {g : Grant} (hg : g ∈ grants) :
    ∀ g' ∈ grants.set i { g with released := true }, Keyed l g' := by
  intro g' hg'
  rcases List.mem_or_eq_of_mem_set hg' with hmem | rfl
  · exact hkeyed g' hmem
  · exact hkeyed g hg

theorem Inv.gc (h : Inv C U s last) (hlast : last ≤ now) : Inv C U (s.step (.gc now)) now where
  maxConns := h.maxConns
  upgrades := h.upgrades
  keyed := h.keyed
  account := fun key hkey => (h.account key hkey).gc hlast

theorem Inv.release (h : Inv C U s last) (hlast : last ≤ now) (i : Nat) : Inv C U (s.step (.release i now)) now := by
  have hsame : Inv C U s now := h.mono hlast
  rw [Server.step]
  cases hg : s.grants[i]? with
  | none => exact hsame
  | some g =>
      dsimp only
      by_cases hreleased : g.released = true
      · rw [if_pos hreleased]
        exact hsame
      · rw [if_neg hreleased]
        rw [Bool.not_eq_true] at hreleased
        obtain ⟨hi, rfl⟩ := List.getElem?_eq_some_iff.mp hg
        have hkeyed := keyed_set (i := i) h.keyed (List.getElem_mem hi)
        obtain ⟨pre, post, hgrants, -, hset⟩ : ∃ pre post, s.grants = pre ++ s.grants[i] :: post ∧ pre.length = i ∧
            s.grants.set i { s.grants[i] with released := true } = pre ++ { s.grants[i] with released := true } :: post :=
          List.exists_of_set hi
        rw [hset] at hkeyed ⊢
        by_cases hnoop : s.grants[i].noop = true
        · rw [if_pos hnoop]
          refine ⟨h.maxConns, h.upgrades, fun key hkey => ?_, hkeyed⟩
          have haccount := hsame.account key hkey
          have hother : s.grants[i].key ≠ key := by
            intro heq
            rw [haccount.counted _ (List.getElem_mem hi) heq] at hnoop
            cases hnoop
          rw [hgrants] at haccount
          exact haccount.skip hother
        · rw [if_neg hnoop]
          have hconfig := release_config s.limiter s.grants[i].key now
          refine ⟨hconfig.1.trans h.maxConns, hconfig.2.1.trans h.upgrades, fun key hkey => ?_,
            keyed_congr hconfig hkeyed⟩
          by_cases heq : s.grants[i].key = key
          · have haccount := h.account key hkey
            rw [hgrants] at haccount
            cases hst : s.limiter.state key with
            | none =>
                rw [hst] at haccount
                have hlive : 0 < live (pre ++ s.grants[i] :: post) key := by
                  apply List.countP_pos_iff.mpr
                  exact ⟨_, List.mem_append_right _ List.mem_cons_self, by simp [Grant.live, heq, hreleased]⟩
                exact absurd haccount.conns hlive.ne
            | some r =>
                rw [hst] at haccount
                obtain ⟨hconns, hreleased⟩ := haccount.released hlast heq hreleased
                dsimp only
                rw [heq, release_state hst hconns]
                exact heq ▸ hreleased
          · have haccount := hsame.account key hkey
            dsimp only
            rw [release_other _ (Ne.symm heq)]
            rw [hgrants] at haccount
            exact haccount.skip heq

theorem Inv.charge (h : Inv C U s last) (hC : 0 < C) (hU : 0 < U) (hlast : last ≤ now) {r : Request} {key : Bytes}
    (hkey : s.limiter.clientKey r = some key) :
    Inv C U { limiter := (s.limiter.charge key now).1
              grants := if (s.limiter.charge key now).2.ok then s.grants ++ [{ request := r
                                                                               key := (s.limiter.charge key now).2.key
                                                                               time := now
                                                                               noop := !(s.limiter.charge key now).2.releases }]
                        else s.grants } now := by
  have hmax := h.maxConns
  have hup := h.upgrades
  subst hmax hup
  obtain ⟨hconfig, hothers, hcharged⟩ := charge_spec s.limiter hC hU key now
  refine ⟨hconfig.1, hconfig.2.1, fun k hk => ?account, keyed_congr hconfig ?keyed⟩
  case keyed =>
    generalize (s.limiter.charge key now).1.state key = st at hcharged
    generalize (s.limiter.charge key now).2 = v at hcharged ⊢
    cases hcharged with
    | rate reason hrate => exact h.keyed
    | connCap reason hcap => exact h.keyed
    | granted hrate hcap =>
        apply keyed_append h.keyed
        rw [Keyed, hkey]
        rfl
  have hgc := (h.account k hk).gc hlast
  by_cases hsame : k = key
  · subst hsame
    dsimp only
    generalize (s.limiter.charge k now).1.state k = st at hcharged ⊢
    generalize (s.limiter.charge k now).2 = v at hcharged ⊢
    cases hcharged with
    | rate reason hrate => exact hgc.refused
    | connCap reason hcap => exact hgc.refused
    | granted hrate hcap => exact hgc.granted hrate hcap rfl rfl rfl rfl
  · dsimp only
    rw [hothers k hsame]
    generalize (s.limiter.charge key now).1.state key = st at hcharged
    generalize (s.limiter.charge key now).2 = v at hcharged ⊢
    cases hcharged with
    | rate reason hrate => exact hgc
    | connCap reason hcap => exact hgc
    | granted hrate hcap => exact hgc.other (Ne.symm hsame)

theorem Inv.allow (h : Inv C U s last) (hC : 0 < C) (hU : 0 < U) (hlast : last ≤ now) (r : Request) :
    Inv C U (s.step (.allow r now)) now := by
  have hspec := allow_spec (h.maxConns.symm ▸ hC) r now
  rw [Server.step]
  generalize s.limiter.allow r now = result at hspec ⊢
  cases hspec with
  | denied key hdeny => exact ⟨h.maxConns, h.upgrades, fun k hk => (h.account k hk).mono hlast, h.keyed⟩
  | indistinct hindistinct =>
      refine ⟨h.maxConns, h.upgrades, fun k hk => ((h.account k hk).mono hlast).other (Ne.symm hk), ?_⟩
      apply keyed_append (l := s.limiter) h.keyed
      rw [Keyed, clientKey_of_indistinct hindistinct]
      rfl
  | charged ip hip => exact h.charge hC hU hlast (clientKey_of_clientIP hip)

theorem Inv.run (hC : 0 < C) (hU : 0 < U) {events : List Event} (h : Inv C U s last)
    (hsorted : events.Pairwise fun e e' => e.time ≤ e'.time) (hfirst : ∀ e ∈ events, last ≤ e.time)
    (hnow : ∀ e ∈ events, e.time ≤ now) (hlast : last ≤ now) : Inv C U (run s events) now := by
  induction events generalizing s last with
  | nil => exact h.mono hlast
  | cons e events ih =>
      rw [List.pairwise_cons] at hsorted
      have hstep : Inv C U (s.step e) e.time := by
        have htime := hfirst e List.mem_cons_self
        cases e with
        | allow r t => exact h.allow hC hU htime r
        | release i t => exact h.release htime i
        | gc t => exact h.gc htime
      exact ih hstep hsorted.2 hsorted.1 (fun e' he' => hnow e' (List.mem_cons_of_mem _ he'))
        (hnow e List.mem_cons_self)

/-- `ConfigureLimits` -/
def Limiter.new (maxConnsPerIP upgradesPerMin : Nat) (trustedProxies denyNets : List IPNet) : Limiter :=
  { maxConnsPerIP, upgradesPerMin, trustedProxies, denyNets }

theorem Inv.new (C U : Nat) (trustedProxies denyNets : List IPNet) (last : Int) :
    Inv C U { limiter := Limiter.new C U trustedProxies denyNets } last where
  maxConns := rfl
  upgrades := rfl
  keyed := fun _ h => by cases h
  account := fun _ _ => {
    conns := rfl
    cap := Nat.zero_le _
    window := fun _ => Nat.zero_le _
    upgrades := fun _ _ => rfl
    seen := fun _ h => by cases h
    past := fun _ h => by cases h
    counted := fun _ h => by cases h }

theorem Inv.rejected (h : Inv C U s now) (hC : 0 < C) (hU : 0 < U) {r : Request}
    (hno : (s.limiter.allow r now).2.ok = false) (ip : IP) :
    connsOf ((s.limiter.allow r now).1.state ip.string) = connsOf (s.limiter.state ip.string) ∧
      keepWindow (upgradesOf ((s.limiter.allow r now).1.state ip.string)) now =
        keepWindow (upgradesOf (s.limiter.state ip.string)) now := by
  have hafter := (h.allow hC hU le_rfl r).account ip.string ip.string_ne_nil
  have hbefore := h.account ip.string ip.string_ne_nil
  have hgrants : (s.step (.allow r now)).grants = s.grants := by
    rw [Server.step]
    dsimp only
    rw [hno]
    rfl
  rw [hgrants] at hafter
  exact ⟨hafter.conns.trans hbefore.conns.symm, (hafter.upgrades _ le_rfl).trans (hbefore.upgrades _ le_rfl).symm⟩

theorem Inv.granted (h : Inv C U s now) (hC : 0 < C) (hU : 0 < U) {r : Request} {ip : IP}
    (hip : s.limiter.clientIP r = (some ip, true)) (hok : (s.limiter.allow r now).2.ok = true) :
    (s.limiter.allow r now).2.key = ip.string ∧ (s.limiter.allow r now).2.releases = true := by
  have hspec := allow_spec (h.maxConns.symm ▸ hC) r now
  generalize s.limiter.allow r now = result at hspec hok ⊢
  cases hspec with
  | denied key hdeny => cases hok
  | indistinct hindistinct =>
      rw [hip] at hindistinct
      cases hindistinct
  | charged ip' hip' =>
      obtain rfl : ip = ip' := Option.some.inj (Prod.mk.inj (hip.symm.trans hip')).1
      have hmax := h.maxConns
      have hup := h.upgrades
      subst hmax hup
      obtain ⟨-, -, hcharged⟩ := charge_spec s.limiter hC hU ip.string now
      generalize (s.limiter.charge ip.string now).1.state ip.string = st at hcharged
      generalize (s.limiter.charge ip.string now).2 = v at hcharged hok ⊢
      cases hcharged with
      | rate reason hrate => cases hok
      | connCap reason hcap => cases hok
      | granted hrate hcap => exact ⟨rfl, rfl⟩

theorem Inv.counted (h : Inv C U s now) {g : Grant} (hg : g ∈ s.grants) {ip : IP}
    (hip : s.limiter.clientIP g.request = (some ip, true)) : g.key = ip.string ∧ g.noop = false := by
  have hkey : g.key = ip.string := ((h.keyed g hg).key_eq ip).mpr (clientKey_of_clientIP hip)
  exact ⟨hkey, (h.account ip.string ip.string_ne_nil).counted g hg hkey⟩

theorem Inv.refused (h : Inv C U s now) (hC : 0 < C) (hU : 0 < U) {r : Request}
    (hno : (s.limiter.allow r now).2.ok = false) :
    ipInAny (s.limiter.clientIP r).1 s.limiter.denyNets = true ∨
      ∃ ip, s.limiter.clientIP r = (some ip, true) ∧
        (U ≤ inWindow s.grants ip.string now ∨ C ≤ live s.grants ip.string) := by
  have hspec := allow_spec (h.maxConns.symm ▸ hC) r now
  generalize s.limiter.allow r now = result at hspec hno
  cases hspec with
  | denied key hdeny => exact .inl hdeny
  | indistinct _ => cases hno
  | charged ip hip =>
      refine .inr ⟨ip, hip, ?_⟩
      have hmax := h.maxConns
      have hup := h.upgrades
      subst hmax hup
      obtain ⟨-, -, hcharged⟩ := charge_spec s.limiter hC hU ip.string now
      have hgc := (h.account ip.string ip.string_ne_nil).gc le_rfl
      generalize (s.limiter.charge ip.string now).1.state ip.string = st at hcharged
      generalize (s.limiter.charge ip.string now).2 = v at hcharged hno
      cases hcharged with
      | rate reason hrate => exact .inl (hgc.keepWindow_eq ▸ hrate)
      | connCap reason hcap => exact .inr (hgc.conns ▸ hcap)
      | granted hrate hcap => cases hno

theorem Inv.collected (h : Inv C U s now) (ip : IP) (st : IPState) (hst : s.limiter.state ip.string = some st)
    (hnone : gcLocked s.limiter.state now ip.string = none) :
    live s.grants ip.string = 0 ∧ keepWindow st.upgrades now = [] ∧ inWindow s.grants ip.string now = 0 := by
  have haccount := h.account ip.string ip.string_ne_nil
  rw [hst] at haccount
  have hidle : (st.conns == 0 && decide (wsBucketIdleGC < now - st.lastSeenAt)) = true := by
    rw [gcLocked, hst, Option.filter_some] at hnone
    by_contra hbusy
    rw [Bool.not_eq_true] at hbusy
    rw [hbusy] at hnone
    cases hnone
  obtain ⟨hlive, hnil⟩ := haccount.dropped le_rfl hidle
  refine ⟨hlive, (hnil _ le_rfl).1, ?_⟩
  rw [countP_window haccount.past, (hnil _ le_rfl).2]
  rfl

theorem limits_hold (C U : Nat) (hC : 0 < C) (hU : 0 < U) (trustedProxies denyNets : List IPNet) (events : List Event)
    (hsorted : events.Pairwise fun e e' => e.time ≤ e'.time) (now : Int) (hnow : ∀ e ∈ events, e.time ≤ now) :
    Limits C U (run { limiter := Limiter.new C U trustedProxies denyNets } events) now := by
  have hinv : Inv C U (run { limiter := Limiter.new C U trustedProxies denyNets } events) now := by
    cases events with
    | nil => exact Inv.new C U trustedProxies denyNets now
    | cons e events =>
        apply (Inv.new C U trustedProxies denyNets e.time).run hC hU hsorted ?_ hnow (hnow e List.mem_cons_self)
        intro e' he'
        rcases List.mem_cons.mp he' with rfl | hmem
        · exact le_rfl
        · exact (List.pairwise_cons.mp hsorted).1 e' hmem
  have haccount := fun ip : IP => hinv.account ip.string ip.string_ne_nil
  exact {
    granted := fun _ _ hip hok => hinv.granted hC hU hip hok
    counted := fun _ hg _ hip => hinv.counted hg hip
    conns := fun ip => (haccount ip).conns
    cap := fun ip => (haccount ip).cap
    window := fun ip => (haccount ip).window
    rejected := fun _ hno => hinv.rejected hC hU hno
    refused := fun _ hno => hinv.refused hC hU hno
    collected := hinv.collected }

def directAddr : Bytes := forged ++ [0x3A, 0x38, 0x30]

/-- One connection at a time: the second call is refused, and the third one is let in after the release. -/
theorem limits_hold_oneConnection :
    Limits 1 5 (run { limiter := Limiter.new 1 5 [] [] } [.allow ⟨directAddr, []⟩ 0, .allow ⟨directAddr, []⟩ 1,
      .release 0 2, .allow ⟨directAddr, []⟩ 3]) 3 :=
  limits_hold 1 5 Nat.one_pos (Nat.succ_pos 4) [] [] _ (by decide) 3 (by decide)

end MeshcoreAnalyzer.WSLimits

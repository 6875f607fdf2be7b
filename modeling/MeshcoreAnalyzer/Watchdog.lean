import MeshcoreAnalyzer.Alarms
import MeshcoreAnalyzer.GoBytes
import Mathlib.Logic.Relation

namespace MeshcoreAnalyzer.Watchdog

open GoBytes (Bytes)
open Alarms

/-- `time.Duration`, in nanoseconds -/
abbrev Duration := Int

def second : Duration := 10 ^ 9

def millisecond : Duration := 10 ^ 6

def livenessHeartbeatInterval : Duration := 3600 * second

def forceReconnectThrottle : Duration := 60 * second

def disconnectedReconnectMultiplier : Int := 5

inductive LivenessKind
  | ok | stalled | neverReceived | recovered | heartbeat | disconnected
deriving DecidableEq

/-- The fields of the source that the two handlers read and write; a stamp of 0 says never. -/
structure SourceLivenessState where
  tag : Bytes
  forceReconnectFn : Bool
  lastAlertUnix : Int
  lastForceReconnectUnix : Int
  disconnectedSinceUnix : Int
deriving DecidableEq

/-- A line that is emitted, with what its text is made of, or the call of `ForceReconnectFn`. -/
inductive Event
  | warn (msg : Bytes)
  | heartbeat (msg : Bytes)
  | recovered
  | escalation (gap escalateAt : Duration)
  | suppressing (ago : Duration)
  | forcing
  | reconnect
deriving DecidableEq

/-- `now.Sub(time.Unix(unix, 0))` at a whole second; it saturates. -/
def sub (now unix : Int) : Duration := max (-2 ^ 63) (min (2 ^ 63 - 1) ((now - unix) * second))

/-- `fnv.New32a` -/
def fnv32a (s : Bytes) : UInt32 := s.foldl (fun h c => (h ^^^ c.toUInt32) * 16777619) 2166136261

def disconnectedEscalationGap (tag : Bytes) (threshold : Duration) : Duration :=
  let base := disconnectedReconnectMultiplier * threshold
  if forceReconnectThrottle ≤ 0 then base.bmod (2 ^ 64)
  else
    let jitter := ((fnv32a tag).toNat : Int) % (forceReconnectThrottle / millisecond) * millisecond
    (base + jitter).bmod (2 ^ 64)

def Throttled (s : SourceLivenessState) (now : Int) : Prop :=
  s.lastForceReconnectUnix ≠ 0 ∧ sub now s.lastForceReconnectUnix < forceReconnectThrottle

instance (s : SourceLivenessState) (now : Int) : Decidable (Throttled s now) :=
  inferInstanceAs (Decidable (_ ∧ _))

/-- The goroutine that calls `ForceReconnectFn` logs once more when the call is back; that line is left out. -/
def maybeForceReconnect (s : SourceLivenessState) (now : Int) : SourceLivenessState × List Event :=
  if s.forceReconnectFn = false then (s, [])
  else if Throttled s now then (s, [.suppressing (sub now s.lastForceReconnectUnix)])
  else ({ s with lastForceReconnectUnix := now }, [.forcing, .reconnect])

def maybeEscalateDisconnected (s : SourceLivenessState) (kind : LivenessKind) (threshold : Duration) (now : Int) :
    SourceLivenessState × List Event :=
  if kind ≠ .disconnected then ({ s with disconnectedSinceUnix := 0 }, [])
  else if s.disconnectedSinceUnix = 0 then ({ s with disconnectedSinceUnix := now }, [])
  else
    let gap := sub now s.disconnectedSinceUnix
    let escalateAt := disconnectedEscalationGap s.tag threshold
    if gap < escalateAt then (s, [])
    else if Throttled s now then (s, [])
    else
      let (s', es) := maybeForceReconnect s now
      (s', .escalation gap escalateAt :: es)

def alert (s : SourceLivenessState) (kind : LivenessKind) (e : Event) (now : Int) :
    SourceLivenessState × List Event :=
  let s := { s with lastAlertUnix := now }
  if kind = .stalled then
    let (s', es) := maybeForceReconnect s now
    (s', e :: es)
  else (s, [e])

def processLivenessTransition (s : SourceLivenessState) (kind : LivenessKind) (msg : Bytes) (now : Int) :
    SourceLivenessState × List Event :=
  match kind with
  | .stalled | .neverReceived =>
      if s.lastAlertUnix = 0 then alert s kind (.warn msg) now
      else if livenessHeartbeatInterval ≤ sub now s.lastAlertUnix then alert s kind (.heartbeat msg) now
      else (s, [])
  | .ok =>
      if s.lastAlertUnix ≠ 0 then ({ s with lastAlertUnix := 0 }, [.recovered]) else (s, [])
  | .disconnected | .recovered | .heartbeat => (s, [])

/-- One tick of the loop, with the verdict of `checkSourceLiveness`. -/
structure Tick where
  now : Int
  kind : LivenessKind
  msg : Bytes

variable (threshold : Duration)

def tick (s : SourceLivenessState) (t : Tick) : SourceLivenessState × List Event :=
  let (s, es) := maybeEscalateDisconnected s t.kind threshold t.now
  let (s, es') := processLivenessTransition s t.kind t.msg t.now
  (s, es ++ es')

def registered (tag : Bytes) : SourceLivenessState := ⟨tag, true, 0, 0, 0⟩

def after (tag : Bytes) (ticks : List Tick) : SourceLivenessState :=
  ticks.foldl (fun s t => (tick threshold s t).1) (registered tag)

def emitted (tag : Bytes) (before : List Tick) (t : Tick) : List Event :=
  (tick threshold (after threshold tag before) t).2

def stamp (now : Int) (es : List Event) : Log Event := es.map fun e => (now, e)

def logFrom : SourceLivenessState → List Tick → Log Event
  | _, [] => []
  | s, t :: ts => stamp t.now (tick threshold s t).2 ++ logFrom (tick threshold s t).1 ts

def log (tag : Bytes) (ticks : List Tick) : Log Event := logFrom threshold (registered tag) ticks

def Event.isWarn : Event → Bool
  | .warn _ => true
  | _ => false

def Event.isAlert : Event → Bool
  | .warn _ | .heartbeat _ => true
  | _ => false

def Event.Warn (e : Event) : Prop := e.isWarn = true

def Event.Alert (e : Event) : Prop := e.isAlert = true

def Event.Reconnect (e : Event) : Prop := e = .reconnect

def Event.Recovered (e : Event) : Prop := e = .recovered

def Event.Never (_ : Event) : Prop := False

instance : DecidablePred Event.Alert := fun e => inferInstanceAs (Decidable (e.isAlert = true))

instance : DecidablePred Event.Reconnect := fun e => inferInstanceAs (Decidable (e = .reconnect))

instance : DecidablePred Event.Recovered := fun e => inferInstanceAs (Decidable (e = .recovered))

instance : DecidablePred Event.Never := fun _ => inferInstanceAs (Decidable False)

def Event.Silent (e : Event) : Prop := ¬ e.Alert ∧ ¬ e.Recovered ∧ ¬ e.Reconnect

theorem Event.Warn.alert {e : Event} (h : e.Warn) : e.Alert := by
  cases e with
  | warn msg => rfl
  | _ => exact absurd h Bool.false_ne_true

theorem Event.silent_suppressing (ago : Duration) : (Event.suppressing ago).Silent :=
  ⟨Bool.false_ne_true, Event.noConfusion, Event.noConfusion⟩

theorem Event.silent_escalation (gap escalateAt : Duration) : (Event.escalation gap escalateAt).Silent :=
  ⟨Bool.false_ne_true, Event.noConfusion, Event.noConfusion⟩

theorem Event.silent_forcing : Event.forcing.Silent :=
  ⟨Bool.false_ne_true, Event.noConfusion, Event.noConfusion⟩

inductive Move (now : Int) : SourceLivenessState × Log Event → SourceLivenessState × Log Event → Prop
  | silent {s l e} (h : e.Silent) : Move now (s, l) (s, l ++ [(now, e)])
  | since {s l} (unix : Int) : Move now (s, l) ({ s with disconnectedSinceUnix := unix }, l)
  | warn {s l} (msg : Bytes) (h : s.lastAlertUnix = 0) :
      Move now (s, l) ({ s with lastAlertUnix := now }, l ++ [(now, .warn msg)])
  | heartbeat {s l} (msg : Bytes) (h : livenessHeartbeatInterval ≤ sub now s.lastAlertUnix) :
      Move now (s, l) ({ s with lastAlertUnix := now }, l ++ [(now, .heartbeat msg)])
  | recovered {s l} : Move now (s, l) ({ s with lastAlertUnix := 0 }, l ++ [(now, .recovered)])
  | reconnect {s l} (h : ¬ Throttled s now) :
      Move now (s, l) ({ s with lastForceReconnectUnix := now }, l ++ [(now, .reconnect)])

def Moves (now : Int) := Relation.ReflTransGen (Move now)

section Moves

variable {s : SourceLivenessState} {now : Int}

def Follows (now : Int) (s : SourceLivenessState) (r : SourceLivenessState × List Event) : Prop :=
  ∀ l, Moves now (s, l) (r.1, l ++ stamp now r.2)

theorem Follows.rfl : Follows now s (s, []) := fun l => by
  rw [stamp, List.map_nil, List.append_nil]
  exact .refl

theorem Follows.cons {s₁ s₂ : SourceLivenessState} {e : Event} {es : List Event}
    (h : ∀ l, Move now (s, l) (s₁, l ++ [(now, e)])) (hs : Follows now s₁ (s₂, es)) :
    Follows now s (s₂, e :: es) := fun l => by
  have hrest := hs (l ++ [(now, e)])
  rw [List.append_assoc] at hrest
  exact .head (h l) hrest

theorem Follows.append {s₁ s₂ : SourceLivenessState} {es es' : List Event}
    (h : Follows now s (s₁, es)) (hs : Follows now s₁ (s₂, es')) : Follows now s (s₂, es ++ es') := fun l => by
  have hrest := hs (l ++ stamp now es)
  rw [List.append_assoc, stamp, stamp, ← List.map_append] at hrest
  exact (h l).trans hrest

theorem follows_maybeForceReconnect (s : SourceLivenessState) (now : Int) :
    Follows now s (maybeForceReconnect s now) := by
  rw [maybeForceReconnect]
  split_ifs with hwired hthrottled
  · exact .rfl
  · exact .cons (fun l => .silent (Event.silent_suppressing _)) .rfl
  · apply Follows.cons (fun l => .silent Event.silent_forcing)
    exact .cons (fun l => .reconnect hthrottled) .rfl

theorem follows_maybeEscalateDisconnected (s : SourceLivenessState) (kind : LivenessKind) (threshold : Duration)
    (now : Int) : Follows now s (maybeEscalateDisconnected s kind threshold now) := by
  have hsince : ∀ unix, Follows now s ({ s with disconnectedSinceUnix := unix }, []) := fun unix l => by
    rw [stamp, List.map_nil, List.append_nil]
    exact .single (.since unix)
  rw [maybeEscalateDisconnected]
  dsimp only
  split_ifs with hkind hfirst hgap hthrottled
  · exact hsince 0
  · exact hsince now
  · exact .rfl
  · exact .rfl
  · exact .cons (fun l => .silent (Event.silent_escalation _ _)) (follows_maybeForceReconnect s now)

theorem follows_alert {kind : LivenessKind} {e : Event}
    (h : ∀ l, Move now (s, l) ({ s with lastAlertUnix := now }, l ++ [(now, e)])) :
    Follows now s (alert s kind e now) := by
  rw [alert]
  split_ifs with hkind
  · exact .cons h (follows_maybeForceReconnect _ now)
  · exact .cons h .rfl

theorem follows_processLivenessTransition (s : SourceLivenessState) (kind : LivenessKind) (msg : Bytes) (now : Int) :
    Follows now s (processLivenessTransition s kind msg now) := by
  have halarm : ∀ k, Follows now s (if s.lastAlertUnix = 0 then alert s k (.warn msg) now
      else if livenessHeartbeatInterval ≤ sub now s.lastAlertUnix then alert s k (.heartbeat msg) now
      else (s, [])) := by
    intro k
    split_ifs with hfirst hdue
    · exact follows_alert fun l => .warn msg hfirst
    · exact follows_alert fun l => .heartbeat msg hdue
    · exact .rfl
  cases kind with
  | stalled => exact halarm .stalled
  | neverReceived => exact halarm .neverReceived
  | ok =>
      rw [processLivenessTransition]
      split_ifs with hquiet
      · exact .cons (fun l => .recovered) .rfl
      · exact .rfl
  | disconnected | recovered | heartbeat => exact .rfl

theorem follows_tick (threshold : Duration) (s : SourceLivenessState) (t : Tick) :
    Follows t.now s (tick threshold s t) :=
  (follows_maybeEscalateDisconnected s t.kind threshold t.now).append
    (follows_processLivenessTransition _ t.kind t.msg t.now)

end Moves

/-- The two stamps of the source are what its log says, and the log is as it should be. -/
structure Kept (s : SourceLivenessState) (l : Log Event) : Prop where
  ordered : Ordered l
  epoch : ∀ x ∈ l, x.1 ≠ 0
  alerted : s.lastAlertUnix = (register Event.Alert Event.Recovered l).getD 0
  forced : s.lastForceReconnectUnix = (register Event.Reconnect Event.Never l).getD 0
  alerts : Spaced Event.Alert Event.Recovered (livenessHeartbeatInterval / second) l
  warns : Separated Event.Warn Event.Recovered l
  reconnects : Spaced Event.Reconnect Event.Never (forceReconnectThrottle / second) l

section Kept

variable {s s' : SourceLivenessState} {l l' : Log Event} {now : Int} {e : Event}

theorem le_of_le_sub {d unix : Int} (h : d * second ≤ sub now unix) (hd : 0 ≤ d) : d ≤ now - unix := by
  have hbound : sub now unix =
      max (-9223372036854775808 : Int) (min 9223372036854775807 ((now - unix) * 1000000000)) := rfl
  have hgap : d * 1000000000 ≤ sub now unix := h
  rw [hbound] at hgap
  omega

theorem Kept.held {t : Int} {alarm reset : Event → Prop} [DecidablePred alarm] [DecidablePred reset] (h : Kept s l)
    (ht : register alarm reset l = some t) : t ≠ 0 := by
  obtain ⟨x, hx, rfl⟩ := mem_of_held ht
  exact h.epoch x hx

theorem Kept.due {alarm reset : Event → Prop} [DecidablePred alarm] [DecidablePred reset] {unix d : Int}
    (h : Kept s l) (hunix : unix = (register alarm reset l).getD 0) (hd : 0 ≤ d)
    (hdue : unix = 0 ∨ d * second ≤ sub now unix) {t : Int} (ht : register alarm reset l = some t) : d ≤ now - t := by
  rw [ht, Option.getD_some] at hunix
  subst hunix
  rcases hdue with hzero | hdue
  · exact absurd hzero (h.held ht)
  · exact le_of_le_sub hdue hd

theorem register_alert {alarm reset : Event → Prop} [DecidablePred alarm] [DecidablePred reset] (h : alarm e) :
    register alarm reset (l ++ [(now, e)]) = some now :=
  register_concat.trans (note_alarm h)

theorem register_silent {alarm reset : Event → Prop} [DecidablePred alarm] [DecidablePred reset] (h : ¬ alarm e)
    (hreset : ¬ reset e) : register alarm reset (l ++ [(now, e)]) = register alarm reset l :=
  register_concat.trans (note_silent h hreset)

theorem register_reset {alarm reset : Event → Prop} [DecidablePred alarm] [DecidablePred reset] (h : ¬ alarm e)
    (hreset : reset e) : register alarm reset (l ++ [(now, e)]) = none :=
  register_concat.trans (note_reset h hreset)

theorem Kept.concat (h : Kept s l) (hnow : now ≠ 0) (hle : ∀ x ∈ l, x.1 ≤ now)
    (halerted : s'.lastAlertUnix = (register Event.Alert Event.Recovered (l ++ [(now, e)])).getD 0)
    (hforced : s'.lastForceReconnectUnix = (register Event.Reconnect Event.Never (l ++ [(now, e)])).getD 0)
    (halert : e.Alert → s.lastAlertUnix = 0 ∨ livenessHeartbeatInterval ≤ sub now s.lastAlertUnix)
    (hwarn : e.Warn → s.lastAlertUnix = 0) (hreconnect : e.Reconnect → ¬ Throttled s now) :
    Kept s' (l ++ [(now, e)]) where
  ordered := h.ordered.concat hle
  epoch x hx := by
    rcases List.mem_append.mp hx with hx | hx
    · exact h.epoch x hx
    · rw [List.mem_singleton.mp hx]
      exact hnow
  alerted := halerted
  forced := hforced
  alerts := h.alerts.concat h.ordered fun he t ht => h.due h.alerted (by decide) (halert he) ht
  warns := h.warns.concat h.ordered (fun x hx => hx.alert) fun he => by
    have hzero := hwarn he
    cases hheld : register Event.Alert Event.Recovered l with
    | none => rfl
    | some t =>
        rw [h.alerted, hheld] at hzero
        exact absurd hzero (h.held hheld)
  reconnects := h.reconnects.concat h.ordered fun he t ht => by
    have hopen := hreconnect he
    rw [Throttled, not_and_or, not_not, not_lt] at hopen
    exact h.due h.forced (by decide) hopen ht

theorem Move.le (h : Move now (s, l) (s', l')) (hle : ∀ x ∈ l, x.1 ≤ now) : ∀ x ∈ l', x.1 ≤ now := by
  have hconcat : ∀ e : Event, ∀ x ∈ l ++ [(now, e)], x.1 ≤ now := fun e x hx => by
    rcases List.mem_append.mp hx with hx | hx
    · exact hle x hx
    · rw [List.mem_singleton.mp hx]
  cases h with
  | since unix => exact hle
  | silent h => exact hconcat _
  | warn msg h => exact hconcat _
  | heartbeat msg h => exact hconcat _
  | recovered => exact hconcat _
  | reconnect h => exact hconcat _

theorem Move.kept (hmove : Move now (s, l) (s', l')) (h : Kept s l) (hnow : now ≠ 0) (hle : ∀ x ∈ l, x.1 ≤ now) :
    Kept s' l' := by
  cases hmove with
  | since unix => exact ⟨h.ordered, h.epoch, h.alerted, h.forced, h.alerts, h.warns, h.reconnects⟩
  | silent hsilent =>
      obtain ⟨halert, hrecovered, hreconnect⟩ := hsilent
      apply h.concat hnow hle
      · rw [register_silent halert hrecovered, h.alerted]
      · rw [register_silent hreconnect id, h.forced]
      · exact fun he => absurd he halert
      · exact fun he => absurd he.alert halert
      · exact fun he => absurd he hreconnect
  | warn msg hfirst =>
      have halert : (Event.warn msg).Alert := rfl
      apply h.concat hnow hle
      · rw [register_alert halert]
        rfl
      · rw [register_silent Event.noConfusion id, h.forced]
      · exact fun _ => .inl hfirst
      · exact fun _ => hfirst
      · exact fun he => Event.noConfusion he
  | heartbeat msg hdue =>
      have halert : (Event.heartbeat msg).Alert := rfl
      apply h.concat hnow hle
      · rw [register_alert halert]
        rfl
      · rw [register_silent Event.noConfusion id, h.forced]
      · exact fun _ => .inr hdue
      · exact fun he => absurd he Bool.false_ne_true
      · exact fun he => Event.noConfusion he
  | recovered =>
      have hsilent : ¬ Event.recovered.Alert := Bool.false_ne_true
      have hreset : Event.recovered.Recovered := rfl
      apply h.concat hnow hle
      · rw [register_reset hsilent hreset]
        rfl
      · rw [register_silent Event.noConfusion id, h.forced]
      · exact fun he => absurd he Bool.false_ne_true
      · exact fun he => absurd he Bool.false_ne_true
      · exact fun he => Event.noConfusion he
  | reconnect hopen =>
      have hreconnect : Event.reconnect.Reconnect := rfl
      apply h.concat hnow hle
      · rw [register_silent Bool.false_ne_true Event.noConfusion, h.alerted]
      · rw [register_alert hreconnect]
        rfl
      · exact fun he => absurd he Bool.false_ne_true
      · exact fun he => absurd he Bool.false_ne_true
      · exact fun _ => hopen

theorem Moves.kept {p q : SourceLivenessState × Log Event} (hmoves : Moves now p q) (h : Kept p.1 p.2) (hnow : now ≠ 0)
    (hle : ∀ x ∈ p.2, x.1 ≤ now) : Kept q.1 q.2 ∧ ∀ x ∈ q.2, x.1 ≤ now := by
  induction hmoves with
  | refl => exact ⟨h, hle⟩
  | tail _ hmove ih => exact ⟨hmove.kept ih.1 hnow ih.2, hmove.le ih.2⟩

end Kept

section Runs

variable {threshold : Duration} {tag : Bytes} {ticks before : List Tick} {t : Tick}

theorem after_concat : after threshold tag (before ++ [t]) = (tick threshold (after threshold tag before) t).1 :=
  List.foldl_concat _ _ _ _

theorem logFrom_concat (s : SourceLivenessState) : logFrom threshold s (before ++ [t]) = logFrom threshold s before ++
    stamp t.now (tick threshold (before.foldl (fun s t => (tick threshold s t).1) s) t).2 := by
  induction before generalizing s with
  | nil => exact List.append_nil _
  | cons u before ih =>
      rw [List.cons_append, logFrom, ih, logFrom, List.append_assoc]
      rfl

theorem log_concat : log threshold tag (before ++ [t]) =
    log threshold tag before ++ stamp t.now (emitted threshold tag before t) := logFrom_concat _

theorem kept_registered (tag : Bytes) : Kept (registered tag) [] where
  ordered := List.Pairwise.nil
  epoch _ hx := absurd hx List.not_mem_nil
  alerted := rfl
  forced := rfl
  alerts pre _ _ _ _ h := absurd h.symm (by simp)
  warns pre _ _ _ _ h := absurd h.symm (by simp)
  reconnects pre _ _ _ _ h := absurd h.symm (by simp)

theorem kept_run (hordered : ticks.Pairwise fun a b => a.now ≤ b.now) (hepoch : ∀ t ∈ ticks, t.now ≠ 0) :
    Kept (after threshold tag ticks) (log threshold tag ticks) ∧
      ∀ x ∈ log threshold tag ticks, ∃ t ∈ ticks, x.1 ≤ t.now := by
  induction ticks using List.reverseRecOn with
  | nil => exact ⟨kept_registered tag, fun x hx => absurd hx List.not_mem_nil⟩
  | append_singleton before t ih =>
      have hpre := List.pairwise_append.mp hordered
      obtain ⟨hkept, hle⟩ := ih hpre.1 fun u hu => hepoch u (List.mem_append_left _ hu)
      have hlast : t ∈ before ++ [t] := List.mem_append_right _ (List.mem_singleton_self t)
      have hmoves := follows_tick threshold (after threshold tag before) t (log threshold tag before)
      have hbound : ∀ x ∈ log threshold tag before, x.1 ≤ t.now := fun x hx => by
        obtain ⟨u, hu, hxu⟩ := hle x hx
        exact hxu.trans (hpre.2.2 u hu t (List.mem_singleton_self t))
      obtain ⟨hnext, hstamps⟩ := Moves.kept hmoves hkept (hepoch t hlast) hbound
      rw [after_concat, log_concat]
      exact ⟨hnext, fun x hx => ⟨t, hlast, hstamps x hx⟩⟩

end Runs

def Event.Aside (e : Event) : Prop := ¬ e.Alert ∧ ¬ e.Recovered

section Ticks

variable {threshold : Duration} {tag : Bytes} {before : List Tick} {t : Tick}

theorem aside_maybeForceReconnect (s : SourceLivenessState) (now : Int) :
    (maybeForceReconnect s now).1.lastAlertUnix = s.lastAlertUnix ∧
      ∀ e ∈ (maybeForceReconnect s now).2, e.Aside := by
  rw [maybeForceReconnect]
  split_ifs with hwired hthrottled
  · exact ⟨rfl, fun e he => absurd he List.not_mem_nil⟩
  · refine ⟨rfl, fun e he => ?_⟩
    rw [List.mem_singleton.mp he]
    exact ⟨Bool.false_ne_true, Event.noConfusion⟩
  · refine ⟨rfl, fun e he => ?_⟩
    rcases List.mem_pair.mp he with rfl | rfl <;> exact ⟨Bool.false_ne_true, Event.noConfusion⟩

theorem aside_maybeEscalateDisconnected (s : SourceLivenessState) (kind : LivenessKind) (threshold : Duration)
    (now : Int) :
    (maybeEscalateDisconnected s kind threshold now).1.lastAlertUnix = s.lastAlertUnix ∧
      ∀ e ∈ (maybeEscalateDisconnected s kind threshold now).2, e.Aside := by
  rw [maybeEscalateDisconnected]
  dsimp only
  split_ifs with hkind hfirst hgap hthrottled
  · exact ⟨rfl, fun e he => absurd he List.not_mem_nil⟩
  · exact ⟨rfl, fun e he => absurd he List.not_mem_nil⟩
  · exact ⟨rfl, fun e he => absurd he List.not_mem_nil⟩
  · exact ⟨rfl, fun e he => absurd he List.not_mem_nil⟩
  · obtain ⟨hunix, hes⟩ := aside_maybeForceReconnect s now
    refine ⟨hunix, fun e he => ?_⟩
    rcases List.mem_cons.mp he with rfl | he
    · exact ⟨Bool.false_ne_true, Event.noConfusion⟩
    · exact hes e he

inductive Outcome (s : SourceLivenessState) (t : Tick) : SourceLivenessState × List Event → Prop
  | recovers {s' es} (hkind : t.kind = .ok) (harmed : s.lastAlertUnix ≠ 0) (hunix : s'.lastAlertUnix = 0)
      (hrecovered : Event.recovered ∈ es) (hes : ∀ e ∈ es, ¬ e.Alert) : Outcome s t (s', es)
  | alerts {s' es} (hkind : t.kind ≠ .ok) (hunix : s'.lastAlertUnix = t.now) (halert : ∃ e ∈ es, e.Alert)
      (hes : ∀ e ∈ es, ¬ e.Recovered) : Outcome s t (s', es)
  | stays {s' es} (hkind : t.kind = .ok → s.lastAlertUnix = 0) (hunix : s'.lastAlertUnix = s.lastAlertUnix)
      (hes : ∀ e ∈ es, e.Aside) : Outcome s t (s', es)

theorem Outcome.of_alert {s : SourceLivenessState} {e : Event} (he : e.Alert) (hkind : t.kind ≠ .ok) :
    Outcome s t (alert s t.kind e t.now) := by
  have hrecovered : ¬ e.Recovered := fun h => by
    rw [h] at he
    exact absurd he Bool.false_ne_true
  rw [alert]
  split_ifs
  · obtain ⟨hunix, hes⟩ := aside_maybeForceReconnect { s with lastAlertUnix := t.now } t.now
    refine .alerts hkind hunix ⟨e, List.mem_cons_self, he⟩ fun x hx => ?_
    rcases List.mem_cons.mp hx with rfl | hx
    · exact hrecovered
    · exact (hes x hx).2
  · refine .alerts hkind rfl ⟨e, List.mem_cons_self, he⟩ fun x hx => ?_
    rw [List.mem_singleton.mp hx]
    exact hrecovered

theorem Outcome.still {s : SourceLivenessState} (h : t.kind = .ok → s.lastAlertUnix = 0) : Outcome s t (s, []) :=
  .stays h rfl fun _ he => absurd he List.not_mem_nil

theorem outcome_processLivenessTransition (s : SourceLivenessState) (t : Tick) :
    Outcome s t (processLivenessTransition s t.kind t.msg t.now) := by
  have halarm : t.kind ≠ .ok → Outcome s t (if s.lastAlertUnix = 0 then alert s t.kind (.warn t.msg) t.now
      else if livenessHeartbeatInterval ≤ sub t.now s.lastAlertUnix then alert s t.kind (.heartbeat t.msg) t.now
      else (s, [])) := by
    intro hkind
    split_ifs
    · exact .of_alert rfl hkind
    · exact .of_alert rfl hkind
    · exact .still fun hok => absurd hok hkind
  cases hkind : t.kind with
  | stalled | neverReceived =>
      rw [hkind] at halarm
      exact halarm LivenessKind.noConfusion
  | ok =>
      rw [processLivenessTransition]
      split_ifs with harmed
      · refine .recovers hkind harmed rfl (List.mem_singleton_self _) fun e he => ?_
        rw [List.mem_singleton.mp he]
        exact Bool.false_ne_true
      · exact .still fun _ => not_not.mp harmed
  | disconnected | recovered | heartbeat =>
      exact .still fun hok => LivenessKind.noConfusion (hkind.symm.trans hok)

theorem outcome_tick (threshold : Duration) (s : SourceLivenessState) (t : Tick) :
    Outcome s t (tick threshold s t) := by
  obtain ⟨hunix, haside⟩ := aside_maybeEscalateDisconnected s t.kind threshold t.now
  have hnext := outcome_processLivenessTransition (maybeEscalateDisconnected s t.kind threshold t.now).1 t
  rw [tick]
  dsimp only
  generalize processLivenessTransition _ t.kind t.msg t.now = r at hnext ⊢
  cases hnext with
  | recovers hkind harmed hzero hrecovered hes =>
      rw [hunix] at harmed
      refine .recovers hkind harmed hzero (List.mem_append_right _ hrecovered) fun e he => ?_
      rcases List.mem_append.mp he with he | he
      · exact (haside e he).1
      · exact hes e he
  | alerts hkind hnow halert hes =>
      obtain ⟨e, he, halert⟩ := halert
      refine .alerts hkind hnow ⟨e, List.mem_append_right _ he, halert⟩ fun x hx => ?_
      rcases List.mem_append.mp hx with hx | hx
      · exact (haside x hx).2
      · exact hes x hx
  | stays hkind hsame hes =>
      rw [hunix] at hkind hsame
      refine .stays hkind hsame fun e he => ?_
      rcases List.mem_append.mp he with he | he
      · exact haside e he
      · exact hes e he

theorem armed_iff (hepoch : ∀ t ∈ before, t.now ≠ 0) : (after threshold tag before).lastAlertUnix ≠ 0 ↔
    ∃ pre u mid, before = pre ++ u :: mid ∧ (∃ e ∈ emitted threshold tag pre u, e.Alert) ∧ ∀ v ∈ mid, v.kind ≠ .ok := by
  induction before using List.reverseRecOn with
  | nil => exact ⟨fun h => absurd rfl h, fun ⟨pre, u, mid, h, _⟩ => absurd h.symm (by simp)⟩
  | append_singleton before t ih =>
      have hlast : t ∈ before ++ [t] := List.mem_append_right _ (List.mem_singleton_self t)
      specialize ih fun u hu => hepoch u (List.mem_append_left _ hu)
      have hsplit : ∀ pre u mid, before ++ [t] = pre ++ u :: mid →
          (pre = before ∧ u = t ∧ mid = []) ∨ ∃ mid', before = pre ++ u :: mid' ∧ mid = mid' ++ [t] := by
        intro pre u mid h
        rcases List.eq_nil_or_concat mid with rfl | ⟨mid', v, rfl⟩
        · obtain ⟨hpre, hu⟩ := List.append_inj' h rfl
          exact .inl ⟨hpre.symm, (List.singleton_inj.mp hu).symm, rfl⟩
        · rw [List.concat_eq_append, ← List.cons_append, ← List.append_assoc] at h
          obtain ⟨hpre, hv⟩ := List.append_inj' h rfl
          exact .inr ⟨mid', hpre, by rw [List.singleton_inj.mp hv, List.concat_eq_append]⟩
      have houtcome := outcome_tick threshold (after threshold tag before) t
      rw [after_concat]
      have hemitted : emitted threshold tag before t = (tick threshold (after threshold tag before) t).2 := rfl
      generalize tick threshold (after threshold tag before) t = r at houtcome hemitted
      cases houtcome with
      | recovers hkind harmed hzero hrecovered hes =>
          refine ⟨fun h => absurd hzero h, ?_⟩
          rintro ⟨pre, u, mid, h, ⟨e, he, halert⟩, hmid⟩
          rcases hsplit pre u mid h with ⟨rfl, rfl, rfl⟩ | ⟨mid', -, rfl⟩
          · rw [hemitted] at he
            exact absurd halert (hes e he)
          · exact absurd hkind (hmid t (by simp))
      | alerts hkind hnow halert hes =>
          refine ⟨fun _ => ⟨before, t, [], rfl, ?_, fun v hv => absurd hv List.not_mem_nil⟩, fun _ => ?_⟩
          · rw [hemitted]
            exact halert
          · rw [hnow]
            exact hepoch t hlast
      | stays hkind hsame hes =>
          rw [hsame]
          constructor
          · intro harmed
            obtain ⟨pre, u, mid, rfl, halert, hmid⟩ := ih.mp harmed
            refine ⟨pre, u, mid ++ [t], by simp, halert, fun v hv => ?_⟩
            rcases List.mem_append.mp hv with hv | hv
            · exact hmid v hv
            · rw [List.mem_singleton.mp hv]
              exact fun hok => harmed (hkind hok)
          · rintro ⟨pre, u, mid, h, ⟨e, he, halert⟩, hmid⟩
            rcases hsplit pre u mid h with ⟨rfl, rfl, rfl⟩ | ⟨mid', hbefore, rfl⟩
            · rw [hemitted] at he
              exact absurd halert (hes e he).1
            · exact ih.mpr ⟨pre, u, mid', hbefore, ⟨e, he, halert⟩, fun v hv => hmid v (List.mem_append_left _ hv)⟩

theorem recovered_iff : Event.recovered ∈ emitted threshold tag before t ↔
    t.kind = .ok ∧ (after threshold tag before).lastAlertUnix ≠ 0 := by
  have houtcome := outcome_tick threshold (after threshold tag before) t
  rw [emitted]
  generalize tick threshold (after threshold tag before) t = r at houtcome
  cases houtcome with
  | recovers hkind harmed hzero hrecovered hes => exact ⟨fun _ => ⟨hkind, harmed⟩, fun _ => hrecovered⟩
  | alerts hkind hnow halert hes => exact ⟨fun h => absurd rfl (hes _ h), fun h => absurd h.1 hkind⟩
  | stays hkind hsame hes => exact ⟨fun h => absurd rfl (hes _ h).2, fun h => absurd (hkind h.1) h.2⟩

theorem reconnect_tick {s : SourceLivenessState} (h : Event.reconnect ∈ (tick threshold s t).2) :
    t.kind = .stalled ∨ t.kind = .disconnected := by
  have halert : ∀ s' e, e ≠ Event.reconnect → Event.reconnect ∈ (alert s' t.kind e t.now).2 → t.kind = .stalled := by
    intro s' e hne h
    by_contra hkind
    rw [alert, if_neg hkind, List.mem_singleton] at h
    exact hne h.symm
  by_contra hkind
  rw [not_or] at hkind
  rw [tick, maybeEscalateDisconnected, if_pos hkind.2] at h
  dsimp only at h
  rw [List.nil_append] at h
  cases hverdict : t.kind with
  | stalled => exact hkind.1 hverdict
  | disconnected => exact hkind.2 hverdict
  | neverReceived =>
      rw [hverdict, processLivenessTransition] at h
      rw [hverdict] at halert
      split_ifs at h
      · exact LivenessKind.noConfusion (halert _ _ Event.noConfusion h)
      · exact LivenessKind.noConfusion (halert _ _ Event.noConfusion h)
      · exact absurd h List.not_mem_nil
  | ok =>
      rw [hverdict, processLivenessTransition] at h
      split_ifs at h
      · exact Event.noConfusion (List.mem_singleton.mp h)
      · exact absurd h List.not_mem_nil
  | recovered | heartbeat =>
      rw [hverdict] at h
      exact absurd h List.not_mem_nil

end Ticks

theorem mem_logFrom {threshold : Duration} {s : SourceLivenessState} {ticks : List Tick} {x : Int × Event}
    (h : x ∈ logFrom threshold s ticks) : ∃ t ∈ ticks, ∃ s', x.2 ∈ (tick threshold s' t).2 := by
  induction ticks generalizing s with
  | nil => exact absurd h List.not_mem_nil
  | cons t ticks ih =>
      rcases List.mem_append.mp h with h | h
      · obtain ⟨e, he, rfl⟩ := List.mem_map.mp h
        exact ⟨t, List.mem_cons_self, s, he⟩
      · obtain ⟨u, hu, s', hs'⟩ := ih h
        exact ⟨u, List.mem_cons_of_mem t hu, s', hs'⟩

/-- What operators are told of a source, and how often it is reconnected. -/
structure EdgeTriggered (threshold : Duration) (tag : Bytes) (ticks : List Tick) : Prop where
  reconnects : Spaced Event.Reconnect Event.Never (forceReconnectThrottle / second) (log threshold tag ticks)
  warns : Separated Event.Warn Event.Recovered (log threshold tag ticks)
  alerts : Spaced Event.Alert Event.Recovered (livenessHeartbeatInterval / second) (log threshold tag ticks)
  recoveries : ∀ before t later, ticks = before ++ t :: later → (Event.recovered ∈ emitted threshold tag before t ↔
    t.kind = .ok ∧ ∃ pre u mid, before = pre ++ u :: mid ∧ (∃ e ∈ emitted threshold tag pre u, e.Alert) ∧
      ∀ v ∈ mid, v.kind ≠ .ok)
  spared : (∀ t ∈ ticks, t.kind ≠ .stalled ∧ t.kind ≠ .disconnected) →
    ∀ x ∈ log threshold tag ticks, ¬ x.2.Reconnect

/-- The two stamps cannot hold the second 0. -/
theorem edgeTriggered_run (threshold : Duration) (tag : Bytes) (ticks : List Tick)
    (hordered : ticks.Pairwise fun a b => a.now ≤ b.now) (hepoch : ∀ t ∈ ticks, t.now ≠ 0) :
    EdgeTriggered threshold tag ticks where
  reconnects := (kept_run hordered hepoch).1.reconnects
  warns := (kept_run hordered hepoch).1.warns
  alerts := (kept_run hordered hepoch).1.alerts
  recoveries before t later h := by
    rw [recovered_iff, armed_iff fun u hu => hepoch u (h ▸ List.mem_append_left _ hu)]
  spared hkinds x hx hreconnect := by
    obtain ⟨t, ht, s, hmem⟩ := mem_logFrom hx
    rw [hreconnect] at hmem
    rcases reconnect_tick hmem with hkind | hkind
    · exact (hkinds t ht).1 hkind
    · exact (hkinds t ht).2 hkind

def minute : Duration := 60 * second

/-- A stall that lasts over an hour, and its end. -/
theorem edgeTriggered_run_stall : EdgeTriggered (5 * minute) [109]
    [⟨1700000000, .stalled, []⟩, ⟨1700000060, .stalled, []⟩, ⟨1700003600, .stalled, []⟩, ⟨1700003660, .ok, []⟩] :=
  edgeTriggered_run _ _ _ (by decide) (by decide)

/-- At the second 0 the stamp of the alert is the one that says never: the next tick warns again. -/
theorem warned_twice_at_epoch : ¬ ∀ (threshold : Duration) (tag : Bytes) (ticks : List Tick),
    (ticks.Pairwise fun a b => a.now ≤ b.now) → EdgeTriggered threshold tag ticks := by
  intro h
  have hwarns := (h minute [] [⟨0, .stalled, []⟩, ⟨0, .stalled, []⟩] (by decide)).warns
  obtain ⟨e, he, hrecovered⟩ := hwarns [] (0, .warn []) [(0, .forcing), (0, .reconnect)] (0, .warn [])
    [(0, .forcing), (0, .reconnect)] rfl rfl rfl
  rcases List.mem_pair.mp he with rfl | rfl <;> exact Event.noConfusion hrecovered

end MeshcoreAnalyzer.Watchdog

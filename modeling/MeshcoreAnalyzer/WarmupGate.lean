import MeshcoreAnalyzer.Runs
import Mathlib.Data.List.Basic

namespace MeshcoreAnalyzer.Warmup

open Runs

/-! The gate of cmd/server/analytics_warmup_1659.go, beside the passes of a recomputer
(analytics_recomputer.go) and the loader. -/

variable {P R : Type}

structure Reading (P : Type) where
  packets : List P
  loadComplete : Bool

structure Pass (P R : Type) where
  reading : Reading P
  result : Option R

inductive Phase (P : Type)
  | idle
  | computing (reading : Reading P)
  /-- The result is stored, `markFirstPassDone_1659` is still to come. -/
  | stored (reading : Reading P)

/-- Clocks in nanoseconds, where 0 is not set. The snapshot comes with what its pass had read; `ended` are the passes
that came to their end. -/
structure State (P R : Type) where
  packets : List P
  loadComplete : Bool
  now : Int
  warmupStartedNs : Int
  firstPassDoneNs : Int
  phase : Phase P
  cache : Option (R × Reading P)
  ended : List (Pass P R)

def State.init (now : Int) : State P R where
  packets := []
  loadComplete := false
  now := now
  warmupStartedNs := 0
  firstPassDoneNs := 0
  phase := .idle
  cache := none
  ended := []

inductive Step (P R : Type)
  | load (batch : List P)
  | completeLoad
  | wait (ns : Int)
  | start
  | startPass
  /-- compute returns, nil among the results -/
  | endPass (result : Option R)
  | panic
  | mark

def warmupForceTimeout : Int := 60000000000

/-- `cache.Store(result)`, unless the result is nil -/
def Pass.store (p : Pass P R) (cache : Option (R × Reading P)) : Option (R × Reading P) :=
  match p.result with
  | none => cache
  | some result => some (result, p.reading)

namespace State

variable (s : State P R)

def reading : Reading P := ⟨s.packets, s.loadComplete⟩

def noteWarmupStart : State P R := if s.warmupStartedNs = 0 then { s with warmupStartedNs := s.now } else s

def endPass (reading : Reading P) (result : Option R) : State P R :=
  { s with
    phase := .stored reading
    cache := Pass.store ⟨reading, result⟩ s.cache
    ended := s.ended ++ [⟨reading, result⟩] }

def markFirstPassDone : State P R :=
  if s.firstPassDoneNs ≠ 0 then s
  else if ¬s.loadComplete then s
  else { s with firstPassDoneNs := s.now }

def step (s : State P R) : Step P R → State P R
  | .load batch => { s with packets := s.packets ++ batch }
  | .completeLoad => { s with loadComplete := true }
  | .wait ns => { s with now := s.now + ns }
  | .start => s.noteWarmupStart
  | .startPass => { s with phase := .computing s.reading }
  | .endPass result => match s.phase with
      | .computing reading => s.endPass reading result
      | _ => s
  | .panic => { s with phase := .idle }
  | .mark => { s.markFirstPassDone with phase := .idle }

/-- The loader ends with its last step, and passes come one after the other once the recomputer is started. -/
def Enabled (s : State P R) : Step P R → Prop
  | .load _ => s.loadComplete = false
  | .completeLoad => s.loadComplete = false
  | .wait ns => 0 ≤ ns
  | .start => s.warmupStartedNs = 0
  | .startPass => s.warmupStartedNs ≠ 0 ∧ s.phase = .idle
  | .endPass _ => ∃ reading, s.phase = .computing reading
  | .panic => ∃ reading, s.phase = .computing reading
  | .mark => ∃ reading, s.phase = .stored reading

def run (s : State P R) (steps : List (Step P R)) : State P R := steps.foldl step s

def timedOut : Bool := s.warmupStartedNs ≠ 0 ∧ warmupForceTimeout ≤ s.now - s.warmupStartedNs

def isWarmingUp : Bool :=
  if s.firstPassDoneNs ≠ 0 then false
  else if s.timedOut then false
  else true

end State

/-- No pass that started before the load was complete opens the gate. -/
def Unstraddled (s : State P R) : Step P R → Prop
  | .mark => ∀ reading, s.phase = .stored reading → s.loadComplete = true → reading.loadComplete = true
  | _ => True

variable {s : State P R}

def latest (ended : List (Pass P R)) : Option (R × Reading P) := ended.foldl (fun cache p => p.store cache) none

theorem latest_concat (ended : List (Pass P R)) (p : Pass P R) : latest (ended ++ [p]) = p.store (latest ended) :=
  List.foldl_append

def Whole (s : State P R) (reading : Reading P) : Prop := reading.loadComplete = true → reading = s.reading

def Phase.reading? : Phase P → Option (Reading P)
  | .idle => none
  | .computing reading | .stored reading => some reading

structure Inv (s : State P R) : Prop where
  cached : s.cache = latest s.ended
  whole : ∀ p ∈ s.ended, Whole s p.reading
  current : ∀ reading ∈ s.phase.reading?, Whole s reading
  /-- A pass that follows one on the complete load is on the complete load. -/
  ordered : ∀ reading ∈ s.phase.reading?, ∀ p ∈ s.ended, p.reading.loadComplete = true → reading.loadComplete = true
  served : ∀ p ∈ s.ended, p.reading.loadComplete = true → p.result.isSome → ∃ result, latest s.ended = some (result, s.reading)
  stored : ∀ reading, s.phase = .stored reading → ∃ p ∈ s.ended, p.reading = reading
  opened : s.firstPassDoneNs ≠ 0 → ∃ p ∈ s.ended, p.reading.loadComplete = true

theorem inv_init (now : Int) : Inv (State.init now : State P R) where
  cached := rfl
  whole _ hp := absurd hp List.not_mem_nil
  current _ hreading := nomatch hreading
  ordered _ hreading := nomatch hreading
  served _ hp := absurd hp List.not_mem_nil
  stored _ hphase := nomatch hphase
  opened hopen := absurd rfl hopen

theorem Whole.incomplete {reading : Reading P} (h : Whole s reading) (hload : s.loadComplete = false) :
    reading.loadComplete ≠ true := by
  intro hcomplete
  have heq := congrArg Reading.loadComplete (h hcomplete)
  rw [hcomplete] at heq
  exact Bool.noConfusion (heq.trans hload)

theorem Inv.reload (h : Inv s) (hload : s.loadComplete = false) (packets : List P) (loadComplete : Bool) :
    Inv { s with packets := packets, loadComplete := loadComplete } where
  cached := h.cached
  whole p hp hcomplete := absurd hcomplete ((h.whole p hp).incomplete hload)
  current reading hreading hcomplete := absurd hcomplete ((h.current reading hreading).incomplete hload)
  ordered := h.ordered
  served p hp hcomplete := absurd hcomplete ((h.whole p hp).incomplete hload)
  stored := h.stored
  opened := h.opened

theorem Inv.idle (h : Inv s) : Inv { s with phase := .idle } where
  cached := h.cached
  whole := h.whole
  current _ hreading := nomatch hreading
  ordered _ hreading := nomatch hreading
  served := h.served
  stored _ hphase := nomatch hphase
  opened := h.opened

theorem Inv.startPass (h : Inv s) : Inv { s with phase := .computing s.reading } where
  cached := h.cached
  whole := h.whole
  current reading hreading := by
    intro _
    exact (Option.some.inj hreading).symm
  ordered reading hreading p hp hcomplete := by
    rw [← Option.some.inj hreading, ← h.whole p hp hcomplete]
    exact hcomplete
  served := h.served
  stored _ hphase := nomatch hphase
  opened := h.opened

theorem Inv.endPass (h : Inv s) {reading : Reading P} (hphase : s.phase = .computing reading) (result : Option R) :
    Inv (s.endPass reading result) := by
  have hreading : reading ∈ s.phase.reading? := by
    rw [hphase]
    exact rfl
  refine ⟨?_, ?_, ?_, ?_, ?_, ?_, ?_⟩
  · exact (congrArg (Pass.store ⟨reading, result⟩) h.cached).trans (latest_concat _ _).symm
  · intro p hp
    rcases List.mem_append.mp hp with hp | hp
    · exact h.whole p hp
    · rw [List.mem_singleton.mp hp]
      exact h.current reading hreading
  · intro reading' hreading'
    rw [← Option.some.inj hreading']
    exact h.current reading hreading
  · intro reading' hreading' p hp hcomplete
    rw [← Option.some.inj hreading']
    rcases List.mem_append.mp hp with hp | hp
    · exact h.ordered reading hreading p hp hcomplete
    · rw [List.mem_singleton.mp hp] at hcomplete
      exact hcomplete
  · intro p hp hcomplete hresult
    rw [State.endPass, latest_concat]
    have hlast : reading.loadComplete = true := by
      rcases List.mem_append.mp hp with hp | hp
      · exact h.ordered reading hreading p hp hcomplete
      · rw [List.mem_singleton.mp hp] at hcomplete
        exact hcomplete
    cases result with
    | some result =>
        refine ⟨result, ?_⟩
        rw [Pass.store, h.current reading hreading hlast]
        rfl
    | none =>
        rcases List.mem_append.mp hp with hp | hp
        · exact h.served p hp hcomplete hresult
        · rw [List.mem_singleton.mp hp] at hresult
          cases hresult
  · intro reading' hphase'
    cases hphase'
    exact ⟨_, List.mem_append_right s.ended List.mem_cons_self, rfl⟩
  · intro hopen
    obtain ⟨p, hp, hcomplete⟩ := h.opened hopen
    exact ⟨p, List.mem_append_left _ hp, hcomplete⟩

theorem Inv.markFirstPassDone (h : Inv s) {reading : Reading P} (hphase : s.phase = .stored reading)
    (hmark : s.loadComplete = true → reading.loadComplete = true) : Inv s.markFirstPassDone := by
  rw [State.markFirstPassDone]
  split
  · exact h
  · split
    · exact h
    · next hload =>
      refine ⟨h.cached, h.whole, h.current, h.ordered, h.served, h.stored, fun _ => ?_⟩
      obtain ⟨p, hp, rfl⟩ := h.stored reading hphase
      exact ⟨p, hp, hmark (not_not.mp hload)⟩

theorem inv_step {a : Step P R} (h : Inv s) (ha : s.Enabled a ∧ Unstraddled s a) : Inv (s.step a) := by
  cases a with
  | load batch => exact h.reload ha.1 _ _
  | completeLoad => exact h.reload ha.1 _ _
  | wait ns => exact ⟨h.cached, h.whole, h.current, h.ordered, h.served, h.stored, h.opened⟩
  | start =>
      rw [State.step, State.noteWarmupStart]
      split
      · exact ⟨h.cached, h.whole, h.current, h.ordered, h.served, h.stored, h.opened⟩
      · exact h
  | startPass => exact h.startPass
  | endPass result =>
      obtain ⟨reading, hphase⟩ := ha.1
      rw [State.step, hphase]
      exact h.endPass hphase result
  | panic => exact h.idle
  | mark =>
      obtain ⟨reading, hphase⟩ := ha.1
      exact (h.markFirstPassDone hphase (ha.2 reading hphase)).idle

/-- Unless the timeout has passed, the gate is open only where a pass has read the complete load; and the snapshot is
of the complete load as soon as one such pass had a result. -/
theorem opens_on_full_load (now : Int) (steps : List (Step P R))
    (hsteps : Along State.step (fun s a => s.Enabled a ∧ Unstraddled s a) (.init now) steps) :
    let s := (State.init now).run steps
    s.isWarmingUp = false → s.timedOut = false →
      s.loadComplete = true ∧ (∃ p ∈ s.ended, p.reading.loadComplete = true) ∧ s.cache = latest s.ended ∧
        ((∃ p ∈ s.ended, p.reading.loadComplete = true ∧ p.result.isSome) →
          ∃ result, s.cache = some (result, ⟨s.packets, true⟩)) := by
  intro s hready htime
  have h : Inv s := hsteps.foldl_invariant (inv_init now) fun s a => inv_step
  have hopen : s.firstPassDoneNs ≠ 0 := by
    intro hzero
    rw [State.isWarmingUp, if_neg (not_not.mpr hzero), htime] at hready
    exact Bool.noConfusion hready
  obtain ⟨p, hp, hcomplete⟩ := h.opened hopen
  have hload : s.loadComplete = true := by
    rw [h.whole p hp hcomplete] at hcomplete
    exact hcomplete
  refine ⟨hload, ⟨p, hp, hcomplete⟩, h.cached, ?_⟩
  rintro ⟨q, hq, hqcomplete, hqresult⟩
  obtain ⟨result, hlatest⟩ := h.served q hq hqcomplete hqresult
  refine ⟨result, h.cached.trans (hlatest.trans ?_)⟩
  rw [State.reading, hload]

def twoPasses : List (Step Nat (List Nat)) :=
  [.start, .startPass, .load [1], .endPass (some []), .mark, .load [2], .completeLoad, .startPass, .endPass (some [1, 2]),
    .mark]

theorem opens_on_full_load_twoPasses :
    ((State.init 1).run twoPasses).isWarmingUp = false ∧
      ∃ result, ((State.init 1).run twoPasses).cache = some (result, ⟨[1, 2], true⟩) := by
  have hsteps : Along State.step (fun s a => s.Enabled a ∧ Unstraddled s a) (State.init 1) twoPasses := by
    refine ⟨⟨rfl, trivial⟩, ⟨⟨by decide, rfl⟩, trivial⟩, ⟨rfl, trivial⟩, ⟨⟨_, rfl⟩, trivial⟩, ⟨⟨_, rfl⟩, ?_⟩, ⟨rfl, trivial⟩,
      ⟨rfl, trivial⟩, ⟨⟨by decide, rfl⟩, trivial⟩, ⟨⟨_, rfl⟩, trivial⟩, ⟨⟨_, rfl⟩, ?_⟩, trivial⟩
    · exact fun _ _ hload => absurd hload (by decide)
    · rintro _ ⟨⟩ _
      rfl
  have h := opens_on_full_load 1 twoPasses hsteps (by decide) (by decide)
  exact ⟨by decide, h.2.2.2 ⟨⟨⟨[1, 2], true⟩, some [1, 2]⟩, List.mem_cons_of_mem _ List.mem_cons_self, rfl, rfl⟩⟩

/-- Before the timeout an open gate means a snapshot of a pass that started on the complete load. -/
def OpensOnFullData (s : State P R) : Prop :=
  s.isWarmingUp = false → s.timedOut = false → ∃ result reading, s.cache = some (result, reading) ∧ reading.loadComplete = true

/-- A pass behind the load that returns nil opens the gate with no snapshot there, and a pass that started before the end
of the load opens it on what it had read. -/
theorem gate_opens_early :
    (∃ steps : List (Step Nat (List Nat)), Along State.step State.Enabled (State.init 1) steps ∧
      .endPass none ∈ steps ∧ ¬OpensOnFullData ((State.init 1).run steps)) ∧
    ∃ steps : List (Step Nat (List Nat)), Along State.step State.Enabled (State.init 1) steps ∧
      .endPass none ∉ steps ∧ ¬OpensOnFullData ((State.init 1).run steps) := by
  constructor
  · refine ⟨[.load [1], .completeLoad, .start, .startPass, .endPass none, .mark], ?_, by simp, fun h => ?_⟩
    · exact ⟨rfl, rfl, rfl, ⟨by decide, rfl⟩, ⟨_, rfl⟩, ⟨_, rfl⟩, trivial⟩
    · obtain ⟨_, _, hcache, _⟩ := h (by decide) (by decide)
      cases hcache
  · refine ⟨[.start, .startPass, .load [1], .completeLoad, .endPass (some []), .mark], ?_, by simp, fun h => ?_⟩
    · exact ⟨rfl, ⟨by decide, rfl⟩, rfl, rfl, ⟨_, rfl⟩, ⟨_, rfl⟩, trivial⟩
    · obtain ⟨_, _, hcache, hcomplete⟩ := h (by decide) (by decide)
      cases hcache
      cases hcomplete

end MeshcoreAnalyzer.Warmup

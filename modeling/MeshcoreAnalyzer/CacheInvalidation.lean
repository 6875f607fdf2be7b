import MeshcoreAnalyzer.Runs
import MeshcoreAnalyzer.Transmissions
import Mathlib.Logic.Function.Basic

namespace MeshcoreAnalyzer.PacketStore.CacheInvalidation

open Runs

/-! `invalidateCachesFor` of cmd/server/store.go: the caches of the analytics are cleared by what has changed,
but not more often than once in a cooldown. -/

variable {E : Type}

/-- The caches that are cleared; `channels` is the one result of `GetChannels` with its key, kept under the key "". -/
inductive Cache
  | rf
  | topo
  | hash
  | collision
  | chan
  | dist
  | subpath
  | channels
deriving DecidableEq

/-- `cacheInvalidation` -/
structure Invalidation where
  hasNewObservations : Bool
  hasNewPaths : Bool
  hasNewTransmissions : Bool
  hasNewNodes : Bool
  hasChannelData : Bool
  eviction : Bool

def Invalidation.none : Invalidation := ⟨false, false, false, false, false, false⟩

def Invalidation.or (inv other : Invalidation) : Invalidation :=
  { inv with
    hasNewObservations := inv.hasNewObservations || other.hasNewObservations
    hasNewPaths := inv.hasNewPaths || other.hasNewPaths
    hasNewTransmissions := inv.hasNewTransmissions || other.hasNewTransmissions
    hasNewNodes := inv.hasNewNodes || other.hasNewNodes
    hasChannelData := inv.hasChannelData || other.hasChannelData }

/-- The caches that `applyCacheInvalidation` makes anew. -/
def Invalidation.clears (inv : Invalidation) : Cache → Bool
  | .rf => inv.hasNewObservations
  | .topo => inv.hasNewPaths
  | .dist => inv.hasNewPaths
  | .subpath => inv.hasNewPaths
  | .hash => inv.hasNewTransmissions
  | .collision => inv.hasNewNodes
  | .chan => inv.hasChannelData
  | .channels => inv.hasChannelData

abbrev Caches (E : Type) := Cache → String → Option E

structure State (E : Type) where
  caches : Caches E
  lastInvalidated : Int
  pendingInv : Option Invalidation

def clear (dropped : Cache → Bool) (caches : Caches E) : Caches E :=
  fun c => if dropped c then fun _ => none else caches c

def State.applyCacheInvalidation (s : State E) (inv : Invalidation) : State E :=
  { s with caches := clear inv.clears s.caches }

/-- Times are nanoseconds; `time.Now()` is read once, or in either branch. -/
def State.invalidateCachesFor (invCooldown : Int) (s : State E) (inv : Invalidation) (now : Int) : State E :=
  if inv.eviction then
    { caches := clear (fun _ => true) s.caches, lastInvalidated := now, pendingInv := none }
  else if now - s.lastInvalidated < invCooldown then
    { s with pendingInv := some ((s.pendingInv.getD .none).or inv) }
  else
    let inv := match s.pendingInv with
      | some pending => inv.or pending
      | none => inv
    { (s.applyCacheInvalidation inv) with lastInvalidated := now, pendingInv := none }

def noteTx (inv : Invalidation) (tx : StoreTx) : Invalidation :=
  let inv := if 0 < tx.observations.length then { inv with hasNewObservations := true } else inv
  let inv := if tx.payloadType = some 5 then { inv with hasChannelData := true } else inv
  if tx.pathJSON ≠ "" then { inv with hasNewPaths := true } else inv

/-- The loop of `ingestNewFromDB` over the transmissions that are new, which stops when all it looks for is found. -/
def ingestFlags (inv : Invalidation) : List StoreTx → Invalidation
  | [] => inv
  | tx :: txs =>
      let inv := noteTx inv tx
      if inv.hasNewObservations && inv.hasChannelData && inv.hasNewPaths then inv else ingestFlags inv txs

/-- What `ingestNewFromDB` calls it with, when it has something to broadcast. -/
def ingested (broadcastTxs : List StoreTx) (hasNewNodes : Bool) : Invalidation :=
  ingestFlags
    { Invalidation.none with hasNewTransmissions := 0 < broadcastTxs.length, hasNewNodes := hasNewNodes } broadcastTxs

/-- `IngestNewObservations` -/
def observed (hasPathChanges : Bool) : Invalidation :=
  { Invalidation.none with hasNewObservations := true, hasNewPaths := hasPathChanges }

def evicted : Invalidation := { Invalidation.none with eviction := true }

inductive Action (E : Type)
  | put (c : Cache) (key : String) (e : E)
  | invalidate (inv : Invalidation) (now : Int)

/-- What the store does that puts a result in a cache or changes what the results are of. -/
inductive Call (E : Type)
  | put (c : Cache) (key : String) (e : E)
  | ingestNewFromDB (broadcastTxs : List StoreTx) (hasNewNodes : Bool) (now : Int)
  | ingestNewObservations (hasPathChanges : Bool) (now : Int)
  | evictStale (now : Int)

def Call.action : Call E → Action E
  | .put c key e => .put c key e
  | .ingestNewFromDB broadcastTxs hasNewNodes now => .invalidate (ingested broadcastTxs hasNewNodes) now
  | .ingestNewObservations hasPathChanges now => .invalidate (observed hasPathChanges) now
  | .evictStale now => .invalidate evicted now

variable (invCooldown : Int)

def State.step (s : State E) : Action E → State E
  | .put c key e => { s with caches := Function.update s.caches c (Function.update (s.caches c) key (some e)) }
  | .invalidate inv now => s.invalidateCachesFor invCooldown inv now

def State.run (s : State E) (actions : List (Action E)) : State E := actions.foldl (State.step invCooldown) s

def due (s : State E) : Action E → Prop
  | .put .. => False
  | .invalidate inv now => inv.eviction ∨ invCooldown ≤ now - s.lastInvalidated

def Action.marks (c : Cache) : Action E → Prop
  | .put .. => False
  | .invalidate inv _ => inv.eviction ∨ inv.clears c

def State.owes (s : State E) (c : Cache) : Bool := s.pendingInv.any (·.clears c)

variable {invCooldown} {s : State E} {c : Cache} {key : String}

@[simp] theorem clears_or (inv other : Invalidation) (c : Cache) :
    (inv.or other).clears c = (inv.clears c || other.clears c) := by cases c <;> rfl

@[simp] theorem clears_none (c : Cache) : Invalidation.none.clears c = false := by cases c <;> rfl

@[simp] theorem clear_apply (dropped : Cache → Bool) (caches : Caches E) (c : Cache) (key : String) :
    clear dropped caches c key = if dropped c then none else caches c key := by
  rw [clear]
  split <;> rfl

theorem invalidate_due {inv : Invalidation} {now : Int} (h : due invCooldown s (.invalidate inv now)) :
    (∀ c key, (s.invalidateCachesFor invCooldown inv now).caches c key =
        if inv.eviction ∨ inv.clears c ∨ s.owes c then none else s.caches c key) ∧
      (s.invalidateCachesFor invCooldown inv now).lastInvalidated = now ∧
      (s.invalidateCachesFor invCooldown inv now).pendingInv = none := by
  rw [State.invalidateCachesFor]
  by_cases heviction : inv.eviction = true
  · simp [heviction]
  · have hlate : ¬ now - s.lastInvalidated < invCooldown := Int.not_lt.mpr (h.resolve_left heviction)
    refine ⟨fun c key => ?_, ?_, ?_⟩
    · cases hpending : s.pendingInv <;> simp [heviction, hlate, hpending, State.applyCacheInvalidation, State.owes]
    all_goals simp [heviction, hlate]

theorem invalidate_early {inv : Invalidation} {now : Int} (h : ¬ due invCooldown s (.invalidate inv now)) :
    (s.invalidateCachesFor invCooldown inv now).caches = s.caches ∧
      (s.invalidateCachesFor invCooldown inv now).lastInvalidated = s.lastInvalidated ∧
      ∀ c, (s.invalidateCachesFor invCooldown inv now).owes c ↔ s.owes c ∨ inv.clears c := by
  rw [due, not_or, Int.not_le] at h
  rw [State.invalidateCachesFor, if_neg h.1, if_pos h.2]
  refine ⟨rfl, rfl, fun c => ?_⟩
  cases hpending : s.pendingInv <;> simp [State.owes, hpending]

theorem step_none (a : Action E) (hput : ∀ e, a ≠ .put c key e) :
    (s.step invCooldown a).caches c key = none ↔
      s.caches c key = none ∨ due invCooldown s a ∧ (a.marks c ∨ s.owes c) := by
  cases a with
  | put c' key' e =>
      have hkept : (s.step invCooldown (.put c' key' e)).caches c key = s.caches c key := by
        by_cases hc : c = c'
        · subst hc
          have hkey : key ≠ key' := fun heq => hput e (heq ▸ rfl)
          simp [State.step, hkey]
        · simp [State.step, hc]
      simp [hkept, due]
  | invalidate inv now =>
      by_cases hdue : due invCooldown s (.invalidate inv now)
      · rw [State.step, (invalidate_due hdue).1]
        simp only [hdue, Action.marks, true_and, or_assoc]
        split
        · next h => simp [h]
        · next h => simp [h]
      · rw [State.step, (invalidate_early hdue).1]
        simp [hdue]

theorem step_owes (a : Action E) :
    (s.step invCooldown a).owes c ↔ ¬ due invCooldown s a ∧ (a.marks c ∨ s.owes c) := by
  cases a with
  | put c' key' e => simp [State.step, State.owes, due, Action.marks]
  | invalidate inv now =>
      by_cases hdue : due invCooldown s (.invalidate inv now)
      · have hnone := (invalidate_due hdue).2.2
        simp [State.step, State.owes, hnone, hdue]
      · have hnot : ¬ inv.eviction = true := fun h => hdue (.inl h)
        rw [State.step, (invalidate_early hdue).2.2]
        simp [hdue, Action.marks, hnot, or_comm]

/-- A call is not put off, and the cache was owed or the call or one before it is for the cache. -/
def Dropped (invCooldown : Int) (c : Cache) (s : State E) (l : List (Action E)) : Prop :=
  ∃ before a after, l = before ++ a :: after ∧ due invCooldown (s.run invCooldown before) a ∧
    (s.owes c ∨ ∃ m ∈ before ++ [a], m.marks c)

theorem dropped_cons {a : Action E} {l : List (Action E)} :
    Dropped invCooldown c s (a :: l) ↔
      due invCooldown s a ∧ (a.marks c ∨ s.owes c) ∨ Dropped invCooldown c (s.step invCooldown a) l := by
  constructor
  · rintro ⟨before, b, after, heq, hdue, hmarked⟩
    cases before with
    | nil =>
        obtain ⟨rfl, rfl⟩ := List.cons.inj heq
        exact .inl ⟨hdue, by simpa [or_comm] using hmarked⟩
    | cons a' before =>
        obtain ⟨rfl, rfl⟩ := List.cons.inj heq
        by_cases hnow : due invCooldown s a ∧ (a.marks c ∨ s.owes c)
        · exact .inl hnow
        · refine .inr ⟨before, b, after, rfl, hdue, ?_⟩
          rw [step_owes]
          simp only [List.cons_append, List.mem_cons] at hmarked
          grind
  · rintro (⟨hdue, hmarked⟩ | ⟨before, b, after, rfl, hdue, hmarked⟩)
    · exact ⟨[], a, l, rfl, hdue, by simpa [or_comm] using hmarked⟩
    · refine ⟨a :: before, b, after, rfl, hdue, ?_⟩
      rw [step_owes] at hmarked
      simp only [List.cons_append, List.mem_cons]
      grind

theorem run_none (l : List (Action E)) (hput : ∀ e, .put c key e ∉ l) :
    (s.run invCooldown l).caches c key = none ↔ s.caches c key = none ∨ Dropped invCooldown c s l := by
  induction l generalizing s with
  | nil => simp [State.run, Dropped]
  | cons a l ih =>
      have hl : ∀ e, .put c key e ∉ l := fun e h => hput e (List.mem_cons_of_mem a h)
      have ha : ∀ e, a ≠ .put c key e := fun e h => hput e (h ▸ List.mem_cons_self)
      have hrun : s.run invCooldown (a :: l) = (s.step invCooldown a).run invCooldown l := rfl
      rw [hrun, ih hl, step_none a ha, dropped_cons, or_assoc]

theorem step_kept (a : Action E) (hput : ∀ e, a ≠ .put c key e) :
    (s.step invCooldown a).caches c key = none ∨ (s.step invCooldown a).caches c key = s.caches c key := by
  cases a with
  | put c' key' e =>
      refine .inr ?_
      by_cases hc : c = c'
      · subst hc
        have hkey : key ≠ key' := fun heq => hput e (heq ▸ rfl)
        simp [State.step, hkey]
      · simp [State.step, hc]
  | invalidate inv now =>
      rw [State.step]
      by_cases hdue : due invCooldown s (.invalidate inv now)
      · rw [(invalidate_due hdue).1]
        split
        · exact .inl rfl
        · exact .inr rfl
      · rw [(invalidate_early hdue).1]
        exact .inr rfl

theorem run_kept (l : List (Action E)) (hput : ∀ e, .put c key e ∉ l) :
    (s.run invCooldown l).caches c key = none ∨ (s.run invCooldown l).caches c key = s.caches c key := by
  induction l generalizing s with
  | nil => exact .inr rfl
  | cons a l ih =>
      have hl : ∀ e, .put c key e ∉ l := fun e h => hput e (List.mem_cons_of_mem a h)
      have ha : ∀ e, a ≠ .put c key e := fun e h => hput e (h ▸ List.mem_cons_self)
      have hstep : (s.step invCooldown a).caches c key = none ∨
          (s.step invCooldown a).caches c key = s.caches c key := step_kept a ha
      rcases hstep with h | h
      · exact .inl ((ih (s := s.step invCooldown a) hl).elim id fun hkept => hkept.trans h)
      · exact (ih (s := s.step invCooldown a) hl).imp_right fun hkept => hkept.trans h

theorem lastInvalidated_run (l : List (Action E))
    (hquiet : Along (State.step invCooldown) (fun s a => ¬ due invCooldown s a) s l) :
    (s.run invCooldown l).lastInvalidated = s.lastInvalidated := by
  induction l generalizing s with
  | nil => rfl
  | cons a l ih =>
      have hstep : (s.step invCooldown a).lastInvalidated = s.lastInvalidated := by
        cases a with
        | put c key e => rfl
        | invalidate inv now => exact (invalidate_early hquiet.1).2.1
      exact (ih hquiet.2).trans hstep

theorem noteTx_eq (inv : Invalidation) (tx : StoreTx) :
    noteTx inv tx =
      { inv with
        hasNewObservations := inv.hasNewObservations || decide (0 < tx.observations.length)
        hasChannelData := inv.hasChannelData || decide (tx.payloadType = some 5)
        hasNewPaths := inv.hasNewPaths || decide (tx.pathJSON ≠ "") } := by
  rw [noteTx]
  by_cases hobservations : 0 < tx.observations.length <;> by_cases htype : tx.payloadType = some 5 <;>
    by_cases hpath : tx.pathJSON ≠ "" <;> simp [hobservations, htype, hpath]

theorem ingestFlags_eq (inv : Invalidation) (txs : List StoreTx) :
    ingestFlags inv txs =
      { inv with
        hasNewObservations := inv.hasNewObservations || txs.any fun tx => 0 < tx.observations.length
        hasChannelData := inv.hasChannelData || txs.any fun tx => tx.payloadType = some 5
        hasNewPaths := inv.hasNewPaths || txs.any fun tx => tx.pathJSON ≠ "" } := by
  induction txs generalizing inv with
  | nil => simp [ingestFlags]
  | cons tx txs ih =>
      rw [ingestFlags]
      split
      · next hall =>
          rw [Bool.and_eq_true, Bool.and_eq_true] at hall
          rw [noteTx_eq] at hall ⊢
          obtain ⟨⟨hobservations, htype⟩, hpath⟩ := hall
          simp only [List.any_cons, ← Bool.or_assoc]
          dsimp only at hobservations htype hpath
          rw [hobservations, htype, hpath, Bool.true_or, Bool.true_or, Bool.true_or]
      · rw [ih, noteTx_eq]
        simp only [List.any_cons, Bool.or_assoc]

/-- The caches that the new transmissions and nodes have a part in. -/
def Touched (broadcastTxs : List StoreTx) (hasNewNodes : Bool) : Cache → Prop
  | .rf => ∃ tx ∈ broadcastTxs, tx.observations ≠ []
  | .topo => ∃ tx ∈ broadcastTxs, tx.pathJSON ≠ ""
  | .dist => ∃ tx ∈ broadcastTxs, tx.pathJSON ≠ ""
  | .subpath => ∃ tx ∈ broadcastTxs, tx.pathJSON ≠ ""
  | .hash => broadcastTxs ≠ []
  | .collision => hasNewNodes
  | .chan => ∃ tx ∈ broadcastTxs, tx.payloadType = some 5
  | .channels => ∃ tx ∈ broadcastTxs, tx.payloadType = some 5

def Call.touches (c : Cache) : Call E → Prop
  | .put .. => False
  | .ingestNewFromDB broadcastTxs hasNewNodes _ => Touched broadcastTxs hasNewNodes c
  | .ingestNewObservations hasPathChanges _ => c = .rf ∨ hasPathChanges ∧ (c = .topo ∨ c = .dist ∨ c = .subpath)
  | .evictStale _ => True

theorem marks_action (call : Call E) (c : Cache) : call.action.marks c ↔ call.touches c := by
  cases call with
  | put c' key e => rfl
  | ingestNewFromDB broadcastTxs hasNewNodes now =>
      rw [Call.action, Action.marks, ingested, ingestFlags_eq]
      cases c <;> simp [Invalidation.none, Invalidation.clears, Call.touches, Touched, List.length_pos_iff]
  | ingestNewObservations hasPathChanges now =>
      cases c <;> simp [Call.action, Action.marks, observed, Invalidation.none, Invalidation.clears, Call.touches]
  | evictStale now => simp [Call.action, Action.marks, evicted, Call.touches]

def State.runCalls (invCooldown : Int) (s : State E) (calls : List (Call E)) : State E :=
  s.run invCooldown (calls.map Call.action)

/-- A call is not put off, and it or one before it touches the cache, or the cache was owed at the start. -/
def Outdated (invCooldown : Int) (c : Cache) (s : State E) (calls : List (Call E)) : Prop :=
  ∃ before call after, calls = before ++ call :: after ∧ due invCooldown (s.runCalls invCooldown before) call.action ∧
    (s.owes c ∨ ∃ m ∈ before ++ [call], m.touches c)

theorem dropped_map (c : Cache) (calls : List (Call E)) :
    Dropped invCooldown c s (calls.map Call.action) ↔ Outdated invCooldown c s calls := by
  constructor
  · rintro ⟨before, a, after, heq, hdue, hmarked⟩
    obtain ⟨before, rest, rfl, rfl, hrest⟩ := List.map_eq_append_iff.mp heq
    obtain ⟨call, after, rfl, rfl, rfl⟩ := List.map_eq_cons_iff.mp hrest
    refine ⟨before, call, after, rfl, hdue, hmarked.imp_right ?_⟩
    rintro ⟨m, hm, hmarks⟩
    have hmap : before.map Call.action ++ [call.action] = (before ++ [call]).map Call.action := by simp
    rw [hmap] at hm
    obtain ⟨m, hmem, rfl⟩ := List.mem_map.mp hm
    exact ⟨m, hmem, (marks_action m c).mp hmarks⟩
  · rintro ⟨before, call, after, rfl, hdue, htouched⟩
    refine ⟨before.map Call.action, call.action, after.map Call.action, by simp, hdue, htouched.imp_right ?_⟩
    rintro ⟨m, hm, htouches⟩
    have hmem : m.action ∈ (before ++ [call]).map Call.action := List.mem_map_of_mem hm
    rw [List.map_append, List.map_singleton] at hmem
    exact ⟨m.action, hmem, (marks_action m c).mpr htouches⟩

theorem put_notMem {calls : List (Call E)} (hput : ∀ e, .put c key e ∉ calls) (e : E) :
    .put c key e ∉ calls.map Call.action := by
  intro h
  obtain ⟨call, hcall, heq⟩ := List.mem_map.mp h
  cases call with
  | put c' key' e' =>
      obtain ⟨rfl, rfl, rfl⟩ := heq
      exact hput _ hcall
  | _ => nomatch heq

/-- What becomes of the entries of a cache, and when a call is not put off. -/
structure Debounced (invCooldown : Int) (s : State E) (calls : List (Call E)) : Prop where
  gone : ∀ c key, (∀ e, .put c key e ∉ calls) →
    ((s.runCalls invCooldown calls).caches c key = none ↔ s.caches c key = none ∨ Outdated invCooldown c s calls)
  kept : ∀ c key, (∀ e, .put c key e ∉ calls) →
    (s.runCalls invCooldown calls).caches c key = none ∨ (s.runCalls invCooldown calls).caches c key = s.caches c key
  apart : ∀ before first between second after inv now inv' now',
    calls = before ++ first :: between ++ second :: after →
    first.action = .invalidate inv now → second.action = .invalidate inv' now' →
    due invCooldown (s.runCalls invCooldown before) first.action →
    Along (State.step invCooldown) (fun s a => ¬ due invCooldown s a)
      (s.runCalls invCooldown (before ++ [first])) (between.map Call.action) →
    due invCooldown (s.runCalls invCooldown (before ++ first :: between)) second.action →
    ¬ inv'.eviction → invCooldown ≤ now' - now

/-- For any order of ingests, evictions and results that are put in, from any state of the caches. -/
theorem debounced (invCooldown : Int) (s : State E) (calls : List (Call E)) : Debounced invCooldown s calls := by
  refine ⟨fun c key hput => ?_, fun c key hput => run_kept _ (put_notMem hput), ?_⟩
  · rw [State.runCalls, run_none _ (put_notMem hput), dropped_map]
  intro before first between second after inv now inv' now' _ hfirst hsecond hdue hquiet hdue' hkept
  have hsplit : s.runCalls invCooldown (before ++ first :: between) =
      (s.runCalls invCooldown (before ++ [first])).run invCooldown (between.map Call.action) := by
    simp [State.runCalls, State.run]
  have hstep : s.runCalls invCooldown (before ++ [first]) =
      (s.runCalls invCooldown before).step invCooldown first.action := by
    simp [State.runCalls, State.run]
  have hlast : (s.runCalls invCooldown (before ++ first :: between)).lastInvalidated = now := by
    rw [hfirst] at hdue
    rw [hsplit, lastInvalidated_run _ hquiet, hstep, hfirst]
    exact (invalidate_due hdue).2.1
  rw [hsecond] at hdue'
  have hlate := hdue'.resolve_left hkept
  rwa [hlast] at hlate

end MeshcoreAnalyzer.PacketStore.CacheInvalidation

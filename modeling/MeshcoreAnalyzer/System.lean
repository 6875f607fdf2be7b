import MeshcoreAnalyzer.Eviction
import MeshcoreAnalyzer.Runs

namespace MeshcoreAnalyzer.PacketStore

open Maps Runs

/-! The store under all its producers: the loaders, the poller and the eviction
ticker take their critical sections in any order. -/

/-- The store, and the chunk that `loadChunk` has read but not published yet. -/
structure State where
  store : Store
  chunk : Option Chunk

/-- A critical section, with the rows it works on. -/
inductive Action
  | scanAndMergeChunk (relayPM : Option PrefixMap) (rows : List ScanRow)
  | finishLoad (env : Env) (hotCutoff : Option String)
  | ingestNewFromDB (env : Env) (sinceID limit : Int) (rows : List ScanRow)
  | ingestNewObservations (env : Env) (limit : Int) (rows : List ObsRow)
  | readChunk (relayPM : Option PrefixMap) (rows : List ScanRow)
  | mergeBatch
  | publish
  | rebuild
  | buildDistanceIndex (env : Env)
  | evict (ret : Retention) (rpBatch : Int → List String)

/-- The sections that run while nothing is being loaded. -/
inductive LiveAction
  | ingestNewFromDB (env : Env) (sinceID limit : Int) (rows : List ScanRow)
  | ingestNewObservations (env : Env) (limit : Int) (rows : List ObsRow)
  | evict (ret : Retention) (rpBatch : Int → List String)

def LiveAction.toAction : LiveAction → Action
  | .ingestNewFromDB env sinceID limit rows => .ingestNewFromDB env sinceID limit rows
  | .ingestNewObservations env limit rows => .ingestNewObservations env limit rows
  | .evict ret rpBatch => .evict ret rpBatch

def Store.live (s : Store) : LiveAction → Store
  | .ingestNewFromDB env sinceID limit rows => (s.ingestNewFromDB env sinceID limit rows).1
  | .ingestNewObservations env limit rows => s.ingestNewObservations env limit rows
  | .evict ret rpBatch => s.evictStaleInternal ret rpBatch

def Store.run (s : Store) (acts : List LiveAction) : Store := acts.foldl Store.live s

theorem Store.run_snoc (s : Store) (acts : List LiveAction) (a : LiveAction) :
    s.run (acts ++ [a]) = (s.run acts).live a := List.foldl_append

namespace State

def new (useResolvedPathIndex : Bool) : State := ⟨Store.new useResolvedPathIndex, none⟩

/-- `LoadChunked` and then `loadBackgroundChunks` run in one goroutine; the other
producers wait for nobody. -/
def Enabled (st : State) : Action → Prop
  | .scanAndMergeChunk _ _ | .finishLoad _ _ => st.store.loaded = false ∧ st.chunk = none
  | .readChunk _ _ | .rebuild => st.store.loaded = true ∧ st.chunk = none
  | .mergeBatch => ∃ c ∈ st.chunk, c.pending ≠ []
  | .publish => ∃ c ∈ st.chunk, c.pending = []
  | _ => True

def step (st : State) : Action → State
  | .scanAndMergeChunk relayPM rows => { st with store := st.store.scanAndMergeChunk relayPM rows }
  | .finishLoad env hotCutoff => { st with store := st.store.finishLoad env hotCutoff }
  | .ingestNewFromDB env sinceID limit rows =>
      { st with store := (st.store.ingestNewFromDB env sinceID limit rows).1 }
  | .ingestNewObservations env limit rows =>
      { st with store := st.store.ingestNewObservations env limit rows }
  | .readChunk relayPM rows =>
      ⟨(st.store.readChunk relayPM rows).1, (st.store.readChunk relayPM rows).2⟩
  | .mergeBatch => match st.chunk with
      | some c => ⟨(st.store.mergeBatch c).1, some (st.store.mergeBatch c).2⟩
      | none => st
  | .publish => match st.chunk with
      | some c => ⟨st.store.publish c, none⟩
      | none => st
  | .rebuild => { st with store := st.store.rebuild }
  | .buildDistanceIndex env => { st with store := st.store.buildDistanceIndex env }
  | .evict ret rpBatch => { st with store := st.store.evictStaleInternal ret rpBatch }

def locals (st : State) : List TxRef :=
  match st.chunk with
  | some c => c.packets
  | none => []

end State

theorem State.step_toAction (st : State) (a : LiveAction) :
    st.step a.toAction = { st with store := st.store.live a } := by
  cases a <;> rfl

theorem State.enabled_toAction (st : State) (a : LiveAction) : st.Enabled a.toAction := by
  cases a <;> trivial

/-- The states that the producers can bring about, from an empty store. -/
def Reachable (use : Bool) : State → Prop := Reach State.step State.Enabled (· = State.new use)

def State.after (use : Bool) (acts : List Action) : State := acts.foldl State.step (State.new use)

theorem State.after_snoc (use : Bool) (acts : List Action) (a : Action) :
    State.after use (acts ++ [a]) = (State.after use acts).step a := List.foldl_append

theorem reachable_after {use : Bool} {acts : List Action}
    (h : Along State.step State.Enabled (State.new use) acts) : Reachable use (State.after use acts) := by
  have hstart : Reachable use (State.new use) := .start rfl
  exact hstart.of_along h

/-- No distances, and every map ranged over in the order of its insertions. -/
def plainEnv (pm : Option PrefixMap) : Env where
  pm := pm
  tiers := fun _ _ => none
  hopRecords := fun _ => 0
  pickOrder := .inserted
  indexOrder := .inserted
  distOrder := .inserted

def plainTx (id : Int) (hash firstSeen : String) (payloadType : Int) : TxRow where
  id := id
  rawHex := ""
  hash := hash
  firstSeen := firstSeen
  routeType := some 1
  payloadType := some payloadType
  decodedJSON := ""
  scopeName := none

def plainObs (id txID : Int) (observerID pathJSON : String) : ObsRow where
  id := id
  txID := txID
  observerID := observerID
  observerName := ""
  observerIATA := ""
  direction := ""
  snr := none
  rssi := none
  score := none
  pathJSON := pathJSON
  timestamp := ""
  resolvedPath := ""

def bareRow (tx : TxRow) : ScanRow := ⟨tx, none, fun _ h => by cases h⟩

def heardRow (tx : TxRow) (id : Int) (observerID pathJSON : String) : ScanRow where
  tx := tx
  obs := some (plainObs id tx.id observerID pathJSON)
  joined := fun o h => by
    cases h
    rfl

end MeshcoreAnalyzer.PacketStore

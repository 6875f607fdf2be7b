import MeshcoreAnalyzer.NodeTouches
import MeshcoreAnalyzer.ReportOrder

namespace MeshcoreAnalyzer.NodeTables

open Timestamps Calendar ConfiguredScope Runs

/-! The writers of `nodes` and `inactive_nodes` in cmd/ingestor: db.go, prune_geofilter.go and
multibyte_persist.go. -/

/-- `UPDATE nodes SET advert_count = advert_count + 1 WHERE public_key = ?` -/
def incrementAdvertCount (pubKey : String) (s : Tables) : Tables :=
  { s with nodes := updateRow pubKey (fun row => { row with advertCount := row.advertCount.map (· + 1) }) s.nodes }

/-- `DELETE FROM nodes WHERE public_key IN (…)` -/
def deleteBatch (s : Tables) (batch : List String) : Tables :=
  { s with nodes := fun pk => if pk ∈ batch then none else s.nodes pk }

def deleteNodesByPubkeys (pubkeys : List String) (s : Tables) : Tables := (pubkeys.toChunks 500).foldl deleteBatch s

structure Entry where
  publicKey : String
  status : String
  evidence : String

def multibyteStatusToInt (status : String) : Int :=
  if status = "confirmed" then 2 else if status = "suspected" then 1 else 0

def setMultibyte (sup : Int) (evidence : String) (row : NodeRow) : NodeRow :=
  { row with multibyteSup := sup, multibyteEvidence := some evidence }

/-- The row in `nodes` is updated, or that in `inactive_nodes` where there is none. -/
def persistEntry (s : Tables) (e : Entry) : Tables :=
  let sup := multibyteStatusToInt e.status
  if sup = 0 then s
  else if (s.nodes e.publicKey).isSome then
    { s with nodes := updateRow e.publicKey (setMultibyte sup e.evidence) s.nodes }
  else { s with inactiveNodes := updateRow e.publicKey (setMultibyte sup e.evidence) s.inactiveNodes }

def runMultibyteCapPersist (entries : List Entry) (s : Tables) : Tables := entries.foldl persistEntry s

inductive Step where
  | upsertNode (pubKey name role : String) (lat lon : Option Float) (lastSeen ingestNow : String)
  | incrementAdvertCount (pubKey : String)
  | touchRelayNodes (pubkeys : List String) (rxTime : String)
  | moveStaleNodes (cutoff : String)
  | deleteNodes (pubkeys : List String)
  | persistMultibyte (entries : List Entry)

def State.step (s : State) : Step → State
  | .upsertNode pubKey name role lat lon lastSeen ingestNow =>
      { s with tables := s.tables.upsertNode pubKey name role lat lon lastSeen ingestNow }
  | .incrementAdvertCount pubKey => { s with tables := NodeTables.incrementAdvertCount pubKey s.tables }
  | .touchRelayNodes pubkeys rxTime => touchRelayNodesLocked pubkeys rxTime s
  | .moveStaleNodes cutoff => { s with tables := s.tables.moveStaleNodes cutoff }
  | .deleteNodes pubkeys => { s with tables := deleteNodesByPubkeys pubkeys s.tables }
  | .persistMultibyte entries => { s with tables := runMultibyteCapPersist entries s.tables }

def State.run (s : State) (steps : List Step) : State := steps.foldl State.step s

/-- No key has a row in both tables. -/
def OneTable (s : Tables) : Prop := ∀ pk, s.nodes pk = none ∨ s.inactiveNodes pk = none

/-- No row is made in `nodes` for a key of `inactive_nodes`. -/
def Fresh (s : State) : Step → Prop
  | .upsertNode pubKey .. => s.tables.inactiveNodes pubKey = none
  | _ => True

/-- Rows of `nodes` may change or go, and `inactive_nodes` stays. -/
structure Shrinks (s s' : Tables) : Prop where
  nodes : ∀ pk, s.nodes pk = none → s'.nodes pk = none
  inactiveNodes : s'.inactiveNodes = s.inactiveNodes

theorem Shrinks.refl (s : Tables) : Shrinks s s := ⟨fun _ h => h, rfl⟩

theorem Shrinks.trans {s s' s'' : Tables} (h : Shrinks s s') (h' : Shrinks s' s'') : Shrinks s s'' where
  nodes pk hpk := h'.nodes pk (h.nodes pk hpk)
  inactiveNodes := h'.inactiveNodes.trans h.inactiveNodes

theorem Shrinks.oneTable {s s' : Tables} (h : Shrinks s s') (hs : OneTable s) : OneTable s' := by
  intro pk
  rw [h.inactiveNodes]
  exact (hs pk).imp (h.nodes pk) id

theorem updateRow_eq_none {pubkey pk : String} {f : NodeRow → NodeRow} {table : String → Option NodeRow} :
    updateRow pubkey f table pk = none ↔ table pk = none := by
  by_cases hpk : pubkey = pk
  · subst hpk
    rw [updateRow_self, Option.map_eq_none_iff]
  · rw [updateRow_of_ne hpk]

theorem shrinks_updateRow (s : Tables) (pubkey : String) (f : NodeRow → NodeRow) :
    Shrinks s { s with nodes := updateRow pubkey f s.nodes } where
  nodes _ h := updateRow_eq_none.mpr h
  inactiveNodes := rfl

theorem shrinks_touchRelayNodesLocked (pubkeys : List String) (rxTime : String) (s : State) :
    Shrinks s.tables (touchRelayNodesLocked pubkeys rxTime s).tables := by
  apply touchRelayNodesLocked_induction pubkeys rxTime (.refl s.tables)
  intro stamp pk t ht
  exact ht.trans (shrinks_updateRow t pk _)

theorem shrinks_deleteBatch (s : Tables) (batch : List String) : Shrinks s (deleteBatch s batch) where
  nodes pk h := by
    rw [deleteBatch]
    exact ite_eq_left_iff.mpr fun _ => h
  inactiveNodes := rfl

theorem shrinks_deleteNodesByPubkeys (pubkeys : List String) (s : Tables) : Shrinks s (deleteNodesByPubkeys pubkeys s) := by
  apply foldl_invariant (I := fun t => Shrinks s t) (.refl s)
  intro t batch _ ht
  exact ht.trans (shrinks_deleteBatch t batch)

theorem moveStaleNodes_nodes (s : Tables) (cutoff pk : String) :
    (s.moveStaleNodes cutoff).nodes pk = (s.nodes pk).filter fun row => !row.stale cutoff := rfl

theorem moveStaleNodes_inactiveNodes (s : Tables) (cutoff pk : String) :
    (s.moveStaleNodes cutoff).inactiveNodes pk = ((s.nodes pk).filter (NodeRow.stale cutoff)).or (s.inactiveNodes pk) := rfl

theorem oneTable_moveStaleNodes {s : Tables} (h : OneTable s) (cutoff : String) : OneTable (s.moveStaleNodes cutoff) := by
  intro pk
  cases hrow : s.nodes pk with
  | none =>
      refine .inl ?_
      rw [moveStaleNodes_nodes, hrow]
      rfl
  | some row =>
      have hinactive : s.inactiveNodes pk = none := (h pk).resolve_left (hrow ▸ Option.some_ne_none row)
      cases hstale : row.stale cutoff with
      | true =>
          refine .inl ?_
          rw [moveStaleNodes_nodes, hrow, Option.filter_some, hstale]
          rfl
      | false =>
          refine .inr ?_
          rw [moveStaleNodes_inactiveNodes, hinactive, hrow, Option.filter_some, hstale]
          rfl

theorem upsertNode_nodes_eq_none {s : Tables} {pubKey name role lastSeen ingestNow pk : String} {lat lon : Option Float} :
    (s.upsertNode pubKey name role lat lon lastSeen ingestNow).nodes pk = none ↔ pk ≠ pubKey ∧ s.nodes pk = none := by
  by_cases hpk : pk = pubKey
  · subst hpk
    simp [Tables.upsertNode]
  · simp [Tables.upsertNode, hpk]

theorem oneTable_upsertNode {s : Tables} (h : OneTable s) {pubKey name role lastSeen ingestNow : String}
    {lat lon : Option Float} :
    OneTable (s.upsertNode pubKey name role lat lon lastSeen ingestNow) ↔ s.inactiveNodes pubKey = none := by
  constructor
  · intro hall
    exact (hall pubKey).resolve_left fun hnone => (upsertNode_nodes_eq_none.mp hnone).1 rfl
  · intro hfree pk
    by_cases hpk : pk = pubKey
    · exact .inr (hpk ▸ hfree)
    · exact (h pk).imp (fun hnone => upsertNode_nodes_eq_none.mpr ⟨hpk, hnone⟩) id

theorem oneTable_persistEntry {s : Tables} (h : OneTable s) (e : Entry) : OneTable (persistEntry s e) := by
  intro pk
  simp only [persistEntry]
  split
  · exact h pk
  · split
    · exact (h pk).imp updateRow_eq_none.mpr id
    · exact (h pk).imp id updateRow_eq_none.mpr

theorem oneTable_runMultibyteCapPersist {s : Tables} (h : OneTable s) (entries : List Entry) :
    OneTable (runMultibyteCapPersist entries s) := by
  apply foldl_invariant (I := OneTable) h
  intro t e _ ht
  exact oneTable_persistEntry ht e

theorem oneTable_step {s : State} (h : OneTable s.tables) (a : Step) : OneTable (s.step a).tables ↔ Fresh s a := by
  cases a with
  | upsertNode pubKey name role lat lon lastSeen ingestNow => exact oneTable_upsertNode h
  | incrementAdvertCount pubKey => exact iff_of_true ((shrinks_updateRow _ _ _).oneTable h) trivial
  | touchRelayNodes pubkeys rxTime => exact iff_of_true ((shrinks_touchRelayNodesLocked pubkeys rxTime s).oneTable h) trivial
  | moveStaleNodes cutoff => exact iff_of_true (oneTable_moveStaleNodes h cutoff) trivial
  | deleteNodes pubkeys => exact iff_of_true ((shrinks_deleteNodesByPubkeys pubkeys s.tables).oneTable h) trivial
  | persistMultibyte entries => exact iff_of_true (oneTable_runMultibyteCapPersist h entries) trivial

theorem oneTable_empty : OneTable State.empty.tables := fun _ => .inl rfl

/-- A node lives in one table all along a run if and only if no advert of the run is from a node that was moved
to `inactive_nodes` before it. -/
theorem oneTable_along_iff (steps : List Step) :
    (∀ done, done <+: steps → OneTable (State.empty.run done).tables) ↔ Along State.step Fresh State.empty steps := by
  have hall : Along State.step (fun _ _ => True) State.empty steps := along_of_forall fun _ _ _ => trivial
  refine prefixes_iff (I := fun _ => True) (G := fun s : State => OneTable s.tables) hall trivial ?_ oneTable_empty ?_
  · intro s a _ _
    trivial
  · intro s a _ _ h
    exact oneTable_step h a

/-- A node that was silent for longer than the retention is heard again. -/
theorem returned_in_both_tables :
    ¬OneTable (State.empty.run
      [.upsertNode "a1" "Hilltop" "repeater" none none "2026-01-01T00:00:00Z" "2026-01-01T00:00:01Z",
        .moveStaleNodes "2026-03-01T00:00:00Z",
        .upsertNode "a1" "Hilltop" "repeater" none none "2026-03-08T00:00:00Z" "2026-03-08T00:00:01Z"]).tables := by
  intro h
  rcases h "a1" with hnodes | hinactive
  · exact absurd (congrArg Option.isSome hnodes) (by decide)
  · exact absurd (congrArg Option.isSome hinactive) (by decide)

end MeshcoreAnalyzer.NodeTables

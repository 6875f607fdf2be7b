import MeshcoreAnalyzer.ConfiguredScope
import MeshcoreAnalyzer.Layers
import MeshcoreAnalyzer.MillisStamps
import MeshcoreAnalyzer.Runs

namespace MeshcoreAnalyzer.NodeTables

open Calendar ConfiguredScope Layers MillisStamps Timestamps

/-! `touchRelayNodesLocked` of cmd/ingestor/db.go: the nodes that relay a packet are seen when it is received. Times
are nanoseconds. -/

def relayTouchDebounce : Int := 5 * 60 * second

def relayTouchedMaxEntries : Nat := 50000

/-- The debounce map, from a key to the time of its last write. -/
structure Touched where
  entries : List (String × Int)
  nodup : (entries.map Prod.fst).Nodup

namespace Touched

def empty : Touched := ⟨[], List.nodup_nil⟩

def set (m : Touched) (pk : String) (ts : Int) : Touched where
  entries := (pk, ts) :: m.entries.filter fun e => e.1 ≠ pk
  nodup := by
    rw [List.map_cons, List.nodup_cons]
    refine ⟨fun hmem => ?_, m.nodup.sublist (List.filter_sublist.map Prod.fst)⟩
    obtain ⟨e, he, hpk⟩ := List.mem_map.mp hmem
    exact of_decide_eq_true (List.mem_filter.mp he).2 hpk

/-- `compactRelayTouched` -/
def compact (m : Touched) (now : Int) : Touched where
  entries := m.entries.filter fun e => ¬ e.2 < now - 2 * relayTouchDebounce
  nodup := m.nodup.sublist (List.filter_sublist.map Prod.fst)

variable {m : Touched} {pk q : String} {ts last : Int}

theorem read_compact (h : read (m.compact ts).entries pk = some last) : read m.entries pk = some last := by
  have hmem := (read_eq_some (m.compact ts).nodup).mp h
  exact (read_eq_some m.nodup).mpr (List.mem_filter.mp hmem).1

theorem read_set (h : read (m.set pk ts).entries q = some last) :
    q = pk ∧ last = ts ∨ read m.entries q = some last := by
  have hmem : (q, last) ∈ (pk, ts) :: m.entries.filter _ := (read_eq_some (m.set pk ts).nodup).mp h
  rcases List.mem_cons.mp hmem with heq | hmem
  · exact .inl (Prod.mk.inj heq)
  · exact .inr ((read_eq_some m.nodup).mpr (List.mem_filter.mp hmem).1)

end Touched

/-- The two tables of nodes and the debounce map. -/
structure State where
  tables : Tables
  relayTouched : Touched

def State.empty : State := ⟨Tables.empty, Touched.empty⟩

/-- `UPDATE nodes SET last_seen = ? WHERE public_key = ? AND (last_seen IS NULL OR last_seen < ?)` -/
def touchRow (stamp : String) (row : NodeRow) : NodeRow :=
  if row.lastSeen.all (· < stamp) then { row with lastSeen := some stamp } else row

def touchNodeLastSeen (stamp pk : String) (t : Tables) : Tables :=
  { t with nodes := updateRow pk (touchRow stamp) t.nodes }

def touchRelayNode (ts : Int) (s : State) (pk : String) : State :=
  let written : State :=
    { tables := touchNodeLastSeen (stamp (ts / second)) pk s.tables, relayTouched := s.relayTouched.set pk ts }
  if pk = "" then s
  else match read s.relayTouched.entries pk with
    | some last => if sub ts last < relayTouchDebounce then s else written
    | none => written

def touchRelayNodesLocked (pubkeys : List String) (rxTime : String) (s : State) : State :=
  if pubkeys = [] then s
  else match parseRFC3339 rxTime with
    | none => s
    | some ts =>
        let relayTouched :=
          if relayTouchedMaxEntries ≤ s.relayTouched.entries.length then s.relayTouched.compact ts else s.relayTouched
        pubkeys.foldl (touchRelayNode ts) { s with relayTouched }

theorem touchRelayNode_cases (ts : Int) (s : State) (pk : String) : touchRelayNode ts s pk = s ∨
    touchRelayNode ts s pk = ⟨touchNodeLastSeen (stamp (ts / second)) pk s.tables, s.relayTouched.set pk ts⟩ := by
  rw [touchRelayNode]
  by_cases hempty : pk = ""
  · exact .inl (if_pos hempty)
  · rw [if_neg hempty]
    cases hread : read s.relayTouched.entries pk with
    | none => exact .inr rfl
    | some last => exact (ite_eq_or_eq _ _ _)

theorem touchRelayNodesLocked_induction {I : Tables → Prop} {s : State} (pubkeys : List String) (rxTime : String)
    (h : I s.tables) (hstep : ∀ stamp pk t, I t → I (touchNodeLastSeen stamp pk t)) :
    I (touchRelayNodesLocked pubkeys rxTime s).tables := by
  rw [touchRelayNodesLocked]
  by_cases hnone : pubkeys = []
  · rw [if_pos hnone]
    exact h
  · rw [if_neg hnone]
    cases parseRFC3339 rxTime with
    | none => exact h
    | some ts =>
        refine Runs.foldl_invariant (I := fun t : State => I t.tables) h fun t pk _ ht => ?_
        obtain hsame | hwritten := touchRelayNode_cases ts t pk
        · rw [hsame]
          exact ht
        · rw [hwritten]
          exact hstep _ pk t.tables ht

end MeshcoreAnalyzer.NodeTables

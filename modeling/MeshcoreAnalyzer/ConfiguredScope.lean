import MeshcoreAnalyzer.PacketQueries
import MeshcoreAnalyzer.Registers

namespace MeshcoreAnalyzer.ConfiguredScope

open Timestamps Calendar Registers
open PacketStore (trimSpace splitComma)

/-! `UpdateNodeConfiguredScope`, `MoveStaleNodes` and `UpsertNode` of cmd/ingestor/db.go. -/

/-- A row of `nodes` or of `inactive_nodes`. -/
structure NodeRow where
  name : Option String
  role : Option String
  lat : Option Float
  lon : Option Float
  lastSeen : Option String
  firstSeen : Option String
  advertCount : Option Int
  configuredScope : Option String
  configuredScopeAt : Option String
  multibyteSup : Int
  multibyteEvidence : Option String

/-- The rows by `public_key`. -/
structure Tables where
  nodes : String → Option NodeRow
  inactiveNodes : String → Option NodeRow

def normalizeReportTS (raw : String) : String :=
  if raw = "" then ""
  else match parseRFC3339 raw with
    | some t => stamp (t / second)
    | none => ""

def canonicalScope (p : String) : String :=
  if p ≠ "*" ∧ p.toList.head? ≠ some '#' then String.ofList ('#' :: p.toList) else p

def normalizeScopeList (raw : String) : String :=
  if trimSpace raw = "" then ""
  else
    let out := (((splitComma raw).map trimSpace).filter (· ≠ "")).map canonicalScope
    String.ofList ([','].intercalate (out.map String.toList))

/-- `UPDATE … SET configured_scope = ?, configured_scope_at = ?` -/
def NodeRow.configure (scope reportedAt : String) (row : NodeRow) : NodeRow :=
  { row with configuredScope := some scope, configuredScopeAt := some reportedAt }

def NodeRow.confirmedSince (reportedAt : String) (row : NodeRow) : Bool :=
  row.configuredScopeAt.any fun curAt => curAt ≠ "" ∧ reportedAt ≤ curAt

/-- `last_seen < ?`, which is not so for NULL. -/
def NodeRow.stale (cutoff : String) (row : NodeRow) : Bool := row.lastSeen.any (· < cutoff)

/-- An `UPDATE` of the row of a key, if there is one. -/
def updateRow (pubkey : String) (f : NodeRow → NodeRow) (table : String → Option NodeRow) : String → Option NodeRow :=
  Function.update table pubkey ((table pubkey).map f)

namespace Tables

def empty : Tables := ⟨fun _ => none, fun _ => none⟩

def updateNodeConfiguredScope (pubkey scope reportedAt : String) (s : Tables) : Tables :=
  if pubkey = "" then s
  else
    let reportedAt := normalizeReportTS reportedAt
    let scope := normalizeScopeList scope
    if reportedAt ≠ "" ∧ (s.nodes pubkey).any (NodeRow.confirmedSince reportedAt) then s
    else
      { nodes := updateRow pubkey (NodeRow.configure scope reportedAt) s.nodes
        inactiveNodes := updateRow pubkey (NodeRow.configure scope reportedAt) s.inactiveNodes }

/-- `INSERT OR REPLACE INTO inactive_nodes SELECT * FROM nodes WHERE last_seen < ?`, and the same rows are deleted. -/
def moveStaleNodes (cutoff : String) (s : Tables) : Tables where
  nodes := fun pk => (s.nodes pk).filter fun row => !row.stale cutoff
  inactiveNodes := fun pk => ((s.nodes pk).filter (NodeRow.stale cutoff)).or (s.inactiveNodes pk)

def upsertNode (pubKey name role : String) (lat lon : Option Float) (lastSeen ingestNow : String) (s : Tables) : Tables :=
  let now := if lastSeen = "" then ingestNow else lastSeen
  let row := match s.nodes pubKey with
    | none =>
        { name := some name, role := some role, lat := lat, lon := lon, lastSeen := some now, firstSeen := some now,
          advertCount := some 0, configuredScope := none, configuredScopeAt := none, multibyteSup := 0,
          multibyteEvidence := none }
    | some row =>
        { row with
          name := some name
          role := some role
          lat := lat <|> row.lat
          lon := lon <|> row.lon
          lastSeen := some (max (min (row.lastSeen.getD "") ingestNow) now) }
  { s with nodes := Function.update s.nodes pubKey (some row) }

end Tables

inductive Step where
  | report (pubkey scope reportedAt : String)
  | moveStale (cutoff : String)
  | advert (pubKey name role : String) (lat lon : Option Float) (lastSeen ingestNow : String)

def Tables.step (s : Tables) : Step → Tables
  | .report pubkey scope reportedAt => s.updateNodeConfiguredScope pubkey scope reportedAt
  | .moveStale cutoff => s.moveStaleNodes cutoff
  | .advert pubKey name role lat lon lastSeen ingestNow => s.upsertNode pubKey name role lat lon lastSeen ingestNow

def Tables.run (s : Tables) (steps : List Step) : Tables := steps.foldl Tables.step s

example : normalizeScopeList "*,dk, #eu,," = "*,#dk,#eu" := by decide

example : normalizeReportTS "2026-07-26T11:43:48.25+02:00" = "2026-07-26T09:43:48Z" := by decide

def reportSecond (reportedAt : String) : Option Int := (parseRFC3339 reportedAt).map (· / second)

def stampText (at? : Option Int) : String := (at?.map stamp).getD ""

def Tables.Known (s : Tables) (pk : String) : Prop := (s.nodes pk).isSome ∨ (s.inactiveNodes pk).isSome

instance (s : Tables) (pk : String) : Decidable (s.Known pk) := inferInstanceAs (Decidable (_ ∨ _))

def heardAt (pk : String) (s : Tables) : Step → List (Write String Int)
  | .report pubkey scope reportedAt =>
      if pubkey = pk ∧ pk ≠ "" ∧ s.Known pk then [⟨normalizeScopeList scope, reportSecond reportedAt⟩] else []
  | _ => []

/-- The reports about a node in the order of their delivery. -/
def heard (pk : String) : Tables → List Step → List (Write String Int)
  | _, [] => []
  | s, a :: steps => heardAt pk s a ++ heard pk (s.step a) steps

def NodeRow.configured (row : NodeRow) : Option (String × String) :=
  row.configuredScope.map fun scope => (scope, row.configuredScopeAt.getD "")

def Tables.HasRow (s : Tables) (pk : String) (row : NodeRow) : Prop :=
  s.nodes pk = some row ∨ s.inactiveNodes pk = some row

theorem normalizeReportTS_eq (reportedAt : String) : normalizeReportTS reportedAt = stampText (reportSecond reportedAt) := by
  rw [normalizeReportTS, reportSecond]
  split
  · next h =>
    rw [h]
    decide
  · cases parseRFC3339 reportedAt <;> rfl

def Datable (at? : Option Int) : Prop := ∀ e ∈ at?, earliestStamp ≤ e ∧ e ≤ lastStamp

theorem stamp_ne_empty (e : Int) : stamp e ≠ "" := by
  intro h
  have hlist := congrArg String.toList h
  rw [stamp, String.toList_ofList] at hlist
  have hlen := congrArg List.length hlist
  rw [List.length_append, clockText] at hlen
  simp at hlen

theorem stampText_ne_empty {at? : Option Int} : stampText at? ≠ "" ↔ at?.isSome := by
  cases at? with
  | none => exact ⟨fun h => absurd rfl h, fun h => Bool.noConfusion h⟩
  | some e => exact ⟨fun _ => rfl, fun _ => stamp_ne_empty e⟩

theorem datable_reportSecond {reportedAt : String} (h : ∀ e ∈ reportSecond reportedAt, e ≤ lastStamp) :
    Datable (reportSecond reportedAt) := by
  intro e he
  refine ⟨?_, h e he⟩
  obtain ⟨t, ht, rfl⟩ := Option.map_eq_some_iff.mp he
  exact parseRFC3339_ge ht

def NodeRow.Shows (row : NodeRow) (held : Option (Write String Int)) : Prop :=
  row.configuredScope = held.map Write.value ∧ row.configuredScopeAt = held.map fun w => stampText w.time

theorem NodeRow.configure_shows (row : NodeRow) (w : Write String Int) :
    (row.configure w.value (stampText w.time)).Shows (some w) :=
  ⟨rfl, rfl⟩

theorem NodeRow.Shows.configured {row : NodeRow} {held : Option (Write String Int)} (h : row.Shows held) :
    row.configured = held.map fun w => (w.value, stampText w.time) := by
  rw [NodeRow.configured, h.1, h.2]
  cases held <;> rfl

theorem NodeRow.Shows.confirmedSince {row : NodeRow} {held : Option (Write String Int)} (h : row.Shows held)
    (hheld : ∀ v ∈ held, Datable v.time) {w : Write String Int} (hw : Datable w.time) :
    (stampText w.time ≠ "" ∧ row.confirmedSince (stampText w.time) = true) ↔ ∃ v, held = some v ∧ w.NotLater v := by
  rw [NodeRow.confirmedSince, h.2, stampText_ne_empty]
  cases held with
  | none => simp
  | some v =>
      cases hwt : w.time with
      | none => simp [Write.NotLater, hwt]
      | some t' =>
          cases hvt : v.time with
          | none => simp [Write.NotLater, hvt, stampText]
          | some t =>
              have hle := stamp_le_iff (hw t' hwt).1 (hw t' hwt).2 (hheld v rfl t hvt).1 (hheld v rfl t hvt).2
              simp [Write.NotLater, hwt, hvt, stampText, stamp_ne_empty, hle]

end MeshcoreAnalyzer.ConfiguredScope

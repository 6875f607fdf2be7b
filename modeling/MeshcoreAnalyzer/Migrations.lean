import MeshcoreAnalyzer.Interrupts
import Mathlib.Data.List.Basic
import Mathlib.Logic.Function.Basic

namespace MeshcoreAnalyzer.Migrations

open Interrupts

/-! The columns of `nodes` and `inactive_nodes`: what `applySchema` of cmd/ingestor/db.go and `Apply` of
internal/dbschema/dbschema.go do to them. -/

inductive Table
  | nodes
  | inactiveNodes
deriving DecidableEq

/-- The columns of the tables that exist, and the names in `_migrations`. -/
structure Schema where
  columns : Table → Option (List String)
  migrations : List String

inductive Failure
  | duplicateColumn
  | noSuchTable
deriving DecidableEq

abbrev Migration := Program Failure Schema

def sameName (a b : String) : Bool := a.toList.map Char.toLower = b.toList.map Char.toLower

def setColumns (t : Table) (cols : List String) (s : Schema) : Schema :=
  { s with columns := Function.update s.columns t (some cols) }

/-- `CREATE TABLE IF NOT EXISTS` -/
def createTable (t : Table) (cols : List String) (s : Schema) : Schema :=
  if s.columns t = none then setColumns t cols s else s

/-- `ALTER TABLE … ADD COLUMN` -/
def addColumn (t : Table) (col : String) (s : Schema) : Except Failure Schema :=
  match s.columns t with
  | none => .error .noSuchTable
  | some cols => if cols.any (sameName col) then .error .duplicateColumn else .ok (setColumns t (cols ++ [col]) s)

/-- `INSERT INTO _migrations` -/
def record (name : String) (s : Schema) : Schema :=
  if name ∈ s.migrations then s else { s with migrations := s.migrations ++ [name] }

def recorded (name : String) (s : Schema) : Bool := name ∈ s.migrations

/-- What `PRAGMA table_info` tells about a column. -/
def hasColumn (t : Table) (col : String) (s : Schema) : Bool := (s.columns t).any (col ∈ ·)

def nodeTables : List Table := [.nodes, .inactiveNodes]

def firstColumns : List String :=
  ["public_key", "name", "role", "lat", "lon", "last_seen", "first_seen", "advert_count"]

def baseColumns : List String := firstColumns ++ ["battery_mv", "temperature_c", "foreign_advert"]

def checkAndAddColumn (t : Table) (col : String) : Migration Unit := do
  unless (← query (hasColumn t col)) do
    exec (addColumn t col)

def nodeTelemetry : Migration Unit := do
  unless (← query (recorded "node_telemetry_v1")) do
    checkAndAddColumn .nodes "battery_mv"
    checkAndAddColumn .nodes "temperature_c"
    checkAndAddColumn .inactiveNodes "battery_mv"
    checkAndAddColumn .inactiveNodes "temperature_c"
    exec (.ok ∘ record "node_telemetry_v1")

def foreignAdvert : Migration Unit := do
  unless (← query (recorded "foreign_advert_v1")) do
    ignore (exec (addColumn .nodes "foreign_advert"))
    ignore (exec (addColumn .inactiveNodes "foreign_advert"))
    exec (.ok ∘ record "foreign_advert_v1")

def applySchema : Migration Unit := do
  exec (.ok ∘ createTable .nodes baseColumns)
  exec (.ok ∘ createTable .inactiveNodes baseColumns)
  nodeTelemetry
  foreignAdvert

def ensureInactiveNodesTable : Migration Unit := exec (.ok ∘ createTable .inactiveNodes baseColumns)

def ensureForeignAdvertColumn : Migration Unit :=
  nodeTables.forM fun t => checkAndAddColumn t "foreign_advert"

def ensureDefaultScopeColumns : Migration Unit := do
  nodeTables.forM fun t => checkAndAddColumn t "default_scope"
  exec (.ok ∘ record "nodes_default_scope_v1")

def ensureConfiguredScopeColumns : Migration Unit := do
  nodeTables.forM fun t => ["configured_scope", "configured_scope_at"].forM (checkAndAddColumn t)
  exec (.ok ∘ record "nodes_configured_scope_v1")

def ensureMultibyteCapColumns : Migration Unit :=
  nodeTables.forM fun t => do
    checkAndAddColumn t "multibyte_sup"
    checkAndAddColumn t "multibyte_evidence"

def apply : Migration Unit := do
  ensureInactiveNodesTable
  ensureForeignAdvertColumn
  ensureDefaultScopeColumns
  ensureConfiguredScopeColumns
  ensureMultibyteCapColumns

def openStore : Migration Unit := do
  applySchema
  apply

/-- A start of the ingestor, stopped after so many statements or not at all. -/
def attempt (left : Option Nat) (s : Schema) : Except (Stop Failure) Unit × Schema :=
  let (result, s', _) := openStore (s, left)
  (result, s')

def attempts (lefts : List (Option Nat)) (s : Schema) : Schema := lefts.foldl (fun s left => (attempt left s).2) s

/-- `INSERT INTO … SELECT *`: the values of a row by position, under the columns of the other table. -/
def insertSelect {V : Type} (src dst : List String) (row : String → V) : Option (List (String × V)) :=
  if src.length = dst.length then some (dst.zip (src.map row)) else none

end MeshcoreAnalyzer.Migrations

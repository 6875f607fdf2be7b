import MeshcoreAnalyzer.Timestamps
import MeshcoreAnalyzer.Upserts
import Mathlib.Order.Basic
import Mathlib.Data.String.Basic

namespace MeshcoreAnalyzer.Ingest

open Timestamps Upserts

/-! `InsertTransmission` of cmd/ingestor/db.go, over the tables that it writes. -/

structure ObserverRow where
  rowid : Int
  id : String
  lastSeen : Option String
  lastPacketAt : Option String

/-- `hash` is unique. -/
structure TransmissionRow where
  id : Int
  rawHex : String
  hash : String
  firstSeen : String
  routeType : Int
  payloadType : Int
  payloadVersion : Int
  decodedJSON : String
  channelHash : Option String
  scopeName : Option String
  fromPubkey : Option String
  lastSeen : Int
  code1 : Option String
  code2 : Option String

structure ObservationRow where
  id : Int
  transmissionID : Int
  observerIdx : Option Int
  direction : Option String
  snr : Option Float
  rssi : Option Float
  score : Option Float
  pathJSON : Option String
  timestamp : Int
  rawHex : Option String
  resolvedPath : Option String

structure DB where
  observers : List ObserverRow
  transmissions : List TransmissionRow
  observations : List ObservationRow

structure PacketData where
  rawHex : String
  timestamp : String
  observerID : String
  snr : Option Float
  rssi : Option Float
  score : Option Float
  direction : Option String
  hash : String
  routeType : Int
  payloadType : Int
  payloadVersion : Int
  pathJSON : String
  decodedJSON : String
  channelHash : String
  scopeName : String
  isTransportScoped : Bool
  code1 : String
  code2 : String
  fromPubkey : String

/-- What a call finds around it: the readings of the clock, and what the resolver makes of the path. -/
structure Env where
  ingestNow : String
  insertUnix : Int
  observationUnix : Int
  resolvedJSON : PacketData → String

def nilIfEmpty (s : String) : Option String := if s = "" then none else some s

def scopeNameForDB (data : PacketData) : Option String := if data.isTransportScoped then some data.scopeName else none

def epochSeconds (rxTime : String) (now : Int) : Int := ((parseRFC3339 rxTime).map (· / second)).getD now

/-- `AUTOINCREMENT`, in a table from which nothing is deleted. SQLite may also use up an ID where `DO UPDATE` runs;
the IDs after it are then greater, and in the same order. -/
def nextID (ids : List Int) : Int := ids.foldl max 0 + 1

def ObservationRow.dedupKey (o : ObservationRow) : Option (Int × Int × String) :=
  o.observerIdx.map fun idx => (o.transmissionID, idx, o.pathJSON.getD "")

/-- `DO UPDATE SET`: what the new row has. -/
def ObservationRow.fillIn (excluded old : ObservationRow) : ObservationRow :=
  { old with
    snr := excluded.snr <|> old.snr
    rssi := excluded.rssi <|> old.rssi
    score := excluded.score <|> old.score
    rawHex := excluded.rawHex <|> old.rawHex
    resolvedPath := excluded.resolvedPath <|> old.resolvedPath }

namespace DB

def recordTransmission (env : Env) (rxTime : String) (data : PacketData) (db : DB) : Int × Bool × DB :=
  match db.transmissions.find? fun t => t.hash = data.hash with
  | some t =>
      (t.id, false,
        if rxTime < t.firstSeen then
          { db with transmissions := update (fun r => r.id = t.id) (fun r => { r with firstSeen := rxTime }) db.transmissions }
        else db)
  | none =>
      let row : TransmissionRow :=
        { id := nextID (db.transmissions.map fun t => t.id)
          rawHex := data.rawHex
          hash := data.hash
          firstSeen := rxTime
          routeType := data.routeType
          payloadType := data.payloadType
          payloadVersion := data.payloadVersion
          decodedJSON := data.decodedJSON
          channelHash := nilIfEmpty data.channelHash
          scopeName := scopeNameForDB data
          fromPubkey := nilIfEmpty data.fromPubkey
          lastSeen := epochSeconds rxTime env.insertUnix
          code1 := nilIfEmpty data.code1
          code2 := nilIfEmpty data.code2 }
      (row.id, true, { db with transmissions := db.transmissions ++ [row] })

def rowidOf (db : DB) (observerID : String) : Option Int :=
  if observerID = "" then none
  else (db.observers.find? fun o => o.id = observerID).map fun o => o.rowid

/-- `MAX(MIN(COALESCE(last_seen, ''), ?), ?)`, and the same for the last packet. -/
def touchObserver (ingestNow : String) (rowid : Int) (db : DB) : DB :=
  { db with
    observers := update (fun o => o.rowid = rowid)
      (fun o =>
        { o with
          lastSeen := some (max (min (o.lastSeen.getD "") ingestNow) ingestNow)
          lastPacketAt := some (max (min (o.lastPacketAt.getD "") ingestNow) ingestNow) }) db.observers }

def resolveObserver (env : Env) (observerID : String) (db : DB) : Option Int × DB :=
  match db.rowidOf observerID with
  | some rowid => (some rowid, db.touchObserver env.ingestNow rowid)
  | none => (none, db)

def insertObservation (row : ObservationRow) (db : DB) : DB :=
  { db with observations := upsert ObservationRow.dedupKey row.fillIn row db.observations }

def bumpTxLastSeen (epochTs txID : Int) (db : DB) : DB :=
  { db with
    transmissions := update (fun t => t.id = txID ∧ t.lastSeen < epochTs) (fun t => { t with lastSeen := epochTs })
      db.transmissions }

def observationRow (env : Env) (data : PacketData) (txID : Int) (observerIdx : Option Int) (epochTs : Int) (db : DB) :
    ObservationRow where
  id := nextID (db.observations.map fun o => o.id)
  transmissionID := txID
  observerIdx := observerIdx
  direction := data.direction
  snr := data.snr
  rssi := data.rssi
  score := data.score
  pathJSON := some data.pathJSON
  timestamp := epochTs
  rawHex := nilIfEmpty data.rawHex
  resolvedPath := nilIfEmpty (env.resolvedJSON data)

def insertTransmission (env : Env) (data : PacketData) (db : DB) : Bool × DB :=
  if data.hash = "" then (false, db)
  else
    let rxTime := if data.timestamp = "" then env.ingestNow else data.timestamp
    let (txID, isNew, db) := db.recordTransmission env rxTime data
    let (observerIdx, db) := db.resolveObserver env data.observerID
    let epochTs := epochSeconds rxTime env.observationUnix
    let db := db.insertObservation (db.observationRow env data txID observerIdx epochTs)
    (isNew, db.bumpTxLastSeen epochTs txID)

def ingest (db : DB) (calls : List (Env × PacketData)) : DB :=
  calls.foldl (fun db call => (db.insertTransmission call.1 call.2).2) db

end DB

end MeshcoreAnalyzer.Ingest

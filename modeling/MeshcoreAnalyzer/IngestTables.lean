import MeshcoreAnalyzer.TransmissionInserts
import Mathlib.Data.List.Basic

namespace MeshcoreAnalyzer.IngestTables

open Upserts
open Ingest (TransmissionRow ObservationRow PacketData Env epochSeconds nilIfEmpty scopeNameForDB)

/-! The statements that the ingestor runs on the tables of packets and observers, and the calls of
`InsertTransmission` that hold `writerMu` between them (cmd/ingestor/db.go, maintenance.go,
internal/dbschema). A statement is atomic; the statements of different goroutines come in any order. -/

/-- `id` is the primary key, and `rowid` the hidden one. -/
structure Observer where
  rowid : Int
  id : String
  name : Option String := none
  iata : Option String := none
  lastSeen : Option String := none
  firstSeen : Option String := none
  packetCount : Option Int := some 0
  model : Option String := none
  firmware : Option String := none
  clientVersion : Option String := none
  radio : Option String := none
  batteryMv : Option Int := none
  uptimeSecs : Option Int := none
  noiseFloor : Option Float := none
  inactive : Option Bool := some false
  lastPacketAt : Option String := none
  clockSkewSeconds : Option Int := none
  clockSkewCount24h : Option Int := some 0
  clockLastNaiveAt : Option String := none
  canRelay : Option Bool := some true
  canRelaySeen : Option Bool := some false

structure Metrics where
  observerID : String
  timestamp : String
  noiseFloor : Option Float
  txAirSecs : Option Int
  rxAirSecs : Option Int
  recvErrors : Option Int
  batteryMv : Option Int
  packetsSent : Option Int
  packetsRecv : Option Int

structure DroppedPacket where
  hash : String
  rawHex : String
  reason : String
  observerID : String
  observerName : String
  nodePubKey : String
  nodeName : String
  droppedAt : String

/-- `txSeq` and `obsSeq` are the rows of `sqlite_sequence`. -/
structure Tables where
  observers : List Observer
  transmissions : List TransmissionRow
  observations : List ObservationRow
  observerMetrics : List Metrics
  droppedPackets : List DroppedPacket
  txSeq : Int
  obsSeq : Int

def Tables.empty : Tables := ⟨[], [], [], [], [], 0, 0⟩

/-- What `observerMetaColumns` makes of a status: a column for which there is nothing stays as it is. -/
structure MetaColumns where
  model : Option String := none
  firmware : Option String := none
  clientVersion : Option String := none
  radio : Option String := none
  batteryMv : Option Int := none
  uptimeSecs : Option Int := none
  noiseFloor : Option Float := none
  canRelay : Option Bool := none

/-- `COALESCE(?, …)` in each of the columns of a status. -/
def Observer.describe (name iata : String) (m : MetaColumns) (o : Observer) : Observer :=
  { o with
    name := some name
    iata := some iata
    model := m.model <|> o.model
    firmware := m.firmware <|> o.firmware
    clientVersion := m.clientVersion <|> o.clientVersion
    radio := m.radio <|> o.radio
    batteryMv := m.batteryMv <|> o.batteryMv
    uptimeSecs := m.uptimeSecs <|> o.uptimeSecs
    noiseFloor := m.noiseFloor <|> o.noiseFloor
    canRelay := m.canRelay <|> o.canRelay
    canRelaySeen := if m.canRelay.isNone then o.canRelaySeen else some true }

/-- `MAX(MIN(COALESCE(last, ''), ?), ?)` -/
def later (last : Option String) (ingestNow seen : String) : String := max (min (last.getD "") ingestNow) seen

/-- `inactive IS NULL OR inactive = 0` -/
def Observer.listed (o : Observer) : Bool := o.inactive != some true

/-- `last_seen < ?` -/
def Observer.seenBefore (cutoff : String) (o : Observer) : Bool := o.lastSeen.any (· < cutoff)

namespace Tables

def rowidOf (t : Tables) (observerID : String) : Option Int :=
  if observerID = "" then none
  else (t.observers.find? fun o => o.id = observerID).map fun o => o.rowid

/-- The rowid that SQLite gives to the next row of a table without `AUTOINCREMENT`. -/
def nextRowid (t : Tables) : Int := (t.observers.map fun o => o.rowid).foldl max 0 + 1

/-- `stmtUpsertObserver` -/
def upsertObserver (id name iata lastSeen ingestNow : String) (m : MetaColumns) (t : Tables) : Tables :=
  let row : Observer := { rowid := t.nextRowid, id := id, lastSeen := some lastSeen, firstSeen := some lastSeen, packetCount := some 1 }
  { t with
    observers := upsert (fun o => some o.id)
      (fun o =>
        { o.describe name iata m with
          lastSeen := some (later o.lastSeen ingestNow lastSeen)
          packetCount := o.packetCount.map (· + 1) })
      (row.describe name iata m) t.observers }

/-- `UPDATE observers SET inactive = 0 WHERE id = ? AND inactive = 1` -/
def reactivate (id : String) (t : Tables) : Tables :=
  { t with observers := update (fun o => o.id = id && !o.listed) (fun o => { o with inactive := some false }) t.observers }

/-- `UpsertObserverRetained` -/
def upsertObserverRetained (id name iata : String) (m : MetaColumns) (t : Tables) : Tables :=
  { t with observers := update (fun o => o.id = id) (fun o => o.describe name iata m) t.observers }

/-- `RecordNaiveSkew`; the cutoff is a day before now. -/
def recordNaiveSkew (observerID : String) (deltaSec : Int) (nowStr cutoff : String) (t : Tables) : Tables :=
  if observerID = "" then t
  else
    { t with
      observers := upsert (fun o => some o.id)
        (fun o =>
          { o with
            clockSkewSeconds := some deltaSec
            clockLastNaiveAt := some nowStr
            clockSkewCount24h :=
              if o.clockLastNaiveAt.all (· < cutoff) then some 1 else some (o.clockSkewCount24h.getD 0 + 1) })
        { rowid := t.nextRowid, id := observerID, clockSkewSeconds := some deltaSec, clockSkewCount24h := some 1,
          clockLastNaiveAt := some nowStr } t.observers }

/-- `stmtUpdateObserverLastSeen` -/
def touchObserver (ingestNow : String) (rowid : Int) (t : Tables) : Tables :=
  { t with
    observers := update (fun o => o.rowid = rowid)
      (fun o =>
        { o with
          lastSeen := some (later o.lastSeen ingestNow ingestNow)
          lastPacketAt := some (later o.lastPacketAt ingestNow ingestNow) }) t.observers }

/-- The first statement of `RemoveStaleObservers`. -/
def markStale (cutoff : String) (t : Tables) : Tables :=
  { t with observers := update (fun o => o.seenBefore cutoff && o.listed) (fun o => { o with inactive := some true }) t.observers }

def deleteInactiveMetrics (t : Tables) : Tables :=
  { t with
    observerMetrics := t.observerMetrics.filter fun m => !t.observers.any fun o => o.id = m.observerID && !o.listed }

def unreferenced (t : Tables) (o : Observer) : Bool :=
  (!t.observations.any fun obs => obs.observerIdx = some o.rowid) &&
    (!t.observerMetrics.any fun m => m.observerID = o.id) && !t.droppedPackets.any fun d => d.observerID = o.id

/-- `PurgeStaleObservers` -/
def purgeStaleObservers (cutoff : String) (t : Tables) : Tables :=
  { t with observers := t.observers.filter fun o => !(!o.listed && o.seenBefore cutoff && t.unreferenced o) }

/-- `SoftDeleteBlacklistedObservers`; the entries of the list are trimmed, and none is empty. -/
def softDeleteBlacklistedObservers (blacklist : List String) (t : Tables) : Tables :=
  { t with
    observers := update (fun o => blacklist.any (fun pk => o.id.toLower = pk.toLower) && o.listed)
      (fun o => { o with inactive := some true }) t.observers }

/-- `INSERT OR REPLACE`, on the observer and the time -/
def insertMetrics (row : Metrics) (t : Tables) : Tables :=
  { t with
    observerMetrics :=
      (t.observerMetrics.filter fun m => !(m.observerID = row.observerID && m.timestamp = row.timestamp)) ++ [row] }

def pruneOldMetrics (cutoff : String) (t : Tables) : Tables :=
  { t with observerMetrics := t.observerMetrics.filter fun m => !(m.timestamp < cutoff) }

def insertDroppedPacket (row : DroppedPacket) (t : Tables) : Tables :=
  { t with droppedPackets := t.droppedPackets ++ [row] }

def pruneDroppedPackets (cutoff : String) (t : Tables) : Tables :=
  { t with droppedPackets := t.droppedPackets.filter fun d => !(d.droppedAt < cutoff) }

def lookup (hash : String) (t : Tables) : Option (Int × String) :=
  (t.transmissions.find? fun tx => tx.hash = hash).map fun tx => (tx.id, tx.firstSeen)

def updateFirstSeen (rxTime : String) (txID : Int) (t : Tables) : Tables :=
  { t with transmissions := update (fun tx => tx.id = txID) (fun tx => { tx with firstSeen := rxTime }) t.transmissions }

def insertTx (env : Env) (rxTime : String) (data : PacketData) (t : Tables) : Option Tables :=
  if t.transmissions.any fun tx => tx.hash = data.hash then none
  else
    some
      { t with
        transmissions := t.transmissions ++
          [{ id := t.txSeq + 1
             rawHex := data.rawHex
             hash := data.hash
             firstSeen := rxTime
             routeType := data.routeType
             payloadType := data.payloadType
             payloadVersion := data.payloadVersion
             decodedJSON := data.decodedJSON
             channelHash := nilIfEmpty data.channelHash
             scopeName := scopeNameForDB data
             fromPubkey := nilIfEmpty data.fromPubkey
             lastSeen := epochSeconds rxTime env.insertUnix
             code1 := nilIfEmpty data.code1
             code2 := nilIfEmpty data.code2 }]
        txSeq := t.txSeq + 1 }

def insertObservation (env : Env) (rxTime : String) (data : PacketData) (txID : Int) (observerIdx : Option Int) (t : Tables) :
    Tables :=
  let row : ObservationRow :=
    { id := t.obsSeq + 1
      transmissionID := txID
      observerIdx := observerIdx
      direction := data.direction
      snr := data.snr
      rssi := data.rssi
      score := data.score
      pathJSON := some data.pathJSON
      timestamp := epochSeconds rxTime env.observationUnix
      rawHex := nilIfEmpty data.rawHex
      resolvedPath := nilIfEmpty (env.resolvedJSON data) }
  { t with observations := upsert ObservationRow.dedupKey row.fillIn row t.observations, obsSeq := t.obsSeq + 1 }

def bumpTxLastSeen (epochTs txID : Int) (t : Tables) : Tables :=
  { t with
    transmissions := update (fun tx => tx.id = txID ∧ tx.lastSeen < epochTs) (fun tx => { tx with lastSeen := epochTs })
      t.transmissions }

/-- `PruneOldPackets`, in one transaction: the observations first. -/
def pruneOldPackets (cutoff : String) (t : Tables) : Tables :=
  { t with
    observations := t.observations.filter fun o => !t.transmissions.any fun tx => tx.id = o.transmissionID && tx.firstSeen < cutoff
    transmissions := t.transmissions.filter fun tx => !(tx.firstSeen < cutoff) }

end Tables

inductive Stage
  | looking
  | found (existing : Option (Int × String))
  | recorded (txID : Int)
  | resolved (txID : Int) (observerIdx : Option Int)
  | touched (txID : Int) (observerIdx : Option Int)
  | observed (txID : Int)

structure Call where
  env : Env
  data : PacketData
  stage : Stage

namespace Call

def rxTime (c : Call) : String := if c.data.timestamp = "" then c.env.ingestNow else c.data.timestamp

def next (ok : Bool) (c : Call) (t : Tables) : Option Call × Tables :=
  match c.stage with
  | .looking => (some { c with stage := .found (if ok then t.lookup c.data.hash else none) }, t)
  | .found (some (txID, firstSeen)) =>
      (some { c with stage := .recorded txID }, if ok && c.rxTime < firstSeen then t.updateFirstSeen c.rxTime txID else t)
  | .found none =>
      match if ok then t.insertTx c.env c.rxTime c.data else none with
      | some t' => (some { c with stage := .recorded t'.txSeq }, t')
      | none => (none, t)
  | .recorded txID => (some { c with stage := .resolved txID (if ok then t.rowidOf c.data.observerID else none) }, t)
  | .resolved txID none => (some { c with stage := .touched txID none }, t)
  | .resolved txID (some rowid) =>
      (some { c with stage := .touched txID (some rowid) }, if ok then t.touchObserver c.env.ingestNow rowid else t)
  | .touched txID observerIdx =>
      if ok then (some { c with stage := .observed txID }, t.insertObservation c.env c.rxTime c.data txID observerIdx)
      else (none, t)
  | .observed txID => (none, if ok then t.bumpTxLastSeen (epochSeconds c.rxTime c.env.observationUnix) txID else t)

end Call

/-- `holder` is the call of `InsertTransmission` that holds `writerMu`. -/
structure State where
  tables : Tables
  holder : Option Call

inductive Step
  | insertTransmission (env : Env) (data : PacketData)
  | next (ok : Bool)
  | restart
  | upsertObserver (id name iata lastSeen ingestNow : String) (m : MetaColumns)
  | reactivate (id : String)
  | upsertObserverRetained (id name iata : String) (m : MetaColumns)
  | recordNaiveSkew (observerID : String) (deltaSec : Int) (nowStr cutoff : String)
  | insertMetrics (row : Metrics)
  | insertDroppedPacket (row : DroppedPacket)
  | pruneDroppedPackets (cutoff : String)
  | softDeleteBlacklistedObservers (blacklist : List String)
  | markStale (cutoff : String)
  | deleteInactiveMetrics
  | purgeStaleObservers (cutoff : String)
  | pruneOldMetrics (cutoff : String)
  | pruneOldPackets (cutoff : String)

namespace State

def write (f : Tables → Tables) (s : State) : State := { s with tables := f s.tables }

/-- A writer that needs `writerMu` waits for the call that holds it. -/
def locked (f : Tables → Tables) (s : State) : State := if s.holder.isNone then s.write f else s

def step (s : State) : Step → State
  | .insertTransmission env data =>
      if s.holder.isNone && data.hash ≠ "" then { s with holder := some ⟨env, data, .looking⟩ } else s
  | .next ok =>
      match s.holder with
      | some c => ⟨(c.next ok s.tables).2, (c.next ok s.tables).1⟩
      | none => s
  | .restart => { s with holder := none }
  | .upsertObserver id name iata lastSeen ingestNow m => s.write (Tables.upsertObserver id name iata lastSeen ingestNow m)
  | .reactivate id => s.write (Tables.reactivate id)
  | .upsertObserverRetained id name iata m => s.write (Tables.upsertObserverRetained id name iata m)
  | .recordNaiveSkew observerID deltaSec nowStr cutoff =>
      s.write (Tables.recordNaiveSkew observerID deltaSec nowStr cutoff)
  | .insertMetrics row => s.write (Tables.insertMetrics row)
  | .insertDroppedPacket row => s.write (Tables.insertDroppedPacket row)
  | .pruneDroppedPackets cutoff => s.write (Tables.pruneDroppedPackets cutoff)
  | .softDeleteBlacklistedObservers blacklist => s.write (Tables.softDeleteBlacklistedObservers blacklist)
  | .markStale cutoff => s.locked (Tables.markStale cutoff)
  | .deleteInactiveMetrics => s.locked Tables.deleteInactiveMetrics
  | .purgeStaleObservers cutoff => s.locked (Tables.purgeStaleObservers cutoff)
  | .pruneOldMetrics cutoff => s.locked (Tables.pruneOldMetrics cutoff)
  | .pruneOldPackets cutoff => s.locked (Tables.pruneOldPackets cutoff)

def run (s : State) (steps : List Step) : State := steps.foldl step s

end State

end MeshcoreAnalyzer.IngestTables

import MeshcoreAnalyzer.Calendar
import MeshcoreAnalyzer.Spaces
import MeshcoreAnalyzer.Store

namespace MeshcoreAnalyzer.PacketStore

open Maps Json Timestamps

/-! `QueryPackets` over the database (cmd/server/db.go) and over the packets in memory
(cmd/server/store.go), and the filters of the two. -/

structure TransmissionRow extends TxRow where
  channelHash : Option String
  fromPubkey : Option String

structure ObservationRow where
  transmissionID : Int
  observerIdx : Option Int
  timestamp : Int

structure ObserverRow where
  rowid : Int
  id : String
  iata : Option String

structure NodeRow where
  publicKey : String
  name : Option String

structure DB where
  transmissions : List TransmissionRow
  observations : List ObservationRow
  observers : List ObserverRow
  nodes : List NodeRow
  ids : (transmissions.map fun tx => tx.id).Nodup
  hashes : (transmissions.map fun tx => tx.hash).Nodup

inductive Order
  | asc
  | desc
deriving DecidableEq

/-- The filters of a `PacketQuery`. -/
structure PacketFilter where
  type : Option Int := none
  route : Option Int := none
  observer : String := ""
  hash : String := ""
  since : String := ""
  before : String := ""
  region : String := ""
  area : String := ""
  node : String := ""
  channel : String := ""

structure PacketQuery extends PacketFilter where
  limit : Int
  offset : Int
  order : Order

structure PacketResult where
  packets : List Int
  total : Nat
deriving DecidableEq

def PacketQuery.pageSize (q : PacketQuery) : Nat := if q.limit ≤ 0 then 50 else q.limit.toNat

def splitComma (s : String) : List String := (s.toList.splitOn ',').map String.ofList

def trimSpace (s : String) : String := String.ofList (Spaces.trim (fun c => Spaces.isSpace c.toNat) s.toList)

def PacketFilter.observerIDs (q : PacketFilter) : List String := (splitComma q.observer).map trimSpace

namespace DB

variable (db : DB)

def heard (id : Int) : List ObservationRow := db.observations.filter fun o => o.transmissionID = id

/-- `LEFT JOIN observers ON rowid = observer_idx` -/
def observerOf (o : ObservationRow) : Option ObserverRow :=
  o.observerIdx.bind fun i => db.observers.find? fun obs => obs.rowid = i

def resolveNodePubkey (nodeIDOrName : String) : String :=
  match db.nodes.find? fun n => n.publicKey = nodeIDOrName ∨ n.name = some nodeIDOrName with
  | some n => n.publicKey
  | none => nodeIDOrName

def sinceClause (since : String) (tx : TransmissionRow) : Bool :=
  since = "" || match parseRFC3339 since with
    | some ts => (db.heard tx.id).any fun o => decide (ts / second ≤ o.timestamp)
    | none => decide (since < tx.firstSeen)

def untilClause (before : String) (tx : TransmissionRow) : Bool :=
  before = "" || match parseRFC3339 before with
    | some ts => (db.heard tx.id).any fun o => decide (o.timestamp ≤ ts / second)
    | none => decide (tx.firstSeen < before)

/-- `EXISTS` an observation of an observer that passes the test. -/
def observerClause (test : ObserverRow → Bool) (tx : TransmissionRow) : Bool :=
  (db.heard tx.id).any fun o => (db.observerOf o).any test

def buildTransmissionWhere (q : PacketFilter) (tx : TransmissionRow) : Bool :=
  (q.type.all fun t => tx.payloadType = some t) && (q.route.all fun t => tx.routeType = some t) &&
    (q.hash = "" || tx.hash = toLower q.hash) && db.sinceClause q.since tx && db.untilClause q.before tx &&
    (q.node = "" || tx.fromPubkey = some (db.resolveNodePubkey q.node)) &&
    (q.channel = "" || tx.channelHash = some q.channel) &&
    (q.observer = "" || db.observerClause (fun obs => obs.id ∈ q.observerIDs) tx) &&
    (q.region = "" || db.observerClause (fun obs => obs.iata = some q.region) tx)

/-- `ORDER BY t.id LIMIT ? OFFSET ?`; a negative offset is none. -/
def queryPackets (q : PacketQuery) : PacketResult :=
  let ids := ((db.transmissions.filter (db.buildTransmissionWhere q.toPacketFilter)).map fun tx => tx.id).insertionSort (· ≤ ·)
  let ids := match q.order with
    | .asc => ids
    | .desc => ids.reverse
  { packets := (ids.drop q.offset.toNat).take q.pageSize, total := ids.length }

end DB

section Memory

-- `strings.ToUpper`, and the keys of the nodes in a configured area; of an area that is not configured, or has no
-- nodes, there is nothing.
variable (toUpper : String → String) (areaNodes : String → Option (List String))

def normalizeRegionCodes (regionParam : String) : List String :=
  ((splitComma regionParam).map fun token => trimSpace (toUpper token)).filter fun code => code ≠ "" ∧ code ≠ "ALL"

/-- `UPPER(TRIM(iata))`: letters of ASCII, and spaces only. -/
def sqlCode (iata : String) : String := (String.ofList (Spaces.trim (· == ' ') iata.toList)).toUpper

def regionObservers (db : DB) (region : String) : List String :=
  (db.observers.filter fun obs => obs.iata.any fun iata => sqlCode iata ∈ normalizeRegionCodes toUpper region).map
    ObserverRow.id

def packetMatchesChannel (tx : TxRow) (filterChannel : String) : Bool :=
  if tx.payloadType ≠ some payloadGRP_TXT then false
  else match tx.parsedDecoded with
    | none => false
    | some d =>
        ((stringField d "channel").any fun ch => ch ≠ "" && ch = filterChannel) ||
          ("enc_".toList.isPrefixOf filterChannel.toList &&
            (stringField d "channelHashHex").any fun hex => hex ≠ "" && "enc_" ++ hex = filterChannel)

namespace PacketFilter

def hashOnly (q : PacketFilter) : Bool :=
  q.hash ≠ "" && q.type = none && q.route = none && q.observer = "" && q.region = "" && q.area = "" && q.node = "" &&
    q.channel = "" && q.since = "" && q.before = ""

def observerOnly (q : PacketFilter) : Bool :=
  q.observer ≠ "" && q.type = none && q.route = none && q.region = "" && q.area = "" && q.node = "" && q.channel = "" &&
    q.hash = "" && q.since = "" && q.before = ""

def nodeOnly (q : PacketFilter) : Bool :=
  q.node ≠ "" && q.type = none && q.route = none && q.observer = "" && q.hash = "" && q.since = "" && q.before = "" &&
    q.region = "" && q.area = "" && q.channel = ""

end PacketFilter

namespace Store

variable (s : Store) (db : DB)

def heardBy (r : TxRef) (ids : List String) : Bool := (s.heap r).observations.any fun o => o.observerID ∈ ids

def transmissionsForObserver (observerIDs : List String) : List TxRef :=
  ((observerIDs.flatMap fun id => (bucket s.byObserver id).map StoreObs.transmissionID).eraseDups).filterMap s.byTxID

def scanMatches (q : PacketFilter) (r : TxRef) : Bool :=
  let tx := s.row r
  tx.hash ≠ "" && tx.firstSeen ≠ "" && (q.type.all fun t => tx.payloadType = some t) &&
    (q.route.all fun t => tx.routeType = some t) && (q.hash = "" || tx.hash = toLower q.hash) &&
    (q.since = "" || decide (q.since < tx.firstSeen)) && (q.before = "" || decide (tx.firstSeen < q.before)) &&
    (q.observer = "" || s.heardBy r q.observerIDs) &&
    (q.region = "" || s.heardBy r (regionObservers toUpper db q.region)) &&
    (q.area = "" || (areaNodes q.area).all fun keys => tx.areaKey ≠ "" && tx.areaKey ∈ keys) &&
    (q.node = "" ||
      tx.hash ∈ (bucket s.nodes.byNode (db.resolveNodePubkey q.node)).map fun t => (s.row t).hash) &&
    (q.channel = "" || packetMatchesChannel tx q.channel)

def filterPackets (q : PacketFilter) : List TxRef :=
  if q.hashOnly then (s.byHash (toLower q.hash)).toList
  else if q.observerOnly then s.transmissionsForObserver q.observerIDs
  else if q.region ≠ "" ∧ regionObservers toUpper db q.region = [] then []
  else if q.nodeOnly ∧ (s.nodes.byNode (db.resolveNodePubkey q.node)).isSome then
    bucket s.nodes.byNode (db.resolveNodePubkey q.node)
  else s.packets.filter (s.scanMatches toUpper areaNodes db q)

/-- The part of `QueryPackets` behind the SQL fallback; `none` is a slice out of its bounds. -/
def queryPackets (q : PacketQuery) : Option PacketResult :=
  let results := (s.filterPackets toUpper areaNodes db q.toPacketFilter).insertionSort fun a b => (s.row a).id ≤ (s.row b).id
  let ids := results.map fun r => (s.row r).id
  let total := ids.length
  if total ≤ q.offset then some { packets := [], total }
  else if q.offset < 0 then none
  else
    let start := q.offset.toNat
    let pageSize := if total < start + q.pageSize then total - start else q.pageSize
    match q.order with
    | .asc => some { packets := (ids.take (start + pageSize)).drop start, total }
    | .desc =>
        let endIdx := total - start
        some { packets := ((ids.take endIdx).drop (endIdx - pageSize)).reverse, total }

end Store

end Memory

end MeshcoreAnalyzer.PacketStore

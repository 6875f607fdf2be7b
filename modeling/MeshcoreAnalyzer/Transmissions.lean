import MeshcoreAnalyzer.Json
import MeshcoreAnalyzer.Timestamps
import Mathlib.Data.Finset.Insert
import Mathlib.Data.String.Basic

namespace MeshcoreAnalyzer.PacketStore

open Json Timestamps

/-! `StoreTx` and `StoreObs` of cmd/server/store.go, the rows they are read from,
and the functions that look at one transmission only. -/

abbrev payloadADVERT : Int := 0x04
abbrev payloadGRP_TXT : Int := 0x05
abbrev payloadANON_REQ : Int := 0x07

/-- `strings.ToLower`; hops and public keys are hexadecimal digits. -/
def toLower (s : String) : String := s.toLower

theorem toList_toLower (s : String) : (toLower s).toList = s.toList.map Char.toLower := String.toList_map

theorem length_toLower (s : String) : (toLower s).length = s.length := by
  rw [← String.length_toList, toList_toLower, List.length_map, String.length_toList]

/-- `strings.Contains` -/
def contains (s text : String) : Bool := s.toList.tails.any (text.toList.isPrefixOf ·)

def parsePathJSON (pathJSON : String) : List String :=
  if pathJSON = "" ∨ pathJSON = "[]" then [] else (unmarshalStrings pathJSON).getD []

@[simp] theorem parsePathJSON_empty : parsePathJSON "" = [] := rfl

def pathLen (pathJSON : String) : Nat :=
  if pathJSON = "" then 0 else ((unmarshalSlice pathJSON).getD []).length

/-- What is read of a row of `observations`; a NULL text reads as the empty one,
and so does a column that a query leaves out. -/
structure ObsRow where
  id : Int
  txID : Int
  observerID : String
  observerName : String
  observerIATA : String
  direction : String
  snr : Option Float
  rssi : Option Float
  score : Option Int
  pathJSON : String
  timestamp : String
  resolvedPath : String

structure StoreObs where
  id : Int
  transmissionID : Int
  observerID : String
  observerName : String
  observerIATA : String
  direction : String
  snr : Option Float
  rssi : Option Float
  score : Option Int
  pathJSON : String
  timestamp : String

namespace ObsRow

def toObs (o : ObsRow) : StoreObs where
  id := o.id
  transmissionID := o.txID
  observerID := o.observerID
  observerName := o.observerName
  observerIATA := o.observerIATA
  direction := o.direction
  snr := o.snr
  rssi := o.rssi
  score := o.score
  pathJSON := o.pathJSON
  timestamp := normalizeTimestamp o.timestamp

/-- The text `dk` under which repeats of an observation are dropped. -/
def key (o : ObsRow) : String := o.observerID ++ "|" ++ o.pathJSON

end ObsRow

def StoreObs.key (o : StoreObs) : String := o.observerID ++ "|" ++ o.pathJSON

@[simp] theorem ObsRow.key_toObs (o : ObsRow) : o.toObs.key = o.key := rfl

/-- The columns of `transmissions` that a transmission keeps as they are. -/
structure TxRow where
  id : Int
  rawHex : String
  hash : String
  firstSeen : String
  routeType : Option Int
  payloadType : Option Int
  decodedJSON : String
  scopeName : Option String
deriving DecidableEq

namespace TxRow

/-- `ParsedDecoded`: the text never changes, so it is parsed alike each time. -/
def parsedDecoded (tx : TxRow) : Option (List (String × Value)) :=
  if tx.decodedJSON = "" then none else unmarshalObject tx.decodedJSON

def areaKey (tx : TxRow) : String :=
  match tx.parsedDecoded with
  | none => ""
  | some d =>
      let pk := (stringField d "public_key").getD ""
      if pk = "" then (stringField d "pubKey").getD "" else pk

def decodedKeys (tx : TxRow) : List String :=
  match tx.parsedDecoded with
  | some decoded =>
      (["pubKey", "destPubKey", "srcPubKey"].filterMap (stringField decoded)).filter (· ≠ "")
  | none => []

/-- The keys `indexByNode` files a transmission under; it looks only where the
text has a public key in it. -/
def nodeKeys (tx : TxRow) : List String :=
  if contains tx.decodedJSON "ubKey" then tx.decodedKeys else []

/-- The public key that `trackAdvertPubkey` and `untrackAdvertPubkey` count. -/
def advertPubkey (tx : TxRow) : Option String :=
  if tx.payloadType ≠ some payloadADVERT then none
  else match tx.parsedDecoded with
    | none => none
    | some d =>
        let pk := match stringField d "pubKey" with
          | some v => v
          | none => (stringField d "public_key").getD ""
        if pk = "" then none else some pk

def extractFromNode (tx : TxRow) : String :=
  match tx.parsedDecoded with
  | none => ""
  | some decoded =>
      let fields := ["pubKey", "from_node", "from"]
      let fields := if tx.payloadType = some payloadANON_REQ then "ephemeralPubKey" :: fields else fields
      ((fields.filterMap (stringField decoded)).find? (· ≠ "")).getD ""

end TxRow

/-- A transmission with its observations. The parsed path is a cache of
`pathJSON`, the count and the keys of the observations go with their list. -/
structure StoreTx extends TxRow where
  observations : List StoreObs
  observationCount : Int
  observerID : String
  observerName : String
  observerIATA : String
  snr : Option Float
  rssi : Option Float
  pathJSON : String
  direction : String
  latestSeen : String
  uniqueObserverCount : Int
  parsedPath : List String
  pathParsed : Bool
  obsKeys : Finset String
  observerSet : Finset String
  cached : pathParsed = true → parsedPath = parsePathJSON pathJSON
  counted : observationCount = observations.length
  keyed : ∀ k, k ∈ obsKeys ↔ ∃ o ∈ observations, o.key = k

namespace StoreTx

def ofRow (row : TxRow) : StoreTx where
  toTxRow := row
  observations := []
  observationCount := 0
  observerID := ""
  observerName := ""
  observerIATA := ""
  snr := none
  rssi := none
  pathJSON := ""
  direction := ""
  latestSeen := row.firstSeen
  uniqueObserverCount := 0
  parsedPath := []
  pathParsed := false
  obsKeys := ∅
  observerSet := ∅
  cached := fun h => by cases h
  counted := rfl
  keyed := fun k => by simp

instance : Inhabited StoreTx := ⟨ofRow ⟨0, "", "", "", none, none, "", none⟩⟩

def txGetParsedPath (tx : StoreTx) : List String :=
  if tx.pathParsed then tx.parsedPath else parsePathJSON tx.pathJSON

theorem txGetParsedPath_eq (tx : StoreTx) : tx.txGetParsedPath = parsePathJSON tx.pathJSON := by
  rw [txGetParsedPath]
  split
  · next h => exact tx.cached h
  · rfl

/-- What `txGetParsedPath` leaves behind. -/
def cachePath (tx : StoreTx) : StoreTx :=
  { tx with
    parsedPath := tx.txGetParsedPath
    pathParsed := true
    cached := fun _ => tx.txGetParsedPath_eq }

/-- The fields of a transmission that change with a new observation. -/
def addObs (tx : StoreTx) (obs : StoreObs) : StoreTx :=
  let isNew : Bool := obs.observerID ≠ "" ∧ obs.observerID ∉ tx.observerSet
  { tx with
    observations := tx.observations ++ [obs]
    observationCount := tx.observationCount + 1
    obsKeys := insert obs.key tx.obsKeys
    observerSet := if isNew then insert obs.observerID tx.observerSet else tx.observerSet
    uniqueObserverCount := if isNew then tx.uniqueObserverCount + 1 else tx.uniqueObserverCount
    latestSeen := if tx.latestSeen < obs.timestamp then obs.timestamp else tx.latestSeen
    counted := by simp [tx.counted]
    keyed := fun k => by
      simp only [Finset.mem_insert, tx.keyed k, List.mem_append, List.mem_singleton]
      constructor
      · rintro (rfl | ⟨o, ho, rfl⟩)
        · exact ⟨obs, .inr rfl, rfl⟩
        · exact ⟨o, .inl ho, rfl⟩
      · rintro ⟨o, ho | rfl, rfl⟩
        · exact .inr ⟨o, ho, rfl⟩
        · exact .inl rfl }

def bestObservation (first : StoreObs) (rest : List StoreObs) : StoreObs :=
  rest.foldl (fun best obs => if pathLen best.pathJSON < pathLen obs.pathJSON then obs else best) first

def pickBestObservation (tx : StoreTx) : StoreTx :=
  match tx.observations with
  | [] => tx
  | first :: rest =>
      let best := bestObservation first rest
      { tx with
        observerID := best.observerID
        observerName := best.observerName
        observerIATA := best.observerIATA
        snr := best.snr
        rssi := best.rssi
        pathJSON := best.pathJSON
        direction := best.direction
        pathParsed := false
        cached := fun h => by cases h }

@[simp] theorem ofRow_toTxRow (row : TxRow) : (ofRow row).toTxRow = row := rfl
@[simp] theorem ofRow_observations (row : TxRow) : (ofRow row).observations = [] := rfl
@[simp] theorem ofRow_pathJSON (row : TxRow) : (ofRow row).pathJSON = "" := rfl
@[simp] theorem cachePath_toTxRow (tx : StoreTx) : tx.cachePath.toTxRow = tx.toTxRow := rfl
@[simp] theorem cachePath_observations (tx : StoreTx) : tx.cachePath.observations = tx.observations := rfl
@[simp] theorem cachePath_pathJSON (tx : StoreTx) : tx.cachePath.pathJSON = tx.pathJSON := rfl
@[simp] theorem addObs_toTxRow (tx : StoreTx) (o : StoreObs) : (tx.addObs o).toTxRow = tx.toTxRow := rfl
@[simp] theorem addObs_observations (tx : StoreTx) (o : StoreObs) :
    (tx.addObs o).observations = tx.observations ++ [o] := rfl
@[simp] theorem addObs_pathJSON (tx : StoreTx) (o : StoreObs) : (tx.addObs o).pathJSON = tx.pathJSON := rfl

@[simp] theorem pickBestObservation_toTxRow (tx : StoreTx) :
    tx.pickBestObservation.toTxRow = tx.toTxRow := by
  rw [pickBestObservation]
  split <;> rfl

@[simp] theorem pickBestObservation_observations (tx : StoreTx) :
    tx.pickBestObservation.observations = tx.observations := by
  rw [pickBestObservation]
  split <;> simp_all

/-- Bytes that a transmission is taken to occupy before anything is known of its
path, and bytes that its path adds. -/
def estimateStoreTxBytes (tx : StoreTx) : Int :=
  let hops : Int := tx.txGetParsedPath.length
  384 + (tx.rawHex.utf8ByteSize + tx.hash.utf8ByteSize + tx.decodedJSON.utf8ByteSize +
    tx.pathJSON.utf8ByteSize) + 5 * 48 + 200 + hops * 50 +
    (if 1 < hops then hops * (hops - 1) / 2 * 40 else 0)

end StoreTx

def estimateStoreObsBytes (obs : StoreObs) : Int :=
  192 + (obs.pathJSON.utf8ByteSize + obs.observerID.utf8ByteSize) + 2 * 48

end MeshcoreAnalyzer.PacketStore

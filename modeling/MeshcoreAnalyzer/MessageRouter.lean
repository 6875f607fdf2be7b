import MeshcoreAnalyzer.IngestTables
import MeshcoreAnalyzer.StoredPath
import MeshcoreAnalyzer.GeoFilter
import MeshcoreAnalyzer.NodeTables

namespace MeshcoreAnalyzer.MessageRouter

open GoBytes Timestamps Calendar
open Json (Value)
open IngestTables (MetaColumns)
open IngestorDecoder (Payload DecodedPacket FloatText utf8 decodePacket)
open StoredPath (MQTTPacketMessage buildPacketData)
open PacketStore (trimSpace)

/-! `handleMessage` of cmd/ingestor/main.go: the statements that a message of the broker leads to. The
payload is the object that it is read as, none where it is not one; of two members of a name the later
counts. One reading of the clock stands for those of a call. -/

abbrev Object := List (String × Value)

structure Message where
  topic : String
  retained : Bool
  payload : Option Object

structure Config where
  observerBlacklist : List String
  observerIATAWhitelist : List String
  validateSignatures : Option Bool
  geoFilter : Option GeoFilter.Config
  foreignAdverts : Option String
  clientRxCoverage : Bool
  clientRfSamples : Bool
  clientRxObservations : Bool

structure MQTTSource where
  iataFilter : List String
  region : String

/-- What the call takes from packages that Lean's own types do not stand for: floating point and its texts, case by the
tables of Unicode, strings that need not be UTF-8, and cryptography. -/
structure World where
  toLower : String → String
  toUpper : String → String
  parseFloat : String → Option Float
  number : String → Float
  round : Float → Int
  truncate : Float → Int
  display : Value → String
  marshal : Value → String
  fixed : ℚ → String
  text : Bytes → String
  text_utf8 : ∀ s, text (utf8 s) = s
  float : ℚ → Float
  sha256 : Bytes → Bytes
  crypto : Frame.Crypto
  floatText : FloatText
  distToSegmentKm : ℚ → ℚ → GeoFilter.Point → GeoFilter.Point → ℚ
  resolvedJSON : Ingest.PacketData → String

/-- The moment of a call. `now` is in nanoseconds; `sampleTime` is the time that a sample is filed under. -/
structure Moment where
  now : Int
  sampleTime : String
  droppedAt : String
  channelKeys : List (Bytes × Bytes)
  regions : RegionKeys.RegionKeySnapshot
  order : List (Bytes × Bytes)

def Moment.stampNow (at_ : Moment) : String := stamp (at_.now / second)

def field (msg : Object) (key : String) : Option Value := msg.reverse.lookup key

/-- `v, _ := msg[key].(string)` -/
def text (msg : Object) (key : String) : String :=
  match field msg key with
  | some (.str s) => s
  | _ => ""

def firstNonEmpty (vals : List String) : String := (vals.find? (· ≠ "")).getD ""

def unitSuffixes : List String := ["dBm", "dB", "mW", "km", "mi", "m"]

def lowerASCII (s : String) : List Char := s.toList.map Char.toLower

def stripUnitSuffix (s : String) : String :=
  match unitSuffixes.find? fun suffix => (lowerASCII suffix).isSuffixOf (lowerASCII s) with
  | some suffix => trimSpace (String.ofList (s.toList.take (s.length - suffix.length)))
  | none => s

def toFloat64 (w : World) : Value → Option Float
  | .num n => some (w.number n)
  | .str s => w.parseFloat (stripUnitSuffix (trimSpace s))
  | _ => none

def reading (w : World) (msg : Object) (key other : String) : Option Float :=
  match field msg key with
  | some v => toFloat64 w v
  | none => (field msg other).bind (toFloat64 w)

def direction (msg : Object) : Option String :=
  match field msg "direction" with
  | some (.str s) => some s
  | _ =>
      match field msg "Direction" with
      | some (.str s) => some s
      | _ => none

structure Signal where
  snr : Option Float
  rssi : Option Float
  score : Option Float
  direction : Option String

def signal (w : World) (msg : Object) : Signal where
  snr := reading w msg "SNR" "snr"
  rssi := reading w msg "RSSI" "rssi"
  score := reading w msg "score" "Score"
  direction := direction msg

def nestedOrTopLevel (nested : Option Object) (toplevel : Object) (key : String) : Option Value :=
  let v := match nested.bind fun stats => field stats key with
    | some v => some v
    | none => field toplevel key
  match v with
  | some .null => none
  | v => v

structure ObserverMeta where
  model : Option String
  firmware : Option String
  clientVersion : Option String
  radio : Option String
  batteryMv : Option Int
  uptimeSecs : Option Int
  noiseFloor : Option Float
  txAirSecs : Option Int
  rxAirSecs : Option Int
  recvErrors : Option Int
  packetsSent : Option Int
  packetsRecv : Option Int
  canRelay : Option Bool

def ObserverMeta.hasData (m : ObserverMeta) : Bool :=
  m.model.isSome || m.firmware.isSome || m.clientVersion.isSome || m.radio.isSome || m.batteryMv.isSome || m.uptimeSecs.isSome ||
    m.noiseFloor.isSome || m.txAirSecs.isSome || m.rxAirSecs.isSome || m.recvErrors.isSome || m.packetsSent.isSome ||
    m.packetsRecv.isSome || m.canRelay.isSome

def lastText (msg : Object) (keys : List String) : Option String := (keys.map (text msg)).reverse.find? (· ≠ "")

def repeatFlag (w : World) : Option Value → Option Bool
  | some (.bool b) => some b
  | some (.str s) =>
      let s := w.toLower (trimSpace s)
      if s ∈ ["on", "true", "1", "yes"] then some true
      else if s ∈ ["off", "false", "0", "no"] then some false
      else none
  | some (.num n) => some (w.number n != 0)
  | _ => none

def extractObserverMeta (w : World) (msg : Object) : Option ObserverMeta :=
  let stats := match field msg "stats" with
    | some (.obj members) => some members
    | _ => none
  let measure (key : String) : Option Float := (nestedOrTopLevel stats msg key).bind (toFloat64 w)
  let m : ObserverMeta :=
    { model := lastText msg ["model"]
      firmware := lastText msg ["firmware", "firmware_version"]
      clientVersion := lastText msg ["client_version", "clientVersion"]
      radio := lastText msg ["radio"]
      batteryMv := (measure "battery_mv").map w.round
      uptimeSecs := (measure "uptime_secs").map w.round
      noiseFloor := measure "noise_floor"
      txAirSecs := (measure "tx_air_secs").map w.round
      rxAirSecs := (measure "rx_air_secs").map w.round
      recvErrors := (measure "recv_errors").map w.round
      packetsSent := (measure "packets_sent").map w.round
      packetsRecv := (measure "packets_recv").map w.round
      canRelay := repeatFlag w (field msg "repeat") }
  if m.hasData then some m else none

def parseEnvelopeTime (s : String) : Option (Int × Bool) :=
  match parseRFC3339 s with
  | some t => some (t, false)
  | none => do
      let (t, rest) ← dateTimeT s.toList
      if (fraction rest).2 = [] then some (date t (fraction rest).1 0, true) else none

def resolveRxTimeCore (now : Int) (msg : Object) : Int × Int :=
  let raw := text msg "timestamp"
  if raw = "" then (now, 0)
  else
    match parseEnvelopeTime raw with
    | none => (now, 0)
    | some (t, naive) =>
        if now + 14 * hour < t then (now, 0)
        else if t < now - 30 * 24 * hour then (now, 0)
        else if naive ∧ 15 * 60 * second < |t - now| then (now, (t - now).tdiv second)
        else if now < t then (now, 0)
        else (t, 0)

def resolveRxTime (now : Int) (msg : Object) : String × Int :=
  (stamp ((resolveRxTimeCore now msg).1 / second), (resolveRxTimeCore now msg).2)

def statusLivenessMaxAge : Int := 24 * hour

def statusIsLiveness (msg : Object) (now : Int) : Bool :=
  let status := text msg "status"
  if status ≠ "" ∧ lowerASCII status ≠ "online".toList then false
  else
    let raw := text msg "timestamp"
    if raw = "" then true
    else
      match parseEnvelopeTime raw with
      | none => true
      | some (t, _) => !(t < now - statusLivenessMaxAge)

def isObserverBlacklisted (w : World) (cfg : Config) (id : String) : Bool :=
  let entries := (cfg.observerBlacklist.map fun pk => w.toLower (trimSpace pk)).filter (· ≠ "")
  w.toLower (trimSpace id) ∈ entries

def isObserverIATAAllowed (w : World) (cfg : Config) (iata : String) : Bool :=
  let codes := (cfg.observerIATAWhitelist.map fun code => w.toUpper (trimSpace code)).filter (· ≠ "")
  cfg.observerIATAWhitelist = [] || w.toUpper (trimSpace iata) ∈ codes

def shouldValidateSignatures (cfg : Config) : Bool := cfg.validateSignatures.getD true

def isDropMode (cfg : Config) : Bool := cfg.foreignAdverts.any fun mode => lowerASCII (trimSpace mode) = "drop".toList

def nodePassesGeoFilter (w : World) (lat lon : Option ℚ) (gf : Option GeoFilter.Config) : Bool :=
  match gf, lat, lon with
  | some gf, some lat, some lon => GeoFilter.passesFilter w.distToSegmentKm lat lon (some gf) != some false
  | _, _, _ => true

def advertRole (flags : Option Frame.AdvertFlags) : String :=
  match flags with
  | none => "companion"
  | some f =>
      match f.type with
      | 0 => "none"
      | 1 => "companion"
      | 2 => "repeater"
      | 3 => "room"
      | 4 => "sensor"
      | n => "type-" ++ toString n

def isControl (c : Nat) : Bool := c ≤ 0x08 || c == 0x0b || c == 0x0c || (0x0e ≤ c && c ≤ 0x1f) || c == 0x7f

/-- Why the advert is refused. A control character is a byte of its own, so the bytes are looked at. -/
def validateAdvert (w : World) (p : Payload) : Option String :=
  if p.error ≠ "" then some p.error
  else if p.pubKey.length < 16 then some ("pubkey too short (" ++ toString p.pubKey.length ++ " hex chars)")
  else if p.pubKey.all (· == 0x30) then some "pubkey is all zeros"
  else if p.lat.any fun lat => lat < -90 || 90 < lat then some ("invalid lat: " ++ w.fixed (p.lat.getD 0))
  else if p.lon.any fun lon => lon < -180 || 180 < lon then some ("invalid lon: " ++ w.fixed (p.lon.getD 0))
  else if p.name.any fun c => isControl c.toNat then some "name contains control characters"
  else if 64 < p.name.length then some ("name too long (" ++ toString p.name.length ++ " chars)")
  else if p.flags.isSome && !(advertRole p.flags ∈ ["repeater", "companion", "room", "sensor", "none"]) &&
      !("type-".toList.isPrefixOf (advertRole p.flags).toList) then some ("unknown role: " ++ advertRole p.flags)
  else none

/-- The columns that `markNodeForeign`, `updateNodeTelemetry` and `updateNodeDefaultScope` set are not among
those of the rows here, and the tables of the mobile clients are others. -/
inductive Write
  | table (a : IngestTables.Step)
  | node (a : NodeTables.Step)
  | updateNodeConfiguredScope (pubkey scope reportedAt : String)
  | markNodeForeign (pubKey : String)
  | updateNodeTelemetry (pubKey : String) (batteryMv : Option Nat) (temperatureC : Option ℚ)
  | updateNodeDefaultScope (pubKey scopeName : String)
  | clientPacket (pubKey : String) (msg : Object)
  | clientRfSample (pubKey : String) (msg : Object)
  | restart

def observerMetaColumns : Option ObserverMeta → MetaColumns
  | none => {}
  | some m =>
      { model := m.model
        firmware := m.firmware
        clientVersion := m.clientVersion
        radio := m.radio
        batteryMv := m.batteryMv
        uptimeSecs := m.uptimeSecs
        noiseFloor := m.noiseFloor
        canRelay := m.canRelay }

/-- `UpsertObserverAt` with no time of its own: two statements. -/
def upsertObserverAt (w : World) (at_ : Moment) (id name iata : String) (m : Option ObserverMeta) : List Write :=
  [.table (.upsertObserver id name (trimSpace (w.toUpper iata)) at_.stampNow at_.stampNow (observerMetaColumns m)),
    .table (.reactivate id)]

def insertMetrics (at_ : Moment) (observerID : String) (m : ObserverMeta) : Write :=
  .table (.insertMetrics
    { observerID := observerID
      timestamp := at_.sampleTime
      noiseFloor := m.noiseFloor
      txAirSecs := m.txAirSecs
      rxAirSecs := m.rxAirSecs
      recvErrors := m.recvErrors
      batteryMv := m.batteryMv
      packetsSent := m.packetsSent
      packetsRecv := m.packetsRecv })

def recordNaiveSkew (at_ : Moment) (observerID : String) (deltaSec : Int) : Write :=
  .table (.recordNaiveSkew observerID deltaSec at_.stampNow (stamp ((at_.now - 24 * hour) / second)))

def insertTransmission (w : World) (at_ : Moment) (data : Ingest.PacketData) : Write :=
  .table (.insertTransmission ⟨at_.stampNow, at_.now / second, at_.now / second, w.resolvedJSON⟩ data)

def split (topic : String) : List String := (topic.toList.splitOn '/').map String.ofList

def Message.parts (m : Message) : List String := split m.topic

def Message.part (m : Message) (i : Nat) : String := m.parts.getD i ""

def Message.under (m : Message) (topic : String) : Bool := topic.toList.isPrefixOf m.topic.toList

variable (w : World) (cfg : Config) (source : MQTTSource) (at_ : Moment) (m : Message)

def clientWrites (msg : Object) : List Write :=
  if isObserverBlacklisted w cfg (m.part 2) then []
  else if m.part 3 = "packets" then if cfg.clientRxCoverage then [.clientPacket (m.part 2) msg] else []
  else if m.part 3 = "rf" then if cfg.clientRfSamples then [.clientRfSample (m.part 2) msg] else []
  else []

def neighborReport (reportedAt : String) : Value → List Write
  | .obj n =>
      let pubkey := w.toLower (text n "pubkey")
      if text n "status" ≠ "responded" ∨ pubkey = "" then []
      else [.updateNodeConfiguredScope pubkey (text n "scopes") reportedAt]
  | _ => []

def handleNeighborsReport (observerID : String) (msg : Object) : List Write :=
  let reportedAt := text msg "timestamp"
  let originID := w.toLower (firstNonEmpty [text msg "origin_id", observerID])
  let self := match field msg "self" with
    | some (.obj self) =>
        match field self "scopes" with
        | some (.str sc) => if originID ≠ "" then [.updateNodeConfiguredScope originID sc reportedAt] else []
        | _ => []
    | _ => []
  let neighbors := match field msg "neighbors" with
    | some (.arr ns) => ns.flatMap (neighborReport w reportedAt)
    | _ => []
  self ++ neighbors

def statusWrites (msg : Object) : List Write :=
  let observerID := m.part 2
  let meta_ := extractObserverMeta w msg
  let name := text msg "origin"
  if m.retained ∨ !statusIsLiveness msg at_.now then
    [.table (.upsertObserverRetained observerID name (trimSpace (w.toUpper (m.part 1))) (observerMetaColumns meta_))]
  else upsertObserverAt w at_ observerID name (m.part 1) meta_ ++ (meta_.map (insertMetrics at_ observerID)).toList

def packetData (sig : Signal) (pd : StoredPath.PacketData) : Ingest.PacketData where
  rawHex := w.text pd.rawHex
  timestamp := w.text pd.timestamp
  observerID := w.text pd.observerID
  snr := sig.snr
  rssi := sig.rssi
  score := sig.score
  direction := sig.direction
  hash := w.text pd.hash
  routeType := pd.routeType
  payloadType := pd.payloadType
  payloadVersion := pd.payloadVersion
  pathJSON := pd.pathJSON
  decodedJSON := pd.decodedJSON
  channelHash := w.text pd.channelHash
  scopeName := w.text pd.scopeName
  isTransportScoped := pd.isTransportScoped
  code1 := w.text pd.code1
  code2 := w.text pd.code2
  fromPubkey := w.text pd.fromPubkey

def mqttPacketMessage (msg : Object) (rawHex : String) : MQTTPacketMessage where
  raw := utf8 rawHex
  snr := none
  rssi := none
  score := none
  direction := none
  origin := utf8 (text msg "origin")
  region := utf8 (text msg "region")

def regionOf : String := if m.part 1 = "" then source.region else m.part 1

/-- `BuildPacketData`, in the types of the tables. -/
def buildPacket (msg : Object) (rawHex : String) (decoded : DecodedPacket) : Go Unit Ingest.PacketData :=
  packetData w (signal w msg) <$>
    buildPacketData w.sha256 w.crypto w.floatText ⟨utf8 at_.stampNow, at_.regions, at_.order⟩ (mqttPacketMessage msg rawHex) decoded
      (utf8 (m.part 2)) (utf8 (regionOf source m))

def shouldUpdateDefaultScope (data : Ingest.PacketData) : Bool := data.isTransportScoped && data.scopeName ≠ ""

/-- What an advert makes of its node. The count goes up where the packet was new: a run may leave the
statement out. -/
def nodeWrites (p : Payload) (foreign : Bool) (data : Ingest.PacketData) : List Write :=
  let pubKey := w.text p.pubKey
  [.node (.upsertNode pubKey (w.text p.name) (advertRole p.flags) (p.lat.map w.float) (p.lon.map w.float) data.timestamp
      at_.stampNow)] ++
    (if foreign then [.markNodeForeign pubKey] else []) ++
    [.node (.incrementAdvertCount pubKey)] ++
    (if p.batteryMv.isSome ∨ p.temperatureC.isSome then [.updateNodeTelemetry pubKey p.batteryMv p.temperatureC] else []) ++
    (if shouldUpdateDefaultScope data then [.updateNodeDefaultScope pubKey data.scopeName] else [])

def invalidSignature (p : Payload) : Bool := shouldValidateSignatures cfg && p.signatureValid == some false

def droppedPacket (msg : Object) (rawHex hash : String) (p : Payload) : Write :=
  .table (.insertDroppedPacket
    { hash := hash
      rawHex := rawHex
      reason := "invalid signature"
      observerID := m.part 2
      observerName := text msg "origin"
      nodePubKey := w.text p.pubKey
      nodeName := w.text p.name
      droppedAt := at_.droppedAt })

def isKeyedAdvert (decoded : DecodedPacket) : Bool := decoded.header.payloadTypeName = "ADVERT" && decoded.payload.pubKey ≠ []

def storeWrites (msg : Object) (rawHex : String) (decoded : DecodedPacket) : List Write × Bool :=
  let p := decoded.payload
  let stored (foreign : Bool) : List Write × Bool :=
    match buildPacket w source at_ m msg rawHex decoded with
    | .error _ => ([], false)
    | .ok data =>
        (insertTransmission w at_ data :: if isKeyedAdvert decoded then nodeWrites w at_ p foreign data else [], true)
  if !isKeyedAdvert decoded then stored false
  else if (validateAdvert w p).isSome then ([], false)
  else if invalidSignature cfg p then
    match ContentHash.computeContentHash (ε := Unit) w.sha256 (utf8 rawHex) with
    | .error _ => ([], false)
    | .ok hash => ([droppedPacket w at_ m msg rawHex (w.text hash) p], false)
  else if nodePassesGeoFilter w p.lat p.lon cfg.geoFilter then stored false
  else if isDropMode cfg then ([], false)
  else stored true

def packetWrites (msg : Object) (rawHex : String) : List Write :=
  match decodePacket w.crypto (utf8 rawHex) at_.channelKeys (shouldValidateSignatures cfg) with
  | .error _ => []
  | .ok decoded =>
      let observerID := m.part 2
      let skew := (resolveRxTime at_.now msg).2
      let region := firstNonEmpty [text msg "region", regionOf source m]
      let (stored, on) := storeWrites w cfg source at_ m msg rawHex decoded
      (if skew ≠ 0 ∧ observerID ≠ "" then [recordNaiveSkew at_ observerID skew] else []) ++ stored ++
        (if on ∧ observerID ≠ "" then upsertObserverAt w at_ observerID (text msg "origin") region none else [])

def beforeColon : List Char → Option (List Char)
  | [] => none
  | c :: rest => if c = ':' ∧ rest.head? = some ' ' then some [] else (beforeColon rest).map (c :: ·)

/-- In "Name: message" form, with a name of at most 49 bytes. -/
def sender (s : String) : String :=
  match beforeColon s.toList with
  | some name => if 0 < name.length ∧ (String.ofList name).utf8ByteSize < 50 then String.ofList name else ""
  | none => ""

def companionID : String := "companion"

def bridgeHash (input : String) : String := w.text ((hexEncode (w.sha256 (utf8 input))).take 16)

def senderStamp (msg : Object) : Object := ((field msg "sender_timestamp").map fun st => ("sender_timestamp", st)).toList

def bridgePacket (msg : Object) (payloadType : Int) (hash decodedJSON channelHash : String) : Ingest.PacketData where
  rawHex := ""
  timestamp := at_.stampNow
  observerID := companionID
  snr := (signal w msg).snr
  rssi := (signal w msg).rssi
  score := (signal w msg).score
  direction := (signal w msg).direction
  hash := hash
  routeType := 1
  payloadType := payloadType
  payloadVersion := 0
  pathJSON := "[]"
  decodedJSON := decodedJSON
  channelHash := channelHash
  scopeName := ""
  isTransportScoped := false
  code1 := ""
  code2 := ""
  fromPubkey := ""

def channelIdx (msg : Object) : String := ((field msg "channel_idx").map w.display).getD (m.part 3)

def channelWrites (msg : Object) : List Write :=
  let body := text msg "text"
  let channelName := "ch" ++ channelIdx w m msg
  let members := [("channel", Value.str channelName), ("sender", .str (sender body))] ++ senderStamp msg ++
    [("text", .str body), ("type", .str "CHAN")]
  let hash := bridgeHash w ("ch:" ++ channelIdx w m msg ++ ":" ++ body ++ ":" ++ at_.stampNow)
  if body = "" then []
  else [insertTransmission w at_ (bridgePacket w at_ msg 5 hash (w.marshal (.obj members)) channelName)]

def directWrites (msg : Object) : List Write :=
  let body := text msg "text"
  let members := [("sender", Value.str (sender body))] ++ senderStamp msg ++ [("text", .str body), ("type", .str "DM")]
  let hash := bridgeHash w ("dm:" ++ body ++ ":" ++ at_.stampNow)
  if body = "" then [] else [insertTransmission w at_ (bridgePacket w at_ msg 2 hash (w.marshal (.obj members)) "")]

def isClientTopic : Bool := 4 ≤ m.parts.length && m.part 1 = "client"

def admitted : Bool :=
  !(2 < m.parts.length && isObserverBlacklisted w cfg (m.part 2)) && !(1 < m.parts.length && !isObserverIATAAllowed w cfg (m.part 1))

def passesIATAFilter : Bool := source.iataFilter = [] || m.parts.length ≤ 1 || m.part 1 ∈ source.iataFilter

def handleMessage : List Write :=
  match m.payload with
  | none => []
  | some msg =>
      if isClientTopic m then clientWrites w cfg m msg
      else if m.topic = "meshcore/status" ∨ m.topic = "meshcore/events/connection" then []
      else if !admitted w cfg m then []
      else if 4 ≤ m.parts.length ∧ m.part 3 = "neighbors" then handleNeighborsReport w (m.part 2) msg
      else if 4 ≤ m.parts.length ∧ m.part 3 = "status" then statusWrites w at_ m msg
      else if !passesIATAFilter source m then []
      else
        let rawHex := text msg "raw"
        if rawHex ≠ "" then packetWrites w cfg source at_ m msg rawHex
        else if m.under "meshcore/message/channel/" then channelWrites w at_ m msg
        else if m.under "meshcore/message/direct/" then directWrites w at_ msg
        else []

end MeshcoreAnalyzer.MessageRouter

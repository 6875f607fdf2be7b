import MeshcoreAnalyzer.MessageOrigins
import MeshcoreAnalyzer.MillisStamps
import MeshcoreAnalyzer.Upserts

namespace MeshcoreAnalyzer.ClientReception

open GoBytes Calendar Upserts
open Timestamps (second)
open Json (Value)
open IngestorDecoder (DecodedPacket utf8 decodePacket)
open MessageRouter
open PacketStore (trimSpace)

/-! `handleClientPacket` of cmd/ingestor/client_reception.go and `handleClientRfSample` of client_rf_sample.go:
what a mobile companion heard, and where. -/

/-- A row of `client_receptions`. -/
structure Reception where
  rxPubkey : String
  heardKey : String
  heardKeyLen : Nat
  rssi : Option Int
  snr : Option Float
  lat : Float
  lon : Float
  posAccM : Option Float
  rxAt : String
  ingestedAt : String
  src : String

/-- A row of `client_rx_observations`. -/
structure RxObservation where
  rxPubkey : String
  rxAt : String
  ingestedAt : String
  pktHash : String
  routeType : Nat
  payloadType : Nat
  hashSize : Nat
  hopCount : Nat
  code1 : Option String
  code2 : Option String
  scopeName : Option String
  pathJSON : Option String
  forwarder : Option String
  snr : Option Float
  rssi : Option Int
  lat : Float
  lon : Float
  posAccM : Option Float

/-- A row of `client_rf_samples`. -/
structure RfSample where
  rxPubkey : String
  sampledAt : String
  ingestedAt : String
  lat : Float
  lon : Float
  posAccM : Option Float
  stationary : Bool
  uptimeSecs : Int
  batteryMV : Option Int
  queueLen : Option Int
  errors : Option Int
  noiseFloor : Option Int
  lastRSSI : Option Int
  lastSNR : Option Float
  txAirSecs : Option Int
  rxAirSecs : Option Int
  recv : Option Int
  sent : Option Int
  floodRx : Option Int
  directRx : Option Int
  floodTx : Option Int
  directTx : Option Int
  recvErrors : Option Int

structure ClientObserver where
  pubkey : String
  name : String
  lastSeen : String

/-- `^[0-9a-f]{2,64}$` -/
def isClientPubkey (s : String) : Bool :=
  2 ≤ s.length && s.length ≤ 64 && s.toList.all fun c => ('0' ≤ c && c ≤ '9') || ('a' ≤ c && c ≤ 'f')

/-- `strings.ToLower` of a text of hexadecimal digits. -/
def lowerHex (s : Bytes) : Bytes := s.map fun c => if 65 ≤ c ∧ c ≤ 90 then c + 32 else c

def deriveHeardKey (direction : String) (routeType payloadType : Nat) (hops : List Bytes) (advertPubkey : Bytes)
    (isAdvert : Bool) : Option (Bytes × Nat × String) :=
  if lowerASCII direction ≠ "rx".toList then none
  else if !StoredPath.pathBytesAreHops (UInt8.ofNat payloadType) then none
  else
    match hops.getLast? with
    | some hop =>
        if routeType ≠ Frame.routeTransportFlood ∧ routeType ≠ Frame.routeFlood then none
        else
          let last := lowerHex (Spaces.trimSpace hop)
          if last.length / 2 < 2 then none else some (last, last.length / 2, "rxlog")
    | none =>
        if isAdvert ∧ advertPubkey ≠ [] then
          let pk := lowerHex (Spaces.trimSpace advertPubkey)
          some (pk, pk.length / 2, "advert")
        else none

variable (w : World) (at_ : Moment)

def outOfRange (lat lon : Float) : Bool := lat < -90 || lat > 90 || lon < -180 || lon > 180

structure Fix where
  lat : Float
  lon : Float
  posAccM : Option Float
  snr : Option Float
  rssi : Option Int

def buildClientReception (rxPubkey direction : String) (decoded : DecodedPacket) (fix : Fix)
    (rxAt ingestedAt : String) : Option Reception :=
  if rxPubkey = "" ∨ rxAt = "" then none
  else if outOfRange fix.lat fix.lon then none
  else
    (deriveHeardKey direction decoded.header.routeType decoded.header.payloadType decoded.path.hops
        decoded.payload.pubKey (decoded.header.payloadTypeName = "ADVERT")).map fun heard =>
      { rxPubkey := w.toLower rxPubkey
        heardKey := w.text heard.1
        heardKeyLen := heard.2.1
        rssi := fix.rssi
        snr := fix.snr
        lat := fix.lat
        lon := fix.lon
        posAccM := fix.posAccM
        rxAt := rxAt
        ingestedAt := ingestedAt
        src := heard.2.2 }

def buildClientRxObservation (direction rxPubkey rawHex rxAt ingestedAt : String) (decoded : DecodedPacket)
    (fix : Fix) : Go Unit (Option RxObservation) := do
  if lowerASCII direction ≠ "rx".toList then return none
  let hash ← ContentHash.computeContentHash w.sha256 (utf8 rawHex)
  let hops := decoded.path.hops.map lowerHex
  let named := hops ≠ [] ∧ StoredPath.pathBytesAreHops (UInt8.ofNat decoded.header.payloadType)
  let flood := decoded.header.routeType = Frame.routeTransportFlood ∨ decoded.header.routeType = Frame.routeFlood
  return some
    { rxPubkey := rxPubkey
      rxAt := rxAt
      ingestedAt := ingestedAt
      pktHash := w.text hash
      routeType := decoded.header.routeType
      payloadType := decoded.header.payloadType
      hashSize := decoded.path.hashSize
      hopCount := decoded.path.hashCount
      code1 := decoded.transportCodes.map fun tc => w.text tc.code1
      code2 := decoded.transportCodes.map fun tc => w.text tc.code2
      scopeName := (decoded.transportCodes.filter fun tc => tc.code1 ≠ RegionKeys.noCode).map fun tc =>
        w.text (at_.regions.scopeMatch w.crypto at_.order (UInt8.ofNat decoded.header.payloadType) decoded.payloadRaw
          tc.code1).name
      pathJSON := if named then some (StoredPath.marshalStrings hops) else none
      forwarder := if named ∧ flood then hops.getLast?.map w.text else none
      snr := fix.snr
      rssi := fix.rssi
      lat := fix.lat
      lon := fix.lon
      posAccM := fix.posAccM }

inductive Statement
  | insertClientRxObservation (row : RxObservation)
  | insertClientReception (row : Reception)
  | upsertClientObserver (pubkey name ts : String)
  | insertClientRfSample (row : RfSample)

def millisText (t : Int) : String := MillisStamps.stampMillis (t / 10 ^ 6)

def gpsFix (msg : Object) : Option (Object × Float × Float) :=
  match field msg "gps" with
  | some (.obj gps) => do
      let lat ← (field gps "lat").bind (toFloat64 w)
      let lon ← (field gps "lon").bind (toFloat64 w)
      some (gps, lat, lon)
  | _ => none

def fixOf (msg gps : Object) (lat lon : Float) : Fix where
  lat := lat
  lon := lon
  posAccM := (field gps "acc_m").bind (toFloat64 w)
  snr := reading w msg "SNR" "snr"
  rssi := (reading w msg "RSSI" "rssi").map w.truncate

def recordReception (cfg : Config) (rxPubkey rawHex : String) (msg : Object) (decoded : DecodedPacket) (fix : Fix) :
    List Statement :=
  let direction := (MessageRouter.direction msg).getD ""
  let rxTime := (resolveRxTimeCore at_.now msg).1
  let name := text msg "origin"
  let observation : Go Unit (Option RxObservation) :=
    if cfg.clientRxObservations then
      buildClientRxObservation w at_ direction rxPubkey rawHex (millisText rxTime) at_.stampNow decoded fix
    else .ok none
  match observation with
  | .error _ => []
  | .ok observation =>
      (observation.map .insertClientRxObservation).toList ++
        match buildClientReception w rxPubkey direction decoded fix (stamp (rxTime / second)) at_.stampNow with
        | none => []
        | some row =>
            .insertClientReception row ::
              if name = "" ∨ row.rxPubkey = "" then []
              else [.upsertClientObserver (w.toLower row.rxPubkey) name at_.stampNow]

def handleClientPacket (cfg : Config) (topicPubkey : String) (msg : Object) : List Statement :=
  let rxPubkey := w.toLower (trimSpace topicPubkey)
  let rawHex := text msg "raw"
  if !isClientPubkey rxPubkey then []
  else if rawHex = "" then []
  else
    match gpsFix w msg, decodePacket w.crypto (utf8 rawHex) at_.channelKeys false with
    | some (gps, lat, lon), .ok decoded =>
        recordReception w at_ cfg rxPubkey rawHex msg decoded (fixOf w msg gps lat lon)
    | _, _ => []

def optInt (msg : Object) (key : String) : Option Int := ((field msg key).bind (toFloat64 w)).map w.truncate

def handleClientRfSample (topicPubkey : String) (msg : Object) : List Statement :=
  let rxPubkey := w.toLower (trimSpace topicPubkey)
  if !isClientPubkey rxPubkey then []
  else
    match gpsFix w msg, optInt w msg "uptime_secs" with
    | some (gps, lat, lon), some uptime =>
        if outOfRange lat lon then []
        else
          [.insertClientRfSample
            { rxPubkey := rxPubkey
              sampledAt := millisText (resolveRxTimeCore at_.now msg).1
              ingestedAt := at_.stampNow
              lat := lat
              lon := lon
              posAccM := (field gps "acc_m").bind (toFloat64 w)
              stationary := match field msg "stationary" with
                | some (.bool b) => b
                | _ => false
              uptimeSecs := uptime
              batteryMV := optInt w msg "battery_mv"
              queueLen := optInt w msg "queue_len"
              errors := optInt w msg "errors"
              noiseFloor := optInt w msg "noise_floor"
              lastRSSI := optInt w msg "last_rssi"
              lastSNR := (field msg "last_snr").bind (toFloat64 w)
              txAirSecs := optInt w msg "tx_air_secs"
              rxAirSecs := optInt w msg "rx_air_secs"
              recv := optInt w msg "recv"
              sent := optInt w msg "sent"
              floodRx := optInt w msg "flood_rx"
              directRx := optInt w msg "direct_rx"
              floodTx := optInt w msg "flood_tx"
              directTx := optInt w msg "direct_tx"
              recvErrors := optInt w msg "recv_errors" }]
    | _, _ => []

structure Tables where
  receptions : List Reception
  observers : List ClientObserver
  rxObservations : List RxObservation
  rfSamples : List RfSample

def Tables.empty : Tables := ⟨[], [], [], []⟩

def Reception.key (r : Reception) : String × String × String := (r.rxPubkey, r.heardKey, r.rxAt)

def RxObservation.key (r : RxObservation) : String × String × String := (r.rxPubkey, r.pktHash, r.rxAt)

def RfSample.key (r : RfSample) : String × String := (r.rxPubkey, r.sampledAt)

/-- `ON CONFLICT DO NOTHING` keeps the row that is there. -/
def Tables.perform (t : Tables) : Statement → Tables
  | .insertClientRxObservation row => { t with rxObservations := insertNew (·.key) row t.rxObservations }
  | .insertClientReception row => { t with receptions := insertNew (·.key) row t.receptions }
  | .upsertClientObserver pubkey name ts =>
      let again (o : ClientObserver) : ClientObserver := { o with name := name, lastSeen := ts }
      { t with observers := upsert (fun o => some o.pubkey) again ⟨pubkey, name, ts⟩ t.observers }
  | .insertClientRfSample row => { t with rfSamples := insertNew (·.key) row t.rfSamples }

def Tables.run (t : Tables) (statements : List Statement) : Tables := statements.foldl Tables.perform t

end MeshcoreAnalyzer.ClientReception

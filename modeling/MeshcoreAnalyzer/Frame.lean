import MeshcoreAnalyzer.Runes
import Mathlib.Data.Rat.Defs

namespace MeshcoreAnalyzer.Frame

open GoBytes Runes

/-! The decoder functions whose text is the same in cmd/server/decoder.go and
cmd/ingestor/decoder.go, and internal/packetpath and internal/sigvalidate. -/

@[match_pattern] abbrev routeTransportFlood : Nat := 0
@[match_pattern] abbrev routeFlood : Nat := 1
@[match_pattern] abbrev routeDirect : Nat := 2
@[match_pattern] abbrev routeTransportDirect : Nat := 3

@[match_pattern] abbrev payloadREQ : Nat := 0x00
@[match_pattern] abbrev payloadRESPONSE : Nat := 0x01
@[match_pattern] abbrev payloadTXT_MSG : Nat := 0x02
@[match_pattern] abbrev payloadACK : Nat := 0x03
@[match_pattern] abbrev payloadADVERT : Nat := 0x04
@[match_pattern] abbrev payloadGRP_TXT : Nat := 0x05
@[match_pattern] abbrev payloadGRP_DATA : Nat := 0x06
@[match_pattern] abbrev payloadANON_REQ : Nat := 0x07
@[match_pattern] abbrev payloadPATH : Nat := 0x08
@[match_pattern] abbrev payloadTRACE : Nat := 0x09
@[match_pattern] abbrev payloadMULTIPART : Nat := 0x0A
@[match_pattern] abbrev payloadCONTROL : Nat := 0x0B
@[match_pattern] abbrev payloadRAW_CUSTOM : Nat := 0x0F

def routeTypeNames : Nat → Option String
  | routeTransportFlood => some "TRANSPORT_FLOOD"
  | routeFlood => some "FLOOD"
  | routeDirect => some "DIRECT"
  | routeTransportDirect => some "TRANSPORT_DIRECT"
  | _ => none

def payloadTypeNames : Nat → Option String
  | payloadREQ => some "REQ"
  | payloadRESPONSE => some "RESPONSE"
  | payloadTXT_MSG => some "TXT_MSG"
  | payloadACK => some "ACK"
  | payloadADVERT => some "ADVERT"
  | payloadGRP_TXT => some "GRP_TXT"
  | payloadGRP_DATA => some "GRP_DATA"
  | payloadANON_REQ => some "ANON_REQ"
  | payloadPATH => some "PATH"
  | payloadTRACE => some "TRACE"
  | payloadMULTIPART => some "MULTIPART"
  | payloadCONTROL => some "CONTROL"
  | payloadRAW_CUSTOM => some "RAW_CUSTOM"
  | _ => none

structure Header where
  routeType : Nat
  routeTypeName : String
  payloadType : Nat
  payloadTypeName : String
  payloadVersion : Nat
deriving DecidableEq

structure TransportCodes where
  code1 : Bytes
  code2 : Bytes
deriving DecidableEq

structure Path where
  hashSize : Nat
  hashCount : Nat
  hops : List Bytes
  hopsCompleted : Option Nat
deriving DecidableEq

structure AdvertFlags where
  raw : Nat
  type : Nat
  chat : Bool
  repeater : Bool
  room : Bool
  sensor : Bool
  hasLocation : Bool
  hasFeat1 : Bool
  hasFeat2 : Bool
  hasName : Bool
deriving DecidableEq

/-- The payload fields that both packages declare: all of the server's. A
float64 is kept as the rational number it is computed from. -/
structure Payload where
  type : String
  destHash : Bytes := []
  srcHash : Bytes := []
  mac : Bytes := []
  encryptedData : Bytes := []
  extraHash : Bytes := []
  ackLen : Option Nat := none
  ackAttempt : Option Nat := none
  ackRand : Option Nat := none
  pubKey : Bytes := []
  timestamp : Nat := 0
  timestampISO : Bytes := []
  signature : Bytes := []
  signatureValid : Option Bool := none
  flags : Option AdvertFlags := none
  lat : Option ℚ := none
  lon : Option ℚ := none
  name : Bytes := []
  channelHash : Nat := 0
  channelHashHex : Bytes := []
  decryptionStatus : String := ""
  dataType : Option Nat := none
  dataLen : Option Nat := none
  decryptedBlob : Bytes := []
  srcPubKey : Bytes := []
  pathData : Bytes := []
  snrValues : List ℚ := []
  tag : Nat := 0
  authCode : Nat := 0
  traceFlags : Option Nat := none
  rawHex : Bytes := []
  error : String := ""
  remaining : Option Nat := none
  innerType : Option Nat := none
  innerTypeName : String := ""
  innerAckCrc : Bytes := []
  innerAckLen : Option Nat := none
  innerAckAttempt : Option Nat := none
  innerAckRand : Option Nat := none
  innerPayload : Bytes := []
  ctrlFlags : Bytes := []
  ctrlZeroHop : Option Bool := none
  ctrlLength : Option Nat := none
  rawLength : Option Nat := none
  firstByteTag : Bytes := []
deriving DecidableEq

inductive DecodeError
  | invalidHex (e : HexError)
  | tooShort
  | tooShortForTransportCodes
  | noPathByte
  | invalidPathEncoding (pathByte : UInt8) (hashSize hashCount : Nat)
  | pathExceedsBuffer (claimed : Nat) (pathByte : UInt8) (length : Nat)
  | payloadExceedsMax (length : Nat)
deriving DecidableEq

def maxPathSize : Nat := 64
def maxPacketPayload : Nat := 184

def DecodeError.message : DecodeError → String
  | .invalidHex e => "invalid hex: " ++ e.message
  | .tooShort => "packet too short (need at least header + pathLength)"
  | .tooShortForTransportCodes => "packet too short for transport codes"
  | .noPathByte => "packet too short (no path byte)"
  | .invalidPathEncoding pathByte hashSize hashCount =>
      "invalid path encoding: pathByte 0x" ++ hexText pathByte.toNat 2 ++ " (hash_size=" ++
        toString hashSize ++ " hash_count=" ++ toString hashCount ++
        ") violates firmware validity (Packet.cpp:13-18, MAX_PATH_SIZE=" ++
        toString maxPathSize ++ ")"
  | .pathExceedsBuffer claimed pathByte length =>
      "packet path length (" ++ toString claimed ++ " bytes claimed by pathByte 0x" ++
        hexText pathByte.toNat 2 ++ ") exceeds buffer (" ++ toString length ++ " bytes)"
  | .payloadExceedsMax length =>
      "packet payload (" ++ toString length ++ " bytes) exceeds firmware MAX_PACKET_PAYLOAD=" ++
        toString maxPacketPayload ++ " (MeshCore.h:19)"

/-- What the decoders take from the cryptographic packages: `ed25519.Verify`,
HMAC-SHA256 and the decryption of one AES-128 block. -/
structure Crypto where
  verify : Bytes → Bytes → Bytes → Bool
  hmacSHA256 : Bytes → Bytes → Bytes
  hmac_length : ∀ key message, (hmacSHA256 key message).length = 32
  decryptBlock : Bytes → Bytes → Bytes
  decryptBlock_length : ∀ key block, (decryptBlock key block).length = 16

variable {ε : Type}

def decodeHeader (b : UInt8) : Header :=
  let rt := (b &&& 0x03).toNat
  let pt := ((b >>> 2) &&& 0x0F).toNat
  let pv := ((b >>> 6) &&& 0x03).toNat
  { routeType := rt
    routeTypeName := (routeTypeNames rt).getD "UNKNOWN"
    payloadType := pt
    payloadTypeName := (payloadTypeNames pt).getD "UNKNOWN"
    payloadVersion := pv }

def isTransportRoute (routeType : Nat) : Bool :=
  routeType == routeTransportFlood || routeType == routeTransportDirect

def isValidPathLen (pathByte : UInt8) : Bool :=
  let hashCount := (pathByte &&& 0x3F).toNat
  let hashSize := (pathByte >>> 6).toNat + 1
  if hashSize = 4 then false
  else decide (hashCount * hashSize ≤ maxPathSize)

/-- The hop loops: `count` more hops of `hashSize` bytes, the next one numbered
`i`, until one would pass the end of the buffer. -/
def readHops (buf : Bytes) (offset hashSize : Nat) : Nat → Nat → Go ε (List Bytes)
  | 0, _ => pure []
  | count + 1, i => do
      let start := offset + i * hashSize
      let stop := start + hashSize
      if buf.length < stop then
        return []
      let hop ← slice buf start stop
      let hops ← readHops buf offset hashSize count (i + 1)
      return upperHex hop :: hops

theorem readHops_returns (buf : Bytes) (offset hashSize count i : Nat) :
    Returns (readHops buf offset hashSize count i : Go ε (List Bytes)) := by
  induction count generalizing i with
  | zero => exact .pure _
  | succ count ih =>
      simp only [readHops]
      split
      · exact .pure _
      · exact .bind (.slice (by omega) (by omega)) fun _ _ => .bind (ih (i + 1)) fun _ _ => .pure _

def decodePath (pathByte : UInt8) (buf : Bytes) (offset : Nat) : Go DecodeError (Path × Nat) := do
  let hashSize := (pathByte >>> 6).toNat + 1
  let hashCount := (pathByte &&& 0x3F).toNat
  if !isValidPathLen pathByte then
    raise (.invalidPathEncoding pathByte hashSize hashCount)
  else
    let totalBytes := hashSize * hashCount
    let hops ← readHops buf offset hashSize hashCount 0
    return ({ hashSize, hashCount, hops, hopsCompleted := none }, totalBytes)

def shortPayload (type error : String) (buf : Bytes) : Payload :=
  { type, error, rawHex := hexEncode buf }

def decodeEncryptedPayload (typeName : String) (buf : Bytes) : Go ε Payload := do
  if buf.length < 4 then
    return shortPayload typeName "too short" buf
  let destHash ← slice buf 0 1
  let srcHash ← slice buf 1 2
  let mac ← slice buf 2 4
  let encryptedData ← sliceFrom buf 4
  return { type := typeName, destHash := hexEncode destHash, srcHash := hexEncode srcHash,
           mac := hexEncode mac, encryptedData := hexEncode encryptedData }

theorem decodeEncryptedPayload_returns (typeName : String) (buf : Bytes) :
    Returns (decodeEncryptedPayload typeName buf : Go ε Payload) := by
  rw [decodeEncryptedPayload]
  split
  · exact .pure _
  · exact .bind (.slice (by omega) (by omega)) fun _ _ =>
      .bind (.slice (by omega) (by omega)) fun _ _ =>
      .bind (.slice (by omega) (by omega)) fun _ _ =>
      .bind (.sliceFrom (by omega)) fun _ _ => .pure _

theorem uint32_slice_returns {α : Type} {buf : Bytes} {i j : Nat} (hj : j = i + 4)
    (h : j ≤ buf.length) {f : Nat → Go ε α} (hf : ∀ n, Returns (f n)) :
    Returns (slice buf i j >>= fun b => uint32 b >>= f) := by
  refine .bind (.slice (by omega) h) fun b hb => .bind (.uint32 ?_) fun n _ => hf n
  have := slice_length hb
  omega

def decodeAck (buf : Bytes) : Go ε Payload := do
  if buf.length < 4 then
    return shortPayload "ACK" "too short" buf
  let checksum ← uint32 (← slice buf 0 4)
  let ackLen := if 6 < buf.length then 6 else buf.length
  let attempt ← guarded (5 ≤ buf.length) (index buf 4)
  let rnd ← guarded (6 ≤ buf.length) (index buf 5)
  return { type := "ACK", extraHash := fmt08x checksum, ackLen := some ackLen,
           ackAttempt := attempt.map UInt8.toNat, ackRand := rnd.map UInt8.toNat }

theorem decodeAck_returns (buf : Bytes) : Returns (decodeAck buf : Go ε Payload) := by
  rw [decodeAck]
  split
  · exact .pure _
  · exact uint32_slice_returns rfl (by omega) fun _ =>
      .bind (.guarded fun h => .index (by omega)) fun _ _ =>
      .bind (.guarded fun h => .index (by omega)) fun _ _ => .pure _

def decodeMultipart (buf : Bytes) : Go ε Payload := do
  if buf.length < 1 then
    return shortPayload "MULTIPART" "too short" buf
  let b ← index buf 0
  let remaining := (b >>> 4).toNat
  let innerType := (b &&& 0x0F).toNat
  let innerName := (payloadTypeNames innerType).getD "UNKNOWN"
  let p : Payload := { type := "MULTIPART", remaining := some remaining,
                       innerType := some innerType, innerTypeName := innerName }
  if innerType = payloadACK ∧ 5 ≤ buf.length then
    let crc ← uint32 (← slice buf 1 5)
    let ackLen := if 6 < buf.length - 1 then 6 else buf.length - 1
    let attempt ← guarded (6 ≤ buf.length) (index buf 5)
    let rnd ← guarded (7 ≤ buf.length) (index buf 6)
    return { p with innerAckCrc := fmt08x crc, innerAckLen := some ackLen,
                    innerAckAttempt := attempt.map UInt8.toNat,
                    innerAckRand := rnd.map UInt8.toNat }
  else if 1 < buf.length then
    let inner ← sliceFrom buf 1
    return { p with innerPayload := hexEncode inner }
  else
    return p

theorem decodeMultipart_returns (buf : Bytes) : Returns (decodeMultipart buf : Go ε Payload) := by
  rw [decodeMultipart]
  split
  · exact .pure _
  · refine .bind (.index (by omega)) fun b _ => ?_
    simp only
    split
    · next h =>
        exact uint32_slice_returns rfl h.2 fun _ =>
          .bind (.guarded fun h => .index (by omega)) fun _ _ =>
          .bind (.guarded fun h => .index (by omega)) fun _ _ => .pure _
    · split
      · exact .bind (.sliceFrom (by omega)) fun _ _ => .pure _
      · exact .pure _

def decodeRawCustom (buf : Bytes) : Go ε Payload := do
  let tag ← guarded (0 < buf.length) (index buf 0)
  return { type := "RAW_CUSTOM", rawLength := some buf.length, rawHex := hexEncode buf,
           firstByteTag := match tag with | some b => upperHex [b] | none => [] }

theorem decodeRawCustom_returns (buf : Bytes) : Returns (decodeRawCustom buf : Go ε Payload) :=
  .bind (.guarded fun h => .index h) fun _ _ => .pure _

def decodeAnonReq (buf : Bytes) : Go ε Payload := do
  if buf.length < 35 then
    return shortPayload "ANON_REQ" "too short" buf
  let destHash ← slice buf 0 1
  let srcPubKey ← slice buf 1 33
  let mac ← slice buf 33 35
  let encryptedData ← sliceFrom buf 35
  return { type := "ANON_REQ", destHash := hexEncode destHash, srcPubKey := hexEncode srcPubKey,
           mac := hexEncode mac, encryptedData := hexEncode encryptedData }

theorem decodeAnonReq_returns (buf : Bytes) : Returns (decodeAnonReq buf : Go ε Payload) := by
  rw [decodeAnonReq]
  split
  · exact .pure _
  · exact .bind (.slice (by omega) (by omega)) fun _ _ =>
      .bind (.slice (by omega) (by omega)) fun _ _ =>
      .bind (.slice (by omega) (by omega)) fun _ _ =>
      .bind (.sliceFrom (by omega)) fun _ _ => .pure _

def decodePathPayload (buf : Bytes) : Go ε Payload := do
  if buf.length < 4 then
    return shortPayload "PATH" "too short" buf
  let destHash ← slice buf 0 1
  let srcHash ← slice buf 1 2
  let mac ← slice buf 2 4
  let pathData ← sliceFrom buf 4
  return { type := "PATH", destHash := hexEncode destHash, srcHash := hexEncode srcHash,
           mac := hexEncode mac, pathData := hexEncode pathData }

theorem decodePathPayload_returns (buf : Bytes) :
    Returns (decodePathPayload buf : Go ε Payload) := by
  rw [decodePathPayload]
  split
  · exact .pure _
  · exact .bind (.slice (by omega) (by omega)) fun _ _ =>
      .bind (.slice (by omega) (by omega)) fun _ _ =>
      .bind (.slice (by omega) (by omega)) fun _ _ =>
      .bind (.sliceFrom (by omega)) fun _ _ => .pure _

def decodeTrace (buf : Bytes) : Go ε Payload := do
  if buf.length < 9 then
    return shortPayload "TRACE" "too short" buf
  let tag ← uint32 (← slice buf 0 4)
  let authCode ← uint32 (← slice buf 4 8)
  let flags ← index buf 8
  let pathData ← guarded (9 < buf.length) (sliceFrom buf 9)
  return { type := "TRACE", tag, authCode, traceFlags := some flags.toNat,
           pathData := match pathData with | some bs => hexEncode bs | none => [] }

theorem decodeTrace_returns (buf : Bytes) : Returns (decodeTrace buf : Go ε Payload) := by
  rw [decodeTrace]
  split
  · exact .pure _
  · exact uint32_slice_returns rfl (by omega) fun _ =>
      uint32_slice_returns rfl (by omega) fun _ =>
      .bind (.index (by omega)) fun _ _ =>
      .bind (.guarded fun h => .sliceFrom (by omega)) fun _ _ => .pure _

def dec2 (n : Nat) : Bytes := [UInt8.ofNat (48 + n / 10 % 10), UInt8.ofNat (48 + n % 10)]

/-- The year, month and day of the day numbered `days` from the first of
January 1970. -/
def civilOfDays (days : Nat) : Nat × Nat × Nat :=
  let z := days + 719468
  let era := z / 146097
  let doe := z % 146097
  let yoe := (doe - doe / 1460 + doe / 36524 - doe / 146096) / 365
  let doy := doe - (365 * yoe + yoe / 4 - yoe / 100)
  let mp := (5 * doy + 2) / 153
  let day := doy - (153 * mp + 2) / 5 + 1
  let month := if mp < 10 then mp + 3 else mp - 9
  (yoe + era * 400 + (if month ≤ 2 then 1 else 0), month, day)

/-- `time.Unix(epoch, 0).UTC().Format("2006-01-02T15:04:05.000Z")` -/
def epochToISO (epoch : Nat) : Bytes :=
  let (year, month, day) := civilOfDays (epoch / 86400)
  let second := epoch % 86400
  dec2 (year / 100) ++ dec2 year ++ [0x2D] ++ dec2 month ++ [0x2D] ++ dec2 day ++ [0x54] ++
    dec2 (second / 3600) ++ [0x3A] ++ dec2 (second / 60 % 60) ++ [0x3A] ++ dec2 (second % 60) ++
    [0x2E, 0x30, 0x30, 0x30, 0x5A]

def putUint32 (n : Nat) : Bytes :=
  [UInt8.ofNat (n % 256), UInt8.ofNat (n / 256 % 256), UInt8.ofNat (n / 65536 % 256),
    UInt8.ofNat (n / 16777216 % 256)]

/-- `sigvalidate.ValidateAdvert`; the error of a wrong length is `none`. -/
def validateAdvert (crypto : Crypto) (pubKey signature : Bytes) (timestamp : Nat)
    (appdata : Bytes) : Option Bool :=
  if pubKey.length ≠ 32 then none
  else if signature.length ≠ 64 then none
  else some (crypto.verify pubKey (pubKey ++ putUint32 timestamp ++ appdata) signature)

/-- The part of `decodeAdvert` before the application data. -/
def advertBase (crypto : Crypto) (buf : Bytes) (validateSignatures : Bool) :
    Go ε (Payload × Bytes) := do
  let pubKey ← slice buf 0 32
  let timestamp ← uint32 (← slice buf 32 36)
  let signature ← slice buf 36 100
  let appdata ← sliceFrom buf 100
  let p : Payload := { type := "ADVERT", pubKey := hexEncode pubKey, timestamp,
                       timestampISO := epochToISO timestamp, signature := hexEncode signature }
  if validateSignatures then
    let valid := (validateAdvert crypto pubKey signature timestamp appdata).getD false
    return ({ p with signatureValid := some valid }, appdata)
  else
    return (p, appdata)

theorem advertBase_returns (crypto : Crypto) {buf : Bytes} (h : 100 ≤ buf.length)
    (validateSignatures : Bool) :
    ∃ p, (advertBase crypto buf validateSignatures : Go ε (Payload × Bytes)) =
      .ok (p, buf.drop 100) ∧ p.type = "ADVERT" ∧ p.name = [] := by
  obtain ⟨ts, hts⟩ : Returns (uint32 ((buf.take 36).drop 32) : Go ε Nat) :=
    .uint32 (by rw [List.length_drop, List.length_take]; omega)
  rw [advertBase]
  rw [slice_ok (by omega) (by omega), slice_ok (by omega) (by omega),
    slice_ok (by omega) (by omega), sliceFrom_ok h]
  simp only [bind, Except.bind, hts]
  split <;> exact ⟨_, rfl, rfl, rfl⟩

def advertFlags (flags : UInt8) : AdvertFlags :=
  let advType := (flags &&& 0x0F).toNat
  { raw := flags.toNat
    type := advType
    chat := advType == 1
    repeater := advType == 2
    room := advType == 3
    sensor := advType == 4
    hasLocation := flags &&& 0x10 != 0
    hasFeat1 := flags &&& 0x20 != 0
    hasFeat2 := flags &&& 0x40 != 0
    hasName := flags &&& 0x80 != 0 }

def advertLocation (f : AdvertFlags) (appdata : Bytes) (off : Nat) :
    Go ε (Option ℚ × Option ℚ × Nat) := do
  if f.hasLocation ∧ off + 8 ≤ appdata.length then
    let latRaw := int32 (← uint32 (← slice appdata off (off + 4)))
    let lonRaw := int32 (← uint32 (← slice appdata (off + 4) (off + 8)))
    return (some ((latRaw : ℚ) / 1000000), some ((lonRaw : ℚ) / 1000000), off + 8)
  else
    return (none, none, off)

theorem advertLocation_returns (f : AdvertFlags) (appdata : Bytes) {off : Nat}
    (hoff : off ≤ appdata.length) :
    ∃ lat lon next, (advertLocation f appdata off : Go ε _) = .ok (lat, lon, next) ∧
      off ≤ next ∧ next ≤ appdata.length := by
  rw [advertLocation]
  split
  · next h =>
      obtain ⟨lat, hlat⟩ : Returns (uint32 ((appdata.take (off + 4)).drop off) : Go ε Nat) :=
        .uint32 (by rw [List.length_drop, List.length_take]; omega)
      obtain ⟨lon, hlon⟩ : Returns (uint32 ((appdata.take (off + 8)).drop (off + 4)) : Go ε Nat) :=
        .uint32 (by rw [List.length_drop, List.length_take]; omega)
      rw [slice_ok (by omega) (by omega), slice_ok (by omega) (by omega)]
      simp only [bind, Except.bind, hlat, hlon]
      exact ⟨_, _, _, rfl, by omega, h.2⟩
  · exact ⟨none, none, off, rfl, le_rfl, hoff⟩

/-- The runes of a name that `sanitizeName` keeps. -/
def keepRune (c : Nat) : Bool := c == 9 || c == 10 || (0x20 ≤ c && c != 0x7F)

def sanitizeName (s : Bytes) : Bytes := ((runes s).filter keepRune).flatMap encodeRune

def advertName (name : Bytes) : Bytes :=
  let name := sanitizeName name
  if 32 < name.length then name.take 32 else name

/-- `strings.ReplaceAll` of " ", "\n" and "\r" by nothing. -/
def stripSpace (s : Bytes) : Bytes := s.filter (fun c => c != 0x20 && c != 0x0A && c != 0x0D)

/-- What `DecodePacket` knows when it has found the payload. -/
structure WirePacket where
  raw : Bytes
  header : Header
  transportCodes : Option TransportCodes
  pathByte : UInt8
  path : Path
  payloadBuf : Bytes
deriving DecidableEq

def readTransportCodes (header : Header) (buf : Bytes) (offset : Nat) :
    Go DecodeError (Option TransportCodes × Nat) := do
  if isTransportRoute header.routeType then
    if buf.length < offset + 4 then
      raise .tooShortForTransportCodes
    else
      let code1 ← slice buf offset (offset + 2)
      let code2 ← slice buf (offset + 2) (offset + 4)
      return (some ⟨upperHex code1, upperHex code2⟩, offset + 4)
  else
    return (none, offset)

/-- The part of `DecodePacket` after the hex text and before the payload. -/
def splitPacket (raw buf : Bytes) : Go DecodeError WirePacket := do
  if buf.length < 2 then
    raise .tooShort
  else
    let header := decodeHeader (← index buf 0)
    let (transportCodes, offset) ← readTransportCodes header buf 1
    if buf.length ≤ offset then
      raise .noPathByte
    else
      let pathByte ← index buf offset
      let offset := offset + 1
      let (path, bytesConsumed) ← decodePath pathByte buf offset
      let offset := offset + bytesConsumed
      if buf.length < offset then
        raise (.pathExceedsBuffer bytesConsumed pathByte buf.length)
      else
        let payloadBuf ← sliceFrom buf offset
        if maxPacketPayload < payloadBuf.length then
          raise (.payloadExceedsMax payloadBuf.length)
        else
          return { raw, header, transportCodes, pathByte, path, payloadBuf }

/-- The part of `DecodePacket` before the payload. -/
def readPacket (hexString : Bytes) : Go DecodeError WirePacket :=
  let hexString := stripSpace hexString
  match hexDecode hexString with
  | .error e => raise (.invalidHex e)
  | .ok buf => splitPacket (toUpper hexString) buf

/-- The quarter-dB values of the first `count` hops from `i` on. -/
def readSNR (hops : List Bytes) : Nat → Nat → Go ε (List ℚ)
  | 0, _ => pure []
  | count + 1, i => do
      let hop ← index hops i
      let rest ← readSNR hops count (i + 1)
      match hexDecode hop with
      | .ok [b] => return (int8 b.toNat : ℚ) / 4 :: rest
      | _ => return rest

theorem readSNR_returns (hops : List Bytes) {count i : Nat} (h : i + count ≤ hops.length) :
    Returns (readSNR hops count i : Go ε (List ℚ)) := by
  induction count generalizing i with
  | zero => exact .pure _
  | succ count ih =>
      refine .bind (.index (by omega)) fun hop _ => .bind (ih (by omega)) fun rest _ => ?_
      split
      · exact .pure _
      · exact .pure _

def isDirect (header : Header) : Bool :=
  header.routeType == routeDirect || header.routeType == routeTransportDirect

def HasTracePath (header : Header) (payload : Payload) : Prop :=
  header.payloadType = payloadTRACE ∧ payload.pathData ≠ []

instance (header : Header) (payload : Payload) : Decidable (HasTracePath header payload) := by
  unfold HasTracePath; infer_instance

def routingAnomaly (header : Header) (payload : Payload) (anomaly : String) : String :=
  if HasTracePath header payload ∧ !isDirect header then
    "TRACE packet with non-DIRECT routing (expected DIRECT or TRANSPORT_DIRECT)"
  else anomaly

/-- The part of `DecodePacket` that moves the hops of a TRACE from its payload
to its path. -/
def finishTrace (header : Header) (path : Path) (payload : Payload) : Go ε (Path × Payload) := do
  if HasTracePath header payload then
    let hopsCompleted := path.hashCount
    let snrVals ← guarded (0 < hopsCompleted ∧ hopsCompleted ≤ path.hops.length)
      (readSNR path.hops hopsCompleted 0)
    let payload := match snrVals with
      | some (v :: vs) => { payload with snrValues := v :: vs }
      | _ => payload
    match hexDecode payload.pathData, payload.traceFlags with
    | .ok pathBytes, some traceFlags =>
        let pathSz := 1 <<< (traceFlags &&& 0x03)
        let hops ← readHops pathBytes 0 pathSz pathBytes.length 0
        return ({ hashSize := pathSz, hashCount := hops.length, hops,
                  hopsCompleted := some hopsCompleted }, payload)
    | _, _ => return (path, payload)
  else
    return (path, payload)

theorem finishTrace_returns (header : Header) (path : Path) (payload : Payload) :
    Returns (finishTrace header path payload : Go ε _) := by
  rw [finishTrace]
  split
  · refine .bind (.guarded fun h => readSNR_returns path.hops (by omega)) fun snrVals _ => ?_
    simp only
    split
    · exact .bind (readHops_returns _ _ _ _ _) fun _ _ => .pure _
    · exact .pure _
  · exact .pure _

theorem finishTrace_of_ne_trace {header : Header} (h : header.payloadType ≠ payloadTRACE)
    (path : Path) (payload : Payload) :
    (finishTrace header path payload : Go ε _) = .ok (path, payload) := by
  rw [finishTrace, if_neg (fun hc => h hc.1)]
  rfl

def resetZeroHop (header : Header) (pathByte : UInt8) (path : Path) : Path :=
  if isDirect header ∧ pathByte &&& 0x3F = 0 ∧ header.payloadType ≠ payloadTRACE then
    { path with hashSize := 0 }
  else path

structure DecodedPacket (π : Type) where
  header : Header
  transportCodes : Option TransportCodes
  path : Path
  payload : π
  raw : Bytes
  anomaly : String
deriving DecidableEq

end MeshcoreAnalyzer.Frame

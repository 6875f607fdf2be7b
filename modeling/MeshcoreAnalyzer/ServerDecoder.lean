import MeshcoreAnalyzer.Frame

namespace MeshcoreAnalyzer.ServerDecoder

open GoBytes Runes MeshcoreAnalyzer.Frame

/-! cmd/server/decoder.go -/

variable {ε : Type}

def skipFeat (has : Bool) (appdata : Bytes) (off : Nat) : Nat :=
  if has ∧ off + 2 ≤ appdata.length then off + 2 else off

theorem skipFeat_le (has : Bool) {appdata : Bytes} {off : Nat} (hoff : off ≤ appdata.length) :
    skipFeat has appdata off ≤ appdata.length := by
  rw [skipFeat]
  split <;> omega

/-- `strings.TrimRight(name, "\x00")` -/
def trimRightNul (name : Bytes) : Bytes := (name.reverse.dropWhile (· == 0)).reverse

def decodeAdvert (crypto : Crypto) (buf : Bytes) (validateSignatures : Bool) : Go ε Payload := do
  if buf.length < 100 then
    return shortPayload "ADVERT" "too short for advert" buf
  let (p, appdata) ← advertBase crypto buf validateSignatures
  if 0 < appdata.length then
    let f := advertFlags (← index appdata 0)
    let (lat, lon, off) ← advertLocation f appdata 1
    let off := skipFeat f.hasFeat1 appdata off
    let off := skipFeat f.hasFeat2 appdata off
    let p := { p with flags := some f, lat, lon }
    if f.hasName then
      let name ← sliceFrom appdata off
      return { p with name := advertName (trimRightNul name) }
    else
      return p
  else
    return p

def decodeGrpTxt (buf : Bytes) : Go ε Payload := do
  if buf.length < 3 then
    return shortPayload "GRP_TXT" "too short" buf
  let b ← index buf 0
  let mac := hexEncode (← slice buf 1 3)
  let encryptedData := hexEncode (← sliceFrom buf 3)
  return { type := "GRP_TXT", channelHash := b.toNat, mac, encryptedData }

def decodeGrpData (buf : Bytes) : Go ε Payload := do
  if buf.length < 3 then
    return shortPayload "GRP_DATA" "too short" buf
  let b ← index buf 0
  let mac := hexEncode (← slice buf 1 3)
  let encryptedData := hexEncode (← sliceFrom buf 3)
  return { type := "GRP_DATA", channelHash := b.toNat, channelHashHex := upperHex [b], mac,
           encryptedData }

def decodeControl (buf : Bytes) : Go ε Payload := do
  if buf.length < 1 then
    return shortPayload "CONTROL" "too short" buf
  let b ← index buf 0
  return { type := "CONTROL", ctrlFlags := hexEncode [b],
           ctrlZeroHop := some (b &&& 0x80 != 0), ctrlLength := some buf.length,
           rawHex := hexEncode buf }

def decodePayload (crypto : Crypto) (payloadType : Nat) (buf : Bytes)
    (validateSignatures : Bool) : Go ε Payload :=
  match payloadType with
  | payloadREQ => decodeEncryptedPayload "REQ" buf
  | payloadRESPONSE => decodeEncryptedPayload "RESPONSE" buf
  | payloadTXT_MSG => decodeEncryptedPayload "TXT_MSG" buf
  | payloadACK => decodeAck buf
  | payloadADVERT => decodeAdvert crypto buf validateSignatures
  | payloadGRP_TXT => decodeGrpTxt buf
  | payloadGRP_DATA => decodeGrpData buf
  | payloadANON_REQ => decodeAnonReq buf
  | payloadPATH => decodePathPayload buf
  | payloadTRACE => decodeTrace buf
  | payloadMULTIPART => decodeMultipart buf
  | payloadCONTROL => decodeControl buf
  | payloadRAW_CUSTOM => decodeRawCustom buf
  | _ => pure { type := "UNKNOWN", rawHex := hexEncode buf }

def decodePacket (crypto : Crypto) (hexString : Bytes) (validateSignatures : Bool) :
    Go DecodeError (DecodedPacket Payload) := do
  let w ← readPacket hexString
  let payload ← decodePayload crypto w.header.payloadType w.payloadBuf validateSignatures
  let anomaly := routingAnomaly w.header payload ""
  let (path, payload) ← finishTrace w.header w.path payload
  return { header := w.header
           transportCodes := w.transportCodes
           path := resetZeroHop w.header w.pathByte path
           payload
           raw := w.raw
           anomaly }

end MeshcoreAnalyzer.ServerDecoder

import MeshcoreAnalyzer.IngestorDecoder
import MeshcoreAnalyzer.JsonText

namespace MeshcoreAnalyzer.IngestorDecoder

open GoBytes Runes Json MeshcoreAnalyzer.Frame

/-! `PayloadJSON` of cmd/ingestor/decoder.go: the text that `json.Marshal` makes of a
payload. -/

/-- `strconv` of a float64, in the form that JSON takes. -/
abbrev FloatText := ℚ → String

def asciiChar (b : UInt8) : Char := Char.ofNat b.toNat

def unicodeEscape (b : UInt8) : List Char :=
  ['\\', 'u', '0', '0', asciiChar (hexDigit (b.toNat / 16)), asciiChar (hexDigit (b.toNat % 16))]

def escapeByte (b : UInt8) : List Char :=
  if b = 0x22 ∨ b = 0x5C then ['\\', asciiChar b]
  else if b = 0x08 then ['\\', 'b']
  else if b = 0x0C then ['\\', 'f']
  else if b = 0x0A then ['\\', 'n']
  else if b = 0x0D then ['\\', 'r']
  else if b = 0x09 then ['\\', 't']
  else if b < 0x20 ∨ b = 0x3C ∨ b = 0x3E ∨ b = 0x26 then unicodeEscape b
  else [asciiChar b]

def escapeRune (r : Nat × Nat) : List Char :=
  if r.1 = runeError ∧ r.2 = 1 then ['\\', 'u', 'f', 'f', 'f', 'd']
  else if r.1 = 0x2028 then ['\\', 'u', '2', '0', '2', '8']
  else if r.1 = 0x2029 then ['\\', 'u', '2', '0', '2', '9']
  else [Char.ofNat r.1]

def escapeFrom : Nat → Bytes → List Char
  | _, [] => []
  | k + 1, _ :: rest => escapeFrom k rest
  | 0, p :: rest =>
      (if p < 0x80 then escapeByte p else escapeRune (decodeRune p rest)) ++
        escapeFrom ((decodeRune p rest).2 - 1) rest

def marshalString (s : Bytes) : List Char := quoted (escapeFrom 0 s)

def utf8 (s : String) : Bytes := s.toUTF8.data.toList

def marshalBool (b : Bool) : List Char := if b then "true".toList else "false".toList

def marshalNat (n : Nat) : List Char := (toString n).toList

def marshalInt (n : Int) : List Char := (toString n).toList

def marshalFlags (f : AdvertFlags) : List Char :=
  (objectText [("raw", marshalNat f.raw), ("type", marshalNat f.type), ("chat", marshalBool f.chat),
    ("repeater", marshalBool f.repeater), ("room", marshalBool f.room), ("sensor", marshalBool f.sensor),
    ("hasLocation", marshalBool f.hasLocation), ("hasFeat1", marshalBool f.hasFeat1),
    ("hasFeat2", marshalBool f.hasFeat2), ("hasName", marshalBool f.hasName)]).toList

def marshalFloats (floatText : FloatText) (xs : List ℚ) : List Char :=
  '[' :: (List.intercalate [','] (xs.map fun x => (floatText x).toList) ++ [']'])

def textField (key : String) (s : Bytes) : List (String × List Char) :=
  if s = [] then [] else [(key, marshalString s)]

def natField (key : String) (n : Nat) : List (String × List Char) := if n = 0 then [] else [(key, marshalNat n)]

def pointerField {α : Type} (key : String) (marshal : α → List Char) (v : Option α) : List (String × List Char) :=
  match v with
  | some x => [(key, marshal x)]
  | none => []

def payloadMembers (floatText : FloatText) (p : Payload) : List (String × List Char) :=
  List.flatten [
    [("type", marshalString (utf8 p.type))], textField "destHash" p.destHash, textField "srcHash" p.srcHash,
    textField "mac" p.mac, textField "encryptedData" p.encryptedData, textField "extraHash" p.extraHash,
    pointerField "ackLen" marshalNat p.ackLen, pointerField "ackAttempt" marshalNat p.ackAttempt,
    pointerField "ackRand" marshalNat p.ackRand, textField "pubKey" p.pubKey, natField "timestamp" p.timestamp,
    textField "timestampISO" p.timestampISO, textField "signature" p.signature,
    pointerField "signatureValid" marshalBool p.signatureValid, pointerField "flags" marshalFlags p.flags,
    pointerField "lat" (fun x => (floatText x).toList) p.lat,
    pointerField "lon" (fun x => (floatText x).toList) p.lon, textField "name" p.name,
    pointerField "feat1" marshalNat p.feat1, pointerField "feat2" marshalNat p.feat2,
    pointerField "battery_mv" marshalNat p.batteryMv,
    pointerField "temperature_c" (fun x => (floatText x).toList) p.temperatureC,
    natField "channelHash" p.channelHash, textField "channelHashHex" p.channelHashHex,
    textField "decryptionStatus" (utf8 p.decryptionStatus), textField "channel" p.channel,
    pointerField "dataType" marshalNat p.dataType, pointerField "dataLen" marshalNat p.dataLen,
    textField "decryptedBlob" p.decryptedBlob, textField "text" p.text, textField "sender" p.sender,
    natField "sender_timestamp" p.senderTimestamp, textField "srcPubKey" p.srcPubKey,
    textField "pathData" p.pathData,
    (if p.snrValues = [] then [] else [("snrValues", marshalFloats floatText p.snrValues)]),
    natField "tag" p.tag, natField "authCode" p.authCode, pointerField "traceFlags" marshalNat p.traceFlags,
    textField "raw" p.rawHex, textField "error" (utf8 p.error), pointerField "remaining" marshalNat p.remaining,
    pointerField "innerType" marshalNat p.innerType, textField "innerTypeName" (utf8 p.innerTypeName),
    textField "innerAckCrc" p.innerAckCrc, pointerField "innerAckLen" marshalNat p.innerAckLen,
    pointerField "innerAckAttempt" marshalNat p.innerAckAttempt,
    pointerField "innerAckRand" marshalNat p.innerAckRand, textField "innerPayload" p.innerPayload,
    textField "ctrlFlags" p.ctrlFlags, pointerField "ctrlZeroHop" marshalBool p.ctrlZeroHop,
    pointerField "ctrlLength" marshalNat p.ctrlLength, textField "ctrlSubtype" (utf8 p.ctrlSubtype),
    pointerField "ctrlFilter" marshalNat p.ctrlFilter, pointerField "ctrlTag" marshalNat p.ctrlTag,
    pointerField "ctrlSince" marshalNat p.ctrlSince, pointerField "ctrlNodeType" marshalNat p.ctrlNodeType,
    pointerField "ctrlSNR" marshalInt p.ctrlSNR, textField "ctrlPubKey" p.ctrlPubKey,
    pointerField "rawLength" marshalNat p.rawLength, textField "firstByteTag" p.firstByteTag]

def payloadJSON (floatText : FloatText) (p : Payload) : String := objectText (payloadMembers floatText p)

def PlainByte (d : UInt8) : Prop := d < 0x80 ∧ escapeByte d = [asciiChar d] ∧ Plain (asciiChar d)

theorem hexDigit_plain : ∀ n < 16, PlainByte (hexDigit n) := by
  unfold PlainByte Plain
  decide

theorem hexEncode_plain (bs : Bytes) : ∀ d ∈ hexEncode bs, PlainByte d := by
  intro d hd
  obtain ⟨b, _, hd⟩ := List.mem_flatMap.mp hd
  have hb : b.toNat < 256 := b.toNat_lt
  rcases List.mem_cons.mp hd with rfl | hd
  · exact hexDigit_plain _ (by omega)
  · rw [List.mem_singleton.mp hd]
    exact hexDigit_plain _ (by omega)

theorem escapeFrom_plain {s : Bytes} (h : ∀ d ∈ s, PlainByte d) :
    escapeFrom 0 s = s.map asciiChar := by
  induction s with
  | nil => rfl
  | cons p s ih =>
      obtain ⟨hp, hescape, _⟩ := h p List.mem_cons_self
      rw [escapeFrom, if_pos hp, decodeRune_ascii hp, hescape, List.map_cons, ← ih fun d hd =>
        h d (List.mem_cons_of_mem p hd)]
      rfl

def hexText (bs : Bytes) : String := String.ofList ((hexEncode bs).map asciiChar)

theorem toList_hexText (bs : Bytes) : (hexText bs).toList = (hexEncode bs).map asciiChar := String.toList_ofList

theorem plain_hexText (bs : Bytes) : ∀ c ∈ (hexText bs).toList, Plain c := by
  intro c hc
  rw [toList_hexText] at hc
  obtain ⟨d, hd, rfl⟩ := List.mem_map.mp hc
  exact (hexEncode_plain bs d hd).2.2

theorem marshalString_hexEncode (bs : Bytes) : marshalString (hexEncode bs) = quoted (hexText bs).toList := by
  rw [marshalString, toList_hexText, escapeFrom_plain (hexEncode_plain bs)]

end MeshcoreAnalyzer.IngestorDecoder

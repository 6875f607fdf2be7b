import MeshcoreAnalyzer.ContentHash
import MeshcoreAnalyzer.PayloadJSON
import MeshcoreAnalyzer.RegionKeys

namespace MeshcoreAnalyzer.StoredPath

open GoBytes RawHex FrameGrammar ContentHash Json RegionKeys IngestorDecoder
open MeshcoreAnalyzer.Frame hiding Payload DecodedPacket

/-! `DecodePathFromRawHex` of internal/packetpath/path.go and `BuildPacketData` of cmd/ingestor/db.go. -/

variable {ε δ : Type}

def pathStart (headerByte : UInt8) (buf : Bytes) : Go Unit Nat :=
  if isTransportRoute (headerByte &&& 0x03).toNat then
    if buf.length < 1 + 4 then raise () else pure (1 + 4)
  else pure 1

/-- The part of `DecodePathFromRawHex` after the hex text. -/
def headerHops (buf : Bytes) : Go Unit (List Bytes) := do
  if buf.length < 2 then raise ()
  else
    let headerByte ← index buf 0
    let offset ← pathStart headerByte buf
    if buf.length ≤ offset then raise ()
    else
      let pathByte ← index buf offset
      let hashSize := (pathByte >>> 6).toNat + 1
      let hashCount := (pathByte &&& 0x3F).toNat
      readHops buf (offset + 1) hashSize hashCount 0

def decodePathFromRawHex (rawHex : Bytes) : Go Unit (List Bytes) :=
  match hexDecode rawHex with
  | .error _ => raise ()
  | .ok buf => headerHops buf

def pathBytesAreHops (payloadType : UInt8) : Bool := payloadType.toNat != payloadTRACE

/-- `json.Marshal` of a slice of strings. -/
def marshalStrings (xs : List Bytes) : String :=
  String.ofList ('[' :: (List.intercalate [','] (xs.map marshalString) ++ [']']))

def hopsJSON (hops : List Bytes) : String := if 0 < hops.length then marshalStrings hops else "[]"

structure MQTTPacketMessage where
  raw : Bytes
  snr : Option ℚ
  rssi : Option ℚ
  score : Option ℚ
  direction : Option Bytes
  origin : Bytes
  region : Bytes

structure PacketData where
  rawHex : Bytes
  timestamp : Bytes
  observerID : Bytes
  observerName : Bytes
  snr : Option ℚ
  rssi : Option ℚ
  score : Option ℚ
  direction : Option Bytes
  hash : Bytes
  routeType : Nat
  payloadType : Nat
  payloadVersion : Nat
  pathJSON : String
  decodedJSON : String
  channelHash : Bytes
  scopeName : Bytes
  isTransportScoped : Bool
  code1 : Bytes
  code2 : Bytes
  region : Bytes
  fromPubkey : Bytes

/-- `pathJSON` of `BuildPacketData`. -/
def storedPath (raw : Bytes) (decoded : DecodedPacket) : Go ε String :=
  if !pathBytesAreHops (UInt8.ofNat decoded.header.payloadType) then pure (hopsJSON decoded.path.hops)
  else
    match decodePathFromRawHex raw with
    | .ok hops => pure (hopsJSON hops)
    | .error (.err _) => pure "[]"
    | .error .panic => .error .panic

def channelHashOf (decoded : DecodedPacket) : Bytes :=
  if decoded.header.payloadType = payloadGRP_TXT then
    if decoded.payload.type = "CHAN" ∧ decoded.payload.channel ≠ [] then decoded.payload.channel
    else if decoded.payload.type = "GRP_TXT" ∧ decoded.payload.channelHashHex ≠ [] then
      utf8 "enc_" ++ decoded.payload.channelHashHex
    else []
  else []

/-- The time of the server's clock, the region keys of the moment and the order in which the range
visits them. -/
structure Moment where
  now : Bytes
  regions : RegionKeySnapshot
  order : List (Bytes × Bytes)

def buildPacketData (sha256 : Bytes → Bytes) (crypto : Crypto) (floatText : FloatText) (moment : Moment)
    (msg : MQTTPacketMessage) (decoded : DecodedPacket) (observerID region : Bytes) : Go ε PacketData := do
  let pathJSON ← storedPath msg.raw decoded
  let hash ← computeContentHash sha256 msg.raw
  let scope := decoded.transportCodes.filter fun tc => tc.code1 ≠ noCode
  return {
    rawHex := msg.raw
    timestamp := moment.now
    observerID
    observerName := msg.origin
    snr := msg.snr
    rssi := msg.rssi
    score := msg.score
    direction := msg.direction
    hash
    routeType := decoded.header.routeType
    payloadType := decoded.header.payloadType
    payloadVersion := decoded.header.payloadVersion
    pathJSON
    decodedJSON := payloadJSON floatText decoded.payload
    channelHash := channelHashOf decoded
    scopeName := match scope with
      | some tc => (moment.regions.scopeMatch crypto moment.order (UInt8.ofNat decoded.header.payloadType)
          decoded.payloadRaw tc.code1).name
      | none => []
    isTransportScoped := scope.isSome
    code1 := (decoded.transportCodes.map TransportCodes.code1).getD []
    code2 := (decoded.transportCodes.map TransportCodes.code2).getD []
    region := if msg.region ≠ [] then msg.region else region
    fromPubkey := if decoded.header.payloadType = payloadADVERT ∧ decoded.payload.pubKey ≠ [] then
      decoded.payload.pubKey else [] }

variable {raw buf : Bytes} {w : WirePacket}

theorem readHops_same {offset hashSize count i : Nat} {hops : List Bytes}
    (h : (readHops buf offset hashSize count i : Go ε (List Bytes)) = .ok hops) :
    (readHops buf offset hashSize count i : Go δ (List Bytes)) = .ok hops := by
  induction count generalizing i hops with
  | zero =>
      cases h
      rfl
  | succ count ih =>
      rw [readHops] at h ⊢
      split at h
      · next hend =>
          cases h
          rw [if_pos hend]
          rfl
      · next hend =>
          obtain ⟨hop, hhop, h⟩ := ok_of_bind h
          obtain ⟨rest, hrest, h⟩ := ok_of_bind h
          cases h
          rw [if_neg hend, slice_same hhop]
          simp only [bind, Except.bind]
          rw [ih hrest]
          rfl

theorem pathStart_of_readTransportCodes {b : UInt8} {tc : Option TransportCodes} {offset : Nat}
    (h : readTransportCodes (decodeHeader b) buf 1 = .ok (tc, offset)) : pathStart b buf = .ok offset := by
  have hroute : (decodeHeader b).routeType = (b &&& 0x03).toNat := rfl
  rw [readTransportCodes, hroute] at h
  rw [pathStart]
  split at h
  · next htransport =>
      rw [if_pos htransport]
      split at h
      · cases h
      · next hlen =>
          rw [if_neg hlen]
          obtain ⟨_, _, h⟩ := ok_of_bind h
          obtain ⟨_, _, h⟩ := ok_of_bind h
          cases h
          rfl
  · next htransport =>
      cases h
      rw [if_neg htransport]
      rfl

theorem headerHops_of_splitPacket (h : splitPacket raw buf = .ok w) : headerHops buf = .ok w.path.hops := by
  rw [splitPacket] at h
  split at h
  · cases h
  · next hlen =>
      obtain ⟨b, hb, h⟩ := ok_of_bind h
      obtain ⟨⟨tc, offset⟩, hcodes, h⟩ := ok_of_bind h
      dsimp only at h
      split at h
      · cases h
      · next hpath =>
          obtain ⟨pathByte, hpathByte, h⟩ := ok_of_bind h
          obtain ⟨⟨path, consumed⟩, hdecode, h⟩ := ok_of_bind h
          dsimp only at h
          split at h
          · cases h
          · obtain ⟨payloadBuf, _, h⟩ := ok_of_bind h
            split at h
            · cases h
            · cases h
              rw [decodePath] at hdecode
              dsimp only at hdecode
              split at hdecode
              · cases hdecode
              · obtain ⟨hops, hhops, hdecode⟩ := ok_of_bind hdecode
                cases hdecode
                rw [headerHops, if_neg hlen, index_same hb]
                simp only [bind, Except.bind]
                rw [pathStart_of_readTransportCodes hcodes]
                dsimp only
                rw [if_neg hpath, index_same hpathByte]
                exact readHops_same hhops

theorem decodePathFromRawHex_of_unspaced (hw : readPacket raw = .ok w) (h : Unspaced raw) :
    decodePathFromRawHex raw = .ok w.path.hops := by
  rw [readPacket, h.stripSpace_eq] at hw
  rw [decodePathFromRawHex]
  cases hbuf : hexDecode raw with
  | error e =>
      rw [hbuf] at hw
      cases hw
  | ok buf =>
      rw [hbuf] at hw
      exact headerHops_of_splitPacket hw

theorem decodePathFromRawHex_of_spaced (h : ¬ Unspaced raw) : decodePathFromRawHex raw = raise () := by
  rw [decodePathFromRawHex]
  split
  · rfl
  · next hbuf => exact absurd (unspaced_of_hexDecode hbuf) h

theorem computeContentHash_returns (hw : readPacket raw = .ok w) (sha256 : Bytes → Bytes) :
    Returns (computeContentHash sha256 raw : Go ε Bytes) := by
  by_cases h : Unspaced raw
  · exact ⟨_, computeContentHash_of_toHash (toHash_of_unspaced hw h) sha256⟩
  · have hnone : toHash raw = raise () := by
      rw [toHash]
      split
      · rfl
      · next hbuf => exact absurd (unspaced_of_hexDecode hbuf) h
    refine ⟨rawPrefix raw, ?_⟩
    rw [computeContentHash, hnone]
    rfl

theorem hopsJSON_eq_empty {hops : List Bytes} : hopsJSON hops = "[]" ↔ hops = [] := by
  constructor
  · intro h
    cases hops with
    | nil => rfl
    | cons hop rest =>
        rw [hopsJSON, if_pos (List.length_pos_of_mem List.mem_cons_self), marshalStrings] at h
        have hchars := congrArg String.toList h
        rw [String.toList_ofList] at hchars
        have hsecond := congrArg (fun cs => cs[1]?) hchars
        cases rest <;> simp [marshalString, quoted, List.intercalate] at hsecond
  · rintro rfl
    rfl

theorem storedPath_of_decodePath {raw : Bytes} {p : DecodedPacket} (ht : p.header.payloadType ≠ payloadTRACE)
    (hsmall : p.header.payloadType < 256) : (storedPath raw p : Go ε String) =
      match decodePathFromRawHex raw with
      | .ok hops => pure (hopsJSON hops)
      | .error (.err _) => pure "[]"
      | .error .panic => .error .panic := by
  have hhops : pathBytesAreHops (UInt8.ofNat p.header.payloadType) = true := by
    rw [pathBytesAreHops, UInt8.toNat_ofNat_of_lt' hsmall]
    exact bne_iff_ne.mpr ht
  rw [storedPath, hhops]
  rfl

theorem buildPacketData_pathJSON (sha256 : Bytes → Bytes) (crypto : Crypto) (floatText : FloatText) (moment : Moment)
    {msg : MQTTPacketMessage} (observerID region : Bytes) {p : DecodedPacket} {path : String}
    (hpath : (storedPath msg.raw p : Go ε String) = .ok path)
    (hhash : Returns (computeContentHash sha256 msg.raw : Go ε Bytes)) :
    ∃ pd, (buildPacketData sha256 crypto floatText moment msg p observerID region : Go ε PacketData) = .ok pd ∧
      pd.pathJSON = path := by
  obtain ⟨hash, hhash⟩ := hhash
  rw [buildPacketData, hpath, hhash]
  exact ⟨_, rfl, rfl⟩

theorem hops_resetZeroHop (header : Header) (pathByte : UInt8) (path : Path) :
    (resetZeroHop header pathByte path).hops = path.hops := by
  rw [resetZeroHop]
  split <;> rfl

/-- The path that is stored for an accepted text outside TRACE is the one that was decoded, and is
read by the second parser too, if and only if the text has no space or line break in it; where it has,
what is stored is right for a path without hops only. -/
theorem storedPath_iff_unspaced (sha256 : Bytes → Bytes) (crypto : Crypto) (floatText : FloatText) (moment : Moment)
    (msg : MQTTPacketMessage) (observerID region : Bytes) (channelKeys : List (Bytes × Bytes))
    (validateSignatures : Bool) (p : DecodedPacket)
    (hdecode : decodePacket crypto msg.raw channelKeys validateSignatures = .ok p)
    (ht : p.header.payloadType ≠ payloadTRACE) :
    ∃ pd, (buildPacketData sha256 crypto floatText moment msg p observerID region : Go Unit PacketData) = .ok pd ∧
      (pd.pathJSON = hopsJSON p.path.hops ∧ decodePathFromRawHex msg.raw = .ok p.path.hops ↔ Unspaced msg.raw) ∧
      (pd.pathJSON = hopsJSON p.path.hops ↔ Unspaced msg.raw ∨ p.path.hops = []) := by
  obtain ⟨w, hw⟩ := decodePacket_readPacket hdecode
  obtain ⟨f, -, hframe⟩ := readPacket_accepts hw
  obtain ⟨p', hp', hheader, -, -, -, hpath⟩ := decodePacket_of_readPacket crypto channelKeys validateSignatures hw
  obtain rfl : p' = p := Except.ok.inj (hp'.symm.trans hdecode)
  have hops : p'.path.hops = w.path.hops := by
    rw [hpath (hheader ▸ ht), hops_resetZeroHop]
  have hsmall : p'.header.payloadType < 256 := by
    rw [hheader, hframe.header]
    exact UInt8.toNat_lt _
  have hstored : (storedPath msg.raw p' : Go Unit String) =
      match decodePathFromRawHex msg.raw with
      | .ok hops => pure (hopsJSON hops)
      | .error (.err _) => pure "[]"
      | .error .panic => .error .panic := storedPath_of_decodePath ht hsmall
  have hhash := computeContentHash_returns (ε := Unit) hw sha256
  rw [hops]
  by_cases hclean : Unspaced msg.raw
  · have hsecond := decodePathFromRawHex_of_unspaced hw hclean
    rw [hsecond] at hstored
    obtain ⟨pd, hpd, hjson⟩ := buildPacketData_pathJSON sha256 crypto floatText moment observerID region hstored hhash
    exact ⟨pd, hpd, iff_of_true ⟨hjson, hsecond⟩ hclean, iff_of_true hjson (.inl hclean)⟩
  · have hsecond := decodePathFromRawHex_of_spaced hclean
    rw [hsecond] at hstored
    obtain ⟨pd, hpd, hjson⟩ := buildPacketData_pathJSON sha256 crypto floatText moment observerID region hstored hhash
    refine ⟨pd, hpd, iff_of_false (fun h => ?_) hclean, ?_⟩
    · rw [hsecond] at h
      cases h.2
    · rw [hjson, or_iff_right hclean, eq_comm]
      exact hopsJSON_eq_empty

def oneHop : Bytes := [0x30, 0x44, 0x30, 0x31, 0x41, 0x41]

def oneHopSpaced : Bytes := [0x30, 0x44, 0x20, 0x30, 0x31, 0x41, 0x41]

def message (raw : Bytes) : MQTTPacketMessage :=
  { raw, snr := none, rssi := none, score := none, direction := none, origin := [], region := [] }

def startOfDay : Moment := { now := utf8 "2026-01-01T00:00:00Z", regions := { all := [], explicit := [] }, order := [] }

theorem storedPath_iff_unspaced_oneHop : ∃ p pd, decodePacket zeroSums oneHop [] false = .ok p ∧
    (buildPacketData id zeroSums (fun _ => "0") startOfDay (message oneHop) p [] [] : Go Unit PacketData) = .ok pd ∧
      pd.pathJSON = hopsJSON p.path.hops ∧ decodePathFromRawHex oneHop = .ok p.path.hops := by
  obtain ⟨pd, hpd, hiff, -⟩ := storedPath_iff_unspaced id zeroSums (fun _ => "0") startOfDay (message oneHop) [] [] []
    false _ rfl (by decide)
  have hbuf : hexDecode oneHop = .ok [0x0D, 0x01, 0xAA] := rfl
  have hread := hiff.mpr (unspaced_of_hexDecode hbuf)
  exact ⟨_, pd, rfl, hpd, hread⟩

/-- The packet is accepted with its hop, and stored without one. -/
theorem spaced_path_lost : ∃ p pd, decodePacket zeroSums oneHopSpaced [] false = .ok p ∧
    p.header.payloadType ≠ payloadTRACE ∧
    (buildPacketData id zeroSums (fun _ => "0") startOfDay (message oneHopSpaced) p [] [] : Go Unit PacketData) =
      .ok pd ∧
    p.path.hops = [[0x41, 0x41]] ∧ pd.pathJSON = "[]" ∧ pd.pathJSON ≠ hopsJSON p.path.hops ∧
      decodePathFromRawHex oneHopSpaced ≠ .ok p.path.hops := by
  refine ⟨_, _, rfl, by decide, rfl, rfl, rfl, fun h => ?_, fun h => ?_⟩
  · cases hopsJSON_eq_empty.mp h.symm
  · cases h

end MeshcoreAnalyzer.StoredPath

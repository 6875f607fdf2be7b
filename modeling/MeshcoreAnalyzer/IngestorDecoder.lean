import MeshcoreAnalyzer.Frame

namespace MeshcoreAnalyzer.IngestorDecoder

open GoBytes Runes MeshcoreAnalyzer.Frame

/-! cmd/ingestor/decoder.go -/

structure Payload extends Frame.Payload where
  feat1 : Option Nat := none
  feat2 : Option Nat := none
  batteryMv : Option Nat := none
  temperatureC : Option ℚ := none
  channel : Bytes := []
  text : Bytes := []
  sender : Bytes := []
  senderTimestamp : Nat := 0
  ctrlSubtype : String := ""
  ctrlFilter : Option Nat := none
  ctrlTag : Option Nat := none
  ctrlSince : Option Nat := none
  ctrlNodeType : Option Nat := none
  ctrlSNR : Option Int := none
  ctrlPubKey : Bytes := []
deriving DecidableEq

structure DecodedPacket extends Frame.DecodedPacket Payload where
  payloadRaw : Bytes
deriving DecidableEq

variable {ε : Type}

def lift (x : Go ε Frame.Payload) : Go ε Payload := (fun p => { toPayload := p }) <$> x

def advertFeat (has : Bool) (appdata : Bytes) (off : Nat) : Go ε (Option Nat × Nat) := do
  if has ∧ off + 2 ≤ appdata.length then
    let feat ← uint16 (← slice appdata off (off + 2))
    return (some feat, off + 2)
  else
    return (none, off)

theorem advertFeat_returns (has : Bool) (appdata : Bytes) {off : Nat}
    (hoff : off ≤ appdata.length) :
    ∃ feat next, (advertFeat has appdata off : Go ε _) = .ok (feat, next) ∧
      off ≤ next ∧ next ≤ appdata.length := by
  rw [advertFeat]
  split
  · next h =>
      obtain ⟨feat, hfeat⟩ : Returns (uint16 ((appdata.take (off + 2)).drop off) : Go ε Nat) :=
        .uint16 (by rw [List.length_drop, List.length_take]; omega)
      rw [slice_ok (by omega) (by omega)]
      simp only [bind, Except.bind, hfeat]
      exact ⟨_, _, rfl, by omega, h.2⟩
  · exact ⟨none, off, rfl, le_rfl, hoff⟩

def nameEndFrom (appdata : Bytes) (i : Nat) : Nat :=
  i + ((appdata.drop i).takeWhile (· != 0)).length

theorem nameEndFrom_bounds {appdata : Bytes} {off : Nat} (hoff : off ≤ appdata.length) :
    off ≤ nameEndFrom appdata off ∧ nameEndFrom appdata off ≤ appdata.length := by
  have := (List.takeWhile_prefix (· != 0) (l := appdata.drop off)).length_le
  rw [List.length_drop] at this
  rw [nameEndFrom]
  omega

def skipNulFrom (appdata : Bytes) (off : Nat) : Nat :=
  off + ((appdata.drop off).takeWhile (· == 0)).length

def advertTelemetry (p : Payload) (f : AdvertFlags) (appdata : Bytes) (off : Nat) :
    Go ε Payload := do
  if f.sensor ∧ off + 4 ≤ appdata.length then
    let batteryMv ← uint16 (← slice appdata off (off + 2))
    let tempRaw := int16 (← uint16 (← slice appdata (off + 2) (off + 4)))
    let p := if 0 < batteryMv ∧ batteryMv ≤ 10000 then
      { p with batteryMv := some batteryMv } else p
    return if -5000 ≤ tempRaw ∧ tempRaw ≤ 10000 then
      { p with temperatureC := some ((tempRaw : ℚ) / 100) } else p
  else
    return p

theorem advertTelemetry_returns (p : Payload) (f : AdvertFlags) (appdata : Bytes) (off : Nat) :
    Returns (advertTelemetry p f appdata off : Go ε Payload) := by
  rw [advertTelemetry]
  split
  · refine .bind (.slice (by omega) (by omega)) fun b hb => .bind (.uint16 ?_) fun _ _ =>
      .bind (.slice (by omega) (by omega)) fun c hc => .bind (.uint16 ?_) fun _ _ => .pure _
    · have := slice_length hb
      omega
    · have := slice_length hc
      omega
  · exact .pure _

def decodeAdvert (crypto : Crypto) (buf : Bytes) (validateSignatures : Bool) : Go ε Payload := do
  if buf.length < 100 then
    return { toPayload := shortPayload "ADVERT" "too short for advert" buf }
  let (p, appdata) ← advertBase crypto buf validateSignatures
  if 0 < appdata.length then
    let f := advertFlags (← index appdata 0)
    let (lat, lon, off) ← advertLocation f appdata 1
    let (feat1, off) ← advertFeat f.hasFeat1 appdata off
    let (feat2, off) ← advertFeat f.hasFeat2 appdata off
    let p := { p with flags := some f, lat, lon }
    if f.hasName then
      let nameEnd := nameEndFrom appdata off
      let name ← slice appdata off nameEnd
      let p := { p with name := advertName name }
      advertTelemetry { toPayload := p, feat1, feat2 } f appdata (skipNulFrom appdata nameEnd)
    else
      advertTelemetry { toPayload := p, feat1, feat2 } f appdata off
  else
    return { toPayload := p }

theorem decodeAdvert_returns (crypto : Crypto) (buf : Bytes) (validateSignatures : Bool) :
    Returns (decodeAdvert crypto buf validateSignatures : Go ε Payload) := by
  rw [decodeAdvert]
  split
  · exact .pure _
  · next hlen =>
      obtain ⟨p, hp, _⟩ := advertBase_returns (ε := ε) crypto (not_lt.mp hlen) validateSignatures
      rw [hp]
      generalize buf.drop 100 = appdata
      simp only [bind, Except.bind]
      split
      · next happ =>
          rw [index_ok happ]
          obtain ⟨lat, lon, off, hloc, _, h1⟩ :=
            advertLocation_returns (ε := ε) (advertFlags appdata[0]) appdata (Nat.succ_le_of_lt happ)
          obtain ⟨feat1, off2, hf1, _, h2⟩ :=
            advertFeat_returns (ε := ε) (advertFlags appdata[0]).hasFeat1 appdata h1
          obtain ⟨feat2, off3, hf2, _, h3⟩ :=
            advertFeat_returns (ε := ε) (advertFlags appdata[0]).hasFeat2 appdata h2
          simp only [hloc, hf1, hf2]
          split
          · obtain ⟨hle, hend⟩ := nameEndFrom_bounds h3
            rw [slice_ok hle hend]
            exact advertTelemetry_returns _ _ _ _
          · exact advertTelemetry_returns _ _ _ _
      · exact .pure _

inductive ChannelError
  | invalidChannelKey
  | invalidMAC
  | invalidCiphertext
  | macMismatch
  | notAligned
  | tooShort
  | nonPrintable
deriving DecidableEq

/-- AES-128-ECB, `count` blocks from block `i` on. -/
def decryptBlocks (crypto : Crypto) (key ciphertext : Bytes) : Nat → Nat → Go ε Bytes
  | 0, _ => pure []
  | count + 1, i => do
      let block ← slice ciphertext (i * 16) (i * 16 + 16)
      let rest ← decryptBlocks crypto key ciphertext count (i + 1)
      return crypto.decryptBlock key block ++ rest

theorem decryptBlocks_returns (crypto : Crypto) (key ciphertext : Bytes) {count i : Nat}
    (h : (i + count) * 16 ≤ ciphertext.length) :
    Returns (decryptBlocks crypto key ciphertext count i : Go ε Bytes) := by
  induction count generalizing i with
  | zero => exact .pure _
  | succ count ih =>
      exact .bind (.slice (by omega) (by omega)) fun _ _ =>
        .bind (ih (by omega)) fun _ _ => .pure _

/-- `hex.DecodeString` and the check of the result that stands with each call. -/
def decodeChecked (text : Bytes) (ok : Bytes → Bool) (e : ChannelError) :
    Go ChannelError Bytes :=
  match hexDecode text with
  | .ok bs => if ok bs then pure bs else raise e
  | .error _ => raise e

theorem decodeChecked_safe (text : Bytes) (ok : Bytes → Bool) (e : ChannelError) :
    Safe (decodeChecked text ok e) := by
  rw [decodeChecked]
  split
  · split
    · exact (Returns.pure _).safe
    · exact .raise _
  · exact .raise _

theorem decodeChecked_ok {text bs : Bytes} {ok : Bytes → Bool} {e : ChannelError}
    (h : decodeChecked text ok e = .ok bs) : ok bs = true := by
  unfold decodeChecked at h
  split at h
  · split at h
    · next hok =>
        cases h
        exact hok
    · cases h
  · cases h

def decryptChannelBlock (crypto : Crypto) (ciphertextHex macHex channelKeyHex : Bytes) :
    Go ChannelError Bytes := do
  let channelKey ← decodeChecked channelKeyHex (·.length == 16) .invalidChannelKey
  let macBytes ← decodeChecked macHex (·.length == 2) .invalidMAC
  let ciphertext ← decodeChecked ciphertextHex (·.length != 0) .invalidCiphertext
  let channelSecret := channelKey ++ List.replicate 16 0
  let calculatedMac := crypto.hmacSHA256 channelSecret ciphertext
  if (← index calculatedMac 0) ≠ (← index macBytes 0) ∨
      (← index calculatedMac 1) ≠ (← index macBytes 1) then
    raise .macMismatch
  else if ciphertext.length % 16 ≠ 0 then
    raise .notAligned
  else
    decryptBlocks crypto channelKey ciphertext (ciphertext.length / 16) 0

theorem decryptChannelBlock_safe (crypto : Crypto) (ciphertextHex macHex channelKeyHex : Bytes) :
    Safe (decryptChannelBlock crypto ciphertextHex macHex channelKeyHex) := by
  refine .bind (decodeChecked_safe _ _ _) fun channelKey _ =>
    .bind (decodeChecked_safe _ _ _) fun macBytes hmac =>
    .bind (decodeChecked_safe _ _ _) fun ciphertext _ => ?_
  have h2 : macBytes.length = 2 := by simpa using decodeChecked_ok hmac
  have h32 := crypto.hmac_length (channelKey ++ List.replicate 16 0) ciphertext
  refine .bind (Returns.index (by omega)).safe fun _ _ =>
    .bind (Returns.index (by omega)).safe fun _ _ =>
    .bind (Returns.index (by omega)).safe fun _ _ =>
    .bind (Returns.index (by omega)).safe fun _ _ => ?_
  split
  · exact .raise _
  · split
    · exact .raise _
    · exact (decryptBlocks_returns crypto channelKey ciphertext (by omega)).safe

structure ChannelDecryptResult where
  timestamp : Nat
  flags : Nat
  sender : Bytes
  message : Bytes
deriving DecidableEq

def countNonPrintable (s : Bytes) : Nat :=
  (runes s).countP (fun r => (r < 0x20 && r != 0x0A && r != 0x09) || r == runeError)

def splitSender (messageText : Bytes) : Go ε (Bytes × Bytes) :=
  match indexOf [0x3A, 0x20] messageText with
  | some colonIdx => do
      if 0 < colonIdx ∧ colonIdx < 50 then
        let potentialSender ← slice messageText 0 colonIdx
        if potentialSender.any (fun c => c == 0x3A || c == 0x5B || c == 0x5D) then
          return ([], messageText)
        else
          return (potentialSender, ← sliceFrom messageText (colonIdx + 2))
      else
        return ([], messageText)
  | none => pure ([], messageText)

theorem splitSender_returns (messageText : Bytes) :
    Returns (splitSender messageText : Go ε (Bytes × Bytes)) := by
  rw [splitSender]
  split
  · next colonIdx h =>
      have := indexOf_le h
      simp only [List.length_cons, List.length_nil] at this
      split
      · refine .bind (.slice (by omega) (by omega)) fun _ _ => ?_
        split
        · exact .pure _
        · exact .bind (.sliceFrom (by omega)) fun _ _ => .pure _
      · exact .pure _
  · exact .pure _

def untilNul (text : Bytes) : Go ε Bytes :=
  match indexOf [0] text with
  | some idx => slice text 0 idx
  | none => pure text

theorem untilNul_returns (text : Bytes) : Returns (untilNul text : Go ε Bytes) := by
  rw [untilNul]
  split
  · next idx h =>
      have := indexOf_le h
      exact .slice (by omega) (by omega)
  · exact .pure _

/-- Its first half is the text of `decryptChannelBlock` again. -/
def decryptChannelMessage (crypto : Crypto) (ciphertextHex macHex channelKeyHex : Bytes) :
    Go ChannelError ChannelDecryptResult := do
  let plaintext ← decryptChannelBlock crypto ciphertextHex macHex channelKeyHex
  if plaintext.length < 5 then
    raise .tooShort
  else
    let timestamp ← uint32 (← slice plaintext 0 4)
    let flags ← index plaintext 4
    let messageText ← untilNul (← sliceFrom plaintext 5)
    if !validString messageText ∨ 2 < countNonPrintable messageText then
      raise .nonPrintable
    else
      let (sender, message) ← splitSender messageText
      return { timestamp, flags := flags.toNat, sender, message }

theorem decryptChannelMessage_safe (crypto : Crypto)
    (ciphertextHex macHex channelKeyHex : Bytes) :
    Safe (decryptChannelMessage crypto ciphertextHex macHex channelKeyHex) := by
  refine .bind (decryptChannelBlock_safe _ _ _ _) fun plaintext _ => ?_
  split
  · exact .raise _
  · refine .bind (Returns.slice (by omega) (by omega)).safe fun b hb =>
      .bind (Returns.uint32 ?_).safe fun _ _ =>
      .bind (Returns.index (by omega)).safe fun _ _ =>
      .bind (Returns.sliceFrom (by omega)).safe fun _ _ =>
      .bind (untilNul_returns _).safe fun _ _ => ?_
    · have := slice_length hb
      omega
    · split
      · exact .raise _
      · exact .bind (splitSender_returns _).safe fun _ _ => (Returns.pure _).safe

/-- The runes whose lower case is an ASCII letter. The others are left alone:
the text is only compared with "public". -/
def lowerRune (r : Nat) : Nat :=
  if 0x41 ≤ r ∧ r ≤ 0x5A then r + 32
  else if r = 0x130 then 0x69
  else if r = 0x212A then 0x6B
  else r

def normalizeChannelName (name : Bytes) : Bytes :=
  -- knownChannelCasing has the one key "public"
  if (runes name).map lowerRune = [0x70, 0x75, 0x62, 0x6C, 0x69, 0x63] then
    [0x50, 0x75, 0x62, 0x6C, 0x69, 0x63]
  else name

/-- The first key of the range over `channelKeys` that decrypts; a key that
fails is passed over. -/
def tryKeys {α : Type} (decrypt : Bytes → Go ChannelError α) :
    List (Bytes × Bytes) → Go ε (Option (Bytes × α))
  | [] => pure none
  | (name, key) :: rest =>
      match decrypt key with
      | .ok result => pure (some (name, result))
      | .error (.err _) => tryKeys decrypt rest
      | .error .panic => .error .panic

theorem tryKeys_returns {α : Type} {decrypt : Bytes → Go ChannelError α}
    (h : ∀ key, Safe (decrypt key)) (channelKeys : List (Bytes × Bytes)) :
    Returns (tryKeys decrypt channelKeys : Go ε (Option (Bytes × α))) := by
  induction channelKeys with
  | nil => exact .pure _
  | cons k rest ih =>
      simp only [tryKeys]
      split
      · exact .pure _
      · exact ih
      · next hk => exact absurd hk (h _)

def decodeGrpTxt (crypto : Crypto) (buf : Bytes) (channelKeys : List (Bytes × Bytes)) :
    Go ε Payload := do
  if buf.length < 3 then
    return { toPayload := shortPayload "GRP_TXT" "too short" buf }
  let b ← index buf 0
  let channelHash := b.toNat
  let channelHashHex := upperHex [b]
  let mac := hexEncode (← slice buf 1 3)
  let encryptedData := hexEncode (← sliceFrom buf 3)
  if 0 < channelKeys.length ∧ 10 ≤ encryptedData.length then
    match ← tryKeys (decryptChannelMessage crypto encryptedData mac) channelKeys with
    | some (name, result) =>
        let text := if result.sender ≠ [] ∧ result.message ≠ [] then
          result.sender ++ [0x3A, 0x20] ++ result.message else result.message
        return { type := "CHAN", channel := normalizeChannelName name, channelHash,
                 channelHashHex, decryptionStatus := "decrypted", sender := result.sender,
                 text, senderTimestamp := result.timestamp }
    | none =>
        return { type := "GRP_TXT", channelHash, channelHashHex,
                 decryptionStatus := "decryption_failed", mac, encryptedData }
  else
    return { type := "GRP_TXT", channelHash, channelHashHex, decryptionStatus := "no_key",
             mac, encryptedData }

theorem decodeGrpTxt_returns (crypto : Crypto) (buf : Bytes)
    (channelKeys : List (Bytes × Bytes)) :
    Returns (decodeGrpTxt crypto buf channelKeys : Go ε Payload) := by
  rw [decodeGrpTxt]
  split
  · exact .pure _
  · refine .bind (.index (by omega)) fun _ _ => .bind (.slice (by omega) (by omega)) fun _ _ =>
      .bind (.sliceFrom (by omega)) fun _ _ => ?_
    simp only
    split
    · refine .bind (tryKeys_returns (decryptChannelMessage_safe _ _ _) _) fun found _ => ?_
      cases found with
      | none => exact .pure _
      | some found => exact .pure _
    · exact .pure _

def decodeGrpData (crypto : Crypto) (buf : Bytes) (channelKeys : List (Bytes × Bytes)) :
    Go ε Payload := do
  if buf.length < 3 then
    return { toPayload := shortPayload "GRP_DATA" "too short" buf }
  let b ← index buf 0
  let channelHash := b.toNat
  let channelHashHex := upperHex [b]
  let mac := hexEncode (← slice buf 1 3)
  let encryptedData := hexEncode (← sliceFrom buf 3)
  if 0 < channelKeys.length ∧ 10 ≤ encryptedData.length then
    match ← tryKeys (decryptChannelBlock crypto encryptedData mac) channelKeys with
    | some (name, plain) =>
        let p : Payload := { type := "GRP_DATA", channel := name, channelHash, channelHashHex,
                             decryptionStatus := "decrypted" }
        if plain.length < 3 then
          return { p with error := "inner too short" }
        else
          let dataType ← uint16 (← slice plain 0 2)
          let dataLen := (← index plain 2).toNat
          let p := { p with dataType := some dataType, dataLen := some dataLen }
          if plain.length < 3 + dataLen then
            return { p with error := "inner data_len exceeds buffer" }
          else
            let blob ← slice plain 3 (3 + dataLen)
            return { p with decryptedBlob := hexEncode blob }
    | none =>
        return { type := "GRP_DATA", channelHash, channelHashHex,
                 decryptionStatus := "decryption_failed", mac, encryptedData }
  else
    return { type := "GRP_DATA", channelHash, channelHashHex, decryptionStatus := "no_key",
             mac, encryptedData }

theorem decodeGrpData_returns (crypto : Crypto) (buf : Bytes)
    (channelKeys : List (Bytes × Bytes)) :
    Returns (decodeGrpData crypto buf channelKeys : Go ε Payload) := by
  rw [decodeGrpData]
  split
  · exact .pure _
  · refine .bind (.index (by omega)) fun _ _ => .bind (.slice (by omega) (by omega)) fun _ _ =>
      .bind (.sliceFrom (by omega)) fun _ _ => ?_
    simp only
    split
    · refine .bind (tryKeys_returns (decryptChannelBlock_safe _ _ _) _) fun found _ => ?_
      cases found with
      | none => exact .pure _
      | some found =>
          simp only
          split
          · exact .pure _
          · refine .bind (.slice (by omega) (by omega)) fun b hb => .bind (.uint16 ?_) fun _ _ =>
              .bind (.index (by omega)) fun _ _ => ?_
            · have := slice_length hb
              omega
            · split
              · exact .pure _
              · exact .bind (.slice (by omega) (by omega)) fun _ _ => .pure _
    · exact .pure _

def ctrlPubKey (buf : Bytes) : Go ε Bytes := do
  let remaining := buf.length - 6
  if 32 ≤ remaining then
    return hexEncode (← slice buf 6 38)
  else if 8 ≤ remaining ∧ remaining < 32 then
    return hexEncode (← slice buf 6 14)
  else
    return []

theorem ctrlPubKey_returns {buf : Bytes} (h : 6 ≤ buf.length) :
    Returns (ctrlPubKey buf : Go ε Bytes) := by
  unfold ctrlPubKey
  simp only
  split
  · exact .bind (.slice (by omega) (by omega)) fun _ _ => .pure _
  · split
    · exact .bind (.slice (by omega) (by omega)) fun _ _ => .pure _
    · exact .pure _

def decodeControl (buf : Bytes) : Go ε Payload := do
  if buf.length < 1 then
    return { toPayload := shortPayload "CONTROL" "too short" buf }
  let b ← index buf 0
  let p : Payload := { type := "CONTROL", ctrlFlags := hexEncode [b],
                       ctrlZeroHop := some (b &&& 0x80 != 0), ctrlLength := some buf.length,
                       rawHex := hexEncode buf }
  if b &&& 0xF0 = 0x80 then
    let p := { p with ctrlSubtype := "DISCOVER_REQ" }
    if 6 ≤ buf.length then
      let filter ← index buf 1
      let tag ← uint32 (← slice buf 2 6)
      let since ← guarded (10 ≤ buf.length) (slice buf 6 10 >>= uint32)
      return { p with ctrlFilter := some filter.toNat, ctrlTag := some tag, ctrlSince := since }
    else
      return p
  else if b &&& 0xF0 = 0x90 then
    let p := { p with ctrlSubtype := "DISCOVER_RESP",
                      ctrlNodeType := some (b &&& 0x0F).toNat }
    if 6 ≤ buf.length then
      let snr ← index buf 1
      let tag ← uint32 (← slice buf 2 6)
      let pubKey ← ctrlPubKey buf
      return { p with ctrlSNR := some (int8 snr.toNat), ctrlTag := some tag,
                      ctrlPubKey := pubKey }
    else
      return p
  else
    return { p with ctrlSubtype := "UNKNOWN" }

theorem decodeControl_returns (buf : Bytes) : Returns (decodeControl buf : Go ε Payload) := by
  rw [decodeControl]
  split
  · exact .pure _
  · refine .bind (.index (by omega)) fun b _ => ?_
    simp only
    split
    · split
      · refine .bind (.index (by omega)) fun _ _ => uint32_slice_returns rfl (by omega) fun _ =>
          .bind (.guarded fun h => .bind (.slice (by omega) (by omega)) fun c hc => .uint32 ?_)
            fun _ _ => .pure _
        have := slice_length hc
        omega
      · exact .pure _
    · split
      · split
        · exact .bind (.index (by omega)) fun _ _ => uint32_slice_returns rfl (by omega) fun _ =>
            .bind (ctrlPubKey_returns (by omega)) fun _ _ => .pure _
        · exact .pure _
      · exact .pure _

def decodePayload (crypto : Crypto) (payloadType : Nat) (buf : Bytes)
    (channelKeys : List (Bytes × Bytes)) (validateSignatures : Bool) : Go ε Payload :=
  match payloadType with
  | payloadREQ => lift (decodeEncryptedPayload "REQ" buf)
  | payloadRESPONSE => lift (decodeEncryptedPayload "RESPONSE" buf)
  | payloadTXT_MSG => lift (decodeEncryptedPayload "TXT_MSG" buf)
  | payloadACK => lift (decodeAck buf)
  | payloadADVERT => decodeAdvert crypto buf validateSignatures
  | payloadGRP_TXT => decodeGrpTxt crypto buf channelKeys
  | payloadGRP_DATA => decodeGrpData crypto buf channelKeys
  | payloadANON_REQ => lift (decodeAnonReq buf)
  | payloadPATH => lift (decodePathPayload buf)
  | payloadTRACE => lift (decodeTrace buf)
  | payloadMULTIPART => lift (decodeMultipart buf)
  | payloadCONTROL => decodeControl buf
  | payloadRAW_CUSTOM => lift (decodeRawCustom buf)
  | _ => pure { type := "UNKNOWN", rawHex := hexEncode buf }

theorem decodePayload_returns (crypto : Crypto) (payloadType : Nat) (buf : Bytes)
    (channelKeys : List (Bytes × Bytes)) (validateSignatures : Bool) :
    Returns (decodePayload crypto payloadType buf channelKeys validateSignatures :
      Go ε Payload) := by
  unfold decodePayload
  split
  · exact (decodeEncryptedPayload_returns _ _).map _
  · exact (decodeEncryptedPayload_returns _ _).map _
  · exact (decodeEncryptedPayload_returns _ _).map _
  · exact (decodeAck_returns _).map _
  · exact decodeAdvert_returns _ _ _
  · exact decodeGrpTxt_returns _ _ _
  · exact decodeGrpData_returns _ _ _
  · exact (decodeAnonReq_returns _).map _
  · exact (decodePathPayload_returns _).map _
  · exact (decodeTrace_returns _).map _
  · exact (decodeMultipart_returns _).map _
  · exact decodeControl_returns _
  · exact (decodeRawCustom_returns _).map _
  · exact .pure _

/-- `channelKeys` lists the map in the order in which the ranges visit it. -/
def decodePacket (crypto : Crypto) (hexString : Bytes) (channelKeys : List (Bytes × Bytes))
    (validateSignatures : Bool) : Go DecodeError DecodedPacket := do
  let w ← readPacket hexString
  let payload ← decodePayload crypto w.header.payloadType w.payloadBuf channelKeys
    validateSignatures
  let anomaly := if w.header.payloadType = payloadTRACE ∧ payload.error ≠ "" then
    "TRACE payload decode failed: " ++ payload.error else ""
  let anomaly := routingAnomaly w.header payload.toPayload anomaly
  let (path, base) ← finishTrace w.header w.path payload.toPayload
  return { header := w.header
           transportCodes := w.transportCodes
           path := resetZeroHop w.header w.pathByte path
           payload := { payload with toPayload := base }
           raw := w.raw
           anomaly
           payloadRaw := w.payloadBuf }

theorem decodePacket_of_readPacket (crypto : Crypto) {hexString : Bytes} {w : WirePacket}
    (channelKeys : List (Bytes × Bytes)) (validateSignatures : Bool)
    (h : readPacket hexString = .ok w) :
    ∃ p, decodePacket crypto hexString channelKeys validateSignatures = .ok p ∧
      p.header = w.header ∧ p.transportCodes = w.transportCodes ∧ p.raw = w.raw ∧
      p.payloadRaw = w.payloadBuf ∧
      (w.header.payloadType ≠ payloadTRACE →
        p.path = resetZeroHop w.header w.pathByte w.path) := by
  obtain ⟨payload, hpayload⟩ := decodePayload_returns (ε := DecodeError) crypto
    w.header.payloadType w.payloadBuf channelKeys validateSignatures
  rw [decodePacket]
  rw [h]
  simp only [bind, Except.bind, hpayload]
  by_cases ht : w.header.payloadType = payloadTRACE
  · obtain ⟨⟨path, base⟩, hfinish⟩ := finishTrace_returns (ε := DecodeError) w.header
      w.path payload.toPayload
    rw [hfinish]
    exact ⟨_, rfl, rfl, rfl, rfl, rfl, fun hn => absurd ht hn⟩
  · rw [finishTrace_of_ne_trace ht]
    exact ⟨_, rfl, rfl, rfl, rfl, rfl, fun _ => rfl⟩

end MeshcoreAnalyzer.IngestorDecoder

import MeshcoreAnalyzer.DecoderAgreement
import MeshcoreAnalyzer.GraphBuilder
import MeshcoreAnalyzer.PayloadJSON

namespace MeshcoreAnalyzer.Originators

open GoBytes Json Maps PacketStore Neighbors IngestorDecoder DecoderAgreement

/-! What becomes of the sender of an ANON_REQ: the builder of cmd/ingestor/neighbor_builder.go
and the one of cmd/server/neighbor_graph.go look for it in the decoded text. -/

def extractPubkey (field s : String) : String :=
  if s = "" then ""
  else match unmarshalObject s with
    | some m => (stringField m field).getD ""
    | none => ""

def extractPubkeyFromAdvertJSON (s : String) : String := extractPubkey "pubKey" s

def extractPubkeyFromAnonReqJSON (s : String) : String := extractPubkey "ephemeralPubKey" s

/-- A row of the query of `buildAndPersistNeighborEdges`; a NULL text reads as the empty
one. `ts` is in seconds, like the texts that are made of it. -/
structure EdgeScanRow where
  payloadType : Option Int
  decodedJSON : String
  fromPubkey : String
  pathJSON : String
  observerID : String
  ts : Int

structure EdgeRow where
  a : String
  b : String
  ts : Int
deriving DecidableEq

def canonEdge (a b : String) (ts : Int) : EdgeRow := if b < a then ⟨b, a, ts⟩ else ⟨a, b, ts⟩

/-- `parsePathArray` of the ingestor reads what `parsePathJSON` of the server reads. -/
def parsePathArray (s : String) : List String := parsePathJSON s

def resolvePrefix (idx : GoMap String (List String)) (hop : String) (trust : Option Int) : Option String :=
  if meetsPathTrust (hop.utf8ByteSize / 2) trust then
    match bucket idx (toLower hop) with
    | [pk] => some pk
    | _ => none
  else none

namespace EdgeScanRow

def isAdvert (r : EdgeScanRow) : Bool := r.payloadType = some payloadADVERT

def isAnonReq (r : EdgeScanRow) : Bool := r.payloadType = some payloadANON_REQ

def fromNode (r : EdgeScanRow) : String :=
  if toLower r.fromPubkey = "" then
    if r.isAdvert then toLower (extractPubkeyFromAdvertJSON r.decodedJSON)
    else if r.isAnonReq then toLower (extractPubkeyFromAnonReqJSON r.decodedJSON)
    else ""
  else toLower r.fromPubkey

def hopEdge (idx : GoMap String (List String)) (trust : Option Int) (node hop : String) (ts : Int) : List EdgeRow :=
  match resolvePrefix idx hop trust with
  | some resolved => if resolved ≠ node then [canonEdge node resolved ts] else []
  | none => []

def edges (idx : GoMap String (List String)) (trust : Option Int) (r : EdgeScanRow) : List EdgeRow :=
  let hasFullOriginator := r.isAdvert || r.isAnonReq
  let observerPK := toLower r.observerID
  match parsePathArray r.pathJSON with
  | [] =>
      if hasFullOriginator ∧ r.fromNode ≠ "" ∧ r.fromNode ≠ observerPK ∧ observerPK ≠ "" then
        [canonEdge r.fromNode observerPK r.ts]
      else []
  | first :: rest =>
      (if hasFullOriginator ∧ r.fromNode ≠ "" then hopEdge idx trust r.fromNode first r.ts else []) ++
        if observerPK ≠ "" then
          hopEdge idx trust observerPK ((first :: rest).getLast (List.cons_ne_nil first rest)) r.ts
        else []

end EdgeScanRow

/-- A row of `neighbor_edges` under its two nodes. -/
structure EdgeRecord where
  count : Nat
  lastSeen : Int

def upsert (t : GoMap EdgeKey EdgeRecord) (e : EdgeRow) : GoMap EdgeKey EdgeRecord :=
  Maps.set t ⟨e.a, e.b⟩ (match t ⟨e.a, e.b⟩ with
    | some r => ⟨r.count + 1, max r.lastSeen e.ts⟩
    | none => ⟨1, e.ts⟩)

def buildAndPersistNeighborEdges (idx : GoMap String (List String)) (trust : Option Int) (rows : List EdgeScanRow)
    (t : GoMap EdgeKey EdgeRecord) : GoMap EdgeKey EdgeRecord × Nat :=
  let edges := rows.flatMap (EdgeScanRow.edges idx trust)
  (edges.foldl upsert t, edges.length)

def senderKey (p : DecodedPacket) : String := hexText ((p.payloadRaw.take 33).drop 1)

def anonReqPayload (buf : Bytes) : Payload where
  type := "ANON_REQ"
  destHash := hexEncode ((buf.take 1).drop 0)
  srcPubKey := hexEncode ((buf.take 33).drop 1)
  mac := hexEncode ((buf.take 35).drop 33)
  encryptedData := hexEncode (buf.drop 35)

theorem decodePayload_anonReq {ε : Type} (crypto : Frame.Crypto) {buf : Bytes} (hlen : 35 ≤ buf.length)
    (channelKeys : List (Bytes × Bytes)) (validateSignatures : Bool) :
    (decodePayload crypto Frame.payloadANON_REQ buf channelKeys validateSignatures : Go ε Payload) =
      .ok (anonReqPayload buf) := by
  change lift (Frame.decodeAnonReq buf) = _
  rw [Frame.decodeAnonReq]
  rw [if_neg (Nat.not_lt.mpr hlen), slice_ok (by omega) (by omega), slice_ok (by omega) (by omega),
    slice_ok (by omega) (by omega), sliceFrom_ok hlen]
  rfl

theorem payload_of_decodePacket {crypto : Frame.Crypto} {hexString : Bytes} {channelKeys : List (Bytes × Bytes)}
    {validateSignatures : Bool} {p : DecodedPacket}
    (hp : decodePacket crypto hexString channelKeys validateSignatures = .ok p)
    (htype : p.header.payloadType = Frame.payloadANON_REQ) (hlen : 35 ≤ p.payloadRaw.length) :
    p.payload = anonReqPayload p.payloadRaw := by
  have htrace : p.header.payloadType ≠ Frame.payloadTRACE := by
    rw [htype]
    decide
  have hpayload := FrameGrammar.decodePayload_of_decodePacket hp htrace
  rw [htype, decodePayload_anonReq crypto hlen channelKeys validateSignatures] at hpayload
  exact (Except.ok.inj hpayload).symm

def anonReqMembers (buf : Bytes) : List (String × String) :=
  [("type", "ANON_REQ"), ("destHash", hexText ((buf.take 1).drop 0)), ("mac", hexText ((buf.take 35).drop 33))] ++
    (if buf.drop 35 = [] then [] else [("encryptedData", hexText (buf.drop 35))]) ++
    [("srcPubKey", hexText ((buf.take 33).drop 1))]

theorem hexEncode_eq_nil {bs : Bytes} : hexEncode bs = [] ↔ bs = [] := by
  cases bs with
  | nil => exact ⟨fun _ => rfl, fun _ => rfl⟩
  | cons b bs => exact ⟨fun h => (by cases h), fun h => (by cases h)⟩

theorem textField_hexEncode (key : String) (bs : Bytes) :
    textField key (hexEncode bs) = if bs = [] then [] else [(key, quoted (hexText bs).toList)] := by
  rw [textField]
  rw [marshalString_hexEncode]
  by_cases hbs : bs = []
  · rw [if_pos hbs, if_pos (hexEncode_eq_nil.mpr hbs)]
  · rw [if_neg hbs, if_neg (mt hexEncode_eq_nil.mp hbs)]

theorem range_ne_nil {b : Bytes} {i j : Nat} (hi : i < j) (hj : j ≤ b.length) : (b.take j).drop i ≠ [] := by
  apply List.ne_nil_of_length_pos
  rw [List.length_drop, List.length_take]
  omega

theorem payloadMembers_anonReq (floatText : FloatText) {buf : Bytes} (hlen : 35 ≤ buf.length) :
    payloadMembers floatText (anonReqPayload buf) = flat (anonReqMembers buf) := by
  have htype : marshalString (utf8 "ANON_REQ") = quoted "ANON_REQ".toList := by decide
  have hdest := range_ne_nil (b := buf) (i := 0) (j := 1) (by omega) (by omega)
  have hkey := range_ne_nil (b := buf) (i := 1) (j := 33) (by omega) (by omega)
  have hmac := range_ne_nil (b := buf) (i := 33) (j := 35) (by omega) (by omega)
  -- whatever is empty, zero or nil leaves nothing behind
  have hmembers : payloadMembers floatText (anonReqPayload buf) =
      ("type", marshalString (utf8 "ANON_REQ")) :: (textField "destHash" (hexEncode ((buf.take 1).drop 0)) ++
        (textField "mac" (hexEncode ((buf.take 35).drop 33)) ++ (textField "encryptedData" (hexEncode (buf.drop 35)) ++
          (textField "srcPubKey" (hexEncode ((buf.take 33).drop 1)) ++ [])))) := rfl
  rw [hmembers, htype, textField_hexEncode, textField_hexEncode, textField_hexEncode, textField_hexEncode,
    if_neg hdest, if_neg hkey, if_neg hmac]
  rw [anonReqMembers, flat]
  by_cases hdata : buf.drop 35 = []
  · rw [if_pos hdata, if_pos hdata]
    rfl
  · rw [if_neg hdata, if_neg hdata]
    rfl

theorem plain_anonReqMembers (buf : Bytes) : PlainMembers (anonReqMembers buf) := by
  have hall : (["type", "destHash", "mac", "encryptedData", "srcPubKey", "ANON_REQ"].all fun k =>
      k.toList.all fun c => decide (Plain c)) = true := by decide
  have hname : ∀ k ∈ ["type", "destHash", "mac", "encryptedData", "srcPubKey", "ANON_REQ"], ∀ c ∈ k.toList, Plain c :=
    fun k hk c hc => of_decide_eq_true (List.all_eq_true.mp (List.all_eq_true.mp hall k hk) c hc)
  intro m hm
  unfold anonReqMembers at hm
  simp only [List.mem_append, List.mem_cons, List.not_mem_nil, or_false] at hm
  rcases hm with (((rfl | rfl | rfl) | hm) | rfl)
  · exact ⟨hname _ (by simp), hname _ (by simp)⟩
  · exact ⟨hname _ (by simp), plain_hexText _⟩
  · exact ⟨hname _ (by simp), plain_hexText _⟩
  · split at hm
    · cases hm
    · rw [List.mem_singleton.mp hm]
      exact ⟨hname _ (by simp), plain_hexText _⟩
  · exact ⟨hname _ (by simp), plain_hexText _⟩

theorem unmarshalObject_anonReq (floatText : FloatText) {buf : Bytes} (hlen : 35 ≤ buf.length) :
    unmarshalObject (payloadJSON floatText (anonReqPayload buf)) =
      some ((anonReqMembers buf).map fun m => (m.1, .str m.2)) := by
  rw [payloadJSON, payloadMembers_anonReq floatText hlen]
  exact unmarshalObject_flat (plain_anonReqMembers buf) (by simp [anonReqMembers])

theorem stringField_other (buf : Bytes) {field : String}
    (h : field ∉ ["type", "destHash", "mac", "encryptedData", "srcPubKey"]) :
    stringField ((anonReqMembers buf).map fun m => (m.1, Value.str m.2)) field = none := by
  have hnone : ((anonReqMembers buf).map fun m => (m.1, Value.str m.2)).reverse.find? (fun m => m.1 == field) = none := by
    rw [List.find?_eq_none]
    intro m hm
    rw [List.mem_reverse] at hm
    obtain ⟨m', hm', rfl⟩ := List.mem_map.mp hm
    have hname : m'.1 ∈ ["type", "destHash", "mac", "encryptedData", "srcPubKey"] := by
      unfold anonReqMembers at hm'
      split at hm'
      · simp only [List.mem_append, List.mem_cons, List.not_mem_nil, or_false] at hm'
        rcases hm' with ((rfl | rfl | rfl) | rfl) <;> simp
      · simp only [List.mem_append, List.mem_cons, List.not_mem_nil, or_false] at hm'
        rcases hm' with (((rfl | rfl | rfl) | rfl) | rfl) <;> simp
    intro heq
    rw [eq_of_beq heq] at hname
    exact h hname
  rw [stringField]
  rw [hnone]

theorem payloadJSON_ne_empty (floatText : FloatText) (p : Payload) : payloadJSON floatText p ≠ "" := by
  intro h
  have := congrArg String.toList h
  rw [payloadJSON, objectText, String.toList_ofList] at this
  cases this

variable (floatText : FloatText) (p : DecodedPacket)

/-- A transmission with the type and the decoded text of the packet. -/
structure Carries (tx : TxRow) : Prop where
  payloadType : tx.payloadType = some payloadANON_REQ
  decodedJSON : tx.decodedJSON = payloadJSON floatText p.payload

/-- A row of the same, heard without a hop; `BuildPacketData` gives only adverts a
`from_pubkey`. -/
structure HeardDirectly (r : EdgeScanRow) : Prop where
  payloadType : r.payloadType = some payloadANON_REQ
  decodedJSON : r.decodedJSON = payloadJSON floatText p.payload
  fromPubkey : r.fromPubkey = ""
  path : parsePathArray r.pathJSON = []

/-- Both builders find the sender, and make the edge between it and an observer that
hears it directly. -/
structure NamesOriginator : Prop where
  fromNode : ∀ tx, Carries floatText p tx → tx.extractFromNode = senderKey p
  fromJSON : extractPubkeyFromAnonReqJSON (payloadJSON floatText p.payload) = senderKey p
  call : ∀ tx, Carries floatText p tx → ∀ pm opts obs, parsePathJSON obs.pathJSON = [] →
    toLower obs.observerID ≠ senderKey p →
      Action.upsertEdge (senderKey p) (toLower obs.observerID) "" (toLower obs.observerID) obs.snr
        (parseTimestamp obs.timestamp) ∈ observationCalls pm opts tx obs
  edge : ∀ r, HeardDirectly floatText p r → ∀ idx trust, toLower r.observerID ≠ "" →
    toLower r.observerID ≠ senderKey p → canonEdge (senderKey p) (toLower r.observerID) r.ts ∈ r.edges idx trust

/-- Neither builder finds the sender, and neither makes an edge to who hears it directly. -/
structure Unnamed : Prop where
  senderKey : senderKey p ≠ ""
  fromNode : ∀ tx, Carries floatText p tx → tx.extractFromNode = ""
  fromJSON : extractPubkeyFromAnonReqJSON (payloadJSON floatText p.payload) = ""
  call : ∀ tx, Carries floatText p tx → ∀ pm opts obs, parsePathJSON obs.pathJSON = [] →
    observationCalls pm opts tx obs = []
  tick : ∀ r, HeardDirectly floatText p r → ∀ idx trust rows rows' t,
    buildAndPersistNeighborEdges idx trust (rows ++ r :: rows') t =
      buildAndPersistNeighborEdges idx trust (rows ++ rows') t

variable {floatText p}

theorem Unnamed.not_namesOriginator (h : Unnamed floatText p) : ¬ NamesOriginator floatText p := by
  intro hnames
  apply h.senderKey
  rw [← hnames.fromJSON]
  exact h.fromJSON

theorem unnamed_of_payload (hlen : 35 ≤ p.payloadRaw.length) (hpayload : p.payload = anonReqPayload p.payloadRaw) :
    Unnamed floatText p := by
  have hobject := unmarshalObject_anonReq floatText hlen
  have hlower : toLower "" = "" := by decide +kernel
  have hfromNode : ∀ tx, Carries floatText p tx → tx.extractFromNode = "" := by
    intro tx htx
    have hfields : tx.parsedDecoded = some ((anonReqMembers p.payloadRaw).map fun m => (m.1, .str m.2)) := by
      unfold TxRow.parsedDecoded
      rw [htx.decodedJSON, hpayload, if_neg (payloadJSON_ne_empty floatText _)]
      exact hobject
    have hnone : ["ephemeralPubKey", "pubKey", "from_node", "from"].filterMap
        (stringField ((anonReqMembers p.payloadRaw).map fun m => (m.1, .str m.2))) = [] := by
      rw [List.filterMap_eq_nil_iff]
      intro field hfield
      apply stringField_other
      revert field
      decide
    unfold TxRow.extractFromNode
    rw [hfields, htx.payloadType]
    dsimp only
    rw [if_pos rfl, hnone]
    rfl
  have hfromJSON : extractPubkeyFromAnonReqJSON (payloadJSON floatText p.payload) = "" := by
    unfold extractPubkeyFromAnonReqJSON extractPubkey
    rw [hpayload, if_neg (payloadJSON_ne_empty floatText _), hobject]
    dsimp only
    rw [stringField_other _ (by decide)]
    rfl
  refine ⟨?_, hfromNode, hfromJSON, ?_, ?_⟩
  · intro h
    have hchars := congrArg String.toList h
    rw [senderKey, toList_hexText] at hchars
    have hnil := List.map_eq_nil_iff.mp hchars
    exact range_ne_nil (by omega) (by omega) (hexEncode_eq_nil.mp hnil)
  · intro tx htx pm opts obs hpath
    unfold observationCalls
    rw [hfromNode tx htx, hpath, hlower]
    simp
  · intro r hr idx trust rows rows' t
    have hnode : r.fromNode = "" := by
      unfold EdgeScanRow.fromNode EdgeScanRow.isAdvert EdgeScanRow.isAnonReq
      rw [hr.fromPubkey, hr.payloadType, hr.decodedJSON, hfromJSON, hlower]
      rfl
    have hedges : r.edges idx trust = [] := by
      unfold EdgeScanRow.edges
      rw [hr.path, hnode]
      simp
    unfold buildAndPersistNeighborEdges
    rw [List.flatMap_append, List.flatMap_cons, hedges, List.nil_append, ← List.flatMap_append]

/-- No sender of an ANON_REQ is found: the decoder writes its key under the name that
neither builder reads. -/
theorem anonReq_unnamed (floatText : FloatText) {crypto : Frame.Crypto} {hexString : Bytes}
    {channelKeys : List (Bytes × Bytes)} {validateSignatures : Bool} {p : DecodedPacket}
    (hp : decodePacket crypto hexString channelKeys validateSignatures = .ok p)
    (htype : p.header.payloadType = Frame.payloadANON_REQ) (hlen : 35 ≤ p.payloadRaw.length) :
    ¬ NamesOriginator floatText p ∧ Unnamed floatText p := by
  have h : Unnamed floatText p := unnamed_of_payload hlen (payload_of_decodePacket hp htype hlen)
  exact ⟨h.not_namesOriginator, h⟩

/-- A flooded ANON_REQ without a hop, from the node whose key is 32 times 0xAB. -/
def anonReqFrame : Bytes := hexEncode ([0x1D, 0x00, 0x11] ++ List.replicate 32 0xAB ++ [0x01, 0x02])

theorem decodePacket_anonReqFrame : ∃ p, decodePacket noCrypto anonReqFrame [] false = .ok p ∧
    p.header.payloadType = Frame.payloadANON_REQ ∧ 35 ≤ p.payloadRaw.length := by
  have hdecoded : (decodePacket noCrypto anonReqFrame [] false).toOption.map
      (fun p => (p.header.payloadType, p.payloadRaw.length)) = some (7, 35) := by decide
  obtain ⟨p, hp, heq⟩ := Option.map_eq_some_iff.mp hdecoded
  obtain ⟨htype, hlen⟩ := Prod.mk.inj heq
  refine ⟨p, ?_, htype, hlen.ge⟩
  cases hresult : decodePacket noCrypto anonReqFrame [] false with
  | error e =>
      rw [hresult] at hp
      cases hp
  | ok p' =>
      rw [hresult] at hp
      exact congrArg Except.ok (Option.some.inj hp)

def noFloats : FloatText := fun _ => "0"

theorem anonReq_unnamed_anonReqFrame : ∃ p, decodePacket noCrypto anonReqFrame [] false = .ok p ∧
    ¬ NamesOriginator noFloats p ∧ Unnamed noFloats p := by
  obtain ⟨p, hp, htype, hlen⟩ := decodePacket_anonReqFrame
  exact ⟨p, hp, anonReq_unnamed noFloats hp htype hlen⟩

/-- Of this frame neither builder learns who sent it. -/
theorem anonReqFrame_unnamed : ¬ ∀ (floatText : FloatText) (crypto : Frame.Crypto) (hexString : Bytes)
    (channelKeys : List (Bytes × Bytes)) (validateSignatures : Bool) (p : DecodedPacket),
    decodePacket crypto hexString channelKeys validateSignatures = .ok p →
      p.header.payloadType = Frame.payloadANON_REQ → 35 ≤ p.payloadRaw.length → NamesOriginator floatText p := by
  intro h
  obtain ⟨p, hp, htype, hlen⟩ := decodePacket_anonReqFrame
  have hunnamed : Unnamed noFloats p := unnamed_of_payload hlen (payload_of_decodePacket hp htype hlen)
  exact hunnamed.not_namesOriginator (h noFloats noCrypto anonReqFrame [] false p hp htype hlen)

end MeshcoreAnalyzer.Originators

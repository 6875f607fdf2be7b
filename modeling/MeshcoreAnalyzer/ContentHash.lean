import MeshcoreAnalyzer.ScopeVerify
import MeshcoreAnalyzer.ChannelTool

namespace MeshcoreAnalyzer.ContentHash

open GoBytes RawHex FrameGrammar MeshcoreAnalyzer.Frame

/-! `ComputeContentHash` of cmd/ingestor/decoder.go beside its `DecodePacket`. -/

variable {ε : Type} {s : Bytes}

def rawPrefix (rawHex : Bytes) : Bytes := if 16 ≤ rawHex.length then rawHex.take 16 else rawHex

def contentOf (buf : Bytes) : Go Unit Bytes := do
  if buf.length < 2 then raise ()
  else
    let headerByte ← index buf 0
    let offset := if isTransportRoute (headerByte &&& 0x03).toNat then 1 + 4 else 1
    if buf.length ≤ offset then raise ()
    else
      let pathByte ← index buf offset
      let offset := offset + 1
      let hashSize := ((pathByte >>> 6) &&& 0x3).toNat + 1
      let hashCount := (pathByte &&& 0x3F).toNat
      let payloadStart := offset + hashSize * hashCount
      if buf.length < payloadStart then raise ()
      else
        let payload ← sliceFrom buf payloadStart
        let payloadType := (headerByte >>> 2) &&& 0x0F
        let pathLen := if payloadType.toNat = payloadTRACE then [pathByte, 0x00] else []
        return payloadType :: (pathLen ++ payload)

def toHash (rawHex : Bytes) : Go Unit Bytes :=
  match hexDecode rawHex with
  | .error _ => raise ()
  | .ok buf => contentOf buf

/-- `hex.EncodeToString(h[:])[:16]` of the sum. -/
def digest (sha256 : Bytes → Bytes) (content : Bytes) : Bytes := (hexEncode (sha256 content)).take 16

def computeContentHash (sha256 : Bytes → Bytes) (rawHex : Bytes) : Go ε Bytes :=
  match toHash rawHex with
  | .ok content => .ok (digest sha256 content)
  | .error (.err _) => .ok (rawPrefix rawHex)
  | .error .panic => .error .panic

def content (payloadType : Nat) (pathByte : UInt8) (payload : Bytes) : Bytes :=
  UInt8.ofNat payloadType :: ((if payloadType = payloadTRACE then [pathByte, 0x00] else []) ++ payload)

/-- No character of the text is one that `DecodePacket` takes out. -/
def Unspaced (s : Bytes) : Prop := ∀ c ∈ s, isBlank c = false

theorem pathByte_bits : ∀ b : UInt8, ((b >>> 6) &&& 0x3).toNat + 1 = hashSize b := by decide +kernel

theorem payloadType_bits : ∀ b : UInt8, (b >>> 2) &&& 0x0F = UInt8.ofNat (decodeHeader b).payloadType := by decide +kernel

theorem contentOf_encode (f : WireFrame) :
    contentOf f.encode = .ok (content (decodeHeader f.header).payloadType f.pathByte f.payload) := by
  have hlen := f.encode_length
  have hend := f.codes_end
  have hpath := f.pathBytes_length
  have hoffset : (if isTransportRoute (f.header &&& 0x03).toNat then 1 + 4 else 1) = pathOffset f.header := by
    rw [(ChannelTool.header_bits f.header).2, pathOffset]
    simp [isTransportRoute]
  rw [contentOf, if_neg (by omega), index_ok (by omega)]
  simp only [bind, Except.bind]
  rw [f.get_header, hoffset, if_neg (by omega), index_ok (by omega)]
  dsimp only
  rw [f.get_pathByte, pathByte_bits, pathByte_count, ← hpath, if_neg (by omega), sliceFrom_ok (by omega),
    ← List.drop_drop, f.drop_pathByte, List.drop_left]
  dsimp only
  rw [(ChannelTool.header_bits f.header).1, payloadType_bits, content]
  rfl

theorem Unspaced.stripSpace_eq (h : Unspaced s) : stripSpace s = s := by
  rw [RawHex.stripSpace_eq, List.filter_eq_self]
  intro c hc
  rw [h c hc]
  rfl

theorem unspaced_of_hexDecode {buf : Bytes} (h : hexDecode s = .ok buf) : Unspaced s := by
  intro c hc
  exact (hexVal_spec c (((hexDecode_eq_ok _ _).mp h).digits c hc)).2.2

theorem unspaced_of_toHash {bs : Bytes} (h : toHash s = .ok bs) : Unspaced s := by
  rw [toHash] at h
  split at h
  · cases h
  · next hbuf => exact unspaced_of_hexDecode hbuf

theorem toHash_of_unspaced {w : WirePacket} (hw : readPacket s = .ok w) (h : Unspaced s) :
    toHash s = .ok (content w.header.payloadType w.pathByte w.payloadBuf) := by
  obtain ⟨f, hf, hdescribes⟩ := readPacket_accepts hw
  rw [h.stripSpace_eq] at hf
  rw [toHash, hf.hexDecode, hdescribes.header, hdescribes.pathByte, hdescribes.payload]
  exact contentOf_encode f

theorem computeContentHash_of_toHash {bs : Bytes} (h : toHash s = .ok bs) (sha256 : Bytes → Bytes) :
    (computeContentHash sha256 s : Go ε Bytes) = .ok (digest sha256 bs) := by
  rw [computeContentHash, h]

/-- The hash is that of the payload that was decoded, and not the beginning of the text. -/
def Agrees (s : Bytes) (w : WirePacket) : Prop :=
  toHash s ≠ raise () ∧ ∀ sha256, (computeContentHash sha256 s : Go DecodeError Bytes) =
    .ok (digest sha256 (content w.header.payloadType w.pathByte w.payloadBuf))

theorem agrees_of_unspaced {w : WirePacket} (hw : readPacket s = .ok w) : Agrees s w ↔ Unspaced s := by
  constructor
  · intro h
    cases hcontent : toHash s with
    | ok bs => exact unspaced_of_toHash hcontent
    | error fault =>
        cases fault with
        | err => exact absurd hcontent h.1
        | panic =>
            have hsum := h.2 id
            rw [computeContentHash, hcontent] at hsum
            cases hsum
  · intro h
    have hcontent := toHash_of_unspaced hw h
    refine ⟨fun hfallback => ?_, computeContentHash_of_toHash hcontent⟩
    rw [hcontent] at hfallback
    cases hfallback

/-- The hash of an accepted text is that of the decoded payload if and only if the text has no space in it, and two such
texts of one payload have one hash, however their frames differ. -/
theorem agrees_iff_unspaced (crypto : Crypto) (s : Bytes) (channelKeys : List (Bytes × Bytes)) (validateSignatures : Bool)
    (p : IngestorDecoder.DecodedPacket)
    (hdecode : IngestorDecoder.decodePacket crypto s channelKeys validateSignatures = .ok p) :
    ∃ w, readPacket s = .ok w ∧ w.header = p.header ∧ w.payloadBuf = p.payloadRaw ∧ (Agrees s w ↔ Unspaced s) ∧
      ∀ s' w', readPacket s' = .ok w' → Unspaced s → Unspaced s' → w'.header.payloadType = w.header.payloadType →
        w'.payloadBuf = w.payloadBuf → (w.header.payloadType = payloadTRACE → w'.pathByte = w.pathByte) →
          ∀ sha256, (computeContentHash sha256 s' : Go DecodeError Bytes) = computeContentHash sha256 s := by
  obtain ⟨w, hw⟩ := decodePacket_readPacket hdecode
  obtain ⟨p', hp', hheader, -, -, hraw, -⟩ :=
    IngestorDecoder.decodePacket_of_readPacket crypto channelKeys validateSignatures hw
  obtain rfl : p' = p := Except.ok.inj (hp'.symm.trans hdecode)
  refine ⟨w, hw, hheader.symm, hraw.symm, agrees_of_unspaced hw, ?_⟩
  intro s' w' hw' hs hs' htype hpayload hpathByte sha256
  have hcontent : content w'.header.payloadType w'.pathByte w'.payloadBuf =
      content w.header.payloadType w.pathByte w.payloadBuf := by
    rw [content, content, htype, hpayload]
    by_cases htrace : w.header.payloadType = payloadTRACE
    · rw [hpathByte htrace]
    · rw [if_neg htrace, if_neg htrace]
  rw [computeContentHash_of_toHash (toHash_of_unspaced hw' hs'), computeContentHash_of_toHash (toHash_of_unspaced hw hs),
    hcontent]

def plainText : Bytes := [0x30, 0x41, 0x30, 0x30, 0x44, 0x36, 0x39, 0x46]

def spacedText : Bytes := [0x30, 0x41, 0x20, 0x30, 0x30, 0x44, 0x36, 0x39, 0x46]

theorem agrees_iff_unspaced_plainText :
    ∃ p w, IngestorDecoder.decodePacket RegionKeys.zeroSums plainText [] false = .ok p ∧ readPacket plainText = .ok w ∧
      Agrees plainText w := by
  obtain ⟨w, hw, -, -, hiff, -⟩ := agrees_iff_unspaced RegionKeys.zeroSums plainText [] false _ rfl
  refine ⟨_, w, rfl, hw, hiff.mpr ?_⟩
  have hbuf : hexDecode plainText = .ok [0x0A, 0x00, 0xD6, 0x9F] := rfl
  exact unspaced_of_hexDecode hbuf

/-- A space after the header byte, which the decoder takes out. -/
theorem spaced_hash_differs :
    ∃ w w', readPacket plainText = .ok w ∧ readPacket spacedText = .ok w' ∧ w'.header = w.header ∧
      w'.payloadBuf = w.payloadBuf ∧ w'.pathByte = w.pathByte ∧ ¬Agrees spacedText w' ∧
        ∀ sha256, (computeContentHash sha256 plainText : Go DecodeError Bytes) ≠ computeContentHash sha256 spacedText := by
  refine ⟨_, _, rfl, rfl, rfl, rfl, rfl, fun h => h.1 rfl, fun sha256 heq => ?_⟩
  have hdigest : digest sha256 (content 2 0 [0xD6, 0x9F]) = spacedText := Except.ok.inj heq
  have hspace : (0x20 : UInt8) ∈ digest sha256 (content 2 0 [0xD6, 0x9F]) := hdigest ▸ by decide
  exact absurd ((hexOf_hexEncode _).digits _ (List.mem_of_mem_take hspace)) (by decide)

end MeshcoreAnalyzer.ContentHash

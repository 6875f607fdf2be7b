import MeshcoreAnalyzer.RegionTiers
import MeshcoreAnalyzer.RawHex

namespace MeshcoreAnalyzer.ScopeVerify

open GoBytes Spaces RawHex RegionKeys MeshcoreAnalyzer.Frame

/-! `scopeHMACInputs` and `regionCode` of cmd/server/scope_verify.go. -/

/-- The part of `scopeHMACInputs` after the hex text; an error is `ok == false`. -/
def scopeInputsOf (buf : Bytes) : Go Unit (UInt8 × Bytes × Bytes) := do
  if buf.length < 2 then raise ()
  else
    let header := decodeHeader (← index buf 0)
    if !isTransportRoute header.routeType then raise ()
    else if buf.length < 1 + 4 then raise ()
    else
      let code1 := upperHex (← slice buf 1 (1 + 2))
      if buf.length ≤ 1 + 4 then raise ()
      else
        let pathByte ← index buf (1 + 4)
        match decodePath pathByte buf (1 + 4 + 1) with
        | .error .panic => .error .panic
        | .error (.err _) => raise ()
        | .ok (_, consumed) =>
            let offset := 1 + 4 + 1 + consumed
            if buf.length < offset then raise ()
            else
              let rest ← sliceFrom buf offset
              if rest.length = 0 then raise ()
              else return (UInt8.ofNat header.payloadType, rest, code1)

def scopeHMACInputs (rawHex : Bytes) : Go Unit (UInt8 × Bytes × Bytes) :=
  match hexDecode (trimSpace rawHex) with
  | .error _ => raise ()
  | .ok buf => scopeInputsOf buf

def regionCode (sha256 : Bytes → Bytes) (crypto : Crypto) (name : Bytes) (payloadType : UInt8) (payload : Bytes) : Bytes :=
  codeOf (crypto.hmacSHA256 ((sha256 (withHash name)).take 16) (payloadType :: payload))

theorem readTransportCodes_ok {header : Header} {buf : Bytes} {tc : Option TransportCodes} {offset : Nat}
    (h : readTransportCodes header buf 1 = .ok (tc, offset)) (htransport : isTransportRoute header.routeType = true) :
    ¬ buf.length < 5 ∧ offset = 5 ∧ ∃ c, tc = some c ∧ c.code1 = upperHex ((buf.take 3).drop 1) := by
  rw [readTransportCodes, if_pos htransport] at h
  split at h
  · cases h
  · next hlen =>
    rw [slice_ok (by omega) (by omega), slice_ok (by omega) (by omega)] at h
    cases h
    exact ⟨hlen, rfl, _, rfl, rfl⟩

theorem scopeInputsOf_of_splitPacket {raw buf : Bytes} {w : WirePacket} (h : splitPacket raw buf = .ok w)
    (htransport : isTransportRoute w.header.routeType = true) (hpayload : w.payloadBuf ≠ []) :
    ∃ tc, w.transportCodes = some tc ∧
      scopeInputsOf buf = .ok (UInt8.ofNat w.header.payloadType, w.payloadBuf, tc.code1) := by
  rw [splitPacket] at h
  split at h
  · cases h
  · next hlen =>
    obtain ⟨b, hb, h⟩ := ok_of_bind h
    obtain ⟨⟨tc, offset⟩, hcodes, h⟩ := ok_of_bind h
    dsimp only at h
    split at h
    · cases h
    · next hpath =>
      obtain ⟨pathByte, hpathByte, h⟩ := ok_of_bind h
      obtain ⟨⟨path, consumed⟩, hdecode, h⟩ := ok_of_bind h
      dsimp only at h
      split at h
      · cases h
      · next hend =>
        obtain ⟨payloadBuf, hslice, h⟩ := ok_of_bind h
        split at h
        · cases h
        · cases h
          obtain ⟨hshort, rfl, c, rfl, hcode⟩ := readTransportCodes_ok hcodes htransport
          refine ⟨c, rfl, ?_⟩
          have hrest : ¬ payloadBuf.length = 0 := fun hnil => hpayload (List.length_eq_zero_iff.mp hnil)
          rw [scopeInputsOf, if_neg hlen, index_same hb]
          simp only [bind, Except.bind]
          rw [if_neg (by rw [htransport]; exact Bool.false_ne_true), if_neg hshort, slice_ok (by omega) (by omega)]
          dsimp only
          rw [if_neg hpath, index_same hpathByte]
          dsimp only
          rw [hdecode]
          dsimp only
          have hsame : (sliceFrom buf (1 + 4 + 1 + consumed) : Go Unit Bytes) = .ok payloadBuf := slice_same hslice
          rw [if_neg hend, hsame]
          dsimp only
          rw [if_neg hrest, hcode]
          rfl

theorem codeOf_ne_noCode (sum : Bytes) : codeOf sum ≠ noCode := by
  rw [codeOf.eq_def]
  split
  · next b0 b1 _ =>
    dsimp only
    generalize hcode : (if b0.toNat + 256 * b1.toNat = 0 then 1
      else if b0.toNat + 256 * b1.toNat = 0xFFFF then 0xFFFE else b0.toNat + 256 * b1.toNat) = code
    have h0 := b0.toNat_lt
    have h1 := b1.toNat_lt
    have hbounds : 0 < code ∧ code < 65536 := by
      rw [← hcode]
      split
      · omega
      · split <;> omega
    intro h
    have hzero : HexOf noCode [0, 0] := (hexDecode_eq_ok noCode [0, 0]).mp rfl
    have hbytes := (h ▸ hexOf_upperHex [UInt8.ofNat (code % 256), UInt8.ofNat (code / 256)]).unique hzero
    simp only [List.cons.injEq, and_true] at hbytes
    have hlo := congrArg UInt8.toNat hbytes.1
    have hhi := congrArg UInt8.toNat hbytes.2
    rw [UInt8.toNat_ofNat'] at hlo hhi
    have hlow : code % 256 % 2 ^ 8 = 0 := hlo
    have hhigh : code / 256 % 2 ^ 8 = 0 := hhi
    omega
  · exact (List.cons_ne_nil _ _).symm

theorem regionCode_iff (sha256 : Bytes → Bytes) (crypto : Crypto) (name : Bytes) (payloadType : UInt8)
    {payload code1 : Bytes} (hpayload : payload ≠ []) :
    regionCode sha256 crypto name payloadType payload = code1 ↔
      withHash name ∈ matchingRegions crypto [(withHash name, regionKey sha256 (withHash name))] payloadType payload
        code1 := by
  rw [mem_matchingRegions, Matching]
  simp only [List.mem_singleton, Prod.mk.injEq, true_and, exists_eq_left]
  constructor
  · rintro rfl
    exact ⟨codeOf_ne_noCode _, hpayload, rfl⟩
  · exact fun h => h.2.2

/-- The server finds what the ingestor found, and verifies a region exactly where the
ingestor matches it; the "#" of its name may be left away. -/
def Agrees (sha256 : Bytes → Bytes) (crypto : Crypto) (s : Bytes) (p : IngestorDecoder.DecodedPacket) : Prop :=
  ∃ tc, p.transportCodes = some tc ∧
    scopeHMACInputs s = .ok (UInt8.ofNat p.header.payloadType, p.payloadRaw, tc.code1) ∧
    ∀ name, regionCode sha256 crypto name (UInt8.ofNat p.header.payloadType) p.payloadRaw = tc.code1 ↔
      withHash name ∈ matchingRegions crypto [(withHash name, regionKey sha256 (withHash name))]
        (UInt8.ofNat p.header.payloadType) p.payloadRaw tc.code1

theorem agrees_iff_unbroken (sha256 : Bytes → Bytes) (crypto : Crypto) (s : Bytes) (channelKeys : List (Bytes × Bytes))
    (validateSignatures : Bool) (p : IngestorDecoder.DecodedPacket)
    (hdecode : IngestorDecoder.decodePacket crypto s channelKeys validateSignatures = .ok p)
    (htransport : isTransportRoute p.header.routeType = true) (hpayload : p.payloadRaw ≠ []) :
    Agrees sha256 crypto s p ↔ Unbroken s := by
  constructor
  · rintro ⟨tc, -, hinputs, -⟩
    rw [scopeHMACInputs] at hinputs
    split at hinputs
    · cases hinputs
    · next buf hbuf => exact unbroken_of_hexDecode hbuf
  · intro hs
    obtain ⟨w, hw⟩ := FrameGrammar.decodePacket_readPacket hdecode
    obtain ⟨p', hp', hheader, hcodes, -, hraw, -⟩ :=
      IngestorDecoder.decodePacket_of_readPacket crypto channelKeys validateSignatures hw
    rw [hdecode] at hp'
    cases hp'
    rw [hheader] at htransport
    rw [hraw] at hpayload
    rw [readPacket] at hw
    split at hw
    · cases hw
    · next buf hbuf =>
      obtain ⟨tc, htc, hinputs⟩ := scopeInputsOf_of_splitPacket hw htransport hpayload
      refine ⟨tc, hcodes.trans htc, ?_, fun name => ?_⟩
      · rw [scopeHMACInputs, hs.trimSpace_eq ((hexDecode_eq_ok _ _).mp hbuf), hbuf, hheader, hraw]
        exact hinputs
      · exact regionCode_iff sha256 crypto name _ (hraw ▸ hpayload)

def scopedText : Bytes := [0x31, 0x34, 0x30, 0x31, 0x30, 0x30, 0x30, 0x30, 0x30, 0x30, 0x30, 0x30, 0x30, 0x31]

def spacedText : Bytes := [0x31, 0x34, 0x20, 0x30, 0x31, 0x30, 0x30, 0x30, 0x30, 0x30, 0x30, 0x30, 0x30, 0x30, 0x31]

theorem agrees_iff_unbroken_scopedText :
    ∃ p, IngestorDecoder.decodePacket zeroSums scopedText [] false = .ok p ∧ Agrees id zeroSums scopedText p := by
  refine ⟨_, rfl, ?_⟩
  apply (agrees_iff_unbroken id zeroSums scopedText [] false _ rfl rfl (List.cons_ne_nil _ _)).mpr
  exact fun c hc => (hexVal_spec c (((hexDecode_eq_ok (trimSpace scopedText) _).mp rfl).digits c hc)).2.2

/-- A space after the header byte. -/
theorem not_agrees_spacedText :
    ∃ p, IngestorDecoder.decodePacket zeroSums spacedText [] false = .ok p ∧
      isTransportRoute p.header.routeType = true ∧ p.payloadRaw ≠ [] ∧ ¬ Agrees id zeroSums spacedText p := by
  refine ⟨_, rfl, rfl, List.cons_ne_nil _ _, ?_⟩
  rintro ⟨tc, -, hinputs, -⟩
  have hfails : scopeHMACInputs spacedText = .error (.err ()) := rfl
  rw [hfails] at hinputs
  cases hinputs

end MeshcoreAnalyzer.ScopeVerify

import MeshcoreAnalyzer.IngestorDecoder

namespace MeshcoreAnalyzer.FrameGrammar

open GoBytes MeshcoreAnalyzer.Frame

variable {ε : Type}

def routeBits (header : UInt8) : Nat := header.toNat % 4

def hashSize (pathByte : UInt8) : Nat := pathByte.toNat / 64 + 1

def hashCount (pathByte : UInt8) : Nat := pathByte.toNat % 64

/-- A frame on the wire: header, transport codes on the two transport routes,
path byte, path and payload, each of the length that the grammar gives it. -/
structure WireFrame where
  header : UInt8
  codes : Bytes
  pathByte : UInt8
  pathBytes : Bytes
  payload : Bytes
  codes_length : codes.length = if routeBits header = 0 ∨ routeBits header = 3 then 4 else 0
  hashSize_ne : hashSize pathByte ≠ 4
  pathBytes_le : hashSize pathByte * hashCount pathByte ≤ 64
  pathBytes_length : pathBytes.length = hashSize pathByte * hashCount pathByte
  payload_le : payload.length ≤ 184

def WireFrame.encode (f : WireFrame) : Bytes :=
  f.header :: (f.codes ++ f.pathByte :: (f.pathBytes ++ f.payload))

theorem WireFrame.encode_length (f : WireFrame) :
    f.encode.length = f.codes.length + f.pathBytes.length + f.payload.length + 2 := by
  simp only [encode, List.length_cons, List.length_append]
  omega

theorem routeType_decodeHeader : ∀ b : UInt8, (decodeHeader b).routeType = routeBits b := by
  decide +kernel

theorem isTransportRoute_decodeHeader (b : UInt8) :
    isTransportRoute (decodeHeader b).routeType = true ↔ routeBits b = 0 ∨ routeBits b = 3 := by
  rw [routeType_decodeHeader]
  simp [isTransportRoute]

theorem pathByte_size : ∀ b : UInt8, (b >>> 6).toNat + 1 = hashSize b := by decide +kernel

theorem pathByte_count : ∀ b : UInt8, (b &&& 0x3F).toNat = hashCount b := by decide +kernel

theorem isValidPathLen_iff (b : UInt8) :
    isValidPathLen b = true ↔ hashSize b ≠ 4 ∧ hashSize b * hashCount b ≤ 64 := by
  rw [isValidPathLen]
  simp only [pathByte_size, pathByte_count, maxPathSize]
  split
  · next h => simp [h]
  · next h => simp [h, Nat.mul_comm]

def headerByte (h : Header) : UInt8 :=
  UInt8.ofNat (h.routeType + 4 * h.payloadType + 64 * h.payloadVersion)

theorem headerByte_decodeHeader : ∀ b : UInt8, headerByte (decodeHeader b) = b := by
  decide +kernel

/-- Every hop is the text of `size` bytes, and together they spell the path. -/
def Spells (hops : List Bytes) (size : Nat) (pathBytes : Bytes) : Prop :=
  (∀ hop ∈ hops, hop.length = 2 * size ∧ ∀ c ∈ hop, (hexVal c).isSome) ∧
    HexOf hops.flatten pathBytes

theorem readHops_spec (buf : Bytes) (offset size count i : Nat)
    (h : offset + (i + count) * size ≤ buf.length) :
    ∃ hops, (readHops buf offset size count i : Go ε (List Bytes)) = .ok hops ∧
      hops.length = count ∧ Spells hops size ((buf.drop (offset + i * size)).take (count * size)) := by
  induction count generalizing i with
  | zero => exact ⟨[], rfl, rfl, by simp, by simpa using HexOf.nil⟩
  | succ count ih =>
      have hnext : (i + 1) * size = i * size + size := Nat.succ_mul i size
      have hall : (i + (count + 1)) * size = i * size + (count * size + size) := by
        rw [Nat.add_mul, Nat.succ_mul]
      obtain ⟨hops, hread, hlen, hdigits, hspell⟩ := ih (i + 1) (by
        rw [show i + 1 + count = i + (count + 1) by omega]
        exact h)
      simp only [readHops]
      rw [if_neg (by omega), slice_ok (by omega) (by omega)]
      simp only [bind, Except.bind, hread]
      refine ⟨_, rfl, by rw [List.length_cons, hlen], ?_, ?_⟩
      · intro hop hmem
        rw [List.mem_cons] at hmem
        obtain rfl | hmem := hmem
        · refine ⟨?_, (hexOf_upperHex _).digits⟩
          rw [upperHex_length, List.length_drop, List.length_take]
          omega
        · exact hdigits hop hmem
      · have hsplit : (buf.drop (offset + i * size)).take ((count + 1) * size) =
            (buf.take (offset + i * size + size)).drop (offset + i * size) ++
              (buf.drop (offset + (i + 1) * size)).take (count * size) := by
          rw [Nat.succ_mul, Nat.add_comm (count * size) size, List.take_add, List.drop_drop,
            List.drop_take, Nat.add_sub_cancel_left, hnext, ← Nat.add_assoc]
        rw [hsplit, List.flatten_cons]
        exact (hexOf_upperHex _).append hspell

theorem decodePath_spec {pathByte : UInt8} (buf : Bytes) (offset : Nat)
    (hvalid : hashSize pathByte ≠ 4 ∧ hashSize pathByte * hashCount pathByte ≤ 64) :
    ∃ hops, decodePath pathByte buf offset =
        .ok ({ hashSize := hashSize pathByte, hashCount := hashCount pathByte, hops,
               hopsCompleted := none }, hashSize pathByte * hashCount pathByte) ∧
      (offset + hashSize pathByte * hashCount pathByte ≤ buf.length →
        hops.length = hashCount pathByte ∧ Spells hops (hashSize pathByte)
          ((buf.drop offset).take (hashSize pathByte * hashCount pathByte))) := by
  rw [decodePath]
  rw [(isValidPathLen_iff pathByte).mpr hvalid]
  simp only [pathByte_size, pathByte_count, Bool.not_true, Bool.false_eq_true, if_false]
  by_cases h : offset + hashSize pathByte * hashCount pathByte ≤ buf.length
  · obtain ⟨hops, hread, hlen, hspell⟩ := readHops_spec (ε := DecodeError) buf offset
      (hashSize pathByte) (hashCount pathByte) 0
      (by rw [Nat.zero_add, Nat.mul_comm]; exact h)
    rw [hread]
    refine ⟨hops, rfl, fun _ => ⟨hlen, ?_⟩⟩
    rw [Nat.zero_mul, Nat.add_zero, Nat.mul_comm (hashCount pathByte)] at hspell
    exact hspell
  · obtain ⟨hops, hread⟩ := readHops_returns (ε := DecodeError) buf offset (hashSize pathByte)
      (hashCount pathByte) 0
    rw [hread]
    exact ⟨hops, rfl, fun h' => absurd h' h⟩

theorem decodePath_invalid {pathByte : UInt8} (buf : Bytes) (offset : Nat)
    (h : ¬ (hashSize pathByte ≠ 4 ∧ hashSize pathByte * hashCount pathByte ≤ 64)) :
    decodePath pathByte buf offset =
      raise (.invalidPathEncoding pathByte (hashSize pathByte) (hashCount pathByte)) := by
  have hv : isValidPathLen pathByte = false := by
    rw [← Bool.not_eq_true, isValidPathLen_iff]
    exact h
  rw [decodePath]
  rw [hv]
  simp only [pathByte_size, pathByte_count, Bool.not_false, if_true]

def pathOffset (header : UInt8) : Nat := if routeBits header = 0 ∨ routeBits header = 3 then 5 else 1

theorem readTransportCodes_spec (b : UInt8) (buf : Bytes) (h : 2 ≤ buf.length) :
    (buf.length < pathOffset b ∧
      readTransportCodes (decodeHeader b) buf 1 = raise .tooShortForTransportCodes) ∨
    (pathOffset b ≤ buf.length ∧ ∃ tc, readTransportCodes (decodeHeader b) buf 1 =
        .ok (tc, pathOffset b) ∧
      HexOf ((tc.map (fun c => c.code1 ++ c.code2)).getD [])
        ((buf.take (pathOffset b)).drop 1)) := by
  rw [readTransportCodes, pathOffset]
  by_cases hr : routeBits b = 0 ∨ routeBits b = 3
  · rw [if_pos ((isTransportRoute_decodeHeader b).mpr hr), if_pos hr]
    by_cases hl : buf.length < 5
    · left
      rw [if_pos (by omega)]
      exact ⟨hl, rfl⟩
    · right
      rw [if_neg (by omega), slice_ok (by omega) (by omega), slice_ok (by omega) (by omega)]
      refine ⟨by omega, _, rfl, ?_⟩
      have hsplit : (buf.take 5).drop 1 = (buf.take 3).drop 1 ++ (buf.take 5).drop 3 := by
        rw [show 5 = 3 + 2 from rfl, List.take_add, List.drop_append, List.drop_append,
          List.length_take, show min 3 buf.length = 3 by omega]
        simp [List.drop_take]
      rw [hsplit]
      exact (hexOf_upperHex _).append (hexOf_upperHex _)
  · right
    rw [if_neg (mt (isTransportRoute_decodeHeader b).mp hr), if_neg hr]
    refine ⟨by omega, none, rfl, ?_⟩
    have hnil : (buf.take 1).drop 1 = [] := by
      rw [List.drop_eq_nil_iff, List.length_take]
      omega
    rw [hnil]
    exact .nil

structure Describes (w : WirePacket) (f : WireFrame) : Prop where
  header : w.header = decodeHeader f.header
  codes : HexOf ((w.transportCodes.map (fun c => c.code1 ++ c.code2)).getD []) f.codes
  pathByte : w.pathByte = f.pathByte
  size : w.path.hashSize = hashSize f.pathByte
  count : w.path.hashCount = hashCount f.pathByte
  hops_length : w.path.hops.length = hashCount f.pathByte
  hops : Spells w.path.hops (hashSize f.pathByte) f.pathBytes
  payload : w.payloadBuf = f.payload

theorem WireFrame.codes_end (f : WireFrame) : pathOffset f.header = 1 + f.codes.length := by
  rw [f.codes_length, pathOffset]
  split <;> rfl

theorem WireFrame.take_codes (f : WireFrame) :
    (f.encode.take (pathOffset f.header)).drop 1 = f.codes := by
  rw [f.codes_end, Nat.add_comm, encode, List.take_succ_cons, List.drop_succ_cons, List.drop_zero,
    List.take_left]

theorem WireFrame.get_header (f : WireFrame) (h : 0 < f.encode.length) :
    f.encode[0] = f.header := rfl

theorem WireFrame.get_pathByte (f : WireFrame) (h : pathOffset f.header < f.encode.length) :
    f.encode[pathOffset f.header] = f.pathByte := by
  rw [← Option.some_inj, ← List.getElem?_eq_getElem, f.codes_end, Nat.add_comm, encode,
    List.getElem?_cons_succ, List.getElem?_append_right le_rfl, Nat.sub_self]
  rfl

theorem WireFrame.drop_pathByte (f : WireFrame) :
    f.encode.drop (pathOffset f.header + 1) = f.pathBytes ++ f.payload := by
  rw [f.codes_end, encode, show 1 + f.codes.length + 1 = (f.codes.length + 1) + 1 by omega,
    List.drop_succ_cons, List.drop_append, List.drop_eq_nil_of_le (by omega),
    Nat.add_sub_cancel_left]
  rfl

theorem splitPacket_encode (raw : Bytes) (f : WireFrame) :
    ∃ w, splitPacket raw f.encode = .ok w ∧ w.raw = raw ∧ Describes w f := by
  have hlen := f.encode_length
  have hend := f.codes_end
  have hpath := f.pathBytes_length
  have hpay := f.payload_le
  rw [splitPacket]
  rw [if_neg (by omega), index_ok (by omega)]
  simp only [bind, Except.bind]
  rw [f.get_header]
  obtain ⟨h, _⟩ | ⟨hle, tc, htc, hcodes⟩ := readTransportCodes_spec f.header f.encode (by omega)
  · omega
  · rw [htc]
    simp only
    rw [if_neg (by omega), index_ok (by omega)]
    simp only
    rw [f.get_pathByte]
    obtain ⟨hops, hdecode, hhops⟩ := decodePath_spec f.encode
      (pathOffset f.header + 1) ⟨f.hashSize_ne, f.pathBytes_le⟩
    obtain ⟨hcount, hspell⟩ := hhops (by omega)
    rw [hdecode]
    simp only
    rw [if_neg (by omega), sliceFrom_ok (by omega)]
    rw [← List.drop_drop, f.drop_pathByte, ← hpath, List.drop_left]
    simp only
    rw [if_neg (show ¬ maxPacketPayload < f.payload.length from not_lt.mpr hpay)]
    rw [f.drop_pathByte, ← hpath, List.take_left] at hspell
    rw [f.take_codes] at hcodes
    exact ⟨_, rfl, rfl, rfl, hcodes, rfl, rfl, rfl, hcount, hspell, rfl⟩

theorem pathOffset_pos (b : UInt8) : 1 ≤ pathOffset b := by
  rw [pathOffset]
  split <;> omega

theorem splitAt_join (b : UInt8) (rest : Bytes) {o : Nat} (ho : 1 ≤ o)
    (hpos : o < (b :: rest).length) (n : Nat) :
    b :: (((b :: rest).take o).drop 1 ++ (b :: rest)[o] ::
      (((b :: rest).drop (o + 1)).take n ++ (b :: rest).drop (o + 1 + n))) = b :: rest := by
  have hdrop : (b :: rest).drop (o + 1 + n) = ((b :: rest).drop (o + 1)).drop n :=
    List.drop_drop.symm
  rw [hdrop, List.take_append_drop, ← List.drop_eq_getElem_cons hpos]
  obtain ⟨k, rfl⟩ : ∃ k, o = k + 1 := ⟨o - 1, by omega⟩
  rw [List.take_succ_cons, List.drop_succ_cons, List.drop_zero, List.drop_succ_cons,
    List.take_append_drop]

theorem splitPacket_accepts {raw buf : Bytes} {w : WirePacket}
    (h : splitPacket raw buf = .ok w) : ∃ f : WireFrame, f.encode = buf := by
  unfold splitPacket at h
  split at h
  · cases h
  · next hlen =>
      obtain ⟨b, rest, rfl⟩ : ∃ b rest, buf = b :: rest := by
        cases buf with
        | nil => simp at hlen
        | cons b rest => exact ⟨b, rest, rfl⟩
      rw [index_ok (by simp)] at h
      simp only [bind, Except.bind, List.getElem_cons_zero] at h
      obtain ⟨_, htc⟩ | ⟨hle, tc, htc, _⟩ := readTransportCodes_spec b (b :: rest) (by omega)
      · rw [htc] at h
        cases h
      · rw [htc] at h
        simp only at h
        split at h
        · cases h
        · next hpos =>
            rw [index_ok (by omega)] at h
            simp only at h
            generalize hpb : (b :: rest)[pathOffset b] = pathByte at h
            by_cases hvalid : hashSize pathByte ≠ 4 ∧ hashSize pathByte * hashCount pathByte ≤ 64
            · obtain ⟨hops, hdecode, _⟩ := decodePath_spec (b :: rest)
                (pathOffset b + 1) hvalid
              rw [hdecode] at h
              simp only at h
              split at h
              · cases h
              · next hend =>
                  rw [sliceFrom_ok (by omega)] at h
                  simp only at h
                  split at h
                  · cases h
                  · next hpay =>
                      exact ⟨{
                        header := b
                        codes := ((b :: rest).take (pathOffset b)).drop 1
                        pathByte := pathByte
                        pathBytes := ((b :: rest).drop (pathOffset b + 1)).take
                          (hashSize pathByte * hashCount pathByte)
                        payload := (b :: rest).drop
                          (pathOffset b + 1 + hashSize pathByte * hashCount pathByte)
                        codes_length := by
                          rw [List.length_drop, List.length_take, Nat.min_eq_left hle, pathOffset]
                          split <;> rfl
                        hashSize_ne := hvalid.1
                        pathBytes_le := hvalid.2
                        pathBytes_length := by
                          rw [List.length_take, List.length_drop]
                          omega
                        payload_le := not_lt.mp hpay }, by
                          subst hpb
                          exact splitAt_join b rest (pathOffset_pos b) (by omega) _⟩
            · rw [decodePath_invalid _ _ hvalid] at h
              cases h

theorem splitPacket_safe (raw buf : Bytes) : Safe (splitPacket raw buf) := by
  rw [splitPacket]
  split
  · exact .raise _
  · refine .bind (Returns.index (by omega)).safe fun b _ => ?_
    simp only [bind, Except.bind]
    obtain ⟨_, htc⟩ | ⟨_, tc, htc, _⟩ := readTransportCodes_spec b buf (by omega)
    · rw [htc]
      exact .raise _
    · rw [htc]
      simp only
      split
      · exact .raise _
      · rw [index_ok (by omega)]
        simp only
        generalize buf[pathOffset b] = pathByte
        by_cases hvalid : hashSize pathByte ≠ 4 ∧ hashSize pathByte * hashCount pathByte ≤ 64
        · obtain ⟨hops, hdecode, _⟩ := decodePath_spec buf
            (pathOffset b + 1) hvalid
          rw [hdecode]
          simp only
          split
          · exact .raise _
          · rw [sliceFrom_ok (by omega)]
            simp only
            split
            · exact .raise _
            · exact (Returns.pure _).safe
        · rw [decodePath_invalid _ _ hvalid]
          exact .raise _

theorem readPacket_safe (s : Bytes) : Safe (readPacket s) := by
  unfold readPacket
  simp only
  split
  · exact .raise _
  · exact splitPacket_safe _ _

/-- The texts that `DecodePacket` accepts: hexadecimal spellings of a frame. -/
def Accepted (s : Bytes) : Prop := ∃ f : WireFrame, HexOf (stripSpace s) f.encode

theorem readPacket_of_hexOf {s : Bytes} {f : WireFrame} (h : HexOf (stripSpace s) f.encode) :
    ∃ w, readPacket s = .ok w ∧ w.raw = toUpper (stripSpace s) ∧ Describes w f := by
  obtain ⟨w, hw, hraw, hdesc⟩ := splitPacket_encode (toUpper (stripSpace s)) f
  refine ⟨w, ?_, hraw, hdesc⟩
  rw [readPacket]
  simp only [h.hexDecode, hw]

theorem readPacket_accepts {s : Bytes} {w : WirePacket} (h : readPacket s = .ok w) :
    ∃ f : WireFrame, HexOf (stripSpace s) f.encode ∧ Describes w f := by
  have h' := h
  unfold readPacket at h
  simp only at h
  split at h
  · cases h
  · next buf hbuf =>
      obtain ⟨f, rfl⟩ := splitPacket_accepts h
      have hhex := (hexDecode_eq_ok _ _).mp hbuf
      obtain ⟨w', hw', _, hdesc⟩ := readPacket_of_hexOf hhex
      rw [h'] at hw'
      cases hw'
      exact ⟨f, hhex, hdesc⟩

open IngestorDecoder

/-- The path bytes, the hop texts and the two numbers of the decoded path agree;
a direct packet without hops keeps no hash size. -/
structure PathOf (path : Path) (header : Header) (pathByte : UInt8) (pathBytes : Bytes) : Prop where
  count : path.hashCount = hashCount pathByte
  size : path.hashSize = if isDirect header ∧ hashCount pathByte = 0 then 0 else hashSize pathByte
  hops_length : path.hops.length = path.hashCount
  hops : ∀ hop ∈ path.hops, hop.length = 2 * path.hashSize ∧ ∀ c ∈ hop, (hexVal c).isSome
  spells : HexOf path.hops.flatten pathBytes

theorem pathOf_resetZeroHop {w : WirePacket} {f : WireFrame} (h : Describes w f)
    (ht : w.header.payloadType ≠ payloadTRACE) :
    PathOf (resetZeroHop w.header w.pathByte w.path) w.header f.pathByte f.pathBytes := by
  have hmask : (w.pathByte &&& 0x3F = 0) ↔ hashCount f.pathByte = 0 := by
    rw [h.pathByte, ← pathByte_count, ← UInt8.toNat_inj]
    rfl
  rw [resetZeroHop]
  by_cases hz : isDirect w.header ∧ hashCount f.pathByte = 0
  · rw [if_pos ⟨hz.1, hmask.mpr hz.2, ht⟩]
    have hnil : w.path.hops = [] := by
      rw [← List.length_eq_zero_iff, h.hops_length, hz.2]
    exact ⟨h.count, by rw [if_pos hz], by rw [h.hops_length, h.count], by simp [hnil], h.hops.2⟩
  · rw [if_neg (fun hc => hz ⟨hc.1, hmask.mp hc.2.1⟩)]
    exact ⟨h.count, by rw [if_neg hz, h.size], by rw [h.hops_length, h.count],
      by rw [h.size]; exact h.hops.1, h.hops.2⟩

theorem decodePacket_readPacket {crypto : Crypto} {s : Bytes} {channelKeys : List (Bytes × Bytes)}
    {validateSignatures : Bool} {p : DecodedPacket}
    (h : decodePacket crypto s channelKeys validateSignatures = .ok p) :
    ∃ w, readPacket s = .ok w := by
  cases hw : readPacket s with
  | ok w => exact ⟨w, rfl⟩
  | error e =>
      unfold decodePacket at h
      rw [hw] at h
      cases h

theorem decodePayload_of_decodePacket {crypto : Crypto} {s : Bytes} {channelKeys : List (Bytes × Bytes)}
    {validateSignatures : Bool} {p : DecodedPacket}
    (h : decodePacket crypto s channelKeys validateSignatures = .ok p) (ht : p.header.payloadType ≠ payloadTRACE) :
    (decodePayload crypto p.header.payloadType p.payloadRaw channelKeys validateSignatures : Go DecodeError IngestorDecoder.Payload) =
      .ok p.payload := by
  obtain ⟨w, hw⟩ := decodePacket_readPacket h
  obtain ⟨p', hp', hheader, -, -, hraw, -⟩ := decodePacket_of_readPacket crypto channelKeys validateSignatures hw
  obtain rfl : p' = p := Except.ok.inj (hp'.symm.trans h)
  obtain ⟨payload, hpayload⟩ := decodePayload_returns (ε := DecodeError) crypto w.header.payloadType w.payloadBuf
    channelKeys validateSignatures
  rw [hheader] at ht
  rw [decodePacket, hw] at h
  simp only [bind, Except.bind, hpayload, finishTrace_of_ne_trace ht] at h
  rw [hheader, hraw, hpayload, ← Except.ok.inj h]

/-- The decoder never slices out of range, accepts exactly the spellings of a
frame, and outside TRACE keeps every byte of it. -/
theorem decodePacket_grammar (crypto : Crypto) (s : Bytes) (channelKeys : List (Bytes × Bytes))
    (validateSignatures : Bool) :
    Safe (decodePacket crypto s channelKeys validateSignatures) ∧
    ((∃ p, decodePacket crypto s channelKeys validateSignatures = .ok p) ↔ Accepted s) ∧
    ∀ p, decodePacket crypto s channelKeys validateSignatures = .ok p →
      p.header.payloadType ≠ payloadTRACE →
      ∃ codes pathByte pathBytes,
        HexOf (stripSpace s)
          (headerByte p.header :: (codes ++ pathByte :: (pathBytes ++ p.payloadRaw))) ∧
        HexOf ((p.transportCodes.map (fun c => c.code1 ++ c.code2)).getD []) codes ∧
        PathOf p.path p.header pathByte pathBytes := by
  refine ⟨?_, ⟨?_, ?_⟩, ?_⟩
  · cases hw : readPacket s with
    | ok w =>
        obtain ⟨p, hp, _⟩ := decodePacket_of_readPacket crypto channelKeys validateSignatures hw
        rw [hp]
        exact (Returns.pure p).safe
    | error e =>
        have hsafe := readPacket_safe s
        rw [hw] at hsafe
        rw [decodePacket]
        rw [hw]
        intro h
        exact hsafe (congrArg Except.error (Except.error.inj h))
  · rintro ⟨p, hp⟩
    obtain ⟨w, hw⟩ := decodePacket_readPacket hp
    obtain ⟨f, hf, _⟩ := readPacket_accepts hw
    exact ⟨f, hf⟩
  · rintro ⟨f, hf⟩
    obtain ⟨w, hw, _⟩ := readPacket_of_hexOf hf
    obtain ⟨p, hp, _⟩ := decodePacket_of_readPacket crypto channelKeys validateSignatures hw
    exact ⟨p, hp⟩
  · intro p hp ht
    obtain ⟨w, hw⟩ := decodePacket_readPacket hp
    obtain ⟨f, hf, hdesc⟩ := readPacket_accepts hw
    obtain ⟨p', hp', hheader, hcodes, _, hpayload, hpath⟩ :=
      decodePacket_of_readPacket crypto channelKeys validateSignatures hw
    rw [hp] at hp'
    cases hp'
    rw [hheader] at ht
    refine ⟨f.codes, f.pathByte, f.pathBytes, ?_, ?_, ?_⟩
    · rw [hheader, hpayload, hdesc.header, hdesc.payload, headerByte_decodeHeader]
      exact hf
    · rw [hcodes]
      exact hdesc.codes
    · rw [hpath ht, hheader]
      exact pathOf_resetZeroHop hdesc ht

end MeshcoreAnalyzer.FrameGrammar

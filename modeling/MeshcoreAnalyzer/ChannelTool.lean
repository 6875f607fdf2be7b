import MeshcoreAnalyzer.RawHex

namespace MeshcoreAnalyzer.ChannelTool

open GoBytes Runes Spaces RawHex MeshcoreAnalyzer.Frame FrameGrammar
open IngestorDecoder (decryptBlocks untilNul splitSender)

/-! internal/channel/channel.go, and `extractGRPPayload` of cmd/decrypt/main.go. The cut at
the NUL and the split of the sender have the same text as in the ingestor. -/

variable {ε : Type}

/-- `Decrypt`; the AES cipher takes every key of 16 bytes. -/
def decrypt (crypto : Crypto) (key mac ciphertext : Bytes) : Go ε (Option Bytes) := do
  if key.length ≠ 16 ∨ mac.length ≠ 2 ∨ ciphertext.length = 0 ∨ ciphertext.length % 16 ≠ 0 then
    return none
  else
    let calculatedMac := crypto.hmacSHA256 (key ++ List.replicate 16 0) ciphertext
    if (← index calculatedMac 0) ≠ (← index mac 0) ∨ (← index calculatedMac 1) ≠ (← index mac 1) then
      return none
    else
      return some (← decryptBlocks crypto key ciphertext (ciphertext.length / 16) 0)

def countNonPrintable (s : Bytes) : Nat :=
  (runes s).countP fun r => r < 32 && r != 0x0A && r != 0x0D && r != 0x09

inductive ParseError
  | tooShort (length : Nat)
  | nonPrintable
deriving DecidableEq

def parsePlaintext (plaintext : Bytes) : Go ParseError (Nat × Bytes × Bytes) := do
  if plaintext.length < 5 then raise (.tooShort plaintext.length)
  else
    let timestamp ← uint32 (← slice plaintext 0 4)
    let text ← untilNul (← sliceFrom plaintext 5)
    if !validString text ∨ 2 < countNonPrintable text then raise .nonPrintable
    else
      let (sender, message) ← splitSender text
      return (timestamp, sender, message)

inductive ExtractError
  | invalidHex
  | notGrpTxt
  | tooShortForPath
  | tooShortForPayload
deriving DecidableEq

/-- The part of `extractGRPPayload` after the hex text. -/
def extractPayload (buf : Bytes) : Go ExtractError Bytes := do
  if buf.length < 2 then raise .invalidHex
  else
    let header ← index buf 0
    let payloadType := ((header >>> 2) &&& 0x0F).toNat
    if payloadType ≠ 5 then raise .notGrpTxt
    else
      let routeType := (header &&& 0x03).toNat
      let offset := if routeType = 0 ∨ routeType = 3 then 1 + 4 else 1
      if buf.length ≤ offset then raise .tooShortForPath
      else
        let pathByte ← index buf offset
        let hashSize := (pathByte >>> 6).toNat + 1
        let hashCount := (pathByte &&& 0x3F).toNat
        let offset := offset + 1 + hashSize * hashCount
        if buf.length ≤ offset then raise .tooShortForPayload
        else sliceFrom buf offset

def extractGRPPayload (rawHex : Bytes) : Go ExtractError Bytes :=
  match hexDecode (trimSpace rawHex) with
  | .error _ => raise .invalidHex
  | .ok buf => extractPayload buf

def readPayload (crypto : Crypto) (key payload : Bytes) : Go Unit (Nat × Bytes × Bytes) := do
  if payload.length < 3 then raise ()
  else
    match ← decrypt crypto key (← slice payload 1 3) (← sliceFrom payload 3) with
    | none => raise ()
    | some plaintext =>
        match parsePlaintext plaintext with
        | .ok r => return r
        | .error .panic => .error .panic
        | .error (.err _) => raise ()

def readGroupText (crypto : Crypto) (key rawHex : Bytes) : Go Unit (Nat × Bytes × Bytes) :=
  match extractGRPPayload rawHex with
  | .ok payload => readPayload crypto key payload
  | .error .panic => .error .panic
  | .error (.err _) => raise ()

def ecb (crypto : Crypto) (key : Bytes) : Nat → Bytes → Bytes
  | 0, _ => []
  | n + 1, ciphertext => crypto.decryptBlock key (ciphertext.take 16) ++ ecb crypto key n (ciphertext.drop 16)

def le32 : Bytes → Nat
  | b0 :: b1 :: b2 :: b3 :: _ => b0.toNat + 256 * b1.toNat + 65536 * b2.toNat + 16777216 * b3.toNat
  | _ => 0

def Opens (crypto : Crypto) (key payload : Bytes) : Prop :=
  3 < payload.length ∧ (payload.length - 3) % 16 = 0 ∧
    (crypto.hmacSHA256 (key ++ List.replicate 16 0) (payload.drop 3)).take 2 = (payload.drop 1).take 2

instance (crypto : Crypto) (key payload : Bytes) : Decidable (Opens crypto key payload) := by
  unfold Opens; infer_instance

def plaintextOf (crypto : Crypto) (key payload : Bytes) : Bytes :=
  ecb crypto key ((payload.length - 3) / 16) (payload.drop 3)

/-- The text behind timestamp and flags, up to its terminator. -/
def textOf (plaintext : Bytes) : Bytes := (plaintext.drop 5).takeWhile (· != 0)

theorem ecb_length (crypto : Crypto) (key : Bytes) :
    ∀ n ciphertext, (ecb crypto key n ciphertext).length = n * 16 := by
  intro n
  induction n with
  | zero => exact fun _ => rfl
  | succ n ih =>
      intro ciphertext
      rw [ecb, List.length_append, crypto.decryptBlock_length, ih]
      omega

theorem decryptBlocks_ok (crypto : Crypto) (key ciphertext : Bytes) {count i : Nat}
    (h : (i + count) * 16 ≤ ciphertext.length) :
    (decryptBlocks crypto key ciphertext count i : Go ε Bytes) = .ok (ecb crypto key count (ciphertext.drop (i * 16))) := by
  induction count generalizing i with
  | zero => rfl
  | succ count ih =>
      rw [decryptBlocks, slice_ok (by omega) (by omega), ih (by omega)]
      have hblock : (ciphertext.take (i * 16 + 16)).drop (i * 16) = (ciphertext.drop (i * 16)).take 16 := by
        rw [List.drop_take, Nat.add_sub_cancel_left]
      have hnext : ciphertext.drop ((i + 1) * 16) = (ciphertext.drop (i * 16)).drop 16 := by
        rw [List.drop_drop, Nat.add_mul, Nat.one_mul]
      rw [hnext]
      simp only [bind, Except.bind, hblock]
      rfl

theorem uint32_ok {buf : Bytes} (h : 4 ≤ buf.length) : (uint32 buf : Go ε Nat) = .ok (le32 buf) := by
  match buf, h with
  | _ :: _ :: _ :: _ :: _, _ => rfl

theorem indexOf_nul (text : Bytes) :
    indexOf [0] text = if 0 ∈ text then some (text.takeWhile (· != 0)).length else none := by
  induction text with
  | nil => rfl
  | cons c text ih =>
      by_cases hc : c = 0
      · subst hc
        rfl
      · have hhead : ([0] : Bytes).isPrefixOf (c :: text) = false := by
          simp [List.isPrefixOf, Ne.symm hc]
        rw [indexOf, hhead, ih, List.takeWhile_cons_of_pos (by simpa using hc)]
        simp only [Bool.false_eq_true, if_false, List.mem_cons, Ne.symm hc, false_or]
        split <;> rfl

theorem untilNul_ok (text : Bytes) : (untilNul text : Go ε Bytes) = .ok (text.takeWhile (· != 0)) := by
  rw [untilNul, indexOf_nul]
  by_cases hmem : 0 ∈ text
  · rw [if_pos hmem]
    have hpre := List.takeWhile_prefix (l := text) (· != 0)
    dsimp only
    rw [slice_ok (Nat.zero_le _) hpre.length_le, List.drop_zero, ← List.prefix_iff_eq_take.mp hpre]
  · rw [if_neg hmem]
    refine congrArg Except.ok (Eq.symm (List.takeWhile_eq_self_iff.mpr fun c hc => ?_))
    rw [bne_iff_ne]
    rintro rfl
    exact hmem hc

theorem splitSender_ok (text : Bytes) : ∃ r, ∀ ε : Type, (splitSender text : Go ε (Bytes × Bytes)) = .ok r := by
  cases h : indexOf [0x3A, 0x20] text with
  | none => exact ⟨([], text), fun ε => by rw [splitSender, h]; rfl⟩
  | some colonIdx =>
      have hle := indexOf_le h
      simp only [List.length_cons, List.length_nil] at hle
      have hsplit : ∀ ε : Type, (splitSender text : Go ε (Bytes × Bytes)) =
          if 0 < colonIdx ∧ colonIdx < 50 then
            if (text.take colonIdx).any fun c => c == 0x3A || c == 0x5B || c == 0x5D then .ok ([], text)
            else .ok (text.take colonIdx, text.drop (colonIdx + 2))
          else .ok ([], text) := by
        intro ε
        rw [splitSender, h]
        dsimp only
        rw [slice_ok (by omega) (by omega), sliceFrom_ok (by omega), List.drop_zero]
        rfl
      simp only [hsplit]
      split
      · split
        · exact ⟨_, fun _ => rfl⟩
        · exact ⟨_, fun _ => rfl⟩
      · exact ⟨_, fun _ => rfl⟩

theorem header_bits : ∀ b : UInt8, ((b >>> 2) &&& 0x0F).toNat = (decodeHeader b).payloadType ∧
    (b &&& 0x03).toNat = routeBits b := by
  decide +kernel

theorem extractPayload_encode (f : WireFrame) (htype : (decodeHeader f.header).payloadType = 5) :
    extractPayload f.encode = if f.payload = [] then raise .tooShortForPayload else .ok f.payload := by
  have hlen := f.encode_length
  have hend := f.codes_end
  have hpath := f.pathBytes_length
  rw [extractPayload, if_neg (by omega), index_ok (by omega)]
  simp only [bind, Except.bind]
  rw [f.get_header, (header_bits f.header).1, (header_bits f.header).2, if_neg (not_not.mpr htype)]
  have hoffset : (if routeBits f.header = 0 ∨ routeBits f.header = 3 then 1 + 4 else 1) = pathOffset f.header := rfl
  rw [hoffset, if_neg (by omega), index_ok (by omega)]
  dsimp only
  rw [f.get_pathByte, pathByte_size, pathByte_count, ← hpath]
  by_cases hnil : f.payload = []
  · rw [if_pos hnil]
    rw [hnil, List.length_nil] at hlen
    rw [if_pos (by omega)]
  · rw [if_neg hnil]
    have hpos := List.length_pos_iff.mpr hnil
    rw [if_neg (by omega), sliceFrom_ok (by omega), ← List.drop_drop, f.drop_pathByte, List.drop_left]

end MeshcoreAnalyzer.ChannelTool

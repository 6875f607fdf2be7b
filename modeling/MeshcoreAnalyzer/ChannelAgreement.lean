import MeshcoreAnalyzer.ChannelTool

namespace MeshcoreAnalyzer.ChannelTool

open GoBytes Runes Spaces RawHex MeshcoreAnalyzer.Frame FrameGrammar IngestorDecoder

variable {ε : Type} {crypto : Crypto} {key payload : Bytes}

theorem mac_eq (payload : Bytes) : (payload.take 3).drop 1 = (payload.drop 1).take 2 := List.drop_take

theorem ok_bind {α β : Type} (a : α) (f : α → Go ε β) : (.ok a : Go ε α) >>= f = f a := rfl

theorem index_mac {calculatedMac mac : Bytes} (hcalc : 2 ≤ calculatedMac.length) (hmac : mac.length = 2) {α : Type}
    (bad good : Go ε α) :
    (do if (← index calculatedMac 0) ≠ (← index mac 0) ∨ (← index calculatedMac 1) ≠ (← index mac 1) then bad
        else good) = if calculatedMac.take 2 = mac then good else bad := by
  match calculatedMac, hcalc, mac, hmac with
  | a :: b :: rest, _, [c, d], _ =>
      simp only [index, List.getElem?_cons_zero, List.getElem?_cons_succ, bind, Except.bind, List.take_succ_cons,
        List.take_zero, List.cons.injEq, and_true, ne_eq, ← not_and_or, ite_not]

theorem decrypt_ok (hkey : key.length = 16) (hpayload : 3 ≤ payload.length) :
    (decrypt crypto key ((payload.drop 1).take 2) (payload.drop 3) : Go ε (Option Bytes)) =
      .ok (if Opens crypto key payload then some (plaintextOf crypto key payload) else none) := by
  have hmac : ((payload.drop 1).take 2).length = 2 := by
    rw [List.length_take, List.length_drop]
    omega
  have hcalc : 2 ≤ (crypto.hmacSHA256 (key ++ List.replicate 16 0) (payload.drop 3)).length := by
    rw [crypto.hmac_length]
    decide
  rw [decrypt]
  dsimp only
  rw [index_mac hcalc hmac, List.length_drop]
  by_cases hblocks : payload.length - 3 = 0 ∨ (payload.length - 3) % 16 ≠ 0
  · have hnot : ¬ Opens crypto key payload := by
      rintro ⟨hlong, haligned, -⟩
      omega
    rw [if_pos (.inr (.inr hblocks)), if_neg hnot]
    rfl
  · have hlen : ¬ (key.length ≠ 16 ∨ ((payload.drop 1).take 2).length ≠ 2 ∨ payload.length - 3 = 0 ∨
        (payload.length - 3) % 16 ≠ 0) := by
      rintro (h | h | h)
      · exact h hkey
      · exact h hmac
      · exact hblocks h
    have hopens : Opens crypto key payload ↔
        (crypto.hmacSHA256 (key ++ List.replicate 16 0) (payload.drop 3)).take 2 = (payload.drop 1).take 2 := by
      rw [Opens]
      refine ⟨fun h => h.2.2, fun h => ⟨?_, ?_, h⟩⟩ <;> omega
    rw [if_neg hlen, decryptBlocks_ok crypto key (payload.drop 3) (by rw [List.length_drop]; omega)]
    rw [Nat.zero_mul, List.drop_zero]
    by_cases hequal : (crypto.hmacSHA256 (key ++ List.replicate 16 0) (payload.drop 3)).take 2 = (payload.drop 1).take 2
    · rw [if_pos hequal, if_pos (hopens.mpr hequal)]
      rfl
    · rw [if_neg hequal, if_neg (mt hopens.mp hequal)]
      rfl

def senderOf (text : Bytes) : Bytes × Bytes :=
  match (splitSender text : Go Unit (Bytes × Bytes)) with
  | .ok r => r
  | .error _ => ([], text)

theorem splitSender_eq (text : Bytes) : (splitSender text : Go ε (Bytes × Bytes)) = .ok (senderOf text) := by
  obtain ⟨r, hr⟩ := splitSender_ok text
  rw [senderOf, hr, hr]

def Readable (garbage : Bytes → Nat) (text : Bytes) : Prop := validString text = true ∧ garbage text ≤ 2

instance (garbage : Bytes → Nat) (text : Bytes) : Decidable (Readable garbage text) := by
  unfold Readable; infer_instance

theorem not_readable_iff (garbage : Bytes → Nat) (text : Bytes) :
    ((!validString text) = true ∨ 2 < garbage text) ↔ ¬ Readable garbage text := by
  rw [Readable, not_and_or, Bool.not_eq_true', Bool.not_eq_true, not_le]

theorem parsePlaintext_ok {plaintext : Bytes} (h : 5 ≤ plaintext.length) :
    parsePlaintext plaintext = if Readable ChannelTool.countNonPrintable (textOf plaintext) then
      .ok (le32 (plaintext.take 4), senderOf (textOf plaintext)) else raise .nonPrintable := by
  have hlen : 4 ≤ (plaintext.take 4).length := by
    rw [List.length_take]
    omega
  rw [parsePlaintext, if_neg (by omega), slice_ok (by omega) (by omega), List.drop_zero, sliceFrom_ok h]
  simp only [bind, Except.bind]
  rw [uint32_ok hlen, untilNul_ok]
  dsimp only
  rw [splitSender_eq, textOf]
  simp only [not_readable_iff]
  rw [ite_not]
  rfl

theorem plaintextOf_length (h : Opens crypto key payload) : 5 ≤ (plaintextOf crypto key payload).length := by
  obtain ⟨hlong, haligned, -⟩ := h
  rw [plaintextOf, ecb_length]
  omega

/-- The payload holds a text that the key opens and that is no garbage. -/
def Holds (garbage : Bytes → Nat) (crypto : Crypto) (key payload : Bytes) : Prop :=
  Opens crypto key payload ∧ Readable garbage (textOf (plaintextOf crypto key payload))

instance (garbage : Bytes → Nat) (crypto : Crypto) (key payload : Bytes) : Decidable (Holds garbage crypto key payload) := by
  unfold Holds; infer_instance

theorem readPayload_eq (hkey : key.length = 16) : readPayload crypto key payload =
    if Holds ChannelTool.countNonPrintable crypto key payload then
      .ok (le32 ((plaintextOf crypto key payload).take 4), senderOf (textOf (plaintextOf crypto key payload)))
    else raise () := by
  rw [readPayload]
  by_cases hshort : payload.length < 3
  · have hnot : ¬ Holds ChannelTool.countNonPrintable crypto key payload := by
      rintro ⟨⟨hlong, -⟩, -⟩
      omega
    rw [if_pos hshort, if_neg hnot]
  · rw [if_neg hshort, slice_ok (by omega) (by omega), mac_eq, sliceFrom_ok (by omega)]
    simp only [bind, Except.bind]
    rw [decrypt_ok hkey (by omega)]
    by_cases hopens : Opens crypto key payload
    · rw [if_pos hopens]
      dsimp only
      rw [parsePlaintext_ok (plaintextOf_length hopens)]
      by_cases hread : Readable ChannelTool.countNonPrintable (textOf (plaintextOf crypto key payload))
      · rw [if_pos hread, if_pos ⟨hopens, hread⟩]
        rfl
      · rw [if_neg hread, if_neg fun h => hread h.2]
        rfl
    · rw [if_neg hopens, if_neg fun h => hopens h.1]

theorem decodeChecked_of_hexOf {text bs : Bytes} (h : HexOf text bs) (ok : Bytes → Bool) (e : ChannelError) :
    decodeChecked text ok e = if ok bs then .ok bs else raise e := by
  rw [decodeChecked, h.hexDecode]
  rfl

theorem decryptChannelBlock_ok (crypto : Crypto) {keyHex : Bytes} (hhex : HexOf keyHex key) (hkey : key.length = 16)
    (hpayload : 3 ≤ payload.length) :
    decryptChannelBlock crypto (hexEncode (payload.drop 3)) (hexEncode ((payload.drop 1).take 2)) keyHex =
        .ok (plaintextOf crypto key payload) ∧ Opens crypto key payload ∨
      ¬ Opens crypto key payload ∧ ∃ e,
        decryptChannelBlock crypto (hexEncode (payload.drop 3)) (hexEncode ((payload.drop 1).take 2)) keyHex =
          raise e := by
  have hmac : ((payload.drop 1).take 2).length = 2 := by
    rw [List.length_take, List.length_drop]
    omega
  have hcalc : 2 ≤ (crypto.hmacSHA256 (key ++ List.replicate 16 0) (payload.drop 3)).length := by
    rw [crypto.hmac_length]
    decide
  rw [decryptChannelBlock, decodeChecked_of_hexOf hhex, decodeChecked_of_hexOf (hexOf_hexEncode _),
    decodeChecked_of_hexOf (hexOf_hexEncode _), hkey, hmac]
  simp only [beq_self_eq_true, if_true, ok_bind, bne_iff_ne, ne_eq, List.length_drop]
  by_cases hempty : payload.length - 3 = 0
  · refine .inr ⟨?_, .invalidCiphertext, ?_⟩
    · rintro ⟨hlong, -⟩
      omega
    · rw [if_neg (not_not.mpr hempty)]
      rfl
  · rw [if_pos hempty, ok_bind, index_mac hcalc hmac, List.length_drop]
    by_cases hequal : (crypto.hmacSHA256 (key ++ List.replicate 16 0) (payload.drop 3)).take 2 = (payload.drop 1).take 2
    · rw [if_pos hequal]
      by_cases haligned : (payload.length - 3) % 16 = 0
      · refine .inl ⟨?_, by omega, haligned, hequal⟩
        rw [if_neg (not_not.mpr haligned), decryptBlocks_ok crypto key (payload.drop 3) (by rw [List.length_drop]; omega),
          Nat.zero_mul, List.drop_zero]
        rfl
      · rw [if_pos haligned]
        exact .inr ⟨fun h => haligned h.2.1, _, rfl⟩
    · rw [if_neg hequal]
      exact .inr ⟨fun h => hequal h.2.2, _, rfl⟩

theorem decryptChannelMessage_ok (crypto : Crypto) {keyHex : Bytes} (hhex : HexOf keyHex key) (hkey : key.length = 16)
    (hpayload : 3 ≤ payload.length) :
    (Holds IngestorDecoder.countNonPrintable crypto key payload ∧
      ∃ flags, decryptChannelMessage crypto (hexEncode (payload.drop 3)) (hexEncode ((payload.drop 1).take 2)) keyHex =
        .ok { timestamp := le32 ((plaintextOf crypto key payload).take 4), flags,
              sender := (senderOf (textOf (plaintextOf crypto key payload))).1,
              message := (senderOf (textOf (plaintextOf crypto key payload))).2 }) ∨
    (¬ Holds IngestorDecoder.countNonPrintable crypto key payload ∧
      ∃ e, decryptChannelMessage crypto (hexEncode (payload.drop 3)) (hexEncode ((payload.drop 1).take 2)) keyHex =
        raise e) := by
  rw [decryptChannelMessage]
  obtain ⟨hblock, hopens⟩ | ⟨hopens, e, hblock⟩ := decryptChannelBlock_ok crypto hhex hkey hpayload
  · have hlen := plaintextOf_length hopens
    have htake : 4 ≤ ((plaintextOf crypto key payload).take 4).length := by
      rw [List.length_take]
      omega
    rw [hblock, ok_bind, if_neg (by omega), slice_ok (by omega) (by omega), List.drop_zero, ok_bind, uint32_ok htake,
      ok_bind, index_ok (by omega), ok_bind, sliceFrom_ok hlen, ok_bind, untilNul_ok, ok_bind, splitSender_eq, ok_bind]
    simp only [not_readable_iff]
    by_cases hread : Readable IngestorDecoder.countNonPrintable (textOf (plaintextOf crypto key payload))
    · exact .inl ⟨⟨hopens, hread⟩, _, if_neg (not_not.mpr hread)⟩
    · exact .inr ⟨fun h => hread h.2, _, if_pos hread⟩
  · exact .inr ⟨fun h => hopens h.1, e, by rw [hblock]; rfl⟩

theorem decodeGrpTxt_ok {name keyHex : Bytes} (hhex : HexOf keyHex key) (hkey : key.length = 16) {q : IngestorDecoder.Payload}
    (h : (decodeGrpTxt crypto payload [(name, keyHex)] : Go ε IngestorDecoder.Payload) = .ok q) :
    (Holds IngestorDecoder.countNonPrintable crypto key payload ∧ q.decryptionStatus = "decrypted" ∧
      q.senderTimestamp = le32 ((plaintextOf crypto key payload).take 4) ∧
      q.sender = (senderOf (textOf (plaintextOf crypto key payload))).1 ∧
      q.text = if (senderOf (textOf (plaintextOf crypto key payload))).1 ≠ [] ∧
          (senderOf (textOf (plaintextOf crypto key payload))).2 ≠ [] then
        (senderOf (textOf (plaintextOf crypto key payload))).1 ++ [0x3A, 0x20] ++
          (senderOf (textOf (plaintextOf crypto key payload))).2
        else (senderOf (textOf (plaintextOf crypto key payload))).2) ∨
    (¬ Holds IngestorDecoder.countNonPrintable crypto key payload ∧ q.decryptionStatus ≠ "decrypted") := by
  rw [decodeGrpTxt] at h
  by_cases hshort : payload.length < 3
  · rw [if_pos hshort] at h
    cases h
    refine .inr ⟨fun hholds => ?_, (by decide : ("" : String) ≠ "decrypted")⟩
    have hlong := hholds.1.1
    omega
  · rw [if_neg hshort, index_ok (by omega), ok_bind, slice_ok (by omega) (by omega), ok_bind, mac_eq,
      sliceFrom_ok (by omega), ok_bind] at h
    dsimp only at h
    by_cases hlong : 10 ≤ (hexEncode (payload.drop 3)).length
    · rw [if_pos ⟨Nat.one_pos, hlong⟩] at h
      obtain ⟨hholds, flags, hmessage⟩ | ⟨hholds, e, hmessage⟩ :=
        decryptChannelMessage_ok crypto hhex hkey (not_lt.mp hshort)
      · rw [tryKeys, hmessage] at h
        dsimp only at h
        rw [pure_bind] at h
        cases h
        exact .inl ⟨hholds, rfl, rfl, rfl, rfl⟩
      · rw [tryKeys, hmessage] at h
        cases h
        exact .inr ⟨hholds, (by decide : "decryption_failed" ≠ "decrypted")⟩
    · rw [if_neg (fun h => hlong h.2)] at h
      cases h
      refine .inr ⟨fun hholds => hlong ?_, (by decide : "no_key" ≠ "decrypted")⟩
      obtain ⟨⟨hlen, haligned, -⟩, -⟩ := hholds
      rw [(hexOf_hexEncode _).length, List.length_drop]
      omega

theorem readGroupText_eq (crypto : Crypto) {s : Bytes} {f : WireFrame} (hhex : HexOf (stripSpace s) f.encode)
    (htype : (decodeHeader f.header).payloadType = 5) (hkey : key.length = 16) : readGroupText crypto key s =
      if Unbroken s ∧ Holds ChannelTool.countNonPrintable crypto key f.payload then
        .ok (le32 ((plaintextOf crypto key f.payload).take 4), senderOf (textOf (plaintextOf crypto key f.payload)))
      else raise () := by
  rw [readGroupText, extractGRPPayload]
  by_cases hs : Unbroken s
  · rw [hs.trimSpace_eq hhex, hhex.hexDecode]
    dsimp only
    rw [extractPayload_encode f htype]
    simp only [and_iff_right hs]
    by_cases hnil : f.payload = []
    · have hnot : ¬ Holds ChannelTool.countNonPrintable crypto key f.payload := by
        rintro ⟨⟨hlong, -⟩, -⟩
        rw [hnil, List.length_nil] at hlong
        omega
      rw [if_pos hnil, if_neg hnot]
      rfl
    · rw [if_neg hnil]
      exact readPayload_eq hkey
  · rw [if_neg fun h => hs h.1]
    cases hdecode : hexDecode (trimSpace s) with
    | error e => rfl
    | ok buf => exact absurd (unbroken_of_hexDecode hdecode) hs

def messageOf (q : IngestorDecoder.Payload) : Bytes :=
  if q.sender ≠ [] ∧ (q.sender ++ [0x3A, 0x20]).isPrefixOf q.text = true then q.text.drop (q.sender ++ [0x3A, 0x20]).length
  else q.text

/-- The tool decrypts what the ingestor decrypts, and reads the same from it. -/
def Agrees (crypto : Crypto) (key s : Bytes) (q : IngestorDecoder.Payload) : Prop :=
  (q.decryptionStatus = "decrypted" ↔ ∃ r, readGroupText crypto key s = .ok r) ∧
    ∀ r, q.decryptionStatus = "decrypted" → readGroupText crypto key s = .ok r →
      r = (q.senderTimestamp, q.sender, messageOf q)

def countExtra (text : Bytes) : Nat := (runes text).countP fun r => r == 0x0D || r == runeError

/-- Where the key opens the payload and the tool can read the text, the hex text has no space inside exactly if the
carriage returns and replacement characters leave the text readable for the ingestor. -/
def SameVerdict (crypto : Crypto) (key s payload : Bytes) : Prop :=
  Opens crypto key payload → Readable ChannelTool.countNonPrintable (textOf (plaintextOf crypto key payload)) →
    (Unbroken s ↔ ChannelTool.countNonPrintable (textOf (plaintextOf crypto key payload)) +
      countExtra (textOf (plaintextOf crypto key payload)) ≤ 2)

theorem countNonPrintable_eq (text : Bytes) : IngestorDecoder.countNonPrintable text =
    ChannelTool.countNonPrintable text + countExtra text := by
  rw [IngestorDecoder.countNonPrintable, ChannelTool.countNonPrintable, countExtra]
  induction runes text with
  | nil => rfl
  | cons r rs ih =>
      have hhead : (if ((r < 0x20 && r != 0x0A && r != 0x09) || r == runeError) = true then 1 else 0) =
          (if (r < 32 && r != 0x0A && r != 0x0D && r != 0x09) = true then 1 else 0) +
            (if (r == 0x0D || r == runeError) = true then 1 else 0) := by
        by_cases hcr : r = 0x0D
        · rw [hcr]
          rfl
        · by_cases herror : r = runeError
          · rw [herror]
            rfl
          · simp [hcr, herror]
      rw [List.countP_cons, List.countP_cons, List.countP_cons, ih, hhead]
      omega

theorem readable_iff (text : Bytes) : Readable IngestorDecoder.countNonPrintable text ↔
    Readable ChannelTool.countNonPrintable text ∧ ChannelTool.countNonPrintable text + countExtra text ≤ 2 := by
  rw [Readable, Readable, countNonPrintable_eq]
  constructor
  · rintro ⟨hvalid, hcount⟩
    exact ⟨⟨hvalid, by omega⟩, hcount⟩
  · rintro ⟨⟨hvalid, -⟩, hcount⟩
    exact ⟨hvalid, hcount⟩

theorem messageOf_eq {q : IngestorDecoder.Payload} {sender message : Bytes} (hsender : q.sender = sender)
    (htext : q.text = if sender ≠ [] ∧ message ≠ [] then sender ++ [0x3A, 0x20] ++ message else message) :
    messageOf q = message := by
  rw [messageOf, hsender]
  by_cases hboth : sender ≠ [] ∧ message ≠ []
  · have hpre : (sender ++ [0x3A, 0x20]).isPrefixOf q.text = true := by
      rw [htext, if_pos hboth, List.isPrefixOf_iff_prefix]
      exact List.prefix_append _ _
    rw [if_pos ⟨hboth.1, hpre⟩, htext, if_pos hboth, List.drop_left]
  · rw [if_neg hboth] at htext
    have hnot : ¬ (sender ≠ [] ∧ (sender ++ [0x3A, 0x20]).isPrefixOf q.text = true) := by
      rintro ⟨hsome, hpre⟩
      have hnil : message = [] := by
        by_contra hmessage
        exact hboth ⟨hsome, hmessage⟩
      rw [htext, hnil, List.isPrefixOf_iff_prefix, List.prefix_nil] at hpre
      exact absurd hpre (by simp)
    rw [if_neg hnot, htext]

theorem agrees_iff_sameVerdict (crypto : Crypto) (s : Bytes) (name keyHex key : Bytes) (hhex : HexOf keyHex key)
    (hkey : key.length = 16) (validateSignatures : Bool) (p : IngestorDecoder.DecodedPacket)
    (hdecode : decodePacket crypto s [(name, keyHex)] validateSignatures = .ok p)
    (htype : p.header.payloadType = payloadGRP_TXT) :
    Agrees crypto key s p.payload ↔ SameVerdict crypto key s p.payloadRaw := by
  obtain ⟨w, hw⟩ := decodePacket_readPacket hdecode
  obtain ⟨f, hf, hdescribes⟩ := readPacket_accepts hw
  obtain ⟨p', hp', hheader, -, -, hraw, -⟩ := decodePacket_of_readPacket crypto [(name, keyHex)] validateSignatures hw
  obtain rfl : p' = p := Except.ok.inj (hp'.symm.trans hdecode)
  have hpayload := decodePayload_of_decodePacket hdecode (by rw [htype]; decide)
  rw [htype] at hpayload
  have hframe : (decodeHeader f.header).payloadType = 5 := by rw [← hdescribes.header, ← hheader, htype]
  have htool := readGroupText_eq crypto hf hframe hkey
  rw [← hdescribes.payload, ← hraw] at htool
  rw [Agrees, htool]
  obtain ⟨⟨hopens, hread⟩, hstatus, htime, hsender, htext⟩ | ⟨hnone, hstatus⟩ := decodeGrpTxt_ok hhex hkey hpayload
  · obtain ⟨htoolRead, hcount⟩ := (readable_iff _).mp hread
    by_cases hs : Unbroken s
    · rw [if_pos ⟨hs, hopens, htoolRead⟩]
      refine ⟨fun _ _ _ => iff_of_true hs hcount, fun _ => ⟨iff_of_true hstatus ⟨_, rfl⟩, ?_⟩⟩
      rintro r - hr
      cases hr
      rw [htime, hsender, messageOf_eq hsender htext]
    · rw [if_neg fun h => hs h.1]
      constructor
      · rintro ⟨hsame, -⟩
        obtain ⟨r, hr⟩ := hsame.mp hstatus
        cases hr
      · intro hsame
        exact absurd ((hsame hopens htoolRead).mpr hcount) hs
  · by_cases hboth : Unbroken s ∧ Holds ChannelTool.countNonPrintable crypto key p'.payloadRaw
    · rw [if_pos hboth]
      obtain ⟨hs, hopens, htoolRead⟩ := hboth
      constructor
      · rintro ⟨hsame, -⟩
        exact absurd (hsame.mpr ⟨_, rfl⟩) hstatus
      · intro hsame
        have hcount := (hsame hopens htoolRead).mp hs
        exact absurd ⟨hopens, (readable_iff _).mpr ⟨htoolRead, hcount⟩⟩ hnone
    · rw [if_neg hboth]
      constructor
      · rintro - hopens htoolRead
        refine iff_of_false (fun hs => hboth ⟨hs, hopens, htoolRead⟩) fun hcount => ?_
        exact hnone ⟨hopens, (readable_iff _).mpr ⟨htoolRead, hcount⟩⟩
      · intro _
        refine ⟨iff_of_false hstatus ?_, fun _ h => absurd h hstatus⟩
        rintro ⟨r, hr⟩
        cases hr

def constantCrypto (sum block : Bytes) (hsum : sum.length = 32) (hblock : block.length = 16) : Crypto where
  verify _ _ _ := false
  hmacSHA256 _ _ := sum
  hmac_length _ _ := hsum
  decryptBlock _ _ := block
  decryptBlock_length _ _ := hblock

def plainBlock : Bytes := [1, 0, 0, 0, 0, 0x61, 0x3A, 0x20, 0x68, 0x69, 0, 0, 0, 0, 0, 0]

def returnsBlock : Bytes := [1, 0, 0, 0, 0, 0x61, 0x0D, 0x0D, 0x0D, 0, 0, 0, 0, 0, 0, 0]

def groupText : Bytes := hexEncode (0x15 :: List.replicate 20 0)

def zeroSum : Bytes := List.replicate 32 0

def oneBlock (block : Bytes) (hblock : block.length = 16) : Crypto := constantCrypto zeroSum block rfl hblock

def zeroKey : Bytes := List.replicate 16 0

theorem agrees_iff_sameVerdict_plainBlock : ∃ p, decodePacket (oneBlock plainBlock rfl) groupText
    [([0x61], hexEncode zeroKey)] false = .ok p ∧ Agrees (oneBlock plainBlock rfl) zeroKey groupText p.payload := by
  refine ⟨_, rfl, ?_⟩
  apply (agrees_iff_sameVerdict (oneBlock plainBlock rfl) groupText [0x61] (hexEncode zeroKey) zeroKey
    (hexOf_hexEncode _) rfl false _ rfl rfl).mpr
  intro _ _
  exact iff_of_true (by decide +kernel) (by decide +kernel)

/-- The channel hash is that of the key where SHA-256 gives zeros. -/
theorem not_agrees_returnsBlock : ∃ p, decodePacket (oneBlock returnsBlock rfl) groupText
    [([0x61], hexEncode zeroKey)] false = .ok p ∧ p.header.payloadType = payloadGRP_TXT ∧
      p.payloadRaw.head? = zeroSum.head? ∧ ¬ Agrees (oneBlock returnsBlock rfl) zeroKey groupText p.payload := by
  refine ⟨_, rfl, rfl, rfl, ?_⟩
  rintro ⟨hsame, -⟩
  have htool : readGroupText (oneBlock returnsBlock rfl) zeroKey groupText = .ok (1, [], [0x61, 0x0D, 0x0D, 0x0D]) := rfl
  exact absurd (hsame.mpr ⟨_, htool⟩) (by decide)

end MeshcoreAnalyzer.ChannelTool

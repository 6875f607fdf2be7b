import MeshcoreAnalyzer.ChannelAgreement
import MeshcoreAnalyzer.ChannelKeys

namespace MeshcoreAnalyzer.ChannelAttribution

open GoBytes FrameGrammar ChannelTool ChannelKeys Layers IngestorDecoder
open MeshcoreAnalyzer.Frame hiding Payload

/-! `decodeGrpTxt` and `decodeGrpData` of cmd/ingestor/decoder.go over all the orders in which a range
visits the channel keys, and `ChannelHash` of internal/channel/channel.go. -/

def channelHash (sha256 : Bytes → Bytes) (key : Bytes) : Option UInt8 := (sha256 key).head?

def HashMatches (sha256 : Bytes → Bytes) (buf keyHex : Bytes) : Prop :=
  ∃ key, HexOf keyHex key ∧ channelHash sha256 key = buf.head?

def MacVerifies (crypto : Crypto) (buf keyHex : Bytes) : Prop :=
  ∃ key, HexOf keyHex key ∧
    (crypto.hmacSHA256 (key ++ List.replicate 16 0) (buf.drop 3)).take 2 = (buf.drop 1).take 2

/-- A decoder makes one thing of a payload, whatever the order of the keys, and it is attributed to a key
(one that yields it alone) only if the key is the right one. -/
structure Determined (decode : List (Bytes × Bytes) → Go Unit Payload) (table : KeyTable)
    (right : Bytes → Prop) : Prop where
  sameResult : ∀ l l', l.Perm table.entries → l'.Perm table.entries → decode l = decode l'
  attribution : ∀ l, l.Perm table.entries → ∀ p, decode l = .ok p → p.decryptionStatus = "decrypted" →
    ∀ e ∈ table.entries, decode [e] = .ok p → right e.2

/-- What a key makes of the payload: the block, or the message in it. -/
def blockOf (crypto : Crypto) (buf keyHex : Bytes) : Go ChannelError Bytes :=
  decryptChannelBlock crypto (hexEncode (buf.drop 3)) (hexEncode ((buf.drop 1).take 2)) keyHex

def messageOf (crypto : Crypto) (buf keyHex : Bytes) : Go ChannelError ChannelDecryptResult :=
  decryptChannelMessage crypto (hexEncode (buf.drop 3)) (hexEncode ((buf.drop 1).take 2)) keyHex

variable {ε α : Type} {crypto : Crypto} {buf keyHex : Bytes} {table : KeyTable}

theorem decodeChecked_inv {text bs : Bytes} {ok : Bytes → Bool} {e : ChannelError}
    (h : decodeChecked text ok e = .ok bs) : HexOf text bs ∧ ok bs = true := by
  refine ⟨?_, decodeChecked_ok h⟩
  rw [decodeChecked] at h
  split at h
  · next bs' hbs =>
      split at h
      · cases h
        exact (hexDecode_eq_ok _ _).mp hbs
      · cases h
  · cases h

theorem opens_of_blockOf {plain : Bytes} (h : blockOf crypto buf keyHex = .ok plain) :
    ∃ key, HexOf keyHex key ∧ Opens crypto key buf := by
  have hblock := h
  rw [blockOf, decryptChannelBlock] at h
  obtain ⟨key, hkey, h⟩ := ok_of_bind h
  obtain ⟨mac, hmac, h⟩ := ok_of_bind h
  obtain ⟨hhex, hlen⟩ := decodeChecked_inv hkey
  obtain ⟨hmachex, hmaclen⟩ := decodeChecked_inv hmac
  have hbuf : 3 ≤ buf.length := by
    have hsame := (hexOf_hexEncode ((buf.drop 1).take 2)).unique hmachex
    rw [← hsame, beq_iff_eq, List.length_take, List.length_drop] at hmaclen
    omega
  refine ⟨key, hhex, ?_⟩
  rcases decryptChannelBlock_ok crypto hhex (beq_iff_eq.mp hlen) hbuf with ⟨_, hopens⟩ | ⟨_, e, herror⟩
  · exact hopens
  · rw [blockOf, herror] at hblock
    cases hblock

theorem blockOf_of_messageOf {r : ChannelDecryptResult} (h : messageOf crypto buf keyHex = .ok r) :
    ∃ plain, blockOf crypto buf keyHex = .ok plain := by
  rw [messageOf, decryptChannelMessage] at h
  obtain ⟨plain, hplain, _⟩ := ok_of_bind h
  exact ⟨plain, hplain⟩

theorem macVerifies_of_blockOf {plain : Bytes} (h : blockOf crypto buf keyHex = .ok plain) :
    MacVerifies crypto buf keyHex := by
  obtain ⟨key, hhex, -, -, hmac⟩ := opens_of_blockOf h
  exact ⟨key, hhex, hmac⟩

def accepted (decrypt : Bytes → Go ChannelError α) (e : Bytes × Bytes) : Option (Bytes × α) :=
  match decrypt e.2 with
  | .ok result => some (e.1, result)
  | .error _ => none

theorem accepted_eq_some {decrypt : Bytes → Go ChannelError α} {e : Bytes × Bytes} {b : Bytes × α} :
    accepted decrypt e = some b ↔ decrypt e.2 = .ok b.2 ∧ e.1 = b.1 := by
  rw [accepted]
  cases decrypt e.2 with
  | ok result =>
      rw [Option.some_inj, Prod.ext_iff, Except.ok.injEq]
      exact and_comm
  | error fault => simp

theorem tryKeys_eq {decrypt : Bytes → Go ChannelError α} (h : ∀ key, Safe (decrypt key)) (l : List (Bytes × Bytes)) :
    (tryKeys decrypt l : Go ε (Option (Bytes × α))) = .ok (l.findSome? (accepted decrypt)) := by
  induction l with
  | nil => rfl
  | cons e l ih =>
      rw [tryKeys, List.findSome?_cons, accepted]
      cases hdecrypt : decrypt e.2 with
      | ok result => rfl
      | error fault =>
          cases fault with
          | err => exact ih
          | panic => exact absurd hdecrypt (h e.2)

theorem determined_iff {decode : List (Bytes × Bytes) → Go Unit Payload} {f : Bytes × Bytes → Option (Bytes × α)}
    {outcome : Nat → Option (Bytes × α) → Payload} {right : Bytes → Prop}
    (hdecode : ∀ l, decode l = .ok (outcome l.length (l.findSome? f)))
    (hcount : ∀ n m b, outcome n (some b) = outcome m (some b))
    (hstatus : ∀ n o, (outcome n o).decryptionStatus = "decrypted" ↔ o.isSome = true) :
    Determined decode table right ↔
      (∀ e ∈ table.entries, ∀ b, f e = some b → right e.2) ∧
      ∀ e ∈ table.entries, ∀ e' ∈ table.entries, ∀ b b', f e = some b → f e' = some b' →
        outcome 0 (some b) = outcome 0 (some b') := by
  have hsingle : ∀ e, decode [e] = .ok (outcome 1 (f e)) := by
    intro e
    rw [hdecode, List.findSome?_cons]
    cases f e <;> rfl
  have horder : (∀ l l', l.Perm table.entries → l'.Perm table.entries → decode l = decode l') ↔
      ∀ l l' : List (Bytes × Bytes), l.Perm table.entries → l'.Perm table.entries →
        outcome table.entries.length (l.findSome? f) = outcome table.entries.length (l'.findSome? f) := by
    apply forall₂_congr
    intro l l'
    apply forall₂_congr
    intro hl hl'
    rw [hdecode, hdecode, hl.length_eq, hl'.length_eq, Except.ok.injEq]
  constructor
  · intro h
    constructor
    · intro e he b hb
      obtain ⟨rest, hrest⟩ := exists_perm_cons he
      have hfirst : decode (e :: rest) = .ok (outcome 1 (some b)) := by
        rw [hdecode, findSome_cons_of_some hb, hcount _ 1]
      exact h.attribution _ hrest _ hfirst ((hstatus _ _).mpr rfl) e he (by rw [hsingle, hb])
    · intro e he e' he' b b' hb hb'
      rw [hcount 0 table.entries.length, hcount 0 table.entries.length]
      exact (findSome_perm_iff f _ _).mp (horder.mp h.sameResult) e he e' he' b b' hb hb'
  · rintro ⟨hright, hsame⟩
    refine ⟨horder.mpr ((findSome_perm_iff f _ _).mpr ?_), ?_⟩
    · intro e he e' he' b b' hb hb'
      rw [hcount _ 0 b, hcount _ 0 b']
      exact hsame e he e' he' b b' hb hb'
    · intro l _ p _ hp e he hone
      rw [hsingle, Except.ok.injEq] at hone
      rw [← hone, hstatus] at hp
      obtain ⟨b, hb⟩ := Option.isSome_iff_exists.mp hp
      exact hright e he b hb

theorem long_of_accepted {e : Bytes × Bytes} {b : Bytes × Bytes} (h : accepted (blockOf crypto buf) e = some b) :
    3 ≤ buf.length ∧ 10 ≤ (hexEncode (buf.drop 3)).length := by
  obtain ⟨key, -, hlong, haligned, -⟩ := opens_of_blockOf (accepted_eq_some.mp h).1
  rw [(hexOf_hexEncode _).length, List.length_drop]
  omega

theorem accepted_block_of_message {e : Bytes × Bytes} {b : Bytes × ChannelDecryptResult}
    (h : accepted (messageOf crypto buf) e = some b) :
    ∃ plain, accepted (blockOf crypto buf) e = some (e.1, plain) := by
  obtain ⟨plain, hplain⟩ := blockOf_of_messageOf (accepted_eq_some.mp h).1
  exact ⟨plain, accepted_eq_some.mpr ⟨hplain, rfl⟩⟩

theorem index_head (h : ¬ buf.length < 3) : (index buf 0 : Go ε UInt8) = .ok (buf.headD 0) := by
  cases buf with
  | nil => exact absurd (by decide) h
  | cons b rest => rfl

theorem findSome_eq_none {f : Bytes × Bytes → Option α} {P : Prop} (h : ∀ e b, f e = some b → P) (hP : ¬ P)
    (l : List (Bytes × Bytes)) : l.findSome? f = none := by
  apply List.findSome?_eq_none_iff.mpr
  intro e _
  exact Option.eq_none_iff_forall_ne_some.mpr fun b hb => hP (h e b hb)

theorem findSome_of_untried {f : Bytes × Bytes → Option α} {P Q : Prop} (h : ∀ e b, f e = some b → P ∧ Q)
    {l : List (Bytes × Bytes)} (htry : ¬ (0 < l.length ∧ Q)) : l.findSome? f = none := by
  by_cases hempty : 0 < l.length
  · exact findSome_eq_none h (fun hPQ => htry ⟨hempty, hPQ.2⟩) l
  · rw [List.length_eq_zero_iff.mp (Nat.eq_zero_of_not_pos hempty)]
    rfl

def sealed (typeName : String) (buf : Bytes) (keys : Nat) : Payload :=
  if buf.length < 3 then { toPayload := shortPayload typeName "too short" buf }
  else
    { type := typeName, channelHash := (buf.headD 0).toNat, channelHashHex := upperHex [buf.headD 0],
      decryptionStatus := if 0 < keys ∧ 10 ≤ (hexEncode (buf.drop 3)).length then "decryption_failed" else "no_key",
      mac := hexEncode ((buf.drop 1).take 2), encryptedData := hexEncode (buf.drop 3) }

theorem sealed_not_decrypted (typeName : String) (buf : Bytes) (keys : Nat) :
    (sealed typeName buf keys).decryptionStatus ≠ "decrypted" := by
  rw [sealed]
  split
  · exact (by decide : ("" : String) ≠ "decrypted")
  · dsimp only
    split <;> decide

def textPayload (buf : Bytes) (keys : Nat) : Option (Bytes × ChannelDecryptResult) → Payload
  | some (name, result) =>
      { type := "CHAN", channel := normalizeChannelName name, channelHash := (buf.headD 0).toNat,
        channelHashHex := upperHex [buf.headD 0], decryptionStatus := "decrypted", sender := result.sender,
        text := if result.sender ≠ [] ∧ result.message ≠ [] then result.sender ++ [0x3A, 0x20] ++ result.message
          else result.message
        senderTimestamp := result.timestamp }
  | none => sealed "GRP_TXT" buf keys

theorem decodeGrpTxt_eq (crypto : Crypto) (buf : Bytes) (l : List (Bytes × Bytes)) :
    (decodeGrpTxt crypto buf l : Go ε Payload) =
      .ok (textPayload buf l.length (l.findSome? (accepted (messageOf crypto buf)))) := by
  have hlong : ∀ e b, accepted (messageOf crypto buf) e = some b →
      3 ≤ buf.length ∧ 10 ≤ (hexEncode (buf.drop 3)).length := by
    intro e b h
    obtain ⟨plain, hplain⟩ := accepted_block_of_message h
    exact long_of_accepted hplain
  rw [decodeGrpTxt]
  by_cases hshort : buf.length < 3
  · have hnone := findSome_eq_none hlong (fun h => absurd h.1 (by omega)) l
    rw [if_pos hshort, hnone, textPayload, sealed, if_pos hshort]
    rfl
  · rw [if_neg hshort, index_head hshort, ok_bind, slice_ok (by omega) (by omega), ok_bind, mac_eq,
      sliceFrom_ok (by omega), ok_bind]
    dsimp only
    by_cases htry : 0 < l.length ∧ 10 ≤ (hexEncode (buf.drop 3)).length
    · have hkeys := tryKeys_eq (ε := ε) (decryptChannelMessage_safe crypto (hexEncode (buf.drop 3))
        (hexEncode ((buf.drop 1).take 2))) l
      rw [if_pos htry, hkeys, ok_bind]
      have haccepted : accepted (decryptChannelMessage crypto (hexEncode (buf.drop 3))
          (hexEncode ((buf.drop 1).take 2))) = accepted (messageOf crypto buf) := rfl
      rw [haccepted]
      cases l.findSome? (accepted (messageOf crypto buf)) with
      | some b => rfl
      | none =>
          rw [textPayload, sealed, if_neg hshort, if_pos htry]
          rfl
    · rw [if_neg htry, findSome_of_untried hlong htry, textPayload, sealed, if_neg hshort, if_neg htry]
      rfl

def le16 : Bytes → Nat
  | b0 :: b1 :: _ => b0.toNat + 256 * b1.toNat
  | _ => 0

def innerPayload (buf name plain : Bytes) : Payload :=
  let p : Payload := { type := "GRP_DATA", channel := name, channelHash := (buf.headD 0).toNat,
                       channelHashHex := upperHex [buf.headD 0], decryptionStatus := "decrypted" }
  if plain.length < 3 then { p with error := "inner too short" }
  else
    let dataLen := ((plain.drop 2).headD 0).toNat
    let p := { p with dataType := some (le16 plain), dataLen := some dataLen }
    if plain.length < 3 + dataLen then { p with error := "inner data_len exceeds buffer" }
    else { p with decryptedBlob := hexEncode ((plain.take (3 + dataLen)).drop 3) }

def dataPayload (buf : Bytes) (keys : Nat) : Option (Bytes × Bytes) → Payload
  | some (name, plain) => innerPayload buf name plain
  | none => sealed "GRP_DATA" buf keys

theorem innerPayload_names (buf name plain : Bytes) :
    (innerPayload buf name plain).channel = name ∧ (innerPayload buf name plain).decryptionStatus = "decrypted" := by
  rw [innerPayload]
  dsimp only
  split
  · exact ⟨rfl, rfl⟩
  · split <;> exact ⟨rfl, rfl⟩

theorem uint16_take {plain : Bytes} (h : 3 ≤ plain.length) : (uint16 (plain.take 2) : Go ε Nat) = .ok (le16 plain) := by
  match plain, h with
  | _ :: _ :: _, _ => rfl

theorem index_third {plain : Bytes} (h : 3 ≤ plain.length) :
    (index plain 2 : Go ε UInt8) = .ok ((plain.drop 2).headD 0) := by
  match plain, h with
  | _ :: _ :: _ :: _, _ => rfl

theorem decodeGrpData_eq (crypto : Crypto) (buf : Bytes) (l : List (Bytes × Bytes)) :
    (decodeGrpData crypto buf l : Go ε Payload) =
      .ok (dataPayload buf l.length (l.findSome? (accepted (blockOf crypto buf)))) := by
  have hlong : ∀ e b, accepted (blockOf crypto buf) e = some b →
      3 ≤ buf.length ∧ 10 ≤ (hexEncode (buf.drop 3)).length := fun _ _ => long_of_accepted
  rw [decodeGrpData]
  by_cases hshort : buf.length < 3
  · have hnone := findSome_eq_none hlong (fun h => absurd h.1 (by omega)) l
    rw [if_pos hshort, hnone, dataPayload, sealed, if_pos hshort]
    rfl
  · rw [if_neg hshort, index_head hshort, ok_bind, slice_ok (by omega) (by omega), ok_bind, mac_eq,
      sliceFrom_ok (by omega), ok_bind]
    dsimp only
    by_cases htry : 0 < l.length ∧ 10 ≤ (hexEncode (buf.drop 3)).length
    · have hkeys := tryKeys_eq (ε := ε) (decryptChannelBlock_safe crypto (hexEncode (buf.drop 3))
        (hexEncode ((buf.drop 1).take 2))) l
      rw [if_pos htry, hkeys, ok_bind]
      have haccepted : accepted (decryptChannelBlock crypto (hexEncode (buf.drop 3))
          (hexEncode ((buf.drop 1).take 2))) = accepted (blockOf crypto buf) := rfl
      rw [haccepted]
      cases l.findSome? (accepted (blockOf crypto buf)) with
      | some b =>
          rw [dataPayload, innerPayload]
          dsimp only
          split
          · rfl
          · next hplain =>
              rw [slice_ok (by omega) (by omega), ok_bind, List.drop_zero, uint16_take (by omega), ok_bind,
                index_third (by omega), ok_bind]
              split
              · rfl
              · rw [slice_ok (by omega) (by omega), ok_bind]
                rfl
      | none =>
          rw [dataPayload, sealed, if_neg hshort, if_pos htry]
          rfl
    · rw [if_neg htry, findSome_of_untried hlong htry, dataPayload, sealed, if_neg hshort,
        if_neg htry]
      rfl

/-- The key is that of a channel with the payload's hash byte, and its MAC verifies. -/
def Right (sha256 : Bytes → Bytes) (crypto : Crypto) (buf keyHex : Bytes) : Prop :=
  HashMatches sha256 buf keyHex ∧ MacVerifies crypto buf keyHex

theorem message_eq {sender m m' : Bytes} (h : (if sender ≠ [] ∧ m ≠ [] then sender ++ [0x3A, 0x20] ++ m else m) =
    if sender ≠ [] ∧ m' ≠ [] then sender ++ [0x3A, 0x20] ++ m' else m') : m = m' := by
  by_cases hsender : sender = []
  · rwa [if_neg fun hc => hc.1 hsender, if_neg fun hc => hc.1 hsender] at h
  · have hlong : ∀ n : Bytes, sender ++ [0x3A, 0x20] ++ n ≠ [] := by simp
    by_cases hm : m = []
    · subst hm
      by_cases hm' : m' = []
      · exact hm'.symm
      · rw [if_neg fun hc => hc.2 rfl, if_pos ⟨hsender, hm'⟩] at h
        exact absurd h.symm (hlong m')
    · by_cases hm' : m' = []
      · subst hm'
        rw [if_pos ⟨hsender, hm⟩, if_neg fun hc => hc.2 rfl] at h
        exact absurd h (hlong m)
      · rw [if_pos ⟨hsender, hm⟩, if_pos ⟨hsender, hm'⟩] at h
        exact List.append_cancel_left h

theorem textPayload_inj {b b' : Bytes × ChannelDecryptResult} :
    textPayload buf 0 (some b) = textPayload buf 0 (some b') ↔
    normalizeChannelName b.1 = normalizeChannelName b'.1 ∧ b.2.timestamp = b'.2.timestamp ∧ b.2.sender = b'.2.sender ∧
      b.2.message = b'.2.message := by
  constructor
  · intro h
    have hsender : b.2.sender = b'.2.sender := congrArg Payload.sender h
    have htext := congrArg Payload.text h
    rw [textPayload, textPayload] at htext
    dsimp only at htext
    rw [← hsender] at htext
    exact ⟨congrArg Payload.channel h, congrArg Payload.senderTimestamp h, hsender, message_eq htext⟩
  · rintro ⟨hname, htime, hsender, hmessage⟩
    rw [textPayload, textPayload, hname, htime, hsender, hmessage]

theorem forall_accepted {decrypt : Bytes → Go ChannelError α} {P : Bytes × Bytes → Bytes × α → Prop} :
    (∀ e ∈ table.entries, ∀ b, accepted decrypt e = some b → P e b) ↔
      ∀ e ∈ table.entries, ∀ r, decrypt e.2 = .ok r → P e (e.1, r) := by
  constructor
  · intro h e he r hr
    exact h e he (e.1, r) (accepted_eq_some.mpr ⟨hr, rfl⟩)
  · intro h e he b hb
    obtain ⟨hr, hname⟩ := accepted_eq_some.mp hb
    have hb' : b = (e.1, b.2) := Prod.ext hname.symm rfl
    rw [hb']
    exact h e he b.2 hr

theorem determined_text (sha256 : Bytes → Bytes) (crypto : Crypto) (buf : Bytes) (table : KeyTable) :
    Determined (decodeGrpTxt crypto buf) table (Right sha256 crypto buf) ↔
      (∀ e ∈ table.entries, ∀ r, messageOf crypto buf e.2 = .ok r → HashMatches sha256 buf e.2) ∧
      ∀ e ∈ table.entries, ∀ e' ∈ table.entries, ∀ r r', messageOf crypto buf e.2 = .ok r →
        messageOf crypto buf e'.2 = .ok r' → normalizeChannelName e.1 = normalizeChannelName e'.1 ∧
          r.timestamp = r'.timestamp ∧ r.sender = r'.sender ∧ r.message = r'.message := by
  rw [determined_iff (decodeGrpTxt_eq crypto buf) (fun _ _ _ => rfl)]
  · apply and_congr
    · rw [forall_accepted]
      apply forall₂_congr
      intro e _
      apply forall₂_congr
      intro r hr
      obtain ⟨plain, hplain⟩ := blockOf_of_messageOf hr
      exact and_iff_left (macVerifies_of_blockOf hplain)
    · constructor
      · intro h e he e' he' r r' hr hr'
        exact textPayload_inj.mp (h e he e' he' (e.1, r) (e'.1, r') (accepted_eq_some.mpr ⟨hr, rfl⟩)
          (accepted_eq_some.mpr ⟨hr', rfl⟩))
      · intro h e he e' he' b b' hb hb'
        obtain ⟨hr, hname⟩ := accepted_eq_some.mp hb
        obtain ⟨hr', hname'⟩ := accepted_eq_some.mp hb'
        rw [textPayload_inj, ← hname, ← hname']
        exact h e he e' he' b.2 b'.2 hr hr'
  · intro n o
    cases o with
    | none => exact iff_of_false (sealed_not_decrypted _ _ _) (by decide)
    | some b => exact iff_of_true rfl rfl

theorem determined_data (sha256 : Bytes → Bytes) (crypto : Crypto) (buf : Bytes) (table : KeyTable) :
    Determined (decodeGrpData crypto buf) table (Right sha256 crypto buf) ↔
      (∀ e ∈ table.entries, ∀ plain, blockOf crypto buf e.2 = .ok plain → HashMatches sha256 buf e.2) ∧
      ∀ e ∈ table.entries, ∀ e' ∈ table.entries, ∀ plain plain', blockOf crypto buf e.2 = .ok plain →
        blockOf crypto buf e'.2 = .ok plain' → e = e' := by
  rw [determined_iff (decodeGrpData_eq crypto buf) (fun _ _ _ => rfl)]
  · apply and_congr
    · rw [forall_accepted]
      apply forall₂_congr
      intro e _
      apply forall₂_congr
      intro plain hplain
      exact and_iff_left (macVerifies_of_blockOf hplain)
    · constructor
      · intro h e he e' he' plain plain' hplain hplain'
        have hsame := h e he e' he' (e.1, plain) (e'.1, plain') (accepted_eq_some.mpr ⟨hplain, rfl⟩)
          (accepted_eq_some.mpr ⟨hplain', rfl⟩)
        have hname := congrArg Payload.channel hsame
        rw [dataPayload, dataPayload, (innerPayload_names _ _ _).1, (innerPayload_names _ _ _).1] at hname
        exact List.inj_on_of_nodup_map table.nodup he he' hname
      · intro h e he e' he' b b' hb hb'
        have hsame : e = e' := h e he e' he' b.2 b'.2 (accepted_eq_some.mp hb).1 (accepted_eq_some.mp hb').1
        rw [hsame, hb', Option.some_inj] at hb
        rw [hb]
  · intro n o
    cases o with
    | none => exact iff_of_false (sealed_not_decrypted _ _ _) (by decide)
    | some b => exact iff_of_true (innerPayload_names _ _ _).2 rfl

/-- A group payload determines its channel exactly when every key that decrypts it has its hash byte, and all of
them give one text under one channel name; for group data, when no second key decrypts it. -/
theorem attribution_iff (sha256 : Bytes → Bytes) (crypto : Crypto) (buf : Bytes) (table : KeyTable) :
    (Determined (decodeGrpTxt crypto buf) table (Right sha256 crypto buf) ↔
      (∀ e ∈ table.entries, ∀ r, messageOf crypto buf e.2 = .ok r → HashMatches sha256 buf e.2) ∧
      ∀ e ∈ table.entries, ∀ e' ∈ table.entries, ∀ r r', messageOf crypto buf e.2 = .ok r →
        messageOf crypto buf e'.2 = .ok r' → normalizeChannelName e.1 = normalizeChannelName e'.1 ∧
          r.timestamp = r'.timestamp ∧ r.sender = r'.sender ∧ r.message = r'.message) ∧
    (Determined (decodeGrpData crypto buf) table (Right sha256 crypto buf) ↔
      (∀ e ∈ table.entries, ∀ plain, blockOf crypto buf e.2 = .ok plain → HashMatches sha256 buf e.2) ∧
      ∀ e ∈ table.entries, ∀ e' ∈ table.entries, ∀ plain plain', blockOf crypto buf e.2 = .ok plain →
        blockOf crypto buf e'.2 = .ok plain' → e = e') :=
  ⟨determined_text sha256 crypto buf table, determined_data sha256 crypto buf table⟩

/-- The sum of everything is zeros, and every block decrypts to "a: hi". -/
def openCrypto : Crypto := oneBlock plainBlock rfl

def zeroKeyHex : Bytes := List.replicate 32 0x30

def twoNames : KeyTable := ⟨[([0x61], zeroKeyHex), ([0x62], zeroKeyHex)], by decide⟩

def foreignPayload : Bytes := 1 :: List.replicate 18 0

/-- The key decrypts a payload with a hash byte that is not its own, and the channel is the one whose key
comes first. -/
theorem foreign_payload_attributed :
    ¬ Determined (decodeGrpTxt openCrypto foreignPayload) twoNames
      (Right (fun _ => zeroSum) openCrypto foreignPayload) ∧
    (decodeGrpTxt openCrypto foreignPayload twoNames.entries : Go Unit Payload) ≠
      decodeGrpTxt openCrypto foreignPayload twoNames.entries.reverse := by
  obtain ⟨p, hp, hstatus, hchannel⟩ : ∃ p, (decodeGrpTxt openCrypto foreignPayload twoNames.entries : Go Unit Payload) =
      .ok p ∧ p.decryptionStatus = "decrypted" ∧ p.channel = [0x61] := ⟨_, rfl, rfl, rfl⟩
  obtain ⟨q, hq, hchannel'⟩ : ∃ q, (decodeGrpTxt openCrypto foreignPayload twoNames.entries.reverse : Go Unit Payload) =
      .ok q ∧ q.channel = [0x62] := ⟨_, rfl, rfl⟩
  constructor
  · intro h
    have hfirst : decodeGrpTxt openCrypto foreignPayload [([0x61], zeroKeyHex)] = .ok p := hp
    obtain ⟨⟨key, -, hhash⟩, -⟩ := h.attribution _ (.refl _) p hp hstatus _ List.mem_cons_self hfirst
    have hbytes : some (0 : UInt8) = some 1 := hhash
    exact absurd hbytes (by decide)
  · intro h
    rw [hp, hq, Except.ok.injEq] at h
    rw [h, hchannel'] at hchannel
    exact absurd hchannel (by decide)

end MeshcoreAnalyzer.ChannelAttribution

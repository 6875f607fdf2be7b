import MeshcoreAnalyzer.ChannelAgreement
import MeshcoreAnalyzer.TextDecoding

namespace MeshcoreAnalyzer.BrowserChannel

open GoBytes hiding indexOf
open Runes TextDecoding MeshcoreAnalyzer.Frame
open ChannelTool (ecb le32 textOf senderOf)

/-! Channel messages in the browser, public/channel-decrypt.js, and its AES core, public/vendor/aes-ecb.js. A string
is the list of its code units. -/

def toInt32 (n : Int) : BitVec 32 := BitVec.ofInt 32 n

/-- `a | b` -/
def bitOr (a b : Int) : Int := (toInt32 a ||| toInt32 b).toInt

/-- `a << k` -/
def shiftLeft (a : Int) (k : Nat) : Int := (toInt32 a <<< k).toInt

/-- `a >>> k` -/
def shiftRightUnsigned (a : Int) (k : Nat) : Int := ((toInt32 a) >>> k).toNat

def toUint32 (n : Int) : Nat := (toInt32 n).toNat

def isSpace (c : UInt8) : Bool := (9 ≤ c && c ≤ 13) || c = 0x20 || c = 0xA0

def leadingDigits : Bytes → List Nat
  | [] => []
  | c :: s =>
      match hexVal c with
      | some a => a :: leadingDigits s
      | none => []

/-- `parseInt(s, 16)`: the number ends where there is no digit, and without any it is no number. -/
def parseInt16 (s : Bytes) : Option Int :=
  let trimmed := s.dropWhile isSpace
  let sign : Int := if trimmed.head? = some 0x2D then -1 else 1
  let unsigned := if trimmed.head? = some 0x2D ∨ trimmed.head? = some 0x2B then trimmed.tail else trimmed
  let bare := if unsigned.take 2 = [0x30, 0x78] ∨ unsigned.take 2 = [0x30, 0x58] then unsigned.drop 2 else unsigned
  if leadingDigits bare = [] then none else some (sign * ((leadingDigits bare).foldl (fun n a => 16 * n + a) 0 : Nat))

def toUint8 (n : Option Int) : UInt8 := UInt8.ofNat ((n.getD 0) % 256).toNat

def hexToBytes : Bytes → Bytes
  | p :: q :: hex => toUint8 (parseInt16 [p, q]) :: hexToBytes hex
  | _ => []

/-- `AES_ECB.decrypt` -/
def aesDecrypt (crypto : Crypto) (key ciphertext : Bytes) : Bytes :=
  (List.range (ciphertext.length / 16)).flatMap fun i => crypto.decryptBlock key ((ciphertext.drop (16 * i)).take 16)

def decryptECB (crypto : Crypto) (key ciphertext : Bytes) : Option Bytes :=
  if ciphertext.length = 0 ∨ ciphertext.length % 16 ≠ 0 then none else some (aesDecrypt crypto key ciphertext)

def verifyMAC (crypto : Crypto) (key ciphertext macHex : Bytes) : Bool :=
  let secret := key ++ List.replicate (32 - key.length) 0
  let macBytes := hexToBytes macHex
  let sigBytes := crypto.hmacSHA256 secret ciphertext
  sigBytes[0]? = macBytes[0]? && sigBytes[1]? = macBytes[1]?

def nonPrintable (code : Nat) : Bool := code < 32 && code != 10 && code != 13 && code != 9

/-- The "sender: message" form of a text, which is the text of `ParsePlaintext` again, over code units. -/
def splitText {A : Type} [DecidableEq A] (char : Nat → A) (text : List A) : List A × List A :=
  match indexOf [char 0x3A, char 0x20] text with
  | some colonIdx =>
      if (0 < colonIdx ∧ colonIdx < 50) ∧
          ¬ ((text.take colonIdx).any fun c => c = char 0x3A || c = char 0x5B || c = char 0x5D) then
        (text.take colonIdx, text.drop (colonIdx + 2))
      else ([], text)
  | none => ([], text)

structure Message where
  timestamp : Int
  flags : Nat
  sender : List Nat
  message : List Nat

def timestamp (b0 b1 b2 b3 : UInt8) : Int :=
  bitOr (bitOr (bitOr b0.toNat (shiftLeft b1.toNat 8)) (shiftLeft b2.toNat 16))
    (shiftRightUnsigned (shiftLeft b3.toNat 24) 0)

def parsePlaintext : Bytes → Option Message
  | b0 :: b1 :: b2 :: b3 :: flags :: textBytes =>
      let text := (decodeText (textBytes.takeWhile (· != 0))).flatMap utf16
      if 2 < text.countP nonPrintable then none
      else
        let (sender, message) := splitText id text
        some { timestamp := timestamp b0 b1 b2 b3, flags := flags.toNat, sender, message }
  | _ => none

def decrypt (crypto : Crypto) (keyBytes macHex encryptedHex : Bytes) : Option Message :=
  let ciphertext := hexToBytes encryptedHex
  if ciphertext.length = 0 ∨ ciphertext.length % 16 ≠ 0 then none
  else if verifyMAC crypto keyBytes ciphertext macHex then (decryptECB crypto keyBytes ciphertext).bind parsePlaintext
  else none

/-- `Decrypt` and `ParsePlaintext` of internal/channel. -/
def channelRead (crypto : Crypto) (key mac ciphertext : Bytes) : Option (Nat × Bytes × Bytes) :=
  match (ChannelTool.decrypt crypto key mac ciphertext : Go Unit (Option Bytes)) with
  | .ok (some plaintext) =>
      match ChannelTool.parsePlaintext plaintext with
      | .ok r => some r
      | .error _ => none
  | _ => none

def units (s : Bytes) : List Nat := (runes s).flatMap utf16

/-- The two have the same outcome; `number` compares the timestamps. -/
def Same (number : Int → Nat → Prop) : Option Message → Option (Nat × Bytes × Bytes) → Prop
  | some m, some (timestamp, sender, message) =>
      number m.timestamp timestamp ∧ m.sender = units sender ∧ m.message = units message
  | none, none => True
  | _, _ => False

def Verified (crypto : Crypto) (key mac ciphertext : Bytes) : Prop :=
  (ciphertext.length ≠ 0 ∧ ciphertext.length % 16 = 0) ∧
    (crypto.hmacSHA256 (key ++ List.replicate 16 0) ciphertext).take 2 = mac

instance (crypto : Crypto) (key mac ciphertext : Bytes) : Decidable (Verified crypto key mac ciphertext) := by
  unfold Verified; infer_instance

/-- The first ": " of the text is behind a name that has fewer than 50 code units but not fewer than 50 bytes. -/
def LongSender (text : Bytes) : Prop :=
  ∃ i, indexOf [0x3A, 0x20] (runes text) = some i ∧ 50 ≤ (((runes text).take i).flatMap encodeRune).length ∧
    (((runes text).take i).flatMap utf16).length < 50 ∧
    ∀ c ∈ (runes text).take i, c ≠ 0x3A ∧ c ≠ 0x5B ∧ c ≠ 0x5D

/-- The text is valid, it does not begin with a byte order mark, and its sender is short for both. -/
structure ReadAlike (text : Bytes) : Prop where
  valid : validString text
  unmarked : (runes text).head? ≠ some 0xFEFF
  sender : ¬ LongSender text

theorem toInt32_toInt (x : BitVec 32) : toInt32 x.toInt = x := BitVec.ofInt_toInt

theorem toInt32_toNat (x : BitVec 32) : toInt32 x.toNat = x := by
  rw [toInt32, BitVec.ofInt_natCast, BitVec.ofNat_toNat, BitVec.setWidth_eq]

theorem toNat_byte (b : UInt8) (k : Nat) (hk : k ≤ 24) : (toInt32 b.toNat <<< k).toNat = b.toNat * 2 ^ k := by
  have hb := b.toNat_lt
  have hpow : 2 ^ k ≤ 2 ^ 24 := Nat.pow_le_pow_right (by decide) hk
  have hlt : b.toNat * 2 ^ k < 2 ^ 32 := by
    calc b.toNat * 2 ^ k ≤ b.toNat * 2 ^ 24 := Nat.mul_le_mul_left _ hpow
      _ < 2 ^ 32 := by omega
  rw [toInt32, BitVec.ofInt_natCast, BitVec.toNat_shiftLeft, BitVec.toNat_ofNat, Nat.shiftLeft_eq,
    Nat.mod_eq_of_lt (show b.toNat < 2 ^ 32 by omega), Nat.mod_eq_of_lt hlt]

theorem or_byte {n : Nat} (b k : Nat) (hn : n < 2 ^ k) : n ||| b * 2 ^ k = n + b * 2 ^ k := by
  rw [Nat.or_comm, Nat.mul_comm, ← Nat.two_pow_add_eq_or_of_lt hn, Nat.add_comm]

theorem toInt32_timestamp (b0 b1 b2 b3 : UInt8) : (toInt32 (timestamp b0 b1 b2 b3)).toNat =
    b0.toNat + 256 * b1.toNat + 65536 * b2.toNat + 16777216 * b3.toNat := by
  have h0 := b0.toNat_lt
  have h1 := b1.toNat_lt
  have h2 := b2.toNat_lt
  have h3 := toNat_byte b0 0 (by decide)
  rw [BitVec.shiftLeft_zero] at h3
  simp only [timestamp, bitOr, shiftLeft, shiftRightUnsigned, toInt32_toInt, toInt32_toNat, BitVec.toNat_or,
    BitVec.ushiftRight_zero]
  rw [toNat_byte b1 8 (by decide), toNat_byte b2 16 (by decide), toNat_byte b3 24 (by decide), h3]
  rw [Nat.pow_zero, Nat.mul_one, or_byte _ 8 (by omega), or_byte _ 16 (by omega), or_byte _ 24 (by omega)]
  omega

theorem timestamp_eq_iff (b0 b1 b2 b3 : UInt8) : timestamp b0 b1 b2 b3 =
    (b0.toNat + 256 * b1.toNat + 65536 * b2.toNat + 16777216 * b3.toNat : Nat) ↔ b3.toNat < 128 := by
  have hsigned : timestamp b0 b1 b2 b3 = (toInt32 (timestamp b0 b1 b2 b3)).toInt := by
    conv_rhs => rw [timestamp, bitOr, toInt32_toInt]
    rfl
  have h0 := b0.toNat_lt
  have h1 := b1.toNat_lt
  have h2 := b2.toNat_lt
  rw [hsigned, BitVec.toInt_eq_toNat_cond, toInt32_timestamp]
  split <;> omega

section Split

variable {A : Type} [DecidableEq A] {char : Nat → A} {enc : Nat → List A} {l : List Nat}

omit [DecidableEq A] in
theorem avoids_iff {x y z : A} {s : List A} : (∀ c ∈ s, c ≠ x ∧ c ≠ y ∧ c ≠ z) ↔ x ∉ s ∧ y ∉ s ∧ z ∉ s := by
  constructor
  · intro h
    exact ⟨fun hx => (h x hx).1 rfl, fun hy => (h y hy).2.1 rfl, fun hz => (h z hz).2.2 rfl⟩
  · rintro ⟨hx, hy, hz⟩ c hc
    refine ⟨?_, ?_, ?_⟩ <;> rintro rfl <;> contradiction

theorem splitText_flatMap (h : Transparent char enc l) : splitText char (l.flatMap enc) =
    match indexOf [0x3A, 0x20] l with
    | some i =>
        if (0 < ((l.take i).flatMap enc).length ∧ ((l.take i).flatMap enc).length < 50) ∧
            ∀ c ∈ l.take i, c ≠ 0x3A ∧ c ≠ 0x5B ∧ c ≠ 0x5D then
          ((l.take i).flatMap enc, (l.drop (i + 2)).flatMap enc)
        else ([], l.flatMap enc)
    | none => ([], l.flatMap enc) := by
  rw [splitText, h.indexOf (by decide) (by decide)]
  cases hi : indexOf [0x3A, 0x20] l with
  | none => rfl
  | some i =>
      have hl := split_of_indexOf hi
      have hpre : Transparent char enc (l.take i) :=
        ⟨h.ascii, fun r hr => h.ne_nil r (List.mem_of_mem_take hr),
          fun c hc r hr => h.eq_of_mem c hc r (List.mem_of_mem_take hr)⟩
      have hencoded : l.flatMap enc =
          (l.take i).flatMap enc ++ ([char 0x3A, char 0x20] ++ (l.drop (i + 2)).flatMap enc) := by
        conv_lhs => rw [hl, List.flatMap_append, List.flatMap_cons, List.flatMap_cons, h.ascii 0x3A (by decide),
          h.ascii 0x20 (by decide)]
        rfl
      have htake : (l.flatMap enc).take ((l.take i).flatMap enc).length = (l.take i).flatMap enc := by
        rw [hencoded, List.take_left]
      have hdrop : (l.flatMap enc).drop (((l.take i).flatMap enc).length + 2) = (l.drop (i + 2)).flatMap enc := by
        rw [hencoded, ← List.drop_drop, List.drop_left]
        rfl
      have hclean : ¬ ((l.take i).flatMap enc).any (fun c => c = char 0x3A || c = char 0x5B || c = char 0x5D) ↔
          ∀ c ∈ l.take i, c ≠ 0x3A ∧ c ≠ 0x5B ∧ c ≠ 0x5D := by
        rw [List.any_eq_true, avoids_iff, ← hpre.mem_iff (c := 0x3A) (by decide),
          ← hpre.mem_iff (c := 0x5B) (by decide), ← hpre.mem_iff (c := 0x5D) (by decide), ← avoids_iff]
        simp only [Bool.or_eq_true, decide_eq_true_eq, not_exists, not_and, not_or, and_assoc]
      simp only [Option.map_some, htake, hdrop, hclean]

end Split

theorem senderOf_eq (text : Bytes) : senderOf text = splitText UInt8.ofNat text := by
  rw [senderOf, IngestorDecoder.splitSender, splitText, indexOf_bytes]
  cases hi : indexOf [0x3A, 0x20] text with
  | none => rfl
  | some i =>
      have hle := indexOf_le ((indexOf_bytes _ _).trans hi)
      simp only [List.length_cons, List.length_nil] at hle
      dsimp only
      by_cases hshort : 0 < i ∧ i < 50
      · rw [if_pos hshort, slice_ok (by omega) (by omega), sliceFrom_ok (by omega), List.drop_zero]
        by_cases hclean : (text.take i).any fun c => c == 0x3A || c == 0x5B || c == 0x5D
        · rw [if_neg fun h => h.2 hclean]
          simp only [bind, Except.bind]
          rw [if_pos hclean]
          rfl
        · rw [if_pos ⟨hshort, hclean⟩]
          simp only [bind, Except.bind]
          rw [if_neg hclean]
          rfl
      · rw [if_neg hshort, if_neg fun h => hshort h.1]
        rfl

theorem units_nil : units [] = [] := rfl

theorem units_encoded {l : List Nat} (h : ∀ r ∈ l, Scalar r) : units (l.flatMap encodeRune) = l.flatMap utf16 := by
  have hrunes := runes_encoded h []
  rw [List.append_nil] at hrunes
  rw [units, hrunes]
  exact congrArg (List.flatMap utf16) (List.append_nil l)

theorem length_flatMap_utf16_le {l : List Nat} (h : ∀ r ∈ l, Scalar r) :
    (l.flatMap utf16).length ≤ (l.flatMap encodeRune).length := by
  induction l with
  | nil => exact le_rfl
  | cons r l ih =>
      obtain ⟨hr, hl⟩ := List.forall_mem_cons.mp h
      rw [List.flatMap_cons, List.flatMap_cons, List.length_append, List.length_append]
      exact Nat.add_le_add (length_utf16_le hr) (ih hl)

theorem length_flatMap_pos {A : Type} {enc : Nat → List A} {l : List Nat} (h : ∀ r ∈ l, enc r ≠ []) :
    0 < (l.flatMap enc).length ↔ l ≠ [] := by
  cases l with
  | nil => simp
  | cons r l =>
      have hr := List.length_pos_iff.mpr (h r List.mem_cons_self)
      rw [List.flatMap_cons, List.length_append]
      exact iff_of_true (by omega) (List.cons_ne_nil r l)

theorem splitText_units_iff {l : List Nat} (h : ∀ r ∈ l, Scalar r) :
    (splitText id (l.flatMap utf16)).1 = units (senderOf (l.flatMap encodeRune)).1 ∧
      (splitText id (l.flatMap utf16)).2 = units (senderOf (l.flatMap encodeRune)).2 ↔
    ¬ LongSender (l.flatMap encodeRune) := by
  have hrunes := runes_encoded h []
  rw [List.append_nil] at hrunes
  have hl : runes (l.flatMap encodeRune) = l := hrunes.trans (List.append_nil l)
  rw [senderOf_eq, splitText_flatMap (transparent_utf16 l), splitText_flatMap (transparent_encodeRune h), LongSender,
    hl]
  cases hi : indexOf [0x3A, 0x20] l with
  | none =>
      refine iff_of_true ⟨rfl, (units_encoded h).symm⟩ ?_
      rintro ⟨i, hi', -⟩
      cases hi'
  | some i =>
      have htake : ∀ r ∈ l.take i, Scalar r := fun r hr => h r (List.mem_of_mem_take hr)
      have hdrop : ∀ r ∈ l.drop (i + 2), Scalar r := fun r hr => h r (List.mem_of_mem_drop hr)
      have hle := length_flatMap_utf16_le htake
      have hpos := (length_flatMap_pos fun r (_ : r ∈ l.take i) => utf16_ne_nil r).trans
        (length_flatMap_pos fun r (_ : r ∈ l.take i) => encodeRune_ne_nil r).symm
      dsimp only
      by_cases hclean : ∀ c ∈ l.take i, c ≠ 0x3A ∧ c ≠ 0x5B ∧ c ≠ 0x5D
      · by_cases hbytes : ((l.take i).flatMap encodeRune).length < 50
        · -- both find the sender, unless it is empty
          have hno : ¬ ∃ j, some i = some j ∧ 50 ≤ ((l.take j).flatMap encodeRune).length ∧
              ((l.take j).flatMap utf16).length < 50 ∧ ∀ c ∈ l.take j, c ≠ 0x3A ∧ c ≠ 0x5B ∧ c ≠ 0x5D := by
            rintro ⟨j, hj, hlong, -⟩
            cases hj
            omega
          refine iff_of_true ?_ hno
          by_cases hempty : 0 < ((l.take i).flatMap encodeRune).length
          · rw [if_pos ⟨⟨hpos.mpr hempty, by omega⟩, hclean⟩, if_pos ⟨⟨hempty, hbytes⟩, hclean⟩]
            exact ⟨(units_encoded htake).symm, (units_encoded hdrop).symm⟩
          · rw [if_neg fun hs => hempty (hpos.mp hs.1.1), if_neg fun hs => hempty hs.1.1]
            exact ⟨rfl, (units_encoded h).symm⟩
        · have hgo : ¬ ((0 < ((l.take i).flatMap encodeRune).length ∧ ((l.take i).flatMap encodeRune).length < 50) ∧
              ∀ c ∈ l.take i, c ≠ 0x3A ∧ c ≠ 0x5B ∧ c ≠ 0x5D) := fun hs => hbytes hs.1.2
          rw [if_neg hgo]
          by_cases hunits : ((l.take i).flatMap utf16).length < 50
          · have hsome := hpos.mpr (show 0 < ((l.take i).flatMap encodeRune).length by omega)
            rw [if_pos ⟨⟨hsome, hunits⟩, hclean⟩]
            refine iff_of_false (fun hs => ?_) (not_not.mpr ⟨i, rfl, by omega, hunits, hclean⟩)
            rw [units_nil] at hs
            have hnil : (l.take i).flatMap utf16 = [] := hs.1
            rw [hnil] at hsome
            exact Nat.lt_irrefl 0 hsome
          · rw [if_neg fun hs => hunits hs.1.2]
            refine iff_of_true ⟨rfl, (units_encoded h).symm⟩ ?_
            rintro ⟨j, hj, -, hshort, -⟩
            cases hj
            exact hunits hshort
      · rw [if_neg fun hs => hclean hs.2, if_neg fun hs => hclean hs.2]
        refine iff_of_true ⟨rfl, (units_encoded h).symm⟩ ?_
        rintro ⟨j, hj, -, -, hc⟩
        cases hj
        exact hclean hc

def joined (sender message : List Nat) : List Nat :=
  if sender = [] then message else sender ++ 0x3A :: 0x20 :: message

theorem joined_splitText (s : List Nat) : joined (splitText id s).1 (splitText id s).2 = s := by
  rw [splitText]
  cases hi : indexOf [id 0x3A, id 0x20] s with
  | none => exact if_pos rfl
  | some i =>
      dsimp only
      split_ifs with hsome
      · have hne : s.take i ≠ [] := by
          intro hnil
          obtain hzero | hempty := List.take_eq_nil_iff.mp hnil
          · exact absurd hsome.1.1 (Nat.not_lt.mpr hzero.le)
          · rw [hempty] at hi
            cases hi
        rw [joined, if_neg hne]
        exact (split_of_indexOf hi).symm
      · exact if_pos rfl

theorem joined_senderOf {l : List Nat} (h : ∀ r ∈ l, Scalar r) :
    joined (units (senderOf (l.flatMap encodeRune)).1) (units (senderOf (l.flatMap encodeRune)).2) =
      l.flatMap utf16 := by
  rw [senderOf_eq, splitText_flatMap (transparent_encodeRune h)]
  cases hi : indexOf [0x3A, 0x20] l with
  | none => exact (if_pos rfl).trans (units_encoded h)
  | some i =>
      have htake : ∀ r ∈ l.take i, Scalar r := fun r hr => h r (List.mem_of_mem_take hr)
      have hdrop : ∀ r ∈ l.drop (i + 2), Scalar r := fun r hr => h r (List.mem_of_mem_drop hr)
      dsimp only
      split_ifs with hsome
      · have hpos := (length_flatMap_pos fun r (_ : r ∈ l.take i) => utf16_ne_nil r).mpr
          ((length_flatMap_pos fun r (_ : r ∈ l.take i) => encodeRune_ne_nil r).mp hsome.1.1)
        rw [units_encoded htake, units_encoded hdrop, joined, if_neg (List.ne_nil_of_length_pos hpos)]
        conv_rhs => rw [split_of_indexOf hi, List.flatMap_append]
        rfl
      · exact (if_pos rfl).trans (units_encoded h)

theorem decodeText_of_valid {text : Bytes} (h : validString text) : decodeText text =
    if (runes text).head? = some 0xFEFF then (runes text).tail else runes text := by
  rw [decodeText, readFrom_decodeChar h]
  cases runes text with
  | nil => rfl
  | cons r l =>
      by_cases hr : r = 0xFEFF
      · rw [hr]
        rfl
      · rw [List.head?_cons, if_neg fun hhead => hr (Option.some.inj hhead)]
        split
        next heq => exact absurd (List.cons.inj heq).1 hr
        next => rfl

theorem splitText_decodeText_iff {text : Bytes} (h : validString text) :
    (splitText id ((decodeText text).flatMap utf16)).1 = units (senderOf text).1 ∧
      (splitText id ((decodeText text).flatMap utf16)).2 = units (senderOf text).2 ↔
    (runes text).head? ≠ some 0xFEFF ∧ ¬ LongSender text := by
  have hscalar := scalar_of_mem_runes text
  have hjoined := joined_senderOf hscalar
  have hsplit := splitText_units_iff hscalar
  rw [encode_runes h] at hjoined hsplit
  rw [decodeText_of_valid h]
  split_ifs with hmark
  · -- the text has lost a code unit
    refine iff_of_false (fun hs => ?_) fun hs => hs.1 hmark
    have hlost := joined_splitText ((runes text).tail.flatMap utf16)
    rw [hs.1, hs.2, hjoined] at hlost
    obtain ⟨l, hl⟩ : ∃ l, runes text = 0xFEFF :: l := List.head?_eq_some_iff.mp hmark
    have hlen := congrArg List.length hlost
    rw [hl, List.tail_cons, List.flatMap_cons, List.length_append] at hlen
    have hpos := List.length_pos_iff.mpr (utf16_ne_nil 0xFEFF)
    omega
  · rw [hsplit]
    exact ⟨fun hs => ⟨hmark, hs⟩, fun hs => hs.2⟩

theorem hexVal_eq_some {c : UInt8} {a : Nat} (h : hexVal c = some a) : a < 16 ∧
    (48 ≤ c.toNat ∧ c.toNat ≤ 57 ∨ 97 ≤ c.toNat ∧ c.toNat ≤ 102 ∨ 65 ≤ c.toNat ∧ c.toNat ≤ 70) := by
  have h48 : (48 : UInt8).toNat = 48 := rfl
  have h57 : (57 : UInt8).toNat = 57 := rfl
  have h97 : (97 : UInt8).toNat = 97 := rfl
  have h102 : (102 : UInt8).toNat = 102 := rfl
  have h65 : (65 : UInt8).toNat = 65 := rfl
  have h70 : (70 : UInt8).toNat = 70 := rfl
  simp only [hexVal, UInt8.le_iff_toNat_le] at h
  split_ifs at h <;> cases h <;> omega

theorem hexVal_plain {c : UInt8} {a : Nat} (h : hexVal c = some a) :
    isSpace c = false ∧ c ≠ 0x2D ∧ c ≠ 0x2B ∧ c ≠ 0x78 ∧ c ≠ 0x58 := by
  refine ⟨?_, ?_, ?_, ?_, ?_⟩
  · rw [isSpace, Bool.or_eq_false_iff, Bool.or_eq_false_iff, Bool.and_eq_false_iff]
    have hrange := (hexVal_eq_some h).2
    refine ⟨⟨.inr (decide_eq_false fun hle => ?_), decide_eq_false ?_⟩, decide_eq_false ?_⟩
    · have hle' : c.toNat ≤ 13 := hle
      omega
    · rintro rfl
      cases h
    · rintro rfl
      cases h
  all_goals
    rintro rfl
    cases h

theorem parseInt16_pair {p q : UInt8} {a b : Nat} (ha : hexVal p = some a) (hb : hexVal q = some b) :
    parseInt16 [p, q] = some ((16 * a + b : Nat) : Int) := by
  obtain ⟨hspace, hminus, hplus, -⟩ := hexVal_plain ha
  obtain ⟨-, -, -, hlower, hupper⟩ := hexVal_plain hb
  have hdigits : leadingDigits [p, q] = [a, b] := by simp [leadingDigits, ha, hb]
  simp [parseInt16, hspace, hminus, hplus, hlower, hupper, hdigits]

theorem hexToBytes_of_hexOf {s bs : Bytes} (h : HexOf s bs) : hexToBytes s = bs := by
  induction h with
  | nil => rfl
  | cons ha hb _ ih =>
      have hlt := (hexVal_eq_some ha).1
      have hlt' := (hexVal_eq_some hb).1
      rw [hexToBytes, parseInt16_pair ha hb, ih, toUint8, Option.getD_some]
      congr 2
      omega

theorem aesDecrypt_eq (crypto : Crypto) (key ciphertext : Bytes) :
    aesDecrypt crypto key ciphertext = ecb crypto key (ciphertext.length / 16) ciphertext := by
  rw [aesDecrypt]
  generalize ciphertext.length / 16 = n
  induction n generalizing ciphertext with
  | zero => rfl
  | succ n ih =>
      rw [List.range_succ_eq_map, List.flatMap_cons, List.flatMap_map, ecb, ← ih]
      congr 1
      refine List.flatMap_congr fun i _ => ?_
      rw [List.drop_drop]
      congr 3
      omega

variable {crypto : Crypto} {key mac ciphertext macHex encryptedHex : Bytes}

theorem verifyMAC_iff (hkey : key.length = 16) (hmac : mac.length = 2) (hhex : HexOf macHex mac) :
    verifyMAC crypto key ciphertext macHex = true ↔
      (crypto.hmacSHA256 (key ++ List.replicate 16 0) ciphertext).take 2 = mac := by
  have hsig := crypto.hmac_length (key ++ List.replicate 16 0) ciphertext
  rw [verifyMAC, hexToBytes_of_hexOf hhex, hkey]
  generalize crypto.hmacSHA256 (key ++ List.replicate 16 0) ciphertext = sig at hsig ⊢
  match sig, hsig, mac, hmac with
  | a :: b :: sig, _, [c, d], _ => simp

theorem decrypt_eq (hkey : key.length = 16) (hmac : mac.length = 2) (hmacHex : HexOf macHex mac)
    (hhex : HexOf encryptedHex ciphertext) : decrypt crypto key macHex encryptedHex =
      if Verified crypto key mac ciphertext then
        parsePlaintext (ecb crypto key (ciphertext.length / 16) ciphertext)
      else none := by
  have hverify : verifyMAC crypto key ciphertext macHex = true ↔ _ := verifyMAC_iff hkey hmac hmacHex
  rw [decrypt, hexToBytes_of_hexOf hhex, decryptECB, aesDecrypt_eq]
  by_cases hblocks : ciphertext.length = 0 ∨ ciphertext.length % 16 ≠ 0
  · have hnot : ¬ Verified crypto key mac ciphertext := by
      rintro ⟨⟨hzero, halign⟩, -⟩
      omega
    rw [if_neg hnot]
    exact if_pos hblocks
  · rw [if_neg hblocks, if_neg hblocks]
    by_cases hok : verifyMAC crypto key ciphertext macHex = true
    · rw [if_pos hok, if_pos ⟨by omega, hverify.mp hok⟩]
      rfl
    · rw [if_neg hok, if_neg fun h => hok (hverify.mpr h.2)]

def envelope (mac ciphertext : Bytes) : Bytes := 0 :: (mac ++ ciphertext)

section Envelope

variable (hmac : mac.length = 2)

include hmac

theorem mac_envelope : ((envelope mac ciphertext).drop 1).take 2 = mac := by
  rw [envelope, List.drop_succ_cons, List.drop_zero, List.take_left' hmac]

theorem ciphertext_envelope : (envelope mac ciphertext).drop 3 = ciphertext := by
  rw [envelope, List.drop_succ_cons, List.drop_left' hmac]

theorem length_envelope : (envelope mac ciphertext).length = ciphertext.length + 3 := by
  rw [envelope, List.length_cons, List.length_append, hmac]
  omega

theorem opens_envelope :
    ChannelTool.Opens crypto key (envelope mac ciphertext) ↔ Verified crypto key mac ciphertext := by
  rw [ChannelTool.Opens, Verified, mac_envelope hmac, ciphertext_envelope hmac, length_envelope hmac,
    Nat.add_sub_cancel, ← and_assoc]
  exact and_congr_left fun _ => ⟨fun h => ⟨by omega, h.2⟩, fun h => ⟨by omega, h.2⟩⟩

theorem plaintextOf_envelope : ChannelTool.plaintextOf crypto key (envelope mac ciphertext) =
    ecb crypto key (ciphertext.length / 16) ciphertext := by
  rw [ChannelTool.plaintextOf, ciphertext_envelope hmac, length_envelope hmac, Nat.add_sub_cancel]

end Envelope

theorem length_ecb_of_verified (h : Verified crypto key mac ciphertext) :
    5 ≤ (ecb crypto key (ciphertext.length / 16) ciphertext).length := by
  rw [ChannelTool.ecb_length]
  have hblocks := h.1
  omega

theorem channelRead_eq (hkey : key.length = 16) (hmac : mac.length = 2) : channelRead crypto key mac ciphertext =
    if Verified crypto key mac ciphertext ∧ ChannelTool.Readable ChannelTool.countNonPrintable
        (textOf (ecb crypto key (ciphertext.length / 16) ciphertext)) then
      some (le32 ((ecb crypto key (ciphertext.length / 16) ciphertext).take 4),
        senderOf (textOf (ecb crypto key (ciphertext.length / 16) ciphertext)))
    else none := by
  have hlong : 3 ≤ (envelope mac ciphertext).length := by
    rw [length_envelope hmac]
    omega
  have hdecrypt : (ChannelTool.decrypt crypto key (((envelope mac ciphertext).drop 1).take 2)
      ((envelope mac ciphertext).drop 3) : Go Unit (Option Bytes)) = _ := ChannelTool.decrypt_ok hkey hlong
  rw [mac_envelope hmac, ciphertext_envelope hmac, plaintextOf_envelope hmac] at hdecrypt
  rw [channelRead, hdecrypt]
  by_cases hverified : Verified crypto key mac ciphertext
  · rw [if_pos ((opens_envelope hmac).mpr hverified)]
    dsimp only
    rw [ChannelTool.parsePlaintext_ok (length_ecb_of_verified hverified)]
    by_cases hread : ChannelTool.Readable ChannelTool.countNonPrintable
        (textOf (ecb crypto key (ciphertext.length / 16) ciphertext))
    · rw [if_pos hread, if_pos ⟨hverified, hread⟩]
    · rw [if_neg hread, if_neg fun h => hread h.2]
      rfl
  · rw [if_neg (mt (opens_envelope hmac).mp hverified), if_neg fun h => hverified h.1]

def controls (text : Bytes) : Nat := text.countP fun b => nonPrintable b.toNat

theorem nonPrintable_high {r : Nat} (h : 0x80 ≤ r) : nonPrintable r = false := by
  rw [nonPrintable, decide_eq_false (by omega)]
  rfl

theorem countNonPrintable_eq (text : Bytes) : ChannelTool.countNonPrintable text = controls text := by
  have hcount : (runes text).countP nonPrintable = controls text := by
    have hread := countP_readFrom (fun r hr => nonPrintable_high hr) (fun p rest hp => decodeRune_ascii hp rest)
      decodeRune_high text
    rwa [readFrom_decodeRune] at hread
  rw [← hcount, ChannelTool.countNonPrintable]
  refine congrArg (fun f => List.countP f (runes text)) ?_
  funext r
  rw [nonPrintable]

theorem countP_decodeText (text : Bytes) : ((decodeText text).flatMap utf16).countP nonPrintable = controls text := by
  have hread : (readFrom decodeChar 0 text).countP nonPrintable = controls text :=
    countP_readFrom (fun r hr => nonPrintable_high hr) (fun p rest hp => if_pos hp) decodeChar_high text
  rw [countP_utf16 fun r hr => nonPrintable_high (by omega), ← hread, decodeText]
  split
  next heq =>
    rw [heq, List.countP_cons_of_neg (by decide)]
  next => rfl

theorem parsePlaintext_none {plaintext : Bytes} (h : 2 < controls (textOf plaintext)) :
    parsePlaintext plaintext = none := by
  match plaintext, h with
  | [], _ | [_], _ | [_, _], _ | [_, _, _], _ | [_, _, _, _], _ => rfl
  | b0 :: b1 :: b2 :: b3 :: flags :: textBytes, h =>
      refine if_pos ?_
      rw [countP_decodeText]
      exact h

def stampOf : Bytes → Int
  | b0 :: b1 :: b2 :: b3 :: _ => timestamp b0 b1 b2 b3
  | _ => 0

theorem parsePlaintext_some {plaintext : Bytes} (hlong : 5 ≤ plaintext.length) (h : controls (textOf plaintext) ≤ 2) :
    ∃ flags, parsePlaintext plaintext = some ⟨stampOf plaintext, flags,
      (splitText id ((decodeText (textOf plaintext)).flatMap utf16)).1,
      (splitText id ((decodeText (textOf plaintext)).flatMap utf16)).2⟩ := by
  match plaintext, hlong, h with
  | b0 :: b1 :: b2 :: b3 :: flags :: textBytes, _, h =>
      refine ⟨flags.toNat, if_neg ?_⟩
      rw [countP_decodeText]
      exact not_lt.mpr h

theorem same_iff {number : Int → Nat → Prop} (hkey : key.length = 16) (hmac : mac.length = 2)
    (hmacHex : HexOf macHex mac) (hhex : HexOf encryptedHex ciphertext) :
    Same number (decrypt crypto key macHex encryptedHex) (channelRead crypto key mac ciphertext) ↔
      (Verified crypto key mac ciphertext →
        controls (textOf (ecb crypto key (ciphertext.length / 16) ciphertext)) ≤ 2 →
        ReadAlike (textOf (ecb crypto key (ciphertext.length / 16) ciphertext)) ∧
          number (stampOf (ecb crypto key (ciphertext.length / 16) ciphertext))
            (le32 ((ecb crypto key (ciphertext.length / 16) ciphertext).take 4))) := by
  rw [decrypt_eq hkey hmac hmacHex hhex, channelRead_eq hkey hmac]
  by_cases hverified : Verified crypto key mac ciphertext
  · have hlong := length_ecb_of_verified hverified
    rw [if_pos hverified]
    simp only [hverified, true_and, true_implies, ChannelTool.Readable, countNonPrintable_eq]
    generalize ecb crypto key (ciphertext.length / 16) ciphertext = plaintext at hlong ⊢
    by_cases hfew : controls (textOf plaintext) ≤ 2
    · obtain ⟨flags, hparse⟩ := parsePlaintext_some hlong hfew
      simp only [hparse, hfew, and_true, true_implies]
      by_cases hvalid : validString (textOf plaintext) = true
      · rw [if_pos hvalid, Same, and_comm, splitText_decodeText_iff hvalid]
        exact and_congr_left fun _ => ⟨fun h => ⟨hvalid, h.1, h.2⟩, fun h => ⟨h.unmarked, h.sender⟩⟩
      · rw [if_neg hvalid]
        exact iff_of_false id fun h => hvalid h.1.valid
    · rw [parsePlaintext_none (not_le.mp hfew), if_neg fun h => hfew h.2]
      exact iff_of_true trivial fun h => absurd h hfew
  · rw [if_neg hverified, if_neg fun h => hverified h.1]
    exact iff_of_true trivial fun h => absurd h hverified

theorem toUint32_stampOf {plaintext : Bytes} (h : 5 ≤ plaintext.length) :
    toUint32 (stampOf plaintext) = le32 (plaintext.take 4) := by
  match plaintext, h with
  | b0 :: b1 :: b2 :: b3 :: _ :: _, _ => exact toInt32_timestamp b0 b1 b2 b3

def topByte (plaintext : Bytes) : Nat := (plaintext.getD 3 0).toNat

theorem stampOf_eq_iff {plaintext : Bytes} (h : 5 ≤ plaintext.length) :
    stampOf plaintext = (le32 (plaintext.take 4) : Nat) ↔ topByte plaintext < 128 := by
  match plaintext, h with
  | b0 :: b1 :: b2 :: b3 :: _ :: _, _ => exact timestamp_eq_iff b0 b1 b2 b3

/-- The message has one outcome, for timestamps as unsigned numbers of 32 bits and as they are: either it is none of
the key's, its text has too many control characters, or the text is read alike. -/
theorem decrypt_agrees_iff (hkey : key.length = 16) (hmac : mac.length = 2) (hmacHex : HexOf macHex mac)
    (hhex : HexOf encryptedHex ciphertext) :
    (Same (fun n t => toUint32 n = t) (decrypt crypto key macHex encryptedHex)
        (channelRead crypto key mac ciphertext) ↔
      (Verified crypto key mac ciphertext →
        controls (textOf (ecb crypto key (ciphertext.length / 16) ciphertext)) ≤ 2 →
        ReadAlike (textOf (ecb crypto key (ciphertext.length / 16) ciphertext)))) ∧
    (Same (fun n t => n = t) (decrypt crypto key macHex encryptedHex) (channelRead crypto key mac ciphertext) ↔
      (Verified crypto key mac ciphertext →
        controls (textOf (ecb crypto key (ciphertext.length / 16) ciphertext)) ≤ 2 →
        ReadAlike (textOf (ecb crypto key (ciphertext.length / 16) ciphertext)) ∧
          topByte (ecb crypto key (ciphertext.length / 16) ciphertext) < 128)) := by
  constructor
  · rw [same_iff hkey hmac hmacHex hhex]
    refine forall_congr' fun hverified => forall_congr' fun _ => ?_
    exact and_iff_left (toUint32_stampOf (length_ecb_of_verified hverified))
  · rw [same_iff hkey hmac hmacHex hhex]
    refine forall_congr' fun hverified => forall_congr' fun _ => and_congr_right fun _ => ?_
    exact stampOf_eq_iff (length_ecb_of_verified hverified)

theorem length_noMAC (_ _ : Bytes) : (List.replicate 32 0 : Bytes).length = 32 := List.length_replicate

/-- Every block is decrypted to one with the text, and every MAC is zero. -/
def blockOf (text : Bytes) (h : text.length = 11) : Crypto where
  verify _ _ _ := true
  hmacSHA256 _ _ := List.replicate 32 0
  hmac_length := length_noMAC
  decryptBlock _ _ := List.replicate 5 0 ++ text
  decryptBlock_length _ _ := by rw [List.length_append, List.length_replicate, h]

def zeros (n : Nat) : Bytes := List.replicate n 0

theorem hexOf_zeros (n : Nat) : HexOf (List.replicate (2 * n) 0x30) (zeros n) := by
  have hzero : hexVal 0x30 = some 0 := rfl
  induction n with
  | zero => exact .nil
  | succ n ih => exact .cons hzero hzero ih

/-- "al: hi" -/
theorem decrypt_agrees_greeting :
    Same (fun n t => toUint32 n = t)
      (decrypt (blockOf ([0x61, 0x6C, 0x3A, 0x20, 0x68, 0x69] ++ zeros 5) rfl) (zeros 16) (List.replicate 4 0x30)
        (List.replicate 32 0x30))
      (channelRead (blockOf ([0x61, 0x6C, 0x3A, 0x20, 0x68, 0x69] ++ zeros 5) rfl) (zeros 16) (zeros 2)
        (zeros 16)) := by
  refine (decrypt_agrees_iff rfl rfl (hexOf_zeros 2) (hexOf_zeros 16)).1.mpr fun _ _ => ⟨by decide, by decide, ?_⟩
  rintro ⟨i, hi, hlong, -⟩
  obtain rfl : 2 = i := Option.some.inj hi
  exact absurd hlong (by decide)

/-- A single byte that is no text: the browser shows a message with a replacement character. -/
theorem not_same_invalid :
    ¬ Same (fun n t => toUint32 n = t)
      (decrypt (blockOf (0xFF :: zeros 10) rfl) (zeros 16) (List.replicate 4 0x30) (List.replicate 32 0x30))
      (channelRead (blockOf (0xFF :: zeros 10) rfl) (zeros 16) (zeros 2) (zeros 16)) := by
  intro hsame
  have halike := ((same_iff rfl rfl (hexOf_zeros 2) (hexOf_zeros 16)).mp hsame (by decide) (by decide)).1
  exact absurd halike.valid (by decide)

end MeshcoreAnalyzer.BrowserChannel

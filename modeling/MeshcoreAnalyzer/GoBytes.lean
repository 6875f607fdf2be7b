import Mathlib.Data.FinEnum
import Mathlib.Data.List.TakeDrop

namespace MeshcoreAnalyzer.GoBytes

abbrev Bytes := List UInt8

/-- A call either returns, returns an error value, or panics. Index and slice
expressions outside their bounds are the panics. -/
inductive Fault (ε : Type)
  | err (e : ε)
  | panic
deriving DecidableEq

abbrev Go (ε α : Type) := Except (Fault ε) α

variable {ε α β : Type}

def raise (e : ε) : Go ε α := .error (.err e)

def Returns (x : Go ε α) : Prop := ∃ a, x = .ok a

theorem Returns.pure (a : α) : Returns (pure a : Go ε α) := ⟨a, rfl⟩

theorem Returns.bind {x : Go ε α} {f : α → Go ε β} (hx : Returns x)
    (hf : ∀ a, x = .ok a → Returns (f a)) : Returns (x >>= f) := by
  obtain ⟨a, rfl⟩ := hx
  exact hf a rfl

theorem Returns.map {x : Go ε α} (f : α → β) (hx : Returns x) : Returns (f <$> x) := by
  obtain ⟨a, rfl⟩ := hx
  exact ⟨f a, rfl⟩

theorem ok_of_bind {x : Go ε α} {f : α → Go ε β} {b : β} (h : x >>= f = .ok b) :
    ∃ a, x = .ok a ∧ f a = .ok b := by
  cases x with
  | ok a => exact ⟨a, rfl, h⟩
  | error e => cases h

/-- The call does not panic; it may come back with an error value. -/
def Safe (x : Go ε α) : Prop := x ≠ .error .panic

theorem Returns.safe {x : Go ε α} (h : Returns x) : Safe x := by
  obtain ⟨a, rfl⟩ := h
  simp [Safe]

theorem Safe.raise (e : ε) : Safe (raise e : Go ε α) := by simp [Safe, GoBytes.raise]

theorem Safe.bind {x : Go ε α} {f : α → Go ε β} (hx : Safe x)
    (hf : ∀ a, x = .ok a → Safe (f a)) : Safe (x >>= f) := by
  cases x with
  | ok a => exact hf a rfl
  | error e =>
      intro h
      exact hx (congrArg Except.error (Except.error.inj h))

def guarded (c : Prop) [Decidable c] (x : Go ε α) : Go ε (Option α) :=
  if c then some <$> x else pure none

theorem Returns.guarded {c : Prop} [Decidable c] {x : Go ε α} (hx : c → Returns x) :
    Returns (guarded c x) := by
  rw [GoBytes.guarded]
  split
  · next hc => exact (hx hc).map _
  · exact .pure _

/-- `buf[i:j]` -/
def slice (buf : Bytes) (i j : Nat) : Go ε Bytes :=
  if i ≤ j ∧ j ≤ buf.length then .ok ((buf.take j).drop i) else .error .panic

/-- `buf[i:]` -/
def sliceFrom (buf : Bytes) (i : Nat) : Go ε Bytes := slice buf i buf.length

/-- `xs[i]` -/
def index (xs : List α) (i : Nat) : Go ε α :=
  match xs[i]? with
  | some x => .ok x
  | none => .error .panic

theorem slice_ok {buf : Bytes} {i j : Nat} (hi : i ≤ j) (hj : j ≤ buf.length) :
    (slice buf i j : Go ε Bytes) = .ok ((buf.take j).drop i) := by
  simp [slice, hi, hj]

theorem sliceFrom_ok {buf : Bytes} {i : Nat} (hi : i ≤ buf.length) :
    (sliceFrom buf i : Go ε Bytes) = .ok (buf.drop i) := by
  rw [sliceFrom, slice_ok hi le_rfl, List.take_length]

theorem index_ok {xs : List α} {i : Nat} (hi : i < xs.length) :
    (index xs i : Go ε α) = .ok xs[i] := by
  simp [index, List.getElem?_eq_getElem hi]

theorem Returns.slice {buf : Bytes} {i j : Nat} (hi : i ≤ j) (hj : j ≤ buf.length) :
    Returns (slice buf i j : Go ε Bytes) := ⟨_, slice_ok hi hj⟩

theorem Returns.sliceFrom {buf : Bytes} {i : Nat} (hi : i ≤ buf.length) :
    Returns (sliceFrom buf i : Go ε Bytes) := ⟨_, sliceFrom_ok hi⟩

theorem Returns.index {xs : List α} {i : Nat} (hi : i < xs.length) :
    Returns (index xs i : Go ε α) := ⟨_, index_ok hi⟩

theorem slice_length {buf bs : Bytes} {i j : Nat} (h : (slice buf i j : Go ε Bytes) = .ok bs) :
    bs.length = j - i := by
  unfold slice at h
  split at h
  · next hij =>
      cases h
      rw [List.length_drop, List.length_take]
      omega
  · cases h

/-- `binary.LittleEndian.Uint16` -/
def uint16 : Bytes → Go ε Nat
  | b0 :: b1 :: _ => .ok (b0.toNat + 256 * b1.toNat)
  | _ => .error .panic

/-- `binary.LittleEndian.Uint32` -/
def uint32 : Bytes → Go ε Nat
  | b0 :: b1 :: b2 :: b3 :: _ =>
      .ok (b0.toNat + 256 * b1.toNat + 65536 * b2.toNat + 16777216 * b3.toNat)
  | _ => .error .panic

theorem Returns.uint16 {buf : Bytes} (h : 2 ≤ buf.length) :
    Returns (uint16 buf : Go ε Nat) := by
  match buf, h with
  | _ :: _ :: _, _ => exact ⟨_, rfl⟩

theorem Returns.uint32 {buf : Bytes} (h : 4 ≤ buf.length) :
    Returns (uint32 buf : Go ε Nat) := by
  match buf, h with
  | _ :: _ :: _ :: _ :: _, _ => exact ⟨_, rfl⟩

def int8 (n : Nat) : Int := if n < 128 then n else (n : Int) - 256

def int16 (n : Nat) : Int := if n < 32768 then n else (n : Int) - 65536

def int32 (n : Nat) : Int := if n < 2147483648 then n else (n : Int) - 4294967296

def hexDigit (n : Nat) : UInt8 := UInt8.ofNat (if n < 10 then 48 + n else 87 + n)

/-- `hex.EncodeToString` -/
def hexEncode (bs : Bytes) : Bytes :=
  bs.flatMap (fun b => [hexDigit (b.toNat / 16), hexDigit (b.toNat % 16)])

def hexVal (c : UInt8) : Option Nat :=
  if 48 ≤ c ∧ c ≤ 57 then some (c.toNat - 48)
  else if 97 ≤ c ∧ c ≤ 102 then some (c.toNat - 87)
  else if 65 ≤ c ∧ c ≤ 70 then some (c.toNat - 55)
  else none

inductive HexError
  | invalidByte (c : UInt8)
  | length
deriving DecidableEq

/-- The Latin-1 characters that `%#U` prints beside the code point. -/
def isPrint (c : UInt8) : Bool := (0x20 ≤ c && c ≤ 0x7E) || (0xA1 ≤ c && c ≠ 0xAD)

def hexText (n : Nat) (width : Nat) : String :=
  let digits := String.ofList ((Nat.toDigits 16 n).map Char.toUpper)
  String.ofList (List.replicate (width - digits.length) '0') ++ digits

def HexError.message : HexError → String
  | .invalidByte c => "encoding/hex: invalid byte: U+" ++ hexText c.toNat 4 ++
      (if isPrint c then " '" ++ String.singleton (Char.ofNat c.toNat) ++ "'" else "")
  | .length => "encoding/hex: odd length hex string"

/-- `hex.DecodeString`: an odd last digit is looked at before the length is
reported. -/
def hexDecode : Bytes → Except HexError Bytes
  | [] => .ok []
  | [p] => if (hexVal p).isNone then .error (.invalidByte p) else .error .length
  | p :: q :: rest =>
      match hexVal p, hexVal q with
      | none, _ => .error (.invalidByte p)
      | some _, none => .error (.invalidByte q)
      | some a, some b => (hexDecode rest).map (UInt8.ofNat (16 * a + b) :: ·)

/-- `strings.ToUpper` on text of one-byte characters. -/
def toUpper (s : Bytes) : Bytes := s.map (fun c => if 97 ≤ c ∧ c ≤ 122 then c - 32 else c)

/-- `strings.Index` -/
def indexOf (sep : Bytes) : Bytes → Option Nat
  | [] => if sep = [] then some 0 else none
  | c :: s => if sep.isPrefixOf (c :: s) then some 0 else (indexOf sep s).map (· + 1)

theorem indexOf_le {sep s : Bytes} {i : Nat} (h : indexOf sep s = some i) :
    i + sep.length ≤ s.length := by
  induction s generalizing i with
  | nil =>
      simp only [indexOf] at h
      split at h
      · next hs =>
          cases h
          simp [hs]
      · cases h
  | cons c s ih =>
      simp only [indexOf] at h
      split at h
      · next hp =>
          cases h
          simpa using (List.isPrefixOf_iff_prefix.mp hp).length_le
      · rw [Option.map_eq_some_iff] at h
        obtain ⟨k, hk, rfl⟩ := h
        have := ih hk
        simp only [List.length_cons]
        omega

/-- The text spells the bytes, two digits of either case each. -/
inductive HexOf : Bytes → Bytes → Prop
  | nil : HexOf [] []
  | cons {p q : UInt8} {a b : Nat} {s bs : Bytes} (ha : hexVal p = some a) (hb : hexVal q = some b)
      (h : HexOf s bs) : HexOf (p :: q :: s) (UInt8.ofNat (16 * a + b) :: bs)

theorem hexDecode_sound (s bs : Bytes) (h : hexDecode s = .ok bs) : HexOf s bs := by
  match s with
  | [] =>
      cases h
      exact .nil
  | [p] =>
      simp only [hexDecode] at h
      split at h <;> cases h
  | p :: q :: rest =>
      cases hp : hexVal p with
      | none => simp [hexDecode, hp] at h
      | some a =>
          cases hq : hexVal q with
          | none => simp [hexDecode, hp, hq] at h
          | some b =>
              cases hr : hexDecode rest with
              | error e => simp [hexDecode, hp, hq, hr, Except.map] at h
              | ok cs =>
                  simp only [hexDecode, hp, hq, hr, Except.map, Except.ok.injEq] at h
                  subst h
                  exact .cons hp hq (hexDecode_sound rest cs hr)

theorem HexOf.hexDecode {s bs : Bytes} (h : HexOf s bs) : hexDecode s = .ok bs := by
  induction h with
  | nil => rfl
  | cons ha hb _ ih => simp [GoBytes.hexDecode, ha, hb, ih, Except.map]

theorem hexDecode_eq_ok (s bs : Bytes) : hexDecode s = .ok bs ↔ HexOf s bs :=
  ⟨hexDecode_sound s bs, HexOf.hexDecode⟩

theorem HexOf.length {s bs : Bytes} (h : HexOf s bs) : s.length = 2 * bs.length := by
  induction h with
  | nil => rfl
  | cons _ _ _ ih => simp only [List.length_cons, ih]; omega

theorem HexOf.unique {s bs cs : Bytes} (h : HexOf s bs) (h' : HexOf s cs) : bs = cs := by
  rw [← hexDecode_eq_ok] at h h'
  rw [h] at h'
  exact Except.ok.inj h'

theorem HexOf.append {s t bs cs : Bytes} (h : HexOf s bs) (h' : HexOf t cs) :
    HexOf (s ++ t) (bs ++ cs) := by
  induction h with
  | nil => exact h'
  | cons ha hb _ ih => exact .cons ha hb ih

theorem HexOf.digits {s bs : Bytes} (h : HexOf s bs) : ∀ c ∈ s, (hexVal c).isSome := by
  induction h with
  | nil => simp
  | cons ha hb _ ih => simp only [List.mem_cons, forall_eq_or_imp, ha, hb]; exact ⟨rfl, rfl, ih⟩

theorem hexVal_hexDigit : ∀ b : UInt8, hexVal (hexDigit (b.toNat / 16)) = some (b.toNat / 16) ∧
    hexVal (hexDigit (b.toNat % 16)) = some (b.toNat % 16) := by decide +kernel

theorem hexVal_toUpper : ∀ c : UInt8, (hexVal c).isSome →
    hexVal (if 97 ≤ c ∧ c ≤ 122 then c - 32 else c) = hexVal c := by decide +kernel

theorem hexOf_hexEncode (bs : Bytes) : HexOf (hexEncode bs) bs := by
  induction bs with
  | nil => exact .nil
  | cons b bs ih =>
      have h := HexOf.cons (hexVal_hexDigit b).1 (hexVal_hexDigit b).2 ih
      rw [Nat.div_add_mod, UInt8.ofNat_toNat] at h
      exact h

theorem HexOf.toUpper {s bs : Bytes} (h : HexOf s bs) : HexOf (toUpper s) bs := by
  induction h with
  | nil => exact .nil
  | cons ha hb _ ih =>
      refine .cons ?_ ?_ ih
      · rw [hexVal_toUpper _ (by rw [ha]; rfl), ha]
      · rw [hexVal_toUpper _ (by rw [hb]; rfl), hb]

def upperHex (bs : Bytes) : Bytes := toUpper (hexEncode bs)

theorem hexOf_upperHex (bs : Bytes) : HexOf (upperHex bs) bs := (hexOf_hexEncode bs).toUpper

theorem upperHex_length (bs : Bytes) : (upperHex bs).length = 2 * bs.length :=
  (hexOf_upperHex bs).length

/-- `fmt.Sprintf("%08x", n)` for an unsigned 32-bit number. -/
def fmt08x (n : Nat) : Bytes :=
  [hexDigit (n / 268435456 % 16), hexDigit (n / 16777216 % 16), hexDigit (n / 1048576 % 16),
    hexDigit (n / 65536 % 16), hexDigit (n / 4096 % 16), hexDigit (n / 256 % 16),
    hexDigit (n / 16 % 16), hexDigit (n % 16)]

end MeshcoreAnalyzer.GoBytes

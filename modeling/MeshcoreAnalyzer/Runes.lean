import MeshcoreAnalyzer.GoBytes

namespace MeshcoreAnalyzer.Runes

open GoBytes

def runeError : Nat := 0xFFFD

/-- What the first byte of a sequence tells: its length, the value to take off
the byte, and the range of the second byte. -/
structure Lead where
  size : Nat
  base : Nat
  lo : Nat
  hi : Nat
deriving DecidableEq

def leadOf (p : UInt8) : Option Lead :=
  if 0xC2 ≤ p ∧ p ≤ 0xDF then some ⟨2, 0xC0, 0x80, 0xBF⟩
  else if p = 0xE0 then some ⟨3, 0xE0, 0xA0, 0xBF⟩
  else if p = 0xED then some ⟨3, 0xE0, 0x80, 0x9F⟩
  else if 0xE1 ≤ p ∧ p ≤ 0xEF then some ⟨3, 0xE0, 0x80, 0xBF⟩
  else if p = 0xF0 then some ⟨4, 0xF0, 0x90, 0xBF⟩
  else if 0xF1 ≤ p ∧ p ≤ 0xF3 then some ⟨4, 0xF0, 0x80, 0xBF⟩
  else if p = 0xF4 then some ⟨4, 0xF0, 0x80, 0x8F⟩
  else none

def Lead.tail (q : Lead) (rest : Bytes) : Bytes := rest.take (q.size - 1)

def Lead.Whole (q : Lead) (rest : Bytes) : Prop :=
  (q.tail rest).length = q.size - 1 ∧ (∀ b ∈ q.tail rest, 0x80 ≤ b.toNat ∧ b.toNat ≤ 0xBF) ∧
    ∀ b ∈ rest.head?, q.lo ≤ b.toNat ∧ b.toNat ≤ q.hi

instance (q : Lead) (rest : Bytes) : Decidable (q.Whole rest) := by
  unfold Lead.Whole; infer_instance

/-- `utf8.DecodeRune` on `p :: rest`: the rune and its width. Anything that is
not a whole sequence is the error rune of width one. -/
def decodeRune (p : UInt8) (rest : Bytes) : Nat × Nat :=
  if p < 0x80 then (p.toNat, 1)
  else
    match leadOf p with
    | some q =>
        if q.Whole rest then
          ((q.tail rest).foldl (fun r b => r * 64 + (b.toNat - 0x80)) (p.toNat - q.base), q.size)
        else (runeError, 1)
    | none => (runeError, 1)

/-- The runes of `for _, c := range s`. The counter is how many bytes of the
current sequence are still to be passed over. -/
def runesFrom : Nat → Bytes → List Nat
  | _, [] => []
  | k + 1, _ :: rest => runesFrom k rest
  | 0, p :: rest => (decodeRune p rest).1 :: runesFrom ((decodeRune p rest).2 - 1) rest

def runes (s : Bytes) : List Nat := runesFrom 0 s

/-- `utf8.AppendRune` -/
def encodeRune (r : Nat) : Bytes :=
  if r ≤ 0x7F then [UInt8.ofNat r]
  else if r ≤ 0x7FF then [UInt8.ofNat (0xC0 + r / 64), UInt8.ofNat (0x80 + r % 64)]
  else if 0x10FFFF < r ∨ (0xD800 ≤ r ∧ r ≤ 0xDFFF) then [0xEF, 0xBF, 0xBD]
  else if r ≤ 0xFFFF then
    [UInt8.ofNat (0xE0 + r / 4096), UInt8.ofNat (0x80 + r / 64 % 64), UInt8.ofNat (0x80 + r % 64)]
  else
    [UInt8.ofNat (0xF0 + r / 262144), UInt8.ofNat (0x80 + r / 4096 % 64),
      UInt8.ofNat (0x80 + r / 64 % 64), UInt8.ofNat (0x80 + r % 64)]

/-- `utf8.ValidString`: no rune comes from a byte outside a whole sequence. -/
def validFrom : Nat → Bytes → Bool
  | _, [] => true
  | k + 1, _ :: rest => validFrom k rest
  | 0, p :: rest =>
      (p < 0x80 || 1 < (decodeRune p rest).2) && validFrom ((decodeRune p rest).2 - 1) rest

def validString (s : Bytes) : Bool := validFrom 0 s

theorem encodeRune_ne_nil (r : Nat) : encodeRune r ≠ [] := by
  rw [encodeRune]
  split_ifs <;> simp

theorem decodeRune_ascii {p : UInt8} (hp : p < 0x80) (rest : Bytes) :
    decodeRune p rest = (p.toNat, 1) := by
  rw [decodeRune, if_pos hp]

theorem leadOf_spec : ∀ p : UInt8, ∀ q ∈ leadOf p,
    2 ≤ q.size ∧ q.size ≤ 4 ∧ (q.size = 2 → q.base + 2 ≤ p.toNat) ∧
      (q.size ≠ 2 → q.base < p.toNat ∨ (q.size = 3 ∧ 0xA0 ≤ q.lo) ∨ 0x90 ≤ q.lo) := by
  decide +kernel

theorem decodeRune_width (p : UInt8) (rest : Bytes) :
    1 ≤ (decodeRune p rest).2 ∧ (decodeRune p rest).2 ≤ rest.length + 1 := by
  rw [decodeRune]
  split
  · simp
  · split
    · next q hq =>
        have hs := leadOf_spec p q hq
        split
        · next hw =>
            have hl := hw.1
            rw [Lead.tail, List.length_take] at hl
            simp only
            omega
        · simp
    · simp

theorem decodeRune_ge {p : UInt8} (hp : ¬ p < 0x80) (rest : Bytes) :
    0x80 ≤ (decodeRune p rest).1 := by
  rw [decodeRune]
  rw [if_neg hp]
  split
  · next q hq =>
      obtain ⟨h2, h4, hlead, hsecond⟩ := leadOf_spec p q hq
      split
      · next hw =>
          obtain ⟨hl, hb, hr⟩ := hw
          simp only [Lead.tail] at hl ⊢
          obtain h | h | h : q.size = 2 ∨ q.size = 3 ∨ q.size = 4 := by omega
          all_goals rw [h] at hl hlead hsecond ⊢
          · rcases rest with _ | ⟨b1, rest⟩
            · simp at hl
            · simp
              omega
          · rcases rest with _ | ⟨b1, _ | ⟨b2, rest⟩⟩
            · simp at hl
            · simp at hl
            · simp at hr ⊢
              omega
          · rcases rest with _ | ⟨b1, _ | ⟨b2, _ | ⟨b3, rest⟩⟩⟩
            · simp at hl
            · simp at hl
            · simp at hl
            · simp at hr ⊢
              omega
      · decide
  · decide

theorem whole_append {c : UInt8} (hc : c < 0x80) {q : Lead} (hq : 2 ≤ q.size) (s t : Bytes) :
    (q.Whole (s ++ c :: t) ↔ q.Whole s) ∧ (q.Whole s → q.tail (s ++ c :: t) = q.tail s) := by
  have hc' : c.toNat < 0x80 := hc
  by_cases hl : q.size - 1 ≤ s.length
  · have ht : q.tail (s ++ c :: t) = q.tail s := by
      rw [Lead.tail, Lead.tail, List.take_append_of_le_length hl]
    have hh : (s ++ c :: t).head? = s.head? := by
      cases s with
      | nil => simp at hl; omega
      | cons b s => rfl
    exact ⟨by rw [Lead.Whole, Lead.Whole, ht, hh], fun _ => ht⟩
  · have hs : ¬ q.Whole s := by
      intro h
      have := h.1
      rw [Lead.tail, List.length_take] at this
      omega
    have hm : c ∈ q.tail (s ++ c :: t) := by
      obtain ⟨k, hk⟩ : ∃ k, q.size - 1 - s.length = k + 1 := ⟨q.size - 1 - s.length - 1, by omega⟩
      rw [Lead.tail, List.take_append, hk, List.take_succ_cons]
      simp
    refine ⟨⟨fun h => ?_, fun h => absurd h hs⟩, fun h => absurd h hs⟩
    have := (h.2.1 c hm).1
    omega

theorem decodeRune_append {c : UInt8} (hc : c < 0x80) (p : UInt8) (s t : Bytes) :
    decodeRune p (s ++ c :: t) = decodeRune p s := by
  unfold decodeRune
  split
  · rfl
  · split
    · next q hq =>
        obtain ⟨hw, ht⟩ := whole_append hc (leadOf_spec p q hq).1 s t
        by_cases h : q.Whole s
        · rw [if_pos h, if_pos (hw.mpr h), ht h]
        · rw [if_neg h, if_neg (mt hw.mp h)]
    · rfl

theorem runesFrom_append {c : UInt8} (hc : c < 0x80) (k : Nat) (s t : Bytes) (hk : k ≤ s.length) :
    runesFrom k (s ++ c :: t) = runesFrom k s ++ c.toNat :: runesFrom 0 t := by
  induction s generalizing k with
  | nil =>
      obtain rfl : k = 0 := by simpa using hk
      simp [runesFrom, decodeRune_ascii hc]
  | cons p s ih =>
      cases k with
      | zero =>
          have hw := decodeRune_width p s
          simp only [List.cons_append, runesFrom, decodeRune_append hc]
          rw [ih _ (by omega)]
      | succ k =>
          simp only [List.cons_append, runesFrom]
          exact ih k (by simpa using hk)

theorem runes_append {c : UInt8} (hc : c < 0x80) (s t : Bytes) :
    runes (s ++ c :: t) = runes s ++ c.toNat :: runes t :=
  runesFrom_append hc 0 s t (Nat.zero_le _)

theorem runes_all_not {keep : Nat → Bool} (hkeep : ∀ r, 0x80 ≤ r → keep r = true) (s : Bytes) :
    (∀ r ∈ runes s, keep r = false) ↔ ∀ c ∈ s, keep c.toNat = false := by
  rw [runes]
  induction s with
  | nil => simp [runesFrom]
  | cons p s ih =>
      by_cases hp : p < 0x80
      · simp only [runesFrom, decodeRune_ascii hp, List.mem_cons, forall_eq_or_imp, Nat.sub_self, ih]
      · have hr := hkeep _ (decodeRune_ge hp s)
        have hp' := hkeep p.toNat (by rw [UInt8.not_lt] at hp; exact hp)
        simp [runesFrom, hr, hp']

end MeshcoreAnalyzer.Runes

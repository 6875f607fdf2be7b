import MeshcoreAnalyzer.Runes
import Mathlib.Tactic.SplitIfs

namespace MeshcoreAnalyzer.Runes

open GoBytes

/-! UTF-8: what the sequences of a text spell, and the texts that runes are spelled out in. -/

def Scalar (r : Nat) : Prop := r ≤ 0x10FFFF ∧ ¬ (0xD800 ≤ r ∧ r ≤ 0xDFFF)

theorem leadOf_eq (p : UInt8) : leadOf p =
    if 0xC2 ≤ p.toNat ∧ p.toNat ≤ 0xDF then some ⟨2, 0xC0, 0x80, 0xBF⟩
    else if p.toNat = 0xE0 then some ⟨3, 0xE0, 0xA0, 0xBF⟩
    else if p.toNat = 0xED then some ⟨3, 0xE0, 0x80, 0x9F⟩
    else if 0xE1 ≤ p.toNat ∧ p.toNat ≤ 0xEF then some ⟨3, 0xE0, 0x80, 0xBF⟩
    else if p.toNat = 0xF0 then some ⟨4, 0xF0, 0x90, 0xBF⟩
    else if 0xF1 ≤ p.toNat ∧ p.toNat ≤ 0xF3 then some ⟨4, 0xF0, 0x80, 0xBF⟩
    else if p.toNat = 0xF4 then some ⟨4, 0xF0, 0x80, 0x8F⟩
    else none := by
  simp only [leadOf, UInt8.le_iff_toNat_le, ← UInt8.toNat_inj]
  rfl

theorem toNat_ofNat_lt {n : Nat} (h : n < 256) : (UInt8.ofNat n).toNat = n := by
  rw [UInt8.toNat_ofNat']
  exact Nat.mod_eq_of_lt h

def TailByte (b : UInt8) : Prop := 0x80 ≤ b.toNat ∧ b.toNat ≤ 0xBF

theorem tailByte_ofNat (n : Nat) : TailByte (UInt8.ofNat (0x80 + n % 64)) := by
  have hb := toNat_ofNat_lt (n := 0x80 + n % 64) (by omega)
  rw [TailByte, hb]
  omega

/-- A sequence of two to four bytes: what its first byte tells, and the others. -/
structure Lead.Spells (q : Lead) (p : UInt8) (t : Bytes) (r : Nat) : Prop where
  lead : leadOf p = some q
  length : t.length = q.size - 1
  cont : ∀ b ∈ t, TailByte b
  second : ∀ b ∈ t.head?, q.lo ≤ b.toNat ∧ b.toNat ≤ q.hi
  value : t.foldl (fun r b => r * 64 + (b.toNat - 0x80)) (p.toNat - q.base) = r

theorem spells_encodeRune {r : Nat} (h : Scalar r) (hr : 0x7F < r) :
    ∃ p t, ∃ q : Lead, encodeRune r = p :: t ∧ q.Spells p t r := by
  obtain ⟨hmax, hsurr⟩ := h
  rw [encodeRune]
  rw [if_neg (by omega)]
  split_ifs with h2 hbad h3
  · have hp := toNat_ofNat_lt (n := 0xC0 + r / 64) (by omega)
    have hb := toNat_ofNat_lt (n := 0x80 + r % 64) (by omega)
    refine ⟨_, _, ⟨2, 0xC0, 0x80, 0xBF⟩, rfl, by rw [leadOf_eq, hp, if_pos (by omega)], rfl, ?_, ?_, ?_⟩
    · exact List.forall_mem_singleton.mpr (tailByte_ofNat r)
    · rintro b ⟨⟩
      exact tailByte_ofNat r
    · simp only [List.foldl_cons, List.foldl_nil, hp, hb]
      omega
  · omega
  · have hp := toNat_ofNat_lt (n := 0xE0 + r / 4096) (by omega)
    have hb := toNat_ofNat_lt (n := 0x80 + r / 64 % 64) (by omega)
    have hc := toNat_ofNat_lt (n := 0x80 + r % 64) (by omega)
    obtain ⟨q, hq, hsize, hbase, hsecond⟩ : ∃ q, leadOf (UInt8.ofNat (0xE0 + r / 4096)) = some q ∧ q.size = 3 ∧
        q.base = 0xE0 ∧ q.lo ≤ 0x80 + r / 64 % 64 ∧ 0x80 + r / 64 % 64 ≤ q.hi := by
      rw [leadOf_eq, hp, if_neg (by omega)]
      split_ifs <;> first | omega | exact ⟨_, rfl, rfl, rfl, by simp only; omega⟩
    refine ⟨_, _, q, rfl, hq, by rw [hsize]; rfl, ?_, ?_, ?_⟩
    · exact List.forall_mem_cons.mpr ⟨tailByte_ofNat _, List.forall_mem_singleton.mpr (tailByte_ofNat r)⟩
    · rintro b ⟨⟩
      rwa [hb]
    · simp only [List.foldl_cons, List.foldl_nil, hp, hb, hc, hbase]
      omega
  · have hp := toNat_ofNat_lt (n := 0xF0 + r / 262144) (by omega)
    have hb := toNat_ofNat_lt (n := 0x80 + r / 4096 % 64) (by omega)
    have hc := toNat_ofNat_lt (n := 0x80 + r / 64 % 64) (by omega)
    have hd := toNat_ofNat_lt (n := 0x80 + r % 64) (by omega)
    obtain ⟨q, hq, hsize, hbase, hsecond⟩ : ∃ q, leadOf (UInt8.ofNat (0xF0 + r / 262144)) = some q ∧ q.size = 4 ∧
        q.base = 0xF0 ∧ q.lo ≤ 0x80 + r / 4096 % 64 ∧ 0x80 + r / 4096 % 64 ≤ q.hi := by
      rw [leadOf_eq, hp, if_neg (by omega), if_neg (by omega), if_neg (by omega), if_neg (by omega)]
      split_ifs <;> first | omega | exact ⟨_, rfl, rfl, rfl, by simp only; omega⟩
    refine ⟨_, _, q, rfl, hq, by rw [hsize]; rfl, ?_, ?_, ?_⟩
    · exact List.forall_mem_cons.mpr ⟨tailByte_ofNat _, List.forall_mem_cons.mpr
        ⟨tailByte_ofNat _, List.forall_mem_singleton.mpr (tailByte_ofNat r)⟩⟩
    · rintro b ⟨⟩
      rwa [hb]
    · simp only [List.foldl_cons, List.foldl_nil, hp, hb, hc, hd, hbase]
      omega

theorem lead_cases {p : UInt8} {q : Lead} (h : leadOf p = some q) :
    q.size = 2 ∧ q.base = 0xC0 ∧ 0xC2 ≤ p.toNat ∧ p.toNat ≤ 0xDF ∨
    q.size = 3 ∧ q.base = 0xE0 ∧ 0xE0 ≤ p.toNat ∧ p.toNat ≤ 0xEF ∧ (p.toNat = 0xE0 → q.lo = 0xA0) ∧
      (p.toNat = 0xED → q.hi = 0x9F) ∨
    q.size = 4 ∧ q.base = 0xF0 ∧ 0xF0 ≤ p.toNat ∧ p.toNat ≤ 0xF4 ∧ (p.toNat = 0xF0 → q.lo = 0x90) ∧
      (p.toNat = 0xF4 → q.hi = 0x8F) := by
  rw [leadOf_eq] at h
  split_ifs at h <;> cases h <;> simp <;> omega

theorem ofNat_eq {n : Nat} {b : UInt8} (h : n = b.toNat) : UInt8.ofNat n = b := by
  rw [h, UInt8.ofNat_toNat]

theorem encodeRune_of_spells {q : Lead} {p : UInt8} {t : Bytes} {r : Nat} (h : q.Spells p t r) :
    Scalar r ∧ 0x7F < r ∧ encodeRune r = p :: t := by
  obtain ⟨hlead, hlength, hcont, hsecond, hvalue⟩ := h
  obtain ⟨hsize, hbase, hp⟩ | ⟨hsize, hbase, hp⟩ | ⟨hsize, hbase, hp⟩ := lead_cases hlead
  · rw [hsize] at hlength
    obtain ⟨b, rfl⟩ := List.length_eq_one_iff.mp hlength
    have hb := hcont b (by simp)
    simp only [List.foldl_cons, List.foldl_nil, hbase] at hvalue
    rw [TailByte] at hb
    refine ⟨⟨by omega, by omega⟩, by omega, ?_⟩
    rw [encodeRune, if_neg (by omega), if_pos (by omega), ofNat_eq (b := p) (by omega), ofNat_eq (b := b) (by omega)]
  · rw [hsize] at hlength
    obtain ⟨b, c, rfl⟩ := List.length_eq_two.mp hlength
    have hb := hcont b (by simp)
    have hc := hcont c (by simp)
    have hb' := hsecond b rfl
    simp only [List.foldl_cons, List.foldl_nil, hbase] at hvalue
    rw [TailByte] at hb hc
    have hscalar : Scalar r := ⟨by omega, by omega⟩
    refine ⟨hscalar, by omega, ?_⟩
    rw [encodeRune, if_neg (by omega), if_neg (by omega), if_neg (by unfold Scalar at hscalar; omega),
      if_pos (by omega), ofNat_eq (b := p) (by omega), ofNat_eq (b := b) (by omega), ofNat_eq (b := c) (by omega)]
  · rw [hsize] at hlength
    obtain ⟨b, c, d, rfl⟩ := List.length_eq_three.mp hlength
    have hb := hcont b (by simp)
    have hc := hcont c (by simp)
    have hd := hcont d (by simp)
    have hb' := hsecond b rfl
    simp only [List.foldl_cons, List.foldl_nil, hbase] at hvalue
    rw [TailByte] at hb hc hd
    have hscalar : Scalar r := ⟨by omega, by omega⟩
    refine ⟨hscalar, by omega, ?_⟩
    rw [encodeRune, if_neg (by omega), if_neg (by omega), if_neg (by unfold Scalar at hscalar; omega),
      if_neg (by omega), ofNat_eq (b := p) (by omega), ofNat_eq (b := b) (by omega), ofNat_eq (b := c) (by omega),
      ofNat_eq (b := d) (by omega)]

theorem not_ascii {p : UInt8} {q : Lead} (h : leadOf p = some q) : ¬ p < 0x80 := by
  have hcases := lead_cases h
  change ¬ p.toNat < 0x80
  omega

theorem two_le_size {p : UInt8} {q : Lead} (h : leadOf p = some q) : 2 ≤ q.size := by
  have hcases := lead_cases h
  omega

namespace Lead.Spells

variable {q : Lead} {p : UInt8} {t rest : Bytes} {r : Nat}

theorem length_add_one (h : q.Spells p t r) : t.length + 1 = q.size := by
  have hsize := two_le_size h.lead
  rw [h.length]
  omega

theorem tail (h : q.Spells p t r) : q.tail (t ++ rest) = t := by
  rw [Lead.tail, ← h.length]
  exact List.take_left

theorem ne_nil (h : q.Spells p t r) : t ≠ [] := by
  rintro rfl
  have hsize := two_le_size h.lead
  have hlength := h.length_add_one
  rw [List.length_nil] at hlength
  omega

theorem whole (h : q.Spells p t r) : q.Whole (t ++ rest) := by
  refine ⟨by rw [h.tail, h.length], by rw [h.tail]; exact h.cont, ?_⟩
  rw [List.head?_append_of_ne_nil _ h.ne_nil]
  exact h.second

theorem decodeRune (h : q.Spells p t r) : decodeRune p (t ++ rest) = (r, t.length + 1) := by
  rw [Runes.decodeRune, if_neg (not_ascii h.lead), h.lead]
  simp only [if_pos h.whole, h.tail, h.value, h.length_add_one]

end Lead.Spells

theorem spells_of_whole {p : UInt8} {q : Lead} {rest : Bytes} (hlead : leadOf p = some q) (h : q.Whole rest) :
    ∃ r, q.Spells p (q.tail rest) r := by
  obtain ⟨hlength, hcont, hsecond⟩ := h
  have hsize := two_le_size hlead
  refine ⟨_, hlead, hlength, hcont, ?_, rfl⟩
  rw [Lead.tail, List.head?_take, if_neg (by omega)]
  exact hsecond

inductive Decoded (p : UInt8) (rest : Bytes) : Prop
  | ascii : p < 0x80 → Decoded p rest
  | whole (q : Lead) (t rest' : Bytes) (r : Nat) : rest = t ++ rest' → q.Spells p t r → Decoded p rest
  | error : ¬ p < 0x80 → decodeRune p rest = (runeError, 1) → Decoded p rest

theorem decoded (p : UInt8) (rest : Bytes) : Decoded p rest := by
  by_cases hp : p < 0x80
  · exact .ascii hp
  · cases hlead : leadOf p with
    | none => exact .error hp (by rw [decodeRune, if_neg hp, hlead])
    | some q =>
        by_cases hwhole : q.Whole rest
        · obtain ⟨r, hr⟩ := spells_of_whole hlead hwhole
          exact .whole q (q.tail rest) (rest.drop (q.size - 1)) r (List.take_append_drop _ _).symm hr
        · refine .error hp ?_
          rw [decodeRune, if_neg hp, hlead]
          exact if_neg hwhole

theorem runesFrom_eq (k : Nat) (s : Bytes) : runesFrom k s = runes (s.drop k) := by
  induction s generalizing k with
  | nil => rw [List.drop_nil]; cases k <;> rfl
  | cons p s ih =>
      cases k with
      | zero => rfl
      | succ k => exact ih k

theorem validFrom_eq (k : Nat) (s : Bytes) : validFrom k s = validString (s.drop k) := by
  induction s generalizing k with
  | nil => rw [List.drop_nil]; cases k <;> rfl
  | cons p s ih =>
      cases k with
      | zero => rfl
      | succ k => exact ih k

theorem runes_cons (p : UInt8) (rest : Bytes) :
    runes (p :: rest) = (decodeRune p rest).1 :: runes (rest.drop ((decodeRune p rest).2 - 1)) := by
  rw [← runesFrom_eq]
  rfl

theorem validString_cons (p : UInt8) (rest : Bytes) : validString (p :: rest) =
    ((p < 0x80 || 1 < (decodeRune p rest).2) && validString (rest.drop ((decodeRune p rest).2 - 1))) := by
  rw [← validFrom_eq]
  rfl

theorem runes_ascii {p : UInt8} (hp : p < 0x80) (rest : Bytes) : runes (p :: rest) = p.toNat :: runes rest := by
  rw [runes_cons, decodeRune_ascii hp]
  rfl

theorem validString_ascii {p : UInt8} (hp : p < 0x80) (rest : Bytes) :
    validString (p :: rest) = validString rest := by
  rw [validString_cons, decodeRune_ascii hp]
  simp [hp]

theorem Lead.Spells.runes {q : Lead} {p : UInt8} {t rest : Bytes} {r : Nat} (h : q.Spells p t r) :
    runes (p :: (t ++ rest)) = r :: runes rest := by
  rw [runes_cons, h.decodeRune, Nat.add_sub_cancel, List.drop_left]

theorem Lead.Spells.validString {q : Lead} {p : UInt8} {t rest : Bytes} {r : Nat} (h : q.Spells p t r) :
    validString (p :: (t ++ rest)) = validString rest := by
  have hlong : 1 < t.length + 1 := Nat.succ_lt_succ (List.length_pos_iff.mpr h.ne_nil)
  rw [validString_cons, h.decodeRune, Nat.add_sub_cancel, List.drop_left]
  simp [hlong]

theorem encodeRune_ascii {p : UInt8} (hp : p < 0x80) : encodeRune p.toNat = [p] := by
  have hp' : p.toNat < 0x80 := hp
  rw [encodeRune, if_pos (by omega), UInt8.ofNat_toNat]

theorem encodeRune_cases {r : Nat} (h : Scalar r) :
    (∃ p : UInt8, p < 0x80 ∧ p.toNat = r ∧ encodeRune r = [p]) ∨
      ∃ p t, ∃ q : Lead, encodeRune r = p :: t ∧ q.Spells p t r := by
  by_cases hr : 0x7F < r
  · exact .inr (spells_encodeRune h hr)
  · have hp := toNat_ofNat_lt (n := r) (by omega)
    refine .inl ⟨UInt8.ofNat r, ?_, hp, by rw [encodeRune, if_pos (by omega)]⟩
    change (UInt8.ofNat r).toNat < 0x80
    omega

theorem runes_encodeRune_append {r : Nat} (h : Scalar r) (s : Bytes) : runes (encodeRune r ++ s) = r :: runes s := by
  obtain ⟨p, hp, rfl, henc⟩ | ⟨p, t, q, henc, hspells⟩ := encodeRune_cases h
  · rw [henc]
    exact runes_ascii hp s
  · rw [henc]
    exact hspells.runes

theorem validString_encodeRune_append {r : Nat} (h : Scalar r) (s : Bytes) :
    validString (encodeRune r ++ s) = validString s := by
  obtain ⟨p, hp, rfl, henc⟩ | ⟨p, t, q, henc, hspells⟩ := encodeRune_cases h
  · rw [henc]
    exact validString_ascii hp s
  · rw [henc]
    exact hspells.validString

theorem scalar_of_ascii {p : UInt8} (hp : p < 0x80) : Scalar p.toNat := by
  have hp' : p.toNat < 0x80 := hp
  exact ⟨by omega, by omega⟩

theorem runes_induction {motive : Bytes → Prop} (nil : motive [])
    (ascii : ∀ p rest, p < 0x80 → motive rest → motive (p :: rest))
    (whole : ∀ (q : Lead) p t rest r, q.Spells p t r → motive rest → motive (p :: (t ++ rest)))
    (error : ∀ p rest, ¬ p < 0x80 → decodeRune p rest = (runeError, 1) → motive rest → motive (p :: rest)) (s : Bytes) :
    motive s := by
  induction h : s.length using Nat.strongRecOn generalizing s with
  | _ n ih =>
      subst h
      cases s with
      | nil => exact nil
      | cons p rest =>
          cases decoded p rest with
          | ascii hp => exact ascii p rest hp (ih rest.length (Nat.lt_succ_self _) rest rfl)
          | whole q t rest' r heq hspells =>
              subst heq
              refine whole q p t rest' r hspells (ih rest'.length ?_ rest' rfl)
              rw [List.length_cons, List.length_append]
              omega
          | error hp hdec => exact error p rest hp hdec (ih rest.length (Nat.lt_succ_self _) rest rfl)

theorem scalar_of_mem_runes (s : Bytes) : ∀ r ∈ runes s, Scalar r := by
  induction s using runes_induction with
  | nil => exact fun r hr => absurd hr List.not_mem_nil
  | ascii p rest hp ih =>
      rw [runes_ascii hp]
      exact List.forall_mem_cons.mpr ⟨scalar_of_ascii hp, ih⟩
  | whole q p t rest r hspells ih =>
      rw [hspells.runes]
      exact List.forall_mem_cons.mpr ⟨(encodeRune_of_spells hspells).1, ih⟩
  | error p rest hp hdec ih =>
      rw [runes_cons, hdec]
      exact List.forall_mem_cons.mpr ⟨⟨by decide, by decide⟩, ih⟩

theorem encode_runes {s : Bytes} (h : validString s) : (runes s).flatMap encodeRune = s := by
  induction s using runes_induction with
  | nil => rfl
  | ascii p rest hp ih =>
      rw [validString_ascii hp] at h
      rw [runes_ascii hp, List.flatMap_cons, encodeRune_ascii hp, ih h]
      rfl
  | whole q p t rest r hspells ih =>
      rw [hspells.validString] at h
      rw [hspells.runes, List.flatMap_cons, (encodeRune_of_spells hspells).2.2, ih h]
      rfl
  | error p rest hp hdec ih =>
      rw [validString_cons, hdec] at h
      simp [hp] at h

section Encoded

variable {l : List Nat} (h : ∀ r ∈ l, Scalar r)

include h

theorem runes_encoded (s : Bytes) : runes (l.flatMap encodeRune ++ s) = l ++ runes s := by
  induction l with
  | nil => rfl
  | cons r l ih =>
      obtain ⟨hr, hl⟩ := List.forall_mem_cons.mp h
      rw [List.flatMap_cons, List.append_assoc, runes_encodeRune_append hr, ih hl, List.cons_append]

end Encoded

theorem not_validString_take {r j : Nat} (h : Scalar r) (hpos : 0 < j) (hlt : j < (encodeRune r).length) :
    validString ((encodeRune r).take j) = false := by
  obtain ⟨p, hp, -, henc⟩ | ⟨p, t, q, henc, hspells⟩ := encodeRune_cases h
  · rw [henc, List.length_singleton] at hlt
    omega
  · rw [henc, List.length_cons] at hlt
    obtain ⟨j, rfl⟩ := Nat.exists_eq_succ_of_ne_zero hpos.ne'
    have hpart : ¬ q.Whole (t.take j) := by
      intro hwhole
      have hlength := hwhole.1
      rw [Lead.tail, List.length_take, List.length_take] at hlength
      have hsize := hspells.length_add_one
      omega
    have hdec : decodeRune p (t.take j) = (runeError, 1) := by
      rw [decodeRune, if_neg (not_ascii hspells.lead), hspells.lead]
      exact if_neg hpart
    rw [henc, List.take_succ_cons, validString_cons, hdec]
    simp [not_ascii hspells.lead]

def fitting : Nat → List Nat → List Nat
  | _, [] => []
  | n, r :: l => if (encodeRune r).length ≤ n then r :: fitting (n - (encodeRune r).length) l else []

/-- There is room for all, or none is left over. -/
def Fits (n : Nat) (l : List Nat) : Prop := fitting n l = l ∨ ((fitting n l).flatMap encodeRune).length = n

theorem fits_cons {n r : Nat} {l : List Nat} (hroom : (encodeRune r).length ≤ n) :
    Fits n (r :: l) ↔ Fits (n - (encodeRune r).length) l := by
  rw [Fits, fitting, if_pos hroom, List.cons_inj_right, List.flatMap_cons, List.length_append, Fits]
  exact or_congr_right ⟨fun h => by omega, fun h => by omega⟩

theorem fits_full {n r : Nat} {l : List Nat} (hfull : n < (encodeRune r).length) : Fits n (r :: l) ↔ n = 0 := by
  rw [Fits, fitting, if_neg hfull.not_ge]
  simp [eq_comm]

theorem validString_take_iff {l : List Nat} (h : ∀ r ∈ l, Scalar r) (n : Nat) :
    validString ((l.flatMap encodeRune).take n) ↔ Fits n l := by
  induction l generalizing n with
  | nil => exact iff_of_true (by rw [List.flatMap_nil, List.take_nil]; rfl) (.inl rfl)
  | cons r l ih =>
      obtain ⟨hr, hl⟩ := List.forall_mem_cons.mp h
      rw [List.flatMap_cons]
      by_cases hroom : (encodeRune r).length ≤ n
      · rw [List.take_append, List.take_of_length_le hroom, validString_encodeRune_append hr, ih hl, fits_cons hroom]
      · rw [fits_full (not_le.mp hroom), List.take_append_of_le_length (by omega)]
        rcases Nat.eq_zero_or_pos n with rfl | hpos
        · exact iff_of_true rfl rfl
        · rw [not_validString_take hr hpos (not_le.mp hroom)]
          exact iff_of_false (by decide) hpos.ne'

theorem take_of_fits {n : Nat} {l : List Nat} (h : Fits n l) :
    (l.flatMap encodeRune).take n = (fitting n l).flatMap encodeRune := by
  induction l generalizing n with
  | nil => rw [List.flatMap_nil, List.take_nil]; rfl
  | cons r l ih =>
      by_cases hroom : (encodeRune r).length ≤ n
      · rw [fitting, if_pos hroom, List.flatMap_cons, List.flatMap_cons, List.take_append,
          List.take_of_length_le hroom, ih ((fits_cons hroom).mp h)]
      · obtain rfl := (fits_full (not_le.mp hroom)).mp h
        rw [fitting, if_neg hroom]
        rfl

theorem prefix_fitting (n : Nat) (l : List Nat) : fitting n l <+: l := by
  induction l generalizing n with
  | nil => exact List.prefix_rfl
  | cons r l ih =>
      rw [fitting]
      split
      · exact (List.prefix_cons_inj r).mpr (ih _)
      · exact List.nil_prefix

end MeshcoreAnalyzer.Runes

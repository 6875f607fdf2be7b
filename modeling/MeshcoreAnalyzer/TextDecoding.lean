import Mathlib.Data.List.TakeWhile
import MeshcoreAnalyzer.RuneText

namespace MeshcoreAnalyzer.TextDecoding

open GoBytes Runes

/-! The decoder of UTF-8 that browsers have, which replaces what is not valid, and texts as UTF-16. -/

instance : DecidablePred TailByte := fun b => inferInstanceAs (Decidable (0x80 ≤ b.toNat ∧ b.toNat ≤ 0xBF))

def continued (q : Lead) : Bytes → Bytes
  | [] => []
  | b :: rest =>
      if q.lo ≤ b.toNat ∧ b.toNat ≤ q.hi then
        b :: (rest.take (q.size - 2)).takeWhile fun b => decide (TailByte b)
      else []

def decodeChar (p : UInt8) (rest : Bytes) : Nat × Nat :=
  if p < 0x80 then (p.toNat, 1)
  else match leadOf p with
    | none => (runeError, 1)
    | some q =>
        let t := continued q rest
        (if t.length = q.size - 1 then t.foldl (fun r b => r * 64 + (b.toNat - 0x80)) (p.toNat - q.base)
          else runeError, t.length + 1)

def readFrom (read : UInt8 → Bytes → Nat × Nat) : Nat → Bytes → List Nat
  | _, [] => []
  | k + 1, _ :: rest => readFrom read k rest
  | 0, p :: rest => (read p rest).1 :: readFrom read ((read p rest).2 - 1) rest

/-- `new TextDecoder().decode(s)`: a byte order mark in the beginning is left out. -/
def decodeText (s : Bytes) : List Nat :=
  match readFrom decodeChar 0 s with
  | 0xFEFF :: text => text
  | text => text

section Reading

variable {read : UInt8 → Bytes → Nat × Nat}

theorem readFrom_eq (k : Nat) (s : Bytes) : readFrom read k s = readFrom read 0 (s.drop k) := by
  induction s generalizing k with
  | nil => rw [List.drop_nil]; cases k <;> rfl
  | cons p s ih =>
      cases k with
      | zero => rfl
      | succ k => exact ih k

theorem readFrom_decodeRune (k : Nat) (s : Bytes) : readFrom decodeRune k s = runesFrom k s := by
  induction s generalizing k with
  | nil => cases k <;> rfl
  | cons p s ih =>
      cases k with
      | zero => exact congrArg (List.cons _) (ih _)
      | succ k => exact ih k

theorem countP_readFrom {count : Nat → Bool} (hhigh : ∀ r, 0x80 ≤ r → count r = false)
    (hascii : ∀ p rest, p < 0x80 → read p rest = (p.toNat, 1))
    (hread : ∀ p rest, ¬ p < 0x80 → 0x80 ≤ (read p rest).1 ∧ ∀ b ∈ rest.take ((read p rest).2 - 1), ¬ b < 0x80)
    (s : Bytes) : (readFrom read 0 s).countP count = s.countP fun b => count b.toNat := by
  have hzero : ∀ b : UInt8, ¬ b < 0x80 → count b.toNat = false := fun b hb => hhigh _ (UInt8.not_lt.mp hb)
  induction hlen : s.length using Nat.strongRecOn generalizing s with
  | _ n ih =>
      subst hlen
      cases s with
      | nil => rfl
      | cons p rest =>
          by_cases hp : p < 0x80
          · have hrest := ih rest.length (Nat.lt_succ_self _) rest rfl
            rw [readFrom, hascii p rest hp, List.countP_cons, List.countP_cons, ← hrest]
            rfl
          · obtain ⟨hvalue, hpassed⟩ := hread p rest hp
            have hlt : (rest.drop ((read p rest).2 - 1)).length < (p :: rest).length := by
              rw [List.length_drop, List.length_cons]
              omega
            have hnone : (rest.take ((read p rest).2 - 1)).countP (fun b => count b.toNat) = 0 := by
              rw [List.countP_eq_zero]
              intro b hb
              rw [hzero b (hpassed b hb)]
              exact Bool.false_ne_true
            have hsplit : (rest.take ((read p rest).2 - 1) ++ rest.drop ((read p rest).2 - 1)).countP
                (fun b => count b.toNat) = _ := List.countP_append
            rw [List.take_append_drop, hnone, Nat.zero_add] at hsplit
            rw [readFrom, readFrom_eq, List.countP_cons_of_neg (by rw [hhigh _ hvalue]; exact Bool.false_ne_true),
              List.countP_cons_of_neg (by rw [hzero p hp]; exact Bool.false_ne_true), hsplit]
            exact ih _ hlt _ rfl

end Reading

theorem lead_second {p : UInt8} {q : Lead} (h : leadOf p = some q) : 0x80 ≤ q.lo ∧ q.hi ≤ 0xBF := by
  rw [leadOf_eq] at h
  split_ifs at h <;> cases h <;> simp

theorem prefix_continued (q : Lead) (rest : Bytes) : continued q rest <+: rest := by
  cases rest with
  | nil => exact List.prefix_rfl
  | cons b rest =>
      rw [continued]
      split
      · exact (List.prefix_cons_inj b).mpr ((List.takeWhile_prefix _).trans (List.take_prefix _ _))
      · exact List.nil_prefix

theorem tailByte_of_mem_continued {p : UInt8} {q : Lead} (h : leadOf p = some q) {rest : Bytes} :
    ∀ b ∈ continued q rest, TailByte b := by
  have hsecond := lead_second h
  cases rest with
  | nil => exact fun b hb => absurd hb List.not_mem_nil
  | cons c rest =>
      rw [continued]
      split
      next hc =>
        refine List.forall_mem_cons.mpr ⟨⟨by omega, by omega⟩, fun b hb => ?_⟩
        exact decide_eq_true_iff.mp (List.mem_takeWhile_imp (p := fun b => decide (TailByte b)) hb)
      next => exact fun b hb => absurd hb List.not_mem_nil

theorem not_ascii_of_tailByte {b : UInt8} (h : TailByte b) : ¬ b < 0x80 := by
  change ¬ b.toNat < 0x80
  rw [TailByte] at h
  omega

theorem continued_of_spells {q : Lead} {p : UInt8} {t : Bytes} {r : Nat} (h : q.Spells p t r) (rest : Bytes) :
    continued q (t ++ rest) = t := by
  have hlength := h.length_add_one
  cases t with
  | nil => exact absurd rfl h.ne_nil
  | cons b t =>
      rw [List.length_cons] at hlength
      rw [List.cons_append, continued, if_pos (h.second b rfl), List.take_left' (by omega)]
      refine congrArg (List.cons b) (List.takeWhile_eq_self_iff.mpr fun c hc => ?_)
      exact decide_eq_true (h.cont c (List.mem_cons_of_mem b hc))

theorem decodeChar_of_spells {q : Lead} {p : UInt8} {t : Bytes} {r : Nat} (h : q.Spells p t r) (rest : Bytes) :
    decodeChar p (t ++ rest) = (r, t.length + 1) := by
  rw [decodeChar, if_neg (not_ascii h.lead), h.lead]
  simp only [continued_of_spells h, h.length, if_true, h.value]

theorem spells_continued {q : Lead} {p : UInt8} {rest : Bytes} (hlead : leadOf p = some q)
    (hlength : (continued q rest).length = q.size - 1) : ∃ r, q.Spells p (continued q rest) r := by
  refine ⟨_, hlead, hlength, tailByte_of_mem_continued hlead, fun b hb => ?_, rfl⟩
  cases rest with
  | nil => cases hb
  | cons c rest =>
      rw [continued] at hb
      split at hb
      next hc =>
        cases hb
        exact hc
      next => cases hb

theorem decodeChar_high (p : UInt8) (rest : Bytes) (hp : ¬ p < 0x80) :
    0x80 ≤ (decodeChar p rest).1 ∧ ∀ b ∈ rest.take ((decodeChar p rest).2 - 1), ¬ b < 0x80 := by
  rw [decodeChar, if_neg hp]
  cases hlead : leadOf p with
  | none =>
      have herror : 0x80 ≤ runeError := by decide
      exact ⟨herror, fun b hb => absurd hb List.not_mem_nil⟩
  | some q =>
      refine ⟨?_, fun b hb => ?_⟩
      · dsimp only
        split
        next hlength =>
          obtain ⟨r, hr⟩ := spells_continued hlead hlength
          have hlow := (encodeRune_of_spells hr).2.1
          rw [hr.value]
          omega
        next => decide
      · rw [Nat.add_sub_cancel, ← List.prefix_iff_eq_take.mp (prefix_continued q rest)] at hb
        exact not_ascii_of_tailByte (tailByte_of_mem_continued hlead b hb)

theorem decodeRune_high (p : UInt8) (rest : Bytes) (hp : ¬ p < 0x80) :
    0x80 ≤ (decodeRune p rest).1 ∧ ∀ b ∈ rest.take ((decodeRune p rest).2 - 1), ¬ b < 0x80 := by
  refine ⟨decodeRune_ge hp rest, ?_⟩
  cases decoded p rest with
  | ascii hascii => exact absurd hascii hp
  | whole q t rest' r heq hspells =>
      subst heq
      rw [hspells.decodeRune, Nat.add_sub_cancel, List.take_left]
      exact fun b hb => not_ascii_of_tailByte (hspells.cont b hb)
  | error _ hdec =>
      rw [hdec]
      exact fun b hb => absurd hb List.not_mem_nil

theorem readFrom_decodeChar {s : Bytes} (h : validString s) : readFrom decodeChar 0 s = runes s := by
  induction s using runes_induction with
  | nil => rfl
  | ascii p rest hp ih =>
      have hchar : decodeChar p rest = (p.toNat, 1) := if_pos hp
      rw [validString_ascii hp] at h
      rw [readFrom, hchar, runes_ascii hp]
      exact congrArg (List.cons _) (ih h)
  | whole q p t rest r hspells ih =>
      rw [hspells.validString] at h
      rw [readFrom, decodeChar_of_spells hspells, readFrom_eq, Nat.add_sub_cancel, List.drop_left, hspells.runes]
      exact congrArg (List.cons r) (ih h)
  | error p rest hp hdec ih =>
      rw [validString_cons, hdec] at h
      simp [hp] at h

def utf16 (r : Nat) : List Nat :=
  if r < 0x10000 then [r] else [0xD800 + (r - 0x10000) / 0x400, 0xDC00 + (r - 0x10000) % 0x400]

theorem utf16_ne_nil (r : Nat) : utf16 r ≠ [] := by
  rw [utf16]
  split <;> exact List.cons_ne_nil _ _

theorem length_utf16_le {r : Nat} (h : Scalar r) : (utf16 r).length ≤ (encodeRune r).length := by
  obtain ⟨hmax, hsurr⟩ := h
  rw [utf16, encodeRune]
  split_ifs <;> first | omega | simp

theorem mem_utf16_low {r c : Nat} (hc : c < 0xD800) : c ∈ utf16 r ↔ r = c := by
  rw [utf16]
  split
  · rw [List.mem_singleton, eq_comm]
  · rw [List.mem_pair]
    omega

theorem countP_utf16 {count : Nat → Bool} (hhigh : ∀ r, 0xD800 ≤ r → count r = false) (l : List Nat) :
    (l.flatMap utf16).countP count = l.countP count := by
  induction l with
  | nil => rfl
  | cons r l ih =>
      rw [List.flatMap_cons, List.countP_append, ih, List.countP_cons, Nat.add_comm]
      congr 1
      rw [utf16]
      split
      · exact List.countP_singleton
      next hr =>
        rw [hhigh r (by omega), List.countP_cons, List.countP_singleton, hhigh _ (Nat.le_add_right _ _),
          hhigh _ (by omega)]
        rfl

section Separator

variable {A : Type} [DecidableEq A]

/-- `s.indexOf(sep)` -/
def indexOf (sep : List A) : List A → Option Nat
  | [] => if sep = [] then some 0 else none
  | c :: s => if sep.isPrefixOf (c :: s) then some 0 else (indexOf sep s).map (· + 1)

theorem indexOf_bytes (sep s : Bytes) : GoBytes.indexOf sep s = indexOf sep s := by
  induction s with
  | nil => rfl
  | cons c s ih => rw [GoBytes.indexOf, indexOf, ih]

variable {c d : A} {s : List A}

theorem indexOf_pair_cons (x : A) : indexOf [c, d] (x :: s) =
    if c = x ∧ s.head? = some d then some 0 else (indexOf [c, d] s).map (· + 1) := by
  have hstart : [c, d].isPrefixOf (x :: s) = decide (c = x ∧ s.head? = some d) := by
    cases s with
    | nil => simp [List.isPrefixOf]
    | cons y s =>
        simp [List.isPrefixOf, eq_comm]
        rfl
  rw [indexOf, hstart]
  simp only [decide_eq_true_eq]

theorem split_of_indexOf {i : Nat} (h : indexOf [c, d] s = some i) : s = s.take i ++ c :: d :: s.drop (i + 2) := by
  induction s generalizing i with
  | nil => cases h
  | cons x s ih =>
      rw [indexOf_pair_cons] at h
      split at h
      next hx =>
        cases h
        obtain ⟨rfl, hd⟩ := hx
        cases s with
        | nil => cases hd
        | cons y s =>
            cases hd
            rfl
      next =>
        obtain ⟨i, hi, rfl⟩ := Option.map_eq_some_iff.mp h
        exact congrArg (List.cons x) (ih hi)

theorem indexOf_append {a : List A} (h : c ∉ a) :
    indexOf [c, d] (a ++ s) = (indexOf [c, d] s).map (· + a.length) := by
  induction a with
  | nil => simp
  | cons x a ih =>
      rw [List.mem_cons, not_or] at h
      rw [List.cons_append, indexOf_pair_cons, if_neg fun hx => h.1 hx.1, ih h.2, Option.map_map]
      rfl

end Separator

/-- ASCII characters stand for themselves, and for nothing else. -/
structure Transparent {A : Type} (char : Nat → A) (enc : Nat → List A) (l : List Nat) : Prop where
  ascii : ∀ c, c < 0x80 → enc c = [char c]
  ne_nil : ∀ r ∈ l, enc r ≠ []
  eq_of_mem : ∀ c, c < 0x80 → ∀ r ∈ l, char c ∈ enc r → r = c

theorem transparent_utf16 (l : List Nat) : Transparent id utf16 l where
  ascii := fun c hc => if_pos (by omega)
  ne_nil := fun r _ => utf16_ne_nil r
  eq_of_mem := fun _ hc _ _ h => (mem_utf16_low (by omega)).mp h

theorem transparent_encodeRune {l : List Nat} (h : ∀ r ∈ l, Scalar r) : Transparent UInt8.ofNat encodeRune l where
  ascii := fun c hc => if_pos (by omega)
  ne_nil := fun r _ => encodeRune_ne_nil r
  eq_of_mem := fun c hc r hr hmem => by
    have hval := toNat_ofNat_lt (n := c) (by omega)
    obtain ⟨p, -, rfl, henc⟩ | ⟨p, t, q, henc, hspells⟩ := encodeRune_cases (h r hr)
    · rw [henc, List.mem_singleton] at hmem
      rw [← hmem, hval]
    · rw [henc] at hmem
      rcases List.mem_cons.mp hmem with rfl | hmem
      · exact absurd (show (UInt8.ofNat c).toNat < 0x80 from hval.symm ▸ hc) (not_ascii hspells.lead)
      · have hcont := hspells.cont _ hmem
        rw [TailByte, hval] at hcont
        omega

section Encoded

variable {A : Type} [DecidableEq A] {char : Nat → A} {enc : Nat → List A} {l : List Nat}

omit [DecidableEq A] in
theorem Transparent.of_cons {r : Nat} (h : Transparent char enc (r :: l)) : Transparent char enc l :=
  ⟨h.ascii, (List.forall_mem_cons.mp h.ne_nil).2, fun c hc => (List.forall_mem_cons.mp (h.eq_of_mem c hc)).2⟩

omit [DecidableEq A] in
theorem Transparent.mem_iff (h : Transparent char enc l) {c : Nat} (hc : c < 0x80) :
    char c ∈ l.flatMap enc ↔ c ∈ l := by
  rw [List.mem_flatMap]
  constructor
  · rintro ⟨r, hr, hmem⟩
    exact h.eq_of_mem c hc r hr hmem ▸ hr
  · intro hmem
    exact ⟨c, hmem, h.ascii c hc ▸ List.mem_singleton_self _⟩

omit [DecidableEq A] in
theorem Transparent.head_iff (h : Transparent char enc l) {c : Nat} (hc : c < 0x80) :
    (l.flatMap enc).head? = some (char c) ↔ l.head? = some c := by
  cases l with
  | nil => simp
  | cons r l =>
      rw [List.flatMap_cons, List.head?_append_of_ne_nil _ (h.ne_nil r List.mem_cons_self), List.head?_cons,
        Option.some_inj]
      constructor
      · intro hhead
        exact h.eq_of_mem c hc r List.mem_cons_self (List.mem_of_mem_head? hhead)
      · rintro rfl
        rw [h.ascii r hc]
        rfl

theorem Transparent.indexOf (h : Transparent char enc l) {c d : Nat} (hc : c < 0x80) (hd : d < 0x80) :
    indexOf [char c, char d] (l.flatMap enc) =
      (indexOf [c, d] l).map fun i => ((l.take i).flatMap enc).length := by
  induction l with
  | nil => rfl
  | cons r l ih =>
      have hrest := ih h.of_cons
      have hhead := h.of_cons.head_iff hd
      rw [List.flatMap_cons, indexOf_pair_cons]
      by_cases hr : r = c
      · subst hr
        rw [h.ascii r hc, List.singleton_append, indexOf_pair_cons, hrest]
        by_cases hnext : l.head? = some d
        · rw [if_pos ⟨rfl, hhead.mpr hnext⟩, if_pos ⟨rfl, hnext⟩]
          rfl
        · rw [if_neg fun h => hnext (hhead.mp h.2), if_neg fun h => hnext h.2, Option.map_map, Option.map_map]
          congr 1
          funext i
          simp [h.ascii r hc, Nat.add_comm]
      · rw [indexOf_append fun hmem => hr (h.eq_of_mem c hc r List.mem_cons_self hmem), hrest,
          if_neg fun hx => hr hx.1.symm, Option.map_map, Option.map_map]
        congr 1
        funext i
        simp [Nat.add_comm]

end Encoded

end MeshcoreAnalyzer.TextDecoding

import MeshcoreAnalyzer.Spaces
import MeshcoreAnalyzer.FrameGrammar

namespace MeshcoreAnalyzer.RawHex

open GoBytes Spaces MeshcoreAnalyzer.Frame

variable {ε δ α : Type}

theorem index_same {xs : List α} {i : Nat} {x : α} (h : (index xs i : Go ε α) = .ok x) :
    (index xs i : Go δ α) = .ok x := by
  rw [index] at h ⊢
  cases hx : xs[i]? with
  | none =>
      rw [hx] at h
      cases h
  | some y =>
      rw [hx] at h
      cases h
      rfl

theorem slice_same {buf bs : Bytes} {i j : Nat} (h : (slice buf i j : Go ε Bytes) = .ok bs) :
    (slice buf i j : Go δ Bytes) = .ok bs := by
  rw [slice] at h ⊢
  split at h
  · next hij =>
    rw [if_pos hij]
    cases h
    rfl
  · cases h

/-- What `DecodePacket` takes out of a text, wherever it stands. -/
def isBlank (c : UInt8) : Bool := c == 0x20 || c == 0x0A || c == 0x0D

/-- `TrimSpace` leaves no space that `DecodePacket` would take out. -/
def Unbroken (s : Bytes) : Prop := ∀ c ∈ trimSpace s, isBlank c = false

instance (s : Bytes) : Decidable (Unbroken s) := by
  unfold Unbroken; infer_instance

theorem hexVal_spec : ∀ c : UInt8, (hexVal c).isSome = true → c < 0x80 ∧ isSpace c.toNat = false ∧ isBlank c = false := by
  decide +kernel

theorem isBlank_spec : ∀ c : UInt8, isBlank c = true → c < 0x80 ∧ isSpace c.toNat = true := by decide +kernel

theorem stripSpace_eq (s : Bytes) : stripSpace s = s.filter fun c => !isBlank c := by
  apply List.filter_congr
  intro c _
  simp [isBlank, bne, Bool.and_assoc]

theorem digit_or_blank {s bs : Bytes} (h : HexOf (stripSpace s) bs) {c : UInt8} (hc : c ∈ s) :
    (hexVal c).isSome = true ∨ isBlank c = true := by
  by_cases hblank : isBlank c = true
  · exact .inr hblank
  · refine .inl (h.digits c ?_)
    rw [stripSpace_eq, List.mem_filter]
    exact ⟨hc, by rw [Bool.not_eq_true] at hblank; rw [hblank]; rfl⟩

theorem isSpace_eq_isBlank {s bs : Bytes} (h : HexOf (stripSpace s) bs) {c : UInt8} (hc : c ∈ s) :
    isSpace c.toNat = isBlank c := by
  rcases digit_or_blank h hc with hdigit | hblank
  · rw [(hexVal_spec c hdigit).2.1, (hexVal_spec c hdigit).2.2]
  · rw [(isBlank_spec c hblank).2, hblank]

theorem Unbroken.trimSpace_eq {s bs : Bytes} (hs : Unbroken s) (h : HexOf (stripSpace s) bs) :
    trimSpace s = stripSpace s := by
  have hascii : ∀ c ∈ s, c < 0x80 := by
    intro c hc
    rcases digit_or_blank h hc with hdigit | hblank
    · exact (hexVal_spec c hdigit).1
    · exact (isBlank_spec c hblank).1
  rw [Unbroken, trimSpace_ascii hascii] at hs
  have hspace : ∀ c ∈ trim (fun c => isSpace c.toNat) s, isSpace c.toNat = false := by
    intro c hc
    have hmem : c ∈ s := (List.dropWhile_suffix _).subset ((List.rdropWhile_prefix _ _).subset hc)
    exact (isSpace_eq_isBlank h hmem).trans (hs c hc)
  rw [trimSpace_ascii hascii, stripSpace_eq, ← filter_eq_trim hspace]
  apply List.filter_congr
  intro c hc
  rw [isSpace_eq_isBlank h hc]

theorem unbroken_of_hexDecode {s bs : Bytes} (h : hexDecode (trimSpace s) = .ok bs) : Unbroken s := by
  intro c hc
  exact (hexVal_spec c (((hexDecode_eq_ok _ _).mp h).digits c hc)).2.2

end MeshcoreAnalyzer.RawHex

import MeshcoreAnalyzer.Runes
import Mathlib.Data.List.DropRight

namespace MeshcoreAnalyzer.Spaces

open GoBytes Runes

/-- `unicode.IsSpace` -/
def isSpace (r : Nat) : Bool :=
  (9 ≤ r && r ≤ 13) || (0x2000 ≤ r && r ≤ 0x200A) ||
    r ∈ [0x20, 0x85, 0xA0, 0x1680, 0x2028, 0x2029, 0x202F, 0x205F, 0x3000]

/-- Each byte, with whether the rune it belongs to is a space; `k` more bytes belong to
the rune before. -/
def markSpaces : Nat → Bool → Bytes → List (UInt8 × Bool)
  | _, _, [] => []
  | k + 1, space, c :: rest => (c, space) :: markSpaces k space rest
  | 0, _, c :: rest =>
      let (r, width) := decodeRune c rest
      (c, isSpace r) :: markSpaces (width - 1) (isSpace r) rest

def trim {α : Type} (p : α → Bool) (l : List α) : List α := (l.dropWhile p).rdropWhile p

/-- `strings.TrimSpace` -/
def trimSpace (s : Bytes) : Bytes := (trim Prod.snd (markSpaces 0 false s)).map Prod.fst

/-- `strings.HasPrefix` with one byte -/
def hasPrefix (c : UInt8) (s : Bytes) : Bool := s.head? == some c

variable {α β : Type} {p : α → Bool}

theorem trim_map (q : β → Bool) (f : α → β) (l : List α) : trim q (l.map f) = (trim (q ∘ f) l).map f := by
  rw [trim, List.dropWhile_map, trim, List.rdropWhile, ← List.map_reverse, List.dropWhile_map, ← List.map_reverse]
  rfl

theorem filter_dropWhile (l : List α) : (l.dropWhile p).filter (fun x => !p x) = l.filter fun x => !p x := by
  induction l with
  | nil => rfl
  | cons x l ih => by_cases hx : p x = true <;> simp [hx, ih]

theorem filter_trim (l : List α) : (trim p l).filter (fun x => !p x) = l.filter fun x => !p x := by
  rw [trim, List.rdropWhile, List.filter_reverse, filter_dropWhile, List.filter_reverse, filter_dropWhile,
    List.reverse_reverse]

theorem filter_eq_trim {l : List α} (h : ∀ x ∈ trim p l, p x = false) : l.filter (fun x => !p x) = trim p l := by
  rw [← filter_trim, List.filter_eq_self]
  intro x hx
  rw [h x hx, Bool.not_false]

theorem markSpaces_ascii {s : Bytes} (h : ∀ c ∈ s, c < 0x80) :
    ∀ b, markSpaces 0 b s = s.map fun c => (c, isSpace c.toNat) := by
  induction s with
  | nil => exact fun _ => rfl
  | cons c s ih =>
      intro b
      rw [List.forall_mem_cons] at h
      rw [markSpaces, decodeRune_ascii h.1]
      exact congrArg _ (ih h.2 _)

theorem trimSpace_ascii {s : Bytes} (h : ∀ c ∈ s, c < 0x80) : trimSpace s = trim (fun c => isSpace c.toNat) s := by
  rw [trimSpace, markSpaces_ascii h, trim_map, List.map_map]
  exact List.map_id _

end MeshcoreAnalyzer.Spaces

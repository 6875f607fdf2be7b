import MeshcoreAnalyzer.GroupedQueries
import MeshcoreAnalyzer.Readers

namespace MeshcoreAnalyzer.HexCells

open PacketStore PacketStore.GroupedQueries

/-! The cell ids of cmd/server/hexgrid.go. The projection with its rounding, and the corners of a cell, are
floating point and parameters. -/

structure Geometry (F : Type) where
  axial : F → F → Int64 → Int64 × Int64
  corners : Int → Int → Int → List (F × F)

section Code

variable {F : Type} (geo : Geometry F)

/-- `fmt.Sprintf("%d:%d:%d", res, qi, ri)` -/
def hexCellAt (lat lon : F) (res : Int64) : String :=
  let (q, r) := geo.axial lat lon res
  res.toInt.repr ++ ":" ++ q.toInt.repr ++ ":" ++ r.toInt.repr

def parseHexCell (id : String) : Option (Int × Int × Int) :=
  match (id.toList.splitOn ':').map String.ofList with
  | [a, b, c] => do
      let a ← atoi a
      let b ← atoi b
      let c ← atoi c
      return (a, b, c)
  | _ => none

def hexBoundary (cell : String) : Option (List (F × F)) :=
  (parseHexCell cell).map fun p => geo.corners p.1 p.2.1 p.2.2

end Code

theorem foldl_digits {ds : List Char} (h : ∀ c ∈ ds, c.isDigit = true) (n : Nat) :
    ds.foldl (fun (n : Int) c => n * 10 + (c.toNat - 48)) (n : Int) = (Nat.ofDigitChars 10 ds n : Nat) := by
  induction ds generalizing n with
  | nil => rw [List.foldl_nil, Nat.ofDigitChars_nil]
  | cons c ds ih =>
      obtain ⟨hc, hds⟩ := List.forall_mem_cons.mp h
      have hlow : 48 ≤ c.toNat := by
        rw [Char.isDigit] at hc
        simp only [Bool.and_eq_true, decide_eq_true_eq] at hc
        exact hc.1
      have hnext : (n : Int) * 10 + (c.toNat - 48) = ((10 * n + (c.toNat - '0'.toNat) : Nat) : Int) := by
        have hzero : '0'.toNat = 48 := rfl
        omega
      rw [List.foldl_cons, Nat.ofDigitChars_cons, hnext]
      exact ih hds _

theorem toDigits_ne_nil (n : Nat) : Nat.toDigits 10 n ≠ [] := by
  intro h
  have hlen := Nat.length_toDigits_pos (b := 10) (n := n)
  rw [h] at hlen
  exact absurd hlen (lt_irrefl 0)

theorem isDigit_of_mem_digits {n : Nat} {c : Char} (h : c ∈ Nat.toDigits 10 n) : c.isDigit = true :=
  Nat.isDigit_of_mem_toDigits (by decide) (by decide) h

theorem any_digits (n : Nat) : (Nat.toDigits 10 n).any (fun c => !c.isDigit) = false := by
  apply List.any_eq_false.mpr
  intro c hc
  rw [isDigit_of_mem_digits hc]
  exact Bool.false_ne_true

theorem atoi_of_digits {s : String} {n : Nat} (hs : s.toList = Nat.toDigits 10 n) (hn : n ≤ 9223372036854775807) :
    atoi s = some (n : Int) := by
  rw [atoi, hs]
  split
  next negative digits hsplit =>
    split at hsplit
    · next ds h => exact absurd (isDigit_of_mem_digits (h ▸ List.mem_cons_self)) (by decide)
    · next ds h => exact absurd (isDigit_of_mem_digits (h ▸ List.mem_cons_self)) (by decide)
    · cases hsplit
      have hno : ¬ (Nat.toDigits 10 n = [] ∨ (Nat.toDigits 10 n).any (fun c => !c.isDigit) = true) := by
        rw [any_digits, or_iff_left Bool.false_ne_true]
        exact toDigits_ne_nil n
      have hvalue := foldl_digits (fun c => isDigit_of_mem_digits (n := n)) 0
      rw [Nat.ofDigitChars_ten_toDigits] at hvalue
      rw [if_neg hno, hvalue]
      exact if_pos ⟨by omega, by omega⟩

theorem atoi_of_minus {s : String} {n : Nat} (hs : s.toList = '-' :: Nat.toDigits 10 n) (hn : n ≤ 9223372036854775808) :
    atoi s = some (-(n : Int)) := by
  rw [atoi, hs]
  split
  next negative digits hsplit =>
    have hpair : (true, Nat.toDigits 10 n) = (negative, digits) := hsplit
    cases hpair
    have hno : ¬ (Nat.toDigits 10 n = [] ∨ (Nat.toDigits 10 n).any (fun c => !c.isDigit) = true) := by
      rw [any_digits, or_iff_left Bool.false_ne_true]
      exact toDigits_ne_nil n
    have hvalue := foldl_digits (fun c => isDigit_of_mem_digits (n := n)) 0
    rw [Nat.ofDigitChars_ten_toDigits] at hvalue
    rw [if_neg hno, hvalue]
    exact if_pos ⟨by simp only [if_true]; omega, by simp only [if_true]; omega⟩

theorem atoi_repr {n : Int} (hlow : -9223372036854775808 ≤ n) (hhigh : n ≤ 9223372036854775807) :
    atoi n.repr = some n := by
  rw [Int.repr_eq_if]
  split
  · rw [atoi_of_digits Nat.toList_repr (by omega)]
    congr 1
    omega
  · have hminus : ("-" ++ (-n).toNat.repr).toList = '-' :: Nat.toDigits 10 (-n).toNat := by
      rw [String.toList_append, Nat.toList_repr]
      rfl
    rw [atoi_of_minus hminus (by omega)]
    congr 1
    omega

theorem atoi_toInt (n : Int64) : atoi n.toInt.repr = some n.toInt :=
  atoi_repr n.le_toInt (Int.le_of_lt_add_one n.toInt_lt)

theorem parseHexCell_hexCellAt {F : Type} (geo : Geometry F) (lat lon : F) (res : Int64) :
    parseHexCell (hexCellAt geo lat lon res) =
      some (res.toInt, (geo.axial lat lon res).1.toInt, (geo.axial lat lon res).2.toInt) := by
  set q := (geo.axial lat lon res).1
  set r := (geo.axial lat lon res).2
  have htext : (hexCellAt geo lat lon res).toList =
      [':'].intercalate [res.toInt.repr.toList, q.toInt.repr.toList, r.toInt.repr.toList] := by
    rw [hexCellAt]
    simp [String.toList_append, List.intercalate_cons_cons, q, r]
  have hparts : (hexCellAt geo lat lon res).toList.splitOn ':' =
      [res.toInt.repr.toList, q.toInt.repr.toList, r.toInt.repr.toList] := by
    rw [htext]
    apply List.splitOn_intercalate
    · intro part hpart
      simp only [List.mem_cons, List.not_mem_nil, or_false] at hpart
      rcases hpart with rfl | rfl | rfl
      · exact notMem_repr rfl (by decide) _
      · exact notMem_repr rfl (by decide) _
      · exact notMem_repr rfl (by decide) _
    · exact List.cons_ne_nil _ _
  rw [parseHexCell, hparts]
  simp only [List.map_cons, List.map_nil, String.ofList_toList, atoi_toInt]
  rfl

end MeshcoreAnalyzer.HexCells

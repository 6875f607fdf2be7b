import Mathlib.Algebra.Order.Field.Rat
import Mathlib.Tactic.FieldSimp
import Mathlib.Tactic.Ring
import MeshcoreAnalyzer.ClosedChains

namespace MeshcoreAnalyzer.GeoFilter

open ClosedChains

/-! The geographic filter, internal/geofilter/geofilter.go, over exact numbers. -/

abbrev Point := ℚ × ℚ

structure Config where
  polygon : List Point
  bufferKm : ℚ
  latMin : Option ℚ
  latMax : Option ℚ
  lonMin : Option ℚ
  lonMax : Option ℚ

def quotient (a b : ℚ) : Option ℚ := if b = 0 then none else some (a / b)

def visitVertex (lat lon : ℚ) (s : Bool × Point) (vi : Point) : Option (Bool × Point) :=
  let (yi, xi) := vi
  let (yj, xj) := s.2
  if decide (lat < yi) ≠ decide (lat < yj) then
    (quotient ((xj - xi) * (lat - yi)) (yj - yi)).map fun q => (if lon < q + xi then !s.1 else s.1, vi)
  else some (s.1, vi)

def pointInPolygon (lat lon : ℚ) (polygon : List Point) : Option Bool :=
  match polygon.getLast? with
  | none => some false
  | some last => (polygon.foldlM (visitVertex lat lon) (false, last)).map Prod.fst

variable (distToSegmentKm : ℚ → ℚ → Point → Point → ℚ)

def passesFilter (lat lon : ℚ) (gf : Option Config) : Option Bool :=
  match gf with
  | none => some true
  | some gf =>
      if lat = 0 ∧ lon = 0 then some true
      else if 3 ≤ gf.polygon.length then
        (pointInPolygon lat lon gf.polygon).map fun inside => inside ||
          0 < gf.bufferKm && (gf.polygon.zip (gf.polygon.rotate 1)).any fun side =>
            distToSegmentKm lat lon side.1 side.2 ≤ gf.bufferKm
      else match gf.latMin, gf.latMax, gf.lonMin, gf.lonMax with
        | some latMin, some latMax, some lonMin, some lonMax =>
            some (latMin ≤ lat && lat ≤ latMax && lonMin ≤ lon && lon ≤ lonMax)
        | _, _, _, _ => some true

/-- The half line to the east crosses the side between two vertices, of which one is north of it. -/
def crossesSide (lat lon : ℚ) (j i : Point) : Bool :=
  decide (lat < i.1) ≠ decide (lat < j.1) ∧ lon < (j.2 - i.2) * (lat - i.1) / (j.1 - i.1) + i.2

variable {lat lon : ℚ} {i j : Point}

theorem ne_of_straddles (h : decide (lat < i.1) ≠ decide (lat < j.1)) : j.1 - i.1 ≠ 0 := by
  intro hzero
  rw [sub_eq_zero.mp hzero] at h
  exact h rfl

theorem crossing_symm (h : j.1 - i.1 ≠ 0) :
    (j.2 - i.2) * (lat - i.1) / (j.1 - i.1) + i.2 = (i.2 - j.2) * (lat - j.1) / (i.1 - j.1) + j.2 := by
  have h' : i.1 - j.1 ≠ 0 := by
    rw [← neg_sub]
    exact neg_ne_zero.mpr h
  field_simp
  ring

theorem crossesSide_symm (j i : Point) : crossesSide lat lon j i = crossesSide lat lon i j := by
  apply decide_eq_decide.mpr
  by_cases h : decide (lat < i.1) = decide (lat < j.1)
  · simp [h]
  · rw [crossing_symm (ne_of_straddles h), ne_comm]

theorem visitVertex_eq (inside : Bool) (j i : Point) :
    visitVertex lat lon (inside, j) i = some (inside ^^ crossesSide lat lon j i, i) := by
  obtain ⟨yi, xi⟩ := i
  obtain ⟨yj, xj⟩ := j
  dsimp only [visitVertex]
  by_cases h : decide (lat < yi) = decide (lat < yj)
  · simp [crossesSide, h]
  · have hne : yj - yi ≠ 0 := ne_of_straddles (i := (yi, xi)) (j := (yj, xj)) h
    rw [if_pos h, quotient, if_neg hne]
    by_cases hlon : lon < (xj - xi) * (lat - yi) / (yj - yi) + xi <;>
      simp [crossesSide, h, hlon]

theorem foldlM_visitVertex (inside : Bool) (j : Point) (l : List Point) :
    (l.foldlM (visitVertex lat lon) (inside, j)).map Prod.fst =
      some (inside ^^ chain (crossesSide lat lon) j l) := by
  induction l generalizing inside j with
  | nil => simp [chain]
  | cons i l ih =>
      rw [List.foldlM_cons, visitVertex_eq]
      simp [ih, chain]

theorem pointInPolygon_eq (polygon : List Point) :
    pointInPolygon lat lon polygon = some (closed (crossesSide lat lon) polygon) := by
  cases polygon with
  | nil => rfl
  | cons v l =>
      rw [pointInPolygon, List.getLast?_eq_some_getLast (List.cons_ne_nil v l)]
      simp only [foldlM_visitVertex, chain_getLast, Bool.false_xor]

/-- The answer is whether the half line crosses an odd number of the sides; it depends on neither the first vertex nor
the direction, and a chord between two vertices parts the points inside: each of them is inside of one of the two
parts, and every other point of both or of none. -/
theorem pointInPolygon_partition (lat lon : ℚ) :
    (∀ polygon, pointInPolygon lat lon polygon = some (decide
        ((polygon.zip (polygon.rotate 1)).countP (fun side => crossesSide lat lon side.1 side.2) % 2 = 1)) ∧
      (∀ k, pointInPolygon lat lon (polygon.rotate k) = pointInPolygon lat lon polygon) ∧
      pointInPolygon lat lon polygon.reverse = pointInPolygon lat lon polygon) ∧
    ∀ l₁ a l₂ b l₃, ∃ inA inB, pointInPolygon lat lon (a :: (l₂ ++ [b])) = some inA ∧
      pointInPolygon lat lon (b :: (l₃ ++ l₁ ++ [a])) = some inB ∧
      pointInPolygon lat lon (l₁ ++ a :: (l₂ ++ b :: l₃)) = some (inA ^^ inB) := by
  constructor
  · intro polygon
    refine ⟨by rw [pointInPolygon_eq, closed_eq_odd], fun k => ?_, ?_⟩
    · rw [pointInPolygon_eq, pointInPolygon_eq, closed_rotate]
    · rw [pointInPolygon_eq, pointInPolygon_eq, closed_reverse crossesSide_symm]
  · intro l₁ a l₂ b l₃
    refine ⟨_, _, pointInPolygon_eq _, pointInPolygon_eq _, ?_⟩
    rw [pointInPolygon_eq, closed_chord crossesSide_symm]

theorem isSome_passesFilter (lat lon : ℚ) (gf : Option Config) :
    (passesFilter distToSegmentKm lat lon gf).isSome := by
  cases gf with
  | none => rfl
  | some gf =>
      simp only [passesFilter, pointInPolygon_eq]
      split_ifs
      · rfl
      · rfl
      · split <;> rfl

theorem passesFilter_polygon {gf : Config} (hfix : ¬ (lat = 0 ∧ lon = 0)) (hlen : 3 ≤ gf.polygon.length)
    (hbuffer : gf.bufferKm ≤ 0) :
    passesFilter distToSegmentKm lat lon (some gf) = pointInPolygon lat lon gf.polygon := by
  simp [passesFilter, if_neg hfix, hlen, hbuffer.not_gt]

end MeshcoreAnalyzer.GeoFilter

import MeshcoreAnalyzer.HexCells
import MeshcoreAnalyzer.HexLattice
import Mathlib.Analysis.SpecialFunctions.Log.Basic
import Mathlib.Analysis.SpecialFunctions.Trigonometric.Arctan

namespace MeshcoreAnalyzer.HexGrid

open HexLattice

/-! The hexagons of cmd/server/hexgrid.go: the cell of a point, and the ring that is drawn for it. Integers are not
bounded, and the functions of the projection are those of the real numbers. -/

section Rounding

variable {K : Type} [Field K] [LinearOrder K] [FloorRing K]

/-- `math.Round`: halves away from zero. -/
def mathRound (x : K) : ℤ := if x < 0 then ⌈x - 0.5⌉ else ⌊x + 0.5⌋

def hexRound (q r : K) : ℤ × ℤ :=
  let x := q
  let z := r
  let y := -x - z
  let rx := mathRound x
  let ry := mathRound y
  let rz := mathRound z
  let dx := |(rx : K) - x|
  let dy := |(ry : K) - y|
  let dz := |(rz : K) - z|
  if dy < dx ∧ dz < dx then (-ry - rz, rz)
  else if dz < dy then (rx, rz)
  else (rx, -rx - ry)

end Rounding

noncomputable section

def hexEarthRadius : ℝ := 6378137

def hexTargetPx : ℝ := 28

def mercUPPZ0 : ℝ := 156543.03392

def hexMercator (lat lon : ℝ) : ℝ × ℝ :=
  (hexEarthRadius * lon * Real.pi / 180,
    hexEarthRadius * Real.log (Real.tan (Real.pi / 4 + lat * Real.pi / 360)))

def hexInvMercator (x y : ℝ) : ℝ × ℝ :=
  ((2.0 * Real.arctan (Real.exp (y / hexEarthRadius)) - Real.pi / 2.0) * 180 / Real.pi,
    x / hexEarthRadius * 180 / Real.pi)

def hexSizeForRes (res : ℤ) : ℝ := hexTargetPx / 2.0 * mercUPPZ0 / 2.0 ^ res

def hexMaxLat : ℝ := 85.05112878

def clampLat (lat : ℝ) : ℝ :=
  if hexMaxLat < lat then hexMaxLat else if lat < -hexMaxLat then -hexMaxLat else lat

/-- The axial coordinates that `hexCellAt` writes into the id. -/
def hexCell (lat lon : ℝ) (res : ℤ) : ℤ × ℤ :=
  let lat := clampLat lat
  let size := hexSizeForRes res
  let (x, y) := hexMercator lat lon
  let q := (Real.sqrt 3 / 3 * x - 1.0 / 3 * y) / size
  let r := (2.0 / 3 * y) / size
  hexRound q r

/-- The point of the projection with these axial coordinates. -/
def center (size q r : ℝ) : ℝ × ℝ := (size * (Real.sqrt 3 * q + Real.sqrt 3 / 2.0 * r), size * (1.5 * r))

def hexCorner (size : ℝ) (q r : ℤ) (i : ℕ) : ℝ × ℝ :=
  let (cx, cy) := center size q r
  let ang := Real.pi / 180 * (60 * i - 30)
  let (lat, lon) := hexInvMercator (cx + size * Real.cos ang) (cy + size * Real.sin ang)
  (lon, lat)

/-- The ring that `hexBoundary` returns for the numbers of an id, closed. -/
def hexRing (res q r : ℤ) : List (ℝ × ℝ) :=
  let size := hexSizeForRes res
  let ring := (List.range 6).map (hexCorner size q r)
  ring ++ ring.take 1

def hexagon (res q r : ℤ) : Set (ℝ × ℝ) := convexHull ℝ {p | ∃ c ∈ hexRing res q r, p = hexMercator c.2 c.1}

def mercatorGrid : HexCells.Geometry ℝ where
  axial lat lon res :=
    let (q, r) := hexCell lat lon res.toInt
    (Int64.ofInt q, Int64.ofInt r)
  corners := hexRing

end

section Rounding

variable {K : Type} [Field K] [LinearOrder K] [IsStrictOrderedRing K] [FloorRing K]

theorem abs_mathRound_sub (x : K) : |(mathRound x : K) - x| ≤ 1 / 2 := by
  have hhalf : (0.5 : K) = 1 / 2 := by norm_num
  rw [mathRound, hhalf, abs_le]
  split
  · have hlow := Int.le_ceil (x - 1 / 2)
    have hhigh := Int.ceil_lt_add_one (x - 1 / 2)
    constructor <;> linarith
  · have hlow := Int.floor_le (x + 1 / 2)
    have hhigh := Int.lt_floor_add_one (x + 1 / 2)
    constructor <;> linarith

theorem central_hexRound (q r : K) :
    Central (q - (hexRound q r).1) (-q - r + (hexRound q r).1 + (hexRound q r).2) (r - (hexRound q r).2) := by
  have hx := abs_mathRound_sub q
  have hy := abs_mathRound_sub (-q - r)
  have hz := abs_mathRound_sub r
  rw [hexRound]
  generalize mathRound q = rx at hx ⊢
  generalize mathRound (-q - r) = ry at hy ⊢
  generalize mathRound r = rz at hz ⊢
  have hsum : ((rx : K) - q) + (ry - (-q - r)) + (rz - r) = (rx + ry + rz : ℤ) := by
    push_cast
    ring
  split_ifs with hfirst hsecond
  · have hcentral := (central_of_greatest hsum hx hy hz hfirst.1.le hfirst.2.le).neg
    convert hcentral using 1 <;> push_cast <;> ring
  · have hxy : |(rx : K) - q| ≤ |(ry : K) - (-q - r)| := by
      by_contra hlt
      exact hfirst ⟨not_le.mp hlt, hsecond.trans (not_le.mp hlt)⟩
    have hsum' : ((ry : K) - (-q - r)) + (rz - r) + (rx - q) = (rx + ry + rz : ℤ) := by
      rw [← hsum]
      ring
    have hcentral := (central_of_greatest hsum' hy hz hx hsecond.le hxy).rotate.rotate.neg
    convert hcentral using 1 <;> push_cast <;> ring
  · have hyz := not_lt.mp hsecond
    have hxz : |(rx : K) - q| ≤ |(rz : K) - r| := by
      by_contra hlt
      exact hfirst ⟨hyz.trans_lt (not_le.mp hlt), not_le.mp hlt⟩
    have hsum' : ((rz : K) - r) + (rx - q) + (ry - (-q - r)) = (rx + ry + rz : ℤ) := by
      rw [← hsum]
      ring
    have hcentral := (central_of_greatest hsum' hz hx hy hxz hyz).rotate.neg
    convert hcentral using 1 <;> push_cast <;> ring

theorem axialNorm_hexRound_le (q r : K) (c d : ℤ) :
    axialNorm (q - (hexRound q r).1) (r - (hexRound q r).2) ≤ axialNorm (q - c) (r - d) := by
  have hle := (central_hexRound q r).axialNorm_le (c - (hexRound q r).1) (d - (hexRound q r).2)
  have hq : q - (hexRound q r).1 - ((c - (hexRound q r).1 : ℤ) : K) = q - c := by
    push_cast
    ring
  have hr : r - (hexRound q r).2 - ((d - (hexRound q r).2 : ℤ) : K) = r - d := by
    push_cast
    ring
  rwa [hq, hr] at hle

end Rounding

theorem hexEarthRadius_ne_zero : hexEarthRadius ≠ 0 := by norm_num [hexEarthRadius]

theorem hexSizeForRes_ne_zero (res : ℤ) : hexSizeForRes res ≠ 0 := by
  have hpow : (2.0 : ℝ) ^ res ≠ 0 := zpow_ne_zero _ (by norm_num)
  have htarget : hexTargetPx / 2.0 * mercUPPZ0 ≠ 0 := by norm_num [hexTargetPx, mercUPPZ0]
  exact div_ne_zero htarget hpow

theorem hexMercator_hexInvMercator (x y : ℝ) : hexMercator (hexInvMercator x y).1 (hexInvMercator x y).2 = (x, y) := by
  have hradius := hexEarthRadius_ne_zero
  have hpi := Real.pi_ne_zero
  rw [hexMercator, hexInvMercator]
  ext
  · field_simp
  · have hangle : Real.pi / 4 + (2.0 * Real.arctan (Real.exp (y / hexEarthRadius)) - Real.pi / 2.0) * 180 / Real.pi *
        Real.pi / 360 = Real.arctan (Real.exp (y / hexEarthRadius)) := by
      norm_num
      field_simp
      ring
    simp only [hangle, Real.tan_arctan, Real.log_exp]
    field_simp

theorem center_eq (size q r : ℝ) :
    center size q r = (size * (Real.sqrt 3 * q + Real.sqrt 3 / 2 * r), size * (3 / 2 * r)) := by
  have htwo : (2.0 : ℝ) = 2 := by norm_num
  have hmore : (1.5 : ℝ) = 3 / 2 := by norm_num
  rw [center, htwo, hmore]

theorem center_add (size q r a b : ℝ) :
    center size q r = center size a b + (q - a) • center size 1 0 + (r - b) • center size 0 1 := by
  ext
  · simp only [center_eq, Prod.fst_add, Prod.smul_fst, smul_eq_mul]
    ring
  · simp only [center_eq, Prod.snd_add, Prod.smul_snd, smul_eq_mul]
    ring

theorem mercator_hexCorner {size : ℝ} {q r : ℤ} {i : ℕ} {a b : ℝ}
    (hcos : Real.cos (Real.pi / 180 * (60 * i - 30)) = Real.sqrt 3 * (a + b / 2))
    (hsin : Real.sin (Real.pi / 180 * (60 * i - 30)) = 3 / 2 * b) :
    hexMercator (hexCorner size q r i).2 (hexCorner size q r i).1 =
      center size q r + a • center size 1 0 + b • center size 0 1 := by
  have hplace : hexMercator (hexCorner size q r i).2 (hexCorner size q r i).1 =
      ((center size q r).1 + size * Real.cos (Real.pi / 180 * (60 * i - 30)),
        (center size q r).2 + size * Real.sin (Real.pi / 180 * (60 * i - 30))) :=
    hexMercator_hexInvMercator _ _
  rw [hplace, hcos, hsin]
  ext
  · simp only [center_eq, Prod.fst_add, Prod.smul_fst, smul_eq_mul]
    ring
  · simp only [center_eq, Prod.snd_add, Prod.smul_snd, smul_eq_mul]
    ring

theorem angle_of_corner {c : ℤ × ℤ} (hc : c ∈ corners) :
    ∃ i < 6, Real.cos (Real.pi / 180 * (60 * (i : ℕ) - 30)) = Real.sqrt 3 * (c.1 / 3 + c.2 / 3 / 2) ∧
      Real.sin (Real.pi / 180 * (60 * (i : ℕ) - 30)) = 3 / 2 * (c.2 / 3) := by
  simp only [corners, List.mem_cons, List.not_mem_nil, or_false] at hc
  rcases hc with rfl | rfl | rfl | rfl | rfl | rfl
  · have hangle : Real.pi / 180 * (60 * (0 : ℕ) - 30) = -(Real.pi / 6) := by
      push_cast
      ring
    refine ⟨0, by omega, ?_, ?_⟩
    · rw [hangle, Real.cos_neg, Real.cos_pi_div_six]
      ring
    · rw [hangle, Real.sin_neg, Real.sin_pi_div_six]
      ring
  · have hangle : Real.pi / 180 * (60 * (1 : ℕ) - 30) = Real.pi / 6 := by
      push_cast
      ring
    refine ⟨1, by omega, ?_, ?_⟩
    · rw [hangle, Real.cos_pi_div_six]
      ring
    · rw [hangle, Real.sin_pi_div_six]
      ring
  · have hangle : Real.pi / 180 * (60 * (2 : ℕ) - 30) = Real.pi / 2 := by
      push_cast
      ring
    refine ⟨2, by omega, ?_, ?_⟩
    · rw [hangle, Real.cos_pi_div_two]
      ring
    · rw [hangle, Real.sin_pi_div_two]
      ring
  · have hangle : Real.pi / 180 * (60 * (3 : ℕ) - 30) = Real.pi - Real.pi / 6 := by
      push_cast
      ring
    refine ⟨3, by omega, ?_, ?_⟩
    · rw [hangle, Real.cos_pi_sub, Real.cos_pi_div_six]
      ring
    · rw [hangle, Real.sin_pi_sub, Real.sin_pi_div_six]
      ring
  · have hangle : Real.pi / 180 * (60 * (4 : ℕ) - 30) = Real.pi / 6 + Real.pi := by
      push_cast
      ring
    refine ⟨4, by omega, ?_, ?_⟩
    · rw [hangle, Real.cos_add_pi, Real.cos_pi_div_six]
      ring
    · rw [hangle, Real.sin_add_pi, Real.sin_pi_div_six]
      ring
  · have hangle : Real.pi / 180 * (60 * (5 : ℕ) - 30) = Real.pi / 2 + Real.pi := by
      push_cast
      ring
    refine ⟨5, by omega, ?_, ?_⟩
    · rw [hangle, Real.cos_add_pi, Real.cos_pi_div_two]
      ring
    · rw [hangle, Real.sin_add_pi, Real.sin_pi_div_two]
      ring

theorem center_mem_hexagon (res : ℤ) (q r : ℝ) :
    center (hexSizeForRes res) q r ∈ hexagon res (hexRound q r).1 (hexRound q r).2 := by
  rw [center_add (hexSizeForRes res) q r (hexRound q r).1 (hexRound q r).2]
  apply (central_hexRound q r).mem_of_corners (convex_convexHull ℝ _)
  intro c hc
  obtain ⟨i, hi, hcos, hsin⟩ := angle_of_corner hc
  apply subset_convexHull
  refine ⟨hexCorner (hexSizeForRes res) (hexRound q r).1 (hexRound q r).2 i, ?_, (mercator_hexCorner hcos hsin).symm⟩
  exact List.mem_append_left _ (List.mem_map_of_mem (List.mem_range.mpr hi))

theorem center_axial {size : ℝ} (h : size ≠ 0) (x y : ℝ) :
    center size ((Real.sqrt 3 / 3 * x - 1.0 / 3 * y) / size) ((2.0 / 3 * y) / size) = (x, y) := by
  have hroot : Real.sqrt 3 * Real.sqrt 3 = 3 := Real.mul_self_sqrt (by norm_num)
  have hone : (1.0 : ℝ) = 1 := by norm_num
  have htwo : (2.0 : ℝ) = 2 := by norm_num
  rw [center_eq, hone, htwo]
  ext
  · field_simp
    linear_combination x * hroot
  · field_simp

theorem hexMercator_mem_hexagon (lat lon : ℝ) (res : ℤ) :
    hexMercator (clampLat lat) lon ∈ hexagon res (hexCell lat lon res).1 (hexCell lat lon res).2 := by
  have hmem := center_mem_hexagon res
    ((Real.sqrt 3 / 3 * (hexMercator (clampLat lat) lon).1 - 1.0 / 3 * (hexMercator (clampLat lat) lon).2) /
      hexSizeForRes res) ((2.0 / 3 * (hexMercator (clampLat lat) lon).2) / hexSizeForRes res)
  rw [center_axial (hexSizeForRes_ne_zero res)] at hmem
  exact hmem

theorem hexBoundary_hexCellAt {lat lon : ℝ} {res : Int64} {q r : ℤ} (hcell : hexCell lat lon res.toInt = (q, r))
    (hq : -2 ^ 63 ≤ q ∧ q < 2 ^ 63) (hr : -2 ^ 63 ≤ r ∧ r < 2 ^ 63) :
    HexCells.hexBoundary mercatorGrid (HexCells.hexCellAt mercatorGrid lat lon res) = some (hexRing res.toInt q r) := by
  have haxial : mercatorGrid.axial lat lon res = (Int64.ofInt q, Int64.ofInt r) := by
    simp only [mercatorGrid, hcell]
  rw [HexCells.hexBoundary, HexCells.parseHexCell_hexCellAt, haxial, Option.map_some]
  rw [Int64.toInt_ofInt_of_le hq.1 hq.2, Int64.toInt_ofInt_of_le hr.1 hr.2]
  rfl

/-- The three errors may tie in any way. -/
theorem hexRound_nearest :
    (∀ (q r : ℚ) (c d : ℤ),
      axialNorm (q - (hexRound q r).1) (r - (hexRound q r).2) ≤ axialNorm (q - c) (r - d)) ∧
    (∀ (res : ℤ) (q r : ℝ), center (hexSizeForRes res) q r ∈ hexagon res (hexRound q r).1 (hexRound q r).2) ∧
    ∀ (lat lon : ℝ) (res : ℤ),
      hexMercator (clampLat lat) lon ∈ hexagon res (hexCell lat lon res).1 (hexCell lat lon res).2 :=
  ⟨axialNorm_hexRound_le, center_mem_hexagon, hexMercator_mem_hexagon⟩

end MeshcoreAnalyzer.HexGrid

import Mathlib.Analysis.Convex.Combination
import Mathlib.Tactic.Linarith
import Mathlib.Tactic.Module
import Mathlib.Tactic.Ring

namespace MeshcoreAnalyzer.HexLattice

/-! The triangular lattice: its points have three integer coordinates with sum zero, the first and the last of which
are the axial coordinates, and each is the centre of a hexagon. -/

variable {K : Type} [Field K] [LinearOrder K] {x y z : K}

def axialNorm (x z : K) : K := x * x + x * z + z * z

structure Central (x y z : K) : Prop where
  sum : x + y + z = 0
  xy : |x - y| ≤ 1
  yz : |y - z| ≤ 1
  zx : |z - x| ≤ 1

theorem Central.rotate (h : Central x y z) : Central y z x :=
  ⟨by rw [← h.sum]; ring, h.yz, h.zx, h.xy⟩

variable [IsStrictOrderedRing K]

theorem Central.neg (h : Central x y z) : Central (-x) (-y) (-z) := by
  have hflip : ∀ a b : K, |-a - -b| = |a - b| := by
    intro a b
    rw [← abs_neg (a - b)]
    congr 1
    ring
  refine ⟨?_, ?_, ?_, ?_⟩
  · have hsum := h.sum
    linarith
  · rw [hflip]
    exact h.xy
  · rw [hflip]
    exact h.yz
  · rw [hflip]
    exact h.zx

theorem central_of_half (hsum : x + y + z = 0) (hx : |x| ≤ 1 / 2) (hy : |y| ≤ 1 / 2) (hz : |z| ≤ 1 / 2) :
    Central x y z := by
  rw [abs_le] at hx hy hz
  refine ⟨hsum, ?_, ?_, ?_⟩
  · rw [abs_le]
    constructor <;> linarith
  · rw [abs_le]
    constructor <;> linarith
  · rw [abs_le]
    constructor <;> linarith

theorem central_of_one (hsum : x + y + z = 1) (hx : |x| ≤ 1 / 2) (hy : |y| ≤ 1 / 2) (hz : |z| ≤ 1 / 2)
    (hyx : |y| ≤ |x|) (hzx : |z| ≤ |x|) : Central (x - 1) y z := by
  rw [abs_le] at hx hy hz
  have hx0 : 0 ≤ x := by linarith
  have hy0 : 0 ≤ y := by linarith
  have hz0 : 0 ≤ z := by linarith
  rw [abs_of_nonneg hx0, abs_of_nonneg hy0] at hyx
  rw [abs_of_nonneg hx0, abs_of_nonneg hz0] at hzx
  refine ⟨by linarith, ?_, ?_, ?_⟩
  · rw [abs_le]
    constructor <;> linarith
  · rw [abs_le]
    constructor <;> linarith
  · rw [abs_le]
    constructor <;> linarith

theorem central_of_greatest {n : ℤ} (hsum : x + y + z = n) (hx : |x| ≤ 1 / 2) (hy : |y| ≤ 1 / 2) (hz : |z| ≤ 1 / 2)
    (hyx : |y| ≤ |x|) (hzx : |z| ≤ |x|) : Central (x - n) y z := by
  have hn : n = -1 ∨ n = 0 ∨ n = 1 := by
    have hx' := abs_le.mp hx
    have hy' := abs_le.mp hy
    have hz' := abs_le.mp hz
    have hlow : (-2 : K) < n := by linarith
    have hhigh : (n : K) < 2 := by linarith
    have hlow' : -2 < n := by exact_mod_cast hlow
    have hhigh' : n < 2 := by exact_mod_cast hhigh
    omega
  rcases hn with rfl | rfl | rfl
  · have hone : -x + -y + -z = 1 := by
      push_cast at hsum
      linarith
    rw [← abs_neg x] at hx hyx hzx
    rw [← abs_neg y] at hy hyx
    rw [← abs_neg z] at hz hzx
    have hcentral := (central_of_one hone hx hy hz hyx hzx).neg
    simpa [sub_eq_add_neg, add_comm] using hcentral
  · rw [Int.cast_zero] at hsum ⊢
    rw [sub_zero]
    exact central_of_half hsum hx hy hz
  · rw [Int.cast_one] at hsum ⊢
    exact central_of_one hsum hx hy hz hyx hzx

theorem combine {i j : ℤ} (hi : 0 ≤ i) (hj : 0 ≤ j) {u v : K} (hu : u ≤ 1) (hv : v ≤ 1) :
    i * u + j * v ≤ axialNorm (i : K) j := by
  have hnorm : i + j ≤ i * i + i * j + j * j := by
    nlinarith [Int.mul_nonneg hi hj, sq_nonneg (i - 1), sq_nonneg (j - 1)]
  have hnorm' : (i + j : K) ≤ axialNorm (i : K) j := by
    rw [axialNorm]
    exact_mod_cast hnorm
  have hi' : (i : K) * u ≤ i := mul_le_of_le_one_right (by exact_mod_cast hi) hu
  have hj' : (j : K) * v ≤ j := mul_le_of_le_one_right (by exact_mod_cast hj) hv
  linarith

theorem Central.axialNorm_le (h : Central x y z) (m n : ℤ) : axialNorm x z ≤ axialNorm (x - m) (z - n) := by
  obtain ⟨hsum, hxy, hyz, hzx⟩ := h
  rw [abs_le] at hxy hyz hzx
  have hdot : m * (x - y) + n * (z - y) ≤ axialNorm (m : K) n := by
    rcases le_total 0 m with hm | hm <;> rcases le_total 0 n with hn | hn
    · exact combine hm hn hxy.2 (by linarith)
    · rcases le_total 0 (m + n) with hmn | hmn
      · have hsector := combine hmn (Int.neg_nonneg_of_nonpos hn) hxy.2 (by linarith : x - z ≤ 1)
        rw [axialNorm] at hsector ⊢
        push_cast at hsector
        linarith
      · have hsector := combine hm (Int.neg_nonneg_of_nonpos hmn) (by linarith : x - z ≤ 1) (by linarith : y - z ≤ 1)
        rw [axialNorm] at hsector ⊢
        push_cast at hsector
        linarith
    · rcases le_total 0 (m + n) with hmn | hmn
      · have hsector := combine hmn (Int.neg_nonneg_of_nonpos hm) (by linarith : z - y ≤ 1) (by linarith : z - x ≤ 1)
        rw [axialNorm] at hsector ⊢
        push_cast at hsector
        linarith
      · have hsector := combine hn (Int.neg_nonneg_of_nonpos hmn) (by linarith : z - x ≤ 1) (by linarith : y - x ≤ 1)
        rw [axialNorm] at hsector ⊢
        push_cast at hsector
        linarith
    · have hsector := combine (Int.neg_nonneg_of_nonpos hm) (Int.neg_nonneg_of_nonpos hn) (by linarith : y - x ≤ 1)
        (by linarith : y - z ≤ 1)
      rw [axialNorm] at hsector ⊢
      push_cast at hsector
      linarith
  have hy : y = -x - z := by linarith
  rw [hy] at hdot
  rw [axialNorm] at hdot
  rw [axialNorm, axialNorm]
  linarith

def corners : List (ℤ × ℤ) := [(2, -1), (1, 1), (-1, 2), (-2, 1), (-1, -1), (1, -2)]

section Hull

variable {E : Type} [AddCommGroup E] [Module K E] {S : Set E}

theorem mem_of_triangle (hS : Convex K S) {o a b : E} (ho : o ∈ S) (ha : a ∈ S) (hb : b ∈ S) {α β : K} (hα : 0 ≤ α)
    (hβ : 0 ≤ β) (h : α + β ≤ 1) : (1 - α - β) • o + α • a + β • b ∈ S := by
  have hsum : ∑ i : Fin 3, ![1 - α - β, α, β] i = 1 := by
    rw [Fin.sum_univ_three]
    change 1 - α - β + α + β = 1
    ring
  have hmem := hS.sum_mem (t := Finset.univ) (w := ![1 - α - β, α, β]) (z := ![o, a, b]) ?_ hsum ?_
  · rwa [Fin.sum_univ_three] at hmem
  · intro i _
    fin_cases i
    · change 0 ≤ 1 - α - β
      linarith
    · exact hα
    · exact hβ
  · intro i _
    fin_cases i
    · exact ho
    · exact ha
    · exact hb

theorem Central.mem_of_corners (h : Central x y z) (hS : Convex K S) (o u v : E)
    (hcorners : ∀ c ∈ corners, o + (c.1 / 3 : K) • u + (c.2 / 3 : K) • v ∈ S) : o + x • u + z • v ∈ S := by
  obtain ⟨hsum, hxy, hyz, hzx⟩ := h
  rw [abs_le] at hxy hyz hzx
  simp only [corners, List.forall_mem_cons, List.not_mem_nil, false_imp_iff, implies_true, and_true, Int.cast_neg,
    Int.cast_ofNat, Int.cast_one] at hcorners
  obtain ⟨h0, h1, h2, h3, h4, h5⟩ := hcorners
  have ho : o ∈ S := by
    have hmid := hS h0 h3 (by norm_num : (0 : K) ≤ 1 / 2) (by norm_num : (0 : K) ≤ 1 / 2) (by norm_num)
    convert hmid using 1
    module
  have hy : y = -x - z := by linarith
  subst hy
  -- the sector between two corners
  rcases le_total 0 (x - z) with hxz | hxz <;> rcases le_total 0 (x + 2 * z) with hs | hs
  · convert mem_of_triangle hS ho h0 h1 hxz hs (by linarith) using 1
    module
  · rcases le_total 0 (2 * x + z) with ht | ht
    · convert mem_of_triangle hS ho h5 h0 (neg_nonneg.mpr hs) ht (by linarith) using 1
      module
    · convert mem_of_triangle hS ho h4 h5 (neg_nonneg.mpr ht) hxz (by linarith) using 1
      module
  · rcases le_total 0 (2 * x + z) with ht | ht
    · convert mem_of_triangle hS ho h1 h2 ht (neg_nonneg.mpr hxz) (by linarith) using 1
      module
    · convert mem_of_triangle hS ho h2 h3 hs (neg_nonneg.mpr ht) (by linarith) using 1
      module
  · convert mem_of_triangle hS ho h3 h4 (neg_nonneg.mpr hxz) (neg_nonneg.mpr hs) (by linarith) using 1
    module

end Hull

end MeshcoreAnalyzer.HexLattice

import MeshcoreAnalyzer.Orders
import Mathlib.Algebra.Order.Field.Basic
import Mathlib.Data.List.GetD
import Mathlib.Order.Bounds.Defs
import Mathlib.Tactic.Linarith

namespace MeshcoreAnalyzer.Medians

open Orders

/-! Medians of lists. The mean of the two in the middle where the length is even. -/

section

variable {A : Type} [LinearOrder A]

def below (l : List A) (b : A) : Nat := l.countP (· < b)

def above (l : List A) (b : A) : Nat := l.countP (b < ·)

theorem below_add_count_add_above (l : List A) (b : A) : below l b + l.count b + above l b = l.length := by
  induction l with
  | nil => simp [below, above]
  | cons a l ih =>
      simp only [below, above, List.countP_cons, List.count_cons, List.length_cons] at ih ⊢
      rcases lt_trichotomy a b with h | rfl | h
      · simp [h, not_lt_of_gt h, ne_of_lt h]
        omega
      · simp
        omega
      · simp [h, not_lt_of_gt h, (ne_of_lt h).symm]
        omega

theorem lt_iff_lt_below {l : List A} (h : l.Pairwise (· ≤ ·)) (b : A) {i : Nat} (hi : i < l.length) :
    l[i] < b ↔ i < below l b := by
  induction l generalizing i with
  | nil => simp at hi
  | cons a l ih =>
      obtain ⟨ha, hl⟩ := List.pairwise_cons.mp h
      rw [below, List.countP_cons]
      by_cases hab : a < b
      · cases i with
        | zero => simp [hab]
        | succ i => simpa [hab, below] using ih hl (by simpa using hi)
      · have hzero : l.countP (· < b) = 0 := by
          rw [List.countP_eq_zero]
          intro c hc
          simpa using (not_lt.mp hab).trans (ha c hc)
        have hle : ∀ c ∈ a :: l, ¬ c < b := by
          intro c hc
          rcases List.mem_cons.mp hc with rfl | hc
          · exact hab
          · exact not_lt.mpr ((not_lt.mp hab).trans (ha c hc))
        simp [hzero, hab, hle _ (List.getElem_mem hi)]

theorem lt_getElem_iff {l : List A} (h : l.Pairwise (· ≤ ·)) (b : A) {i : Nat} (hi : i < l.length) :
    b < l[i] ↔ l.length ≤ i + above l b := by
  have hreverse : l.reverse.Pairwise fun x y => OrderDual.toDual x ≤ OrderDual.toDual y := by
    rw [List.pairwise_reverse]
    exact h
  have hdual := lt_iff_lt_below (A := Aᵒᵈ) (l := l.reverse.map OrderDual.toDual) (List.pairwise_map.mpr hreverse)
    (OrderDual.toDual b) (i := l.length - 1 - i) (by simp; omega)
  simp only [below, List.getElem_map, List.getElem_reverse, List.countP_map, List.countP_reverse,
    OrderDual.toDual_lt_toDual, Function.comp_def] at hdual
  have hindex : l.length - 1 - (l.length - 1 - i) = i := by omega
  simp only [hindex] at hdual
  rw [hdual, above]
  omega

def sorted (vals : List A) : List A := vals.insertionSort (· ≤ ·)

theorem sorted_perm (l : List A) : (sorted l).Perm l := List.perm_insertionSort _ l

@[simp] theorem length_sorted (l : List A) : (sorted l).length = l.length := (sorted_perm l).length_eq

theorem pairwise_sorted (l : List A) : (sorted l).Pairwise (· ≤ ·) := ascending_insertionSort id l

variable {l : List A} {i j : Nat} (d : A)

theorem getD_sorted_lt_iff (hi : i < l.length) (b : A) : (sorted l).getD i d < b ↔ i < below l b := by
  have hi' : i < (sorted l).length := by simpa using hi
  rw [List.getD_eq_getElem _ _ hi', lt_iff_lt_below (pairwise_sorted l) b hi', below, below,
    (sorted_perm l).countP_eq]

theorem lt_getD_sorted_iff (hi : i < l.length) (b : A) :
    b < (sorted l).getD i d ↔ l.length ≤ i + above l b := by
  have hi' : i < (sorted l).length := by simpa using hi
  rw [List.getD_eq_getElem _ _ hi', lt_getElem_iff (pairwise_sorted l) b hi', above, above,
    (sorted_perm l).countP_eq, length_sorted]

theorem getD_sorted_mem (hi : i < l.length) : (sorted l).getD i d ∈ l := by
  rw [List.getD_eq_getElem _ _ (by simpa using hi)]
  exact (sorted_perm l).mem_iff.mp (List.getElem_mem _)

theorem getD_sorted_le (hij : i ≤ j) (hj : j < l.length) : (sorted l).getD i d ≤ (sorted l).getD j d := by
  have hj' : j < (sorted l).length := by simpa using hj
  rw [List.getD_eq_getElem _ _ hj', List.getD_eq_getElem _ _ (lt_of_le_of_lt hij hj')]
  rcases Nat.eq_or_lt_of_le hij with rfl | hlt
  · exact le_refl _
  · exact List.pairwise_iff_getElem.mp (pairwise_sorted l) i j _ hj' hlt

theorem exists_getD_sorted {v : A} (h : v ∈ l) : ∃ i < l.length, (sorted l).getD i d = v := by
  obtain ⟨i, hi, rfl⟩ := List.getElem_of_mem ((sorted_perm l).mem_iff.mpr h)
  exact ⟨i, by simpa using hi, List.getD_eq_getElem _ _ hi⟩

theorem isGreatest_below {b : A} (h : 0 < below l b) :
    IsGreatest {v | v ∈ l ∧ v < b} ((sorted l).getD (below l b - 1) d) := by
  have hle : below l b ≤ l.length := List.countP_le_length
  refine ⟨⟨getD_sorted_mem d (by omega), (getD_sorted_lt_iff d (by omega) b).mpr (by omega)⟩, ?_⟩
  rintro v ⟨hv, hlt⟩
  obtain ⟨i, hi, rfl⟩ := exists_getD_sorted d hv
  rw [getD_sorted_lt_iff d hi] at hlt
  exact getD_sorted_le d (by omega) (by omega)

theorem isLeast_above {b : A} (h : 0 < above l b) :
    IsLeast {v | v ∈ l ∧ b < v} ((sorted l).getD (l.length - above l b) d) := by
  have hle : above l b ≤ l.length := List.countP_le_length
  refine ⟨⟨getD_sorted_mem d (by omega), (lt_getD_sorted_iff d (by omega) b).mpr (by omega)⟩, ?_⟩
  rintro v ⟨hv, hlt⟩
  obtain ⟨i, hi, rfl⟩ := exists_getD_sorted d hv
  rw [lt_getD_sorted_iff d hi] at hlt
  exact getD_sorted_le d (by omega) hi

end

section

variable {K : Type} [Field K] [LinearOrder K]

def median (vals : List K) : K :=
  if vals.length = 0 then 0
  else if vals.length % 2 = 0 then
    ((sorted vals).getD (vals.length / 2 - 1) 0 + (sorted vals).getD (vals.length / 2) 0) / 2
  else (sorted vals).getD (vals.length / 2) 0

/-- Neither below nor above a value is half of the list, or half is on either side and the nearest are as far off. -/
def Centred (vals : List K) (b : K) : Prop :=
  2 * below vals b < vals.length ∧ 2 * above vals b < vals.length ∨
    2 * below vals b = vals.length ∧ 2 * above vals b = vals.length ∧
      ∃ x y, IsGreatest {v | v ∈ vals ∧ v < b} x ∧ IsLeast {v | v ∈ vals ∧ b < v} y ∧ x + y = 2 * b

variable {l : List K}

theorem centred_of_count {b : K} (h : l.length < 2 * l.count b) : Centred l b := by
  have hsum := below_add_count_add_above l b
  left
  omega

variable [IsStrictOrderedRing K]

theorem add_div_two_eq_iff {x y b : K} : (x + y) / 2 = b ↔ x + y = 2 * b := by
  rw [div_eq_iff two_ne_zero, mul_comm]

theorem median_even_eq_iff (h : 0 < l.length) (heven : l.length % 2 = 0) (b : K) :
    ((sorted l).getD (l.length / 2 - 1) 0 + (sorted l).getD (l.length / 2) 0) / 2 = b ↔
      Centred l b := by
  have hsum := below_add_count_add_above l b
  have hlow := getD_sorted_lt_iff (l := l) (i := l.length / 2 - 1) 0 (by omega) b
  have hhigh := lt_getD_sorted_iff (l := l) (i := l.length / 2) 0 (by omega) b
  have hle := getD_sorted_le (l := l) (i := l.length / 2 - 1) (j := l.length / 2) 0 (by omega) (by omega)
  rw [add_div_two_eq_iff]
  constructor
  · intro heq
    by_cases hlt : (sorted l).getD (l.length / 2 - 1) 0 < b
    · right
      have hgt : b < (sorted l).getD (l.length / 2) 0 := by linarith
      have hbelow : below l b = l.length / 2 := by
        have := hlow.mp hlt
        have := hhigh.mp hgt
        omega
      have habove : above l b = l.length / 2 := by
        have := hlow.mp hlt
        have := hhigh.mp hgt
        omega
      have hx := isGreatest_below (l := l) (b := b) 0 (by omega)
      have hy := isLeast_above (l := l) (b := b) 0 (by omega)
      rw [hbelow] at hx
      rw [habove, show l.length - l.length / 2 = l.length / 2 by omega] at hy
      exact ⟨by omega, by omega, _, _, hx, hy, heq⟩
    · left
      have hngt : ¬ b < (sorted l).getD (l.length / 2) 0 := by
        have := not_lt.mp hlt
        linarith
      rw [hlow] at hlt
      rw [hhigh] at hngt
      omega
  · rintro (⟨hb, ha⟩ | ⟨hb, ha, x, y, hx, hy, hxy⟩)
    · have hnlt : ¬ (sorted l).getD (l.length / 2 - 1) 0 < b := by
        rw [hlow]
        omega
      have hngt : ¬ b < (sorted l).getD (l.length / 2) 0 := by
        rw [hhigh]
        omega
      have := not_lt.mp hnlt
      have := not_lt.mp hngt
      linarith
    · have hx' := isGreatest_below (l := l) (b := b) 0 (by omega)
      have hy' := isLeast_above (l := l) (b := b) 0 (by omega)
      rw [show below l b = l.length / 2 by omega] at hx'
      rw [show above l b = l.length / 2 by omega,
        show l.length - l.length / 2 = l.length / 2 by omega] at hy'
      rw [← hx.unique hx', ← hy.unique hy', hxy]

theorem median_eq_iff (h : l ≠ []) (b : K) : median l = b ↔ Centred l b := by
  have hlength : 0 < l.length := List.length_pos_of_ne_nil h
  rw [median, if_neg (by omega)]
  split
  · next heven => exact median_even_eq_iff hlength heven b
  · next hodd =>
      have hmid : l.length / 2 < l.length := by omega
      have hlow := getD_sorted_lt_iff 0 hmid b
      have hhigh := lt_getD_sorted_iff 0 hmid b
      constructor
      · intro heq
        rw [heq] at hlow hhigh
        simp only [lt_self_iff_false, false_iff] at hlow hhigh
        left
        omega
      · rintro (⟨hb, ha⟩ | ⟨hb, ha, _⟩)
        · apply le_antisymm
          · rw [← not_lt, hhigh]
            omega
          · rw [← not_lt, hlow]
            omega
        · omega

theorem median_mem_Icc (h : l ≠ []) {lo hi : K} (hall : ∀ v ∈ l, lo ≤ v ∧ v ≤ hi) :
    lo ≤ median l ∧ median l ≤ hi := by
  have hlength : 0 < l.length := List.length_pos_of_ne_nil h
  rw [median, if_neg (by omega)]
  split
  · have hx := hall _ (getD_sorted_mem (l := l) (i := l.length / 2 - 1) 0 (by omega))
    have hy := hall _ (getD_sorted_mem (l := l) (i := l.length / 2) 0 (by omega))
    constructor <;> linarith [hx.1, hx.2, hy.1, hy.2]
  · exact hall _ (getD_sorted_mem 0 (by omega))

end

end MeshcoreAnalyzer.Medians

import Mathlib.Data.List.Nodup
import Mathlib.Data.List.Perm.Basic

namespace MeshcoreAnalyzer.Windows

/-! The contiguous parts of a list, as two loops over their lengths and their starts
come to them. -/

variable {α : Type} {l w : List α} {minLen maxLen : Nat}

/-- The parts of `n` elements, from the left. -/
def windowsOf (l : List α) (n : Nat) : List (List α) :=
  (List.range (l.length - n + 1)).map fun start => (l.drop start).take n

/-- The parts of `minLen` to `maxLen` elements. -/
def windows (minLen maxLen : Nat) (l : List α) : List (List α) :=
  (List.range' minLen (min maxLen l.length + 1 - minLen)).flatMap (windowsOf l)

theorem length_of_mem_windowsOf {n : Nat} (hn : n ≤ l.length) (h : w ∈ windowsOf l n) : w.length = n := by
  obtain ⟨start, hstart, rfl⟩ := List.mem_map.mp h
  rw [List.mem_range] at hstart
  rw [List.length_take, List.length_drop]
  omega

theorem subset_of_mem_windowsOf {n : Nat} (h : w ∈ windowsOf l n) : w ⊆ l := by
  obtain ⟨start, _, rfl⟩ := List.mem_map.mp h
  exact List.Subset.trans (List.take_subset n _) (List.drop_subset start l)

theorem mem_windows : w ∈ windows minLen maxLen l ↔
    ∃ n, minLen ≤ n ∧ n ≤ maxLen ∧ n ≤ l.length ∧ w ∈ windowsOf l n := by
  rw [windows, List.mem_flatMap]
  constructor
  · rintro ⟨n, hn, hw⟩
    rw [List.mem_range'_1] at hn
    exact ⟨n, by omega, by omega, by omega, hw⟩
  · rintro ⟨n, hmin, hmax, hlen, hw⟩
    refine ⟨n, ?_, hw⟩
    rw [List.mem_range'_1]
    omega

theorem length_of_mem_windows (h : w ∈ windows minLen maxLen l) : minLen ≤ w.length ∧ w.length ≤ maxLen := by
  obtain ⟨n, hmin, hmax, hlen, hw⟩ := mem_windows.mp h
  rw [length_of_mem_windowsOf hlen hw]
  exact ⟨hmin, hmax⟩

theorem subset_of_mem_windows (h : w ∈ windows minLen maxLen l) : w ⊆ l := by
  obtain ⟨_, _, _, _, hw⟩ := mem_windows.mp h
  exact subset_of_mem_windowsOf hw

theorem exists_mem_windows (hpos : 0 < minLen) (hle : minLen ≤ maxLen) (hlen : minLen ≤ l.length) {x : α}
    (hx : x ∈ l) : ∃ w ∈ windows minLen maxLen l, x ∈ w := by
  obtain ⟨i, hi, rfl⟩ := List.mem_iff_getElem.mp hx
  refine ⟨(l.drop (min i (l.length - minLen))).take minLen, mem_windows.mpr
    ⟨minLen, Nat.le_refl _, hle, hlen, List.mem_map.mpr ⟨_, List.mem_range.mpr (by omega), rfl⟩⟩, ?_⟩
  rw [List.mem_iff_getElem]
  refine ⟨i - min i (l.length - minLen), ?_, ?_⟩
  · rw [List.length_take, List.length_drop]
    omega
  · rw [List.getElem_take, List.getElem_drop]
    congr 1
    omega

theorem filter_flatMap_windowsOf {ns : List Nat} (h : ∀ n ∈ ns, n ≤ l.length) (p : Nat → Bool) :
    (ns.flatMap (windowsOf l)).filter (fun w => p w.length) = (ns.filter p).flatMap (windowsOf l) := by
  induction ns with
  | nil => rfl
  | cons n ns ih =>
      have hlen : ∀ w ∈ windowsOf l n, w.length = n := fun w => length_of_mem_windowsOf (h n List.mem_cons_self)
      rw [List.flatMap_cons, List.filter_append, ih fun m hm => h m (List.mem_cons_of_mem n hm)]
      cases hp : p n with
      | true =>
          rw [List.filter_cons_of_pos hp, List.flatMap_cons]
          congr 1
          apply List.filter_eq_self.mpr
          intro w hw
          rw [hlen w hw, hp]
      | false =>
          rw [List.filter_cons_of_neg (by simp [hp])]
          apply List.append_left_eq_self.mpr
          apply List.filter_eq_nil_iff.mpr
          intro w hw
          rw [hlen w hw, hp]
          exact Bool.false_ne_true

theorem windows_perm {least most : Nat} (hleast : least ≤ minLen) (hmost : maxLen ≤ most) :
    ((windows least most l).filter fun w => minLen ≤ w.length ∧ w.length ≤ maxLen).Perm
      (windows minLen maxLen l) := by
  have hlen : ∀ n ∈ List.range' least (min most l.length + 1 - least), n ≤ l.length := by
    intro n hn
    rw [List.mem_range'_1] at hn
    omega
  rw [windows, filter_flatMap_windowsOf hlen fun n => minLen ≤ n ∧ n ≤ maxLen, windows]
  apply List.Perm.flatMap_right
  rw [List.perm_ext_iff_of_nodup (List.Nodup.filter _ List.nodup_range') List.nodup_range']
  intro n
  rw [List.mem_filter, List.mem_range'_1, List.mem_range'_1, decide_eq_true_iff]
  omega

end MeshcoreAnalyzer.Windows

import Mathlib.Data.List.Nodup
import Mathlib.Data.List.TakeDrop
import Mathlib.Data.List.Range

namespace MeshcoreAnalyzer.Pages

/-! A list cut into pages of one size. -/

variable {α κ : Type}

/-- The page with the number `k`. -/
def slice (size k : Nat) (l : List α) : List α := (l.drop (size * k)).take size

theorem slice_sublist (size k : Nat) (l : List α) : (slice size k l).Sublist l :=
  (List.take_sublist _ _).trans (List.drop_sublist _ _)

theorem map_slice (f : α → κ) (size k : Nat) (l : List α) : (slice size k l).map f = slice size k (l.map f) := by
  rw [slice, slice, List.map_take, List.map_drop]

theorem flatMap_slice (size m : Nat) (l : List α) :
    ((List.range m).flatMap fun k => slice size k l) = l.take (size * m) := by
  induction m with
  | zero => rw [Nat.mul_zero, List.take_zero]; rfl
  | succ m ih =>
      rw [List.range_succ, List.flatMap_append, ih, List.flatMap_singleton, Nat.mul_succ, List.take_add]
      rfl

theorem slice_disjoint {l : List α} (hl : l.Nodup) (size : Nat) {i j : Nat} (h : i < j) :
    (slice size i l).Disjoint (slice size j l) := by
  have hle : size * i + size ≤ size * j := Nat.mul_succ size i ▸ Nat.mul_le_mul_left size h
  intro a hi hj
  have hcut : slice size i l = ((l.take (size * j)).take (size * i + size)).drop (size * i) := by
    rw [List.take_take, Nat.min_eq_left hle, List.drop_take, Nat.add_sub_cancel_left]
    rfl
  have hbefore : a ∈ l.take (size * j) := by
    rw [hcut] at hi
    exact List.mem_of_mem_take (List.mem_of_mem_drop hi)
  exact List.disjoint_take_drop hl (Nat.le_refl _) hbefore (List.mem_of_mem_take hj)

/-- The pages have no item in common, and all of them one after the other are a list of
the items, each of them once. -/
structure Partition (key : α → κ) (pages : Nat → List α) (items : List κ) (joined : List α) : Prop where
  disjoint : ∀ i j, i ≠ j → ((pages i).map key).Disjoint ((pages j).map key)
  joins : ∃ n, ∀ m, n ≤ m → (List.range m).flatMap pages = joined
  exact : (joined.map key).Perm items

theorem partition_slice {key : α → κ} {size : Nat} (hsize : 0 < size) {l : List α} {items : List κ}
    (hperm : (l.map key).Perm items) (hnd : items.Nodup) :
    Partition key (fun k => slice size k l) items l where
  disjoint := fun i j hij => by
    have hkeys : (l.map key).Nodup := hperm.nodup_iff.mpr hnd
    rw [map_slice, map_slice]
    rcases Nat.lt_or_gt_of_ne hij with h | h
    · exact slice_disjoint hkeys size h
    · exact fun a ha hb => slice_disjoint hkeys size h hb ha
  joins := ⟨l.length, fun m hm => by
    have hle : l.length ≤ size * m := hm.trans (Nat.le_mul_of_pos_left m hsize)
    rw [flatMap_slice, List.take_of_length_le hle]⟩
  exact := hperm

end MeshcoreAnalyzer.Pages

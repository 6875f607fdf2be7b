import Mathlib.Data.List.Sort
import Mathlib.Data.List.Dedup
import Mathlib.Order.Lattice

namespace MeshcoreAnalyzer.Cursors

/-! A table that is read in chunks: each query asks for the rows behind a cursor, in
the order of their keys, and the cursor moves to the last key that was read. -/

variable {α K : Type} [LinearOrder K] (key : α → K)

/-- `SELECT … ORDER BY key ASC` -/
def sorted (table : List α) : List α := table.insertionSort fun a b => key a ≤ key b

def behind (cursor : K) (table : List α) : List α := table.filter fun a => cursor < key a

variable {key} {table : List α}

theorem sorted_perm : (sorted key table).Perm table := List.perm_insertionSort _ _

theorem mem_sorted {a : α} : a ∈ sorted key table ↔ a ∈ table := sorted_perm.mem_iff

theorem pairwise_sorted (hkeys : (table.map key).Nodup) :
    (sorted key table).Pairwise fun a b => key a < key b := by
  have hle : (sorted key table).Pairwise fun a b => key a ≤ key b :=
    List.pairwise_insertionSort (fun a b => key a ≤ key b) table
  have hne : (sorted key table).Pairwise fun a b => key a ≠ key b :=
    List.pairwise_map.mp ((sorted_perm.map key).nodup_iff.mpr hkeys)
  exact (hle.and hne).imp fun h => lt_of_le_of_ne h.1 h.2

variable (key) in
theorem eq_of_pairwise {l l' : List α} (hp : l.Perm l') (hl : l.Pairwise fun a b => key a < key b)
    (hl' : l'.Pairwise fun a b => key a < key b) : l = l' :=
  hp.eq_of_pairwise (fun _ _ _ _ h h' => absurd h' (lt_asymm h)) hl hl'

theorem sorted_behind (hkeys : (table.map key).Nodup) (cursor : K) :
    sorted key (behind key cursor table) = behind key cursor (sorted key table) := by
  apply eq_of_pairwise key
  · exact sorted_perm.trans (sorted_perm.filter _).symm
  · apply pairwise_sorted
    exact (List.filter_sublist.map key).nodup hkeys
  · exact (pairwise_sorted hkeys).filter _

theorem behind_append {done rest : List α} {cursor : K}
    (hdone : ∀ a ∈ done, key a ≤ cursor) (hrest : ∀ b ∈ rest, cursor < key b) :
    behind key cursor (done ++ rest) = rest := by
  have hnone : done.filter (fun a => decide (cursor < key a)) = [] := by
    apply List.filter_eq_nil_iff.mpr
    intro a ha
    simpa using hdone a ha
  have hall : rest.filter (fun a => decide (cursor < key a)) = rest := by
    apply List.filter_eq_self.mpr
    intro b hb
    simpa using hrest b hb
  rw [behind, List.filter_append, hnone, hall, List.nil_append]

theorem foldl_max_lt_iff {ks : List K} {k x : K} : ks.foldl max k < x ↔ k < x ∧ ∀ a ∈ ks, a < x := by
  induction ks generalizing k with
  | nil => simp
  | cons a ks ih => simp [ih, and_assoc]

theorem le_foldl_max {ks : List K} {k a : K} (ha : a ∈ ks) : a ≤ ks.foldl max k := by
  by_contra hlt
  exact lt_irrefl a ((foldl_max_lt_iff.mp (not_le.mp hlt)).2 a ha)

end MeshcoreAnalyzer.Cursors

import Mathlib.Data.List.Basic
import Mathlib.Data.List.Count
import Mathlib.Data.List.Nodup

namespace MeshcoreAnalyzer.Upserts

/-! Tables as lists of rows, and `INSERT … ON CONFLICT DO UPDATE` on a unique index. A row whose key
has a NULL in it conflicts with no row. -/

variable {Row Key View : Type} [DecidableEq Key]

/-- `UPDATE … WHERE` -/
def update (p : Row → Bool) (f : Row → Row) (table : List Row) : List Row :=
  table.map fun row => if p row then f row else row

def conflicts (key : Row → Option Key) (row : Row) (table : List Row) : Bool :=
  (key row).any fun k => k ∈ table.filterMap key

/-- The row that is in the way takes what `merge` makes of it. -/
def upsert (key : Row → Option Key) (merge : Row → Row) (row : Row) (table : List Row) : List Row :=
  if conflicts key row table then update (fun old => key old = key row) merge table else table ++ [row]

theorem conflicts_iff {key : Row → Option Key} {row : Row} {table : List Row} :
    conflicts key row table = true ↔ ∃ old ∈ table, ∃ k, key old = some k ∧ key row = some k := by
  rw [conflicts, Option.any_eq_true]
  constructor
  · rintro ⟨k, hk, hmem⟩
    obtain ⟨old, hold, hkey⟩ := List.mem_filterMap.mp (of_decide_eq_true hmem)
    exact ⟨old, hold, k, hkey, hk⟩
  · rintro ⟨old, hold, k, hkey, hk⟩
    exact ⟨k, hk, decide_eq_true (List.mem_filterMap.mpr ⟨old, hold, hkey⟩)⟩

theorem map_update {p : Row → Bool} {f : Row → Row} {v : Row → View} (h : ∀ row, p row → v (f row) = v row) (table : List Row) :
    (update p f table).map v = table.map v := by
  rw [update, List.map_map]
  apply List.map_congr_left
  intro row _
  rw [Function.comp_apply]
  split
  · next hp => exact h row hp
  · rfl

theorem find?_update {p q : Row → Bool} {f : Row → Row} {v : Row → View} (hq : ∀ row, q (f row) = q row)
    (hv : ∀ row, v (f row) = v row) (table : List Row) :
    ((update p f table).find? q).map v = (table.find? q).map v := by
  induction table with
  | nil => rfl
  | cons row table ih =>
      have hkept : q (if p row then f row else row) = q row ∧ v (if p row then f row else row) = v row := by
        split
        · exact ⟨hq row, hv row⟩
        · exact ⟨rfl, rfl⟩
      rw [update, List.map_cons, List.find?_cons, List.find?_cons, hkept.1]
      split
      · exact congrArg some hkept.2
      · exact ih

theorem map_upsert {key : Row → Option Key} {merge : Row → Row} {v : Row → View} (h : ∀ old, v (merge old) = v old)
    (row : Row) (table : List Row) :
    (upsert key merge row table).map v =
      if conflicts key row table then table.map v else table.map v ++ [v row] := by
  rw [upsert]
  split
  · exact map_update (fun old _ => h old) table
  · rw [List.map_append, List.map_singleton]

theorem find?_update_map {p q : Row → Bool} {f : Row → Row} (hq : ∀ row, q (f row) = q row) (table : List Row) :
    (update p f table).find? q = (table.find? q).map fun row => if p row then f row else row := by
  have hkept : ∀ row, q (if p row then f row else row) = q row := by
    intro row
    split
    · exact hq row
    · rfl
  rw [update, List.find?_map, show (q ∘ fun row => if p row then f row else row) = q from funext hkept]

theorem find?_upsert {key : Row → Option Key} {merge : Row → Row} (hkey : ∀ old, key (merge old) = key old) (row : Row)
    (table : List Row) (k : Key) :
    (upsert key merge row table).find? (fun r => key r = some k) =
      if key row = some k then some ((table.find? fun r => key r = some k).elim row merge)
      else table.find? fun r => key r = some k := by
  have hkeyed : ∀ old, decide (key (merge old) = some k) = decide (key old = some k) := fun old => by rw [hkey]
  rw [upsert]
  by_cases hconflicts : conflicts key row table = true
  · rw [if_pos hconflicts, find?_update_map hkeyed]
    by_cases hrow : key row = some k
    · obtain ⟨old, hold, k', hk', hrow'⟩ := conflicts_iff.mp hconflicts
      have hkk : k' = k := Option.some.inj (hrow'.symm.trans hrow)
      have hsome : (table.find? fun r => key r = some k).isSome :=
        List.find?_isSome.mpr ⟨old, hold, by simp [hk', hkk]⟩
      obtain ⟨first, hfirst⟩ := Option.isSome_iff_exists.mp hsome
      have hfound : key first = some k := by simpa using List.find?_some hfirst
      simp [hrow, hfirst, hfound]
    · rw [if_neg hrow]
      cases hfirst : table.find? fun r => key r = some k with
      | none => rfl
      | some first =>
          have hfound : key first = some k := by simpa using List.find?_some hfirst
          simp [hfound, Ne.symm hrow]
  · rw [if_neg hconflicts, List.find?_append]
    by_cases hrow : key row = some k
    · have hnone : (table.find? fun r => key r = some k) = none := by
        rw [List.find?_eq_none]
        intro old hold hk
        exact hconflicts (conflicts_iff.mpr ⟨old, hold, k, by simpa using hk, hrow⟩)
      simp [hrow, hnone]
    · simp [hrow]

theorem find?_filter_of_nodup {key : Row → Key} {table : List Row} (h : (table.map key).Nodup) (p : Row → Bool) (k : Key) :
    (table.filter p).find? (fun r => key r = k) = (table.find? fun r => key r = k).filter p := by
  induction table with
  | nil => rfl
  | cons row table ih =>
      rw [List.map_cons, List.nodup_cons] at h
      have hih := ih h.2
      by_cases hrow : key row = k
      · have hnone : (table.find? fun r => key r = k) = none := by
          rw [List.find?_eq_none]
          intro r hr hk
          apply h.1
          rw [hrow, ← of_decide_eq_true hk]
          exact List.mem_map_of_mem hr
        rw [hnone] at hih
        cases hp : p row
        · simpa [hrow, hp, Option.filter] using hih
        · simp [hrow, hp, Option.filter]
      · cases hp : p row <;> simpa [hrow, hp] using hih

def insertNew (key : Row → Key) (row : Row) (table : List Row) : List Row := upsert (fun r => some (key r)) id row table

def insertAll (key : Row → Key) (rows : List Row) (table : List Row) : List Row :=
  rows.foldl (fun table row => insertNew key row table) table

variable {key : Row → Key}

theorem insertNew_eq (row : Row) (table : List Row) :
    insertNew key row table = if key row ∈ table.map key then table else table ++ [row] := by
  have hid : update (fun old => some (key old) = some (key row)) id table = table := by
    rw [update]
    simp
  have hmem : conflicts (fun r => some (key r)) row table = decide (key row ∈ table.map key) := by
    simp [conflicts, List.filterMap_eq_map']
  rw [insertNew, upsert, hid, hmem]
  simp only [decide_eq_true_eq]

theorem nodup_insertNew {table : List Row} (h : (table.map key).Nodup) (row : Row) :
    ((insertNew key row table).map key).Nodup := by
  rw [insertNew_eq]
  split
  · exact h
  · next hrow =>
      rw [List.map_append, List.map_singleton]
      exact List.nodup_append.mpr ⟨h, List.nodup_singleton _, fun k hk k' hk' heq =>
        hrow (List.mem_singleton.mp hk' ▸ heq ▸ hk)⟩

theorem find?_insertNew (row : Row) (table : List Row) (k : Key) :
    (insertNew key row table).find? (fun r => key r = k) =
      (table.find? fun r => key r = k).or ([row].find? fun r => key r = k) := by
  rw [insertNew_eq]
  split
  · next hrow =>
      by_cases hk : key row = k
      · obtain ⟨old, hold, hkey⟩ := List.mem_map.mp hrow
        have hsome : (table.find? fun r => key r = k).isSome :=
          List.find?_isSome.mpr ⟨old, hold, decide_eq_true (hkey.trans hk)⟩
        rw [Option.or_of_isSome hsome]
      · simp [hk]
  · rw [List.find?_append]

theorem nodup_insertAll (rows : List Row) {table : List Row} (h : (table.map key).Nodup) :
    ((insertAll key rows table).map key).Nodup := by
  induction rows generalizing table with
  | nil => exact h
  | cons row rows ih => exact ih (nodup_insertNew h row)

theorem find?_insertAll (rows table : List Row) (k : Key) :
    (insertAll key rows table).find? (fun r => key r = k) =
      (table.find? fun r => key r = k).or (rows.find? fun r => key r = k) := by
  induction rows generalizing table with
  | nil => rw [insertAll, List.foldl_nil, List.find?_nil, Option.or_none]
  | cons row rows ih =>
      rw [insertAll, List.foldl_cons, ← insertAll, ih, find?_insertNew, Option.or_assoc, ← List.find?_append,
        List.singleton_append]

/-- The table has one row for each key, the first of those that were put in. -/
structure KeepsFirst (key : Row → Key) (rows table : List Row) : Prop where
  nodup : (table.map key).Nodup
  find? : ∀ k, (table.find? fun r => key r = k) = rows.find? fun r => key r = k

theorem keepsFirst_insertAll (rows : List Row) : KeepsFirst key rows (insertAll key rows []) where
  nodup := nodup_insertAll rows List.Pairwise.nil
  find? k := by rw [find?_insertAll, List.find?_nil, Option.none_or]

variable {rows table : List Row}

theorem KeepsFirst.mem_keys (h : KeepsFirst key rows table) {row : Row} (hrow : row ∈ rows) : key row ∈ table.map key := by
  have hsome : (rows.find? fun r => key r = key row).isSome := List.find?_isSome.mpr ⟨row, hrow, decide_eq_true rfl⟩
  rw [← h.find?] at hsome
  obtain ⟨old, hold, hkey⟩ := List.find?_isSome.mp hsome
  exact List.mem_map.mpr ⟨old, hold, of_decide_eq_true hkey⟩

theorem KeepsFirst.mem (h : KeepsFirst key rows table) {row : Row} (hrow : row ∈ table) : row ∈ rows := by
  have hsome : (table.find? fun r => key r = key row).isSome := List.find?_isSome.mpr ⟨row, hrow, decide_eq_true rfl⟩
  obtain ⟨first, hfirst⟩ := Option.isSome_iff_exists.mp hsome
  have hkey : key first = key row := of_decide_eq_true (List.find?_some hfirst :)
  have heq : first = row := List.inj_on_of_nodup_map h.nodup (List.mem_of_find?_eq_some hfirst) hrow hkey
  rw [h.find?] at hfirst
  rw [← heq]
  exact List.mem_of_find?_eq_some hfirst

theorem KeepsFirst.again (h : KeepsFirst key rows table) {more : List Row} (hmore : ∀ row ∈ more, row ∈ rows) :
    insertAll key more table = table := by
  induction more with
  | nil => rfl
  | cons row more ih =>
      rw [List.forall_mem_cons] at hmore
      rw [insertAll, List.foldl_cons, insertNew_eq, if_pos (h.mem_keys hmore.1)]
      exact ih hmore.2

end MeshcoreAnalyzer.Upserts

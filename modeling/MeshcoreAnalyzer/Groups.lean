import Mathlib.Algebra.GroupWithZero.Nat
import MeshcoreAnalyzer.Merges

namespace MeshcoreAnalyzer.Groups

open Merges

/-! Rows that are gathered in a map, each entry a running value of the rows of its key. A map is the list
of its entries; a loop over it comes to them in any order. -/

/-- The order in which a loop over a map comes to its entries. -/
structure RangeOrder where
  order : ∀ {E : Type}, List E → List E
  perm : ∀ {E : Type} (l : List E), (order l).Perm l

def RangeOrder.listed : RangeOrder := ⟨id, fun l => List.Perm.refl l⟩

variable {A B K V : Type} [DecidableEq K] (key : A → K) (fresh : A → V) (add : V → A → V)

def tally (m : List (K × V)) (a : A) : List (K × V) := upsert (add (fresh a) a) (fun v => add v a) (key a) m

def tallies (rows : List A) : List (K × V) := rows.foldl (tally key fresh add) []

/-- `m[k]` -/
def get (m : List (K × V)) (k : K) : Option V := (m.find? fun p => p.1 = k).map Prod.snd

def running (rows : List A) : Option V := rows.foldl (fun v a => some (add (v.getD (fresh a)) a)) none

def group (rows : List A) (k : K) : List A := rows.filter fun a => key a = k

variable {key fresh add} {rows : List A} {k : K} {v : V}

theorem running_concat (rows : List A) (a : A) :
    running fresh add (rows ++ [a]) = some (add ((running fresh add rows).getD (fresh a)) a) :=
  List.foldl_concat _ _ _ _

theorem running_eq_none : running fresh add rows = none ↔ rows = [] := by
  induction rows using List.reverseRecOn with
  | nil => exact ⟨fun _ => rfl, fun _ => rfl⟩
  | append_singleton rows a ih =>
      rw [running_concat]
      exact ⟨fun h => absurd h (Option.some_ne_none _), fun h => absurd h (by simp)⟩

theorem group_of_nodup {a : A} (h : (rows.map key).Nodup) (ha : a ∈ rows) : group key rows (key a) = [a] := by
  induction rows with
  | nil => cases ha
  | cons b rows ih =>
      rw [List.map_cons, List.nodup_cons] at h
      rw [group, List.filter_cons]
      rcases List.mem_cons.mp ha with rfl | ha
      · have hnone : rows.filter (fun b => decide (key b = key a)) = [] := by
          apply List.filter_eq_nil_iff.mpr
          intro b hb hkey
          exact h.1 (of_decide_eq_true hkey ▸ List.mem_map_of_mem hb)
        rw [decide_eq_true rfl, if_pos rfl, hnone]
      · have hne : key b ≠ key a := fun hkey => h.1 (hkey ▸ List.mem_map_of_mem ha)
        rw [decide_eq_false hne, if_neg Bool.false_ne_true]
        exact ih h.2 ha

theorem group_concat (a : A) :
    group key (rows ++ [a]) k = if key a = k then group key rows k ++ [a] else group key rows k := by
  rw [group, List.filter_append]
  split_ifs with h
  · rw [List.filter_singleton, decide_eq_true h]
    rfl
  · rw [List.filter_singleton, decide_eq_false h]
    exact List.append_nil _

theorem mem_group {a : A} : a ∈ group key rows k ↔ a ∈ rows ∧ key a = k := by
  rw [group, List.mem_filter, decide_eq_true_iff]

theorem tallies_concat (rows : List A) (a : A) :
    tallies key fresh add (rows ++ [a]) = tally key fresh add (tallies key fresh add rows) a :=
  List.foldl_concat _ _ _ _

theorem nodup_tallies (rows : List A) : ((tallies key fresh add rows).map Prod.fst).Nodup := by
  induction rows using List.reverseRecOn with
  | nil => exact List.nodup_nil
  | append_singleton rows a ih =>
      rw [tallies_concat]
      exact nodup_upsert ih

theorem mem_tallies {p : K × V} :
    p ∈ tallies key fresh add rows ↔ running fresh add (group key rows p.1) = some p.2 := by
  induction rows using List.reverseRecOn generalizing p with
  | nil => exact ⟨fun h => absurd h List.not_mem_nil, fun h => absurd h.symm (Option.some_ne_none _)⟩
  | append_singleton rows a ih =>
      rw [tallies_concat, tally, mem_upsert (nodup_tallies rows), group_concat]
      by_cases h : key a = p.1
      · have hkeys : key a ∉ (tallies key fresh add rows).map Prod.fst ↔
            running fresh add (group key rows (key a)) = none := by
          rw [List.mem_map, not_exists, Option.eq_none_iff_forall_ne_some]
          exact ⟨fun hno v hv => hno (key a, v) ⟨ih.mpr hv, rfl⟩, fun hno q hq => hno q.2 (hq.2 ▸ ih.mp hq.1)⟩
        rw [if_pos h, running_concat, ← h, hkeys]
        simp only [ih, ne_eq, not_true, false_and, false_or, true_and]
        cases running fresh add (group key rows (key a)) with
        | none => simp [eq_comm]
        | some v => simp [eq_comm]
      · rw [if_neg h, ih]
        simp [Ne.symm h]

theorem keys_tallies_perm (rows : List A) : ((tallies key fresh add rows).map Prod.fst).Perm (rows.map key).dedup := by
  rw [List.perm_ext_iff_of_nodup (nodup_tallies rows) (List.nodup_dedup _)]
  intro k
  rw [List.mem_dedup, List.mem_map, List.mem_map]
  constructor
  · rintro ⟨p, hp, rfl⟩
    have hgroup : group key rows p.1 ≠ [] := by
      intro hnil
      have hrun := mem_tallies.mp hp
      rw [hnil] at hrun
      cases hrun
    obtain ⟨a, ha⟩ := List.exists_mem_of_ne_nil _ hgroup
    exact ⟨a, (mem_group.mp ha).1, (mem_group.mp ha).2⟩
  · rintro ⟨a, ha, rfl⟩
    cases hrun : running fresh add (group key rows (key a)) with
    | none => exact absurd (mem_group.mpr ⟨ha, rfl⟩) (running_eq_none.mp hrun ▸ List.not_mem_nil)
    | some v => exact ⟨(key a, v), mem_tallies.mpr hrun, rfl⟩

theorem length_tallies (rows : List A) : (tallies key fresh add rows).length ≤ rows.length := by
  have hle := (List.dedup_sublist (rows.map key)).length_le
  rwa [← (keys_tallies_perm rows).length_eq, List.length_map, List.length_map] at hle

theorem sum_tallies {f : V → Nat} (hfresh : ∀ a, f (fresh a) = 0) (hadd : ∀ v a, f (add v a) = f v + 1)
    (rows : List A) :
    ((tallies key fresh add rows).map fun p => f p.2).sum = rows.length := by
  induction rows using List.reverseRecOn with
  | nil => rfl
  | append_singleton rows a ih =>
      have hstart : f (add (fresh a) a) = 1 := by rw [hadd, hfresh]
      rw [tallies_concat, tally, sum_upsert hstart fun v => hadd v a, ih, List.length_append, List.length_singleton]

theorem get_eq_some {m : List (K × V)} (h : (m.map Prod.fst).Nodup) : get m k = some v ↔ (k, v) ∈ m := by
  induction m with
  | nil => exact ⟨fun h => absurd h.symm (Option.some_ne_none _), fun h => absurd h List.not_mem_nil⟩
  | cons p m ih =>
      rw [List.map_cons, List.nodup_cons] at h
      rw [get, List.find?_cons]
      by_cases hp : p.1 = k
      · rw [decide_eq_true hp, List.mem_cons]
        refine ⟨fun hv => .inl (Prod.ext hp.symm (Option.some.inj hv).symm), ?_⟩
        rintro (rfl | hmem)
        · rfl
        · exact absurd (List.mem_map_of_mem hmem) (hp ▸ h.1)
      · rw [decide_eq_false hp, List.mem_cons]
        refine ⟨fun hv => .inr ((ih h.2).mp hv), ?_⟩
        rintro (rfl | hmem)
        · exact absurd rfl hp
        · exact (ih h.2).mpr hmem

theorem get_tallies : get (tallies key fresh add rows) k = running fresh add (group key rows k) := by
  ext v
  exact (get_eq_some (nodup_tallies rows)).trans mem_tallies

theorem running_view (f : V → B) (step : B → A → B) {b : B} (hfresh : ∀ a, f (fresh a) = b)
    (hadd : ∀ v a, f (add v a) = step (f v) a) (h : running fresh add rows = some v) : f v = rows.foldl step b := by
  induction rows using List.reverseRecOn generalizing v with
  | nil => cases h
  | append_singleton rows a ih =>
      rw [running_concat] at h
      rw [← Option.some.inj h, hadd, List.foldl_concat]
      cases hrows : running fresh add rows with
      | none => rw [running_eq_none.mp hrows, Option.getD_none, hfresh, List.foldl_nil]
      | some w => rw [Option.getD_some, ih hrows]

theorem group_filter {q : K → Bool} :
    group key (rows.filter fun a => q (key a)) k = if q k then group key rows k else [] := by
  rw [group, List.filter_filter, group]
  split
  · next hq =>
      apply List.filter_congr
      intro a _
      by_cases h : key a = k
      · rw [h, hq, Bool.and_true]
      · rw [decide_eq_false h, Bool.false_and]
  · next hq =>
      apply List.filter_eq_nil_iff.mpr
      intro a _ h
      rw [Bool.and_eq_true, decide_eq_true_iff] at h
      exact hq (h.1 ▸ h.2)

theorem tallies_filter (q : K → Bool) :
    (tallies key fresh add (rows.filter fun a => q (key a))).Perm
      ((tallies key fresh add rows).filter fun p => q p.1) := by
  rw [List.perm_ext_iff_of_nodup (nodup_tallies _).of_map ((nodup_tallies _).of_map.filter _)]
  intro p
  rw [mem_tallies, List.mem_filter, mem_tallies, group_filter]
  split
  · next hq => rw [hq, and_iff_left rfl]
  · next hq => exact iff_of_false (fun h => Option.some_ne_none _ h.symm) fun h => hq h.2

theorem running_gather :
    running (fun _ : A => ([] : List A)) (fun ns a => ns ++ [a]) rows = if rows = [] then none else some rows := by
  induction rows using List.reverseRecOn with
  | nil => rfl
  | append_singleton rows a ih =>
      have hne : rows ++ [a] ≠ [] := List.append_ne_nil_of_right_ne_nil _ (List.cons_ne_nil _ _)
      rw [running_concat, ih, if_neg hne]
      split
      · next h => rw [h, Option.getD_none]
      · rfl

end MeshcoreAnalyzer.Groups

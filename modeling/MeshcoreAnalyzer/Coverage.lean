import MeshcoreAnalyzer.GraphWeighted
import Mathlib.Algebra.Order.BigOperators.Group.Finset

namespace MeshcoreAnalyzer.Coverage

open GraphWeighted ShortestPaths

/-! `ComputeCoverageScores` of cmd/server/coverage_score.go. -/

section

variable (o : RangeOrder) (heap : MinHeap (A := String × ℚ) Prod.snd) (key : String → String)

def distEntries (adj : Adjacency) (s : String) : List (String × ℚ) :=
  adj.keys.filterMap fun t => (dijkstraFrom o heap adj s t).map fun d => (t, d)

def reach (adj : Adjacency) (s : String) : ℚ :=
  (o.order ["reach", s] (distEntries o heap adj s)).foldl
    (fun reach e => if e.1 = s ∨ e.2 ≤ 0 then reach else reach + 1 / e.2) 0

def computeCoverageScores (edges : List BridgeEdge) : String → Option ℚ :=
  let adj := weightedDistanceAdjacency key edges
  fun v => if v ∈ adj then some (normalized o "maxH" adj.keys (reach o heap adj) v) else none

end

open Classical in
noncomputable def distance (adj : Adjacency) (s t : String) : Option ℚ :=
  if h : ∃ d, IsLeast {c | Path adj s t c} d then some h.choose else none

noncomputable def harmonicReach (adj : Adjacency) (v : String) : ℚ :=
  ∑ t ∈ adj.keys.toFinset.erase v, ((distance adj v t).map fun d => 1 / d).getD 0

section

variable {o : RangeOrder} {heap : MinHeap (A := String × ℚ) Prod.snd} {key : String → String} {edges : List BridgeEdge}

theorem distance_eq {adj : Adjacency} {s t : String} {p : Option ℚ} (h : LeastOf {c | Path adj s t c} p) :
    distance adj s t = p := by
  cases p with
  | none =>
      rw [distance, dif_neg]
      rintro ⟨d, hd⟩
      have hmem := hd.1
      rw [show {c | Path adj s t c} = ∅ from h] at hmem
      cases hmem
  | some d =>
      have hex : ∃ d, IsLeast {c | Path adj s t c} d := ⟨d, h⟩
      rw [distance, dif_pos hex, hex.choose_spec.unique h]

theorem path_pos {s t : String} {c : ℚ} (h : Path (weightedDistanceAdjacency key edges) s t c) (hne : t ≠ s) :
    0 < c := by
  have hor : t = s ∧ c = 0 ∨ 0 < c := by
    clear hne
    induction h with
    | nil => exact .inl ⟨rfl, rfl⟩
    | @snoc v u c d _ hedge ih =>
        right
        have hd : 0 < d := cost_pos (mem_edgesOf.mp hedge)
        rcases ih with ⟨_, rfl⟩ | hc
        · rwa [zero_add]
        · exact add_pos hc hd
  exact hor.resolve_left fun h => hne h.1

theorem foldl_add_eq_sum {A : Type} (f : A → ℚ) (p : A → Prop) [DecidablePred p] (l : List A) (x : ℚ) :
    l.foldl (fun acc a => if p a then acc else acc + f a) x = x + (l.map fun a => if p a then 0 else f a).sum := by
  induction l generalizing x with
  | nil => simp
  | cons a l ih =>
      rw [List.foldl_cons, ih, List.map_cons, List.sum_cons]
      split
      · rw [zero_add]
      · rw [add_assoc]

theorem reach_eq (v : String) :
    reach o heap (weightedDistanceAdjacency key edges) v = harmonicReach (weightedDistanceAdjacency key edges) v := by
  have hdist : ∀ t, distance (weightedDistanceAdjacency key edges) v t =
      dijkstraFrom o heap (weightedDistanceAdjacency key edges) v t := fun t =>
    distance_eq (dijkstraFrom_least o heap key edges v t)
  rw [reach, foldl_add_eq_sum (fun e : String × ℚ => 1 / e.2), zero_add, ((o.perm _ _).map _).sum_eq, distEntries]
  have hsum : ∀ keys : List String, ((keys.filterMap fun t =>
        (dijkstraFrom o heap (weightedDistanceAdjacency key edges) v t).map fun d => (t, d)).map
          fun e => if e.1 = v ∨ e.2 ≤ 0 then 0 else 1 / e.2).sum =
      (keys.map fun t => if t = v then 0 else
        ((distance (weightedDistanceAdjacency key edges) v t).map fun d => 1 / d).getD 0).sum := by
    intro keys
    induction keys with
    | nil => rfl
    | cons t keys ih =>
        rw [List.filterMap_cons, List.map_cons, List.sum_cons, ← ih, hdist]
        cases hd : dijkstraFrom o heap (weightedDistanceAdjacency key edges) v t with
        | none => simp
        | some d =>
            by_cases ht : t = v
            · simp [ht]
            · have hleast := dijkstraFrom_least o heap key edges v t
              rw [hd] at hleast
              have hpos : ¬ d ≤ 0 := not_le.mpr (path_pos hleast.1 ht)
              simp [ht, hpos]
  rw [hsum, harmonicReach, ← List.sum_toFinset _ (AList.keys_nodup _)]
  rw [← Finset.sum_erase _ (a := v) (by simp)]
  apply Finset.sum_congr rfl
  intro t ht
  rw [if_neg (Finset.ne_of_mem_erase ht)]

theorem path_perm {edges' : List BridgeEdge} (h : edges'.Perm edges) {s t : String} {c : ℚ} :
    Path (weightedDistanceAdjacency key edges') s t c ↔ Path (weightedDistanceAdjacency key edges) s t c := by
  have hedges : ∀ v e, e ∈ edgesOf (weightedDistanceAdjacency key edges') v ↔
      e ∈ edgesOf (weightedDistanceAdjacency key edges) v := by
    rintro v ⟨u, d⟩
    rw [mem_edgesOf, mem_edgesOf, cost_perm h]
  exact ⟨Walk.mono fun v e => (hedges v e).mp, Walk.mono fun v e => (hedges v e).mpr⟩

theorem harmonicReach_perm {edges' : List BridgeEdge} (h : edges'.Perm edges) (v : String) :
    harmonicReach (weightedDistanceAdjacency key edges') v = harmonicReach (weightedDistanceAdjacency key edges) v := by
  have hkeys : (weightedDistanceAdjacency key edges').keys.toFinset =
      (weightedDistanceAdjacency key edges).keys.toFinset := by
    ext t
    rw [List.mem_toFinset, List.mem_toFinset, ← AList.mem_keys, ← AList.mem_keys, mem_perm h]
  have hdistance : ∀ t, distance (weightedDistanceAdjacency key edges') v t =
      distance (weightedDistanceAdjacency key edges) v t := by
    intro t
    have hleast := dijkstraFrom_least .listed (.insertion _) key edges' v t
    have hset : {c | Path (weightedDistanceAdjacency key edges') v t c} =
        {c | Path (weightedDistanceAdjacency key edges) v t c} := by
      ext c
      exact path_perm h
    rw [distance_eq hleast, distance_eq (hset ▸ hleast)]
  rw [harmonicReach, harmonicReach, hkeys]
  apply Finset.sum_congr rfl
  intro t _
  rw [hdistance]

theorem harmonicReach_pos {v : String} (h : v ∈ weightedDistanceAdjacency key edges) :
    0 < harmonicReach (weightedDistanceAdjacency key edges) v := by
  have hterm : ∀ t ∈ (weightedDistanceAdjacency key edges).keys.toFinset.erase v,
      0 ≤ ((distance (weightedDistanceAdjacency key edges) v t).map fun d => 1 / d).getD 0 := by
    intro t ht
    have hleast := dijkstraFrom_least .listed (.insertion _) key edges v t
    rw [distance_eq hleast]
    cases hd : dijkstraFrom .listed (.insertion _) (weightedDistanceAdjacency key edges) v t with
    | none => exact le_refl 0
    | some d =>
        rw [hd] at hleast
        exact le_of_lt (one_div_pos.mpr (path_pos hleast.1 (Finset.ne_of_mem_erase ht)))
  obtain ⟨u, d, hcost⟩ := exists_cost h
  have hne : u ≠ v := by
    rintro rfl
    rw [cost_self] at hcost
    cases hcost
  have hpath : Path (weightedDistanceAdjacency key edges) v u (0 + d) := Walk.nil.snoc (mem_edgesOf.mpr hcost)
  have hu : u ∈ (weightedDistanceAdjacency key edges).keys.toFinset.erase v := by
    apply Finset.mem_erase_of_ne_of_mem hne
    rw [List.mem_toFinset, ← AList.mem_keys]
    exact mem_of_cost hcost
  apply Finset.sum_pos' hterm ⟨u, hu, ?_⟩
  have hleast := dijkstraFrom_least .listed (.insertion _) key edges v u
  rw [distance_eq hleast]
  cases hd : dijkstraFrom .listed (.insertion _) (weightedDistanceAdjacency key edges) v u with
  | none =>
      rw [hd] at hleast
      exact absurd hpath (Set.eq_empty_iff_forall_notMem.mp hleast _)
  | some d =>
      rw [hd] at hleast
      exact one_div_pos.mpr (path_pos hleast.1 hne)

end

section

variable {o : RangeOrder} {heap : MinHeap (A := String × ℚ) Prod.snd} {key : String → String} {edges : List BridgeEdge}
  {v : String}

theorem computeCoverageScores_of_mem (h : v ∈ weightedDistanceAdjacency key edges) :
    computeCoverageScores o heap key edges v =
      some (normalized o "maxH" (weightedDistanceAdjacency key edges).keys
        (reach o heap (weightedDistanceAdjacency key edges)) v) :=
  if_pos h

theorem computeCoverageScores_of_notMem (h : v ∉ weightedDistanceAdjacency key edges) :
    computeCoverageScores o heap key edges v = none :=
  if_neg h

end

/-- Whatever the order of the edges and of the maps, and whichever of several least elements the heap gives. -/
theorem coverage_exact (o : RangeOrder) (heap : MinHeap (A := String × ℚ) Prod.snd) (key : String → String)
    (edges : List BridgeEdge) :
    let adj := weightedDistanceAdjacency key edges
    (∀ v, v ∈ adj ↔ ∃ e ∈ edges, ∃ b, e.Joins key v b) ∧
    (∀ a b, LeastOf (costs key edges a b) (cost adj a b) ∧ cost adj a b = cost adj b a ∧ cost adj a a = none) ∧
    (∀ s t, LeastOf {c | Path adj s t c} (dijkstraFrom o heap adj s t)) ∧
    (∀ v ∉ adj, computeCoverageScores o heap key edges v = none) ∧
    (∀ v ∈ adj, ∃ m, IsGreatest {h | ∃ u ∈ adj, h = harmonicReach adj u} m ∧ 0 < m ∧
      computeCoverageScores o heap key edges v = some (harmonicReach adj v / m)) ∧
    ∀ (o' : RangeOrder) (heap' : MinHeap (A := String × ℚ) Prod.snd) (edges' : List BridgeEdge), edges'.Perm edges →
      computeCoverageScores o' heap' key edges' = computeCoverageScores o heap key edges := by
  intro adj
  have hreach : ∀ v, reach o heap adj v = harmonicReach adj v := reach_eq
  refine ⟨mem_weightedDistanceAdjacency key edges, ?_, dijkstraFrom_least o heap key edges, ?_, ?_, ?_⟩
  · intro a b
    exact ⟨weightedDistanceAdjacency_least key edges a b, cost_comm, cost_self⟩
  · intro v hv
    exact computeCoverageScores_of_notMem hv
  · intro v hv
    obtain ⟨m, hgreatest, hnonneg, hscaled⟩ := normalized_spec o "maxH" (fun u _ => hreach u)
      (fun u hu => (harmonicReach_pos (AList.mem_keys.mpr hu)).le) (AList.mem_keys.mp hv)
    have hpos : 0 < m := (harmonicReach_pos hv).trans_le (hgreatest.2 ⟨v, AList.mem_keys.mp hv, rfl⟩)
    rw [if_neg hpos.ne'] at hscaled
    exact ⟨m, hgreatest, hpos, (computeCoverageScores_of_mem hv).trans (congrArg some hscaled)⟩
  · intro o' heap' edges' hperm
    funext v
    by_cases hv : v ∈ weightedDistanceAdjacency key edges
    · rw [computeCoverageScores_of_mem hv, computeCoverageScores_of_mem ((mem_perm hperm v).mpr hv)]
      apply congrArg some
      apply normalized_congr
      · intro u
        rw [← AList.mem_keys, ← AList.mem_keys, mem_perm hperm]
      · intro u _
        rw [reach_eq, reach_eq, harmonicReach_perm hperm]
      · exact AList.mem_keys.mp ((mem_perm hperm v).mpr hv)
    · rw [computeCoverageScores_of_notMem hv, computeCoverageScores_of_notMem fun h => hv ((mem_perm hperm v).mp h)]

end MeshcoreAnalyzer.Coverage

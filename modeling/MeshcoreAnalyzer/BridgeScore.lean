import MeshcoreAnalyzer.Dependencies
import MeshcoreAnalyzer.GraphWeighted
import Mathlib.Data.String.Basic

namespace MeshcoreAnalyzer.BridgeScore

open Dependencies GraphWeighted PathCounts ShortestPaths

/-! `ComputeBridgeScores` of cmd/server/bridge_score.go; `key` is `strings.ToLower(strings.TrimSpace(s))`. -/

def tolerance : ℚ := 1 / 1000000000000

section

variable (o : RangeOrder) (heap : MinHeap (A := String × ℚ) Prod.snd) (key : String → String)

/-- `adj[v]` in the order in which it is met in the search from a source. -/
def ranged (adj : Adjacency) (s v : String) : List (String × ℚ) := o.order ["brandes", s, v] (edgesOf adj v)

def searchFrom (adj : Adjacency) (s : String) : Counting String ℚ heap.Q :=
  counted heap tolerance (ranged o adj s) s adj.keys.toFinset

def totals (adj : Adjacency) : String → ℚ :=
  (o.order ["nodes"] adj.keys).foldl (fun bc s => (accumulate s (searchFrom o heap adj s) bc).2) fun _ => 0

def computeBridgeScores (edges : List BridgeEdge) : String → Option ℚ :=
  let adj := weightedDistanceAdjacency key edges
  let bc := totals o heap adj
  fun v => if v ∈ adj then some (normalized o "maxBC" adj.keys (fun k => bc k / 2) v) else none

end

noncomputable def betweenness (adj : Adjacency) (v : String) : ℚ :=
  ∑ p ∈ (adj.keys.toFinset.erase v ×ˢ adj.keys.toFinset.erase v) with p.1 < p.2, share (edgesOf adj) p.1 p.2 v

/-- Two lengths of paths between the same nodes are equal or differ by more than twice the tolerance. -/
def Apart (adj : Adjacency) : Prop :=
  ∀ s t l l' c c', Simple (edgesOf adj) s t l c → Simple (edgesOf adj) s t l' c' → c = c' ∨ 2 * tolerance < |c - c'|

theorem sum_pairs {A : Type} [LinearOrder A] (nodes : Finset A) {f : A → A → ℚ} (hf : ∀ s t, f s t = f t s) :
    ∑ s ∈ nodes, ∑ t ∈ nodes.erase s, f s t = 2 * ∑ p ∈ nodes ×ˢ nodes with p.1 < p.2, f p.1 p.2 := by
  have hsplit : ∀ s ∈ nodes, ∑ t ∈ nodes.erase s, f s t =
      (∑ t ∈ nodes, if s < t then f s t else 0) + ∑ t ∈ nodes, if t < s then f s t else 0 := by
    intro s hs
    rw [← Finset.sum_add_distrib, ← Finset.add_sum_erase nodes _ hs]
    simp only [lt_irrefl, if_false, zero_add, add_zero]
    apply Finset.sum_congr rfl
    intro t ht
    rcases lt_or_gt_of_ne (Finset.ne_of_mem_erase ht) with h | h
    · simp [h, not_lt_of_gt h]
    · simp [h, not_lt_of_gt h]
  have hswap : (∑ s ∈ nodes, ∑ t ∈ nodes, if t < s then f s t else 0) =
      ∑ s ∈ nodes, ∑ t ∈ nodes, if s < t then f s t else 0 := by
    rw [Finset.sum_comm]
    apply Finset.sum_congr rfl
    intro s _
    apply Finset.sum_congr rfl
    intro t _
    rw [hf]
  rw [Finset.sum_congr rfl hsplit, Finset.sum_add_distrib, hswap, Finset.sum_filter, Finset.sum_product, two_mul]

section

variable {o : RangeOrder} {heap : MinHeap (A := String × ℚ) Prod.snd} {key : String → String} {edges : List BridgeEdge}

theorem mem_ranged {adj : Adjacency} {s v : String} {e : String × ℚ} : e ∈ ranged o adj s v ↔ e ∈ edgesOf adj v :=
  (o.perm _ _).mem_iff

theorem edgesOf_keys (adj : Adjacency) (v : String) : ((edgesOf adj v).map Prod.fst).Nodup := by
  rw [edgesOf, List.map_map]
  exact ((adj.lookup v).getD ∅).nodupKeys

theorem one_le_cost (hweight : ∀ e ∈ edges, e.weight ≤ 1) {a b : String} {d : ℚ}
    (h : cost (weightedDistanceAdjacency key edges) a b = some d) : 1 ≤ d := by
  obtain ⟨e, he, ⟨_, _, _, hmin, _⟩, rfl⟩ := ((weightedDistanceAdjacency_least key edges a b).iff d).mp h |>.1
  have hpos : (0 : ℚ) < e.weight := lt_of_lt_of_le (by norm_num [bridgeMinWeightEpsilon]) hmin
  rw [le_div_iff₀ hpos, one_mul]
  exact hweight e he

theorem separated (hweight : ∀ e ∈ edges, e.weight ≤ 1) (hapart : Apart (weightedDistanceAdjacency key edges))
    (s : String) : Separated (ranged o (weightedDistanceAdjacency key edges) s) tolerance s where
  nonneg := by norm_num [tolerance]
  cost := by
    rintro v ⟨u, d⟩ he
    have hone := one_le_cost hweight (mem_edgesOf.mp (mem_ranged.mp he))
    exact lt_of_lt_of_le (by norm_num [tolerance]) hone
  keys := by
    intro v
    exact ((o.perm _ _).map _).nodup_iff.mpr (edgesOf_keys _ v)
  lengths := by
    intro t l l' c c' hl hl'
    have hsub : ∀ v, ∀ e ∈ ranged o (weightedDistanceAdjacency key edges) s v,
        e ∈ edgesOf (weightedDistanceAdjacency key edges) v := fun v e => mem_ranged.mp
    rcases hapart s t l l' c c' (hl.mono hsub) (hl'.mono hsub) with heq | hlt
    · exact .inl heq
    · exact .inr (lt_trans (by norm_num [tolerance]) hlt)

theorem counted_searchFrom (hweight : ∀ e ∈ edges, e.weight ≤ 1)
    (hapart : Apart (weightedDistanceAdjacency key edges)) (s : String) :
    Counted (ranged o (weightedDistanceAdjacency key edges) s) s
      (searchFrom o heap (weightedDistanceAdjacency key edges) s) := by
  apply counted_spec (separated hweight hapart s)
  intro v hne
  rw [List.mem_toFinset, ← AList.mem_keys]
  by_contra hmem
  apply hne
  have hempty : edgesOf (weightedDistanceAdjacency key edges) v = [] := by
    rw [edgesOf, AList.lookup_eq_none.mpr hmem]
    rfl
  apply List.eq_nil_iff_forall_not_mem.mpr
  intro e he
  rw [mem_ranged, hempty] at he
  cases he

theorem edgesOf_symm (u v : String) (d : ℚ) (h : (v, d) ∈ edgesOf (weightedDistanceAdjacency key edges) u) :
    (u, d) ∈ edgesOf (weightedDistanceAdjacency key edges) v := by
  rw [mem_edgesOf] at h ⊢
  rw [← h, cost_comm]

theorem accumulate_searchFrom (hweight : ∀ e ∈ edges, e.weight ≤ 1)
    (hapart : Apart (weightedDistanceAdjacency key edges)) {s : String} (hs : s ∈ weightedDistanceAdjacency key edges)
    (bc : String → ℚ) (v : String) :
    (accumulate s (searchFrom o heap (weightedDistanceAdjacency key edges) s) bc).2 v =
      bc v + if v = s then 0 else ∑ t ∈ ((weightedDistanceAdjacency key edges).keys.toFinset.erase s).erase v,
        share (edgesOf (weightedDistanceAdjacency key edges)) s t v := by
  have hcounted : Counted (ranged o (weightedDistanceAdjacency key edges) s) s
      (searchFrom o heap (weightedDistanceAdjacency key edges) s) := counted_searchFrom hweight hapart s
  have hnodes : ∀ x ∈ (searchFrom o heap (weightedDistanceAdjacency key edges) s).stack,
      x ∈ (weightedDistanceAdjacency key edges).keys.toFinset := by
    intro x hx
    obtain ⟨d, hd⟩ := (hcounted.mem_stack x).mp hx
    obtain ⟨l, hl⟩ := hcounted.simple x d hd
    rw [List.mem_toFinset, ← AList.mem_keys]
    cases hl with
    | nil => exact hs
    | snoc _ hedge _ => exact mem_of_cost (mem_edgesOf.mp (mem_ranged.mp hedge))
  rw [accumulate_share (separated hweight hapart s).cost_pos hcounted hnodes]
  simp only [share_congr fun v e => mem_ranged (s := s) (v := v) (e := e)]

theorem totals_eq (hweight : ∀ e ∈ edges, e.weight ≤ 1) (hapart : Apart (weightedDistanceAdjacency key edges))
    {v : String} (hv : v ∈ weightedDistanceAdjacency key edges) :
    totals o heap (weightedDistanceAdjacency key edges) v =
      2 * betweenness (weightedDistanceAdjacency key edges) v := by
  have hfold : ∀ (ss : List String) (bc : String → ℚ), (∀ s ∈ ss, s ∈ weightedDistanceAdjacency key edges) →
      ss.foldl (fun bc s => (accumulate s (searchFrom o heap (weightedDistanceAdjacency key edges) s) bc).2) bc v =
        bc v + (ss.map fun s => if v = s then 0
          else ∑ t ∈ ((weightedDistanceAdjacency key edges).keys.toFinset.erase s).erase v,
            share (edgesOf (weightedDistanceAdjacency key edges)) s t v).sum := by
    intro ss
    induction ss with
    | nil => simp
    | cons s ss ih =>
        intro bc hss
        rw [List.foldl_cons, ih _ fun x hx => hss x (List.mem_cons_of_mem s hx),
          accumulate_searchFrom hweight hapart (hss s List.mem_cons_self), List.map_cons, List.sum_cons, add_assoc]
  have hkeys : ∀ s ∈ o.order ["nodes"] (weightedDistanceAdjacency key edges).keys,
      s ∈ weightedDistanceAdjacency key edges := by
    intro s hs
    rw [AList.mem_keys]
    exact (o.perm _ _).mem_iff.mp hs
  have hmem : v ∈ (weightedDistanceAdjacency key edges).keys.toFinset := by
    rw [List.mem_toFinset, ← AList.mem_keys]
    exact hv
  have hpairs := sum_pairs ((weightedDistanceAdjacency key edges).keys.toFinset.erase v)
    (f := fun s t => share (edgesOf (weightedDistanceAdjacency key edges)) s t v) fun s t => share_comm edgesOf_symm
  rw [totals, hfold _ _ hkeys, zero_add, ((o.perm _ _).map _).sum_eq, ← List.sum_toFinset _ (AList.keys_nodup _),
    ← Finset.add_sum_erase _ _ hmem, if_pos rfl, zero_add, betweenness, ← hpairs]
  apply Finset.sum_congr rfl
  intro s hs
  rw [if_neg (Ne.symm (Finset.ne_of_mem_erase hs)), Finset.erase_right_comm]

theorem betweenness_nonneg (adj : Adjacency) (v : String) : 0 ≤ betweenness adj v := by
  apply Finset.sum_nonneg
  intro p _
  exact div_nonneg (Nat.cast_nonneg _) (Nat.cast_nonneg _)

variable {edges' : List BridgeEdge}

theorem edgesOf_perm (h : edges'.Perm edges) (v : String) (e : String × ℚ) :
    e ∈ edgesOf (weightedDistanceAdjacency key edges') v ↔ e ∈ edgesOf (weightedDistanceAdjacency key edges) v := by
  rw [mem_edgesOf, mem_edgesOf, cost_perm h]

theorem Apart.perm (hapart : Apart (weightedDistanceAdjacency key edges)) (h : edges'.Perm edges) :
    Apart (weightedDistanceAdjacency key edges') := by
  intro s t l l' c c' hl hl'
  have hsub : ∀ v, ∀ e ∈ edgesOf (weightedDistanceAdjacency key edges') v,
      e ∈ edgesOf (weightedDistanceAdjacency key edges) v := fun v e => (edgesOf_perm h v e).mp
  exact hapart s t l l' c c' (hl.mono hsub) (hl'.mono hsub)

theorem betweenness_perm (h : edges'.Perm edges) (v : String) :
    betweenness (weightedDistanceAdjacency key edges') v = betweenness (weightedDistanceAdjacency key edges) v := by
  have hkeys : (weightedDistanceAdjacency key edges').keys.toFinset =
      (weightedDistanceAdjacency key edges).keys.toFinset := by
    ext t
    rw [List.mem_toFinset, List.mem_toFinset, ← AList.mem_keys, ← AList.mem_keys, mem_perm h]
  rw [betweenness, betweenness, hkeys]
  apply Finset.sum_congr rfl
  intro p _
  exact share_congr (edgesOf_perm h)

theorem computeBridgeScores_of_mem {v : String} (h : v ∈ weightedDistanceAdjacency key edges) :
    computeBridgeScores o heap key edges v =
      some (normalized o "maxBC" (weightedDistanceAdjacency key edges).keys
        (fun k => totals o heap (weightedDistanceAdjacency key edges) k / 2) v) :=
  if_pos h

theorem computeBridgeScores_of_notMem {v : String} (h : v ∉ weightedDistanceAdjacency key edges) :
    computeBridgeScores o heap key edges v = none :=
  if_neg h

theorem half_totals (hweight : ∀ e ∈ edges, e.weight ≤ 1) (hapart : Apart (weightedDistanceAdjacency key edges))
    {v : String} (hv : v ∈ weightedDistanceAdjacency key edges) :
    totals o heap (weightedDistanceAdjacency key edges) v / 2 =
      betweenness (weightedDistanceAdjacency key edges) v := by
  rw [totals_eq hweight hapart hv, mul_div_cancel_left₀ _ two_ne_zero]

end

/-- Whatever the order of the edges and of the maps, and whichever of several least elements the heap gives. -/
theorem bridge_exact (o : RangeOrder) (heap : MinHeap (A := String × ℚ) Prod.snd) (key : String → String)
    (edges : List BridgeEdge) (hweight : ∀ e ∈ edges, bridgeMinWeightEpsilon ≤ e.weight ∧ e.weight ≤ 1)
    (hapart : Apart (weightedDistanceAdjacency key edges)) :
    let adj := weightedDistanceAdjacency key edges
    (∀ v, v ∈ adj ↔ ∃ e ∈ edges, ∃ b, e.Joins key v b) ∧
    (∀ a b, LeastOf (costs key edges a b) (cost adj a b)) ∧
    (∀ s t, (shortest (edgesOf adj) s t).Finite) ∧
    (∀ v ∉ adj, computeBridgeScores o heap key edges v = none) ∧
    (∀ v ∈ adj, ∃ m x, IsGreatest {b | ∃ u ∈ adj, b = betweenness adj u} m ∧
      computeBridgeScores o heap key edges v = some x ∧ x = (if m = 0 then 0 else betweenness adj v / m) ∧
      0 ≤ x ∧ x ≤ 1) ∧
    ∀ (o' : RangeOrder) (heap' : MinHeap (A := String × ℚ) Prod.snd) (edges' : List BridgeEdge), edges'.Perm edges →
      computeBridgeScores o' heap' key edges' = computeBridgeScores o heap key edges := by
  have hmost : ∀ e ∈ edges, e.weight ≤ 1 := fun e he => (hweight e he).2
  intro adj
  refine ⟨mem_weightedDistanceAdjacency key edges, weightedDistanceAdjacency_least key edges, fun s t => ?_,
    fun v hv => computeBridgeScores_of_notMem hv, fun v hv => ?_, fun o' heap' edges' hperm => ?_⟩
  · have hcounted : Counted (ranged o adj s) s (searchFrom o heap adj s) := counted_searchFrom hmost hapart s
    have hfinite := finite_shortest (separated hmost hapart s).cost_pos hcounted t
    rwa [shortest_congr fun v e => mem_ranged] at hfinite
  · have htotals : ∀ u ∈ adj.keys, totals o heap adj u / 2 = betweenness adj u :=
      fun u hu => half_totals hmost hapart (AList.mem_keys.mpr hu)
    obtain ⟨m, hgreatest, hnonneg, hscaled⟩ :=
      normalized_spec o "maxBC" htotals (fun u _ => betweenness_nonneg adj u) (AList.mem_keys.mp hv)
    have hvalue := (computeBridgeScores_of_mem hv).trans (congrArg some hscaled)
    refine ⟨m, _, hgreatest, hvalue, rfl, ?_, ?_⟩
    · split
      · exact le_refl 0
      · exact div_nonneg (betweenness_nonneg adj v) hnonneg
    · split
      · exact zero_le_one
      · next hzero =>
          rw [div_le_one (lt_of_le_of_ne hnonneg (Ne.symm hzero))]
          exact hgreatest.2 ⟨v, AList.mem_keys.mp hv, rfl⟩
  · funext v
    by_cases hv : v ∈ weightedDistanceAdjacency key edges
    · rw [computeBridgeScores_of_mem hv, computeBridgeScores_of_mem ((mem_perm hperm v).mpr hv)]
      have hmost' : ∀ e ∈ edges', e.weight ≤ 1 := fun e he => hmost e (hperm.mem_iff.mp he)
      apply congrArg some
      apply normalized_congr
      · intro u
        rw [← AList.mem_keys, ← AList.mem_keys, mem_perm hperm]
      · intro u hu
        rw [← AList.mem_keys] at hu
        rw [half_totals hmost' (hapart.perm hperm) hu, half_totals hmost hapart ((mem_perm hperm u).mp hu),
          betweenness_perm hperm]
      · exact AList.mem_keys.mp ((mem_perm hperm v).mpr hv)
    · rw [computeBridgeScores_of_notMem hv, computeBridgeScores_of_notMem fun h => hv ((mem_perm hperm v).mp h)]

theorem apart_of_unit {key : String → String} {edges : List BridgeEdge} (h : ∀ e ∈ edges, e.weight = 1) :
    Apart (weightedDistanceAdjacency key edges) := by
  have hwhole : ∀ {s t l c}, Simple (edgesOf (weightedDistanceAdjacency key edges)) s t l c → ∃ n : Int, c = n := by
    intro s t l c hl
    induction hl with
    | nil => exact ⟨0, Int.cast_zero.symm⟩
    | @snoc v u l c d _ hedge _ ih =>
        obtain ⟨n, rfl⟩ := ih
        obtain ⟨e, he, _, rfl⟩ := ((weightedDistanceAdjacency_least key edges v u).iff d).mp (mem_edgesOf.mp hedge) |>.1
        refine ⟨n + 1, ?_⟩
        rw [h e he, one_div_one, Int.cast_add, Int.cast_one]
  intro s t l l' c c' hl hl'
  obtain ⟨n, rfl⟩ := hwhole hl
  obtain ⟨n', rfl⟩ := hwhole hl'
  by_cases heq : n = n'
  · exact .inl (by rw [heq])
  · right
    have hone : (1 : ℚ) ≤ |(n : ℚ) - n'| := by exact_mod_cast Int.one_le_abs (sub_ne_zero.mpr heq)
    exact lt_of_lt_of_le (by norm_num [tolerance]) hone

def line : List BridgeEdge := [⟨"a", "b", 1⟩, ⟨"b", "c", 1⟩]

theorem bridge_exact_line :
    let adj := weightedDistanceAdjacency id line
    ∃ m x, IsGreatest {b | ∃ u ∈ adj, b = betweenness adj u} m ∧
      computeBridgeScores .listed (.insertion Prod.snd) id line "b" = some x ∧
      x = (if m = 0 then 0 else betweenness adj "b" / m) ∧ 0 ≤ x ∧ x ≤ 1 := by
  have hunit : ∀ e ∈ line, e.weight = 1 := by simp [line]
  have hweight : ∀ e ∈ line, bridgeMinWeightEpsilon ≤ e.weight ∧ e.weight ≤ 1 := by
    intro e he
    rw [hunit e he]
    norm_num [bridgeMinWeightEpsilon]
  have hb : "b" ∈ weightedDistanceAdjacency id line := by
    rw [mem_weightedDistanceAdjacency]
    refine ⟨⟨"a", "b", 1⟩, by simp [line], "a", by decide, by decide, by decide, ?_, .inr ⟨rfl, rfl⟩⟩
    norm_num [bridgeMinWeightEpsilon]
  obtain ⟨_, _, _, _, hscores, _⟩ := bridge_exact .listed (.insertion Prod.snd) id line hweight (apart_of_unit hunit)
  exact hscores "b" hb

end MeshcoreAnalyzer.BridgeScore

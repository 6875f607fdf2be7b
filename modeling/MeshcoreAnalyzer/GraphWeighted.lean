import MeshcoreAnalyzer.ShortestPaths
import Mathlib.Algebra.Order.Field.Rat
import Mathlib.Data.List.AList
import Mathlib.Tactic.NormNum

namespace MeshcoreAnalyzer.GraphWeighted

open ShortestPaths

/-! `weightedDistanceAdjacency` and `dijkstraFrom` of cmd/server/graph_weighted.go. Weights are exact, and `key` is
`strings.ToLower(strings.TrimSpace(s))`, of which nothing is used. -/

structure BridgeEdge where
  a : String
  b : String
  weight : ℚ

def bridgeMinWeightEpsilon : ℚ := 1 / 1000000000

abbrev Table (V : Type) := AList fun _ : String => V

abbrev Adjacency := Table (Table ℚ)

/-- In which order the range statement at a place of the run meets the entries of a map. -/
structure RangeOrder where
  order : ∀ {A : Type}, List String → List A → List A
  perm : ∀ {A : Type} (place : List String) (l : List A), (order place l).Perm l

def RangeOrder.listed : RangeOrder := ⟨fun _ l => l, fun _ l => List.Perm.refl l⟩

def addOrMerge (adj : Adjacency) (a b : String) (dist : ℚ) : Adjacency :=
  let m := (adj.lookup a).getD ∅
  adj.insert a (if (m.lookup b).all fun existing => dist < existing then m.insert b dist else m)

def addEdge (key : String → String) (adj : Adjacency) (e : BridgeEdge) : Adjacency :=
  if key e.a = "" ∨ key e.b = "" ∨ key e.a = key e.b then adj
  else if e.weight < bridgeMinWeightEpsilon then adj
  else addOrMerge (addOrMerge adj (key e.a) (key e.b) (1 / e.weight)) (key e.b) (key e.a) (1 / e.weight)

def weightedDistanceAdjacency (key : String → String) (edges : List BridgeEdge) : Adjacency :=
  edges.foldl (addEdge key) ∅

def edgesOf (adj : Adjacency) (v : String) : List (String × ℚ) :=
  ((adj.lookup v).getD ∅).entries.map fun e => (e.1, e.2)

/-- No node is visited twice, so a place is named by the source and the node. -/
def dijkstraFrom (o : RangeOrder) (heap : MinHeap (A := String × ℚ) Prod.snd) (adj : Adjacency) (src : String) :
    String → Option ℚ :=
  distances heap (fun v => o.order ["dijkstraFrom", src, v] (edgesOf adj v)) src adj.keys.toFinset

def cost (adj : Adjacency) (a b : String) : Option ℚ := ((adj.lookup a).getD ∅).lookup b

/-- Nothing, or the least of a set. -/
def LeastOf (s : Set ℚ) : Option ℚ → Prop
  | none => s = ∅
  | some d => IsLeast s d

/-- An edge between two nodes that is not skipped. -/
def BridgeEdge.Joins (key : String → String) (e : BridgeEdge) (a b : String) : Prop :=
  a ≠ "" ∧ b ≠ "" ∧ a ≠ b ∧ bridgeMinWeightEpsilon ≤ e.weight ∧
    (key e.a = a ∧ key e.b = b ∨ key e.a = b ∧ key e.b = a)

def costs (key : String → String) (edges : List BridgeEdge) (a b : String) : Set ℚ :=
  {d | ∃ e ∈ edges, e.Joins key a b ∧ d = 1 / e.weight}

theorem LeastOf.eq {s : Set ℚ} {o p : Option ℚ} (h : LeastOf s o) (h' : LeastOf s p) : o = p := by
  cases o with
  | none =>
      cases p with
      | none => rfl
      | some d =>
          have hmem := h'.1
          rw [show s = ∅ from h] at hmem
          cases hmem
  | some d =>
      cases p with
      | none =>
          have hmem := h.1
          rw [show s = ∅ from h'] at hmem
          cases hmem
      | some d' => rw [IsLeast.unique h h']

theorem LeastOf.iff {s : Set ℚ} {o : Option ℚ} (h : LeastOf s o) (d : ℚ) : o = some d ↔ IsLeast s d := by
  constructor
  · rintro rfl
    exact h
  · intro hd
    exact h.eq (p := some d) hd

theorem LeastOf.insert {s : Set ℚ} {o : Option ℚ} (h : LeastOf s o) (d : ℚ) :
    LeastOf (insert d s) (if o.all fun existing => d < existing then some d else o) := by
  cases o with
  | none =>
      rw [show s = ∅ from h]
      simp [LeastOf]
  | some existing =>
      have hleast : IsLeast s existing := h
      by_cases hless : d < existing
      · simp only [Option.all_some, decide_eq_true hless, if_true]
        refine ⟨Set.mem_insert d s, ?_⟩
        rintro x (rfl | hx)
        · exact le_refl _
        · exact (le_of_lt hless).trans (hleast.2 hx)
      · simp only [Option.all_some, decide_eq_false hless]
        refine ⟨Set.mem_insert_of_mem d hleast.1, ?_⟩
        rintro x (rfl | hx)
        · exact not_lt.mp hless
        · exact hleast.2 hx

theorem lookup_merged (m : Table ℚ) (b : String) (d : ℚ) (y : String) :
    (if (m.lookup b).all fun existing => d < existing then m.insert b d else m).lookup y =
      if y = b then (if (m.lookup b).all fun existing => d < existing then some d else m.lookup b) else m.lookup y := by
  by_cases hy : y = b
  · subst hy
    rw [if_pos rfl]
    split
    · rw [AList.lookup_insert]
    · rfl
  · rw [if_neg hy]
    split
    · rw [AList.lookup_insert_ne hy]
    · rfl

theorem cost_addOrMerge (adj : Adjacency) (a b : String) (d : ℚ) (x y : String) :
    cost (addOrMerge adj a b d) x y =
      if x = a ∧ y = b then (if (cost adj a b).all fun existing => d < existing then some d else cost adj a b)
      else cost adj x y := by
  rw [cost, addOrMerge]
  by_cases hx : x = a
  · subst hx
    rw [AList.lookup_insert, Option.getD_some, lookup_merged]
    by_cases hy : y = b
    · have hcell : x = x ∧ y = b := ⟨rfl, hy⟩
      rw [if_pos hy, if_pos hcell, cost]
    · have hcell : ¬ (x = x ∧ y = b) := fun h => hy h.2
      rw [if_neg hy, if_neg hcell, cost]
  · rw [AList.lookup_insert_ne hx, if_neg fun h => hx h.1, cost]

theorem mem_addOrMerge {adj : Adjacency} {a b v : String} {d : ℚ} : v ∈ addOrMerge adj a b d ↔ v = a ∨ v ∈ adj := by
  rw [addOrMerge, AList.mem_insert]

theorem leastOf_addEdge (key : String → String) {adj : Adjacency} {e : BridgeEdge} {a b : String} {s : Set ℚ}
    (h : LeastOf s (cost adj a b)) :
    LeastOf {d | d ∈ s ∨ e.Joins key a b ∧ d = 1 / e.weight} (cost (addEdge key adj e) a b) := by
  by_cases hjoins : e.Joins key a b
  · have hset : {d | d ∈ s ∨ e.Joins key a b ∧ d = 1 / e.weight} = insert (1 / e.weight) s := by
      ext d
      simp [hjoins, or_comm]
    have hinsert := h.insert (1 / e.weight)
    obtain ⟨ha, hb, hab, hweight, hends⟩ := hjoins
    have hkeep : ¬ (key e.a = "" ∨ key e.b = "" ∨ key e.a = key e.b) := by
      rcases hends with ⟨rfl, rfl⟩ | ⟨rfl, rfl⟩
      · tauto
      · rintro (h | h | h)
        · exact hb h
        · exact ha h
        · exact hab h.symm
    rw [hset, addEdge, if_neg hkeep, if_neg (not_lt.mpr hweight), cost_addOrMerge, cost_addOrMerge, cost_addOrMerge]
    rcases hends with ⟨rfl, rfl⟩ | ⟨rfl, rfl⟩
    · have hother : ¬ (key e.a = key e.b ∧ key e.b = key e.a) := fun h => hab h.1
      simpa [hother] using hinsert
    · have hother : ¬ (key e.b = key e.a ∧ key e.a = key e.b) := fun h => hab h.1
      simpa [hother] using hinsert
  · have hset : {d | d ∈ s ∨ e.Joins key a b ∧ d = 1 / e.weight} = s := by
      ext d
      simp [hjoins]
    rw [hset, addEdge]
    split
    · exact h
    · next hkeep =>
        split
        · exact h
        · next hweight =>
            simp only [not_or] at hkeep
            obtain ⟨ha, hb, hab⟩ := hkeep
            rw [cost_addOrMerge, if_neg, cost_addOrMerge, if_neg]
            · exact h
            · rintro ⟨rfl, rfl⟩
              exact hjoins ⟨ha, hb, hab, not_lt.mp hweight, .inl ⟨rfl, rfl⟩⟩
            · rintro ⟨rfl, rfl⟩
              exact hjoins ⟨hb, ha, fun h => hab h.symm, not_lt.mp hweight, .inr ⟨rfl, rfl⟩⟩

theorem mem_addEdge (key : String → String) {adj : Adjacency} {e : BridgeEdge} {v : String} :
    v ∈ addEdge key adj e ↔ v ∈ adj ∨ ∃ b, e.Joins key v b := by
  rw [addEdge]
  split
  · next hskip =>
      constructor
      · exact .inl
      · rintro (h | ⟨b, hv, hb, hne, _, ⟨rfl, rfl⟩ | ⟨rfl, rfl⟩⟩)
        · exact h
        · exact absurd hskip (by tauto)
        · exact absurd hskip (by rintro (h | h | h) <;> [exact hb h; exact hv h; exact hne h.symm])
  · next hkeep =>
      simp only [not_or] at hkeep
      obtain ⟨ha, hb, hab⟩ := hkeep
      split
      · next hweight =>
          constructor
          · exact .inl
          · rintro (h | ⟨b, _, _, _, hle, _⟩)
            · exact h
            · exact absurd hle (not_le.mpr hweight)
      · next hweight =>
          rw [mem_addOrMerge, mem_addOrMerge]
          constructor
          · rintro (rfl | rfl | h)
            · exact .inr ⟨key e.a, hb, ha, fun h => hab h.symm, not_lt.mp hweight, .inr ⟨rfl, rfl⟩⟩
            · exact .inr ⟨key e.b, ha, hb, hab, not_lt.mp hweight, .inl ⟨rfl, rfl⟩⟩
            · exact .inl h
          · rintro (h | ⟨b, _, _, _, _, ⟨rfl, _⟩ | ⟨_, rfl⟩⟩)
            · exact .inr (.inr h)
            · exact .inr (.inl rfl)
            · exact .inl rfl

theorem weightedDistanceAdjacency_least (key : String → String) (edges : List BridgeEdge) (a b : String) :
    LeastOf (costs key edges a b) (cost (weightedDistanceAdjacency key edges) a b) := by
  induction edges using List.reverseRecOn with
  | nil =>
      apply Set.eq_empty_of_forall_notMem
      rintro d ⟨e, he, _⟩
      cases he
  | append_singleton edges e ih =>
      have hset : costs key (edges ++ [e]) a b =
          {d | d ∈ costs key edges a b ∨ e.Joins key a b ∧ d = 1 / e.weight} := by
        ext d
        simp only [costs, List.mem_append, List.mem_singleton, Set.mem_ofPred_eq]
        constructor
        · rintro ⟨f, hf | rfl, hjoins, rfl⟩
          · exact .inl ⟨f, hf, hjoins, rfl⟩
          · exact .inr ⟨hjoins, rfl⟩
        · rintro (⟨f, hf, hjoins, rfl⟩ | ⟨hjoins, rfl⟩)
          · exact ⟨f, .inl hf, hjoins, rfl⟩
          · exact ⟨e, .inr rfl, hjoins, rfl⟩
      rw [hset, weightedDistanceAdjacency, List.foldl_append]
      exact leastOf_addEdge key ih

theorem mem_weightedDistanceAdjacency (key : String → String) (edges : List BridgeEdge) (v : String) :
    v ∈ weightedDistanceAdjacency key edges ↔ ∃ e ∈ edges, ∃ b, e.Joins key v b := by
  induction edges using List.reverseRecOn with
  | nil => simp [weightedDistanceAdjacency, AList.notMem_empty]
  | append_singleton edges e ih =>
      rw [weightedDistanceAdjacency, List.foldl_append, List.foldl_cons, List.foldl_nil, mem_addEdge,
        ← weightedDistanceAdjacency, ih]
      constructor
      · rintro (⟨f, hf, b, hjoins⟩ | ⟨b, hjoins⟩)
        · exact ⟨f, List.mem_append_left _ hf, b, hjoins⟩
        · exact ⟨e, by simp, b, hjoins⟩
      · rintro ⟨f, hf, b, hjoins⟩
        rcases List.mem_append.mp hf with hf | hf
        · exact .inl ⟨f, hf, b, hjoins⟩
        · exact .inr ⟨b, List.mem_singleton.mp hf ▸ hjoins⟩

section

variable {key : String → String} {edges edges' : List BridgeEdge} {a b : String}

theorem BridgeEdge.joins_comm {e : BridgeEdge} : e.Joins key a b ↔ e.Joins key b a := by
  simp only [BridgeEdge.Joins]
  tauto

theorem cost_comm :
    cost (weightedDistanceAdjacency key edges) a b = cost (weightedDistanceAdjacency key edges) b a := by
  have hsets : costs key edges a b = costs key edges b a := by
    ext d
    simp only [costs, BridgeEdge.joins_comm (a := a)]
  exact (weightedDistanceAdjacency_least key edges a b).eq (hsets ▸ weightedDistanceAdjacency_least key edges b a)

theorem cost_self : cost (weightedDistanceAdjacency key edges) a a = none := by
  have hempty : costs key edges a a = ∅ := by
    apply Set.eq_empty_of_forall_notMem
    rintro d ⟨e, _, ⟨_, _, hne, _⟩, _⟩
    exact hne rfl
  exact (weightedDistanceAdjacency_least key edges a a).eq (p := none) hempty

theorem cost_perm (h : edges'.Perm edges) :
    cost (weightedDistanceAdjacency key edges') a b = cost (weightedDistanceAdjacency key edges) a b := by
  have hsets : costs key edges a b = costs key edges' a b := by
    ext d
    simp only [costs, h.mem_iff]
  exact (weightedDistanceAdjacency_least key edges' a b).eq (hsets ▸ weightedDistanceAdjacency_least key edges a b)

theorem mem_perm (h : edges'.Perm edges) (v : String) :
    v ∈ weightedDistanceAdjacency key edges' ↔ v ∈ weightedDistanceAdjacency key edges := by
  rw [mem_weightedDistanceAdjacency, mem_weightedDistanceAdjacency]
  simp only [h.mem_iff]

theorem mem_edgesOf {adj : Adjacency} {v u : String} {d : ℚ} : (u, d) ∈ edgesOf adj v ↔ cost adj v u = some d := by
  rw [edgesOf, cost, List.mem_map, ← Option.mem_def, AList.mem_lookup_iff]
  constructor
  · rintro ⟨e, he, heq⟩
    cases heq
    exact he
  · intro he
    exact ⟨_, he, rfl⟩

theorem cost_pos {d : ℚ} (h : cost (weightedDistanceAdjacency key edges) a b = some d) : 0 < d := by
  obtain ⟨e, _, ⟨_, _, _, hweight, _⟩, rfl⟩ := ((weightedDistanceAdjacency_least key edges a b).iff d).mp h |>.1
  have hpos : (0 : ℚ) < bridgeMinWeightEpsilon := by norm_num [bridgeMinWeightEpsilon]
  exact one_div_pos.mpr (hpos.trans_le hweight)

theorem mem_of_cost {d : ℚ} (h : cost (weightedDistanceAdjacency key edges) a b = some d) :
    b ∈ weightedDistanceAdjacency key edges := by
  obtain ⟨e, he, hjoins, _⟩ := ((weightedDistanceAdjacency_least key edges a b).iff d).mp h |>.1
  exact (mem_weightedDistanceAdjacency key edges b).mpr ⟨e, he, a, BridgeEdge.joins_comm.mp hjoins⟩

theorem exists_cost (h : a ∈ weightedDistanceAdjacency key edges) :
    ∃ b d, cost (weightedDistanceAdjacency key edges) a b = some d := by
  obtain ⟨e, he, b, hjoins⟩ := (mem_weightedDistanceAdjacency key edges a).mp h
  refine ⟨b, ?_⟩
  have hleast := weightedDistanceAdjacency_least key edges a b
  cases hcost : cost (weightedDistanceAdjacency key edges) a b with
  | none =>
      rw [hcost] at hleast
      have hmem : 1 / e.weight ∈ costs key edges a b := ⟨e, he, hjoins, rfl⟩
      rw [show costs key edges a b = ∅ from hleast] at hmem
      cases hmem
  | some d => exact ⟨d, rfl⟩

end

/-- The paths of a graph, with their costs. -/
abbrev Path (adj : Adjacency) (s t : String) (c : ℚ) : Prop := Walk (edgesOf adj) s t c

theorem dijkstraFrom_least (o : RangeOrder) (heap : MinHeap (A := String × ℚ) Prod.snd) (key : String → String)
    (edges : List BridgeEdge) (s t : String) :
    LeastOf {c | Path (weightedDistanceAdjacency key edges) s t c}
      (dijkstraFrom o heap (weightedDistanceAdjacency key edges) s t) := by
  have hperm : ∀ v, (o.order ["dijkstraFrom", s, v] (edgesOf (weightedDistanceAdjacency key edges) v)).Perm
      (edgesOf (weightedDistanceAdjacency key edges) v) := fun v => o.perm _ _
  have hnodes : ∀ v, o.order ["dijkstraFrom", s, v] (edgesOf (weightedDistanceAdjacency key edges) v) ≠ [] →
      v ∈ (weightedDistanceAdjacency key edges).keys.toFinset := by
    intro v hne
    rw [List.mem_toFinset, ← AList.mem_keys]
    by_contra hmem
    apply hne
    have hempty : edgesOf (weightedDistanceAdjacency key edges) v = [] := by
      rw [edgesOf, AList.lookup_eq_none.mpr hmem]
      rfl
    rw [← List.length_eq_zero_iff, (hperm v).length_eq, hempty, List.length_nil]
  have hcost : ∀ v, ∀ e ∈ o.order ["dijkstraFrom", s, v] (edgesOf (weightedDistanceAdjacency key edges) v),
      0 ≤ e.2 := by
    rintro v ⟨u, d⟩ he
    exact le_of_lt (cost_pos (mem_edgesOf.mp ((hperm v).mem_iff.mp he)))
  obtain ⟨hsome, hnone⟩ := distances_isLeast heap s hnodes hcost t
  have hwalk : ∀ c, Walk (fun v => o.order ["dijkstraFrom", s, v] (edgesOf (weightedDistanceAdjacency key edges) v))
      s t c ↔ Path (weightedDistanceAdjacency key edges) s t c := fun c => walk_congr hperm
  simp only [hwalk] at hsome hnone
  rw [dijkstraFrom]
  cases hdist : distances heap
      (fun v => o.order ["dijkstraFrom", s, v] (edgesOf (weightedDistanceAdjacency key edges) v)) s
      (weightedDistanceAdjacency key edges).keys.toFinset t with
  | none => exact Set.eq_empty_of_forall_notMem (hnone.mp hdist)
  | some d => exact (hsome d).mp hdist

def maxOf (vals : List ℚ) : ℚ := vals.foldl (fun m v => if m < v then v else m) 0

def normalized (o : RangeOrder) (place : String) (nodes : List String) (score : String → ℚ) (v : String) : ℚ :=
  if 0 < maxOf ((o.order [place] nodes).map score) then score v / maxOf ((o.order [place] nodes).map score)
  else score v

theorem maxOf_spec (vals : List ℚ) : IsGreatest {m | m = 0 ∨ m ∈ vals} (maxOf vals) := by
  induction vals using List.reverseRecOn with
  | nil =>
      refine ⟨.inl rfl, ?_⟩
      rintro m (rfl | hm)
      · exact le_refl _
      · cases hm
  | append_singleton vals v ih =>
      rw [maxOf, List.foldl_append, List.foldl_cons, List.foldl_nil, ← maxOf]
      by_cases hless : maxOf vals < v
      · rw [if_pos hless]
        refine ⟨.inr (by simp), ?_⟩
        rintro m (rfl | hm)
        · exact (ih.2 (.inl rfl)).trans (le_of_lt hless)
        · rcases List.mem_append.mp hm with hm | hm
          · exact (ih.2 (.inr hm)).trans (le_of_lt hless)
          · exact le_of_eq (List.mem_singleton.mp hm)
      · rw [if_neg hless]
        refine ⟨ih.1.imp id (List.mem_append_left _), ?_⟩
        rintro m (rfl | hm)
        · exact ih.2 (.inl rfl)
        · rcases List.mem_append.mp hm with hm | hm
          · exact ih.2 (.inr hm)
          · rw [List.mem_singleton.mp hm]
            exact not_lt.mp hless

theorem maxOf_mem {vals : List ℚ} (h : ∀ v ∈ vals, 0 ≤ v) {v : ℚ} (hv : v ∈ vals) : maxOf vals ∈ vals := by
  obtain ⟨hzero | hmem, hle⟩ := maxOf_spec vals
  · have heq : v = maxOf vals := le_antisymm (hle (.inr hv)) (hzero ▸ h v hv)
    exact heq ▸ hv
  · exact hmem

theorem maxOf_congr {vals vals' : List ℚ} (h : ∀ v, v ∈ vals ↔ v ∈ vals') : maxOf vals = maxOf vals' := by
  have hsets : {m | m = 0 ∨ m ∈ vals} = {m | m = 0 ∨ m ∈ vals'} := by
    ext m
    simp [h]
  exact (maxOf_spec vals).unique (hsets ▸ maxOf_spec vals')

theorem normalized_spec (o : RangeOrder) (place : String) {nodes : List String} {score value : String → ℚ}
    (hscore : ∀ u ∈ nodes, score u = value u) (hnonneg : ∀ u ∈ nodes, 0 ≤ value u) {v : String} (hv : v ∈ nodes) :
    ∃ m, IsGreatest {x | ∃ u ∈ nodes, x = value u} m ∧ 0 ≤ m ∧
      normalized o place nodes score v = if m = 0 then 0 else value v / m := by
  have hmem : ∀ x, x ∈ (o.order [place] nodes).map score ↔ ∃ u ∈ nodes, x = value u := by
    intro x
    rw [List.mem_map]
    constructor
    · rintro ⟨u, hu, rfl⟩
      have hu' := (o.perm _ _).mem_iff.mp hu
      exact ⟨u, hu', hscore u hu'⟩
    · rintro ⟨u, hu, rfl⟩
      exact ⟨u, (o.perm _ _).mem_iff.mpr hu, hscore u hu⟩
  have hmax := maxOf_spec ((o.order [place] nodes).map score)
  have hattained : maxOf ((o.order [place] nodes).map score) ∈ (o.order [place] nodes).map score := by
    refine maxOf_mem (fun x hx => ?_) ((hmem _).mpr ⟨v, hv, rfl⟩)
    obtain ⟨u, hu, rfl⟩ := (hmem x).mp hx
    exact hnonneg u hu
  generalize hm : maxOf ((o.order [place] nodes).map score) = m at hmax hattained
  have hle : ∀ u ∈ nodes, value u ≤ m := fun u hu => hmax.2 (.inr ((hmem _).mpr ⟨u, hu, rfl⟩))
  have hzero : 0 ≤ m := hmax.2 (.inl rfl)
  refine ⟨m, ⟨(hmem m).mp hattained, ?_⟩, hzero, ?_⟩
  · rintro x ⟨u, hu, rfl⟩
    exact hle u hu
  · rw [normalized, hm, hscore v hv]
    by_cases hnone : m = 0
    · rw [if_neg (not_lt.mpr (le_of_eq hnone)), if_pos hnone]
      exact le_antisymm (hnone ▸ hle v hv) (hnonneg v hv)
    · rw [if_pos (lt_of_le_of_ne hzero (Ne.symm hnone)), if_neg hnone]

theorem normalized_congr (o o' : RangeOrder) (place place' : String) {nodes nodes' : List String}
    {score score' : String → ℚ} (hnodes : ∀ v, v ∈ nodes ↔ v ∈ nodes') (hscore : ∀ v ∈ nodes, score v = score' v)
    {v : String} (hv : v ∈ nodes) : normalized o place nodes score v = normalized o' place' nodes' score' v := by
  have hmax : maxOf ((o.order [place] nodes).map score) = maxOf ((o'.order [place'] nodes').map score') := by
    apply maxOf_congr
    intro x
    rw [List.mem_map, List.mem_map]
    constructor
    · rintro ⟨u, hu, rfl⟩
      have hu' := (o.perm _ _).mem_iff.mp hu
      exact ⟨u, (o'.perm _ _).mem_iff.mpr ((hnodes u).mp hu'), (hscore u hu').symm⟩
    · rintro ⟨u, hu, rfl⟩
      have hu' := (hnodes u).mpr ((o'.perm _ _).mem_iff.mp hu)
      exact ⟨u, (o.perm _ _).mem_iff.mpr hu', hscore u hu'⟩
  rw [normalized, normalized, hmax, hscore v hv]

end MeshcoreAnalyzer.GraphWeighted

import MeshcoreAnalyzer.GraphWeighted
import MeshcoreAnalyzer.HopTiers
import MeshcoreAnalyzer.LowPoints
import Mathlib.Tactic.Ring

namespace MeshcoreAnalyzer.Redundancy

open GraphWeighted LowPoints

/-! `ComputeRedundancyScores` of cmd/server/redundancy_score.go; `key` is `strings.ToLower(strings.TrimSpace(s))`. -/

def affinitySaturationCount : Nat := 100

def redundancyMinWeight : ℚ := 1 / affinitySaturationCount / HopTiers.affinityObserverSaturation

abbrev Adjacency := Table (Table Unit)

def addNode (adj : Adjacency) (a : String) : Adjacency := if a ∈ adj then adj else adj.insert a ∅

/-- `adj[a][b] = struct{}{}` -/
def link (adj : Adjacency) (a b : String) : Adjacency := adj.insert a (((adj.lookup a).getD ∅).insert b ())

def addEdge (key : String → String) (adj : Adjacency) (e : BridgeEdge) : Adjacency :=
  if key e.a = "" ∨ key e.b = "" ∨ key e.a = key e.b then adj
  else if e.weight < redundancyMinWeight then adj
  else link (link (addNode (addNode adj (key e.a)) (key e.b)) (key e.a) (key e.b)) (key e.b) (key e.a)

def adjacency (key : String → String) (edges : List BridgeEdge) : Adjacency := edges.foldl (addEdge key) ∅

def neighbours (adj : Adjacency) (u : String) : List String := ((adj.lookup u).getD ∅).keys

structure Comp where
  nodes : List String
  total : Nat

def start : Search String := ⟨0, fun _ => 0, fun _ => 0, fun _ => 0, fun _ => [], []⟩

/-- The turn of a node; no node is visited twice, and a path of the recursion is no longer than the map. -/
def searchFrom (o : RangeOrder) (adj : Adjacency) (st : List Comp × Search String) (r : String) :
    List Comp × Search String :=
  if st.2.disc r ≠ 0 then st
  else
    let s := dfs (fun u => o.order ["dfs", u] (neighbours adj u)) adj.keys.length r "" { st.2 with acc := [] }
    (st.1 ++ [⟨s.acc, s.size r⟩], s)

def components (o : RangeOrder) (adj : Adjacency) : List Comp × Search String :=
  (o.order ["nodes"] adj.keys).foldl (searchFrom o adj) ([], start)

def disconnectedPairs (total : Nat) (sep : List Nat) : ℚ :=
  let s : ℚ := total - 1
  let sums : Int × ℚ := sep.foldl (fun (sums : Int × ℚ) (ps : Nat) => (sums.1 + ps, sums.2 + ps * ps)) (0, 0)
  let rest : Int := total - 1 - sums.1
  let sumSq := if 0 < rest then sums.2 + rest * rest else sums.2
  let dp := (s * s - sumSq) / 2
  if dp < 0 then 0 else dp

/-- The map `disconnected`, with `maxDP`. -/
def record (dp : ℚ) (st : (String → Option ℚ) × ℚ) (u : String) : (String → Option ℚ) × ℚ :=
  (Function.update st.1 u (some dp), if st.2 < dp then dp else st.2)

def recordAll (sep : String → List Nat) (st : (String → Option ℚ) × ℚ) (c : Comp) : (String → Option ℚ) × ℚ :=
  c.nodes.foldl (fun st u => record (disconnectedPairs c.total (sep u)) st u) st

def computeRedundancyScores (o : RangeOrder) (key : String → String) (edges : List BridgeEdge) : String → Option ℚ :=
  let found := components o (adjacency key edges)
  let disconnected := found.1.foldl (recordAll found.2.sep) (fun _ => none, 0)
  if 0 < disconnected.2 then fun v => (disconnected.1 v).map fun dp => dp / disconnected.2 else disconnected.1

def Counts (key : String → String) (e : BridgeEdge) (a b : String) : Prop :=
  a ≠ "" ∧ b ≠ "" ∧ a ≠ b ∧ redundancyMinWeight ≤ e.weight ∧
    (key e.a = a ∧ key e.b = b ∨ key e.a = b ∧ key e.b = a)

def graph (key : String → String) (edges : List BridgeEdge) : SimpleGraph String where
  Adj a b := ∃ e ∈ edges, Counts key e a b
  symm := ⟨by
    rintro a b ⟨e, he, ha, hb, hne, hweight, hends⟩
    exact ⟨e, he, hb, ha, hne.symm, hweight, hends.symm⟩⟩
  loopless := ⟨by
    rintro a ⟨e, _, _, _, hne, _⟩
    exact hne rfl⟩

section

variable {key : String → String} {edges : List BridgeEdge} {adj : Adjacency}

theorem mem_neighbours {u w : String} : w ∈ neighbours adj u ↔ w ∈ (adj.lookup u).getD ∅ := AList.mem_keys.symm

theorem neighbours_addNode (a u w : String) : w ∈ neighbours (addNode adj a) u ↔ w ∈ neighbours adj u := by
  rw [addNode]
  split
  · rfl
  · next hnew =>
      by_cases hu : u = a
      · subst hu
        rw [mem_neighbours, mem_neighbours, AList.lookup_insert, AList.lookup_eq_none.mpr hnew]
        rfl
      · rw [mem_neighbours, mem_neighbours, AList.lookup_insert_ne hu]

theorem neighbours_link (a b u w : String) :
    w ∈ neighbours (link adj a b) u ↔ w ∈ neighbours adj u ∨ u = a ∧ w = b := by
  rw [link, mem_neighbours, mem_neighbours]
  by_cases hu : u = a
  · subst hu
    rw [AList.lookup_insert, Option.getD_some, AList.mem_insert]
    tauto
  · rw [AList.lookup_insert_ne hu]
    tauto

theorem mem_addNode {a v : String} : v ∈ addNode adj a ↔ v = a ∨ v ∈ adj := by
  rw [addNode]
  split
  · next hold =>
      constructor
      · exact .inr
      · rintro (rfl | h)
        · exact hold
        · exact h
  · rw [AList.mem_insert]

theorem neighbours_addEdge (e : BridgeEdge) (u w : String) :
    w ∈ neighbours (addEdge key adj e) u ↔ w ∈ neighbours adj u ∨ Counts key e u w := by
  rw [addEdge]
  split
  · next hskip =>
      constructor
      · exact .inl
      · rintro (h | ⟨hu, hw, hne, _, ⟨rfl, rfl⟩ | ⟨rfl, rfl⟩⟩)
        · exact h
        · exact absurd hskip (by tauto)
        · exact absurd hskip (by rintro (h | h | h) <;> [exact hw h; exact hu h; exact hne h.symm])
  · next hkeep =>
      simp only [not_or] at hkeep
      obtain ⟨ha, hb, hab⟩ := hkeep
      split
      · next hweight =>
          constructor
          · exact .inl
          · rintro (h | ⟨_, _, _, hle, _⟩)
            · exact h
            · exact absurd hle (not_le.mpr hweight)
      · next hweight =>
          rw [neighbours_link, neighbours_link, neighbours_addNode, neighbours_addNode]
          constructor
          · rintro ((h | ⟨rfl, rfl⟩) | ⟨rfl, rfl⟩)
            · exact .inl h
            · exact .inr ⟨ha, hb, hab, not_lt.mp hweight, .inl ⟨rfl, rfl⟩⟩
            · exact .inr ⟨hb, ha, fun h => hab h.symm, not_lt.mp hweight, .inr ⟨rfl, rfl⟩⟩
          · rintro (h | ⟨_, _, _, _, ⟨rfl, rfl⟩ | ⟨rfl, rfl⟩⟩)
            · exact .inl (.inl h)
            · exact .inl (.inr ⟨rfl, rfl⟩)
            · exact .inr ⟨rfl, rfl⟩

theorem mem_addEdge (e : BridgeEdge) (v : String) : v ∈ addEdge key adj e ↔ v ∈ adj ∨ ∃ b, Counts key e v b := by
  rw [addEdge]
  split
  · next hskip =>
      constructor
      · exact .inl
      · rintro (h | ⟨b, hv, hb, hne, _, ⟨rfl, rfl⟩ | ⟨rfl, rfl⟩⟩)
        · exact h
        · exact absurd hskip (by tauto)
        · exact absurd hskip (by rintro (h | h | h) <;> [exact hb h; exact hv h; exact hne h.symm])
  · next hkeep =>
      simp only [not_or] at hkeep
      obtain ⟨ha, hb, hab⟩ := hkeep
      split
      · next hweight =>
          constructor
          · exact .inl
          · rintro (h | ⟨b, _, _, _, hle, _⟩)
            · exact h
            · exact absurd hle (not_le.mpr hweight)
      · next hweight =>
          rw [link, AList.mem_insert, link, AList.mem_insert, mem_addNode, mem_addNode]
          constructor
          · rintro (rfl | rfl | rfl | rfl | h)
            · exact .inr ⟨key e.a, hb, ha, fun h => hab h.symm, not_lt.mp hweight, .inr ⟨rfl, rfl⟩⟩
            · exact .inr ⟨key e.b, ha, hb, hab, not_lt.mp hweight, .inl ⟨rfl, rfl⟩⟩
            · exact .inr ⟨key e.a, hb, ha, fun h => hab h.symm, not_lt.mp hweight, .inr ⟨rfl, rfl⟩⟩
            · exact .inr ⟨key e.b, ha, hb, hab, not_lt.mp hweight, .inl ⟨rfl, rfl⟩⟩
            · exact .inl h
          · rintro (h | ⟨b, _, _, _, _, ⟨rfl, _⟩ | ⟨_, rfl⟩⟩)
            · exact .inr (.inr (.inr (.inr h)))
            · exact .inr (.inl rfl)
            · exact .inl rfl

theorem mem_adjacency (v : String) : v ∈ adjacency key edges ↔ ∃ w, (graph key edges).Adj v w := by
  induction edges using List.reverseRecOn with
  | nil => simp [adjacency, graph, AList.notMem_empty]
  | append_singleton edges e ih =>
      rw [adjacency, List.foldl_append, List.foldl_cons, List.foldl_nil, mem_addEdge, ← adjacency, ih]
      simp only [graph, List.mem_append, List.mem_singleton]
      constructor
      · rintro (⟨b, f, hf, hcounts⟩ | ⟨b, hcounts⟩)
        · exact ⟨b, f, .inl hf, hcounts⟩
        · exact ⟨b, e, .inr rfl, hcounts⟩
      · rintro ⟨b, f, hf | rfl, hcounts⟩
        · exact .inl ⟨b, f, hf, hcounts⟩
        · exact .inr ⟨b, hcounts⟩

theorem neighbours_adjacency (u w : String) : w ∈ neighbours (adjacency key edges) u ↔ (graph key edges).Adj u w := by
  induction edges using List.reverseRecOn with
  | nil => simp [adjacency, neighbours, graph]
  | append_singleton edges e ih =>
      rw [adjacency, List.foldl_append, List.foldl_cons, List.foldl_nil, neighbours_addEdge, ← adjacency, ih]
      simp only [graph, List.mem_append, List.mem_singleton]
      constructor
      · rintro (⟨f, hf, hcounts⟩ | hcounts)
        · exact ⟨f, .inl hf, hcounts⟩
        · exact ⟨e, .inr rfl, hcounts⟩
      · rintro ⟨f, hf | rfl, hcounts⟩
        · exact .inl ⟨f, hf, hcounts⟩
        · exact .inr hcounts

end

/-- What holds of the components that have been found. -/
structure Found (G : SimpleGraph String) (adj : Adjacency) (comps : List Comp) (s : Search String) : Prop where
  ready : Ready G ∅ s
  component : ∀ c ∈ comps, Component G c.nodes s.sep ∧ c.total = c.nodes.length
  nodes : ∀ x, (∃ c ∈ comps, x ∈ c.nodes) ↔ s.disc x ≠ 0
  subset : ∀ x, s.disc x ≠ 0 → x ∈ adj

section

variable {key : String → String} {edges : List BridgeEdge} (o : RangeOrder)

theorem found_start : Found (graph key edges) (adjacency key edges) [] start where
  ready := ⟨fun _ => le_refl 0, fun _ ha => ha.elim, fun _ hx => absurd rfl hx, fun _ _ => rfl⟩
  component := fun c hc => absurd hc List.not_mem_nil
  nodes := fun x => by simp [start]
  subset := fun x hx => absurd rfl hx

theorem mem_of_reachable {r x : String} (hr : r ∈ adjacency key edges) (h : (graph key edges).Reachable r x) :
    x ∈ adjacency key edges := by
  rw [SimpleGraph.reachable_iff_reflTransGen] at h
  induction h with
  | refl => exact hr
  | tail _ hadj _ => exact (mem_adjacency _).mpr ⟨_, hadj.symm⟩

theorem found_searchFrom {st : List Comp × Search String} {r : String} (hr : r ∈ adjacency key edges)
    (h : Found (graph key edges) (adjacency key edges) st.1 st.2) :
    Found (graph key edges) (adjacency key edges) (searchFrom o (adjacency key edges) st r).1
      (searchFrom o (adjacency key edges) st r).2 ∧ (searchFrom o (adjacency key edges) st r).2.disc r ≠ 0 ∧
      ∀ x, st.2.disc x ≠ 0 → (searchFrom o (adjacency key edges) st r).2.disc x ≠ 0 := by
  rw [searchFrom]
  split
  · next hold => exact ⟨h, hold, fun x hx => hx⟩
  · next hnew =>
      rw [not_not] at hnew
      have hnbrs : ∀ u v, v ∈ o.order ["dfs", u] (neighbours (adjacency key edges) u) ↔ (graph key edges).Adj u v := by
        intro u v
        rw [(o.perm _ _).mem_iff, neighbours_adjacency]
      have hnodes : ∀ u v, (graph key edges).Adj u v → v ∈ (adjacency key edges).keys.toFinset := by
        intro u v hadj
        rw [List.mem_toFinset, ← AList.mem_keys, mem_adjacency]
        exact ⟨u, hadj.symm⟩
      have hready : Ready (graph key edges) ∅ { st.2 with acc := [] } :=
        ⟨h.ready.bound, h.ready.gray, h.ready.black, h.ready.unseen⟩
      have hparent : (graph key edges).Adj r "" → "" ∈ (∅ : Set String) := by
        rintro ⟨e, _, _, hempty, _⟩
        exact absurd rfl hempty
      have hfuel : ((adjacency key edges).keys.toFinset.filter fun x => st.2.disc x = 0).card ≤
          (adjacency key edges).keys.length :=
        (Finset.card_filter_le _ _).trans (List.toFinset_card_le _)
      obtain ⟨T, hT⟩ := dfs_visited hnbrs hnodes (adjacency key edges).keys.length hready
        (fun w _ a ha => ha.elim) (.inl rfl) hparent hnew (List.mem_toFinset.mpr (AList.mem_keys.mp hr)) hfuel
      dsimp only
      generalize dfs (fun u => o.order ["dfs", u] (neighbours (adjacency key edges) u))
        (adjacency key edges).keys.length r "" { st.2 with acc := [] } = s at hT ⊢
      have hacc : s.acc = T := hT.acc
      have hkeep : ∀ x, st.2.disc x ≠ 0 → s.disc x ≠ 0 := by
        intro x hx
        rwa [hT.disc x (hT.notMem hx)]
      refine ⟨⟨hT.finish hready, fun c hc => ?_, fun x => ?_, fun x hx => ?_⟩, hT.disc_pos hT.head, hkeep⟩
      · rcases List.mem_append.mp hc with hc | hc
        · obtain ⟨hcomponent, htotal⟩ := h.component c hc
          refine ⟨hcomponent.congr fun x hx => ?_, htotal⟩
          exact hT.sep x (hT.notMem ((h.nodes x).mp ⟨c, hc, hx⟩))
        · rw [List.mem_singleton.mp hc, hacc]
          exact ⟨hT.component, hT.size⟩
      · constructor
        · rintro ⟨c, hc, hx⟩
          rcases List.mem_append.mp hc with hc | hc
          · exact hkeep x ((h.nodes x).mp ⟨c, hc, hx⟩)
          · rw [List.mem_singleton.mp hc, hacc] at hx
            exact hT.disc_pos hx
        · intro hx
          by_cases hmem : x ∈ T
          · exact ⟨_, List.mem_append_right _ (List.mem_singleton_self _), hacc ▸ hmem⟩
          · rw [hT.disc x hmem] at hx
            obtain ⟨c, hc, hxc⟩ := (h.nodes x).mpr hx
            exact ⟨c, List.mem_append_left _ hc, hxc⟩
      · by_cases hmem : x ∈ T
        · exact mem_of_reachable hr (hT.reach x hmem)
        · rw [hT.disc x hmem] at hx
          exact h.subset x hx

variable (key edges) in
theorem found_components :
    Found (graph key edges) (adjacency key edges) (components o (adjacency key edges)).1
      (components o (adjacency key edges)).2 ∧
      ∀ r ∈ adjacency key edges, (components o (adjacency key edges)).2.disc r ≠ 0 := by
  have hrun : ∀ (rs : List String) (st : List Comp × Search String), (∀ r ∈ rs, r ∈ adjacency key edges) →
      Found (graph key edges) (adjacency key edges) st.1 st.2 →
      Found (graph key edges) (adjacency key edges) (rs.foldl (searchFrom o (adjacency key edges)) st).1
        (rs.foldl (searchFrom o (adjacency key edges)) st).2 ∧
      (∀ r ∈ rs, (rs.foldl (searchFrom o (adjacency key edges)) st).2.disc r ≠ 0) ∧
      ∀ x, st.2.disc x ≠ 0 → (rs.foldl (searchFrom o (adjacency key edges)) st).2.disc x ≠ 0 := by
    intro rs
    induction rs with
    | nil => exact fun st _ h => ⟨h, fun r hr => absurd hr List.not_mem_nil, fun x hx => hx⟩
    | cons r rs ih =>
        intro st hrs h
        obtain ⟨hone, hr, hkeep⟩ := found_searchFrom o (hrs r List.mem_cons_self) h
        obtain ⟨hrest, hall, hkeep'⟩ := ih _ (fun x hx => hrs x (List.mem_cons_of_mem r hx)) hone
        refine ⟨hrest, fun x hx => ?_, fun x hx => hkeep' x (hkeep x hx)⟩
        rcases List.mem_cons.mp hx with rfl | hx
        · exact hkeep' x hr
        · exact hall x hx
  have hkeys : ∀ r, r ∈ o.order ["nodes"] (adjacency key edges).keys ↔ r ∈ adjacency key edges := by
    intro r
    rw [(o.perm _ _).mem_iff, ← AList.mem_keys]
  obtain ⟨hfound, hall, _⟩ := hrun _ ([], start) (fun r hr => (hkeys r).mp hr) found_start
  exact ⟨hfound, fun r hr => hall r ((hkeys r).mpr hr)⟩

end

theorem foldl_sums (sep : List Nat) (x : Int) (y : ℚ) :
    sep.foldl (fun (sums : Int × ℚ) (ps : Nat) => (sums.1 + ps, sums.2 + ps * ps)) (x, y) =
      (x + (sep.sum : Nat), y + ((sep.map fun n => n * n).sum : Nat)) := by
  induction sep generalizing x y with
  | nil => simp
  | cons n sep ih =>
      rw [List.foldl_cons, ih, List.sum_cons, List.map_cons, List.sum_cons]
      push_cast
      rw [add_assoc, add_assoc]

theorem disconnectedPairs_eq {total n : Nat} {sep : List Nat} (htotal : 0 < total) (hle : sep.sum ≤ total - 1)
    (h : 2 * n + (sep.map fun n => n * n).sum + (total - 1 - sep.sum) * (total - 1 - sep.sum) =
      (total - 1) * (total - 1)) : disconnectedPairs total sep = n := by
  obtain ⟨rest, hrest⟩ := Nat.le.dest hle
  have hleft : total - 1 - sep.sum = rest := by omega
  rw [hleft, ← hrest] at h
  rw [disconnectedPairs, foldl_sums]
  generalize sep.sum = cut at *
  generalize (sep.map fun n => n * n).sum = squares at *
  have hq : (2 * n + squares + rest * rest : ℚ) = (cut + rest) * (cut + rest) := by exact_mod_cast h
  have hrestInt : (total : Int) - 1 - (0 + cut) = rest := by omega
  have hs : (total : ℚ) - 1 = cut + rest := by
    have htotal' : total = cut + rest + 1 := by omega
    rw [htotal']
    push_cast
    ring
  have hsumSq : (if (0 : Int) < rest then (0 + squares : ℚ) + ((rest : Int) : ℚ) * ((rest : Int) : ℚ)
      else 0 + squares) = squares + rest * rest := by
    by_cases hzero : rest = 0
    · simp [hzero]
    · rw [if_pos (by omega), zero_add, Int.cast_natCast]
  dsimp only
  rw [hrestInt, hs, hsumSq, ← hq]
  have hhalf : ((2 * n + squares + rest * rest - (squares + rest * rest)) / 2 : ℚ) = n := by ring
  rw [hhalf, if_neg (not_lt.mpr (Nat.cast_nonneg n))]

section

variable {st : (String → Option ℚ) × ℚ} {p : String → ℚ}

theorem foldl_record (us : List String) :
    us.foldl (fun st u => record (p u) st u) st =
      (fun v => if v ∈ us then some (p v) else st.1 v, (us.map p).foldl (fun m v => if m < v then v else m) st.2) := by
  induction us generalizing st with
  | nil => simp
  | cons u us ih =>
      rw [List.foldl_cons, ih]
      apply Prod.ext
      · funext v
        by_cases hv : v ∈ us
        · simp [hv]
        · by_cases hvu : v = u
          · subst hvu
            simp [hv, record]
          · simp [hv, hvu, record]
      · rfl

theorem foldl_recordAll {sep : String → List Nat} {comps : List Comp}
    (h : ∀ c ∈ comps, ∀ u ∈ c.nodes, disconnectedPairs c.total (sep u) = p u) :
    comps.foldl (recordAll sep) st = (comps.flatMap Comp.nodes).foldl (fun st u => record (p u) st u) st := by
  rw [List.foldl_flatMap]
  induction comps generalizing st with
  | nil => rfl
  | cons c comps ih =>
      have hone : recordAll sep st c = c.nodes.foldl (fun st u => record (p u) st u) st := by
        rw [recordAll]
        apply List.foldl_ext
        intro st u hu
        rw [h c List.mem_cons_self u hu]
      rw [List.foldl_cons, List.foldl_cons, hone, ih fun d hd => h d (List.mem_cons_of_mem c hd)]

end

section

variable {key : String → String} {edges edges' : List BridgeEdge}

theorem graph_perm (h : edges'.Perm edges) : graph key edges' = graph key edges := by
  ext a b
  simp only [graph, h.mem_iff]

variable (o : RangeOrder)

theorem finite_severed (v : String) : (severed (graph key edges) v).Finite := by
  by_cases hv : v ∈ adjacency key edges
  · apply ((adjacency key edges).keys.toFinset.sym2.finite_toSet).subset
    rintro e ⟨a, b, rfl, _, _, ha, hb, _⟩
    rw [Finset.mem_coe, Finset.mk_mem_sym2_iff, List.mem_toFinset, List.mem_toFinset, ← AList.mem_keys,
      ← AList.mem_keys]
    exact ⟨mem_of_reachable hv ha, mem_of_reachable hv hb⟩
  · apply Set.Finite.subset Set.finite_empty
    rintro e ⟨a, b, _, hav, _, ha, _⟩
    rw [SimpleGraph.reachable_iff_reflTransGen] at ha
    rcases Relation.ReflTransGen.cases_head ha with heq | ⟨w, hadj, _⟩
    · exact absurd heq.symm hav
    · exact absurd ((mem_adjacency v).mpr ⟨w, hadj⟩) hv

noncomputable def impact (key : String → String) (edges : List BridgeEdge) (v : String) : ℚ :=
  (severed (graph key edges) v).ncard

theorem disconnectedPairs_component {c : Comp} (hc : c ∈ (components o (adjacency key edges)).1) {u : String}
    (hu : u ∈ c.nodes) :
    disconnectedPairs c.total ((components o (adjacency key edges)).2.sep u) = impact key edges u := by
  obtain ⟨hcomponent, htotal⟩ := (found_components key edges o).1.component c hc
  obtain ⟨hle, hcount⟩ := hcomponent.two_mul_severed hu
  rw [← htotal] at hle hcount
  apply disconnectedPairs_eq _ hle hcount
  rw [htotal]
  exact List.length_pos_of_mem hu

variable (key edges) in
theorem computeRedundancyScores_eq : ∃ us : List String, (∀ v, v ∈ us ↔ v ∈ adjacency key edges) ∧
    computeRedundancyScores o key edges = fun v =>
      if v ∈ us then
        some (if maxOf (us.map (impact key edges)) = 0 then 0
          else impact key edges v / maxOf (us.map (impact key edges)))
      else none := by
  obtain ⟨hfound, hall⟩ := found_components key edges o
  refine ⟨(components o (adjacency key edges)).1.flatMap Comp.nodes, fun v => ?_, ?_⟩
  · rw [List.mem_flatMap, hfound.nodes]
    exact ⟨hfound.subset v, hall v⟩
  · generalize hus : (components o (adjacency key edges)).1.flatMap Comp.nodes = us
    have hmax := maxOf_spec (us.map (impact key edges))
    have hfold : (components o (adjacency key edges)).1.foldl (recordAll (components o (adjacency key edges)).2.sep)
        (fun _ => none, 0) =
        (fun v => if v ∈ us then some (impact key edges v) else none, maxOf (us.map (impact key edges))) := by
      rw [foldl_recordAll fun c hc u hu => disconnectedPairs_component o hc hu, hus, foldl_record]
      rfl
    funext v
    rw [computeRedundancyScores, hfold]
    dsimp only
    by_cases hpos : 0 < maxOf (us.map (impact key edges))
    · rw [if_pos hpos, if_neg (ne_of_gt hpos)]
      split <;> rfl
    · have hzero : maxOf (us.map (impact key edges)) = 0 := le_antisymm (not_lt.mp hpos) (hmax.2 (.inl rfl))
      rw [if_neg hpos, if_pos hzero]
      split
      · next hv =>
          have hle : impact key edges v ≤ 0 := by
            rw [← hzero]
            exact hmax.2 (.inr (List.mem_map_of_mem hv))
          rw [le_antisymm hle (Nat.cast_nonneg _)]
      · rfl

end

/-- The score of each node is what its removal disconnects, over the greatest of these numbers. -/
theorem redundancy_exact (o : RangeOrder) (key : String → String) (edges : List BridgeEdge) :
    let G := graph key edges
    (∀ v, (severed G v).Finite) ∧
    (∀ v, (∀ w, ¬ G.Adj v w) → computeRedundancyScores o key edges v = none) ∧
    (∀ v, (∃ w, G.Adj v w) → ∃ m, IsGreatest {n | ∃ u, (∃ w, G.Adj u w) ∧ n = (severed G u).ncard} m ∧
      computeRedundancyScores o key edges v = some (if m = 0 then 0 else ((severed G v).ncard : ℚ) / m)) ∧
    ∀ (o' : RangeOrder) (edges' : List BridgeEdge), edges'.Perm edges →
      computeRedundancyScores o' key edges' = computeRedundancyScores o key edges := by
  intro G
  obtain ⟨us, hus, hscores⟩ := computeRedundancyScores_eq key edges o
  have hnode : ∀ v, v ∈ us ↔ ∃ w, G.Adj v w := fun v => (hus v).trans (mem_adjacency v)
  refine ⟨finite_severed, fun v hv => ?_, fun v hv => ?_, fun o' edges' hperm => ?_⟩
  · have hout : v ∉ us := fun hmem => let ⟨w, hw⟩ := (hnode v).mp hmem; hv w hw
    rw [hscores]
    exact if_neg hout
  · have hmax := maxOf_spec (us.map (impact key edges))
    have hle : ∀ u ∈ us, impact key edges u ≤ maxOf (us.map (impact key edges)) := fun u hu =>
      hmax.2 (.inr (List.mem_map_of_mem hu))
    have hnonneg : ∀ x ∈ us.map (impact key edges), 0 ≤ x := by
      intro x hx
      obtain ⟨u, _, rfl⟩ := List.mem_map.mp hx
      exact Nat.cast_nonneg _
    obtain ⟨u, hu, heq⟩ := List.mem_map.mp (maxOf_mem hnonneg (List.mem_map_of_mem ((hnode v).mpr hv)))
    refine ⟨(severed G u).ncard, ⟨⟨u, (hnode u).mp hu, rfl⟩, ?_⟩, ?_⟩
    · rintro n ⟨w, hw, rfl⟩
      have hwle := hle w ((hnode w).mpr hw)
      rw [← heq, impact, impact] at hwle
      exact_mod_cast hwle
    · rw [hscores]
      dsimp only
      rw [if_pos ((hnode v).mpr hv), ← heq, impact]
      by_cases hzero : (severed G u).ncard = 0
      · rw [if_pos hzero, if_pos (by exact_mod_cast hzero)]
      · rw [if_neg hzero, if_neg (by exact_mod_cast hzero)]
        rfl
  · obtain ⟨us', hus', hscores'⟩ := computeRedundancyScores_eq key edges' o'
    have himpact : impact key edges' = impact key edges := by
      funext v
      rw [impact, impact, graph_perm hperm]
    have hsame : ∀ v, v ∈ us' ↔ v ∈ us := by
      intro v
      rw [hus', hnode, mem_adjacency, graph_perm hperm]
    have hmax : maxOf (us'.map (impact key edges)) = maxOf (us.map (impact key edges)) := by
      apply maxOf_congr
      intro x
      simp only [List.mem_map, hsame]
    rw [hscores, hscores', himpact, hmax]
    funext v
    simp only [hsame]

end MeshcoreAnalyzer.Redundancy

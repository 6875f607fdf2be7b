import MeshcoreAnalyzer.RxCoverage

namespace MeshcoreAnalyzer.RxCoverage

open Groups HexCells Orders

variable {F : Type} {resolve : Option NodeResolver} {g g' : List (CoverageRow F)}

section Whole

variable [LinearOrder F] {geo : Geometry F} {res : Int64} {rows rows' : List (CoverageRow F)} {cell key : String}
  {run run' : Run F} {p : String × CovAgg F} {f : CoverageFeature F}

def cells (geo : Geometry F) (res : Int64) (rows : List (CoverageRow F)) : List String :=
  (rows.map (cellOf geo res)).dedup

def cellRows (geo : Geometry F) (res : Int64) (rows : List (CoverageRow F)) (cell : String) : List (CoverageRow F) :=
  group (cellOf geo res) rows cell

def shown (geo : Geometry F) (run : Run F) (rows : List (CoverageRow F)) (res : Int64) (resolve : Option NodeResolver)
    (cell key : String) : List (String × String × Option F) :=
  ((aggregateCoverage geo run rows res resolve).features.filter fun f => f.cell = cell).flatMap fun f =>
    (f.nodes.filter fun n => keyOf resolve n = key).map fun n => (n.name, n.heardPrefix, n.snr)

structure Conservative (geo : Geometry F) (rows : List (CoverageRow F)) (res : Int64) (resolve : Option NodeResolver) :
    Prop where
  same : ∀ run run' rows', rows'.Perm rows →
    aggregateCoverage geo run' rows' res resolve = aggregateCoverage geo run rows res resolve
  counts : ∀ run, ((aggregateCoverage geo run rows res resolve).features.map CoverageFeature.count).sum = rows.length
  best : ∀ run, ∀ f ∈ (aggregateCoverage geo run rows res resolve).features,
    IsBest f.bestSNR (cellRows geo res rows f.cell)
  heard : ∀ run, ∀ f ∈ (aggregateCoverage geo run rows res resolve).features,
    (nodeKeys resolve (cellRows geo res rows f.cell)).length ≤ coverageCellNodeCap →
      (f.nodes.map CoverageNode.count).sum = (heard (cellRows geo res rows f.cell)).length
  own : ∀ run run' rows' cell key, (cells geo res rows').length ≤ coverageFeatureCap →
    (nodeKeys resolve (cellRows geo res rows cell)).length ≤ coverageCellNodeCap →
    (nodeKeys resolve (cellRows geo res rows' cell)).length ≤ coverageCellNodeCap →
    (∀ r, r ∈ nodeRows resolve (cellRows geo res rows cell) key ↔
      r ∈ nodeRows resolve (cellRows geo res rows' cell) key) →
      shown geo run rows res resolve cell key = shown geo run' rows' res resolve cell key

def ringOf (geo : Geometry F) (cell : String) : List (F × F) := (hexBoundary geo cell).getD []

theorem mem_byCell : p ∈ byCell geo rows res resolve ↔
    running newCell (CovAgg.add resolve) (cellRows geo res rows p.1) = some p.2 := mem_tallies

theorem gathers_of_mem (h : p ∈ byCell geo rows res resolve) : Gathers resolve (cellRows geo res rows p.1) p.2 :=
  gathers_running (mem_byCell.mp h)

theorem cellRows_ne_nil (h : p ∈ byCell geo rows res resolve) : cellRows geo res rows p.1 ≠ [] := by
  intro hnil
  have hrun := mem_byCell.mp h
  rw [hnil] at hrun
  cases hrun

theorem exists_mem_byCell (resolve : Option NodeResolver) (h : cellRows geo res rows cell ≠ []) :
    ∃ p ∈ byCell geo rows res resolve, p.1 = cell := by
  cases hrun : running newCell (CovAgg.add resolve) (cellRows geo res rows cell) with
  | none => exact absurd (running_eq_none.mp hrun) h
  | some a => exact ⟨(cell, a), mem_byCell.mpr hrun, rfl⟩

theorem hexBoundary_of_mem (h : p ∈ byCell geo rows res resolve) : hexBoundary geo p.1 = some (ringOf geo p.1) := by
  obtain ⟨r, hr⟩ := List.exists_mem_of_ne_nil _ (cellRows_ne_nil h)
  rw [ringOf, ← (mem_group.mp hr).2, cellOf, hexBoundary, parseHexCell_hexCellAt]
  rfl

theorem length_byCell : (byCell geo rows res resolve).length = (cells geo res rows).length := by
  rw [byCell, cells, ← (keys_tallies_perm rows).length_eq, List.length_map]

variable (hfew : (cells geo res rows).length ≤ coverageFeatureCap)

include hfew

theorem aggregateCoverage_eq : aggregateCoverage geo run rows res resolve =
    { features := run.sortCells.sort ((run.range.order (byCell geo rows res resolve)).map fun p =>
        feature run p (ringOf geo p.1))
      truncated := false } := by
  have hraw : ((run.range.order (byCell geo rows res resolve)).filterMap fun p =>
      (hexBoundary geo p.1).map (feature run p)) =
        (run.range.order (byCell geo rows res resolve)).map fun p => feature run p (ringOf geo p.1) := by
    rw [← List.filterMap_eq_map']
    apply List.filterMap_congr
    intro p hp
    rw [hexBoundary_of_mem ((run.range.perm _).mem_iff.mp hp)]
    rfl
  rw [aggregateCoverage, hraw, List.length_map, (run.range.perm _).length_eq, length_byCell, if_neg (not_lt.mpr hfew)]

theorem features_perm : (aggregateCoverage geo run rows res resolve).features.Perm
    ((byCell geo rows res resolve).map fun p => feature run p (ringOf geo p.1)) := by
  rw [aggregateCoverage_eq hfew]
  exact (run.sortCells.perm _).trans ((run.range.perm _).map _)

theorem mem_features : f ∈ (aggregateCoverage geo run rows res resolve).features ↔
    ∃ p ∈ byCell geo rows res resolve, feature run p (ringOf geo p.1) = f := by
  rw [(features_perm hfew).mem_iff, List.mem_map]

theorem nodup_cells : ((aggregateCoverage geo run rows res resolve).features.map CoverageFeature.cell).Nodup := by
  rw [((features_perm hfew).map _).nodup_iff, List.map_map]
  exact nodup_tallies _

theorem pairwise_features :
    (aggregateCoverage geo run rows res resolve).features.Pairwise fun f f' => f.cell < f'.cell := by
  have hasc : Ascending CoverageFeature.cell (aggregateCoverage geo run rows res resolve).features := by
    rw [aggregateCoverage_eq hfew]
    exact run.sortCells.ascending _
  apply (hasc.and (List.pairwise_map.mp (nodup_cells hfew))).imp
  exact fun h => lt_of_le_of_ne h.1 h.2

omit hfew in
theorem feature_nodes (h : p ∈ byCell geo rows res resolve) (ring : List (F × F)) :
    (feature run p ring).nodes = (cellNodes run resolve (cellRows geo res rows p.1)).take coverageCellNodeCap := by
  rw [feature, (gathers_of_mem h).nodes, sortedCoverageNodes_tallies]

theorem sum_counts :
    ((aggregateCoverage geo run rows res resolve).features.map CoverageFeature.count).sum = rows.length := by
  rw [((features_perm hfew).map _).sum_eq, List.map_map]
  exact sum_tallies (f := CovAgg.count) (fun _ => rfl) (fun _ _ => rfl) rows

theorem best_of_mem (hf : f ∈ (aggregateCoverage geo run rows res resolve).features) :
    IsBest f.bestSNR (cellRows geo res rows f.cell) := by
  obtain ⟨p, hp, rfl⟩ := (mem_features hfew).mp hf
  exact (gathers_of_mem hp).best

theorem nodes_of_few (hf : f ∈ (aggregateCoverage geo run rows res resolve).features)
    (hnodes : (nodeKeys resolve (cellRows geo res rows f.cell)).length ≤ coverageCellNodeCap) :
    f.nodes = cellNodes run resolve (cellRows geo res rows f.cell) := by
  obtain ⟨p, hp, rfl⟩ := (mem_features hfew).mp hf
  rw [feature_nodes hp]
  apply List.take_of_length_le
  rw [length_cellNodes]
  exact hnodes

theorem sum_node_counts (hf : f ∈ (aggregateCoverage geo run rows res resolve).features)
    (hnodes : (nodeKeys resolve (cellRows geo res rows f.cell)).length ≤ coverageCellNodeCap) :
    (f.nodes.map CoverageNode.count).sum = (heard (cellRows geo res rows f.cell)).length := by
  rw [nodes_of_few hfew hf hnodes, (cellNodes_perm.map _).sum_eq, List.map_map]
  exact sum_tallies (f := CovNodeAgg.count) (fun _ => rfl) (add_count resolve) _

omit hfew in
theorem feature_perm (hp : rows.Perm rows') (hset : Settled resolve (cellRows geo res rows p.1))
    (hmem : p ∈ byCell geo rows res resolve) :
    ∃ p' ∈ byCell geo rows' res resolve, feature run' p' (ringOf geo p'.1) = feature run p (ringOf geo p.1) := by
  have hrows : (cellRows geo res rows p.1).Perm (cellRows geo res rows' p.1) := hp.filter _
  have hne : cellRows geo res rows' p.1 ≠ [] := fun hnil => cellRows_ne_nil hmem (List.perm_nil.mp (hnil ▸ hrows))
  obtain ⟨p', hmem', hcell⟩ := exists_mem_byCell resolve hne
  have hgathers := gathers_of_mem hmem
  have hgathers' := gathers_of_mem hmem'
  refine ⟨p', hmem', ?_⟩
  rw [hcell] at hgathers'
  have hnodes : (cellNodes run resolve (cellRows geo res rows p.1)).take coverageCellNodeCap =
      (cellNodes run' resolve (cellRows geo res rows' p.1)).take coverageCellNodeCap := take_cellNodes_perm hset hrows
  have hlen : (cellNodes run resolve (cellRows geo res rows p.1)).length =
      (cellNodes run' resolve (cellRows geo res rows' p.1)).length := by
    rw [length_cellNodes, length_cellNodes]
    exact ((hrows.filter _).map _).dedup.length_eq
  rw [feature, feature, hcell, hgathers.count, hgathers'.count, hrows.length_eq,
    hgathers.best.eq hgathers'.best fun r => hrows.mem_iff, hgathers.sig, hgathers'.sig, hrows.any_eq, hgathers.nodes,
    hgathers'.nodes, sortedCoverageNodes_tallies, sortedCoverageNodes_tallies, hnodes, hlen]

theorem aggregateCoverage_perm (hset : ∀ cell, Settled resolve (cellRows geo res rows cell)) (hp : rows'.Perm rows) :
    aggregateCoverage geo run' rows' res resolve = aggregateCoverage geo run rows res resolve := by
  have hfew' : (cells geo res rows').length ≤ coverageFeatureCap := by
    rw [cells, ((hp.map _).dedup).length_eq]
    exact hfew
  have hfeatures : (aggregateCoverage geo run' rows' res resolve).features =
      (aggregateCoverage geo run rows res resolve).features := by
    have hstrict : (aggregateCoverage geo run rows res resolve).features.Pairwise fun f f' => f.cell < f'.cell :=
      pairwise_features hfew
    have hstrict' : (aggregateCoverage geo run' rows' res resolve).features.Pairwise fun f f' => f.cell < f'.cell :=
      pairwise_features hfew'
    apply List.Perm.eq_of_pairwise (fun _ _ _ _ hlt hgt => absurd hgt (lt_asymm hlt)) hstrict' hstrict
    rw [List.perm_ext_iff_of_nodup (nodup_of_lt hstrict') (nodup_of_lt hstrict)]
    intro f
    rw [mem_features hfew, mem_features hfew']
    constructor
    · rintro ⟨p, hmem, rfl⟩
      exact feature_perm hp ((hset p.1).perm (hp.symm.filter _)) hmem
    · rintro ⟨p, hmem, rfl⟩
      exact feature_perm hp.symm (hset p.1) hmem
  rw [aggregateCoverage_eq hfew] at hfeatures ⊢
  rw [aggregateCoverage_eq hfew'] at hfeatures ⊢
  exact congrArg (fun fs => ({ features := fs, truncated := false } : CoverageFeatureCollection F)) hfeatures

theorem settled_of_aggregateCoverage (run : Run F) (h : ∀ rows', rows'.Perm rows →
    aggregateCoverage geo run rows' res resolve = aggregateCoverage geo run rows res resolve) (cell : String) :
    Settled resolve (cellRows geo res rows cell) := by
  apply settled_of_same run
  intro g' hg'
  by_cases hnil : cellRows geo res rows cell = []
  · rw [hnil] at hg' ⊢
    rw [List.perm_nil.mp hg']
  have hmove : ∃ rows', rows'.Perm rows ∧ cellRows geo res rows' cell = g' := by
    refine ⟨g' ++ rows.filter (fun r => !decide (cellOf geo res r = cell)), ?_, ?_⟩
    · exact (hg'.append_right _).trans (List.filter_append_perm _ rows)
    · have hin : g'.filter (fun r => decide (cellOf geo res r = cell)) = g' := by
        apply List.filter_eq_self.mpr
        intro r hr
        exact decide_eq_true (mem_group.mp (hg'.mem_iff.mp hr)).2
      have hout : (rows.filter fun r => !decide (cellOf geo res r = cell)).filter
          (fun r => decide (cellOf geo res r = cell)) = [] := by
        rw [List.filter_filter]
        apply List.filter_eq_nil_iff.mpr
        intro r _
        simp
      rw [cellRows, group, List.filter_append, hin, hout, List.append_nil]
  obtain ⟨rows', hp, rfl⟩ := hmove
  have hne : cellRows geo res rows' cell ≠ [] := fun h => hnil (List.nil_perm.mp (h ▸ hg'))
  obtain ⟨p, hmem, hcell⟩ := exists_mem_byCell resolve hne
  have hfew' : (cells geo res rows').length ≤ coverageFeatureCap := by
    rw [cells, ((hp.map _).dedup).length_eq]
    exact hfew
  have hf : feature run p (ringOf geo p.1) ∈ (aggregateCoverage geo run rows' res resolve).features :=
    (mem_features hfew').mpr ⟨p, hmem, rfl⟩
  rw [h rows' hp] at hf
  obtain ⟨q, hq, hfeature⟩ := (mem_features hfew).mp hf
  have hcells : q.1 = p.1 := congrArg CoverageFeature.cell hfeature
  have hnodes := congrArg CoverageFeature.nodes hfeature
  rw [feature_nodes hq, feature_nodes hmem, hcells, hcell] at hnodes
  exact hnodes.symm

theorem shown_of_few (hnodes : (nodeKeys resolve (cellRows geo res rows cell)).length ≤ coverageCellNodeCap) :
    shown geo run rows res resolve cell key =
      ((running newNode (CovNodeAgg.add resolve) (nodeRows resolve (cellRows geo res rows cell) key)).map fun na =>
        (na.name, na.heardPrefix, na.latestSNR)).toList := by
  cases hrun : running newNode (CovNodeAgg.add resolve) (nodeRows resolve (cellRows geo res rows cell) key) with
  | none =>
      apply List.flatMap_eq_nil_iff.mpr
      intro f hmem
      obtain ⟨hf, hcell⟩ := List.mem_filter.mp hmem
      obtain rfl := of_decide_eq_true hcell
      have hnone : f.nodes.filter (fun n => decide (keyOf resolve n = key)) = [] := by
        apply List.filter_eq_nil_iff.mpr
        intro n hn hkey
        rw [nodes_of_few hfew hf hnodes] at hn
        obtain ⟨na, hna, -⟩ := mem_cellNodes.mp hn
        rw [of_decide_eq_true hkey, hrun] at hna
        cases hna
      rw [hnone, List.map_nil]
  | some na =>
      have hkey : keyOf resolve na.node = key := keyOf_node hrun
      have hne : cellRows geo res rows cell ≠ [] := by
        obtain ⟨r, hr, -⟩ := (summarises_running hrun).prefix_mem
        exact List.ne_nil_of_mem (List.mem_of_mem_filter (mem_group.mp hr).1)
      obtain ⟨p, hp, rfl⟩ := exists_mem_byCell resolve hne
      have hf : feature run p (ringOf geo p.1) ∈ (aggregateCoverage geo run rows res resolve).features :=
        (mem_features hfew).mpr ⟨p, hp, rfl⟩
      have hone : (aggregateCoverage geo run rows res resolve).features.filter (fun f => decide (f.cell = p.1)) =
          [feature run p (ringOf geo p.1)] := group_of_nodup (nodup_cells hfew) hf
      have hmem : na.node ∈ cellNodes run resolve (cellRows geo res rows p.1) :=
        mem_cellNodes.mpr ⟨na, hkey.symm ▸ hrun, rfl⟩
      have hnode : (cellNodes run resolve (cellRows geo res rows p.1)).filter
          (fun n => decide (keyOf resolve n = key)) = [na.node] := hkey ▸ group_of_nodup nodup_keyOf hmem
      rw [shown, hone, List.flatMap_singleton, nodes_of_few hfew hf hnodes]
      exact congrArg (List.map _) hnode

omit hfew in
theorem whole_of_settled (hset : Settled resolve g) (hnodes : (nodeKeys resolve g).length ≤ coverageCellNodeCap) :
    ¬ Torn (nodeRows resolve g key) := by
  intro htorn
  have hentry : ∃ n, Entry resolve (nodeRows resolve g key) n := by
    obtain ⟨r, hr, -⟩ := htorn
    cases hrun : running newNode (CovNodeAgg.add resolve) (nodeRows resolve g key) with
    | none => exact absurd hr (running_eq_none.mp hrun ▸ List.not_mem_nil)
    | some na => exact ⟨na.node, na, summarises_running hrun, rfl⟩
  obtain ⟨n, hn⟩ := hentry
  obtain ⟨before, hnodup, hlen, hbefore⟩ := hset key n htorn hn
  obtain ⟨m, hm, hkey⟩ := exists_mem_of_entry (Run.insertion F) hn
  have hsub : m :: before ⊆ cellNodes (Run.insertion F) resolve g := by
    apply List.cons_subset.mpr
    refine ⟨hm, fun m' hm' => ?_⟩
    obtain ⟨-, key', hwhole, hentry⟩ := hbefore m' hm'
    exact mem_of_entry hentry hwhole
  have hnew : m ∉ before := by
    intro hin
    obtain ⟨-, key', hwhole, hentry⟩ := hbefore m hin
    rw [← keyOf_entry hentry, hkey] at hwhole
    exact hwhole htorn
  have hle := (List.subperm_of_subset (List.nodup_cons.mpr ⟨hnew, hnodup⟩) hsub).length_le
  rw [List.length_cons, hlen, length_cellNodes] at hle
  omega

theorem shown_eq (hset : ∀ cell, Settled resolve (cellRows geo res rows cell))
    (hfew' : (cells geo res rows').length ≤ coverageFeatureCap)
    (hnodes : (nodeKeys resolve (cellRows geo res rows cell)).length ≤ coverageCellNodeCap)
    (hnodes' : (nodeKeys resolve (cellRows geo res rows' cell)).length ≤ coverageCellNodeCap)
    (hmem : ∀ r, r ∈ nodeRows resolve (cellRows geo res rows cell) key ↔
      r ∈ nodeRows resolve (cellRows geo res rows' cell) key) :
    shown geo run rows res resolve cell key = shown geo run' rows' res resolve cell key := by
  rw [shown_of_few hfew hnodes, shown_of_few hfew' hnodes']
  cases hrun : running newNode (CovNodeAgg.add resolve) (nodeRows resolve (cellRows geo res rows cell) key) with
  | none =>
      have hnil := running_eq_none.mp hrun
      have hnil' : nodeRows resolve (cellRows geo res rows' cell) key = [] := by
        apply List.eq_nil_iff_forall_not_mem.mpr
        intro r hr
        rw [← hmem, hnil] at hr
        cases hr
      rw [running_eq_none.mpr hnil']
  | some na =>
      cases hrun' : running newNode (CovNodeAgg.add resolve) (nodeRows resolve (cellRows geo res rows' cell) key) with
      | none =>
          obtain ⟨r, hr, -⟩ := (summarises_running hrun).prefix_mem
          rw [hmem, running_eq_none.mp hrun'] at hr
          cases hr
      | some na' =>
          have h := summarises_running hrun
          have h' := summarises_running hrun'
          rw [Option.map_some, Option.map_some, heardPrefix_eq h h' hmem, name_eq h h' hmem,
            latestSNR_eq h h' hmem (whole_of_settled (hset cell) hnodes)]

end Whole

/-- The aggregation is what it is for exactly when every cell is settled. -/
theorem conservative_iff [LinearOrder F] (geo : Geometry F) (rows : List (CoverageRow F)) (res : Int64)
    (resolve : Option NodeResolver) (hfew : (cells geo res rows).length ≤ coverageFeatureCap) :
    Conservative geo rows res resolve ↔ ∀ cell, Settled resolve (cellRows geo res rows cell) := by
  constructor
  · exact fun h => settled_of_aggregateCoverage hfew (Run.insertion F) fun rows' hp => h.same _ _ rows' hp
  · intro hset
    refine ⟨?_, ?_, ?_, ?_, ?_⟩
    · exact fun run run' rows' hp => aggregateCoverage_perm hfew hset hp
    · exact fun run => sum_counts hfew
    · exact fun run f hf => best_of_mem hfew hf
    · exact fun run f hf hnodes => sum_node_counts hfew hf hnodes
    · exact fun run run' rows' cell key hfew' hnodes hnodes' hmem => shown_eq hfew hset hfew' hnodes hnodes' hmem

def oneCell : Geometry ℤ where
  axial := fun _ _ _ => (0, 0)
  corners := fun _ _ _ => []

def tied (snr : ℤ) : CoverageRow ℤ := { lat := 0, lon := 0, snr := some snr, heardKey := "a", rxAt := "" }

theorem cells_tied : (cells oneCell 9 [tied 1]).length ≤ coverageFeatureCap :=
  (List.dedup_sublist _).length_le.trans (by decide)

theorem conservative_iff_tied : (cells oneCell 9 [tied 1]).length ≤ coverageFeatureCap ∧
    (Conservative oneCell [tied 1] 9 none ↔ ∀ cell, Settled none (cellRows oneCell 9 [tied 1] cell)) :=
  ⟨cells_tied, conservative_iff oneCell [tied 1] 9 none cells_tied⟩

/-- One node, heard twice at one instant. -/
theorem tied_receptions_unsettled : ¬ Conservative oneCell [tied 1, tied 2] 9 none := by
  intro h
  have hfew : (cells oneCell 9 [tied 1, tied 2]).length ≤ coverageFeatureCap :=
    (List.dedup_sublist _).length_le.trans (by decide)
  have hset := settled_of_aggregateCoverage hfew (Run.insertion ℤ) (fun rows' hp => h.same _ _ rows' hp)
    (cellOf oneCell 9 (tied 1))
  set g := cellRows oneCell 9 [tied 1, tied 2] (cellOf oneCell 9 (tied 1))
  have hin : ∀ r ∈ [tied 1, tied 2], r ∈ nodeRows none g "a" := by
    intro r hr
    have hcell : cellOf oneCell 9 r = cellOf oneCell 9 (tied 1) := rfl
    have hkey : r.heardKey = "a" := by
      rcases List.mem_pair.mp hr with rfl | rfl
      · rfl
      · rfl
    apply mem_group.mpr
    refine ⟨List.mem_filter.mpr ⟨mem_group.mpr ⟨hr, hcell⟩, ?_⟩, hkey⟩
    rw [hkey]
    decide
  have hlen : (nodeKeys none g).length ≤ coverageCellNodeCap := by
    have hrows : (heard g).length ≤ 2 := (List.length_filter_le _ _).trans (List.length_filter_le _ _)
    have hkeys : (nodeKeys none g).length ≤ (heard g).length := by
      rw [← List.length_map (nodeKey none)]
      exact (List.dedup_sublist _).length_le
    exact (hkeys.trans hrows).trans (by decide)
  have hat : ∀ r ∈ nodeRows none g "a", r.rxAt = "" := by
    intro r hr
    have hr := List.mem_of_mem_filter (List.mem_of_mem_filter (List.mem_of_mem_filter hr))
    rcases List.mem_pair.mp hr with rfl | rfl
    · rfl
    · rfl
  apply whole_of_settled hset hlen
  refine ⟨tied 1, hin _ List.mem_cons_self, tied 2, hin _ (List.mem_cons_of_mem _ List.mem_cons_self), ?_, ?_, ?_⟩
  · exact fun q hq => (hat q hq).le
  · exact fun q hq => (hat q hq).le
  · decide

end MeshcoreAnalyzer.RxCoverage

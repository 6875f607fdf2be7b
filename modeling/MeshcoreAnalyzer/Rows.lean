import MeshcoreAnalyzer.Paths

namespace MeshcoreAnalyzer.PacketStore

open Maps Runs

namespace Store

variable {loc : List TxRef} {P : Store → Prop}

theorem findOrInsert_mem {s : Store} (h : s.catalog.WF loc) (tx : TxRow) :
    (s.findOrInsert tx).2 ∈ loc ++ (s.findOrInsert tx).1.packets := by
  rw [findOrInsert]
  split
  · next r hr => exact (h.hash _ _ hr).1
  · change s.next ∈ loc ++ (s.packets ++ [s.next])
    simp

theorem wf_findOrInsert {s : Store} (h : s.catalog.WF loc) (tx : TxRow) :
    (s.findOrInsert tx).1.catalog.WF loc := by
  rw [catalog_findOrInsert]
  exact h.findOrInsert tx

theorem wf_mergeRow {index : Store → TxRef → ObsRow → Store}
    (hindex : ∀ s r o, (index s r o).catalog = s.catalog) {s : Store} (h : s.catalog.WF loc)
    (row : ScanRow) : (mergeRow index s row).catalog.WF loc := by
  rw [catalog_mergeRow hindex]
  exact h.findOrInsert row.tx

theorem mergeRow_invariant {index : Store → TxRef → ObsRow → Store}
    (hinsert : ∀ s tx, s.catalog.WF loc → s.byHash tx.hash = none → P s → P (s.insertTx tx))
    (hobs : ∀ s r o, s.catalog.WF loc → r ∈ loc ++ s.packets → o.key ∉ (s.heap r).obsKeys → P s →
      P ((index s r o).attachObs r o.toObs))
    {s : Store} (h : s.catalog.WF loc) (hP : P s) (row : ScanRow) : P (mergeRow index s row) := by
  have hfound : P (s.findOrInsert row.tx).1 := by
    rw [findOrInsert]
    split
    · exact hP
    · next hnew => exact hinsert s row.tx h hnew hP
  rw [mergeRow]
  split
  · exact hfound
  · rw [mergeObs]
    split
    · exact hfound
    · next hkey => exact hobs _ _ _ (wf_findOrInsert h row.tx) (findOrInsert_mem h row.tx) hkey hfound

theorem mergeRows_invariant {index : Store → TxRef → ObsRow → Store}
    (hindex : ∀ s r o, (index s r o).catalog = s.catalog)
    (hinsert : ∀ s tx, s.catalog.WF loc → s.byHash tx.hash = none → P s → P (s.insertTx tx))
    (hobs : ∀ s r o, s.catalog.WF loc → r ∈ loc ++ s.packets → o.key ∉ (s.heap r).obsKeys → P s →
      P ((index s r o).attachObs r o.toObs))
    {s : Store} (h : s.catalog.WF loc) (hP : P s) (rows : List ScanRow) :
    P (rows.foldl (mergeRow index) s) := by
  have hboth : (rows.foldl (mergeRow index) s).catalog.WF loc ∧ P (rows.foldl (mergeRow index) s) :=
    foldl_invariant (I := fun t => t.catalog.WF loc ∧ P t) ⟨h, hP⟩ fun t row _ ⟨hwf, ht⟩ =>
      ⟨wf_mergeRow hindex hwf row, mergeRow_invariant hinsert hobs hwf ht row⟩
  exact hboth.2

theorem wf_mergeRows {index : Store → TxRef → ObsRow → Store}
    (hindex : ∀ s r o, (index s r o).catalog = s.catalog) {s : Store} (h : s.catalog.WF loc)
    (rows : List ScanRow) : (rows.foldl (mergeRow index) s).catalog.WF loc :=
  foldl_invariant (I := fun t : Store => t.catalog.WF loc) h fun _ row _ ht => wf_mergeRow hindex ht row

theorem ingestRows_fst (env : Env) (rows : List ScanRow) (acc : Store × List (Int × TxRef)) :
    (rows.foldl (ingestRow env) acc).1 = rows.foldl (mergeRow (indexLiveHops env)) acc.1 :=
  foldl_simulates (v := Prod.fst) fun _ _ _ => rfl

theorem lateRows_invariant {env : Env}
    (hobs : ∀ s r o, s.catalog.WF loc → r ∈ loc ++ s.packets → o.key ∉ (s.heap r).obsKeys → P s →
      P ((s.indexLiveHops env r o).attachObs r o.toObs))
    {acc : Store × List (Int × TxRef)} (h : acc.1.catalog.WF loc) (hP : P acc.1) (rows : List ObsRow) :
    P (rows.foldl (lateRow env) acc).1 := by
  have hstep : ∀ a : Store × List (Int × TxRef), ∀ o ∈ rows, a.1.catalog.WF loc ∧ P a.1 →
      (lateRow env a o).1.catalog.WF loc ∧ P (lateRow env a o).1 := by
    rintro a o _ ⟨hwf, ha⟩
    refine ⟨by rw [catalog_lateRow]; exact hwf, ?_⟩
    rw [lateRow]
    split
    · exact ha
    · split
      · exact ha
      · next r hr =>
          split
          · exact ha
          · next hkey => exact hobs a.1 r o hwf (hwf.id _ _ hr).1 hkey ha
  have hboth := foldl_invariant (I := fun a : Store × List (Int × TxRef) => a.1.catalog.WF loc ∧ P a.1)
    ⟨h, hP⟩ hstep
  exact hboth.2

/-- The new transmissions: packets without a path so far, each of them once. -/
structure Broadcast (s : Store) (txs : List (Int × TxRef)) : Prop where
  mem : ∀ b ∈ txs, b.2 ∈ s.packets
  pathless : ∀ b ∈ txs, (s.heap b.2).pathJSON = ""
  nodup : (txs.map Prod.snd).Nodup

theorem packets_mergeRow {index : Store → TxRef → ObsRow → Store}
    (hindex : ∀ s r o, (index s r o).catalog = s.catalog) (s : Store) (row : ScanRow) :
    (mergeRow index s row).packets =
      if s.byHash row.tx.hash = none then s.packets ++ [s.next] else s.packets := by
  have hcat : (mergeRow index s row).packets = (s.catalog.findOrInsert row.tx).packets :=
    congrArg Catalog.packets (catalog_mergeRow hindex s row)
  rw [hcat]
  rw [Catalog.findOrInsert]
  change (if s.byHash row.tx.hash = none then _ else _ : Catalog).packets = _
  split <;> rfl

theorem Broadcast.ingestRow {acc : Store × List (Int × TxRef)} (hwf : acc.1.catalog.WF loc)
    (h : Broadcast acc.1 acc.2) (env : Env) (row : ScanRow) :
    Broadcast (ingestRow env acc row).1 (ingestRow env acc row).2 := by
  have hpackets := packets_mergeRow (catalog_indexLiveHops env) acc.1 row
  have hpath := pathJSON_mergeRow env acc.1 row
  have hnext : acc.1.next ∉ acc.1.packets := fun hm => hwf.next_notMem (List.mem_append_right loc hm)
  have hkeep : ∀ b ∈ acc.2, b.2 ∈ (mergeRow (indexLiveHops env) acc.1 row).packets ∧
      ((mergeRow (indexLiveHops env) acc.1 row).heap b.2).pathJSON = "" := by
    intro b hb
    rw [hpackets, hpath]
    constructor
    · split
      · exact List.mem_append_left _ (h.mem b hb)
      · exact h.mem b hb
    · split
      · rfl
      · exact h.pathless b hb
  rw [Store.ingestRow]
  dsimp only
  split
  · next hnew =>
      have hadd : acc.1.next ∈ (mergeRow (indexLiveHops env) acc.1 row).packets := by
        rw [hpackets, if_pos hnew.1]
        simp
      refine ⟨?_, ?_, ?_⟩
      · intro b hb
        rcases List.mem_append.mp hb with hb | hb
        · exact (hkeep b hb).1
        · rw [List.mem_singleton.mp hb]
          exact hadd
      · intro b hb
        rcases List.mem_append.mp hb with hb | hb
        · exact (hkeep b hb).2
        · rw [List.mem_singleton.mp hb, hpath, if_pos ⟨hnew.1, rfl⟩]
      · rw [List.map_append, List.nodup_append]
        refine ⟨h.nodup, List.nodup_singleton _, ?_⟩
        rintro a ha b hb rfl
        obtain ⟨c, hc, hca⟩ := List.mem_map.mp ha
        rw [List.map_singleton, List.mem_singleton] at hb
        have hmem := h.mem c hc
        rw [hca, hb] at hmem
        exact hnext hmem
  · exact ⟨fun b hb => (hkeep b hb).1, fun b hb => (hkeep b hb).2, h.nodup⟩

theorem Broadcast.ingestRows {s : Store} (hwf : s.catalog.WF loc) (env : Env) (rows : List ScanRow) :
    Broadcast (rows.foldl (Store.ingestRow env) (s, [])).1 (rows.foldl (Store.ingestRow env) (s, [])).2 := by
  have hstart : Broadcast s [] :=
    ⟨fun _ hb => (by cases hb), fun _ hb => (by cases hb), List.nodup_nil⟩
  have hstep : ∀ a : Store × List (Int × TxRef), ∀ row ∈ rows,
      a.1.catalog.WF loc ∧ Broadcast a.1 a.2 →
        (Store.ingestRow env a row).1.catalog.WF loc ∧
          Broadcast (Store.ingestRow env a row).1 (Store.ingestRow env a row).2 :=
    fun a row _ ha => ⟨wf_mergeRow (catalog_indexLiveHops env) ha.1 row, ha.2.ingestRow ha.1 env row⟩
  have hboth := foldl_invariant (s := (s, [])) (I := fun a : Store × List (Int × TxRef) =>
    a.1.catalog.WF loc ∧ Broadcast a.1 a.2) ⟨hwf, hstart⟩ hstep
  exact hboth.2

/-- The transmissions with a new observation: under their IDs, each of them once. -/
structure Updated (s : Store) (txs : List (Int × TxRef)) : Prop where
  byTxID : ∀ b ∈ txs, s.byTxID b.1 = some b.2
  keys : (txs.map Prod.fst).Nodup

theorem Updated.nodup {s : Store} (hwf : s.catalog.WF loc) {txs : List (Int × TxRef)}
    (h : Updated s txs) : (txs.map Prod.snd).Nodup := by
  have hids : (txs.map Prod.snd).map (fun r => (s.row r).id) = txs.map Prod.fst := by
    rw [List.map_map]
    exact List.map_congr_left fun b hb => (hwf.id _ _ (h.byTxID b hb)).2
  exact List.Nodup.of_map _ (hids ▸ h.keys)

theorem Updated.mem {s : Store} (hwf : s.catalog.WF loc) {txs : List (Int × TxRef)}
    (h : Updated s txs) : ∀ r ∈ txs.map Prod.snd, r ∈ loc ++ s.packets := by
  intro r hr
  obtain ⟨b, hb, rfl⟩ := List.mem_map.mp hr
  exact (hwf.id _ _ (h.byTxID b hb)).1

theorem Updated.lateRow {acc : Store × List (Int × TxRef)} (h : Updated acc.1 acc.2) (env : Env)
    (o : ObsRow) : Updated (lateRow env acc o).1 (lateRow env acc o).2 := by
  have hids : (Store.lateRow env acc o).1.byTxID = acc.1.byTxID :=
    byTxID_of_catalog (catalog_lateRow env acc o)
  refine ⟨?_, ?_⟩
  · rw [hids]
    rw [Store.lateRow]
    split
    · exact h.byTxID
    · split
      · exact h.byTxID
      · next r hr =>
          split
          · exact h.byTxID
          · dsimp only
            split
            · exact h.byTxID
            · intro b hb
              rcases List.mem_append.mp hb with hb | hb
              · exact h.byTxID b hb
              · rw [List.mem_singleton.mp hb]
                exact hr
  · rw [Store.lateRow]
    split
    · exact h.keys
    · split
      · exact h.keys
      · split
        · exact h.keys
        · dsimp only
          split
          · exact h.keys
          · next hkey =>
              rw [List.map_append, List.nodup_append]
              refine ⟨h.keys, List.nodup_singleton _, ?_⟩
              rintro a ha b hb rfl
              rw [List.map_singleton, List.mem_singleton] at hb
              rw [hb] at ha
              exact hkey ha

theorem Updated.lateRows (s : Store) (env : Env) (rows : List ObsRow) :
    Updated (rows.foldl (Store.lateRow env) (s, [])).1 (rows.foldl (Store.lateRow env) (s, [])).2 :=
  foldl_invariant (I := fun a : Store × List (Int × TxRef) => Updated a.1 a.2)
    ⟨fun _ hb => (by cases hb), List.nodup_nil⟩ fun _ o _ ha => ha.lateRow env o

end Store

end MeshcoreAnalyzer.PacketStore

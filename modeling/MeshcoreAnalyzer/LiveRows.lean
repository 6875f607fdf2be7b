import MeshcoreAnalyzer.WellFormed

namespace MeshcoreAnalyzer.PacketStore

open Maps Runs

def Action.rows : Action → List ScanRow
  | .scanAndMergeChunk _ rows | .ingestNewFromDB _ _ _ rows | .readChunk _ rows => rows
  | _ => []

theorem ingested_subset (sinceID limit : Int) (rows : List ScanRow) : Store.ingested sinceID limit rows ⊆ rows :=
  Store.takeTxs_subset _ _ _ _

variable {Q : TxRow → Prop}

def Catalog.All (Q : TxRow → Prop) (c : Catalog) (loc : List TxRef) : Prop := ∀ r ∈ loc ++ c.packets, Q (c.row r)

namespace Catalog

variable {c : Catalog} {loc : List TxRef}

theorem All.findOrInsert (h : c.All Q loc) (hwf : c.WF loc) {tx : TxRow} (htx : Q tx) :
    (c.findOrInsert tx).All Q loc := by
  rw [Catalog.findOrInsert]
  split
  · intro r hr
    have hmem : r ∈ loc ++ c.packets ∨ r = c.next := by
      rw [show (c.insertTx tx).packets = c.packets ++ [c.next] from rfl, ← List.append_assoc] at hr
      exact (List.mem_append.mp hr).imp_right List.mem_singleton.mp
    change Q (Function.update c.row c.next tx r)
    rcases hmem with hr | rfl
    · rw [update_row_of_mem hwf tx hr]
      exact h r hr
    · rw [Function.update_self]
      exact htx
  · exact h

theorem All.rows (h : c.All Q loc) (hwf : c.WF loc) {rows : List ScanRow} (hrows : ∀ row ∈ rows, Q row.tx) :
    (rows.foldl (fun c row => c.findOrInsert row.tx) c).All Q loc := by
  have hboth : (rows.foldl (fun c row => c.findOrInsert row.tx) c).WF loc ∧
      (rows.foldl (fun c row => c.findOrInsert row.tx) c).All Q loc :=
    foldl_invariant (I := fun c : Catalog => c.WF loc ∧ c.All Q loc) ⟨hwf, h⟩ fun _ row hrow hc =>
      ⟨hc.1.findOrInsert row.tx, hc.2.findOrInsert hc.1 (hrows row hrow)⟩
  exact hboth.2

theorem All.subset {d : Catalog} {loc' : List TxRef} (h : c.All Q loc) (hrow : d.row = c.row)
    (hsub : loc' ++ d.packets ⊆ loc ++ c.packets) : d.All Q loc' := by
  intro r hr
  rw [hrow]
  exact h r (hsub hr)

end Catalog

theorem all_readRow {acc : Store × Chunk} (hread : Reading acc.1 acc.2) (h : acc.1.catalog.All Q acc.2.packets)
    (relayPM : Option PrefixMap) {row : ScanRow} (hrow : Q row.tx) :
    (Store.readRow relayPM acc row).1.catalog.All Q (Store.readRow relayPM acc row).2.packets := by
  have hfound : (acc.1.findOrNewLocal acc.2 row.tx).1.1.catalog.All Q (acc.1.findOrNewLocal acc.2 row.tx).1.2.packets := by
    rw [Store.findOrNewLocal]
    split
    · exact h
    · rw [Store.catalog_newLocalTx]
      intro r hr
      change Q (Function.update acc.1.catalog.row acc.1.catalog.next row.tx r)
      have hmem : r ∈ acc.2.packets ++ acc.1.catalog.packets ∨ r = acc.1.next := by
        replace hr : r ∈ acc.2.packets ++ [acc.1.next] ++ acc.1.packets := hr
        simp only [List.mem_append, List.mem_singleton] at hr ⊢
        tauto
      rcases hmem with hr | rfl
      · rw [Catalog.update_row_of_mem hread.wf row.tx hr]
        exact h r hr
      · rw [show acc.1.next = acc.1.catalog.next from rfl, Function.update_self]
        exact hrow
  unfold Store.readRow
  dsimp only
  split
  · exact hfound
  · rw [catalog_localObs, localObs_packets]
    exact hfound

namespace State

/-- Every transmission that is in the store or in the chunk is of such a row. -/
def AllRows (Q : TxRow → Prop) (st : State) : Prop := st.store.catalog.All Q st.locals

theorem allRows_new (use : Bool) : (State.new use).AllRows Q := fun r hr => by cases hr

theorem AllRows.of_store {st : State} {s : Store} (h : s.catalog.All Q st.locals) :
    AllRows Q { st with store := s } := h

theorem AllRows.readChunk {st : State} (h : st.AllRows Q) (hwf : st.WF) (hnone : st.chunk = none)
    (relayPM : Option PrefixMap) {rows : List ScanRow} (hrows : ∀ row ∈ rows, Q row.tx) :
    (st.step (.readChunk relayPM rows)).AllRows Q := by
  have hloc := locals_of_none hnone
  have hstart : Reading st.store Chunk.empty := by
    have hcwf := hwf.catalog
    rw [hloc] at hcwf
    exact ⟨hcwf, fun k r hr => (by cases hr), fun r hr => (by cases hr), List.nodup_nil⟩
  unfold AllRows at h
  rw [hloc] at h
  have hboth : Reading (rows.foldl (Store.readRow relayPM) (st.store, Chunk.empty)).1
        (rows.foldl (Store.readRow relayPM) (st.store, Chunk.empty)).2 ∧
      (rows.foldl (Store.readRow relayPM) (st.store, Chunk.empty)).1.catalog.All Q
        (rows.foldl (Store.readRow relayPM) (st.store, Chunk.empty)).2.packets :=
    foldl_invariant (I := fun acc : Store × Chunk => Reading acc.1 acc.2 ∧ acc.1.catalog.All Q acc.2.packets) ⟨hstart, h⟩
    fun acc row hrow hacc => ⟨hacc.1.readRow relayPM row, all_readRow hacc.1 hacc.2 relayPM (hrows row hrow)⟩
  have hall := hboth.2
  change AllRows Q ⟨(st.store.readChunk relayPM rows).1, (st.store.readChunk relayPM rows).2⟩
  rw [Store.readChunk]
  dsimp only
  rw [← Store.catalog_pickAll _ (rows.foldl (Store.readRow relayPM) (st.store, Chunk.empty)).2.packets] at hall
  split
  · next hempty =>
      rw [hempty] at hall
      rw [AllRows]
      rw [hempty]
      exact hall
  · exact hall

theorem AllRows.step {st : State} (h : st.AllRows Q) (hwf : st.WF) {a : Action} (ha : st.Enabled a)
    (hrows : ∀ row ∈ a.rows, Q row.tx) : (st.step a).AllRows Q := by
  cases a with
  | scanAndMergeChunk relayPM rows =>
      apply AllRows.of_store
      rw [Store.catalog_scanAndMergeChunk]
      exact Catalog.All.rows h hwf.catalog hrows
  | finishLoad env hotCutoff =>
      apply AllRows.of_store
      rw [Store.catalog_finishLoad]
      refine Catalog.All.subset h rfl ?_
      exact ((List.perm_insertionSort _ st.store.packets).append_left _).subset
  | ingestNewFromDB env sinceID limit rows =>
      apply AllRows.of_store
      rw [Store.catalog_ingestNewFromDB]
      exact Catalog.All.rows h hwf.catalog fun row hrow => hrows row (ingested_subset sinceID limit rows hrow)
  | ingestNewObservations env limit rows =>
      apply AllRows.of_store
      rw [Store.catalog_ingestNewObservations]
      exact h
  | readChunk relayPM rows => exact h.readChunk hwf ha.2 relayPM hrows
  | mergeBatch =>
      unfold State.step
      dsimp only
      split
      · next c hc =>
          have hcat := Store.catalog_mergeBatch st.store c
          unfold AllRows at h ⊢
          rw [locals_of_some hc] at h
          change (st.store.mergeBatch c).1.catalog.All Q c.packets
          rw [hcat]
          exact h
      · exact h
  | publish =>
      unfold State.step
      dsimp only
      split
      · next c hc =>
          unfold AllRows at h
          rw [locals_of_some hc] at h
          exact h
      · exact h
  | rebuild =>
      apply AllRows.of_store
      rw [Store.catalog_rebuild]
      exact h
  | buildDistanceIndex env =>
      apply AllRows.of_store
      rw [Store.catalog_buildDistanceIndex]
      exact h
  | evict ret rpBatch =>
      change AllRows Q { st with store := st.store.evictStaleInternal ret rpBatch }
      rw [Store.evictStaleInternal]
      split
      · exact h
      · split
        · exact h
        · apply AllRows.of_store
          rw [Store.catalog_evict]
          refine Catalog.All.subset h rfl ?_
          exact ((List.Sublist.refl _).append (List.drop_sublist _ _)).subset

theorem allRows_of_reach {use : Bool} {st : State}
    (h : Reach State.step (fun st a => st.Enabled a ∧ ∀ row ∈ a.rows, Q row.tx) (· = State.new use) st) :
    st.AllRows Q := by
  have hstart : ∀ st : State, st = State.new use → st.WF ∧ st.AllRows Q := by
    rintro _ rfl
    exact ⟨wf_new use, allRows_new use⟩
  have hboth := h.invariant (I := fun st => st.WF ∧ st.AllRows Q) hstart
    fun _ _ hst ha => ⟨hst.1.step ha.1, hst.2.step hst.1 ha.1 ha.2⟩
  exact hboth.2

end State

end MeshcoreAnalyzer.PacketStore

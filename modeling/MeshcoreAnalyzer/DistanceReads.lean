import MeshcoreAnalyzer.DistanceIndex
import MeshcoreAnalyzer.Slices

namespace MeshcoreAnalyzer.PacketStore.Distances

open Maps Runs Json Store Slices

/-! `computeAnalyticsDistance` of cmd/server/store.go beside the writers of the distance
index: which records it aggregates after it has given up the lock. -/

/-- What a step does to the index: whose records go, and whose are put in, as the
transmissions are then. -/
structure IndexUpdate where
  gone : List TxRef
  heap : TxRef → StoreTx
  come : List TxRef

def indexUpdate (s : Store) : LiveAction → IndexUpdate
  | .ingestNewFromDB env sinceID limit rows =>
      let acc := (takeTxs (if limit ≤ 0 then 100 else limit) sinceID 0 rows).foldl (ingestRow env) (s, [])
      let t := (env.indexOrder.refs acc.2).foldl addPaths ((env.pickOrder.refs acc.2).foldl pickBest acc.1)
      ⟨[], t.heap, env.distOrder.refs acc.2⟩
  | .ingestNewObservations env limit rows =>
      let acc := (rows.take (if limit ≤ 0 then 500 else limit).toNat).foldl (lateRow env) (s, [])
      let oldPath := fun r => (acc.1.heap r).pathJSON
      let t := (env.indexOrder.refs acc.2).foldl (repath oldPath) ((env.pickOrder.refs acc.2).foldl pickBest acc.1)
      let changedTxs := (env.distOrder.refs acc.2).filter (t.pathChanged oldPath)
      ⟨changedTxs, t.heap, changedTxs⟩
  | .evict ret _ => ⟨s.evicting ret, s.heap, []⟩

theorem without_nobody (ix : DistanceIndex) : ix.without [] = ix := by
  rw [DistanceIndex.without]
  simp

theorem update_nobody (net : Network) (heap : TxRef → StoreTx) (ix : DistanceIndex) (txs : List TxRef) :
    (if txs = [] then ix else ix.updateDistanceIndexForTxs net heap txs) = (ix.without txs).addAll net heap txs := by
  split
  · next hnone =>
      rw [hnone, without_nobody]
      rfl
  · rfl

theorem index_live (net : Network) (y : IndexedStore) (a : LiveAction) : (y.live net a).index =
    (y.index.without (indexUpdate y.store a).gone).addAll net (indexUpdate y.store a).heap
      (indexUpdate y.store a).come := by
  cases a with
  | ingestNewFromDB env sinceID limit rows =>
      rw [indexUpdate]
      dsimp only
      rw [without_nobody]
      rfl
  | ingestNewObservations env limit rows => exact update_nobody net _ y.index _
  | evict ret rpBatch => rfl

/-- `distHops` and `distPaths` as slices. -/
structure SharedIndex where
  distHops : SliceVar DistHopRecord
  distPaths : SliceVar DistPathRecord

/-- The capacity of a new array, by the one that is too small and the length that is needed. -/
abbrev Growth := Nat → Nat → Nat

def appendTo {R : Type} (growth : Growth) (σ : SliceVar R) (xs : List R) : SliceVar R :=
  σ.append (growth (σ.cap σ.slice.array) (σ.slice.len + xs.length)) xs

namespace SharedIndex

variable (net : Network) (growth : Growth)

def records (ix : SharedIndex) : DistanceIndex := ⟨ix.distHops.contents, ix.distPaths.contents⟩

def without (ix : SharedIndex) (gone : List TxRef) : SharedIndex :=
  ⟨ix.distHops.compact (·.tx ∉ gone), ix.distPaths.compact (·.tx ∉ gone)⟩

def append (ix : SharedIndex) (recs : List DistHopRecord × Option DistPathRecord) : SharedIndex :=
  ⟨appendTo growth ix.distHops recs.1, appendTo growth ix.distPaths recs.2.toList⟩

def addTx (heap : TxRef → StoreTx) (acc : SharedIndex × HopResolver) (r : TxRef) : SharedIndex × HopResolver :=
  let found := computeDistancesForTx net r (heap r)
    (acc.2.setContext (buildHopContextPubkeys net.pm (heap r)))
  (acc.1.append growth found.1, found.2)

def addAll (heap : TxRef → StoreTx) (ix : SharedIndex) (rs : List TxRef) : SharedIndex :=
  (rs.foldl (addTx net growth heap) (ix, .new)).1

@[simp] theorem records_without (ix : SharedIndex) (gone : List TxRef) :
    (ix.without gone).records = ix.records.without gone := by
  unfold records without DistanceIndex.without
  rw [SliceVar.contents_compact, SliceVar.contents_compact]

@[simp] theorem records_append (ix : SharedIndex) (recs : List DistHopRecord × Option DistPathRecord) :
    (ix.append growth recs).records = ix.records.append recs := by
  unfold records append appendTo DistanceIndex.append
  rw [SliceVar.contents_append, SliceVar.contents_append]

@[simp] theorem records_addAll (heap : TxRef → StoreTx) (ix : SharedIndex) (rs : List TxRef) :
    (ix.addAll net growth heap rs).records = ix.records.addAll net heap rs := by
  let read := fun acc : SharedIndex × HopResolver => (acc.1.records, acc.2)
  have hstep : ∀ acc r, read (addTx net growth heap acc r) = DistanceIndex.addTx net heap (read acc) r := by
    intro acc r
    unfold read addTx DistanceIndex.addTx
    dsimp only
    rw [records_append]
  have hloop : read (rs.foldl (addTx net growth heap) (ix, .new)) =
      rs.foldl (DistanceIndex.addTx net heap) (ix.records, .new) :=
    Runs.foldl_simulates (v := read) fun acc r _ => hstep acc r
  exact congrArg Prod.fst hloop

end SharedIndex

/-- The store with the index in two slices. -/
structure SharedStore where
  store : Store
  index : SharedIndex

namespace SharedStore

variable (net : Network) (growth : Growth)

def live (y : SharedStore) (a : LiveAction) : SharedStore :=
  let u := indexUpdate y.store a
  ⟨y.store.live a, (y.index.without u.gone).addAll net growth u.heap u.come⟩

def run (y : SharedStore) (acts : List LiveAction) : SharedStore := acts.foldl (live net growth) y

def indexed (y : SharedStore) : IndexedStore := ⟨y.store, y.index.records⟩

theorem indexed_live (y : SharedStore) (a : LiveAction) : (y.live net growth a).indexed = y.indexed.live net a := by
  have hindex := index_live net y.indexed a
  have hstore := IndexedStore.store_live net y.indexed a
  unfold SharedStore.live indexed at *
  dsimp only at *
  rw [SharedIndex.records_addAll, SharedIndex.records_without, ← hindex, ← hstore]

/-- The records are of transmissions of a reachable store. -/
structure Valid (use : Bool) (y : SharedStore) : Prop where
  reachable : ∃ st : State, Reachable use st ∧ st.store = y.store
  hops : ∀ rec ∈ y.index.records.distHops, rec.tx < y.store.next
  paths : ∀ rec ∈ y.index.records.distPaths, rec.tx < y.store.next

def unbuilt (s : Store) : SharedStore := ⟨s, ⟨SliceVar.empty, SliceVar.empty⟩⟩

theorem valid_unbuilt {use : Bool} {st : State} (h : Reachable use st) : (unbuilt st.store).Valid use :=
  ⟨⟨st, h, rfl⟩, fun _ hrec => (by cases hrec), fun _ hrec => (by cases hrec)⟩

end SharedStore

/-- The observers of the region, and the nodes of the area, where these are asked for. -/
structure Request where
  regionObs : Option (String → Bool)
  areaNodes : Option (String → Bool)

def inArea (areaNodes : String → Bool) (tx : TxRow) : Bool := tx.areaKey ≠ "" && areaNodes tx.areaKey

def inRegion (regionObs : String → Bool) (tx : StoreTx) : Bool :=
  tx.observations.any fun obs => regionObs obs.observerID

def matching (ok : TxRef → Bool) (ix : DistanceIndex) : List TxRef :=
  (Firsts.firsts id [] (ix.distHops.map (·.tx) ++ ix.distPaths.map (·.tx))).filter ok

theorem mem_matching {ok : TxRef → Bool} {ix : DistanceIndex} {r : TxRef} : r ∈ matching ok ix ↔
    r ∈ ix.distHops.map (·.tx) ++ ix.distPaths.map (·.tx) ∧ ok r = true := by
  rw [matching]
  rw [List.mem_filter]
  constructor
  · exact fun h => ⟨Firsts.firsts_subset h.1, h.2⟩
  · rintro ⟨hr, hok⟩
    obtain ⟨q, hq, rfl⟩ : ∃ q ∈ Firsts.firsts id [] (ix.distHops.map (·.tx) ++ ix.distPaths.map (·.tx)), q = r :=
      Firsts.exists_mem_firsts hr List.not_mem_nil
    exact ⟨hq, hok⟩

/-- What is taken under the lock: the two headers, and the transmissions of the region. -/
structure Snapshot where
  hopsSnap : Slice
  pathsSnap : Slice
  matchSet : Option (List TxRef)

def snapshot (q : Request) (y : SharedStore) : Snapshot where
  hopsSnap := y.index.distHops.slice
  pathsSnap := y.index.distPaths.slice
  matchSet := q.regionObs.map fun regionObs => matching (fun r => inRegion regionObs (y.store.heap r)) y.index.records

/-- The transmissions that are left of the match set; without a region it is made of the
slices as they are by then. -/
def matchSet (q : Request) (snap : Snapshot) (z : SharedStore) : Option (List TxRef) :=
  match q.areaNodes, snap.matchSet with
  | none, m => m
  | some areaNodes, some m => some (m.filter fun r => inArea areaNodes (z.store.row r))
  | some areaNodes, none => some (matching (fun r => inArea areaNodes (z.store.row r)) z.index.records)

def matched : Option (List TxRef) → TxRef → Bool
  | none, _ => true
  | some m, r => r ∈ m

/-- The records that are aggregated, read from the arrays as they are by then. -/
def aggregated (q : Request) (snap : Snapshot) (z : SharedStore) : DistanceIndex where
  distHops := (z.index.distHops.readAt snap.hopsSnap).filter fun rec => matched (matchSet q snap z) rec.tx
  distPaths := (z.index.distPaths.readAt snap.pathsSnap).filter fun rec => matched (matchSet q snap z) rec.tx

def Request.passes (q : Request) (tx : StoreTx) : Bool :=
  (q.regionObs.all fun regionObs => inRegion regionObs tx) && q.areaNodes.all fun areaNodes => inArea areaNodes tx.toTxRow

/-- The records of the index whose transmissions are asked for. -/
def selected (q : Request) (y : SharedStore) : DistanceIndex where
  distHops := y.index.records.distHops.filter fun rec => q.passes (y.store.heap rec.tx)
  distPaths := y.index.records.distPaths.filter fun rec => q.passes (y.store.heap rec.tx)

def Request.AreaOnly (q : Request) : Prop := q.regionObs = none ∧ q.areaNodes ≠ none

/-- No record of the snapshot is taken out of the array that the snapshot is in, nor, for
a request with an area and no region, out of the index. -/
structure Spared (q : Request) (y z : SharedStore) (a : LiveAction) : Prop where
  hops : z.index.distHops.slice.array = y.index.distHops.slice.array ∨ q.AreaOnly →
    ∀ rec ∈ y.index.records.distHops, rec.tx ∉ (indexUpdate z.store a).gone
  paths : z.index.distPaths.slice.array = y.index.distPaths.slice.array ∨ q.AreaOnly →
    ∀ rec ∈ y.index.records.distPaths, rec.tx ∉ (indexUpdate z.store a).gone

/-- The snapshot of `y` can still be read in `z`. -/
structure Readable (q : Request) (y z : SharedStore) : Prop where
  hops : SliceVar.Stable y.index.distHops.slice y.index.records.distHops q.AreaOnly z.index.distHops
  paths : SliceVar.Stable y.index.distPaths.slice y.index.records.distPaths q.AreaOnly z.index.distPaths
  rows : ∀ r < y.store.next, z.store.row r = y.store.row r
  next : y.store.next ≤ z.store.next

theorem readable_self (q : Request) (y : SharedStore) : Readable q y y :=
  ⟨SliceVar.stable_slice _ _, SliceVar.stable_slice _ _, fun _ _ => rfl, Nat.le_refl _⟩

theorem foldl_findOrInsert_rows (rows : List ScanRow) (c : Catalog) :
    c.next ≤ (rows.foldl (fun c row => c.findOrInsert row.tx) c).next ∧
      ∀ r < c.next, (rows.foldl (fun c row => c.findOrInsert row.tx) c).row r = c.row r := by
  apply foldl_invariant (I := fun d : Catalog => c.next ≤ d.next ∧ ∀ r < c.next, d.row r = c.row r)
  · exact ⟨Nat.le_refl _, fun _ _ => rfl⟩
  · rintro d row _ ⟨hnext, hrow⟩
    rw [Catalog.findOrInsert]
    split
    · refine ⟨Nat.le_succ_of_le hnext, fun r hr => ?_⟩
      have hne : r ≠ d.next := Nat.ne_of_lt (Nat.lt_of_lt_of_le hr hnext)
      exact (Function.update_of_ne hne _ _).trans (hrow r hr)
    · exact ⟨hnext, hrow⟩

theorem rows_live (s : Store) (a : LiveAction) :
    s.next ≤ (s.live a).next ∧ ∀ r < s.next, (s.live a).row r = s.row r := by
  have hkept : ∀ {t : Store}, t.catalog.next = s.next → t.catalog.row = s.row →
      s.next ≤ t.next ∧ ∀ r < s.next, t.row r = s.row r :=
    fun hnext hrow => ⟨hnext.ge, fun r _ => congrFun hrow r⟩
  cases a with
  | ingestNewFromDB env sinceID limit rows =>
      have hcat := catalog_ingestNewFromDB env sinceID limit rows s
      have hrows := foldl_findOrInsert_rows (ingested sinceID limit rows) s.catalog
      rw [← hcat] at hrows
      exact hrows
  | ingestNewObservations env limit rows =>
      have hcat := catalog_ingestNewObservations env limit rows s
      exact hkept (congrArg Catalog.next hcat) (congrArg Catalog.row hcat)
  | evict ret rpBatch =>
      unfold Store.live evictStaleInternal
      dsimp only
      split
      · exact hkept rfl rfl
      · split
        · exact hkept rfl rfl
        · have hcat := catalog_evict s rpBatch (s.cutoffIdx ret)
          exact hkept (congrArg Catalog.next hcat) (congrArg Catalog.row hcat)

section Runs

variable {net : Network} {growth : Growth} {q : Request} {y z : SharedStore}

theorem stable_addAll {ix : SharedIndex} {copyHops copyPaths : Slice} {hops : List DistHopRecord}
    {paths : List DistPathRecord} {always : Prop} (hhops : SliceVar.Stable copyHops hops always ix.distHops)
    (hpaths : SliceVar.Stable copyPaths paths always ix.distPaths) (net : Network) (growth : Growth)
    (heap : TxRef → StoreTx) (rs : List TxRef) :
    SliceVar.Stable copyHops hops always (ix.addAll net growth heap rs).distHops ∧
      SliceVar.Stable copyPaths paths always (ix.addAll net growth heap rs).distPaths :=
  foldl_invariant (I := fun acc : SharedIndex × HopResolver => SliceVar.Stable copyHops hops always acc.1.distHops ∧
    SliceVar.Stable copyPaths paths always acc.1.distPaths) ⟨hhops, hpaths⟩
    fun _ _ _ ⟨hh, hp⟩ => ⟨hh.append _ _, hp.append _ _⟩

theorem Readable.live (h : Readable q y z) {a : LiveAction} (ha : Spared q y z a) :
    Readable q y (z.live net growth a) := by
  have hhops : SliceVar.Stable y.index.distHops.slice y.index.records.distHops q.AreaOnly
      (z.index.without (indexUpdate z.store a).gone).distHops :=
    h.hops.compact fun hin rec hrec => decide_eq_true (ha.hops hin rec hrec)
  have hpaths : SliceVar.Stable y.index.distPaths.slice y.index.records.distPaths q.AreaOnly
      (z.index.without (indexUpdate z.store a).gone).distPaths :=
    h.paths.compact fun hin rec hrec => decide_eq_true (ha.paths hin rec hrec)
  have hboth := stable_addAll hhops hpaths net growth (indexUpdate z.store a).heap (indexUpdate z.store a).come
  obtain ⟨hnext, hrows⟩ := rows_live z.store a
  refine ⟨hboth.1, hboth.2, ?_, h.next.trans hnext⟩
  intro r hr
  exact (hrows r (Nat.lt_of_lt_of_le hr h.next)).trans (h.rows r hr)

theorem mem_of_leads {R : Type} {tx : R → TxRef} {copy : Slice} {read : List R} {always : Prop} {σ : SliceVar R}
    (h : SliceVar.Stable copy read always σ) (halways : always) {r : TxRef} (hr : r ∈ read.map tx) :
    r ∈ σ.contents.map tx := List.map_subset tx (h.leads (.inr halways)).subset hr

theorem matched_eq (h : Readable q y z) {r : TxRef} (hlt : r < y.store.next)
    (hr : r ∈ y.index.records.distHops.map (·.tx) ++ y.index.records.distPaths.map (·.tx)) :
    matched (matchSet q (snapshot q y) z) r = q.passes (y.store.heap r) := by
  have hrow : z.store.row r = (y.store.heap r).toTxRow := h.rows r hlt
  obtain ⟨regionObs, areaNodes⟩ := q
  rw [matchSet, snapshot, Request.passes]
  cases regionObs with
  | none =>
      cases areaNodes with
      | none => rfl
      | some areaNodes =>
          have honly : Request.AreaOnly ⟨none, some areaNodes⟩ := ⟨rfl, Option.some_ne_none _⟩
          have hlive : r ∈ z.index.records.distHops.map (·.tx) ++ z.index.records.distPaths.map (·.tx) := by
            rcases List.mem_append.mp hr with hr | hr
            · exact List.mem_append_left _ (mem_of_leads h.hops honly hr)
            · exact List.mem_append_right _ (mem_of_leads h.paths honly hr)
          rw [Bool.eq_iff_iff]
          simp [matched, mem_matching, hlive, hrow]
  | some regionObs =>
      cases areaNodes with
      | none =>
          rw [Bool.eq_iff_iff]
          simp [matched, mem_matching, hr]
      | some areaNodes =>
          rw [Bool.eq_iff_iff]
          simp [matched, mem_matching, hr, hrow]

/-- The records that are aggregated are those of the snapshot that are asked for, if the
steps in between spare them. -/
theorem aggregated_eq_selected {use : Bool} (hy : y.Valid use) (q : Request) {acts : List LiveAction}
    (hacts : Along (SharedStore.live net growth) (Spared q y) y acts) :
    aggregated q (snapshot q y) (y.run net growth acts) = selected q y := by
  have h : Readable q y (y.run net growth acts) :=
    hacts.foldl_invariant (readable_self q y) fun z a hz ha => hz.live ha
  have hhops : ∀ rec ∈ y.index.records.distHops,
      matched (matchSet q (snapshot q y) (y.run net growth acts)) rec.tx = q.passes (y.store.heap rec.tx) :=
    fun rec hrec => matched_eq h (hy.hops rec hrec) (List.mem_append_left _ (List.mem_map_of_mem hrec))
  have hpaths : ∀ rec ∈ y.index.records.distPaths,
      matched (matchSet q (snapshot q y) (y.run net growth acts)) rec.tx = q.passes (y.store.heap rec.tx) :=
    fun rec hrec => matched_eq h (hy.paths rec hrec) (List.mem_append_right _ (List.mem_map_of_mem hrec))
  have hreadHops : (y.run net growth acts).index.distHops.readAt (snapshot q y).hopsSnap =
      y.index.records.distHops := h.hops.reads
  have hreadPaths : (y.run net growth acts).index.distPaths.readAt (snapshot q y).pathsSnap =
      y.index.records.distPaths := h.paths.reads
  rw [aggregated, selected]
  rw [hreadHops, hreadPaths, List.filter_congr hhops, List.filter_congr hpaths]

theorem come_lt {s : Store} {loc : List TxRef} (hwf : s.catalog.WF loc) (a : LiveAction) :
    ∀ r ∈ (indexUpdate s a).come, r < (s.live a).next := by
  have hnext := (rows_live s a).1
  intro r hr
  cases a with
  | ingestNewFromDB env sinceID limit rows =>
      obtain ⟨b, hb, rfl⟩ := List.mem_map.mp (env.distOrder.mem_refs.mp hr)
      have hpackets :=
        (Broadcast.ingestRows hwf env (takeTxs (if limit ≤ 0 then 100 else limit) sinceID 0 rows)).mem b hb
      have hcat := catalog_ingestNewFromDB env sinceID limit rows s
      have hafter : (s.live (.ingestNewFromDB env sinceID limit rows)).catalog.WF loc := by
        change (s.ingestNewFromDB env sinceID limit rows).1.catalog.WF loc
        rw [hcat]
        exact foldl_invariant (I := fun c : Catalog => c.WF loc) hwf fun c row _ hc => hc.findOrInsert row.tx
      apply hafter.fresh
      apply List.mem_append_right
      change b.2 ∈ (finishIngest env _ _).packets
      rw [packets_of_catalog (catalog_finishIngest env _ _)]
      exact hpackets
  | ingestNewObservations env limit rows =>
      have hmem := (Updated.lateRows s env (rows.take (if limit ≤ 0 then 500 else limit).toNat)).mem
        (catalog_lateRows env _ (s, []) ▸ hwf) r (env.distOrder.mem_refs.mp (List.mem_filter.mp hr).1)
      rw [packets_of_catalog (catalog_lateRows env _ (s, []))] at hmem
      exact Nat.lt_of_lt_of_le (hwf.fresh r hmem) hnext
  | evict ret rpBatch => cases hr

theorem SharedStore.Valid.live {use : Bool} (h : y.Valid use) (net : Network) (growth : Growth) (a : LiveAction) :
    (y.live net growth a).Valid use := by
  obtain ⟨st, hst, hstore⟩ := h.reachable
  have hcome := come_lt (hstore ▸ hst.wf.catalog) a
  have hnext := (rows_live y.store a).1
  have hrecords : (y.live net growth a).index.records =
      (y.index.records.without (indexUpdate y.store a).gone).addAll net (indexUpdate y.store a).heap
        (indexUpdate y.store a).come := by
    rw [SharedStore.live]
    dsimp only
    rw [SharedIndex.records_addAll, SharedIndex.records_without]
  rw [addAll_eq] at hrecords
  refine ⟨⟨st.step a.toAction, hst.step (st.enabled_toAction a), ?_⟩, ?_, ?_⟩
  · rw [State.step_toAction, hstore]
    rfl
  · rw [hrecords]
    intro rec hrec
    rcases List.mem_append.mp hrec with hrec | hrec
    · exact Nat.lt_of_lt_of_le (h.hops rec (List.mem_filter.mp hrec).1) hnext
    · obtain ⟨r, hr, hrec⟩ := List.mem_flatMap.mp hrec
      rw [tx_of_hopsOf r rec hrec]
      exact hcome r hr
  · rw [hrecords]
    intro rec hrec
    rcases List.mem_append.mp hrec with hrec | hrec
    · exact Nat.lt_of_lt_of_le (h.paths rec (List.mem_filter.mp hrec).1) hnext
    · obtain ⟨r, hr, hrec⟩ := List.mem_flatMap.mp hrec
      rw [tx_of_pathsOf r rec hrec]
      exact hcome r hr

end Runs

def heardTwice : List LiveAction :=
  [.ingestNewFromDB (plainEnv none) 0 100
    [heardRow (plainTx 1 "h1" "2026-01-01T00:00:00Z" 2) 1 "obs1" "[\"aa\",\"bb\"]",
      heardRow (plainTx 2 "h2" "2026-03-01T00:00:00Z" 2) 2 "obs1" "[\"aa\",\"bb\"]"]]

def doubling : Growth := fun old _ => 2 * old

def twoHops : SharedStore := (SharedStore.unbuilt (Store.new true)).run twoRepeaters doubling heardTwice

theorem valid_twoHops : twoHops.Valid true :=
  SharedStore.Valid.live (SharedStore.valid_unbuilt (.start rfl)) twoRepeaters doubling _

def heardAgain : List LiveAction :=
  [.ingestNewFromDB (plainEnv none) 2 100
    [heardRow (plainTx 3 "h3" "2026-03-02T00:00:00Z" 2) 3 "obs1" "[\"aa\",\"bb\"]"]]

theorem aggregated_eq_selected_heardAgain :
    aggregated ⟨none, none⟩ (snapshot ⟨none, none⟩ twoHops) (twoHops.run twoRepeaters doubling heardAgain) =
      selected ⟨none, none⟩ twoHops := by
  have hacts : Along (SharedStore.live twoRepeaters doubling) (Spared ⟨none, none⟩ twoHops) twoHops heardAgain :=
    ⟨⟨fun _ _ _ => List.not_mem_nil, fun _ _ _ => List.not_mem_nil⟩, trivial⟩
  exact aggregated_eq_selected valid_twoHops ⟨none, none⟩ hacts

/-- The eviction moves the second record over the first. -/
theorem eviction_read_twice : ¬ ∀ (use : Bool) (net : Network) (growth : Growth) (y : SharedStore) (q : Request)
    (acts : List LiveAction), y.Valid use →
      aggregated q (snapshot q y) (y.run net growth acts) = selected q y := by
  intro h
  have heq := h true twoRepeaters doubling twoHops ⟨none, none⟩
    [.evict ⟨some "2026-02-01T00:00:00Z", 0⟩ fun _ => []] valid_twoHops
  have htxs := congrArg (fun ix : DistanceIndex => ix.distHops.map (·.tx)) heq
  exact absurd htxs (by decide +kernel)

end MeshcoreAnalyzer.PacketStore.Distances

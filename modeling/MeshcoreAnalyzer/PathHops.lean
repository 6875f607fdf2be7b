import MeshcoreAnalyzer.LiveRows
import MeshcoreAnalyzer.Relays
import MeshcoreAnalyzer.Rows

namespace MeshcoreAnalyzer.PacketStore

open Maps Runs

namespace Store

@[simp] theorem byPathHop_pickBest (s : Store) (r : TxRef) : (s.pickBest r).byPathHop = s.byPathHop := rfl

@[simp] theorem byPathHop_addAllToByNode (s : Store) (r : TxRef) (pks : List String) :
    (s.addAllToByNode r pks).byPathHop = s.byPathHop := rfl

@[simp] theorem byPathHop_attachObs (s : Store) (r : TxRef) (obs : StoreObs) :
    (s.attachObs r obs).byPathHop = s.byPathHop := rfl

@[simp] theorem byPathHop_insertTx (s : Store) (tx : TxRow) : (s.insertTx tx).byPathHop = s.byPathHop := rfl

@[simp] theorem byPathHop_addDistances (env : Env) (s : Store) (r : TxRef) :
    (s.addDistances env r).byPathHop = s.byPathHop := rfl

@[simp] theorem byPathHop_dropSubpaths (s : Store) (hops : List String) (r : TxRef) :
    (s.dropSubpaths hops r).byPathHop = s.byPathHop := by
  rw [dropSubpaths]
  split <;> rfl

@[simp] theorem byPathHop_updateDistanceIndexForTxs (env : Env) (s : Store) (txs : List TxRef) :
    (s.updateDistanceIndexForTxs env txs).byPathHop = s.byPathHop :=
  foldl_view fun t r _ => byPathHop_addDistances env t r

@[simp] theorem byPathHop_pickAll (s : Store) (rs : List TxRef) :
    (rs.foldl pickBest s).byPathHop = s.byPathHop := foldl_view fun t r _ => byPathHop_pickBest t r

@[simp] theorem byPathHop_addAllDistances (env : Env) (s : Store) (rs : List TxRef) :
    (rs.foldl (addDistances env) s).byPathHop = s.byPathHop := foldl_view fun t r _ => byPathHop_addDistances env t r

@[simp] theorem byPathHop_buildDistanceIndex (env : Env) (s : Store) :
    (s.buildDistanceIndex env).byPathHop = s.byPathHop := byPathHop_addAllDistances env _ s.packets

theorem byPathHop_readRow (relayPM : Option PrefixMap) (acc : Store × Chunk) (row : ScanRow) :
    (readRow relayPM acc row).1.byPathHop = acc.1.byPathHop := by
  have hfound : (acc.1.findOrNewLocal acc.2 row.tx).1.1.byPathHop = acc.1.byPathHop := by
    rw [findOrNewLocal]
    split <;> rfl
  unfold readRow
  dsimp only
  split
  · exact hfound
  · rw [localObs]
    split
    · exact hfound
    · exact hfound

theorem byPathHop_readChunk (relayPM : Option PrefixMap) (rows : List ScanRow) (s : Store) :
    (s.readChunk relayPM rows).1.byPathHop = s.byPathHop := by
  rw [readChunk]
  dsimp only
  rw [byPathHop_pickAll]
  exact foldl_view (v := fun acc : Store × Chunk => acc.1.byPathHop) fun acc row _ => byPathHop_readRow relayPM acc row

theorem byPathHop_indexResolvedPathHops (s : Store) (r : TxRef) (pks : List String) :
    (s.indexResolvedPathHops r pks).byPathHop = pushAll s.byPathHop (resolvedHopKeys (s.path r) pks) r := by
  rw [indexResolvedPathHops]
  split
  · next h =>
      subst h
      rfl
  · rfl

def storedHopKeys (o : ObsRow) : List String :=
  if o.resolvedPath ≠ "" then extractResolvedPubkeys (unmarshalResolvedPath o.resolvedPath) else []

theorem byPathHop_indexLiveHops (env : Env) (s : Store) (r : TxRef) (o : ObsRow) :
    (s.indexLiveHops env r o).byPathHop =
      pushAll s.byPathHop (resolvedHopKeys (s.path r) (liveHopKeys env (s.row r) o)) r := by
  rw [indexLiveHops, liveHopKeys]
  split
  · cases env.pm with
    | some pm => exact byPathHop_indexResolvedPathHops s r _
    | none => rfl
  · rfl

theorem byPathHop_indexLoadedHops (relayPM : Option PrefixMap) (s : Store) (r : TxRef) (o : ObsRow) :
    (s.indexLoadedHops relayPM r o).byPathHop =
      pushAll s.byPathHop (resolvedHopKeys (s.path r) (storedHopKeys o)) r := by
  unfold indexLoadedHops storedHopKeys
  split
  · exact byPathHop_indexResolvedPathHops s r _
  · split
    · split <;> rfl
    · rfl

theorem byPathHop_addPaths (s : Store) (r : TxRef) :
    (s.addPaths r).byPathHop = pushAll s.byPathHop (pathHopKeys (s.path r)) r := rfl

theorem byPathHop_mergeTx (c : Chunk) (s : Store) (r : TxRef) : (mergeTx c s r).byPathHop =
    pushAll s.byPathHop (resolvedHopKeys (s.path r) (bucket c.resolvedPKs (s.row r).id)) r :=
  byPathHop_indexResolvedPathHops _ r _

theorem mem_bucket_removeAll {p : TxRef → Bool} {m : GoMap String (List TxRef)} {keys : List String} {k : String}
    {r : TxRef} (h : r ∈ bucket (removeAll p m keys) k) : r ∈ bucket m k := by
  induction keys generalizing m with
  | nil => exact h
  | cons a keys ih =>
      have hrest := ih h
      rw [bucket_removeFirst] at hrest
      split at hrest
      · next hk => exact hk ▸ List.mem_of_mem_eraseP hrest
      · exact hrest

theorem mem_bucket_dropPathHops {s : Store} {hops : List String} {r q : TxRef} {k : String}
    (h : q ∈ bucket (s.dropPathHops hops r).byPathHop k) : q ∈ bucket s.byPathHop k := by
  unfold dropPathHops at h
  split at h
  · exact mem_bucket_removeAll h
  · exact h

end Store

def HopsLive (loc : List TxRef) (s : Store) : Prop := ∀ k, ∀ r ∈ bucket s.byPathHop k, r ∈ loc ++ s.packets

section HopsLive

variable {loc : List TxRef} {s : Store}

theorem HopsLive.pushAll {t : Store} (h : HopsLive loc s) {keys : List String} {r : TxRef}
    (hr : r ∈ loc ++ s.packets) (hidx : t.byPathHop = pushAll s.byPathHop keys r)
    (hpackets : t.packets = s.packets) : HopsLive loc t := by
  intro k q hq
  rw [hpackets]
  rw [hidx] at hq
  rcases mem_bucket_pushAll.mp hq with hq | ⟨_, rfl⟩
  · exact h k q hq
  · exact hr

theorem HopsLive.congr {t : Store} (h : HopsLive loc s) (hidx : t.byPathHop = s.byPathHop)
    (hpackets : t.packets = s.packets) : HopsLive loc t := by
  intro k q hq
  rw [hidx] at hq
  rw [hpackets]
  exact h k q hq

theorem HopsLive.insertTx (h : HopsLive loc s) (tx : TxRow) : HopsLive loc (s.insertTx tx) := by
  intro k q hq
  change q ∈ loc ++ (s.packets ++ [s.next])
  rw [← List.append_assoc]
  exact List.mem_append_left _ (h k q hq)

theorem HopsLive.mergeRows (h : HopsLive loc s) (hwf : s.catalog.WF loc)
    {index : Store → TxRef → ObsRow → Store} (hcat : ∀ s r o, (index s r o).catalog = s.catalog)
    (hindex : ∀ s r o, ∃ keys, (index s r o).byPathHop = Maps.pushAll s.byPathHop keys r) (rows : List ScanRow) :
    HopsLive loc (rows.foldl (Store.mergeRow index) s) := by
  refine Store.mergeRows_invariant (P := HopsLive loc) hcat (fun _ tx _ _ ht => ht.insertTx tx) ?_ hwf h rows
  intro t r o _ hr _ ht
  obtain ⟨keys, hkeys⟩ := hindex t r o
  exact (ht.pushAll hr hkeys (Store.packets_of_catalog (hcat t r o))).congr rfl rfl

theorem HopsLive.addPaths_all (h : HopsLive loc s) {rs : List TxRef} (hrs : ∀ r ∈ rs, r ∈ loc ++ s.packets) :
    HopsLive loc (rs.foldl Store.addPaths s) := by
  have hboth : (rs.foldl Store.addPaths s).packets = s.packets ∧ HopsLive loc (rs.foldl Store.addPaths s) :=
    foldl_invariant (I := fun t : Store => t.packets = s.packets ∧ HopsLive loc t) ⟨rfl, h⟩ fun t r hr ht =>
      ⟨ht.1, ht.2.pushAll (ht.1 ▸ hrs r hr) (Store.byPathHop_addPaths t r) rfl⟩
  exact hboth.2

theorem HopsLive.finishIngest (h : HopsLive loc s) (env : Env) {txs : List (Int × TxRef)}
    (hb : Store.Broadcast s txs) : HopsLive loc (s.finishIngest env txs) := by
  have hpicked : HopsLive loc ((env.pickOrder.refs txs).foldl Store.pickBest s) :=
    h.congr (Store.byPathHop_pickAll s _) (Store.packets_of_catalog (Store.catalog_pickAll s _))
  have hadded : HopsLive loc ((env.indexOrder.refs txs).foldl Store.addPaths _) := hpicked.addPaths_all fun r hr => by
    rw [Store.packets_of_catalog (Store.catalog_pickAll s _)]
    obtain ⟨b, hbm, rfl⟩ := List.mem_map.mp ((env.indexOrder.mem_refs).mp hr)
    exact List.mem_append_right _ (hb.mem b hbm)
  refine hadded.congr (Store.byPathHop_addAllDistances env _ _) ?_
  exact Store.packets_of_catalog (foldl_view (v := Store.catalog) fun t r _ => Store.catalog_addDistances env t r)

theorem HopsLive.repath (h : HopsLive loc s) (oldPath : TxRef → String) {r : TxRef} (hr : r ∈ loc ++ s.packets) :
    HopsLive loc (s.repath oldPath r) := by
  rw [Store.repath]
  split
  · have hpackets : ((s.dropSubpaths (parsePathJSON (oldPath r)) r).dropPathHops (parsePathJSON (oldPath r)) r).packets =
        s.packets := by
      have hcat := (Store.catalog_dropPathHops (s.dropSubpaths (parsePathJSON (oldPath r)) r)
        (parsePathJSON (oldPath r)) r).trans (Store.catalog_dropSubpaths s (parsePathJSON (oldPath r)) r)
      exact Store.packets_of_catalog hcat
    have hdropped : HopsLive loc ((s.dropSubpaths (parsePathJSON (oldPath r)) r).dropPathHops
        (parsePathJSON (oldPath r)) r) := by
      intro k q hq
      rw [hpackets]
      apply h k q
      have hmem := Store.mem_bucket_dropPathHops hq
      rwa [Store.byPathHop_dropSubpaths] at hmem
    exact hdropped.pushAll (hpackets ▸ hr) (Store.byPathHop_addPaths _ r) rfl
  · exact h

theorem HopsLive.finishObservations (h : HopsLive loc s) (hwf : s.catalog.WF loc) (env : Env)
    {txs : List (Int × TxRef)} (hu : Store.Updated s txs) : HopsLive loc (s.finishObservations env txs) := by
  have hpackets := Store.packets_of_catalog (Store.catalog_pickAll s (env.pickOrder.refs txs))
  have hpicked : HopsLive loc ((env.pickOrder.refs txs).foldl Store.pickBest s) :=
    h.congr (Store.byPathHop_pickAll s _) hpackets
  let repathed := (env.indexOrder.refs txs).foldl (Store.repath fun r => (s.heap r).pathJSON)
    ((env.pickOrder.refs txs).foldl Store.pickBest s)
  have hboth : repathed.packets = s.packets ∧ HopsLive loc repathed :=
    foldl_invariant (I := fun t : Store => t.packets = s.packets ∧ HopsLive loc t) ⟨hpackets, hpicked⟩
    fun t r hr ht => by
      have hmem := hu.mem hwf r ((env.indexOrder.mem_refs).mp hr)
      rw [← ht.1] at hmem
      exact ⟨(Store.packets_of_catalog (Store.catalog_repath _ t r)).trans ht.1, ht.2.repath _ hmem⟩
  unfold Store.finishObservations
  dsimp only
  split
  · exact hboth.2
  · exact hboth.2.congr (Store.byPathHop_updateDistanceIndexForTxs env _ _)
      (Store.packets_of_catalog (Store.catalog_updateDistanceIndexForTxs env _ _))

theorem HopsLive.buildPathHopIndex (loc : List TxRef) (s : Store) : HopsLive loc s.buildPathHopIndex := by
  have hraw : ∀ k, ∀ r ∈ bucket (s.packets.foldl (fun idx r => addTxToPathHopIndex idx (s.path r) r) Maps.empty) k,
      r ∈ s.packets := by
    refine foldl_invariant (I := fun m : GoMap String (List TxRef) => ∀ k, ∀ r ∈ bucket m k, r ∈ s.packets) ?_ ?_
    · intro k r hr
      rw [bucket_empty] at hr
      cases hr
    · intro m q hq hm k r hr
      rcases mem_bucket_pushAll.mp hr with hr | ⟨_, rfl⟩
      · exact hm k r hr
      · exact hq
  intro k r hr
  replace hr : r ∈ bucket (retainResolvedPathHops _ _ _) k := hr
  rw [bucket_retainResolvedPathHops, List.mem_append] at hr
  apply List.mem_append_right
  rcases hr with hr | hr
  · exact hraw k r hr
  · unfold retained at hr
    rw [List.mem_eraseDups] at hr
    have hp := (List.mem_filter.mp hr).2
    rw [Bool.and_eq_true, decide_eq_true_eq] at hp
    exact hp.1

theorem HopsLive.evict (h : HopsLive loc s) (rpBatch : Int → List String) (n : Nat) :
    HopsLive loc (s.evict rpBatch n) := by
  intro k r hr
  replace hr : r ∈ bucket (filterKeys (fun _ => true)
    (fun t => (s.row t).id ∉ (s.packets.take n).map fun r => (s.row r).id) s.byPathHop) k := hr
  rw [bucket_filterKeys, if_pos rfl] at hr
  obtain ⟨hr, hid⟩ := List.mem_filter.mp hr
  rcases Catalog.mem_evicted_or (c := s.catalog) (n := n) (h k r hr) with he | hk
  · exact absurd (List.mem_map_of_mem he) (of_decide_eq_true hid)
  · exact hk

theorem HopsLive.evictStaleInternal (h : HopsLive loc s) (ret : Retention) (rpBatch : Int → List String) :
    HopsLive loc (s.evictStaleInternal ret rpBatch) := by
  rw [Store.evictStaleInternal]
  split
  · exact h
  · split
    · exact h
    · exact h.evict rpBatch _

theorem HopsLive.mergeBatch {c : Chunk} (h : HopsLive c.packets s) (hpending : c.pending ⊆ c.packets) :
    HopsLive c.packets (s.mergeBatch c).1 := by
  have hboth : (s.mergeBatch c).1.packets = s.packets ∧ HopsLive c.packets (s.mergeBatch c).1 :=
    foldl_invariant (I := fun t : Store => t.packets = s.packets ∧ HopsLive c.packets t)
    (s := s.mergePrimary (c.pending.take Store.mergeBatchSize)) ⟨rfl, h.congr rfl rfl⟩ fun t r hr ht => by
      have hmem : r ∈ c.packets ++ t.packets :=
        List.mem_append_left _ (hpending (List.mem_of_mem_take hr))
      have hpackets : (Store.mergeTx c t r).packets = t.packets :=
        (congrArg Catalog.packets (Store.catalog_mergeTx c t r)).trans rfl
      exact ⟨hpackets.trans ht.1, ht.2.pushAll hmem (Store.byPathHop_mergeTx c t r) hpackets⟩
  exact hboth.2

theorem HopsLive.step {st : State} (h : HopsLive st.locals st.store) (hwf : st.WF) {a : Action}
    (ha : st.Enabled a) : HopsLive (st.step a).locals (st.step a).store := by
  cases a with
  | scanAndMergeChunk relayPM rows =>
      exact h.mergeRows hwf.catalog (Store.catalog_indexLoadedHops relayPM)
        (fun t r o => ⟨_, Store.byPathHop_indexLoadedHops relayPM t r o⟩) rows
  | finishLoad env hotCutoff =>
      have hbuilt := HopsLive.buildPathHopIndex st.locals st.store.pickAndIndexAll.sortPackets.buildSubpathIndex
      have hdist := hbuilt.congr (Store.byPathHop_buildDistanceIndex env _)
        (Store.packets_of_catalog (Store.catalog_buildDistanceIndex env _))
      exact hdist.congr rfl rfl
  | ingestNewFromDB env sinceID limit rows =>
      have hrows := h.mergeRows hwf.catalog (Store.catalog_indexLiveHops env)
        (fun t r o => ⟨_, Store.byPathHop_indexLiveHops env t r o⟩) (Store.ingested sinceID limit rows)
      rw [← Store.ingestRows_fst env _ (st.store, [])] at hrows
      exact hrows.finishIngest env (Store.Broadcast.ingestRows hwf.catalog env _)
  | ingestNewObservations env limit rows =>
      have hlate : HopsLive st.locals ((Store.observed limit rows).foldl (Store.lateRow env) (st.store, [])).1 := by
        refine Store.lateRows_invariant (P := HopsLive st.locals) ?_ hwf.catalog h _
        intro t r o _ hr _ ht
        exact (ht.pushAll hr (Store.byPathHop_indexLiveHops env t r o)
          (Store.packets_of_catalog (Store.catalog_indexLiveHops env t r o))).congr rfl rfl
      refine hlate.finishObservations ?_ env (Store.Updated.lateRows st.store env _)
      rw [Store.catalog_lateRows]
      exact hwf.catalog
  | readChunk relayPM rows =>
      have hpackets : (st.store.readChunk relayPM rows).1.packets = st.store.packets :=
        congrArg Catalog.packets (extends_readChunk relayPM rows st.store).same
      have hlive : HopsLive [] (st.store.readChunk relayPM rows).1 := by
        rw [State.locals_of_none ha.2] at h
        exact h.congr (Store.byPathHop_readChunk relayPM rows st.store) hpackets
      exact fun k r hr => List.mem_append_right _ (hlive k r hr)
  | mergeBatch =>
      unfold State.step
      dsimp only
      split
      · next c hc =>
          rw [State.locals_of_some hc] at h
          exact h.mergeBatch (hwf.chunk c hc).pending.subset
      · exact h
  | publish =>
      unfold State.step
      dsimp only
      split
      · next c hc =>
          rw [State.locals_of_some hc] at h
          exact h
      · exact h
  | rebuild => exact HopsLive.buildPathHopIndex st.locals st.store.buildSubpathIndex
  | buildDistanceIndex env =>
      exact h.congr (Store.byPathHop_buildDistanceIndex env st.store)
        (Store.packets_of_catalog (Store.catalog_buildDistanceIndex env st.store))
  | evict ret rpBatch => exact h.evictStaleInternal ret rpBatch

end HopsLive

theorem hopsLive_of_reachable {use : Bool} {st : State} (h : Reachable use st) : HopsLive st.locals st.store := by
  have hstart : ∀ st : State, st = State.new use → st.WF ∧ HopsLive st.locals st.store := by
    rintro _ rfl
    refine ⟨State.wf_new use, fun k r hr => ?_⟩
    replace hr : r ∈ bucket (Maps.empty : GoMap String (List TxRef)) k := hr
    rw [bucket_empty] at hr
    cases hr
  have hboth := h.invariant (I := fun st => st.WF ∧ HopsLive st.locals st.store) hstart
    fun _ _ hst ha => ⟨hst.1.step ha, hst.2.step hst.1 ha⟩
  exact hboth.2

end MeshcoreAnalyzer.PacketStore

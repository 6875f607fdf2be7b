import MeshcoreAnalyzer.Distances
import MeshcoreAnalyzer.OwnedRecords

namespace MeshcoreAnalyzer.PacketStore.Distances

open Maps Runs Store OwnedRecords

variable {net : Network}

def distancesOf (net : Network) (r : TxRef) (tx : StoreTx) : List DistHopRecord × Option DistPathRecord :=
  if tx.txGetParsedPath = [] then ([], none)
  else recordsOf net r tx (tx.txGetParsedPath.map
    (net.resolveWithContext · (buildHopContextPubkeys net.pm tx)))

theorem computeDistancesForTx_fst (net : Network) (r : TxRef) (tx : StoreTx) (h : HopResolver) :
    (computeDistancesForTx net r tx (h.setContext (buildHopContextPubkeys net.pm tx))).1 = distancesOf net r tx := by
  rw [computeDistancesForTx, distancesOf]
  split
  · rfl
  · dsimp only
    rw [HopResolver.resolveHops_eq (HopResolver.current_setContext net h _)]
    rfl

theorem distancesOf_face {tx tx' : StoreTx} (r : TxRef) (h : tx'.face = tx.face) :
    distancesOf net r tx' = distancesOf net r tx := by
  have hrow : tx'.toTxRow = tx.toTxRow := congrArg Face.row h
  have hobserver : tx'.observerID = tx.observerID := congrArg Face.observerID h
  have hsnr : tx'.snr = tx.snr := congrArg Face.snr h
  have hrecord : hopRecord net r tx' = hopRecord net r tx := by
    funext leg
    unfold hopRecord
    rw [hrow, hsnr]
  have hpath : pathRecord r tx' = pathRecord r tx := by
    funext ls
    unfold pathRecord
    rw [hrow]
  unfold distancesOf recordsOf buildHopContextPubkeys
  rw [StoreTx.path_of_face h, hrow, hobserver, hrecord, hpath]

theorem distancesOf_pathless {tx : StoreTx} (r : TxRef) (h : tx.pathJSON = "") :
    distancesOf net r tx = ([], none) := by
  have hpath : tx.txGetParsedPath = [] := by
    rw [StoreTx.txGetParsedPath_eq, h, parsePathJSON_empty]
  exact if_pos hpath

variable (net) in
def hopsOf (heap : TxRef → StoreTx) (r : TxRef) : List DistHopRecord := (distancesOf net r (heap r)).1

variable (net) in
def pathsOf (heap : TxRef → StoreTx) (r : TxRef) : List DistPathRecord := (distancesOf net r (heap r)).2.toList

section Records

variable {heap heap' : TxRef → StoreTx} {r : TxRef}

theorem hopsOf_congr (h : distancesOf net r (heap' r) = distancesOf net r (heap r)) :
    hopsOf net heap' r = hopsOf net heap r := congrArg Prod.fst h

theorem pathsOf_congr (h : distancesOf net r (heap' r) = distancesOf net r (heap r)) :
    pathsOf net heap' r = pathsOf net heap r := congrArg (fun recs => recs.2.toList) h

theorem hopsOf_none (h : distancesOf net r (heap r) = ([], none)) : hopsOf net heap r = [] := congrArg Prod.fst h

theorem pathsOf_none (h : distancesOf net r (heap r) = ([], none)) : pathsOf net heap r = [] :=
  congrArg (fun recs => recs.2.toList) h

end Records

theorem distancesOf_cases (net : Network) (r : TxRef) (tx : StoreTx) : distancesOf net r tx = ([], none) ∨
    tx.txGetParsedPath ≠ [] ∧ ∃ ls, ls ≠ [] ∧
      distancesOf net r tx = (ls.map (hopRecord net r tx), some (pathRecord r tx ls)) := by
  unfold distancesOf recordsOf
  split
  · exact .inl rfl
  · next hpath =>
      dsimp only
      split
      · exact .inl rfl
      · next hls => exact .inr ⟨hpath, _, hls, rfl⟩

theorem tx_of_hopsOf {heap : TxRef → StoreTx} (r : TxRef) : ∀ rec ∈ hopsOf net heap r, rec.tx = r := by
  intro rec hrec
  unfold hopsOf at hrec
  rcases distancesOf_cases net r (heap r) with h | ⟨_, ls, _, h⟩
  · rw [h] at hrec
    cases hrec
  · rw [h] at hrec
    obtain ⟨leg, _, rfl⟩ := List.mem_map.mp hrec
    rfl

theorem tx_of_pathsOf {heap : TxRef → StoreTx} (r : TxRef) : ∀ rec ∈ pathsOf net heap r, rec.tx = r := by
  intro rec hrec
  unfold pathsOf at hrec
  rcases distancesOf_cases net r (heap r) with h | ⟨_, ls, _, h⟩
  · rw [h] at hrec
    cases hrec
  · rw [h] at hrec
    rw [List.mem_singleton.mp hrec]
    rfl

theorem addAll_eq (heap : TxRef → StoreTx) (ix : DistanceIndex) (rs : List TxRef) : ix.addAll net heap rs =
    ⟨ix.distHops ++ rs.flatMap (hopsOf net heap), ix.distPaths ++ rs.flatMap (pathsOf net heap)⟩ := by
  have hloop : ∀ acc : DistanceIndex × HopResolver, (rs.foldl (DistanceIndex.addTx net heap) acc).1 =
      ⟨acc.1.distHops ++ rs.flatMap (hopsOf net heap), acc.1.distPaths ++ rs.flatMap (pathsOf net heap)⟩ := by
    induction rs with
    | nil => simp
    | cons r rs ih =>
        intro acc
        rw [List.foldl_cons, ih]
        rw [DistanceIndex.addTx, DistanceIndex.append]
        dsimp only
        rw [computeDistancesForTx_fst, List.flatMap_cons, List.flatMap_cons, List.append_assoc, List.append_assoc]
        rfl
  exact hloop _

structure Holding (net : Network) (s : Store) (ix : DistanceIndex) : Prop where
  hops : Holds (hopsOf net s.heap) s.packets ix.distHops
  paths : Holds (pathsOf net s.heap) s.packets ix.distPaths

theorem holding_built (net : Network) (s : Store) : Holding net s (buildDistanceIndex net s) := by
  rw [buildDistanceIndex]
  rw [addAll_eq]
  exact ⟨holds_flatMap _ _, holds_flatMap _ _⟩

variable {s t : Store} {ix : DistanceIndex}

theorem Holding.congr (h : Holding net s ix) (hpackets : t.packets = s.packets)
    (hsame : ∀ r ∈ s.packets, distancesOf net r (t.heap r) = distancesOf net r (s.heap r)) : Holding net t ix := by
  constructor
  · rw [hpackets]
    exact h.hops.congr fun r hr => hopsOf_congr (hsame r hr)
  · rw [hpackets]
    exact h.paths.congr fun r hr => pathsOf_congr (hsame r hr)

theorem Holding.grows (h : Holding net s ix) (hg : s.Grows t) (hpackets : t.packets = s.packets) :
    Holding net t ix := h.congr hpackets fun r _ => distancesOf_face r (hg r).face

theorem Holding.insertTx {loc : List TxRef} (hwf : s.catalog.WF loc) (h : Holding net s ix) (tx : TxRow) :
    Holding net (s.insertTx tx) ix := by
  have hold : ∀ r ∈ s.packets, (s.insertTx tx).heap r = s.heap r := by
    intro r hr
    apply Function.update_of_ne
    rintro rfl
    exact hwf.next_notMem (List.mem_append_right loc hr)
  have hnew : distancesOf net s.next ((s.insertTx tx).heap s.next) = ([], none) := by
    apply distancesOf_pathless
    rw [pathJSON_insertTx, if_pos rfl]
  constructor
  · apply Holds.extend
    · exact h.hops.congr fun r hr => hopsOf_congr (by rw [hold r hr])
    · exact hopsOf_none hnew
  · apply Holds.extend
    · exact h.paths.congr fun r hr => pathsOf_congr (by rw [hold r hr])
    · exact pathsOf_none hnew

theorem Holding.addAll (h : Holding net s ix) (hnd : s.packets.Nodup) {rs : List TxRef} (hrs : rs.Nodup)
    (hsub : rs ⊆ s.packets) (hnone : ∀ r ∈ rs, distancesOf net r (s.heap r) = ([], none))
    (hpackets : t.packets = s.packets)
    (hsame : ∀ r ∈ s.packets, r ∉ rs → distancesOf net r (t.heap r) = distancesOf net r (s.heap r)) :
    Holding net t (ix.addAll net t.heap rs) := by
  rw [addAll_eq]
  constructor
  · rw [hpackets]
    apply h.hops.give hnd hrs hsub
    · exact fun r hr => hopsOf_none (hnone r hr)
    · exact fun r hr hnot => hopsOf_congr (hsame r hr hnot)
  · rw [hpackets]
    apply h.paths.give hnd hrs hsub
    · exact fun r hr => pathsOf_none (hnone r hr)
    · exact fun r hr hnot => pathsOf_congr (hsame r hr hnot)

theorem Holding.update (h : Holding net s ix) (hnd : s.packets.Nodup) {rs : List TxRef} (hrs : rs.Nodup)
    (hsub : rs ⊆ s.packets) (hpackets : t.packets = s.packets)
    (hsame : ∀ r ∈ s.packets, r ∉ rs → distancesOf net r (t.heap r) = distancesOf net r (s.heap r)) :
    Holding net t (ix.updateDistanceIndexForTxs net t.heap rs) := by
  rw [DistanceIndex.updateDistanceIndexForTxs]
  rw [addAll_eq]
  constructor
  · rw [hpackets]
    apply (h.hops.without tx_of_hopsOf rs).give hnd hrs hsub
    · exact fun r hr => if_pos hr
    · intro r hr hnot
      rw [if_neg hnot]
      exact hopsOf_congr (hsame r hr hnot)
  · rw [hpackets]
    apply (h.paths.without tx_of_pathsOf rs).give hnd hrs hsub
    · exact fun r hr => if_pos hr
    · intro r hr hnot
      rw [if_neg hnot]
      exact pathsOf_congr (hsame r hr hnot)

theorem distancesOf_pickBestObservation {tx : StoreTx} (r : TxRef) (h : tx.Shown)
    (hsame : tx.pickBestObservation.pathJSON = tx.pathJSON) :
    distancesOf net r tx.pickBestObservation = distancesOf net r tx := by
  by_cases hpath : tx.pathJSON = ""
  · rw [distancesOf_pathless r hpath, distancesOf_pathless r (hsame.trans hpath)]
  · exact distancesOf_face r (h.face_pickBestObservation hpath hsame)

variable {y : IndexedStore} {loc : List TxRef}

theorem Holding.attachObs (h : Holding net s ix) {index : Store → TxRef → ObsRow → Store}
    (hindex : ∀ (s : Store) r o, s.Grows (index s r o)) (hcat : ∀ s r o, (index s r o).catalog = s.catalog)
    (r : TxRef) (o : ObsRow) : Holding net ((index s r o).attachObs r o.toObs) ix := by
  apply h.grows ((hindex s r o).trans (grows_attachObs _ _ _))
  exact packets_of_catalog ((catalog_attachObs _ _ _).trans (hcat s r o))

theorem holding_ingestNewFromDB (hwf : y.store.catalog.WF loc) (h : Holding net y.store y.index) (env : Env)
    (sinceID limit : Int) (rows : List ScanRow) :
    Holding net (y.ingestNewFromDB net env sinceID limit rows).store
      (y.ingestNewFromDB net env sinceID limit rows).index := by
  let tempRows := takeTxs (if limit ≤ 0 then 100 else limit) sinceID 0 rows
  let acc := tempRows.foldl (ingestRow env) (y.store, [])
  let picked := (env.pickOrder.refs acc.2).foldl pickBest acc.1
  have hb : Broadcast acc.1 acc.2 := Broadcast.ingestRows hwf env tempRows
  have hrows : Holding net acc.1 y.index := by
    change Holding net (tempRows.foldl (ingestRow env) (y.store, [])).1 y.index
    rw [ingestRows_fst]
    exact mergeRows_invariant (P := fun t => Holding net t y.index) (catalog_indexLiveHops env)
      (fun t tx hwf _ ht => ht.insertTx hwf tx)
      (fun t r o _ _ _ ht => ht.attachObs (grows_indexLiveHops env) (catalog_indexLiveHops env) r o) hwf h _
  have hwf' : acc.1.catalog.WF loc := by
    change (tempRows.foldl (ingestRow env) (y.store, [])).1.catalog.WF loc
    rw [ingestRows_fst]
    exact wf_mergeRows (catalog_indexLiveHops env) hwf tempRows
  have hgrows : picked.Grows ((env.indexOrder.refs acc.2).foldl addPaths picked) :=
    grows_foldl grows_addPaths _ _
  have hheap : (y.ingestNewFromDB net env sinceID limit rows).store.heap =
      ((env.indexOrder.refs acc.2).foldl addPaths picked).heap := heap_addDistances_all env _ _
  have hpackets : (y.ingestNewFromDB net env sinceID limit rows).store.packets = acc.1.packets :=
    packets_of_catalog (catalog_finishIngest env acc.1 acc.2)
  change Holding net _ (y.index.addAll net ((env.indexOrder.refs acc.2).foldl addPaths picked).heap
    (env.distOrder.refs acc.2))
  rw [← hheap]
  apply hrows.addAll (List.nodup_append.mp hwf'.nodup).2.1 (env.distOrder.nodup_refs hb.nodup)
  · intro r hr
    obtain ⟨b, hbm, rfl⟩ := List.mem_map.mp (env.distOrder.mem_refs.mp hr)
    exact hb.mem b hbm
  · intro r hr
    obtain ⟨b, hbm, rfl⟩ := List.mem_map.mp (env.distOrder.mem_refs.mp hr)
    exact distancesOf_pathless b.2 (hb.pathless b hbm)
  · exact hpackets
  · intro r _ hr
    have hnot : r ∉ env.pickOrder.refs acc.2 := fun hm =>
      hr (env.distOrder.mem_refs.mpr (env.pickOrder.mem_refs.mp hm))
    rw [hheap, distancesOf_face r (hgrows r).face, heap_pickAll_of_notMem _ hnot]

/-- Every observation of the step is of a packet, or of no transmission in the store. -/
def OfPackets (s : Store) : LiveAction → Prop
  | .ingestNewObservations _ _ rows => ∀ o ∈ rows, ∀ r ∈ s.byTxID o.txID, r ∈ s.packets
  | _ => True

theorem lateRows_named (env : Env) (s : Store) (rows : List ObsRow) :
    ∀ b ∈ (rows.foldl (lateRow env) (s, [])).2, ∃ o ∈ rows, o.txID = b.1 := by
  apply foldl_invariant (I := fun acc : Store × List (Int × TxRef) => ∀ b ∈ acc.2, ∃ o ∈ rows, o.txID = b.1)
  · intro b hb
    cases hb
  · intro acc o ho hacc
    rw [lateRow]
    split
    · exact hacc
    · split
      · exact hacc
      · split
        · exact hacc
        · dsimp only
          split
          · exact hacc
          · intro b hb
            rcases List.mem_append.mp hb with hb | hb
            · exact hacc b hb
            · rw [List.mem_singleton.mp hb]
              exact ⟨o, ho, rfl⟩

theorem holding_ingestNewObservations (hwf : y.store.catalog.WF loc) (hshown : y.store.AllShown)
    (h : Holding net y.store y.index) (env : Env) (limit : Int) (rows : List ObsRow)
    (hof : OfPackets y.store (.ingestNewObservations env limit rows)) :
    Holding net (y.ingestNewObservations net env limit rows).store
      (y.ingestNewObservations net env limit rows).index := by
  let obsRows := rows.take (if limit ≤ 0 then 500 else limit).toNat
  let acc := obsRows.foldl (lateRow env) (y.store, [])
  let oldPath := fun r => (acc.1.heap r).pathJSON
  let picked := (env.pickOrder.refs acc.2).foldl pickBest acc.1
  let s := (env.indexOrder.refs acc.2).foldl (repath oldPath) picked
  let changedTxs := (env.distOrder.refs acc.2).filter (s.pathChanged oldPath)
  have hcat : acc.1.catalog = y.store.catalog := catalog_lateRows env obsRows _
  have hu : Updated acc.1 acc.2 := Updated.lateRows y.store env obsRows
  have hwf' : acc.1.catalog.WF loc := hcat ▸ hwf
  have hrows : Holding net acc.1 y.index :=
    lateRows_invariant (P := fun t => Holding net t y.index)
      (fun t r o _ _ _ ht => ht.attachObs (grows_indexLiveHops env) (catalog_indexLiveHops env) r o) hwf h _
  have hshown' : acc.1.AllShown :=
    foldl_invariant (I := fun acc : Store × List (Int × TxRef) => acc.1.AllShown) hshown
      fun _ o _ hacc => hacc.lateRow env o
  have hmem : ∀ r ∈ acc.2.map Prod.snd, r ∈ acc.1.packets := by
    intro r hr
    obtain ⟨b, hb, rfl⟩ := List.mem_map.mp hr
    obtain ⟨o, ho, hid⟩ := lateRows_named env y.store obsRows b hb
    have hfiled : y.store.byTxID b.1 = some b.2 := byTxID_of_catalog hcat ▸ hu.byTxID b hb
    rw [packets_of_catalog hcat]
    exact hof o (List.mem_of_mem_take ho) b.2 (hid ▸ hfiled)
  have hgrows : picked.Grows s := grows_foldl (grows_repath oldPath) _ _
  have hheap : (y.ingestNewObservations net env limit rows).store.heap = s.heap := by
    change (finishObservations env acc.1 acc.2).heap = s.heap
    unfold finishObservations
    dsimp only
    split
    · rfl
    · exact heap_addDistances_all env _ _
  have hpackets : (y.ingestNewObservations net env limit rows).store.packets = acc.1.packets :=
    packets_of_catalog (catalog_finishObservations env acc.1 acc.2)
  -- A transmission that is not re-picked, or that is re-picked to the same path, keeps its records.
  have hsame : ∀ r ∈ acc.1.packets, r ∉ changedTxs →
      distancesOf net r (s.heap r) = distancesOf net r (acc.1.heap r) := by
    intro r _ hr
    rw [distancesOf_face r (hgrows r).face]
    by_cases hpicked : r ∈ acc.2.map Prod.snd
    · have hpick := heap_pickAll_of_mem (env.pickOrder.nodup_refs (hu.nodup hwf')) acc.1
        (env.pickOrder.mem_refs.mpr hpicked)
      have hpath : (s.heap r).pathJSON = (acc.1.heap r).pathJSON := by
        by_contra hne
        exact hr (List.mem_filter.mpr ⟨env.distOrder.mem_refs.mpr hpicked, decide_eq_true hne⟩)
      have hpath' : (picked.heap r).pathJSON = (acc.1.heap r).pathJSON :=
        (congrArg Face.pathJSON (hgrows r).face).symm.trans hpath
      rw [hpick] at hpath' ⊢
      exact distancesOf_pickBestObservation r (hshown' r) hpath'
    · rw [heap_pickAll_of_notMem _ (mt env.pickOrder.mem_refs.mp hpicked)]
  change Holding net _ (if changedTxs = [] then y.index else y.index.updateDistanceIndexForTxs net s.heap changedTxs)
  split
  · next hnone =>
      apply hrows.congr hpackets
      intro r hr
      rw [hheap]
      exact hsame r hr (hnone ▸ List.not_mem_nil)
  · rw [← hheap] at hsame ⊢
    apply hrows.update (List.nodup_append.mp hwf'.nodup).2.1
    · exact (env.distOrder.nodup_refs (hu.nodup hwf')).filter _
    · intro r hr
      exact hmem r (env.distOrder.mem_refs.mp (List.mem_filter.mp hr).1)
    · exact hpackets
    · exact hsame

theorem Holding.without (h : Holding net s ix) (hwf : s.catalog.WF loc) {gone rest : List TxRef}
    (hsplit : s.packets = gone ++ rest) (hg : s.Grows t) (hpackets : t.packets = rest) :
    Holding net t (ix.without gone) := by
  have hnd : (gone ++ rest).Nodup := hsplit ▸ (List.nodup_append.mp hwf.nodup).2.1
  constructor
  · rw [hpackets]
    exact ((hsplit ▸ h.hops.without tx_of_hopsOf gone).drop hnd).congr fun r _ =>
      hopsOf_congr (distancesOf_face r (hg r).face)
  · rw [hpackets]
    exact ((hsplit ▸ h.paths.without tx_of_pathsOf gone).drop hnd).congr fun r _ =>
      pathsOf_congr (distancesOf_face r (hg r).face)

theorem holding_evict (hwf : y.store.catalog.WF loc) (h : Holding net y.store y.index) (ret : Retention)
    (rpBatch : Int → List String) :
    Holding net (y.evictStaleInternal ret rpBatch).store (y.evictStaleInternal ret rpBatch).index := by
  rw [IndexedStore.evictStaleInternal, Store.evictStaleInternal, evicting]
  dsimp only
  split
  · exact h.without hwf (List.nil_append _).symm (Grows.refl _) rfl
  · split
    · next hzero =>
        rw [hzero]
        exact h.without hwf (List.nil_append _).symm (Grows.refl _) rfl
    · exact h.without hwf (List.take_append_drop _ _).symm (grows_evict _ rpBatch _) rfl

structure Points (y : IndexedStore) : Prop where
  hops : y.store.distHops = y.index.distHops.map (·.tx)
  paths : y.store.distPaths = y.index.distPaths.map (·.tx)

/-- The surroundings count the records that the network gives. -/
def Figures (net : Network) (env : Env) : Prop := ∀ r tx, env.hopRecords tx = (distancesOf net r tx).1.length

theorem computeDistancesForTx_pointers {env : Env} (hfig : Figures net env) (r : TxRef) (tx : StoreTx) :
    PacketStore.computeDistancesForTx env r tx =
      ((distancesOf net r tx).1.map (·.tx), (distancesOf net r tx).2.toList.map (·.tx)) := by
  have hcount := hfig r tx
  rw [PacketStore.computeDistancesForTx]
  rcases distancesOf_cases net r tx with h | ⟨hpath, ls, hls, h⟩
  · rw [h] at hcount ⊢
    rw [if_pos (.inr hcount)]
    rfl
  · rw [h] at hcount ⊢
    have hsome : ¬(tx.txGetParsedPath = [] ∨ env.hopRecords tx = 0) := by
      rw [not_or, hcount, List.length_map, List.length_eq_zero_iff]
      exact ⟨hpath, hls⟩
    have hsame : ls.map (fun leg => (hopRecord net r tx leg).tx) = List.replicate ls.length r :=
      List.map_const'
    rw [if_neg hsome, hcount, List.length_map, List.map_map]
    exact Prod.ext hsame.symm rfl

theorem pointers_addAll {env : Env} (hfig : Figures net env) (rs : List TxRef) {y : IndexedStore} (h : Points y) :
    Points ⟨rs.foldl (addDistances env) y.store, y.index.addAll net y.store.heap rs⟩ := by
  rw [addAll_eq]
  induction rs using List.reverseRecOn with
  | nil =>
      rw [List.flatMap_nil, List.flatMap_nil, List.append_nil, List.append_nil]
      exact h
  | append_singleton rs r ih =>
      have hheap := heap_addDistances_all env rs y.store
      have hrecs := computeDistancesForTx_pointers hfig r (y.store.heap r)
      have hlast : (rs ++ [r]).foldl (addDistances env) y.store =
          addDistances env (rs.foldl (addDistances env) y.store) r := List.foldl_append
      rw [hlast]
      constructor
      · change (rs.foldl (addDistances env) y.store).distHops ++ _ = _
        rw [ih.hops, hheap, hrecs]
        simp [hopsOf]
      · change (rs.foldl (addDistances env) y.store).distPaths ++ _ = _
        rw [ih.paths, hheap, hrecs]
        simp [pathsOf]

def pointers (s : Store) : List TxRef × List TxRef := (s.distHops, s.distPaths)

theorem Points.of_pointers {t : Store} (h : Points y) (ht : pointers t = pointers y.store) : Points ⟨t, y.index⟩ :=
  ⟨(congrArg Prod.fst ht).trans h.hops, (congrArg Prod.snd ht).trans h.paths⟩

theorem pointers_indexLiveHops (env : Env) (s : Store) (r : TxRef) (o : ObsRow) :
    pointers (s.indexLiveHops env r o) = pointers s := by
  rw [indexLiveHops]
  split
  · split
    · rw [indexResolvedPathHops]
      split <;> rfl
    · rfl
  · rfl

theorem pointers_mergeRow (env : Env) (s : Store) (row : ScanRow) :
    pointers (mergeRow (indexLiveHops env) s row) = pointers s := by
  have hfound : pointers (s.findOrInsert row.tx).1 = pointers s := by
    rw [findOrInsert]
    split <;> rfl
  rw [mergeRow]
  split
  · exact hfound
  · rw [mergeObs]
    split
    · exact hfound
    · exact (pointers_indexLiveHops env _ _ _).trans hfound

theorem pointers_lateRow (env : Env) (acc : Store × List (Int × TxRef)) (o : ObsRow) :
    pointers (lateRow env acc o).1 = pointers acc.1 := by
  rw [lateRow]
  split
  · rfl
  · split
    · rfl
    · split
      · rfl
      · exact pointers_indexLiveHops env _ _ _

theorem pointers_repath (old : TxRef → String) (s : Store) (r : TxRef) :
    pointers (s.repath old r) = pointers s := by
  unfold repath dropPathHops dropSubpaths
  dsimp only
  split
  · split
    · split <;> rfl
    · split <;> rfl
  · rfl

theorem pointers_pickAll (rs : List TxRef) (s : Store) : pointers (rs.foldl pickBest s) = pointers s :=
  foldl_view fun _ _ _ => rfl

def Counts (net : Network) : LiveAction → Prop
  | .ingestNewFromDB env _ _ _ => Figures net env
  | .ingestNewObservations env _ _ => Figures net env
  | .evict _ _ => True

theorem pointers_update {env : Env} (hfig : Figures net env) (rs : List TxRef) (h : Points ⟨t, ix⟩) :
    Points ⟨t.updateDistanceIndexForTxs env rs, ix.updateDistanceIndexForTxs net t.heap rs⟩ := by
  have hstart : Points ⟨{ t with
      distHops := t.distHops.filter (· ∉ rs)
      distPaths := t.distPaths.filter (· ∉ rs) }, ix.without rs⟩ := by
    constructor
    · exact (congrArg (List.filter (· ∉ rs)) h.hops).trans List.filter_map
    · exact (congrArg (List.filter (· ∉ rs)) h.paths).trans List.filter_map
  exact pointers_addAll hfig rs hstart

theorem points_ingestNewFromDB (h : Points y) {env : Env} (hfig : Figures net env) (sinceID limit : Int)
    (rows : List ScanRow) : Points (y.ingestNewFromDB net env sinceID limit rows) := by
  let tempRows := takeTxs (if limit ≤ 0 then 100 else limit) sinceID 0 rows
  let acc := tempRows.foldl (ingestRow env) (y.store, [])
  let picked := (env.pickOrder.refs acc.2).foldl pickBest acc.1
  have hrows : pointers acc.1 = pointers y.store := by
    change pointers (tempRows.foldl (ingestRow env) (y.store, [])).1 = pointers y.store
    rw [ingestRows_fst]
    exact foldl_view fun t row _ => pointers_mergeRow env t row
  have hpaths : pointers ((env.indexOrder.refs acc.2).foldl addPaths picked) = pointers picked :=
    foldl_view fun _ _ _ => rfl
  exact pointers_addAll hfig _ (h.of_pointers (hpaths.trans ((pointers_pickAll _ _).trans hrows)))

theorem points_ingestNewObservations (h : Points y) {env : Env} (hfig : Figures net env) (limit : Int)
    (rows : List ObsRow) : Points (y.ingestNewObservations net env limit rows) := by
  let acc := (rows.take (if limit ≤ 0 then 500 else limit).toNat).foldl (lateRow env) (y.store, [])
  let oldPath := fun r => (acc.1.heap r).pathJSON
  let picked := (env.pickOrder.refs acc.2).foldl pickBest acc.1
  let s := (env.indexOrder.refs acc.2).foldl (repath oldPath) picked
  let changedTxs := (env.distOrder.refs acc.2).filter (s.pathChanged oldPath)
  have hrows : pointers acc.1 = pointers y.store :=
    foldl_view (v := fun acc : Store × List (Int × TxRef) => pointers acc.1) fun acc o _ => pointers_lateRow env acc o
  have hrepath : pointers s = pointers picked := foldl_view fun t r _ => pointers_repath oldPath t r
  have hkept : Points ⟨s, y.index⟩ := h.of_pointers (hrepath.trans ((pointers_pickAll _ _).trans hrows))
  change Points ⟨if changedTxs = [] then s else s.updateDistanceIndexForTxs env changedTxs,
    if changedTxs = [] then y.index else y.index.updateDistanceIndexForTxs net s.heap changedTxs⟩
  split
  · exact hkept
  · exact pointers_update hfig changedTxs hkept

theorem points_evict (h : Points y) (ret : Retention) (rpBatch : Int → List String) :
    Points (y.evictStaleInternal ret rpBatch) := by
  have hgone : ∀ t : Store, ∀ gone : List TxRef, t.distHops = y.store.distHops.filter (· ∉ gone) →
      t.distPaths = y.store.distPaths.filter (· ∉ gone) → Points ⟨t, y.index.without gone⟩ := by
    intro t gone hhops hpaths
    rw [h.hops] at hhops
    rw [h.paths] at hpaths
    exact ⟨hhops.trans List.filter_map, hpaths.trans List.filter_map⟩
  have hnone : ∀ l : List TxRef, l = l.filter (· ∉ ([] : List TxRef)) := fun l => by simp
  rw [IndexedStore.evictStaleInternal, Store.evictStaleInternal, evicting]
  split
  · exact hgone _ _ (hnone _) (hnone _)
  · split
    · next hzero =>
        rw [hzero]
        exact hgone _ _ (hnone _) (hnone _)
    · exact hgone _ _ rfl rfl

theorem Points.live (h : Points y) {a : LiveAction} (ha : Counts net a) : Points (y.live net a) := by
  cases a with
  | ingestNewFromDB env sinceID limit rows => exact points_ingestNewFromDB h ha sinceID limit rows
  | ingestNewObservations env limit rows => exact points_ingestNewObservations h ha limit rows
  | evict ret rpBatch => exact points_evict h ret rpBatch

/-- The index is what a rebuild would make of the store now: each packet has its
records in it, and nothing else has any. -/
structure Exact (net : Network) (y : IndexedStore) : Prop where
  hops : y.index.distHops.Perm (buildDistanceIndex net y.store).distHops
  paths : y.index.distPaths.Perm (buildDistanceIndex net y.store).distPaths
  hopsOf : ∀ r ∈ y.store.packets, (y.index.distHops.filter (·.tx = r)).Perm (hopsOf net y.store.heap r)
  pathsOf : ∀ r ∈ y.store.packets, (y.index.distPaths.filter (·.tx = r)).Perm (pathsOf net y.store.heap r)
  hopsOwned : ∀ rec ∈ y.index.distHops, rec.tx ∈ y.store.packets
  pathsOwned : ∀ rec ∈ y.index.distPaths, rec.tx ∈ y.store.packets

theorem Holding.exact (h : Holding net y.store y.index) (hwf : y.store.catalog.WF loc) : Exact net y := by
  have hnd : y.store.packets.Nodup := (List.nodup_append.mp hwf.nodup).2.1
  have hbuilt := holding_built net y.store
  exact ⟨h.hops.trans hbuilt.hops.symm, h.paths.trans hbuilt.paths.symm,
    fun r hr => h.hops.of_owner tx_of_hopsOf hnd hr, fun r hr => h.paths.of_owner tx_of_pathsOf hnd hr,
    fun rec hrec => h.hops.owner_mem tx_of_hopsOf hrec, fun rec hrec => h.paths.owner_mem tx_of_pathsOf hrec⟩

/-- A reachable store whose index holds the records of its packets. -/
structure Inv (use : Bool) (net : Network) (y : IndexedStore) : Prop where
  reachable : ∃ st : State, Reachable use st ∧ st.store = y.store
  holding : Holding net y.store y.index

theorem Inv.live {use : Bool} (h : Inv use net y) (a : LiveAction) (ha : OfPackets y.store a) :
    Inv use net (y.live net a) := by
  obtain ⟨st, hst, hstore⟩ := h.reachable
  have hwf : y.store.catalog.WF st.locals := hstore ▸ hst.wf.catalog
  refine ⟨⟨st.step a.toAction, hst.step (st.enabled_toAction a), ?_⟩, ?_⟩
  · rw [State.step_toAction, IndexedStore.store_live, hstore]
  · cases a with
    | ingestNewFromDB env sinceID limit rows => exact holding_ingestNewFromDB hwf h.holding env sinceID limit rows
    | ingestNewObservations env limit rows =>
        exact holding_ingestNewObservations hwf (hstore ▸ allShown_of_reachable hst) h.holding env limit rows ha
    | evict ret rpBatch => exact holding_evict hwf h.holding ret rpBatch

/-- From a rebuild on, the index stays exact as long as all observations are of packets. -/
theorem exact_along {use : Bool} {st : State} (h : Reachable use st) (net : Network) {acts : List LiveAction}
    (hacts : Along (IndexedStore.live net) (fun y => OfPackets y.store) (.built net st.store) acts) :
    ∀ done, done <+: acts → Exact net ((IndexedStore.built net st.store).run net done) := by
  rintro done ⟨rest, rfl⟩
  have hinv : Inv use net ((IndexedStore.built net st.store).run net done) :=
    hacts.append_left.foldl_invariant ⟨⟨st, h, rfl⟩, holding_built net st.store⟩ fun y a hy ha => hy.live a ha
  obtain ⟨st', hst', hstore⟩ := hinv.reachable
  exact hinv.holding.exact (hstore ▸ hst'.wf.catalog)

def twoRepeaters : Network where
  allNodes := [⟨⟨⟨"aa"⟩, 0, 1, true⟩, "A", "repeater"⟩, ⟨⟨⟨"bb"⟩, 0, 2, true⟩, "B", "repeater"⟩]
  pm := ⟨set (set Maps.empty "aa" [⟨"aa"⟩]) "bb" [⟨"bb"⟩], ∅⟩
  tiers := fun _ _ => none
  haversineKm := fun _ _ _ _ => 1

def shortRow : ScanRow := heardRow (plainTx 1 "h1" "2026-01-01T00:00:00Z" 2) 1 "obs1" "[\"aa\"]"

def longer : LiveAction := .ingestNewObservations (plainEnv none) 0 [plainObs 2 1 "obs2" "[\"aa\",\"bb\"]"]

def polled : List Action := [.finishLoad (plainEnv none) none, .ingestNewFromDB (plainEnv none) 0 100 [shortRow]]

theorem along_polled : Along State.step State.Enabled (State.new true) polled :=
  ⟨⟨rfl, rfl⟩, trivial, trivial⟩

theorem ofPackets_longer : OfPackets (State.after true polled).store longer := by
  intro o ho r hr
  rw [List.mem_singleton.mp ho] at hr
  have hfiled : (State.after true polled).store.byTxID 1 = some 0 := by decide
  have hpackets : (State.after true polled).store.packets = [0] := by decide
  have hzero : r = 0 := Option.some.inj (hr.symm.trans hfiled)
  rw [hzero]
  exact hpackets ▸ List.mem_singleton_self 0

theorem exact_along_longer :
    Exact twoRepeaters ((IndexedStore.built twoRepeaters (State.after true polled).store).run twoRepeaters [longer]) := by
  have hacts : Along (IndexedStore.live twoRepeaters) (fun y => OfPackets y.store)
      (.built twoRepeaters (State.after true polled).store) [longer] := ⟨ofPackets_longer, trivial⟩
  exact exact_along (reachable_after along_polled) twoRepeaters hacts [longer] (List.prefix_refl _)

def merged : List Action := [.finishLoad (plainEnv none) none, .readChunk none [shortRow], .mergeBatch]

theorem along_merged : Along State.step State.Enabled (State.new true) merged := by
  refine ⟨⟨rfl, rfl⟩, ⟨rfl, rfl⟩, ⟨_, rfl, ?_⟩, trivial⟩
  decide

/-- The index gets records of a packet that is not there. -/
theorem unpublished_recorded : ¬ ∀ (use : Bool) (st : State) (net : Network) (acts : List LiveAction),
    Reachable use st → Exact net ((IndexedStore.built net st.store).run net acts) := by
  intro h
  have howned := (h true _ twoRepeaters [longer] (reachable_after along_merged)).hopsOwned
  have hrecs : (((IndexedStore.built twoRepeaters (State.after true merged).store).run twoRepeaters
      [longer]).index.distHops.map (·.tx)) = [0] := by decide +kernel
  have hpackets : ((IndexedStore.built twoRepeaters (State.after true merged).store).run twoRepeaters
      [longer]).store.packets = [] := by decide +kernel
  obtain ⟨rec, hrec, _⟩ := List.mem_map.mp (hrecs ▸ List.mem_singleton_self 0)
  have hmem := howned rec hrec
  rw [hpackets] at hmem
  cases hmem

end MeshcoreAnalyzer.PacketStore.Distances

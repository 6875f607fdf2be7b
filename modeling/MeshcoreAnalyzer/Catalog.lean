import MeshcoreAnalyzer.System

namespace MeshcoreAnalyzer.PacketStore

open Maps Runs

/-! The store as a catalogue: which transmissions there are, and what they are
filed under by hash, ID, type and advertised key. Most of what the producers do
is invisible here. -/

structure Catalog where
  row : TxRef → TxRow
  next : TxRef
  packets : List TxRef
  byHash : GoMap String TxRef
  byTxID : GoMap Int TxRef
  byPayloadType : GoMap Int (List TxRef)
  advertPubkeys : GoMap String Int
  loaded : Bool

namespace Catalog

def alloc (c : Catalog) (tx : TxRow) : Catalog :=
  { c with row := Function.update c.row c.next tx, next := c.next + 1 }

def insertTx (c : Catalog) (tx : TxRow) : Catalog :=
  { c with
    row := Function.update c.row c.next tx
    next := c.next + 1
    packets := c.packets ++ [c.next]
    byHash := set c.byHash tx.hash c.next
    byTxID := set c.byTxID tx.id c.next
    byPayloadType := pushPayloadType c.byPayloadType tx c.next
    advertPubkeys := trackAdvertPubkey c.advertPubkeys tx }

def findOrInsert (c : Catalog) (tx : TxRow) : Catalog :=
  if c.byHash tx.hash = none then c.insertTx tx else c

def batchHashes (c : Catalog) (batch : List TxRef) : GoMap String TxRef :=
  batch.foldl (fun m r => set m (c.row r).hash r) Maps.empty

def batchTxIDs (c : Catalog) (batch : List TxRef) : GoMap Int TxRef :=
  batch.foldl (fun m r => set m (c.row r).id r) Maps.empty

def mergeBatch (c : Catalog) (batch : List TxRef) : Catalog :=
  { c with
    byHash := fun k => c.byHash k <|> c.batchHashes batch k
    byTxID := fun k => c.byTxID k <|> c.batchTxIDs batch k
    byPayloadType := batch.foldl (fun m r => pushPayloadType m (c.row r) r) c.byPayloadType
    advertPubkeys := batch.foldl (fun m r => trackAdvertPubkey m (c.row r)) c.advertPubkeys }

def publish (c : Catalog) (packets : List TxRef) : Catalog := { c with packets := packets ++ c.packets }

def evict (c : Catalog) (n : Nat) : Catalog :=
  let evicting := c.packets.take n
  { c with
    packets := c.packets.drop n
    byHash := evicting.foldl (fun m r => delete m (c.row r).hash) c.byHash
    byTxID := evicting.foldl (fun m r => delete m (c.row r).id) c.byTxID
    byPayloadType := filterKeys (Store.typesOf c.row evicting)
      (fun t => (c.row t).id ∉ evicting.map fun r => (c.row r).id) c.byPayloadType
    advertPubkeys := evicting.foldl (fun m r => untrackAdvertPubkey m (c.row r)) c.advertPubkeys }

/-- The order of `LoadChunked`'s last step. -/
def sortPackets (c : Catalog) : Catalog :=
  { c with
    packets := c.packets.insertionSort fun a b => (c.row a).firstSeen ≤ (c.row b).firstSeen
    loaded := true }

end Catalog

namespace Store

def catalog (s : Store) : Catalog where
  row := s.row
  next := s.next
  packets := s.packets
  byHash := s.byHash
  byTxID := s.byTxID
  byPayloadType := s.byPayloadType
  advertPubkeys := s.advertPubkeys
  loaded := s.loaded

theorem catalog_of_heap {s t : Store} (hrow : t.row = s.row)
    (h : ({ t with heap := s.heap } : Store).catalog = s.catalog) : t.catalog = s.catalog := by
  rw [← h]
  change Catalog.mk t.row _ _ _ _ _ _ _ = Catalog.mk s.row _ _ _ _ _ _ _
  rw [hrow]

theorem catalog_modify (s : Store) (r : TxRef) {f : StoreTx → StoreTx}
    (hf : ∀ tx, (f tx).toTxRow = tx.toTxRow) : (s.modify r f).catalog = s.catalog :=
  catalog_of_heap (Maps.view_update StoreTx.toTxRow (hf _)) rfl

theorem row_eq_of_catalog {s t : Store} (h : t.catalog = s.catalog) : t.row = s.row :=
  congrArg Catalog.row h

theorem packets_of_catalog {s t : Store} (h : t.catalog = s.catalog) : t.packets = s.packets :=
  congrArg Catalog.packets h

theorem byTxID_of_catalog {s t : Store} (h : t.catalog = s.catalog) : t.byTxID = s.byTxID :=
  congrArg Catalog.byTxID h

@[simp] theorem catalog_pickBest (s : Store) (r : TxRef) : (s.pickBest r).catalog = s.catalog :=
  catalog_modify s r StoreTx.pickBestObservation_toTxRow

@[simp] theorem catalog_addAllToByNode (s : Store) (r : TxRef) (pks : List String) :
    (s.addAllToByNode r pks).catalog = s.catalog := rfl

@[simp] theorem catalog_indexResolvedPathHops (s : Store) (r : TxRef) (pks : List String) :
    (s.indexResolvedPathHops r pks).catalog = s.catalog := by
  rw [indexResolvedPathHops]
  split
  · rfl
  · exact catalog_of_heap (Maps.view_update StoreTx.toTxRow rfl) rfl

@[simp] theorem catalog_indexLiveHops (env : Env) (s : Store) (r : TxRef) (o : ObsRow) :
    (s.indexLiveHops env r o).catalog = s.catalog := by
  rw [indexLiveHops]
  split
  · split
    · exact catalog_indexResolvedPathHops s r _
    · rfl
  · rfl

@[simp] theorem catalog_indexLoadedHops (relayPM : Option PrefixMap) (s : Store) (r : TxRef)
    (o : ObsRow) : (s.indexLoadedHops relayPM r o).catalog = s.catalog := by
  unfold indexLoadedHops
  split
  · exact catalog_indexResolvedPathHops s r _
  · split
    · split
      · rfl
      · rfl
    · rfl

@[simp] theorem catalog_attachObs (s : Store) (r : TxRef) (obs : StoreObs) :
    (s.attachObs r obs).catalog = s.catalog := catalog_of_heap (Maps.view_update StoreTx.toTxRow rfl) rfl

@[simp] theorem catalog_addPaths (s : Store) (r : TxRef) : (s.addPaths r).catalog = s.catalog :=
  catalog_of_heap (Maps.view_update StoreTx.toTxRow rfl) rfl

@[simp] theorem catalog_addDistances (env : Env) (s : Store) (r : TxRef) :
    (s.addDistances env r).catalog = s.catalog := rfl

@[simp] theorem catalog_dropSubpaths (s : Store) (hops : List String) (r : TxRef) :
    (s.dropSubpaths hops r).catalog = s.catalog := by
  rw [dropSubpaths]
  split <;> rfl

@[simp] theorem catalog_dropPathHops (s : Store) (hops : List String) (r : TxRef) :
    (s.dropPathHops hops r).catalog = s.catalog := by
  rw [dropPathHops]
  split <;> rfl

@[simp] theorem catalog_repath (oldPath : TxRef → String) (s : Store) (r : TxRef) :
    (s.repath oldPath r).catalog = s.catalog := by
  rw [repath]
  split
  · rw [catalog_addPaths, catalog_dropPathHops, catalog_dropSubpaths]
  · rfl

@[simp] theorem catalog_updateDistanceIndexForTxs (env : Env) (s : Store) (txs : List TxRef) :
    (s.updateDistanceIndexForTxs env txs).catalog = s.catalog :=
  foldl_view fun t r _ => catalog_addDistances env t r

theorem row_cachePaths (s : Store) (rs : List TxRef) :
    (fun q => (s.cachePaths rs q).toTxRow) = s.row := by
  funext q
  rw [cachePaths]
  split <;> rfl

@[simp] theorem catalog_buildSubpathIndex (s : Store) : s.buildSubpathIndex.catalog = s.catalog :=
  catalog_of_heap (s.row_cachePaths s.packets) rfl

@[simp] theorem catalog_buildPathHopIndex (s : Store) : s.buildPathHopIndex.catalog = s.catalog :=
  catalog_of_heap (s.row_cachePaths s.packets) rfl

@[simp] theorem catalog_buildDistanceIndex (env : Env) (s : Store) :
    (s.buildDistanceIndex env).catalog = s.catalog :=
  foldl_view fun t r _ => catalog_addDistances env t r

@[simp] theorem catalog_rebuild (s : Store) : s.rebuild.catalog = s.catalog := by
  rw [rebuild]
  rw [catalog_buildPathHopIndex, catalog_buildSubpathIndex]

@[simp] theorem catalog_pickAll (s : Store) (rs : List TxRef) :
    (rs.foldl pickBest s).catalog = s.catalog := foldl_view fun t r _ => catalog_pickBest t r

@[simp] theorem catalog_finishIngest (env : Env) (s : Store) (txs : List (Int × TxRef)) :
    (s.finishIngest env txs).catalog = s.catalog := by
  have hpaths : ∀ (rs : List TxRef) (t : Store), (rs.foldl addPaths t).catalog = t.catalog :=
    fun rs t => foldl_view fun t r _ => catalog_addPaths t r
  have hdist : ∀ (rs : List TxRef) (t : Store), (rs.foldl (addDistances env) t).catalog = t.catalog :=
    fun rs t => foldl_view fun t r _ => catalog_addDistances env t r
  unfold finishIngest
  dsimp only
  rw [hdist, hpaths, catalog_pickAll]

@[simp] theorem catalog_finishObservations (env : Env) (s : Store) (txs : List (Int × TxRef)) :
    (s.finishObservations env txs).catalog = s.catalog := by
  have hrepath : ∀ (old : TxRef → String) (rs : List TxRef) (t : Store),
      (rs.foldl (repath old) t).catalog = t.catalog :=
    fun old rs t => foldl_view fun t r _ => catalog_repath old t r
  unfold finishObservations
  dsimp only
  split
  · rw [hrepath, catalog_pickAll]
  · rw [catalog_updateDistanceIndexForTxs, hrepath, catalog_pickAll]

theorem catalog_insertTx (s : Store) (tx : TxRow) : (s.insertTx tx).catalog = s.catalog.insertTx tx := by
  have hrow : (s.insertTx tx).row = Function.update s.row s.next tx := by
    funext q
    change (Function.update s.heap s.next _ q).toTxRow = _
    by_cases hq : q = s.next
    · subst hq
      simp
    · simp [hq, row]
  change Catalog.mk (s.insertTx tx).row _ _ _ _ _ _ _ = _
  rw [hrow]
  rfl

theorem catalog_findOrInsert (s : Store) (tx : TxRow) :
    (s.findOrInsert tx).1.catalog = s.catalog.findOrInsert tx := by
  rw [findOrInsert, Catalog.findOrInsert]
  change _ = if s.byHash tx.hash = none then _ else _
  split
  · next r h => rw [if_neg (by simp [h])]
  · next h => rw [if_pos h, catalog_insertTx]

theorem catalog_mergeObs {index : Store → TxRef → ObsRow → Store}
    (hindex : ∀ s r o, (index s r o).catalog = s.catalog) (s : Store) (r : TxRef) (o : ObsRow) :
    (mergeObs index s r o).catalog = s.catalog := by
  rw [mergeObs]
  split
  · rfl
  · rw [catalog_attachObs, hindex]

theorem catalog_mergeRow {index : Store → TxRef → ObsRow → Store}
    (hindex : ∀ s r o, (index s r o).catalog = s.catalog) (s : Store) (row : ScanRow) :
    (mergeRow index s row).catalog = s.catalog.findOrInsert row.tx := by
  rw [mergeRow]
  split
  · exact catalog_findOrInsert s row.tx
  · rw [catalog_mergeObs hindex, catalog_findOrInsert]

theorem catalog_scanAndMergeChunk (relayPM : Option PrefixMap) (rows : List ScanRow) (s : Store) :
    (s.scanAndMergeChunk relayPM rows).catalog =
      rows.foldl (fun c row => c.findOrInsert row.tx) s.catalog :=
  foldl_simulates fun t row _ => catalog_mergeRow (catalog_indexLoadedHops relayPM) t row

theorem catalog_ingestRows (env : Env) (rows : List ScanRow) (acc : Store × List (Int × TxRef)) :
    (rows.foldl (ingestRow env) acc).1.catalog =
      rows.foldl (fun c row => c.findOrInsert row.tx) acc.1.catalog :=
  foldl_simulates (v := fun a : Store × List (Int × TxRef) => a.1.catalog)
    fun a row _ => catalog_mergeRow (catalog_indexLiveHops env) a.1 row

def ingested (sinceID limit : Int) (rows : List ScanRow) : List ScanRow :=
  takeTxs (if limit ≤ 0 then 100 else limit) sinceID 0 rows

theorem catalog_ingestNewFromDB (env : Env) (sinceID limit : Int) (rows : List ScanRow) (s : Store) :
    (s.ingestNewFromDB env sinceID limit rows).1.catalog =
      (ingested sinceID limit rows).foldl (fun c row => c.findOrInsert row.tx) s.catalog := by
  rw [ingestNewFromDB]
  dsimp only
  rw [catalog_finishIngest, catalog_ingestRows]
  rfl

theorem catalog_lateRow (env : Env) (acc : Store × List (Int × TxRef)) (o : ObsRow) :
    (lateRow env acc o).1.catalog = acc.1.catalog := by
  rw [lateRow]
  split
  · rfl
  · split
    · rfl
    · split
      · rfl
      · rw [catalog_attachObs, catalog_indexLiveHops]

theorem catalog_lateRows (env : Env) (rows : List ObsRow) (acc : Store × List (Int × TxRef)) :
    (rows.foldl (lateRow env) acc).1.catalog = acc.1.catalog :=
  foldl_view (v := fun a : Store × List (Int × TxRef) => a.1.catalog)
    fun a o _ => catalog_lateRow env a o

def observed (limit : Int) (rows : List ObsRow) : List ObsRow :=
  rows.take (if limit ≤ 0 then 500 else limit).toNat

@[simp] theorem catalog_ingestNewObservations (env : Env) (limit : Int) (rows : List ObsRow) (s : Store) :
    (s.ingestNewObservations env limit rows).catalog = s.catalog := by
  unfold ingestNewObservations
  dsimp only
  rw [catalog_finishObservations, catalog_lateRows]

@[simp] theorem catalog_pickAndIndexAll (s : Store) : s.pickAndIndexAll.catalog = s.catalog :=
  foldl_view fun t r _ => catalog_pickBest t r

theorem catalog_finishLoad (env : Env) (hotCutoff : Option String) (s : Store) :
    (s.finishLoad env hotCutoff).catalog = s.catalog.sortPackets := by
  have hsort : ∀ t : Store, (t.sortPackets.buildSubpathIndex.buildPathHopIndex.buildDistanceIndex env).catalog =
      t.sortPackets.catalog := by
    intro t
    rw [catalog_buildDistanceIndex, catalog_buildPathHopIndex, catalog_buildSubpathIndex]
  have hload : ∀ t : Store, ∀ oldest : String,
      ({ t with loaded := true, oldestLoaded := oldest } : Store).catalog = { t.catalog with loaded := true } :=
    fun t oldest => rfl
  unfold finishLoad
  dsimp only
  rw [hload, hsort, ← catalog_pickAndIndexAll s]
  rfl

theorem catalog_newLocalTx (s : Store) (c : Chunk) (tx : TxRow) :
    (s.newLocalTx c tx).1.catalog = s.catalog.alloc tx := by
  have hrow : (s.newLocalTx c tx).1.row = Function.update s.row s.next tx := by
    funext q
    change (Function.update s.heap s.next _ q).toTxRow = _
    by_cases hq : q = s.next
    · subst hq
      simp
    · simp [hq, row]
  change Catalog.mk (s.newLocalTx c tx).1.row _ _ _ _ _ _ _ = _
  rw [hrow]
  rfl

@[simp] theorem catalog_mergeTx (c : Chunk) (s : Store) (r : TxRef) : (mergeTx c s r).catalog =
    { s.catalog with
      byPayloadType := pushPayloadType s.byPayloadType (s.row r) r
      advertPubkeys := trackAdvertPubkey s.advertPubkeys (s.row r) } := by
  rw [mergeTx]
  dsimp only
  rw [catalog_addAllToByNode, catalog_indexResolvedPathHops]
  rfl

theorem catalog_mergeTxs (c : Chunk) (batch : List TxRef) (s : Store) :
    (batch.foldl (mergeTx c) s).catalog =
      { s.catalog with
        byPayloadType := batch.foldl (fun m r => pushPayloadType m (s.row r) r) s.byPayloadType
        advertPubkeys := batch.foldl (fun m r => trackAdvertPubkey m (s.row r)) s.advertPubkeys } := by
  induction batch generalizing s with
  | nil => rfl
  | cons r batch ih =>
      have hcat := catalog_mergeTx c s r
      have hrow : (mergeTx c s r).row = s.row := congrArg Catalog.row hcat
      have hpt : (mergeTx c s r).byPayloadType = _ := congrArg Catalog.byPayloadType hcat
      have hadv : (mergeTx c s r).advertPubkeys = _ := congrArg Catalog.advertPubkeys hcat
      rw [List.foldl_cons, ih, hcat, hrow, hpt, hadv]
      rfl

theorem catalog_mergeBatch (s : Store) (c : Chunk) :
    (s.mergeBatch c).1.catalog = s.catalog.mergeBatch (c.pending.take mergeBatchSize) := by
  rw [mergeBatch]
  dsimp only
  rw [catalog_mergeTxs]
  rfl

theorem catalog_publish (s : Store) (c : Chunk) :
    (s.publish c).catalog = s.catalog.publish c.packets := rfl

theorem catalog_evict (s : Store) (rpBatch : Int → List String) (n : Nat) :
    (s.evict rpBatch n).catalog = s.catalog.evict n := by
  change Catalog.mk (fun q => (s.cachePaths (s.packets.take n) q).toTxRow) _ _ _ _ _ _ _ = _
  rw [row_cachePaths]
  rfl

end Store

end MeshcoreAnalyzer.PacketStore

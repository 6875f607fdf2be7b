import MeshcoreAnalyzer.Indexes
import MeshcoreAnalyzer.Resolver

namespace MeshcoreAnalyzer.PacketStore

open Maps

/-! The packet store and its live ingest: `IngestNewFromDB` and
`IngestNewObservations` of cmd/server/store.go. -/

/-- `PacketStore`. The transmissions themselves are objects behind pointers, of
which `next` is the first that is still free. A distance record is kept as the
pointer it carries; its figures are floating point. -/
structure Store where
  heap : TxRef → StoreTx
  next : TxRef
  packets : List TxRef
  byHash : GoMap String TxRef
  byTxID : GoMap Int TxRef
  byObsID : GoMap Int StoreObs
  byObserver : GoMap String (List StoreObs)
  nodes : NodeIndex
  byPathHop : GoMap String (List TxRef)
  byPayloadType : GoMap Int (List TxRef)
  subpaths : SubpathIndex
  spTotalPaths : Int
  resolved : ResolvedIndex
  distHops : List TxRef
  distPaths : List TxRef
  advertPubkeys : GoMap String Int
  maxTxID : Int
  maxObsID : Int
  totalObs : Int
  trackedBytes : Int
  evicted : Int
  oldestLoaded : String
  loaded : Bool

/-- The keys of a Go map in the order in which one `range` over it runs. -/
structure RangeOrder where
  order : List (Int × TxRef) → List (Int × TxRef)
  perm : ∀ l, (order l).Perm l

def RangeOrder.inserted : RangeOrder := ⟨id, fun l => List.Perm.refl l⟩

def RangeOrder.refs (o : RangeOrder) (m : List (Int × TxRef)) : List TxRef := (o.order m).map Prod.snd

theorem RangeOrder.refs_perm (o : RangeOrder) (m : List (Int × TxRef)) :
    (o.refs m).Perm (m.map Prod.snd) := (o.perm m).map _

theorem RangeOrder.nodup_refs (o : RangeOrder) {txs : List (Int × TxRef)} (h : (txs.map Prod.snd).Nodup) :
    (o.refs txs).Nodup := (o.refs_perm txs).nodup_iff.mpr h

theorem RangeOrder.mem_refs (o : RangeOrder) {txs : List (Int × TxRef)} {r : TxRef} :
    r ∈ o.refs txs ↔ r ∈ txs.map Prod.snd := (o.refs_perm txs).mem_iff

/-- What an operation finds besides its rows: the node cache, the figures of the
distance computation, and how the ranges over its maps run. -/
structure Env where
  pm : Option PrefixMap
  tiers : Tiers
  hopRecords : StoreTx → Nat
  pickOrder : RangeOrder
  indexOrder : RangeOrder
  distOrder : RangeOrder

/-- A row of `transmissions` left joined with `observations`. -/
structure ScanRow where
  tx : TxRow
  obs : Option ObsRow
  joined : ∀ o ∈ obs, o.txID = tx.id

def computeDistancesForTx (env : Env) (r : TxRef) (tx : StoreTx) : List TxRef × List TxRef :=
  if tx.txGetParsedPath = [] ∨ env.hopRecords tx = 0 then ([], [])
  else (List.replicate (env.hopRecords tx) r, [r])

namespace Store

/-- `NewPacketStore` -/
def new (useResolvedPathIndex : Bool) : Store where
  heap := fun _ => default
  next := 0
  packets := []
  byHash := Maps.empty
  byTxID := Maps.empty
  byObsID := Maps.empty
  byObserver := Maps.empty
  nodes := NodeIndex.empty
  byPathHop := Maps.empty
  byPayloadType := Maps.empty
  subpaths := SubpathIndex.empty
  spTotalPaths := 0
  resolved := ResolvedIndex.empty useResolvedPathIndex
  distHops := []
  distPaths := []
  advertPubkeys := Maps.empty
  maxTxID := 0
  maxObsID := 0
  totalObs := 0
  trackedBytes := 0
  evicted := 0
  oldestLoaded := ""
  loaded := false

def row (s : Store) (r : TxRef) : TxRow := (s.heap r).toTxRow

def path (s : Store) (r : TxRef) : List String := (s.heap r).txGetParsedPath

def modify (s : Store) (r : TxRef) (f : StoreTx → StoreTx) : Store :=
  { s with heap := Function.update s.heap r (f (s.heap r)) }

def insertTx (s : Store) (tx : TxRow) : Store :=
  { s with
    heap := Function.update s.heap s.next (StoreTx.ofRow tx).cachePath
    next := s.next + 1
    byHash := set s.byHash tx.hash s.next
    packets := s.packets ++ [s.next]
    byTxID := set s.byTxID tx.id s.next
    maxTxID := max s.maxTxID tx.id
    nodes := s.nodes.addAll tx.hash s.next tx.nodeKeys
    byPayloadType := pushPayloadType s.byPayloadType tx s.next
    advertPubkeys := trackAdvertPubkey s.advertPubkeys tx
    trackedBytes := s.trackedBytes + (StoreTx.ofRow tx).estimateStoreTxBytes }

def findOrInsert (s : Store) (tx : TxRow) : Store × TxRef :=
  match s.byHash tx.hash with
  | some r => (s, r)
  | none => (s.insertTx tx, s.next)

def addAllToByNode (s : Store) (r : TxRef) (pks : List String) : Store :=
  { s with nodes := s.nodes.addAll (s.row r).hash r pks }

def indexResolvedPathHops (s : Store) (r : TxRef) (pks : List String) : Store :=
  if pks = [] then s
  else
    { s with
      heap := Function.update s.heap r (s.heap r).cachePath
      nodes := s.nodes.addAll (s.row r).hash r pks
      byPathHop := addResolvedPubkeysToPathHopIndex s.byPathHop (s.path r) pks r
      resolved := s.resolved.addToResolvedPubkeyIndex (s.row r).id pks }

def attachObs (s : Store) (r : TxRef) (obs : StoreObs) : Store :=
  { s with
    heap := Function.update s.heap r ((s.heap r).addObs obs)
    byObsID := set s.byObsID obs.id obs
    maxObsID := max s.maxObsID obs.id
    byObserver := if obs.observerID ≠ "" then push s.byObserver obs.observerID obs else s.byObserver
    totalObs := s.totalObs + 1
    trackedBytes := s.trackedBytes + estimateStoreObsBytes obs }

def indexLiveHops (env : Env) (s : Store) (r : TxRef) (o : ObsRow) : Store :=
  if o.pathJSON ≠ "" ∧ o.pathJSON ≠ "[]" then
    match env.pm with
    | some pm => s.indexResolvedPathHops r
        (extractResolvedPubkeys (resolvePathForObs o.pathJSON o.observerID (s.row r) pm env.tiers))
    | none => s
  else s

def mergeObs (index : Store → TxRef → ObsRow → Store) (s : Store) (r : TxRef) (o : ObsRow) : Store :=
  if o.key ∈ (s.heap r).obsKeys then s else (index s r o).attachObs r o.toObs

def mergeRow (index : Store → TxRef → ObsRow → Store) (s : Store) (row : ScanRow) : Store :=
  match row.obs with
  | none => (s.findOrInsert row.tx).1
  | some o => mergeObs index (s.findOrInsert row.tx).1 (s.findOrInsert row.tx).2 o

def pickBest (s : Store) (r : TxRef) : Store := s.modify r StoreTx.pickBestObservation

def addPaths (s : Store) (r : TxRef) : Store :=
  { s with
    heap := Function.update s.heap r (s.heap r).cachePath
    subpaths := s.subpaths.addTxToSubpathIndexFull (s.path r) r
    spTotalPaths := if hasSubpaths (s.path r) then s.spTotalPaths + 1 else s.spTotalPaths
    byPathHop := addTxToPathHopIndex s.byPathHop (s.path r) r }

def addDistances (env : Env) (s : Store) (r : TxRef) : Store :=
  { s with
    distHops := s.distHops ++ (computeDistancesForTx env r (s.heap r)).1
    distPaths := s.distPaths ++ (computeDistancesForTx env r (s.heap r)).2 }

/-- The rows of at most `limit` transmissions; `last` is the one before. -/
def takeTxs (limit : Int) : Int → Int → List ScanRow → List ScanRow
  | _, _, [] => []
  | last, count, row :: rows =>
      if row.tx.id ≠ last then
        if limit < count + 1 then [] else row :: takeTxs limit row.tx.id (count + 1) rows
      else row :: takeTxs limit last count rows

theorem takeTxs_subset (limit last count : Int) (rows : List ScanRow) : takeTxs limit last count rows ⊆ rows := by
  induction rows generalizing last count with
  | nil => exact List.Subset.refl _
  | cons row rows ih =>
      rw [takeTxs]
      split
      · split
        · exact List.nil_subset _
        · exact List.cons_subset_cons row (ih _ _)
      · exact List.cons_subset_cons row (ih _ _)

/-- A row, and the transmissions made so far under their IDs (`broadcastTxs`). -/
def ingestRow (env : Env) (acc : Store × List (Int × TxRef)) (row : ScanRow) :
    Store × List (Int × TxRef) :=
  (mergeRow (indexLiveHops env) acc.1 row,
    if acc.1.byHash row.tx.hash = none ∧ row.tx.id ∉ acc.2.map Prod.fst then
      acc.2 ++ [(row.tx.id, acc.1.next)] else acc.2)

/-- What follows the rows: the new transmissions get their best observation, and
their paths and distances are indexed. -/
def finishIngest (env : Env) (s : Store) (broadcastTxs : List (Int × TxRef)) : Store :=
  let s := (env.pickOrder.refs broadcastTxs).foldl pickBest s
  let s := (env.indexOrder.refs broadcastTxs).foldl addPaths s
  (env.distOrder.refs broadcastTxs).foldl (addDistances env) s

/-- The rows are those with an ID above `sinceID`, in the order of the IDs. The
result is the store and the highest ID seen; the maps for the clients are left out. -/
def ingestNewFromDB (env : Env) (sinceID limit : Int) (rows : List ScanRow) (s : Store) :
    Store × Int :=
  let tempRows := takeTxs (if limit ≤ 0 then 100 else limit) sinceID 0 rows
  let acc := tempRows.foldl (ingestRow env) (s, [])
  (finishIngest env acc.1 acc.2, (tempRows.map (·.tx.id)).foldl max sinceID)

/-- A row, and the transmissions that got an observation so far (`updatedTxs`). -/
def lateRow (env : Env) (acc : Store × List (Int × TxRef)) (o : ObsRow) :
    Store × List (Int × TxRef) :=
  if (acc.1.byObsID o.id).isSome then acc
  else match acc.1.byTxID o.txID with
    | none => acc
    | some r =>
        if o.key ∈ (acc.1.heap r).obsKeys then acc
        else ((indexLiveHops env acc.1 r o).attachObs r o.toObs,
          if o.txID ∈ acc.2.map Prod.fst then acc.2 else acc.2 ++ [(o.txID, r)])

def pathChanged (s : Store) (oldPath : TxRef → String) (r : TxRef) : Bool :=
  (s.heap r).pathJSON ≠ oldPath r

def dropSubpaths (s : Store) (oldHops : List String) (r : TxRef) : Store :=
  if hasSubpaths oldHops then
    { s with
      subpaths := s.subpaths.removeTxFromSubpathIndexFull oldHops r
      spTotalPaths := s.spTotalPaths - 1 }
  else s

def dropPathHops (s : Store) (oldHops : List String) (r : TxRef) : Store :=
  if 0 < oldHops.length then
    { s with
      byPathHop := removeTxFromPathHopIndex (fun t => (s.row t).id = (s.row r).id) s.byPathHop oldHops }
  else s

/-- A transmission whose best path has changed: the old one leaves the indexes,
the new one enters them. -/
def repath (oldPath : TxRef → String) (s : Store) (r : TxRef) : Store :=
  if s.pathChanged oldPath r then
    let oldHops := parsePathJSON (oldPath r)
    ((s.dropSubpaths oldHops r).dropPathHops oldHops r).addPaths r
  else s

def updateDistanceIndexForTxs (env : Env) (s : Store) (txs : List TxRef) : Store :=
  txs.foldl (addDistances env)
    { s with
      distHops := s.distHops.filter (· ∉ txs)
      distPaths := s.distPaths.filter (· ∉ txs) }

def finishObservations (env : Env) (s : Store) (updatedTxs : List (Int × TxRef)) : Store :=
  let oldPath := fun r => (s.heap r).pathJSON
  let s := (env.pickOrder.refs updatedTxs).foldl pickBest s
  let s := (env.indexOrder.refs updatedTxs).foldl (repath oldPath) s
  let changedTxs := (env.distOrder.refs updatedTxs).filter (s.pathChanged oldPath)
  if changedTxs = [] then s else s.updateDistanceIndexForTxs env changedTxs

/-- The rows are at most `limit` with an ID above the cursor, in the order of the IDs. -/
def ingestNewObservations (env : Env) (limit : Int) (obsRows : List ObsRow) (s : Store) : Store :=
  let acc := (obsRows.take (if limit ≤ 0 then 500 else limit).toNat).foldl (lateRow env) (s, [])
  finishObservations env acc.1 acc.2

end Store

end MeshcoreAnalyzer.PacketStore

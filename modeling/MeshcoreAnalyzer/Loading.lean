import MeshcoreAnalyzer.Store

namespace MeshcoreAnalyzer.PacketStore

open Maps

/-! The two loaders: `LoadChunked` of cmd/server/chunked_load.go, and `loadChunk`
with `loadBackgroundChunks` of cmd/server/store.go. -/

namespace Store

def indexLoadedHops (relayPM : Option PrefixMap) (s : Store) (r : TxRef) (o : ObsRow) : Store :=
  if o.resolvedPath ≠ "" then
    s.indexResolvedPathHops r (extractResolvedPubkeys (unmarshalResolvedPath o.resolvedPath))
  else match relayPM with
    | some pm =>
        if o.pathJSON ≠ "" ∧ o.pathJSON ≠ "[]" then
          s.addAllToByNode r (extractResolvedPubkeys (resolvePathForObsColdLoad o.pathJSON pm))
        else s
    | none => s

def scanAndMergeChunk (relayPM : Option PrefixMap) (rows : List ScanRow) (s : Store) : Store :=
  rows.foldl (mergeRow (indexLoadedHops relayPM)) s

def cachePaths (s : Store) (rs : List TxRef) : TxRef → StoreTx := fun r =>
  if r ∈ rs then (s.heap r).cachePath else s.heap r

def buildSubpathIndex (s : Store) : Store :=
  { s with
    heap := s.cachePaths s.packets
    subpaths := s.packets.foldl (fun ix r => ix.addTxToSubpathIndexFull (s.path r) r) SubpathIndex.empty
    spTotalPaths := s.packets.countP fun r => hasSubpaths (s.path r) }

def buildPathHopIndex (s : Store) : Store :=
  { s with
    heap := s.cachePaths s.packets
    byPathHop := retainResolvedPathHops (· ∈ s.packets)
      (s.packets.foldl (fun idx r => addTxToPathHopIndex idx (s.path r) r) Maps.empty) s.byPathHop }

def buildDistanceIndex (env : Env) (s : Store) : Store :=
  s.packets.foldl (addDistances env) { s with distHops := [], distPaths := [] }

def indexByNode (s : Store) (r : TxRef) : Store :=
  { s with nodes := s.nodes.addAll (s.row r).hash r (s.row r).nodeKeys }

def pickAndIndexAll (s : Store) : Store := s.packets.foldl (fun s r => (s.pickBest r).indexByNode r) s

def sortPackets (s : Store) : Store :=
  { s with packets := s.packets.insertionSort fun a b => (s.row a).firstSeen ≤ (s.row b).firstSeen }

/-- After the last chunk; the hot cutoff is there when `hotStartupHours` is set. -/
def finishLoad (env : Env) (hotCutoff : Option String) (s : Store) : Store :=
  let s := s.pickAndIndexAll.sortPackets.buildSubpathIndex.buildPathHopIndex.buildDistanceIndex env
  { s with
    loaded := true
    oldestLoaded := match hotCutoff with
      | some cutoff => cutoff
      | none => match s.packets with
        | r :: _ => (s.row r).firstSeen
        | [] => s.oldestLoaded }

end Store

/-- What `loadChunk` builds before it takes the lock, and of it the packets that
are still to be merged. -/
structure Chunk where
  byHash : GoMap String TxRef
  packets : List TxRef
  pending : List TxRef
  resolvedPKs : GoMap Int (List String)
  byNodePKs : GoMap Int (List String)
  totalObs : Int
  trackedBytes : Int
  maxTxID : Int
  maxObsID : Int

def Chunk.empty : Chunk := ⟨Maps.empty, [], [], Maps.empty, Maps.empty, 0, 0, 0, 0⟩

/-- `accumulateDedup` -/
def accumulateDedup (byTx : GoMap Int (List String)) (txID : Int) (pks : List String) :
    GoMap Int (List String) :=
  if pks = [] then byTx else set byTx txID (bucket byTx txID ++ pks).eraseDups

namespace Store

def newLocalTx (s : Store) (c : Chunk) (tx : TxRow) : Store × Chunk :=
  ({ s with
      heap := Function.update s.heap s.next (StoreTx.ofRow tx).cachePath
      next := s.next + 1 },
    { c with
      byHash := set c.byHash tx.hash s.next
      packets := c.packets ++ [s.next]
      maxTxID := max c.maxTxID tx.id
      trackedBytes := c.trackedBytes + (StoreTx.ofRow tx).estimateStoreTxBytes })

def findOrNewLocal (s : Store) (c : Chunk) (tx : TxRow) : (Store × Chunk) × TxRef :=
  match c.byHash tx.hash with
  | some r => ((s, c), r)
  | none => (s.newLocalTx c tx, s.next)

def collectHops (relayPM : Option PrefixMap) (c : Chunk) (o : ObsRow) : Chunk :=
  if o.resolvedPath ≠ "" then
    { c with
      resolvedPKs := accumulateDedup c.resolvedPKs o.txID
        (extractResolvedPubkeys (unmarshalResolvedPath o.resolvedPath)) }
  else match relayPM with
    | some pm =>
        if o.pathJSON ≠ "" ∧ o.pathJSON ≠ "[]" then
          { c with
            byNodePKs := accumulateDedup c.byNodePKs o.txID
              (extractResolvedPubkeys (resolvePathForObsColdLoad o.pathJSON pm)) }
        else c
    | none => c

def localObs (relayPM : Option PrefixMap) (s : Store) (c : Chunk) (r : TxRef) (o : ObsRow) :
    Store × Chunk :=
  if o.key ∈ (s.heap r).obsKeys then (s, c)
  else
    (s.modify r (·.addObs o.toObs),
      { collectHops relayPM c o with
        totalObs := c.totalObs + 1
        trackedBytes := c.trackedBytes + estimateStoreObsBytes o.toObs
        maxObsID := max c.maxObsID o.id })

def readRow (relayPM : Option PrefixMap) (acc : Store × Chunk) (row : ScanRow) : Store × Chunk :=
  let found := acc.1.findOrNewLocal acc.2 row.tx
  match row.obs with
  | none => found.1
  | some o => localObs relayPM found.1.1 found.1.2 found.2 o

def readChunk (relayPM : Option PrefixMap) (rows : List ScanRow) (s : Store) : Store × Option Chunk :=
  let acc := rows.foldl (readRow relayPM) (s, Chunk.empty)
  let s := acc.2.packets.foldl pickBest acc.1
  (s, if acc.2.packets = [] then none else some { acc.2 with pending := acc.2.packets })

def mergeBatchSize : Nat := 500

def mergeTx (c : Chunk) (s : Store) (r : TxRef) : Store :=
  let s := { s with
    nodes := s.nodes.addAll (s.row r).hash r (s.row r).nodeKeys
    byPayloadType := pushPayloadType s.byPayloadType (s.row r) r
    advertPubkeys := trackAdvertPubkey s.advertPubkeys (s.row r) }
  (s.indexResolvedPathHops r (bucket c.resolvedPKs (s.row r).id)).addAllToByNode r
    (bucket c.byNodePKs (s.row r).id)

def mergePrimary (s : Store) (batch : List TxRef) : Store :=
  let obs := batch.flatMap fun r => (s.heap r).observations
  let batchHashes := batch.foldl (fun m r => set m (s.row r).hash r) Maps.empty
  let batchTxIDs := batch.foldl (fun m r => set m (s.row r).id r) Maps.empty
  let batchObsIDs := obs.foldl (fun m o => set m o.id o) Maps.empty
  { s with
    byHash := fun k => s.byHash k <|> batchHashes k
    byTxID := fun k => s.byTxID k <|> batchTxIDs k
    byObsID := fun k => s.byObsID k <|> batchObsIDs k
    byObserver := (obs.filter fun o => o.observerID ≠ "" && (s.byObsID o.id).isNone).foldl
      (fun m o => push m o.observerID o) s.byObserver }

def mergeBatch (s : Store) (c : Chunk) : Store × Chunk :=
  let batch := c.pending.take mergeBatchSize
  (batch.foldl (mergeTx c) (s.mergePrimary batch), { c with pending := c.pending.drop mergeBatchSize })

def publish (s : Store) (c : Chunk) : Store :=
  { s with
    packets := c.packets ++ s.packets
    totalObs := s.totalObs + c.totalObs
    trackedBytes := s.trackedBytes + c.trackedBytes
    maxTxID := max s.maxTxID c.maxTxID
    maxObsID := max s.maxObsID c.maxObsID }

/-- `loadBackgroundChunks` after its last chunk. -/
def rebuild (s : Store) : Store := s.buildSubpathIndex.buildPathHopIndex

end Store

end MeshcoreAnalyzer.PacketStore

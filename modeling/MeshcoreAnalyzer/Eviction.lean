import MeshcoreAnalyzer.Loading

namespace MeshcoreAnalyzer.PacketStore

open Maps

/-! `evictStaleInternal` of cmd/server/store.go. -/

/-- The settings that eviction goes by. The cutoff is the text of the moment
`retentionHours` ago, and there is none when these are not set. -/
structure Retention where
  cutoff : Option String
  maxMemoryMB : Int

def Retention.highWatermark (ret : Retention) : Int := ret.maxMemoryMB * 1048576

/-- 85 hundredths of the other; the product in floating point is cut off to the
same number below 2^53 bytes. -/
def Retention.lowWatermark (ret : Retention) : Int := ret.highWatermark * 85 / 100

namespace Store

def txBytes (tx : StoreTx) : Int :=
  tx.estimateStoreTxBytes + (tx.observations.map estimateStoreObsBytes).sum

def ageCutoff (s : Store) (ret : Retention) : Nat :=
  match ret.cutoff with
  | some cutoff => (s.packets.takeWhile fun r => (s.row r).firstSeen < cutoff).length
  | none => 0

/-- How many packets have to go until no more than `low` bytes are left. -/
def memCutoff (s : Store) (low : Int) : Int → List TxRef → Nat
  | _, [] => 0
  | tracked, r :: rs => if low < tracked then memCutoff s low (tracked - txBytes (s.heap r)) rs + 1 else 0

/-- The prefix of the packets that is evicted: the old ones, and over the high
watermark as many more as it takes, but at most a quarter at a time. -/
def cutoffIdx (s : Store) (ret : Retention) : Nat :=
  let age := s.ageCutoff ret
  if 0 < ret.maxMemoryMB ∧ ret.highWatermark < s.trackedBytes ∧ s.packets ≠ [] then
    let mem := age + s.memCutoff ret.lowWatermark s.trackedBytes (s.packets.drop age)
    max age (min mem (max (s.packets.length / 4) 1))
  else age

def evicting (s : Store) (ret : Retention) : List TxRef :=
  if ret.cutoff = none ∧ ret.maxMemoryMB ≤ 0 then [] else s.packets.take (s.cutoffIdx ret)

/-- The nodes from whose set the hash of an evicted transmission is taken: those
its decoded packet names, and those of the stored `resolved_path`. -/
def evictedKeys (rpBatch : Int → List String) (tx : TxRow) : List String :=
  tx.decodedKeys ++ (rpBatch tx.id).filter fun pk => pk ≠ "" ∧ pk ∉ tx.decodedKeys

def typesOf (row : TxRef → TxRow) (rs : List TxRef) (pt : Int) : Bool :=
  some pt ∈ rs.map fun r => (row r).payloadType

theorem typesOf_of_mem {row : TxRef → TxRow} {rs : List TxRef} {r : TxRef} (hr : r ∈ rs) {pt : Int}
    (hpt : (row r).payloadType = some pt) : typesOf row rs pt = true := by
  apply decide_eq_true
  rw [← hpt]
  exact List.mem_map_of_mem hr

def evict (s : Store) (rpBatch : Int → List String) (n : Nat) : Store :=
  let evicting := s.packets.take n
  let evictedTxIDs := evicting.map fun r => (s.row r).id
  let evictedObs := evicting.flatMap fun r => (s.heap r).observations
  let affectedNodes := evicting.flatMap fun r => evictedKeys rpBatch (s.row r)
  { s with
    heap := s.cachePaths evicting
    byHash := evicting.foldl (fun m r => delete m (s.row r).hash) s.byHash
    byTxID := evicting.foldl (fun m r => delete m (s.row r).id) s.byTxID
    byObsID := evictedObs.foldl (fun m o => delete m o.id) s.byObsID
    advertPubkeys := evicting.foldl (fun m r => untrackAdvertPubkey m (s.row r)) s.advertPubkeys
    nodes :=
      { byNode := filterKeys (· ∈ affectedNodes) (fun t => (s.row t).id ∉ evictedTxIDs) s.nodes.byNode
        nodeHashes := evicting.foldl (fun m r => (evictedKeys rpBatch (s.row r)).foldl
          (fun m pk => NodeIndex.dropHash m (s.row r).hash pk) m) s.nodes.nodeHashes }
    resolved := (evicting.foldl (fun ix r => ix.removeFromResolvedPubkeyIndex (s.row r).id)
      s.resolved).compact
    subpaths := evicting.foldl (fun ix r => ix.removeTxFromSubpathIndexFull (s.path r) r) s.subpaths
    byPathHop := filterKeys (fun _ => true) (fun t => (s.row t).id ∉ evictedTxIDs) s.byPathHop
    byObserver := filterKeys (fun k => k ≠ "" && k ∈ evictedObs.map (·.observerID))
      (fun o => o.id ∉ evictedObs.map (·.id)) s.byObserver
    byPayloadType := filterKeys (typesOf s.row evicting)
      (fun t => (s.row t).id ∉ evictedTxIDs) s.byPayloadType
    distHops := s.distHops.filter (· ∉ evicting)
    distPaths := s.distPaths.filter (· ∉ evicting)
    packets := s.packets.drop n
    totalObs := s.totalObs - evictedObs.length
    evicted := s.evicted + n
    trackedBytes := max (s.trackedBytes - (evicting.map fun r => txBytes (s.heap r)).sum) 0 }

/-- The keys of `rpBatch` come from the column `resolved_path`; `EvictStale`
passes none. -/
def evictStaleInternal (ret : Retention) (rpBatch : Int → List String) (s : Store) : Store :=
  if ret.cutoff = none ∧ ret.maxMemoryMB ≤ 0 then s
  else if s.cutoffIdx ret = 0 then s
  else s.evict rpBatch (s.cutoffIdx ret)

end Store

end MeshcoreAnalyzer.PacketStore

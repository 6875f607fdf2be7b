import MeshcoreAnalyzer.GraphConsistency
import MeshcoreAnalyzer.Store

namespace MeshcoreAnalyzer.Neighbors

open Maps Runs PacketStore

/-! `BuildFromStoreWithOptions` of cmd/server/neighbor_graph.go: the calls that the
packets of a store bring about, and the two phases after them. -/

/-- A node of `getCachedNodesAndPM`. -/
structure MapNode extends NodeInfo where
  lat : ℚ
  lon : ℚ
  hasGPS : Bool

/-- `pathTrust` is `MinHashBytesForMapping`, where there is a configuration. -/
structure BuildOptions where
  maxEdgeKm : ℚ
  pathTrust : Option Int

def minHashBytesOrDefault (cfg : Option Int) : Int :=
  match cfg with
  | none => 1
  | some n => if n ≤ 0 then 1 else if 3 < n then 3 else n

/-- `packetpath.MeetsPathTrust` -/
def meetsPathTrust (prefixBytes : Nat) (cfg : Option Int) : Bool :=
  let minBytes := minHashBytesOrDefault cfg
  if minBytes ≤ 1 then true
  else if prefixBytes = 0 then false
  else minBytes ≤ prefixBytes

/-- The keys of a Go map in the order in which one `range` over it runs. -/
structure KeyOrder where
  order : List EdgeKey → List EdgeKey
  perm : ∀ l, (order l).Perm l

/-- Where the nodes are; of several entries for one key the last one counts. -/
def nodeGeo (allNodes : List MapNode) : GoMap String NodeGeoInfo :=
  allNodes.foldl (fun m n => Maps.set m (toLower n.publicKey) ⟨n.lat, n.lon, n.hasGPS⟩) Maps.empty

def hasFullOriginator (tx : TxRow) : Bool :=
  tx.payloadType = some payloadADVERT ∨ tx.payloadType = some payloadANON_REQ

def originatorCall (pm : PrefixMap) (opts : BuildOptions) (fromLower : String) (obs : StoreObs) (hop : String) :
    List Action :=
  if fromLower ≠ toLower hop ∧ meetsPathTrust (hop.utf8ByteSize / 2) opts.pathTrust then
    [.upsertEdgeWithCandidates fromLower (toLower hop) (bucket pm.m (toLower hop)) (toLower obs.observerID) obs.snr
      (parseTimestamp obs.timestamp)]
  else []

def observerCall (pm : PrefixMap) (opts : BuildOptions) (obs : StoreObs) (hop : String) : List Action :=
  if toLower obs.observerID ≠ toLower hop ∧ meetsPathTrust (hop.utf8ByteSize / 2) opts.pathTrust then
    [.upsertEdgeWithCandidates (toLower obs.observerID) (toLower hop) (bucket pm.m (toLower hop))
      (toLower obs.observerID) obs.snr (parseTimestamp obs.timestamp)]
  else []

def observationCalls (pm : PrefixMap) (opts : BuildOptions) (tx : TxRow) (obs : StoreObs) : List Action :=
  let fromLower := toLower tx.extractFromNode
  let full := hasFullOriginator tx && fromLower ≠ ""
  match parsePathJSON obs.pathJSON with
  | [] =>
      if full ∧ fromLower ≠ toLower obs.observerID then
        [.upsertEdge fromLower (toLower obs.observerID) "" (toLower obs.observerID) obs.snr
          (parseTimestamp obs.timestamp)]
      else []
  | first :: rest =>
      (if full then originatorCall pm opts fromLower obs first else []) ++
        observerCall pm opts obs ((first :: rest).getLast (List.cons_ne_nil first rest))

def storeCalls (s : Store) (pm : PrefixMap) (opts : BuildOptions) : List Action :=
  s.packets.flatMap fun r => (s.heap r).observations.flatMap (observationCalls pm opts (s.row r))

variable (haversineKm : Distance) (s : Store) (allNodes : List MapNode) (pm : PrefixMap)
  (tiers : NeighborGraph → Tiers) (opts : BuildOptions) (ambiguousOrder edgeOrder : KeyOrder)

def collected : NeighborGraph :=
  (storeCalls s pm opts).foldl (step haversineKm) (.new opts.maxEdgeKm (some (nodeGeo allNodes)))

def contextResolved : NeighborGraph :=
  let g := collected haversineKm s allNodes pm opts
  g.resolveAmbiguousEdges pm tiers (ambiguousOrder.order g.edges.keys)

def buildFromStoreWithOptions : NeighborGraph :=
  let g := contextResolved haversineKm s allNodes pm tiers opts ambiguousOrder
  g.disambiguate (edgeOrder.order g.edges.keys)

end MeshcoreAnalyzer.Neighbors

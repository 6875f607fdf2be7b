import MeshcoreAnalyzer.Resolver
import Mathlib.Algebra.Order.Field.Rat
import Mathlib.Data.Finset.Card
import Mathlib.Data.List.AList

namespace MeshcoreAnalyzer.Neighbors

open Maps Timestamps PacketStore

/-! `NeighborGraph` of cmd/server/neighbor_graph.go: the edges that observations bring
in, and the two phases that resolve the ambiguous ones. -/

structure EdgeKey where
  a : String
  b : String
deriving DecidableEq

def makeEdgeKey (a b : String) : EdgeKey := if b < a then ⟨b, a⟩ else ⟨a, b⟩

def pseudo (hop : String) : String := "prefix:" ++ hop

/-- `strings.HasPrefix(s, "prefix:")` -/
def isPseudo (s : String) : Bool := "prefix:".toList.isPrefixOf s.toList

/-- An edge; `hop` is the field `Prefix`, and `nodeB` is empty as long as the edge is
ambiguous. -/
structure NeighborEdge where
  nodeA : String
  nodeB : String
  hop : String
  count : Nat
  firstSeen : Int
  lastSeen : Int
  snrSum : Float
  snrCount : Nat
  observers : Finset String
  ambiguous : Bool
  candidates : List String
  resolved : Bool
  countsByMode : GoMap Nat Nat

def modeOf (hop : String) : Nat :=
  let bytes := hop.utf8ByteSize / 2
  if bytes = 1 ∨ bytes = 2 ∨ bytes = 3 then bytes else 0

def tally (m : GoMap Nat Nat) (k : Nat) : Nat := (m k).getD 0

def incCountsByMode (m : GoMap Nat Nat) (hop : String) : GoMap Nat Nat :=
  Maps.set m (modeOf hop) (tally m (modeOf hop) + 1)

def addCountsByMode (m m' : GoMap Nat Nat) : GoMap Nat Nat := fun k =>
  match m' k with
  | some c => some (tally m k + c)
  | none => m k

namespace NeighborEdge

def new (nodeA nodeB hop : String) (ambiguous : Bool) (candidates : List String) (ts : Int) : NeighborEdge where
  nodeA := nodeA
  nodeB := nodeB
  hop := hop
  count := 0
  firstSeen := ts
  lastSeen := ts
  snrSum := 0
  snrCount := 0
  observers := ∅
  ambiguous := ambiguous
  candidates := candidates
  resolved := false
  countsByMode := Maps.empty

def observe (e : NeighborEdge) (hop observer : String) (snr : Option Float) (ts : Int) : NeighborEdge :=
  { e with
    count := e.count + 1
    countsByMode := incCountsByMode e.countsByMode hop
    lastSeen := if e.lastSeen < ts then ts else e.lastSeen
    firstSeen := if ts < e.firstSeen then ts else e.firstSeen
    snrSum := match snr with
      | some snr => e.snrSum + snr
      | none => e.snrSum
    snrCount := if snr.isSome then e.snrCount + 1 else e.snrCount
    observers := if observer ≠ "" then insert observer e.observers else e.observers }

def merge (existing e : NeighborEdge) : NeighborEdge :=
  { existing with
    count := existing.count + e.count
    lastSeen := if existing.lastSeen < e.lastSeen then e.lastSeen else existing.lastSeen
    firstSeen := if e.firstSeen < existing.firstSeen then e.firstSeen else existing.firstSeen
    snrSum := existing.snrSum + e.snrSum
    snrCount := existing.snrCount + e.snrCount
    observers := existing.observers ∪ e.observers
    countsByMode := addCountsByMode existing.countsByMode e.countsByMode }

end NeighborEdge

structure NodeGeoInfo where
  lat : ℚ
  lon : ℚ
  hasGPS : Bool

abbrev EdgeRef := Nat

/-- The edges are objects behind pointers, of which `next` is the first that is free. -/
structure NeighborGraph where
  heap : EdgeRef → NeighborEdge
  next : EdgeRef
  edges : AList fun _ : EdgeKey => EdgeRef
  byNode : GoMap String (List EdgeRef)
  rejectedEdgesGeoFar : Nat
  maxEdgeKm : ℚ
  nodeGeo : Option (GoMap String NodeGeoInfo)

/-- `haversineKm`, the distance in kilometres: floating point. -/
abbrev Distance := ℚ → ℚ → ℚ → ℚ → ℚ

namespace NeighborGraph

/-- `NewNeighborGraph`, with the fields that the builder sets. -/
def new (maxEdgeKm : ℚ) (nodeGeo : Option (GoMap String NodeGeoInfo)) : NeighborGraph where
  heap := fun _ => .new "" "" "" false [] 0
  next := 0
  edges := ∅
  byNode := Maps.empty
  rejectedEdgesGeoFar := 0
  maxEdgeKm := maxEdgeKm
  nodeGeo := nodeGeo

def modify (g : NeighborGraph) (r : EdgeRef) (f : NeighborEdge → NeighborEdge) : NeighborGraph :=
  { g with heap := Function.update g.heap r (f (g.heap r)) }

def addEdge (g : NeighborGraph) (key : EdgeKey) (e : NeighborEdge) (nodes : List String) : NeighborGraph :=
  { g with
    heap := Function.update g.heap g.next e
    next := g.next + 1
    edges := g.edges.insert key g.next
    byNode := pushAll g.byNode nodes g.next }

def shouldRejectGeoFar (haversineKm : Distance) (g : NeighborGraph) (a b : String) : Bool :=
  if g.maxEdgeKm ≤ 0 then false
  else match g.nodeGeo with
    | none => false
    | some nodeGeo =>
        if isPseudo a ∨ isPseudo b then false
        else match nodeGeo a, nodeGeo b with
          | some ga, some gb =>
              if !ga.hasGPS ∨ !gb.hasGPS then false
              else g.maxEdgeKm < haversineKm ga.lat ga.lon gb.lat gb.lon
          | _, _ => false

def upsertEdge (haversineKm : Distance) (g : NeighborGraph) (pubkeyA pubkeyB hop observer : String)
    (snr : Option Float) (ts : Int) : NeighborGraph :=
  if g.shouldRejectGeoFar haversineKm pubkeyA pubkeyB then
    { g with rejectedEdgesGeoFar := g.rejectedEdgesGeoFar + 1 }
  else
    let key := makeEdgeKey pubkeyA pubkeyB
    match g.edges.lookup key with
    | some r => g.modify r (·.observe hop observer snr ts)
    | none =>
        (g.addEdge key (.new key.a key.b hop false [] ts) [key.a, key.b]).modify g.next
          (·.observe hop observer snr ts)

def otherCandidates (knownPK : String) (candidates : List NodeInfo) : List String :=
  (candidates.map (toLower ·.publicKey)).filter (· ≠ knownPK)

def upsertAmbiguous (g : NeighborGraph) (knownPK hop : String) (filtered : List String) (observer : String)
    (snr : Option Float) (ts : Int) : NeighborGraph :=
  let key := makeEdgeKey knownPK (pseudo hop)
  match g.edges.lookup key with
  | some r => g.modify r (·.observe hop observer snr ts)
  | none =>
      (g.addEdge key (.new key.a "" hop true filtered ts) [knownPK]).modify g.next
        (·.observe hop observer snr ts)

def upsertEdgeWithCandidates (haversineKm : Distance) (g : NeighborGraph) (knownPK hop : String)
    (candidates : List NodeInfo) (observer : String) (snr : Option Float) (ts : Int) : NeighborGraph :=
  match candidates with
  | [n] =>
      if toLower n.publicKey = knownPK then g
      else g.upsertEdge haversineKm knownPK (toLower n.publicKey) hop observer snr ts
  | _ =>
      match otherCandidates knownPK candidates with
      | [pk] => g.upsertEdge haversineKm knownPK pk hop observer snr ts
      | filtered => g.upsertAmbiguous knownPK hop filtered observer snr ts

def removeFromByNode (byNode : GoMap String (List EdgeRef)) (nodeKey : String) (r : EdgeRef) :
    GoMap String (List EdgeRef) :=
  if r ∈ bucket byNode nodeKey then Maps.set byNode nodeKey ((bucket byNode nodeKey).erase r) else byNode

def settle (e : NeighborEdge) (key : EdgeKey) : NeighborEdge :=
  { e with nodeA := key.a, nodeB := key.b, ambiguous := false, resolved := true }

def detach (g : NeighborGraph) (oldKey : EdgeKey) (r : EdgeRef) (newKey : EdgeKey) : NeighborGraph :=
  { g with
    edges := g.edges.erase oldKey
    byNode := removeFromByNode (removeFromByNode g.byNode oldKey.a r) oldKey.b r
    heap := Function.update g.heap r (settle (g.heap r) newKey) }

def attach (g : NeighborGraph) (r : EdgeRef) (newKey : EdgeKey) : NeighborGraph :=
  match g.edges.lookup newKey with
  | some existing => g.modify existing (·.merge (g.heap r))
  | none =>
      { g with
        edges := g.edges.insert newKey r
        byNode := pushAll g.byNode [newKey.a, newKey.b] r }

def resolveEdge (g : NeighborGraph) (oldKey : EdgeKey) (r : EdgeRef) (knownNode resolvedPK : String) :
    NeighborGraph :=
  let newKey := makeEdgeKey knownNode resolvedPK
  (g.detach oldKey r newKey).attach r newKey

def knownNode (e : NeighborEdge) : String := if isPseudo e.nodeA then e.nodeB else e.nodeA

structure AmbiguousEntry where
  key : EdgeKey
  edge : EdgeRef
  knownNode : String
  hop : String

def ambiguousEntry (g : NeighborGraph) (key : EdgeKey) : Option AmbiguousEntry := do
  let r ← g.edges.lookup key
  let e := g.heap r
  if !e.ambiguous ∨ knownNode e = "" then none else some ⟨key, r, knownNode e, e.hop⟩

/-- The node that a hop is resolved to. The upper tiers of `resolveWithContext` weigh
the graph and the positions in floating point; where they leave the choice to the lower
ones it is not used. -/
def resolution (pm : PrefixMap) (tiers : NeighborGraph → Tiers) (g : NeighborGraph) (ae : AmbiguousEntry) :
    Option (AmbiguousEntry × String) := do
  let resolved ← pm.resolveWithContext (tiers g) ae.hop [ae.knownNode]
  if toLower resolved.publicKey = ae.knownNode then none else some (ae, toLower resolved.publicKey)

def applyResolution (g : NeighborGraph) (r : AmbiguousEntry × String) : NeighborGraph :=
  match g.edges.lookup r.1.key with
  | some e => if (g.heap e).ambiguous then g.resolveEdge r.1.key e r.1.knownNode r.2 else g
  | none => g

/-- `keys` are those of the edges, as the range over them comes to them. -/
def resolveAmbiguousEdges (pm : PrefixMap) (tiers : NeighborGraph → Tiers) (keys : List EdgeKey)
    (g : NeighborGraph) : NeighborGraph :=
  ((keys.filterMap g.ambiguousEntry).filterMap (resolution pm tiers g)).foldl applyResolution g

def resolvedNeighbors (g : NeighborGraph) : String → Finset String :=
  g.edges.entries.foldl (fun m p =>
    let e := g.heap p.2
    if e.ambiguous ∨ e.nodeB = "" then m
    else
      let m := Function.update m e.nodeA (insert e.nodeB (m e.nodeA))
      Function.update m e.nodeB (insert e.nodeA (m e.nodeB))) fun _ => ∅

/-- A rational for a `float64`: the quotients of `jaccardSimilarity` and `disambiguation` before they are rounded. -/
def jaccardSimilarity (a b : Finset String) : ℚ :=
  if (a ∪ b).card = 0 then 0 else (a ∩ b).card / (a ∪ b).card

def bestOf (acc : (String × ℚ) × (String × ℚ)) (z : String × ℚ) : (String × ℚ) × (String × ℚ) :=
  if acc.1.2 < z.2 then (z, acc.1) else if acc.2.2 < z.2 then (acc.1, z) else acc

def bestTwo : List (String × ℚ) → Option ((String × ℚ) × (String × ℚ))
  | x :: y :: rest => some (rest.foldl bestOf (if x.2 < y.2 then (y, x) else (x, y)))
  | _ => none

def affinityConfidenceRatio : ℚ := 3
def affinityMinObservations : Nat := 3

def disambiguation (neighbors : String → Finset String) (e : NeighborEdge) : Option String := do
  if !e.ambiguous ∨ e.candidates.length < 2 then none
  else if e.count < affinityMinObservations then none
  else if knownNode e = "" then none
  else
    let (best, second) ← bestTwo (e.candidates.map fun cand =>
      (cand, jaccardSimilarity (neighbors (knownNode e)) (neighbors cand)))
    if second.2 = 0 then (if 0 < best.2 then some best.1 else none)
    else if affinityConfidenceRatio ≤ best.2 / second.2 then some best.1
    else none

def disambiguateKey (neighbors : String → Finset String) (g : NeighborGraph) (key : EdgeKey) : NeighborGraph :=
  match g.edges.lookup key with
  | none => g
  | some r =>
      match disambiguation neighbors (g.heap r) with
      | some pk => g.resolveEdge key r (knownNode (g.heap r)) pk
      | none => g

/-- An edge that comes in while the range goes on is not ambiguous: whether the range
comes to it or not makes no difference. -/
def disambiguate (keys : List EdgeKey) (g : NeighborGraph) : NeighborGraph :=
  keys.foldl (disambiguateKey g.resolvedNeighbors) g

def pruneKey (cutoff : Int) (g : NeighborGraph) (key : EdgeKey) : NeighborGraph :=
  match g.edges.lookup key with
  | none => g
  | some r =>
      let e := g.heap r
      if e.lastSeen < cutoff then
        let byNode := removeFromByNode g.byNode e.nodeA r
        { g with
          byNode := if e.nodeB ≠ "" then removeFromByNode byNode e.nodeB r else byNode
          edges := g.edges.erase key }
      else g

def pruneOlderThan (cutoff : Int) (keys : List EdgeKey) (g : NeighborGraph) : NeighborGraph :=
  keys.foldl (pruneKey cutoff) g

end NeighborGraph

/-- `parseTimestamp`: two of its four layouts take nothing that the others do not take. -/
def parseTimestamp (s : String) : Int :=
  (parseRFC3339 s <|> parseBlank s <|> parseMillisZ s).getD zeroTime

end MeshcoreAnalyzer.Neighbors

import MeshcoreAnalyzer.Faces
import MeshcoreAnalyzer.Firsts
import MeshcoreAnalyzer.GraphBuilder
import Mathlib.Data.Rat.Floor

namespace MeshcoreAnalyzer.PacketStore.Distances

open Maps Json Neighbors Store

/-! The distance index of cmd/server/store.go with the records in it: which ones
`computeDistancesForTx` makes of a transmission, and how the operations keep them. -/

/-- A node of `getCachedNodesAndPM` with what a record takes of it. -/
structure DistNode extends MapNode where
  name : String
  role : String

/-- Whether both ends of a hop are repeaters, one of them or none. -/
inductive HopType
  | rr
  | cr
  | cc

structure DistHopRecord where
  fromName : String
  fromPk : String
  toName : String
  toPk : String
  dist : ℚ
  type : HopType
  snr : Option Float
  hash : String
  timestamp : String
  hourBucket : List UInt8
  tx : TxRef

structure DistHopDetail where
  fromName : String
  fromPk : String
  toName : String
  toPk : String
  dist : ℚ

structure DistPathRecord where
  hash : String
  totalDist : ℚ
  hopCount : Nat
  timestamp : String
  hops : List DistHopDetail
  tx : TxRef

/-- What the distances depend on besides the transmissions. The neighbour graph is
in `tiers`, with the clock that its scores are weighed by. -/
structure Network where
  allNodes : List DistNode
  pm : PrefixMap
  tiers : Tiers
  haversineKm : Distance

namespace Network

variable (net : Network)

def nodeByPk : GoMap String DistNode :=
  net.allNodes.foldl (fun m n => set m n.publicKey n) Maps.empty

def repeaterSet (pk : String) : Bool :=
  net.allNodes.any fun n => n.publicKey = pk && contains (toLower n.role) "repeater"

/-- `resolveWithContext` with the prefix map and the graph of the network. The nodes
of the prefix map are those of the list. -/
def resolveWithContext (hop : String) (contextPubkeys : List String) : Option DistNode :=
  (net.pm.resolveWithContext net.tiers hop contextPubkeys).bind fun n => net.nodeByPk n.publicKey

end Network

def isHexLower (s : String) : Bool :=
  s ≠ "" && s.toList.all fun c => ('0' ≤ c && c ≤ '9') || ('a' ≤ c && c ≤ 'f')

def senderKey (tx : TxRow) : Option String := tx.parsedDecoded.bind (stringField · "pubKey")

/-- The keys in `out`: the sender's, the observer's and those of the hops with one candidate. -/
def buildHopContextPubkeys (pm : PrefixMap) (tx : StoreTx) : List String :=
  let observer := if tx.observerID ≠ "" ∧ 4 ≤ tx.observerID.utf8ByteSize ∧ isHexLower (toLower tx.observerID) then
    [tx.observerID] else []
  let anchors := tx.txGetParsedPath.filterMap fun hop => match pm.m (toLower hop) with
    | some [n] => some n.publicKey
    | _ => none
  Firsts.firsts id [] ((((senderKey tx.toTxRow).toList ++ observer ++ anchors).filter (· ≠ "")).map toLower)

/-- The two closures of `hopResolverPerTx`, by the variables that they share. -/
structure HopResolver where
  contextPubkeys : List String
  hopCache : GoMap String (Option DistNode)

namespace HopResolver

def new : HopResolver := ⟨[], Maps.empty⟩

def setContext (_ : HopResolver) (ctx : List String) : HopResolver := ⟨ctx, Maps.empty⟩

def resolveHop (net : Network) (h : HopResolver) (hop : String) : Option DistNode × HopResolver :=
  match h.hopCache hop with
  | some cached => (cached, h)
  | none =>
      let r := net.resolveWithContext hop h.contextPubkeys
      (r, { h with hopCache := set h.hopCache hop r })

def resolveHops (net : Network) : HopResolver → List String → List (Option DistNode) × HopResolver
  | h, [] => ([], h)
  | h, hop :: hops =>
      let found := h.resolveHop net hop
      let rest := resolveHops net found.2 hops
      (found.1 :: rest.1, rest.2)

def Current (net : Network) (h : HopResolver) : Prop :=
  ∀ hop r, h.hopCache hop = some r → r = net.resolveWithContext hop h.contextPubkeys

theorem current_setContext (net : Network) (h : HopResolver) (ctx : List String) :
    (h.setContext ctx).Current net := fun _ _ hr => (by cases hr)

theorem resolveHop_spec {net : Network} {h : HopResolver} (hh : h.Current net) (hop : String) :
    (h.resolveHop net hop).1 = net.resolveWithContext hop h.contextPubkeys ∧
      (h.resolveHop net hop).2.Current net ∧ (h.resolveHop net hop).2.contextPubkeys = h.contextPubkeys := by
  rw [resolveHop]
  split
  · next cached hc => exact ⟨hh hop cached hc, hh, rfl⟩
  · refine ⟨rfl, ?_, rfl⟩
    intro k r hr
    rcases set_eq_some.mp hr with ⟨rfl, rfl⟩ | ⟨_, hr⟩
    · rfl
    · exact hh k r hr

theorem resolveHops_eq {net : Network} {h : HopResolver} (hh : h.Current net) (hops : List String) :
    (h.resolveHops net hops).1 = hops.map (net.resolveWithContext · h.contextPubkeys) := by
  induction hops generalizing h with
  | nil => rfl
  | cons hop hops ih =>
      obtain ⟨hfound, hcurrent, hctx⟩ := resolveHop_spec hh hop
      change (h.resolveHop net hop).1 :: (resolveHops net (h.resolveHop net hop).2 hops).1 = _
      rw [hfound, ih hcurrent, hctx]
      rfl

end HopResolver

/-- `math.Round(x*100) / 100` -/
def roundHundredths (x : ℚ) : ℚ :=
  (if 0 ≤ x then ⌊x * 100 + 1 / 2⌋ else ⌈x * 100 - 1 / 2⌉) / 100

def hopType (net : Network) (a b : DistNode) : HopType :=
  if net.repeaterSet a.publicKey && net.repeaterSet b.publicKey then .rr
  else if !net.repeaterSet a.publicKey && !net.repeaterSet b.publicKey then .cc
  else .cr

def chain (net : Network) (tx : TxRow) (resolved : List (Option DistNode)) : List DistNode :=
  let senderNode := match senderKey tx with
    | some pk => if pk ≠ "" then net.nodeByPk pk else none
    | none => none
  (senderNode :: resolved).filterMap fun n => n.filter (·.hasGPS)

def legs (net : Network) (nodes : List DistNode) : List (DistNode × DistNode × ℚ) :=
  ((nodes.zip nodes.tail).map fun p => (p.1, p.2, net.haversineKm p.1.lat p.1.lon p.2.lat p.2.lon)).filter
    (·.2.2 ≤ 300)

def hopRecord (net : Network) (r : TxRef) (tx : StoreTx) (leg : DistNode × DistNode × ℚ) : DistHopRecord where
  fromName := leg.1.name
  fromPk := leg.1.publicKey
  toName := leg.2.1.name
  toPk := leg.2.1.publicKey
  dist := roundHundredths leg.2.2
  type := hopType net leg.1 leg.2.1
  snr := tx.snr
  hash := tx.hash
  timestamp := tx.firstSeen
  hourBucket := if 13 ≤ tx.firstSeen.utf8ByteSize then tx.firstSeen.toUTF8.toList.take 13 else []
  tx := r

def hopDetail (leg : DistNode × DistNode × ℚ) : DistHopDetail where
  fromName := leg.1.name
  fromPk := leg.1.publicKey
  toName := leg.2.1.name
  toPk := leg.2.1.publicKey
  dist := roundHundredths leg.2.2

def pathRecord (r : TxRef) (tx : StoreTx) (ls : List (DistNode × DistNode × ℚ)) : DistPathRecord where
  hash := tx.hash
  totalDist := roundHundredths (ls.map (·.2.2)).sum
  hopCount := ls.length
  timestamp := tx.firstSeen
  hops := ls.map hopDetail
  tx := r

def recordsOf (net : Network) (r : TxRef) (tx : StoreTx) (resolved : List (Option DistNode)) :
    List DistHopRecord × Option DistPathRecord :=
  let ls := legs net (chain net tx.toTxRow resolved)
  if ls = [] then ([], none) else (ls.map (hopRecord net r tx), some (pathRecord r tx ls))

def computeDistancesForTx (net : Network) (r : TxRef) (tx : StoreTx) (resolver : HopResolver) :
    (List DistHopRecord × Option DistPathRecord) × HopResolver :=
  if tx.txGetParsedPath = [] then (([], none), resolver)
  else
    let resolved := resolver.resolveHops net tx.txGetParsedPath
    (recordsOf net r tx resolved.1, resolved.2)

structure DistanceIndex where
  distHops : List DistHopRecord
  distPaths : List DistPathRecord

namespace DistanceIndex

def empty : DistanceIndex := ⟨[], []⟩

def append (ix : DistanceIndex) (recs : List DistHopRecord × Option DistPathRecord) : DistanceIndex :=
  ⟨ix.distHops ++ recs.1, ix.distPaths ++ recs.2.toList⟩

def addTx (net : Network) (heap : TxRef → StoreTx) (acc : DistanceIndex × HopResolver) (r : TxRef) :
    DistanceIndex × HopResolver :=
  let found := computeDistancesForTx net r (heap r)
    (acc.2.setContext (buildHopContextPubkeys net.pm (heap r)))
  (acc.1.append found.1, found.2)

def addAll (net : Network) (heap : TxRef → StoreTx) (ix : DistanceIndex) (rs : List TxRef) : DistanceIndex :=
  (rs.foldl (addTx net heap) (ix, .new)).1

def without (ix : DistanceIndex) (gone : List TxRef) : DistanceIndex :=
  ⟨ix.distHops.filter (·.tx ∉ gone), ix.distPaths.filter (·.tx ∉ gone)⟩

def updateDistanceIndexForTxs (net : Network) (heap : TxRef → StoreTx) (ix : DistanceIndex) (txs : List TxRef) :
    DistanceIndex := (ix.without txs).addAll net heap txs

end DistanceIndex

def buildDistanceIndex (net : Network) (s : Store) : DistanceIndex := DistanceIndex.empty.addAll net s.heap s.packets

/-- The store together with its distance records. -/
structure IndexedStore where
  store : Store
  index : DistanceIndex

namespace IndexedStore

variable (net : Network)

def built (s : Store) : IndexedStore := ⟨s, buildDistanceIndex net s⟩

def ingestNewFromDB (env : Env) (sinceID limit : Int) (rows : List ScanRow) (y : IndexedStore) : IndexedStore :=
  let tempRows := takeTxs (if limit ≤ 0 then 100 else limit) sinceID 0 rows
  let acc := tempRows.foldl (ingestRow env) (y.store, [])
  let s := (env.pickOrder.refs acc.2).foldl pickBest acc.1
  let s := (env.indexOrder.refs acc.2).foldl addPaths s
  ⟨(y.store.ingestNewFromDB env sinceID limit rows).1, y.index.addAll net s.heap (env.distOrder.refs acc.2)⟩

def ingestNewObservations (env : Env) (limit : Int) (rows : List ObsRow) (y : IndexedStore) : IndexedStore :=
  let acc := (rows.take (if limit ≤ 0 then 500 else limit).toNat).foldl (lateRow env) (y.store, [])
  let oldPath := fun r => (acc.1.heap r).pathJSON
  let s := (env.pickOrder.refs acc.2).foldl pickBest acc.1
  let s := (env.indexOrder.refs acc.2).foldl (repath oldPath) s
  let changedTxs := (env.distOrder.refs acc.2).filter (s.pathChanged oldPath)
  ⟨y.store.ingestNewObservations env limit rows,
    if changedTxs = [] then y.index else y.index.updateDistanceIndexForTxs net s.heap changedTxs⟩

def evictStaleInternal (ret : Retention) (rpBatch : Int → List String) (y : IndexedStore) : IndexedStore :=
  ⟨y.store.evictStaleInternal ret rpBatch, y.index.without (y.store.evicting ret)⟩

def live (y : IndexedStore) : LiveAction → IndexedStore
  | .ingestNewFromDB env sinceID limit rows => y.ingestNewFromDB net env sinceID limit rows
  | .ingestNewObservations env limit rows => y.ingestNewObservations net env limit rows
  | .evict ret rpBatch => y.evictStaleInternal ret rpBatch

@[simp] theorem store_live (y : IndexedStore) (a : LiveAction) : (y.live net a).store = y.store.live a := by
  cases a <;> rfl

def run (y : IndexedStore) (acts : List LiveAction) : IndexedStore := acts.foldl (live net) y

end IndexedStore

end MeshcoreAnalyzer.PacketStore.Distances

import MeshcoreAnalyzer.NeighborGraph
import MeshcoreAnalyzer.Picks

namespace MeshcoreAnalyzer.HopTiers

open Maps Neighbors PacketStore Picks

/-! `resolveWithContext` of cmd/server/store.go with all its tiers, and the two resolutions of a path in
cmd/server/neighbor_persist.go. Scores, confidences and positions are exact. -/

/-- `nodeInfo`, as far as it decides about hops. -/
structure Node extends NodeInfo where
  role : String
  lat : ℚ
  lon : ℚ
  hasGPS : Bool
  observationCount : Int
deriving DecidableEq

structure NodeMap where
  m : GoMap String (List Node)
  nonRelay : Finset String

def maxPrefixLen : Nat := 8

def canAppearInPath (role : String) : Bool :=
  let r := toLower role
  contains r "repeater" || contains r "room_server" || r = "room"

def prefixKeys (pk : String) : List String :=
  (List.range' 2 (min maxPrefixLen pk.length - 1)).map (fun l => String.ofList (pk.toList.take l)) ++
    if maxPrefixLen < pk.length then [pk] else []

def addNode (m : GoMap String (List Node)) (n : Node) : GoMap String (List Node) :=
  if canAppearInPath n.role then pushAll m (prefixKeys (toLower n.publicKey)) n else m

def buildPrefixMap (nodes : List Node) : GoMap String (List Node) := nodes.foldl addNode Maps.empty

/-- What is computed in floating point: `Score` of an edge at the time of the call, and `geoDistApprox`. -/
structure Figures where
  score : NeighborEdge → ℚ
  geoDistApprox : ℚ → ℚ → ℚ → ℚ → ℚ

def affinityObserverSaturation : ℚ := 3

def confidence (e : NeighborEdge) : ℚ := min 1 (max 1 (e.observers.card : ℚ) / affinityObserverSaturation)

structure Link where
  otherPK : String
  score : ℚ
  count : Nat

def neighbors (graph : NeighborGraph) (pubkey : String) : List NeighborEdge :=
  (bucket graph.byNode (toLower pubkey)).map graph.heap

def linkOf (w : Figures) (ctxPK : String) (e : NeighborEdge) : Link where
  otherPK := if e.nodeA = ctxPK then e.nodeB else e.nodeA
  score := w.score e * confidence e
  count := e.count

def links (w : Figures) (graph : NeighborGraph) (ctxPK : String) : List Link :=
  ((neighbors graph ctxPK).filter fun e => !e.ambiguous).map (linkOf w ctxPK)

def candByPK (candidates : List Node) : GoMap String Nat :=
  candidates.zipIdx.foldl (fun m c => Maps.set m (toLower c.1.publicKey) c.2) Maps.empty

def scoreLink (byPK : GoMap String Nat) (best : Nat → ℚ × Nat) (link : Link) : Nat → ℚ × Nat :=
  match byPK link.otherPK with
  | none => best
  | some ci => if (best ci).1 < link.score then Function.update best ci (link.score, link.count) else best

structure Scored where
  idx : Nat
  score : ℚ
  count : Nat

def raise (x : Scored) : List Scored → Scored × List Scored
  | [] => (x, [])
  | y :: ys =>
      if x.score < y.score then ((raise y ys).1, x :: (raise y ys).2) else ((raise x ys).1, y :: (raise x ys).2)

def exchangeSort : Nat → List Scored → List Scored
  | _, [] => []
  | 0, l => l
  | n + 1, x :: xs => (raise x xs).1 :: exchangeSort n (raise x xs).2

def scores (w : Figures) (graph : NeighborGraph) (candidates : List Node) (lowerCtx : List String) : List Scored :=
  let best := (lowerCtx.flatMap (links w graph)).foldl (scoreLink (candByPK candidates)) fun _ => (0, 0)
  (List.range candidates.length).filterMap fun i =>
    if 0 < (best i).1 then some ⟨i, (best i).1, (best i).2⟩ else none

def decisive : List Scored → Option Scored
  | [] => none
  | [best] => if NeighborGraph.affinityMinObservations ≤ best.count then some best else none
  | best :: next :: _ =>
      if NeighborGraph.affinityMinObservations ≤ best.count ∧
          NeighborGraph.affinityConfidenceRatio * next.score ≤ best.score then some best else none

def affinity (w : Figures) (graph : Option NeighborGraph) (candidates : List Node) (contextPubkeys : List String) :
    Option (Node × ℚ) := do
  let graph ← graph
  let scores := scores w graph candidates (contextPubkeys.map toLower)
  let best ← decisive (exchangeSort (scores.length - 1) scores)
  let n ← candidates[best.idx]?
  some (n, best.score)

def located (pm : NodeMap) (ctxPK : String) : Option Node :=
  match bucket pm.m (toLower ctxPK) with
  | [n] => if n.hasGPS then some n else none
  | _ => none

def contextCentre (pm : NodeMap) (contextPubkeys : List String) : Option (ℚ × ℚ) :=
  match contextPubkeys.filterMap (located pm) with
  | [] => none
  | ns => some ((ns.map fun n => n.lat).sum / ns.length, (ns.map fun n => n.lon).sum / ns.length)

def nearer (w : Figures) (centre : ℚ × ℚ) (a b : Node) : Bool :=
  w.geoDistApprox centre.1 centre.2 a.lat a.lon < w.geoDistApprox centre.1 centre.2 b.lat b.lon

def withGPS (candidates : List Node) : List Node := candidates.filter fun n => n.hasGPS

def geoProximity (w : Figures) (pm : NodeMap) (candidates : List Node) (contextPubkeys : List String) : Option Node :=
  (contextCentre pm contextPubkeys).bind fun centre => pick (nearer w centre) (withGPS candidates)

def betterByObsCount (a b : Node) : Bool :=
  if a.observationCount ≠ b.observationCount then b.observationCount < a.observationCount
  else a.publicKey < b.publicKey

inductive Method
  | noMatch
  | uniquePrefix
  | neighborAffinity
  | geoProximity
  | gpsPreference
  | observationCountFallback
deriving DecidableEq

structure Resolution where
  node : Option Node
  method : Method
  confidence : ℚ

def lowerTiers (w : Figures) (pm : NodeMap) (candidates : List Node) (contextPubkeys : List String) : Resolution :=
  match geoProximity w pm candidates contextPubkeys with
  | some n => ⟨some n, .geoProximity, 0⟩
  | none =>
      match pick betterByObsCount (withGPS candidates) with
      | some n => ⟨some n, .gpsPreference, 0⟩
      | none => ⟨pick betterByObsCount candidates, .observationCountFallback, 0⟩

namespace NodeMap

def candidates (pm : NodeMap) (hop : String) : List Node :=
  (bucket pm.m (toLower hop)).filter fun n => toLower n.publicKey ∉ pm.nonRelay

def resolveWithContext (w : Figures) (pm : NodeMap) (hop : String) (contextPubkeys : List String)
    (graph : Option NeighborGraph) : Resolution :=
  match pm.candidates hop with
  | [] => ⟨none, .noMatch, 0⟩
  | [n] => ⟨some n, .uniquePrefix, 1⟩
  | ns =>
      match affinity w graph ns contextPubkeys with
      | some (n, score) => ⟨some n, .neighborAffinity, score⟩
      | none => lowerTiers w pm ns contextPubkeys

end NodeMap

def Resolution.pubkey (r : Resolution) : Option String := r.node.map fun n => toLower n.publicKey

def resolveHops (w : Figures) (pm : NodeMap) (graph : Option NeighborGraph) (contextPKs : List String) :
    Option String → List String → List Resolution
  | _, [] => []
  | prev, hop :: hops =>
      let r := pm.resolveWithContext w hop (contextPKs ++ prev.toList) graph
      r :: resolveHops w pm graph contextPKs r.pubkey hops

def contextOf (observerID : String) (tx : TxRow) : List String :=
  ([observerID, tx.extractFromNode].filter (· ≠ "")).map toLower

/-- The resolutions behind `resolvePathForObs`. -/
def liveResolutions (w : Figures) (pathJSON observerID : String) (tx : TxRow) (pm : NodeMap)
    (graph : Option NeighborGraph) : List Resolution :=
  resolveHops w pm graph (contextOf observerID tx) none (parsePathJSON pathJSON)

def resolvePathForObs (w : Figures) (pathJSON observerID : String) (tx : TxRow) (pm : NodeMap)
    (graph : Option NeighborGraph) : List (Option String) :=
  (liveResolutions w pathJSON observerID tx pm graph).map Resolution.pubkey

def resolveColdHops (pm : NodeMap) : List String → Option Nat → List (Option String) × Option Nat
  | [], skipped => ([], skipped)
  | hop :: hops, skipped =>
      let candidates := pm.candidates hop
      match candidates with
      | [n] =>
          let rest := resolveColdHops pm hops skipped
          (some (toLower n.publicKey) :: rest.1, rest.2)
      | _ =>
          let rest := resolveColdHops pm hops (if 1 < candidates.length then skipped.map (· + 1) else skipped)
          (none :: rest.1, rest.2)

def resolvePathForObsColdLoad (pathJSON : String) (pm : NodeMap) (skipped : Option Nat) :
    List (Option String) × Option Nat := resolveColdHops pm (parsePathJSON pathJSON) skipped

def Resolution.unique (r : Resolution) : Option String := if r.method = .uniquePrefix then r.pubkey else none

section

variable {w : Figures} {pm : NodeMap} {graph : Option NeighborGraph} {contextPKs : List String} {hop : String}

theorem lowerTiers_method_ne (w : Figures) (pm : NodeMap) (ns : List Node) (ctx : List String) :
    (lowerTiers w pm ns ctx).method ≠ .uniquePrefix := by
  rw [lowerTiers]
  split
  · simp
  · split <;> simp

theorem method_resolveWithContext :
    (pm.resolveWithContext w hop contextPKs graph).method = .uniquePrefix ↔ ∃ n, pm.candidates hop = [n] := by
  rw [NodeMap.resolveWithContext]
  split
  · next h => simp [h]
  · next n h => simp [h]
  · next hnil hone =>
      constructor
      · intro h
        split at h
        · cases h
        · exact absurd h (lowerTiers_method_ne w pm _ contextPKs)
      · rintro ⟨n, hn⟩
        exact absurd hn (hone n)

theorem unique_resolveWithContext :
    (pm.resolveWithContext w hop contextPKs graph).unique =
      match pm.candidates hop with
      | [n] => some (toLower n.publicKey)
      | _ => none := by
  rw [Resolution.unique]
  split
  · next h =>
      obtain ⟨n, hn⟩ := method_resolveWithContext.mp h
      simp only [NodeMap.resolveWithContext, hn]
      rfl
  · next h =>
      split
      · next n hn => exact absurd (method_resolveWithContext.mpr ⟨n, hn⟩) h
      · rfl

theorem resolveColdHops_fst (prev : Option String) (hops : List String) (skipped : Option Nat) :
    (resolveColdHops pm hops skipped).1 = (resolveHops w pm graph contextPKs prev hops).map Resolution.unique := by
  induction hops generalizing prev skipped with
  | nil => rfl
  | cons hop hops ih =>
      rw [resolveHops, List.map_cons, unique_resolveWithContext, resolveColdHops]
      split
      · rw [← ih]
      · rw [← ih]

theorem resolveColdHops_snd (hops : List String) (skipped : Nat) :
    (resolveColdHops pm hops (some skipped)).2 =
      some (skipped + hops.countP fun hop => 1 < (pm.candidates hop).length) := by
  induction hops generalizing skipped with
  | nil => rfl
  | cons hop hops ih =>
      rw [resolveColdHops, List.countP_cons]
      split
      · next n hn => simp [hn, ih]
      · by_cases h : 1 < (pm.candidates hop).length
        · simp only [h, if_true, Option.map_some, ih, decide_true, Option.some.injEq]
          omega
        · simp [h, ih]

end

theorem pubkey_of_unique {r : Resolution} {pk : String} (h : r.unique = some pk) : r.pubkey = some pk := by
  unfold Resolution.unique at h
  split at h
  · exact h
  · cases h

theorem isSome_pubkey_of_unique {w : Figures} {pm : NodeMap} {graph : Option NeighborGraph} {ctx : List String}
    {prev : Option String} {hops : List String} {r : Resolution} (hr : r ∈ resolveHops w pm graph ctx prev hops)
    (h : r.method = .uniquePrefix) : r.pubkey.isSome := by
  induction hops generalizing prev with
  | nil => cases hr
  | cons hop hops ih =>
      rw [resolveHops, List.mem_cons] at hr
      rcases hr with rfl | hr
      · obtain ⟨n, hn⟩ := method_resolveWithContext.mp h
        simp only [NodeMap.resolveWithContext, hn]
        rfl
      · exact ih hr

def NodeMap.toPrefixMap (pm : NodeMap) : PrefixMap where
  m := fun k => (pm.m k).map fun ns => ns.map Node.toNodeInfo
  nonRelay := pm.nonRelay

theorem candidates_toPrefixMap (pm : NodeMap) (hop : String) :
    pm.toPrefixMap.candidates hop = (pm.candidates hop).map Node.toNodeInfo := by
  have hbucket : bucket pm.toPrefixMap.m (toLower hop) = (bucket pm.m (toLower hop)).map Node.toNodeInfo := by
    change ((pm.m (toLower hop)).map fun ns => ns.map Node.toNodeInfo).getD [] = _
    rw [bucket]
    cases pm.m (toLower hop) <;> rfl
  rw [PrefixMap.candidates, hbucket, List.filter_map]
  rfl

theorem resolvePathForObsColdLoad_toPrefixMap (pathJSON : String) (pm : NodeMap) (skipped : Option Nat) :
    PacketStore.resolvePathForObsColdLoad pathJSON pm.toPrefixMap = (resolvePathForObsColdLoad pathJSON pm skipped).1 := by
  rw [PacketStore.resolvePathForObsColdLoad, resolvePathForObsColdLoad]
  generalize parsePathJSON pathJSON = hops
  induction hops generalizing skipped with
  | nil => rfl
  | cons hop hops ih =>
      rw [List.map_cons, candidates_toPrefixMap, resolveColdHops]
      cases hc : pm.candidates hop with
      | nil => exact congrArg _ (ih _)
      | cons n ns =>
          cases ns with
          | nil => exact congrArg _ (ih _)
          | cons n' ns => exact congrArg _ (ih _)

/-- A cold load resolves a hop to nothing else than the live resolution, and leaves it out exactly where that one used
another method than the unique prefix; and it is the cold load that the packet store is filled with. -/
theorem coldLoad_underAttributes (w : Figures) (pathJSON observerID : String) (tx : TxRow) (pm : NodeMap)
    (graph : Option NeighborGraph) (skipped : Nat) :
    let cold := resolvePathForObsColdLoad pathJSON pm (some skipped)
    let live := resolvePathForObs w pathJSON observerID tx pm graph
    cold.1.length = live.length ∧
      (∀ (i : Nat) (pk : String), cold.1[i]? = some (some pk) → live[i]? = some (some pk)) ∧
      (∀ i : Nat, cold.1[i]? = some none ↔
        ∃ r, (liveResolutions w pathJSON observerID tx pm graph)[i]? = some r ∧ r.method ≠ .uniquePrefix) ∧
      cold.2 = some (skipped + (parsePathJSON pathJSON).countP fun hop => 1 < (pm.candidates hop).length) ∧
      PacketStore.resolvePathForObsColdLoad pathJSON pm.toPrefixMap = cold.1 := by
  intro cold live
  have hcold : cold.1 = (liveResolutions w pathJSON observerID tx pm graph).map Resolution.unique :=
    resolveColdHops_fst none _ _
  refine ⟨?_, ?_, ?_, resolveColdHops_snd _ _, resolvePathForObsColdLoad_toPrefixMap pathJSON pm (some skipped)⟩
  · rw [hcold, List.length_map]
    exact (List.length_map _).symm
  · intro i pk h
    rw [hcold, List.getElem?_map, Option.map_eq_some_iff] at h
    obtain ⟨r, hr, hunique⟩ := h
    change ((liveResolutions w pathJSON observerID tx pm graph).map Resolution.pubkey)[i]? = _
    rw [List.getElem?_map, hr, Option.map_some, pubkey_of_unique hunique]
  · intro i
    rw [hcold, List.getElem?_map, Option.map_eq_some_iff]
    constructor
    · rintro ⟨r, hr, hunique⟩
      refine ⟨r, hr, fun hmethod => ?_⟩
      have hsome := isSome_pubkey_of_unique (List.mem_of_getElem? hr) hmethod
      rw [Resolution.unique, if_pos hmethod] at hunique
      rw [hunique] at hsome
      cases hsome
    · rintro ⟨r, hr, hmethod⟩
      exact ⟨r, hr, if_neg hmethod⟩

def repeater (publicKey : String) (observationCount : Int) : Node where
  publicKey := publicKey
  role := "repeater"
  lat := 50
  lon := 8
  hasGPS := true
  observationCount := observationCount

def mapOf (nodes : List Node) : NodeMap := ⟨buildPrefixMap nodes, ∅⟩

def someTx : TxRow := ⟨1, "", "h1", "2026-01-01T00:00:00Z", some 1, some 4, "", none⟩

def noFigures : Figures := ⟨fun _ => 0, fun _ _ _ _ => 0⟩

theorem coldLoad_underAttributes_twoRepeaters :
    (resolvePathForObs noFigures "[\"aa\",\"bb\"]" "" someTx (mapOf [repeater "aa11" 0, repeater "bb11" 0])
      none)[1]? = some (some "bb11") :=
  (coldLoad_underAttributes noFigures "[\"aa\",\"bb\"]" "" someTx
    (mapOf [repeater "aa11" 0, repeater "bb11" 0]) none 0).2.1 1 "bb11" (by decide +kernel)

end MeshcoreAnalyzer.HopTiers

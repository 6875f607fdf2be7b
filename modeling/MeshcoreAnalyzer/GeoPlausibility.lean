import MeshcoreAnalyzer.GraphBuilder

namespace MeshcoreAnalyzer.Neighbors

open Maps Runs PacketStore

def Settled (g : NeighborGraph) (k : EdgeKey) : Prop :=
  ∃ r, g.edges.lookup k = some r ∧ (g.heap r).ambiguous = false

structure Shaped (g : NeighborGraph) : Prop where
  fresh : ∀ k r, g.edges.lookup k = some r → r < g.next
  oneKey : ∀ k k' r, g.edges.lookup k = some r → g.edges.lookup k' = some r → k' = k
  between : ∀ k r, g.edges.lookup k = some r → (g.heap r).ambiguous = false →
    k = ⟨(g.heap r).nodeA, (g.heap r).nodeB⟩

theorem shaped_new (maxEdgeKm : ℚ) (geo : Option (GoMap String NodeGeoInfo)) :
    Shaped (.new maxEdgeKm geo) :=
  ⟨fun _ _ h => (by cases h), fun _ _ _ h => (by cases h), fun _ _ h => (by cases h)⟩

variable {g : NeighborGraph} {k key newKey : EdgeKey} {r : EdgeRef} {haversineKm : Distance}

structure SameSides (e e' : NeighborEdge) : Prop where
  nodeA : e'.nodeA = e.nodeA
  nodeB : e'.nodeB = e.nodeB
  ambiguous : e'.ambiguous = e.ambiguous

theorem sameSides_observe (e : NeighborEdge) (hop observer : String) (snr : Option Float) (ts : Int) :
    SameSides e (e.observe hop observer snr ts) := ⟨rfl, rfl, rfl⟩

theorem sameSides_merge (existing e : NeighborEdge) : SameSides existing (existing.merge e) := ⟨rfl, rfl, rfl⟩

theorem sameSides_modify {f : NeighborEdge → NeighborEdge} (hf : SameSides (g.heap r) (f (g.heap r))) (q : EdgeRef) :
    SameSides (g.heap q) ((g.modify r f).heap q) := by
  change SameSides (g.heap q) (Function.update g.heap r (f (g.heap r)) q)
  by_cases hq : q = r
  · subst hq
    rw [Function.update_self]
    exact hf
  · rw [Function.update_of_ne hq]
    exact ⟨rfl, rfl, rfl⟩

theorem Shaped.modify (h : Shaped g) {f : NeighborEdge → NeighborEdge}
    (hf : SameSides (g.heap r) (f (g.heap r))) : Shaped (g.modify r f) := by
  refine ⟨h.fresh, h.oneKey, fun k q hq hamb => ?_⟩
  have hsame := sameSides_modify hf q
  rw [hsame.ambiguous] at hamb
  rw [hsame.nodeA, hsame.nodeB]
  exact h.between k q hq hamb

theorem settled_modify {f : NeighborEdge → NeighborEdge} (hf : SameSides (g.heap r) (f (g.heap r))) :
    Settled (g.modify r f) k ↔ Settled g k := by
  refine exists_congr fun q => and_congr_right fun _ => ?_
  rw [(sameSides_modify hf q).ambiguous]

theorem Shaped.heap_addEdge (h : Shaped g) {e : NeighborEdge} {nodes : List String} {q : EdgeRef}
    (hq : g.edges.lookup k = some q) : (g.addEdge key e nodes).heap q = g.heap q :=
  Function.update_of_ne (h.fresh k q hq).ne _ _

theorem lookup_addEdge {e : NeighborEdge} {nodes : List String} {q : EdgeRef}
    (hq : (g.addEdge key e nodes).edges.lookup k = some q) :
    (k = key ∧ q = g.next) ∨ k ≠ key ∧ g.edges.lookup k = some q := by
  replace hq : (g.edges.insert key g.next).lookup k = some q := hq
  by_cases hk : k = key
  · subst hk
    rw [AList.lookup_insert] at hq
    exact .inl ⟨rfl, (Option.some.inj hq).symm⟩
  · rw [AList.lookup_insert_ne hk] at hq
    exact .inr ⟨hk, hq⟩

theorem Shaped.addEdge (h : Shaped g) {e : NeighborEdge} (nodes : List String)
    (he : e.ambiguous = false → key = ⟨e.nodeA, e.nodeB⟩) : Shaped (g.addEdge key e nodes) := by
  have hself : (g.addEdge key e nodes).heap g.next = e := Function.update_self _ _ _
  refine ⟨fun k q hq => ?_, fun k k' q hq hq' => ?_, fun k q hq hamb => ?_⟩
  · rcases lookup_addEdge hq with ⟨_, rfl⟩ | ⟨_, hq⟩
    · exact g.next.lt_succ_self
    · exact (h.fresh k q hq).trans g.next.lt_succ_self
  · rcases lookup_addEdge hq with ⟨rfl, rfl⟩ | ⟨_, hq⟩
    · rcases lookup_addEdge hq' with ⟨rfl, _⟩ | ⟨_, hq'⟩
      · rfl
      · exact absurd (h.fresh k' _ hq') (Nat.lt_irrefl _)
    · rcases lookup_addEdge hq' with ⟨_, rfl⟩ | ⟨_, hq'⟩
      · exact absurd (h.fresh k _ hq) (Nat.lt_irrefl _)
      · exact h.oneKey k k' q hq hq'
  · rcases lookup_addEdge hq with ⟨rfl, rfl⟩ | ⟨_, hq⟩
    · rw [hself] at hamb ⊢
      exact he hamb
    · rw [h.heap_addEdge hq] at hamb ⊢
      exact h.between k q hq hamb

theorem Shaped.settled_addEdge (h : Shaped g) (hkey : g.edges.lookup key = none) (e : NeighborEdge)
    (nodes : List String) :
    Settled (g.addEdge key e nodes) k ↔ Settled g k ∨ k = key ∧ e.ambiguous = false := by
  have hself : (g.addEdge key e nodes).heap g.next = e := Function.update_self _ _ _
  have hnew : (g.addEdge key e nodes).edges.lookup key = some g.next := AList.lookup_insert g.edges
  constructor
  · rintro ⟨q, hq, hamb⟩
    rcases lookup_addEdge hq with ⟨rfl, rfl⟩ | ⟨_, hq⟩
    · rw [hself] at hamb
      exact .inr ⟨rfl, hamb⟩
    · rw [h.heap_addEdge hq] at hamb
      exact .inl ⟨q, hq, hamb⟩
  · rintro (⟨q, hq, hamb⟩ | ⟨rfl, hamb⟩)
    · have hne : k ≠ key := by
        rintro rfl
        rw [hkey] at hq
        cases hq
      refine ⟨q, ?_, ?_⟩
      · change (g.edges.insert key g.next).lookup k = some q
        rw [AList.lookup_insert_ne hne]
        exact hq
      · rw [h.heap_addEdge hq]
        exact hamb
    · refine ⟨g.next, hnew, ?_⟩
      rw [hself]
      exact hamb

theorem Shaped.lookup_detach (h : Shaped g) (hkey : g.edges.lookup key = some r) {q : EdgeRef}
    (hq : (g.detach key r newKey).edges.lookup k = some q) : q ≠ r ∧ k ≠ key ∧ g.edges.lookup k = some q := by
  obtain ⟨hne, hold⟩ := Tables.lookup_erase_of_some hq
  refine ⟨?_, hne, hold⟩
  rintro rfl
  exact hne (h.oneKey key k q hkey hold)

theorem heap_detach_of_ne {q : EdgeRef} (hq : q ≠ r) : (g.detach key r newKey).heap q = g.heap q :=
  Function.update_of_ne hq _ _

theorem Shaped.detach (h : Shaped g) (hkey : g.edges.lookup key = some r) (newKey : EdgeKey) :
    Shaped (g.detach key r newKey) := by
  refine ⟨fun k q hq => h.fresh k q (h.lookup_detach hkey hq).2.2, fun k k' q hq hq' =>
    h.oneKey k k' q (h.lookup_detach hkey hq).2.2 (h.lookup_detach hkey hq').2.2, fun k q hq hamb => ?_⟩
  obtain ⟨hne, _, hq⟩ := h.lookup_detach hkey hq
  rw [heap_detach_of_ne hne] at hamb ⊢
  exact h.between k q hq hamb

theorem Shaped.settled_detach (h : Shaped g) (hkey : g.edges.lookup key = some r)
    (hamb : (g.heap r).ambiguous = true) : Settled (g.detach key r newKey) k ↔ Settled g k := by
  constructor
  · rintro ⟨q, hq, hsettled⟩
    obtain ⟨hne, _, hq⟩ := h.lookup_detach hkey hq
    rw [heap_detach_of_ne hne] at hsettled
    exact ⟨q, hq, hsettled⟩
  · rintro ⟨q, hq, hsettled⟩
    have hne : q ≠ r := by
      rintro rfl
      rw [hamb] at hsettled
      cases hsettled
    have hk : k ≠ key := by
      rintro rfl
      exact hne (Option.some.inj (hq.symm.trans hkey))
    refine ⟨q, ?_, ?_⟩
    · change (g.edges.erase key).lookup k = some q
      rw [AList.lookup_erase_ne hk]
      exact hq
    · rw [heap_detach_of_ne hne]
      exact hsettled

structure Loose (g : NeighborGraph) (r : EdgeRef) (newKey : EdgeKey) : Prop where
  fresh : r < g.next
  dead : ∀ k, g.edges.lookup k ≠ some r
  settled : (g.heap r).ambiguous = false
  key : newKey = ⟨(g.heap r).nodeA, (g.heap r).nodeB⟩

theorem Shaped.loose_detach (h : Shaped g) (hkey : g.edges.lookup key = some r) (newKey : EdgeKey) :
    Loose (g.detach key r newKey) r newKey := by
  have hself := heap_detach g key r newKey
  refine ⟨h.fresh key r hkey, fun k hk => (h.lookup_detach hkey hk).1 rfl, ?_, ?_⟩
  · rw [hself]
    rfl
  · rw [hself]
    rfl

theorem lookup_link {q : EdgeRef} (hq : (g.edges.insert newKey r).lookup k = some q) :
    (k = newKey ∧ q = r) ∨ k ≠ newKey ∧ g.edges.lookup k = some q := by
  by_cases hk : k = newKey
  · subst hk
    rw [AList.lookup_insert] at hq
    exact .inl ⟨rfl, (Option.some.inj hq).symm⟩
  · rw [AList.lookup_insert_ne hk] at hq
    exact .inr ⟨hk, hq⟩

theorem Shaped.attach (h : Shaped g) (hr : Loose g r newKey) : Shaped (g.attach r newKey) := by
  rw [NeighborGraph.attach]
  split
  · next existing _ => exact h.modify (sameSides_merge _ _)
  · refine ⟨fun k q hq => ?_, fun k k' q hq hq' => ?_, fun k q hq hamb => ?_⟩
    · rcases lookup_link hq with ⟨_, rfl⟩ | ⟨_, hq⟩
      · exact hr.fresh
      · exact h.fresh k q hq
    · rcases lookup_link hq with ⟨rfl, rfl⟩ | ⟨_, hold⟩
      · rcases lookup_link hq' with ⟨rfl, _⟩ | ⟨_, hold'⟩
        · rfl
        · exact absurd hold' (hr.dead k')
      · rcases lookup_link hq' with ⟨_, rfl⟩ | ⟨_, hold'⟩
        · exact absurd hold (hr.dead k)
        · exact h.oneKey k k' q hold hold'
    · rcases lookup_link hq with ⟨rfl, rfl⟩ | ⟨_, hq⟩
      · exact hr.key
      · exact h.between k q hq hamb

theorem settled_attach (hr : Loose g r newKey) :
    Settled (g.attach r newKey) k ↔ Settled g k ∨ k = newKey ∧ g.edges.lookup newKey = none := by
  rw [NeighborGraph.attach]
  split
  · next existing hexisting =>
      rw [settled_modify (f := fun e => e.merge (g.heap r)) (sameSides_merge _ _), hexisting]
      simp
  · next hnone =>
      rw [hnone]
      constructor
      · rintro ⟨q, hq, hamb⟩
        rcases lookup_link hq with ⟨rfl, _⟩ | ⟨_, hq⟩
        · exact .inr ⟨rfl, rfl⟩
        · exact .inl ⟨q, hq, hamb⟩
      · rintro (⟨q, hq, hamb⟩ | ⟨rfl, _⟩)
        · have hne : k ≠ newKey := by
            rintro rfl
            rw [hnone] at hq
            cases hq
          refine ⟨q, ?_, hamb⟩
          change (g.edges.insert newKey r).lookup k = some q
          rw [AList.lookup_insert_ne hne]
          exact hq
        · exact ⟨r, AList.lookup_insert g.edges, hr.settled⟩

theorem Shaped.resolveEdge (h : Shaped g) (hkey : g.edges.lookup key = some r) (knownNode resolvedPK : String) :
    Shaped (g.resolveEdge key r knownNode resolvedPK) :=
  (h.detach hkey _).attach (h.loose_detach hkey _)

theorem Shaped.settled_resolveEdge (h : Shaped g) (hkey : g.edges.lookup key = some r)
    (hamb : (g.heap r).ambiguous = true) (knownNode resolvedPK : String) :
    Settled (g.resolveEdge key r knownNode resolvedPK) k ↔ Settled g k ∨ k = makeEdgeKey knownNode resolvedPK ∧
      (g.edges.erase key).lookup (makeEdgeKey knownNode resolvedPK) = none := by
  unfold NeighborGraph.resolveEdge
  dsimp only
  rw [settled_attach (h.loose_detach hkey _), h.settled_detach hkey hamb]
  rfl

theorem Shaped.settled_upsertEdge (h : Shaped g) (a b hop observer : String) (snr : Option Float) (ts : Int) :
    Settled (g.upsertEdge haversineKm a b hop observer snr ts) k ↔ Settled g k ∨ k = makeEdgeKey a b ∧
      g.shouldRejectGeoFar haversineKm a b = false ∧ g.edges.lookup (makeEdgeKey a b) = none := by
  rw [NeighborGraph.upsertEdge]
  dsimp only
  split
  · next hreject =>
      rw [hreject]
      simp only [Bool.true_eq_false, false_and, and_false, or_false]
      exact Iff.rfl
  · next hreject =>
      rw [Bool.not_eq_true] at hreject
      split
      · next r hr =>
          rw [settled_modify (f := fun e => e.observe hop observer snr ts) (sameSides_observe _ _ _ _ _), hr]
          simp
      · next hnone =>
          rw [settled_modify (f := fun e => e.observe hop observer snr ts) (sameSides_observe _ _ _ _ _),
            h.settled_addEdge hnone, hreject, hnone]
          simp [NeighborEdge.new]

theorem Shaped.upsertEdge (h : Shaped g) (a b hop observer : String) (snr : Option Float) (ts : Int) :
    Shaped (g.upsertEdge haversineKm a b hop observer snr ts) := by
  rw [NeighborGraph.upsertEdge]
  dsimp only
  split
  · exact ⟨h.fresh, h.oneKey, h.between⟩
  · split
    · exact h.modify (sameSides_observe _ _ _ _ _)
    · exact (h.addEdge _ fun _ => rfl).modify (sameSides_observe _ _ _ _ _)

theorem Shaped.settled_upsertAmbiguous (h : Shaped g) (knownPK hop : String) (filtered : List String)
    (observer : String) (snr : Option Float) (ts : Int) :
    Settled (g.upsertAmbiguous knownPK hop filtered observer snr ts) k ↔ Settled g k := by
  unfold NeighborGraph.upsertAmbiguous
  dsimp only
  split
  · exact settled_modify (f := fun e => e.observe hop observer snr ts) (sameSides_observe _ _ _ _ _)
  · next hnone =>
      rw [settled_modify (f := fun e => e.observe hop observer snr ts) (sameSides_observe _ _ _ _ _),
        h.settled_addEdge hnone]
      simp [NeighborEdge.new]

theorem Shaped.upsertAmbiguous (h : Shaped g) (knownPK hop : String) (filtered : List String)
    (observer : String) (snr : Option Float) (ts : Int) :
    Shaped (g.upsertAmbiguous knownPK hop filtered observer snr ts) := by
  unfold NeighborGraph.upsertAmbiguous
  dsimp only
  split
  · exact h.modify (sameSides_observe _ _ _ _ _)
  · exact (h.addEdge _ fun hamb => (by cases hamb)).modify (sameSides_observe _ _ _ _ _)

/-- Both nodes have positions, and these are more than `maxKm` apart. -/
def Far (haversineKm : Distance) (geo : GoMap String NodeGeoInfo) (maxKm : ℚ) (a b : String) : Prop :=
  ∃ ga gb, geo a = some ga ∧ geo b = some gb ∧ ga.hasGPS = true ∧ gb.hasGPS = true ∧
    maxKm < haversineKm ga.lat ga.lon gb.lat gb.lon

/-- No edge that is not ambiguous joins two nodes that are too far apart. -/
def GeoPlausible (haversineKm : Distance) (geo : GoMap String NodeGeoInfo) (maxKm : ℚ) (g : NeighborGraph) : Prop :=
  ∀ k r, g.edges.lookup k = some r → (g.heap r).ambiguous = false →
    ¬ Far haversineKm geo maxKm (g.heap r).nodeA (g.heap r).nodeB

variable {geo : GoMap String NodeGeoInfo} {maxKm : ℚ} {a b : String}

/-- Distances are the same in both directions. -/
def Symmetric (haversineKm : Distance) : Prop :=
  ∀ lat1 lon1 lat2 lon2, haversineKm lat1 lon1 lat2 lon2 = haversineKm lat2 lon2 lat1 lon1

theorem Far.symm (hsymm : Symmetric haversineKm) (h : Far haversineKm geo maxKm a b) :
    Far haversineKm geo maxKm b a := by
  obtain ⟨ga, gb, ha, hb, hgpsA, hgpsB, hfar⟩ := h
  rw [hsymm] at hfar
  exact ⟨gb, ga, hb, ha, hgpsB, hgpsA, hfar⟩

theorem far_makeEdgeKey (hsymm : Symmetric haversineKm) (a b : String) :
    Far haversineKm geo maxKm (makeEdgeKey a b).a (makeEdgeKey a b).b ↔ Far haversineKm geo maxKm a b := by
  rw [makeEdgeKey]
  split
  · exact ⟨Far.symm hsymm, Far.symm hsymm⟩
  · exact Iff.rfl

structure Placed (geo : GoMap String NodeGeoInfo) (maxKm : ℚ) (g : NeighborGraph) : Prop extends Shaped g where
  nodeGeo : g.nodeGeo = some geo
  maxEdgeKm : g.maxEdgeKm = maxKm

theorem Placed.geoPlausible_iff (h : Placed geo maxKm g) :
    GeoPlausible haversineKm geo maxKm g ↔ ∀ k, Settled g k → ¬ Far haversineKm geo maxKm k.a k.b := by
  constructor
  · rintro hall k ⟨r, hr, hamb⟩
    rw [h.between k r hr hamb]
    exact hall k r hr hamb
  · intro hall k r hr hamb
    have hfar := hall k ⟨r, hr, hamb⟩
    rw [h.between k r hr hamb] at hfar
    exact hfar

theorem Placed.shouldRejectGeoFar_eq_false (h : Placed geo maxKm g) (hmax : 0 < maxKm) (a b : String) :
    g.shouldRejectGeoFar haversineKm a b = false ↔
      (isPseudo a = true ∨ isPseudo b = true) ∨ ¬ Far haversineKm geo maxKm a b := by
  rw [NeighborGraph.shouldRejectGeoFar, Far]
  rw [h.nodeGeo, h.maxEdgeKm, if_neg (not_le.mpr hmax)]
  dsimp only
  split
  · next hpseudo => simp [hpseudo]
  · next hpseudo =>
      cases ha : geo a with
      | none => simp
      | some ga =>
          cases hb : geo b with
          | none => simp
          | some gb =>
              cases hgpsA : ga.hasGPS <;> cases hgpsB : gb.hasGPS <;> simp [hpseudo, hgpsA, hgpsB]

theorem Placed.geoPlausible_step (h : Placed geo maxKm g) {g' : NeighborGraph} (h' : Placed geo maxKm g')
    {P : Prop} (hsettled : ∀ k, Settled g' k ↔ Settled g k ∨ k = key ∧ P) :
    GeoPlausible haversineKm geo maxKm g' ↔
      GeoPlausible haversineKm geo maxKm g ∧ (P → ¬ Far haversineKm geo maxKm key.a key.b) := by
  rw [h.geoPlausible_iff, h'.geoPlausible_iff]
  constructor
  · intro hall
    exact ⟨fun k hk => hall k ((hsettled k).mpr (.inl hk)), fun hP => hall key ((hsettled key).mpr (.inr ⟨rfl, hP⟩))⟩
  · rintro ⟨hold, hnew⟩ k hk
    rcases (hsettled k).mp hk with hk | ⟨rfl, hP⟩
    · exact hold k hk
    · exact hnew hP

/-- An edge between two nodes that comes in where the key leaves the graph: it is no edge
yet, or the nodes are not too far apart. -/
def Near (haversineKm : Distance) (geo : GoMap String NodeGeoInfo) (maxKm : ℚ)
    (edges : AList fun _ : EdgeKey => EdgeRef) (a b : String) : Prop :=
  edges.lookup (makeEdgeKey a b) = none → ¬ Far haversineKm geo maxKm a b

/-- The guard does not look at whatever is called like a pseudo-node. -/
def Guarded (haversineKm : Distance) (geo : GoMap String NodeGeoInfo) (maxKm : ℚ) (g : NeighborGraph)
    (a b : String) : Prop :=
  isPseudo a = true ∨ isPseudo b = true → Near haversineKm geo maxKm g.edges a b

def UpsertNear (haversineKm : Distance) (geo : GoMap String NodeGeoInfo) (maxKm : ℚ) (g : NeighborGraph) :
    Action → Prop
  | .upsertEdge a b _ _ _ _ => Guarded haversineKm geo maxKm g a b
  | .upsertEdgeWithCandidates knownPK _ candidates _ _ _ =>
      ∀ pk, soleCandidate knownPK candidates = some pk → Guarded haversineKm geo maxKm g knownPK pk
  | _ => True

def Action.isUpsert : Action → Bool
  | .upsertEdge _ _ _ _ _ _ | .upsertEdgeWithCandidates _ _ _ _ _ _ => true
  | _ => false

def ResolutionNear (haversineKm : Distance) (geo : GoMap String NodeGeoInfo) (maxKm : ℚ) (g : NeighborGraph)
    (x : NeighborGraph.AmbiguousEntry × String) : Prop :=
  ∀ r, g.edges.lookup x.1.key = some r → (g.heap r).ambiguous = true →
    Near haversineKm geo maxKm (g.edges.erase x.1.key) x.1.knownNode x.2

def DisambiguationNear (haversineKm : Distance) (geo : GoMap String NodeGeoInfo) (maxKm : ℚ)
    (neighbors : String → Finset String) (g : NeighborGraph) (key : EdgeKey) : Prop :=
  ∀ r, g.edges.lookup key = some r → ∀ pk, NeighborGraph.disambiguation neighbors (g.heap r) = some pk →
    Near haversineKm geo maxKm (g.edges.erase key) (NeighborGraph.knownNode (g.heap r)) pk

theorem Placed.upsertEdge (h : Placed geo maxKm g) (a b hop observer : String) (snr : Option Float) (ts : Int) :
    Placed geo maxKm (g.upsertEdge haversineKm a b hop observer snr ts) := by
  have hview : (g.upsertEdge haversineKm a b hop observer snr ts).nodeGeo = g.nodeGeo ∧
      (g.upsertEdge haversineKm a b hop observer snr ts).maxEdgeKm = g.maxEdgeKm := by
    rw [NeighborGraph.upsertEdge]
    dsimp only
    split
    · exact ⟨rfl, rfl⟩
    · split <;> exact ⟨rfl, rfl⟩
  exact ⟨h.toShaped.upsertEdge a b hop observer snr ts, hview.1.trans h.nodeGeo, hview.2.trans h.maxEdgeKm⟩

theorem Placed.upsertAmbiguous (h : Placed geo maxKm g) (knownPK hop : String) (filtered : List String)
    (observer : String) (snr : Option Float) (ts : Int) :
    Placed geo maxKm (g.upsertAmbiguous knownPK hop filtered observer snr ts) := by
  have hview : (g.upsertAmbiguous knownPK hop filtered observer snr ts).nodeGeo = g.nodeGeo ∧
      (g.upsertAmbiguous knownPK hop filtered observer snr ts).maxEdgeKm = g.maxEdgeKm := by
    unfold NeighborGraph.upsertAmbiguous
    dsimp only
    split <;> exact ⟨rfl, rfl⟩
  exact ⟨h.toShaped.upsertAmbiguous knownPK hop filtered observer snr ts, hview.1.trans h.nodeGeo,
    hview.2.trans h.maxEdgeKm⟩

theorem Placed.resolveEdge (h : Placed geo maxKm g) (hkey : g.edges.lookup key = some r)
    (knownNode resolvedPK : String) : Placed geo maxKm (g.resolveEdge key r knownNode resolvedPK) := by
  have hview : (g.resolveEdge key r knownNode resolvedPK).nodeGeo = g.nodeGeo ∧
      (g.resolveEdge key r knownNode resolvedPK).maxEdgeKm = g.maxEdgeKm := by
    unfold NeighborGraph.resolveEdge NeighborGraph.attach
    dsimp only
    split <;> exact ⟨rfl, rfl⟩
  exact ⟨h.toShaped.resolveEdge hkey knownNode resolvedPK, hview.1.trans h.nodeGeo, hview.2.trans h.maxEdgeKm⟩

theorem Placed.geoPlausible_upsertEdge (h : Placed geo maxKm g) (hmax : 0 < maxKm)
    (hsymm : Symmetric haversineKm) (a b hop observer : String) (snr : Option Float) (ts : Int) :
    GeoPlausible haversineKm geo maxKm (g.upsertEdge haversineKm a b hop observer snr ts) ↔
      GeoPlausible haversineKm geo maxKm g ∧ Guarded haversineKm geo maxKm g a b := by
  rw [h.geoPlausible_step (h.upsertEdge a b hop observer snr ts) fun k =>
    h.toShaped.settled_upsertEdge a b hop observer snr ts, far_makeEdgeKey hsymm,
    h.shouldRejectGeoFar_eq_false hmax]
  rw [Guarded, Near]
  tauto

theorem Placed.geoPlausible_upsertAmbiguous (h : Placed geo maxKm g) (knownPK hop : String)
    (filtered : List String) (observer : String) (snr : Option Float) (ts : Int) :
    GeoPlausible haversineKm geo maxKm (g.upsertAmbiguous knownPK hop filtered observer snr ts) ↔
      GeoPlausible haversineKm geo maxKm g := by
  rw [h.geoPlausible_iff, (h.upsertAmbiguous knownPK hop filtered observer snr ts).geoPlausible_iff]
  exact forall_congr' fun k => imp_congr_left (h.toShaped.settled_upsertAmbiguous knownPK hop filtered observer snr ts)

theorem Placed.geoPlausible_resolveEdge (h : Placed geo maxKm g) (hsymm : Symmetric haversineKm)
    (hkey : g.edges.lookup key = some r) (hamb : (g.heap r).ambiguous = true) (knownNode resolvedPK : String) :
    GeoPlausible haversineKm geo maxKm (g.resolveEdge key r knownNode resolvedPK) ↔
      GeoPlausible haversineKm geo maxKm g ∧
        Near haversineKm geo maxKm (g.edges.erase key) knownNode resolvedPK := by
  rw [h.geoPlausible_step (h.resolveEdge hkey knownNode resolvedPK) fun k =>
    h.toShaped.settled_resolveEdge hkey hamb knownNode resolvedPK, far_makeEdgeKey hsymm]
  rfl

theorem Placed.step (h : Placed geo maxKm g) {act : Action} (hact : act.isUpsert = true) :
    Placed geo maxKm (step haversineKm g act) := by
  cases act with
  | upsertEdge a b hop observer snr ts => exact h.upsertEdge a b hop observer snr ts
  | upsertEdgeWithCandidates knownPK hop candidates observer snr ts =>
      change Placed geo maxKm (g.upsertEdgeWithCandidates haversineKm knownPK hop candidates observer snr ts)
      rcases upsertEdgeWithCandidates_cases haversineKm g knownPK hop candidates observer snr ts with
        ⟨_, heq, _⟩ | ⟨pk, _, _, _, heq, _⟩ | ⟨_, _, heq, _⟩
      · rw [heq]
        exact h
      · rw [heq]
        exact h.upsertEdge knownPK pk hop observer snr ts
      · rw [heq]
        exact h.upsertAmbiguous knownPK hop _ observer snr ts
  | resolveAmbiguousEdges _ _ _ => cases hact
  | disambiguate _ => cases hact
  | pruneOlderThan _ _ => cases hact

theorem Placed.geoPlausible_upsert (h : Placed geo maxKm g) (hmax : 0 < maxKm) (hsymm : Symmetric haversineKm)
    {act : Action} (hact : act.isUpsert = true) :
    GeoPlausible haversineKm geo maxKm (Neighbors.step haversineKm g act) ↔
      GeoPlausible haversineKm geo maxKm g ∧ UpsertNear haversineKm geo maxKm g act := by
  cases act with
  | upsertEdge a b hop observer snr ts => exact h.geoPlausible_upsertEdge hmax hsymm a b hop observer snr ts
  | upsertEdgeWithCandidates knownPK hop candidates observer snr ts =>
      change GeoPlausible haversineKm geo maxKm
        (g.upsertEdgeWithCandidates haversineKm knownPK hop candidates observer snr ts) ↔ _ ∧ ∀ pk, _
      rcases upsertEdgeWithCandidates_cases haversineKm g knownPK hop candidates observer snr ts with
        ⟨hsole, heq, _⟩ | ⟨pk, _, _, hsole, heq, _⟩ | ⟨hsole, _, heq, _⟩
      · rw [heq, hsole]
        simp
      · rw [heq, hsole, h.geoPlausible_upsertEdge hmax hsymm]
        simp
      · rw [heq, hsole, h.geoPlausible_upsertAmbiguous]
        simp
  | resolveAmbiguousEdges _ _ _ => cases hact
  | disambiguate _ => cases hact
  | pruneOlderThan _ _ => cases hact

theorem Placed.applyResolution (h : Placed geo maxKm g) (x : NeighborGraph.AmbiguousEntry × String) :
    Placed geo maxKm (g.applyResolution x) := by
  rw [NeighborGraph.applyResolution]
  split
  · next r hr =>
      split
      · exact h.resolveEdge hr x.1.knownNode x.2
      · exact h
  · exact h

theorem Placed.geoPlausible_applyResolution (h : Placed geo maxKm g) (hsymm : Symmetric haversineKm)
    (x : NeighborGraph.AmbiguousEntry × String) :
    GeoPlausible haversineKm geo maxKm (g.applyResolution x) ↔
      GeoPlausible haversineKm geo maxKm g ∧ ResolutionNear haversineKm geo maxKm g x := by
  rw [NeighborGraph.applyResolution, ResolutionNear]
  split
  · next r hr =>
      split
      · next hamb =>
          rw [h.geoPlausible_resolveEdge hsymm hr hamb, hr]
          simp [hamb]
      · next hamb =>
          rw [hr]
          simp [hamb]
  · next hnone =>
      rw [hnone]
      simp

theorem Placed.disambiguateKey (h : Placed geo maxKm g) (neighbors : String → Finset String) (key : EdgeKey) :
    Placed geo maxKm (g.disambiguateKey neighbors key) := by
  rw [NeighborGraph.disambiguateKey]
  split
  · exact h
  · next r hr =>
      split
      · exact h.resolveEdge hr _ _
      · exact h

theorem Placed.geoPlausible_disambiguateKey (h : Placed geo maxKm g) (hsymm : Symmetric haversineKm)
    (neighbors : String → Finset String) (key : EdgeKey) :
    GeoPlausible haversineKm geo maxKm (g.disambiguateKey neighbors key) ↔
      GeoPlausible haversineKm geo maxKm g ∧
        DisambiguationNear haversineKm geo maxKm neighbors g key := by
  rw [NeighborGraph.disambiguateKey, DisambiguationNear]
  split
  · next hnone =>
      rw [hnone]
      simp
  · next r hr =>
      split
      · next pk hpk =>
          rw [h.geoPlausible_resolveEdge hsymm hr (disambiguation_spec hpk).1, hr]
          simp [hpk]
      · next hnone =>
          rw [hr]
          simp [hnone]

theorem placed_new (maxKm : ℚ) (geo : GoMap String NodeGeoInfo) :
    Placed geo maxKm (.new maxKm (some geo)) := ⟨shaped_new _ _, rfl, rfl⟩

theorem isUpsert_storeCalls {s : Store} {pm : PrefixMap} {opts : BuildOptions} :
    ∀ act ∈ storeCalls s pm opts, act.isUpsert = true := by
  intro act hact
  obtain ⟨q, _, hact⟩ := List.mem_flatMap.mp hact
  obtain ⟨obs, _, hact⟩ := List.mem_flatMap.mp hact
  have horiginator : ∀ fromLower hop, ∀ act ∈ originatorCall pm opts fromLower obs hop, act.isUpsert = true := by
    intro fromLower hop act hact
    unfold originatorCall at hact
    split at hact
    · rw [List.mem_singleton.mp hact]
      rfl
    · cases hact
  have hobserver : ∀ hop, ∀ act ∈ observerCall pm opts obs hop, act.isUpsert = true := by
    intro hop act hact
    unfold observerCall at hact
    split at hact
    · rw [List.mem_singleton.mp hact]
      rfl
    · cases hact
  unfold observationCalls at hact
  dsimp only at hact
  split at hact
  · split at hact
    · rw [List.mem_singleton.mp hact]
      rfl
    · cases hact
  · next first rest _ =>
      rcases List.mem_append.mp hact with hact | hact
      · split at hact
        · exact horiginator _ first act hact
        · cases hact
      · exact hobserver _ act hact

section

variable {s : Store} {allNodes : List MapNode} {pm : PrefixMap} {tiers : NeighborGraph → Tiers}
  {opts : BuildOptions} {ambiguousOrder edgeOrder : KeyOrder}

theorem placed_collected :
    Placed (nodeGeo allNodes) opts.maxEdgeKm (collected haversineKm s allNodes pm opts) :=
  foldl_invariant (I := Placed (nodeGeo allNodes) opts.maxEdgeKm) (placed_new _ _)
    fun _ act hact h => h.step (isUpsert_storeCalls act hact)

theorem placed_contextResolved :
    Placed (nodeGeo allNodes) opts.maxEdgeKm (contextResolved haversineKm s allNodes pm tiers opts ambiguousOrder) :=
  foldl_invariant (I := Placed (nodeGeo allNodes) opts.maxEdgeKm) placed_collected
    fun _ x _ h => h.applyResolution x

def contextResolutions (haversineKm : Distance) (s : Store) (allNodes : List MapNode) (pm : PrefixMap)
    (tiers : NeighborGraph → Tiers) (opts : BuildOptions) (ambiguousOrder : KeyOrder) :
    List (NeighborGraph.AmbiguousEntry × String) :=
  let g := collected haversineKm s allNodes pm opts
  ((ambiguousOrder.order g.edges.keys).filterMap g.ambiguousEntry).filterMap (NeighborGraph.resolution pm tiers g)

/-- No phase brings in an edge that is too far for the filter. -/
structure AllNear (haversineKm : Distance) (s : Store) (allNodes : List MapNode) (pm : PrefixMap)
    (tiers : NeighborGraph → Tiers) (opts : BuildOptions) (ambiguousOrder edgeOrder : KeyOrder) : Prop where
  upserts : Along (step haversineKm) (UpsertNear haversineKm (nodeGeo allNodes) opts.maxEdgeKm)
    (.new opts.maxEdgeKm (some (nodeGeo allNodes))) (storeCalls s pm opts)
  resolutions : Along NeighborGraph.applyResolution (ResolutionNear haversineKm (nodeGeo allNodes) opts.maxEdgeKm)
    (collected haversineKm s allNodes pm opts)
    (contextResolutions haversineKm s allNodes pm tiers opts ambiguousOrder)
  disambiguations :
    let g := contextResolved haversineKm s allNodes pm tiers opts ambiguousOrder
    Along (NeighborGraph.disambiguateKey g.resolvedNeighbors)
      (DisambiguationNear haversineKm (nodeGeo allNodes) opts.maxEdgeKm g.resolvedNeighbors) g
      (edgeOrder.order g.edges.keys)

theorem geoPlausible_collected (hmax : 0 < opts.maxEdgeKm) (hsymm : Symmetric haversineKm) :
    GeoPlausible haversineKm (nodeGeo allNodes) opts.maxEdgeKm (collected haversineKm s allNodes pm opts) ↔
      Along (step haversineKm) (UpsertNear haversineKm (nodeGeo allNodes) opts.maxEdgeKm)
        (.new opts.maxEdgeKm (some (nodeGeo allNodes))) (storeCalls s pm opts) := by
  have hnew : GeoPlausible haversineKm (nodeGeo allNodes) opts.maxEdgeKm
      (.new opts.maxEdgeKm (some (nodeGeo allNodes))) := fun _ _ h => (by cases h)
  refine (foldl_iff (I := Placed (nodeGeo allNodes) opts.maxEdgeKm)
    (G := GeoPlausible haversineKm (nodeGeo allNodes) opts.maxEdgeKm)
    (fun _ act hact h => h.step (isUpsert_storeCalls act hact))
    (fun _ act hact h => h.geoPlausible_upsert hmax hsymm (isUpsert_storeCalls act hact)) (placed_new _ _)).trans ?_
  exact and_iff_right hnew

theorem geoPlausible_contextResolved (hsymm : Symmetric haversineKm) :
    GeoPlausible haversineKm (nodeGeo allNodes) opts.maxEdgeKm
        (contextResolved haversineKm s allNodes pm tiers opts ambiguousOrder) ↔
      GeoPlausible haversineKm (nodeGeo allNodes) opts.maxEdgeKm (collected haversineKm s allNodes pm opts) ∧
        Along NeighborGraph.applyResolution (ResolutionNear haversineKm (nodeGeo allNodes) opts.maxEdgeKm)
          (collected haversineKm s allNodes pm opts)
          (contextResolutions haversineKm s allNodes pm tiers opts ambiguousOrder) :=
  foldl_iff (I := Placed (nodeGeo allNodes) opts.maxEdgeKm)
    (G := GeoPlausible haversineKm (nodeGeo allNodes) opts.maxEdgeKm) (fun _ x _ h => h.applyResolution x)
    (fun _ x _ h => h.geoPlausible_applyResolution hsymm x) placed_collected

theorem geoPlausible_disambiguate (hsymm : Symmetric haversineKm) (h : Placed (nodeGeo allNodes) maxKm g)
    (keys : List EdgeKey) :
    GeoPlausible haversineKm (nodeGeo allNodes) maxKm (g.disambiguate keys) ↔
      GeoPlausible haversineKm (nodeGeo allNodes) maxKm g ∧
        Along (NeighborGraph.disambiguateKey g.resolvedNeighbors)
          (DisambiguationNear haversineKm (nodeGeo allNodes) maxKm g.resolvedNeighbors) g keys :=
  foldl_iff (I := Placed (nodeGeo allNodes) maxKm) (G := GeoPlausible haversineKm (nodeGeo allNodes) maxKm)
    (fun _ key _ h => h.disambiguateKey g.resolvedNeighbors key)
    (fun _ key _ h => h.geoPlausible_disambiguateKey hsymm g.resolvedNeighbors key) h

/-- The guard of the first phase holds for the finished graph if and only if the
resolutions of the two other phases happen to keep to it. -/
theorem geoPlausible_iff_allNear (hmax : 0 < opts.maxEdgeKm) (hsymm : Symmetric haversineKm) :
    GeoPlausible haversineKm (nodeGeo allNodes) opts.maxEdgeKm
        (buildFromStoreWithOptions haversineKm s allNodes pm tiers opts ambiguousOrder edgeOrder) ↔
      AllNear haversineKm s allNodes pm tiers opts ambiguousOrder edgeOrder := by
  refine (geoPlausible_disambiguate hsymm placed_contextResolved _).trans ?_
  rw [geoPlausible_contextResolved hsymm, geoPlausible_collected hmax hsymm]
  exact ⟨fun h => ⟨h.1.1, h.1.2, h.2⟩, fun h => ⟨⟨h.upserts, h.resolutions⟩, h.disambiguations⟩⟩

end

def alongAxes : Distance := fun lat1 lon1 lat2 lon2 => 111195 / 1000 * (|lat1 - lat2| + |lon1 - lon2|)

theorem symmetric_alongAxes : Symmetric alongAxes := by
  intro lat1 lon1 lat2 lon2
  unfold alongAxes
  rw [abs_sub_comm lat1, abs_sub_comm lon1]

def hearer : MapNode := ⟨⟨"bb"⟩, 0, 1, true⟩
def listener : MapNode := ⟨⟨"aa01"⟩, 0, 2, true⟩
def faraway : MapNode := ⟨⟨"aa02"⟩, 0, 91, true⟩

/-- Of the two nodes whose keys begin with aa the one that is near never forwards. -/
def oneRelay : PrefixMap where
  m := Maps.set Maps.empty "aa" [listener.toNodeInfo, faraway.toNodeInfo]
  nonRelay := {"aa01"}

def overheard : StoreTx :=
  (StoreTx.ofRow ⟨1, "", "h1", "2026-01-01T10:00:00.000Z", none, some 2, "", none⟩).addObs
    ⟨1, 1, "bb", "", "", "", none, none, none, "[\"aa\"]", "2026-01-01T10:00:00.000Z"⟩

def oneOverheard : Store :=
  { Store.new true with heap := fun _ => overheard, next := 1, packets := [0] }

def firstCome : KeyOrder := ⟨id, fun l => List.Perm.refl l⟩

def within500 : BuildOptions := ⟨500, none⟩

def noTiers : NeighborGraph → Tiers := fun _ _ _ => none

def overheardNodes : List MapNode := [hearer, listener, faraway]

def crossed : NeighborGraph :=
  buildFromStoreWithOptions alongAxes oneOverheard overheardNodes oneRelay noTiers within500 firstCome firstCome

theorem geoPlausible_iff_allNear_oneOverheard :
    GeoPlausible alongAxes (nodeGeo overheardNodes) 500 crossed ↔
      AllNear alongAxes oneOverheard overheardNodes oneRelay noTiers within500 firstCome firstCome := by
  have hmax : 0 < within500.maxEdgeKm := by decide
  exact geoPlausible_iff_allNear hmax symmetric_alongAxes

theorem storeCalls_oneOverheard : storeCalls oneOverheard oneRelay within500 =
    [.upsertEdgeWithCandidates "bb" "aa" [listener.toNodeInfo, faraway.toNodeInfo] "bb" none 1767261600000000000] := by
  have hpath : parsePathJSON "[\"aa\"]" = ["aa"] := by decide +kernel
  have hbb : toLower "bb" = "bb" := by decide +kernel
  have haa : toLower "aa" = "aa" := by decide +kernel
  have hts : parseTimestamp "2026-01-01T10:00:00.000Z" = 1767261600000000000 := by decide +kernel
  change observationCalls oneRelay within500 overheard.toTxRow _ ++ [] ++ [] = _
  simp [observationCalls, hpath, observerCall, hbb, haa, hts, within500, oneRelay, bucket, hasFullOriginator,
    meetsPathTrust, minHashBytesOrDefault, overheard]
  rfl

theorem collected_oneOverheard : collected alongAxes oneOverheard overheardNodes oneRelay within500 =
    (NeighborGraph.new 500 (some (nodeGeo overheardNodes))).upsertEdgeWithCandidates alongAxes "bb" "aa"
      [listener.toNodeInfo, faraway.toNodeInfo] "bb" none 1767261600000000000 := by
  rw [collected]
  rw [storeCalls_oneOverheard]
  rfl

theorem lookup_crossed : (crossed.edges.lookup ⟨"aa02", "bb"⟩).map (fun r =>
    ((crossed.heap r).ambiguous, (crossed.heap r).nodeA, (crossed.heap r).nodeB)) = some (false, "aa02", "bb") := by
  rw [crossed, buildFromStoreWithOptions, contextResolved]
  rw [collected_oneOverheard]
  decide +kernel

theorem far_overheardNodes : Far alongAxes (nodeGeo overheardNodes) 500 "aa02" "bb" := by
  have hbb : toLower "bb" = "bb" := by decide +kernel
  have hnear : toLower "aa01" = "aa01" := by decide +kernel
  have hfar : toLower "aa02" = "aa02" := by decide +kernel
  refine ⟨⟨0, 91, true⟩, ⟨0, 1, true⟩, ?_, ?_, rfl, rfl, by decide +kernel⟩
  · simp [nodeGeo, overheardNodes, hearer, listener, faraway, hbb, hnear, hfar, set_apply]
  · simp [nodeGeo, overheardNodes, hearer, listener, faraway, hbb, hnear, hfar, set_apply]

/-- The edge between two nodes a quarter of the equator apart is in the graph. -/
theorem crossed_implausible : ¬ ∀ (haversineKm : Distance) (s : Store) (allNodes : List MapNode) (pm : PrefixMap)
    (tiers : NeighborGraph → Tiers) (opts : BuildOptions) (ambiguousOrder edgeOrder : KeyOrder),
    Symmetric haversineKm → 0 < opts.maxEdgeKm →
      GeoPlausible haversineKm (nodeGeo allNodes) opts.maxEdgeKm
        (buildFromStoreWithOptions haversineKm s allNodes pm tiers opts ambiguousOrder edgeOrder) := by
  intro h
  have hcrossed : GeoPlausible alongAxes (nodeGeo overheardNodes) 500 crossed :=
    h alongAxes oneOverheard overheardNodes oneRelay noTiers within500 firstCome firstCome symmetric_alongAxes (by decide)
  obtain ⟨r, hr, hedge⟩ := Option.map_eq_some_iff.mp lookup_crossed
  obtain ⟨hamb, hsides⟩ := Prod.mk.inj hedge
  obtain ⟨hA, hB⟩ := Prod.mk.inj hsides
  have hnear := hcrossed _ r hr hamb
  rw [hA, hB] at hnear
  exact hnear far_overheardNodes

end MeshcoreAnalyzer.Neighbors

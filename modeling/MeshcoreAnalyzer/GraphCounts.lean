import MeshcoreAnalyzer.GraphConsistency

namespace MeshcoreAnalyzer.Neighbors

open Maps PacketStore Runs Tables

variable {g : NeighborGraph} {key : EdgeKey} {r : EdgeRef} {haversineKm : Distance}

structure Measure where
  of : NeighborEdge → Nat
  weight : Sighting → Nat
  new : ∀ nodeA nodeB hop ambiguous candidates ts, of (.new nodeA nodeB hop ambiguous candidates ts) = 0
  observe : ∀ e hop observer snr ts, of (.observe e hop observer snr ts) = of e + weight ⟨hop, snr⟩
  merge : ∀ existing e, of (.merge existing e) = of existing + of e
  settle : ∀ e k, of (NeighborGraph.settle e k) = of e

namespace Measure

def sum (μ : Measure) (g : NeighborGraph) : Nat := total g.edges fun r => μ.of (g.heap r)

variable (μ : Measure)

def count : Measure where
  of e := e.count
  weight _ := 1
  new _ _ _ _ _ _ := rfl
  observe _ _ _ _ _ := rfl
  merge _ _ := rfl
  settle _ _ := rfl

def snrCount : Measure where
  of e := e.snrCount
  weight s := if s.snr.isSome then 1 else 0
  new _ _ _ _ _ _ := rfl
  observe e _ _ snr _ := by cases snr <;> rfl
  merge _ _ := rfl
  settle _ _ := rfl

def mode (m : Nat) : Measure where
  of e := tally e.countsByMode m
  weight s := if m = modeOf s.hop then 1 else 0
  new _ _ _ _ _ _ := rfl
  observe e hop _ _ _ := tally_inc e.countsByMode hop m
  merge existing e := tally_add existing.countsByMode e.countsByMode m
  settle _ _ := rfl

theorem sum_modify (h : Inv g) (hkey : g.edges.lookup key = some r) (f : NeighborEdge → NeighborEdge) :
    μ.sum (g.modify r f) + μ.of (g.heap r) = μ.sum g + μ.of (f (g.heap r)) := by
  have hself : (g.modify r f).heap r = f (g.heap r) := Function.update_self _ _ _
  rw [← hself]
  have hupdate : ∀ F F' : EdgeRef → Nat, (∀ q, q ≠ r → F' q = F q) →
      total g.edges F' + F r = total g.edges F + F' r :=
    fun F F' hother => total_update hkey (fun k' hk' => h.one_key hkey hk') hother
  refine hupdate (fun q => μ.of (g.heap q)) (fun q => μ.of ((g.modify r f).heap q)) fun q hq => ?_
  change μ.of (Function.update g.heap r (f (g.heap r)) q) = μ.of (g.heap q)
  rw [Function.update_of_ne hq]

theorem sum_observe (h : Inv g) (hkey : g.edges.lookup key = some r) (hop observer : String)
    (snr : Option Float) (ts : Int) :
    μ.sum (g.modify r (·.observe hop observer snr ts)) = μ.sum g + μ.weight ⟨hop, snr⟩ := by
  have h := μ.sum_modify h hkey (·.observe hop observer snr ts)
  rw [μ.observe] at h
  omega

theorem sum_addEdge (h : Inv g) (hkey : g.edges.lookup key = none) (nodes : List String)
    (nodeA nodeB hop : String) (ambiguous : Bool) (candidates : List String) (ts : Int) :
    μ.sum (g.addEdge key (.new nodeA nodeB hop ambiguous candidates ts) nodes) = μ.sum g := by
  change total (g.edges.insert key g.next) (fun q => μ.of (Function.update g.heap g.next _ q)) = _
  rw [total_insert hkey, Function.update_self, μ.new, Nat.zero_add]
  refine total_congr fun k q hq => ?_
  rw [Function.update_of_ne (h.fresh k q hq).ne]

theorem sum_addEdge_observe (h : Inv g) (hkey : g.edges.lookup key = none) {nodes : List String}
    {nodeA nodeB hop : String} {ambiguous : Bool} {candidates : List String} {ts : Int}
    (hinv : Inv (g.addEdge key (.new nodeA nodeB hop ambiguous candidates ts) nodes)) (observer : String)
    (snr : Option Float) :
    μ.sum ((g.addEdge key (.new nodeA nodeB hop ambiguous candidates ts) nodes).modify g.next
      (·.observe hop observer snr ts)) = μ.sum g + μ.weight ⟨hop, snr⟩ := by
  have hnew : (g.addEdge key (.new nodeA nodeB hop ambiguous candidates ts) nodes).edges.lookup key = some g.next :=
    AList.lookup_insert g.edges
  rw [μ.sum_observe hinv hnew, μ.sum_addEdge h hkey]

theorem sum_detach (h : Inv g) (hkey : g.edges.lookup key = some r) (newKey : EdgeKey) :
    μ.sum g = μ.of (g.heap r) + μ.sum (g.detach key r newKey) := by
  rw [sum]
  rw [total_erase hkey]
  congr 1
  refine total_congr fun k q hq => ?_
  have hne : q ≠ r := fun hqr => h.lookup_detach hkey newKey k (hqr ▸ hq)
  change _ = μ.of (Function.update g.heap r _ q)
  rw [Function.update_of_ne hne]

theorem sum_attach (h : Inv g) (newKey : EdgeKey) :
    μ.sum (g.attach r newKey) = μ.of (g.heap r) + μ.sum g := by
  rw [NeighborGraph.attach]
  split
  · next existing hexisting =>
      have hsum := μ.sum_modify h hexisting (·.merge (g.heap r))
      rw [μ.merge] at hsum
      omega
  · next hnone => exact total_insert hnone

theorem sum_resolveEdge (h : Inv g) (hkey : g.edges.lookup key = some r) (hamb : (g.heap r).ambiguous = true)
    (pk : String) : μ.sum (g.resolveEdge key r key.a pk) = μ.sum g := by
  unfold NeighborGraph.resolveEdge
  dsimp only
  rw [μ.sum_attach (h.detach hkey hamb _), heap_detach, μ.settle, ← μ.sum_detach h hkey]

end Measure

/-- The edges have counted what has been seen, each once. -/
structure Conserved (g : NeighborGraph) (seen : List Sighting) : Prop where
  count : (g.edges.entries.map fun p => (g.heap p.2).count).sum = seen.length
  snrCount : (g.edges.entries.map fun p => (g.heap p.2).snrCount).sum = seen.countP (·.snr.isSome)
  modes : ∀ m, (g.edges.entries.map fun p => tally (g.heap p.2).countsByMode m).sum =
    seen.countP fun s => m = modeOf s.hop

namespace Measure

variable (μ : Measure)

theorem sum_upsertEdge (h : Inv g) {a b : String} (ha : isPseudo a = false) (hb : isPseudo b = false)
    (hne : a ≠ b) (hop observer : String) (snr : Option Float) (ts : Int) :
    μ.sum (g.upsertEdge haversineKm a b hop observer snr ts) =
      μ.sum g + ((accept haversineKm g a b hop snr).map μ.weight).getD 0 := by
  rw [NeighborGraph.upsertEdge, accept]
  split
  · rfl
  · dsimp only
    split
    · next r hkey => exact μ.sum_observe h hkey hop observer snr ts
    · next hkey => exact μ.sum_addEdge_observe h hkey (h.addSettled ha hb hne hkey hop ts) observer snr

theorem sum_upsertAmbiguous (h : Inv g) {knownPK hop : String} {filtered : List String}
    (hknown : isPseudo knownPK = false) (hlt : knownPK < pseudo hop)
    (hfiltered : ∀ c ∈ filtered, c ≠ knownPK ∧ isPseudo c = false) (observer : String) (snr : Option Float)
    (ts : Int) : μ.sum (g.upsertAmbiguous knownPK hop filtered observer snr ts) = μ.sum g + μ.weight ⟨hop, snr⟩ := by
  rw [NeighborGraph.upsertAmbiguous]
  rw [makeEdgeKey_of_lt hlt]
  dsimp only
  split
  · next r hkey => exact μ.sum_observe h hkey hop observer snr ts
  · next hkey => exact μ.sum_addEdge_observe h hkey (h.addAmbiguous hknown hlt hfiltered hkey ts) observer snr

theorem sum_upsertEdgeWithCandidates (h : Inv g) {knownPK hop : String} {candidates : List NodeInfo}
    (hknown : isPseudo knownPK = false) (hnamed : ∀ n ∈ candidates, isPseudo (toLower n.publicKey) = false)
    (hlt : Ambiguous knownPK candidates → knownPK < pseudo hop) (observer : String) (snr : Option Float) (ts : Int) :
    μ.sum (g.upsertEdgeWithCandidates haversineKm knownPK hop candidates observer snr ts) = μ.sum g +
      ((sighting haversineKm g (.upsertEdgeWithCandidates knownPK hop candidates observer snr ts)).map μ.weight).getD 0 := by
  rcases upsertEdgeWithCandidates_cases haversineKm g knownPK hop candidates observer snr ts with
    ⟨_, heq, hseen⟩ | ⟨pk, hpk, hne, _, heq, hseen⟩ | ⟨_, hambiguous, heq, hseen⟩
  · rw [heq, hseen]
    rfl
  · obtain ⟨n, hn, rfl⟩ := List.mem_map.mp hpk
    rw [heq, hseen]
    exact μ.sum_upsertEdge h hknown (hnamed n hn) hne.symm hop observer snr ts
  · rw [heq, hseen]
    exact μ.sum_upsertAmbiguous h hknown (hlt hambiguous) (mem_otherCandidates hnamed) observer snr ts

theorem sum_applyResolution (h : Inv g) {x : NeighborGraph.AmbiguousEntry × String} (hx : Fit x) :
    μ.sum (g.applyResolution x) = μ.sum g := by
  rw [NeighborGraph.applyResolution]
  split
  · next e he =>
      split
      · next hamb =>
          rw [hx.1]
          exact μ.sum_resolveEdge h he hamb x.2
      · rfl
  · rfl

theorem sum_disambiguateKey (h : Inv g) (neighbors : String → Finset String) (key : EdgeKey) :
    μ.sum (g.disambiguateKey neighbors key) = μ.sum g := by
  rw [NeighborGraph.disambiguateKey]
  split
  · rfl
  · next r hr =>
      split
      · next pk hpk =>
          have hamb := (disambiguation_spec hpk).1
          rw [((h.sided key r hr).knownNode_eq hamb).1]
          exact μ.sum_resolveEdge h hr hamb pk
      · rfl

theorem sum_step (h : Inv g) {a : Action} (hnamed : a.Named) (hleading : a.Leading) (hkeep : a.isPrune = false) :
    μ.sum (step haversineKm g a) = μ.sum g + ((sighting haversineKm g a).map μ.weight).getD 0 := by
  cases a with
  | upsertEdge a b hop observer snr ts => exact μ.sum_upsertEdge h hnamed.1 hnamed.2.1 hnamed.2.2 hop observer snr ts
  | upsertEdgeWithCandidates knownPK hop candidates observer snr ts =>
      exact μ.sum_upsertEdgeWithCandidates h hnamed.1 hnamed.2 hleading observer snr ts
  | resolveAmbiguousEdges pm tiers keys =>
      have hboth := foldl_invariant (I := fun t => Inv t ∧ μ.sum t = μ.sum g) ⟨h, rfl⟩ fun t x hx ht =>
        have hfit := h.fit_resolutions hnamed keys x hx
        ⟨ht.1.applyResolution hfit, (μ.sum_applyResolution ht.1 hfit).trans ht.2⟩
      exact hboth.2
  | disambiguate keys =>
      have hboth := foldl_invariant (I := fun t => Inv t ∧ μ.sum t = μ.sum g)
        (l := keys) ⟨h, rfl⟩ fun t key _ ht => ⟨ht.1.disambiguateKey g.resolvedNeighbors key,
          (μ.sum_disambiguateKey ht.1 g.resolvedNeighbors key).trans ht.2⟩
      exact hboth.2
  | pruneOlderThan cutoff keys => cases hkeep

theorem sum_run (h : Inv g) {acts : List Action} (hnamed : ∀ a ∈ acts, a.Named) (hleading : ∀ a ∈ acts, a.Leading)
    (hkeep : ∀ a ∈ acts, a.isPrune = false) : μ.sum (acts.foldl (step haversineKm) g) =
      μ.sum g + ((sightings haversineKm g acts).map μ.weight).sum := by
  induction acts generalizing g with
  | nil => rfl
  | cons a acts ih =>
      have ha : a ∈ a :: acts := List.mem_cons_self
      have hstep : Inv (step haversineKm g a) := h.step (hnamed a ha) (hleading a ha)
      have hrest := ih hstep (fun b hb => hnamed b (List.mem_cons_of_mem a hb))
        (fun b hb => hleading b (List.mem_cons_of_mem a hb)) fun b hb => hkeep b (List.mem_cons_of_mem a hb)
      rw [List.foldl_cons, hrest, μ.sum_step h (hnamed a ha) (hleading a ha) (hkeep a ha)]
      rw [sightings_cons, List.map_append, List.sum_append, Nat.add_assoc]
      cases sighting haversineKm g a with
      | none => rfl
      | some s => simp

end Measure

variable {maxEdgeKm : ℚ} {nodeGeo : Option (GoMap String NodeGeoInfo)} {acts : List Action}

theorem inv_run (hnamed : ∀ a ∈ acts, a.Named) (hleading : ∀ a ∈ acts, a.Leading) :
    Inv (acts.foldl (step haversineKm) (.new maxEdgeKm nodeGeo)) :=
  foldl_invariant (I := Inv) (inv_new maxEdgeKm nodeGeo) fun _ a ha h => h.step (hnamed a ha) (hleading a ha)

theorem sum_indicator (p : Sighting → Bool) (seen : List Sighting) :
    (seen.map fun s => if p s then 1 else 0).sum = seen.countP p := by
  induction seen with
  | nil => rfl
  | cons s seen ih =>
      rw [List.map_cons, List.sum_cons, ih, List.countP_cons]
      exact Nat.add_comm _ _

theorem conserved_run (hnamed : ∀ a ∈ acts, a.Named) (hleading : ∀ a ∈ acts, a.Leading)
    (hkeep : ∀ a ∈ acts, a.isPrune = false) :
    Conserved (acts.foldl (step haversineKm) (.new maxEdgeKm nodeGeo))
      (sightings haversineKm (.new maxEdgeKm nodeGeo) acts) := by
  have hsum : ∀ μ : Measure, μ.sum (acts.foldl (step haversineKm) (.new maxEdgeKm nodeGeo)) =
      ((sightings haversineKm (.new maxEdgeKm nodeGeo) acts).map μ.weight).sum := by
    intro μ
    rw [μ.sum_run (inv_new maxEdgeKm nodeGeo) hnamed hleading hkeep]
    exact Nat.zero_add _
  refine ⟨(hsum .count).trans ?_, (hsum .snrCount).trans (sum_indicator _ _), fun m => ?_⟩
  · change (List.map (fun _ => 1) _).sum = _
    simp
  · refine (hsum (.mode m)).trans ?_
    rw [← sum_indicator]
    congr 2
    funext s
    simp [Measure.mode]

/-- As long as nodes are called like nodes and the known node of an ambiguous edge comes
before the pseudo-node, the edges are filed where they belong in every order of the calls,
and before anything is pruned nothing that was seen is lost or counted twice. -/
theorem consistent_of_leading (hnamed : ∀ a ∈ acts, a.Named) (hleading : ∀ a ∈ acts, a.Leading) :
    Consistent (acts.foldl (step haversineKm) (.new maxEdgeKm nodeGeo)) ∧
      ((∀ a ∈ acts, a.isPrune = false) → Conserved (acts.foldl (step haversineKm) (.new maxEdgeKm nodeGeo))
        (sightings haversineKm (.new maxEdgeKm nodeGeo) acts)) :=
  ⟨(inv_run hnamed hleading).consistent, conserved_run hnamed hleading⟩

def zetaKey : EdgeKey := ⟨"prefix:aa", "zeta"⟩

def prunedZeta : List Action :=
  [.upsertEdgeWithCandidates "zeta" "aa" [] "zeta" none 0, .pruneOlderThan 1 [zetaKey]]

theorem named_prunedZeta : ∀ a ∈ prunedZeta, a.Named := by
  intro a ha
  rcases List.mem_cons.mp ha with rfl | ha
  · exact ⟨by decide, fun n hn => (by cases hn)⟩
  · rw [List.mem_singleton.mp ha]
    trivial

/-- A node hears another one, an observer called zeta a hop that only one node begins with,
and a node a hop that stands for two nodes; then all is resolved and pruned. -/
def hexRun : List Action :=
  [.upsertEdge "aa" "bb" "" "bb" none 0, .upsertEdgeWithCandidates "zeta" "dd" [⟨"dd01"⟩] "zeta" none 0,
    .upsertEdgeWithCandidates "aa" "cc" [⟨"cc01"⟩, ⟨"cc02"⟩] "bb" none 0,
    .resolveAmbiguousEdges ⟨Maps.empty, ∅⟩ (fun _ _ _ => none) [⟨"aa", "bb"⟩, ⟨"aa", "prefix:cc"⟩],
    .disambiguate [⟨"aa", "prefix:cc"⟩, ⟨"aa", "bb"⟩], .pruneOlderThan 1 [⟨"aa", "bb"⟩, ⟨"aa", "prefix:cc"⟩]]

theorem consistent_of_leading_hexRun :
    Consistent (hexRun.foldl (step fun _ _ _ _ => 0) (.new 500 none)) ∧
      ((∀ a ∈ hexRun, a.isPrune = false) → Conserved (hexRun.foldl (step fun _ _ _ _ => 0) (.new 500 none))
        (sightings (fun _ _ _ _ => 0) (.new 500 none) hexRun)) := by
  apply consistent_of_leading
  · intro a ha
    unfold hexRun at ha
    simp only [List.mem_cons, List.not_mem_nil, or_false] at ha
    rcases ha with rfl | rfl | rfl | rfl | rfl | rfl
    · exact ⟨by decide, by decide, by decide⟩
    · exact ⟨by decide, by decide +kernel⟩
    · exact ⟨by decide, by decide +kernel⟩
    · intro g hop ctx n hn
      cases hn
    · trivial
    · trivial
  · intro a ha
    unfold hexRun at ha
    simp only [List.mem_cons, List.not_mem_nil, or_false] at ha
    rcases ha with rfl | rfl | rfl | rfl | rfl | rfl
    · trivial
    · intro hambiguous
      exact absurd rfl hambiguous.1
    · intro _
      decide
    · trivial
    · trivial
    · trivial

/-- The edge is no edge any more, and still filed under zeta. -/
theorem prunedZeta_inconsistent : ¬ ∀ (haversineKm : Distance) (maxEdgeKm : ℚ)
    (nodeGeo : Option (GoMap String NodeGeoInfo)) (acts : List Action), (∀ a ∈ acts, a.Named) →
      Consistent (acts.foldl (step haversineKm) (.new maxEdgeKm nodeGeo)) := by
  intro h
  have hlive := (h (fun _ _ _ _ => 0) 0 none prunedZeta named_prunedZeta).live
  obtain ⟨k, hk⟩ := hlive "zeta" 0 (by decide)
  have hedges : (prunedZeta.foldl (step fun _ _ _ _ => 0) (.new 0 none)).edges = ∅ := AList.ext (by decide)
  rw [hedges] at hk
  cases hk

end MeshcoreAnalyzer.Neighbors

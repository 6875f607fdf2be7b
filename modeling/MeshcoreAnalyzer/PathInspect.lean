import MeshcoreAnalyzer.HopTiers
import MeshcoreAnalyzer.Orders
import Mathlib.Algebra.Order.BigOperators.GroupWithZero.List
import Mathlib.Data.List.Perm.Basic
import Mathlib.Data.List.Sections
import Mathlib.Data.Multiset.Bind
import Mathlib.Data.Rat.Floor

namespace MeshcoreAnalyzer.PathInspect

open HopTiers Maps Neighbors Orders PacketStore

/-! `beamSearch` of cmd/server/path_inspect.go. Scores are exact. -/

/-- `nodeInfo`, with the name. -/
structure InspectNode extends Node where
  name : String

/-- What is computed in floating point at the time of the call: `Score` of an edge, the hours since its `LastSeen`, and
distances. -/
structure Figures where
  score : NeighborEdge → ℚ
  hoursSince : NeighborEdge → ℚ
  haversineKm : Distance

structure HopAlternative where
  publicKey : String
  name : String
  score : ℚ

/-- `hop` is the field `Prefix`. -/
structure HopEvidence where
  hop : String
  candidatesConsidered : Nat
  chosen : String
  edgeWeight : ℚ
  trusted : Bool
  alternatives : List HopAlternative

structure BeamEntry where
  pubkeys : List String
  names : List String
  evidence : List HopEvidence
  score : ℚ

def beamWidth : Nat := 20
def geoMaxKm : ℚ := 50
def hopScoreFloor : ℚ := 5 / 100
def wEdge : ℚ := 35 / 100
def wGeo : ℚ := 20 / 100
def wRecency : ℚ := 15 / 100
def wSelectivity : ℚ := 30 / 100

section

variable (w : Figures) (graph : NeighborGraph) (nodeByPK : GoMap String InspectNode)

/-- `strings.EqualFold`, of hexadecimal digits -/
def equalFold (a b : String) : Bool := toLower a = toLower b

def foundEdge (lastPK : String) (cand : InspectNode) : Option NeighborEdge :=
  (neighbors graph lastPK).find? fun e =>
    equalFold (if equalFold e.nodeA lastPK then e.nodeB else e.nodeA) cand.publicKey

def recencyScore (e : NeighborEdge) : ℚ :=
  if w.hoursSince e ≤ 24 then 1 else max (1 / 10) (24 / w.hoursSince e)

def geoScore (lastPK : String) (cand : InspectNode) : ℚ :=
  match nodeByPK (toLower lastPK) with
  | none => 1
  | some prevNode =>
      if prevNode.hasGPS ∧ cand.hasGPS then
        let dist := w.haversineKm prevNode.lat prevNode.lon cand.lat cand.lon
        if geoMaxKm < dist then max (1 / 10) (geoMaxKm / dist) else 1
      else 1

def scoreHop (entry : BeamEntry) (cand : InspectNode) (candidateCount hopIdx : Nat) : ℚ :=
  let selectivityScore : ℚ := 1 / candidateCount
  match if hopIdx = 0 then none else entry.pubkeys.getLast? with
  | none => wEdge * 1 + wGeo * 1 + wRecency * 1 + wSelectivity * selectivityScore
  | some lastPK =>
      let edgeScore := (foundEdge graph lastPK cand).elim 0 w.score
      let recencyScore := (foundEdge graph lastPK cand).elim 0 (recencyScore w)
      wEdge * edgeScore + wGeo * geoScore w nodeByPK lastPK cand + wRecency * recencyScore +
        wSelectivity * selectivityScore

def BeamEntry.extend (entry : BeamEntry) (hop : String) (cand : InspectNode) (candidateCount : Nat) (hopScore : ℚ) :
    BeamEntry where
  pubkeys := entry.pubkeys ++ [cand.publicKey]
  names := entry.names ++ [cand.name]
  evidence := entry.evidence ++ [⟨hop, candidateCount, cand.publicKey, hopScore, false, []⟩]
  score := entry.score * hopScore

def pathCapable (pm : GoMap String (List InspectNode)) (hop : String) : List InspectNode :=
  (bucket pm hop).filter fun c => canAppearInPath c.role

def nextBeam (hop : String) (filtered : List InspectNode) (hopIdx : Nat) (beam : List BeamEntry) : List BeamEntry :=
  beam.flatMap fun entry => filtered.map fun cand =>
    entry.extend hop cand filtered.length
      (max hopScoreFloor (scoreHop w graph nodeByPK entry cand filtered.length hopIdx))

variable (sortBeam : SliceSort fun e : BeamEntry => OrderDual.toDual e.score) (pm : GoMap String (List InspectNode))

def search : Nat → List BeamEntry → List String → List BeamEntry
  | _, beam, [] => beam
  | hopIdx, beam, hop :: hops =>
      if pathCapable pm hop = [] then []
      else
        search (hopIdx + 1)
          ((sortBeam.sort (nextBeam w graph nodeByPK hop (pathCapable pm hop) hopIdx beam)).take beamWidth) hops

def beamSearch (prefixes : List String) : List BeamEntry :=
  search w graph nodeByPK sortBeam pm 0 [⟨[], [], [], 1⟩] prefixes

def hopScore (prev : Option String) (cand : InspectNode) (candidateCount : Nat) : ℚ :=
  max hopScoreFloor
    (scoreHop w graph nodeByPK ⟨prev.toList, [], [], 1⟩ cand candidateCount prev.toList.length)

def pathScore : Option String → List (List InspectNode) → List InspectNode → ℚ
  | prev, cands :: rest, cand :: path =>
      hopScore w graph nodeByPK prev cand cands.length * pathScore (some cand.publicKey) rest path
  | _, _, _ => 1

def combinations (prefixes : List String) : List (List InspectNode) := (prefixes.map (pathCapable pm)).sections

structure Stands (prefixes : List String) (path : List InspectNode) (e : BeamEntry) : Prop where
  pubkeys : e.pubkeys = path.map fun n => n.publicKey
  names : e.names = path.map fun n => n.name
  score : e.score = pathScore w graph nodeByPK none (prefixes.map (pathCapable pm)) path

/-- The beam holds as many paths as it may, each combination at most once, and none that is left out scores higher. -/
structure Exhausts (prefixes : List String) (beam : List BeamEntry) : Prop where
  exact : ∃ chosen omitted : List (List InspectNode), (chosen ++ omitted).Perm (combinations pm prefixes) ∧
    List.Forall₂ (Stands w graph nodeByPK pm prefixes) chosen beam ∧
    ∀ path ∈ chosen, ∀ path' ∈ omitted,
      pathScore w graph nodeByPK none (prefixes.map (pathCapable pm)) path' ≤
        pathScore w graph nodeByPK none (prefixes.map (pathCapable pm)) path
  length : beam.length = min beamWidth (combinations pm prefixes).length
  sorted : beam.Pairwise fun e e' => e'.score ≤ e.score

end

section

variable {A : Type}

theorem length_sections (L : List (List A)) : L.sections.length = (L.map List.length).prod := by
  induction L with
  | nil => rfl
  | cons l L ih => simp [List.sections, List.length_flatMap, ih, mul_comm]

theorem sections_concat (L : List (List A)) (l : List A) :
    (L ++ [l]).sections.Perm (L.sections.flatMap fun s => l.map fun a => s ++ [a]) := by
  induction L with
  | nil => simp [List.sections]
  | cons k L ih =>
      have hswap : ∀ s : List A, (l.flatMap fun a => k.map fun b => b :: (s ++ [a])).Perm
          (k.flatMap fun b => l.map fun a => b :: (s ++ [a])) := by
        intro s
        apply Multiset.coe_eq_coe.mp
        rw [← Multiset.coe_bind, ← Multiset.coe_bind]
        exact Multiset.bind_map_comm (l : Multiset A) (k : Multiset A)
      rw [List.cons_append, List.sections, List.sections]
      refine (ih.flatMap_right _).trans ?_
      rw [List.flatMap_assoc, List.flatMap_assoc]
      apply List.Perm.flatMap_left
      intro s _
      rw [List.flatMap_map, List.flatMap_map]
      exact hswap s

end

section

variable {w : Figures} {graph : NeighborGraph} {nodeByPK : GoMap String InspectNode}
  {sortBeam : SliceSort fun e : BeamEntry => OrderDual.toDual e.score} {pm : GoMap String (List InspectNode)}

theorem scoreHop_eq (e : BeamEntry) (cand : InspectNode) (candidateCount : Nat) :
    max hopScoreFloor (scoreHop w graph nodeByPK e cand candidateCount e.pubkeys.length) =
      hopScore w graph nodeByPK e.pubkeys.getLast? cand candidateCount := by
  rw [hopScore]
  congr 1
  cases hlast : e.pubkeys.getLast? with
  | none =>
      rw [List.getLast?_eq_none_iff] at hlast
      simp [scoreHop, hlast]
  | some pk =>
      have hne : e.pubkeys.length ≠ 0 := by
        intro hzero
        rw [List.length_eq_zero_iff] at hzero
        rw [hzero] at hlast
        cases hlast
      simp only [scoreHop, if_neg hne, hlast, Option.toList_some, List.length_singleton, List.getLast?_singleton]
      rfl

theorem pathScore_concat (prev : Option String) {rest : List (List InspectNode)} {path : List InspectNode}
    (h : path.length = rest.length) (cands : List InspectNode) (cand : InspectNode) :
    pathScore w graph nodeByPK prev (rest ++ [cands]) (path ++ [cand]) =
      pathScore w graph nodeByPK prev rest path *
        hopScore w graph nodeByPK ((path.map fun n => n.publicKey).getLast?.or prev) cand cands.length := by
  induction rest generalizing prev path with
  | nil =>
      rw [List.length_nil, List.length_eq_zero_iff] at h
      simp [h, pathScore]
  | cons cs rest ih =>
      cases path with
      | nil => cases h
      | cons c path =>
          have hlast : ((c :: path).map fun n => n.publicKey).getLast?.or prev =
              (path.map fun n => n.publicKey).getLast?.or (some c.publicKey) := by
            rw [List.map_cons, List.getLast?_cons]
            cases (path.map fun n => n.publicKey).getLast? <;> rfl
          rw [List.cons_append, List.cons_append, pathScore, pathScore, ih (some c.publicKey) (Nat.succ.inj h), hlast,
            mul_assoc]

/-- The beam is every combination, in some order. -/
def Complete (w : Figures) (graph : NeighborGraph) (nodeByPK : GoMap String InspectNode)
    (pm : GoMap String (List InspectNode)) (prefixes : List String) (beam : List BeamEntry) : Prop :=
  ∃ paths : List (List InspectNode), paths.Perm (combinations pm prefixes) ∧
    List.Forall₂ (Stands w graph nodeByPK pm prefixes) paths beam

theorem Complete.perm {prefixes : List String} {beam beam' : List BeamEntry}
    (h : Complete w graph nodeByPK pm prefixes beam) (hp : beam.Perm beam') :
    Complete w graph nodeByPK pm prefixes beam' := by
  obtain ⟨paths, hpaths, hstands⟩ := h
  obtain ⟨paths', hperm, hstands'⟩ : Relation.Comp List.Perm (List.Forall₂ _) paths beam' := by
    rw [← List.forall₂_comp_perm_eq_perm_comp_forall₂]
    exact ⟨beam, hstands, hp⟩
  exact ⟨paths', hperm.symm.trans hpaths, hstands'⟩

theorem Stands.extend {done : List String} {path : List InspectNode} {e : BeamEntry}
    (h : Stands w graph nodeByPK pm done path e) (hlength : path.length = done.length) (hop : String) (cand : InspectNode) :
    Stands w graph nodeByPK pm (done ++ [hop]) (path ++ [cand]) (e.extend hop cand (pathCapable pm hop).length
      (max hopScoreFloor (scoreHop w graph nodeByPK e cand (pathCapable pm hop).length done.length))) := by
  have hdone : done.length = e.pubkeys.length := by rw [h.pubkeys, List.length_map, hlength]
  constructor
  · rw [BeamEntry.extend, h.pubkeys, List.map_append, List.map_singleton]
  · rw [BeamEntry.extend, h.names, List.map_append, List.map_singleton]
  · rw [BeamEntry.extend, h.score, hdone, scoreHop_eq, List.map_append, List.map_singleton,
      pathScore_concat none (by rw [hlength, List.length_map]), Option.or_none, h.pubkeys]

theorem Complete.next {done : List String} {beam : List BeamEntry} (h : Complete w graph nodeByPK pm done beam)
    (hop : String) : Complete w graph nodeByPK pm (done ++ [hop])
      (nextBeam w graph nodeByPK hop (pathCapable pm hop) done.length beam) := by
  obtain ⟨paths, hpaths, hstands⟩ := h
  refine ⟨paths.flatMap fun path => (pathCapable pm hop).map fun cand => path ++ [cand], ?_, ?_⟩
  · rw [combinations, List.map_append, List.map_singleton]
    exact (hpaths.flatMap_right _).trans (sections_concat _ _).symm
  · have hlength : ∀ path ∈ paths, path.length = (done.map (pathCapable pm)).length := by
      intro path hpath
      exact List.mem_sections_length (hpaths.mem_iff.mp hpath)
    clear hpaths
    induction hstands with
    | nil => exact List.Forall₂.nil
    | @cons path e paths beam hstand _ ih =>
        rw [nextBeam, List.flatMap_cons, List.flatMap_cons]
        apply List.rel_append
        · rw [List.forall₂_map_left_iff, List.forall₂_map_right_iff, List.forall₂_same]
          intro cand _
          have hpath := hlength path List.mem_cons_self
          rw [List.length_map] at hpath
          exact hstand.extend hpath hop cand
        · exact ih fun path hpath => hlength path (List.mem_cons_of_mem _ hpath)

theorem length_combinations (prefixes : List String) :
    (combinations pm prefixes).length = (prefixes.map fun hop => (pathCapable pm hop).length).prod := by
  rw [combinations, length_sections, List.map_map]
  rfl

theorem prod_length_pos {hops : List String} (h : ∀ hop ∈ hops, pathCapable pm hop ≠ []) :
    0 < (hops.map fun hop => (pathCapable pm hop).length).prod := by
  apply List.prod_pos
  intro n hn
  obtain ⟨hop, hmem, rfl⟩ := List.mem_map.mp hn
  exact List.length_pos_of_ne_nil (h hop hmem)

theorem Complete.length_eq {prefixes : List String} {beam : List BeamEntry}
    (h : Complete w graph nodeByPK pm prefixes beam) : beam.length = (combinations pm prefixes).length := by
  obtain ⟨paths, hpaths, hstands⟩ := h
  rw [← hstands.length_eq, hpaths.length_eq]

theorem Complete.exhausts {prefixes : List String} {beam : List BeamEntry}
    (h : Complete w graph nodeByPK pm prefixes beam) :
    Exhausts w graph nodeByPK pm prefixes ((sortBeam.sort beam).take beamWidth) := by
  have hsorted : (sortBeam.sort beam).Pairwise fun e e' => e'.score ≤ e.score := sortBeam.ascending beam
  obtain ⟨paths, hpaths, hstands⟩ := h.perm (sortBeam.perm beam).symm
  refine ⟨⟨paths.take beamWidth, paths.drop beamWidth, ?_, List.forall₂_take beamWidth hstands, ?_⟩, ?_, ?_⟩
  · rw [List.take_append_drop]
    exact hpaths
  · have hscores : ∀ {paths : List (List InspectNode)} {beam : List BeamEntry},
        List.Forall₂ (Stands w graph nodeByPK pm prefixes) paths beam → (beam.Pairwise fun e e' => e'.score ≤ e.score) →
        paths.Pairwise fun path path' => pathScore w graph nodeByPK none (prefixes.map (pathCapable pm)) path' ≤
          pathScore w graph nodeByPK none (prefixes.map (pathCapable pm)) path := by
      intro paths beam hstands
      have heq : beam.map BeamEntry.score = paths.map (pathScore w graph nodeByPK none (prefixes.map (pathCapable pm))) := by
        induction hstands with
        | nil => rfl
        | cons hstand _ ih => rw [List.map_cons, List.map_cons, ih, hstand.score]
      intro hbeam
      rw [← List.pairwise_map (f := BeamEntry.score) (R := fun x y => y ≤ x), heq, List.pairwise_map] at hbeam
      exact hbeam
    have hpairs := hscores hstands hsorted
    rw [← List.take_append_drop beamWidth paths, List.pairwise_append] at hpairs
    exact hpairs.2.2
  · rw [List.length_take, (sortBeam.perm beam).length_eq, h.length_eq]
  · exact hsorted.sublist (List.take_sublist _ _)

theorem length_nextBeam (hop : String) (filtered : List InspectNode) (hopIdx : Nat) (beam : List BeamEntry) :
    (nextBeam w graph nodeByPK hop filtered hopIdx beam).length = beam.length * filtered.length := by
  simp [nextBeam, List.length_flatMap]

theorem length_search (hops : List String) {beam : List BeamEntry} (h : beam.length ≤ beamWidth) (hopIdx : Nat) :
    (search w graph nodeByPK sortBeam pm hopIdx beam hops).length =
      min beamWidth (beam.length * (hops.map fun hop => (pathCapable pm hop).length).prod) := by
  induction hops generalizing hopIdx beam with
  | nil => simp [search, h]
  | cons hop hops ih =>
      rw [search]
      split
      · next hnil => simp [hnil]
      · rw [ih (List.length_take_le _ _), List.length_take, (sortBeam.perm _).length_eq, length_nextBeam, List.map_cons,
          List.prod_cons, ← Nat.mul_assoc]
        generalize (hops.map fun hop => (pathCapable pm hop).length).prod = p
        generalize beam.length * (pathCapable pm hop).length = n
        rcases Nat.eq_zero_or_pos p with rfl | hp
        · simp
        · rcases le_total n beamWidth with hn | hn
          · rw [min_eq_right hn]
          · have hn' : beamWidth ≤ n * p := le_trans hn (Nat.le_mul_of_pos_right n hp)
            rw [min_eq_left hn, min_eq_left hn', min_eq_left (Nat.le_mul_of_pos_right beamWidth hp)]

theorem length_beamSearch (prefixes : List String) :
    (beamSearch w graph nodeByPK sortBeam pm prefixes).length =
      min beamWidth (prefixes.map fun hop => (pathCapable pm hop).length).prod := by
  rw [beamSearch, length_search prefixes (by decide), List.length_singleton, Nat.one_mul]

theorem search_nil {hops : List String} (h : ∃ hop ∈ hops, pathCapable pm hop = []) (hopIdx : Nat)
    (beam : List BeamEntry) : search w graph nodeByPK sortBeam pm hopIdx beam hops = [] := by
  induction hops generalizing hopIdx beam with
  | nil => simp at h
  | cons hop hops ih =>
      rw [search]
      split
      · rfl
      · next hne =>
          apply ih
          simpa [hne] using h

theorem search_exhausts {hops : List String} {last : String} {done : List String} {beam : List BeamEntry}
    (hcap : ∀ hop ∈ hops ++ [last], pathCapable pm hop ≠ []) (h : Complete w graph nodeByPK pm done beam)
    (hfull : (combinations pm (done ++ hops)).length ≤ beamWidth) :
    Exhausts w graph nodeByPK pm (done ++ (hops ++ [last]))
      (search w graph nodeByPK sortBeam pm done.length beam (hops ++ [last])) := by
  induction hops generalizing done beam with
  | nil =>
      rw [List.nil_append, search, if_neg (hcap last List.mem_cons_self), search]
      exact (h.next last).exhausts
  | cons hop hops ih =>
      have hpos : 0 < (hops.map fun hop => (pathCapable pm hop).length).prod :=
        prod_length_pos fun hop' hmem => hcap hop' (by simp [hmem])
      have hassoc : done ++ hop :: hops = done ++ [hop] ++ hops := by simp
      have hnext : (combinations pm (done ++ [hop])).length ≤ beamWidth := by
        rw [hassoc, length_combinations, List.map_append, List.prod_append] at hfull
        rw [length_combinations]
        exact le_trans (Nat.le_mul_of_pos_right _ hpos) hfull
      have hcomplete := (h.next hop).perm (sortBeam.perm _).symm
      have htake : (sortBeam.sort (nextBeam w graph nodeByPK hop (pathCapable pm hop) done.length beam)).take beamWidth =
          sortBeam.sort (nextBeam w graph nodeByPK hop (pathCapable pm hop) done.length beam) := by
        apply List.take_of_length_le
        rw [hcomplete.length_eq]
        exact hnext
      have hrest := ih (fun hop' hmem => hcap hop' (List.mem_cons_of_mem hop hmem)) hcomplete (by rwa [← hassoc])
      rw [List.cons_append, search, if_neg (hcap hop List.mem_cons_self), htake]
      rw [List.length_append, List.length_singleton, List.append_assoc, List.singleton_append] at hrest
      exact hrest

/-- The search is exact while the beam is not full before the last hop. -/
theorem beamSearch_exact (hops : List String) (last : String)
    (hfull : (hops.map fun hop => (pathCapable pm hop).length).prod ≤ beamWidth) :
    (beamSearch w graph nodeByPK sortBeam pm (hops ++ [last]) = [] ↔ ∃ hop ∈ hops ++ [last], pathCapable pm hop = []) ∧
      ((∀ hop ∈ hops ++ [last], pathCapable pm hop ≠ []) →
        Exhausts w graph nodeByPK pm (hops ++ [last]) (beamSearch w graph nodeByPK sortBeam pm (hops ++ [last]))) := by
  have hstart : Complete w graph nodeByPK pm [] [⟨[], [], [], 1⟩] :=
    ⟨[[]], List.Perm.refl _, List.Forall₂.cons ⟨rfl, rfl, rfl⟩ List.Forall₂.nil⟩
  have hexhausts : (∀ hop ∈ hops ++ [last], pathCapable pm hop ≠ []) →
      Exhausts w graph nodeByPK pm (hops ++ [last]) (beamSearch w graph nodeByPK sortBeam pm (hops ++ [last])) := by
    intro hcap
    exact search_exhausts hcap hstart (by rwa [List.nil_append, length_combinations])
  refine ⟨⟨fun hnil => ?_, fun hex => search_nil hex 0 _⟩, hexhausts⟩
  by_contra hnone
  have hcap : ∀ hop ∈ hops ++ [last], pathCapable pm hop ≠ [] := fun hop hmem hempty => hnone ⟨hop, hmem, hempty⟩
  have hlength := (hexhausts hcap).length
  rw [hnil, List.length_nil] at hlength
  have hpos : 0 < (combinations pm (hops ++ [last])).length := by
    rw [length_combinations]
    exact prod_length_pos hcap
  have hwidth : 0 < beamWidth := by decide
  omega

end

def hill : InspectNode := ⟨⟨⟨"aa01"⟩, "repeater", 0, 0, false, 0⟩, "Hill"⟩
def lake : InspectNode := ⟨⟨⟨"aa02"⟩, "repeater", 0, 0, false, 0⟩, "Lake"⟩

def twins : GoMap String (List InspectNode) := Maps.set Maps.empty "aa" [hill, lake]

def still : Figures := ⟨fun _ => 1, fun _ => 0, fun _ _ _ _ => 0⟩

theorem beamSearch_exact_twins :
    let beam := beamSearch still (NeighborGraph.new 0 none) Maps.empty (SliceSort.insertion _) twins (["aa"] ++ ["aa"])
    (beam = [] ↔ ∃ hop ∈ ["aa"] ++ ["aa"], pathCapable twins hop = []) ∧
      ((∀ hop ∈ ["aa"] ++ ["aa"], pathCapable twins hop ≠ []) →
        Exhausts still (NeighborGraph.new 0 none) Maps.empty twins (["aa"] ++ ["aa"]) beam) :=
  beamSearch_exact ["aa"] "aa" (by decide +kernel)

end MeshcoreAnalyzer.PathInspect

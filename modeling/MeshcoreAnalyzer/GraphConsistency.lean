import MeshcoreAnalyzer.NeighborGraph
import MeshcoreAnalyzer.Runs
import MeshcoreAnalyzer.Tables

namespace MeshcoreAnalyzer.Neighbors

open Maps PacketStore Runs Tables

inductive Action
  | upsertEdge (pubkeyA pubkeyB hop observer : String) (snr : Option Float) (ts : Int)
  | upsertEdgeWithCandidates (knownPK hop : String) (candidates : List NodeInfo) (observer : String)
      (snr : Option Float) (ts : Int)
  | resolveAmbiguousEdges (pm : PrefixMap) (tiers : NeighborGraph → Tiers) (keys : List EdgeKey)
  | disambiguate (keys : List EdgeKey)
  | pruneOlderThan (cutoff : Int) (keys : List EdgeKey)

def step (haversineKm : Distance) (g : NeighborGraph) : Action → NeighborGraph
  | .upsertEdge a b hop observer snr ts => g.upsertEdge haversineKm a b hop observer snr ts
  | .upsertEdgeWithCandidates knownPK hop candidates observer snr ts =>
      g.upsertEdgeWithCandidates haversineKm knownPK hop candidates observer snr ts
  | .resolveAmbiguousEdges pm tiers keys => g.resolveAmbiguousEdges pm tiers keys
  | .disambiguate keys => g.disambiguate keys
  | .pruneOlderThan cutoff keys => g.pruneOlderThan cutoff keys

/-- No node is called like a pseudo-node, and no edge joins a node to itself. -/
def Action.Named : Action → Prop
  | .upsertEdge a b _ _ _ _ => isPseudo a = false ∧ isPseudo b = false ∧ a ≠ b
  | .upsertEdgeWithCandidates knownPK _ candidates _ _ _ =>
      isPseudo knownPK = false ∧ ∀ n ∈ candidates, isPseudo (toLower n.publicKey) = false
  | .resolveAmbiguousEdges pm tiers _ =>
      ∀ g hop ctx, ∀ n ∈ pm.resolveWithContext (tiers g) hop ctx, isPseudo (toLower n.publicKey) = false
  | .disambiguate _ | .pruneOlderThan _ _ => True

def Action.isPrune : Action → Bool
  | .pruneOlderThan _ _ => true
  | _ => false

/-- A hop that stands for no single node, neither before nor after the known node is left out. -/
def Ambiguous (knownPK : String) (candidates : List NodeInfo) : Prop :=
  candidates.length ≠ 1 ∧ (NeighborGraph.otherCandidates knownPK candidates).length ≠ 1

/-- The known node of an ambiguous edge comes before the pseudo-node. -/
def Action.Leading : Action → Prop
  | .upsertEdgeWithCandidates knownPK hop candidates _ _ _ => Ambiguous knownPK candidates → knownPK < pseudo hop
  | _ => True

structure Sighting where
  hop : String
  snr : Option Float

def accept (haversineKm : Distance) (g : NeighborGraph) (a b hop : String) (snr : Option Float) : Option Sighting :=
  if g.shouldRejectGeoFar haversineKm a b then none else some ⟨hop, snr⟩

def sighting (haversineKm : Distance) (g : NeighborGraph) : Action → Option Sighting
  | .upsertEdge a b hop _ snr _ => accept haversineKm g a b hop snr
  | .upsertEdgeWithCandidates knownPK hop candidates _ snr _ =>
      match candidates with
      | [n] => if toLower n.publicKey = knownPK then none else accept haversineKm g knownPK (toLower n.publicKey) hop snr
      | _ =>
          match NeighborGraph.otherCandidates knownPK candidates with
          | [pk] => accept haversineKm g knownPK pk hop snr
          | _ => some ⟨hop, snr⟩
  | _ => none

def sightings (haversineKm : Distance) : NeighborGraph → List Action → List Sighting
  | _, [] => []
  | g, a :: acts => (sighting haversineKm g a).toList ++ sightings haversineKm (step haversineKm g a) acts

theorem sightings_cons (haversineKm : Distance) (g : NeighborGraph) (a : Action) (acts : List Action) :
    sightings haversineKm g (a :: acts) =
      (sighting haversineKm g a).toList ++ sightings haversineKm (step haversineKm g a) acts := rfl

def soleCandidate (knownPK : String) (candidates : List NodeInfo) : Option String :=
  match candidates with
  | [n] => if toLower n.publicKey = knownPK then none else some (toLower n.publicKey)
  | _ =>
      match NeighborGraph.otherCandidates knownPK candidates with
      | [pk] => some pk
      | _ => none

theorem upsertEdgeWithCandidates_cases (haversineKm : Distance) (g : NeighborGraph) (knownPK hop : String)
    (candidates : List NodeInfo) (observer : String) (snr : Option Float) (ts : Int) :
    (soleCandidate knownPK candidates = none ∧
      g.upsertEdgeWithCandidates haversineKm knownPK hop candidates observer snr ts = g ∧
      sighting haversineKm g (.upsertEdgeWithCandidates knownPK hop candidates observer snr ts) = none) ∨
    (∃ pk ∈ candidates.map (toLower ·.publicKey), pk ≠ knownPK ∧ soleCandidate knownPK candidates = some pk ∧
      g.upsertEdgeWithCandidates haversineKm knownPK hop candidates observer snr ts =
        g.upsertEdge haversineKm knownPK pk hop observer snr ts ∧
      sighting haversineKm g (.upsertEdgeWithCandidates knownPK hop candidates observer snr ts) =
        accept haversineKm g knownPK pk hop snr) ∨
    (soleCandidate knownPK candidates = none ∧ Ambiguous knownPK candidates ∧
      g.upsertEdgeWithCandidates haversineKm knownPK hop candidates observer snr ts =
        g.upsertAmbiguous knownPK hop (NeighborGraph.otherCandidates knownPK candidates) observer snr ts ∧
      sighting haversineKm g (.upsertEdgeWithCandidates knownPK hop candidates observer snr ts) =
        some ⟨hop, snr⟩) := by
  have hothers : ∀ pk ∈ NeighborGraph.otherCandidates knownPK candidates,
      pk ∈ candidates.map (toLower ·.publicKey) ∧ pk ≠ knownPK := by
    intro pk hpk
    obtain ⟨hpk, hne⟩ := List.mem_filter.mp hpk
    exact ⟨hpk, of_decide_eq_true hne⟩
  rcases candidates with _ | ⟨n, _ | ⟨m, rest⟩⟩
  · exact .inr (.inr ⟨rfl, ⟨Nat.zero_ne_one, Nat.zero_ne_one⟩, rfl, rfl⟩)
  · unfold soleCandidate NeighborGraph.upsertEdgeWithCandidates sighting
    dsimp only
    by_cases hself : toLower n.publicKey = knownPK
    · rw [if_pos hself, if_pos hself, if_pos hself]
      exact .inl ⟨rfl, rfl, rfl⟩
    · rw [if_neg hself, if_neg hself, if_neg hself]
      exact .inr (.inl ⟨_, List.mem_singleton_self _, hself, rfl, rfl, rfl⟩)
  · unfold soleCandidate NeighborGraph.upsertEdgeWithCandidates sighting
    dsimp only
    have hmany : (n :: m :: rest).length ≠ 1 := by simp
    unfold Ambiguous
    generalize NeighborGraph.otherCandidates knownPK (n :: m :: rest) = others at hothers
    rcases others with _ | ⟨pk, _ | ⟨pk', others⟩⟩
    · exact .inr (.inr ⟨rfl, ⟨hmany, Nat.zero_ne_one⟩, rfl, rfl⟩)
    · obtain ⟨hmem, hne⟩ := hothers pk (List.mem_singleton_self pk)
      exact .inr (.inl ⟨pk, hmem, hne, rfl, rfl, rfl⟩)
    · exact .inr (.inr ⟨rfl, ⟨hmany, by simp⟩, rfl, rfl⟩)

def endpoints (e : NeighborEdge) : List String := if e.ambiguous then [e.nodeA] else [e.nodeA, e.nodeB]

def keyOf (e : NeighborEdge) : EdgeKey :=
  if e.ambiguous then makeEdgeKey e.nodeA (pseudo e.hop) else makeEdgeKey e.nodeA e.nodeB

def Tallied (e : NeighborEdge) : Prop :=
  tally e.countsByMode 0 + tally e.countsByMode 1 + tally e.countsByMode 2 + tally e.countsByMode 3 = e.count ∧
    ∀ m, 3 < m → e.countsByMode m = none

structure Consistent (g : NeighborGraph) : Prop where
  /-- An edge of the graph is filed once under each of its nodes and nowhere else. -/
  filed : ∀ k r, g.edges.lookup k = some r →
    ∀ n, (bucket g.byNode n).count r = if n ∈ endpoints (g.heap r) then 1 else 0
  /-- Nothing is filed that is no edge of the graph. -/
  live : ∀ n, ∀ r ∈ bucket g.byNode n, ∃ k, g.edges.lookup k = some r
  nodes : ∀ n, (g.byNode n).isSome → isPseudo n = false
  stored : ∀ k r, g.edges.lookup k = some r → k = keyOf (g.heap r)
  tallied : ∀ k r, g.edges.lookup k = some r → Tallied (g.heap r)

structure Sided (e : NeighborEdge) (k : EdgeKey) : Prop where
  real : isPseudo e.nodeA = false
  ambiguous : e.ambiguous = true → e.nodeB = "" ∧ k = ⟨e.nodeA, pseudo e.hop⟩ ∧ e.nodeA < pseudo e.hop ∧
    ∀ c ∈ e.candidates, c ≠ e.nodeA ∧ isPseudo c = false
  settled : e.ambiguous = false → k = ⟨e.nodeA, e.nodeB⟩ ∧ e.nodeA < e.nodeB ∧ isPseudo e.nodeB = false

theorem makeEdgeKey_of_lt {a b : String} (h : a < b) : makeEdgeKey a b = ⟨a, b⟩ := if_neg h.asymm

theorem makeEdgeKey_lt {a b : String} (h : a ≠ b) : (makeEdgeKey a b).a < (makeEdgeKey a b).b := by
  rw [makeEdgeKey]
  split
  · next hlt => exact hlt
  · next hle => exact lt_of_le_of_ne (not_lt.mp hle) h

theorem makeEdgeKey_sides {P : String → Prop} {a b : String} (ha : P a) (hb : P b) :
    P (makeEdgeKey a b).a ∧ P (makeEdgeKey a b).b := by
  rw [makeEdgeKey]
  split
  · exact ⟨hb, ha⟩
  · exact ⟨ha, hb⟩

theorem Sided.keyOf_eq {e : NeighborEdge} {k : EdgeKey} (h : Sided e k) : k = keyOf e := by
  rw [keyOf]
  cases he : e.ambiguous with
  | true =>
      obtain ⟨_, hk, hlt, _⟩ := h.ambiguous he
      rw [if_pos rfl, makeEdgeKey_of_lt hlt]
      exact hk
  | false =>
      obtain ⟨hk, hlt, _⟩ := h.settled he
      rw [if_neg (by decide), makeEdgeKey_of_lt hlt]
      exact hk

theorem Sided.nodup_endpoints {e : NeighborEdge} {k : EdgeKey} (h : Sided e k) : (endpoints e).Nodup := by
  rw [endpoints]
  cases he : e.ambiguous with
  | true => exact List.nodup_singleton _
  | false =>
      rw [if_neg (by decide)]
      simpa using (h.settled he).2.1.ne

theorem Sided.real_endpoints {e : NeighborEdge} {k : EdgeKey} (h : Sided e k) :
    ∀ n ∈ endpoints e, isPseudo n = false := by
  rw [endpoints]
  cases he : e.ambiguous with
  | true =>
      intro n hn
      rw [List.mem_singleton.mp hn]
      exact h.real
  | false =>
      intro n hn
      rcases List.mem_cons.mp hn with rfl | hn
      · exact h.real
      · rw [List.mem_singleton.mp hn]
        exact (h.settled he).2.2

structure Inv (g : NeighborGraph) : Prop where
  fresh : ∀ k r, g.edges.lookup k = some r → r < g.next
  sided : ∀ k r, g.edges.lookup k = some r → Sided (g.heap r) k
  filed : ∀ k r, g.edges.lookup k = some r → ∀ n, (bucket g.byNode n).count r = (endpoints (g.heap r)).count n
  live : ∀ n, ∀ r ∈ bucket g.byNode n, ∃ k, g.edges.lookup k = some r
  nodes : ∀ n, (g.byNode n).isSome → isPseudo n = false
  tallied : ∀ k r, g.edges.lookup k = some r → Tallied (g.heap r)

theorem Inv.consistent {g : NeighborGraph} (h : Inv g) : Consistent g where
  filed k r hr n := by
    rw [h.filed k r hr n]
    split
    · next hn => exact List.count_eq_one_of_mem (h.sided k r hr).nodup_endpoints hn
    · next hn => exact List.count_eq_zero_of_not_mem hn
  live := h.live
  nodes := h.nodes
  stored k r hr := (h.sided k r hr).keyOf_eq
  tallied := h.tallied

theorem Inv.one_key {g : NeighborGraph} (h : Inv g) {k k' : EdgeKey} {r : EdgeRef}
    (hk : g.edges.lookup k = some r) (hk' : g.edges.lookup k' = some r) : k' = k :=
  (h.sided k' r hk').keyOf_eq.trans (h.sided k r hk).keyOf_eq.symm

theorem inv_new (maxEdgeKm : ℚ) (nodeGeo : Option (GoMap String NodeGeoInfo)) :
    Inv (NeighborGraph.new maxEdgeKm nodeGeo) := by
  have hnone : ∀ k r, (NeighborGraph.new maxEdgeKm nodeGeo).edges.lookup k ≠ some r :=
    fun k r h => by cases h
  refine ⟨fun k r h => absurd h (hnone k r), fun k r h => absurd h (hnone k r), fun k r h => absurd h (hnone k r),
    fun n r hr => ?_, fun n hn => ?_, fun k r h => absurd h (hnone k r)⟩
  · replace hr : r ∈ bucket (Maps.empty : GoMap String (List EdgeRef)) n := hr
    rw [bucket_empty] at hr
    cases hr
  · cases hn

@[simp] theorem tally_empty (k : Nat) : tally Maps.empty k = 0 := rfl

theorem tally_inc (m : GoMap Nat Nat) (hop : String) (k : Nat) :
    tally (incCountsByMode m hop) k = tally m k + if k = modeOf hop then 1 else 0 := by
  unfold incCountsByMode tally
  rw [set_apply]
  by_cases hk : k = modeOf hop
  · subst hk
    simp
  · simp [hk]

theorem tally_add (m m' : GoMap Nat Nat) (k : Nat) : tally (addCountsByMode m m') k = tally m k + tally m' k := by
  unfold addCountsByMode tally
  cases h : m' k with
  | none => simp [h]
  | some c => simp [h]

theorem modeOf_le (hop : String) : modeOf hop ≤ 3 := by
  unfold modeOf
  dsimp only
  split
  · next h => omega
  · exact Nat.zero_le 3

theorem tallied_new (nodeA nodeB hop : String) (ambiguous : Bool) (candidates : List String) (ts : Int) :
    Tallied (.new nodeA nodeB hop ambiguous candidates ts) := ⟨rfl, fun _ _ => rfl⟩

theorem Tallied.observe {e : NeighborEdge} (h : Tallied e) (hop observer : String) (snr : Option Float) (ts : Int) :
    Tallied (e.observe hop observer snr ts) := by
  have hle := modeOf_le hop
  constructor
  · change tally (incCountsByMode e.countsByMode hop) 0 + tally (incCountsByMode e.countsByMode hop) 1 +
      tally (incCountsByMode e.countsByMode hop) 2 + tally (incCountsByMode e.countsByMode hop) 3 = e.count + 1
    simp only [tally_inc, ← h.1]
    split_ifs <;> omega
  · intro m hm
    change Maps.set e.countsByMode (modeOf hop) _ m = none
    rw [set_apply, if_neg (by omega)]
    exact h.2 m hm

theorem Tallied.merge {existing e : NeighborEdge} (h : Tallied existing) (he : Tallied e) :
    Tallied (existing.merge e) := by
  constructor
  · change tally (addCountsByMode existing.countsByMode e.countsByMode) 0 +
      tally (addCountsByMode existing.countsByMode e.countsByMode) 1 +
      tally (addCountsByMode existing.countsByMode e.countsByMode) 2 +
      tally (addCountsByMode existing.countsByMode e.countsByMode) 3 = existing.count + e.count
    simp only [tally_add, ← h.1, ← he.1]
    omega
  · intro m hm
    change addCountsByMode existing.countsByMode e.countsByMode m = none
    rw [addCountsByMode]
    rw [he.2 m hm]
    exact h.2 m hm

theorem Sided.observe {e : NeighborEdge} {k : EdgeKey} (h : Sided e k) (hop observer : String)
    (snr : Option Float) (ts : Int) : Sided (e.observe hop observer snr ts) k := ⟨h.real, h.ambiguous, h.settled⟩

theorem Sided.merge {existing : NeighborEdge} {k : EdgeKey} (h : Sided existing k) (e : NeighborEdge) :
    Sided (existing.merge e) k := ⟨h.real, h.ambiguous, h.settled⟩

theorem sided_between {e : NeighborEdge} {a b : String} (ha : isPseudo a = false) (hb : isPseudo b = false)
    (hne : a ≠ b) (hA : e.nodeA = (makeEdgeKey a b).a) (hB : e.nodeB = (makeEdgeKey a b).b)
    (hamb : e.ambiguous = false) : Sided e (makeEdgeKey a b) := by
  obtain ⟨hreal, hreal'⟩ := makeEdgeKey_sides (P := fun n => isPseudo n = false) ha hb
  refine ⟨hA ▸ hreal, fun h => ?_, fun _ => ⟨?_, ?_, hB ▸ hreal'⟩⟩
  · rw [hamb] at h
    cases h
  · rw [hA, hB]
  · rw [hA, hB]
    exact makeEdgeKey_lt hne

theorem count_removeFromByNode (m : GoMap String (List EdgeRef)) (k : String) (r q : EdgeRef) (n : String) :
    (bucket (NeighborGraph.removeFromByNode m k r) n).count q =
      (bucket m n).count q - if q = r ∧ n = k then 1 else 0 := by
  rw [NeighborGraph.removeFromByNode]
  split
  · unfold bucket
    rw [set_apply]
    by_cases hn : n = k
    · subst hn
      rw [if_pos rfl]
      change List.count q (List.erase _ r) = _
      by_cases hq : q = r
      · subst hq
        simp
      · simp [hq, List.count_erase_of_ne hq]
    · simp [hn]
  · next hmem =>
      by_cases hqn : q = r ∧ n = k
      · obtain ⟨rfl, rfl⟩ := hqn
        rw [List.count_eq_zero_of_not_mem hmem, Nat.zero_sub]
      · rw [if_neg hqn]
        rfl

theorem isSome_removeFromByNode {m : GoMap String (List EdgeRef)} {k n : String} {r : EdgeRef}
    (h : (NeighborGraph.removeFromByNode m k r n).isSome) : (m n).isSome := by
  unfold NeighborGraph.removeFromByNode at h
  split at h
  · next hmem =>
      rw [set_apply] at h
      split at h
      · next hn =>
          subst hn
          unfold bucket at hmem
          cases hm : m n with
          | none =>
              rw [hm] at hmem
              cases hmem
          | some l => rfl
      · exact h
  · exact h

theorem isSome_pushAll {m : GoMap String (List EdgeRef)} {nodes : List String} {r : EdgeRef} {n : String}
    (h : (pushAll m nodes r n).isSome) : (m n).isSome ∨ n ∈ nodes := by
  induction nodes generalizing m with
  | nil => exact .inl h
  | cons k nodes ih =>
      rcases ih h with h | h
      · replace h : (Maps.set m k (bucket m k ++ [r]) n).isSome := h
        rw [set_apply] at h
        split at h
        · next hn => exact .inr (hn ▸ List.mem_cons_self)
        · exact .inl h
      · exact .inr (List.mem_cons_of_mem k h)

variable {g : NeighborGraph} {k key : EdgeKey} {r : EdgeRef}

theorem Inv.modify (h : Inv g) {f : NeighborEdge → NeighborEdge}
    (hf : ∀ k, g.edges.lookup k = some r → Sided (f (g.heap r)) k ∧ Tallied (f (g.heap r)) ∧
      endpoints (f (g.heap r)) = endpoints (g.heap r)) : Inv (g.modify r f) := by
  have hheap : ∀ q, (g.modify r f).heap q = if q = r then f (g.heap r) else g.heap q := by
    intro q
    exact Function.update_apply _ _ _ _
  refine ⟨h.fresh, fun k q hq => ?_, fun k q hq n => ?_, h.live, h.nodes, fun k q hq => ?_⟩
  all_goals rw [hheap q]; split
  · next hqr => exact (hf k (hqr ▸ hq)).1
  · exact h.sided k q hq
  · next hqr =>
      rw [(hf k (hqr ▸ hq)).2.2, ← hqr]
      exact h.filed k q hq n
  · exact h.filed k q hq n
  · next hqr => exact (hf k (hqr ▸ hq)).2.1
  · exact h.tallied k q hq

theorem Inv.observe (h : Inv g) (hop observer : String) (snr : Option Float) (ts : Int) :
    Inv (g.modify r (·.observe hop observer snr ts)) :=
  h.modify fun k hk => ⟨(h.sided k r hk).observe hop observer snr ts, (h.tallied k r hk).observe hop observer snr ts, rfl⟩

theorem Inv.link (h : Inv g) (hr : r < g.next) (hdead : ∀ k, g.edges.lookup k ≠ some r)
    (hkey : g.edges.lookup key = none) (hsided : Sided (g.heap r) key) (htallied : Tallied (g.heap r))
    {nodes : List String} (hnodes : nodes = endpoints (g.heap r)) :
    Inv { g with edges := g.edges.insert key r, byNode := pushAll g.byNode nodes r } := by
  have hlookup : ∀ {k q}, (g.edges.insert key r).lookup k = some q →
      (k = key ∧ q = r) ∨ q ≠ r ∧ g.edges.lookup k = some q := by
    intro k q hq
    by_cases hk : k = key
    · subst hk
      rw [AList.lookup_insert] at hq
      exact .inl ⟨rfl, (Option.some.inj hq).symm⟩
    · rw [AList.lookup_insert_ne hk] at hq
      exact .inr ⟨fun hqr => hdead k (hqr ▸ hq), hq⟩
  refine ⟨fun k q hq => ?_, fun k q hq => ?_, fun k q hq n => ?_, fun n q hq => ?_, fun n hn => ?_, fun k q hq => ?_⟩
  · rcases hlookup hq with ⟨_, rfl⟩ | ⟨_, hq⟩
    · exact hr
    · exact h.fresh k q hq
  · rcases hlookup hq with ⟨rfl, rfl⟩ | ⟨_, hq⟩
    · exact hsided
    · exact h.sided k q hq
  · rw [count_bucket_pushAll]
    rcases hlookup hq with ⟨_, rfl⟩ | ⟨hne, hq⟩
    · have hzero : (bucket g.byNode n).count q = 0 := by
        apply List.count_eq_zero_of_not_mem
        intro hmem
        obtain ⟨k, hk⟩ := h.live n q hmem
        exact hdead k hk
      rw [hzero, if_pos rfl, hnodes, Nat.zero_add]
    · rw [if_neg hne, Nat.add_zero]
      exact h.filed k q hq n
  · rw [bucket_pushAll, List.mem_append] at hq
    rcases hq with hq | hq
    · obtain ⟨k, hk⟩ := h.live n q hq
      have hne : k ≠ key := by
        rintro rfl
        rw [hkey] at hk
        cases hk
      refine ⟨k, ?_⟩
      change (g.edges.insert key r).lookup k = some q
      rw [AList.lookup_insert_ne hne]
      exact hk
    · refine ⟨key, ?_⟩
      rw [List.eq_of_mem_replicate hq]
      exact AList.lookup_insert g.edges
  · rcases isSome_pushAll hn with hn | hn
    · exact h.nodes n hn
    · rw [hnodes] at hn
      exact hsided.real_endpoints n hn
  · rcases hlookup hq with ⟨_, rfl⟩ | ⟨_, hq⟩
    · exact htallied
    · exact h.tallied k q hq

theorem Inv.unlink (h : Inv g) (hkey : g.edges.lookup key = some r) (byNode : GoMap String (List EdgeRef))
    (hself : ∀ n, (bucket byNode n).count r = 0)
    (hother : ∀ n q, q ≠ r → (bucket byNode n).count q = (bucket g.byNode n).count q)
    (hnodes : ∀ n, (byNode n).isSome → (g.byNode n).isSome) :
    Inv { g with edges := g.edges.erase key, byNode := byNode } := by
  have hlookup : ∀ {k q}, (g.edges.erase key).lookup k = some q → q ≠ r ∧ g.edges.lookup k = some q := by
    intro k q hq
    obtain ⟨hne, hq⟩ := lookup_erase_of_some hq
    refine ⟨?_, hq⟩
    rintro rfl
    exact hne (h.one_key hkey hq)
  refine ⟨fun k q hq => h.fresh k q (hlookup hq).2, fun k q hq => h.sided k q (hlookup hq).2,
    fun k q hq n => (hother n q (hlookup hq).1).trans (h.filed k q (hlookup hq).2 n), fun n q hq => ?_,
    fun n hn => h.nodes n (hnodes n hn), fun k q hq => h.tallied k q (hlookup hq).2⟩
  have hne : q ≠ r := by
    rintro rfl
    exact absurd (hself n) (List.count_pos_iff.mpr hq).ne'
  have hmem : q ∈ bucket g.byNode n := by
    rw [← List.count_pos_iff, ← hother n q hne]
    exact List.count_pos_iff.mpr hq
  obtain ⟨k, hk⟩ := h.live n q hmem
  refine ⟨k, ?_⟩
  change (g.edges.erase key).lookup k = some q
  rw [AList.lookup_erase_ne]
  · exact hk
  · rintro rfl
    rw [hkey] at hk
    exact hne (Option.some.inj hk).symm

theorem Inv.alloc (h : Inv g) (e : NeighborEdge) :
    Inv { g with heap := Function.update g.heap g.next e, next := g.next + 1 } := by
  have hheap : ∀ k q, g.edges.lookup k = some q → Function.update g.heap g.next e q = g.heap q :=
    fun k q hq => Function.update_of_ne (h.fresh k q hq).ne _ _
  refine ⟨fun k q hq => (h.fresh k q hq).trans g.next.lt_succ_self, fun k q hq => ?_, fun k q hq n => ?_, h.live,
    h.nodes, fun k q hq => ?_⟩
  · change Sided (Function.update g.heap g.next e q) k
    rw [hheap k q hq]
    exact h.sided k q hq
  · change (bucket g.byNode n).count q = (endpoints (Function.update g.heap g.next e q)).count n
    rw [hheap k q hq]
    exact h.filed k q hq n
  · change Tallied (Function.update g.heap g.next e q)
    rw [hheap k q hq]
    exact h.tallied k q hq

theorem Inv.addEdge (h : Inv g) {e : NeighborEdge} {nodes : List String} (hkey : g.edges.lookup key = none)
    (hsided : Sided e key) (htallied : Tallied e) (hnodes : nodes = endpoints e) : Inv (g.addEdge key e nodes) := by
  have hself : Function.update g.heap g.next e g.next = e := Function.update_self _ _ _
  refine (h.alloc e).link (r := g.next) g.next.lt_succ_self (fun k hk => ?_) hkey ?_ ?_ ?_
  · exact absurd (h.fresh k g.next hk) (Nat.lt_irrefl _)
  · change Sided (Function.update g.heap g.next e g.next) key
    rw [hself]
    exact hsided
  · change Tallied (Function.update g.heap g.next e g.next)
    rw [hself]
    exact htallied
  · change nodes = endpoints (Function.update g.heap g.next e g.next)
    rw [hself]
    exact hnodes

variable {haversineKm : Distance}

theorem Inv.addSettled (h : Inv g) {a b : String} (ha : isPseudo a = false) (hb : isPseudo b = false)
    (hne : a ≠ b) (hkey : g.edges.lookup (makeEdgeKey a b) = none) (hop : String) (ts : Int) :
    Inv (g.addEdge (makeEdgeKey a b) (.new (makeEdgeKey a b).a (makeEdgeKey a b).b hop false [] ts)
      [(makeEdgeKey a b).a, (makeEdgeKey a b).b]) :=
  h.addEdge hkey (sided_between ha hb hne rfl rfl rfl) (tallied_new ..) rfl

theorem Inv.addAmbiguous (h : Inv g) {knownPK hop : String} {filtered : List String}
    (hknown : isPseudo knownPK = false) (hlt : knownPK < pseudo hop)
    (hfiltered : ∀ c ∈ filtered, c ≠ knownPK ∧ isPseudo c = false)
    (hkey : g.edges.lookup ⟨knownPK, pseudo hop⟩ = none) (ts : Int) :
    Inv (g.addEdge ⟨knownPK, pseudo hop⟩ (.new knownPK "" hop true filtered ts) [knownPK]) :=
  h.addEdge hkey ⟨hknown, fun _ => ⟨rfl, rfl, hlt, hfiltered⟩, fun h => (by cases h)⟩ (tallied_new ..) rfl

theorem Inv.upsertEdge (h : Inv g) {a b : String} (ha : isPseudo a = false) (hb : isPseudo b = false)
    (hne : a ≠ b) (hop observer : String) (snr : Option Float) (ts : Int) :
    Inv (g.upsertEdge haversineKm a b hop observer snr ts) := by
  rw [NeighborGraph.upsertEdge]
  split
  · exact ⟨h.fresh, h.sided, h.filed, h.live, h.nodes, h.tallied⟩
  · dsimp only
    split
    · exact h.observe hop observer snr ts
    · next hkey => exact (h.addSettled ha hb hne hkey hop ts).observe hop observer snr ts

theorem Inv.upsertAmbiguous (h : Inv g) {knownPK hop : String} {filtered : List String}
    (hknown : isPseudo knownPK = false) (hlt : knownPK < pseudo hop)
    (hfiltered : ∀ c ∈ filtered, c ≠ knownPK ∧ isPseudo c = false) (observer : String) (snr : Option Float)
    (ts : Int) : Inv (g.upsertAmbiguous knownPK hop filtered observer snr ts) := by
  rw [NeighborGraph.upsertAmbiguous]
  rw [makeEdgeKey_of_lt hlt]
  dsimp only
  split
  · exact h.observe hop observer snr ts
  · next hkey => exact (h.addAmbiguous hknown hlt hfiltered hkey ts).observe hop observer snr ts

theorem mem_otherCandidates {knownPK : String} {candidates : List NodeInfo}
    (hnamed : ∀ n ∈ candidates, isPseudo (toLower n.publicKey) = false) :
    ∀ c ∈ NeighborGraph.otherCandidates knownPK candidates, c ≠ knownPK ∧ isPseudo c = false := by
  intro c hc
  obtain ⟨hc, hne⟩ := List.mem_filter.mp hc
  obtain ⟨n, hn, rfl⟩ := List.mem_map.mp hc
  exact ⟨of_decide_eq_true hne, hnamed n hn⟩

theorem Inv.upsertEdgeWithCandidates (h : Inv g) {knownPK hop : String} {candidates : List NodeInfo}
    (hknown : isPseudo knownPK = false) (hnamed : ∀ n ∈ candidates, isPseudo (toLower n.publicKey) = false)
    (hlt : Ambiguous knownPK candidates → knownPK < pseudo hop) (observer : String) (snr : Option Float) (ts : Int) :
    Inv (g.upsertEdgeWithCandidates haversineKm knownPK hop candidates observer snr ts) := by
  rcases upsertEdgeWithCandidates_cases haversineKm g knownPK hop candidates observer snr ts with
    ⟨_, heq, _⟩ | ⟨pk, hpk, hne, _, heq, _⟩ | ⟨_, hambiguous, heq, _⟩
  · rw [heq]
    exact h
  · obtain ⟨n, hn, rfl⟩ := List.mem_map.mp hpk
    rw [heq]
    exact h.upsertEdge hknown (hnamed n hn) hne.symm hop observer snr ts
  · rw [heq]
    exact h.upsertAmbiguous hknown (hlt hambiguous) (mem_otherCandidates hnamed) observer snr ts

theorem Sided.knownNode_eq {e : NeighborEdge} (h : Sided e k) (he : e.ambiguous = true) :
    NeighborGraph.knownNode e = k.a ∧ e.nodeA = k.a := by
  obtain ⟨_, hk, _⟩ := h.ambiguous he
  rw [NeighborGraph.knownNode]
  rw [h.real, hk]
  exact ⟨rfl, rfl⟩

theorem heap_detach (g : NeighborGraph) (key : EdgeKey) (r : EdgeRef) (newKey : EdgeKey) :
    (g.detach key r newKey).heap r = NeighborGraph.settle (g.heap r) newKey := Function.update_self _ _ _

theorem Inv.lookup_detach (h : Inv g) (hkey : g.edges.lookup key = some r) (newKey k : EdgeKey) :
    (g.detach key r newKey).edges.lookup k ≠ some r := by
  intro hk
  obtain ⟨hne, hk⟩ := lookup_erase_of_some hk
  exact hne (h.one_key hkey hk)

theorem Inv.detach (h : Inv g) (hkey : g.edges.lookup key = some r) (hamb : (g.heap r).ambiguous = true)
    (newKey : EdgeKey) : Inv (g.detach key r newKey) := by
  have hends : endpoints (g.heap r) = [key.a] := by
    rw [endpoints]
    rw [if_pos hamb, ((h.sided key r hkey).knownNode_eq hamb).2]
  have hgone := h.unlink hkey
    (NeighborGraph.removeFromByNode (NeighborGraph.removeFromByNode g.byNode key.a r) key.b r)
    (fun n => ?_) (fun n q hq => ?_) fun n hn => isSome_removeFromByNode (isSome_removeFromByNode hn)
  · exact hgone.modify (r := r) (f := fun e => NeighborGraph.settle e newKey) fun k hk =>
      absurd hk (h.lookup_detach hkey newKey k)
  · rw [count_removeFromByNode, count_removeFromByNode, h.filed key r hkey n, hends, List.count_singleton]
    by_cases hn : n = key.a
    · simp [hn]
    · simp [hn, Ne.symm hn]
  · rw [count_removeFromByNode, count_removeFromByNode]
    simp [hq]

theorem Inv.attach (h : Inv g) (hr : r < g.next) (hdead : ∀ k, g.edges.lookup k ≠ some r) {newKey : EdgeKey}
    (hsided : Sided (g.heap r) newKey) (htallied : Tallied (g.heap r))
    (hends : [newKey.a, newKey.b] = endpoints (g.heap r)) : Inv (g.attach r newKey) := by
  rw [NeighborGraph.attach]
  split
  · next existing hexisting =>
      exact h.modify fun k hk =>
        ⟨(h.sided k existing hk).merge _, (h.tallied k existing hk).merge htallied, rfl⟩
  · next hnone => exact h.link hr hdead hnone hsided htallied hends

theorem Inv.resolveEdge (h : Inv g) (hkey : g.edges.lookup key = some r) (hamb : (g.heap r).ambiguous = true)
    {pk : String} (hne : pk ≠ key.a) (hreal : isPseudo pk = false) : Inv (g.resolveEdge key r key.a pk) := by
  have hnodeA := ((h.sided key r hkey).knownNode_eq hamb).2
  refine (h.detach hkey hamb _).attach (h.fresh key r hkey) (h.lookup_detach hkey _) ?_ ?_ ?_
  · rw [heap_detach]
    exact sided_between (hnodeA ▸ (h.sided key r hkey).real) hreal hne.symm rfl rfl rfl
  · rw [heap_detach]
    exact h.tallied key r hkey
  · rw [heap_detach]
    rfl

def Fit (x : NeighborGraph.AmbiguousEntry × String) : Prop :=
  x.1.knownNode = x.1.key.a ∧ x.2 ≠ x.1.key.a ∧ isPseudo x.2 = false

theorem Inv.applyResolution (h : Inv g) {x : NeighborGraph.AmbiguousEntry × String} (hx : Fit x) :
    Inv (g.applyResolution x) := by
  rw [NeighborGraph.applyResolution]
  split
  · next e he =>
      split
      · next hamb =>
          rw [hx.1]
          exact h.resolveEdge he hamb hx.2.1 hx.2.2
      · exact h
  · exact h

theorem Inv.fit_resolution (h : Inv g) {pm : PrefixMap} {tiers : NeighborGraph → Tiers}
    (hnamed : ∀ g hop ctx, ∀ n ∈ pm.resolveWithContext (tiers g) hop ctx, isPseudo (toLower n.publicKey) = false)
    {ae : NeighborGraph.AmbiguousEntry} (hae : g.ambiguousEntry key = some ae)
    {x : NeighborGraph.AmbiguousEntry × String} (hx : NeighborGraph.resolution pm tiers g ae = some x) : Fit x := by
  obtain ⟨r, hr, hae⟩ := Option.bind_eq_some_iff.mp hae
  obtain ⟨n, hn, hx⟩ := Option.bind_eq_some_iff.mp hx
  dsimp only at hae
  split at hae
  · cases hae
  · next hkeep =>
      cases hae
      rw [not_or] at hkeep
      have hamb : (g.heap r).ambiguous = true := by simpa using hkeep.1
      split at hx
      · cases hx
      · next hne =>
          cases hx
          have hknown := ((h.sided key r hr).knownNode_eq hamb).1
          exact ⟨hknown, fun heq => hne (heq.trans hknown.symm), hnamed g _ _ n hn⟩

theorem Inv.fit_resolutions (h : Inv g) {pm : PrefixMap} {tiers : NeighborGraph → Tiers}
    (hnamed : ∀ g hop ctx, ∀ n ∈ pm.resolveWithContext (tiers g) hop ctx, isPseudo (toLower n.publicKey) = false)
    (keys : List EdgeKey) :
    ∀ x ∈ (keys.filterMap g.ambiguousEntry).filterMap (NeighborGraph.resolution pm tiers g), Fit x := by
  intro x hx
  obtain ⟨ae, hae, hx⟩ := List.mem_filterMap.mp hx
  obtain ⟨key, _, hae⟩ := List.mem_filterMap.mp hae
  exact h.fit_resolution hnamed hae hx

theorem mem_of_bestTwo {l : List (String × ℚ)} {best second : String × ℚ}
    (h : NeighborGraph.bestTwo l = some (best, second)) : best ∈ l ∧ second ∈ l := by
  unfold NeighborGraph.bestTwo at h
  split at h
  · next x y rest =>
      have hboth : (best, second).1 ∈ x :: y :: rest ∧ (best, second).2 ∈ x :: y :: rest := by
        rw [← Option.some.inj h]
        refine foldl_invariant (I := fun acc : (String × ℚ) × (String × ℚ) =>
          acc.1 ∈ x :: y :: rest ∧ acc.2 ∈ x :: y :: rest) (by split <;> simp) fun acc z hz hacc => ?_
        have hz : z ∈ x :: y :: rest := List.mem_cons_of_mem x (List.mem_cons_of_mem y hz)
        rw [NeighborGraph.bestOf]
        split
        · exact ⟨hz, hacc.1⟩
        · split
          · exact ⟨hacc.1, hz⟩
          · exact hacc
      exact hboth
  · cases h

theorem disambiguation_spec {neighbors : String → Finset String} {e : NeighborEdge} {pk : String}
    (h : NeighborGraph.disambiguation neighbors e = some pk) : e.ambiguous = true ∧ pk ∈ e.candidates := by
  unfold NeighborGraph.disambiguation at h
  split at h
  · cases h
  · next hkeep =>
      rw [not_or] at hkeep
      refine ⟨by simpa using hkeep.1, ?_⟩
      split at h
      · cases h
      · split at h
        · cases h
        · obtain ⟨⟨best, second⟩, hbest, h⟩ := Option.bind_eq_some_iff.mp h
          obtain ⟨c, hc, hbest⟩ := List.mem_map.mp (mem_of_bestTwo hbest).1
          have hpk : best.1 = pk := by
            dsimp only at h
            split at h
            · split at h
              · exact Option.some.inj h
              · cases h
            · split at h
              · exact Option.some.inj h
              · cases h
          rw [← hpk, ← hbest]
          exact hc

theorem Inv.disambiguateKey (h : Inv g) (neighbors : String → Finset String) (key : EdgeKey) :
    Inv (g.disambiguateKey neighbors key) := by
  rw [NeighborGraph.disambiguateKey]
  split
  · exact h
  · next r hr =>
      split
      · next pk hpk =>
          obtain ⟨hamb, hmem⟩ := disambiguation_spec hpk
          obtain ⟨hknown, hnodeA⟩ := (h.sided key r hr).knownNode_eq hamb
          obtain ⟨_, _, _, hcands⟩ := (h.sided key r hr).ambiguous hamb
          rw [hknown]
          exact h.resolveEdge hr hamb (hnodeA ▸ (hcands pk hmem).1) (hcands pk hmem).2
      · exact h

theorem Inv.pruneKey (h : Inv g) (cutoff : Int) (key : EdgeKey) : Inv (g.pruneKey cutoff key) := by
  rw [NeighborGraph.pruneKey]
  split
  · exact h
  · next r hr =>
      dsimp only
      split
      · have hcount := h.filed key r hr
        refine h.unlink hr _ (fun n => ?_) (fun n q hq => ?_) fun n hn => ?_
        · unfold endpoints at hcount
          cases hamb : (g.heap r).ambiguous with
          | true =>
              rw [hamb] at hcount
              have hB := ((h.sided key r hr).ambiguous hamb).1
              rw [hB, if_neg (by simp), count_removeFromByNode, hcount n, if_pos rfl, List.count_singleton]
              by_cases hn : n = (g.heap r).nodeA
              · simp [hn]
              · simp [hn, Ne.symm hn]
          | false =>
              rw [hamb] at hcount
              obtain ⟨_, hlt, _⟩ := (h.sided key r hr).settled hamb
              have hB : (g.heap r).nodeB ≠ "" := by
                intro hB
                rw [hB, String.lt_iff_toList_lt] at hlt
                exact List.not_lt_nil _ hlt
              rw [if_pos hB, count_removeFromByNode, count_removeFromByNode, hcount n, if_neg (by decide)]
              by_cases hA : n = (g.heap r).nodeA
              · subst hA
                simp [hlt.ne]
              · by_cases hB : n = (g.heap r).nodeB
                · subst hB
                  simp [hlt.ne]
                · simp [hA, hB, Ne.symm hA, Ne.symm hB]
        · split <;> simp [count_removeFromByNode, hq]
        · split at hn
          · exact isSome_removeFromByNode (isSome_removeFromByNode hn)
          · exact isSome_removeFromByNode hn
      · exact h

theorem Inv.step (h : Inv g) {a : Action} (hnamed : a.Named) (hleading : a.Leading) :
    Inv (step haversineKm g a) := by
  cases a with
  | upsertEdge a b hop observer snr ts => exact h.upsertEdge hnamed.1 hnamed.2.1 hnamed.2.2 hop observer snr ts
  | upsertEdgeWithCandidates knownPK hop candidates observer snr ts =>
      exact h.upsertEdgeWithCandidates hnamed.1 hnamed.2 hleading observer snr ts
  | resolveAmbiguousEdges pm tiers keys =>
      exact foldl_invariant (I := Inv) h fun t x hx ht => ht.applyResolution (h.fit_resolutions hnamed keys x hx)
  | disambiguate keys =>
      exact foldl_invariant (I := Inv) h fun t key _ ht => ht.disambiguateKey g.resolvedNeighbors key
  | pruneOlderThan cutoff keys => exact foldl_invariant (I := Inv) h fun t key _ ht => ht.pruneKey cutoff key

end MeshcoreAnalyzer.Neighbors

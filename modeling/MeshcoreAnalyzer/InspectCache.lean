import MeshcoreAnalyzer.Joins
import MeshcoreAnalyzer.PacketQueries
import MeshcoreAnalyzer.PathInspect

namespace MeshcoreAnalyzer.InspectCache

open HopTiers Maps Neighbors Orders PacketStore PathInspect

/-! `handlePathInspect` of cmd/server/path_inspect.go with its cache, from the decoded request on. -/

structure InspectContext where
  observerID : String
  since : String
  until_ : String

structure InspectRequest where
  prefixes : List String
  context : Option InspectContext
  limit : Int

structure PathCandidate where
  path : List String
  names : List String
  score : ℚ
  speculative : Bool
  perHop : List HopEvidence

/-- The response without `elapsedMs`. -/
structure InspectResponse where
  candidates : List PathCandidate
  stale : Bool
  prefixes : List String
  hops : Nat
  beamWidth : Nat
  expansionsRun : Nat
  minHashBytesForMapping : Int

inductive Reply
  | badRequest (error : String)
  | retry
  | ok (response : InspectResponse)

def maxPrefixBytes : Nat := 3
def maxRequestItems : Nat := 64
def speculativeThreshold : ℚ := 7 / 10
def inspectCacheTTL : ℚ := 30
def defaultMinHashBytesForMapping : Int := 1
def maxHashBytes : Int := 3

def minHashBytesOrDefault (minHashBytesForMapping : Int) : Int :=
  if minHashBytesForMapping ≤ 0 then defaultMinHashBytesForMapping
  else if maxHashBytes < minHashBytesForMapping then maxHashBytes
  else minHashBytesForMapping

def meetsPathTrust (prefixBytes : Nat) (minHashBytesForMapping : Int) : Bool :=
  let minBytes := minHashBytesOrDefault minHashBytesForMapping
  if minBytes ≤ 1 then true else if prefixBytes = 0 then false else minBytes ≤ prefixBytes

/-- `math.Round`, away from zero in the middle. -/
def round (x : ℚ) : ℤ := if x < 0 then -⌊-x + 1 / 2⌋ else ⌊x + 1 / 2⌋

/-- What `hex.DecodeString` takes. -/
def isHexDigit (c : Char) : Bool := c.isDigit || ('a' ≤ c && c ≤ 'f') || ('A' ≤ c && c ≤ 'F')

def normalizePrefixes : Option Nat → List String → Except String (List String)
  | _, [] => .ok []
  | prefixByteLen, p :: rest =>
      let p := toLower (trimSpace p)
      if p.utf8ByteSize = 0 ∨ p.utf8ByteSize % 2 ≠ 0 then .error "prefixes must be even-length hex"
      else if !p.toList.all isHexDigit then .error "prefixes must be valid hex"
      else if maxPrefixBytes < p.utf8ByteSize / 2 then .error "prefix exceeds 3 bytes"
      else if prefixByteLen.any (· ≠ p.utf8ByteSize / 2) then .error "mixed prefix lengths not allowed"
      else (normalizePrefixes (some (p.utf8ByteSize / 2)) rest).map (p :: ·)

def validate (req : InspectRequest) : Except String InspectRequest :=
  if req.prefixes = [] then .error "prefixes required"
  else if maxRequestItems < req.prefixes.length then .error "too many prefixes (max 64)"
  else (normalizePrefixes none req.prefixes).map fun prefixes => { req with prefixes := prefixes }

def effectiveLimit (limit : Int) : Nat := if limit ≤ 0 then 10 else if 50 < limit then 50 else limit.toNat

def inspectCacheKey (req : InspectRequest) : String :=
  ",".intercalate req.prefixes ++
    match req.context with
    | none => ""
    | some c => "|" ++ c.observerID ++ "|" ++ c.since ++ "|" ++ c.until_

/-- What a request is answered from. `pow` and the figures are floating point. -/
structure Inspector where
  figures : PathInspect.Figures
  pow : ℚ → ℚ → ℚ
  nodes : List InspectNode
  pm : GoMap String (List InspectNode)
  graph : Option NeighborGraph
  stale : Bool
  minHashBytesForMapping : Int
  sortBeam : SliceSort fun e : BeamEntry => OrderDual.toDual e.score
  sortAlternatives : SliceSort fun a : HopAlternative => OrderDual.toDual a.score

structure CachedResult where
  data : InspectResponse
  expiresAt : ℚ

structure Arrival where
  now : ℚ
  req : InspectRequest

namespace Inspector

variable (x : Inspector)

def nodeByPK : GoMap String InspectNode :=
  x.nodes.foldl (fun m n => Maps.set m (toLower n.publicKey) n) Maps.empty

def alternatives (graph : NeighborGraph) (entry : BeamEntry) (hi : Nat) (ev : HopEvidence) (hop : String) :
    List HopAlternative :=
  let partialEntry : BeamEntry :=
    if 0 < hi then ⟨entry.pubkeys.take hi, entry.names.take hi, [], 1⟩ else ⟨[], [], [], 0⟩
  (x.sortAlternatives.sort
    (((bucket x.pm hop).filter fun c => canAppearInPath c.role && c.publicKey != ev.chosen).map fun c =>
      ⟨c.publicKey, c.name,
        round (scoreHop x.figures graph x.nodeByPK partialEntry c ev.candidatesConsidered hi * 1000) / 1000⟩)).take 5

def trusted (hop : String) : Bool := meetsPathTrust (hop.utf8ByteSize / 2) x.minHashBytesForMapping

def perHop (graph : NeighborGraph) (prefixes : List String) (entry : BeamEntry) : List HopEvidence :=
  entry.evidence.mapIdx fun hi ev =>
    match prefixes[hi]? with
    | none => ev
    | some hop => { ev with trusted := x.trusted hop, alternatives := x.alternatives graph entry hi ev hop }

def candidate (graph : NeighborGraph) (prefixes : List String) (entry : BeamEntry) : PathCandidate :=
  let score : ℚ := if entry.pubkeys = [] then 0 else x.pow entry.score (1 / entry.pubkeys.length)
  { path := entry.pubkeys
    names := entry.names
    score := round (score * 1000) / 1000
    speculative := score < speculativeThreshold || !(prefixes.take entry.evidence.length).all x.trusted
    perHop := x.perHop graph prefixes entry }

def sortedBeam (graph : NeighborGraph) (prefixes : List String) : List BeamEntry :=
  x.sortBeam.sort (beamSearch x.figures graph x.nodeByPK x.sortBeam x.pm prefixes)

def respond (graph : NeighborGraph) (req : InspectRequest) : InspectResponse where
  candidates := ((x.sortedBeam graph req.prefixes).take (effectiveLimit req.limit)).map (x.candidate graph req.prefixes)
  stale := x.stale
  prefixes := req.prefixes
  hops := req.prefixes.length
  beamWidth := PathInspect.beamWidth
  expansionsRun := req.prefixes.length * PathInspect.beamWidth
  minHashBytesForMapping := minHashBytesOrDefault x.minHashBytesForMapping

def store (cache : GoMap String CachedResult) (key : String) (now : ℚ) (data : InspectResponse) :
    GoMap String CachedResult :=
  Maps.set (fun k => (cache k).filter fun v => now ≤ v.expiresAt) key ⟨data, now + inspectCacheTTL⟩

def handlePathInspect (cache : GoMap String CachedResult) (a : Arrival) : Reply × GoMap String CachedResult :=
  match validate a.req with
  | .error e => (.badRequest e, cache)
  | .ok req =>
      match (cache (inspectCacheKey req)).filter fun v => a.now < v.expiresAt with
      | some cached => (.ok cached.data, cache)
      | none =>
          match x.graph with
          | none => (.retry, cache)
          | some graph =>
              (.ok (x.respond graph req),
                if x.stale then cache else store cache (inspectCacheKey req) a.now (x.respond graph req))

def replies : GoMap String CachedResult → List Arrival → List Reply
  | _, [] => []
  | cache, a :: rest => (x.handlePathInspect cache a).1 :: replies (x.handlePathInspect cache a).2 rest

structure Best (req : InspectRequest) (response : InspectResponse) : Prop where
  best : ∃ graph, x.graph = some graph ∧ ∃ chosen omitted : List BeamEntry,
    (chosen ++ omitted).Perm (beamSearch x.figures graph x.nodeByPK x.sortBeam x.pm req.prefixes) ∧
    response.candidates = chosen.map (x.candidate graph req.prefixes) ∧
    ∀ e ∈ chosen, ∀ e' ∈ omitted, e'.score ≤ e.score
  limit : response.candidates.length ≤ effectiveLimit req.limit

/-- What a request is to be answered: as if the cache were empty. -/
structure Transparent (a : Arrival) (reply : Reply) : Prop where
  fresh : reply = (x.handlePathInspect Maps.empty a).1
  best : ∀ req response, validate a.req = .ok req → reply = .ok response → x.Best req response

def paths (prefixes : List String) : Nat :=
  min PathInspect.beamWidth (prefixes.map fun hop => (pathCapable x.pm hop).length).prod

/-- Two requests with one key have their paths cut at the same place. -/
def CutAlike (a b : Arrival) : Prop :=
  ∀ req req', validate a.req = .ok req → validate b.req = .ok req' → inspectCacheKey req = inspectCacheKey req' →
    min (effectiveLimit req.limit) (x.paths req.prefixes) = min (effectiveLimit req'.limit) (x.paths req'.prefixes)

end Inspector

theorem normalizePrefixes_digits {prefixByteLen : Option Nat} {ps hops : List String}
    (h : normalizePrefixes prefixByteLen ps = .ok hops) :
    hops.length = ps.length ∧ ∀ hop ∈ hops, ∀ c ∈ hop.toList, isHexDigit c = true := by
  induction ps generalizing prefixByteLen hops with
  | nil =>
      cases h
      simp
  | cons p ps ih =>
      rw [normalizePrefixes] at h
      split at h
      · cases h
      · split at h
        · cases h
        · next hdigits =>
            split at h
            · cases h
            · split at h
              · cases h
              · cases hrest : normalizePrefixes (some ((toLower (trimSpace p)).utf8ByteSize / 2)) ps with
                | error e =>
                    rw [hrest] at h
                    cases h
                | ok rest =>
                    rw [hrest] at h
                    cases h
                    obtain ⟨hlength, hall⟩ := ih hrest
                    refine ⟨by simp [hlength], fun hop hmem => ?_⟩
                    rcases List.mem_cons.mp hmem with rfl | hmem
                    · simpa using hdigits
                    · exact hall hop hmem

theorem validate_digits {req valid : InspectRequest} (h : validate req = .ok valid) :
    valid.prefixes ≠ [] ∧ ∀ hop ∈ valid.prefixes, ∀ c ∈ hop.toList, isHexDigit c = true := by
  rw [validate] at h
  split at h
  · cases h
  · next hne =>
      split at h
      · cases h
      · cases hps : normalizePrefixes none req.prefixes with
        | error e =>
            rw [hps] at h
            cases h
        | ok hops =>
            rw [hps] at h
            cases h
            obtain ⟨hlength, hall⟩ := normalizePrefixes_digits hps
            refine ⟨?_, hall⟩
            intro hnil
            rw [show hops = [] from hnil] at hlength
            exact hne (List.length_eq_zero_iff.mp hlength.symm)

theorem takeWhile_inspectCacheKey {req : InspectRequest}
    (h : ∀ hop ∈ req.prefixes, ∀ c ∈ hop.toList, isHexDigit c = true) :
    (inspectCacheKey req).toList.takeWhile (· != '|') = [','].intercalate (req.prefixes.map String.toList) := by
  have hbar : ∀ c ∈ [','].intercalate (req.prefixes.map String.toList), (c != '|') = true := by
    intro c hc
    rcases Joins.mem_intercalate hc with rfl | ⟨t, ht, hct⟩
    · decide
    · obtain ⟨hop, hmem, rfl⟩ := List.mem_map.mp ht
      rw [bne_iff_ne]
      rintro rfl
      exact absurd (h hop hmem _ hct) (by decide)
  have hkey : (inspectCacheKey req).toList = [','].intercalate (req.prefixes.map String.toList) ++
      (match req.context with
        | none => ""
        | some c => "|" ++ c.observerID ++ "|" ++ c.since ++ "|" ++ c.until_).toList := by
    rw [inspectCacheKey, String.toList_append, String.toList_intercalate]
    rfl
  rw [hkey, List.takeWhile_append_of_pos hbar]
  cases req.context with
  | none => simp
  | some c => simp [String.toList_append]

theorem prefixes_of_inspectCacheKey {req req' : InspectRequest} (hne : req.prefixes ≠ [])
    (h : ∀ hop ∈ req.prefixes, ∀ c ∈ hop.toList, isHexDigit c = true) (hne' : req'.prefixes ≠ [])
    (h' : ∀ hop ∈ req'.prefixes, ∀ c ∈ hop.toList, isHexDigit c = true)
    (hkey : inspectCacheKey req = inspectCacheKey req') : req.prefixes = req'.prefixes := by
  have hsplit : ∀ {r : InspectRequest}, r.prefixes ≠ [] →
      (∀ hop ∈ r.prefixes, ∀ c ∈ hop.toList, isHexDigit c = true) →
      ((inspectCacheKey r).toList.takeWhile (· != '|')).splitOn ',' = r.prefixes.map String.toList := by
    intro r hne hdigits
    rw [takeWhile_inspectCacheKey hdigits]
    apply List.splitOn_intercalate
    · intro t ht hcomma
      obtain ⟨hop, hmem, rfl⟩ := List.mem_map.mp ht
      exact absurd (hdigits hop hmem _ hcomma) (by decide)
    · simpa using hne
  have hlists := hsplit hne h
  rw [hkey, hsplit hne' h'] at hlists
  exact (List.map_injective_iff.mpr (fun _ _ => String.toList_injective) hlists).symm

namespace Inspector

variable {x : Inspector}

theorem length_sortedBeam (graph : NeighborGraph) (prefixes : List String) :
    (x.sortedBeam graph prefixes).length = x.paths prefixes := by
  rw [sortedBeam, (x.sortBeam.perm _).length_eq, length_beamSearch, paths]

theorem respond_eq_iff (graph : NeighborGraph) {req req' : InspectRequest} (h : req.prefixes = req'.prefixes) :
    x.respond graph req = x.respond graph req' ↔
      min (effectiveLimit req.limit) (x.paths req.prefixes) =
        min (effectiveLimit req'.limit) (x.paths req'.prefixes) := by
  rw [← h]
  constructor
  · intro heq
    have hlength := congrArg (fun r => r.candidates.length) heq
    simpa [respond, ← h, length_sortedBeam] using hlength
  · intro hmin
    have htake : (x.sortedBeam graph req.prefixes).take (effectiveLimit req.limit) =
        (x.sortedBeam graph req.prefixes).take (effectiveLimit req'.limit) := by
      rw [List.take_eq_take_iff, length_sortedBeam]
      exact hmin
    rw [respond, respond, ← h, htake]

theorem best_respond {graph : NeighborGraph} (h : x.graph = some graph) (req : InspectRequest) :
    x.Best req (x.respond graph req) := by
  constructor
  · refine ⟨graph, h, (x.sortedBeam graph req.prefixes).take (effectiveLimit req.limit),
      (x.sortedBeam graph req.prefixes).drop (effectiveLimit req.limit), ?_, rfl, ?_⟩
    · rw [List.take_append_drop]
      exact x.sortBeam.perm _
    · have hsorted : (x.sortedBeam graph req.prefixes).Pairwise fun e e' => e'.score ≤ e.score :=
        x.sortBeam.ascending _
      rw [← List.take_append_drop (effectiveLimit req.limit) (x.sortedBeam graph req.prefixes),
        List.pairwise_append] at hsorted
      exact hsorted.2.2
  · rw [respond, List.length_map]
    exact List.length_take_le _ _

theorem handlePathInspect_empty {a : Arrival} {req : InspectRequest} (h : validate a.req = .ok req) :
    (x.handlePathInspect Maps.empty a).1 =
      match x.graph with
      | none => .retry
      | some graph => .ok (x.respond graph req) := by
  rw [handlePathInspect, h]
  cases x.graph <;> rfl

theorem best_fresh {a : Arrival} {req : InspectRequest} {response : InspectResponse} (h : validate a.req = .ok req)
    (hreply : (x.handlePathInspect Maps.empty a).1 = .ok response) : x.Best req response := by
  rw [handlePathInspect_empty h] at hreply
  cases hgraph : x.graph with
  | none =>
      rw [hgraph] at hreply
      cases hreply
  | some graph =>
      rw [hgraph] at hreply
      cases hreply
      exact best_respond hgraph req

theorem transparent_iff_fresh {a : Arrival} {reply : Reply} :
    x.Transparent a reply ↔ reply = (x.handlePathInspect Maps.empty a).1 := by
  constructor
  · exact Transparent.fresh
  · rintro rfl
    exact ⟨rfl, fun req response hvalid hreply => best_fresh hvalid hreply⟩

/-- All that is kept was said to a request seen before, and each of these has left its key. -/
structure Keeps (x : Inspector) (graph : NeighborGraph) (seen : List Arrival) (cache : GoMap String CachedResult) :
    Prop where
  said : ∀ {k v}, cache k = some v → ∃ a ∈ seen, ∃ req, validate a.req = .ok req ∧ inspectCacheKey req = k ∧
    v = ⟨x.respond graph req, a.now + inspectCacheTTL⟩
  kept : ∀ a ∈ seen, ∀ req, validate a.req = .ok req → cache (inspectCacheKey req) ≠ none

/-- No entry expires. -/
def WithinTTL (arrivals : List Arrival) : Prop := ∀ a ∈ arrivals, ∀ b ∈ arrivals, a.now < b.now + inspectCacheTTL

theorem CutAlike.symm {a b : Arrival} (h : x.CutAlike a b) : x.CutAlike b a :=
  fun req req' hreq hreq' hkey => (h req' req hreq' hreq hkey.symm).symm

theorem CutAlike.refl (a : Arrival) : x.CutAlike a a := by
  intro req req' hreq hreq' _
  rw [hreq] at hreq'
  cases hreq'
  rfl

theorem cutAlike_snoc {seen : List Arrival} {a : Arrival} (hseen : ∀ b ∈ seen, ∀ c ∈ seen, x.CutAlike b c)
    (ha : ∀ b ∈ seen, x.CutAlike a b) : ∀ b ∈ seen ++ [a], ∀ c ∈ seen ++ [a], x.CutAlike b c := by
  intro b hb c hc
  rw [List.mem_append, List.mem_singleton] at hb hc
  rcases hb with hb | rfl <;> rcases hc with hc | rfl
  · exact hseen b hb c hc
  · exact (ha b hb).symm
  · exact ha c hc
  · exact CutAlike.refl _

theorem WithinTTL.lt_expiresAt {graph : NeighborGraph} {seen : List Arrival} {cache : GoMap String CachedResult}
    (h : Keeps x graph seen cache) {a : Arrival} (httl : WithinTTL (seen ++ [a])) {k : String} {v : CachedResult}
    (hv : cache k = some v) : a.now < v.expiresAt := by
  obtain ⟨b, hb, req, _, _, rfl⟩ := h.said hv
  exact httl a (by simp) b (by simp [hb])

theorem Keeps.of_error {graph : NeighborGraph} {seen : List Arrival} {cache : GoMap String CachedResult}
    (h : Keeps x graph seen cache) {a : Arrival} {e : String} (hinvalid : validate a.req = .error e) :
    Keeps x graph (seen ++ [a]) cache := by
  constructor
  · intro k v hv
    obtain ⟨b, hb, rest⟩ := h.said hv
    exact ⟨b, List.mem_append_left _ hb, rest⟩
  · intro b hb req hvalid
    rcases List.mem_append.mp hb with hb | hb
    · exact h.kept b hb req hvalid
    · rw [List.mem_singleton.mp hb, hinvalid] at hvalid
      cases hvalid

theorem Keeps.of_hit {graph : NeighborGraph} {seen : List Arrival} {cache : GoMap String CachedResult}
    (h : Keeps x graph seen cache) {a : Arrival} {req : InspectRequest} (hvalid : validate a.req = .ok req)
    (hhit : cache (inspectCacheKey req) ≠ none) : Keeps x graph (seen ++ [a]) cache := by
  constructor
  · intro k v hv
    obtain ⟨b, hb, rest⟩ := h.said hv
    exact ⟨b, List.mem_append_left _ hb, rest⟩
  · intro b hb req' hvalid'
    rcases List.mem_append.mp hb with hb | hb
    · exact h.kept b hb req' hvalid'
    · rw [List.mem_singleton.mp hb, hvalid] at hvalid'
      cases hvalid'
      exact hhit

theorem Keeps.of_store {graph : NeighborGraph} {seen : List Arrival} {cache : GoMap String CachedResult}
    (h : Keeps x graph seen cache) {a : Arrival} {req : InspectRequest} (hvalid : validate a.req = .ok req)
    (httl : WithinTTL (seen ++ [a])) :
    Keeps x graph (seen ++ [a]) (store cache (inspectCacheKey req) a.now (x.respond graph req)) := by
  constructor
  · intro k v hv
    rw [store, set_apply] at hv
    split at hv
    · next hk =>
        cases hv
        exact ⟨a, by simp, req, hvalid, hk.symm, rfl⟩
    · obtain ⟨b, hb, rest⟩ := h.said (Option.eq_some_of_filter_eq_some hv)
      exact ⟨b, List.mem_append_left _ hb, rest⟩
  · intro b hb req' hvalid'
    rw [store, set_apply]
    split
    · exact Option.some_ne_none _
    · next hk =>
        rcases List.mem_append.mp hb with hb | hb
        · obtain ⟨v, hv⟩ := Option.ne_none_iff_exists'.mp (h.kept b hb req' hvalid')
          have hle := le_of_lt (httl.lt_expiresAt h hv)
          simp [hv, hle]
        · rw [List.mem_singleton.mp hb, hvalid] at hvalid'
          cases hvalid'
          exact absurd rfl hk

theorem Keeps.handle {graph : NeighborGraph} {seen : List Arrival} {cache : GoMap String CachedResult}
    (h : Keeps x graph seen cache) (hgraph : x.graph = some graph) (hfresh : x.stale = false) {a : Arrival}
    (httl : WithinTTL (seen ++ [a])) (hseen : ∀ b ∈ seen, ∀ c ∈ seen, x.CutAlike b c) :
    Keeps x graph (seen ++ [a]) (x.handlePathInspect cache a).2 ∧
      (x.Transparent a (x.handlePathInspect cache a).1 ↔ ∀ b ∈ seen, x.CutAlike a b) := by
  rw [transparent_iff_fresh]
  cases hvalid : validate a.req with
  | error e =>
      rw [handlePathInspect, handlePathInspect, hvalid]
      refine ⟨h.of_error hvalid, fun _ b _ req req' hreq => ?_, fun _ => rfl⟩
      rw [hvalid] at hreq
      cases hreq
  | ok req =>
      rw [handlePathInspect_empty hvalid, handlePathInspect, hvalid, hgraph]
      cases hcache : cache (inspectCacheKey req) with
      | none =>
          simp only [Option.filter_none, hfresh, hcache]
          refine ⟨h.of_store hvalid httl, fun _ b hb req₁ req₂ hreq₁ hreq₂ hkey => ?_, fun _ => trivial⟩
          rw [hvalid] at hreq₁
          cases hreq₁
          rw [hkey] at hcache
          exact absurd hcache (h.kept b hb req₂ hreq₂)
      | some v =>
          have hlive := httl.lt_expiresAt h hcache
          obtain ⟨b, hb, req', hvalid', hkey, rfl⟩ := h.said hcache
          have hhit : cache (inspectCacheKey req) ≠ none := by simp [hcache]
          simp only [hcache, Option.filter_some, decide_eq_true hlive]
          obtain ⟨hne, hdigits⟩ := validate_digits hvalid
          obtain ⟨hne', hdigits'⟩ := validate_digits hvalid'
          have hprefixes := prefixes_of_inspectCacheKey hne' hdigits' hne hdigits hkey
          have hcut := respond_eq_iff (x := x) graph hprefixes
          refine ⟨h.of_hit hvalid hhit, fun hreply c hc req₁ req₂ hreq₁ hreq₂ hkeys => ?_, fun hall => ?_⟩
          · rw [hvalid] at hreq₁
            cases hreq₁
            have hbc := hseen b hb c hc req' req₂ hvalid' hreq₂ (hkey.trans hkeys)
            rw [← hbc, hcut.mp (Reply.ok.inj hreply)]
          · exact congrArg Reply.ok (hcut.mpr (hall b hb req req' hvalid hvalid' hkey.symm).symm)

theorem replies_transparent_iff {graph : NeighborGraph} (hgraph : x.graph = some graph) (hfresh : x.stale = false)
    {rest seen : List Arrival} {cache : GoMap String CachedResult} (h : Keeps x graph seen cache)
    (httl : WithinTTL (seen ++ rest)) (hseen : ∀ a ∈ seen, ∀ b ∈ seen, x.CutAlike a b) :
    List.Forall₂ x.Transparent rest (x.replies cache rest) ↔
      ∀ a ∈ seen ++ rest, ∀ b ∈ seen ++ rest, x.CutAlike a b := by
  induction rest generalizing seen cache with
  | nil =>
      rw [List.append_nil, replies]
      exact ⟨fun _ => hseen, fun _ => List.Forall₂.nil⟩
  | cons a rest ih =>
      have hassoc : seen ++ a :: rest = seen ++ [a] ++ rest := by simp
      have hone : WithinTTL (seen ++ [a]) := by
        intro b hb c hc
        rw [hassoc] at httl
        exact httl b (List.mem_append_left rest hb) c (List.mem_append_left rest hc)
      obtain ⟨hkeeps, hreply⟩ := h.handle hgraph hfresh hone hseen
      rw [replies, List.forall₂_cons, hreply]
      constructor
      · rintro ⟨ha, hrest⟩
        rw [hassoc] at httl ⊢
        exact (ih hkeeps httl (cutAlike_snoc hseen ha)).mp hrest
      · intro hall
        refine ⟨fun b hb => hall a (by simp) b (by simp [hb]), ?_⟩
        rw [hassoc] at httl hall
        exact (ih hkeeps httl fun b hb c hc => hall b (List.mem_append_left rest hb) c (List.mem_append_left rest hc)).mpr
          hall

theorem replies_uncached (h : ∀ a, (x.handlePathInspect Maps.empty a).2 = Maps.empty) (arrivals : List Arrival) :
    List.Forall₂ x.Transparent arrivals (x.replies Maps.empty arrivals) := by
  induction arrivals with
  | nil => exact List.Forall₂.nil
  | cons a rest ih =>
      rw [replies, h a]
      exact List.Forall₂.cons (transparent_iff_fresh.mpr rfl) ih

/-- Over a run within the lifetime of the entries. -/
theorem transparent_run_iff (x : Inspector) (arrivals : List Arrival) (httl : WithinTTL arrivals) :
    List.Forall₂ x.Transparent arrivals (x.replies Maps.empty arrivals) ↔
      x.graph = none ∨ x.stale = true ∨ ∀ a ∈ arrivals, ∀ b ∈ arrivals, x.CutAlike a b := by
  cases hgraph : x.graph with
  | none =>
      refine ⟨fun _ => .inl rfl, fun _ => replies_uncached (fun a => ?_) arrivals⟩
      rw [handlePathInspect, hgraph]
      cases validate a.req <;> rfl
  | some graph =>
      cases hstale : x.stale with
      | true =>
          refine ⟨fun _ => .inr (.inl rfl), fun _ => replies_uncached (fun a => ?_) arrivals⟩
          rw [handlePathInspect, hgraph, hstale]
          cases validate a.req <;> rfl
      | false =>
          have hkeeps : Keeps x graph [] Maps.empty := ⟨@fun _ _ h => (by cases h), fun _ h => (by cases h)⟩
          rw [replies_transparent_iff hgraph hstale hkeeps httl fun _ h => (by cases h)]
          simp

end Inspector

def twinInspector : Inspector where
  figures := still
  pow := fun x _ => x
  nodes := [hill, lake]
  pm := twins
  graph := some (NeighborGraph.new 0 none)
  stale := false
  minHashBytesForMapping := 1
  sortBeam := SliceSort.insertion _
  sortAlternatives := SliceSort.insertion _

def oneThenTwo : List Arrival := [⟨0, ⟨["aa"], none, 1⟩⟩, ⟨1, ⟨["aa"], none, 2⟩⟩]

theorem transparent_run_oneThenTwo :
    List.Forall₂ twinInspector.Transparent oneThenTwo (twinInspector.replies Maps.empty oneThenTwo) ↔
      twinInspector.graph = none ∨ twinInspector.stale = true ∨
        ∀ a ∈ oneThenTwo, ∀ b ∈ oneThenTwo, twinInspector.CutAlike a b :=
  twinInspector.transparent_run_iff oneThenTwo (by norm_num [Inspector.WithinTTL, oneThenTwo, inspectCacheTTL])

theorem one_for_two :
    ¬ List.Forall₂ twinInspector.Transparent oneThenTwo (twinInspector.replies Maps.empty oneThenTwo) := by
  intro h
  have hfresh := ((List.forall₂_cons.mp (List.forall₂_cons.mp h).2).1).fresh
  have hlength := congrArg (fun reply => match reply with
    | Reply.ok response => response.candidates.length
    | _ => 0) hfresh
  revert hlength
  decide +kernel

end MeshcoreAnalyzer.InspectCache

import MeshcoreAnalyzer.ReadThrough
import MeshcoreAnalyzer.RelayAgreement
import MeshcoreAnalyzer.Usefulness

namespace MeshcoreAnalyzer.PacketStore.RelayStats

open Maps Runs Timestamps ReadThrough

/-! The cache of `GetRepeaterNodeStatsBatchCached` in cmd/server/repeater_usefulness.go
between its readers and `invalidateRelayStatsCache` of cmd/server/store.go. -/

/-- A store, and the keys of `byPayloadType` as a range over it comes to them. -/
structure RangedStore where
  store : Store
  types : List Int
  nodup : types.Nodup
  ranges : ∀ pt, pt ∈ types ↔ (store.byPayloadType pt).isSome

structure Query where
  pubkeys : List String
  windowHours : ℚ

/-- The signature under which the result is kept: `relayStatsCacheSig` and
`relayStatsCacheWindow`. -/
def service : Service RangedStore Query (String × ℚ) (GoMap String RepeaterNodeStats) where
  compute s now q := s.store.getRepeaterNodeStatsBatch s.types now q.pubkeys q.windowHours
  sig q := (pubkeySig q.pubkeys, q.windowHours)
  ttl := 300 * second

/-- In a run in which no result is published that was computed before the cache was
invalidated last, what is served has been computed since then. -/
theorem served_fresh {s : RangedStore} {now : Int} {acts : List (ReadThrough.Action RangedStore Query)}
    (hrun : Along (ReadThrough.step service) ReadThrough.Enabled (ReadThrough.State.new s now) acts)
    (htimely : Timely acts) (q : Query) (result : GoMap String RepeaterNodeStats)
    (hfound : (acts.foldl (ReadThrough.step service) (ReadThrough.State.new s now)).lookup service q = some result) :
    Fresh service (ReadThrough.State.new s now) acts (service.sig q) result :=
  fresh_of_timely hrun htimely hfound

theorem served_current {s : RangedStore} {now : Int} {acts : List (ReadThrough.Action RangedStore Query)}
    (hrun : Along (ReadThrough.step service) ReadThrough.Enabled (ReadThrough.State.new s now) acts)
    (htimely : Timely acts) (q : Query) (result : GoMap String RepeaterNodeStats)
    (hfound : (acts.foldl (ReadThrough.step service) (ReadThrough.State.new s now)).lookup service q = some result)
    (hwriting : (acts.foldl (ReadThrough.step service) (ReadThrough.State.new s now)).writing = false) :
    ∃ q' at', service.sig q' = service.sig q ∧ result =
      service.compute (acts.foldl (ReadThrough.step service) (ReadThrough.State.new s now)).store at' q' :=
  (fresh_of_timely hrun htimely hfound).current hrun hwriting

def askAa11 : Query := ⟨["aa11"], 24⟩

/-- A reader computes its result, a writer changes the store and invalidates the
cache, and only then the result is published. -/
def overtaken (s : RangedStore) : List (ReadThrough.Action RangedStore Query) :=
  [.check 0 askAa11, .compute 0, .lock, .change s, .invalidate, .unlock, .publish 0]

def undisturbed (s : RangedStore) : List (ReadThrough.Action RangedStore Query) :=
  [.lock, .change s, .invalidate, .unlock, .check 0 askAa11, .compute 0, .publish 0]

variable (s s' : RangedStore)

theorem along_overtaken : Along (ReadThrough.step service) ReadThrough.Enabled (ReadThrough.State.new s 0)
    (overtaken s') := ⟨rfl, ⟨rfl, _, rfl⟩, rfl, rfl, rfl, ⟨rfl, rfl⟩, ⟨_, _, rfl⟩, trivial⟩

theorem along_undisturbed : Along (ReadThrough.step service) ReadThrough.Enabled (ReadThrough.State.new s 0)
    (undisturbed s') := ⟨rfl, rfl, rfl, ⟨rfl, rfl⟩, rfl, ⟨rfl, _, rfl⟩, ⟨_, _, rfl⟩, trivial⟩

theorem ttl_pos : (0 : Int) - 0 < service.ttl := by decide

theorem lookup_overtaken : ((overtaken s').foldl (ReadThrough.step service)
    (ReadThrough.State.new s 0)).lookup service askAa11 = some (service.compute s 0 askAa11) :=
  State.lookup_eq_some_iff.mpr ⟨_, rfl, rfl, ttl_pos, rfl⟩

theorem lookup_undisturbed : ((undisturbed s').foldl (ReadThrough.step service)
    (ReadThrough.State.new s 0)).lookup service askAa11 = some (service.compute s' 0 askAa11) :=
  State.lookup_eq_some_iff.mpr ⟨_, rfl, rfl, ttl_pos, rfl⟩

theorem timely_undisturbed : Timely (undisturbed s') := by
  rintro done i ⟨rest, hdone⟩
  rcases done with _ | ⟨_, _ | ⟨_, _ | ⟨_, _ | ⟨_, _ | ⟨_, _ | ⟨_, _ | ⟨_, done⟩⟩⟩⟩⟩⟩⟩
  all_goals simp [undisturbed] at hdone
  obtain ⟨rfl, rfl, rfl, rfl, rfl, rfl, rfl, _⟩ := hdone
  simp [sinceCompute, Action.isCompute]

def emptyStore : RangedStore where
  store := Store.new true
  types := []
  nodup := List.nodup_nil
  ranges pt := by
    change pt ∈ [] ↔ ((Maps.empty : GoMap Int (List TxRef)) pt).isSome
    simp

theorem byPayloadType_halfSecond : (State.after true RelayAgreement.halfSecond).store.byPayloadType =
    push (push Maps.empty 2 0) 2 1 := by
  change ((Store.new true).ingestNewFromDB (plainEnv none) 0 100
    RelayAgreement.halfSecondRows).1.catalog.byPayloadType = _
  rw [Store.catalog_ingestNewFromDB]
  rfl

def relayedStore : RangedStore where
  store := (State.after true RelayAgreement.halfSecond).store
  types := [2]
  nodup := List.nodup_singleton 2
  ranges pt := by
    rw [byPayloadType_halfSecond, List.mem_singleton]
    unfold push Maps.set Maps.empty
    by_cases hpt : pt = 2
    · simp [hpt]
    · simp [hpt]

theorem score_relayedStore : relayedStore.store.batchScore relayedStore.types "aa11" = 1 := by
  have hrelayed : relayedStore.store.relayed (toLower "aa11") = 2 := by
    change (bucket (State.after true RelayAgreement.halfSecond).store.byPathHop _).countP _ = 2
    rw [RelayAgreement.byPathHop_halfSecond]
    decide +kernel
  have htotal : relayedStore.store.totalNonAdvert relayedStore.types = 2 := by
    rw [Store.totalNonAdvert]
    change (bucket (State.after true RelayAgreement.halfSecond).store.byPayloadType 2).length + 0 = 2
    rw [byPayloadType_halfSecond]
    rfl
  rw [Store.batchScore]
  rw [hrelayed, htotal]
  decide +kernel

theorem served_fresh_undisturbed : Fresh service (ReadThrough.State.new emptyStore 0) (undisturbed relayedStore)
    (service.sig askAa11) (service.compute relayedStore 0 askAa11) :=
  served_fresh (along_undisturbed emptyStore relayedStore) (timely_undisturbed relayedStore) askAa11 _
    (lookup_undisturbed emptyStore relayedStore)

/-- The score from before the two packets is served. -/
theorem overtaken_serves_stale : ¬ ∀ (s : RangedStore) (now : Int)
    (acts : List (ReadThrough.Action RangedStore Query)),
    Along (ReadThrough.step service) ReadThrough.Enabled (ReadThrough.State.new s now) acts →
      ∀ q result, (acts.foldl (ReadThrough.step service) (ReadThrough.State.new s now)).lookup service q =
        some result → Fresh service (ReadThrough.State.new s now) acts (service.sig q) result := by
  intro h
  have hfresh := h emptyStore 0 (overtaken relayedStore) (along_overtaken _ _) askAa11 _ (lookup_overtaken _ _)
  obtain ⟨q, at', _, heq⟩ := hfresh.current (along_overtaken _ _) rfl
  replace heq : service.compute emptyStore 0 askAa11 = service.compute relayedStore at' q := heq
  have hentry : (service.compute relayedStore at' q "aa11").map RepeaterNodeStats.score = some 0 := by
    rw [← heq]
    rfl
  unfold service Store.getRepeaterNodeStatsBatch at hentry
  dsimp only at hentry
  split at hentry
  · rw [Option.map_some, score_relayedStore] at hentry
    cases hentry
  · cases hentry

end MeshcoreAnalyzer.PacketStore.RelayStats

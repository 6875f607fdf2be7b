import MeshcoreAnalyzer.Orders
import MeshcoreAnalyzer.WellFormed

namespace MeshcoreAnalyzer.PacketStore.PacketOrder

open Maps Runs Orders Store

def Sorted (c : Catalog) : Prop := Ascending (fun r => (c.row r).firstSeen) c.packets

instance (c : Catalog) : Decidable (Sorted c) := inferInstanceAs (Decidable (Ascending _ _))

/-- An eviction by age alone leaves the packets that are not too old. -/
def EvictsByAge (s : Store) : Prop :=
  ∀ ret rpBatch cutoff, ret.cutoff = some cutoff → ret.maxMemoryMB ≤ 0 →
    ∀ r, r ∈ (s.evictStaleInternal ret rpBatch).packets ↔ r ∈ s.packets ∧ cutoff ≤ (s.row r).firstSeen

theorem packets_evictStaleInternal {s : Store} {ret : Retention} (rpBatch : Int → List String)
    {cutoff : String} (hcutoff : ret.cutoff = some cutoff) (hmem : ret.maxMemoryMB ≤ 0) :
    (s.evictStaleInternal ret rpBatch).packets =
      s.packets.dropWhile fun r => (s.row r).firstSeen < cutoff := by
  have hidx : s.cutoffIdx ret = (s.packets.takeWhile fun r => (s.row r).firstSeen < cutoff).length := by
    rw [cutoffIdx, ageCutoff]
    rw [hcutoff]
    exact if_neg fun h => absurd h.1 (by omega)
  rw [← drop_length_takeWhile, ← hidx]
  rw [evictStaleInternal]
  rw [if_neg (by simp [hcutoff])]
  split
  · next hzero => rw [hzero, List.drop_zero]
  · rfl

theorem evictsByAge_of_sorted {s : Store} (h : Sorted s.catalog) : EvictsByAge s := by
  intro ret rpBatch cutoff hcutoff hmem r
  rw [packets_evictStaleInternal rpBatch hcutoff hmem]
  constructor
  · intro hr
    exact ⟨(List.dropWhile_sublist _).subset hr, ascending_iff_dropWhile.mp h cutoff r hr⟩
  · rintro ⟨hr, hle⟩
    rw [← s.packets.takeWhile_append_dropWhile (p := fun r => decide ((s.row r).firstSeen < cutoff)),
      List.mem_append] at hr
    rcases hr with hr | hr
    · exact absurd (lt_of_mem_takeWhile hr) (not_lt.mpr hle)
    · exact hr

section Producers

variable {c : Catalog} {loc : List TxRef}

def NewestLast (c : Catalog) (row : ScanRow) : Prop :=
  c.byHash row.tx.hash = none → ∀ r ∈ c.packets, (c.row r).firstSeen ≤ row.tx.firstSeen

theorem sorted_insertTx (h : c.WF loc) (tx : TxRow) :
    Sorted (c.insertTx tx) ↔ Sorted c ∧ ∀ r ∈ c.packets, (c.row r).firstSeen ≤ tx.firstSeen := by
  have hold : ∀ r ∈ c.packets, (c.insertTx tx).row r = c.row r := fun r hr =>
    Catalog.update_row_of_mem h tx (List.mem_append_right loc hr)
  have hself : (c.insertTx tx).row c.next = tx := Function.update_self _ _ _
  have hsnoc : Sorted (c.insertTx tx) ↔
      Ascending (fun r => ((c.insertTx tx).row r).firstSeen) c.packets ∧
        ∀ r ∈ c.packets, ((c.insertTx tx).row r).firstSeen ≤ ((c.insertTx tx).row c.next).firstSeen :=
    ascending_snoc
  rw [hsnoc, hself]
  constructor
  · rintro ⟨hs, hle⟩
    exact ⟨hs.congr fun r hr => by rw [hold r hr], fun r hr => hold r hr ▸ hle r hr⟩
  · rintro ⟨hs, hle⟩
    exact ⟨hs.congr fun r hr => by rw [hold r hr], fun r hr => (hold r hr).symm ▸ hle r hr⟩

theorem sorted_findOrInsert (h : c.WF loc) (row : ScanRow) :
    Sorted (c.findOrInsert row.tx) ↔ Sorted c ∧ NewestLast c row := by
  rw [Catalog.findOrInsert, NewestLast]
  split
  · next hnew =>
      rw [sorted_insertTx h, hnew]
      simp
  · next hold => simp [hold]

theorem sorted_rows (h : c.WF loc) (hs : Sorted c) (rows : List ScanRow) :
    Sorted (rows.foldl (fun c row => c.findOrInsert row.tx) c) ↔
      Along (fun c row => c.findOrInsert row.tx) NewestLast c rows := by
  have hI : ∀ c : Catalog, ∀ row ∈ rows, c.WF loc → (c.findOrInsert row.tx).WF loc :=
    fun c row _ hc => hc.findOrInsert row.tx
  have hG : ∀ c : Catalog, ∀ row ∈ rows, c.WF loc →
      (Sorted (c.findOrInsert row.tx) ↔ Sorted c ∧ NewestLast c row) :=
    fun c row _ hc => sorted_findOrInsert hc row
  exact (foldl_iff hI hG h).trans (and_iff_right hs)

theorem loaded_rows (rows : List ScanRow) :
    (rows.foldl (fun c row => c.findOrInsert row.tx) c).loaded = c.loaded := by
  refine foldl_view (v := Catalog.loaded) fun c row _ => ?_
  rw [Catalog.findOrInsert]
  split <;> rfl

theorem Sorted.evict (h : Sorted c) (n : Nat) : Sorted (c.evict n) :=
  Ascending.sublist h (List.drop_sublist n c.packets)

theorem Sorted.extends {d : Catalog} (h : Sorted c) (hwf : c.WF loc) (hext : c.Extends d) : Sorted d := by
  have hpackets : d.packets = c.packets := by rw [hext.same]
  rw [Sorted]
  rw [hpackets]
  exact Ascending.congr h fun r hr => by
    rw [hext.row r (hwf.fresh r (List.mem_append_right loc hr))]

theorem sorted_sortPackets (c : Catalog) : Sorted c.sortPackets := ascending_insertionSort _ c.packets

theorem sorted_publish (c : Catalog) (packets : List TxRef) : Sorted (c.publish packets) ↔
    Ascending (fun r => (c.row r).firstSeen) packets ∧ Sorted c ∧
      ∀ a ∈ packets, ∀ b ∈ c.packets, (c.row a).firstSeen ≤ (c.row b).firstSeen := ascending_append

end Producers

/-- Once the store is loaded: new rows come no older than the packets there, and a
chunk that is published is in order and no newer than they are. -/
def InOrder (st : State) (a : Action) : Prop :=
  st.store.loaded = true → match a with
    | .ingestNewFromDB _ sinceID limit rows =>
        Along (fun c row => c.findOrInsert row.tx) NewestLast st.store.catalog (ingested sinceID limit rows)
    | .publish => ∀ c ∈ st.chunk, Ascending (fun r => (st.store.row r).firstSeen) c.packets ∧
        ∀ a ∈ c.packets, ∀ b ∈ st.store.packets, (st.store.row a).firstSeen ≤ (st.store.row b).firstSeen
    | _ => True

def SortedOnceLoaded (st : State) : Prop := st.store.loaded = true → Sorted st.store.catalog

theorem sortedOnceLoaded_of_catalog {st st' : State} (hcat : st'.store.catalog = st.store.catalog)
    (h : SortedOnceLoaded st) : SortedOnceLoaded st' := by
  have hloaded : st'.store.loaded = st.store.loaded := congrArg Catalog.loaded hcat
  intro hl
  rw [hcat]
  exact h (hloaded ▸ hl)

theorem sortedOnceLoaded_step {st : State} (hwf : st.WF) {a : Action} (ha : st.Enabled a)
    (h : SortedOnceLoaded st) : SortedOnceLoaded (st.step a) ↔ InOrder st a := by
  cases a with
  | scanAndMergeChunk relayPM rows =>
      have hloaded : (st.store.scanAndMergeChunk relayPM rows).loaded = st.store.loaded :=
        (congrArg Catalog.loaded (catalog_scanAndMergeChunk relayPM rows st.store)).trans (loaded_rows rows)
      refine iff_of_true (fun hl => ?_) fun _ => trivial
      exact absurd (hloaded.symm.trans hl) (by simp [ha.1])
  | finishLoad env hotCutoff =>
      refine iff_of_true (fun _ => ?_) fun _ => trivial
      change Sorted (st.store.finishLoad env hotCutoff).catalog
      rw [catalog_finishLoad]
      exact sorted_sortPackets _
  | ingestNewFromDB env sinceID limit rows =>
      have hcat := catalog_ingestNewFromDB env sinceID limit rows st.store
      have hloaded : (st.store.ingestNewFromDB env sinceID limit rows).1.loaded = st.store.loaded :=
        (congrArg Catalog.loaded hcat).trans (loaded_rows _)
      change (_ = true → Sorted (st.store.ingestNewFromDB env sinceID limit rows).1.catalog) ↔ _
      rw [show (st.step (.ingestNewFromDB env sinceID limit rows)).store.loaded = _ from hloaded, hcat]
      constructor
      · exact fun hs hl => (sorted_rows hwf.catalog (h hl) _).mp (hs hl)
      · exact fun hin hl => (sorted_rows hwf.catalog (h hl) _).mpr (hin hl)
  | ingestNewObservations env limit rows =>
      refine iff_of_true ?_ fun _ => trivial
      exact sortedOnceLoaded_of_catalog (catalog_ingestNewObservations env limit rows st.store) h
  | readChunk relayPM rows =>
      have hext := extends_readChunk relayPM rows st.store
      refine iff_of_true (fun _ => ?_) fun _ => trivial
      exact (h ha.1).extends hwf.catalog hext
  | mergeBatch =>
      refine iff_of_true ?_ fun _ => trivial
      obtain ⟨c, hc, _⟩ := ha
      rw [SortedOnceLoaded, State.step]
      rw [show st.chunk = some c from hc]
      dsimp only
      rw [show (st.store.mergeBatch c).1.loaded = st.store.loaded from
        congrArg Catalog.loaded (catalog_mergeBatch st.store c), catalog_mergeBatch]
      exact h
  | publish =>
      obtain ⟨c, hc, _⟩ := ha
      rw [SortedOnceLoaded, State.step, InOrder]
      rw [show st.chunk = some c from hc]
      dsimp only
      rw [catalog_publish]
      constructor
      · intro hs hl d hd
        cases hd
        obtain ⟨hchunk, _, hcross⟩ := (sorted_publish _ _).mp (hs hl)
        exact ⟨hchunk, hcross⟩
      · intro hin hl
        obtain ⟨hchunk, hcross⟩ := hin hl c rfl
        exact (sorted_publish _ _).mpr ⟨hchunk, h hl, hcross⟩
  | rebuild =>
      exact iff_of_true (sortedOnceLoaded_of_catalog (catalog_rebuild st.store) h) fun _ => trivial
  | buildDistanceIndex env =>
      exact iff_of_true (sortedOnceLoaded_of_catalog (catalog_buildDistanceIndex env st.store) h)
        fun _ => trivial
  | evict ret rpBatch =>
      refine iff_of_true ?_ fun _ => trivial
      rw [SortedOnceLoaded, State.step, evictStaleInternal]
      dsimp only
      split
      · exact h
      · split
        · exact h
        · rw [catalog_evict]
          exact fun hl => (h hl).evict _

theorem sortedOnceLoaded_new (use : Bool) : SortedOnceLoaded (State.new use) := fun h => by cases h

/-- In a run of the producers the packets of every loaded state are in order, and an
eviction by age takes out exactly the old ones, if and only if each step brings its
packets in order. -/
theorem sorted_along_iff {use : Bool} {acts : List Action}
    (h : Along State.step State.Enabled (State.new use) acts) :
    (∀ done, done <+: acts → (State.after use done).store.loaded = true →
      Sorted (State.after use done).store.catalog ∧ EvictsByAge (State.after use done).store) ↔
      Along State.step InOrder (State.new use) acts := by
  rw [← prefixes_iff h (State.wf_new use) (fun _ _ hwf ha => hwf.step ha) (sortedOnceLoaded_new use)
    fun _ _ hwf ha hs => sortedOnceLoaded_step hwf ha hs]
  constructor
  · exact fun hall done hdone hl => (hall done hdone hl).1
  · exact fun hall done hdone hl => ⟨hall done hdone hl, evictsByAge_of_sorted (hall done hdone hl)⟩

/-- The load of nothing, and then two packets, of which the one that was seen first
comes last. -/
def lateUpload : List Action :=
  [.finishLoad (plainEnv none) none,
    .ingestNewFromDB (plainEnv none) 0 100
      [bareRow (plainTx 1 "h1" "2026-01-02T00:00:00Z" 2), bareRow (plainTx 2 "h2" "2026-01-01T00:00:00Z" 2)]]

theorem enabled_lateUpload : Along State.step State.Enabled (State.new true) lateUpload :=
  ⟨⟨rfl, rfl⟩, trivial, trivial⟩

theorem sorted_along_iff_lateUpload :
    (∀ done, done <+: lateUpload → (State.after true done).store.loaded = true →
      Sorted (State.after true done).store.catalog ∧
        EvictsByAge (State.after true done).store) ↔
      Along State.step InOrder (State.new true) lateUpload :=
  sorted_along_iff enabled_lateUpload

/-- A late upload stands behind a packet that is newer. -/
theorem late_upload_unsorted : ¬ ∀ (use : Bool) (st : State), Reachable use st →
    st.store.loaded = true → Sorted st.store.catalog := by
  intro h
  have hsorted := h true _ (reachable_after enabled_lateUpload) (by decide)
  exact absurd hsorted (by decide)

end MeshcoreAnalyzer.PacketStore.PacketOrder

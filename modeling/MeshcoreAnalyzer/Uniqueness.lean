import MeshcoreAnalyzer.Overlap

namespace MeshcoreAnalyzer.PacketStore.Uniqueness

open Maps Runs Store Overlap

def pendingOf (st : State) : List TxRef :=
  match st.chunk with
  | some c => c.pending
  | none => []

def unpublished (st : State) : Int :=
  match st.chunk with
  | some c => c.totalObs
  | none => 0

structure Inv (hashOf : Int → String) (st : State) : Prop where
  wf : st.WF
  table : ∀ r ∈ st.locals, (st.store.row r).hash = hashOf (st.store.row r).id
  sound : ∃ done, st.locals = done ++ pendingOf st ∧ Sound hashOf st.store.catalog done
  tallied : Tallied st.store.catalog st.store.ledger st.locals (unpublished st)

section Steps

variable {hashOf : Int → String} {st : State}

theorem inv_new (use : Bool) : Inv hashOf (State.new use) := by
  refine ⟨State.wf_new use, fun r hr => (by cases hr), ⟨[], rfl, ?_⟩, rfl⟩
  refine ⟨(State.wf_new use).catalog, ?_, ?_, ?_, ?_, fun pk => ?_, positive_empty⟩
  · intro r hr
    cases hr
  · intro r hr
    cases hr
  · intro r hr
    cases hr
  · intro pt r hr
    cases hr
  · exact count_empty pk

theorem Inv.congr (h : Inv hashOf st) {s : Store} (hcat : s.catalog = st.store.catalog)
    (hledger : s.ledger = st.store.ledger) : Inv hashOf { st with store := s } := by
  have hrow := row_eq_of_catalog hcat
  refine ⟨h.wf.of_catalog_eq hcat, fun r hr => ?_, ?_, ?_⟩
  · change (s.row r).hash = hashOf (s.row r).id
    rw [hrow]
    exact h.table r hr
  · obtain ⟨done, hdone, hsound⟩ := h.sound
    exact ⟨done, hdone, hcat ▸ hsound⟩
  · change Tallied s.catalog s.ledger _ _
    rw [hcat, hledger]
    exact h.tallied

theorem sound_rows {c : Catalog} {done : List TxRef} (h : Sound hashOf c done) {rows : List ScanRow}
    (htable : ∀ row ∈ rows, row.tx.hash = hashOf row.tx.id) :
    Sound hashOf (rows.foldl (fun c row => c.findOrInsert row.tx) c) done :=
  foldl_invariant (I := fun c => Sound hashOf c done) h fun _ row hrow hc => hc.findOrInsert (htable row hrow)

theorem Inv.mergeRows (h : Inv hashOf st) {index : Store → TxRef → ObsRow → Store}
    (hcat : ∀ s r o, (index s r o).catalog = s.catalog) (hledger : ∀ s r o, (index s r o).ledger = s.ledger)
    {rows : List ScanRow} (htable : ∀ row ∈ rows, row.tx.hash = hashOf row.tx.id) :
    Inv hashOf { st with store := rows.foldl (mergeRow index) st.store } := by
  have hfold : (rows.foldl (mergeRow index) st.store).catalog =
      rows.foldl (fun c row => c.findOrInsert row.tx) st.store.catalog :=
    foldl_simulates fun s row _ => catalog_mergeRow hcat s row
  obtain ⟨_, hrow⟩ := State.findOrInsert_rows h.wf.catalog rows
  refine ⟨h.wf.of_rows hfold, fun r hr => ?_, ?_, ?_⟩
  · have heq : (rows.foldl (mergeRow index) st.store).row r = st.store.row r :=
      (congrFun (congrArg Catalog.row hfold) r).trans (hrow r hr)
    change ((rows.foldl (mergeRow index) st.store).row r).hash = hashOf ((rows.foldl (mergeRow index) st.store).row r).id
    rw [heq]
    exact h.table r hr
  · obtain ⟨done, hdone, hsound⟩ := h.sound
    exact ⟨done, hdone, hfold ▸ sound_rows hsound htable⟩
  · apply mergeRows_invariant
      (P := fun s => Tallied s.catalog s.ledger st.locals (unpublished st)) hcat ?_ ?_ h.wf.catalog h.tallied
    · intro s tx hwf _ ht
      rw [catalog_insertTx, ledger_insertTx]
      exact ht.insertTx hwf tx (rowBytes tx)
    · intro s r o hwf hr _ ht
      rw [catalog_attachObs, ledger_attachObs, hcat, hledger]
      exact ht.attach hwf hr o.toObs

theorem Inv.ingestNewFromDB (h : Inv hashOf st) (env : Env) (sinceID limit : Int) {rows : List ScanRow}
    (htable : ∀ row ∈ rows, row.tx.hash = hashOf row.tx.id) :
    Inv hashOf (st.step (.ingestNewFromDB env sinceID limit rows)) := by
  have hrows : Inv hashOf
      { st with store := (ingested sinceID limit rows).foldl (mergeRow (indexLiveHops env)) st.store } :=
    h.mergeRows (catalog_indexLiveHops env) (ledger_indexLiveHops env) fun row hrow =>
      htable row (takeTxs_subset _ _ _ _ hrow)
  rw [← ingestRows_fst env _ (st.store, [])] at hrows
  exact hrows.congr (catalog_finishIngest env _ _) (ledger_finishIngest env _ _)

theorem Inv.ingestNewObservations (h : Inv hashOf st) (env : Env) (limit : Int) (rows : List ObsRow) :
    Inv hashOf (st.step (.ingestNewObservations env limit rows)) := by
  have hcat := catalog_lateRows env (observed limit rows) (st.store, [])
  have hlate : Inv hashOf
      { st with store := ((observed limit rows).foldl (lateRow env) (st.store, [])).1 } := by
    have hrow := row_eq_of_catalog hcat
    refine ⟨h.wf.of_catalog_eq hcat, fun r hr => ?_, ?_, ?_⟩
    · rw [hrow]
      exact h.table r hr
    · obtain ⟨done, hdone, hsound⟩ := h.sound
      exact ⟨done, hdone, hcat ▸ hsound⟩
    · apply lateRows_invariant
        (P := fun s => Tallied s.catalog s.ledger st.locals (unpublished st)) ?_ h.wf.catalog h.tallied
      intro s r o hwf hr _ ht
      rw [catalog_attachObs, ledger_attachObs, catalog_indexLiveHops, ledger_indexLiveHops]
      exact ht.attach hwf hr o.toObs
  exact hlate.congr (catalog_finishObservations env _ _) (ledger_finishObservations env _ _)

theorem Inv.finishLoad (h : Inv hashOf st) {env : Env} {hotCutoff : Option String}
    (ha : st.Enabled (.finishLoad env hotCutoff)) : Inv hashOf (st.step (.finishLoad env hotCutoff)) := by
  have hcat := catalog_finishLoad env hotCutoff st.store
  have hloc := State.locals_of_none ha.2
  obtain ⟨done, hdone, hsound⟩ := h.sound
  have hnil : done = [] := by
    rw [hloc] at hdone
    exact (List.append_eq_nil_iff.mp hdone.symm).1
  subst hnil
  have hperm : (st.locals ++ st.store.catalog.sortPackets.packets).Perm (st.locals ++ st.store.packets) :=
    (List.perm_insertionSort _ st.store.packets).append_left _
  refine ⟨h.wf.step ha, fun r hr => ?_, ⟨[], hdone, ?_⟩, ?_⟩
  · replace hr : r ∈ st.locals := hr
    rw [hloc] at hr
    cases hr
  · change Sound hashOf (st.store.finishLoad env hotCutoff).catalog []
    rw [hcat]
    exact hsound.sortPackets
  · change Tallied (st.store.finishLoad env hotCutoff).catalog (st.store.finishLoad env hotCutoff).ledger _ _
    rw [hcat, ledger_finishLoad]
    exact h.tallied.trans (obsTotal_perm _ hperm).symm

theorem Inv.evict (h : Inv hashOf st) (ret : Retention) (rpBatch : Int → List String) :
    Inv hashOf (st.step (.evict ret rpBatch)) := by
  have hwf := h.wf.evict ret rpBatch
  obtain ⟨done, hdone, hsound⟩ := h.sound
  have hstep : st.step (.evict ret rpBatch) = { st with store := st.store.evictStaleInternal ret rpBatch } := rfl
  rw [hstep] at hwf ⊢
  unfold evictStaleInternal at hwf ⊢
  split
  · exact h
  · next hon =>
    rw [if_neg hon] at hwf
    split
    · exact h
    · next hsome =>
      rw [if_neg hsome] at hwf
      have hcat := catalog_evict st.store rpBatch (st.store.cutoffIdx ret)
      have hrow : (st.store.evict rpBatch (st.store.cutoffIdx ret)).row = st.store.row :=
        congrArg Catalog.row hcat
      refine ⟨hwf, fun r hr => ?_, ⟨done, hdone, ?_⟩, h.tallied.evict rpBatch _⟩
      · rw [hrow]
        exact h.table r hr
      · rw [hcat]
        exact hsound.evict _

/-- While the rows are read: the transmissions of the chunk are rows of the table, and
their observations are counted. -/
structure Gathered (hashOf : Int → String) (acc : Store × Chunk) : Prop where
  reading : Reading acc.1 acc.2
  table : ∀ r ∈ acc.2.packets, (acc.1.row r).hash = hashOf (acc.1.row r).id
  tallied : Tallied acc.1.catalog acc.1.ledger acc.2.packets acc.2.totalObs
  empty : acc.2.packets = [] → acc.2.totalObs = 0

theorem Gathered.newLocalTx {s : Store} {c : Chunk} (h : Gathered hashOf (s, c)) {tx : TxRow}
    (htable : tx.hash = hashOf tx.id) (hnew : c.byHash tx.hash = none) :
    Gathered hashOf (s.newLocalTx c tx) := by
  have hcat := catalog_newLocalTx s c tx
  have hrow : (s.newLocalTx c tx).1.row = Function.update s.row s.next tx := congrArg Catalog.row hcat
  refine ⟨h.reading.newLocalTx hnew, fun r hr => ?_, ?_, fun hempty => ?_⟩
  · rw [hrow]
    rcases List.mem_append.mp hr with hr | hr
    · have hold : Function.update s.row s.next tx r = s.row r :=
        Catalog.update_row_of_mem h.reading.wf tx (List.mem_append_left _ hr)
      rw [hold]
      exact h.table r hr
    · rw [List.mem_singleton.mp hr, Function.update_self]
      exact htable
  · change Tallied (s.newLocalTx c tx).1.catalog (s.newLocalTx c tx).1.ledger (c.packets ++ [s.next]) c.totalObs
    rw [hcat, ledger_newLocalTx]
    exact h.tallied.alloc h.reading.wf tx
  · exact absurd hempty (List.append_ne_nil_of_right_ne_nil _ (List.cons_ne_nil _ _))

theorem Gathered.findOrNewLocal {s : Store} {c : Chunk} (h : Gathered hashOf (s, c)) {tx : TxRow}
    (htable : tx.hash = hashOf tx.id) : Gathered hashOf (s.findOrNewLocal c tx).1 ∧
      (s.findOrNewLocal c tx).2 ∈ (s.findOrNewLocal c tx).1.2.packets := by
  rw [Store.findOrNewLocal]
  split
  · next r hr => exact ⟨h, (h.reading.byHash _ r hr).1⟩
  · next hnew => exact ⟨h.newLocalTx htable hnew, List.mem_append_right _ (List.mem_singleton_self _)⟩

theorem Gathered.localObs {s : Store} {c : Chunk} (h : Gathered hashOf (s, c)) {r : TxRef}
    (hr : r ∈ c.packets) (relayPM : Option PrefixMap) (o : ObsRow) :
    Gathered hashOf (localObs relayPM s c r o) := by
  have hcat := catalog_localObs relayPM s c r o
  have hrow := row_eq_of_catalog hcat
  have hpackets := localObs_packets relayPM s c r o
  refine ⟨h.reading.congr hcat hpackets (localObs_byHash relayPM s c r o), ?_, ?_, ?_⟩
  · rw [hrow, hpackets]
    exact h.table
  · rw [hcat, hpackets]
    rw [Store.localObs]
    split
    · exact h.tallied
    · change Tallied _ (s.modify r (·.addObs o.toObs)).ledger _ (c.totalObs + 1)
      rw [ledger_addLocalObs]
      exact h.tallied.append h.reading.wf hr o.toObs
  · rw [hpackets]
    intro hempty
    rw [hempty] at hr
    cases hr

theorem Gathered.readRow {acc : Store × Chunk} (h : Gathered hashOf acc) (relayPM : Option PrefixMap)
    {row : ScanRow} (htable : row.tx.hash = hashOf row.tx.id) : Gathered hashOf (readRow relayPM acc row) := by
  obtain ⟨hfound, hmem⟩ := h.findOrNewLocal htable
  unfold Store.readRow
  dsimp only
  split
  · exact hfound
  · exact hfound.localObs hmem relayPM _

theorem Inv.readChunk (h : Inv hashOf st) {relayPM : Option PrefixMap} {rows : List ScanRow}
    (ha : st.Enabled (.readChunk relayPM rows)) (htable : ∀ row ∈ rows, row.tx.hash = hashOf row.tx.id) :
    Inv hashOf (st.step (.readChunk relayPM rows)) := by
  have hwf := h.wf.step ha
  have hloc := State.locals_of_none ha.2
  obtain ⟨done, hdone, hsound⟩ := h.sound
  have hnil : done = [] := by
    rw [hloc] at hdone
    exact (List.append_eq_nil_iff.mp hdone.symm).1
  subst hnil
  have hzero : unpublished st = 0 := by
    rw [unpublished]
    rw [ha.2]
  have htallied := h.tallied
  rw [hloc, hzero] at htallied
  have hstart : Gathered hashOf (st.store, Chunk.empty) := by
    have hcwf := h.wf.catalog
    rw [hloc] at hcwf
    exact ⟨⟨hcwf, fun k r hr => (by cases hr), fun r hr => (by cases hr), List.nodup_nil⟩,
      fun r hr => (by cases hr), htallied, fun _ => rfl⟩
  have hread : Gathered hashOf (rows.foldl (readRow relayPM) (st.store, Chunk.empty)) :=
    foldl_invariant hstart fun acc row hrow hacc => hacc.readRow relayPM (htable row hrow)
  have hcat := catalog_pickAll (rows.foldl (readRow relayPM) (st.store, Chunk.empty)).1
    (rows.foldl (readRow relayPM) (st.store, Chunk.empty)).2.packets
  have hledger := ledger_pickAll (rows.foldl (readRow relayPM) (st.store, Chunk.empty)).1
    (rows.foldl (readRow relayPM) (st.store, Chunk.empty)).2.packets
  have hext := extends_readChunk relayPM rows st.store
  have hstep : st.step (.readChunk relayPM rows) =
      ⟨(st.store.readChunk relayPM rows).1, (st.store.readChunk relayPM rows).2⟩ := rfl
  rw [hstep] at hwf ⊢
  unfold Store.readChunk at hwf hext ⊢
  dsimp only at hwf hext ⊢
  split
  · next hempty =>
    rw [if_pos hempty] at hwf
    refine ⟨hwf, fun r hr => (by cases hr), ⟨[], rfl, hsound.extends hext⟩, ?_⟩
    change Tallied (Store.catalog _) (Store.ledger _) [] 0
    rw [hcat, hledger, ← hempty, ← hread.empty hempty]
    exact hread.tallied
  · next hsome =>
    rw [if_neg hsome] at hwf
    refine ⟨hwf, fun r hr => ?_, ⟨[], rfl, hsound.extends hext⟩, ?_⟩
    · rw [row_eq_of_catalog hcat]
      exact hread.table r hr
    · rw [hcat, hledger]
      exact hread.tallied

theorem Inv.mergeBatch (h : Inv hashOf st)
    (hnew : ∀ c ∈ st.chunk, ∀ r ∈ c.pending.take mergeBatchSize, st.store.byHash (st.store.row r).hash = none) :
    Inv hashOf (st.step .mergeBatch) := by
  have hwf := h.wf.mergeBatch
  unfold State.step at hwf ⊢
  dsimp only at hwf ⊢
  split at hwf
  · next c hc =>
    have hcat := catalog_mergeBatch st.store c
    have hloc := State.locals_of_some hc
    have hpending : pendingOf st = c.pending := by
      rw [pendingOf]
      rw [hc]
    have hcount : unpublished st = c.totalObs := by
      rw [unpublished]
      rw [hc]
    obtain ⟨done, hdone, hsound⟩ := h.sound
    have hsplit : c.packets = done ++ c.pending.take mergeBatchSize ++ c.pending.drop mergeBatchSize := by
      rw [List.append_assoc, List.take_append_drop, ← hpending, ← hdone, hloc]
    have htable := h.table
    have htallied := h.tallied
    have hcwf := h.wf.catalog
    rw [hloc] at htable htallied hcwf
    rw [hcount] at htallied
    refine ⟨hwf, fun r hr => ?_, ⟨done ++ c.pending.take mergeBatchSize, hsplit, ?_⟩, ?_⟩
    · have hrow : (st.store.mergeBatch c).1.row = st.store.row := congrArg Catalog.row hcat
      change ((st.store.mergeBatch c).1.row r).hash = hashOf ((st.store.mergeBatch c).1.row r).id
      rw [hrow]
      exact htable r hr
    · rw [hcat]
      have hsub : (done ++ c.pending.take mergeBatchSize).Sublist c.packets := by
        rw [hsplit]
        exact List.sublist_append_left _ _
      refine hsound.mergeBatch (hsound.wf_append hcwf hsub) (fun r hr => htable r ?_) ?_ (hnew c hc)
      · rw [hsplit]
        exact List.mem_append_left _ (List.mem_append_right _ hr)
      · have hhashes := (h.wf.chunk c hc).hashes
        rw [hsplit, List.map_append, List.map_append] at hhashes
        exact (List.nodup_append.mp (List.nodup_append.mp hhashes).1).2.1
    · change Tallied (st.store.mergeBatch c).1.catalog (st.store.mergeBatch c).1.ledger c.packets c.totalObs
      rw [hcat, ledger_mergeBatch]
      exact htallied
  · exact h

theorem Inv.publish (h : Inv hashOf st) (ha : st.Enabled .publish) : Inv hashOf (st.step .publish) := by
  have hwf := h.wf.publish
  obtain ⟨c, hc, hall⟩ := ha
  have hloc := State.locals_of_some hc
  obtain ⟨done, hdone, hsound⟩ := h.sound
  have hpending : pendingOf st = [] := by
    rw [pendingOf]
    rw [show st.chunk = some c from hc]
    exact hall
  have hcount : unpublished st = c.totalObs := by
    rw [unpublished]
    rw [show st.chunk = some c from hc]
  rw [hloc, hpending, List.append_nil] at hdone
  have htallied := h.tallied
  rw [hloc, hcount] at htallied
  unfold State.step at hwf ⊢
  rw [show st.chunk = some c from hc] at hwf ⊢
  refine ⟨hwf, fun r hr => (by cases hr), ⟨[], rfl, ?_⟩, ?_⟩
  · change Sound hashOf (st.store.publish c).catalog []
    rw [catalog_publish, hdone]
    exact hsound.publish
  · change st.store.totalObs + c.totalObs + 0 = obsTotal st.store.ledger (c.packets ++ st.store.packets)
    rw [Int.add_zero]
    exact htallied

end Steps

/-- The rows that a section reads are those of one table. -/
def FromTable (hashOf : Int → String) : Action → Prop
  | .scanAndMergeChunk _ rows | .ingestNewFromDB _ _ _ rows | .readChunk _ rows =>
      ∀ row ∈ rows, row.tx.hash = hashOf row.tx.id
  | _ => True

/-- A batch is merged while none of its packets is in the store under its hash. -/
def NoOverlap (st : State) : Action → Prop
  | .mergeBatch => ∀ c ∈ st.chunk, ∀ r ∈ c.pending.take mergeBatchSize,
      st.store.byHash (st.store.row r).hash = none
  | _ => True

def Apart (hashOf : Int → String) (st : State) (a : Action) : Prop :=
  st.Enabled a ∧ FromTable hashOf a ∧ NoOverlap st a

theorem Inv.step {hashOf : Int → String} {st : State} (h : Inv hashOf st) {a : Action}
    (ha : Apart hashOf st a) : Inv hashOf (st.step a) := by
  obtain ⟨henabled, htable, hnew⟩ := ha
  cases a with
  | scanAndMergeChunk relayPM rows =>
      exact h.mergeRows (catalog_indexLoadedHops relayPM) (ledger_indexLoadedHops relayPM) htable
  | finishLoad env hotCutoff => exact h.finishLoad henabled
  | ingestNewFromDB env sinceID limit rows => exact h.ingestNewFromDB env sinceID limit htable
  | ingestNewObservations env limit rows => exact h.ingestNewObservations env limit rows
  | readChunk relayPM rows => exact h.readChunk henabled htable
  | mergeBatch => exact h.mergeBatch hnew
  | publish => exact h.publish henabled
  | rebuild => exact h.congr (catalog_rebuild st.store) (ledger_rebuild st.store)
  | buildDistanceIndex env =>
      exact h.congr (catalog_buildDistanceIndex env st.store) (ledger_buildDistanceIndex env st.store)
  | evict ret rpBatch => exact h.evict ret rpBatch

/-- No two packets have a hash or an ID in common, each is what the primary indexes
have under its own, and in the list of its type once. -/
structure Unique (s : Store) : Prop where
  hashes : (s.packets.map fun r => (s.row r).hash).Nodup
  ids : (s.packets.map fun r => (s.row r).id).Nodup
  byHash : ∀ r ∈ s.packets, s.byHash (s.row r).hash = some r
  byTxID : ∀ r ∈ s.packets, s.byTxID (s.row r).id = some r
  observations : ∀ r ∈ s.packets, (s.heap r).observationCount = (s.heap r).observations.length
  byPayloadType : ∀ pt, ∀ r ∈ s.packets, (bucket s.byPayloadType pt).count r =
    if (s.row r).payloadType = some pt then 1 else 0

/-- The counters are those of the packets. -/
structure Counted (s : Store) : Prop where
  totalObs : s.totalObs = (s.packets.map fun r => (s.heap r).observationCount).sum
  advertPubkeys : ∀ pk, count s.advertPubkeys pk = s.packets.countP fun r => (s.row r).advertPubkey = some pk

theorem Inv.unique {hashOf : Int → String} {st : State} (h : Inv hashOf st) : Unique st.store := by
  obtain ⟨done, _, hsound⟩ := h.sound
  have hmem : ∀ r ∈ st.store.packets, r ∈ done ++ st.store.catalog.packets := fun r hr =>
    List.mem_append_right _ hr
  have hnd : st.store.packets.Nodup := (List.nodup_append.mp hsound.wf.nodup).2.1
  refine ⟨?_, ?_, fun r hr => hsound.byHash r (hmem r hr), fun r hr => hsound.byTxID r (hmem r hr),
    fun r _ => (st.store.heap r).counted, fun pt r hr => hsound.types pt r (hmem r hr)⟩
  · exact hnd.map_on fun a ha b hb heq => hsound.eq_of_hash (hmem a ha) (hmem b hb) heq
  · exact hnd.map_on fun a ha b hb heq => hsound.eq_of_id (hmem a ha) (hmem b hb) heq

theorem Inv.counted {hashOf : Int → String} {st : State} (h : Inv hashOf st) (hnone : st.chunk = none) :
    Counted st.store := by
  have hloc := State.locals_of_none hnone
  have htallied := h.tallied
  have hzero : unpublished st = 0 := by
    rw [unpublished]
    rw [hnone]
  obtain ⟨done, hdone, hsound⟩ := h.sound
  rw [hloc] at hdone htallied
  have hnil : done = [] := (List.append_eq_nil_iff.mp hdone.symm).1
  subst hnil
  refine ⟨?_, fun pk => ?_⟩
  · rw [hzero] at htallied
    have hsum : st.store.totalObs + 0 = obsTotal st.store.ledger st.store.packets := htallied
    rw [Int.add_zero] at hsum
    rw [hsum]
    rw [obsTotal]
    congr 1
    exact List.map_congr_left fun r _ => (st.store.heap r).counted.symm
  · rw [show st.store.advertPubkeys = st.store.catalog.advertPubkeys from rfl, hsound.adverts, List.count,
      List.countP_filterMap]
    have hsame : ∀ r, ((st.store.row r).advertPubkey.map (· == pk)).getD false =
        decide ((st.store.row r).advertPubkey = some pk) := by
      intro r
      cases (st.store.row r).advertPubkey with
      | none => rfl
      | some k => simp [beq_eq_decide]
    exact congrArg (fun p => ((st.store.packets.countP p : Nat) : Int)) (funext hsame)

/-- As long as no batch has a packet that is there already, hashes and IDs stay unique,
and while no chunk is under way the counters are right. -/
theorem unique_of_apart {use : Bool} {hashOf : Int → String} {st : State}
    (h : Reach State.step (Apart hashOf) (· = State.new use) st) :
    Unique st.store ∧ (st.chunk = none → Counted st.store) := by
  have hinv : Inv hashOf st := h.invariant (fun _ hst => hst ▸ inv_new use) fun _ _ hi ha => hi.step ha
  exact ⟨hinv.unique, hinv.counted⟩

def tableRow : ScanRow := heardRow (plainTx 1 "h1" "2026-01-01T00:00:00Z" 4) 1 "obs1" "[]"

def chunkFirst : List Action :=
  [.finishLoad (plainEnv none) none, .readChunk none [tableRow], .mergeBatch, .publish,
    .ingestNewFromDB (plainEnv none) 0 100 [tableRow]]

def pollerBetween : List Action :=
  [.finishLoad (plainEnv none) none, .readChunk none [tableRow],
    .ingestNewFromDB (plainEnv none) 0 100 [tableRow], .mergeBatch, .publish]

theorem fromTable_tableRow : ∀ row ∈ [tableRow], row.tx.hash = (fun _ => "h1") row.tx.id := by
  intro row hrow
  rw [List.mem_singleton.mp hrow]
  rfl

theorem apart_chunkFirst : Along State.step (Apart fun _ => "h1") (State.new true) chunkFirst := by
  refine ⟨⟨⟨rfl, rfl⟩, trivial, trivial⟩, ⟨⟨rfl, rfl⟩, fromTable_tableRow, trivial⟩, ⟨⟨_, rfl, ?_⟩, trivial, ?_⟩,
    ⟨⟨_, rfl, ?_⟩, trivial, trivial⟩, ⟨trivial, fromTable_tableRow, trivial⟩, trivial⟩
  · decide
  · rintro c ⟨⟩
    decide
  · decide

theorem unique_of_apart_chunkFirst :
    Unique (State.after true chunkFirst).store ∧
      ((State.after true chunkFirst).chunk = none → Counted (State.after true chunkFirst).store) :=
  unique_of_apart (Reach.of_along (.start rfl) apart_chunkFirst)

theorem reach_pollerBetween :
    Reach State.step (fun st a => st.Enabled a ∧ FromTable (fun _ => "h1") a) (· = State.new true)
      (State.after true pollerBetween) := by
  refine Reach.of_along (.start rfl) ⟨⟨⟨rfl, rfl⟩, trivial⟩, ⟨⟨rfl, rfl⟩, fromTable_tableRow⟩,
    ⟨trivial, fromTable_tableRow⟩, ⟨⟨_, rfl, ?_⟩, trivial⟩, ⟨⟨_, rfl, ?_⟩, trivial⟩, trivial⟩
  · decide
  · decide

/-- The packet is there twice, under one hash. -/
theorem overlap_duplicates : ¬ ∀ (use : Bool) (hashOf : Int → String) (st : State),
    Reach State.step (fun st a => st.Enabled a ∧ FromTable hashOf a) (· = State.new use) st →
      Unique st.store := by
  intro h
  have hunique := h true _ _ reach_pollerBetween
  exact absurd hunique.hashes (by decide)

end MeshcoreAnalyzer.PacketStore.Uniqueness

import MeshcoreAnalyzer.Readers
import MeshcoreAnalyzer.Relays
import MeshcoreAnalyzer.Rows

namespace MeshcoreAnalyzer.PacketStore.IndexOrder

open Maps Runs Orders Store

structure OldestFirst (s : Store) : Prop where
  byNode : ∀ pk, Ascending (fun r => (s.row r).firstSeen) (bucket s.nodes.byNode pk)
  byPayloadType : ∀ pt, Ascending (fun r => (s.row r).firstSeen) (bucket s.byPayloadType pt)

/-- Under each of the keys where its hash is not yet, the transmission is no older
than what is listed there. -/
def KeysInPlace (s : Store) (tx : TxRow) (pks : List String) : Prop :=
  ∀ pk ∈ pks, tx.hash ∉ s.nodes.hashes pk → ∀ q ∈ bucket s.nodes.byNode pk, (s.row q).firstSeen ≤ tx.firstSeen

def TypeInPlace (s : Store) (tx : TxRow) : Prop :=
  ∀ pt, tx.payloadType = some pt → ∀ q ∈ bucket s.byPayloadType pt, (s.row q).firstSeen ≤ tx.firstSeen

/-- What is listed is in the heap. -/
structure Known (loc : List TxRef) (s : Store) : Prop where
  wf : s.catalog.WF loc
  byNode : ∀ pk r, r ∈ bucket s.nodes.byNode pk → r < s.next

section Filing

variable {s t : Store} {loc : List TxRef} {tx : TxRow} {r : TxRef}

theorem Known.byPayloadType (h : Known loc s) {pt : Int} {q : TxRef} (hq : q ∈ bucket s.byPayloadType pt) :
    q < s.next := h.wf.fresh q (h.wf.type pt q hq).1

theorem ascending_congr {rs : List TxRef} (hrow : ∀ q ∈ rs, (t.row q).firstSeen = (s.row q).firstSeen) :
    Ascending (fun r => (t.row r).firstSeen) rs ↔ Ascending (fun r => (s.row r).firstSeen) rs :=
  ⟨fun h => h.congr fun q hq => (hrow q hq).symm, fun h => h.congr hrow⟩

theorem ascending_append_if {rs : List TxRef} {p : Prop} [Decidable p]
    (hrow : ∀ q ∈ rs, (t.row q).firstSeen = (s.row q).firstSeen) (hself : (t.row r).firstSeen = tx.firstSeen) :
    Ascending (fun r => (t.row r).firstSeen) (rs ++ if p then [r] else []) ↔
      Ascending (fun r => (s.row r).firstSeen) rs ∧ (p → ∀ q ∈ rs, (s.row q).firstSeen ≤ tx.firstSeen) := by
  by_cases hp : p
  · rw [if_pos hp, ascending_snoc, ascending_congr hrow, hself]
    constructor
    · rintro ⟨hs, hle⟩
      exact ⟨hs, fun _ q hq => hrow q hq ▸ hle q hq⟩
    · rintro ⟨hs, hle⟩
      exact ⟨hs, fun q hq => (hrow q hq).symm ▸ hle hp q hq⟩
  · rw [if_neg hp, List.append_nil, ascending_congr hrow]
    simp [hp]

theorem ascending_addAll {pks : List String} (hnodes : t.nodes = s.nodes.addAll tx.hash r pks)
    (hrow : ∀ pk, ∀ q ∈ bucket s.nodes.byNode pk, (t.row q).firstSeen = (s.row q).firstSeen)
    (hself : (t.row r).firstSeen = tx.firstSeen) :
    (∀ pk, Ascending (fun r => (t.row r).firstSeen) (bucket t.nodes.byNode pk)) ↔
      (∀ pk, Ascending (fun r => (s.row r).firstSeen) (bucket s.nodes.byNode pk)) ∧ KeysInPlace s tx pks := by
  have hpk : ∀ pk, Ascending (fun r => (t.row r).firstSeen) (bucket t.nodes.byNode pk) ↔
      Ascending (fun r => (s.row r).firstSeen) (bucket s.nodes.byNode pk) ∧
        (pk ∈ pks ∧ tx.hash ∉ s.nodes.hashes pk →
          ∀ q ∈ bucket s.nodes.byNode pk, (s.row q).firstSeen ≤ tx.firstSeen) := by
    intro pk
    rw [hnodes, NodeIndex.bucket_addAll]
    exact ascending_append_if (hrow pk) hself
  constructor
  · intro h
    exact ⟨fun pk => ((hpk pk).mp (h pk)).1, fun pk hm hh => ((hpk pk).mp (h pk)).2 ⟨hm, hh⟩⟩
  · rintro ⟨h, hin⟩ pk
    exact (hpk pk).mpr ⟨h pk, fun ⟨hm, hh⟩ => hin pk hm hh⟩

theorem ascending_pushPayloadType (htypes : t.byPayloadType = pushPayloadType s.byPayloadType tx r)
    (hrow : ∀ pt, ∀ q ∈ bucket s.byPayloadType pt, (t.row q).firstSeen = (s.row q).firstSeen)
    (hself : (t.row r).firstSeen = tx.firstSeen) :
    (∀ pt, Ascending (fun r => (t.row r).firstSeen) (bucket t.byPayloadType pt)) ↔
      (∀ pt, Ascending (fun r => (s.row r).firstSeen) (bucket s.byPayloadType pt)) ∧ TypeInPlace s tx := by
  have hpt : ∀ pt, Ascending (fun r => (t.row r).firstSeen) (bucket t.byPayloadType pt) ↔
      Ascending (fun r => (s.row r).firstSeen) (bucket s.byPayloadType pt) ∧
        (tx.payloadType = some pt → ∀ q ∈ bucket s.byPayloadType pt, (s.row q).firstSeen ≤ tx.firstSeen) := by
    intro pt
    rw [htypes, bucket_pushPayloadType]
    exact ascending_append_if (hrow pt) hself
  constructor
  · intro h
    exact ⟨fun pt => ((hpt pt).mp (h pt)).1, fun pt hm => ((hpt pt).mp (h pt)).2 hm⟩
  · rintro ⟨h, hin⟩ pt
    exact (hpt pt).mpr ⟨h pt, hin pt⟩

theorem oldestFirst_congr (hcat : t.catalog = s.catalog) (hnodes : t.nodes = s.nodes) :
    OldestFirst t ↔ OldestFirst s := by
  have hrow : t.row = s.row := row_eq_of_catalog hcat
  have htypes : t.byPayloadType = s.byPayloadType := congrArg Catalog.byPayloadType hcat
  constructor
  · rintro ⟨hn, ht⟩
    rw [hrow, hnodes] at hn
    rw [hrow, htypes] at ht
    exact ⟨hn, ht⟩
  · rintro ⟨hn, ht⟩
    rw [← hrow, ← hnodes] at hn
    rw [← hrow, ← htypes] at ht
    exact ⟨hn, ht⟩

theorem Known.congr (h : Known loc s) (hcat : t.catalog = s.catalog) (hnodes : t.nodes = s.nodes) :
    Known loc t := by
  have hnext : t.next = s.next := congrArg Catalog.next hcat
  refine ⟨hcat ▸ h.wf, ?_⟩
  rw [hnodes, hnext]
  exact h.byNode

theorem oldestFirst_addKeys {pks : List String} (hcat : t.catalog = s.catalog)
    (hnodes : t.nodes = s.nodes.addAll (s.row r).hash r pks) :
    OldestFirst t ↔ OldestFirst s ∧ KeysInPlace s (s.row r) pks := by
  have hrow : t.row = s.row := row_eq_of_catalog hcat
  have htypes : t.byPayloadType = s.byPayloadType := congrArg Catalog.byPayloadType hcat
  have hfiled := ascending_addAll hnodes (fun _ q _ => by rw [hrow]) (by rw [hrow])
  constructor
  · rintro ⟨hn, ht⟩
    rw [hrow, htypes] at ht
    exact ⟨⟨(hfiled.mp hn).1, ht⟩, (hfiled.mp hn).2⟩
  · rintro ⟨⟨hn, ht⟩, hin⟩
    rw [← hrow, ← htypes] at ht
    exact ⟨hfiled.mpr ⟨hn, hin⟩, ht⟩

theorem Known.addKeys {pks : List String} (h : Known loc s) (hr : r < s.next) (hcat : t.catalog = s.catalog)
    (hnodes : t.nodes = s.nodes.addAll (s.row r).hash r pks) : Known loc t := by
  have hnext : t.next = s.next := congrArg Catalog.next hcat
  refine ⟨hcat ▸ h.wf, fun pk q hq => ?_⟩
  rw [hnodes] at hq
  rw [hnext]
  rcases NodeIndex.mem_bucket_addAll hq with hq | rfl
  · exact h.byNode pk q hq
  · exact hr

theorem oldestFirst_insertTx (h : Known loc s) (tx : TxRow) :
    OldestFirst (s.insertTx tx) ↔ OldestFirst s ∧ KeysInPlace s tx tx.nodeKeys ∧ TypeInPlace s tx := by
  have hrow : (s.insertTx tx).row = Function.update s.row s.next tx :=
    congrArg Catalog.row (catalog_insertTx s tx)
  have hold : ∀ q, q < s.next → ((s.insertTx tx).row q).firstSeen = (s.row q).firstSeen := by
    intro q hq
    rw [hrow, Function.update_of_ne (Nat.ne_of_lt hq)]
  have hself : ((s.insertTx tx).row s.next).firstSeen = tx.firstSeen := by
    rw [hrow, Function.update_self]
  have hkeys := ascending_addAll (t := s.insertTx tx) rfl (fun pk q hq => hold q (h.byNode pk q hq)) hself
  have htypes := ascending_pushPayloadType (t := s.insertTx tx) rfl
    (fun pt q hq => hold q (h.byPayloadType hq)) hself
  constructor
  · rintro ⟨hn, ht⟩
    exact ⟨⟨(hkeys.mp hn).1, (htypes.mp ht).1⟩, (hkeys.mp hn).2, (htypes.mp ht).2⟩
  · rintro ⟨⟨hn, ht⟩, hkin, htin⟩
    exact ⟨hkeys.mpr ⟨hn, hkin⟩, htypes.mpr ⟨ht, htin⟩⟩

theorem Known.insertTx (h : Known loc s) (tx : TxRow) : Known loc (s.insertTx tx) := by
  refine ⟨catalog_insertTx s tx ▸ h.wf.insertTx tx, fun pk q hq => ?_⟩
  rcases NodeIndex.mem_bucket_addAll hq with hq | rfl
  · exact Nat.lt_succ_of_lt (h.byNode pk q hq)
  · exact Nat.lt_succ_self _

end Filing

def ObsInPlace (hopKeys : TxRow → ObsRow → List String) (s : Store) (r : TxRef) (o : ObsRow) : Prop :=
  o.key ∉ (s.heap r).obsKeys → KeysInPlace s (s.row r) (hopKeys (s.row r) o)

/-- A row files its transmission in place, if it is new, and its observation does. -/
def RowInPlace (hopKeys : TxRow → ObsRow → List String) (s : Store) (row : ScanRow) : Prop :=
  (s.byHash row.tx.hash = none → KeysInPlace s row.tx row.tx.nodeKeys ∧ TypeInPlace s row.tx) ∧
    ∀ o ∈ row.obs, ObsInPlace hopKeys (s.findOrInsert row.tx).1 (s.findOrInsert row.tx).2 o

def LateInPlace (env : Env) (acc : Store × List (Int × TxRef)) (o : ObsRow) : Prop :=
  acc.1.byObsID o.id = none → ∀ r, acc.1.byTxID o.txID = some r → ObsInPlace (liveHopKeys env) acc.1 r o

section Rows

variable {loc : List TxRef} {index : Store → TxRef → ObsRow → Store} {hopKeys : TxRow → ObsRow → List String}

theorem lt_next_of_mem {s : Store} (h : s.catalog.WF loc) {r : TxRef} (hr : r ∈ loc ++ s.packets) :
    r < s.next := h.fresh r hr

theorem oldestFirst_indexed {s : Store} (hcat : ∀ s r o, (index s r o).catalog = s.catalog)
    (hnodes : ∀ s r o, (index s r o).nodes = s.nodes.addAll (s.row r).hash r (hopKeys (s.row r) o))
    (r : TxRef) (o : ObsRow) : OldestFirst ((index s r o).attachObs r o.toObs) ↔
      OldestFirst s ∧ KeysInPlace s (s.row r) (hopKeys (s.row r) o) := by
  rw [oldestFirst_congr (catalog_attachObs _ r o.toObs) rfl]
  exact oldestFirst_addKeys (hcat s r o) (hnodes s r o)

theorem Known.indexed {s : Store} (h : Known loc s) (hcat : ∀ s r o, (index s r o).catalog = s.catalog)
    (hnodes : ∀ s r o, (index s r o).nodes = s.nodes.addAll (s.row r).hash r (hopKeys (s.row r) o))
    {r : TxRef} (hr : r ∈ loc ++ s.packets) (o : ObsRow) :
    Known loc ((index s r o).attachObs r o.toObs) :=
  (h.addKeys (lt_next_of_mem h.wf hr) (hcat s r o) (hnodes s r o)).congr (catalog_attachObs _ r o.toObs) rfl

theorem Known.findOrInsert {s : Store} (h : Known loc s) (tx : TxRow) : Known loc (s.findOrInsert tx).1 := by
  rw [Store.findOrInsert]
  split
  · exact h
  · exact h.insertTx tx

theorem oldestFirst_findOrInsert {s : Store} (h : Known loc s) (tx : TxRow) :
    OldestFirst (s.findOrInsert tx).1 ↔ OldestFirst s ∧
      (s.byHash tx.hash = none → KeysInPlace s tx tx.nodeKeys ∧ TypeInPlace s tx) := by
  rw [Store.findOrInsert]
  split
  · next r hr => simp [hr]
  · next hr => simp [hr, oldestFirst_insertTx h tx]

theorem oldestFirst_mergeRow (hcat : ∀ s r o, (index s r o).catalog = s.catalog)
    (hnodes : ∀ s r o, (index s r o).nodes = s.nodes.addAll (s.row r).hash r (hopKeys (s.row r) o))
    {s : Store} (h : Known loc s) (row : ScanRow) :
    OldestFirst (mergeRow index s row) ↔ OldestFirst s ∧ RowInPlace hopKeys s row := by
  rw [mergeRow, RowInPlace]
  rw [← and_assoc, ← oldestFirst_findOrInsert h row.tx]
  split
  · next hnone => simp [hnone]
  · next o ho =>
      rw [mergeObs]
      rw [ho]
      simp only [Option.mem_def, Option.some.injEq, forall_eq']
      split
      · next hkey =>
          rw [ObsInPlace]
          simp [hkey]
      · next hkey =>
          rw [ObsInPlace]
          rw [oldestFirst_indexed hcat hnodes]
          simp [hkey]

theorem Known.mergeRow (hcat : ∀ s r o, (index s r o).catalog = s.catalog)
    (hnodes : ∀ s r o, (index s r o).nodes = s.nodes.addAll (s.row r).hash r (hopKeys (s.row r) o))
    {s : Store} (h : Known loc s) (row : ScanRow) : Known loc (mergeRow index s row) :=
  mergeRow_invariant (fun _ tx _ _ ht => ht.insertTx tx)
    (fun _ _ o _ hr _ ht => ht.indexed hcat hnodes hr o) h.wf h row

theorem oldestFirst_mergeRows (hcat : ∀ s r o, (index s r o).catalog = s.catalog)
    (hnodes : ∀ s r o, (index s r o).nodes = s.nodes.addAll (s.row r).hash r (hopKeys (s.row r) o))
    {s : Store} (h : Known loc s) (rows : List ScanRow) :
    OldestFirst (rows.foldl (mergeRow index) s) ↔
      OldestFirst s ∧ Along (mergeRow index) (RowInPlace hopKeys) s rows :=
  foldl_iff (fun _ row _ ht => Known.mergeRow hcat hnodes ht row)
    (fun _ row _ ht => oldestFirst_mergeRow hcat hnodes ht row) h

theorem Known.mergeRows (hcat : ∀ s r o, (index s r o).catalog = s.catalog)
    (hnodes : ∀ s r o, (index s r o).nodes = s.nodes.addAll (s.row r).hash r (hopKeys (s.row r) o))
    {s : Store} (h : Known loc s) (rows : List ScanRow) :
    Known loc (rows.foldl (Store.mergeRow index) s) :=
  foldl_invariant h fun _ row _ ht => Known.mergeRow hcat hnodes ht row

theorem nodes_indexLiveHops (env : Env) (s : Store) (r : TxRef) (o : ObsRow) :
    (s.indexLiveHops env r o).nodes = s.nodes.addAll (s.row r).hash r (liveHopKeys env (s.row r) o) :=
  congrArg Relays.nodes (relays_indexLiveHops env s r o)

theorem oldestFirst_lateRow (env : Env) {acc : Store × List (Int × TxRef)} (o : ObsRow) :
    OldestFirst (lateRow env acc o).1 ↔ OldestFirst acc.1 ∧ LateInPlace env acc o := by
  rw [lateRow, LateInPlace]
  split
  · next hseen =>
      have hsome : acc.1.byObsID o.id ≠ none := by
        intro hnone
        rw [hnone] at hseen
        cases hseen
      simp [hsome]
  · next hseen =>
      have hnone : acc.1.byObsID o.id = none := by simpa using hseen
      split
      · next htx => simp [htx]
      · next r htx =>
          rw [hnone, htx]
          unfold ObsInPlace
          split
          · next hkey => simp [hkey]
          · next hkey =>
              dsimp only
              rw [oldestFirst_indexed (catalog_indexLiveHops env) (nodes_indexLiveHops env)]
              simp [hkey]

theorem Known.lateRow {env : Env} {acc : Store × List (Int × TxRef)} (h : Known loc acc.1) (o : ObsRow) :
    Known loc (lateRow env acc o).1 := by
  rw [Store.lateRow]
  split
  · exact h
  · split
    · exact h
    · next r hr =>
        split
        · exact h
        · exact h.indexed (catalog_indexLiveHops env) (nodes_indexLiveHops env) (h.wf.id _ _ hr).1 o

theorem oldestFirst_lateRows (env : Env) {s : Store} (h : Known loc s) (rows : List ObsRow) :
    OldestFirst (rows.foldl (lateRow env) (s, [])).1 ↔
      OldestFirst s ∧ Along (lateRow env) (LateInPlace env) (s, []) rows :=
  foldl_iff (I := fun acc : Store × List (Int × TxRef) => Known loc acc.1)
    (G := fun acc : Store × List (Int × TxRef) => OldestFirst acc.1)
    (fun _ o _ ht => ht.lateRow o) (fun _ o _ _ => oldestFirst_lateRow env o) h

end Rows

section Loaders

variable {loc : List TxRef} {s : Store}

theorem nodes_indexByNode (s : Store) (r : TxRef) :
    ((s.pickBest r).indexByNode r).nodes = s.nodes.addAll (s.row r).hash r (s.row r).nodeKeys := by
  change s.nodes.addAll ((s.pickBest r).row r).hash r ((s.pickBest r).row r).nodeKeys = _
  rw [row_eq_of_catalog (catalog_pickBest s r)]

theorem oldestFirst_pickAndIndexAll (h : Known loc s) : OldestFirst s.pickAndIndexAll ↔ OldestFirst s ∧
    Along (fun s r => (s.pickBest r).indexByNode r) (fun s r => KeysInPlace s (s.row r) (s.row r).nodeKeys)
      s s.packets := by
  have hI : ∀ t : Store, ∀ r ∈ s.packets, (Known loc t ∧ t.next = s.next) →
      Known loc ((t.pickBest r).indexByNode r) ∧ ((t.pickBest r).indexByNode r).next = s.next := by
    rintro t r hr ⟨ht, hnext⟩
    have hlt : r < t.next := hnext ▸ lt_next_of_mem h.wf (List.mem_append_right _ hr)
    exact ⟨ht.addKeys hlt (catalog_pickBest t r) (nodes_indexByNode t r), hnext⟩
  have hG : ∀ t : Store, ∀ r ∈ s.packets, (Known loc t ∧ t.next = s.next) →
      (OldestFirst ((t.pickBest r).indexByNode r) ↔
        OldestFirst t ∧ KeysInPlace t (t.row r) (t.row r).nodeKeys) :=
    fun t r _ _ => oldestFirst_addKeys (catalog_pickBest t r) (nodes_indexByNode t r)
  exact foldl_iff hI hG ⟨h, rfl⟩

theorem Known.pickAndIndexAll (h : Known loc s) : Known loc s.pickAndIndexAll := by
  have hI : ∀ t : Store, ∀ r ∈ s.packets, (Known loc t ∧ t.next = s.next) →
      Known loc ((t.pickBest r).indexByNode r) ∧ ((t.pickBest r).indexByNode r).next = s.next := by
    rintro t r hr ⟨ht, hnext⟩
    have hlt : r < t.next := hnext ▸ lt_next_of_mem h.wf (List.mem_append_right _ hr)
    exact ⟨ht.addKeys hlt (catalog_pickBest t r) (nodes_indexByNode t r), hnext⟩
  exact (foldl_invariant (I := fun t : Store => Known loc t ∧ t.next = s.next) ⟨h, rfl⟩ hI).1

theorem nodes_finishLoad (env : Env) (hotCutoff : Option String) (s : Store) :
    (s.finishLoad env hotCutoff).nodes = s.pickAndIndexAll.nodes :=
  congrArg Relays.nodes (relays_buildDistanceIndex env s.pickAndIndexAll.sortPackets.buildSubpathIndex.buildPathHopIndex)

theorem oldestFirst_finishLoad (env : Env) (hotCutoff : Option String) (s : Store) :
    OldestFirst (s.finishLoad env hotCutoff) ↔ OldestFirst s.pickAndIndexAll := by
  have hcat := catalog_finishLoad env hotCutoff s
  have hcat' := catalog_pickAndIndexAll s
  have hrow : (s.finishLoad env hotCutoff).row = s.pickAndIndexAll.row :=
    (congrArg Catalog.row hcat).trans (congrArg Catalog.row hcat').symm
  have htypes : (s.finishLoad env hotCutoff).byPayloadType = s.pickAndIndexAll.byPayloadType :=
    (congrArg Catalog.byPayloadType hcat).trans (congrArg Catalog.byPayloadType hcat').symm
  have hnodes := nodes_finishLoad env hotCutoff s
  constructor
  · rintro ⟨hn, ht⟩
    rw [hrow, hnodes] at hn
    rw [hrow, htypes] at ht
    exact ⟨hn, ht⟩
  · rintro ⟨hn, ht⟩
    rw [← hrow, ← hnodes] at hn
    rw [← hrow, ← htypes] at ht
    exact ⟨hn, ht⟩

theorem Known.finishLoad (h : Known loc s) (env : Env) (hotCutoff : Option String) :
    Known loc (s.finishLoad env hotCutoff) := by
  have hcat := catalog_finishLoad env hotCutoff s
  have hnext : (s.finishLoad env hotCutoff).next = s.next := congrArg Catalog.next hcat
  have hnext' : s.pickAndIndexAll.next = s.next := congrArg Catalog.next (catalog_pickAndIndexAll s)
  refine ⟨hcat ▸ h.wf.sortPackets, ?_⟩
  rw [nodes_finishLoad, hnext, ← hnext']
  exact h.pickAndIndexAll.byNode

def mergedKeys (c : Chunk) (tx : TxRow) : List String :=
  tx.nodeKeys ++ bucket c.resolvedPKs tx.id ++ bucket c.byNodePKs tx.id

def TxInPlace (c : Chunk) (s : Store) (r : TxRef) : Prop :=
  KeysInPlace s (s.row r) (mergedKeys c (s.row r)) ∧ TypeInPlace s (s.row r)

theorem nodes_mergeTx (c : Chunk) (s : Store) (r : TxRef) :
    (mergeTx c s r).nodes = s.nodes.addAll (s.row r).hash r (mergedKeys c (s.row r)) := by
  have hnodes := congrArg Relays.nodes (relays_mergeTx c s r)
  rw [mergedKeys, NodeIndex.addAll]
  rw [List.foldl_append, List.foldl_append]
  exact hnodes

theorem oldestFirst_mergeTx (c : Chunk) (s : Store) (r : TxRef) :
    OldestFirst (mergeTx c s r) ↔ OldestFirst s ∧ TxInPlace c s r := by
  have hcat := catalog_mergeTx c s r
  have hrow : (mergeTx c s r).row = s.row := congrArg Catalog.row hcat
  have hkeys := ascending_addAll (nodes_mergeTx c s r) (fun _ q _ => by rw [hrow]) (by rw [hrow])
  have hpush : (mergeTx c s r).byPayloadType = pushPayloadType s.byPayloadType (s.row r) r :=
    congrArg Catalog.byPayloadType hcat
  have htypes := ascending_pushPayloadType hpush (fun _ q _ => by rw [hrow]) (by rw [hrow])
  constructor
  · rintro ⟨hn, ht⟩
    exact ⟨⟨(hkeys.mp hn).1, (htypes.mp ht).1⟩, (hkeys.mp hn).2, (htypes.mp ht).2⟩
  · rintro ⟨⟨hn, ht⟩, hkin, htin⟩
    exact ⟨hkeys.mpr ⟨hn, hkin⟩, htypes.mpr ⟨ht, htin⟩⟩

theorem oldestFirst_mergeTxs (c : Chunk) (s : Store) (batch : List TxRef) :
    OldestFirst (batch.foldl (mergeTx c) s) ↔ OldestFirst s ∧ Along (mergeTx c) (TxInPlace c) s batch :=
  foldl_iff (I := fun _ => True) (fun _ _ _ _ => trivial) (fun t r _ _ => oldestFirst_mergeTx c t r) trivial

theorem oldestFirst_mergePrimary (s : Store) (batch : List TxRef) :
    OldestFirst (s.mergePrimary batch) ↔ OldestFirst s :=
  ⟨fun h => ⟨h.byNode, h.byPayloadType⟩, fun h => ⟨h.byNode, h.byPayloadType⟩⟩

theorem byNode_mergeTxs {c : Chunk} {batch : List TxRef} {s : Store}
    (h : ∀ pk r, r ∈ bucket s.nodes.byNode pk → r < s.next) (hbatch : ∀ r ∈ batch, r < s.next) :
    ∀ pk r, r ∈ bucket (batch.foldl (mergeTx c) s).nodes.byNode pk → r < s.next := by
  have hI : ∀ t : Store, ∀ r ∈ batch, (∀ pk q, q ∈ bucket t.nodes.byNode pk → q < s.next) →
      ∀ pk q, q ∈ bucket (mergeTx c t r).nodes.byNode pk → q < s.next := by
    intro t r hr ht pk q hq
    rw [nodes_mergeTx] at hq
    rcases NodeIndex.mem_bucket_addAll hq with hq | rfl
    · exact ht pk q hq
    · exact hbatch q hr
  exact foldl_invariant (I := fun t : Store => ∀ pk r, r ∈ bucket t.nodes.byNode pk → r < s.next) h hI

end Loaders

/-- Whatever a step files, it files in its place. -/
def InPlace (st : State) : Action → Prop
  | .scanAndMergeChunk relayPM rows => Along (mergeRow (indexLoadedHops relayPM))
      (RowInPlace (loadedHopKeys relayPM)) st.store rows
  | .finishLoad _ _ => Along (fun s r => (s.pickBest r).indexByNode r)
      (fun s r => KeysInPlace s (s.row r) (s.row r).nodeKeys) st.store st.store.packets
  | .ingestNewFromDB env sinceID limit rows => Along (mergeRow (indexLiveHops env))
      (RowInPlace (liveHopKeys env)) st.store (ingested sinceID limit rows)
  | .ingestNewObservations env limit rows => Along (lateRow env) (LateInPlace env) (st.store, [])
      (observed limit rows)
  | .mergeBatch => ∀ c ∈ st.chunk, Along (mergeTx c) (TxInPlace c)
      (st.store.mergePrimary (c.pending.take mergeBatchSize)) (c.pending.take mergeBatchSize)
  | _ => True

structure AllKnown (st : State) : Prop where
  wf : st.WF
  byNode : ∀ pk r, r ∈ bucket st.store.nodes.byNode pk → r < st.store.next

theorem AllKnown.known {st : State} (h : AllKnown st) : Known st.locals st.store := ⟨h.wf.catalog, h.byNode⟩

theorem allKnown_new (use : Bool) : AllKnown (State.new use) :=
  ⟨State.wf_new use, fun pk r hr => by cases hr⟩

section Frames

variable (env : Env) (limit : Int) (s : Store)

theorem nodes_ingestNewFromDB (sinceID : Int) (rows : List ScanRow) :
    (s.ingestNewFromDB env sinceID limit rows).1.nodes =
      ((ingested sinceID limit rows).foldl (mergeRow (indexLiveHops env)) s).nodes := by
  rw [ingestNewFromDB]
  dsimp only
  rw [← ingestRows_fst env (ingested sinceID limit rows) (s, [])]
  exact congrArg Relays.nodes (relays_finishIngest env _ _)

theorem catalog_ingestNewFromDB_rows (sinceID : Int) (rows : List ScanRow) :
    (s.ingestNewFromDB env sinceID limit rows).1.catalog =
      ((ingested sinceID limit rows).foldl (mergeRow (indexLiveHops env)) s).catalog := by
  rw [ingestNewFromDB]
  dsimp only
  rw [← ingestRows_fst env (ingested sinceID limit rows) (s, [])]
  exact catalog_finishIngest env _ _

theorem nodes_ingestNewObservations (rows : List ObsRow) :
    (s.ingestNewObservations env limit rows).nodes =
      ((observed limit rows).foldl (lateRow env) (s, [])).1.nodes :=
  congrArg Relays.nodes (relays_finishObservations env _ _)

theorem catalog_ingestNewObservations_rows (rows : List ObsRow) :
    (s.ingestNewObservations env limit rows).catalog =
      ((observed limit rows).foldl (lateRow env) (s, [])).1.catalog := catalog_finishObservations env _ _

theorem nodes_readChunk (relayPM : Option PrefixMap) (rows : List ScanRow) :
    (s.readChunk relayPM rows).1.nodes = s.nodes := by
  have hrow : ∀ (acc : Store × Chunk) (row : ScanRow), (readRow relayPM acc row).1.nodes = acc.1.nodes := by
    intro acc row
    have hfound : (acc.1.findOrNewLocal acc.2 row.tx).1.1.nodes = acc.1.nodes := by
      rw [findOrNewLocal]
      split <;> rfl
    unfold readRow
    dsimp only
    split
    · exact hfound
    · rw [localObs]
      split
      · exact hfound
      · exact hfound
  have hrows : (rows.foldl (readRow relayPM) (s, Chunk.empty)).1.nodes = s.nodes :=
    foldl_view (v := fun acc : Store × Chunk => acc.1.nodes) fun acc row _ => hrow acc row
  exact (congrArg Relays.nodes (relays_pickAll _ _)).trans hrows

end Frames

theorem AllKnown.step {st : State} (h : AllKnown st) {a : Action} (ha : st.Enabled a) : AllKnown (st.step a) := by
  refine ⟨h.wf.step ha, ?_⟩
  cases a with
  | scanAndMergeChunk relayPM rows =>
      exact (Known.mergeRows (catalog_indexLoadedHops relayPM) (nodes_indexLoadedHops relayPM) h.known rows).byNode
  | finishLoad env hotCutoff => exact (h.known.finishLoad env hotCutoff).byNode
  | ingestNewFromDB env sinceID limit rows =>
      have hrows := Known.mergeRows (catalog_indexLiveHops env) (nodes_indexLiveHops env) h.known
        (ingested sinceID limit rows)
      exact (hrows.congr (catalog_ingestNewFromDB_rows env limit st.store sinceID rows)
        (nodes_ingestNewFromDB env limit st.store sinceID rows)).byNode
  | ingestNewObservations env limit rows =>
      have hrows : Known st.locals ((observed limit rows).foldl (lateRow env) (st.store, [])).1 :=
        foldl_invariant (I := fun acc : Store × List (Int × TxRef) => Known st.locals acc.1) h.known
          fun _ o _ ht => ht.lateRow o
      exact (hrows.congr (catalog_ingestNewObservations_rows env limit st.store rows)
        (nodes_ingestNewObservations env limit st.store rows)).byNode
  | readChunk relayPM rows =>
      have hnext := (extends_readChunk relayPM rows st.store).next
      intro pk r hr
      replace hr : r ∈ bucket (st.store.readChunk relayPM rows).1.nodes.byNode pk := hr
      rw [nodes_readChunk] at hr
      exact Nat.lt_of_lt_of_le (h.byNode pk r hr) hnext
  | mergeBatch =>
      obtain ⟨c, hc, _⟩ := ha
      have hbatch : ∀ r ∈ c.pending.take mergeBatchSize, r < st.store.next := by
        intro r hr
        have hm := (h.wf.chunk c hc).pending.subset (List.mem_of_mem_take hr)
        exact lt_next_of_mem h.wf.catalog (List.mem_append_left _ (State.locals_of_some hc ▸ hm))
      have hnext : (st.store.mergeBatch c).1.next = st.store.next :=
        congrArg Catalog.next (catalog_mergeBatch st.store c)
      rw [State.step]
      rw [show st.chunk = some c from hc]
      dsimp only
      rw [hnext]
      exact byNode_mergeTxs (s := st.store.mergePrimary (c.pending.take mergeBatchSize)) h.byNode hbatch
  | publish =>
      obtain ⟨c, hc, _⟩ := ha
      rw [State.step]
      rw [show st.chunk = some c from hc]
      exact h.byNode
  | rebuild => exact h.byNode
  | buildDistanceIndex env =>
      exact (h.known.congr (catalog_buildDistanceIndex env st.store)
        (congrArg Relays.nodes (relays_buildDistanceIndex env st.store))).byNode
  | evict ret rpBatch =>
      rw [State.step, evictStaleInternal]
      dsimp only
      split
      · exact h.byNode
      · split
        · exact h.byNode
        · intro pk r hr
          replace hr : r ∈ bucket (filterKeys _ _ st.store.nodes.byNode) pk := hr
          rw [bucket_filterKeys] at hr
          split at hr
          · exact h.byNode pk r (List.mem_of_mem_filter hr)
          · exact h.byNode pk r hr

theorem OldestFirst.evict {s : Store} (h : OldestFirst s) (rpBatch : Int → List String) (n : Nat) :
    OldestFirst (s.evict rpBatch n) := by
  have hrow : (s.evict rpBatch n).row = s.row := row_cachePaths s _
  refine ⟨fun pk => ?_, fun pt => ?_⟩
  · rw [hrow]
    change Ascending _ (bucket (filterKeys _ _ s.nodes.byNode) pk)
    rw [bucket_filterKeys]
    split
    · exact (h.byNode pk).sublist List.filter_sublist
    · exact h.byNode pk
  · rw [hrow]
    change Ascending _ (bucket (filterKeys _ _ s.byPayloadType) pt)
    rw [bucket_filterKeys]
    split
    · exact (h.byPayloadType pt).sublist List.filter_sublist
    · exact h.byPayloadType pt

theorem oldestFirst_step {st : State} (h : AllKnown st) {a : Action} (ha : st.Enabled a)
    (hs : OldestFirst st.store) : OldestFirst (st.step a).store ↔ InPlace st a := by
  cases a with
  | scanAndMergeChunk relayPM rows =>
      exact (oldestFirst_mergeRows (catalog_indexLoadedHops relayPM) (nodes_indexLoadedHops relayPM)
        h.known rows).trans (and_iff_right hs)
  | finishLoad env hotCutoff =>
      exact ((oldestFirst_finishLoad env hotCutoff st.store).trans
        (oldestFirst_pickAndIndexAll h.known)).trans (and_iff_right hs)
  | ingestNewFromDB env sinceID limit rows =>
      have hrows := oldestFirst_mergeRows (catalog_indexLiveHops env) (nodes_indexLiveHops env) h.known
        (ingested sinceID limit rows)
      have hsame := oldestFirst_congr (catalog_ingestNewFromDB_rows env limit st.store sinceID rows)
        (nodes_ingestNewFromDB env limit st.store sinceID rows)
      exact (hsame.trans hrows).trans (and_iff_right hs)
  | ingestNewObservations env limit rows =>
      have hrows := oldestFirst_lateRows env h.known (observed limit rows)
      have hsame := oldestFirst_congr (catalog_ingestNewObservations_rows env limit st.store rows)
        (nodes_ingestNewObservations env limit st.store rows)
      exact (hsame.trans hrows).trans (and_iff_right hs)
  | readChunk relayPM rows =>
      refine iff_of_true ?_ trivial
      have hext := extends_readChunk relayPM rows st.store
      have hnodes := nodes_readChunk st.store relayPM rows
      have htypes : (st.store.readChunk relayPM rows).1.byPayloadType = st.store.byPayloadType :=
        congrArg Catalog.byPayloadType hext.same
      refine ⟨fun pk => ?_, fun pt => ?_⟩
      · change Ascending (fun r => ((st.store.readChunk relayPM rows).1.row r).firstSeen)
          (bucket (st.store.readChunk relayPM rows).1.nodes.byNode pk)
        rw [hnodes]
        refine (hs.byNode pk).congr fun q hq => ?_
        exact congrArg TxRow.firstSeen (hext.row q (h.byNode pk q hq))
      · change Ascending (fun r => ((st.store.readChunk relayPM rows).1.row r).firstSeen)
          (bucket (st.store.readChunk relayPM rows).1.byPayloadType pt)
        rw [htypes]
        refine (hs.byPayloadType pt).congr fun q hq => ?_
        exact congrArg TxRow.firstSeen (hext.row q (h.known.byPayloadType hq))
  | mergeBatch =>
      obtain ⟨c, hc, _⟩ := ha
      have hmerged := oldestFirst_mergeTxs c (st.store.mergePrimary (c.pending.take mergeBatchSize))
        (c.pending.take mergeBatchSize)
      rw [oldestFirst_mergePrimary] at hmerged
      rw [State.step, InPlace]
      rw [show st.chunk = some c from hc]
      simp only [Option.mem_def, Option.some.injEq, forall_eq']
      exact hmerged.trans (and_iff_right hs)
  | publish =>
      obtain ⟨c, hc, _⟩ := ha
      refine iff_of_true ?_ trivial
      rw [State.step]
      rw [show st.chunk = some c from hc]
      exact ⟨hs.byNode, hs.byPayloadType⟩
  | rebuild =>
      exact iff_of_true ((oldestFirst_congr (catalog_rebuild st.store) rfl).mpr hs) trivial
  | buildDistanceIndex env =>
      exact iff_of_true ((oldestFirst_congr (catalog_buildDistanceIndex env st.store)
        (congrArg Relays.nodes (relays_buildDistanceIndex env st.store))).mpr hs) trivial
  | evict ret rpBatch =>
      refine iff_of_true ?_ trivial
      rw [State.step, evictStaleInternal]
      dsimp only
      split
      · exact hs
      · split
        · exact hs
        · exact hs.evict rpBatch _

theorem oldestFirst_new (use : Bool) : OldestFirst (State.new use).store :=
  ⟨fun _ => ascending_nil, fun _ => ascending_nil⟩

/-- What the readers of the two indexes take for granted: the recent packets of a node
are its newest, and the last activity of a channel is that of its newest message. -/
structure ReadRight (s : Store) : Prop where
  recent : ∀ pubkey, (s.recentPackets pubkey).length = min 20 (bucket s.nodes.byNode pubkey).length ∧
    Ascending (fun r => (s.row r).firstSeen) (s.recentPackets pubkey).reverse ∧
    ∃ older, bucket s.nodes.byNode pubkey = older ++ (s.recentPackets pubkey).reverse ∧
      ∀ a ∈ older, ∀ b ∈ s.recentPackets pubkey, (s.row a).firstSeen ≤ (s.row b).firstSeen
  lastActivity : ∀ lib q k ch, s.channelMap lib q k = some ch →
    (∃ r ∈ bucket s.byPayloadType payloadGRP_TXT, s.channelOf lib q r = some k ∧
      ch.lastActivity = (s.row r).firstSeen) ∧
    ∀ r ∈ bucket s.byPayloadType payloadGRP_TXT, s.channelOf lib q r = some k →
      (s.row r).firstSeen ≤ ch.lastActivity

theorem OldestFirst.readRight {s : Store} (h : OldestFirst s) : ReadRight s :=
  ⟨fun pubkey => recentPackets_newest (h.byNode pubkey),
    fun _ _ _ _ hch => lastActivity_newest (h.byPayloadType payloadGRP_TXT) hch⟩

/-- In a run of the producers the two indexes of every state are oldest first, and
read as their readers do, if and only if each step files in place what it files. -/
theorem oldestFirst_along_iff {use : Bool} {acts : List Action}
    (h : Along State.step State.Enabled (State.new use) acts) :
    (∀ done, done <+: acts → OldestFirst (State.after use done).store ∧
      ReadRight (State.after use done).store) ↔ Along State.step InPlace (State.new use) acts := by
  rw [← prefixes_iff h (allKnown_new use) (fun _ _ hknown ha => hknown.step ha)
    (oldestFirst_new use) fun _ _ hknown ha hs => oldestFirst_step hknown ha hs]
  constructor
  · exact fun hall done hdone => (hall done hdone).1
  · exact fun hall done hdone => ⟨hall done hdone, (hall done hdone).readRight⟩

/-- Two messages on a channel are read from the database in the order of their IDs;
the one that was seen last has the smaller ID. -/
def lateMessage : List Action :=
  [.scanAndMergeChunk none
    [bareRow (plainTx 1 "h1" "2026-01-02T00:00:00Z" 5), bareRow (plainTx 2 "h2" "2026-01-01T00:00:00Z" 5)],
    .finishLoad (plainEnv none) none]

theorem enabled_lateMessage : Along State.step State.Enabled (State.new true) lateMessage :=
  ⟨⟨rfl, rfl⟩, ⟨rfl, rfl⟩, trivial⟩

theorem oldestFirst_along_iff_lateMessage :
    (∀ done, done <+: lateMessage → OldestFirst (State.after true done).store ∧
      ReadRight (State.after true done).store) ↔ Along State.step InPlace (State.new true) lateMessage :=
  oldestFirst_along_iff enabled_lateMessage

/-- The list by type stays in the order of the IDs when the packets are sorted. -/
theorem type_list_unsorted : ¬ ∀ (use : Bool) (st : State), Reachable use st →
    st.store.loaded = true → OldestFirst st.store := by
  intro h
  have hfirst := h true _ (reachable_after enabled_lateMessage) (by decide)
  exact absurd (hfirst.byPayloadType 5) (by decide)

end MeshcoreAnalyzer.PacketStore.IndexOrder

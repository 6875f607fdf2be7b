import MeshcoreAnalyzer.Catalog

namespace MeshcoreAnalyzer.PacketStore

open Maps Runs

/-- The packets, and the transmissions of a chunk that are not packets yet. -/
structure Catalog.WF (c : Catalog) (loc : List TxRef) : Prop where
  fresh : ∀ r ∈ loc ++ c.packets, r < c.next
  nodup : (loc ++ c.packets).Nodup
  hash : ∀ h r, c.byHash h = some r → r ∈ loc ++ c.packets ∧ (c.row r).hash = h
  id : ∀ i r, c.byTxID i = some r → r ∈ loc ++ c.packets ∧ (c.row r).id = i
  type : ∀ pt r, r ∈ bucket c.byPayloadType pt → r ∈ loc ++ c.packets ∧ (c.row r).payloadType = some pt

namespace Catalog

variable {c : Catalog} {loc : List TxRef}

theorem WF.next_notMem (h : c.WF loc) : c.next ∉ loc ++ c.packets := fun hm =>
  Nat.lt_irrefl _ (h.fresh _ hm)

theorem update_row_of_mem (h : c.WF loc) (tx : TxRow) {r : TxRef} (hr : r ∈ loc ++ c.packets) :
    Function.update c.row c.next tx r = c.row r := by
  rw [Function.update_of_ne]
  rintro rfl
  exact h.next_notMem hr

theorem WF.insertTx (h : c.WF loc) (tx : TxRow) : (c.insertTx tx).WF loc := by
  have hassoc : loc ++ (c.packets ++ [c.next]) = loc ++ c.packets ++ [c.next] :=
    (List.append_assoc _ _ _).symm
  have hold : ∀ r ∈ loc ++ c.packets, r ∈ loc ++ (c.insertTx tx).packets := by
    intro r hr
    change r ∈ loc ++ (c.packets ++ [c.next])
    rw [hassoc]
    exact List.mem_append_left _ hr
  have hnew : c.next ∈ loc ++ (c.insertTx tx).packets := by
    change c.next ∈ loc ++ (c.packets ++ [c.next])
    simp
  have hrow : ∀ r ∈ loc ++ c.packets, (c.insertTx tx).row r = c.row r := fun r hr =>
    update_row_of_mem h tx hr
  have hrownew : (c.insertTx tx).row c.next = tx := Function.update_self _ _ _
  refine ⟨?_, ?_, ?_, ?_, ?_⟩
  · intro r hr
    replace hr : r ∈ loc ++ (c.packets ++ [c.next]) := hr
    rw [hassoc, List.mem_append, List.mem_singleton] at hr
    rcases hr with hr | rfl
    · exact Nat.lt_succ_of_lt (h.fresh r hr)
    · exact Nat.lt_succ_self _
  · change (loc ++ (c.packets ++ [c.next])).Nodup
    rw [hassoc, List.nodup_append]
    refine ⟨h.nodup, List.nodup_singleton _, ?_⟩
    rintro a ha b hb rfl
    rw [List.mem_singleton] at hb
    exact h.next_notMem (hb ▸ ha)
  · intro k r hr
    rcases set_eq_some.mp hr with ⟨rfl, rfl⟩ | ⟨_, hr⟩
    · exact ⟨hnew, by rw [hrownew]⟩
    · obtain ⟨hm, hh⟩ := h.hash k r hr
      exact ⟨hold r hm, by rw [hrow r hm, hh]⟩
  · intro i r hr
    rcases set_eq_some.mp hr with ⟨rfl, rfl⟩ | ⟨_, hr⟩
    · exact ⟨hnew, by rw [hrownew]⟩
    · obtain ⟨hm, hh⟩ := h.id i r hr
      exact ⟨hold r hm, by rw [hrow r hm, hh]⟩
  · intro pt r hr
    replace hr : r ∈ bucket (pushPayloadType c.byPayloadType tx c.next) pt := hr
    rw [bucket_pushPayloadType, List.mem_append] at hr
    rcases hr with hr | hr
    · obtain ⟨hm, hh⟩ := h.type pt r hr
      exact ⟨hold r hm, by rw [hrow r hm, hh]⟩
    · split at hr
      · next hpt =>
          rw [List.mem_singleton] at hr
          subst hr
          exact ⟨hnew, by rw [hrownew, hpt]⟩
      · cases hr

theorem WF.findOrInsert (h : c.WF loc) (tx : TxRow) : (c.findOrInsert tx).WF loc := by
  rw [Catalog.findOrInsert]
  split
  · exact h.insertTx tx
  · exact h

theorem WF.alloc (h : c.WF loc) (tx : TxRow) : (c.alloc tx).WF (loc ++ [c.next]) := by
  have hmem : ∀ r, r ∈ loc ++ [c.next] ++ c.packets ↔ r ∈ loc ++ c.packets ∨ r = c.next := by
    intro r
    simp only [List.mem_append, List.mem_singleton]
    tauto
  have hrow : ∀ r ∈ loc ++ c.packets, (c.alloc tx).row r = c.row r := fun r hr =>
    update_row_of_mem h tx hr
  refine ⟨?_, ?_, ?_, ?_, ?_⟩
  · intro r hr
    rcases (hmem r).mp hr with hr | rfl
    · exact Nat.lt_succ_of_lt (h.fresh r hr)
    · exact Nat.lt_succ_self _
  · have hperm : (loc ++ [c.next] ++ c.packets).Perm (c.next :: (loc ++ c.packets)) := by
      rw [List.append_assoc]
      exact List.perm_middle
    exact hperm.nodup_iff.mpr (List.nodup_cons.mpr ⟨h.next_notMem, h.nodup⟩)
  · intro k r hr
    obtain ⟨hm, hh⟩ := h.hash k r hr
    exact ⟨(hmem r).mpr (.inl hm), by rw [hrow r hm, hh]⟩
  · intro i r hr
    obtain ⟨hm, hh⟩ := h.id i r hr
    exact ⟨(hmem r).mpr (.inl hm), by rw [hrow r hm, hh]⟩
  · intro pt r hr
    obtain ⟨hm, hh⟩ := h.type pt r hr
    exact ⟨(hmem r).mpr (.inl hm), by rw [hrow r hm, hh]⟩

theorem batch_eq_some {K : Type} [DecidableEq K] {f : TxRef → K} {batch : List TxRef}
    {m : GoMap K TxRef} {k : K} {r : TxRef}
    (h : batch.foldl (fun m r => set m (f r) r) m k = some r) : (r ∈ batch ∧ f r = k) ∨ m k = some r := by
  induction batch generalizing m with
  | nil => exact .inr h
  | cons a batch ih =>
      rcases ih h with ⟨hr, hk⟩ | h
      · exact .inl ⟨List.mem_cons_of_mem a hr, hk⟩
      · rcases set_eq_some.mp h with ⟨rfl, rfl⟩ | ⟨_, h⟩
        · exact .inl ⟨List.mem_cons_self, rfl⟩
        · exact .inr h

theorem batchHashes_eq_some {batch : List TxRef} {k : String} {r : TxRef}
    (h : c.batchHashes batch k = some r) : r ∈ batch ∧ (c.row r).hash = k := by
  rcases batch_eq_some h with h | h
  · exact h
  · cases h

theorem batchTxIDs_eq_some {batch : List TxRef} {k : Int} {r : TxRef}
    (h : c.batchTxIDs batch k = some r) : r ∈ batch ∧ (c.row r).id = k := by
  rcases batch_eq_some h with h | h
  · exact h
  · cases h

theorem bucket_foldl_pushPayloadType (row : TxRef → TxRow) (batch : List TxRef)
    (m : GoMap Int (List TxRef)) (pt : Int) :
    bucket (batch.foldl (fun m r => pushPayloadType m (row r) r) m) pt =
      bucket m pt ++ batch.filter fun r => (row r).payloadType = some pt := by
  induction batch generalizing m with
  | nil => simp
  | cons a batch ih =>
      rw [List.foldl_cons, ih, bucket_pushPayloadType, List.filter_cons]
      by_cases h : (row a).payloadType = some pt <;> simp [h]

theorem orElse_eq_some {V : Type} {x y : Option V} {v : V} (h : (x <|> y) = some v) :
    x = some v ∨ y = some v := by
  cases x with
  | none => exact .inr h
  | some w => exact .inl h

theorem WF.mergeBatch (h : c.WF loc) {batch : List TxRef} (hb : batch ⊆ loc) :
    (c.mergeBatch batch).WF loc := by
  refine ⟨h.fresh, h.nodup, ?_, ?_, ?_⟩
  · intro k r hr
    rcases orElse_eq_some hr with hr | hr
    · exact h.hash k r hr
    · obtain ⟨hm, hh⟩ := batchHashes_eq_some hr
      exact ⟨List.mem_append_left _ (hb hm), hh⟩
  · intro i r hr
    rcases orElse_eq_some hr with hr | hr
    · exact h.id i r hr
    · obtain ⟨hm, hh⟩ := batchTxIDs_eq_some hr
      exact ⟨List.mem_append_left _ (hb hm), hh⟩
  · intro pt r hr
    replace hr : r ∈ bucket (batch.foldl (fun m r => pushPayloadType m (c.row r) r) c.byPayloadType) pt := hr
    rw [bucket_foldl_pushPayloadType, List.mem_append, List.mem_filter] at hr
    rcases hr with hr | ⟨hm, hh⟩
    · exact h.type pt r hr
    · exact ⟨List.mem_append_left _ (hb hm), of_decide_eq_true hh⟩

theorem WF.publish (h : c.WF loc) : (c.publish loc).WF [] := ⟨h.fresh, h.nodup, h.hash, h.id, h.type⟩

theorem mem_evicted_or {n : Nat} {r : TxRef} (hr : r ∈ loc ++ c.packets) :
    r ∈ c.packets.take n ∨ r ∈ loc ++ c.packets.drop n := by
  rw [← List.take_append_drop n c.packets] at hr
  simp only [List.mem_append] at hr ⊢
  tauto

theorem WF.evict (h : c.WF loc) (n : Nat) : (c.evict n).WF loc := by
  have hsub : (loc ++ c.packets.drop n).Sublist (loc ++ c.packets) :=
    (List.Sublist.refl loc).append (List.drop_sublist n c.packets)
  refine ⟨fun r hr => h.fresh r (hsub.subset hr), h.nodup.sublist hsub, ?_, ?_, ?_⟩
  · intro k r hr
    obtain ⟨hne, hr⟩ := (foldl_delete_eq_some _ _ _).mp hr
    obtain ⟨hm, hh⟩ := h.hash k r hr
    rcases mem_evicted_or (n := n) hm with he | hk
    · exact absurd hh (hne r he)
    · exact ⟨hk, hh⟩
  · intro i r hr
    obtain ⟨hne, hr⟩ := (foldl_delete_eq_some _ _ _).mp hr
    obtain ⟨hm, hh⟩ := h.id i r hr
    rcases mem_evicted_or (n := n) hm with he | hk
    · exact absurd hh (hne r he)
    · exact ⟨hk, hh⟩
  · intro pt r hr
    replace hr : r ∈ bucket (filterKeys _ _ c.byPayloadType) pt := hr
    rw [bucket_filterKeys] at hr
    split at hr
    · obtain ⟨hr, hid⟩ := List.mem_filter.mp hr
      obtain ⟨hm, hh⟩ := h.type pt r hr
      rcases mem_evicted_or (n := n) hm with he | hk
      · exact absurd (List.mem_map_of_mem he) (of_decide_eq_true hid)
      · exact ⟨hk, hh⟩
    · next hkey =>
        obtain ⟨hm, hh⟩ := h.type pt r hr
        rcases mem_evicted_or (n := n) hm with he | hk
        · exact absurd (Store.typesOf_of_mem he hh) hkey
        · exact ⟨hk, hh⟩

theorem WF.evicted_notMem (h : c.WF loc) {n : Nat} {r : TxRef} (he : r ∈ c.packets.take n) :
    r ∉ loc ++ (c.evict n).packets := by
  intro hm
  have hnd : (loc ++ (c.packets.take n ++ c.packets.drop n)).Nodup := by
    rw [List.take_append_drop]
    exact h.nodup
  rcases List.mem_append.mp hm with hm | hm
  · exact (List.nodup_append.mp hnd).2.2 r hm r (List.mem_append_left _ he) rfl
  · exact (List.nodup_append.mp (List.nodup_append.mp hnd).2.1).2.2 r he r hm rfl

theorem WF.sortPackets (h : c.WF loc) : c.sortPackets.WF loc := by
  have hperm : (loc ++ c.sortPackets.packets).Perm (loc ++ c.packets) :=
    (List.perm_insertionSort _ c.packets).append_left loc
  have hmem : ∀ r, r ∈ loc ++ c.sortPackets.packets ↔ r ∈ loc ++ c.packets := fun r => hperm.mem_iff
  refine ⟨?_, hperm.nodup_iff.mpr h.nodup, ?_, ?_, ?_⟩
  · intro r hr
    exact h.fresh r ((hmem r).mp hr)
  · intro k r hr
    exact ⟨(hmem r).mpr (h.hash k r hr).1, (h.hash k r hr).2⟩
  · intro i r hr
    exact ⟨(hmem r).mpr (h.id i r hr).1, (h.id i r hr).2⟩
  · intro pt r hr
    exact ⟨(hmem r).mpr (h.type pt r hr).1, (h.type pt r hr).2⟩

end Catalog

theorem catalog_localObs (relayPM : Option PrefixMap) (s : Store) (c : Chunk) (r : TxRef) (o : ObsRow) :
    (Store.localObs relayPM s c r o).1.catalog = s.catalog := by
  rw [Store.localObs]
  split
  · rfl
  · exact Store.catalog_modify s r fun tx => StoreTx.addObs_toTxRow tx o.toObs

@[simp] theorem collectHops_packets (relayPM : Option PrefixMap) (c : Chunk) (o : ObsRow) :
    (Store.collectHops relayPM c o).packets = c.packets := by
  unfold Store.collectHops
  split
  · rfl
  · split
    · split <;> rfl
    · rfl

@[simp] theorem collectHops_byHash (relayPM : Option PrefixMap) (c : Chunk) (o : ObsRow) :
    (Store.collectHops relayPM c o).byHash = c.byHash := by
  unfold Store.collectHops
  split
  · rfl
  · split
    · split <;> rfl
    · rfl

@[simp] theorem localObs_packets (relayPM : Option PrefixMap) (s : Store) (c : Chunk) (r : TxRef)
    (o : ObsRow) : (Store.localObs relayPM s c r o).2.packets = c.packets := by
  rw [Store.localObs]
  split
  · rfl
  · exact collectHops_packets relayPM c o

@[simp] theorem localObs_byHash (relayPM : Option PrefixMap) (s : Store) (c : Chunk) (r : TxRef)
    (o : ObsRow) : (Store.localObs relayPM s c r o).2.byHash = c.byHash := by
  rw [Store.localObs]
  split
  · rfl
  · exact collectHops_byHash relayPM c o

/-- While the rows are read: every transmission of the chunk has a hash of its own. -/
structure Reading (s : Store) (c : Chunk) : Prop where
  wf : s.catalog.WF c.packets
  byHash : ∀ h r, c.byHash h = some r → r ∈ c.packets ∧ (s.row r).hash = h
  known : ∀ r ∈ c.packets, (c.byHash (s.row r).hash).isSome
  hashes : (c.packets.map fun r => (s.row r).hash).Nodup

theorem Reading.congr {s t : Store} {c d : Chunk} (h : Reading s c) (hcat : t.catalog = s.catalog)
    (hpackets : d.packets = c.packets) (hhash : d.byHash = c.byHash) : Reading t d := by
  have hrow : t.row = s.row := Store.row_eq_of_catalog hcat
  refine ⟨?_, ?_, ?_, ?_⟩
  · rw [hcat, hpackets]
    exact h.wf
  · rw [hhash, hrow, hpackets]
    exact h.byHash
  · rw [hhash, hrow, hpackets]
    exact h.known
  · rw [hrow, hpackets]
    exact h.hashes

theorem Reading.newLocalTx {s : Store} {c : Chunk} (h : Reading s c) {tx : TxRow}
    (hnew : c.byHash tx.hash = none) : Reading (s.newLocalTx c tx).1 (s.newLocalTx c tx).2 := by
  have hcat := Store.catalog_newLocalTx s c tx
  have hrow : (s.newLocalTx c tx).1.row = Function.update s.row s.next tx := congrArg Catalog.row hcat
  have hold : ∀ r ∈ c.packets, (s.newLocalTx c tx).1.row r = s.row r := by
    intro r hr
    rw [hrow]
    exact Catalog.update_row_of_mem h.wf tx (List.mem_append_left _ hr)
  have hself : (s.newLocalTx c tx).1.row s.next = tx := by
    rw [hrow, Function.update_self]
  have hmap : (c.packets.map fun r => ((s.newLocalTx c tx).1.row r).hash) =
      c.packets.map fun r => (s.row r).hash :=
    List.map_congr_left fun r hr => by rw [hold r hr]
  refine ⟨?_, ?_, ?_, ?_⟩
  · rw [hcat]
    exact h.wf.alloc tx
  · intro k r hr
    rcases set_eq_some.mp hr with ⟨rfl, rfl⟩ | ⟨_, hr⟩
    · exact ⟨List.mem_append_right _ (List.mem_singleton_self _), by rw [hself]⟩
    · obtain ⟨hm, hh⟩ := h.byHash k r hr
      exact ⟨List.mem_append_left _ hm, by rw [hold r hm, hh]⟩
  · intro r hr
    change (set c.byHash tx.hash s.next _).isSome
    rw [set_apply]
    rcases List.mem_append.mp hr with hr | hr
    · rw [hold r hr]
      split
      · rfl
      · exact h.known r hr
    · rw [List.mem_singleton.mp hr, hself, if_pos rfl]
      rfl
  · change ((c.packets ++ [s.next]).map fun r => ((s.newLocalTx c tx).1.row r).hash).Nodup
    rw [List.map_append, hmap, List.map_singleton, hself, List.nodup_append]
    refine ⟨h.hashes, List.nodup_singleton _, ?_⟩
    rintro a ha b hb rfl
    rw [List.mem_singleton] at hb
    subst hb
    obtain ⟨r, hr, hh⟩ := List.mem_map.mp ha
    have hknown := h.known r hr
    rw [hh, hnew] at hknown
    cases hknown

theorem Reading.readRow {acc : Store × Chunk} (h : Reading acc.1 acc.2)
    (relayPM : Option PrefixMap) (row : ScanRow) :
    Reading (Store.readRow relayPM acc row).1 (Store.readRow relayPM acc row).2 := by
  have hfound : Reading (acc.1.findOrNewLocal acc.2 row.tx).1.1 (acc.1.findOrNewLocal acc.2 row.tx).1.2 := by
    rw [Store.findOrNewLocal]
    split
    · exact h
    · next hnew => exact h.newLocalTx hnew
  unfold Store.readRow
  dsimp only
  split
  · exact hfound
  · exact hfound.congr (catalog_localObs _ _ _ _ _) (localObs_packets _ _ _ _ _) (localObs_byHash _ _ _ _ _)

theorem Reading.readRows {s : Store} {c : Chunk} (h : Reading s c) (relayPM : Option PrefixMap)
    (rows : List ScanRow) : Reading (rows.foldl (Store.readRow relayPM) (s, c)).1
      (rows.foldl (Store.readRow relayPM) (s, c)).2 :=
  foldl_invariant (I := fun acc : Store × Chunk => Reading acc.1 acc.2) h
    fun _ row _ hacc => hacc.readRow relayPM row

structure Catalog.Extends (c d : Catalog) : Prop where
  same : d = { c with row := d.row, next := d.next }
  next : c.next ≤ d.next
  row : ∀ r, r < c.next → d.row r = c.row r

theorem Catalog.Extends.refl (c : Catalog) : c.Extends c := ⟨rfl, Nat.le_refl _, fun _ _ => rfl⟩

theorem Catalog.Extends.alloc {c d : Catalog} (h : c.Extends d) (tx : TxRow) : c.Extends (d.alloc tx) := by
  refine ⟨?_, h.next.trans (Nat.le_succ _), fun r hr => ?_⟩
  · have hsame := h.same
    rw [Catalog.alloc]
    rw [hsame]
  · have hne : r ≠ d.next := Nat.ne_of_lt (Nat.lt_of_lt_of_le hr h.next)
    change Function.update d.row d.next tx r = _
    rw [Function.update_of_ne hne, h.row r hr]

theorem Catalog.WF.extends {c d : Catalog} {loc : List TxRef} (h : c.WF loc) (hext : c.Extends d) : d.WF loc := by
  have hpackets : d.packets = c.packets := by rw [hext.same]
  have hhash : d.byHash = c.byHash := by rw [hext.same]
  have hid : d.byTxID = c.byTxID := by rw [hext.same]
  have htypes : d.byPayloadType = c.byPayloadType := by rw [hext.same]
  have hrow : ∀ r ∈ loc ++ c.packets, d.row r = c.row r := fun r hr => hext.row r (h.fresh r hr)
  refine ⟨?_, ?_, ?_, ?_, ?_⟩
  · rw [hpackets]
    exact fun r hr => Nat.lt_of_lt_of_le (h.fresh r hr) hext.next
  · rw [hpackets]
    exact h.nodup
  · rw [hpackets, hhash]
    intro k r hr
    obtain ⟨hm, hh⟩ := h.hash k r hr
    exact ⟨hm, by rw [hrow r hm, hh]⟩
  · rw [hpackets, hid]
    intro i r hr
    obtain ⟨hm, hh⟩ := h.id i r hr
    exact ⟨hm, by rw [hrow r hm, hh]⟩
  · rw [hpackets, htypes]
    intro pt r hr
    obtain ⟨hm, hh⟩ := h.type pt r hr
    exact ⟨hm, by rw [hrow r hm, hh]⟩

theorem extends_readRow {c : Catalog} {acc : Store × Chunk} (h : c.Extends acc.1.catalog)
    (relayPM : Option PrefixMap) (row : ScanRow) : c.Extends (Store.readRow relayPM acc row).1.catalog := by
  have hfound : c.Extends (acc.1.findOrNewLocal acc.2 row.tx).1.1.catalog := by
    rw [Store.findOrNewLocal]
    split
    · exact h
    · rw [Store.catalog_newLocalTx]
      exact h.alloc row.tx
  unfold Store.readRow
  dsimp only
  split
  · exact hfound
  · rw [catalog_localObs]
    exact hfound

theorem extends_readChunk (relayPM : Option PrefixMap) (rows : List ScanRow) (s : Store) :
    s.catalog.Extends (s.readChunk relayPM rows).1.catalog := by
  have hrows : s.catalog.Extends (rows.foldl (Store.readRow relayPM) (s, Chunk.empty)).1.catalog :=
    foldl_invariant (I := fun acc : Store × Chunk => s.catalog.Extends acc.1.catalog)
      (Catalog.Extends.refl _) fun _ row _ hacc => extends_readRow hacc relayPM row
  rw [Store.readChunk]
  dsimp only
  rw [Store.catalog_pickAll]
  exact hrows

structure Chunk.WF (c : Chunk) (s : Store) : Prop where
  pending : c.pending <:+ c.packets
  hashes : (c.packets.map fun r => (s.row r).hash).Nodup

structure State.WF (st : State) : Prop where
  catalog : st.store.catalog.WF st.locals
  chunk : ∀ c ∈ st.chunk, c.WF st.store

namespace State

theorem wf_new (use : Bool) : (new use).WF := by
  refine ⟨⟨?_, ?_, ?_, ?_, ?_⟩, ?_⟩
  · intro r hr
    cases hr
  · exact List.nodup_nil
  · intro h r hr
    cases hr
  · intro i r hr
    cases hr
  · intro pt r hr
    cases hr
  · intro c hc
    cases hc

theorem locals_of_none {st : State} (h : st.chunk = none) : st.locals = [] := by
  rw [locals]
  rw [h]

theorem locals_of_some {st : State} {c : Chunk} (h : st.chunk = some c) : st.locals = c.packets := by
  rw [locals]
  rw [h]

theorem WF.of_store {st : State} (h : st.WF) {s : Store} (hcat : s.catalog.WF st.locals)
    (hrow : ∀ r ∈ st.locals, s.row r = st.store.row r) : WF { st with store := s } := by
  refine ⟨hcat, fun c hc => ?_⟩
  have hc' := h.chunk c hc
  refine ⟨hc'.pending, ?_⟩
  have hmap : (c.packets.map fun r => (s.row r).hash) = c.packets.map fun r => (st.store.row r).hash :=
    List.map_congr_left fun r hr => by rw [hrow r (locals_of_some hc ▸ hr)]
  rw [hmap]
  exact hc'.hashes

theorem WF.of_catalog_eq {st : State} (h : st.WF) {s : Store} (hcat : s.catalog = st.store.catalog) :
    WF { st with store := s } :=
  h.of_store (hcat ▸ h.catalog) fun _ _ => by rw [Store.row_eq_of_catalog hcat]

theorem findOrInsert_rows {c : Catalog} {loc : List TxRef} (h : c.WF loc) (rows : List ScanRow) :
    (rows.foldl (fun c row => c.findOrInsert row.tx) c).WF loc ∧
      ∀ r ∈ loc, (rows.foldl (fun c row => c.findOrInsert row.tx) c).row r = c.row r := by
  induction rows generalizing c with
  | nil => exact ⟨h, fun _ _ => rfl⟩
  | cons row rows ih =>
      obtain ⟨hwf, hrow⟩ := ih (h.findOrInsert row.tx)
      refine ⟨hwf, fun r hr => (hrow r hr).trans ?_⟩
      rw [Catalog.findOrInsert]
      split
      · exact Catalog.update_row_of_mem h row.tx (List.mem_append_left _ hr)
      · rfl

theorem WF.of_rows {st : State} (h : st.WF) {s : Store} {rows : List ScanRow}
    (hcat : s.catalog = rows.foldl (fun c row => c.findOrInsert row.tx) st.store.catalog) :
    WF { st with store := s } := by
  obtain ⟨hwf, hrow⟩ := findOrInsert_rows h.catalog rows
  refine h.of_store (hcat ▸ hwf) fun r hr => ?_
  exact (congrFun (congrArg Catalog.row hcat) r).trans (hrow r hr)

theorem WF.readChunk {st : State} (h : st.WF) (hnone : st.chunk = none) (relayPM : Option PrefixMap)
    (rows : List ScanRow) : WF (st.step (.readChunk relayPM rows)) := by
  have hstart : Reading st.store Chunk.empty := by
    refine ⟨?_, ?_, ?_, List.nodup_nil⟩
    · have := h.catalog
      rwa [locals_of_none hnone] at this
    · intro k r hr
      cases hr
    · intro r hr
      cases hr
  have hread := hstart.readRows relayPM rows
  have hcat := Store.catalog_pickAll (rows.foldl (Store.readRow relayPM) (st.store, Chunk.empty)).1
    (rows.foldl (Store.readRow relayPM) (st.store, Chunk.empty)).2.packets
  have hdone := hread.congr hcat rfl rfl
  change WF ⟨(st.store.readChunk relayPM rows).1, (st.store.readChunk relayPM rows).2⟩
  rw [Store.readChunk]
  dsimp only
  split
  · next hempty =>
      refine ⟨?_, fun c hc => by cases hc⟩
      exact hempty ▸ hdone.wf
  · refine ⟨hdone.wf, ?_⟩
    rintro c ⟨⟩
    exact ⟨List.suffix_refl _, hdone.hashes⟩

theorem WF.mergeBatch {st : State} (h : st.WF) : WF (st.step .mergeBatch) := by
  unfold step
  dsimp only
  split
  · next c hc =>
      have hcat := Store.catalog_mergeBatch st.store c
      have hloc := locals_of_some hc
      have hbatch : c.pending.take Store.mergeBatchSize ⊆ c.packets :=
        List.Subset.trans (List.take_subset _ _) (h.chunk c hc).pending.subset
      refine ⟨?_, ?_⟩
      · change Catalog.WF (st.store.mergeBatch c).1.catalog c.packets
        rw [hcat]
        exact (hloc ▸ h.catalog).mergeBatch hbatch
      · rintro d ⟨⟩
        refine ⟨(List.drop_suffix _ _).trans (h.chunk c hc).pending, ?_⟩
        have hrow : (st.store.mergeBatch c).1.row = st.store.row := congrArg Catalog.row hcat
        change (c.packets.map fun r => ((st.store.mergeBatch c).1.row r).hash).Nodup
        rw [hrow]
        exact (h.chunk c hc).hashes
  · exact h

theorem WF.publish {st : State} (h : st.WF) : WF (st.step .publish) := by
  unfold step
  dsimp only
  split
  · next c hc =>
      refine ⟨?_, fun d hd => by cases hd⟩
      have := h.catalog
      rw [locals_of_some hc] at this
      exact this.publish
  · exact h

theorem WF.evict {st : State} (h : st.WF) (ret : Retention) (rpBatch : Int → List String) :
    WF (st.step (.evict ret rpBatch)) := by
  change WF { st with store := st.store.evictStaleInternal ret rpBatch }
  rw [Store.evictStaleInternal]
  split
  · exact h
  · split
    · exact h
    · have hcat := Store.catalog_evict st.store rpBatch (st.store.cutoffIdx ret)
      refine h.of_store (hcat ▸ h.catalog.evict _) fun r _ => ?_
      exact congrFun (congrArg Catalog.row hcat) r

theorem WF.step {st : State} (h : st.WF) {a : Action} (ha : st.Enabled a) : (st.step a).WF := by
  cases a with
  | scanAndMergeChunk relayPM rows => exact h.of_rows (Store.catalog_scanAndMergeChunk relayPM rows st.store)
  | finishLoad env hotCutoff =>
      have hcat := Store.catalog_finishLoad env hotCutoff st.store
      exact h.of_store (hcat ▸ h.catalog.sortPackets) fun r _ => congrFun (congrArg Catalog.row hcat) r
  | ingestNewFromDB env sinceID limit rows =>
      exact h.of_rows (Store.catalog_ingestNewFromDB env sinceID limit rows st.store)
  | ingestNewObservations env limit rows =>
      exact h.of_catalog_eq (Store.catalog_ingestNewObservations env limit rows st.store)
  | readChunk relayPM rows => exact h.readChunk ha.2 relayPM rows
  | mergeBatch => exact h.mergeBatch
  | publish => exact h.publish
  | rebuild => exact h.of_catalog_eq (Store.catalog_rebuild st.store)
  | buildDistanceIndex env => exact h.of_catalog_eq (Store.catalog_buildDistanceIndex env st.store)
  | evict ret rpBatch => exact h.evict ret rpBatch

end State

theorem Reachable.wf {use : Bool} {st : State} (h : Reachable use st) : st.WF :=
  h.invariant (fun _ hst => hst ▸ State.wf_new use) fun _ _ hwf ha => hwf.step ha

end MeshcoreAnalyzer.PacketStore

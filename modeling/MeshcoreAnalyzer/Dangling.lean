import MeshcoreAnalyzer.Ledger
import MeshcoreAnalyzer.Relays
import MeshcoreAnalyzer.Subpaths

namespace MeshcoreAnalyzer.PacketStore.Dangling

open Maps Runs Store

structure Filed (l : Ledger) : Prop where
  obsID : ∀ i o, l.byObsID i = some o → o.id = i
  observer : ∀ x o, o ∈ bucket l.byObserver x → o.observerID = x ∧ x ≠ ""

theorem Filed.attach {l : Ledger} (h : Filed l) (r : TxRef) (obs : StoreObs) : Filed (l.attach r obs) := by
  refine ⟨fun i o ho => ?_, fun x o ho => ?_⟩
  · rcases set_eq_some.mp ho with ⟨rfl, rfl⟩ | ⟨_, ho⟩
    · rfl
    · exact h.obsID i o ho
  · replace ho : o ∈ bucket (if obs.observerID ≠ "" then push l.byObserver obs.observerID obs
      else l.byObserver) x := ho
    split at ho
    · next hne =>
        rcases mem_bucket_push.mp ho with ho | ⟨rfl, rfl⟩
        · exact h.observer x o ho
        · exact ⟨rfl, hne⟩
    · exact h.observer x o ho

theorem foldl_set_id {obs : List StoreObs} {i : Int} {o : StoreObs}
    (h : obs.foldl (fun m o => set m o.id o) Maps.empty i = some o) : o.id = i := by
  have hinv : ∀ k p, obs.foldl (fun m o => set m o.id o) (Maps.empty : GoMap Int StoreObs) k = some p →
      p.id = k := by
    refine foldl_invariant (I := fun m : GoMap Int StoreObs => ∀ k p, m k = some p → p.id = k) ?_ ?_
    · intro k p hp
      cases hp
    · intro m o _ hm k p hp
      rcases set_eq_some.mp hp with ⟨rfl, rfl⟩ | ⟨_, hp⟩
      · rfl
      · exact hm k p hp
  exact hinv i o h

theorem Filed.mergeObs {l : Ledger} (h : Filed l) (obs : List StoreObs) : Filed (l.mergeObs obs) := by
  refine ⟨fun i o ho => ?_, ?_⟩
  · replace ho : (l.byObsID i <|> obs.foldl (fun m o => set m o.id o) Maps.empty i) = some o := ho
    cases hi : l.byObsID i with
    | none =>
        rw [hi] at ho
        exact foldl_set_id ho
    | some p =>
        rw [hi] at ho
        cases ho
        exact h.obsID i o hi
  · refine foldl_invariant (I := fun m : GoMap String (List StoreObs) =>
      ∀ x o, o ∈ bucket m x → o.observerID = x ∧ x ≠ "") h.observer ?_
    intro m o ho hm x p hp
    have hne : o.observerID ≠ "" := by
      have := (List.mem_filter.mp ho).2
      simp only [ne_eq, Bool.and_eq_true, decide_eq_true_eq] at this
      exact this.1
    rcases mem_bucket_push.mp hp with hp | ⟨rfl, rfl⟩
    · exact hm x p hp
    · exact ⟨rfl, hne⟩

/-- A transmission is listed under a key at most as often as its best path has it,
and nothing is counted that is not listed. -/
structure Bounded (ix : SubpathIndex) (n : Int) (ip : TxRef → List String) : Prop where
  listed : ∀ k r, (bucket ix.spTxIndex k).count r ≤ occurrences (ip r) k
  counted : ∀ k, count ix.spIndex k ≤ (bucket ix.spTxIndex k).length
  positive : Positive ix.spIndex

theorem Bounded.add {ix : SubpathIndex} {n m : Int} {ip : TxRef → List String} (h : Bounded ix n ip)
    {r : TxRef} (hnil : ip r = []) (hops : List String) :
    Bounded (ix.addTxToSubpathIndexFull hops r) m (Function.update ip r hops) := by
  refine ⟨fun k q => ?_, fun k => ?_, h.positive.foldl_incr _⟩
  · have hq := h.listed k q
    rw [SubpathIndex.count_spTxIndex_add]
    by_cases hqr : q = r
    · subst hqr
      rw [hnil, occurrences_nil] at hq
      simp
      omega
    · simpa [hqr] using hq
  · have hk := h.counted k
    have hlen : (bucket (ix.addTxToSubpathIndexFull hops r).spTxIndex k).length =
        (bucket ix.spTxIndex k).length + occurrences hops k := by
      change (bucket (pushAll ix.spTxIndex (subpathKeys hops) r) k).length = _
      rw [bucket_pushAll, List.length_append, List.length_replicate]
      rfl
    rw [SubpathIndex.count_spIndex_add, hlen]
    omega

theorem Bounded.remove {ix : SubpathIndex} {n m : Int} {ip : TxRef → List String} (h : Bounded ix n ip)
    (r : TxRef) : Bounded (ix.removeTxFromSubpathIndexFull (ip r) r) m (Function.update ip r []) := by
  refine ⟨fun k q => ?_, fun k => ?_, h.positive.foldl_decr _⟩
  · have hq := h.listed k q
    rw [SubpathIndex.count_spTxIndex_remove]
    by_cases hqr : q = r
    · subst hqr
      simp
      omega
    · simpa [hqr] using hq
  · have hk := h.counted k
    have hlen := length_bucket_removeAll (· == r) ix.spTxIndex (subpathKeys (ip r)) k
    replace hlen : (bucket ix.spTxIndex k).length ≤
        (bucket (ix.removeTxFromSubpathIndexFull (ip r) r).spTxIndex k).length + occurrences (ip r) k := hlen
    rw [SubpathIndex.count_spIndex_remove h.positive]
    omega

theorem Bounded.tracks : Tracks (fun _ => True) Bounded := by
  constructor
  · intro ix n ip r hops _ hnil h
    exact h.add hnil hops
  · intro ix n ip r _ h
    rw [SubpathIndex.ite_removeTx]
    exact h.remove r

theorem Bounded.empty (n : Int) (ip : TxRef → List String) : Bounded SubpathIndex.empty n ip :=
  ⟨fun k r => (by simp [SubpathIndex.empty]), fun k => (by simp [SubpathIndex.empty]), positive_empty⟩

theorem Bounded.repath {ix : SubpathIndex} {n m : Int} {ip ip' : TxRef → List String}
    (h : Bounded ix n ip) (hsame : ∀ r, ip r ≠ [] → ip' r = ip r) : Bounded ix m ip' := by
  refine ⟨fun k r => ?_, h.counted, h.positive⟩
  have hr := h.listed k r
  by_cases hnil : ip r = []
  · rw [hnil, occurrences_nil] at hr
    omega
  · rwa [hsame r hnil]

structure Kept (s : Store) : Prop where
  filed : Filed s.ledger
  mirrored : s.resolved.Mirrored
  subpaths : Lists Bounded s
  blank : ∀ r, s.next ≤ r → (s.heap r).pathJSON = ""

section Steps

variable {s : Store} {loc : List TxRef}

theorem Kept.congr {t : Store} (h : Kept s) (hfiled : Filed t.ledger) (hmirrored : t.resolved.Mirrored)
    (hview : t.pathView = s.pathView) (hnext : s.next ≤ t.next) : Kept t := by
  refine ⟨hfiled, hmirrored, Lists.congr hview h.subpaths, fun r hr => ?_⟩
  rw [pathJSON_of_pathView hview]
  exact h.blank r (hnext.trans hr)

theorem next_of_catalog {t : Store} (h : t.catalog = s.catalog) : t.next = s.next :=
  congrArg Catalog.next h

theorem resolved_of_relays {t : Store} (h : t.relays = s.relays) : t.resolved = s.resolved :=
  congrArg Relays.resolved h

theorem Kept.pathView_insertTx (h : Kept s) (tx : TxRow) : (s.insertTx tx).pathView = s.pathView := by
  have hpath : (fun q => ((s.insertTx tx).heap q).pathJSON) = fun q => (s.heap q).pathJSON := by
    funext q
    rw [pathJSON_insertTx]
    split
    · next hq => rw [hq, h.blank s.next (Nat.le_refl _)]
    · rfl
  exact pathView_of_heap hpath rfl

theorem Kept.insertTx (h : Kept s) (tx : TxRow) : Kept (s.insertTx tx) := by
  refine h.congr ?_ h.mirrored (h.pathView_insertTx tx) (Nat.le_succ _)
  rw [ledger_insertTx]
  exact ⟨h.filed.obsID, h.filed.observer⟩

theorem Kept.attachObs (h : Kept s) (r : TxRef) (obs : StoreObs) : Kept (s.attachObs r obs) := by
  refine h.congr ?_ h.mirrored (pathView_attachObs s r obs) (Nat.le_refl _)
  rw [ledger_attachObs]
  exact h.filed.attach r obs

theorem Kept.indexResolvedPathHops (h : Kept s) (r : TxRef) (pks : List String) :
    Kept (s.indexResolvedPathHops r pks) := by
  refine h.congr ?_ ?_ (pathView_indexResolvedPathHops s r pks) ?_
  · rw [ledger_indexResolvedPathHops]
    exact h.filed
  · rw [show (s.indexResolvedPathHops r pks).resolved = _ from
      congrArg Relays.resolved (relays_indexResolvedPathHops s r pks)]
    exact h.mirrored.addToResolvedPubkeyIndex _ pks
  · rw [next_of_catalog (catalog_indexResolvedPathHops s r pks)]

theorem Kept.indexLiveHops (h : Kept s) (env : Env) (r : TxRef) (o : ObsRow) :
    Kept (s.indexLiveHops env r o) := by
  rw [Store.indexLiveHops]
  split
  · split
    · exact h.indexResolvedPathHops r _
    · exact h
  · exact h

theorem Kept.addAllToByNode (h : Kept s) (r : TxRef) (pks : List String) : Kept (s.addAllToByNode r pks) :=
  h.congr h.filed h.mirrored rfl (Nat.le_refl _)

theorem Kept.indexLoadedHops (h : Kept s) (relayPM : Option PrefixMap) (r : TxRef) (o : ObsRow) :
    Kept (s.indexLoadedHops relayPM r o) := by
  unfold Store.indexLoadedHops
  split
  · exact h.indexResolvedPathHops r _
  · split
    · split
      · exact h.addAllToByNode r _
      · exact h
    · exact h

theorem Kept.scanAndMergeChunk (h : Kept s) (hwf : s.catalog.WF loc) (relayPM : Option PrefixMap)
    (rows : List ScanRow) : Kept (s.scanAndMergeChunk relayPM rows) :=
  mergeRows_invariant (catalog_indexLoadedHops relayPM) (fun _ tx _ _ ht => ht.insertTx tx)
    (fun _ r o _ _ _ ht => (ht.indexLoadedHops relayPM r o).attachObs r o.toObs) hwf h rows

theorem blank_of_notMem {t : Store} (hwf : s.catalog.WF loc) (h : ∀ r, s.next ≤ r → (s.heap r).pathJSON = "")
    (hnext : t.next = s.next) {rs : List TxRef} (hrs : ∀ r ∈ rs, r ∈ loc ++ s.packets)
    (ht : ∀ r, r ∉ rs → (t.heap r).pathJSON = (s.heap r).pathJSON) :
    ∀ r, t.next ≤ r → (t.heap r).pathJSON = "" := by
  intro r hr
  rw [hnext] at hr
  have hnot : r ∉ rs := fun hm => absurd (hwf.fresh r (hrs r hm)) (Nat.not_lt.mpr hr)
  rw [ht r hnot, h r hr]

theorem Kept.finishIngest (h : Kept s) (hwf : s.catalog.WF loc) (env : Env) {txs : List (Int × TxRef)}
    (hb : Broadcast s txs) : Kept (s.finishIngest env txs) := by
  have hmem : ∀ r ∈ txs.map Prod.snd, r ∈ loc ++ s.packets := by
    intro r hr
    obtain ⟨b, hbm, rfl⟩ := List.mem_map.mp hr
    exact List.mem_append_right _ (hb.mem b hbm)
  refine ⟨?_, ?_, ?_, ?_⟩
  · rw [ledger_finishIngest]
    exact h.filed
  · rw [resolved_of_relays (relays_finishIngest env s txs)]
    exact h.mirrored
  · exact Bounded.tracks.finishIngest h.subpaths env hb fun _ _ => trivial
  · exact blank_of_notMem hwf h.blank (next_of_catalog (catalog_finishIngest env s txs)) hmem
      fun r hr => pathJSON_finishIngest_of_notMem env s hr

theorem Kept.ingestNewFromDB (h : Kept s) (hwf : s.catalog.WF loc) (env : Env) (sinceID limit : Int)
    (rows : List ScanRow) : Kept (s.ingestNewFromDB env sinceID limit rows).1 := by
  rw [Store.ingestNewFromDB]
  dsimp only
  refine Kept.finishIngest ?_ (?_ : Catalog.WF _ loc) env (Broadcast.ingestRows hwf env _)
  · rw [ingestRows_fst]
    exact mergeRows_invariant (catalog_indexLiveHops env) (fun _ tx _ _ ht => ht.insertTx tx)
      (fun _ r o _ _ _ ht => (ht.indexLiveHops env r o).attachObs r o.toObs) hwf h _
  · rw [ingestRows_fst]
    exact wf_mergeRows (catalog_indexLiveHops env) hwf _

theorem Kept.finishObservations (h : Kept s) (hwf : s.catalog.WF loc) (env : Env)
    {txs : List (Int × TxRef)} (hu : Updated s txs) : Kept (s.finishObservations env txs) := by
  refine ⟨?_, ?_, ?_, ?_⟩
  · rw [ledger_finishObservations]
    exact h.filed
  · rw [resolved_of_relays (relays_finishObservations env s txs)]
    exact h.mirrored
  · exact Bounded.tracks.finishObservations h.subpaths env (hu.nodup hwf) fun _ _ => trivial
  · exact blank_of_notMem hwf h.blank (next_of_catalog (catalog_finishObservations env s txs)) (hu.mem hwf)
      fun r hr => pathJSON_finishObservations_of_notMem env s hr

theorem Kept.ingestNewObservations (h : Kept s) (hwf : s.catalog.WF loc) (env : Env) (limit : Int)
    (rows : List ObsRow) : Kept (s.ingestNewObservations env limit rows) := by
  unfold Store.ingestNewObservations
  dsimp only
  refine Kept.finishObservations ?_ (?_ : Catalog.WF _ loc) env (Updated.lateRows s env _)
  · exact lateRows_invariant (fun _ r o _ _ _ ht => (ht.indexLiveHops env r o).attachObs r o.toObs) hwf h _
  · rw [catalog_lateRows]
    exact hwf

theorem Kept.buildSubpathIndex (hfiled : Filed s.ledger) (hmirrored : s.resolved.Mirrored)
    (hblank : ∀ r, s.next ≤ r → (s.heap r).pathJSON = "") (hnd : s.packets.Nodup) :
    Kept s.buildSubpathIndex := by
  refine ⟨?_, hmirrored, ?_, fun r hr => ?_⟩
  · rw [ledger_buildSubpathIndex]
    exact hfiled
  · have hbuilt := Bounded.tracks.foldl_add hnd (fun _ _ => trivial)
      (Bounded.empty 0 fun q => if q ∈ s.packets then [] else s.path q)
    rw [Int.zero_add] at hbuilt
    rw [Lists]
    rw [path_buildSubpathIndex]
    exact hbuilt
  · exact (pathJSON_cachePaths s s.packets r).trans (hblank r hr)

theorem Kept.buildPathHopIndex (h : Kept s) : Kept s.buildPathHopIndex := by
  refine h.congr ?_ h.mirrored (pathView_buildPathHopIndex s) (Nat.le_refl _)
  rw [ledger_buildPathHopIndex]
  exact h.filed

theorem Kept.buildDistanceIndex (h : Kept s) (env : Env) : Kept (s.buildDistanceIndex env) := by
  refine h.congr ?_ ?_ (pathView_buildDistanceIndex env s) ?_
  · rw [ledger_buildDistanceIndex]
    exact h.filed
  · rw [resolved_of_relays (relays_buildDistanceIndex env s)]
    exact h.mirrored
  · rw [next_of_catalog (catalog_buildDistanceIndex env s)]

theorem Kept.rebuild (h : Kept s) (hwf : s.catalog.WF loc) : Kept s.rebuild :=
  (Kept.buildSubpathIndex h.filed h.mirrored h.blank (List.nodup_append.mp hwf.nodup).2.1).buildPathHopIndex

theorem Kept.finishLoad (h : Kept s) (hwf : s.catalog.WF loc) (env : Env) (hotCutoff : Option String) :
    Kept (s.finishLoad env hotCutoff) := by
  have hresolved : s.pickAndIndexAll.resolved = s.resolved :=
    foldl_view (v := Store.resolved) fun _ _ _ => rfl
  have hblank : ∀ r, s.next ≤ r →
      (s.pickAndIndexAll.heap r).pathJSON = "" := by
    intro r hr
    have hnot : r ∉ s.packets := fun hm =>
      absurd (hwf.fresh r (List.mem_append_right _ hm)) (Nat.not_lt.mpr hr)
    rw [heap_pickAndIndexAll, pathJSON_pickAll_of_notMem s hnot, h.blank r hr]
  have hnd : s.pickAndIndexAll.sortPackets.packets.Nodup := by
    refine (List.perm_insertionSort _ s.pickAndIndexAll.packets).nodup_iff.mpr ?_
    rw [packets_of_catalog (catalog_pickAndIndexAll s)]
    exact (List.nodup_append.mp hwf.nodup).2.1
  have hsorted : Kept s.pickAndIndexAll.sortPackets.buildSubpathIndex := by
    refine Kept.buildSubpathIndex ?_ ?_ ?_ hnd
    · change Filed s.pickAndIndexAll.ledger
      rw [ledger_pickAndIndexAll]
      exact h.filed
    · change s.pickAndIndexAll.resolved.Mirrored
      rw [hresolved]
      exact h.mirrored
    · change ∀ r, s.pickAndIndexAll.next ≤ r → _
      rw [next_of_catalog (catalog_pickAndIndexAll s)]
      exact hblank
  have hbuilt := hsorted.buildPathHopIndex.buildDistanceIndex env
  exact hbuilt.congr hbuilt.filed hbuilt.mirrored rfl (Nat.le_refl _)

/-- The read phase touches nothing but transmissions that it makes itself. -/
structure Apart (s t : Store) (c : Chunk) : Prop where
  kept : Kept t
  view : t.pathView = s.pathView
  new : ∀ r ∈ c.packets, s.next ≤ r
  next : s.next ≤ t.next

theorem Apart.readRow {acc : Store × Chunk} (h : Apart s acc.1 acc.2) (relayPM : Option PrefixMap)
    (row : ScanRow) : Apart s (Store.readRow relayPM acc row).1 (Store.readRow relayPM acc row).2 := by
  have hfound : Apart s (acc.1.findOrNewLocal acc.2 row.tx).1.1 (acc.1.findOrNewLocal acc.2 row.tx).1.2 := by
    rw [Store.findOrNewLocal]
    split
    · exact h
    · -- the object at the free pointer has no path before and after
      have hview : (acc.1.newLocalTx acc.2 row.tx).1.pathView = acc.1.pathView :=
        h.kept.pathView_insertTx row.tx
      refine ⟨h.kept.congr ?_ h.kept.mirrored hview (Nat.le_succ _), hview.trans h.view, ?_, ?_⟩
      · rw [ledger_newLocalTx]
        exact ⟨h.kept.filed.obsID, h.kept.filed.observer⟩
      · intro r hr
        rcases List.mem_append.mp hr with hr | hr
        · exact h.new r hr
        · rw [List.mem_singleton.mp hr]
          exact h.next
      · exact h.next.trans (Nat.le_succ _)
  unfold Store.readRow
  dsimp only
  split
  · exact hfound
  · next o _ =>
      rw [Store.localObs]
      split
      · exact hfound
      · have hview := pathView_of_heap (s := (acc.1.findOrNewLocal acc.2 row.tx).1.1)
          (t := (acc.1.findOrNewLocal acc.2 row.tx).1.1.modify (acc.1.findOrNewLocal acc.2 row.tx).2
            (·.addObs o.toObs)) (Maps.view_update StoreTx.pathJSON rfl) rfl
        refine ⟨hfound.kept.congr ?_ hfound.kept.mirrored hview (Nat.le_refl _), hview.trans hfound.view, ?_,
          hfound.next⟩
        · rw [ledger_addLocalObs]
          exact ⟨hfound.kept.filed.obsID, hfound.kept.filed.observer⟩
        · intro r hr
          rw [show (_ : Chunk).packets = _ from collectHops_packets relayPM _ o] at hr
          exact hfound.new r hr

theorem Apart.readRows {c : Chunk} {t : Store} (h : Apart s t c) (relayPM : Option PrefixMap)
    (rows : List ScanRow) : Apart s (rows.foldl (Store.readRow relayPM) (t, c)).1
      (rows.foldl (Store.readRow relayPM) (t, c)).2 :=
  foldl_invariant (I := fun acc : Store × Chunk => Apart s acc.1 acc.2) h
    fun _ row _ hacc => hacc.readRow relayPM row

theorem Apart.pickAll {t : Store} {c : Chunk} (h : Apart s t c) (hwf : t.catalog.WF c.packets)
    (hblank : ∀ r, s.next ≤ r → (s.heap r).pathJSON = "") : Kept (c.packets.foldl pickBest t) := by
  refine ⟨?_, ?_, ?_, ?_⟩
  · rw [ledger_pickAll]
    exact h.kept.filed
  · rw [resolved_of_relays (relays_pickAll t c.packets)]
    exact h.kept.mirrored
  · rw [Lists]
    rw [subpaths_pickAll]
    refine h.kept.subpaths.repath fun r hr => ?_
    apply path_pickAll_of_notMem
    intro hm
    have hnil : t.path r = [] := by
      rw [path_eq, pathJSON_of_pathView h.view, hblank r (h.new r hm)]
      rfl
    exact hr hnil
  · exact blank_of_notMem hwf h.kept.blank (next_of_catalog (catalog_pickAll t c.packets))
      (fun r hr => List.mem_append_left _ hr) fun r hr => pathJSON_pickAll_of_notMem t hr

theorem Kept.readChunk (h : Kept s) (hwf : s.catalog.WF []) (relayPM : Option PrefixMap)
    (rows : List ScanRow) : Kept (s.readChunk relayPM rows).1 := by
  have hstart : Apart s s Chunk.empty := ⟨h, rfl, fun r hr => (by cases hr), Nat.le_refl _⟩
  have hreading : Reading s Chunk.empty :=
    ⟨hwf, fun k r hr => (by cases hr), fun r hr => (by cases hr), List.nodup_nil⟩
  exact (hstart.readRows relayPM rows).pickAll (hreading.readRows relayPM rows).wf h.blank

theorem Kept.mergeTx (h : Kept s) (c : Chunk) (r : TxRef) : Kept (Store.mergeTx c s r) := by
  have hfiled : Kept { s with
      nodes := s.nodes.addAll (s.row r).hash r (s.row r).nodeKeys
      byPayloadType := pushPayloadType s.byPayloadType (s.row r) r
      advertPubkeys := trackAdvertPubkey s.advertPubkeys (s.row r) } :=
    h.congr h.filed h.mirrored rfl (Nat.le_refl _)
  exact (hfiled.indexResolvedPathHops r _).addAllToByNode r _

theorem Kept.mergeBatch (h : Kept s) (c : Chunk) : Kept (s.mergeBatch c).1 := by
  have hprimary : Kept (s.mergePrimary (c.pending.take mergeBatchSize)) :=
    h.congr (h.filed.mergeObs _) h.mirrored rfl (Nat.le_refl _)
  exact foldl_invariant (I := Kept) hprimary fun _ r _ ht => ht.mergeTx c r

theorem mirrored_evict (h : s.resolved.Mirrored) (rpBatch : Int → List String) (n : Nat) :
    (s.evict rpBatch n).resolved.Mirrored := by
  have hfold : ((s.packets.take n).foldl (fun ix r => ix.removeFromResolvedPubkeyIndex (s.row r).id)
      s.resolved).Mirrored :=
    foldl_invariant (I := ResolvedIndex.Mirrored) h fun _ r _ hix =>
      hix.removeFromResolvedPubkeyIndex (s.row r).id
  exact hfold.compact

theorem bounded_evict (h : Lists Bounded s) (hnd : s.packets.Nodup) (rpBatch : Int → List String) (n : Nat) :
    Bounded (s.evict rpBatch n).subpaths 0 fun q => if q ∈ s.packets.take n then [] else s.path q := by
  have hremoved := Bounded.tracks.remove_all ((List.take_sublist n s.packets).nodup hnd)
    (fun _ _ => trivial) h
  exact ⟨hremoved.listed, hremoved.counted, hremoved.positive⟩

theorem Kept.evict (h : Kept s) (hwf : s.catalog.WF loc) (rpBatch : Int → List String) (n : Nat) :
    Kept (s.evict rpBatch n) := by
  refine ⟨⟨fun i o ho => ?_, fun x o ho => ?_⟩, mirrored_evict h.mirrored rpBatch n, ?_, fun r hr => ?_⟩
  · exact h.filed.obsID i o ((foldl_delete_eq_some _ _ _).mp ho).2
  · replace ho : o ∈ bucket (filterKeys _ _ s.byObserver) x := ho
    rw [bucket_filterKeys] at ho
    split at ho
    · exact h.filed.observer x o (List.mem_of_mem_filter ho)
    · exact h.filed.observer x o ho
  · rw [Lists]
    rw [path_evict]
    refine (bounded_evict h.subpaths (List.nodup_append.mp hwf.nodup).2.1 rpBatch n).repath fun q hq => ?_
    split at hq
    · exact absurd rfl hq
    · next hnot => rw [if_neg hnot]
  · exact (pathJSON_cachePaths s _ r).trans (h.blank r hr)

end Steps

theorem kept_new (use : Bool) : Kept (Store.new use) :=
  ⟨⟨fun i o ho => (by cases ho), fun x o ho => (by cases ho)⟩, ResolvedIndex.Mirrored.empty use,
    Bounded.empty _ _, fun _ _ => rfl⟩

theorem Kept.evictStaleInternal {s : Store} {loc : List TxRef} (h : Kept s) (hwf : s.catalog.WF loc)
    (ret : Retention) (rpBatch : Int → List String) : Kept (s.evictStaleInternal ret rpBatch) := by
  rw [Store.evictStaleInternal]
  split
  · exact h
  · split
    · exact h
    · exact h.evict hwf rpBatch _

theorem Kept.step {st : State} (h : Kept st.store) (hwf : st.WF) {a : Action} (ha : st.Enabled a) :
    Kept (st.step a).store := by
  cases a with
  | scanAndMergeChunk relayPM rows => exact h.scanAndMergeChunk hwf.catalog relayPM rows
  | finishLoad env hotCutoff => exact h.finishLoad hwf.catalog env hotCutoff
  | ingestNewFromDB env sinceID limit rows => exact h.ingestNewFromDB hwf.catalog env sinceID limit rows
  | ingestNewObservations env limit rows => exact h.ingestNewObservations hwf.catalog env limit rows
  | readChunk relayPM rows =>
      have hcat := hwf.catalog
      rw [State.locals_of_none ha.2] at hcat
      exact h.readChunk hcat relayPM rows
  | mergeBatch =>
      unfold State.step
      dsimp only
      split
      · exact h.mergeBatch _
      · exact h
  | publish =>
      unfold State.step
      dsimp only
      split
      · exact h.congr ⟨h.filed.obsID, h.filed.observer⟩ h.mirrored rfl (Nat.le_refl _)
      · exact h
  | rebuild => exact h.rebuild hwf.catalog
  | buildDistanceIndex env => exact h.buildDistanceIndex env
  | evict ret rpBatch => exact h.evictStaleInternal hwf.catalog ret rpBatch

theorem kept_of_reachable {use : Bool} {st : State} (h : Reachable use st) : Kept st.store := by
  have hboth : st.WF ∧ Kept st.store := by
    refine Reach.invariant (I := fun st : State => st.WF ∧ Kept st.store) ?_ ?_ h
    · rintro st rfl
      exact ⟨State.wf_new use, kept_new use⟩
    · rintro st a ⟨hwf, hkept⟩ ha
      exact ⟨hwf.step ha, hkept.step hwf ha⟩
  exact hboth.2

/-- No index refers to one of the transmissions, or to an observation of one. A count
in `spIndex` refers to what `spTxIndex` lists under its key. -/
structure NoDangling (s : Store) (es : List TxRef) : Prop where
  byHash : ∀ r ∈ es, ∀ h, s.byHash h ≠ some r
  byTxID : ∀ r ∈ es, ∀ i, s.byTxID i ≠ some r
  byObsID : ∀ r ∈ es, ∀ o ∈ (s.heap r).observations, ∀ i, s.byObsID i ≠ some o
  byObserver : ∀ r ∈ es, ∀ o ∈ (s.heap r).observations, ∀ x, o ∉ bucket s.byObserver x
  byNode : ∀ r ∈ es, ∀ pk, r ∉ bucket s.nodes.byNode pk
  nodeHashes : ∀ r ∈ es, ∀ pk, (s.row r).hash ∉ s.nodes.hashes pk
  byPathHop : ∀ r ∈ es, ∀ k, r ∉ bucket s.byPathHop k
  byPayloadType : ∀ r ∈ es, ∀ pt, r ∉ bucket s.byPayloadType pt
  spTxIndex : ∀ r ∈ es, ∀ k, r ∉ bucket s.subpaths.spTxIndex k
  spIndex : ∀ k, count s.subpaths.spIndex k ≤ (bucket s.subpaths.spTxIndex k).length
  resolvedPubkeyIndex : ∀ r ∈ es, ∀ h, (s.row r).id ∉ bucket s.resolved.index h
  resolvedPubkeyReverse : ∀ r ∈ es, bucket s.resolved.reverse (s.row r).id = []
  distHops : ∀ r ∈ es, r ∉ s.distHops
  distPaths : ∀ r ∈ es, r ∉ s.distPaths

/-- The public keys that the transmissions are filed under are keys that their
decoded packets or the stored `resolved_path` name. -/
structure KeysDerived (s : Store) (rpBatch : Int → List String) (es : List TxRef) : Prop where
  byNode : ∀ r ∈ es, ∀ pk, r ∈ bucket s.nodes.byNode pk → ∃ e ∈ es, pk ∈ evictedKeys rpBatch (s.row e)
  nodeHashes : ∀ r ∈ es, ∀ pk, (s.row r).hash ∈ s.nodes.hashes pk →
    ∃ e ∈ es, (s.row e).hash = (s.row r).hash ∧ pk ∈ evictedKeys rpBatch (s.row e)

section Evicted

variable {s : Store} {loc : List TxRef} {rpBatch : Int → List String} {n : Nat}

theorem notMem_filterKeys_id {K : Type} {p : K → Bool} {m : GoMap K (List TxRef)} {k : K} {r : TxRef}
    (hr : r ∈ s.packets.take n) (hk : r ∈ bucket m k → p k = true) :
    r ∉ bucket (filterKeys p (fun t => (s.row t).id ∉ (s.packets.take n).map fun r => (s.row r).id) m) k := by
  rw [bucket_filterKeys]
  intro hm
  split at hm
  · have hid := (List.mem_filter.mp hm).2
    exact absurd (List.mem_map_of_mem hr) (of_decide_eq_true hid)
  · next hkey => exact hkey (hk hm)

theorem byNode_evict {pk : String} {r : TxRef} (hr : r ∈ s.packets.take n) :
    r ∉ bucket (s.evict rpBatch n).nodes.byNode pk ↔
      (r ∈ bucket s.nodes.byNode pk → ∃ e ∈ s.packets.take n, pk ∈ evictedKeys rpBatch (s.row e)) := by
  constructor
  · intro hnot hm
    by_contra hnone
    refine hnot ?_
    change r ∈ bucket (filterKeys _ _ s.nodes.byNode) pk
    rw [bucket_filterKeys, if_neg]
    · exact hm
    · rw [decide_eq_true_eq, List.mem_flatMap]
      exact hnone
  · intro hderived
    refine notMem_filterKeys_id hr fun hm => ?_
    rw [decide_eq_true_eq, List.mem_flatMap]
    exact hderived hm

theorem hashes_evict {pk h : String} : h ∈ (s.evict rpBatch n).nodes.hashes pk ↔
    h ∈ s.nodes.hashes pk ∧
      ∀ e ∈ s.packets.take n, pk ∈ evictedKeys rpBatch (s.row e) → h ≠ (s.row e).hash := by
  have hfold : ∀ (es : List TxRef) (m : GoMap String (Finset String)),
      h ∈ (es.foldl (fun m r => (evictedKeys rpBatch (s.row r)).foldl
        (fun m pk => NodeIndex.dropHash m (s.row r).hash pk) m) m pk).getD ∅ ↔
      h ∈ (m pk).getD ∅ ∧ ∀ e ∈ es, pk ∈ evictedKeys rpBatch (s.row e) → h ≠ (s.row e).hash := by
    intro es
    induction es with
    | nil => simp
    | cons e es ih =>
        intro m
        rw [List.foldl_cons, ih, NodeIndex.mem_dropHashes, List.forall_mem_cons]
        exact and_assoc
  exact hfold _ _

theorem absent_evict (h : s.resolved.Mirrored) {r : TxRef} (hr : r ∈ s.packets.take n) :
    (s.evict rpBatch n).resolved.Absent (s.row r).id := by
  have hids : (s.packets.take n).foldl (fun ix r => ix.removeFromResolvedPubkeyIndex (s.row r).id) s.resolved =
      ((s.packets.take n).map fun r => (s.row r).id).foldl ResolvedIndex.removeFromResolvedPubkeyIndex
        s.resolved := List.foldl_map.symm
  have hremoved := h.foldl_removed (List.mem_map_of_mem (f := fun r => (s.row r).id) hr)
  rw [← hids] at hremoved
  exact hremoved.compact

theorem observations_evict (h : Filed s.ledger) {r : TxRef} (hr : r ∈ s.packets.take n) {o : StoreObs}
    (ho : o ∈ (s.heap r).observations) : (∀ i, (s.evict rpBatch n).byObsID i ≠ some o) ∧
      ∀ x, o ∉ bucket (s.evict rpBatch n).byObserver x := by
  have hevicted : o ∈ (s.packets.take n).flatMap fun r => (s.heap r).observations :=
    List.mem_flatMap.mpr ⟨r, hr, ho⟩
  constructor
  · intro i hi
    obtain ⟨hne, hi⟩ := (foldl_delete_eq_some _ _ _).mp hi
    exact hne o hevicted (h.obsID i o hi)
  · intro x hx
    replace hx : o ∈ bucket (filterKeys _ _ s.byObserver) x := hx
    rw [bucket_filterKeys] at hx
    split at hx
    · have hid := (List.mem_filter.mp hx).2
      exact absurd (List.mem_map_of_mem hevicted) (of_decide_eq_true hid)
    · next hkey =>
        obtain ⟨hobserver, hne⟩ := h.observer x o hx
        refine hkey ?_
        simp only [ne_eq, Bool.and_eq_true, decide_eq_true_eq]
        exact ⟨hne, List.mem_map.mpr ⟨o, hevicted, hobserver⟩⟩

theorem heap_evict_observations (r : TxRef) :
    ((s.evict rpBatch n).heap r).observations = (s.heap r).observations :=
  congrFun (observations_cachePaths s (s.packets.take n)) r

theorem row_evict : (s.evict rpBatch n).row = s.row := row_cachePaths s _

theorem noDangling_evict_iff (h : Kept s) (hwf : s.catalog.WF loc) :
    NoDangling (s.evict rpBatch n) (s.packets.take n) ↔ KeysDerived s rpBatch (s.packets.take n) := by
  have hcat := catalog_evict s rpBatch n
  have hwf' : (s.evict rpBatch n).catalog.WF loc := hcat ▸ hwf.evict n
  have hgone : ∀ r ∈ s.packets.take n, r ∉ loc ++ (s.evict rpBatch n).packets := fun r hr =>
    hwf.evicted_notMem hr
  constructor
  · intro hno
    refine ⟨fun r hr pk => (byNode_evict hr).mp (hno.byNode r hr pk), fun r hr pk hm => ?_⟩
    have hnot := hno.nodeHashes r hr pk
    rw [row_evict, hashes_evict] at hnot
    by_contra hnone
    refine hnot ⟨hm, fun e he hpk hh => hnone ⟨e, he, hh.symm, hpk⟩⟩
  · intro hderived
    refine ⟨?_, ?_, ?_, ?_, ?_, ?_, ?_, ?_, ?_, ?_, ?_, ?_, ?_, ?_⟩
    · exact fun r hr k hk => hgone r hr (hwf'.hash k r hk).1
    · exact fun r hr i hi => hgone r hr (hwf'.id i r hi).1
    · intro r hr o ho
      rw [heap_evict_observations] at ho
      exact (observations_evict h.filed hr ho).1
    · intro r hr o ho
      rw [heap_evict_observations] at ho
      exact (observations_evict h.filed hr ho).2
    · exact fun r hr pk => (byNode_evict hr).mpr (hderived.byNode r hr pk)
    · intro r hr pk hm
      rw [row_evict, hashes_evict] at hm
      obtain ⟨e, he, hh, hpk⟩ := hderived.nodeHashes r hr pk hm.1
      exact hm.2 e he hpk hh.symm
    · exact fun r hr k => notMem_filterKeys_id (p := fun _ => true) hr fun _ => rfl
    · exact fun r hr pt hm => hgone r hr (hwf'.type pt r hm).1
    · intro r hr k hm
      have hcount := (bounded_evict h.subpaths (List.nodup_append.mp hwf.nodup).2.1 rpBatch n).listed k r
      rw [if_pos hr, occurrences_nil] at hcount
      exact absurd (List.count_pos_iff.mpr hm) (Nat.not_lt.mpr hcount)
    · exact (bounded_evict h.subpaths (List.nodup_append.mp hwf.nodup).2.1 rpBatch n).counted
    · intro r hr
      rw [row_evict]
      exact (absent_evict h.mirrored hr).1
    · intro r hr
      rw [row_evict]
      exact (absent_evict h.mirrored hr).2
    · intro r hr hm
      exact absurd hr (of_decide_eq_true (List.mem_filter.mp hm).2)
    · intro r hr hm
      exact absurd hr (of_decide_eq_true (List.mem_filter.mp hm).2)

end Evicted

theorem noDangling_nil {s : Store} (h : Kept s) : NoDangling s [] := by
  refine ⟨?_, ?_, ?_, ?_, ?_, ?_, ?_, ?_, ?_, h.subpaths.counted, ?_, ?_, ?_, ?_⟩
  all_goals
    intro r hr
    cases hr

theorem keysDerived_nil (s : Store) (rpBatch : Int → List String) : KeysDerived s rpBatch [] := by
  constructor
  all_goals
    intro r hr
    cases hr

/-- An eviction leaves no reference to what it takes out if and only if the public
keys that this is filed under are among those the eviction derives for it. -/
theorem noDangling_iff {use : Bool} {st : State} (h : Reachable use st) (ret : Retention)
    (rpBatch : Int → List String) :
    NoDangling (st.store.evictStaleInternal ret rpBatch) (st.store.evicting ret) ↔
      KeysDerived st.store rpBatch (st.store.evicting ret) := by
  have hkept := kept_of_reachable h
  rw [evictStaleInternal, evicting]
  split
  · exact iff_of_true (noDangling_nil hkept) (keysDerived_nil _ _)
  · split
    · next hzero =>
        rw [hzero]
        exact iff_of_true (noDangling_nil hkept) (keysDerived_nil _ _)
    · exact noDangling_evict_iff hkept h.wf.catalog

def oneRelay : PrefixMap where
  m := fun k => if k = "aa" then some [⟨"aa11"⟩] else none
  nonRelay := ∅

def relayed : State :=
  (State.new true).step (.ingestNewFromDB (plainEnv (some oneRelay)) 0 100
    [heardRow (plainTx 1 "h1" "2026-01-01T00:00:00Z" 2) 1 "obs1" "[\"aa\"]"])

theorem reachable_relayed : Reachable true relayed := .step (.start rfl) trivial

def oneMonth : Retention := ⟨some "2026-02-01T00:00:00Z", 0⟩

theorem noDangling_iff_relayed :
    NoDangling (relayed.store.evictStaleInternal oneMonth fun _ => []) (relayed.store.evicting oneMonth) ↔
      KeysDerived relayed.store (fun _ => []) (relayed.store.evicting oneMonth) :=
  noDangling_iff reachable_relayed oneMonth fun _ => []

/-- With no stored `resolved_path` the relay keeps the packet that is gone. -/
theorem relay_keeps_evicted : ¬ ∀ (use : Bool) (st : State) (ret : Retention) (rpBatch : Int → List String),
    Reachable use st → NoDangling (st.store.evictStaleInternal ret rpBatch) (st.store.evicting ret) := by
  intro h
  have hno := h true relayed oneMonth (fun _ => []) reachable_relayed
  exact absurd (hno.byNode 0 (by decide +kernel) "aa11") (by decide +kernel)

end MeshcoreAnalyzer.PacketStore.Dangling

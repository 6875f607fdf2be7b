import MeshcoreAnalyzer.Rows

namespace MeshcoreAnalyzer.PacketStore

open Maps Runs

structure Face where
  row : TxRow
  observerID : String
  snr : Option Float
  pathJSON : String

namespace StoreTx

variable {tx tx' tx'' : StoreTx}

def face (tx : StoreTx) : Face := ⟨tx.toTxRow, tx.observerID, tx.snr, tx.pathJSON⟩

theorem path_of_face (h : tx'.face = tx.face) : tx'.txGetParsedPath = tx.txGetParsedPath := by
  rw [txGetParsedPath_eq, txGetParsedPath_eq]
  exact congrArg (fun f => parsePathJSON f.pathJSON) h

structure Grows (tx tx' : StoreTx) : Prop where
  face : tx'.face = tx.face
  observations : tx.observations <+: tx'.observations

theorem Grows.refl (tx : StoreTx) : tx.Grows tx := ⟨rfl, List.prefix_refl _⟩

theorem Grows.trans (h : tx.Grows tx') (h' : tx'.Grows tx'') : tx.Grows tx'' :=
  ⟨h'.face.trans h.face, h.observations.trans h'.observations⟩

theorem grows_cachePath (tx : StoreTx) : tx.Grows tx.cachePath := ⟨rfl, List.prefix_refl _⟩

theorem grows_addObs (tx : StoreTx) (obs : StoreObs) : tx.Grows (tx.addObs obs) :=
  ⟨rfl, List.prefix_append _ _⟩

theorem bestObservation_append (first : StoreObs) (rest more : List StoreObs) :
    bestObservation first (rest ++ more) = bestObservation first rest ∨
      pathLen (bestObservation first rest).pathJSON < pathLen (bestObservation first (rest ++ more)).pathJSON := by
  induction more using List.reverseRecOn with
  | nil =>
      left
      rw [List.append_nil]
  | append_singleton more obs ih =>
      have hlast : bestObservation first (rest ++ (more ++ [obs])) =
          if pathLen (bestObservation first (rest ++ more)).pathJSON < pathLen obs.pathJSON then obs
          else bestObservation first (rest ++ more) := by
        rw [← List.append_assoc]
        exact List.foldl_append
      rw [hlast]
      split
      · next hlonger =>
          right
          rcases ih with ih | ih
          · rw [← ih]
            exact hlonger
          · exact ih.trans hlonger
      · exact ih

/-- The transmission shows no path yet, or the best of the first so many observations. -/
def Shown (tx : StoreTx) : Prop :=
  tx.pathJSON = "" ∨ ∃ first rest, first :: rest <+: tx.observations ∧
    tx.observerID = (bestObservation first rest).observerID ∧ tx.snr = (bestObservation first rest).snr ∧
      tx.pathJSON = (bestObservation first rest).pathJSON

theorem shown_ofRow (row : TxRow) : (ofRow row).Shown := .inl rfl

theorem Shown.grows (h : tx.Shown) (hg : tx.Grows tx') : tx'.Shown := by
  have hobserver : tx'.observerID = tx.observerID := congrArg Face.observerID hg.face
  have hsnr : tx'.snr = tx.snr := congrArg Face.snr hg.face
  have hpath : tx'.pathJSON = tx.pathJSON := congrArg Face.pathJSON hg.face
  rcases h with h | ⟨first, rest, hpre, hbest⟩
  · exact .inl (hpath.trans h)
  · refine .inr ⟨first, rest, hpre.trans hg.observations, ?_⟩
    rw [hobserver, hsnr, hpath]
    exact hbest

theorem Shown.pickBestObservation (h : tx.Shown) : tx.pickBestObservation.Shown := by
  rw [StoreTx.pickBestObservation]
  split
  · exact h
  · next first rest hobs => exact .inr ⟨first, rest, hobs ▸ List.prefix_refl _, rfl, rfl, rfl⟩

theorem Shown.face_pickBestObservation (h : tx.Shown) (hpath : tx.pathJSON ≠ "")
    (hsame : tx.pickBestObservation.pathJSON = tx.pathJSON) : tx.pickBestObservation.face = tx.face := by
  obtain ⟨first, rest, ⟨more, hmore⟩, hobserver, hsnr, hshown⟩ := h.resolve_left hpath
  have hobs : tx.observations = first :: (rest ++ more) := hmore.symm
  have hpick : tx.pickBestObservation.face = ⟨tx.toTxRow, (bestObservation first (rest ++ more)).observerID,
      (bestObservation first (rest ++ more)).snr, (bestObservation first (rest ++ more)).pathJSON⟩ := by
    rw [StoreTx.pickBestObservation]
    split
    · next hnil => rw [hobs] at hnil; cases hnil
    · next hcons =>
        rw [hobs] at hcons
        cases hcons
        rfl
  have hjson : (bestObservation first (rest ++ more)).pathJSON = (bestObservation first rest).pathJSON :=
    ((congrArg Face.pathJSON hpick).symm.trans hsame).trans hshown
  rw [hpick]
  rcases bestObservation_append first rest more with hbest | hlonger
  · rw [hbest, ← hobserver, ← hsnr, ← hshown]
    rfl
  · rw [hjson] at hlonger
    exact absurd hlonger (Nat.lt_irrefl _)

end StoreTx

namespace Store

variable {s t u : Store}

def Grows (s t : Store) : Prop := ∀ r, (s.heap r).Grows (t.heap r)

theorem Grows.refl (s : Store) : s.Grows s := fun r => StoreTx.Grows.refl (s.heap r)

theorem Grows.trans (h : s.Grows t) (h' : t.Grows u) : s.Grows u := fun r => (h r).trans (h' r)

theorem grows_of_heap (h : t.heap = s.heap) : s.Grows t := by
  intro r
  rw [h]
  exact StoreTx.Grows.refl _

theorem grows_update {r : TxRef} {tx : StoreTx} (h : (s.heap r).Grows tx)
    (ht : t.heap = Function.update s.heap r tx) : s.Grows t := by
  intro q
  rw [ht]
  by_cases hq : q = r
  · subst hq
    rw [Function.update_self]
    exact h
  · rw [Function.update_of_ne hq]
    exact StoreTx.Grows.refl _

theorem grows_foldl {A : Type} {f : Store → A → Store} (hf : ∀ (s : Store) a, s.Grows (f s a)) (l : List A)
    (s : Store) : s.Grows (l.foldl f s) :=
  foldl_invariant (I := fun t => s.Grows t) (Grows.refl s) fun t a _ ht => ht.trans (hf t a)

theorem grows_indexResolvedPathHops (s : Store) (r : TxRef) (pks : List String) :
    s.Grows (s.indexResolvedPathHops r pks) := by
  rw [indexResolvedPathHops]
  split
  · exact Grows.refl s
  · exact grows_update (StoreTx.grows_cachePath _) rfl

theorem grows_indexLiveHops (env : Env) (s : Store) (r : TxRef) (o : ObsRow) : s.Grows (s.indexLiveHops env r o) := by
  rw [indexLiveHops]
  split
  · split
    · exact grows_indexResolvedPathHops s r _
    · exact Grows.refl s
  · exact Grows.refl s

theorem grows_indexLoadedHops (relayPM : Option PrefixMap) (s : Store) (r : TxRef) (o : ObsRow) :
    s.Grows (s.indexLoadedHops relayPM r o) := by
  unfold indexLoadedHops
  split
  · exact grows_indexResolvedPathHops s r _
  · split
    · split
      · exact grows_of_heap rfl
      · exact Grows.refl s
    · exact Grows.refl s

theorem grows_attachObs (s : Store) (r : TxRef) (obs : StoreObs) : s.Grows (s.attachObs r obs) :=
  grows_update (StoreTx.grows_addObs _ obs) rfl

theorem grows_addPaths (s : Store) (r : TxRef) : s.Grows (s.addPaths r) :=
  grows_update (StoreTx.grows_cachePath _) rfl

theorem grows_repath (old : TxRef → String) (s : Store) (r : TxRef) : s.Grows (s.repath old r) := by
  rw [repath]
  split
  · apply (grows_of_heap _).trans (grows_addPaths _ r)
    rw [heap_dropPathHops, heap_dropSubpaths]
  · exact Grows.refl s

theorem heap_addDistances_all (env : Env) (rs : List TxRef) (s : Store) :
    (rs.foldl (addDistances env) s).heap = s.heap := foldl_view (v := Store.heap) fun _ _ _ => rfl

theorem grows_cachePaths (s : Store) (rs : List TxRef) (h : t.heap = s.cachePaths rs) : s.Grows t := by
  intro r
  rw [h]
  rw [cachePaths]
  split
  · exact StoreTx.grows_cachePath _
  · exact StoreTx.Grows.refl _

theorem grows_evict (s : Store) (rpBatch : Int → List String) (n : Nat) : s.Grows (s.evict rpBatch n) :=
  grows_cachePaths s (s.packets.take n) rfl

theorem grows_evictStaleInternal (ret : Retention) (rpBatch : Int → List String) (s : Store) :
    s.Grows (s.evictStaleInternal ret rpBatch) := by
  rw [evictStaleInternal]
  split
  · exact Grows.refl s
  · split
    · exact Grows.refl s
    · exact grows_evict s rpBatch _

theorem grows_rebuild (s : Store) : s.Grows s.rebuild :=
  (grows_cachePaths s s.packets rfl).trans (grows_cachePaths s.buildSubpathIndex s.packets rfl)

theorem grows_buildDistanceIndex (env : Env) (s : Store) : s.Grows (s.buildDistanceIndex env) :=
  grows_of_heap (heap_addDistances_all env s.packets _)

theorem grows_mergeBatch (s : Store) (c : Chunk) : s.Grows (s.mergeBatch c).1 := by
  apply (grows_of_heap rfl).trans (grows_foldl _ _ (s.mergePrimary (c.pending.take mergeBatchSize)))
  intro t r
  exact grows_indexResolvedPathHops { t with
    nodes := t.nodes.addAll (t.row r).hash r (t.row r).nodeKeys
    byPayloadType := pushPayloadType t.byPayloadType (t.row r) r
    advertPubkeys := trackAdvertPubkey t.advertPubkeys (t.row r) } r (bucket c.resolvedPKs (t.row r).id)

def AllShown (s : Store) : Prop := ∀ r, (s.heap r).Shown

theorem AllShown.grows (h : s.AllShown) (hg : s.Grows t) : t.AllShown := fun r => (h r).grows (hg r)

theorem AllShown.update (h : s.AllShown) {r : TxRef} {tx : StoreTx} (htx : tx.Shown)
    (ht : t.heap = Function.update s.heap r tx) : t.AllShown := by
  intro q
  rw [ht]
  by_cases hq : q = r
  · subst hq
    rw [Function.update_self]
    exact htx
  · rw [Function.update_of_ne hq]
    exact h q

theorem shown_newTx (row : TxRow) : (StoreTx.ofRow row).cachePath.Shown :=
  (StoreTx.shown_ofRow row).grows (StoreTx.grows_cachePath _)

theorem AllShown.pickBest (h : s.AllShown) (r : TxRef) : (s.pickBest r).AllShown :=
  h.update (h r).pickBestObservation rfl

theorem AllShown.pickAll (h : s.AllShown) (rs : List TxRef) : (rs.foldl Store.pickBest s).AllShown :=
  foldl_invariant (I := AllShown) h fun _ r _ ht => ht.pickBest r

theorem AllShown.mergeRow {index : Store → TxRef → ObsRow → Store} (hindex : ∀ (s : Store) r o, s.Grows (index s r o))
    (h : s.AllShown) (row : ScanRow) : (mergeRow index s row).AllShown := by
  have hfound : (s.findOrInsert row.tx).1.AllShown := by
    rw [findOrInsert]
    split
    · exact h
    · exact h.update (shown_newTx row.tx) rfl
  rw [Store.mergeRow]
  split
  · exact hfound
  · rw [mergeObs]
    split
    · exact hfound
    · exact hfound.grows ((hindex _ _ _).trans (grows_attachObs _ _ _))

theorem AllShown.lateRow {acc : Store × List (Int × TxRef)} (h : acc.1.AllShown) (env : Env) (o : ObsRow) :
    (lateRow env acc o).1.AllShown := by
  rw [Store.lateRow]
  split
  · exact h
  · split
    · exact h
    · split
      · exact h
      · exact h.grows ((grows_indexLiveHops env _ _ _).trans (grows_attachObs _ _ _))

theorem AllShown.finishIngest (h : s.AllShown) (env : Env) (txs : List (Int × TxRef)) :
    (s.finishIngest env txs).AllShown := by
  unfold Store.finishIngest
  dsimp only
  apply ((h.pickAll _).grows (grows_foldl grows_addPaths _ _)).grows
  exact grows_of_heap (heap_addDistances_all env _ _)

theorem AllShown.finishObservations (h : s.AllShown) (env : Env) (txs : List (Int × TxRef)) :
    (s.finishObservations env txs).AllShown := by
  have hrepathed := (h.pickAll (env.pickOrder.refs txs)).grows
    (grows_foldl (grows_repath fun r => (s.heap r).pathJSON) (env.indexOrder.refs txs) _)
  unfold Store.finishObservations
  dsimp only
  split
  · exact hrepathed
  · exact hrepathed.grows (grows_of_heap (heap_addDistances_all env _ _))

theorem AllShown.readRow (relayPM : Option PrefixMap) {acc : Store × Chunk} (h : acc.1.AllShown) (row : ScanRow) :
    (readRow relayPM acc row).1.AllShown := by
  have hfound : (acc.1.findOrNewLocal acc.2 row.tx).1.1.AllShown := by
    rw [findOrNewLocal]
    split
    · exact h
    · exact h.update (shown_newTx row.tx) rfl
  unfold Store.readRow
  dsimp only
  split
  · exact hfound
  · rw [localObs]
    split
    · exact hfound
    · exact hfound.grows (grows_update (StoreTx.grows_addObs _ _) rfl)

theorem AllShown.step {st : State} (h : st.store.AllShown) (a : Action) : (st.step a).store.AllShown := by
  cases a with
  | scanAndMergeChunk relayPM rows =>
      exact foldl_invariant (I := AllShown) h fun _ row _ ht => ht.mergeRow (grows_indexLoadedHops relayPM) row
  | finishLoad env hotCutoff =>
      have hpicked : st.store.pickAndIndexAll.AllShown := fun r => by
        rw [heap_pickAndIndexAll]
        exact h.pickAll st.store.packets r
      apply hpicked.grows
      apply (grows_of_heap (t := st.store.pickAndIndexAll.sortPackets) rfl).trans
      apply (grows_rebuild _).trans
      exact (grows_buildDistanceIndex env _).trans (grows_of_heap rfl)
  | ingestNewFromDB env sinceID limit rows =>
      apply AllShown.finishIngest
      rw [ingestRows_fst]
      exact foldl_invariant (I := AllShown) h fun _ row _ ht => ht.mergeRow (grows_indexLiveHops env) row
  | ingestNewObservations env limit rows =>
      apply AllShown.finishObservations
      exact foldl_invariant (I := fun acc : Store × List (Int × TxRef) => acc.1.AllShown) h
        fun _ o _ hacc => hacc.lateRow env o
  | readChunk relayPM rows =>
      apply AllShown.pickAll
      exact foldl_invariant (I := fun acc : Store × Chunk => acc.1.AllShown) h
        fun _ row _ hacc => hacc.readRow relayPM row
  | mergeBatch =>
      dsimp only [State.step]
      split
      · exact h.grows (grows_mergeBatch _ _)
      · exact h
  | publish =>
      dsimp only [State.step]
      split
      · exact h.grows (grows_of_heap rfl)
      · exact h
  | rebuild => exact h.grows (grows_rebuild _)
  | buildDistanceIndex env => exact h.grows (grows_buildDistanceIndex env _)
  | evict ret rpBatch => exact h.grows (grows_evictStaleInternal ret rpBatch _)

theorem allShown_of_reachable {use : Bool} {st : State} (h : Reachable use st) : st.store.AllShown := by
  apply Reach.invariant _ _ h
  · rintro st rfl r
    exact StoreTx.shown_ofRow _
  · exact fun st a hst _ => hst.step a

end Store

end MeshcoreAnalyzer.PacketStore

import MeshcoreAnalyzer.WellFormed

namespace MeshcoreAnalyzer.PacketStore

open Maps Runs

namespace Store

theorem path_eq (s : Store) (r : TxRef) : s.path r = parsePathJSON (s.heap r).pathJSON :=
  StoreTx.txGetParsedPath_eq _

structure PathView where
  pathJSON : TxRef → String
  subpaths : SubpathIndex
  spTotalPaths : Int

def pathView (s : Store) : PathView := ⟨fun r => (s.heap r).pathJSON, s.subpaths, s.spTotalPaths⟩

theorem pathView_of_heap {s t : Store}
    (hpath : (fun r => (t.heap r).pathJSON) = fun r => (s.heap r).pathJSON)
    (h : ({ t with heap := s.heap } : Store).pathView = s.pathView) : t.pathView = s.pathView := by
  rw [← h]
  change PathView.mk (fun r => (t.heap r).pathJSON) _ _ = PathView.mk (fun r => (s.heap r).pathJSON) _ _
  rw [hpath]

theorem pathJSON_of_pathView {s t : Store} (h : t.pathView = s.pathView) (r : TxRef) :
    (t.heap r).pathJSON = (s.heap r).pathJSON := congrFun (congrArg PathView.pathJSON h) r

theorem path_of_pathView {s t : Store} (h : t.pathView = s.pathView) : t.path = s.path := by
  funext r
  rw [path_eq, path_eq, pathJSON_of_pathView h]

@[simp] theorem pathView_addAllToByNode (s : Store) (r : TxRef) (pks : List String) :
    (s.addAllToByNode r pks).pathView = s.pathView := rfl

@[simp] theorem pathView_indexResolvedPathHops (s : Store) (r : TxRef) (pks : List String) :
    (s.indexResolvedPathHops r pks).pathView = s.pathView := by
  rw [indexResolvedPathHops]
  split
  · rfl
  · exact pathView_of_heap (Maps.view_update StoreTx.pathJSON rfl) rfl

@[simp] theorem pathView_indexLiveHops (env : Env) (s : Store) (r : TxRef) (o : ObsRow) :
    (s.indexLiveHops env r o).pathView = s.pathView := by
  rw [indexLiveHops]
  split
  · split
    · exact pathView_indexResolvedPathHops s r _
    · rfl
  · rfl

@[simp] theorem pathView_indexLoadedHops (relayPM : Option PrefixMap) (s : Store) (r : TxRef)
    (o : ObsRow) : (s.indexLoadedHops relayPM r o).pathView = s.pathView := by
  unfold indexLoadedHops
  split
  · exact pathView_indexResolvedPathHops s r _
  · split
    · split
      · rfl
      · rfl
    · rfl

@[simp] theorem pathView_attachObs (s : Store) (r : TxRef) (obs : StoreObs) :
    (s.attachObs r obs).pathView = s.pathView := pathView_of_heap (Maps.view_update StoreTx.pathJSON rfl) rfl

@[simp] theorem pathView_addDistances (env : Env) (s : Store) (r : TxRef) :
    (s.addDistances env r).pathView = s.pathView := rfl

@[simp] theorem pathView_updateDistanceIndexForTxs (env : Env) (s : Store) (txs : List TxRef) :
    (s.updateDistanceIndexForTxs env txs).pathView = s.pathView :=
  foldl_view fun t r _ => pathView_addDistances env t r

theorem pathJSON_addPaths (s : Store) (r q : TxRef) :
    ((s.addPaths r).heap q).pathJSON = (s.heap q).pathJSON := by
  have hcache : (s.heap r).cachePath.pathJSON = (s.heap r).pathJSON := rfl
  exact congrFun (Maps.view_update StoreTx.pathJSON hcache) q

@[simp] theorem path_addPaths (s : Store) (r : TxRef) : (s.addPaths r).path = s.path := by
  funext q
  rw [path_eq, path_eq, pathJSON_addPaths]

theorem pathJSON_cachePaths (s : Store) (rs : List TxRef) (q : TxRef) :
    (s.cachePaths rs q).pathJSON = (s.heap q).pathJSON := by
  rw [cachePaths]
  split <;> rfl

theorem path_buildSubpathIndex (s : Store) : s.buildSubpathIndex.path = s.path := by
  funext q
  rw [path_eq, path_eq]
  exact congrArg parsePathJSON (pathJSON_cachePaths s s.packets q)

@[simp] theorem pathView_buildPathHopIndex (s : Store) : s.buildPathHopIndex.pathView = s.pathView :=
  pathView_of_heap (funext (pathJSON_cachePaths s s.packets)) rfl

@[simp] theorem pathView_buildDistanceIndex (env : Env) (s : Store) :
    (s.buildDistanceIndex env).pathView = s.pathView :=
  foldl_view fun t r _ => pathView_addDistances env t r

theorem path_mergeTx (c : Chunk) (s : Store) (r : TxRef) : (mergeTx c s r).path = s.path := by
  unfold Store.mergeTx
  dsimp only
  rw [path_of_pathView (pathView_addAllToByNode _ _ _), path_of_pathView (pathView_indexResolvedPathHops _ _ _)]
  rfl

theorem path_evict (s : Store) (rpBatch : Int → List String) (n : Nat) :
    (s.evict rpBatch n).path = s.path := by
  funext q
  rw [path_eq, path_eq]
  exact congrArg parsePathJSON (pathJSON_cachePaths s (s.packets.take n) q)

theorem heap_dropSubpaths (s : Store) (hops : List String) (r : TxRef) :
    (s.dropSubpaths hops r).heap = s.heap := by
  rw [dropSubpaths]
  split <;> rfl

theorem heap_dropPathHops (s : Store) (hops : List String) (r : TxRef) :
    (s.dropPathHops hops r).heap = s.heap := by
  rw [dropPathHops]
  split <;> rfl

theorem subpaths_dropPathHops (s : Store) (hops : List String) (r : TxRef) :
    (s.dropPathHops hops r).subpaths = s.subpaths := by
  rw [dropPathHops]
  split <;> rfl

theorem spTotalPaths_dropPathHops (s : Store) (hops : List String) (r : TxRef) :
    (s.dropPathHops hops r).spTotalPaths = s.spTotalPaths := by
  rw [dropPathHops]
  split <;> rfl

theorem pathJSON_repath (old : TxRef → String) (s : Store) (r q : TxRef) :
    ((s.repath old r).heap q).pathJSON = (s.heap q).pathJSON := by
  rw [repath]
  split
  · rw [pathJSON_addPaths, heap_dropPathHops, heap_dropSubpaths]
  · rfl

theorem path_repath (old : TxRef → String) (s : Store) (r : TxRef) : (s.repath old r).path = s.path := by
  funext q
  rw [path_eq, path_eq, pathJSON_repath]

theorem pathJSON_pickBest_of_ne (s : Store) {r q : TxRef} (h : q ≠ r) :
    ((s.pickBest r).heap q).pathJSON = (s.heap q).pathJSON := by
  change (Function.update s.heap r _ q).pathJSON = _
  rw [Function.update_of_ne h]

theorem heap_pickAll_of_notMem {rs : List TxRef} (s : Store) {q : TxRef} (h : q ∉ rs) :
    (rs.foldl pickBest s).heap q = s.heap q := by
  induction rs generalizing s with
  | nil => rfl
  | cons r rs ih =>
      rw [List.mem_cons, not_or] at h
      rw [List.foldl_cons, ih _ h.2]
      exact Function.update_of_ne h.1 _ _

theorem heap_pickAll_of_mem {rs : List TxRef} (hnd : rs.Nodup) (s : Store) {q : TxRef} (h : q ∈ rs) :
    (rs.foldl pickBest s).heap q = (s.heap q).pickBestObservation := by
  induction rs generalizing s with
  | nil => cases h
  | cons r rs ih =>
      rw [List.nodup_cons] at hnd
      rw [List.foldl_cons]
      rcases List.mem_cons.mp h with rfl | hq
      · rw [heap_pickAll_of_notMem _ hnd.1]
        exact Function.update_self _ _ _
      · have hne : q ≠ r := fun hqr => hnd.1 (hqr ▸ hq)
        rw [ih hnd.2 _ hq]
        exact congrArg StoreTx.pickBestObservation (Function.update_of_ne hne _ _)

theorem pathJSON_pickAll_of_notMem {rs : List TxRef} (s : Store) {q : TxRef} (h : q ∉ rs) :
    ((rs.foldl pickBest s).heap q).pathJSON = (s.heap q).pathJSON := by
  rw [heap_pickAll_of_notMem s h]

theorem heap_pickAndIndexAll (s : Store) : s.pickAndIndexAll.heap = (s.packets.foldl pickBest s).heap := by
  have hleft : s.pickAndIndexAll.heap =
      s.packets.foldl (fun heap r => Function.update heap r (heap r).pickBestObservation) s.heap :=
    foldl_simulates fun _ _ _ => rfl
  have hright : (s.packets.foldl pickBest s).heap =
      s.packets.foldl (fun heap r => Function.update heap r (heap r).pickBestObservation) s.heap :=
    foldl_simulates fun _ _ _ => rfl
  rw [hleft, hright]

theorem pathView_addDistances_all (env : Env) (rs : List TxRef) (s : Store) :
    (rs.foldl (addDistances env) s).pathView = s.pathView :=
  foldl_view fun t r _ => pathView_addDistances env t r

theorem path_pickAll_of_notMem {rs : List TxRef} (s : Store) {q : TxRef} (h : q ∉ rs) :
    (rs.foldl pickBest s).path q = s.path q := by
  rw [path_eq, path_eq, pathJSON_pickAll_of_notMem s h]

theorem subpaths_pickAll (s : Store) (rs : List TxRef) : (rs.foldl pickBest s).subpaths = s.subpaths :=
  foldl_view fun _ _ _ => rfl

theorem spTotalPaths_pickAll (s : Store) (rs : List TxRef) :
    (rs.foldl pickBest s).spTotalPaths = s.spTotalPaths := foldl_view fun _ _ _ => rfl

theorem pathJSON_finishIngest_of_notMem (env : Env) (s : Store) {txs : List (Int × TxRef)} {q : TxRef}
    (h : q ∉ txs.map Prod.snd) : ((s.finishIngest env txs).heap q).pathJSON = (s.heap q).pathJSON := by
  have hpaths : ∀ (rs : List TxRef) (t : Store),
      ((rs.foldl addPaths t).heap q).pathJSON = (t.heap q).pathJSON :=
    fun rs t => foldl_view (v := fun t : Store => (t.heap q).pathJSON) fun t r _ => pathJSON_addPaths t r q
  unfold finishIngest
  dsimp only
  rw [pathJSON_of_pathView (pathView_addDistances_all env _ _), hpaths,
    pathJSON_pickAll_of_notMem s (mt env.pickOrder.mem_refs.mp h)]

theorem pathJSON_finishObservations_of_notMem (env : Env) (s : Store) {txs : List (Int × TxRef)}
    {q : TxRef} (h : q ∉ txs.map Prod.snd) :
    ((s.finishObservations env txs).heap q).pathJSON = (s.heap q).pathJSON := by
  have hrepath : ∀ (old : TxRef → String) (rs : List TxRef) (t : Store),
      ((rs.foldl (repath old) t).heap q).pathJSON = (t.heap q).pathJSON :=
    fun old rs t => foldl_view (v := fun t : Store => (t.heap q).pathJSON)
      fun t r _ => pathJSON_repath old t r q
  have hpick := pathJSON_pickAll_of_notMem s (mt env.pickOrder.mem_refs.mp h)
  unfold finishObservations
  dsimp only
  split
  · rw [hrepath, hpick]
  · rw [pathJSON_of_pathView (pathView_updateDistanceIndexForTxs env _ _), hrepath, hpick]

theorem pathJSON_insertTx (s : Store) (tx : TxRow) (q : TxRef) :
    ((s.insertTx tx).heap q).pathJSON = if q = s.next then "" else (s.heap q).pathJSON := by
  change (Function.update s.heap s.next (StoreTx.ofRow tx).cachePath q).pathJSON = _
  by_cases hq : q = s.next
  · subst hq
    simp
  · simp [hq]

theorem pathJSON_mergeRow (env : Env) (s : Store) (row : ScanRow) (q : TxRef) :
    ((mergeRow (indexLiveHops env) s row).heap q).pathJSON =
      if s.byHash row.tx.hash = none ∧ q = s.next then "" else (s.heap q).pathJSON := by
  have hfound : ((s.findOrInsert row.tx).1.heap q).pathJSON =
      if s.byHash row.tx.hash = none ∧ q = s.next then "" else (s.heap q).pathJSON := by
    rw [findOrInsert]
    split
    · next h => simp [h]
    · next h =>
        rw [pathJSON_insertTx]
        simp [h]
  rw [mergeRow]
  split
  · exact hfound
  · next o _ =>
    rw [mergeObs]
    split
    · exact hfound
    · have hview := (pathView_attachObs _ (s.findOrInsert row.tx).2 o.toObs).trans
        (pathView_indexLiveHops env (s.findOrInsert row.tx).1 (s.findOrInsert row.tx).2 o)
      rw [pathJSON_of_pathView hview, hfound]

end Store

end MeshcoreAnalyzer.PacketStore

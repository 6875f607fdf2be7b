import MeshcoreAnalyzer.WellFormed

namespace MeshcoreAnalyzer.PacketStore

open Maps Runs

/-! The store as a ledger: the observations of each transmission, the indexes of
observations, and the two totals. -/

structure Ledger where
  observations : TxRef → List StoreObs
  byObsID : GoMap Int StoreObs
  byObserver : GoMap String (List StoreObs)
  totalObs : Int
  trackedBytes : Int

/-- What a row of `transmissions` is taken to occupy while it has no path. -/
def rowBytes (tx : TxRow) : Int := (StoreTx.ofRow tx).estimateStoreTxBytes

namespace Ledger

def alloc (l : Ledger) (r : TxRef) : Ledger :=
  { l with observations := Function.update l.observations r [] }

def pay (l : Ledger) (bytes : Int) : Ledger := { l with trackedBytes := l.trackedBytes + bytes }

def append (l : Ledger) (r : TxRef) (obs : StoreObs) : Ledger :=
  { l with observations := Function.update l.observations r (l.observations r ++ [obs]) }

def attach (l : Ledger) (r : TxRef) (obs : StoreObs) : Ledger :=
  { l.append r obs with
    byObsID := set l.byObsID obs.id obs
    byObserver := if obs.observerID ≠ "" then push l.byObserver obs.observerID obs else l.byObserver
    totalObs := l.totalObs + 1
    trackedBytes := l.trackedBytes + estimateStoreObsBytes obs }

def mergeObs (l : Ledger) (obs : List StoreObs) : Ledger :=
  { l with
    byObsID := fun k => l.byObsID k <|> obs.foldl (fun m o => set m o.id o) Maps.empty k
    byObserver := (obs.filter fun o => o.observerID ≠ "" && (l.byObsID o.id).isNone).foldl
      (fun m o => push m o.observerID o) l.byObserver }

end Ledger

namespace Store

def ledger (s : Store) : Ledger where
  observations := fun r => (s.heap r).observations
  byObsID := s.byObsID
  byObserver := s.byObserver
  totalObs := s.totalObs
  trackedBytes := s.trackedBytes

theorem ledger_of_heap {s t : Store}
    (hobs : (fun r => (t.heap r).observations) = fun r => (s.heap r).observations)
    (h : ({ t with heap := s.heap } : Store).ledger = s.ledger) : t.ledger = s.ledger := by
  rw [← h]
  change Ledger.mk (fun r => (t.heap r).observations) _ _ _ _ = Ledger.mk (fun r => (s.heap r).observations) _ _ _ _
  rw [hobs]

@[simp] theorem ledger_pickBest (s : Store) (r : TxRef) : (s.pickBest r).ledger = s.ledger :=
  ledger_of_heap (Maps.view_update StoreTx.observations (StoreTx.pickBestObservation_observations _)) rfl

@[simp] theorem ledger_addAllToByNode (s : Store) (r : TxRef) (pks : List String) :
    (s.addAllToByNode r pks).ledger = s.ledger := rfl

@[simp] theorem ledger_indexResolvedPathHops (s : Store) (r : TxRef) (pks : List String) :
    (s.indexResolvedPathHops r pks).ledger = s.ledger := by
  rw [indexResolvedPathHops]
  split
  · rfl
  · exact ledger_of_heap (Maps.view_update StoreTx.observations rfl) rfl

@[simp] theorem ledger_indexLiveHops (env : Env) (s : Store) (r : TxRef) (o : ObsRow) :
    (s.indexLiveHops env r o).ledger = s.ledger := by
  rw [indexLiveHops]
  split
  · split
    · exact ledger_indexResolvedPathHops s r _
    · rfl
  · rfl

@[simp] theorem ledger_indexLoadedHops (relayPM : Option PrefixMap) (s : Store) (r : TxRef)
    (o : ObsRow) : (s.indexLoadedHops relayPM r o).ledger = s.ledger := by
  unfold indexLoadedHops
  split
  · exact ledger_indexResolvedPathHops s r _
  · split
    · split
      · rfl
      · rfl
    · rfl

@[simp] theorem ledger_addPaths (s : Store) (r : TxRef) : (s.addPaths r).ledger = s.ledger :=
  ledger_of_heap (Maps.view_update StoreTx.observations rfl) rfl

@[simp] theorem ledger_addDistances (env : Env) (s : Store) (r : TxRef) :
    (s.addDistances env r).ledger = s.ledger := rfl

@[simp] theorem ledger_dropSubpaths (s : Store) (hops : List String) (r : TxRef) :
    (s.dropSubpaths hops r).ledger = s.ledger := by
  rw [dropSubpaths]
  split <;> rfl

@[simp] theorem ledger_dropPathHops (s : Store) (hops : List String) (r : TxRef) :
    (s.dropPathHops hops r).ledger = s.ledger := by
  rw [dropPathHops]
  split <;> rfl

@[simp] theorem ledger_repath (oldPath : TxRef → String) (s : Store) (r : TxRef) :
    (s.repath oldPath r).ledger = s.ledger := by
  rw [repath]
  split
  · rw [ledger_addPaths, ledger_dropPathHops, ledger_dropSubpaths]
  · rfl

@[simp] theorem ledger_updateDistanceIndexForTxs (env : Env) (s : Store) (txs : List TxRef) :
    (s.updateDistanceIndexForTxs env txs).ledger = s.ledger :=
  foldl_view fun t r _ => ledger_addDistances env t r

theorem observations_cachePaths (s : Store) (rs : List TxRef) :
    (fun q => (s.cachePaths rs q).observations) = fun q => (s.heap q).observations := by
  funext q
  rw [cachePaths]
  split <;> rfl

@[simp] theorem ledger_buildSubpathIndex (s : Store) : s.buildSubpathIndex.ledger = s.ledger :=
  ledger_of_heap (s.observations_cachePaths s.packets) rfl

@[simp] theorem ledger_buildPathHopIndex (s : Store) : s.buildPathHopIndex.ledger = s.ledger :=
  ledger_of_heap (s.observations_cachePaths s.packets) rfl

@[simp] theorem ledger_buildDistanceIndex (env : Env) (s : Store) :
    (s.buildDistanceIndex env).ledger = s.ledger :=
  foldl_view fun t r _ => ledger_addDistances env t r

@[simp] theorem ledger_rebuild (s : Store) : s.rebuild.ledger = s.ledger := by
  rw [rebuild]
  rw [ledger_buildPathHopIndex, ledger_buildSubpathIndex]

@[simp] theorem ledger_pickAll (s : Store) (rs : List TxRef) :
    (rs.foldl pickBest s).ledger = s.ledger := foldl_view fun t r _ => ledger_pickBest t r

@[simp] theorem ledger_finishIngest (env : Env) (s : Store) (txs : List (Int × TxRef)) :
    (s.finishIngest env txs).ledger = s.ledger := by
  have hpaths : ∀ (rs : List TxRef) (t : Store), (rs.foldl addPaths t).ledger = t.ledger :=
    fun rs t => foldl_view fun t r _ => ledger_addPaths t r
  have hdist : ∀ (rs : List TxRef) (t : Store), (rs.foldl (addDistances env) t).ledger = t.ledger :=
    fun rs t => foldl_view fun t r _ => ledger_addDistances env t r
  unfold finishIngest
  dsimp only
  rw [hdist, hpaths, ledger_pickAll]

@[simp] theorem ledger_finishObservations (env : Env) (s : Store) (txs : List (Int × TxRef)) :
    (s.finishObservations env txs).ledger = s.ledger := by
  have hrepath : ∀ (old : TxRef → String) (rs : List TxRef) (t : Store),
      (rs.foldl (repath old) t).ledger = t.ledger :=
    fun old rs t => foldl_view fun t r _ => ledger_repath old t r
  unfold finishObservations
  dsimp only
  split
  · rw [hrepath, ledger_pickAll]
  · rw [ledger_updateDistanceIndexForTxs, hrepath, ledger_pickAll]

@[simp] theorem ledger_pickAndIndexAll (s : Store) : s.pickAndIndexAll.ledger = s.ledger :=
  foldl_view fun t r _ => ledger_pickBest t r

@[simp] theorem ledger_finishLoad (env : Env) (hotCutoff : Option String) (s : Store) :
    (s.finishLoad env hotCutoff).ledger = s.ledger := by
  have hsort : ∀ t : Store, (t.sortPackets.buildSubpathIndex.buildPathHopIndex.buildDistanceIndex env).ledger =
      t.ledger := by
    intro t
    rw [ledger_buildDistanceIndex, ledger_buildPathHopIndex, ledger_buildSubpathIndex]
    rfl
  unfold finishLoad
  dsimp only
  exact (hsort _).trans (ledger_pickAndIndexAll s)

@[simp] theorem ledger_mergeTx (c : Chunk) (s : Store) (r : TxRef) :
    (mergeTx c s r).ledger = s.ledger := by
  unfold mergeTx
  dsimp only
  rw [ledger_addAllToByNode, ledger_indexResolvedPathHops]
  rfl

theorem observations_set (s : Store) (r : TxRef) (tx : StoreTx) :
    (fun q => (Function.update s.heap r tx q).observations) =
      Function.update s.ledger.observations r tx.observations := by
  funext q
  by_cases hq : q = r
  · subst hq
    simp
  · simp [hq, ledger]

theorem ledger_insertTx (s : Store) (tx : TxRow) :
    (s.insertTx tx).ledger = (s.ledger.alloc s.next).pay (rowBytes tx) := by
  change Ledger.mk (fun q => (Function.update s.heap s.next (StoreTx.ofRow tx).cachePath q).observations)
    _ _ _ _ = _
  rw [observations_set]
  rfl

theorem ledger_attachObs (s : Store) (r : TxRef) (obs : StoreObs) :
    (s.attachObs r obs).ledger = s.ledger.attach r obs := by
  change Ledger.mk (fun q => (Function.update s.heap r ((s.heap r).addObs obs) q).observations) _ _ _ _ = _
  rw [observations_set]
  rfl

theorem ledger_newLocalTx (s : Store) (c : Chunk) (tx : TxRow) :
    (s.newLocalTx c tx).1.ledger = s.ledger.alloc s.next := by
  change Ledger.mk (fun q => (Function.update s.heap s.next (StoreTx.ofRow tx).cachePath q).observations)
    _ _ _ _ = _
  rw [observations_set]
  rfl

theorem ledger_addLocalObs (s : Store) (r : TxRef) (obs : StoreObs) :
    (s.modify r (·.addObs obs)).ledger = s.ledger.append r obs := by
  change Ledger.mk (fun q => (Function.update s.heap r ((s.heap r).addObs obs) q).observations) _ _ _ _ = _
  rw [observations_set]
  rfl

theorem ledger_mergeBatch (s : Store) (c : Chunk) : (s.mergeBatch c).1.ledger =
    s.ledger.mergeObs ((c.pending.take mergeBatchSize).flatMap s.ledger.observations) := by
  have hfold : ∀ (batch : List TxRef) (t : Store), (batch.foldl (mergeTx c) t).ledger = t.ledger :=
    fun batch t => foldl_view fun t r _ => ledger_mergeTx c t r
  rw [mergeBatch]
  dsimp only
  rw [hfold]
  rfl

theorem ledger_publish (s : Store) (c : Chunk) : (s.publish c).ledger =
    { s.ledger with
      totalObs := s.totalObs + c.totalObs
      trackedBytes := s.trackedBytes + c.trackedBytes } := rfl

end Store

end MeshcoreAnalyzer.PacketStore

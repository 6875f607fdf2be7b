import MeshcoreAnalyzer.WellFormed

namespace MeshcoreAnalyzer.PacketStore

open Maps Runs

structure Relays where
  nodes : NodeIndex
  resolved : ResolvedIndex

namespace Relays

def addKeys (v : Relays) (hash : String) (r : TxRef) (pks : List String) : Relays :=
  { v with nodes := v.nodes.addAll hash r pks }

def addHops (v : Relays) (tx : TxRow) (r : TxRef) (pks : List String) : Relays where
  nodes := v.nodes.addAll tx.hash r pks
  resolved := v.resolved.addToResolvedPubkeyIndex tx.id pks

theorem addHops_nil (v : Relays) (tx : TxRow) (r : TxRef) : v.addHops tx r [] = v := by
  change Relays.mk v.nodes (v.resolved.addToResolvedPubkeyIndex tx.id []) = v
  rw [ResolvedIndex.addToResolvedPubkeyIndex]
  split <;> rfl

end Relays

namespace Store

def relays (s : Store) : Relays := ⟨s.nodes, s.resolved⟩

@[simp] theorem relays_pickBest (s : Store) (r : TxRef) : (s.pickBest r).relays = s.relays := rfl

@[simp] theorem relays_attachObs (s : Store) (r : TxRef) (obs : StoreObs) :
    (s.attachObs r obs).relays = s.relays := rfl

@[simp] theorem relays_addPaths (s : Store) (r : TxRef) : (s.addPaths r).relays = s.relays := rfl

@[simp] theorem relays_addDistances (env : Env) (s : Store) (r : TxRef) :
    (s.addDistances env r).relays = s.relays := rfl

@[simp] theorem relays_dropSubpaths (s : Store) (hops : List String) (r : TxRef) :
    (s.dropSubpaths hops r).relays = s.relays := by
  rw [dropSubpaths]
  split <;> rfl

@[simp] theorem relays_dropPathHops (s : Store) (hops : List String) (r : TxRef) :
    (s.dropPathHops hops r).relays = s.relays := by
  rw [dropPathHops]
  split <;> rfl

@[simp] theorem relays_repath (oldPath : TxRef → String) (s : Store) (r : TxRef) :
    (s.repath oldPath r).relays = s.relays := by
  rw [repath]
  split
  · rw [relays_addPaths, relays_dropPathHops, relays_dropSubpaths]
  · rfl

@[simp] theorem relays_updateDistanceIndexForTxs (env : Env) (s : Store) (txs : List TxRef) :
    (s.updateDistanceIndexForTxs env txs).relays = s.relays :=
  foldl_view fun t r _ => relays_addDistances env t r

@[simp] theorem relays_pickAll (s : Store) (rs : List TxRef) :
    (rs.foldl pickBest s).relays = s.relays := foldl_view fun t r _ => relays_pickBest t r

@[simp] theorem relays_finishIngest (env : Env) (s : Store) (txs : List (Int × TxRef)) :
    (s.finishIngest env txs).relays = s.relays := by
  have hpaths : ∀ (rs : List TxRef) (t : Store), (rs.foldl addPaths t).relays = t.relays :=
    fun rs t => foldl_view fun t r _ => relays_addPaths t r
  have hdist : ∀ (rs : List TxRef) (t : Store), (rs.foldl (addDistances env) t).relays = t.relays :=
    fun rs t => foldl_view fun t r _ => relays_addDistances env t r
  unfold finishIngest
  dsimp only
  rw [hdist, hpaths, relays_pickAll]

@[simp] theorem relays_finishObservations (env : Env) (s : Store) (txs : List (Int × TxRef)) :
    (s.finishObservations env txs).relays = s.relays := by
  have hrepath : ∀ (old : TxRef → String) (rs : List TxRef) (t : Store),
      (rs.foldl (repath old) t).relays = t.relays :=
    fun old rs t => foldl_view fun t r _ => relays_repath old t r
  unfold finishObservations
  dsimp only
  split
  · rw [hrepath, relays_pickAll]
  · rw [relays_updateDistanceIndexForTxs, hrepath, relays_pickAll]

@[simp] theorem relays_buildDistanceIndex (env : Env) (s : Store) :
    (s.buildDistanceIndex env).relays = s.relays :=
  foldl_view fun t r _ => relays_addDistances env t r

@[simp] theorem relays_rebuild (s : Store) : s.rebuild.relays = s.relays := rfl

theorem relays_addAllToByNode (s : Store) (r : TxRef) (pks : List String) :
    (s.addAllToByNode r pks).relays = s.relays.addKeys (s.row r).hash r pks := rfl

theorem relays_indexResolvedPathHops (s : Store) (r : TxRef) (pks : List String) :
    (s.indexResolvedPathHops r pks).relays = s.relays.addHops (s.row r) r pks := by
  rw [indexResolvedPathHops]
  split
  · next h => rw [h, Relays.addHops_nil]
  · rfl

def liveHopKeys (env : Env) (tx : TxRow) (o : ObsRow) : List String :=
  if o.pathJSON ≠ "" ∧ o.pathJSON ≠ "[]" then
    match env.pm with
    | some pm => extractResolvedPubkeys (resolvePathForObs o.pathJSON o.observerID tx pm env.tiers)
    | none => []
  else []

theorem relays_indexLiveHops (env : Env) (s : Store) (r : TxRef) (o : ObsRow) :
    (s.indexLiveHops env r o).relays = s.relays.addHops (s.row r) r (liveHopKeys env (s.row r) o) := by
  rw [indexLiveHops, liveHopKeys]
  split
  · cases env.pm with
    | some pm => exact relays_indexResolvedPathHops s r _
    | none => exact (Relays.addHops_nil _ _ _).symm
  · exact (Relays.addHops_nil _ _ _).symm

def loadedHopKeys (relayPM : Option PrefixMap) (_ : TxRow) (o : ObsRow) : List String :=
  if o.resolvedPath ≠ "" then extractResolvedPubkeys (unmarshalResolvedPath o.resolvedPath)
  else match relayPM with
    | some pm =>
        if o.pathJSON ≠ "" ∧ o.pathJSON ≠ "[]" then
          extractResolvedPubkeys (resolvePathForObsColdLoad o.pathJSON pm)
        else []
    | none => []

theorem nodes_indexLoadedHops (relayPM : Option PrefixMap) (s : Store) (r : TxRef) (o : ObsRow) :
    (s.indexLoadedHops relayPM r o).nodes =
      s.nodes.addAll (s.row r).hash r (loadedHopKeys relayPM (s.row r) o) := by
  unfold indexLoadedHops loadedHopKeys
  split
  · exact congrArg Relays.nodes (relays_indexResolvedPathHops s r _)
  · split
    · split
      · rfl
      · rfl
    · rfl

theorem relays_mergeTx (c : Chunk) (s : Store) (r : TxRef) : (mergeTx c s r).relays =
    ((s.relays.addKeys (s.row r).hash r (s.row r).nodeKeys).addHops (s.row r) r
      (bucket c.resolvedPKs (s.row r).id)).addKeys (s.row r).hash r (bucket c.byNodePKs (s.row r).id) := by
  unfold mergeTx
  dsimp only
  rw [relays_addAllToByNode, relays_indexResolvedPathHops,
    row_eq_of_catalog (catalog_indexResolvedPathHops _ r _)]
  rfl

end Store

end MeshcoreAnalyzer.PacketStore

import MeshcoreAnalyzer.NodePaths
import MeshcoreAnalyzer.PathHops
import MeshcoreAnalyzer.Uniqueness

namespace MeshcoreAnalyzer.PacketStore

open Maps Runs Store

namespace PathDB

variable (db : PathDB)

/-- Every observation with a path has a stored resolution with a resolved hop. -/
def Resolved : Prop :=
  ∀ row ∈ db.observations, parsePathJSON row.pathJSON ≠ [] →
    extractResolvedPubkeys (unmarshalResolvedPath row.text) ≠ []

def HasTx (tx : TxRow) : Prop := tx.hash = db.hashOf tx.id ∧ db.idOf tx.hash = tx.id

def HasObs (o : ObsRow) : Prop :=
  ∃ row ∈ db.observations, row.id = o.id ∧ row.transmissionID = o.txID ∧ row.pathJSON = o.pathJSON

def HasStored (o : ObsRow) : Prop :=
  ∃ row ∈ db.observations, row.id = o.id ∧ row.transmissionID = o.txID ∧ row.pathJSON = o.pathJSON ∧
    row.text = o.resolvedPath

variable {db}

theorem HasStored.hasObs {o : ObsRow} (h : db.HasStored o) : db.HasObs o := by
  obtain ⟨row, hrow, hid, htx, hpath, _⟩ := h
  exact ⟨row, hrow, hid, htx, hpath⟩

theorem isSome_fetch {row : PathRow} (hrow : row ∈ db.observations) {txID obsID : Int} (hid : row.id = obsID)
    (htx : row.transmissionID = txID) (hkeys : extractResolvedPubkeys (unmarshalResolvedPath row.text) ≠ []) :
    (db.fetchResolvedPathsForTx txID obsID).isSome := by
  have hfind : (db.observations.find? fun q => q.transmissionID = txID ∧ q.id = obsID) = some row := by
    cases hf : db.observations.find? fun q => q.transmissionID = txID ∧ q.id = obsID with
    | none =>
        have hno := List.find?_eq_none.mp hf row hrow
        exact absurd (decide_eq_true ⟨htx, hid⟩) hno
    | some q =>
        have hq : q.transmissionID = txID ∧ q.id = obsID := by simpa using List.find?_some hf
        rw [List.inj_on_of_nodup_map db.ids (List.mem_of_find?_eq_some hf) hrow (hq.2.trans hid.symm)]
  rw [fetchResolvedPathsForTx]
  rw [hfind]
  have hdecoded := isSome_decodeResolvedPath (s := row.text) fun hnil => hkeys (by rw [hnil]; rfl)
  change (row.resolvedPath.bind decodeResolvedPath).isSome
  cases htext : row.resolvedPath with
  | none =>
      have hempty : row.text = "" := by
        rw [PathRow.text]
        rw [htext]
        rfl
      rw [hempty] at hkeys
      exact absurd rfl hkeys
  | some text =>
      have heq : row.text = text := by
        rw [PathRow.text]
        rw [htext]
        rfl
      rw [heq] at hdecoded
      exact hdecoded

theorem HasObs.isSome (hdb : db.Resolved) {o : ObsRow} (h : db.HasObs o) (hpath : parsePathJSON o.pathJSON ≠ []) :
    (db.fetchResolvedPathsForTx o.txID o.id).isSome := by
  obtain ⟨row, hrow, hid, htx, heq⟩ := h
  rw [← heq] at hpath
  exact isSome_fetch hrow hid htx (hdb row hrow hpath)

theorem HasStored.isSome {o : ObsRow} (h : db.HasStored o)
    (hkeys : extractResolvedPubkeys (unmarshalResolvedPath o.resolvedPath) ≠ []) :
    (db.fetchResolvedPathsForTx o.txID o.id).isSome := by
  obtain ⟨row, hrow, hid, htx, _, htext⟩ := h
  rw [← htext] at hkeys
  exact isSome_fetch hrow hid htx hkeys

/-- What the fallback has found is longer than nothing. -/
def Longest (best : Int × Option (List (Option String))) : Prop := best.2 = none → best.1 = -1

theorem longest_longerStored {txID : Int} {best : Int × Option (List (Option String))} (h : Longest best)
    (obs : StoreObs) : Longest (db.longerStored txID best obs) := by
  rw [longerStored]
  split
  · exact h
  · split
    · intro hnone
      cases hnone
    · exact h

theorem isSome_longerStored {txID : Int} {best : Int × Option (List (Option String))} (obs : StoreObs)
    (h : best.2.isSome) : (db.longerStored txID best obs).2.isSome := by
  rw [longerStored]
  split
  · exact h
  · split
    · rfl
    · exact h

theorem isSome_longerStored_self {txID : Int} {best : Int × Option (List (Option String))} (hbest : Longest best)
    {obs : StoreObs} (h : (db.fetchResolvedPathsForTx txID obs.id).isSome) :
    (db.longerStored txID best obs).2.isSome := by
  rw [longerStored]
  cases hf : db.fetchResolvedPathsForTx txID obs.id with
  | none =>
      rw [hf] at h
      cases h
  | some rp =>
      dsimp only
      split
      · rfl
      · next hlen =>
          cases hb : best.2 with
          | none =>
              have hstart := hbest hb
              omega
          | some _ => rfl

theorem isSome_fetchResolvedPathForTxBest {tx : StoreTx} {o : StoreObs} (ho : o ∈ tx.observations)
    (h : (db.fetchResolvedPathsForTx tx.id o.id).isSome) : (db.fetchResolvedPathForTxBest tx).isSome := by
  have hfold : ∀ (obs : List StoreObs) (best : Int × Option (List (Option String))), Longest best →
      (best.2.isSome ∨ o ∈ obs) → (obs.foldl (db.longerStored tx.id) best).2.isSome := by
    intro obs
    induction obs with
    | nil =>
        intro best _ hor
        exact hor.resolve_right List.not_mem_nil
    | cons a obs ih =>
        intro best hbest hor
        apply ih _ (longest_longerStored hbest a)
        rcases hor with hbest' | hmem
        · exact .inl (isSome_longerStored a hbest')
        · rcases List.mem_cons.mp hmem with rfl | hmem
          · exact .inl (isSome_longerStored_self hbest h)
          · exact .inr hmem
  rw [fetchResolvedPathForTxBest]
  cases hobs : tx.observations with
  | nil =>
      rw [hobs] at ho
      cases ho
  | cons first rest =>
      dsimp only
      split
      · rfl
      · exact hfold _ _ (fun _ => rfl) (.inr (hobs ▸ ho))

end PathDB

def Backed (db : PathDB) (s : Store) (r : TxRef) : Prop :=
  ∃ o ∈ (s.heap r).observations, (db.fetchResolvedPathsForTx (s.row r).id o.id).isSome

structure AllBacked (db : PathDB) (s : Store) : Prop where
  heard : ∀ r, ∀ o ∈ (s.heap r).observations, parsePathJSON o.pathJSON ≠ [] →
    (db.fetchResolvedPathsForTx (s.row r).id o.id).isSome
  path : ∀ r, s.path r ≠ [] → Backed db s r
  hops : ∀ k, ∀ r ∈ bucket s.byPathHop k, Backed db s r

section Steps

variable {db : PathDB} {loc : List TxRef} {s : Store}

theorem observations_of_ledger {t : Store} (h : t.ledger = s.ledger) (r : TxRef) :
    (t.heap r).observations = (s.heap r).observations := congrFun (congrArg Ledger.observations h) r

theorem Backed.of_rows {t : Store} {r : TxRef} (h : Backed db s r) (hrow : t.row = s.row)
    (hobs : ∀ r, (t.heap r).observations = (s.heap r).observations) : Backed db t r := by
  rw [Backed]
  rw [hobs, hrow]
  exact h

theorem AllBacked.of_rows {t : Store} (h : AllBacked db s) (hrow : t.row = s.row)
    (hobs : ∀ r, (t.heap r).observations = (s.heap r).observations) (hpath : ∀ r, t.path r ≠ [] → Backed db s r)
    (hhops : ∀ k, ∀ r ∈ bucket t.byPathHop k, Backed db s r) : AllBacked db t := by
  refine ⟨?_, fun r hr => (hpath r hr).of_rows hrow hobs, fun k r hr => (hhops k r hr).of_rows hrow hobs⟩
  intro r o ho
  rw [hobs] at ho
  rw [hrow]
  exact h.heard r o ho

theorem AllBacked.of_views {t : Store} (h : AllBacked db s) (hcat : t.catalog = s.catalog)
    (hledger : t.ledger = s.ledger) (hpath : ∀ r, t.path r ≠ [] → Backed db s r)
    (hhops : ∀ k, ∀ r ∈ bucket t.byPathHop k, Backed db s r) : AllBacked db t :=
  h.of_rows (row_eq_of_catalog hcat) (observations_of_ledger hledger) hpath hhops

theorem AllBacked.congr {t : Store} (h : AllBacked db s) (hcat : t.catalog = s.catalog)
    (hledger : t.ledger = s.ledger) (hpath : t.path = s.path) (hidx : t.byPathHop = s.byPathHop) :
    AllBacked db t := by
  apply h.of_views hcat hledger
  · rw [hpath]
    exact h.path
  · rw [hidx]
    exact h.hops

theorem AllBacked.pushAll (h : AllBacked db s) {keys : List String} {r : TxRef} (hr : keys ≠ [] → Backed db s r) :
    ∀ k, ∀ q ∈ bucket (Maps.pushAll s.byPathHop keys r) k, Backed db s q := by
  intro k q hq
  rcases mem_bucket_pushAll.mp hq with hq | ⟨hk, rfl⟩
  · exact h.hops k q hq
  · exact hr (List.ne_nil_of_mem hk)

theorem ne_nil_of_resolvedHopKeys {hops pks : List String} (h : resolvedHopKeys hops pks ≠ []) : pks ≠ [] := by
  rintro rfl
  exact h rfl

theorem AllBacked.alloc (h : AllBacked db s) (hwf : s.catalog.WF loc) (hlive : HopsLive loc s) {t : Store} {tx : TxRow}
    (hheap : t.heap = Function.update s.heap s.next (StoreTx.ofRow tx).cachePath) (hidx : t.byPathHop = s.byPathHop) :
    AllBacked db t := by
  have hnew : t.heap s.next = (StoreTx.ofRow tx).cachePath := by rw [hheap, Function.update_self]
  have hold : ∀ r, r ≠ s.next → t.heap r = s.heap r := by
    intro r hr
    rw [hheap, Function.update_of_ne hr]
  have hback : ∀ r, r ≠ s.next → Backed db s r → Backed db t r := by
    intro r hr hb
    rw [Backed, Store.row]
    rw [hold r hr]
    exact hb
  refine ⟨?_, ?_, ?_⟩
  · intro r o ho
    by_cases hr : r = s.next
    · subst hr
      rw [hnew] at ho
      cases ho
    · rw [Store.row]
      rw [hold r hr] at ho ⊢
      exact h.heard r o ho
  · intro r hpath
    by_cases hr : r = s.next
    · rw [path_eq, hr, hnew] at hpath
      exact absurd rfl hpath
    · unfold Store.path at hpath
      rw [hold r hr] at hpath
      exact hback r hr (h.path r hpath)
  · intro k r hr
    rw [hidx] at hr
    refine hback r ?_ (h.hops k r hr)
    rintro rfl
    exact hwf.next_notMem (hlive k _ hr)

theorem Backed.addObs {t : Store} {r q : TxRef} {o : StoreObs}
    (hheap : t.heap = Function.update s.heap r ((s.heap r).addObs o)) (h : Backed db s q) : Backed db t q := by
  obtain ⟨obs, hmem, hsome⟩ := h
  by_cases hq : q = r
  · subst hq
    refine ⟨obs, ?_, ?_⟩
    · rw [hheap, Function.update_self]
      exact List.mem_append_left _ hmem
    · rw [Store.row]
      rw [hheap, Function.update_self]
      exact hsome
  · refine ⟨obs, ?_, ?_⟩
    · rw [hheap, Function.update_of_ne hq]
      exact hmem
    · rw [Store.row]
      rw [hheap, Function.update_of_ne hq]
      exact hsome

theorem backed_addObs {t : Store} {r : TxRef} {o : StoreObs}
    (hheap : t.heap = Function.update s.heap r ((s.heap r).addObs o))
    (h : (db.fetchResolvedPathsForTx (s.row r).id o.id).isSome) : Backed db t r := by
  refine ⟨o, ?_, ?_⟩
  · rw [hheap, Function.update_self]
    exact List.mem_append_right _ (List.mem_singleton_self _)
  · rw [Store.row]
    rw [hheap, Function.update_self]
    exact h

theorem AllBacked.addObs (h : AllBacked db s) {t : Store} {r : TxRef} {o : StoreObs}
    (hheap : t.heap = Function.update s.heap r ((s.heap r).addObs o)) (hidx : t.byPathHop = s.byPathHop)
    (hobs : parsePathJSON o.pathJSON ≠ [] → (db.fetchResolvedPathsForTx (s.row r).id o.id).isSome) :
    AllBacked db t := by
  refine ⟨?_, ?_, fun k q hq => (h.hops k q (hidx ▸ hq)).addObs hheap⟩
  · intro q obs hmem
    rw [Store.row]
    rw [hheap] at hmem ⊢
    by_cases hq : q = r
    · subst hq
      rw [Function.update_self] at hmem ⊢
      rcases List.mem_append.mp hmem with hmem | hmem
      · exact h.heard q obs hmem
      · rw [List.mem_singleton.mp hmem]
        exact hobs
    · rw [Function.update_of_ne hq] at hmem ⊢
      exact h.heard q obs hmem
  · intro q hq
    have hpath : t.path q = s.path q := by
      rw [path_eq, path_eq, hheap]
      have hsame := Maps.view_update StoreTx.pathJSON (StoreTx.addObs_pathJSON (s.heap r) o)
      exact congrArg parsePathJSON (congrFun hsame q)
    rw [hpath] at hq
    exact (h.path q hq).addObs hheap

theorem AllBacked.attachObs (h : AllBacked db s) {u : Store} {r : TxRef} {o : ObsRow} {keys : List String}
    (hcat : u.catalog = s.catalog) (hledger : u.ledger = s.ledger) (hpath : u.path = s.path)
    (hidx : u.byPathHop = Maps.pushAll s.byPathHop keys r)
    (hobs : parsePathJSON o.pathJSON ≠ [] → (db.fetchResolvedPathsForTx (s.row r).id o.id).isSome)
    (hkeys : keys ≠ [] → (db.fetchResolvedPathsForTx (s.row r).id o.id).isSome) :
    AllBacked db (u.attachObs r o.toObs) := by
  have hrow := row_eq_of_catalog hcat
  -- before the keys are there
  have hbefore : AllBacked db { u with byPathHop := s.byPathHop } :=
    h.of_rows hrow (observations_of_ledger hledger) (fun q hq => h.path q (by rw [← hpath]; exact hq)) h.hops
  have hafter : AllBacked db { u.attachObs r o.toObs with byPathHop := s.byPathHop } := by
    refine hbefore.addObs (r := r) (o := o.toObs) rfl rfl fun hne => ?_
    change (db.fetchResolvedPathsForTx (u.row r).id o.id).isSome
    rw [hrow]
    exact hobs hne
  refine ⟨hafter.heard, hafter.path, ?_⟩
  intro k q hq
  rw [byPathHop_attachObs, hidx] at hq
  rcases mem_bucket_pushAll.mp hq with hq | ⟨hk, rfl⟩
  · exact hafter.hops k q hq
  · apply backed_addObs (s := u) rfl
    rw [hrow]
    exact hkeys (List.ne_nil_of_mem hk)

theorem parsePathJSON_ne_nil_of_liveHopKeys {env : Env} {tx : TxRow} {o : ObsRow} (h : liveHopKeys env tx o ≠ []) :
    parsePathJSON o.pathJSON ≠ [] := by
  intro hnil
  apply h
  rw [liveHopKeys]
  split
  · split
    · rw [resolvePathForObs]
      rw [hnil]
      rfl
    · rfl
  · rfl

/-- What the filing of an observation over its relays does, for observations of a kind. -/
structure Files (db : PathDB) (index : Store → TxRef → ObsRow → Store) (good : ObsRow → Prop) : Prop where
  catalog : ∀ s r o, (index s r o).catalog = s.catalog
  ledger : ∀ s r o, (index s r o).ledger = s.ledger
  pathView : ∀ s r o, (index s r o).pathView = s.pathView
  keys : ∀ s r o, good o → ∃ keys, (index s r o).byPathHop = Maps.pushAll s.byPathHop keys r ∧
    (keys ≠ [] → (db.fetchResolvedPathsForTx o.txID o.id).isSome)

theorem files_indexLiveHops (hdb : db.Resolved) (env : Env) : Files db (indexLiveHops env) db.HasObs := by
  refine ⟨catalog_indexLiveHops env, ledger_indexLiveHops env, pathView_indexLiveHops env, ?_⟩
  intro s r o hgood
  refine ⟨_, byPathHop_indexLiveHops env s r o, fun hkeys => ?_⟩
  exact hgood.isSome hdb (parsePathJSON_ne_nil_of_liveHopKeys (ne_nil_of_resolvedHopKeys hkeys))

theorem files_indexLoadedHops (db : PathDB) (relayPM : Option PrefixMap) :
    Files db (indexLoadedHops relayPM) db.HasStored := by
  refine ⟨catalog_indexLoadedHops relayPM, ledger_indexLoadedHops relayPM, pathView_indexLoadedHops relayPM, ?_⟩
  intro s r o hgood
  refine ⟨_, byPathHop_indexLoadedHops relayPM s r o, fun hkeys => ?_⟩
  have hstored := ne_nil_of_resolvedHopKeys hkeys
  unfold storedHopKeys at hstored
  split at hstored
  · exact hgood.isSome hstored
  · exact absurd rfl hstored

def IDsBacked (db : PathDB) (s : Store) (loc : List TxRef) (ids : Int → Prop) : Prop :=
  ∀ i, ids i → ∃ r ∈ loc, (s.row r).id = i ∧ Backed db s r

theorem IDsBacked.of_rows {t : Store} {ids : Int → Prop} (h : IDsBacked db s loc ids) (hrow : t.row = s.row)
    (hobs : ∀ r, (t.heap r).observations = (s.heap r).observations) : IDsBacked db t loc ids := by
  intro i hi
  obtain ⟨r, hr, hid, hback⟩ := h i hi
  exact ⟨r, hr, by rw [hrow]; exact hid, hback.of_rows hrow hobs⟩

theorem IDsBacked.alloc {t : Store} {ids : Int → Prop} {tx : StoreTx} (h : IDsBacked db s loc ids)
    (hwf : s.catalog.WF loc) (hheap : t.heap = Function.update s.heap s.next tx) : IDsBacked db t loc ids := by
  intro i hi
  obtain ⟨r, hr, hid, hback⟩ := h i hi
  have hold : t.heap r = s.heap r := by
    rw [hheap]
    refine Function.update_of_ne ?_ _ _
    rintro rfl
    exact hwf.next_notMem (List.mem_append_left _ hr)
  refine ⟨r, hr, ?_, ?_⟩
  · rw [Store.row]
    rw [hold]
    exact hid
  · rw [Backed, Store.row]
    rw [hold]
    exact hback

theorem IDsBacked.addObs {t : Store} {ids : Int → Prop} {r : TxRef} {o : StoreObs} (h : IDsBacked db s loc ids)
    (hheap : t.heap = Function.update s.heap r ((s.heap r).addObs o)) : IDsBacked db t loc ids := by
  intro i hi
  obtain ⟨q, hq, hid, hback⟩ := h i hi
  refine ⟨q, hq, ?_, hback.addObs hheap⟩
  rw [← hid]
  unfold Store.row
  rw [hheap]
  by_cases hqr : q = r
  · subst hqr
    rw [Function.update_self]
    rfl
  · rw [Function.update_of_ne hqr]

/-- What is kept over a run; the IDs are those that a chunk under way has something put aside for. -/
structure Backing (db : PathDB) (loc : List TxRef) (ids : Int → Prop) (s : Store) : Prop where
  wf : s.catalog.WF loc
  live : HopsLive loc s
  rows : s.catalog.All db.HasTx loc
  backed : AllBacked db s
  kept : IDsBacked db s loc ids

variable {ids : Int → Prop}

theorem Backing.findOrInsert (h : Backing db loc ids s) {tx : TxRow} (htx : db.HasTx tx) :
    Backing db loc ids (s.findOrInsert tx).1 := by
  have hrows : (s.findOrInsert tx).1.catalog.All db.HasTx loc := by
    rw [catalog_findOrInsert]
    exact h.rows.findOrInsert h.wf htx
  refine ⟨wf_findOrInsert h.wf tx, ?_, hrows, ?_, ?_⟩
  · rw [Store.findOrInsert]
    split
    · exact h.live
    · exact h.live.insertTx tx
  · rw [Store.findOrInsert]
    split
    · exact h.backed
    · exact h.backed.alloc h.wf h.live rfl rfl
  · rw [Store.findOrInsert]
    split
    · exact h.kept
    · exact h.kept.alloc h.wf rfl

theorem hash_findOrInsert (h : s.catalog.WF loc) (tx : TxRow) :
    ((s.findOrInsert tx).1.row (s.findOrInsert tx).2).hash = tx.hash := by
  rw [Store.findOrInsert]
  split
  · next r hr => exact (h.hash _ _ hr).2
  · change (Function.update s.heap s.next (StoreTx.ofRow tx).cachePath s.next).hash = tx.hash
    rw [Function.update_self]
    rfl

theorem Backing.mergeRow (h : Backing db loc ids s) {index : Store → TxRef → ObsRow → Store} {good : ObsRow → Prop}
    (hfiles : Files db index good) (hgood : ∀ o, good o → db.HasObs o) (hdb : db.Resolved) {row : ScanRow}
    (htx : db.HasTx row.tx) (hobs : ∀ o ∈ row.obs, good o) : Backing db loc ids (mergeRow index s row) := by
  have hfound := h.findOrInsert htx
  have hmem := findOrInsert_mem h.wf row.tx
  have hid : ((s.findOrInsert row.tx).1.row (s.findOrInsert row.tx).2).id = row.tx.id := by
    have hrow : db.HasTx ((s.findOrInsert row.tx).1.row (s.findOrInsert row.tx).2) := hfound.rows _ hmem
    rw [← hrow.2, hash_findOrInsert h.wf, htx.2]
  rw [Store.mergeRow]
  split
  · exact hfound
  · next o ho =>
      have ho' : o ∈ row.obs := ho
      rw [mergeObs]
      split
      · exact hfound
      · obtain ⟨keys, hidx, hkeys⟩ := hfiles.keys (s.findOrInsert row.tx).1 (s.findOrInsert row.tx).2 o (hobs o ho')
        have hcat := hfiles.catalog (s.findOrInsert row.tx).1 (s.findOrInsert row.tx).2 o
        have htxID : o.txID = ((s.findOrInsert row.tx).1.row (s.findOrInsert row.tx).2).id :=
          (row.joined o ho').trans hid.symm
        refine ⟨?_, ?_, ?_, ?_, ?_⟩
        · rw [catalog_attachObs, hcat]
          exact hfound.wf
        · exact (hfound.live.pushAll hmem hidx (packets_of_catalog hcat)).congr rfl rfl
        · rw [catalog_attachObs, hcat]
          exact hfound.rows
        · refine hfound.backed.attachObs hcat (hfiles.ledger _ _ o) (path_of_pathView (hfiles.pathView _ _ o)) hidx
            ?_ ?_
          · rw [← htxID]
            exact (hgood o (hobs o ho')).isSome hdb
          · rw [← htxID]
            exact hkeys
        · have hindexed := hfound.kept.of_rows (row_eq_of_catalog hcat) (observations_of_ledger (hfiles.ledger _ _ o))
          exact hindexed.addObs rfl

theorem Backing.mergeRows (h : Backing db loc ids s) {index : Store → TxRef → ObsRow → Store} {good : ObsRow → Prop}
    (hfiles : Files db index good) (hgood : ∀ o, good o → db.HasObs o) (hdb : db.Resolved) {rows : List ScanRow}
    (hrows : ∀ row ∈ rows, db.HasTx row.tx ∧ ∀ o ∈ row.obs, good o) :
    Backing db loc ids (rows.foldl (Store.mergeRow index) s) :=
  foldl_invariant (I := Backing db loc ids) h fun _ row hrow ht =>
    ht.mergeRow hfiles hgood hdb (hrows row hrow).1 (hrows row hrow).2

theorem Backing.lateRow {acc : Store × List (Int × TxRef)} (h : Backing db loc ids acc.1) (hdb : db.Resolved) (env : Env)
    {o : ObsRow} (ho : db.HasObs o) : Backing db loc ids (lateRow env acc o).1 := by
  rw [Store.lateRow]
  split
  · exact h
  · split
    · exact h
    · next r hr =>
        split
        · exact h
        · obtain ⟨hmem, hid⟩ := h.wf.id _ _ hr
          have hid' : (acc.1.row r).id = o.txID := hid
          have hcat := catalog_indexLiveHops env acc.1 r o
          obtain ⟨keys, hidx, hkeys⟩ := (files_indexLiveHops hdb env).keys acc.1 r o ho
          refine ⟨?_, ?_, ?_, ?_, ?_⟩
          · rw [catalog_attachObs, hcat]
            exact h.wf
          · exact (h.live.pushAll hmem hidx (packets_of_catalog hcat)).congr rfl rfl
          · rw [catalog_attachObs, hcat]
            exact h.rows
          · refine h.backed.attachObs hcat (ledger_indexLiveHops env _ _ o)
              (path_of_pathView (pathView_indexLiveHops env _ _ o)) hidx ?_ ?_
            · rw [hid']
              exact ho.isSome hdb
            · rw [hid']
              exact hkeys
          · have hindexed := h.kept.of_rows (row_eq_of_catalog hcat) (observations_of_ledger (ledger_indexLiveHops env _ _ o))
            exact hindexed.addObs rfl

theorem bestObservation_mem (first : StoreObs) (rest : List StoreObs) :
    StoreTx.bestObservation first rest ∈ first :: rest := by
  refine foldl_invariant (I := fun o => o ∈ first :: rest) List.mem_cons_self ?_
  intro o obs hobs ho
  split
  · exact List.mem_cons_of_mem _ hobs
  · exact ho

theorem AllBacked.pickBest (h : AllBacked db s) (r : TxRef) : AllBacked db (s.pickBest r) := by
  refine h.of_views (catalog_pickBest s r) (ledger_pickBest s r) ?_ h.hops
  intro q hq
  by_cases hqr : q = r
  · subst hqr
    have hheap : (s.pickBest q).heap q = (s.heap q).pickBestObservation := Function.update_self _ _ _
    rw [path_eq, hheap] at hq
    cases hobs : (s.heap q).observations with
    | nil =>
        have hsame : (s.heap q).pickBestObservation = s.heap q := by
          rw [StoreTx.pickBestObservation]
          split
          · rfl
          · next heq =>
              rw [hobs] at heq
              cases heq
        rw [hsame, ← path_eq] at hq
        exact h.path q hq
    | cons first rest =>
        have hbest : (s.heap q).pickBestObservation.pathJSON = (StoreTx.bestObservation first rest).pathJSON := by
          rw [StoreTx.pickBestObservation]
          split
          · next heq =>
              rw [hobs] at heq
              cases heq
          · next heq =>
              rw [hobs] at heq
              cases heq
              rfl
        rw [hbest] at hq
        have hmem := bestObservation_mem first rest
        rw [← hobs] at hmem
        exact ⟨_, hmem, h.heard q _ hmem hq⟩
  · rw [path_eq, pathJSON_pickBest_of_ne s hqr, ← path_eq] at hq
    exact h.path q hq

theorem ne_nil_of_pathHopKeys {hops : List String} (h : pathHopKeys hops ≠ []) : hops ≠ [] := by
  rintro rfl
  exact h rfl

theorem AllBacked.addPaths (h : AllBacked db s) (r : TxRef) : AllBacked db (s.addPaths r) := by
  apply h.of_views (catalog_addPaths s r) (ledger_addPaths s r)
  · rw [path_addPaths]
    exact h.path
  · rw [byPathHop_addPaths]
    exact h.pushAll fun hkeys => h.path r (ne_nil_of_pathHopKeys hkeys)

theorem AllBacked.addDistances (h : AllBacked db s) (env : Env) (r : TxRef) : AllBacked db (s.addDistances env r) :=
  h.congr (catalog_addDistances env s r) (ledger_addDistances env s r)
    (path_of_pathView (pathView_addDistances env s r)) (byPathHop_addDistances env s r)

theorem AllBacked.pickAll (h : AllBacked db s) (rs : List TxRef) : AllBacked db (rs.foldl Store.pickBest s) :=
  foldl_invariant (I := AllBacked db) h fun _ r _ ht => ht.pickBest r

theorem AllBacked.finishIngest (h : AllBacked db s) (env : Env) (txs : List (Int × TxRef)) :
    AllBacked db (s.finishIngest env txs) := by
  have hpicked := h.pickAll (env.pickOrder.refs txs)
  have hadded := foldl_invariant (I := AllBacked db) (l := env.indexOrder.refs txs) hpicked
    fun _ r _ ht => ht.addPaths r
  exact foldl_invariant (I := AllBacked db) hadded fun _ r _ ht => ht.addDistances env r

theorem AllBacked.repath (h : AllBacked db s) (oldPath : TxRef → String) (r : TxRef) :
    AllBacked db (s.repath oldPath r) := by
  rw [Store.repath]
  split
  · apply AllBacked.addPaths
    have hheap : ((s.dropSubpaths (parsePathJSON (oldPath r)) r).dropPathHops (parsePathJSON (oldPath r)) r).heap =
        s.heap := by rw [heap_dropPathHops, heap_dropSubpaths]
    apply h.of_views
    · rw [catalog_dropPathHops, catalog_dropSubpaths]
    · rw [ledger_dropPathHops, ledger_dropSubpaths]
    · intro q hq
      unfold Store.path at hq
      rw [hheap] at hq
      exact h.path q hq
    · intro k q hq
      have hmem := mem_bucket_dropPathHops hq
      rw [byPathHop_dropSubpaths] at hmem
      exact h.hops k q hmem
  · exact h

theorem AllBacked.finishObservations (h : AllBacked db s) (env : Env) (txs : List (Int × TxRef)) :
    AllBacked db (s.finishObservations env txs) := by
  have hrepathed : AllBacked db ((env.indexOrder.refs txs).foldl (Store.repath fun r => (s.heap r).pathJSON)
      ((env.pickOrder.refs txs).foldl Store.pickBest s)) :=
    foldl_invariant (I := AllBacked db) (h.pickAll (env.pickOrder.refs txs)) fun _ r _ ht => ht.repath _ r
  unfold Store.finishObservations
  dsimp only
  split
  · exact hrepathed
  · exact hrepathed.congr (catalog_updateDistanceIndexForTxs env _ _) (ledger_updateDistanceIndexForTxs env _ _)
      (path_of_pathView (pathView_updateDistanceIndexForTxs env _ _)) (byPathHop_updateDistanceIndexForTxs env _ _)

theorem AllBacked.buildSubpathIndex (h : AllBacked db s) : AllBacked db s.buildSubpathIndex :=
  h.congr (catalog_buildSubpathIndex s) (ledger_buildSubpathIndex s) (path_buildSubpathIndex s) rfl

theorem AllBacked.buildPathHopIndex (h : AllBacked db s) : AllBacked db s.buildPathHopIndex := by
  have hraw : ∀ k, ∀ r ∈ bucket (s.packets.foldl (fun idx r => addTxToPathHopIndex idx (s.path r) r) Maps.empty) k,
      Backed db s r := by
    refine foldl_invariant (I := fun m : GoMap String (List TxRef) => ∀ k, ∀ r ∈ bucket m k, Backed db s r) ?_ ?_
    · intro k r hr
      rw [bucket_empty] at hr
      cases hr
    · intro m q _ hm k r hr
      rcases mem_bucket_pushAll.mp hr with hr | ⟨hk, rfl⟩
      · exact hm k r hr
      · exact h.path r (ne_nil_of_pathHopKeys (List.ne_nil_of_mem hk))
  apply h.of_views (catalog_buildPathHopIndex s) (ledger_buildPathHopIndex s)
  · rw [path_of_pathView (pathView_buildPathHopIndex s)]
    exact h.path
  · intro k r hr
    replace hr : r ∈ bucket (retainResolvedPathHops _ _ _) k := hr
    rw [bucket_retainResolvedPathHops, List.mem_append] at hr
    rcases hr with hr | hr
    · exact hraw k r hr
    · unfold retained at hr
      rw [List.mem_eraseDups] at hr
      exact h.hops k r (List.mem_filter.mp hr).1

theorem AllBacked.buildDistanceIndex (h : AllBacked db s) (env : Env) : AllBacked db (s.buildDistanceIndex env) :=
  h.congr (catalog_buildDistanceIndex env s) (ledger_buildDistanceIndex env s)
    (path_of_pathView (pathView_buildDistanceIndex env s)) (byPathHop_buildDistanceIndex env s)

theorem AllBacked.pickAndIndexAll (h : AllBacked db s) : AllBacked db s.pickAndIndexAll :=
  foldl_invariant (I := AllBacked db) h fun _ r _ ht => ⟨(ht.pickBest r).heard, (ht.pickBest r).path, (ht.pickBest r).hops⟩

theorem AllBacked.finishLoad (h : AllBacked db s) (env : Env) (hotCutoff : Option String) :
    AllBacked db (s.finishLoad env hotCutoff) := by
  have hsorted : AllBacked db s.pickAndIndexAll.sortPackets :=
    ⟨h.pickAndIndexAll.heard, h.pickAndIndexAll.path, h.pickAndIndexAll.hops⟩
  have hbuilt := (hsorted.buildSubpathIndex.buildPathHopIndex).buildDistanceIndex env
  exact ⟨hbuilt.heard, hbuilt.path, hbuilt.hops⟩

theorem AllBacked.evictStaleInternal (h : AllBacked db s) (ret : Retention) (rpBatch : Int → List String) :
    AllBacked db (s.evictStaleInternal ret rpBatch) := by
  rw [Store.evictStaleInternal]
  split
  · exact h
  · split
    · exact h
    · refine h.of_rows (row_cachePaths s _) (congrFun (observations_cachePaths s _)) ?_ ?_
      · rw [path_evict]
        exact h.path
      · intro k r hr
        replace hr : r ∈ bucket (filterKeys (fun _ => true)
          (fun t => (s.row t).id ∉ (s.packets.take (s.cutoffIdx ret)).map fun r => (s.row r).id) s.byPathHop) k := hr
        rw [bucket_filterKeys, if_pos rfl] at hr
        exact h.hops k r (List.mem_filter.mp hr).1

def putAside (c : Chunk) (i : Int) : Prop := bucket c.resolvedPKs i ≠ []

structure Gathering (db : PathDB) (s : Store) (c : Chunk) : Prop where
  reading : Reading s c
  live : HopsLive c.packets s
  rows : s.catalog.All db.HasTx c.packets
  backed : AllBacked db s
  kept : IDsBacked db s c.packets (putAside c)

variable {c : Chunk}

theorem Gathering.newLocalTx (h : Gathering db s c) {tx : TxRow} (htx : db.HasTx tx) (hnew : c.byHash tx.hash = none) :
    Gathering db (s.newLocalTx c tx).1 (s.newLocalTx c tx).2 := by
  have hold : ∀ r ∈ c.packets, (s.newLocalTx c tx).1.heap r = s.heap r := by
    intro r hr
    refine Function.update_of_ne ?_ _ _
    rintro rfl
    exact h.reading.wf.next_notMem (List.mem_append_left _ hr)
  have hrow : (s.newLocalTx c tx).1.catalog = s.catalog.alloc tx := catalog_newLocalTx s c tx
  refine ⟨h.reading.newLocalTx hnew, ?_, ?_, h.backed.alloc h.reading.wf h.live rfl rfl, ?_⟩
  · intro k r hr
    have hmem : r ∈ c.packets ++ s.packets := h.live k r hr
    change r ∈ (c.packets ++ [s.next]) ++ s.packets
    simp only [List.mem_append] at hmem ⊢
    tauto
  · rw [hrow]
    intro r hr
    change db.HasTx (Function.update s.catalog.row s.catalog.next tx r)
    have hmem : r ∈ c.packets ++ s.catalog.packets ∨ r = s.next := by
      replace hr : r ∈ (c.packets ++ [s.next]) ++ s.packets := hr
      simp only [List.mem_append, List.mem_singleton] at hr ⊢
      tauto
    rcases hmem with hr | rfl
    · rw [Catalog.update_row_of_mem h.reading.wf tx hr]
      exact h.rows r hr
    · rw [show s.next = s.catalog.next from rfl, Function.update_self]
      exact htx
  · intro i hi
    obtain ⟨r, hr, hid, hback⟩ := h.kept i hi
    refine ⟨r, List.mem_append_left _ hr, ?_, ?_⟩
    · rw [Store.row]
      rw [hold r hr]
      exact hid
    · rw [Backed, Store.row]
      rw [hold r hr]
      exact hback

theorem Gathering.findOrNewLocal (h : Gathering db s c) {tx : TxRow} (htx : db.HasTx tx) :
    Gathering db (s.findOrNewLocal c tx).1.1 (s.findOrNewLocal c tx).1.2 ∧
      (s.findOrNewLocal c tx).2 ∈ (s.findOrNewLocal c tx).1.2.packets ∧
      ((s.findOrNewLocal c tx).1.1.row (s.findOrNewLocal c tx).2).id = tx.id := by
  rw [Store.findOrNewLocal]
  cases hfound : c.byHash tx.hash with
  | some r =>
      obtain ⟨hmem, hhash⟩ := h.reading.byHash _ _ hfound
      refine ⟨h, hmem, ?_⟩
      have hrow : db.HasTx (s.row r) := h.rows r (List.mem_append_left _ hmem)
      change (s.row r).id = tx.id
      rw [← hrow.2, hhash, htx.2]
  | none =>
      refine ⟨h.newLocalTx htx hfound, List.mem_append_right _ (List.mem_singleton_self _), ?_⟩
      change (Function.update s.heap s.next (StoreTx.ofRow tx).cachePath s.next).id = tx.id
      rw [Function.update_self]
      rfl

theorem resolvedPKs_collectHops (relayPM : Option PrefixMap) (c : Chunk) (o : ObsRow) {i : Int}
    (h : bucket (collectHops relayPM c o).resolvedPKs i ≠ []) :
    bucket c.resolvedPKs i ≠ [] ∨
      i = o.txID ∧ extractResolvedPubkeys (unmarshalResolvedPath o.resolvedPath) ≠ [] := by
  unfold collectHops at h
  split at h
  · unfold accumulateDedup at h
    dsimp only at h
    split at h
    · exact .inl h
    · next hne =>
        by_cases hi : i = o.txID
        · exact .inr ⟨hi, hne⟩
        · refine .inl ?_
          unfold bucket at h ⊢
          rwa [set_apply, if_neg hi] at h
  · split at h
    · split at h
      · exact .inl h
      · exact .inl h
    · exact .inl h

theorem Gathering.localObs (h : Gathering db s c) (hdb : db.Resolved) (relayPM : Option PrefixMap) {r : TxRef}
    (hr : r ∈ c.packets) {o : ObsRow} (hid : (s.row r).id = o.txID) (ho : db.HasStored o) :
    Gathering db (s.localObs relayPM c r o).1 (s.localObs relayPM c r o).2 := by
  have hcat := catalog_localObs relayPM s c r o
  have hpackets := localObs_packets relayPM s c r o
  refine ⟨h.reading.congr hcat hpackets (localObs_byHash relayPM s c r o), ?_, ?_, ?_, ?_⟩
  · rw [hpackets]
    refine h.live.congr ?_ (packets_of_catalog hcat)
    rw [Store.localObs]
    split <;> rfl
  · rw [hcat, hpackets]
    exact h.rows
  · rw [Store.localObs]
    split
    · exact h.backed
    · refine h.backed.addObs (r := r) (o := o.toObs) rfl rfl fun hne => ?_
      rw [hid]
      exact ho.hasObs.isSome hdb hne
  · rw [Store.localObs]
    split
    · exact h.kept
    · intro i hi
      have hrows : (s.modify r (·.addObs o.toObs)).row = s.row :=
        row_eq_of_catalog (catalog_modify s r fun tx => StoreTx.addObs_toTxRow tx o.toObs)
      change ∃ q ∈ (collectHops relayPM c o).packets, _
      rw [collectHops_packets, hrows]
      rcases resolvedPKs_collectHops relayPM c o hi with hold | ⟨rfl, hkeys⟩
      · obtain ⟨q, hq, hqid, hback⟩ := h.kept i hold
        exact ⟨q, hq, hqid, hback.addObs (o := o.toObs) rfl⟩
      · refine ⟨r, hr, hid, backed_addObs (s := s) (o := o.toObs) rfl ?_⟩
        rw [hid]
        exact ho.isSome hkeys

theorem Gathering.readRow {acc : Store × Chunk} (h : Gathering db acc.1 acc.2) (hdb : db.Resolved)
    (relayPM : Option PrefixMap) {row : ScanRow} (htx : db.HasTx row.tx) (hobs : ∀ o ∈ row.obs, db.HasStored o) :
    Gathering db (readRow relayPM acc row).1 (readRow relayPM acc row).2 := by
  obtain ⟨hfound, hmem, hid⟩ := h.findOrNewLocal htx
  unfold Store.readRow
  dsimp only
  split
  · exact hfound
  · next o ho =>
      have ho' : o ∈ row.obs := ho
      exact hfound.localObs hdb relayPM hmem (hid.trans (row.joined o ho').symm) (hobs o ho')

/-- The rows that a section reads are those of the database; where a row is read back its resolution is read too. -/
def FromDatabase (db : PathDB) : Action → Prop
  | .scanAndMergeChunk _ rows | .readChunk _ rows =>
      ∀ row ∈ rows, db.HasTx row.tx ∧ ∀ o ∈ row.obs, db.HasStored o
  | .ingestNewFromDB _ _ _ rows => ∀ row ∈ rows, db.HasTx row.tx ∧ ∀ o ∈ row.obs, db.HasObs o
  | .ingestNewObservations _ _ rows => ∀ o ∈ rows, db.HasObs o
  | _ => True

theorem FromDatabase.rows {a : Action} (h : FromDatabase db a) : ∀ row ∈ a.rows, db.HasTx row.tx := by
  cases a with
  | scanAndMergeChunk relayPM rows => exact fun row hrow => (h row hrow).1
  | readChunk relayPM rows => exact fun row hrow => (h row hrow).1
  | ingestNewFromDB env sinceID limit rows => exact fun row hrow => (h row hrow).1
  | _ => exact fun row hrow => (by cases hrow)

def State.awaiting (st : State) (i : Int) : Prop := ∃ c ∈ st.chunk, putAside c i

structure BackedState (db : PathDB) (st : State) : Prop where
  wf : st.WF
  backing : Backing db st.locals st.awaiting st.store

theorem Backing.of_views (h : Backing db loc ids s) {t : Store} (hcat : t.catalog = s.catalog)
    (hledger : t.ledger = s.ledger) (hback : AllBacked db t) : AllBacked db t ∧ IDsBacked db t loc ids :=
  ⟨hback, h.kept.of_rows (row_eq_of_catalog hcat) (observations_of_ledger hledger)⟩

theorem Backing.ingestNewFromDB (h : Backing db loc ids s) (hdb : db.Resolved) (env : Env) (sinceID limit : Int)
    {rows : List ScanRow} (hrows : ∀ row ∈ rows, db.HasTx row.tx ∧ ∀ o ∈ row.obs, db.HasObs o) :
    AllBacked db (s.ingestNewFromDB env sinceID limit rows).1 ∧
      IDsBacked db (s.ingestNewFromDB env sinceID limit rows).1 loc ids := by
  have hingested : ∀ row ∈ ingested sinceID limit rows, db.HasTx row.tx ∧ ∀ o ∈ row.obs, db.HasObs o :=
    fun row hrow => hrows row (ingested_subset sinceID limit rows hrow)
  have hmerged := h.mergeRows (files_indexLiveHops hdb env) (fun _ ho => ho) hdb hingested
  rw [← ingestRows_fst env _ (s, [])] at hmerged
  exact hmerged.of_views (catalog_finishIngest env _ _) (ledger_finishIngest env _ _) (hmerged.backed.finishIngest env _)

theorem Backing.ingestNewObservations (h : Backing db loc ids s) (hdb : db.Resolved) (env : Env) (limit : Int)
    {rows : List ObsRow} (hrows : ∀ o ∈ rows, db.HasObs o) :
    AllBacked db (s.ingestNewObservations env limit rows) ∧
      IDsBacked db (s.ingestNewObservations env limit rows) loc ids := by
  have hlate : Backing db loc ids ((observed limit rows).foldl (Store.lateRow env) (s, [])).1 :=
    foldl_invariant (I := fun acc : Store × List (Int × TxRef) => Backing db loc ids acc.1) h fun _ o ho hacc =>
      hacc.lateRow hdb env (hrows o (List.mem_of_mem_take ho))
  exact hlate.of_views (catalog_finishObservations env _ _) (ledger_finishObservations env _ _)
    (hlate.backed.finishObservations env _)

theorem Backing.readChunk (h : Backing db [] ids s) (hdb : db.Resolved) (relayPM : Option PrefixMap)
    {rows : List ScanRow} (hread : ∀ row ∈ rows, db.HasTx row.tx ∧ ∀ o ∈ row.obs, db.HasStored o) :
    AllBacked db (s.readChunk relayPM rows).1 ∧
      ∀ c ∈ (s.readChunk relayPM rows).2, IDsBacked db (s.readChunk relayPM rows).1 c.packets (putAside c) := by
  have hstart : Gathering db s Chunk.empty := by
    refine ⟨⟨h.wf, ?_, ?_, List.nodup_nil⟩, h.live, h.rows, h.backed, fun i hi => absurd rfl hi⟩
    · intro k r hr
      cases hr
    · intro r hr
      cases hr
  have hall : Gathering db (rows.foldl (Store.readRow relayPM) (s, Chunk.empty)).1
      (rows.foldl (Store.readRow relayPM) (s, Chunk.empty)).2 :=
    foldl_invariant (I := fun acc : Store × Chunk => Gathering db acc.1 acc.2) hstart fun _ row hrow hacc =>
      hacc.readRow hdb relayPM (hread row hrow).1 (hread row hrow).2
  refine ⟨hall.backed.pickAll _, ?_⟩
  rw [Store.readChunk]
  dsimp only
  intro c hc
  split at hc
  · cases hc
  · cases hc
    exact hall.kept.of_rows (row_eq_of_catalog (catalog_pickAll _ _)) (observations_of_ledger (ledger_pickAll _ _))

theorem IDsBacked.backed (h : IDsBacked db s c.packets ids) (hrows : s.catalog.All db.HasTx c.packets) (hwf : c.WF s)
    {r : TxRef} (hr : r ∈ c.packets) (hid : ids (s.row r).id) : Backed db s r := by
  obtain ⟨q, hq, hsame, hback⟩ := h _ hid
  have hrow : db.HasTx (s.row r) := hrows r (List.mem_append_left _ hr)
  have hrow' : db.HasTx (s.row q) := hrows q (List.mem_append_left _ hq)
  have hhash : (s.row q).hash = (s.row r).hash := by rw [hrow'.1, hrow.1, hsame]
  rwa [List.inj_on_of_nodup_map hwf.hashes hq hr hhash] at hback

theorem Backing.mergeBatch (h : Backing db c.packets (putAside c) s) (hwf : c.WF s) :
    AllBacked db (s.mergeBatch c).1 ∧ IDsBacked db (s.mergeBatch c).1 c.packets (putAside c) := by
  have hprimary : AllBacked db (s.mergePrimary (c.pending.take mergeBatchSize)) :=
    h.backed.of_rows rfl (fun _ => rfl) h.backed.path h.backed.hops
  have hall : AllBacked db (s.mergeBatch c).1 ∧ (s.mergeBatch c).1.row = s.row ∧
      ∀ r, ((s.mergeBatch c).1.heap r).observations = (s.heap r).observations := by
    refine foldl_invariant (I := fun t : Store => AllBacked db t ∧ t.row = s.row ∧
      ∀ r, (t.heap r).observations = (s.heap r).observations) ⟨hprimary, rfl, fun _ => rfl⟩ ?_
    rintro t r hr ⟨ht, hrow, hobs⟩
    have hmem : r ∈ c.packets := hwf.pending.subset (List.mem_of_mem_take hr)
    have hrow' : (mergeTx c t r).row = t.row := (congrArg Catalog.row (catalog_mergeTx c t r)).trans rfl
    have hobs' := observations_of_ledger (ledger_mergeTx c t r)
    refine ⟨?_, hrow'.trans hrow, fun q => (hobs' q).trans (hobs q)⟩
    apply ht.of_rows hrow' hobs'
    · rw [path_mergeTx]
      exact ht.path
    · rw [byPathHop_mergeTx]
      refine ht.pushAll fun hkeys => ?_
      have hpks := ne_nil_of_resolvedHopKeys hkeys
      rw [hrow] at hpks
      exact (h.kept.backed h.rows hwf hmem hpks).of_rows hrow hobs
  exact ⟨hall.1, h.kept.of_rows hall.2.1 hall.2.2⟩

theorem not_awaiting {st : State} (h : st.chunk = none) (i : Int) : ¬ st.awaiting i := by
  rintro ⟨c, hc, _⟩
  rw [h] at hc
  cases hc

theorem awaiting_of_some {st : State} {c : Chunk} (h : st.chunk = some c) : st.awaiting = putAside c := by
  funext i
  apply propext
  constructor
  · rintro ⟨d, hd, hi⟩
    rw [h] at hd
    cases hd
    exact hi
  · intro hi
    exact ⟨c, h, hi⟩

theorem BackedState.step {st : State} (h : BackedState db st) (hdb : db.Resolved) {a : Action} (ha : st.Enabled a)
    (hfrom : FromDatabase db a) : BackedState db (st.step a) := by
  have hback : AllBacked db (st.step a).store ∧ IDsBacked db (st.step a).store (st.step a).locals (st.step a).awaiting := by
    cases a with
    | scanAndMergeChunk relayPM rows =>
        have hmerged := h.backing.mergeRows (files_indexLoadedHops db relayPM) (fun _ ho => ho.hasObs) hdb hfrom
        exact ⟨hmerged.backed, hmerged.kept⟩
    | finishLoad env hotCutoff =>
        refine ⟨h.backing.backed.finishLoad env hotCutoff, fun i hi => absurd hi ?_⟩
        exact not_awaiting ha.2 i
    | ingestNewFromDB env sinceID limit rows => exact h.backing.ingestNewFromDB hdb env sinceID limit hfrom
    | ingestNewObservations env limit rows => exact h.backing.ingestNewObservations hdb env limit hfrom
    | readChunk relayPM rows =>
        have hbacking := h.backing
        rw [State.locals_of_none ha.2] at hbacking
        obtain ⟨hall, hkept⟩ := hbacking.readChunk hdb relayPM hfrom
        refine ⟨hall, ?_⟩
        rintro i ⟨c, hc, hi⟩
        rw [State.locals_of_some hc]
        exact hkept c hc i hi
    | mergeBatch =>
        unfold State.step
        dsimp only
        split
        · next c hc =>
            have hbacking := h.backing
            rw [State.locals_of_some hc, awaiting_of_some hc] at hbacking
            obtain ⟨hall, hkept⟩ := hbacking.mergeBatch (h.wf.chunk c hc)
            refine ⟨hall, ?_⟩
            rw [awaiting_of_some (c := (st.store.mergeBatch c).2) rfl]
            exact hkept
        · exact ⟨h.backing.backed, h.backing.kept⟩
    | publish =>
        unfold State.step
        dsimp only
        split
        · refine ⟨⟨h.backing.backed.heard, h.backing.backed.path, h.backing.backed.hops⟩, fun i hi => absurd hi ?_⟩
          exact not_awaiting rfl i
        · exact ⟨h.backing.backed, h.backing.kept⟩
    | rebuild =>
        exact h.backing.of_views (catalog_rebuild _) (ledger_rebuild _) h.backing.backed.buildSubpathIndex.buildPathHopIndex
    | buildDistanceIndex env =>
        exact h.backing.of_views (catalog_buildDistanceIndex env _) (ledger_buildDistanceIndex env _)
          (h.backing.backed.buildDistanceIndex env)
    | evict ret rpBatch =>
        refine ⟨h.backing.backed.evictStaleInternal ret rpBatch, ?_⟩
        change IDsBacked db (st.store.evictStaleInternal ret rpBatch) st.locals st.awaiting
        rw [Store.evictStaleInternal]
        split
        · exact h.backing.kept
        · split
          · exact h.backing.kept
          · exact h.backing.kept.of_rows (row_cachePaths _ _) (congrFun (observations_cachePaths _ _))
  exact ⟨h.wf.step ha, (h.wf.step ha).catalog, h.backing.live.step h.wf ha,
    State.AllRows.step h.backing.rows h.wf ha hfrom.rows, hback.1, hback.2⟩

theorem backedState_new (db : PathDB) (use : Bool) : BackedState db (State.new use) := by
  have hempty : ∀ (k : String) (r : TxRef), r ∉ bucket (Store.new use).byPathHop k := by
    intro k r hr
    cases hr
  refine ⟨State.wf_new use, (State.wf_new use).catalog, fun k r hr => absurd hr (hempty k r), State.allRows_new use, ?_, ?_⟩
  · refine ⟨fun r o ho => (by cases ho), fun r hr => absurd rfl hr, fun k r hr => absurd hr (hempty k r)⟩
  · exact fun i hi => absurd hi (not_awaiting rfl i)

end Steps

theorem backedState_of_reach {db : PathDB} (hdb : db.Resolved) {use : Bool} {st : State}
    (h : Reach State.step (fun st a => st.Enabled a ∧ FromDatabase db a) (· = State.new use) st) : BackedState db st :=
  h.invariant (fun _ hst => hst ▸ backedState_new db use) fun _ _ hst ha => hst.step hdb ha.1 ha.2

end MeshcoreAnalyzer.PacketStore

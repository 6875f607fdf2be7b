import MeshcoreAnalyzer.Dangling
import MeshcoreAnalyzer.PathHops

namespace MeshcoreAnalyzer.PacketStore.Rebuilds

open Maps Runs Store

def RowFiles (hopKeys : TxRow → ObsRow → List String) (e : TxRef × String) (s : Store) (row : ScanRow) : Prop :=
  ∃ o ∈ row.obs, (s.findOrInsert row.tx).2 = e.1 ∧ o.key ∉ ((s.findOrInsert row.tx).1.heap e.1).obsKeys ∧
    e.2 ∈ resolvedHopKeys ((s.findOrInsert row.tx).1.path e.1) (hopKeys ((s.findOrInsert row.tx).1.row e.1) o)

def LateFiles (env : Env) (e : TxRef × String) (acc : Store × List (Int × TxRef)) (o : ObsRow) : Prop :=
  acc.1.byObsID o.id = none ∧ acc.1.byTxID o.txID = some e.1 ∧ o.key ∉ (acc.1.heap e.1).obsKeys ∧
    e.2 ∈ resolvedHopKeys (acc.1.path e.1) (liveHopKeys env (acc.1.row e.1) o)

/-- A section calls `indexResolvedPathHops` with the transmission and the public key. -/
def Files (e : TxRef × String) (st : State) : Action → Prop
  | .scanAndMergeChunk relayPM rows =>
      Sometime (mergeRow (indexLoadedHops relayPM)) (RowFiles (fun _ => storedHopKeys) e) st.store rows
  | .ingestNewFromDB env sinceID limit rows =>
      Sometime (mergeRow (indexLiveHops env)) (RowFiles (liveHopKeys env) e) st.store (ingested sinceID limit rows)
  | .ingestNewObservations env limit rows =>
      Sometime (lateRow env) (LateFiles env e) (st.store, []) (observed limit rows)
  | .mergeBatch => ∃ c ∈ st.chunk, e.1 ∈ c.pending.take mergeBatchSize ∧
      e.2 ∈ resolvedHopKeys (st.store.path e.1) (bucket c.resolvedPKs (st.store.row e.1).id)
  | _ => False

/-- In the course of the run the transmission was indexed under a resolved relay. -/
def Resolved (use : Bool) (acts : List Action) (e : TxRef × String) : Prop :=
  Sometime State.step (Files e) (State.new use) acts

/-- After the rebuild a transmission is under the raw hops of its path, and under the resolved
relays that it was under before, once each; and another rebuild leaves it at that. -/
structure Exact (filed : TxRef × String → Prop) (s : Store) : Prop where
  mem : ∀ k r, r ∈ bucket s.buildPathHopIndex.byPathHop k ↔
    r ∈ s.packets ∧ (k ∈ pathHopKeys (s.path r) ∨ r ∈ bucket s.byPathHop k ∧ filed (r, k))
  nodup : ∀ k, (bucket s.buildPathHopIndex.byPathHop k).Nodup
  stable : s.buildPathHopIndex.buildPathHopIndex.byPathHop = s.buildPathHopIndex.byPathHop

def rebuilt (st : State) : Action → Option Store
  | .finishLoad _ _ => some st.store.pickAndIndexAll.sortPackets.buildSubpathIndex
  | .rebuild => some st.store.buildSubpathIndex
  | _ => none

/-- Of the entries under a hop that have the ID of the transmission, its own is the first. -/
def FirstOfID (s : Store) (r : TxRef) (k : String) : Prop :=
  r ∈ bucket s.byPathHop k → (bucket s.byPathHop k).find? (fun t => (s.row t).id = (s.row r).id) = some r

/-- A section leaves no raw hop of a superseded path behind: the end of the load does not
supersede a hop that is in the index already, and an observation that supersedes a path
finds the entries of it by their ID. -/
def Keeps (filed : TxRef × String → Prop) (st : State) : Action → Prop
  | .finishLoad _ _ => ∀ r ∈ st.store.packets, ∀ k ∈ pathHopKeys (st.store.path r), r ∈ bucket st.store.byPathHop k →
      k ∈ pathHopKeys (st.store.heap r).pickBestObservation.txGetParsedPath ∨ filed (r, k)
  | .ingestNewObservations env limit rows => ∀ o ∈ observed limit rows, ∀ r, st.store.byTxID o.txID = some r →
      ((((observed limit rows).foldl (lateRow env) (st.store, [])).1.heap r).pickBestObservation.pathJSON ≠
        (st.store.heap r).pathJSON) →
      ∀ k ∈ pathHopKeys (st.store.path r), FirstOfID st.store r k ∨ filed (r, k)
  | _ => True

section Rebuild

variable {s : Store}

def rawHops (s : Store) : GoMap String (List TxRef) :=
  s.packets.foldl (fun idx r => addTxToPathHopIndex idx (s.path r) r) Maps.empty

theorem bucket_rawHops (s : Store) (k : String) :
    bucket (rawHops s) k = s.packets.filter fun r => k ∈ pathHopKeys (s.path r) := by
  have hfold : ∀ (l : List TxRef) (m : GoMap String (List TxRef)),
      bucket (l.foldl (fun idx r => addTxToPathHopIndex idx (s.path r) r) m) k =
        bucket m k ++ l.filter fun r => k ∈ pathHopKeys (s.path r) := by
    intro l
    induction l with
    | nil => exact fun m => (List.append_nil _).symm
    | cons r l ih =>
        intro m
        rw [List.foldl_cons, ih, addTxToPathHopIndex, bucket_pushAll, List.append_assoc]
        congr 1
        by_cases hk : k ∈ pathHopKeys (s.path r)
        · rw [List.count_eq_one_of_mem (nodup_pathHopKeys _) hk]
          simp [hk]
        · rw [List.count_eq_zero_of_not_mem hk]
          simp [hk]
  rw [rawHops, hfold, bucket_empty, List.nil_append]

theorem bucket_buildPathHopIndex (s : Store) (k : String) : bucket s.buildPathHopIndex.byPathHop k =
    bucket (rawHops s) k ++ retained (· ∈ s.packets) (rawHops s) s.byPathHop k :=
  bucket_retainResolvedPathHops _ _ _ k

theorem mem_retained {live : TxRef → Bool} {idx prev : GoMap String (List TxRef)} {k : String} {r : TxRef} :
    r ∈ retained live idx prev k ↔ r ∈ bucket prev k ∧ live r = true ∧ r ∉ bucket idx k := by
  rw [retained, List.mem_eraseDups, List.mem_filter, Bool.and_eq_true, decide_eq_true_eq]

theorem mem_buildPathHopIndex {k : String} {r : TxRef} : r ∈ bucket s.buildPathHopIndex.byPathHop k ↔
    r ∈ s.packets ∧ (k ∈ pathHopKeys (s.path r) ∨ r ∈ bucket s.byPathHop k) := by
  rw [bucket_buildPathHopIndex, List.mem_append, mem_retained, bucket_rawHops, List.mem_filter, decide_eq_true_eq,
    decide_eq_true_eq]
  tauto

theorem nodup_buildPathHopIndex (hnd : s.packets.Nodup) (k : String) :
    (bucket s.buildPathHopIndex.byPathHop k).Nodup := by
  rw [bucket_buildPathHopIndex, List.nodup_append]
  refine ⟨?_, nodup_eraseDups _, ?_⟩
  · rw [bucket_rawHops]
    exact hnd.filter _
  · rintro a ha b hb rfl
    exact (mem_retained.mp hb).2.2 ha

theorem buildPathHopIndex_twice (s : Store) :
    s.buildPathHopIndex.buildPathHopIndex.byPathHop = s.buildPathHopIndex.byPathHop := by
  have hraw : rawHops s.buildPathHopIndex = rawHops s := by
    unfold rawHops
    rw [path_of_pathView (pathView_buildPathHopIndex s)]
    rfl
  funext k
  have hretained : retained (· ∈ s.packets) (rawHops s) s.buildPathHopIndex.byPathHop k =
      retained (· ∈ s.packets) (rawHops s) s.byPathHop k := by
    have hnil : (bucket (rawHops s) k).filter (fun r => decide (r ∈ s.packets) && decide (r ∉ bucket (rawHops s) k)) =
        [] := by
      rw [List.filter_eq_nil_iff]
      intro r hr
      simp [hr]
    have hself : (retained (· ∈ s.packets) (rawHops s) s.byPathHop k).filter
        (fun r => decide (r ∈ s.packets) && decide (r ∉ bucket (rawHops s) k)) =
          retained (· ∈ s.packets) (rawHops s) s.byPathHop k := by
      rw [List.filter_eq_self]
      intro r hr
      obtain ⟨_, hlive, hnew⟩ := mem_retained.mp hr
      simp [hnew, of_decide_eq_true hlive]
    rw [retained, bucket_buildPathHopIndex, List.filter_append, hnil, hself, List.nil_append]
    exact eraseDups_of_nodup (nodup_eraseDups _)
  change retainResolvedPathHops (· ∈ s.packets) (rawHops s.buildPathHopIndex) s.buildPathHopIndex.byPathHop k =
    retainResolvedPathHops (· ∈ s.packets) (rawHops s) s.byPathHop k
  unfold retainResolvedPathHops
  rw [hraw, hretained]

theorem exact_iff (hnd : s.packets.Nodup) {filed : TxRef × String → Prop} : Exact filed s ↔
    ∀ k, ∀ r ∈ bucket s.byPathHop k, r ∈ s.packets → k ∈ pathHopKeys (s.path r) ∨ filed (r, k) := by
  constructor
  · intro h k r hr hlive
    exact ((h.mem k r).mp (mem_buildPathHopIndex.mpr ⟨hlive, .inr hr⟩)).2.imp_right And.right
  · intro h
    refine ⟨fun k r => ?_, nodup_buildPathHopIndex hnd, buildPathHopIndex_twice s⟩
    rw [mem_buildPathHopIndex]
    refine and_congr_right fun hlive => ⟨?_, Or.imp_right And.left⟩
    rintro (hk | hr)
    · exact .inl hk
    · exact (h k r hr hlive).imp_right fun hf => ⟨hr, hf⟩

end Rebuild

/-- Apart from what was filed under a relay, a transmission is under the hops of its path at
most, once each. -/
def Sourced (filed : TxRef × String → Prop) (ip : TxRef → List String) (idx : GoMap String (List TxRef)) : Prop :=
  ∀ k r, ¬ filed (r, k) → (bucket idx k).count r ≤ (pathHopKeys (ip r)).count k

section Sourced

variable {filed filed' : TxRef × String → Prop} {ip ip' : TxRef → List String} {idx idx' : GoMap String (List TxRef)}

theorem Sourced.mem (h : Sourced filed ip idx) {k : String} {r : TxRef} (hr : r ∈ bucket idx k) :
    k ∈ pathHopKeys (ip r) ∨ filed (r, k) := by
  by_cases hf : filed (r, k)
  · exact .inr hf
  · have hpos : 0 < (bucket idx k).count r := List.count_pos_iff.mpr hr
    exact .inl (List.count_pos_iff.mp (hpos.trans_le (h k r hf)))

theorem Sourced.imp (h : Sourced filed ip idx) (himp : ∀ e, filed e → filed' e) : Sourced filed' ip idx :=
  fun k r hf => h k r (mt (himp _) hf)

theorem Sourced.sublist (h : Sourced filed ip idx) (hsub : ∀ k, (bucket idx' k).Sublist (bucket idx k)) :
    Sourced filed ip idx' := fun k r hf => ((hsub k).count_le r).trans (h k r hf)

theorem Sourced.repath (h : Sourced filed ip idx) (hsame : ∀ r, ip r ≠ [] → ip' r = ip r) : Sourced filed ip' idx := by
  intro k r hf
  by_cases hnil : ip r = []
  · have hzero := h k r hf
    rw [hnil] at hzero
    exact (Nat.le_zero.mp hzero).trans_le (Nat.zero_le _)
  · rw [hsame r hnil]
    exact h k r hf

theorem Sourced.file (h : Sourced filed ip idx) {keys : List String} {r : TxRef} (hkeys : ∀ k ∈ keys, filed (r, k)) :
    Sourced filed ip (pushAll idx keys r) := by
  intro k q hf
  rw [count_bucket_pushAll]
  by_cases hqr : q = r
  · subst hqr
    rw [List.count_eq_zero_of_not_mem fun hk => hf (hkeys k hk)]
    simpa using h k q hf
  · simpa [hqr] using h k q hf

theorem Sourced.add (h : Sourced filed ip idx) {r : TxRef} (hnil : ip r = []) (hops : List String) :
    Sourced filed (Function.update ip r hops) (pushAll idx (pathHopKeys hops) r) := by
  intro k q hf
  have hq := h k q hf
  rw [count_bucket_pushAll]
  by_cases hqr : q = r
  · subst hqr
    rw [hnil] at hq
    rw [Nat.le_zero.mp hq]
    simp
  · simpa [hqr] using hq

theorem Sourced.remove (h : Sourced filed ip idx) {r : TxRef} {p : TxRef → Bool}
    (hfirst : ∀ k ∈ pathHopKeys (ip r), ¬ filed (r, k) → r ∈ bucket idx k → (bucket idx k).find? p = some r) :
    Sourced filed (Function.update ip r []) (removeAll p idx (pathHopKeys (ip r))) := by
  intro k q hf
  have hq := h k q hf
  rw [bucket_removeAll _ _ (nodup_pathHopKeys _)]
  have hle : ((bucket idx k).eraseP p).count q ≤ (bucket idx k).count q := List.eraseP_sublist.count_le q
  by_cases hqr : q = r
  · subst hqr
    rw [Function.update_self]
    by_cases hk : k ∈ pathHopKeys (ip q)
    · rw [if_pos hk]
      rw [List.count_eq_one_of_mem (nodup_pathHopKeys _) hk] at hq
      by_cases hmem : q ∈ bucket idx k
      · rw [count_eraseP_of_find? (hfirst k hk hf hmem)]
        exact (Nat.sub_eq_zero_of_le hq).trans_le (Nat.zero_le _)
      · rw [List.count_eq_zero_of_not_mem hmem] at hle
        exact hle.trans (Nat.zero_le _)
    · rw [if_neg hk]
      rw [List.count_eq_zero_of_not_mem hk] at hq
      exact hq.trans (Nat.zero_le _)
  · rw [Function.update_of_ne hqr]
    split
    · exact hle.trans hq
    · exact hq

end Sourced

def Clean (filed : TxRef × String → Prop) (s : Store) : Prop := Sourced filed s.path s.byPathHop

section Loops

variable {filed filed' : TxRef × String → Prop} {s : Store}

theorem Clean.congr {t : Store} (h : Clean filed s) (hpath : t.path = s.path) (hidx : t.byPathHop = s.byPathHop) :
    Clean filed t := by
  rw [Clean]
  rw [hpath, hidx]
  exact h

theorem addPaths_all {rs : List TxRef} (hnd : rs.Nodup)
    (h : Sourced filed (fun q => if q ∈ rs then [] else s.path q) s.byPathHop) : Clean filed (rs.foldl addPaths s) := by
  induction rs generalizing s with
  | nil => simpa [Clean] using h
  | cons r rs ih =>
      obtain ⟨hr, hrs⟩ := List.nodup_cons.mp hnd
      have hadd := h.add (if_pos List.mem_cons_self) (s.path r)
      apply ih hrs
      have hips : (fun q => if q ∈ rs then [] else s.path q) =
          Function.update (fun q => if q ∈ r :: rs then [] else s.path q) r (s.path r) := by
        funext q
        by_cases hq : q = r
        · subst hq
          simp [hr]
        · simp [hq]
      rw [path_addPaths, hips]
      exact hadd

theorem byPathHop_dropPathHops (s : Store) (hops : List String) (r : TxRef) : (s.dropPathHops hops r).byPathHop =
    removeAll (fun t => (s.row t).id = (s.row r).id) s.byPathHop (pathHopKeys hops) := by
  rw [dropPathHops]
  split
  · rfl
  · next h =>
      have hnil : hops = [] := List.length_eq_zero_iff.mp (Nat.eq_zero_of_not_pos h)
      rw [hnil]
      rfl

theorem byPathHop_repath {old : TxRef → String} {r : TxRef} (h : s.pathChanged old r = true) :
    (s.repath old r).byPathHop = pushAll (removeAll (fun t => (s.row t).id = (s.row r).id) s.byPathHop
      (pathHopKeys (parsePathJSON (old r)))) (pathHopKeys (s.path r)) r := by
  have hstore : s.repath old r =
      ((s.dropSubpaths (parsePathJSON (old r)) r).dropPathHops (parsePathJSON (old r)) r).addPaths r := if_pos h
  have hrow : (s.dropSubpaths (parsePathJSON (old r)) r).row = s.row :=
    row_eq_of_catalog (catalog_dropSubpaths s _ r)
  have hpath : ((s.dropSubpaths (parsePathJSON (old r)) r).dropPathHops (parsePathJSON (old r)) r).path r =
      s.path r := by
    unfold Store.path
    rw [heap_dropPathHops, heap_dropSubpaths]
  rw [hstore, byPathHop_addPaths, hpath, byPathHop_dropPathHops, byPathHop_dropSubpaths, hrow]

theorem find?_repath {old : TxRef → String} {r q : TxRef} (hid : (s.row r).id ≠ (s.row q).id) (k : String) :
    (bucket (s.repath old r).byPathHop k).find? (fun t => (s.row t).id = (s.row q).id) =
      (bucket s.byPathHop k).find? fun t => (s.row t).id = (s.row q).id := by
  by_cases hch : s.pathChanged old r = true
  · have hnone : ∀ n, (List.replicate n r).find? (fun t => (s.row t).id = (s.row q).id) = none := by
      intro n
      rw [List.find?_eq_none]
      intro t ht
      rw [List.eq_of_mem_replicate ht]
      simpa using hid
    rw [byPathHop_repath hch, bucket_pushAll, List.find?_append, hnone, Option.or_none,
      bucket_removeAll _ _ (nodup_pathHopKeys _)]
    split
    · apply find?_eraseP
      intro t ht
      simpa [of_decide_eq_true ht] using hid
    · rfl
  · rw [show s.repath old r = s from if_neg hch]

theorem FirstOfID.repath {q : TxRef} {k : String} (h : FirstOfID s q k) {old : TxRef → String} {r : TxRef}
    (hid : (s.row r).id ≠ (s.row q).id) : FirstOfID (s.repath old r) q k := by
  intro hq
  rw [row_eq_of_catalog (catalog_repath old s r), find?_repath hid]
  apply h
  by_cases hch : s.pathChanged old r = true
  · rw [byPathHop_repath hch] at hq
    rcases mem_bucket_pushAll.mp hq with hq | ⟨_, rfl⟩
    · exact mem_bucket_removeAll hq
    · exact absurd rfl hid
  · rwa [show s.repath old r = s from if_neg hch] at hq

theorem repath_all {rs : List TxRef} {old : TxRef → String} (hids : (rs.map fun r => (s.row r).id).Nodup)
    (hfirst : ∀ r ∈ rs, s.pathChanged old r = true → ∀ k ∈ pathHopKeys (parsePathJSON (old r)),
      FirstOfID s r k ∨ filed (r, k))
    (h : Sourced filed (fun q => if q ∈ rs then parsePathJSON (old q) else s.path q) s.byPathHop) :
    Clean filed (rs.foldl (repath old) s) := by
  induction rs generalizing s with
  | nil => simpa [Clean] using h
  | cons r rs ih =>
      obtain ⟨hr, hrs⟩ := List.nodup_cons.mp hids
      have hrow : (s.repath old r).row = s.row := row_eq_of_catalog (catalog_repath old s r)
      have hnot : r ∉ rs := fun hm => hr (List.mem_map_of_mem hm)
      have hself : (if r ∈ r :: rs then parsePathJSON (old r) else s.path r) = parsePathJSON (old r) :=
        if_pos List.mem_cons_self
      rw [List.foldl_cons]
      apply ih
      · rw [hrow]
        exact hrs
      · intro q hq hch k hk
        have hid : (s.row r).id ≠ (s.row q).id := fun heq => hr (List.mem_map.mpr ⟨q, hq, heq.symm⟩)
        have hch' : s.pathChanged old q = true := by
          rwa [pathChanged, pathJSON_repath] at hch
        exact (hfirst q (List.mem_cons_of_mem r hq) hch' k hk).imp_left fun hf => hf.repath hid
      · rw [path_repath]
        by_cases hch : s.pathChanged old r = true
        · have hremove := h.remove (r := r) (p := fun t => (s.row t).id = (s.row r).id) (by
            rw [hself]
            intro k hk hf hmem
            exact ((hfirst r List.mem_cons_self hch k hk).resolve_right hf) hmem)
          rw [hself] at hremove
          have hadd := hremove.add (Function.update_self _ _ _) (s.path r)
          have hips : (fun q => if q ∈ rs then parsePathJSON (old q) else s.path q) =
              Function.update (Function.update
                (fun q => if q ∈ r :: rs then parsePathJSON (old q) else s.path q) r []) r (s.path r) := by
            funext q
            by_cases hq : q = r
            · subst hq
              simp [hnot]
            · simp [hq]
          rw [byPathHop_repath hch, hips]
          exact hadd
        · have hjson : (s.heap r).pathJSON = old r := by simpa [pathChanged] using hch
          have hips : (fun q => if q ∈ rs then parsePathJSON (old q) else s.path q) =
              fun q => if q ∈ r :: rs then parsePathJSON (old q) else s.path q := by
            funext q
            by_cases hq : q = r
            · subst hq
              simp [hnot, path_eq, hjson]
            · simp [hq]
          rw [show s.repath old r = s from if_neg hch, hips]
          exact h

end Loops

section Rows

variable {filed : TxRef × String → Prop} {loc : List TxRef} {s : Store}

theorem Clean.imp {filed' : TxRef × String → Prop} (h : Clean filed s) (himp : ∀ e, filed e → filed' e) :
    Clean filed' s := Sourced.imp h himp

theorem Clean.findOrInsert (h : Clean filed s) (hkept : Dangling.Kept s) (tx : TxRow) :
    Clean filed (s.findOrInsert tx).1 := by
  rw [Store.findOrInsert]
  split
  · exact h
  · exact h.congr (path_of_pathView (hkept.pathView_insertTx tx)) (byPathHop_insertTx s tx)

theorem Clean.attach (h : Clean filed s) {index : Store → TxRef → ObsRow → Store} {r : TxRef} {o : ObsRow}
    {keys : List String} (hview : (index s r o).pathView = s.pathView)
    (hidx : (index s r o).byPathHop = pushAll s.byPathHop keys r) (hkeys : ∀ k ∈ keys, filed (r, k)) :
    Clean filed ((index s r o).attachObs r o.toObs) := by
  have hindexed : Clean filed (index s r o) := by
    rw [Clean]
    rw [path_of_pathView hview, hidx]
    exact Sourced.file h hkeys
  exact hindexed.congr (path_of_pathView (pathView_attachObs _ r o.toObs)) rfl

theorem Clean.mergeRow (h : Clean filed s) (hkept : Dangling.Kept s) {index : Store → TxRef → ObsRow → Store}
    {hopKeys : TxRow → ObsRow → List String} (hview : ∀ s r o, (index s r o).pathView = s.pathView)
    (hidx : ∀ s r o, (index s r o).byPathHop =
      pushAll s.byPathHop (resolvedHopKeys (s.path r) (hopKeys (s.row r) o)) r) (row : ScanRow) :
    Clean (fun e => filed e ∨ RowFiles hopKeys e s row) (mergeRow index s row) := by
  have hfound : Clean (fun e => filed e ∨ RowFiles hopKeys e s row) (s.findOrInsert row.tx).1 :=
    (h.findOrInsert hkept row.tx).imp fun _ => Or.inl
  rw [Store.mergeRow]
  split
  · exact hfound
  · next o ho =>
      rw [mergeObs]
      split
      · exact hfound
      · next hkey =>
          exact hfound.attach (hview _ _ _) (hidx _ _ _) fun k hk => .inr ⟨o, ho, rfl, hkey, hk⟩

theorem lateRow_files (env : Env) (acc : Store × List (Int × TxRef)) (o : ObsRow) :
    (lateRow env acc o).1.pathView = acc.1.pathView ∧ ∃ r keys,
      (lateRow env acc o).1.byPathHop = pushAll acc.1.byPathHop keys r ∧ ∀ k ∈ keys, LateFiles env (r, k) acc o := by
  have hsame : acc.1.pathView = acc.1.pathView ∧ ∃ r keys,
      acc.1.byPathHop = pushAll acc.1.byPathHop keys r ∧ ∀ k ∈ keys, LateFiles env (r, k) acc o :=
    ⟨rfl, 0, [], rfl, fun _ hk => (by cases hk)⟩
  rw [Store.lateRow]
  split
  · exact hsame
  · next hseen =>
      split
      · exact hsame
      · next r hr =>
          split
          · exact hsame
          · next hkey =>
              refine ⟨?_, r, _, byPathHop_indexLiveHops env acc.1 r o, fun k hk => ⟨by simpa using hseen, hr, hkey, hk⟩⟩
              exact (pathView_attachObs _ r o.toObs).trans (pathView_indexLiveHops env acc.1 r o)

theorem Clean.lateRow {acc : Store × List (Int × TxRef)} (h : Clean filed acc.1) (env : Env) (o : ObsRow) :
    Clean (fun e => filed e ∨ LateFiles env e acc o) (lateRow env acc o).1 := by
  obtain ⟨hview, r, keys, hidx, hkeys⟩ := lateRow_files env acc o
  rw [Clean]
  rw [path_of_pathView hview, hidx]
  apply Sourced.file (h.imp fun _ => Or.inl)
  exact fun k hk => .inr (hkeys k hk)

theorem Clean.mergeRows (h : Clean filed s) (hwf : s.catalog.WF loc) (hkept : Dangling.Kept s)
    {index : Store → TxRef → ObsRow → Store} {hopKeys : TxRow → ObsRow → List String}
    (hcat : ∀ s r o, (index s r o).catalog = s.catalog) (hview : ∀ s r o, (index s r o).pathView = s.pathView)
    (hkeep : ∀ s r o, Dangling.Kept s → Dangling.Kept (index s r o))
    (hidx : ∀ s r o, (index s r o).byPathHop =
      pushAll s.byPathHop (resolvedHopKeys (s.path r) (hopKeys (s.row r) o)) r) (rows : List ScanRow) :
    Clean (fun e => filed e ∨ Sometime (Store.mergeRow index) (RowFiles hopKeys e) s rows)
      (rows.foldl (Store.mergeRow index) s) := by
  have hstep : ∀ marked t, ∀ row ∈ rows, t.catalog.WF loc ∧ Dangling.Kept t ∧ Clean marked t →
      (Store.mergeRow index t row).catalog.WF loc ∧ Dangling.Kept (Store.mergeRow index t row) ∧
        Clean (fun e => marked e ∨ RowFiles hopKeys e t row) (Store.mergeRow index t row) := by
    rintro marked t row _ ⟨hwf, hkept, ht⟩
    refine ⟨wf_mergeRow hcat hwf row, ?_, ht.mergeRow hkept hview hidx row⟩
    exact mergeRow_invariant (fun _ tx _ _ hs => hs.insertTx tx)
      (fun s r o _ _ _ hs => (hkeep s r o hs).attachObs r o.toObs) hwf hkept row
  have hall := foldl_marked (I := fun filed t => t.catalog.WF loc ∧ Dangling.Kept t ∧ Clean filed t)
    ⟨hwf, hkept, h⟩ hstep
  exact hall.2.2

theorem Clean.lateRows {acc : Store × List (Int × TxRef)} (h : Clean filed acc.1) (env : Env) (rows : List ObsRow) :
    Clean (fun e => filed e ∨ Sometime (Store.lateRow env) (LateFiles env e) acc rows)
      (rows.foldl (Store.lateRow env) acc).1 :=
  foldl_marked (M := LateFiles env) (I := fun filed (acc : Store × List (Int × TxRef)) => Clean filed acc.1) h
    fun _ _ o _ hacc => hacc.lateRow env o

theorem pathJSON_lateRows (env : Env) (rows : List ObsRow) (acc : Store × List (Int × TxRef)) (r : TxRef) :
    (((rows.foldl (lateRow env) acc).1).heap r).pathJSON = (acc.1.heap r).pathJSON :=
  pathJSON_of_pathView (foldl_view (v := fun acc : Store × List (Int × TxRef) => acc.1.pathView)
    fun acc o _ => (lateRow_files env acc o).1) r

theorem bucket_lateRows (env : Env) (s : Store) (rows : List ObsRow) (k : String) :
    ∃ l, bucket (rows.foldl (lateRow env) (s, [])).1.byPathHop k = bucket s.byPathHop k ++ l ∧
      ∀ r ∈ l, Sometime (lateRow env) (LateFiles env (r, k)) (s, []) rows := by
  have hstep : ∀ (marked : TxRef × String → Prop) (acc : Store × List (Int × TxRef)), ∀ o ∈ rows,
      (∃ l, bucket acc.1.byPathHop k = bucket s.byPathHop k ++ l ∧ ∀ r ∈ l, marked (r, k)) →
        ∃ l, bucket (lateRow env acc o).1.byPathHop k = bucket s.byPathHop k ++ l ∧
          ∀ r ∈ l, marked (r, k) ∨ LateFiles env (r, k) acc o := by
    rintro marked acc o _ ⟨l, hl, hmarked⟩
    obtain ⟨_, r, keys, hidx, hkeys⟩ := lateRow_files env acc o
    refine ⟨l ++ List.replicate (keys.count k) r, ?_, fun q hq => ?_⟩
    · rw [hidx, bucket_pushAll, hl, List.append_assoc]
    · rcases List.mem_append.mp hq with hq | hq
      · exact .inl (hmarked q hq)
      · obtain ⟨hne, rfl⟩ := List.mem_replicate.mp hq
        exact .inr (hkeys k (List.count_pos_iff.mp (Nat.pos_of_ne_zero hne)))
  have hall := foldl_marked (R := fun _ => False) (M := LateFiles env)
    (I := fun marked (acc : Store × List (Int × TxRef)) =>
      ∃ l, bucket acc.1.byPathHop k = bucket s.byPathHop k ++ l ∧ ∀ r ∈ l, marked (r, k))
    (s := (s, [])) ⟨[], (List.append_nil _).symm, fun _ hr => (by cases hr)⟩ hstep
  obtain ⟨l, hl, hmarked⟩ := hall
  exact ⟨l, hl, fun r hr => (hmarked r hr).resolve_left id⟩

theorem updated_of_lateRows (env : Env) (s : Store) (rows : List ObsRow) :
    ∀ b ∈ (rows.foldl (lateRow env) (s, [])).2, ∃ o ∈ rows, o.txID = b.1 := by
  refine foldl_invariant (I := fun acc : Store × List (Int × TxRef) => ∀ b ∈ acc.2, ∃ o ∈ rows, o.txID = b.1)
    (fun _ hb => by cases hb) fun acc o ho hacc b hb => ?_
  unfold Store.lateRow at hb
  split at hb
  · exact hacc b hb
  · split at hb
    · exact hacc b hb
    · split at hb
      · exact hacc b hb
      · dsimp only at hb
        split at hb
        · exact hacc b hb
        · rcases List.mem_append.mp hb with hb | hb
          · exact hacc b hb
          · exact ⟨o, ho, by rw [List.mem_singleton.mp hb]⟩

end Rows

section Sections

variable {filed : TxRef × String → Prop} {loc : List TxRef} {s : Store}

theorem Clean.finishIngest (h : Clean filed s) (env : Env) {txs : List (Int × TxRef)} (hb : Broadcast s txs) :
    Clean filed (s.finishIngest env txs) := by
  -- nothing stands for the new transmissions yet
  have hunlisted : (fun q => if q ∈ env.indexOrder.refs txs then []
      else ((env.pickOrder.refs txs).foldl pickBest s).path q) = s.path := by
    funext q
    by_cases hq : q ∈ txs.map Prod.snd
    · obtain ⟨b, hbm, rfl⟩ := List.mem_map.mp hq
      rw [if_pos (env.indexOrder.mem_refs.mpr hq), path_eq, hb.pathless b hbm]
      rfl
    · rw [if_neg (mt env.indexOrder.mem_refs.mp hq),
        path_pickAll_of_notMem s (mt env.pickOrder.mem_refs.mp hq)]
  have hadded : Clean filed ((env.indexOrder.refs txs).foldl addPaths ((env.pickOrder.refs txs).foldl pickBest s)) := by
    apply addPaths_all (env.indexOrder.nodup_refs hb.nodup)
    rw [byPathHop_pickAll, hunlisted]
    exact h
  exact hadded.congr (path_of_pathView (pathView_addDistances_all env (env.distOrder.refs txs) _))
    (byPathHop_addAllDistances env _ _)

theorem Clean.finishObservations (h : Clean filed s) (hwf : s.catalog.WF loc) (env : Env) {txs : List (Int × TxRef)}
    (hu : Updated s txs)
    (hfirst : ∀ r ∈ txs.map Prod.snd, (s.heap r).pickBestObservation.pathJSON ≠ (s.heap r).pathJSON →
      ∀ k ∈ pathHopKeys (s.path r), FirstOfID s r k ∨ filed (r, k)) :
    Clean filed (s.finishObservations env txs) := by
  have hnd := hu.nodup hwf
  have hlisted : (fun q => if q ∈ env.indexOrder.refs txs then parsePathJSON (s.heap q).pathJSON
      else ((env.pickOrder.refs txs).foldl pickBest s).path q) = s.path := by
    funext q
    by_cases hq : q ∈ txs.map Prod.snd
    · rw [if_pos (env.indexOrder.mem_refs.mpr hq), path_eq]
    · rw [if_neg (mt env.indexOrder.mem_refs.mp hq),
        path_pickAll_of_notMem s (mt env.pickOrder.mem_refs.mp hq)]
  have hrow : ((env.pickOrder.refs txs).foldl pickBest s).row = s.row :=
    row_eq_of_catalog (catalog_pickAll s (env.pickOrder.refs txs))
  have hrepathed : Clean filed ((env.indexOrder.refs txs).foldl (Store.repath fun r => (s.heap r).pathJSON)
      ((env.pickOrder.refs txs).foldl pickBest s)) := by
    apply repath_all
    · have hids : (txs.map Prod.snd).map (fun r => (s.row r).id) = txs.map Prod.fst := by
        rw [List.map_map]
        exact List.map_congr_left fun b hb => (hwf.id _ _ (hu.byTxID b hb)).2
      rw [hrow, ((env.indexOrder.refs_perm txs).map _).nodup_iff, hids]
      exact hu.keys
    · intro r hr hch k hk
      have hmem := env.indexOrder.mem_refs.mp hr
      have hpicked : (s.heap r).pickBestObservation.pathJSON ≠ (s.heap r).pathJSON := by
        rw [pathChanged, heap_pickAll_of_mem (env.pickOrder.nodup_refs hnd) s (env.pickOrder.mem_refs.mpr hmem)] at hch
        simpa using hch
      rw [← path_eq] at hk
      have hkept := hfirst r hmem hpicked k hk
      unfold FirstOfID at hkept ⊢
      rw [hrow, byPathHop_pickAll]
      exact hkept
    · rw [byPathHop_pickAll, hlisted]
      exact h
  unfold Store.finishObservations
  dsimp only
  split
  · exact hrepathed
  · exact hrepathed.congr (path_of_pathView (pathView_updateDistanceIndexForTxs env _ _))
      (byPathHop_updateDistanceIndexForTxs env _ _)

theorem Clean.buildPathHopIndex (h : Clean filed s) (hnd : s.packets.Nodup) : Clean filed s.buildPathHopIndex := by
  intro k r hf
  rw [path_of_pathView (pathView_buildPathHopIndex s)]
  by_cases hmem : r ∈ bucket s.buildPathHopIndex.byPathHop k
  · have hk : k ∈ pathHopKeys (s.path r) := by
      rcases (mem_buildPathHopIndex.mp hmem).2 with hk | hr
      · exact hk
      · exact (Sourced.mem h hr).resolve_right hf
    rw [List.count_eq_one_of_mem (nodup_pathHopKeys _) hk]
    exact List.nodup_iff_count_le_one.mp (nodup_buildPathHopIndex hnd k) r
  · rw [List.count_eq_zero_of_not_mem hmem]
    exact Nat.zero_le _

theorem Clean.pickAndIndexAll (h : Clean filed s) (hnd : s.packets.Nodup)
    (hkeep : ∀ r ∈ s.packets, ∀ k ∈ pathHopKeys (s.path r), r ∈ bucket s.byPathHop k →
      k ∈ pathHopKeys (s.heap r).pickBestObservation.txGetParsedPath ∨ filed (r, k)) :
    Clean filed s.pickAndIndexAll.sortPackets.buildSubpathIndex := by
  have hidx : s.pickAndIndexAll.byPathHop = s.byPathHop := foldl_view (v := Store.byPathHop) fun _ _ _ => rfl
  have hpicked : Clean filed s.pickAndIndexAll := by
    intro k r hf
    have hold := h k r hf
    have hpath : s.pickAndIndexAll.path r =
        if r ∈ s.packets then (s.heap r).pickBestObservation.txGetParsedPath else s.path r := by
      unfold Store.path
      rw [heap_pickAndIndexAll]
      split
      · next hr => rw [heap_pickAll_of_mem hnd s hr]
      · next hr => rw [heap_pickAll_of_notMem s hr]
    rw [hidx, hpath]
    split
    · next hr =>
        by_cases hmem : r ∈ bucket s.byPathHop k
        · have hk := (Sourced.mem h hmem).resolve_right hf
          have hnew := (hkeep r hr k hk hmem).resolve_right hf
          rw [List.count_eq_one_of_mem (nodup_pathHopKeys _) hk] at hold
          rw [List.count_eq_one_of_mem (nodup_pathHopKeys _) hnew]
          exact hold
        · rw [List.count_eq_zero_of_not_mem hmem]
          exact Nat.zero_le _
    · exact hold
  exact hpicked.congr (path_buildSubpathIndex _) rfl

theorem Clean.readChunk (h : Clean filed s) (hkept : Dangling.Kept s) (relayPM : Option PrefixMap)
    (rows : List ScanRow) : Clean filed (s.readChunk relayPM rows).1 := by
  have hstart : Dangling.Apart s s Chunk.empty := ⟨hkept, rfl, fun r hr => (by cases hr), Nat.le_refl _⟩
  have hread := hstart.readRows relayPM rows
  have hidx := byPathHop_readChunk relayPM rows s
  rw [Clean]
  rw [hidx]
  apply Sourced.repath h
  intro r hr
  have hnot : r ∉ (rows.foldl (readRow relayPM) (s, Chunk.empty)).2.packets := by
    intro hmem
    rw [path_eq, hkept.blank r (hread.new r hmem)] at hr
    exact hr rfl
  exact (path_pickAll_of_notMem _ hnot).trans (congrFun (path_of_pathView hread.view) r)

theorem Clean.mergeBatch {c : Chunk} (h : Clean filed s) : Clean (fun e => filed e ∨
    e.1 ∈ c.pending.take mergeBatchSize ∧ e.2 ∈ resolvedHopKeys (s.path e.1) (bucket c.resolvedPKs (s.row e.1).id))
      (s.mergeBatch c).1 := by
  have hstep : ∀ t : Store, ∀ r ∈ c.pending.take mergeBatchSize, (t.path = s.path ∧ t.row = s.row ∧
      Clean (fun e => filed e ∨ e.1 ∈ c.pending.take mergeBatchSize ∧
        e.2 ∈ resolvedHopKeys (s.path e.1) (bucket c.resolvedPKs (s.row e.1).id)) t) →
      (Store.mergeTx c t r).path = s.path ∧ (Store.mergeTx c t r).row = s.row ∧
        Clean (fun e => filed e ∨ e.1 ∈ c.pending.take mergeBatchSize ∧
          e.2 ∈ resolvedHopKeys (s.path e.1) (bucket c.resolvedPKs (s.row e.1).id)) (Store.mergeTx c t r) := by
    rintro t r hr ⟨hpath, hrow, ht⟩
    have hrow' : (Store.mergeTx c t r).row = t.row := congrArg Catalog.row (catalog_mergeTx c t r)
    refine ⟨(path_mergeTx c t r).trans hpath, hrow'.trans hrow, ?_⟩
    rw [Clean]
    rw [path_mergeTx, byPathHop_mergeTx]
    apply Sourced.file ht
    intro k hk
    rw [hpath, hrow] at hk
    exact .inr ⟨hr, hk⟩
  have hstart : Clean filed (s.mergePrimary (c.pending.take mergeBatchSize)) := h.congr rfl rfl
  exact (foldl_invariant ⟨rfl, rfl, hstart.imp fun _ => Or.inl⟩ hstep).2.2

theorem Clean.evictStaleInternal (h : Clean filed s) (ret : Retention) (rpBatch : Int → List String) :
    Clean filed (s.evictStaleInternal ret rpBatch) := by
  rw [Store.evictStaleInternal]
  split
  · exact h
  · split
    · exact h
    · rw [Clean]
      rw [path_evict]
      apply Sourced.sublist h
      intro k
      change (bucket (filterKeys (fun _ => true) _ s.byPathHop) k).Sublist _
      rw [bucket_filterKeys, if_pos rfl]
      exact List.filter_sublist

theorem Clean.ingestNewObservations (h : Clean filed s) (hwf : s.catalog.WF loc) (env : Env) (limit : Int)
    (rows : List ObsRow)
    (hkeep : ∀ o ∈ observed limit rows, ∀ r, s.byTxID o.txID = some r →
      ((((observed limit rows).foldl (Store.lateRow env) (s, [])).1.heap r).pickBestObservation.pathJSON ≠
        (s.heap r).pathJSON) → ∀ k ∈ pathHopKeys (s.path r), FirstOfID s r k ∨ filed (r, k)) :
    Clean (fun e => filed e ∨ Sometime (Store.lateRow env) (LateFiles env e) (s, []) (observed limit rows))
      (s.ingestNewObservations env limit rows) := by
  have hcat := catalog_lateRows env (observed limit rows) (s, [])
  have hstart : Clean filed ((s, []) : Store × List (Int × TxRef)).1 := h
  have hlate := hstart.lateRows env (observed limit rows)
  have hupdated := Updated.lateRows s env (observed limit rows)
  have hids := updated_of_lateRows env s (observed limit rows)
  have hbuckets := bucket_lateRows env s (observed limit rows)
  have hjson : ∀ r, ((((observed limit rows).foldl (Store.lateRow env) (s, [])).1).heap r).pathJSON =
      (s.heap r).pathJSON := fun r => pathJSON_lateRows env (observed limit rows) (s, []) r
  change Clean _ (Store.finishObservations env ((observed limit rows).foldl (Store.lateRow env) (s, [])).1
    ((observed limit rows).foldl (Store.lateRow env) (s, [])).2)
  generalize (observed limit rows).foldl (Store.lateRow env) (s, []) = acc at *
  have hwf' : acc.1.catalog.WF loc := by
    rw [hcat]
    exact hwf
  apply hlate.finishObservations hwf' env hupdated
  intro r hr hpicked k hk
  obtain ⟨b, hb, rfl⟩ := List.mem_map.mp hr
  obtain ⟨o, ho, htx⟩ := hids b hb
  have hrow : acc.1.row = s.row := row_eq_of_catalog hcat
  have hbyID : s.byTxID o.txID = some b.2 := by
    rw [htx, ← hupdated.byTxID b hb, byTxID_of_catalog hcat]
  rw [hjson] at hpicked
  rw [path_eq, hjson, ← path_eq] at hk
  rcases hkeep o ho b.2 hbyID hpicked k hk with hfirst | hfiled
  · by_cases hold : b.2 ∈ bucket s.byPathHop k
    · left
      intro _
      obtain ⟨l, hl, _⟩ := hbuckets k
      rw [hrow, hl, List.find?_append, hfirst hold, Option.some_or]
    · by_cases hmem : b.2 ∈ bucket acc.1.byPathHop k
      · obtain ⟨l, hl, hmarked⟩ := hbuckets k
        rw [hl, List.mem_append] at hmem
        exact .inr (.inr (hmarked _ (hmem.resolve_left hold)))
      · exact .inl fun hin => absurd hin hmem
  · exact .inr (.inl hfiled)

end Sections

section Runs

variable {filed : TxRef × String → Prop} {st : State}

theorem Clean.step (h : Clean filed st.store) (hwf : st.WF) (hkept : Dangling.Kept st.store) {a : Action}
    (ha : st.Enabled a) (hkeep : Keeps filed st a) : Clean (fun e => filed e ∨ Files e st a) (st.step a).store := by
  have hnd : st.store.packets.Nodup := (List.nodup_append.mp hwf.catalog.nodup).2.1
  cases a with
  | scanAndMergeChunk relayPM rows =>
      exact h.mergeRows hwf.catalog hkept (catalog_indexLoadedHops relayPM) (pathView_indexLoadedHops relayPM)
        (fun _ r o hs => hs.indexLoadedHops relayPM r o) (byPathHop_indexLoadedHops relayPM) rows
  | finishLoad env hotCutoff =>
      have hpackets : st.store.pickAndIndexAll.sortPackets.buildSubpathIndex.packets.Nodup := by
        refine (List.perm_insertionSort _ st.store.pickAndIndexAll.packets).nodup_iff.mpr ?_
        rw [packets_of_catalog (catalog_pickAndIndexAll st.store)]
        exact hnd
      have hbuilt := (h.pickAndIndexAll hnd hkeep).buildPathHopIndex hpackets
      have hdist := hbuilt.congr (path_of_pathView (pathView_buildDistanceIndex env _))
        (byPathHop_buildDistanceIndex env _)
      exact hdist.imp fun _ => Or.inl
  | ingestNewFromDB env sinceID limit rows =>
      have hrows := h.mergeRows hwf.catalog hkept (catalog_indexLiveHops env) (pathView_indexLiveHops env)
        (fun _ r o hs => hs.indexLiveHops env r o) (byPathHop_indexLiveHops env) (ingested sinceID limit rows)
      rw [← ingestRows_fst env _ (st.store, [])] at hrows
      exact hrows.finishIngest env (Broadcast.ingestRows hwf.catalog env _)
  | ingestNewObservations env limit rows => exact h.ingestNewObservations hwf.catalog env limit rows hkeep
  | readChunk relayPM rows => exact (h.readChunk hkept relayPM rows).imp fun _ => Or.inl
  | mergeBatch =>
      unfold State.step
      dsimp only
      split
      · next c hc =>
          apply h.mergeBatch.imp
          rintro e (he | he)
          · exact .inl he
          · exact .inr ⟨c, hc, he⟩
      · exact h.imp fun _ => Or.inl
  | publish =>
      unfold State.step
      dsimp only
      split
      · exact (h.congr rfl rfl).imp fun _ => Or.inl
      · exact h.imp fun _ => Or.inl
  | rebuild =>
      have hsubpaths : Clean filed st.store.buildSubpathIndex := h.congr (path_buildSubpathIndex st.store) rfl
      exact (hsubpaths.buildPathHopIndex hnd).imp fun _ => Or.inl
  | buildDistanceIndex env =>
      exact (h.congr (path_of_pathView (pathView_buildDistanceIndex env st.store))
        (byPathHop_buildDistanceIndex env st.store)).imp fun _ => Or.inl
  | evict ret rpBatch => exact (h.evictStaleInternal ret rpBatch).imp fun _ => Or.inl

theorem clean_after {use : Bool} {acts : List Action} (h : Along State.step State.Enabled (State.new use) acts)
    (hkeep : ∀ done a, done ++ [a] <+: acts → Keeps (Resolved use done) (State.after use done) a) :
    Clean (Resolved use acts) (State.after use acts).store := by
  induction acts using List.reverseRecOn with
  | nil =>
      intro k r _
      exact Nat.zero_le _
  | append_singleton acts a ih =>
      obtain ⟨hacts, ha, _⟩ := along_append.mp h
      have hclean := ih hacts fun done b hb => hkeep done b (hb.trans (List.prefix_append acts [a]))
      have hreach := reachable_after hacts
      have hnext := hclean.step hreach.wf (Dangling.kept_of_reachable hreach) ha (hkeep acts a (List.prefix_refl _))
      rw [State.after_snoc]
      apply hnext.imp
      rintro e (he | he)
      · exact sometime_append.mpr (.inl he)
      · exact sometime_append.mpr (.inr (.inl he))

end Runs

theorem exact_of_clean {filed : TxRef × String → Prop} {s : Store} (hnd : s.packets.Nodup) (h : Clean filed s) :
    Exact filed s := (exact_iff hnd).mpr fun _ _ hr _ => Sourced.mem h hr

theorem rebuilds_exact {use : Bool} {acts : List Action} (h : Along State.step State.Enabled (State.new use) acts)
    (hkeep : ∀ done a, done ++ [a] <+: acts → Keeps (Resolved use done) (State.after use done) a) :
    ∀ done, done <+: acts → Exact (Resolved use done) (State.after use done).store ∧
      ∀ a, done ++ [a] <+: acts → ∀ s ∈ rebuilt (State.after use done) a, Exact (Resolved use done) s := by
  rintro done ⟨rest, rfl⟩
  have hdone := h.append_left
  have hclean := clean_after hdone fun d b hb => hkeep d b (hb.trans (List.prefix_append done rest))
  have hnd : (State.after use done).store.packets.Nodup :=
    (List.nodup_append.mp (reachable_after hdone).wf.catalog.nodup).2.1
  refine ⟨exact_of_clean hnd hclean, fun a ha s hs => ?_⟩
  have hkept := hkeep done a ha
  cases a with
  | finishLoad env hotCutoff =>
      cases hs
      apply exact_of_clean _ (hclean.pickAndIndexAll hnd hkept)
      refine (List.perm_insertionSort _ (State.after use done).store.pickAndIndexAll.packets).nodup_iff.mpr ?_
      rw [packets_of_catalog (catalog_pickAndIndexAll _)]
      exact hnd
  | rebuild =>
      cases hs
      exact exact_of_clean hnd (hclean.congr (path_buildSubpathIndex _) rfl)
  | _ => cases hs

def heardOnce : ScanRow := heardRow (plainTx 1 "h1" "2026-01-01T00:00:00Z" 4) 1 "obs1" "[\"aa\"]"

def heardAgain : ScanRow := heardRow (plainTx 1 "h1" "2026-01-01T00:00:00Z" 4) 2 "obs2" "[\"bb\",\"cc\"]"

def polled : Action := .ingestNewFromDB (plainEnv none) 0 100 [heardOnce]

def scanned : Action := .scanAndMergeChunk none [heardOnce, heardAgain]

def loadEnd : Action := .finishLoad (plainEnv none) none

theorem rebuilds_exact_polled : Along State.step State.Enabled (State.new true) [polled, loadEnd] ∧
    (∀ done a, done ++ [a] <+: [polled, loadEnd] → Keeps (Resolved true done) (State.after true done) a) ∧
    ∀ done, done <+: [polled, loadEnd] → Exact (Resolved true done) (State.after true done).store ∧
      ∀ a, done ++ [a] <+: [polled, loadEnd] → ∀ s ∈ rebuilt (State.after true done) a, Exact (Resolved true done) s := by
  have hrun : Along State.step State.Enabled (State.new true) [polled, loadEnd] := ⟨trivial, ⟨rfl, rfl⟩, trivial⟩
  have hkeep : ∀ done a, done ++ [a] <+: [polled, loadEnd] →
      Keeps (Resolved true done) (State.after true done) a := by
    rintro done a ⟨rest, hrest⟩
    rcases done with _ | ⟨d, _ | ⟨d', done⟩⟩
    · cases hrest
      trivial
    · cases hrest
      intro r hr k hk _
      have hpackets : (State.after true [polled]).store.packets = [0] := rfl
      rw [hpackets, List.mem_singleton] at hr
      subst hr
      have hsame : ((State.after true [polled]).store.heap 0).pickBestObservation.txGetParsedPath =
          (State.after true [polled]).store.path 0 := by decide +kernel
      rw [hsame]
      exact .inl hk
    · simp at hrest
  exact ⟨hrun, hkeep, rebuilds_exact hrun hkeep⟩

theorem not_rowFiles {hopKeys : TxRow → ObsRow → List String} {row : ScanRow}
    (h : ∀ tx, ∀ o ∈ row.obs, hopKeys tx o = []) (e : TxRef × String) (s : Store) : ¬ RowFiles hopKeys e s row := by
  rintro ⟨o, ho, _, _, hk⟩
  rw [h _ o ho] at hk
  cases hk

theorem not_resolved (e : TxRef × String) : ¬ Resolved true [polled, scanned] e := by
  rintro (h | h | h)
  · refine not_sometime (fun s row _ => not_rowFiles (fun tx o _ => ?_) e s) h
    rw [liveHopKeys]
    split <;> rfl
  · refine not_sometime (fun s row hrow => not_rowFiles (fun tx o ho => ?_) e s) h
    have hempty : ∀ row ∈ [heardOnce, heardAgain], ∀ o ∈ row.obs, o.resolvedPath = "" := by
      simp [heardOnce, heardAgain, heardRow, plainObs]
    rw [storedHopKeys, hempty row hrow o ho]
    rfl
  · exact h

def loaded : Store := (State.after true [polled, scanned]).store.pickAndIndexAll.sortPackets.buildSubpathIndex

/-- The hop of the first path stays under the transmission, which nobody has resolved. -/
theorem superseded_hop_retained : ¬ ∀ (use : Bool) (acts : List Action) (a : Action),
    Along State.step State.Enabled (State.new use) (acts ++ [a]) →
      ∀ s ∈ rebuilt (State.after use acts) a, Exact (Resolved use acts) s := by
  intro h
  have hexact := h true [polled, scanned] loadEnd ⟨trivial, ⟨rfl, rfl⟩, ⟨rfl, rfl⟩, trivial⟩ loaded rfl
  have hmem : 0 ∈ bucket loaded.buildPathHopIndex.byPathHop "aa" := by decide +kernel
  rcases ((hexact.mem "aa" 0).mp hmem).2 with hk | ⟨_, hresolved⟩
  · have hnot : "aa" ∉ pathHopKeys (loaded.path 0) := by decide +kernel
    exact hnot hk
  · exact not_resolved _ hresolved

end MeshcoreAnalyzer.PacketStore.Rebuilds

import MeshcoreAnalyzer.Subpaths

namespace MeshcoreAnalyzer.PacketStore.SubpathExactness

open Maps Runs Store

/-- The index of the paths `ip` of the packets. `lost` is what the total is above
the number of the paths. -/
structure Counted (packets : List TxRef) (lost : Int) (ix : SubpathIndex) (n : Int)
    (ip : TxRef → List String) : Prop where
  counts : ∀ k, count ix.spIndex k = (packets.map fun r => (occurrences (ip r) k : Int)).sum
  entries : ∀ k r, (bucket ix.spTxIndex k).count r = if r ∈ packets then occurrences (ip r) k else 0
  positive : Positive ix.spIndex
  noEmpty : NoEmpty ix.spTxIndex
  total : n = (packets.map fun r => if hasSubpaths (ip r) then (1 : Int) else 0).sum + lost

theorem Counted.congr {packets : List TxRef} {lost n : Int} {ix : SubpathIndex}
    {ip ip' : TxRef → List String} (h : Counted packets lost ix n ip) (heq : ∀ r ∈ packets, ip' r = ip r) :
    Counted packets lost ix n ip' := by
  refine ⟨fun k => ?_, fun k r => ?_, h.positive, h.noEmpty, ?_⟩
  · rw [h.counts, List.map_congr_left fun r hr => by rw [← heq r hr]]
  · rw [h.entries]
    by_cases hr : r ∈ packets
    · rw [if_pos hr, if_pos hr, heq r hr]
    · rw [if_neg hr, if_neg hr]
  · rw [h.total, List.map_congr_left fun r hr => by rw [← heq r hr]]

theorem occurrences_le_sum {packets : List TxRef} {r : TxRef} (hr : r ∈ packets)
    (ip : TxRef → List String) (k : String) :
    (occurrences (ip r) k : Int) ≤ (packets.map fun r => (occurrences (ip r) k : Int)).sum := by
  apply List.single_le_sum
  · intro b hb
    obtain ⟨q, _, rfl⟩ := List.mem_map.mp hb
    exact Int.natCast_nonneg _
  · exact List.mem_map_of_mem hr

theorem Counted.tracks {packets : List TxRef} (hnd : packets.Nodup) (lost : Int) :
    Tracks (· ∈ packets) (Counted packets lost) := by
  constructor
  · intro ix n ip r hops hr hnil h
    refine ⟨fun k => ?_, fun k q => ?_, h.positive.foldl_incr _, h.noEmpty.pushAll _ _, ?_⟩
    · rw [SubpathIndex.count_spIndex_add, h.counts]
      symm
      apply sum_map_eq_add hnd hr
      · simp [hnil]
      · intro q _ hq
        simp [hq]
    · rw [SubpathIndex.count_spTxIndex_add, h.entries]
      by_cases hq : q = r
      · subst hq
        simp [hr, hnil]
      · simp [hq]
    · have hsum := sum_map_eq_add (l := packets) hnd hr
        (f := fun r => if hasSubpaths (ip r) then (1 : Int) else 0)
        (g := fun q => if hasSubpaths (Function.update ip r hops q) then (1 : Int) else 0)
        (d := if hasSubpaths hops then 1 else 0) (by simp [hnil])
        fun q _ hq => by simp [hq]
      rw [hsum, h.total]
      split <;> omega
  · intro ix n ip r hr h
    have hother : ∀ q, q ≠ r → Function.update ip r [] q = ip q := fun q hq => Function.update_of_ne hq _ _
    by_cases hsub : hasSubpaths (ip r) = true
    · rw [if_pos hsub, if_pos hsub]
      refine ⟨fun k => ?_, fun k q => ?_, h.positive.foldl_decr _, h.noEmpty.removeAll _ _, ?_⟩
      · have hle := occurrences_le_sum hr ip k
        rw [SubpathIndex.count_spIndex_remove h.positive, h.counts, Int.max_eq_left (Int.sub_nonneg.mpr hle)]
        symm
        apply sum_map_eq_add hnd hr
        · simp
        · intro q _ hq
          rw [hother q hq]
      · rw [SubpathIndex.count_spTxIndex_remove, h.entries]
        by_cases hq : q = r
        · subst hq
          simp [hr]
        · simp [hq]
      · have hsum := sum_map_eq_add (l := packets) hnd hr
          (f := fun r => if hasSubpaths (ip r) then (1 : Int) else 0)
          (g := fun q => if hasSubpaths (Function.update ip r [] q) then (1 : Int) else 0)
          (d := -1) (by simp [hsub]) fun q _ hq => by simp [hq]
        rw [hsum, h.total]
        omega
    · have hsub : hasSubpaths (ip r) = false := by simpa using hsub
      rw [if_neg (by simp [hsub]), if_neg (by simp [hsub])]
      refine ⟨fun k => ?_, fun k q => ?_, h.positive, h.noEmpty, ?_⟩
      · rw [h.counts]
        congr 1
        refine List.map_congr_left fun q _ => ?_
        by_cases hq : q = r
        · subst hq
          simp [occurrences_of_not_hasSubpaths hsub]
        · rw [hother q hq]
      · rw [h.entries]
        by_cases hq : q = r
        · subst hq
          simp [occurrences_of_not_hasSubpaths hsub]
        · rw [hother q hq]
      · rw [h.total]
        congr 2
        refine List.map_congr_left fun q _ => ?_
        by_cases hq : q = r
        · subst hq
          simp [hsub]
        · rw [hother q hq]

theorem Counted.empty (packets : List TxRef) {ip : TxRef → List String} (h : ∀ r ∈ packets, ip r = []) :
    Counted packets 0 SubpathIndex.empty 0 ip := by
  have hnone : Counted packets 0 SubpathIndex.empty 0 fun _ => [] :=
    ⟨fun k => (by simp [SubpathIndex.empty]), fun k r => (by simp [SubpathIndex.empty]), positive_empty,
      noEmpty_empty, by simp⟩
  exact hnone.congr h

theorem Counted.extend {packets : List TxRef} {lost n : Int} {ix : SubpathIndex}
    {ip ip' : TxRef → List String} (h : Counted packets lost ix n ip) {r : TxRef} (hr : r ∉ packets)
    (heq : ∀ q ∈ packets, ip' q = ip q) (hnil : ip' r = []) :
    Counted (packets ++ [r]) lost ix n ip' := by
  have h' := h.congr heq
  refine ⟨fun k => ?_, fun k q => ?_, h'.positive, h'.noEmpty, ?_⟩
  · rw [h'.counts]
    simp [hnil]
  · rw [h'.entries]
    by_cases hq : q = r
    · subst hq
      simp [hr, hnil]
    · simp [hq]
  · rw [h'.total]
    simp [hnil]

theorem Counted.drop {packets gone rest : List TxRef} {lost d n : Int} {ix : SubpathIndex}
    {path : TxRef → List String} (hsplit : packets = gone ++ rest) (hnd : packets.Nodup)
    (h : Counted packets lost ix (n - d) fun q => if q ∈ gone then [] else path q) :
    Counted rest (lost + d) ix n path := by
  subst hsplit
  have hapart : ∀ q ∈ rest, q ∉ gone := fun q hq hg => (List.nodup_append.mp hnd).2.2 q hg q hq rfl
  have hgone : ∀ f : List String → Int, f [] = 0 →
      ((gone ++ rest).map fun q => f (if q ∈ gone then [] else path q)).sum = (rest.map fun q => f (path q)).sum := by
    intro f hf
    have hzero : (gone.map fun q => f (if q ∈ gone then [] else path q)) = gone.map fun _ => 0 :=
      List.map_congr_left fun q hq => by rw [if_pos hq, hf]
    have hrest : (rest.map fun q => f (if q ∈ gone then [] else path q)) = rest.map fun q => f (path q) :=
      List.map_congr_left fun q hq => by rw [if_neg (hapart q hq)]
    rw [List.map_append, List.sum_append, hzero, hrest]
    simp
  refine ⟨fun k => ?_, fun k q => ?_, h.positive, h.noEmpty, ?_⟩
  · rw [h.counts]
    exact hgone (fun hops => occurrences hops k) (by simp)
  · rw [h.entries]
    by_cases hq : q ∈ gone
    · have hnot : q ∉ rest := fun hr => hapart q hr hq
      simp [hq, hnot]
    · simp [hq]
  · have htotal := h.total
    have hsum := hgone (fun hops => if hasSubpaths hops then 1 else 0) (by simp)
    rw [hsum] at htotal
    omega

/-- The store is well formed, and its subpath index is that of its packets but for
the total. -/
structure Indexed (lost : Int) (s : Store) : Prop where
  wf : s.catalog.WF []
  lists : Lists (Counted s.packets lost) s

theorem Indexed.congr {lost : Int} {s t : Store} (h : Indexed lost s) (hcat : t.catalog = s.catalog)
    (hview : t.pathView = s.pathView) : Indexed lost t := by
  refine ⟨hcat ▸ h.wf, ?_⟩
  rw [packets_of_catalog hcat]
  exact Lists.congr hview h.lists

theorem lists_insertTx {lost : Int} {s : Store} (hwf : s.catalog.WF []) (tx : TxRow)
    (h : Lists (Counted s.packets lost) s) :
    Lists (Counted (s.insertTx tx).packets lost) (s.insertTx tx) := by
  have hnext : s.next ∉ s.packets := hwf.next_notMem
  have hpath : ∀ q, (s.insertTx tx).path q = if q = s.next then [] else s.path q := by
    intro q
    rw [path_eq, path_eq, pathJSON_insertTx]
    split <;> rfl
  refine Counted.extend h hnext (fun q hq => ?_) ?_
  · have hne : q ≠ s.next := fun hqn => hnext (hqn ▸ hq)
    rw [hpath, if_neg hne]
  · rw [hpath, if_pos rfl]

theorem lists_attachObs {lost : Int} {env : Env} {s : Store} (r : TxRef) (o : ObsRow)
    (hwf : s.catalog.WF []) (h : Lists (Counted s.packets lost) s) :
    Lists (Counted ((s.indexLiveHops env r o).attachObs r o.toObs).packets lost)
      ((s.indexLiveHops env r o).attachObs r o.toObs) := by
  have hsame : Indexed lost ((s.indexLiveHops env r o).attachObs r o.toObs) :=
    Indexed.congr ⟨hwf, h⟩ (by rw [catalog_attachObs, catalog_indexLiveHops])
      (by rw [pathView_attachObs, pathView_indexLiveHops])
  exact hsame.lists

theorem Indexed.finishIngest {lost : Int} {s : Store} (h : Indexed lost s) (env : Env)
    {txs : List (Int × TxRef)} (hb : Broadcast s txs) : Indexed lost (s.finishIngest env txs) := by
  have hcat := catalog_finishIngest env s txs
  refine ⟨hcat ▸ h.wf, ?_⟩
  rw [packets_of_catalog hcat]
  exact (Counted.tracks h.wf.nodup lost).finishIngest h.lists env hb fun r hr => hr

theorem Indexed.finishObservations {lost : Int} {s : Store} (h : Indexed lost s) (env : Env)
    {txs : List (Int × TxRef)} (hu : Updated s txs) : Indexed lost (s.finishObservations env txs) := by
  have hcat := catalog_finishObservations env s txs
  refine ⟨hcat ▸ h.wf, ?_⟩
  rw [packets_of_catalog hcat]
  exact (Counted.tracks h.wf.nodup lost).finishObservations h.lists env (hu.nodup h.wf) (hu.mem h.wf)

theorem Indexed.ingestNewFromDB {lost : Int} {s : Store} (h : Indexed lost s) (env : Env)
    (sinceID limit : Int) (rows : List ScanRow) :
    Indexed lost (s.ingestNewFromDB env sinceID limit rows).1 := by
  rw [Store.ingestNewFromDB]
  dsimp only
  apply Indexed.finishIngest
  · rw [ingestRows_fst]
    refine ⟨?_, ?_⟩
    · exact wf_mergeRows (catalog_indexLiveHops env) h.wf _
    · exact mergeRows_invariant (P := fun t => Lists (Counted t.packets lost) t)
        (catalog_indexLiveHops env) (fun t tx hwf _ ht => lists_insertTx hwf tx ht)
        (fun t r o hwf _ _ ht => lists_attachObs r o hwf ht) h.wf h.lists _
  · exact Broadcast.ingestRows h.wf env _

theorem Indexed.ingestNewObservations {lost : Int} {s : Store} (h : Indexed lost s) (env : Env)
    (limit : Int) (rows : List ObsRow) : Indexed lost (s.ingestNewObservations env limit rows) := by
  unfold Store.ingestNewObservations
  dsimp only
  apply Indexed.finishObservations
  · refine ⟨?_, ?_⟩
    · rw [catalog_lateRows]
      exact h.wf
    · exact lateRows_invariant (P := fun t => Lists (Counted t.packets lost) t)
        (fun t r o hwf _ _ ht => lists_attachObs r o hwf ht) h.wf h.lists _
  · exact Updated.lateRows s env _

def pathsAmong (s : Store) (n : Nat) : Nat := (s.packets.take n).countP fun r => hasSubpaths (s.path r)

theorem Indexed.evict {lost : Int} {s : Store} (h : Indexed lost s) (rpBatch : Int → List String)
    (n : Nat) : Indexed (lost + pathsAmong s n) (s.evict rpBatch n) := by
  refine ⟨catalog_evict s rpBatch n ▸ h.wf.evict n, ?_⟩
  have hnd : (s.packets.take n).Nodup := (List.take_sublist n s.packets).nodup h.wf.nodup
  have hremoved := (Counted.tracks h.wf.nodup lost).remove_all hnd
    (fun r hr => List.mem_of_mem_take hr) h.lists
  change Counted (s.packets.drop n) _ _ s.spTotalPaths (s.evict rpBatch n).path
  rw [path_evict]
  exact hremoved.drop (List.take_append_drop n s.packets).symm h.wf.nodup

def evictedBy (s : Store) : LiveAction → List TxRef
  | .evict ret _ => s.evicting ret
  | _ => []

theorem Indexed.live {lost : Int} {s : Store} (h : Indexed lost s) (a : LiveAction) :
    Indexed (lost + (evictedBy s a).countP fun r => hasSubpaths (s.path r)) (s.live a) := by
  have hnone : lost + (([] : List TxRef).countP fun r => hasSubpaths (s.path r) : Nat) = lost := by simp
  cases a with
  | ingestNewFromDB env sinceID limit rows => exact hnone.symm ▸ h.ingestNewFromDB env sinceID limit rows
  | ingestNewObservations env limit rows => exact hnone.symm ▸ h.ingestNewObservations env limit rows
  | evict ret rpBatch =>
      unfold Store.live evictStaleInternal evictedBy evicting
      dsimp only
      split
      · exact hnone.symm ▸ h
      · split
        · next hzero =>
            rw [hzero]
            exact hnone.symm ▸ h
        · exact h.evict rpBatch _

theorem Indexed.buildSubpathIndex {s : Store} (hwf : s.catalog.WF []) : Indexed 0 s.buildSubpathIndex := by
  have hcat := catalog_buildSubpathIndex s
  refine ⟨hcat ▸ hwf, ?_⟩
  have hempty : Counted s.packets 0 SubpathIndex.empty 0 fun q => if q ∈ s.packets then [] else s.path q :=
    Counted.empty _ fun r hr => if_pos hr
  have hbuilt := (Counted.tracks hwf.nodup 0).foldl_add hwf.nodup (fun r hr => hr) hempty
  rw [Int.zero_add] at hbuilt
  rw [Lists]
  rw [path_buildSubpathIndex]
  exact hbuilt

theorem Indexed.rebuild {s : Store} (hwf : s.catalog.WF []) : Indexed 0 s.rebuild :=
  (Indexed.buildSubpathIndex hwf).congr (catalog_buildPathHopIndex _) (pathView_buildPathHopIndex _)

theorem Indexed.finishLoad {s : Store} (hwf : s.catalog.WF []) (env : Env) (hotCutoff : Option String) :
    Indexed 0 (s.finishLoad env hotCutoff) := by
  have hwf' := (catalog_finishLoad env hotCutoff s ▸ hwf.sortPackets : (s.finishLoad env hotCutoff).catalog.WF [])
  have hsorted : s.pickAndIndexAll.sortPackets.catalog.WF [] := by
    have hsort := (catalog_pickAndIndexAll s ▸ hwf).sortPackets
    exact ⟨hsort.fresh, hsort.nodup, hsort.hash, hsort.id, hsort.type⟩
  have hbuilt := ((Indexed.buildSubpathIndex hsorted).congr (catalog_buildPathHopIndex _)
    (pathView_buildPathHopIndex _)).congr (catalog_buildDistanceIndex env _) (pathView_buildDistanceIndex env _)
  exact ⟨hwf', hbuilt.lists⟩

/-- A store whose subpath index has just been built, by either loader. -/
inductive FreshlyBuilt (use : Bool) : Store → Prop
  | finishLoad {st : State} (env : Env) (hotCutoff : Option String) : Reachable use st →
      st.Enabled (.finishLoad env hotCutoff) → FreshlyBuilt use (st.step (.finishLoad env hotCutoff)).store
  | rebuild {st : State} : Reachable use st → st.Enabled .rebuild → FreshlyBuilt use (st.step .rebuild).store

theorem FreshlyBuilt.indexed {use : Bool} {s : Store} (h : FreshlyBuilt use s) : Indexed 0 s := by
  cases h with
  | finishLoad env hotCutoff hst ha =>
      have hwf := hst.wf.catalog
      rw [State.locals_of_none ha.2] at hwf
      exact Indexed.finishLoad hwf env hotCutoff
  | rebuild hst ha =>
      have hwf := hst.wf.catalog
      rw [State.locals_of_none ha.2] at hwf
      exact Indexed.rebuild hwf

/-- The index is that of the best paths of the packets. -/
structure Exact (s : Store) : Prop where
  counts : ∀ k, count s.subpaths.spIndex k = (s.packets.map fun r => (occurrences (s.path r) k : Int)).sum
  entries : ∀ k r, (bucket s.subpaths.spTxIndex k).count r =
    if r ∈ s.packets then occurrences (s.path r) k else 0
  positive : Positive s.subpaths.spIndex
  noEmpty : NoEmpty s.subpaths.spTxIndex
  total : s.spTotalPaths = s.packets.countP fun r => hasSubpaths (s.path r)

theorem sum_hasSubpaths (packets : List TxRef) (path : TxRef → List String) :
    (packets.map fun r => if hasSubpaths (path r) then (1 : Int) else 0).sum =
      packets.countP fun r => hasSubpaths (path r) := by
  induction packets with
  | nil => rfl
  | cons r packets ih =>
      rw [List.map_cons, List.sum_cons, ih, List.countP_cons]
      split <;> omega

theorem Indexed.exact_iff {lost : Int} {s : Store} (h : Indexed lost s) : Exact s ↔ lost = 0 := by
  have htotal := h.lists.total
  rw [sum_hasSubpaths] at htotal
  constructor
  · intro he
    have := he.total
    omega
  · rintro rfl
    exact ⟨h.lists.counts, h.lists.entries, h.lists.positive, h.lists.noEmpty, by omega⟩

/-- No packet that the step evicts has subpaths. -/
def EvictsNoPath (s : Store) (a : LiveAction) : Prop := ∀ r ∈ evictedBy s a, hasSubpaths (s.path r) = false

theorem exact_live_iff {s : Store} {a : LiveAction} (h : ∃ lost, Indexed lost s) (hexact : Exact s) :
    Exact (s.live a) ↔ EvictsNoPath s a := by
  obtain ⟨lost, hindexed⟩ := h
  have hzero := hindexed.exact_iff.mp hexact
  have hcount : ((evictedBy s a).countP fun r => hasSubpaths (s.path r)) = 0 ↔ EvictsNoPath s a := by
    rw [List.countP_eq_zero]
    simp [EvictsNoPath]
  rw [(hindexed.live a).exact_iff, ← hcount, hzero]
  omega

/-- From a freshly built index on, the index is right all along a run if and only if
no step of the run evicts a packet that has subpaths. -/
theorem exact_iff_evictions {use : Bool} {s : Store} (h : FreshlyBuilt use s) (acts : List LiveAction) :
    (∀ done, done <+: acts → Exact (s.run done)) ↔ Along Store.live EvictsNoPath s acts := by
  have hrun : Along Store.live (fun _ _ => True) s acts := along_of_forall fun _ _ _ => trivial
  refine prefixes_iff (I := fun t => ∃ lost, Indexed lost t) hrun ⟨0, h.indexed⟩ ?_
    (h.indexed.exact_iff.mpr rfl) ?_
  · rintro t a ⟨lost, ht⟩ _
    exact ⟨_, ht.live a⟩
  · exact fun t a ht _ hexact => exact_live_iff ht hexact

def loadedEmpty : Store := ((State.new true).step (.finishLoad (plainEnv none) none)).store

theorem freshlyBuilt_loadedEmpty : FreshlyBuilt true loadedEmpty :=
  .finishLoad (plainEnv none) none (.start rfl) ⟨rfl, rfl⟩

def comeAndGone : List LiveAction :=
  [.ingestNewFromDB (plainEnv none) 0 100
    [heardRow (plainTx 1 "h1" "2026-01-01T00:00:00Z" 2) 1 "obs1" "[\"aa\",\"bb\"]"],
    .evict ⟨some "2026-02-01T00:00:00Z", 0⟩ fun _ => []]

theorem exact_iff_evictions_comeAndGone :
    (∀ done, done <+: comeAndGone → Exact (loadedEmpty.run done)) ↔
      Along Store.live EvictsNoPath loadedEmpty comeAndGone :=
  exact_iff_evictions freshlyBuilt_loadedEmpty comeAndGone

/-- The total still counts the path of a packet that is gone. -/
theorem spTotalPaths_drifts : ¬ ∀ (use : Bool) (s : Store) (acts : List LiveAction),
    FreshlyBuilt use s → Exact (s.run acts) := by
  intro h
  have htotal := (h true loadedEmpty comeAndGone freshlyBuilt_loadedEmpty).total
  exact absurd htotal (by decide +kernel)

end MeshcoreAnalyzer.PacketStore.SubpathExactness

import MeshcoreAnalyzer.Rows

namespace MeshcoreAnalyzer.PacketStore

open Maps Runs

def occurrences (hops : List String) (k : String) : Nat := (subpathKeys hops).count k

theorem occurrences_of_not_hasSubpaths {hops : List String} (h : hasSubpaths hops = false) (k : String) :
    occurrences hops k = 0 := by
  rw [occurrences, subpathKeys_of_not_hasSubpaths h]
  rfl

@[simp] theorem occurrences_nil (k : String) : occurrences [] k = 0 := occurrences_of_not_hasSubpaths rfl k

namespace SubpathIndex

theorem count_spTxIndex_add (ix : SubpathIndex) (hops : List String) (r q : TxRef) (k : String) :
    (bucket (ix.addTxToSubpathIndexFull hops r).spTxIndex k).count q =
      (bucket ix.spTxIndex k).count q + if q = r then occurrences hops k else 0 :=
  count_bucket_pushAll ix.spTxIndex (subpathKeys hops) r q k

theorem count_spTxIndex_remove (ix : SubpathIndex) (hops : List String) (r q : TxRef) (k : String) :
    (bucket (ix.removeTxFromSubpathIndexFull hops r).spTxIndex k).count q =
      (bucket ix.spTxIndex k).count q - if q = r then occurrences hops k else 0 :=
  count_bucket_removeAll ix.spTxIndex (subpathKeys hops) r q k

theorem count_spIndex_add (ix : SubpathIndex) (hops : List String) (r : TxRef) (k : String) :
    count (ix.addTxToSubpathIndexFull hops r).spIndex k = count ix.spIndex k + occurrences hops k :=
  count_foldl_incr _ _ k

theorem count_spIndex_remove {ix : SubpathIndex} (h : Positive ix.spIndex) (hops : List String)
    (r : TxRef) (k : String) : count (ix.removeTxFromSubpathIndexFull hops r).spIndex k =
      max (count ix.spIndex k - occurrences hops k) 0 := count_foldl_decr _ h k

theorem ite_removeTx (ix : SubpathIndex) (hops : List String) (r : TxRef) :
    (if hasSubpaths hops then ix.removeTxFromSubpathIndexFull hops r else ix) =
      ix.removeTxFromSubpathIndexFull hops r := by
  split
  · rfl
  · next h =>
      rw [removeTxFromSubpathIndexFull]
      rw [subpathKeys_of_not_hasSubpaths (by simpa using h)]
      rfl

end SubpathIndex

/-- A property of the index, its total and the paths they stand for, that is kept
when a path is taken out of the index or an unlisted one put in. -/
structure Tracks (ok : TxRef → Prop) (I : SubpathIndex → Int → (TxRef → List String) → Prop) : Prop where
  add : ∀ {ix n ip r} (hops : List String), ok r → ip r = [] → I ix n ip →
    I (ix.addTxToSubpathIndexFull hops r) (if hasSubpaths hops then n + 1 else n) (Function.update ip r hops)
  remove : ∀ {ix n ip r}, ok r → I ix n ip →
    I (if hasSubpaths (ip r) then ix.removeTxFromSubpathIndexFull (ip r) r else ix)
      (if hasSubpaths (ip r) then n - 1 else n) (Function.update ip r [])

open Store SubpathIndex

section Loops

variable {ok : TxRef → Prop} {I : SubpathIndex → Int → (TxRef → List String) → Prop}

def Lists (I : SubpathIndex → Int → (TxRef → List String) → Prop) (s : Store) : Prop :=
  I s.subpaths s.spTotalPaths s.path

theorem Lists.congr {s t : Store} (hview : t.pathView = s.pathView) (h : Lists I s) : Lists I t := by
  have hsub : t.subpaths = s.subpaths := congrArg PathView.subpaths hview
  have htotal : t.spTotalPaths = s.spTotalPaths := congrArg PathView.spTotalPaths hview
  rw [Lists]
  rw [hsub, htotal, path_of_pathView hview]
  exact h

theorem Tracks.addPaths_all (hI : Tracks ok I) {rs : List TxRef} (hnd : rs.Nodup) {s : Store}
    (hok : ∀ r ∈ rs, ok r)
    (h : I s.subpaths s.spTotalPaths fun q => if q ∈ rs then [] else s.path q) :
    Lists I (rs.foldl addPaths s) := by
  induction rs generalizing s with
  | nil => simpa [Lists] using h
  | cons r rs ih =>
      obtain ⟨hr, hrs⟩ := List.nodup_cons.mp hnd
      have hadd := hI.add (s.path r) (hok r List.mem_cons_self) (if_pos List.mem_cons_self) h
      refine ih hrs (fun q hq => hok q (List.mem_cons_of_mem r hq)) ?_
      have hips : (fun q => if q ∈ rs then [] else s.path q) =
          Function.update (fun q => if q ∈ r :: rs then [] else s.path q) r (s.path r) := by
        funext q
        by_cases hq : q = r
        · subst hq
          simp [hr]
        · simp [hq]
      rw [path_addPaths, hips]
      exact hadd

theorem Tracks.foldl_add (hI : Tracks ok I) {rs : List TxRef} (hnd : rs.Nodup) {ix : SubpathIndex} {n : Int}
    {path : TxRef → List String} (hok : ∀ r ∈ rs, ok r)
    (h : I ix n fun q => if q ∈ rs then [] else path q) :
    I (rs.foldl (fun ix r => ix.addTxToSubpathIndexFull (path r) r) ix)
      (n + rs.countP fun r => hasSubpaths (path r)) path := by
  induction rs generalizing ix n with
  | nil => simpa using h
  | cons r rs ih =>
      obtain ⟨hr, hrs⟩ := List.nodup_cons.mp hnd
      have hadd := hI.add (path r) (hok r List.mem_cons_self) (if_pos List.mem_cons_self) h
      have hips : (fun q => if q ∈ rs then [] else path q) =
          Function.update (fun q => if q ∈ r :: rs then [] else path q) r (path r) := by
        funext q
        by_cases hq : q = r
        · subst hq
          simp [hr]
        · simp [hq]
      have hrest := ih hrs (fun q hq => hok q (List.mem_cons_of_mem r hq)) (hips ▸ hadd)
      have htotal : n + (((r :: rs).countP fun r => hasSubpaths (path r) : Nat) : Int) =
          (if hasSubpaths (path r) then n + 1 else n) + (rs.countP fun r => hasSubpaths (path r) : Nat) := by
        rw [List.countP_cons]
        split <;> omega
      rw [List.foldl_cons, htotal]
      exact hrest

theorem Tracks.remove_all (hI : Tracks ok I) {rs : List TxRef} (hnd : rs.Nodup) {ix : SubpathIndex}
    {n : Int} {path : TxRef → List String} (hok : ∀ r ∈ rs, ok r) (h : I ix n path) :
    I (rs.foldl (fun ix r => ix.removeTxFromSubpathIndexFull (path r) r) ix)
      (n - rs.countP fun r => hasSubpaths (path r)) fun q => if q ∈ rs then [] else path q := by
  -- from the left: what is already out has no path any more
  suffices hgen : ∀ ip : TxRef → List String, (∀ r ∈ rs, ip r = path r) → I ix n ip →
      I (rs.foldl (fun ix r => ix.removeTxFromSubpathIndexFull (path r) r) ix)
        (n - rs.countP fun r => hasSubpaths (path r)) fun q => if q ∈ rs then [] else ip q from
    hgen path (fun _ _ => rfl) h
  clear h
  induction rs generalizing ix n with
  | nil =>
      intro ip _ h
      simpa using h
  | cons r rs ih =>
      intro ip hip h
      obtain ⟨hr, hrs⟩ := List.nodup_cons.mp hnd
      have hremove := hI.remove (hok r List.mem_cons_self) h
      have hkeep : ∀ q ∈ rs, Function.update ip r [] q = path q := by
        intro q hq
        have hne : q ≠ r := fun hqr => hr (hqr ▸ hq)
        rw [Function.update_of_ne hne]
        exact hip q (List.mem_cons_of_mem r hq)
      have hrest := ih hrs (fun q hq => hok q (List.mem_cons_of_mem r hq)) _ hkeep hremove
      rw [hip r List.mem_cons_self, ite_removeTx] at hrest
      have hips : (fun q => if q ∈ r :: rs then [] else ip q) =
          fun q => if q ∈ rs then [] else Function.update ip r [] q := by
        funext q
        by_cases hq : q = r
        · subst hq
          simp
        · simp [hq]
      have htotal : n - (((r :: rs).countP fun r => hasSubpaths (path r) : Nat) : Int) =
          (if hasSubpaths (path r) then n - 1 else n) - (rs.countP fun r => hasSubpaths (path r) : Nat) := by
        rw [List.countP_cons]
        split <;> omega
      rw [List.foldl_cons, htotal, hips]
      exact hrest

theorem Tracks.repath_all (hI : Tracks ok I) {rs : List TxRef} (hnd : rs.Nodup) {s : Store}
    {old : TxRef → String} (hok : ∀ r ∈ rs, ok r)
    (h : I s.subpaths s.spTotalPaths fun q => if q ∈ rs then parsePathJSON (old q) else s.path q) :
    Lists I (rs.foldl (repath old) s) := by
  induction rs generalizing s with
  | nil => simpa [Lists] using h
  | cons r rs ih =>
      obtain ⟨hr, hrs⟩ := List.nodup_cons.mp hnd
      refine ih hrs (fun q hq => hok q (List.mem_cons_of_mem r hq)) ?_
      rw [path_repath]
      have hself : (if r ∈ r :: rs then parsePathJSON (old r) else s.path r) = parsePathJSON (old r) :=
        if_pos List.mem_cons_self
      by_cases hch : s.pathChanged old r = true
      · -- out with the old path, then in with the new one
        have hremove := hI.remove (hok r List.mem_cons_self) h
        rw [hself] at hremove
        have hadd := hI.add (s.path r) (hok r List.mem_cons_self) (Function.update_self _ _ _) hremove
        have hstore : s.repath old r =
            ((s.dropSubpaths (parsePathJSON (old r)) r).dropPathHops (parsePathJSON (old r)) r).addPaths r :=
          if_pos hch
        have hpath : ((s.dropSubpaths (parsePathJSON (old r)) r).dropPathHops (parsePathJSON (old r)) r).path r =
            s.path r := by
          unfold Store.path
          rw [heap_dropPathHops, heap_dropSubpaths]
        have hsub : (s.dropSubpaths (parsePathJSON (old r)) r).subpaths =
            if hasSubpaths (parsePathJSON (old r)) then
              s.subpaths.removeTxFromSubpathIndexFull (parsePathJSON (old r)) r else s.subpaths := by
          unfold dropSubpaths
          split <;> rfl
        have htotal : (s.dropSubpaths (parsePathJSON (old r)) r).spTotalPaths =
            if hasSubpaths (parsePathJSON (old r)) then s.spTotalPaths - 1 else s.spTotalPaths := by
          unfold dropSubpaths
          split <;> rfl
        have hips : (fun q => if q ∈ rs then parsePathJSON (old q) else s.path q) =
            Function.update (Function.update
              (fun q => if q ∈ r :: rs then parsePathJSON (old q) else s.path q) r []) r (s.path r) := by
          funext q
          by_cases hq : q = r
          · subst hq
            simp [hr]
          · simp [hq]
        rw [hstore, hips]
        change I (SubpathIndex.addTxToSubpathIndexFull (Store.dropPathHops _ _ r).subpaths _ r)
          (if _ then (Store.dropPathHops _ _ r).spTotalPaths + 1 else (Store.dropPathHops _ _ r).spTotalPaths) _
        rw [hpath, subpaths_dropPathHops, spTotalPaths_dropPathHops, hsub, htotal]
        exact hadd
      · -- the path is what it was, and listed as such
        have hstore : s.repath old r = s := if_neg hch
        have hsame : s.path r = parsePathJSON (old r) := by
          have hjson : (s.heap r).pathJSON = old r := by
            simpa [pathChanged] using hch
          rw [path_eq, hjson]
        have hips : (fun q => if q ∈ rs then parsePathJSON (old q) else s.path q) =
            fun q => if q ∈ r :: rs then parsePathJSON (old q) else s.path q := by
          funext q
          by_cases hq : q = r
          · subst hq
            simp [hr, hsame]
          · simp [hq]
        rw [hstore, hips]
        exact h

theorem Tracks.finishIngest (hI : Tracks ok I) {s : Store} (h : Lists I s) (env : Env)
    {txs : List (Int × TxRef)} (hb : Broadcast s txs) (hok : ∀ r ∈ s.packets, ok r) :
    Lists I (s.finishIngest env txs) := by
  have hmem : ∀ r ∈ env.indexOrder.refs txs, ok r := by
    intro r hr
    obtain ⟨b, hbm, rfl⟩ := List.mem_map.mp (env.indexOrder.mem_refs.mp hr)
    exact hok _ (hb.mem b hbm)
  -- the index is still that of no path for these
  have hunlisted : (fun q => if q ∈ env.indexOrder.refs txs then []
      else ((env.pickOrder.refs txs).foldl pickBest s).path q) = s.path := by
    funext q
    by_cases hq : q ∈ txs.map Prod.snd
    · obtain ⟨b, hbm, rfl⟩ := List.mem_map.mp hq
      rw [if_pos (env.indexOrder.mem_refs.mpr hq), path_eq, hb.pathless b hbm]
      rfl
    · rw [if_neg (mt env.indexOrder.mem_refs.mp hq),
        path_pickAll_of_notMem s (mt env.pickOrder.mem_refs.mp hq)]
  have hadded : Lists I ((env.indexOrder.refs txs).foldl addPaths
      ((env.pickOrder.refs txs).foldl pickBest s)) := by
    refine hI.addPaths_all (env.indexOrder.nodup_refs hb.nodup) hmem ?_
    rw [subpaths_pickAll, spTotalPaths_pickAll, hunlisted]
    exact h
  exact Lists.congr (pathView_addDistances_all env (env.distOrder.refs txs) _) hadded

theorem Tracks.finishObservations (hI : Tracks ok I) {s : Store} (h : Lists I s) (env : Env)
    {txs : List (Int × TxRef)} (hnd : (txs.map Prod.snd).Nodup) (hok : ∀ r ∈ txs.map Prod.snd, ok r) :
    Lists I (s.finishObservations env txs) := by
  have hlisted : (fun q => if q ∈ env.indexOrder.refs txs then parsePathJSON (s.heap q).pathJSON
      else ((env.pickOrder.refs txs).foldl pickBest s).path q) = s.path := by
    funext q
    by_cases hq : q ∈ txs.map Prod.snd
    · rw [if_pos (env.indexOrder.mem_refs.mpr hq), path_eq]
    · rw [if_neg (mt env.indexOrder.mem_refs.mp hq),
        path_pickAll_of_notMem s (mt env.pickOrder.mem_refs.mp hq)]
  have hrepathed : Lists I ((env.indexOrder.refs txs).foldl (repath fun r => (s.heap r).pathJSON)
      ((env.pickOrder.refs txs).foldl pickBest s)) := by
    refine hI.repath_all (env.indexOrder.nodup_refs hnd)
      (fun r hr => hok r (env.indexOrder.mem_refs.mp hr)) ?_
    rw [subpaths_pickAll, spTotalPaths_pickAll, hlisted]
    exact h
  unfold Store.finishObservations
  dsimp only
  split
  · exact hrepathed
  · exact Lists.congr (pathView_updateDistanceIndexForTxs env _ _) hrepathed

end Loops

end MeshcoreAnalyzer.PacketStore

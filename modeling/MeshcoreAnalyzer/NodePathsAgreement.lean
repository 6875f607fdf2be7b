import MeshcoreAnalyzer.PathBacking

namespace MeshcoreAnalyzer.PacketStore

open Maps Runs Store

section Candidates

variable {s : Store}

theorem mem_addCandidates {packets : List TxRef} (hids : (packets.map fun r => (s.row r).id).Nodup) (confirmed : Bool)
    {rs : List TxRef} (hrs : rs ⊆ packets) {acc : List (TxRef × Bool)} (hacc : acc.map Prod.fst ⊆ packets)
    {r : TxRef} : r ∈ (rs.foldl (s.addCandidate confirmed) acc).map Prod.fst ↔ r ∈ acc.map Prod.fst ∨ r ∈ rs := by
  induction rs generalizing acc with
  | nil => simp
  | cons a rs ih =>
      have ha : a ∈ packets := hrs List.mem_cons_self
      have hrest : rs ⊆ packets := fun q hq => hrs (List.mem_cons_of_mem a hq)
      rw [List.foldl_cons]
      by_cases hseen : (s.row a).id ∈ acc.map fun c => (s.row c.1).id
      · have hstep : s.addCandidate confirmed acc a = acc := if_pos hseen
        rw [hstep]
        obtain ⟨c, hc, hid⟩ := List.mem_map.mp hseen
        have hca : c.1 = a := List.inj_on_of_nodup_map hids (hacc (List.mem_map_of_mem hc)) ha hid
        have hmem : a ∈ acc.map Prod.fst := hca ▸ List.mem_map_of_mem hc
        rw [ih hrest hacc, List.mem_cons]
        constructor
        · exact Or.imp_right .inr
        · rintro (hr | rfl | hr)
          · exact .inl hr
          · exact .inl hmem
          · exact .inr hr
      · have hstep : s.addCandidate confirmed acc a = acc ++ [(a, confirmed)] := if_neg hseen
        have hacc' : (acc ++ [(a, confirmed)]).map Prod.fst ⊆ packets := by
          rw [List.map_append]
          exact List.append_subset.mpr ⟨hacc, by simpa using ha⟩
        rw [hstep, ih hrest hacc', List.map_append, List.mem_append, List.mem_cons, List.map_singleton, List.mem_singleton,
          or_assoc]

theorem nodup_addCandidates (confirmed : Bool) {rs : List TxRef} {acc : List (TxRef × Bool)}
    (h : (acc.map fun c => (s.row c.1).id).Nodup) :
    ((rs.foldl (s.addCandidate confirmed) acc).map fun c => (s.row c.1).id).Nodup := by
  refine foldl_invariant (I := fun acc : List (TxRef × Bool) => (acc.map fun c => (s.row c.1).id).Nodup) h ?_
  intro acc r _ hacc
  rw [Store.addCandidate]
  split
  · exact hacc
  · next hnew =>
      rw [List.map_append, List.nodup_append]
      refine ⟨hacc, List.nodup_singleton _, ?_⟩
      rintro i hi j hj rfl
      rw [List.map_singleton, List.mem_singleton] at hj
      exact hnew (hj ▸ hi)

theorem nodup_candidates (s : Store) (target : String) (keys : List String) :
    ((s.candidates target keys).map Prod.fst).Nodup := by
  have hids : ((s.candidates target keys).map fun c => (s.row c.1).id).Nodup := by
    refine foldl_invariant (I := fun acc : List (TxRef × Bool) => (acc.map fun c => (s.row c.1).id).Nodup) ?_ ?_
    · exact List.nodup_nil
    · exact fun acc l _ hacc => nodup_addCandidates l.2 hacc
  have hmap : ((s.candidates target keys).map fun c => (s.row c.1).id) =
      ((s.candidates target keys).map Prod.fst).map fun r => (s.row r).id := by
    rw [List.map_map]
    rfl
  exact List.Nodup.of_map _ (hmap ▸ hids)

/-- The transmission is in the index under the target, or a prefix of it that is looked up. -/
structure Filed (s : Store) (target : String) (r : TxRef) : Prop where
  key : ∃ k, (k = target ∨ k = String.ofList (target.toList.take 2) ∨ k = String.ofList (target.toList.take 4) ∨
    longerPrefix target k = true) ∧ r ∈ bucket s.byPathHop k

theorem filed_iff {target : String} {keys : List String}
    (hkeys : ∀ k, longerPrefix target k = true → s.byPathHop k ≠ none → k ∈ keys) {r : TxRef} :
    (∃ l ∈ lookups target keys, r ∈ bucket s.byPathHop l.1) ↔ Filed s target r := by
  rw [lookups]
  constructor
  · rintro ⟨l, hl, hr⟩
    refine ⟨l.1, ?_, hr⟩
    rcases List.mem_append.mp hl with hl | hl
    · simp only [List.mem_cons, List.not_mem_nil, or_false] at hl
      rcases hl with rfl | rfl | rfl
      · exact .inl rfl
      · exact .inr (.inl rfl)
      · exact .inr (.inr (.inl rfl))
    · obtain ⟨k, hk, rfl⟩ := List.mem_map.mp hl
      exact .inr (.inr (.inr (List.mem_filter.mp hk).2))
  · rintro ⟨k, hk, hr⟩
    have hsome : s.byPathHop k ≠ none := by
      intro hnone
      unfold bucket at hr
      rw [hnone] at hr
      cases hr
    rcases hk with rfl | rfl | rfl | hlong
    · exact ⟨(_, true), by simp, hr⟩
    · exact ⟨(_, false), List.mem_append_left _ (List.mem_cons_of_mem _ List.mem_cons_self), hr⟩
    · exact ⟨(_, false), List.mem_append_left _ (List.mem_cons_of_mem _ (List.mem_cons_of_mem _ List.mem_cons_self)), hr⟩
    · have hrange := List.mem_filter.mpr ⟨hkeys k hlong hsome, hlong⟩
      exact ⟨(k, false), List.mem_append_right _ (List.mem_map_of_mem hrange), hr⟩

theorem mem_candidates (hlive : HopsLive [] s) (hids : (s.packets.map fun r => (s.row r).id).Nodup) {target : String}
    {keys : List String} (hkeys : ∀ k, longerPrefix target k = true → s.byPathHop k ≠ none → k ∈ keys) {r : TxRef} :
    r ∈ (s.candidates target keys).map Prod.fst ↔ Filed s target r := by
  rw [← filed_iff hkeys]
  have hfold : ∀ (ls : List (String × Bool)) (acc : List (TxRef × Bool)), acc.map Prod.fst ⊆ s.packets →
      (r ∈ (ls.foldl (fun acc l => (bucket s.byPathHop l.1).foldl (s.addCandidate l.2) acc) acc).map Prod.fst ↔
        r ∈ acc.map Prod.fst ∨ ∃ l ∈ ls, r ∈ bucket s.byPathHop l.1) := by
    intro ls
    induction ls with
    | nil => simp
    | cons l ls ih =>
        intro acc hacc
        have hbucket : bucket s.byPathHop l.1 ⊆ s.packets := fun q hq => hlive l.1 q hq
        have hmem : ∀ q, q ∈ ((bucket s.byPathHop l.1).foldl (s.addCandidate l.2) acc).map Prod.fst ↔
            q ∈ acc.map Prod.fst ∨ q ∈ bucket s.byPathHop l.1 := fun q =>
          mem_addCandidates hids l.2 hbucket hacc
        have hacc' : ((bucket s.byPathHop l.1).foldl (s.addCandidate l.2) acc).map Prod.fst ⊆ s.packets := by
          intro q hq
          exact ((hmem q).mp hq).elim (fun h => hacc h) fun h => hbucket h
        rw [List.foldl_cons, ih _ hacc', hmem, or_assoc]
        simp only [List.mem_cons, exists_eq_or_imp]
  have hall := hfold (lookups target keys) [] (List.nil_subset _)
  simpa [Store.candidates] using hall

end Candidates

/-- The lookups come upon the transmission, and the index of the resolved keys does not speak against the target: it
is off, has nothing of the transmission, or has the target's hash, and then its text is in a stored resolution. -/
structure Found (db : PathDB) (s : Store) (pubkey : String) (r : TxRef) : Prop where
  filed : Filed s (toLower pubkey) r
  kept : s.inIndex r = true ∨ s.confirmedBySQL db (toLower pubkey) r = true

section Counted

variable {db : PathDB} {s : Store}

theorem mem_handleNodePaths (hlive : HopsLive [] s) (hids : (s.packets.map fun r => (s.row r).id).Nodup)
    (hbacked : AllBacked db s) {keys : List String} {pubkey : String}
    (hkeys : ∀ k, longerPrefix (toLower pubkey) k = true → s.byPathHop k ≠ none → k ∈ keys) (pm : PrefixMap)
    (tiers : Tiers) {r : TxRef} :
    r ∈ s.handleNodePaths db keys pm tiers pubkey ↔ Found db s pubkey r ∧ s.displays db r pubkey = true := by
  have hcandidate := mem_candidates hlive hids hkeys (r := r)
  -- a candidate has a stored resolution, so that nothing is resolved anew
  have hstored : Filed s (toLower pubkey) r → ∃ rp, db.fetchResolvedPathForTxBest (s.heap r) = some rp := by
    rintro ⟨k, _, hr⟩
    obtain ⟨o, ho, hsome⟩ := hbacked.hops k r hr
    exact Option.isSome_iff_exists.mp (PathDB.isSome_fetchResolvedPathForTxBest ho hsome)
  rw [Store.handleNodePaths, Store.displays]
  simp only [List.mem_map, List.mem_filter, Bool.or_eq_true]
  constructor
  · rintro ⟨c, ⟨⟨hc, hkept⟩, hcount⟩, rfl⟩
    have hfiled := hcandidate.mp (List.mem_map_of_mem hc)
    obtain ⟨rp, hrp⟩ := hstored hfiled
    rw [hrp] at hcount ⊢
    exact ⟨⟨hfiled, hkept⟩, hcount⟩
  · rintro ⟨⟨hfiled, hkept⟩, hcount⟩
    obtain ⟨c, hc, rfl⟩ := List.mem_map.mp (hcandidate.mpr hfiled)
    obtain ⟨rp, hrp⟩ := hstored hfiled
    refine ⟨c, ⟨⟨hc, hkept⟩, ?_⟩, rfl⟩
    rw [hrp] at hcount ⊢
    exact hcount

/-- Each transmission is counted once, and those that are counted are the packets whose displayed path has the node. -/
structure CountsDisplayed (db : PathDB) (s : Store) (counted : List TxRef) (pubkey : String) : Prop where
  nodup : counted.Nodup
  mem : ∀ r, r ∈ counted ↔ r ∈ s.packets ∧ s.displays db r pubkey = true

end Counted

/-- The rows are those of the database, and the loader merges no packet that the poller has put in before. -/
def Undisturbed (db : PathDB) (st : State) (a : Action) : Prop :=
  FromDatabase db a ∧ Uniqueness.Apart db.hashOf st a

theorem reach_apart {db : PathDB} {use : Bool} {st : State}
    (h : Reach State.step (Undisturbed db) (· = State.new use) st) :
    Reach State.step (Uniqueness.Apart db.hashOf) (· = State.new use) st := h.imp fun _ _ ha => ha.2

/-- Wherever the observations over a path have their resolutions stored, whatever the server itself makes of the
hops. -/
theorem countsDisplayed_iff {db : PathDB} (hdb : db.Resolved) {use : Bool} {st : State}
    (h : Reach State.step (Undisturbed db) (· = State.new use) st) (hchunk : st.chunk = none) {keys : List String}
    {pubkey : String} (hkeys : ∀ k, longerPrefix (toLower pubkey) k = true → st.store.byPathHop k ≠ none → k ∈ keys)
    (pm : PrefixMap) (tiers : Tiers) :
    CountsDisplayed db st.store (st.store.handleNodePaths db keys pm tiers pubkey) pubkey ↔
      ∀ r ∈ st.store.packets, st.store.displays db r pubkey = true → Found db st.store pubkey r := by
  have hstate : BackedState db st := backedState_of_reach hdb (h.imp fun _ _ ha => ⟨ha.2.1, ha.1⟩)
  have hids := (Uniqueness.unique_of_apart (reach_apart h)).1.ids
  have hlive := hstate.backing.live
  rw [State.locals_of_none hchunk] at hlive
  have hmem := fun r => mem_handleNodePaths hlive hids hstate.backing.backed hkeys pm tiers (r := r)
  constructor
  · intro hcounts r hr hshown
    exact ((hmem r).mp ((hcounts.mem r).mpr ⟨hr, hshown⟩)).1
  · intro hfound
    refine ⟨?_, fun r => ?_⟩
    · unfold Store.handleNodePaths
      dsimp only
      refine List.Nodup.sublist (List.Sublist.map _ ?_) (nodup_candidates st.store (toLower pubkey) keys)
      exact List.filter_sublist.trans List.filter_sublist
    · rw [hmem]
      constructor
      · rintro ⟨hf, hshown⟩
        obtain ⟨k, _, hr⟩ := hf.filed
        exact ⟨hlive k r hr, hshown⟩
      · rintro ⟨hr, hshown⟩
        exact ⟨hfound r hr hshown, hshown⟩

/-- Its only observation came over a hop of the first of two siblings. -/
def siblingDB : PathDB where
  observations := [⟨1, 1, "[\"aa\"]", some "[\"aa11\"]"⟩]
  ids := List.nodup_singleton _
  hashOf := fun _ => "h1"
  idOf := fun _ => 1

theorem resolved_siblingDB : siblingDB.Resolved := by
  intro row hrow
  rw [show siblingDB.observations = [⟨1, 1, "[\"aa\"]", some "[\"aa11\"]"⟩] from rfl, List.mem_singleton] at hrow
  subst hrow
  decide +kernel

def siblings : PrefixMap where
  m := set Maps.empty "aa" [⟨"aa11"⟩, ⟨"aa22"⟩]
  nonRelay := ∅

def secondSibling : Env := { plainEnv (some siblings) with tiers := fun ns _ => ns.getLast? }

def siblingRow : ScanRow := heardRow (plainTx 1 "h1" "2026-01-01T00:00:00Z" 4) 1 "obs1" "[\"aa\"]"

theorem hasObs_siblingRow : ∀ o ∈ siblingRow.obs, siblingDB.HasObs o := by
  rintro _ ⟨⟩
  exact ⟨_, List.mem_singleton_self _, rfl, rfl, rfl⟩

def polled : List Action := [.finishLoad (plainEnv none) none, .ingestNewFromDB secondSibling 0 100 [siblingRow]]

theorem reach_polled :
    Reach State.step (Undisturbed siblingDB) (· = State.new true) (State.after true polled) := by
  refine Reach.of_along (.start rfl) ⟨⟨trivial, ⟨rfl, rfl⟩, trivial, trivial⟩, ⟨?_, trivial, ?_, trivial⟩, trivial⟩
  · intro row hrow
    rw [List.mem_singleton.mp hrow]
    exact ⟨⟨rfl, rfl⟩, hasObs_siblingRow⟩
  · intro row hrow
    rw [List.mem_singleton.mp hrow]
    rfl

theorem no_longerPrefix (k : String) : longerPrefix (toLower "aa11") k = false := by
  have hlen : (toLower "aa11").length = 4 := by decide +kernel
  rw [longerPrefix]
  rw [hlen]
  by_cases hk : 4 < k.length
  · simp [hk, Nat.not_lt_of_gt hk]
  · simp [hk]

/-- The packet is shown as one through the first sibling, and counted for none. -/
theorem polled_uncounted : ¬ ∀ (db : PathDB), db.Resolved → ∀ (use : Bool) (st : State),
    Reach State.step (Undisturbed db) (· = State.new use) st → st.chunk = none →
      ∀ (keys : List String) (pubkey : String),
        (∀ k, longerPrefix (toLower pubkey) k = true → st.store.byPathHop k ≠ none → k ∈ keys) →
          ∀ (pm : PrefixMap) (tiers : Tiers),
            CountsDisplayed db st.store (st.store.handleNodePaths db keys pm tiers pubkey) pubkey := by
  intro hall
  have hcounts := hall siblingDB resolved_siblingDB true _ reach_polled rfl [] "aa11"
    (fun k hk => absurd hk (by rw [no_longerPrefix]; exact nofun)) siblings secondSibling.tiers
  have hshown : (State.after true polled).store.displays siblingDB 0 "aa11" = true := by decide +kernel
  have hnone : (State.after true polled).store.handleNodePaths siblingDB [] siblings secondSibling.tiers "aa11" = [] := by
    decide +kernel
  have hpacket : (0 : TxRef) ∈ (State.after true polled).store.packets := by decide +kernel
  have hmem := (hcounts.mem 0).mpr ⟨hpacket, hshown⟩
  rw [hnone] at hmem
  cases hmem

def readBack : List Action :=
  [.scanAndMergeChunk none [{ siblingRow with
      obs := some { plainObs 1 1 "obs1" "[\"aa\"]" with resolvedPath := "[\"aa11\"]" }
      joined := by rintro _ ⟨⟩; rfl }],
    .finishLoad (plainEnv none) none]

theorem reach_readBack :
    Reach State.step (Undisturbed siblingDB) (· = State.new true) (State.after true readBack) := by
  refine Reach.of_along (.start rfl) ⟨⟨?_, ⟨rfl, rfl⟩, ?_, trivial⟩, ⟨trivial, ⟨?_, rfl⟩, trivial, trivial⟩, trivial⟩
  · intro row hrow
    rw [List.mem_singleton.mp hrow]
    refine ⟨⟨rfl, rfl⟩, ?_⟩
    rintro _ ⟨⟩
    exact ⟨_, List.mem_singleton_self _, rfl, rfl, rfl, rfl⟩
  · intro row hrow
    rw [List.mem_singleton.mp hrow]
    rfl
  · decide +kernel

theorem countsDisplayed_iff_readBack :
    CountsDisplayed siblingDB (State.after true readBack).store
      ((State.after true readBack).store.handleNodePaths siblingDB [] siblings secondSibling.tiers "aa11") "aa11" := by
  have hkeys : ∀ k, longerPrefix (toLower "aa11") k = true → (State.after true readBack).store.byPathHop k ≠ none →
      k ∈ ([] : List String) := fun k hk => absurd hk (by rw [no_longerPrefix]; exact nofun)
  have hiff := countsDisplayed_iff resolved_siblingDB reach_readBack rfl hkeys siblings secondSibling.tiers
  refine hiff.mpr fun r hr _ => ?_
  have hpackets : (State.after true readBack).store.packets = [0] := by decide +kernel
  rw [hpackets, List.mem_singleton] at hr
  subst hr
  have hfiled : (0 : TxRef) ∈ bucket (State.after true readBack).store.byPathHop "aa11" := by decide +kernel
  have hkept : (State.after true readBack).store.confirmedBySQL siblingDB (toLower "aa11") 0 = true := by decide +kernel
  exact ⟨⟨"aa11", .inl (by decide +kernel), hfiled⟩, .inr hkept⟩

end MeshcoreAnalyzer.PacketStore

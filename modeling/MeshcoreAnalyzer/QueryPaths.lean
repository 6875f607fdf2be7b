import MeshcoreAnalyzer.ObserverIndex
import MeshcoreAnalyzer.QueryAgreement

namespace MeshcoreAnalyzer.PacketStore.QueryPaths

open Maps Runs Store ObserverIndex

def Listed (s : Store) (r : TxRef) : Prop := r ∈ s.packets ∧ (s.row r).hash ≠ "" ∧ (s.row r).firstSeen ≠ ""

def namedObservers (q : PacketFilter) : List String := q.observerIDs.filter (· ≠ "")

/-- The index that a filter is answered from leads to listed packets only; those that were
heard without a name were heard by a named observer too. -/
structure Leads (s : Store) (db : DB) (q : PacketFilter) : Prop where
  hash : q.hashOnly = true → ∀ r ∈ s.byHash (toLower q.hash), Listed s r
  observer : q.observerOnly = true → ∀ r, s.byTxID (s.row r).id = some r →
    s.heardBy r (namedObservers q) = true → Listed s r
  unnamed : q.observerOnly = true → ∀ r, Listed s r → s.heardBy r q.observerIDs = true →
    s.heardBy r (namedObservers q) = true
  node : q.nodeOnly = true → (bucket s.nodes.byNode (db.resolveNodePubkey q.node)).Nodup ∧
    ∀ r ∈ bucket s.nodes.byNode (db.resolveNodePubkey q.node), Listed s r

section Ways

variable (toUpper : String → String) (areaNodes : String → Option (List String))

/-- Every packet that passes the predicates of the scan is found, once, and no other. -/
structure LikeScan (s : Store) (db : DB) (q : PacketFilter) : Prop where
  nodup : (s.filterPackets toUpper areaNodes db q).Nodup
  mem : ∀ r, r ∈ s.filterPackets toUpper areaNodes db q ↔
    r ∈ s.packets ∧ s.scanMatches toUpper areaNodes db q r = true

variable {toUpper areaNodes} {s : Store} {db : DB} {q : PacketFilter}

theorem scan_of_hashOnly (h : q.hashOnly = true) {r : TxRef} :
    r ∈ s.packets ∧ s.scanMatches toUpper areaNodes db q r = true ↔
      Listed s r ∧ (s.row r).hash = toLower q.hash := by
  have hcommon := PacketFilter.common_of_hashOnly h (s.row r)
  unfold PacketFilter.hashOnly at h
  simp only [Bool.and_eq_true, decide_eq_true_eq] at h
  obtain ⟨⟨⟨⟨⟨⟨⟨⟨⟨-, -⟩, -⟩, hobs⟩, hregion⟩, harea⟩, hnode⟩, hchannel⟩, hsince⟩, hbefore⟩ := h
  have hother : s.otherPredicates toUpper areaNodes db q r = true ↔
      (s.row r).hash ≠ "" ∧ (s.row r).firstSeen ≠ "" := by
    rw [Store.otherPredicates]
    simp [hobs, hregion, harea, hnode, hchannel, hsince, hbefore]
  rw [Store.scanMatches_eq, Bool.and_eq_true, hcommon, hother, Listed]
  tauto

theorem scan_of_observerOnly (h : q.observerOnly = true) {r : TxRef} :
    r ∈ s.packets ∧ s.scanMatches toUpper areaNodes db q r = true ↔
      Listed s r ∧ s.heardBy r q.observerIDs = true := by
  have hcommon := PacketFilter.common_of_observerOnly h (s.row r)
  unfold PacketFilter.observerOnly at h
  simp only [Bool.and_eq_true, decide_eq_true_eq] at h
  obtain ⟨⟨⟨⟨⟨⟨⟨⟨⟨hobs, -⟩, -⟩, hregion⟩, harea⟩, hnode⟩, hchannel⟩, -⟩, hsince⟩, hbefore⟩ := h
  have hother : s.otherPredicates toUpper areaNodes db q r = true ↔
      ((s.row r).hash ≠ "" ∧ (s.row r).firstSeen ≠ "") ∧ s.heardBy r q.observerIDs = true := by
    rw [Store.otherPredicates]
    simp [hobs, hregion, harea, hnode, hchannel, hsince, hbefore]
  rw [Store.scanMatches_eq, Bool.and_eq_true, hother, Listed]
  tauto

theorem scan_of_nodeOnly (h : q.nodeOnly = true) {r : TxRef} :
    r ∈ s.packets ∧ s.scanMatches toUpper areaNodes db q r = true ↔
      Listed s r ∧ ∃ t ∈ bucket s.nodes.byNode (db.resolveNodePubkey q.node), (s.row t).hash = (s.row r).hash := by
  have hcommon := PacketFilter.common_of_nodeOnly h (s.row r)
  unfold PacketFilter.nodeOnly at h
  simp only [Bool.and_eq_true, decide_eq_true_eq] at h
  obtain ⟨⟨⟨⟨⟨⟨⟨⟨⟨hnode, -⟩, -⟩, hobs⟩, -⟩, hsince⟩, hbefore⟩, hregion⟩, harea⟩, hchannel⟩ := h
  have hother : s.otherPredicates toUpper areaNodes db q r = true ↔
      ((s.row r).hash ≠ "" ∧ (s.row r).firstSeen ≠ "") ∧
        ∃ t ∈ bucket s.nodes.byNode (db.resolveNodePubkey q.node), (s.row t).hash = (s.row r).hash := by
    rw [Store.otherPredicates]
    simp [hobs, hregion, harea, hnode, hchannel, hsince, hbefore]
  rw [Store.scanMatches_eq, Bool.and_eq_true, hother, Listed]
  tauto

theorem not_observerOnly_of_hashOnly (h : q.hashOnly = true) : ¬ q.observerOnly = true := by
  unfold PacketFilter.hashOnly at h
  rw [PacketFilter.observerOnly]
  simp only [Bool.and_eq_true, decide_eq_true_eq] at h ⊢
  tauto

theorem not_nodeOnly_of_hashOnly (h : q.hashOnly = true) : ¬ q.nodeOnly = true := by
  unfold PacketFilter.hashOnly at h
  rw [PacketFilter.nodeOnly]
  simp only [Bool.and_eq_true, decide_eq_true_eq] at h ⊢
  tauto

theorem not_nodeOnly_of_observerOnly (h : q.observerOnly = true) : ¬ q.nodeOnly = true := by
  unfold PacketFilter.observerOnly at h
  rw [PacketFilter.nodeOnly]
  simp only [Bool.and_eq_true, decide_eq_true_eq] at h ⊢
  tauto

variable {tables : Tables} {done loc : List TxRef}

theorem mem_transmissionsForObserver (h : Kept tables done loc s) (hsub : done ⊆ loc) {ids : List String} {r : TxRef} :
    r ∈ s.transmissionsForObserver ids ↔
      s.byTxID (s.row r).id = some r ∧ s.heardBy r (ids.filter (· ≠ "")) = true := by
  rw [Store.transmissionsForObserver]
  rw [List.mem_filterMap, Store.heardBy_iff]
  simp only [List.mem_eraseDups, List.mem_flatMap, List.mem_map, List.mem_filter, decide_eq_true_eq]
  constructor
  · rintro ⟨i, ⟨id, hid, o, ho, rfl⟩, hr⟩
    obtain ⟨⟨t, ht, hot⟩, hne, hname⟩ := h.mem_byObserver.mp ho
    have heq : t = r := Option.some.inj ((h.found hsub ht hot).symm.trans hr)
    subst heq
    exact ⟨h.sound.byTxID t ht, id, ⟨hid, hne⟩, o, hot, hname⟩
  · rintro ⟨hr, id, ⟨hid, hne⟩, o, ho, hname⟩
    have hmem := (h.sound.wf.id _ r hr).1
    have hown : o.transmissionID = (s.row r).id := (h.sound.wf.id _ r (h.found hsub hmem ho)).2.symm
    exact ⟨(s.row r).id, ⟨id, hid, o, h.mem_byObserver.mpr ⟨⟨r, hmem, ho⟩, hne, hname⟩, hown⟩, hr⟩

theorem nodup_transmissionsForObserver (h : Kept tables done loc s) (ids : List String) :
    (s.transmissionsForObserver ids).Nodup := by
  rw [Store.transmissionsForObserver]
  apply (nodup_eraseDups _).filterMap
  intro i j r hi hj
  rw [← (h.sound.wf.id i r hi).2, ← (h.sound.wf.id j r hj).2]

theorem heardBy_named {r : TxRef} (h : s.heardBy r (namedObservers q) = true) : s.heardBy r q.observerIDs = true := by
  rw [Store.heardBy_iff] at h ⊢
  obtain ⟨id, hid, hmem⟩ := h
  exact ⟨id, List.mem_of_mem_filter hid, hmem⟩

variable (toUpper areaNodes) in
theorem likeScan_hash (h : Kept tables done loc s) (hq : q.hashOnly = true) :
    LikeScan toUpper areaNodes s db q ↔ ∀ r ∈ s.byHash (toLower q.hash), Listed s r := by
  have hway : s.filterPackets toUpper areaNodes db q = (s.byHash (toLower q.hash)).toList := if_pos hq
  have hscan : ∀ r, r ∈ s.byHash (toLower q.hash) ↔ r ∈ done ++ s.packets ∧ (s.row r).hash = toLower q.hash := by
    intro r
    constructor
    · exact h.sound.wf.hash _ r
    · rintro ⟨hr, hhash⟩
      rw [← hhash]
      exact h.sound.byHash r hr
  constructor
  · intro hlike r hr
    have hmem := (hlike.mem r).mp (by rw [hway]; exact Option.mem_toList.mpr hr)
    exact ((scan_of_hashOnly hq).mp hmem).1
  · intro hlisted
    refine ⟨by rw [hway]; exact Option.toList_nodup _, fun r => ?_⟩
    rw [hway, Option.mem_toList, scan_of_hashOnly hq]
    change r ∈ s.byHash (toLower q.hash) ↔ _
    rw [hscan]
    constructor
    · rintro ⟨hr, hhash⟩
      exact ⟨hlisted r ((hscan r).mpr ⟨hr, hhash⟩), hhash⟩
    · rintro ⟨hr, hhash⟩
      exact ⟨List.mem_append_right _ hr.1, hhash⟩

variable (toUpper areaNodes) in
theorem likeScan_observer (h : Kept tables done loc s) (hsub : done ⊆ loc) (hq : q.observerOnly = true) :
    LikeScan toUpper areaNodes s db q ↔
      (∀ r, s.byTxID (s.row r).id = some r → s.heardBy r (namedObservers q) = true → Listed s r) ∧
        ∀ r, Listed s r → s.heardBy r q.observerIDs = true → s.heardBy r (namedObservers q) = true := by
  have hnot : ¬ q.hashOnly = true := fun hhash => not_observerOnly_of_hashOnly hhash hq
  have hway : s.filterPackets toUpper areaNodes db q = s.transmissionsForObserver q.observerIDs := by
    rw [Store.filterPackets]
    rw [if_neg hnot, if_pos hq]
  have hmem : ∀ r, r ∈ s.filterPackets toUpper areaNodes db q ↔
      s.byTxID (s.row r).id = some r ∧ s.heardBy r (namedObservers q) = true := by
    intro r
    rw [hway]
    exact mem_transmissionsForObserver h hsub
  constructor
  · intro hlike
    constructor
    · intro r hr hheard
      exact ((scan_of_observerOnly hq).mp ((hlike.mem r).mp ((hmem r).mpr ⟨hr, hheard⟩))).1
    · intro r hr hheard
      exact ((hmem r).mp ((hlike.mem r).mpr ((scan_of_observerOnly hq).mpr ⟨hr, hheard⟩))).2
  · rintro ⟨hlisted, hnamed⟩
    refine ⟨by rw [hway]; exact nodup_transmissionsForObserver h _, fun r => ?_⟩
    rw [hmem, scan_of_observerOnly hq]
    constructor
    · rintro ⟨hr, hheard⟩
      exact ⟨hlisted r hr hheard, heardBy_named hheard⟩
    · rintro ⟨hr, hheard⟩
      exact ⟨h.sound.byTxID r (List.mem_append_right _ hr.1), hnamed r hr hheard⟩

variable (toUpper areaNodes) in
theorem likeScan_node (h : Kept tables done loc s) (hq : q.nodeOnly = true) :
    LikeScan toUpper areaNodes s db q ↔ (bucket s.nodes.byNode (db.resolveNodePubkey q.node)).Nodup ∧
      ∀ r ∈ bucket s.nodes.byNode (db.resolveNodePubkey q.node), Listed s r := by
  have hhash : ¬ q.hashOnly = true := fun hhash => not_nodeOnly_of_hashOnly hhash hq
  have hobs : ¬ q.observerOnly = true := fun hobs => not_nodeOnly_of_observerOnly hobs hq
  have hregion : ¬ (q.region ≠ "" ∧ regionObservers toUpper db q.region = []) := by
    unfold PacketFilter.nodeOnly at hq
    simp only [Bool.and_eq_true, decide_eq_true_eq] at hq
    tauto
  have hnodup : s.packets.Nodup := (List.nodup_append.mp h.sound.wf.nodup).2.1
  by_cases hkey : (s.nodes.byNode (db.resolveNodePubkey q.node)).isSome
  · have hway : s.filterPackets toUpper areaNodes db q = bucket s.nodes.byNode (db.resolveNodePubkey q.node) := by
      rw [Store.filterPackets]
      rw [if_neg hhash, if_neg hobs, if_neg hregion, if_pos ⟨hq, hkey⟩]
    constructor
    · intro hlike
      refine ⟨hway ▸ hlike.nodup, fun r hr => ?_⟩
      exact ((scan_of_nodeOnly hq).mp ((hlike.mem r).mp (by rwa [hway]))).1
    · rintro ⟨honce, hlisted⟩
      refine ⟨by rwa [hway], fun r => ?_⟩
      rw [hway, scan_of_nodeOnly hq]
      constructor
      · exact fun hr => ⟨hlisted r hr, r, hr, rfl⟩
      · -- a packet with the hash of one in the bucket is that one
        rintro ⟨hr, t, ht, heq⟩
        rwa [← h.sound.eq_of_hash (List.mem_append_right _ (hlisted t ht).1) (List.mem_append_right _ hr.1) heq]
  · have hway : s.filterPackets toUpper areaNodes db q = s.packets.filter (s.scanMatches toUpper areaNodes db q) := by
      rw [Store.filterPackets]
      rw [if_neg hhash, if_neg hobs, if_neg hregion, if_neg fun hboth => hkey hboth.2]
    have hnil : bucket s.nodes.byNode (db.resolveNodePubkey q.node) = [] := by
      rw [bucket]
      rw [Option.not_isSome_iff_eq_none.mp hkey]
      rfl
    rw [hnil]
    constructor
    · exact fun _ => ⟨List.nodup_nil, fun r hr => absurd hr List.not_mem_nil⟩
    · refine fun _ => ⟨by rw [hway]; exact hnodup.filter _, fun r => ?_⟩
      rw [hway, List.mem_filter]

variable (toUpper areaNodes) in
theorem likeScan_scan (h : Kept tables done loc s) (hhash : ¬ q.hashOnly = true) (hobs : ¬ q.observerOnly = true)
    (hnode : ¬ q.nodeOnly = true) : LikeScan toUpper areaNodes s db q := by
  by_cases hregion : q.region ≠ "" ∧ regionObservers toUpper db q.region = []
  · have hway : s.filterPackets toUpper areaNodes db q = [] := by
      rw [Store.filterPackets]
      rw [if_neg hhash, if_neg hobs, if_pos hregion]
    refine ⟨by rw [hway]; exact List.nodup_nil, fun r => ?_⟩
    rw [hway]
    constructor
    · exact fun hr => absurd hr List.not_mem_nil
    · -- nobody of the region has heard anything
      rintro ⟨-, hr⟩
      have hnone : s.heardBy r (regionObservers toUpper db q.region) = false := by
        rw [hregion.2, Bool.eq_false_iff, ne_eq, Store.heardBy_iff]
        rintro ⟨id, hid, -⟩
        exact List.not_mem_nil hid
      unfold Store.scanMatches at hr
      simp [hnone, hregion.1] at hr
  · have hway : s.filterPackets toUpper areaNodes db q = s.packets.filter (s.scanMatches toUpper areaNodes db q) := by
      rw [Store.filterPackets]
      rw [if_neg hhash, if_neg hobs, if_neg hregion, if_neg fun hboth => hnode hboth.1]
    have hnodup : s.packets.Nodup := (List.nodup_append.mp h.sound.wf.nodup).2.1
    refine ⟨by rw [hway]; exact hnodup.filter _, fun r => ?_⟩
    rw [hway, List.mem_filter]

theorem likeScan_iff (h : Kept tables done loc s) (hsub : done ⊆ loc) :
    LikeScan toUpper areaNodes s db q ↔ Leads s db q := by
  by_cases hhash : q.hashOnly = true
  · rw [likeScan_hash toUpper areaNodes h hhash]
    have hobs := not_observerOnly_of_hashOnly hhash
    have hnode := not_nodeOnly_of_hashOnly hhash
    constructor
    · exact fun hlisted => ⟨fun _ => hlisted, fun hq => absurd hq hobs, fun hq => absurd hq hobs,
        fun hq => absurd hq hnode⟩
    · exact fun hleads => hleads.hash hhash
  by_cases hobs : q.observerOnly = true
  · rw [likeScan_observer toUpper areaNodes h hsub hobs]
    have hnode := not_nodeOnly_of_observerOnly hobs
    constructor
    · exact fun hlisted => ⟨fun hq => absurd hq hhash, fun _ => hlisted.1, fun _ => hlisted.2,
        fun hq => absurd hq hnode⟩
    · exact fun hleads => ⟨hleads.observer hobs, hleads.unnamed hobs⟩
  by_cases hnode : q.nodeOnly = true
  · rw [likeScan_node toUpper areaNodes h hnode]
    constructor
    · exact fun hlisted => ⟨fun hq => absurd hq hhash, fun hq => absurd hq hobs, fun hq => absurd hq hobs,
        fun _ => hlisted⟩
    · exact fun hleads => hleads.node hnode
  · constructor
    · exact fun _ => ⟨fun hq => absurd hq hhash, fun hq => absurd hq hobs, fun hq => absurd hq hobs,
        fun hq => absurd hq hnode⟩
    · exact fun _ => likeScan_scan toUpper areaNodes h hhash hobs hnode

end Ways

/-- While the loader merges nothing that the poller has put in, the ways are like the scan
where the index leads to listed packets, and only there. -/
theorem likeScan_iff_leads {tables : Tables} {use : Bool} {st : State}
    (h : Reach State.step (Guarded tables) (· = State.new use) st)
    (toUpper : String → String) (areaNodes : String → Option (List String)) (db : DB) (q : PacketFilter) :
    LikeScan toUpper areaNodes st.store db q ↔ Leads st.store db q := by
  obtain ⟨done, _, hsub, hk⟩ := (inv_of_guarded h).kept
  exact likeScan_iff hk hsub

def emptyDB : DB where
  transmissions := []
  observations := []
  observers := []
  nodes := []
  ids := List.nodup_nil
  hashes := List.nodup_nil

def polled (firstSeen : String) : List Action :=
  [.ingestNewFromDB (plainEnv none) 0 100 [heardRow (plainTx 1 "a" firstSeen 4) 1 "obs1" "[]"]]

theorem guarded_polled (firstSeen : String) : Along State.step (Guarded unary) (State.new true) (polled firstSeen) := by
  apply guarded_ingest_row
  · rfl
  · rintro o ⟨⟩
    rfl

def byHashA : PacketFilter := { hash := "a" }

theorem leads_polled : Leads (State.after true (polled "2026-01-01T00:00:00Z")).store emptyDB byHashA := by
  refine ⟨fun _ r hr => ?_, fun hq => absurd hq (by decide), fun hq => absurd hq (by decide),
    fun hq => absurd hq (by decide)⟩
  have hfound : (State.after true (polled "2026-01-01T00:00:00Z")).store.byHash (toLower byHashA.hash) = some 0 := by
    decide +kernel
  rw [hfound] at hr
  cases hr
  exact ⟨by decide +kernel, by decide +kernel, by decide +kernel⟩

theorem likeScan_polled :
    LikeScan id (fun _ => none) (State.after true (polled "2026-01-01T00:00:00Z")).store emptyDB byHashA :=
  (likeScan_iff_leads (Reach.of_along (.start rfl) (guarded_polled _)) id (fun _ => none) emptyDB byHashA).mpr
    leads_polled

/-- The hash leads to a packet without a time, and the scan does not. -/
theorem untimed_found : ¬ ∀ (use : Bool) (st : State), Reachable use st →
    ∀ (toUpper : String → String) (areaNodes : String → Option (List String)) (db : DB) (q : PacketFilter),
      LikeScan toUpper areaNodes st.store db q := by
  intro hall
  have hreach : Reachable true (State.after true (polled "")) :=
    reachable_after ⟨trivial, trivial⟩
  have hlike := hall true _ hreach id (fun _ => none) emptyDB byHashA
  have hfound : (0 : TxRef) ∈ (State.after true (polled "")).store.filterPackets id (fun _ => none) emptyDB byHashA := by
    decide +kernel
  have hmatch := ((hlike.mem 0).mp hfound).2
  exact absurd hmatch (by decide +kernel)

end MeshcoreAnalyzer.PacketStore.QueryPaths

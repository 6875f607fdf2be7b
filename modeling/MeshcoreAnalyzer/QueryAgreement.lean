import MeshcoreAnalyzer.Loading
import MeshcoreAnalyzer.PacketQueries
import Mathlib.Data.List.Nodup
import Mathlib.Data.List.Sort

namespace MeshcoreAnalyzer.PacketStore

open Maps Timestamps

def DB.observerID (db : DB) (o : ObservationRow) : String := (db.observerOf o).elim "" ObserverRow.id

/-- The store holds exactly the transmissions of the database, and what it has of them under its keys is complete. An
observation that repeats another is not kept. -/
structure Mirrors (db : DB) (s : Store) : Prop where
  rows : (s.packets.map s.row).Perm (db.transmissions.map TransmissionRow.toTxRow)
  heard : ∀ r ∈ s.packets, ∀ id, id ∈ (s.heap r).observations.map StoreObs.observerID ↔
    id ∈ (db.heard (s.row r).id).map db.observerID
  hash : ∀ h r, s.byHash h = some r ↔ r ∈ s.packets ∧ (s.row r).hash = h
  id : ∀ i r, s.byTxID i = some r ↔ r ∈ s.packets ∧ (s.row r).id = i
  observer : ∀ id i, i ∈ (bucket s.byObserver id).map StoreObs.transmissionID ↔
    id ≠ "" ∧ ∃ r ∈ s.packets, (s.row r).id = i ∧ id ∈ (s.heap r).observations.map StoreObs.observerID
  node : ∀ pk, (bucket s.nodes.byNode pk).Nodup ∧ bucket s.nodes.byNode pk ⊆ s.packets

def page (order : Order) (limit offset : Nat) (ids : List Int) : List Int :=
  let ids := match order with
    | .asc => ids
    | .desc => ids.reverse
  (ids.drop offset).take limit

@[simp] theorem page_asc (limit offset : Nat) (ids : List Int) :
    page .asc limit offset ids = (ids.drop offset).take limit := rfl

@[simp] theorem page_desc (limit offset : Nat) (ids : List Int) :
    page .desc limit offset ids = (ids.reverse.drop offset).take limit := rfl

theorem PacketQuery.pageSize_of_pos {q : PacketQuery} {n : Nat} (h : q.limit = (n + 1 : Nat)) : q.pageSize = n + 1 := by
  rw [PacketQuery.pageSize]
  rw [if_neg (by omega), h, Int.toNat_natCast]

theorem reverse_window {α : Type} (ids : List α) {start pageSize : Nat} (h : start + pageSize ≤ ids.length) :
    ((ids.take (ids.length - start)).drop (ids.length - start - pageSize)).reverse =
      (ids.reverse.drop start).take pageSize := by
  rw [List.drop_reverse, List.take_reverse]
  have hlen : (ids.take (ids.length - start)).length = ids.length - start := by
    rw [List.length_take]
    omega
  rw [hlen]

section Pages

variable {db : DB} {s : Store} (toUpper : String → String) (areaNodes : String → Option (List String))

def DB.matching (db : DB) (q : PacketFilter) : List Int :=
  (db.transmissions.filter (db.buildTransmissionWhere q)).map fun tx => tx.id

def Store.matching (s : Store) (db : DB) (q : PacketFilter) : List Int :=
  (s.filterPackets toUpper areaNodes db q).map fun r => (s.row r).id

theorem DB.queryPackets_eq (q : PacketQuery) :
    db.queryPackets q =
      { packets := page q.order q.pageSize q.offset.toNat ((db.matching q.toPacketFilter).insertionSort (· ≤ ·))
        total := (db.matching q.toPacketFilter).length } := by
  unfold DB.queryPackets DB.matching page
  cases q.order with
  | asc => simp only [List.length_insertionSort]
  | desc => simp only [List.length_reverse, List.length_insertionSort]

theorem Store.queryPackets_eq {q : PacketQuery} (h : 0 ≤ q.offset) :
    s.queryPackets toUpper areaNodes db q = some
      { packets := page q.order q.pageSize q.offset.toNat
          ((s.matching toUpper areaNodes db q.toPacketFilter).insertionSort (· ≤ ·))
        total := (s.matching toUpper areaNodes db q.toPacketFilter).length } := by
  have hsort : ((s.filterPackets toUpper areaNodes db q.toPacketFilter).insertionSort
      fun a b => (s.row a).id ≤ (s.row b).id).map (fun r => (s.row r).id) =
      (s.matching toUpper areaNodes db q.toPacketFilter).insertionSort (· ≤ ·) :=
    List.map_insertionSort _ _ _ _ fun a _ b _ => Iff.rfl
  rw [Store.queryPackets]
  simp only [hsort]
  generalize hids : (s.matching toUpper areaNodes db q.toPacketFilter).insertionSort (· ≤ ·) = ids
  have hlen : (s.matching toUpper areaNodes db q.toPacketFilter).length = ids.length := by
    rw [← hids, List.length_insertionSort]
  rw [hlen]
  by_cases hend : (ids.length : Int) ≤ q.offset
  · rw [if_pos hend]
    have hdrop : ∀ l : List Int, l.length = ids.length → l.drop q.offset.toNat = [] := by
      intro l hl
      apply List.drop_eq_nil_of_le
      omega
    cases q.order with
    | asc => rw [page_asc, hdrop _ rfl, List.take_nil]
    | desc => rw [page_desc, hdrop _ List.length_reverse, List.take_nil]
  · rw [if_neg hend, if_neg (by omega)]
    have hstart : q.offset.toNat < ids.length := by omega
    -- behind the last packet there is nothing to cut off
    have hsize : ∀ l : List Int, l.length = ids.length →
        (l.drop q.offset.toNat).take
          (if ids.length < q.offset.toNat + q.pageSize then ids.length - q.offset.toNat else q.pageSize) =
        (l.drop q.offset.toNat).take q.pageSize := by
      intro l hl
      split
      · rw [List.take_of_length_le, List.take_of_length_le]
        · rw [List.length_drop]
          omega
        · rw [List.length_drop]
          omega
      · rfl
    cases q.order with
    | asc =>
        simp only [List.drop_take, Nat.add_sub_cancel_left]
        rw [page_asc, hsize ids rfl]
    | desc =>
        simp only []
        rw [page_desc, reverse_window ids (by split <;> omega), hsize ids.reverse List.length_reverse]

theorem Store.queryPackets_negative {q : PacketQuery} (h : q.offset < 0) :
    s.queryPackets toUpper areaNodes db q = none := by
  rw [Store.queryPackets]
  rw [if_neg (by omega), if_pos h]

theorem perm_of_page {M D : List Int} {limit : Nat} (hM : M.length ≤ limit) (hD : D.length ≤ limit)
    (h : page .asc limit 0 (M.insertionSort (· ≤ ·)) = page .asc limit 0 (D.insertionSort (· ≤ ·))) : M.Perm D := by
  rw [page_asc, page_asc, List.drop_zero, List.drop_zero, List.take_of_length_le, List.take_of_length_le] at h
  · exact (List.perm_insertionSort _ M).symm.trans (h ▸ List.perm_insertionSort _ D)
  · rw [List.length_insertionSort]
    exact hD
  · rw [List.length_insertionSort]
    exact hM

theorem insertionSort_congr {M D : List Int} (h : M.Perm D) :
    M.insertionSort (· ≤ ·) = D.insertionSort (· ≤ ·) := by
  apply List.Perm.eq_of_pairwise' (List.pairwise_insertionSort _ M) (List.pairwise_insertionSort _ D)
  exact ((List.perm_insertionSort _ M).trans h).trans (List.perm_insertionSort _ D).symm

end Pages

def PacketFilter.common (q : PacketFilter) (tx : TxRow) : Bool :=
  (q.type.all fun t => tx.payloadType = some t) && (q.route.all fun t => tx.routeType = some t) &&
    (q.hash = "" || tx.hash = toLower q.hash)

/-- The other filters of the SQL. -/
def DB.otherClauses (db : DB) (q : PacketFilter) (tx : TransmissionRow) : Bool :=
  db.sinceClause q.since tx && db.untilClause q.before tx &&
    (q.node = "" || tx.fromPubkey = some (db.resolveNodePubkey q.node)) &&
    (q.channel = "" || tx.channelHash = some q.channel) &&
    (q.observer = "" || db.observerClause (fun obs => obs.id ∈ q.observerIDs) tx) &&
    (q.region = "" || db.observerClause (fun obs => obs.iata = some q.region) tx)

theorem DB.buildTransmissionWhere_eq (db : DB) (q : PacketFilter) (tx : TransmissionRow) :
    db.buildTransmissionWhere q tx = (q.common tx.toTxRow && db.otherClauses q tx) := by
  rw [DB.buildTransmissionWhere, PacketFilter.common, DB.otherClauses]
  simp only [Bool.and_assoc]

section Held

variable (toUpper : String → String) (areaNodes : String → Option (List String))

def Store.otherPredicates (s : Store) (db : DB) (q : PacketFilter) (r : TxRef) : Bool :=
  let tx := s.row r
  tx.hash ≠ "" && tx.firstSeen ≠ "" &&
    (q.since = "" || decide (q.since < tx.firstSeen)) && (q.before = "" || decide (tx.firstSeen < q.before)) &&
    (q.observer = "" || s.heardBy r q.observerIDs) &&
    (q.region = "" || s.heardBy r (regionObservers toUpper db q.region)) &&
    (q.area = "" || (areaNodes q.area).all fun keys => tx.areaKey ≠ "" && tx.areaKey ∈ keys) &&
    (q.node = "" ||
      tx.hash ∈ (bucket s.nodes.byNode (db.resolveNodePubkey q.node)).map fun t => (s.row t).hash) &&
    (q.channel = "" || packetMatchesChannel tx q.channel)

theorem Store.scanMatches_eq (s : Store) (db : DB) (q : PacketFilter) (r : TxRef) :
    s.scanMatches toUpper areaNodes db q r =
      (q.common (s.row r) && s.otherPredicates toUpper areaNodes db q r) := by
  unfold Store.scanMatches PacketFilter.common Store.otherPredicates
  dsimp only
  ac_rfl

/-- What the memory asks of a packet that passes the common filters: nothing on the way by the hash, an observer with
a name on the way by the observer, its place in the index on the way by the node, and on the scan its predicates. -/
def Store.held (s : Store) (db : DB) (q : PacketFilter) (r : TxRef) : Bool :=
  if q.hashOnly then true
  else if q.observerOnly then s.heardBy r (q.observerIDs.filter (· ≠ ""))
  else if q.nodeOnly ∧ (s.nodes.byNode (db.resolveNodePubkey q.node)).isSome then
    r ∈ bucket s.nodes.byNode (db.resolveNodePubkey q.node)
  else s.otherPredicates toUpper areaNodes db q r

theorem Store.heardBy_iff {s : Store} {r : TxRef} {ids : List String} :
    s.heardBy r ids = true ↔ ∃ id ∈ ids, id ∈ (s.heap r).observations.map StoreObs.observerID := by
  rw [Store.heardBy]
  simp only [List.any_eq_true, decide_eq_true_eq, List.mem_map]
  constructor
  · rintro ⟨o, ho, hid⟩
    exact ⟨_, hid, o, ho, rfl⟩
  · rintro ⟨_, hid, o, ho, rfl⟩
    exact ⟨o, ho, hid⟩

theorem PacketFilter.common_of_hashOnly {q : PacketFilter} (h : q.hashOnly = true) (tx : TxRow) :
    q.common tx = true ↔ tx.hash = toLower q.hash := by
  unfold PacketFilter.hashOnly at h
  simp only [Bool.and_eq_true, decide_eq_true_eq] at h
  obtain ⟨⟨⟨⟨⟨⟨⟨⟨⟨hhash, htype⟩, hroute⟩, -⟩, -⟩, -⟩, -⟩, -⟩, -⟩, -⟩ := h
  rw [PacketFilter.common]
  simp [htype, hroute, hhash]

theorem PacketFilter.common_of_observerOnly {q : PacketFilter} (h : q.observerOnly = true) (tx : TxRow) :
    q.common tx = true := by
  unfold PacketFilter.observerOnly at h
  simp only [Bool.and_eq_true, decide_eq_true_eq] at h
  obtain ⟨⟨⟨⟨⟨⟨⟨⟨⟨-, htype⟩, hroute⟩, -⟩, -⟩, -⟩, -⟩, hhash⟩, -⟩, -⟩ := h
  rw [PacketFilter.common]
  simp [htype, hroute, hhash]

theorem PacketFilter.common_of_nodeOnly {q : PacketFilter} (h : q.nodeOnly = true) (tx : TxRow) :
    q.common tx = true := by
  unfold PacketFilter.nodeOnly at h
  simp only [Bool.and_eq_true, decide_eq_true_eq] at h
  obtain ⟨⟨⟨⟨⟨⟨⟨⟨⟨-, htype⟩, hroute⟩, -⟩, hhash⟩, -⟩, -⟩, -⟩, -⟩, -⟩ := h
  rw [PacketFilter.common]
  simp [htype, hroute, hhash]

namespace Mirrors

variable {db : DB} {s : Store}

theorem ids (h : Mirrors db s) : (s.packets.map fun r => (s.row r).id).Nodup := by
  have hperm := h.rows.map fun row : TxRow => row.id
  simp only [List.map_map] at hperm
  exact hperm.nodup_iff.mpr db.ids

theorem packets_nodup (h : Mirrors db s) : s.packets.Nodup := List.Nodup.of_map _ h.ids

theorem eq_of_id (h : Mirrors db s) {r r' : TxRef} (hr : r ∈ s.packets) (hr' : r' ∈ s.packets)
    (hid : (s.row r).id = (s.row r').id) : r = r' := List.inj_on_of_nodup_map h.ids hr hr' hid

theorem exists_row (h : Mirrors db s) {r : TxRef} (hr : r ∈ s.packets) :
    ∃ tx ∈ db.transmissions, s.row r = tx.toTxRow := by
  have hmem := h.rows.mem_iff.mp (List.mem_map_of_mem hr)
  obtain ⟨tx, htx, heq⟩ := List.mem_map.mp hmem
  exact ⟨tx, htx, heq.symm⟩

theorem exists_packet (h : Mirrors db s) {tx : TransmissionRow} (htx : tx ∈ db.transmissions) :
    ∃ r ∈ s.packets, s.row r = tx.toTxRow := by
  have hmem := h.rows.mem_iff.mpr (List.mem_map_of_mem htx)
  exact List.mem_map.mp hmem

theorem mem_transmissionsForObserver (h : Mirrors db s) {ids : List String} {r : TxRef} :
    r ∈ s.transmissionsForObserver ids ↔ r ∈ s.packets ∧ s.heardBy r (ids.filter (· ≠ "")) = true := by
  rw [Store.transmissionsForObserver]
  rw [List.mem_filterMap, Store.heardBy_iff]
  simp only [List.mem_eraseDups, List.mem_flatMap, List.mem_filter, decide_eq_true_eq]
  constructor
  · rintro ⟨i, ⟨id, hid, hi⟩, hr⟩
    obtain ⟨hpacket, rfl⟩ := (h.id i r).mp hr
    obtain ⟨hne, r', hr', hid', hobs⟩ := (h.observer id _).mp hi
    rw [h.eq_of_id hr' hpacket hid'] at hobs
    exact ⟨hpacket, id, ⟨hid, hne⟩, hobs⟩
  · rintro ⟨hpacket, id, ⟨hid, hne⟩, hobs⟩
    exact ⟨(s.row r).id, ⟨id, hid, (h.observer id _).mpr ⟨hne, r, hpacket, rfl, hobs⟩⟩,
      (h.id _ r).mpr ⟨hpacket, rfl⟩⟩

theorem nodup_transmissionsForObserver (h : Mirrors db s) (ids : List String) :
    (s.transmissionsForObserver ids).Nodup := by
  rw [Store.transmissionsForObserver]
  apply (nodup_eraseDups _).filterMap
  intro i j r hi hj
  rw [← ((h.id i r).mp hi).2, ← ((h.id j r).mp hj).2]

theorem mem_filterPackets (h : Mirrors db s) {q : PacketFilter} {r : TxRef} :
    r ∈ s.filterPackets toUpper areaNodes db q ↔
      r ∈ s.packets ∧ q.common (s.row r) = true ∧ s.held toUpper areaNodes db q r = true := by
  unfold Store.filterPackets Store.held
  by_cases hhash : q.hashOnly = true
  · rw [if_pos hhash, if_pos hhash, Option.mem_toList, h.hash, PacketFilter.common_of_hashOnly hhash]
    simp
  rw [if_neg hhash, if_neg hhash]
  by_cases hobs : q.observerOnly = true
  · rw [if_pos hobs, if_pos hobs, h.mem_transmissionsForObserver]
    simp [PacketFilter.common_of_observerOnly hobs]
  rw [if_neg hobs, if_neg hobs]
  by_cases hregion : q.region ≠ "" ∧ regionObservers toUpper db q.region = []
  · have hnode : ¬ q.nodeOnly = true := by
      unfold PacketFilter.nodeOnly
      simp [hregion.1]
    have hnone : s.otherPredicates toUpper areaNodes db q r = false := by
      unfold Store.otherPredicates Store.heardBy
      simp [hregion.1, hregion.2]
    rw [if_pos hregion, if_neg fun hh => hnode hh.1, hnone]
    simp
  rw [if_neg hregion]
  by_cases hnode : q.nodeOnly = true ∧ (s.nodes.byNode (db.resolveNodePubkey q.node)).isSome = true
  · rw [if_pos hnode, if_pos hnode]
    simp only [PacketFilter.common_of_nodeOnly hnode.1, true_and, decide_eq_true_eq]
    exact ⟨fun hr => ⟨(h.node _).2 hr, hr⟩, fun hr => hr.2⟩
  · rw [if_neg hnode, if_neg hnode, List.mem_filter, Store.scanMatches_eq, Bool.and_eq_true]

theorem nodup_filterPackets (h : Mirrors db s) (q : PacketFilter) :
    (s.filterPackets toUpper areaNodes db q).Nodup := by
  rw [Store.filterPackets]
  split
  · exact Option.toList_nodup _
  · split
    · exact h.nodup_transmissionsForObserver _
    · split
      · exact List.nodup_nil
      · split
        · exact (h.node _).1
        · exact h.packets_nodup.filter _

theorem nodup_matching (h : Mirrors db s) (q : PacketFilter) : (s.matching toUpper areaNodes db q).Nodup := by
  apply List.Nodup.map_on
  · intro r hr r' hr' hid
    exact h.eq_of_id ((h.mem_filterPackets toUpper areaNodes).mp hr).1
      ((h.mem_filterPackets toUpper areaNodes).mp hr').1 hid
  · exact h.nodup_filterPackets toUpper areaNodes q

end Mirrors

end Held

theorem DB.nodup_matching (db : DB) (q : PacketFilter) : (db.matching q).Nodup :=
  db.ids.sublist (List.filter_sublist.map _)

theorem DB.eq_of_id (db : DB) {tx tx' : TransmissionRow} (htx : tx ∈ db.transmissions) (htx' : tx' ∈ db.transmissions)
    (hid : tx.id = tx'.id) : tx = tx' := List.inj_on_of_nodup_map db.ids htx htx' hid

section Agreement

variable (toUpper : String → String) (areaNodes : String → Option (List String))

/-- Of each transmission that passes the filters the two read alike, the other filters say the same in both. -/
def AgreeOn (db : DB) (s : Store) (q : PacketFilter) : Prop :=
  ∀ r ∈ s.packets, ∀ tx ∈ db.transmissions, s.row r = tx.toTxRow → q.common tx.toTxRow = true →
    (db.otherClauses q tx = true ↔ s.held toUpper areaNodes db q r = true)

variable {db : DB} {s : Store}

theorem DB.mem_matching {q : PacketFilter} {i : Int} :
    i ∈ db.matching q ↔ ∃ tx ∈ db.transmissions, tx.id = i ∧ q.common tx.toTxRow = true ∧ db.otherClauses q tx = true := by
  rw [DB.matching]
  simp only [List.mem_map, List.mem_filter, DB.buildTransmissionWhere_eq, Bool.and_eq_true]
  constructor
  · rintro ⟨tx, ⟨htx, hpass⟩, hid⟩
    exact ⟨tx, htx, hid, hpass⟩
  · rintro ⟨tx, htx, hid, hpass⟩
    exact ⟨tx, ⟨htx, hpass⟩, hid⟩

theorem Mirrors.mem_matching (h : Mirrors db s) {q : PacketFilter} {i : Int} :
    i ∈ s.matching toUpper areaNodes db q ↔ ∃ r ∈ s.packets, (s.row r).id = i ∧ q.common (s.row r) = true ∧
      s.held toUpper areaNodes db q r = true := by
  rw [Store.matching]
  simp only [List.mem_map, h.mem_filterPackets toUpper areaNodes]
  constructor
  · rintro ⟨r, ⟨hr, hpass⟩, hid⟩
    exact ⟨r, hr, hid, hpass⟩
  · rintro ⟨r, hr, hid, hpass⟩
    exact ⟨r, ⟨hr, hpass⟩, hid⟩

theorem Mirrors.perm_matching_iff (h : Mirrors db s) (q : PacketFilter) :
    (s.matching toUpper areaNodes db q).Perm (db.matching q) ↔ AgreeOn toUpper areaNodes db s q := by
  rw [List.perm_ext_iff_of_nodup (h.nodup_matching toUpper areaNodes q) (db.nodup_matching q)]
  constructor
  · intro hsame r hr tx htx hrow hcommon
    have hid : (s.row r).id = tx.id := by rw [hrow]
    constructor
    · intro hsql
      obtain ⟨r', hr', hid', -, hheld⟩ := (h.mem_matching toUpper areaNodes).mp
        ((hsame tx.id).mpr (DB.mem_matching.mpr ⟨tx, htx, rfl, hcommon, hsql⟩))
      rwa [h.eq_of_id hr' hr (hid'.trans hid.symm)] at hheld
    · intro hheld
      have hcommon' : q.common (s.row r) = true := by rwa [hrow]
      obtain ⟨tx', htx', hid', -, hsql⟩ := DB.mem_matching.mp
        ((hsame tx.id).mp ((h.mem_matching toUpper areaNodes).mpr ⟨r, hr, hid, hcommon', hheld⟩))
      rwa [db.eq_of_id htx' htx hid'] at hsql
  · intro hagree i
    rw [h.mem_matching, DB.mem_matching]
    constructor
    · rintro ⟨r, hr, rfl, hcommon, hheld⟩
      obtain ⟨tx, htx, hrow⟩ := h.exists_row hr
      rw [hrow] at hcommon
      exact ⟨tx, htx, by rw [hrow], hcommon, (hagree r hr tx htx hrow hcommon).mpr hheld⟩
    · rintro ⟨tx, htx, rfl, hcommon, hsql⟩
      obtain ⟨r, hr, hrow⟩ := h.exists_packet htx
      refine ⟨r, hr, by rw [hrow], ?_, (hagree r hr tx htx hrow hcommon).mp hsql⟩
      rwa [hrow]

/-- A filter is answered alike, page for page, exactly where its other filters say the same of each transmission; and
an offset below zero never is. -/
theorem queryPackets_agree_iff (h : Mirrors db s) (q : PacketFilter) :
    ((∀ limit offset order, 0 ≤ offset →
        s.queryPackets toUpper areaNodes db ⟨q, limit, offset, order⟩ = some (db.queryPackets ⟨q, limit, offset, order⟩)) ↔
      AgreeOn toUpper areaNodes db s q) ∧
    ∀ limit offset order, offset < 0 →
      s.queryPackets toUpper areaNodes db ⟨q, limit, offset, order⟩ ≠ some (db.queryPackets ⟨q, limit, offset, order⟩) := by
  refine ⟨?_, ?_⟩
  · rw [← h.perm_matching_iff]
    constructor
    · intro hsame
      -- one page that takes all
      have hall := hsame ((s.matching toUpper areaNodes db q).length + (db.matching q).length + 1) 0 .asc (by omega)
      rw [Store.queryPackets_eq _ _ (by exact Int.le_refl 0), DB.queryPackets_eq] at hall
      have hpage := congrArg PacketResult.packets (Option.some.inj hall)
      have hsize : PacketQuery.pageSize ⟨q, (s.matching toUpper areaNodes db q).length + (db.matching q).length + 1, 0, .asc⟩ =
          (s.matching toUpper areaNodes db q).length + (db.matching q).length + 1 := by
        apply PacketQuery.pageSize_of_pos
        push_cast
        rfl
      exact perm_of_page (by omega) (by omega) hpage
    · intro hperm limit offset order hoffset
      rw [Store.queryPackets_eq _ _ (by exact hoffset), DB.queryPackets_eq, insertionSort_congr hperm, hperm.length_eq]
  · intro limit offset order hoffset
    rw [Store.queryPackets_negative _ _ (by exact hoffset)]
    exact nofun

theorem Mirrors.heardBy_iff_clause (h : Mirrors db s) {r : TxRef} (hr : r ∈ s.packets) {tx : TransmissionRow}
    (hrow : s.row r = tx.toTxRow) {ids : List String} (hids : "" ∉ ids) :
    s.heardBy r ids = true ↔ db.observerClause (fun obs => obs.id ∈ ids) tx = true := by
  rw [Store.heardBy_iff]
  rw [DB.observerClause]
  simp only [h.heard r hr, hrow, List.any_eq_true, List.mem_map]
  constructor
  · rintro ⟨_, hid, o, ho, rfl⟩
    refine ⟨o, ho, ?_⟩
    unfold DB.observerID at hid
    cases hobs : db.observerOf o with
    | none =>
        rw [hobs] at hid
        exact absurd hid hids
    | some obs =>
        rw [hobs] at hid
        simpa using hid
  · rintro ⟨o, ho, hobs⟩
    refine ⟨db.observerID o, ?_, o, ho, rfl⟩
    rw [DB.observerID]
    cases hof : db.observerOf o with
    | none =>
        rw [hof] at hobs
        cases hobs
    | some obs =>
        rw [hof] at hobs
        simpa using hobs

/-- No filter of those the two read differently: the times are not RFC 3339, and an observer has a name. -/
structure Plain (q : PacketFilter) : Prop where
  since : q.since ≠ "" → parseRFC3339 q.since = none
  before : q.before ≠ "" → parseRFC3339 q.before = none
  observer : q.observer ≠ "" → "" ∉ q.observerIDs
  region : q.region = ""
  area : q.area = ""
  node : q.node = ""
  channel : q.channel = ""

theorem Plain.otherClauses {q : PacketFilter} (hq : Plain q) (tx : TransmissionRow) :
    db.otherClauses q tx = ((q.since = "" || decide (q.since < tx.firstSeen)) &&
      (q.before = "" || decide (tx.firstSeen < q.before)) &&
      (q.observer = "" || db.observerClause (fun obs => obs.id ∈ q.observerIDs) tx)) := by
  have hsince : db.sinceClause q.since tx = (q.since = "" || decide (q.since < tx.firstSeen)) := by
    rw [DB.sinceClause]
    by_cases h : q.since = ""
    · simp [h]
    · rw [hq.since h]
  have hbefore : db.untilClause q.before tx = (q.before = "" || decide (tx.firstSeen < q.before)) := by
    rw [DB.untilClause]
    by_cases h : q.before = ""
    · simp [h]
    · rw [hq.before h]
  rw [DB.otherClauses]
  rw [hsince, hbefore]
  simp [hq.region, hq.node, hq.channel]

theorem Mirrors.agreeOn_of_plain (h : Mirrors db s) {q : PacketFilter} (hq : Plain q)
    (hrows : ∀ tx ∈ db.transmissions, tx.hash ≠ "" ∧ tx.firstSeen ≠ "") : AgreeOn toUpper areaNodes db s q := by
  intro r hr tx htx hrow _
  have hnode : ¬ q.nodeOnly = true := by
    rw [PacketFilter.nodeOnly]
    simp [hq.node]
  rw [hq.otherClauses]
  rw [Store.held]
  by_cases hhash : q.hashOnly = true
  · rw [if_pos hhash]
    unfold PacketFilter.hashOnly at hhash
    simp only [Bool.and_eq_true, decide_eq_true_eq] at hhash
    simp [hhash]
  rw [if_neg hhash]
  by_cases hobs : q.observerOnly = true
  · rw [if_pos hobs]
    unfold PacketFilter.observerOnly at hobs
    simp only [Bool.and_eq_true, decide_eq_true_eq] at hobs
    have hne : q.observer ≠ "" := by simpa using hobs.1.1.1.1.1.1.1.1.1
    have hids := hq.observer hne
    have hfilter : q.observerIDs.filter (· ≠ "") = q.observerIDs := by
      apply List.filter_eq_self.mpr
      intro id hid
      simp only [decide_eq_true_eq]
      rintro rfl
      exact hids hid
    rw [hfilter, h.heardBy_iff_clause hr hrow hids]
    simp [hobs]
  rw [if_neg hobs, if_neg fun hh => hnode hh.1]
  have hheard : (q.observer = "" ∨ s.heardBy r q.observerIDs = true) ↔
      (q.observer = "" ∨ db.observerClause (fun obs => obs.id ∈ q.observerIDs) tx = true) := by
    by_cases hne : q.observer = ""
    · simp [hne]
    · rw [h.heardBy_iff_clause hr hrow (hq.observer hne)]
  rw [Store.otherPredicates]
  simp only [hrow, hq.region, hq.area, hq.node, hq.channel, Bool.and_eq_true, Bool.or_eq_true, decide_eq_true_eq, hheard]
  simp [hrows tx htx]

end Agreement

def reheard : TransmissionRow where
  id := 1
  rawHex := "0C"
  hash := "9f"
  firstSeen := "2026-01-01T00:00:00Z"
  routeType := some 0
  payloadType := some 3
  decodedJSON := ""
  scopeName := none
  channelHash := none
  fromPubkey := none

def reheardDB : DB where
  transmissions := [reheard]
  observations := [⟨1, none, 1767225600⟩, ⟨1, none, 1767312000⟩]
  observers := []
  nodes := []
  ids := List.nodup_singleton _
  hashes := List.nodup_singleton _

def reheardObs : ObsRow where
  id := 1
  txID := 1
  observerID := ""
  observerName := ""
  observerIATA := ""
  direction := ""
  snr := none
  rssi := none
  score := none
  pathJSON := "[]"
  timestamp := "2026-01-01T00:00:00Z"
  resolvedPath := ""

def reheardStore : Store :=
  Store.scanAndMergeChunk none [⟨reheard.toTxRow, some reheardObs, by rintro _ ⟨⟩; rfl⟩] (Store.new false)

theorem mirrors_reheard : Mirrors reheardDB reheardStore := by
  have hpackets : reheardStore.packets = [0] := by rfl
  have hrow : reheardStore.row 0 = reheard.toTxRow := by rfl
  have hheard : (reheardStore.heap 0).observations.map StoreObs.observerID = [""] := by rfl
  constructor
  · rw [hpackets]
    exact List.Perm.refl [reheard.toTxRow]
  · intro r hr id
    rw [hpackets, List.mem_singleton] at hr
    subst hr
    rw [hheard, hrow, show (reheardDB.heard reheard.id).map reheardDB.observerID = ["", ""] by rfl]
    simp
  · intro h r
    have hbyHash : reheardStore.byHash = set Maps.empty reheard.hash 0 := by rfl
    rw [hpackets, hbyHash, set_apply, List.mem_singleton]
    constructor
    · intro hr
      split at hr
      · next heq =>
          cases hr
          exact ⟨rfl, by rw [hrow, heq]⟩
      · cases hr
    · rintro ⟨rfl, rfl⟩
      rw [hrow, if_pos rfl]
  · intro i r
    have hbyTxID : reheardStore.byTxID = set Maps.empty reheard.id 0 := by rfl
    rw [hpackets, hbyTxID, set_apply, List.mem_singleton]
    constructor
    · intro hr
      split at hr
      · next heq =>
          cases hr
          exact ⟨rfl, by rw [hrow, heq]⟩
      · cases hr
    · rintro ⟨rfl, rfl⟩
      rw [hrow, if_pos rfl]
  · intro id i
    have hbyObserver : reheardStore.byObserver = Maps.empty := by rfl
    rw [hbyObserver, hpackets]
    constructor
    · intro hi
      cases hi
    · rintro ⟨hne, r, hr, -, hid⟩
      rw [List.mem_singleton] at hr
      subst hr
      rw [hheard, List.mem_singleton] at hid
      exact absurd hid hne
  · intro pk
    have hbyNode : reheardStore.nodes.byNode = Maps.empty := by rfl
    rw [hbyNode, bucket_empty]
    exact ⟨List.nodup_nil, List.nil_subset _⟩

/-- The packets since a time at which this one had been heard first. -/
theorem queryPackets_since_differs :
    ¬ ∀ (toUpper : String → String) (areaNodes : String → Option (List String)) (db : DB) (s : Store), Mirrors db s →
      ∀ q : PacketQuery, s.queryPackets toUpper areaNodes db q = some (db.queryPackets q) := by
  intro hall
  have hsame := hall String.toUpper (fun _ => none) reheardDB reheardStore mirrors_reheard
    ⟨{ since := "2026-01-01T12:00:00Z" }, 50, 0, .desc⟩
  have hmem : reheardStore.queryPackets String.toUpper (fun _ => none) reheardDB
      ⟨{ since := "2026-01-01T12:00:00Z" }, 50, 0, .desc⟩ = some ⟨[], 0⟩ := by decide
  have hsql : reheardDB.queryPackets ⟨{ since := "2026-01-01T12:00:00Z" }, 50, 0, .desc⟩ = ⟨[1], 1⟩ := by
    decide
  rw [hmem, hsql] at hsame
  exact absurd hsame (by decide)

theorem plain_type : Plain { type := some 3 } := by
  constructor <;> simp

/-- The packets of one type. -/
theorem queryPackets_agree_type :
    (∀ limit offset order, 0 ≤ offset →
        reheardStore.queryPackets String.toUpper (fun _ => none) reheardDB ⟨{ type := some 3 }, limit, offset, order⟩ =
          some (reheardDB.queryPackets ⟨{ type := some 3 }, limit, offset, order⟩)) ∧
      ∀ limit offset order, offset < 0 →
        reheardStore.queryPackets String.toUpper (fun _ => none) reheardDB ⟨{ type := some 3 }, limit, offset, order⟩ ≠
          some (reheardDB.queryPackets ⟨{ type := some 3 }, limit, offset, order⟩) := by
  have hiff := queryPackets_agree_iff String.toUpper (fun _ => none) mirrors_reheard { type := some 3 }
  refine ⟨hiff.1.mpr (mirrors_reheard.agreeOn_of_plain _ _ plain_type ?_), hiff.2⟩
  intro tx htx
  rw [show reheardDB.transmissions = [reheard] by rfl, List.mem_singleton] at htx
  subst htx
  exact ⟨by decide, by decide⟩

end MeshcoreAnalyzer.PacketStore

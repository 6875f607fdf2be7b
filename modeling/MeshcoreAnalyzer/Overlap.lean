import MeshcoreAnalyzer.Ledger
import MeshcoreAnalyzer.Rows
import Mathlib.Algebra.BigOperators.Ring.Finset

namespace MeshcoreAnalyzer.PacketStore.Overlap

open Maps Runs Store

/-- The primary indexes are those of the packets and of the transmissions `done` that
a chunk has merged already. The table has one hash for each ID. -/
structure Sound (hashOf : Int → String) (c : Catalog) (done : List TxRef) : Prop where
  wf : c.WF done
  table : ∀ r ∈ done ++ c.packets, (c.row r).hash = hashOf (c.row r).id
  byHash : ∀ r ∈ done ++ c.packets, c.byHash (c.row r).hash = some r
  byTxID : ∀ r ∈ done ++ c.packets, c.byTxID (c.row r).id = some r
  types : ∀ pt, ∀ r ∈ done ++ c.packets, (bucket c.byPayloadType pt).count r =
    if (c.row r).payloadType = some pt then 1 else 0
  adverts : ∀ pk, count c.advertPubkeys pk =
    ((done ++ c.packets).filterMap fun r => (c.row r).advertPubkey).count pk
  positive : Positive c.advertPubkeys

theorem positive_trackAdvertPubkey {m : GoMap String Int} (h : Positive m) (tx : TxRow) :
    Positive (trackAdvertPubkey m tx) := by
  rw [trackAdvertPubkey]
  split
  · exact h.incr _
  · exact h

section Catalog

variable {hashOf : Int → String} {c : Catalog} {done : List TxRef}

theorem count_trackAdvertPubkey (m : GoMap String Int) (tx : TxRow) (pk : String) :
    count (trackAdvertPubkey m tx) pk = count m pk + if tx.advertPubkey = some pk then 1 else 0 := by
  rw [trackAdvertPubkey]
  cases h : tx.advertPubkey with
  | none => simp
  | some k =>
      simp only [count_incr, Option.some.injEq]
      by_cases hk : pk = k
      · simp [hk]
      · simp [hk, Ne.symm hk]

theorem foldl_trackAdvertPubkey (row : TxRef → TxRow) (rs : List TxRef) (m : GoMap String Int) :
    rs.foldl (fun m r => trackAdvertPubkey m (row r)) m =
      (rs.filterMap fun r => (row r).advertPubkey).foldl incr m := by
  rw [List.foldl_filterMap]
  congr 1
  funext m r
  rw [trackAdvertPubkey]
  cases (row r).advertPubkey <;> rfl

theorem foldl_untrackAdvertPubkey (row : TxRef → TxRow) (rs : List TxRef) (m : GoMap String Int) :
    rs.foldl (fun m r => untrackAdvertPubkey m (row r)) m =
      (rs.filterMap fun r => (row r).advertPubkey).foldl decr m := by
  rw [List.foldl_filterMap]
  congr 1
  funext m r
  rw [untrackAdvertPubkey]
  cases (row r).advertPubkey <;> rfl

theorem Sound.eq_of_hash (h : Sound hashOf c done) {a b : TxRef} (ha : a ∈ done ++ c.packets)
    (hb : b ∈ done ++ c.packets) (heq : (c.row a).hash = (c.row b).hash) : a = b := by
  have hsome := h.byHash a ha
  rw [heq, h.byHash b hb] at hsome
  exact (Option.some.inj hsome).symm

theorem Sound.eq_of_id (h : Sound hashOf c done) {a b : TxRef} (ha : a ∈ done ++ c.packets)
    (hb : b ∈ done ++ c.packets) (heq : (c.row a).id = (c.row b).id) : a = b := by
  apply h.eq_of_hash ha hb
  rw [h.table a ha, h.table b hb, heq]

theorem Sound.byTxID_none (h : Sound hashOf c done) {i : Int} (hnew : c.byHash (hashOf i) = none) :
    c.byTxID i = none := by
  cases hi : c.byTxID i with
  | none => rfl
  | some q =>
      obtain ⟨hq, hid⟩ := h.wf.id i q hi
      have hsome := h.byHash q hq
      rw [h.table q hq, hid, hnew] at hsome
      cases hsome

theorem Sound.insertTx (h : Sound hashOf c done) {tx : TxRow} (htable : tx.hash = hashOf tx.id)
    (hnew : c.byHash tx.hash = none) : Sound hashOf (c.insertTx tx) done := by
  have hmem : ∀ r, r ∈ done ++ (c.insertTx tx).packets ↔ r ∈ done ++ c.packets ∨ r = c.next := by
    intro r
    change r ∈ done ++ (c.packets ++ [c.next]) ↔ _
    rw [← List.append_assoc, List.mem_append, List.mem_singleton]
  have hold : ∀ r ∈ done ++ c.packets, (c.insertTx tx).row r = c.row r := fun r hr =>
    Catalog.update_row_of_mem h.wf tx hr
  have hself : (c.insertTx tx).row c.next = tx := Function.update_self _ _ _
  have hnext := h.wf.next_notMem
  have hid : c.byTxID tx.id = none := h.byTxID_none (htable ▸ hnew)
  refine ⟨h.wf.insertTx tx, fun r hr => ?_, fun r hr => ?_, fun r hr => ?_, fun pt r hr => ?_, fun pk => ?_,
    positive_trackAdvertPubkey h.positive tx⟩
  · rcases (hmem r).mp hr with hr | rfl
    · rw [hold r hr]
      exact h.table r hr
    · rw [hself]
      exact htable
  · change set c.byHash tx.hash c.next _ = _
    rw [set_apply]
    rcases (hmem r).mp hr with hr | rfl
    · have hne : (c.row r).hash ≠ tx.hash := by
        intro heq
        have hsome := h.byHash r hr
        rw [heq, hnew] at hsome
        cases hsome
      rw [hold r hr, if_neg hne]
      exact h.byHash r hr
    · rw [hself, if_pos rfl]
  · change set c.byTxID tx.id c.next _ = _
    rw [set_apply]
    rcases (hmem r).mp hr with hr | rfl
    · have hne : (c.row r).id ≠ tx.id := by
        intro heq
        have hsome := h.byTxID r hr
        rw [heq, hid] at hsome
        cases hsome
      rw [hold r hr, if_neg hne]
      exact h.byTxID r hr
    · rw [hself, if_pos rfl]
  · change (bucket (pushPayloadType c.byPayloadType tx c.next) pt).count r = _
    rw [bucket_pushPayloadType, List.count_append]
    rcases (hmem r).mp hr with hr | rfl
    · have hne : c.next ≠ r := fun heq => hnext (heq ▸ hr)
      rw [hold r hr, h.types pt r hr]
      have hzero : (if tx.payloadType = some pt then [c.next] else []).count r = 0 := by
        split <;> simp [hne]
      omega
    · have hnot : c.next ∉ bucket c.byPayloadType pt := fun hm => hnext (h.wf.type pt _ hm).1
      rw [hself, List.count_eq_zero.mpr hnot]
      split <;> simp
  · change count (trackAdvertPubkey c.advertPubkeys tx) pk = _
    have hpks : ((done ++ (c.insertTx tx).packets).filterMap fun r => ((c.insertTx tx).row r).advertPubkey) =
        ((done ++ c.packets).filterMap fun r => (c.row r).advertPubkey) ++ tx.advertPubkey.toList := by
      change (done ++ (c.packets ++ [c.next])).filterMap _ = _
      rw [← List.append_assoc, List.filterMap_append]
      congr 1
      · exact List.filterMap_congr fun r hr => by rw [hold r hr]
      · rw [List.filterMap_cons, hself]
        cases tx.advertPubkey <;> rfl
    rw [count_trackAdvertPubkey, h.adverts, hpks, List.count_append]
    cases htx : tx.advertPubkey with
    | none => simp
    | some k => by_cases hk : k = pk <;> simp [hk]

theorem Sound.findOrInsert (h : Sound hashOf c done) {tx : TxRow} (htable : tx.hash = hashOf tx.id) :
    Sound hashOf (c.findOrInsert tx) done := by
  rw [Catalog.findOrInsert]
  split
  · next hnew => exact h.insertTx htable hnew
  · exact h

theorem batch_apply {K : Type} [DecidableEq K] {f : TxRef → K} {batch : List TxRef}
    (hnd : (batch.map f).Nodup) {r : TxRef} (hr : r ∈ batch) (m : GoMap K TxRef) :
    batch.foldl (fun m r => set m (f r) r) m (f r) = some r := by
  induction batch using List.reverseRecOn with
  | nil => cases hr
  | append_singleton batch a ih =>
      rw [List.foldl_append]
      change set (batch.foldl (fun m r => set m (f r) r) m) (f a) a (f r) = _
      rw [List.map_append, List.nodup_append] at hnd
      rw [set_apply]
      rcases List.mem_append.mp hr with hr | hr
      · have hne : f r ≠ f a := hnd.2.2 (f r) (List.mem_map_of_mem hr) (f a) (by simp)
        rw [if_neg hne]
        exact ih hnd.1 hr
      · rw [List.mem_singleton.mp hr, if_pos rfl]

theorem Sound.wf_append (h : Sound hashOf c done) {loc batch : List TxRef} (hall : c.WF loc)
    (hsub : (done ++ batch).Sublist loc) : c.WF (done ++ batch) := by
  have hboth : (done ++ batch ++ c.packets).Sublist (loc ++ c.packets) := hsub.append (List.Sublist.refl _)
  have hmem : ∀ r ∈ done ++ c.packets, r ∈ done ++ batch ++ c.packets :=
    ((List.sublist_append_left done batch).append (List.Sublist.refl c.packets)).subset
  refine ⟨fun r hr => hall.fresh r (hboth.subset hr), hall.nodup.sublist hboth, ?_, ?_, ?_⟩
  · intro k r hr
    exact ⟨hmem r (h.wf.hash k r hr).1, (h.wf.hash k r hr).2⟩
  · intro i r hr
    exact ⟨hmem r (h.wf.id i r hr).1, (h.wf.id i r hr).2⟩
  · intro pt r hr
    exact ⟨hmem r (h.wf.type pt r hr).1, (h.wf.type pt r hr).2⟩

theorem Sound.mergeBatch (h : Sound hashOf c done) {batch : List TxRef} (hwf : c.WF (done ++ batch))
    (htable : ∀ r ∈ batch, (c.row r).hash = hashOf (c.row r).id)
    (hhashes : (batch.map fun r => (c.row r).hash).Nodup)
    (hnew : ∀ r ∈ batch, c.byHash (c.row r).hash = none) : Sound hashOf (c.mergeBatch batch) (done ++ batch) := by
  have hmem : ∀ r, r ∈ done ++ batch ++ c.packets ↔ r ∈ done ++ c.packets ∨ r ∈ batch := by
    intro r
    simp only [List.mem_append]
    tauto
  have hapart : ∀ r ∈ done ++ c.packets, r ∉ batch := by
    intro r hr hb
    have hsome := h.byHash r hr
    rw [hnew r hb] at hsome
    cases hsome
  have hids : (batch.map fun r => (c.row r).id).Nodup := by
    have hmap : (batch.map fun r => (c.row r).id).map hashOf = batch.map fun r => (c.row r).hash := by
      rw [List.map_map]
      exact List.map_congr_left fun r hr => (htable r hr).symm
    exact List.Nodup.of_map hashOf (hmap ▸ hhashes)
  have hnd : batch.Nodup := List.Nodup.of_map _ hhashes
  refine ⟨hwf.mergeBatch (List.subset_append_right _ _), fun r hr => ?_, fun r hr => ?_, fun r hr => ?_,
    fun pt r hr => ?_, fun pk => ?_, foldl_invariant (I := Positive) h.positive
      fun m r _ hm => positive_trackAdvertPubkey hm (c.row r)⟩
  · rcases (hmem r).mp hr with hr | hr
    · exact h.table r hr
    · exact htable r hr
  · change (c.byHash (c.row r).hash <|> c.batchHashes batch (c.row r).hash) = some r
    rcases (hmem r).mp hr with hr | hr
    · rw [h.byHash r hr]
      rfl
    · rw [hnew r hr]
      exact batch_apply hhashes hr _
  · change (c.byTxID (c.row r).id <|> c.batchTxIDs batch (c.row r).id) = some r
    rcases (hmem r).mp hr with hr | hr
    · rw [h.byTxID r hr]
      rfl
    · rw [h.byTxID_none (htable r hr ▸ hnew r hr)]
      exact batch_apply hids hr _
  · change (bucket (batch.foldl (fun m r => pushPayloadType m (c.row r) r) c.byPayloadType) pt).count r = _
    rw [Catalog.bucket_foldl_pushPayloadType, List.count_append]
    rcases (hmem r).mp hr with hr | hr
    · have hzero : (batch.filter fun r => (c.row r).payloadType = some pt).count r = 0 :=
        List.count_eq_zero.mpr fun hm => hapart r hr (List.mem_of_mem_filter hm)
      rw [hzero, h.types pt r hr]
      rfl
    · have hnot : r ∉ bucket c.byPayloadType pt := fun hm => hapart r (h.wf.type pt r hm).1 hr
      rw [List.count_eq_zero.mpr hnot, (hnd.filter _).count]
      change 0 + _ = if (c.row r).payloadType = some pt then 1 else 0
      simp [hr]
  · change count (batch.foldl (fun m r => trackAdvertPubkey m (c.row r)) c.advertPubkeys) pk = _
    have hperm : (done ++ batch ++ c.packets).Perm (done ++ c.packets ++ batch) := by
      rw [List.append_assoc, List.append_assoc]
      exact List.perm_append_comm.append_left done
    have hcount := (hperm.filterMap fun r => (c.row r).advertPubkey).count_eq pk
    have hsplit : (done ++ c.packets ++ batch).filterMap (fun r => (c.row r).advertPubkey) =
        (done ++ c.packets).filterMap (fun r => (c.row r).advertPubkey) ++
          batch.filterMap fun r => (c.row r).advertPubkey := List.filterMap_append
    rw [hsplit, List.count_append] at hcount
    change _ = (((done ++ batch ++ c.packets).filterMap fun r => (c.row r).advertPubkey).count pk : Int)
    rw [foldl_trackAdvertPubkey, count_foldl_incr, h.adverts, hcount]
    rfl

theorem Sound.publish (h : Sound hashOf c done) : Sound hashOf (c.publish done) [] :=
  ⟨h.wf.publish, h.table, h.byHash, h.byTxID, h.types, h.adverts, h.positive⟩

theorem Sound.evict (h : Sound hashOf c done) (n : Nat) : Sound hashOf (c.evict n) done := by
  have hold : ∀ r ∈ done ++ c.packets.drop n, r ∈ done ++ c.packets := fun r hr =>
    ((List.Sublist.refl done).append (List.drop_sublist n c.packets)).subset hr
  have hin : ∀ e ∈ c.packets.take n, e ∈ done ++ c.packets := fun e he =>
    List.mem_append_right _ (List.mem_of_mem_take he)
  have hapart : ∀ r ∈ done ++ c.packets.drop n, ∀ e ∈ c.packets.take n, e ≠ r := by
    rintro r hr e he rfl
    exact h.wf.evicted_notMem he hr
  have hpositive : Positive (c.evict n).advertPubkeys := by
    change Positive ((c.packets.take n).foldl (fun m r => untrackAdvertPubkey m (c.row r)) c.advertPubkeys)
    rw [foldl_untrackAdvertPubkey]
    exact h.positive.foldl_decr _
  refine ⟨h.wf.evict n, fun r hr => h.table r (hold r hr), fun r hr => ?_, fun r hr => ?_, fun pt r hr => ?_,
    fun pk => ?_, hpositive⟩
  · refine (foldl_delete_eq_some _ _ _).mpr ⟨fun e he heq => ?_, h.byHash r (hold r hr)⟩
    exact hapart r hr e he (h.eq_of_hash (hin e he) (hold r hr) heq)
  · refine (foldl_delete_eq_some _ _ _).mpr ⟨fun e he heq => ?_, h.byTxID r (hold r hr)⟩
    exact hapart r hr e he (h.eq_of_id (hin e he) (hold r hr) heq)
  · change (bucket (filterKeys _ _ c.byPayloadType) pt).count r = _
    rw [bucket_filterKeys]
    split
    · have hkeep : (decide ((c.row r).id ∉ (c.packets.take n).map fun r => (c.row r).id)) = true := by
        rw [decide_eq_true_eq]
        intro hm
        obtain ⟨e, he, heq⟩ := List.mem_map.mp hm
        exact hapart r hr e he (h.eq_of_id (hin e he) (hold r hr) heq)
      have hcount := List.count_filter (l := bucket c.byPayloadType pt)
        (p := fun t => decide ((c.row t).id ∉ (c.packets.take n).map fun r => (c.row r).id)) hkeep
      exact hcount.trans (h.types pt r (hold r hr))
    · exact h.types pt r (hold r hr)
  · change count ((c.packets.take n).foldl (fun m r => untrackAdvertPubkey m (c.row r)) c.advertPubkeys) pk =
      (((done ++ c.packets.drop n).filterMap fun r => (c.row r).advertPubkey).count pk : Int)
    have hperm : (done ++ c.packets).Perm (c.packets.take n ++ (done ++ c.packets.drop n)) := by
      conv_lhs => rw [← List.take_append_drop n c.packets]
      rw [← List.append_assoc, ← List.append_assoc]
      exact List.perm_append_comm.append_right _
    have hcount := (hperm.filterMap fun r => (c.row r).advertPubkey).count_eq pk
    have hsplit : (c.packets.take n ++ (done ++ c.packets.drop n)).filterMap (fun r => (c.row r).advertPubkey) =
        (c.packets.take n).filterMap (fun r => (c.row r).advertPubkey) ++
          (done ++ c.packets.drop n).filterMap fun r => (c.row r).advertPubkey := List.filterMap_append
    rw [hsplit, List.count_append] at hcount
    rw [foldl_untrackAdvertPubkey, count_foldl_decr _ h.positive, h.adverts, hcount]
    omega

theorem Sound.sortPackets (h : Sound hashOf c []) : Sound hashOf c.sortPackets [] := by
  have hperm : c.sortPackets.packets.Perm c.packets := List.perm_insertionSort _ c.packets
  have hmem : ∀ r ∈ [] ++ c.sortPackets.packets, r ∈ [] ++ c.packets := fun r hr => hperm.mem_iff.mp hr
  refine ⟨h.wf.sortPackets, fun r hr => h.table r (hmem r hr), fun r hr => h.byHash r (hmem r hr),
    fun r hr => h.byTxID r (hmem r hr), fun pt r hr => h.types pt r (hmem r hr), fun pk => ?_, h.positive⟩
  have hcount := (hperm.filterMap fun r => (c.row r).advertPubkey).count_eq pk
  exact (h.adverts pk).trans (congrArg Nat.cast hcount.symm)

theorem Sound.extends {d : Catalog} (h : Sound hashOf c done) (hext : c.Extends d) : Sound hashOf d done := by
  have hpackets : d.packets = c.packets := by rw [hext.same]
  have hhash : d.byHash = c.byHash := by rw [hext.same]
  have hid : d.byTxID = c.byTxID := by rw [hext.same]
  have htypes : d.byPayloadType = c.byPayloadType := by rw [hext.same]
  have hadverts : d.advertPubkeys = c.advertPubkeys := by rw [hext.same]
  have hrow : ∀ r ∈ done ++ c.packets, d.row r = c.row r := fun r hr => hext.row r (h.wf.fresh r hr)
  refine ⟨h.wf.extends hext, ?_, ?_, ?_, ?_, ?_, hadverts ▸ h.positive⟩
  · intro r hr
    rw [hpackets] at hr
    rw [hrow r hr]
    exact h.table r hr
  · intro r hr
    rw [hpackets] at hr
    rw [hrow r hr, hhash]
    exact h.byHash r hr
  · intro r hr
    rw [hpackets] at hr
    rw [hrow r hr, hid]
    exact h.byTxID r hr
  · intro pt r hr
    rw [hpackets] at hr
    rw [hrow r hr, htypes]
    exact h.types pt r hr
  · intro pk
    have hpks : ((done ++ c.packets).filterMap fun r => (d.row r).advertPubkey) =
        (done ++ c.packets).filterMap fun r => (c.row r).advertPubkey :=
      List.filterMap_congr fun r hr => by rw [hrow r hr]
    rw [hpackets, hadverts, h.adverts, hpks]

end Catalog

def obsTotal (l : Ledger) (rs : List TxRef) : Int := (rs.map fun r => ((l.observations r).length : Int)).sum

/-- The observations that `totalObs` has, and those that a chunk has counted and not
added yet, are those of the packets and of the chunk. -/
def Tallied (c : Catalog) (l : Ledger) (loc : List TxRef) (n : Int) : Prop :=
  l.totalObs + n = obsTotal l (loc ++ c.packets)

section Tally

variable {c : Catalog} {l : Ledger} {loc : List TxRef} {n : Int}

theorem obsTotal_append (l : Ledger) (rs rs' : List TxRef) :
    obsTotal l (rs ++ rs') = obsTotal l rs + obsTotal l rs' := by
  unfold obsTotal
  rw [List.map_append, List.sum_append]

theorem obsTotal_perm (l : Ledger) {rs rs' : List TxRef} (h : rs.Perm rs') : obsTotal l rs = obsTotal l rs' :=
  (h.map _).sum_eq

theorem obsTotal_alloc {rs : List TxRef} {r : TxRef} (hr : r ∉ rs) :
    obsTotal (l.alloc r) rs = obsTotal l rs := by
  rw [obsTotal]
  congr 1
  refine List.map_congr_left fun q hq => ?_
  have hne : q ≠ r := fun hqr => hr (hqr ▸ hq)
  simp [Ledger.alloc, hne]

theorem obsTotal_alloc_self (l : Ledger) (r : TxRef) : obsTotal (l.alloc r) [r] = 0 := by
  simp [obsTotal, Ledger.alloc]

theorem obsTotal_append_obs {rs : List TxRef} (hnd : rs.Nodup) {r : TxRef} (hr : r ∈ rs) (obs : StoreObs) :
    obsTotal (l.append r obs) rs = obsTotal l rs + 1 := by
  apply sum_map_eq_add hnd hr
  · simp [Ledger.append]
  · intro q _ hq
    simp [Ledger.append, hq]

theorem Tallied.insertTx (h : Tallied c l loc n) (hwf : c.WF loc) (tx : TxRow) (bytes : Int) :
    Tallied (c.insertTx tx) ((l.alloc c.next).pay bytes) loc n := by
  change l.totalObs + n = obsTotal (l.alloc c.next) (loc ++ (c.packets ++ [c.next]))
  rw [← List.append_assoc, obsTotal_append, obsTotal_alloc hwf.next_notMem, obsTotal_alloc_self, Int.add_zero]
  exact h

theorem Tallied.attach (h : Tallied c l loc n) (hwf : c.WF loc) {r : TxRef} (hr : r ∈ loc ++ c.packets)
    (obs : StoreObs) : Tallied c (l.attach r obs) loc n := by
  change l.totalObs + 1 + n = obsTotal (l.append r obs) (loc ++ c.packets)
  rw [obsTotal_append_obs hwf.nodup hr, ← show _ = _ from h]
  omega

theorem Tallied.alloc (h : Tallied c l loc n) (hwf : c.WF loc) (tx : TxRow) :
    Tallied (c.alloc tx) (l.alloc c.next) (loc ++ [c.next]) n := by
  have hperm : (loc ++ [c.next] ++ c.packets).Perm (loc ++ c.packets ++ [c.next]) := by
    rw [List.append_assoc, List.append_assoc]
    exact List.perm_append_comm.append_left loc
  change l.totalObs + n = obsTotal (l.alloc c.next) (loc ++ [c.next] ++ c.packets)
  rw [obsTotal_perm _ hperm, obsTotal_append, obsTotal_alloc hwf.next_notMem, obsTotal_alloc_self, Int.add_zero]
  exact h

theorem Tallied.append (h : Tallied c l loc n) (hwf : c.WF loc) {r : TxRef} (hr : r ∈ loc) (obs : StoreObs) :
    Tallied c (l.append r obs) loc (n + 1) := by
  change l.totalObs + (n + 1) = obsTotal (l.append r obs) (loc ++ c.packets)
  rw [obsTotal_append_obs hwf.nodup (List.mem_append_left _ hr), ← show _ = _ from h]
  omega

theorem Tallied.evict {s : Store} (h : Tallied s.catalog s.ledger loc n) (rpBatch : Int → List String) (k : Nat) :
    Tallied (s.evict rpBatch k).catalog (s.evict rpBatch k).ledger loc n := by
  have hobs : (s.evict rpBatch k).ledger.observations = s.ledger.observations := observations_cachePaths s _
  have hlen : (((s.packets.take k).flatMap fun r => (s.heap r).observations).length : Int) =
      obsTotal s.ledger (s.packets.take k) := by
    rw [List.length_flatMap, Nat.cast_list_sum, List.map_map]
    rfl
  have hsplit : obsTotal s.ledger (loc ++ s.packets) =
      obsTotal s.ledger (s.packets.take k) + obsTotal s.ledger (loc ++ s.packets.drop k) := by
    conv_lhs => rw [← List.take_append_drop k s.packets]
    rw [obsTotal_append, obsTotal_append, obsTotal_append]
    omega
  have hsum : obsTotal (s.evict rpBatch k).ledger (loc ++ s.packets.drop k) =
      obsTotal s.ledger (loc ++ s.packets.drop k) := by
    unfold obsTotal
    rw [hobs]
  have hall : s.totalObs + n = obsTotal s.ledger (loc ++ s.packets) := h
  change s.totalObs - ((s.packets.take k).flatMap fun r => (s.heap r).observations).length + n =
    obsTotal (s.evict rpBatch k).ledger (loc ++ s.packets.drop k)
  rw [hlen, hsum]
  omega

end Tally

end MeshcoreAnalyzer.PacketStore.Overlap

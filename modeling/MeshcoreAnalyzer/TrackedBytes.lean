import MeshcoreAnalyzer.Ledger
import MeshcoreAnalyzer.Rows

namespace MeshcoreAnalyzer.PacketStore.TrackedBytes

open Maps Runs Store

/-- `trackedBytes` is the sum of the estimates of what is in the store. -/
def Exact (s : Store) : Prop := s.trackedBytes = (s.packets.map fun r => txBytes (s.heap r)).sum

instance (s : Store) : Decidable (Exact s) := inferInstanceAs (Decidable (_ = _))

/-- The bytes that the best path of a transmission adds to its estimate. -/
def pathBytes (tx : StoreTx) : Int := tx.estimateStoreTxBytes - rowBytes tx.toTxRow

def obsBytes (obs : List StoreObs) : Int := (obs.map estimateStoreObsBytes).sum

theorem txBytes_eq (tx : StoreTx) :
    txBytes tx = rowBytes tx.toTxRow + obsBytes tx.observations + pathBytes tx := by
  rw [txBytes, pathBytes, obsBytes]
  omega

theorem pathBytes_eq (tx : StoreTx) : pathBytes tx = tx.pathJSON.utf8ByteSize +
    ((parsePathJSON tx.pathJSON).length * 50 + if (1 : Int) < (parsePathJSON tx.pathJSON).length then
      ((parsePathJSON tx.pathJSON).length : Int) * ((parsePathJSON tx.pathJSON).length - 1) / 2 * 40
      else 0) := by
  unfold pathBytes rowBytes StoreTx.estimateStoreTxBytes
  simp only [StoreTx.txGetParsedPath_eq, StoreTx.ofRow_pathJSON, parsePathJSON_empty,
    StoreTx.ofRow_toTxRow, List.length_nil]
  have hempty : (("" : String).utf8ByteSize : Int) = 0 := rfl
  have hnone : ¬ (1 : Int) < ((0 : Nat) : Int) := by decide
  rw [hempty, if_neg hnone]
  omega

theorem pathBytes_nonneg (tx : StoreTx) : 0 ≤ pathBytes tx := by
  rw [pathBytes_eq]
  split
  · have hpairs : 0 ≤ ((parsePathJSON tx.pathJSON).length : Int) *
        ((parsePathJSON tx.pathJSON).length - 1) / 2 :=
      Int.ediv_nonneg (Int.mul_nonneg (by omega) (by omega)) (by decide)
    omega
  · omega

theorem sum_pathBytes_nonneg (s : Store) (rs : List TxRef) :
    0 ≤ (rs.map fun r => pathBytes (s.heap r)).sum := by
  apply List.sum_nonneg
  intro b hb
  obtain ⟨r, _, rfl⟩ := List.mem_map.mp hb
  exact pathBytes_nonneg _

theorem pathBytes_eq_zero {tx : StoreTx} : pathBytes tx = 0 ↔ tx.pathJSON = "" := by
  constructor
  · intro h
    rw [pathBytes_eq] at h
    rw [← String.utf8ByteSize_eq_zero_iff]
    split at h
    · have hpairs : 0 ≤ ((parsePathJSON tx.pathJSON).length : Int) *
          ((parsePathJSON tx.pathJSON).length - 1) / 2 :=
        Int.ediv_nonneg (Int.mul_nonneg (by omega) (by omega)) (by decide)
      omega
    · omega
  · intro h
    rw [pathBytes_eq, h]
    rfl

def paid (c : Catalog) (l : Ledger) (r : TxRef) : Int := rowBytes (c.row r) + obsBytes (l.observations r)

def paidTotal (c : Catalog) (l : Ledger) : Int := (c.packets.map (paid c l)).sum

def drift (c : Catalog) (l : Ledger) : Int := l.trackedBytes - paidTotal c l

def driftOf (s : Store) : Int := drift s.catalog s.ledger

theorem exact_iff_drift (s : Store) : Exact s ↔
    driftOf s = (s.packets.map fun r => pathBytes (s.heap r)).sum := by
  have hsum : (s.packets.map fun r => txBytes (s.heap r)).sum =
      paidTotal s.catalog s.ledger + (s.packets.map fun r => pathBytes (s.heap r)).sum := by
    change _ = (s.packets.map (paid s.catalog s.ledger)).sum + _
    rw [← List.sum_map_add]
    congr 1
    exact List.map_congr_left fun r _ => txBytes_eq (s.heap r)
  rw [Exact, driftOf, drift]
  rw [hsum]
  change s.trackedBytes = _ ↔ s.trackedBytes - _ = _
  omega

theorem paidTotal_insertTx {c : Catalog} {loc : List TxRef} (h : c.WF loc) (l : Ledger) (tx : TxRow) :
    paidTotal (c.insertTx tx) (l.alloc c.next) = paidTotal c l + rowBytes tx := by
  have hnext : c.next ∉ c.packets := fun hm => h.next_notMem (List.mem_append_right _ hm)
  have hold : ∀ r ∈ c.packets, paid (c.insertTx tx) (l.alloc c.next) r = paid c l r := by
    intro r hr
    have hne : r ≠ c.next := fun he => hnext (he ▸ hr)
    simp only [paid, Catalog.insertTx, Ledger.alloc, Function.update_of_ne hne]
  have hnew : paid (c.insertTx tx) (l.alloc c.next) c.next = rowBytes tx := by
    simp [paid, Catalog.insertTx, Ledger.alloc, obsBytes]
  change ((c.packets ++ [c.next]).map _).sum = _
  rw [List.map_append, List.sum_append, List.map_congr_left hold, List.map_singleton, hnew]
  simp [paidTotal]

theorem drift_insertTx {c : Catalog} {loc : List TxRef} (h : c.WF loc) (l : Ledger) (tx : TxRow) :
    drift (c.insertTx tx) ((l.alloc c.next).pay (rowBytes tx)) = drift c l := by
  change l.trackedBytes + rowBytes tx - paidTotal (c.insertTx tx) (l.alloc c.next) = _
  rw [paidTotal_insertTx h, drift]
  omega

theorem drift_attach {c : Catalog} (h : c.WF []) (l : Ledger) {r : TxRef} (hr : r ∈ c.packets)
    (obs : StoreObs) : drift c (l.attach r obs) = drift c l := by
  have hsum : paidTotal c (l.attach r obs) = paidTotal c l + estimateStoreObsBytes obs := by
    apply sum_map_eq_add h.nodup hr
    · simp [paid, Ledger.attach, Ledger.append, obsBytes]
      omega
    · intro q _ hq
      simp [paid, Ledger.attach, Ledger.append, hq]
  change l.trackedBytes + estimateStoreObsBytes obs - paidTotal c (l.attach r obs) = _
  rw [hsum, drift]
  omega

theorem driftOf_insertTx {s : Store} (h : s.catalog.WF []) (tx : TxRow) :
    driftOf (s.insertTx tx) = driftOf s := by
  rw [driftOf]
  rw [catalog_insertTx, ledger_insertTx]
  exact drift_insertTx h s.ledger tx

theorem driftOf_attachObs (env : Env) {s : Store} (h : s.catalog.WF []) {r : TxRef}
    (hr : r ∈ s.packets) (o : ObsRow) :
    driftOf ((s.indexLiveHops env r o).attachObs r o.toObs) = driftOf s := by
  rw [driftOf]
  rw [catalog_attachObs, ledger_attachObs, catalog_indexLiveHops, ledger_indexLiveHops]
  exact drift_attach h _ hr _

theorem driftOf_evict (s : Store) (rpBatch : Int → List String) (n : Nat) :
    driftOf (s.evict rpBatch n) =
      max (driftOf s - ((s.packets.take n).map fun r => pathBytes (s.heap r)).sum)
        (-((s.packets.drop n).map (paid s.catalog s.ledger)).sum) := by
  have hpaid : paidTotal (s.evict rpBatch n).catalog (s.evict rpBatch n).ledger =
      ((s.packets.drop n).map (paid s.catalog s.ledger)).sum := by
    have hobs : (s.evict rpBatch n).ledger.observations = s.ledger.observations :=
      observations_cachePaths s _
    have hrow : (s.evict rpBatch n).catalog.row = s.catalog.row := row_cachePaths s _
    rw [paidTotal]
    change ((s.packets.drop n).map _).sum = _
    congr 1
    refine List.map_congr_left fun r _ => ?_
    rw [paid, paid, hobs, hrow]
  have htake : ((s.packets.take n).map fun r => txBytes (s.heap r)).sum =
      ((s.packets.take n).map (paid s.catalog s.ledger)).sum +
        ((s.packets.take n).map fun r => pathBytes (s.heap r)).sum := by
    rw [← List.sum_map_add]
    congr 1
    exact List.map_congr_left fun r _ => txBytes_eq (s.heap r)
  have htotal : paidTotal s.catalog s.ledger = ((s.packets.take n).map (paid s.catalog s.ledger)).sum +
      ((s.packets.drop n).map (paid s.catalog s.ledger)).sum := by
    rw [← List.sum_append, ← List.map_append, List.take_append_drop]
    rfl
  have htracked : (s.evict rpBatch n).trackedBytes =
      max (s.trackedBytes - ((s.packets.take n).map fun r => txBytes (s.heap r)).sum) 0 := rfl
  change (s.evict rpBatch n).trackedBytes - paidTotal _ _ = max (s.trackedBytes - _ - _) _
  rw [hpaid, htracked, htake, htotal]
  omega

theorem paid_nonneg (c : Catalog) (l : Ledger) (r : TxRef) : 0 ≤ paid c l r := by
  have hrow : 0 ≤ rowBytes (c.row r) := by
    have : (StoreTx.ofRow (c.row r)).txGetParsedPath = [] := rfl
    rw [rowBytes, StoreTx.estimateStoreTxBytes]
    simp only [this, List.length_nil]
    omega
  have hobs : 0 ≤ obsBytes (l.observations r) := by
    apply List.sum_nonneg
    intro b hb
    obtain ⟨o, _, rfl⟩ := List.mem_map.mp hb
    rw [estimateStoreObsBytes]
    omega
  exact Int.add_nonneg hrow hobs

theorem sum_paid_nonneg (c : Catalog) (l : Ledger) (rs : List TxRef) :
    0 ≤ (rs.map (paid c l)).sum := by
  apply List.sum_nonneg
  intro b hb
  obtain ⟨r, _, rfl⟩ := List.mem_map.mp hb
  exact paid_nonneg c l r

theorem driftOf_ingestNewFromDB {s : Store} (h : s.catalog.WF []) (env : Env) (sinceID limit : Int)
    (rows : List ScanRow) : driftOf (s.ingestNewFromDB env sinceID limit rows).1 = driftOf s := by
  rw [ingestNewFromDB, driftOf]
  dsimp only
  rw [catalog_finishIngest, ledger_finishIngest, ingestRows_fst]
  exact mergeRows_invariant (P := fun t => driftOf t = driftOf s) (catalog_indexLiveHops env)
    (fun t tx hwf _ ht => (driftOf_insertTx hwf tx).trans ht)
    (fun t r o hwf hr _ ht => (driftOf_attachObs env hwf hr o).trans ht) h rfl _

theorem driftOf_ingestNewObservations {s : Store} (h : s.catalog.WF []) (env : Env) (limit : Int)
    (rows : List ObsRow) : driftOf (s.ingestNewObservations env limit rows) = driftOf s := by
  unfold ingestNewObservations driftOf
  dsimp only
  rw [catalog_finishObservations, ledger_finishObservations]
  exact lateRows_invariant (P := fun t => driftOf t = driftOf s)
    (fun t r o hwf hr _ ht => (driftOf_attachObs env hwf hr o).trans ht) h rfl _

/-- The store is well formed, and `trackedBytes` is never above what was paid. -/
structure Settled (s : Store) : Prop where
  wf : s.catalog.WF []
  nonpos : driftOf s ≤ 0

theorem settled_new (use : Bool) : Settled (Store.new use) :=
  ⟨(State.wf_new use).catalog, Int.le_refl 0⟩

theorem wf_live {s : Store} (h : s.catalog.WF []) (a : LiveAction) : (s.live a).catalog.WF [] := by
  have hst : State.WF ⟨s, none⟩ := ⟨h, fun c hc => by cases hc⟩
  have hstep := (hst.step (State.enabled_toAction ⟨s, none⟩ a)).catalog
  rwa [State.step_toAction] at hstep

theorem Settled.live {s : Store} (h : Settled s) (a : LiveAction) : Settled (s.live a) := by
  refine ⟨wf_live h.wf a, ?_⟩
  cases a with
  | ingestNewFromDB env sinceID limit rows =>
      exact (driftOf_ingestNewFromDB h.wf env sinceID limit rows).trans_le h.nonpos
  | ingestNewObservations env limit rows =>
      exact (driftOf_ingestNewObservations h.wf env limit rows).trans_le h.nonpos
  | evict ret rpBatch =>
      unfold Store.live evictStaleInternal
      dsimp only
      split
      · exact h.nonpos
      · split
        · exact h.nonpos
        · have hpaths := sum_pathBytes_nonneg s (s.packets.take (s.cutoffIdx ret))
          have hrest := sum_paid_nonneg s.catalog s.ledger (s.packets.drop (s.cutoffIdx ret))
          have hnonpos := h.nonpos
          rw [driftOf_evict]
          omega

theorem settled_run (use : Bool) (acts : List LiveAction) : Settled ((Store.new use).run acts) :=
  foldl_invariant (settled_new use) fun _ a _ h => h.live a

theorem drift_live_of_pathless {s : Store} (h : Settled s) (hzero : driftOf s = 0)
    (hpath : ∀ r ∈ s.packets, (s.heap r).pathJSON = "") (a : LiveAction) :
    driftOf (s.live a) = 0 := by
  cases a with
  | ingestNewFromDB env sinceID limit rows =>
      exact (driftOf_ingestNewFromDB h.wf env sinceID limit rows).trans hzero
  | ingestNewObservations env limit rows =>
      exact (driftOf_ingestNewObservations h.wf env limit rows).trans hzero
  | evict ret rpBatch =>
      unfold Store.live evictStaleInternal
      dsimp only
      split
      · exact hzero
      · split
        · exact hzero
        · have hfree : (s.packets.take (s.cutoffIdx ret)).map (fun r => pathBytes (s.heap r)) =
              (s.packets.take (s.cutoffIdx ret)).map fun _ => 0 :=
            List.map_congr_left fun r hr => pathBytes_eq_zero.mpr (hpath r (List.mem_of_mem_take hr))
          have hnothing : ((s.packets.take (s.cutoffIdx ret)).map fun _ => (0 : Int)).sum = 0 := by
            simp
          have hrest := sum_paid_nonneg s.catalog s.ledger (s.packets.drop (s.cutoffIdx ret))
          rw [driftOf_evict, hzero, hfree, hnothing]
          omega

theorem Settled.exact_iff {s : Store} (h : Settled s) :
    Exact s ↔ driftOf s = 0 ∧ ∀ r ∈ s.packets, (s.heap r).pathJSON = "" := by
  have hnonneg : ∀ b ∈ s.packets.map (fun r => pathBytes (s.heap r)), 0 ≤ b := by
    intro b hb
    obtain ⟨r, _, rfl⟩ := List.mem_map.mp hb
    exact pathBytes_nonneg _
  rw [exact_iff_drift]
  constructor
  · intro he
    have hsum := List.sum_nonneg hnonneg
    have hnonpos := h.nonpos
    have hzero : driftOf s = 0 := by omega
    refine ⟨hzero, fun r hr => ?_⟩
    rw [hzero] at he
    have hle := List.single_le_sum hnonneg _ (List.mem_map_of_mem hr)
    have hge := pathBytes_nonneg (s.heap r)
    apply pathBytes_eq_zero.mp
    omega
  · rintro ⟨hzero, hpath⟩
    have hfree : s.packets.map (fun r => pathBytes (s.heap r)) = s.packets.map fun _ => 0 :=
      List.map_congr_left fun r hr => pathBytes_eq_zero.mpr (hpath r hr)
    rw [hzero, hfree]
    simp

/-- The figure is right all along a run from the empty store if and only if no
packet in any of its states has a path. -/
theorem exact_iff_pathless (use : Bool) (acts : List LiveAction) :
    (∀ done, done <+: acts → Exact ((Store.new use).run done)) ↔
      ∀ done, done <+: acts → ∀ r ∈ ((Store.new use).run done).packets, (((Store.new use).run done).heap r).pathJSON = "" := by
  constructor
  · intro h done hdone
    exact ((settled_run use done).exact_iff.mp (h done hdone)).2
  · intro h done hdone
    refine (settled_run use done).exact_iff.mpr ⟨?_, h done hdone⟩
    induction done using List.reverseRecOn with
    | nil => rfl
    | append_singleton done a ih =>
        have hleast : done <+: acts := (List.prefix_append done [a]).trans hdone
        have hrun : (Store.new use).run (done ++ [a]) = ((Store.new use).run done).live a := run_snoc _ _ _
        rw [hrun]
        exact drift_live_of_pathless (settled_run use done) (ih hleast) (h done hleast) a

def twoHops : List LiveAction :=
  [.ingestNewFromDB (plainEnv none) 0 100
    [heardRow (plainTx 1 "h1" "2026-01-01T00:00:00Z" 2) 1 "obs1" "[\"aa\",\"bb\"]"]]

/-- The path of a packet is counted when the packet is summed up, not when it comes in. -/
theorem not_always_exact : ¬ ∀ (use : Bool) (acts : List LiveAction), Exact ((Store.new use).run acts) := fun h =>
  absurd (h true twoHops) (by decide +kernel)

end MeshcoreAnalyzer.PacketStore.TrackedBytes

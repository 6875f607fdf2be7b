import MeshcoreAnalyzer.Cursors
import MeshcoreAnalyzer.WellFormed

namespace MeshcoreAnalyzer.PacketStore.CappedLoad

open Maps Runs Store Cursors

/-! The startup load under a memory cap: `LoadChunked` of cmd/server/chunked_load.go
walks the table upwards in chunks of rows, `Load` of cmd/server/store.go ranks it in
SQL. -/

/-- A row of `transmissions` as the two loaders select it. -/
structure LoadRow extends TxRow where
  lastSeen : Int

/-- The tables: `id` is the primary key, counted up from 1 by SQLite (a fixture has a row
with ID 0), and `hash` is unique. -/
structure LoadDB where
  hasLastSeen : Bool
  transmissions : List LoadRow
  observations : List ObsRow
  ids : (transmissions.map (·.id)).Nodup
  hashes : (transmissions.map (·.hash)).Nodup
  nonneg : ∀ t ∈ transmissions, 0 ≤ t.id

/-- `hotCutoffT`, as a Unix time and as a text. -/
structure Cutoff where
  unix : Int
  text : String

/-- Neither limit is set, or `retentionHours` is, or `hotStartupHours`. -/
inductive StartupWindow
  | unlimited
  | retention (cutoff : Cutoff)
  | hot (cutoff : Cutoff)

namespace StartupWindow

def cutoff : StartupWindow → Option Cutoff
  | unlimited => none
  | retention c => some c
  | hot c => some c

def hotCutoff : StartupWindow → Option String
  | hot c => some c.text
  | _ => none

end StartupWindow

def estimateStoreTxBytesTypical (numObs : Int) : Int :=
  384 + 64 + 200 + 40 + 5 * 48 + 200 + 3 * 50 + (3 * (3 - 1) / 2) * 40 + numObs * (192 + 30 + 30 + 60 + 2 * 48)

/-- No cap is 0. The product of two 64-bit integers wraps around. -/
def maxPackets (maxMemoryMB : Int) : Nat :=
  if 0 < maxMemoryMB then
    max 1000 ((Int.bmod (maxMemoryMB * 1048576) (2 ^ 64)).tdiv (max 1000 (estimateStoreTxBytesTypical 10))).toNat
  else 0

theorem maxPackets_pos {maxMemoryMB : Int} (h : 0 < maxMemoryMB) : 0 < maxPackets maxMemoryMB := by
  rw [maxPackets, if_pos h]
  omega

namespace LoadDB

/-- `loadConditions`; databases without `last_seen` go by `first_seen`. -/
def passes (db : LoadDB) (w : StartupWindow) (t : LoadRow) : Bool :=
  match w.cutoff with
  | none => true
  | some c => if db.hasLastSeen then c.unix ≤ t.lastSeen else c.text ≤ t.firstSeen

def eligible (db : LoadDB) (w : StartupWindow) : List LoadRow := db.transmissions.filter (db.passes w)

/-- The later of two transmissions on the axis that the loaders go by. -/
def SeenAfter (db : LoadDB) (a b : LoadRow) : Prop :=
  if db.hasLastSeen then b.lastSeen < a.lastSeen else b.firstSeen < a.firstSeen

/-- A transmission left joined with its observations, the latest first. -/
def joined (db : LoadDB) (t : TxRow) : List ScanRow :=
  let obs := (db.observations.insertionSort fun a b => b.timestamp ≤ a.timestamp).filterMap fun o =>
    if h : o.txID = t.id then
      some (⟨t, some o, fun o' h' => by
        cases h'
        exact h⟩ : ScanRow)
    else none
  if obs.isEmpty then [bareRow t] else obs

/-- The subquery of a chunk: `WHERE … AND t2.id > cursorID ORDER BY t2.id ASC LIMIT chunkSize`. -/
def chunk (db : LoadDB) (w : StartupWindow) (cursorID : Int) (chunkSize : Nat) : List LoadRow :=
  (sorted (fun t : LoadRow => t.id) (behind (fun t : LoadRow => t.id) cursorID (db.eligible w))).take chunkSize

def chunkRows (db : LoadDB) (w : StartupWindow) (cursorID : Int) (chunkSize : Nat) : List ScanRow :=
  (db.chunk w cursorID chunkSize).flatMap fun t => db.joined t.toTxRow

end LoadDB

def chunkTxCount (rows : List ScanRow) : Nat := (rows.map (·.tx.id)).dedup.length

def lastID (rows : List ScanRow) : Int := (rows.map (·.tx.id)).foldl max 0

structure Progress where
  store : Store
  cursorID : Int
  totalLoaded : Nat

def loadChunks (db : LoadDB) (w : StartupWindow) (relayPM : Option PrefixMap) (maxPackets chunkSize : Nat) :
    Nat → Progress → Option Store
  | 0, _ => none
  | fuel + 1, p =>
      let rows := db.chunkRows w p.cursorID chunkSize
      let s := p.store.scanAndMergeChunk relayPM rows
      let count := chunkTxCount rows
      if count = 0 then some s
      else if 0 < maxPackets ∧ maxPackets ≤ p.totalLoaded + count ∨ count < chunkSize then some s
      else loadChunks db w relayPM maxPackets chunkSize fuel ⟨s, lastID rows, p.totalLoaded + count⟩

def effectiveChunkSize (chunkSize : Int) : Nat := if chunkSize ≤ 0 then 10000 else chunkSize.toNat

/-- `LoadChunked` on a store of its own, as at startup. -/
def loadChunked (env : Env) (relayPM : Option PrefixMap) (use : Bool) (db : LoadDB) (w : StartupWindow)
    (maxMemoryMB chunkSize : Int) (fuel : Nat) : Option Store :=
  (loadChunks db w relayPM (maxPackets maxMemoryMB) (effectiveChunkSize chunkSize) fuel
    ⟨Store.new use, -1, 0⟩).map (Store.finishLoad env w.hotCutoff)

/-- `SELECT … FROM transmissions ORDER BY last_seen DESC`: the order among equals is left
open. -/
structure Ranked (db : LoadDB) where
  list : List LoadRow
  perm : list.Perm db.transmissions
  newestFirst : list.Pairwise fun a b => ¬ db.SeenAfter b a

/-- The `WHERE` clause of `loadSQL`. -/
def selected (db : LoadDB) (w : StartupWindow) (maxPackets : Nat) (ranked : Ranked db) : List LoadRow :=
  (db.eligible w).filter fun t =>
    maxPackets = 0 ∨ ((ranked.list.take maxPackets).map (·.id)).contains t.id = true

/-- `ORDER BY t.first_seen ASC, o.timestamp DESC` -/
def rowBefore (a b : ScanRow) : Bool :=
  a.tx.firstSeen < b.tx.firstSeen ∨
    a.tx.firstSeen = b.tx.firstSeen ∧ (b.obs.map (·.timestamp)).getD "" ≤ (a.obs.map (·.timestamp)).getD ""

def loadRows (db : LoadDB) (ts : List LoadRow) : List ScanRow :=
  (ts.flatMap fun t => db.joined t.toTxRow).insertionSort fun a b => rowBefore a b = true

/-- `Load`; the indexes that it leaves to the background are not built yet. -/
def load (relayPM : Option PrefixMap) (use : Bool) (db : LoadDB) (w : StartupWindow) (maxMemoryMB : Int)
    (ranked : Ranked db) : Store :=
  let rows := loadRows db (selected db w (maxPackets maxMemoryMB) ranked)
  let s := ((Store.new use).scanAndMergeChunk relayPM rows).pickAndIndexAll
  { s with
    loaded := true
    oldestLoaded := match w.hotCutoff with
      | some cutoff => cutoff
      | none => match s.packets with
        | r :: _ => (s.row r).firstSeen
        | [] => s.oldestLoaded }

/-- The packets of the catalogue are the transmissions `S`, each of them once. -/
structure Loads (c : Catalog) (S : TxRow → Prop) : Prop where
  wf : c.WF []
  mem : ∀ t, t ∈ c.packets.map c.row ↔ S t
  nodup : (c.packets.map c.row).Nodup
  found : ∀ t, S t → (c.byHash t.hash).isSome

theorem Loads.congr {c : Catalog} {S T : TxRow → Prop} (h : Loads c S) (hST : ∀ t, S t ↔ T t) : Loads c T where
  wf := h.wf
  mem := fun t => (h.mem t).trans (hST t)
  nodup := h.nodup
  found := fun t ht => h.found t ((hST t).mpr ht)

theorem loads_new (use : Bool) : Loads (Store.new use).catalog fun _ => False where
  wf := (State.wf_new use).catalog
  mem := fun t => by
    change t ∈ ([] : List TxRow) ↔ False
    simp
  nodup := List.nodup_nil
  found := fun _ h => h.elim

theorem Loads.findOrInsert {c : Catalog} {S : TxRow → Prop} (h : Loads c S) {tx : TxRow}
    (hash : ∀ t, S t → t.hash = tx.hash → t = tx) : Loads (c.findOrInsert tx) fun t => S t ∨ t = tx := by
  have hwf := h.wf.findOrInsert tx
  by_cases hnone : c.byHash tx.hash = none
  · have hnew : ¬ S tx := fun hs => by
      have hfound := h.found tx hs
      rw [hnone] at hfound
      cases hfound
    have hpackets : (c.insertTx tx).packets.map (c.insertTx tx).row = c.packets.map c.row ++ [tx] := by
      change (c.packets ++ [c.next]).map (Function.update c.row c.next tx) = _
      rw [List.map_append, List.map_singleton, Function.update_self]
      congr 1
      exact List.map_congr_left fun r hr => Catalog.update_row_of_mem h.wf tx hr
    rw [Catalog.findOrInsert, if_pos hnone] at hwf ⊢
    refine ⟨hwf, fun t => ?_, ?_, ?_⟩
    · rw [hpackets, List.mem_append, List.mem_singleton, h.mem]
    · rw [hpackets, List.nodup_append]
      refine ⟨h.nodup, List.nodup_singleton tx, ?_⟩
      rintro a ha b hb rfl
      rw [List.mem_singleton] at hb
      exact hnew ((h.mem tx).mp (hb ▸ ha))
    · intro t ht
      change (set c.byHash tx.hash c.next t.hash).isSome
      rw [set_apply]
      split
      · rfl
      · next hne =>
          rcases ht with ht | rfl
          · exact h.found t ht
          · exact absurd rfl hne
  · obtain ⟨r, hr⟩ := Option.ne_none_iff_exists'.mp hnone
    obtain ⟨hmem, hhash⟩ := h.wf.hash tx.hash r hr
    have hrow : S (c.row r) := (h.mem _).mp (List.mem_map_of_mem hmem)
    have htx : S tx := hash _ hrow hhash ▸ hrow
    rw [Catalog.findOrInsert, if_neg hnone] at hwf ⊢
    exact h.congr fun t => ⟨Or.inl, fun ht => ht.elim id fun heq => heq ▸ htx⟩

theorem Loads.rows {D : TxRow → Prop} (hash : ∀ t u, D t → D u → t.hash = u.hash → t = u) {rows : List ScanRow}
    (hrows : ∀ row ∈ rows, D row.tx) {c : Catalog} {S : TxRow → Prop} (h : Loads c S) (hS : ∀ t, S t → D t) :
    Loads (rows.foldl (fun c row => c.findOrInsert row.tx) c) fun t => S t ∨ ∃ row ∈ rows, row.tx = t := by
  induction rows generalizing c S with
  | nil => exact h.congr fun t => by simp
  | cons row rows ih =>
      have hrow := hrows row List.mem_cons_self
      have hnext := h.findOrInsert fun t ht => hash t row.tx (hS t ht) hrow
      have hS' : ∀ t, S t ∨ t = row.tx → D t := fun t ht => ht.elim (hS t) fun heq => heq ▸ hrow
      refine (ih (fun row' h' => hrows row' (List.mem_cons_of_mem _ h')) hnext hS').congr fun t => ?_
      simp [or_assoc, eq_comm]

theorem Loads.scanAndMergeChunk {D : TxRow → Prop} (hash : ∀ t u, D t → D u → t.hash = u.hash → t = u)
    {rows : List ScanRow} (hrows : ∀ row ∈ rows, D row.tx) {s : Store} {S : TxRow → Prop} (h : Loads s.catalog S)
    (hS : ∀ t, S t → D t) (relayPM : Option PrefixMap) :
    Loads (s.scanAndMergeChunk relayPM rows).catalog fun t => S t ∨ ∃ row ∈ rows, row.tx = t := by
  rw [catalog_scanAndMergeChunk]
  exact h.rows hash hrows hS

theorem Loads.sortPackets {c : Catalog} {S : TxRow → Prop} (h : Loads c S) : Loads c.sortPackets S := by
  have hperm : (c.sortPackets.packets.map c.sortPackets.row).Perm (c.packets.map c.row) :=
    (List.perm_insertionSort _ c.packets).map c.row
  exact ⟨h.wf.sortPackets, fun t => hperm.mem_iff.trans (h.mem t), hperm.nodup_iff.mpr h.nodup, h.found⟩

namespace LoadDB

variable (db : LoadDB) (w : StartupWindow)

theorem joined_tx (t : TxRow) : ∀ row ∈ db.joined t, row.tx = t := by
  intro row hrow
  unfold joined at hrow
  dsimp only at hrow
  split at hrow
  · rw [List.mem_singleton] at hrow
    rw [hrow]
    rfl
  · obtain ⟨o, _, ho⟩ := List.mem_filterMap.mp hrow
    split at ho
    · cases ho
      rfl
    · cases ho

theorem joined_ne_nil (t : TxRow) : db.joined t ≠ [] := by
  unfold joined
  dsimp only
  split
  · exact List.cons_ne_nil _ _
  · next h => simpa using h

theorem exists_row_iff (ts : List LoadRow) (t : TxRow) :
    (∃ row ∈ ts.flatMap fun t => db.joined t.toTxRow, row.tx = t) ↔ ∃ x ∈ ts, x.toTxRow = t := by
  constructor
  · rintro ⟨row, hrow, rfl⟩
    obtain ⟨x, hx, hmem⟩ := List.mem_flatMap.mp hrow
    exact ⟨x, hx, (db.joined_tx x.toTxRow row hmem).symm⟩
  · rintro ⟨x, hx, rfl⟩
    obtain ⟨row, hrow⟩ := List.exists_mem_of_ne_nil _ (db.joined_ne_nil x.toTxRow)
    exact ⟨row, List.mem_flatMap.mpr ⟨x, hx, hrow⟩, db.joined_tx _ row hrow⟩

theorem eq_of_id {t u : LoadRow} (ht : t ∈ db.transmissions) (hu : u ∈ db.transmissions) (h : t.id = u.id) :
    t = u := List.inj_on_of_nodup_map db.ids ht hu h

/-- Being a row of the table. -/
def HasRow (t : TxRow) : Prop := ∃ x ∈ db.transmissions, x.toTxRow = t

theorem eq_of_hash (t u : TxRow) (ht : db.HasRow t) (hu : db.HasRow u) (h : t.hash = u.hash) : t = u := by
  obtain ⟨x, hx, rfl⟩ := ht
  obtain ⟨y, hy, rfl⟩ := hu
  rw [List.inj_on_of_nodup_map db.hashes hx hy h]

def byID : List LoadRow := sorted (fun t : LoadRow => t.id) (db.eligible w)

variable {db w}

theorem mem_transmissions {t : LoadRow} (h : t ∈ db.eligible w) : t ∈ db.transmissions := List.mem_of_mem_filter h

theorem ids_eligible : ((db.eligible w).map (·.id)).Nodup := (List.filter_sublist.map _).nodup db.ids

theorem mem_byID {t : LoadRow} : t ∈ db.byID w ↔ t ∈ db.eligible w := mem_sorted

theorem length_byID : (db.byID w).length = (db.eligible w).length := sorted_perm.length_eq

theorem ascending_byID : (db.byID w).Pairwise fun a b => a.id < b.id := pairwise_sorted ids_eligible

theorem nodup_byID : (db.byID w).Nodup := ascending_byID.imp fun h heq => absurd (heq ▸ h) (lt_irrefl _)

end LoadDB

section Walk

variable {db : LoadDB} {w : StartupWindow} {maxPackets chunkSize : Nat}

theorem chunk_eq {k : Nat} {cursorID : Int} (hbefore : ∀ a ∈ (db.byID w).take k, a.id ≤ cursorID)
    (hbehind : ∀ b ∈ (db.byID w).drop k, cursorID < b.id) (chunkSize : Nat) :
    db.chunk w cursorID chunkSize = ((db.byID w).drop k).take chunkSize := by
  have hall : behind (fun t : LoadRow => t.id) cursorID (db.byID w) = (db.byID w).drop k := by
    conv_lhs => rw [← List.take_append_drop k (db.byID w)]
    exact behind_append hbefore hbehind
  rw [LoadDB.chunk, sorted_behind LoadDB.ids_eligible, ← hall]
  rfl

theorem mem_rowIDs {ts : List LoadRow} {i : Int} :
    i ∈ (ts.flatMap fun t => db.joined t.toTxRow).map (·.tx.id) ↔ i ∈ ts.map (·.id) := by
  constructor
  · intro h
    obtain ⟨row, hrow, rfl⟩ := List.mem_map.mp h
    obtain ⟨x, hx, heq⟩ := (db.exists_row_iff ts row.tx).mp ⟨row, hrow, rfl⟩
    exact List.mem_map.mpr ⟨x, hx, congrArg TxRow.id heq⟩
  · intro h
    obtain ⟨x, hx, rfl⟩ := List.mem_map.mp h
    obtain ⟨row, hrow, heq⟩ := (db.exists_row_iff ts x.toTxRow).mpr ⟨x, hx, rfl⟩
    exact List.mem_map.mpr ⟨row, hrow, congrArg TxRow.id heq⟩

theorem chunkTxCount_eq {ts : List LoadRow} (hnd : (ts.map (·.id)).Nodup) :
    chunkTxCount (ts.flatMap fun t => db.joined t.toTxRow) = ts.length := by
  have hperm : ((ts.flatMap fun t => db.joined t.toTxRow).map (·.tx.id)).dedup.Perm (ts.map (·.id)) := by
    apply (List.perm_ext_iff_of_nodup (List.nodup_dedup _) hnd).mpr
    intro i
    rw [List.mem_dedup, mem_rowIDs]
  rw [chunkTxCount, hperm.length_eq, List.length_map]

/-- Before a round of the loop: the first `k` transmissions are in the store, and the
cursor stands between them and the others. -/
structure At (db : LoadDB) (w : StartupWindow) (k : Nat) (p : Progress) : Prop where
  total : p.totalLoaded = k
  within : k ≤ (db.byID w).length
  before : ∀ a ∈ (db.byID w).take k, a.id ≤ p.cursorID
  behind : ∀ b ∈ (db.byID w).drop k, p.cursorID < b.id
  loads : Loads p.store.catalog fun t => ∃ x ∈ (db.byID w).take k, x.toTxRow = t

theorem at_start (use : Bool) : At db w 0 ⟨Store.new use, -1, 0⟩ where
  total := rfl
  within := Nat.zero_le _
  before := fun a ha => by cases ha
  behind := fun b hb => by
    have hnonneg := db.nonneg b (LoadDB.mem_transmissions (LoadDB.mem_byID.mp hb))
    change (-1 : Int) < b.id
    omega
  loads := (loads_new use).congr fun t => by simp

theorem mem_transmissions_of_take {k : Nat} {x : LoadRow} (h : x ∈ (db.byID w).take k) : x ∈ db.transmissions :=
  LoadDB.mem_transmissions (LoadDB.mem_byID.mp (List.mem_of_mem_take h))

theorem At.loads_chunk {k : Nat} {p : Progress} (h : At db w k p) (relayPM : Option PrefixMap) (chunkSize : Nat) :
    Loads (p.store.scanAndMergeChunk relayPM (db.chunkRows w p.cursorID chunkSize)).catalog
      fun t => ∃ x ∈ (db.byID w).take (k + chunkSize), x.toTxRow = t := by
  have hrows : db.chunkRows w p.cursorID chunkSize =
      (((db.byID w).drop k).take chunkSize).flatMap fun t => db.joined t.toTxRow := by
    rw [LoadDB.chunkRows, chunk_eq h.before h.behind]
  have hmem : ∀ row ∈ db.chunkRows w p.cursorID chunkSize, db.HasRow row.tx := by
    intro row hrow
    rw [hrows] at hrow
    obtain ⟨x, hx, heq⟩ := (db.exists_row_iff _ row.tx).mp ⟨row, hrow, rfl⟩
    have hx' := List.mem_of_mem_drop (List.mem_of_mem_take hx)
    exact ⟨x, LoadDB.mem_transmissions (LoadDB.mem_byID.mp hx'), heq⟩
  have hold : ∀ t, (∃ x ∈ (db.byID w).take k, x.toTxRow = t) → db.HasRow t := fun t ⟨x, hx, heq⟩ =>
    ⟨x, mem_transmissions_of_take hx, heq⟩
  refine (h.loads.scanAndMergeChunk db.eq_of_hash hmem hold relayPM).congr fun t => ?_
  rw [hrows, db.exists_row_iff, List.take_add]
  simp only [List.mem_append, or_and_right, exists_or]

theorem At.count {k : Nat} {p : Progress} (h : At db w k p) (chunkSize : Nat) :
    chunkTxCount (db.chunkRows w p.cursorID chunkSize) = min chunkSize ((db.byID w).length - k) := by
  have hnd : ((((db.byID w).drop k).take chunkSize).map (·.id)).Nodup := by
    have hsub : (((db.byID w).drop k).take chunkSize).Sublist (db.byID w) :=
      (List.take_sublist _ _).trans (List.drop_sublist _ _)
    exact (hsub.map _).nodup (List.pairwise_map.mpr (LoadDB.ascending_byID.imp ne_of_lt))
  rw [LoadDB.chunkRows, chunk_eq h.before h.behind, chunkTxCount_eq hnd, List.length_take, List.length_drop]

theorem At.next {k : Nat} {p : Progress} (h : At db w k p) (hpos : 0 < chunkSize)
    (hfull : k + chunkSize ≤ (db.byID w).length) (relayPM : Option PrefixMap) :
    At db w (k + chunkSize) ⟨p.store.scanAndMergeChunk relayPM (db.chunkRows w p.cursorID chunkSize),
      lastID (db.chunkRows w p.cursorID chunkSize), p.totalLoaded + chunkSize⟩ := by
  have hsplit : (db.byID w).take (k + chunkSize) = (db.byID w).take k ++ ((db.byID w).drop k).take chunkSize :=
    List.take_add
  have hdrop : (db.byID w).drop k = ((db.byID w).drop k).take chunkSize ++ (db.byID w).drop (k + chunkSize) := by
    rw [← List.drop_drop, List.take_append_drop]
  have hids : ∀ i, i ∈ (db.chunkRows w p.cursorID chunkSize).map (·.tx.id) ↔
      i ∈ (((db.byID w).drop k).take chunkSize).map (·.id) := by
    intro i
    rw [LoadDB.chunkRows, chunk_eq h.before h.behind, mem_rowIDs]
  have hchunk : ∀ a ∈ ((db.byID w).drop k).take chunkSize,
      p.cursorID < a.id ∧ a.id ≤ lastID (db.chunkRows w p.cursorID chunkSize) := by
    intro a ha
    exact ⟨h.behind a (List.mem_of_mem_take ha), le_foldl_max ((hids _).mpr (List.mem_map_of_mem ha))⟩
  obtain ⟨first, hfirst⟩ : ∃ a, a ∈ ((db.byID w).drop k).take chunkSize := by
    apply List.exists_mem_of_ne_nil
    apply List.ne_nil_of_length_pos
    rw [List.length_take, List.length_drop]
    omega
  have hascending : (db.byID w).Pairwise fun a b => a.id < b.id := LoadDB.ascending_byID
  refine ⟨by rw [h.total], hfull, ?_, ?_, h.loads_chunk relayPM chunkSize⟩
  · intro a ha
    rw [hsplit, List.mem_append] at ha
    rcases ha with ha | ha
    · have hcursor := h.before a ha
      have hlast := hchunk first hfirst
      change a.id ≤ lastID _
      omega
    · exact (hchunk a ha).2
  · intro b hb
    have hlater : ∀ a ∈ ((db.byID w).drop k).take chunkSize, a.id < b.id := by
      have hpair := hascending.drop (i := k)
      rw [hdrop, List.pairwise_append] at hpair
      exact fun a ha => hpair.2.2 a ha b hb
    apply foldl_max_lt_iff.mpr
    refine ⟨?_, fun i hi => ?_⟩
    · have hnonneg := db.nonneg first (LoadDB.mem_transmissions (LoadDB.mem_byID.mp
        (List.mem_of_mem_drop (List.mem_of_mem_take hfirst))))
      have hlt := hlater first hfirst
      omega
    · obtain ⟨a, ha, rfl⟩ := List.mem_map.mp ((hids i).mp hi)
      exact hlater a ha

/-- Where the loop may stop, out of `n` transmissions: `m` of them were in the store
before the last chunk. -/
structure Stopped (n maxPackets chunkSize k : Nat) : Prop where
  within : k ≤ n
  done : k = n ∨ maxPackets ≤ k ∧ chunkSize ∣ k
  lastChunk : ∃ m, chunkSize ∣ m ∧ m < maxPackets ∧ k ≤ m + chunkSize

theorem loadChunks_stops (hpos : 0 < chunkSize) (relayPM : Option PrefixMap) {fuel k : Nat} {p : Progress}
    (h : At db w k p) (hdvd : chunkSize ∣ k) (hcap : k < maxPackets) (hfuel : (db.byID w).length < k + fuel) :
    ∃ s, loadChunks db w relayPM maxPackets chunkSize fuel p = some s ∧
      ∃ k', Stopped (db.byID w).length maxPackets chunkSize k' ∧
        Loads s.catalog fun t => ∃ x ∈ (db.byID w).take k', x.toTxRow = t := by
  induction fuel generalizing k p with
  | zero => exact absurd hfuel (Nat.not_lt.mpr h.within)
  | succ fuel ih =>
      have hcount := h.count chunkSize
      have hloads := h.loads_chunk relayPM chunkSize
      have hwithin := h.within
      have htake : ∀ k', k' = min (k + chunkSize) (db.byID w).length →
          (db.byID w).take (k + chunkSize) = (db.byID w).take k' := by
        rintro _ rfl
        exact List.take_eq_take_min
      unfold loadChunks
      dsimp only
      rw [hcount, h.total]
      split
      · next hnone =>
          refine ⟨_, rfl, k, ⟨hwithin, Or.inl (by omega), k, hdvd, hcap, by omega⟩, ?_⟩
          rw [← htake k (by omega)]
          exact hloads
      · next hsome =>
          split
          · next hstop =>
              refine ⟨_, rfl, min (k + chunkSize) (db.byID w).length, ⟨by omega, ?_, k, hdvd, hcap, by omega⟩, ?_⟩
              · by_cases hfull : k + chunkSize ≤ (db.byID w).length
                · refine Or.inr ⟨by omega, ?_⟩
                  rw [Nat.min_eq_left hfull]
                  exact Nat.dvd_add hdvd (Nat.dvd_refl _)
                · exact Or.inl (by omega)
              · rw [← htake _ rfl]
                exact hloads
          · next hgo =>
              have hmin : min chunkSize ((db.byID w).length - k) = chunkSize := by omega
              have hnext := h.next hpos (by omega) relayPM
              rw [h.total] at hnext
              rw [hmin]
              rw [hmin] at hgo
              exact ih hnext (Nat.dvd_add hdvd (Nat.dvd_refl _)) (by omega) (by omega)

end Walk

/-- The cap's promise: at most `maxPackets` eligible transmissions, and none left out was
seen after one that was loaded. -/
structure KeepsNewest (db : LoadDB) (w : StartupWindow) (maxPackets : Nat) (s : Store) : Prop where
  atMost : s.packets.length ≤ maxPackets
  eligible : ∀ r ∈ s.packets, ∃ x ∈ db.eligible w, x.toTxRow = s.row r
  newest : ∀ r ∈ s.packets, ∀ x ∈ db.eligible w, x.toTxRow = s.row r →
    ∀ y ∈ db.eligible w, y.toTxRow ∉ s.packets.map s.row → ¬ db.SeenAfter y x

theorem keepsNewest_iff_of_loads {db : LoadDB} {w : StartupWindow} {maxPackets : Nat} {s : Store}
    {ts : List LoadRow} (hts : ∀ x ∈ ts, x ∈ db.eligible w) (hnd : ts.Nodup)
    (h : Loads s.catalog fun t => ∃ x ∈ ts, x.toTxRow = t) :
    KeepsNewest db w maxPackets s ↔
      ts.length ≤ maxPackets ∧ ∀ x ∈ ts, ∀ y ∈ db.eligible w, y ∉ ts → ¬ db.SeenAfter y x := by
  have hinj : ∀ x ∈ db.eligible w, ∀ y ∈ db.eligible w, x.toTxRow = y.toTxRow → x = y := fun x hx y hy heq =>
    db.eq_of_id (LoadDB.mem_transmissions hx) (LoadDB.mem_transmissions hy) (congrArg TxRow.id heq)
  have hmem : ∀ y ∈ db.eligible w, (y.toTxRow ∈ s.packets.map s.row ↔ y ∈ ts) := by
    intro y hy
    refine (h.mem y.toTxRow).trans ⟨fun ⟨x, hx, heq⟩ => ?_, fun hy' => ⟨y, hy', rfl⟩⟩
    exact hinj x (hts x hx) y hy heq ▸ hx
  have hlength : s.packets.length = ts.length := by
    have hperm : (s.packets.map s.row).Perm (ts.map (·.toTxRow)) := by
      apply (List.perm_ext_iff_of_nodup h.nodup ?_).mpr
      · intro t
        exact (h.mem t).trans List.mem_map.symm
      · exact hnd.map_on fun x hx y hy => hinj x (hts x hx) y (hts y hy)
    rw [← List.length_map s.row, hperm.length_eq, List.length_map]
  constructor
  · intro hk
    refine ⟨hlength ▸ hk.atMost, fun x hx y hy hout => ?_⟩
    obtain ⟨r, hr, heq⟩ := List.mem_map.mp ((hmem x (hts x hx)).mpr hx)
    exact hk.newest r hr x (hts x hx) heq.symm y hy fun hin => hout ((hmem y hy).mp hin)
  · intro ⟨hle, hnew⟩
    refine ⟨hlength.symm ▸ hle, fun r hr => ?_, fun r hr x hx heq y hy hout => ?_⟩
    · obtain ⟨x, hx, heq⟩ := (h.mem (s.row r)).mp (List.mem_map_of_mem hr)
      exact ⟨x, hts x hx, heq⟩
    · have hin : x ∈ ts := (hmem x hx).mp (heq ▸ List.mem_map_of_mem hr)
      exact hnew x hin y hy fun hy' => hout ((hmem y hy).mpr hy')

theorem keepsNewest_load (relayPM : Option PrefixMap) (use : Bool) (db : LoadDB) (w : StartupWindow)
    {maxMemoryMB : Int} (h : 0 < maxMemoryMB) (ranked : Ranked db) :
    KeepsNewest db w (maxPackets maxMemoryMB) (load relayPM use db w maxMemoryMB ranked) := by
  have hP := maxPackets_pos h
  have hmem : ∀ x, x ∈ selected db w (maxPackets maxMemoryMB) ranked ↔
      x ∈ db.eligible w ∧ x ∈ ranked.list.take (maxPackets maxMemoryMB) := by
    intro x
    rw [selected, List.mem_filter]
    refine and_congr_right fun hx => ?_
    rw [decide_eq_true_iff, List.contains_iff_mem, List.mem_map]
    constructor
    · rintro (hzero | ⟨y, hy, heq⟩)
      · omega
      · have hy' := ranked.perm.mem_iff.mp (List.mem_of_mem_take hy)
        exact db.eq_of_id hy' (LoadDB.mem_transmissions hx) heq ▸ hy
    · exact fun hx' => Or.inr ⟨x, hx', rfl⟩
  have hnd : (selected db w (maxPackets maxMemoryMB) ranked).Nodup :=
    ((List.Nodup.of_map _ db.ids).filter _).filter _
  have hrows : ∀ t, (∃ row ∈ loadRows db (selected db w (maxPackets maxMemoryMB) ranked), row.tx = t) ↔
      ∃ x ∈ selected db w (maxPackets maxMemoryMB) ranked, x.toTxRow = t := by
    intro t
    rw [← db.exists_row_iff]
    simp only [loadRows, (List.perm_insertionSort _ _).mem_iff]
  have hloads : Loads (load relayPM use db w maxMemoryMB ranked).catalog
      fun t => ∃ x ∈ selected db w (maxPackets maxMemoryMB) ranked, x.toTxRow = t := by
    have hrow : ∀ row ∈ loadRows db (selected db w (maxPackets maxMemoryMB) ranked), db.HasRow row.tx := by
      intro row hrow
      obtain ⟨x, hx, heq⟩ := (hrows row.tx).mp ⟨row, hrow, rfl⟩
      exact ⟨x, LoadDB.mem_transmissions ((hmem x).mp hx).1, heq⟩
    have hscan := (loads_new use).scanAndMergeChunk db.eq_of_hash hrow (fun _ hf => hf.elim) relayPM
    have hpicked := (catalog_pickAndIndexAll _).symm ▸ hscan
    have hall := hpicked.congr fun t => ⟨fun ht => (hrows t).mp (ht.resolve_left id), fun ht => Or.inr ((hrows t).mpr ht)⟩
    exact ⟨⟨hall.wf.fresh, hall.wf.nodup, hall.wf.hash, hall.wf.id, hall.wf.type⟩, hall.mem, hall.nodup, hall.found⟩
  apply (keepsNewest_iff_of_loads (fun x hx => ((hmem x).mp hx).1) hnd hloads).mpr
  constructor
  · have hids : ((selected db w (maxPackets maxMemoryMB) ranked).map (·.id)).Nodup :=
      (List.filter_sublist.map _).nodup LoadDB.ids_eligible
    have hsub : selected db w (maxPackets maxMemoryMB) ranked ⊆ ranked.list.take (maxPackets maxMemoryMB) :=
      fun x hx => ((hmem x).mp hx).2
    exact (hnd.length_le_of_subset hsub).trans (List.length_take_le _ _)
  · intro x hx y hy hout
    have hy' : y ∈ ranked.list.drop (maxPackets maxMemoryMB) := by
      have hall := ranked.perm.mem_iff.mpr (LoadDB.mem_transmissions hy)
      rw [← List.take_append_drop (maxPackets maxMemoryMB) ranked.list, List.mem_append] at hall
      exact hall.resolve_left fun hin => hout ((hmem y).mpr ⟨hy, hin⟩)
    have hpair := ranked.newestFirst
    rw [← List.take_append_drop (maxPackets maxMemoryMB) ranked.list, List.pairwise_append] at hpair
    exact hpair.2.2 x ((hmem x).mp hx).2 y hy'

theorem loads_loadChunked (env : Env) (relayPM : Option PrefixMap) (use : Bool) (db : LoadDB) (w : StartupWindow)
    {maxMemoryMB : Int} (h : 0 < maxMemoryMB) (chunkSize : Int) {fuel : Nat} (hfuel : (db.eligible w).length < fuel) :
    ∃ s, loadChunked env relayPM use db w maxMemoryMB chunkSize fuel = some s ∧
      ∃ k, Stopped (db.eligible w).length (maxPackets maxMemoryMB) (effectiveChunkSize chunkSize) k ∧
        Loads s.catalog fun t => ∃ x ∈ (db.byID w).take k, x.toTxRow = t := by
  have hpos : 0 < effectiveChunkSize chunkSize := by
    rw [effectiveChunkSize]
    split <;> omega
  rw [← LoadDB.length_byID] at hfuel ⊢
  obtain ⟨s, hs, k, hstopped, hloads⟩ := loadChunks_stops hpos relayPM (at_start use) (Nat.dvd_zero _)
    (maxPackets_pos h) (by omega : (db.byID w).length < 0 + fuel)
  refine ⟨s.finishLoad env w.hotCutoff, ?_, k, hstopped, ?_⟩
  · rw [loadChunked, hs]
    rfl
  · rw [catalog_finishLoad]
    exact hloads.sortPackets

theorem Stopped.promise_iff {db : LoadDB} {w : StartupWindow} {maxPackets chunkSize k : Nat} {s : Store}
    (h : Stopped (db.eligible w).length maxPackets chunkSize k)
    (hloads : Loads s.catalog fun t => ∃ x ∈ (db.byID w).take k, x.toTxRow = t) :
    KeepsNewest db w maxPackets s ↔ (db.eligible w).length ≤ maxPackets ∨
      chunkSize ∣ maxPackets ∧
        ∀ x ∈ (db.byID w).take maxPackets, ∀ y ∈ (db.byID w).drop maxPackets, ¬ db.SeenAfter y x := by
  have hlength : (db.byID w).length = (db.eligible w).length := LoadDB.length_byID
  have hnd : (db.byID w).Nodup := LoadDB.nodup_byID
  have hwithin := h.within
  have hlen : ((db.byID w).take k).length = k := by
    rw [List.length_take]
    omega
  have hout : ∀ y, y ∈ db.eligible w ∧ y ∉ (db.byID w).take k ↔ y ∈ (db.byID w).drop k := by
    intro y
    rw [← LoadDB.mem_byID]
    constructor
    · intro ⟨hy, hnot⟩
      rw [← List.take_append_drop k (db.byID w), List.mem_append] at hy
      exact hy.resolve_left hnot
    · intro hy
      exact ⟨List.mem_of_mem_drop hy, fun hy' => List.disjoint_take_drop hnd (Nat.le_refl k) hy' hy⟩
  rw [keepsNewest_iff_of_loads (fun x hx => LoadDB.mem_byID.mp (List.mem_of_mem_take hx)) (hnd.sublist (List.take_sublist k _))
    hloads, hlen]
  have hnewest : (∀ x ∈ (db.byID w).take k, ∀ y ∈ db.eligible w, y ∉ (db.byID w).take k → ¬ db.SeenAfter y x) ↔
      ∀ x ∈ (db.byID w).take k, ∀ y ∈ (db.byID w).drop k, ¬ db.SeenAfter y x :=
    forall₂_congr fun x hx => forall_congr' fun y => by rw [← hout y, and_imp]
  rw [hnewest]
  obtain ⟨m, hm, hlt, hlast⟩ := h.lastChunk
  constructor
  · intro ⟨hle, hnew⟩
    rcases h.done with hall | ⟨hcap, hdvd⟩
    · exact Or.inl (by omega)
    · have hk : k = maxPackets := by omega
      exact Or.inr (hk ▸ ⟨hdvd, hnew⟩)
  · rintro (hall | ⟨hdvd, hnew⟩)
    · have hk : k = (db.eligible w).length := by
        rcases h.done with hk | ⟨hk, _⟩ <;> omega
      refine ⟨by omega, fun x _ y hy => ?_⟩
      rw [hk, ← hlength, List.drop_length] at hy
      cases hy
    · have hle : k ≤ maxPackets := by
        have hstep : m + chunkSize ≤ maxPackets := by
          obtain ⟨a, rfl⟩ := hm
          obtain ⟨b, rfl⟩ := hdvd
          have hab : a + 1 ≤ b := Nat.lt_of_mul_lt_mul_left hlt
          calc chunkSize * a + chunkSize = chunkSize * (a + 1) := (Nat.mul_succ chunkSize a).symm
            _ ≤ chunkSize * b := Nat.mul_le_mul_left _ hab
        exact hlast.trans hstep
      refine ⟨hle, ?_⟩
      rcases h.done with hk | ⟨hk, _⟩
      · intro x _ y hy
        rw [hk, ← hlength, List.drop_length] at hy
        cases hy
      · have hk : k = maxPackets := by omega
        exact hk ▸ hnew

theorem keepsNewest_iff (env : Env) (relayPM : Option PrefixMap) (use : Bool) (db : LoadDB)
    (w : StartupWindow) {maxMemoryMB : Int} (h : 0 < maxMemoryMB) (chunkSize : Int) {fuel : Nat}
    (hfuel : (db.eligible w).length < fuel) (ranked : Ranked db) :
    ∃ s, loadChunked env relayPM use db w maxMemoryMB chunkSize fuel = some s ∧
      (KeepsNewest db w (maxPackets maxMemoryMB) s ∧
          KeepsNewest db w (maxPackets maxMemoryMB) (load relayPM use db w maxMemoryMB ranked) ↔
        (db.eligible w).length ≤ maxPackets maxMemoryMB ∨
          effectiveChunkSize chunkSize ∣ maxPackets maxMemoryMB ∧
            ∀ x ∈ (db.byID w).take (maxPackets maxMemoryMB), ∀ y ∈ (db.byID w).drop (maxPackets maxMemoryMB),
              ¬ db.SeenAfter y x) := by
  obtain ⟨s, hs, k, hstopped, hloads⟩ := loads_loadChunked env relayPM use db w h chunkSize hfuel
  refine ⟨s, hs, ?_⟩
  rw [and_iff_left (keepsNewest_load relayPM use db w h ranked)]
  exact hstopped.promise_iff hloads

def growingRow (i : Nat) : LoadRow :=
  { plainTx (i + 1) (String.ofList (List.replicate i 'a')) "2026-01-01T00:00:00Z" 4 with lastSeen := i }

def growing (n : Nat) : LoadDB where
  hasLastSeen := true
  transmissions := (List.range n).map growingRow
  observations := []
  ids := by
    rw [List.map_map, List.nodup_map_iff]
    · exact List.nodup_range
    · intro i j h
      have hij : (i : Int) + 1 = j + 1 := h
      omega
  hashes := by
    rw [List.map_map, List.nodup_map_iff]
    · exact List.nodup_range
    · intro i j h
      have hij : List.replicate i 'a' = List.replicate j 'a' := String.ofList_injective h
      simpa using congrArg List.length hij
  nonneg := by
    intro t ht
    obtain ⟨i, _, rfl⟩ := List.mem_map.mp ht
    change (0 : Int) ≤ i + 1
    omega

theorem eligible_growing (n : Nat) : (growing n).eligible .unlimited = (List.range n).map growingRow :=
  List.filter_eq_self.mpr fun _ _ => rfl

theorem byID_growing (n : Nat) : (growing n).byID .unlimited = (List.range n).map growingRow := by
  have hascending : ((List.range n).map growingRow).Pairwise fun a b => a.id < b.id := by
    rw [List.pairwise_map]
    refine List.pairwise_lt_range.imp fun {i j} hij => ?_
    change (i : Int) + 1 < j + 1
    omega
  apply eq_of_pairwise (fun t : LoadRow => t.id) _ LoadDB.ascending_byID hascending
  exact eligible_growing n ▸ sorted_perm

def rankedGrowing (n : Nat) : Ranked (growing n) where
  list := (growing n).transmissions.reverse
  perm := List.reverse_perm _
  newestFirst := by
    apply List.pairwise_reverse.mpr
    apply List.pairwise_map.mpr
    refine List.pairwise_lt_range.imp fun {i j} hij => ?_
    change ¬ ((j : Int) < i)
    omega

/-- Three transmissions fit under the cap. -/
theorem keepsNewest_iff_three : (0 : Int) < 1 ∧
    ((growing 3).eligible .unlimited).length < 4 ∧
      ∃ s, loadChunked (plainEnv none) none true (growing 3) .unlimited 1 0 4 = some s ∧
        (KeepsNewest (growing 3) .unlimited (maxPackets 1) s ∧
            KeepsNewest (growing 3) .unlimited (maxPackets 1) (load none true (growing 3) .unlimited 1 (rankedGrowing 3)) ↔
          ((growing 3).eligible .unlimited).length ≤ maxPackets 1 ∨
            effectiveChunkSize 0 ∣ maxPackets 1 ∧
              ∀ x ∈ ((growing 3).byID .unlimited).take (maxPackets 1),
                ∀ y ∈ ((growing 3).byID .unlimited).drop (maxPackets 1), ¬ (growing 3).SeenAfter y x) :=
  ⟨by decide, by decide, keepsNewest_iff _ none true _ _ (by decide) 0 (by decide) (rankedGrowing 3)⟩

/-- The newest transmission is the one that is left out. -/
theorem newest_left_out : ¬ ∀ (env : Env) (relayPM : Option PrefixMap) (use : Bool) (db : LoadDB)
    (w : StartupWindow) (maxMemoryMB : Int), 0 < maxMemoryMB → ∀ (chunkSize : Int) (fuel : Nat) (s : Store),
      loadChunked env relayPM use db w maxMemoryMB chunkSize fuel = some s →
        KeepsNewest db w (maxPackets maxMemoryMB) s := by
  intro hall
  have hP : maxPackets 1 = 1000 := by decide
  have helig : ((growing 1001).eligible .unlimited).length = 1001 := by
    rw [eligible_growing, List.length_map, List.length_range]
  obtain ⟨s, hs, k, hstopped, hloads⟩ := loads_loadChunked (plainEnv none) none true (growing 1001) .unlimited
    (by decide : (0 : Int) < 1) 1000 (by omega : _ < 1002)
  have hkeeps := (hstopped.promise_iff hloads).mp (hall _ none true _ _ 1 (by decide) 1000 1002 s hs)
  rw [helig, hP, byID_growing, ← List.map_take, ← List.map_drop] at hkeeps
  obtain ⟨_, hnew⟩ := hkeeps.resolve_left (by decide)
  have hfirst : growingRow 0 ∈ ((List.range 1001).take 1000).map growingRow := List.mem_map_of_mem (by simp)
  have hlast : growingRow 1000 ∈ ((List.range 1001).drop 1000).map growingRow := List.mem_map_of_mem (by simp [List.range_eq_range'])
  apply hnew _ hfirst _ hlast
  change (0 : Int) < (1000 : Nat)
  decide

end MeshcoreAnalyzer.PacketStore.CappedLoad

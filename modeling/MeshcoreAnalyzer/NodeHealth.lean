import MeshcoreAnalyzer.Readers
import MeshcoreAnalyzer.System
import Mathlib.Data.List.AList

namespace MeshcoreAnalyzer.PacketStore.Health

open Maps

/-! The health of the nodes, all at once and one by one: `GetBulkHealth` and `GetNodeHealth` of cmd/server/store.go. -/

/-- A row of `nodes`; a NULL text reads as the empty one. -/
structure NodeRecord where
  publicKey : String
  name : String
  role : String
  lat : Option Float
  lon : Option Float

structure ObserverStats where
  name : String
  snrSum : Float := 0
  rssiSum : Float := 0
  snrCount : Nat := 0
  rssiCount : Nat := 0
  count : Nat := 0

def addReading (sum : Float) : Option Float → Float
  | some v => sum + v
  | none => sum

def ObserverStats.add (o : ObserverStats) (pkt : StoreTx) : ObserverStats :=
  { o with
    count := o.count + 1
    snrSum := addReading o.snrSum pkt.snr
    snrCount := if pkt.snr.isSome then o.snrCount + 1 else o.snrCount
    rssiSum := addReading o.rssiSum pkt.rssi
    rssiCount := if pkt.rssi.isSome then o.rssiCount + 1 else o.rssiCount }

abbrev ObserverMap := AList fun _ : String => ObserverStats

def addObserver (stats : ObserverMap) (pkt : StoreTx) : ObserverMap :=
  if pkt.observerID = "" then stats
  else stats.insert pkt.observerID (((stats.lookup pkt.observerID).getD { name := pkt.observerName }).add pkt)

structure Tally where
  packetsToday : Nat := 0
  snrSum : Float := 0
  snrCount : Nat := 0
  lastHeard : String := ""
  observerStats : ObserverMap := ∅
  totalObservations : Int := 0

def Tally.visit (todayStart : String) (t : Tally) (pkt : StoreTx) : Tally where
  packetsToday := if todayStart < pkt.firstSeen then t.packetsToday + 1 else t.packetsToday
  snrSum := addReading t.snrSum pkt.snr
  snrCount := if pkt.snr.isSome then t.snrCount + 1 else t.snrCount
  lastHeard := if t.lastHeard = "" ∨ t.lastHeard < pkt.firstSeen then pkt.firstSeen else t.lastHeard
  observerStats := addObserver t.observerStats pkt
  totalObservations := t.totalObservations + pkt.observationCount

/-- The loop of `GetBulkHealth` puts a total of zero up to one. -/
def Tally.bulkVisit (todayStart : String) (t : Tally) (pkt : StoreTx) : Tally :=
  let t := t.visit todayStart pkt
  if t.totalObservations = 0 then { t with totalObservations := 1 } else t

/-- The loop of `GetNodeHealth` counts hops besides. -/
structure NodeTally extends Tally where
  totalHops : Nat := 0
  hopCount : Nat := 0

def NodeTally.nodeVisit (todayStart : String) (t : NodeTally) (pkt : StoreTx) : NodeTally :=
  let hops := pkt.txGetParsedPath
  { t.toTally.visit todayStart pkt with
    totalHops := t.totalHops + hops.length
    hopCount := if 0 < hops.length then t.hopCount + 1 else t.hopCount }

structure ObserverReport where
  observerID : String
  observerName : String
  avgSnr : Option Float
  avgRssi : Option Float
  packetCount : Nat

def average (sum : Float) (count : Nat) : Option Float := if 0 < count then some (sum / Float.ofNat count) else none

def ObserverStats.report (id : String) (o : ObserverStats) : ObserverReport where
  observerID := id
  observerName := o.name
  avgSnr := average o.snrSum o.snrCount
  avgRssi := average o.rssiSum o.rssiCount
  packetCount := o.count

/-- One way in which the range over the map and the sort, which is not stable, may arrange the rows. -/
structure RowOrder where
  arrange : List ObserverReport → List ObserverReport
  perm : ∀ rows, (arrange rows).Perm rows
  sorted : ∀ rows, (arrange rows).Pairwise fun a b => b.packetCount ≤ a.packetCount

def RowOrder.stable : RowOrder where
  arrange := List.insertionSort fun a b => b.packetCount ≤ a.packetCount
  perm := List.perm_insertionSort _
  sorted := by
    intro rows
    have : Std.Total fun a b : ObserverReport => b.packetCount ≤ a.packetCount := ⟨fun a b => Nat.le_total _ _⟩
    have : IsTrans ObserverReport fun a b => b.packetCount ≤ a.packetCount := ⟨fun _ _ _ h h' => Nat.le_trans h' h⟩
    exact List.pairwise_insertionSort _ _

def observerRows (rowOrder : RowOrder) (stats : ObserverMap) : List ObserverReport :=
  rowOrder.arrange (stats.entries.map fun e => e.2.report e.1)

structure Stats where
  totalTransmissions : Nat
  totalObservations : Int
  totalPackets : Nat
  packetsToday : Nat
  avgSnr : Option Float
  lastHeard : Option String

def Tally.stats (packets : List TxRef) (t : Tally) : Stats where
  totalTransmissions := packets.length
  totalObservations := t.totalObservations
  totalPackets := packets.length
  packetsToday := t.packetsToday
  avgSnr := average t.snrSum t.snrCount
  lastHeard := if t.lastHeard = "" then none else some t.lastHeard

structure BulkEntry where
  publicKey : String
  name : Option String
  role : Option String
  lat : Option Float
  lon : Option Float
  stats : Stats
  observers : List ObserverReport

structure NodeStats extends Stats where
  avgHops : Nat

structure NodeObserver extends ObserverReport where
  canRelay : Option Bool

structure NodeReport where
  node : NodeRecord
  observers : List NodeObserver
  stats : NodeStats
  recentPackets : List TxRef

def nilIfEmpty (s : String) : Option String := if s = "" then none else some s

/-- A request for the nodes of a region, an area, or all. -/
structure BulkRequest where
  limit : Nat
  regionObs : Option (List String)
  areaNodes : Option (List String)

/-- The observers that say whether they repeat, and those of them that do not, in lower case. -/
structure RelayBadges where
  seenSet : List String
  nonRelaySet : List String

def RelayBadges.canRelay (badges : RelayBadges) (id : String) : Option Bool :=
  if toLower id ∈ badges.seenSet then some (toLower id ∉ badges.nonRelaySet) else none

section

variable (s : Store) (todayStart : String) (rowOrder : RowOrder)

def packets (pubkey : String) : List TxRef := bucket s.nodes.byNode pubkey

def bulkTally (pubkey : String) : Tally := ((packets s pubkey).map s.heap).foldl (Tally.bulkVisit todayStart) {}

def bulkEntry (n : NodeRecord) : BulkEntry where
  publicKey := n.publicKey
  name := nilIfEmpty n.name
  role := nilIfEmpty n.role
  lat := n.lat
  lon := n.lon
  stats := (bulkTally s todayStart n.publicKey).stats (packets s n.publicKey)
  observers := observerRows rowOrder (bulkTally s todayStart n.publicKey).observerStats

def regionalHashes (regionObs : List String) : List String :=
  (regionObs.flatMap (bucket s.byObserver)).filterMap fun o => (s.byTxID o.transmissionID).map fun r => (s.row r).hash

def inRegion (regionObs : List String) (pubkey : String) : Bool :=
  ∃ h ∈ s.nodes.hashes pubkey, h ∈ regionalHashes s regionObs

/-- The nodes that are reported, of those that `ORDER BY last_seen DESC` gives in this order. -/
def bulkNodes (nodes : List NodeRecord) (req : BulkRequest) : List NodeRecord :=
  match req.regionObs, req.areaNodes with
  | none, none => nodes.take req.limit
  | some regionObs, none =>
      ((nodes.take 10000).filter fun n => inRegion s regionObs n.publicKey).take req.limit
  | regionObs, some areaNodes =>
      (nodes.take 10000).filter fun n => regionObs.all (inRegion s · n.publicKey) && n.publicKey ∈ areaNodes

def getBulkHealth (nodes : List NodeRecord) (req : BulkRequest) : List BulkEntry :=
  (bulkNodes s nodes req).map (bulkEntry s todayStart rowOrder)

def nodeTally (pubkey : String) : NodeTally := ((packets s pubkey).map s.heap).foldl (NodeTally.nodeVisit todayStart) {}

/-- `int(math.Round(…))` -/
def NodeTally.avgHops (t : NodeTally) : Nat :=
  if 0 < t.hopCount then (Float.ofNat t.totalHops / Float.ofNat t.hopCount).round.toUInt64.toNat else 0

def nodeReport (badges : RelayBadges) (node : NodeRecord) (pubkey : String) : NodeReport :=
  let t := nodeTally s todayStart pubkey
  { node
    observers := (observerRows rowOrder t.observerStats).map fun o =>
      { o with canRelay := badges.canRelay o.observerID }
    stats := { t.stats (packets s pubkey) with avgHops := t.avgHops }
    recentPackets := s.recentPackets pubkey }

/-- A node that is not in the table is reported as long as there are packets for it. -/
def getNodeHealth (nodes : List NodeRecord) (badges : RelayBadges) (pubkey : String) : Option NodeReport :=
  match nodes.find? fun n => n.publicKey = pubkey with
  | some node => some (nodeReport s todayStart rowOrder badges node pubkey)
  | none =>
      if packets s pubkey = [] then none
      else some (nodeReport s todayStart rowOrder badges ⟨pubkey, "Unknown", "unknown", none, none⟩ pubkey)

end

section

variable {todayStart : String}

/-- The total as `GetBulkHealth` runs it. -/
def bulkTotal (total : Int) (pkt : StoreTx) : Int :=
  if total + pkt.observationCount = 0 then 1 else total + pkt.observationCount

theorem observationCount_nonneg (tx : StoreTx) : 0 ≤ tx.observationCount := by
  rw [tx.counted]
  exact Int.natCast_nonneg _

theorem observationCount_eq_zero {tx : StoreTx} : tx.observationCount = 0 ↔ tx.observations = [] := by
  rw [tx.counted, Int.natCast_eq_zero, List.length_eq_zero_iff]

theorem bulkVisit_eq (t : Tally) (total : Int) (pkt : StoreTx) :
    Tally.bulkVisit todayStart { t with totalObservations := total } pkt =
      { t.visit todayStart pkt with totalObservations := bulkTotal total pkt } := by
  simp only [Tally.bulkVisit, Tally.visit, bulkTotal]
  split <;> rfl

theorem foldl_bulkVisit (pkts : List StoreTx) (t : Tally) (total : Int) :
    pkts.foldl (Tally.bulkVisit todayStart) { t with totalObservations := total } =
      { pkts.foldl (Tally.visit todayStart) t with totalObservations := pkts.foldl bulkTotal total } := by
  induction pkts generalizing t total with
  | nil => rfl
  | cons pkt pkts ih =>
      rw [List.foldl_cons, bulkVisit_eq, ih]
      rfl

theorem foldl_nodeVisit (pkts : List StoreTx) (t : NodeTally) :
    (pkts.foldl (NodeTally.nodeVisit todayStart) t).toTally = pkts.foldl (Tally.visit todayStart) t.toTally := by
  induction pkts generalizing t with
  | nil => rfl
  | cons pkt pkts ih => exact ih (t.nodeVisit todayStart pkt)

theorem totalObservations_foldl_visit (pkts : List StoreTx) (t : Tally) :
    (pkts.foldl (Tally.visit todayStart) t).totalObservations =
      t.totalObservations + (pkts.map fun pkt => pkt.observationCount).sum := by
  induction pkts generalizing t with
  | nil => simp
  | cons pkt pkts ih =>
      rw [List.foldl_cons, ih, List.map_cons, List.sum_cons, ← Int.add_assoc]
      rfl

theorem foldl_bulkTotal_of_pos (pkts : List StoreTx) {total : Int} (h : 0 < total) :
    pkts.foldl bulkTotal total = total + (pkts.map fun pkt => pkt.observationCount).sum := by
  induction pkts generalizing total with
  | nil => simp
  | cons pkt pkts ih =>
      have hcount := observationCount_nonneg pkt
      have hstep : bulkTotal total pkt = total + pkt.observationCount := if_neg (by omega)
      rw [List.foldl_cons, hstep, ih (by omega), List.map_cons, List.sum_cons, Int.add_assoc]

theorem foldl_bulkTotal_eq_iff (pkts : List StoreTx) :
    pkts.foldl bulkTotal 0 = (pkts.map fun pkt => pkt.observationCount).sum ↔
      ∀ pkt, pkts.head? = some pkt → pkt.observations ≠ [] := by
  cases pkts with
  | nil => simp
  | cons pkt pkts =>
      simp only [List.foldl_cons, List.map_cons, List.sum_cons, List.head?_cons, Option.some.injEq, forall_eq',
        ne_eq, ← observationCount_eq_zero]
      have hcount := observationCount_nonneg pkt
      by_cases hzero : pkt.observationCount = 0
      · have hstep : bulkTotal 0 pkt = 1 := if_pos (by omega)
        rw [hstep, foldl_bulkTotal_of_pos pkts Int.one_pos, hzero]
        simp
      · have hstep : bulkTotal 0 pkt = 0 + pkt.observationCount := if_neg (by omega)
        rw [hstep, foldl_bulkTotal_of_pos pkts (by omega), Int.zero_add]
        simp [hzero]

end

/-- The two say the same of a node, wherever both say something. -/
structure Agree (b : BulkEntry) (h : NodeReport) : Prop where
  stats : b.stats = h.stats.toStats
  observers : ∀ row, row ∈ b.observers ↔ row ∈ h.observers.map NodeObserver.toObserverReport

section

variable (s : Store) (todayStart : String)

theorem bulkTally_eq (pubkey : String) :
    bulkTally s todayStart pubkey = { (nodeTally s todayStart pubkey).toTally with
      totalObservations := ((packets s pubkey).map s.heap).foldl bulkTotal 0 } := by
  rw [nodeTally, foldl_nodeVisit]
  exact foldl_bulkVisit _ {} 0

theorem totalObservations_nodeTally (pubkey : String) :
    (nodeTally s todayStart pubkey).totalObservations =
      (((packets s pubkey).map s.heap).map fun pkt => pkt.observationCount).sum := by
  rw [nodeTally, foldl_nodeVisit, totalObservations_foldl_visit]
  exact Int.zero_add _

theorem mem_observerRows {rowOrder : RowOrder} {stats : ObserverMap} {row : ObserverReport} :
    row ∈ observerRows rowOrder stats ↔ ∃ e ∈ stats.entries, e.2.report e.1 = row := by
  rw [observerRows, (rowOrder.perm _).mem_iff, List.mem_map]

/-- The first transmission that is filed under the key has an observation. -/
def HeardFirst (pubkey : String) : Prop :=
  ∀ r, (packets s pubkey).head? = some r → (s.heap r).observations ≠ []

theorem agree_iff (bulkOrder nodeOrder : RowOrder) (badges : RelayBadges) (n node : NodeRecord) :
    Agree (bulkEntry s todayStart bulkOrder n) (nodeReport s todayStart nodeOrder badges node n.publicKey) ↔
      HeardFirst s n.publicKey := by
  have htotals := foldl_bulkTotal_eq_iff ((packets s n.publicKey).map s.heap)
  rw [← totalObservations_nodeTally s todayStart] at htotals
  have hfirst : HeardFirst s n.publicKey ↔
      ∀ pkt, ((packets s n.publicKey).map s.heap).head? = some pkt → pkt.observations ≠ [] := by
    simp [HeardFirst]
  rw [hfirst, ← htotals]
  constructor
  · intro h
    have := congrArg Stats.totalObservations h.stats
    rw [bulkEntry, bulkTally_eq] at this
    exact this
  · intro h
    constructor
    · simp only [bulkEntry, nodeReport, bulkTally_eq, h]
    · intro row
      simp only [bulkEntry, nodeReport, bulkTally_eq, List.map_map, Function.comp_def, List.map_id', mem_observerRows]

theorem mem_bulkNodes {nodes : List NodeRecord} {req : BulkRequest} {n : NodeRecord}
    (h : n ∈ bulkNodes s nodes req) : n ∈ nodes := by
  unfold bulkNodes at h
  split at h
  · exact List.mem_of_mem_take h
  · exact List.mem_of_mem_take (List.mem_filter.mp (List.mem_of_mem_take h)).1
  · exact List.mem_of_mem_take (List.mem_filter.mp h).1

/-- Whatever nodes the one reports, the other reports too, and they agree on a node if and only if the first transmission
filed under its key has an observation. -/
theorem healthAgrees_iff (bulkOrder nodeOrder : RowOrder) (badges : RelayBadges) (nodes : List NodeRecord)
    (req : BulkRequest) {e : BulkEntry} (he : e ∈ getBulkHealth s todayStart bulkOrder nodes req) :
    ∃ h, getNodeHealth s todayStart nodeOrder nodes badges e.publicKey = some h ∧
      (Agree e h ↔ HeardFirst s e.publicKey) := by
  obtain ⟨n, hn, rfl⟩ := List.mem_map.mp he
  have hsome : (nodes.find? fun node => node.publicKey = n.publicKey).isSome :=
    List.find?_isSome.mpr ⟨n, mem_bulkNodes s hn, by simp⟩
  obtain ⟨node, hnode⟩ := Option.isSome_iff_exists.mp hsome
  refine ⟨nodeReport s todayStart nodeOrder badges node n.publicKey, ?_, ?_⟩
  · have hpk : (bulkEntry s todayStart bulkOrder n).publicKey = n.publicKey := rfl
    rw [hpk, getNodeHealth, hnode]
  · exact agree_iff s todayStart bulkOrder nodeOrder badges n node

end

def advertRow : TxRow := { plainTx 1 "h1" "2026-01-01T00:00:00Z" 4 with decodedJSON := "\x7b\"pubKey\":\"aa\"\x7d" }

def polled (row : ScanRow) : Store := (Store.new true).run [.ingestNewFromDB (plainEnv none) 0 100 [row]]

def nodeAA : NodeRecord := ⟨"aa", "A", "repeater", none, none⟩

def everyNode : BulkRequest := ⟨50, none, none⟩

theorem healthAgrees_iff_heard :
    ∃ h, getNodeHealth (polled (heardRow advertRow 1 "obs1" "[]")) "" .stable [nodeAA] ⟨[], []⟩ "aa" = some h ∧
      Agree (bulkEntry (polled (heardRow advertRow 1 "obs1" "[]")) "" .stable nodeAA) h := by
  obtain ⟨h, hh, hiff⟩ := healthAgrees_iff (polled (heardRow advertRow 1 "obs1" "[]")) "" .stable .stable ⟨[], []⟩
    [nodeAA] everyNode (List.mem_map_of_mem List.mem_cons_self)
  refine ⟨h, hh, hiff.mpr ?_⟩
  have hhead : (packets (polled (heardRow advertRow 1 "obs1" "[]")) "aa").head? = some 0 := by decide +kernel
  have hlen : ((polled (heardRow advertRow 1 "obs1" "[]")).heap 0).observations.length = 1 := by decide +kernel
  intro r hr
  rw [← Option.some.inj (hhead.symm.trans hr), ← List.length_pos_iff, hlen]
  exact Nat.one_pos

theorem unheard_counted_once :
    ¬ ∀ (s : Store) (todayStart : String) (bulkOrder nodeOrder : RowOrder) (badges : RelayBadges)
        (nodes : List NodeRecord) (req : BulkRequest), ∀ e ∈ getBulkHealth s todayStart bulkOrder nodes req,
        ∀ h, getNodeHealth s todayStart nodeOrder nodes badges e.publicKey = some h → Agree e h := by
  intro h
  have hagree := h (polled (bareRow advertRow)) "" .stable .stable ⟨[], []⟩ [nodeAA] everyNode
    (bulkEntry (polled (bareRow advertRow)) "" .stable nodeAA) (List.mem_map_of_mem List.mem_cons_self)
    (nodeReport (polled (bareRow advertRow)) "" .stable ⟨[], []⟩ nodeAA "aa") rfl
  have htotal := congrArg Stats.totalObservations hagree.stats
  revert htotal
  decide +kernel

end MeshcoreAnalyzer.PacketStore.Health

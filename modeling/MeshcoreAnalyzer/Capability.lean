import MeshcoreAnalyzer.HashSizes
import MeshcoreAnalyzer.Layers
import MeshcoreAnalyzer.PacketQueries
import Mathlib.Data.Finset.Lattice.Fold
import Mathlib.Order.Lattice.Nat

namespace MeshcoreAnalyzer.PacketStore.Capability

open Maps Layers HashSizes

/-! The multi-byte capability of the nodes, `computeAnalyticsHashSizesWithCapability` and
`computeMultiByteCapability` of cmd/server/store.go. -/

/-- A row of `nodes`, as far as it is read here. -/
structure CapNode where
  publicKey : String
  name : String
  role : String

/-- What the store finds around it: the rows of `nodes`, their roles and times, what is known of the sizes of path
hashes, the observers of a region and the nodes of an area, where those are known, and the home regions of nodes. -/
structure Around where
  nodes : List CapNode
  nodeRoleByPK : String → String
  dbLastSeen : GoMap String String
  hashInfo : GoMap String HashSizeNodeInfo
  resolveRegionObservers : String → Option (List String)
  resolveAreaNodes : String → Option (List String)
  nodeHomeRegion : GoMap String String
  toUpper : String → String

namespace Around

variable (a : Around) (s : Store)

def iataMatchesRegion (iata regionParam : String) : Bool :=
  if iata = "" ∨ regionParam = "" then false
  else
    let got := trimSpace (a.toUpper iata)
    got ≠ "" && has (normalizeRegionCodes a.toUpper regionParam) got

def regionObs (region : String) : Option (List String) :=
  if region = "" then none else a.resolveRegionObservers region

def areaNodes (area : String) : Option (List String) := if area = "" then none else a.resolveAreaNodes area

/-- An observer of the region has heard the packet, or it is an advert of a node that is at home there. -/
def matchesRegion (region : String) (tx : StoreTx) : Bool :=
  (a.regionObs region).all fun observers =>
    (tx.observations.any fun obs => has observers obs.observerID) ||
      tx.advertPubkey.any fun pk => (a.nodeHomeRegion pk).any fun home => a.iataMatchesRegion home region

def matchesArea (area : String) (tx : StoreTx) : Bool :=
  (a.areaNodes area).all fun nodes => tx.advertPubkey.all (has nodes)

def visitMatching (region area : String) (byNode : GoMap String NodeEntry) (tx : StoreTx) : GoMap String NodeEntry :=
  if a.matchesRegion region tx && a.matchesArea area tx then visitPacket a.nodeRoleByPK byNode tx.toTxRow else byNode

/-- The entries of `byNode`, by the public key. -/
def byNodeIn (region area : String) : GoMap String NodeEntry :=
  (s.packets.map s.heap).foldl (a.visitMatching region area) Maps.empty

/-- `multiByteNodes`, by the field `pubkey`. -/
def multiByteNodes (region area : String) : GoMap String NodeEntry := fun pk =>
  if region ≠ "" ∧ (a.nodeHomeRegion pk).any (fun home => !a.iataMatchesRegion home region) then none
  else (a.byNodeIn s region area pk).filter fun e => 1 < e.hashSize

inductive Status
  | confirmed
  | suspected
  | unknown
  deriving DecidableEq

def Status.order : Status → Nat
  | .confirmed => 0
  | .suspected => 1
  | .unknown => 2

structure MultiByteCapEntry where
  publicKey : String
  name : String
  role : String
  status : Status
  evidence : String
  maxHashSize : Nat
  lastSeen : String
  deriving DecidableEq

def nodeByPK : GoMap String CapNode := write Maps.empty (a.nodes.map fun n => (n.publicKey, n))

def maxSize (info : HashSizeNodeInfo) : Nat := max 1 (info.allSizes.sup id)

def confirmed (pk : String) : Option Nat := ((a.hashInfo pk).map maxSize).filter (2 ≤ ·)

def multiByteSize (tx : TxRow) : Option Nat :=
  if tx.payloadType = some 8 then none
  else (readPathByte tx.rawHex).bind fun p => if p.hashSize < 2 then none else some p.hashSize

def sizeThrough (hop : String) : Option Nat := ((bucket s.byPathHop hop).map s.row).findSome? multiByteSize

def nodePrefixes (pk : String) : List String :=
  [1, 2, 3].filterMap fun byteLen =>
    if byteLen * 2 ≤ (toLower pk).length then some (String.ofList ((toLower pk).toList.take (byteLen * 2))) else none

def suspected (pk : String) : Option Nat := ((nodePrefixes pk).filterMap (sizeThrough s)).max?

def capEntry (adopterHashSizes : GoMap String Nat) (pk : String) (n : CapNode) : MultiByteCapEntry :=
  let entry : Status × String × Nat :=
    match a.confirmed pk with
    | some maxHS => (.confirmed, "advert", maxHS)
    | none =>
        match (adopterHashSizes pk).filter (2 ≤ ·) with
        | some maxHS => (.confirmed, "advert", maxHS)
        | none =>
            match suspected s pk with
            | some maxHS => (.suspected, "path", maxHS)
            | none => (.unknown, "", 1)
  { publicKey := pk
    name := n.name
    role := n.role
    status := entry.1
    evidence := entry.2.1
    maxHashSize := if entry.2.2 = 1 then ((a.hashInfo pk).map maxSize).getD 1 else entry.2.2
    lastSeen := (a.dbLastSeen pk).getD "" }

def entryBefore (e e' : MultiByteCapEntry) : Bool :=
  e.status.order < e'.status.order || (e.status = e'.status && toLower e.name ≤ toLower e'.name)

def computeMultiByteCapability (adopterHashSizes : GoMap String Nat) : List MultiByteCapEntry :=
  (((a.nodes.map CapNode.publicKey).dedup.filterMap fun pk =>
    (a.nodeByPK pk).map (a.capEntry s adopterHashSizes pk))).insertionSort fun e e' => entryBefore e e'

def globalAdopterHS (region area : String) : GoMap String Nat :=
  let mbNodes := if region = "" then a.multiByteNodes s region area else a.multiByteNodes s "" ""
  fun pk => if pk = "" then none else ((mbNodes pk).map NodeEntry.hashSize).filter (2 ≤ ·)

def mbEntries (region area : String) : List MultiByteCapEntry :=
  a.computeMultiByteCapability s (a.globalAdopterHS s region area)

def mbCapIndex (region area : String) : GoMap String MultiByteCapEntry :=
  write Maps.empty ((a.mbEntries s region area).map fun e => (e.publicKey, e))

/-- What `publishMultibyteCapSnapshot` hands over. -/
def published (region area : String) : List (String × Status × String) :=
  (a.mbEntries s region area).map fun e => (e.publicKey, e.status, e.evidence)

/-- Every node that is known for its last advert alone lies in the area, where the call is for an area alone. -/
def Covered (region area : String) : Prop :=
  region = "" → ∀ nodes, a.areaNodes area = some nodes → ∀ pk ∈ a.nodes.map CapNode.publicKey,
    a.confirmed pk = none → (∃ n, lastDeclared s pk = some n ∧ 2 ≤ n) → pk ∈ nodes

variable {s}

section Scan

variable {nodeRoleByPK : String → String} {m m' : GoMap String NodeEntry} {tx : TxRow} {pk : String}

theorem visitPacket_of_ne (h : tx.advertPubkey ≠ some pk) : visitPacket nodeRoleByPK m tx pk = m pk := by
  rw [visitPacket]
  cases readPathByte tx.rawHex with
  | none => rfl
  | some p =>
      by_cases hsize : 3 < p.hashSize
      · simp [hsize]
      cases hkey : tx.advertPubkey with
      | none => simp [hsize]
      | some pk' =>
          have hne : pk ≠ pk' := by
            rintro rfl
            exact h hkey
          simp [hsize, set_apply, hne]

theorem visitPacket_congr (h : m pk = m' pk) :
    visitPacket nodeRoleByPK m tx pk = visitPacket nodeRoleByPK m' tx pk := by
  by_cases hkey : tx.advertPubkey = some pk
  · rw [visitPacket, visitPacket]
    cases readPathByte tx.rawHex with
    | none => exact h
    | some p =>
        by_cases hsize : 3 < p.hashSize
        · simpa [hsize] using h
        · simp [hsize, hkey, set_apply, h]
  · rw [visitPacket_of_ne hkey, visitPacket_of_ne hkey, h]

end Scan

theorem matchesRegion_nil (tx : StoreTx) : a.matchesRegion "" tx = true := rfl

theorem byNodeIn_apply (area pk : String) :
    a.byNodeIn s "" area pk =
      if (a.areaNodes area).all (fun nodes => has nodes pk) then byNode a.nodeRoleByPK s pk else none := by
  have hrows : s.packets.map s.row = (s.packets.map s.heap).map StoreTx.toTxRow := by
    rw [List.map_map]
    rfl
  rw [byNodeIn, byNode, hrows]
  generalize s.packets.map s.heap = txs
  induction txs using List.reverseRecOn with
  | nil => exact (ite_self none).symm
  | append_singleton txs tx ih =>
      rw [List.map_append, List.foldl_append, List.foldl_append]
      generalize txs.foldl (a.visitMatching "" area) Maps.empty = m at ih ⊢
      generalize (txs.map StoreTx.toTxRow).foldl (visitPacket a.nodeRoleByPK) Maps.empty = m' at ih ⊢
      change a.visitMatching "" area m tx pk =
        if (a.areaNodes area).all (fun nodes => has nodes pk) then visitPacket a.nodeRoleByPK m' tx.toTxRow pk else none
      rw [visitMatching, matchesRegion_nil, Bool.true_and]
      by_cases hkey : tx.advertPubkey = some pk
      · have harea : a.matchesArea area tx = (a.areaNodes area).all fun nodes => has nodes pk := by
          rw [matchesArea, hkey]
          rfl
        rw [harea]
        split
        · next hall =>
            rw [if_pos hall] at ih
            exact visitPacket_congr ih
        · next hall =>
            rw [if_neg hall] at ih
            exact ih
      · have hsame :
            (if a.matchesArea area tx = true then visitPacket a.nodeRoleByPK m tx.toTxRow else m) pk = m pk := by
          split
          · exact visitPacket_of_ne hkey
          · rfl
        rw [hsame, ih, visitPacket_of_ne hkey]

theorem lastDeclared_nil : lastDeclared s "" = none := by
  have hnil : (s.packets.map s.row).filterMap (declaredSize "") = [] := by
    apply List.filterMap_eq_nil_iff.mpr
    intro tx _
    have hkey : tx.advertPubkey ≠ some "" := by
      intro h
      rw [TxRow.advertPubkey] at h
      split at h
      · cases h
      cases hd : tx.parsedDecoded with
      | none => simp [hd] at h
      | some d => simp [hd] at h
    rw [declaredSize]
    split
    · rfl
    · simp [hkey]
  rw [lastDeclared, hnil]
  rfl

theorem globalAdopterHS_apply (area pk : String) :
    a.globalAdopterHS s "" area pk =
      if (a.areaNodes area).all (fun nodes => has nodes pk) then (lastDeclared s pk).filter (2 ≤ ·) else none := by
  have hnodes : (a.multiByteNodes s "" area pk).map NodeEntry.hashSize =
      if (a.areaNodes area).all (fun nodes => has nodes pk) then (lastDeclared s pk).filter (2 ≤ ·) else none := by
    rw [multiByteNodes, if_neg (fun h => h.1 rfl), byNodeIn_apply]
    split
    · cases he : byNode a.nodeRoleByPK s pk with
      | none =>
          cases hlast : lastDeclared s pk with
          | none => rfl
          | some n =>
              obtain ⟨e, he'⟩ := exists_byNode a.nodeRoleByPK hlast
              rw [he] at he'
              cases he'
      | some e =>
          have hsize := byNode_hashSize he
          cases hlast : lastDeclared s pk with
          | none => simp [hsize, hlast]
          | some n =>
              rw [hlast, Option.getD_some] at hsize
              subst hsize
              by_cases hlt : 1 < e.hashSize <;> simp [Option.filter_some, hlt, Nat.succ_le_iff]
    · rfl
  rw [globalAdopterHS, if_pos rfl]
  dsimp only
  rw [hnodes]
  by_cases hpk : pk = ""
  · subst hpk
    simp [lastDeclared_nil]
  · rw [if_neg hpk]
    split
    · rw [Option.filter_filter]
      simp
    · rfl

theorem globalAdopterHS_of_ne {region : String} (h : region ≠ "") (area : String) :
    a.globalAdopterHS s region area = a.globalAdopterHS s "" "" := by
  rw [globalAdopterHS, globalAdopterHS, if_neg h, if_pos rfl]

theorem globalAdopterHS_all (pk : String) : a.globalAdopterHS s "" "" pk = (lastDeclared s pk).filter (2 ≤ ·) := by
  rw [globalAdopterHS_apply]
  rfl

section Entries

variable {a} {adopters adopters' : GoMap String Nat} {pk : String} {n : CapNode}

theorem capEntry_congr (h : a.confirmed pk = none → (adopters pk).filter (2 ≤ ·) = (adopters' pk).filter (2 ≤ ·)) :
    a.capEntry s adopters pk n = a.capEntry s adopters' pk n := by
  rw [capEntry, capEntry]
  cases hconf : a.confirmed pk with
  | some maxHS => rfl
  | none => rw [h hconf]

theorem capEntry_status_iff (h : a.confirmed pk = none) :
    (a.capEntry s adopters pk n).status = .confirmed ↔ ∃ m, adopters pk = some m ∧ 2 ≤ m := by
  rw [capEntry, h]
  cases hm : (adopters pk).filter (2 ≤ ·) with
  | some m => simpa using ⟨m, Option.filter_eq_some_iff.mp hm |>.imp id of_decide_eq_true⟩
  | none =>
      have hnot : ¬ ∃ m, adopters pk = some m ∧ 2 ≤ m := by
        rintro ⟨m, hpk, hle⟩
        rw [hpk] at hm
        simp [Option.filter_some, hle] at hm
      cases suspected s pk <;> simpa using hnot

theorem nodeByPK_isSome_iff : (a.nodeByPK pk).isSome ↔ pk ∈ a.nodes.map CapNode.publicKey := by
  rw [Option.isSome_iff_exists]
  constructor
  · rintro ⟨n, hn⟩
    rcases mem_of_write hn with hmem | hempty
    · obtain ⟨n', hn', heq⟩ := List.mem_map.mp hmem
      cases heq
      exact List.mem_map_of_mem hn'
    · cases hempty
  · intro h
    obtain ⟨n, hn, rfl⟩ := List.mem_map.mp h
    apply Option.ne_none_iff_exists'.mp
    exact write_of_mem (List.mem_map.mpr ⟨n, hn, rfl⟩)

theorem mem_computeMultiByteCapability {e : MultiByteCapEntry} :
    e ∈ a.computeMultiByteCapability s adopters ↔
      ∃ n, a.nodeByPK e.publicKey = some n ∧ a.capEntry s adopters e.publicKey n = e := by
  rw [computeMultiByteCapability, List.mem_insertionSort, List.mem_filterMap]
  constructor
  · rintro ⟨pk, -, he⟩
    obtain ⟨n, hn, rfl⟩ := Option.map_eq_some_iff.mp he
    exact ⟨n, hn, rfl⟩
  · rintro ⟨n, hn, he⟩
    refine ⟨e.publicKey, ?_, Option.map_eq_some_iff.mpr ⟨n, hn, he⟩⟩
    rw [List.mem_dedup, ← nodeByPK_isSome_iff, hn]
    rfl

theorem capEntry_mem (hn : a.nodeByPK pk = some n) :
    a.capEntry s adopters pk n ∈ a.computeMultiByteCapability s adopters :=
  mem_computeMultiByteCapability.mpr ⟨n, hn, rfl⟩

theorem write_computeMultiByteCapability (pk : String) :
    write Maps.empty ((a.computeMultiByteCapability s adopters).map fun e => (e.publicKey, e)) pk =
      (a.nodeByPK pk).map (a.capEntry s adopters pk) := by
  ext e
  rw [Option.map_eq_some_iff]
  have hmem : ∀ e, (pk, e) ∈ (a.computeMultiByteCapability s adopters).map (fun e => (e.publicKey, e)) ↔
      ∃ n, a.nodeByPK pk = some n ∧ a.capEntry s adopters pk n = e := by
    intro e
    rw [List.mem_map]
    constructor
    · rintro ⟨e', he', heq⟩
      cases heq
      exact mem_computeMultiByteCapability.mp he'
    · rintro ⟨n, hn, rfl⟩
      exact ⟨_, capEntry_mem hn, rfl⟩
  constructor
  · intro h
    rcases mem_of_write h with hpair | hempty
    · exact (hmem e).mp hpair
    · cases hempty
  · intro h
    obtain ⟨e', he'⟩ := Option.ne_none_iff_exists'.mp (write_of_mem (m := Maps.empty) ((hmem e).mpr h))
    rcases mem_of_write he' with hpair | hempty
    · obtain ⟨n, hn, rfl⟩ := h
      obtain ⟨n', hn', rfl⟩ := (hmem e').mp hpair
      rw [hn] at hn'
      cases hn'
      exact he'
    · cases hempty

end Entries

theorem covered_iff (region area : String) :
    a.Covered s region area ↔ ∀ pk ∈ a.nodes.map CapNode.publicKey, a.confirmed pk = none →
      (a.globalAdopterHS s region area pk).filter (2 ≤ ·) = (a.globalAdopterHS s "" "" pk).filter (2 ≤ ·) := by
  by_cases hregion : region = ""
  · subst hregion
    have hadopters : ∀ pk, (a.globalAdopterHS s "" area pk).filter (2 ≤ ·) =
          (a.globalAdopterHS s "" "" pk).filter (2 ≤ ·) ↔
        ∀ nodes, a.areaNodes area = some nodes → (∃ n, lastDeclared s pk = some n ∧ 2 ≤ n) → pk ∈ nodes := by
      intro pk
      rw [globalAdopterHS_apply, globalAdopterHS_all]
      cases a.areaNodes area with
      | none => simp
      | some nodes =>
          cases lastDeclared s pk with
          | none => simp
          | some n => by_cases hn : 2 ≤ n <;> by_cases hpk : pk ∈ nodes <;> simp [Option.filter_some, has, hn, hpk]
    constructor
    · intro h pk hpk hconf
      exact (hadopters pk).mpr fun nodes hnodes => h rfl nodes hnodes pk hpk hconf
    · intro h _ nodes hnodes pk hpk hconf
      exact (hadopters pk).mp (h pk hpk hconf) nodes hnodes
  · constructor
    · intro _ pk _ _
      rw [globalAdopterHS_of_ne a hregion]
    · exact fun _ h => absurd h hregion

section Calls

variable {region area : String}

theorem capEntry_of_covered (h : a.Covered s region area) {pk : String} {n : CapNode} (hn : a.nodeByPK pk = some n) :
    a.capEntry s (a.globalAdopterHS s region area) pk n = a.capEntry s (a.globalAdopterHS s "" "") pk n := by
  apply capEntry_congr
  apply (covered_iff a region area).mp h
  apply nodeByPK_isSome_iff.mp
  rw [hn]
  rfl

theorem covered_of_status (h : ∀ pk n, a.nodeByPK pk = some n →
    (a.capEntry s (a.globalAdopterHS s region area) pk n).status =
      (a.capEntry s (a.globalAdopterHS s "" "") pk n).status) :
    a.Covered s region area := by
  rintro rfl nodes hnodes pk hpk hconf ⟨m, hlast, hle⟩
  obtain ⟨n, hn⟩ := Option.isSome_iff_exists.mp (nodeByPK_isSome_iff.mpr hpk)
  have hall : (a.capEntry s (a.globalAdopterHS s "" "") pk n).status = .confirmed := by
    apply (capEntry_status_iff hconf).mpr
    exact ⟨m, by simp [globalAdopterHS_all, hlast, Option.filter_some, hle], hle⟩
  rw [← h pk n hn] at hall
  obtain ⟨m', hadopter, -⟩ := (capEntry_status_iff hconf).mp hall
  rw [globalAdopterHS_apply, hnodes] at hadopter
  split at hadopter
  · next hin => exact has_iff.mp hin
  · cases hadopter

theorem mem_published {pk : String} {status : Status} {evidence : String} :
    (pk, status, evidence) ∈ a.published s region area ↔ ∃ n, a.nodeByPK pk = some n ∧
      (a.capEntry s (a.globalAdopterHS s region area) pk n).status = status ∧
      (a.capEntry s (a.globalAdopterHS s region area) pk n).evidence = evidence := by
  rw [published, List.mem_map]
  constructor
  · rintro ⟨e, he, heq⟩
    obtain ⟨n, hn, hentry⟩ := mem_computeMultiByteCapability.mp he
    cases heq
    exact ⟨n, hn, congrArg _ hentry, congrArg _ hentry⟩
  · rintro ⟨n, hn, rfl, rfl⟩
    exact ⟨_, capEntry_mem hn, rfl⟩

end Calls

theorem mbEntries_independent_iff (s : Store) (region area : String) :
    ((∀ e, e ∈ a.mbEntries s region area ↔ e ∈ a.mbEntries s "" "") ↔ a.Covered s region area) ∧
      (a.mbCapIndex s region area = a.mbCapIndex s "" "" ↔ a.Covered s region area) ∧
      ((∀ e, e ∈ a.published s region area ↔ e ∈ a.published s "" "") ↔ a.Covered s region area) := by
  refine ⟨⟨fun h => ?_, fun h e => ?_⟩, ⟨fun h => ?_, fun h => ?_⟩, ⟨fun h => ?_, fun h e => ?_⟩⟩
  · apply covered_of_status
    intro pk n hn
    have hmem := (h _).mp (capEntry_mem hn)
    obtain ⟨n', hn', heq⟩ := mem_computeMultiByteCapability.mp hmem
    cases hn.symm.trans hn'
    exact congrArg MultiByteCapEntry.status heq.symm
  · rw [mbEntries, mbEntries, mem_computeMultiByteCapability, mem_computeMultiByteCapability]
    apply exists_congr
    intro n
    apply and_congr_right
    intro hn
    rw [capEntry_of_covered a h hn]
  · apply covered_of_status
    intro pk n hn
    have hpk := congrFun h pk
    rw [mbCapIndex, mbCapIndex, mbEntries, mbEntries, write_computeMultiByteCapability,
      write_computeMultiByteCapability, hn] at hpk
    exact congrArg MultiByteCapEntry.status (Option.some.inj hpk)
  · funext pk
    rw [mbCapIndex, mbCapIndex, mbEntries, mbEntries, write_computeMultiByteCapability,
      write_computeMultiByteCapability]
    cases hn : a.nodeByPK pk with
    | none => rfl
    | some n => exact congrArg some (capEntry_of_covered a h hn)
  · apply covered_of_status
    intro pk n hn
    obtain ⟨n', hn', hstatus, -⟩ := (mem_published a).mp ((h _).mp ((mem_published a).mpr ⟨n, hn, rfl, rfl⟩))
    cases hn.symm.trans hn'
    exact hstatus.symm
  · obtain ⟨pk, status, evidence⟩ := e
    rw [mem_published, mem_published]
    apply exists_congr
    intro n
    apply and_congr_right
    intro hn
    rw [capEntry_of_covered a h hn]

end Around

def declared : State := (State.new true).step (.ingestNewFromDB (plainEnv none) 0 100 [bareRow twoBytes])

def monthLater : Around where
  nodes := [⟨"aa", "A", "repeater"⟩, ⟨"bb", "B", "repeater"⟩]
  nodeRoleByPK _ := "repeater"
  dbLastSeen := Maps.empty
  hashInfo := computeNodeHashSizeInfo "2026-02-02T00:00:00.000Z" declared.store
  resolveRegionObservers _ := none
  resolveAreaNodes _ := some ["bb"]
  nodeHomeRegion := Maps.empty
  toUpper := id

theorem reachable_declared : Reachable true declared := .step (.start rfl) trivial

theorem hashInfo_monthLater : monthLater.hashInfo "aa" = none := by
  have hadverts : adverts declared.store = [twoBytes] := rfl
  have hkept : kept "2026-02-02T00:00:00.000Z" declared.store "aa" = [] := by
    rw [kept, hadverts]
    decide +kernel
  exact (computeNodeHashSizeInfo_eq _ _ _).trans (if_pos hkept)

theorem mbEntries_depend : ¬ ∀ (use : Bool) (st : State), Reachable use st → ∀ (a : Around) (region area : String) e,
    e ∈ a.mbEntries st.store region area ↔ e ∈ a.mbEntries st.store "" "" := by
  intro h
  have hconf : monthLater.confirmed "aa" = none := by
    rw [Around.confirmed, hashInfo_monthLater]
    rfl
  have hlast : lastDeclared declared.store "aa" = some 2 := by decide +kernel
  have hn : monthLater.nodeByPK "aa" = some ⟨"aa", "A", "repeater"⟩ := rfl
  have hall : (monthLater.capEntry declared.store (monthLater.globalAdopterHS declared.store "" "") "aa"
      ⟨"aa", "A", "repeater"⟩).status = .confirmed := by
    apply (Around.capEntry_status_iff hconf).mpr
    exact ⟨2, by rw [Around.globalAdopterHS_all, hlast]; rfl, le_rfl⟩
  have hmem := (h true declared reachable_declared monthLater "" "downtown" _).mpr (Around.capEntry_mem hn)
  obtain ⟨n, hn', heq⟩ := Around.mem_computeMultiByteCapability.mp hmem
  cases hn.symm.trans hn'
  rw [← heq] at hall
  obtain ⟨m, hadopter, -⟩ := (Around.capEntry_status_iff hconf).mp hall
  rw [Around.globalAdopterHS_apply, if_neg (by decide)] at hadopter
  cases hadopter

end MeshcoreAnalyzer.PacketStore.Capability

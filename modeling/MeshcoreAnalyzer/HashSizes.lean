import MeshcoreAnalyzer.GoBytes
import MeshcoreAnalyzer.Orders
import MeshcoreAnalyzer.System
import Mathlib.Data.List.Dedup

namespace MeshcoreAnalyzer.PacketStore.HashSizes

open Maps Orders Json Timestamps

/-! The size of a node's path hashes, read off its adverts twice: `computeAnalyticsHashSizes`
and `computeNodeHashSizeInfo` of cmd/server/store.go. -/

/-- `strconv.ParseUint(s, 16, 8)` of two bytes. -/
def parseByte : List UInt8 → Option Nat
  | [a, b] => do
      let high ← GoBytes.hexVal a
      let low ← GoBytes.hexVal b
      return 16 * high + low
  | _ => none

structure PathByte where
  routeType : Nat
  byte : Nat
deriving DecidableEq

namespace PathByte

def hashSize (p : PathByte) : Nat := p.byte / 64 % 4 + 1

def undeclared (p : PathByte) : Bool := (p.routeType = 2 ∨ p.routeType = 3) ∧ p.byte = 0

end PathByte

def readPathByte (rawHex : String) : Option PathByte :=
  let raw := rawHex.toUTF8.toList
  if raw.length < 4 then none
  else do
    let header ← parseByte (raw.take 2)
    let routeType := header % 4
    let pathByteIdx := if routeType = 0 ∨ routeType = 3 then 5 else 1
    if raw.length < pathByteIdx * 2 + 2 then none
    else do
      let byte ← parseByte ((raw.drop (pathByteIdx * 2)).take 2)
      return ⟨routeType, byte⟩

def namedKey (tx : TxRow) : Option String :=
  match tx.parsedDecoded with
  | none => none
  | some d =>
      let pk := match stringField d "pubKey" with
        | some v => v
        | none => (stringField d "public_key").getD ""
      if pk = "" then none else some pk

/-- An entry of `byNode`. -/
structure NodeEntry where
  hashSize : Nat
  packets : Nat
  lastSeen : String
  name : String
  role : String

def advertName (tx : TxRow) (pk : String) : String :=
  let name := (stringField (tx.parsedDecoded.getD []) "name").getD ""
  if name ≠ "" then name
  else if 8 ≤ pk.utf8ByteSize then String.ofList (pk.toList.take 8) else pk

def visitPacket (nodeRoleByPK : String → String) (byNode : GoMap String NodeEntry) (tx : TxRow) :
    GoMap String NodeEntry :=
  match readPathByte tx.rawHex with
  | none => byNode
  | some p =>
      if 3 < p.hashSize then byNode
      else match tx.advertPubkey with
        | none => byNode
        | some pk =>
            let e := (byNode pk).getD
              { hashSize := if p.undeclared then 0 else p.hashSize
                packets := 0
                lastSeen := tx.firstSeen
                name := advertName tx pk
                role := nodeRoleByPK pk }
            set byNode pk
              { e with
                packets := e.packets + 1
                hashSize := if p.undeclared then e.hashSize else p.hashSize
                lastSeen := tx.firstSeen }

def byNode (nodeRoleByPK : String → String) (s : Store) : GoMap String NodeEntry :=
  (s.packets.map s.row).foldl (visitPacket nodeRoleByPK) Maps.empty

structure HsEntry where
  ts : Int
  size : Nat
deriving DecidableEq

def advertEntry (cutoff : String) (tx : TxRow) : Option (String × HsEntry) :=
  if tx.firstSeen ≠ "" ∧ tx.firstSeen < cutoff then none
  else match readPathByte tx.rawHex with
    | none => none
    | some p =>
        if p.undeclared then none
        else (namedKey tx).map fun pk => (pk, ⟨(parseRFC3339 tx.firstSeen).getD zeroTime, p.hashSize⟩)

def addEntry (cutoff : String) (m : GoMap String (List HsEntry)) (tx : TxRow) : GoMap String (List HsEntry) :=
  match advertEntry cutoff tx with
  | some (pk, e) => push m pk e
  | none => m

def adverts (s : Store) : List TxRow := (bucket s.byPayloadType payloadADVERT).map s.row

def entries (cutoff : String) (s : Store) : GoMap String (List HsEntry) :=
  (adverts s).foldl (addEntry cutoff) Maps.empty

structure HashSizeNodeInfo where
  hashSize : Nat
  allSizes : Finset Nat
  seq : List Nat
  inconsistent : Bool
deriving DecidableEq

def transitions (seq : List Nat) : Nat := (seq.zip seq.tail).countP fun p => p.1 ≠ p.2

def recentAdvertsAgree (seq : List Nat) (n : Nat) : Bool :=
  n ≤ seq.length && (seq.drop (seq.length - n)).all fun size => some size = seq.getLast?

def flipFlop (seq : List Nat) : Bool :=
  3 ≤ seq.length && 2 ≤ seq.dedup.length && 2 ≤ transitions seq && !recentAdvertsAgree seq 3

def chronological (es : List HsEntry) : List Nat :=
  (es.insertionSort fun a b => a.ts ≤ b.ts).map HsEntry.size

def nodeInfo (es : List HsEntry) : HashSizeNodeInfo where
  hashSize := (chronological es).getLast?.getD 0
  allSizes := (chronological es).toFinset
  seq := chronological es
  inconsistent := flipFlop (chronological es)

def computeNodeHashSizeInfo (cutoff : String) (s : Store) : GoMap String HashSizeNodeInfo := fun pk =>
  (entries cutoff s pk).map nodeInfo

def declaredSize (pk : String) (tx : TxRow) : Option Nat :=
  match readPathByte tx.rawHex with
  | none => none
  | some p => if p.hashSize ≤ 3 ∧ p.undeclared = false ∧ tx.advertPubkey = some pk then some p.hashSize else none

def lastDeclared (s : Store) (pk : String) : Option Nat :=
  ((s.packets.map s.row).filterMap (declaredSize pk)).getLast?

/-- The declarations of a node in the adverts that do not sort before the cutoff. -/
def kept (cutoff : String) (s : Store) (pk : String) : List HsEntry :=
  (adverts s).filterMap fun tx => (advertEntry cutoff tx).bind fun p => if p.1 = pk then some p.2 else none

def leftOut (cutoff : String) (s : Store) (pk : String) : List HsEntry :=
  ((adverts s).filter fun tx => tx.firstSeen ≠ "" ∧ tx.firstSeen < cutoff).filterMap fun tx =>
    (advertEntry "" tx).bind fun p => if p.1 = pk then some p.2 else none

/-- The two computations agree on a node: the sizes are the same, or unknown to both, and the
flag is that of all the sizes its adverts declare, in the order of time. -/
structure Agree (nodeRoleByPK : String → String) (cutoff : String) (s : Store) (pk : String) : Prop where
  size : ∀ ni, computeNodeHashSizeInfo cutoff s pk = some ni →
    ∃ e, byNode nodeRoleByPK s pk = some e ∧ e.hashSize = ni.hashSize
  unknown : computeNodeHashSizeInfo cutoff s pk = none → ∀ e, byNode nodeRoleByPK s pk = some e → e.hashSize = 0
  flag : ∀ ni, computeNodeHashSizeInfo cutoff s pk = some ni →
    ni.inconsistent = flipFlop (chronological (kept "" s pk))

/-- The last packet that declares a size is of the size that was first seen last, among the
adverts that do not sort before the cutoff; and what is left out, if anything, would not change the flag. -/
structure InStep (cutoff : String) (s : Store) (pk : String) : Prop where
  none : lastDeclared s pk = none → kept cutoff s pk = []
  newest : ∀ n, lastDeclared s pk = some n →
    ∃ e ∈ kept cutoff s pk, e.size = n ∧ ∀ e' ∈ kept cutoff s pk, e'.size ≠ n → e'.ts < e.ts
  flag : leftOut cutoff s pk ≠ [] → kept cutoff s pk ≠ [] →
    flipFlop (chronological (kept cutoff s pk)) = flipFlop (chronological (kept "" s pk))

section Lists

variable (nodeRoleByPK : String → String) {pk : String}

theorem visitPacket_declared (m : GoMap String NodeEntry) {tx : TxRow} {n : Nat} (h : declaredSize pk tx = some n) :
    ∃ e, visitPacket nodeRoleByPK m tx pk = some e ∧ e.hashSize = n := by
  unfold declaredSize at h
  rw [visitPacket]
  cases hp : readPathByte tx.rawHex with
  | none => simp [hp] at h
  | some p =>
      simp only [hp] at h
      split at h
      · next hdecl =>
          obtain ⟨hle, hdeclared, hkey⟩ := hdecl
          simp only [Nat.not_lt.mpr hle, if_false, hkey, set_apply, if_true, hdeclared]
          exact ⟨_, rfl, Option.some.inj h⟩
      · cases h

theorem visitPacket_undeclared (m : GoMap String NodeEntry) {tx : TxRow} (h : declaredSize pk tx = none) :
    (∀ e, visitPacket nodeRoleByPK m tx pk = some e → e.hashSize = ((m pk).map NodeEntry.hashSize).getD 0) ∧
      ((m pk).isSome → (visitPacket nodeRoleByPK m tx pk).isSome) := by
  have hsame : (∀ e, m pk = some e → e.hashSize = ((m pk).map NodeEntry.hashSize).getD 0) ∧
      ((m pk).isSome → (m pk).isSome) := ⟨fun e he => by simp [he], id⟩
  unfold declaredSize at h
  rw [visitPacket]
  cases hp : readPathByte tx.rawHex with
  | none => exact hsame
  | some p =>
      simp only [hp] at h
      dsimp only
      by_cases hle : 3 < p.hashSize
      · rw [if_pos hle]
        exact hsame
      rw [if_neg hle]
      cases hkey : tx.advertPubkey with
      | none => exact hsame
      | some pk' =>
          dsimp only
          rw [set_apply]
          by_cases hpk : pk = pk'
          · subst hpk
            have hundeclared : p.undeclared = true := by
              by_contra hdecl
              simp [Nat.not_lt.mp hle, hkey, hdecl] at h
            rw [if_pos rfl, hundeclared]
            refine ⟨fun e he => ?_, fun _ => rfl⟩
            cases he
            cases hm : m pk <;> rfl
          · rw [if_neg hpk]
            exact hsame

theorem foldl_visitPacket (l : List TxRow) :
    (∀ e, l.foldl (visitPacket nodeRoleByPK) Maps.empty pk = some e →
        e.hashSize = (l.filterMap (declaredSize pk)).getLast?.getD 0) ∧
      (l.filterMap (declaredSize pk) ≠ [] → (l.foldl (visitPacket nodeRoleByPK) Maps.empty pk).isSome) := by
  induction l using List.reverseRecOn with
  | nil => exact ⟨fun _ h => (by cases h), fun h => absurd rfl h⟩
  | append_singleton l tx ih =>
      obtain ⟨hsize, hsome⟩ := ih
      rw [List.foldl_append, List.foldl_cons, List.foldl_nil, List.filterMap_append]
      generalize l.foldl (visitPacket nodeRoleByPK) Maps.empty = m at hsize hsome ⊢
      cases hdecl : declaredSize pk tx with
      | some n =>
          obtain ⟨e, he, hn⟩ := visitPacket_declared nodeRoleByPK m hdecl
          rw [he]
          refine ⟨fun e' h' => ?_, fun _ => rfl⟩
          cases h'
          simp [hdecl, hn]
      | none =>
          obtain ⟨hold, hkeep⟩ := visitPacket_undeclared nodeRoleByPK m hdecl
          have htail : [tx].filterMap (declaredSize pk) = [] := by simp [hdecl]
          rw [htail, List.append_nil]
          refine ⟨fun e he => ?_, fun hne => hkeep (hsome hne)⟩
          rw [hold e he]
          cases hm : m pk with
          | some e' => exact hsize e' hm
          | none =>
              have hnil : l.filterMap (declaredSize pk) = [] := by
                by_contra hne
                have := hsome hne
                rw [hm] at this
                cases this
              rw [hnil]
              rfl

theorem getLast?_chronological_iff {es : List HsEntry} (hts : (es.map HsEntry.ts).Nodup) (n : Nat) :
    (chronological es).getLast? = some n ↔
      ∃ e ∈ es, e.size = n ∧ ∀ e' ∈ es, e'.size ≠ n → e'.ts < e.ts := by
  have hperm := List.perm_insertionSort (fun a b : HsEntry => a.ts ≤ b.ts) es
  have hsorted := ascending_insertionSort HsEntry.ts es
  rw [chronological]
  generalize es.insertionSort (fun a b => a.ts ≤ b.ts) = sorted at hperm hsorted ⊢
  rw [List.getLast?_map]
  rcases List.eq_nil_or_concat sorted with hnil | ⟨init, last, hconcat⟩
  · rw [hnil] at hperm ⊢
    have hes : es = [] := hperm.symm.eq_nil
    simp [hes]
  · rw [List.concat_eq_append] at hconcat
    rw [hconcat, List.getLast?_concat, Option.map_some, Option.some_inj]
    rw [hconcat, ascending_snoc] at hsorted
    have hlast : last ∈ es := hperm.mem_iff.mp (hconcat ▸ by simp)
    have hle : ∀ e' ∈ es, e' = last ∨ e'.ts ≤ last.ts := by
      intro e' he'
      have hmem := hperm.mem_iff.mpr he'
      rw [hconcat, List.mem_append, List.mem_singleton] at hmem
      exact hmem.symm.imp id (hsorted.2 e')
    constructor
    · intro hn
      refine ⟨last, hlast, hn, fun e' he' hne => ?_⟩
      rcases hle e' he' with rfl | hle
      · exact absurd hn hne
      · refine lt_of_le_of_ne hle fun heq => hne ?_
        rw [List.inj_on_of_nodup_map hts he' hlast heq]
        exact hn
    · rintro ⟨e, he, hn, hlater⟩
      by_contra hne
      have hlt := hlater last hlast hne
      rcases hle e he with rfl | hle
      · exact hne hn
      · exact absurd hle (not_le.mpr hlt)

end Lists

section Node

variable {nodeRoleByPK : String → String} {cutoff : String} {s : Store} {pk : String}

theorem foldl_addEntry (pk : String) (l : List TxRow) {m : GoMap String (List HsEntry)} (hm : NoEmpty m) :
    NoEmpty (l.foldl (addEntry cutoff) m) ∧ bucket (l.foldl (addEntry cutoff) m) pk =
      bucket m pk ++ l.filterMap fun tx => (advertEntry cutoff tx).bind fun p => if p.1 = pk then some p.2 else none := by
  induction l generalizing m with
  | nil => exact ⟨hm, (List.append_nil _).symm⟩
  | cons tx l ih =>
      rw [List.foldl_cons, addEntry]
      cases hentry : advertEntry cutoff tx with
      | none =>
          rw [List.filterMap_cons_none (by rw [hentry, Option.bind_none])]
          exact ih hm
      | some p =>
          obtain ⟨pk', e⟩ := p
          obtain ⟨hne, hbucket⟩ := ih (hm.push pk' e)
          refine ⟨hne, hbucket.trans ?_⟩
          rw [bucket_push]
          by_cases hpk : pk = pk'
          · subst hpk
            rw [if_pos rfl, List.filterMap_cons_some (b := e) (by simp [hentry]), List.append_assoc]
            rfl
          · rw [if_neg hpk, List.filterMap_cons_none (by simp [hentry, Ne.symm hpk])]

theorem bucket_entries (cutoff : String) (s : Store) (pk : String) : bucket (entries cutoff s) pk = kept cutoff s pk :=
  (foldl_addEntry pk _ noEmpty_empty).2

theorem size_pos_of_kept {e : HsEntry} (he : e ∈ kept cutoff s pk) : 0 < e.size := by
  obtain ⟨tx, _, htx⟩ := List.mem_filterMap.mp he
  obtain ⟨p, hentry, hp⟩ := Option.bind_eq_some_iff.mp htx
  unfold advertEntry at hentry
  split at hentry
  · cases hentry
  · split at hentry
    · cases hentry
    · split at hentry
      · cases hentry
      · obtain ⟨_, _, rfl⟩ := Option.map_eq_some_iff.mp hentry
        split at hp
        · cases hp
          exact Nat.succ_pos _
        · cases hp

theorem computeNodeHashSizeInfo_eq (cutoff : String) (s : Store) (pk : String) :
    computeNodeHashSizeInfo cutoff s pk = if kept cutoff s pk = [] then none else some (nodeInfo (kept cutoff s pk)) := by
  have hne : NoEmpty (entries cutoff s) := (foldl_addEntry pk _ noEmpty_empty).1
  rw [← bucket_entries]
  rw [computeNodeHashSizeInfo, bucket]
  cases hes : entries cutoff s pk with
  | none => rfl
  | some es =>
      have hes' : es ≠ [] := fun hnil => hne pk (hnil ▸ hes)
      simp [hes']

theorem advertEntry_empty {tx : TxRow} (h : ¬ (tx.firstSeen ≠ "" ∧ tx.firstSeen < cutoff)) :
    advertEntry cutoff tx = advertEntry "" tx := by
  have hempty : ¬ (tx.firstSeen ≠ "" ∧ tx.firstSeen < "") :=
    fun hlt => List.not_lt_nil _ (String.lt_iff_toList_lt.mp hlt.2)
  rw [advertEntry, advertEntry, if_neg h, if_neg hempty]

theorem kept_of_leftOut (h : leftOut cutoff s pk = []) : kept cutoff s pk = kept "" s pk := by
  rw [leftOut, List.filterMap_filter, List.filterMap_eq_nil_iff] at h
  apply List.filterMap_congr
  intro tx htx
  by_cases hcut : tx.firstSeen ≠ "" ∧ tx.firstSeen < cutoff
  · have hnone := h tx htx
    rw [if_pos (decide_eq_true hcut)] at hnone
    rw [hnone, advertEntry, if_pos hcut, Option.bind_none]
  · rw [advertEntry_empty hcut]

theorem pos_of_lastDeclared {n : Nat} (h : lastDeclared s pk = some n) : 0 < n := by
  obtain ⟨tx, _, htx⟩ := List.mem_filterMap.mp (List.mem_of_getLast? h)
  unfold declaredSize at htx
  split at htx
  · cases htx
  · split at htx
    · cases htx
      exact Nat.succ_pos _
    · cases htx

theorem byNode_hashSize {e : NodeEntry} (he : byNode nodeRoleByPK s pk = some e) :
    e.hashSize = (lastDeclared s pk).getD 0 := (foldl_visitPacket nodeRoleByPK (s.packets.map s.row)).1 e he

theorem exists_byNode (nodeRoleByPK : String → String) {n : Nat} (h : lastDeclared s pk = some n) :
    ∃ e, byNode nodeRoleByPK s pk = some e := by
  apply Option.isSome_iff_exists.mp
  apply (foldl_visitPacket nodeRoleByPK (s.packets.map s.row)).2
  intro hnil
  rw [lastDeclared, hnil] at h
  cases h

theorem exists_getLast?_chronological (hts : ((kept cutoff s pk).map HsEntry.ts).Nodup) (hne : kept cutoff s pk ≠ []) :
    ∃ n, (chronological (kept cutoff s pk)).getLast? = some n ∧ 0 < n := by
  have hlen : (chronological (kept cutoff s pk)).length = (kept cutoff s pk).length := by
    rw [chronological, List.length_map, List.length_insertionSort]
  have hne' : chronological (kept cutoff s pk) ≠ [] := by
    intro hnil
    rw [hnil] at hlen
    exact hne (List.length_eq_zero_iff.mp hlen.symm)
  obtain ⟨n, hn⟩ := Option.isSome_iff_exists.mp (List.getLast?_isSome.mpr hne')
  obtain ⟨e, he, rfl, _⟩ := (getLast?_chronological_iff hts n).mp hn
  exact ⟨e.size, hn, size_pos_of_kept he⟩

theorem Agree.inStep (hts : ((kept cutoff s pk).map HsEntry.ts).Nodup) (h : Agree nodeRoleByPK cutoff s pk) :
    InStep cutoff s pk := by
  have hinfo := computeNodeHashSizeInfo_eq cutoff s pk
  refine ⟨fun hnone => ?_, fun n hn => ?_, fun _ hne => ?_⟩
  · by_contra hne
    rw [if_neg hne] at hinfo
    obtain ⟨n, hn, hpos⟩ := exists_getLast?_chronological hts hne
    obtain ⟨e, he, hsize⟩ := h.size _ hinfo
    rw [byNode_hashSize he, hnone, nodeInfo, hn] at hsize
    exact absurd hsize.symm (Nat.ne_of_gt hpos)
  · obtain ⟨e, he⟩ := exists_byNode nodeRoleByPK hn
    have hsize : e.hashSize = n := by rw [byNode_hashSize he, hn, Option.getD_some]
    have hne : kept cutoff s pk ≠ [] := by
      intro hnil
      rw [if_pos hnil] at hinfo
      have hzero := h.unknown hinfo e he
      exact absurd (hsize.symm.trans hzero) (Nat.ne_of_gt (pos_of_lastDeclared hn))
    rw [if_neg hne] at hinfo
    obtain ⟨e', he', hsize'⟩ := h.size _ hinfo
    obtain ⟨n', hn', _⟩ := exists_getLast?_chronological hts hne
    rw [he] at he'
    cases he'
    rw [hsize, nodeInfo, hn'] at hsize'
    exact (getLast?_chronological_iff hts n).mp (hsize' ▸ hn')
  · rw [if_neg hne] at hinfo
    exact h.flag _ hinfo

theorem InStep.agree (hts : ((kept cutoff s pk).map HsEntry.ts).Nodup) (h : InStep cutoff s pk) :
    Agree nodeRoleByPK cutoff s pk := by
  have hinfo := computeNodeHashSizeInfo_eq cutoff s pk
  by_cases hne : kept cutoff s pk = []
  · rw [if_pos hne] at hinfo
    refine ⟨fun ni hni => ?_, fun _ e he => ?_, fun ni hni => ?_⟩
    · rw [hinfo] at hni
      cases hni
    · rw [byNode_hashSize he]
      cases hn : lastDeclared s pk with
      | none => rfl
      | some n =>
          obtain ⟨e', he', _⟩ := h.newest n hn
          rw [hne] at he'
          cases he'
    · rw [hinfo] at hni
      cases hni
  · rw [if_neg hne] at hinfo
    refine ⟨fun ni hni => ?_, fun hnone => ?_, fun ni hni => ?_⟩
    · rw [hinfo] at hni
      cases hni
      cases hn : lastDeclared s pk with
      | none => exact absurd (h.none hn) hne
      | some n =>
          obtain ⟨e, he⟩ := exists_byNode nodeRoleByPK hn
          refine ⟨e, he, ?_⟩
          rw [byNode_hashSize he, hn, nodeInfo, (getLast?_chronological_iff hts n).mpr (h.newest n hn)]
    · rw [hinfo] at hnone
      cases hnone
    · rw [hinfo] at hni
      cases hni
      by_cases hleft : leftOut cutoff s pk = []
      · rw [kept_of_leftOut hleft]
        rfl
      · exact h.flag hleft hne

theorem agree_iff (hts : ((kept cutoff s pk).map HsEntry.ts).Nodup) :
    Agree nodeRoleByPK cutoff s pk ↔ InStep cutoff s pk :=
  ⟨fun h => h.inStep hts, fun h => h.agree hts⟩

end Node

theorem hashSizes_agree_iff (nodeRoleByPK : String → String) (cutoff : String) (s : Store)
    (hts : ∀ pk, ((kept cutoff s pk).map HsEntry.ts).Nodup) :
    (∀ pk, Agree nodeRoleByPK cutoff s pk) ↔ ∀ pk, InStep cutoff s pk :=
  forall_congr' fun pk => agree_iff (hts pk)

/-- All adverts are of the time since the cutoff, first seen one at a time, and of no reserved size. -/
structure Fresh (cutoff : String) (s : Store) : Prop where
  recent : ∃ oldest, parseRFC3339 cutoff = some oldest ∧
    ∀ tx ∈ adverts s, ∃ ts, parseRFC3339 tx.firstSeen = some ts ∧ oldest ≤ ts
  distinct : ((adverts s).map fun tx => parseRFC3339 tx.firstSeen).Nodup
  size : ∀ tx ∈ adverts s, ∀ p, readPathByte tx.rawHex = some p → p.hashSize ≤ 3

def advertOf (id : Int) (hash firstSeen rawHex : String) : TxRow :=
  { plainTx id hash firstSeen 4 with rawHex := rawHex, decodedJSON := "\x7b\"pubKey\":\"aa\"\x7d" }

def twoBytes : TxRow := advertOf 1 "h1" "2026-01-02T00:00:00Z" "1140"

def oneByte : TxRow := advertOf 2 "h2" "2026-01-01T12:00:00Z" "1100"

/-- The node went from one byte to two; the older advert is stored last. -/
def late : State := (State.new true).step (.ingestNewFromDB (plainEnv none) 0 100 [bareRow twoBytes, bareRow oneByte])

theorem reachable_late : Reachable true late := .step (.start rfl) trivial

theorem adverts_late : adverts late.store = [twoBytes, oneByte] := rfl

theorem fresh_late : Fresh "2025-12-27T00:00:00.000Z" late.store := by
  have htwo : parseRFC3339 twoBytes.firstSeen = some 1767312000000000000 := by decide
  have hone : parseRFC3339 oneByte.firstSeen = some 1767268800000000000 := by decide +kernel
  constructor
  · refine ⟨1766793600000000000, by decide, ?_⟩
    rw [adverts_late, List.forall_mem_cons, List.forall_mem_singleton]
    exact ⟨⟨_, htwo, by decide⟩, ⟨_, hone, by decide⟩⟩
  · rw [adverts_late, List.map_cons, List.map_singleton, htwo, hone]
    decide
  · rw [adverts_late, List.forall_mem_cons, List.forall_mem_singleton]
    constructor
    · have hbyte : readPathByte twoBytes.rawHex = some ⟨1, 64⟩ := by decide +kernel
      intro p hp
      cases hbyte.symm.trans hp
      decide
    · have hbyte : readPathByte oneByte.rawHex = some ⟨1, 0⟩ := by decide +kernel
      intro p hp
      cases hbyte.symm.trans hp
      decide

theorem kept_late (pk : String) : kept "2025-12-27T00:00:00.000Z" late.store pk =
    if "aa" = pk then [⟨1767312000000000000, 2⟩, ⟨1767268800000000000, 1⟩] else [] := by
  have htwo : advertEntry "2025-12-27T00:00:00.000Z" twoBytes = some ("aa", ⟨1767312000000000000, 2⟩) := by
    decide +kernel
  have hone : advertEntry "2025-12-27T00:00:00.000Z" oneByte = some ("aa", ⟨1767268800000000000, 1⟩) := by
    decide +kernel
  by_cases hpk : "aa" = pk <;> simp [kept, adverts_late, htwo, hone, hpk]

theorem hashSizes_agree_iff_late :
    (∀ pk, ((kept "2025-12-27T00:00:00.000Z" late.store pk).map HsEntry.ts).Nodup) ∧
      ((∀ pk, Agree (fun _ => "") "2025-12-27T00:00:00.000Z" late.store pk) ↔
        ∀ pk, InStep "2025-12-27T00:00:00.000Z" late.store pk) := by
  have hts : ∀ pk, ((kept "2025-12-27T00:00:00.000Z" late.store pk).map HsEntry.ts).Nodup := by
    intro pk
    rw [kept_late]
    by_cases hpk : "aa" = pk <;> simp [hpk]
  exact ⟨hts, hashSizes_agree_iff (fun _ => "") "2025-12-27T00:00:00.000Z" late.store hts⟩

theorem late_advert_differs : ¬ ∀ (use : Bool) (st : State), Reachable use st →
    ∀ (nodeRoleByPK : String → String) (cutoff : String), Fresh cutoff st.store →
      ∀ pk, Agree nodeRoleByPK cutoff st.store pk := by
  intro h
  have hagree := h true late reachable_late (fun _ => "") "2025-12-27T00:00:00.000Z" fresh_late "aa"
  have hnewest : (computeNodeHashSizeInfo "2025-12-27T00:00:00.000Z" late.store "aa").map HashSizeNodeInfo.hashSize =
      some 2 := by
    rw [computeNodeHashSizeInfo_eq, kept_late]
    decide
  obtain ⟨ni, hni, hsize⟩ := Option.map_eq_some_iff.mp hnewest
  obtain ⟨e, he, heq⟩ := hagree.size ni hni
  rw [byNode_hashSize he, hsize] at heq
  exact absurd heq (by decide +kernel)

end MeshcoreAnalyzer.PacketStore.HashSizes

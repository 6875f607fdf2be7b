import MeshcoreAnalyzer.TransmissionInserts
import MeshcoreAnalyzer.Calendar
import Mathlib.Data.List.Nodup
import Mathlib.Data.List.Perm.Basic
import Mathlib.Order.Bounds.Basic

namespace MeshcoreAnalyzer.Ingest

open Timestamps Calendar Upserts

variable {env : Env} {data p q : PacketData} {db : DB}

/-- The time of reception is the text of a second, in UTC. -/
def Canonical (data : PacketData) : Prop := ∃ e, data.timestamp = stamp e ∧ firstStamp ≤ e ∧ e ≤ lastStamp

def secondOf (data : PacketData) : Int := epochSeconds data.timestamp 0

theorem Canonical.epochSeconds_eq (h : Canonical data) (now : Int) : epochSeconds data.timestamp now = secondOf data := by
  obtain ⟨e, hstamp, hlow, hhigh⟩ := h
  rw [secondOf, epochSeconds, epochSeconds, hstamp, parseRFC3339_stamp hlow hhigh]
  rfl

theorem Canonical.timestamp_eq (h : Canonical data) :
    data.timestamp = stamp (secondOf data) ∧ firstStamp ≤ secondOf data ∧ secondOf data ≤ lastStamp := by
  obtain ⟨e, hstamp, hlow, hhigh⟩ := h
  have hsecond : secondOf data = e := by
    rw [secondOf, epochSeconds, hstamp, parseRFC3339_stamp hlow hhigh]
    exact Int.mul_ediv_cancel _ (by decide)
  rw [hsecond]
  exact ⟨hstamp, hlow, hhigh⟩

theorem Canonical.timestamp_ne_empty (h : Canonical data) : data.timestamp ≠ "" := by
  intro hempty
  obtain ⟨e, hstamp, hlow, hhigh⟩ := h
  have hparse := parseRFC3339_stamp hlow hhigh
  rw [← hstamp, hempty] at hparse
  cases hparse

theorem touchObserver_rowidOf (ingestNow : String) (rowid : Int) (observerID : String) :
    (db.touchObserver ingestNow rowid).rowidOf observerID = db.rowidOf observerID := by
  rw [DB.rowidOf, DB.rowidOf, DB.touchObserver]
  split
  · rfl
  · apply find?_update
    · intro o
      rfl
    · intro o
      rfl

theorem resolveObserver_eq (env : Env) (observerID : String) (db : DB) :
    (db.resolveObserver env observerID).1 = db.rowidOf observerID ∧
      (db.resolveObserver env observerID).2.transmissions = db.transmissions ∧
      (db.resolveObserver env observerID).2.observations = db.observations ∧
      (db.resolveObserver env observerID).2.rowidOf = db.rowidOf := by
  rw [DB.resolveObserver]
  split
  · next rowid h => exact ⟨h.symm, rfl, rfl, funext fun id => touchObserver_rowidOf _ _ id⟩
  · next h => exact ⟨h.symm, rfl, rfl, rfl⟩

theorem recordTransmission_eq (env : Env) (rxTime : String) (data : PacketData) (db : DB) :
    (db.recordTransmission env rxTime data).2.2.observers = db.observers ∧
      (db.recordTransmission env rxTime data).2.2.observations = db.observations := by
  rw [DB.recordTransmission]
  split
  · split <;> exact ⟨rfl, rfl⟩
  · exact ⟨rfl, rfl⟩

theorem insertTransmission_steps (hhash : data.hash ≠ "") (htime : data.timestamp ≠ "") {record : Int × Bool × DB}
    (hrecord : record = db.recordTransmission env data.timestamp data) {resolved : Option Int × DB}
    (hresolved : resolved = record.2.2.resolveObserver env data.observerID) :
    (db.insertTransmission env data).2 =
      ((resolved.2.insertObservation (resolved.2.observationRow env data record.1 resolved.1
        (epochSeconds data.timestamp env.observationUnix))).bumpTxLastSeen
        (epochSeconds data.timestamp env.observationUnix) record.1) := by
  rw [hresolved, hrecord, DB.insertTransmission, if_neg hhash]
  simp only [if_neg htime]

theorem insertTransmission_eq (hhash : data.hash ≠ "") (htime : data.timestamp ≠ "") {record : Int × Bool × DB}
    (hrecord : record = db.recordTransmission env data.timestamp data) {epochTs : Int}
    (hepoch : epochTs = epochSeconds data.timestamp env.observationUnix) {row : ObservationRow}
    (hrow : row = db.observationRow env data record.1 (db.rowidOf data.observerID) epochTs) :
    (db.insertTransmission env data).2.transmissions =
        update (fun t => t.id = record.1 ∧ t.lastSeen < epochTs) (fun t => { t with lastSeen := epochTs })
          record.2.2.transmissions ∧
      (db.insertTransmission env data).2.observations = upsert ObservationRow.dedupKey row.fillIn row db.observations ∧
      (db.insertTransmission env data).2.rowidOf = db.rowidOf := by
  obtain ⟨hobservers, hobservations⟩ := recordTransmission_eq env data.timestamp data db
  rw [← hrecord] at hobservers hobservations
  have hrowid : record.2.2.rowidOf = db.rowidOf := by
    funext id
    rw [DB.rowidOf, DB.rowidOf, hobservers]
  obtain ⟨resolved, hresolved⟩ : ∃ r, r = record.2.2.resolveObserver env data.observerID := ⟨_, rfl⟩
  obtain ⟨hidx, htransmissions, hkept, hrowids⟩ := resolveObserver_eq env data.observerID record.2.2
  rw [← hresolved] at hidx htransmissions hkept hrowids
  have hsame : resolved.2.observationRow env data record.1 resolved.1 epochTs = row := by
    rw [hrow, DB.observationRow, DB.observationRow, hidx, hrowid, hkept, hobservations]
  rw [insertTransmission_steps hhash htime hrecord hresolved, ← hepoch, hsame]
  refine ⟨?_, ?_, hrowids.trans hrowid⟩
  · exact congrArg (update _ _) htransmissions
  · exact congrArg (upsert _ _ _) (hkept.trans hobservations)

theorem lt_nextID {ids : List Int} {id : Int} (h : id ∈ ids) : id < nextID ids := by
  have hmax : ∀ (ids : List Int) (a : Int), a ≤ ids.foldl max a ∧ ∀ id ∈ ids, id ≤ ids.foldl max a := by
    intro ids
    induction ids with
    | nil => exact fun a => ⟨le_rfl, fun id hid => absurd hid List.not_mem_nil⟩
    | cons b ids ih =>
        intro a
        obtain ⟨hle, hmem⟩ := ih (max a b)
        refine ⟨(le_max_left a b).trans hle, ?_⟩
        intro id hid
        rcases List.mem_cons.mp hid with rfl | hid
        · exact (le_max_right a id).trans hle
        · exact hmem id hid
  exact Int.lt_add_one_of_le ((hmax ids 0).2 id h)

def TransmissionRow.seen (rxTime : String) (e : Int) (t : TransmissionRow) : TransmissionRow :=
  { t with
    firstSeen := if rxTime < t.firstSeen then rxTime else t.firstSeen
    lastSeen := if t.lastSeen < e then e else t.lastSeen }

theorem eq_of_id_eq (hids : (db.transmissions.map fun t => t.id).Nodup) {t t' : TransmissionRow}
    (ht : t ∈ db.transmissions) (ht' : t' ∈ db.transmissions) (h : t.id = t'.id) : t = t' :=
  List.inj_on_of_nodup_map hids ht ht' h

theorem transmissions_of_some (env : Env) (hids : (db.transmissions.map fun t => t.id).Nodup) (hdata : Canonical data)
    (hhash : data.hash ≠ "") {t : TransmissionRow}
    (hfind : db.transmissions.find? (fun t => t.hash = data.hash) = some t) :
    (db.recordTransmission env data.timestamp data).1 = t.id ∧
      (db.insertTransmission env data).2.transmissions =
        update (fun r => r.id = t.id) (TransmissionRow.seen data.timestamp (secondOf data)) db.transmissions := by
  have hrecord : db.recordTransmission env data.timestamp data = (t.id, false,
      if data.timestamp < t.firstSeen then
        { db with
          transmissions := update (fun r => r.id = t.id) (fun r => { r with firstSeen := data.timestamp }) db.transmissions }
      else db) := by
    rw [DB.recordTransmission, hfind]
  refine ⟨congrArg Prod.fst hrecord, ?_⟩
  rw [(insertTransmission_eq hhash hdata.timestamp_ne_empty hrecord.symm (hdata.epochSeconds_eq _).symm rfl).1]
  have ht := List.mem_of_find?_eq_some hfind
  dsimp only
  split
  · next hearlier =>
    rw [update, update, update, List.map_map]
    apply List.map_congr_left
    intro r hr
    by_cases hid : r.id = t.id
    · rw [eq_of_id_eq hids hr ht hid]
      by_cases hlater : t.lastSeen < secondOf data
      · simp [TransmissionRow.seen, hearlier, hlater]
      · simp [TransmissionRow.seen, hearlier, hlater]
    · simp [hid]
  · next hearlier =>
    rw [update, update]
    apply List.map_congr_left
    intro r hr
    by_cases hid : r.id = t.id
    · rw [eq_of_id_eq hids hr ht hid]
      by_cases hlater : t.lastSeen < secondOf data
      · simp [TransmissionRow.seen, hearlier, hlater]
      · simp [TransmissionRow.seen, hearlier, hlater]
    · simp [hid]

theorem transmissions_of_none (env : Env) (hdata : Canonical data) (hhash : data.hash ≠ "")
    (hfind : db.transmissions.find? (fun t => t.hash = data.hash) = none) :
    ∃ row, row.hash = data.hash ∧ row.firstSeen = data.timestamp ∧ row.lastSeen = secondOf data ∧
      row.id = nextID (db.transmissions.map fun t => t.id) ∧ (db.recordTransmission env data.timestamp data).1 = row.id ∧
      (db.insertTransmission env data).2.transmissions = db.transmissions ++ [row] := by
  obtain ⟨row, hrecord, hhash', hfirst, hlast, hid⟩ : ∃ row : TransmissionRow,
      db.recordTransmission env data.timestamp data = (row.id, true, { db with transmissions := db.transmissions ++ [row] }) ∧
        row.hash = data.hash ∧ row.firstSeen = data.timestamp ∧
        row.lastSeen = epochSeconds data.timestamp env.insertUnix ∧ row.id = nextID (db.transmissions.map fun t => t.id) := by
    rw [DB.recordTransmission, hfind]
    exact ⟨_, rfl, rfl, rfl, rfl, rfl⟩
  rw [hdata.epochSeconds_eq] at hlast
  refine ⟨row, hhash', hfirst, hlast, hid, congrArg Prod.fst hrecord, ?_⟩
  rw [(insertTransmission_eq hhash hdata.timestamp_ne_empty hrecord.symm (hdata.epochSeconds_eq _).symm rfl).1]
  -- No other row has the ID, and the time of the new one is that of the call.
  rw [update, List.map_append, List.map_singleton]
  have hnew : ¬(row.id = row.id ∧ row.lastSeen < secondOf data) := by
    rw [hlast]
    exact fun hlt => lt_irrefl _ hlt.2
  have hold : ∀ r ∈ db.transmissions, ¬(r.id = row.id ∧ r.lastSeen < secondOf data) := by
    intro r hr heq
    have hlt := lt_nextID (List.mem_map_of_mem (f := fun t => t.id) hr)
    omega
  rw [if_neg (by simpa using hnew)]
  apply congrArg (· ++ [row])
  conv_rhs => rw [← List.map_id db.transmissions]
  apply List.map_congr_left
  intro r hr
  exact if_neg (by simpa using hold r hr)

def DB.txIDs (db : DB) : List Int := db.transmissions.map fun t => t.id

def DB.hashes (db : DB) : List String := db.transmissions.map fun t => t.hash

def DB.hashOf (db : DB) (id : Int) : String :=
  ((db.transmissions.find? fun t => t.id = id).map fun t => t.hash).getD ""

abbrev Entry := String × Option Int × String

def DB.entries (db : DB) : List Entry :=
  db.observations.map fun o => (db.hashOf o.transmissionID, o.observerIdx, o.pathJSON.getD "")

def entry (rowidOf : String → Option Int) (data : PacketData) : Entry :=
  (data.hash, rowidOf data.observerID, data.pathJSON)

/-- The keys of the tables are unique, and each observation is of a transmission. -/
structure WellKept (db : DB) : Prop where
  ids : db.txIDs.Nodup
  hashes : db.hashes.Nodup
  stored : ∀ o ∈ db.observations, o.transmissionID ∈ db.txIDs

theorem hashOf_of_mem (h : WellKept db) {t : TransmissionRow} (ht : t ∈ db.transmissions) : db.hashOf t.id = t.hash := by
  rw [DB.hashOf]
  cases hfind : db.transmissions.find? fun r => r.id = t.id with
  | none => exact absurd (decide_eq_true rfl) (List.find?_eq_none.mp hfind t ht)
  | some r =>
      have hid : r.id = t.id := by simpa using List.find?_some hfind
      rw [eq_of_id_eq h.ids (List.mem_of_find?_eq_some hfind) ht hid]
      rfl

/-- The transmission of the call is in the table behind it, and the other ones are what they were. -/
structure Recorded (db db' : DB) (txID : Int) (hash : String) : Prop where
  ids : db'.txIDs.Nodup
  hashes : db'.hashes.Nodup
  kept : ∀ id ∈ db.txIDs, id ∈ db'.txIDs ∧ db'.hashOf id = db.hashOf id
  own : txID ∈ db'.txIDs ∧ db'.hashOf txID = hash
  only : ∀ id ∈ db.txIDs, db.hashOf id = hash → id = txID

theorem recorded_insert (env : Env) (h : WellKept db) (hdata : Canonical data) (hhash : data.hash ≠ "") :
    Recorded db (db.insertTransmission env data).2 (db.recordTransmission env data.timestamp data).1 data.hash := by
  cases hfind : db.transmissions.find? fun t => t.hash = data.hash with
  | some t =>
      have ht := List.mem_of_find?_eq_some hfind
      have hsame : t.hash = data.hash := by simpa using List.find?_some hfind
      obtain ⟨htx, htable⟩ := transmissions_of_some env h.ids hdata hhash hfind
      have hids : (db.insertTransmission env data).2.txIDs = db.txIDs := by
        rw [DB.txIDs, htable]
        apply map_update
        intro r _
        rfl
      have hhashes : (db.insertTransmission env data).2.hashes = db.hashes := by
        rw [DB.hashes, htable]
        apply map_update
        intro r _
        rfl
      have hhashOf : ∀ id, (db.insertTransmission env data).2.hashOf id = db.hashOf id := by
        intro id
        rw [DB.hashOf, DB.hashOf, htable]
        apply congrArg (Option.getD · "")
        apply find?_update
        · intro r
          rfl
        · intro r
          rfl
      rw [htx]
      constructor
      · rw [hids]
        exact h.ids
      · rw [hhashes]
        exact h.hashes
      · intro id hid
        rw [hids]
        exact ⟨hid, hhashOf id⟩
      · rw [hids, hhashOf, hashOf_of_mem h ht]
        exact ⟨List.mem_map_of_mem ht, hsame⟩
      · intro id hid hof
        obtain ⟨r, hr, rfl⟩ := List.mem_map.mp hid
        rw [hashOf_of_mem h hr, ← hsame] at hof
        exact congrArg TransmissionRow.id (List.inj_on_of_nodup_map h.hashes hr ht hof)
  | none =>
      obtain ⟨row, hrow, -, -, hid, htx, htable⟩ := transmissions_of_none env hdata hhash hfind
      have hfresh : ∀ t ∈ db.transmissions, t.id ≠ row.id := by
        intro t ht
        have hlt := lt_nextID (List.mem_map_of_mem (f := fun t => t.id) ht)
        omega
      have hunseen : ∀ t ∈ db.transmissions, t.hash ≠ data.hash := by
        intro t ht
        simpa using List.find?_eq_none.mp hfind t ht
      have hids : (db.insertTransmission env data).2.txIDs = db.txIDs ++ [row.id] := by
        rw [DB.txIDs, htable, List.map_append]
        rfl
      have hhashes : (db.insertTransmission env data).2.hashes = db.hashes ++ [data.hash] := by
        rw [DB.hashes, htable, List.map_append, List.map_singleton, hrow]
        rfl
      rw [htx]
      constructor
      · rw [hids]
        refine List.nodup_append.mpr ⟨h.ids, List.nodup_singleton _, ?_⟩
        intro id hmem id' hid' heq
        obtain ⟨t, ht, rfl⟩ := List.mem_map.mp hmem
        exact hfresh t ht (heq.trans (List.mem_singleton.mp hid'))
      · rw [hhashes]
        refine List.nodup_append.mpr ⟨h.hashes, List.nodup_singleton _, ?_⟩
        intro hash hmem hash' hhash' heq
        obtain ⟨t, ht, rfl⟩ := List.mem_map.mp hmem
        exact hunseen t ht (heq.trans (List.mem_singleton.mp hhash'))
      · intro id hmem
        rw [hids]
        refine ⟨List.mem_append_left _ hmem, ?_⟩
        obtain ⟨t, ht, rfl⟩ := List.mem_map.mp hmem
        have hsome : (db.transmissions.find? fun r => r.id = t.id).isSome := List.find?_isSome.mpr ⟨t, ht, decide_eq_true rfl⟩
        rw [DB.hashOf, DB.hashOf, htable, List.find?_append, Option.or_of_isSome hsome]
      · rw [hids]
        refine ⟨List.mem_append_right _ (List.mem_singleton_self _), ?_⟩
        have hnone : (db.transmissions.find? fun r => r.id = row.id) = none := by
          rw [List.find?_eq_none]
          intro t ht
          simpa using hfresh t ht
        rw [DB.hashOf, htable, List.find?_append, hnone, Option.none_or, List.find?_singleton, if_pos (decide_eq_true rfl)]
        exact hrow
      · intro id hmem hof
        obtain ⟨t, ht, rfl⟩ := List.mem_map.mp hmem
        rw [hashOf_of_mem h ht] at hof
        exact absurd hof (hunseen t ht)

theorem conflicts_row {db' : DB} {txID : Int} (h : WellKept db) (hrecorded : Recorded db db' txID data.hash) {row : ObservationRow}
    (htx : row.transmissionID = txID) (hidx : row.observerIdx = db.rowidOf data.observerID)
    (hpath : row.pathJSON = some data.pathJSON) :
    conflicts ObservationRow.dedupKey row db.observations = true ↔
      (db.rowidOf data.observerID).isSome ∧ entry db.rowidOf data ∈ db.entries := by
  rw [conflicts_iff]
  constructor
  · rintro ⟨old, hold, k, hkey, hk⟩
    obtain ⟨i, hi, rfl⟩ := Option.map_eq_some_iff.mp hk
    obtain ⟨j, hj, hji⟩ := Option.map_eq_some_iff.mp hkey
    rw [Prod.mk.injEq, Prod.mk.injEq, htx, hpath] at hji
    obtain ⟨holdtx, rfl, hpaths⟩ := hji
    rw [hidx] at hi
    refine ⟨Option.isSome_of_eq_some hi, List.mem_map.mpr ⟨old, hold, ?_⟩⟩
    have hmem := h.stored old hold
    rw [entry, ← hrecorded.own.2, ← (hrecorded.kept _ hmem).2, holdtx, hj, hi, hpaths]
    rfl
  · rintro ⟨hsome, hmem⟩
    obtain ⟨i, hi⟩ := Option.isSome_iff_exists.mp hsome
    obtain ⟨old, hold, heq⟩ := List.mem_map.mp hmem
    rw [entry, Prod.mk.injEq, Prod.mk.injEq, hi] at heq
    obtain ⟨hhash, hj, hpaths⟩ := heq
    refine ⟨old, hold, (txID, i, data.pathJSON), ?_, ?_⟩
    · rw [ObservationRow.dedupKey, hj, Option.map_some, hpaths, hrecorded.only _ (h.stored old hold) hhash]
    · rw [ObservationRow.dedupKey, hidx, hi, Option.map_some, htx, hpath]
      rfl

theorem observations_insert (env : Env) (h : WellKept db) (hdata : Canonical data) (hhash : data.hash ≠ "") :
    ∃ row : ObservationRow, row.transmissionID = (db.recordTransmission env data.timestamp data).1 ∧
      row.observerIdx = db.rowidOf data.observerID ∧ row.pathJSON = some data.pathJSON ∧
      (db.insertTransmission env data).2.observations = upsert ObservationRow.dedupKey row.fillIn row db.observations ∧
      (conflicts ObservationRow.dedupKey row db.observations = true ↔
        (db.rowidOf data.observerID).isSome ∧ entry db.rowidOf data ∈ db.entries) := by
  have hrecorded := recorded_insert env h hdata hhash
  obtain ⟨row, hrow⟩ : ∃ row, row = db.observationRow env data (db.recordTransmission env data.timestamp data).1
      (db.rowidOf data.observerID) (epochSeconds data.timestamp env.observationUnix) := ⟨_, rfl⟩
  obtain ⟨-, hobservations, -⟩ := insertTransmission_eq hhash hdata.timestamp_ne_empty rfl rfl hrow
  have htx : row.transmissionID = (db.recordTransmission env data.timestamp data).1 := by rw [hrow, DB.observationRow]
  have hidx : row.observerIdx = db.rowidOf data.observerID := by rw [hrow, DB.observationRow]
  have hpath : row.pathJSON = some data.pathJSON := by rw [hrow, DB.observationRow]
  exact ⟨row, htx, hidx, hpath, hobservations, conflicts_row h hrecorded htx hidx hpath⟩

theorem insertTransmission_entries (env : Env) (h : WellKept db) (hdata : Canonical data) (hhash : data.hash ≠ "") :
    WellKept (db.insertTransmission env data).2 ∧ (db.insertTransmission env data).2.entries =
      if (db.rowidOf data.observerID).isSome ∧ entry db.rowidOf data ∈ db.entries then db.entries
      else db.entries ++ [entry db.rowidOf data] := by
  have hrecorded := recorded_insert env h hdata hhash
  obtain ⟨row, htx, hidx, hpath, hobservations, hconflicts⟩ := observations_insert env h hdata hhash
  constructor
  · refine ⟨hrecorded.ids, hrecorded.hashes, ?_⟩
    intro o ho
    have hview : ((db.insertTransmission env data).2.observations.map fun o => o.transmissionID) =
        if conflicts ObservationRow.dedupKey row db.observations then db.observations.map fun o => o.transmissionID
        else (db.observations.map fun o => o.transmissionID) ++ [row.transmissionID] := by
      rw [hobservations]
      apply map_upsert
      intro old
      rfl
    have hstored : ∀ id ∈ db.observations.map fun o => o.transmissionID, id ∈ (db.insertTransmission env data).2.txIDs := by
      intro id hid
      obtain ⟨old, hold, rfl⟩ := List.mem_map.mp hid
      exact (hrecorded.kept _ (h.stored old hold)).1
    have hmem := List.mem_map_of_mem (f := fun o : ObservationRow => o.transmissionID) ho
    rw [hview] at hmem
    split at hmem
    · exact hstored _ hmem
    · rcases List.mem_append.mp hmem with hmem | hmem
      · exact hstored _ hmem
      · rw [List.mem_singleton.mp hmem, htx]
        exact hrecorded.own.1
  · rw [DB.entries, hobservations]
    refine (map_upsert ?_ row db.observations).trans ?_
    · intro old
      rfl
    have hold : (db.observations.map fun o =>
        ((db.insertTransmission env data).2.hashOf o.transmissionID, o.observerIdx, o.pathJSON.getD "")) = db.entries := by
      apply List.map_congr_left
      intro o ho
      rw [(hrecorded.kept _ (h.stored o ho)).2]
    rw [hold, htx, hidx, hpath, hrecorded.own.2]
    by_cases hcond : (db.rowidOf data.observerID).isSome ∧ entry db.rowidOf data ∈ db.entries
    · rw [if_pos hcond, if_pos (hconflicts.mpr hcond)]
    · rw [if_neg hcond, if_neg fun hconf => hcond (hconflicts.mp hconf)]
      rfl

/-- As often as an entry stands in the table: once for a known observer, and otherwise once for each packet. -/
def expected (es : List Entry) (e : Entry) : Nat := if e.2.1.isSome then min 1 (es.count e) else es.count e

def times (packets : List PacketData) (hash : String) : Set Int := {e | ∃ p ∈ packets, p.hash = hash ∧ secondOf p = e}

/-- The tables hold what the packets come to: one transmission for each hash, from the first time to the last,
and of each entry as many observations as expected. -/
structure Ingested (rowidOf : String → Option Int) (db : DB) (packets : List PacketData) : Prop extends WellKept db where
  observers : db.rowidOf = rowidOf
  mem_hashes : ∀ hash, hash ∈ db.hashes ↔ hash ≠ "" ∧ (times packets hash).Nonempty
  firstSeen : ∀ t ∈ db.transmissions, ∃ e, t.firstSeen = stamp e ∧ IsLeast (times packets t.hash) e
  lastSeen : ∀ t ∈ db.transmissions, IsGreatest (times packets t.hash) t.lastSeen
  counts : ∀ e : Entry, e.1 ≠ "" → db.entries.count e = expected (packets.map (entry rowidOf)) e

variable {rowidOf : String → Option Int} {packets : List PacketData}

theorem transmission_cases (env : Env) (h : WellKept db) (hdata : Canonical data) (hhash : data.hash ≠ "") {t' : TransmissionRow}
    (ht' : t' ∈ (db.insertTransmission env data).2.transmissions) :
    (t' ∈ db.transmissions ∧ t'.hash ≠ data.hash) ∨
      (∃ t ∈ db.transmissions, t.hash = data.hash ∧ t' = t.seen data.timestamp (secondOf data)) ∨
      (data.hash ∉ db.hashes ∧ t'.hash = data.hash ∧ t'.firstSeen = data.timestamp ∧ t'.lastSeen = secondOf data) := by
  cases hfind : db.transmissions.find? fun t => t.hash = data.hash with
  | some t =>
      have ht := List.mem_of_find?_eq_some hfind
      have hsame : t.hash = data.hash := by simpa using List.find?_some hfind
      rw [(transmissions_of_some env h.ids hdata hhash hfind).2] at ht'
      obtain ⟨r, hr, heq⟩ := List.mem_map.mp ht'
      by_cases hid : r.id = t.id
      · obtain rfl := eq_of_id_eq h.ids hr ht hid
        rw [if_pos (decide_eq_true rfl)] at heq
        exact .inr (.inl ⟨r, hr, hsame, heq.symm⟩)
      · rw [if_neg (by simpa using hid)] at heq
        subst heq
        refine .inl ⟨hr, fun hof => hid ?_⟩
        exact congrArg TransmissionRow.id (List.inj_on_of_nodup_map h.hashes hr ht (hof.trans hsame.symm))
  | none =>
      have hunseen : ∀ t ∈ db.transmissions, t.hash ≠ data.hash := by
        intro t ht
        simpa using List.find?_eq_none.mp hfind t ht
      obtain ⟨row, hrow, hfirst, hlast, -, -, htable⟩ := transmissions_of_none env hdata hhash hfind
      rw [htable] at ht'
      rcases List.mem_append.mp ht' with hold | hnew
      · exact .inl ⟨hold, hunseen _ hold⟩
      · rw [List.mem_singleton.mp hnew]
        refine .inr (.inr ⟨?_, hrow, hfirst, hlast⟩)
        intro hmem
        obtain ⟨t, ht, hof⟩ := List.mem_map.mp hmem
        exact hunseen t ht hof

theorem hashOf_mem (h : WellKept db) {id : Int} (hid : id ∈ db.txIDs) : db.hashOf id ∈ db.hashes := by
  obtain ⟨t, ht, rfl⟩ := List.mem_map.mp hid
  rw [hashOf_of_mem h ht]
  exact List.mem_map_of_mem ht

theorem mem_hashes_insert (env : Env) (h : WellKept db) (hdata : Canonical data) (hhash : data.hash ≠ "") (hash : String) :
    hash ∈ (db.insertTransmission env data).2.hashes ↔ hash ∈ db.hashes ∨ hash = data.hash := by
  have hrecorded := recorded_insert env h hdata hhash
  have hkept := (insertTransmission_entries env h hdata hhash).1
  constructor
  · intro hmem
    obtain ⟨t', ht', rfl⟩ := List.mem_map.mp hmem
    rcases transmission_cases env h hdata hhash ht' with ⟨ht, -⟩ | ⟨t, -, hsame, rfl⟩ | ⟨-, hsame, -⟩
    · exact .inl (List.mem_map_of_mem ht)
    · exact .inr hsame
    · exact .inr hsame
  · rintro (hmem | rfl)
    · obtain ⟨t, ht, rfl⟩ := List.mem_map.mp hmem
      obtain ⟨hid, hsame⟩ := hrecorded.kept t.id (List.mem_map_of_mem ht)
      rw [← hashOf_of_mem h ht, ← hsame]
      exact hashOf_mem hkept hid
    · rw [← hrecorded.own.2]
      exact hashOf_mem hkept hrecorded.own.1

theorem Ingested.hash_ne_empty (h : Ingested rowidOf db packets) {t : TransmissionRow} (ht : t ∈ db.transmissions) : t.hash ≠ "" :=
  ((h.mem_hashes t.hash).mp (List.mem_map_of_mem ht)).1

theorem times_of_ne {hash : String} (h : data.hash ≠ hash) : times (packets ++ [data]) hash = times packets hash := by
  ext e
  constructor
  · rintro ⟨p, hp, hhash, he⟩
    rcases List.mem_append.mp hp with hp | hp
    · exact ⟨p, hp, hhash, he⟩
    · rw [List.mem_singleton.mp hp] at hhash
      exact absurd hhash h
  · rintro ⟨p, hp, hhash, he⟩
    exact ⟨p, List.mem_append_left _ hp, hhash, he⟩

theorem times_self : times (packets ++ [data]) data.hash = insert (secondOf data) (times packets data.hash) := by
  ext e
  constructor
  · rintro ⟨p, hp, hhash, he⟩
    rcases List.mem_append.mp hp with hp | hp
    · exact .inr ⟨p, hp, hhash, he⟩
    · rw [List.mem_singleton.mp hp] at he
      exact .inl he.symm
  · rintro (rfl | ⟨p, hp, hhash, he⟩)
    · exact ⟨data, List.mem_append_right _ (List.mem_singleton_self _), rfl, rfl⟩
    · exact ⟨p, List.mem_append_left _ hp, hhash, he⟩

theorem expected_of_ne {es : List Entry} {e e' : Entry} (h : e' ≠ e) : expected (es ++ [e']) e = expected es e := by
  have hcount : (es ++ [e']).count e = es.count e := by
    rw [List.count_append, List.count_eq_zero_of_not_mem fun hmem => h (List.mem_singleton.mp hmem).symm, Nat.add_zero]
  rw [expected, expected, hcount]

theorem ingested_blank (h : Ingested rowidOf db packets) (hhash : data.hash = "") : Ingested rowidOf db (packets ++ [data]) where
  toWellKept := h.toWellKept
  observers := h.observers
  mem_hashes := by
    intro hash
    rw [h.mem_hashes]
    by_cases hne : hash = ""
    · exact ⟨fun hmem => absurd hne hmem.1, fun hmem => absurd hne hmem.1⟩
    · rw [times_of_ne (hhash ▸ Ne.symm hne)]
  firstSeen := by
    intro t ht
    rw [times_of_ne (hhash ▸ (h.hash_ne_empty ht).symm)]
    exact h.firstSeen t ht
  lastSeen := by
    intro t ht
    rw [times_of_ne (hhash ▸ (h.hash_ne_empty ht).symm)]
    exact h.lastSeen t ht
  counts := by
    intro e he
    rw [List.map_append, List.map_singleton, expected_of_ne, h.counts e he]
    rintro rfl
    exact he hhash

theorem expected_append_self (es : List Entry) (e : Entry) :
    expected (es ++ [e]) e = if e.2.1.isSome ∧ e ∈ es then expected es e else expected es e + 1 := by
  rw [expected, expected, List.count_append, List.count_singleton_self]
  split
  · next hsome =>
    by_cases hmem : e ∈ es
    · rw [if_pos ⟨hsome, hmem⟩]
      have hpos := List.count_pos_iff.mpr hmem
      omega
    · rw [if_neg fun hcond => hmem hcond.2, List.count_eq_zero_of_not_mem hmem]
      rfl
  · next hnone => rw [if_neg fun hcond => hnone hcond.1]

theorem mem_iff_expected_pos {es : List Entry} {e : Entry} : e ∈ es ↔ 0 < expected es e := by
  rw [← List.count_pos_iff, expected]
  split
  · omega
  · rfl

theorem expected_known {es : List Entry} {e : Entry} (h : e.2.1.isSome) : expected es e = if e ∈ es then 1 else 0 := by
  rw [expected, if_pos h]
  split
  · next hmem =>
    have hpos := List.count_pos_iff.mpr hmem
    omega
  · next hmem => rw [List.count_eq_zero_of_not_mem hmem, Nat.min_zero]

theorem expected_unknown {es : List Entry} {e : Entry} (h : e.2.1 = none) : expected es e = es.count e := by
  rw [expected, h]
  exact if_neg Bool.false_ne_true

theorem times_bounds (hpackets : ∀ p ∈ packets, Canonical p) {hash : String} {e : Int} (he : e ∈ times packets hash) :
    firstStamp ≤ e ∧ e ≤ lastStamp := by
  obtain ⟨p, hp, -, rfl⟩ := he
  exact (hpackets p hp).timestamp_eq.2

theorem times_eq_empty (h : Ingested rowidOf db packets) (hhash : data.hash ≠ "") (hnew : data.hash ∉ db.hashes) :
    times packets data.hash = ∅ := by
  by_contra hne
  exact hnew ((h.mem_hashes _).mpr ⟨hhash, Set.nonempty_iff_ne_empty.mpr hne⟩)

theorem seen_firstSeen (hdata : Canonical data) {t : TransmissionRow} {e : Int} (he : t.firstSeen = stamp e)
    (hbounds : firstStamp ≤ e ∧ e ≤ lastStamp) :
    (t.seen data.timestamp (secondOf data)).firstSeen = stamp (min (secondOf data) e) := by
  obtain ⟨hstamp, hlow, hhigh⟩ := hdata.timestamp_eq
  change (if data.timestamp < t.firstSeen then data.timestamp else t.firstSeen) = _
  have hlt : data.timestamp < t.firstSeen ↔ secondOf data < e := by
    rw [hstamp, he, ← not_le, ← not_le, stamp_le_iff (earliestStamp_le hbounds.1) hbounds.2 (earliestStamp_le hlow) hhigh]
  by_cases hearlier : secondOf data < e
  · rw [if_pos (hlt.mpr hearlier), min_eq_left hearlier.le, ← hstamp]
  · rw [if_neg fun hcond => hearlier (hlt.mp hcond), min_eq_right (not_lt.mp hearlier), he]

theorem seen_lastSeen (rxTime : String) (e : Int) (t : TransmissionRow) : (t.seen rxTime e).lastSeen = max e t.lastSeen := by
  change (if t.lastSeen < e then e else t.lastSeen) = _
  split
  · next hlt => rw [max_eq_left hlt.le]
  · next hge => rw [max_eq_right (not_lt.mp hge)]

theorem ingested_insert (env : Env) (h : Ingested rowidOf db packets) (hpackets : ∀ p ∈ packets, Canonical p) (hdata : Canonical data)
    (hhash : data.hash ≠ "") : Ingested rowidOf (db.insertTransmission env data).2 (packets ++ [data]) where
  toWellKept := (insertTransmission_entries env h.toWellKept hdata hhash).1
  observers := (insertTransmission_eq hhash hdata.timestamp_ne_empty rfl rfl rfl).2.2.trans h.observers
  mem_hashes := by
    intro hash
    rw [mem_hashes_insert env h.toWellKept hdata hhash, h.mem_hashes]
    by_cases hsame : hash = data.hash
    · subst hsame
      rw [times_self]
      exact ⟨fun _ => ⟨hhash, Set.insert_nonempty _ _⟩, fun _ => .inr rfl⟩
    · rw [times_of_ne (Ne.symm hsame), or_iff_left hsame]
  firstSeen := by
    intro t' ht'
    rcases transmission_cases env h.toWellKept hdata hhash ht' with ⟨ht, hne⟩ | ⟨t, ht, hsame, rfl⟩ | ⟨hnew, hsame, hfirst, -⟩
    · rw [times_of_ne (Ne.symm hne)]
      exact h.firstSeen t' ht
    · obtain ⟨e, he, hleast⟩ := h.firstSeen t ht
      refine ⟨min (secondOf data) e, seen_firstSeen hdata he (times_bounds hpackets hleast.1), ?_⟩
      change IsLeast (times (packets ++ [data]) t.hash) _
      rw [hsame] at hleast ⊢
      rw [times_self]
      exact hleast.insert _
    · refine ⟨secondOf data, hfirst.trans hdata.timestamp_eq.1, ?_⟩
      rw [hsame, times_self, times_eq_empty h hhash hnew, insert_empty_eq]
      exact isLeast_singleton
  lastSeen := by
    intro t' ht'
    rcases transmission_cases env h.toWellKept hdata hhash ht' with ⟨ht, hne⟩ | ⟨t, ht, hsame, rfl⟩ | ⟨hnew, hsame, -, hlast⟩
    · rw [times_of_ne (Ne.symm hne)]
      exact h.lastSeen t' ht
    · have hgreatest := h.lastSeen t ht
      change IsGreatest (times (packets ++ [data]) t.hash) _
      rw [seen_lastSeen]
      rw [hsame] at hgreatest ⊢
      rw [times_self]
      exact hgreatest.insert _
    · rw [hsame, hlast, times_self, times_eq_empty h hhash hnew, insert_empty_eq]
      exact isGreatest_singleton
  counts := by
    intro e he
    rw [(insertTransmission_entries env h.toWellKept hdata hhash).2, List.map_append, List.map_singleton, h.observers]
    have hmem : entry rowidOf data ∈ db.entries ↔ entry rowidOf data ∈ packets.map (entry rowidOf) := by
      rw [← List.count_pos_iff, h.counts (entry rowidOf data) hhash, ← mem_iff_expected_pos]
    by_cases hown : entry rowidOf data = e
    · subst hown
      rw [expected_append_self, ← h.counts _ he]
      by_cases hcond : (rowidOf data.observerID).isSome ∧ entry rowidOf data ∈ db.entries
      · rw [if_pos hcond, if_pos ⟨hcond.1, hmem.mp hcond.2⟩]
      · rw [if_neg hcond, if_neg fun hcond' => hcond ⟨hcond'.1, hmem.mpr hcond'.2⟩, List.count_append, List.count_singleton_self]
    · rw [expected_of_ne hown, ← h.counts e he]
      split
      · rfl
      · rw [List.count_append, List.count_eq_zero_of_not_mem fun hcond => hown (List.mem_singleton.mp hcond).symm, Nat.add_zero]

theorem ingested_call (env : Env) (h : Ingested rowidOf db packets) (hpackets : ∀ p ∈ packets, Canonical p) (hdata : Canonical data) :
    Ingested rowidOf (db.insertTransmission env data).2 (packets ++ [data]) := by
  by_cases hhash : data.hash = ""
  · rw [DB.insertTransmission, if_pos hhash]
    exact ingested_blank h hhash
  · exact ingested_insert env h hpackets hdata hhash

theorem ingested_run {calls : List (Env × PacketData)} (h : Ingested rowidOf db packets) (hpackets : ∀ p ∈ packets, Canonical p)
    (hcalls : ∀ c ∈ calls, Canonical c.2) : Ingested rowidOf (db.ingest calls) (packets ++ calls.map Prod.snd) := by
  induction calls generalizing db packets with
  | nil =>
      rw [List.map_nil, List.append_nil]
      exact h
  | cons c calls ih =>
      have hc := hcalls c List.mem_cons_self
      have hall : ∀ p ∈ packets ++ [c.2], Canonical p := by
        intro p hp
        rcases List.mem_append.mp hp with hp | hp
        · exact hpackets p hp
        · rw [List.mem_singleton.mp hp]
          exact hc
      have hrest := ih (ingested_call c.1 h hpackets hc) hall fun c' hc' => hcalls c' (List.mem_cons_of_mem c hc')
      rw [List.append_assoc, List.singleton_append] at hrest
      exact hrest

def DB.start (observers : List ObserverRow) : DB := ⟨observers, [], []⟩

theorem ingested_start (observers : List ObserverRow) : Ingested (DB.start observers).rowidOf (DB.start observers) [] where
  ids := List.nodup_nil
  hashes := List.nodup_nil
  stored := fun _ ho => absurd ho List.not_mem_nil
  observers := rfl
  mem_hashes := by
    intro hash
    constructor
    · intro hmem
      exact absurd hmem List.not_mem_nil
    · rintro ⟨-, e, p, hp, -⟩
      exact absurd hp List.not_mem_nil
  firstSeen := fun _ ht => absurd ht List.not_mem_nil
  lastSeen := fun _ ht => absurd ht List.not_mem_nil
  counts := by
    intro e _
    rw [expected]
    split <;> rfl

def DB.identities (db : DB) : List (Int × Int × Option Int × Option String) :=
  db.observations.map fun o => (o.id, o.transmissionID, o.observerIdx, o.pathJSON)

theorem seen_eq_self (hdata : Canonical data) (hpackets : ∀ p ∈ packets, Canonical p) (hmem : data ∈ packets)
    (h : Ingested rowidOf db packets) {t : TransmissionRow} (ht : t ∈ db.transmissions) (hsame : t.hash = data.hash) :
    t.seen data.timestamp (secondOf data) = t := by
  have htime : secondOf data ∈ times packets t.hash := ⟨data, hmem, hsame.symm, rfl⟩
  obtain ⟨e, he, hleast⟩ := h.firstSeen t ht
  have hfirst := seen_firstSeen hdata he (times_bounds hpackets hleast.1)
  rw [min_eq_right (hleast.2 htime), ← he] at hfirst
  have hlast := seen_lastSeen data.timestamp (secondOf data) t
  rw [max_eq_right ((h.lastSeen t ht).2 htime)] at hlast
  change { t with
    firstSeen := (t.seen data.timestamp (secondOf data)).firstSeen
    lastSeen := (t.seen data.timestamp (secondOf data)).lastSeen } = t
  rw [hfirst, hlast]

theorem insertTransmission_again (env : Env) (h : Ingested rowidOf db packets) (hpackets : ∀ p ∈ packets, Canonical p)
    (hmem : data ∈ packets) :
    (db.insertTransmission env data).2.transmissions = db.transmissions ∧
      ∃ added, (db.insertTransmission env data).2.identities = db.identities ++ added ∧
        added.length = if data.hash ≠ "" ∧ rowidOf data.observerID = none then 1 else 0 := by
  have hdata := hpackets data hmem
  by_cases hhash : data.hash = ""
  · rw [DB.insertTransmission, if_pos hhash]
    refine ⟨rfl, [], (List.append_nil _).symm, ?_⟩
    rw [if_neg fun hcond => hcond.1 hhash]
    rfl
  · constructor
    · obtain ⟨t, ht, hsame⟩ := List.mem_map.mp ((h.mem_hashes _).mpr ⟨hhash, secondOf data, data, hmem, rfl, rfl⟩)
      obtain ⟨r, hfind⟩ := Option.isSome_iff_exists.mp
        (List.find?_isSome.mpr ⟨t, ht, decide_eq_true hsame⟩ : (db.transmissions.find? fun t => t.hash = data.hash).isSome)
      have hr : r.hash = data.hash := by simpa using List.find?_some hfind
      rw [(transmissions_of_some env h.ids hdata hhash hfind).2, update]
      conv_rhs => rw [← List.map_id db.transmissions]
      apply List.map_congr_left
      intro t ht
      split
      · next hid =>
        have htr : t = r := eq_of_id_eq h.ids ht (List.mem_of_find?_eq_some hfind) (of_decide_eq_true hid)
        exact seen_eq_self hdata hpackets hmem h ht (htr ▸ hr)
      · rfl
    · obtain ⟨row, -, -, -, hobservations, hconflicts⟩ := observations_insert env h.toWellKept hdata hhash
      have hview : (db.insertTransmission env data).2.identities =
          if conflicts ObservationRow.dedupKey row db.observations then db.identities
          else db.identities ++ [(row.id, row.transmissionID, row.observerIdx, row.pathJSON)] := by
        rw [DB.identities, hobservations]
        apply map_upsert
        intro old
        rfl
      rw [h.observers] at hconflicts
      cases hknown : rowidOf data.observerID with
      | some i =>
          have hin : entry rowidOf data ∈ db.entries := by
            rw [← List.count_pos_iff, h.counts (entry rowidOf data) hhash, ← mem_iff_expected_pos]
            exact List.mem_map_of_mem hmem
          rw [hview, if_pos (hconflicts.mpr ⟨Option.isSome_of_eq_some hknown, hin⟩)]
          refine ⟨[], (List.append_nil _).symm, ?_⟩
          rw [if_neg fun hcond => Option.some_ne_none i hcond.2]
          rfl
      | none =>
          have hfree : ¬conflicts ObservationRow.dedupKey row db.observations = true := by
            intro hconf
            have hsome := (hconflicts.mp hconf).1
            rw [hknown] at hsome
            cases hsome
          rw [hview, if_neg hfree]
          refine ⟨_, rfl, ?_⟩
          rw [if_pos ⟨hhash, rfl⟩]
          rfl

theorem expected_perm {es es' : List Entry} (h : es.Perm es') (e : Entry) : expected es e = expected es' e := by
  rw [expected, expected, h.count_eq]

theorem times_perm {packets' : List PacketData} (h : packets.Perm packets') (hash : String) :
    times packets hash = times packets' hash := by
  ext e
  constructor
  · rintro ⟨p, hp, hrest⟩
    exact ⟨p, h.mem_iff.mp hp, hrest⟩
  · rintro ⟨p, hp, hrest⟩
    exact ⟨p, h.mem_iff.mpr hp, hrest⟩

theorem entry_hash_ne_empty (h : Ingested rowidOf db packets) {e : Entry} (he : e ∈ db.entries) : e.1 ≠ "" := by
  obtain ⟨o, ho, rfl⟩ := List.mem_map.mp he
  exact ((h.mem_hashes _).mp (hashOf_mem h.toWellKept (h.stored o ho))).1

theorem entries_perm {db' : DB} {packets' : List PacketData} (h : Ingested rowidOf db packets) (h' : Ingested rowidOf db' packets')
    (hperm : packets.Perm packets') : db.entries.Perm db'.entries := by
  rw [List.perm_iff_count]
  intro e
  by_cases he : e.1 = ""
  · rw [List.count_eq_zero_of_not_mem fun hmem => entry_hash_ne_empty h hmem he,
      List.count_eq_zero_of_not_mem fun hmem => entry_hash_ne_empty h' hmem he]
  · rw [h.counts e he, h'.counts e he]
    exact expected_perm (hperm.map _) e

/-- The columns of a transmission that all packets of its hash have a part in. -/
def DB.sightings (db : DB) : List (String × String × Int) := db.transmissions.map fun t => (t.hash, t.firstSeen, t.lastSeen)

theorem sightings_nodup (h : WellKept db) : db.sightings.Nodup := by
  have hhashes := h.hashes
  have hmap : db.hashes = db.sightings.map Prod.fst := by
    rw [DB.hashes, DB.sightings, List.map_map]
    rfl
  rw [hmap] at hhashes
  exact hhashes.of_map _

theorem sightings_subset {db' : DB} {packets' : List PacketData} (h : Ingested rowidOf db packets)
    (h' : Ingested rowidOf db' packets') (hperm : packets.Perm packets') : db.sightings ⊆ db'.sightings := by
  intro s hs
  obtain ⟨t, ht, rfl⟩ := List.mem_map.mp hs
  have hmem := (h.mem_hashes _).mp (List.mem_map_of_mem ht)
  rw [times_perm hperm] at hmem
  obtain ⟨t', ht', hsame⟩ := List.mem_map.mp ((h'.mem_hashes _).mpr hmem)
  obtain ⟨e, he, hleast⟩ := h.firstSeen t ht
  obtain ⟨e', he', hleast'⟩ := h'.firstSeen t' ht'
  have hgreatest := h.lastSeen t ht
  have hgreatest' := h'.lastSeen t' ht'
  rw [hsame, ← times_perm hperm] at hleast' hgreatest'
  refine List.mem_map.mpr ⟨t', ht', ?_⟩
  rw [hsame, he, he', hleast.unique hleast', hgreatest.unique hgreatest']

theorem sightings_perm {db' : DB} {packets' : List PacketData} (h : Ingested rowidOf db packets)
    (h' : Ingested rowidOf db' packets') (hperm : packets.Perm packets') : db.sightings.Perm db'.sightings :=
  (List.perm_ext_iff_of_nodup (sightings_nodup h.toWellKept) (sightings_nodup h'.toWellKept)).mpr fun _ =>
    ⟨fun hs => sightings_subset h h' hperm hs, fun hs => sightings_subset h' h hperm.symm hs⟩

/-- The observer has a row. -/
def Known (observers : List ObserverRow) (observerID : String) : Prop :=
  observerID ≠ "" ∧ observerID ∈ observers.map fun o => o.id

instance (observers : List ObserverRow) (observerID : String) : Decidable (Known observers observerID) :=
  inferInstanceAs (Decidable (_ ∧ _))

def DB.rowCount (db : DB) (txID : Int) (observerIdx : Option Int) (path : String) : Nat :=
  db.observations.countP fun o => o.transmissionID = txID ∧ o.observerIdx = observerIdx ∧ o.pathJSON.getD "" = path

theorem rowCount_eq (h : WellKept db) {t : TransmissionRow} (ht : t ∈ db.transmissions) (idx : Option Int) (path : String) :
    db.rowCount t.id idx path = db.entries.count (t.hash, idx, path) := by
  rw [DB.rowCount, List.count, DB.entries, List.countP_map]
  apply List.countP_congr
  intro o ho
  obtain ⟨r, hr, hro⟩ := List.mem_map.mp (h.stored o ho)
  have hiff : o.transmissionID = t.id ↔ db.hashOf o.transmissionID = t.hash := by
    rw [← hro, hashOf_of_mem h hr]
    constructor
    · intro hid
      rw [eq_of_id_eq h.ids hr ht hid]
    · intro hof
      exact congrArg TransmissionRow.id (List.inj_on_of_nodup_map h.hashes hr ht hof)
  simp [hiff]

section Observers

variable {observers : List ObserverRow}

theorem rowidOf_eq_none_iff {observerID : String} : (DB.start observers).rowidOf observerID = none ↔ ¬Known observers observerID := by
  rw [DB.rowidOf, Known]
  by_cases hblank : observerID = ""
  · rw [if_pos hblank]
    exact ⟨fun _ hknown => hknown.1 hblank, fun _ => rfl⟩
  · rw [if_neg hblank, Option.map_eq_none_iff, List.find?_eq_none]
    constructor
    · rintro hnone ⟨-, hmem⟩
      obtain ⟨o, ho, hid⟩ := List.mem_map.mp hmem
      exact hnone o ho (decide_eq_true hid)
    · intro hunknown o ho hid
      exact hunknown ⟨hblank, List.mem_map.mpr ⟨o, ho, of_decide_eq_true hid⟩⟩

theorem rowidOf_eq_some_iff (hids : (observers.map fun o => o.id).Nodup) (hrowids : (observers.map fun o => o.rowid).Nodup)
    {o : ObserverRow} (ho : o ∈ observers) (hblank : o.id ≠ "") {observerID : String} :
    (DB.start observers).rowidOf observerID = some o.rowid ↔ observerID = o.id := by
  rw [DB.rowidOf]
  constructor
  · intro hrow
    split at hrow
    · cases hrow
    · obtain ⟨r, hr, hrowid⟩ := Option.map_eq_some_iff.mp hrow
      have hid : r.id = observerID := by simpa using List.find?_some hr
      rw [← hid, List.inj_on_of_nodup_map hrowids (List.mem_of_find?_eq_some hr) ho hrowid]
  · rintro rfl
    rw [if_neg hblank]
    cases hfind : (DB.start observers).observers.find? fun r => r.id = o.id with
    | none => exact absurd (decide_eq_true rfl) (List.find?_eq_none.mp hfind o ho)
    | some r =>
        have hid : r.id = o.id := by simpa using List.find?_some hfind
        rw [List.inj_on_of_nodup_map hids (List.mem_of_find?_eq_some hfind) ho hid]
        rfl

end Observers

/-- One transmission for each hash, from the first time to the last one; one observation for each transmission, known
observer and path; and one for each packet without a known observer. -/
structure Sums (observers : List ObserverRow) (packets : List PacketData) (db : DB) : Prop where
  hashes : db.hashes.Nodup
  mem_hashes : ∀ hash, hash ∈ db.hashes ↔ hash ≠ "" ∧ ∃ p ∈ packets, p.hash = hash
  seen : ∀ t ∈ db.transmissions, ∃ e, t.firstSeen = stamp e ∧ IsLeast (times packets t.hash) e ∧
    IsGreatest (times packets t.hash) t.lastSeen
  known : ∀ t ∈ db.transmissions, ∀ o ∈ observers, o.id ≠ "" → ∀ path, db.rowCount t.id (some o.rowid) path =
    if ∃ p ∈ packets, p.hash = t.hash ∧ p.observerID = o.id ∧ p.pathJSON = path then 1 else 0
  unknown : ∀ t ∈ db.transmissions, ∀ path, db.rowCount t.id none path =
    packets.countP fun p => p.hash = t.hash ∧ ¬Known observers p.observerID ∧ p.pathJSON = path
  stored : ∀ o ∈ db.observations, (∃ t ∈ db.transmissions, t.id = o.transmissionID) ∧
    ∀ idx ∈ o.observerIdx, ∃ r ∈ observers, r.id ≠ "" ∧ r.rowid = idx

theorem Ingested.sums {observers : List ObserverRow} (hids : (observers.map fun o => o.id).Nodup)
    (hrowids : (observers.map fun o => o.rowid).Nodup) (h : Ingested (DB.start observers).rowidOf db packets) :
    Sums observers packets db where
  hashes := h.hashes
  mem_hashes := by
    intro hash
    rw [h.mem_hashes]
    apply and_congr_right
    intro _
    constructor
    · rintro ⟨e, p, hp, hhash, -⟩
      exact ⟨p, hp, hhash⟩
    · rintro ⟨p, hp, hhash⟩
      exact ⟨_, p, hp, hhash, rfl⟩
  seen := by
    intro t ht
    obtain ⟨e, he, hleast⟩ := h.firstSeen t ht
    exact ⟨e, he, hleast, h.lastSeen t ht⟩
  known := by
    intro t ht o ho hblank path
    rw [rowCount_eq h.toWellKept ht, h.counts _ (h.hash_ne_empty ht), expected_known rfl]
    apply if_congr _ rfl rfl
    rw [List.mem_map]
    apply exists_congr
    intro p
    apply and_congr_right
    intro _
    rw [entry, Prod.mk.injEq, Prod.mk.injEq, rowidOf_eq_some_iff hids hrowids ho hblank]
  unknown := by
    intro t ht path
    rw [rowCount_eq h.toWellKept ht, h.counts _ (h.hash_ne_empty ht), expected_unknown rfl, List.count, List.countP_map]
    apply List.countP_congr
    intro p _
    rw [Function.comp_apply, beq_iff_eq, entry, Prod.mk.injEq, Prod.mk.injEq, rowidOf_eq_none_iff, decide_eq_true_iff]
  stored := by
    intro o ho
    obtain ⟨t, ht, hid⟩ := List.mem_map.mp (h.stored o ho)
    refine ⟨⟨t, ht, hid⟩, ?_⟩
    intro idx hidx
    have hentry : (db.hashOf o.transmissionID, o.observerIdx, o.pathJSON.getD "") ∈ db.entries := List.mem_map.mpr ⟨o, ho, rfl⟩
    have hne := entry_hash_ne_empty h hentry
    rw [← List.count_pos_iff, h.counts _ hne, ← mem_iff_expected_pos] at hentry
    obtain ⟨p, -, heq⟩ := List.mem_map.mp hentry
    rw [entry, Prod.mk.injEq, Prod.mk.injEq] at heq
    have hrow := heq.2.1.trans hidx
    rw [DB.rowidOf] at hrow
    split at hrow
    · cases hrow
    · next hblank =>
      obtain ⟨r, hr, hrowid⟩ := Option.map_eq_some_iff.mp hrow
      have hid : r.id = p.observerID := by simpa using List.find?_some hr
      exact ⟨r, List.mem_of_find?_eq_some hr, hid ▸ hblank, hrowid⟩

/-- Whatever the order of the calls: the tables hold what the packets come to. A packet that is handed over again changes
no transmission and no observation, but adds one where its observer is not known; and the same packets in another order
come to the same transmissions, with their first and last times, and to observations of the same. -/
theorem ingest_sums {observers : List ObserverRow} (hids : (observers.map fun o => o.id).Nodup)
    (hrowids : (observers.map fun o => o.rowid).Nodup) {calls : List (Env × PacketData)} (hcalls : ∀ c ∈ calls, Canonical c.2) :
    Sums observers (calls.map Prod.snd) ((DB.start observers).ingest calls) ∧
      (∀ c ∈ calls, ∀ env,
        (((DB.start observers).ingest calls).insertTransmission env c.2).2.transmissions =
            ((DB.start observers).ingest calls).transmissions ∧
          ∃ added, (((DB.start observers).ingest calls).insertTransmission env c.2).2.identities =
              ((DB.start observers).ingest calls).identities ++ added ∧
            added.length = if c.2.hash ≠ "" ∧ ¬Known observers c.2.observerID then 1 else 0) ∧
      ∀ calls', (calls'.map Prod.snd).Perm (calls.map Prod.snd) →
        ((DB.start observers).ingest calls').sightings.Perm ((DB.start observers).ingest calls).sightings ∧
          ((DB.start observers).ingest calls').entries.Perm ((DB.start observers).ingest calls).entries := by
  have hrun : ∀ calls' : List (Env × PacketData), (∀ c ∈ calls', Canonical c.2) →
      Ingested (DB.start observers).rowidOf ((DB.start observers).ingest calls') (calls'.map Prod.snd) :=
    fun calls' hcalls' => ingested_run (ingested_start observers) (fun _ hp => absurd hp List.not_mem_nil) hcalls'
  have hpackets : ∀ p ∈ calls.map Prod.snd, Canonical p := by
    intro p hp
    obtain ⟨c, hc, rfl⟩ := List.mem_map.mp hp
    exact hcalls c hc
  refine ⟨(hrun calls hcalls).sums hids hrowids, ?_, ?_⟩
  · intro c hc env
    obtain ⟨htable, added, hidentities, hlength⟩ :=
      insertTransmission_again env (hrun calls hcalls) hpackets (List.mem_map_of_mem hc)
    refine ⟨htable, added, hidentities, hlength.trans ?_⟩
    exact if_congr (and_congr_right fun _ => rowidOf_eq_none_iff) rfl rfl
  · intro calls' hperm
    have hcalls' : ∀ c ∈ calls', Canonical c.2 := fun c hc => hpackets c.2 (hperm.mem_iff.mp (List.mem_map_of_mem hc))
    exact ⟨sightings_perm (hrun calls' hcalls') (hrun calls hcalls) hperm, entries_perm (hrun calls' hcalls') (hrun calls hcalls) hperm⟩

def heardPacket (hash timestamp observerID : String) : PacketData where
  rawHex := "0A00D69F"
  timestamp := timestamp
  observerID := observerID
  snr := none
  rssi := none
  score := none
  direction := none
  hash := hash
  routeType := 2
  payloadType := 4
  payloadVersion := 0
  pathJSON := "[]"
  decodedJSON := "\x7b\x7d"
  channelHash := ""
  scopeName := ""
  isTransportScoped := false
  code1 := ""
  code2 := ""
  fromPubkey := ""

def quietEnv : Env := ⟨"2026-03-26T00:00:00Z", 1774483200, 1774483200, fun _ => ""⟩

/-- One packet from two observers, the later one first, and once more from the first. -/
def heardTwice : List (Env × PacketData) :=
  [(quietEnv, heardPacket "h1" "2026-03-25T00:00:05Z" "obs1"), (quietEnv, heardPacket "h1" "2026-03-25T00:00:00Z" "obs2"),
    (quietEnv, heardPacket "h1" "2026-03-25T00:00:05Z" "obs1")]

def twoObservers : List ObserverRow := [⟨1, "obs1", none, none⟩, ⟨2, "obs2", none, none⟩]

theorem canonical_of_stamp {e : Int} (hstamp : data.timestamp = stamp e) (hlow : firstStamp ≤ e) (hhigh : e ≤ lastStamp) :
    Canonical data :=
  ⟨e, hstamp, hlow, hhigh⟩

theorem ingest_sums_heardTwice : Sums twoObservers (heardTwice.map Prod.snd) ((DB.start twoObservers).ingest heardTwice) := by
  have hcalls : ∀ c ∈ heardTwice, Canonical c.2 := by
    rw [heardTwice, List.forall_mem_cons, List.forall_mem_cons, List.forall_mem_singleton]
    have hlate : Canonical (heardPacket "h1" "2026-03-25T00:00:05Z" "obs1") :=
      canonical_of_stamp (e := 1774396805) (by decide) (by decide) (by decide)
    have hearly : Canonical (heardPacket "h1" "2026-03-25T00:00:00Z" "obs2") :=
      canonical_of_stamp (e := 1774396800) (by decide) (by decide) (by decide)
    exact ⟨hlate, hearly, hlate⟩
  exact (ingest_sums (by decide) (by decide) hcalls).1

/-- Two packets without an observer are two observations of the same. -/
theorem blank_observer_twice : ¬∀ observers calls, (∀ c ∈ calls, Canonical c.2) →
    ((DB.start observers).ingest calls).entries.Nodup := by
  intro h
  have hnodup := h [] [(quietEnv, heardPacket "h1" "2026-03-25T00:00:00Z" ""), (quietEnv, heardPacket "h1" "2026-03-25T00:00:00Z" "")]
    (by
      rw [List.forall_mem_cons, List.forall_mem_singleton]
      have hblank : Canonical (heardPacket "h1" "2026-03-25T00:00:00Z" "") :=
        canonical_of_stamp (e := 1774396800) (by decide) (by decide) (by decide)
      exact ⟨hblank, hblank⟩)
  revert hnodup
  decide

end MeshcoreAnalyzer.Ingest

import MeshcoreAnalyzer.IngestTables
import MeshcoreAnalyzer.References
import MeshcoreAnalyzer.Cursors

namespace MeshcoreAnalyzer.IngestTables

open Upserts References
open Ingest (TransmissionRow ObservationRow PacketData Env epochSeconds)

theorem State.run_append (s : State) (steps more : List Step) : s.run (steps ++ more) = (s.run steps).run more :=
  List.foldl_append

/-- The columns that `InsertTransmission` reads and writes. -/
def Tables.db (t : Tables) : Ingest.DB where
  observers := t.observers.map fun o => ⟨o.rowid, o.id, o.lastSeen, o.lastPacketAt⟩
  transmissions := t.transmissions
  observations := t.observations

theorem Tables.rowidOf_db (t : Tables) (id : String) : t.db.rowidOf id = t.rowidOf id := by
  simp only [Ingest.DB.rowidOf, rowidOf, db, List.find?_map, Option.map_map]
  rfl

theorem Tables.db_touchObserver (t : Tables) (ingestNow : String) (rowid : Int) :
    (t.touchObserver ingestNow rowid).db = t.db.touchObserver ingestNow rowid := by
  simp only [Tables.touchObserver, db, Ingest.DB.touchObserver, update, List.map_map]
  congr 1
  apply List.map_congr_left
  intro o _
  simp only [Function.comp_apply]
  split <;> rfl

theorem recorded_alone (t : Tables) (env : Env) (data : PacketData)
    (htx : t.txSeq + 1 = Ingest.nextID (t.transmissions.map fun tx => tx.id)) :
    ∃ t' txID isNew, State.run ⟨t, some ⟨env, data, .looking⟩⟩ [.next true, .next true] =
        ⟨t', some ⟨env, data, .recorded txID⟩⟩ ∧
      t.db.recordTransmission env (Call.rxTime ⟨env, data, .looking⟩) data = (txID, isNew, t'.db) ∧
      t'.observations = t.observations ∧ t'.obsSeq = t.obsSeq := by
  cases htx' : t.transmissions.find? fun tx => tx.hash = data.hash with
  | some tx =>
      by_cases hearlier : Call.rxTime ⟨env, data, .looking⟩ < tx.firstSeen
      · refine ⟨t.updateFirstSeen (Call.rxTime ⟨env, data, .looking⟩) tx.id, tx.id, false, ?_, ?_, rfl, rfl⟩
        · have hrx : Call.rxTime ⟨env, data, .found (some (tx.id, tx.firstSeen))⟩ < tx.firstSeen := hearlier
          simp only [State.run, List.foldl_cons, List.foldl_nil, State.step, Call.next, Tables.lookup, htx', if_true,
            Option.map_some, hrx, decide_true, Bool.and_self]
          rfl
        · simp only [Ingest.DB.recordTransmission, Tables.db, htx', hearlier, if_true]
          rfl
      · refine ⟨t, tx.id, false, ?_, ?_, rfl, rfl⟩
        · have hrx : ¬ Call.rxTime ⟨env, data, .found (some (tx.id, tx.firstSeen))⟩ < tx.firstSeen := hearlier
          simp [State.run, State.step, Call.next, Tables.lookup, htx', hrx]
        · simp [Ingest.DB.recordTransmission, Tables.db, htx', hearlier]
  | none =>
      have hfree : (t.transmissions.any fun tx => tx.hash = data.hash) = false := by
        simpa [List.find?_eq_none] using htx'
      obtain ⟨t', ht'⟩ : ∃ t', t.insertTx env (Call.rxTime ⟨env, data, .looking⟩) data = some t' := by
        simp [Tables.insertTx, hfree]
      refine ⟨t', t'.txSeq, true, ?_, ?_, ?_⟩
      · have hinsert : t.insertTx env (Call.rxTime ⟨env, data, .found none⟩) data = some t' := ht'
        simp [State.run, State.step, Call.next, Tables.lookup, htx', hinsert]
      all_goals
        simp only [Tables.insertTx, hfree, Bool.false_eq_true, if_false, Option.some.injEq] at ht'
        subst ht'
      · simp only [Ingest.DB.recordTransmission, Tables.db, htx', htx]
      · exact ⟨rfl, rfl⟩

theorem touched_alone (t : Tables) (env : Env) (data : PacketData) (txID : Int) :
    ∃ t' idx, State.run ⟨t, some ⟨env, data, .recorded txID⟩⟩ [.next true, .next true] =
        ⟨t', some ⟨env, data, .touched txID idx⟩⟩ ∧
      t.db.resolveObserver env data.observerID = (idx, t'.db) ∧ t'.observations = t.observations ∧ t'.obsSeq = t.obsSeq := by
  cases hidx : t.rowidOf data.observerID with
  | none =>
      refine ⟨t, none, ?_, ?_, rfl, rfl⟩
      · simp [State.run, State.step, Call.next, hidx]
      · simp [Ingest.DB.resolveObserver, Tables.rowidOf_db, hidx]
  | some rowid =>
      refine ⟨t.touchObserver env.ingestNow rowid, some rowid, ?_, ?_, rfl, rfl⟩
      · simp [State.run, State.step, Call.next, hidx]
      · simp [Ingest.DB.resolveObserver, Tables.rowidOf_db, hidx, Tables.db_touchObserver]

theorem insertTransmission_alone {s : State} (hfree : s.holder = none) (env : Env) (data : PacketData)
    (htx : s.tables.txSeq + 1 = Ingest.nextID (s.tables.transmissions.map fun tx => tx.id))
    (hobs : s.tables.obsSeq + 1 = Ingest.nextID (s.tables.observations.map fun o => o.id)) :
    (s.run (.insertTransmission env data :: List.replicate 6 (.next true))).tables.db =
      (s.tables.db.insertTransmission env data).2 := by
  obtain ⟨t, holder⟩ := s
  cases hfree
  by_cases hhash : data.hash = ""
  · simp [State.run, State.step, Ingest.DB.insertTransmission, hhash, List.replicate]
  · obtain ⟨t', txID, isNew, hrecorded, hrecord, hobs', hseq'⟩ := recorded_alone t env data htx
    obtain ⟨t'', idx, htouched, hresolve, hobs'', hseq''⟩ := touched_alone t' env data txID
    have hrun : State.run ⟨t, none⟩ (.insertTransmission env data :: List.replicate 6 (.next true)) =
        State.run ⟨t'', some ⟨env, data, .touched txID idx⟩⟩ [.next true, .next true] := by
      rw [← htouched, ← State.run_append, List.cons_append, List.cons_append, List.nil_append]
      calc State.run ⟨t, none⟩ (.insertTransmission env data :: List.replicate 6 (.next true))
          = State.run ⟨t, some ⟨env, data, .looking⟩⟩ (List.replicate 6 (.next true)) := by
            simp [State.run, State.step, hhash]
        _ = State.run ⟨t', some ⟨env, data, .recorded txID⟩⟩ (List.replicate 4 (.next true)) := by
            rw [← hrecorded, ← State.run_append]
            rfl
    have hrow : t''.obsSeq + 1 = Ingest.nextID (t''.db.observations.map fun o => o.id) := by
      rw [hseq'', hseq', hobs]
      simp only [Tables.db, hobs'', hobs']
    have hend : (State.run ⟨t'', some ⟨env, data, .touched txID idx⟩⟩ [.next true, .next true]).tables =
        (t''.insertObservation env (Call.rxTime ⟨env, data, .looking⟩) data txID idx).bumpTxLastSeen
          (epochSeconds (Call.rxTime ⟨env, data, .looking⟩) env.observationUnix) txID := rfl
    rw [hrun, hend]
    rw [Call.rxTime] at hrecord ⊢
    simp only [Ingest.DB.insertTransmission, hhash, if_false, hrecord, hresolve, Ingest.DB.observationRow, ← hrow]
    rfl

/-- The observations as entries, of transmissions and of observers. -/
def Tables.register (t : Tables) : Register String String where
  sources := t.observers.map fun o => (o.rowid, o.id)
  subjects := t.transmissions.map fun tx => (tx.id, tx.hash)
  entries := t.observations.map fun o => ⟨o.id, o.transmissionID, o.observerIdx⟩
  lastSubject := t.txSeq
  lastEntry := t.obsSeq

variable {t t' : Tables}

theorem Tables.register_congr (hobservers : t'.observers.map (fun o => (o.rowid, o.id)) = t.observers.map fun o => (o.rowid, o.id))
    (htx : t'.transmissions.map (fun tx => (tx.id, tx.hash)) = t.transmissions.map fun tx => (tx.id, tx.hash))
    (hobs : t'.observations = t.observations) (htxSeq : t'.txSeq = t.txSeq) (hobsSeq : t'.obsSeq = t.obsSeq) :
    t'.register = t.register := by
  rw [register, register, hobservers, htx, hobs, htxSeq, hobsSeq]

theorem Tables.nextRowid_fresh (t : Tables) : t.nextRowid ∉ t.register.sources.map Prod.fst := by
  intro hmem
  have hrow : t.nextRowid ∈ t.observers.map fun o => o.rowid := by
    simpa [register, Function.comp_def] using hmem
  have := Cursors.le_foldl_max (k := 0) hrow
  rw [Tables.nextRowid] at this
  omega

theorem Tables.upsert_observers (t : Tables) (merge : Observer → Observer) (row : Observer)
    (hmerge : ∀ o, ((merge o).rowid, (merge o).id) = (o.rowid, o.id)) (hrow : row.rowid = t.nextRowid) :
    Relation.ReflGen Add t.register { t with observers := upsert (fun o => some o.id) merge row t.observers }.register := by
  have hmap : (upsert (fun o => some o.id) merge row t.observers).map (fun o => (o.rowid, o.id)) = _ :=
    map_upsert hmerge row t.observers
  split at hmap
  · rw [show Tables.register { t with observers := upsert (fun o => some o.id) merge row t.observers } = t.register from
      register_congr hmap rfl rfl rfl rfl]
  · apply Relation.ReflGen.single
    have hadd := Add.source t.register t.nextRowid row.id t.nextRowid_fresh
    rw [← hrow] at hadd
    simpa only [register, hmap] using hadd

theorem Tables.update_observers (t : Tables) (p : Observer → Bool) (f : Observer → Observer)
    (hf : ∀ o, ((f o).rowid, (f o).id) = (o.rowid, o.id)) :
    { t with observers := update p f t.observers }.register = t.register :=
  register_congr (map_update (fun o _ => hf o) t.observers) rfl rfl rfl rfl

theorem Tables.update_transmissions (t : Tables) (p : TransmissionRow → Bool) (f : TransmissionRow → TransmissionRow)
    (hf : ∀ tx, ((f tx).id, (f tx).hash) = (tx.id, tx.hash)) :
    { t with transmissions := update p f t.transmissions }.register = t.register :=
  register_congr rfl (map_update (fun tx _ => hf tx) t.transmissions) rfl rfl rfl

theorem add_of_eq (h : t'.register = t.register) : Relation.ReflGen Add t.register t'.register := by
  rw [h]

theorem Tables.insertTx_add {env : Env} {rxTime : String} {data : PacketData} (h : t.insertTx env rxTime data = some t') :
    Add t.register t'.register ∧ t'.register.Resolves t'.txSeq none := by
  rw [Tables.insertTx] at h
  split at h
  · cases h
  · cases h
    constructor
    · simpa [register] using Add.subject t.register data.hash
    · exact ⟨by simp [register], by simp⟩

theorem map_upsert_observation (row : ObservationRow) (rows : List ObservationRow) :
    (upsert ObservationRow.dedupKey row.fillIn row rows).map (fun o => (⟨o.id, o.transmissionID, o.observerIdx⟩ : Entry)) =
      if conflicts ObservationRow.dedupKey row rows then rows.map fun o => ⟨o.id, o.transmissionID, o.observerIdx⟩
      else (rows.map fun o => ⟨o.id, o.transmissionID, o.observerIdx⟩) ++ [⟨row.id, row.transmissionID, row.observerIdx⟩] := by
  refine map_upsert ?_ row rows
  exact fun _ => rfl

theorem Tables.insertObservation_add (t : Tables) (env : Env) (rxTime : String) (data : PacketData) {txID : Int}
    {observerIdx : Option Int} (h : t.register.Resolves txID observerIdx) :
    Add t.register (t.insertObservation env rxTime data txID observerIdx).register := by
  rw [Tables.insertObservation]
  generalize hrow : ({ id := t.obsSeq + 1, transmissionID := txID, observerIdx := observerIdx, .. } : ObservationRow) = row
  have hmap := map_upsert_observation row t.observations
  split at hmap
  · simpa only [register, hmap] using Add.skip t.register
  · subst hrow
    simpa only [register, hmap] using Add.entry t.register txID observerIdx h

theorem Tables.pruneOldPackets_drop (t : Tables) (cutoff : String) : Drop t.register (t.pruneOldPackets cutoff).register where
  sources := List.Sublist.refl _
  subjects := List.filter_sublist.map _
  entries := List.filter_sublist.map _
  lastSubject := rfl
  lastEntry := rfl
  subject_kept := by
    intro e he p hp heq
    obtain ⟨o, ho, rfl⟩ := List.mem_map.mp he
    obtain ⟨tx, htx, rfl⟩ := List.mem_map.mp hp
    have hkept := (List.mem_filter.mp ho).2
    simp only [Bool.not_eq_true', List.any_eq_false, Bool.and_eq_true, decide_eq_true_eq, not_and] at hkept
    exact List.mem_map_of_mem (List.mem_filter.mpr ⟨htx, by simpa using hkept tx htx heq⟩)
  source_kept := fun e he n hn p hp heq => hp

theorem Tables.purgeStaleObservers_drop (t : Tables) (cutoff : String) :
    Drop t.register (t.purgeStaleObservers cutoff).register where
  sources := List.filter_sublist.map _
  subjects := List.Sublist.refl _
  entries := List.Sublist.refl _
  lastSubject := rfl
  lastEntry := rfl
  subject_kept := fun e he p hp heq => hp
  source_kept := by
    intro e he n hn p hp heq
    obtain ⟨o, ho, rfl⟩ := List.mem_map.mp he
    obtain ⟨ob, hob, rfl⟩ := List.mem_map.mp hp
    have hrow : ob.rowid = n := heq
    -- the observation is a reference to the row
    have hreferenced : t.unreferenced ob = false := by
      have hany : (t.observations.any fun obs => obs.observerIdx = some ob.rowid) = true := by
        rw [List.any_eq_true]
        exact ⟨o, ho, by simpa [hrow] using hn⟩
      simp [unreferenced, hany]
    exact List.mem_map_of_mem (List.mem_filter.mpr ⟨hob, by simp [hreferenced]⟩)

def Call.Held (r : Register String String) (c : Call) : Prop :=
  match c.stage with
  | .looking => True
  | .found existing => ∀ e ∈ existing, r.Resolves e.1 none
  | .recorded txID => r.Resolves txID none
  | .resolved txID observerIdx => r.Resolves txID observerIdx
  | .touched txID observerIdx => r.Resolves txID observerIdx
  | .observed txID => r.Resolves txID none

theorem Call.Held.add {c : Call} {r r' : Register String String} (h : c.Held r) (ha : Relation.ReflGen Add r r') : c.Held r' := by
  obtain ⟨env, data, stage⟩ := c
  cases stage with
  | looking => trivial
  | found existing => exact fun e he => resolves_of_add ha (h e he)
  | recorded txID => exact resolves_of_add ha h
  | resolved txID observerIdx => exact resolves_of_add ha h
  | touched txID observerIdx => exact resolves_of_add ha h
  | observed txID => exact resolves_of_add ha h

theorem Tables.lookup_resolves {hash : String} : ∀ e ∈ t.lookup hash, t.register.Resolves e.1 none := by
  intro e he
  obtain ⟨tx, htx, rfl⟩ := Option.map_eq_some_iff.mp he
  exact ⟨List.mem_map.mpr ⟨_, List.mem_map_of_mem (List.mem_of_find?_eq_some htx), rfl⟩, by simp⟩

theorem Tables.rowidOf_mem {id : String} : ∀ n ∈ t.rowidOf id, n ∈ t.register.sources.map Prod.fst := by
  intro n hn
  rw [Tables.rowidOf] at hn
  split at hn
  · simp at hn
  · obtain ⟨o, ho, rfl⟩ := Option.map_eq_some_iff.mp hn
    exact List.mem_map.mpr ⟨_, List.mem_map_of_mem (List.mem_of_find?_eq_some ho), rfl⟩

theorem Call.next_add {c : Call} (h : c.Held t.register) (ok : Bool) :
    Relation.ReflGen Add t.register (c.next ok t).2.register ∧ ∀ c' ∈ (c.next ok t).1, c'.Held (c.next ok t).2.register := by
  obtain ⟨env, data, stage⟩ := c
  cases stage with
  | looking =>
      refine ⟨.refl, ?_⟩
      rintro c' ⟨⟩
      intro e he
      cases ok with
      | true => exact Tables.lookup_resolves e he
      | false => simp at he
  | found existing =>
      cases existing with
      | some e =>
          have hsame : (Call.next ok ⟨env, data, .found (some e)⟩ t).2.register = t.register := by
            simp only [Call.next]
            split
            · exact t.update_transmissions _ _ fun _ => rfl
            · rfl
          refine ⟨hsame ▸ .refl, ?_⟩
          rintro c' ⟨⟩
          exact hsame ▸ h e rfl
      | none =>
          simp only [Call.next]
          split
          · next t' ht' =>
              cases ok with
              | false => simp at ht'
              | true =>
                  have hadd := Tables.insertTx_add ht'
                  refine ⟨.single hadd.1, ?_⟩
                  rintro c' ⟨⟩
                  exact hadd.2
          · exact ⟨.refl, by simp⟩
  | recorded txID =>
      refine ⟨.refl, ?_⟩
      rintro c' ⟨⟩
      refine ⟨h.subject_mem, fun n hn => ?_⟩
      cases ok with
      | true => exact Tables.rowidOf_mem n hn
      | false => simp at hn
  | resolved txID observerIdx =>
      cases observerIdx with
      | none =>
          refine ⟨.refl, ?_⟩
          rintro c' ⟨⟩
          exact h
      | some rowid =>
          have hsame : (Call.next ok ⟨env, data, .resolved txID (some rowid)⟩ t).2.register = t.register := by
            simp only [Call.next]
            split
            · exact t.update_observers _ _ fun _ => rfl
            · rfl
          refine ⟨hsame ▸ .refl, ?_⟩
          rintro c' ⟨⟩
          exact hsame ▸ h
  | touched txID observerIdx =>
      cases ok with
      | false => exact ⟨.refl, by simp [Call.next]⟩
      | true =>
          have hadd := t.insertObservation_add env (Call.rxTime ⟨env, data, .touched txID observerIdx⟩) data h
          refine ⟨.single hadd, ?_⟩
          rintro c' ⟨⟩
          exact (hadd.resolves h).no_source
  | observed txID =>
      refine ⟨?_, by simp [Call.next]⟩
      simp only [Call.next]
      split
      · exact add_of_eq (t.update_transmissions _ _ fun _ => rfl)
      · exact .refl

structure State.Sound (s : State) : Prop where
  register : s.tables.register.Sound
  held : ∀ c ∈ s.holder, c.Held s.tables.register

variable {s : State}

theorem State.Sound.write (h : s.Sound) {f : Tables → Tables} (hf : Relation.ReflGen Add s.tables.register (f s.tables).register) :
    Moves s.tables.register (s.write f).tables.register ∧ (s.write f).Sound := by
  have hmoves := moves_of_add hf
  exact ⟨hmoves, Moves.sound h.register hmoves, fun c hc => (h.held c hc).add hf⟩

theorem State.Sound.locked (h : s.Sound) {f : Tables → Tables} (hf : Moves s.tables.register (f s.tables).register) :
    Moves s.tables.register (s.locked f).tables.register ∧ (s.locked f).Sound := by
  rw [State.locked]
  split
  · next hfree => exact ⟨hf, Moves.sound h.register hf, by simp [State.write, Option.isNone_iff_eq_none.mp hfree]⟩
  · exact ⟨.refl, h⟩

/-- A statement by itself: one that adds at most a row, or one that drops rows while nobody holds the lock. -/
inductive State.Plain (s s' : State) : Prop
  | write (f : Tables → Tables) (heq : s' = s.write f) (h : Relation.ReflGen Add s.tables.register (f s.tables).register)
      (hseq : (f s.tables).obsSeq = s.tables.obsSeq)
  | locked (f : Tables → Tables) (heq : s' = s.locked f) (h : Moves s.tables.register (f s.tables).register)
      (hseq : (f s.tables).obsSeq = s.tables.obsSeq)

def Step.isPlain : Step → Bool
  | .insertTransmission .. | .next _ | .restart => false
  | _ => true

theorem State.step_plain (s : State) {a : Step} (ha : a.isPlain) : s.Plain (s.step a) := by
  cases a with
  | insertTransmission env data => cases ha
  | next ok => cases ha
  | restart => cases ha
  | upsertObserver id name iata lastSeen ingestNow m => exact .write _ rfl (s.tables.upsert_observers _ _ (fun _ => rfl) rfl) rfl
  | reactivate id => exact .write _ rfl (add_of_eq (s.tables.update_observers _ _ fun _ => rfl)) rfl
  | upsertObserverRetained id name iata m =>
      exact .write _ rfl (add_of_eq (s.tables.update_observers _ _ fun _ => rfl)) rfl
  | recordNaiveSkew observerID deltaSec nowStr cutoff =>
      refine .write _ rfl ?_ ?_
      · rw [Tables.recordNaiveSkew]
        split
        · exact .refl
        · exact s.tables.upsert_observers _ _ (fun _ => rfl) rfl
      · rw [Tables.recordNaiveSkew]
        split <;> rfl
  | insertMetrics row => exact .write _ rfl .refl rfl
  | insertDroppedPacket row => exact .write _ rfl .refl rfl
  | pruneDroppedPackets cutoff => exact .write _ rfl .refl rfl
  | softDeleteBlacklistedObservers blacklist =>
      exact .write _ rfl (add_of_eq (s.tables.update_observers _ _ fun _ => rfl)) rfl
  | markStale cutoff => exact .locked _ rfl (moves_of_add (add_of_eq (s.tables.update_observers _ _ fun _ => rfl))) rfl
  | deleteInactiveMetrics => exact .locked _ rfl .refl rfl
  | purgeStaleObservers cutoff => exact .locked _ rfl (.single (.inr (s.tables.purgeStaleObservers_drop cutoff))) rfl
  | pruneOldMetrics cutoff => exact .locked _ rfl .refl rfl
  | pruneOldPackets cutoff => exact .locked _ rfl (.single (.inr (s.tables.pruneOldPackets_drop cutoff))) rfl

theorem State.Sound.plain (h : s.Sound) {s' : State} (hs' : s.Plain s') :
    Moves s.tables.register s'.tables.register ∧ s'.Sound := by
  cases hs' with
  | write f heq hf hseq => exact heq ▸ h.write hf
  | locked f heq hf hseq => exact heq ▸ h.locked hf

theorem State.Sound.step (h : s.Sound) (a : Step) :
    Moves s.tables.register (s.step a).tables.register ∧ (s.step a).Sound := by
  cases a with
  | insertTransmission env data =>
      rw [State.step]
      split
      · exact ⟨.refl, h.register, by rintro c ⟨⟩; trivial⟩
      · exact ⟨.refl, h⟩
  | next ok =>
      cases hc : s.holder with
      | none =>
          simp only [State.step, hc]
          exact ⟨.refl, h⟩
      | some c =>
          simp only [State.step, hc]
          have hnext := Call.next_add (h.held c hc) ok
          have hmoves := moves_of_add hnext.1
          exact ⟨hmoves, Moves.sound h.register hmoves, hnext.2⟩
  | restart => exact ⟨.refl, h.register, by simp [State.step]⟩
  | _ => exact h.plain (s.step_plain rfl)

theorem State.Sound.run (h : s.Sound) (steps : List Step) :
    Moves s.tables.register (s.run steps).tables.register ∧ (s.run steps).Sound := by
  induction steps generalizing s with
  | nil => exact ⟨.refl, h⟩
  | cons a steps ih =>
      have hstep := h.step a
      have hrun := ih hstep.2
      exact ⟨hstep.1.trans hrun.1, hrun.2⟩

def Tables.hashOf (t : Tables) (o : ObservationRow) : Option String :=
  (t.transmissions.find? fun tx => tx.id = o.transmissionID).map fun tx => tx.hash

/-- `LEFT JOIN observers obs ON obs.rowid = o.observer_idx` -/
def Tables.observerOf (t : Tables) (o : ObservationRow) : Option String :=
  o.observerIdx.bind fun idx => (t.observers.find? fun ob => ob.rowid = idx).map fun ob => ob.id

def Tables.entryOf (o : ObservationRow) : Entry := ⟨o.id, o.transmissionID, o.observerIdx⟩

theorem Tables.subjectOf_register (t : Tables) (o : ObservationRow) : t.register.subjectOf (entryOf o) = t.hashOf o := by
  rw [Register.subjectOf, named, register, List.find?_map, Option.map_map]
  rfl

theorem Tables.sourceOf_register (t : Tables) (o : ObservationRow) : t.register.sourceOf (entryOf o) = t.observerOf o := by
  simp only [Register.sourceOf, named, register, List.find?_map, Option.map_map]
  rfl

/-- Every observation has its packet, and its observer if it has the number of one; later it has the same ones. -/
structure Attributed (t later : Tables) : Prop where
  packet : ∀ o ∈ t.observations, (t.hashOf o).isSome
  observer : ∀ o ∈ t.observations, (t.observerOf o).isSome = o.observerIdx.isSome
  same : ∀ o ∈ t.observations, ∀ o' ∈ later.observations, o'.id = o.id →
    later.hashOf o' = t.hashOf o ∧ later.observerOf o' = t.observerOf o

theorem named_isSome {A : Type} {n : Int} {rows : List (Int × A)} (h : n ∈ rows.map Prod.fst) : (named n rows).isSome := by
  obtain ⟨p, hp, rfl⟩ := List.mem_map.mp h
  simpa [named] using ⟨p.2, hp⟩

/-- In whatever order the statements of the ingestor come, and wherever a call of `InsertTransmission` stops. -/
theorem attributed (h : s.Sound) (steps more : List Step) :
    Attributed (s.run steps).tables (s.run (steps ++ more)).tables := by
  have hsound := (h.run steps).2
  have hmore := hsound.run more
  rw [← State.run_append] at hmore
  have hentry : ∀ {t : Tables} {o : ObservationRow}, o ∈ t.observations → Tables.entryOf o ∈ t.register.entries :=
    fun ho => List.mem_map_of_mem ho
  constructor
  · intro o ho
    rw [← Tables.subjectOf_register]
    exact named_isSome (hsound.register.resolves _ (hentry ho)).subject_mem
  · intro o ho
    rw [← Tables.sourceOf_register]
    have hr := (hsound.register.resolves _ (hentry ho)).source_mem
    cases hidx : o.observerIdx with
    | none => simp [Register.sourceOf, Tables.entryOf, hidx]
    | some idx =>
        have hsome := named_isSome (hr idx (by simp [Tables.entryOf, hidx]))
        simpa [Register.sourceOf, Tables.entryOf, hidx] using hsome
  · intro o ho o' ho' hid
    have hsame := Moves.same hsound.register hmore.1 (hentry ho) (hentry ho') hid
    rw [Tables.subjectOf_register, Tables.subjectOf_register, Tables.sourceOf_register, Tables.sourceOf_register] at hsame
    exact hsame.2

def heardPacket : PacketData where
  rawHex := "11"
  timestamp := "2026-01-01T00:00:00Z"
  observerID := "A"
  snr := none
  rssi := none
  score := none
  direction := none
  hash := "h"
  routeType := 1
  payloadType := 4
  payloadVersion := 0
  pathJSON := "[]"
  decodedJSON := "\x7b\x7d"
  channelHash := ""
  scopeName := ""
  isTransportScoped := false
  code1 := ""
  code2 := ""
  fromPubkey := ""

def heardEnv : Env := ⟨"2026-01-01T00:00:00Z", 1767225600, 1767225600, fun _ => ""⟩

def heard : List Step :=
  .upsertObserver "A" "" "" "2026-01-01T00:00:00Z" "2026-01-01T00:00:00Z" {} :: .insertTransmission heardEnv heardPacket ::
    List.replicate 6 (.next true)

/-- The observer goes stale, and its packet goes; then the observer, whose number goes to the next one. -/
def replaced : List Step :=
  [.markStale "2027-01-01T00:00:00Z", .purgeStaleObservers "2027-01-01T00:00:00Z", .pruneOldPackets "2027-01-01T00:00:00Z",
    .purgeStaleObservers "2027-01-01T00:00:00Z",
    .upsertObserver "B" "" "" "2027-01-01T00:00:00Z" "2027-01-01T00:00:00Z" {}]

theorem sound_empty : State.Sound ⟨Tables.empty, none⟩ :=
  ⟨⟨List.nodup_nil, List.nodup_nil, List.nodup_nil, by simp [Tables.register, Tables.empty],
    by simp [Tables.register, Tables.empty], by simp [Tables.register, Tables.empty]⟩, by simp⟩

theorem attributed_replaced :
    (State.run ⟨Tables.empty, none⟩ heard).tables.observations.map (fun o => (o.id, o.observerIdx)) = [(1, some 1)] ∧
      (State.run ⟨Tables.empty, none⟩ (heard ++ replaced)).tables.observers.map (fun o => (o.rowid, o.id)) = [(1, "B")] ∧
      Attributed (State.run ⟨Tables.empty, none⟩ heard).tables (State.run ⟨Tables.empty, none⟩ (heard ++ replaced)).tables :=
  ⟨by decide, by decide, attributed sound_empty heard replaced⟩

/-- The numbers that the call has found are those of its packet and of its observer. -/
def Call.Knows (r : Register String String) (c : Call) : Prop :=
  match c.stage with
  | .found (some e) => named e.1 r.subjects = some c.data.hash
  | .recorded txID => named txID r.subjects = some c.data.hash
  | .resolved txID observerIdx | .touched txID observerIdx =>
      named txID r.subjects = some c.data.hash ∧ ∀ n ∈ observerIdx, named n r.sources = some c.data.observerID
  | _ => True

theorem Call.Knows.add {c : Call} {r r' : Register String String} (h : c.Knows r) (ha : Relation.ReflGen Add r r') :
    c.Knows r' := by
  cases ha with
  | refl => exact h
  | single ha =>
      obtain ⟨env, data, stage⟩ := c
      cases stage with
      | looking => trivial
      | found existing =>
          cases existing with
          | none => trivial
          | some e => exact ha.keeps.1 _ h
      | recorded txID => exact ha.keeps.1 _ h
      | resolved txID observerIdx => exact ⟨ha.keeps.1 _ h.1, fun n hn => ha.keeps.2 _ (h.2 n hn)⟩
      | touched txID observerIdx => exact ⟨ha.keeps.1 _ h.1, fun n hn => ha.keeps.2 _ (h.2 n hn)⟩
      | observed txID => trivial

theorem Tables.lookup_named (hs : t.register.Sound) {hash : String} :
    ∀ e ∈ t.lookup hash, named e.1 t.register.subjects = some hash := by
  intro e he
  obtain ⟨tx, htx, rfl⟩ := Option.map_eq_some_iff.mp he
  have hhash : tx.hash = hash := by simpa using List.find?_some htx
  have hmem : (tx.id, tx.hash) ∈ t.register.subjects := List.mem_map_of_mem (List.mem_of_find?_eq_some htx)
  rw [named_of_mem hs.subjects_nodup hmem, hhash]

theorem Tables.rowidOf_named (hs : t.register.Sound) {id : String} :
    ∀ n ∈ t.rowidOf id, named n t.register.sources = some id := by
  intro n hn
  rw [Tables.rowidOf] at hn
  split at hn
  · simp at hn
  · obtain ⟨o, ho, rfl⟩ := Option.map_eq_some_iff.mp hn
    have hid : o.id = id := by simpa using List.find?_some ho
    have hmem : (o.rowid, o.id) ∈ t.register.sources := List.mem_map_of_mem (List.mem_of_find?_eq_some ho)
    rw [named_of_mem hs.sources_nodup hmem, hid]

theorem Tables.insertTx_named (hs : t.register.Sound) {env : Env} {rxTime : String} {data : PacketData}
    (h : t.insertTx env rxTime data = some t') : named t'.txSeq t'.register.subjects = some data.hash := by
  have hsound : t'.register.Sound := Add.sound hs (insertTx_add h).1
  rw [Tables.insertTx] at h
  split at h
  · cases h
  · cases h
    exact named_of_mem hsound.subjects_nodup (p := (t.txSeq + 1, data.hash)) (by simp [register])

theorem Call.next_knows (hs : t.register.Sound) {c : Call} (hheld : c.Held t.register) (h : c.Knows t.register) (ok : Bool) :
    ∀ c' ∈ (c.next ok t).1, c'.data = c.data ∧ c'.Knows (c.next ok t).2.register := by
  have hadd := (Call.next_add hheld ok).1
  obtain ⟨env, data, stage⟩ := c
  cases stage with
  | looking =>
      rintro c' ⟨⟩
      refine ⟨rfl, ?_⟩
      cases hfound : (if ok then t.lookup data.hash else none) with
      | none => simp only [Call.Knows]
      | some e =>
          simp only [Call.Knows]
          cases ok with
          | true => exact Tables.lookup_named hs e hfound
          | false => cases hfound
  | found existing =>
      cases existing with
      | some e =>
          rintro c' ⟨⟩
          exact ⟨rfl, Call.Knows.add (c := ⟨env, data, .recorded e.1⟩) h hadd⟩
      | none =>
          simp only [Call.next]
          split
          · next t' ht' =>
              rintro c' ⟨⟩
              cases ok with
              | true => exact ⟨rfl, Tables.insertTx_named hs ht'⟩
              | false => cases ht'
          · simp
  | recorded txID =>
      rintro c' ⟨⟩
      refine ⟨rfl, h, fun n hn => ?_⟩
      cases ok with
      | true => exact Tables.rowidOf_named hs n hn
      | false => simp at hn
  | resolved txID observerIdx =>
      cases observerIdx with
      | none =>
          rintro c' ⟨⟩
          exact ⟨rfl, h⟩
      | some rowid =>
          rintro c' ⟨⟩
          exact ⟨rfl, Call.Knows.add (c := ⟨env, data, .touched txID (some rowid)⟩) h hadd⟩
  | touched txID observerIdx =>
      cases ok with
      | false => simp [Call.next]
      | true =>
          rintro c' ⟨⟩
          exact ⟨rfl, trivial⟩
  | observed txID => simp [Call.next]

theorem Call.next_obsSeq (c : Call) (ok : Bool) (t : Tables) :
    (c.next ok t).2.obsSeq = t.obsSeq ∨ ∃ txID observerIdx, c.stage = .touched txID observerIdx ∧
      (c.next ok t).2 = t.insertObservation c.env c.rxTime c.data txID observerIdx := by
  obtain ⟨env, data, stage⟩ := c
  cases stage with
  | looking => exact .inl rfl
  | found existing =>
      cases existing with
      | some e =>
          simp only [Call.next]
          split <;> exact .inl rfl
      | none =>
          simp only [Call.next]
          split
          · next t' ht' =>
              cases ok with
              | true =>
                  simp only [Tables.insertTx, if_true] at ht'
                  split at ht'
                  · cases ht'
                  · cases ht'
                    exact .inl rfl
              | false => cases ht'
          · exact .inl rfl
  | recorded txID => exact .inl rfl
  | resolved txID observerIdx =>
      cases observerIdx with
      | none => exact .inl rfl
      | some rowid =>
          simp only [Call.next]
          split <;> exact .inl rfl
  | touched txID observerIdx =>
      cases ok with
      | true => exact .inr ⟨txID, observerIdx, rfl, rfl⟩
      | false => exact .inl rfl
  | observed txID =>
      simp only [Call.next]
      split <;> exact .inl rfl

theorem Tables.insertObservation_entries (t : Tables) (env : Env) (rxTime : String) (data : PacketData) (txID : Int)
    (observerIdx : Option Int) : ∀ e ∈ (t.insertObservation env rxTime data txID observerIdx).register.entries,
      e ∈ t.register.entries ∨ e = ⟨t.obsSeq + 1, txID, observerIdx⟩ := by
  rw [Tables.insertObservation]
  generalize hrow : ({ id := t.obsSeq + 1, transmissionID := txID, observerIdx := observerIdx, .. } : ObservationRow) = row
  have hmap := map_upsert_observation row t.observations
  intro e he
  simp only [register, hmap] at he
  split at he
  · exact .inl he
  · subst hrow
    exact (List.mem_append.mp he).imp id List.mem_singleton.mp

def Credit (P : PacketData → Prop) (hash : String) (observerID : Option String) : Prop :=
  ∃ data, P data ∧ data.hash = hash ∧ ∀ x ∈ observerID, x = data.observerID

structure State.Credited (P : PacketData → Prop) (last : Int) (s : State) : Prop where
  sound : s.Sound
  knows : ∀ c ∈ s.holder, P c.data ∧ c.Knows s.tables.register
  credits : s.tables.register.Credits (Credit P) last

variable {P : PacketData → Prop} {last : Int}

theorem State.Sound.credit_start (h : s.Sound) (hknows : ∀ c ∈ s.holder, P c.data ∧ c.Knows s.tables.register) :
    s.Credited P s.tables.obsSeq :=
  ⟨h, hknows, fun e he hlt => absurd (h.register.entry_le e he) (Int.not_le.mpr hlt)⟩

theorem credits_of_seq {s' : State} (h : s.Credited P last) (hmoves : Moves s.tables.register s'.tables.register) (hs' : s'.Sound)
    (hseq : s'.tables.obsSeq = s.tables.obsSeq) : s'.tables.register.Credits (Credit P) last := by
  refine (Moves.continues h.sound.register hmoves).credits h.credits ?_
  intro e he hlt
  have hle : e.id ≤ s.tables.obsSeq := (hs'.register.entry_le e he).trans_eq hseq
  exact absurd hle (Int.not_le.mpr hlt)

theorem State.Credited.plain (h : s.Credited P last) {s' : State} (hs' : s.Plain s') : s'.Credited P last := by
  have hsound := h.sound.plain hs'
  cases hs' with
  | write f heq hf hseq =>
      subst heq
      exact ⟨hsound.2, fun c hc => ⟨(h.knows c hc).1, (h.knows c hc).2.add hf⟩, credits_of_seq h hsound.1 hsound.2 hseq⟩
  | locked f heq hf hseq =>
      subst heq
      rw [State.locked] at hsound ⊢
      split
      · next hfree =>
          rw [if_pos hfree] at hsound
          refine ⟨hsound.2, ?_, credits_of_seq h hsound.1 hsound.2 hseq⟩
          simp [State.write, Option.isNone_iff_eq_none.mp hfree]
      · exact h

theorem State.Credited.next (h : s.Credited P last) {c : Call} (hc : s.holder = some c) (ok : Bool) :
    State.Credited P last ⟨(c.next ok s.tables).2, (c.next ok s.tables).1⟩ := by
  obtain ⟨hp, hknows⟩ := h.knows c hc
  have hheld := h.sound.held c hc
  have hstep := h.sound.step (.next ok)
  simp only [State.step, hc] at hstep
  have hnext := Call.next_knows h.sound.register hheld hknows ok
  refine ⟨hstep.2, fun c' hc' => ⟨(hnext c' hc').1 ▸ hp, (hnext c' hc').2⟩, ?_⟩
  rcases c.next_obsSeq ok s.tables with hseq | ⟨txID, observerIdx, hstage, heq⟩
  · exact credits_of_seq h hstep.1 hstep.2 hseq
  · refine (Moves.continues h.sound.register hstep.1).credits h.credits ?_
    intro e he hlt
    simp only [heq] at he ⊢
    rcases s.tables.insertObservation_entries _ _ _ _ _ e he with he | rfl
    · exact absurd (h.sound.register.entry_le e he) (Int.not_le.mpr hlt)
    · simp only [Call.Knows, hstage] at hknows
      refine ⟨c.data.hash, hknows.1, c.data, hp, rfl, ?_⟩
      intro x hx
      cases observerIdx with
      | none => cases hx
      | some n => exact Option.some.inj (hx.symm.trans (hknows.2 n rfl))

theorem State.Credited.step (h : s.Credited P last) (a : Step) (ha : ∀ env data, a = .insertTransmission env data → P data) :
    (s.step a).Credited P last := by
  cases a with
  | insertTransmission env data =>
      rw [State.step]
      split
      · exact ⟨⟨h.sound.register, by rintro c ⟨⟩; trivial⟩, by rintro c ⟨⟩; exact ⟨ha env data rfl, trivial⟩, h.credits⟩
      · exact h
  | next ok =>
      cases hc : s.holder with
      | none =>
          simp only [State.step, hc]
          exact h
      | some c =>
          simp only [State.step, hc]
          exact h.next hc ok
  | restart => exact ⟨(h.sound.step .restart).2, by simp [State.step], h.credits⟩
  | _ => exact h.plain (s.step_plain rfl)

end MeshcoreAnalyzer.IngestTables

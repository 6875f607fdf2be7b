import MeshcoreAnalyzer.Attribution
import MeshcoreAnalyzer.Runs

namespace MeshcoreAnalyzer.IngestTables

open Upserts References Runs
open Ingest (PacketData Env)

variable {x : String} {t : Tables} {s : State}

/-- When the observer was last seen, and whether it is listed. -/
def Tables.life (x : String) (t : Tables) : Option (Option String × Bool) :=
  (t.observers.find? fun o => o.id = x).map fun o => (o.lastSeen, o.listed)

theorem Tables.life_update (t : Tables) (p : Observer → Bool) (f : Observer → Observer) (hid : ∀ o, (f o).id = o.id) :
    { t with observers := update p f t.observers }.life x =
      (t.observers.find? fun o => o.id = x).map fun o => if p o then ((f o).lastSeen, (f o).listed) else (o.lastSeen, o.listed) := by
  rw [life, find?_update_map (fun o => by rw [hid]), Option.map_map]
  apply Option.map_congr
  intro o _
  simp only [Function.comp_apply]
  split <;> rfl

theorem Tables.life_update_eq (t : Tables) {p : Observer → Bool} {f : Observer → Observer} (hid : ∀ o, (f o).id = o.id)
    (h : ∀ o ∈ t.observers, o.id = x → p o → (f o).lastSeen = o.lastSeen ∧ (f o).listed = o.listed) :
    { t with observers := update p f t.observers }.life x = t.life x := by
  rw [life_update t p f hid, life]
  apply Option.map_congr
  intro o ho
  split
  · next hp =>
      have hkept := h o (List.mem_of_find?_eq_some ho) (by simpa using List.find?_some ho) hp
      rw [hkept.1, hkept.2]
  · rfl

theorem Tables.life_upsert (t : Tables) (merge : Observer → Observer) (row : Observer) (hid : ∀ o, (merge o).id = o.id) :
    { t with observers := upsert (fun o => some o.id) merge row t.observers }.life x =
      if row.id = x then
        some (((t.observers.find? fun o => o.id = x).elim row merge).lastSeen,
          ((t.observers.find? fun o => o.id = x).elim row merge).listed)
      else t.life x := by
  have hfind := @find?_upsert Observer String _ (fun o => some o.id) merge (fun o => congrArg some (hid o)) row t.observers x
  simp only [Option.some.injEq] at hfind
  rw [life, hfind]
  split <;> rfl

theorem Tables.life_upsert_of_ne (t : Tables) {merge : Observer → Observer} {row : Observer} (hid : ∀ o, (merge o).id = o.id)
    (hne : row.id ≠ x) : { t with observers := upsert (fun o => some o.id) merge row t.observers }.life x = t.life x := by
  rw [life_upsert t merge row hid, if_neg hne]

theorem later_now (last : Option String) (now : String) : later last now now = now := max_eq_right (min_le_right _ _)

theorem Tables.life_upsertObserver (t : Tables) (name iata now : String) (m : MetaColumns) :
    ((t.upsertObserver x name iata now now m).life x).map Prod.fst = some (some now) := by
  rw [Tables.upsertObserver, life_upsert]
  · cases hfind : t.observers.find? fun o => o.id = x with
    | none => simp [Observer.describe]
    | some o => simp [Observer.describe, later_now]
  · exact fun _ => rfl

theorem Tables.life_reactivate (t : Tables) : (t.reactivate x).life x = (t.life x).map fun p => (p.1, true) := by
  rw [Tables.reactivate, life_update, life, Option.map_map]
  · apply Option.map_congr
    intro o ho
    have hid : o.id = x := by simpa using List.find?_some ho
    by_cases hin : o.inactive = some true <;> simp [hid, Observer.listed, hin]
  · exact fun _ => rfl

theorem Tables.life_markStale (t : Tables) (cutoff : String) :
    (t.markStale cutoff).life x = (t.life x).map fun p => (p.1, p.2 && !p.1.any (· < cutoff)) := by
  rw [Tables.markStale, life_update, life, Option.map_map]
  · apply Option.map_congr
    intro o _
    have hdark : ({ o with inactive := some true } : Observer).listed = false := rfl
    cases hlisted : o.listed <;> cases hseen : o.seenBefore cutoff <;>
      simp_all [Observer.seenBefore]
  · exact fun _ => rfl

theorem Tables.life_softDelete (t : Tables) (blacklist : List String) :
    (t.softDeleteBlacklistedObservers blacklist).life x =
      (t.life x).map fun p => (p.1, p.2 && !blacklist.any fun pk => x.toLower = pk.toLower) := by
  rw [Tables.softDeleteBlacklistedObservers, life_update, life, Option.map_map]
  · apply Option.map_congr
    intro o ho
    have hid : o.id = x := by simpa using List.find?_some ho
    subst hid
    have hdark : ({ o with inactive := some true } : Observer).listed = false := rfl
    rw [Function.comp_apply, hdark]
    cases hlisted : o.listed <;> cases hany : (blacklist.any fun pk => decide (o.id.toLower = pk.toLower)) <;> simp
  · exact fun _ => rfl

theorem Tables.life_purge (t : Tables) (cutoff : String) (hkeyed : (t.observers.map fun o => o.id).Nodup) :
    (t.purgeStaleObservers cutoff).life x = t.life x ∨
      (t.purgeStaleObservers cutoff).life x = none ∧ ∃ c, t.life x = some (some c, false) ∧ c < cutoff := by
  rw [life, life, Tables.purgeStaleObservers, find?_filter_of_nodup hkeyed]
  cases hfind : t.observers.find? fun o => o.id = x with
  | none => exact .inl rfl
  | some o =>
      cases hpurged : !o.listed && o.seenBefore cutoff && t.unreferenced o with
      | false => exact .inl (by simp [Option.filter, hpurged])
      | true =>
          simp only [Bool.and_eq_true, Bool.not_eq_true'] at hpurged
          obtain ⟨⟨hlisted, hseen⟩, href⟩ := hpurged
          obtain ⟨c, hc, hlt⟩ := (Option.any_eq_true ..).mp hseen
          refine .inr ⟨by simp [Option.filter, hlisted, hseen, href], c, ?_, of_decide_eq_true hlt⟩
          simp [hc, hlisted]

def Tables.Keyed (t : Tables) : Prop := (t.observers.map fun o => o.id).Nodup

theorem Tables.Keyed.update (h : t.Keyed) (p : Observer → Bool) {f : Observer → Observer} (hid : ∀ o, (f o).id = o.id) :
    Tables.Keyed { t with observers := Upserts.update p f t.observers } := by
  rw [Keyed, map_update (v := fun o : Observer => o.id) fun o _ => hid o]
  exact h

theorem Tables.Keyed.upsert (h : t.Keyed) {merge : Observer → Observer} (row : Observer) (hid : ∀ o, (merge o).id = o.id) :
    Tables.Keyed { t with observers := Upserts.upsert (fun o => some o.id) merge row t.observers } := by
  rw [Keyed, map_upsert (v := fun o : Observer => o.id) hid]
  split
  · exact h
  · next hfree =>
      simp only [List.nodup_append, List.nodup_singleton, List.mem_singleton, true_and]
      refine ⟨h, ?_⟩
      rintro id hmem _ rfl heq
      obtain ⟨o, ho, hoid⟩ := List.mem_map.mp hmem
      exact hfree (conflicts_iff.mpr ⟨o, ho, row.id, congrArg some (hoid.trans heq), rfl⟩)

structure State.Good (s : State) : Prop extends s.Sound where
  keyed : s.tables.Keyed
  knows : ∀ c ∈ s.holder, c.Knows s.tables.register

theorem keyed_locked {f : Tables → Tables} (h : s.tables.Keyed) (hf : (f s.tables).Keyed) : (s.locked f).tables.Keyed := by
  rw [State.locked]
  split
  · exact hf
  · exact h

theorem Call.next_keyed {c : Call} (h : t.Keyed) (ok : Bool) : (c.next ok t).2.Keyed := by
  obtain ⟨env, data, stage⟩ := c
  cases stage with
  | looking => exact h
  | found existing =>
      cases existing with
      | some e =>
          simp only [Call.next]
          split <;> exact h
      | none =>
          simp only [Call.next]
          split
          · next t' ht' =>
              cases ok with
              | false => simp at ht'
              | true =>
                  simp only [if_true, Tables.insertTx, Option.ite_none_left_eq_some, Option.some.injEq] at ht'
                  exact ht'.2 ▸ h
          · exact h
  | recorded txID => exact h
  | resolved txID observerIdx =>
      cases observerIdx with
      | none => exact h
      | some rowid =>
          simp only [Call.next]
          split
          · exact h.update _ fun _ => rfl
          · exact h
  | touched txID observerIdx => cases ok <;> exact h
  | observed txID =>
      simp only [Call.next]
      split <;> exact h

theorem keyed_step (h : s.tables.Keyed) (a : Step) : (s.step a).tables.Keyed := by
  cases a with
  | insertTransmission env data =>
      rw [State.step]
      split <;> exact h
  | next ok =>
      cases hc : s.holder with
      | none =>
          simp only [State.step, hc]
          exact h
      | some c =>
          simp only [State.step, hc]
          exact Call.next_keyed h ok
  | upsertObserver id name iata lastSeen ingestNow m => exact h.upsert _ fun _ => rfl
  | reactivate id => exact h.update _ fun _ => rfl
  | upsertObserverRetained id name iata m => exact h.update _ fun _ => rfl
  | recordNaiveSkew observerID deltaSec nowStr cutoff =>
      rw [State.step, State.write, Tables.recordNaiveSkew]
      split
      · exact h
      · exact h.upsert _ fun _ => rfl
  | softDeleteBlacklistedObservers blacklist => exact h.update _ fun _ => rfl
  | markStale cutoff => exact keyed_locked h (h.update _ fun _ => rfl)
  | deleteInactiveMetrics => exact keyed_locked h h
  | purgeStaleObservers cutoff => exact keyed_locked h (h.sublist (List.filter_sublist.map _))
  | pruneOldMetrics cutoff => exact keyed_locked h h
  | pruneOldPackets cutoff => exact keyed_locked h h
  | _ => exact h

theorem State.Good.step (h : s.Good) (a : Step) : (s.step a).Good := by
  have hknows := h.toSound.credit_start (P := fun _ => True) fun c hc => ⟨trivial, h.knows c hc⟩
  have hstep := hknows.step a fun _ _ _ => trivial
  exact { hstep.sound with keyed := keyed_step h.keyed a, knows := fun c hc => (hstep.knows c hc).2 }

theorem State.Good.run (h : s.Good) (steps : List Step) : (s.run steps).Good := foldl_invariant h fun _ a _ hs => hs.step a

/-- The statements that a live message of the observer leads to. -/
def Step.Live (x : String) : Step → Prop
  | .insertTransmission _ data => data.observerID = x
  | .upsertObserver id _ _ _ _ _ => id = x
  | .reactivate id => id = x
  | .recordNaiveSkew observerID _ _ _ => observerID = x
  | _ => False

def strikes (x : String) (last : Option String) (s : State) : Step → Bool
  | .markStale cutoff => s.holder.isNone && last.any (· < cutoff)
  | .softDeleteBlacklistedObservers blacklist => blacklist.any fun pk => x.toLower = pk.toLower
  | _ => false

def Dark (x : String) (s : State) : Prop := ∀ p ∈ s.tables.life x, p.2 = false

/-- The call that holds the lock, if there is one, is not of the observer. -/
def Other (x : String) (s : State) : Prop := ∀ c ∈ s.holder, c.data.observerID ≠ x

theorem Call.next_data {c : Call} (ok : Bool) : ∀ c' ∈ (c.next ok t).1, c'.data = c.data := by
  obtain ⟨env, data, stage⟩ := c
  intro c' hc'
  cases stage with
  | found existing =>
      cases existing with
      | some e => cases hc'; rfl
      | none =>
          simp only [Call.next] at hc'
          split at hc'
          · cases hc'; rfl
          · simp at hc'
  | resolved txID observerIdx => cases observerIdx <;> cases hc' <;> rfl
  | touched txID observerIdx =>
      cases ok with
      | false => simp [Call.next] at hc'
      | true => cases hc'; rfl
  | observed txID => simp [Call.next] at hc'
  | _ => cases hc'; rfl

theorem State.locked_holder (s : State) (f : Tables → Tables) : (s.locked f).holder = s.holder := by
  rw [State.locked]
  split <;> rfl

theorem Other.step (h : Other x s) {a : Step} (ha : ¬ a.Live x) : Other x (s.step a) := by
  cases a with
  | insertTransmission env data =>
      rw [State.step]
      split
      · rintro c ⟨⟩
        exact ha
      · exact h
  | next ok =>
      cases hc : s.holder with
      | none =>
          simp only [State.step, hc]
          exact h
      | some c =>
          simp only [State.step, hc, Other]
          intro c' hc'
          rw [Call.next_data ok c' hc']
          exact h c hc
  | restart => simp [Other, State.step]
  | markStale cutoff => exact fun c hc => h c (s.locked_holder _ ▸ hc)
  | deleteInactiveMetrics => exact fun c hc => h c (s.locked_holder _ ▸ hc)
  | purgeStaleObservers cutoff => exact fun c hc => h c (s.locked_holder _ ▸ hc)
  | pruneOldMetrics cutoff => exact fun c hc => h c (s.locked_holder _ ▸ hc)
  | pruneOldPackets cutoff => exact fun c hc => h c (s.locked_holder _ ▸ hc)
  | _ => exact h

theorem Call.life_next {c : Call} (hs : t.register.Sound) (hknows : c.Knows t.register) (hother : c.data.observerID ≠ x) (ok : Bool) :
    (c.next ok t).2.life x = t.life x := by
  obtain ⟨env, data, stage⟩ := c
  cases stage with
  | found existing =>
      cases existing with
      | some e =>
          simp only [Call.next]
          split <;> rfl
      | none =>
          simp only [Call.next]
          split
          · next t' ht' =>
              cases ok with
              | false => simp at ht'
              | true =>
                  simp only [if_true, Tables.insertTx, Option.ite_none_left_eq_some, Option.some.injEq] at ht'
                  exact ht'.2 ▸ rfl
          · rfl
  | resolved txID observerIdx =>
      cases observerIdx with
      | none => rfl
      | some rowid =>
          simp only [Call.next]
          split
          · refine t.life_update_eq ?_ ?_
            · exact fun _ => rfl
            intro o ho hid hrow
            have hnamed := named_of_mem (p := (o.rowid, o.id)) hs.sources_nodup
              (List.mem_map_of_mem (f := fun o : Observer => (o.rowid, o.id)) ho)
            have hrowid : o.rowid = rowid := by simpa using hrow
            rw [hrowid] at hnamed
            exact absurd (Option.some.inj ((hknows.2 rowid rfl).symm.trans hnamed)) (hid ▸ hother)
          · rfl
  | touched txID observerIdx => cases ok <;> rfl
  | observed txID =>
      simp only [Call.next]
      split <;> rfl
  | _ => rfl

theorem life_locked (f : Tables → Tables) (s : State) :
    (s.locked f).tables.life x = if s.holder.isNone then (f s.tables).life x else s.tables.life x := by
  rw [State.locked]
  split <;> rfl

theorem life_step (h : s.Good) (hother : Other x s) {a : Step} (ha : ¬ a.Live x) :
    (s.step a).tables.life x = (s.tables.life x).map (fun p => (p.1, p.2 && !strikes x p.1 s a)) ∨
      (s.step a).tables.life x = none ∧ ∃ cutoff c, a = .purgeStaleObservers cutoff ∧
        s.tables.life x = some (some c, false) ∧ c < cutoff := by
  have hsame : ∀ {life : Option (Option String × Bool)}, life = s.tables.life x → (∀ last, strikes x last s a = false) →
      life = (s.tables.life x).map (fun p => (p.1, p.2 && !strikes x p.1 s a)) := by
    intro life hlife hstrikes
    simp [hlife, hstrikes]
  cases a with
  | insertTransmission env data =>
      refine .inl (hsame ?_ fun _ => rfl)
      rw [State.step]
      split <;> rfl
  | next ok =>
      refine .inl (hsame ?_ fun _ => rfl)
      cases hc : s.holder with
      | none => simp only [State.step, hc]
      | some c =>
          simp only [State.step, hc]
          exact Call.life_next h.register (h.knows c hc) (hother c hc) ok
  | restart => exact .inl (hsame rfl fun _ => rfl)
  | upsertObserver id name iata lastSeen ingestNow m =>
      refine .inl (hsame ?_ fun _ => rfl)
      refine s.tables.life_upsert_of_ne ?_ ha
      exact fun _ => rfl
  | reactivate id =>
      refine .inl (hsame ?_ fun _ => rfl)
      refine s.tables.life_update_eq ?_ ?_
      · exact fun _ => rfl
      · intro o _ hid hp
        simp only [Bool.and_eq_true, decide_eq_true_eq] at hp
        exact absurd (hp.1.symm.trans hid) ha
  | upsertObserverRetained id name iata m =>
      refine .inl (hsame ?_ fun _ => rfl)
      refine s.tables.life_update_eq ?_ ?_
      · exact fun _ => rfl
      · exact fun _ _ _ _ => ⟨rfl, rfl⟩
  | recordNaiveSkew observerID deltaSec nowStr cutoff =>
      refine .inl (hsame ?_ fun _ => rfl)
      rw [State.step, State.write, Tables.recordNaiveSkew]
      split
      · rfl
      · refine s.tables.life_upsert_of_ne ?_ ha
        exact fun _ => rfl
  | softDeleteBlacklistedObservers blacklist => exact .inl (s.tables.life_softDelete blacklist)
  | markStale cutoff =>
      left
      rw [State.step, life_locked]
      split
      · next hfree => simpa [strikes, hfree] using s.tables.life_markStale cutoff
      · next hheld => simp [strikes, hheld]
  | purgeStaleObservers cutoff =>
      rw [State.step, life_locked]
      split
      · rcases s.tables.life_purge cutoff h.keyed with hkept | ⟨hgone, c, hlife, hlt⟩
        · exact .inl (hsame hkept fun _ => rfl)
        · exact .inr ⟨hgone, cutoff, c, rfl, hlife, hlt⟩
      · exact .inl (hsame rfl fun _ => rfl)
  | deleteInactiveMetrics =>
      refine .inl (hsame ?_ fun _ => rfl)
      rw [State.step, life_locked]
      split <;> rfl
  | pruneOldMetrics cutoff =>
      refine .inl (hsame ?_ fun _ => rfl)
      rw [State.step, life_locked]
      split <;> rfl
  | pruneOldPackets cutoff =>
      refine .inl (hsame ?_ fun _ => rfl)
      rw [State.step, life_locked]
      split <;> rfl
  | insertMetrics row => exact .inl (hsame rfl fun _ => rfl)
  | insertDroppedPacket row => exact .inl (hsame rfl fun _ => rfl)
  | pruneDroppedPackets cutoff => exact .inl (hsame rfl fun _ => rfl)

def Strikes (x : String) (last : Option String) (s : State) (a : Step) : Prop := strikes x last s a = true

variable {steps : List Step}

theorem Dark.step (hdark : Dark x s) (h : s.Good) (hother : Other x s) {a : Step} (ha : ¬ a.Live x) : Dark x (s.step a) := by
  intro p hp
  rcases life_step h hother ha with hlife | ⟨hgone, _⟩
  · rw [hlife] at hp
    obtain ⟨q, hq, rfl⟩ := Option.map_eq_some_iff.mp hp
    simp [hdark q hq]
  · rw [hgone] at hp
    simp at hp

theorem Dark.run (hdark : Dark x s) (h : s.Good) (hother : Other x s) (hsilent : ∀ a ∈ steps, ¬ a.Live x) :
    Dark x (s.run steps) := by
  induction steps generalizing s with
  | nil => exact hdark
  | cons a l ih =>
      have ha := hsilent a List.mem_cons_self
      exact ih (hdark.step h hother ha) (h.step a) (hother.step ha) fun b hb => hsilent b (List.mem_cons_of_mem a hb)

theorem listed_run (h : s.Good) (hother : Other x s) (hsilent : ∀ a ∈ steps, ¬ a.Live x) {now : String}
    (hlisted : s.tables.life x = some (some now, true)) (c : String) :
    (s.run steps).tables.life x = some (some c, true) ↔ c = now ∧ ¬ Sometime State.step (Strikes x (some now)) s steps := by
  induction steps generalizing s with
  | nil => simp [State.run, hlisted, Sometime, eq_comm]
  | cons a l ih =>
      have ha := hsilent a List.mem_cons_self
      have hl : ∀ b ∈ l, ¬ b.Live x := fun b hb => hsilent b (List.mem_cons_of_mem a hb)
      have hstep : (s.step a).tables.life x = some (some now, !strikes x (some now) s a) := by
        rcases life_step h hother ha with hlife | ⟨_, _, _, _, hunlisted, _⟩
        · simpa [hlisted] using hlife
        · simp [hlisted] at hunlisted
      cases hstrikes : strikes x (some now) s a with
      | false =>
          rw [hstrikes] at hstep
          have hrun := ih (h.step a) (hother.step ha) hl hstep
          simpa [State.run, Sometime, Strikes, hstrikes] using hrun
      | true =>
          have hdark : Dark x (s.step a) := by
            intro p hp
            rw [hstep, hstrikes] at hp
            cases hp
            rfl
          have hend := hdark.run (h.step a) (hother.step ha) hl
          constructor
          · intro hlife
            exact absurd (hend _ hlife) (by simp)
          · rintro ⟨_, hnever⟩
            exact absurd (.inl hstrikes) hnever

/-- The cutoffs of the sweeps are not past the time, and the observer is on no blacklist. -/
def Step.Gentle (x now : String) : Step → Prop
  | .markStale cutoff => ¬ now < cutoff
  | .purgeStaleObservers cutoff => ¬ now < cutoff
  | .softDeleteBlacklistedObservers blacklist => ¬ blacklist.any fun pk => x.toLower = pk.toLower
  | _ => True

theorem Step.Gentle.strikes {a : Step} {now : String} (ha : a.Gentle x now) : strikes x (some now) s a = false := by
  cases a with
  | markStale cutoff =>
      have hlt : decide (now < cutoff) = false := decide_eq_false ha
      simp only [IngestTables.strikes, Option.any_some, hlt, Bool.and_false]
  | softDeleteBlacklistedObservers blacklist => exact Bool.eq_false_iff.mpr ha
  | _ => rfl

theorem gentle_run (h : s.Good) (hother : Other x s) {now : String} (hsteps : ∀ a ∈ steps, ¬ a.Live x ∧ a.Gentle x now) {listed : Bool}
    (hlife : s.tables.life x = some (some now, listed)) : (s.run steps).tables.life x = some (some now, listed) := by
  induction steps generalizing s with
  | nil => exact hlife
  | cons a l ih =>
      obtain ⟨ha, hgentle⟩ := hsteps a List.mem_cons_self
      apply ih (h.step a) (hother.step ha) fun b hb => hsteps b (List.mem_cons_of_mem a hb)
      rcases life_step h hother ha with hkept | ⟨_, cutoff, c, rfl, hunlisted, hlt⟩
      · simpa [hlife, hgentle.strikes] using hkept
      · rw [hlife] at hunlisted
        cases hunlisted
        exact absurd hlt hgentle

theorem Other.run (hother : Other x s) (hsilent : ∀ a ∈ steps, ¬ a.Live x) : Other x (s.run steps) :=
  foldl_invariant hother fun _ a ha h => h.step (hsilent a ha)

/-- Once the last live message of an observer is written, the observer is listed as last seen then, and up to the
first sweep with a later cutoff, or blacklisting; whatever is replayed of its statuses. -/
theorem listed_iff (h : s.Good) (hother : Other x s) (name iata now : String) (m : MetaColumns) (mid post : List Step)
    (hmid : ∀ a ∈ mid, ¬ a.Live x ∧ a.Gentle x now) (hpost : ∀ a ∈ post, ¬ a.Live x) (c : String) :
    ((s.run (.upsertObserver x name iata now now m :: mid ++ [.reactivate x])).run post).tables.life x = some (some c, true) ↔
      c = now ∧ ¬ Sometime State.step (Strikes x (some now))
        (s.run (.upsertObserver x name iata now now m :: mid ++ [.reactivate x])) post := by
  obtain ⟨⟨last, listed⟩, hlife, hlast⟩ := Option.map_eq_some_iff.mp (s.tables.life_upsertObserver name iata now m)
  cases hlast
  have hgood := h.step (.upsertObserver x name iata now now m)
  have hupserted : Other x (s.step (.upsertObserver x name iata now now m)) := hother
  have hmiddle := gentle_run hgood hupserted hmid hlife
  have hlisted : ((s.run (.upsertObserver x name iata now now m :: mid ++ [.reactivate x])).tables.life x) = some (some now, true) := by
    rw [State.run_append]
    refine (Tables.life_reactivate _).trans ?_
    exact congrArg (Option.map fun p => (p.1, true)) hmiddle
  have hsilent : Other x (s.run (.upsertObserver x name iata now now m :: mid ++ [.reactivate x])) := by
    rw [State.run_append]
    have hkept : Other x ((s.step (.upsertObserver x name iata now now m)).run mid) :=
      Other.run hupserted fun a ha => (hmid a ha).1
    exact hkept
  exact listed_run (h.run _) hsilent hpost hlisted c

theorem good_empty : State.Good ⟨Tables.empty, none⟩ :=
  { sound_empty with keyed := List.nodup_nil, knows := by simp }

def heardOn : String := "2026-01-01T00:00:00Z"

/-- A status is replayed, and a sweep made, between the two statements of the last message. -/
def between : List Step := [.upsertObserverRetained "A" "" "" {}, .markStale "2025-12-01T00:00:00Z"]

def lastMessage : List Step := .upsertObserver "A" "" "" heardOn heardOn {} :: between ++ [.reactivate "A"]

/-- A status is replayed, and the observer ages out; then it is replayed again. -/
def replays : List Step :=
  [.upsertObserverRetained "A" "" "" {}, .markStale "2026-02-01T00:00:00Z", .upsertObserverRetained "A" "" "" {}]

theorem listed_iff_replays :
    ((State.run ⟨Tables.empty, none⟩ lastMessage).run (replays.take 1)).tables.life "A" = some (some heardOn, true) ∧
      ((State.run ⟨Tables.empty, none⟩ lastMessage).run replays).tables.life "A" ≠ some (some heardOn, true) := by
  have hmid : ∀ a ∈ between, ¬ a.Live "A" ∧ a.Gentle "A" heardOn := by
    intro a ha
    rcases List.mem_cons.mp ha with rfl | ha
    · exact ⟨id, trivial⟩
    · obtain rfl := List.mem_singleton.mp ha
      exact ⟨id, (by decide : ¬ heardOn < "2025-12-01T00:00:00Z")⟩
  have hsilent : ∀ a ∈ replays, ¬ a.Live "A" := by simp [Step.Live, replays]
  constructor
  · refine (listed_iff good_empty (by simp [Other]) "" "" heardOn {} between (replays.take 1) hmid ?_ heardOn).mpr ?_
    · exact fun a ha => hsilent a (List.mem_of_mem_take ha)
    · exact ⟨rfl, fun hstrikes => hstrikes.elim (fun h => Bool.false_ne_true h) id⟩
  · intro hlisted
    have hlast := listed_iff good_empty (by simp [Other]) "" "" heardOn {} between replays hmid hsilent heardOn
    refine (hlast.mp hlisted).2 ?_
    exact .inr (.inl (by decide : strikes "A" (some heardOn) _ (.markStale "2026-02-01T00:00:00Z") = true))

end MeshcoreAnalyzer.IngestTables

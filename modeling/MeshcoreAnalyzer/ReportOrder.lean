import MeshcoreAnalyzer.ConfiguredScope
import MeshcoreAnalyzer.Runs

namespace MeshcoreAnalyzer.ConfiguredScope

open Timestamps Calendar Registers

variable {pk pubkey scope reportedAt : String} {s : Tables} {held : Option (Write String Int)}

/-- The guard reads the stamp in `nodes`: a report with a time finds one there, or is newer than that in
`inactive_nodes`; and no row without a scope is moved over one that has a scope. -/
def Guarded (pk : String) (s : Tables) : Step → Prop
  | .report pubkey _ reportedAt => pubkey = pk → normalizeReportTS reportedAt ≠ "" →
      ((s.nodes pk).any fun row => row.configuredScopeAt.isSome) ∨
        ∀ old ∈ s.inactiveNodes pk, ∀ curAt ∈ old.configuredScopeAt, curAt < normalizeReportTS reportedAt
  | .moveStale cutoff => ∀ row ∈ s.nodes pk, row.stale cutoff → row.configuredScope = none →
      ∀ old ∈ s.inactiveNodes pk, old.configuredScope = none
  | .advert .. => True

/-- The reports about the node are of a time before the year 10000. -/
def InYears (pk : String) : Step → Prop
  | .report pubkey _ reportedAt => pubkey = pk → ∀ e ∈ reportSecond reportedAt, e ≤ lastStamp
  | _ => True

/-- The rows of the node show what the register holds. -/
structure Holds (pk : String) (s : Tables) (held : Option (Write String Int)) : Prop where
  active : ∀ row, s.nodes pk = some row → row.Shows held ∨ row.Shows none
  inactive : ∀ row, s.inactiveNodes pk = some row → row.Shows held
  kept : held.isSome → ∃ row, s.HasRow pk row ∧ row.Shows held
  datable : ∀ v ∈ held, Datable v.time

theorem Holds.congr {s' : Tables} (h : Holds pk s held) (hnodes : s'.nodes pk = s.nodes pk)
    (hinactive : s'.inactiveNodes pk = s.inactiveNodes pk) : Holds pk s' held where
  active := by
    rw [hnodes]
    exact h.active
  inactive := by
    rw [hinactive]
    exact h.inactive
  kept := by
    intro hsome
    obtain ⟨row, hrow, hshows⟩ := h.kept hsome
    refine ⟨row, ?_, hshows⟩
    rw [Tables.HasRow, hnodes, hinactive]
    exact hrow
  datable := h.datable

theorem updateRow_self (pubkey : String) (f : NodeRow → NodeRow) (table : String → Option NodeRow) :
    updateRow pubkey f table pubkey = (table pubkey).map f :=
  Function.update_self _ _ _

theorem updateRow_of_ne {pubkey : String} (h : pubkey ≠ pk) (f : NodeRow → NodeRow) (table : String → Option NodeRow) :
    updateRow pubkey f table pk = table pk :=
  Function.update_of_ne h.symm _ _

theorem not_confirmedSince_of_none {row : NodeRow} (h : row.Shows none) (reportedAt : String) :
    row.confirmedSince reportedAt = false := by
  rw [NodeRow.confirmedSince, h.2]
  rfl

theorem put_of_passed (h : Holds pk s held) {w : Write String Int} (hw : Datable w.time)
    (hguard : stampText w.time ≠ "" → ((s.nodes pk).any fun row => row.configuredScopeAt.isSome) ∨
      ∀ old ∈ s.inactiveNodes pk, ∀ curAt ∈ old.configuredScopeAt, curAt < stampText w.time)
    (hpass : ¬(stampText w.time ≠ "" ∧ (s.nodes pk).any (NodeRow.confirmedSince (stampText w.time)))) :
    put held w = some w := by
  rcases put_cases held w with hput | hold
  · exact hput
  · exfalso
    have hactive : ∀ row, s.nodes pk = some row → ¬row.Shows held := by
      intro row hrow hshows
      have hconfirmed := (hshows.confirmedSince h.datable hw).mpr hold
      apply hpass
      rw [hrow]
      exact hconfirmed
    obtain ⟨v, hv, t', t, ht', ht, hle⟩ := id hold
    have hdated : stampText w.time ≠ "" := stampText_ne_empty.mpr (Option.isSome_of_eq_some ht')
    rcases hguard hdated with hstamp | holder
    · obtain ⟨row, hrow, hsome⟩ := (Option.any_eq_true _ _).mp hstamp
      rcases h.active row hrow with hshows | hnone
      · exact hactive row hrow hshows
      · rw [hnone.2] at hsome
        cases hsome
    · obtain ⟨row, hrow | hrow, hshows⟩ := h.kept (Option.isSome_of_eq_some hv)
      · exact hactive row hrow hshows
      · obtain ⟨-, hconfirmed⟩ := (hshows.confirmedSince h.datable hw).mpr hold
        obtain ⟨curAt, hcurAt, hge⟩ := (Option.any_eq_true _ _).mp hconfirmed
        exact absurd (holder row hrow curAt hcurAt) (not_lt.mpr (of_decide_eq_true hge).2)

theorem put_of_blocked (h : Holds pk s held) {w : Write String Int} (hw : Datable w.time)
    (hblocked : stampText w.time ≠ "" ∧ (s.nodes pk).any (NodeRow.confirmedSince (stampText w.time))) :
    put held w = held := by
  obtain ⟨row, hrow, hconfirmed⟩ := (Option.any_eq_true _ _).mp hblocked.2
  rcases h.active row hrow with hshows | hnone
  · obtain ⟨v, rfl, hle⟩ := (hshows.confirmedSince h.datable hw).mp ⟨hblocked.1, hconfirmed⟩
    exact put_of_notLater hle
  · rw [not_confirmedSince_of_none hnone] at hconfirmed
    cases hconfirmed

theorem holds_written (hknown : s.Known pk) {w : Write String Int} (hw : Datable w.time) :
    Holds pk
      { nodes := updateRow pk (NodeRow.configure w.value (stampText w.time)) s.nodes
        inactiveNodes := updateRow pk (NodeRow.configure w.value (stampText w.time)) s.inactiveNodes } (some w) where
  active := by
    intro row hrow
    obtain ⟨old, -, rfl⟩ := Option.map_eq_some_iff.mp ((updateRow_self _ _ _).symm.trans hrow)
    exact .inl (old.configure_shows w)
  inactive := by
    intro row hrow
    obtain ⟨old, -, rfl⟩ := Option.map_eq_some_iff.mp ((updateRow_self _ _ _).symm.trans hrow)
    exact old.configure_shows w
  kept := by
    intro _
    rcases hknown with hsome | hsome
    · obtain ⟨old, hold⟩ := Option.isSome_iff_exists.mp hsome
      refine ⟨old.configure w.value (stampText w.time), .inl ?_, old.configure_shows w⟩
      exact (updateRow_self _ _ _).trans (congrArg _ hold)
    · obtain ⟨old, hold⟩ := Option.isSome_iff_exists.mp hsome
      refine ⟨old.configure w.value (stampText w.time), .inr ?_, old.configure_shows w⟩
      exact (updateRow_self _ _ _).trans (congrArg _ hold)
  datable := by
    intro v hv
    cases hv
    exact hw

theorem updateRow_unknown (hcond : ¬(pubkey = pk ∧ pk ≠ "" ∧ s.Known pk)) (hempty : pubkey ≠ "") (f : NodeRow → NodeRow) :
    updateRow pubkey f s.nodes pk = s.nodes pk ∧ updateRow pubkey f s.inactiveNodes pk = s.inactiveNodes pk := by
  by_cases hpk : pubkey = pk
  · subst hpk
    have hknown : ¬s.Known pubkey := fun hknown => hcond ⟨rfl, hempty, hknown⟩
    rw [Tables.Known, not_or, Option.not_isSome_iff_eq_none, Option.not_isSome_iff_eq_none] at hknown
    rw [updateRow_self, updateRow_self, hknown.1, hknown.2]
    exact ⟨rfl, rfl⟩
  · exact ⟨updateRow_of_ne hpk _ _, updateRow_of_ne hpk _ _⟩

theorem holds_report (h : Holds pk s held) (hyears : InYears pk (.report pubkey scope reportedAt))
    (hguard : Guarded pk s (.report pubkey scope reportedAt)) :
    Holds pk (s.step (.report pubkey scope reportedAt)) ((heardAt pk s (.report pubkey scope reportedAt)).foldl put held) := by
  rw [Tables.step, Tables.updateNodeConfiguredScope, heardAt]
  by_cases hcond : pubkey = pk ∧ pk ≠ "" ∧ s.Known pk
  · rw [if_pos hcond, List.foldl_cons, List.foldl_nil]
    obtain ⟨rfl, hempty, hknown⟩ := hcond
    have hw : Datable (reportSecond reportedAt) := datable_reportSecond (hyears rfl)
    have hguard := hguard rfl
    rw [if_neg hempty]
    rw [normalizeReportTS_eq] at hguard ⊢
    dsimp only
    generalize normalizeScopeList scope = value
    split
    · next hblocked =>
      rw [put_of_blocked (w := ⟨value, reportSecond reportedAt⟩) h hw hblocked]
      exact h
    · next hpass =>
      rw [put_of_passed (w := ⟨value, reportSecond reportedAt⟩) h hw hguard hpass]
      exact holds_written (w := ⟨value, reportSecond reportedAt⟩) hknown hw
  · rw [if_neg hcond, List.foldl_nil]
    split
    · exact h
    · next hempty =>
      dsimp only
      split
      · exact h
      · exact h.congr (updateRow_unknown hcond hempty _).1 (updateRow_unknown hcond hempty _).2

theorem moved_shows {cutoff : String} (h : Holds pk s held) (hguard : Guarded pk s (.moveStale cutoff)) {row : NodeRow}
    (hmoved : (s.nodes pk).filter (NodeRow.stale cutoff) = some row) : row.Shows held := by
  obtain ⟨hrow, hstale⟩ := Option.filter_eq_some_iff.mp hmoved
  rcases h.active row hrow with hshows | hnone
  · exact hshows
  · cases hheld : held with
    | none => exact hnone
    | some w =>
        obtain ⟨old, hold | hold, hshows⟩ := h.kept (Option.isSome_of_eq_some hheld)
        · cases hrow.symm.trans hold
          exact hheld ▸ hshows
        · have hscope := hguard row hrow hstale hnone.1 old hold
          rw [hshows.1, hheld] at hscope
          cases hscope

theorem holds_moveStale {cutoff : String} (h : Holds pk s held) (hguard : Guarded pk s (.moveStale cutoff)) :
    Holds pk (s.step (.moveStale cutoff)) held where
  active := by
    intro row hrow
    exact h.active row (Option.filter_eq_some_iff.mp hrow).1
  inactive := by
    intro row hrow
    rcases Option.or_eq_some_iff.mp hrow with hmoved | ⟨-, hstays⟩
    · exact moved_shows h hguard hmoved
    · exact h.inactive row hstays
  kept := by
    intro hsome
    cases hmoved : (s.nodes pk).filter (NodeRow.stale cutoff) with
    | some row => exact ⟨row, .inr (Option.or_eq_some_iff.mpr (.inl hmoved)), moved_shows h hguard hmoved⟩
    | none =>
        obtain ⟨row, hrow | hrow, hshows⟩ := h.kept hsome
        · have hfresh : ¬row.stale cutoff := Option.filter_eq_none_iff.mp hmoved row hrow
          refine ⟨row, .inl (Option.filter_eq_some_iff.mpr ⟨hrow, ?_⟩), hshows⟩
          rw [Bool.eq_false_of_not_eq_true hfresh]
          rfl
        · exact ⟨row, .inr (Option.or_eq_some_iff.mpr (.inr ⟨hmoved, hrow⟩)), hshows⟩
  datable := h.datable

variable {pubKey name role lastSeen ingestNow : String} {lat lon : Option Float}

/-- An advert creates a row without a scope, or leaves scope and stamp of the row. -/
def Renewed (before : Option NodeRow) (row : NodeRow) : Prop :=
  (before = none ∧ row.Shows none) ∨
    ∃ old, before = some old ∧ row.configuredScope = old.configuredScope ∧ row.configuredScopeAt = old.configuredScopeAt

theorem upsertNode_renews (s : Tables) (pubKey name role : String) (lat lon : Option Float) (lastSeen ingestNow : String) :
    ∃ row, (s.upsertNode pubKey name role lat lon lastSeen ingestNow).nodes pubKey = some row ∧
      Renewed (s.nodes pubKey) row := by
  refine ⟨_, Function.update_self _ _ _, ?_⟩
  cases hrow : s.nodes pubKey with
  | none => exact .inl ⟨rfl, rfl, rfl⟩
  | some old => exact .inr ⟨old, rfl, rfl, rfl⟩

theorem Holds.renew {s' : Tables} (h : Holds pk s held) {row : NodeRow} (hnew : s'.nodes pk = some row)
    (hkind : Renewed (s.nodes pk) row) (hinactive : s'.inactiveNodes pk = s.inactiveNodes pk) : Holds pk s' held where
  active := by
    intro row' hrow'
    cases hnew.symm.trans hrow'
    rcases hkind with ⟨-, hnone⟩ | ⟨old, hold, hscope, hat⟩
    · exact .inr hnone
    · rw [NodeRow.Shows, NodeRow.Shows, hscope, hat]
      exact h.active old hold
  inactive := by
    rw [hinactive]
    exact h.inactive
  kept := by
    intro hsome
    obtain ⟨old, hold | hold, hshows⟩ := h.kept hsome
    · rcases hkind with ⟨hnone, -⟩ | ⟨old', hold', hscope, hat⟩
      · cases hnone.symm.trans hold
      · cases hold'.symm.trans hold
        refine ⟨row, .inl hnew, ?_⟩
        rw [NodeRow.Shows, hscope, hat]
        exact hshows
    · exact ⟨old, .inr (hinactive.trans hold), hshows⟩
  datable := h.datable

theorem holds_advert (h : Holds pk s held) :
    Holds pk (s.step (.advert pubKey name role lat lon lastSeen ingestNow)) held := by
  rw [Tables.step]
  by_cases hpk : pubKey = pk
  · subst hpk
    obtain ⟨row, hnew, hkind⟩ := upsertNode_renews s pubKey name role lat lon lastSeen ingestNow
    exact h.renew hnew hkind rfl
  · exact h.congr (Function.update_of_ne (Ne.symm hpk) _ _) rfl

theorem holds_step (h : Holds pk s held) {a : Step} (hyears : InYears pk a) (hguard : Guarded pk s a) :
    Holds pk (s.step a) ((heardAt pk s a).foldl put held) := by
  cases a with
  | report pubkey scope reportedAt => exact holds_report h hyears hguard
  | moveStale cutoff => exact holds_moveStale h hguard
  | advert pubKey name role lat lon lastSeen ingestNow => exact holds_advert h

theorem holds_run (h : Holds pk s held) {steps : List Step} (hyears : ∀ a ∈ steps, InYears pk a)
    (hguard : Runs.Along Tables.step (Guarded pk) s steps) :
    Holds pk (s.run steps) ((heard pk s steps).foldl put held) := by
  induction steps generalizing s held with
  | nil => exact h
  | cons a steps ih =>
      rw [heard, List.foldl_append]
      exact ih (holds_step h (hyears a List.mem_cons_self) hguard.1) (fun b hb => hyears b (List.mem_cons_of_mem a hb)) hguard.2

/-- No report has been stored for the node yet. -/
def Unreported (pk : String) (s : Tables) : Prop := ∀ row, s.HasRow pk row → row.Shows none

theorem Unreported.holds (h : Unreported pk s) : Holds pk s none where
  active := fun row hrow => .inl (h row (.inl hrow))
  inactive := fun row hrow => h row (.inr hrow)
  kept := fun hsome => Bool.noConfusion hsome
  datable := by
    intro v hv
    cases hv

theorem Holds.configured (h : Holds pk s held) {row : NodeRow} (hrow : s.HasRow pk row) :
    row.configured = none ∨ row.configured = held.map fun w => (w.value, stampText w.time) := by
  rcases hrow with hrow | hrow
  · rcases h.active row hrow with hshows | hnone
    · exact .inr hshows.configured
    · exact .inl hnone.configured
  · exact .inr (h.inactive row hrow).configured

/-- The scope that is stored for a node is that of the report that decides among those about the node:
the latest one, by its second, since the last report without a time, and of one second the first. -/
theorem configured_of_decides (hfresh : Unreported pk s) {steps : List Step} (hyears : ∀ a ∈ steps, InYears pk a)
    (hguard : Runs.Along Tables.step (Guarded pk) s steps) :
    (∀ w, Decides (heard pk s steps) w →
      (∃ row, (s.run steps).HasRow pk row ∧ row.configured = some (w.value, stampText w.time)) ∧
        ∀ row, (s.run steps).HasRow pk row → row.configured = none ∨ row.configured = some (w.value, stampText w.time)) ∧
      (heard pk s steps = [] → ∀ row, (s.run steps).HasRow pk row → row.configured = none) := by
  have hholds := holds_run hfresh.holds hyears hguard
  constructor
  · intro w hw
    have hlatest : (heard pk s steps).foldl put none = some w := latest_of_decides hw
    rw [hlatest] at hholds
    obtain ⟨row, hrow, hshows⟩ := hholds.kept rfl
    exact ⟨⟨row, hrow, hshows.configured⟩, fun row hrow => hholds.configured hrow⟩
  · intro hnone row hrow
    rw [hnone] at hholds
    rcases hholds.configured hrow with hconf | hconf
    · exact hconf
    · exact hconf

/-- A report of an earlier instant comes behind, in another zone, and the node goes stale. -/
def reportedLate : List Step :=
  [.advert "aa" "n" "repeater" none none "2026-07-01T00:00:00Z" "2026-07-01T00:00:00Z",
    .report "aa" "eu,dk" "2026-07-25T12:00:00.5Z", .report "aa" "old" "2026-07-25T13:30:00+02:00",
    .moveStale "2026-08-01T00:00:00Z"]

theorem heard_reportedLate : heard "aa" Tables.empty reportedLate =
    [⟨"#eu,#dk", some 1784980800⟩, ⟨"#old", some 1784979000⟩] := by
  decide

theorem reportedLate_decides : Decides (heard "aa" Tables.empty reportedLate) ⟨"#eu,#dk", some 1784980800⟩ := by
  rw [heard_reportedLate]
  refine ⟨[], [⟨"#old", some 1784979000⟩], rfl, ?_, fun _ x hx => absurd hx List.not_mem_nil⟩
  intro y hy
  rw [List.mem_singleton.mp hy]
  exact ⟨1784979000, 1784980800, rfl, rfl, by decide⟩

theorem reportedLate_guarded : Runs.Along Tables.step (Guarded "aa") Tables.empty reportedLate := by
  refine ⟨trivial, fun _ _ => .inr ?_, fun _ _ => .inl ?_, ?_, trivial⟩
  · intro old hold
    cases hold
  · decide
  · intro row _ _ _ old hold
    have hnone : ((Tables.empty.run (reportedLate.take 3)).inactiveNodes "aa").isNone = true := by decide
    cases (Option.isNone_iff_eq_none.mp hnone).symm.trans hold

theorem second_le_lastStamp {reportedAt : String} (h : (reportSecond reportedAt).all (· ≤ lastStamp) = true) :
    ∀ e ∈ reportSecond reportedAt, e ≤ lastStamp :=
  fun e he => of_decide_eq_true ((Option.all_eq_true _ _).mp h e he)

theorem reportedLate_inYears : ∀ a ∈ reportedLate, InYears "aa" a := by
  rw [reportedLate, List.forall_mem_cons, List.forall_mem_cons, List.forall_mem_cons, List.forall_mem_singleton]
  refine ⟨trivial, fun _ => second_le_lastStamp ?_, fun _ => second_le_lastStamp ?_, trivial⟩
  · decide
  · decide

theorem configured_of_decides_reportedLate :
    (∃ row, (Tables.empty.run reportedLate).HasRow "aa" row ∧ row.configured = some ("#eu,#dk", stampText (some 1784980800))) ∧
      ∀ row, (Tables.empty.run reportedLate).HasRow "aa" row →
        row.configured = none ∨ row.configured = some ("#eu,#dk", stampText (some 1784980800)) := by
  have hfresh : Unreported "aa" Tables.empty := by
    intro row hrow
    rcases hrow with hrow | hrow
    · cases hrow
    · cases hrow
  exact (configured_of_decides hfresh reportedLate_inYears reportedLate_guarded).1 _ reportedLate_decides

/-- What a store would hold that goes by the instants of the reports alone: the scope of the greatest one. -/
def ByInstant (pk : String) (steps : List Step) : Prop :=
  ∀ scope reportedAt t, .report pk scope reportedAt ∈ steps → parseRFC3339 reportedAt = some t →
    (∀ scope' reportedAt' t', .report pk scope' reportedAt' ∈ steps → parseRFC3339 reportedAt' = some t' → t' ≤ t) →
      ∃ row, (Tables.empty.run steps).HasRow pk row ∧ row.configuredScope = some (normalizeScopeList scope)

def undatedBetween : List Step :=
  [.advert "aa" "n" "repeater" none none "2026-07-01T00:00:00Z" "2026-07-01T00:00:00Z",
    .report "aa" "eu" "2026-07-25T12:00:00Z", .report "aa" "de" "", .report "aa" "old" "2026-07-25T10:00:00Z"]

/-- A report without a time is always written and blanks the stamp, so that an older one passes behind it. -/
theorem undated_lets_older_pass : ¬∀ pk steps, ByInstant pk steps := by
  intro h
  have hgreatest : ∀ scope' reportedAt' t', .report "aa" scope' reportedAt' ∈ undatedBetween →
      parseRFC3339 reportedAt' = some t' → t' ≤ 1784980800 * second := by
    have hall : undatedBetween.all (fun a => match a with
        | .report _ _ reportedAt' => (parseRFC3339 reportedAt').all (· ≤ 1784980800 * second)
        | _ => true) = true := by
      decide
    intro scope' reportedAt' t' hmem ht'
    exact of_decide_eq_true ((Option.all_eq_true _ _).mp (List.all_eq_true.mp hall _ hmem) t' ht')
  obtain ⟨row, hrow | hrow, hconf⟩ := h "aa" undatedBetween "eu" "2026-07-25T12:00:00Z" (1784980800 * second)
    (.tail _ (.head _)) (by decide) hgreatest
  · have hold : ((Tables.empty.run undatedBetween).nodes "aa").map (fun row => row.configuredScope) = some (some "#old") := by
      decide
    rw [hrow, Option.map_some, hconf, Option.some.injEq, Option.some.injEq] at hold
    revert hold
    decide
  · have hnone : ((Tables.empty.run undatedBetween).inactiveNodes "aa").isNone = true := by decide
    cases (Option.isNone_iff_eq_none.mp hnone).symm.trans hrow

end MeshcoreAnalyzer.ConfiguredScope

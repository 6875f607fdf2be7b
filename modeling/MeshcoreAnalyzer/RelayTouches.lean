import MeshcoreAnalyzer.NodeTouches

namespace MeshcoreAnalyzer.RelayTouches

open Calendar ConfiguredScope Layers MillisStamps Timestamps
open NodeTables (State Touched relayTouchDebounce relayTouchedMaxEntries touchRow touchNodeLastSeen touchRelayNode
  touchRelayNodesLocked)

/-! `touchRelayNodesLocked` beside `UpsertNode` of cmd/ingestor/db.go: no node is seen much earlier than it relayed. -/

inductive Call
  | touch (pubkeys : List String) (rxTime : String)
  | upsert (pubKey name role : String) (lat lon : Option Float) (lastSeen : String)

def step (s : State) : Int × Call → State
  | (_, .touch pubkeys rxTime) => touchRelayNodesLocked pubkeys rxTime s
  | (now, .upsert pubKey name role lat lon lastSeen) =>
      { s with tables := s.tables.upsertNode pubKey name role lat lon lastSeen (stamp now) }

/-- The time of the call is a whole second that is not behind the clock, and that of an advert is written like it. -/
def Call.ReceivedBy (now : Int) : Call → Prop
  | .touch _ rxTime => ∀ t, parseRFC3339 rxTime = some t → ∃ e, t = e * second ∧ e ≤ now
  | .upsert _ _ _ _ _ lastSeen => lastSeen = "" ∨ ∃ e, earliestStamp ≤ e ∧ e ≤ now ∧ lastSeen = stamp e

/-- The clock does not go back, nor beyond the years of four digits. -/
def Timely : Int → List (Int × Call) → Prop
  | _, [] => True
  | clock, (now, call) :: calls => clock ≤ now ∧ now ≤ lastStamp ∧ call.ReceivedBy now ∧ Timely now calls

/-- What is stored of a node is no time, or one that is not behind the clock. -/
def Stored (clock : Int) (lastSeen : Option String) : Prop :=
  lastSeen = none ∨ ∃ e, earliestStamp ≤ e ∧ e ≤ clock ∧ lastSeen = some (stamp e)

def SeenAt (t : Tables) (pk : String) (e : Int) : Prop :=
  earliestStamp ≤ e ∧ e ≤ lastStamp ∧ ∃ row, t.nodes pk = some row ∧ row.lastSeen = some (stamp e)

def Later (o o' : Option String) : Prop := ∀ text, o = some text → ∃ text', o' = some text' ∧ text ≤ text'

/-- No row is lost, and no node is seen earlier than it was. -/
def Forward (t t' : Tables) : Prop :=
  ∀ pk row, t.nodes pk = some row → ∃ row', t'.nodes pk = some row' ∧ Later row.lastSeen row'.lastSeen

theorem Later.refl (o : Option String) : Later o o := fun text h => ⟨text, h, le_refl text⟩

theorem Later.trans {o o' o'' : Option String} (h : Later o o') (h' : Later o' o'') : Later o o'' := by
  intro text htext
  obtain ⟨text', htext', hle⟩ := h text htext
  obtain ⟨text'', htext'', hle'⟩ := h' text' htext'
  exact ⟨text'', htext'', hle.trans hle'⟩

theorem Forward.refl (t : Tables) : Forward t t := fun _ row h => ⟨row, h, .refl _⟩

theorem Forward.trans {t t' t'' : Tables} (h : Forward t t') (h' : Forward t' t'') : Forward t t'' := by
  intro pk row hrow
  obtain ⟨row', hrow', hlater⟩ := h pk row hrow
  obtain ⟨row'', hrow'', hlater'⟩ := h' pk row' hrow'
  exact ⟨row'', hrow'', hlater.trans hlater'⟩

section Row

variable {clock e : Int} {row : NodeRow}

theorem later_stamp {l : Int} (hl : earliestStamp ≤ l) (hle : l ≤ e) (hlast : e ≤ lastStamp) :
    Later (some (stamp l)) (some (stamp e)) := by
  intro text htext
  obtain rfl := Option.some.inj htext
  exact ⟨stamp e, rfl, (stamp_le_iff hl (hle.trans hlast) (hl.trans hle) hlast).mpr hle⟩

theorem touchRow_spec (h : Stored clock row.lastSeen) (hfirst : earliestStamp ≤ e) (he : e ≤ clock)
    (hlast : clock ≤ lastStamp) : ∃ e', e ≤ e' ∧ e' ≤ clock ∧ (touchRow (stamp e) row).lastSeen = some (stamp e') ∧
      Later row.lastSeen (some (stamp e')) := by
  rw [touchRow]
  obtain hnone | ⟨l, hl, hclock, hsome⟩ := h
  · rw [hnone, if_pos Option.all_none]
    exact ⟨e, le_rfl, he, rfl, fun _ h => nomatch h⟩
  · have htest : row.lastSeen.all (· < stamp e) = true ↔ stamp l < stamp e := by
      rw [hsome, Option.all_some, decide_eq_true_eq]
    by_cases hlt : stamp l < stamp e
    · have hle := (stamp_le_iff hl (hclock.trans hlast) hfirst (he.trans hlast)).mp hlt.le
      rw [if_pos (htest.mpr hlt), hsome]
      exact ⟨e, le_rfl, he, rfl, later_stamp hl hle (he.trans hlast)⟩
    · have hle := (stamp_le_iff hfirst (he.trans hlast) hl (hclock.trans hlast)).mp (not_lt.mp hlt)
      rw [if_neg (mt htest.mp hlt), hsome]
      exact ⟨l, hle, hclock, rfl, .refl _⟩

theorem max_min_spec {now : Int} {o : Option String} (h : Stored clock o) (hnow : clock ≤ now)
    (hfirst : earliestStamp ≤ e) (he : e ≤ now) (hlast : now ≤ lastStamp) : ∃ e', earliestStamp ≤ e' ∧ e' ≤ now ∧
      max (min (o.getD "") (stamp now)) (stamp e) = stamp e' ∧ Later o (some (stamp e')) := by
  have hempty : ∀ text : String, "" ≤ text := fun text => by
    rw [← not_lt, String.lt_iff_toList_lt]
    exact List.not_lt_nil _
  obtain rfl | ⟨l, hl, hclock, rfl⟩ := h
  · refine ⟨e, hfirst, he, ?_, fun _ h => nomatch h⟩
    rw [Option.getD_none, min_eq_left (hempty _), max_eq_right (hempty _)]
  · have hlnow := hclock.trans hnow
    have hmin : stamp l ≤ stamp now := (stamp_le_iff hl (hlnow.trans hlast) (hl.trans hlnow) hlast).mpr hlnow
    rw [Option.getD_some, min_eq_left hmin]
    rcases le_total l e with hle | hle
    · have htext : stamp l ≤ stamp e := (stamp_le_iff hl (hlnow.trans hlast) hfirst (he.trans hlast)).mpr hle
      exact ⟨e, hfirst, he, max_eq_right htext, later_stamp hl hle (he.trans hlast)⟩
    · have htext : stamp e ≤ stamp l := (stamp_le_iff hfirst (he.trans hlast) hl (hlnow.trans hlast)).mpr hle
      exact ⟨l, hl, hlnow, max_eq_left htext, .refl _⟩

end Row

/-- Of a node that has a row throughout, the map has no later time than the row. -/
structure Good (known : String → Prop) (clock : Int) (s : State) : Prop where
  started : earliestStamp ≤ clock
  bounded : clock ≤ lastStamp
  stored : ∀ pk row, s.tables.nodes pk = some row → Stored clock row.lastSeen
  present : ∀ pk, known pk → ∃ row, s.tables.nodes pk = some row
  touched : ∀ pk, known pk → ∀ last, read s.relayTouched.entries pk = some last →
    ∃ e, SeenAt s.tables pk e ∧ last ≤ e * second

def SameKeys (t t' : Tables) : Prop := ∀ pk, (t'.nodes pk).isSome = (t.nodes pk).isSome

/-- The node was seen less than a window before the time, or later. -/
def Lag (t : Tables) (pk : String) (e : Int) : Prop :=
  ∃ e', SeenAt t pk e' ∧ e * second - relayTouchDebounce < e' * second

variable {known : String → Prop} {clock now e : Int} {s s' : State} {t t' : Tables} {pk : String}

theorem SeenAt.forward (h : SeenAt t pk e) (hforward : Forward t t')
    (hstored : ∀ row, t'.nodes pk = some row → Stored clock row.lastSeen) (hbounded : clock ≤ lastStamp) :
    ∃ e', e ≤ e' ∧ SeenAt t' pk e' := by
  obtain ⟨hfirst, hlast, row, hrow, hseen⟩ := h
  obtain ⟨row', hrow', hlater⟩ := hforward pk row hrow
  obtain ⟨text, htext, hle⟩ := hlater _ hseen
  obtain hnone | ⟨e', hfirst', he', hseen'⟩ := hstored row' hrow'
  · rw [hnone] at htext
    cases htext
  · rw [hseen'] at htext
    obtain rfl := Option.some.inj htext
    have hlast' := he'.trans hbounded
    exact ⟨e', (stamp_le_iff hfirst hlast hfirst' hlast').mp hle, hfirst', hlast', row', hrow', hseen'⟩

theorem Lag.forward (h : Lag t pk e) (hforward : Forward t t')
    (hstored : ∀ row, t'.nodes pk = some row → Stored clock row.lastSeen) (hbounded : clock ≤ lastStamp) :
    Lag t' pk e := by
  obtain ⟨e', hseen, hlag⟩ := h
  obtain ⟨e'', hle, hseen'⟩ := hseen.forward hforward hstored hbounded
  have hsecond : second = 1000000000 := rfl
  refine ⟨e'', hseen', ?_⟩
  rw [hsecond] at hlag ⊢
  omega

theorem Stored.mono {o : Option String} (h : Stored clock o) (hnow : clock ≤ now) : Stored now o := by
  obtain hnone | ⟨e, hfirst, he, hsome⟩ := h
  · exact .inl hnone
  · exact .inr ⟨e, hfirst, he.trans hnow, hsome⟩

theorem SameKeys.trans {t'' : Tables} (h : SameKeys t t') (h' : SameKeys t' t'') : SameKeys t t'' :=
  fun pk => (h' pk).trans (h pk)

theorem Good.of_touched (h : Good known clock s) (m : Touched)
    (hm : ∀ pk last, read m.entries pk = some last → read s.relayTouched.entries pk = some last) :
    Good known clock { s with relayTouched := m } :=
  ⟨h.started, h.bounded, h.stored, h.present, fun pk hpk last hlast => h.touched pk hpk last (hm pk last hlast)⟩

structure Moves (known : String → Prop) (clock : Int) (s s' : State) : Prop where
  good : Good known clock s'
  forward : Forward s.tables s'.tables
  keys : SameKeys s.tables s'.tables

theorem Good.moves (h : Good known clock s) : Moves known clock s s := ⟨h, .refl _, fun _ => rfl⟩

theorem Moves.trans {s'' : State} (h : Moves known clock s s') (h' : Moves known clock s' s'') :
    Moves known clock s s'' := ⟨h'.good, h.forward.trans h'.forward, h.keys.trans h'.keys⟩

theorem Moves.lag (h : Moves known clock s s') (hlag : Lag s.tables pk e) : Lag s'.tables pk e :=
  hlag.forward h.forward (h.good.stored pk) h.good.bounded

theorem nodes_touchNodeLastSeen (st q : String) : (touchNodeLastSeen st pk t).nodes q =
    if q = pk then (t.nodes q).map (touchRow st) else t.nodes q := by
  by_cases hq : q = pk
  · subst hq
    rw [if_pos rfl]
    exact Function.update_self _ _ _
  · rw [if_neg hq]
    exact Function.update_of_ne hq _ _

theorem Good.written (h : Good known clock s) (hfirst : earliestStamp ≤ e) (he : e ≤ clock) (pk : String) :
    Moves known clock s ⟨touchNodeLastSeen (stamp e) pk s.tables, s.relayTouched.set pk (e * second)⟩ ∧
      (known pk → ∃ e', e ≤ e' ∧ SeenAt (touchNodeLastSeen (stamp e) pk s.tables) pk e') := by
  have hrow : ∀ row, s.tables.nodes pk = some row → ∃ e', e ≤ e' ∧ e' ≤ clock ∧
      (touchRow (stamp e) row).lastSeen = some (stamp e') ∧ Later row.lastSeen (some (stamp e')) :=
    fun row hrow => touchRow_spec (h.stored pk row hrow) hfirst he h.bounded
  have hseen : known pk → ∃ e', e ≤ e' ∧ SeenAt (touchNodeLastSeen (stamp e) pk s.tables) pk e' := by
    intro hpk
    obtain ⟨row, hnode⟩ := h.present pk hpk
    obtain ⟨e', hle, he', hlast, -⟩ := hrow row hnode
    refine ⟨e', hle, hfirst.trans hle, he'.trans h.bounded, touchRow (stamp e) row, ?_, hlast⟩
    rw [nodes_touchNodeLastSeen, if_pos rfl, hnode]
    rfl
  have hforward : Forward s.tables (touchNodeLastSeen (stamp e) pk s.tables) := by
    intro q row hq
    rw [nodes_touchNodeLastSeen, hq]
    by_cases hqpk : q = pk
    · subst hqpk
      obtain ⟨e', -, -, hlast, hlater⟩ := hrow row hq
      rw [if_pos rfl]
      exact ⟨touchRow (stamp e) row, rfl, hlast ▸ hlater⟩
    · rw [if_neg hqpk]
      exact ⟨row, rfl, .refl _⟩
  have hstored : ∀ q row, (touchNodeLastSeen (stamp e) pk s.tables).nodes q = some row → Stored clock row.lastSeen := by
    intro q row hq
    rw [nodes_touchNodeLastSeen] at hq
    split at hq
    next hqpk =>
      subst hqpk
      obtain ⟨row', hnode, rfl⟩ := Option.map_eq_some_iff.mp hq
      obtain ⟨e', hle, he', hlast, -⟩ := hrow row' hnode
      exact .inr ⟨e', hfirst.trans hle, he', hlast⟩
    next => exact h.stored q row hq
  refine ⟨⟨⟨h.started, h.bounded, hstored, fun q hq => ?_, fun q hq last hlast => ?_⟩, hforward, fun q => ?_⟩, hseen⟩
  · obtain ⟨row, hnode⟩ := h.present q hq
    obtain ⟨row', hnode', -⟩ := hforward q row hnode
    exact ⟨row', hnode'⟩
  · have hsecond : second = 1000000000 := rfl
    rcases Touched.read_set hlast with ⟨rfl, rfl⟩ | hold
    · obtain ⟨e', hle, hat⟩ := hseen hq
      refine ⟨e', hat, ?_⟩
      rw [hsecond]
      omega
    · obtain ⟨e', hat, hle⟩ := h.touched q hq last hold
      obtain ⟨e'', hle', hat'⟩ := hat.forward hforward (hstored q) h.bounded
      refine ⟨e'', hat', ?_⟩
      rw [hsecond] at hle ⊢
      omega
  · rw [nodes_touchNodeLastSeen]
    split
    · exact Option.isSome_map
    · rfl

theorem Good.touchRelayNode (h : Good known clock s) (hfirst : earliestStamp ≤ e) (he : e ≤ clock) (pk : String) :
    Moves known clock s (touchRelayNode (e * second) s pk) ∧
      (known pk → pk ≠ "" → Lag (touchRelayNode (e * second) s pk).tables pk e) := by
  have hsecond : second = 1000000000 := rfl
  have hwindow : relayTouchDebounce = 300000000000 := rfl
  have hstamp : e * second / second = e := Int.mul_ediv_cancel e (by decide)
  obtain ⟨hmoves, hseen⟩ := h.written hfirst he pk
  have hlag : known pk → Lag (touchNodeLastSeen (stamp e) pk s.tables) pk e := by
    intro hpk
    obtain ⟨e', hle, hat⟩ := hseen hpk
    refine ⟨e', hat, ?_⟩
    rw [hsecond, hwindow]
    omega
  rw [NodeTables.touchRelayNode, hstamp]
  by_cases hempty : pk = ""
  · rw [if_pos hempty]
    exact ⟨h.moves, fun _ hne => absurd hempty hne⟩
  · rw [if_neg hempty]
    cases hread : read s.relayTouched.entries pk with
    | none => exact ⟨hmoves, fun hpk _ => hlag hpk⟩
    | some last =>
        dsimp only
        by_cases hrecent : sub (e * second) last < relayTouchDebounce
        · rw [if_pos hrecent]
          refine ⟨h.moves, fun hpk _ => ?_⟩
          obtain ⟨e', hat, hle⟩ := h.touched pk hpk last hread
          rw [sub_lt_iff (by decide) (by decide)] at hrecent
          exact ⟨e', hat, by omega⟩
        · rw [if_neg hrecent]
          exact ⟨hmoves, fun hpk _ => hlag hpk⟩

theorem Good.foldl_touchRelayNode (h : Good known clock s) (hfirst : earliestStamp ≤ e) (he : e ≤ clock)
    (pubkeys : List String) : Moves known clock s (pubkeys.foldl (NodeTables.touchRelayNode (e * second)) s) ∧
      ∀ pk ∈ pubkeys, known pk → pk ≠ "" →
        Lag (pubkeys.foldl (NodeTables.touchRelayNode (e * second)) s).tables pk e := by
  induction pubkeys generalizing s with
  | nil => exact ⟨h.moves, fun _ hmem => absurd hmem List.not_mem_nil⟩
  | cons pk pubkeys ih =>
      obtain ⟨hone, hlag⟩ := h.touchRelayNode hfirst he pk
      obtain ⟨hrest, hlags⟩ := ih hone.good
      refine ⟨hone.trans hrest, fun q hq hknown hne => ?_⟩
      rcases List.mem_cons.mp hq with rfl | hq
      · exact hrest.lag (hlag hknown hne)
      · exact hlags q hq hknown hne

theorem Good.touchRelayNodesLocked (h : Good known clock s) {pubkeys : List String} {rxTime : String}
    (hreceived : (Call.touch pubkeys rxTime).ReceivedBy clock) :
    Moves known clock s (touchRelayNodesLocked pubkeys rxTime s) ∧
      ∀ pk ∈ pubkeys, known pk → pk ≠ "" → ∀ e, parseRFC3339 rxTime = some (e * second) →
        Lag (NodeTables.touchRelayNodesLocked pubkeys rxTime s).tables pk e := by
  rw [NodeTables.touchRelayNodesLocked]
  by_cases hnone : pubkeys = []
  · rw [if_pos hnone]
    refine ⟨h.moves, fun pk hpk => ?_⟩
    rw [hnone] at hpk
    exact absurd hpk List.not_mem_nil
  · rw [if_neg hnone]
    cases hparse : parseRFC3339 rxTime with
    | none => exact ⟨h.moves, fun _ _ _ _ e he => absurd he.symm (Option.some_ne_none _)⟩
    | some t =>
        obtain ⟨e, rfl, he⟩ := hreceived t hparse
        have hfirst : earliestStamp ≤ e := by
          have hge := parseRFC3339_ge hparse
          rwa [Int.mul_ediv_cancel e (by decide : second ≠ 0)] at hge
        dsimp only
        have hcompacted : Good known clock { s with relayTouched :=
            if relayTouchedMaxEntries ≤ s.relayTouched.entries.length then s.relayTouched.compact (e * second)
            else s.relayTouched } := by
          refine h.of_touched _ fun pk last hread => ?_
          split at hread
          · exact Touched.read_compact hread
          · exact hread
        obtain ⟨hmoves, hlags⟩ := hcompacted.foldl_touchRelayNode hfirst he pubkeys
        refine ⟨⟨hmoves.good, hmoves.forward, hmoves.keys⟩, fun pk hpk hknown hne e' he' => ?_⟩
        have hsame : e * second = e' * second := Option.some.inj he'
        have hsecond : second = 1000000000 := rfl
        rw [hsecond] at hsame
        obtain rfl : e = e' := by omega
        exact hlags pk hpk hknown hne

theorem Good.upsert (h : Good known clock s) (hnow : clock ≤ now) (hbounded : now ≤ lastStamp)
    {pubKey name role lastSeen : String} {lat lon : Option Float}
    (hreceived : (Call.upsert pubKey name role lat lon lastSeen).ReceivedBy now) :
    Good known now (step s (now, .upsert pubKey name role lat lon lastSeen)) ∧
      Forward s.tables (step s (now, .upsert pubKey name role lat lon lastSeen)).tables := by
  obtain ⟨e, hfirst, he, htext⟩ : ∃ e, earliestStamp ≤ e ∧ e ≤ now ∧
      (if lastSeen = "" then stamp now else lastSeen) = stamp e := by
    obtain rfl | ⟨e, hfirst, he, rfl⟩ := hreceived
    · exact ⟨now, h.started.trans hnow, le_rfl, if_pos rfl⟩
    · refine ⟨e, hfirst, he, ite_eq_right_iff.mpr fun hempty => ?_⟩
      exact absurd hempty (stamp_ne_empty e)
  have hnode : ∀ row, s.tables.nodes pubKey = some row → ∃ e', earliestStamp ≤ e' ∧ e' ≤ now ∧
      max (min (row.lastSeen.getD "") (stamp now)) (stamp e) = stamp e' ∧ Later row.lastSeen (some (stamp e')) :=
    fun row hrow => max_min_spec (h.stored pubKey row hrow) hnow hfirst he hbounded
  have hother : ∀ q, q ≠ pubKey →
      (step s (now, .upsert pubKey name role lat lon lastSeen)).tables.nodes q = s.tables.nodes q :=
    fun q hq => Function.update_of_ne hq _ _
  have hself : ∃ row', (step s (now, .upsert pubKey name role lat lon lastSeen)).tables.nodes pubKey = some row' ∧
      Stored now row'.lastSeen ∧ ∀ row, s.tables.nodes pubKey = some row → Later row.lastSeen row'.lastSeen := by
    refine ⟨_, Function.update_self _ _ _, ?_⟩
    rw [htext]
    cases hold : s.tables.nodes pubKey with
    | none => exact ⟨.inr ⟨e, hfirst, he, rfl⟩, fun row hrow => nomatch hrow⟩
    | some row =>
        obtain ⟨e', hfirst', he', hmax, hlater⟩ := hnode row hold
        refine ⟨.inr ⟨e', hfirst', he', congrArg some hmax⟩, fun row' hrow' => ?_⟩
        obtain rfl := Option.some.inj hrow'
        have hlast : Later row.lastSeen (some (max (min (row.lastSeen.getD "") (stamp now)) (stamp e))) := by
          rw [hmax]
          exact hlater
        exact hlast
  obtain ⟨new, hnew, hstoredNew, hlaterNew⟩ := hself
  have hforward : Forward s.tables (step s (now, .upsert pubKey name role lat lon lastSeen)).tables := by
    intro q row hrow
    by_cases hq : q = pubKey
    · subst hq
      exact ⟨new, hnew, hlaterNew row hrow⟩
    · exact ⟨row, (hother q hq).trans hrow, .refl _⟩
  have hstored : ∀ q row, (step s (now, .upsert pubKey name role lat lon lastSeen)).tables.nodes q = some row →
      Stored now row.lastSeen := by
    intro q row hrow
    by_cases hq : q = pubKey
    · subst hq
      rw [hnew] at hrow
      obtain rfl := Option.some.inj hrow
      exact hstoredNew
    · rw [hother q hq] at hrow
      exact (h.stored q row hrow).mono hnow
  refine ⟨⟨h.started.trans hnow, hbounded, hstored, fun q hq => ?_, fun q hq last hlast => ?_⟩, hforward⟩
  · obtain ⟨row, hrow⟩ := h.present q hq
    obtain ⟨row', hrow', -⟩ := hforward q row hrow
    exact ⟨row', hrow'⟩
  · obtain ⟨e', hat, hle⟩ := h.touched q hq last hlast
    obtain ⟨e'', hle', hat'⟩ := hat.forward hforward (hstored q) hbounded
    have hsecond : second = 1000000000 := rfl
    refine ⟨e'', hat', ?_⟩
    rw [hsecond] at hle ⊢
    omega

theorem Good.mono (h : Good known clock s) (hnow : clock ≤ now) (hbounded : now ≤ lastStamp) : Good known now s :=
  ⟨h.started.trans hnow, hbounded, fun pk row hrow => (h.stored pk row hrow).mono hnow, h.present, h.touched⟩

/-- The nodes that a call touches are seen not much earlier. -/
def Lags (known : String → Prop) (t : Tables) (call : Call) : Prop :=
  ∀ pubkeys rxTime, call = .touch pubkeys rxTime → ∀ e, parseRFC3339 rxTime = some (e * second) →
    ∀ pk ∈ pubkeys, pk ≠ "" → known pk → Lag t pk e

/-- A touch makes no row. -/
def MakesNone (t t' : Tables) (call : Call) : Prop := ∀ pubkeys rxTime, call = .touch pubkeys rxTime → SameKeys t t'

theorem Good.step (h : Good known clock s) (hnow : clock ≤ now) (hbounded : now ≤ lastStamp) {call : Call}
    (hreceived : call.ReceivedBy now) :
    Good known now (step s (now, call)) ∧ Forward s.tables (RelayTouches.step s (now, call)).tables ∧
      MakesNone s.tables (RelayTouches.step s (now, call)).tables call ∧
      Lags known (RelayTouches.step s (now, call)).tables call := by
  cases call with
  | touch pubkeys rxTime =>
      obtain ⟨hmoves, hlags⟩ := (h.mono hnow hbounded).touchRelayNodesLocked hreceived
      refine ⟨hmoves.good, hmoves.forward, fun _ _ _ => hmoves.keys, ?_⟩
      rintro _ _ ⟨⟩ e he pk hpk hne hknown
      exact hlags pk hpk hknown hne e he
  | upsert =>
      obtain ⟨hgood, hforward⟩ := h.upsert hnow hbounded hreceived
      exact ⟨hgood, hforward, fun _ _ hcall => (nomatch hcall), fun _ _ hcall => (nomatch hcall)⟩

theorem Good.run (h : Good known clock s) (done : List (Int × Call)) {rest : List (Int × Call)}
    (htimely : Timely clock (done ++ rest)) :
    ∃ clock', Good known clock' (done.foldl RelayTouches.step s) ∧ Timely clock' rest ∧
      Forward s.tables (done.foldl RelayTouches.step s).tables ∧
      ∀ c ∈ done, Lags known (done.foldl RelayTouches.step s).tables c.2 := by
  induction done generalizing s clock with
  | nil => exact ⟨clock, h, htimely, .refl _, fun _ hc => absurd hc List.not_mem_nil⟩
  | cons c done ih =>
      obtain ⟨now, call⟩ := c
      obtain ⟨hnow, hbounded, hreceived, hrest⟩ := htimely
      obtain ⟨hgood, hforward, -, hlags⟩ := h.step hnow hbounded hreceived
      obtain ⟨clock', hgood', htimely', hforward', hlags'⟩ := ih hgood hrest
      refine ⟨clock', hgood', htimely', hforward.trans hforward', fun c hc => ?_⟩
      rcases List.mem_cons.mp hc with rfl | hc
      · intro pubkeys rxTime hcall e he pk hpk hne hknown
        exact (hlags pubkeys rxTime hcall e he pk hpk hne hknown).forward hforward' (hgood'.stored pk) hgood'.bounded
      · exact hlags' c hc

/-- At every time of a run no node was seen later than it is seen after the next call, which makes no row if it is a
touch; and each node that has had a row from the beginning is seen less than a window before each time that it was
touched with. -/
theorem relayTouches_lag (s : State) (clock : Int) (calls : List (Int × Call)) (hstart : earliestStamp ≤ clock)
    (hend : clock ≤ lastStamp) (hstored : ∀ pk row, s.tables.nodes pk = some row → Stored clock row.lastSeen)
    (hnone : s.relayTouched = Touched.empty) (htimely : Timely clock calls) (done : List (Int × Call))
    (hdone : done <+: calls) :
    (∀ now call, done ++ [(now, call)] <+: calls →
      Forward (done.foldl step s).tables (step (done.foldl step s) (now, call)).tables ∧
        MakesNone (done.foldl step s).tables (step (done.foldl step s) (now, call)).tables call) ∧
    ∀ c ∈ done, Lags (fun pk => (s.tables.nodes pk).isSome) (done.foldl step s).tables c.2 := by
  have hgood : Good (fun pk => (s.tables.nodes pk).isSome) clock s := by
    refine ⟨hstart, hend, hstored, fun pk hpk => Option.isSome_iff_exists.mp hpk, fun pk _ last hlast => ?_⟩
    rw [hnone] at hlast
    cases hlast
  constructor
  · rintro now call ⟨rest, hrest⟩
    rw [List.append_assoc] at hrest
    rw [← hrest] at htimely
    obtain ⟨clock', hgood', ⟨hnow, hbounded, hreceived, -⟩, -⟩ := hgood.run done htimely
    obtain ⟨-, hforward, hmakes, -⟩ := hgood'.step hnow hbounded hreceived
    exact ⟨hforward, hmakes⟩
  · obtain ⟨rest, hrest⟩ := hdone
    rw [← hrest] at htimely
    obtain ⟨-, -, -, -, hlags⟩ := hgood.run done htimely
    exact hlags

def unseen : State where
  tables :=
    { nodes := fun pk => if pk = "aa" then
          some { name := none, role := none, lat := none, lon := none, lastSeen := none, firstSeen := none,
                 advertCount := none, configuredScope := none, configuredScopeAt := none, multibyteSup := 0,
                 multibyteEvidence := none }
        else none
      inactiveNodes := fun _ => none }
  relayTouched := Touched.empty

/-- Its node is touched twice within a window, and its advert, received earlier, is stored last. -/
def heardAgain : List (Int × Call) :=
  [(1000, .touch ["aa"] (stamp 1000)), (1060, .touch ["aa"] (stamp 1060)),
    (1090, .upsert "aa" "Hilltop" "repeater" none none (stamp 1020))]

theorem relayTouches_lag_unseen :
    Lag (heardAgain.foldl step unseen).tables "aa" 1000 ∧ Lag (heardAgain.foldl step unseen).tables "aa" 1060 := by
  have hparse : ∀ e, 0 ≤ e → e ≤ lastStamp → parseRFC3339 (stamp e) = some (e * second) := fun e h h' =>
    parseRFC3339_stamp (le_trans (by decide) h) h'
  have htouch : ∀ e now, 0 ≤ e → e ≤ lastStamp → e ≤ now → (Call.touch ["aa"] (stamp e)).ReceivedBy now := by
    intro e now hzero hlast hnow t ht
    rw [hparse e hzero hlast] at ht
    exact ⟨e, (Option.some.inj ht).symm, hnow⟩
  have htimely : Timely 0 heardAgain := by
    refine ⟨by decide, by decide, htouch 1000 1000 (by decide) (by decide) le_rfl, ?_⟩
    refine ⟨by decide, by decide, htouch 1060 1060 (by decide) (by decide) le_rfl, ?_⟩
    exact ⟨by decide, by decide, .inr ⟨1020, by decide, by decide, rfl⟩, trivial⟩
  have hstored : ∀ pk row, unseen.tables.nodes pk = some row → Stored 0 row.lastSeen := by
    intro pk row hrow
    obtain ⟨-, hrow⟩ := Option.ite_none_right_eq_some.mp hrow
    obtain rfl := Option.some.inj hrow
    exact .inl rfl
  have hlags := (relayTouches_lag unseen 0 _ (by decide) (by decide) hstored rfl htimely _ (List.prefix_refl _)).2
  constructor
  · exact hlags _ List.mem_cons_self ["aa"] (stamp 1000) rfl 1000 (hparse 1000 (by decide) (by decide)) "aa"
      List.mem_cons_self (by decide) rfl
  · exact hlags _ (List.mem_cons_of_mem _ List.mem_cons_self) ["aa"] (stamp 1060) rfl 1060
      (hparse 1060 (by decide) (by decide)) "aa" List.mem_cons_self (by decide) rfl

end MeshcoreAnalyzer.RelayTouches

import MeshcoreAnalyzer.Firsts
import MeshcoreAnalyzer.PathHops
import MeshcoreAnalyzer.RelayInfo

namespace MeshcoreAnalyzer.PacketStore.RelayAgreement

open Maps Runs Timestamps Store Firsts

variable {now : Int} {windowHours : ℚ}

def times (es : List RelayEntry) : List (String × Int) :=
  es.filterMap fun e => if e.pt = payloadTypeAdvert then none else (parseRelayTS e.ts).map fun t => (e.ts, t)

def scopes (es : List RelayEntry) : Finset String :=
  ((es.filter fun e => e.pt ≠ payloadTypeAdvert ∧ e.scope ≠ "" ∧ e.viaPrefix = false).map (·.scope)).toFinset

def within (now span : Int) (e : RelayEntry) : Bool :=
  e.pt ≠ payloadTypeAdvert ∧ ∃ t ∈ parseRelayTS e.ts, now - span < t

def latestOf (ts : List (String × Int)) : Int × String :=
  ts.foldl (fun acc u => if acc.1 < u.2 then (u.2, u.1) else acc) (zeroTime, "")

def greatestOf (ts : List (String × Int)) : String :=
  ts.foldl (fun acc u => if acc = "" ∨ acc < u.1 then u.1 else acc) ""

theorem mem_times {es : List RelayEntry} {u : String × Int} : u ∈ times es ↔
    ∃ e ∈ es, e.pt ≠ payloadTypeAdvert ∧ e.ts = u.1 ∧ parseRelayTS e.ts = some u.2 := by
  rw [times]
  rw [List.mem_filterMap]
  constructor
  · rintro ⟨e, he, hu⟩
    split at hu
    · cases hu
    · next hpt =>
        obtain ⟨t, ht, rfl⟩ := Option.map_eq_some_iff.mp hu
        exact ⟨e, he, hpt, rfl, ht⟩
  · rintro ⟨e, he, hpt, hts, ht⟩
    refine ⟨e, he, ?_⟩
    rw [if_neg hpt, ht, hts]
    rfl

theorem parse_of_mem_times {es : List RelayEntry} {u : String × Int} (h : u ∈ times es) :
    parseRelayTS u.1 = some u.2 := by
  obtain ⟨e, _, _, hts, ht⟩ := mem_times.mp h
  exact hts ▸ ht

theorem ne_empty_of_parse {ts : String} {t : Int} (h : parseRelayTS ts = some t) : ts ≠ "" := by
  rintro rfl
  cases h

theorem latestOf_spec (ts : List (String × Int)) :
    (latestOf ts = (zeroTime, "") ∧ ∀ u ∈ ts, u.2 ≤ zeroTime) ∨
      ∃ before u after, ts = before ++ u :: after ∧ latestOf ts = (u.2, u.1) ∧ zeroTime < u.2 ∧
        (∀ v ∈ before, v.2 < u.2) ∧ ∀ v ∈ after, v.2 ≤ u.2 := by
  induction ts using List.reverseRecOn with
  | nil => exact .inl ⟨rfl, fun _ hu => (by cases hu)⟩
  | append_singleton ts w ih =>
      have hfold : latestOf (ts ++ [w]) = if (latestOf ts).1 < w.2 then (w.2, w.1) else latestOf ts :=
        List.foldl_append
      rw [hfold]
      rcases ih with ⟨heq, hall⟩ | ⟨before, u, after, rfl, heq, hzero, hbefore, hafter⟩
      · rw [heq]
        split
        · next hlt =>
            refine .inr ⟨ts, w, [], rfl, rfl, hlt, fun v hv => ?_, fun v hv => (by cases hv)⟩
            exact Int.lt_of_le_of_lt (hall v hv) hlt
        · next hle =>
            refine .inl ⟨rfl, fun v hv => ?_⟩
            rcases List.mem_append.mp hv with hv | hv
            · exact hall v hv
            · rw [List.mem_singleton.mp hv]
              exact Int.not_lt.mp hle
      · rw [heq]
        split
        · next hlt =>
            refine .inr ⟨before ++ u :: after, w, [], rfl, rfl, Int.lt_trans hzero hlt, fun v hv => ?_,
              fun v hv => (by cases hv)⟩
            rcases List.mem_append.mp hv with hv | hv
            · exact Int.lt_trans (hbefore v hv) hlt
            · rcases List.mem_cons.mp hv with rfl | hv
              · exact hlt
              · exact Int.lt_of_le_of_lt (hafter v hv) hlt
        · next hle =>
            refine .inr ⟨before, u, after ++ [w], by simp, rfl, hzero, hbefore, fun v hv => ?_⟩
            rcases List.mem_append.mp hv with hv | hv
            · exact hafter v hv
            · rw [List.mem_singleton.mp hv]
              exact Int.not_lt.mp hle

theorem latestOf_of_first {before after : List (String × Int)} {u : String × Int} (hzero : zeroTime < u.2)
    (hbefore : ∀ v ∈ before, v.2 < u.2) (hafter : ∀ v ∈ after, v.2 ≤ u.2) :
    latestOf (before ++ u :: after) = (u.2, u.1) := by
  have hlt : (latestOf before).1 < u.2 := by
    rcases latestOf_spec before with ⟨heq, _⟩ | ⟨_, v, _, hts, heq, _⟩
    · rw [heq]
      exact hzero
    · rw [heq]
      exact hbefore v (hts ▸ List.mem_append_right _ List.mem_cons_self)
  change List.foldl _ _ (before ++ u :: after) = _
  rw [List.foldl_append, List.foldl_cons, show List.foldl _ _ before = latestOf before from rfl, if_pos hlt]
  refine foldl_invariant (I := fun acc => acc = (u.2, u.1)) rfl ?_
  rintro acc v hv rfl
  exact if_neg (Int.not_lt.mpr (hafter v hv))

theorem greatestOf_spec {ts : List (String × Int)} (h : ∀ u ∈ ts, u.1 ≠ "") :
    (ts = [] ∧ greatestOf ts = "") ∨ (∃ u ∈ ts, u.1 = greatestOf ts) ∧ ∀ u ∈ ts, u.1 ≤ greatestOf ts := by
  induction ts using List.reverseRecOn with
  | nil => exact .inl ⟨rfl, rfl⟩
  | append_singleton ts w ih =>
      have hfold : greatestOf (ts ++ [w]) =
          if greatestOf ts = "" ∨ greatestOf ts < w.1 then w.1 else greatestOf ts := List.foldl_append
      have hlast : w ∈ ts ++ [w] := List.mem_append_right _ (List.mem_singleton_self w)
      refine .inr ?_
      rw [hfold]
      rcases ih fun u hu => h u (List.mem_append_left _ hu) with ⟨rfl, heq⟩ | ⟨⟨u, hu, hgreat⟩, hall⟩
      · rw [if_pos (.inl heq)]
        refine ⟨⟨w, hlast, rfl⟩, fun v hv => ?_⟩
        rw [List.mem_singleton.mp hv]
      · have hne : greatestOf ts ≠ "" := hgreat ▸ h u (List.mem_append_left _ hu)
        split
        · next hlt =>
            refine ⟨⟨w, hlast, rfl⟩, fun v hv => ?_⟩
            rcases List.mem_append.mp hv with hv | hv
            · exact (hall v hv).trans (hlt.resolve_left hne).le
            · rw [List.mem_singleton.mp hv]
        · next hle =>
            refine ⟨⟨u, List.mem_append_left _ hu, hgreat⟩, fun v hv => ?_⟩
            rcases List.mem_append.mp hv with hv | hv
            · exact hall v hv
            · rw [List.mem_singleton.mp hv]
              exact not_lt.mp fun hlt => hle (.inr hlt)

/-- The text of the first of the latest times is the greatest of all texts, and the
time is one that is later than the zero time. -/
def GreatestIsLatest (ts : List (String × Int)) : Prop :=
  ts = [] ∨ ∃ before u after, ts = before ++ u :: after ∧ zeroTime < u.2 ∧
    (∀ v ∈ before, v.2 < u.2 ∧ v.1 ≤ u.1) ∧ ∀ v ∈ after, v.2 ≤ u.2 ∧ v.1 ≤ u.1

theorem greatestOf_eq_latestOf_iff {ts : List (String × Int)} (h : ∀ u ∈ ts, u.1 ≠ "") :
    greatestOf ts = (latestOf ts).2 ↔ GreatestIsLatest ts := by
  constructor
  · intro heq
    rcases greatestOf_spec h with ⟨rfl, _⟩ | ⟨⟨g, hg, hgreat⟩, hall⟩
    · exact .inl rfl
    · rcases latestOf_spec ts with ⟨hzero, _⟩ | ⟨before, u, after, hts, hlatest, hzero, hbefore, hafter⟩
      · rw [hzero] at heq
        exact absurd (hgreat.trans heq) (h g hg)
      · rw [hlatest] at heq
        rw [heq] at hall
        have hmem : ∀ v, v ∈ before ∨ v ∈ after → v ∈ ts := by
          rintro v (hv | hv)
          · rw [hts]
            exact List.mem_append_left _ hv
          · rw [hts]
            exact List.mem_append_right _ (List.mem_cons_of_mem u hv)
        exact .inr ⟨before, u, after, hts, hzero, fun v hv => ⟨hbefore v hv, hall v (hmem v (.inl hv))⟩,
          fun v hv => ⟨hafter v hv, hall v (hmem v (.inr hv))⟩⟩
  · rintro (rfl | ⟨before, u, after, hts, hzero, hbefore, hafter⟩)
    · rfl
    · have hu : u ∈ ts := hts ▸ List.mem_append_right _ List.mem_cons_self
      have htop : ∀ v ∈ ts, v.2 ≤ u.2 ∧ v.1 ≤ u.1 := by
        intro v hv
        rw [hts] at hv
        rcases List.mem_append.mp hv with hv | hv
        · exact ⟨(hbefore v hv).1.le, (hbefore v hv).2⟩
        · rcases List.mem_cons.mp hv with rfl | hv
          · exact ⟨Int.le_refl _, le_refl _⟩
          · exact hafter v hv
      have hgreatest : greatestOf ts = u.1 := by
        rcases greatestOf_spec h with ⟨hnil, _⟩ | ⟨⟨g, hg, hgreat⟩, hall⟩
        · rw [hnil] at hu
          cases hu
        · exact le_antisymm (hgreat ▸ (htop g hg).2) (hall u hu)
      rw [hgreatest, hts, latestOf_of_first hzero (fun v hv => (hbefore v hv).1) fun v hv => (hafter v hv).1]

theorem greatestOf_congr {ts ts' : List (String × Int)} (h : ∀ u ∈ ts, u.1 ≠ "")
    (hmem : ∀ u, u ∈ ts ↔ u ∈ ts') : greatestOf ts = greatestOf ts' := by
  have h' : ∀ u ∈ ts', u.1 ≠ "" := fun u hu => h u ((hmem u).mpr hu)
  rcases greatestOf_spec h with ⟨rfl, heq⟩ | ⟨⟨u, hu, hgreat⟩, hall⟩
  · have hnil : ts' = [] := List.eq_nil_iff_forall_not_mem.mpr fun u hu => (by cases (hmem u).mpr hu)
    rw [hnil]
  · rcases greatestOf_spec h' with ⟨rfl, _⟩ | ⟨⟨v, hv, hgreat'⟩, hall'⟩
    · cases (hmem u).mp hu
    · apply le_antisymm
      · exact hgreat ▸ hall' u ((hmem u).mp hu)
      · exact hgreat' ▸ hall v ((hmem v).mpr hv)

variable {es : List RelayEntry} {e : RelayEntry} {t : Int}

theorem times_advert (h : e.pt = payloadTypeAdvert) : times (es ++ [e]) = times es := by
  unfold times
  simp [h]

theorem times_unread (hts : parseRelayTS e.ts = none) : times (es ++ [e]) = times es := by
  unfold times
  simp [hts]

theorem times_read (h : e.pt ≠ payloadTypeAdvert) (hts : parseRelayTS e.ts = some t) :
    times (es ++ [e]) = times es ++ [(e.ts, t)] := by
  unfold times
  simp [h, hts]

theorem scopes_advert (h : e.pt = payloadTypeAdvert) : scopes (es ++ [e]) = scopes es := by
  unfold scopes
  simp [h]

theorem scopes_add (h : e.pt ≠ payloadTypeAdvert) : scopes (es ++ [e]) =
    if e.scope ≠ "" ∧ e.viaPrefix = false then insert e.scope (scopes es) else scopes es := by
  unfold scopes
  by_cases hscope : e.scope ≠ "" ∧ e.viaPrefix = false
  · rw [if_pos hscope, List.filter_append, List.filter_cons_of_pos (by simp [h, hscope]), List.filter_nil,
      List.map_append, List.toFinset_append]
    simp [Finset.union_comm]
  · rw [if_neg hscope, List.filter_append, List.filter_cons_of_neg (by simpa [h] using hscope), List.filter_nil,
      List.append_nil]

theorem within_advert (h : e.pt = payloadTypeAdvert) (span : Int) : within now span e = false := by
  simp [within, h]

theorem within_unread (hts : parseRelayTS e.ts = none) (span : Int) : within now span e = false := by
  simp [within, hts]

theorem within_read (h : e.pt ≠ payloadTypeAdvert) (hts : parseRelayTS e.ts = some t) (span : Int) :
    within now span e = decide (now - span < t) := by
  simp [within, h, hts]

theorem day_of_hour (h : now - hour < t) : now - 24 * hour < t := by
  unfold hour second at *
  omega

theorem within_day {e : RelayEntry} (h : within now hour e = true) : within now (24 * hour) e = true := by
  unfold within at *
  rw [decide_eq_true_eq] at *
  obtain ⟨hpt, t, ht, hlt⟩ := h
  exact ⟨hpt, t, ht, day_of_hour hlt⟩

def tallyOf (now : Int) (es : List RelayEntry) : RelayTally where
  latest := (latestOf (times es)).1
  latestRaw := (latestOf (times es)).2
  scopeSet := scopes es
  relayCount1h := es.countP (within now hour)
  relayCount24h := es.countP (within now (24 * hour))
  unscopedRelayCount24h := es.countP fun e => within now (24 * hour) e && e.rt = routeTypeFlood

theorem tallyOf_snoc (es : List RelayEntry) (e : RelayEntry) :
    tallyOf now (es ++ [e]) = (tallyOf now es).add now e := by
  unfold tallyOf RelayTally.add
  simp only [List.countP_append, List.countP_singleton]
  by_cases h : e.pt = payloadTypeAdvert
  · simp [h, times_advert h, scopes_advert h, within_advert h]
  · cases hts : parseRelayTS e.ts with
    | none =>
        simp only [h, if_false, times_unread hts, scopes_add h, within_unread hts]
        rw [RelayTally.addScope]
        split <;> simp
    | some t =>
        have hlatest : latestOf (times es ++ [(e.ts, t)]) =
            if (latestOf (times es)).1 < t then (t, e.ts) else latestOf (times es) := List.foldl_append
        simp only [h, if_false, times_read h hts, scopes_add h, within_read h hts, hlatest]
        unfold RelayTally.addScope RelayTally.addTime
        by_cases h24 : now - 24 * hour < t
        · by_cases h1 : now - hour < t
          · simp only [h24, h1, if_true, decide_true, Bool.true_and]
            split_ifs <;> simp_all
          · simp only [h24, h1, if_true, if_false, decide_true, decide_false, Bool.true_and]
            split_ifs <;> simp_all
        · have h1 : ¬ now - hour < t := fun h1 => h24 (day_of_hour h1)
          simp only [h24, h1, if_false, decide_false, Bool.false_and]
          split_ifs <;> simp_all

theorem foldl_add_eq (es : List RelayEntry) : es.foldl (RelayTally.add now) .zero = tallyOf now es := by
  induction es using List.reverseRecOn with
  | nil => rfl
  | append_singleton es e ih => rw [List.foldl_append, ih, tallyOf_snoc, List.foldl_cons, List.foldl_nil]

def addEntry (now : Int) (windowHours : ℚ) (a : BulkTally) (e : RelayEntry) : BulkTally :=
  if e.pt = payloadTypeAdvert then a
  else
    let a := if e.scope ≠ "" ∧ e.viaPrefix = false then { a with scopeSet := insert e.scope a.scopeSet } else a
    match parseRelayTS e.ts with
    | none => a
    | some t =>
        let a := if now - 24 * hour < t then
          { a with
            relayCount24h := a.relayCount24h + 1
            unscopedRelayCount24h := a.unscopedRelayCount24h + if e.rt = routeTypeFlood then 1 else 0
            relayCount1h := a.relayCount1h + if now - hour < t then 1 else 0 }
          else a
        if a.lastRelayed = "" ∨ a.lastRelayed < e.ts then
          { a with
            lastRelayed := e.ts
            relayActive := if 0 < windowHours then now - windowDuration windowHours < t else a.relayActive }
        else a

theorem add_eq_addEntry {cache : GoMap Int ParsedTx} {row : TxRow}
    (hcache : cache row.id = some ⟨parseRelayTS row.firstSeen, row.payloadType.getD (-1)⟩) (viaPrefix : Bool)
    (a : BulkTally) :
    a.add cache now windowHours viaPrefix row = addEntry now windowHours a (.ofRow row viaPrefix) := by
  have hscope : a.addScope row viaPrefix =
      if row.scopeName.getD "" ≠ "" ∧ viaPrefix = false then
        { a with scopeSet := insert (row.scopeName.getD "") a.scopeSet } else a := by
    rw [BulkTally.addScope]
    cases row.scopeName with
    | none => rfl
    | some scope => rfl
  have hroute : ∀ n : Nat, (n + if row.routeType = some routeTypeFlood then 1 else 0) =
      n + if row.routeType.getD (-1) = routeTypeFlood then 1 else 0 := by
    intro n
    cases row.routeType with
    | none => rfl
    | some rt => simp
  rw [BulkTally.add, addEntry, RelayEntry.ofRow]
  rw [hcache, hscope]
  dsimp only
  split
  · rfl
  · cases parseRelayTS row.firstSeen with
    | none => rfl
    | some t =>
        unfold BulkTally.addTime
        simp only [hroute]

def bulkOf (now : Int) (windowHours : ℚ) (es : List RelayEntry) : BulkTally where
  lastRelayed := greatestOf (times es)
  relayActive := 0 < windowHours ∧
    ∃ t ∈ parseRelayTS (greatestOf (times es)), now - windowDuration windowHours < t
  scopeSet := scopes es
  relayCount1h := es.countP (within now hour)
  relayCount24h := es.countP (within now (24 * hour))
  unscopedRelayCount24h := es.countP fun e => within now (24 * hour) e && e.rt = routeTypeFlood
  seen := none

theorem bulkOf_snoc (es : List RelayEntry) (e : RelayEntry) :
    bulkOf now windowHours (es ++ [e]) = addEntry now windowHours (bulkOf now windowHours es) e := by
  unfold bulkOf addEntry
  simp only [List.countP_append, List.countP_singleton]
  by_cases h : e.pt = payloadTypeAdvert
  · simp [h, times_advert h, scopes_advert h, within_advert h]
  · cases hts : parseRelayTS e.ts with
    | none =>
        simp only [h, if_false, times_unread hts, scopes_add h, within_unread hts]
        by_cases hs : e.scope ≠ "" ∧ e.viaPrefix = false
        · simp [hs]
        · simp [hs]
    | some t =>
        have hgreatest : greatestOf (times es ++ [(e.ts, t)]) =
            if greatestOf (times es) = "" ∨ greatestOf (times es) < e.ts then e.ts else greatestOf (times es) :=
          List.foldl_append
        simp only [h, if_false, times_read h hts, scopes_add h, within_read h hts, hgreatest]
        generalize greatestOf (times es) = g
        have hactive : (if g = "" ∨ g < e.ts then (if 0 < windowHours then
              decide (now - windowDuration windowHours < t) else
              decide (0 < windowHours ∧ ∃ t ∈ parseRelayTS g, now - windowDuration windowHours < t)) else
              decide (0 < windowHours ∧ ∃ t ∈ parseRelayTS g, now - windowDuration windowHours < t)) =
            decide (0 < windowHours ∧ ∃ t ∈ parseRelayTS (if g = "" ∨ g < e.ts then e.ts else g),
              now - windowDuration windowHours < t) := by
          by_cases hg : g = "" ∨ g < e.ts
          · rw [if_pos hg, if_pos hg, hts]
            by_cases hw : 0 < windowHours
            · simp [hw]
            · simp [hw]
          · rw [if_neg hg, if_neg hg]
        rw [← hactive]
        by_cases h24 : now - 24 * hour < t
        · by_cases h1 : now - hour < t
          · simp only [h24, h1, if_true, decide_true, Bool.true_and, decide_eq_true_eq]
            split_ifs <;> rfl
          · simp only [h24, h1, if_true, if_false, decide_true, Bool.true_and, decide_eq_true_eq]
            split_ifs <;> rfl
        · have h1 : ¬ now - hour < t := fun h1 => h24 (day_of_hour h1)
          simp only [h24, h1, if_false, decide_false, Bool.false_and, Bool.false_eq_true]
          split_ifs <;> rfl

theorem foldl_addEntry_eq (es : List RelayEntry) :
    es.foldl (addEntry now windowHours) (.zero none) = bulkOf now windowHours es := by
  induction es using List.reverseRecOn with
  | nil => simp [bulkOf, BulkTally.zero, times, scopes, greatestOf, parseRelayTS]
  | append_singleton es e ih => rw [List.foldl_append, ih, bulkOf_snoc, List.foldl_cons, List.foldl_nil]

def tagged (s : Store) (key : String) : List (TxRef × Bool) :=
  (bucket s.byPathHop key).map (·, false) ++ (s.prefixList key).map (·, true)

def idOf (s : Store) (x : TxRef × Bool) : Int := (s.row x.1).id

def entry (s : Store) (x : TxRef × Bool) : RelayEntry := .ofRow (s.row x.1) x.2

theorem foldl_collect (s : Store) (l : List (TxRef × Bool)) (seen : List Int) (es : List RelayEntry) :
    (l.foldl (fun acc x => s.collect x.2 acc x.1) (seen, es)).2 =
      es ++ (firsts (idOf s) seen l).map (entry s) := by
  induction l generalizing seen es with
  | nil => simp [firsts]
  | cons x l ih =>
      have hstep : s.collect x.2 (seen, es) x.1 =
          if idOf s x ∈ seen then (seen, es) else (idOf s x :: seen, es ++ [entry s x]) := rfl
      rw [List.foldl_cons, firsts_cons, hstep]
      by_cases hx : idOf s x ∈ seen
      · rw [if_pos hx, if_pos hx]
        exact ih seen es
      · rw [if_neg hx, if_neg hx, ih, List.map_cons, List.append_assoc]
        rfl

theorem collectRelayEntries_eq (s : Store) (key : String) :
    s.collectRelayEntriesLocked key = (firsts (idOf s) [] (tagged s key)).map (entry s) := by
  have h := foldl_collect s (tagged s key) [] []
  unfold tagged at h
  rw [List.foldl_append, List.foldl_map, List.foldl_map] at h
  exact h

def OneRow (s : Store) : Prop := ∀ k k' r r', r ∈ bucket s.byPathHop k → r' ∈ bucket s.byPathHop k' →
  (s.row r).id = (s.row r').id → s.row r = s.row r'

/-- The keys of the index. -/
def Ranges (s : Store) (keys : List String) : Prop := ∀ k, k ∈ keys ↔ (s.byPathHop k).isSome

def parsed (row : TxRow) : ParsedTx := ⟨parseRelayTS row.firstSeen, row.payloadType.getD (-1)⟩

theorem parseCache_fold (row : TxRef → TxRow) (rs : List TxRef) (m : GoMap Int ParsedTx) (i : Int) :
    (∀ p, m i = some p → rs.foldl (fun m r => if (m (row r).id).isSome then m
      else set m (row r).id (parsed (row r))) m i = some p) ∧
    (m i = none → (∃ r ∈ rs, (row r).id = i) → ∃ r ∈ rs, (row r).id = i ∧
      rs.foldl (fun m r => if (m (row r).id).isSome then m
        else set m (row r).id (parsed (row r))) m i = some (parsed (row r))) := by
  induction rs generalizing m with
  | nil => exact ⟨fun p hp => hp, fun _ ⟨r, hr, _⟩ => (by cases hr)⟩
  | cons q rs ih =>
      rw [List.foldl_cons]
      have hother : (row q).id ≠ i → (if (m (row q).id).isSome then m
          else set m (row q).id (parsed (row q))) i = m i := by
        intro hne
        split
        · rfl
        · rw [set_apply, if_neg (Ne.symm hne)]
      constructor
      · intro p hp
        apply (ih _).1
        by_cases hq : (row q).id = i
        · rw [hq, hp]
          exact hp
        · rw [hother hq]
          exact hp
      · rintro hnone ⟨r, hr, hri⟩
        by_cases hq : (row q).id = i
        · refine ⟨q, List.mem_cons_self, hq, (ih _).1 _ ?_⟩
          rw [hq, hnone]
          change set m i (parsed (row q)) i = _
          rw [set_apply, if_pos rfl]
        · have hrs : r ∈ rs := (List.mem_cons.mp hr).resolve_left fun h => hq (h ▸ hri)
          obtain ⟨t, ht, hti, heq⟩ := (ih _).2 ((hother hq).trans hnone) ⟨r, hrs, hri⟩
          exact ⟨t, List.mem_cons_of_mem q ht, hti, heq⟩

theorem parseCache_eq {s : Store} {keys : List String} (hone : OneRow s) (hkeys : Ranges s keys) {k : String}
    {r : TxRef} (hr : r ∈ bucket s.byPathHop k) : s.parseCache keys (s.row r).id = some (parsed (s.row r)) := by
  have hk : k ∈ keys := by
    rw [hkeys]
    unfold bucket at hr
    cases h : s.byPathHop k with
    | none =>
        rw [h] at hr
        cases hr
    | some l => rfl
  have hall : r ∈ keys.flatMap (bucket s.byPathHop) := List.mem_flatMap.mpr ⟨k, hk, hr⟩
  obtain ⟨q, hq, hqi, heq⟩ := (parseCache_fold s.row (keys.flatMap (bucket s.byPathHop)) Maps.empty (s.row r).id).2
    rfl ⟨r, hall, rfl⟩
  obtain ⟨k', _, hq⟩ := List.mem_flatMap.mp hq
  rw [hone k k' r q hr hq hqi.symm]
  rw [hone k k' r q hr hq hqi.symm] at heq
  exact heq

def withSeen (a : BulkTally) (seen : Option (List Int)) : BulkTally := { a with seen := seen }

@[simp] theorem withSeen_withSeen (a : BulkTally) (seen seen' : Option (List Int)) :
    withSeen (withSeen a seen) seen' = withSeen a seen' := rfl

theorem withSeen_of_eq {a : BulkTally} {seen : Option (List Int)} (h : a.seen = seen) : withSeen a seen = a := by
  subst h
  rfl

theorem add_withSeen (cache : GoMap Int ParsedTx) (viaPrefix : Bool) (a : BulkTally) (row : TxRow)
    (seen : Option (List Int)) : (withSeen a seen).add cache now windowHours viaPrefix row =
      withSeen (a.add cache now windowHours viaPrefix row) seen := by
  have hscope : (withSeen a seen).addScope row viaPrefix = withSeen (a.addScope row viaPrefix) seen := by
    unfold BulkTally.addScope
    cases row.scopeName with
    | none => rfl
    | some scope =>
        dsimp only
        split <;> rfl
  unfold BulkTally.add
  split
  · rfl
  · split
    · rfl
    · split
      · exact hscope
      · rw [hscope]
        unfold BulkTally.addTime withSeen
        dsimp only
        split_ifs <;> rfl

theorem seen_add (cache : GoMap Int ParsedTx) (viaPrefix : Bool) (a : BulkTally) (row : TxRow) :
    (a.add cache now windowHours viaPrefix row).seen = a.seen := by
  have h : (withSeen a a.seen).add cache now windowHours viaPrefix row =
      withSeen (a.add cache now windowHours viaPrefix row) a.seen := add_withSeen cache viaPrefix a row a.seen
  rw [withSeen_of_eq rfl] at h
  rw [h]
  rfl

theorem foldl_visit_some (now : Int) (windowHours : ℚ) (s : Store) (cache : GoMap Int ParsedTx) (l : List (TxRef × Bool)) (seen : List Int)
    (a : BulkTally) (ha : a.seen = some seen) :
    withSeen (l.foldl (fun a x => a.visit cache now windowHours x.2 (s.row x.1)) a) none =
      (firsts (idOf s) seen l).foldl (fun a x => a.add cache now windowHours x.2 (s.row x.1)) (withSeen a none) := by
  induction l generalizing seen a with
  | nil => rfl
  | cons x l ih =>
      have hstep : a.visit cache now windowHours x.2 (s.row x.1) = if idOf s x ∈ seen then a else
          (withSeen a (some (idOf s x :: seen))).add cache now windowHours x.2 (s.row x.1) := by
        rw [BulkTally.visit]
        rw [ha]
        rfl
      rw [List.foldl_cons, firsts_cons, hstep]
      by_cases hx : idOf s x ∈ seen
      · rw [if_pos hx, if_pos hx]
        exact ih seen a ha
      · have hseen : (withSeen a (some (idOf s x :: seen))).add cache now windowHours x.2 (s.row x.1) =
            withSeen (a.add cache now windowHours x.2 (s.row x.1)) (some (idOf s x :: seen)) :=
          add_withSeen cache x.2 a (s.row x.1) _
        rw [if_neg hx, if_neg hx, hseen, ih (idOf s x :: seen) _ rfl, List.foldl_cons, add_withSeen]
        rfl

theorem foldl_visit_none (now : Int) (windowHours : ℚ) (s : Store) (cache : GoMap Int ParsedTx) (l : List (TxRef × Bool)) (a : BulkTally)
    (ha : a.seen = none) : l.foldl (fun a x => a.visit cache now windowHours x.2 (s.row x.1)) a =
      l.foldl (fun a x => a.add cache now windowHours x.2 (s.row x.1)) a := by
  induction l generalizing a with
  | nil => rfl
  | cons x l ih =>
      have hstep : a.visit cache now windowHours x.2 (s.row x.1) = a.add cache now windowHours x.2 (s.row x.1) := by
        rw [BulkTally.visit]
        rw [ha]
      rw [List.foldl_cons, List.foldl_cons, hstep]
      apply ih
      rw [seen_add, ha]

theorem isSome_foldl_visit (now : Int) (windowHours : ℚ) (s : Store) (cache : GoMap Int ParsedTx) (viaPrefix : Bool) (rs : List TxRef)
    (a : BulkTally) (ha : a.seen.isSome) :
    (rs.foldl (fun a r => a.visit cache now windowHours viaPrefix (s.row r)) a).seen.isSome := by
  refine foldl_invariant (I := fun a : BulkTally => a.seen.isSome) ha fun a r _ ha => ?_
  rw [BulkTally.visit]
  split
  · next h =>
      rw [h] at ha
      cases ha
  · split
    · exact ha
    · rw [seen_add]
      rfl

def visited (s : Store) (key : String) : List (TxRef × Bool) :=
  if s.prefixList key = [] then tagged s key else firsts (idOf s) [] (tagged s key)

theorem mem_tagged {s : Store} {key : String} {x : TxRef × Bool} (hx : x ∈ tagged s key) :
    ∃ k, x.1 ∈ bucket s.byPathHop k := by
  rcases List.mem_append.mp hx with hx | hx
  · obtain ⟨r, hr, rfl⟩ := List.mem_map.mp hx
    exact ⟨key, hr⟩
  · obtain ⟨r, hr, rfl⟩ := List.mem_map.mp hx
    unfold prefixList at hr
    split at hr
    · next p _ =>
        split at hr
        · exact ⟨p, hr⟩
        · cases hr
    · cases hr

theorem visited_subset (s : Store) (key : String) : visited s key ⊆ tagged s key := by
  rw [visited]
  split
  · exact List.Subset.refl _
  · exact firsts_subset

theorem bulkTally_eq {s : Store} {keys : List String} (hone : OneRow s) (hkeys : Ranges s keys) (key : String) :
    withSeen (s.bulkTally keys now windowHours key) none =
      bulkOf now windowHours ((visited s key).map (entry s)) := by
  have hadd : ∀ (l : List (TxRef × Bool)) (a : BulkTally), l ⊆ tagged s key →
      l.foldl (fun a x => a.add (s.parseCache keys) now windowHours x.2 (s.row x.1)) a =
        (l.map (entry s)).foldl (addEntry now windowHours) a := by
    intro l a hl
    rw [List.foldl_map]
    apply List.foldl_ext
    intro a x hx
    obtain ⟨k, hk⟩ := mem_tagged (hl hx)
    exact add_eq_addEntry (parseCache_eq hone hkeys hk) x.2 a
  rw [← foldl_addEntry_eq, ← hadd _ _ (visited_subset s key)]
  rw [bulkTally, visited]
  dsimp only
  by_cases hleast : s.prefixList key = []
  · have htagged : tagged s key = (bucket s.byPathHop key).map (·, false) := by
      rw [tagged]
      rw [hleast]
      exact List.append_nil _
    have hseen : ∀ (l : List (TxRef × Bool)) (a : BulkTally), a.seen = none →
        (l.foldl (fun a x => a.add (s.parseCache keys) now windowHours x.2 (s.row x.1)) a).seen = none :=
      fun l a ha => foldl_invariant (I := fun a : BulkTally => a.seen = none) ha fun a x _ ha => by
        rw [seen_add, ha]
    have hfold := foldl_visit_none now windowHours s (s.parseCache keys) (tagged s key)
      (.zero none) rfl
    have hnone := hseen (tagged s key) (.zero none) rfl
    rw [if_pos hleast, if_pos hleast]
    rw [← hfold] at hnone ⊢
    rw [htagged, List.foldl_map] at hnone ⊢
    rw [hnone]
    exact withSeen_of_eq hnone
  · have hsome := isSome_foldl_visit now windowHours s (s.parseCache keys) false
      (bucket s.byPathHop key) (.zero (some [])) rfl
    have hfold := foldl_visit_some now windowHours s (s.parseCache keys) (tagged s key) []
      (.zero (some [])) rfl
    rw [if_neg hleast, if_neg hleast, if_pos hsome]
    unfold tagged at hfold ⊢
    rw [List.foldl_append, List.foldl_map, List.foldl_map] at hfold
    exact hfold

theorem tagged_of_prefixList {s : Store} {key : String} (h : s.prefixList key = []) :
    tagged s key = (bucket s.byPathHop key).map (·, false) := by
  rw [tagged]
  rw [h]
  exact List.append_nil _

theorem entry_eq {s : Store} (hone : OneRow s) {key : String} (hleast : s.prefixList key = []) :
    ∀ x ∈ tagged s key, ∀ y ∈ tagged s key, idOf s x = idOf s y → entry s x = entry s y := by
  rw [tagged_of_prefixList hleast]
  intro x hx y hy heq
  obtain ⟨r, hr, rfl⟩ := List.mem_map.mp hx
  obtain ⟨q, hq, rfl⟩ := List.mem_map.mp hy
  have hrow : s.row r = s.row q := hone key key r q hr hq heq
  unfold entry
  rw [hrow]

theorem mem_visited_iff {s : Store} (hone : OneRow s) (key : String) (e : RelayEntry) :
    e ∈ (visited s key).map (entry s) ↔ e ∈ s.collectRelayEntriesLocked key := by
  rw [collectRelayEntries_eq]
  rw [visited]
  split
  · next hleast =>
      constructor
      · intro he
        obtain ⟨x, hx, rfl⟩ := List.mem_map.mp he
        obtain ⟨y, hy, heq⟩ := exists_mem_firsts hx (List.not_mem_nil : idOf s x ∉ [])
        exact List.mem_map.mpr ⟨y, hy, entry_eq hone hleast y (firsts_subset hy) x hx heq⟩
      · intro he
        obtain ⟨x, hx, rfl⟩ := List.mem_map.mp he
        exact List.mem_map_of_mem (firsts_subset hx)
  · exact Iff.rfl

theorem mem_times_congr {es es' : List RelayEntry} (h : ∀ e, e ∈ es ↔ e ∈ es') (u : String × Int) :
    u ∈ times es ↔ u ∈ times es' := by
  rw [mem_times, mem_times]
  exact exists_congr fun e => and_congr_left fun _ => h e

theorem scopes_congr {es es' : List RelayEntry} (h : ∀ e, e ∈ es ↔ e ∈ es') : scopes es = scopes es' := by
  ext scope
  unfold scopes
  simp only [List.mem_toFinset, List.mem_map, List.mem_filter]
  exact exists_congr fun e => and_congr_left fun _ => and_congr_left fun _ => h e

def lastDay (s : Store) (now : Int) (key : String) : List Int :=
  ((bucket s.byPathHop key).filter fun r => within now (24 * hour) (.ofRow (s.row r) false)).map fun r => (s.row r).id

theorem countP_visited_iff {s : Store} (hone : OneRow s) (key : String) (p : RelayEntry → Bool) :
    ((visited s key).map (entry s)).countP p = (s.collectRelayEntriesLocked key).countP p ↔
      s.prefixList key ≠ [] ∨
        (((bucket s.byPathHop key).filter fun r => p (.ofRow (s.row r) false)).map fun r => (s.row r).id).Nodup := by
  rw [collectRelayEntries_eq]
  rw [visited]
  split
  · next hleast =>
      have hp : ∀ x ∈ tagged s key, ∀ y ∈ tagged s key, idOf s x = idOf s y → (p ∘ entry s) x = (p ∘ entry s) y :=
        fun x hx y hy heq => congrArg p (entry_eq hone hleast x hx y hy heq)
      have hids : ((tagged s key).filter (p ∘ entry s)).map (idOf s) =
          ((bucket s.byPathHop key).filter fun r => p (.ofRow (s.row r) false)).map fun r => (s.row r).id := by
        rw [tagged_of_prefixList hleast, List.filter_map, List.map_map]
        rfl
      rw [List.countP_map, List.countP_map, eq_comm, countP_firsts_eq_iff hp, hids]
      exact ⟨.inr, fun h => h.resolve_left fun hne => hne hleast⟩
  · next hleast => exact iff_of_true rfl (.inl hleast)

theorem countP_visited_of {s : Store} (hone : OneRow s) {key : String}
    (h : s.prefixList key ≠ [] ∨ (lastDay s now key).Nodup) {p : RelayEntry → Bool}
    (hp : ∀ e, p e = true → within now (24 * hour) e = true) :
    ((visited s key).map (entry s)).countP p = (s.collectRelayEntriesLocked key).countP p := by
  rw [countP_visited_iff hone]
  refine h.imp_right fun hnd => hnd.sublist (List.Sublist.map _ ?_)
  exact List.monotone_filter_right _ fun r hr => hp _ hr

/-- The condition under which the two agree: no ID is counted twice for lack of a
prefix bucket, and the texts of the times are ordered like the times. -/
def Agrees (s : Store) (now : Int) (key : String) : Prop :=
  if key = "" then
    ∀ r ∈ bucket s.byPathHop key, (s.row r).payloadType = some payloadTypeAdvert ∨
      (s.row r).scopeName.getD "" = "" ∧ parseRelayTS (s.row r).firstSeen = none
  else
    (s.prefixList key ≠ [] ∨ (lastDay s now key).Nodup) ∧
      GreatestIsLatest (times (s.collectRelayEntriesLocked key))

theorem bulk_eq_iff {s : Store} {keys : List String} (hone : OneRow s) (hkeys : Ranges s keys) {key : String}
    (hmem : key ∈ keys) (info : RepeaterRelayInfo) :
    s.computeRepeaterRelayInfoMap keys now windowHours key = some info ↔
      let b := bulkOf now windowHours ((visited s key).map (entry s))
      info = ⟨b.lastRelayed, b.relayActive, windowHours, b.relayCount1h, b.relayCount24h, b.unscopedRelayCount24h,
        sortedCappedScopes b.scopeSet⟩ := by
  rw [← bulkTally_eq hone hkeys key]
  rw [computeRepeaterRelayInfoMap]
  rw [if_pos hmem, Option.some.injEq]
  exact eq_comm

theorem bulkOf_blank_iff (es : List RelayEntry) (hvia : ∀ e ∈ es, e.viaPrefix = false) :
    (greatestOf (times es) = "" ∧ scopes es = ∅) ↔
      ∀ e ∈ es, e.pt = payloadTypeAdvert ∨ e.scope = "" ∧ parseRelayTS e.ts = none := by
  have hempty : greatestOf (times es) = "" ↔ times es = [] := by
    have htexts : ∀ u ∈ times es, u.1 ≠ "" := fun u hu => ne_empty_of_parse (parse_of_mem_times hu)
    constructor
    · intro heq
      rcases greatestOf_spec htexts with ⟨hnil, _⟩ | ⟨⟨u, hu, hgreat⟩, _⟩
      · exact hnil
      · exact absurd (hgreat.trans heq) (htexts u hu)
    · intro hnil
      rw [hnil]
      rfl
  rw [hempty, List.eq_nil_iff_forall_not_mem, Finset.eq_empty_iff_forall_notMem]
  constructor
  · rintro ⟨htimes, hscopes⟩ e he
    by_cases hpt : e.pt = payloadTypeAdvert
    · exact .inl hpt
    · refine .inr ⟨?_, ?_⟩
      · by_contra hscope
        apply hscopes e.scope
        rw [scopes]
        rw [List.mem_toFinset]
        exact List.mem_map_of_mem (List.mem_filter.mpr ⟨he, by simp [hpt, hscope, hvia e he]⟩)
      · cases hts : parseRelayTS e.ts with
        | none => rfl
        | some t => exact absurd (mem_times.mpr ⟨e, he, hpt, rfl, hts⟩) (htimes (e.ts, t))
  · intro hall
    constructor
    · intro u hu
      obtain ⟨e, he, hpt, _, hts⟩ := mem_times.mp hu
      rcases hall e he with hadvert | ⟨_, hnone⟩
      · exact hpt hadvert
      · rw [hnone] at hts
        cases hts
    · intro scope hm
      unfold scopes at hm
      rw [List.mem_toFinset] at hm
      obtain ⟨e, he, _⟩ := List.mem_map.mp hm
      obtain ⟨he, hp⟩ := List.mem_filter.mp he
      rw [decide_eq_true_eq] at hp
      rcases hall e he with hadvert | ⟨hscope, _⟩
      · exact hp.1 hadvert
      · exact hp.2.1 hscope

theorem sortedCappedScopes_eq_nil {scopes : Finset String} (h : sortedCappedScopes scopes = []) : scopes = ∅ := by
  unfold sortedCappedScopes maxTransportedScopes at h
  rcases List.take_eq_nil_iff.mp h with h | h
  · cases h
  · rw [← Finset.sort_toFinset scopes (· ≤ ·), h]
    rfl

theorem agree_iff {s : Store} {keys : List String} (hone : OneRow s) (hkeys : Ranges s keys) {key : String}
    (hmem : (s.byPathHop key).isSome) (hlower : toLower key = key) :
    s.computeRepeaterRelayInfoMap keys now windowHours key = some (s.getRepeaterRelayInfo now key windowHours) ↔
      Agrees s now key := by
  have htexts : ∀ es : List RelayEntry, ∀ u ∈ times es, u.1 ≠ "" := fun es u hu =>
    ne_empty_of_parse (parse_of_mem_times hu)
  rw [bulk_eq_iff hone hkeys ((hkeys key).mpr hmem)]
  rw [getRepeaterRelayInfo, Agrees, bulkOf]
  rw [hlower]
  by_cases hkey : key = ""
  · subst hkey
    rw [if_pos rfl, if_pos rfl]
    have hvisited : (visited s "").map (entry s) =
        (bucket s.byPathHop "").map fun r => RelayEntry.ofRow (s.row r) false := by
      rw [visited]
      rw [if_pos (by rfl), tagged_of_prefixList (by rfl), List.map_map]
      rfl
    have hblank := bulkOf_blank_iff ((visited s "").map (entry s)) (by simp [hvisited, RelayEntry.ofRow])
    have hall : (∀ e ∈ (visited s "").map (entry s), e.pt = payloadTypeAdvert ∨
          e.scope = "" ∧ parseRelayTS e.ts = none) ↔
        ∀ r ∈ bucket s.byPathHop "", (s.row r).payloadType = some payloadTypeAdvert ∨
          (s.row r).scopeName.getD "" = "" ∧ parseRelayTS (s.row r).firstSeen = none := by
      rw [hvisited, List.forall_mem_map]
      refine forall₂_congr fun r _ => or_congr_left ?_
      change (s.row r).payloadType.getD (-1) = payloadTypeAdvert ↔ _
      cases (s.row r).payloadType <;> simp
    rw [← hall, ← hblank]
    constructor
    · intro heq
      obtain ⟨hlast, _, _, _, _, _, hscopes⟩ := RepeaterRelayInfo.mk.inj heq
      exact ⟨hlast.symm, sortedCappedScopes_eq_nil hscopes.symm⟩
    · intro h
      have hcount : ∀ p : RelayEntry → Bool, (∀ e, p e = true → within now (24 * hour) e = true) →
          ((visited s "").map (entry s)).countP p = 0 := by
        intro p hp
        rw [List.countP_eq_zero]
        intro e he hpe
        have hday := hp e hpe
        rcases hblank.mp h e he with hadvert | ⟨_, hnone⟩
        · rw [within_advert hadvert] at hday
          cases hday
        · rw [within_unread hnone] at hday
          cases hday
      rw [hcount _ fun _ he => within_day he, hcount _ fun _ he => he,
        hcount _ fun e he => (Bool.and_eq_true _ _ ▸ he).1, h.1, h.2]
      simp [parseRelayTS, sortedCappedScopes]
  · rw [if_neg hkey, if_neg hkey]
    have hgreatest : greatestOf (times ((visited s key).map (entry s))) =
        greatestOf (times (s.collectRelayEntriesLocked key)) :=
      greatestOf_congr (htexts _) (mem_times_congr (mem_visited_iff hone key))
    have hscopes : scopes ((visited s key).map (entry s)) = scopes (s.collectRelayEntriesLocked key) :=
      scopes_congr (mem_visited_iff hone key)
    rw [computeRelayInfoFromEntries]
    rw [foldl_add_eq]
    rw [tallyOf]
    dsimp only
    rw [hgreatest, hscopes]
    constructor
    · intro heq
      obtain ⟨hlast, _, _, _, hcount, _⟩ := RepeaterRelayInfo.mk.inj heq
      refine ⟨(countP_visited_iff hone key _).mp hcount.symm, ?_⟩
      exact (greatestOf_eq_latestOf_iff (htexts _)).mp hlast.symm
    · rintro ⟨hnd, hgreat⟩
      have hlast := (greatestOf_eq_latestOf_iff (htexts _)).mpr hgreat
      have hactive : decide ((latestOf (times (s.collectRelayEntriesLocked key))).2 ≠ "" ∧ 0 < windowHours ∧
            now - windowDuration windowHours < (latestOf (times (s.collectRelayEntriesLocked key))).1) =
          decide (0 < windowHours ∧ ∃ t ∈ parseRelayTS (latestOf (times (s.collectRelayEntriesLocked key))).2,
            now - windowDuration windowHours < t) := by
        rcases latestOf_spec (times (s.collectRelayEntriesLocked key)) with ⟨heq, _⟩ | ⟨_, u, _, hts, heq, _⟩
        · rw [heq]
          simp [parseRelayTS]
        · have hu : u ∈ times (s.collectRelayEntriesLocked key) :=
            hts ▸ List.mem_append_right _ List.mem_cons_self
          rw [heq]
          simp [parse_of_mem_times hu, htexts _ u hu]
      rw [countP_visited_of hone hnd fun _ he => within_day he, countP_visited_of hone hnd fun e he => he,
        countP_visited_of hone hnd fun e he => (Bool.and_eq_true _ _ ▸ he).1, hlast, hactive]

/-- The rows that a section reads are those of one table. -/
def FromTable (rowOf : Int → TxRow) (a : Action) : Prop := ∀ row ∈ a.rows, row.tx = rowOf row.tx.id

theorem oneRow_of_reach {use : Bool} {rowOf : Int → TxRow} {st : State}
    (h : Reach State.step (fun st a => st.Enabled a ∧ FromTable rowOf a) (· = State.new use) st) :
    OneRow st.store := by
  have hrows : st.AllRows fun tx => tx = rowOf tx.id := State.allRows_of_reach h
  have hlive : HopsLive st.locals st.store := hopsLive_of_reachable (h.imp fun _ _ ha => ha.1)
  intro k k' r r' hr hr' heq
  have hr : st.store.row r = rowOf (st.store.row r).id := hrows r (hlive k r hr)
  have hr' : st.store.row r' = rowOf (st.store.row r').id := hrows r' (hlive k' r' hr')
  rw [hr, hr', heq]

/-- The bulk entry of a key is what the one key gives, in every state that rows of one
table lead to, if and only if the condition holds there. -/
theorem relayInfoMap_agrees_iff {use : Bool} {rowOf : Int → TxRow} {st : State}
    (h : Reach State.step (fun st a => st.Enabled a ∧ FromTable rowOf a) (· = State.new use) st)
    {keys : List String} (hkeys : Ranges st.store keys) (now : Int) (windowHours : ℚ) {key : String}
    (hmem : (st.store.byPathHop key).isSome) (hlower : toLower key = key) :
    st.store.computeRepeaterRelayInfoMap keys now windowHours key =
      some (st.store.getRepeaterRelayInfo now key windowHours) ↔ Agrees st.store now key :=
  agree_iff (oneRow_of_reach h) hkeys hmem hlower

def halfSecondTable (id : Int) : TxRow :=
  if id = 1 then plainTx 1 "h1" "2026-01-01T10:00:00Z" 2 else plainTx id "h2" "2026-01-01T10:00:00.500Z" 2

def halfSecondRows : List ScanRow :=
  [heardRow (halfSecondTable 1) 1 "obs1" "[\"aa11\"]", heardRow (halfSecondTable 2) 2 "obs1" "[\"aa11\"]"]

def halfSecond : List Action := [.ingestNewFromDB (plainEnv none) 0 100 halfSecondRows]

theorem byPathHop_mergeRow_plain (s : Store) (row : ScanRow) :
    (mergeRow (indexLiveHops (plainEnv none)) s row).byPathHop = s.byPathHop := by
  have hfound : (s.findOrInsert row.tx).1.byPathHop = s.byPathHop := by
    rw [findOrInsert]
    split <;> rfl
  rw [mergeRow]
  split
  · exact hfound
  · next o _ =>
      have hkeys : ∀ tx, liveHopKeys (plainEnv none) tx o = [] := by
        intro tx
        rw [liveHopKeys]
        split <;> rfl
      rw [mergeObs]
      split
      · exact hfound
      · rw [byPathHop_attachObs, byPathHop_indexLiveHops, hkeys]
        exact hfound

def halfSecondPicked : Store :=
  [0, 1].foldl pickBest (halfSecondRows.foldl (mergeRow (indexLiveHops (plainEnv none))) (Store.new true))

theorem store_halfSecond : (State.after true halfSecond).store =
    [0, 1].foldl (addDistances (plainEnv none)) ([0, 1].foldl addPaths halfSecondPicked) := by
  have htxs : (halfSecondRows.foldl (ingestRow (plainEnv none)) (Store.new true, [])).2 = [(1, 0), (2, 1)] := by
    decide
  change finishIngest (plainEnv none) (halfSecondRows.foldl (ingestRow (plainEnv none)) (Store.new true, [])).1
    (halfSecondRows.foldl (ingestRow (plainEnv none)) (Store.new true, [])).2 = _
  rw [htxs, ingestRows_fst]
  rfl

theorem byPathHop_halfSecond : (State.after true halfSecond).store.byPathHop =
    pushAll (pushAll Maps.empty ["aa11"] 0) ["aa11"] 1 := by
  have hpicked : halfSecondPicked.byPathHop = Maps.empty := by
    rw [halfSecondPicked]
    rw [byPathHop_pickAll]
    exact foldl_view (v := Store.byPathHop) fun s row _ => byPathHop_mergeRow_plain s row
  have hfirst : pathHopKeys (halfSecondPicked.path 0) = ["aa11"] := by decide +kernel
  have hsecond : pathHopKeys ((halfSecondPicked.addPaths 0).path 1) = ["aa11"] := by decide +kernel
  rw [store_halfSecond, byPathHop_addAllDistances, List.foldl_cons, List.foldl_cons, List.foldl_nil,
    byPathHop_addPaths, byPathHop_addPaths, hpicked, hfirst, hsecond]

theorem reach_halfSecond :
    Reach State.step (fun st a => st.Enabled a ∧ FromTable halfSecondTable a) (· = State.new true)
      (State.after true halfSecond) := by
  refine Reach.of_along (.start rfl) ⟨⟨trivial, ?_⟩, trivial⟩
  intro row hrow
  rcases List.mem_cons.mp hrow with rfl | hrow
  · rfl
  · rw [List.mem_singleton.mp hrow]
    rfl

theorem ranges_halfSecond : Ranges (State.after true halfSecond).store ["aa11"] := by
  intro k
  rw [byPathHop_halfSecond, List.mem_singleton]
  change k = "aa11" ↔ (push (push Maps.empty "aa11" 0) "aa11" 1 k).isSome
  unfold push Maps.set Maps.empty
  by_cases hk : k = "aa11"
  · simp [hk]
  · simp [hk]

theorem isSome_halfSecond : ((State.after true halfSecond).store.byPathHop "aa11").isSome :=
  (ranges_halfSecond "aa11").mp (List.mem_singleton_self _)

theorem relayInfoMap_agrees_iff_halfSecond :
    (State.after true halfSecond).store.computeRepeaterRelayInfoMap ["aa11"] 0 24 "aa11" =
      some ((State.after true halfSecond).store.getRepeaterRelayInfo 0 "aa11" 24) ↔
      Agrees (State.after true halfSecond).store 0 "aa11" :=
  relayInfoMap_agrees_iff reach_halfSecond ranges_halfSecond 0 24 isSome_halfSecond (by decide +kernel)

theorem not_agrees_halfSecond : ¬ Agrees (State.after true halfSecond).store 0 "aa11" := by
  intro h
  have htimes : times ((State.after true halfSecond).store.collectRelayEntriesLocked "aa11") =
      [("2026-01-01T10:00:00Z", 1767261600000000000), ("2026-01-01T10:00:00.500Z", 1767261600500000000)] := by
    decide +kernel
  unfold Agrees at h
  rw [if_neg (by decide), htimes] at h
  have heq := (greatestOf_eq_latestOf_iff (by decide)).mpr h.2
  exact absurd heq (by decide +kernel)

/-- The bulk entry tells the earlier of the two times. -/
theorem halfSecond_disagrees : ¬ ∀ (use : Bool) (rowOf : Int → TxRow) (st : State),
    Reach State.step (fun st a => st.Enabled a ∧ FromTable rowOf a) (· = State.new use) st →
      ∀ keys, Ranges st.store keys → ∀ (now : Int) (windowHours : ℚ) (key : String),
        (st.store.byPathHop key).isSome → toLower key = key →
          st.store.computeRepeaterRelayInfoMap keys now windowHours key =
            some (st.store.getRepeaterRelayInfo now key windowHours) := by
  intro h
  have heq := h true halfSecondTable _ reach_halfSecond ["aa11"] ranges_halfSecond 0 24 "aa11" isSome_halfSecond
    (by decide +kernel)
  apply not_agrees_halfSecond
  exact (agree_iff (oneRow_of_reach reach_halfSecond) ranges_halfSecond isSome_halfSecond
    (by decide +kernel)).mp heq

end MeshcoreAnalyzer.PacketStore.RelayAgreement

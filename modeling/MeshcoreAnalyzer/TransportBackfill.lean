import MeshcoreAnalyzer.Cursors
import MeshcoreAnalyzer.FrameGrammar
import MeshcoreAnalyzer.RegionTiers
import MeshcoreAnalyzer.RowUpdates

namespace MeshcoreAnalyzer.TransportBackfill

open GoBytes Cursors RowUpdates IngestorDecoder
open MeshcoreAnalyzer.Frame hiding Payload DecodedPacket

/-! `backfillTransportCodes` of cmd/ingestor/db.go. -/

structure Row where
  id : Int
  rawHex : Bytes
  routeType : Option Int
  code1 : Option Bytes
  code2 : Option Bytes
deriving DecidableEq

/-- `transmissions`, as far as the function goes; the primary key counts up from 1. -/
structure Table where
  rows : List Row
  ids : (rows.map Row.id).Nodup
  pos : ∀ r ∈ rows, 0 < r.id

/-- `code1 IS NULL AND route_type IN (0, 3)` -/
def Row.waits (r : Row) : Bool := r.code1.isNone && (r.routeType == some 0 || r.routeType == some 3)

/-- The codes of `DecodePacket(raw, nil, false)`, if it has any. -/
def codesOf (crypto : Crypto) (raw : Bytes) : Option TransportCodes :=
  match decodePacket crypto raw [] false with
  | .ok decoded => decoded.transportCodes
  | .error _ => none

structure Item where
  id : Int
  codes : TransportCodes

inductive BackfillError
  | select
  | scan
  | begin
  | prepare
  | update (id : Int)
  | commit

/-- What the database does in one turn of the loop: the statements that fail, the number of rows after
which the cursor gives up, the row that cannot be scanned and the item that cannot be written. -/
structure Turn where
  select : Bool
  stop : Option Nat
  scan : Option Nat
  begin : Bool
  prepare : Bool
  update : Option Nat
  commit : Bool

def page (rows : List Row) (lastID : Int) (batchSize : Nat) : List Row :=
  (sorted Row.id (behind Row.id lastID (rows.filter Row.waits))).take batchSize

/-- What `rows.Next()` comes to before it is false. -/
def delivered (turn : Turn) (page : List Row) : List Row :=
  match turn.stop with
  | some n => page.take n
  | none => page

def items (crypto : Crypto) (rows : List Row) : List Item :=
  rows.filterMap fun r => (codesOf crypto r.rawHex).map fun codes => ⟨r.id, codes⟩

/-- `UPDATE transmissions SET code1 = ?, code2 = ? WHERE id = ?`, on one row. -/
def updateRow (r : Row) (it : Item) : Row :=
  if r.id = it.id then { r with code1 := some it.codes.code1, code2 := some it.codes.code2 } else r

def update (rows : List Row) (it : Item) : List Row := rows.map (updateRow · it)

def writePage (turn : Turn) (rows : List Row) (its : List Item) : Except BackfillError (List Row) :=
  if its.length = 0 then .ok rows
  else if turn.begin then .error .begin
  else if turn.prepare then .error .prepare
  else match turn.update.bind (its[·]?) with
    | some it => .error (.update it.id)
    | none => if turn.commit then .error .commit else .ok (its.foldl update rows)

structure Progress where
  rows : List Row
  lastID : Int
  total : Nat
  pages : List (List Row)

inductive Step
  | again (p : Progress)
  | finished (p : Progress)
  | failed (e : BackfillError) (p : Progress)

def step (crypto : Crypto) (batchSize : Nat) (turn : Turn) (p : Progress) : Step :=
  if turn.select then .failed .select p
  else
    let rows := delivered turn (page p.rows p.lastID batchSize)
    if (turn.scan.bind (rows[·]?)).isSome then .failed .scan p
    else
      match rows.getLast? with
      | none => .finished p
      | some last =>
          match writePage turn p.rows (items crypto rows) with
          | .error e => .failed e p
          | .ok table =>
              let p := { rows := table, lastID := last.id, total := p.total + (items crypto rows).length,
                         pages := p.pages ++ [rows] }
              if rows.length < batchSize then .finished p else .again p

def loop (crypto : Crypto) (batchSize : Nat) : Nat → (Nat → Turn) → Progress → Option (Option BackfillError × Progress)
  | 0, _, _ => none
  | fuel + 1, turns, p =>
      match step crypto batchSize (turns 0) p with
      | .again p => loop crypto batchSize fuel (fun k => turns (k + 1)) p
      | .finished p => some (none, p)
      | .failed e p => some (some e, p)

def start (rows : List Row) : Progress := { rows, lastID := 0, total := 0, pages := [] }

/-- Every row that waits costs a turn at the most, and the last turn finds none. -/
def backfillTransportCodes (crypto : Crypto) (batchSize : Nat) (turns : Nat → Turn) (table : Table) :
    Option (Option BackfillError × Progress) :=
  loop crypto batchSize (table.rows.length + 1) turns (start table.rows)

def setCodes (crypto : Crypto) (source r : Row) : Row :=
  match codesOf crypto source.rawHex with
  | some codes => { r with code1 := some codes.code1, code2 := some codes.code2 }
  | none => r

structure Exhaustive (crypto : Crypto) (table : Table) (p : Progress) : Prop where
  visited : ∀ r ∈ table.rows, r.waits = true → r ∈ p.pages.flatten
  rows : p.rows = table.rows.map fun r => if r.waits then setCodes crypto r r else r
  count : p.total = table.rows.countP fun r => r.waits && (codesOf crypto r.rawHex).isSome

/-- The table after some of the pages, each of them full and written as a whole. -/
structure WholePages (crypto : Crypto) (batchSize : Nat) (table : Table) (p : Progress) : Prop where
  full : ∀ page ∈ p.pages, page.length = batchSize
  inOrder : p.pages.flatten <+: sorted Row.id (table.rows.filter Row.waits)
  rows : p.rows = applied (setCodes crypto) p.pages.flatten table.rows

def Sound (crypto : Crypto) (batchSize : Nat) (table : Table) : Option BackfillError × Progress → Prop
  | (none, p) => Exhaustive crypto table p
  | (some _, p) => WholePages crypto batchSize table p

/-- The loop ends without an error at a page whose cursor stopped before its end. -/
def EndsEarly (crypto : Crypto) (batchSize : Nat) : Nat → (Nat → Turn) → Progress → Prop
  | 0, _, _ => False
  | fuel + 1, turns, p =>
      match step crypto batchSize (turns 0) p with
      | .again q => EndsEarly crypto batchSize fuel (fun k => turns (k + 1)) q
      | .finished _ =>
          (delivered (turns 0) (page p.rows p.lastID batchSize)).length < (page p.rows p.lastID batchSize).length
      | .failed _ _ => False

variable {crypto : Crypto} {batchSize : Nat} {table : Table} {turn : Turn} {p : Progress}
variable {done rest new rows : List Row}

theorem settles_setCodes : Settles Row.id (setCodes crypto) where
  key_act := fun u r => by
    rw [setCodes]
    split <;> rfl
  again := fun u r => by
    rw [setCodes, setCodes]
    cases codesOf crypto u.rawHex <;> rfl

theorem items_append (a b : List Row) : items crypto (a ++ b) = items crypto a ++ items crypto b :=
  List.filterMap_append

theorem length_items (l : List Row) : (items crypto l).length = l.countP fun r => (codesOf crypto r.rawHex).isSome := by
  induction l with
  | nil => rfl
  | cons r l ih =>
      rw [items, List.filterMap_cons, List.countP_cons]
      cases codesOf crypto r.rawHex with
      | none => exact ih
      | some codes => exact congrArg Nat.succ ih

theorem foldl_items (new rows : List Row) :
    (items crypto new).foldl update rows = new.foldl (RowUpdates.update Row.id (setCodes crypto)) rows := by
  induction new generalizing rows with
  | nil => rfl
  | cons u new ih =>
      rw [items, List.filterMap_cons, List.foldl_cons, ← ih, RowUpdates.update]
      have hone : (fun r => updateOne Row.id (setCodes crypto) r u) = fun r => match codesOf crypto u.rawHex with
          | some codes => updateRow r ⟨u.id, codes⟩
          | none => r := by
        funext r
        rw [updateOne, setCodes]
        cases codesOf crypto u.rawHex with
        | none => exact ite_self r
        | some codes => rfl
      rw [hone]
      cases codesOf crypto u.rawHex with
      | none => rw [List.map_id']; rfl
      | some codes => rfl

theorem page_applied (hids : (rows.map Row.id).Nodup) {lastID : Int}
    (hsplit : sorted Row.id (rows.filter Row.waits) = done ++ rest) (hdone : ∀ r ∈ done, r.id ≤ lastID)
    (hrest : ∀ r ∈ rest, lastID < r.id) : page (applied (setCodes crypto) done rows) lastID batchSize = rest.take batchSize := by
  have hbehind : behind Row.id lastID ((applied (setCodes crypto) done rows).filter Row.waits) =
      behind Row.id lastID (rows.filter Row.waits) := by
    rw [behind, behind, List.filter_filter, List.filter_filter, applied]
    apply filter_map_of_fixed
    · intro r _
      by_cases hr : r ∈ done
      · have hbefore : ¬ lastID < r.id := not_lt.mpr (hdone r hr)
        rw [if_pos hr]
        simp [settles_setCodes.key_act, hbefore]
      · rw [if_neg hr]
    · intro r _ hq
      apply if_neg
      intro hr
      simp [not_lt.mpr (hdone r hr)] at hq
  have hwaits : ((rows.filter Row.waits).map Row.id).Nodup := (List.filter_sublist.map Row.id).nodup hids
  rw [page, hbehind, sorted_behind hwaits, hsplit, behind_append hdone hrest]

/-- The pages so far are the beginning of the rows that wait, in the order of their IDs. -/
structure Walked (crypto : Crypto) (table : Table) (rest : List Row) (p : Progress) : Prop where
  split : sorted Row.id (table.rows.filter Row.waits) = p.pages.flatten ++ rest
  behind : ∀ r ∈ p.pages.flatten, r.id ≤ p.lastID
  ahead : ∀ r ∈ rest, p.lastID < r.id
  rows : p.rows = applied (setCodes crypto) p.pages.flatten table.rows
  total : p.total = (items crypto p.pages.flatten).length

theorem walked_start : Walked crypto table (sorted Row.id (table.rows.filter Row.waits)) (start table.rows) where
  split := rfl
  behind := fun r hr => by cases hr
  ahead := fun r hr => table.pos r (List.mem_filter.mp (mem_sorted.mp hr)).1
  rows := applied_nil.symm
  total := rfl

theorem Walked.page_eq (h : Walked crypto table rest p) : page p.rows p.lastID batchSize = rest.take batchSize := by
  rw [h.rows]
  exact page_applied table.ids h.split h.behind h.ahead

theorem Walked.extend (h : Walked crypto table (new ++ rest) p) {last : Row} (hlast : new.getLast? = some last) :
    Walked crypto table rest { rows := (items crypto new).foldl update p.rows, lastID := last.id,
                               total := p.total + (items crypto new).length, pages := p.pages ++ [new] } := by
  have hflat : (p.pages ++ [new]).flatten = p.pages.flatten ++ new := by simp
  have hwaits : ((table.rows.filter Row.waits).map Row.id).Nodup := (List.filter_sublist.map Row.id).nodup table.ids
  have hpair := @pairwise_sorted _ _ _ Row.id _ hwaits
  rw [h.split] at hpair
  have hnewpair := (List.pairwise_append.mp (List.pairwise_append.mp hpair).2.1)
  obtain ⟨init, rfl⟩ := List.getLast?_eq_some_iff.mp hlast
  have hmem : ∀ r ∈ init ++ [last], r ∈ table.rows := by
    intro r hr
    have hsorted : r ∈ sorted Row.id (table.rows.filter Row.waits) := by
      rw [h.split]
      exact List.mem_append_right _ (List.mem_append_left _ hr)
    exact (List.mem_filter.mp (mem_sorted.mp hsorted)).1
  have hbefore : ∀ r ∈ init ++ [last], r.id ≤ last.id := by
    intro r hr
    rcases List.mem_append.mp hr with hr | hr
    · exact le_of_lt ((List.pairwise_append.mp hnewpair.1).2.2 r hr last List.mem_cons_self)
    · rw [List.mem_singleton.mp hr]
  have hahead := h.ahead last (List.mem_append_left _ (List.mem_append_right _ List.mem_cons_self))
  refine ⟨?_, ?_, ?_, ?_, ?_⟩
  · rw [hflat, h.split]
    exact (List.append_assoc _ _ _).symm
  · intro r hr
    rw [hflat] at hr
    rcases List.mem_append.mp hr with hr | hr
    · exact (h.behind r hr).trans (le_of_lt hahead)
    · exact hbefore r hr
  · intro r hr
    exact hnewpair.2.2 last (List.mem_append_right _ List.mem_cons_self) r hr
  · rw [hflat, h.rows, foldl_items]
    apply foldl_update_applied settles_setCodes table.ids hmem
    intro r hr hdone
    exact absurd (h.ahead r (List.mem_append_left _ hr)) (not_lt.mpr (h.behind r hdone))
  · have hlength : (items crypto (p.pages.flatten ++ (init ++ [last]))).length =
        (items crypto p.pages.flatten).length + (items crypto (init ++ [last])).length := by
      rw [items_append, List.length_append]
    rw [hflat, hlength, h.total]

theorem Walked.exhaustive_iff (h : Walked crypto table rest p) : Exhaustive crypto table p ↔ rest = [] := by
  have hmem : ∀ r, r ∈ p.pages.flatten ++ rest ↔ r ∈ table.rows ∧ r.waits = true := by
    intro r
    rw [← h.split, mem_sorted, List.mem_filter]
  constructor
  · intro hall
    apply List.eq_nil_iff_forall_not_mem.mpr
    intro r hr
    obtain ⟨hrow, hwaits⟩ := (hmem r).mp (List.mem_append_right _ hr)
    exact absurd (h.ahead r hr) (not_lt.mpr (h.behind r (hall.visited r hrow hwaits)))
  · rintro rfl
    rw [List.append_nil] at hmem
    refine ⟨fun r hr hw => (hmem r).mpr ⟨hr, hw⟩, ?_, ?_⟩
    · rw [h.rows, applied]
      apply List.map_congr_left
      intro r hr
      exact if_congr ((hmem r).trans (and_iff_right hr)) rfl rfl
    · have hperm : p.pages.flatten.Perm (table.rows.filter Row.waits) := by
        have hsorted := @sorted_perm _ _ _ Row.id (table.rows.filter Row.waits)
        rwa [h.split, List.append_nil] at hsorted
      rw [h.total, length_items, hperm.countP_eq, List.countP_filter]
      apply List.countP_congr
      intro r _
      rw [Bool.and_comm]

theorem Walked.delivered_eq (h : Walked crypto table rest p) (turn : Turn) :
    ∃ n, delivered turn (page p.rows p.lastID batchSize) = rest.take n ∧ n ≤ batchSize := by
  rw [delivered, h.page_eq]
  cases turn.stop with
  | none => exact ⟨batchSize, rfl, le_rfl⟩
  | some n => exact ⟨min n batchSize, List.take_take, min_le_right _ _⟩

/-- What one turn does: it fails and leaves all as it was, it goes on after a full page, or it finishes, and then
nothing is left unless the cursor stopped early. -/
inductive TurnSpec (crypto : Crypto) (batchSize : Nat) (table : Table) (turn : Turn) (rest : List Row) (p : Progress) :
    Step → Prop
  | failed (e : BackfillError) : TurnSpec crypto batchSize table turn rest p (.failed e p)
  | again {q : Progress} (walked : Walked crypto table (rest.drop batchSize) q) (enough : batchSize ≤ rest.length)
      (pages : ∃ new, q.pages = p.pages ++ [new] ∧ new.length = batchSize) :
      TurnSpec crypto batchSize table turn rest p (.again q)
  | finished {q : Progress}
      (exact : Exhaustive crypto table q ↔
        ¬ (delivered turn (page p.rows p.lastID batchSize)).length < (page p.rows p.lastID batchSize).length) :
      TurnSpec crypto batchSize table turn rest p (.finished q)

theorem writePage_ok {its : List Item} {rows' : List Row} (h : writePage turn rows its = .ok rows') :
    rows' = its.foldl update rows := by
  rw [writePage] at h
  split at h
  · next hnone =>
      cases h
      rw [List.length_eq_zero_iff.mp hnone]
      rfl
  · split at h
    · cases h
    · split at h
      · cases h
      · split at h
        · cases h
        · split at h
          · cases h
          · cases h
            rfl

theorem Walked.step (h : Walked crypto table rest p) (turn : Turn) (hsize : 0 < batchSize) :
    TurnSpec crypto batchSize table turn rest p (step crypto batchSize turn p) := by
  have hpage : page p.rows p.lastID batchSize = rest.take batchSize := h.page_eq
  obtain ⟨n, hdelivered, hn⟩ : ∃ n, delivered turn (page p.rows p.lastID batchSize) = rest.take n ∧ n ≤ batchSize :=
    h.delivered_eq turn
  rw [TransportBackfill.step]
  split
  · exact .failed .select
  · dsimp only
    split
    · exact .failed .scan
    · rw [hdelivered]
      split
      · next hnone =>
          have hempty : rest.take n = [] := List.getLast?_eq_none_iff.mp hnone
          apply TurnSpec.finished
          rw [h.exhaustive_iff, hdelivered, hpage, hempty, List.length_nil, List.length_take, ← List.length_eq_zero_iff]
          omega
      · next last hlast =>
          split
          · next e _ => exact .failed e
          · next rows' hwrite =>
              obtain rfl := writePage_ok hwrite
              have hsplit : rest.take n ++ rest.drop n = rest := List.take_append_drop n rest
              have hnext : Walked crypto table (rest.take n ++ rest.drop n) p := hsplit.symm ▸ h
              have hq := hnext.extend hlast
              split
              · apply TurnSpec.finished
                rw [hq.exhaustive_iff, hdelivered, hpage, List.drop_eq_nil_iff, List.length_take, List.length_take]
                next hpartial =>
                  rw [List.length_take] at hpartial
                  omega
              · next hfull =>
                  have hlen : (rest.take n).length = batchSize := by
                    rw [List.length_take] at hfull ⊢
                    omega
                  have hall : n = batchSize := by
                    rw [List.length_take] at hlen
                    omega
                  subst hall
                  apply TurnSpec.again hq ?_ ⟨_, rfl, hlen⟩
                  rw [List.length_take] at hlen
                  omega

theorem Walked.loop (h : Walked crypto table rest p) (hfull : ∀ page ∈ p.pages, page.length = batchSize)
    (hsize : 0 < batchSize) {fuel : Nat} (hfuel : rest.length < fuel) (turns : Nat → Turn) :
    ∃ r, loop crypto batchSize fuel turns p = some r ∧
      (Sound crypto batchSize table r ↔ ¬ EndsEarly crypto batchSize fuel turns p) := by
  induction fuel generalizing rest p turns with
  | zero => omega
  | succ fuel ih =>
      have hturn := h.step (turns 0) hsize
      rw [TransportBackfill.loop, EndsEarly]
      cases hstep : TransportBackfill.step crypto batchSize (turns 0) p with
      | failed e q =>
          rw [hstep] at hturn
          cases hturn
          refine ⟨_, rfl, iff_of_true ?_ not_false⟩
          exact ⟨hfull, ⟨rest, h.split.symm⟩, h.rows⟩
      | finished q =>
          rw [hstep] at hturn
          obtain - | - | hexact := hturn
          exact ⟨_, rfl, hexact⟩
      | again q =>
          rw [hstep] at hturn
          obtain - | ⟨hwalked, henough, new, hpages, hnew⟩ := hturn
          have hq : ∀ page ∈ q.pages, page.length = batchSize := by
            intro page hpage
            rw [hpages] at hpage
            rcases List.mem_append.mp hpage with hpage | hpage
            · exact hfull page hpage
            · rw [List.mem_singleton.mp hpage]
              exact hnew
          apply ih hwalked hq
          rw [List.length_drop]
          omega

/-- The backfill ends after finitely many turns, whatever the database does. Without an error it has visited all rows
that wait and given those that decode with codes their codes, with an error it has written full pages only: always,
unless it ends at a page whose cursor stopped before its end. -/
theorem backfill_sound_iff (crypto : Crypto) (batchSize : Nat) (hsize : 0 < batchSize) (turns : Nat → Turn)
    (table : Table) : ∃ r, backfillTransportCodes crypto batchSize turns table = some r ∧
      (Sound crypto batchSize table r ↔
        ¬ EndsEarly crypto batchSize (table.rows.length + 1) turns (start table.rows)) := by
  apply walked_start.loop (fun page hpage => by cases hpage) hsize
  rw [sorted_perm.length_eq]
  exact Nat.lt_succ_of_le (List.length_filter_le _ _)

theorem delivered_of_stop (h : turn.stop = none) (rows : List Row) : delivered turn rows = rows := by
  rw [delivered, h]

theorem not_endsEarly {turns : Nat → Turn} (h : ∀ k, (turns k).stop = none) (fuel : Nat) (p : Progress) :
    ¬ EndsEarly crypto batchSize fuel turns p := by
  induction fuel generalizing turns p with
  | zero => exact not_false
  | succ fuel ih =>
      rw [EndsEarly]
      split
      · exact ih (fun k => h (k + 1)) _
      · rw [delivered_of_stop (h 0)]
        exact lt_irrefl _
      · exact not_false

def transportHex : Bytes := [0x30, 0x43, 0x30, 0x31, 0x30, 0x32, 0x30, 0x33, 0x30, 0x34, 0x30, 0x30]

def waitingRow (id : Int) : Row := { id, rawHex := transportHex, routeType := some 0, code1 := none, code2 := none }

def twoRows : Table where
  rows := [waitingRow 1, waitingRow 2]
  ids := by decide
  pos := by decide

def quiet : Turn :=
  { select := false, stop := none, scan := none, begin := false, prepare := false, update := none, commit := false }

theorem backfill_sound_iff_quiet : ∃ r, backfillTransportCodes RegionKeys.zeroSums 1 (fun _ => quiet) twoRows = some r ∧
    Sound RegionKeys.zeroSums 1 twoRows r := by
  obtain ⟨r, hr, hiff⟩ := backfill_sound_iff RegionKeys.zeroSums 1 Nat.one_pos (fun _ => quiet) twoRows
  exact ⟨r, hr, hiff.mpr (not_endsEarly (fun _ => rfl) _ _)⟩

/-- The cursor gives up after the first of two rows: no error is returned, and the second row is left without codes. -/
theorem stopped_cursor_skips : ∃ p,
    backfillTransportCodes RegionKeys.zeroSums 5000 (fun _ => { quiet with stop := some 1 }) twoRows =
      some (none, p) ∧ p.total = 1 ∧ waitingRow 2 ∈ p.rows ∧
      (codesOf RegionKeys.zeroSums transportHex).isSome = true ∧ ¬ Exhaustive RegionKeys.zeroSums twoRows p := by
  refine ⟨_, rfl, rfl, by decide, rfl, fun h => ?_⟩
  have hvisited := h.visited (waitingRow 2) (by decide) rfl
  revert hvisited
  decide

end MeshcoreAnalyzer.TransportBackfill

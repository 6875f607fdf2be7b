import MeshcoreAnalyzer.Loops
import MeshcoreAnalyzer.Originators
import MeshcoreAnalyzer.RowUpdates

namespace MeshcoreAnalyzer.PubkeyBackfill

open Loops RowUpdates Originators

/-! `BackfillFromPubkey` of cmd/ingestor/maintenance.go. -/

structure Row where
  id : Int
  payloadType : Option Int
  decodedJSON : Option String
  fromPubkey : Option String
deriving DecidableEq

/-- `transmissions`, as far as the function goes. -/
structure Table where
  rows : List Row
  ids : (rows.map Row.id).Nodup

/-- `from_pubkey IS NULL AND payload_type = 4` -/
def Row.waits (r : Row) : Bool := r.fromPubkey.isNone && r.payloadType == some 4

/-- What the database does in one turn of the loop: the order in which it comes to the rows, the statements
that fail, and the rows that cannot be scanned or updated. -/
structure Turn where
  order : List Row → List Row
  order_perm : ∀ l, (order l).Perm l
  select : Bool
  scan : Int → Bool
  begin : Bool
  update : Int → Bool
  commit : Bool

/-- The two statements before the loop, where they fail. -/
structure Opening where
  count : Bool
  prepare : Bool

def effectiveChunkSize (chunkSize : Int) : Nat := if chunkSize ≤ 0 then 5000 else chunkSize.toNat

/-- `SELECT … LIMIT ?` -/
def chunkOf (turn : Turn) (chunk : Nat) (rows : List Row) : List Row := (turn.order (rows.filter Row.waits)).take chunk

def batchOf (turn : Turn) (chunk : Nat) (rows : List Row) : List Row :=
  (chunkOf turn chunk rows).filter fun r => !turn.scan r.id

def keyOf (r : Row) : String := extractPubkeyFromAdvertJSON (r.decodedJSON.getD "")

def setKey (source r : Row) : Row := { r with fromPubkey := some (keyOf source) }

/-- `UPDATE transmissions SET from_pubkey = ? WHERE id = ?`; a failure is logged. -/
def writeKey (turn : Turn) (rows : List Row) (b : Row) : List Row :=
  if turn.update b.id then rows else RowUpdates.update Row.id setKey rows b

structure Progress where
  rows : List Row
  processed : Nat

def step (chunk : Nat) (turn : Turn) (p : Progress) : Outcome Progress :=
  if turn.select then .ended p
  else
    let batch := batchOf turn chunk p.rows
    if batch.length = 0 then .ended p
    else if turn.begin then .ended p
    else
      let rows := batch.foldl (writeKey turn) p.rows
      if turn.commit then .ended p
      else
        let p := { rows, processed := p.processed + batch.length }
        if batch.length < chunk then .ended p else .again p

def start (table : Table) : Progress := { rows := table.rows, processed := 0 }

def backfillFromPubkey (chunkSize : Int) (opening : Opening) (turns : Nat → Turn) (fuel : Nat) (table : Table) :
    Option Progress :=
  if opening.count then some (start table)
  else if (table.rows.filter Row.waits).length = 0 then some (start table)
  else if opening.prepare then some (start table)
  else loop (step (effectiveChunkSize chunkSize)) fuel turns (start table)

/-- Every row that waited has its key, the others are as they were, and all of them are counted. -/
structure Filled (table : Table) (p : Progress) : Prop where
  rows : p.rows = table.rows.map fun r => if r.waits then setKey r r else r
  processed : p.processed = table.rows.countP Row.waits

def Turn.Quiet (turn : Turn) : Prop :=
  turn.select = false ∧ turn.begin = false ∧ turn.commit = false ∧ ∀ id, turn.scan id = false ∧ turn.update id = false

/-- The function comes to an end, and has filled the table if no statement fails. -/
structure Finishes (chunkSize : Int) (opening : Opening) (turns : Nat → Turn) (table : Table) : Prop where
  ends : ∃ fuel p, backfillFromPubkey chunkSize opening turns fuel table = some p
  filled : opening.count = false → opening.prepare = false → (∀ k, (turns k).Quiet) →
    ∀ fuel p, backfillFromPubkey chunkSize opening turns fuel table = some p → Filled table p

def written (turn : Turn) (batch : List Row) : List Row := batch.filter fun r => !turn.update r.id

def left (chunk : Nat) (turns : Nat → Turn) (rows : List Row) : Nat → List Row
  | 0 => rows.filter Row.waits
  | k + 1 => (left chunk turns rows k).filter fun r =>
      decide (r ∉ written (turns k) (batchOf (turns k) chunk (left chunk turns rows k)))

def Whole (turn : Turn) (chunk : Nat) (rows : List Row) : Prop :=
  turn.select = false ∧ turn.begin = false ∧ turn.commit = false ∧ chunk ≤ (batchOf turn chunk rows).length

/-- With a whole chunk of rows left, all updates fail from some turn on. -/
def Stuck (chunkSize : Int) (opening : Opening) (turns : Nat → Turn) (table : Table) : Prop :=
  let chunk := effectiveChunkSize chunkSize
  let left := left chunk turns table.rows
  opening.count = false ∧ opening.prepare = false ∧
    ∃ k, (∀ j < k, Whole (turns j) chunk (left j)) ∧
      ∀ j, Whole (turns (k + j)) chunk (left k) ∧
        ∀ r ∈ chunkOf (turns (k + j)) chunk (left k), (turns (k + j)).update r.id = true

variable {turn : Turn} {turns : Nat → Turn} {chunk : Nat} {table : Table} {rows done : List Row} {p q : Progress}

theorem effectiveChunkSize_pos (chunkSize : Int) : 0 < effectiveChunkSize chunkSize := by
  rw [effectiveChunkSize]
  split
  · exact Nat.succ_pos _
  · omega

theorem settles_setKey : Settles Row.id setKey where
  key_act := fun _ _ => rfl
  again := fun _ _ => rfl

theorem waits_setKey (a : Row) : (setKey a a).waits = false := rfl

theorem chunkOf_filter : chunkOf turn chunk (rows.filter Row.waits) = chunkOf turn chunk rows := by
  rw [chunkOf, chunkOf, List.filter_filter]
  simp only [Bool.and_self]

theorem batchOf_filter : batchOf turn chunk (rows.filter Row.waits) = batchOf turn chunk rows := by
  rw [batchOf, batchOf, chunkOf_filter]

theorem mem_chunkOf {r : Row} (h : r ∈ chunkOf turn chunk rows) : r ∈ rows.filter Row.waits :=
  (turn.order_perm _).mem_iff.mp (List.mem_of_mem_take h)

theorem mem_batchOf {r : Row} (h : r ∈ batchOf turn chunk rows) : r ∈ chunkOf turn chunk rows :=
  (List.mem_filter.mp h).1

theorem length_chunkOf_le : (chunkOf turn chunk rows).length ≤ chunk := List.length_take_le _ _

theorem batchOf_eq_of_whole (h : Whole turn chunk rows) : batchOf turn chunk rows = chunkOf turn chunk rows :=
  List.filter_sublist.eq_of_length_le (length_chunkOf_le.trans h.2.2.2)

theorem foldl_writeKey (batch rows : List Row) :
    batch.foldl (writeKey turn) rows = (written turn batch).foldl (RowUpdates.update Row.id setKey) rows := by
  induction batch generalizing rows with
  | nil => rfl
  | cons b batch ih =>
      rw [List.foldl_cons, ih, written, written, List.filter_cons, writeKey]
      cases turn.update b.id <;> rfl

theorem foldl_writeKey_eq (hids : (rows.map Row.id).Nodup) :
    (batchOf turn chunk rows).foldl (writeKey turn) rows =
      applied setKey (written turn (batchOf turn chunk rows)) rows := by
  have hnew : ∀ u ∈ written turn (batchOf turn chunk rows), u ∈ rows := by
    intro u hu
    exact List.mem_of_mem_filter (mem_chunkOf (mem_batchOf (List.mem_of_mem_filter hu)))
  have hall := @foldl_update_applied _ _ _ Row.id setKey rows [] _ _ settles_setKey hids hnew
    fun _ _ => List.not_mem_nil
  rw [applied_nil, List.nil_append] at hall
  rw [foldl_writeKey, hall]

def advance (turn : Turn) (chunk : Nat) (p : Progress) : Progress where
  rows := (batchOf turn chunk p.rows).foldl (writeKey turn) p.rows
  processed := p.processed + (batchOf turn chunk p.rows).length

theorem step_of_whole (hchunk : 0 < chunk) (h : Whole turn chunk p.rows) :
    step chunk turn p = .again (advance turn chunk p) := by
  obtain ⟨hselect, hbegin, hcommit, hlen⟩ := h
  have hne : (batchOf turn chunk p.rows).length ≠ 0 := Nat.ne_of_gt (hchunk.trans_le hlen)
  rw [step, hselect, hbegin, hcommit]
  dsimp only
  rw [if_neg Bool.false_ne_true, if_neg hne, if_neg Bool.false_ne_true, if_neg Bool.false_ne_true,
    if_neg (not_lt.mpr hlen)]
  rfl

theorem whole_of_again (h : step chunk turn p = .again q) : Whole turn chunk p.rows ∧ q = advance turn chunk p := by
  rw [step] at h
  split at h
  · cases h
  · next hselect =>
      dsimp only at h
      split at h
      · cases h
      · split at h
        · cases h
        · next hbegin =>
            split at h
            · cases h
            · next hcommit =>
                split at h
                · cases h
                · next hlen =>
                    cases h
                    exact ⟨⟨Bool.eq_false_of_not_eq_true hselect, Bool.eq_false_of_not_eq_true hbegin,
                      Bool.eq_false_of_not_eq_true hcommit, not_lt.mp hlen⟩, rfl⟩

theorem waiting_advance (hids : (p.rows.map Row.id).Nodup) :
    (advance turn chunk p).rows.filter Row.waits =
      (p.rows.filter Row.waits).filter fun r =>
        decide (r ∉ written turn (batchOf turn chunk (p.rows.filter Row.waits))) := by
  rw [advance, foldl_writeKey_eq hids, filter_applied waits_setKey, batchOf_filter, List.filter_filter]
  apply List.filter_congr
  intro r _
  exact Bool.and_comm _ _

theorem ids_advance (hids : (p.rows.map Row.id).Nodup) : ((advance turn chunk p).rows.map Row.id).Nodup := by
  rw [advance, foldl_writeKey_eq hids, map_key_applied settles_setKey]
  exact hids

theorem left_before (hids : (p.rows.map Row.id).Nodup) {k : Nat} (hq : before (step chunk) turns p k = some q) :
    (q.rows.map Row.id).Nodup ∧ q.rows.filter Row.waits = left chunk turns p.rows k := by
  induction k generalizing q with
  | zero =>
      cases hq
      exact ⟨hids, rfl⟩
  | succ k ih =>
      obtain ⟨r, hr, hagain⟩ := before_succ_eq_some hq
      obtain ⟨hrids, hleft⟩ := ih hr
      obtain ⟨-, rfl⟩ := whole_of_again hagain
      refine ⟨ids_advance hrids, ?_⟩
      rw [waiting_advance hrids, hleft]
      rfl

theorem whole_left (hids : (p.rows.map Row.id).Nodup) {k : Nat} (hq : before (step chunk) turns p k = some q) :
    Whole (turns k) chunk q.rows ↔ Whole (turns k) chunk (left chunk turns p.rows k) := by
  rw [Whole, Whole, ← (left_before hids hq).2, batchOf_filter]

theorem not_ends_iff_whole (hids : (p.rows.map Row.id).Nodup) (hchunk : 0 < chunk) :
    ¬ Ends (step chunk) turns p ↔ ∀ k, Whole (turns k) chunk (left chunk turns p.rows k) := by
  rw [not_ends_iff]
  constructor
  · intro h k
    obtain ⟨r, hr⟩ := h (k + 1)
    obtain ⟨q, hq, hagain⟩ := before_succ_eq_some hr
    exact (whole_left hids hq).mp (whole_of_again hagain).1
  · intro h k
    induction k with
    | zero => exact ⟨p, rfl⟩
    | succ k ih =>
        obtain ⟨q, hq⟩ := ih
        exact ⟨_, before_succ hq (step_of_whole hchunk ((whole_left hids hq).mpr (h k)))⟩

theorem left_succ_sublist (k : Nat) : (left chunk turns rows (k + 1)).Sublist (left chunk turns rows k) :=
  List.filter_sublist

theorem left_succ_of_fails {k : Nat}
    (h : ∀ r ∈ chunkOf (turns k) chunk (left chunk turns rows k), (turns k).update r.id = true) :
    left chunk turns rows (k + 1) = left chunk turns rows k := by
  have hnone : written (turns k) (batchOf (turns k) chunk (left chunk turns rows k)) = [] := by
    apply List.filter_eq_nil_iff.mpr
    intro r hr
    rw [h r (mem_batchOf hr)]
    exact Bool.false_ne_true
  apply List.filter_eq_self.mpr
  intro r _
  rw [hnone]
  exact decide_eq_true List.not_mem_nil

theorem fails_of_left_succ {k : Nat} (hwhole : Whole (turns k) chunk (left chunk turns rows k))
    (h : (left chunk turns rows (k + 1)).length = (left chunk turns rows k).length) :
    ∀ r ∈ chunkOf (turns k) chunk (left chunk turns rows k), (turns k).update r.id = true := by
  intro r hr
  by_contra hupdate
  have hwritten : r ∈ written (turns k) (batchOf (turns k) chunk (left chunk turns rows k)) := by
    apply List.mem_filter.mpr
    rw [batchOf_eq_of_whole hwhole]
    exact ⟨hr, by simpa using hupdate⟩
  have hmem : r ∈ left chunk turns rows k := List.mem_of_mem_filter (mem_chunkOf hr)
  rw [← (left_succ_sublist k).eq_of_length h] at hmem
  exact of_decide_eq_true (List.mem_filter.mp hmem).2 hwritten

theorem exists_fails (h : ∀ k, Whole (turns k) chunk (left chunk turns rows k)) :
    ∃ k, ∀ j, left chunk turns rows (k + j) = left chunk turns rows k ∧
      ∀ r ∈ chunkOf (turns (k + j)) chunk (left chunk turns rows k), (turns (k + j)).update r.id = true := by
  have hleast := Function.argmin_le fun k => (left chunk turns rows k).length
  set k := Function.argmin fun k => (left chunk turns rows k).length
  have hleft : ∀ j, left chunk turns rows (k + j) = left chunk turns rows k := by
    intro j
    induction j with
    | zero => rfl
    | succ j ih =>
        rw [← ih]
        apply (left_succ_sublist (k + j)).eq_of_length_le
        rw [ih]
        exact hleast _
  refine ⟨k, fun j => ⟨hleft j, ?_⟩⟩
  have hsame : left chunk turns rows (k + j + 1) = left chunk turns rows (k + j) := (hleft (j + 1)).trans (hleft j).symm
  have hfails := fails_of_left_succ (h (k + j)) (congrArg List.length hsame)
  rw [hleft j] at hfails
  exact hfails

theorem not_ends_iff_stuck (hids : (p.rows.map Row.id).Nodup) (hchunk : 0 < chunk) :
    ¬ Ends (step chunk) turns p ↔ ∃ k, (∀ j < k, Whole (turns j) chunk (left chunk turns p.rows j)) ∧
      ∀ j, Whole (turns (k + j)) chunk (left chunk turns p.rows k) ∧
        ∀ r ∈ chunkOf (turns (k + j)) chunk (left chunk turns p.rows k), (turns (k + j)).update r.id = true := by
  rw [not_ends_iff_whole hids hchunk]
  constructor
  · intro h
    obtain ⟨k, hk⟩ := exists_fails h
    refine ⟨k, fun j _ => h j, fun j => ⟨?_, (hk j).2⟩⟩
    rw [← (hk j).1]
    exact h (k + j)
  · rintro ⟨k, hbefore, hfrom⟩ i
    have hleft : ∀ j, left chunk turns p.rows (k + j) = left chunk turns p.rows k := by
      intro j
      induction j with
      | zero => rfl
      | succ j ih =>
          have hfails := (hfrom j).2
          rw [← ih] at hfails
          exact (left_succ_of_fails hfails).trans ih
    rcases lt_or_ge i k with hi | hi
    · exact hbefore i hi
    · obtain ⟨j, rfl⟩ := Nat.exists_eq_add_of_le hi
      rw [hleft j]
      exact (hfrom j).1

structure Walked (table : Table) (done : List Row) (p : Progress) : Prop where
  nodup : done.Nodup
  waited : ∀ r ∈ done, r ∈ table.rows.filter Row.waits
  rows : p.rows = applied setKey done table.rows
  processed : p.processed = done.length

theorem nodup_rows : table.rows.Nodup := List.Nodup.of_map _ table.ids

theorem Walked.start : Walked table [] (start table) where
  nodup := List.nodup_nil
  waited := fun _ h => absurd h List.not_mem_nil
  rows := applied_nil.symm
  processed := rfl

theorem Walked.waiting (h : Walked table done p) :
    p.rows.filter Row.waits = table.rows.filter fun r => r.waits && decide (r ∉ done) := by
  rw [h.rows, filter_applied waits_setKey]

theorem Walked.filled (h : Walked table done p) (hall : ∀ r ∈ table.rows.filter Row.waits, r ∈ done) :
    Filled table p where
  rows := by
    rw [h.rows, applied]
    apply List.map_congr_left
    intro r hr
    apply if_congr ?_ rfl rfl
    constructor
    · exact fun hdone => (List.mem_filter.mp (h.waited r hdone)).2
    · exact fun hwaits => hall r (List.mem_filter.mpr ⟨hr, hwaits⟩)
  processed := by
    rw [h.processed, List.countP_eq_length_filter]
    apply List.Perm.length_eq
    rw [List.perm_ext_iff_of_nodup h.nodup (nodup_rows.filter _)]
    exact fun r => ⟨h.waited r, hall r⟩

variable (hquiet : turn.Quiet)

include hquiet in
theorem batchOf_of_quiet : batchOf turn chunk rows = chunkOf turn chunk rows := by
  apply List.filter_eq_self.mpr
  intro r _
  rw [(hquiet.2.2.2 r.id).1]
  rfl

include hquiet in
theorem written_of_quiet (batch : List Row) : written turn batch = batch := by
  apply List.filter_eq_self.mpr
  intro r _
  rw [(hquiet.2.2.2 r.id).2]
  rfl

theorem Walked.mem_chunkOf (h : Walked table done p) {r : Row} (hr : r ∈ chunkOf turn chunk p.rows) :
    r ∈ table.rows.filter Row.waits ∧ r ∉ done := by
  have hmem := PubkeyBackfill.mem_chunkOf hr
  rw [h.waiting] at hmem
  obtain ⟨hrow, hboth⟩ := List.mem_filter.mp hmem
  obtain ⟨hwaits, hdone⟩ := Bool.and_eq_true_iff.mp hboth
  exact ⟨List.mem_filter.mpr ⟨hrow, hwaits⟩, of_decide_eq_true hdone⟩

include hquiet in
theorem Walked.advance (h : Walked table done p) :
    Walked table (done ++ chunkOf turn chunk p.rows) (advance turn chunk p) where
  nodup := by
    apply h.nodup.append
    · apply ((turn.order_perm _).nodup_iff.mpr ?_).sublist (List.take_sublist _ _)
      rw [h.waiting]
      exact nodup_rows.filter _
    · intro r hdone hr
      exact (h.mem_chunkOf hr).2 hdone
  waited := by
    intro r hr
    rcases List.mem_append.mp hr with hr | hr
    · exact h.waited r hr
    · exact (h.mem_chunkOf hr).1
  rows := by
    rw [PubkeyBackfill.advance, foldl_writeKey, written_of_quiet hquiet, batchOf_of_quiet hquiet, h.rows]
    apply foldl_update_applied settles_setKey table.ids
    · intro r hr
      rw [← h.rows] at hr
      exact List.mem_of_mem_filter (h.mem_chunkOf hr).1
    · intro r hr
      rw [← h.rows] at hr
      exact (h.mem_chunkOf hr).2
  processed := by
    rw [PubkeyBackfill.advance, batchOf_of_quiet hquiet, h.processed, List.length_append]

theorem Walked.mem_of_short (h : Walked table done p) (hshort : (chunkOf turn chunk p.rows).length < chunk) :
    ∀ r ∈ table.rows.filter Row.waits, r ∈ done ++ chunkOf turn chunk p.rows := by
  intro r hr
  by_cases hdone : r ∈ done
  · exact List.mem_append_left _ hdone
  · apply List.mem_append_right
    obtain ⟨hrow, hwaits⟩ := List.mem_filter.mp hr
    have hwaiting : r ∈ p.rows.filter Row.waits := by
      rw [h.waiting]
      exact List.mem_filter.mpr ⟨hrow, Bool.and_eq_true_iff.mpr ⟨hwaits, decide_eq_true hdone⟩⟩
    have hall : chunkOf turn chunk p.rows = turn.order (p.rows.filter Row.waits) := by
      rw [chunkOf, List.length_take] at hshort
      rw [chunkOf]
      exact List.take_of_length_le (by omega)
    rw [hall]
    exact (turn.order_perm _).mem_iff.mpr hwaiting

include hquiet in
theorem Walked.filled_of_ended (hchunk : 0 < chunk) (h : Walked table done p) (hend : step chunk turn p = .ended q) :
    Filled table q := by
  have hwalked : Walked table (done ++ chunkOf turn chunk p.rows) (PubkeyBackfill.advance turn chunk p) :=
    h.advance hquiet
  have hshort : (chunkOf turn chunk p.rows).length < chunk →
      ∀ r ∈ table.rows.filter Row.waits, r ∈ done ++ chunkOf turn chunk p.rows := h.mem_of_short
  rw [step, hquiet.1, hquiet.2.1, hquiet.2.2.1, if_neg Bool.false_ne_true] at hend
  dsimp only at hend
  rw [batchOf_of_quiet hquiet] at hend
  split at hend
  · next hzero =>
      cases hend
      rw [List.eq_nil_of_length_eq_zero hzero, List.append_nil] at hshort
      exact h.filled (hshort hchunk)
  · rw [if_neg Bool.false_ne_true, if_neg Bool.false_ne_true] at hend
    split at hend
    · next hlen =>
        have hq : q = PubkeyBackfill.advance turn chunk p := by
          cases hend
          rw [PubkeyBackfill.advance, batchOf_of_quiet hquiet]
        rw [hq]
        exact hwalked.filled (hshort hlen)
    · cases hend

theorem filled_of_loop (hchunk : 0 < chunk) (hquiet : ∀ k, (turns k).Quiet) {fuel : Nat}
    (h : loop (step chunk) fuel turns (start table) = some p) : Filled table p := by
  have hagain : ∀ turn p q, turn.Quiet → (∃ done, Walked table done p) → step chunk turn p = .again q →
      ∃ done, Walked table done q := by
    rintro turn p q hquiet ⟨done, hwalked⟩ hagain
    obtain ⟨-, rfl⟩ := whole_of_again hagain
    exact ⟨_, hwalked.advance hquiet⟩
  have hended : ∀ turn p q, turn.Quiet → (∃ done, Walked table done p) → step chunk turn p = .ended q →
      Filled table q := by
    rintro turn p q hquiet ⟨done, hwalked⟩ hended
    exact hwalked.filled_of_ended hquiet hchunk hended
  exact loop_of_inv hagain hended hquiet ⟨[], Walked.start⟩ h

theorem filled_start (h : (table.rows.filter Row.waits).length = 0) : Filled table (start table) := by
  apply Walked.filled Walked.start
  intro r hr
  rw [List.eq_nil_of_length_eq_zero h] at hr
  cases hr

theorem length_chunkOf : (chunkOf turn chunk rows).length = min chunk (rows.filter Row.waits).length := by
  rw [chunkOf, List.length_take, (turn.order_perm _).length_eq]

theorem length_le_of_whole (h : Whole turn chunk rows) : chunk ≤ rows.length := by
  have hlen := h.2.2.2
  rw [batchOf_eq_of_whole h, length_chunkOf] at hlen
  exact (hlen.trans (min_le_right _ _)).trans (List.length_filter_le _ _)

theorem left_sublist (k : Nat) : (left chunk turns rows k).Sublist (rows.filter Row.waits) := by
  induction k with
  | zero => exact List.Sublist.refl _
  | succ k ih => exact (left_succ_sublist k).trans ih

theorem ends_iff_not_stuck (chunkSize : Int) (opening : Opening) (turns : Nat → Turn) (table : Table) :
    (∃ fuel p, backfillFromPubkey chunkSize opening turns fuel table = some p) ↔
      ¬ Stuck chunkSize opening turns table := by
  by_cases hcount : opening.count = true
  · refine iff_of_true ⟨0, start table, ?_⟩ ?_
    · rw [backfillFromPubkey, if_pos hcount]
    · rintro ⟨hfalse, -⟩
      exact Bool.false_ne_true (hfalse.symm.trans hcount)
  by_cases hzero : (table.rows.filter Row.waits).length = 0
  · refine iff_of_true ⟨0, start table, ?_⟩ ?_
    · rw [backfillFromPubkey, if_neg hcount, if_pos hzero]
    · rintro ⟨-, -, k, -, hfrom⟩
      have hleft : (left (effectiveChunkSize chunkSize) turns table.rows k).length ≤ 0 :=
        (left_sublist k).length_le.trans hzero.le
      exact (effectiveChunkSize_pos chunkSize).not_ge ((length_le_of_whole (hfrom 0).1).trans hleft)
  by_cases hprepare : opening.prepare = true
  · refine iff_of_true ⟨0, start table, ?_⟩ ?_
    · rw [backfillFromPubkey, if_neg hcount, if_neg hzero, if_pos hprepare]
    · rintro ⟨-, hfalse, -⟩
      exact Bool.false_ne_true (hfalse.symm.trans hprepare)
  have hloop : ∀ fuel, backfillFromPubkey chunkSize opening turns fuel table =
      loop (step (effectiveChunkSize chunkSize)) fuel turns (start table) := by
    intro fuel
    rw [backfillFromPubkey, if_neg hcount, if_neg hzero, if_neg hprepare]
  simp only [hloop]
  rw [iff_not_comm, ← Ends, not_ends_iff_stuck table.ids (effectiveChunkSize_pos chunkSize), Stuck]
  rw [and_iff_right (Bool.eq_false_of_not_eq_true hcount), and_iff_right (Bool.eq_false_of_not_eq_true hprepare)]
  rfl

theorem finishes_iff (chunkSize : Int) (opening : Opening) (turns : Nat → Turn) (table : Table) :
    Finishes chunkSize opening turns table ↔ ¬ Stuck chunkSize opening turns table := by
  rw [← ends_iff_not_stuck]
  refine ⟨fun h => h.ends, fun h => ⟨h, ?_⟩⟩
  intro hcount hprepare hquiet fuel p hp
  rw [backfillFromPubkey, hcount, hprepare, if_neg Bool.false_ne_true, if_neg Bool.false_ne_true] at hp
  split at hp
  · next hzero =>
      cases hp
      exact filled_start hzero
  · exact filled_of_loop (effectiveChunkSize_pos chunkSize) hquiet hp

/-- The updates that fail are the same ones in every turn, and nothing else fails. -/
structure Failing (fails : Int → Bool) (turn : Turn) : Prop where
  select : turn.select = false
  begin : turn.begin = false
  commit : turn.commit = false
  scan : ∀ id, turn.scan id = false
  update : turn.update = fails

variable {fails : Int → Bool}

theorem failing_sublist_left (h : ∀ k, Failing fails (turns k)) (k : Nat) :
    (rows.filter fun r => r.waits && fails r.id).Sublist (left chunk turns rows k) := by
  induction k with
  | zero =>
      apply List.monotone_filter_right
      intro r hr
      exact (Bool.and_eq_true_iff.mp hr).1
  | succ k ih =>
      have hkept := ih.filter fun r =>
        decide (r ∉ written (turns k) (batchOf (turns k) chunk (left chunk turns rows k)))
      rw [List.filter_eq_self.mpr] at hkept
      · exact hkept
      · intro r hr
        apply decide_eq_true
        intro hwritten
        have hfails : (turns k).update r.id = true := by
          rw [(h k).update]
          exact (Bool.and_eq_true_iff.mp (List.mem_filter.mp hr).2).2
        have hnot := (List.mem_filter.mp hwritten).2
        rw [hfails] at hnot
        exact Bool.false_ne_true hnot

theorem whole_of_failing (h : Failing fails turn) (hlen : chunk ≤ (rows.filter Row.waits).length) :
    Whole turn chunk rows := by
  refine ⟨h.select, h.begin, h.commit, ?_⟩
  have hbatch : batchOf turn chunk rows = chunkOf turn chunk rows := by
    apply List.filter_eq_self.mpr
    intro r _
    rw [h.scan r.id]
    rfl
  rw [hbatch, length_chunkOf, min_eq_left hlen]

theorem stuck_iff_of_failing {chunkSize : Int} {opening : Opening} (hcount : opening.count = false)
    (hprepare : opening.prepare = false) (h : ∀ k, Failing fails (turns k)) :
    Stuck chunkSize opening turns table ↔
      effectiveChunkSize chunkSize ≤ table.rows.countP fun r => r.waits && fails r.id := by
  constructor
  · rintro ⟨-, -, k, -, hfrom⟩
    obtain ⟨hwhole, hupdate⟩ := hfrom 0
    set chunk := effectiveChunkSize chunkSize
    have hall : ∀ r ∈ chunkOf (turns k) chunk (left chunk turns table.rows k), fails r.id = true := by
      intro r hr
      rw [← (h k).update]
      exact hupdate r hr
    calc chunk ≤ (chunkOf (turns k) chunk (left chunk turns table.rows k)).length :=
          hwhole.2.2.2.trans (List.length_filter_le _ _)
      _ = (chunkOf (turns k) chunk (left chunk turns table.rows k)).countP fun r => fails r.id :=
          (List.countP_eq_length.mpr hall).symm
      _ ≤ ((turns k).order ((left chunk turns table.rows k).filter Row.waits)).countP fun r => fails r.id :=
          (List.take_sublist _ _).countP_le
      _ = ((left chunk turns table.rows k).filter Row.waits).countP fun r => fails r.id :=
          ((turns k).order_perm _).countP_eq _
      _ ≤ (table.rows.filter Row.waits).countP fun r => fails r.id :=
          (List.filter_sublist.trans (left_sublist k)).countP_le
      _ = table.rows.countP fun r => r.waits && fails r.id := by
          rw [List.countP_filter]
          simp only [Bool.and_comm]
  · intro hlen
    rw [List.countP_eq_length_filter] at hlen
    have hchunk := effectiveChunkSize_pos chunkSize
    refine ⟨hcount, hprepare, (@not_ends_iff_stuck _ _ (start table) table.ids hchunk).mp ?_⟩
    rw [not_ends_iff_whole table.ids hchunk]
    intro k
    apply whole_of_failing (h k)
    rw [List.filter_eq_self.mpr fun r hr => (List.mem_filter.mp ((left_sublist k).mem hr)).2]
    exact hlen.trans (failing_sublist_left h k).length_le

/-- An ADVERT whose key cannot be stored is the only row that waits; one row makes a batch. -/
def lockedTable : Table where
  rows := [{ id := 1, payloadType := some 4, decodedJSON := some "\x7b\x7d", fromPubkey := none }]
  ids := List.nodup_singleton _

def lockedTurn : Turn where
  order := id
  order_perm := fun _ => .refl _
  select := false
  scan := fun _ => false
  begin := false
  update := fun _ => true
  commit := false

def opened : Opening where
  count := false
  prepare := false

theorem locked_row_goes_on : ¬ Finishes 1 opened (fun _ => lockedTurn) lockedTable := by
  intro h
  have hfailing : ∀ _ : Nat, Failing (fun _ => true) lockedTurn := fun _ => ⟨rfl, rfl, rfl, fun _ => rfl, rfl⟩
  apply (ends_iff_not_stuck 1 opened _ lockedTable).mp h.ends
  apply (stuck_iff_of_failing rfl rfl hfailing).mpr
  decide

end MeshcoreAnalyzer.PubkeyBackfill

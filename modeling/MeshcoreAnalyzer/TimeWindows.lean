import MeshcoreAnalyzer.QueryAgreement

namespace MeshcoreAnalyzer.PacketStore

open Timestamps

variable {db : DB} {q : PacketFilter} {since upto : Int} {tx : TransmissionRow}

def PacketFilter.untimed (q : PacketFilter) : PacketFilter := { q with since := "", before := "" }

namespace DB

variable (db) (since upto : Int) (tx : TransmissionRow)

def HeardInside : Prop := ∃ o ∈ db.heard tx.id, since ≤ o.timestamp * second ∧ o.timestamp * second ≤ upto

/-- In the second in which the window opens, before it opens. -/
def HeardAtOpening : Prop := ∃ o ∈ db.heard tx.id, o.timestamp = since / second ∧ o.timestamp * second < since

/-- Before the window and after it. -/
def HeardAround : Prop :=
  (∃ o ∈ db.heard tx.id, o.timestamp * second < since) ∧ ∃ o ∈ db.heard tx.id, upto < o.timestamp * second

end DB

theorem second_pos : 0 < second := by decide

theorem le_floor_iff {t : Int} : t ≤ upto / second ↔ t * second ≤ upto := Int.le_ediv_iff_mul_le second_pos

theorem floor_le_iff {t : Int} : since / second ≤ t ↔ since ≤ t * second ∨ (t = since / second ∧ t * second < since) := by
  have hlt : since / second < t ↔ since < t * second := Int.ediv_lt_iff_lt_mul second_pos
  have hfloor : since / second * second ≤ since := Int.ediv_mul_le since second_pos.ne'
  constructor
  · intro h
    rcases h.eq_or_lt with h | h
    · rcases Int.lt_or_le (t * second) since with hopening | hinside
      · exact .inr ⟨h.symm, hopening⟩
      · exact .inl hinside
    · exact .inl (hlt.mp h).le
  · rintro (h | ⟨rfl, -⟩)
    · rcases h.eq_or_lt with h | h
      · rw [h, Int.mul_ediv_cancel t second_pos.ne']
      · exact (hlt.mpr h).le
    · exact le_rfl

theorem parseRFC3339_empty : parseRFC3339 "" = none := by decide

theorem sinceClause_iff (hsince : parseRFC3339 q.since = some since) :
    db.sinceClause q.since tx = true ↔ ∃ o ∈ db.heard tx.id, since / second ≤ o.timestamp := by
  have hne : q.since ≠ "" := by
    intro h
    rw [h, parseRFC3339_empty] at hsince
    cases hsince
  simp [DB.sinceClause, hne, hsince]

theorem untilClause_iff (hupto : parseRFC3339 q.before = some upto) :
    db.untilClause q.before tx = true ↔ ∃ o ∈ db.heard tx.id, o.timestamp * second ≤ upto := by
  have hne : q.before ≠ "" := by
    intro h
    rw [h, parseRFC3339_empty] at hupto
    cases hupto
  simp [DB.untilClause, hne, hupto, le_floor_iff]

theorem buildTransmissionWhere_eq (db : DB) (q : PacketFilter) (tx : TransmissionRow) :
    db.buildTransmissionWhere q tx =
      (db.buildTransmissionWhere q.untimed tx && (db.sinceClause q.since tx && db.untilClause q.before tx)) := by
  simp only [DB.buildTransmissionWhere, PacketFilter.untimed, PacketFilter.observerIDs, DB.sinceClause, DB.untilClause,
    decide_true, Bool.true_or, Bool.and_true]
  ac_rfl

theorem selected_iff (hsince : parseRFC3339 q.since = some since) (hupto : parseRFC3339 q.before = some upto)
    (hle : since ≤ upto) :
    db.buildTransmissionWhere q tx = true ↔ db.buildTransmissionWhere q.untimed tx = true ∧
      (db.HeardInside since upto tx ∨ db.HeardAtOpening since tx ∨ db.HeardAround since upto tx) := by
  rw [buildTransmissionWhere_eq, Bool.and_eq_true, Bool.and_eq_true, sinceClause_iff hsince, untilClause_iff hupto]
  apply and_congr_right
  intro _
  constructor
  · rintro ⟨⟨o, ho, hopen⟩, o', ho', hclose⟩
    rcases floor_le_iff.mp hopen with hlate | hopening
    · rcases le_or_gt (o.timestamp * second) upto with hin | hafter
      · exact .inl ⟨o, ho, hlate, hin⟩
      · rcases le_or_gt since (o'.timestamp * second) with hin | hbefore
        · exact .inl ⟨o', ho', hin, hclose⟩
        · exact .inr (.inr ⟨⟨o', ho', hbefore⟩, o, ho, hafter⟩)
    · exact .inr (.inl ⟨o, ho, hopening⟩)
  · rintro (⟨o, ho, hin, hclose⟩ | ⟨o, ho, hopening⟩ | ⟨⟨o, ho, hbefore⟩, o', ho', hafter⟩)
    · exact ⟨⟨o, ho, floor_le_iff.mpr (.inl hin)⟩, o, ho, hclose⟩
    · exact ⟨⟨o, ho, floor_le_iff.mpr (.inr hopening)⟩, o, ho, hopening.2.le.trans hle⟩
    · exact ⟨⟨o', ho', floor_le_iff.mpr (.inl (hle.trans hafter.le))⟩, o, ho, hbefore.le.trans hle⟩

theorem selected_mono {q' : PacketFilter} (hq' : q'.untimed = q.untimed) {since' upto' : Int}
    (hsince : parseRFC3339 q.since = some since) (hupto : parseRFC3339 q.before = some upto)
    (hsince' : parseRFC3339 q'.since = some since') (hupto' : parseRFC3339 q'.before = some upto')
    (hopen : since' ≤ since) (hclose : upto ≤ upto') (h : db.buildTransmissionWhere q tx = true) :
    db.buildTransmissionWhere q' tx = true := by
  rw [buildTransmissionWhere_eq, Bool.and_eq_true, Bool.and_eq_true, sinceClause_iff hsince, untilClause_iff hupto] at h
  rw [buildTransmissionWhere_eq, Bool.and_eq_true, Bool.and_eq_true, sinceClause_iff hsince', untilClause_iff hupto', hq']
  obtain ⟨hrest, ⟨o, ho, hlate⟩, o', ho', hearly⟩ := h
  exact ⟨hrest, ⟨o, ho, (Int.ediv_le_ediv second_pos hopen).trans hlate⟩, o', ho', hearly.trans hclose⟩

/-- What is selected between two times is what is heard between them. -/
def SelectsHeard (db : DB) (q : PacketFilter) (since upto : Int) : Prop :=
  ∀ tx ∈ db.transmissions, db.buildTransmissionWhere q tx = true ↔
    db.buildTransmissionWhere q.untimed tx = true ∧ db.HeardInside since upto tx

/-- This is so if and only if no packet that is not heard between the times is heard in the second that since cuts off,
or both before and after. -/
theorem selectsHeard_iff (db : DB) (q : PacketFilter) (since upto : Int) (hsince : parseRFC3339 q.since = some since)
    (hupto : parseRFC3339 q.before = some upto) (hle : since ≤ upto) :
    SelectsHeard db q since upto ↔
      ∀ tx ∈ db.transmissions, db.buildTransmissionWhere q.untimed tx = true → ¬db.HeardInside since upto tx →
        ¬db.HeardAtOpening since tx ∧ ¬db.HeardAround since upto tx := by
  apply forall₂_congr
  intro tx _
  rw [selected_iff hsince hupto hle]
  tauto

/-- The window is open for half a second when the packet is heard first. -/
theorem selectsHeard_iff_reheard :
    SelectsHeard reheardDB { since := "2026-01-01T00:00:00Z", before := "2026-01-01T00:00:00.5Z" } 1767225600000000000
      1767225600500000000 := by
  apply (selectsHeard_iff _ _ _ _ (by decide) (by decide) (by decide)).mpr
  intro tx htx _ hnot
  rw [List.mem_singleton.mp htx] at hnot
  exact absurd ⟨_, List.mem_cons_self, by decide, by decide⟩ hnot

theorem not_selectsHeard {q : PacketFilter} {since upto : Int} (hselected : reheardDB.buildTransmissionWhere q reheard = true)
    (h : (reheardDB.heard reheard.id).all fun o => ¬(since ≤ o.timestamp * second ∧ o.timestamp * second ≤ upto)) :
    ¬SelectsHeard reheardDB q since upto := by
  intro hall
  obtain ⟨-, o, ho, hinside⟩ := (hall reheard List.mem_cons_self).mp hselected
  exact of_decide_eq_true (List.all_eq_true.mp h o ho) hinside

/-- The packet is heard on two midnights. It is selected between two hours of the day, and from half a second after the
first midnight on. -/
theorem reheard_selected_around :
    (∃ since upto, parseRFC3339 "2026-01-01T06:00:00Z" = some since ∧ parseRFC3339 "2026-01-01T12:00:00Z" = some upto ∧
      since ≤ upto ∧
        ¬SelectsHeard reheardDB { since := "2026-01-01T06:00:00Z", before := "2026-01-01T12:00:00Z" } since upto) ∧
    ∃ since upto, parseRFC3339 "2026-01-01T00:00:00.5Z" = some since ∧ parseRFC3339 "2026-01-01T12:00:00Z" = some upto ∧
      since ≤ upto ∧
        ¬SelectsHeard reheardDB { since := "2026-01-01T00:00:00.5Z", before := "2026-01-01T12:00:00Z" } since upto :=
  ⟨⟨1767247200000000000, 1767268800000000000, by decide, by decide, by decide,
      not_selectsHeard (by decide) (by decide)⟩,
    1767225600500000000, 1767268800000000000, by decide, by decide, by decide,
      not_selectsHeard (by decide) (by decide)⟩

end MeshcoreAnalyzer.PacketStore

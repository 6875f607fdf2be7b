import MeshcoreAnalyzer.Calendar
import MeshcoreAnalyzer.Originators

namespace MeshcoreAnalyzer.DeltaBuilder

open Calendar Timestamps Maps Neighbors Originators

/-! The ticks of the builder in cmd/ingestor/neighbor_builder.go over the table of its
edges, the last of which is the watermark. -/

def neighborBuilderMaxBatch : Nat := 50000

structure TableRow where
  nodeA : String
  nodeB : String
  count : Nat
  lastSeen : String
deriving DecidableEq

def TableRow.key (r : TableRow) : EdgeKey := ⟨r.nodeA, r.nodeB⟩

def keyOf (e : EdgeRow) : EdgeKey := ⟨e.a, e.b⟩

def sqlMax (x y : String) : String := if x < y then y else x

def TableRow.bump (r : TableRow) (e : EdgeRow) : TableRow :=
  { r with count := r.count + 1, lastSeen := sqlMax r.lastSeen (stamp e.ts) }

/-- `INSERT … ON CONFLICT(node_a, node_b) DO UPDATE` -/
def upsertEdge : List TableRow → EdgeRow → List TableRow
  | [], e => [{ nodeA := e.a, nodeB := e.b, count := 1, lastSeen := stamp e.ts }]
  | r :: table, e => if r.key = keyOf e then r.bump e :: table else r :: upsertEdge table e

/-- `MAX` over texts; NULL for none. -/
def maxText : List String → Option String
  | [] => none
  | x :: rest =>
      match maxText rest with
      | none => some x
      | some y => some (sqlMax x y)

def watermark (table : List TableRow) : Int :=
  match maxText (table.map TableRow.lastSeen) with
  | none => 0
  | some s =>
      if s = "" then 0
      else match parseRFC3339 s with
        | some t => t / second
        | none => 0

/-- `WHERE o.timestamp > ?` -/
def behind (w : Int) (observations : List EdgeScanRow) : List EdgeScanRow :=
  observations.filter fun r => decide (w < r.ts)

structure State where
  observations : List EdgeScanRow := []
  table : List TableRow := []

inductive Event
  | insert (r : EdgeScanRow)
  | tick (order : List EdgeScanRow)

section Builder

variable (idx : GoMap String (List String)) (trust : Option Int)

/-- A tick whose query would give the rows in the order, were it not for the LIMIT. -/
def tick (order : List EdgeScanRow) (table : List TableRow) : List TableRow :=
  ((order.take neighborBuilderMaxBatch).flatMap (EdgeScanRow.edges idx trust)).foldl upsertEdge table

def State.step (s : State) : Event → State
  | .insert r => { s with observations := s.observations ++ [r] }
  | .tick order => { s with table := tick idx trust order s.table }

/-- Timestamps do not go back, and a query gives what is behind the watermark by its time;
rows of one second come in any order. -/
def Possible (s : State) : Event → Prop
  | .insert r => ∀ o ∈ s.observations, o.ts ≤ r.ts
  | .tick order => order.Perm (behind (watermark s.table) s.observations) ∧ order.Pairwise fun r r' => r.ts ≤ r'.ts

def Yields (r : EdgeScanRow) : Prop := r.edges idx trust ≠ []

instance (r : EdgeScanRow) : Decidable (Yields idx trust r) := by
  rw [Yields]
  infer_instance

/-- No second is counted before it is over: what yields an edge comes in after the watermark, the LIMIT cuts no second
off behind one that it counts, and no full batch without an edge stands before rows that yield one. -/
def Patient (s : State) : Event → Prop
  | .insert r => Yields idx trust r → watermark s.table < r.ts ∧ r.ts ≤ lastStamp
  | .tick order =>
      (∀ r ∈ order.take neighborBuilderMaxBatch, ∀ o ∈ order.drop neighborBuilderMaxBatch, Yields idx trust r →
        Yields idx trust o → r.ts ≠ o.ts) ∧
      ((∃ o ∈ order.drop neighborBuilderMaxBatch, Yields idx trust o) →
        ∃ r ∈ order.take neighborBuilderMaxBatch, Yields idx trust r)

/-- The table counts each of the edges, and has the last time of each pair. -/
structure Tallies (table : List TableRow) (edges : List EdgeRow) : Prop where
  nodup : (table.map TableRow.key).Nodup
  counts : ∀ r ∈ table, r.count = edges.countP fun e => decide (keyOf e = r.key)
  lastSeen : ∀ r ∈ table, ∃ e ∈ edges, keyOf e = r.key ∧ r.lastSeen = stamp e.ts ∧
    ∀ e' ∈ edges, keyOf e' = r.key → e'.ts ≤ e.ts
  every : ∀ e ∈ edges, keyOf e ∈ table.map TableRow.key

/-- Every edge of every observation is counted once. -/
def State.Complete (s : State) : Prop := Tallies s.table (s.observations.flatMap (EdgeScanRow.edges idx trust))

end Builder

variable {table : List TableRow} {edges : List EdgeRow}

/-- The texts of these edges are in the order of their times. -/
def Dated (edges : List EdgeRow) : Prop := ∀ e ∈ edges, 0 ≤ e.ts ∧ e.ts ≤ lastStamp

theorem upsertEdge_cases (table : List TableRow) (e : EdgeRow) :
    (∃ pre r post, table = pre ++ r :: post ∧ r.key = keyOf e ∧ upsertEdge table e = pre ++ r.bump e :: post) ∨
      keyOf e ∉ table.map TableRow.key ∧
        upsertEdge table e = table ++ [{ nodeA := e.a, nodeB := e.b, count := 1, lastSeen := stamp e.ts }] := by
  induction table with
  | nil => exact .inr ⟨List.not_mem_nil, rfl⟩
  | cons r table ih =>
      rw [upsertEdge]
      by_cases hkey : r.key = keyOf e
      · rw [if_pos hkey]
        exact .inl ⟨[], r, table, rfl, hkey, rfl⟩
      · rw [if_neg hkey]
        rcases ih with ⟨pre, r', post, rfl, hkey', hupsert⟩ | ⟨hnew, hupsert⟩
        · exact .inl ⟨r :: pre, r', post, rfl, hkey', congrArg (r :: ·) hupsert⟩
        · refine .inr ⟨?_, congrArg (r :: ·) hupsert⟩
          rw [List.map_cons, List.mem_cons, not_or]
          exact ⟨Ne.symm hkey, hnew⟩

theorem Tallies.nil : Tallies [] [] where
  nodup := List.nodup_nil
  counts := fun _ hr => absurd hr List.not_mem_nil
  lastSeen := fun _ hr => absurd hr List.not_mem_nil
  every := fun _ he => absurd he List.not_mem_nil

theorem Tallies.perm {edges' : List EdgeRow} (h : Tallies table edges) (hperm : edges.Perm edges') :
    Tallies table edges' where
  nodup := h.nodup
  counts := fun r hr => (h.counts r hr).trans (hperm.countP_eq _)
  lastSeen := by
    intro r hr
    obtain ⟨e, he, hkey, hseen, hlast⟩ := h.lastSeen r hr
    exact ⟨e, hperm.subset he, hkey, hseen, fun e' he' => hlast e' (hperm.symm.subset he')⟩
  every := fun e he => h.every e (hperm.symm.subset he)

theorem Tallies.other (h : Tallies table edges) {r : TableRow} (hr : r ∈ table) {e : EdgeRow} (hkey : keyOf e ≠ r.key) :
    r.count = (edges ++ [e]).countP (fun e' => decide (keyOf e' = r.key)) ∧
      ∃ e₀ ∈ edges ++ [e], keyOf e₀ = r.key ∧ r.lastSeen = stamp e₀.ts ∧
        ∀ e' ∈ edges ++ [e], keyOf e' = r.key → e'.ts ≤ e₀.ts := by
  obtain ⟨e₀, he₀, hkey₀, hseen, hlast⟩ := h.lastSeen r hr
  refine ⟨?_, e₀, List.mem_append_left _ he₀, hkey₀, hseen, ?_⟩
  · rw [List.countP_append, List.countP_singleton, decide_eq_false hkey, ← h.counts r hr]
    rfl
  · intro e' he' hkey'
    rcases List.mem_append.mp he' with hmem | hmem
    · exact hlast e' hmem hkey'
    · rw [List.mem_singleton.mp hmem] at hkey'
      exact absurd hkey' hkey

theorem Tallies.bump (h : Tallies table edges) {r : TableRow} (hr : r ∈ table) {e : EdgeRow} (hkey : keyOf e = r.key)
    (hdated : Dated (edges ++ [e])) :
    (r.bump e).count = (edges ++ [e]).countP (fun e' => decide (keyOf e' = (r.bump e).key)) ∧
      ∃ e₀ ∈ edges ++ [e], keyOf e₀ = (r.bump e).key ∧ (r.bump e).lastSeen = stamp e₀.ts ∧
        ∀ e' ∈ edges ++ [e], keyOf e' = (r.bump e).key → e'.ts ≤ e₀.ts := by
  have hsame : (r.bump e).key = r.key := rfl
  obtain ⟨e₀, he₀, hkey₀, hseen, hlast⟩ := h.lastSeen r hr
  obtain ⟨hlow₀, hhigh₀⟩ := hdated e₀ (List.mem_append_left _ he₀)
  obtain ⟨hlow, hhigh⟩ := hdated e (List.mem_append_right _ (List.mem_singleton_self e))
  rw [hsame]
  refine ⟨?_, ?_⟩
  · rw [List.countP_append, List.countP_singleton, decide_eq_true hkey, ← h.counts r hr]
    rfl
  · have hmax : (r.bump e).lastSeen = sqlMax (stamp e₀.ts) (stamp e.ts) := by
      rw [← hseen]
      rfl
    rw [hmax, sqlMax]
    by_cases hlt : e₀.ts < e.ts
    · rw [if_pos (stamp_lt (earliestStamp_le (firstStamp_le hlow₀)) hlt hhigh)]
      refine ⟨e, List.mem_append_right _ (List.mem_singleton_self e), hkey, rfl, ?_⟩
      intro e' he' hkey'
      rcases List.mem_append.mp he' with hmem | hmem
      · exact (hlast e' hmem hkey').trans hlt.le
      · rw [List.mem_singleton.mp hmem]
    · rw [if_neg (not_lt.mpr ((stamp_le_iff (earliestStamp_le (firstStamp_le hlow)) hhigh
        (earliestStamp_le (firstStamp_le hlow₀)) hhigh₀).mpr (not_lt.mp hlt)))]
      refine ⟨e₀, List.mem_append_left _ he₀, hkey₀, rfl, ?_⟩
      intro e' he' hkey'
      rcases List.mem_append.mp he' with hmem | hmem
      · exact hlast e' hmem hkey'
      · rw [List.mem_singleton.mp hmem]
        exact not_lt.mp hlt

theorem Tallies.upsertEdge (h : Tallies table edges) {e : EdgeRow} (hdated : Dated (edges ++ [e])) :
    Tallies (upsertEdge table e) (edges ++ [e]) := by
  rcases upsertEdge_cases table e with ⟨pre, r, post, rfl, hkey, hupsert⟩ | ⟨hnew, hupsert⟩
  · have hr : r ∈ pre ++ r :: post := List.mem_append_right _ List.mem_cons_self
    have hkeys : (pre ++ r.bump e :: post).map TableRow.key = (pre ++ r :: post).map TableRow.key := by
      rw [List.map_append, List.map_append]
      rfl
    have hothers : ∀ r' ∈ pre ++ r.bump e :: post, r' = r.bump e ∨ r' ∈ pre ++ r :: post ∧ keyOf e ≠ r'.key := by
      have hnodup := h.nodup
      rw [List.map_append, List.map_cons, List.nodup_append] at hnodup
      obtain ⟨-, hpost, hdisjoint⟩ := hnodup
      rw [List.nodup_cons] at hpost
      intro r' hr'
      rcases List.mem_append.mp hr' with hmem | hmem
      · refine .inr ⟨List.mem_append_left _ hmem, ?_⟩
        rw [← hkey]
        exact Ne.symm (hdisjoint _ (List.mem_map_of_mem hmem) _ List.mem_cons_self)
      · rcases List.mem_cons.mp hmem with hbump | hmem
        · exact .inl hbump
        · refine .inr ⟨List.mem_append_right _ (List.mem_cons_of_mem _ hmem), ?_⟩
          rw [← hkey]
          intro heq
          exact hpost.1 (heq ▸ List.mem_map_of_mem hmem)
    rw [hupsert]
    exact {
      nodup := hkeys.symm ▸ h.nodup
      counts := by
        intro r' hr'
        rcases hothers r' hr' with rfl | ⟨hmem, hne⟩
        · exact (h.bump hr hkey.symm hdated).1
        · exact (h.other hmem hne).1
      lastSeen := by
        intro r' hr'
        rcases hothers r' hr' with rfl | ⟨hmem, hne⟩
        · exact (h.bump hr hkey.symm hdated).2
        · exact (h.other hmem hne).2
      every := by
        intro e' he'
        rw [hkeys]
        rcases List.mem_append.mp he' with hmem | hmem
        · exact h.every e' hmem
        · rw [List.mem_singleton.mp hmem, ← hkey]
          exact List.mem_map_of_mem hr }
  · have hnone : ∀ e' ∈ edges, keyOf e' ≠ keyOf e := fun e' he' heq => hnew (heq ▸ h.every e' he')
    have hne : ∀ r ∈ table, keyOf e ≠ r.key := fun r hr heq => hnew (heq ▸ List.mem_map_of_mem hr)
    rw [hupsert]
    exact {
      nodup := by
        rw [List.map_append, List.nodup_append]
        refine ⟨h.nodup, List.nodup_singleton _, ?_⟩
        rintro k hk k' hk' rfl
        rw [List.map_singleton, List.mem_singleton] at hk'
        rw [hk'] at hk
        exact hnew hk
      counts := by
        intro r hr
        rcases List.mem_append.mp hr with hmem | hmem
        · exact (h.other hmem (hne r hmem)).1
        · rw [List.mem_singleton.mp hmem, List.countP_append, List.countP_singleton]
          have hzero : edges.countP (fun e' => decide (keyOf e' = keyOf e)) = 0 := by
            rw [List.countP_eq_zero]
            intro e' he'
            rw [decide_eq_true_iff]
            exact hnone e' he'
          have hkeyNew : TableRow.key ⟨e.a, e.b, 1, stamp e.ts⟩ = keyOf e := rfl
          rw [hkeyNew, hzero, decide_eq_true rfl]
          rfl
      lastSeen := by
        intro r hr
        rcases List.mem_append.mp hr with hmem | hmem
        · exact (h.other hmem (hne r hmem)).2
        · rw [List.mem_singleton.mp hmem]
          refine ⟨e, List.mem_append_right _ (List.mem_singleton_self e), rfl, rfl, ?_⟩
          intro e' he' hkey'
          rcases List.mem_append.mp he' with hmem' | hmem'
          · exact absurd hkey' (hnone e' hmem')
          · rw [List.mem_singleton.mp hmem']
      every := by
        intro e' he'
        rw [List.map_append, List.mem_append]
        rcases List.mem_append.mp he' with hmem | hmem
        · exact .inl (h.every e' hmem)
        · refine .inr ?_
          rw [List.mem_singleton.mp hmem]
          exact List.mem_singleton_self _ }

theorem Tallies.foldl (h : Tallies table edges) {more : List EdgeRow} (hdated : Dated (edges ++ more)) :
    Tallies (more.foldl DeltaBuilder.upsertEdge table) (edges ++ more) := by
  induction more generalizing table edges with
  | nil => exact (List.append_nil edges).symm ▸ h
  | cons e more ih =>
      have hsplit : edges ++ e :: more = edges ++ [e] ++ more := by rw [List.append_assoc, List.singleton_append]
      rw [hsplit] at hdated ⊢
      exact ih (h.upsertEdge fun e' he' => hdated e' (List.mem_append_left _ he')) hdated

theorem maxText_spec {texts : List String} {m : String} (h : maxText texts = some m) :
    m ∈ texts ∧ ∀ x ∈ texts, x ≤ m := by
  induction texts generalizing m with
  | nil => cases h
  | cons x rest ih =>
      rw [maxText] at h
      cases hrest : maxText rest with
      | none =>
          rw [hrest] at h
          cases h
          refine ⟨List.mem_cons_self, fun y hy => ?_⟩
          rcases List.mem_cons.mp hy with rfl | hmem
          · exact le_rfl
          · cases rest with
            | nil => exact absurd hmem List.not_mem_nil
            | cons z rest =>
                rw [maxText] at hrest
                split at hrest <;> cases hrest
      | some y =>
          rw [hrest] at h
          cases h
          obtain ⟨hmem, hmax⟩ := ih hrest
          rw [sqlMax]
          by_cases hlt : x < y
          · rw [if_pos hlt]
            refine ⟨List.mem_cons_of_mem _ hmem, fun z hz => ?_⟩
            rcases List.mem_cons.mp hz with rfl | hz
            · exact hlt.le
            · exact hmax z hz
          · rw [if_neg hlt]
            refine ⟨List.mem_cons_self, fun z hz => ?_⟩
            rcases List.mem_cons.mp hz with rfl | hz
            · exact le_rfl
            · exact (hmax z hz).trans (not_lt.mp hlt)

theorem maxText_eq_none {texts : List String} (h : maxText texts = none) : texts = [] := by
  cases texts with
  | nil => rfl
  | cons x rest =>
      rw [maxText] at h
      split at h <;> cases h

theorem Tallies.watermark_spec (h : Tallies table edges) (hdated : Dated edges) :
    edges = [] ∧ watermark table = 0 ∨ ∃ e ∈ edges, watermark table = e.ts ∧ ∀ e' ∈ edges, e'.ts ≤ e.ts := by
  rw [watermark]
  cases hmax : maxText (table.map TableRow.lastSeen) with
  | none =>
      have hnil := List.map_eq_nil_iff.mp (maxText_eq_none hmax)
      refine .inl ⟨List.eq_nil_iff_forall_not_mem.mpr fun e he => ?_, rfl⟩
      have hmem := h.every e he
      rw [hnil] at hmem
      exact absurd hmem List.not_mem_nil
  | some m =>
      obtain ⟨hmem, hlatest⟩ := maxText_spec hmax
      obtain ⟨r, hr, rfl⟩ := List.mem_map.mp hmem
      obtain ⟨e, he, -, hseen, -⟩ := h.lastSeen r hr
      obtain ⟨hlow, hhigh⟩ := hdated e he
      have hsome : stamp e.ts ≠ "" := by
        intro hempty
        have hparse := parseRFC3339_stamp (firstStamp_le hlow) hhigh
        rw [hempty] at hparse
        cases hparse
      refine .inr ⟨e, he, ?_, fun e' he' => ?_⟩
      · dsimp only
        rw [hseen, if_neg hsome, parseRFC3339_stamp (firstStamp_le hlow) hhigh]
        exact Int.mul_ediv_cancel _ (by decide)
      · obtain ⟨r', hr', hkey'⟩ := List.mem_map.mp (h.every e' he')
        obtain ⟨e₁, he₁, -, hseen₁, hlast₁⟩ := h.lastSeen r' hr'
        have hle := hlatest _ (List.mem_map_of_mem hr')
        obtain ⟨hlow₁, hhigh₁⟩ := hdated e₁ he₁
        rw [hseen, hseen₁, stamp_le_iff (earliestStamp_le (firstStamp_le hlow₁)) hhigh₁
          (earliestStamp_le (firstStamp_le hlow)) hhigh] at hle
        exact (hlast₁ e' he' hkey'.symm).trans hle

theorem Tallies.watermark_ge (h : Tallies table edges) (hdated : Dated edges) :
    0 ≤ watermark table ∧ ∀ e ∈ edges, e.ts ≤ watermark table := by
  rcases h.watermark_spec hdated with ⟨rfl, hw⟩ | ⟨e, he, hw, hmax⟩
  · rw [hw]
    exact ⟨le_rfl, fun e he => absurd he List.not_mem_nil⟩
  · rw [hw]
    exact ⟨(hdated e he).1, hmax⟩

variable {idx : GoMap String (List String)} {trust : Option Int}

theorem edges_ts {r : EdgeScanRow} : ∀ e ∈ r.edges idx trust, e.ts = r.ts := by
  have hcanon : ∀ a b, (canonEdge a b r.ts).ts = r.ts := by
    intro a b
    rw [canonEdge]
    split <;> rfl
  have hhop : ∀ node hop, ∀ e ∈ EdgeScanRow.hopEdge idx trust node hop r.ts, e.ts = r.ts := by
    intro node hop e he
    rw [EdgeScanRow.hopEdge] at he
    split at he
    · split at he
      · rw [List.mem_singleton.mp he]
        exact hcanon _ _
      · exact absurd he List.not_mem_nil
    · exact absurd he List.not_mem_nil
  intro e he
  rw [EdgeScanRow.edges] at he
  split at he
  · split at he
    · rw [List.mem_singleton.mp he]
      exact hcanon _ _
    · exact absurd he List.not_mem_nil
  · rcases List.mem_append.mp he with hmem | hmem
    · split at hmem
      · exact hhop _ _ e hmem
      · exact absurd hmem List.not_mem_nil
    · split at hmem
      · exact hhop _ _ e hmem
      · exact absurd hmem List.not_mem_nil

variable (idx trust) in
def yielding (w : Int) (rows : List EdgeScanRow) : List EdgeScanRow :=
  rows.filter fun r => decide (Yields idx trust r ∧ r.ts ≤ w)

variable (idx trust) in
def backlog (s : State) : List EdgeScanRow :=
  (behind (watermark s.table) s.observations).filter fun r => decide (Yields idx trust r)

theorem flatMap_yielding {rows : List EdgeScanRow} {w : Int} (h : ∀ r ∈ rows, Yields idx trust r → r.ts ≤ w) :
    (yielding idx trust w rows).flatMap (EdgeScanRow.edges idx trust) = rows.flatMap (EdgeScanRow.edges idx trust) := by
  induction rows with
  | nil => rfl
  | cons r rows ih =>
      have hrest := ih fun r' hr' => h r' (List.mem_cons_of_mem _ hr')
      rw [yielding] at hrest ⊢
      rw [List.filter_cons, List.flatMap_cons]
      by_cases hyields : Yields idx trust r
      · rw [if_pos (decide_eq_true ⟨hyields, h r List.mem_cons_self hyields⟩), List.flatMap_cons, hrest]
      · rw [if_neg (by rw [decide_eq_true_iff]; exact fun hboth => hyields hboth.1), hrest]
        rw [Yields, not_not] at hyields
        rw [hyields, List.nil_append]

variable (idx trust) in
/-- The table counts what lies at or before its watermark, and every row is dated that yields an edge. -/
structure Inv (s : State) : Prop where
  tallies : Tallies s.table ((yielding idx trust (watermark s.table) s.observations).flatMap (EdgeScanRow.edges idx trust))
  dated : ∀ r ∈ s.observations, Yields idx trust r → 0 ≤ r.ts ∧ r.ts ≤ lastStamp

theorem dated_flatMap {rows : List EdgeScanRow} (h : ∀ r ∈ rows, Yields idx trust r → 0 ≤ r.ts ∧ r.ts ≤ lastStamp) :
    Dated (rows.flatMap (EdgeScanRow.edges idx trust)) := by
  intro e he
  obtain ⟨r, hr, he⟩ := List.mem_flatMap.mp he
  rw [edges_ts e he]
  exact h r hr (List.ne_nil_of_mem he)

theorem Inv.dated_yielding {s : State} (h : Inv idx trust s) (w : Int) :
    Dated ((yielding idx trust w s.observations).flatMap (EdgeScanRow.edges idx trust)) :=
  dated_flatMap fun r hr => h.dated r (List.mem_of_mem_filter hr)

theorem Inv.start : Inv idx trust {} where
  tallies := Tallies.nil
  dated := fun _ hr => absurd hr List.not_mem_nil

theorem Inv.insert {s : State} (h : Inv idx trust s) {r : EdgeScanRow} (hpatient : Patient idx trust s (.insert r)) :
    Inv idx trust (s.step idx trust (.insert r)) := by
  have hwatermark := (h.tallies.watermark_ge (h.dated_yielding _)).1
  have hsame : yielding idx trust (watermark s.table) (s.observations ++ [r]) =
      yielding idx trust (watermark s.table) s.observations := by
    have hnew : ¬ (Yields idx trust r ∧ r.ts ≤ watermark s.table) := by
      rintro ⟨hyields, hle⟩
      exact absurd (hpatient hyields).1 (not_lt.mpr hle)
    rw [yielding, List.filter_append, List.filter_singleton, decide_eq_false hnew]
    exact List.append_nil _
  refine ⟨?_, ?_⟩
  · change Tallies s.table ((yielding idx trust (watermark s.table) (s.observations ++ [r])).flatMap _)
    rw [hsame]
    exact h.tallies
  · intro r' hr' hyields
    rcases List.mem_append.mp hr' with hmem | hmem
    · exact h.dated r' hmem hyields
    · rw [List.mem_singleton.mp hmem] at hyields ⊢
      obtain ⟨hlow, hhigh⟩ := hpatient hyields
      exact ⟨hwatermark.trans hlow.le, hhigh⟩

variable (idx trust) in
/-- A tick whose order is possible and patient: the batch, the rows that the LIMIT cuts off, and the watermark after it. -/
structure Advance (s : State) (batch rest : List EdgeScanRow) (w : Int) : Prop where
  perm : (batch ++ rest).Perm (behind (watermark s.table) s.observations)
  grows : watermark s.table ≤ w
  counted : ∀ r ∈ batch, Yields idx trust r → r.ts ≤ w
  left : ∀ r ∈ rest, Yields idx trust r → w < r.ts

theorem yielding_perm {s : State} {batch rest : List EdgeScanRow} {w : Int}
    (h : Advance idx trust s batch rest w) :
    (yielding idx trust w s.observations).Perm
      (yielding idx trust (watermark s.table) s.observations ++ yielding idx trust w batch) := by
  have hsplit := List.filter_append_perm (fun r : EdgeScanRow => decide (r.ts ≤ watermark s.table))
    (yielding idx trust w s.observations)
  have hold : (yielding idx trust w s.observations).filter (fun r => decide (r.ts ≤ watermark s.table)) =
      yielding idx trust (watermark s.table) s.observations := by
    rw [yielding, List.filter_filter]
    apply List.filter_congr
    intro r _
    rw [← Bool.decide_and, decide_eq_decide]
    exact ⟨fun hr => ⟨hr.2.1, hr.1⟩, fun hr => ⟨hr.2, hr.1, hr.2.trans h.grows⟩⟩
  have hnew : (yielding idx trust w s.observations).filter (fun r => !decide (r.ts ≤ watermark s.table)) =
      yielding idx trust w (behind (watermark s.table) s.observations) := by
    rw [yielding, yielding, behind, List.filter_filter, List.filter_filter]
    apply List.filter_congr
    intro r _
    rw [Bool.and_comm, ← decide_not]
    apply congrArg (_ && ·)
    rw [decide_eq_decide, not_le]
  have hrest : yielding idx trust w rest = [] := by
    rw [yielding, List.filter_eq_nil_iff]
    intro r hr
    rw [decide_eq_true_iff]
    rintro ⟨hyields, hle⟩
    exact absurd (h.left r hr hyields) (not_lt.mpr hle)
  have hbatch : (yielding idx trust w (behind (watermark s.table) s.observations)).Perm (yielding idx trust w batch) := by
    have hperm := (h.perm.filter fun r => decide (Yields idx trust r ∧ r.ts ≤ w)).symm
    rw [List.filter_append] at hperm
    rw [yielding] at hrest
    rw [hrest, List.append_nil] at hperm
    exact hperm
  rw [hold, hnew] at hsplit
  exact hsplit.symm.trans (hbatch.append_left _)

theorem backlog_perm {s : State} {batch rest : List EdgeScanRow} (table : List TableRow)
    (h : Advance idx trust s batch rest (watermark table)) :
    (backlog idx trust { s with table }).Perm (rest.filter fun r => decide (Yields idx trust r)) := by
  have hlate : backlog idx trust { s with table } =
      (behind (watermark s.table) s.observations).filter
        (fun r => decide (Yields idx trust r ∧ watermark table < r.ts)) := by
    rw [backlog, behind, behind, List.filter_filter, List.filter_filter]
    apply List.filter_congr
    intro r _
    have hgrows := h.grows
    rw [← Bool.decide_and, ← Bool.decide_and, decide_eq_decide]
    exact ⟨fun hr => ⟨hr, hgrows.trans_lt hr.2⟩, And.left⟩
  have hbatch : batch.filter (fun r => decide (Yields idx trust r ∧ watermark table < r.ts)) = [] := by
    rw [List.filter_eq_nil_iff]
    intro r hr
    rw [decide_eq_true_iff]
    rintro ⟨hyields, hlt⟩
    exact absurd hlt (not_lt.mpr (h.counted r hr hyields))
  have hrest : rest.filter (fun r => decide (Yields idx trust r ∧ watermark table < r.ts)) =
      rest.filter fun r => decide (Yields idx trust r) := by
    apply List.filter_congr
    intro r hr
    rw [decide_eq_decide]
    exact ⟨And.left, fun hyields => ⟨hyields, h.left r hr hyields⟩⟩
  rw [hlate, ← hrest]
  have hperm := (h.perm.filter fun r => decide (Yields idx trust r ∧ watermark table < r.ts)).symm
  rw [List.filter_append, hbatch, List.nil_append] at hperm
  exact hperm

theorem mem_order {s : State} {order : List EdgeScanRow} (hpossible : Possible s (.tick order)) {r : EdgeScanRow}
    (hr : r ∈ order) : watermark s.table < r.ts ∧ r ∈ s.observations := by
  have hmem := hpossible.1.subset hr
  rw [behind, List.mem_filter, decide_eq_true_iff] at hmem
  exact ⟨hmem.2, hmem.1⟩

section Tick

variable {s : State} {order : List EdgeScanRow} (h : Inv idx trust s) (hpossible : Possible s (.tick order))
  (hpatient : Patient idx trust s (.tick order))
include h hpossible

theorem Inv.tallies_tick : Tallies (tick idx trust order s.table)
    ((yielding idx trust (watermark s.table) s.observations).flatMap (EdgeScanRow.edges idx trust) ++
      (order.take neighborBuilderMaxBatch).flatMap (EdgeScanRow.edges idx trust)) ∧
    Dated ((yielding idx trust (watermark s.table) s.observations).flatMap (EdgeScanRow.edges idx trust) ++
      (order.take neighborBuilderMaxBatch).flatMap (EdgeScanRow.edges idx trust)) := by
  have hdated : Dated ((yielding idx trust (watermark s.table) s.observations).flatMap (EdgeScanRow.edges idx trust) ++
      (order.take neighborBuilderMaxBatch).flatMap (EdgeScanRow.edges idx trust)) := by
    intro e he
    rcases List.mem_append.mp he with hmem | hmem
    · exact h.dated_yielding _ e hmem
    · refine dated_flatMap (fun r hr => h.dated r ?_) e hmem
      exact (mem_order hpossible (List.mem_of_mem_take hr)).2
  exact ⟨h.tallies.foldl hdated, hdated⟩

include hpatient

theorem Inv.advance : Advance idx trust s (order.take neighborBuilderMaxBatch)
    (order.drop neighborBuilderMaxBatch) (watermark (tick idx trust order s.table)) := by
  obtain ⟨htallies, hdated⟩ := h.tallies_tick hpossible
  obtain ⟨hnonneg, hlatest⟩ := htallies.watermark_ge hdated
  refine ⟨?_, ?_, ?_, ?_⟩
  · rw [List.take_append_drop]
    exact hpossible.1
  · rcases h.tallies.watermark_spec (h.dated_yielding _) with ⟨-, hw⟩ | ⟨e, he, hw, -⟩
    · rw [hw]
      exact hnonneg
    · rw [hw]
      exact hlatest e (List.mem_append_left _ he)
  · intro r hr hyields
    obtain ⟨e, he⟩ := List.exists_mem_of_ne_nil _ hyields
    have hle := hlatest e (List.mem_append_right _ (List.mem_flatMap_of_mem hr he))
    rwa [edges_ts e he] at hle
  · intro o ho hyields
    have hafter := (mem_order hpossible (List.mem_of_mem_drop ho)).1
    rcases htallies.watermark_spec hdated with ⟨-, hw⟩ | ⟨e, he, hw, -⟩
    · rw [hw]
      exact ((h.tallies.watermark_ge (h.dated_yielding _)).1).trans_lt hafter
    · rw [hw]
      rcases List.mem_append.mp he with hmem | hmem
      · exact ((h.tallies.watermark_ge (h.dated_yielding _)).2 e hmem).trans_lt hafter
      · obtain ⟨r, hr, he⟩ := List.mem_flatMap.mp hmem
        rw [edges_ts e he]
        have hsorted := hpossible.2
        rw [← List.take_append_drop neighborBuilderMaxBatch order, List.pairwise_append] at hsorted
        exact lt_of_le_of_ne (hsorted.2.2 r hr o ho) (hpatient.1 r hr o ho (List.ne_nil_of_mem he) hyields)

theorem Inv.tick : Inv idx trust (s.step idx trust (.tick order)) := by
  obtain ⟨htallies, hdated⟩ := h.tallies_tick hpossible
  have hadvance := h.advance hpossible hpatient
  refine ⟨htallies.perm ?_, h.dated⟩
  have hperm := (yielding_perm hadvance).flatMap_right (EdgeScanRow.edges idx trust)
  rw [List.flatMap_append, flatMap_yielding hadvance.counted] at hperm
  exact hperm.symm

theorem Inv.backlog_tick (hsome : backlog idx trust s ≠ []) :
    (backlog idx trust (s.step idx trust (.tick order))).length < (backlog idx trust s).length := by
  have hadvance := h.advance hpossible hpatient
  have hafter := (backlog_perm _ hadvance).length_eq
  have hbefore : (backlog idx trust s).length =
      ((order.take neighborBuilderMaxBatch).filter fun r => decide (Yields idx trust r)).length +
        ((order.drop neighborBuilderMaxBatch).filter fun r => decide (Yields idx trust r)).length := by
    rw [← List.length_append, ← List.filter_append]
    exact (hadvance.perm.filter fun r => decide (Yields idx trust r)).length_eq.symm
  have hcounted : ∃ r ∈ order.take neighborBuilderMaxBatch, Yields idx trust r := by
    obtain ⟨r, hr⟩ := List.exists_mem_of_ne_nil _ hsome
    rw [backlog, List.mem_filter, decide_eq_true_iff] at hr
    have hmem := hadvance.perm.symm.subset hr.1
    rcases List.mem_append.mp hmem with hbatch | hrest
    · exact ⟨r, hbatch, hr.2⟩
    · exact hpatient.2 ⟨r, hrest, hr.2⟩
  obtain ⟨r, hr, hyields⟩ := hcounted
  have hpos : 0 < ((order.take neighborBuilderMaxBatch).filter fun r => decide (Yields idx trust r)).length :=
    List.length_pos_of_mem (List.mem_filter.mpr ⟨hr, decide_eq_true hyields⟩)
  change (backlog idx trust { s with table := DeltaBuilder.tick idx trust order s.table }).length < _
  omega

end Tick

variable (idx trust) in
/-- A run of the program, in which every step meets the condition. -/
def PatientRun (s : State) (events : List Event) : Prop :=
  Runs.Along (State.step idx trust) (fun s e => Possible s e ∧ Patient idx trust s e) s events

variable (idx trust) in
def run (s : State) (events : List Event) : State := events.foldl (State.step idx trust) s

theorem Inv.run {s : State} {events : List Event} (h : Inv idx trust s) (hrun : PatientRun idx trust s events) :
    Inv idx trust (DeltaBuilder.run idx trust s events) := by
  refine Runs.Along.foldl_invariant hrun h ?_
  rintro s e h ⟨hpossible, hpatient⟩
  cases e with
  | insert r => exact h.insert hpatient
  | tick order => exact h.tick hpossible hpatient

theorem Inv.complete {s : State} (h : Inv idx trust s) (hnone : backlog idx trust s = []) : s.Complete idx trust := by
  have hall : ∀ r ∈ s.observations, Yields idx trust r → r.ts ≤ watermark s.table := by
    intro r hr hyields
    by_contra hlate
    have hmem : r ∈ backlog idx trust s := by
      rw [backlog, behind, List.mem_filter, List.mem_filter]
      exact ⟨⟨hr, decide_eq_true (not_le.mp hlate)⟩, decide_eq_true hyields⟩
    rw [hnone] at hmem
    exact absurd hmem List.not_mem_nil
  have htallies := h.tallies
  rw [flatMap_yielding hall] at htallies
  exact htallies

theorem Inv.complete_ticks {s : State} (h : Inv idx trust s) {orders : List (List EdgeScanRow)}
    (hrun : PatientRun idx trust s (orders.map .tick)) (hmany : (backlog idx trust s).length ≤ orders.length) :
    (DeltaBuilder.run idx trust s (orders.map .tick)).Complete idx trust := by
  induction orders generalizing s with
  | nil => exact h.complete (List.length_eq_zero_iff.mp (Nat.le_zero.mp hmany))
  | cons order orders ih =>
      obtain ⟨⟨hpossible, hpatient⟩, hrest⟩ := hrun
      refine ih (h.tick hpossible hpatient) hrest ?_
      rw [List.length_cons] at hmany
      by_cases hnone : backlog idx trust s = []
      · have hperm := (backlog_perm _ (h.advance hpossible hpatient)).length_eq
        have hall := ((h.advance hpossible hpatient).perm.filter fun r => decide (Yields idx trust r)).length_eq
        rw [List.filter_append, List.length_append] at hall
        have hzero : (backlog idx trust s).length = 0 := by rw [hnone, List.length_nil]
        rw [backlog] at hzero
        change (backlog idx trust { s with table := DeltaBuilder.tick idx trust order s.table }).length ≤ _
        omega
      · have hless := h.backlog_tick hpossible hpatient hnone
        omega

theorem complete_of_patient (idx : GoMap String (List String)) (trust : Option Int) (events : List Event)
    (hrun : PatientRun idx trust {} events) : ∃ enough, ∀ orders : List (List EdgeScanRow), enough ≤ orders.length →
      PatientRun idx trust (run idx trust {} events) (orders.map .tick) →
        (run idx trust (run idx trust {} events) (orders.map .tick)).Complete idx trust :=
  ⟨_, fun _ hmany hticks => (Inv.start.run hrun).complete_ticks hticks hmany⟩

def direct (ts : Int) : EdgeScanRow :=
  { payloadType := some 4, decodedJSON := "", fromPubkey := "aa", pathJSON := "", observerID := "bb", ts }

theorem possible_direct {s : State} {ts : Int} (hbehind : behind (watermark s.table) s.observations = [direct ts]) :
    Possible s (.tick [direct ts]) :=
  ⟨hbehind ▸ List.Perm.refl _, List.pairwise_singleton _ _⟩

theorem patient_direct (s : State) (ts : Int) : Patient empty none s (.tick [direct ts]) := by
  have hdrop : [direct ts].drop neighborBuilderMaxBatch = [] := rfl
  refine ⟨fun r _ o ho => ?_, ?_⟩
  · rw [hdrop] at ho
    exact absurd ho List.not_mem_nil
  · rintro ⟨o, ho, -⟩
    rw [hdrop] at ho
    exact absurd ho List.not_mem_nil

/-- Two seconds with one observation each, the second of which a tick has yet to count. -/
def twoSeconds : List Event := [.insert (direct 100), .tick [direct 100], .insert (direct 101)]

theorem complete_of_patient_twoSeconds : ∃ enough, ∀ orders : List (List EdgeScanRow), enough ≤ orders.length →
    PatientRun empty none (run empty none {} twoSeconds) (orders.map .tick) →
      (run empty none (run empty none {} twoSeconds) (orders.map .tick)).Complete empty none := by
  refine complete_of_patient empty none twoSeconds ?_
  refine ⟨⟨?_, ?_⟩, ⟨possible_direct rfl, patient_direct _ _⟩, ⟨?_, ?_⟩, trivial⟩
  · intro o ho
    exact absurd ho List.not_mem_nil
  · exact fun _ => ⟨by decide, by decide⟩
  · intro o ho
    rw [List.mem_singleton.mp ho]
    exact (by decide : (100 : Int) ≤ 101)
  · exact fun _ => ⟨by decide +kernel, by decide +kernel⟩

/-- Two observations within a second, between which a tick comes. -/
def oneSecond : List Event := [.insert (direct 100), .tick [direct 100], .insert (direct 100)]

theorem oneSecond_behind : behind (watermark (run empty none {} oneSecond).table)
    (run empty none {} oneSecond).observations = [] := by
  have hwatermark : watermark (run empty none {} oneSecond).table = 100 := by decide +kernel
  rw [hwatermark]
  rfl

/-- However many ticks follow, the second observation is never counted. -/
theorem oneSecond_incomplete : Runs.Along (State.step empty none) Possible {} oneSecond ∧
    ∀ orders : List (List EdgeScanRow),
      Runs.Along (State.step empty none) Possible (run empty none {} oneSecond) (orders.map .tick) →
        ¬ (run empty none (run empty none {} oneSecond) (orders.map .tick)).Complete empty none := by
  refine ⟨⟨?_, possible_direct rfl, ?_, trivial⟩, fun orders horders => ?_⟩
  · intro o ho
    exact absurd ho List.not_mem_nil
  · intro o ho
    rw [List.mem_singleton.mp ho]
  · have hsame : run empty none (run empty none {} oneSecond) (orders.map .tick) = run empty none {} oneSecond := by
      induction orders with
      | nil => rfl
      | cons order orders ih =>
          obtain ⟨⟨hperm, -⟩, hrest⟩ := horders
          rw [oneSecond_behind, List.perm_nil] at hperm
          subst hperm
          exact ih hrest
    rw [hsame]
    intro hcomplete
    have hcounts : (run empty none {} oneSecond).table = [⟨"aa", "bb", 1, "1970-01-01T00:01:40Z"⟩] := by decide +kernel
    have hedges : (run empty none {} oneSecond).observations.flatMap (EdgeScanRow.edges empty none) =
        [⟨"aa", "bb", 100⟩, ⟨"aa", "bb", 100⟩] := by
      decide +kernel
    have hcount := hcomplete.counts
    rw [hcounts, hedges] at hcount
    exact absurd (hcount _ (List.mem_singleton_self _)) (by decide)

end MeshcoreAnalyzer.DeltaBuilder

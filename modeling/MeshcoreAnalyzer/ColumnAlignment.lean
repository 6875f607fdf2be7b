import MeshcoreAnalyzer.Migrations

namespace MeshcoreAnalyzer.Migrations

open Interrupts

variable {s s' : Schema} {cols heading : List String} {t : Table} {col : String}

def fill (names cols : List String) : List String :=
  names.foldl (fun cols c => if c ∈ cols then cols else cols ++ [c]) cols

theorem fill_cons (c : String) (names cols : List String) :
    fill (c :: names) cols = fill names (if c ∈ cols then cols else cols ++ [c]) := rfl

theorem fill_append (names names' cols : List String) : fill (names ++ names') cols = fill names' (fill names cols) :=
  List.foldl_append

theorem fill_of_subset {names : List String} (h : ∀ c ∈ names, c ∈ cols) : fill names cols = cols := by
  induction names with
  | nil => rfl
  | cons c names ih =>
      rw [fill_cons, if_pos (h c List.mem_cons_self)]
      exact ih fun d hd => h d (List.mem_cons_of_mem c hd)

theorem mem_fill_of_mem (names : List String) {c : String} (h : c ∈ cols) : c ∈ fill names cols := by
  induction names generalizing cols with
  | nil => exact h
  | cons d names ih =>
      rw [fill_cons]
      apply ih
      split
      · exact h
      · exact List.mem_append_left [d] h

theorem fill_concat {before after : List String} (hbefore : ∀ c ∈ before, c ∈ cols) (hcol : col ∉ cols) :
    fill (before ++ col :: after) (cols ++ [col]) = fill (before ++ col :: after) cols := by
  rw [fill_append, fill_append, fill_of_subset hbefore,
    fill_of_subset fun c hc => List.mem_append_left [col] (hbefore c hc), fill_cons, fill_cons, if_neg hcol,
    if_pos (List.mem_append_right cols List.mem_cons_self)]

def added : List String :=
  ["battery_mv", "temperature_c", "foreign_advert", "default_scope", "configured_scope", "configured_scope_at",
    "multibyte_sup", "multibyte_evidence"]

structure Heading (heading : List String) (s : Schema) : Prop where
  filled : ∀ t cols, s.columns t = some cols → fill added cols = heading
  missing : ∀ t, s.columns t = none → heading = fill added baseColumns
  telemetry : "node_telemetry_v1" ∈ s.migrations → ∀ t cols, s.columns t = some cols → ∀ c ∈ added.take 2, c ∈ cols

/-- No column of the heading differs from one that is added only in case. -/
def Plain (heading : List String) : Prop := ∀ c ∈ heading, ∀ d ∈ added, sameName d c → d = c

/-- A program that is stopped leaves the tables on their way, and it does not fail where the names are plain. -/
def Stopped (heading : List String) : Stop Failure → Schema → Prop
  | .interrupted, s => Heading heading s
  | .failed _, s => Heading heading s ∧ ¬Plain heading

structure Reached (heading : List String) (stage : Table → Nat) (s : Schema) : Prop extends Heading heading s where
  reached : ∀ t, ∃ cols, s.columns t = some cols ∧ ∀ c ∈ added.take (stage t), c ∈ cols

variable {stage : Table → Nat} {k : Nat}

theorem setColumns_self (t : Table) (cols : List String) (s : Schema) : (setColumns t cols s).columns t = some cols :=
  Function.update_self _ _ _

theorem setColumns_of_ne {u : Table} (h : u ≠ t) (cols : List String) (s : Schema) :
    (setColumns t cols s).columns u = s.columns u :=
  Function.update_of_ne h _ _

theorem mem_take_succ {names : List String} (h : names[k]? = some col) {c : String} :
    c ∈ names.take (k + 1) ↔ c ∈ names.take k ∨ c = col := by
  rw [List.take_add_one, h, List.mem_append, Option.toList_some, List.mem_singleton]

theorem Heading.setColumns (h : Heading heading s) (hcols : fill added cols = heading)
    (htelemetry : "node_telemetry_v1" ∈ s.migrations → ∀ c ∈ added.take 2, c ∈ cols) :
    Heading heading (setColumns t cols s) where
  filled u cols' hu := by
    by_cases hut : u = t
    · rw [hut, setColumns_self] at hu
      rw [← Option.some.inj hu]
      exact hcols
    · rw [setColumns_of_ne hut] at hu
      exact h.filled u cols' hu
  missing u hu := by
    by_cases hut : u = t
    · rw [hut, setColumns_self] at hu
      cases hu
    · rw [setColumns_of_ne hut] at hu
      exact h.missing u hu
  telemetry hname u cols' hu := by
    by_cases hut : u = t
    · rw [hut, setColumns_self] at hu
      rw [← Option.some.inj hu]
      exact htelemetry hname
    · rw [setColumns_of_ne hut] at hu
      exact h.telemetry hname u cols' hu

theorem Heading.createTable (h : Heading heading s) (t : Table) : Heading heading (createTable t baseColumns s) := by
  rw [Migrations.createTable]
  split
  · next hnone =>
    refine h.setColumns (h.missing t hnone).symm fun _ => ?_
    decide
  · exact h

theorem createTable_exists (t : Table) (s : Schema) : ∃ cols, (Migrations.createTable t baseColumns s).columns t = some cols := by
  rw [Migrations.createTable]
  split
  · exact ⟨baseColumns, setColumns_self _ _ _⟩
  · next hsome => exact Option.ne_none_iff_exists'.mp hsome

theorem createTable_of_ne {u : Table} (h : u ≠ t) (s : Schema) :
    (Migrations.createTable t baseColumns s).columns u = s.columns u := by
  rw [Migrations.createTable]
  split
  · exact setColumns_of_ne h _ _
  · rfl

theorem Reached.addColumn (h : Reached heading stage s) (hcol : added[stage t]? = some col)
    (hs' : addColumn t col s = .ok s') (hlacks : ∀ cols, s.columns t = some cols → col ∉ cols) :
    Reached heading (Function.update stage t (stage t + 1)) s' := by
  obtain ⟨cols, hcols, hreached⟩ := h.reached t
  rw [Migrations.addColumn, hcols] at hs'
  dsimp only at hs'
  split at hs'
  · cases hs'
  · cases hs'
    have hsplit : added = added.take (stage t) ++ col :: added.drop (stage t + 1) := by
      obtain ⟨hlt, hget⟩ := List.getElem?_eq_some_iff.mp hcol
      rw [← hget, List.getElem_cons_drop, List.take_append_drop]
    refine ⟨h.toHeading.setColumns ?_ ?_, ?_⟩
    · rw [hsplit, fill_concat hreached (hlacks cols hcols), ← hsplit]
      exact h.filled t cols hcols
    · intro hname c hc
      exact List.mem_append_left [col] (h.telemetry hname t cols hcols c hc)
    · intro u
      by_cases hut : u = t
      · subst hut
        refine ⟨_, setColumns_self _ _ _, ?_⟩
        intro c hc
        rw [Function.update_self, mem_take_succ hcol] at hc
        rcases hc with hc | rfl
        · exact List.mem_append_left [col] (hreached c hc)
        · exact List.mem_append_right cols List.mem_cons_self
      · rw [setColumns_of_ne hut, Function.update_of_ne hut]
        exact h.reached u

theorem Reached.present (h : Reached heading stage s) (hcol : added[stage t]? = some col) (hhas : hasColumn t col s = true) :
    Reached heading (Function.update stage t (stage t + 1)) s where
  toHeading := h.toHeading
  reached u := by
    obtain ⟨cols, hcols, hreached⟩ := h.reached u
    refine ⟨cols, hcols, ?_⟩
    by_cases hut : u = t
    · subst hut
      rw [Function.update_self]
      intro c hc
      rcases (mem_take_succ hcol).mp hc with hc | rfl
      · exact hreached c hc
      · rw [hasColumn, hcols] at hhas
        exact of_decide_eq_true hhas
    · rw [Function.update_of_ne hut]
      exact hreached

theorem not_plain_of_failed {e : Failure} (h : Reached heading stage s) (hcol : added[stage t]? = some col)
    (hfailed : addColumn t col s = .error e) (hhas : hasColumn t col s = false) : ¬Plain heading := by
  intro hplain
  obtain ⟨cols, hcols, -⟩ := h.reached t
  rw [hasColumn, hcols] at hhas
  rw [addColumn, hcols] at hfailed
  dsimp only at hfailed
  split at hfailed
  · next hany =>
    obtain ⟨c, hc, hsame⟩ := List.any_eq_true.mp hany
    have hmem : c ∈ heading := h.filled t cols hcols ▸ mem_fill_of_mem added hc
    rw [hplain c hmem col (List.mem_of_getElem? hcol) hsame] at hhas
    exact absurd hc (of_decide_eq_false hhas)
  · cases hfailed

theorem Reached.record (h : Reached heading stage s) (name : String)
    (htelemetry : name = "node_telemetry_v1" → ∀ t, 2 ≤ stage t) : Reached heading stage (record name s) := by
  rw [Migrations.record]
  split
  · exact h
  · refine ⟨⟨h.filled, h.missing, ?_⟩, h.reached⟩
    intro hname u cols hcols c hc
    rcases List.mem_append.mp hname with hname | hname
    · exact h.telemetry hname u cols hcols c hc
    · obtain ⟨cols', hcols', hreached⟩ := h.reached u
      rw [Option.some.inj (hcols.symm.trans hcols')]
      exact hreached c (List.take_subset_take_left added (htelemetry (List.mem_singleton.mp hname).symm u) hc)

theorem Reached.mono {stage' : Table → Nat} (h : Reached heading stage' s) (hle : ∀ t, stage t ≤ stage' t) :
    Reached heading stage s where
  toHeading := h.toHeading
  reached t := by
    obtain ⟨cols, hcols, hreached⟩ := h.reached t
    exact ⟨cols, hcols, fun c hc => hreached c (List.take_subset_take_left added (hle t) hc)⟩

theorem not_mem_of_addColumn (hs' : addColumn t col s = .ok s') (hcols : s.columns t = some cols) : col ∉ cols := by
  intro hmem
  have hany : cols.any (sameName col) = true := List.any_eq_true.mpr ⟨col, hmem, decide_eq_true rfl⟩
  rw [addColumn, hcols] at hs'
  dsimp only at hs'
  rw [if_pos hany] at hs'
  cases hs'

theorem checkAndAddColumn_spec (t : Table) (hcol : added[stage t]? = some col) :
    Triple (Reached heading stage) (checkAndAddColumn t col)
      (fun _ => Reached heading (Function.update stage t (stage t + 1))) (Stopped heading) := by
  apply triple_unless
  · apply triple_exec
    · exact fun s h => h.1.toHeading
    · intro s s' h hs'
      exact h.1.addColumn hcol hs' fun cols => not_mem_of_addColumn hs'
    · intro s e h hfailed
      exact ⟨h.1.toHeading, not_plain_of_failed h.1 hcol hfailed h.2⟩
  · intro s h hhas
    exact h.present hcol hhas

theorem record_spec (name : String) (htelemetry : name = "node_telemetry_v1" → ∀ t, 2 ≤ stage t) :
    Triple (Reached heading stage) (exec (.ok ∘ record name)) (fun _ => Reached heading stage) (Stopped heading) := by
  apply triple_exec
  · exact fun s h => h.toHeading
  · rintro s _ h ⟨⟩
    exact h.record name htelemetry
  · intro s e h hfailed
    cases hfailed

theorem createTable_spec (t : Table) {P Q : Schema → Prop} (hP : ∀ s, P s → Heading heading s)
    (hQ : ∀ s, P s → Q (createTable t baseColumns s)) :
    Triple P (exec (.ok ∘ createTable t baseColumns)) (fun _ => Q) (Stopped heading) := by
  apply triple_exec
  · exact hP
  · rintro s _ h ⟨⟩
    exact hQ s h
  · intro s e h hfailed
    cases hfailed

theorem addColumn_ignore_spec (t : Table) (hcol : added[stage t]? = some col) :
    Triple (Reached heading stage) (ignore (exec (addColumn t col))) (fun _ => Reached heading stage) (Stopped heading) := by
  apply triple_ignore
  apply triple_exec
  · exact fun s h => h.toHeading
  · intro s s' h hs'
    refine (h.addColumn hcol hs' fun cols => not_mem_of_addColumn hs').mono fun u => ?_
    by_cases hut : u = t
    · rw [hut, Function.update_self]
      exact Nat.le_succ _
    · exact Nat.le_of_eq (Function.update_of_ne hut _ _).symm
  · exact fun s e h _ => h

theorem nodeTelemetry_spec :
    Triple (Reached heading fun _ => 0) nodeTelemetry (fun _ => Reached heading fun _ => 2) (Stopped heading) := by
  apply triple_unless
  · refine Triple.seq (Triple.imp (checkAndAddColumn_spec .nodes rfl) (fun _ h => h.1) fun _ _ h => h) ?_
    refine (checkAndAddColumn_spec .nodes rfl).seq ?_
    refine (checkAndAddColumn_spec .inactiveNodes rfl).seq ?_
    refine (checkAndAddColumn_spec .inactiveNodes rfl).seq ?_
    refine (record_spec "node_telemetry_v1" ?_).imp (fun _ h => h) fun _ s h => h.mono ?_
    · intro _ t
      cases t <;> decide
    · intro t
      cases t <;> decide
  · intro s h hrecorded
    refine ⟨h.toHeading, fun t => ?_⟩
    obtain ⟨cols, hcols, -⟩ := h.reached t
    exact ⟨cols, hcols, h.telemetry (of_decide_eq_true hrecorded) t cols hcols⟩

theorem foreignAdvert_spec :
    Triple (Reached heading fun _ => 2) foreignAdvert (fun _ => Reached heading fun _ => 2) (Stopped heading) := by
  apply triple_unless
  · refine Triple.seq (Triple.imp (addColumn_ignore_spec .nodes rfl) (fun _ h => h.1) fun _ _ h => h) ?_
    refine (addColumn_ignore_spec .inactiveNodes rfl).seq ?_
    exact record_spec "foreign_advert_v1" fun hname => absurd hname (by decide)
  · exact fun _ h _ => h

theorem applySchema_spec :
    Triple (Heading heading) applySchema (fun _ => Reached heading fun _ => 2) (Stopped heading) := by
  refine Triple.seq (I := fun s => Heading heading s ∧ ∃ cols, s.columns .nodes = some cols)
    (createTable_spec .nodes (fun _ h => h) fun s h => ⟨h.createTable .nodes, createTable_exists .nodes s⟩) ?_
  refine Triple.seq (I := Reached heading fun _ => 0) (createTable_spec .inactiveNodes (fun _ h => h.1) fun s h => ?_) ?_
  · refine ⟨h.1.createTable .inactiveNodes, fun t => ?_⟩
    cases t with
    | nodes =>
        obtain ⟨cols, hcols⟩ := h.2
        exact ⟨cols, (createTable_of_ne (by decide) s).trans hcols, fun c hc => absurd hc List.not_mem_nil⟩
    | inactiveNodes =>
        obtain ⟨cols, hcols⟩ := createTable_exists .inactiveNodes s
        exact ⟨cols, hcols, fun c hc => absurd hc List.not_mem_nil⟩
  · exact nodeTelemetry_spec.seq foreignAdvert_spec

theorem ensureInactiveNodesTable_spec :
    Triple (Reached heading stage) ensureInactiveNodesTable (fun _ => Reached heading stage) (Stopped heading) := by
  refine createTable_spec .inactiveNodes (fun _ h => h.toHeading) fun s h => ?_
  obtain ⟨cols, hcols, -⟩ := h.reached .inactiveNodes
  rw [createTable, if_neg (hcols ▸ Option.some_ne_none cols)]
  exact h

theorem triple_nodeTables {P Q R : Schema → Prop} {f : Table → Migration Unit} {C : Stop Failure → Schema → Prop}
    (hnodes : Triple P (f .nodes) (fun _ => R) C) (hinactive : Triple R (f .inactiveNodes) (fun _ => Q) C) :
    Triple P (nodeTables.forM f) (fun _ => Q) C :=
  hnodes.seq (hinactive.seq (triple_pure () fun _ h => h))

theorem ensureForeignAdvertColumn_spec :
    Triple (Reached heading fun _ => 2) ensureForeignAdvertColumn (fun _ => Reached heading fun _ => 3)
      (Stopped heading) := by
  refine Triple.imp (triple_nodeTables (checkAndAddColumn_spec .nodes rfl) (checkAndAddColumn_spec .inactiveNodes rfl))
    (fun _ h => h) fun _ s h => h.mono fun t => ?_
  cases t <;> decide

theorem ensureDefaultScopeColumns_spec :
    Triple (Reached heading fun _ => 3) ensureDefaultScopeColumns (fun _ => Reached heading fun _ => 4)
      (Stopped heading) := by
  refine Triple.seq
    (triple_nodeTables (checkAndAddColumn_spec .nodes rfl) (checkAndAddColumn_spec .inactiveNodes rfl)) ?_
  refine (record_spec "nodes_default_scope_v1" fun hname => absurd hname (by decide)).imp (fun _ h => h) fun _ s h =>
    h.mono fun t => ?_
  cases t <;> decide

theorem ensureConfiguredScopeColumns_spec :
    Triple (Reached heading fun _ => 4) ensureConfiguredScopeColumns (fun _ => Reached heading fun _ => 6)
      (Stopped heading) := by
  refine Triple.seq (triple_nodeTables
    ((checkAndAddColumn_spec .nodes rfl).seq ((checkAndAddColumn_spec .nodes rfl).seq (triple_pure () fun _ h => h)))
    ((checkAndAddColumn_spec .inactiveNodes rfl).seq
      ((checkAndAddColumn_spec .inactiveNodes rfl).seq (triple_pure () fun _ h => h)))) ?_
  refine (record_spec "nodes_configured_scope_v1" fun hname => absurd hname (by decide)).imp (fun _ h => h) fun _ s h =>
    h.mono fun t => ?_
  cases t <;> decide

theorem ensureMultibyteCapColumns_spec :
    Triple (Reached heading fun _ => 6) ensureMultibyteCapColumns (fun _ => Reached heading fun _ => 8)
      (Stopped heading) := by
  refine Triple.imp (triple_nodeTables
    ((checkAndAddColumn_spec .nodes rfl).seq (checkAndAddColumn_spec .nodes rfl))
    ((checkAndAddColumn_spec .inactiveNodes rfl).seq (checkAndAddColumn_spec .inactiveNodes rfl)))
    (fun _ h => h) fun _ s h => h.mono fun t => ?_
  cases t <;> decide

theorem apply_spec :
    Triple (Reached heading fun _ => 2) Migrations.apply (fun _ => Reached heading fun _ => 8) (Stopped heading) :=
  ensureInactiveNodesTable_spec.seq <| ensureForeignAdvertColumn_spec.seq <| ensureDefaultScopeColumns_spec.seq <|
    ensureConfiguredScopeColumns_spec.seq ensureMultibyteCapColumns_spec

theorem openStore_spec :
    Triple (Heading heading) openStore (fun _ => Reached heading fun _ => 8) (Stopped heading) :=
  applySchema_spec.seq apply_spec

theorem Reached.columns (h : Reached heading (fun _ => 8) s) (t : Table) : s.columns t = some heading := by
  obtain ⟨cols, hcols, hreached⟩ := h.reached t
  have hfull : fill added cols = cols := fill_of_subset hreached
  rw [hcols, ← h.filled t cols hcols, hfull]

theorem attempt_heading (h : Heading heading s) (left : Option Nat) : Heading heading (attempt left s).2 := by
  have hspec := openStore_spec s left h
  rw [attempt]
  rcases hrun : openStore (s, left) with ⟨(_ | e) | ⟨⟩, s', left'⟩
  · rw [hrun] at hspec
    exact hspec
  · rw [hrun] at hspec
    exact hspec.1
  · rw [hrun] at hspec
    exact hspec.toHeading

theorem attempt_complete (h : Heading heading s) {left : Option Nat} (hok : attempt left s = (.ok (), s')) (t : Table) :
    s'.columns t = some heading := by
  have hspec := openStore_spec s left h
  rw [attempt] at hok
  rcases hrun : openStore (s, left) with ⟨stop | ⟨⟩, s'', left'⟩
  · rw [hrun] at hok
    cases hok
  · rw [hrun] at hok hspec
    cases hok
    exact hspec.columns t

/-- A migration is recorded only where its columns are there. -/
def RecordedHonestly (s : Schema) : Prop :=
  ∀ m ∈ [("node_telemetry_v1", ["battery_mv", "temperature_c"]), ("foreign_advert_v1", ["foreign_advert"]),
      ("nodes_default_scope_v1", ["default_scope"]),
      ("nodes_configured_scope_v1", ["configured_scope", "configured_scope_at"])],
    m.1 ∈ s.migrations → ∀ t cols, s.columns t = some cols → ∀ c ∈ m.2, c ∈ cols

/-- The databases that the ingestor is started on. -/
inductive Start : Schema → Prop
  | empty (migrations : List String) : Start ⟨fun _ => none, migrations⟩
  | aligned (cols migrations : List String) : firstColumns <+: cols → Start ⟨fun _ => some cols, migrations⟩
  | legacy (migrations : List String) : Start ⟨fun t => if t = .nodes then some firstColumns else none, migrations⟩

theorem Start.exists_heading (h : Start s) (hrecorded : RecordedHonestly s) : ∃ heading, Heading heading s := by
  have htelemetry := hrecorded _ List.mem_cons_self
  cases h with
  | empty migrations => exact ⟨fill added baseColumns, fun t cols hcols => absurd hcols (by simp), fun _ _ => rfl, htelemetry⟩
  | aligned cols migrations _ =>
      refine ⟨fill added cols, fun t cols' hcols => ?_, fun t ht => absurd ht (by simp), htelemetry⟩
      rw [Option.some.inj hcols]
  | legacy migrations =>
      refine ⟨fill added baseColumns, fun t cols hcols => ?_, fun _ _ => rfl, htelemetry⟩
      obtain ⟨-, hcols⟩ := Option.ite_none_right_eq_some.mp hcols
      rw [← Option.some.inj hcols]
      decide

theorem attempts_heading (h : Heading heading s) (lefts : List (Option Nat)) : Heading heading (attempts lefts s) := by
  induction lefts generalizing s with
  | nil => exact h
  | cons left lefts ih => exact ih (attempt_heading h left)

theorem insertSelect_self {V : Type} (cols : List String) (row : String → V) :
    insertSelect cols cols row = some (cols.map fun c => (c, row c)) := by
  rw [insertSelect, if_pos rfl, List.map_prod_left_eq_zip]

theorem checkAndAddColumn_unlimited (t : Table) (col : String) : Unlimited (checkAndAddColumn t col) :=
  (unlimited_exec _).unless

theorem openStore_unlimited : Unlimited openStore := by
  have happlySchema : Unlimited applySchema := by
    refine (unlimited_exec _).bind fun _ => (unlimited_exec _).bind fun _ => Unlimited.bind ?_ fun _ => ?_
    · refine Unlimited.unless ((checkAndAddColumn_unlimited _ _).bind fun _ => ?_)
      refine (checkAndAddColumn_unlimited _ _).bind fun _ => (checkAndAddColumn_unlimited _ _).bind fun _ => ?_
      exact (checkAndAddColumn_unlimited _ _).bind fun _ => unlimited_exec _
    · refine Unlimited.unless ((unlimited_exec _).ignore.bind fun _ => ?_)
      exact (unlimited_exec _).ignore.bind fun _ => unlimited_exec _
  refine happlySchema.bind fun _ => (unlimited_exec _).bind fun _ => ?_
  refine Unlimited.bind (.forM (fun t => checkAndAddColumn_unlimited t _) _) fun _ => ?_
  refine Unlimited.bind ((Unlimited.forM (fun t => checkAndAddColumn_unlimited t _) _).bind fun _ => unlimited_exec _) fun _ => ?_
  refine Unlimited.bind ((Unlimited.forM (fun t => .forM (fun col => checkAndAddColumn_unlimited t col) _) _).bind
    fun _ => unlimited_exec _) fun _ => ?_
  exact .forM (fun t => (checkAndAddColumn_unlimited t _).bind fun _ => checkAndAddColumn_unlimited t _) _

theorem attempt_none_complete (h : Heading heading s) (hplain : Plain heading) : (attempt none s).1 = .ok () := by
  have hspec := openStore_spec s none h
  have hnot := (openStore_unlimited s).2
  rw [attempt]
  rcases hrun : openStore (s, none) with ⟨(_ | e) | ⟨⟩, s', left'⟩
  · rw [hrun] at hnot
    exact absurd rfl hnot
  · rw [hrun] at hspec
    exact absurd hplain hspec.2
  · rfl

/-- Starts that were stopped, and one more: it is complete if it is not stopped, and behind a complete one the tables
have the same columns, so that a row that is moved keeps every value under its name. -/
structure Aligned (s : Schema) (lefts : List (Option Nat)) (cols : List String) : Prop where
  completes : Plain cols → (attempt none (attempts lefts s)).1 = .ok ()
  aligned : ∀ left s', attempt left (attempts lefts s) = (.ok (), s') →
    s'.columns .nodes = some cols ∧ s'.columns .inactiveNodes = some cols
  moved : ∀ (V : Type) (row : String → V), insertSelect cols cols row = some (cols.map fun c => (c, row c))

theorem columns_aligned (s : Schema) (hstart : Start s) (hrecorded : RecordedHonestly s) (lefts : List (Option Nat)) :
    ∃ cols, Aligned s lefts cols := by
  obtain ⟨heading, h⟩ := hstart.exists_heading hrecorded
  have hheading := attempts_heading h lefts
  refine ⟨heading, attempt_none_complete hheading, fun left s' hcomplete => ?_,
    fun V row => insertSelect_self heading row⟩
  have hall := attempt_complete hheading hcomplete
  exact ⟨hall .nodes, hall .inactiveNodes⟩

def legacySchema : Schema := ⟨fun t => if t = .nodes then some firstColumns else none, []⟩

/-- The ingestor is stopped three times, the last time between the two columns of the configured scope. -/
theorem columns_aligned_legacy : (attempt none (attempts [some 1, some 3, some 12] legacySchema)).1.toBool = true ∧
    ∃ cols, Aligned legacySchema [some 1, some 3, some 12] cols :=
  ⟨by decide, columns_aligned legacySchema (.legacy []) (fun _ _ hm => nomatch hm) [some 1, some 3, some 12]⟩

end MeshcoreAnalyzer.Migrations

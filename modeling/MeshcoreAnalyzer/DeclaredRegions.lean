import MeshcoreAnalyzer.Firsts
import MeshcoreAnalyzer.Groups
import MeshcoreAnalyzer.Layers
import MeshcoreAnalyzer.Orders
import MeshcoreAnalyzer.RegionKeys
import Mathlib.Data.List.Lex
import Mathlib.Data.Prod.Lex

namespace MeshcoreAnalyzer.DeclaredRegions

open GoBytes Spaces Firsts Groups Layers Orders RegionKeys

/-! `declaredRegionSources` and `rankDeclaredRegions` of cmd/ingestor/region_keys.go. -/

structure Node where
  publicKey : Bytes
  configuredScope : Option Bytes
  configuredScopeAt : Option Bytes

structure Answer where
  target : Bytes
  observedAt : Bytes
  regionsCSV : Bytes

structure Database where
  nodes : List Node
  publicKeys : (nodes.map Node.publicKey).Nodup
  declaredRegions : Option (List Answer)

def Database.answered (db : Database) : List Answer := db.declaredRegions.getD []

def text (s : Bytes) : List Nat := s.map UInt8.toNat

/-- `WHERE rn = 1`: a row of greatest `observed_at` for each target, whichever of several. -/
structure Current (rows : List Answer) where
  answers : List Answer
  mem : ∀ a ∈ answers, a ∈ rows
  targets : (answers.map Answer.target).Nodup
  newest : ∀ a ∈ rows, ∃ b ∈ answers, b.target = a.target ∧ text a.observedAt ≤ text b.observedAt

structure Declaration where
  node : Bytes
  csv : Bytes
  observed : Bytes

/-- `WHERE configured_scope IS NOT NULL AND configured_scope != ''` -/
def Node.declaration (n : Node) : Option Declaration :=
  match n.configuredScope with
  | none => none
  | some csv => if csv = [] then none else some { node := n.publicKey, csv, observed := n.configuredScopeAt.getD [] }

def Answer.declaration (a : Answer) : Declaration := { node := a.target, csv := a.regionsCSV, observed := a.observedAt }

def declarations (db : Database) (current : Current db.answered) : List Declaration :=
  db.nodes.filterMap Node.declaration ++ current.answers.map Answer.declaration

def splitDeclaredRegionsCSV (csv : Bytes) : List Bytes :=
  if csv = [] then [] else ((csv.splitOn 0x2C).map trimSpace).filter (· ≠ [])

def isWildcard (name : Bytes) : Bool := name = [0x2A] || name = [0x23, 0x2A]

/-- The names of a list that are counted: the wildcards are passed over, and a name that was there before. -/
def namesOf (csv : Bytes) : List Bytes :=
  firsts id [] ((splitDeclaredRegionsCSV csv).filter fun name => !isWildcard name)

structure DeclaredRegionStat where
  name : Bytes
  declarers : Nat
  lastSeen : Bytes
deriving DecidableEq

def later (observed other : Bytes) : Bytes := if text observed < text other then other else observed

def newStat (p : Bytes × Bytes) : DeclaredRegionStat := { name := p.1, declarers := 0, lastSeen := [] }

def DeclaredRegionStat.declare (st : DeclaredRegionStat) (p : Bytes × Bytes) : DeclaredRegionStat :=
  { st with declarers := st.declarers + 1, lastSeen := later st.lastSeen p.2 }

def count (agg : List (Bytes × DeclaredRegionStat)) (d : Declaration) : List (Bytes × DeclaredRegionStat) :=
  (namesOf d.csv).foldl (fun agg name => tally Prod.fst newStat DeclaredRegionStat.declare agg (name, d.observed)) agg

def declaredRegionSources (range : RangeOrder) (db : Database) (current : Current db.answered) :
    List DeclaredRegionStat :=
  (range.order ((declarations db current).foldl count [])).map Prod.snd

/-- More declarers first, then the later instant, then the name. -/
def DeclaredRegionStat.sortKey (s : DeclaredRegionStat) : ℕᵒᵈ ×ₗ (List ℕ)ᵒᵈ ×ₗ List ℕ :=
  toLex (OrderDual.toDual s.declarers, toLex (OrderDual.toDual (text s.lastSeen), text s.name))

def accept (s : DeclaredRegionStat) : Option DeclaredRegionStat :=
  (regionNameAcceptable s.name).map fun canonical => { s with name := canonical }

def rankDeclaredRegions (sorting : SliceSort DeclaredRegionStat.sortKey) (stats : List DeclaredRegionStat) (max : Int) :
    List Bytes :=
  let kept := sorting.sort (stats.filterMap accept)
  let kept := if 0 < max ∧ max < kept.length then kept.take max.toNat else kept
  kept.map DeclaredRegionStat.name

def declaring (ds : List Declaration) (name : Bytes) : List Declaration :=
  ds.filter fun d => has ((namesOf d.csv).map regionNameAcceptable) (some name)

def declarers (ds : List Declaration) (name : Bytes) : Nat := ((declaring ds name).map Declaration.node).dedup.length

def lastDeclared (ds : List Declaration) (name : Bytes) : List Nat :=
  ((declaring ds name).map fun d => text d.observed).foldl max []

/-- More nodes declare the one name than the other; or as many, and it was declared later; or it is first by name. -/
def Before (ds : List Declaration) (name other : Bytes) : Prop :=
  declarers ds other < declarers ds name ∨
    declarers ds name = declarers ds other ∧
      (lastDeclared ds other < lastDeclared ds name ∨
        lastDeclared ds name = lastDeclared ds other ∧ text name < text other)

structure Ranked (ds : List Declaration) (max : Int) (names : List Bytes) : Prop where
  length_le : names.length ≤ max
  nodup : names.Nodup
  acceptable : ∀ name ∈ names, regionNameAcceptable name = some name
  ordered : names.Pairwise (Before ds)

/-- The names are declared, and a declared name is left out only where others fill the list. -/
structure Complete (ds : List Declaration) (max : Int) (names : List Bytes) : Prop where
  declared : ∀ name ∈ names, declaring ds name ≠ []
  full : ∀ name, declaring ds name ≠ [] → name ∉ names → names.length = max ∧ ∀ kept ∈ names, Before ds kept name

/-- No acceptable name has two spellings, and no node declares one both in its own row and in its answer. -/
structure Distinct (db : Database) (current : Current db.answered) : Prop where
  spelled : ∀ d ∈ declarations db current, ∀ raw ∈ splitDeclaredRegionsCSV d.csv,
    ∀ d' ∈ declarations db current, ∀ raw' ∈ splitDeclaredRegionsCSV d'.csv,
      regionNameAcceptable raw ≠ none → regionNameAcceptable raw = regionNameAcceptable raw' → raw = raw'
  apart : ∀ d ∈ db.nodes.filterMap Node.declaration, ∀ a ∈ current.answers, d.node = a.target →
    ∀ raw ∈ splitDeclaredRegionsCSV d.csv, raw ∈ splitDeclaredRegionsCSV a.regionsCSV → regionNameAcceptable raw = none

def spellings (ds : List Declaration) : List Bytes :=
  (ds.flatMap fun d => namesOf d.csv).dedup.filter fun raw => (regionNameAcceptable raw).isSome

def latest (ds : List Declaration) : Bytes := ds.foldl (fun observed d => later observed d.observed) []

def canonical (raw : Bytes) : Bytes := (regionNameAcceptable raw).getD []

def spelling (ds : List Declaration) (raw : Bytes) : List Declaration := ds.filter fun d => has (namesOf d.csv) raw

def byLists (ds : List Declaration) (raw : Bytes) : DeclaredRegionStat where
  name := canonical raw
  declarers := (spelling ds raw).length
  lastSeen := latest (spelling ds raw)

def spelledKey (ds : List Declaration) (raw : Bytes) : (ℕᵒᵈ ×ₗ (List ℕ)ᵒᵈ ×ₗ List ℕ) ×ₗ List ℕ :=
  toLex ((byLists ds raw).sortKey, text raw)

variable {ds : List Declaration} {raw : Bytes}

theorem nodup_namesOf (csv : Bytes) : (namesOf csv).Nodup := by
  have h : ((namesOf csv).map id).Nodup := nodup_map_firsts
  rwa [List.map_id] at h

def counted (ds : List Declaration) : List (Bytes × Bytes) :=
  ds.flatMap fun d => (namesOf d.csv).map fun name => (name, d.observed)

theorem foldl_count (agg : List (Bytes × DeclaredRegionStat)) : ds.foldl count agg =
    (counted ds).foldl (tally Prod.fst newStat DeclaredRegionStat.declare) agg := by
  rw [counted, List.foldl_flatMap]
  congr 1
  funext agg d
  rw [List.foldl_map]
  rfl

theorem group_of_names {names : List Bytes} (h : names.Nodup) (observed : Bytes) :
    group Prod.fst (names.map fun name => (name, observed)) raw = if has names raw then [(raw, observed)] else [] := by
  have hkeys : (names.map fun name => (name, observed)).map Prod.fst = names := by
    rw [List.map_map]
    exact List.map_id names
  split
  · next hraw => exact group_of_nodup (hkeys.symm ▸ h) (List.mem_map_of_mem (has_iff.mp hraw))
  · next hraw =>
      apply List.filter_eq_nil_iff.mpr
      intro p hp hkey
      obtain ⟨name, hname, rfl⟩ := List.mem_map.mp hp
      exact hraw (has_iff.mpr (of_decide_eq_true hkey ▸ hname))

theorem group_counted : group Prod.fst (counted ds) raw = (spelling ds raw).map fun d => (raw, d.observed) := by
  induction ds with
  | nil => rfl
  | cons d ds ih =>
      have hgroup : group Prod.fst ((namesOf d.csv).map fun name => (name, d.observed)) raw = _ :=
        group_of_names (nodup_namesOf d.csv) d.observed
      rw [group] at hgroup
      rw [counted, List.flatMap_cons, group, List.filter_append, hgroup]
      rw [group, counted] at ih
      rw [ih, spelling, spelling, List.filter_cons]
      split <;> rfl

theorem latest_concat (d : Declaration) : latest (ds ++ [d]) = later (latest ds) d.observed := List.foldl_concat _ _ _ _

theorem running_spelling (h : ds ≠ []) :
    running newStat DeclaredRegionStat.declare (ds.map fun d => (raw, d.observed)) =
      some { name := raw, declarers := ds.length, lastSeen := latest ds } := by
  induction ds using List.reverseRecOn with
  | nil => exact absurd rfl h
  | append_singleton ds d ih =>
      rw [List.map_append, List.map_singleton, running_concat, latest_concat, List.length_append]
      by_cases hds : ds = []
      · subst hds
        rfl
      · rw [ih hds]
        rfl

theorem spelling_eq_nil : spelling ds raw = [] ↔ raw ∉ ds.flatMap fun d => namesOf d.csv := by
  rw [spelling, List.filter_eq_nil_iff, List.mem_flatMap, not_exists]
  simp only [has_iff, not_and]

def entry (ds : List Declaration) (raw : Bytes) : Bytes × DeclaredRegionStat :=
  (raw, { name := raw, declarers := (spelling ds raw).length, lastSeen := latest (spelling ds raw) })

theorem mem_counts {p : Bytes × DeclaredRegionStat} :
    p ∈ tallies Prod.fst newStat DeclaredRegionStat.declare (counted ds) ↔
      p.1 ∈ (ds.flatMap fun d => namesOf d.csv) ∧ entry ds p.1 = p := by
  rw [mem_tallies, group_counted]
  by_cases hnone : spelling ds p.1 = []
  · rw [hnone]
    exact iff_of_false (Option.some_ne_none _ ·.symm) fun h => spelling_eq_nil.mp hnone h.1
  · have hmem : p.1 ∈ ds.flatMap fun d => namesOf d.csv := not_not.mp (mt spelling_eq_nil.mpr hnone)
    rw [running_spelling hnone, Option.some_inj, and_iff_right hmem, entry, Prod.ext_iff]
    exact (and_iff_right rfl).symm

theorem counts_perm : (tallies Prod.fst newStat DeclaredRegionStat.declare (counted ds)).Perm
    ((ds.flatMap fun d => namesOf d.csv).dedup.map (entry ds)) := by
  have hnodup : ((ds.flatMap fun d => namesOf d.csv).dedup.map (entry ds)).Nodup :=
    (List.nodup_dedup _).map fun _ _ h => congrArg Prod.fst h
  rw [List.perm_ext_iff_of_nodup (List.Nodup.of_map _ (nodup_tallies _)) hnodup]
  intro p
  rw [mem_counts, List.mem_map]
  constructor
  · exact fun ⟨hmem, hp⟩ => ⟨p.1, List.mem_dedup.mpr hmem, hp⟩
  · rintro ⟨raw, hraw, rfl⟩
    exact ⟨List.mem_dedup.mp hraw, rfl⟩

theorem accept_entry (raw : Bytes) :
    accept (entry ds raw).2 = if (regionNameAcceptable raw).isSome then some (byLists ds raw) else none := by
  rw [accept, entry, byLists, canonical]
  cases regionNameAcceptable raw <;> rfl

theorem filterMap_accept (names : List Bytes) : (names.map fun raw => (entry ds raw).2).filterMap accept =
    (names.filter fun raw => (regionNameAcceptable raw).isSome).map (byLists ds) := by
  induction names with
  | nil => rfl
  | cons raw names ih =>
      rw [List.map_cons, List.filterMap_cons, ih, List.filter_cons, accept_entry]
      split_ifs <;> rfl

section Ranking

variable (range : RangeOrder) (sorting : SliceSort DeclaredRegionStat.sortKey) (db : Database)
  (current : Current db.answered)

theorem kept_perm : ((declaredRegionSources range db current).filterMap accept).Perm
    ((spellings (declarations db current)).map (byLists (declarations db current))) := by
  rw [spellings, ← filterMap_accept, declaredRegionSources, foldl_count]
  apply List.Perm.filterMap
  rw [← Function.comp_def, ← List.map_map]
  exact ((range.perm _).trans counts_perm).map Prod.snd

def placings (ds : List Declaration) : List Bytes :=
  (spellings ds).insertionSort fun raw raw' => spelledKey ds raw ≤ spelledKey ds raw'

theorem text_injective : Function.Injective text := List.map_injective_iff.mpr fun _ _ => UInt8.toNat_inj.mp

theorem placings_perm : (placings ds).Perm (spellings ds) := List.perm_insertionSort _ _

theorem pairwise_placings : (placings ds).Pairwise fun raw raw' => spelledKey ds raw < spelledKey ds raw' := by
  have hle : Ascending (spelledKey ds) (placings ds) := ascending_insertionSort _ _
  have hnodup : (placings ds).Nodup := placings_perm.nodup_iff.mpr ((List.nodup_dedup _).filter _)
  apply (hle.and hnodup).imp
  rintro raw raw' ⟨hle, hne⟩
  apply lt_of_le_of_ne hle
  intro heq
  exact hne (text_injective (congrArg (fun k => (ofLex k).2) heq))

theorem sortKey_placings : Ascending DeclaredRegionStat.sortKey ((placings ds).map (byLists ds)) := by
  apply List.pairwise_map.mpr
  apply pairwise_placings.imp
  intro raw raw' hlt
  exact Prod.Lex.monotone_fst _ _ hlt.le

theorem rankDeclaredRegions_eq {max : Int} (hmax : 0 < max) :
    rankDeclaredRegions sorting (declaredRegionSources range db current) max =
      ((placings (declarations db current)).take max.toNat).map canonical := by
  set ds := declarations db current
  set kept := sorting.sort ((declaredRegionSources range db current).filterMap accept)
  have hperm : kept.Perm ((placings ds).map (byLists ds)) :=
    ((sorting.perm _).trans (kept_perm range db current)).trans (placings_perm.symm.map _)
  have hkeys : kept.map DeclaredRegionStat.sortKey = ((placings ds).map (byLists ds)).map DeclaredRegionStat.sortKey :=
    (sorting.ascending _).map_key_eq sortKey_placings hperm
  have hnames : kept.map DeclaredRegionStat.name = (placings ds).map canonical := by
    apply List.map_injective_iff.mpr text_injective
    have htexts := congrArg (List.map fun k => (ofLex (ofLex k).2).2) hkeys
    rw [List.map_map, List.map_map, List.map_map] at htexts
    rw [List.map_map, List.map_map]
    exact htexts
  have hcut : rankDeclaredRegions sorting (declaredRegionSources range db current) max =
      (kept.take max.toNat).map DeclaredRegionStat.name := by
    rw [rankDeclaredRegions]
    split
    · rfl
    · next hlen =>
        have hle : (kept.length : Int) ≤ max := not_lt.mp fun hlt => hlen ⟨hmax, hlt⟩
        have hshort : kept.length ≤ max.toNat := by omega
        exact congrArg _ (List.take_of_length_le hshort).symm
  rw [hcut, List.map_take, hnames, List.map_take]

theorem regionNameAcceptable_canonical {name : Bytes} (h : regionNameAcceptable raw = some name) :
    regionNameAcceptable name = some name := by
  rw [regionNameAcceptable] at h
  generalize (if hasPrefix 0x23 raw = true then raw.tail else raw) = trimmed at h
  split at h
  · cases h
  · next hshape =>
      split at h
      · cases h
      · next hbytes =>
          cases h
          have hno : ¬ hasPrefix 0x23 name = true := by
            intro hhash
            apply hbytes
            cases name with
            | nil => cases hhash
            | cons c rest =>
                rw [Option.some.inj (beq_iff_eq.mp hhash)]
                rfl
          rw [regionNameAcceptable, if_neg hno, if_neg hshape, if_neg hbytes]

theorem acceptable_canonical (h : raw ∈ spellings ds) :
    regionNameAcceptable (canonical raw) = some (canonical raw) := by
  obtain ⟨name, hname⟩ := Option.isSome_iff_exists.mp (List.mem_filter.mp h).2
  rw [canonical, hname]
  exact regionNameAcceptable_canonical hname

end Ranking

section Agreement

variable {db : Database} {current : Current db.answered}

theorem mem_split_of_mem_namesOf {csv : Bytes} (h : raw ∈ namesOf csv) : raw ∈ splitDeclaredRegionsCSV csv :=
  (List.mem_filter.mp (firsts_subset h)).1

theorem mem_spellings : raw ∈ spellings ds ↔
    (∃ d ∈ ds, raw ∈ namesOf d.csv) ∧ regionNameAcceptable raw = some (canonical raw) := by
  rw [spellings, List.mem_filter, List.mem_dedup, List.mem_flatMap, and_congr_right_iff]
  intro _
  rw [canonical]
  cases regionNameAcceptable raw <;> simp

theorem mem_declaring {name : Bytes} {d : Declaration} : d ∈ declaring ds name ↔
    d ∈ ds ∧ ∃ raw ∈ namesOf d.csv, regionNameAcceptable raw = some name := by
  rw [declaring, List.mem_filter, has_iff, List.mem_map]

theorem Distinct.canonical_inj (h : Distinct db current) {raw' : Bytes}
    (hraw : raw ∈ spellings (declarations db current)) (hraw' : raw' ∈ spellings (declarations db current))
    (heq : canonical raw = canonical raw') : raw = raw' := by
  obtain ⟨⟨d, hd, hname⟩, hsome⟩ := mem_spellings.mp hraw
  obtain ⟨⟨d', hd', hname'⟩, hsome'⟩ := mem_spellings.mp hraw'
  apply h.spelled d hd raw (mem_split_of_mem_namesOf hname) d' hd' raw' (mem_split_of_mem_namesOf hname')
  · rw [hsome]
    exact Option.some_ne_none _
  · rw [hsome, hsome', heq]

theorem Distinct.declaring_eq (h : Distinct db current) (hraw : raw ∈ spellings (declarations db current)) :
    declaring (declarations db current) (canonical raw) = spelling (declarations db current) raw := by
  apply List.filter_congr
  intro d hd
  rw [Bool.eq_iff_iff, has_iff, has_iff, List.mem_map]
  constructor
  · rintro ⟨raw', hraw', haccept⟩
    have hsame : canonical raw' = canonical raw := by rw [canonical, haccept, Option.getD_some]
    have hmem : raw' ∈ spellings (declarations db current) :=
      mem_spellings.mpr ⟨⟨d, hd, hraw'⟩, hsame ▸ haccept⟩
    rwa [← h.canonical_inj hmem hraw hsame]
  · exact fun hname => ⟨raw, hname, (mem_spellings.mp hraw).2⟩

theorem nodup_nodes (db : Database) : ((db.nodes.filterMap Node.declaration).map Declaration.node).Nodup := by
  have hsub : ((db.nodes.filterMap Node.declaration).map Declaration.node).Sublist (db.nodes.map Node.publicKey) := by
    induction db.nodes with
    | nil => exact List.Sublist.slnil
    | cons n nodes ih =>
        rw [List.filterMap_cons, Node.declaration]
        split
        · exact ih.cons _
        · next hd =>
            split at hd
            · cases hd
            · split at hd
              · cases hd
              · cases hd
                exact ih.cons_cons _
  exact db.publicKeys.sublist hsub

theorem nodup_targets (current : Current db.answered) :
    ((current.answers.map Answer.declaration).map Declaration.node).Nodup := by
  rw [List.map_map]
  exact current.targets

theorem Distinct.nodup_spelling (h : Distinct db current) (hraw : raw ∈ spellings (declarations db current)) :
    ((spelling (declarations db current) raw).map Declaration.node).Nodup := by
  rw [spelling, declarations, List.filter_append, List.map_append]
  apply ((nodup_nodes db).sublist (List.filter_sublist.map _)).append
    ((nodup_targets current).sublist (List.filter_sublist.map _))
  intro node hnode hanswer
  obtain ⟨d, hd, rfl⟩ := List.mem_map.mp hnode
  obtain ⟨d', hd', heq⟩ := List.mem_map.mp hanswer
  obtain ⟨hd, hname⟩ := List.mem_filter.mp hd
  obtain ⟨hd', hname'⟩ := List.mem_filter.mp hd'
  obtain ⟨a, ha, rfl⟩ := List.mem_map.mp hd'
  have hnone := h.apart d hd a ha heq.symm raw (mem_split_of_mem_namesOf (has_iff.mp hname))
    (mem_split_of_mem_namesOf (has_iff.mp hname'))
  rw [(mem_spellings.mp hraw).2] at hnone
  cases hnone

theorem Distinct.declarers_eq (h : Distinct db current) (hraw : raw ∈ spellings (declarations db current)) :
    declarers (declarations db current) (canonical raw) = (byLists (declarations db current) raw).declarers := by
  rw [declarers, h.declaring_eq hraw, (h.nodup_spelling hraw).dedup, List.length_map]
  rfl

theorem text_later (observed other : Bytes) : text (later observed other) = max (text observed) (text other) := by
  rw [later]
  split
  · next hlt => exact (max_eq_right hlt.le).symm
  · next hge => exact (max_eq_left (not_lt.mp hge)).symm

theorem text_latest (ds : List Declaration) : text (latest ds) = (ds.map fun d => text d.observed).foldl max [] := by
  induction ds using List.reverseRecOn with
  | nil => rfl
  | append_singleton ds d ih =>
      rw [latest_concat, text_later, ih, List.map_append, List.foldl_append]
      rfl

theorem Distinct.lastDeclared_eq (h : Distinct db current) (hraw : raw ∈ spellings (declarations db current)) :
    lastDeclared (declarations db current) (canonical raw) = text (byLists (declarations db current) raw).lastSeen := by
  rw [lastDeclared, h.declaring_eq hraw]
  exact (text_latest _).symm

theorem sortKey_lt_iff {s s' : DeclaredRegionStat} : s.sortKey < s'.sortKey ↔
    s'.declarers < s.declarers ∨ s.declarers = s'.declarers ∧
      (text s'.lastSeen < text s.lastSeen ∨ text s.lastSeen = text s'.lastSeen ∧ text s.name < text s'.name) := by
  simp [DeclaredRegionStat.sortKey, Prod.Lex.lt_iff]

theorem Distinct.before (h : Distinct db current) {raw' : Bytes} (hraw : raw ∈ spellings (declarations db current))
    (hraw' : raw' ∈ spellings (declarations db current))
    (hlt : spelledKey (declarations db current) raw < spelledKey (declarations db current) raw') :
    Before (declarations db current) (canonical raw) (canonical raw') := by
  have hkey : (byLists (declarations db current) raw).sortKey < (byLists (declarations db current) raw').sortKey := by
    apply lt_of_le_of_ne (Prod.Lex.monotone_fst _ _ hlt.le)
    intro heq
    have hname : canonical raw = canonical raw' := text_injective (congrArg (fun k => (ofLex (ofLex k).2).2) heq)
    rw [h.canonical_inj hraw hraw' hname] at hlt
    exact lt_irrefl _ hlt
  rw [Before, h.declarers_eq hraw, h.declarers_eq hraw', h.lastDeclared_eq hraw, h.lastDeclared_eq hraw']
  exact sortKey_lt_iff.mp hkey

theorem not_before_self (name : Bytes) : ¬ Before ds name name := by
  simp [Before]

/-- The ranking is by distinct nodes and distinct names wherever the tables spell each name in one way and a node
declares it in one of them. -/
theorem ranked_of_distinct (range : RangeOrder) (sorting : SliceSort DeclaredRegionStat.sortKey) {max : Int}
    (hmax : 0 < max) (h : Distinct db current) :
    Ranked (declarations db current) max
        (rankDeclaredRegions sorting (declaredRegionSources range db current) max) ∧
      Complete (declarations db current) max
        (rankDeclaredRegions sorting (declaredRegionSources range db current) max) := by
  rw [rankDeclaredRegions_eq range sorting db current hmax]
  set ds := declarations db current
  have hspelled : ∀ raw ∈ placings ds, raw ∈ spellings ds := fun raw hraw => placings_perm.mem_iff.mp hraw
  have hbefore : (placings ds).Pairwise fun raw raw' => Before ds (canonical raw) (canonical raw') :=
    pairwise_placings.imp_of_mem fun hraw hraw' hlt => h.before (hspelled _ hraw) (hspelled _ hraw') hlt
  have hordered : (((placings ds).take max.toNat).map canonical).Pairwise (Before ds) :=
    List.pairwise_map.mpr (hbefore.sublist (List.take_sublist _ _))
  refine ⟨⟨?length, ?nodup, ?acceptable, hordered⟩, ⟨?declared, ?full⟩⟩
  case length =>
    rw [List.length_map, List.length_take]
    omega
  case nodup =>
    apply hordered.imp
    rintro name _ hlt rfl
    exact not_before_self name hlt
  case acceptable =>
    intro name hname
    obtain ⟨raw, hraw, rfl⟩ := List.mem_map.mp hname
    exact acceptable_canonical (hspelled raw (List.mem_of_mem_take hraw))
  case declared =>
    intro name hname
    obtain ⟨raw, hraw, rfl⟩ := List.mem_map.mp hname
    obtain ⟨⟨d, hd, hmem⟩, hsome⟩ := mem_spellings.mp (hspelled raw (List.mem_of_mem_take hraw))
    exact List.ne_nil_of_mem (mem_declaring.mpr ⟨hd, raw, hmem, hsome⟩)
  case full =>
    intro name hname hout
    obtain ⟨d, hmem⟩ := List.exists_mem_of_ne_nil _ hname
    obtain ⟨hd, raw, hraw, hsome⟩ := mem_declaring.mp hmem
    have heq : canonical raw = name := by rw [canonical, hsome, Option.getD_some]
    subst heq
    have hplaced : raw ∈ placings ds := placings_perm.mem_iff.mpr (mem_spellings.mpr ⟨⟨d, hd, hraw⟩, hsome⟩)
    have hcut := List.take_append_drop max.toNat (placings ds)
    -- The name is behind the cut, so all that is taken is before it.
    have hdrop : raw ∈ (placings ds).drop max.toNat := by
      rw [← hcut, List.mem_append] at hplaced
      exact hplaced.resolve_left fun htake => hout (List.mem_map_of_mem htake)
    rw [← hcut] at hbefore
    constructor
    · have hlength := List.length_pos_of_mem hdrop
      rw [List.length_drop] at hlength
      rw [List.length_map, List.length_take]
      omega
    · intro kept hkept
      obtain ⟨raw', hraw', rfl⟩ := List.mem_map.mp hkept
      exact (List.pairwise_append.mp hbefore).2.2 raw' hraw' raw hdrop

end Agreement

def sortStats : SliceSort DeclaredRegionStat.sortKey := .insertion _

/-- "#a" and "#b" in the row of the one node, "#a" and "b c" in the answer of another, and in an answer of the first
one only the wildcard. -/
def spelledOnce : Database where
  nodes := [{ publicKey := [1], configuredScope := some [0x23, 0x61, 0x2C, 0x23, 0x62], configuredScopeAt := none }]
  publicKeys := List.nodup_singleton _
  declaredRegions := some [{ target := [2], observedAt := [], regionsCSV := [0x23, 0x61, 0x2C, 0x62, 0x20, 0x63] },
    { target := [1], observedAt := [], regionsCSV := [0x2A] }]

def allAnswers : Current spelledOnce.answered where
  answers := spelledOnce.answered
  mem := fun _ h => h
  targets := by decide
  newest := fun a h => ⟨a, h, rfl, le_rfl⟩

theorem ranked_of_distinct_spelledOnce :
    Ranked (declarations spelledOnce allAnswers) 1
        (rankDeclaredRegions sortStats (declaredRegionSources .listed spelledOnce allAnswers) 1) ∧
      Complete (declarations spelledOnce allAnswers) 1
        (rankDeclaredRegions sortStats (declaredRegionSources .listed spelledOnce allAnswers) 1) :=
  ranked_of_distinct .listed sortStats (by decide) ⟨by decide +kernel, by decide +kernel⟩

/-- "#a" in `nodes` and "a" in the other table. -/
def spelledTwice : Database where
  nodes := [{ publicKey := [1], configuredScope := some [0x23, 0x61], configuredScopeAt := none }]
  publicKeys := List.nodup_singleton _
  declaredRegions := some [{ target := [2], observedAt := [], regionsCSV := [0x61] }]

def onlyAnswer : Current spelledTwice.answered where
  answers := [{ target := [2], observedAt := [], regionsCSV := [0x61] }]
  mem := fun _ h => h
  targets := List.nodup_singleton _
  newest := fun a h => ⟨a, h, rfl, le_rfl⟩

theorem name_ranked_twice : ¬ Ranked (declarations spelledTwice onlyAnswer) 2
    (rankDeclaredRegions sortStats (declaredRegionSources .listed spelledTwice onlyAnswer) 2) := by
  intro h
  have hnames : rankDeclaredRegions sortStats (declaredRegionSources .listed spelledTwice onlyAnswer) 2 =
      [[0x61], [0x61]] := by decide
  have hnodup := h.nodup
  rw [hnames] at hnodup
  exact (List.nodup_cons.mp hnodup).1 List.mem_cons_self

end MeshcoreAnalyzer.DeclaredRegions

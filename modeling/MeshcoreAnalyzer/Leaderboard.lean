import MeshcoreAnalyzer.Groups
import Mathlib.Algebra.BigOperators.Field
import Mathlib.Algebra.BigOperators.Group.Finset.Sigma
import Mathlib.Algebra.Order.BigOperators.Group.Finset
import Mathlib.Algebra.Order.Field.Rat
import Mathlib.Data.List.Sort
import Mathlib.Data.String.Basic

namespace MeshcoreAnalyzer.Leaderboard

open Groups

/-! The ranking of mobile observers of cmd/server/rx_dashboard.go. The grid cell of a position and the
normal form of a pubkey (`strings.ToLower(strings.TrimSpace(pk))`) are parameters; scores are exact. -/

structure Reception (F : Type) where
  rxPubkey : String
  heardKey : String
  lat : F
  lon : F
  rxAt : String

/-- The tables that the query joins; a name that is NULL or empty counts as none. -/
structure Tables (F : Type) where
  receptions : List (Reception F)
  nodeName : String → String
  companionName : String → String

structure Config where
  observerBlacklist : List String
  nodeBlacklist : List String
  hiddenNamePrefixes : List String

structure Row (F : Type) where
  pk : String
  name : String
  lat : F
  lon : F
  heardKey : String

def leaderboardHexRes : Nat := 13

def leaderboardScanCap : Nat := 500000

section Code

variable {F : Type} (norm : String → String) (hexCellAt : F → F → Nat → String)

def blacklistSet (pks : List String) : Finset String := ((pks.map norm).filter (· ≠ "")).toFinset

def isObserverBlacklisted (cfg : Option Config) (id : String) : Bool :=
  match cfg with
  | none => false
  | some cfg => norm id ∈ blacklistSet norm cfg.observerBlacklist

def isBlacklisted (cfg : Option Config) (pubkey : String) : Bool :=
  match cfg with
  | none => false
  | some cfg => norm pubkey ∈ blacklistSet norm cfg.nodeBlacklist

def isNameHidden (cfg : Option Config) (name : String) : Bool :=
  match cfg with
  | none => false
  | some cfg => cfg.hiddenNamePrefixes.any fun p => p ≠ "" && p.toList.isPrefixOf name.toList

/-- `WHERE cr.rx_at >= ?` -/
def window (since : String) (receptions : List (Reception F)) : List (Reception F) :=
  receptions.filter fun r => since ≤ r.rxAt

def Tables.row (db : Tables F) (r : Reception F) : Row F where
  pk := r.rxPubkey
  name := if db.nodeName r.rxPubkey ≠ "" then db.nodeName r.rxPubkey else db.companionName r.rxPubkey
  lat := r.lat
  lon := r.lon
  heardKey := r.heardKey

def scan (db : Tables F) (since : String) : List (Row F) :=
  (((window since db.receptions).insertionSort fun r r' => r'.rxAt ≤ r.rxAt).take leaderboardScanCap).map db.row

def Reception.cell (r : Reception F) : String := hexCellAt r.lat r.lon leaderboardHexRes

def Row.cell (r : Row F) : String := hexCellAt r.lat r.lon leaderboardHexRes

structure Agg where
  name : String
  receptions : Nat
  cells : Finset String
  nodes : Finset String

def Agg.add (a : Agg) (r : Row F) : Agg where
  name := a.name
  receptions := a.receptions + 1
  cells := insert (r.cell hexCellAt) a.cells
  nodes := insert r.heardKey a.nodes

def obsAgg (rows : List (Row F)) : List (String × Agg) :=
  tallies Row.pk (fun r => ⟨r.name, 0, ∅, ∅⟩) (Agg.add hexCellAt) rows

def cellObservers (rows : List (Row F)) : List (String × Finset String) :=
  tallies (Row.cell hexCellAt) (fun _ => ∅) (fun set r => insert r.pk set) rows

def clean (cfg : Option Config) (pk : String) : Bool := !isObserverBlacklisted norm cfg pk && !isBlacklisted norm cfg pk

def cellCount (cfg : Option Config) (rows : List (Row F)) (cell : String) : Nat :=
  ((get (cellObservers hexCellAt rows) cell).map fun set => (set.filter fun pk => clean norm cfg pk).card).getD 0

def score (cfg : Option Config) (rows : List (Row F)) (a : Agg) : ℚ :=
  ∑ cell ∈ a.cells, if 0 < cellCount norm hexCellAt cfg rows cell then
    1 / (cellCount norm hexCellAt cfg rows cell : ℚ) else 0

structure LeaderObserver where
  pubkey : String
  name : String
  receptions : Nat
  nodes : Nat
  cells : Nat
  score : ℚ

def observer (cfg : Option Config) (rows : List (Row F)) (p : String × Agg) : LeaderObserver where
  pubkey := p.1
  name := p.2.name
  receptions := p.2.receptions
  nodes := p.2.nodes.card
  cells := p.2.cells.card
  score := score norm hexCellAt cfg rows p.2

def ranksBefore (x y : LeaderObserver) : Bool :=
  if x.score ≠ y.score then y.score < x.score
  else if x.receptions ≠ y.receptions then y.receptions < x.receptions
  else x.pubkey < y.pubkey

def blank (cfg : Option Config) (o : LeaderObserver) : LeaderObserver :=
  if isBlacklisted norm cfg o.pubkey || isNameHidden cfg o.name then { o with name := "" } else o

/-- The loop over the ranking, which has kept `n` entries so far. -/
def keep (cfg : Option Config) (limit : Int) : Nat → List LeaderObserver → List LeaderObserver
  | _, [] => []
  | n, o :: os =>
      if isObserverBlacklisted norm cfg o.pubkey then keep cfg limit n os
      else blank norm cfg o :: if limit ≤ (n + 1 : Nat) then [] else keep cfg limit (n + 1) os

def rank (range : RangeOrder) (cfg : Option Config) (rows : List (Row F)) : List LeaderObserver :=
  ((range.order (obsAgg hexCellAt rows)).map (observer norm hexCellAt cfg rows)).insertionSort
    fun x y => !ranksBefore y x

def rxLeaderboard (range : RangeOrder) (cfg : Option Config) (db : Tables F) (since : String) (limit : Int) :
    List LeaderObserver :=
  keep norm cfg limit 0 (rank norm hexCellAt range cfg (scan db since))

end Code

section Rows

variable {F : Type} {norm : String → String} {hexCellAt : F → F → Nat → String} {cfg : Option Config}
  {rows rows' : List (Row F)} {pk cell : String} {s : ℚ}

theorem foldl_insert {A B : Type} [DecidableEq B] (f : A → B) (l : List A) :
    l.foldl (fun set a => insert (f a) set) ∅ = (l.map f).toFinset := by
  induction l using List.reverseRecOn with
  | nil => rfl
  | append_singleton l a ih =>
      rw [List.foldl_concat, ih, List.map_append, List.toFinset_append]
      ext x
      simp

def cellsOf (hexCellAt : F → F → Nat → String) (rows : List (Row F)) (pk : String) : Finset String :=
  ((group Row.pk rows pk).map (Row.cell hexCellAt)).toFinset

def sharers (norm : String → String) (hexCellAt : F → F → Nat → String) (cfg : Option Config) (rows : List (Row F))
    (cell : String) : Finset String :=
  (((group (Row.cell hexCellAt) rows cell).map Row.pk).toFinset).filter fun pk => clean norm cfg pk

theorem mem_cellsOf : cell ∈ cellsOf hexCellAt rows pk ↔ ∃ r ∈ rows, r.pk = pk ∧ r.cell hexCellAt = cell := by
  simp [cellsOf, mem_group, and_assoc]

theorem mem_sharers : pk ∈ sharers norm hexCellAt cfg rows cell ↔
    (∃ r ∈ rows, r.pk = pk ∧ r.cell hexCellAt = cell) ∧ clean norm cfg pk = true := by
  simp only [sharers, Finset.mem_filter, List.mem_toFinset, List.mem_map, mem_group]
  exact and_congr_left fun _ => exists_congr fun r => by tauto

theorem cells_of_mem {p : String × Agg} (h : p ∈ obsAgg hexCellAt rows) : p.2.cells = cellsOf hexCellAt rows p.1 := by
  rw [cellsOf, ← foldl_insert]
  exact running_view Agg.cells (fun set (r : Row F) => insert (r.cell hexCellAt) set) (fun _ => rfl) (fun _ _ => rfl)
    (mem_tallies.mp h)

theorem cellCount_eq : cellCount norm hexCellAt cfg rows cell = (sharers norm hexCellAt cfg rows cell).card := by
  rw [cellCount, cellObservers, get_tallies, sharers]
  cases h : running (fun _ => (∅ : Finset String)) (fun set (r : Row F) => insert r.pk set)
      (group (Row.cell hexCellAt) rows cell) with
  | none => rw [running_eq_none.mp h]; rfl
  | some set =>
      have hset : set = (group (Row.cell hexCellAt) rows cell).foldl (fun set r => insert r.pk set) ∅ :=
        running_view id (fun set (r : Row F) => insert r.pk set) (fun _ => rfl) (fun _ _ => rfl) h
      rw [← foldl_insert, ← hset]
      rfl

def weight (norm : String → String) (hexCellAt : F → F → Nat → String) (cfg : Option Config) (rows : List (Row F))
    (cell : String) : ℚ :=
  if 0 < (sharers norm hexCellAt cfg rows cell).card then 1 / ((sharers norm hexCellAt cfg rows cell).card : ℚ) else 0

def scoreOf (norm : String → String) (hexCellAt : F → F → Nat → String) (cfg : Option Config) (rows : List (Row F))
    (pk : String) : ℚ :=
  ∑ cell ∈ cellsOf hexCellAt rows pk, weight norm hexCellAt cfg rows cell

theorem score_of_mem {p : String × Agg} (h : p ∈ obsAgg hexCellAt rows) :
    score norm hexCellAt cfg rows p.2 = scoreOf norm hexCellAt cfg rows p.1 := by
  rw [score, scoreOf, cells_of_mem h]
  exact Finset.sum_congr rfl fun cell _ => by rw [weight, cellCount_eq]

theorem keep_unlimited {limit : Int} (os : List LeaderObserver) : ∀ n : Nat, ((n + os.length : Nat) : Int) ≤ limit →
    keep norm cfg limit n os = (os.filter fun o => !isObserverBlacklisted norm cfg o.pubkey).map (blank norm cfg) := by
  induction os with
  | nil => exact fun _ _ => rfl
  | cons o os ih =>
      intro n hn
      rw [List.length_cons] at hn
      rw [keep]
      split_ifs with hdropped hfull
      · rw [List.filter_cons_of_neg (by simp [hdropped]), ih n (by omega)]
      · have hos : os = [] := List.eq_nil_of_length_eq_zero (by omega)
        rw [hos, List.filter_cons_of_pos (by simp [hdropped])]
        rfl
      · rw [List.filter_cons_of_pos (by simp [hdropped]), List.map_cons, ih (n + 1) (by omega)]

theorem pubkey_blank (o : LeaderObserver) : (blank norm cfg o).pubkey = o.pubkey := by
  rw [blank]
  split_ifs <;> rfl

theorem score_blank (o : LeaderObserver) : (blank norm cfg o).score = o.score := by
  rw [blank]
  split_ifs <;> rfl

def shown (norm : String → String) (cfg : Option Config) (rows : List (Row F)) : Finset String :=
  ((rows.map Row.pk).toFinset).filter fun pk => !isObserverBlacklisted norm cfg pk

theorem mem_shown : pk ∈ shown norm cfg rows ↔ (∃ r ∈ rows, r.pk = pk) ∧ isObserverBlacklisted norm cfg pk = false := by
  simp [shown]

theorem keep_rank_perm (range : RangeOrder) {limit : Int} (hlimit : (rows.length : Int) ≤ limit) :
    ((keep norm cfg limit 0 (rank norm hexCellAt range cfg rows)).map fun o => (o.pubkey, o.score)).Perm
      ((shown norm cfg rows).toList.map fun pk => (pk, scoreOf norm hexCellAt cfg rows pk)) := by
  have hrank : (rank norm hexCellAt range cfg rows).Perm
      ((obsAgg hexCellAt rows).map (observer norm hexCellAt cfg rows)) :=
    (List.perm_insertionSort _ _).trans ((range.perm _).map _)
  have hlength : (rank norm hexCellAt range cfg rows).length ≤ rows.length := by
    rw [hrank.length_eq, List.length_map]
    exact length_tallies rows
  rw [keep_unlimited _ 0 (by omega), List.map_map]
  have hpairs : (fun o : LeaderObserver => (o.pubkey, o.score)) ∘ blank norm cfg = fun o => (o.pubkey, o.score) := by
    funext o
    exact Prod.ext (pubkey_blank o) (score_blank o)
  rw [hpairs]
  apply ((hrank.filter _).map _).trans
  have hkeys : (((obsAgg hexCellAt rows).map Prod.fst).filter fun pk => !isObserverBlacklisted norm cfg pk).Perm
      (shown norm cfg rows).toList := by
    apply (List.perm_ext_iff_of_nodup ((nodup_tallies rows).filter _) (Finset.nodup_toList _)).mpr
    intro pk
    rw [List.mem_filter, Finset.mem_toList, mem_shown, Bool.not_eq_true']
    apply and_congr_left fun _ => ?_
    rw [List.mem_map]
    constructor
    · rintro ⟨p, hp, rfl⟩
      have hgroup : group Row.pk rows p.1 ≠ [] := fun h => by
        have hnone := mem_tallies.mp hp
        rw [running_eq_none.mpr h] at hnone
        cases hnone
      obtain ⟨r, hr⟩ := List.exists_mem_of_ne_nil _ hgroup
      exact ⟨r, mem_group.mp hr⟩
    · rintro ⟨r, hr⟩
      obtain ⟨a, ha⟩ := Option.ne_none_iff_exists'.mp fun h =>
        List.ne_nil_of_mem (mem_group.mpr hr) (running_eq_none.mp h)
      exact ⟨(pk, a), mem_tallies.mpr ha, rfl⟩
  apply List.Perm.trans _ (hkeys.map _)
  rw [List.filter_map, List.filter_map, List.map_map, List.map_map]
  apply List.Perm.of_eq
  apply List.map_congr_left
  intro p hp
  exact Prod.ext rfl (score_of_mem (List.mem_of_mem_filter hp))

theorem scoreOf_congr (hcells : ∀ cell, cell ∈ cellsOf hexCellAt rows pk ↔ cell ∈ cellsOf hexCellAt rows' pk)
    (hsharers : ∀ cell, ∀ pk', pk' ∈ sharers norm hexCellAt cfg rows cell ↔
      pk' ∈ sharers norm hexCellAt cfg rows' cell) :
    scoreOf norm hexCellAt cfg rows pk = scoreOf norm hexCellAt cfg rows' pk := by
  rw [scoreOf, scoreOf, Finset.ext hcells]
  exact Finset.sum_congr rfl fun cell _ => by rw [weight, weight, Finset.ext (hsharers cell)]

def covered (norm : String → String) (hexCellAt : F → F → Nat → String) (cfg : Option Config) (rows : List (Row F)) :
    Finset String :=
  ((rows.filter fun r => clean norm cfg r.pk).map (Row.cell hexCellAt)).toFinset

theorem mem_covered : cell ∈ covered norm hexCellAt cfg rows ↔ 0 < (sharers norm hexCellAt cfg rows cell).card := by
  rw [Finset.card_pos, covered, List.mem_toFinset, List.mem_map]
  constructor
  · rintro ⟨r, hr, rfl⟩
    exact ⟨r.pk, mem_sharers.mpr ⟨⟨r, List.mem_of_mem_filter hr, rfl, rfl⟩, (List.mem_filter.mp hr).2⟩⟩
  · rintro ⟨pk, hpk⟩
    obtain ⟨⟨r, hr, rfl, hcell⟩, hclean⟩ := mem_sharers.mp hpk
    exact ⟨r, List.mem_filter.mpr ⟨hr, hclean⟩, hcell⟩

/-- The contributors that are credited with a cell but not counted in its weight: the ranking shows them, and the list
of nodes names them. -/
def extras (norm : String → String) (hexCellAt : F → F → Nat → String) (cfg : Option Config) (rows : List (Row F))
    (cell : String) : Finset String :=
  (((group (Row.cell hexCellAt) rows cell).map Row.pk).toFinset).filter fun pk =>
    isBlacklisted norm cfg pk && !isObserverBlacklisted norm cfg pk

theorem mem_extras : pk ∈ extras norm hexCellAt cfg rows cell ↔ (∃ r ∈ rows, r.pk = pk ∧ r.cell hexCellAt = cell) ∧
    isBlacklisted norm cfg pk = true ∧ isObserverBlacklisted norm cfg pk = false := by
  simp only [extras, Finset.mem_filter, List.mem_toFinset, List.mem_map, mem_group, Bool.and_eq_true, Bool.not_eq_true']
  exact and_congr_left fun _ => exists_congr fun r => by tauto

theorem clean_iff : clean norm cfg pk = true ↔
    isObserverBlacklisted norm cfg pk = false ∧ isBlacklisted norm cfg pk = false := by
  rw [clean, Bool.and_eq_true, Bool.not_eq_true', Bool.not_eq_true']

theorem card_credited (cell : String) :
    ((shown norm cfg rows).filter fun pk => cell ∈ cellsOf hexCellAt rows pk).card =
      (sharers norm hexCellAt cfg rows cell).card + (extras norm hexCellAt cfg rows cell).card := by
  rw [← Finset.card_union_of_disjoint]
  · congr 1
    ext pk
    rw [Finset.mem_filter, Finset.mem_union, mem_shown, mem_sharers, mem_extras, mem_cellsOf, clean_iff]
    constructor
    · rintro ⟨⟨-, hobserver⟩, hcovers⟩
      cases hnode : isBlacklisted norm cfg pk with
      | false => exact .inl ⟨hcovers, hobserver, rfl⟩
      | true => exact .inr ⟨hcovers, rfl, hobserver⟩
    · rintro (⟨⟨r, hr, hpk, hcell⟩, hobserver, -⟩ | ⟨⟨r, hr, hpk, hcell⟩, -, hobserver⟩)
      · exact ⟨⟨⟨r, hr, hpk⟩, hobserver⟩, r, hr, hpk, hcell⟩
      · exact ⟨⟨⟨r, hr, hpk⟩, hobserver⟩, r, hr, hpk, hcell⟩
  · rw [Finset.disjoint_left]
    intro pk hsharer hextra
    have hclean := clean_iff.mp (mem_sharers.mp hsharer).2
    rw [(mem_extras.mp hextra).2.1] at hclean
    exact Bool.noConfusion hclean.2

theorem sum_scores : ∑ pk ∈ shown norm cfg rows, scoreOf norm hexCellAt cfg rows pk =
    ∑ cell ∈ covered norm hexCellAt cfg rows,
      (1 + (extras norm hexCellAt cfg rows cell).card / (sharers norm hexCellAt cfg rows cell).card : ℚ) := by
  have hswap : ∑ pk ∈ shown norm cfg rows, scoreOf norm hexCellAt cfg rows pk =
      ∑ cell ∈ (rows.map (Row.cell hexCellAt)).toFinset,
        ∑ pk ∈ (shown norm cfg rows).filter fun pk => cell ∈ cellsOf hexCellAt rows pk,
          weight norm hexCellAt cfg rows cell := by
    apply Finset.sum_comm'
    intro pk cell
    rw [Finset.mem_filter, List.mem_toFinset, List.mem_map]
    refine ⟨fun ⟨hpk, hcell⟩ => ⟨⟨hpk, hcell⟩, ?_⟩, fun ⟨h, _⟩ => h⟩
    obtain ⟨r, hr, -, hrc⟩ := mem_cellsOf.mp hcell
    exact ⟨r, hr, hrc⟩
  have hcovered : covered norm hexCellAt cfg rows =
      (rows.map (Row.cell hexCellAt)).toFinset.filter fun cell => 0 < (sharers norm hexCellAt cfg rows cell).card := by
    ext cell
    rw [Finset.mem_filter, ← mem_covered, iff_and_self, covered, List.mem_toFinset, List.mem_toFinset]
    exact fun h => List.map_subset _ (List.filter_subset_self _) h
  rw [hswap, hcovered, Finset.sum_filter]
  refine Finset.sum_congr rfl fun cell _ => ?_
  rw [Finset.sum_const, card_credited, nsmul_eq_mul, weight]
  split_ifs with hpos
  · have hne : ((sharers norm hexCellAt cfg rows cell).card : ℚ) ≠ 0 := Nat.cast_ne_zero.mpr hpos.ne'
    rw [Nat.cast_add, mul_one_div, add_div, div_self hne]
  · exact mul_zero _

theorem sum_scores_iff : (∑ pk ∈ shown norm cfg rows, scoreOf norm hexCellAt cfg rows pk =
      (covered norm hexCellAt cfg rows).card) ↔
    ∀ cell ∈ covered norm hexCellAt cfg rows, extras norm hexCellAt cfg rows cell = ∅ := by
  have hnonneg : ∀ cell ∈ covered norm hexCellAt cfg rows,
      (0 : ℚ) ≤ (extras norm hexCellAt cfg rows cell).card / (sharers norm hexCellAt cfg rows cell).card :=
    fun cell _ => div_nonneg (Nat.cast_nonneg _) (Nat.cast_nonneg _)
  rw [sum_scores, Finset.sum_add_distrib, Finset.sum_const, nsmul_eq_mul, mul_one, add_eq_left,
    Finset.sum_eq_zero_iff_of_nonneg hnonneg]
  refine forall₂_congr fun cell hcell => ?_
  have hne : ((sharers norm hexCellAt cfg rows cell).card : ℚ) ≠ 0 := Nat.cast_ne_zero.mpr (mem_covered.mp hcell).ne'
  rw [div_eq_zero_iff, or_iff_left hne, Nat.cast_eq_zero, Finset.card_eq_zero]

end Rows

section Ranking

variable {F : Type} {norm : String → String} {hexCellAt : F → F → Nat → String} {range : RangeOrder}
  {cfg : Option Config} {db : Tables F} {since : String} {pk cell : String} {s : ℚ}

def Tables.add (db : Tables F) (extra : List (Reception F)) : Tables F :=
  { db with receptions := db.receptions ++ extra }

/-- The window is no larger than what the query returns. -/
def BelowCap (db : Tables F) (since : String) : Prop := (window since db.receptions).length ≤ leaderboardScanCap

def Covers (hexCellAt : F → F → Nat → String) (db : Tables F) (since : String) (pk cell : String) : Prop :=
  ∃ r ∈ window since db.receptions, r.rxPubkey = pk ∧ r.cell hexCellAt = cell

/-- The ranking under a limit that none reaches: it has no more entries than rows are scanned. -/
def unlimited (norm : String → String) (hexCellAt : F → F → Nat → String) (range : RangeOrder) (cfg : Option Config)
    (db : Tables F) (since : String) : List LeaderObserver :=
  rxLeaderboard norm hexCellAt range cfg db since leaderboardScanCap

def Scored (norm : String → String) (hexCellAt : F → F → Nat → String) (range : RangeOrder) (cfg : Option Config)
    (db : Tables F) (since : String) (pk : String) (s : ℚ) : Prop :=
  ∃ o ∈ unlimited norm hexCellAt range cfg db since, o.pubkey = pk ∧ o.score = s

theorem mem_scan (hcap : BelowCap db since) {r : Row F} :
    r ∈ scan db since ↔ ∃ x ∈ window since db.receptions, db.row x = r := by
  rw [scan, List.take_of_length_le (by rw [List.length_insertionSort]; exact hcap), List.mem_map]
  exact exists_congr fun x => and_congr_left fun _ => List.mem_insertionSort _

theorem mem_cellsOf_scan (hcap : BelowCap db since) :
    cell ∈ cellsOf hexCellAt (scan db since) pk ↔ Covers hexCellAt db since pk cell := by
  rw [mem_cellsOf]
  constructor
  · rintro ⟨r, hr, hpk, hcell⟩
    obtain ⟨x, hx, rfl⟩ := (mem_scan hcap).mp hr
    exact ⟨x, hx, hpk, hcell⟩
  · rintro ⟨x, hx, hpk, hcell⟩
    exact ⟨db.row x, (mem_scan hcap).mpr ⟨x, hx, rfl⟩, hpk, hcell⟩

theorem mem_sharers_scan (hcap : BelowCap db since) : pk ∈ sharers norm hexCellAt cfg (scan db since) cell ↔
    Covers hexCellAt db since pk cell ∧ clean norm cfg pk = true := by
  rw [mem_sharers, ← mem_cellsOf, mem_cellsOf_scan hcap]

variable (hexCellAt) in
theorem mem_shown_scan (hcap : BelowCap db since) : pk ∈ shown norm cfg (scan db since) ↔
    (∃ cell, Covers hexCellAt db since pk cell) ∧ isObserverBlacklisted norm cfg pk = false := by
  rw [mem_shown]
  refine and_congr_left fun _ => ⟨fun ⟨r, hr, hpk⟩ => ⟨r.cell hexCellAt, ?_⟩, fun ⟨cell, hcell⟩ => ?_⟩
  · exact (mem_cellsOf_scan hcap).mp (mem_cellsOf.mpr ⟨r, hr, hpk, rfl⟩)
  · obtain ⟨r, hr, hpk, -⟩ := mem_cellsOf.mp ((mem_cellsOf_scan hcap).mpr hcell)
    exact ⟨r, hr, hpk⟩

theorem unlimited_perm :
    ((unlimited norm hexCellAt range cfg db since).map fun o => (o.pubkey, o.score)).Perm
      ((shown norm cfg (scan db since)).toList.map fun pk => (pk, scoreOf norm hexCellAt cfg (scan db since) pk)) := by
  apply keep_rank_perm
  rw [scan, List.length_map, List.length_take]
  exact Int.ofNat_le.mpr (Nat.min_le_left _ _)

theorem scored_iff : Scored norm hexCellAt range cfg db since pk s ↔
    pk ∈ shown norm cfg (scan db since) ∧ scoreOf norm hexCellAt cfg (scan db since) pk = s := by
  have hmem := (@unlimited_perm F norm hexCellAt range cfg db since).mem_iff (a := (pk, s))
  simp only [List.mem_map, Prod.mk.injEq, Finset.mem_toList] at hmem
  rw [Scored, hmem]
  exact ⟨fun ⟨x, hx, hpk, hs⟩ => hpk ▸ ⟨hx, hs⟩, fun ⟨hpk, hs⟩ => ⟨pk, hpk, rfl, hs⟩⟩

theorem scored_congr {db' : Tables F} (hcap : BelowCap db since) (hcap' : BelowCap db' since)
    (hpk : ∀ cell, Covers hexCellAt db' since pk cell ↔ Covers hexCellAt db since pk cell)
    (hclean : ∀ pk', clean norm cfg pk' = true → ∀ cell, Covers hexCellAt db' since pk' cell ↔
      Covers hexCellAt db since pk' cell) :
    Scored norm hexCellAt range cfg db' since pk s ↔ Scored norm hexCellAt range cfg db since pk s := by
  have hscore : scoreOf norm hexCellAt cfg (scan db' since) pk = scoreOf norm hexCellAt cfg (scan db since) pk := by
    apply scoreOf_congr
    · intro cell
      rw [mem_cellsOf_scan hcap', mem_cellsOf_scan hcap, hpk]
    · intro cell pk'
      rw [mem_sharers_scan hcap', mem_sharers_scan hcap]
      exact and_congr_left fun h => hclean pk' h cell
  rw [scored_iff, scored_iff, hscore, mem_shown_scan hexCellAt hcap', mem_shown_scan hexCellAt hcap,
    exists_congr hpk]

theorem covers_add {extra : List (Reception F)} : Covers hexCellAt (db.add extra) since pk cell ↔
    Covers hexCellAt db since pk cell ∨ ∃ r ∈ window since extra, r.rxPubkey = pk ∧ r.cell hexCellAt = cell := by
  rw [Covers, Tables.add, window, List.filter_append]
  simp only [List.mem_append, or_and_right, exists_or]
  rfl

/-- Nobody who is named on the list of nodes only covers a cell that counts for somebody. -/
def Apart (norm : String → String) (hexCellAt : F → F → Nat → String) (cfg : Option Config) (db : Tables F)
    (since : String) : Prop :=
  ∀ pk pk' cell, Covers hexCellAt db since pk cell → Covers hexCellAt db since pk' cell → clean norm cfg pk = true →
    isBlacklisted norm cfg pk' = true → isObserverBlacklisted norm cfg pk' = true

theorem total_iff (hcap : BelowCap db since) :
    ((unlimited norm hexCellAt range cfg db since).map LeaderObserver.score).sum =
        (covered norm hexCellAt cfg (scan db since)).card ↔ Apart norm hexCellAt cfg db since := by
  have hsum : ((unlimited norm hexCellAt range cfg db since).map LeaderObserver.score).sum =
      ∑ pk ∈ shown norm cfg (scan db since), scoreOf norm hexCellAt cfg (scan db since) pk := by
    have hperm := (@unlimited_perm F norm hexCellAt range cfg db since).map Prod.snd
    rw [List.map_map, List.map_map] at hperm
    exact hperm.sum_eq.trans (Finset.sum_map_toList _ _)
  rw [hsum, sum_scores_iff]
  constructor
  · intro h pk pk' cell hpk hpk' hclean hnode
    cases hobserver : isObserverBlacklisted norm cfg pk' with
    | true => rfl
    | false =>
        have hcell : cell ∈ covered norm hexCellAt cfg (scan db since) :=
          mem_covered.mpr (Finset.card_pos.mpr ⟨pk, (mem_sharers_scan hcap).mpr ⟨hpk, hclean⟩⟩)
        have hextra : pk' ∈ extras norm hexCellAt cfg (scan db since) cell :=
          mem_extras.mpr ⟨mem_cellsOf.mp ((mem_cellsOf_scan hcap).mpr hpk'), hnode, hobserver⟩
        rw [h cell hcell] at hextra
        exact absurd hextra (Finset.notMem_empty pk')
  · intro h cell hcell
    obtain ⟨pk, hpk⟩ := Finset.card_pos.mp (mem_covered.mp hcell)
    obtain ⟨hcovers, hclean⟩ := (mem_sharers_scan hcap).mp hpk
    refine Finset.eq_empty_of_forall_notMem fun pk' hextra => ?_
    obtain ⟨hmem, hnode, hobserver⟩ := mem_extras.mp hextra
    have hcovers' := (mem_cellsOf_scan hcap).mp (mem_cellsOf.mpr hmem)
    exact Bool.false_ne_true (hobserver.symm.trans (h pk pk' cell hcovers hcovers' hclean hnode))

/-- The frontier scores of a window: each cell is shared once, and scores move only with coverage that counts. -/
structure SharesCells (norm : String → String) (hexCellAt : F → F → Nat → String) (range : RangeOrder)
    (cfg : Option Config) (db : Tables F) (since : String) : Prop where
  total : ((unlimited norm hexCellAt range cfg db since).map LeaderObserver.score).sum =
    (covered norm hexCellAt cfg (scan db since)).card
  inside : ∀ extra, BelowCap (db.add extra) since →
    (∀ r ∈ window since extra, Covers hexCellAt db since r.rxPubkey (r.cell hexCellAt)) →
    ∀ pk s, Scored norm hexCellAt range cfg (db.add extra) since pk s ↔ Scored norm hexCellAt range cfg db since pk s
  blacklisted : ∀ extra, BelowCap (db.add extra) since → (∀ r ∈ extra, clean norm cfg r.rxPubkey = false) →
    ∀ pk, clean norm cfg pk = true → ∀ s,
      Scored norm hexCellAt range cfg (db.add extra) since pk s ↔ Scored norm hexCellAt range cfg db since pk s

theorem sharesCells_iff (norm : String → String) (hexCellAt : F → F → Nat → String) (range : RangeOrder)
    (cfg : Option Config) (db : Tables F) (since : String) (hcap : BelowCap db since) :
    SharesCells norm hexCellAt range cfg db since ↔ Apart norm hexCellAt cfg db since := by
  refine ⟨fun h => (total_iff hcap).mp h.total, fun h => ⟨(total_iff hcap).mpr h, ?_, ?_⟩⟩
  · intro extra hmore hinside pk s
    have hsame : ∀ pk cell, Covers hexCellAt (db.add extra) since pk cell ↔ Covers hexCellAt db since pk cell := by
      intro pk cell
      rw [covers_add, or_iff_left_iff_imp]
      rintro ⟨r, hr, rfl, rfl⟩
      exact hinside r hr
    exact scored_congr hcap hmore (hsame pk) fun pk' _ => hsame pk'
  · intro extra hmore hlisted pk hclean s
    have hsame : ∀ pk, clean norm cfg pk = true → ∀ cell, Covers hexCellAt (db.add extra) since pk cell ↔
        Covers hexCellAt db since pk cell := by
      intro pk hpk cell
      rw [covers_add, or_iff_left_iff_imp]
      rintro ⟨r, hr, rfl, -⟩
      rw [hlisted r (List.mem_of_mem_filter hr)] at hpk
      exact absurd hpk Bool.false_ne_true
    exact scored_congr hcap hmore (hsame pk hclean) hsame

end Ranking

def pair : Tables Unit := ⟨[⟨"good", "aabb01", (), (), "2026-01-01T00:00:00Z"⟩,
  ⟨"bad", "aabb02", (), (), "2026-01-01T00:00:00Z"⟩], fun _ => "", fun _ => ""⟩

theorem belowCap_pair (since : String) : BelowCap pair since :=
  (List.length_filter_le _ _).trans (by decide)

theorem sharesCells_iff_pair : SharesCells id (fun _ _ _ => "13:0:0") .listed none pair "" ↔
    Apart id (fun _ _ _ => "13:0:0") none pair "" :=
  sharesCells_iff id (fun _ _ _ => "13:0:0") .listed none pair "" (belowCap_pair "")

/-- One of the two is on the list of nodes: both are credited with the whole cell. -/
theorem pair_not_sharesCells : ¬ SharesCells id (fun _ _ _ => "13:0:0") .listed (some ⟨[], ["bad"], []⟩) pair "" := by
  intro h
  have hapart := (total_iff (belowCap_pair "")).mp h.total
  have hsince : "" ≤ "2026-01-01T00:00:00Z" := by decide
  have hwindow : window "" pair.receptions = pair.receptions := by
    apply List.filter_eq_self.mpr
    rintro r hr
    rcases List.mem_pair.mp hr with rfl | rfl <;> exact decide_eq_true hsince
  have hcovers : ∀ r ∈ pair.receptions, Covers (fun _ _ _ => "13:0:0") pair "" r.rxPubkey "13:0:0" := by
    intro r hr
    exact ⟨r, hwindow ▸ hr, rfl, rfl⟩
  have hobserver := hapart "good" "bad" "13:0:0" (hcovers _ List.mem_cons_self)
    (hcovers _ (List.mem_cons_of_mem _ List.mem_cons_self)) (by decide) (by decide)
  exact absurd hobserver (by decide)

end MeshcoreAnalyzer.Leaderboard

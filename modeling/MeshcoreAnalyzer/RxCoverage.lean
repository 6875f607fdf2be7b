import MeshcoreAnalyzer.Groups
import MeshcoreAnalyzer.HexCells
import MeshcoreAnalyzer.Orders
import Mathlib.Data.Prod.Lex
import Mathlib.Order.WithBot

namespace MeshcoreAnalyzer.RxCoverage

open Groups HexCells Orders

/-! `aggregateCoverage` of cmd/server/rx_coverage.go. A measured value is an element of a linear order. -/

structure CoverageRow (F : Type) where
  lat : F
  lon : F
  snr : Option F
  heardKey : String
  rxAt : String
deriving DecidableEq

structure CovNodeAgg (F : Type) where
  count : Nat
  latestAt : String
  latestSNR : Option F
  name : String
  nameKeyLen : Nat
  heardPrefix : String

structure CovAgg (F : Type) where
  count : Nat
  bestSNR : Option F
  hasSig : Bool
  nodes : List (String × CovNodeAgg F)

structure CoverageNode (F : Type) where
  heardPrefix : String
  name : String
  snr : Option F
  count : Nat
deriving DecidableEq

structure CoverageFeature (F : Type) where
  ring : List (F × F)
  cell : String
  count : Nat
  bestSNR : Option F
  hasSig : Bool
  nodes : List (CoverageNode F)
  nodesTruncated : Bool

structure CoverageFeatureCollection (F : Type) where
  features : List (CoverageFeature F)
  truncated : Bool

abbrev NodeResolver := String → String × String

def coverageFeatureCap : Nat := 5000

def coverageCellNodeCap : Nat := 25

section Code

variable {F : Type} [LinearOrder F]

def identify (resolve : Option NodeResolver) (heardKey : String) : String × String :=
  match resolve with
  | none => (heardKey, "")
  | some resolve => if (resolve heardKey).1 ≠ "" then resolve heardKey else (heardKey, "")

def nodeKey (resolve : Option NodeResolver) (row : CoverageRow F) : String := (identify resolve row.heardKey).1

def nodeName (resolve : Option NodeResolver) (row : CoverageRow F) : String := (identify resolve row.heardKey).2

def newNode (row : CoverageRow F) : CovNodeAgg F where
  count := 0
  latestAt := ""
  latestSNR := none
  name := ""
  nameKeyLen := 0
  heardPrefix := row.heardKey

def CovNodeAgg.add (resolve : Option NodeResolver) (na : CovNodeAgg F) (row : CoverageRow F) : CovNodeAgg F :=
  let name := nodeName resolve row
  let len := row.heardKey.utf8ByteSize
  let na :=
    if name ≠ "" ∧ (na.name = "" ∨ na.nameKeyLen < len ∨ len = na.nameKeyLen ∧ name < na.name) then
      { na with name, nameKeyLen := len } else na
  let na :=
    if na.heardPrefix.utf8ByteSize < len ∨ len = na.heardPrefix.utf8ByteSize ∧ row.heardKey < na.heardPrefix then
      { na with heardPrefix := row.heardKey } else na
  let na := { na with count := na.count + 1 }
  if na.latestAt ≤ row.rxAt then { na with latestAt := row.rxAt, latestSNR := row.snr } else na

def better (best snr : Option F) : Option F :=
  match snr, best with
  | none, best => best
  | some v, none => some v
  | some v, some b => if b < v then some v else some b

def newCell (_ : CoverageRow F) : CovAgg F := { count := 0, bestSNR := none, hasSig := false, nodes := [] }

def CovAgg.add (resolve : Option NodeResolver) (a : CovAgg F) (row : CoverageRow F) : CovAgg F where
  count := a.count + 1
  bestSNR := better a.bestSNR row.snr
  hasSig := a.hasSig || row.snr.isSome
  nodes := if row.heardKey ≠ "" then tally (nodeKey resolve) newNode (CovNodeAgg.add resolve) a.nodes row else a.nodes

def CovNodeAgg.node (na : CovNodeAgg F) : CoverageNode F where
  heardPrefix := na.heardPrefix
  name := na.name
  snr := na.latestSNR
  count := na.count

def level (snr : Option F) : WithBot F := snr

/-- The stronger signal first, then the greater count, then the prefix. -/
def CoverageNode.rank (n : CoverageNode F) : (WithBot F)ᵒᵈ ×ₗ ℕᵒᵈ ×ₗ String :=
  toLex (OrderDual.toDual (level n.snr), toLex (OrderDual.toDual n.count, n.heardPrefix))

def CoverageFeature.density (f : CoverageFeature F) : ℕᵒᵈ ×ₗ String := toLex (OrderDual.toDual f.count, f.cell)

/-- What a run leaves open: the order in which a range visits a map, and the place of equals after a sort. -/
structure Run (F : Type) [LinearOrder F] where
  range : RangeOrder
  sortNodes : SliceSort (CoverageNode.rank (F := F))
  sortDense : SliceSort (CoverageFeature.density (F := F))
  sortCells : SliceSort (CoverageFeature.cell (F := F))

def Run.insertion (F : Type) [LinearOrder F] : Run F where
  range := .listed
  sortNodes := .insertion _
  sortDense := .insertion _
  sortCells := .insertion _

variable (geo : Geometry F) (run : Run F) (rows : List (CoverageRow F)) (res : Int64) (resolve : Option NodeResolver)

def cellOf (row : CoverageRow F) : String := hexCellAt geo row.lat row.lon res

def sortedCoverageNodes (m : List (String × CovNodeAgg F)) : List (CoverageNode F) × Bool :=
  let out := run.sortNodes.sort ((run.range.order m).map fun p => p.2.node)
  if coverageCellNodeCap < out.length then (out.take coverageCellNodeCap, true) else (out, false)

def byCell : List (String × CovAgg F) := tallies (cellOf geo res) newCell (CovAgg.add resolve) rows

def feature (p : String × CovAgg F) (ring : List (F × F)) : CoverageFeature F where
  ring := ring
  cell := p.1
  count := p.2.count
  bestSNR := p.2.bestSNR
  hasSig := p.2.hasSig
  nodes := (sortedCoverageNodes run p.2.nodes).1
  nodesTruncated := (sortedCoverageNodes run p.2.nodes).2

def aggregateCoverage : CoverageFeatureCollection F :=
  let features := (run.range.order (byCell geo rows res resolve)).filterMap fun p =>
    (hexBoundary geo p.1).map (feature run p)
  if coverageFeatureCap < features.length then
    { features := run.sortCells.sort ((run.sortDense.sort features).take coverageFeatureCap), truncated := true }
  else { features := run.sortCells.sort features, truncated := false }

end Code

variable {F : Type} {resolve : Option NodeResolver} {g g' : List (CoverageRow F)}
  {na na' : CovNodeAgg F} {r : CoverageRow F}

def specific (len : Nat) (text : String) : ℕᵒᵈ ×ₗ String := toLex (OrderDual.toDual len, text)

theorem specific_lt {len len' : Nat} {text text' : String} :
    specific len text < specific len' text' ↔ len' < len ∨ len = len' ∧ text < text' := by
  rw [specific, specific, Prod.Lex.toLex_lt_toLex]
  exact Iff.rfl

structure Summarises (resolve : Option NodeResolver) (g : List (CoverageRow F)) (na : CovNodeAgg F) : Prop where
  count : na.count = g.length
  prefix_mem : ∃ r ∈ g, r.heardKey = na.heardPrefix
  prefix_le : ∀ r ∈ g, specific na.heardPrefix.utf8ByteSize na.heardPrefix ≤ specific r.heardKey.utf8ByteSize r.heardKey
  name_mem : na.name ≠ "" → ∃ r ∈ g, nodeName resolve r = na.name ∧ r.heardKey.utf8ByteSize = na.nameKeyLen
  name_le : ∀ r ∈ g, nodeName resolve r ≠ "" →
    na.name ≠ "" ∧ specific na.nameKeyLen na.name ≤ specific r.heardKey.utf8ByteSize (nodeName resolve r)
  latest_mem : ∃ r ∈ g, r.rxAt = na.latestAt ∧ r.snr = na.latestSNR
  latest_ge : ∀ r ∈ g, r.rxAt ≤ na.latestAt

section Fields

variable (resolve) (na) (r)

theorem add_count : (na.add resolve r).count = na.count + 1 := by
  rw [CovNodeAgg.add]
  split_ifs <;> rfl

theorem add_heardPrefix : (na.add resolve r).heardPrefix =
    if specific r.heardKey.utf8ByteSize r.heardKey < specific na.heardPrefix.utf8ByteSize na.heardPrefix then r.heardKey
    else na.heardPrefix := by
  simp only [CovNodeAgg.add, specific_lt]
  split_ifs <;> rfl

theorem add_name : ((na.add resolve r).name, (na.add resolve r).nameKeyLen) =
    if nodeName resolve r ≠ "" ∧ (na.name = "" ∨
        specific r.heardKey.utf8ByteSize (nodeName resolve r) < specific na.nameKeyLen na.name) then
      (nodeName resolve r, r.heardKey.utf8ByteSize)
    else (na.name, na.nameKeyLen) := by
  simp only [CovNodeAgg.add, specific_lt]
  split_ifs <;> rfl

theorem add_latest : ((na.add resolve r).latestAt, (na.add resolve r).latestSNR) =
    if na.latestAt ≤ r.rxAt then (r.rxAt, r.snr) else (na.latestAt, na.latestSNR) := by
  simp only [CovNodeAgg.add]
  split_ifs <;> rfl

end Fields

theorem empty_le (s : String) : "" ≤ s := by
  rw [String.le_iff_toList_le]
  exact not_lt.mp (List.not_lt_nil _)

theorem Summarises.first (r : CoverageRow F) : Summarises resolve [r] ((newNode r).add resolve r) := by
  have hheard : ((newNode r).add resolve r).heardPrefix = r.heardKey := by
    rw [add_heardPrefix, newNode, ite_self]
  have hlatest := add_latest resolve (newNode r) r
  rw [if_pos (show (newNode r).latestAt ≤ r.rxAt from empty_le r.rxAt)] at hlatest
  obtain ⟨hat, hsnr⟩ := Prod.ext_iff.mp hlatest
  have hname := add_name resolve (newNode r) r
  refine ⟨?_, ⟨r, List.mem_singleton_self r, hheard.symm⟩, ?_, ?_, ?_,
    ⟨r, List.mem_singleton_self r, hat.symm, hsnr.symm⟩, ?_⟩
  · rw [add_count]
    rfl
  · intro r' hr'
    rw [List.mem_singleton.mp hr', hheard]
  · intro hne
    split_ifs at hname with hnew
    · obtain ⟨hname, hlen⟩ := Prod.ext_iff.mp hname
      exact ⟨r, List.mem_singleton_self r, hname.symm, hlen.symm⟩
    · exact absurd (Prod.ext_iff.mp hname).1 hne
  · intro r' hr' hne
    rw [List.mem_singleton.mp hr'] at hne ⊢
    rw [if_pos ⟨hne, .inl rfl⟩] at hname
    obtain ⟨hname, hlen⟩ := Prod.ext_iff.mp hname
    dsimp only at hname hlen
    rw [hname, hlen]
    exact ⟨hne, le_rfl⟩
  · intro r' hr'
    rw [List.mem_singleton.mp hr']
    exact hat.ge

theorem Summarises.concat (h : Summarises resolve g na) (r : CoverageRow F) :
    Summarises resolve (g ++ [r]) (na.add resolve r) := by
  have hin : r ∈ g ++ [r] := List.mem_append_right g (List.mem_singleton_self r)
  have hold : ∀ r' ∈ g, r' ∈ g ++ [r] := fun r' hr' => List.mem_append_left _ hr'
  have hcases : ∀ {P : CoverageRow F → Prop}, (∀ r' ∈ g, P r') → P r → ∀ r' ∈ g ++ [r], P r' := by
    intro P hg hr
    exact List.forall_mem_append.mpr ⟨hg, List.forall_mem_singleton.mpr hr⟩
  have hheard := add_heardPrefix resolve na r
  have hname := add_name resolve na r
  have hlatest := add_latest resolve na r
  refine ⟨?_, ?_, ?_, ?_, ?_, ?_, ?_⟩
  · rw [add_count, h.count, List.length_append, List.length_singleton]
  · rw [hheard]
    split_ifs
    · exact ⟨r, hin, rfl⟩
    · obtain ⟨r', hr', heq⟩ := h.prefix_mem
      exact ⟨r', hold r' hr', heq⟩
  · rw [hheard]
    split_ifs with hnew
    · exact hcases (fun r' hr' => hnew.le.trans (h.prefix_le r' hr')) le_rfl
    · exact hcases h.prefix_le (not_lt.mp hnew)
  · intro hne
    split_ifs at hname with hnew
    · obtain ⟨hname, hlen⟩ := Prod.ext_iff.mp hname
      exact ⟨r, hin, hname.symm, hlen.symm⟩
    · obtain ⟨hname, hlen⟩ := Prod.ext_iff.mp hname
      dsimp only at hname hlen
      rw [hname] at hne
      obtain ⟨r', hr', heq, hsize⟩ := h.name_mem hne
      exact ⟨r', hold r' hr', heq.trans hname.symm, hsize.trans hlen.symm⟩
  · split_ifs at hname with hnew
    · obtain ⟨hname, hlen⟩ := Prod.ext_iff.mp hname
      dsimp only at hname hlen
      rw [hname, hlen]
      apply hcases
      · intro r' hr' hne
        obtain ⟨hna, hle⟩ := h.name_le r' hr' hne
        rcases hnew.2 with hnone | hlt
        · exact absurd hnone hna
        · exact ⟨hnew.1, hlt.le.trans hle⟩
      · exact fun _ => ⟨hnew.1, le_rfl⟩
    · obtain ⟨hname, hlen⟩ := Prod.ext_iff.mp hname
      dsimp only at hname hlen
      rw [hname, hlen]
      apply hcases h.name_le
      intro hne
      have hnot := not_or.mp fun hor => hnew ⟨hne, hor⟩
      exact ⟨hnot.1, not_lt.mp hnot.2⟩
  · split_ifs at hlatest with hnew
    · obtain ⟨hat, hsnr⟩ := Prod.ext_iff.mp hlatest
      exact ⟨r, hin, hat.symm, hsnr.symm⟩
    · obtain ⟨hat, hsnr⟩ := Prod.ext_iff.mp hlatest
      obtain ⟨r', hr', hat', hsnr'⟩ := h.latest_mem
      exact ⟨r', hold r' hr', hat'.trans hat.symm, hsnr'.trans hsnr.symm⟩
  · split_ifs at hlatest with hnew
    · obtain ⟨hat, -⟩ := Prod.ext_iff.mp hlatest
      dsimp only at hat
      rw [hat]
      exact hcases (fun r' hr' => (h.latest_ge r' hr').trans hnew) le_rfl
    · obtain ⟨hat, -⟩ := Prod.ext_iff.mp hlatest
      dsimp only at hat
      rw [hat]
      exact hcases h.latest_ge (le_of_not_ge hnew)

theorem summarises_running (h : running newNode (CovNodeAgg.add resolve) g = some na) : Summarises resolve g na := by
  induction g using List.reverseRecOn generalizing na with
  | nil => cases h
  | append_singleton g r ih =>
      rw [running_concat, Option.some_inj] at h
      subst h
      cases hg : running newNode (CovNodeAgg.add resolve) g with
      | none =>
          rw [running_eq_none.mp hg]
          exact Summarises.first r
      | some na => exact (ih hg).concat r

theorem latestSNR_concat (hr : ∀ r' ∈ g, r'.rxAt ≤ r.rxAt)
    (h : running newNode (CovNodeAgg.add resolve) (g ++ [r]) = some na) : na.latestSNR = r.snr := by
  rw [running_concat, Option.some_inj] at h
  subst h
  have hle : ((running newNode (CovNodeAgg.add resolve) g).getD (newNode r)).latestAt ≤ r.rxAt := by
    cases hg : running newNode (CovNodeAgg.add resolve) g with
    | none => exact empty_le r.rxAt
    | some na =>
        obtain ⟨r', hr', hat, -⟩ := (summarises_running hg).latest_mem
        rw [Option.getD_some, ← hat]
        exact hr r' hr'
  have hlatest := add_latest resolve ((running newNode (CovNodeAgg.add resolve) g).getD (newNode r)) r
  rw [if_pos hle] at hlatest
  exact (Prod.ext_iff.mp hlatest).2

def Torn (g : List (CoverageRow F)) : Prop :=
  ∃ r ∈ g, ∃ r' ∈ g, (∀ q ∈ g, q.rxAt ≤ r.rxAt) ∧ (∀ q ∈ g, q.rxAt ≤ r'.rxAt) ∧ r.snr ≠ r'.snr

theorem Summarises.perm (h : Summarises resolve g na) (hp : g.Perm g') : Summarises resolve g' na where
  count := h.count.trans hp.length_eq
  prefix_mem := by
    obtain ⟨r, hr, heq⟩ := h.prefix_mem
    exact ⟨r, hp.mem_iff.mp hr, heq⟩
  prefix_le := fun r hr => h.prefix_le r (hp.mem_iff.mpr hr)
  name_mem := by
    intro hne
    obtain ⟨r, hr, heq⟩ := h.name_mem hne
    exact ⟨r, hp.mem_iff.mp hr, heq⟩
  name_le := fun r hr => h.name_le r (hp.mem_iff.mpr hr)
  latest_mem := by
    obtain ⟨r, hr, heq⟩ := h.latest_mem
    exact ⟨r, hp.mem_iff.mp hr, heq⟩
  latest_ge := fun r hr => h.latest_ge r (hp.mem_iff.mpr hr)

section SameRows

variable (h : Summarises resolve g na) (h' : Summarises resolve g' na') (hmem : ∀ r, r ∈ g ↔ r ∈ g')

include h h' hmem

theorem heardPrefix_eq : na.heardPrefix = na'.heardPrefix := by
  obtain ⟨r, hr, heq⟩ := h.prefix_mem
  obtain ⟨r', hr', heq'⟩ := h'.prefix_mem
  have hle := h.prefix_le r' ((hmem r').mpr hr')
  have hge := h'.prefix_le r ((hmem r).mp hr)
  rw [heq'] at hle
  rw [heq] at hge
  exact congrArg (fun k => (ofLex k).2) (le_antisymm hle hge)

theorem name_eq : na.name = na'.name := by
  by_cases hne : na.name = ""
  · by_cases hne' : na'.name = ""
    · rw [hne, hne']
    · obtain ⟨r', hr', heq', -⟩ := h'.name_mem hne'
      exact absurd hne (h.name_le r' ((hmem r').mpr hr') (heq' ▸ hne')).1
  · obtain ⟨r, hr, heq, hlen⟩ := h.name_mem hne
    obtain ⟨hne', hle'⟩ := h'.name_le r ((hmem r).mp hr) (heq ▸ hne)
    obtain ⟨r', hr', heq', hlen'⟩ := h'.name_mem hne'
    obtain ⟨-, hle⟩ := h.name_le r' ((hmem r').mpr hr') (heq' ▸ hne')
    rw [heq, hlen] at hle'
    rw [heq', hlen'] at hle
    exact congrArg (fun k => (ofLex k).2) (le_antisymm hle hle')

theorem latestSNR_eq (hwhole : ¬ Torn g) : na.latestSNR = na'.latestSNR := by
  obtain ⟨r, hr, hat, hsnr⟩ := h.latest_mem
  obtain ⟨r', hr', hat', hsnr'⟩ := h'.latest_mem
  rw [← hsnr, ← hsnr']
  by_contra hne
  apply hwhole
  refine ⟨r, hr, r', (hmem r').mpr hr', fun q hq => ?_, fun q hq => ?_, hne⟩
  · rw [hat]
    exact h.latest_ge q hq
  · rw [hat']
    exact h'.latest_ge q ((hmem q).mp hq)

end SameRows

theorem torn_iff_of_mem (hmem : ∀ r, r ∈ g ↔ r ∈ g') : Torn g ↔ Torn g' := by
  simp only [Torn, hmem]

def Entry (resolve : Option NodeResolver) (g : List (CoverageRow F)) (n : CoverageNode F) : Prop :=
  ∃ na, Summarises resolve g na ∧ na.node = n

theorem Entry.perm {n : CoverageNode F} (h : Entry resolve g n) (hp : g.Perm g') : Entry resolve g' n := by
  obtain ⟨na, hna, hn⟩ := h
  exact ⟨na, hna.perm hp, hn⟩

theorem entry_unique {n n' : CoverageNode F} (h : Entry resolve g n) (h' : Entry resolve g' n') (hp : g.Perm g')
    (hwhole : ¬ Torn g) : n = n' := by
  obtain ⟨na, hna, rfl⟩ := h
  obtain ⟨na', hna', rfl⟩ := h'
  have hmem : ∀ r, r ∈ g ↔ r ∈ g' := fun r => hp.mem_iff
  rw [CovNodeAgg.node, CovNodeAgg.node, heardPrefix_eq hna hna' hmem, name_eq hna hna' hmem,
    latestSNR_eq hna hna' hmem hwhole, hna.count, hna'.count, hp.length_eq]

section Cell

variable [LinearOrder F] {a : CovAgg F} {geo : Geometry F} {res : Int64} {rows rows' : List (CoverageRow F)}
  {cell key : String} {run run' : Run F}

def heard (g : List (CoverageRow F)) : List (CoverageRow F) := g.filter fun r => r.heardKey ≠ ""

structure IsBest (best : Option F) (g : List (CoverageRow F)) : Prop where
  mem : ∀ v, best = some v → ∃ r ∈ g, r.snr = some v
  ge : ∀ r ∈ g, ∀ v, r.snr = some v → ∃ b, best = some b ∧ v ≤ b

theorem IsBest.concat {best : Option F} (h : IsBest best g) (r : CoverageRow F) :
    IsBest (better best r.snr) (g ++ [r]) := by
  have hin : r ∈ g ++ [r] := List.mem_append_right g (List.mem_singleton_self r)
  have hold : ∀ v, best = some v → ∃ r' ∈ g ++ [r], r'.snr = some v := by
    intro v hv
    obtain ⟨r', hr', heq⟩ := h.mem v hv
    exact ⟨r', List.mem_append_left _ hr', heq⟩
  cases hsnr : r.snr with
  | none =>
      refine ⟨hold, List.forall_mem_append.mpr ⟨h.ge, List.forall_mem_singleton.mpr ?_⟩⟩
      intro v hv
      rw [hsnr] at hv
      cases hv
  | some v =>
      have hlast : ∀ b, v ≤ b → ∀ w, r.snr = some w → ∃ b', some b = some b' ∧ w ≤ b' := by
        intro b hle w hw
        rw [hsnr, Option.some_inj] at hw
        exact ⟨b, rfl, hw ▸ hle⟩
      cases hbest : best with
      | none =>
          refine ⟨fun w hw => ⟨r, hin, hsnr.trans hw⟩, List.forall_mem_append.mpr ⟨fun r' hr' w hw => ?_, ?_⟩⟩
          · obtain ⟨b, hb, -⟩ := h.ge r' hr' w hw
            rw [hbest] at hb
            cases hb
          · exact List.forall_mem_singleton.mpr (hlast v le_rfl)
      | some b =>
          rw [better]
          split_ifs with hlt
          · refine ⟨fun w hw => ⟨r, hin, hsnr.trans hw⟩, List.forall_mem_append.mpr ⟨fun r' hr' w hw => ?_, ?_⟩⟩
            · obtain ⟨b', hb, hle⟩ := h.ge r' hr' w hw
              rw [hbest, Option.some_inj] at hb
              exact ⟨v, rfl, hle.trans (hb ▸ hlt.le)⟩
            · exact List.forall_mem_singleton.mpr (hlast v le_rfl)
          · refine ⟨fun w hw => hold w (hbest.trans hw), List.forall_mem_append.mpr ⟨fun r' hr' w hw => ?_, ?_⟩⟩
            · obtain ⟨b', hb, hle⟩ := h.ge r' hr' w hw
              exact ⟨b', hbest.symm.trans hb, hle⟩
            · exact List.forall_mem_singleton.mpr (hlast b (not_lt.mp hlt))

theorem IsBest.eq {best best' : Option F} (h : IsBest best g) (h' : IsBest best' g') (hmem : ∀ r, r ∈ g ↔ r ∈ g') :
    best = best' := by
  have hle : ∀ {best best' : Option F} {g g' : List (CoverageRow F)}, IsBest best g → IsBest best' g' →
      (∀ r, r ∈ g → r ∈ g') → ∀ v, best = some v → ∃ w, best' = some w ∧ v ≤ w := by
    intro best best' g g' h h' hmem v hv
    obtain ⟨r, hr, hsnr⟩ := h.mem v hv
    exact h'.ge r (hmem r hr) v hsnr
  have hto := hle h h' fun r => (hmem r).mp
  have hfrom := hle h' h fun r => (hmem r).mpr
  cases hbest : best with
  | none =>
      cases hbest' : best' with
      | none => rfl
      | some w =>
          obtain ⟨v, hv, -⟩ := hfrom w hbest'
          rw [hbest] at hv
          cases hv
  | some v =>
      obtain ⟨w, hw, hvw⟩ := hto v hbest
      obtain ⟨v', hv', hwv⟩ := hfrom w hw
      rw [hbest, Option.some_inj] at hv'
      subst hv'
      rw [hw, le_antisymm hvw hwv]

structure Gathers (resolve : Option NodeResolver) (g : List (CoverageRow F)) (a : CovAgg F) : Prop where
  count : a.count = g.length
  best : IsBest a.bestSNR g
  sig : a.hasSig = g.any fun r => r.snr.isSome
  nodes : a.nodes = tallies (nodeKey resolve) newNode (CovNodeAgg.add resolve) (heard g)

theorem Gathers.start (r : CoverageRow F) : Gathers resolve [] (newCell r) where
  count := rfl
  best := ⟨fun _ hv => absurd hv.symm (Option.some_ne_none _), fun _ hr => absurd hr List.not_mem_nil⟩
  sig := rfl
  nodes := rfl

theorem Gathers.concat (h : Gathers resolve g a) (r : CoverageRow F) :
    Gathers resolve (g ++ [r]) (a.add resolve r) where
  count := by rw [CovAgg.add, h.count, List.length_append, List.length_singleton]
  best := h.best.concat r
  sig := by rw [CovAgg.add, h.sig, List.any_append, List.any_cons, List.any_nil, Bool.or_false]
  nodes := by
    rw [CovAgg.add, heard, List.filter_append, List.filter_singleton, h.nodes]
    by_cases hkey : r.heardKey = ""
    · rw [if_neg (not_not.mpr hkey), decide_eq_false (not_not.mpr hkey), cond_false, List.append_nil]
      rfl
    · rw [if_pos hkey, decide_eq_true hkey, cond_true, tallies_concat]
      rfl

theorem gathers_running (h : running newCell (CovAgg.add resolve) g = some a) : Gathers resolve g a := by
  induction g using List.reverseRecOn generalizing a with
  | nil => cases h
  | append_singleton g r ih =>
      rw [running_concat, Option.some_inj] at h
      subst h
      cases hg : running newCell (CovAgg.add resolve) g with
      | none =>
          rw [running_eq_none.mp hg]
          exact (Gathers.start r).concat r
      | some a => exact (ih hg).concat r

def keyOf (resolve : Option NodeResolver) (n : CoverageNode F) : String := (identify resolve n.heardPrefix).1

def nodeKeys (resolve : Option NodeResolver) (g : List (CoverageRow F)) : List String :=
  ((heard g).map (nodeKey resolve)).dedup

def nodeRows (resolve : Option NodeResolver) (g : List (CoverageRow F)) (key : String) : List (CoverageRow F) :=
  group (nodeKey resolve) (heard g) key

def cellNodes (run : Run F) (resolve : Option NodeResolver) (g : List (CoverageRow F)) : List (CoverageNode F) :=
  run.sortNodes.sort ((run.range.order (tallies (nodeKey resolve) newNode (CovNodeAgg.add resolve) (heard g))).map
    fun p => p.2.node)

theorem sortedCoverageNodes_tallies :
    sortedCoverageNodes run (tallies (nodeKey resolve) newNode (CovNodeAgg.add resolve) (heard g)) =
      ((cellNodes run resolve g).take coverageCellNodeCap,
        decide (coverageCellNodeCap < (cellNodes run resolve g).length)) := by
  rw [sortedCoverageNodes]
  split_ifs with hlen
  · exact Prod.ext rfl (decide_eq_true hlen).symm
  · exact Prod.ext (List.take_of_length_le (not_lt.mp hlen)).symm (decide_eq_false hlen).symm

theorem cellNodes_perm : (cellNodes run resolve g).Perm
    ((tallies (nodeKey resolve) newNode (CovNodeAgg.add resolve) (heard g)).map fun p => p.2.node) :=
  (run.sortNodes.perm _).trans ((run.range.perm _).map _)

omit [LinearOrder F] in
theorem keyOf_node (h : running newNode (CovNodeAgg.add resolve) (nodeRows resolve g key) = some na) :
    keyOf resolve na.node = key := by
  obtain ⟨r, hr, heq⟩ := (summarises_running h).prefix_mem
  rw [keyOf, CovNodeAgg.node, ← heq]
  exact (mem_group.mp hr).2

theorem mem_cellNodes {n : CoverageNode F} : n ∈ cellNodes run resolve g ↔
    ∃ na, running newNode (CovNodeAgg.add resolve) (nodeRows resolve g (keyOf resolve n)) = some na ∧ na.node = n := by
  rw [cellNodes_perm.mem_iff, List.mem_map]
  constructor
  · rintro ⟨⟨key, na⟩, hmem, rfl⟩
    have hrun := mem_tallies.mp hmem
    exact ⟨na, (keyOf_node hrun).symm ▸ hrun, rfl⟩
  · rintro ⟨na, hrun, hn⟩
    exact ⟨(keyOf resolve n, na), mem_tallies.mpr hrun, hn⟩

theorem entry_of_mem {n : CoverageNode F} (h : n ∈ cellNodes run resolve g) :
    Entry resolve (nodeRows resolve g (keyOf resolve n)) n := by
  obtain ⟨na, hna, hn⟩ := mem_cellNodes.mp h
  exact ⟨na, summarises_running hna, hn⟩

omit [LinearOrder F] in
theorem keyOf_entry {n : CoverageNode F} (h : Entry resolve (nodeRows resolve g key) n) : keyOf resolve n = key := by
  obtain ⟨na, hna, rfl⟩ := h
  obtain ⟨r, hr, heq⟩ := hna.prefix_mem
  rw [keyOf, CovNodeAgg.node, ← heq]
  exact (mem_group.mp hr).2

theorem exists_mem_of_entry (run : Run F) {n : CoverageNode F} (h : Entry resolve (nodeRows resolve g key) n) :
    ∃ m ∈ cellNodes run resolve g, keyOf resolve m = key := by
  obtain ⟨na, hna, -⟩ := h
  obtain ⟨r, hr, -⟩ := hna.prefix_mem
  cases hrun : running newNode (CovNodeAgg.add resolve) (nodeRows resolve g key) with
  | none => exact absurd hr (running_eq_none.mp hrun ▸ List.not_mem_nil)
  | some na' =>
      have hkey : keyOf resolve na'.node = key := keyOf_node hrun
      exact ⟨na'.node, mem_cellNodes.mpr ⟨na', hkey.symm ▸ hrun, rfl⟩, hkey⟩

theorem nodup_keyOf : ((cellNodes run resolve g).map (keyOf resolve)).Nodup := by
  rw [(cellNodes_perm.map _).nodup_iff, List.map_map]
  have heq : (tallies (nodeKey resolve) newNode (CovNodeAgg.add resolve) (heard g)).map
      (keyOf resolve ∘ fun p => p.2.node) =
        (tallies (nodeKey resolve) newNode (CovNodeAgg.add resolve) (heard g)).map Prod.fst := by
    apply List.map_congr_left
    intro p hp
    exact keyOf_node (mem_tallies.mp hp)
  rw [heq]
  exact nodup_tallies _

theorem pairwise_cellNodes : (cellNodes run resolve g).Pairwise fun n n' => n.rank < n'.rank := by
  have hasc : Ascending CoverageNode.rank (cellNodes run resolve g) := run.sortNodes.ascending _
  apply (hasc.and (List.pairwise_map.mp nodup_keyOf)).imp
  rintro n n' ⟨hle, hne⟩
  apply lt_of_le_of_ne hle
  intro heq
  have hheard : n.heardPrefix = n'.heardPrefix := congrArg (fun k => (ofLex (ofLex k).2).2) heq
  exact hne (by rw [keyOf, keyOf, hheard])

theorem length_cellNodes : (cellNodes run resolve g).length = (nodeKeys resolve g).length := by
  rw [cellNodes_perm.length_eq, List.length_map, nodeKeys, ← (keys_tallies_perm (heard g)).length_eq, List.length_map]

omit [LinearOrder F] in
theorem nodeRows_perm (hp : g.Perm g') (key : String) : (nodeRows resolve g key).Perm (nodeRows resolve g' key) :=
  (hp.filter _).filter _

/-- Before every entry that a torn node of the cell may have there are as many others as are shown, none of them
of a torn node. -/
def Settled (resolve : Option NodeResolver) (g : List (CoverageRow F)) : Prop :=
  ∀ key n, Torn (nodeRows resolve g key) → Entry resolve (nodeRows resolve g key) n →
    ∃ before : List (CoverageNode F), before.Nodup ∧ before.length = coverageCellNodeCap ∧
      ∀ m ∈ before, m.rank < n.rank ∧
        ∃ key', ¬ Torn (nodeRows resolve g key') ∧ Entry resolve (nodeRows resolve g key') m

theorem mem_of_entry {n : CoverageNode F} (h : Entry resolve (nodeRows resolve g key) n)
    (hwhole : ¬ Torn (nodeRows resolve g key)) : n ∈ cellNodes run resolve g := by
  obtain ⟨m, hm, hkey⟩ := exists_mem_of_entry run h
  have hentry := entry_of_mem hm
  rw [hkey] at hentry
  rwa [entry_unique h hentry (.refl _) hwhole]

open Classical in
theorem take_cellNodes (h : Settled resolve g) :
    (cellNodes run resolve g).take coverageCellNodeCap =
      ((cellNodes run resolve g).filter fun n => ¬ Torn (nodeRows resolve g (keyOf resolve n))).take
        coverageCellNodeCap := by
  apply take_eq_take_filter pairwise_cellNodes
  intro n hn htorn
  obtain ⟨before, hnodup, hlen, hbefore⟩ := h (keyOf resolve n) n (by simpa using htorn) (entry_of_mem hn)
  rw [← hlen, List.countP_eq_length_filter]
  apply (List.subperm_of_subset hnodup ?_).length_le
  intro m hm
  obtain ⟨hlt, key', hwhole, hentry⟩ := hbefore m hm
  have hkey := keyOf_entry hentry
  apply List.mem_filter.mpr
  refine ⟨mem_of_entry hentry hwhole, ?_⟩
  rw [hkey]
  simp [hwhole, hlt]

theorem Settled.perm (h : Settled resolve g) (hp : g.Perm g') : Settled resolve g' := by
  have htorn : ∀ key, Torn (nodeRows resolve g key) ↔ Torn (nodeRows resolve g' key) :=
    fun key => torn_iff_of_mem fun r => (nodeRows_perm hp key).mem_iff
  intro key n hn hentry
  obtain ⟨before, hnodup, hlen, hbefore⟩ := h key n ((htorn key).mpr hn) (hentry.perm (nodeRows_perm hp key).symm)
  refine ⟨before, hnodup, hlen, fun m hm => ?_⟩
  obtain ⟨hlt, key', hwhole, hm⟩ := hbefore m hm
  exact ⟨hlt, key', mt (htorn key').mpr hwhole, hm.perm (nodeRows_perm hp key')⟩

open Classical in
theorem mem_filter_whole {n : CoverageNode F} :
    n ∈ (cellNodes run resolve g).filter (fun n => ¬ Torn (nodeRows resolve g (keyOf resolve n))) ↔
      Entry resolve (nodeRows resolve g (keyOf resolve n)) n ∧ ¬ Torn (nodeRows resolve g (keyOf resolve n)) := by
  rw [List.mem_filter, decide_eq_true_iff]
  exact ⟨fun h => ⟨entry_of_mem h.1, h.2⟩, fun h => ⟨mem_of_entry h.1 h.2, h.2⟩⟩

open Classical in
theorem take_cellNodes_perm (h : Settled resolve g) (hp : g.Perm g') :
    (cellNodes run resolve g).take coverageCellNodeCap = (cellNodes run' resolve g').take coverageCellNodeCap := by
  have hstrict : ∀ (run : Run F) (g : List (CoverageRow F)) (p : CoverageNode F → Bool),
      ((cellNodes run resolve g).filter p).Pairwise fun n n' => n.rank < n'.rank :=
    fun run g p => pairwise_cellNodes.sublist List.filter_sublist
  have hnodup : ∀ (run : Run F) (g : List (CoverageRow F)) (p : CoverageNode F → Bool),
      ((cellNodes run resolve g).filter p).Nodup :=
    fun run g p => nodup_of_lt (hstrict run g p)
  rw [take_cellNodes h, take_cellNodes (h.perm hp)]
  congr 1
  apply List.Perm.eq_of_pairwise (fun _ _ _ _ hlt hgt => absurd hgt (lt_asymm hlt)) (hstrict _ _ _) (hstrict _ _ _)
  rw [List.perm_ext_iff_of_nodup (hnodup _ _ _) (hnodup _ _ _)]
  intro n
  rw [mem_filter_whole, mem_filter_whole]
  have hrows : (nodeRows resolve g (keyOf resolve n)).Perm (nodeRows resolve g' (keyOf resolve n)) := nodeRows_perm hp _
  have htorn := torn_iff_of_mem fun r => @List.Perm.mem_iff _ r _ _ hrows
  rw [htorn]
  exact and_congr_left fun _ => ⟨fun hn => hn.perm hrows, fun hn => hn.perm hrows.symm⟩

omit [LinearOrder F] in
theorem nodeRows_concat (hkey : r.heardKey ≠ "") (g : List (CoverageRow F)) :
    nodeRows resolve (g ++ [r]) (nodeKey resolve r) = nodeRows resolve g (nodeKey resolve r) ++ [r] := by
  rw [nodeRows, heard, List.filter_append, List.filter_singleton, decide_eq_true hkey, cond_true, group_concat,
    if_pos rfl]
  rfl

theorem exists_last (run : Run F) (hr : r ∈ nodeRows resolve g key)
    (hlatest : ∀ q ∈ nodeRows resolve g key, q.rxAt ≤ r.rxAt) :
    ∃ g', g'.Perm g ∧ ∀ m ∈ cellNodes run resolve g', keyOf resolve m = key → m.snr = r.snr := by
  obtain ⟨hheard, rfl⟩ := mem_group.mp hr
  obtain ⟨hin, hkey⟩ := List.mem_filter.mp hheard
  obtain ⟨l₁, l₂, rfl⟩ := List.append_of_mem hin
  have hperm : (l₁ ++ l₂ ++ [r]).Perm (l₁ ++ r :: l₂) := by
    rw [List.append_assoc]
    exact (List.perm_append_singleton r l₂).append_left l₁
  refine ⟨l₁ ++ l₂ ++ [r], hperm, fun m hm hkeym => ?_⟩
  obtain ⟨na, hna, rfl⟩ := mem_cellNodes.mp hm
  rw [hkeym, nodeRows_concat (of_decide_eq_true hkey)] at hna
  apply latestSNR_concat ?_ hna
  intro q hq
  apply hlatest q
  rw [← (nodeRows_perm hperm _).mem_iff, nodeRows_concat (of_decide_eq_true hkey)]
  exact List.mem_append_left _ hq

theorem whole_of_shown (h : ∀ g', g'.Perm g → (cellNodes run resolve g').take coverageCellNodeCap =
    (cellNodes run resolve g).take coverageCellNodeCap) {n : CoverageNode F}
    (hn : n ∈ (cellNodes run resolve g).take coverageCellNodeCap) : ¬ Torn (nodeRows resolve g (keyOf resolve n)) := by
  rintro ⟨r, hr, r', hr', hlatest, hlatest', hne⟩
  have hsnr : ∀ q ∈ nodeRows resolve g (keyOf resolve n),
      (∀ q' ∈ nodeRows resolve g (keyOf resolve n), q'.rxAt ≤ q.rxAt) → n.snr = q.snr := by
    intro q hq hlatest
    obtain ⟨g', hp, hlast⟩ := exists_last run hq hlatest
    rw [← h g' hp] at hn
    exact hlast n (List.mem_of_mem_take hn) rfl
  exact hne ((hsnr r hr hlatest).symm.trans (hsnr r' hr' hlatest'))

theorem settled_of_same (run : Run F) (h : ∀ g', g'.Perm g → (cellNodes run resolve g').take coverageCellNodeCap =
    (cellNodes run resolve g).take coverageCellNodeCap) : Settled resolve g := by
  intro key n htorn hentry
  obtain ⟨na, hna, rfl⟩ := hentry
  obtain ⟨r, hr, hat, hsnr⟩ := hna.latest_mem
  obtain ⟨g', hp, hlast⟩ := exists_last run hr fun q hq => hat ▸ hna.latest_ge q hq
  have hrows : ∀ key, (nodeRows resolve g' key).Perm (nodeRows resolve g key) := fun key => nodeRows_perm hp key
  have hentry' : Entry resolve (nodeRows resolve g' key) na.node := ⟨na, hna.perm (hrows key).symm, rfl⟩
  -- the entry that comes from the rows in the new order
  obtain ⟨m, hm, hkey⟩ := exists_mem_of_entry run hentry'
  have hmn : m = na.node := by
    have hmsnr : m.snr = r.snr := hlast m hm hkey
    obtain ⟨na', hna', rfl⟩ := entry_of_mem hm
    rw [hkey] at hna'
    have hmem : ∀ q, q ∈ nodeRows resolve g key ↔ q ∈ nodeRows resolve g' key := fun q => (hrows key).mem_iff.symm
    rw [CovNodeAgg.node, CovNodeAgg.node, heardPrefix_eq hna hna' hmem, name_eq hna hna' hmem, ← hsnr, ← hmsnr,
      hna.count, hna'.count, (hrows key).length_eq]
    rfl
  have hsame : ∀ g'', g''.Perm g' → (cellNodes run resolve g'').take coverageCellNodeCap =
      (cellNodes run resolve g').take coverageCellNodeCap := fun g'' hp' => (h g'' (hp'.trans hp)).trans (h g' hp).symm
  have hnot : m ∉ (cellNodes run resolve g').take coverageCellNodeCap := by
    intro hshown
    apply whole_of_shown hsame hshown
    rw [hkey]
    exact (torn_iff_of_mem fun r => (hrows key).mem_iff).mpr htorn
  have hdrop : m ∈ (cellNodes run resolve g').drop coverageCellNodeCap := by
    rw [← List.take_append_drop coverageCellNodeCap (cellNodes run resolve g')] at hm
    exact (List.mem_append.mp hm).resolve_left hnot
  have hstrict : (cellNodes run resolve g').Pairwise fun n n' => n.rank < n'.rank := pairwise_cellNodes
  refine ⟨(cellNodes run resolve g').take coverageCellNodeCap, ?_, ?_, fun q hq => ⟨?_, ?_⟩⟩
  · exact nodup_of_lt (hstrict.sublist (List.take_sublist _ _))
  · rw [List.length_take]
    apply min_eq_left
    by_contra hshort
    rw [List.drop_eq_nil_of_le (le_of_not_ge hshort)] at hdrop
    cases hdrop
  · rw [← List.take_append_drop coverageCellNodeCap (cellNodes run resolve g')] at hstrict
    rw [← hmn]
    exact (List.pairwise_append.mp hstrict).2.2 q hq m hdrop
  · refine ⟨keyOf resolve q, ?_, (entry_of_mem (List.mem_of_mem_take hq)).perm (hrows _)⟩
    rw [← torn_iff_of_mem fun r => (hrows _).mem_iff]
    exact whole_of_shown hsame hq

end Cell

end MeshcoreAnalyzer.RxCoverage

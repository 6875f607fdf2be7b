import MeshcoreAnalyzer.PathCounts
import Mathlib.Algebra.BigOperators.Ring.Finset
import Mathlib.Algebra.BigOperators.Field
import Mathlib.Data.Set.Card
import Mathlib.Data.Set.Finite.Lattice
import Mathlib.Tactic.Ring

namespace MeshcoreAnalyzer.Dependencies

open PathCounts ShortestPaths

/-! On which part of the shortest paths from one node another node lies, by the recursion over their last edges. -/

variable {V K : Type} [Field K] [LinearOrder K]

def shortest (nbrs : V → List (V × K)) (src t : V) : Set (List V) :=
  {l | ∃ c, Simple nbrs src t l c ∧ ∀ l' c', Simple nbrs src t l' c' → c ≤ c'}

noncomputable def through (nbrs : V → List (V × K)) (src v t : V) : K := {l ∈ shortest nbrs src t | v ∈ l}.ncard

noncomputable def share (nbrs : V → List (V × K)) (src t v : V) : K :=
  through nbrs src v t / (shortest nbrs src t).ncard

section

variable {nbrs : V → List (V × K)} {src : V} {Q : Type} {s : Counting V K Q}

theorem mem_shortest (h : Counted nbrs src s) {t : V} {l : List V} :
    l ∈ shortest nbrs src t ↔ ∃ d, s.search.dist t = some d ∧ Simple nbrs src t l d := by
  constructor
  · rintro ⟨c, hl, hmin⟩
    obtain ⟨d, hd⟩ := h.reach t c hl.walk
    obtain ⟨l', hl'⟩ := h.simple t d hd
    have heq : c = d := le_antisymm (hmin l' d hl') (((h.least t d).mp hd).2 hl.walk)
    exact ⟨d, hd, heq ▸ hl⟩
  · rintro ⟨d, hd, hl⟩
    exact ⟨d, hl, fun l' c' hl' => ((h.least t d).mp hd).2 hl'.walk⟩

variable [IsStrictOrderedRing K] (hcost : ∀ v, ∀ e ∈ nbrs v, 0 < e.2)
include hcost

theorem shortest_source : shortest nbrs src src = {[src]} := by
  ext l
  rw [Set.mem_singleton_iff]
  constructor
  · rintro ⟨c, hl, _⟩
    cases hl with
    | nil => rfl
    | snoc hpath _ hnew => exact absurd (hpath.source_mem) hnew
  · rintro rfl
    refine ⟨0, .nil, fun l' c' hl' => ?_⟩
    rcases hl'.pos hcost with ⟨_, rfl⟩ | hpos
    · exact le_refl 0
    · exact le_of_lt hpos

theorem dist_source (h : Counted nbrs src s) : s.search.dist src = some 0 := by
  rw [h.least]
  refine ⟨.nil, fun c hc => ?_⟩
  obtain ⟨d, hd⟩ := h.reach src c hc
  obtain ⟨l, hl⟩ := h.simple src d hd
  have hle := ((h.least src d).mp hd).2 hc
  rcases hl.pos hcost with ⟨_, rfl⟩ | hpos
  · exact hle
  · exact (le_of_lt hpos).trans hle

theorem dist_pred (h : Counted nbrs src s) {t u : V} (hu : u ∈ s.pred t) :
    ∃ d d', s.search.dist u = some d ∧ s.search.dist t = some d' ∧ 0 ≤ d ∧ d < d' := by
  obtain ⟨c, hc, d, hd, hsum⟩ := (h.pred t u).mp hu
  obtain ⟨l, hl⟩ := h.simple u d hd
  refine ⟨d, d + c, hd, hsum, ?_, lt_add_of_pos_right d (hcost u _ hc)⟩
  rcases hl.pos hcost with ⟨_, rfl⟩ | hpos
  · exact le_refl 0
  · exact le_of_lt hpos

theorem pred_source (h : Counted nbrs src s) (u : V) : u ∉ s.pred src := by
  intro hu
  obtain ⟨d, d', _, hd', hnonneg, hlt⟩ := dist_pred hcost h hu
  rw [dist_source hcost h] at hd'
  cases hd'
  exact absurd hlt (not_lt.mpr hnonneg)

theorem mem_shortest_cons (h : Counted nbrs src s) {t : V} (ht : t ≠ src) {l : List V} :
    l ∈ shortest nbrs src t ↔ ∃ u ∈ s.pred t, ∃ l' ∈ shortest nbrs src u, l = t :: l' := by
  rw [mem_shortest h]
  constructor
  · rintro ⟨d, hd, hl⟩
    cases hl with
    | nil => exact absurd rfl ht
    | @snoc u _ l' c e hpath hedge hnew =>
        obtain ⟨c', hc'⟩ := h.reach u c hpath.walk
        have hle : c' ≤ c := ((h.least u c').mp hc').2 hpath.walk
        have hwalk : Walk nbrs src t (c' + e) := ((h.least u c').mp hc').1.snoc hedge
        have hge : c + e ≤ c' + e := ((h.least t _).mp hd).2 hwalk
        have heq : c' = c := le_antisymm hle (le_of_add_le_add_right hge)
        subst heq
        exact ⟨u, (h.pred t u).mpr ⟨e, hedge, c', hc', hd⟩, l', (mem_shortest h).mpr ⟨c', hc', hpath⟩, rfl⟩
  · rintro ⟨u, hu, l', hl', rfl⟩
    obtain ⟨e, hedge, c, hc, hsum⟩ := (h.pred t u).mp hu
    obtain ⟨c', hc', hpath⟩ := (mem_shortest h).mp hl'
    rw [hc] at hc'
    cases hc'
    have hnew : t ∉ l' := by
      intro hmem
      obtain ⟨d, hwalk, hle⟩ := hpath.prefix_walk (fun v e he => le_of_lt (hcost v e he)) hmem
      have hmin : c + e ≤ d := ((h.least t _).mp hsum).2 hwalk
      have hpos : 0 < e := hcost u (t, e) hedge
      linarith
    exact ⟨c + e, hsum, hpath.snoc hedge hnew⟩

theorem dist_le_of_mem (h : Counted nbrs src s) {t w : V} {l : List V} (hl : l ∈ shortest nbrs src t) (hw : w ∈ l) :
    ∃ d d', s.search.dist w = some d ∧ s.search.dist t = some d' ∧ d ≤ d' := by
  obtain ⟨d', hd', hpath⟩ := (mem_shortest h).mp hl
  obtain ⟨c, hwalk, hle⟩ := hpath.prefix_walk (fun v e he => le_of_lt (hcost v e he)) hw
  obtain ⟨d, hd⟩ := h.reach w c hwalk
  exact ⟨d, d', hd, hd', (((h.least w d).mp hd).2 hwalk).trans hle⟩

theorem before (h : Counted nbrs src s) {pre post : List V} {t : V} (hstack : s.stack = pre ++ t :: post) {u : V}
    (hu : u ∈ s.pred t) : u ∈ pre := by
  obtain ⟨d, d', hd, hd', _, hlt⟩ := dist_pred hcost h hu
  have hmem : u ∈ pre ++ t :: post := by
    rw [← hstack, h.mem_stack]
    exact ⟨d, hd⟩
  have hsorted := h.sorted
  rw [hstack, List.pairwise_append] at hsorted
  rcases List.mem_append.mp hmem with hmem | hmem
  · exact hmem
  · rcases List.mem_cons.mp hmem with rfl | hmem
    · rw [hd] at hd'
      cases hd'
      exact absurd hlt (lt_irrefl _)
    · have hle := (List.pairwise_cons.mp hsorted.2.1).1 u hmem d' d hd' hd
      exact absurd hlt (not_lt.mpr hle)

theorem stack_induction (h : Counted nbrs src s) {P : V → Prop} (hstep : ∀ t ∈ s.stack, (∀ u ∈ s.pred t, P u) → P t) :
    ∀ t ∈ s.stack, P t := by
  have hall : ∀ pre post, s.stack = pre ++ post → ∀ t ∈ pre, P t := by
    intro pre
    induction pre using List.reverseRecOn with
    | nil => exact fun _ _ t ht => absurd ht List.not_mem_nil
    | append_singleton pre w ih =>
        intro post hstack t ht
        rw [List.append_assoc, List.singleton_append] at hstack
        have hbelow := ih (w :: post) hstack
        rcases List.mem_append.mp ht with ht | ht
        · exact hbelow t ht
        · rw [List.mem_singleton.mp ht]
          apply hstep w
          · rw [hstack]
            simp
          · exact fun u hu => hbelow u (before hcost h hstack hu)
  exact fun t ht => hall s.stack [] (List.append_nil _).symm t ht

theorem finite_shortest (h : Counted nbrs src s) (t : V) : (shortest nbrs src t).Finite := by
  by_cases ht : t ∈ s.stack
  · revert t
    refine stack_induction hcost h (P := fun t => (shortest nbrs src t).Finite) fun t _ ih => ?_
    by_cases hsrc : t = src
    · rw [hsrc, shortest_source hcost]
      exact Set.finite_singleton _
    · have hunion : (⋃ u ∈ s.pred t, (fun l => t :: l) '' shortest nbrs src u).Finite :=
        (List.finite_toSet (s.pred t)).biUnion fun u hu => (ih u hu).image _
      apply hunion.subset
      intro l hl
      obtain ⟨u, hu, l', hl', rfl⟩ := (mem_shortest_cons hcost h hsrc).mp hl
      exact Set.mem_biUnion hu ⟨l', hl', rfl⟩
  · apply Set.finite_empty.subset
    intro l hl
    obtain ⟨d, hd, _⟩ := (mem_shortest h).mp hl
    exact ht ((h.mem_stack t).mpr ⟨d, hd⟩)

variable [DecidableEq V]

theorem ncard_cons (h : Counted nbrs src s) {t : V} (ht : t ≠ src) {p : List V → Prop} (hp : ∀ l, p (t :: l) ↔ p l) :
    {l ∈ shortest nbrs src t | p l}.ncard =
      ∑ u ∈ (s.pred t).toFinset, {l ∈ shortest nbrs src u | p l}.ncard := by
  have hfinite : ∀ u, {l ∈ shortest nbrs src u | p l}.Finite := fun u =>
    (finite_shortest hcost h u).subset (Set.sep_subset _ _)
  have hset : {l ∈ shortest nbrs src t | p l} =
      ↑((s.pred t).toFinset.biUnion fun u => (hfinite u).toFinset.image fun l => t :: l) := by
    ext l
    rw [Set.mem_sep_iff, Finset.mem_coe, Finset.mem_biUnion, mem_shortest_cons hcost h ht]
    constructor
    · rintro ⟨⟨u, hu, l', hl', rfl⟩, hpl⟩
      refine ⟨u, List.mem_toFinset.mpr hu, Finset.mem_image_of_mem _ ?_⟩
      exact (hfinite u).mem_toFinset.mpr ⟨hl', (hp l').mp hpl⟩
    · rintro ⟨u, hu, hl⟩
      obtain ⟨l', hl', rfl⟩ := Finset.mem_image.mp hl
      obtain ⟨hshort, hpl⟩ := (hfinite u).mem_toFinset.mp hl'
      exact ⟨⟨u, List.mem_toFinset.mp hu, l', hshort, rfl⟩, (hp l').mpr hpl⟩
  rw [hset, Set.ncard_coe_finset, Finset.card_biUnion]
  · apply Finset.sum_congr rfl
    intro u _
    rw [Finset.card_image_of_injective _ (List.cons_injective (a := t)), Set.ncard_eq_toFinset_card _ (hfinite u)]
  · -- the paths of two nodes end in them
    intro u _ w _ hne
    rw [Function.onFun, Finset.disjoint_left]
    intro l hlu hlw
    obtain ⟨l', hl', rfl⟩ := Finset.mem_image.mp hlu
    obtain ⟨l'', hl'', heq⟩ := Finset.mem_image.mp hlw
    obtain ⟨_, rfl⟩ := List.cons.inj heq
    obtain ⟨⟨c, hc, _⟩, _⟩ := (hfinite u).mem_toFinset.mp hl'
    obtain ⟨⟨c', hc', _⟩, _⟩ := (hfinite w).mem_toFinset.mp hl''
    have hhead := hc.head.symm.trans hc'.head
    exact hne (Option.some.inj hhead)

theorem sigma_eq (h : Counted nbrs src s) (t : V) : s.sigma t = ((shortest nbrs src t).ncard : K) := by
  have hall : ∀ t ∈ s.stack, s.sigma t = ((shortest nbrs src t).ncard : K) := by
    refine stack_induction hcost h fun t _ ih => ?_
    by_cases hsrc : t = src
    · rw [hsrc, shortest_source hcost, Set.ncard_singleton, h.source, Nat.cast_one]
    · have hcons := ncard_cons hcost h hsrc (p := fun _ => True) fun l => Iff.rfl
      simp only [and_true, Set.ofPred_mem_eq] at hcons
      rw [hcons, h.sigma t hsrc, Nat.cast_sum, List.sum_toFinset _ (h.nodup t)]
      congr 1
      exact List.map_congr_left ih
  by_cases ht : t ∈ s.stack
  · exact hall t ht
  · have hnone : ∀ d, s.search.dist t ≠ some d := fun d hd => ht ((h.mem_stack t).mpr ⟨d, hd⟩)
    have hsrc : t ≠ src := by
      rintro rfl
      exact hnone 0 (dist_source hcost h)
    have hpred : s.pred t = [] := by
      apply List.eq_nil_iff_forall_not_mem.mpr
      intro u hu
      obtain ⟨_, d', _, hd', _⟩ := dist_pred hcost h hu
      exact hnone d' hd'
    have hempty : shortest nbrs src t = ∅ := by
      apply Set.eq_empty_of_forall_notMem
      intro l hl
      obtain ⟨d, hd, _⟩ := (mem_shortest h).mp hl
      exact hnone d hd
    rw [h.sigma t hsrc, hpred, hempty, Set.ncard_empty]
    simp

theorem sigma_ne_zero (h : Counted nbrs src s) {t : V} (ht : t ∈ s.stack) : s.sigma t ≠ 0 := by
  obtain ⟨d, hd⟩ := (h.mem_stack t).mp ht
  obtain ⟨l, hl⟩ := h.simple t d hd
  have hmem : l ∈ shortest nbrs src t := (mem_shortest h).mpr ⟨d, hd, hl⟩
  rw [sigma_eq hcost h, Nat.cast_ne_zero]
  exact Set.ncard_ne_zero_of_mem hmem (finite_shortest hcost h t)

omit [DecidableEq V] [IsStrictOrderedRing K] hcost in
theorem through_eq_zero {v t : V} (hout : ∀ l ∈ shortest nbrs src t, v ∉ l) : through nbrs src v t = 0 := by
  have hempty : {l ∈ shortest nbrs src t | v ∈ l} = ∅ := by
    apply Set.eq_empty_of_forall_notMem
    rintro l ⟨hl, hmem⟩
    exact hout l hl hmem
  rw [through, hempty, Set.ncard_empty, Nat.cast_zero]

theorem through_self (h : Counted nbrs src s) (t : V) : through nbrs src t t = s.sigma t := by
  have hall : {l ∈ shortest nbrs src t | t ∈ l} = shortest nbrs src t := by
    ext l
    constructor
    · exact fun hl => hl.1
    · rintro ⟨c, hl, hmin⟩
      exact ⟨⟨c, hl, hmin⟩, hl.mem⟩
  rw [through, hall, sigma_eq hcost h]

omit [DecidableEq V] in
theorem through_source {v : V} (hv : v ≠ src) : through nbrs src v src = 0 := by
  apply through_eq_zero
  intro l hl
  rw [shortest_source hcost, Set.mem_singleton_iff] at hl
  rw [hl, List.mem_singleton]
  exact hv

omit [DecidableEq V] in
theorem through_pred (h : Counted nbrs src s) {t u : V} (hu : u ∈ s.pred t) : through nbrs src t u = 0 := by
  apply through_eq_zero
  intro l hl hmem
  obtain ⟨d, d', hd, hd', _, hlt⟩ := dist_pred hcost h hu
  obtain ⟨c, c', hc, hc', hle⟩ := dist_le_of_mem hcost h hl hmem
  rw [hd] at hc'
  rw [hd'] at hc
  cases hc
  cases hc'
  exact absurd hlt (not_lt.mpr hle)

theorem through_cons (h : Counted nbrs src s) {t : V} (ht : t ≠ src) (w : V) :
    through nbrs src w t = (∑ u ∈ (s.pred t).toFinset, through nbrs src w u) + if w = t then s.sigma t else 0 := by
  by_cases hw : w = t
  · subst hw
    have hzero : ∑ u ∈ (s.pred w).toFinset, through nbrs src w u = 0 := by
      apply Finset.sum_eq_zero
      intro u hu
      exact through_pred hcost h (List.mem_toFinset.mp hu)
    rw [hzero, zero_add, if_pos rfl, through_self hcost h]
  · have hcons := ncard_cons hcost h ht (p := fun l => w ∈ l) fun l => by simp [hw]
    rw [if_neg hw, add_zero, through, hcons, Nat.cast_sum]
    rfl

theorem through_eq (h : Counted nbrs src s) (v : V) : ∀ t ∈ s.stack, through nbrs src v t =
    (if t = v then s.sigma v else 0) +
      ∑ w ∈ s.stack.toFinset with v ∈ s.pred w, s.sigma v / s.sigma w * through nbrs src w t := by
  refine stack_induction hcost h fun t ht ih => ?_
  by_cases hsrc : t = src
  · subst hsrc
    have hzero : ∑ w ∈ s.stack.toFinset with v ∈ s.pred w, s.sigma v / s.sigma w * through nbrs t w t = 0 := by
      apply Finset.sum_eq_zero
      intro w hw
      have hne : w ≠ t := by
        rintro rfl
        exact pred_source hcost h v (Finset.mem_filter.mp hw).2
      rw [through_source hcost hne, mul_zero]
    rw [hzero, add_zero]
    by_cases hv : t = v
    · rw [if_pos hv, ← hv, through_self hcost h]
    · rw [if_neg hv, through_source hcost (Ne.symm hv)]
  · have hstep : ∑ u ∈ (s.pred t).toFinset, through nbrs src v u =
        (if v ∈ s.pred t then s.sigma v else 0) + ∑ w ∈ s.stack.toFinset with v ∈ s.pred w,
          s.sigma v / s.sigma w * ∑ u ∈ (s.pred t).toFinset, through nbrs src w u := by
      have hends : ∑ u ∈ (s.pred t).toFinset, (if u = v then s.sigma v else 0) =
          if v ∈ s.pred t then s.sigma v else 0 := by
        rw [Finset.sum_ite_eq']
        simp only [List.mem_toFinset]
      rw [← hends, Finset.sum_congr rfl fun u hu => ih u (List.mem_toFinset.mp hu), Finset.sum_add_distrib,
        Finset.sum_comm]
      simp only [Finset.mul_sum]
    have hlast : ∑ w ∈ s.stack.toFinset with v ∈ s.pred w, s.sigma v / s.sigma w * (if w = t then s.sigma t else 0) =
        if v ∈ s.pred t then s.sigma v else 0 := by
      simp only [mul_ite, mul_zero]
      rw [Finset.sum_ite_eq']
      simp only [Finset.mem_filter, List.mem_toFinset, ht, true_and]
      split
      · rw [div_mul_cancel₀ _ (sigma_ne_zero hcost h ht)]
      · rfl
    have hcons := fun w => through_cons hcost h hsrc w
    simp only [hcons, mul_add, Finset.sum_add_distrib, hlast, hstep]
    by_cases hv : t = v
    · subst hv
      simp only [if_true]
      ring
    · rw [if_neg hv, if_neg (Ne.symm hv)]
      ring

noncomputable def dependency (nbrs : V → List (V × K)) (src : V) {Q : Type} (s : Counting V K Q) (v : V) : K :=
  ∑ t ∈ (s.stack.toFinset.erase src).erase v, through nbrs src v t / s.sigma t

theorem sum_through (h : Counted nbrs src s) {v w : V} (hw : w ∈ s.stack) (hv : v ∈ s.pred w) :
    ∑ t ∈ (s.stack.toFinset.erase src).erase v, through nbrs src w t / s.sigma t = 1 + dependency nbrs src s w := by
  have hsrc : w ≠ src := by
    rintro rfl
    exact pred_source hcost h v hv
  have hmem : w ∈ s.stack.toFinset.erase src := Finset.mem_erase.mpr ⟨hsrc, List.mem_toFinset.mpr hw⟩
  rw [Finset.sum_erase _ (by rw [through_pred hcost h hv, zero_div]), ← Finset.add_sum_erase _ _ hmem,
    through_self hcost h, div_self (sigma_ne_zero hcost h hw), dependency]

theorem dependency_eq (h : Counted nbrs src s) (v : V) : dependency nbrs src s v =
    ∑ w ∈ s.stack.toFinset with v ∈ s.pred w, s.sigma v / s.sigma w * (1 + dependency nbrs src s w) := by
  have hterms : dependency nbrs src s v = ∑ t ∈ (s.stack.toFinset.erase src).erase v,
      ∑ w ∈ s.stack.toFinset with v ∈ s.pred w, s.sigma v / s.sigma w * (through nbrs src w t / s.sigma t) := by
    apply Finset.sum_congr rfl
    intro t ht
    obtain ⟨hne, ht⟩ := Finset.mem_erase.mp ht
    rw [through_eq hcost h v t (List.mem_toFinset.mp (Finset.mem_of_mem_erase ht)), if_neg hne, zero_add,
      Finset.sum_div]
    apply Finset.sum_congr rfl
    intro w _
    rw [mul_div_assoc]
  rw [hterms, Finset.sum_comm]
  apply Finset.sum_congr rfl
  intro w hw
  obtain ⟨hw, hv⟩ := Finset.mem_filter.mp hw
  rw [← Finset.mul_sum, sum_through hcost h (List.mem_toFinset.mp hw) hv]

end

section

variable [DecidableEq V]

def credit {Q : Type} (s : Counting V K Q) (w : V) (st : (V → K) × (V → K)) (v : V) : (V → K) × (V → K) :=
  if s.sigma w = 0 then st
  else (Function.update st.1 v (st.1 v + s.sigma v / s.sigma w * (1 + st.1 w)), st.2)

def backward {Q : Type} (src : V) (s : Counting V K Q) (st : (V → K) × (V → K)) (w : V) : (V → K) × (V → K) :=
  let st := (s.pred w).foldl (credit s w) st
  if w = src then st else (st.1, Function.update st.2 w (st.2 w + st.1 w))

def accumulate {Q : Type} (src : V) (s : Counting V K Q) (bc : V → K) : (V → K) × (V → K) :=
  s.stack.reverse.foldl (backward src s) (fun _ => 0, bc)

variable {nbrs : V → List (V × K)} {src : V} {Q : Type} {s : Counting V K Q}

theorem foldl_credit {w : V} (hw : s.sigma w ≠ 0) {us : List V} (hout : w ∉ us) (hnodup : us.Nodup)
    (st : (V → K) × (V → K)) : us.foldl (credit s w) st =
      (fun v => st.1 v + if v ∈ us then s.sigma v / s.sigma w * (1 + st.1 w) else 0, st.2) := by
  induction us generalizing st with
  | nil => simp
  | cons u us ih =>
      obtain ⟨hu, hnodup'⟩ := List.nodup_cons.mp hnodup
      have hwu : w ≠ u := fun h => hout (h ▸ List.mem_cons_self)
      rw [List.foldl_cons, ih (fun hmem => hout (List.mem_cons_of_mem u hmem)) hnodup', credit, if_neg hw]
      apply Prod.ext
      · funext v
        dsimp only
        rw [Function.update_of_ne hwu]
        by_cases hvu : v = u
        · subst hvu
          simp [hu]
        · simp [hvu]
      · rfl

variable [IsStrictOrderedRing K] (hcost : ∀ v, ∀ e ∈ nbrs v, 0 < e.2)
include hcost

theorem foldl_backward (h : Counted nbrs src s) (bc : V → K) {pre post : List V} (hstack : s.stack = pre ++ post) :
    post.reverse.foldl (backward src s) (fun _ => 0, bc) =
      (fun v => (post.map fun w =>
          if v ∈ s.pred w then s.sigma v / s.sigma w * (1 + dependency nbrs src s w) else 0).sum,
        fun v => bc v + if v ∈ post ∧ v ≠ src then dependency nbrs src s v else 0) := by
  induction post generalizing pre with
  | nil => simp
  | cons w post ih =>
      have hw : w ∈ s.stack := by
        rw [hstack]
        simp
      have hnodup : (pre ++ w :: post).Nodup := hstack ▸ h.stack
      obtain ⟨_, hnodup', hdisjoint⟩ := List.nodup_append'.mp hnodup
      have hout : w ∉ post := (List.nodup_cons.mp hnodup').1
      have hpre : w ∉ pre := fun hmem => hdisjoint hmem List.mem_cons_self
      -- the nodes up to this one have no part in its dependencies
      have hearlier : ∀ x ∈ pre ++ [w], w ∉ s.pred x := by
        intro x hx hmem
        rcases List.mem_append.mp hx with hx | hx
        · obtain ⟨first, second, rfl⟩ := List.append_of_mem hx
          rw [List.append_assoc, List.cons_append] at hstack
          exact hpre (List.mem_append_left _ (before hcost h hstack hmem))
        · rw [List.mem_singleton.mp hx] at hmem
          exact hpre (before hcost h hstack hmem)
      have hself : w ∉ s.pred w := hearlier w (by simp)
      have hsplit : s.stack = (pre ++ [w]) ++ post := by
        rw [hstack]
        simp
      have hdelta : (post.map fun x =>
          if w ∈ s.pred x then s.sigma w / s.sigma x * (1 + dependency nbrs src s x) else 0).sum =
            dependency nbrs src s w := by
        have hzero : ((pre ++ [w]).map fun x =>
            if w ∈ s.pred x then s.sigma w / s.sigma x * (1 + dependency nbrs src s x) else 0).sum = 0 := by
          apply List.sum_eq_zero
          intro y hy
          obtain ⟨x, hx, rfl⟩ := List.mem_map.mp hy
          exact if_neg (hearlier x hx)
        rw [dependency_eq hcost h w, Finset.sum_filter, List.sum_toFinset _ h.stack, hsplit, List.map_append,
          List.sum_append, hzero, zero_add]
      rw [List.reverse_cons, List.foldl_append, ih hsplit, List.foldl_cons, List.foldl_nil, backward,
        foldl_credit (sigma_ne_zero hcost h hw) hself (h.nodup w)]
      dsimp only
      rw [hdelta, if_neg hself, add_zero]
      have hfirst : (fun v => (post.map fun x =>
            if v ∈ s.pred x then s.sigma v / s.sigma x * (1 + dependency nbrs src s x) else 0).sum +
            if v ∈ s.pred w then s.sigma v / s.sigma w * (1 + dependency nbrs src s w) else 0) =
          fun v => ((w :: post).map fun x =>
            if v ∈ s.pred x then s.sigma v / s.sigma x * (1 + dependency nbrs src s x) else 0).sum := by
        funext v
        rw [List.map_cons, List.sum_cons, add_comm]
      rw [hfirst]
      split
      · next hsrc =>
          apply Prod.ext
          · rfl
          · funext v
            by_cases hvw : v = w
            · simp [hvw, hsrc]
            · simp [hvw]
      · next hsrc =>
          apply Prod.ext
          · rfl
          · funext v
            by_cases hvw : v = w
            · subst hvw
              simp [hout, hsrc]
            · simp [hvw]

theorem accumulate_eq (h : Counted nbrs src s) (bc : V → K) (v : V) :
    (accumulate src s bc).2 v = bc v + if v ∈ s.stack ∧ v ≠ src then dependency nbrs src s v else 0 := by
  rw [accumulate, foldl_backward hcost h bc (List.nil_append s.stack).symm]

theorem accumulate_share (h : Counted nbrs src s) {nodes : Finset V} (hnodes : ∀ x ∈ s.stack, x ∈ nodes) (bc : V → K)
    (v : V) : (accumulate src s bc).2 v =
      bc v + if v = src then 0 else ∑ t ∈ (nodes.erase src).erase v, share nbrs src t v := by
  have hstack : ∀ {t l}, l ∈ shortest nbrs src t → t ∈ s.stack := by
    intro t l hl
    obtain ⟨d, hd, _⟩ := (mem_shortest h).mp hl
    exact (h.mem_stack t).mpr ⟨d, hd⟩
  have hsum : dependency nbrs src s v = ∑ t ∈ (nodes.erase src).erase v, share nbrs src t v := by
    have hterms : dependency nbrs src s v = ∑ t ∈ (s.stack.toFinset.erase src).erase v, share nbrs src t v := by
      apply Finset.sum_congr rfl
      intro t _
      rw [share, sigma_eq hcost h]
    rw [hterms]
    apply Finset.sum_subset
    · apply Finset.erase_subset_erase
      apply Finset.erase_subset_erase
      intro x hx
      exact hnodes x (List.mem_toFinset.mp hx)
    · intro t ht hout
      have hnone : ∀ l ∈ shortest nbrs src t, v ∉ l := by
        intro l hl _
        obtain ⟨hne, ht⟩ := Finset.mem_erase.mp ht
        obtain ⟨hsrc, _⟩ := Finset.mem_erase.mp ht
        apply hout
        exact Finset.mem_erase.mpr ⟨hne, Finset.mem_erase.mpr ⟨hsrc, List.mem_toFinset.mpr (hstack hl)⟩⟩
      rw [share, through_eq_zero hnone, zero_div]
  rw [accumulate_eq hcost h, ← hsum]
  by_cases hsrc : v = src
  · simp [hsrc]
  · by_cases hv : v ∈ s.stack
    · simp [hsrc, hv]
    · have hzero : dependency nbrs src s v = 0 := by
        apply Finset.sum_eq_zero
        intro t _
        have hnone : ∀ l ∈ shortest nbrs src t, v ∉ l := by
          intro l hl hmem
          obtain ⟨d, _, hd, _⟩ := dist_le_of_mem hcost h hl hmem
          exact hv ((h.mem_stack v).mpr ⟨d, hd⟩)
        rw [through_eq_zero hnone, zero_div]
      simp [hv, hzero]

end

section

variable {nbrs nbrs' : V → List (V × K)} {src t v : V} {l : List V}

theorem shortest_congr (h : ∀ v e, e ∈ nbrs v ↔ e ∈ nbrs' v) : shortest nbrs src t = shortest nbrs' src t := by
  have hiff : ∀ l c, Simple nbrs src t l c ↔ Simple nbrs' src t l c := fun l c =>
    ⟨fun hl => hl.mono fun v e => (h v e).mp, fun hl => hl.mono fun v e => (h v e).mpr⟩
  simp only [shortest, hiff]

theorem share_congr (h : ∀ v e, e ∈ nbrs v ↔ e ∈ nbrs' v) : share nbrs src t v = share nbrs' src t v := by
  rw [share, share, through, through, shortest_congr h]

variable (hsymm : ∀ u v d, (v, d) ∈ nbrs u → (u, d) ∈ nbrs v)
include hsymm

theorem mem_shortest_reverse (h : l ∈ shortest nbrs src t) : l.reverse ∈ shortest nbrs t src := by
  obtain ⟨c, hl, hmin⟩ := h
  exact ⟨c, hl.reverse hsymm, fun l' c' hl' => hmin _ c' (hl'.reverse hsymm)⟩

theorem ncard_reverse (p : List V → Prop) (hp : ∀ l, p l.reverse ↔ p l) :
    {l ∈ shortest nbrs src t | p l}.ncard = {l ∈ shortest nbrs t src | p l}.ncard := by
  have himage : {l ∈ shortest nbrs src t | p l} = List.reverse '' {l ∈ shortest nbrs t src | p l} := by
    ext l
    constructor
    · rintro ⟨hl, hpl⟩
      exact ⟨l.reverse, ⟨mem_shortest_reverse hsymm hl, (hp l).mpr hpl⟩, List.reverse_reverse l⟩
    · rintro ⟨l', ⟨hl', hpl⟩, rfl⟩
      exact ⟨mem_shortest_reverse hsymm hl', (hp l').mpr hpl⟩
  rw [himage, Set.ncard_image_of_injective _ List.reverse_injective]

theorem share_comm : share nbrs src t v = share nbrs t src v := by
  have hall : {l ∈ shortest nbrs src t | True}.ncard = {l ∈ shortest nbrs t src | True}.ncard :=
    ncard_reverse hsymm (fun _ => True) fun _ => Iff.rfl
  simp only [and_true, Set.ofPred_mem_eq] at hall
  rw [share, share, through, through, ncard_reverse hsymm (fun l => v ∈ l) fun l => List.mem_reverse, hall]

end

end MeshcoreAnalyzer.Dependencies

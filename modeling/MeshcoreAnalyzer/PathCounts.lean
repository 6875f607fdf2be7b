import MeshcoreAnalyzer.ShortestPaths
import Mathlib.Algebra.Order.Field.Basic
import Mathlib.Algebra.Order.Group.Abs
import Mathlib.Tactic.Linarith

namespace MeshcoreAnalyzer.PathCounts

open ShortestPaths

/-! Shortest paths from one node, with their numbers and their last edges. Lengths are compared up to a tolerance. -/

variable {V K : Type} [DecidableEq V] [Field K] [LinearOrder K]

structure Counting (V K Q : Type) where
  search : Search V K Q
  sigma : V → K
  pred : V → List V
  stack : List V

section

variable (heap : MinHeap (A := V × K) Prod.snd) (eps : K) (nbrs : V → List (V × K))

/-- A shorter path to `w`, through `v`. -/
def improve (v w : V) (alt : K) (s : Counting V K heap.Q) : Counting V K heap.Q where
  search := { s.search with
    dist := Function.update s.search.dist w (some alt), queue := heap.push s.search.queue (w, alt) }
  sigma := Function.update s.sigma w (s.sigma v)
  pred := Function.update s.pred w [v]
  stack := s.stack

/-- Another way to `w` that is as short. -/
def tie (v w : V) (s : Counting V K heap.Q) : Counting V K heap.Q :=
  { s with
    sigma := Function.update s.sigma w (s.sigma w + s.sigma v), pred := Function.update s.pred w (s.pred w ++ [v]) }

def follow (v : V) (s : Counting V K heap.Q) (e : V × K) : Counting V K heap.Q :=
  match s.search.dist v, s.search.dist e.1 with
  | none, _ => s
  | some d, none => improve heap v e.1 (d + e.2) s
  | some d, some cur =>
      if d + e.2 < cur - eps then improve heap v e.1 (d + e.2) s
      else if |d + e.2 - cur| ≤ eps then tie heap v e.1 s
      else s

def countStep (s : Counting V K heap.Q) : Counting V K heap.Q :=
  match heap.pop s.search.queue with
  | none => s
  | some (top, queue) =>
      if top.1 ∈ s.search.visited then { s with search := { s.search with queue := queue } }
      else
        (nbrs top.1).foldl (follow heap eps top.1)
          { s with
            search := { s.search with queue := queue, visited := insert top.1 s.search.visited }
            stack := s.stack ++ [top.1] }

def countTurns : Nat → Counting V K heap.Q → Counting V K heap.Q
  | 0, s => s
  | n + 1, s => countTurns n (countStep heap eps nbrs s)

def countStart (src : V) : Counting V K heap.Q where
  search := start heap src
  sigma := Function.update (fun _ => 0) src 1
  pred := fun _ => []
  stack := []

end

inductive Simple (nbrs : V → List (V × K)) (src : V) : V → List V → K → Prop
  | nil : Simple nbrs src src [src] 0
  | snoc {v u : V} {l : List V} {c d : K} :
      Simple nbrs src v l c → (u, d) ∈ nbrs v → u ∉ l → Simple nbrs src u (u :: l) (c + d)

structure Separated (nbrs : V → List (V × K)) (eps : K) (src : V) : Prop where
  nonneg : 0 ≤ eps
  cost : ∀ v, ∀ e ∈ nbrs v, eps < e.2
  keys : ∀ v, ((nbrs v).map Prod.fst).Nodup
  lengths : ∀ t l l' c c', Simple nbrs src t l c → Simple nbrs src t l' c' → c = c' ∨ eps < |c - c'|

structure Tallies (nbrs : V → List (V × K)) (src : V) {Q : Type} (followed : V → V × K → Prop)
    (s : Counting V K Q) : Prop where
  simple : ∀ w d, s.search.dist w = some d → ∃ l, Simple nbrs src w l d ∧ ∀ x ∈ l, x ≠ w → x ∈ s.search.visited
  pred : ∀ w u, u ∈ s.pred w ↔ u ∈ s.search.visited ∧ ∃ c, (w, c) ∈ nbrs u ∧ followed u (w, c) ∧
    ∃ d, s.search.dist u = some d ∧ s.search.dist w = some (d + c)
  nodup : ∀ w, (s.pred w).Nodup
  source : s.sigma src = 1
  sigma : ∀ w ≠ src, s.sigma w = ((s.pred w).map s.sigma).sum
  stack : s.stack.Nodup
  mem_stack : ∀ x, x ∈ s.stack ↔ x ∈ s.search.visited
  sorted : s.stack.Pairwise fun a b =>
    ∀ d d', s.search.dist a = some d → s.search.dist b = some d' → d ≤ d'

section

omit [DecidableEq V]

variable {nbrs nbrs' : V → List (V × K)} {src t u v : V} {l : List V} {c d : K}

omit [LinearOrder K] in
theorem Simple.walk (h : Simple nbrs src v l c) : Walk nbrs src v c := by
  induction h with
  | nil => exact .nil
  | snoc _ hedge _ ih => exact ih.snoc hedge

omit [LinearOrder K] in
theorem Simple.mem (h : Simple nbrs src v l c) : v ∈ l := by
  cases h with
  | nil => exact List.mem_singleton_self _
  | snoc => exact List.mem_cons_self

omit [LinearOrder K] in
theorem Simple.source_mem {v : V} {l : List V} {c : K} (h : Simple nbrs src v l c) : src ∈ l := by
  induction h with
  | nil => exact List.mem_singleton_self _
  | snoc _ _ _ ih => exact List.mem_cons_of_mem _ ih

omit [LinearOrder K] in
theorem Simple.head {v : V} {l : List V} {c : K} (h : Simple nbrs src v l c) : l.head? = some v := by
  cases h <;> rfl

omit [LinearOrder K] in
theorem Simple.mono (hsub : ∀ v, ∀ e ∈ nbrs v, e ∈ nbrs' v) (h : Simple nbrs src v l c) : Simple nbrs' src v l c := by
  induction h with
  | nil => exact .nil
  | snoc _ hedge hnew ih => exact ih.snoc (hsub _ _ hedge) hnew

omit [LinearOrder K] in
theorem Simple.prepend (h : Simple nbrs v t l c) (hedge : (v, d) ∈ nbrs u) (hnew : u ∉ l) :
    Simple nbrs u t (l ++ [u]) (d + c) := by
  induction h with
  | nil =>
      have hone : Simple nbrs u v [v, u] (0 + d) :=
        .snoc .nil hedge fun hmem => hnew (by rw [List.mem_singleton.mp hmem]; exact List.mem_singleton_self _)
      rw [zero_add] at hone
      rwa [add_zero]
  | @snoc w x l c e _ hlast hx ih =>
      rw [List.mem_cons, not_or] at hnew
      have hlonger := (ih hnew.2).snoc hlast (by
        rw [List.mem_append, List.mem_singleton, not_or]
        exact ⟨hx, fun h => hnew.1 h.symm⟩)
      rwa [add_assoc] at hlonger

omit [LinearOrder K] in
theorem Simple.reverse (hsymm : ∀ u v d, (v, d) ∈ nbrs u → (u, d) ∈ nbrs v) (h : Simple nbrs src t l c) :
    Simple nbrs t src l.reverse c := by
  induction h with
  | nil => exact .nil
  | @snoc v u l c d _ hedge hnew ih =>
      rw [List.reverse_cons, add_comm]
      exact ih.prepend (hsymm _ _ _ hedge) fun hmem => hnew (List.mem_reverse.mp hmem)

variable [IsStrictOrderedRing K]

theorem Simple.prefix_walk (hcost : ∀ v, ∀ e ∈ nbrs v, 0 ≤ e.2) (h : Simple nbrs src v l c) {x : V} (hx : x ∈ l) :
    ∃ d, Walk nbrs src x d ∧ d ≤ c := by
  induction h with
  | nil =>
      rw [List.mem_singleton.mp hx]
      exact ⟨0, .nil, le_refl 0⟩
  | @snoc v u l c d hpath hedge hnew ih =>
      have hd : 0 ≤ d := hcost v (u, d) hedge
      rcases List.mem_cons.mp hx with rfl | hx
      · exact ⟨c + d, hpath.walk.snoc hedge, le_refl _⟩
      · obtain ⟨d', hwalk, hle⟩ := ih hx
        exact ⟨d', hwalk, hle.trans (le_add_of_nonneg_right hd)⟩

theorem Simple.pos (hcost : ∀ v, ∀ e ∈ nbrs v, 0 < e.2) (h : Simple nbrs src v l c) : v = src ∧ c = 0 ∨ 0 < c := by
  induction h with
  | nil => exact .inl ⟨rfl, rfl⟩
  | @snoc v u l c d _ hedge _ ih =>
      right
      have hd : 0 < d := hcost v (u, d) hedge
      rcases ih with ⟨_, rfl⟩ | hc
      · rwa [zero_add]
      · exact add_pos hc hd

end

section

variable [IsStrictOrderedRing K] {heap : MinHeap (A := V × K) Prod.snd} {eps : K} {nbrs : V → List (V × K)} {src v : V}
  {key : K} {followed : V → V × K → Prop} {s : Counting V K heap.Q} {e : V × K}

omit [DecidableEq V] [IsStrictOrderedRing K] in
theorem Separated.cost_pos (hsep : Separated nbrs eps src) : ∀ v, ∀ e ∈ nbrs v, 0 < e.2 :=
  fun v e he => hsep.nonneg.trans_lt (hsep.cost v e he)

omit [DecidableEq V] in
theorem Tallies.source_visited (hsep : Separated nbrs eps src) (h : Tallies nbrs src followed s)
    (hs : Inv heap nbrs src followed s.search) (hv : Visiting heap v key s.search) : src ∈ s.search.visited := by
  obtain ⟨d, hd, hle⟩ := hs.source
  rcases hs.queued src d hd with hvisited | hq
  · exact hvisited
  · have hkey : key ≤ 0 := (hv.least _ hq).trans hle
    obtain ⟨l, hl, _⟩ := h.simple v key hv.dist
    rcases hl.pos hsep.cost_pos with ⟨rfl, _⟩ | hpos
    · exact hv.visited
    · exact absurd hpos (not_lt.mpr hkey)

theorem follow_cases (hsep : Separated nbrs eps src) (h : Tallies nbrs src followed s)
    (hs : Inv heap nbrs src followed s.search) (hv : Visiting heap v key s.search) (he : e ∈ nbrs v) :
    (∃ cur, s.search.dist e.1 = some cur ∧ cur < key + e.2 ∧ follow heap eps v s e = s) ∨
      e.1 ∉ s.search.visited ∧ (s.search.dist e.1 = some (key + e.2) ∧ follow heap eps v s e = tie heap v e.1 s ∨
        (∀ cur, s.search.dist e.1 = some cur → key + e.2 < cur) ∧
          follow heap eps v s e = improve heap v e.1 (key + e.2) s) := by
  have hcost := hsep.cost v e he
  cases hdist : s.search.dist e.1 with
  | none =>
      right
      refine ⟨fun hvisited => ?_, .inr ⟨nofun, ?_⟩⟩
      · obtain ⟨d, hd, _⟩ := hs.ahead e.1 hvisited
        rw [hdist] at hd
        cases hd
      · rw [follow, hv.dist, hdist]
  | some cur =>
      have hfollow : follow heap eps v s e =
          if key + e.2 < cur - eps then improve heap v e.1 (key + e.2) s
          else if |key + e.2 - cur| ≤ eps then tie heap v e.1 s
          else s := by
        rw [follow, hv.dist, hdist]
      have hnonneg := hsep.nonneg
      have hfar : eps < key + e.2 - cur → follow heap eps v s e = s := by
        intro hlt
        have hno : ¬ key + e.2 < cur - eps := by linarith
        rw [hfollow, if_neg hno, if_neg (not_le.mpr (hlt.trans_le (le_abs_self _)))]
      by_cases hvisited : e.1 ∈ s.search.visited
      · left
        have hle := hv.most e.1 hvisited cur hdist
        exact ⟨cur, rfl, by linarith, hfar (by linarith)⟩
      · -- the path to the node and the edge meet no node twice
        obtain ⟨l, hl, hlv⟩ := h.simple v key hv.dist
        obtain ⟨l', hl', _⟩ := h.simple e.1 cur hdist
        have hnew : e.1 ∉ l := by
          intro hmem
          by_cases hev : e.1 = v
          · rw [hev] at hvisited
            exact hvisited hv.visited
          · exact hvisited (hlv e.1 hmem hev)
        rcases hsep.lengths e.1 _ _ _ _ (hl.snoc he hnew) hl' with heq | hlt
        · right
          refine ⟨hvisited, .inl ⟨by rw [heq], ?_⟩⟩
          have hno : ¬ cur < cur - eps := by linarith
          rw [hfollow, heq, if_neg hno, sub_self, abs_zero, if_pos hnonneg]
        · rcases lt_abs.mp hlt with hlt | hlt
          · exact .inl ⟨cur, rfl, by linarith, hfar hlt⟩
          · right
            refine ⟨hvisited, .inr ⟨?_, ?_⟩⟩
            · rintro _ ⟨⟩
              linarith
            · rw [hfollow, if_pos (by linarith)]

theorem search_follow (hsep : Separated nbrs eps src) (h : Tallies nbrs src followed s)
    (hs : Inv heap nbrs src followed s.search) (hv : Visiting heap v key s.search) (he : e ∈ nbrs v) :
    (follow heap eps v s e).search = relax heap key s.search e := by
  rcases follow_cases hsep h hs hv he with ⟨cur, hcur, hlt, heq⟩ | ⟨_, ⟨hcur, heq⟩ | ⟨hbetter, heq⟩⟩
  · rw [heq, relax, hcur, if_neg]
    simpa using le_of_lt hlt
  · rw [heq, relax, hcur, if_neg]
    · rfl
    · simp
  · rw [heq, relax, if_pos]
    · rfl
    · cases hdist : s.search.dist e.1 with
      | none => rfl
      | some cur => simpa using hbetter cur hdist

omit [DecidableEq V] [IsStrictOrderedRing K] in
theorem Tallies.pred_other (h : Tallies nbrs src followed s) {w : V} (hw : w ≠ e.1) (u : V) :
    u ∈ s.pred w ↔ u ∈ s.search.visited ∧ ∃ c, (w, c) ∈ nbrs u ∧ (followed u (w, c) ∨ u = v ∧ (w, c) = e) ∧
      ∃ d, s.search.dist u = some d ∧ s.search.dist w = some (d + c) := by
  have hedge : ∀ c, ¬ (w, c) = e := by
    rintro c rfl
    exact hw rfl
  rw [h.pred w u]
  simp only [hedge, and_false, or_false]

omit [IsStrictOrderedRing K] in
theorem Tallies.farther (h : Tallies nbrs src followed s) (hv : Visiting heap v key s.search) {cur : K}
    (hcur : s.search.dist e.1 = some cur) (hlt : cur < key + e.2) :
    Tallies nbrs src (fun w f => followed w f ∨ w = v ∧ f = e) s := by
  refine { h with pred := fun w u => ?_ }
  by_cases hw : w = e.1
  · subst hw
    rw [h.pred e.1 u]
    constructor
    · rintro ⟨hu, c, hc, hf, hd⟩
      exact ⟨hu, c, hc, .inl hf, hd⟩
    · rintro ⟨hu, c, hc, hf | ⟨rfl, hce⟩, d, hd, hsum⟩
      · exact ⟨hu, c, hc, hf, d, hd, hsum⟩
      · exfalso
        have hc2 : c = e.2 := congrArg Prod.snd hce
        rw [hv.dist] at hd
        rw [hcur] at hsum
        cases hd
        cases hsum
        rw [hc2] at hlt
        exact lt_irrefl _ hlt
  · exact h.pred_other hw u

theorem Tallies.tie (hsep : Separated nbrs eps src) (h : Tallies nbrs src followed s)
    (hs : Inv heap nbrs src followed s.search) (hv : Visiting heap v key s.search) (he : e ∈ nbrs v)
    (hfresh : ¬ followed v e) (hnew : e.1 ∉ s.search.visited) (hcur : s.search.dist e.1 = some (key + e.2)) :
    Tallies nbrs src (fun w f => followed w f ∨ w = v ∧ f = e) (PathCounts.tie heap v e.1 s) := by
  have hne : e.1 ≠ v := by
    intro heq
    rw [heq] at hnew
    exact hnew hv.visited
  have hsrc : e.1 ≠ src := by
    intro heq
    rw [heq] at hnew
    exact hnew (h.source_visited hsep hs hv)
  have hv' : v ∉ s.pred e.1 := by
    intro hmem
    obtain ⟨_, c, hc, hf, _⟩ := (h.pred e.1 v).mp hmem
    have hsame : (e.1, c) = e := List.inj_on_of_nodup_map (hsep.keys v) hc he rfl
    rw [hsame] at hf
    exact hfresh hf
  have hsigma : ∀ w, ((s.pred w).map (Function.update s.sigma e.1 (s.sigma e.1 + s.sigma v))).sum =
      ((s.pred w).map s.sigma).sum := by
    intro w
    congr 1
    apply List.map_congr_left
    intro u hu
    apply Function.update_of_ne
    rintro rfl
    exact hnew ((h.pred w _).mp hu).1
  refine ⟨h.simple, fun w u => ?_, fun w => ?_, ?_, fun w hw => ?_, h.stack, h.mem_stack, h.sorted⟩
  · by_cases hw : w = e.1
    · subst hw
      have hpred : (PathCounts.tie heap v e.1 s).pred e.1 = s.pred e.1 ++ [v] := Function.update_self ..
      rw [hpred, List.mem_append, List.mem_singleton, h.pred e.1 u]
      constructor
      · rintro (⟨hu, c, hc, hf, hd⟩ | rfl)
        · exact ⟨hu, c, hc, .inl hf, hd⟩
        · exact ⟨hv.visited, e.2, he, .inr ⟨rfl, rfl⟩, key, hv.dist, hcur⟩
      · rintro ⟨hu, c, hc, hf | ⟨rfl, _⟩, hd⟩
        · exact .inl ⟨hu, c, hc, hf, hd⟩
        · exact .inr rfl
    · have hpred : (PathCounts.tie heap v e.1 s).pred w = s.pred w := Function.update_of_ne hw ..
      rw [hpred]
      exact h.pred_other hw u
  · by_cases hw : w = e.1
    · subst hw
      have hpred : (PathCounts.tie heap v e.1 s).pred e.1 = s.pred e.1 ++ [v] := Function.update_self ..
      rw [hpred, List.nodup_append']
      refine ⟨h.nodup e.1, List.nodup_singleton v, fun x hx hx' => ?_⟩
      rw [List.mem_singleton.mp hx'] at hx
      exact hv' hx
    · have hpred : (PathCounts.tie heap v e.1 s).pred w = s.pred w := Function.update_of_ne hw ..
      rw [hpred]
      exact h.nodup w
  · rw [PathCounts.tie]
    dsimp only
    rw [Function.update_of_ne (Ne.symm hsrc), h.source]
  · rw [PathCounts.tie]
    dsimp only
    by_cases hwe : w = e.1
    · subst hwe
      rw [Function.update_self, Function.update_self, List.map_append, List.sum_append, hsigma, h.sigma e.1 hw,
        List.map_singleton, List.sum_singleton, Function.update_of_ne (Ne.symm hne)]
    · rw [Function.update_of_ne hwe, Function.update_of_ne hwe, hsigma, h.sigma w hw]

theorem Tallies.improve (hsep : Separated nbrs eps src) (h : Tallies nbrs src followed s)
    (hs : Inv heap nbrs src followed s.search) (hv : Visiting heap v key s.search) (he : e ∈ nbrs v)
    (hnew : e.1 ∉ s.search.visited) (hbetter : ∀ cur, s.search.dist e.1 = some cur → key + e.2 < cur) :
    Tallies nbrs src (fun w f => followed w f ∨ w = v ∧ f = e) (PathCounts.improve heap v e.1 (key + e.2) s) := by
  have hvisited : ∀ u ∈ s.search.visited, u ≠ e.1 := by
    rintro u hu rfl
    exact hnew hu
  have hsrc := hvisited src (h.source_visited hsep hs hv)
  have hdist : ∀ u ∈ s.search.visited,
      Function.update s.search.dist e.1 (some (key + e.2)) u = s.search.dist u := fun u hu =>
    Function.update_of_ne (hvisited u hu) ..
  have hsigma : ∀ w, ((s.pred w).map (Function.update s.sigma e.1 (s.sigma v))).sum = ((s.pred w).map s.sigma).sum := by
    intro w
    congr 1
    apply List.map_congr_left
    intro u hu
    exact Function.update_of_ne (hvisited u ((h.pred w u).mp hu).1) ..
  refine ⟨fun w d hd => ?_, fun w u => ?_, fun w => ?_, ?_, fun w hw => ?_, h.stack, h.mem_stack, ?_⟩ <;>
    simp only [PathCounts.improve] at *
  · by_cases hw : w = e.1
    · subst hw
      rw [Function.update_self, Option.some.injEq] at hd
      subst hd
      obtain ⟨l, hl, hlv⟩ := h.simple v key hv.dist
      have hall : ∀ x ∈ l, x ∈ s.search.visited := by
        intro x hx
        by_cases hxv : x = v
        · rw [hxv]
          exact hv.visited
        · exact hlv x hx hxv
      refine ⟨e.1 :: l, hl.snoc he fun hmem => hnew (hall e.1 hmem), fun x hx hne => ?_⟩
      exact hall x ((List.mem_cons.mp hx).resolve_left hne)
    · rw [Function.update_of_ne hw] at hd
      exact h.simple w d hd
  · by_cases hw : w = e.1
    · subst hw
      rw [Function.update_self, Function.update_self, List.mem_singleton]
      constructor
      · rintro rfl
        exact ⟨hv.visited, e.2, he, .inr ⟨rfl, rfl⟩, key, by rw [hdist u hv.visited, hv.dist], rfl⟩
      · rintro ⟨hu, c, hc, hf | ⟨rfl, _⟩, d, hd, hsum⟩
        · -- what was followed before was longer
          exfalso
          rw [hdist u hu] at hd
          obtain ⟨d', hd', hle⟩ := hs.relaxed u hu (e.1, c) hc hf d hd
          have hlt := hbetter d' hd'
          rw [Option.some.injEq] at hsum
          exact absurd (hlt.trans_le hle) (by rw [hsum]; exact lt_irrefl _)
        · rfl
    · rw [Function.update_of_ne hw, Function.update_of_ne hw, h.pred_other hw u]
      apply and_congr_right
      intro hu
      rw [hdist u hu]
  · by_cases hw : w = e.1
    · subst hw
      rw [Function.update_self]
      exact List.nodup_singleton v
    · rw [Function.update_of_ne hw]
      exact h.nodup w
  · rw [Function.update_of_ne hsrc, h.source]
  · by_cases hwe : w = e.1
    · subst hwe
      rw [Function.update_self, Function.update_self, List.map_singleton, List.sum_singleton,
        Function.update_of_ne (hvisited v hv.visited)]
    · rw [Function.update_of_ne hwe, Function.update_of_ne hwe, hsigma, h.sigma w hw]
  · apply h.sorted.imp_of_mem
    intro a b ha hb hab
    rw [hdist a ((h.mem_stack a).mp ha), hdist b ((h.mem_stack b).mp hb)]
    exact hab

theorem Tallies.follow (hsep : Separated nbrs eps src) (h : Tallies nbrs src followed s)
    (hs : Inv heap nbrs src followed s.search) (hv : Visiting heap v key s.search) (he : e ∈ nbrs v)
    (hfresh : ¬ followed v e) :
    Tallies nbrs src (fun w f => followed w f ∨ w = v ∧ f = e) (PathCounts.follow heap eps v s e) := by
  rcases follow_cases hsep h hs hv he with ⟨cur, hcur, hlt, heq⟩ | ⟨hnew, ⟨hcur, heq⟩ | ⟨hbetter, heq⟩⟩
  · rw [heq]
    exact h.farther hv hcur hlt
  · rw [heq]
    exact h.tie hsep hs hv he hfresh hnew hcur
  · rw [heq]
    exact h.improve hsep hs hv he hnew hbetter

theorem Tallies.followAll (hsep : Separated nbrs eps src) (h : Tallies nbrs src followed s)
    (hs : Inv heap nbrs src followed s.search) (hv : Visiting heap v key s.search) {es : List (V × K)}
    (hes : ∀ f ∈ es, f ∈ nbrs v ∧ ¬ followed v f) (hnodup : es.Nodup) :
    (es.foldl (PathCounts.follow heap eps v) s).search = es.foldl (relax heap key) s.search ∧
      Tallies nbrs src (fun w f => followed w f ∨ w = v ∧ f ∈ es) (es.foldl (PathCounts.follow heap eps v) s) := by
  induction es generalizing s followed with
  | nil => exact ⟨rfl, by simpa using h⟩
  | cons e es ih =>
      obtain ⟨he, hfresh⟩ := hes e List.mem_cons_self
      obtain ⟨hout, hnodup'⟩ := List.nodup_cons.mp hnodup
      have hsearch := search_follow hsep h hs hv he
      obtain ⟨hs', hv'⟩ := hs.relax hv he (le_of_lt (hsep.cost_pos v e he))
      rw [← hsearch] at hs' hv'
      have hrest : ∀ f ∈ es, f ∈ nbrs v ∧ ¬ (followed v f ∨ v = v ∧ f = e) := by
        intro f hf
        obtain ⟨hfn, hff⟩ := hes f (List.mem_cons_of_mem e hf)
        refine ⟨hfn, ?_⟩
        rintro (hfollowed | ⟨_, rfl⟩)
        · exact hff hfollowed
        · exact hout hf
      obtain ⟨hall, hcounts⟩ := ih (h.follow hsep hs hv he hfresh) hs' hv' hrest hnodup'
      refine ⟨?_, ?_⟩
      · rw [List.foldl_cons, List.foldl_cons, hall, hsearch]
      · have hnames : (fun (w : V) (f : V × K) => followed w f ∨ w = v ∧ f ∈ e :: es) =
            fun w f => (followed w f ∨ w = v ∧ f = e) ∨ w = v ∧ f ∈ es := by
          funext w f
          rw [List.mem_cons, and_or_left, or_assoc]
        rw [hnames]
        exact hcounts

end

section

variable [IsStrictOrderedRing K] {heap : MinHeap (A := V × K) Prod.snd} {eps : K} {nbrs : V → List (V × K)} {src : V}
  {s : Counting V K heap.Q}

omit [DecidableEq V] [IsStrictOrderedRing K] in
theorem Tallies.followed {v : V} (h : Tallies nbrs src (fun w f => w ≠ v ∨ w = v ∧ f ∈ nbrs v) s) :
    Tallies nbrs src (fun _ _ => True) s := by
  refine { h with pred := fun w u => ?_ }
  rw [h.pred w u]
  constructor
  · rintro ⟨hu, c, hc, _, hd⟩
    exact ⟨hu, c, hc, trivial, hd⟩
  · rintro ⟨hu, c, hc, _, hd⟩
    refine ⟨hu, c, hc, ?_, hd⟩
    by_cases huv : u = v
    · subst huv
      exact .inr ⟨rfl, hc⟩
    · exact .inl huv

omit [IsStrictOrderedRing K] in
theorem Tallies.visit (h : Tallies nbrs src (fun _ _ => True) s) {top : V × K} {queue : heap.Q}
    (hnew : top.1 ∉ s.search.visited)
    (hv : Visiting heap top.1 top.2
      { s.search with queue := queue, visited := insert top.1 s.search.visited }) :
    Tallies nbrs src (fun w _ => w ≠ top.1)
      { s with
        search := { s.search with queue := queue, visited := insert top.1 s.search.visited }
        stack := s.stack ++ [top.1] } := by
  have hout : top.1 ∉ s.stack := fun hmem => hnew ((h.mem_stack _).mp hmem)
  refine ⟨fun w d hd => ?_, fun w u => ?_, h.nodup, h.source, h.sigma, ?_, fun x => ?_, ?_⟩
  · obtain ⟨l, hl, hlv⟩ := h.simple w d hd
    exact ⟨l, hl, fun x hx hne => Finset.mem_insert_of_mem (hlv x hx hne)⟩
  · rw [h.pred w u]
    constructor
    · rintro ⟨hu, c, hc, _, hd⟩
      refine ⟨Finset.mem_insert_of_mem hu, c, hc, ?_, hd⟩
      rintro rfl
      exact hnew hu
    · rintro ⟨hu, c, hc, hne, hd⟩
      exact ⟨Finset.mem_of_mem_insert_of_ne hu hne, c, hc, trivial, hd⟩
  · rw [List.nodup_append']
    refine ⟨h.stack, List.nodup_singleton _, fun x hx hx' => ?_⟩
    rw [List.mem_singleton.mp hx'] at hx
    exact hout hx
  · dsimp only
    rw [List.mem_append, List.mem_singleton, Finset.mem_insert, h.mem_stack, or_comm]
  · dsimp only
    rw [List.pairwise_append]
    refine ⟨h.sorted, List.pairwise_singleton .., fun a ha b hb d d' hd hd' => ?_⟩
    rw [List.mem_singleton.mp hb, hv.dist] at hd'
    cases hd'
    exact hv.most a (Finset.mem_insert_of_mem ((h.mem_stack a).mp ha)) d hd

theorem countStep_spec (hsep : Separated nbrs eps src) (h : Tallies nbrs src (fun _ _ => True) s)
    (hs : Inv heap nbrs src (fun _ _ => True) s.search) :
    (countStep heap eps nbrs s).search = step heap nbrs s.search ∧
      Tallies nbrs src (fun _ _ => True) (countStep heap eps nbrs s) := by
  rw [countStep, step]
  cases hpop : heap.pop s.search.queue with
  | none => exact ⟨rfl, h⟩
  | some popped =>
      obtain ⟨top, queue⟩ := popped
      dsimp only
      split
      · exact ⟨rfl, h.simple, h.pred, h.nodup, h.source, h.sigma, h.stack, h.mem_stack, h.sorted⟩
      · next hnew =>
          obtain ⟨hfirst, hvisiting⟩ := hs.visit hpop hnew
          have hedges : ∀ f ∈ nbrs top.1, f ∈ nbrs top.1 ∧ ¬ top.1 ≠ top.1 := fun f hf => ⟨hf, not_not.mpr rfl⟩
          have hnodup : (nbrs top.1).Nodup := (hsep.keys top.1).of_map
          obtain ⟨hsearch, hcounts⟩ := (h.visit hnew hvisiting).followAll hsep hfirst hvisiting hedges hnodup
          exact ⟨hsearch, hcounts.followed⟩

omit [IsStrictOrderedRing K] in
theorem tallies_start : Tallies nbrs src (fun _ _ => True) (countStart heap src) := by
  refine ⟨fun w d hd => ?_, fun w u => ?_, fun _ => List.nodup_nil, ?_, fun w hw => ?_, List.nodup_nil, fun x => ?_,
    List.Pairwise.nil⟩ <;> simp only [countStart, start] at *
  · by_cases hw : w = src
    · subst hw
      rw [Function.update_self, Option.some.injEq] at hd
      subst hd
      exact ⟨[w], .nil, fun x hx hne => absurd (List.mem_singleton.mp hx) hne⟩
    · rw [Function.update_of_ne hw] at hd
      cases hd
  · simp
  · rw [Function.update_self]
  · rw [Function.update_of_ne hw]
    simp
  · simp

theorem countTurns_spec (hsep : Separated nbrs eps src) (h : Tallies nbrs src (fun _ _ => True) s)
    (hs : Inv heap nbrs src (fun _ _ => True) s.search) (n : Nat) :
    (countTurns heap eps nbrs n s).search = turns heap nbrs n s.search ∧
      Tallies nbrs src (fun _ _ => True) (countTurns heap eps nbrs n s) := by
  induction n generalizing s with
  | zero => exact ⟨rfl, h⟩
  | succ n ih =>
      obtain ⟨hsearch, hcounts⟩ := countStep_spec hsep h hs
      have hs' := hs.step fun v e he => le_of_lt (hsep.cost_pos v e he)
      rw [← hsearch] at hs'
      obtain ⟨hall, hcounts'⟩ := ih hcounts hs'
      refine ⟨?_, hcounts'⟩
      rw [countTurns, hall, hsearch, turns]

variable (heap eps nbrs src) in
def counted (nodes : Finset V) : Counting V K heap.Q :=
  countTurns heap eps nbrs (fuel heap nbrs nodes (start heap src)) (countStart heap src)

/-- What a search has found when it is over. -/
structure Counted (nbrs : V → List (V × K)) (src : V) {Q : Type} (s : Counting V K Q) : Prop where
  least : ∀ v d, s.search.dist v = some d ↔ IsLeast {c | Walk nbrs src v c} d
  reach : ∀ v c, Walk nbrs src v c → ∃ d, s.search.dist v = some d
  simple : ∀ v d, s.search.dist v = some d → ∃ l, Simple nbrs src v l d
  pred : ∀ w u, u ∈ s.pred w ↔ ∃ c, (w, c) ∈ nbrs u ∧
    ∃ d, s.search.dist u = some d ∧ s.search.dist w = some (d + c)
  nodup : ∀ w, (s.pred w).Nodup
  source : s.sigma src = 1
  sigma : ∀ w ≠ src, s.sigma w = ((s.pred w).map s.sigma).sum
  stack : s.stack.Nodup
  mem_stack : ∀ x, x ∈ s.stack ↔ ∃ d, s.search.dist x = some d
  sorted : s.stack.Pairwise fun a b =>
    ∀ d d', s.search.dist a = some d → s.search.dist b = some d' → d ≤ d'

theorem counted_spec (hsep : Separated nbrs eps src) {nodes : Finset V} (hnodes : ∀ v, nbrs v ≠ [] → v ∈ nodes) :
    Counted nbrs src (counted heap eps nbrs src nodes) := by
  have hcost : ∀ v, ∀ e ∈ nbrs v, 0 ≤ e.2 := fun v e he => le_of_lt (hsep.cost_pos v e he)
  obtain ⟨hsearch, h⟩ := countTurns_spec hsep tallies_start Inv.start
    (fuel heap nbrs nodes (start heap src))
  have hinv : Inv heap nbrs src (fun _ _ => True) (counted heap eps nbrs src nodes).search := by
    rw [counted, hsearch]
    exact Inv.start.turns hcost _
  have hempty : heap.items (counted heap eps nbrs src nodes).search.queue = [] := by
    rw [counted, hsearch]
    exact queue_turns hnodes (le_refl _)
  change Tallies nbrs src (fun _ _ => True) (counted heap eps nbrs src nodes) at h
  generalize counted heap eps nbrs src nodes = s at *
  have hvisited : ∀ x, x ∈ s.search.visited ↔ ∃ d, s.search.dist x = some d := by
    intro x
    constructor
    · intro hx
      obtain ⟨d, hd, _⟩ := hinv.ahead x hx
      exact ⟨d, hd⟩
    · rintro ⟨d, hd⟩
      apply (hinv.queued x d hd).resolve_right
      rw [hempty]
      exact List.not_mem_nil
  refine ⟨fun v => (hinv.isLeast hempty).1, fun v c hc => ?_, fun v d hd => ?_, fun w u => ?_, h.nodup, h.source,
    h.sigma, h.stack, fun x => (h.mem_stack x).trans (hvisited x), h.sorted⟩
  · by_contra hnone
    exact (hinv.isLeast hempty).2.mp (Option.eq_none_iff_forall_ne_some.mpr fun d hd => hnone ⟨d, hd⟩) c hc
  · obtain ⟨l, hl, _⟩ := h.simple v d hd
    exact ⟨l, hl⟩
  · rw [h.pred w u]
    constructor
    · rintro ⟨_, c, hc, _, hd⟩
      exact ⟨c, hc, hd⟩
    · rintro ⟨c, hc, d, hd, hsum⟩
      exact ⟨(hvisited u).mpr ⟨d, hd⟩, c, hc, trivial, d, hd, hsum⟩

end

end MeshcoreAnalyzer.PathCounts

import MeshcoreAnalyzer.Orders
import Mathlib.Algebra.BigOperators.Group.Finset.Basic
import Mathlib.Algebra.Order.BigOperators.Group.Finset
import Mathlib.Algebra.Order.Monoid.Defs
import Mathlib.Data.Finset.Basic
import Mathlib.Logic.Function.Basic
import Mathlib.Order.Bounds.Defs

namespace MeshcoreAnalyzer.ShortestPaths

open Orders

/-! Shortest paths from one node with a queue that may hold a node more than once. -/

/-- A queue that gives one of its least elements; which of several is open. -/
structure MinHeap {A K : Type} [LinearOrder K] (key : A → K) where
  Q : Type
  items : Q → List A
  empty : Q
  push : Q → A → Q
  pop : Q → Option (A × Q)
  items_empty : items empty = []
  push_perm : ∀ q a, (items (push q a)).Perm (a :: items q)
  pop_nil : ∀ q, items q = [] → pop q = none
  pop_least : ∀ q, items q ≠ [] →
    ∃ a rest, pop q = some (a, rest) ∧ (items q).Perm (a :: items rest) ∧ ∀ b ∈ items rest, key a ≤ key b

theorem MinHeap.pop_spec {A K : Type} [LinearOrder K] {key : A → K} (heap : MinHeap key) {q rest : heap.Q} {a : A}
    (h : heap.pop q = some (a, rest)) :
    (heap.items q).Perm (a :: heap.items rest) ∧ ∀ b ∈ heap.items rest, key a ≤ key b := by
  have hne : heap.items q ≠ [] := by
    intro hempty
    rw [heap.pop_nil q hempty] at h
    cases h
  obtain ⟨b, rest', hpop, hspec⟩ := heap.pop_least q hne
  rw [h] at hpop
  cases hpop
  exact hspec

def MinHeap.insertion {A K : Type} [LinearOrder K] (key : A → K) : MinHeap key where
  Q := List A
  items := id
  empty := []
  push := fun l a => a :: l
  pop := fun l => match l.insertionSort fun a b => key a ≤ key b with
    | [] => none
    | a :: rest => some (a, rest)
  items_empty := rfl
  push_perm := fun l a => List.Perm.refl (a :: l)
  pop_nil := by
    rintro l rfl
    rfl
  pop_least := by
    intro l hl
    have hperm := List.perm_insertionSort (fun a b => key a ≤ key b) l
    have hsorted := ascending_insertionSort key l
    cases hsort : l.insertionSort fun a b => key a ≤ key b with
    | nil =>
        rw [hsort] at hperm
        exact absurd hperm.symm.eq_nil hl
    | cons a rest =>
        rw [hsort] at hperm hsorted
        exact ⟨a, rest, rfl, hperm.symm, (List.pairwise_cons.mp hsorted).1⟩

variable {V C : Type} [DecidableEq V] [AddCommMonoid C] [LinearOrder C]

inductive Walk (nbrs : V → List (V × C)) (src : V) : V → C → Prop
  | nil : Walk nbrs src src 0
  | snoc {v u : V} {c d : C} : Walk nbrs src v c → (u, d) ∈ nbrs v → Walk nbrs src u (c + d)

structure Search (V C Q : Type) where
  dist : V → Option C
  queue : Q
  visited : Finset V

section

variable (heap : MinHeap (A := V × C) Prod.snd) (nbrs : V → List (V × C))

def relax (key : C) (s : Search V C heap.Q) (e : V × C) : Search V C heap.Q :=
  if (s.dist e.1).all fun cur => key + e.2 < cur then
    { s with dist := Function.update s.dist e.1 (some (key + e.2)), queue := heap.push s.queue (e.1, key + e.2) }
  else s

def step (s : Search V C heap.Q) : Search V C heap.Q :=
  match heap.pop s.queue with
  | none => s
  | some (top, queue) =>
      if top.1 ∈ s.visited then { s with queue := queue }
      else (nbrs top.1).foldl (relax heap top.2) { s with queue := queue, visited := insert top.1 s.visited }

def turns : Nat → Search V C heap.Q → Search V C heap.Q
  | 0, s => s
  | n + 1, s => turns n (step heap nbrs s)

def start (src : V) : Search V C heap.Q where
  dist := Function.update (fun _ => none) src (some 0)
  queue := heap.push heap.empty (src, 0)
  visited := ∅

/-- Each turn takes an element from the queue, and each edge puts in one at most. -/
def fuel (nodes : Finset V) (s : Search V C heap.Q) : Nat :=
  (heap.items s.queue).length + ∑ v ∈ nodes \ s.visited, (nbrs v).length

end

section

variable {heap : MinHeap (A := V × C) Prod.snd} {nbrs : V → List (V × C)} {nodes : Finset V}

theorem visited_relax (key : C) (s : Search V C heap.Q) (e : V × C) : (relax heap key s e).visited = s.visited := by
  rw [relax]
  split <;> rfl

theorem visited_relaxAll (key : C) (s : Search V C heap.Q) (es : List (V × C)) :
    (es.foldl (relax heap key) s).visited = s.visited := by
  induction es generalizing s with
  | nil => rfl
  | cons e es ih => rw [List.foldl_cons, ih, visited_relax]

theorem length_queue_relaxAll (key : C) (s : Search V C heap.Q) (es : List (V × C)) :
    (heap.items (es.foldl (relax heap key) s).queue).length ≤ (heap.items s.queue).length + es.length := by
  induction es generalizing s with
  | nil => exact le_refl _
  | cons e es ih =>
      have hone : (heap.items (relax heap key s e).queue).length ≤ (heap.items s.queue).length + 1 := by
        rw [relax]
        split
        · rw [(heap.push_perm _ _).length_eq, List.length_cons]
        · exact Nat.le_succ _
      have hrest := ih (relax heap key s e)
      rw [List.foldl_cons, List.length_cons]
      omega

theorem fuel_step (hnodes : ∀ v, nbrs v ≠ [] → v ∈ nodes) {s : Search V C heap.Q} (h : heap.items s.queue ≠ []) :
    fuel heap nbrs nodes (step heap nbrs s) < fuel heap nbrs nodes s := by
  obtain ⟨top, queue, hpop, hperm, _⟩ := heap.pop_least s.queue h
  have hlength := hperm.length_eq
  rw [List.length_cons] at hlength
  rw [step, hpop, fuel, fuel]
  dsimp only
  split
  · dsimp only
    omega
  · next hnew =>
      rw [visited_relaxAll]
      have hqueue := length_queue_relaxAll top.2
        ⟨s.dist, queue, insert top.1 s.visited⟩ (nbrs top.1)
      dsimp only at hqueue ⊢
      by_cases hmem : top.1 ∈ nodes
      · have hsum : ∑ v ∈ nodes \ s.visited, (nbrs v).length =
            (nbrs top.1).length + ∑ v ∈ nodes \ insert top.1 s.visited, (nbrs v).length := by
          rw [Finset.sdiff_insert, ← Finset.add_sum_erase _ _ (Finset.mem_sdiff.mpr ⟨hmem, hnew⟩)]
        omega
      · have hempty : nbrs top.1 = [] := by
          by_contra hne
          exact hmem (hnodes top.1 hne)
        have hsum : ∑ v ∈ nodes \ insert top.1 s.visited, (nbrs v).length ≤
            ∑ v ∈ nodes \ s.visited, (nbrs v).length := by
          apply Finset.sum_le_sum_of_subset
          exact Finset.sdiff_subset_sdiff (Finset.Subset.refl _) (Finset.subset_insert _ _)
        rw [hempty, List.length_nil] at hqueue
        rw [hempty]
        rw [List.foldl_nil] at hqueue ⊢
        dsimp only at hqueue ⊢
        omega

theorem step_of_empty {s : Search V C heap.Q} (h : heap.items s.queue = []) : step heap nbrs s = s := by
  rw [step, heap.pop_nil _ h]

theorem turns_of_empty {s : Search V C heap.Q} (h : heap.items s.queue = []) (n : Nat) : turns heap nbrs n s = s := by
  induction n with
  | zero => rfl
  | succ n ih => rw [turns, step_of_empty h, ih]

theorem queue_turns (hnodes : ∀ v, nbrs v ≠ [] → v ∈ nodes) {n : Nat} {s : Search V C heap.Q}
    (h : fuel heap nbrs nodes s ≤ n) :
    heap.items (turns heap nbrs n s).queue = [] := by
  induction n generalizing s with
  | zero =>
      rw [fuel] at h
      rw [turns]
      apply List.length_eq_zero_iff.mp
      omega
  | succ n ih =>
      by_cases hempty : heap.items s.queue = []
      · rw [turns_of_empty hempty, hempty]
      · have hless := fuel_step hnodes hempty
        exact ih (by omega)

end

/-- What holds of a search when the edges that are named have been followed. -/
structure Inv (heap : MinHeap (A := V × C) Prod.snd) (nbrs : V → List (V × C)) (src : V)
    (followed : V → V × C → Prop) (s : Search V C heap.Q) : Prop where
  walk : ∀ v d, s.dist v = some d → Walk nbrs src v d
  source : ∃ d, s.dist src = some d ∧ d ≤ 0
  behind : ∀ q ∈ heap.items s.queue, ∃ d, s.dist q.1 = some d ∧ d ≤ q.2
  queued : ∀ v d, s.dist v = some d → v ∈ s.visited ∨ (v, d) ∈ heap.items s.queue
  ahead : ∀ v ∈ s.visited, ∃ d, s.dist v = some d ∧ ∀ q ∈ heap.items s.queue, d ≤ q.2
  relaxed : ∀ v ∈ s.visited, ∀ e ∈ nbrs v, followed v e → ∀ d, s.dist v = some d →
    ∃ d', s.dist e.1 = some d' ∧ d' ≤ d + e.2

structure Visiting (heap : MinHeap (A := V × C) Prod.snd) (v : V) (key : C) (s : Search V C heap.Q) : Prop where
  visited : v ∈ s.visited
  dist : s.dist v = some key
  least : ∀ q ∈ heap.items s.queue, key ≤ q.2
  most : ∀ w ∈ s.visited, ∀ d, s.dist w = some d → d ≤ key

section

variable {heap : MinHeap (A := V × C) Prod.snd} {nbrs : V → List (V × C)} {src : V}

theorem relax_cases (key : C) (s : Search V C heap.Q) (e : V × C) :
    (relax heap key s e = s ∧ ∃ cur, s.dist e.1 = some cur ∧ cur ≤ key + e.2) ∨
      (relax heap key s e = { s with
          dist := Function.update s.dist e.1 (some (key + e.2)), queue := heap.push s.queue (e.1, key + e.2) } ∧
        ∀ cur, s.dist e.1 = some cur → key + e.2 < cur) := by
  rw [relax]
  cases hdist : s.dist e.1 with
  | none =>
      right
      simp
  | some cur =>
      by_cases hless : key + e.2 < cur
      · right
        simp [hless]
      · left
        simp [hless, not_lt.mp hless]

omit [DecidableEq V] in
theorem Inv.skip {s : Search V C heap.Q} (h : Inv heap nbrs src (fun _ _ => True) s) {top : V × C} {queue : heap.Q}
    (hpop : heap.pop s.queue = some (top, queue)) (hvisited : top.1 ∈ s.visited) :
    Inv heap nbrs src (fun _ _ => True) { s with queue := queue } := by
  have hmem : ∀ {q}, q ∈ heap.items s.queue ↔ q = top ∨ q ∈ heap.items queue := by
    intro q
    rw [(heap.pop_spec hpop).1.mem_iff, List.mem_cons]
  refine ⟨h.walk, h.source, fun q hq => h.behind q (hmem.mpr (.inr hq)), fun v d hd => ?_, fun v hv => ?_, h.relaxed⟩
  · rcases h.queued v d hd with hv | hq
    · exact .inl hv
    · rcases hmem.mp hq with rfl | hq
      · exact .inl hvisited
      · exact .inr hq
  · obtain ⟨d, hd, hle⟩ := h.ahead v hv
    exact ⟨d, hd, fun q hq => hle q (hmem.mpr (.inr hq))⟩

theorem Inv.visit {s : Search V C heap.Q} (h : Inv heap nbrs src (fun _ _ => True) s) {top : V × C} {queue : heap.Q}
    (hpop : heap.pop s.queue = some (top, queue)) (hnew : top.1 ∉ s.visited) :
    Inv heap nbrs src (fun w _ => w ≠ top.1) { s with queue := queue, visited := insert top.1 s.visited } ∧
      Visiting heap top.1 top.2 { s with queue := queue, visited := insert top.1 s.visited } := by
  obtain ⟨hperm, hleast⟩ := heap.pop_spec hpop
  have hmem : ∀ {q}, q ∈ heap.items s.queue ↔ q = top ∨ q ∈ heap.items queue := by
    intro q
    rw [hperm.mem_iff, List.mem_cons]
  have hdist : s.dist top.1 = some top.2 := by
    obtain ⟨d, hd, hle⟩ := h.behind top (hmem.mpr (.inl rfl))
    rcases h.queued top.1 d hd with hv | hq
    · exact absurd hv hnew
    · rcases hmem.mp hq with heq | hq
      · rw [hd, ← heq]
      · rw [hd, le_antisymm hle (hleast _ hq)]
  refine ⟨⟨h.walk, h.source, fun q hq => h.behind q (hmem.mpr (.inr hq)), fun v d hd => ?_, fun v hv => ?_, ?_⟩,
    ⟨Finset.mem_insert_self .., hdist, hleast, fun w hw d hd => ?_⟩⟩
  · rcases h.queued v d hd with hv | hq
    · exact .inl (Finset.mem_insert_of_mem hv)
    · rcases hmem.mp hq with heq | hq
      · left
        rw [← heq]
        exact Finset.mem_insert_self ..
      · exact .inr hq
  · rcases Finset.mem_insert.mp hv with rfl | hv
    · exact ⟨top.2, hdist, hleast⟩
    · obtain ⟨d, hd, hle⟩ := h.ahead v hv
      exact ⟨d, hd, fun q hq => hle q (hmem.mpr (.inr hq))⟩
  · intro w hw f hf hne d hd
    exact h.relaxed w (Finset.mem_of_mem_insert_of_ne hw hne) f hf trivial d hd
  · rcases Finset.mem_insert.mp hw with rfl | hw
    · rw [hdist] at hd
      cases hd
      exact le_refl _
    · obtain ⟨d', hd', hle⟩ := h.ahead w hw
      rw [hd] at hd'
      cases hd'
      exact hle top (hmem.mpr (.inl rfl))

theorem Inv.followed {s : Search V C heap.Q} {v : V}
    (h : Inv heap nbrs src (fun w f => w ≠ v ∨ w = v ∧ f ∈ nbrs v) s) : Inv heap nbrs src (fun _ _ => True) s := by
  refine ⟨h.walk, h.source, h.behind, h.queued, h.ahead, fun w hw f hf _ => ?_⟩
  apply h.relaxed w hw f hf
  by_cases hwv : w = v
  · subst hwv
    exact .inr ⟨rfl, hf⟩
  · exact .inl hwv

variable [IsOrderedAddMonoid C]

theorem Inv.relax {followed : V → V × C → Prop} {s : Search V C heap.Q} (h : Inv heap nbrs src followed s)
    {v : V} {key : C} (hv : Visiting heap v key s) {e : V × C} (he : e ∈ nbrs v) (hcost : 0 ≤ e.2) :
    Inv heap nbrs src (fun w f => followed w f ∨ w = v ∧ f = e) (relax heap key s e) ∧
      Visiting heap v key (ShortestPaths.relax heap key s e) := by
  have halt : key ≤ key + e.2 := le_add_of_nonneg_right hcost
  rcases relax_cases key s e with ⟨heq, cur, hcur, hle⟩ | ⟨heq, hbetter⟩
  · rw [heq]
    refine ⟨⟨h.walk, h.source, h.behind, h.queued, h.ahead, ?_⟩, hv⟩
    rintro w hw f hf (hfollowed | ⟨rfl, rfl⟩) d hd
    · exact h.relaxed w hw f hf hfollowed d hd
    · rw [hv.dist] at hd
      cases hd
      exact ⟨cur, hcur, hle⟩
  · rw [heq]
    -- what is visited already is no farther than the node
    have hnew : e.1 ∉ s.visited := by
      intro hvisited
      obtain ⟨d, hd, _⟩ := h.ahead e.1 hvisited
      have hfar := hbetter d hd
      have hnear := hv.most e.1 hvisited d hd
      exact absurd (hfar.trans_le hnear) (not_lt.mpr halt)
    have hkeep : ∀ {w}, w ∈ s.visited → Function.update s.dist e.1 (some (key + e.2)) w = s.dist w := by
      intro w hw
      apply Function.update_of_ne
      rintro rfl
      exact hnew hw
    have hpush : ∀ {q}, q ∈ heap.items (heap.push s.queue (e.1, key + e.2)) ↔
        q = (e.1, key + e.2) ∨ q ∈ heap.items s.queue := by
      intro q
      rw [(heap.push_perm _ _).mem_iff, List.mem_cons]
    -- distances only fall
    have hfall : ∀ {w d}, s.dist w = some d →
        ∃ d', Function.update s.dist e.1 (some (key + e.2)) w = some d' ∧ d' ≤ d := by
      intro w d hd
      by_cases hw : w = e.1
      · subst hw
        exact ⟨key + e.2, Function.update_self .., le_of_lt (hbetter d hd)⟩
      · exact ⟨d, by rw [Function.update_of_ne hw, hd], le_refl d⟩
    refine ⟨⟨?_, ?_, ?_, ?_, ?_, ?_⟩, ⟨hv.visited, ?_, ?_, ?_⟩⟩ <;> dsimp only
    · intro w d hd
      by_cases hw : w = e.1
      · subst hw
        rw [Function.update_self, Option.some.injEq] at hd
        subst hd
        exact (h.walk v key hv.dist).snoc he
      · rw [Function.update_of_ne hw] at hd
        exact h.walk w d hd
    · obtain ⟨d, hd, hle⟩ := h.source
      obtain ⟨d', hd', hle'⟩ := hfall hd
      exact ⟨d', hd', hle'.trans hle⟩
    · intro q hq
      rcases hpush.mp hq with rfl | hq
      · exact ⟨_, Function.update_self .., le_refl _⟩
      · obtain ⟨d, hd, hle⟩ := h.behind q hq
        obtain ⟨d', hd', hle'⟩ := hfall hd
        exact ⟨d', hd', hle'.trans hle⟩
    · intro w d hd
      by_cases hw : w = e.1
      · subst hw
        rw [Function.update_self, Option.some.injEq] at hd
        subst hd
        exact .inr (hpush.mpr (.inl rfl))
      · rw [Function.update_of_ne hw] at hd
        exact (h.queued w d hd).imp id fun hq => hpush.mpr (.inr hq)
    · intro w hw
      obtain ⟨d, hd, hle⟩ := h.ahead w hw
      refine ⟨d, by rw [hkeep hw, hd], fun q hq => ?_⟩
      rcases hpush.mp hq with rfl | hq
      · exact (hv.most w hw d hd).trans halt
      · exact hle q hq
    · rintro w hw f hf hor d hd
      rw [hkeep hw] at hd
      rcases hor with hfollowed | ⟨rfl, rfl⟩
      · obtain ⟨d', hd', hle⟩ := h.relaxed w hw f hf hfollowed d hd
        obtain ⟨d'', hd'', hle'⟩ := hfall hd'
        exact ⟨d'', hd'', hle'.trans hle⟩
      · rw [hv.dist] at hd
        cases hd
        exact ⟨_, Function.update_self .., le_refl _⟩
    · rw [hkeep hv.visited, hv.dist]
    · intro q hq
      rcases hpush.mp hq with rfl | hq
      · exact halt
      · exact hv.least q hq
    · intro w hw d hd
      rw [hkeep hw] at hd
      exact hv.most w hw d hd

theorem Inv.relaxAll {followed : V → V × C → Prop} {s : Search V C heap.Q} (h : Inv heap nbrs src followed s)
    {v : V} {key : C} (hv : Visiting heap v key s) {es : List (V × C)} (hes : ∀ e ∈ es, e ∈ nbrs v ∧ 0 ≤ e.2) :
    Inv heap nbrs src (fun w f => followed w f ∨ w = v ∧ f ∈ es) (es.foldl (ShortestPaths.relax heap key) s) := by
  induction es generalizing s followed with
  | nil => simpa using h
  | cons e es ih =>
      obtain ⟨he, hcost⟩ := hes e List.mem_cons_self
      obtain ⟨hone, hv'⟩ := h.relax hv he hcost
      have hrest := ih hone hv' fun f hf => hes f (List.mem_cons_of_mem e hf)
      refine ⟨hrest.walk, hrest.source, hrest.behind, hrest.queued, hrest.ahead, ?_⟩
      intro w hw f hf hor
      apply hrest.relaxed w hw f hf
      rcases hor with hfollowed | ⟨rfl, hmem⟩
      · exact .inl (.inl hfollowed)
      · rcases List.mem_cons.mp hmem with rfl | hmem
        · exact .inl (.inr ⟨rfl, rfl⟩)
        · exact .inr ⟨rfl, hmem⟩

theorem Inv.step {s : Search V C heap.Q} (h : Inv heap nbrs src (fun _ _ => True) s)
    (hcost : ∀ v, ∀ e ∈ nbrs v, 0 ≤ e.2) :
    Inv heap nbrs src (fun _ _ => True) (ShortestPaths.step heap nbrs s) := by
  rw [ShortestPaths.step]
  cases hpop : heap.pop s.queue with
  | none => exact h
  | some popped =>
      obtain ⟨top, queue⟩ := popped
      dsimp only
      split
      · next hvisited => exact h.skip hpop hvisited
      · next hnew =>
          obtain ⟨hfirst, hvisiting⟩ := h.visit hpop hnew
          exact (hfirst.relaxAll hvisiting fun e he => ⟨he, hcost top.1 e he⟩).followed

theorem Inv.turns {s : Search V C heap.Q} (h : Inv heap nbrs src (fun _ _ => True) s)
    (hcost : ∀ v, ∀ e ∈ nbrs v, 0 ≤ e.2)
    (n : Nat) : Inv heap nbrs src (fun _ _ => True) (ShortestPaths.turns heap nbrs n s) := by
  induction n generalizing s with
  | zero => exact h
  | succ n ih => exact ih (h.step hcost)

omit [IsOrderedAddMonoid C] in
theorem Inv.start : Inv heap nbrs src (fun _ _ => True) (ShortestPaths.start heap src) := by
  have hqueue : ∀ {q}, q ∈ heap.items (ShortestPaths.start heap src).queue ↔ q = (src, (0 : C)) := by
    intro q
    rw [ShortestPaths.start, (heap.push_perm _ _).mem_iff, heap.items_empty, List.mem_singleton]
  have hsource : (ShortestPaths.start heap src).dist src = some (0 : C) := by
    simp [ShortestPaths.start]
  have hdist : ∀ {v} {d : C}, (ShortestPaths.start heap src).dist v = some d → v = src ∧ d = 0 := by
    intro v d hd
    by_cases hv : v = src
    · subst hv
      rw [hsource] at hd
      cases hd
      exact ⟨rfl, rfl⟩
    · rw [ShortestPaths.start] at hd
      dsimp only at hd
      rw [Function.update_of_ne hv] at hd
      cases hd
  refine ⟨fun v d hd => ?_, ⟨0, hsource, le_refl 0⟩, fun q hq => ?_, fun v d hd => ?_, fun v hv => ?_, fun v hv => ?_⟩
  · obtain ⟨rfl, rfl⟩ := hdist hd
    exact Walk.nil
  · rw [hqueue.mp hq]
    exact ⟨0, hsource, le_refl 0⟩
  · obtain ⟨rfl, rfl⟩ := hdist hd
    exact .inr (hqueue.mpr rfl)
  · cases hv
  · cases hv

omit [DecidableEq V] in
theorem Inv.isLeast {s : Search V C heap.Q} (h : Inv heap nbrs src (fun _ _ => True) s)
    (hempty : heap.items s.queue = []) {v : V} :
    (∀ d, s.dist v = some d ↔ IsLeast {c | Walk nbrs src v c} d) ∧ (s.dist v = none ↔ ∀ c, ¬ Walk nbrs src v c) := by
  have hle : ∀ {v c}, Walk nbrs src v c → ∃ d, s.dist v = some d ∧ d ≤ c := by
    intro v c hwalk
    induction hwalk with
    | nil => exact h.source
    | @snoc v u c d _ hedge ih =>
        obtain ⟨dv, hdv, hle⟩ := ih
        have hvisited : v ∈ s.visited := by
          rcases h.queued v dv hdv with hv | hq
          · exact hv
          · rw [hempty] at hq
            cases hq
        obtain ⟨du, hdu, hle'⟩ := h.relaxed v hvisited (u, d) hedge trivial dv hdv
        exact ⟨du, hdu, hle'.trans (add_le_add_left hle d)⟩
  have hleast : ∀ {d}, s.dist v = some d → IsLeast {c | Walk nbrs src v c} d := by
    intro d hd
    refine ⟨h.walk v d hd, fun c hc => ?_⟩
    obtain ⟨d', hd', hle'⟩ := hle hc
    rw [hd] at hd'
    cases hd'
    exact hle'
  refine ⟨fun d => ⟨hleast, fun hd => ?_⟩, ⟨fun hnone c hc => ?_, fun hnone => ?_⟩⟩
  · obtain ⟨d', hd', _⟩ := hle hd.1
    rw [hd', (hleast hd').unique hd]
  · obtain ⟨d, hd, _⟩ := hle hc
    rw [hnone] at hd
    cases hd
  · rw [Option.eq_none_iff_forall_ne_some]
    intro d hd
    exact hnone d (h.walk v d hd)

variable (heap nbrs src) in
def distances (nodes : Finset V) : V → Option C :=
  (ShortestPaths.turns heap nbrs (fuel heap nbrs nodes (ShortestPaths.start heap src))
    (ShortestPaths.start heap src)).dist

variable (heap src) in
theorem distances_isLeast {nodes : Finset V} (hnodes : ∀ v, nbrs v ≠ [] → v ∈ nodes)
    (hcost : ∀ v, ∀ e ∈ nbrs v, 0 ≤ e.2) (v : V) :
    (∀ d, distances heap nbrs src nodes v = some d ↔ IsLeast {c | Walk nbrs src v c} d) ∧
      (distances heap nbrs src nodes v = none ↔ ∀ c, ¬ Walk nbrs src v c) :=
  (Inv.start.turns hcost _).isLeast (queue_turns hnodes (le_refl _))

end

section

omit [DecidableEq V] [LinearOrder C]

variable {nbrs nbrs' : V → List (V × C)} {src v : V} {c : C}

theorem Walk.mono (h : ∀ v, ∀ e ∈ nbrs v, e ∈ nbrs' v) (hwalk : Walk nbrs src v c) : Walk nbrs' src v c := by
  induction hwalk with
  | nil => exact Walk.nil
  | snoc _ hedge ih => exact ih.snoc (h _ _ hedge)

theorem walk_congr (h : ∀ v, (nbrs v).Perm (nbrs' v)) : Walk nbrs src v c ↔ Walk nbrs' src v c :=
  ⟨Walk.mono fun v _ he => (h v).mem_iff.mp he, Walk.mono fun v _ he => (h v).mem_iff.mpr he⟩

end

end MeshcoreAnalyzer.ShortestPaths

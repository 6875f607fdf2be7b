import Mathlib.Algebra.BigOperators.Ring.Finset
import Mathlib.Combinatorics.SimpleGraph.Connectivity.Connected
import Mathlib.Combinatorics.SimpleGraph.DeleteEdges
import Mathlib.Data.Set.Card
import Mathlib.Logic.Function.Basic

namespace MeshcoreAnalyzer.LowPoints

/-! A depth-first search with low points, and the pieces into which a graph falls without one of its nodes. -/

variable {V : Type}

structure Search (V : Type) where
  timer : Nat
  disc : V → Nat
  low : V → Nat
  size : V → Nat
  sep : V → List Nat
  acc : List V

section

variable [DecidableEq V]

def enter (u : V) (s : Search V) : Search V where
  timer := s.timer + 1
  disc := Function.update s.disc u (s.timer + 1)
  low := Function.update s.low u (s.timer + 1)
  size := Function.update s.size u 1
  sep := s.sep
  acc := s.acc ++ [u]

def lowerTo (u : V) (t : Nat) (s : Search V) : Search V :=
  if t < s.low u then { s with low := Function.update s.low u t } else s

def leave (u v : V) (s : Search V) : Search V :=
  let s := lowerTo u (s.low v) { s with size := Function.update s.size u (s.size u + s.size v) }
  if s.disc u ≤ s.low v then { s with sep := Function.update s.sep u (s.sep u ++ [s.size v]) } else s

/-- One turn of the loop over the neighbours; the flag tells whether the edge to the parent has been skipped. -/
def turn (dfs : V → V → Search V → Search V) (u parent : V) (st : Bool × Search V) (v : V) : Bool × Search V :=
  if v = parent ∧ st.1 = false then (true, st.2)
  else if st.2.disc v = 0 then (st.1, leave u v (dfs v u st.2))
  else (st.1, lowerTo u (st.2.disc v) st.2)

def dfs (nbrs : V → List V) : Nat → V → V → Search V → Search V
  | 0, _, _, s => s
  | n + 1, u, parent, s => ((nbrs u).foldl (turn (dfs nbrs n) u parent) (false, enter u s)).2

end

def Avoids (G : SimpleGraph V) (v x y : V) : Prop := (G.deleteIncidenceSet v).Reachable x y

structure Piece (G : SimpleGraph V) (v : V) (p : List V) : Prop where
  ne : ∀ x ∈ p, x ≠ v
  linked : ∀ x ∈ p, ∀ y ∈ p, Avoids G v x y
  closed : ∀ x ∈ p, ∀ w, G.Adj x w → w ∈ p ∨ w = v

/-- Of some nodes, the pieces with these sizes are told apart, and something holds of the rest. -/
def Cuts (G : SimpleGraph V) (v : V) (sizes : List Nat) (T : List V) (rest : V → Prop) : Prop :=
  ∃ pieces : List (List V), pieces.map List.length = sizes ∧ pieces.flatten.Nodup ∧
    (∀ p ∈ pieces, Piece G v p ∧ ∀ x ∈ p, x ∈ T) ∧ ∀ x ∈ T, x ≠ v → x ∉ pieces.flatten → rest x

section

variable {G : SimpleGraph V} {v x y z : V}

theorem Avoids.refl : Avoids G v x x := SimpleGraph.Reachable.refl x

theorem Avoids.symm (h : Avoids G v x y) : Avoids G v y x := SimpleGraph.Reachable.symm h

theorem Avoids.trans (h : Avoids G v x y) (h' : Avoids G v y z) : Avoids G v x z := SimpleGraph.Reachable.trans h h'

theorem Avoids.of_adj (h : G.Adj x y) (hx : x ≠ v) (hy : y ≠ v) : Avoids G v x y :=
  SimpleGraph.Adj.reachable (SimpleGraph.deleteIncidenceSet_adj.mpr ⟨h, hx, hy⟩)

theorem Avoids.mem_of_closed {p : V → Prop} (hclosed : ∀ x, p x → ∀ w, G.Adj x w → p w ∨ w = v) (h : Avoids G v x y)
    (hx : p x) : p y := by
  rw [Avoids, SimpleGraph.reachable_iff_reflTransGen] at h
  induction h with
  | refl => exact hx
  | tail _ hedge ih =>
      obtain ⟨hadj, _, hne⟩ := SimpleGraph.deleteIncidenceSet_adj.mp hedge
      exact (hclosed _ ih _ hadj).resolve_right hne

theorem Cuts.imp {sizes : List Nat} {T : List V} {rest rest' : V → Prop} (h : Cuts G v sizes T rest)
    (himp : ∀ x ∈ T, x ≠ v → rest x → rest' x) : Cuts G v sizes T rest' := by
  obtain ⟨pieces, hsizes, hnodup, hpieces, hrest⟩ := h
  exact ⟨pieces, hsizes, hnodup, hpieces, fun x hx hne hout => himp x hx hne (hrest x hx hne hout)⟩

theorem Cuts.append {sizes : List Nat} {T T' : List V} {rest : V → Prop} (h : Cuts G v sizes T rest)
    (hmore : ∀ x ∈ T', rest x) : Cuts G v sizes (T ++ T') rest := by
  obtain ⟨pieces, hsizes, hnodup, hpieces, hrest⟩ := h
  refine ⟨pieces, hsizes, hnodup, fun p hp => ⟨(hpieces p hp).1, fun x hx => ?_⟩, fun x hx hne hout => ?_⟩
  · exact List.mem_append_left _ ((hpieces p hp).2 x hx)
  · rcases List.mem_append.mp hx with hx | hx
    · exact hrest x hx hne hout
    · exact hmore x hx

theorem Cuts.prepend {sizes : List Nat} {T T' : List V} {rest : V → Prop} (h : Cuts G v sizes T' rest)
    (hmore : ∀ x ∈ T, rest x) : Cuts G v sizes (T ++ T') rest := by
  obtain ⟨pieces, hsizes, hnodup, hpieces, hrest⟩ := h
  refine ⟨pieces, hsizes, hnodup, fun p hp => ⟨(hpieces p hp).1, fun x hx => ?_⟩, fun x hx hne hout => ?_⟩
  · exact List.mem_append_right _ ((hpieces p hp).2 x hx)
  · rcases List.mem_append.mp hx with hx | hx
    · exact hmore x hx
    · exact hrest x hx hne hout

theorem Cuts.snoc {sizes : List Nat} {T p : List V} {rest : V → Prop} (h : Cuts G v sizes T rest) (hp : Piece G v p)
    (hnodup : p.Nodup) (hdisjoint : ∀ x ∈ p, x ∉ T) : Cuts G v (sizes ++ [p.length]) (T ++ p) rest := by
  obtain ⟨pieces, hsizes, hnodups, hpieces, hrest⟩ := h
  refine ⟨pieces ++ [p], ?_, ?_, fun q hq => ?_, fun x hx hne hout => ?_⟩
  · rw [List.map_append, hsizes, List.map_singleton]
  · rw [List.flatten_append, List.flatten_singleton, List.nodup_append']
    refine ⟨hnodups, hnodup, fun x hx hx' => ?_⟩
    obtain ⟨q, hq, hxq⟩ := List.mem_flatten.mp hx
    exact hdisjoint x hx' ((hpieces q hq).2 x hxq)
  · rcases List.mem_append.mp hq with hq | hq
    · exact ⟨(hpieces q hq).1, fun x hx => List.mem_append_left _ ((hpieces q hq).2 x hx)⟩
    · rw [List.mem_singleton.mp hq]
      exact ⟨hp, fun x hx => List.mem_append_right _ hx⟩
  · rw [List.flatten_append, List.flatten_singleton, List.mem_append, not_or] at hout
    rcases List.mem_append.mp hx with hx | hx
    · exact hrest x hx hne hout.1
    · exact absurd hx hout.2

end

section

variable [DecidableEq V] (u v : V) (t : Nat) (s : Search V)

@[simp] theorem lowerTo_timer : (lowerTo u t s).timer = s.timer := by
  rw [lowerTo]
  split <;> rfl

@[simp] theorem lowerTo_disc : (lowerTo u t s).disc = s.disc := by
  rw [lowerTo]
  split <;> rfl

@[simp] theorem lowerTo_size : (lowerTo u t s).size = s.size := by
  rw [lowerTo]
  split <;> rfl

@[simp] theorem lowerTo_sep : (lowerTo u t s).sep = s.sep := by
  rw [lowerTo]
  split <;> rfl

@[simp] theorem lowerTo_acc : (lowerTo u t s).acc = s.acc := by
  rw [lowerTo]
  split <;> rfl

theorem lowerTo_low : (lowerTo u t s).low = Function.update s.low u (min (s.low u) t) := by
  rw [lowerTo]
  split
  · next h => rw [min_eq_right (le_of_lt h)]
  · next h => rw [min_eq_left (not_lt.mp h), Function.update_eq_self]

@[simp] theorem leave_timer : (leave u v s).timer = s.timer := by
  rw [leave]
  split <;> exact lowerTo_timer ..

@[simp] theorem leave_disc : (leave u v s).disc = s.disc := by
  rw [leave]
  split <;> exact lowerTo_disc ..

@[simp] theorem leave_acc : (leave u v s).acc = s.acc := by
  rw [leave]
  split <;> exact lowerTo_acc ..

@[simp] theorem leave_size : (leave u v s).size = Function.update s.size u (s.size u + s.size v) := by
  rw [leave]
  split <;> exact lowerTo_size ..

@[simp] theorem leave_low : (leave u v s).low = Function.update s.low u (min (s.low u) (s.low v)) := by
  rw [leave]
  split <;> exact lowerTo_low ..

theorem leave_sep {u v : V} (h : v ≠ u) (s : Search V) :
    (leave u v s).sep = if s.disc u ≤ s.low v then Function.update s.sep u (s.sep u ++ [s.size v]) else s.sep := by
  rw [leave]
  simp only [lowerTo_low, lowerTo_disc, Function.update_of_ne h]
  split
  · simp [Function.update_of_ne h]
  · simp

end

/-- What holds of a search between two visits; the gray nodes are those whose visits are not over. -/
structure Ready (G : SimpleGraph V) (A : Set V) (s : Search V) : Prop where
  bound : ∀ x, s.disc x ≤ s.timer
  gray : ∀ a ∈ A, s.disc a ≠ 0
  black : ∀ x, s.disc x ≠ 0 → x ∉ A → ∀ w, G.Adj x w → s.disc w ≠ 0
  unseen : ∀ x, s.disc x = 0 → s.sep x = []

def Linked (G : SimpleGraph V) (A : Set V) : Prop := ∀ w ∉ A, ∀ a ∈ A, ∀ b ∈ A, Avoids G w a b

/-- The visit of a node has discovered some nodes, and the loop has passed some of its neighbours. -/
structure Visited (G : SimpleGraph V) (A : Set V) (u parent : V) (passed : V → Prop) (s s' : Search V) (T : List V) :
    Prop where
  acc : s'.acc = s.acc ++ T
  nodup : T.Nodup
  head : u ∈ T
  fresh : ∀ x ∈ T, s.disc x = 0
  timer : s.timer ≤ s'.timer
  bound : ∀ x, s'.disc x ≤ s'.timer
  disc : ∀ x ∉ T, s'.disc x = s.disc x
  sep : ∀ x ∉ T, s'.sep x = s.sep x
  size_other : ∀ x ∉ T, s'.size x = s.size x
  low_other : ∀ x ∉ T, s'.low x = s.low x
  late : ∀ x ∈ T, s.timer < s'.disc x
  size : s'.size u = T.length
  closed : ∀ x ∈ T, ∀ w, G.Adj x w → (x = u → passed w) → w ∈ T ∨ w ∈ A
  linked : ∀ w ∉ T, ∀ x ∈ T, Avoids G w u x
  reach : ∀ x ∈ T, G.Reachable u x
  low_le_disc : s'.low u ≤ s'.disc u
  low_le : ∀ x ∈ T, ∀ w, G.Adj x w → (x = u → passed w) → w ≠ parent → s'.low u ≤ s'.disc w
  low_mem : s'.low u = s'.disc u ∨ ∃ x ∈ T, ∃ w, G.Adj x w ∧ s'.disc w ≠ 0 ∧ s'.low u = s'.disc w
  inner : ∀ y ∈ T, y ≠ u → Cuts G y (s'.sep y) T fun x => Avoids G y x u
  root : Cuts G u (s'.sep u) T fun x => ∃ a ∈ A, Avoids G u x a

section

variable {G : SimpleGraph V} {A : Set V} {u v parent : V} {passed : V → Prop} {s s' : Search V} {T T' : List V}

theorem Linked.insert (h : Linked G A) (hu : A = ∅ ∨ ∃ p ∈ A, G.Adj p u) : Linked G (insert u A) := by
  intro w hw a ha b hb
  rw [Set.mem_insert_iff, not_or] at hw
  obtain ⟨hwu, hwA⟩ := hw
  have hto : ∀ a ∈ A, Avoids G w a u := by
    intro a ha
    rcases hu with rfl | ⟨p, hp, hadj⟩
    · cases ha
    · have hpw : p ≠ w := by
        rintro rfl
        exact hwA hp
      exact (h w hwA a ha p hp).trans (.of_adj hadj hpw fun h => hwu h.symm)
  rcases ha with rfl | ha <;> rcases hb with rfl | hb
  · exact .refl
  · exact (hto b hb).symm
  · exact hto a ha
  · exact h w hwA a ha b hb

theorem Visited.ready (h : Visited G A u parent passed s s' T) (hs : Ready G A s) : Ready G (insert u A) s' := by
  have hnew : ∀ x ∈ T, s'.disc x ≠ 0 := fun x hx => Nat.ne_of_gt (Nat.lt_of_le_of_lt (Nat.zero_le _) (h.late x hx))
  have hkeep : ∀ x, s.disc x ≠ 0 → s'.disc x ≠ 0 := by
    intro x hx
    by_cases hmem : x ∈ T
    · exact hnew x hmem
    · rwa [h.disc x hmem]
  refine ⟨h.bound, fun a ha => ?_, fun x hx hout w hadj => ?_, fun x hx => ?_⟩
  · rcases Set.mem_insert_iff.mp ha with rfl | ha
    · exact hnew _ h.head
    · exact hkeep a (hs.gray a ha)
  · rw [Set.mem_insert_iff, not_or] at hout
    by_cases hmem : x ∈ T
    · rcases h.closed x hmem w hadj fun h => absurd h hout.1 with hw | hw
      · exact hnew w hw
      · exact hkeep w (hs.gray w hw)
    · rw [h.disc x hmem] at hx
      exact hkeep w (hs.black x hx hout.2 w hadj)
  · have hmem : x ∉ T := fun hmem => hnew x hmem hx
    rw [h.sep x hmem]
    rw [h.disc x hmem] at hx
    exact hs.unseen x hx

variable [DecidableEq V]

theorem visited_enter (hs : Ready G A s) (hu : s.disc u = 0) :
    Visited G A u parent (fun _ => False) s (enter u s) [u] where
  acc := rfl
  nodup := List.nodup_singleton u
  head := List.mem_singleton_self u
  fresh := fun x hx => by rwa [List.mem_singleton.mp hx]
  timer := Nat.le_succ _
  bound := fun x => by
    by_cases hx : x = u
    · simp [enter, hx]
    · simpa [enter, hx] using Nat.le_succ_of_le (hs.bound x)
  disc := fun x hx => by simp [enter, List.mem_singleton.not.mp hx]
  sep := fun x _ => rfl
  size_other := fun x hx => by simp [enter, List.mem_singleton.not.mp hx]
  low_other := fun x hx => by simp [enter, List.mem_singleton.not.mp hx]
  late := fun x hx => by simp [enter, List.mem_singleton.mp hx]
  size := by simp [enter]
  closed := fun x hx w _ hpassed => (hpassed (List.mem_singleton.mp hx)).elim
  linked := fun w _ x hx => by
    rw [List.mem_singleton.mp hx]
    exact .refl
  reach := fun x hx => by rw [List.mem_singleton.mp hx]
  low_le_disc := by simp [enter]
  low_le := fun x hx w _ hpassed => (hpassed (List.mem_singleton.mp hx)).elim
  low_mem := .inl (by simp [enter])
  inner := fun y hy hne => absurd (List.mem_singleton.mp hy) hne
  root := by
    have hsep : (enter u s).sep u = [] := hs.unseen u hu
    rw [hsep]
    exact ⟨[], rfl, List.nodup_nil, fun p hp => absurd hp List.not_mem_nil, fun x hx hne =>
      absurd (List.mem_singleton.mp hx) hne⟩

theorem Visited.skipParent (h : Visited G A u parent passed s s' T) (hparent : parent ∈ A) :
    Visited G A u parent (fun w => passed w ∨ w = parent) s s' T := by
  refine { h with closed := fun x hx w hadj hpassed => ?_, low_le := fun x hx w hadj hpassed hne => ?_ }
  · by_cases hw : w = parent
    · rw [hw]
      exact .inr hparent
    · exact h.closed x hx w hadj fun hxu => (hpassed hxu).resolve_right hw
  · exact h.low_le x hx w hadj (fun hxu => (hpassed hxu).resolve_right hne) hne

theorem Visited.passBack (h : Visited G A u parent passed s s' T) (hs : Ready G A s) (hu : s.disc u = 0)
    (hadj : G.Adj u v) (hv : s'.disc v ≠ 0) :
    Visited G A u parent (fun w => passed w ∨ w = v) s (lowerTo u (s'.disc v) s') T where
  acc := by rw [lowerTo_acc, h.acc]
  nodup := h.nodup
  head := h.head
  fresh := h.fresh
  timer := by
    rw [lowerTo_timer]
    exact h.timer
  bound := by
    rw [lowerTo_disc, lowerTo_timer]
    exact h.bound
  disc := by
    rw [lowerTo_disc]
    exact h.disc
  sep := by
    rw [lowerTo_sep]
    exact h.sep
  size_other := by
    rw [lowerTo_size]
    exact h.size_other
  low_other := by
    intro x hx
    have hne : x ≠ u := by
      rintro rfl
      exact hx h.head
    rw [lowerTo_low, Function.update_of_ne hne, h.low_other x hx]
  late := by
    rw [lowerTo_disc]
    exact h.late
  size := by
    rw [lowerTo_size, h.size]
  closed := by
    intro x hx w hw hpassed
    by_cases hwv : x = u ∧ w = v
    · obtain ⟨rfl, rfl⟩ := hwv
      by_cases hmem : w ∈ T
      · exact .inl hmem
      · -- a neighbour whose visit is over would have been visited from there
        rw [h.disc w hmem] at hv
        by_contra hout
        exact hs.black w hv (fun hA => hout (.inr hA)) x hw.symm hu
    · exact h.closed x hx w hw fun hxu => (hpassed hxu).resolve_right fun hwv' => hwv ⟨hxu, hwv'⟩
  linked := h.linked
  reach := h.reach
  low_le_disc := by
    rw [lowerTo_low, lowerTo_disc, Function.update_self]
    exact (min_le_left _ _).trans h.low_le_disc
  low_le := by
    intro x hx w hw hpassed hne
    rw [lowerTo_low, lowerTo_disc, Function.update_self]
    by_cases hwv : x = u ∧ w = v
    · rw [hwv.2]
      exact min_le_right _ _
    · have hold := h.low_le x hx w hw (fun hxu => (hpassed hxu).resolve_right fun hwv' => hwv ⟨hxu, hwv'⟩) hne
      exact (min_le_left _ _).trans hold
  low_mem := by
    rw [lowerTo_low, lowerTo_disc, Function.update_self]
    rcases min_choice (s'.low u) (s'.disc v) with heq | heq
    · rw [heq]
      exact h.low_mem
    · rw [heq]
      exact .inr ⟨u, h.head, v, hadj, hv, rfl⟩
  inner := by
    rw [lowerTo_sep]
    exact h.inner
  root := by
    rw [lowerTo_sep]
    exact h.root

end

section

variable {G : SimpleGraph V} {A : Set V} {u v parent : V} {passed : V → Prop} {s s' t : Search V} {T T' : List V}

theorem Visited.disc_pos (h : Visited G A u parent passed s s' T) {x : V} (hx : x ∈ T) : s'.disc x ≠ 0 :=
  Nat.ne_of_gt (Nat.lt_of_le_of_lt (Nat.zero_le _) (h.late x hx))

theorem Visited.notMem (h : Visited G A u parent passed s s' T) {x : V} (hx : s.disc x ≠ 0) : x ∉ T :=
  fun hmem => hx (h.fresh x hmem)

theorem Visited.piece (h : Visited G A u parent passed s s' T) (hs : Ready G A s)
    (hc : Visited G (insert u A) v u (fun _ => True) s' t T') (hlow : t.disc u ≤ t.low v) : Piece G u T' := by
  have hu : u ∉ T' := hc.notMem (h.disc_pos h.head)
  refine ⟨fun x hx => ?_, fun x hx y hy => ?_, fun x hx w hadj => ?_⟩
  · rintro rfl
    exact hu hx
  · exact (hc.linked u hu x hx).symm.trans (hc.linked u hu y hy)
  · rcases hc.closed x hx w hadj fun _ => trivial with hw | rfl | hw
    · exact .inl hw
    · exact .inr rfl
    · -- the gray nodes above were discovered earlier
      have hwT : w ∉ T := h.notMem (hs.gray w hw)
      have hwT' : w ∉ T' := by
        apply hc.notMem
        rw [h.disc w hwT]
        exact hs.gray w hw
      have hne : w ≠ u := by
        rintro rfl
        exact hwT h.head
      have hlate := h.late u h.head
      have hearly := hs.bound w
      have hle := hc.low_le x hx w hadj (fun _ => trivial) hne
      rw [hc.disc w hwT', h.disc w hwT] at hle
      rw [hc.disc u hu] at hlow
      omega

theorem Visited.attached (h : Visited G A u parent passed s s' T)
    (hc : Visited G (insert u A) v u (fun _ => True) s' t T') (hlow : ¬ t.disc u ≤ t.low v) :
    ∃ a ∈ A, ∀ x ∈ T', Avoids G u x a := by
  have hu : u ∉ T' := hc.notMem (h.disc_pos h.head)
  have hlate : ∀ x ∈ T', t.disc u < t.disc x := by
    intro x hx
    rw [hc.disc u hu]
    exact Nat.lt_of_le_of_lt (h.bound u) (hc.late x hx)
  rcases hc.low_mem with heq | ⟨x, hx, w, hadj, _, heq⟩
  · have hv := hlate v hc.head
    omega
  · have hw : w ∉ T' := by
      intro hw
      have hlt := hlate w hw
      omega
    have hne : w ≠ u := by
      rintro rfl
      omega
    have hxu : x ≠ u := by
      rintro rfl
      exact hu hx
    have hA : w ∈ A := by
      rcases hc.closed x hx w hadj fun _ => trivial with hmem | hmem | hmem
      · exact absurd hmem hw
      · exact absurd hmem hne
      · exact hmem
    refine ⟨w, hA, fun y hy => ?_⟩
    have hyx : Avoids G u y x := (hc.linked u hu y hy).symm.trans (hc.linked u hu x hx)
    exact hyx.trans (.of_adj hadj hxu hne)

variable [DecidableEq V]

theorem Visited.root_leave (h : Visited G A u parent passed s s' T) (hs : Ready G A s)
    (hc : Visited G (insert u A) v u (fun _ => True) s' t T') :
    Cuts G u ((leave u v t).sep u) (T ++ T') fun x => ∃ a ∈ A, Avoids G u x a := by
  have hu : u ∉ T' := hc.notMem (h.disc_pos h.head)
  have hne : v ≠ u := by
    rintro rfl
    exact hu hc.head
  have hdisjoint : ∀ x ∈ T', x ∉ T := fun x hx hmem => h.disc_pos hmem (hc.fresh x hx)
  rw [leave_sep hne]
  split
  · next hlow =>
      rw [Function.update_self, hc.sep u hu, hc.size]
      exact h.root.snoc (h.piece hs hc hlow) hc.nodup hdisjoint
  · next hlow =>
      obtain ⟨a, ha, hattached⟩ := h.attached hc hlow
      rw [hc.sep u hu]
      exact h.root.append fun x hx => ⟨a, ha, hattached x hx⟩

theorem Visited.inner_leave (h : Visited G A u parent passed s s' T) (hs : Ready G A s) (hadj : G.Adj u v)
    (hlinked : Linked G (insert u A)) (hc : Visited G (insert u A) v u (fun _ => True) s' t T') :
    ∀ y ∈ T ++ T', y ≠ u → Cuts G y ((leave u v t).sep y) (T ++ T') fun x => Avoids G y x u := by
  have hu : u ∉ T' := hc.notMem (h.disc_pos h.head)
  have hvu : v ≠ u := by
    rintro rfl
    exact hu hc.head
  have hdisjoint : ∀ x ∈ T', x ∉ T := fun x hx hmem => h.disc_pos hmem (hc.fresh x hx)
  intro y hy hne
  have hsep : (leave u v t).sep y = t.sep y := by
    rw [leave_sep hvu]
    split
    · rw [Function.update_of_ne hne]
    · rfl
  rw [hsep]
  rcases List.mem_append.mp hy with hy | hy
  · have hyT' : y ∉ T' := fun hmem => hdisjoint y hmem hy
    have hyv : v ≠ y := by
      rintro rfl
      exact hyT' hc.head
    rw [hc.sep y hyT']
    apply (h.inner y hy hne).append
    intro x hx
    exact (hc.linked y hyT' x hx).symm.trans (.of_adj hadj.symm hyv fun h => hne h.symm)
  · have hyT : y ∉ T := hdisjoint y hy
    have hfirst : ∀ x ∈ T, Avoids G y x u := fun x hx => (h.linked y hyT x hx).symm
    by_cases hyv : y = v
    · subst hyv
      apply Cuts.prepend _ hfirst
      apply hc.root.imp
      rintro x _ _ ⟨a, ha, hxa⟩
      apply hxa.trans
      apply hlinked y _ a ha u (Set.mem_insert u A)
      rintro (rfl | hyA)
      · exact hne rfl
      · have hgray := hs.gray y hyA
        have hfresh := hc.fresh y hc.head
        rw [h.disc y hyT] at hfresh
        exact hgray hfresh
    · apply Cuts.prepend _ hfirst
      apply (hc.inner y hy hyv).imp
      intro x _ _ hxv
      exact hxv.trans (.of_adj hadj.symm (fun h => hyv h.symm) fun h => hne h.symm)

theorem Visited.passChild (h : Visited G A u parent passed s s' T) (hs : Ready G A s) (hadj : G.Adj u v)
    (hlinked : Linked G (insert u A)) (hc : Visited G (insert u A) v u (fun _ => True) s' t T') :
    Visited G A u parent (fun w => passed w ∨ w = v) s (leave u v t) (T ++ T') := by
  have hu : u ∉ T' := hc.notMem (h.disc_pos h.head)
  have hdisjoint : ∀ x ∈ T', x ∉ T := fun x hx hmem => h.disc_pos hmem (hc.fresh x hx)
  have hkeep : ∀ x ∈ T, x ∉ T' := fun x hx hmem => hdisjoint x hmem hx
  have hother : ∀ x ∉ T ++ T', x ≠ u ∧ x ∉ T ∧ x ∉ T' := by
    intro x hx
    rw [List.mem_append, not_or] at hx
    refine ⟨?_, hx⟩
    rintro rfl
    exact hx.1 h.head
  have hvu : v ≠ u := by
    rintro rfl
    exact hu hc.head
  constructor
  case acc => rw [leave_acc, hc.acc, h.acc, List.append_assoc]
  case nodup =>
    rw [List.nodup_append']
    exact ⟨h.nodup, hc.nodup, fun x hx hx' => hdisjoint x hx' hx⟩
  case head => exact List.mem_append_left _ h.head
  case fresh =>
    intro x hx
    rcases List.mem_append.mp hx with hx | hx
    · exact h.fresh x hx
    · rw [← h.disc x (hdisjoint x hx), hc.fresh x hx]
  case timer =>
    rw [leave_timer]
    exact h.timer.trans hc.timer
  case bound =>
    rw [leave_disc, leave_timer]
    exact hc.bound
  case disc =>
    intro x hx
    obtain ⟨_, hxT, hxT'⟩ := hother x hx
    rw [leave_disc, hc.disc x hxT', h.disc x hxT]
  case sep =>
    intro x hx
    obtain ⟨hxu, hxT, hxT'⟩ := hother x hx
    rw [leave_sep hvu]
    split
    · rw [Function.update_of_ne hxu, hc.sep x hxT', h.sep x hxT]
    · rw [hc.sep x hxT', h.sep x hxT]
  case size_other =>
    intro x hx
    obtain ⟨hxu, hxT, hxT'⟩ := hother x hx
    rw [leave_size, Function.update_of_ne hxu, hc.size_other x hxT', h.size_other x hxT]
  case low_other =>
    intro x hx
    obtain ⟨hxu, hxT, hxT'⟩ := hother x hx
    rw [leave_low, Function.update_of_ne hxu, hc.low_other x hxT', h.low_other x hxT]
  case late =>
    intro x hx
    rw [leave_disc]
    rcases List.mem_append.mp hx with hx | hx
    · rw [hc.disc x (hkeep x hx)]
      exact h.late x hx
    · exact Nat.lt_of_le_of_lt h.timer (hc.late x hx)
  case size => rw [leave_size, Function.update_self, hc.size_other u hu, h.size, hc.size, List.length_append]
  case closed =>
    intro x hx w hw hpassed
    rw [List.mem_append]
    rcases List.mem_append.mp hx with hx | hx
    · by_cases hwv : w = v
      · rw [hwv]
        exact .inl (.inr hc.head)
      · rcases h.closed x hx w hw fun hxu => (hpassed hxu).resolve_right hwv with hmem | hmem
        · exact .inl (.inl hmem)
        · exact .inr hmem
    · rcases hc.closed x hx w hw fun _ => trivial with hmem | rfl | hmem
      · exact .inl (.inr hmem)
      · exact .inl (.inl h.head)
      · exact .inr hmem
  case linked =>
    intro w hw x hx
    obtain ⟨hwu, hwT, hwT'⟩ := hother w hw
    rcases List.mem_append.mp hx with hx | hx
    · exact h.linked w hwT x hx
    · have hvw : v ≠ w := by
        rintro rfl
        exact hwT' hc.head
      exact (Avoids.of_adj hadj (fun h => hwu h.symm) hvw).trans (hc.linked w hwT' x hx)
  case reach =>
    intro x hx
    rcases List.mem_append.mp hx with hx | hx
    · exact h.reach x hx
    · exact hadj.reachable.trans (hc.reach x hx)
  case low_le_disc =>
    rw [leave_low, leave_disc, Function.update_self, hc.low_other u hu, hc.disc u hu]
    exact (min_le_left _ _).trans h.low_le_disc
  case low_le =>
    intro x hx w hw hpassed hne
    rw [leave_low, leave_disc, Function.update_self, hc.low_other u hu]
    rcases List.mem_append.mp hx with hx | hx
    · by_cases hwv : x = u ∧ w = v
      · rw [hwv.2]
        exact (min_le_right _ _).trans hc.low_le_disc
      · have hpassed' : x = u → passed w := fun hxu => (hpassed hxu).resolve_right fun hwv' => hwv ⟨hxu, hwv'⟩
        have hle := h.low_le x hx w hw hpassed' hne
        have hwT' : w ∉ T' := by
          rcases h.closed x hx w hw hpassed' with hmem | hmem
          · exact hkeep w hmem
          · apply hc.notMem
            by_cases hwT : w ∈ T
            · exact h.disc_pos hwT
            · rw [h.disc w hwT]
              exact hs.gray w hmem
        rw [hc.disc w hwT']
        exact (min_le_left _ _).trans hle
    · by_cases hwu : w = u
      · rw [hwu, hc.disc u hu]
        exact (min_le_left _ _).trans h.low_le_disc
      · exact (min_le_right _ _).trans (hc.low_le x hx w hw (fun _ => trivial) hwu)
  case low_mem =>
    rw [leave_low, leave_disc, Function.update_self, hc.low_other u hu]
    rcases min_choice (s'.low u) (t.low v) with heq | heq
    · rw [heq]
      rcases h.low_mem with hlow | ⟨x, hx, w, hw, hdisc, hlow⟩
      · left
        rw [hlow, hc.disc u hu]
      · right
        have hwT' := hc.notMem hdisc
        refine ⟨x, List.mem_append_left _ hx, w, hw, ?_, ?_⟩
        · rwa [hc.disc w hwT']
        · rw [hlow, hc.disc w hwT']
    · rw [heq]
      right
      rcases hc.low_mem with hlow | ⟨x, hx, w, hw, hdisc, hlow⟩
      · exact ⟨u, List.mem_append_left _ h.head, v, hadj, hc.disc_pos hc.head, hlow⟩
      · exact ⟨x, List.mem_append_right _ hx, w, hw, hdisc, hlow⟩
  case inner => exact h.inner_leave hs hadj hlinked hc
  case root => exact h.root_leave hs hc

end

section

variable {G : SimpleGraph V} {A : Set V} {u parent : V} {passed : V → Prop} {s s' : Search V} {T : List V}

theorem Visited.over (h : Visited G A u parent passed s s' T) (hpassed : ∀ w, G.Adj u w → passed w) :
    Visited G A u parent (fun _ => True) s s' T := by
  refine { h with closed := fun x hx w hadj _ => ?_, low_le := fun x hx w hadj _ hne => ?_ }
  · apply h.closed x hx w hadj
    rintro rfl
    exact hpassed w hadj
  · apply h.low_le x hx w hadj _ hne
    rintro rfl
    exact hpassed w hadj

theorem Visited.finish (h : Visited G A u parent (fun _ => True) s s' T) (hs : Ready G A s) : Ready G A s' := by
  have hready := h.ready hs
  refine ⟨hready.bound, fun a ha => hready.gray a (Set.mem_insert_of_mem u ha), fun x hx hout w hadj => ?_,
    hready.unseen⟩
  by_cases hxu : x = u
  · subst hxu
    rcases h.closed x h.head w hadj fun _ => trivial with hw | hw
    · exact h.disc_pos hw
    · exact hready.gray w (Set.mem_insert_of_mem x hw)
  · exact hready.black x hx (fun hmem => (Set.mem_insert_iff.mp hmem).elim hxu hout) w hadj

theorem Visited.undiscovered (h : Visited G A u parent passed s s' T) {x : V} (hx : s'.disc x = 0) :
    s.disc x = 0 ∧ x ≠ u := by
  have hmem : x ∉ T := fun hmem => h.disc_pos hmem hx
  rw [h.disc x hmem] at hx
  refine ⟨hx, ?_⟩
  rintro rfl
  exact hmem h.head

variable [DecidableEq V] {nbrs : V → List V} {nodes : Finset V}

theorem Visited.turns {visit : V → V → Search V → Search V} (hs : Ready G A s) (hlinked : Linked G (insert u A))
    (hu : s.disc u = 0) (hparent : G.Adj u parent → parent ∈ A)
    (hvisit : ∀ v t, Ready G (insert u A) t → G.Adj u v → t.disc v = 0 →
      (∀ x, t.disc x = 0 → s.disc x = 0 ∧ x ≠ u) → ∃ T', Visited G (insert u A) v u (fun _ => True) t (visit v u t) T')
    {ws : List V} (hws : ∀ w ∈ ws, G.Adj u w) (skipped : Bool) (h : Visited G A u parent passed s s' T) :
    ∃ T', Visited G A u parent (fun w => passed w ∨ w ∈ ws) s
      (ws.foldl (turn visit u parent) (skipped, s')).2 T' := by
  induction ws generalizing passed skipped s' T with
  | nil =>
      simp only [List.not_mem_nil, or_false]
      exact ⟨T, h⟩
  | cons w ws ih =>
      have hadj : G.Adj u w := hws w List.mem_cons_self
      have hone : ∃ T', Visited G A u parent (fun v => passed v ∨ v = w) s
          (turn visit u parent (skipped, s') w).2 T' := by
        rw [turn]
        split
        · next hskip =>
            obtain ⟨rfl, _⟩ := hskip
            exact ⟨T, h.skipParent (hparent hadj)⟩
        · split
          · next hnew =>
              obtain ⟨T', hc⟩ := hvisit w s' (h.ready hs) hadj hnew fun x hx => h.undiscovered hx
              exact ⟨T ++ T', h.passChild hs hadj hlinked hc⟩
          · next hold => exact ⟨T, h.passBack hs hu hadj hold⟩
      obtain ⟨T', hT'⟩ := hone
      have hrest := ih (fun v hv => hws v (List.mem_cons_of_mem w hv)) (turn visit u parent (skipped, s') w).1 hT'
      simpa only [List.foldl_cons, List.mem_cons, or_assoc] using hrest

theorem dfs_visited (hnbrs : ∀ u v, v ∈ nbrs u ↔ G.Adj u v) (hnodes : ∀ u v, G.Adj u v → v ∈ nodes) (n : Nat)
    (hs : Ready G A s) (hlinked : Linked G A) (hpath : A = ∅ ∨ ∃ p ∈ A, G.Adj p u)
    (hparent : G.Adj u parent → parent ∈ A) (hu : s.disc u = 0) (hmem : u ∈ nodes)
    (hfuel : (nodes.filter fun x => s.disc x = 0).card ≤ n) :
    ∃ T, Visited G A u parent (fun _ => True) s (dfs nbrs n u parent s) T := by
  induction n generalizing A u parent s with
  | zero =>
      have hempty := Finset.card_eq_zero.mp (Nat.le_zero.mp hfuel)
      have hu' : u ∈ nodes.filter fun x => s.disc x = 0 := Finset.mem_filter.mpr ⟨hmem, hu⟩
      rw [hempty] at hu'
      cases hu'
  | succ n ih =>
      have hlinked' := hlinked.insert hpath
      have hvisit : ∀ v t, Ready G (insert u A) t → G.Adj u v → t.disc v = 0 →
          (∀ x, t.disc x = 0 → s.disc x = 0 ∧ x ≠ u) →
            ∃ T', Visited G (insert u A) v u (fun _ => True) t (dfs nbrs n v u t) T' := by
        intro v t ht hadj hv hleft
        have hin := Set.mem_insert u A
        apply ih ht hlinked' (.inr ⟨u, hin, hadj⟩) (fun _ => hin) hv (hnodes u v hadj)
        have hsub : (nodes.filter fun x => t.disc x = 0) ⊆ (nodes.filter fun x => s.disc x = 0).erase u := by
          intro x hx
          obtain ⟨hxn, hxt⟩ := Finset.mem_filter.mp hx
          obtain ⟨hxs, hxu⟩ := hleft x hxt
          exact Finset.mem_erase.mpr ⟨hxu, Finset.mem_filter.mpr ⟨hxn, hxs⟩⟩
        have hcard := Finset.card_le_card hsub
        rw [Finset.card_erase_of_mem (Finset.mem_filter.mpr ⟨hmem, hu⟩)] at hcard
        omega
      obtain ⟨T, hT⟩ := (visited_enter hs hu).turns hs hlinked' hu hparent hvisit
        (fun w hw => (hnbrs u w).mp hw) false
      refine ⟨T, hT.over fun w hadj => .inr ((hnbrs u w).mpr hadj)⟩

end

def severed (G : SimpleGraph V) (v : V) : Set (Sym2 V) :=
  {e | ∃ a b, e = s(a, b) ∧ a ≠ v ∧ b ≠ v ∧ G.Reachable v a ∧ G.Reachable v b ∧ ¬ Avoids G v a b}

structure Component (G : SimpleGraph V) (T : List V) (sep : V → List Nat) : Prop where
  nodup : T.Nodup
  closed : ∀ x ∈ T, ∀ w, G.Adj x w → w ∈ T
  linked : ∀ x ∈ T, ∀ y ∈ T, G.Reachable x y
  cuts : ∃ root, ∀ v ∈ T, Cuts G v (sep v) T fun x => Avoids G v x root

section

variable {G : SimpleGraph V} {u v parent : V} {s s' : Search V} {T : List V}

theorem Visited.component (h : Visited G ∅ u parent (fun _ => True) s s' T) : Component G T s'.sep where
  nodup := h.nodup
  closed := fun x hx w hadj => (h.closed x hx w hadj fun _ => trivial).resolve_right id
  linked := fun x hx y hy => (h.reach x hx).symm.trans (h.reach y hy)
  cuts := by
    refine ⟨u, fun v hv => ?_⟩
    by_cases hvu : v = u
    · subst hvu
      apply h.root.imp
      rintro x _ _ ⟨a, ha, _⟩
      cases ha
    · exact h.inner v hv hvu

theorem Component.congr {sep sep' : V → List Nat} (h : Component G T sep) (heq : ∀ x ∈ T, sep' x = sep x) :
    Component G T sep' := by
  obtain ⟨root, hcuts⟩ := h.cuts
  refine { h with cuts := ⟨root, fun v hv => ?_⟩ }
  rw [heq v hv]
  exact hcuts v hv

theorem Component.mem_iff {sep : V → List Nat} (h : Component G T sep) (hv : v ∈ T) {x : V} :
    x ∈ T ↔ G.Reachable v x := by
  constructor
  · exact fun hx => h.linked v hv x hx
  · intro hreach
    rw [SimpleGraph.reachable_iff_reflTransGen] at hreach
    induction hreach with
    | refl => exact hv
    | tail _ hadj ih => exact h.closed _ ih _ hadj

open Classical in
theorem two_mul_card_image {D : Finset (V × V)} (hsymm : ∀ a b, (a, b) ∈ D → (b, a) ∈ D) (hirrefl : ∀ a, (a, a) ∉ D) :
    2 * (D.image fun p => s(p.1, p.2)).card = D.card := by
  rw [Finset.card_eq_sum_card_image (fun p : V × V => s(p.1, p.2)) D, mul_comm]
  symm
  apply Finset.sum_const_nat
  intro e he
  obtain ⟨⟨a, b⟩, hab, rfl⟩ := Finset.mem_image.mp he
  have hne : (a, b) ≠ (b, a) := by
    rintro heq
    obtain ⟨rfl, _⟩ := Prod.mk.inj heq
    exact hirrefl a hab
  rw [← Finset.card_pair hne]
  congr 1
  ext ⟨c, d⟩
  simp only [Finset.mem_filter, Finset.mem_insert, Finset.mem_singleton, Prod.mk.injEq, Sym2.eq_iff]
  constructor
  · exact fun h => h.2
  · rintro (⟨rfl, rfl⟩ | ⟨rfl, rfl⟩)
    · exact ⟨hab, .inl ⟨rfl, rfl⟩⟩
    · exact ⟨hsymm _ _ hab, .inr ⟨rfl, rfl⟩⟩

theorem sum_map_flatten {f : V → Nat} {pieces : List (List V)} (h : ∀ p ∈ pieces, ∀ x ∈ p, f x = p.length) :
    (pieces.flatten.map f).sum = ((pieces.map List.length).map fun n => n * n).sum := by
  induction pieces with
  | nil => rfl
  | cons p pieces ih =>
      have hp : p.map f = List.replicate p.length p.length := by
        rw [← List.map_const]
        exact List.map_congr_left (h p List.mem_cons_self)
      rw [List.flatten_cons, List.map_append, List.sum_append, ih fun q hq => h q (List.mem_cons_of_mem p hq), hp,
        List.sum_replicate]
      simp

open Classical in
theorem card_not_avoids (others : Finset V) :
    ((others ×ˢ others).filter fun p => ¬ Avoids G v p.1 p.2).card +
      ∑ x ∈ others, (others.filter fun y => Avoids G v x y).card = others.card * others.card := by
  have hconnected : ((others ×ˢ others).filter fun p => Avoids G v p.1 p.2).card =
      ∑ x ∈ others, (others.filter fun y => Avoids G v x y).card := by
    rw [Finset.card_filter, Finset.sum_product]
    apply Finset.sum_congr rfl
    intro x _
    exact (Finset.card_filter _ _).symm
  rw [← hconnected, ← Finset.card_product, add_comm]
  exact Finset.card_filter_add_card_filter_not _

open Classical in
theorem Component.two_mul_ncard_severed {sep : V → List Nat} (h : Component G T sep) (hv : v ∈ T) :
    2 * (severed G v).ncard =
      (((T.toFinset.erase v) ×ˢ (T.toFinset.erase v)).filter fun p => ¬ Avoids G v p.1 p.2).card := by
  generalize hD : (((T.toFinset.erase v) ×ˢ (T.toFinset.erase v)).filter fun p => ¬ Avoids G v p.1 p.2) = D
  have hmem : ∀ {a b}, (a, b) ∈ D ↔ ((a ≠ v ∧ a ∈ T) ∧ b ≠ v ∧ b ∈ T) ∧ ¬ Avoids G v a b := by
    intro a b
    rw [← hD, Finset.mem_filter, Finset.mem_product, Finset.mem_erase, Finset.mem_erase, List.mem_toFinset,
      List.mem_toFinset]
  have hsevered : severed G v = ↑(D.image fun p => s(p.1, p.2)) := by
    ext e
    rw [Finset.mem_coe, Finset.mem_image]
    constructor
    · rintro ⟨a, b, rfl, hav, hbv, ha, hb, hab⟩
      exact ⟨(a, b), hmem.mpr ⟨⟨⟨hav, (h.mem_iff hv).mpr ha⟩, hbv, (h.mem_iff hv).mpr hb⟩, hab⟩, rfl⟩
    · rintro ⟨⟨a, b⟩, hin, rfl⟩
      obtain ⟨⟨⟨hav, haT⟩, hbv, hbT⟩, hab⟩ := hmem.mp hin
      exact ⟨a, b, rfl, hav, hbv, (h.mem_iff hv).mp haT, (h.mem_iff hv).mp hbT, hab⟩
  rw [hsevered, Set.ncard_coe_finset]
  apply two_mul_card_image
  · intro a b hab
    obtain ⟨⟨ha, hb⟩, hne⟩ := hmem.mp hab
    exact hmem.mpr ⟨⟨hb, ha⟩, fun h => hne h.symm⟩
  · intro a ha
    exact (hmem.mp ha).2 .refl

open Classical in
theorem Component.two_mul_severed {sep : V → List Nat} (h : Component G T sep) (hv : v ∈ T) :
    (sep v).sum ≤ T.length - 1 ∧ 2 * (severed G v).ncard + ((sep v).map fun n => n * n).sum +
      (T.length - 1 - (sep v).sum) * (T.length - 1 - (sep v).sum) = (T.length - 1) * (T.length - 1) := by
  obtain ⟨root, hcuts⟩ := h.cuts
  obtain ⟨pieces, hsizes, hnodup, hpieces, hrest⟩ := hcuts v hv
  let others := T.toFinset.erase v
  let cut := pieces.flatten.toFinset
  have hothers : ∀ {x}, x ∈ others ↔ x ≠ v ∧ x ∈ T := by
    intro x
    rw [Finset.mem_erase, List.mem_toFinset]
  have hcard : others.card = T.length - 1 := by
    rw [Finset.card_erase_of_mem (List.mem_toFinset.mpr hv), List.toFinset_card_of_nodup h.nodup]
  have hcut : ∀ {x}, x ∈ cut ↔ ∃ p ∈ pieces, x ∈ p := by
    intro x
    rw [List.mem_toFinset, List.mem_flatten]
  have hsub : cut ⊆ others := by
    intro x hx
    obtain ⟨p, hp, hxp⟩ := hcut.mp hx
    exact hothers.mpr ⟨(hpieces p hp).1.ne x hxp, (hpieces p hp).2 x hxp⟩
  have hcutcard : cut.card = (sep v).sum := by
    rw [List.toFinset_card_of_nodup hnodup, List.length_flatten, hsizes]
  have hleft : (others \ cut).card = T.length - 1 - (sep v).sum := by
    rw [Finset.card_sdiff_of_subset hsub, hcard, hcutcard]
  have hle : (sep v).sum ≤ T.length - 1 := by
    rw [← hcutcard, ← hcard]
    exact Finset.card_le_card hsub
  refine ⟨hle, ?_⟩
  -- how many nodes stay connected to a node
  let f : V → Nat := fun x => (others.filter fun y => Avoids G v x y).card
  have hpiece : ∀ p ∈ pieces, ∀ x ∈ p, f x = p.length := by
    intro p hp x hx
    have hset : (others.filter fun y => Avoids G v x y) = p.toFinset := by
      ext y
      rw [Finset.mem_filter, List.mem_toFinset]
      constructor
      · exact fun hy => hy.2.mem_of_closed (hpieces p hp).1.closed hx
      · intro hy
        exact ⟨hothers.mpr ⟨(hpieces p hp).1.ne y hy, (hpieces p hp).2 y hy⟩, (hpieces p hp).1.linked x hx y hy⟩
    have hp' : p.Nodup := (List.nodup_flatten.mp hnodup).1 p hp
    rw [← List.toFinset_card_of_nodup hp', ← hset]
  have hfree : ∀ x ∈ others \ cut, f x = (others \ cut).card := by
    intro x hx
    obtain ⟨hxo, hxc⟩ := Finset.mem_sdiff.mp hx
    have hroot : ∀ {y}, y ∈ others → y ∉ cut → Avoids G v y root := by
      intro y hy hyc
      obtain ⟨hyv, hyT⟩ := hothers.mp hy
      exact hrest y hyT hyv fun hmem => hyc (List.mem_toFinset.mpr hmem)
    have hset : (others.filter fun y => Avoids G v x y) = others \ cut := by
      ext y
      rw [Finset.mem_filter, Finset.mem_sdiff]
      constructor
      · rintro ⟨hy, hxy⟩
        refine ⟨hy, fun hyc => hxc ?_⟩
        obtain ⟨p, hp, hyp⟩ := hcut.mp hyc
        exact hcut.mpr ⟨p, hp, hxy.symm.mem_of_closed (hpieces p hp).1.closed hyp⟩
      · rintro ⟨hy, hyc⟩
        exact ⟨hy, (hroot hxo hxc).trans (hroot hy hyc).symm⟩
    rw [← hset]
  have hsum : ∑ x ∈ others, f x = ((sep v).map fun n => n * n).sum +
      (T.length - 1 - (sep v).sum) * (T.length - 1 - (sep v).sum) := by
    rw [← Finset.sum_sdiff hsub, Finset.sum_const_nat hfree, hleft, List.sum_toFinset f hnodup,
      sum_map_flatten hpiece, hsizes, add_comm]
  rw [h.two_mul_ncard_severed hv, add_assoc, ← hsum, card_not_avoids, hcard]

end

end MeshcoreAnalyzer.LowPoints

import Mathlib.Data.List.Induction
import Mathlib.Order.Lattice

namespace MeshcoreAnalyzer.Extremes

/-! The least and the greatest element of a list, as a loop keeps them that skips the
least element of the order and starts from it. -/

variable {A : Type} [LinearOrder A] {bot : A}

def earlier (bot m a : A) : A := if a ≠ bot ∧ (m = bot ∨ a < m) then a else m

def later (bot m a : A) : A := if a ≠ bot ∧ m < a then a else m

/-- The least of the elements but `bot`, and `bot` where there is none. -/
structure Earliest (bot : A) (l : List A) (m : A) : Prop where
  le : ∀ a ∈ l, a ≠ bot → m ≤ a
  mem : m ≠ bot → m ∈ l
  none : m = bot → ∀ a ∈ l, a = bot

structure Latest (bot : A) (l : List A) (m : A) : Prop where
  ge : ∀ a ∈ l, a ≤ m
  mem : m ≠ bot → m ∈ l

variable {l l' : List A} {m m' : A}

theorem earliest_nil : Earliest bot [] bot :=
  ⟨fun _ h => absurd h List.not_mem_nil, fun h => absurd rfl h, fun _ _ h => absurd h List.not_mem_nil⟩

theorem latest_nil : Latest bot [] bot := ⟨fun _ h => absurd h List.not_mem_nil, fun h => absurd rfl h⟩

theorem Earliest.concat (h : Earliest bot l m) (a : A) : Earliest bot (l ++ [a]) (earlier bot m a) := by
  rw [earlier]
  split
  · next hnew =>
      obtain ⟨hne, hless⟩ := hnew
      refine ⟨fun b hb hbne => ?_, fun _ => by simp, fun hbot => absurd hbot hne⟩
      rcases List.mem_append.mp hb with hb | hb
      · rcases hless with hm | hlt
        · exact absurd (h.none hm b hb) hbne
        · exact le_trans (le_of_lt hlt) (h.le b hb hbne)
      · rw [List.mem_singleton.mp hb]
  · next hold =>
      refine ⟨fun b hb hbne => ?_, fun hm => List.mem_append_left _ (h.mem hm), fun hm b hb => ?_⟩
      · rcases List.mem_append.mp hb with hb | hb
        · exact h.le b hb hbne
        · rw [List.mem_singleton.mp hb] at hbne ⊢
          exact le_of_not_gt fun hlt => hold ⟨hbne, .inr hlt⟩
      · rcases List.mem_append.mp hb with hb | hb
        · exact h.none hm b hb
        · rw [List.mem_singleton.mp hb]
          exact not_not.mp fun hne => hold ⟨hne, .inl hm⟩

theorem Latest.concat (hbot : ∀ a, bot ≤ a) (h : Latest bot l m) (a : A) : Latest bot (l ++ [a]) (later bot m a) := by
  rw [later]
  split
  · next hnew =>
      refine ⟨fun b hb => ?_, fun _ => by simp⟩
      rcases List.mem_append.mp hb with hb | hb
      · exact le_trans (h.ge b hb) (le_of_lt hnew.2)
      · rw [List.mem_singleton.mp hb]
  · next hold =>
      refine ⟨fun b hb => ?_, fun hm => List.mem_append_left _ (h.mem hm)⟩
      rcases List.mem_append.mp hb with hb | hb
      · exact h.ge b hb
      · rw [List.mem_singleton.mp hb]
        by_cases hne : a = bot
        · rw [hne]
          exact hbot m
        · exact le_of_not_gt fun hlt => hold ⟨hne, hlt⟩

theorem earliest_foldl (l : List A) : Earliest bot l (l.foldl (earlier bot) bot) := by
  induction l using List.reverseRecOn with
  | nil => exact earliest_nil
  | append_singleton l a ih =>
      rw [List.foldl_append]
      exact ih.concat a

theorem latest_foldl (hbot : ∀ a, bot ≤ a) (l : List A) : Latest bot l (l.foldl (later bot) bot) := by
  induction l using List.reverseRecOn with
  | nil => exact latest_nil
  | append_singleton l a ih =>
      rw [List.foldl_append]
      exact ih.concat hbot a

theorem Earliest.eq (h : Earliest bot l m) (h' : Earliest bot l' m') (heq : ∀ a, a ∈ l ↔ a ∈ l') : m = m' := by
  by_cases hm : m = bot
  · by_cases hm' : m' = bot
    · rw [hm, hm']
    · exact absurd (h.none hm m' ((heq m').mpr (h'.mem hm'))) hm'
  · have hm' : m' ≠ bot := fun hm' => hm (h'.none hm' m ((heq m).mp (h.mem hm)))
    exact le_antisymm (h.le m' ((heq m').mpr (h'.mem hm')) hm') (h'.le m ((heq m).mp (h.mem hm)) hm)

theorem Latest.eq (hbot : ∀ a, bot ≤ a) (h : Latest bot l m) (h' : Latest bot l' m') (heq : ∀ a, a ∈ l ↔ a ∈ l') :
    m = m' := by
  have hle : ∀ {l l' : List A} {m m' : A}, Latest bot l m → Latest bot l' m' → (∀ a ∈ l, a ∈ l') → m ≤ m' := by
    intro l l' m m' h h' hsub
    by_cases hm : m = bot
    · rw [hm]
      exact hbot m'
    · exact h'.ge m (hsub m (h.mem hm))
  exact le_antisymm (hle h h' fun a => (heq a).mp) (hle h' h fun a => (heq a).mpr)

end MeshcoreAnalyzer.Extremes

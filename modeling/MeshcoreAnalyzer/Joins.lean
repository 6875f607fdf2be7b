import Mathlib.Algebra.GroupWithZero.Nat
import Mathlib.Algebra.Order.BigOperators.Group.List
import Mathlib.Data.List.Basic

namespace MeshcoreAnalyzer.Joins

/-! Lists joined with a separator, and split at an element. -/

variable {α β : Type}

theorem countP_intercalate (p : α → Bool) (sep : List α) {texts : List (List α)} (h : texts ≠ []) :
    (sep.intercalate texts).countP p + sep.countP p =
      (texts.map (List.countP p)).sum + texts.length * sep.countP p := by
  induction texts with
  | nil => exact absurd rfl h
  | cons t texts ih =>
      cases texts with
      | nil => simp
      | cons u texts =>
          have hrest := ih (List.cons_ne_nil u texts)
          rw [List.intercalate_cons_cons, List.countP_append, List.countP_append, List.map_cons, List.sum_cons,
            List.length_cons, Nat.add_mul, Nat.one_mul]
          omega

theorem mem_intercalate {sep c : α} {texts : List (List α)} (h : c ∈ [sep].intercalate texts) :
    c = sep ∨ ∃ t ∈ texts, c ∈ t := by
  induction texts with
  | nil => simp at h
  | cons t texts ih =>
      cases texts with
      | nil =>
          right
          exact ⟨t, List.mem_cons_self, by simpa using h⟩
      | cons u texts =>
          rw [List.intercalate_cons_cons, List.mem_append, List.mem_append] at h
          rcases h with (h | h) | h
          · exact .inr ⟨t, List.mem_cons_self, h⟩
          · exact .inl (List.mem_singleton.mp h)
          · rcases ih h with h | ⟨t', hmem, hc⟩
            · exact .inl h
            · exact .inr ⟨t', List.mem_cons_of_mem t hmem, hc⟩

theorem map_intercalate (f : α → β) (sep : List α) (texts : List (List α)) :
    (sep.intercalate texts).map f = (sep.map f).intercalate (texts.map (List.map f)) := by
  induction texts with
  | nil => rfl
  | cons t texts ih =>
      cases texts with
      | nil => simp
      | cons u texts =>
          rw [List.intercalate_cons_cons, List.map_append, List.map_append, ih]
          exact List.intercalate_cons_cons.symm

theorem length_splitOn [DecidableEq α] (a : α) (l : List α) :
    (l.splitOn a).length = l.count a + 1 := by
  induction l with
  | nil => rfl
  | cons x l ih =>
      rw [List.splitOn_cons_eq_if_modifyHead, List.count_cons]
      split
      · rw [List.length_cons, ih]
      · rw [List.length_modifyHead, ih]

theorem splitOn_intercalate_flatMap [DecidableEq α] (a : α) {texts : List (List α)} (h : texts ≠ []) :
    ([a].intercalate texts).splitOn a = texts.flatMap (List.splitOn a) := by
  induction texts with
  | nil => exact absurd rfl h
  | cons t texts ih =>
      cases texts with
      | nil => simp
      | cons u texts =>
          have hrest := ih (List.cons_ne_nil u texts)
          rw [List.intercalate_cons_cons, List.append_assoc, List.singleton_append, List.splitOn_append_cons_self,
            hrest]
          rfl

theorem intercalate_eq_iff [DecidableEq α] (a : α) {texts texts' : List (List α)} (h : texts ≠ []) (h' : texts' ≠ []) :
    [a].intercalate texts = [a].intercalate texts' ↔
      texts.flatMap (List.splitOn a) = texts'.flatMap (List.splitOn a) := by
  rw [← splitOn_intercalate_flatMap a h, ← splitOn_intercalate_flatMap a h']
  constructor
  · exact congrArg _
  · intro heq
    have hjoin : ∀ ts : List (List α), [a].intercalate (([a].intercalate ts).splitOn a) = [a].intercalate ts :=
      fun ts => List.intercalate_splitOn a
    rw [← hjoin texts, heq, hjoin]

theorem flatMap_splitOn_of_notMem [DecidableEq α] {a : α} {texts : List (List α)} (h : ∀ t ∈ texts, a ∉ t) :
    texts.flatMap (List.splitOn a) = texts := by
  induction texts with
  | nil => rfl
  | cons t texts ih =>
      rw [List.flatMap_cons, List.splitOn_eq_singleton (h t List.mem_cons_self),
        ih fun u hu => h u (List.mem_cons_of_mem t hu), List.singleton_append]

end MeshcoreAnalyzer.Joins

import Mathlib.Data.List.Rotate

namespace MeshcoreAnalyzer.ClosedChains

/-! Chains of points, and how often a line crosses them, as an odd or an even number. -/

variable {V : Type} (crosses : V → V → Bool)

def chain : V → List V → Bool
  | _, [] => false
  | v, w :: l => crosses v w ^^ chain w l

def closed : List V → Bool
  | [] => false
  | v :: l => chain crosses v (l ++ [v])

variable {crosses} {v w : V} {l l' : List V}

theorem chain_append : chain crosses v (l ++ w :: l') = (chain crosses v (l ++ [w]) ^^ chain crosses w l') := by
  induction l generalizing v with
  | nil => simp [chain]
  | cons x l ih => simp [chain, ih]

theorem chain_concat : chain crosses v (l ++ [w]) =
    decide (((v :: l).zip (l ++ [w])).countP (fun side => crosses side.1 side.2) % 2 = 1) := by
  induction l generalizing v with
  | nil => cases h : crosses v w <;> simp [chain, h]
  | cons x l ih =>
      rw [List.cons_append, chain, ih, List.zip_cons_cons, List.countP_cons, Bool.eq_iff_iff]
      cases crosses v x with
      | false => simp
      | true =>
          simp
          omega

theorem closed_eq_odd (l : List V) : closed crosses l =
    decide ((l.zip (l.rotate 1)).countP (fun side => crosses side.1 side.2) % 2 = 1) := by
  cases l with
  | nil => rfl
  | cons v l => rw [closed, chain_concat, List.rotate_cons_succ, List.rotate_zero]

theorem chain_getLast (h : l ≠ []) : chain crosses (l.getLast h) l = closed crosses l := by
  cases l with
  | nil => exact absurd rfl h
  | cons v l =>
      induction l using List.reverseRecOn with
      | nil => rfl
      | append_singleton l w _ =>
          have hlast : (v :: (l ++ [w])).getLast h = w := List.getLast_concat (l := v :: l)
          rw [hlast, closed, List.append_assoc, List.singleton_append, chain_append]
          simp [chain, Bool.xor_comm]

theorem closed_concat : closed crosses (l ++ [v]) = closed crosses (v :: l) := by
  cases l with
  | nil => rfl
  | cons w l =>
      simp only [closed, List.cons_append, List.append_assoc, List.nil_append, chain]
      rw [chain_append]
      simp [chain, Bool.xor_comm]

theorem closed_rotate (k : Nat) : closed crosses (l.rotate k) = closed crosses l := by
  induction k generalizing l with
  | zero => rw [List.rotate_zero]
  | succ k ih =>
      cases l with
      | nil => rw [List.rotate_nil]
      | cons v l => rw [List.rotate_cons_succ, ih, closed_concat]

theorem closed_append : closed crosses (l ++ l') = closed crosses (l' ++ l) := by
  rw [← List.rotate_append_length_eq l l', closed_rotate]

section Symmetric

variable (hsymm : ∀ v w, crosses v w = crosses w v)

include hsymm

theorem chain_reverse : chain crosses w (l.reverse ++ [v]) = chain crosses v (l ++ [w]) := by
  induction l generalizing v with
  | nil => simp [chain, hsymm w v]
  | cons x l ih =>
      rw [List.reverse_cons, List.append_assoc, List.singleton_append, chain_append, ih]
      simp [chain, hsymm x v, Bool.xor_comm]

theorem closed_reverse : closed crosses l.reverse = closed crosses l := by
  cases l with
  | nil => rfl
  | cons v l => rw [List.reverse_cons, closed_concat, closed, closed, chain_reverse hsymm]

theorem closed_chord {a b : V} {l₁ l₂ l₃ : List V} : closed crosses (l₁ ++ a :: (l₂ ++ b :: l₃)) =
    (closed crosses (a :: (l₂ ++ [b])) ^^ closed crosses (b :: (l₃ ++ l₁ ++ [a]))) := by
  have hwhole : closed crosses (l₁ ++ a :: (l₂ ++ b :: l₃)) =
      (chain crosses a (l₂ ++ [b]) ^^ chain crosses b (l₃ ++ l₁ ++ [a])) := by
    rw [closed_append, List.cons_append, closed, List.append_assoc, List.append_assoc, List.cons_append,
      chain_append, List.append_assoc]
  have hleft : closed crosses (a :: (l₂ ++ [b])) = (chain crosses a (l₂ ++ [b]) ^^ crosses b a) := by
    rw [closed, List.append_assoc, List.singleton_append, chain_append]
    simp [chain]
  have hright : closed crosses (b :: (l₃ ++ l₁ ++ [a])) = (chain crosses b (l₃ ++ l₁ ++ [a]) ^^ crosses a b) := by
    rw [closed, List.append_assoc, List.singleton_append, chain_append]
    simp [chain]
  rw [hwhole, hleft, hright, hsymm b a]
  cases crosses a b <;> simp

end Symmetric

end MeshcoreAnalyzer.ClosedChains

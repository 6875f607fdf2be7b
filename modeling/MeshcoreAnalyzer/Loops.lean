import Mathlib.Logic.Basic

namespace MeshcoreAnalyzer.Loops

/-! A loop whose body depends, turn by turn, on what its surroundings do. -/

variable {S T : Type}

inductive Outcome (S : Type)
  | again (s : S)
  | ended (s : S)

variable (step : T → S → Outcome S)

def loop : Nat → (Nat → T) → S → Option S
  | 0, _, _ => none
  | fuel + 1, turns, s =>
      match step (turns 0) s with
      | .again q => loop fuel (fun k => turns (k + 1)) q
      | .ended q => some q

def before (turns : Nat → T) (s : S) : Nat → Option S
  | 0 => some s
  | k + 1 => (before turns s k).bind fun q =>
      match step (turns k) q with
      | .again r => some r
      | .ended _ => none

def Ends (turns : Nat → T) (s : S) : Prop := ∃ fuel r, loop step fuel turns s = some r

variable {step} {turns : Nat → T} {s q r : S}

theorem before_succ (hq : before step turns s k = some q) (hr : step (turns k) q = .again r) :
    before step turns s (k + 1) = some r := by
  rw [before, hq, Option.bind_some, hr]

theorem before_succ_eq_some {k : Nat} (h : before step turns s (k + 1) = some r) :
    ∃ q, before step turns s k = some q ∧ step (turns k) q = .again r := by
  rw [before, Option.bind_eq_some_iff] at h
  obtain ⟨q, hq, h⟩ := h
  refine ⟨q, hq, ?_⟩
  split at h
  · next hagain =>
      cases h
      exact hagain
  · cases h

theorem before_of_again (h : step (turns 0) s = .again q) (k : Nat) :
    before step turns s (k + 1) = before step (fun j => turns (j + 1)) q k := by
  induction k with
  | zero => exact before_succ (q := s) rfl h
  | succ k ih =>
      rw [before, ih]
      rfl

theorem before_of_ended (h : step (turns 0) s = .ended q) (k : Nat) : before step turns s (k + 1) = none := by
  induction k with
  | zero =>
      rw [before, before, Option.bind_some, h]
  | succ k ih =>
      rw [before, ih]
      rfl

theorem loop_eq_none_iff (fuel : Nat) : loop step fuel turns s = none ↔ (before step turns s fuel).isSome = true := by
  induction fuel generalizing turns s with
  | zero => exact iff_of_true rfl rfl
  | succ fuel ih =>
      rw [loop]
      cases h : step (turns 0) s with
      | again q =>
          rw [before_of_again h]
          exact ih
      | ended q =>
          rw [before_of_ended h]
          exact iff_of_false (Option.some_ne_none q) Bool.false_ne_true

theorem not_ends_iff : ¬ Ends step turns s ↔ ∀ k, ∃ q, before step turns s k = some q := by
  rw [Ends, not_exists]
  apply forall_congr'
  intro k
  rw [← Option.isSome_iff_exists, Option.not_isSome_iff_eq_none, loop_eq_none_iff, Option.isSome_iff_exists]

variable {Inv : S → Prop}

theorem loop_of_inv {P : T → Prop} {Post : S → Prop} (hagain : ∀ t s q, P t → Inv s → step t s = .again q → Inv q)
    (hended : ∀ t s q, P t → Inv s → step t s = .ended q → Post q) (hturns : ∀ k, P (turns k)) (hs : Inv s)
    {fuel : Nat} (h : loop step fuel turns s = some r) : Post r := by
  induction fuel generalizing turns s with
  | zero => cases h
  | succ fuel ih =>
      rw [loop] at h
      split at h
      · next q hq => exact ih (fun k => hturns (k + 1)) (hagain _ _ _ (hturns 0) hs hq) h
      · next q hq =>
          cases h
          exact hended _ _ _ (hturns 0) hs hq

end MeshcoreAnalyzer.Loops

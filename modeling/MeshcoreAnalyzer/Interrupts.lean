import Mathlib.Data.List.Basic

namespace MeshcoreAnalyzer.Interrupts

/-! Programs of statements that each take effect as a whole. A program may be stopped before any of
its statements, and what it has done by then stays. -/

variable {E S α β : Type}

inductive Stop (E : Type)
  | interrupted
  | failed (e : E)

abbrev Program (E S α : Type) := ExceptT (Stop E) (StateM (S × Option Nat)) α

def exec (f : S → Except E S) : Program E S Unit := fun (s, left) =>
  if left = some 0 then (.error .interrupted, s, left)
  else match f s with
    | .ok s' => (.ok (), s', left.map Nat.pred)
    | .error e => (.error (.failed e), s, left.map Nat.pred)

def query (f : S → α) : Program E S α := fun (s, left) => (.ok (f s), s, left)

def ignore (m : Program E S Unit) : Program E S Unit := fun σ =>
  match m σ with
  | (.error (.failed _), σ') => (.ok (), σ')
  | r => r

/-- From a state with the first property the program ends with the second, or is stopped with the third. -/
def Triple (P : S → Prop) (m : Program E S α) (Q : α → S → Prop) (C : Stop E → S → Prop) : Prop :=
  ∀ s left, P s → match m (s, left) with
    | (.ok a, s', _) => Q a s'
    | (.error stop, s', _) => C stop s'

variable {P P' : S → Prop} {Q Q' : α → S → Prop} {R : β → S → Prop} {C : Stop E → S → Prop}

theorem Triple.imp {m : Program E S α} (h : Triple P m Q C) (hP : ∀ s, P' s → P s) (hQ : ∀ a s, Q a s → Q' a s) :
    Triple P' m Q' C := by
  intro s left hs
  have hm := h s left (hP s hs)
  rcases hrun : m (s, left) with ⟨stop | a, s', left'⟩
  · rw [hrun] at hm
    exact hm
  · rw [hrun] at hm
    exact hQ _ _ hm

theorem bind_apply (m : Program E S α) (k : α → Program E S β) (σ : S × Option Nat) :
    (m >>= k) σ = match m σ with
      | (.ok a, σ') => k a σ'
      | (.error stop, σ') => (.error stop, σ') := by
  simp only [Bind.bind, ExceptT.bind, ExceptT.mk, StateT.bind]
  rcases m σ with ⟨stop | a, σ'⟩ <;> rfl

theorem Triple.bind {m : Program E S α} {k : α → Program E S β} (hm : Triple P m Q C)
    (hk : ∀ a, Triple (Q a) (k a) R C) : Triple P (m >>= k) R C := by
  intro s left hs
  have hfirst := hm s left hs
  rw [bind_apply]
  rcases h : m (s, left) with ⟨stop | a, s', left'⟩
  · rw [h] at hfirst
    exact hfirst
  · rw [h] at hfirst
    exact hk a s' left' hfirst

theorem Triple.seq {m : Program E S Unit} {k : Program E S β} {I : S → Prop} (hm : Triple P m (fun _ => I) C)
    (hk : Triple I k R C) : Triple P (m >>= fun _ => k) R C :=
  hm.bind fun _ => hk

theorem triple_pure (a : α) (h : ∀ s, P s → Q a s) : Triple P (pure a : Program E S α) Q C := by
  intro s left hs
  exact h s hs

theorem triple_exec {f : S → Except E S} {Q : Unit → S → Prop} (hstop : ∀ s, P s → C .interrupted s)
    (hok : ∀ s s', P s → f s = .ok s' → Q () s') (hfail : ∀ s e, P s → f s = .error e → C (.failed e) s) :
    Triple P (exec f) Q C := by
  intro s left hs
  rw [exec]
  by_cases hleft : left = some 0
  · rw [if_pos hleft]
    exact hstop s hs
  · rw [if_neg hleft]
    cases hf : f s with
    | ok s' => exact hok s s' hs hf
    | error e => exact hfail s e hs hf

theorem triple_query (f : S → α) : Triple P (query f : Program E S α) (fun a s => P s ∧ f s = a) C := by
  intro s left hs
  exact ⟨hs, rfl⟩

theorem triple_ignore {m : Program E S Unit} {Q : Unit → S → Prop}
    (h : Triple P m Q fun stop s => match stop with
      | .interrupted => C .interrupted s
      | .failed _ => Q () s) : Triple P (ignore m) Q C := by
  intro s left hs
  have hm := h s left hs
  rw [ignore]
  rcases hrun : m (s, left) with ⟨(_ | e) | a, s', left'⟩ <;> rw [hrun] at hm <;> exact hm

theorem triple_unless {f : S → Bool} {m : Program E S Unit} {Q : Unit → S → Prop}
    (hm : Triple (fun s => P s ∧ f s = false) m Q C) (hskip : ∀ s, P s → f s = true → Q () s) :
    Triple P (query f >>= fun b => unless b do m) Q C := by
  refine (triple_query f).bind fun b => ?_
  cases b with
  | false => exact hm
  | true => exact triple_pure () fun s h => hskip s h.1 h.2

/-- Where nothing limits the number of statements, the program is not interrupted. -/
def Unlimited (m : Program E S α) : Prop :=
  ∀ s, (m (s, none)).2.2 = none ∧ (m (s, none)).1 ≠ .error .interrupted

theorem Unlimited.bind {m : Program E S α} {k : α → Program E S β} (hm : Unlimited m) (hk : ∀ a, Unlimited (k a)) :
    Unlimited (m >>= k) := by
  intro s
  have hfirst := hm s
  rw [bind_apply]
  rcases hrun : m (s, none) with ⟨stop | a, s', left⟩
  · rw [hrun] at hfirst
    exact ⟨hfirst.1, fun heq => hfirst.2 (congrArg Except.error (Except.error.inj heq))⟩
  · rw [hrun] at hfirst
    obtain ⟨rfl, -⟩ := hfirst
    exact hk a s'

theorem unlimited_pure (a : α) : Unlimited (pure a : Program E S α) := fun _ => ⟨rfl, fun heq => nomatch heq⟩

theorem unlimited_query (f : S → α) : Unlimited (query f : Program E S α) := fun _ => ⟨rfl, fun heq => nomatch heq⟩

theorem unlimited_exec (f : S → Except E S) : Unlimited (exec f) := by
  intro s
  rw [exec, if_neg (fun heq => nomatch heq)]
  cases f s with
  | ok s' => exact ⟨rfl, fun heq => nomatch heq⟩
  | error e => exact ⟨rfl, fun heq => nomatch heq⟩

theorem Unlimited.ignore {m : Program E S Unit} (hm : Unlimited m) : Unlimited (ignore m) := by
  intro s
  have hs := hm s
  rw [Interrupts.ignore]
  rcases hrun : m (s, none) with ⟨(_ | e) | a, s', left⟩
  · rw [hrun] at hs
    exact absurd rfl hs.2
  · rw [hrun] at hs
    exact ⟨hs.1, fun heq => nomatch heq⟩
  · rw [hrun] at hs
    exact hs

theorem Unlimited.unless {f : S → Bool} {m : Program E S Unit} (hm : Unlimited m) :
    Unlimited (query f >>= fun b => unless b do m) := by
  apply (unlimited_query f).bind
  intro b
  cases b with
  | false => exact hm
  | true => exact unlimited_pure ()

theorem Unlimited.forM {f : β → Program E S Unit} (h : ∀ b, Unlimited (f b)) (l : List β) : Unlimited (l.forM f) := by
  induction l with
  | nil => exact unlimited_pure ()
  | cons b l ih => exact (h b).bind fun _ => ih

end MeshcoreAnalyzer.Interrupts

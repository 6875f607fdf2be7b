import Mathlib.Data.List.Find
import Mathlib.Data.List.Induction
import Mathlib.Data.Sym.Sym2
import Mathlib.Order.Lattice

namespace MeshcoreAnalyzer.Picks

/-! The first element of a list that no other one beats, as a loop picks it. -/

variable {A : Type} {beats : A → A → Bool} {l : List A} {a b : A}

def better (beats : A → A → Bool) (best a : A) : A := if beats a best then a else best

def pick (beats : A → A → Bool) : List A → Option A
  | [] => none
  | a :: l => some (l.foldl (better beats) a)

/-- Who does not beat somebody who does not beat a third does not beat the third. -/
structure Ranking (beats : A → A → Bool) : Prop where
  asymm : ∀ a b, beats a b = true → beats b a = false
  trans : ∀ a b c, beats a b = false → beats b c = false → beats a c = false

theorem Ranking.of_key {K : Type} [LinearOrder K] (key : A → K) : Ranking fun a b => decide (key a < key b) where
  asymm := by
    intro a b h
    exact decide_eq_false (lt_asymm (of_decide_eq_true h))
  trans := by
    intro a b c hab hbc
    simp only [decide_eq_false_iff_not, not_lt] at *
    exact le_trans hbc hab

theorem Ranking.irrefl (h : Ranking beats) (a : A) : beats a a = false := by
  cases haa : beats a a with
  | false => rfl
  | true => exact haa.symm.trans (h.asymm a a haa)

structure Best (beats : A → A → Bool) (l : List A) (a : A) : Prop where
  mem : a ∈ l
  unbeaten : ∀ b ∈ l, beats b a = false

theorem Best.congr {l' : List A} (h : Best beats l a) (heq : ∀ b, b ∈ l' ↔ b ∈ l) : Best beats l' a :=
  ⟨(heq a).mpr h.mem, fun b hb => h.unbeaten b ((heq b).mp hb)⟩

theorem Best.better (hr : Ranking beats) (h : Best beats l a) (b : A) : Best beats (l ++ [b]) (better beats a b) := by
  rw [Picks.better]
  split
  · next hba =>
      constructor
      · simp
      · intro c hc
        rw [List.mem_append, List.mem_singleton] at hc
        rcases hc with hc | rfl
        · exact hr.trans c a b (h.unbeaten c hc) (hr.asymm b a hba)
        · exact hr.irrefl c
  · next hba =>
      constructor
      · exact List.mem_append_left _ h.mem
      · intro c hc
        rw [List.mem_append, List.mem_singleton] at hc
        rcases hc with hc | rfl
        · exact h.unbeaten c hc
        · exact Bool.eq_false_iff.mpr hba

theorem Best.foldl (hr : Ranking beats) (h : Best beats l a) (l' : List A) :
    Best beats (l ++ l') (l'.foldl (Picks.better beats) a) := by
  induction l' generalizing l a with
  | nil =>
      rw [List.append_nil]
      exact h
  | cons b l' ih =>
      have := ih (h.better hr b)
      rw [List.append_assoc] at this
      exact this

theorem best_of_pick (hr : Ranking beats) (h : pick beats l = some a) : Best beats l a := by
  cases l with
  | nil => cases h
  | cons b l =>
      have hone : Best beats [b] b := ⟨List.mem_singleton_self b, fun c hc => by
        rw [List.mem_singleton.mp hc]
        exact hr.irrefl b⟩
      rw [← Option.some.inj h]
      exact hone.foldl hr l

theorem isSome_pick : (pick beats l).isSome ↔ l ≠ [] := by
  cases l <;> simp [pick]

theorem pick_cons_of_best (h : Best beats (a :: l) a) : pick beats (a :: l) = some a := by
  rw [pick]
  congr 1
  induction l with
  | nil => rfl
  | cons b l ih =>
      have hb : better beats a b = a := if_neg (Bool.eq_false_iff.mp (h.unbeaten b (by simp)))
      rw [List.foldl_cons, hb]
      apply ih
      exact ⟨List.mem_cons_self, fun c hc => h.unbeaten c (by
        rcases List.mem_cons.mp hc with rfl | hc
        · exact List.mem_cons_self
        · exact List.mem_cons_of_mem _ (List.mem_cons_of_mem _ hc))⟩

theorem pick_eq_of_unique {l' : List A} (hr : Ranking beats) (hl : ∀ c, c ∈ l' ↔ c ∈ l)
    (h : ∀ a b, Best beats l a → Best beats l b → a = b) : pick beats l' = pick beats l := by
  cases hp : pick beats l with
  | none =>
      have hnil : l = [] := by
        by_contra hne
        have hsome : (pick beats l).isSome := isSome_pick.mpr hne
        rw [hp] at hsome
        cases hsome
      have hnil' : l' = [] := List.eq_nil_iff_forall_not_mem.mpr fun c hc => by
        rw [hl, hnil] at hc
        cases hc
      rw [hnil']
      rfl
  | some a =>
      have ha := best_of_pick hr hp
      have hsome : (pick beats l').isSome := isSome_pick.mpr (List.ne_nil_of_mem ((hl a).mpr ha.mem))
      obtain ⟨b, hb⟩ := Option.isSome_iff_exists.mp hsome
      rw [hb, h b a ((best_of_pick hr hb).congr fun c => (hl c).symm) ha]

theorem pick_concat (l : List A) (b : A) : pick beats (l ++ [b]) = some (match pick beats l with
    | none => b
    | some a => better beats a b) := by
  cases l with
  | nil => rfl
  | cons a l => simp [pick, List.foldl_append]

theorem find?_unbeaten (hr : Ranking beats) : l.find? (fun a => l.all fun b => !beats b a) = pick beats l := by
  induction l using List.reverseRecOn with
  | nil => rfl
  | append_singleton l b ih =>
      have hsplit : ∀ a, ((l ++ [b]).all fun c => !beats c a) = ((l.all fun c => !beats c a) && !beats b a) := by simp
      simp only [pick_concat, hsplit]
      cases hp : pick beats l with
      | none =>
          have hnil : l = [] := by
            by_contra hne
            have hsome : (pick beats l).isSome := isSome_pick.mpr hne
            rw [hp] at hsome
            cases hsome
          simp [hnil, hr.irrefl b]
      | some a =>
          have ha := best_of_pick hr hp
          rw [hp] at ih
          obtain ⟨hall, pre, post, hl, hpre⟩ := List.find?_eq_some_iff_append.mp ih
          simp only [better]
          split
          · next hba =>
              have hbeaten : ∀ c ∈ l, beats b c = true := by
                intro c hc
                by_contra hbc
                rw [hr.trans b c a (Bool.eq_false_iff.mpr hbc) (ha.unbeaten c hc)] at hba
                cases hba
              have hnone : (l.find? fun a => (l.all fun c => !beats c a) && !beats b a) = none := by
                apply List.find?_eq_none.mpr
                intro c hc
                simp [hbeaten c hc]
              have hb : (l.all fun c => !beats c b) = true := by
                apply List.all_eq_true.mpr
                intro c hc
                simp [hr.trans c a b (ha.unbeaten c hc) (hr.asymm b a hba)]
              rw [List.find?_append, hnone]
              simp [hb, hr.irrefl b]
          · next hba =>
              have hfirst : (l.find? fun a => (l.all fun c => !beats c a) && !beats b a) = some a := by
                apply List.find?_eq_some_iff_append.mpr
                refine ⟨by simp [hall, Bool.eq_false_iff.mpr hba], pre, post, hl, ?_⟩
                intro c hc
                have hc := hpre c hc
                simp_all
              rw [List.find?_append, hfirst, Option.some_or]

theorem unbeaten_iff (h : a ∈ l) : (l.all fun b => !beats b a) = true ↔ Best beats l a := by
  rw [List.all_eq_true]
  constructor
  · intro hall
    exact ⟨h, fun b hb => (Bool.not_eq_true' _).mp (hall b hb)⟩
  · intro hbest b hb
    rw [hbest.unbeaten b hb]
    rfl

section Two

variable {B : Type} {beats' : A → A → Bool} {f f' : A → B} {l₁ l₂ : List A}

def ends (beats beats' : A → A → Bool) (f f' : A → B) (l : List A) : Option (Sym2 B) :=
  (pick beats l).bind fun a => (pick beats' l).map fun b => s(f a, f' b)

theorem ends_comm : ends beats' beats f' f l = ends beats beats' f f' l := by
  rw [ends, ends]
  cases pick beats l with
  | none => cases pick beats' l <;> rfl
  | some a =>
      cases pick beats' l with
      | none => rfl
      | some b => exact congrArg some Sym2.eq_swap

/-- The best ones on the one side are the same there, or two that are best on both sides and stand crosswise. -/
def Tied (beats beats' : A → A → Bool) (f f' : A → B) (l : List A) : Prop :=
  ∀ a b, Best beats l a → Best beats l b → f a = f b ∨ Best beats' l a ∧ Best beats' l b ∧ f a = f' b ∧ f' a = f b

theorem pick_eq_pick (hr : Ranking beats) (hr' : Ranking beats') (h : ∀ a, Best beats l a ↔ Best beats' l a) :
    pick beats l = pick beats' l := by
  rw [← find?_unbeaten hr, ← find?_unbeaten hr']
  apply List.find?_congr
  intro a ha
  rw [Bool.eq_iff_iff, unbeaten_iff ha, unbeaten_iff ha]
  exact h a

theorem Tied.best_iff (h : Tied beats beats' f f' l) (h' : Tied beats' beats f' f l) (ha : Best beats l a)
    (hb : Best beats l b) (hne : f a ≠ f b) (c : A) : Best beats l c ↔ Best beats' l c := by
  constructor
  · intro hc
    rcases h c a hc ha with hca | ⟨hc', -⟩
    · rcases h c b hc hb with hcb | ⟨hc', -⟩
      · exact absurd (hca.symm.trans hcb) hne
      · exact hc'
    · exact hc'
  · intro hc
    obtain ⟨ha', hb', hab, hba⟩ := (h a b ha hb).resolve_left hne
    rcases h' c a hc ha' with hca | ⟨hc', -⟩
    · rcases h' c b hc hb' with hcb | ⟨hc', -⟩
      · exact absurd (by rw [hab, ← hcb, hca, hba]) hne
      · exact hc'
    · exact hc'

theorem exists_pick (hr : Ranking beats) (hne : l ≠ []) (hl : l₁.Perm l) :
    ∃ a, pick beats l₁ = some a ∧ Best beats l a := by
  have hne' : l₁ ≠ [] := by
    rintro rfl
    exact hne hl.nil_eq.symm
  have hsome : (pick beats l₁).isSome := isSome_pick.mpr hne'
  obtain ⟨a, ha⟩ := Option.isSome_iff_exists.mp hsome
  exact ⟨a, ha, (best_of_pick hr ha).congr fun b => hl.mem_iff.symm⟩

theorem ends_perm (hr : Ranking beats) (hr' : Ranking beats') (h : Tied beats beats' f f' l)
    (h' : Tied beats' beats f' f l) (h₁ : l₁.Perm l) (h₂ : l₂.Perm l) :
    ends beats beats' f f' l₁ = ends beats beats' f f' l₂ := by
  by_cases hnil : l = []
  · rw [hnil] at h₁ h₂
    rw [h₁.eq_nil, h₂.eq_nil]
  · obtain ⟨t₁, ht₁, hbt₁⟩ := exists_pick hr hnil h₁
    obtain ⟨t₂, ht₂, hbt₂⟩ := exists_pick hr hnil h₂
    obtain ⟨u₁, hu₁, hbu₁⟩ := exists_pick hr' hnil h₁
    obtain ⟨u₂, hu₂, hbu₂⟩ := exists_pick hr' hnil h₂
    have hsame : (∀ c, Best beats l c ↔ Best beats' l c) → t₁ = u₁ ∧ t₂ = u₂ := by
      intro hiff
      have hpick : ∀ {l₃ : List A}, l₃.Perm l → pick beats l₃ = pick beats' l₃ := by
        intro l₃ h₃
        apply pick_eq_pick hr hr'
        intro c
        constructor
        · exact fun hc => ((hiff c).mp (hc.congr fun b => h₃.mem_iff.symm)).congr fun b => h₃.mem_iff
        · exact fun hc => ((hiff c).mpr (hc.congr fun b => h₃.mem_iff.symm)).congr fun b => h₃.mem_iff
      have e₁ := hpick h₁
      have e₂ := hpick h₂
      rw [ht₁, hu₁] at e₁
      rw [ht₂, hu₂] at e₂
      exact ⟨Option.some.inj e₁, Option.some.inj e₂⟩
    have hends : s(f t₁, f' u₁) = s(f t₂, f' u₂) := by
      by_cases ht : f t₁ = f t₂
      · by_cases hu : f' u₁ = f' u₂
        · rw [ht, hu]
        · obtain ⟨rfl, rfl⟩ := hsame fun c => (h'.best_iff h hbu₁ hbu₂ hu c).symm
          obtain ⟨-, -, hab, hba⟩ := (h' t₁ t₂ hbu₁ hbu₂).resolve_left hu
          exact Sym2.eq_iff.mpr (.inr ⟨hba, hab⟩)
      · obtain ⟨rfl, rfl⟩ := hsame (h.best_iff h' hbt₁ hbt₂ ht)
        obtain ⟨-, -, hab, hba⟩ := (h t₁ t₂ hbt₁ hbt₂).resolve_left ht
        exact Sym2.eq_iff.mpr (.inr ⟨hab, hba⟩)
    simp only [ends, ht₁, ht₂, hu₁, hu₂, Option.bind_some, Option.map_some, hends]

theorem exists_perm_cons (h : a ∈ l) : ∃ r, (a :: r).Perm l := by
  obtain ⟨pre, post, rfl⟩ := List.append_of_mem h
  exact ⟨pre ++ post, List.perm_middle.symm⟩

theorem pick_perm (hr : Ranking beats) (h : l₁.Perm l) :
    pick beats l₁ = l₁.find? fun a => l.all fun b => !beats b a := by
  rw [← find?_unbeaten hr]
  congr 1
  funext a
  exact h.all_eq

theorem tied_of_ends (hr : Ranking beats')
    (h : ∀ l₁ l₂ : List A, l₁.Perm l → l₂.Perm l → ends beats beats' f f' l₁ = ends beats beats' f f' l₂) :
    Tied beats beats' f f' l := by
  intro a b ha hb
  by_cases hne : f a = f b
  · exact .inl hne
  right
  obtain ⟨r, hl⟩ := exists_perm_cons ha.mem
  have hbr : b ∈ r := (List.mem_cons.mp (hl.mem_iff.mpr hb.mem)).resolve_left fun hba => hne (by rw [hba])
  obtain ⟨r', hr'⟩ := exists_perm_cons hbr
  have h₁ : (a :: b :: r').Perm l := (hr'.cons a).trans hl
  have h₂ : (b :: a :: r').Perm l := (List.Perm.swap a b r').trans h₁
  have hpick₁ : pick beats (a :: b :: r') = some a := pick_cons_of_best (ha.congr fun c => h₁.mem_iff)
  have hpick₂ : pick beats (b :: a :: r') = some b := pick_cons_of_best (hb.congr fun c => h₂.mem_iff)
  have hne' : l ≠ [] := List.ne_nil_of_mem ha.mem
  obtain ⟨u₁, hu₁, -⟩ := exists_pick hr hne' h₁
  obtain ⟨u₂, hu₂, -⟩ := exists_pick hr hne' h₂
  have hends := h _ _ h₁ h₂
  simp only [ends, hpick₁, hpick₂, hu₁, hu₂, Option.bind_some, Option.map_some] at hends
  obtain ⟨hab, hba⟩ := (Sym2.eq_iff.mp (Option.some.inj hends)).resolve_left fun heq => hne heq.1
  have hother : u₁ ≠ u₂ := by
    rintro rfl
    exact hne (hab.trans hba)
  -- only if both are best on the other side does their order show there
  have hboth : Best beats' l a ∧ Best beats' l b := by
    by_contra hnot
    rw [pick_perm hr h₁] at hu₁
    rw [pick_perm hr h₂] at hu₂
    rw [← unbeaten_iff ha.mem, ← unbeaten_iff hb.mem, not_and_or] at hnot
    apply hother
    rcases hnot with hnot | hnot
    · simp only [List.find?_cons, Bool.eq_false_iff.mpr hnot] at hu₁ hu₂
      exact Option.some.inj (hu₁.symm.trans hu₂)
    · simp only [List.find?_cons, Bool.eq_false_iff.mpr hnot] at hu₁ hu₂
      exact Option.some.inj (hu₁.symm.trans hu₂)
  have ha' : pick beats' (a :: b :: r') = some a := pick_cons_of_best (hboth.1.congr fun c => h₁.mem_iff)
  have hb' : pick beats' (b :: a :: r') = some b := pick_cons_of_best (hboth.2.congr fun c => h₂.mem_iff)
  rw [Option.some.inj (hu₁.symm.trans ha')] at hba
  rw [Option.some.inj (hu₂.symm.trans hb')] at hab
  exact ⟨hboth.1, hboth.2, hab, hba⟩

end Two

end MeshcoreAnalyzer.Picks

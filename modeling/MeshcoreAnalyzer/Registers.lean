import Mathlib.Data.List.DropRight
import Mathlib.Order.Lattice

namespace MeshcoreAnalyzer.Registers

/-! A register that holds the value with the latest time. A value without a time is always taken,
and the order of the times starts anew with it. -/

variable {Value Time : Type*}

structure Write (Value Time : Type*) where
  value : Value
  time : Option Time
deriving DecidableEq

def recent (ws : List (Write Value Time)) : List (Write Value Time) := ws.rtakeWhile fun w => w.time.isSome

theorem recent_concat (ws : List (Write Value Time)) (w : Write Value Time) :
    recent (ws ++ [w]) = if w.time.isSome then recent ws ++ [w] else [] :=
  List.rtakeWhile_concat _ _ _

variable [LinearOrder Time]

def put (held : Option (Write Value Time)) (w : Write Value Time) : Option (Write Value Time) :=
  match held.bind Write.time, w.time with
  | some t, some t' => if t' ≤ t then held else some w
  | _, _ => some w

def latest (ws : List (Write Value Time)) : Option (Write Value Time) := ws.foldl put none

def Write.Earlier (x w : Write Value Time) : Prop := ∃ t t', x.time = some t ∧ w.time = some t' ∧ t < t'

def Write.NotLater (y w : Write Value Time) : Prop := ∃ t t', y.time = some t ∧ w.time = some t' ∧ t ≤ t'

/-- What comes behind the write is no later, and what came before it, back to the last write without a time, is earlier. -/
def Decides (ws : List (Write Value Time)) (w : Write Value Time) : Prop :=
  ∃ xs ys, ws = xs ++ w :: ys ∧ (∀ y ∈ ys, y.NotLater w) ∧
    (w.time.isSome → ∀ x ∈ recent xs, x.Earlier w)

section Put

variable {held : Option (Write Value Time)} {v w : Write Value Time}

theorem put_untimed (h : w.time = none) : put held w = some w := by
  rw [put, h]
  cases held.bind Write.time <;> rfl

theorem put_first (h : held.bind Write.time = none) : put held w = some w := by
  rw [put, h]

theorem put_later {t t' : Time} (hv : v.time = some t) (hw : w.time = some t') (h : t < t') :
    put (some v) w = some w := by
  rw [put, Option.bind_some, hv, hw]
  exact if_neg (not_le.mpr h)

theorem put_notLater {t t' : Time} (hv : v.time = some t) (hw : w.time = some t') (h : t' ≤ t) :
    put (some v) w = some v := by
  rw [put, Option.bind_some, hv, hw]
  exact if_pos h

theorem put_of_notLater (h : w.NotLater v) : put (some v) w = some v := by
  obtain ⟨t, t', hw, hv, hle⟩ := h
  exact put_notLater hv hw hle

theorem put_cases (held : Option (Write Value Time)) (w : Write Value Time) :
    put held w = some w ∨ ∃ v, held = some v ∧ w.NotLater v := by
  cases hheld : held with
  | none => exact .inl (put_first rfl)
  | some v =>
      cases hv : v.time with
      | none => exact .inl (put_first hv)
      | some t =>
          cases hw : w.time with
          | none => exact .inl (put_untimed hw)
          | some t' =>
              rcases le_or_gt t' t with hle | hlt
              · exact .inr ⟨v, rfl, t', t, hw, hv, hle⟩
              · exact .inl (put_later hv hw hlt)

end Put

theorem Decides.keep {ws : List (Write Value Time)} {v w : Write Value Time} (h : Decides ws v) (hle : w.NotLater v) :
    Decides (ws ++ [w]) v := by
  obtain ⟨xs, ys, rfl, hys, hxs⟩ := h
  refine ⟨xs, ys ++ [w], by rw [List.append_assoc, List.cons_append], ?_, hxs⟩
  intro y hy
  rcases List.mem_append.mp hy with hy | hy
  · exact hys y hy
  · rw [List.mem_singleton.mp hy]
    exact hle

theorem Decides.le {ws : List (Write Value Time)} {v : Write Value Time} (h : Decides ws v) :
    ∀ x ∈ recent ws, x.NotLater v := by
  obtain ⟨xs, ys, rfl, hys, hxs⟩ := h
  induction ys using List.reverseRecOn with
  | nil =>
      intro x hx
      rw [recent_concat] at hx
      split at hx
      · next hv =>
        rcases List.mem_append.mp hx with hx | hx
        · obtain ⟨t, t', ht, ht', hlt⟩ := hxs hv x hx
          exact ⟨t, t', ht, ht', hlt.le⟩
        · obtain ⟨t, ht⟩ := Option.isSome_iff_exists.mp hv
          rw [List.mem_singleton.mp hx]
          exact ⟨t, t, ht, ht, le_rfl⟩
      · exact absurd hx List.not_mem_nil
  | append_singleton ys y ih =>
      intro x hx
      have hy := hys y (List.mem_append_right _ (List.mem_singleton_self y))
      rw [← List.cons_append, ← List.append_assoc, recent_concat] at hx
      split at hx
      · rcases List.mem_append.mp hx with hx | hx
        · exact ih (fun y hy => hys y (List.mem_append_left _ hy)) x hx
        · rw [List.mem_singleton.mp hx]
          exact hy
      · exact absurd hx List.not_mem_nil

theorem Decides.replace {ws : List (Write Value Time)} {w : Write Value Time}
    (h : w.time.isSome → ∀ x ∈ recent ws, x.Earlier w) : Decides (ws ++ [w]) w :=
  ⟨ws, [], rfl, fun _ hy => absurd hy List.not_mem_nil, h⟩

theorem latest_concat (ws : List (Write Value Time)) (w : Write Value Time) :
    latest (ws ++ [w]) = put (latest ws) w := by
  rw [latest, latest, List.foldl_concat]

theorem latest_eq_none {ws : List (Write Value Time)} : latest ws = none ↔ ws = [] := by
  constructor
  · intro h
    induction ws using List.reverseRecOn with
    | nil => rfl
    | append_singleton ws w _ =>
        rw [latest_concat] at h
        rcases put_cases (latest ws) w with hw | ⟨v, hv, hle⟩
        · rw [hw] at h
          cases h
        · rw [hv, put_of_notLater hle] at h
          cases h
  · rintro rfl
    rfl

theorem decides_of_latest {ws : List (Write Value Time)} {v : Write Value Time} (h : latest ws = some v) :
    Decides ws v := by
  induction ws using List.reverseRecOn generalizing v with
  | nil => cases h
  | append_singleton ws w ih =>
      rw [latest_concat] at h
      cases hheld : latest ws with
      | none =>
          rw [hheld, put_first rfl, Option.some.injEq] at h
          rw [← h, latest_eq_none.mp hheld]
          exact Decides.replace fun _ x hx => absurd hx List.not_mem_nil
      | some u =>
          rw [hheld] at h
          by_cases hle : w.NotLater u
          · rw [put_of_notLater hle, Option.some.injEq] at h
            rw [← h]
            exact (ih hheld).keep hle
          · have hput : put (some u) w = some w := by
              rcases put_cases (some u) w with hw | ⟨u', hu', hle'⟩
              · exact hw
              · rw [Option.some.injEq] at hu'
                exact absurd (hu' ▸ hle') hle
            rw [hput, Option.some.injEq] at h
            rw [← h]
            apply Decides.replace
            intro hw x hx
            obtain ⟨t', ht'⟩ := Option.isSome_iff_exists.mp hw
            obtain ⟨t, t₁, ht, ht₁, hlex⟩ := (ih hheld).le x hx
            refine ⟨t, t', ht, ht', hlex.trans_lt ?_⟩
            by_contra hge
            exact hle ⟨t', t₁, ht', ht₁, not_lt.mp hge⟩

theorem Decides.mem_recent {ws : List (Write Value Time)} {v : Write Value Time} (h : Decides ws v)
    (hv : v.time.isSome) : v ∈ recent ws := by
  obtain ⟨xs, ys, rfl, hys, -⟩ := h
  induction ys using List.reverseRecOn with
  | nil =>
      rw [recent_concat, if_pos hv]
      exact List.mem_append_right _ (List.mem_singleton_self v)
  | append_singleton ys y ih =>
      obtain ⟨t, -, ht, -, -⟩ := hys y (List.mem_append_right _ (List.mem_singleton_self y))
      rw [← List.cons_append, ← List.append_assoc, recent_concat, if_pos (Option.isSome_of_eq_some ht)]
      exact List.mem_append_left _ (ih fun y hy => hys y (List.mem_append_left _ hy))

theorem latest_of_decides {ws : List (Write Value Time)} {v : Write Value Time} (h : Decides ws v) :
    latest ws = some v := by
  obtain ⟨xs, ys, rfl, hys, hxs⟩ := h
  have htaken : put (latest xs) v = some v := by
    rcases put_cases (latest xs) v with hv | ⟨u, hu, t, t₁, ht, ht₁, hle⟩
    · exact hv
    · have hmem := (decides_of_latest hu).mem_recent (Option.isSome_of_eq_some ht₁)
      obtain ⟨s, s', hs, hs', hlt⟩ := hxs (Option.isSome_of_eq_some ht) u hmem
      cases ht₁.symm.trans hs
      cases ht.symm.trans hs'
      exact absurd hlt (not_lt.mpr hle)
  induction ys using List.reverseRecOn with
  | nil => rw [latest_concat, htaken]
  | append_singleton ys y ih =>
      rw [← List.cons_append, ← List.append_assoc, latest_concat, ih fun y hy => hys y (List.mem_append_left _ hy)]
      exact put_of_notLater (hys y (List.mem_append_right _ (List.mem_singleton_self y)))

end MeshcoreAnalyzer.Registers

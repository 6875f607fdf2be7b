import Mathlib.Data.List.Infix
import Mathlib.Order.Lattice

namespace MeshcoreAnalyzer.Alarms

/-! A log of stamped events, and the register that holds the time of the last alarm
since the last reset. -/

variable {E : Type*}

abbrev Log (E : Type*) := List (Int × E)

def Ordered (log : Log E) : Prop := log.Pairwise fun a b => a.1 ≤ b.1

def Spaced (alarm reset : E → Prop) (gap : Int) (log : Log E) : Prop :=
  ∀ pre a mid b post, log = pre ++ a :: (mid ++ b :: post) → alarm a.2 → alarm b.2 →
    (∀ e ∈ mid, ¬ reset e.2) → gap ≤ b.1 - a.1

def Separated (first reset : E → Prop) (log : Log E) : Prop :=
  ∀ pre a mid b post, log = pre ++ a :: (mid ++ b :: post) → first a.2 → first b.2 →
    ∃ e ∈ mid, reset e.2

variable (alarm reset : E → Prop) [DecidablePred alarm] [DecidablePred reset]

def note (held : Option Int) (e : Int × E) : Option Int :=
  if alarm e.2 then some e.1 else if reset e.2 then none else held

def register (log : Log E) : Option Int := log.foldl (note alarm reset) none

variable {alarm reset} {first : E → Prop} {gap : Int} {log pre mid post : Log E} {a b e : Int × E}

theorem note_alarm {held : Option Int} (h : alarm e.2) : note alarm reset held e = some e.1 := if_pos h

theorem note_reset {held : Option Int} (halarm : ¬ alarm e.2) (hreset : reset e.2) :
    note alarm reset held e = none := by
  rw [note, if_neg halarm, if_pos hreset]

theorem note_silent {held : Option Int} (halarm : ¬ alarm e.2) (hreset : ¬ reset e.2) :
    note alarm reset held e = held := by
  rw [note, if_neg halarm, if_neg hreset]

theorem register_concat : register alarm reset (log ++ [e]) = note alarm reset (register alarm reset log) e :=
  List.foldl_concat _ _ _ _

theorem held_of_alarm (hordered : Ordered (pre ++ a :: mid)) (ha : alarm a.2) (hmid : ∀ e ∈ mid, ¬ reset e.2) :
    ∃ t, register alarm reset (pre ++ a :: mid) = some t ∧ a.1 ≤ t := by
  induction mid using List.reverseRecOn with
  | nil => exact ⟨a.1, register_concat.trans (note_alarm ha), le_rfl⟩
  | append_singleton mid e ih =>
      rw [← List.cons_append, ← List.append_assoc] at hordered ⊢
      rw [register_concat]
      have hpre := List.pairwise_append.mp hordered
      obtain ⟨t, ht, hat⟩ := ih hpre.1 fun x hx => hmid x (List.mem_append_left _ hx)
      by_cases he : alarm e.2
      · exact ⟨e.1, note_alarm he, hpre.2.2 a (by simp) e (List.mem_singleton_self e)⟩
      · have hreset : ¬ reset e.2 := hmid e (List.mem_append_right _ (List.mem_singleton_self e))
        exact ⟨t, (note_silent he hreset).trans ht, hat⟩

theorem mem_of_held {t : Int} (h : register alarm reset log = some t) : ∃ x ∈ log, x.1 = t := by
  induction log using List.reverseRecOn with
  | nil => cases h
  | append_singleton log e ih =>
      rw [register_concat, note] at h
      split_ifs at h with halarm hreset
      · exact ⟨e, List.mem_append_right _ (List.mem_singleton_self e), Option.some.inj h⟩
      · obtain ⟨x, hx, hxt⟩ := ih h
        exact ⟨x, List.mem_append_left _ hx, hxt⟩

theorem split_concat (h : log ++ [e] = pre ++ a :: (mid ++ b :: post)) :
    (∃ post', log = pre ++ a :: (mid ++ b :: post')) ∨ (log = pre ++ a :: mid ∧ b = e) := by
  rcases List.eq_nil_or_concat post with rfl | ⟨post', x, rfl⟩
  · rw [← List.cons_append, ← List.append_assoc] at h
    obtain ⟨hlog, he⟩ := List.append_inj' h rfl
    exact .inr ⟨hlog, (List.singleton_inj.mp he).symm⟩
  · rw [List.concat_eq_append, ← List.cons_append, ← List.append_assoc, ← List.cons_append, ← List.append_assoc] at h
    have hlog : log = pre ++ a :: mid ++ b :: post' := (List.append_inj' h rfl).1
    exact .inl ⟨post', by rw [hlog, List.append_assoc, List.cons_append]⟩

theorem Ordered.concat (h : Ordered log) (hle : ∀ x ∈ log, x.1 ≤ e.1) : Ordered (log ++ [e]) := by
  apply List.pairwise_append.mpr ⟨h, List.pairwise_singleton _ e, fun x hx y hy => ?_⟩
  rw [List.mem_singleton.mp hy]
  exact hle x hx

theorem Spaced.concat (h : Spaced alarm reset gap log) (hordered : Ordered log)
    (he : alarm e.2 → ∀ t, register alarm reset log = some t → gap ≤ e.1 - t) :
    Spaced alarm reset gap (log ++ [e]) := by
  intro pre a mid b post hlog ha hb hmid
  rcases split_concat hlog with ⟨post', hlog'⟩ | ⟨rfl, rfl⟩
  · exact h pre a mid b post' hlog' ha hb hmid
  · obtain ⟨t, ht, hat⟩ := held_of_alarm hordered ha hmid
    have hgap := he hb t ht
    omega

theorem Separated.concat (h : Separated first reset log) (hordered : Ordered log) (hfirst : ∀ x, first x → alarm x)
    (he : first e.2 → register alarm reset log = none) : Separated first reset (log ++ [e]) := by
  intro pre a mid b post hlog ha hb
  rcases split_concat hlog with ⟨post', hlog'⟩ | ⟨rfl, rfl⟩
  · exact h pre a mid b post' hlog' ha hb
  · by_contra hnone
    obtain ⟨t, ht, -⟩ := held_of_alarm hordered (hfirst _ ha) fun x hx hreset => hnone ⟨x, hx, hreset⟩
    exact Option.some_ne_none t (ht.symm.trans (he hb))

end MeshcoreAnalyzer.Alarms

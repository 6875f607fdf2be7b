import Mathlib.Data.List.AList

namespace MeshcoreAnalyzer.Directories

/-! A directory of files, and writers that fill a file under a name that nobody reads and then rename it. -/

abbrev Directory (N C : Type) := AList fun _ : N => C

variable {N C : Type} [DecidableEq N]

def rename (src dst : N) (d : Directory N C) : Directory N C :=
  match d.lookup src with
  | some c => (d.erase src).insert dst c
  | none => d

variable {d : Directory N C} {n src dst : N} {c : C}

theorem rename_of_lookup (h : d.lookup src = some c) : rename src dst d = (d.erase src).insert dst c := by
  rw [rename, h]

theorem lookup_rename_self (h : d.lookup src = some c) : (rename src dst d).lookup dst = some c := by
  rw [rename_of_lookup h, AList.lookup_insert]

theorem lookup_rename_of_ne (hsrc : n ≠ src) (hdst : n ≠ dst) : (rename src dst d).lookup n = d.lookup n := by
  rw [rename]
  split
  · rw [AList.lookup_insert_ne hdst, AList.lookup_erase_ne hsrc]
  · rfl

theorem lookup_erase_some (h : (d.erase src).lookup n = some c) : d.lookup n = some c := by
  have hne : n ≠ src := by
    rintro rfl
    rw [AList.lookup_erase] at h
    cases h
  rwa [AList.lookup_erase_ne hne] at h

def Whole (shown : N → Prop) (good : N → C → Prop) (d : Directory N C) : Prop :=
  ∀ n c, shown n → d.lookup n = some c → good n c

variable {shown : N → Prop} {good good' : N → C → Prop}

theorem whole_empty : Whole shown good (∅ : Directory N C) := by
  intro n c _ h
  rw [AList.lookup_empty] at h
  cases h

theorem Whole.imp (h : Whole shown good d) (hgood : ∀ n c, good n c → good' n c) : Whole shown good' d :=
  fun n c hn hc => hgood n c (h n c hn hc)

theorem Whole.write (h : Whole shown good d) (hn : ¬ shown n) (c : C) : Whole shown good (d.insert n c) := by
  intro m c' hm hc'
  have hne : m ≠ n := by
    rintro rfl
    exact hn hm
  rw [AList.lookup_insert_ne hne] at hc'
  exact h m c' hm hc'

theorem Whole.erase (h : Whole shown good d) (n : N) : Whole shown good (d.erase n) :=
  fun m c hm hc => h m c hm (lookup_erase_some hc)

theorem Whole.publish (h : Whole shown good d) (hsrc : d.lookup src = some c) (hgood : shown dst → good dst c) :
    Whole shown good (rename src dst d) := by
  rw [rename_of_lookup hsrc]
  intro m c' hm hc'
  by_cases hdst : m = dst
  · subst hdst
    rw [AList.lookup_insert] at hc'
    exact Option.some.inj hc' ▸ hgood hm
  · rw [AList.lookup_insert_ne hdst] at hc'
    exact h m c' hm (lookup_erase_some hc')

end MeshcoreAnalyzer.Directories

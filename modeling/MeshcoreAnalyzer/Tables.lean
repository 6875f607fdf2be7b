import Mathlib.Algebra.BigOperators.Group.List.Basic
import Mathlib.Algebra.Ring.Nat
import Mathlib.Data.List.AList

namespace MeshcoreAnalyzer.Tables

/-! Sums over the entries of a finite map. -/

variable {K V : Type} [DecidableEq K]

def total (t : AList fun _ : K => V) (f : V → Nat) : Nat := (t.entries.map fun p => f p.2).sum

variable {t : AList fun _ : K => V} {f f' : V → Nat} {k k' : K} {v : V}

omit [DecidableEq K] in
@[simp] theorem total_empty : total (∅ : AList fun _ : K => V) f = 0 := rfl

theorem lookup_of_mem_entries {p : (_ : K) × V} (hp : p ∈ t.entries) : t.lookup p.1 = some p.2 :=
  AList.mem_lookup_iff.mpr hp

theorem total_congr (h : ∀ k v, t.lookup k = some v → f v = f' v) : total t f = total t f' := by
  rw [total]
  congr 1
  exact List.map_congr_left fun p hp => h p.1 p.2 (lookup_of_mem_entries hp)

theorem total_insert (h : t.lookup k = none) : total (t.insert k v) f = f v + total t f := by
  have hentries := AList.entries_insert_of_notMem (b := v) (AList.lookup_eq_none.mp h)
  unfold total
  rw [hentries, List.map_cons, List.sum_cons]

theorem total_erase (h : t.lookup k = some v) : total t f = f v + total (t.erase k) f := by
  have hmem : k ∈ t.entries.keys := AList.mem_keys.mp (AList.lookup_isSome.mp (h ▸ rfl))
  obtain ⟨w, before, after, _, heq, herase⟩ := List.exists_of_kerase hmem
  have hw : w = v := by
    have hlookup : t.lookup k = some w := AList.mem_lookup_iff.mpr (heq ▸ by simp)
    exact Option.some.inj (hlookup.symm.trans h)
  subst hw
  have hrest : (t.erase k).entries = before ++ after := herase
  unfold total
  rw [hrest, heq, List.map_append, List.map_append, List.map_cons, List.sum_append, List.sum_append, List.sum_cons]
  exact Nat.add_left_comm _ _ _

theorem lookup_erase_of_some (h : (t.erase k).lookup k' = some v) : k' ≠ k ∧ t.lookup k' = some v := by
  have hne : k' ≠ k := by
    rintro rfl
    rw [AList.lookup_erase] at h
    cases h
  rw [AList.lookup_erase_ne hne] at h
  exact ⟨hne, h⟩

theorem total_update (h : t.lookup k = some v) (hone : ∀ k', t.lookup k' = some v → k' = k)
    (hother : ∀ w, w ≠ v → f' w = f w) : total t f' + f v = total t f + f' v := by
  have hrest : total (t.erase k) f' = total (t.erase k) f := by
    refine total_congr fun k' w hw => ?_
    obtain ⟨hne, hlookup⟩ := lookup_erase_of_some hw
    apply hother
    rintro rfl
    exact hne (hone k' hlookup)
  rw [total_erase (f := f') h, total_erase (f := f) h, hrest]
  omega

end MeshcoreAnalyzer.Tables

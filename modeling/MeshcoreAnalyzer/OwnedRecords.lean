import Mathlib.Data.List.Perm.Lattice
import Mathlib.Data.List.Nodup

namespace MeshcoreAnalyzer.OwnedRecords

/-! Lists that hold, in any order, the records of some owners. -/

variable {K R : Type} {records records' : K → List R} {owners : List K} {l : List R}

/-- The list has the records of the owners, each owner's once, and no others. -/
def Holds (records : K → List R) (owners : List K) (l : List R) : Prop := l.Perm (owners.flatMap records)

theorem holds_flatMap (records : K → List R) (owners : List K) :
    Holds records owners (owners.flatMap records) := List.Perm.refl _

theorem Holds.congr (h : Holds records owners l) (heq : ∀ k ∈ owners, records' k = records k) :
    Holds records' owners l := by
  rw [Holds]
  rw [List.flatMap_congr heq]
  exact h

theorem Holds.extend (h : Holds records owners l) {k : K} (hk : records k = []) :
    Holds records (owners ++ [k]) l := by
  rw [Holds]
  rw [List.flatMap_append, List.flatMap_singleton, hk, List.append_nil]
  exact h

theorem Holds.owner_mem {owner : R → K} (hown : ∀ k, ∀ r ∈ records k, owner r = k)
    (h : Holds records owners l) {r : R} (hr : r ∈ l) : owner r ∈ owners := by
  obtain ⟨k, hk, hrk⟩ := List.mem_flatMap.mp (h.subset hr)
  rw [hown k r hrk]
  exact hk

section Owners

variable [DecidableEq K]

theorem Holds.without {owner : R → K} (hown : ∀ k, ∀ r ∈ records k, owner r = k)
    (h : Holds records owners l) (gone : List K) :
    Holds (fun k => if k ∈ gone then [] else records k) owners (l.filter (owner · ∉ gone)) := by
  have hone : ∀ k, (records k).filter (owner · ∉ gone) = if k ∈ gone then [] else records k := by
    intro k
    split
    · next hk =>
        apply List.filter_eq_nil_iff.mpr
        intro r hr
        simp [hown k r hr, hk]
    · next hk =>
        apply List.filter_eq_self.mpr
        intro r hr
        simp [hown k r hr, hk]
  have hall : (owners.flatMap records).filter (owner · ∉ gone) =
      owners.flatMap fun k => if k ∈ gone then [] else records k := by
    rw [List.filter_flatMap]
    exact List.flatMap_congr fun k _ => hone k
  rw [Holds]
  rw [← hall]
  exact List.Perm.filter _ h

theorem Holds.of_owner {owner : R → K} (hown : ∀ k, ∀ r ∈ records k, owner r = k) (hnd : owners.Nodup)
    (h : Holds records owners l) {k : K} (hk : k ∈ owners) : (l.filter (owner · = k)).Perm (records k) := by
  obtain ⟨before, after, rfl⟩ := List.append_of_mem hk
  have hone : ∀ q, (records q).filter (owner · = k) = if q = k then records k else [] := by
    intro q
    split
    · next hq =>
        subst hq
        apply List.filter_eq_self.mpr
        intro r hr
        simp [hown q r hr]
    · next hq =>
        apply List.filter_eq_nil_iff.mpr
        intro r hr
        simp [hown q r hr, hq]
  have hothers : ∀ ks : List K, k ∉ ks → ks.flatMap (fun q => (records q).filter (owner · = k)) = [] := by
    intro ks hks
    apply List.flatMap_eq_nil_iff.mpr
    intro q hq
    have hne : q ≠ k := fun hqk => hks (hqk ▸ hq)
    rw [hone, if_neg hne]
  have hapart := (List.nodup_middle.mp hnd)
  rw [List.nodup_cons, List.mem_append, not_or] at hapart
  have hp := List.Perm.filter (owner · = k) h
  rw [List.filter_flatMap, List.flatMap_append, List.flatMap_cons, hothers before hapart.1.1,
    hothers after hapart.1.2, hone, if_pos rfl, List.nil_append, List.append_nil] at hp
  exact hp

theorem Holds.drop {gone rest : List K} (hnd : (gone ++ rest).Nodup)
    (h : Holds (fun k => if k ∈ gone then [] else records k) (gone ++ rest) l) : Holds records rest l := by
  have hgone : (gone.flatMap fun k => if k ∈ gone then [] else records k) = [] :=
    List.flatMap_eq_nil_iff.mpr fun k hk => if_pos hk
  have hrest : (rest.flatMap fun k => if k ∈ gone then [] else records k) = rest.flatMap records :=
    List.flatMap_congr fun k hk => if_neg fun hg => (List.nodup_append.mp hnd).2.2 k hg k hk rfl
  unfold Holds at h
  rw [List.flatMap_append, hgone, hrest, List.nil_append] at h
  exact h

theorem Holds.give (hnd : owners.Nodup) {ks : List K} (hks : ks.Nodup) (hsub : ks ⊆ owners)
    (hnone : ∀ k ∈ ks, records k = []) (hsame : ∀ k ∈ owners, k ∉ ks → records' k = records k)
    (h : Holds records owners l) : Holds records' owners (l ++ ks.flatMap records') := by
  have hsplit : owners.Perm (owners.filter (· ∉ ks) ++ ks) := by
    apply (List.perm_ext_iff_of_nodup hnd _).mpr
    · intro k
      rw [List.mem_append, List.mem_filter]
      by_cases hk : k ∈ ks
      · simp [hk, hsub hk]
      · simp [hk]
    · apply List.nodup_append.mpr
      refine ⟨hnd.filter _, hks, ?_⟩
      rintro a ha b hb rfl
      exact absurd hb (by simpa using (List.mem_filter.mp ha).2)
  have hold : (owners.filter (· ∉ ks)).flatMap records' = (owners.filter (· ∉ ks)).flatMap records := by
    apply List.flatMap_congr
    intro k hk
    exact hsame k (List.mem_filter.mp hk).1 (by simpa using (List.mem_filter.mp hk).2)
  have hempty : ks.flatMap records = [] := List.flatMap_eq_nil_iff.mpr hnone
  have hl : l.Perm ((owners.filter (· ∉ ks)).flatMap records) := by
    have hp := h.trans (hsplit.flatMap_right records)
    rw [List.flatMap_append, hempty, List.append_nil] at hp
    exact hp
  have hnew := hsplit.flatMap_right records'
  rw [List.flatMap_append, hold] at hnew
  exact (hl.append_right _).trans hnew.symm

end Owners

end MeshcoreAnalyzer.OwnedRecords

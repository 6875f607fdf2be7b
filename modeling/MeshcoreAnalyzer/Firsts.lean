import Mathlib.Data.Finset.Card
import Mathlib.Data.List.Dedup
import Mathlib.Data.List.Nodup

namespace MeshcoreAnalyzer.Firsts

/-! The first element of each key in a list, as a loop with a set of the keys it has
seen picks them. -/

variable {A K : Type} [DecidableEq K] (key : A → K)

def firsts : List K → List A → List A
  | _, [] => []
  | seen, a :: l => if key a ∈ seen then firsts seen l else a :: firsts (key a :: seen) l

variable {key} {seen : List K} {l : List A}

theorem firsts_cons (a : A) (l : List A) : firsts key seen (a :: l) =
    if key a ∈ seen then firsts key seen l else a :: firsts key (key a :: seen) l := rfl

theorem firsts_subset : firsts key seen l ⊆ l := by
  induction l generalizing seen with
  | nil => exact List.Subset.refl _
  | cons a l ih =>
      rw [firsts_cons]
      split
      · exact List.subset_cons_of_subset a ih
      · exact List.cons_subset_cons a ih

theorem exists_mem_firsts {a : A} (ha : a ∈ l) (hseen : key a ∉ seen) : ∃ b ∈ firsts key seen l, key b = key a := by
  induction l generalizing seen with
  | nil => cases ha
  | cons b l ih =>
      rw [firsts_cons]
      split
      · next hb =>
          rcases List.mem_cons.mp ha with rfl | ha
          · exact absurd hb hseen
          · exact ih ha hseen
      · by_cases hab : key a = key b
        · exact ⟨b, List.mem_cons_self, hab.symm⟩
        · rcases List.mem_cons.mp ha with rfl | ha
          · exact absurd rfl hab
          · obtain ⟨c, hc, hca⟩ := ih ha (fun hm => (List.mem_cons.mp hm).elim hab hseen)
            exact ⟨c, List.mem_cons_of_mem b hc, hca⟩

theorem length_firsts_le : (firsts key seen l).length ≤ l.length := by
  induction l generalizing seen with
  | nil => exact Nat.le_refl _
  | cons a l ih =>
      rw [firsts_cons]
      split
      · exact Nat.le_succ_of_le ih
      · exact Nat.succ_le_succ ih

theorem length_firsts_eq_iff :
    (firsts key seen l).length = l.length ↔ (l.map key).Nodup ∧ ∀ a ∈ l, key a ∉ seen := by
  induction l generalizing seen with
  | nil => exact iff_of_true rfl ⟨List.nodup_nil, fun _ ha => (by cases ha)⟩
  | cons a l ih =>
      rw [firsts_cons]
      split
      · next ha =>
          refine iff_of_false (fun h => ?_) fun h => h.2 a List.mem_cons_self ha
          have hle : (firsts key seen l).length ≤ l.length := length_firsts_le
          rw [h] at hle
          exact absurd hle (Nat.not_succ_le_self _)
      · next ha =>
          rw [List.length_cons, List.length_cons, Nat.succ_inj, ih, List.map_cons, List.nodup_cons]
          constructor
          · rintro ⟨hnd, hout⟩
            refine ⟨⟨fun hm => ?_, hnd⟩, ?_⟩
            · obtain ⟨b, hb, hba⟩ := List.mem_map.mp hm
              exact hout b hb (hba ▸ List.mem_cons_self)
            · rintro b hb
              rcases List.mem_cons.mp hb with rfl | hb
              · exact ha
              · exact fun hm => hout b hb (List.mem_cons_of_mem _ hm)
          · rintro ⟨⟨hnot, hnd⟩, hout⟩
            refine ⟨hnd, fun b hb hm => ?_⟩
            rcases List.mem_cons.mp hm with hba | hm
            · exact hnot (hba ▸ List.mem_map_of_mem hb)
            · exact hout b (List.mem_cons_of_mem a hb) hm

theorem filter_firsts {p : A → Bool} {seen' : List K}
    (hp : ∀ a ∈ l, ∀ b ∈ l, key a = key b → p a = p b)
    (hseen : ∀ a ∈ l, p a = true → (key a ∈ seen ↔ key a ∈ seen')) :
    (firsts key seen l).filter p = firsts key seen' (l.filter p) := by
  induction l generalizing seen seen' with
  | nil => rfl
  | cons a l ih =>
      have hp' : ∀ b ∈ l, ∀ c ∈ l, key b = key c → p b = p c := fun b hb c hc =>
        hp b (List.mem_cons_of_mem a hb) c (List.mem_cons_of_mem a hc)
      have hseen' : ∀ b ∈ l, p b = true → (key b ∈ seen ↔ key b ∈ seen') := fun b hb =>
        hseen b (List.mem_cons_of_mem a hb)
      cases hpa : p a with
      | true =>
          have ha := hseen a List.mem_cons_self hpa
          rw [List.filter_cons_of_pos hpa, firsts_cons, firsts_cons]
          by_cases hin : key a ∈ seen
          · rw [if_pos hin, if_pos (ha.mp hin)]
            exact ih hp' hseen'
          · rw [if_neg hin, if_neg (fun hm => hin (ha.mpr hm)), List.filter_cons_of_pos hpa]
            congr 1
            apply ih hp'
            intro b hb hpb
            rw [List.mem_cons, List.mem_cons, hseen' b hb hpb]
      | false =>
          have hpa' : ¬ p a = true := by simp [hpa]
          rw [List.filter_cons_of_neg hpa', firsts_cons]
          by_cases hin : key a ∈ seen
          · rw [if_pos hin]
            exact ih hp' hseen'
          · rw [if_neg hin, List.filter_cons_of_neg hpa']
            apply ih hp'
            intro b hb hpb
            have hne : key b ≠ key a := by
              intro heq
              rw [hp b (List.mem_cons_of_mem a hb) a List.mem_cons_self heq, hpa] at hpb
              cases hpb
            rw [List.mem_cons, ← hseen' b hb hpb]
            exact ⟨fun hm => hm.resolve_left hne, .inr⟩

theorem countP_firsts_eq_iff {p : A → Bool} (hp : ∀ a ∈ l, ∀ b ∈ l, key a = key b → p a = p b) :
    (firsts key [] l).countP p = l.countP p ↔ ((l.filter p).map key).Nodup := by
  rw [List.countP_eq_length_filter, List.countP_eq_length_filter, filter_firsts hp fun _ _ _ => Iff.rfl,
    length_firsts_eq_iff]
  exact ⟨And.left, fun h => ⟨h, fun _ _ hm => (by cases hm)⟩⟩

theorem not_mem_seen_of_mem_firsts {a : A} (h : a ∈ firsts key seen l) : key a ∉ seen := by
  induction l generalizing seen with
  | nil => cases h
  | cons b l ih =>
      rw [firsts_cons] at h
      split at h
      · exact ih h
      · next hb =>
          rcases List.mem_cons.mp h with rfl | h
          · exact hb
          · exact fun hm => ih h (List.mem_cons_of_mem _ hm)

theorem nodup_map_firsts : ((firsts key seen l).map key).Nodup := by
  induction l generalizing seen with
  | nil => exact List.nodup_nil
  | cons a l ih =>
      rw [firsts_cons]
      split
      · exact ih
      · rw [List.map_cons, List.nodup_cons]
        refine ⟨fun hm => ?_, ih⟩
        obtain ⟨b, hb, hba⟩ := List.mem_map.mp hm
        apply not_mem_seen_of_mem_firsts hb
        rw [hba]
        exact List.mem_cons_self

theorem map_firsts_perm {B : Type} {f : A → B} {l' : List A}
    (hf : ∀ a ∈ l ++ l', ∀ b ∈ l ++ l', key a = key b → f a = f b) (hkeys : ∀ k, k ∈ l.map key ↔ k ∈ l'.map key) :
    ((firsts key [] l).map f).Perm ((firsts key [] l').map f) := by
  have hnodup : ∀ m : List A, ((firsts key [] m).map fun a => (key a, f a)).Nodup := by
    intro m
    apply List.Nodup.of_map Prod.fst
    rw [List.map_map]
    exact nodup_map_firsts
  have hsub : ∀ m m' : List A, (∀ a ∈ m ++ m', ∀ b ∈ m ++ m', key a = key b → f a = f b) →
      (∀ k ∈ m.map key, k ∈ m'.map key) → ∀ p ∈ (firsts key [] m).map (fun a => (key a, f a)),
        p ∈ (firsts key [] m').map (fun a => (key a, f a)) := by
    intro m m' hf hkeys p hp
    obtain ⟨a, ha, rfl⟩ := List.mem_map.mp hp
    have ha : a ∈ m := firsts_subset ha
    obtain ⟨b, hb, hba⟩ := List.mem_map.mp (hkeys _ (List.mem_map_of_mem ha))
    have hpicked : ∃ c ∈ firsts key [] m', key c = key b := exists_mem_firsts hb List.not_mem_nil
    obtain ⟨c, hc, hcb⟩ := hpicked
    have hcm : c ∈ m' := firsts_subset hc
    have hca : key c = key a := hcb.trans hba
    refine List.mem_map.mpr ⟨c, hc, ?_⟩
    rw [hca, hf c (List.mem_append_right _ hcm) a (List.mem_append_left _ ha) hca]
  have hpairs : ((firsts key [] l).map fun a => (key a, f a)).Perm ((firsts key [] l').map fun a => (key a, f a)) := by
    apply (List.perm_ext_iff_of_nodup (hnodup l) (hnodup l')).mpr
    intro p
    constructor
    · exact hsub l l' hf (fun k => (hkeys k).mp) p
    · apply hsub l' l ?_ (fun k => (hkeys k).mpr) p
      intro a ha b hb
      exact hf a (by simpa [or_comm] using ha) b (by simpa [or_comm] using hb)
  have hsnd := hpairs.map Prod.snd
  rwa [List.map_map, List.map_map] at hsnd

theorem firsts_congr {seen' : List K} (h : ∀ k, k ∈ seen ↔ k ∈ seen') : firsts key seen l = firsts key seen' l := by
  induction l generalizing seen seen' with
  | nil => rfl
  | cons a l ih =>
      have hcons : firsts key (key a :: seen) l = firsts key (key a :: seen') l :=
        ih fun k => by rw [List.mem_cons, List.mem_cons, h]
      rw [firsts_cons, firsts_cons, ih h, hcons]
      simp only [h]

theorem map_firsts_perm_dedup : ((firsts key [] l).map key).Perm (l.map key).dedup := by
  apply (List.perm_ext_iff_of_nodup nodup_map_firsts (List.nodup_dedup _)).mpr
  intro k
  rw [List.mem_dedup]
  constructor
  · intro hk
    obtain ⟨a, ha, rfl⟩ := List.mem_map.mp hk
    exact List.mem_map_of_mem (firsts_subset ha)
  · intro hk
    obtain ⟨a, ha, rfl⟩ := List.mem_map.mp hk
    have hpicked : ∃ b ∈ firsts key [] l, key b = key a := exists_mem_firsts ha List.not_mem_nil
    obtain ⟨b, hb, heq⟩ := hpicked
    exact List.mem_map.mpr ⟨b, hb, heq⟩

def Functional (key : A → K) (l : List A) : Prop := ∀ a ∈ l, ∀ b ∈ l, key a = key b → a = b

theorem Functional.mem_firsts (h : Functional key l) {a : A} : a ∈ firsts key [] l ↔ a ∈ l := by
  constructor
  · exact fun hmem => firsts_subset hmem
  · intro hmem
    have hpicked : ∃ b ∈ firsts key [] l, key b = key a := exists_mem_firsts hmem List.not_mem_nil
    obtain ⟨b, hb, heq⟩ := hpicked
    rwa [← h b (firsts_subset hb) a hmem heq]

theorem Functional.perm_firsts (h : Functional key l) {m : List A} (hp : l.Perm m) :
    (firsts key [] l).Perm (firsts key [] m) := by
  have hm : Functional key m := fun a ha b hb => h a (hp.mem_iff.mpr ha) b (hp.mem_iff.mpr hb)
  rw [List.perm_ext_iff_of_nodup nodup_map_firsts.of_map nodup_map_firsts.of_map]
  intro a
  rw [h.mem_firsts, hm.mem_firsts, hp.mem_iff]

theorem countP_firsts (p : A → Bool) (l : List A) :
    (firsts key [] l).countP p = (((firsts key [] l).filter p).map key).toFinset.card := by
  have hnodup : (((firsts key [] l).filter p).map key).Nodup :=
    nodup_map_firsts.sublist (List.filter_sublist.map key)
  rw [List.toFinset_card_of_nodup hnodup, List.length_map, List.countP_eq_length_filter]

end MeshcoreAnalyzer.Firsts

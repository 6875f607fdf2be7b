import Mathlib.Data.List.Sort
import Mathlib.Data.List.TakeWhile

namespace MeshcoreAnalyzer.Orders

/-! Lists in the order of a key, and what may be read off their ends. -/

variable {A K : Type} [LinearOrder K] {key : A → K}

def Ascending (key : A → K) (l : List A) : Prop := l.Pairwise fun a b => key a ≤ key b

instance (l : List A) : Decidable (Ascending key l) := inferInstanceAs (Decidable (List.Pairwise _ _))

theorem ascending_nil : Ascending key [] := List.Pairwise.nil

theorem ascending_append {l l' : List A} : Ascending key (l ++ l') ↔
    Ascending key l ∧ Ascending key l' ∧ ∀ a ∈ l, ∀ b ∈ l', key a ≤ key b := List.pairwise_append

theorem ascending_snoc {l : List A} {b : A} :
    Ascending key (l ++ [b]) ↔ Ascending key l ∧ ∀ a ∈ l, key a ≤ key b := by
  rw [ascending_append]
  constructor
  · rintro ⟨hl, _, hb⟩
    exact ⟨hl, fun a ha => hb a ha b (List.mem_singleton_self b)⟩
  · rintro ⟨hl, hb⟩
    refine ⟨hl, List.pairwise_singleton _ _, fun a ha c hc => ?_⟩
    rw [List.mem_singleton.mp hc]
    exact hb a ha

theorem Ascending.sublist {l l' : List A} (h : Ascending key l) (hsub : l'.Sublist l) : Ascending key l' :=
  List.Pairwise.sublist hsub h

theorem Ascending.congr {f : A → K} {l : List A} (h : Ascending key l) (heq : ∀ a ∈ l, f a = key a) :
    Ascending f l :=
  List.Pairwise.imp_of_mem (fun ha hb hab => by rwa [heq _ ha, heq _ hb]) h

theorem ascending_insertionSort (key : A → K) (l : List A) :
    Ascending key (l.insertionSort fun a b => key a ≤ key b) := by
  have htotal : Std.Total fun a b : A => key a ≤ key b := ⟨fun a b => le_total (key a) (key b)⟩
  have htrans : IsTrans A fun a b => key a ≤ key b := ⟨fun _ _ _ hab hbc => le_trans hab hbc⟩
  exact List.pairwise_insertionSort _ l

/-- `sort.Slice` by a key: any list in order, since equals may change places. -/
structure SliceSort (key : A → K) where
  sort : List A → List A
  perm : ∀ l, (sort l).Perm l
  ascending : ∀ l, Ascending key (sort l)

def SliceSort.insertion (key : A → K) : SliceSort key where
  sort := fun l => l.insertionSort fun a b => key a ≤ key b
  perm := fun l => List.perm_insertionSort _ l
  ascending := ascending_insertionSort key

theorem Ascending.map_key_eq {l l' : List A} (hl : Ascending key l) (hl' : Ascending key l') (hp : l.Perm l') :
    l.map key = l'.map key :=
  (hp.map key).eq_of_pairwise' (List.pairwise_map.mpr hl) (List.pairwise_map.mpr hl')

section Strict

variable {l : List A} {R : A → A → Prop} (h : l.Pairwise fun a b => key a < key b)

include h

theorem mem_take_iff_countP {n : Nat} {a : A} (ha : a ∈ l) :
    a ∈ l.take n ↔ (l.countP fun b => key b < key a) < n := by
  induction l generalizing n with
  | nil => cases ha
  | cons b l ih =>
      obtain ⟨hb, hl⟩ := List.pairwise_cons.mp h
      cases n with
      | zero => exact iff_of_false List.not_mem_nil (Nat.not_lt_zero _)
      | succ n =>
          rw [List.take_succ_cons, List.mem_cons]
          rcases List.mem_cons.mp ha with rfl | ha
          · have hnone : (a :: l).countP (fun b => decide (key b < key a)) = 0 := by
              apply List.countP_eq_zero.mpr
              intro c hc hlt
              rcases List.mem_cons.mp hc with rfl | hc
              · exact lt_irrefl _ (of_decide_eq_true hlt)
              · exact lt_asymm (hb c hc) (of_decide_eq_true hlt)
            rw [hnone]
            exact iff_of_true (.inl rfl) n.succ_pos
          · have hba : key b < key a := hb a ha
            have hcount : (b :: l).countP (fun c => decide (key c < key a)) =
                l.countP (fun c => decide (key c < key a)) + 1 :=
              List.countP_cons_of_pos (decide_eq_true hba)
            rw [hcount, Nat.add_lt_add_iff_right, ← ih hl ha]
            exact or_iff_right fun hab => lt_irrefl _ (hab ▸ hba)

omit [LinearOrder K] h in
theorem take_filter_of_mem {p : A → Bool} {n : Nat} (hp : ∀ a ∈ l.take n, p a = true) :
    (l.filter p).take n = l.take n := by
  induction l generalizing n with
  | nil => rfl
  | cons a l ih =>
      cases n with
      | zero => rfl
      | succ n =>
          rw [List.take_succ_cons, List.forall_mem_cons] at hp
          rw [List.filter_cons_of_pos hp.1, List.take_succ_cons, List.take_succ_cons, ih hp.2]

theorem take_eq_take_filter {p : A → Bool} {n : Nat}
    (hfar : ∀ a ∈ l, p a = false → n ≤ l.countP fun b => p b && decide (key b < key a)) :
    l.take n = (l.filter p).take n := by
  apply (take_filter_of_mem ?_).symm
  intro a ha
  have hmem : a ∈ l := List.mem_of_mem_take ha
  have hbefore : (l.countP fun b => decide (key b < key a)) < n := (mem_take_iff_countP h hmem).mp ha
  by_contra hp
  have hle : (l.countP fun b => p b && decide (key b < key a)) ≤ l.countP fun b => decide (key b < key a) := by
    apply List.countP_mono_left
    intro b _ hb
    exact (Bool.and_eq_true_iff.mp hb).2
  exact absurd (hfar a hmem (Bool.eq_false_of_not_eq_true hp)) (not_le.mpr (hle.trans_lt hbefore))

theorem nodup_of_lt : l.Nodup := h.imp fun hlt => ne_of_apply_ne key hlt.ne

end Strict

theorem lt_of_mem_takeWhile {l : List A} {cutoff : K} {a : A}
    (h : a ∈ l.takeWhile fun a => key a < cutoff) : key a < cutoff := by
  have := List.mem_takeWhile_imp h
  exact of_decide_eq_true this

theorem drop_length_takeWhile (p : A → Bool) (l : List A) :
    l.drop (l.takeWhile p).length = l.dropWhile p :=
  calc
    l.drop (l.takeWhile p).length = (l.takeWhile p ++ l.dropWhile p).drop (l.takeWhile p).length := by
      rw [List.takeWhile_append_dropWhile]
    _ = l.dropWhile p := List.drop_left

theorem ascending_iff_dropWhile {l : List A} :
    Ascending key l ↔ ∀ cutoff, ∀ a ∈ l.dropWhile (fun a => key a < cutoff), cutoff ≤ key a := by
  induction l with
  | nil => simp [ascending_nil]
  | cons b l ih =>
      rw [Ascending, List.pairwise_cons]
      constructor
      · rintro ⟨hb, hl⟩ cutoff a ha
        by_cases hlt : key b < cutoff
        · rw [List.dropWhile_cons_of_pos (by simpa using hlt)] at ha
          exact ih.mp hl cutoff a ha
        · rw [List.dropWhile_cons_of_neg (by simpa using hlt)] at ha
          have hle := not_lt.mp hlt
          rcases List.mem_cons.mp ha with rfl | ha
          · exact hle
          · exact hle.trans (hb a ha)
      · intro h
        refine ⟨fun a ha => ?_, ih.mpr fun cutoff a ha => ?_⟩
        · -- the cutoff is the key of the head itself
          apply h (key b) a
          rw [List.dropWhile_cons_of_neg (by simp)]
          exact List.mem_cons_of_mem _ ha
        · by_cases hlt : key b < cutoff
          · apply h cutoff a
            rw [List.dropWhile_cons_of_pos (by simpa using hlt)]
            exact ha
          · apply h cutoff a
            rw [List.dropWhile_cons_of_neg (by simpa using hlt)]
            exact List.mem_cons_of_mem _ ((List.dropWhile_sublist _).subset ha)

end MeshcoreAnalyzer.Orders

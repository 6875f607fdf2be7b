import MeshcoreAnalyzer.Maps

namespace MeshcoreAnalyzer.Layers

open Maps

/-! Tables written into a map one after another, the later over the earlier. A table is the list
of its entries in the order in which a range visits them. -/

variable {K V : Type} [DecidableEq K]

section Tables

def has (keys : List K) (k : K) : Bool := decide (k ∈ keys)

/-- `l[k]` -/
def read (l : List (K × V)) (k : K) : Option V := l.lookup k

variable {l l' : List (K × V)} {m : GoMap K V} {k : K} {v : V}

theorem has_iff {keys : List K} : has keys k = true ↔ k ∈ keys := decide_eq_true_iff

theorem read_cons (e : K × V) : read (e :: l) k = if k = e.1 then some e.2 else read l k := by
  rw [read, List.lookup_cons]
  by_cases hk : k = e.1
  · rw [beq_iff_eq.mpr hk, if_pos hk]
  · rw [beq_false_of_ne hk, if_neg hk]
    rfl

theorem read_eq_some (h : (l.map Prod.fst).Nodup) : read l k = some v ↔ (k, v) ∈ l := by
  induction l with
  | nil => simp [read]
  | cons e l ih =>
      rw [List.map_cons, List.nodup_cons] at h
      rw [read_cons, List.mem_cons]
      by_cases hk : k = e.1
      · subst hk
        have hrest : (e.1, v) ∉ l := fun hv => h.1 (List.mem_map.mpr ⟨(e.1, v), hv, rfl⟩)
        rw [if_pos rfl, or_iff_left hrest, Option.some_inj, Prod.ext_iff]
        exact ⟨fun hv => ⟨rfl, hv.symm⟩, fun hv => hv.2.symm⟩
      · have hhead : (k, v) ≠ e := fun he => hk (congrArg Prod.fst he)
        rw [if_neg hk, or_iff_right hhead]
        exact ih h.2

theorem read_eq_none : read l k = none ↔ k ∉ l.map Prod.fst := by
  induction l with
  | nil => simp [read]
  | cons e l ih =>
      rw [read_cons, List.map_cons, List.mem_cons, not_or, ← ih]
      by_cases hk : k = e.1
      · simp [hk]
      · simp [hk]

theorem read_perm (h : (l.map Prod.fst).Nodup) (hp : l'.Perm l) (k : K) : read l' k = read l k := by
  have h' : (l'.map Prod.fst).Nodup := (hp.map Prod.fst).nodup_iff.mpr h
  apply Option.ext
  intro v
  rw [read_eq_some h, read_eq_some h', hp.mem_iff]

/-- `for k, v := range l { m[k] = v }` -/
def write (m : GoMap K V) (l : List (K × V)) : GoMap K V := l.foldl (fun m e => set m e.1 e.2) m

theorem write_cons (e : K × V) : write m (e :: l) = write (set m e.1 e.2) l := rfl

theorem write_apply (h : (l.map Prod.fst).Nodup) (k : K) : write m l k = (read l k).or (m k) := by
  induction l generalizing m with
  | nil => rfl
  | cons e l ih =>
      rw [List.map_cons, List.nodup_cons] at h
      rw [write_cons, ih h.2, read_cons, set_apply]
      by_cases hk : k = e.1
      · subst hk
        rw [read_eq_none.mpr h.1, if_pos rfl, if_pos rfl]
        rfl
      · rw [if_neg hk, if_neg hk]

theorem write_ne_none (hk : m k ≠ none) : write m l k ≠ none := by
  induction l generalizing m with
  | nil => exact hk
  | cons e l ih =>
      apply ih
      beta_reduce
      rw [set_apply]
      split
      · exact Option.some_ne_none e.2
      · exact hk

theorem write_of_mem (h : (k, v) ∈ l) : write m l k ≠ none := by
  induction l generalizing m with
  | nil => cases h
  | cons e l ih =>
      rw [write_cons]
      rcases List.mem_cons.mp h with rfl | h
      · apply write_ne_none
        rw [set_apply, if_pos rfl]
        exact Option.some_ne_none v
      · exact ih h

theorem mem_of_write (h : write m l k = some v) : (k, v) ∈ l ∨ m k = some v := by
  induction l generalizing m with
  | nil => exact .inr h
  | cons e l ih =>
      rcases ih h with hmem | hm
      · exact .inl (List.mem_cons_of_mem e hmem)
      · rw [set_eq_some] at hm
        rcases hm with ⟨rfl, rfl⟩ | ⟨-, hm⟩
        · exact .inl List.mem_cons_self
        · exact .inr hm

theorem write_map (f : K → V) (names : List K) (k : K) :
    write m (names.map fun n => (n, f n)) k = if k ∈ names then some (f k) else m k := by
  induction names generalizing m with
  | nil => rfl
  | cons n names ih =>
      rw [List.map_cons, write_cons, ih, set_apply]
      by_cases hk : k = n
      · subst hk
        simp
      · simp [hk]

end Tables

section First

variable {A B C : Type} {f : A → Option B} {t : List A}

theorem findSome_cons_of_some {e : A} {b : B} (he : f e = some b) (rest : List A) : (e :: rest).findSome? f = some b := by
  rw [List.findSome?_cons, he]

theorem exists_perm_cons {e : A} (he : e ∈ t) : ∃ rest, (e :: rest).Perm t := by
  obtain ⟨s, r, rfl⟩ := List.append_of_mem he
  exact ⟨s ++ r, List.perm_middle.symm⟩

theorem findSome_perm_iff (f : A → Option B) (g : Option B → C) (t : List A) :
    (∀ l l' : List A, l.Perm t → l'.Perm t → g (l.findSome? f) = g (l'.findSome? f)) ↔
      ∀ e ∈ t, ∀ e' ∈ t, ∀ b b', f e = some b → f e' = some b' → g (some b) = g (some b') := by
  constructor
  · intro h e he e' he' b b' hb hb'
    obtain ⟨rest, hrest⟩ := exists_perm_cons he
    obtain ⟨rest', hrest'⟩ := exists_perm_cons he'
    have hsame := h _ _ hrest hrest'
    rwa [findSome_cons_of_some hb, findSome_cons_of_some hb'] at hsame
  · intro h l l' hl hl'
    cases hfirst : l.findSome? f with
    | none =>
        have hnone : l'.findSome? f = none := by
          apply List.findSome?_eq_none_iff.mpr
          intro e he
          exact List.findSome?_eq_none_iff.mp hfirst e (hl.mem_iff.mpr (hl'.mem_iff.mp he))
        rw [hnone]
    | some b =>
        obtain ⟨e, he, hb⟩ := List.exists_of_findSome?_eq_some hfirst
        cases hfirst' : l'.findSome? f with
        | none =>
            have hnone := List.findSome?_eq_none_iff.mp hfirst' e (hl'.mem_iff.mpr (hl.mem_iff.mp he))
            rw [hnone] at hb
            cases hb
        | some b' =>
            obtain ⟨e', he', hb'⟩ := List.exists_of_findSome?_eq_some hfirst'
            exact h e (hl.mem_iff.mp he) e' (hl'.mem_iff.mp he') b b' hb hb'

end First

section Canonical

variable (canon : K → K) {l l' : List (K × V)} {m : GoMap K V}

def claim (m : GoMap K V) (e : K × V) : GoMap K V :=
  match m (canon e.1) with
  | some _ => if e.1 = canon e.1 then set m (canon e.1) e.2 else m
  | none => set m (canon e.1) e.2

def canonical (l : List (K × V)) : List (K × V) := l.filter fun e => e.1 = canon e.1

theorem nodup_canonical (h : (l.map Prod.fst).Nodup) : ((canonical canon l).map Prod.fst).Nodup :=
  h.sublist (List.filter_sublist.map Prod.fst)

theorem canonical_perm (h : l'.Perm l) : (canonical canon l').Perm (canonical canon l) := h.filter _

theorem mem_canonical {e : K × V} : e ∈ canonical canon l ↔ e ∈ l ∧ e.1 = canon e.1 := by
  rw [canonical, List.mem_filter, decide_eq_true_eq]

theorem foldl_claim (h : ∀ e ∈ l, e.1 ≠ canon e.1 → m (canon e.1) ≠ none) :
    l.foldl (claim canon) m = write m (canonical canon l) := by
  induction l generalizing m with
  | nil => rfl
  | cons e l ih =>
      have hrest : ∀ f ∈ l, f.1 ≠ canon f.1 → m (canon f.1) ≠ none :=
        fun f hf => h f (List.mem_cons_of_mem e hf)
      rw [List.foldl_cons]
      by_cases he : e.1 = canon e.1
      · have hclaim : claim canon m e = set m e.1 e.2 := by
          rw [claim, ← he, if_pos rfl]
          split <;> rfl
        rw [canonical, List.filter_cons_of_pos (by simpa using he), write_cons, hclaim]
        apply ih
        intro f hf hne
        have hkeep : write m [e] (canon f.1) ≠ none := write_ne_none (hrest f hf hne)
        exact hkeep
      · have hclaim : claim canon m e = m := by
          obtain ⟨v, hv⟩ := Option.ne_none_iff_exists'.mp (h e List.mem_cons_self he)
          rw [claim, hv]
          exact if_neg he
        rw [canonical, List.filter_cons_of_neg (by simpa using he), hclaim]
        exact ih hrest

end Canonical

end MeshcoreAnalyzer.Layers

import Mathlib.Data.List.Nodup
import Mathlib.Logic.Relation
import Mathlib.Data.Int.Order.Basic
import Mathlib.Order.Basic

namespace MeshcoreAnalyzer.References

/-! Entries that refer by number to a subject, and to a source or none. The numbers of subjects and
entries are given once; that of a source may be given again, when no entry refers to it any more. -/

variable {A S H : Type}

def named (n : Int) (rows : List (Int × A)) : Option A := (rows.find? fun p => p.1 = n).map Prod.snd

theorem named_of_mem {rows : List (Int × A)} (hnd : (rows.map Prod.fst).Nodup) {p : Int × A} (hp : p ∈ rows) :
    named p.1 rows = some p.2 := by
  induction rows with
  | nil => simp at hp
  | cons q rows ih =>
      rw [List.map_cons, List.nodup_cons] at hnd
      rcases List.mem_cons.mp hp with rfl | hp
      · simp [named]
      · have hne : q.1 ≠ p.1 := by
          intro heq
          exact hnd.1 (heq ▸ List.mem_map_of_mem hp)
        simpa [named, List.find?_cons, hne] using ih hnd.2 hp

theorem named_append {rows more : List (Int × A)} {n : Int} (h : n ∈ rows.map Prod.fst) :
    named n (rows ++ more) = named n rows := by
  obtain ⟨p, hp, rfl⟩ := List.mem_map.mp h
  have hsome : (rows.find? fun q => q.1 = p.1).isSome := List.find?_isSome.mpr ⟨p, hp, by simp⟩
  obtain ⟨q, hq⟩ := Option.isSome_iff_exists.mp hsome
  simp [named, List.find?_append, hq]

theorem named_append_of_some {rows : List (Int × A)} {n : Int} {a : A} (h : named n rows = some a) (more : List (Int × A)) :
    named n (rows ++ more) = some a := by
  obtain ⟨p, hp, rfl⟩ := Option.map_eq_some_iff.mp h
  simp [named, List.find?_append, hp]

theorem named_sublist {rows kept : List (Int × A)} (hnd : (rows.map Prod.fst).Nodup) (hs : kept.Sublist rows) {n : Int}
    (h : n ∈ kept.map Prod.fst) : named n kept = named n rows := by
  obtain ⟨p, hp, rfl⟩ := List.mem_map.mp h
  rw [named_of_mem (hnd.sublist (hs.map Prod.fst)) hp, named_of_mem hnd (hs.subset hp)]

@[ext]
structure Entry where
  id : Int
  subject : Int
  source : Option Int

structure Register (S H : Type) where
  sources : List (Int × S)
  subjects : List (Int × H)
  entries : List Entry
  lastSubject : Int
  lastEntry : Int

namespace Register

def subjectOf (r : Register S H) (e : Entry) : Option H := named e.subject r.subjects

def sourceOf (r : Register S H) (e : Entry) : Option S := e.source.bind fun n => named n r.sources

structure Resolves (r : Register S H) (subject : Int) (source : Option Int) : Prop where
  subject_mem : subject ∈ r.subjects.map Prod.fst
  source_mem : ∀ n ∈ source, n ∈ r.sources.map Prod.fst

structure Sound (r : Register S H) : Prop where
  sources_nodup : (r.sources.map Prod.fst).Nodup
  subjects_nodup : (r.subjects.map Prod.fst).Nodup
  entries_nodup : (r.entries.map Entry.id).Nodup
  subject_le : ∀ p ∈ r.subjects, p.1 ≤ r.lastSubject
  entry_le : ∀ e ∈ r.entries, e.id ≤ r.lastEntry
  resolves : ∀ e ∈ r.entries, r.Resolves e.subject e.source

end Register

open Register

inductive Add : Register S H → Register S H → Prop
  | skip (r : Register S H) : Add r { r with lastEntry := r.lastEntry + 1 }
  | source (r : Register S H) (n : Int) (name : S) (h : n ∉ r.sources.map Prod.fst) :
      Add r { r with sources := r.sources ++ [(n, name)] }
  | subject (r : Register S H) (name : H) :
      Add r { r with subjects := r.subjects ++ [(r.lastSubject + 1, name)], lastSubject := r.lastSubject + 1 }
  | entry (r : Register S H) (subject : Int) (source : Option Int) (h : r.Resolves subject source) :
      Add r { r with entries := r.entries ++ [⟨r.lastEntry + 1, subject, source⟩], lastEntry := r.lastEntry + 1 }

structure Drop (r r' : Register S H) : Prop where
  sources : r'.sources.Sublist r.sources
  subjects : r'.subjects.Sublist r.subjects
  entries : r'.entries.Sublist r.entries
  lastSubject : r'.lastSubject = r.lastSubject
  lastEntry : r'.lastEntry = r.lastEntry
  subject_kept : ∀ e ∈ r'.entries, ∀ p ∈ r.subjects, p.1 = e.subject → p ∈ r'.subjects
  source_kept : ∀ e ∈ r'.entries, ∀ n ∈ e.source, ∀ p ∈ r.sources, p.1 = n → p ∈ r'.sources

def Move (r r' : Register S H) : Prop := Add r r' ∨ Drop r r'

def Moves : Register S H → Register S H → Prop := Relation.ReflTransGen Move

variable {r r' r'' : Register S H}

theorem Register.Resolves.mono {subject : Int} {source : Option Int} (h : r.Resolves subject source)
    (hsubjects : r.subjects.map Prod.fst ⊆ r'.subjects.map Prod.fst)
    (hsources : r.sources.map Prod.fst ⊆ r'.sources.map Prod.fst) : r'.Resolves subject source :=
  ⟨hsubjects h.subject_mem, fun n hn => hsources (h.source_mem n hn)⟩

theorem Register.Resolves.no_source {subject : Int} {source : Option Int} (h : r.Resolves subject source) :
    r.Resolves subject none := ⟨h.subject_mem, by simp⟩

theorem Add.grows (h : Add r r') : r.subjects.map Prod.fst ⊆ r'.subjects.map Prod.fst ∧
    r.sources.map Prod.fst ⊆ r'.sources.map Prod.fst := by
  cases h with
  | skip => exact ⟨List.Subset.refl _, List.Subset.refl _⟩
  | source n name h => exact ⟨List.Subset.refl _, by simp⟩
  | subject name => exact ⟨by simp, List.Subset.refl _⟩
  | entry subject source h => exact ⟨List.Subset.refl _, List.Subset.refl _⟩

theorem Add.resolves (h : Add r r') {subject : Int} {source : Option Int} (hr : r.Resolves subject source) :
    r'.Resolves subject source := hr.mono h.grows.1 h.grows.2

theorem Add.keeps (h : Add r r') {n : Int} : (∀ name, named n r.subjects = some name → named n r'.subjects = some name) ∧
    ∀ name, named n r.sources = some name → named n r'.sources = some name := by
  cases h with
  | skip => exact ⟨fun _ h => h, fun _ h => h⟩
  | source n name h => exact ⟨fun _ h => h, fun _ h => named_append_of_some h _⟩
  | subject name => exact ⟨fun _ h => named_append_of_some h _, fun _ h => h⟩
  | entry subject source h => exact ⟨fun _ h => h, fun _ h => h⟩

theorem resolves_of_add (h : Relation.ReflGen Add r r') {subject : Int} {source : Option Int}
    (hr : r.Resolves subject source) : r'.Resolves subject source := by
  cases h with
  | refl => exact hr
  | single h => exact h.resolves hr

theorem nodup_concat {l : List Int} (h : l.Nodup) {n : Int} (hn : n ∉ l) : (l ++ [n]).Nodup := by
  simp only [List.nodup_append, h, List.nodup_singleton, List.mem_singleton, true_and]
  intro m hm k hk heq
  exact hn (hk ▸ heq ▸ hm)

theorem Add.sound (hs : Sound r) (h : Add r r') : Sound r' := by
  have hgrow : ∀ subject source, r.Resolves subject source → r'.Resolves subject source :=
    fun subject source => h.resolves
  cases h with
  | skip =>
      exact
        { hs with
          entry_le := fun e he => Int.le_add_one (hs.entry_le e he)
          resolves := fun e he => hgrow _ _ (hs.resolves e he) }
  | source n name hn =>
      exact
        { hs with
          sources_nodup := by
            rw [List.map_append, List.map_singleton]
            exact nodup_concat hs.sources_nodup hn
          resolves := fun e he => hgrow _ _ (hs.resolves e he) }
  | subject name =>
      have hfresh : r.lastSubject + 1 ∉ r.subjects.map Prod.fst := by
        intro hmem
        obtain ⟨p, hp, heq⟩ := List.mem_map.mp hmem
        have := hs.subject_le p hp
        omega
      exact
        { hs with
          subjects_nodup := by
            rw [List.map_append, List.map_singleton]
            exact nodup_concat hs.subjects_nodup hfresh
          subject_le := by
            intro p hp
            rcases List.mem_append.mp hp with hp | hp
            · exact Int.le_add_one (hs.subject_le p hp)
            · exact (congrArg Prod.fst (List.mem_singleton.mp hp)).le
          resolves := fun e he => hgrow _ _ (hs.resolves e he) }
  | entry subject source hr =>
      have hfresh : r.lastEntry + 1 ∉ r.entries.map Entry.id := by
        intro hmem
        obtain ⟨e, he, heq⟩ := List.mem_map.mp hmem
        have := hs.entry_le e he
        omega
      exact
        { hs with
          entries_nodup := by
            rw [List.map_append, List.map_singleton]
            exact nodup_concat hs.entries_nodup hfresh
          entry_le := by
            intro e he
            rcases List.mem_append.mp he with he | he
            · exact Int.le_add_one (hs.entry_le e he)
            · exact (congrArg Entry.id (List.mem_singleton.mp he)).le
          resolves := by
            intro e he
            rcases List.mem_append.mp he with he | he
            · exact hgrow _ _ (hs.resolves e he)
            · rw [List.mem_singleton.mp he]
              exact hgrow _ _ hr }

theorem Drop.resolves (hs : Sound r) (h : Drop r r') {e : Entry} (he : e ∈ r'.entries) :
    r'.Resolves e.subject e.source := by
  have hr := hs.resolves e (h.entries.subset he)
  constructor
  · obtain ⟨p, hp, heq⟩ := List.mem_map.mp hr.subject_mem
    exact heq ▸ List.mem_map_of_mem (h.subject_kept e he p hp heq)
  · intro n hn
    obtain ⟨p, hp, heq⟩ := List.mem_map.mp (hr.source_mem n hn)
    exact heq ▸ List.mem_map_of_mem (h.source_kept e he n hn p hp heq)

theorem Drop.sound (hs : Sound r) (h : Drop r r') : Sound r' where
  sources_nodup := hs.sources_nodup.sublist (h.sources.map Prod.fst)
  subjects_nodup := hs.subjects_nodup.sublist (h.subjects.map Prod.fst)
  entries_nodup := hs.entries_nodup.sublist (h.entries.map Entry.id)
  subject_le p hp := h.lastSubject ▸ hs.subject_le p (h.subjects.subset hp)
  entry_le e he := h.lastEntry ▸ hs.entry_le e (h.entries.subset he)
  resolves _ he := h.resolves hs he

theorem moves_of_add (h : Relation.ReflGen Add r r') : Moves r r' := by
  cases h with
  | refl => exact .refl
  | single h => exact .single (.inl h)

theorem Moves.sound (hs : Sound r) (h : Moves r r') : Sound r' := by
  induction h with
  | refl => exact hs
  | tail _ hm ih => exact hm.elim (Add.sound ih) (Drop.sound ih)

/-- The entries whose numbers had been given are those that there were, with the same subject and source. -/
structure Continues (r r' : Register S H) : Prop where
  lastEntry_le : r.lastEntry ≤ r'.lastEntry
  entry : ∀ e ∈ r'.entries, e.id ≤ r.lastEntry → e ∈ r.entries ∧ r'.subjectOf e = r.subjectOf e ∧ r'.sourceOf e = r.sourceOf e

theorem Continues.refl (r : Register S H) : Continues r r := ⟨le_refl _, fun _ he _ => ⟨he, rfl, rfl⟩⟩

theorem Continues.trans (h : Continues r r') (h' : Continues r' r'') : Continues r r'' := by
  constructor
  · exact Int.le_trans h.lastEntry_le h'.lastEntry_le
  · intro e he hle
    obtain ⟨he', hsubject', hsource'⟩ := h'.entry e he (Int.le_trans hle h.lastEntry_le)
    obtain ⟨he, hsubject, hsource⟩ := h.entry e he' hle
    exact ⟨he, hsubject'.trans hsubject, hsource'.trans hsource⟩

theorem sourceOf_congr {e : Entry} (h : ∀ n ∈ e.source, named n r'.sources = named n r.sources) :
    r'.sourceOf e = r.sourceOf e := by
  rw [sourceOf, sourceOf]
  cases hn : e.source with
  | none => rfl
  | some n => exact h n (by simp [hn])

theorem Add.continues (hs : Sound r) (h : Add r r') : Continues r r' := by
  cases h with
  | skip => exact ⟨Int.le_add_one (le_refl _), fun _ he _ => ⟨he, rfl, rfl⟩⟩
  | source n name hn =>
      refine ⟨le_refl _, fun e he _ => ⟨he, rfl, ?_⟩⟩
      apply sourceOf_congr
      intro m hm
      exact named_append ((hs.resolves e he).source_mem m hm)
  | subject name => exact ⟨le_refl _, fun e he _ => ⟨he, named_append (hs.resolves e he).subject_mem, rfl⟩⟩
  | entry subject source hr =>
      refine ⟨Int.le_add_one (le_refl _), fun e he hle => ?_⟩
      rcases List.mem_append.mp he with he | he
      · exact ⟨he, rfl, rfl⟩
      · rw [List.mem_singleton.mp he] at hle
        exact absurd hle (Int.not_le.mpr (Int.lt_succ r.lastEntry))

theorem Drop.continues (hs : Sound r) (h : Drop r r') : Continues r r' := by
  refine ⟨h.lastEntry.ge, fun e he _ => ⟨h.entries.subset he, ?_, ?_⟩⟩
  · exact named_sublist hs.subjects_nodup h.subjects (h.resolves hs he).subject_mem
  · apply sourceOf_congr
    intro n hn
    exact named_sublist hs.sources_nodup h.sources ((h.resolves hs he).source_mem n hn)

theorem Moves.continues (hs : Sound r) (h : Moves r r') : Continues r r' := by
  induction h with
  | refl => exact Continues.refl r
  | tail hprev hm ih =>
      have hsound := Moves.sound hs hprev
      exact ih.trans (hm.elim (Add.continues hsound) (Drop.continues hsound))

/-- Each entry numbered after `last` is of a subject and a source as the relation has it. -/
def Register.Credits (P : H → Option S → Prop) (last : Int) (r : Register S H) : Prop :=
  ∀ e ∈ r.entries, last < e.id → ∃ h, r.subjectOf e = some h ∧ P h (r.sourceOf e)

theorem Continues.credits {P : H → Option S → Prop} {last : Int} (h : Continues r r') (hc : r.Credits P last)
    (hnew : ∀ e ∈ r'.entries, r.lastEntry < e.id → ∃ h, r'.subjectOf e = some h ∧ P h (r'.sourceOf e)) : r'.Credits P last := by
  intro e he hlast
  by_cases hle : e.id ≤ r.lastEntry
  · obtain ⟨hmem, hsubject, hsource⟩ := h.entry e he hle
    rw [hsubject, hsource]
    exact hc e hmem hlast
  · exact hnew e he (Int.not_le.mp hle)

theorem Moves.same (hs : Sound r) (h : Moves r r') {e e' : Entry} (he : e ∈ r.entries) (he' : e' ∈ r'.entries)
    (hid : e'.id = e.id) : e' = e ∧ r'.subjectOf e' = r.subjectOf e ∧ r'.sourceOf e' = r.sourceOf e := by
  have hle : e'.id ≤ r.lastEntry := hid ▸ hs.entry_le e he
  obtain ⟨hmem, hsubject, hsource⟩ := (Moves.continues hs h).entry e' he' hle
  have heq : e' = e := List.inj_on_of_nodup_map hs.entries_nodup hmem he hid
  exact ⟨heq, heq ▸ hsubject, heq ▸ hsource⟩

end MeshcoreAnalyzer.References

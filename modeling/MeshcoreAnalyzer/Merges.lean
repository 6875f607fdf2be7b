import Mathlib.Algebra.BigOperators.Group.List.Basic
import Mathlib.Data.Finset.Card
import Mathlib.Data.List.Nodup

namespace MeshcoreAnalyzer.Merges

/-! Counts that are kept under several spellings of one identity, and a loop that adds them up
under one of the spellings. A map is the list of its entries. -/

section Maps

variable {K V : Type} [DecidableEq K]

def upsert (start : V) (add : V → V) (k : K) : List (K × V) → List (K × V)
  | [] => [(k, start)]
  | p :: m => if p.1 = k then (k, add p.2) :: m else p :: upsert start add k m

/-- `m[k] = v` -/
def put (m : List (K × V)) (p : K × V) : List (K × V) := upsert p.2 (fun _ => p.2) p.1 m

variable {start : V} {add : V → V} {k : K} {m : List (K × V)}

theorem upsert_of_notMem (h : k ∉ m.map Prod.fst) : upsert start add k m = m ++ [(k, start)] := by
  induction m with
  | nil => rfl
  | cons p m ih =>
      rw [List.map_cons, List.mem_cons, not_or] at h
      rw [upsert, if_neg (Ne.symm h.1), ih h.2]
      rfl

theorem keys_upsert_of_mem (h : k ∈ m.map Prod.fst) : (upsert start add k m).map Prod.fst = m.map Prod.fst := by
  induction m with
  | nil => cases h
  | cons p m ih =>
      rw [upsert]
      split
      · next hp => simp [hp]
      · next hp =>
          have hm : k ∈ m.map Prod.fst := (List.mem_cons.mp h).resolve_left (Ne.symm hp)
          rw [List.map_cons, List.map_cons, ih hm]

theorem nodup_upsert (h : (m.map Prod.fst).Nodup) : ((upsert start add k m).map Prod.fst).Nodup := by
  by_cases hk : k ∈ m.map Prod.fst
  · rw [keys_upsert_of_mem hk]
    exact h
  · rw [upsert_of_notMem hk, List.map_append]
    apply List.Nodup.append h (List.nodup_singleton _)
    intro a ha ha'
    rw [List.mem_singleton.mp ha'] at ha
    exact hk ha

theorem mem_upsert (h : (m.map Prod.fst).Nodup) {p : K × V} : p ∈ upsert start add k m ↔
    p.1 ≠ k ∧ p ∈ m ∨ p.1 = k ∧ ((∃ v, (k, v) ∈ m ∧ p.2 = add v) ∨ k ∉ m.map Prod.fst ∧ p.2 = start) := by
  induction m with
  | nil =>
      rw [upsert, List.mem_singleton, Prod.ext_iff]
      simp
  | cons q m ih =>
      rw [List.map_cons, List.nodup_cons] at h
      rw [upsert]
      by_cases hq : q.1 = k
      · subst hq
        rw [if_pos rfl, List.mem_cons, Prod.ext_iff]
        constructor
        · rintro (⟨h₁, h₂⟩ | hp)
          · exact .inr ⟨h₁, .inl ⟨q.2, List.mem_cons_self, h₂⟩⟩
          · have hne : p.1 ≠ q.1 := fun heq => h.1 (heq ▸ List.mem_map_of_mem hp)
            exact .inl ⟨hne, List.mem_cons_of_mem _ hp⟩
        · rintro (⟨hne, hp⟩ | ⟨heq, ⟨v, hv, hadd⟩ | ⟨hnot, _⟩⟩)
          · exact .inr ((List.mem_cons.mp hp).resolve_left fun hpq => hne (hpq ▸ rfl))
          · rcases List.mem_cons.mp hv with hv | hv
            · rw [← hv] at heq ⊢
              exact .inl ⟨heq, hadd⟩
            · exact absurd (List.mem_map_of_mem hv) h.1
          · exact absurd (List.mem_cons_self) hnot
      · rw [if_neg hq, List.mem_cons, ih h.2]
        have hkey : k ∉ (q :: m).map Prod.fst ↔ k ∉ m.map Prod.fst := by simp [Ne.symm hq]
        have hval : ∀ v, (k, v) ∈ q :: m ↔ (k, v) ∈ m := by
          intro v
          rw [List.mem_cons, or_iff_right]
          rintro rfl
          exact hq rfl
        simp only [hkey, hval, List.mem_cons]
        constructor
        · rintro (rfl | ⟨hne, hp⟩ | hin)
          · exact .inl ⟨hq, .inl rfl⟩
          · exact .inl ⟨hne, .inr hp⟩
          · exact .inr hin
        · rintro (⟨hne, rfl | hp⟩ | hin)
          · exact .inl rfl
          · exact .inr (.inl ⟨hne, hp⟩)
          · exact .inr (.inr hin)

theorem sum_upsert {M : Type} [AddCommMonoid M] {f : V → M} {c : M} (hstart : f start = c)
    (hadd : ∀ v, f (add v) = f v + c) :
    ((upsert start add k m).map fun p => f p.2).sum = (m.map fun p => f p.2).sum + c := by
  induction m with
  | nil => simp [upsert, hstart]
  | cons p m ih =>
      rw [upsert]
      split
      · rw [List.map_cons, List.map_cons, List.sum_cons, List.sum_cons, hadd]
        exact add_right_comm _ _ _
      · rw [List.map_cons, List.map_cons, List.sum_cons, List.sum_cons, ih, add_assoc]

theorem foldl_put {l : List (K × V)} (h : ((m ++ l).map Prod.fst).Nodup) : l.foldl put m = m ++ l := by
  induction l generalizing m with
  | nil => exact (List.append_nil m).symm
  | cons p l ih =>
      have hassoc : m ++ p :: l = m ++ [p] ++ l := by simp
      have hnew : p.1 ∉ m.map Prod.fst := by
        intro hp
        rw [List.map_append] at h
        exact (List.disjoint_of_nodup_append h) hp List.mem_cons_self
      rw [List.foldl_cons, put, upsert_of_notMem hnew, hassoc]
      rw [hassoc] at h
      exact ih h

theorem mem_of_mem_foldl_put {l : List (K × V)} {p : K × V} (h : p ∈ l.foldl put m) : p ∈ m ∨ p ∈ l := by
  induction l generalizing m with
  | nil => exact .inl h
  | cons q l ih =>
      rcases ih h with hp | hp
      · have hput : ∀ m : List (K × V), p ∈ put m q → p ∈ m ∨ p = q := by
          intro m
          induction m with
          | nil => exact fun hp => .inr (List.mem_singleton.mp hp)
          | cons r m ihm =>
              intro hp
              rw [put, upsert] at hp
              split at hp
              · rcases List.mem_cons.mp hp with rfl | hp
                · exact .inr rfl
                · exact .inl (List.mem_cons_of_mem r hp)
              · rcases List.mem_cons.mp hp with rfl | hp
                · exact .inl List.mem_cons_self
                · exact (ihm hp).imp_left (List.mem_cons_of_mem r)
        rcases hput m hp with hp | rfl
        · exact .inl hp
        · exact .inr List.mem_cons_self
      · exact .inr (List.mem_cons_of_mem q hp)

end Maps

/-- How the entries are read: whom a key stands for and how it is spelled, which of two spellings
is taken, and how it is written back. -/
structure Scheme (H I K R : Type) where
  read : H → Option (I × R)
  join : I → K
  longer : R → R → R
  spell : R → H

structure DedupInfo (R M : Type) where
  totalCount : M
  longest : R

namespace Scheme

variable {H I K R M : Type} (s : Scheme H I K R)

def ident (h : H) : Option I := (s.read h).map Prod.fst

def best : List R → Option R
  | [] => none
  | r :: g => some (g.foldl s.longer r)

def identities (freq : List (H × M)) : List I := freq.filterMap fun e => s.ident e.1

def spellings [DecidableEq I] (freq : List (H × M)) (i : I) : List R :=
  freq.filterMap fun e => (s.read e.1).bind fun p => if p.1 = i then some p.2 else none

def readings [DecidableEq K] (l : List (H × M)) (k : K) : List (R × M) :=
  l.filterMap fun e => (s.read e.1).bind fun p => if s.join p.1 = k then some (p.2, e.2) else none

variable [AddCommMonoid M]

def share [DecidableEq I] (freq : List (H × M)) (i : I) : M :=
  ((freq.filter fun e => s.ident e.1 = some i).map Prod.snd).sum

def gather (g : List (R × M)) : Option (DedupInfo R M) :=
  (s.best (g.map Prod.fst)).map fun r => ⟨(g.map Prod.snd).sum, r⟩

variable [DecidableEq H] [DecidableEq K]

def visit (acc : List (K × DedupInfo R M) × List (H × M)) (e : H × M) : List (K × DedupInfo R M) × List (H × M) :=
  match s.read e.1 with
  | some (i, r) =>
      (upsert ⟨e.2, r⟩ (fun info => ⟨info.totalCount + e.2, s.longer info.longest r⟩) (s.join i) acc.1, acc.2)
  | none => (acc.1, put acc.2 e)

def collect (l : List (H × M)) : List (K × DedupInfo R M) × List (H × M) := l.foldl s.visit ([], [])

omit [AddCommMonoid M] [DecidableEq K] in
def rebuild (merged : List (K × DedupInfo R M)) (kept : List (H × M)) : List (H × M) :=
  kept.foldl put ((merged.map fun p => (s.spell p.2.longest, p.2.totalCount)).foldl put [])

/-- What can come of it, as the ranges over the three maps run in any order. -/
def Result (freq out : List (H × M)) : Prop :=
  ∃ (l : List (H × M)) (merged : List (K × DedupInfo R M)) (kept : List (H × M)),
    l.Perm freq ∧ merged.Perm (s.collect l).1 ∧ kept.Perm (s.collect l).2 ∧ out = s.rebuild merged kept

/-- The counts are conserved: in sum, under one entry for each identity, and as they are for
the other keys; and there is only one result. -/
structure Conserves [DecidableEq I] (freq : List (H × M)) : Prop where
  total : ∀ out, s.Result freq out → (out.map Prod.snd).sum = (freq.map Prod.snd).sum
  one : ∀ out, s.Result freq out → ∀ i ∈ s.identities freq, ∃ h, s.ident h = some i ∧
    ∀ e, e ∈ out ∧ s.ident e.1 = some i ↔ e = (h, s.share freq i)
  kept : ∀ out, s.Result freq out → ∀ e : H × M, s.ident e.1 = none → (e ∈ out ↔ e ∈ freq)
  same : ∀ out out', s.Result freq out → s.Result freq out' → out.Perm out'

def TellsApart (s : Scheme H I K R) (freq : List (H × M)) : Prop :=
  ∀ i ∈ s.identities freq, ∀ i' ∈ s.identities freq, s.join i = s.join i' → i = i'

def ReadsBack [DecidableEq I] (s : Scheme H I K R) (freq : List (H × M)) : Prop :=
  ∀ i g r, (∀ r ∈ g, r ∈ s.spellings freq i) → s.best g = some r → s.ident (s.spell r) = some i

/-- Identities are told apart where they are joined, and the order of the spellings of one
does not show. -/
structure Clear [DecidableEq I] (freq : List (H × M)) : Prop where
  join : s.TellsApart freq
  spell : ∀ i ∈ s.identities freq, ∀ g g', g.Perm (s.spellings freq i) → g'.Perm (s.spellings freq i) →
    (s.best g).map s.spell = (s.best g').map s.spell

variable {s} {freq l : List (H × M)} {k : K}

omit [DecidableEq H] [DecidableEq K] in
theorem gather_concat (g : List (R × M)) (x : R × M) : s.gather (g ++ [x]) = some (match s.gather g with
    | none => ⟨x.2, x.1⟩
    | some info => ⟨info.totalCount + x.2, s.longer info.longest x.1⟩) := by
  cases g with
  | nil => simp [gather, best]
  | cons y g => simp [gather, best, List.foldl_append, add_assoc]

omit [DecidableEq H] [AddCommMonoid M] in
theorem readings_concat (l : List (H × M)) (e : H × M) (k : K) : s.readings (l ++ [e]) k = s.readings l k ++
    ((s.read e.1).bind fun p => if s.join p.1 = k then some (p.2, e.2) else none).toList := by
  rw [readings]
  rw [List.filterMap_append]
  rfl

structure Collected (s : Scheme H I K R) (l : List (H × M)) (acc : List (K × DedupInfo R M) × List (H × M)) : Prop where
  nodup : (acc.1.map Prod.fst).Nodup
  merged : ∀ k info, (k, info) ∈ acc.1 ↔ s.gather (s.readings l k) = some info
  kept : acc.2 = l.filter fun e => (s.ident e.1).isNone
  total : (acc.1.map fun p => p.2.totalCount).sum + (acc.2.map Prod.snd).sum = (l.map Prod.snd).sum

theorem Collected.visit {acc : List (K × DedupInfo R M) × List (H × M)} (h : Collected s l acc) {e : H × M}
    (he : e.1 ∉ l.map Prod.fst) : Collected s (l ++ [e]) (s.visit acc e) := by
  rw [Scheme.visit]
  cases hread : s.read e.1 with
  | none =>
      have hident : s.ident e.1 = none := by rw [ident, hread, Option.map_none]
      have hnew : e.1 ∉ acc.2.map Prod.fst := by
        rw [h.kept]
        exact fun hmem => he ((List.filter_sublist.map Prod.fst).subset hmem)
      have hput : put acc.2 e = acc.2 ++ [e] := upsert_of_notMem hnew
      refine ⟨h.nodup, fun k info => ?_, ?_, ?_⟩
      · rw [readings_concat, hread, Option.bind_none, Option.toList_none, List.append_nil]
        exact h.merged k info
      · rw [hput, h.kept, List.filter_append, List.filter_singleton, hident]
        rfl
      · rw [hput, List.map_append, List.map_append, List.sum_append, List.sum_append, ← add_assoc, h.total]
  | some p =>
      obtain ⟨i, r⟩ := p
      have hident : s.ident e.1 = some i := by rw [ident, hread, Option.map_some]
      refine ⟨nodup_upsert h.nodup, fun k info => ?_, ?_, ?_⟩
      · rw [readings_concat, hread, mem_upsert h.nodup]
        by_cases hk : s.join i = k
        · subst hk
          have hnone : s.join i ∉ acc.1.map Prod.fst ↔ s.gather (s.readings l (s.join i)) = none := by
            rw [Option.eq_none_iff_forall_ne_some]
            constructor
            · intro hnot v hv
              exact hnot (List.mem_map_of_mem ((h.merged _ v).mpr hv))
            · intro hall hmem
              obtain ⟨q, hq, hqk⟩ := List.mem_map.mp hmem
              exact hall q.2 ((h.merged _ _).mp (hqk ▸ hq))
          rw [Option.bind_some, if_pos rfl, Option.toList_some, gather_concat]
          simp only [h.merged, hnone, ne_eq, not_true_eq_false, false_and, false_or, true_and]
          cases hg : s.gather (s.readings l (s.join i)) with
          | none => simp [eq_comm]
          | some v => simp [eq_comm]
        · rw [Option.bind_some, if_neg hk, Option.toList_none, List.append_nil]
          simp only [Ne.symm hk, ne_eq, not_false_eq_true, true_and, false_and, or_false]
          exact h.merged k info
      · rw [h.kept, List.filter_append, List.filter_singleton, hident]
        exact (List.append_nil _).symm
      · rw [sum_upsert (f := DedupInfo.totalCount) rfl fun v => rfl, List.map_append, List.sum_append, ← h.total,
          List.map_singleton, List.sum_singleton]
        exact add_right_comm _ _ _

theorem collected (hnd : (l.map Prod.fst).Nodup) : Collected s l (s.collect l) := by
  induction l using List.reverseRecOn with
  | nil => exact ⟨List.nodup_nil, fun k info => (by simp [collect, readings, gather, best]), rfl, add_zero 0⟩
  | append_singleton l e ih =>
      rw [List.map_append, List.map_singleton] at hnd
      have hnew : e.1 ∉ l.map Prod.fst := fun hmem =>
        (List.disjoint_of_nodup_append hnd) hmem (List.mem_singleton_self _)
      rw [collect, List.foldl_append]
      exact (ih hnd.of_append_left).visit hnew

section Identities

variable [DecidableEq I] {i : I}

def entriesOf (s : Scheme H I K R) (l : List (H × M)) (i : I) : List (R × M) :=
  l.filterMap fun e => (s.read e.1).bind fun p => if p.1 = i then some (p.2, e.2) else none

omit [AddCommMonoid M] [DecidableEq H] [DecidableEq K] in
theorem map_fst_entriesOf (l : List (H × M)) (i : I) : (s.entriesOf l i).map Prod.fst = s.spellings l i := by
  rw [entriesOf, List.map_filterMap, spellings]
  congr 1
  funext e
  cases s.read e.1 with
  | none => rfl
  | some p => by_cases hp : p.1 = i <;> simp [hp]

omit [DecidableEq H] [DecidableEq K] in
theorem sum_entriesOf (l : List (H × M)) (i : I) : ((s.entriesOf l i).map Prod.snd).sum = s.share l i := by
  induction l with
  | nil => rfl
  | cons e l ih =>
      rw [share, entriesOf] at ih ⊢
      cases hread : s.read e.1 with
      | none => simpa [ident, hread] using ih
      | some p => by_cases hp : p.1 = i <;> simp_all [ident]

omit [AddCommMonoid M] [DecidableEq H] in
theorem readings_join (h : ∀ i' ∈ s.identities l, s.join i' = s.join i → i' = i) :
    s.readings l (s.join i) = s.entriesOf l i := by
  rw [readings, entriesOf]
  apply List.filterMap_congr
  intro e he
  cases hread : s.read e.1 with
  | none => rfl
  | some p =>
      have hmem : p.1 ∈ s.identities l := List.mem_filterMap.mpr ⟨e, he, by rw [ident, hread, Option.map_some]⟩
      have hiff : s.join p.1 = s.join i ↔ p.1 = i := ⟨h p.1 hmem, congrArg s.join⟩
      simp only [Option.bind_some, hiff]

omit [AddCommMonoid M] [DecidableEq H] [DecidableEq K] in
theorem mem_identities : i ∈ s.identities l ↔ ∃ r, r ∈ s.spellings l i := by
  rw [identities, spellings]
  simp only [List.mem_filterMap]
  constructor
  · rintro ⟨e, he, hi⟩
    obtain ⟨p, hp, rfl⟩ := Option.map_eq_some_iff.mp hi
    exact ⟨p.2, e, he, by rw [hp, Option.bind_some, if_pos rfl]⟩
  · rintro ⟨r, e, he, hr⟩
    obtain ⟨p, hp, hr⟩ := Option.bind_eq_some_iff.mp hr
    split at hr
    · next hi => exact ⟨e, he, by rw [ident, hp, Option.map_some, hi]⟩
    · cases hr

theorem exists_perm_filterMap {A B : Type} {f : A → Option B} {g : List B} {l : List A} (h : g.Perm (l.filterMap f)) :
    ∃ l' : List A, l'.Perm l ∧ l'.filterMap f = g := by
  induction g generalizing l with
  | nil => exact ⟨l, List.Perm.refl l, h.symm.eq_nil⟩
  | cons b g ih =>
      obtain ⟨a, ha, hab⟩ := List.mem_filterMap.mp (h.subset List.mem_cons_self)
      obtain ⟨pre, post, rfl⟩ := List.append_of_mem ha
      have hmiddle : (pre ++ a :: post).Perm (a :: (pre ++ post)) := List.perm_middle
      have hrest : g.Perm ((pre ++ post).filterMap f) := by
        have hall := h.trans (hmiddle.filterMap f)
        rw [List.filterMap_cons_some hab] at hall
        exact (List.perm_cons b).mp hall
      obtain ⟨l', hl', hg⟩ := ih hrest
      refine ⟨a :: l', (hl'.cons a).trans hmiddle.symm, ?_⟩
      rw [List.filterMap_cons_some hab, hg]

omit [DecidableEq I] in
theorem exists_identity (hnd : (l.map Prod.fst).Nodup) {p : K × DedupInfo R M} (hp : p ∈ (s.collect l).1) :
    ∃ i ∈ s.identities l, s.join i = p.1 := by
  have hgather : s.gather (s.readings l p.1) = some p.2 := ((collected hnd).merged p.1 p.2).mp hp
  have hsome : ∃ r, r ∈ s.readings l p.1 := by
    apply List.exists_mem_of_ne_nil
    intro hnil
    rw [hnil] at hgather
    cases hgather
  obtain ⟨r, hr⟩ := hsome
  obtain ⟨e, he, hr⟩ := List.mem_filterMap.mp hr
  obtain ⟨q, hq, hr⟩ := Option.bind_eq_some_iff.mp hr
  split at hr
  · next hk => exact ⟨q.1, List.mem_filterMap.mpr ⟨e, he, by rw [ident, hq, Option.map_some]⟩, hk⟩
  · cases hr

theorem mem_merged (hnd : (l.map Prod.fst).Nodup) (hjoin : s.TellsApart l) {p : K × DedupInfo R M} :
    p ∈ (s.collect l).1 ↔ ∃ i ∈ s.identities l, s.join i = p.1 ∧ s.best (s.spellings l i) = some p.2.longest ∧
      p.2.totalCount = s.share l i := by
  have hgather : ∀ i ∈ s.identities l, p.1 = s.join i → (p ∈ (s.collect l).1 ↔
      s.best (s.spellings l i) = some p.2.longest ∧ p.2.totalCount = s.share l i) := by
    intro i hi hp
    have hread : s.readings l (s.join i) = s.entriesOf l i := readings_join fun i' hi' h => hjoin i' hi' i hi h
    rw [(collected hnd).merged p.1 p.2, hp, hread, gather, map_fst_entriesOf, sum_entriesOf, Option.map_eq_some_iff]
    constructor
    · rintro ⟨r, hr, hinfo⟩
      rw [← hinfo]
      exact ⟨hr, rfl⟩
    · rintro ⟨hr, hshare⟩
      exact ⟨p.2.longest, hr, by rw [← hshare]⟩
  constructor
  · intro hp
    obtain ⟨i, hi, hk⟩ := exists_identity hnd hp
    exact ⟨i, hi, hk, (hgather i hi hk.symm).mp hp⟩
  · rintro ⟨i, hi, hk, hp⟩
    exact (hgather i hi hk.symm).mpr hp

variable {out out' : List (H × M)} {merged : List (K × DedupInfo R M)} {kept : List (H × M)}

theorem rebuild_eq (hnd : (l.map Prod.fst).Nodup) (hjoin : s.TellsApart l) (hback : s.ReadsBack l)
    (hm : merged.Perm (s.collect l).1) (hk : kept.Perm (s.collect l).2) :
    let all := merged.map (fun p => (s.spell p.2.longest, p.2.totalCount)) ++ kept
    s.rebuild merged kept = all ∧ (all.map Prod.fst).Nodup := by
  have hmine : ∀ p ∈ merged, ∃ i ∈ s.identities l, s.join i = p.1 ∧ s.ident (s.spell p.2.longest) = some i := by
    intro p hp
    obtain ⟨i, hi, hk, hbest, -⟩ := (mem_merged hnd hjoin).mp (hm.mem_iff.mp hp)
    exact ⟨i, hi, hk, hback i _ _ (fun r hr => hr) hbest⟩
  have hkeys : (merged.map Prod.fst).Nodup := ((hm.map Prod.fst).nodup_iff).mpr (collected hnd).nodup
  have hmerged : ((merged.map fun p => (s.spell p.2.longest, p.2.totalCount)).map Prod.fst).Nodup := by
    rw [List.map_map]
    apply List.Nodup.map_on _ hkeys.of_map
    intro p hp q hq heq
    obtain ⟨i, -, hki, hi⟩ := hmine p hp
    obtain ⟨j, -, hkj, hj⟩ := hmine q hq
    have hij : some i = some j := by rw [← hi, ← hj]; exact congrArg s.ident heq
    apply List.inj_on_of_nodup_map hkeys hp hq
    rw [← hki, ← hkj, Option.some.inj hij]
  have hkept : (kept.map Prod.fst).Nodup := by
    rw [(hk.map Prod.fst).nodup_iff, (collected hnd).kept]
    exact hnd.sublist (List.filter_sublist.map Prod.fst)
  have hall : ((merged.map (fun p => (s.spell p.2.longest, p.2.totalCount)) ++ kept).map Prod.fst).Nodup := by
    rw [List.map_append]
    apply List.Nodup.append hmerged hkept
    intro h hin hin'
    obtain ⟨q, hq, rfl⟩ := List.mem_map.mp hin
    obtain ⟨p, hp, rfl⟩ := List.mem_map.mp hq
    obtain ⟨i, -, -, hi⟩ := hmine p hp
    obtain ⟨e, he, heq⟩ := List.mem_map.mp hin'
    rw [hk.mem_iff, (collected hnd).kept, List.mem_filter, heq, hi] at he
    cases he.2
  refine ⟨?_, hall⟩
  rw [rebuild, foldl_put (m := []), List.nil_append, foldl_put hall]
  exact hmerged

omit [DecidableEq H] [DecidableEq K] in
theorem share_perm (h : l.Perm freq) (i : I) : s.share l i = s.share freq i :=
  ((h.filter _).map Prod.snd).sum_eq

omit [AddCommMonoid M] [DecidableEq H] [DecidableEq K] [DecidableEq I] in
theorem TellsApart.perm (h : s.TellsApart freq) (hl : l.Perm freq) : s.TellsApart l := by
  intro i hi i' hi' heq
  exact h i ((hl.filterMap _).mem_iff.mp hi) i' ((hl.filterMap _).mem_iff.mp hi') heq

omit [AddCommMonoid M] [DecidableEq H] [DecidableEq K] in
theorem ReadsBack.perm (h : s.ReadsBack freq) (hl : l.Perm freq) : s.ReadsBack l := by
  intro i g r hg hbest
  exact h i g r (fun r hr => (hl.filterMap _).mem_iff.mp (hg r hr)) hbest

theorem mem_rebuild (hnd : (freq.map Prod.fst).Nodup) (hjoin : s.TellsApart freq) (hback : s.ReadsBack freq)
    (hl : l.Perm freq) (hm : merged.Perm (s.collect l).1) (hk : kept.Perm (s.collect l).2) {e : H × M} :
    e ∈ s.rebuild merged kept ↔ s.ident e.1 = none ∧ e ∈ freq ∨
      ∃ i ∈ s.identities freq, (s.best (s.spellings l i)).map s.spell = some e.1 ∧ e.2 = s.share freq i := by
  have hnd' : (l.map Prod.fst).Nodup := (hl.map Prod.fst).nodup_iff.mpr hnd
  have hids : ∀ i, i ∈ s.identities l ↔ i ∈ s.identities freq := fun i => (hl.filterMap _).mem_iff
  rw [(rebuild_eq hnd' (hjoin.perm hl) (hback.perm hl) hm hk).1, List.mem_append, List.mem_map, or_comm, hk.mem_iff,
    (collected hnd').kept, List.mem_filter, Option.isNone_iff_eq_none, hl.mem_iff, and_comm]
  apply or_congr_right
  simp only [hm.mem_iff, mem_merged hnd' (hjoin.perm hl), hids, share_perm hl]
  constructor
  · rintro ⟨p, ⟨i, hi, -, hbest, hshare⟩, rfl⟩
    exact ⟨i, hi, by rw [hbest, Option.map_some], hshare⟩
  · rintro ⟨i, hi, hbest, hshare⟩
    obtain ⟨r, hr, hspell⟩ := Option.map_eq_some_iff.mp hbest
    exact ⟨(s.join i, ⟨s.share freq i, r⟩), ⟨i, hi, rfl, hr, rfl⟩, by rw [hspell, ← hshare]⟩

theorem Conserves.join (hnd : (freq.map Prod.fst).Nodup) (h : s.Conserves freq) :
    s.TellsApart freq := by
  have hkept : ∀ p ∈ (s.collect freq).2, s.ident p.1 = none := by
    intro p hp
    rw [(collected hnd).kept, List.mem_filter] at hp
    exact Option.isNone_iff_eq_none.mp hp.2
  have hcover : (s.identities freq).toFinset.image some ⊆
      ((s.collect freq).1.map fun p => s.ident (s.spell p.2.longest)).toFinset := by
    intro x hx
    obtain ⟨i, hi, rfl⟩ := Finset.mem_image.mp hx
    obtain ⟨k, hk, hone⟩ := h.one _ ⟨freq, _, _, .refl _, .refl _, .refl _, rfl⟩ i (List.mem_toFinset.mp hi)
    rcases mem_of_mem_foldl_put ((hone (k, s.share freq i)).mpr rfl).1 with hin | hin
    · rcases mem_of_mem_foldl_put hin with hin | hin
      · cases hin
      · obtain ⟨p, hp, heq⟩ := List.mem_map.mp hin
        have hkey : s.spell p.2.longest = k := congrArg Prod.fst heq
        rw [← hk, ← hkey]
        exact List.mem_toFinset.mpr (List.mem_map_of_mem hp)
    · exact absurd (hk.symm.trans (hkept _ hin)) nofun
  have hkeys : ((s.collect freq).1.map Prod.fst).toFinset ⊆ (s.identities freq).toFinset.image s.join := by
    intro k hk
    obtain ⟨p, hp, rfl⟩ := List.mem_map.mp (List.mem_toFinset.mp hk)
    obtain ⟨i, hi, hik⟩ := exists_identity hnd hp
    exact Finset.mem_image.mpr ⟨i, List.mem_toFinset.mpr hi, hik⟩
  have hcard : (s.identities freq).toFinset.card ≤ ((s.identities freq).toFinset.image s.join).card := by
    calc (s.identities freq).toFinset.card
        = ((s.identities freq).toFinset.image some).card :=
          (Finset.card_image_of_injective _ (Option.some_injective I)).symm
      _ ≤ ((s.collect freq).1.map fun p => s.ident (s.spell p.2.longest)).toFinset.card := Finset.card_le_card hcover
      _ ≤ ((s.collect freq).1.map fun p => s.ident (s.spell p.2.longest)).length := List.toFinset_card_le _
      _ = ((s.collect freq).1.map Prod.fst).length := by rw [List.length_map, List.length_map]
      _ = ((s.collect freq).1.map Prod.fst).toFinset.card := (List.toFinset_card_of_nodup (collected hnd).nodup).symm
      _ ≤ ((s.identities freq).toFinset.image s.join).card := Finset.card_le_card hkeys
  have hinj : Set.InjOn s.join (s.identities freq).toFinset :=
    Finset.card_image_iff.mp (le_antisymm Finset.card_image_le hcard)
  intro i hi i' hi' heq
  exact hinj (List.mem_toFinset.mpr hi) (List.mem_toFinset.mpr hi') heq

theorem Conserves.spell (hnd : (freq.map Prod.fst).Nodup) (hback : s.ReadsBack freq) (h : s.Conserves freq)
    {i : I} (hi : i ∈ s.identities freq) {g g' : List R} (hg : g.Perm (s.spellings freq i))
    (hg' : g'.Perm (s.spellings freq i)) : (s.best g).map s.spell = (s.best g').map s.spell := by
  have hreach : ∀ g : List R, g.Perm (s.spellings freq i) → ∃ out, s.Result freq out ∧
      ∃ k, (s.best g).map s.spell = some k ∧ s.ident k = some i ∧ (k, s.share freq i) ∈ out := by
    intro g hg
    obtain ⟨l, hl, hlg⟩ := exists_perm_filterMap hg
    obtain ⟨r, hr⟩ := mem_identities.mp hi
    have hbest : ∃ r, s.best g = some r := by
      cases g with
      | nil => exact absurd (hg.mem_iff.mpr hr) List.not_mem_nil
      | cons r g => exact ⟨_, rfl⟩
    obtain ⟨r, hr⟩ := hbest
    refine ⟨_, ⟨l, _, _, hl, .refl _, .refl _, rfl⟩, s.spell r, by rw [hr, Option.map_some],
      hback i g r (fun r hr => hg.mem_iff.mp hr) hr, ?_⟩
    apply (mem_rebuild hnd (h.join hnd) hback hl (.refl _) (.refl _)).mpr
    right
    refine ⟨i, hi, ?_, rfl⟩
    rw [spellings, hlg, hr, Option.map_some]
  obtain ⟨out, hout, k, hk, hident, hin⟩ := hreach g hg
  obtain ⟨out', hout', k', hk', hident', hin'⟩ := hreach g' hg'
  have hmem : (k', s.share freq i) ∈ out := (h.same out out' hout hout').mem_iff.mpr hin'
  obtain ⟨j, -, hone⟩ := h.one out hout i hi
  have heq : k = j := congrArg Prod.fst ((hone _).mp ⟨hin, hident⟩)
  have heq' : k' = j := congrArg Prod.fst ((hone _).mp ⟨hmem, hident'⟩)
  rw [hk, hk', heq, heq']

theorem Result.sum_eq (hnd : (freq.map Prod.fst).Nodup) (hjoin : s.TellsApart freq) (hback : s.ReadsBack freq)
    (h : s.Result freq out) : out.Nodup ∧ (out.map Prod.snd).sum = (freq.map Prod.snd).sum := by
  obtain ⟨l, merged, kept, hl, hm, hk, rfl⟩ := h
  have hnd' : (l.map Prod.fst).Nodup := (hl.map Prod.fst).nodup_iff.mpr hnd
  obtain ⟨heq, hkeys⟩ := rebuild_eq hnd' (hjoin.perm hl) (hback.perm hl) hm hk
  rw [heq]
  refine ⟨hkeys.of_map, ?_⟩
  rw [List.map_append, List.map_map, List.sum_append, (hk.map Prod.snd).sum_eq, ← (hl.map Prod.snd).sum_eq,
    ← (collected (s := s) hnd').total]
  exact congrArg (· + _) (hm.map _).sum_eq

theorem Clear.conserves (hnd : (freq.map Prod.fst).Nodup) (hback : s.ReadsBack freq) (h : s.Clear freq) :
    s.Conserves freq := by
  have hmem : ∀ out, s.Result freq out → ∀ e, e ∈ out ↔ s.ident e.1 = none ∧ e ∈ freq ∨
      ∃ i ∈ s.identities freq, (s.best (s.spellings freq i)).map s.spell = some e.1 ∧ e.2 = s.share freq i := by
    rintro _ ⟨l, merged, kept, hl, hm, hk, rfl⟩ e
    rw [mem_rebuild hnd h.join hback hl hm hk]
    apply or_congr_right
    constructor
    · rintro ⟨i, hi, hbest, hshare⟩
      exact ⟨i, hi, (h.spell i hi _ _ (.refl _) (hl.filterMap _)).trans hbest, hshare⟩
    · rintro ⟨i, hi, hbest, hshare⟩
      exact ⟨i, hi, (h.spell i hi _ _ (hl.filterMap _) (.refl _)).trans hbest, hshare⟩
  have hident : ∀ i e, (s.best (s.spellings freq i)).map s.spell = some e → s.ident e = some i := by
    intro i e he
    obtain ⟨r, hr, rfl⟩ := Option.map_eq_some_iff.mp he
    exact hback i _ r (fun r hr => hr) hr
  refine ⟨fun out hout => (hout.sum_eq hnd h.join hback).2, fun out hout i hi => ?_, fun out hout e he => ?_,
    fun out out' hout hout' => ?_⟩
  · obtain ⟨r, hr⟩ : ∃ r, r ∈ s.spellings freq i := mem_identities.mp hi
    obtain ⟨k, hk⟩ : ∃ k, (s.best (s.spellings freq i)).map s.spell = some k := by
      cases hg : s.spellings freq i with
      | nil => exact absurd (hg ▸ hr) List.not_mem_nil
      | cons r g => exact ⟨_, rfl⟩
    refine ⟨k, hident i k hk, fun e => ?_⟩
    rw [hmem out hout e]
    constructor
    · rintro ⟨⟨hnone, -⟩ | ⟨j, -, hbest, hshare⟩, he⟩
      · exact absurd (hnone.symm.trans he) nofun
      · have hji : j = i := Option.some.inj ((hident j e.1 hbest).symm.trans he)
        rw [hji] at hbest hshare
        exact Prod.ext (Option.some.inj (hbest.symm.trans hk)) hshare
    · rintro rfl
      exact ⟨.inr ⟨i, hi, hk, rfl⟩, hident i k hk⟩
  · rw [hmem out hout e]
    constructor
    · rintro (⟨-, hin⟩ | ⟨i, -, hbest, -⟩)
      · exact hin
      · exact absurd (he.symm.trans (hident i e.1 hbest)) nofun
    · exact fun hin => .inl ⟨he, hin⟩
  · apply (List.perm_ext_iff_of_nodup (hout.sum_eq hnd h.join hback).1 (hout'.sum_eq hnd h.join hback).1).mpr
    intro e
    rw [hmem out hout e, hmem out' hout' e]

theorem conserves_iff (hnd : (freq.map Prod.fst).Nodup) (hback : s.ReadsBack freq) :
    s.Conserves freq ↔ s.Clear freq :=
  ⟨fun h => ⟨h.join hnd, fun _ hi _ _ hg hg' => h.spell hnd hback hi hg hg'⟩, fun h => h.conserves hnd hback⟩

end Identities

end Scheme

end MeshcoreAnalyzer.Merges

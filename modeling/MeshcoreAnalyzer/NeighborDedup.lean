import MeshcoreAnalyzer.NeighborGraph
import Mathlib.Data.Finset.Sort
import Mathlib.Data.List.Range
import Mathlib.Data.String.Basic

namespace MeshcoreAnalyzer.NeighborDedup

open Maps PacketStore

/-! `dedupPrefixEntries` of cmd/server/neighbor_api.go. -/

/-- `hop` is the field `Prefix`, and `rest` the fields that are only copied. -/
@[ext]
structure NeighborEntry (R : Type) where
  pubkey : Option String
  hop : String
  count : Int
  countsByMode : Option (GoMap Int Int)
  firstSeen : String
  lastSeen : String
  observers : List String
  rest : R

variable {R : Type}

def mergeModes (m : Option (GoMap Int Int)) : Option (GoMap Int Int) → Option (GoMap Int Int)
  | none => m
  | some u => some fun mode =>
      match u mode with
      | some c => some (Maps.count (m.getD Maps.empty) mode + c)
      | none => m.getD Maps.empty mode

def sortedKeys {K : Type} [LinearOrder K] (m : Finset K) : List K := m.sort (· ≤ ·)

def observerList (m : Finset String) : List String := sortedKeys m

def absorb (e u : NeighborEntry R) : NeighborEntry R :=
  { e with
    count := e.count + u.count
    countsByMode := mergeModes e.countsByMode u.countsByMode
    lastSeen := if e.lastSeen < u.lastSeen then u.lastSeen else e.lastSeen
    observers := observerList (e.observers.toFinset ∪ u.observers.toFinset) }

def matchesPrefix (hop : String) (e : NeighborEntry R) : Bool :=
  match e.pubkey with
  | some pk => hop.toList.isPrefixOf (toLower pk).toList
  | none => false

def matchIdxs (entries : List (NeighborEntry R)) (i : Nat) (hop : String) : List Nat :=
  (List.range entries.length).filter fun j => j ≠ i ∧ (entries[j]?).any (matchesPrefix hop)

def mergeEntry (st : List (NeighborEntry R) × List Nat) (i : Nat) : List (NeighborEntry R) × List Nat :=
  match st.1[i]? with
  | none => st
  | some u =>
      if u.pubkey.isSome ∨ toLower u.hop = "" then st
      else
        match matchIdxs st.1 i (toLower u.hop) with
        | [j] => (st.1.modify j (absorb · u), st.2 ++ [i])
        | _ => st

def dedupPrefixEntries (entries : List (NeighborEntry R)) : List (NeighborEntry R) :=
  if entries.length < 2 then entries
  else
    let st := (List.range entries.length).foldl mergeEntry (entries, [])
    if st.2 = [] then entries else (st.1.zipIdx.filter fun e => e.2 ∉ st.2).map Prod.fst

def unresolved (e : NeighborEntry R) : Bool := e.pubkey.isNone

def absorbable (entries : List (NeighborEntry R)) (u : NeighborEntry R) : Bool :=
  unresolved u && decide (toLower u.hop ≠ "") && decide (entries.countP (matchesPrefix (toLower u.hop)) = 1)

def absorbed (entries : List (NeighborEntry R)) (e : NeighborEntry R) (l : List (NeighborEntry R)) :
    List (NeighborEntry R) :=
  l.filter fun u => absorbable entries u && matchesPrefix (toLower u.hop) e

def settle (entries : List (NeighborEntry R)) (e : NeighborEntry R) : Option (NeighborEntry R) :=
  if absorbable entries e then none else some ((absorbed entries e entries).foldl absorb e)

section

variable {entries : List (NeighborEntry R)} {e u : NeighborEntry R}

/-- What is not merged stays, and so does the time of the first sighting. -/
structure Keeps (e e' : NeighborEntry R) : Prop where
  pubkey : e'.pubkey = e.pubkey
  hop : e'.hop = e.hop
  firstSeen : e'.firstSeen = e.firstSeen
  rest : e'.rest = e.rest

theorem keeps_foldl_absorb (l : List (NeighborEntry R)) (e : NeighborEntry R) : Keeps e (l.foldl absorb e) := by
  induction l generalizing e with
  | nil => exact ⟨rfl, rfl, rfl, rfl⟩
  | cons u l ih =>
      obtain ⟨hpubkey, hhop, hfirst, hrest⟩ := ih (absorb e u)
      exact ⟨hpubkey, hhop, hfirst, hrest⟩

theorem absorbed_of_unresolved (h : unresolved e = true) (l : List (NeighborEntry R)) : absorbed entries e l = [] := by
  apply List.filter_eq_nil_iff.mpr
  intro u _
  simp [matchesPrefix, Option.isNone_iff_eq_none.mp h]

theorem length_filter_range {A : Type} (p : A → Bool) (l : List A) :
    ((List.range l.length).filter fun i => (l[i]?).any p).length = l.countP p := by
  induction l using List.reverseRecOn with
  | nil => rfl
  | append_singleton l a ih =>
      have hold : ∀ i ∈ List.range l.length, ((l ++ [a])[i]?).any p = (l[i]?).any p := by
        intro i hi
        rw [List.getElem?_append_left (List.mem_range.mp hi)]
      rw [List.length_append, List.length_singleton, List.range_succ, List.filter_append, List.length_append,
        List.filter_congr hold, ih, List.countP_append]
      by_cases ha : p a <;> simp [ha]

theorem length_matchIdxs {i : Nat} (hi : entries[i]? = some u) (hu : unresolved u = true) (hop : String) :
    (matchIdxs entries i hop).length = entries.countP (matchesPrefix hop) := by
  rw [← length_filter_range, matchIdxs]
  congr 1
  apply List.filter_congr
  intro j _
  by_cases hj : j = i
  · subst hj
    simp [hi, matchesPrefix, Option.isNone_iff_eq_none.mp hu]
  · simp [hj]

theorem mem_matchIdxs {i j : Nat} {hop : String} : j ∈ matchIdxs entries i hop ↔
    j ≠ i ∧ ∃ e, entries[j]? = some e ∧ matchesPrefix hop e = true := by
  rw [matchIdxs, List.mem_filter, List.mem_range, decide_eq_true_iff, Option.any_eq_true]
  constructor
  · exact fun h => h.2
  · rintro ⟨hne, e, he, hmatch⟩
    exact ⟨(List.getElem?_eq_some_iff.mp he).1, hne, e, he, hmatch⟩

theorem matchIdxs_map {f : NeighborEntry R → NeighborEntry R} (hf : ∀ e, (f e).pubkey = e.pubkey) (i : Nat)
    (hop : String) : matchIdxs (entries.map f) i hop = matchIdxs entries i hop := by
  have hmatch : ∀ e, matchesPrefix hop (f e) = matchesPrefix hop e := by
    intro e
    rw [matchesPrefix, matchesPrefix, hf]
  rw [matchIdxs, matchIdxs, List.length_map]
  apply List.filter_congr
  intro j _
  rw [List.getElem?_map, Option.any_map]
  simp only [hmatch]

theorem mergeEntry_range (entries : List (NeighborEntry R)) {k : Nat} (hk : k ≤ entries.length) :
    (List.range k).foldl mergeEntry (entries, []) =
      (entries.map (fun e => (absorbed entries e (entries.take k)).foldl absorb e),
        (List.range k).filter fun i => (entries[i]?).any (absorbable entries)) := by
  induction k with
  | zero => simp [absorbed]
  | succ k ih =>
      have hlt : k < entries.length := hk
      have hget : entries[k]? = some entries[k] := List.getElem?_eq_getElem hlt
      have hpubkey : ∀ e, ((absorbed entries e (entries.take k)).foldl absorb e).pubkey = e.pubkey := fun e =>
        (keeps_foldl_absorb _ e).pubkey
      have htake : ∀ e, absorbed entries e (entries.take (k + 1)) = absorbed entries e (entries.take k) ++
          if absorbable entries entries[k] && matchesPrefix (toLower entries[k].hop) e then [entries[k]] else [] := by
        intro e
        rw [List.take_succ_eq_append_getElem hlt, absorbed, List.filter_append, List.filter_singleton,
          Bool.cond_eq_ite]
        rfl
      rw [List.range_succ, List.foldl_append, ih (Nat.le_of_succ_le hk), List.filter_append, List.filter_singleton, hget,
        Option.any_some, List.foldl_cons, List.foldl_nil, mergeEntry, List.getElem?_map, hget, Option.map_some]
      simp only [hpubkey, matchIdxs_map hpubkey, htake]
      generalize entries[k] = u at *
      cases hu : unresolved u with
      | false =>
          have hsome : u.pubkey.isSome = true := by
            cases hpk : u.pubkey with
            | none => simp [unresolved, hpk] at hu
            | some pk => rfl
          have hnot : absorbable entries u = false := by rw [absorbable, hu, Bool.false_and, Bool.false_and]
          simp [hsome, hnot]
      | true =>
          have hnone : u.pubkey = none := Option.isNone_iff_eq_none.mp hu
          rw [absorbed_of_unresolved hu, List.foldl_nil]
          simp only [hnone, Option.isSome_none, Bool.false_eq_true, false_or]
          by_cases hempty : toLower u.hop = ""
          · have hnot : absorbable entries u = false := by simp [absorbable, hempty]
            simp [hempty, hnot]
          · rw [if_neg hempty]
            have hlength := length_matchIdxs hget hu (toLower u.hop)
            split
            · next j hj =>
                have habs : absorbable entries u = true := by
                  rw [hj] at hlength
                  simp [absorbable, hu, hempty, ← hlength]
                have hmem : ∀ i, i = j ↔ i ≠ k ∧ ∃ e, entries[i]? = some e ∧ matchesPrefix (toLower u.hop) e = true := by
                  intro i
                  rw [← mem_matchIdxs, hj, List.mem_singleton]
                rw [habs, Bool.cond_true]
                congr 1
                apply List.ext_getElem?
                intro i
                rw [List.getElem?_modify, List.getElem?_map, List.getElem?_map]
                cases he : entries[i]? with
                | none => simp
                | some e =>
                    have hiff : j = i ↔ matchesPrefix (toLower u.hop) e = true := by
                      constructor
                      · intro hij
                        obtain ⟨-, e', he', hmatch⟩ := (hmem i).mp hij.symm
                        rwa [Option.some.inj (he.symm.trans he')]
                      · intro hmatch
                        refine ((hmem i).mpr ⟨?_, e, he, hmatch⟩).symm
                        rintro rfl
                        rw [Option.some.inj (he.symm.trans hget), matchesPrefix, hnone] at hmatch
                        cases hmatch
                    by_cases hmatch : matchesPrefix (toLower u.hop) e = true
                    · simp [hiff.mpr hmatch, hmatch]
                    · simp [mt hiff.mp hmatch, hmatch]
            · next hne =>
                have habs : absorbable entries u = false := by
                  have hone : entries.countP (matchesPrefix (toLower u.hop)) ≠ 1 := by
                    intro hone
                    obtain ⟨j, hj⟩ := List.length_eq_one_iff.mp (hlength.trans hone)
                    exact hne j hj
                  simp [absorbable, hone]
                simp [habs]

theorem filterMap_settle (h : ∀ u ∈ entries, absorbable entries u = false) :
    entries.filterMap (settle entries) = entries := by
  have hself : ∀ e ∈ entries, settle entries e = some e := by
    intro e he
    have hnil : absorbed entries e entries = [] := by
      apply List.filter_eq_nil_iff.mpr
      intro u hu
      simp [h u hu]
    rw [settle, h e he, hnil]
    rfl
  rw [List.filterMap_congr hself, List.filterMap_some]

theorem not_absorbable_of_short (h : entries.length < 2) (hu : u ∈ entries) : absorbable entries u = false := by
  by_contra habs
  have habs : absorbable entries u = true := (Bool.not_eq_false _).mp habs
  simp only [absorbable, Bool.and_eq_true, decide_eq_true_iff] at habs
  obtain ⟨⟨hun, -⟩, hone⟩ := habs
  obtain ⟨e, he, hmatch⟩ := List.countP_pos_iff.mp (hone ▸ Nat.zero_lt_one)
  obtain ⟨a, ha⟩ : ∃ a, entries = [a] := by
    apply List.length_eq_one_iff.mp
    have := List.length_pos_of_mem hu
    omega
  rw [ha, List.mem_singleton] at hu he
  rw [he, ← hu, matchesPrefix, Option.isNone_iff_eq_none.mp hun] at hmatch
  cases hmatch

theorem dedupPrefixEntries_eq (entries : List (NeighborEntry R)) :
    dedupPrefixEntries entries = entries.filterMap (settle entries) := by
  rw [dedupPrefixEntries]
  split
  · next hshort => exact (filterMap_settle fun u hu => not_absorbable_of_short hshort hu).symm
  · rw [mergeEntry_range entries le_rfl, List.take_length]
    simp only
    have hremove : ∀ e ∈ entries.zipIdx, (e.2 ∈ (List.range entries.length).filter fun i =>
        (entries[i]?).any (absorbable entries)) ↔ absorbable entries e.1 = true := by
      intro e he
      have hget : entries[e.2]? = some e.1 := List.mem_zipIdx_iff_getElem?.mp he
      rw [List.mem_filter, hget, Option.any_some, List.mem_range]
      exact and_iff_right (List.getElem?_eq_some_iff.mp hget).1
    split
    · next hnil =>
        refine (filterMap_settle fun u hu => ?_).symm
        obtain ⟨i, hi⟩ := List.getElem?_of_mem hu
        have hmem := hremove (u, i) (List.mem_zipIdx_iff_getElem?.mpr hi)
        rw [hnil] at hmem
        exact Bool.eq_false_iff.mpr fun habs => List.not_mem_nil (hmem.mpr habs)
    · have hkept : (entries.zipIdx.filter fun e => decide (e.2 ∉ (List.range entries.length).filter fun i =>
          (entries[i]?).any (absorbable entries))) =
          entries.zipIdx.filter ((fun e => !absorbable entries e) ∘ Prod.fst) := by
        apply List.filter_congr
        intro e he
        rw [Function.comp_apply, Bool.eq_iff_iff, decide_eq_true_iff, hremove e he]
        simp
      have hsettle : ∀ e, settle entries e =
          if (!absorbable entries e) = true then some ((absorbed entries e entries).foldl absorb e) else none := by
        intro e
        rw [settle]
        cases absorbable entries e <;> rfl
      rw [List.zipIdx_map, List.filter_map, List.map_map]
      calc
        _ = ((entries.zipIdx.filter fun e => decide (e.2 ∉ (List.range entries.length).filter fun i =>
              (entries[i]?).any (absorbable entries))).map Prod.fst).map
              fun e => (absorbed entries e entries).foldl absorb e := (List.map_map).symm
        _ = (entries.filter fun e => !absorbable entries e).map fun e => (absorbed entries e entries).foldl absorb e := by
          rw [hkept, ← List.filter_map, List.zipIdx_map_fst]
        _ = entries.filterMap (settle entries) := by
          rw [← List.filterMap_eq_map, List.filterMap_filter]
          exact List.filterMap_congr fun e _ => (hsettle e).symm

end

def modeCount (mode : Int) (e : NeighborEntry R) : Int := Maps.count (e.countsByMode.getD Maps.empty) mode

theorem count_mergeModes (m u : Option (GoMap Int Int)) (mode : Int) :
    Maps.count ((mergeModes m u).getD Maps.empty) mode =
      Maps.count (m.getD Maps.empty) mode + Maps.count (u.getD Maps.empty) mode := by
  cases u with
  | none => simp [mergeModes]
  | some u =>
      cases hu : u mode with
      | none => simp [mergeModes, Maps.count, hu]
      | some c => simp [mergeModes, Maps.count, hu]

theorem lastSeen_absorb (e u : NeighborEntry R) : (absorb e u).lastSeen = max e.lastSeen u.lastSeen := by
  rw [max_def_lt]
  rfl

theorem observers_absorb (e u : NeighborEntry R) :
    (absorb e u).observers = observerList (e.observers.toFinset ∪ u.observers.toFinset) := rfl

theorem toFinset_observers_absorb (e u : NeighborEntry R) :
    (absorb e u).observers.toFinset = e.observers.toFinset ∪ u.observers.toFinset := by
  rw [observers_absorb, observerList, sortedKeys]
  simp

theorem absorb_right_comm (e u v : NeighborEntry R) : absorb (absorb e u) v = absorb (absorb e v) u := by
  have hmodes : mergeModes (mergeModes e.countsByMode u.countsByMode) v.countsByMode =
      mergeModes (mergeModes e.countsByMode v.countsByMode) u.countsByMode := by
    cases hu : u.countsByMode with
    | none => rfl
    | some mu =>
        cases hv : v.countsByMode with
        | none => rfl
        | some mv =>
            simp only [mergeModes, Option.getD_some]
            congr 1
            funext mode
            cases hmu : mu mode <;> cases hmv : mv mode <;> simp [Maps.count, hmu, hmv, add_right_comm]
  have hseen : (absorb (absorb e u) v).lastSeen = (absorb (absorb e v) u).lastSeen := by
    rw [lastSeen_absorb, lastSeen_absorb, lastSeen_absorb, lastSeen_absorb, max_right_comm]
  have hobservers : (absorb (absorb e u) v).observers = (absorb (absorb e v) u).observers := by
    rw [observers_absorb, observers_absorb (absorb e v), toFinset_observers_absorb, toFinset_observers_absorb,
      Finset.union_right_comm]
  ext1
  · rfl
  · rfl
  · exact add_right_comm _ _ _
  · exact hmodes
  · rfl
  · exact hseen
  · exact hobservers
  · rfl

theorem foldl_absorb_add {c : NeighborEntry R → Int} (hc : ∀ e u, c (absorb e u) = c e + c u)
    (l : List (NeighborEntry R)) (e : NeighborEntry R) : c (l.foldl absorb e) = c e + (l.map c).sum := by
  induction l generalizing e with
  | nil => simp
  | cons u l ih => rw [List.foldl_cons, ih, hc, List.map_cons, List.sum_cons, add_assoc]

theorem isGreatest_lastSeen (l : List (NeighborEntry R)) (e : NeighborEntry R) :
    IsGreatest {t | ∃ x ∈ e :: l, x.lastSeen = t} (l.foldl absorb e).lastSeen := by
  induction l generalizing e with
  | nil =>
      constructor
      · exact ⟨e, List.mem_cons_self, rfl⟩
      · rintro t ⟨x, hx, rfl⟩
        rw [List.mem_singleton.mp hx]
        rfl
  | cons u l ih =>
      obtain ⟨⟨x, hx, hxe⟩, hub⟩ := ih (absorb e u)
      constructor
      · rcases List.mem_cons.mp hx with rfl | hx
        · rw [lastSeen_absorb] at hxe
          rcases max_choice e.lastSeen u.lastSeen with h | h
          · exact ⟨e, List.mem_cons_self, h.symm.trans hxe⟩
          · exact ⟨u, List.mem_cons_of_mem e List.mem_cons_self, h.symm.trans hxe⟩
        · exact ⟨x, List.mem_cons_of_mem e (List.mem_cons_of_mem u hx), hxe⟩
      · have hmax := hub ⟨absorb e u, List.mem_cons_self, rfl⟩
        rw [lastSeen_absorb] at hmax
        rintro t ⟨y, hy, rfl⟩
        rcases List.mem_cons.mp hy with rfl | hy
        · exact le_trans (le_max_left _ _) hmax
        · rcases List.mem_cons.mp hy with rfl | hy
          · exact le_trans (le_max_right _ _) hmax
          · exact hub ⟨y, List.mem_cons_of_mem _ hy, rfl⟩

theorem mem_observers (l : List (NeighborEntry R)) (e : NeighborEntry R) (o : String) :
    o ∈ (l.foldl absorb e).observers ↔ ∃ x ∈ e :: l, o ∈ x.observers := by
  induction l generalizing e with
  | nil => simp
  | cons u l ih =>
      have habsorb : o ∈ (absorb e u).observers ↔ o ∈ e.observers ∨ o ∈ u.observers := by
        rw [← List.mem_toFinset, toFinset_observers_absorb, Finset.mem_union, List.mem_toFinset, List.mem_toFinset]
      rw [List.foldl_cons, ih]
      simp only [List.mem_cons, exists_eq_or_imp, habsorb, or_assoc]

/-- What a resolved entry should come to with those that are merged into it. -/
structure Absorbs (entries : List (NeighborEntry R)) (e e' : NeighborEntry R) : Prop where
  pubkey : e'.pubkey = e.pubkey
  hop : e'.hop = e.hop
  rest : e'.rest = e.rest
  firstSeen : IsLeast {t | ∃ x ∈ e :: absorbed entries e entries, x.firstSeen = t} e'.firstSeen
  lastSeen : IsGreatest {t | ∃ x ∈ e :: absorbed entries e entries, x.lastSeen = t} e'.lastSeen
  observers : ∀ o, o ∈ e'.observers ↔ ∃ x ∈ e :: absorbed entries e entries, o ∈ x.observers

/-- The sums stay, the resolved entries survive with all that is merged into them, the others go just if they are
merged, and the order of the list does not matter. -/
structure Conserves (entries : List (NeighborEntry R)) : Prop where
  count : ((dedupPrefixEntries entries).map NeighborEntry.count).sum = (entries.map NeighborEntry.count).sum
  modes : ∀ mode, ((dedupPrefixEntries entries).map (modeCount mode)).sum = (entries.map (modeCount mode)).sum
  resolved : List.Forall₂ (Absorbs entries) (entries.filter fun e => !unresolved e)
    ((dedupPrefixEntries entries).filter fun e => !unresolved e)
  unresolved : (dedupPrefixEntries entries).filter unresolved =
    entries.filter fun u => unresolved u && !absorbable entries u
  order : ∀ entries' : List (NeighborEntry R), entries'.Perm entries →
    (dedupPrefixEntries entries').Perm (dedupPrefixEntries entries)

section

variable {entries : List (NeighborEntry R)}

theorem sum_absorbed (c : NeighborEntry R → Int) (l m : List (NeighborEntry R)) :
    (l.map fun e => ((absorbed entries e m).map c).sum).sum =
      ((m.filter (absorbable entries)).map fun u => (l.countP (matchesPrefix (toLower u.hop)) : Int) * c u).sum := by
  induction l with
  | nil => simp
  | cons e l ih =>
      have hone : ((absorbed entries e m).map c).sum = ((m.filter (absorbable entries)).map fun u =>
          (if matchesPrefix (toLower u.hop) e then 1 else 0 : Int) * c u).sum := by
        clear ih
        induction m with
        | nil => rfl
        | cons u m ihm =>
            rw [absorbed] at ihm ⊢
            cases hu : absorbable entries u <;> cases hmatch : matchesPrefix (toLower u.hop) e <;> simpa [hu, hmatch] using ihm
      rw [List.map_cons, List.sum_cons, ih, hone, ← List.sum_map_add]
      congr 1
      apply List.map_congr_left
      intro u _
      rw [List.countP_cons, ← add_mul]
      push_cast
      rw [add_comm]

theorem sum_dedupPrefixEntries {c : NeighborEntry R → Int} (hc : ∀ e u, c (absorb e u) = c e + c u) :
    ((dedupPrefixEntries entries).map c).sum = (entries.map c).sum := by
  have hsum : ∀ l : List (NeighborEntry R), ((l.filterMap (settle entries)).map c).sum =
      ((l.filter fun e => !absorbable entries e).map c).sum +
        (l.map fun e => ((absorbed entries e entries).map c).sum).sum := by
    intro l
    induction l with
    | nil => rfl
    | cons e l ih =>
        cases he : absorbable entries e with
        | true =>
            have hun : unresolved e = true := by
              rw [absorbable, Bool.and_eq_true, Bool.and_eq_true] at he
              exact he.1.1
            have hsettle : settle entries e = none := if_pos he
            simp [hsettle, he, ih, absorbed_of_unresolved hun]
        | false =>
            have hsettle : settle entries e = some ((absorbed entries e entries).foldl absorb e) :=
              if_neg (Bool.eq_false_iff.mp he)
            simp only [List.filterMap_cons, hsettle, List.map_cons, List.sum_cons, ih, foldl_absorb_add hc,
              List.filter_cons, he, Bool.not_false, if_true]
            exact add_add_add_comm _ _ _ _
  have hone : ∀ u ∈ entries.filter (absorbable entries),
      (entries.countP (matchesPrefix (toLower u.hop)) : Int) * c u = c u := by
    intro u hu
    have habs := (List.mem_filter.mp hu).2
    rw [absorbable, Bool.and_eq_true, decide_eq_true_iff] at habs
    rw [habs.2, Nat.cast_one, one_mul]
  rw [dedupPrefixEntries_eq, hsum, sum_absorbed, List.map_congr_left hone, add_comm]
  have hparts := (List.filter_append_perm (absorbable entries) entries).map c
  rw [← hparts.sum_eq, List.map_append, List.sum_append]

theorem filter_resolved : (dedupPrefixEntries entries).filter (fun e => !unresolved e) =
    (entries.filter fun e => !unresolved e).map fun e => (absorbed entries e entries).foldl absorb e := by
  rw [dedupPrefixEntries_eq, List.filter_filterMap, ← List.filterMap_eq_map, List.filterMap_filter]
  apply List.filterMap_congr
  intro e _
  have hkept : unresolved ((absorbed entries e entries).foldl absorb e) = unresolved e := by
    rw [unresolved, unresolved, (keeps_foldl_absorb _ e).pubkey]
  rw [settle]
  cases he : unresolved e with
  | true => split <;> simp [hkept, he]
  | false =>
      have hnot : absorbable entries e = false := by simp [absorbable, he]
      simp [hnot, hkept, he]

theorem filter_unresolved : (dedupPrefixEntries entries).filter unresolved =
    entries.filter fun u => unresolved u && !absorbable entries u := by
  rw [dedupPrefixEntries_eq, List.filter_filterMap, ← List.filterMap_some (l := entries.filter _), List.filterMap_filter]
  apply List.filterMap_congr
  intro e _
  have hkept : unresolved ((absorbed entries e entries).foldl absorb e) = unresolved e := by
    rw [unresolved, unresolved, (keeps_foldl_absorb _ e).pubkey]
  rw [settle]
  cases he : unresolved e with
  | true => cases hu : absorbable entries e <;> simp [he, absorbed_of_unresolved he]
  | false =>
      have hnot : absorbable entries e = false := by simp [absorbable, he]
      simp [hnot, hkept, he]

theorem dedupPrefixEntries_perm {entries' : List (NeighborEntry R)} (h : entries'.Perm entries) :
    (dedupPrefixEntries entries').Perm (dedupPrefixEntries entries) := by
  have hcomm : RightCommutative (absorb (R := R)) := ⟨absorb_right_comm⟩
  have habsorbable : absorbable entries' = absorbable entries := by
    funext u
    rw [absorbable, absorbable, h.countP_eq]
  have hsettle : settle entries' = settle entries := by
    funext e
    rw [settle, settle, habsorbable, absorbed, absorbed, habsorbable, (h.filter _).foldl_eq]
  rw [dedupPrefixEntries_eq, dedupPrefixEntries_eq, hsettle]
  exact h.filterMap _

theorem absorbs_iff (e : NeighborEntry R) : Absorbs entries e ((absorbed entries e entries).foldl absorb e) ↔
    ∀ u ∈ absorbed entries e entries, e.firstSeen ≤ u.firstSeen := by
  have hkeeps := keeps_foldl_absorb (absorbed entries e entries) e
  constructor
  · intro h u hu
    have hle := h.firstSeen.2 ⟨u, List.mem_cons_of_mem e hu, rfl⟩
    rwa [hkeeps.firstSeen] at hle
  · intro h
    refine ⟨hkeeps.pubkey, hkeeps.hop, hkeeps.rest, ?_, isGreatest_lastSeen _ e, mem_observers _ e⟩
    rw [hkeeps.firstSeen]
    constructor
    · exact ⟨e, List.mem_cons_self, rfl⟩
    · rintro t ⟨x, hx, rfl⟩
      rcases List.mem_cons.mp hx with rfl | hx
      · rfl
      · exact h x hx

theorem resolved_iff : List.Forall₂ (Absorbs entries) (entries.filter fun e => !unresolved e)
    ((dedupPrefixEntries entries).filter fun e => !unresolved e) ↔
    ∀ e ∈ entries, unresolved e = false → ∀ u ∈ absorbed entries e entries, e.firstSeen ≤ u.firstSeen := by
  rw [filter_resolved, List.forall₂_map_right_iff, List.forall₂_same]
  simp only [absorbs_iff, List.mem_filter, Bool.not_eq_true', and_imp]

/-- The evidence is conserved just if nobody is merged into an entry that was first seen later. -/
theorem evidence_conserved_iff (entries : List (NeighborEntry R)) : Conserves entries ↔
    ∀ e ∈ entries, unresolved e = false → ∀ u ∈ absorbed entries e entries, e.firstSeen ≤ u.firstSeen := by
  constructor
  · intro h
    exact resolved_iff.mp h.resolved
  · intro h
    refine ⟨sum_dedupPrefixEntries fun _ _ => rfl, fun mode => sum_dedupPrefixEntries ?_, resolved_iff.mpr h,
      filter_unresolved, fun _ => dedupPrefixEntries_perm⟩
    exact fun e u => count_mergeModes _ _ mode

end

def resolvedLater : List (NeighborEntry Unit) :=
  [⟨some "aabb", "aa", 1, none, "2026-01-02T00:00:00Z", "2026-01-02T00:00:00Z", ["o1"], ()⟩,
    ⟨none, "AA", 1, none, "2026-01-01T00:00:00Z", "2026-01-01T00:00:00Z", ["o2"], ()⟩]

theorem earlier_sighting_lost : ¬Conserves resolvedLater := by
  intro h
  have hle := resolved_iff.mp h.resolved _ List.mem_cons_self rfl
    ⟨none, "AA", 1, none, "2026-01-01T00:00:00Z", "2026-01-01T00:00:00Z", ["o2"], ()⟩
    (List.mem_filter.mpr ⟨List.mem_cons_of_mem _ List.mem_cons_self, by decide +kernel⟩)
  exact absurd hle (by decide)

end MeshcoreAnalyzer.NeighborDedup

import MeshcoreAnalyzer.HopTiers
import MeshcoreAnalyzer.Merges

namespace MeshcoreAnalyzer.TopologyDedup

open HopTiers Maps Merges PacketStore Picks

/-! The two dedup passes of `computeAnalyticsTopology` in cmd/server/store.go: the counts of hops and of pairs of hops
are merged where the hops stand for one node. Hops and public keys are hexadecimal digits. -/

def pmLookup (pm : NodeMap) (hop : String) : List Node :=
  let key := toLower hop
  bucket pm.m (if maxPrefixLen < key.length then String.ofList (key.toList.take maxPrefixLen) else key)

def uniquePK (pm : NodeMap) (hop : String) : Option String :=
  match pmLookup pm hop with
  | [n] => some (toLower n.publicKey)
  | _ => none

def isLonger (h longest : String) : Bool := decide (longest.utf8ByteSize < h.utf8ByteSize)

def longestHop (longest h : String) : String := if isLonger h longest then h else longest

/-- `hopFreq` is merged by public key. -/
def hopDedup (pm : NodeMap) : Scheme String String String String where
  read h := (uniquePK pm h).map fun pk => (pk, h)
  join pk := pk
  longer := longestHop
  spell h := h

/-- `strings.SplitN(p, "|", 2)` of a key that has the separator -/
def parts (p : String) : String × String :=
  (String.ofList (p.toList.takeWhile (· ≠ '|')), String.ofList ((p.toList.dropWhile (· ≠ '|')).drop 1))

def joined (a b : String) : String := a ++ "|" ++ b

def readPair (pm : NodeMap) (p : String) : Option ((String × String) × (String × String)) :=
  match uniquePK pm (parts p).1, uniquePK pm (parts p).2 with
  | some pkA, some pkB => some (if pkB < pkA then ((pkB, pkA), (parts p).swap) else ((pkA, pkB), parts p))
  | _, _ => none

/-- `pairFreq` is merged by the pair of public keys. -/
def pairDedup (pm : NodeMap) : Scheme String (String × String) String (String × String) where
  read := readPair pm
  join pks := joined pks.1 pks.2
  longer longest parts := (longestHop longest.1 parts.1, longestHop longest.2 parts.2)
  spell longest := if longest.2 < longest.1 then joined longest.2 longest.1 else joined longest.1 longest.2

structure HopFreq where
  entries : List (String × Int)
  nodup : (entries.map Prod.fst).Nodup

structure PairFreq where
  entries : List (String × Int)
  nodup : (entries.map Prod.fst).Nodup
  pairs : ∀ e ∈ entries, ∃ a b, e.1 = joined a b ∧ '|' ∉ a.toList ∧ '|' ∉ b.toList

/-- The passes conserve the counts, and do not show in which order they range over their maps. -/
def Conserve (pm : NodeMap) (hopFreq : HopFreq) (pairFreq : PairFreq) : Prop :=
  (hopDedup pm).Conserves hopFreq.entries ∧ (pairDedup pm).Conserves pairFreq.entries

/-- A hop that is as long as any of those that stand for its node. -/
structure Longest (pm : NodeMap) (hopFreq : HopFreq) (pk h : String) : Prop where
  occurs : h ∈ hopFreq.entries.map Prod.fst
  stands : uniquePK pm h = some pk
  longest : ∀ h' ∈ hopFreq.entries.map Prod.fst, uniquePK pm h' = some pk → h'.utf8ByteSize ≤ h.utf8ByteSize

theorem ranking_isLonger {A : Type} (f : A → String) : Ranking fun a b => isLonger (f a) (f b) where
  asymm a b h := by simp_all [isLonger, le_of_lt]
  trans a b c h h' := by
    simp only [isLonger, decide_eq_false_iff_not, not_lt] at *
    exact le_trans h h'

theorem hopDedup_best (pm : NodeMap) (g : List String) : (hopDedup pm).best g = pick isLonger g := by
  cases g <;> rfl

theorem mem_spellings_hop {pm : NodeMap} {freq : List (String × Int)} {pk h : String} :
    h ∈ (hopDedup pm).spellings freq pk ↔ h ∈ freq.map Prod.fst ∧ uniquePK pm h = some pk := by
  rw [Scheme.spellings, List.mem_filterMap, List.mem_map]
  constructor
  · rintro ⟨e, he, hread⟩
    obtain ⟨q, hq, hspelled⟩ := Option.bind_eq_some_iff.mp hread
    obtain ⟨pk', hpk', rfl⟩ := Option.map_eq_some_iff.mp hq
    obtain ⟨hpk, hh⟩ := Option.ite_none_right_eq_some.mp hspelled
    cases Option.some.inj hh
    exact ⟨⟨e, he, rfl⟩, hpk'.trans (congrArg some hpk)⟩
  · rintro ⟨⟨e, he, rfl⟩, hpk⟩
    refine ⟨e, he, ?_⟩
    simp [hopDedup, hpk]

theorem readsBack_hop (pm : NodeMap) (freq : List (String × Int)) : (hopDedup pm).ReadsBack freq := by
  intro pk g r hg hbest
  rw [hopDedup_best] at hbest
  have hr := (mem_spellings_hop.mp (hg r (best_of_pick (ranking_isLonger id) hbest).mem)).2
  rw [Scheme.ident]
  simp [hopDedup, hr]

theorem best_hop_iff {pm : NodeMap} {hopFreq : HopFreq} {pk h : String} :
    Best isLonger ((hopDedup pm).spellings hopFreq.entries pk) h ↔ Longest pm hopFreq pk h := by
  constructor
  · intro hbest
    obtain ⟨hoccurs, hstands⟩ := mem_spellings_hop.mp hbest.mem
    refine ⟨hoccurs, hstands, fun h' ho hs => ?_⟩
    exact not_lt.mp (of_decide_eq_false (hbest.unbeaten h' (mem_spellings_hop.mpr ⟨ho, hs⟩)))
  · intro hlong
    refine ⟨mem_spellings_hop.mpr ⟨hlong.occurs, hlong.stands⟩, fun h' hh' => ?_⟩
    obtain ⟨ho, hs⟩ := mem_spellings_hop.mp hh'
    exact decide_eq_false (not_lt.mpr (hlong.longest h' ho hs))

theorem hop_conserves_iff (pm : NodeMap) (hopFreq : HopFreq) : (hopDedup pm).Conserves hopFreq.entries ↔
    ∀ pk h h', Longest pm hopFreq pk h → Longest pm hopFreq pk h' → h = h' := by
  rw [Scheme.conserves_iff hopFreq.nodup (readsBack_hop pm hopFreq.entries)]
  constructor
  · intro hclear pk h h' hh hh'
    have hfirst : ∀ h, Longest pm hopFreq pk h → ∃ g, g.Perm ((hopDedup pm).spellings hopFreq.entries pk) ∧
        (hopDedup pm).best g = some h := by
      intro h hh
      have hbest := best_hop_iff.mpr hh
      obtain ⟨r, hr⟩ := exists_perm_cons hbest.mem
      refine ⟨h :: r, hr, ?_⟩
      rw [hopDedup_best]
      exact pick_cons_of_best (hbest.congr fun c => hr.mem_iff)
    obtain ⟨g, hg, hgh⟩ := hfirst h hh
    obtain ⟨g', hg', hgh'⟩ := hfirst h' hh'
    have hmem : pk ∈ (hopDedup pm).identities hopFreq.entries :=
      Scheme.mem_identities.mpr ⟨h, mem_spellings_hop.mpr ⟨hh.occurs, hh.stands⟩⟩
    have heq := hclear.spell pk hmem g g' hg hg'
    rw [hgh, hgh'] at heq
    exact Option.some.inj heq
  · intro hone
    refine ⟨fun i _ i' _ heq => heq, fun pk _ g g' hg hg' => ?_⟩
    have hpick : ∀ g : List String, g.Perm ((hopDedup pm).spellings hopFreq.entries pk) →
        pick isLonger g = pick isLonger ((hopDedup pm).spellings hopFreq.entries pk) := by
      intro g hg
      apply pick_eq_of_unique (ranking_isLonger id) fun c => hg.mem_iff
      intro a b ha hb
      exact hone pk a b (best_hop_iff.mp ha) (best_hop_iff.mp hb)
    rw [hopDedup_best, hopDedup_best, hpick g hg, hpick g' hg']

theorem parts_joined {a : String} (h : '|' ∉ a.toList) (b : String) : parts (joined a b) = (a, b) := by
  have hlist : (joined a b).toList = a.toList ++ '|' :: b.toList := by simp [joined]
  have hall : ∀ c ∈ a.toList, decide (c ≠ '|') = true := by
    intro c hc
    apply decide_eq_true
    rintro rfl
    exact h hc
  rw [parts, hlist, List.takeWhile_append_of_pos hall, List.dropWhile_append_of_pos hall]
  simp

theorem sym2_of_joined {a b a' b' : String} (ha : '|' ∉ a.toList) (ha' : '|' ∉ a'.toList)
    (h : joined a b = joined a' b') : s(a, b) = s(a', b') := by
  have hparts : (a, b) = (a', b') := by rw [← parts_joined ha, ← parts_joined ha', h]
  cases hparts
  rfl

/-- There is no separator in the hops. -/
def Plain (r : String × String) : Prop := '|' ∉ r.1.toList ∧ '|' ∉ r.2.toList

theorem spell_eq_iff (pm : NodeMap) {r r' : String × String} (h : Plain r) (h' : Plain r') :
    (pairDedup pm).spell r = (pairDedup pm).spell r' ↔ s(r.1, r.2) = s(r'.1, r'.2) := by
  obtain ⟨a, b⟩ := r
  obtain ⟨a', b'⟩ := r'
  change ite (b < a) (joined b a) (joined a b) = ite (b' < a') (joined b' a') (joined a' b') ↔ _
  constructor
  · intro heq
    split at heq <;> split at heq
    · exact Sym2.eq_swap.trans ((sym2_of_joined h.2 h'.2 heq).trans Sym2.eq_swap)
    · exact Sym2.eq_swap.trans (sym2_of_joined h.2 h'.1 heq)
    · exact (sym2_of_joined h.1 h'.2 heq).trans Sym2.eq_swap
    · exact sym2_of_joined h.1 h'.1 heq
  · intro heq
    rcases Sym2.eq_iff.mp heq with ⟨rfl, rfl⟩ | ⟨rfl, rfl⟩
    · rfl
    · rcases lt_trichotomy a b with hab | rfl | hab
      · rw [if_pos hab, if_neg (lt_asymm hab)]
      · rfl
      · rw [if_pos hab, if_neg (lt_asymm hab)]

def longerA (s longest : String × String) : Bool := isLonger s.1 longest.1

def longerB (s longest : String × String) : Bool := isLonger s.2 longest.2

theorem pairDedup_best (pm : NodeMap) (g : List (String × String)) : (pairDedup pm).best g =
    (pick longerA g).bind fun t => (pick longerB g).map fun u => (t.1, u.2) := by
  have hfold : ∀ (g : List (String × String)) (t u : String × String), g.foldl (pairDedup pm).longer (t.1, u.2) =
      ((g.foldl (better longerA) t).1, (g.foldl (better longerB) u).2) := by
    intro g
    induction g with
    | nil => exact fun t u => rfl
    | cons s g ih =>
        intro t u
        have hs : (pairDedup pm).longer (t.1, u.2) s = ((better longerA t s).1, (better longerB u s).2) := by
          apply Prod.ext
          · exact (apply_ite Prod.fst _ s t).symm
          · exact (apply_ite Prod.snd _ s u).symm
        rw [List.foldl_cons, hs, ih]
        rfl
  cases g with
  | nil => rfl
  | cons s g => exact congrArg some (hfold g s s)

theorem ends_eq (pm : NodeMap) (g : List (String × String)) :
    ends longerA longerB Prod.fst Prod.snd g = ((pairDedup pm).best g).map fun r => s(r.1, r.2) := by
  rw [pairDedup_best, ends]
  cases pick longerA g <;> cases pick longerB g <;> rfl

structure Stands (pm : NodeMap) (pks s : String × String) : Prop where
  first : uniquePK pm s.1 = some pks.1
  second : uniquePK pm s.2 = some pks.2
  sorted : pks.1 ≤ pks.2
  plain : Plain s

theorem stands_of_mem {pm : NodeMap} {pairFreq : PairFreq} {pks s : String × String}
    (h : s ∈ (pairDedup pm).spellings pairFreq.entries pks) : Stands pm pks s := by
  obtain ⟨e, he, hread⟩ := List.mem_filterMap.mp h
  obtain ⟨q, hq, hspelled⟩ := Option.bind_eq_some_iff.mp hread
  obtain ⟨hpks, hs⟩ := Option.ite_none_right_eq_some.mp hspelled
  obtain ⟨a, b, hab, ha, hb⟩ := pairFreq.pairs e he
  have hpair : readPair pm (joined a b) = some (pks, s) := by
    rw [← hab, ← hpks, ← Option.some.inj hs]
    exact hq
  rw [readPair, parts_joined ha] at hpair
  split at hpair
  · next pkA pkB hA hB =>
      split at hpair
      · next hlt =>
          cases hpair
          exact ⟨hB, hA, le_of_lt hlt, hb, ha⟩
      · next hnot =>
          cases hpair
          exact ⟨hA, hB, not_lt.mp hnot, ha, hb⟩
  · cases hpair

theorem readsBack_pair (pm : NodeMap) (pairFreq : PairFreq) : (pairDedup pm).ReadsBack pairFreq.entries := by
  intro pks g r hg hbest
  rw [pairDedup_best, Option.bind_eq_some_iff] at hbest
  obtain ⟨t, ht, hbest⟩ := hbest
  obtain ⟨u, hu, rfl⟩ := Option.map_eq_some_iff.mp hbest
  have hA := stands_of_mem (hg t (best_of_pick (ranking_isLonger Prod.fst) ht).mem)
  have hB := stands_of_mem (hg u (best_of_pick (ranking_isLonger Prod.snd) hu).mem)
  change ((readPair pm (ite (u.2 < t.1) (joined u.2 t.1) (joined t.1 u.2))).map Prod.fst) = some pks
  split
  · rw [readPair, parts_joined hB.plain.2]
    simp only [hA.first, hB.second]
    rcases lt_or_eq_of_le hA.sorted with hlt | heq
    · rw [if_pos hlt]
      rfl
    · rw [if_neg (not_lt.mpr heq.ge), heq]
      exact congrArg some (Prod.ext heq.symm rfl)
  · rw [readPair, parts_joined hA.plain.1]
    simp only [hA.first, hB.second, if_neg (not_lt.mpr hA.sorted)]
    rfl

/-- The pairs of public keys do not share a key, and for each the longest hop on either side is known, or the two that
are longest stand crosswise. -/
structure PairsClear (pm : NodeMap) (pairFreq : PairFreq) : Prop where
  apart : (pairDedup pm).TellsApart pairFreq.entries
  first : ∀ pks, Tied longerA longerB Prod.fst Prod.snd ((pairDedup pm).spellings pairFreq.entries pks)
  second : ∀ pks, Tied longerB longerA Prod.snd Prod.fst ((pairDedup pm).spellings pairFreq.entries pks)

theorem spell_best_iff {pm : NodeMap} {pairFreq : PairFreq} {pks : String × String} {g g' : List (String × String)}
    (hg : ∀ s ∈ g, s ∈ (pairDedup pm).spellings pairFreq.entries pks)
    (hg' : ∀ s ∈ g', s ∈ (pairDedup pm).spellings pairFreq.entries pks) :
    ((pairDedup pm).best g).map (pairDedup pm).spell = ((pairDedup pm).best g').map (pairDedup pm).spell ↔
      ends longerA longerB Prod.fst Prod.snd g = ends longerA longerB Prod.fst Prod.snd g' := by
  have hplain : ∀ {g r}, (∀ s ∈ g, s ∈ (pairDedup pm).spellings pairFreq.entries pks) →
      (pairDedup pm).best g = some r → Plain r := by
    intro g r hg hbest
    rw [pairDedup_best, Option.bind_eq_some_iff] at hbest
    obtain ⟨t, ht, hbest⟩ := hbest
    obtain ⟨u, hu, rfl⟩ := Option.map_eq_some_iff.mp hbest
    have hA := stands_of_mem (hg t (best_of_pick (ranking_isLonger Prod.fst) ht).mem)
    have hB := stands_of_mem (hg u (best_of_pick (ranking_isLonger Prod.snd) hu).mem)
    exact ⟨hA.plain.1, hB.plain.2⟩
  rw [ends_eq pm, ends_eq pm]
  cases hr : (pairDedup pm).best g with
  | none => cases hr' : (pairDedup pm).best g' <;> simp
  | some r =>
      cases hr' : (pairDedup pm).best g' with
      | none => simp
      | some r' =>
          rw [Option.map_some, Option.map_some, Option.map_some, Option.map_some, Option.some_inj, Option.some_inj]
          exact spell_eq_iff pm (hplain hg hr) (hplain hg' hr')

theorem pair_conserves_iff (pm : NodeMap) (pairFreq : PairFreq) :
    (pairDedup pm).Conserves pairFreq.entries ↔ PairsClear pm pairFreq := by
  rw [Scheme.conserves_iff pairFreq.nodup (readsBack_pair pm pairFreq)]
  have hrA : Ranking longerA := ranking_isLonger Prod.fst
  have hrB : Ranking longerB := ranking_isLonger Prod.snd
  constructor
  · intro hclear
    have hends : ∀ pks g g', g.Perm ((pairDedup pm).spellings pairFreq.entries pks) →
        g'.Perm ((pairDedup pm).spellings pairFreq.entries pks) →
        ends longerA longerB Prod.fst Prod.snd g = ends longerA longerB Prod.fst Prod.snd g' := by
      intro pks g g' hg hg'
      cases hs : (pairDedup pm).spellings pairFreq.entries pks with
      | nil =>
          rw [hs] at hg hg'
          rw [hg.eq_nil, hg'.eq_nil]
      | cons s rest =>
          have hmem : pks ∈ (pairDedup pm).identities pairFreq.entries :=
            Scheme.mem_identities.mpr ⟨s, by rw [hs]; exact List.mem_cons_self⟩
          exact (spell_best_iff (fun s hs => hg.mem_iff.mp hs) fun s hs => hg'.mem_iff.mp hs).mp
            (hclear.spell pks hmem g g' hg hg')
    refine ⟨hclear.join, fun pks => tied_of_ends hrB (hends pks), fun pks => tied_of_ends hrA ?_⟩
    intro g g' hg hg'
    exact ends_comm.trans ((hends pks g g' hg hg').trans ends_comm)
  · intro hclear
    refine ⟨hclear.apart, fun pks _ g g' hg hg' => ?_⟩
    apply (spell_best_iff (fun s hs => hg.mem_iff.mp hs) fun s hs => hg'.mem_iff.mp hs).mpr
    exact ends_perm hrA hrB (hclear.first pks) (hclear.second pks) hg hg'

/-- Nothing is lost and no order shows just if each public key has one longest hop, and each pair of public keys one key
and one pair of longest hops. -/
theorem conserve_iff (pm : NodeMap) (hopFreq : HopFreq) (pairFreq : PairFreq) : Conserve pm hopFreq pairFreq ↔
    (∀ pk h h', Longest pm hopFreq pk h → Longest pm hopFreq pk h' → h = h') ∧ PairsClear pm pairFreq :=
  and_congr (hop_conserves_iff pm hopFreq) (pair_conserves_iff pm pairFreq)

/-- Of two spellings of one length, the one that is met first is kept. -/
theorem letter_case_shows : ¬Conserve ⟨buildPrefixMap [⟨⟨"ab11"⟩, "repeater", 0, 0, false, 0⟩], ∅⟩
    ⟨[("AB", 1), ("ab", 1)], by decide⟩ ⟨[], List.nodup_nil, fun e he => absurd he List.not_mem_nil⟩ := by
  intro h
  have hperm := h.1.same [("AB", 2)] [("ab", 2)] ⟨_, _, _, .refl _, .refl _, .refl _, by decide +kernel⟩
    ⟨[("ab", 1), ("AB", 1)], _, _, .swap _ _ _, .refl _, .refl _, by decide +kernel⟩
  exact absurd (hperm.mem_iff.mp List.mem_cons_self) (by decide)

end MeshcoreAnalyzer.TopologyDedup

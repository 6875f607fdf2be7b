import MeshcoreAnalyzer.Medians
import Mathlib.Algebra.Order.Ring.Rat
import Mathlib.Data.List.Perm.Basic
import Mathlib.Tactic.FieldSimp
import Mathlib.Tactic.Ring

namespace MeshcoreAnalyzer.ClockDrift

open Medians Orders

/-! `computeDrift` and `theilSenSlope` of cmd/server/clock_skew.go. Skews are exact. -/

structure TsSkewPair where
  ts : Int
  skew : ℚ
  hash : String
  advertTS : Int
deriving DecidableEq

def maxPlausibleSkewJumpSec : ℚ := 60
def theilSenMaxPoints : Nat := 200

def slope (p q : TsSkewPair) : ℚ := (q.skew - p.skew) / (q.ts - p.ts : Int)

def slopes : List TsSkewPair → List ℚ
  | [] => []
  | p :: rest => (rest.filter fun q => 0 < q.ts - p.ts).map (slope p) ++ slopes rest

def theilSenSlope (pairs : List TsSkewPair) : ℚ :=
  if pairs.length < 2 then 0 else if slopes pairs = [] then 0 else median (slopes pairs)

def accepted : TsSkewPair → List TsSkewPair → List TsSkewPair
  | _, [] => []
  | prev, p :: rest =>
      if |p.skew - prev.skew| ≤ maxPlausibleSkewJumpSec then p :: accepted p rest else accepted prev rest

def jumpFilter : List TsSkewPair → List TsSkewPair
  | [] => []
  | first :: rest => first :: accepted first rest

def span : List TsSkewPair → Int
  | [] => 0
  | first :: rest => (rest.getLastD first).ts - first.ts

def TooFew (filtered : List TsSkewPair) : Prop := filtered.length < 2 ∨ span filtered < 3600

instance (filtered : List TsSkewPair) : Decidable (TooFew filtered) := inferInstanceAs (Decidable (_ ∨ _))

def mostRecent (pairs : List TsSkewPair) : List TsSkewPair :=
  if theilSenMaxPoints < pairs.length then pairs.drop (pairs.length - theilSenMaxPoints) else pairs

def computeDrift (sort : SliceSort TsSkewPair.ts) (pairs : List TsSkewPair) : ℚ :=
  if pairs.length < 2 then 0
  else
    let pairs := sort.sort pairs
    if span pairs < 3600 then 0
    else
      let filtered := if TooFew (jumpFilter pairs) then pairs else jumpFilter pairs
      theilSenSlope (mostRecent filtered) * 86400

def allSlopes : List TsSkewPair → List ℚ
  | [] => []
  | p :: rest => (rest.filter fun q => q.ts ≠ p.ts).map (slope p) ++ allSlopes rest

theorem slope_comm (p q : TsSkewPair) : slope p q = slope q p := by
  rw [slope, slope, ← neg_sub p.skew q.skew, ← neg_sub p.ts q.ts, Int.cast_neg, neg_div_neg_eq]

theorem allSlopes_perm {l l' : List TsSkewPair} (h : l.Perm l') : (allSlopes l).Perm (allSlopes l') := by
  induction h with
  | nil => exact List.Perm.refl _
  | cons p h ih => exact ((h.filter _).map _).append ih
  | swap p q l =>
      by_cases hpq : p.ts = q.ts
      · have hqp := hpq.symm
        simp only [allSlopes, List.filter_cons, hpq, ne_eq, not_true_eq_false, decide_false]
        simp only [Bool.false_eq_true, if_false, ← List.append_assoc]
        exact List.perm_append_comm.append_right _
      · have hqp : q.ts ≠ p.ts := fun h => hpq h.symm
        simp only [allSlopes, List.filter_cons, hpq, hqp, ne_eq, not_false_eq_true, decide_true, if_true, List.map_cons,
          slope_comm p q, List.cons_append, ← List.append_assoc]
        exact (List.perm_append_comm.append_right _).cons _
  | trans _ _ ih ih' => exact ih.trans ih'

theorem slopes_eq_allSlopes {l : List TsSkewPair} (h : Ascending TsSkewPair.ts l) : slopes l = allSlopes l := by
  induction l with
  | nil => rfl
  | cons p l ih =>
      obtain ⟨hp, hl⟩ := List.pairwise_cons.mp h
      have hfilter : (l.filter fun q => 0 < q.ts - p.ts) = l.filter fun q => q.ts ≠ p.ts := by
        apply List.filter_congr
        intro q hq
        have hle := hp q hq
        simp only [decide_eq_decide]
        omega
      rw [slopes, allSlopes, hfilter, ih hl]

theorem accepted_sublist (prev : TsSkewPair) (l : List TsSkewPair) : (accepted prev l).Sublist l := by
  induction l generalizing prev with
  | nil => exact List.Sublist.refl _
  | cons p l ih =>
      rw [accepted]
      split
      · exact (ih p).cons_cons p
      · exact (ih prev).cons p

theorem jumpFilter_sublist (l : List TsSkewPair) : (jumpFilter l).Sublist l := by
  cases l with
  | nil => exact List.Sublist.refl _
  | cons first rest => exact (accepted_sublist first rest).cons_cons first

theorem getLastD_mem (first : TsSkewPair) (rest : List TsSkewPair) : rest.getLastD first ∈ first :: rest := by
  induction rest generalizing first with
  | nil => exact List.mem_cons_self
  | cons p rest ih =>
      rw [List.getLastD_cons]
      exact List.mem_cons_of_mem first (ih p)

theorem le_getLastD {first : TsSkewPair} {rest : List TsSkewPair} (h : Ascending TsSkewPair.ts (first :: rest))
    {q : TsSkewPair} (hq : q ∈ first :: rest) : q.ts ≤ (rest.getLastD first).ts := by
  induction rest generalizing first q with
  | nil => rw [List.mem_singleton.mp hq, List.getLastD_nil]
  | cons p rest ih =>
      obtain ⟨hfirst, hrest⟩ := List.pairwise_cons.mp h
      rw [List.getLastD_cons]
      rcases List.mem_cons.mp hq with rfl | hq
      · exact (hfirst p List.mem_cons_self).trans (ih hrest List.mem_cons_self)
      · exact ih hrest hq

theorem le_span {l : List TsSkewPair} (h : Ascending TsSkewPair.ts l) {p q : TsSkewPair} (hp : p ∈ l) (hq : q ∈ l) :
    q.ts - p.ts ≤ span l := by
  cases l with
  | nil => cases hp
  | cons first rest =>
      have hlast := le_getLastD h hq
      have hfirst : first.ts ≤ p.ts := by
        rcases List.mem_cons.mp hp with rfl | hp
        · exact le_refl _
        · exact (List.pairwise_cons.mp h).1 p hp
      rw [span]
      omega

theorem slopes_ne_nil {l : List TsSkewPair} (h : 0 < span l) : slopes l ≠ [] := by
  cases l with
  | nil => simp [span] at h
  | cons first rest =>
      rw [span] at h
      have hmem : rest.getLastD first ∈ rest := by
        rcases List.mem_cons.mp (getLastD_mem first rest) with heq | hmem
        · rw [heq] at h
          omega
        · exact hmem
      have hslope : slope first (rest.getLastD first) ∈ slopes (first :: rest) := by
        rw [slopes]
        apply List.mem_append_left
        exact List.mem_map_of_mem (List.mem_filter.mpr ⟨hmem, by simpa using h⟩)
      exact List.ne_nil_of_mem hslope

theorem theilSenSlope_eq_iff {l : List TsSkewPair} (h : 0 < span l) (b : ℚ) :
    theilSenSlope l = b ↔ Centred (slopes l) b := by
  have hlength : ¬ l.length < 2 := by
    rcases l with _ | ⟨p, _ | ⟨q, l⟩⟩
    · simp [span] at h
    · simp [span] at h
    · simp
  have hne := slopes_ne_nil h
  rw [theilSenSlope, if_neg hlength, if_neg hne, median_eq_iff hne]

theorem mostRecent_eq {l : List TsSkewPair} (h : l.length ≤ theilSenMaxPoints) : mostRecent l = l :=
  if_neg (not_lt.mpr h)

theorem computeDrift_eq_iff (sort : SliceSort TsSkewPair.ts) {pairs : List TsSkewPair} {b : ℚ}
    (hcap : pairs.length ≤ theilSenMaxPoints) (hspan : ∃ p ∈ pairs, ∃ q ∈ pairs, 3600 ≤ q.ts - p.ts)
    (hmajority : (allSlopes pairs).length < 2 * (allSlopes pairs).count b) :
    computeDrift sort pairs = 86400 * b ↔
      TooFew (jumpFilter (sort.sort pairs)) ∨ Centred (slopes (jumpFilter (sort.sort pairs))) b := by
  obtain ⟨p, hp, q, hq, hpq⟩ := hspan
  have hperm := sort.perm pairs
  have hascending := sort.ascending pairs
  have hlong : 3600 ≤ span (sort.sort pairs) :=
    le_trans hpq (le_span hascending (hperm.mem_iff.mpr hp) (hperm.mem_iff.mpr hq))
  have hraw : Centred (slopes (sort.sort pairs)) b := by
    have hslopes := slopes_eq_allSlopes hascending ▸ allSlopes_perm hperm
    apply centred_of_count
    rw [hslopes.length_eq, hslopes.count_eq]
    exact hmajority
  have hlength : ¬ pairs.length < 2 := by
    rcases pairs with _ | ⟨r, _ | ⟨r', l⟩⟩
    · cases hp
    · rw [List.mem_singleton] at hp hq
      subst hp hq
      simp at hpq
    · simp
  have hscale : ∀ x : ℚ, x * 86400 = 86400 * b ↔ x = b := by
    intro x
    rw [mul_comm]
    exact mul_right_inj' (by norm_num)
  rw [computeDrift, if_neg hlength]
  simp only [if_neg (not_lt.mpr hlong), hscale]
  split
  · next hfew =>
      rw [mostRecent_eq (hperm.length_eq ▸ hcap), theilSenSlope_eq_iff (by omega)]
      exact ⟨fun _ => .inl hfew, fun _ => hraw⟩
  · next hmany =>
      have hkept : 3600 ≤ span (jumpFilter (sort.sort pairs)) := not_lt.mp fun h => hmany (.inr h)
      have hcap' := ((jumpFilter_sublist (sort.sort pairs)).length_le.trans_eq hperm.length_eq).trans hcap
      rw [mostRecent_eq hcap', theilSenSlope_eq_iff (by omega)]
      exact ⟨.inr, fun h => h.resolve_left hmany⟩

def Next (pairs : List TsSkewPair) (outlier : TsSkewPair → Bool) (p q : TsSkewPair) : Prop :=
  p.ts ≤ q.ts ∧ ∀ r ∈ pairs, outlier r = false → r.ts ≤ p.ts ∨ q.ts ≤ r.ts

instance (pairs : List TsSkewPair) (outlier : TsSkewPair → Bool) (p q : TsSkewPair) :
    Decidable (Next pairs outlier p q) :=
  inferInstanceAs (Decidable (_ ∧ _))

/-- The samples of a steady clock, the earliest ones among them, and outliers, each a jump away from it. -/
structure Steady (pairs : List TsSkewPair) (outlier : TsSkewPair → Bool) : Prop where
  first : ∀ p ∈ pairs, (∀ q ∈ pairs, p.ts ≤ q.ts) → outlier p = false
  near : ∀ p ∈ pairs, outlier p = false → ∀ q ∈ pairs, outlier q = false → Next pairs outlier p q →
    |q.skew - p.skew| ≤ maxPlausibleSkewJumpSec
  far : ∀ p ∈ pairs, outlier p = false → ∀ q ∈ pairs, outlier q = true → Next pairs outlier p q →
    maxPlausibleSkewJumpSec < |q.skew - p.skew|

variable {pairs : List TsSkewPair} {outlier : TsSkewPair → Bool} {b : ℚ}

theorem accepted_eq_filter (h : Steady pairs outlier) {prev : TsSkewPair} (hprev : prev ∈ pairs)
    (hkept : outlier prev = false) {rest : List TsSkewPair} (hrest : ∀ q ∈ rest, q ∈ pairs)
    (hascending : Ascending TsSkewPair.ts (prev :: rest))
    (hseen : ∀ r ∈ pairs, outlier r = false → r.ts ≤ prev.ts ∨ r ∈ rest) :
    accepted prev rest = rest.filter fun p => !outlier p := by
  induction rest generalizing prev with
  | nil => rfl
  | cons q rest ih =>
      obtain ⟨hfirst, htail⟩ := List.pairwise_cons.mp hascending
      have hq : q ∈ pairs := hrest q List.mem_cons_self
      have hrest' : ∀ q' ∈ rest, q' ∈ pairs := fun q' hq' => hrest q' (List.mem_cons_of_mem q hq')
      have hnext : Next pairs outlier prev q := by
        refine ⟨hfirst q List.mem_cons_self, fun r hr hsteady => ?_⟩
        rcases hseen r hr hsteady with hle | hmem
        · exact .inl hle
        · rcases List.mem_cons.mp hmem with rfl | hmem
          · exact .inr (le_refl _)
          · exact .inr ((List.pairwise_cons.mp htail).1 r hmem)
      rw [accepted]
      cases hout : outlier q with
      | false =>
          rw [if_pos (h.near prev hprev hkept q hq hout hnext), List.filter_cons_of_pos (by simp [hout])]
          congr 1
          apply ih hq hout hrest' htail
          intro r hr hsteady
          rcases hseen r hr hsteady with hle | hmem
          · exact .inl (hle.trans hnext.1)
          · rcases List.mem_cons.mp hmem with rfl | hmem
            · exact .inl (le_refl _)
            · exact .inr hmem
      | true =>
          rw [if_neg (not_le.mpr (h.far prev hprev hkept q hq hout hnext)), List.filter_cons_of_neg (by simp [hout])]
          refine ih hprev hkept hrest' (hascending.sublist ((List.sublist_cons_self q rest).cons_cons prev)) ?_
          intro r hr hsteady
          rcases hseen r hr hsteady with hle | hmem
          · exact .inl hle
          · rcases List.mem_cons.mp hmem with rfl | hmem
            · rw [hout] at hsteady
              cases hsteady
            · exact .inr hmem

theorem Steady.perm (h : Steady pairs outlier) {l : List TsSkewPair} (hperm : l.Perm pairs) : Steady l outlier where
  first p hp hle := h.first p (hperm.mem_iff.mp hp) fun q hq => hle q (hperm.mem_iff.mpr hq)
  near p hp hkept q hq hout hnext := h.near p (hperm.mem_iff.mp hp) hkept q (hperm.mem_iff.mp hq) hout
    ⟨hnext.1, fun r hr => hnext.2 r (hperm.mem_iff.mpr hr)⟩
  far p hp hkept q hq hout hnext := h.far p (hperm.mem_iff.mp hp) hkept q (hperm.mem_iff.mp hq) hout
    ⟨hnext.1, fun r hr => hnext.2 r (hperm.mem_iff.mpr hr)⟩

theorem jumpFilter_eq_filter (h : Steady pairs outlier) (hascending : Ascending TsSkewPair.ts pairs) :
    jumpFilter pairs = pairs.filter fun p => !outlier p := by
  cases pairs with
  | nil => rfl
  | cons first rest =>
      have hle := (List.pairwise_cons.mp hascending).1
      have hkept : outlier first = false := by
        apply h.first first List.mem_cons_self
        intro q hq
        rcases List.mem_cons.mp hq with rfl | hq
        · exact le_refl _
        · exact hle q hq
      rw [jumpFilter, List.filter_cons_of_pos (by simp [hkept])]
      congr 1
      refine accepted_eq_filter h List.mem_cons_self hkept (fun q => List.mem_cons_of_mem first) hascending ?_
      intro r hr _
      rcases List.mem_cons.mp hr with rfl | hr
      · exact .inl (le_refl _)
      · exact .inr hr

theorem allSlopes_sublist {l l' : List TsSkewPair} (h : l.Sublist l') : (allSlopes l).Sublist (allSlopes l') := by
  induction h with
  | slnil => exact List.Sublist.refl _
  | cons p _ ih => exact ih.trans (List.sublist_append_right _ _)
  | cons_cons p hsub ih => exact ((hsub.filter _).map _).append ih

theorem count_slope_filter {keep : TsSkewPair → Bool} {p : TsSkewPair} {l : List TsSkewPair}
    (h : ∀ q ∈ l, q.ts ≠ p.ts → slope p q = b → keep q = true) :
    (((l.filter keep).filter fun q => q.ts ≠ p.ts).map (slope p)).count b =
      ((l.filter fun q => q.ts ≠ p.ts).map (slope p)).count b := by
  induction l with
  | nil => rfl
  | cons q l ih =>
      have hrest := ih fun q' hq' => h q' (List.mem_cons_of_mem q hq')
      have hq := h q List.mem_cons_self
      by_cases hts : q.ts = p.ts
      · cases hkeep : keep q <;> simpa [List.filter_cons, hkeep, hts] using hrest
      · cases hkeep : keep q with
        | true => simpa [List.filter_cons, hkeep, hts, List.count_cons] using hrest
        | false =>
            have hslope : slope p q ≠ b := by
              intro heq
              rw [hq hts heq] at hkeep
              cases hkeep
            simpa [List.filter_cons, hkeep, hts, List.count_cons, hslope] using hrest

theorem count_allSlopes_filter {keep : TsSkewPair → Bool} {l : List TsSkewPair}
    (h : ∀ p ∈ l, keep p = false → ∀ q ∈ l, q.ts ≠ p.ts → slope p q ≠ b) :
    (allSlopes (l.filter keep)).count b = (allSlopes l).count b := by
  induction l with
  | nil => rfl
  | cons p l ih =>
      have hrest := ih fun p' hp' hkeep q hq => h p' (List.mem_cons_of_mem p hp') hkeep q (List.mem_cons_of_mem p hq)
      cases hkeep : keep p with
      | true =>
          rw [List.filter_cons_of_pos hkeep, allSlopes, allSlopes, List.count_append, List.count_append, hrest]
          congr 1
          apply count_slope_filter
          intro q hq hts heq
          by_contra hdrop
          rw [Bool.not_eq_true] at hdrop
          have hmem := h q (List.mem_cons_of_mem p hq) hdrop p List.mem_cons_self (Ne.symm hts)
          exact hmem (slope_comm q p ▸ heq)
      | false =>
          have hzero : ((l.filter fun q => q.ts ≠ p.ts).map (slope p)).count b = 0 := by
            apply List.count_eq_zero.mpr
            intro hmem
            obtain ⟨q, hq, heq⟩ := List.mem_map.mp hmem
            obtain ⟨hq, hts⟩ := List.mem_filter.mp hq
            exact h p List.mem_cons_self hkeep q (List.mem_cons_of_mem p hq) (of_decide_eq_true hts) heq
          rw [List.filter_cons_of_neg (by simp [hkeep]), allSlopes, List.count_append, hzero, hrest, Nat.zero_add]

/-- Without the outliers there is no hour left, or none of them lies on a line of the slope. -/
def Spared (pairs : List TsSkewPair) (outlier : TsSkewPair → Bool) (b : ℚ) : Prop :=
  (∀ p ∈ pairs, outlier p = false → ∀ q ∈ pairs, outlier q = false → q.ts - p.ts < 3600) ∨
    ∀ p ∈ pairs, outlier p = true → ∀ q ∈ pairs, q.ts ≠ p.ts → slope p q ≠ b

instance (pairs : List TsSkewPair) (outlier : TsSkewPair → Bool) (b : ℚ) : Decidable (Spared pairs outlier b) :=
  inferInstanceAs (Decidable (_ ∨ _))

theorem span_lt {l : List TsSkewPair} (h : ∀ p ∈ l, ∀ q ∈ l, q.ts - p.ts < 3600) : span l < 3600 := by
  cases l with
  | nil => decide
  | cons first rest => exact h first List.mem_cons_self _ (getLastD_mem first rest)

/-- The drift is that of the majority wherever what jumps away from a steady clock is not of the majority. -/
theorem computeDrift_eq_of_steady (sort : SliceSort TsSkewPair.ts) {pairs : List TsSkewPair} {b : ℚ}
    (hcap : pairs.length ≤ theilSenMaxPoints) (hspan : ∃ p ∈ pairs, ∃ q ∈ pairs, 3600 ≤ q.ts - p.ts)
    (hmajority : (allSlopes pairs).length < 2 * (allSlopes pairs).count b) (outlier : TsSkewPair → Bool)
    (hsteady : Steady pairs outlier) (hspared : Spared pairs outlier b) : computeDrift sort pairs = 86400 * b := by
  rw [computeDrift_eq_iff sort hcap hspan hmajority]
  have hperm := sort.perm pairs
  have hascending := sort.ascending pairs
  have hfilter := jumpFilter_eq_filter (hsteady.perm hperm) hascending
  rw [hfilter]
  rcases hspared with hshort | hline
  · refine .inl (.inr (span_lt fun p hp q hq => ?_))
    obtain ⟨hp, hkept⟩ := List.mem_filter.mp hp
    obtain ⟨hq, hkept'⟩ := List.mem_filter.mp hq
    exact hshort p (hperm.mem_iff.mp hp) (by simpa using hkept) q (hperm.mem_iff.mp hq) (by simpa using hkept')
  · refine .inr (centred_of_count ?_)
    have hkept : Ascending TsSkewPair.ts ((sort.sort pairs).filter fun p => !outlier p) :=
      hascending.sublist List.filter_sublist
    have hcount : (allSlopes ((sort.sort pairs).filter fun p => !outlier p)).count b = (allSlopes pairs).count b := by
      rw [← (allSlopes_perm hperm).count_eq b]
      apply count_allSlopes_filter
      intro p hp hout q hq
      exact hline p (hperm.mem_iff.mp hp) (by simpa using hout) q (hperm.mem_iff.mp hq)
    have hsub : ((sort.sort pairs).filter fun p => !outlier p).Sublist (sort.sort pairs) := List.filter_sublist
    have hlength := (allSlopes_sublist hsub).length_le
    rw [slopes_eq_allSlopes hkept, hcount]
    rw [(allSlopes_perm hperm).length_eq] at hlength
    omega

def sample (ts : Int) (skew : ℚ) : TsSkewPair := ⟨ts, skew, "", 0⟩

/-- A right clock that wavers once and is wrong for an hour in between. -/
def wrongBetween : List TsSkewPair :=
  [sample 0 0, sample 3600 20, sample 7200 0, sample 10800 1000, sample 14400 1030, sample 18000 0, sample 21600 0,
    sample 25200 0, sample 28800 0, sample 32400 0, sample 36000 0]

theorem computeDrift_eq_of_steady_wrongBetween :
    computeDrift (SliceSort.insertion TsSkewPair.ts) wrongBetween = 86400 * 0 :=
  computeDrift_eq_of_steady _ (by decide) ⟨sample 0 0, by decide, sample 3600 20, by decide, by decide⟩
    (by decide +kernel) (fun p => decide (1000 ≤ p.skew))
    ⟨by decide +kernel, by decide +kernel, by decide +kernel⟩ (by decide +kernel)

def wrongFirst : List TsSkewPair :=
  [sample 0 1000, sample 3600 1030, sample 7200 0, sample 10800 0, sample 14400 0, sample 18000 0, sample 21600 0,
    sample 25200 0]

theorem wrong_first_wins : ¬ ∀ (sort : SliceSort TsSkewPair.ts) (pairs : List TsSkewPair) (b : ℚ),
    pairs.length ≤ theilSenMaxPoints → (∃ p ∈ pairs, ∃ q ∈ pairs, 3600 ≤ q.ts - p.ts) →
      (allSlopes pairs).length < 2 * (allSlopes pairs).count b → computeDrift sort pairs = 86400 * b := by
  intro h
  have hdrift := h (SliceSort.insertion TsSkewPair.ts) wrongFirst 0 (by decide)
    ⟨sample 0 1000, by decide, sample 3600 1030, by decide, by decide⟩ (by decide +kernel)
  revert hdrift
  decide +kernel

end MeshcoreAnalyzer.ClockDrift

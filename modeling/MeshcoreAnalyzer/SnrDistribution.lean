import MeshcoreAnalyzer.GroupedQueries
import MeshcoreAnalyzer.Groups
import Mathlib.Algebra.BigOperators.Group.List.Lemmas
import Mathlib.Data.List.Sort
import Mathlib.Data.Rat.Floor
import Mathlib.Data.Set.Finite.Lemmas

namespace MeshcoreAnalyzer.SnrDistribution

open Groups PacketStore.GroupedQueries

/-! The histogram of the SNR of cmd/server/observer_analytics.go. A sample is an exact number, and integers are not
bounded. -/

structure StoreObs where
  snr : Option ℚ

structure SnrDistributionEntry where
  range : String
  count : ℕ
deriving DecidableEq

/-- `int(f)`, towards zero. -/
def int (f : ℚ) : ℤ := if f < 0 then ⌈f⌉ else ⌊f⌋

def bucketOf (snr : ℚ) : ℤ :=
  let bucket := (int snr).tdiv 2 * 2
  if snr < 0 ∧ int snr ≠ bucket then bucket - 2 else bucket

/-- `fmt.Sprintf("%d to %d", bucket, bucket+2)` -/
def rangeText (bucket : ℤ) : String := bucket.repr ++ " to " ++ (bucket + 2).repr

def snrBuckets (filtered : List StoreObs) : List (ℤ × SnrDistributionEntry) :=
  tallies bucketOf (fun snr => ⟨rangeText (bucketOf snr), 0⟩) (fun e _ => { e with count := e.count + 1 })
    (filtered.filterMap StoreObs.snr)

def buildSnrDistribution (o : RangeOrder) (filtered : List StoreObs) : List SnrDistributionEntry :=
  let m := snrBuckets filtered
  let keys := ((o.order m).map Prod.fst).insertionSort (· ≤ ·)
  keys.filterMap (get m)

def Within (b : ℤ) (snr : ℚ) : Prop := (b : ℚ) ≤ snr ∧ snr < b + 2

instance (b : ℤ) (snr : ℚ) : Decidable (Within b snr) := inferInstanceAs (Decidable (_ ∧ _))

/-- Below zero, and strictly between an odd number and the even one above it. -/
def Misplaced (snr : ℚ) : Prop := ∃ k : ℤ, k ≤ 0 ∧ 2 * k - 1 < snr ∧ snr < 2 * k

variable {x y : ℚ} {b c : ℤ}

theorem Within.unique (hb : Even b) (hc : Even c) (h : Within b x) (h' : Within c x) : b = c := by
  have hlow : (b : ℚ) < c + 2 := h.1.trans_lt h'.2
  have hhigh : (c : ℚ) < b + 2 := h'.1.trans_lt h.2
  have hlow' : b < c + 2 := by exact_mod_cast hlow
  have hhigh' : c < b + 2 := by exact_mod_cast hhigh
  obtain ⟨m, rfl⟩ := hb
  obtain ⟨n, rfl⟩ := hc
  omega

theorem bucketOf_eq (x : ℚ) : bucketOf x = int x - int x % 2 := by
  rw [bucketOf]
  by_cases hneg : x < 0
  · have hle : int x ≤ 0 := by
      rw [int, if_pos hneg]
      exact Int.ceil_le.mpr (by exact_mod_cast hneg.le)
    have hdiv : (int x).tdiv 2 = -(-int x / 2) := by
      rw [← Int.tdiv_eq_ediv_of_nonneg (Int.neg_nonneg_of_nonpos hle), Int.neg_tdiv, neg_neg]
    simp only [hneg, true_and, hdiv]
    split <;> omega
  · have hnonneg : 0 ≤ int x := by
      rw [int, if_neg hneg]
      exact Int.floor_nonneg.mpr (not_lt.mp hneg)
    rw [if_neg fun h => hneg h.1, Int.tdiv_eq_ediv_of_nonneg hnonneg]
    omega

theorem even_bucketOf (x : ℚ) : Even (bucketOf x) := by
  rw [bucketOf_eq, even_iff_two_dvd]
  omega

theorem bucketOf_misplaced {k : ℤ} (hk : k ≤ 0) (hlow : 2 * k - 1 < x) (hhigh : x < 2 * k) : bucketOf x = 2 * k := by
  have hneg : x < 0 := by
    have hk' : (k : ℚ) ≤ 0 := by exact_mod_cast hk
    linarith
  have hint : int x = 2 * k := by
    rw [int, if_pos hneg, Int.ceil_eq_iff]
    push_cast
    exact ⟨hlow, hhigh.le⟩
  rw [bucketOf_eq, hint]
  omega

theorem within_bucketOf (h : ¬ Misplaced x) : Within (bucketOf x) x := by
  rw [bucketOf_eq, Within]
  by_cases hneg : x < 0
  · have hint : int x = ⌈x⌉ := if_pos hneg
    have hlow : (⌈x⌉ : ℚ) - 1 < x := by linarith [Int.ceil_lt_add_one x]
    have hhigh : x ≤ ⌈x⌉ := Int.le_ceil x
    rw [hint]
    rcases Int.emod_two_eq ⌈x⌉ with heven | hodd
    · -- only the even number itself is not misplaced
      have hx : x = ⌈x⌉ := by
        by_contra hne
        obtain ⟨k, hk⟩ := Int.dvd_of_emod_eq_zero heven
        have hle : ⌈x⌉ ≤ 0 := Int.ceil_le.mpr (by exact_mod_cast hneg.le)
        have hlt := lt_of_le_of_ne hhigh hne
        rw [hk] at hlow hlt
        push_cast at hlow hlt
        exact h ⟨k, by omega, hlow, hlt⟩
      rw [heven, sub_zero]
      constructor <;> linarith
    · rw [hodd]
      push_cast
      constructor <;> linarith
  · have hint : int x = ⌊x⌋ := if_neg hneg
    have hlow : (⌊x⌋ : ℚ) ≤ x := Int.floor_le x
    have hhigh : x < ⌊x⌋ + 1 := Int.lt_floor_add_one x
    rw [hint]
    rcases Int.emod_two_eq ⌊x⌋ with hmod | hmod
    · rw [hmod, sub_zero]
      constructor <;> linarith
    · rw [hmod]
      push_cast
      constructor <;> linarith

section Entries

variable {filtered : List StoreObs} {o : RangeOrder}

def samples (filtered : List StoreObs) : List ℚ := filtered.filterMap StoreObs.snr

def bounds (filtered : List StoreObs) : List ℤ := ((samples filtered).map bucketOf).dedup.insertionSort (· ≤ ·)

theorem running_entry {rows : List ℚ} (hne : rows ≠ []) (h : ∀ snr ∈ rows, bucketOf snr = b) :
    running (fun snr => ⟨rangeText (bucketOf snr), 0⟩)
      (fun (e : SnrDistributionEntry) (_ : ℚ) => { e with count := e.count + 1 }) rows =
        some ⟨rangeText b, rows.length⟩ := by
  induction rows using List.reverseRecOn with
  | nil => exact absurd rfl hne
  | append_singleton rows snr ih =>
      have hsnr := h snr (List.mem_append_right _ (List.mem_singleton_self snr))
      have hrows := fun a ha => h a (List.mem_append_left [snr] ha)
      rw [running_concat, List.length_append, List.length_singleton]
      by_cases hnil : rows = []
      · rw [hnil, running_eq_none.mpr rfl, Option.getD_none, hsnr]
        rfl
      · rw [ih hnil hrows, Option.getD_some]

theorem get_snrBuckets (h : b ∈ (samples filtered).map bucketOf) :
    get (snrBuckets filtered) b = some ⟨rangeText b, ((samples filtered).map bucketOf).count b⟩ := by
  have hlength : ((samples filtered).map bucketOf).count b = (group bucketOf (samples filtered) b).length := by
    rw [List.count_eq_countP, List.countP_map, List.countP_eq_length_filter]
    rfl
  have hne : group bucketOf (samples filtered) b ≠ [] := by
    obtain ⟨snr, hsnr, hb⟩ := List.mem_map.mp h
    exact List.ne_nil_of_mem (mem_group.mpr ⟨hsnr, hb⟩)
  rw [snrBuckets, get_tallies, hlength]
  exact running_entry hne fun snr hsnr => (mem_group.mp hsnr).2

theorem bounds_perm (filtered : List StoreObs) : (bounds filtered).Perm ((samples filtered).map bucketOf).dedup :=
  List.perm_insertionSort _ _

theorem mem_bounds : b ∈ bounds filtered ↔ b ∈ (samples filtered).map bucketOf := by
  rw [(bounds_perm filtered).mem_iff, List.mem_dedup]

theorem pairwise_bounds (filtered : List StoreObs) : (bounds filtered).Pairwise (· < ·) := by
  have hle : (bounds filtered).Pairwise (· ≤ ·) := List.pairwise_insertionSort _ _
  have hnodup : (bounds filtered).Nodup := (bounds_perm filtered).nodup_iff.mpr (List.nodup_dedup _)
  exact hle.imp₂ (fun _ _ hle hne => lt_of_le_of_ne hle hne) hnodup

theorem buildSnrDistribution_eq (o : RangeOrder) (filtered : List StoreObs) :
    buildSnrDistribution o filtered =
      (bounds filtered).map fun b => ⟨rangeText b, ((samples filtered).map bucketOf).count b⟩ := by
  have hkeys : ((o.order (snrBuckets filtered)).map Prod.fst).insertionSort (· ≤ ·) = bounds filtered := by
    have hperm : ((o.order (snrBuckets filtered)).map Prod.fst).Perm ((samples filtered).map bucketOf).dedup :=
      ((o.perm _).map Prod.fst).trans (keys_tallies_perm _)
    have hsorted : (((o.order (snrBuckets filtered)).map Prod.fst).insertionSort (· ≤ ·)).Perm (bounds filtered) :=
      (List.perm_insertionSort _ _).trans (hperm.trans (bounds_perm filtered).symm)
    exact hsorted.eq_of_pairwise' (List.pairwise_insertionSort (· ≤ ·) _) (List.pairwise_insertionSort (· ≤ ·) _)
  rw [buildSnrDistribution]
  rw [hkeys, ← List.filterMap_eq_map]
  apply List.filterMap_congr
  intro b hb
  exact get_snrBuckets (mem_bounds.mp hb)

theorem sum_count (filtered : List StoreObs) :
    ((bounds filtered).map fun b => ((samples filtered).map bucketOf).count b).sum = (samples filtered).length := by
  rw [((bounds_perm filtered).map _).sum_eq, List.sum_map_count_dedup_eq_length, List.length_map]

/-- Even lower bounds in order, and each bucket counts what is within it. -/
structure Histogram (filtered : List StoreObs) (out : List SnrDistributionEntry) (lows : List ℤ) : Prop where
  ascending : lows.Pairwise (· < ·)
  even : ∀ b ∈ lows, Even b
  entries : out = lows.map fun b =>
    ⟨rangeText b, filtered.countP fun obs => obs.snr.any fun snr => decide (Within b snr)⟩
  total : (out.map SnrDistributionEntry.count).sum = filtered.countP fun obs => obs.snr.isSome

theorem countP_samples (p : ℚ → Bool) (filtered : List StoreObs) :
    (samples filtered).countP p = filtered.countP fun obs => obs.snr.any p := by
  rw [samples, List.countP_filterMap]
  congr 1
  funext obs
  cases obs.snr with
  | none => rfl
  | some snr => rfl

theorem rangeText_injective : Function.Injective rangeText := by
  intro a b h
  have hlist := congrArg (fun s : String => s.toList.takeWhile (· ≠ ' ')) h
  have htext : ∀ n : ℤ, (rangeText n).toList.takeWhile (· ≠ ' ') = n.repr.toList := by
    intro n
    have hall : ∀ c ∈ n.repr.toList, decide (c ≠ ' ') = true := by
      intro c hc
      apply decide_eq_true
      rintro rfl
      exact notMem_repr rfl (by decide) n hc
    rw [rangeText, String.toList_append, String.toList_append, List.append_assoc,
      List.takeWhile_append_of_pos hall]
    simp
  rw [htext, htext] at hlist
  exact repr_injective (String.toList_injective hlist)

theorem Histogram.lows_eq {lows : List ℤ} (h : Histogram filtered (buildSnrDistribution o filtered) lows) :
    lows = bounds filtered := by
  have hranges := congrArg (List.map SnrDistributionEntry.range) h.entries
  rw [buildSnrDistribution_eq, List.map_map, List.map_map] at hranges
  exact (List.map_injective_iff.mpr rangeText_injective hranges).symm

theorem Histogram.count_eq {lows : List ℤ} (h : Histogram filtered (buildSnrDistribution o filtered) lows)
    (hb : b ∈ bounds filtered) :
    ((samples filtered).map bucketOf).count b = (samples filtered).countP fun snr => decide (Within b snr) := by
  have hentries := h.entries
  rw [h.lows_eq, buildSnrDistribution_eq] at hentries
  rw [countP_samples]
  exact congrArg SnrDistributionEntry.count (List.map_inj_left.mp hentries b hb)

theorem imp_of_countP_le {A : Type} {p q : A → Bool} {l : List A} (himp : ∀ a ∈ l, p a = true → q a = true)
    (hle : l.countP q ≤ l.countP p) : ∀ a ∈ l, q a = true → p a = true := by
  intro a ha hqa
  have hboth : (l.filter q).countP p = l.countP p := by
    rw [List.countP_filter]
    apply List.countP_congr
    intro a ha
    rw [Bool.and_eq_true, and_iff_left_iff_imp]
    exact himp a ha
  have hall : (l.filter q).countP p = (l.filter q).length := by
    apply le_antisymm List.countP_le_length
    rw [hboth, ← List.countP_eq_length_filter]
    exact hle
  exact List.countP_eq_length.mp hall a (List.mem_filter.mpr ⟨ha, hqa⟩)

theorem histogram_of_placed (h : ∀ snr ∈ samples filtered, ¬ Misplaced snr) :
    Histogram filtered (buildSnrDistribution o filtered) (bounds filtered) := by
  have heven : ∀ b ∈ bounds filtered, Even b := by
    intro b hb
    obtain ⟨snr, _, rfl⟩ := List.mem_map.mp (mem_bounds.mp hb)
    exact even_bucketOf snr
  refine ⟨pairwise_bounds filtered, heven, ?_, ?_⟩
  · rw [buildSnrDistribution_eq]
    apply List.map_congr_left
    intro b hb
    congr 1
    rw [List.count_eq_countP, List.countP_map, ← countP_samples]
    apply List.countP_congr
    intro snr hsnr
    rw [Function.comp_apply, beq_iff_eq, decide_eq_true_iff]
    have hin := within_bucketOf (h snr hsnr)
    constructor
    · rintro rfl
      exact hin
    · exact hin.unique (even_bucketOf snr) (heven b hb)
  · rw [buildSnrDistribution_eq, List.map_map]
    exact (sum_count filtered).trans List.length_filterMap_eq_countP

theorem Histogram.not_misplaced {lows : List ℤ} (h : Histogram filtered (buildSnrDistribution o filtered) lows) :
    ∀ snr ∈ samples filtered, ¬ Misplaced snr := by
  intro snr hsnr hmis
  have hfinite : {x | x ∈ samples filtered ∧ Misplaced x}.Finite := (List.finite_toSet _).subset fun x hx => hx.1
  obtain ⟨x, ⟨hx, k, hk, hlow, hhigh⟩, hmax⟩ := Set.exists_max_image _ bucketOf hfinite ⟨snr, hsnr, hmis⟩
  have hbucket := bucketOf_misplaced hk hlow hhigh
  have hmem : bucketOf x ∈ (samples filtered).map bucketOf := List.mem_map_of_mem hx
  have hcount := h.count_eq (mem_bounds.mpr hmem)
  rw [List.count_eq_countP, List.countP_map] at hcount
  have himp : ∀ y ∈ samples filtered, decide (Within (bucketOf x) y) = true →
      ((fun b => b == bucketOf x) ∘ bucketOf) y = true := by
    intro y hy hin
    rw [decide_eq_true_iff] at hin
    rw [Function.comp_apply, beq_iff_eq]
    by_cases hy' : Misplaced y
    · obtain ⟨l, hl, hlow', hhigh'⟩ := hy'
      have hle := hmax y ⟨hy, l, hl, hlow', hhigh'⟩
      have hlt : (bucketOf x : ℚ) < 2 * l := hin.1.trans_lt hhigh'
      have hlt' : bucketOf x < 2 * l := by exact_mod_cast hlt
      rw [bucketOf_misplaced hl hlow' hhigh'] at hle
      exact absurd hlt' (not_lt.mpr hle)
    · exact (within_bucketOf hy').unique (even_bucketOf y) (even_bucketOf x) hin
  have hin := imp_of_countP_le himp hcount.le x hx (beq_self_eq_true _)
  rw [decide_eq_true_iff, hbucket] at hin
  have hbelow := hin.1
  push_cast at hbelow
  exact absurd hhigh (not_lt.mpr hbelow)

theorem mem_samples : x ∈ samples filtered ↔ ∃ obs ∈ filtered, obs.snr = some x := List.mem_filterMap

/-- The buckets are right exactly where no sample below zero lies between an odd number and the even one above. -/
theorem buildSnrDistribution_iff (o : RangeOrder) (filtered : List StoreObs) :
    (∃ lows, Histogram filtered (buildSnrDistribution o filtered) lows) ↔
      ∀ obs ∈ filtered, ∀ snr, obs.snr = some snr → ¬ Misplaced snr := by
  constructor
  · rintro ⟨lows, h⟩ obs hobs snr hsnr
    exact h.not_misplaced snr (mem_samples.mpr ⟨obs, hobs, hsnr⟩)
  · intro h
    refine ⟨bounds filtered, histogram_of_placed fun snr hsnr => ?_⟩
    obtain ⟨obs, hobs, heq⟩ := mem_samples.mp hsnr
    exact h obs hobs snr heq

/-- Half a unit below zero goes to the bucket from zero to two. -/
theorem halfBelow_misplaced :
    ¬ ∃ lows, Histogram [⟨some (-1 / 2)⟩] (buildSnrDistribution RangeOrder.listed [⟨some (-1 / 2)⟩]) lows := by
  rintro ⟨lows, h⟩
  have hcount := h.count_eq (b := 0) (by decide +kernel)
  exact absurd hcount (by decide +kernel)

end Entries

end MeshcoreAnalyzer.SnrDistribution

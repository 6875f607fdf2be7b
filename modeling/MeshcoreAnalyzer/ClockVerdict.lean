import MeshcoreAnalyzer.ClockDrift
import MeshcoreAnalyzer.System
import Mathlib.Data.Rat.Floor

namespace MeshcoreAnalyzer.ClockVerdict

open ClockDrift Json Maps Medians Orders PacketStore

/-! `getNodeClockSkewLocked` of cmd/server/clock_skew.go, after `Recompute`. Skews are exact. -/

inductive SkewSeverity
  | ok
  | warning
  | critical
  | absurd
  | noClock
  | bimodalClock
deriving DecidableEq

def payloadADVERT : Int := 4
def skewThresholdWarnSec : ℚ := 5 * 60
def skewThresholdCriticalSec : ℚ := 60 * 60
def skewThresholdAbsurdSec : ℚ := 30 * 24 * 3600
def skewThresholdNoClockSec : ℚ := 365 * 24 * 3600
def minDriftSamples : Nat := 5
def maxReasonableDriftPerDay : ℚ := 86400
def recentSkewWindowCount : Nat := 5
def recentSkewWindowSec : Int := 3600
def bimodalSkewThresholdSec : ℚ := 3600
def rtcResetOutlierThresholdSec : ℚ := 24 * 3600

def classifySkew (absSkewSec : ℚ) : SkewSeverity :=
  if skewThresholdNoClockSec ≤ absSkewSec then .noClock
  else if skewThresholdAbsurdSec ≤ absSkewSec then .absurd
  else if skewThresholdCriticalSec ≤ absSkewSec then .critical
  else if skewThresholdWarnSec ≤ absSkewSec then .warning
  else .ok

/-- `round` of routes.go: the conversion to an integer goes towards zero. -/
def round (val : ℚ) (places : Nat) : ℚ :=
  let m : ℚ := 10 ^ places
  let scaled := val * m + 1 / 2
  (if scaled < 0 then ⌈scaled⌉ else ⌊scaled⌋ : Int) / m

def mean (vals : List ℚ) : ℚ := if vals.length = 0 then 0 else vals.sum / vals.length

structure HashSkew where
  medianSkewSec : ℚ
  lastSkewSec : ℚ
  sampleCount : Nat
  calibrated : Bool
  lastObservedTS : Int
  lastAdvertTS : Int

structure HashEvidenceEntry where
  observerID : String
  rawSkew : ℚ
  corrected : ℚ
  offset : ℚ
  calibrated : Bool
  observedTS : Int

structure HashEvidenceObserver where
  observerID : String
  observerName : String
  rawSkewSec : ℚ
  correctedSkewSec : ℚ
  observerOffsetSec : ℚ
  calibrated : Bool

structure HashEvidence where
  hash : String
  observers : List HashEvidenceObserver
  medianCorrectedSkewSec : ℚ
  timestamp : Int

structure CalibrationSummary where
  totalSamples : Nat
  calibratedSamples : Nat
  uncalibratedSamples : Nat

structure SkewSample where
  timestamp : Int
  skewSec : ℚ

structure BadSample where
  hash : String
  advertTS : Int
  skewSec : ℚ

structure NodeClockSkew where
  pubkey : String
  meanSkewSec : ℚ
  medianSkewSec : ℚ
  lastSkewSec : ℚ
  recentMedianSkewSec : ℚ
  driftPerDaySec : ℚ
  severity : SkewSeverity
  sampleCount : Nat
  calibrated : Bool
  lastAdvertTS : Int
  lastObservedTS : Int
  samples : List SkewSample
  goodFraction : ℚ
  recentBadSampleCount : Nat
  recentBadSamples : List BadSample
  recentSampleCount : Nat
  recentHashEvidence : List HashEvidence
  calibrationSummary : CalibrationSummary

/-- The engine after `Recompute`, and how slices are sorted. -/
structure ClockSkewEngine where
  nodeSkew : GoMap String HashSkew
  hashEvidence : GoMap String (List HashEvidenceEntry)
  sortSkews : SliceSort TsSkewPair.ts
  sortEvidence : SliceSort fun e : String × Int => OrderDual.toDual e.2

def txOriginatedBy (tx : TxRow) (pubkey : String) : Bool :=
  match tx.parsedDecoded with
  | none => false
  | some decoded =>
      match stringField decoded "pubKey" with
      | none => false
      | some pk => pk ≠ "" && toLower pk = toLower pubkey

def ownAdverts (txs : List StoreTx) (pubkey : String) : List StoreTx :=
  txs.filter fun tx => tx.payloadType = some payloadADVERT && txOriginatedBy tx.toTxRow pubkey

def latestTS (sorted : List TsSkewPair) : Int := (sorted.getLast?.map TsSkewPair.ts).getD 0

def windowStart (sorted : List TsSkewPair) : Nat :=
  max (sorted.length - recentSkewWindowCount)
    (sorted.length -
      (sorted.reverse.takeWhile fun p => latestTS sorted - p.ts ≤ recentSkewWindowSec).length)

def recentPairs (sorted : List TsSkewPair) : List TsSkewPair := sorted.drop (windowStart sorted)

def isReset (v : ℚ) : Bool := rtcResetOutlierThresholdSec < |v|

def isGood (v : ℚ) : Bool := |v| ≤ bimodalSkewThresholdSec

def goodSamples (recentVals : List ℚ) : List ℚ := recentVals.filter fun v => !isReset v && isGood v

def recentBadSamples (recent : List TsSkewPair) : List BadSample :=
  (recent.filter fun p => !isReset p.skew && !isGood p.skew && p.hash ≠ "").map fun p =>
    ⟨p.hash, p.advertTS, round p.skew 1⟩

def recentSampleCount (recentVals : List ℚ) : Nat := recentVals.length - recentVals.countP isReset

def goodFraction (recentVals : List ℚ) : ℚ :=
  if 0 < recentSampleCount recentVals then (goodSamples recentVals).length / recentSampleCount recentVals else 0

def verdict (recentVals : List ℚ) (recentSkew : ℚ) : SkewSeverity × ℚ :=
  let good := goodSamples recentVals
  let goodSkew := if 0 < good.length then median good else recentSkew
  if goodFraction recentVals < 10 / 100 then (.noClock, recentSkew)
  else if goodFraction recentVals < 80 / 100 ∧ 0 < recentSampleCount recentVals - good.length then
    (.bimodalClock, goodSkew)
  else (classifySkew |goodSkew|, goodSkew)

structure LastSample where
  lastSkew : ℚ
  lastObsTS : Int
  lastAdvTS : Int

def LastSample.next (last : LastSample) (cs : HashSkew) : LastSample :=
  if last.lastObsTS < cs.lastObservedTS then ⟨cs.lastSkewSec, cs.lastObservedTS, cs.lastAdvertTS⟩ else last

namespace ClockSkewEngine

variable (e : ClockSkewEngine)

def known (adverts : List StoreTx) : List (String × HashSkew) :=
  adverts.filterMap fun tx => (e.nodeSkew tx.hash).map fun cs => (tx.hash, cs)

def toPair (k : String × HashSkew) : TsSkewPair := ⟨k.2.lastObservedTS, k.2.medianSkewSec, k.1, k.2.lastAdvertTS⟩

def tsSkews (adverts : List StoreTx) : List TsSkewPair := (e.known adverts).map toPair

def evidenceOf (hash : String) : List HashEvidenceEntry := bucket e.hashEvidence hash

def obsNameMap (adverts : List StoreTx) : GoMap String String :=
  ((adverts.filter fun tx => e.evidenceOf tx.hash ≠ []).flatMap StoreTx.observations).foldl
    (fun m o => if o.observerID ≠ "" ∧ o.observerName ≠ "" then Maps.set m o.observerID o.observerName else m) Maps.empty

def evidenceHashes (adverts : List StoreTx) : List (String × Int) :=
  (e.sortEvidence.sort (adverts.filterMap fun tx =>
    (e.evidenceOf tx.hash).head?.map fun ev => (tx.hash, ev.observedTS))).take 10

def hashEvidenceMedian (vals : List ℚ) : ℚ := median (vals.filter fun v => |v| ≤ rtcResetOutlierThresholdSec)

def observerOf (names : GoMap String String) (ev : HashEvidenceEntry) : HashEvidenceObserver where
  observerID := ev.observerID
  observerName := if (names ev.observerID).getD "" = "" then ev.observerID else (names ev.observerID).getD ""
  rawSkewSec := ev.rawSkew
  correctedSkewSec := ev.corrected
  observerOffsetSec := ev.offset
  calibrated := ev.calibrated

def recentHashEvidence (adverts : List StoreTx) : List HashEvidence :=
  (e.evidenceHashes adverts).map fun eh =>
    { hash := eh.1
      observers := (e.evidenceOf eh.1).map (observerOf (e.obsNameMap adverts))
      medianCorrectedSkewSec := round (hashEvidenceMedian ((e.evidenceOf eh.1).map HashEvidenceEntry.corrected)) 1
      timestamp := eh.2 }

def calibrationSummary (adverts : List StoreTx) : CalibrationSummary :=
  let entries := (e.evidenceHashes adverts).flatMap fun eh => e.evidenceOf eh.1
  ⟨entries.length, entries.countP HashEvidenceEntry.calibrated, entries.countP fun ev => !ev.calibrated⟩

def driftOf (severity : SkewSeverity) (sorted : List TsSkewPair) : ℚ :=
  if severity ≠ .noClock ∧ severity ≠ .bimodalClock ∧ minDriftSamples ≤ sorted.length then
    if maxReasonableDriftPerDay < |computeDrift e.sortSkews sorted| then 0 else computeDrift e.sortSkews sorted
  else 0

/-- `computeDrift` sorts the pairs once more in place. -/
def sampled (severity : SkewSeverity) (sorted : List TsSkewPair) : List TsSkewPair :=
  if severity ≠ .noClock ∧ severity ≠ .bimodalClock ∧ minDriftSamples ≤ sorted.length then e.sortSkews.sort sorted
  else sorted

/-- `txs` is what `byNode` holds under the public key. -/
def getNodeClockSkewLocked (txs : List StoreTx) (pubkey : String) : Option NodeClockSkew :=
  let adverts := ownAdverts txs pubkey
  let skews := (e.known adverts).map fun k => k.2.medianSkewSec
  if skews = [] then none
  else
    let last : LastSample := (e.known adverts).foldl (fun last k => last.next k.2) ⟨0, 0, 0⟩
    let sorted := e.sortSkews.sort (e.tsSkews adverts)
    let recentVals := (recentPairs sorted).map TsSkewPair.skew
    let (severity, recentSkew) := verdict recentVals (median recentVals)
    some
      { pubkey := pubkey
        meanSkewSec := round (mean skews) 1
        medianSkewSec := round (median skews) 1
        lastSkewSec := round last.lastSkew 1
        recentMedianSkewSec := round recentSkew 1
        driftPerDaySec := round (e.driftOf severity sorted) 2
        severity := severity
        sampleCount := ((e.known adverts).map fun k => k.2.sampleCount).sum
        calibrated := (e.known adverts).any fun k => k.2.calibrated
        lastAdvertTS := last.lastAdvTS
        lastObservedTS := last.lastObsTS
        samples := (e.sampled severity sorted).map fun p => ⟨p.ts, round p.skew 1⟩
        goodFraction := round (goodFraction recentVals) 2
        recentBadSampleCount := recentSampleCount recentVals - (goodSamples recentVals).length
        recentBadSamples := recentBadSamples (recentPairs sorted)
        recentSampleCount := recentSampleCount recentVals
        recentHashEvidence := e.recentHashEvidence adverts
        calibrationSummary := e.calibrationSummary adverts }

end ClockSkewEngine

/-- A sample that is no reset has fewer than five samples behind it, and none of them an hour later. -/
def InView (sorted : List TsSkewPair) : Prop :=
  ∃ older p newer, sorted = older ++ p :: newer ∧ isReset p.skew = false ∧ newer.length < recentSkewWindowCount ∧
    ∀ q ∈ sorted, q.ts - p.ts ≤ recentSkewWindowSec

theorem le_latestTS {sorted : List TsSkewPair} (h : Ascending TsSkewPair.ts sorted) {q : TsSkewPair}
    (hq : q ∈ sorted) : q.ts ≤ latestTS sorted := by
  cases sorted with
  | nil => cases hq
  | cons first rest =>
      have hle := le_getLastD h hq
      rwa [latestTS, List.getLast?_cons, ← List.getLastD_eq_getLast?]

theorem latestTS_le_iff {sorted : List TsSkewPair} (h : Ascending TsSkewPair.ts sorted) (hne : sorted ≠ []) (t : Int) :
    latestTS sorted ≤ t ↔ ∀ q ∈ sorted, q.ts ≤ t := by
  constructor
  · intro hle q hq
    exact (le_latestTS h hq).trans hle
  · intro hall
    rw [latestTS, List.getLast?_eq_some_getLast hne]
    exact hall _ (List.getLast_mem hne)

theorem length_takeWhile_append {A : Type} {p : A → Bool} {l m : List A} {a : A}
    (h : p a = true → ∀ b ∈ l, p b = true) : l.length < ((l ++ a :: m).takeWhile p).length ↔ p a = true := by
  constructor
  · intro hlt
    by_contra hpa
    rw [List.takeWhile_append, List.takeWhile_cons_of_neg hpa] at hlt
    split at hlt
    · simp at hlt
    · exact absurd ((List.takeWhile_sublist p).length_le) (not_le.mpr hlt)
  · intro hpa
    rw [List.takeWhile_append_of_pos (h hpa), List.takeWhile_cons_of_pos hpa]
    simp

theorem windowStart_le_iff {older newer : List TsSkewPair} {p : TsSkewPair}
    (h : Ascending TsSkewPair.ts (older ++ p :: newer)) : windowStart (older ++ p :: newer) ≤ older.length ↔
      newer.length < recentSkewWindowCount ∧ ∀ q ∈ older ++ p :: newer, q.ts - p.ts ≤ recentSkewWindowSec := by
  have hne : older ++ p :: newer ≠ [] := by simp
  have hnewer : ∀ q ∈ newer, p.ts ≤ q.ts := fun q hq =>
    (List.pairwise_cons.mp (List.pairwise_append.mp h).2.1).1 q hq
  have hlatest := latestTS_le_iff h hne (p.ts + recentSkewWindowSec)
  have htime := length_takeWhile_append (l := newer.reverse) (m := older.reverse) (a := p)
    (p := fun q => latestTS (older ++ p :: newer) - q.ts ≤ recentSkewWindowSec) (by
      intro hp q hq
      have hle := hnewer q (List.mem_reverse.mp hq)
      simp only [decide_eq_true_eq] at hp ⊢
      omega)
  have hreverse : (older ++ p :: newer).reverse = newer.reverse ++ p :: older.reverse := by simp
  have hlength : (older ++ p :: newer).length = older.length + newer.length + 1 := by
    simp
    omega
  rw [← hreverse, List.length_reverse, decide_eq_true_eq] at htime
  rw [windowStart, max_le_iff, hlength]
  have hcond : latestTS (older ++ p :: newer) - p.ts ≤ recentSkewWindowSec ↔
      ∀ q ∈ older ++ p :: newer, q.ts - p.ts ≤ recentSkewWindowSec := by
    constructor
    · intro hle q hq
      have := hlatest.mp (by omega) q hq
      omega
    · intro hall
      have := hlatest.mpr fun q hq => (by have := hall q hq; omega)
      omega
  rw [← hcond, ← htime]
  refine and_congr ?_ ?_
  · rw [recentSkewWindowCount]
    omega
  · omega

theorem inView_iff {sorted : List TsSkewPair} (h : Ascending TsSkewPair.ts sorted) :
    (∃ p ∈ recentPairs sorted, isReset p.skew = false) ↔ InView sorted := by
  constructor
  · rintro ⟨p, hp, hreset⟩
    obtain ⟨a, newer, hsplit⟩ := List.append_of_mem hp
    have hsorted : sorted = (sorted.take (windowStart sorted) ++ a) ++ p :: newer := by
      rw [List.append_assoc, ← hsplit, recentPairs, List.take_append_drop]
    have hle : windowStart ((sorted.take (windowStart sorted) ++ a) ++ p :: newer) ≤
        (sorted.take (windowStart sorted) ++ a).length := by
      rw [← hsorted, List.length_append, List.length_take]
      have hlength := congrArg List.length hsplit
      rw [recentPairs, List.length_drop, List.length_append, List.length_cons] at hlength
      omega
    obtain ⟨hcount, htime⟩ := (windowStart_le_iff (hsorted ▸ h)).mp hle
    rw [← hsorted] at htime
    exact ⟨_, p, newer, hsorted, hreset, hcount, htime⟩
  · rintro ⟨older, p, newer, rfl, hreset, hcount, htime⟩
    refine ⟨p, ?_, hreset⟩
    rw [recentPairs, List.drop_append_of_le_length ((windowStart_le_iff h).mpr ⟨hcount, htime⟩)]
    simp

theorem isGood_of_mem_goodSamples {recentVals : List ℚ} {v : ℚ} (hv : v ∈ goodSamples recentVals) :
    isGood v = true := (Bool.and_eq_true_iff.mp (List.mem_filter.mp hv).2).2

theorem goodSamples_subperm {sorted samples : List TsSkewPair} (h : sorted.Perm samples) :
    (goodSamples ((recentPairs sorted).map TsSkewPair.skew)).Subperm (samples.map TsSkewPair.skew) := by
  have hsub : (goodSamples ((recentPairs sorted).map TsSkewPair.skew)).Sublist (sorted.map TsSkewPair.skew) :=
    List.filter_sublist.trans ((List.drop_sublist _ _).map _)
  exact hsub.subperm.trans (h.map _).subperm

section

variable {recentVals : List ℚ} (h : ∀ v ∈ recentVals, isReset v = false → isGood v = true)

include h

theorem goodSamples_eq : goodSamples recentVals = recentVals.filter fun v => !isReset v := by
  apply List.filter_congr
  intro v hv
  cases hreset : isReset v with
  | true => rfl
  | false => simp [h v hv hreset]

theorem length_goodSamples : (goodSamples recentVals).length = recentSampleCount recentVals := by
  rw [goodSamples_eq h, ← List.countP_eq_length_filter, recentSampleCount]
  have hall := List.length_eq_countP_add_countP isReset (l := recentVals)
  have hnot : recentVals.countP (fun v => !isReset v) = recentVals.countP fun v => decide ¬isReset v = true := by
    apply List.countP_congr
    intro v _
    simp
  omega

theorem verdict_of_good (hone : ∃ v ∈ recentVals, isReset v = false) (recentSkew : ℚ) :
    verdict recentVals recentSkew = (classifySkew |median (goodSamples recentVals)|, median (goodSamples recentVals)) := by
  obtain ⟨v, hv, hreset⟩ := hone
  have hmem : v ∈ goodSamples recentVals := by
    rw [goodSamples_eq h]
    exact List.mem_filter.mpr ⟨hv, by simp [hreset]⟩
  have hpos : 0 < (goodSamples recentVals).length := List.length_pos_of_mem hmem
  have hfraction : goodFraction recentVals = 1 := by
    rw [goodFraction, ← length_goodSamples h, if_pos hpos]
    exact div_self (Nat.cast_ne_zero.mpr (by omega))
  have hlow : ¬ (1 : ℚ) < 10 / 100 := by norm_num
  have hhigh : ¬ ((1 : ℚ) < 80 / 100 ∧ 0 < recentSampleCount recentVals - (goodSamples recentVals).length) := by
    norm_num
  simp only [verdict, hfraction, if_neg hlow, if_neg hhigh, if_pos hpos]

theorem verdict_of_resets (hnone : ∀ v ∈ recentVals, isReset v = true) (recentSkew : ℚ) :
    (verdict recentVals recentSkew).1 = .noClock := by
  have hnil : goodSamples recentVals = [] := by
    rw [goodSamples_eq h, List.filter_eq_nil_iff]
    intro v hv
    simp [hnone v hv]
  have hzero : recentSampleCount recentVals = 0 := by rw [← length_goodSamples h, hnil, List.length_nil]
  have hfraction : goodFraction recentVals = 0 := by rw [goodFraction, hzero, if_neg (lt_irrefl 0)]
  have hlow : (0 : ℚ) < 10 / 100 := by norm_num
  simp only [verdict, hfraction, if_pos hlow]

end

theorem classifySkew_good {v : ℚ} (h : |v| ≤ bimodalSkewThresholdSec) :
    classifySkew |v| ≠ .noClock ∧ classifySkew |v| ≠ .bimodalClock := by
  have hclock : ¬ skewThresholdNoClockSec ≤ |v| := by
    rw [skewThresholdNoClockSec]
    rw [bimodalSkewThresholdSec] at h
    linarith
  constructor <;>
  · rw [classifySkew, if_neg hclock]
    split_ifs <;> decide

theorem abs_median_le {vals : List ℚ} (hne : vals ≠ []) (h : ∀ v ∈ vals, isGood v = true) :
    |median vals| ≤ bimodalSkewThresholdSec := by
  rw [abs_le]
  apply median_mem_Icc hne
  intro v hv
  rw [← abs_le]
  exact of_decide_eq_true (h v hv)

/-- The verdict is that of the good samples. -/
structure Reliable (samples : List TsSkewPair) (v : NodeClockSkew) : Prop where
  clock : v.severity ≠ .noClock
  bimodal : v.severity ≠ .bimodalClock
  recent : ∃ good : List ℚ, good ≠ [] ∧ good.Subperm (samples.map TsSkewPair.skew) ∧
    (∀ s ∈ good, isGood s = true) ∧ v.recentMedianSkewSec = round (median good) 1

/-- Resets do not decide the verdict if and only if one of the other samples is in view. -/
theorem reliable_iff (e : ClockSkewEngine) (txs : List StoreTx) (pubkey : String)
    (hgood : ∀ p ∈ e.tsSkews (ownAdverts txs pubkey), isReset p.skew = false → isGood p.skew = true)
    (hone : ∃ p ∈ e.tsSkews (ownAdverts txs pubkey), isReset p.skew = false) :
    (∃ v, e.getNodeClockSkewLocked txs pubkey = some v ∧ Reliable (e.tsSkews (ownAdverts txs pubkey)) v) ↔
      InView (e.sortSkews.sort (e.tsSkews (ownAdverts txs pubkey))) := by
  have hperm := e.sortSkews.perm (e.tsSkews (ownAdverts txs pubkey))
  have hskews : (e.known (ownAdverts txs pubkey)).map (fun k => k.2.medianSkewSec) ≠ [] := by
    obtain ⟨p, hp, _⟩ := hone
    intro hnil
    rw [List.map_eq_nil_iff] at hnil
    rw [ClockSkewEngine.tsSkews, hnil] at hp
    cases hp
  have hrecent : ∀ p ∈ recentPairs (e.sortSkews.sort (e.tsSkews (ownAdverts txs pubkey))),
      p ∈ e.tsSkews (ownAdverts txs pubkey) := fun p hp => hperm.mem_iff.mp (List.mem_of_mem_drop hp)
  have hvals : ∀ v ∈ (recentPairs (e.sortSkews.sort (e.tsSkews (ownAdverts txs pubkey)))).map TsSkewPair.skew,
      isReset v = false → isGood v = true := by
    intro v hv
    obtain ⟨p, hp, rfl⟩ := List.mem_map.mp hv
    exact hgood p (hrecent p hp)
  rw [← inView_iff (e.sortSkews.ascending _)]
  simp only [ClockSkewEngine.getNodeClockSkewLocked, if_neg hskews, Option.some.injEq, exists_eq_left']
  constructor
  · intro hreliable
    by_contra hnone
    simp only [not_exists, not_and, Bool.not_eq_false] at hnone
    refine hreliable.clock (verdict_of_resets hvals ?_ _)
    intro v hv
    obtain ⟨p, hp, rfl⟩ := List.mem_map.mp hv
    exact hnone p hp
  · rintro ⟨p, hp, hreset⟩
    have hview := List.mem_map_of_mem (f := TsSkewPair.skew) hp
    have hmem : p.skew ∈ goodSamples
        ((recentPairs (e.sortSkews.sort (e.tsSkews (ownAdverts txs pubkey)))).map TsSkewPair.skew) :=
      List.mem_filter.mpr ⟨hview, by simp [hreset, hgood p (hrecent p hp) hreset]⟩
    have hne := List.ne_nil_of_mem hmem
    obtain ⟨hclock, hbimodal⟩ := classifySkew_good (abs_median_le hne fun _ => isGood_of_mem_goodSamples)
    rw [verdict_of_good hvals ⟨p.skew, hview, hreset⟩]
    exact ⟨hclock, hbimodal, _, hne, goodSamples_subperm hperm, fun _ => isGood_of_mem_goodSamples, rfl⟩

def advert (id : Int) (hash : String) : StoreTx :=
  StoreTx.ofRow { plainTx id hash "" 4 with decodedJSON := "\x7b\"pubKey\":\"aa\"\x7d" }

def skewOf (skew : ℚ) (ts : Int) : HashSkew := ⟨skew, skew, 1, false, ts, ts⟩

def resetLater : ClockSkewEngine where
  nodeSkew := Maps.set (Maps.set Maps.empty "h1" (skewOf 1 0)) "h2" (skewOf 50000000 7200)
  hashEvidence := Maps.empty
  sortSkews := SliceSort.insertion _
  sortEvidence := SliceSort.insertion _

theorem reliable_iff_resetLater :
    (∃ v, resetLater.getNodeClockSkewLocked [advert 1 "h1", advert 2 "h2"] "aa" = some v ∧
      Reliable (resetLater.tsSkews (ownAdverts [advert 1 "h1", advert 2 "h2"] "aa")) v) ↔
        InView (resetLater.sortSkews.sort (resetLater.tsSkews (ownAdverts [advert 1 "h1", advert 2 "h2"] "aa"))) :=
  reliable_iff resetLater [advert 1 "h1", advert 2 "h2"] "aa" (by decide +kernel) (by decide +kernel)

theorem reset_decides :
    (∃ p ∈ resetLater.tsSkews (ownAdverts [advert 1 "h1", advert 2 "h2"] "aa"), isReset p.skew = false) ∧
      (∀ p ∈ resetLater.tsSkews (ownAdverts [advert 1 "h1", advert 2 "h2"] "aa"),
        isReset p.skew = false → isGood p.skew = true) ∧
      (resetLater.getNodeClockSkewLocked [advert 1 "h1", advert 2 "h2"] "aa").map NodeClockSkew.severity =
        some .noClock := by
  decide +kernel

end MeshcoreAnalyzer.ClockVerdict

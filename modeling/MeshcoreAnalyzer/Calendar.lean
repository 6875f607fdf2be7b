import MeshcoreAnalyzer.Timestamps
import Mathlib.Data.String.Basic

namespace MeshcoreAnalyzer.Calendar

open Timestamps

/-! Dates of the Gregorian calendar as the time package counts them, and the RFC 3339
texts of whole seconds. -/

def leap (year : Int) : Bool := year % 4 == 0 && (year % 100 != 0 || year % 400 == 0)

def daysBeforeYear (year : Int) : Int :=
  365 * (year - 1) + (year - 1) / 4 - (year - 1) / 100 + (year - 1) / 400

def yearOf (n : Int) : Int :=
  let c := n % 146097 / 36524
  let c := c - c / 4
  let d := n % 146097 - 36524 * c
  let q := d / 1461
  let d := d - 1461 * q
  let r := d / 365
  let r := r - r / 4
  400 * (n / 146097) + 100 * c + 4 * q + r + 1

def yearDay (n : Int) : Nat := (n - daysBeforeYear (yearOf n)).toNat

def daysBeforeMonth (month : Nat) : Nat :=
  [0, 31, 59, 90, 120, 151, 181, 212, 243, 273, 304, 334, 365].getD month 0

def monthDay (leap : Bool) (yday : Nat) : Nat × Nat :=
  if leap ∧ yday = 59 then (2, 29)
  else
    let day := if leap ∧ 59 < yday then yday - 1 else yday
    let month := day / 31
    if daysBeforeMonth (month + 1) ≤ day then (month + 2, day - daysBeforeMonth (month + 1) + 1)
    else (month + 1, day - daysBeforeMonth month + 1)

def dayOf (e : Int) : Int := e / 86400 + 719162

def momentOf (e : Int) : Moment where
  year := (yearOf (dayOf e)).toNat
  month := (monthDay (leap (yearOf (dayOf e))) (yearDay (dayOf e))).1
  day := (monthDay (leap (yearOf (dayOf e))) (yearDay (dayOf e))).2
  hour := (e % 86400 / 3600).toNat
  minute := (e % 3600 / 60).toNat
  second := (e % 60).toNat
  millis := 0

def yearText (year : Int) : List Char :=
  (if year < 0 then ['-'] else []) ++
    if year.natAbs < 10000 then pad4 year.natAbs else Nat.toDigits 10 year.natAbs

def clockText (t : Moment) : List Char :=
  '-' :: (pad2 t.month ++ '-' :: (pad2 t.day ++ 'T' :: (pad2 t.hour ++ ':' :: (pad2 t.minute ++ ':' ::
    (pad2 t.second ++ ['Z'])))))

/-- `time.Unix(e, 0).UTC().Format(time.RFC3339)` -/
def stamp (e : Int) : String := String.ofList (yearText (yearOf (dayOf e)) ++ clockText (momentOf e))

def firstStamp : Int := -62167219200

/-- The first second of the year before, in which the year 0 starts east of UTC. -/
def earliestStamp : Int := firstStamp - 31536000

def lastStamp : Int := 253402300799

theorem firstStamp_le {e : Int} (h : 0 ≤ e) : firstStamp ≤ e := le_trans (by decide) h

theorem earliestStamp_le {e : Int} (h : firstStamp ≤ e) : earliestStamp ≤ e := le_trans (by decide) h

theorem leap_iff (year : Int) : leap year = true ↔ year % 4 = 0 ∧ (year % 100 ≠ 0 ∨ year % 400 = 0) := by
  simp [leap]

theorem daysBeforeYear_succ (year : Int) :
    daysBeforeYear (year + 1) = daysBeforeYear year + if leap year then 366 else 365 := by
  rw [daysBeforeYear, daysBeforeYear]
  split
  · next h =>
    have h := (leap_iff year).mp h
    omega
  · next h =>
    have h := mt (leap_iff year).mpr h
    omega

theorem daysBeforeYear_mono {y y' : Int} (h : y ≤ y') : daysBeforeYear y ≤ daysBeforeYear y' := by
  rw [daysBeforeYear, daysBeforeYear]
  omega

section Cycles

variable {a c q r : Int} (hc : 0 ≤ c ∧ c ≤ 3) (hq : 0 ≤ q ∧ q ≤ 24) (hr : 0 ≤ r ∧ r ≤ 3)
include hc hq hr

theorem daysBeforeYear_cycles :
    daysBeforeYear (400 * a + 100 * c + 4 * q + r + 1) = 146097 * a + 36524 * c + 1461 * q + 365 * r := by
  have h4 : (400 * a + 100 * c + 4 * q + r + 1 - 1) / 4 = 100 * a + 25 * c + q := by omega
  have h100 : (400 * a + 100 * c + 4 * q + r + 1 - 1) / 100 = 4 * a + c := by omega
  have h400 : (400 * a + 100 * c + 4 * q + r + 1 - 1) / 400 = a := by omega
  rw [daysBeforeYear, h4, h100, h400]
  omega

theorem leap_cycles : leap (400 * a + 100 * c + 4 * q + r + 1) = true ↔ r = 3 ∧ (q ≠ 24 ∨ c = 3) := by
  rw [leap_iff]
  omega

end Cycles

theorem yearOf_spec (n : Int) : daysBeforeYear (yearOf n) ≤ n ∧ n < daysBeforeYear (yearOf n + 1) := by
  obtain ⟨c, hc⟩ : ∃ c, c = n % 146097 / 36524 - n % 146097 / 36524 / 4 := ⟨_, rfl⟩
  obtain ⟨d, hd⟩ : ∃ d, d = n % 146097 - 36524 * c := ⟨_, rfl⟩
  obtain ⟨q, hq⟩ : ∃ q, q = d / 1461 := ⟨_, rfl⟩
  obtain ⟨r, hr⟩ : ∃ r, r = (d - 1461 * q) / 365 - (d - 1461 * q) / 365 / 4 := ⟨_, rfl⟩
  have hyear : yearOf n = 400 * (n / 146097) + 100 * c + 4 * q + r + 1 := by
    rw [yearOf, hr, hq, hd, hc]
  have hcbound : 0 ≤ c ∧ c ≤ 3 := by omega
  have hqbound : 0 ≤ q ∧ q ≤ 24 := by omega
  have hrbound : 0 ≤ r ∧ r ≤ 3 := by omega
  have hleap := leap_cycles (a := n / 146097) hcbound hqbound hrbound
  rw [daysBeforeYear_succ, hyear, daysBeforeYear_cycles hcbound hqbound hrbound]
  refine ⟨by omega, ?_⟩
  split
  · omega
  · next h =>
    have h := mt hleap.mpr h
    omega

theorem yearOf_mono {n n' : Int} (h : n ≤ n') : yearOf n ≤ yearOf n' := by
  by_contra hlt
  have hmono : daysBeforeYear (yearOf n' + 1) ≤ daysBeforeYear (yearOf n) := daysBeforeYear_mono (by omega)
  have hlow := (yearOf_spec n).1
  have hhigh := (yearOf_spec n').2
  omega

def yearLength (leap : Bool) : Nat := if leap then 366 else 365

theorem yearDay_spec (n : Int) :
    n = daysBeforeYear (yearOf n) + yearDay n ∧ yearDay n < yearLength (leap (yearOf n)) := by
  obtain ⟨hlow, hhigh⟩ := yearOf_spec n
  rw [daysBeforeYear_succ] at hhigh
  rw [yearDay, yearLength]
  split at hhigh
  · next h =>
    rw [if_pos h]
    omega
  · next h =>
    rw [if_neg h]
    omega

def monthLength (leap : Bool) (month : Nat) : Nat :=
  if month = 2 then (if leap then 29 else 28)
  else if month = 4 ∨ month = 6 ∨ month = 9 ∨ month = 11 then 30
  else 31

def daysBeforeMonthIn (leap : Bool) (month : Nat) : Nat :=
  ((List.range (month - 1)).map fun m => monthLength leap (m + 1)).sum

def IsDate (leap : Bool) (yday : Nat) (date : Nat × Nat) : Prop :=
  1 ≤ date.1 ∧ date.1 ≤ 12 ∧ 1 ≤ date.2 ∧ date.2 ≤ monthLength leap date.1 ∧
    daysBeforeMonthIn leap date.1 + date.2 = yday + 1

instance (leap : Bool) (yday : Nat) (date : Nat × Nat) : Decidable (IsDate leap yday date) := by
  rw [IsDate]
  infer_instance

theorem monthDay_spec (leap : Bool) {yday : Nat} (h : yday < yearLength leap) : IsDate leap yday (monthDay leap yday) := by
  have htable : (List.range (yearLength leap)).all (fun i => decide (IsDate leap i (monthDay leap i))) = true := by
    cases leap <;> decide +kernel
  exact of_decide_eq_true (List.all_eq_true.mp htable yday (List.mem_range.mpr h))

def dateCode (date : Nat × Nat) : Nat := 32 * date.1 + date.2

theorem dateCode_lt (leap : Bool) {i j : Nat} (hij : i < j) (hj : j < 366) :
    dateCode (monthDay leap i) < dateCode (monthDay leap j) := by
  have htable : (List.range 365).all
      (fun i => decide (dateCode (monthDay leap i) < dateCode (monthDay leap (i + 1)))) = true := by
    cases leap <;> decide +kernel
  have hnext : ∀ i < 365, dateCode (monthDay leap i) < dateCode (monthDay leap (i + 1)) := fun i hi =>
    of_decide_eq_true (List.all_eq_true.mp htable i (List.mem_range.mpr hi))
  induction j, hij using Nat.le_induction with
  | base => exact hnext i (by omega)
  | succ j hij ih => exact (ih (by omega)).trans (hnext j (by omega))

theorem daysIn_eq (month year : Nat) : daysIn month year = monthLength (leap year) month := by
  have hleap : isLeap year = leap year := by
    rw [Bool.eq_iff_iff, leap_iff, isLeap]
    simp
    omega
  rw [daysIn, monthLength, hleap]

theorem momentOf_year {e : Int} (h : firstStamp ≤ e) : ((momentOf e).year : Int) = yearOf (dayOf e) := by
  have hmono : yearOf (dayOf firstStamp) ≤ yearOf (dayOf e) := yearOf_mono (by rw [dayOf, dayOf]; omega)
  have hfirst : yearOf (dayOf firstStamp) = 0 := by decide
  exact Int.toNat_of_nonneg (by omega)

theorem momentOf_small (e : Int) : (momentOf e).month < 100 ∧ (momentOf e).day < 100 ∧
    (momentOf e).hour < 24 ∧ (momentOf e).minute < 60 ∧ (momentOf e).second < 60 ∧ (momentOf e).day < 32 := by
  obtain ⟨-, hmonth, -, hday, -⟩ := monthDay_spec _ (yearDay_spec (dayOf e)).2
  change (momentOf e).month ≤ 12 at hmonth
  change (momentOf e).day ≤ monthLength _ (momentOf e).month at hday
  have hlength : monthLength (leap (yearOf (dayOf e))) (momentOf e).month ≤ 31 := by
    rw [monthLength]
    split
    · split <;> omega
    · split <;> omega
  have hhour : (momentOf e).hour < 24 := by
    change (e % 86400 / 3600).toNat < 24
    omega
  have hminute : (momentOf e).minute < 60 := by
    change (e % 3600 / 60).toNat < 60
    omega
  have hsecond : (momentOf e).second < 60 := by
    change (e % 60).toNat < 60
    omega
  omega

theorem momentOf_valid {e : Int} (h : firstStamp ≤ e) : 1 ≤ (momentOf e).month ∧ (momentOf e).month ≤ 12 ∧
    1 ≤ (momentOf e).day ∧ (momentOf e).day ≤ daysIn (momentOf e).month (momentOf e).year ∧
    (momentOf e).hour < 24 ∧ (momentOf e).minute < 60 ∧ (momentOf e).second < 60 := by
  obtain ⟨hmonth, hmonth', hday, hday', -⟩ := monthDay_spec _ (yearDay_spec (dayOf e)).2
  obtain ⟨-, -, hhour, hminute, hsecond, -⟩ := momentOf_small e
  rw [daysIn_eq, momentOf_year h]
  exact ⟨hmonth, hmonth', hday, hday', hhour, hminute, hsecond⟩

theorem unixDay_momentOf {e : Int} (h : firstStamp ≤ e) :
    unixDay (momentOf e).year (momentOf e).month (momentOf e).day = e / 86400 := by
  obtain ⟨hday, hlen⟩ := yearDay_spec (dayOf e)
  obtain ⟨-, -, -, -, hsum⟩ := monthDay_spec _ hlen
  have hbefore : ((List.range ((momentOf e).month - 1)).map fun m => daysIn (m + 1) (momentOf e).year).sum =
      daysBeforeMonthIn (leap (yearOf (dayOf e))) (momentOf e).month := by
    rw [daysBeforeMonthIn]
    apply congrArg List.sum
    apply List.map_congr_left
    intro m _
    rw [daysIn_eq, momentOf_year h]
  rw [unixDay, hbefore, momentOf_year h]
  rw [daysBeforeYear] at hday
  have hdate : (momentOf e).day = (monthDay (leap (yearOf (dayOf e))) (yearDay (dayOf e))).2 := rfl
  have hmonth : (momentOf e).month = (monthDay (leap (yearOf (dayOf e))) (yearDay (dayOf e))).1 := rfl
  rw [← hdate, ← hmonth] at hsum
  have hdef : dayOf e = e / 86400 + 719162 := rfl
  omega

theorem date_momentOf {e : Int} (h : firstStamp ≤ e) : date (momentOf e) 0 0 = e * second := by
  rw [date, unixDay_momentOf h]
  have hhour : ((momentOf e).hour : Int) = e % 86400 / 3600 := Int.toNat_of_nonneg (by omega)
  have hminute : ((momentOf e).minute : Int) = e % 3600 / 60 := Int.toNat_of_nonneg (by omega)
  have hsecond : ((momentOf e).second : Int) = e % 60 := Int.toNat_of_nonneg (by omega)
  rw [hhour, hminute, hsecond]
  have hsum : ((e / 86400 * 24 + e % 86400 / 3600) * 60 + e % 3600 / 60) * 60 + e % 60 - 0 = e := by omega
  rw [hsum, Nat.cast_zero, add_zero]

theorem digit_spec (n : Nat) : (digit n).isDigit = true ∧ digitValue (digit n) = n % 10 := by
  have htable : (List.range 10).all (fun d => (Char.ofNat (48 + d)).isDigit && digitValue (Char.ofNat (48 + d)) == d) =
      true := by
    decide
  have hd := List.all_eq_true.mp htable (n % 10) (List.mem_range.mpr (Nat.mod_lt _ (by decide)))
  rw [Bool.and_eq_true, beq_iff_eq] at hd
  exact hd

theorem getnum_pad2 (fixed : Bool) {n : Nat} (h : n < 100) (rest : List Char) :
    getnum fixed (pad2 n ++ rest) = some (n, rest) := by
  have hvalue : 10 * (n / 10 % 10) + n % 10 = n := by omega
  rw [pad2, List.cons_append, List.cons_append, List.nil_append, getnum, (digit_spec (n / 10)).1, (digit_spec n).1,
    (digit_spec (n / 10)).2, (digit_spec n).2, hvalue]
  rfl

theorem getyear_pad4 {n : Nat} (h : n < 10000) (rest : List Char) : getyear (pad4 n ++ rest) = some (n, rest) := by
  have hvalue : 1000 * (n / 1000 % 10) + 100 * (n / 100 % 10) + 10 * (n / 10 % 10) + n % 10 = n := by omega
  rw [pad4, pad3, pad2]
  simp only [List.cons_append, List.nil_append]
  rw [getyear, (digit_spec (n / 1000)).1, (digit_spec (n / 100)).1, (digit_spec (n / 10)).1, (digit_spec n).1,
    (digit_spec (n / 1000)).2, (digit_spec (n / 100)).2, (digit_spec (n / 10)).2, (digit_spec n).2, hvalue]
  rfl

theorem skip_cons (c : Char) (rest : List Char) : skip c (c :: rest) = some rest := if_pos rfl

theorem dateTimeT_momentOf {e : Int} (h : firstStamp ≤ e) (hyear : (momentOf e).year < 10000) :
    dateTimeT (pad4 (momentOf e).year ++ clockText (momentOf e)) = some (momentOf e, ['Z']) := by
  have hvalid := momentOf_valid h
  obtain ⟨hmonth, hday, hhour, hminute, hsecond, -⟩ := momentOf_small e
  rw [dateTimeT, clockText, getyear_pad4 hyear]
  simp only [bind, Option.bind, skip_cons, getnum_pad2 _ hmonth, getnum_pad2 _ hday, getnum_pad2 _ (hhour.trans (by decide)),
    getnum_pad2 _ (hminute.trans (by decide)), getnum_pad2 _ (hsecond.trans (by decide))]
  rw [if_pos hvalid]
  rfl

theorem yearText_of_nat {n : Nat} (h : n < 10000) : yearText n = pad4 n := by
  rw [yearText, if_neg (by omega), Int.natAbs_natCast, if_pos h]
  rfl

theorem year_lt {e : Int} (hlast : e ≤ lastStamp) : yearOf (dayOf e) < 10000 := by
  have hmono : yearOf (dayOf e) ≤ yearOf (dayOf lastStamp) := yearOf_mono (by rw [dayOf, dayOf]; omega)
  have hend : yearOf (dayOf lastStamp) = 9999 := by decide
  omega

theorem momentOf_year_lt {e : Int} (h : firstStamp ≤ e) (hlast : e ≤ lastStamp) : (momentOf e).year < 10000 := by
  have hyear := momentOf_year h
  have hlt := year_lt hlast
  omega

theorem stamp_eq {e : Int} (h : firstStamp ≤ e) (hlast : e ≤ lastStamp) :
    stamp e = String.ofList (pad4 (momentOf e).year ++ clockText (momentOf e)) := by
  rw [stamp, ← momentOf_year h, yearText_of_nat (momentOf_year_lt h hlast)]

theorem parseRFC3339_stamp {e : Int} (h : firstStamp ≤ e) (hlast : e ≤ lastStamp) : parseRFC3339 (stamp e) = some (e * second) := by
  rw [stamp_eq h hlast, parseRFC3339, String.toList_ofList, dateTimeT_momentOf h (momentOf_year_lt h hlast)]
  exact congrArg some (date_momentOf h)

theorem day_pos {s : List Char} {t : Moment} {rest : List Char} (h : dateTimeT s = some (t, rest)) : 1 ≤ t.day := by
  rw [dateTimeT] at h
  simp only [Option.bind_eq_bind, Option.bind_eq_some_iff, Prod.exists] at h
  obtain ⟨_, _, -, _, -, _, _, -, _, -, _, _, -, _, -, _, _, -, _, -, _, _, -, _, -, _, _, -, h⟩ := h
  split at h
  · next hvalid =>
    rw [Option.some.injEq, Prod.mk.injEq] at h
    rw [← h.1]
    exact hvalid.2.2.1
  · cases h

theorem zone_le {s : List Char} {offset : Int} (h : zone s = some offset) : offset ≤ 90000 := by
  rw [zone.eq_def] at h
  split at h
  · cases h
    decide
  · simp only [Option.bind_eq_bind, Option.bind_eq_some_iff, Prod.exists] at h
    obtain ⟨hr, _, -, mm, _, -, h⟩ := h
    split at h
    · cases h
    split at h
    · cases h
      omega
    split at h
    · cases h
      omega
    · cases h
  · cases h

theorem unixDay_ge (year month : Nat) {day : Nat} (hday : 1 ≤ day) : -719528 ≤ unixDay year month day := by
  rw [unixDay]
  omega

theorem parseRFC3339_ge {s : String} {t : Int} (h : parseRFC3339 s = some t) : earliestStamp ≤ t / second := by
  rw [parseRFC3339] at h
  simp only [Option.bind_eq_bind, Option.bind_eq_some_iff, Prod.exists] at h
  obtain ⟨m, rest, hdate, offset, hzone, h⟩ := h
  have hday := unixDay_ge m.year m.month (day_pos hdate)
  have hoffset := zone_le hzone
  rw [Option.some.injEq, date] at h
  have hsecond : second = 1000000000 := rfl
  have hearliest : earliestStamp = -62198755200 := rfl
  rw [hsecond] at h
  rw [hearliest, hsecond]
  omega
theorem append_lt_append {a a' b b' : List Char} (hlen : a.length = a'.length) (h : a < a' ∨ a = a' ∧ b < b') :
    a ++ b < a' ++ b' := by
  induction a generalizing a' with
  | nil =>
      rcases h with hlt | ⟨rfl, hlt⟩
      · rw [List.length_eq_zero_iff.mp hlen.symm] at hlt
        exact absurd hlt (lt_irrefl _)
      · exact hlt
  | cons c a ih =>
      match a', hlen with
      | c' :: a', hlen =>
          rw [List.cons_append, List.cons_append, List.cons_lt_cons_iff]
          rcases h with hlt | ⟨heq, hlt⟩
          · rcases List.cons_lt_cons_iff.mp hlt with hc | ⟨hc, hrest⟩
            · exact .inl hc
            · exact .inr ⟨hc, ih (Nat.succ.inj hlen) (.inl hrest)⟩
          · rw [List.cons.injEq] at heq
            exact .inr ⟨heq.1, ih (Nat.succ.inj hlen) (.inr ⟨heq.2, hlt⟩)⟩

theorem digit_lt {n m : Nat} (h : n % 10 < m % 10) : digit n < digit m := by
  have htable : (List.range 10).all (fun i => (List.range i).all fun j => decide (Char.ofNat (48 + j) < Char.ofNat (48 + i))) =
      true := by
    decide +kernel
  have hm := List.all_eq_true.mp htable (m % 10) (List.mem_range.mpr (Nat.mod_lt _ (by decide)))
  exact of_decide_eq_true (List.all_eq_true.mp hm (n % 10) (List.mem_range.mpr h))

theorem digit_congr {n m : Nat} (h : n % 10 = m % 10) : digit n = digit m := by rw [digit, h, digit]

theorem pad2_lt {n m : Nat} (h : n % 100 < m % 100) : pad2 n < pad2 m := by
  rw [pad2, pad2, List.cons_lt_cons_iff, List.cons_lt_cons_iff]
  by_cases hten : n / 10 % 10 < m / 10 % 10
  · exact .inl (digit_lt hten)
  · exact .inr ⟨digit_congr (by omega), .inl (digit_lt (by omega))⟩

theorem pad4_lt {n m : Nat} (h : n < m) (hm : m < 10000) : pad4 n < pad4 m := by
  rw [pad4, pad4, pad3, pad3, List.cons_lt_cons_iff, List.cons_lt_cons_iff]
  by_cases hthousand : n / 1000 % 10 < m / 1000 % 10
  · exact .inl (digit_lt hthousand)
  · refine .inr ⟨digit_congr (by omega), ?_⟩
    by_cases hhundred : n / 100 % 10 < m / 100 % 10
    · exact .inl (digit_lt hhundred)
    · exact .inr ⟨digit_congr (by omega), pad2_lt (by omega)⟩

theorem field_lt {n m : Nat} (hn : n < 100) (hm : m < 100) {c : Char} {rest rest' : List Char}
    (h : n < m ∨ n = m ∧ rest < rest') : c :: (pad2 n ++ rest) < c :: (pad2 m ++ rest') := by
  rw [List.cons_lt_cons_iff]
  refine .inr ⟨rfl, append_lt_append rfl ?_⟩
  rcases h with hlt | ⟨rfl, hlt⟩
  · exact .inl (pad2_lt (by omega))
  · exact .inr ⟨rfl, hlt⟩

theorem yearText_lt {y y' : Int} (h : -1 ≤ y) (hlt : y < y') (hy' : y' < 10000) (rest rest' : List Char) :
    yearText y ++ rest < yearText y' ++ rest' := by
  obtain ⟨n', rfl⟩ := Int.eq_ofNat_of_zero_le (by omega : 0 ≤ y')
  rw [yearText_of_nat (by omega : n' < 10000)]
  rcases lt_or_ge y 0 with hneg | hnonneg
  · have hy : y = -1 := by omega
    have hsign : ∀ n, '-' < digit n := by
      intro n
      have htable : (List.range 10).all (fun d => decide ('-' < Char.ofNat (48 + d))) = true := by decide
      exact of_decide_eq_true (List.all_eq_true.mp htable (n % 10) (List.mem_range.mpr (Nat.mod_lt _ (by decide))))
    rw [hy]
    change '-' :: (pad4 1 ++ rest) < digit (n' / 1000) :: (pad3 n' ++ rest')
    rw [List.cons_lt_cons_iff]
    exact .inl (hsign _)
  · obtain ⟨n, rfl⟩ := Int.eq_ofNat_of_zero_le hnonneg
    rw [yearText_of_nat (by omega : n < 10000)]
    exact append_lt_append rfl (.inl (pad4_lt (by omega) (by omega)))

theorem momentOf_lt {e e' : Int} (hlt : e < e') :
    yearOf (dayOf e) < yearOf (dayOf e') ∨ yearOf (dayOf e) = yearOf (dayOf e') ∧
      ((momentOf e).month < (momentOf e').month ∨ (momentOf e).month = (momentOf e').month ∧
        ((momentOf e).day < (momentOf e').day ∨ (momentOf e).day = (momentOf e').day ∧
          ((momentOf e).hour < (momentOf e').hour ∨ (momentOf e).hour = (momentOf e').hour ∧
            ((momentOf e).minute < (momentOf e').minute ∨ (momentOf e).minute = (momentOf e').minute ∧
              (momentOf e).second < (momentOf e').second)))) := by
  have hdays : dayOf e ≤ dayOf e' := by
    rw [dayOf, dayOf]
    omega
  rcases lt_or_eq_of_le (yearOf_mono hdays) with hyears | hyears
  · exact .inl hyears
  · refine .inr ⟨hyears, ?_⟩
    obtain ⟨hday, -⟩ := yearDay_spec (dayOf e)
    obtain ⟨hday', hlen'⟩ := yearDay_spec (dayOf e')
    have hlast : yearDay (dayOf e') < 366 := by
      rw [yearLength] at hlen'
      split at hlen' <;> omega
    rw [← hyears] at hday'
    rcases lt_or_eq_of_le hdays with hlater | hsame
    · have hcode := dateCode_lt (leap (yearOf (dayOf e))) (i := yearDay (dayOf e)) (j := yearDay (dayOf e')) (by omega) hlast
      have hbound := (momentOf_small e).2.2.2.2.2
      have hbound' := (momentOf_small e').2.2.2.2.2
      have hdate : dateCode (monthDay (leap (yearOf (dayOf e))) (yearDay (dayOf e))) =
          32 * (momentOf e).month + (momentOf e).day := rfl
      have hdate' : dateCode (monthDay (leap (yearOf (dayOf e))) (yearDay (dayOf e'))) =
          32 * (momentOf e').month + (momentOf e').day := by
        rw [hyears]
        rfl
      omega
    · have hdate : (momentOf e).month = (momentOf e').month ∧ (momentOf e).day = (momentOf e').day := by
        change (monthDay _ _).1 = (monthDay _ _).1 ∧ (monthDay _ _).2 = (monthDay _ _).2
        rw [hsame]
        exact ⟨rfl, rfl⟩
      refine .inr ⟨hdate.1, .inr ⟨hdate.2, ?_⟩⟩
      change (e % 86400 / 3600).toNat < (e' % 86400 / 3600).toNat ∨ (e % 86400 / 3600).toNat = (e' % 86400 / 3600).toNat ∧
        ((e % 3600 / 60).toNat < (e' % 3600 / 60).toNat ∨ (e % 3600 / 60).toNat = (e' % 3600 / 60).toNat ∧
          (e % 60).toNat < (e' % 60).toNat)
      rw [dayOf, dayOf] at hsame
      omega

theorem stamp_lt {e e' : Int} (h : earliestStamp ≤ e) (hlt : e < e') (hlast : e' ≤ lastStamp) : stamp e < stamp e' := by
  rw [stamp, stamp, String.lt_iff_toList_lt, String.toList_ofList, String.toList_ofList]
  have hbounds := momentOf_small e
  have hbounds' := momentOf_small e'
  rcases momentOf_lt hlt with hy | ⟨hy, hmonth⟩
  · have hmono : yearOf (dayOf earliestStamp) ≤ yearOf (dayOf e) := yearOf_mono (by rw [dayOf, dayOf]; omega)
    have hfirst : yearOf (dayOf earliestStamp) = -1 := by decide
    exact yearText_lt (by omega) hy (year_lt hlast) _ _
  · rw [hy]
    refine append_lt_append rfl (.inr ⟨rfl, field_lt hbounds.1 hbounds'.1 ?_⟩)
    rcases hmonth with hm | ⟨hm, hday⟩
    · exact .inl hm
    · refine .inr ⟨hm, field_lt hbounds.2.1 hbounds'.2.1 ?_⟩
      rcases hday with hd | ⟨hd, hhour⟩
      · exact .inl hd
      · refine .inr ⟨hd, field_lt (by omega) (by omega) ?_⟩
        rcases hhour with hh | ⟨hh, hminute⟩
        · exact .inl hh
        · refine .inr ⟨hh, field_lt (by omega) (by omega) ?_⟩
          rcases hminute with hm | ⟨hm, hs⟩
          · exact .inl hm
          · exact .inr ⟨hm, field_lt (by omega) (by omega) (.inl hs)⟩

theorem stamp_le_iff {e e' : Int} (h : earliestStamp ≤ e) (hlast : e ≤ lastStamp)
    (h' : earliestStamp ≤ e') (hlast' : e' ≤ lastStamp) : stamp e ≤ stamp e' ↔ e ≤ e' := by
  constructor
  · intro hle
    by_contra hlt
    exact absurd (stamp_lt h' (not_le.mp hlt) hlast) (not_lt.mpr hle)
  · intro hle
    rcases lt_or_eq_of_le hle with hlt | rfl
    · exact (stamp_lt h hlt hlast').le
    · exact le_rfl

end MeshcoreAnalyzer.Calendar

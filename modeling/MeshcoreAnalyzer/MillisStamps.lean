import MeshcoreAnalyzer.Calendar

namespace MeshcoreAnalyzer.MillisStamps

open Calendar Timestamps

/-! The texts of times in milliseconds, `rxTimeMillisLayout` of cmd/ingestor/main.go: they are all of one length, and in
the order of the times. -/

/-- `t.Sub(u)`, which stops at the ends of a duration. -/
def sub (t u : Int) : Int := max (-2 ^ 63) (min (t - u) (2 ^ 63 - 1))

theorem sub_lt_iff {t u d : Int} (h : -2 ^ 63 < d) (h' : d ≤ 2 ^ 63 - 1) : sub t u < d ↔ t - u < d := by
  rw [sub]
  omega

def momentOfMillis (t : Int) : Moment := { momentOf (t / 1000) with millis := (t % 1000).toNat }

/-- `time.UnixMilli(t).UTC().Format(rxTimeMillisLayout)` -/
def stampMillis (t : Int) : String := format (momentOfMillis t)

def FourDigits (t : Int) : Prop := firstStamp ≤ t / 1000 ∧ t / 1000 ≤ lastStamp

def seconds (e : Int) : List Char :=
  pad4 (momentOf e).year ++ '-' :: (pad2 (momentOf e).month ++ '-' :: (pad2 (momentOf e).day ++ 'T' ::
    (pad2 (momentOf e).hour ++ ':' :: (pad2 (momentOf e).minute ++ ':' :: pad2 (momentOf e).second))))

theorem toList_stampMillis (t : Int) :
    (stampMillis t).toList = seconds (t / 1000) ++ '.' :: (pad3 (t % 1000).toNat ++ ['Z']) := by
  rw [stampMillis, format, String.toList_ofList, seconds]
  simp only [momentOfMillis, List.append_assoc, List.cons_append]

theorem toList_stamp {e : Int} (h : firstStamp ≤ e) (hlast : e ≤ lastStamp) :
    (stamp e).toList = seconds e ++ ['Z'] := by
  rw [stamp_eq h hlast, String.toList_ofList, seconds, clockText]
  simp only [List.append_assoc, List.cons_append]

theorem lt_of_append_lt {a a' z : List Char} (hlen : a.length = a'.length) (h : a ++ z < a' ++ z) : a < a' := by
  rcases lt_trichotomy a a' with hlt | heq | hgt
  · exact hlt
  · rw [heq] at h
    exact absurd h (lt_irrefl _)
  · exact absurd (append_lt_append hlen.symm (.inl hgt)) (lt_asymm h)

theorem seconds_lt {e e' : Int} (h : firstStamp ≤ e) (hlt : e < e') (hlast : e' ≤ lastStamp) :
    seconds e < seconds e' := by
  have hstamps := stamp_lt (earliestStamp_le h) hlt hlast
  rw [String.lt_iff_toList_lt, toList_stamp h (hlt.le.trans hlast), toList_stamp (h.trans hlt.le) hlast] at hstamps
  exact lt_of_append_lt rfl hstamps

theorem pad3_lt {n m : Nat} (h : n < m) (hm : m < 1000) : pad3 n < pad3 m := by
  rw [pad3, pad3, List.cons_lt_cons_iff]
  by_cases hhundred : n / 100 % 10 < m / 100 % 10
  · exact .inl (digit_lt hhundred)
  · exact .inr ⟨digit_congr (by omega), pad2_lt (by omega)⟩

theorem stampMillis_lt {t t' : Int} (h : FourDigits t) (hlt : t < t') (h' : FourDigits t') :
    stampMillis t < stampMillis t' := by
  rw [String.lt_iff_toList_lt, toList_stampMillis, toList_stampMillis]
  refine append_lt_append rfl ?_
  rcases lt_or_eq_of_le (Int.ediv_le_ediv (by decide : (0 : Int) < 1000) hlt.le) with hsecond | hsame
  · exact .inl (seconds_lt h.1 hsecond h'.2)
  · refine .inr ⟨by rw [hsame], List.cons_lt_cons_iff.mpr (.inr ⟨rfl, append_lt_append rfl (.inl ?_)⟩)⟩
    exact pad3_lt (by omega) (by omega)

theorem stampMillis_lt_iff {t t' : Int} (h : FourDigits t) (h' : FourDigits t') :
    stampMillis t < stampMillis t' ↔ t < t' := by
  refine ⟨fun hlt => ?_, fun hlt => stampMillis_lt h hlt h'⟩
  rcases lt_trichotomy t t' with ht | rfl | ht
  · exact ht
  · exact absurd hlt (lt_irrefl _)
  · exact absurd (stampMillis_lt h' ht h) (lt_asymm hlt)

theorem dateTimeT_seconds {e : Int} (h : firstStamp ≤ e) (hlast : e ≤ lastStamp) (rest : List Char) :
    dateTimeT (seconds e ++ rest) = some (momentOf e, rest) := by
  have hvalid := momentOf_valid h
  obtain ⟨hmonth, hday, hhour, hminute, hsecond, -⟩ := momentOf_small e
  rw [seconds, List.append_assoc, dateTimeT, getyear_pad4 (momentOf_year_lt h hlast)]
  simp only [bind, Option.bind, List.cons_append, List.append_assoc, skip_cons, getnum_pad2 _ hmonth,
    getnum_pad2 _ hday, getnum_pad2 _ (hhour.trans (by decide)), getnum_pad2 _ (hminute.trans (by decide)),
    getnum_pad2 _ (hsecond.trans (by decide))]
  rw [if_pos hvalid]
  rfl

theorem fraction_pad3 {n : Nat} (h : n < 1000) : fraction ('.' :: (pad3 n ++ ['Z'])) = (n * 10 ^ 6, ['Z']) := by
  obtain ⟨h1, hv1⟩ := digit_spec (n / 100)
  obtain ⟨h2, hv2⟩ := digit_spec (n / 10)
  obtain ⟨h3, hv3⟩ := digit_spec n
  have hz : 'Z'.isDigit = false := by decide
  simp only [pad3, pad2, List.cons_append, List.nil_append, fraction, h1, h2, h3, hz, List.takeWhile_cons,
    List.dropWhile_cons, true_or, and_true, if_true, nanoseconds, List.take_succ_cons, List.take_nil, List.foldl_cons,
    List.foldl_nil, hv1, hv2, hv3, Bool.false_eq_true, if_false]
  refine Prod.ext ?_ rfl
  simp only [List.length_cons, List.length_nil]
  omega

theorem parseRFC3339_stampMillis {t : Int} (h : FourDigits t) : parseRFC3339 (stampMillis t) = some (t * 10 ^ 6) := by
  have hread := dateTimeT_seconds h.1 h.2 ('.' :: (pad3 (t % 1000).toNat ++ ['Z']))
  have hmillis : (t % 1000).toNat < 1000 := by omega
  have hdate : date (momentOf (t / 1000)) 0 0 = t / 1000 * second := date_momentOf h.1
  have hzone : zone ['Z'] = some 0 := rfl
  rw [parseRFC3339, toList_stampMillis, hread]
  simp only [bind, Option.bind, fraction_pad3 hmillis, hzone]
  rw [date] at hdate ⊢
  have hsecond : second = 1000000000 := rfl
  rw [hsecond] at hdate ⊢
  congr 1
  push_cast
  omega

end MeshcoreAnalyzer.MillisStamps

import MeshcoreAnalyzer.DecoderAgreement
import MeshcoreAnalyzer.RuneText

namespace MeshcoreAnalyzer.AdvertNames

open GoBytes Runes MeshcoreAnalyzer.Frame DecoderAgreement

/-! The name of an advert, `decodeAdvert` of cmd/ingestor/decoder.go: the bytes before its terminator, sanitised and
cut to the 32 bytes of the firmware's buffer. -/

variable {ε : Type}

def rawName (buf : Bytes) : Bytes :=
  match buf.drop 100 with
  | [] => []
  | flags :: rest =>
      if (advertFlags flags).hasName then
        beforeNul ((flags :: rest).drop (nameOffset flags (flags :: rest)))
      else []

def terminator (buf : Bytes) : Option Nat :=
  match buf.drop 100 with
  | [] => none
  | flags :: rest =>
      let nameEnd := IngestorDecoder.nameEndFrom (flags :: rest) (nameOffset flags (flags :: rest))
      if (advertFlags flags).hasName ∧ nameEnd < (flags :: rest).length then some (100 + nameEnd) else none

def keptRunes (buf : Bytes) : List Nat := (runes (rawName buf)).filter keepRune

theorem sanitizeName_rawName (buf : Bytes) : sanitizeName (rawName buf) = (keptRunes buf).flatMap encodeRune := rfl

theorem scalar_keptRunes (buf : Bytes) : ∀ r ∈ keptRunes buf, Scalar r :=
  fun r hr => scalar_of_mem_runes _ r (List.mem_filter.mp hr).1

def locationEnd (flags : UInt8) (appdata : Bytes) : Nat :=
  if (advertFlags flags).hasLocation ∧ 1 + 8 ≤ appdata.length then 1 + 8 else 1

theorem locationEnd_le (flags : UInt8) {appdata : Bytes} (h : 1 ≤ appdata.length) :
    locationEnd flags appdata ≤ appdata.length := by
  rw [locationEnd]
  split <;> omega

theorem nameOffset_le (flags : UInt8) {appdata : Bytes} (h : 1 ≤ appdata.length) :
    nameOffset flags appdata ≤ appdata.length :=
  ServerDecoder.skipFeat_le _ (ServerDecoder.skipFeat_le _ (locationEnd_le flags h))

theorem one_le_nameOffset (flags : UInt8) (appdata : Bytes) : 1 ≤ nameOffset flags appdata := by
  unfold nameOffset ServerDecoder.skipFeat
  dsimp only
  split_ifs <;> omega

theorem name_decodeAdvert (crypto : Crypto) (buf : Bytes) (validateSignatures : Bool) :
    ∃ p, (IngestorDecoder.decodeAdvert crypto buf validateSignatures : Go ε _) = .ok p ∧
      p.name = advertName (rawName buf) := by
  have hnil : advertName [] = [] := rfl
  rw [IngestorDecoder.decodeAdvert, rawName]
  by_cases hlen : buf.length < 100
  · rw [if_pos hlen, List.drop_eq_nil_of_le (by omega)]
    exact ⟨{ toPayload := shortPayload "ADVERT" "too short for advert" buf }, rfl, rfl⟩
  · obtain ⟨base, hbase, -, hname⟩ := advertBase_returns (ε := ε) crypto (not_lt.mp hlen) validateSignatures
    rw [if_neg hlen, hbase]
    simp only [bind, Except.bind]
    cases happ : buf.drop 100 with
    | nil => exact ⟨{ toPayload := base }, rfl, hname⟩
    | cons flags rest =>
        have hpos : 0 < (flags :: rest).length := Nat.succ_pos rest.length
        rw [if_pos hpos, index_ok hpos]
        simp only [List.getElem_cons_zero]
        generalize flags :: rest = appdata at hpos ⊢
        obtain ⟨lat, lon, hloc⟩ := advertLocation_eq (ε := ε) (advertFlags flags) hpos
        obtain ⟨feat1, hfeat1⟩ := advertFeat_eq (ε := ε) (advertFlags flags).hasFeat1 (locationEnd_le flags hpos)
        have hoff1 := ServerDecoder.skipFeat_le (advertFlags flags).hasFeat1 (locationEnd_le flags hpos)
        obtain ⟨feat2, hfeat2⟩ := advertFeat_eq (ε := ε) (advertFlags flags).hasFeat2 hoff1
        have hend := IngestorDecoder.nameEndFrom_bounds (nameOffset_le flags hpos)
        rw [locationEnd] at hfeat1 hfeat2
        simp only [hloc, hfeat1, hfeat2]
        by_cases hn : (advertFlags flags).hasName = true
        · rw [if_pos hn, if_pos hn]
          have hslice := slice_ok (ε := ε) hend.1 hend.2
          rw [nameOffset] at hslice
          simp only [hslice]
          obtain ⟨q, hq⟩ := IngestorDecoder.advertTelemetry_returns (ε := ε) _ (advertFlags flags) appdata _
          refine ⟨q, hq, ?_⟩
          rw [advertTelemetry_toPayload hq, ← nameBytes_eq]
          rfl
        · rw [if_neg hn, if_neg hn]
          obtain ⟨q, hq⟩ := IngestorDecoder.advertTelemetry_returns (ε := ε) _ (advertFlags flags) appdata _
          refine ⟨q, hq, ?_⟩
          rw [advertTelemetry_toPayload hq]
          exact hname

section Offsets

variable {flags : UInt8} {has : Bool} {a a' : Bytes} {off e : Nat}

theorem le_skipFeat : off ≤ ServerDecoder.skipFeat has a off := by
  rw [ServerDecoder.skipFeat]
  split <;> omega

theorem skipFeat_congr (h : ServerDecoder.skipFeat has a off ≤ e) (hlt : e < a.length)
    (h' : ServerDecoder.skipFeat has a' off ≤ e) (hlt' : e < a'.length) :
    ServerDecoder.skipFeat has a off = ServerDecoder.skipFeat has a' off := by
  unfold ServerDecoder.skipFeat at *
  cases has with
  | false => simp
  | true =>
      simp only [true_and] at *
      split_ifs at * <;> omega

theorem locationEnd_congr (h : locationEnd flags a ≤ e) (hlt : e < a.length) (h' : locationEnd flags a' ≤ e)
    (hlt' : e < a'.length) : locationEnd flags a = locationEnd flags a' := by
  unfold locationEnd at *
  generalize (advertFlags flags).hasLocation = has at *
  cases has with
  | false => simp
  | true =>
      simp only [true_and] at *
      split_ifs at * <;> omega

theorem nameOffset_congr (h : nameOffset flags a ≤ e) (hlt : e < a.length) (h' : nameOffset flags a' ≤ e)
    (hlt' : e < a'.length) : nameOffset flags a = nameOffset flags a' := by
  have hloc : locationEnd flags a = locationEnd flags a' :=
    locationEnd_congr ((le_skipFeat.trans le_skipFeat).trans h) hlt ((le_skipFeat.trans le_skipFeat).trans h') hlt'
  have hfeat1 : ServerDecoder.skipFeat (advertFlags flags).hasFeat1 a (locationEnd flags a) =
      ServerDecoder.skipFeat (advertFlags flags).hasFeat1 a' (locationEnd flags a) :=
    skipFeat_congr (le_skipFeat.trans h) hlt (hloc ▸ le_skipFeat.trans h') hlt'
  have hfeat2 : ServerDecoder.skipFeat (advertFlags flags).hasFeat2 a
        (ServerDecoder.skipFeat (advertFlags flags).hasFeat1 a (locationEnd flags a)) =
      ServerDecoder.skipFeat (advertFlags flags).hasFeat2 a'
        (ServerDecoder.skipFeat (advertFlags flags).hasFeat1 a (locationEnd flags a)) :=
    skipFeat_congr h hlt (by rw [hfeat1, hloc]; exact h') hlt'
  calc nameOffset flags a = _ := hfeat2
    _ = nameOffset flags a' := by
      rw [hfeat1, hloc]
      rfl

end Offsets

theorem rawName_of_terminator {buf : Bytes} {k : Nat} (h : terminator buf = some k) :
    ∃ flags rest, (buf.drop 100) = flags :: rest ∧ nameOffset flags (flags :: rest) ≤ k - 100 ∧
      k - 100 < (flags :: rest).length ∧ (advertFlags flags).hasName ∧
      rawName buf = ((flags :: rest).take (k - 100)).drop (nameOffset flags (flags :: rest)) := by
  unfold terminator at h
  rw [rawName]
  cases happ : buf.drop 100 with
  | nil =>
      rw [happ] at h
      cases h
  | cons flags rest =>
      rw [happ] at h
      obtain ⟨⟨hn, hlt⟩, heq⟩ := Option.ite_none_right_eq_some.mp h
      have hpos : 0 < (flags :: rest).length := Nat.succ_pos rest.length
      have hoff := (IngestorDecoder.nameEndFrom_bounds (nameOffset_le flags hpos)).1
      have hk : IngestorDecoder.nameEndFrom (flags :: rest) (nameOffset flags (flags :: rest)) = k - 100 := by
        have hk := Option.some.inj heq
        omega
      rw [hk] at hoff hlt
      refine ⟨flags, rest, rfl, hoff, hlt, hn, ?_⟩
      rw [← hk, nameBytes_eq]
      exact if_pos hn

theorem rawName_eq_of_terminator {buf buf' : Bytes} {k : Nat} (h : terminator buf = some k)
    (h' : terminator buf' = some k) (htake : buf.take k = buf'.take k) : rawName buf = rawName buf' := by
  obtain ⟨flags, rest, happ, hoff, hlt, -, hname⟩ := rawName_of_terminator h
  obtain ⟨flags', rest', happ', hoff', hlt', -, hname'⟩ := rawName_of_terminator h'
  have hnames : (flags :: rest).take (k - 100) = (flags' :: rest').take (k - 100) := by
    have hdrop := congrArg (List.drop 100) htake
    rwa [List.drop_take, List.drop_take, happ, happ'] at hdrop
  have hfirst := (one_le_nameOffset flags (flags :: rest)).trans hoff
  have hflags : flags = flags' := by
    obtain ⟨e, he⟩ : ∃ e, k - 100 = e + 1 := ⟨k - 101, by omega⟩
    rw [he, List.take_succ_cons, List.take_succ_cons] at hnames
    exact (List.cons.inj hnames).1
  subst hflags
  rw [hname, hname', hnames, nameOffset_congr hoff hlt hoff' hlt']

def AsciiControl (r : Nat) : Prop := r < 0x20 ∨ r = 0x7F

def UnicodeControl (r : Nat) : Prop := AsciiControl r ∨ (0x80 ≤ r ∧ r ≤ 0x9F)

/-- What is asked of the name that an advert is decoded to. -/
structure WellFormed (decodeName : Bytes → Bytes) (control : Nat → Prop) (buf : Bytes) : Prop where
  valid : validString (decodeName buf)
  short : (decodeName buf).length ≤ 32
  clean : ∀ r ∈ runes (decodeName buf), control r → r = 9 ∨ r = 10
  sanitised : decodeName buf <+: sanitizeName (rawName buf)
  sameName : ∀ buf' k, terminator buf = some k → terminator buf' = some k → buf.take k = buf'.take k →
    decodeName buf = decodeName buf'

theorem wellFormed_iff {decodeName : Bytes → Bytes} (hname : ∀ buf, decodeName buf = advertName (rawName buf))
    (control : Nat → Prop) (buf : Bytes) : WellFormed decodeName control buf ↔
      Fits 32 (keptRunes buf) ∧ ∀ r ∈ fitting 32 (keptRunes buf), control r → r = 9 ∨ r = 10 := by
  have hcut : decodeName buf = ((keptRunes buf).flatMap encodeRune).take 32 := by
    rw [hname, advertName_eq, sanitizeName_rawName]
  have hrunes : Fits 32 (keptRunes buf) → runes (decodeName buf) = fitting 32 (keptRunes buf) := by
    intro hfits
    have hscalar : ∀ r ∈ fitting 32 (keptRunes buf), Scalar r := fun r hr =>
      scalar_keptRunes buf r ((prefix_fitting 32 _).subset hr)
    have hall := runes_encoded hscalar []
    rw [List.append_nil] at hall
    rw [hcut, take_of_fits hfits, hall]
    exact List.append_nil _
  constructor
  · intro h
    have hvalid := h.valid
    rw [hcut, validString_take_iff (scalar_keptRunes buf)] at hvalid
    exact ⟨hvalid, hrunes hvalid ▸ h.clean⟩
  · rintro ⟨hfits, hclean⟩
    refine ⟨?_, ?_, (hrunes hfits).symm ▸ hclean, ?_, ?_⟩
    · rw [hcut, validString_take_iff (scalar_keptRunes buf)]
      exact hfits
    · rw [hcut]
      exact List.length_take_le 32 _
    · rw [hcut, sanitizeName_rawName]
      exact List.take_prefix 32 _
    · intro buf' k hk hk' htake
      rw [hname, hname, rawName_eq_of_terminator hk hk' htake]

def decodedName (crypto : Crypto) (validateSignatures : Bool) (buf : Bytes) : Bytes :=
  match (IngestorDecoder.decodeAdvert crypto buf validateSignatures : Go Empty IngestorDecoder.Payload) with
  | .ok p => p.name
  | .error _ => []

theorem decodedName_eq (crypto : Crypto) (validateSignatures : Bool) (buf : Bytes) :
    decodedName crypto validateSignatures buf = advertName (rawName buf) := by
  obtain ⟨p, hp, hname⟩ := name_decodeAdvert (ε := Empty) crypto buf validateSignatures
  rw [decodedName, hp, ← hname]

/-- The name is well formed if and only if the cut to 32 bytes falls between two runes; where the control characters
above ASCII count, if and only if also none of them is among the runes that fit. -/
theorem decodedName_wellFormed_iff (crypto : Crypto) (validateSignatures : Bool) (buf : Bytes) :
    (WellFormed (decodedName crypto validateSignatures) AsciiControl buf ↔ Fits 32 (keptRunes buf)) ∧
    (WellFormed (decodedName crypto validateSignatures) UnicodeControl buf ↔
      Fits 32 (keptRunes buf) ∧ ∀ r ∈ fitting 32 (keptRunes buf), ¬ (0x80 ≤ r ∧ r ≤ 0x9F)) := by
  have hkept : ∀ r ∈ fitting 32 (keptRunes buf), AsciiControl r → r = 9 ∨ r = 10 := by
    intro r hr hcontrol
    have hkeep := (List.mem_filter.mp ((prefix_fitting 32 _).subset hr)).2
    simp only [keepRune, Bool.or_eq_true, beq_iff_eq, Bool.and_eq_true, decide_eq_true_eq, bne_iff_ne] at hkeep
    unfold AsciiControl at hcontrol
    omega
  have hiff := wellFormed_iff (decodedName_eq crypto validateSignatures)
  refine ⟨(hiff AsciiControl buf).trans (and_iff_left hkept), (hiff UnicodeControl buf).trans ?_⟩
  refine and_congr_right fun _ => forall₂_congr fun r hr => ?_
  constructor
  · intro h hc1
    have hcases := h (.inr hc1)
    omega
  · rintro hno (hascii | hc1)
    · exact hkept r hr hascii
    · exact absurd hc1 hno

def longName : Bytes := List.replicate 100 0 ++ 0x81 :: (List.replicate 31 0x61 ++ [0xC3, 0xA9])

/-- The cut leaves the first of the two bytes. -/
theorem longName_not_wellFormed : ¬ ∀ (crypto : Crypto) (validateSignatures : Bool) (buf : Bytes),
    WellFormed (decodedName crypto validateSignatures) AsciiControl buf := by
  intro h
  have hwell := h ⟨fun _ _ _ => true, fun _ _ => List.replicate 32 0, fun _ _ => List.length_replicate,
    fun _ _ => List.replicate 16 0, fun _ _ => List.length_replicate⟩ false longName
  have hfits := ((wellFormed_iff (decodedName_eq _ false) AsciiControl longName).mp hwell).1
  have hraw : rawName longName = (List.replicate 31 0x61 ++ [0xE9]).flatMap encodeRune ++ [] := by
    rw [rawName, longName, List.drop_left' List.length_replicate]
    rfl
  have hscalar : ∀ r ∈ List.replicate 31 0x61 ++ [0xE9], Scalar r := by
    simp [Scalar]
  have hkept : keptRunes longName = List.replicate 31 0x61 ++ [0xE9] := by
    rw [keptRunes, hraw, runes_encoded hscalar]
    rfl
  have hfitting : fitting 32 (keptRunes longName) = List.replicate 31 0x61 := by
    rw [hkept]
    rfl
  rw [Fits, hfitting, hkept] at hfits
  revert hfits
  decide

end MeshcoreAnalyzer.AdvertNames

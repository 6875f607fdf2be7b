import MeshcoreAnalyzer.FrameGrammar
import MeshcoreAnalyzer.ServerDecoder
import Mathlib.Data.List.TakeWhile

namespace MeshcoreAnalyzer.DecoderAgreement

open GoBytes Runes MeshcoreAnalyzer.Frame FrameGrammar

variable {ε : Type}

theorem keepRune_high {r : Nat} (h : 0x80 ≤ r) : keepRune r = true := by
  simp only [keepRune, Bool.or_eq_true, beq_iff_eq, Bool.and_eq_true, decide_eq_true_eq, bne_iff_ne]
  omega

theorem sanitizeName_append_nul (s t : Bytes) :
    sanitizeName (s ++ 0 :: t) = sanitizeName s ++ sanitizeName t := by
  unfold sanitizeName
  rw [runes_append (by decide), List.filter_append, List.filter_cons_of_neg (by decide),
    List.flatMap_append]

theorem sanitizeName_eq_nil (s : Bytes) :
    sanitizeName s = [] ↔ ∀ c ∈ s, keepRune c.toNat = false := by
  rw [← runes_all_not (fun r => keepRune_high) s]
  rw [sanitizeName]
  rw [List.flatMap_eq_nil_iff]
  constructor
  · intro h r hr
    by_contra hk
    exact encodeRune_ne_nil r (h r (List.mem_filter.mpr ⟨hr, by simpa using hk⟩))
  · intro h r hr
    rw [List.mem_filter] at hr
    rw [h r hr.1] at hr
    exact absurd hr.2 (by decide)

theorem sanitizeName_replicate_nul (s : Bytes) (k : Nat) :
    sanitizeName (s ++ List.replicate k 0) = sanitizeName s := by
  cases k with
  | zero => rw [List.replicate_zero, List.append_nil]
  | succ k =>
      have hnil : sanitizeName (List.replicate k 0) = [] := by
        rw [sanitizeName_eq_nil]
        intro c hc
        rw [List.eq_of_mem_replicate hc]
        rfl
      rw [List.replicate_succ, sanitizeName_append_nul, hnil, List.append_nil]

theorem trimRightNul_append (s : Bytes) :
    ∃ k, s = ServerDecoder.trimRightNul s ++ List.replicate k 0 := by
  refine ⟨(s.reverse.takeWhile (· == 0)).length, ?_⟩
  have hall : (s.reverse.takeWhile (· == 0)) =
      List.replicate (s.reverse.takeWhile (· == 0)).length 0 := by
    rw [List.eq_replicate_iff]
    exact ⟨rfl, fun c hc => by simpa using List.mem_takeWhile_imp hc⟩
  have hsplit := congrArg List.reverse (List.takeWhile_append_dropWhile (p := (· == 0))
    (l := s.reverse))
  rw [List.reverse_append, List.reverse_reverse, hall, List.reverse_replicate] at hsplit
  exact hsplit.symm

theorem sanitizeName_trimRightNul (s : Bytes) :
    sanitizeName (ServerDecoder.trimRightNul s) = sanitizeName s := by
  obtain ⟨k, hk⟩ := trimRightNul_append s
  have h := sanitizeName_replicate_nul (ServerDecoder.trimRightNul s) k
  rw [← hk] at h
  exact h.symm

theorem advertName_eq (s : Bytes) : advertName s = (sanitizeName s).take 32 := by
  unfold advertName
  simp only
  split
  · rfl
  · next h => rw [List.take_of_length_le (by omega)]

def beforeNul (name : Bytes) : Bytes := name.takeWhile (· != 0)

def fromNul (name : Bytes) : Bytes := name.dropWhile (· != 0)

theorem sanitizeName_split (name : Bytes) :
    sanitizeName name = sanitizeName (beforeNul name) ++ sanitizeName (fromNul name) := by
  have hsplit : beforeNul name ++ fromNul name = name := List.takeWhile_append_dropWhile
  cases h : fromNul name with
  | nil =>
      rw [h, List.append_nil] at hsplit
      rw [hsplit]
      simp [sanitizeName, runes, runesFrom]
  | cons c rest =>
      have hc : c = 0 := by
        have := List.head?_dropWhile_not (· != 0) name
        rw [show name.dropWhile (· != 0) = c :: rest from h] at this
        simpa using this
      subst hc
      have hnul : sanitizeName (0 :: rest) = sanitizeName rest :=
        sanitizeName_append_nul [] rest
      rw [hnul, ← sanitizeName_append_nul, ← h, hsplit]

theorem take_append_eq_take_iff {α : Type} (x y : List α) (n : Nat) :
    (x ++ y).take n = x.take n ↔ n ≤ x.length ∨ y = [] := by
  constructor
  · intro h
    have hlen := congrArg List.length h
    simp only [List.length_take, List.length_append] at hlen
    rcases y with _ | ⟨c, y⟩
    · exact .inr rfl
    · left
      simp only [List.length_cons] at hlen
      omega
  · rintro (h | rfl)
    · exact List.take_append_of_le_length h
    · rw [List.append_nil]

/-- Nothing of the bytes from the terminator on shows in the name that keeps
them: the name is full before, or they are all dropped. -/
def NameCut (name : Bytes) : Prop :=
  32 ≤ (sanitizeName (beforeNul name)).length ∨ ∀ c ∈ fromNul name, keepRune c.toNat = false

theorem names_agree_iff (name : Bytes) :
    advertName (ServerDecoder.trimRightNul name) = advertName (beforeNul name) ↔ NameCut name := by
  rw [advertName_eq, advertName_eq, sanitizeName_trimRightNul, sanitizeName_split,
    take_append_eq_take_iff, sanitizeName_eq_nil]
  rfl

/-- Where the name starts: behind the location and the feature fields that the
flags announce and the application data can hold. -/
def nameOffset (flags : UInt8) (appdata : Bytes) : Nat :=
  let f := advertFlags flags
  let off := if f.hasLocation ∧ 1 + 8 ≤ appdata.length then 1 + 8 else 1
  ServerDecoder.skipFeat f.hasFeat2 appdata (ServerDecoder.skipFeat f.hasFeat1 appdata off)

/-- The name of an advert's application data, cut by its terminator, is the
name without the cut. -/
def AdvertNameCut (appdata : Bytes) : Prop :=
  ∀ flags ∈ appdata.head?, flags &&& 0x80 ≠ 0 → NameCut (appdata.drop (nameOffset flags appdata))

theorem advertLocation_eq (f : AdvertFlags) {appdata : Bytes} (h : 1 ≤ appdata.length) :
    ∃ lat lon, (advertLocation f appdata 1 : Go ε _) =
      .ok (lat, lon, if f.hasLocation ∧ 1 + 8 ≤ appdata.length then 1 + 8 else 1) := by
  obtain ⟨lat, lon, off, hloc, _, _⟩ := advertLocation_returns (ε := ε) f appdata h
  refine ⟨lat, lon, ?_⟩
  have h' := hloc
  unfold advertLocation at hloc
  split at hloc
  · next hc =>
      rw [if_pos hc, h']
      obtain ⟨_, _, hloc⟩ := ok_of_bind hloc
      obtain ⟨_, _, hloc⟩ := ok_of_bind hloc
      obtain ⟨_, _, hloc⟩ := ok_of_bind hloc
      obtain ⟨_, _, hloc⟩ := ok_of_bind hloc
      cases hloc
      rfl
  · next hc =>
      rw [if_neg hc, h']
      cases hloc
      rfl

theorem advertFeat_eq (has : Bool) {appdata : Bytes} {off : Nat} (hoff : off ≤ appdata.length) :
    ∃ feat, (IngestorDecoder.advertFeat has appdata off : Go ε _) =
      .ok (feat, ServerDecoder.skipFeat has appdata off) := by
  obtain ⟨feat, next, hfeat, _, _⟩ :=
    IngestorDecoder.advertFeat_returns (ε := ε) has appdata hoff
  refine ⟨feat, ?_⟩
  have h' := hfeat
  unfold IngestorDecoder.advertFeat at hfeat
  rw [ServerDecoder.skipFeat]
  split at hfeat
  · next hc =>
      rw [if_pos hc, h']
      obtain ⟨_, _, hfeat⟩ := ok_of_bind hfeat
      obtain ⟨_, _, hfeat⟩ := ok_of_bind hfeat
      cases hfeat
      rfl
  · next hc =>
      rw [if_neg hc, h']
      cases hfeat
      rfl

theorem advertTelemetry_toPayload {p q : IngestorDecoder.Payload} {f : AdvertFlags}
    {appdata : Bytes} {off : Nat}
    (h : (IngestorDecoder.advertTelemetry p f appdata off : Go ε _) = .ok q) :
    q.toPayload = p.toPayload := by
  unfold IngestorDecoder.advertTelemetry at h
  split at h
  · obtain ⟨_, _, h⟩ := ok_of_bind h
    obtain ⟨_, _, h⟩ := ok_of_bind h
    obtain ⟨_, _, h⟩ := ok_of_bind h
    obtain ⟨_, _, h⟩ := ok_of_bind h
    cases h
    split <;> split <;> rfl
  · cases h
    rfl

theorem nameBytes_eq (appdata : Bytes) (off : Nat) :
    (appdata.take (IngestorDecoder.nameEndFrom appdata off)).drop off =
      beforeNul (appdata.drop off) := by
  have hleast : beforeNul (appdata.drop off) <+: appdata.drop off := List.takeWhile_prefix _
  rw [List.drop_take, IngestorDecoder.nameEndFrom, Nat.add_sub_cancel_left]
  exact (List.prefix_iff_eq_take.mp hleast).symm

theorem decodeAdvert_agree (crypto : Crypto) (buf : Bytes) (validateSignatures : Bool) :
    ∃ p q, (ServerDecoder.decodeAdvert crypto buf validateSignatures : Go ε _) = .ok p ∧
      (IngestorDecoder.decodeAdvert crypto buf validateSignatures : Go ε _) = .ok q ∧
      q.toPayload = { p with name := q.name } ∧ p.type = "ADVERT" ∧
      (p.name = q.name ↔ (100 ≤ buf.length → AdvertNameCut (buf.drop 100))) := by
  rw [ServerDecoder.decodeAdvert, IngestorDecoder.decodeAdvert]
  by_cases hlen : buf.length < 100
  · rw [if_pos hlen, if_pos hlen]
    exact ⟨shortPayload "ADVERT" "too short for advert" buf,
      { toPayload := shortPayload "ADVERT" "too short for advert" buf }, rfl, rfl, rfl, rfl,
      by simp [hlen]⟩
  · obtain ⟨base, hbase, htype, hname⟩ :=
      advertBase_returns (ε := ε) crypto (not_lt.mp hlen) validateSignatures
    rw [if_neg hlen, if_neg hlen, hbase]
    rw [forall_prop_of_true (not_lt.mp hlen)]
    generalize buf.drop 100 = appdata
    simp only [bind, Except.bind]
    cases appdata with
    | nil => exact ⟨base, { toPayload := base }, rfl, rfl, rfl, htype, by simp [AdvertNameCut]⟩
    | cons flags rest =>
        rw [if_pos (by simp), if_pos (by simp), index_ok (by simp)]
        simp only [List.getElem_cons_zero]
        have hcut : AdvertNameCut (flags :: rest) ↔ (flags &&& 0x80 ≠ 0 →
            NameCut ((flags :: rest).drop (nameOffset flags (flags :: rest)))) := by
          simp [AdvertNameCut]
        rw [hcut]
        have hpos : 1 ≤ (flags :: rest).length := by simp
        generalize happ : flags :: rest = appdata at *
        have hoff : (if (advertFlags flags).hasLocation ∧ 1 + 8 ≤ appdata.length then 1 + 8 else 1)
            ≤ appdata.length := by
          split <;> omega
        obtain ⟨lat, lon, hloc⟩ := advertLocation_eq (ε := ε) (advertFlags flags) hpos
        obtain ⟨feat1, hfeat1⟩ := advertFeat_eq (ε := ε) (advertFlags flags).hasFeat1 hoff
        have hoff1 := ServerDecoder.skipFeat_le (advertFlags flags).hasFeat1 hoff
        obtain ⟨feat2, hfeat2⟩ := advertFeat_eq (ε := ε) (advertFlags flags).hasFeat2 hoff1
        have hoff2 := ServerDecoder.skipFeat_le (advertFlags flags).hasFeat2 hoff1
        simp only [hloc, hfeat1, hfeat2]
        have hnamed : (advertFlags flags).hasName = true ↔ flags &&& 0x80 ≠ 0 := by
          simp [advertFlags]
        have hend := IngestorDecoder.nameEndFrom_bounds hoff2
        by_cases hn : (advertFlags flags).hasName = true
        · rw [if_pos hn, if_pos hn, sliceFrom_ok hoff2, slice_ok hend.1 hend.2]
          simp only
          obtain ⟨q, hq⟩ := IngestorDecoder.advertTelemetry_returns (ε := ε) _ (advertFlags flags)
            appdata _
          have hq' := advertTelemetry_toPayload hq
          refine ⟨_, q, rfl, hq, ?_, htype, ?_⟩
          · rw [hq']
          · rw [hq']
            rw [forall_prop_of_true (hnamed.mp hn), ← names_agree_iff]
            simp only [nameBytes_eq, nameOffset]
        · rw [if_neg hn, if_neg hn]
          obtain ⟨q, hq⟩ := IngestorDecoder.advertTelemetry_returns (ε := ε) _ (advertFlags flags)
            appdata _
          have hq' := advertTelemetry_toPayload hq
          refine ⟨_, q, rfl, hq, ?_, htype, ?_⟩
          · rw [hq']
          · rw [hq']
            simp [mt hnamed.mpr hn]

/-- The fields that both decoders fill for a type. The server holds no channel
keys, so the channel helpers of the ingestor are left out for channel messages. -/
def documented (p : Payload) : Payload :=
  if p.type = "GRP_TXT" then { p with channelHashHex := [], decryptionStatus := "" }
  else if p.type = "GRP_DATA" then { p with decryptionStatus := "" }
  else p

/-- A channel message that is long enough to have an envelope. -/
def IsChannelEnvelope (payloadType : Nat) (payload : Bytes) : Prop :=
  (payloadType = payloadGRP_TXT ∨ payloadType = payloadGRP_DATA) ∧ 3 ≤ payload.length

def NamesAgree (payloadType : Nat) (payload : Bytes) : Prop :=
  payloadType = payloadADVERT → 100 ≤ payload.length → AdvertNameCut (payload.drop 100)

theorem decodeGrpTxt_agree (crypto : Crypto) (buf : Bytes) :
    ∃ p q, (ServerDecoder.decodeGrpTxt buf : Go ε _) = .ok p ∧
      (IngestorDecoder.decodeGrpTxt crypto buf [] : Go ε _) = .ok q ∧
      (p = q.toPayload ↔ ¬ 3 ≤ buf.length) ∧ documented p = documented q.toPayload := by
  rw [ServerDecoder.decodeGrpTxt, IngestorDecoder.decodeGrpTxt]
  by_cases hlen : buf.length < 3
  · rw [if_pos hlen, if_pos hlen]
    exact ⟨shortPayload "GRP_TXT" "too short" buf, { toPayload := shortPayload "GRP_TXT" "too short" buf },
      rfl, rfl, by simp [hlen], rfl⟩
  · rw [if_neg hlen, if_neg hlen, index_ok (by omega), slice_ok (by omega) (by omega),
      sliceFrom_ok (by omega)]
    simp only [bind, Except.bind]
    rw [if_neg (by simp)]
    refine ⟨_, _, rfl, rfl, ?_, rfl⟩
    simp only [Payload.mk.injEq]
    simp [not_lt.mp hlen]

theorem decodeGrpData_agree (crypto : Crypto) (buf : Bytes) :
    ∃ p q, (ServerDecoder.decodeGrpData buf : Go ε _) = .ok p ∧
      (IngestorDecoder.decodeGrpData crypto buf [] : Go ε _) = .ok q ∧
      (p = q.toPayload ↔ ¬ 3 ≤ buf.length) ∧ documented p = documented q.toPayload := by
  rw [ServerDecoder.decodeGrpData, IngestorDecoder.decodeGrpData]
  by_cases hlen : buf.length < 3
  · rw [if_pos hlen, if_pos hlen]
    exact ⟨shortPayload "GRP_DATA" "too short" buf,
      { toPayload := shortPayload "GRP_DATA" "too short" buf }, rfl, rfl, by simp [hlen], rfl⟩
  · rw [if_neg hlen, if_neg hlen, index_ok (by omega), slice_ok (by omega) (by omega),
      sliceFrom_ok (by omega)]
    simp only [bind, Except.bind]
    rw [if_neg (by simp)]
    refine ⟨_, _, rfl, rfl, ?_, rfl⟩
    simp only [Payload.mk.injEq]
    simp [not_lt.mp hlen]

theorem decodeControl_agree (buf : Bytes) :
    ∃ p q, (ServerDecoder.decodeControl buf : Go ε _) = .ok p ∧
      (IngestorDecoder.decodeControl buf : Go ε _) = .ok q ∧ q.toPayload = p := by
  obtain ⟨q, hq⟩ := IngestorDecoder.decodeControl_returns (ε := ε) buf
  refine ⟨q.toPayload, q, ?_, hq, rfl⟩
  rw [ServerDecoder.decodeControl]
  unfold IngestorDecoder.decodeControl at hq
  by_cases hlen : buf.length < 1
  · rw [if_pos hlen] at hq ⊢
    cases hq
    rfl
  · rw [if_neg hlen, index_ok (by omega)] at hq ⊢
    change _ = Except.ok _
    obtain ⟨b, hb, hq⟩ := ok_of_bind hq
    cases hb
    -- the subtype, the filter and the other fields of a discovery are the ingestor's own
    split at hq
    · split at hq
      · obtain ⟨_, _, hq⟩ := ok_of_bind hq
        obtain ⟨_, _, hq⟩ := ok_of_bind hq
        obtain ⟨_, _, hq⟩ := ok_of_bind hq
        obtain ⟨_, _, hq⟩ := ok_of_bind hq
        cases hq
        rfl
      · cases hq
        rfl
    · split at hq
      · split at hq
        · obtain ⟨_, _, hq⟩ := ok_of_bind hq
          obtain ⟨_, _, hq⟩ := ok_of_bind hq
          obtain ⟨_, _, hq⟩ := ok_of_bind hq
          obtain ⟨_, _, hq⟩ := ok_of_bind hq
          cases hq
          rfl
        · cases hq
          rfl
      · cases hq
        rfl

theorem decodePayload_lift (crypto : Crypto) {payloadType : Nat} (buf : Bytes)
    (validateSignatures : Bool) (h4 : payloadType ≠ payloadADVERT)
    (h5 : payloadType ≠ payloadGRP_TXT) (h6 : payloadType ≠ payloadGRP_DATA)
    (h11 : payloadType ≠ payloadCONTROL) :
    (IngestorDecoder.decodePayload crypto payloadType buf [] validateSignatures : Go ε _) =
      IngestorDecoder.lift (ServerDecoder.decodePayload crypto payloadType buf
        validateSignatures) := by
  -- the types up to 15, and the others
  rcases payloadType with _ | _ | _ | _ | _ | _ | _ | _ | _ | _ | _ | _ | _ | _ | _ | _ | n <;>
    first | rfl | exact absurd rfl h4 | exact absurd rfl h5 | exact absurd rfl h6 | exact absurd rfl h11

theorem documented_of_name {p q : Payload} (hp : p.type = "ADVERT")
    (hq : q = { p with name := q.name }) : (documented p = documented q ↔ p.name = q.name) ∧
      (p = q ↔ p.name = q.name) := by
  have hd : documented p = p := by
    rw [documented]
    rw [hp]
    rfl
  have hd' : documented q = q := by
    rw [documented]
    rw [hq, hp]
    rfl
  rw [hd, hd']
  have heq : p = q ↔ p.name = q.name := by
    constructor
    · intro h
      rw [h]
    · intro h
      rw [hq, ← h]
  exact ⟨heq, heq⟩

theorem decodePayload_agree (crypto : Crypto) (payloadType : Nat) (buf : Bytes)
    (validateSignatures : Bool) :
    ∃ p q, (ServerDecoder.decodePayload crypto payloadType buf validateSignatures : Go ε _) = .ok p ∧
      (IngestorDecoder.decodePayload crypto payloadType buf [] validateSignatures : Go ε _) = .ok q ∧
      (payloadType = payloadTRACE → p = q.toPayload) ∧
      (p = q.toPayload ↔
        NamesAgree payloadType buf ∧ ¬ IsChannelEnvelope payloadType buf) ∧
      (documented p = documented q.toPayload ↔ NamesAgree payloadType buf) := by
  by_cases h4 : payloadType = payloadADVERT
  · subst h4
    obtain ⟨p, q, hp, hq, hname, htype, hagree⟩ :=
      decodeAdvert_agree (ε := ε) crypto buf validateSignatures
    obtain ⟨hdoc, hall⟩ := documented_of_name htype hname
    refine ⟨p, q, hp, hq, fun h => absurd h (by decide), ?_, ?_⟩
    · rw [hall, hagree]
      simp [NamesAgree, IsChannelEnvelope, payloadADVERT, payloadGRP_TXT, payloadGRP_DATA]
    · rw [hdoc, hagree]
      simp [NamesAgree]
  · by_cases h5 : payloadType = payloadGRP_TXT
    · subst h5
      obtain ⟨p, q, hp, hq, hall, hdoc⟩ := decodeGrpTxt_agree (ε := ε) crypto buf
      refine ⟨p, q, hp, hq, fun h => absurd h (by decide), ?_, ?_⟩
      · rw [hall]
        simp [NamesAgree, IsChannelEnvelope, payloadADVERT, payloadGRP_TXT]
      · simp [hdoc, NamesAgree, payloadADVERT, payloadGRP_TXT]
    · by_cases h6 : payloadType = payloadGRP_DATA
      · subst h6
        obtain ⟨p, q, hp, hq, hall, hdoc⟩ := decodeGrpData_agree (ε := ε) crypto buf
        refine ⟨p, q, hp, hq, fun h => absurd h (by decide), ?_, ?_⟩
        · rw [hall]
          simp [NamesAgree, IsChannelEnvelope, payloadADVERT, payloadGRP_DATA]
        · simp [hdoc, NamesAgree, payloadADVERT, payloadGRP_DATA]
      · have hothers : NamesAgree payloadType buf ∧ ¬ IsChannelEnvelope payloadType buf :=
          ⟨fun h => absurd h h4, fun h => h.1.elim h5 h6⟩
        by_cases h11 : payloadType = payloadCONTROL
        · subst h11
          obtain ⟨p, q, hp, hq, heq⟩ := decodeControl_agree (ε := ε) buf
          subst heq
          exact ⟨_, q, hp, hq, fun _ => rfl, by simp [hothers], by simp [hothers]⟩
        · obtain ⟨q, hq⟩ := IngestorDecoder.decodePayload_returns (ε := ε) crypto payloadType buf []
            validateSignatures
          have hlift := decodePayload_lift (ε := ε) crypto buf validateSignatures h4 h5 h6 h11
          rw [hq] at hlift
          cases hp : (ServerDecoder.decodePayload crypto payloadType buf validateSignatures :
              Go ε _) with
          | error e =>
              rw [hp] at hlift
              cases hlift
          | ok p =>
              rw [hp] at hlift
              cases hlift
              exact ⟨p, _, rfl, hq, fun _ => rfl, by simp [hothers], by simp [hothers]⟩

/-- Both decoders fail, or both succeed with equal header, transport codes and
path, and with payloads that look the same in the view. -/
def Agree (view : Payload → Payload) (s : Go DecodeError (DecodedPacket Payload))
    (t : Go DecodeError IngestorDecoder.DecodedPacket) : Prop :=
  match s, t with
  | .ok p, .ok q => p.header = q.header ∧ p.transportCodes = q.transportCodes ∧ p.path = q.path ∧
      view p.payload = view q.payload.toPayload
  | .error _, .error _ => True
  | _, _ => False

def payloadBits (header : UInt8) : Nat := header.toNat / 4 % 16

theorem payloadType_decodeHeader : ∀ b : UInt8, (decodeHeader b).payloadType = payloadBits b := by
  decide +kernel

/-- Every frame the text spells passes the test. -/
def OnFrames (s : Bytes) (P : Nat → Bytes → Prop) : Prop :=
  ∀ f : WireFrame, HexOf (stripSpace s) f.encode → P (payloadBits f.header) f.payload

theorem onFrames_of_readPacket {s : Bytes} {w : WirePacket} (h : readPacket s = .ok w)
    (P : Nat → Bytes → Prop) : OnFrames s P ↔ P w.header.payloadType w.payloadBuf := by
  constructor
  · intro hf
    obtain ⟨f, hhex, hdesc⟩ := readPacket_accepts h
    have := hf f hhex
    rwa [← payloadType_decodeHeader, ← hdesc.header, ← hdesc.payload] at this
  · intro hw f hhex
    obtain ⟨w', hw', _, hdesc⟩ := readPacket_of_hexOf hhex
    rw [h] at hw'
    cases hw'
    rwa [← payloadType_decodeHeader, ← hdesc.header, ← hdesc.payload]

theorem onFrames_of_error {s : Bytes} {e : Fault DecodeError} (h : readPacket s = .error e)
    (P : Nat → Bytes → Prop) : OnFrames s P := by
  intro f hhex
  obtain ⟨w, hw, _⟩ := readPacket_of_hexOf hhex
  rw [h] at hw
  cases hw

theorem agree_of_payloads (crypto : Crypto) (view : Payload → Payload) {s : Bytes}
    {w : WirePacket} {validateSignatures : Bool} (hw : readPacket s = .ok w) {p : Payload}
    {q : IngestorDecoder.Payload}
    (hp : (ServerDecoder.decodePayload crypto w.header.payloadType w.payloadBuf
      validateSignatures : Go DecodeError _) = .ok p)
    (hq : (IngestorDecoder.decodePayload crypto w.header.payloadType w.payloadBuf []
      validateSignatures : Go DecodeError _) = .ok q)
    (htrace : w.header.payloadType = payloadTRACE → p = q.toPayload) :
    Agree view (ServerDecoder.decodePacket crypto s validateSignatures)
        (IngestorDecoder.decodePacket crypto s [] validateSignatures) ↔
      view p = view q.toPayload := by
  rw [ServerDecoder.decodePacket, IngestorDecoder.decodePacket]
  simp only [hw, hp, hq, bind, Except.bind]
  by_cases ht : w.header.payloadType = payloadTRACE
  · -- the hops of a TRACE move within one and the same payload
    obtain ⟨⟨path, base⟩, hfinish⟩ := finishTrace_returns (ε := DecodeError) w.header w.path
      q.toPayload
    simp only [htrace ht, hfinish, pure, Except.pure, Agree, true_and]
  · simp only [finishTrace_of_ne_trace ht, pure, Except.pure, Agree, true_and]

/-- The two decoders agree on every shared field of a text just when the name of
an advert in it is cut without loss and it is no channel envelope; on the
documented fields, the name is all that matters. -/
theorem decodePacket_agree_iff (crypto : Crypto) (s : Bytes) (validateSignatures : Bool) :
    (Agree id (ServerDecoder.decodePacket crypto s validateSignatures)
        (IngestorDecoder.decodePacket crypto s [] validateSignatures) ↔
      OnFrames s NamesAgree ∧ OnFrames s (fun t payload => ¬ IsChannelEnvelope t payload)) ∧
    (Agree documented (ServerDecoder.decodePacket crypto s validateSignatures)
        (IngestorDecoder.decodePacket crypto s [] validateSignatures) ↔
      OnFrames s NamesAgree) := by
  cases hw : readPacket s with
  | error e =>
      have hboth : ∀ view, Agree view (ServerDecoder.decodePacket crypto s validateSignatures)
          (IngestorDecoder.decodePacket crypto s [] validateSignatures) := by
        intro view
        rw [ServerDecoder.decodePacket, IngestorDecoder.decodePacket]
        simp only [hw, bind, Except.bind, Agree]
      exact ⟨iff_of_true (hboth id) ⟨onFrames_of_error hw _, onFrames_of_error hw _⟩,
        iff_of_true (hboth documented) (onFrames_of_error hw _)⟩
  | ok w =>
      obtain ⟨p, q, hp, hq, htrace, hall, hdoc⟩ := decodePayload_agree (ε := DecodeError) crypto
        w.header.payloadType w.payloadBuf validateSignatures
      rw [onFrames_of_readPacket hw, onFrames_of_readPacket hw,
        agree_of_payloads crypto id hw hp hq htrace,
        agree_of_payloads crypto documented hw hp hq htrace]
      exact ⟨hall, hdoc⟩

/-- A sensor's advert: flags, the name "A", its terminator, 3700 mV and 25 degrees. -/
def sensorAdvert : Bytes :=
  hexEncode ([0x11, 0x00] ++ List.replicate 100 0x01 ++
    [0x84, 0x41, 0x00, 0x74, 0x0E, 0xC4, 0x09])

def noCrypto : Crypto where
  verify _ _ _ := false
  hmacSHA256 _ _ := List.replicate 32 0
  hmac_length _ _ := by simp
  decryptBlock _ _ := List.replicate 16 0
  decryptBlock_length _ _ := by simp

/-- The server reads the telemetry of a sensor as part of its name. -/
theorem sensorAdvert_names_differ :
    ¬ Agree documented (ServerDecoder.decodePacket noCrypto sensorAdvert false)
      (IngestorDecoder.decodePacket noCrypto sensorAdvert [] false) := by
  have hserver : (ServerDecoder.decodePacket noCrypto sensorAdvert false).map
      (fun p => (documented p.payload).name) = .ok [0x41, 0x74, 0xEF, 0xBF, 0xBD, 0x09] := by
    decide +kernel
  have hingestor : (IngestorDecoder.decodePacket noCrypto sensorAdvert [] false).map
      (fun p => (documented p.payload.toPayload).name) = .ok [0x41] := by
    decide +kernel
  intro h
  unfold Agree at h
  split at h
  · next p q hp hq =>
      rw [hp] at hserver
      rw [hq] at hingestor
      simp only [Except.map, Except.ok.injEq] at hserver hingestor
      rw [h.2.2.2, hingestor] at hserver
      exact absurd hserver (by decide)
  · next e hp hq =>
      rw [hp] at hserver
      cases hserver
  · exact h

end MeshcoreAnalyzer.DecoderAgreement

import MeshcoreAnalyzer.ClientReception
import MeshcoreAnalyzer.DecoderAgreement
import MeshcoreAnalyzer.RawHex

namespace MeshcoreAnalyzer.ClientReception

open GoBytes FrameGrammar RawHex
open MeshcoreAnalyzer.Frame hiding Payload DecodedPacket
open IngestorDecoder (DecodedPacket utf8 decodePacket decodePayload decodeAdvert)
open MessageRouter (World Config Object Moment Delivery text field lowerASCII resolveRxTimeCore)
open PacketStore (trimSpace)
open Calendar (stamp)
open Timestamps (second)

/-- A node, by its public key. -/
structure Node where
  key : Bytes
  length : key.length = 32

/-- The part of its key that a node puts into the path of the frame. -/
def Node.hash (n : Node) (f : WireFrame) : Bytes := n.key.take (hashSize f.pathByte)

def isFlood (f : WireFrame) : Prop := routeBits f.header = 0 ∨ routeBits f.header = 1

def isAdvert (f : WireFrame) : Prop := (decodeHeader f.header).payloadType = payloadADVERT

structure SameFrame (f f' : WireFrame) : Prop where
  header : f'.header = f.header
  size : hashSize f'.pathByte = hashSize f.pathByte
  payload : f'.payload = f.payload

/-- The node sends the frame. A flood starts with no path, and each node that forwards it puts its hash to the end;
any other frame has its route in it, and the node that forwards it takes its hash from the front. An advert begins
with the key of its node, and is flooded or sent to those around only. -/
inductive Sends : Node → WireFrame → Prop
  | flood (n : Node) (f : WireFrame) (hroute : isFlood f) (hpath : f.pathBytes = [])
      (hadvert : isAdvert f → f.payload.take 32 = n.key) : Sends n f
  | direct (n : Node) (f : WireFrame) (hroute : ¬ isFlood f)
      (hadvert : isAdvert f → f.pathBytes = [] ∧ f.payload.take 32 = n.key) : Sends n f
  | forward (m n : Node) (f f' : WireFrame) (h : Sends m f) (hroute : isFlood f) (hsame : SameFrame f f')
      (hpath : f'.pathBytes = f.pathBytes ++ n.hash f) : Sends n f'
  | route (m n : Node) (f f' : WireFrame) (h : Sends m f) (hroute : ¬ isFlood f) (hsame : SameFrame f f')
      (hpath : f.pathBytes = n.hash f ++ f'.pathBytes) : Sends n f'

instance (f : WireFrame) : Decidable (isFlood f) := inferInstanceAs (Decidable (_ ∨ _))

instance (f : WireFrame) : Decidable (isAdvert f) := inferInstanceAs (Decidable (_ = _))

variable {n : Node} {f f' : WireFrame}

theorem SameFrame.isFlood (h : SameFrame f f') : isFlood f' ↔ isFlood f := by
  rw [ClientReception.isFlood, ClientReception.isFlood, h.header]

theorem SameFrame.isAdvert (h : SameFrame f f') : isAdvert f' ↔ isAdvert f := by
  rw [ClientReception.isAdvert, ClientReception.isAdvert, h.header]

theorem hash_ne_nil (n : Node) (f : WireFrame) : n.hash f ≠ [] := by
  intro h
  have hlen := congrArg List.length h
  have hpos : 0 < hashSize f.pathByte := Nat.succ_pos _
  rw [Node.hash, List.length_take, n.length, List.length_nil] at hlen
  omega

theorem Sends.path (h : Sends n f) (hroute : isFlood f) :
    f.pathBytes = [] ∨ ∃ before, f.pathBytes = before ++ n.hash f := by
  cases h with
  | flood _ _ hroute' hpath hkey => exact .inl hpath
  | direct _ _ hroute' hkey => exact absurd hroute hroute'
  | forward m _ f₀ _ h hroute₀ hsame hpath =>
      refine .inr ⟨f₀.pathBytes, ?_⟩
      rw [hpath, Node.hash, Node.hash, hsame.size]
  | route m _ f₀ _ h hroute₀ hsame hpath => exact absurd (hsame.isFlood.mp hroute) hroute₀

theorem Sends.advert (h : Sends n f) (hadvert : isAdvert f) (hpath : f.pathBytes = []) : f.payload.take 32 = n.key := by
  have hdirect : ∀ {n : Node} {f : WireFrame}, Sends n f → isAdvert f → ¬ isFlood f →
      f.pathBytes = [] ∧ f.payload.take 32 = n.key := by
    intro n f h
    induction h with
    | flood n f hroute hpath hkey => exact fun _ hno => absurd hroute hno
    | direct n f hroute hkey => exact fun hadvert _ => hkey hadvert
    | forward m n f f' h hroute hsame hpath ih => exact fun _ hno => absurd (hsame.isFlood.mpr hroute) hno
    | route m n f f' h hroute hsame hpath ih =>
        intro hadvert _
        have hnil := (ih (hsame.isAdvert.mp hadvert) hroute).1
        rw [hnil] at hpath
        exact absurd (List.append_eq_nil_iff.mp hpath.symm).1 (hash_ne_nil n f)
  cases h with
  | flood _ _ hroute hpath hkey => exact hkey hadvert
  | direct _ _ hroute hkey => exact (hkey hadvert).2
  | forward m _ f₀ _ h hroute hsame hpath' =>
      rw [hpath'] at hpath
      exact absurd (List.append_eq_nil_iff.mp hpath).2 (hash_ne_nil n f₀)
  | route m _ f₀ _ h hroute hsame hpath' =>
      exact (hdirect (.route m n f₀ f h hroute hsame hpath') hadvert (fun hflood => hroute (hsame.isFlood.mp hflood))).2

theorem lowerDigit : ∀ c : UInt8, (hexVal c).isSome →
    (if 65 ≤ c ∧ c ≤ 90 then c + 32 else c) = hexDigit ((hexVal c).getD 0) := by decide +kernel

theorem hexVal_lt : ∀ c : UInt8, ∀ v ∈ hexVal c, v < 16 := by decide +kernel

theorem lowerHex_of_hexOf {s bs : Bytes} (h : HexOf s bs) : lowerHex s = hexEncode bs := by
  induction h with
  | nil => rfl
  | @cons p q a b s bs ha hb h ih =>
      have hp := lowerDigit p (by rw [ha]; rfl)
      have hq := lowerDigit q (by rw [hb]; rfl)
      rw [ha] at hp
      rw [hb] at hq
      have ha16 := hexVal_lt p a ha
      have hb16 := hexVal_lt q b hb
      have hbyte : (UInt8.ofNat (16 * a + b)).toNat = 16 * a + b := by
        rw [UInt8.toNat_ofNat']
        omega
      have hhigh : (16 * a + b) / 16 = a := by omega
      have hlow : (16 * a + b) % 16 = b := by omega
      simp only [lowerHex, List.map_cons, hexEncode, List.flatMap_cons, hbyte, hhigh, hlow] at ih ⊢
      rw [hp, hq, ih]
      rfl

theorem hexOf_split {s t bs cs : Bytes} (h : HexOf (s ++ t) (bs ++ cs)) (hlen : s.length = 2 * bs.length) :
    HexOf s bs ∧ HexOf t cs := by
  induction bs generalizing s with
  | nil =>
      obtain rfl : s = [] := List.eq_nil_of_length_eq_zero hlen
      exact ⟨.nil, h⟩
  | cons b bs ih =>
      match s, hlen with
      | p :: q :: s, hlen =>
          cases h with
          | cons ha hb h =>
              obtain ⟨hs, ht⟩ := ih h (by simp only [List.length_cons] at hlen; omega)
              exact ⟨.cons ha hb hs, ht⟩

theorem trimSpace_of_hexOf {s bs : Bytes} (h : HexOf s bs) : Spaces.trimSpace s = s := by
  have hdigit : ∀ c ∈ s, c < 0x80 ∧ Spaces.isSpace c.toNat = false := fun c hc =>
    ⟨(hexVal_spec c (h.digits c hc)).1, (hexVal_spec c (h.digits c hc)).2.1⟩
  rw [Spaces.trimSpace_ascii fun c hc => (hdigit c hc).1, ← Spaces.filter_eq_trim, List.filter_eq_self]
  · intro c hc
    rw [(hdigit c hc).2, Bool.not_false]
  · intro c hc
    exact (hdigit c ((List.dropWhile_suffix _).subset ((List.rdropWhile_prefix _ _).subset hc))).2

structure Reads (p : DecodedPacket) (f : WireFrame) : Prop where
  header : p.header = decodeHeader f.header
  path : p.header.payloadType ≠ payloadTRACE → PathOf p.path p.header f.pathByte f.pathBytes
  pubKey : isAdvert f → p.payload.pubKey = if f.payload.length < 100 then [] else hexEncode (f.payload.take 32)

theorem advertBase_pubKey {ε : Type} {crypto : Crypto} {buf rest : Bytes} {validate : Bool} {p : Frame.Payload}
    (h : (advertBase crypto buf validate : Go ε _) = .ok (p, rest)) : p.pubKey = hexEncode (buf.take 32) := by
  rw [advertBase] at h
  obtain ⟨pubKey, hkey, h⟩ := ok_of_bind h
  obtain ⟨_, _, h⟩ := ok_of_bind h
  obtain ⟨_, _, h⟩ := ok_of_bind h
  obtain ⟨_, _, h⟩ := ok_of_bind h
  obtain ⟨_, _, h⟩ := ok_of_bind h
  have hslice : pubKey = buf.take 32 := by
    rw [slice] at hkey
    split at hkey
    · cases hkey
      rfl
    · cases hkey
  split at h
  · cases h
    rw [hslice]
  · cases h
    rw [hslice]

theorem decodeAdvert_pubKey {ε : Type} {crypto : Crypto} {buf : Bytes} {validate : Bool} {p : IngestorDecoder.Payload}
    (h : (decodeAdvert crypto buf validate : Go ε _) = .ok p) :
    p.pubKey = if buf.length < 100 then [] else hexEncode (buf.take 32) := by
  rw [decodeAdvert] at h
  split at h
  · next hshort =>
      cases h
      rw [if_pos hshort]
      rfl
  next hlong =>
  rw [if_neg hlong]
  obtain ⟨⟨base, appdata⟩, hbase, h⟩ := ok_of_bind h
  have hkey := advertBase_pubKey hbase
  dsimp only at h
  split at h
  · obtain ⟨_, _, h⟩ := ok_of_bind h
    obtain ⟨⟨lat, lon, off⟩, _, h⟩ := ok_of_bind h
    obtain ⟨⟨feat1, off⟩, _, h⟩ := ok_of_bind h
    obtain ⟨⟨feat2, off⟩, _, h⟩ := ok_of_bind h
    dsimp only at h
    split at h
    · obtain ⟨_, _, h⟩ := ok_of_bind h
      rw [DecoderAgreement.advertTelemetry_toPayload h]
      exact hkey
    · rw [DecoderAgreement.advertTelemetry_toPayload h]
      exact hkey
  · cases h
    exact hkey

theorem reads {crypto : Crypto} {s : Bytes} {channelKeys : List (Bytes × Bytes)} {validate : Bool} {p : DecodedPacket}
    (hp : decodePacket crypto s channelKeys validate = .ok p) (hs : HexOf (stripSpace s) f.encode) : Reads p f := by
  obtain ⟨w, hw, -, hdesc⟩ := readPacket_of_hexOf hs
  obtain ⟨p', hp', hheader, -, -, hraw, hpath⟩ :=
    IngestorDecoder.decodePacket_of_readPacket crypto channelKeys validate hw
  obtain rfl : p' = p := Except.ok.inj (hp'.symm.trans hp)
  refine ⟨hheader.trans hdesc.header, fun ht => ?_, fun hadvert => ?_⟩
  · rw [hpath (hheader ▸ ht), hheader]
    exact pathOf_resetZeroHop hdesc (hheader ▸ ht)
  · have htype : p'.header.payloadType = payloadADVERT := by
      rw [hheader, hdesc.header]
      exact hadvert
    have hpayload := decodePayload_of_decodePacket hp (by rw [htype]; decide)
    rw [htype, hraw, hdesc.payload] at hpayload
    exact decodeAdvert_pubKey hpayload

variable {p : DecodedPacket}

theorem Reads.lastHop (h : Reads p f) (ht : p.header.payloadType ≠ payloadTRACE) {hop : Bytes}
    (hlast : p.path.hops.getLast? = some hop) :
    ∃ before tail, f.pathBytes = before ++ tail ∧ tail.length = hashSize f.pathByte ∧ HexOf hop tail := by
  have hpath := h.path ht
  obtain ⟨init, hinit⟩ := List.getLast?_eq_some_iff.mp hlast
  have hcount : hashCount f.pathByte ≠ 0 := by
    have hlen := hpath.hops_length
    rw [hinit, List.length_append, List.length_singleton, hpath.count] at hlen
    omega
  have hsize : p.path.hashSize = hashSize f.pathByte := by
    rw [hpath.size, if_neg fun hno => hcount hno.2]
  have hhop := (hpath.hops hop (by rw [hinit]; exact List.mem_append_right _ (List.mem_singleton.mpr rfl))).1
  have hspells := hpath.spells
  rw [hinit, List.flatten_append, List.flatten_singleton] at hspells
  have hlen := hspells.length
  rw [List.length_append] at hlen
  rw [← List.take_append_drop (f.pathBytes.length - hashSize f.pathByte) f.pathBytes] at hspells
  obtain ⟨-, htail⟩ := hexOf_split hspells (by rw [List.length_take]; omega)
  exact ⟨_, _, (List.take_append_drop _ _).symm, by rw [List.length_drop]; omega, htail⟩

def heardOf (n : Node) (f : WireFrame) : Option (Bytes × Nat × String) :=
  if f.pathBytes = [] then if isAdvert f ∧ 100 ≤ f.payload.length then some (hexEncode n.key, 32, "advert") else none
  else if isFlood f ∧ 2 ≤ hashSize f.pathByte then some (hexEncode (n.hash f), hashSize f.pathByte, "rxlog")
  else none

theorem payloadTypeName_decodeHeader : ∀ b : UInt8,
    (decodeHeader b).payloadTypeName = "ADVERT" ↔ (decodeHeader b).payloadType = payloadADVERT := by decide +kernel

theorem pathBytesAreHops_decodeHeader : ∀ b : UInt8,
    StoredPath.pathBytesAreHops (UInt8.ofNat (decodeHeader b).payloadType) = true ↔
      (decodeHeader b).payloadType ≠ payloadTRACE := by decide +kernel

theorem Node.hash_length (n : Node) (f : WireFrame) : (n.hash f).length = hashSize f.pathByte := by
  have hbyte := f.pathByte.toNat_lt
  rw [Node.hash, List.length_take, n.length, Nat.min_eq_left]
  rw [hashSize]
  omega

theorem Reads.flood (h : Reads p f) :
    isFlood f ↔ p.header.routeType = routeTransportFlood ∨ p.header.routeType = routeFlood := by
  rw [isFlood, h.header, routeType_decodeHeader]

theorem Reads.noHops (h : Reads p f) (ht : p.header.payloadType ≠ payloadTRACE) (hhops : p.path.hops = []) :
    f.pathBytes = [] := by
  have hpath := h.path ht
  have hlen := hpath.spells.length
  rw [hhops, List.flatten_nil, List.length_nil] at hlen
  apply List.eq_nil_of_length_eq_zero
  omega

theorem deriveHeardKey_noHops {direction : String} {routeType payloadType : Nat} {hops : List Bytes} {pubKey : Bytes}
    {advert : Bool}
    (hdir : lowerASCII direction = "rx".toList) (hhops : StoredPath.pathBytesAreHops (UInt8.ofNat payloadType) = true)
    (hlast : hops.getLast? = none) :
    deriveHeardKey direction routeType payloadType hops pubKey advert =
      if advert ∧ pubKey ≠ [] then
        some (lowerHex (Spaces.trimSpace pubKey), (lowerHex (Spaces.trimSpace pubKey)).length / 2, "advert")
      else none := by
  simp [deriveHeardKey, hdir, hhops, hlast]

theorem deriveHeardKey_hops {direction : String} {routeType payloadType : Nat} {hops : List Bytes} {pubKey hop : Bytes}
    {advert : Bool}
    (hdir : lowerASCII direction = "rx".toList) (hhops : StoredPath.pathBytesAreHops (UInt8.ofNat payloadType) = true)
    (hlast : hops.getLast? = some hop) :
    deriveHeardKey direction routeType payloadType hops pubKey advert =
      if (routeType = routeTransportFlood ∨ routeType = routeFlood) ∧
          2 ≤ (lowerHex (Spaces.trimSpace hop)).length / 2 then
        some (lowerHex (Spaces.trimSpace hop), (lowerHex (Spaces.trimSpace hop)).length / 2, "rxlog")
      else none := by
  simp only [deriveHeardKey, hdir, hhops, hlast]
  by_cases hroute : routeType = routeTransportFlood ∨ routeType = routeFlood
  · by_cases hlen : 2 ≤ (lowerHex (Spaces.trimSpace hop)).length / 2
    · have hlong : ¬ (lowerHex (Spaces.trimSpace hop)).length / 2 < 2 := Nat.not_lt.mpr hlen
      rw [if_pos (⟨hroute, hlen⟩ : _ ∧ _)]
      simp [hroute, hlong, ← not_or]
    · simp [hlen, Nat.lt_of_not_le hlen]
  · simp [hroute, ← not_or]

theorem Reads.sender (h : Reads p f) (hsent : Sends n f) (ht : p.header.payloadType ≠ payloadTRACE) (hflood : isFlood f)
    {hop : Bytes} (hlast : p.path.hops.getLast? = some hop) : HexOf hop (n.hash f) := by
  obtain ⟨before, tail, hpath, hlen, hhex⟩ := h.lastHop ht hlast
  obtain hnil | ⟨before', hpath'⟩ := hsent.path hflood
  · rw [hnil] at hpath
    rw [(List.append_eq_nil_iff.mp hpath.symm).2] at hlen
    exact absurd hlen (Nat.succ_ne_zero _).symm
  · rw [← (List.append_inj' (hpath.symm.trans hpath') (by rw [hlen, n.hash_length])).2]
    exact hhex

theorem deriveHeardKey_of_sends (hsent : Sends n f) (h : Reads p f) (direction : String) :
    deriveHeardKey direction p.header.routeType p.header.payloadType p.path.hops p.payload.pubKey
        (p.header.payloadTypeName = "ADVERT") =
      if lowerASCII direction = "rx".toList ∧ p.header.payloadType ≠ payloadTRACE then heardOf n f else none := by
  have hhops := pathBytesAreHops_decodeHeader f.header
  have hname := payloadTypeName_decodeHeader f.header
  rw [← h.header] at hhops hname
  by_cases hdir : lowerASCII direction = "rx".toList
  case neg => rw [deriveHeardKey, if_pos hdir, if_neg fun hno => hdir hno.1]
  by_cases ht : p.header.payloadType = payloadTRACE
  case pos =>
    have hno : StoredPath.pathBytesAreHops (UInt8.ofNat p.header.payloadType) = false := by
      rw [← Bool.not_eq_true, hhops]
      exact fun hne => hne ht
    rw [deriveHeardKey, if_neg (not_not.mpr hdir), hno, Bool.not_false, if_pos rfl, if_neg fun hyes => hyes.2 ht]
  cases hlast : p.path.hops.getLast? with
  | none =>
      -- the advert of the node itself
      have hnil := h.noHops ht (List.getLast?_eq_none_iff.mp hlast)
      have hadvert : isAdvert f ↔ p.header.payloadTypeName = "ADVERT" := by rw [hname, isAdvert, h.header]
      rw [deriveHeardKey_noHops hdir (hhops.mpr ht) hlast]
      by_cases ha : isAdvert f
      case neg =>
        have hno : p.header.payloadTypeName ≠ "ADVERT" := mt hadvert.mpr ha
        simp [heardOf, ha, hno, hnil]
      have hkey := h.pubKey ha
      rw [hsent.advert ha hnil] at hkey
      have hlen := (hexOf_hexEncode n.key).length
      rw [n.length] at hlen
      by_cases hlong : 100 ≤ f.payload.length
      · rw [if_neg (not_lt.mpr hlong)] at hkey
        have hne : hexEncode n.key ≠ [] := fun hno => by
          rw [hno] at hlen
          cases hlen
        simp [heardOf, ha, hadvert.mp ha, hnil, hdir, ht, hlong, hkey, hne, hlen,
          trimSpace_of_hexOf (hexOf_hexEncode n.key), lowerHex_of_hexOf (hexOf_hexEncode n.key)]
      · rw [if_pos (not_le.mp hlong)] at hkey
        simp [heardOf, hnil, hkey, hlong]
  | some hop =>
      -- the end of the path is the hash of the node where the frame is a flood
      obtain ⟨before, tail, hpath, hlen, hhex⟩ := h.lastHop ht hlast
      have hne : f.pathBytes ≠ [] := by
        intro hnil
        rw [hnil] at hpath
        rw [(List.append_eq_nil_iff.mp hpath.symm).2] at hlen
        exact absurd hlen (Nat.succ_ne_zero _).symm
      have hhalf : (hexEncode tail).length / 2 = hashSize f.pathByte := by
        rw [(hexOf_hexEncode tail).length, hlen]
        omega
      rw [deriveHeardKey_hops hdir (hhops.mpr ht) hlast, trimSpace_of_hexOf hhex, lowerHex_of_hexOf hhex, hhalf]
      simp only [← h.flood]
      by_cases hflood : isFlood f
      case neg => simp [heardOf, hne, hflood]
      have htail : tail = n.hash f := hhex.unique (h.sender hsent ht hflood hlast)
      simp [heardOf, hne, hflood, hdir, ht, htail]

/-- The frame tells who sent it: an advert of the node itself, or a flood with a long enough hash at its end. -/
def Tells (f : WireFrame) : Prop :=
  f.pathBytes = [] ∧ isAdvert f ∧ 100 ≤ f.payload.length ∨ f.pathBytes ≠ [] ∧ isFlood f ∧ 2 ≤ hashSize f.pathByte

def isTrace (f : WireFrame) : Prop := (decodeHeader f.header).payloadType = payloadTRACE

instance (f : WireFrame) : Decidable (isTrace f) := inferInstanceAs (Decidable (_ = _))

theorem heardOf_isSome : (heardOf n f).isSome ↔ Tells f := by
  rw [heardOf, Tells]
  by_cases hnil : f.pathBytes = []
  · simp [hnil, apply_ite Option.isSome]
  · simp [hnil, apply_ite Option.isSome]

theorem heardOf_key {heard : Bytes × Nat × String} (h : heardOf n f = some heard) :
    2 ≤ heard.2.1 ∧ heard.2.1 ≤ 32 ∧ heard.1 = hexEncode (n.key.take heard.2.1) := by
  rw [heardOf] at h
  split at h
  · split at h
    · obtain rfl := Option.some.inj h
      exact ⟨Nat.le_add_left 2 30, le_refl _, by rw [List.take_of_length_le (le_of_eq n.length)]⟩
    · cases h
  · split at h
    · next hsize =>
        obtain rfl := Option.some.inj h
        have hbyte := f.pathByte.toNat_lt
        refine ⟨hsize.2, ?_, rfl⟩
        dsimp only
        rw [hashSize]
        omega
    · cases h

variable {w : World} {at_ : Moment} {cfg : Config} {topicPubkey : String} {msg : Object}

def Placed (w : World) (msg : Object) : Prop :=
  ∃ gps lat lon, gpsFix w msg = some (gps, lat, lon) ∧ outOfRange lat lon = false

def companionOf (w : World) (topicPubkey : String) : String := w.toLower (trimSpace topicPubkey)

/-- What a message leads to when the node has sent the frame in it. -/
structure Attributed (w : World) (cfg : Config) (topicPubkey : String) (msg : Object) (n : Node) (f : WireFrame)
    (statements : List Statement) : Prop where
  heard : ∀ row, .insertClientReception row ∈ statements →
    2 ≤ row.heardKeyLen ∧ row.heardKeyLen ≤ 32 ∧ row.heardKey = w.text (hexEncode (n.key.take row.heardKeyLen))
  recorded : (∃ row, .insertClientReception row ∈ statements) ↔
    isClientPubkey (companionOf w topicPubkey) ∧ Placed w msg ∧
      lowerASCII ((MessageRouter.direction msg).getD "") = "rx".toList ∧ ¬ isTrace f ∧ Tells f
  forwarder : ∀ row, .insertClientRxObservation row ∈ statements →
    ∀ key ∈ row.forwarder, key = w.text (hexEncode (n.hash f))

theorem buildClientRxObservation_forwarder {direction rxPubkey rawHex rxAt ingestedAt : String} {fix : Fix}
    {row : RxObservation}
    (h : buildClientRxObservation w at_ direction rxPubkey rawHex rxAt ingestedAt p fix = .ok (some row)) {key : String}
    (hkey : key ∈ row.forwarder) :
    StoredPath.pathBytesAreHops (UInt8.ofNat p.header.payloadType) = true ∧
      (p.header.routeType = routeTransportFlood ∨ p.header.routeType = routeFlood) ∧
      ∃ hop, p.path.hops.getLast? = some hop ∧ key = w.text (lowerHex hop) := by
  rw [buildClientRxObservation] at h
  split at h
  · cases h
  obtain ⟨hash, _, h⟩ := ok_of_bind h
  obtain rfl := Option.some.inj (Except.ok.inj h)
  dsimp only at hkey
  split at hkey
  · next hnamed =>
      rw [List.getLast?_map, Option.map_map, Option.mem_map] at hkey
      obtain ⟨hop, hlast, rfl⟩ := hkey
      exact ⟨hnamed.1.2, hnamed.2, hop, hlast, rfl⟩
  · cases hkey

theorem buildClientRxObservation_returns {rawHex : String} (hraw : HexOf (stripSpace (utf8 rawHex)) f.encode)
    (direction rxPubkey rxAt ingestedAt : String) (p : DecodedPacket) (fix : Fix) :
    Returns (buildClientRxObservation w at_ direction rxPubkey rawHex rxAt ingestedAt p fix) := by
  obtain ⟨wire, hwire, -⟩ := readPacket_of_hexOf hraw
  rw [buildClientRxObservation]
  split
  · exact .pure _
  · obtain ⟨hash, hhash⟩ := StoredPath.computeContentHash_returns (ε := Unit) hwire w.sha256
    rw [hhash]
    exact .pure _

theorem mem_recordReception {rxPubkey rawHex : String} {fix : Fix} (hraw : HexOf (stripSpace (utf8 rawHex)) f.encode)
    (row : Reception) :
    .insertClientReception row ∈ recordReception w at_ cfg rxPubkey rawHex msg p fix ↔
      buildClientReception w rxPubkey ((MessageRouter.direction msg).getD "") p fix
        (stamp ((resolveRxTimeCore at_.now msg).1 / second)) at_.stampNow = some row := by
  have hreturns : ∃ o, (if cfg.clientRxObservations then
      buildClientRxObservation w at_ ((MessageRouter.direction msg).getD "") rxPubkey rawHex
        (millisText (resolveRxTimeCore at_.now msg).1) at_.stampNow p fix
      else .ok none) = .ok o := by
    split
    · exact buildClientRxObservation_returns hraw _ _ _ _ p fix
    · exact ⟨none, rfl⟩
  obtain ⟨o, ho⟩ := hreturns
  rw [recordReception]
  simp only [ho, List.mem_append, Option.mem_toList, Option.map_eq_some_iff, reduceCtorEq, and_false, exists_false,
    false_or]
  split
  · next hnone => simp [hnone]
  · next row' hsome =>
      rw [hsome, Option.some.injEq, List.mem_cons, Statement.insertClientReception.injEq, eq_comm (a := row)]
      apply or_iff_left
      split <;> simp

theorem mem_recordReception_observation {rxPubkey rawHex : String} {fix : Fix} {row : RxObservation}
    (h : .insertClientRxObservation row ∈ recordReception w at_ cfg rxPubkey rawHex msg p fix) :
    buildClientRxObservation w at_ ((MessageRouter.direction msg).getD "") rxPubkey rawHex
      (millisText (resolveRxTimeCore at_.now msg).1) at_.stampNow p fix = .ok (some row) := by
  rw [recordReception] at h
  split at h
  · cases h
  next o ho =>
  have ho' : o = some row := by
    rcases List.mem_append.mp h with h | h
    · simpa using h
    · split at h
      · cases h
      · rcases List.mem_cons.mp h with h | h
        · cases h
        · split at h <;> simp at h
  split at ho
  · rw [ho, ho']
  · rw [ho'] at ho
    cases ho

theorem mem_handleClientPacket {a : Statement} :
    a ∈ handleClientPacket w at_ cfg topicPubkey msg ↔
      isClientPubkey (companionOf w topicPubkey) ∧ text msg "raw" ≠ "" ∧
        ∃ gps lat lon decoded, gpsFix w msg = some (gps, lat, lon) ∧
          decodePacket w.crypto (utf8 (text msg "raw")) at_.channelKeys false = .ok decoded ∧
          a ∈ recordReception w at_ cfg (companionOf w topicPubkey) (text msg "raw") msg decoded
            (fixOf w msg gps lat lon) := by
  rw [handleClientPacket, ← companionOf]
  by_cases hvalid : isClientPubkey (companionOf w topicPubkey) = true
  case neg => simp [hvalid]
  by_cases hraw : text msg "raw" = ""
  case pos => simp [hraw]
  simp only [hvalid, hraw, Bool.not_true, Bool.false_eq_true, if_false, true_and, ne_eq, not_false_eq_true]
  split
  · next gps lat lon decoded hgps hdecoded => simp [hgps, hdecoded]
  · next hno =>
      constructor
      · intro h
        cases h
      · rintro ⟨gps, lat, lon, decoded, hgps, hdecoded, -⟩
        exact absurd hdecoded (hno gps lat lon decoded hgps)

theorem isClientPubkey_ne {s : String} (h : isClientPubkey s = true) : s ≠ "" := by
  rintro rfl
  exact absurd h (by decide)

theorem buildClientReception_some {rxPubkey direction rxAt ingestedAt : String} {fix : Fix} {row : Reception}
    (h : buildClientReception w rxPubkey direction p fix rxAt ingestedAt = some row) :
    (outOfRange fix.lat fix.lon = false ∧ row.lat = fix.lat ∧ row.lon = fix.lon) ∧ row.rxPubkey = w.toLower rxPubkey ∧
      ∃ heard, deriveHeardKey direction p.header.routeType p.header.payloadType p.path.hops p.payload.pubKey
          (p.header.payloadTypeName = "ADVERT") = some heard ∧
        row.heardKey = w.text heard.1 ∧ row.heardKeyLen = heard.2.1 := by
  rw [buildClientReception] at h
  split at h
  · cases h
  split at h
  · cases h
  next hrange =>
  obtain ⟨heard, hheard, rfl⟩ := Option.map_eq_some_iff.mp h
  exact ⟨⟨by simpa using hrange, rfl, rfl⟩, rfl, heard, hheard, rfl, rfl⟩

theorem buildClientReception_isSome {rxPubkey direction rxAt ingestedAt : String} {fix : Fix} (hrx : rxPubkey ≠ "")
    (hat : rxAt ≠ "") :
    (buildClientReception w rxPubkey direction p fix rxAt ingestedAt).isSome ↔
      outOfRange fix.lat fix.lon = false ∧
        (deriveHeardKey direction p.header.routeType p.header.payloadType p.path.hops p.payload.pubKey
          (p.header.payloadTypeName = "ADVERT")).isSome := by
  rw [buildClientReception, if_neg (by simp [hrx, hat])]
  by_cases hrange : outOfRange fix.lat fix.lon = true
  · simp [hrange]
  · simp [hrange]

theorem deriveHeardKey_eq_some (hsent : Sends n f) (h : Reads p f) {direction : String} {heard : Bytes × Nat × String} :
    deriveHeardKey direction p.header.routeType p.header.payloadType p.path.hops p.payload.pubKey
        (p.header.payloadTypeName = "ADVERT") = some heard ↔
      (lowerASCII direction = "rx".toList ∧ ¬ isTrace f) ∧ heardOf n f = some heard := by
  rw [deriveHeardKey_of_sends hsent h, h.header, isTrace]
  split
  · next hyes => simp only [hyes, not_false_eq_true, and_self, true_and]
  · next hno => exact iff_of_false (by simp) fun hyes => hno hyes.1

theorem reception_heard (hsent : Sends n f) (hreads : Reads p f) {rxPubkey direction rxAt ingestedAt : String}
    {fix : Fix} {row : Reception} (hrow : buildClientReception w rxPubkey direction p fix rxAt ingestedAt = some row) :
    2 ≤ row.heardKeyLen ∧ row.heardKeyLen ≤ 32 ∧ row.heardKey = w.text (hexEncode (n.key.take row.heardKeyLen)) := by
  obtain ⟨-, -, heard, hheard, hkey, hlen⟩ := buildClientReception_some hrow
  obtain ⟨-, hheard⟩ := (deriveHeardKey_eq_some hsent hreads).mp hheard
  rw [hkey, hlen]
  exact ⟨(heardOf_key hheard).1, (heardOf_key hheard).2.1, congrArg w.text (heardOf_key hheard).2.2⟩

/-- What a message leads to, where the text in it spells a frame that the node has sent. -/
theorem heard_transmitter (w : World) (at_ : Moment) (cfg : Config) (topicPubkey : String) (msg : Object)
    (hsent : Sends n f) (hraw : HexOf (stripSpace (utf8 (text msg "raw"))) f.encode) :
    Attributed w cfg topicPubkey msg n f (handleClientPacket w at_ cfg topicPubkey msg) := by
  refine ⟨fun row hrow => ?_, ⟨?_, ?_⟩, fun row hrow key hkey => ?_⟩
  · obtain ⟨-, -, gps, lat, lon, p, -, hp, hrow⟩ := mem_handleClientPacket.mp hrow
    exact reception_heard hsent (reads hp hraw) ((mem_recordReception hraw row).mp hrow)
  · rintro ⟨row, hrow⟩
    obtain ⟨hvalid, -, gps, lat, lon, p, hgps, hp, hrow⟩ := mem_handleClientPacket.mp hrow
    obtain ⟨hrange, -, heard, hheard, -⟩ := buildClientReception_some ((mem_recordReception hraw row).mp hrow)
    obtain ⟨⟨hdir, htrace⟩, hheard⟩ := (deriveHeardKey_eq_some hsent (reads hp hraw)).mp hheard
    exact ⟨hvalid, ⟨gps, lat, lon, hgps, hrange.1⟩, hdir, htrace, heardOf_isSome.mp (by rw [hheard]; rfl)⟩
  · rintro ⟨hvalid, ⟨gps, lat, lon, hgps, hrange⟩, hdir, htrace, htells⟩
    obtain ⟨wire, hwire, -⟩ := readPacket_of_hexOf hraw
    obtain ⟨p, hp, -⟩ := IngestorDecoder.decodePacket_of_readPacket w.crypto at_.channelKeys false hwire
    obtain ⟨heard, hheard⟩ := Option.isSome_iff_exists.mp ((heardOf_isSome (n := n)).mpr htells)
    have hderive := (deriveHeardKey_eq_some hsent (reads hp hraw)).mpr ⟨⟨hdir, htrace⟩, hheard⟩
    have hsome : (buildClientReception w (companionOf w topicPubkey) ((MessageRouter.direction msg).getD "") p
        (fixOf w msg gps lat lon) (stamp ((resolveRxTimeCore at_.now msg).1 / second)) at_.stampNow).isSome :=
      (buildClientReception_isSome (isClientPubkey_ne hvalid) (ConfiguredScope.stamp_ne_empty _)).mpr
        ⟨hrange, by rw [hderive]; rfl⟩
    obtain ⟨row, hrow⟩ := Option.isSome_iff_exists.mp hsome
    have hne : text msg "raw" ≠ "" := by
      intro hempty
      rw [hempty] at hraw
      exact absurd hraw.length (by rw [f.encode_length]; exact (Nat.succ_ne_zero _).symm)
    exact ⟨row, mem_handleClientPacket.mpr
      ⟨hvalid, hne, gps, lat, lon, p, hgps, hp, (mem_recordReception hraw row).mpr hrow⟩⟩
  · obtain ⟨-, -, gps, lat, lon, p, -, hp, hrow⟩ := mem_handleClientPacket.mp hrow
    have hreads := reads hp hraw
    obtain ⟨hhops, hflood, hop, hlast, rfl⟩ :=
      buildClientRxObservation_forwarder (mem_recordReception_observation hrow) hkey
    have ht : p.header.payloadType ≠ payloadTRACE := by
      rw [hreads.header] at hhops ⊢
      exact (pathBytesAreHops_decodeHeader f.header).mp hhops
    rw [lowerHex_of_hexOf (hreads.sender hsent ht (hreads.flood.mpr hflood) hlast)]

def Statement.reception? : Statement → Option Reception
  | .insertClientReception row => some row
  | _ => none

def Statement.rxObservation? : Statement → Option RxObservation
  | .insertClientRxObservation row => some row
  | _ => none

def Statement.rfSample? : Statement → Option RfSample
  | .insertClientRfSample row => some row
  | _ => none

def relay : Node := ⟨0xAA :: 0xBB :: List.replicate 30 0, rfl⟩

def forwardedPayload : Object :=
  [("raw", .str "0141AABB"), ("direction", .str "rx"), ("gps", .obj [("lat", .num "51"), ("lon", .num "4")])]

def forwardedMessage : Delivery where
  source := ⟨[], ""⟩
  at_ := ⟨0, "", "", [], ⟨[], []⟩, []⟩
  message := ⟨"meshcore/client/ab/packets", false, some forwardedPayload⟩

theorem hexOf_forwarded : HexOf (stripSpace (utf8 "0141AABB")) [0x01, 0x41, 0xAA, 0xBB] :=
  (hexDecode_eq_ok _ _).mp (by decide +kernel)

theorem sends_forwarded (h : f.encode = [0x01, 0x41, 0xAA, 0xBB]) : Sends relay f := by
  obtain ⟨hheader, htail⟩ := List.cons.inj h
  have hcodes : f.codes = [] := by
    apply List.eq_nil_of_length_eq_zero
    rw [f.codes_length, hheader]
    rfl
  rw [hcodes, List.nil_append] at htail
  obtain ⟨hpathByte, htail⟩ := List.cons.inj htail
  have hlen := f.pathBytes_length
  rw [hpathByte] at hlen
  have hwhole : f.pathBytes ++ f.payload = [0xAA, 0xBB] ++ [] := htail
  obtain ⟨hpath, hpayload⟩ := List.append_inj hwhole hlen
  have hroute : isFlood f := .inr (by rw [hheader]; rfl)
  have hadvert : ¬ isAdvert f := by
    rw [isAdvert, hheader]
    decide
  let start : WireFrame :=
    { f with
      pathByte := 0x40
      pathBytes := []
      hashSize_ne := by decide
      pathBytes_le := by decide
      pathBytes_length := rfl }
  have hstart : Sends relay start := .flood relay start hroute rfl fun ha => absurd ha hadvert
  refine .forward relay relay start f hstart hroute ⟨rfl, ?_, rfl⟩ ?_
  · rw [hpathByte]
    exact (by decide : hashSize 0x41 = hashSize 0x40)
  · rw [hpath]
    exact (by decide : [0xAA, 0xBB] = [] ++ relay.key.take (hashSize 0x40))

def heardConfig : Config := { MessageRouter.openConfig with clientRxCoverage := true, clientRxObservations := true }

/-- A reception is recorded, and who has forwarded it. -/
theorem heard_transmitter_forwarded : (∃ f : WireFrame, f.encode = [0x01, 0x41, 0xAA, 0xBB] ∧
    Attributed MessageRouter.plainWorld heardConfig "ab" forwardedPayload relay f
      (handleClientPacket MessageRouter.plainWorld forwardedMessage.at_ heardConfig "ab" forwardedPayload)) ∧
    (handleClientPacket MessageRouter.plainWorld forwardedMessage.at_ heardConfig "ab" forwardedPayload).map
        (fun a => (a.reception?.map fun row => (row.heardKeyLen, row.heardKey),
          a.rxObservation?.map fun row => row.forwarder)) =
      [(none, some (some "aabb")), (some (2, "aabb"), none)] := by
  let f : WireFrame :=
    { header := 0x01
      codes := []
      pathByte := 0x41
      pathBytes := [0xAA, 0xBB]
      payload := []
      codes_length := by decide
      hashSize_ne := by decide
      pathBytes_le := by decide
      pathBytes_length := by decide
      payload_le := by decide }
  refine ⟨⟨f, rfl, heard_transmitter _ _ _ _ _ (sends_forwarded (f := f) rfl) hexOf_forwarded⟩, ?_⟩
  decide +kernel

theorem client_of_mem {source : MessageRouter.MQTTSource} {m : MessageRouter.Message} {pubKey : String}
    (h : .clientPacket pubKey msg ∈ MessageRouter.handleMessage w cfg source at_ m) :
    m.payload = some msg ∧ m.part 2 = pubKey ∧ m.part 3 = "packets" ∧
      cfg.clientRxCoverage ∧ ¬ MessageRouter.isObserverBlacklisted w cfg (m.part 2) := by
  obtain ⟨payload, hpayload, hroute⟩ := MessageRouter.route_of_mem h
  cases hroute with
  | client h =>
      rw [MessageRouter.clientWrites] at h
      grind
  | neighbors hin h =>
      obtain ⟨_, _, _, heq⟩ := MessageRouter.neighbors_cases h
      cases heq
  | status hin h => obtain h | h | ⟨_, _, _, h⟩ := MessageRouter.status_cases h <;> cases h
  | packet hin hfilter h =>
      obtain h | h | ⟨p, -, h⟩ := MessageRouter.packet_cases h
      · cases h
      · cases h
      · cases h with
        | packet data _ h => cases h
        | node data foreign _ _ h => simp [MessageRouter.nodeWrites] at h
  | channel hin hfilter htopic h =>
      obtain ⟨_, h, -⟩ := MessageRouter.channel_cases h
      cases h
  | direct hin hfilter htopic h =>
      obtain ⟨_, h, -⟩ := MessageRouter.direct_cases h
      cases h

def statementsOf (w : World) (cfg : Config) (at_ : Moment) : MessageRouter.Write → List Statement
  | .clientPacket pubKey msg => handleClientPacket w at_ cfg pubKey msg
  | .clientRfSample pubKey msg => handleClientRfSample w at_ pubKey msg
  | _ => []

def clientStatements (w : World) (cfg : Config) (d : Delivery) : List Statement :=
  (d.writes w cfg).flatMap (statementsOf w cfg d.at_)

/-- The frame that the message has in it, if there is one, was sent by the node. -/
def Carries (n : Node) (d : Delivery) : Prop :=
  ∀ msg f, d.message.payload = some msg → HexOf (stripSpace (utf8 (text msg "raw"))) f.encode → Sends n f

/-- The row is of a companion that is let in, at a place on the globe, and for the node that sent what it heard. -/
structure Credited (w : World) (cfg : Config) (n : Node) (d : Delivery) (row : Reception) : Prop where
  enabled : cfg.clientRxCoverage
  admitted : ¬ MessageRouter.isObserverBlacklisted w cfg (d.message.part 2)
  companion : isClientPubkey (companionOf w (d.message.part 2)) ∧
    row.rxPubkey = w.toLower (companionOf w (d.message.part 2))
  place : outOfRange row.lat row.lon = false
  heard : 2 ≤ row.heardKeyLen ∧ row.heardKeyLen ≤ 32 ∧ row.heardKey = w.text (hexEncode (n.key.take row.heardKeyLen))

theorem reception_cases {d : Delivery} {row : Reception} (hsent : Carries n d)
    (h : .insertClientReception row ∈ clientStatements w cfg d) : Credited w cfg n d row := by
  obtain ⟨a, ha, hrow⟩ := List.mem_flatMap.mp h
  cases a with
  | clientPacket pubKey msg =>
      obtain ⟨hpayload, rfl, -, henabled, hadmitted⟩ := client_of_mem ha
      obtain ⟨hvalid, -, gps, lat, lon, p, -, hp, hin⟩ := mem_handleClientPacket.mp hrow
      obtain ⟨wire, hwire⟩ := decodePacket_readPacket hp
      obtain ⟨f, hraw, -⟩ := readPacket_accepts hwire
      have hbuilt := (mem_recordReception hraw row).mp hin
      obtain ⟨⟨hrange, hlat, hlon⟩, hrx, -⟩ := buildClientReception_some hbuilt
      have hheard := reception_heard (hsent msg f hpayload hraw) (reads hp hraw) hbuilt
      refine ⟨henabled, hadmitted, ⟨hvalid, hrx⟩, ?_, hheard⟩
      rw [hlat, hlon]
      exact hrange
  | clientRfSample pubKey msg =>
      simp only [statementsOf, handleClientRfSample] at hrow
      grind
  | _ => cases hrow

theorem receptions_run (t : Tables) (performed : List Statement) :
    (t.run performed).receptions =
      Upserts.insertAll (·.key) (performed.filterMap Statement.reception?) t.receptions := by
  induction performed generalizing t with
  | nil => rfl
  | cons a performed ih => cases a <;> exact ih _

theorem rxObservations_run (t : Tables) (performed : List Statement) :
    (t.run performed).rxObservations =
      Upserts.insertAll (·.key) (performed.filterMap Statement.rxObservation?) t.rxObservations := by
  induction performed generalizing t with
  | nil => rfl
  | cons a performed ih => cases a <;> exact ih _

theorem rfSamples_run (t : Tables) (performed : List Statement) :
    (t.run performed).rfSamples = Upserts.insertAll (·.key) (performed.filterMap Statement.rfSample?) t.rfSamples := by
  induction performed generalizing t with
  | nil => rfl
  | cons a performed ih => cases a <;> exact ih _

/-- The tables have the same rows, up to the names of the companions. -/
structure Same (t t' : Tables) : Prop where
  receptions : t'.receptions = t.receptions
  rxObservations : t'.rxObservations = t.rxObservations
  rfSamples : t'.rfSamples = t.rfSamples

/-- Every reception is credited to the node that was heard, of the rows with one key the first is kept, and
a statement that was run before changes nothing. -/
structure Coverage (w : World) (cfg : Config) (sender : Delivery → Node) (deliveries : List Delivery)
    (performed : List Statement) (t : Tables) : Prop where
  credited : ∀ row ∈ t.receptions, ∃ d ∈ deliveries, Credited w cfg (sender d) d row
  receptions : Upserts.KeepsFirst Reception.key (performed.filterMap Statement.reception?) t.receptions
  rxObservations : Upserts.KeepsFirst RxObservation.key (performed.filterMap Statement.rxObservation?) t.rxObservations
  rfSamples : Upserts.KeepsFirst RfSample.key (performed.filterMap Statement.rfSample?) t.rfSamples
  again : ∀ more, (∀ a ∈ more, a ∈ performed) → Same t (t.run more)

/-- The statements of the messages may run in any order and again and again, and some of them not at all. -/
theorem covered (w : World) (cfg : Config) (sender : Delivery → Node) (deliveries : List Delivery)
    (performed : List Statement) (hsent : ∀ d ∈ deliveries, Carries (sender d) d)
    (hperformed : ∀ a ∈ performed, ∃ d ∈ deliveries, a ∈ clientStatements w cfg d) :
    Coverage w cfg sender deliveries performed (Tables.empty.run performed) := by
  have hreceptions : Upserts.KeepsFirst Reception.key (performed.filterMap Statement.reception?)
      (Tables.empty.run performed).receptions := by
    rw [receptions_run]
    exact Upserts.keepsFirst_insertAll _
  have hrxObservations : Upserts.KeepsFirst RxObservation.key (performed.filterMap Statement.rxObservation?)
      (Tables.empty.run performed).rxObservations := by
    rw [rxObservations_run]
    exact Upserts.keepsFirst_insertAll _
  have hrfSamples : Upserts.KeepsFirst RfSample.key (performed.filterMap Statement.rfSample?)
      (Tables.empty.run performed).rfSamples := by
    rw [rfSamples_run]
    exact Upserts.keepsFirst_insertAll _
  refine ⟨fun row hrow => ?_, hreceptions, hrxObservations, hrfSamples, fun more hmore => ⟨?_, ?_, ?_⟩⟩
  · obtain ⟨a, ha, hrow⟩ := List.mem_filterMap.mp (hreceptions.mem hrow)
    obtain ⟨d, hd, hin⟩ := hperformed a ha
    cases a with
    | insertClientReception row' =>
        cases hrow
        exact ⟨d, hd, reception_cases (hsent d hd) hin⟩
    | _ => cases hrow
  · rw [receptions_run]
    exact hreceptions.again (List.filterMap_subset _ hmore)
  · rw [rxObservations_run]
    exact hrxObservations.again (List.filterMap_subset _ hmore)
  · rw [rfSamples_run]
    exact hrfSamples.again (List.filterMap_subset _ hmore)

theorem covered_forwarded : Coverage MessageRouter.plainWorld heardConfig (fun _ => relay) [forwardedMessage]
    (clientStatements MessageRouter.plainWorld heardConfig forwardedMessage)
    (Tables.empty.run (clientStatements MessageRouter.plainWorld heardConfig forwardedMessage)) := by
  refine covered _ _ _ _ _ (fun d hd msg f hpayload hraw => ?_) fun a ha => ⟨_, List.mem_singleton.mpr rfl, ha⟩
  obtain rfl := List.mem_singleton.mp hd
  obtain rfl := Option.some.inj hpayload
  exact sends_forwarded (hraw.unique hexOf_forwarded)

end MeshcoreAnalyzer.ClientReception

import MeshcoreAnalyzer.Extremes
import MeshcoreAnalyzer.Firsts
import MeshcoreAnalyzer.Frame
import MeshcoreAnalyzer.ObserverIndex
import MeshcoreAnalyzer.PacketQueries
import MeshcoreAnalyzer.Readers

namespace MeshcoreAnalyzer.PacketStore.RFAnalytics

open Maps Runs Store ObserverIndex Firsts Extremes

/-! What `computeAnalyticsRF` of cmd/server/store.go collects, before it makes its figures of
it: over the observations of the observers of a region, and over the packets. -/

/-- `ts[:13]`, of timestamps that are as long. -/
def hourOf (ts : String) : Option (List UInt8) :=
  if 13 ≤ ts.utf8ByteSize then some (ts.toUTF8.data.toList.take 13) else none

def typeName : Option Int → String
  | none => "UNK"
  | some pt => (if pt < 0 then none else Frame.payloadTypeNames pt.toNat).getD ("UNK(" ++ toString pt ++ ")")

/-- The counts of `sigTime` are the lengths of its lists. -/
structure Signals where
  snrVals : List Float := []
  rssiVals : List Float := []
  scatterAll : List (Float × Float) := []
  snrByType : GoMap String (List Float) := empty
  sigTime : GoMap (List UInt8) (List Float) := empty

def Signals.add (d : Signals) (typeName : String) (o : StoreObs) : Signals :=
  let d := match o.snr with
    | none => d
    | some snr =>
        { d with
          snrVals := d.snrVals ++ [snr]
          snrByType := push d.snrByType typeName snr
          scatterAll := match o.rssi with
            | some rssi => d.scatterAll ++ [(snr, rssi)]
            | none => d.scatterAll
          sigTime := match hourOf o.timestamp with
            | some hr => push d.sigTime hr snr
            | none => d.sigTime }
  match o.rssi with
  | some rssi => { d with rssiVals := d.rssiVals ++ [rssi] }
  | none => d

structure Span where
  minTimestamp : String := ""
  maxTimestamp : String := ""

def Span.add (d : Span) (ts : String) : Span where
  minTimestamp := if ts ≠ "" ∧ (d.minTimestamp = "" ∨ ts < d.minTimestamp) then ts else d.minTimestamp
  maxTimestamp := if ts ≠ "" ∧ d.maxTimestamp < ts then ts else d.maxTimestamp

structure Hours where
  hourBuckets : GoMap (List UInt8) Int := empty
  seenHourHash : List (List UInt8) := []

/-- `hash + "|" + hr` -/
def hourKey (hash : String) (hr : List UInt8) : List UInt8 := hash.toUTF8.data.toList ++ 124 :: hr

def Hours.add (d : Hours) (hash ts : String) : Hours :=
  match hourOf ts with
  | none => d
  | some hr =>
      if hash = "" then { d with hourBuckets := incr d.hourBuckets hr }
      else if d.seenHourHash.contains (hourKey hash hr) then d
      else ⟨incr d.hourBuckets hr, hourKey hash hr :: d.seenHourHash⟩

structure Sizes where
  packetSizes : List Nat := []
  seenSizeHashes : List String := []

def Sizes.add (d : Sizes) (tx : TxRow) : Sizes :=
  if tx.hash ≠ "" ∧ tx.hash ∉ d.seenSizeHashes ∧ tx.rawHex ≠ "" then
    ⟨d.packetSizes ++ [tx.rawHex.utf8ByteSize / 2], tx.hash :: d.seenSizeHashes⟩
  else d

structure Types where
  typeBuckets : GoMap Int Int := empty
  seenTypeHashes : List String := []

def Types.add (d : Types) (tx : TxRow) : Types :=
  match tx.payloadType with
  | none => d
  | some pt =>
      if tx.hash ≠ "" ∧ tx.hash ∉ d.seenTypeHashes then ⟨incr d.typeBuckets pt, tx.hash :: d.seenTypeHashes⟩ else d

structure RFData where
  totalObs : Nat := 0
  regionalHashes : List String := []
  signals : Signals := {}
  span : Span := {}
  hours : Hours := {}
  sizes : Sizes := {}
  types : Types := {}

namespace RFData

def addHash (d : RFData) (hash : String) : RFData :=
  if hash = "" then d else { d with regionalHashes := hash :: d.regionalHashes }

theorem totalObs_addHash (d : RFData) (hash : String) : (d.addHash hash).totalObs = d.totalObs := by
  rw [addHash]
  split <;> rfl

def addTx (d : RFData) (tx : TxRow) : RFData := { d with sizes := d.sizes.add tx, types := d.types.add tx }

def addObs (d : RFData) (hash typeName : String) (o : StoreObs) : RFData :=
  { d with
    span := d.span.add o.timestamp
    signals := d.signals.add typeName o
    hours := d.hours.add hash o.timestamp }

def countObs (d : RFData) : RFData := { d with totalObs := d.totalObs + 1 }

def addBare (d : RFData) (tx : StoreTx) : RFData :=
  { d with
    totalObs := d.totalObs + 1
    signals := { d.signals with
      snrVals := d.signals.snrVals ++ tx.snr.toList
      rssiVals := d.signals.rssiVals ++ tx.rssi.toList }
    span := d.span.add tx.firstSeen
    hours := d.hours.add "" tx.firstSeen }

end RFData

section Branches

variable (lib : Library) (window : TimeWindow) (areaNodes : Option (List String))

def inArea (tx : TxRow) : Bool := areaNodes.all fun keys => tx.areaKey ≠ "" && tx.areaKey ∈ keys

def addRegional (s : Store) (d : RFData) (o : StoreObs) : RFData :=
  if window.includes lib o.timestamp then
    let d := d.countObs
    match s.byTxID o.transmissionID with
    | some r =>
        let tx := s.row r
        if inArea areaNodes tx then ((d.addHash tx.hash).addObs tx.hash (typeName tx.payloadType) o).addTx tx else d
    | none => d.addObs "" (typeName none) o
  else d

def addPacket (s : Store) (d : RFData) (r : TxRef) : RFData :=
  let tx := s.row r
  if window.includes lib tx.firstSeen ∧ inArea areaNodes tx then
    let d := (d.addHash tx.hash).addTx tx
    match (s.heap r).observations with
    | [] => d.addBare (s.heap r)
    | o :: rest => (o :: rest).foldl (fun d o => d.countObs.addObs tx.hash (typeName tx.payloadType) o) d
  else d

/-- The observers of a region come in the order of the range over them. -/
def computeAnalyticsRF (regionObs : Option (List String)) (s : Store) : RFData :=
  match regionObs with
  | some ids => ids.foldl (fun d id => (bucket s.byObserver id).foldl (addRegional lib window areaNodes s) d) {}
  | none => s.packets.foldl (addPacket lib window areaNodes s) {}

end Branches

/-- The same values, in whatever order they have come. -/
structure Signals.Same (a b : Signals) : Prop where
  snrVals : a.snrVals.Perm b.snrVals
  rssiVals : a.rssiVals.Perm b.rssiVals
  scatterAll : a.scatterAll.Perm b.scatterAll
  snrByType : ∀ name, (bucket a.snrByType name).Perm (bucket b.snrByType name)
  sigTime : ∀ hr, (bucket a.sigTime hr).Perm (bucket b.sigTime hr)

/-- The same data: what has been seen once is not part of it. -/
structure SameData (a b : RFData) : Prop where
  totalObs : a.totalObs = b.totalObs
  hashes : ∀ h, h ∈ a.regionalHashes ↔ h ∈ b.regionalHashes
  signals : a.signals.Same b.signals
  span : a.span = b.span
  hourBuckets : ∀ hr, count a.hours.hourBuckets hr = count b.hours.hourBuckets hr
  packetSizes : a.sizes.packetSizes.Perm b.sizes.packetSizes
  typeBuckets : ∀ pt, count a.types.typeBuckets pt = count b.types.typeBuckets pt

section Parts

theorem flatMap_of_step {S A B : Type} {step : S → A → S} {out : S → List B} {g : A → List B}
    (h : ∀ s a, out (step s a) = out s ++ g a) (l : List A) (s : S) : out (l.foldl step s) = out s ++ l.flatMap g := by
  induction l generalizing s with
  | nil => exact (List.append_nil _).symm
  | cons a l ih => rw [List.foldl_cons, ih, h, List.flatMap_cons, List.append_assoc]

abbrev Reading := TxRow × StoreObs

variable {l l' : List Reading}

def Signals.ofReadings (l : List Reading) : Signals := l.foldl (fun d e => d.add (typeName e.1.payloadType) e.2) {}

theorem Signals.snrVals_add (d : Signals) (name : String) (o : StoreObs) :
    (d.add name o).snrVals = d.snrVals ++ o.snr.toList := by
  rw [Signals.add]
  cases o.snr <;> cases o.rssi <;> simp

theorem Signals.rssiVals_add (d : Signals) (name : String) (o : StoreObs) :
    (d.add name o).rssiVals = d.rssiVals ++ o.rssi.toList := by
  rw [Signals.add]
  cases o.snr <;> cases o.rssi <;> simp

theorem Signals.scatterAll_add (d : Signals) (name : String) (o : StoreObs) :
    (d.add name o).scatterAll =
      d.scatterAll ++ (o.snr.bind fun snr => o.rssi.map fun rssi => (snr, rssi)).toList := by
  rw [Signals.add]
  cases o.snr <;> cases o.rssi <;> simp

theorem Signals.snrByType_add (d : Signals) (name : String) (o : StoreObs) (k : String) :
    bucket (d.add name o).snrByType k = bucket d.snrByType k ++ if k = name then o.snr.toList else [] := by
  have hmap : (d.add name o).snrByType = match o.snr with
      | none => d.snrByType
      | some snr => push d.snrByType name snr := by
    rw [Signals.add]
    cases o.snr <;> cases o.rssi <;> rfl
  rw [hmap]
  cases o.snr with
  | none => simp
  | some snr =>
      rw [bucket_push]
      split
      · next h => rw [h, Option.toList_some]
      · rw [List.append_nil]

theorem Signals.sigTime_add (d : Signals) (name : String) (o : StoreObs) (hr : List UInt8) :
    bucket (d.add name o).sigTime hr =
      bucket d.sigTime hr ++ if hourOf o.timestamp = some hr then o.snr.toList else [] := by
  cases hsnr : o.snr with
  | none =>
      have hmap : (d.add name o).sigTime = d.sigTime := by
        rw [Signals.add]
        rw [hsnr]
        cases o.rssi <;> rfl
      simp [hmap]
  | some snr =>
      cases hhour : hourOf o.timestamp with
      | none =>
          have hmap : (d.add name o).sigTime = d.sigTime := by
            rw [Signals.add]
            rw [hsnr, hhour]
            cases o.rssi <;> rfl
          simp [hmap]
      | some hr' =>
          have hmap : (d.add name o).sigTime = push d.sigTime hr' snr := by
            rw [Signals.add]
            rw [hsnr, hhour]
            cases o.rssi <;> rfl
          rw [hmap, bucket_push]
          by_cases h : hr = hr'
          · rw [if_pos h, if_pos (congrArg some h.symm), h, Option.toList_some]
          · rw [if_neg h, if_neg fun heq => h (Option.some.inj heq).symm, List.append_nil]

theorem Signals.same_ofReadings (h : l.Perm l') : (Signals.ofReadings l).Same (Signals.ofReadings l') := by
  have hpart : ∀ {B : Type} (out : Signals → List B) (g : Reading → List B),
      (∀ (d : Signals) (e : Reading), out (d.add (typeName e.1.payloadType) e.2) = out d ++ g e) →
        (out (ofReadings l)).Perm (out (ofReadings l')) := by
    intro B out g hstep
    rw [ofReadings, ofReadings, flatMap_of_step hstep, flatMap_of_step hstep]
    exact (h.flatMap_right g).append_left _
  refine ⟨?_, ?_, ?_, fun name => ?_, fun hr => ?_⟩
  · exact hpart _ _ fun d e => d.snrVals_add _ e.2
  · exact hpart _ _ fun d e => d.rssiVals_add _ e.2
  · exact hpart _ _ fun d e => d.scatterAll_add _ e.2
  · exact hpart (fun d => bucket d.snrByType name) _ fun d e => d.snrByType_add _ e.2 name
  · exact hpart (fun d => bucket d.sigTime hr) _ fun d e => d.sigTime_add _ e.2 hr

def Span.ofTimes (l : List String) : Span := l.foldl Span.add {}

theorem empty_le (s : String) : "" ≤ s := by
  rw [String.le_iff_toList_le]
  exact not_lt.mp (List.not_lt_nil _)

theorem Span.ofTimes_eq (l : List String) : Span.ofTimes l = ⟨l.foldl (earlier "") "", l.foldl (later "") ""⟩ := by
  have h : ∀ (l : List String) (d : Span),
      l.foldl Span.add d = ⟨l.foldl (earlier "") d.minTimestamp, l.foldl (later "") d.maxTimestamp⟩ := by
    intro l
    induction l with
    | nil => exact fun _ => rfl
    | cons ts l ih => exact fun d => ih (d.add ts)
  exact h l {}

theorem Span.earliest (l : List String) : Earliest "" l (Span.ofTimes l).minTimestamp := by
  rw [ofTimes_eq]
  exact earliest_foldl l

theorem Span.latest (l : List String) : Latest "" l (Span.ofTimes l).maxTimestamp := by
  rw [ofTimes_eq]
  exact latest_foldl empty_le l

theorem Span.ofTimes_congr {l l' : List String} (h : ∀ ts, ts ∈ l ↔ ts ∈ l') : Span.ofTimes l = Span.ofTimes l' := by
  have hmin := (Span.earliest l).eq (Span.earliest l') h
  have hmax := (Span.latest l).eq empty_le (Span.latest l') h
  cases hl : Span.ofTimes l
  cases hl' : Span.ofTimes l'
  rw [hl, hl'] at hmin hmax
  exact congrArg₂ Span.mk hmin hmax

def Hours.ofReadings (l : List Reading) : Hours := l.foldl (fun d e => d.add e.1.hash e.2.timestamp) {}

def keyed (e : Reading) : Bool := e.1.hash ≠ "" && (hourOf e.2.timestamp).isSome

def keyOfHour (e : Reading) : List UInt8 := hourKey e.1.hash ((hourOf e.2.timestamp).getD [])

theorem length_hourOf {ts : String} {hr : List UInt8} (h : hourOf ts = some hr) : hr.length = 13 := by
  unfold hourOf at h
  split at h
  · next hlen =>
      cases h
      have hsize : ts.toUTF8.data.toList.length = ts.utf8ByteSize := rfl
      rw [List.length_take, hsize]
      exact min_eq_left hlen
  · cases h

theorem hourOf_congr {a b : Reading} (ha : keyed a = true) (hb : keyed b = true) (h : keyOfHour a = keyOfHour b) :
    hourOf a.2.timestamp = hourOf b.2.timestamp := by
  obtain ⟨ra, hra⟩ := Option.isSome_iff_exists.mp (Bool.and_eq_true_iff.mp ha).2
  obtain ⟨rb, hrb⟩ := Option.isSome_iff_exists.mp (Bool.and_eq_true_iff.mp hb).2
  unfold keyOfHour hourKey at h
  rw [hra, hrb] at h ⊢
  have hlen : (124 :: ra).length = (124 :: rb).length := by
    rw [List.length_cons, List.length_cons, length_hourOf hra, length_hourOf hrb]
  have htail := List.append_inj_right' h hlen
  exact congrArg some (List.cons.inj htail).2

theorem count_hourBuckets (l : List Reading) (d : Hours) (hr : List UInt8) :
    count (l.foldl (fun d e => d.add e.1.hash e.2.timestamp) d).hourBuckets hr =
      count d.hourBuckets hr + l.countP (fun e => e.1.hash = "" && hourOf e.2.timestamp = some hr) +
        (firsts keyOfHour d.seenHourHash (l.filter keyed)).countP (fun e => hourOf e.2.timestamp = some hr) := by
  induction l generalizing d with
  | nil => simp [firsts]
  | cons e l ih =>
      rw [List.foldl_cons, ih]
      cases hhour : hourOf e.2.timestamp with
      | none =>
          have hadd : d.add e.1.hash e.2.timestamp = d := by
            rw [Hours.add]
            rw [hhour]
          rw [hadd, List.countP_cons_of_neg (by simp [hhour]), List.filter_cons_of_neg (by simp [keyed, hhour])]
      | some hr' =>
          by_cases hhash : e.1.hash = ""
          · have hadd : d.add e.1.hash e.2.timestamp = { d with hourBuckets := incr d.hourBuckets hr' } := by
              rw [Hours.add]
              rw [hhour]
              exact if_pos hhash
            rw [hadd, List.filter_cons_of_neg (by simp [keyed, hhash]), count_incr, List.countP_cons]
            by_cases heq : hr = hr'
            · simp only [heq, hhash, hhour, decide_true, Bool.and_self, if_true]
              omega
            · have hne : ¬ hr' = hr := fun h => heq h.symm
              simp [heq, hne, hhash, hhour]
          · have hkeyed : keyed e = true := by simp [keyed, hhash, hhour]
            have hkey : keyOfHour e = hourKey e.1.hash hr' := by
              rw [keyOfHour]
              rw [hhour]
              rfl
            rw [List.countP_cons_of_neg (by simp [hhash]), List.filter_cons_of_pos hkeyed, firsts_cons, hkey]
            by_cases hseen : hourKey e.1.hash hr' ∈ d.seenHourHash
            · have hadd : d.add e.1.hash e.2.timestamp = d := by
                rw [Hours.add]
                rw [hhour]
                exact (if_neg hhash).trans (if_pos (List.contains_iff_mem.mpr hseen))
              rw [hadd, if_pos hseen]
            · have hadd : d.add e.1.hash e.2.timestamp =
                  ⟨incr d.hourBuckets hr', hourKey e.1.hash hr' :: d.seenHourHash⟩ := by
                rw [Hours.add]
                rw [hhour]
                exact (if_neg hhash).trans (if_neg fun h => hseen (List.contains_iff_mem.mp h))
              rw [hadd, if_neg hseen, count_incr, List.countP_cons]
              by_cases heq : hr = hr'
              · simp only [heq, hhour, decide_true, if_true]
                omega
              · have hne : ¬ hr' = hr := fun h => heq h.symm
                simp [heq, hne, hhour]

theorem Hours.count_ofReadings_congr (h : l.Perm l') (hr : List UInt8) :
    count (Hours.ofReadings l).hourBuckets hr = count (Hours.ofReadings l').hourBuckets hr := by
  unfold Hours.ofReadings
  rw [count_hourBuckets, count_hourBuckets, h.countP_eq]
  congr 2
  have hkeyed : ∀ a ∈ l.filter keyed ++ l'.filter keyed, keyed a = true := by
    intro a ha
    rcases List.mem_append.mp ha with ha | ha
    · exact (List.mem_filter.mp ha).2
    · exact (List.mem_filter.mp ha).2
  have hperm : ((firsts keyOfHour [] (l.filter keyed)).map fun e => hourOf e.2.timestamp).Perm
      ((firsts keyOfHour [] (l'.filter keyed)).map fun e => hourOf e.2.timestamp) := by
    apply map_firsts_perm
    · exact fun a ha b hb => hourOf_congr (hkeyed a ha) (hkeyed b hb)
    · exact fun k => ((h.filter keyed).map keyOfHour).mem_iff
  have hcount := hperm.countP_eq fun x => decide (x = some hr)
  rw [List.countP_map, List.countP_map] at hcount
  exact hcount

theorem mem_of_mem_filters {A : Type} {l l' : List A} (h : ∀ a, a ∈ l ↔ a ∈ l') {p : A → Bool} {a : A}
    (ha : a ∈ l.filter p ++ l'.filter p) : a ∈ l := by
  rcases List.mem_append.mp ha with ha | ha
  · exact List.mem_of_mem_filter ha
  · exact (h a).mpr (List.mem_of_mem_filter ha)

theorem mem_map_filter_congr {A K : Type} {l l' : List A} (h : ∀ a, a ∈ l ↔ a ∈ l') (p : A → Bool) (key : A → K) (k : K) :
    k ∈ (l.filter p).map key ↔ k ∈ (l'.filter p).map key := by
  simp only [List.mem_map, List.mem_filter, h]

def Sizes.ofTxs (txs : List TxRow) : Sizes := txs.foldl Sizes.add {}

def Types.ofTxs (txs : List TxRow) : Types := txs.foldl Types.add {}

def sized (tx : TxRow) : Bool := tx.hash ≠ "" && tx.rawHex ≠ ""

def typed (tx : TxRow) : Bool := tx.hash ≠ "" && tx.payloadType.isSome

theorem packetSizes_foldl (txs : List TxRow) (d : Sizes) :
    (txs.foldl Sizes.add d).packetSizes =
      d.packetSizes ++ (firsts TxRow.hash d.seenSizeHashes (txs.filter sized)).map fun tx => tx.rawHex.utf8ByteSize / 2 := by
  induction txs generalizing d with
  | nil => simp [firsts]
  | cons tx txs ih =>
      rw [List.foldl_cons, ih]
      cases hsized : sized tx with
      | false =>
          have hadd : d.add tx = d := by
            apply if_neg
            rintro ⟨hhash, -, hhex⟩
            simp [sized, hhash, hhex] at hsized
          rw [hadd, List.filter_cons_of_neg (by simp [hsized])]
      | true =>
          obtain ⟨hhash, hhex⟩ := Bool.and_eq_true_iff.mp hsized
          rw [List.filter_cons_of_pos hsized, firsts_cons]
          by_cases hseen : tx.hash ∈ d.seenSizeHashes
          · have hadd : d.add tx = d := if_neg fun h => h.2.1 hseen
            rw [hadd, if_pos hseen]
          · have hadd : d.add tx = ⟨d.packetSizes ++ [tx.rawHex.utf8ByteSize / 2], tx.hash :: d.seenSizeHashes⟩ :=
              if_pos ⟨of_decide_eq_true hhash, hseen, of_decide_eq_true hhex⟩
            rw [hadd, if_neg hseen, List.map_cons, List.append_assoc]
            rfl

theorem count_typeBuckets (txs : List TxRow) (d : Types) (pt : Int) :
    count (txs.foldl Types.add d).typeBuckets pt = count d.typeBuckets pt +
      (firsts TxRow.hash d.seenTypeHashes (txs.filter typed)).countP (fun tx => tx.payloadType = some pt) := by
  induction txs generalizing d with
  | nil => simp [firsts]
  | cons tx txs ih =>
      rw [List.foldl_cons, ih]
      cases htype : tx.payloadType with
      | none =>
          have hadd : d.add tx = d := by
            rw [Types.add]
            rw [htype]
          rw [hadd, List.filter_cons_of_neg (by simp [typed, htype])]
      | some t =>
          have hadd : d.add tx = if tx.hash ≠ "" ∧ tx.hash ∉ d.seenTypeHashes then
              ⟨incr d.typeBuckets t, tx.hash :: d.seenTypeHashes⟩ else d := by
            rw [Types.add]
            rw [htype]
          by_cases hhash : tx.hash = ""
          · rw [hadd, if_neg fun h => h.1 hhash, List.filter_cons_of_neg (by simp [typed, hhash])]
          · rw [List.filter_cons_of_pos (by simp [typed, hhash, htype]), firsts_cons]
            by_cases hseen : tx.hash ∈ d.seenTypeHashes
            · rw [hadd, if_neg fun h => h.2 hseen, if_pos hseen]
            · rw [hadd, if_pos ⟨hhash, hseen⟩, if_neg hseen, count_incr, List.countP_cons]
              by_cases heq : pt = t
              · simp only [heq, htype, decide_true, if_true]
                omega
              · have hne : ¬ t = pt := fun h => heq h.symm
                simp [heq, hne, htype]

theorem Sizes.packetSizes_congr {txs txs' : List TxRow} (h : ∀ tx, tx ∈ txs ↔ tx ∈ txs')
    (hdistinct : ∀ a ∈ txs, ∀ b ∈ txs, a.hash = b.hash → a = b) :
    (Sizes.ofTxs txs).packetSizes.Perm (Sizes.ofTxs txs').packetSizes := by
  unfold Sizes.ofTxs
  rw [packetSizes_foldl, packetSizes_foldl]
  apply List.Perm.append_left
  apply map_firsts_perm
  · intro a ha b hb heq
    rw [hdistinct a (mem_of_mem_filters h ha) b (mem_of_mem_filters h hb) heq]
  · exact mem_map_filter_congr h _ _

theorem Types.count_congr {txs txs' : List TxRow} (h : ∀ tx, tx ∈ txs ↔ tx ∈ txs')
    (hdistinct : ∀ a ∈ txs, ∀ b ∈ txs, a.hash = b.hash → a = b) (pt : Int) :
    count (Types.ofTxs txs).typeBuckets pt = count (Types.ofTxs txs').typeBuckets pt := by
  unfold Types.ofTxs
  rw [count_typeBuckets, count_typeBuckets]
  have hperm : ((firsts TxRow.hash [] (txs.filter typed)).map TxRow.payloadType).Perm
      ((firsts TxRow.hash [] (txs'.filter typed)).map TxRow.payloadType) := by
    apply map_firsts_perm
    · intro a ha b hb heq
      rw [hdistinct a (mem_of_mem_filters h ha) b (mem_of_mem_filters h hb) heq]
    · exact mem_map_filter_congr h _ _
  have hcount := hperm.countP_eq fun t => decide (t = some pt)
  rw [List.countP_map, List.countP_map] at hcount
  exact congrArg (fun n : Nat => (0 : Int) + n) hcount

def hashesOf (txs : List TxRow) : List String :=
  txs.foldl (fun hs tx => if tx.hash = "" then hs else tx.hash :: hs) []

theorem mem_hashesOf {txs : List TxRow} {hash : String} :
    hash ∈ hashesOf txs ↔ hash ≠ "" ∧ ∃ tx ∈ txs, tx.hash = hash := by
  rw [hashesOf]
  induction txs using List.reverseRecOn with
  | nil => simp
  | append_singleton txs tx ih =>
      rw [List.foldl_append, List.foldl_cons, List.foldl_nil]
      split
      · next hnone =>
          rw [ih]
          constructor
          · rintro ⟨hne, t, ht, rfl⟩
            exact ⟨hne, t, List.mem_append_left _ ht, rfl⟩
          · rintro ⟨hne, t, ht, rfl⟩
            rcases List.mem_append.mp ht with ht | ht
            · exact ⟨hne, t, ht, rfl⟩
            · rw [List.mem_singleton.mp ht] at hne
              exact absurd hnone hne
      · next hsome =>
          rw [List.mem_cons, ih]
          constructor
          · rintro (rfl | ⟨hne, t, ht, rfl⟩)
            · exact ⟨hsome, tx, by simp, rfl⟩
            · exact ⟨hne, t, List.mem_append_left _ ht, rfl⟩
          · rintro ⟨hne, t, ht, rfl⟩
            rcases List.mem_append.mp ht with ht | ht
            · exact .inr ⟨hne, t, ht, rfl⟩
            · exact .inl (congrArg TxRow.hash (List.mem_singleton.mp ht))

structure Collects (txs : List TxRow) (readings : List Reading) (d : RFData) : Prop where
  hashes : d.regionalHashes = hashesOf txs
  sizes : d.sizes = Sizes.ofTxs txs
  types : d.types = Types.ofTxs txs
  signals : d.signals = Signals.ofReadings readings
  span : d.span = Span.ofTimes (readings.map fun e => e.2.timestamp)
  hours : d.hours = Hours.ofReadings readings

variable {txs txs' : List TxRow} {d d' : RFData}

theorem collects_empty : Collects [] [] {} := ⟨rfl, rfl, rfl, rfl, rfl, rfl⟩

theorem Collects.countObs (h : Collects txs l d) : Collects txs l d.countObs :=
  ⟨h.hashes, h.sizes, h.types, h.signals, h.span, h.hours⟩

theorem Collects.addTx (h : Collects txs l d) (tx : TxRow) :
    Collects (txs ++ [tx]) l ((d.addHash tx.hash).addTx tx) := by
  have hhash : d.addHash tx.hash = if tx.hash = "" then d else { d with regionalHashes := tx.hash :: d.regionalHashes } := rfl
  refine ⟨?_, ?_, ?_, ?_, ?_, ?_⟩
  · have hstep : hashesOf (txs ++ [tx]) = if tx.hash = "" then hashesOf txs else tx.hash :: hashesOf txs := by
      rw [hashesOf]
      rw [List.foldl_append]
      rfl
    rw [hstep, ← h.hashes, hhash]
    split <;> rfl
  · rw [Sizes.ofTxs, List.foldl_append, ← Sizes.ofTxs, ← h.sizes, hhash]
    split <;> rfl
  · rw [Types.ofTxs, List.foldl_append, ← Types.ofTxs, ← h.types, hhash]
    split <;> rfl
  · rw [← h.signals, hhash]
    split <;> rfl
  · rw [← h.span, hhash]
    split <;> rfl
  · rw [← h.hours, hhash]
    split <;> rfl

theorem Collects.addObs (h : Collects txs l d) (tx : TxRow) (o : StoreObs) :
    Collects txs (l ++ [(tx, o)]) (d.addObs tx.hash (typeName tx.payloadType) o) := by
  refine ⟨h.hashes, h.sizes, h.types, ?_, ?_, ?_⟩
  · rw [Signals.ofReadings, List.foldl_append, ← Signals.ofReadings, ← h.signals]
    rfl
  · rw [List.map_append, Span.ofTimes, List.foldl_append, ← Span.ofTimes, ← h.span]
    rfl
  · rw [Hours.ofReadings, List.foldl_append, ← Hours.ofReadings, ← h.hours]
    rfl

theorem Collects.same (h : Collects txs l d) (h' : Collects txs' l' d') (hperm : l.Perm l')
    (htxs : ∀ tx, tx ∈ txs ↔ tx ∈ txs') (hdistinct : ∀ a ∈ txs, ∀ b ∈ txs, a.hash = b.hash → a = b)
    (htotal : d.totalObs = d'.totalObs) : SameData d d' := by
  refine ⟨htotal, fun hash => ?_, ?_, ?_, fun hr => ?_, ?_, fun pt => ?_⟩
  · rw [h.hashes, h'.hashes, mem_hashesOf, mem_hashesOf]
    simp only [htxs]
  · rw [h.signals, h'.signals]
    exact Signals.same_ofReadings hperm
  · rw [h.span, h'.span]
    exact Span.ofTimes_congr fun ts => (hperm.map _).mem_iff
  · rw [h.hours, h'.hours]
    exact Hours.count_ofReadings_congr hperm hr
  · rw [h.sizes, h'.sizes]
    exact Sizes.packetSizes_congr htxs hdistinct
  · rw [h.types, h'.types]
    exact Types.count_congr htxs hdistinct pt

end Parts

section Agreement

variable (lib : Library) (window : TimeWindow) (areaNodes : Option (List String))

def inWindow (l : List StoreObs) : List StoreObs := l.filter fun o => window.includes lib o.timestamp

def chooses (s : Store) (r : TxRef) : Bool := window.includes lib (s.row r).firstSeen && inArea areaNodes (s.row r)

def chosen (s : Store) : List TxRef := s.packets.filter (chooses lib window areaNodes s)

def readingOf (s : Store) (o : StoreObs) : Option Reading :=
  (s.byTxID o.transmissionID).map fun r => (s.row r, o)

def readingsOf (s : Store) (l : List StoreObs) : List Reading :=
  (l.filterMap (readingOf s)).filter fun e => inArea areaNodes e.1

variable {lib window areaNodes} {s : Store}

theorem inWindow_concat (l : List StoreObs) (o : StoreObs) :
    inWindow lib window (l ++ [o]) = inWindow lib window l ++ if window.includes lib o.timestamp then [o] else [] := by
  rw [inWindow, List.filter_append]
  congr 1
  cases hin : window.includes lib o.timestamp with
  | true => exact List.filter_cons_of_pos hin
  | false => exact List.filter_cons_of_neg (Bool.eq_false_iff.mp hin)

theorem readingsOf_concat (l : List StoreObs) {o : StoreObs} {r : TxRef} (hr : s.byTxID o.transmissionID = some r) :
    readingsOf areaNodes s (l ++ [o]) =
      readingsOf areaNodes s l ++ if inArea areaNodes (s.row r) then [(s.row r, o)] else [] := by
  have hone : [o].filterMap (readingOf s) = [(s.row r, o)] := by simp [readingOf, hr]
  rw [readingsOf, List.filterMap_append, List.filter_append, hone]
  congr 1
  cases harea : inArea areaNodes (s.row r) with
  | true => exact List.filter_cons_of_pos harea
  | false => exact List.filter_cons_of_neg (Bool.eq_false_iff.mp harea)

theorem addRegional_of_found {o : StoreObs} {r : TxRef} (hr : s.byTxID o.transmissionID = some r) (d : RFData) :
    addRegional lib window areaNodes s d o =
      if window.includes lib o.timestamp then
        if inArea areaNodes (s.row r) then
          (((d.countObs.addHash (s.row r).hash).addTx (s.row r)).addObs (s.row r).hash
            (typeName (s.row r).payloadType) o)
        else d.countObs
      else d := by
  rw [addRegional]
  dsimp only
  rw [hr]
  rfl

theorem collects_regional {l : List StoreObs} (hfound : ∀ o ∈ l, ∃ r, s.byTxID o.transmissionID = some r) :
    Collects ((readingsOf areaNodes s (inWindow lib window l)).map Prod.fst)
        (readingsOf areaNodes s (inWindow lib window l)) (l.foldl (addRegional lib window areaNodes s) {}) ∧
      (l.foldl (addRegional lib window areaNodes s) {}).totalObs = (inWindow lib window l).length := by
  induction l using List.reverseRecOn with
  | nil => exact ⟨collects_empty, rfl⟩
  | append_singleton l o ih =>
      obtain ⟨hcollects, htotal⟩ := ih fun o ho => hfound o (List.mem_append_left _ ho)
      obtain ⟨r, hr⟩ := hfound o (by simp)
      rw [List.foldl_append, List.foldl_cons, List.foldl_nil, addRegional_of_found hr, inWindow_concat]
      split
      · rw [readingsOf_concat _ hr, List.length_append, ← htotal]
        split
        · refine ⟨?_, RFData.totalObs_addHash _ _⟩
          rw [List.map_append]
          exact (hcollects.countObs.addTx (s.row r)).addObs (s.row r) o
        · rw [List.append_nil]
          exact ⟨hcollects.countObs, rfl⟩
      · rw [List.append_nil]
        exact ⟨hcollects, htotal⟩

theorem collects_observations {txs : List TxRow} {l : List Reading} {d : RFData} (h : Collects txs l d) (tx : TxRow)
    (obs : List StoreObs) :
    Collects txs (l ++ obs.map fun o => (tx, o))
        (obs.foldl (fun d o => d.countObs.addObs tx.hash (typeName tx.payloadType) o) d) ∧
      (obs.foldl (fun d o => d.countObs.addObs tx.hash (typeName tx.payloadType) o) d).totalObs =
        d.totalObs + obs.length := by
  induction obs using List.reverseRecOn with
  | nil =>
      rw [List.map_nil, List.append_nil]
      exact ⟨h, rfl⟩
  | append_singleton obs o ih =>
      rw [List.foldl_append, List.foldl_cons, List.foldl_nil, List.map_append, ← List.append_assoc, List.length_append]
      refine ⟨ih.1.countObs.addObs tx o, ?_⟩
      change RFData.totalObs _ + 1 = _
      rw [ih.2]
      rfl

theorem addPacket_of_heard {r : TxRef} (h : (s.heap r).observations ≠ []) (d : RFData) :
    addPacket lib window areaNodes s d r =
      if chooses lib window areaNodes s r then
        (s.heap r).observations.foldl
          (fun d o => d.countObs.addObs (s.row r).hash (typeName (s.row r).payloadType) o)
          ((d.addHash (s.row r).hash).addTx (s.row r))
      else d := by
  have hiff : chooses lib window areaNodes s r = true ↔
      window.includes lib (s.row r).firstSeen = true ∧ inArea areaNodes (s.row r) = true := Bool.and_eq_true_iff
  rw [addPacket]
  dsimp only
  by_cases hin : chooses lib window areaNodes s r = true
  · rw [if_pos hin, if_pos (hiff.mp hin)]
    split
    · next hnil => exact absurd hnil h
    · next hobs => rw [hobs]
  · rw [if_neg hin, if_neg fun hboth => hin (hiff.mpr hboth)]

theorem collects_packets (hheard : ∀ r ∈ s.packets, (s.heap r).observations ≠ []) :
    Collects ((chosen lib window areaNodes s).map s.row)
        ((chosen lib window areaNodes s).flatMap fun r => (s.heap r).observations.map fun o => (s.row r, o))
        (s.packets.foldl (addPacket lib window areaNodes s) {}) ∧
      (s.packets.foldl (addPacket lib window areaNodes s) {}).totalObs =
        ((chosen lib window areaNodes s).flatMap fun r => (s.heap r).observations).length := by
  rw [chosen]
  generalize s.packets = rs at hheard
  induction rs using List.reverseRecOn with
  | nil => exact ⟨collects_empty, rfl⟩
  | append_singleton rs r ih =>
      obtain ⟨hcollects, htotal⟩ := ih fun r hr => hheard r (List.mem_append_left _ hr)
      rw [List.foldl_append, List.foldl_cons, List.foldl_nil, addPacket_of_heard (hheard r (by simp)), List.filter_append]
      generalize rs.foldl (addPacket lib window areaNodes s) {} = d at hcollects htotal
      split
      · next hin =>
          rw [List.filter_cons_of_pos hin, List.filter_nil, List.map_append, List.flatMap_append, List.flatMap_append,
            List.flatMap_singleton, List.flatMap_singleton, List.length_append, ← htotal]
          obtain ⟨hall, hsum⟩ := collects_observations (hcollects.addTx (s.row r)) (s.row r) (s.heap r).observations
          refine ⟨hall, hsum.trans (congrArg (· + _) ?_)⟩
          exact RFData.totalObs_addHash d (s.row r).hash
      · next hout =>
          rw [List.filter_cons_of_neg hout, List.filter_nil, List.append_nil]
          exact ⟨hcollects, htotal⟩

/-- Each packet is heard, by observers with names, and the region has all of them. -/
structure Complete (s : Store) (ids : List String) : Prop where
  heard : ∀ r ∈ s.packets, (s.heap r).observations ≠ []
  named : ∀ r ∈ s.packets, ∀ o ∈ (s.heap r).observations, o.observerID ≠ ""
  unique : ((s.packets.flatMap fun r => (s.heap r).observations).map StoreObs.id).Nodup
  once : ids.Nodup
  all : ∀ id, bucket s.byObserver id ≠ [] → id ∈ ids

variable (lib window areaNodes) in
/-- The observations in the window are those of the packets of the area in the window. -/
structure Aligned (s : Store) : Prop where
  inside : ∀ id, ∀ o ∈ bucket s.byObserver id, window.includes lib o.timestamp = true →
    ∃ r ∈ chosen lib window areaNodes s, s.byTxID o.transmissionID = some r
  whole : ∀ r ∈ chosen lib window areaNodes s, ∀ o ∈ (s.heap r).observations, window.includes lib o.timestamp = true

variable {tables : Tables} {done loc : List TxRef} {ids : List String}

theorem flatMap_eq_filter {A B : Type} {f g : A → List B} {c : A → Bool} {l : List A}
    (h : ∀ a ∈ l, f a = if c a then g a else []) : l.flatMap f = (l.filter c).flatMap g := by
  induction l with
  | nil => rfl
  | cons a l ih =>
      rw [List.flatMap_cons, h a List.mem_cons_self, ih fun b hb => h b (List.mem_cons_of_mem a hb)]
      split
      · next hc => rw [List.filter_cons_of_pos hc, List.flatMap_cons]
      · next hc => rw [List.filter_cons_of_neg hc, List.nil_append]

theorem listed_perm (h : Kept tables done loc s) (hs : Complete s ids) :
    (ids.flatMap (bucket s.byObserver)).Perm
      (((done ++ s.packets).flatMap fun r => (s.heap r).observations).filter fun o => o.observerID ≠ "") := by
  generalize hall : ((done ++ s.packets).flatMap fun r => (s.heap r).observations) = all
  have hbuckets : (ids.flatMap (bucket s.byObserver)).Perm
      (ids.flatMap fun id => (all.filter fun o => o.observerID ≠ "").filter (StoreObs.observerID · = id)) := by
    apply List.Perm.flatMap_left
    intro id _
    refine (h.heard.byObserver id).trans (List.Perm.of_eq ?_)
    rw [List.filter_filter, ← hall]
    apply List.filter_congr
    intro o _
    by_cases hid : o.observerID = id
    · simp [heardAs, hid]
    · simp [heardAs, hid]
  refine (hbuckets.trans (flatMap_filter_perm hs.once StoreObs.observerID _)).trans (List.Perm.of_eq ?_)
  apply List.filter_eq_self.mpr
  intro o ho
  obtain ⟨ho, hne⟩ := List.mem_filter.mp ho
  rw [← hall] at ho
  obtain ⟨r, hr, ho⟩ := List.mem_flatMap.mp ho
  have hmem : o ∈ bucket s.byObserver o.observerID :=
    h.mem_byObserver.mpr ⟨⟨r, hr, ho⟩, of_decide_eq_true hne, rfl⟩
  exact decide_eq_true (hs.all _ (List.ne_nil_of_mem hmem))

theorem mem_heard (hs : Complete s ids) {o : StoreObs} :
    o ∈ inWindow lib window (ids.flatMap (bucket s.byObserver)) ↔
      (∃ id, o ∈ bucket s.byObserver id) ∧ window.includes lib o.timestamp = true := by
  rw [inWindow, List.mem_filter, List.mem_flatMap]
  constructor
  · rintro ⟨⟨id, -, ho⟩, hin⟩
    exact ⟨⟨id, ho⟩, hin⟩
  · rintro ⟨⟨id, ho⟩, hin⟩
    exact ⟨⟨id, hs.all id (List.ne_nil_of_mem ho), ho⟩, hin⟩

theorem heard_perm_of_inside (h : Kept tables done loc s) (hsub : done ⊆ loc) (hs : Complete s ids)
    (hinside : ∀ id, ∀ o ∈ bucket s.byObserver id, window.includes lib o.timestamp = true →
      ∃ r ∈ chosen lib window areaNodes s, s.byTxID o.transmissionID = some r) :
    (inWindow lib window (ids.flatMap (bucket s.byObserver))).Perm
      (inWindow lib window ((chosen lib window areaNodes s).flatMap fun r => (s.heap r).observations)) := by
  have hout : ∀ r ∈ done ++ s.packets, ∀ o ∈ (s.heap r).observations, decide (o.observerID ≠ "") = true →
      window.includes lib o.timestamp = true → r ∈ chosen lib window areaNodes s := by
    intro r hr o ho hne hin
    obtain ⟨t, ht, hfound⟩ := hinside o.observerID o (h.mem_byObserver.mpr ⟨⟨r, hr, ho⟩, of_decide_eq_true hne, rfl⟩) hin
    have heq : t = r := Option.some.inj (hfound.symm.trans (h.found hsub hr ho))
    exact heq ▸ ht
  refine ((listed_perm h hs).filter _).trans (List.Perm.of_eq ?_)
  rw [List.filter_filter, List.flatMap_append, List.filter_append, inWindow, List.filter_flatMap, List.filter_flatMap,
    List.filter_flatMap]
  have hdone : (done.flatMap fun r => (s.heap r).observations.filter fun o =>
      window.includes lib o.timestamp && decide (o.observerID ≠ "")) = [] := by
    apply List.flatMap_eq_nil_iff.mpr
    intro r hr
    apply List.filter_eq_nil_iff.mpr
    intro o ho hboth
    obtain ⟨hin, hne⟩ := Bool.and_eq_true_iff.mp hboth
    have hchosen := hout r (List.mem_append_left _ hr) o ho hne hin
    exact List.disjoint_of_nodup_append h.sound.wf.nodup hr (List.mem_of_mem_filter hchosen)
  rw [hdone, List.nil_append]
  apply flatMap_eq_filter
  intro r hr
  split
  · apply List.filter_congr
    intro o ho
    rw [decide_eq_true (hs.named r hr o ho), Bool.and_true]
  · next hnot =>
      apply List.filter_eq_nil_iff.mpr
      intro o ho hboth
      obtain ⟨hin, hne⟩ := Bool.and_eq_true_iff.mp hboth
      exact hnot (List.mem_filter.mp (hout r (List.mem_append_right _ hr) o ho hne hin)).2

theorem perm_iff_aligned (h : Kept tables done loc s) (hsub : done ⊆ loc) (hs : Complete s ids) :
    (inWindow lib window (ids.flatMap (bucket s.byObserver))).Perm
        ((chosen lib window areaNodes s).flatMap fun r => (s.heap r).observations) ↔
      Aligned lib window areaNodes s := by
  constructor
  · intro hperm
    refine ⟨fun id o ho hin => ?_, fun r hr o ho => ?_⟩
    · obtain ⟨r, hr, hor⟩ := List.mem_flatMap.mp (hperm.mem_iff.mp ((mem_heard hs).mpr ⟨⟨id, ho⟩, hin⟩))
      exact ⟨r, hr, h.found hsub (List.mem_append_right _ (List.mem_of_mem_filter hr)) hor⟩
    · exact ((mem_heard hs).mp (hperm.mem_iff.mpr (List.mem_flatMap.mpr ⟨r, hr, ho⟩))).2
  · rintro ⟨hinside, hwhole⟩
    refine (heard_perm_of_inside h hsub hs hinside).trans (List.Perm.of_eq ?_)
    apply List.filter_eq_self.mpr
    intro o ho
    obtain ⟨r, hr, ho⟩ := List.mem_flatMap.mp ho
    exact hwhole r hr o ho

theorem readings_chosen (h : Kept tables done loc s) (hsub : done ⊆ loc) :
    readingsOf areaNodes s ((chosen lib window areaNodes s).flatMap fun r => (s.heap r).observations) =
      (chosen lib window areaNodes s).flatMap fun r => (s.heap r).observations.map fun o => (s.row r, o) := by
  rw [readingsOf, List.filterMap_flatMap, List.filter_flatMap]
  apply List.flatMap_congr
  intro r hr
  obtain ⟨hmem, hchosen⟩ := List.mem_filter.mp hr
  have hmap : (s.heap r).observations.filterMap (readingOf s) = (s.heap r).observations.map fun o => (s.row r, o) := by
    rw [← List.filterMap_eq_map]
    apply List.filterMap_congr
    intro o ho
    rw [readingOf]
    rw [h.found hsub (List.mem_append_right _ hmem) ho]
    rfl
  rw [hmap]
  apply List.filter_eq_self.mpr
  intro e he
  obtain ⟨o, -, rfl⟩ := List.mem_map.mp he
  exact (Bool.and_eq_true_iff.mp hchosen).2

variable (lib window areaNodes) in
theorem collects_some (h : Kept tables done loc s) (hsub : done ⊆ loc) (ids : List String) :
    Collects ((readingsOf areaNodes s (inWindow lib window (ids.flatMap (bucket s.byObserver)))).map Prod.fst)
        (readingsOf areaNodes s (inWindow lib window (ids.flatMap (bucket s.byObserver))))
        (computeAnalyticsRF lib window areaNodes (some ids) s) ∧
      (computeAnalyticsRF lib window areaNodes (some ids) s).totalObs =
        (inWindow lib window (ids.flatMap (bucket s.byObserver))).length := by
  have hfold : computeAnalyticsRF lib window areaNodes (some ids) s =
      (ids.flatMap (bucket s.byObserver)).foldl (addRegional lib window areaNodes s) {} := List.foldl_flatMap.symm
  rw [hfold]
  apply collects_regional
  intro o ho
  obtain ⟨id, -, ho⟩ := List.mem_flatMap.mp ho
  obtain ⟨⟨r, hr, ho⟩, -⟩ := h.mem_byObserver.mp ho
  exact ⟨r, h.found hsub hr ho⟩

variable (lib window areaNodes) in
theorem collects_none (h : Kept tables done loc s) (hsub : done ⊆ loc)
    (hheard : ∀ r ∈ s.packets, (s.heap r).observations ≠ []) :
    Collects ((chosen lib window areaNodes s).map s.row)
        (readingsOf areaNodes s ((chosen lib window areaNodes s).flatMap fun r => (s.heap r).observations))
        (computeAnalyticsRF lib window areaNodes none s) ∧
      (computeAnalyticsRF lib window areaNodes none s).totalObs =
        ((chosen lib window areaNodes s).flatMap fun r => (s.heap r).observations).length := by
  rw [readings_chosen h hsub]
  exact collects_packets hheard

theorem mem_fst_chosen (h : Kept tables done loc s) (hsub : done ⊆ loc)
    (hheard : ∀ r ∈ s.packets, (s.heap r).observations ≠ []) (tx : TxRow) :
    tx ∈ (readingsOf areaNodes s ((chosen lib window areaNodes s).flatMap fun r => (s.heap r).observations)).map
        Prod.fst ↔ tx ∈ (chosen lib window areaNodes s).map s.row := by
  rw [readings_chosen h hsub]
  simp only [List.mem_map, List.mem_flatMap]
  constructor
  · rintro ⟨_, ⟨r, hr, o, -, rfl⟩, rfl⟩
    exact ⟨r, hr, rfl⟩
  · rintro ⟨r, hr, rfl⟩
    obtain ⟨o, ho⟩ := List.exists_mem_of_ne_nil _ (hheard r (List.mem_of_mem_filter hr))
    exact ⟨_, ⟨r, hr, o, ho, rfl⟩, rfl⟩

theorem sameData_of_aligned (h : Kept tables done loc s) (hsub : done ⊆ loc) (hs : Complete s ids)
    (haligned : Aligned lib window areaNodes s) :
    SameData (computeAnalyticsRF lib window areaNodes (some ids) s) (computeAnalyticsRF lib window areaNodes none s) := by
  have hperm := (perm_iff_aligned h hsub hs).mpr haligned
  obtain ⟨hsome, htotal⟩ := collects_some lib window areaNodes h hsub ids
  obtain ⟨hnone, htotal'⟩ := collects_none lib window areaNodes h hsub hs.heard
  have hreadings := (hperm.filterMap (readingOf s)).filter fun e => inArea areaNodes e.1
  have htxs := fun tx => ((hreadings.map Prod.fst).mem_iff (a := tx)).trans (mem_fst_chosen h hsub hs.heard tx)
  apply hsome.same hnone hreadings htxs
  · intro a ha b hb heq
    obtain ⟨r, hr, rfl⟩ := List.mem_map.mp ((htxs a).mp ha)
    obtain ⟨t, ht, rfl⟩ := List.mem_map.mp ((htxs b).mp hb)
    rw [h.sound.eq_of_hash (List.mem_append_right _ (List.mem_of_mem_filter hr))
      (List.mem_append_right _ (List.mem_of_mem_filter ht)) heq]
  · rw [htotal, htotal', hperm.length_eq]

variable (lib window) in
/-- What lies between two timestamps of the window is in the window. -/
def Orderly (s : Store) : Prop :=
  ∀ ka kb kc, ∀ a ∈ bucket s.byObserver ka, ∀ b ∈ bucket s.byObserver kb, ∀ c ∈ bucket s.byObserver kc,
    a.timestamp ≠ "" → a.timestamp ≤ b.timestamp → b.timestamp ≤ c.timestamp →
      window.includes lib a.timestamp = true → window.includes lib c.timestamp = true →
        window.includes lib b.timestamp = true

theorem includes_empty : window.includes lib "" = true := if_pos rfl

theorem nodup_chosen (hs : Complete s ids) :
    ((chosen lib window areaNodes s).flatMap fun r => (s.heap r).observations).Nodup := by
  apply List.Nodup.of_map StoreObs.id
  apply List.Nodup.sublist _ hs.unique
  apply List.Sublist.map
  exact List.filter_sublist.flatMap _

theorem mem_of_mem_readingsOf {l : List StoreObs} {e : Reading} (he : e ∈ readingsOf areaNodes s l) : e.2 ∈ l := by
  obtain ⟨o, ho, hreading⟩ := List.mem_filterMap.mp (List.mem_of_mem_filter he)
  unfold readingOf at hreading
  obtain ⟨r, -, rfl⟩ := Option.map_eq_some_iff.mp hreading
  exact ho

theorem chosen_subset_of_orderly (h : Kept tables done loc s) (hsub : done ⊆ loc) (hs : Complete s ids)
    (horder : Orderly lib window s)
    (hspan : (computeAnalyticsRF lib window areaNodes (some ids) s).span =
      (computeAnalyticsRF lib window areaNodes none s).span) :
    ((chosen lib window areaNodes s).flatMap fun r => (s.heap r).observations) ⊆
      inWindow lib window (ids.flatMap (bucket s.byObserver)) := by
  have hlisted : ∀ {o}, o ∈ ((chosen lib window areaNodes s).flatMap fun r => (s.heap r).observations) →
      o ∈ bucket s.byObserver o.observerID := by
    intro o ho
    obtain ⟨r, hr, ho⟩ := List.mem_flatMap.mp ho
    have hmem : r ∈ s.packets := List.mem_of_mem_filter hr
    exact h.mem_byObserver.mpr ⟨⟨r, List.mem_append_right _ hmem, ho⟩, hs.named r hmem o ho, rfl⟩
  rw [(collects_some lib window areaNodes h hsub ids).1.span,
    (collects_none lib window areaNodes h hsub hs.heard).1.span] at hspan
  -- the times of the region, which are in the window
  have htime : ∀ {ts}, ts ∈ (readingsOf areaNodes s (inWindow lib window (ids.flatMap (bucket s.byObserver)))).map
      (fun e => e.2.timestamp) → ∃ k, ∃ o ∈ bucket s.byObserver k, o.timestamp = ts ∧ window.includes lib ts = true := by
    intro ts hts
    obtain ⟨e, he, rfl⟩ := List.mem_map.mp hts
    obtain ⟨⟨k, ho⟩, hin⟩ := (mem_heard hs).mp (mem_of_mem_readingsOf he)
    exact ⟨k, e.2, ho, rfl, hin⟩
  intro o ho
  rw [mem_heard hs]
  refine ⟨⟨o.observerID, hlisted ho⟩, ?_⟩
  by_cases hempty : o.timestamp = ""
  · rw [hempty]
    exact includes_empty
  · have hmem : o.timestamp ∈ (readingsOf areaNodes s
        ((chosen lib window areaNodes s).flatMap fun r => (s.heap r).observations)).map (fun e => e.2.timestamp) := by
      rw [readings_chosen h hsub]
      obtain ⟨r, hr, hor⟩ := List.mem_flatMap.mp ho
      exact List.mem_map.mpr ⟨(s.row r, o), List.mem_flatMap.mpr ⟨r, hr, List.mem_map_of_mem hor⟩, rfl⟩
    have hmin := Span.earliest ((readingsOf areaNodes s
      ((chosen lib window areaNodes s).flatMap fun r => (s.heap r).observations)).map fun e => e.2.timestamp)
    have hmax := Span.latest ((readingsOf areaNodes s
      ((chosen lib window areaNodes s).flatMap fun r => (s.heap r).observations)).map fun e => e.2.timestamp)
    rw [← hspan] at hmin hmax
    generalize hregion : (readingsOf areaNodes s (inWindow lib window (ids.flatMap (bucket s.byObserver)))).map
      (fun e => e.2.timestamp) = times at hmin hmax htime
    have hminne : (Span.ofTimes times).minTimestamp ≠ "" := fun heq => hempty (hmin.none heq _ hmem)
    have hmaxne : (Span.ofTimes times).maxTimestamp ≠ "" := fun heq =>
      hempty (le_antisymm (heq ▸ hmax.ge _ hmem) (empty_le _))
    obtain ⟨ka, a, ha, hats, hain⟩ := htime ((Span.earliest times).mem hminne)
    obtain ⟨kc, c, hc, hcts, hcin⟩ := htime ((Span.latest times).mem hmaxne)
    rw [← hats] at hain hminne
    rw [← hcts] at hcin
    apply horder ka o.observerID kc a ha o (hlisted ho) c hc hminne ?_ ?_ hain hcin
    · rw [hats]
      exact hmin.le _ hmem hempty
    · rw [hcts]
      exact hmax.ge _ hmem

theorem heard_subset_of_hashes (h : Kept tables done loc s) (hsub : done ⊆ loc) (hs : Complete s ids)
    (hhash : ∀ i r, s.byTxID i = some r → (s.row r).hash ≠ "")
    (hsame : ∀ hash, hash ∈ (computeAnalyticsRF lib window none (some ids) s).regionalHashes →
      hash ∈ (computeAnalyticsRF lib window none none s).regionalHashes) {r : TxRef} (hr : r ∈ done ++ s.packets)
    {o : StoreObs} (ho : o ∈ (s.heap r).observations)
    (hin : o ∈ inWindow lib window (ids.flatMap (bucket s.byObserver))) : r ∈ chosen lib window none s := by
  have hfound := h.found hsub hr ho
  rw [(collects_some lib window none h hsub ids).1.hashes, (collects_none lib window none h hsub hs.heard).1.hashes]
    at hsame
  have hmem : (s.row r, o) ∈ readingsOf none s (inWindow lib window (ids.flatMap (bucket s.byObserver))) := by
    apply List.mem_filter.mpr
    refine ⟨List.mem_filterMap.mpr ⟨o, hin, ?_⟩, rfl⟩
    rw [readingOf]
    rw [hfound]
    rfl
  obtain ⟨-, tx, htx, heq⟩ := mem_hashesOf.mp
    (hsame _ (mem_hashesOf.mpr ⟨hhash _ r hfound, s.row r, List.mem_map.mpr ⟨_, hmem, rfl⟩, rfl⟩))
  obtain ⟨t, ht, rfl⟩ := List.mem_map.mp htx
  rwa [← h.sound.eq_of_hash (List.mem_append_right _ (List.mem_of_mem_filter ht)) hr heq]

theorem aligned_of_sameData (h : Kept tables done loc s) (hsub : done ⊆ loc) (hs : Complete s ids)
    (htell : Orderly lib window s ∨ areaNodes = none ∧ ∀ i r, s.byTxID i = some r → (s.row r).hash ≠ "")
    (hsame : SameData (computeAnalyticsRF lib window areaNodes (some ids) s)
      (computeAnalyticsRF lib window areaNodes none s)) : Aligned lib window areaNodes s := by
  have hlen : (inWindow lib window (ids.flatMap (bucket s.byObserver))).length =
      ((chosen lib window areaNodes s).flatMap fun r => (s.heap r).observations).length := by
    rw [← (collects_some lib window areaNodes h hsub ids).2,
      ← (collects_none lib window areaNodes h hsub hs.heard).2]
    exact hsame.totalObs
  apply (perm_iff_aligned h hsub hs).mp
  rcases htell with horder | ⟨rfl, hhash⟩
  · have hle := List.subperm_of_subset (nodup_chosen hs) (chosen_subset_of_orderly h hsub hs horder hsame.span)
    exact (hle.perm_of_length_le (Nat.le_of_eq hlen)).symm
  · have hperm := heard_perm_of_inside h hsub hs fun id o ho hin => by
      obtain ⟨⟨r, hr, hor⟩, -⟩ := h.mem_byObserver.mp ho
      exact ⟨r, heard_subset_of_hashes h hsub hs hhash (fun hash => (hsame.hashes hash).mp) hr hor
        ((mem_heard hs).mpr ⟨⟨id, ho⟩, hin⟩), h.found hsub hr hor⟩
    -- as many are heard as there are
    have hall : inWindow lib window ((chosen lib window none s).flatMap fun r => (s.heap r).observations) =
        (chosen lib window none s).flatMap fun r => (s.heap r).observations := by
      apply List.filter_eq_self.mpr
      exact List.length_filter_eq_length_iff.mp (hperm.length_eq.symm.trans hlen)
    rwa [hall] at hperm

end Agreement

/-- The two branches collect the same where the observations in the window are those of the
packets of the area in the window. Where the order of the timestamps is that of their times,
or without an area, they do so only there. -/
theorem sameData_iff_aligned {tables : Tables} {use : Bool} {st : State}
    (h : Reach State.step (Guarded tables) (· = State.new use) st) {ids : List String} (hs : Complete st.store ids)
    (lib : Library) (window : TimeWindow) (areaNodes : Option (List String)) :
    (Aligned lib window areaNodes st.store →
      SameData (computeAnalyticsRF lib window areaNodes (some ids) st.store)
        (computeAnalyticsRF lib window areaNodes none st.store)) ∧
    (Orderly lib window st.store ∨ areaNodes = none ∧ (∀ i r, st.store.byTxID i = some r → (st.store.row r).hash ≠ "") →
      SameData (computeAnalyticsRF lib window areaNodes (some ids) st.store)
        (computeAnalyticsRF lib window areaNodes none st.store) → Aligned lib window areaNodes st.store) := by
  obtain ⟨done, _, hsub, hk⟩ := (inv_of_guarded h).kept
  exact ⟨sameData_of_aligned hk hsub hs, aligned_of_sameData hk hsub hs⟩

def plainLibrary : Library where
  parseTime := Timestamps.parseRFC3339
  sha256 := fun _ => []
  formatFloat := id
  sprint := fun _ => ""

def heardAt (firstSeen timestamp : String) : ScanRow where
  tx := plainTx 1 "a" firstSeen 4
  obs := some { plainObs 1 1 "obs1" "[]" with timestamp := timestamp }
  joined := by
    rintro _ ⟨⟩
    rfl

def polled (firstSeen timestamp : String) : List Action :=
  [.ingestNewFromDB (plainEnv none) 0 100 [heardAt firstSeen timestamp]]

theorem guarded_polled (firstSeen timestamp : String) :
    Along State.step (Guarded unary) (State.new true) (polled firstSeen timestamp) := by
  apply guarded_ingest_row
  · rfl
  · rintro o ⟨⟩
    rfl

theorem packets_polled (firstSeen timestamp : String) :
    (State.after true (polled firstSeen timestamp)).store.packets = [0] := rfl

theorem observers_polled (firstSeen timestamp : String) :
    ((State.after true (polled firstSeen timestamp)).store.heap 0).observations.map StoreObs.observerID = ["obs1"] := rfl

theorem kept_polled (firstSeen timestamp : String) :
    Kept unary [] [] (State.after true (polled firstSeen timestamp)).store := by
  obtain ⟨done, hdone, hsub, hk⟩ := (inv_of_guarded (Reach.of_along (.start rfl) (guarded_polled firstSeen timestamp))).kept
  have hnone : done = [] := List.eq_nil_of_subset_nil hsub
  rwa [hnone] at hk

theorem complete_polled (firstSeen timestamp : String) :
    Complete (State.after true (polled firstSeen timestamp)).store ["obs1"] := by
  have hpackets := packets_polled firstSeen timestamp
  have hobservers := observers_polled firstSeen timestamp
  have hnamed : ∀ r ∈ (State.after true (polled firstSeen timestamp)).store.packets,
      ∀ o ∈ ((State.after true (polled firstSeen timestamp)).store.heap r).observations, o.observerID = "obs1" := by
    intro r hr o ho
    rw [hpackets, List.mem_singleton] at hr
    subst hr
    exact List.mem_singleton.mp (hobservers ▸ List.mem_map_of_mem ho)
  refine ⟨fun r hr hnil => ?_, fun r hr o ho => ?_, List.nodup_singleton (1 : Int), List.nodup_singleton _, fun id hid => ?_⟩
  · rw [hpackets, List.mem_singleton] at hr
    subst hr
    rw [hnil] at hobservers
    cases hobservers
  · rw [hnamed r hr o ho]
    decide
  · obtain ⟨o, ho⟩ := List.exists_mem_of_ne_nil _ hid
    obtain ⟨⟨r, hr, hor⟩, -, heq⟩ := (kept_polled firstSeen timestamp).mem_byObserver.mp ho
    rw [← heq, hnamed r hr o hor]
    exact List.mem_singleton_self _

def afternoon : TimeWindow := ⟨"2026-01-01T12:00:00Z", ""⟩

theorem aligned_polled :
    Aligned plainLibrary afternoon none
      (State.after true (polled "2026-01-01T13:00:00Z" "2026-01-01T14:00:00Z")).store := by
  have hchosen : chosen plainLibrary afternoon none
      (State.after true (polled "2026-01-01T13:00:00Z" "2026-01-01T14:00:00Z")).store = [0] := by decide
  have hin : ((State.after true (polled "2026-01-01T13:00:00Z" "2026-01-01T14:00:00Z")).store.heap 0).observations.all
      (fun o => afternoon.includes plainLibrary o.timestamp) = true := by decide
  have hkept := kept_polled "2026-01-01T13:00:00Z" "2026-01-01T14:00:00Z"
  refine ⟨fun id o ho _ => ?_, fun r hr => ?_⟩
  · obtain ⟨⟨r, hr, hor⟩, -⟩ := hkept.mem_byObserver.mp ho
    have hfound := hkept.found (List.Subset.refl _) hr hor
    rw [List.nil_append, packets_polled, List.mem_singleton] at hr
    subst hr
    exact ⟨0, by rw [hchosen]; exact List.mem_singleton_self _, hfound⟩
  · rw [hchosen, List.mem_singleton] at hr
    subst hr
    exact List.all_eq_true.mp hin

theorem sameData_polled :
    SameData
      (computeAnalyticsRF plainLibrary afternoon none (some ["obs1"])
        (State.after true (polled "2026-01-01T13:00:00Z" "2026-01-01T14:00:00Z")).store)
      (computeAnalyticsRF plainLibrary afternoon none none
        (State.after true (polled "2026-01-01T13:00:00Z" "2026-01-01T14:00:00Z")).store) :=
  (sameData_iff_aligned (Reach.of_along (.start rfl) (guarded_polled _ _)) (complete_polled _ _) plainLibrary
    afternoon none).1 aligned_polled

/-- The region counts the observation, and without one the packet is passed over. -/
theorem lateObservation_differs : ¬ ∀ (use : Bool) (st : State), Reachable use st →
    ∀ (ids : List String), Complete st.store ids →
      ∀ (lib : Library) (window : TimeWindow) (areaNodes : Option (List String)),
        SameData (computeAnalyticsRF lib window areaNodes (some ids) st.store)
          (computeAnalyticsRF lib window areaNodes none st.store) := by
  intro hall
  have hreach : Reachable true (State.after true (polled "2026-01-01T11:00:00Z" "2026-01-01T14:00:00Z")) :=
    reachable_after ⟨trivial, trivial⟩
  have hsame := hall true _ hreach ["obs1"] (complete_polled _ _) plainLibrary afternoon none
  exact absurd hsame.totalObs (by decide)

end MeshcoreAnalyzer.PacketStore.RFAnalytics

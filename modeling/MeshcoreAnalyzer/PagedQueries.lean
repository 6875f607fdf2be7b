import MeshcoreAnalyzer.Firsts
import MeshcoreAnalyzer.GroupedQueries
import MeshcoreAnalyzer.Pages
import MeshcoreAnalyzer.QueryAgreement
import MeshcoreAnalyzer.Readers
import MeshcoreAnalyzer.Uniqueness
import Mathlib.Data.List.Dedup

namespace MeshcoreAnalyzer.PacketStore.PagedQueries

open Maps Json Pages Runs Store Firsts

/-! The paged requests of cmd/server/store.go: `QueryPackets`, `QueryMultiNodePackets` and
`GetChannelMessages`. -/

section Packets

variable (toUpper : String → String) (areaNodes : String → Option (List String)) (s : Store) (db : DB)

/-- Whether the database answers: the window starts before the packets in memory, and the
database does not fail. -/
def delegated (sqlFails : Bool) (q : PacketFilter) : Bool := GroupedQueries.needsSQL s q && !sqlFails

/-- `QueryPackets` with its SQL fallback. -/
def queryPackets (sqlFails : Bool) (q : PacketQuery) : Option PacketResult :=
  if delegated s sqlFails q.toPacketFilter then some (db.queryPackets q)
  else s.queryPackets toUpper areaNodes db q

def matchingIDs (sqlFails : Bool) (q : PacketFilter) : List Int :=
  if delegated s sqlFails q then db.matching q else s.matching toUpper areaNodes db q

end Packets

/-- `sort.Slice` by the ID, which is not stable. -/
structure SortByID (s : Store) where
  sort : List TxRef → List TxRef
  perm : ∀ l, (sort l).Perm l
  sorted : ∀ l, (sort l).Pairwise fun a b => (s.row a).id ≤ (s.row b).id

section MultiNode

variable (s : Store) (db : DB)

def inWindow (since before : String) (r : TxRef) : Bool :=
  !(since ≠ "" && (s.row r).firstSeen < since) && !(before ≠ "" && before < (s.row r).firstSeen)

/-- A transmission of one of the nodes: `hashSet` and `filtered`. -/
def visitTx (since before : String) (acc : List String × List TxRef) (r : TxRef) : List String × List TxRef :=
  if (s.row r).hash ∈ acc.1 then acc
  else if inWindow s since before r then ((s.row r).hash :: acc.1, acc.2 ++ [r])
  else acc

def nodeLists (pubkeys : List String) : List TxRef :=
  (pubkeys.map db.resolveNodePubkey).flatMap fun pk => bucket s.nodes.byNode pk

def filteredTxs (pubkeys : List String) (since before : String) : List TxRef :=
  ((nodeLists s db pubkeys).foldl (visitTx s since before) ([], [])).2

/-- The pages of a list in ascending order; `none` is an index out of range. -/
def paginate {α : Type} (order : Order) (limit : Nat) (offset : Int) (filtered : List α) : Option (List α) :=
  let total := filtered.length
  if total ≤ offset then some []
  else if offset < 0 then none
  else
    let start := offset.toNat
    let pageSize := if total < start + limit then total - start else limit
    match order with
    | .asc => some ((filtered.take (start + pageSize)).drop start)
    | .desc =>
        let endIdx := total - start
        some ((filtered.take endIdx).drop (endIdx - pageSize)).reverse

def queryMultiNodePackets (byID : SortByID s) (pubkeys : List String) (limit offset : Int) (order : Order)
    (since before : String) : Option GroupedQueries.GroupedResult :=
  if pubkeys = [] then some { packets := [], total := 0 }
  else
    let filtered := byID.sort (filteredTxs s db pubkeys since before)
    (paginate order (if limit ≤ 0 then 50 else limit.toNat) offset (filtered.map s.row)).map fun packets =>
      { packets, total := filtered.length }

def multiNodeMatching (pubkeys : List String) (since before : String) : List TxRef :=
  (nodeLists s db pubkeys).filter (inWindow s since before)

end MultiNode

structure DecodedMsg where
  type : String
  channel : String
  text : String
  sender : String
  senderTimestamp : Value

def intMember (members : List (String × Value)) (name : String) : Option Unit :=
  if (members.filter fun m => sameField m.1 name).all fun m =>
      match m.2 with
      | .null => true
      | .num text => (atoi text).isSome
      | _ => false
  then some () else none

/-- `json.Unmarshal` into `decodedMsg`; the field `path_len` is read and not used. -/
def unmarshalMsg (decodedJSON : String) : Option DecodedMsg := do
  let members ← match parse decodedJSON with
    | some (.obj members) => some members
    | some .null => some []
    | _ => none
  let type ← stringMember members "type"
  let channel ← stringMember members "channel"
  let text ← stringMember members "text"
  let sender ← stringMember members "sender"
  let _ ← intMember members "path_len"
  return ⟨type, channel, text, sender, anyMember members "sender_timestamp"⟩

def cutColon : List Char → Option (List Char × List Char)
  | ':' :: ' ' :: rest => some ([], rest)
  | c :: rest => (cutColon rest).map fun p => (c :: p.1, p.2)
  | [] => none

/-- `text[:idx]` and `text[idx+2:]`, where 0 < idx < 50. -/
def splitSender (text : String) : Option (String × String) :=
  match cutColon text.toList with
  | some (before, after) =>
      let before := String.ofList before
      if 0 < before.utf8ByteSize ∧ before.utf8ByteSize < 50 then some (before, String.ofList after) else none
  | none => none

/-- `msgEntry` with its key in `msgMap`. -/
structure MsgEntry where
  key : String
  sender : String
  text : String
  timestamp : String
  firstSeen : String
  senderTimestamp : Value
  packetID : Int
  packetHash : String
  repeats : Nat
  observers : List String
  hops : Nat
  snr : Option Float

section Channel

variable (s : Store)

def obsName (r : TxRef) : String :=
  if (s.heap r).observerName = "" then (s.heap r).observerID else (s.heap r).observerName

def channelMessage (regionObs : Option (String → Bool)) (channelHash : String) (r : TxRef) : Option DecodedMsg :=
  if regionObs.all fun heard => (s.heap r).observations.any fun o => heard o.observerID then
    if (s.row r).decodedJSON = "" then none
    else (unmarshalMsg (s.row r).decodedJSON).filter fun decoded =>
      decoded.type = "CHAN" && (if decoded.channel = "" then "unknown" else decoded.channel) = channelHash
  else none

def msgSender (decoded : DecodedMsg) : String :=
  if decoded.sender = "" then ((splitSender decoded.text).map Prod.fst).getD "" else decoded.sender

def dedupeKey (decoded : DecodedMsg) (r : TxRef) : String := msgSender decoded ++ ":" ++ (s.row r).hash

def newEntry (decoded : DecodedMsg) (r : TxRef) : MsgEntry where
  key := dedupeKey s decoded r
  sender := ((splitSender decoded.text).map Prod.fst).getD (msgSender decoded)
  text := ((splitSender decoded.text).map Prod.snd).getD decoded.text
  timestamp := if (s.heap r).latestSeen = "" then (s.row r).firstSeen else (s.heap r).latestSeen
  firstSeen := (s.row r).firstSeen
  senderTimestamp := decoded.senderTimestamp
  packetID := (s.row r).id
  packetHash := (s.row r).hash
  repeats := 1
  observers := if obsName s r = "" then [] else [obsName s r]
  hops := pathLen (s.heap r).pathJSON
  snr := (s.heap r).snr

def MsgEntry.repeated (e : MsgEntry) (r : TxRef) : MsgEntry :=
  { e with
    repeats := e.repeats + 1
    observers := if obsName s r = "" ∨ obsName s r ∈ e.observers then e.observers
      else e.observers ++ [obsName s r] }

/-- The entries stand in the order of `msgOrder`. -/
def addMsg (regionObs : Option (String → Bool)) (channelHash : String) (msgs : List MsgEntry) (r : TxRef) :
    List MsgEntry :=
  match channelMessage s regionObs channelHash r with
  | none => msgs
  | some decoded =>
      if dedupeKey s decoded r ∈ msgs.map MsgEntry.key then
        msgs.map fun e => if e.key = dedupeKey s decoded r then e.repeated s r else e
      else msgs ++ [newEntry s decoded r]

def sortedMessages (regionObs : Option (String → Bool)) (channelHash : String) : List MsgEntry :=
  ((bucket s.byPayloadType payloadGRP_TXT).foldl (addMsg s regionObs channelHash) []).insertionSort
    fun a b => a.timestamp ≤ b.timestamp

/-- The page and the number of messages; `none` is a slice of negative length. -/
def getChannelMessages (regionObs : Option (String → Bool)) (channelHash : String) (limit offset : Int) :
    Option (List MsgEntry × Nat) :=
  let limit := if limit ≤ 0 then 100 else limit
  let msgOrder := sortedMessages s regionObs channelHash
  let total := msgOrder.length
  let start := max 0 (total - limit - offset)
  let stop := min (max 0 (total - offset)) (total : Int)
  if stop < start then none
  else some ((msgOrder.take stop.toNat).drop start.toNat, total)

def channelKeys (regionObs : Option (String → Bool)) (channelHash : String) : List String :=
  (bucket s.byPayloadType payloadGRP_TXT).filterMap fun r =>
    (channelMessage s regionObs channelHash r).map fun decoded => dedupeKey s decoded r

end Channel

def orient {α : Type} : Order → List α → List α
  | .asc, l => l
  | .desc, l => l.reverse

def NotAfter : Order → Int → Int → Prop
  | .asc => (· ≤ ·)
  | .desc => (· ≥ ·)

def Before : Order → Int → Int → Prop
  | .asc => (· < ·)
  | .desc => (· > ·)

theorem orient_perm {α : Type} (order : Order) (l : List α) : (orient order l).Perm l := by
  cases order with
  | asc => exact List.Perm.refl l
  | desc => exact List.reverse_perm l

theorem map_orient {α β : Type} (f : α → β) (order : Order) (l : List α) :
    (orient order l).map f = orient order (l.map f) := by
  cases order with
  | asc => rfl
  | desc => exact List.map_reverse

theorem pairwise_orient {order : Order} {ids : List Int} (h : ids.Pairwise (· ≤ ·)) :
    (orient order ids).Pairwise (NotAfter order) := by
  cases order with
  | asc => exact h
  | desc => exact List.pairwise_reverse.mpr h

theorem pairwise_orient_lt {order : Order} {ids : List Int} (h : ids.Pairwise (· < ·)) :
    (orient order ids).Pairwise (Before order) := by
  cases order with
  | asc => exact h
  | desc => exact List.pairwise_reverse.mpr h

theorem page_eq_slice (order : Order) (size k : Nat) (ids : List Int) :
    page order size (size * k) ids = slice size k (orient order ids) := by
  cases order <;> rfl

theorem paginate_eq {α : Type} (order : Order) (limit : Nat) {offset : Int} (h : 0 ≤ offset) (l : List α) :
    paginate order limit offset l = some (((orient order l).drop offset.toNat).take limit) := by
  obtain ⟨start, rfl⟩ := Int.eq_ofNat_of_zero_le h
  have hlen : (orient order l).length = l.length := (orient_perm order l).length_eq
  rw [paginate]
  rw [Int.toNat_natCast]
  by_cases hend : (l.length : Int) ≤ start
  · rw [if_pos hend, List.drop_eq_nil_of_le (by omega), List.take_nil]
  · rw [if_neg hend, if_neg (by omega)]
    -- behind the last item there is nothing to cut off
    have hsize : ((orient order l).drop start).take (if l.length < start + limit then l.length - start else limit) =
        ((orient order l).drop start).take limit := by
      split
      · rw [List.take_of_length_le, List.take_of_length_le]
        · rw [List.length_drop]
          omega
        · rw [List.length_drop]
          omega
      · rfl
    rw [← hsize]
    cases order with
    | asc =>
        simp only [List.drop_take, Nat.add_sub_cancel_left]
        rfl
    | desc =>
        simp only []
        rw [reverse_window l (by split <;> omega)]
        rfl

/-- The pages of `QueryPackets` partition the matching packets, by their IDs. -/
structure PacketPages (order : Order) (answer : Nat → Option PacketResult) (items : List Int) (pages : Nat → List Int)
    (joined : List Int) : Prop where
  answers : ∀ k, answer k = some { packets := pages k, total := items.length }
  partition : Partition id pages items joined
  ordered : ∀ k, (pages k).Pairwise (Before order)
  monotone : joined.Pairwise (Before order)

section Packets

variable (toUpper : String → String) (areaNodes : String → Option (List String)) (s : Store) (db : DB)

def packetPage (sqlFails : Bool) (q : PacketFilter) (order : Order) (L k : Nat) : Option PacketResult :=
  queryPackets toUpper areaNodes s db sqlFails { toPacketFilter := q, limit := L, offset := (L * k : Nat), order }

variable {toUpper areaNodes s db}

theorem packetPage_eq {L : Nat} (hL : 0 < L) (sqlFails : Bool) (q : PacketFilter) (order : Order) (k : Nat) :
    packetPage toUpper areaNodes s db sqlFails q order L k = some
      { packets := slice L k (orient order
          ((matchingIDs toUpper areaNodes s db sqlFails q).insertionSort (· ≤ ·)))
        total := (matchingIDs toUpper areaNodes s db sqlFails q).length } := by
  have hsize : ∀ q' : PacketQuery, q'.limit = L → q'.pageSize = L := by
    intro q' hq'
    rw [PacketQuery.pageSize, if_neg (by omega), hq', Int.toNat_natCast]
  rw [packetPage, queryPackets, matchingIDs]
  split
  · rw [DB.queryPackets_eq, hsize _ rfl, Int.toNat_natCast, page_eq_slice]
  · rw [Store.queryPackets_eq toUpper areaNodes (Int.natCast_nonneg _), hsize _ rfl, Int.toNat_natCast, page_eq_slice]

theorem packetPages_iff {L : Nat} (hL : 0 < L) (sqlFails : Bool) (q : PacketFilter) (order : Order) :
    (∃ pages joined, PacketPages order (packetPage toUpper areaNodes s db sqlFails q order L)
        (matchingIDs toUpper areaNodes s db sqlFails q).dedup pages joined) ↔
      (matchingIDs toUpper areaNodes s db sqlFails q).Nodup := by
  constructor
  · rintro ⟨pages, joined, h⟩
    have htotal := (packetPage_eq hL sqlFails q order 0).symm.trans (h.answers 0)
    have hlength : (matchingIDs toUpper areaNodes s db sqlFails q).dedup.length =
        (matchingIDs toUpper areaNodes s db sqlFails q).length :=
      (congrArg PacketResult.total (Option.some.inj htotal)).symm
    rw [← (List.dedup_sublist _).eq_of_length hlength]
    exact List.nodup_dedup _
  · intro hnd
    have hperm := List.perm_insertionSort (· ≤ ·) (matchingIDs toUpper areaNodes s db sqlFails q)
    have hsorted : ((matchingIDs toUpper areaNodes s db sqlFails q).insertionSort (· ≤ ·)).Pairwise (· < ·) := by
      have hle := List.pairwise_insertionSort (· ≤ ·) (matchingIDs toUpper areaNodes s db sqlFails q)
      exact (hle.and (hperm.nodup_iff.mpr hnd)).imp fun h => lt_of_le_of_ne h.1 h.2
    have hmonotone : (orient order _).Pairwise (Before order) := pairwise_orient_lt hsorted
    rw [List.Nodup.dedup hnd]
    refine ⟨_, _, packetPage_eq hL sqlFails q order, partition_slice hL ?_ hnd, fun k => ?_, hmonotone⟩
    · rw [List.map_id]
      exact (orient_perm order _).trans hperm
    · exact hmonotone.sublist (slice_sublist L k _)

end Packets

/-- The pages partition the matching transmissions, by their hashes. -/
structure MultiNodePages (order : Order) (answer : Nat → Option GroupedQueries.GroupedResult) (matching : List TxRow)
    (pages : Nat → List TxRow) (joined : List TxRow) : Prop where
  answers : ∀ k, answer k = some { packets := pages k, total := (matching.map TxRow.hash).dedup.length }
  partition : Partition TxRow.hash pages (matching.map TxRow.hash).dedup joined
  matching : joined ⊆ matching
  ordered : joined.Pairwise fun a b => NotAfter order a.id b.id

section MultiNode

variable {s : Store} {db : DB}

theorem foldl_visitTx (since before : String) (l : List TxRef) (acc : List String × List TxRef) :
    (l.foldl (visitTx s since before) acc).2 =
      acc.2 ++ firsts (fun r => (s.row r).hash) acc.1 (l.filter (inWindow s since before)) := by
  induction l generalizing acc with
  | nil => exact (List.append_nil _).symm
  | cons r l ih =>
      rw [List.foldl_cons, ih]
      by_cases hin : inWindow s since before r = true
      · rw [List.filter_cons_of_pos hin, firsts_cons]
        by_cases hseen : (s.row r).hash ∈ acc.1
        · rw [visitTx, if_pos hseen, if_pos hseen]
        · rw [visitTx, if_neg hseen, if_pos hin, if_neg hseen, List.append_assoc, List.singleton_append]
      · have hsame : visitTx s since before acc r = acc := by
          rw [visitTx, if_neg hin]
          split <;> rfl
        rw [hsame, List.filter_cons_of_neg hin]

theorem filteredTxs_eq (pubkeys : List String) (since before : String) :
    filteredTxs s db pubkeys since before =
      firsts (fun r => (s.row r).hash) [] (multiNodeMatching s db pubkeys since before) :=
  foldl_visitTx since before _ ([], [])

theorem multiNodePages (byID : SortByID s) (pubkeys : List String) (since before : String) (order : Order) {L : Nat}
    (hL : 0 < L) :
    ∃ pages joined, MultiNodePages order
      (fun k => queryMultiNodePackets s db byID pubkeys L (L * k : Nat) order since before)
      ((multiNodeMatching s db pubkeys since before).map s.row) pages joined := by
  have hfirsts : filteredTxs s db pubkeys since before =
      firsts (fun r => (s.row r).hash) [] (multiNodeMatching s db pubkeys since before) :=
    filteredTxs_eq pubkeys since before
  have hkeys : ((byID.sort (filteredTxs s db pubkeys since before)).map fun r => (s.row r).hash).Perm
      (((multiNodeMatching s db pubkeys since before).map s.row).map TxRow.hash).dedup := by
    rw [List.map_map]
    refine ((byID.perm _).map _).trans ?_
    rw [hfirsts]
    exact map_firsts_perm_dedup
  refine ⟨fun k => slice L k (orient order ((byID.sort (filteredTxs s db pubkeys since before)).map s.row)),
    orient order ((byID.sort (filteredTxs s db pubkeys since before)).map s.row), fun k => ?_,
    partition_slice hL ?_ (List.nodup_dedup _), ?_, ?_⟩
  · have hlen : (byID.sort (filteredTxs s db pubkeys since before)).length =
        (((multiNodeMatching s db pubkeys since before).map s.row).map TxRow.hash).dedup.length := by
      rw [← hkeys.length_eq, List.length_map]
    rw [queryMultiNodePackets]
    split
    · next hnil =>
        subst hnil
        have hempty : byID.sort (filteredTxs s db [] since before) = [] :=
          List.Perm.eq_nil (byID.perm _)
        rw [hempty] at hlen ⊢
        rw [← hlen]
        cases order <;> simp [slice, orient]
    · dsimp only
      rw [if_neg (by omega), Int.toNat_natCast, paginate_eq order L (Int.natCast_nonneg _), Int.toNat_natCast, hlen]
      rfl
  · refine ((orient_perm order _).map TxRow.hash).trans ?_
    rw [List.map_map]
    exact hkeys
  · intro t ht
    obtain ⟨r, hr, rfl⟩ := List.mem_map.mp ((orient_perm order _).mem_iff.mp ht)
    have hr' := (byID.perm _).mem_iff.mp hr
    rw [hfirsts] at hr'
    exact List.mem_map_of_mem (firsts_subset hr')
  · have hsorted : (((byID.sort (filteredTxs s db pubkeys since before)).map s.row).map TxRow.id).Pairwise (· ≤ ·) := by
      rw [List.map_map, List.pairwise_map]
      exact byID.sorted _
    have horient : (orient order _).Pairwise (NotAfter order) := pairwise_orient hsorted
    rw [← map_orient, List.pairwise_map] at horient
    exact horient

end MultiNode

/-- The pages, each read from its end, partition the messages of the channel. -/
structure ChannelPages (answer : Nat → Option (List MsgEntry × Nat)) (keys : List String)
    (pages : Nat → List MsgEntry) (joined : List MsgEntry) : Prop where
  answers : ∀ k, answer k = some (pages k, keys.length)
  partition : Partition MsgEntry.key (fun k => (pages k).reverse) keys joined
  ordered : ∀ k, (pages k).Pairwise fun a b => a.timestamp ≤ b.timestamp
  newestFirst : joined.Pairwise fun a b => b.timestamp ≤ a.timestamp

section Channel

variable {s : Store}

theorem keys_addMsg (regionObs : Option (String → Bool)) (channelHash : String) (msgs : List MsgEntry) (r : TxRef) :
    (addMsg s regionObs channelHash msgs r).map MsgEntry.key =
      match channelMessage s regionObs channelHash r with
      | none => msgs.map MsgEntry.key
      | some decoded => if dedupeKey s decoded r ∈ msgs.map MsgEntry.key then msgs.map MsgEntry.key
          else msgs.map MsgEntry.key ++ [dedupeKey s decoded r] := by
  rw [addMsg]
  cases channelMessage s regionObs channelHash r with
  | none => rfl
  | some decoded =>
      dsimp only
      split
      · rw [List.map_map]
        apply List.map_congr_left
        intro e _
        change (if e.key = dedupeKey s decoded r then e.repeated s r else e).key = e.key
        split <;> rfl
      · rw [List.map_append]
        rfl

theorem keys_foldl_addMsg (regionObs : Option (String → Bool)) (channelHash : String) (l : List TxRef)
    (msgs : List MsgEntry) :
    (l.foldl (addMsg s regionObs channelHash) msgs).map MsgEntry.key =
      msgs.map MsgEntry.key ++ firsts id (msgs.map MsgEntry.key) (l.filterMap fun r =>
        (channelMessage s regionObs channelHash r).map fun decoded => dedupeKey s decoded r) := by
  induction l generalizing msgs with
  | nil => exact (List.append_nil _).symm
  | cons r l ih =>
      rw [List.foldl_cons, ih, keys_addMsg, List.filterMap_cons]
      cases channelMessage s regionObs channelHash r with
      | none => rfl
      | some decoded =>
          simp only [Option.map_some, firsts_cons, id]
          split
          · rfl
          · rw [List.append_assoc, List.singleton_append]
            congr 2
            apply firsts_congr
            intro k
            simp [or_comm]

theorem keys_sortedMessages (regionObs : Option (String → Bool)) (channelHash : String) :
    ((sortedMessages s regionObs channelHash).map MsgEntry.key).Perm (channelKeys s regionObs channelHash).dedup := by
  refine ((List.perm_insertionSort _ _).map MsgEntry.key).trans ?_
  rw [keys_foldl_addMsg]
  have hperm : ((firsts id [] (channelKeys s regionObs channelHash)).map id).Perm
      ((channelKeys s regionObs channelHash).map id).dedup := map_firsts_perm_dedup
  rw [List.map_id, List.map_id] at hperm
  exact hperm

theorem reverse_channelWindow {α : Type} (l : List α) {L : Nat} (k : Nat) :
    ((l.take (l.length - L * k)).drop (l.length - L * k - L)).reverse = slice L k l.reverse := by
  by_cases h : L * k + L ≤ l.length
  · exact reverse_window l h
  · have hstart : l.length - L * k - L = 0 := by omega
    have hlen : (l.take (l.length - L * k)).reverse.length ≤ L := by
      rw [List.length_reverse, List.length_take]
      omega
    rw [hstart, List.drop_zero, slice, List.drop_reverse]
    exact (List.take_of_length_le hlen).symm

theorem channelPages (regionObs : Option (String → Bool)) (channelHash : String) {L : Nat} (hL : 0 < L) :
    ∃ pages joined, ChannelPages (fun k => getChannelMessages s regionObs channelHash L (L * k : Nat))
      (channelKeys s regionObs channelHash).dedup pages joined := by
  have hkeys := keys_sortedMessages (s := s) regionObs channelHash
  have hsorted : (sortedMessages s regionObs channelHash).Pairwise fun a b => a.timestamp ≤ b.timestamp :=
    Orders.ascending_insertionSort MsgEntry.timestamp _
  refine ⟨fun k => ((sortedMessages s regionObs channelHash).take
      ((sortedMessages s regionObs channelHash).length - L * k)).drop
        ((sortedMessages s regionObs channelHash).length - L * k - L),
    (sortedMessages s regionObs channelHash).reverse, fun k => ?_, ?_, fun k => ?_, List.pairwise_reverse.mpr hsorted⟩
  · rw [← hkeys.length_eq, List.length_map]
    unfold getChannelMessages
    simp only []
    generalize sortedMessages s regionObs channelHash = l
    rw [if_neg (by omega), if_neg (by omega)]
    have hstop : (min (max 0 ((l.length : Int) - (L * k : Nat))) (l.length : Int)).toNat = l.length - L * k := by omega
    have hstart : (max 0 ((l.length : Int) - L - (L * k : Nat))).toNat = l.length - L * k - L := by omega
    rw [hstop, hstart]
  · have hslices : (fun k => (((sortedMessages s regionObs channelHash).take
        ((sortedMessages s regionObs channelHash).length - L * k)).drop
          ((sortedMessages s regionObs channelHash).length - L * k - L)).reverse) =
        fun k => slice L k (sortedMessages s regionObs channelHash).reverse := by
      funext k
      exact reverse_channelWindow _ k
    rw [hslices]
    apply partition_slice hL ?_ (List.nodup_dedup _)
    exact ((List.reverse_perm _).map MsgEntry.key).trans hkeys
  · exact hsorted.sublist ((List.drop_sublist _ _).trans (List.take_sublist _ _))

end Channel

theorem pages_partition_iff (toUpper : String → String) (areaNodes : String → Option (List String)) (s : Store)
    (db : DB) (sqlFails : Bool) (q : PacketFilter) (byID : SortByID s) (pubkeys : List String) (since before : String)
    (order : Order) (regionObs : Option (String → Bool)) (channelHash : String) {L : Nat} (hL : 1 ≤ L) :
    ((∃ pages joined, PacketPages order (packetPage toUpper areaNodes s db sqlFails q order L)
        (matchingIDs toUpper areaNodes s db sqlFails q).dedup pages joined) ∧
      (∃ pages joined, MultiNodePages order
        (fun k => queryMultiNodePackets s db byID pubkeys L (L * k : Nat) order since before)
        ((multiNodeMatching s db pubkeys since before).map s.row) pages joined) ∧
      ∃ pages joined, ChannelPages (fun k => getChannelMessages s regionObs channelHash L (L * k : Nat))
        (channelKeys s regionObs channelHash).dedup pages joined) ↔
      (matchingIDs toUpper areaNodes s db sqlFails q).Nodup := by
  constructor
  · rintro ⟨hpackets, _, _⟩
    exact (packetPages_iff hL sqlFails q order).mp hpackets
  · intro hnd
    refine ⟨(packetPages_iff hL sqlFails q order).mpr hnd, ?_, ?_⟩
    · exact multiNodePages byID pubkeys since before order hL
    · exact channelPages regionObs channelHash hL

def stableByID (s : Store) : SortByID s where
  sort := fun l => l.insertionSort fun a b => (s.row a).id ≤ (s.row b).id
  perm := fun l => List.perm_insertionSort _ l
  sorted := fun l => Orders.ascending_insertionSort (fun r => (s.row r).id) l

/-- An advert of a node, a message of a channel, and a packet of neither. -/
def threePackets : Store :=
  (Store.new true).run [.ingestNewFromDB (plainEnv none) 0 100
    [bareRow { plainTx 1 "h1" "2026-01-01T00:00:00Z" 4 with decodedJSON := "\x7b\"pubKey\":\"aa\"\x7d" },
      bareRow { plainTx 2 "h2" "2026-01-01T00:00:01Z" 5 with
        decodedJSON := "\x7b\"type\":\"CHAN\",\"channel\":\"#test\",\"text\":\"hi\"\x7d" },
      bareRow (plainTx 3 "h3" "2026-01-01T00:00:02Z" 4)]]

theorem matchingIDs_threePackets :
    matchingIDs id (fun _ => none) threePackets GroupedQueries.emptyDB false {} = [1, 2, 3] := by decide

/-- In pages of two. -/
theorem pages_partition_iff_advert :
    (∃ pages joined, PacketPages .desc
        (packetPage id (fun _ => none) threePackets GroupedQueries.emptyDB false {} .desc 2)
        (matchingIDs id (fun _ => none) threePackets GroupedQueries.emptyDB false {}).dedup pages joined) ∧
      (∃ pages joined, MultiNodePages .desc
        (fun k => queryMultiNodePackets threePackets GroupedQueries.emptyDB (stableByID _) ["aa"] (2 : Nat)
          (2 * k : Nat) .desc "" "")
        ((multiNodeMatching threePackets GroupedQueries.emptyDB ["aa"] "" "").map threePackets.row) pages joined) ∧
      ∃ pages joined, ChannelPages (fun k => getChannelMessages threePackets none "#test" (2 : Nat) (2 * k : Nat))
        (channelKeys threePackets none "#test").dedup pages joined := by
  have hnodup : (matchingIDs id (fun _ => none) threePackets GroupedQueries.emptyDB false {}).Nodup := by
    rw [matchingIDs_threePackets]
    decide
  exact (pages_partition_iff id (fun _ => none) threePackets GroupedQueries.emptyDB false {} (stableByID _) ["aa"] "" ""
    .desc none "#test" (by decide)).mpr hnodup

/-- The poller has put a packet in that a chunk brings once more: its ID comes twice. -/
theorem repeated_packet_listed_twice : ¬ ∀ (use : Bool) (hashOf : Int → String) (st : State),
    Reach State.step (fun st a => st.Enabled a ∧ Uniqueness.FromTable hashOf a) (· = State.new use) st →
      ∀ (toUpper : String → String) (areaNodes : String → Option (List String)) (db : DB) (sqlFails : Bool)
        (q : PacketFilter) (order : Order) (L : Nat), 1 ≤ L →
          ∃ pages joined, PacketPages order (packetPage toUpper areaNodes st.store db sqlFails q order L)
            (matchingIDs toUpper areaNodes st.store db sqlFails q).dedup pages joined := by
  intro h
  have hpages := h true _ _ Uniqueness.reach_pollerBetween id (fun _ => none) GroupedQueries.emptyDB false {} .asc 1
    (Nat.le_refl 1)
  have hnd := (packetPages_iff (Nat.le_refl 1) false {} .asc).mp hpages
  exact absurd hnd (by decide)

end MeshcoreAnalyzer.PacketStore.PagedQueries

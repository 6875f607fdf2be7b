import MeshcoreAnalyzer.Store
import MeshcoreAnalyzer.Orders

namespace MeshcoreAnalyzer.PacketStore

open Maps Json Orders

/-! Two readers of the secondary indexes: the recent packets of `GetNodeHealth` and
the channels of `computeAnalyticsChannels`, both of cmd/server/store.go. -/

/-- The packets of the list `recentPackets`: from the tail of `byNode` backwards. -/
def Store.recentPackets (s : Store) (pubkey : String) : List TxRef :=
  let packets := bucket s.nodes.byNode pubkey
  let recentLimit := if packets.length < 20 then packets.length else 20
  packets.reverse.take recentLimit

/-- What these readers use of the standard library: `time.Parse` for the layout
RFC3339Nano, `sha256.Sum256`, and how `strconv` and `fmt` print a value. -/
structure Library where
  parseTime : String → Option Int
  sha256 : List UInt8 → List UInt8
  formatFloat : String → String
  sprint : Value → String

/-- `TimeWindow`, with `Until` as `upTo`. -/
structure TimeWindow where
  since : String
  upTo : String

/-- `Includes` of cmd/server/time_window.go -/
def TimeWindow.includes (lib : Library) (w : TimeWindow) (ts : String) : Bool :=
  if ts = "" then true
  else
    let tooEarly := match lib.parseTime w.since, lib.parseTime ts with
      | some s, some tt => decide (tt < s)
      | _, _ => decide (ts < w.since)
    let tooLate := match lib.parseTime w.upTo, lib.parseTime ts with
      | some u, some tt => decide (u < tt)
      | _, _ => decide (w.upTo < ts)
    if w.since ≠ "" && tooEarly then false
    else if w.upTo ≠ "" && tooLate then false
    else true

/-- A request for the channels: the window, and the observers and nodes that a
region and an area stand for. -/
structure ChannelQuery where
  window : TimeWindow
  regionObs : Option (String → Bool)
  areaNodes : Option (String → Bool)

structure DecodedGrp where
  channel : String
  channelHash : Value
  channelHash2 : String
  text : String
  sender : String
  decryptionStatus : String

def sameField (key name : String) : Bool := toLower key == toLower name

def stringMember (members : List (String × Value)) (name : String) : Option String :=
  (members.filter fun m => sameField m.1 name).foldl (fun acc m =>
    match acc, m.2 with
    | some _, .str s => some s
    | some s, .null => some s
    | _, _ => none) (some "")

/-- A field of type `interface`: the last value counts. -/
def anyMember (members : List (String × Value)) (name : String) : Value :=
  match (members.filter fun m => sameField m.1 name).getLast? with
  | some m => m.2
  | none => .null

/-- `json.Unmarshal` into `decodedGrp`; the field `type` is read and not used. -/
def unmarshalGrp (decodedJSON : String) : Option DecodedGrp := do
  let members ← match parse decodedJSON with
    | some (.obj members) => some members
    | some .null => some []
    | _ => none
  let _ ← stringMember members "type"
  let channel ← stringMember members "channel"
  let channelHash2 ← stringMember members "channel_hash"
  let text ← stringMember members "text"
  let sender ← stringMember members "sender"
  let decryptionStatus ← stringMember members "decryptionStatus"
  return ⟨channel, anyMember members "channelHash", channelHash2, text, sender, decryptionStatus⟩

def chHashStr (lib : Library) : Value → String
  | .null => ""
  | .str s => s
  | .num text => lib.formatFloat text
  | v => lib.sprint v

/-- `strconv.Atoi` for 64 bits. -/
def atoi (s : String) : Option Int :=
  let (negative, digits) := match s.toList with
    | '-' :: ds => (true, ds)
    | '+' :: ds => (false, ds)
    | ds => (false, ds)
  if digits = [] ∨ digits.any (fun c => !c.isDigit) then none
  else
    let n : Int := digits.foldl (fun n c => n * 10 + (c.toNat - 48)) (0 : Nat)
    let n := if negative then -n else n
    if -9223372036854775808 ≤ n ∧ n ≤ 9223372036854775807 then some n else none

def channelNameMatchesHash (lib : Library) (name hashStr : String) : Bool :=
  match atoi hashStr with
  | none => false
  | some expected =>
      let chanName := if "#".toList.isPrefixOf name.toList then name else "#" ++ name
      let h1 := lib.sha256 chanName.toUTF8.toList
      let h2 := lib.sha256 (h1.take 16)
      (h2.head?.map fun b => (b.toNat : Int)) == some expected

def isPlaceholderName (name : String) : Bool :=
  "ch".toList.isPrefixOf name.toList && (atoi (String.ofList (name.toList.drop 2))).isSome

structure ChanInfo where
  hash : String
  name : String
  messages : Int
  senders : Finset String
  lastActivity : String
  encrypted : Bool

def DecodedGrp.chKey (lib : Library) (decoded : DecodedGrp) : String :=
  let hash := chHashStr lib decoded.channelHash
  let hash := if hash = "" then decoded.channelHash2 else hash
  if hash = "" then "?" else hash

def addMessage (lib : Library) (channelMap : GoMap String ChanInfo) (firstSeen : String)
    (decoded : DecodedGrp) : GoMap String ChanInfo :=
  let hash := decoded.chKey lib
  let name := if decoded.channel = "" then "ch" ++ hash else decoded.channel
  let encrypted := decoded.text == "" && decoded.sender == ""
  -- a name that does not belong to the hash is dropped, unless a key vouches for it
  let mismatch := name != "" && name != "ch" ++ hash && decoded.decryptionStatus != "decrypted" &&
    !channelNameMatchesHash lib name hash
  let name := if mismatch then "ch" ++ hash else name
  let encrypted := mismatch || encrypted
  let ch : ChanInfo := match channelMap hash with
    | none => ⟨hash, name, 0, ∅, firstSeen, encrypted⟩
    | some ch =>
        if isPlaceholderName ch.name && !isPlaceholderName name then { ch with name := name } else ch
  set channelMap hash
    { ch with
      messages := ch.messages + 1
      lastActivity := firstSeen
      encrypted := if encrypted then ch.encrypted else false
      senders := if decoded.sender ≠ "" then insert decoded.sender ch.senders else ch.senders }

namespace Store

def selected (lib : Library) (q : ChannelQuery) (s : Store) (r : TxRef) : Bool :=
  q.window.includes lib (s.row r).firstSeen &&
  (match q.regionObs with
    | some regionObs => (s.heap r).observations.any fun obs => regionObs obs.observerID
    | none => true) &&
  match q.areaNodes with
    | some areaNodes =>
        let d := (s.row r).parsedDecoded.getD []
        let pk := (stringField d "public_key").getD ""
        let pk := if pk = "" then (stringField d "pubKey").getD "" else pk
        pk != "" && areaNodes pk
    | none => true

def countMessage (lib : Library) (q : ChannelQuery) (s : Store) (channelMap : GoMap String ChanInfo)
    (r : TxRef) : GoMap String ChanInfo :=
  if s.selected lib q r then
    match unmarshalGrp (s.row r).decodedJSON with
    | some decoded => addMessage lib channelMap (s.row r).firstSeen decoded
    | none => channelMap
  else channelMap

/-- The channels over `byPayloadType[5]`, before they are listed for the response. -/
def channelMap (lib : Library) (q : ChannelQuery) (s : Store) : GoMap String ChanInfo :=
  (bucket s.byPayloadType payloadGRP_TXT).foldl (s.countMessage lib q) Maps.empty

def channelOf (lib : Library) (q : ChannelQuery) (s : Store) (r : TxRef) : Option String :=
  if s.selected lib q r then (unmarshalGrp (s.row r).decodedJSON).map (·.chKey lib) else none

variable {lib : Library} {q : ChannelQuery} {s : Store}

theorem addMessage_other (channelMap : GoMap String ChanInfo) (firstSeen : String) (decoded : DecodedGrp)
    {k : String} (hk : decoded.chKey lib ≠ k) : addMessage lib channelMap firstSeen decoded k = channelMap k := by
  rw [addMessage]
  rw [set_apply, if_neg (Ne.symm hk)]

theorem addMessage_self (channelMap : GoMap String ChanInfo) (firstSeen : String) (decoded : DecodedGrp)
    {ch : ChanInfo} (h : addMessage lib channelMap firstSeen decoded (decoded.chKey lib) = some ch) :
    ch.lastActivity = firstSeen := by
  unfold addMessage at h
  rw [set_apply, if_pos rfl] at h
  injection h with h
  rw [← h]

theorem countMessage_other (channelMap : GoMap String ChanInfo) {r : TxRef} {k : String}
    (hr : s.channelOf lib q r ≠ some k) : s.countMessage lib q channelMap r k = channelMap k := by
  unfold channelOf at hr
  rw [countMessage]
  split
  · next hsel =>
      rw [if_pos hsel] at hr
      cases hd : unmarshalGrp (s.row r).decodedJSON with
      | none => rfl
      | some decoded =>
          rw [hd] at hr
          exact addMessage_other _ _ _ fun hk => hr (congrArg some hk)
  · rfl

theorem countMessage_self {channelMap : GoMap String ChanInfo} {r : TxRef} {k : String} {ch : ChanInfo}
    (hr : s.channelOf lib q r = some k) (h : s.countMessage lib q channelMap r k = some ch) :
    ch.lastActivity = (s.row r).firstSeen := by
  unfold channelOf at hr
  unfold countMessage at h
  split at hr
  · next hsel =>
      rw [if_pos hsel] at h
      cases hd : unmarshalGrp (s.row r).decodedJSON with
      | none =>
          rw [hd] at hr
          cases hr
      | some decoded =>
          rw [hd] at hr h
          cases hr
          exact addMessage_self _ _ _ h
  · cases hr

theorem lastActivity_newest {rs : List TxRef} (hrs : Ascending (fun r => (s.row r).firstSeen) rs)
    {k : String} {ch : ChanInfo} (h : rs.foldl (s.countMessage lib q) Maps.empty k = some ch) :
    (∃ r ∈ rs, s.channelOf lib q r = some k ∧ ch.lastActivity = (s.row r).firstSeen) ∧
      ∀ r ∈ rs, s.channelOf lib q r = some k → (s.row r).firstSeen ≤ ch.lastActivity := by
  induction rs using List.reverseRecOn with
  | nil => cases h
  | append_singleton rs r ih =>
      obtain ⟨hbefore, hle⟩ := ascending_snoc.mp hrs
      rw [List.foldl_append] at h
      by_cases hr : s.channelOf lib q r = some k
      · have hlast := countMessage_self hr h
        refine ⟨⟨r, by simp, hr, hlast⟩, fun p hp _ => ?_⟩
        rw [hlast]
        rcases List.mem_append.mp hp with hp | hp
        · exact hle p hp
        · rw [List.mem_singleton.mp hp]
      · replace h : rs.foldl (s.countMessage lib q) Maps.empty k = some ch :=
          (countMessage_other _ hr).symm.trans h
        obtain ⟨⟨p, hp, hpk, hlast⟩, hmax⟩ := ih hbefore h
        refine ⟨⟨p, List.mem_append_left _ hp, hpk, hlast⟩, fun p hp hpk => ?_⟩
        rcases List.mem_append.mp hp with hp | hp
        · exact hmax p hp hpk
        · rw [List.mem_singleton.mp hp] at hpk
          exact absurd hpk hr

theorem recentPackets_eq (s : Store) (pubkey : String) :
    (s.recentPackets pubkey).reverse =
      (bucket s.nodes.byNode pubkey).drop ((bucket s.nodes.byNode pubkey).length - 20) := by
  unfold recentPackets
  dsimp only
  rw [List.reverse_take, List.reverse_reverse, List.length_reverse]
  congr 1
  split <;> omega

theorem recentPackets_newest {pubkey : String}
    (h : Ascending (fun r => (s.row r).firstSeen) (bucket s.nodes.byNode pubkey)) :
    (s.recentPackets pubkey).length = min 20 (bucket s.nodes.byNode pubkey).length ∧
      Ascending (fun r => (s.row r).firstSeen) (s.recentPackets pubkey).reverse ∧
      ∃ older, bucket s.nodes.byNode pubkey = older ++ (s.recentPackets pubkey).reverse ∧
        ∀ a ∈ older, ∀ b ∈ s.recentPackets pubkey, (s.row a).firstSeen ≤ (s.row b).firstSeen := by
  have hsplit := (List.take_append_drop ((bucket s.nodes.byNode pubkey).length - 20)
    (bucket s.nodes.byNode pubkey)).symm
  rw [← recentPackets_eq] at hsplit
  have hlen := congrArg List.length (recentPackets_eq s pubkey)
  rw [List.length_reverse, List.length_drop] at hlen
  refine ⟨by omega, ?_, _, hsplit, fun a ha b hb => ?_⟩
  · rw [recentPackets_eq]
    exact h.sublist (List.drop_sublist _ _)
  · rw [hsplit] at h
    exact (ascending_append.mp h).2.2 a ha b (List.mem_reverse.mpr hb)

end Store

end MeshcoreAnalyzer.PacketStore

import MeshcoreAnalyzer.BrowserChannel
import MeshcoreAnalyzer.Layers
import MeshcoreAnalyzer.Runs

namespace MeshcoreAnalyzer.LiveDecrypt

open GoBytes Maps Layers BrowserChannel MeshcoreAnalyzer.Frame

/-! The stored channel keys and the decryption of live packets, public/channel-decrypt.js. -/

abbrev Name := List Nat

/-- The object of the stored keys, its properties in the order in which they were made. -/
structure Keys where
  props : List (Name × Bytes)
  nodup : (props.map Prod.fst).Nodup

def arrayIndex (name : Name) : Option Nat :=
  let n := name.foldl (fun n c => 10 * n + (c - 48)) 0
  if (Nat.toDigits 10 n).map Char.toNat = name ∧ n < 2 ^ 32 - 1 then some n else none

/-- `Object.keys`: the indices come first, by number. -/
def objectKeys (keys : Keys) : List Name :=
  let names := keys.props.map Prod.fst
  (names.filter fun name => (arrayIndex name).isSome).insertionSort
      (fun a b => (arrayIndex a).getD 0 ≤ (arrayIndex b).getD 0) ++
    names.filter fun name => !(arrayIndex name).isSome

def keysSignature (keys : Keys) : List Nat :=
  ((objectKeys keys).insertionSort fun a b => a ≤ b).flatMap fun name =>
    name ++ 0x3D :: (((read keys.props name).getD []).map UInt8.toNat ++ [0x3B])

/-- `keys[channelName] = keyHex` -/
def Keys.set (keys : Keys) (channelName : Name) (keyHex : Bytes) : Keys where
  props :=
    if channelName ∈ keys.props.map Prod.fst then
      keys.props.map fun e => (e.1, if e.1 = channelName then keyHex else e.2)
    else keys.props ++ [(channelName, keyHex)]
  nodup := by
    split
    · rw [List.map_map]
      exact keys.nodup
    next hnew =>
      rw [List.map_append]
      exact keys.nodup.append (List.nodup_singleton channelName) (List.disjoint_singleton.mpr hnew)

/-- `delete keys[channelName]` -/
def Keys.delete (keys : Keys) (channelName : Name) : Keys where
  props := keys.props.filter fun e => e.1 ≠ channelName
  nodup := keys.nodup.sublist (List.filter_sublist.map Prod.fst)

structure Entry where
  channelName : Name
  keyBytes : Bytes
  keyHex : Bytes
  deriving DecidableEq

def computeChannelHash (sha256 : Bytes → Bytes) (key : Bytes) : Int := ((sha256 key).headD 0).toNat

def addKey (sha256 : Bytes → Bytes) (keys : Keys) (map : GoMap Int Entry) (channelName : Name) : GoMap Int Entry :=
  match read keys.props channelName with
  | none => map
  | some keyHex =>
      if keyHex = [] then map
      else
        let keyBytes := hexToBytes keyHex
        if keyBytes.length ≠ 16 then map
        else
          let hashByte := computeChannelHash sha256 keyBytes
          -- the first of two keys with one hash byte stays
          if (map hashByte).isNone then Maps.set map hashByte { channelName, keyBytes, keyHex } else map

def keyMapOf (sha256 : Bytes → Bytes) (keys : Keys) : GoMap Int Entry :=
  (objectKeys keys).foldl (addKey sha256 keys) empty

structure Page where
  keys : Keys
  keyMapCache : Option (GoMap Int Entry)
  keyMapSig : List Nat

def buildKeyMap (sha256 : Bytes → Bytes) (s : Page) : GoMap Int Entry × Page :=
  let fresh := (keyMapOf sha256 s.keys,
    { s with keyMapCache := some (keyMapOf sha256 s.keys), keyMapSig := keysSignature s.keys })
  match s.keyMapCache with
  | none => fresh
  | some map => if s.keyMapSig = keysSignature s.keys then (map, s) else fresh

/-- What happens to the keys; the storage may be full, and then they stay as they are. -/
inductive Event
  | saveKey (channelName : Name) (keyHex : Bytes) (full : Bool)
  | removeKey (channelName : Name) (full : Bool)
  | buildKeyMap

def step (sha256 : Bytes → Bytes) (s : Page) : Event → Page
  | .saveKey channelName keyHex full =>
      { s with keys := if full then s.keys else s.keys.set channelName keyHex, keyMapCache := none }
  | .removeKey channelName full =>
      { s with keys := if full then s.keys else s.keys.delete channelName, keyMapCache := none }
  | .buildKeyMap => (buildKeyMap sha256 s).2

def opened (keys : Keys) : Page := { keys, keyMapCache := none, keyMapSig := [] }

/-- The field `channelHash`; a number that is no integer is in no map and counts as `other`. -/
inductive HashField
  | number (n : Int)
  | string (s : Bytes)
  | other

structure Payload where
  type : String
  encryptedData : Bytes
  mac : Bytes
  channelHash : HashField

structure Decryption where
  sender : List Nat
  text : List Nat
  channelName : Name
  channelHashByte : Int
  timestamp : Option Int
  deriving DecidableEq

def HashField.toNumber : HashField → Option Int
  | .number n => some n
  | .string s => parseInt16 s
  | .other => none

def unknown : List Nat := [0x55, 0x6E, 0x6B, 0x6E, 0x6F, 0x77, 0x6E]

/-- What a message becomes that was decrypted with the key of an entry. -/
def shown (entry : Entry) (hashByte : Int) (result : Message) : Decryption :=
  { sender := if result.sender = [] then unknown else result.sender
    text := result.message
    channelName := entry.channelName
    channelHashByte := hashByte
    timestamp := if result.timestamp = 0 then none else some result.timestamp }

def tryDecryptLive (crypto : Crypto) (payload : Payload) (keyMap : GoMap Int Entry) : Option Decryption :=
  if payload.type ≠ "GRP_TXT" then none
  else if payload.encryptedData = [] ∨ payload.mac = [] then none
  else match payload.channelHash.toNumber with
    | none => none
    | some hashByte =>
        match keyMap hashByte with
        | none => none
        | some entry => (decrypt crypto entry.keyBytes payload.mac payload.encryptedData).map (shown entry hashByte)

/-- The entry is a stored key of sixteen bytes that has the hash byte. -/
def Stored (sha256 : Bytes → Bytes) (keys : Keys) (hashByte : Int) (entry : Entry) : Prop :=
  (entry.channelName, entry.keyHex) ∈ keys.props ∧ entry.keyBytes = hexToBytes entry.keyHex ∧
    entry.keyBytes.length = 16 ∧ computeChannelHash sha256 entry.keyBytes = hashByte

/-- The packet can be decrypted with the key of the entry. -/
def Decrypts (crypto : Crypto) (payload : Payload) (entry : Entry) : Prop :=
  (decrypt crypto entry.keyBytes payload.mac payload.encryptedData).isSome

/-- The packet is decrypted with one of the stored keys that have its hash byte where one of them does it, and with
none otherwise. -/
structure UsesEvery (crypto : Crypto) (sha256 : Bytes → Bytes) (keys : Keys) (payload : Payload)
    (result : Option Decryption) : Prop where
  complete : ∀ hashByte, payload.channelHash.toNumber = some hashByte →
    (∃ entry, Stored sha256 keys hashByte entry ∧ Decrypts crypto payload entry) →
    ∃ entry message, Stored sha256 keys hashByte entry ∧
      decrypt crypto entry.keyBytes payload.mac payload.encryptedData = some message ∧
      result = some (shown entry hashByte message)
  sound : (¬ ∃ hashByte entry, payload.channelHash.toNumber = some hashByte ∧ Stored sha256 keys hashByte entry ∧
    Decrypts crypto payload entry) → result = none

def entryOf (keys : Keys) (channelName : Name) : Option Entry :=
  (read keys.props channelName).bind fun keyHex =>
    if keyHex ≠ [] ∧ (hexToBytes keyHex).length = 16 then
      some { channelName, keyBytes := hexToBytes keyHex, keyHex }
    else none

def candidates (sha256 : Bytes → Bytes) (keys : Keys) (hashByte : Int) : List Entry :=
  ((objectKeys keys).filterMap (entryOf keys)).filter fun e => computeChannelHash sha256 e.keyBytes = hashByte

theorem mem_objectKeys {keys : Keys} {name : Name} : name ∈ objectKeys keys ↔ name ∈ keys.props.map Prod.fst := by
  rw [objectKeys, List.mem_append, (List.perm_insertionSort _ _).mem_iff, List.mem_filter, List.mem_filter,
    ← and_or_left]
  refine and_iff_left ?_
  cases (arrayIndex name).isSome <;> simp

theorem entryOf_eq_some {keys : Keys} {name : Name} {e : Entry} : entryOf keys name = some e ↔
    (name, e.keyHex) ∈ keys.props ∧ e.channelName = name ∧ e.keyBytes = hexToBytes e.keyHex ∧
      e.keyBytes.length = 16 := by
  rw [entryOf, Option.bind_eq_some_iff]
  constructor
  · rintro ⟨keyHex, hread, hsome⟩
    obtain ⟨hvalid, hentry⟩ := Option.ite_none_right_eq_some.mp hsome
    obtain rfl := Option.some.inj hentry
    exact ⟨(read_eq_some keys.nodup).mp hread, rfl, rfl, hvalid.2⟩
  · rintro ⟨hmem, rfl, hbytes, hlen⟩
    rw [hbytes] at hlen
    have hne : e.keyHex ≠ [] := by
      intro hnil
      rw [hnil] at hlen
      cases hlen
    refine ⟨e.keyHex, (read_eq_some keys.nodup).mpr hmem, ?_⟩
    rw [if_pos ⟨hne, hlen⟩, ← hbytes]

theorem mem_candidates {sha256 : Bytes → Bytes} {keys : Keys} {hashByte : Int} {e : Entry} :
    e ∈ candidates sha256 keys hashByte ↔ Stored sha256 keys hashByte e := by
  rw [candidates, List.mem_filter, List.mem_filterMap, decide_eq_true_eq, Stored]
  constructor
  · rintro ⟨⟨name, -, hentry⟩, hhash⟩
    obtain ⟨hmem, rfl, hbytes, hlen⟩ := entryOf_eq_some.mp hentry
    exact ⟨hmem, hbytes, hlen, hhash⟩
  · rintro ⟨hmem, hbytes, hlen, hhash⟩
    have hname := mem_objectKeys.mpr (List.mem_map.mpr ⟨_, hmem, rfl⟩)
    exact ⟨⟨e.channelName, hname, entryOf_eq_some.mpr ⟨hmem, rfl, hbytes, hlen⟩⟩, hhash⟩

variable {sha256 : Bytes → Bytes} {keys : Keys}

theorem addKey_eq (map : GoMap Int Entry) (name : Name) : addKey sha256 keys map name =
    match entryOf keys name with
    | none => map
    | some e =>
        if (map (computeChannelHash sha256 e.keyBytes)).isNone then
          Maps.set map (computeChannelHash sha256 e.keyBytes) e
        else map := by
  rw [addKey, entryOf]
  cases read keys.props name with
  | none => rfl
  | some keyHex =>
      rw [Option.bind_some]
      dsimp only
      by_cases hempty : keyHex = []
      · rw [if_pos hempty, if_neg fun h => h.1 hempty]
      · by_cases hlen : (hexToBytes keyHex).length = 16
        · have hvalid : keyHex ≠ [] ∧ (hexToBytes keyHex).length = 16 := ⟨hempty, hlen⟩
          rw [if_neg hempty, if_neg (not_not.mpr hlen), if_pos hvalid]
        · have hvalid : ¬ (keyHex ≠ [] ∧ (hexToBytes keyHex).length = 16) := fun h => hlen h.2
          rw [if_neg hempty, if_pos hlen, if_neg hvalid]

theorem addKey_apply (map : GoMap Int Entry) (name : Name) (b : Int) : addKey sha256 keys map name b =
    (map b).or ((entryOf keys name).filter fun e => computeChannelHash sha256 e.keyBytes = b) := by
  rw [addKey_eq]
  cases entryOf keys name with
  | none => simp
  | some e =>
      dsimp only
      rw [Option.filter_some]
      by_cases hb : computeChannelHash sha256 e.keyBytes = b
      · subst hb
        cases hmap : map (computeChannelHash sha256 e.keyBytes) <;> simp [Maps.set, hmap]
      · cases map (computeChannelHash sha256 e.keyBytes) <;> simp [Maps.set, hb, Ne.symm hb]

theorem foldl_addKey (names : List Name) (map : GoMap Int Entry) (b : Int) :
    names.foldl (addKey sha256 keys) map b = (map b).or
      ((names.filterMap (entryOf keys)).find? fun e => computeChannelHash sha256 e.keyBytes = b) := by
  induction names generalizing map with
  | nil => simp
  | cons name names ih =>
      rw [List.foldl_cons, ih, addKey_apply, Option.or_assoc, List.filterMap_cons]
      cases entryOf keys name with
      | none => simp
      | some e =>
          rw [Option.filter_some, List.find?_cons]
          by_cases hb : computeChannelHash sha256 e.keyBytes = b <;> simp [hb]

theorem keyMapOf_apply (b : Int) : keyMapOf sha256 keys b = (candidates sha256 keys b).head? := by
  rw [keyMapOf, foldl_addKey, candidates, List.head?_filter]
  rfl

/-- The map that is kept is that of the stored keys. -/
def Fresh (sha256 : Bytes → Bytes) (s : Page) : Prop := ∀ map, s.keyMapCache = some map → map = keyMapOf sha256 s.keys

theorem buildKeyMap_spec {s : Page} (h : Fresh sha256 s) :
    (buildKeyMap sha256 s).1 = keyMapOf sha256 s.keys ∧ Fresh sha256 (buildKeyMap sha256 s).2 := by
  have hfresh : Fresh sha256
      { s with keyMapCache := some (keyMapOf sha256 s.keys), keyMapSig := keysSignature s.keys } := by
    intro map hmap
    exact (Option.some.inj hmap).symm
  rw [buildKeyMap]
  cases hcache : s.keyMapCache with
  | none => exact ⟨rfl, hfresh⟩
  | some map =>
      dsimp only
      split
      · exact ⟨h map hcache, h⟩
      · exact ⟨rfl, hfresh⟩

theorem fresh_step {s : Page} (h : Fresh sha256 s) (e : Event) : Fresh sha256 (step sha256 s e) := by
  cases e with
  | saveKey | removeKey =>
      intro map hmap
      cases hmap
  | buildKeyMap => exact (buildKeyMap_spec h).2

theorem fresh_run (keys : Keys) (events : List Event) : Fresh sha256 (events.foldl (step sha256) (opened keys)) := by
  refine Runs.foldl_invariant (fun map hmap => ?_) fun s e _ hs => fresh_step hs e
  cases hmap

variable {crypto : Crypto} {payload : Payload}

theorem decrypt_nil_mac (key encryptedHex : Bytes) : decrypt crypto key [] encryptedHex = none := by
  have hsig := crypto.hmac_length (key ++ List.replicate (32 - key.length) 0) (hexToBytes encryptedHex)
  have hmac : verifyMAC crypto key (hexToBytes encryptedHex) [] = false := by
    rw [verifyMAC, show hexToBytes [] = [] from rfl, List.getElem?_eq_getElem (by omega)]
    simp
  rw [decrypt, hmac]
  simp

theorem decrypt_nil_data (key macHex : Bytes) : decrypt crypto key macHex [] = none := rfl

theorem tryDecryptLive_eq (htype : payload.type = "GRP_TXT") : tryDecryptLive crypto payload (keyMapOf sha256 keys) =
    payload.channelHash.toNumber.bind fun b => (candidates sha256 keys b).head?.bind fun e =>
      (decrypt crypto e.keyBytes payload.mac payload.encryptedData).map (shown e b) := by
  rw [tryDecryptLive, if_neg (not_not.mpr htype)]
  cases hnumber : payload.channelHash.toNumber with
  | none => exact ite_self none
  | some b =>
      rw [Option.bind_some]
      dsimp only
      rw [keyMapOf_apply]
      cases (candidates sha256 keys b).head? with
      | none => exact ite_self none
      | some e =>
          rw [Option.bind_some]
          dsimp only
          refine ite_eq_right_iff.mpr ?_
          rintro (hempty | hempty)
          · rw [hempty, decrypt_nil_data]
            rfl
          · rw [hempty, decrypt_nil_mac]
            rfl

theorem usesEvery_iff (htype : payload.type = "GRP_TXT") :
    UsesEvery crypto sha256 keys payload (tryDecryptLive crypto payload (keyMapOf sha256 keys)) ↔
      ∀ hashByte, payload.channelHash.toNumber = some hashByte →
        ∀ entry, Stored sha256 keys hashByte entry → Decrypts crypto payload entry →
          ∃ first, (candidates sha256 keys hashByte).head? = some first ∧ Decrypts crypto payload first := by
  rw [tryDecryptLive_eq htype]
  constructor
  · intro h b hb entry hstored hdecrypts
    obtain ⟨e, message, -, -, hresult⟩ := h.complete b hb ⟨entry, hstored, hdecrypts⟩
    rw [hb, Option.bind_some] at hresult
    obtain ⟨first, hfirst, hmap⟩ := Option.bind_eq_some_iff.mp hresult
    refine ⟨first, hfirst, ?_⟩
    obtain ⟨m, hm, -⟩ := Option.map_eq_some_iff.mp hmap
    exact Option.isSome_of_eq_some hm
  · intro h
    refine ⟨fun b hb => ?_, fun hnone => ?_⟩
    · rintro ⟨entry, hstored, hdecrypts⟩
      obtain ⟨first, hfirst, hdec⟩ := h b hb entry hstored hdecrypts
      obtain ⟨message, hmessage⟩ := Option.isSome_iff_exists.mp hdec
      refine ⟨first, message, mem_candidates.mp (List.mem_of_mem_head? hfirst), hmessage, ?_⟩
      rw [hb, Option.bind_some, hfirst, Option.bind_some, hmessage, Option.map_some]
    · refine Option.bind_eq_none_iff.mpr fun b hb => Option.bind_eq_none_iff.mpr fun first hfirst => ?_
      refine Option.map_eq_none_iff.mpr (Option.not_isSome_iff_eq_none.mp fun hdec => ?_)
      exact hnone ⟨b, first, hb, mem_candidates.mp (List.mem_of_mem_head? hfirst), hdec⟩

/-- Whatever was done to the keys of the page, of the stored keys that have the hash byte of the packet the first is
tried and no other. This is a search in every key if and only if the first decrypts the packet where any does, and
so it is where no two keys have the byte. -/
theorem tryDecryptLive_first (sha256 : Bytes → Bytes) (crypto : Crypto) (keys : Keys) (events : List Event)
    (payload : Payload) (htype : payload.type = "GRP_TXT") :
    let s := events.foldl (step sha256) (opened keys)
    let result := tryDecryptLive crypto payload (buildKeyMap sha256 s).1
    (result = payload.channelHash.toNumber.bind fun b => (candidates sha256 s.keys b).head?.bind fun first =>
      (decrypt crypto first.keyBytes payload.mac payload.encryptedData).map (shown first b)) ∧
    (UsesEvery crypto sha256 s.keys payload result ↔
      ∀ hashByte, payload.channelHash.toNumber = some hashByte →
        ∀ entry, Stored sha256 s.keys hashByte entry → Decrypts crypto payload entry →
          ∃ first, (candidates sha256 s.keys hashByte).head? = some first ∧ Decrypts crypto payload first) ∧
    ((∀ hashByte, payload.channelHash.toNumber = some hashByte → ∀ entry entry',
        Stored sha256 s.keys hashByte entry → Stored sha256 s.keys hashByte entry' → entry = entry') →
      UsesEvery crypto sha256 s.keys payload result) := by
  intro s result
  have hresult : result = tryDecryptLive crypto payload (keyMapOf sha256 s.keys) :=
    congrArg (tryDecryptLive crypto payload) (buildKeyMap_spec (fresh_run keys events)).1
  rw [hresult]
  refine ⟨tryDecryptLive_eq htype, usesEvery_iff htype, fun hone => ?_⟩
  refine (usesEvery_iff htype).mpr fun b hb entry hstored hdecrypts => ?_
  obtain ⟨first, hfirst⟩ : ∃ first, (candidates sha256 s.keys b).head? = some first := by
    refine Option.isSome_iff_exists.mp (List.isSome_head?.mpr ?_)
    exact List.ne_nil_of_mem (mem_candidates.mpr hstored)
  have hsame := hone b hb entry first hstored (mem_candidates.mp (List.mem_of_mem_head? hfirst))
  exact ⟨first, hfirst, hsame ▸ hdecrypts⟩

theorem length_noBlock (_ _ : Bytes) : (List.replicate 16 0 : Bytes).length = 16 := List.length_replicate

/-- The MAC of the key of ones is zero, that of every other key is not. -/
def onesCrypto : Crypto where
  verify _ _ _ := true
  hmacSHA256 secret _ := List.replicate 32 (if secret.head? = some 0x11 then 0 else 1)
  hmac_length _ _ := List.length_replicate
  decryptBlock _ _ := List.replicate 16 0
  decryptBlock_length := length_noBlock

def sameHash (_ : Bytes) : Bytes := List.replicate 32 7

def zerosKey : Name × Bytes := ([0x61], List.replicate 32 0x30)

def onesKey : Name × Bytes := ([0x62], List.replicate 32 0x31)

def livePacket : Payload where
  type := "GRP_TXT"
  encryptedData := List.replicate 32 0x30
  mac := List.replicate 4 0x30
  channelHash := .string [0x37]

def bothKeys : Keys := ⟨[zerosKey, onesKey], by decide⟩

def onesPacket : Payload where
  type := "GRP_TXT"
  encryptedData := List.replicate 32 0x30
  mac := List.replicate 4 0x30
  channelHash := .string [0x31, 0x31]

/-- Each key has a hash byte of its own. -/
theorem tryDecryptLive_first_ones : UsesEvery onesCrypto id bothKeys onesPacket
    (tryDecryptLive onesCrypto onesPacket (buildKeyMap id (opened bothKeys)).1) := by
  refine (tryDecryptLive_first id onesCrypto bothKeys [] onesPacket rfl).2.2 ?_
  have hzeros : computeChannelHash id (hexToBytes (List.replicate 32 0x30)) ≠ 17 := by decide
  have hones : hexToBytes (List.replicate 32 0x31) = List.replicate 16 0x11 := by decide
  have hone : ∀ entry, Stored id bothKeys 17 entry →
      entry = ⟨[0x62], List.replicate 16 0x11, List.replicate 32 0x31⟩ := by
    rintro ⟨name, bytes, hex⟩ ⟨hmem, hbytes, -, hhash⟩
    rcases List.mem_cons.mp hmem with heq | hmem
    · obtain ⟨rfl, rfl⟩ := Prod.mk.inj heq
      rw [hbytes] at hhash
      exact absurd hhash hzeros
    · obtain ⟨rfl, rfl⟩ := Prod.mk.inj (List.mem_singleton.mp hmem)
      exact (Entry.mk.injEq ..).mpr ⟨rfl, hbytes.trans hones, rfl⟩
  intro b hb entry entry' h h'
  have hbyte : onesPacket.channelHash.toNumber = some 17 := by decide
  obtain rfl : 17 = b := Option.some.inj (hbyte.symm.trans hb)
  rw [hone entry h, hone entry' h']

/-- The second of two keys is not tried. -/
theorem not_usesEvery_second : ¬ ∀ sha256 crypto keys payload, payload.type = "GRP_TXT" →
    UsesEvery crypto sha256 keys payload
      (tryDecryptLive crypto payload (buildKeyMap sha256 (opened keys)).1) := by
  intro h
  have hall := (usesEvery_iff rfl).mp (h sameHash onesCrypto ⟨[zerosKey, onesKey], by decide⟩ livePacket rfl)
  obtain ⟨first, hfirst, hdecrypts⟩ := hall 7 (by decide) ⟨[0x62], List.replicate 16 0x11, List.replicate 32 0x31⟩
    ⟨by decide, by decide, by decide, by decide⟩ rfl
  obtain rfl : ⟨[0x61], List.replicate 16 0, List.replicate 32 0x30⟩ = first := Option.some.inj hfirst
  exact Bool.false_ne_true hdecrypts

end MeshcoreAnalyzer.LiveDecrypt

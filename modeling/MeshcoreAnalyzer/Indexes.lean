import MeshcoreAnalyzer.Maps
import MeshcoreAnalyzer.Runs
import MeshcoreAnalyzer.Transmissions

namespace MeshcoreAnalyzer.PacketStore

open Maps

/-- Transmissions are referred to by pointers; two are the same when these are. -/
abbrev TxRef := Nat

structure NodeIndex where
  byNode : GoMap String (List TxRef)
  nodeHashes : GoMap String (Finset String)

namespace NodeIndex

def empty : NodeIndex := ⟨Maps.empty, Maps.empty⟩

def hashes (ix : NodeIndex) (pubkey : String) : Finset String := (ix.nodeHashes pubkey).getD ∅

def addToByNode (ix : NodeIndex) (hash : String) (r : TxRef) (pubkey : String) : NodeIndex :=
  if hash ∈ ix.hashes pubkey then ix
  else
    { byNode := push ix.byNode pubkey r
      nodeHashes := Maps.set ix.nodeHashes pubkey (insert hash (ix.hashes pubkey)) }

def addAll (ix : NodeIndex) (hash : String) (r : TxRef) (pubkeys : List String) : NodeIndex :=
  pubkeys.foldl (fun ix pk => ix.addToByNode hash r pk) ix

def dropHash (m : GoMap String (Finset String)) (hash pubkey : String) : GoMap String (Finset String) :=
  match m pubkey with
  | none => m
  | some hashes =>
      if hashes.erase hash = ∅ then delete m pubkey else Maps.set m pubkey (hashes.erase hash)

theorem hashes_addToByNode (ix : NodeIndex) (hash : String) (r : TxRef) (pk k : String) :
    (ix.addToByNode hash r pk).hashes k = if k = pk then insert hash (ix.hashes k) else ix.hashes k := by
  rw [addToByNode]
  split
  · next h =>
      by_cases hk : k = pk
      · subst hk
        rw [if_pos rfl, Finset.insert_eq_of_mem h]
      · rw [if_neg hk]
  · unfold hashes
    simp only [set_apply]
    by_cases hk : k = pk <;> simp [hk]

theorem bucket_addToByNode (ix : NodeIndex) (hash : String) (r : TxRef) (pk k : String) :
    bucket (ix.addToByNode hash r pk).byNode k = bucket ix.byNode k ++
      if k = pk ∧ hash ∉ ix.hashes pk then [r] else [] := by
  rw [addToByNode]
  by_cases h : hash ∈ ix.hashes pk
  · simp [h]
  · rw [if_neg h]
    simp only [bucket_push]
    by_cases hk : k = pk <;> simp [hk, h]

theorem bucket_addAll (ix : NodeIndex) (hash : String) (r : TxRef) (pks : List String) (k : String) :
    bucket (ix.addAll hash r pks).byNode k = bucket ix.byNode k ++
      if k ∈ pks ∧ hash ∉ ix.hashes k then [r] else [] := by
  induction pks generalizing ix with
  | nil => simp [addAll]
  | cons pk pks ih =>
      change bucket ((ix.addToByNode hash r pk).addAll hash r pks).byNode k = _
      rw [ih, bucket_addToByNode, hashes_addToByNode]
      by_cases hk : k = pk
      · subst hk
        by_cases hh : hash ∈ ix.hashes k <;> simp [hh]
      · simp [hk]

theorem mem_bucket_addAll {ix : NodeIndex} {hash : String} {r q : TxRef} {pks : List String} {k : String}
    (h : q ∈ bucket (ix.addAll hash r pks).byNode k) : q ∈ bucket ix.byNode k ∨ q = r := by
  rw [bucket_addAll, List.mem_append] at h
  rcases h with h | h
  · exact .inl h
  · split at h
    · exact .inr (List.mem_singleton.mp h)
    · cases h

theorem mem_dropHash {m : GoMap String (Finset String)} {hash h pk k : String} :
    h ∈ (dropHash m hash pk k).getD ∅ ↔ h ∈ (m k).getD ∅ ∧ (k = pk → h ≠ hash) := by
  rw [dropHash]
  by_cases hk : k = pk
  · subst hk
    cases hm : m k with
    | none => simp [hm]
    | some hashes =>
        simp only [Option.getD_some]
        split
        · next he =>
            rw [delete_apply, if_pos rfl]
            have := congrArg (h ∈ ·) he
            simp only [Finset.mem_erase, Finset.notMem_empty, eq_iff_iff, iff_false, not_and] at this
            simp only [Option.getD_none, Finset.notMem_empty, forall_const, false_iff, not_and, not_not]
            intro hh
            by_contra hn
            exact this hn hh
        · rw [set_apply, if_pos rfl]
          simp [Finset.mem_erase, and_comm]
  · cases hm : m pk with
    | none => simp [hk]
    | some hashes =>
        simp only
        split
        · rw [delete_apply, if_neg hk]
          simp [hk]
        · rw [set_apply, if_neg hk]
          simp [hk]

theorem mem_dropHashes {m : GoMap String (Finset String)} {hash h k : String} {pks : List String} :
    h ∈ (pks.foldl (fun m pk => dropHash m hash pk) m k).getD ∅ ↔
      h ∈ (m k).getD ∅ ∧ (k ∈ pks → h ≠ hash) := by
  induction pks generalizing m with
  | nil => simp
  | cons pk pks ih =>
      rw [List.foldl_cons, ih, mem_dropHash, List.mem_cons]
      by_cases hk : k = pk
      · simp only [hk, true_or, forall_const]
        tauto
      · simp [hk]

end NodeIndex

def pushPayloadType (m : GoMap Int (List TxRef)) (tx : TxRow) (r : TxRef) : GoMap Int (List TxRef) :=
  match tx.payloadType with
  | some pt => push m pt r
  | none => m

def trackAdvertPubkey (m : GoMap String Int) (tx : TxRow) : GoMap String Int :=
  match tx.advertPubkey with
  | some pk => incr m pk
  | none => m

def untrackAdvertPubkey (m : GoMap String Int) (tx : TxRow) : GoMap String Int :=
  match tx.advertPubkey with
  | some pk => decr m pk
  | none => m

theorem bucket_pushPayloadType (m : GoMap Int (List TxRef)) (tx : TxRow) (r : TxRef) (pt : Int) :
    bucket (pushPayloadType m tx r) pt =
      bucket m pt ++ if tx.payloadType = some pt then [r] else [] := by
  rw [pushPayloadType]
  cases h : tx.payloadType with
  | none => simp
  | some p =>
      simp only [bucket_push, Option.some.injEq]
      by_cases hp : pt = p
      · simp [hp]
      · simp [hp, Ne.symm hp]

structure SubpathIndex where
  spIndex : GoMap String Int
  spTxIndex : GoMap String (List TxRef)

def subpathKeys (hops : List String) : List String :=
  (List.range' 2 (min 8 hops.length - 1)).flatMap fun l =>
    (List.range (hops.length - l + 1)).map fun start =>
      toLower (",".intercalate ((hops.drop start).take l))

namespace SubpathIndex

def empty : SubpathIndex := ⟨Maps.empty, Maps.empty⟩

def addTxToSubpathIndexFull (ix : SubpathIndex) (hops : List String) (r : TxRef) : SubpathIndex :=
  { spIndex := (subpathKeys hops).foldl incr ix.spIndex
    spTxIndex := pushAll ix.spTxIndex (subpathKeys hops) r }

def removeTxFromSubpathIndexFull (ix : SubpathIndex) (hops : List String) (r : TxRef) : SubpathIndex :=
  { spIndex := (subpathKeys hops).foldl decr ix.spIndex
    spTxIndex := removeAll (· == r) ix.spTxIndex (subpathKeys hops) }

end SubpathIndex

def hasSubpaths (hops : List String) : Bool := 2 ≤ hops.length

@[simp] theorem hasSubpaths_nil : hasSubpaths [] = false := rfl

theorem subpathKeys_of_not_hasSubpaths {hops : List String} (h : hasSubpaths hops = false) :
    subpathKeys hops = [] := by
  have hlen : hops.length < 2 := by simpa [hasSubpaths] using h
  have hzero : min 8 hops.length - 1 = 0 := by omega
  rw [subpathKeys, hzero]
  rfl

def pathHopKeys (hops : List String) : List String := (hops.map toLower).dedup

theorem nodup_pathHopKeys (hops : List String) : (pathHopKeys hops).Nodup := List.nodup_dedup _

def addTxToPathHopIndex (idx : GoMap String (List TxRef)) (hops : List String) (r : TxRef) :
    GoMap String (List TxRef) := pushAll idx (pathHopKeys hops) r

def removeTxFromPathHopIndex (sameID : TxRef → Bool) (idx : GoMap String (List TxRef))
    (hops : List String) : GoMap String (List TxRef) := removeAll sameID idx (pathHopKeys hops)

def resolvedHopKeys (hops pubkeys : List String) : List String :=
  (pubkeys.filter (· ∉ hops.map toLower)).dedup

def addResolvedPubkeysToPathHopIndex (idx : GoMap String (List TxRef)) (hops pubkeys : List String)
    (r : TxRef) : GoMap String (List TxRef) := pushAll idx (resolvedHopKeys hops pubkeys) r

/-- What a rebuild takes over from the index before it: under each key the live
transmissions that the pass over the raw hops has not put there, each once. -/
def retained (live : TxRef → Bool) (idx prev : GoMap String (List TxRef)) (key : String) : List TxRef :=
  ((bucket prev key).filter fun r => live r && r ∉ bucket idx key).eraseDups

def retainResolvedPathHops (live : TxRef → Bool) (idx prev : GoMap String (List TxRef)) :
    GoMap String (List TxRef) := fun key =>
  if retained live idx prev key = [] then idx key
  else some (bucket idx key ++ retained live idx prev key)

theorem bucket_retainResolvedPathHops (live : TxRef → Bool) (idx prev : GoMap String (List TxRef))
    (key : String) : bucket (retainResolvedPathHops live idx prev) key =
      bucket idx key ++ retained live idx prev key := by
  change Option.getD (retainResolvedPathHops live idx prev key) [] = _
  rw [retainResolvedPathHops]
  split
  · next h =>
      rw [h, List.append_nil]
      rfl
  · rfl

structure ResolvedIndex where
  useResolvedPathIndex : Bool
  index : GoMap UInt64 (List Int)
  reverse : GoMap Int (List UInt64)

def resolvedPubkeyHash (pk : String) : UInt64 :=
  (toLower pk).toUTF8.toList.foldl (fun h b => (h ^^^ b.toUInt64) * 1099511628211) 14695981039346656037

namespace ResolvedIndex

def empty (useResolvedPathIndex : Bool) : ResolvedIndex := ⟨useResolvedPathIndex, Maps.empty, Maps.empty⟩

def addHash (txID : Int) (ix : ResolvedIndex) (h : UInt64) : ResolvedIndex :=
  if txID ∈ bucket ix.index h then ix
  else { ix with index := push ix.index h txID, reverse := push ix.reverse txID h }

def addPubkeys (txID : Int) : List UInt64 → ResolvedIndex → List String → ResolvedIndex
  | _, ix, [] => ix
  | seen, ix, pk :: pks =>
      if pk = "" then addPubkeys txID seen ix pks
      else
        let h := resolvedPubkeyHash pk
        if h ∈ seen then addPubkeys txID seen ix pks else addPubkeys txID (h :: seen) (addHash txID ix h) pks

def addToResolvedPubkeyIndex (ix : ResolvedIndex) (txID : Int) (pubkeys : List String) : ResolvedIndex :=
  if ix.useResolvedPathIndex then addPubkeys txID [] ix pubkeys else ix

def dropTx (txID : Int) (index : GoMap UInt64 (List Int)) (h : UInt64) : GoMap UInt64 (List Int) :=
  store index h ((bucket index h).filter (· ≠ txID))

def removeFromResolvedPubkeyIndex (ix : ResolvedIndex) (txID : Int) : ResolvedIndex :=
  if ix.useResolvedPathIndex then
    { ix with
      index := (bucket ix.reverse txID).foldl (dropTx txID) ix.index
      reverse := delete ix.reverse txID }
  else ix

/-- `CompactResolvedPubkeyIndex`, less the clipping of backing arrays. -/
def compact (ix : ResolvedIndex) : ResolvedIndex :=
  if ix.useResolvedPathIndex then
    { ix with
      index := fun h => if bucket ix.index h = [] then none else ix.index h
      reverse := fun id => if bucket ix.reverse id = [] then none else ix.reverse id }
  else ix

/-- The reverse map knows of every entry, and an index that is off has none. -/
structure Mirrored (ix : ResolvedIndex) : Prop where
  reverse : ∀ h id, id ∈ bucket ix.index h → h ∈ bucket ix.reverse id
  off : ix.useResolvedPathIndex = false →
    (∀ h, bucket ix.index h = []) ∧ ∀ id, bucket ix.reverse id = []

theorem Mirrored.empty (use : Bool) : Mirrored (empty use) :=
  ⟨fun _ _ h => (by cases h), fun _ => ⟨fun _ => rfl, fun _ => rfl⟩⟩

theorem addHash_use (txID : Int) (ix : ResolvedIndex) (h : UInt64) :
    (addHash txID ix h).useResolvedPathIndex = ix.useResolvedPathIndex := by
  rw [addHash]
  split <;> rfl

theorem mem_bucket_addHash {txID id : Int} {ix : ResolvedIndex} {h k : UInt64} :
    id ∈ bucket (addHash txID ix h).index k ↔ id ∈ bucket ix.index k ∨ k = h ∧ id = txID := by
  rw [addHash]
  split
  · next hmem =>
      refine ⟨.inl, fun hid => hid.elim (fun hold => hold) ?_⟩
      rintro ⟨rfl, rfl⟩
      exact hmem
  · exact mem_bucket_push

theorem addPubkeys_eq {txID : Int} {seen : List UInt64} {ix : ResolvedIndex}
    (hseen : ∀ h ∈ seen, txID ∈ bucket ix.index h) (pubkeys : List String) :
    addPubkeys txID seen ix pubkeys = ((pubkeys.filter (· ≠ "")).map resolvedPubkeyHash).foldl (addHash txID) ix := by
  induction pubkeys generalizing seen ix with
  | nil => rfl
  | cons pk pks ih =>
      rw [addPubkeys]
      by_cases hempty : pk = ""
      · rw [if_pos hempty, ih hseen, List.filter_cons_of_neg (by simpa using hempty)]
      · rw [if_neg hempty, List.filter_cons_of_pos (by simpa using hempty), List.map_cons, List.foldl_cons]
        by_cases hmem : resolvedPubkeyHash pk ∈ seen
        · rw [if_pos hmem, ih hseen, addHash, if_pos (hseen _ hmem)]
        · rw [if_neg hmem]
          apply ih
          intro h hh
          rcases List.mem_cons.mp hh with rfl | hh
          · exact mem_bucket_addHash.mpr (.inr ⟨rfl, rfl⟩)
          · exact mem_bucket_addHash.mpr (.inl (hseen h hh))

theorem addToResolvedPubkeyIndex_eq (ix : ResolvedIndex) (txID : Int) (pubkeys : List String) :
    ix.addToResolvedPubkeyIndex txID pubkeys = if ix.useResolvedPathIndex then
      ((pubkeys.filter (· ≠ "")).map resolvedPubkeyHash).foldl (addHash txID) ix else ix := by
  rw [addToResolvedPubkeyIndex, addPubkeys_eq fun _ h => absurd h List.not_mem_nil]

theorem Mirrored.addHash {ix : ResolvedIndex} (hm : Mirrored ix)
    (hon : ix.useResolvedPathIndex = true) (txID : Int) (h : UInt64) :
    Mirrored (addHash txID ix h) := by
  rw [ResolvedIndex.addHash]
  split
  · exact hm
  · refine ⟨?_, fun hoff => absurd (hon.symm.trans hoff) (by decide)⟩
    intro k id hid
    rw [mem_bucket_push] at hid ⊢
    rcases hid with hid | ⟨rfl, rfl⟩
    · exact .inl (hm.reverse k id hid)
    · exact .inr ⟨rfl, rfl⟩

theorem Mirrored.foldl_addHash {ix : ResolvedIndex} (hm : Mirrored ix)
    (hon : ix.useResolvedPathIndex = true) (txID : Int) (hs : List UInt64) :
    Mirrored (hs.foldl (ResolvedIndex.addHash txID) ix) := by
  induction hs generalizing ix with
  | nil => exact hm
  | cons h hs ih =>
      apply ih (hm.addHash hon txID h)
      rw [addHash_use, hon]

theorem Mirrored.addToResolvedPubkeyIndex {ix : ResolvedIndex} (hm : Mirrored ix) (txID : Int)
    (pks : List String) : Mirrored (ix.addToResolvedPubkeyIndex txID pks) := by
  rw [addToResolvedPubkeyIndex_eq]
  split
  · next hon => exact hm.foldl_addHash hon txID _
  · exact hm

theorem mem_bucket_foldl_dropTx {txID id : Int} {hs : List UInt64} {index : GoMap UInt64 (List Int)}
    {h : UInt64} : id ∈ bucket (hs.foldl (dropTx txID) index) h ↔
      id ∈ bucket index h ∧ (h ∈ hs → id ≠ txID) := by
  induction hs generalizing index with
  | nil => simp
  | cons a hs ih =>
      rw [List.foldl_cons, ih, dropTx, bucket_store, List.mem_cons]
      by_cases ha : h = a
      · subst ha
        simp only [if_true, List.mem_filter, ne_eq, decide_eq_true_eq, true_or, forall_const]
        tauto
      · simp [ha]

theorem Mirrored.removeFromResolvedPubkeyIndex {ix : ResolvedIndex} (hm : Mirrored ix) (txID : Int) :
    Mirrored (ix.removeFromResolvedPubkeyIndex txID) := by
  rw [ResolvedIndex.removeFromResolvedPubkeyIndex]
  split
  · next hon =>
      refine ⟨?_, fun hoff => absurd (hon.symm.trans hoff) (by decide)⟩
      intro h id hid
      obtain ⟨hid, hne⟩ := mem_bucket_foldl_dropTx.mp hid
      have hrev := hm.reverse h id hid
      have hother : id ≠ txID := by
        rintro rfl
        exact hne hrev rfl
      change h ∈ Option.getD (delete ix.reverse txID id) []
      rw [delete_apply, if_neg hother]
      exact hrev
  · exact hm

def Absent (ix : ResolvedIndex) (txID : Int) : Prop :=
  (∀ h, txID ∉ bucket ix.index h) ∧ bucket ix.reverse txID = []

theorem Mirrored.removed {ix : ResolvedIndex} (hm : Mirrored ix) (txID : Int) :
    (ix.removeFromResolvedPubkeyIndex txID).Absent txID := by
  rw [ResolvedIndex.removeFromResolvedPubkeyIndex]
  split
  · constructor
    · intro h hid
      obtain ⟨hid, hne⟩ := mem_bucket_foldl_dropTx.mp hid
      exact hne (hm.reverse h txID hid) rfl
    · change Option.getD (delete ix.reverse txID txID) [] = []
      rw [delete_apply, if_pos rfl]
      rfl
  · next hoff =>
      have hoff : ix.useResolvedPathIndex = false := by simpa using hoff
      refine ⟨fun h hid => ?_, (hm.off hoff).2 txID⟩
      rw [(hm.off hoff).1 h] at hid
      cases hid

theorem Absent.removeFromResolvedPubkeyIndex {ix : ResolvedIndex} {txID : Int} (h : ix.Absent txID)
    (other : Int) : (ix.removeFromResolvedPubkeyIndex other).Absent txID := by
  rw [ResolvedIndex.removeFromResolvedPubkeyIndex]
  split
  · refine ⟨fun k hid => h.1 k (mem_bucket_foldl_dropTx.mp hid).1, ?_⟩
    change Option.getD (delete ix.reverse other txID) [] = []
    rw [delete_apply]
    split
    · rfl
    · exact h.2
  · exact h

theorem Mirrored.foldl_removed {ids : List Int} {ix : ResolvedIndex} (hm : Mirrored ix) {txID : Int}
    (h : txID ∈ ids) : (ids.foldl ResolvedIndex.removeFromResolvedPubkeyIndex ix).Absent txID := by
  induction ids generalizing ix with
  | nil => cases h
  | cons id ids ih =>
      rcases List.mem_cons.mp h with rfl | h
      · rw [List.foldl_cons]
        exact Runs.foldl_invariant (I := fun ix : ResolvedIndex => ix.Absent txID) (hm.removed txID)
          fun ix other _ hix => hix.removeFromResolvedPubkeyIndex other
      · exact ih (hm.removeFromResolvedPubkeyIndex id) h

theorem bucket_index_compact (ix : ResolvedIndex) (h : UInt64) :
    bucket ix.compact.index h = bucket ix.index h := by
  rw [compact]
  split
  · change Option.getD (if bucket ix.index h = [] then none else ix.index h) [] = _
    split
    · next he => rw [he]; rfl
    · rfl
  · rfl

theorem bucket_reverse_compact (ix : ResolvedIndex) (id : Int) :
    bucket ix.compact.reverse id = bucket ix.reverse id := by
  rw [compact]
  split
  · change Option.getD (if bucket ix.reverse id = [] then none else ix.reverse id) [] = _
    split
    · next he => rw [he]; rfl
    · rfl
  · rfl

theorem Absent.compact {ix : ResolvedIndex} {txID : Int} (h : ix.Absent txID) : ix.compact.Absent txID := by
  refine ⟨fun k hid => ?_, ?_⟩
  · rw [bucket_index_compact] at hid
    exact h.1 k hid
  · rw [bucket_reverse_compact]
    exact h.2

theorem Mirrored.compact {ix : ResolvedIndex} (hm : Mirrored ix) : Mirrored ix.compact := by
  have huse : ix.compact.useResolvedPathIndex = ix.useResolvedPathIndex := by
    rw [ResolvedIndex.compact]
    split <;> rfl
  refine ⟨fun h id hid => ?_, fun hoff => ⟨fun h => ?_, fun id => ?_⟩⟩
  · rw [bucket_index_compact] at hid
    rw [bucket_reverse_compact]
    exact hm.reverse h id hid
  · rw [bucket_index_compact]
    exact (hm.off (huse ▸ hoff)).1 h
  · rw [bucket_reverse_compact]
    exact (hm.off (huse ▸ hoff)).2 id

end ResolvedIndex

end MeshcoreAnalyzer.PacketStore

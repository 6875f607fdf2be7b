import MeshcoreAnalyzer.NodePaths
import MeshcoreAnalyzer.Readers
import Mathlib.Data.Finset.Card

namespace MeshcoreAnalyzer.PacketStore

open Maps

/-! The membership index of cmd/server/resolved_index.go over any sequence of its operations, and the relay airtime share
of cmd/server/relay_airtime_share.go that counts its entries. -/

namespace Store

def nodeInResolvedPathViaIndex (s : Store) (db : Option PathDB) (r : TxRef) (targetPK : String) : Bool :=
  s.inIndex r || (decide ((s.row r).id ∈ bucket s.resolved.index (resolvedPubkeyHash targetPK)) &&
    db.all fun db => db.confirmResolvedPathContains (s.row r).id targetPK)

def distinctRelayCount (s : Store) (r : TxRef) : Nat :=
  if s.resolved.useResolvedPathIndex then (bucket s.resolved.reverse (s.row r).id).length else 0

end Store

structure AirtimeBucket where
  count : Nat
  score : Int64

structure AirtimeShare where
  buckets : GoMap Int AirtimeBucket
  seenHash : List String
  totalCount : Nat
  totalScore : Int64

section Airtime

-- The time that so many bytes are on the air, in nanoseconds, and the number of repeaters that sent a packet on.
variable (timeOnAir : Nat → Int64) (relays : TxRef → Nat)

def airtimeScore (s : Store) (r : TxRef) : Int64 :=
  timeOnAir ((s.row r).rawHex.utf8ByteSize / 2) * Int64.ofNat (relays r)

def AirtimeShare.add (s : Store) (t : AirtimeShare) (pt : Int) (r : TxRef) : AirtimeShare :=
  let b := (t.buckets pt).getD ⟨0, 0⟩
  { buckets := set t.buckets pt ⟨b.count + 1, b.score + airtimeScore timeOnAir relays s r⟩
    seenHash := if (s.row r).hash = "" then t.seenHash else (s.row r).hash :: t.seenHash
    totalCount := t.totalCount + 1
    totalScore := t.totalScore + airtimeScore timeOnAir relays s r }

def AirtimeShare.visit (lib : Library) (window : TimeWindow) (s : Store) (t : AirtimeShare) (r : TxRef) : AirtimeShare :=
  match (s.row r).payloadType with
  | none => t
  | some pt =>
      if window.includes lib (s.row r).firstSeen = false then t
      else if (s.row r).hash ≠ "" ∧ (s.row r).hash ∈ t.seenHash then t
      else t.add timeOnAir relays s pt r

def airtimeShare (lib : Library) (window : TimeWindow) (s : Store) : AirtimeShare :=
  s.packets.foldl (AirtimeShare.visit timeOnAir relays lib window s) ⟨Maps.empty, [], 0, 0⟩

def computeRelayAirtimeShare (lib : Library) (window : TimeWindow) (s : Store) : AirtimeShare :=
  airtimeShare timeOnAir s.distinctRelayCount lib window s

end Airtime

namespace ResolvedIndex

inductive Operation
  | add (txID : Int) (resolvedPubkeys : List String)
  | remove (txID : Int)
  | compact

def apply (ix : ResolvedIndex) : Operation → ResolvedIndex
  | .add txID resolvedPubkeys => ix.addToResolvedPubkeyIndex txID resolvedPubkeys
  | .remove txID => ix.removeFromResolvedPubkeyIndex txID
  | .compact => ix.compact

def run (ops : List Operation) : ResolvedIndex := ops.foldl apply (empty true)

def recordStep (added : Int → List String) : Operation → Int → List String
  | .add txID resolvedPubkeys => fun id => if id = txID then added id ++ resolvedPubkeys else added id
  | .remove txID => fun id => if id = txID then [] else added id
  | .compact => added

def added (ops : List Operation) : Int → List String := ops.foldl recordStep fun _ => []

def hashesOf (pubkeys : List String) : Finset UInt64 :=
  ((pubkeys.filter (· ≠ "")).map resolvedPubkeyHash).toFinset

theorem hashesOf_append (pks pks' : List String) : hashesOf (pks ++ pks') = hashesOf pks ∪ hashesOf pks' := by
  rw [hashesOf, List.filter_append, List.map_append, List.toFinset_append]
  rfl

theorem mem_hashesOf {pks : List String} {h : UInt64} :
    h ∈ hashesOf pks ↔ ∃ pk ∈ pks, pk ≠ "" ∧ resolvedPubkeyHash pk = h := by
  simp [hashesOf, and_assoc]

/-- The two maps have the same pairs, each once, and the reverse one has under an ID the hashes given for it. -/
structure Exact (ix : ResolvedIndex) (hashes : Int → Finset UInt64) : Prop where
  use : ix.useResolvedPathIndex = true
  mirrored : ∀ h id, id ∈ bucket ix.index h ↔ h ∈ bucket ix.reverse id
  nodupIndex : ∀ h, (bucket ix.index h).Nodup
  nodupReverse : ∀ id, (bucket ix.reverse id).Nodup
  noEmptyIndex : NoEmpty ix.index
  noEmptyReverse : NoEmpty ix.reverse
  hashes : ∀ id h, h ∈ bucket ix.reverse id ↔ h ∈ hashes id

variable {ix : ResolvedIndex} {hashes : Int → Finset UInt64}

theorem exact_empty : Exact (empty true) fun _ => ∅ where
  use := rfl
  mirrored := by
    intro h id
    simp [empty]
  nodupIndex := fun _ => List.nodup_nil
  nodupReverse := fun _ => List.nodup_nil
  noEmptyIndex := noEmpty_empty
  noEmptyReverse := noEmpty_empty
  hashes := by
    intro id h
    simp [empty]

theorem Exact.congr {hashes' : Int → Finset UInt64} (h : Exact ix hashes) (heq : ∀ id, hashes' id = hashes id) :
    Exact ix hashes' := by
  rw [funext heq]
  exact h

theorem Exact.addHash (h : Exact ix hashes) (txID : Int) (a : UInt64) :
    Exact (addHash txID ix a) fun id => if id = txID then insert a (hashes id) else hashes id := by
  rw [ResolvedIndex.addHash]
  split
  · next hmem =>
      apply h.congr
      intro id
      split
      · next hid =>
          rw [hid]
          exact Finset.insert_eq_of_mem ((h.hashes txID a).mp ((h.mirrored a txID).mp hmem))
      · rfl
  · next hmem =>
      refine ⟨h.use, ?_, ?_, ?_, h.noEmptyIndex.push a txID, h.noEmptyReverse.push txID a, ?_⟩
      · intro b id
        rw [mem_bucket_push, mem_bucket_push, h.mirrored, and_comm]
      · exact nodup_bucket_push h.nodupIndex hmem
      · exact nodup_bucket_push h.nodupReverse fun hrev => hmem ((h.mirrored a txID).mpr hrev)
      · intro id b
        rw [mem_bucket_push, h.hashes]
        by_cases hid : id = txID
        · simp [hid, or_comm]
        · simp [hid]

theorem Exact.foldl_addHash (h : Exact ix hashes) (txID : Int) (hs : List UInt64) :
    Exact (hs.foldl (ResolvedIndex.addHash txID) ix) fun id => if id = txID then hashes id ∪ hs.toFinset else hashes id := by
  induction hs generalizing ix hashes with
  | nil =>
      apply h.congr
      intro id
      simp
  | cons a hs ih =>
      apply (ih (h.addHash txID a)).congr
      intro id
      by_cases hid : id = txID
      · simp [hid, Finset.insert_union, Finset.union_insert]
      · simp [hid]

theorem Exact.addToResolvedPubkeyIndex (h : Exact ix hashes) (txID : Int) (pks : List String) :
    Exact (ix.addToResolvedPubkeyIndex txID pks) fun id =>
      if id = txID then hashes id ∪ hashesOf pks else hashes id := by
  rw [addToResolvedPubkeyIndex_eq, if_pos h.use]
  exact h.foldl_addHash txID _

theorem nodup_bucket_foldl_dropTx {txID : Int} {hs : List UInt64} {index : GoMap UInt64 (List Int)}
    (h : ∀ a, (bucket index a).Nodup) (a : UInt64) : (bucket (hs.foldl (dropTx txID) index) a).Nodup := by
  induction hs generalizing index with
  | nil => exact h a
  | cons b hs ih =>
      apply ih
      intro c
      rw [dropTx, bucket_store]
      split
      · exact (h b).filter _
      · exact h c

theorem noEmpty_foldl_dropTx {txID : Int} {hs : List UInt64} {index : GoMap UInt64 (List Int)} (h : NoEmpty index) :
    NoEmpty (hs.foldl (dropTx txID) index) := by
  induction hs generalizing index with
  | nil => exact h
  | cons b hs ih => exact ih (h.store b _)

theorem Exact.removeFromResolvedPubkeyIndex (h : Exact ix hashes) (txID : Int) :
    Exact (ix.removeFromResolvedPubkeyIndex txID) fun id => if id = txID then ∅ else hashes id := by
  rw [ResolvedIndex.removeFromResolvedPubkeyIndex, if_pos h.use]
  refine ⟨h.use, ?_, nodup_bucket_foldl_dropTx h.nodupIndex, ?_, noEmpty_foldl_dropTx h.noEmptyIndex,
    h.noEmptyReverse.delete txID, ?_⟩
  · intro a id
    rw [mem_bucket_foldl_dropTx, bucket_delete, h.mirrored]
    -- the reverse map knows every list that the transmission is in
    by_cases hid : id = txID
    · subst hid
      simp
    · simp [hid]
  · intro id
    rw [bucket_delete]
    split
    · exact List.nodup_nil
    · exact h.nodupReverse id
  · intro id a
    rw [bucket_delete]
    split
    · simp
    · exact h.hashes id a

theorem Exact.compact (h : Exact ix hashes) : Exact ix.compact hashes where
  use := by
    rw [ResolvedIndex.compact, if_pos h.use]
    exact h.use
  mirrored := by
    intro a id
    rw [bucket_index_compact, bucket_reverse_compact]
    exact h.mirrored a id
  nodupIndex := by
    intro a
    rw [bucket_index_compact]
    exact h.nodupIndex a
  nodupReverse := by
    intro id
    rw [bucket_reverse_compact]
    exact h.nodupReverse id
  noEmptyIndex := by
    rw [ResolvedIndex.compact, if_pos h.use]
    exact noEmpty_compacted
  noEmptyReverse := by
    rw [ResolvedIndex.compact, if_pos h.use]
    exact noEmpty_compacted
  hashes := by
    intro id a
    rw [bucket_reverse_compact]
    exact h.hashes id a

theorem Exact.apply {added : Int → List String} (h : Exact ix fun id => hashesOf (added id)) (op : Operation) :
    Exact (ix.apply op) fun id => hashesOf (recordStep added op id) := by
  cases op with
  | add txID pks =>
      apply (h.addToResolvedPubkeyIndex txID pks).congr
      intro id
      simp only [recordStep]
      split
      · exact hashesOf_append _ _
      · rfl
  | remove txID =>
      apply (h.removeFromResolvedPubkeyIndex txID).congr
      intro id
      simp only [recordStep]
      split <;> rfl
  | compact => exact h.compact

theorem exact_run (ops : List Operation) : Exact (run ops) fun id => hashesOf (added ops id) := by
  suffices h : ∀ (ix : ResolvedIndex) (rec : Int → List String), Exact ix (fun id => hashesOf (rec id)) →
      Exact (ops.foldl ResolvedIndex.apply ix) fun id => hashesOf (ops.foldl recordStep rec id) from
    h (empty true) (fun _ => []) exact_empty
  induction ops with
  | nil => exact fun ix rec h => h
  | cons op ops ih => exact fun ix rec h => ih _ _ (h.apply op)

theorem Exact.length (h : Exact ix hashes) (id : Int) : (bucket ix.reverse id).length = (hashes id).card := by
  rw [← List.toFinset_card_of_nodup (h.nodupReverse id)]
  congr 1
  ext a
  rw [List.mem_toFinset, h.hashes]

theorem Exact.isNone_reverse (h : Exact ix hashes) {id : Int} : (ix.reverse id).isNone ↔ hashes id = ∅ := by
  rw [← Finset.card_eq_zero, ← h.length, List.length_eq_zero_iff, Option.isNone_iff_eq_none, bucket]
  cases hr : ix.reverse id with
  | none => simp
  | some l =>
      have hl : l ≠ [] := fun hl => h.noEmptyReverse id (hl ▸ hr)
      simp [hl]

theorem nodeInResolvedPathViaIndex_eq_false (h : Exact ix hashes) (s : Store) (r : TxRef) (targetPK : String) :
    Store.nodeInResolvedPathViaIndex { s with resolved := ix } none r targetPK = false ↔
      hashes (s.row r).id ≠ ∅ ∧ resolvedPubkeyHash targetPK ∉ hashes (s.row r).id := by
  have hmem : (s.row r).id ∈ bucket ix.index (resolvedPubkeyHash targetPK) ↔
      resolvedPubkeyHash targetPK ∈ hashes (s.row r).id := by rw [h.mirrored, h.hashes]
  simp only [Store.nodeInResolvedPathViaIndex, Store.inIndex, h.use, Option.all_none, Bool.and_true, Bool.or_eq_false_iff,
    Bool.not_true, true_and, decide_eq_false_iff_not]
  rw [← Bool.not_eq_true]
  exact and_congr (not_congr h.isNone_reverse) (not_congr hmem)

theorem resolvedPubkeyHash_congr {pk targetPK : String} (h : toLower pk = toLower targetPK) :
    resolvedPubkeyHash pk = resolvedPubkeyHash targetPK := by
  rw [resolvedPubkeyHash, h, resolvedPubkeyHash]

section

variable (ops : List Operation) (s : Store) (timeOnAir : Nat → Int64) (lib : Library) (window : TimeWindow)

/-- The number of hashes that are recorded of each transmission. -/
def relayCount (r : TxRef) : Nat := (hashesOf (added ops (s.row r).id)).card

theorem distinctRelayCount_run (r : TxRef) :
    Store.distinctRelayCount { s with resolved := run ops } r = relayCount ops s r := by
  rw [Store.distinctRelayCount, if_pos (exact_run ops).use]
  exact (exact_run ops).length _

theorem computeRelayAirtimeShare_run :
    computeRelayAirtimeShare timeOnAir lib window { s with resolved := run ops } =
      airtimeShare timeOnAir (relayCount ops s) lib window { s with resolved := run ops } := by
  rw [computeRelayAirtimeShare]
  congr 1
  funext r
  exact distinctRelayCount_run ops s r

theorem membership_exact :
    Exact (run ops) (fun id => hashesOf (added ops id)) ∧
      (∀ id, (bucket (run ops).reverse id).length = (hashesOf (added ops id)).card) ∧
      (∀ r, Store.distinctRelayCount { s with resolved := run ops } r = relayCount ops s r) ∧
      computeRelayAirtimeShare timeOnAir lib window { s with resolved := run ops } =
        airtimeShare timeOnAir (relayCount ops s) lib window { s with resolved := run ops } ∧
      ∀ r, ∀ pk ∈ added ops (s.row r).id, ∀ targetPK, pk ≠ "" → toLower pk = toLower targetPK →
        Store.nodeInResolvedPathViaIndex { s with resolved := run ops } none r targetPK = true := by
  refine ⟨exact_run ops, (exact_run ops).length, distinctRelayCount_run ops s,
    computeRelayAirtimeShare_run ops s timeOnAir lib window, ?_⟩
  intro r pk hpk targetPK hne hlower
  rw [← Bool.not_eq_false, nodeInResolvedPathViaIndex_eq_false (exact_run ops)]
  rintro ⟨-, hnot⟩
  exact hnot (mem_hashesOf.mpr ⟨pk, hpk, hne, resolvedPubkeyHash_congr hlower⟩)

end

def readded : List Operation := [.add 0 ["aa"], .remove 0, .add 0 ["bb", ""]]

theorem membership_exact_readded :
    Store.nodeInResolvedPathViaIndex { Store.new true with resolved := run readded } none 0 "bb" = true :=
  (membership_exact readded (Store.new true) (fun _ => 0) ⟨fun _ => none, id, id, fun _ => ""⟩ ⟨"", ""⟩).2.2.2.2 0 "bb"
    (by decide) "bb" (by decide) rfl

theorem removed_not_found :
    ¬ ∀ (ops : List Operation) (s : Store) (r : TxRef) (targetPK : String),
        Store.nodeInResolvedPathViaIndex { s with resolved := run ops } none r targetPK = false →
        ∀ pks, .add (s.row r).id pks ∈ ops → targetPK ∉ pks := by
  intro h
  exact h readded (Store.new true) 0 "aa" (by decide +kernel) ["aa"] List.mem_cons_self List.mem_cons_self

end ResolvedIndex

end MeshcoreAnalyzer.PacketStore

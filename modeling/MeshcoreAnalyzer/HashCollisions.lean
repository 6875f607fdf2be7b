import MeshcoreAnalyzer.DistanceReads
import MeshcoreAnalyzer.Groups
import MeshcoreAnalyzer.HashSizes
import Mathlib.Data.Finset.Sort
import Mathlib.Data.Prod.Lex

namespace MeshcoreAnalyzer.PacketStore.HashCollisions

open Maps Groups Orders Json
open HashSizes (HashSizeNodeInfo)

/-! `computeHashCollisions` of cmd/server/store.go: the repeaters whose path hashes cannot be told apart.
Public keys are hexadecimal digits. -/

structure NodeInfo where
  publicKey : String
  name : String
  role : String
  lat : ℚ
  lon : ℚ

structure CollisionNode where
  publicKey : String
  name : String
  role : String
  lat : ℚ
  lon : ℚ
  hashSize : Nat
  hashSizeInconsistent : Bool
  hashSizesSeen : List Nat
deriving DecidableEq

structure CollisionEntry where
  hash : String
  byteSize : Nat
  appearances : Nat
  nodes : List CollisionNode
  maxDistKm : ℚ
  classification : String
  withCoords : Nat
deriving DecidableEq

structure TwoByteCellInfo where
  groupNodes : List CollisionNode
  twoByteMap : List (String × List CollisionNode)
  maxCollision : Nat
  collisionCount : Nat

def announcedKeys (tx : StoreTx) : List String :=
  match tx.parsedDecoded with
  | some d => (["pubKey", "public_key"].filterMap (stringField d)).filter (· ≠ "")
  | none => []

def regionNodePKs (regionObs : String → Bool) (packets : List StoreTx) : List String :=
  (packets.filter fun tx => Distances.inRegion regionObs tx).flatMap fun tx =>
    announcedKeys tx ++ (tx.observations.map fun obs => obs.observerID).filter (· ≠ "")

def inScope (regionObs areaNodes : Option (String → Bool)) (packets : List StoreTx) (nodes : List NodeInfo) :
    List NodeInfo :=
  let nodes := match regionObs with
    | some regionObs => nodes.filter fun n => n.publicKey ∈ regionNodePKs regionObs packets
    | none => nodes
  match areaNodes with
  | some areaNodes => nodes.filter fun n => areaNodes n.publicKey
  | none => nodes

def collisionNode (hashInfo : GoMap String HashSizeNodeInfo) (n : NodeInfo) : CollisionNode :=
  let info := hashInfo n.publicKey
  { publicKey := n.publicKey
    name := n.name
    role := n.role
    lat := n.lat
    lon := n.lon
    hashSize := (info.map fun i => i.hashSize).getD 0
    hashSizeInconsistent := (info.map fun i => i.inconsistent).getD false
    hashSizesSeen := (info.map fun i => if 1 < i.allSizes.card then i.allSizes.sort (· ≤ ·) else []).getD [] }

def inconsistentNodes (all : List CollisionNode) : List CollisionNode :=
  all.filter fun cn => cn.hashSizeInconsistent && (cn.role = "repeater" || cn.role = "room_server")

def hashOf (bytes : Nat) (pk : String) : String := String.ofList ((pk.toList.take (bytes * 2)).map Char.toUpper)

def nodesForByte (bytes : Nat) (all : List CollisionNode) : List CollisionNode :=
  all.filter fun cn => cn.hashSize = bytes && cn.role = "repeater"

def hashed (bytes : Nat) (all : List CollisionNode) : List CollisionNode :=
  (nodesForByte bytes all).filter fun cn => bytes * 2 ≤ cn.publicKey.length

def byHash (bytes : Nat) (cns : List CollisionNode) : List (String × List CollisionNode) :=
  tallies (fun cn => hashOf bytes cn.publicKey) (fun _ => []) (fun ns cn => ns ++ [cn]) cns

def located (cn : CollisionNode) : Bool := cn.lat ≠ 0 || cn.lon ≠ 0

def pairs {A : Type} : List A → List (A × A)
  | [] => []
  | a :: l => l.map (fun b => (a, b)) ++ pairs l

variable (haversineKm : ℚ → ℚ → ℚ → ℚ → ℚ)

def distKm (p : CollisionNode × CollisionNode) : ℚ := haversineKm p.1.lat p.1.lon p.2.lat p.2.lon

def maxDistKm (withCoords : List CollisionNode) : ℚ :=
  (pairs withCoords).foldl (fun m p => if m < distKm haversineKm p then distKm haversineKm p else m) 0

def classify (withCoords : List CollisionNode) : String :=
  if 2 ≤ withCoords.length then
    if maxDistKm haversineKm withCoords < 50 then "local"
    else if maxDistKm haversineKm withCoords < 200 then "regional"
    else "distant"
  else "incomplete"

def entry (bytes : Nat) (p : String × List CollisionNode) : CollisionEntry where
  hash := p.1
  byteSize := bytes
  appearances := p.2.length
  nodes := p.2
  maxDistKm := maxDistKm haversineKm (p.2.filter located)
  classification := classify haversineKm (p.2.filter located)
  withCoords := (p.2.filter located).length

def classOrder (classification : String) : Nat :=
  ([("local", 0), ("regional", 1), ("distant", 2), ("incomplete", 3), ("unknown", 4)].lookup classification).getD 0

def rank (e : CollisionEntry) : Lex (Nat × Int) := toLex (classOrder e.classification, -(e.appearances : Int))

variable (o : Groups.RangeOrder) (sort : SliceSort rank)

def collisions (bytes : Nat) (all : List CollisionNode) : List CollisionEntry :=
  sort.sort (((o.order (byHash bytes (hashed bytes all))).filter fun p => 1 < p.2.length).map (entry haversineKm bytes))

def hexByte (i : Nat) : String :=
  String.ofList [(Nat.digitChar (i / 16)).toUpper, (Nat.digitChar (i % 16)).toUpper]

def cellKeys : List String := (List.range 256).map hexByte

def change {A V : Type} (key : A → String) (f : V → A → V) (m : GoMap String V) (a : A) : GoMap String V :=
  match m (key a) with
  | none => m
  | some v => set m (key a) (f v a)

def oneByteCells (all : List CollisionNode) : GoMap String (List CollisionNode) :=
  let prefixes := byHash 1 (hashed 1 all)
  let cells := cellKeys.foldl (fun m hex => set m hex ((get prefixes hex).getD [])) Maps.empty
  let longer := all.filter fun cn =>
    cn.role = "repeater" && (cn.hashSize = 2 || cn.hashSize = 3) && 2 ≤ cn.publicKey.length
  longer.foldl (change (fun cn => hashOf 1 cn.publicKey) fun ns cn => ns ++ [cn]) cells

def TwoByteCellInfo.empty : TwoByteCellInfo := ⟨[], [], 0, 0⟩

def TwoByteCellInfo.add (cell : TwoByteCellInfo) (cn : CollisionNode) : TwoByteCellInfo :=
  { cell with
    groupNodes := cell.groupNodes ++ [cn]
    twoByteMap := tally (fun cn => hashOf 2 cn.publicKey) (fun _ => []) (fun ns cn => ns ++ [cn]) cell.twoByteMap cn }

def TwoByteCellInfo.count (cell : TwoByteCellInfo) : TwoByteCellInfo :=
  (o.order cell.twoByteMap).foldl
    (fun c p =>
      if 1 < p.2.length then
        { c with collisionCount := c.collisionCount + 1, maxCollision := max c.maxCollision p.2.length }
      else c)
    cell

def twoByteCells (all : List CollisionNode) : GoMap String TwoByteCellInfo :=
  let cells := cellKeys.foldl (fun m hex => set m hex TwoByteCellInfo.empty) Maps.empty
  let filled := (hashed 2 all).foldl (change (fun cn => hashOf 1 cn.publicKey) TwoByteCellInfo.add) cells
  fun hex => (filled hex).map (·.count o)

structure SizeData where
  totalNodes : Nat
  nodesForByte : Nat
  usingThisSize : Nat
  uniquePrefixes : Nat
  collisionCount : Nat
  spaceSize : Nat
  pctUsed : ℚ
  collisions : List CollisionEntry
  oneByteCells : Option (GoMap String (List CollisionNode))
  twoByteCells : Option (GoMap String TwoByteCellInfo)

def spaceSize (bytes : Nat) : Nat := 256 ^ bytes

def sizeData (bytes : Nat) (all : List CollisionNode) : SizeData :=
  let found := collisions haversineKm o sort bytes all
  let uniquePrefixes := (byHash bytes (hashed bytes all)).length
  { totalNodes := all.length
    nodesForByte := (nodesForByte bytes all).length
    usingThisSize := all.countP fun cn => cn.hashSize = bytes
    uniquePrefixes := uniquePrefixes
    collisionCount := found.length
    spaceSize := spaceSize bytes
    pctUsed := (uniquePrefixes : ℚ) / spaceSize bytes * 100
    collisions := found
    oneByteCells := if bytes = 1 then some (oneByteCells all) else none
    twoByteCells := if bytes = 2 then some (twoByteCells o all) else none }

structure Collisions where
  inconsistentNodes : List CollisionNode
  bySize : List (Nat × SizeData)

def computeHashCollisions (regionObs areaNodes : Option (String → Bool)) (packets : List StoreTx)
    (nodes : List NodeInfo) (hashInfo : GoMap String HashSizeNodeInfo) : Collisions :=
  let all := (inScope regionObs areaNodes packets nodes).map (collisionNode hashInfo)
  { inconsistentNodes := inconsistentNodes all
    bySize := [1, 2, 3].map fun bytes => (bytes, sizeData haversineKm o sort bytes all) }

variable {haversineKm o sort} {bytes : Nat} {all cns : List CollisionNode}

def sharing (bytes : Nat) (cns : List CollisionNode) (hash : String) : List CollisionNode :=
  group (fun cn => hashOf bytes cn.publicKey) cns hash

theorem mem_byHash {p : String × List CollisionNode} :
    p ∈ byHash bytes cns ↔ p.2 ≠ [] ∧ p.2 = sharing bytes cns p.1 := by
  rw [byHash, mem_tallies, running_gather, ← sharing]
  split
  · next hnil => simp [hnil]
  · next hne =>
      rw [Option.some.injEq]
      exact ⟨fun h => ⟨h ▸ hne, h.symm⟩, fun h => h.2.symm⟩

theorem nodup_byHash (bytes : Nat) (cns : List CollisionNode) : ((byHash bytes cns).map Prod.fst).Nodup :=
  nodup_tallies cns

theorem mem_collisions {e : CollisionEntry} : e ∈ collisions haversineKm o sort bytes all ↔
    ∃ hash, 2 ≤ (sharing bytes (hashed bytes all) hash).length ∧
      e = entry haversineKm bytes (hash, sharing bytes (hashed bytes all) hash) := by
  rw [collisions, (sort.perm _).mem_iff, List.mem_map]
  simp only [List.mem_filter, (o.perm _).mem_iff, mem_byHash, decide_eq_true_iff]
  constructor
  · rintro ⟨p, ⟨⟨-, hp⟩, hlen⟩, rfl⟩
    exact ⟨p.1, hp ▸ hlen, congrArg _ (Prod.ext rfl hp)⟩
  · rintro ⟨hash, hlen, rfl⟩
    have hne : sharing bytes (hashed bytes all) hash ≠ [] :=
      List.ne_nil_of_length_pos (Nat.lt_of_lt_of_le Nat.zero_lt_two hlen)
    exact ⟨(hash, sharing bytes (hashed bytes all) hash), ⟨⟨hne, rfl⟩, hlen⟩, rfl⟩

theorem hashes_collisions : (collisions haversineKm o sort bytes all).map (fun e => e.hash) |>.Perm
    (((byHash bytes (hashed bytes all)).filter fun p => 1 < p.2.length).map Prod.fst) := by
  refine ((sort.perm _).map _).trans ?_
  rw [List.map_map]
  exact ((o.perm _).filter _).map _

theorem nodup_collisions : ((collisions haversineKm o sort bytes all).map fun e => e.hash).Nodup := by
  rw [hashes_collisions.nodup_iff]
  exact (nodup_byHash bytes _).sublist (List.filter_sublist.map _)

theorem mem_pairs {A : Type} {l : List A} {a b : A} : (a, b) ∈ pairs l ↔ [a, b].Sublist l := by
  induction l with
  | nil => simp [pairs]
  | cons c l ih =>
      rw [pairs, List.mem_append, ih, List.mem_map]
      constructor
      · rintro (⟨d, hd, heq⟩ | h)
        · cases heq
          exact (List.singleton_sublist.mpr hd).cons_cons _
        · exact h.cons _
      · intro h
        cases h with
        | cons _ h => exact .inr h
        | cons_cons _ h => exact .inl ⟨b, List.singleton_sublist.mp h, rfl⟩

theorem foldl_farther {A : Type} (d : A → ℚ) (l : List A) (m : ℚ) :
    (m ≤ l.foldl (fun m p => if m < d p then d p else m) m ∧
        ∀ p ∈ l, d p ≤ l.foldl (fun m p => if m < d p then d p else m) m) ∧
      (l.foldl (fun m p => if m < d p then d p else m) m = m ∨
        ∃ p ∈ l, l.foldl (fun m p => if m < d p then d p else m) m = d p) := by
  induction l generalizing m with
  | nil => simp
  | cons q l ih =>
      obtain ⟨⟨hstart, hall⟩, hreached⟩ := ih (if m < d q then d q else m)
      rw [List.foldl_cons]
      have hm : m ≤ if m < d q then d q else m := by split <;> grind
      have hq : d q ≤ if m < d q then d q else m := by split <;> grind
      refine ⟨⟨hm.trans hstart, List.forall_mem_cons.mpr ⟨hq.trans hstart, hall⟩⟩, ?_⟩
      rcases hreached with h | ⟨p, hp, h⟩
      · rw [h]
        split
        · exact .inr ⟨q, List.mem_cons_self, rfl⟩
        · exact .inl rfl
      · exact .inr ⟨p, List.mem_cons_of_mem _ hp, h⟩

/-- No two of the nodes that have a position are farther apart, and two of them are as far. -/
structure Farthest (haversineKm : ℚ → ℚ → ℚ → ℚ → ℚ) (nodes : List CollisionNode) (km : ℚ) : Prop where
  bound : ∀ a b, [a, b].Sublist nodes → distKm haversineKm (a, b) ≤ km
  reached : km = 0 ∨ ∃ a b, [a, b].Sublist nodes ∧ distKm haversineKm (a, b) = km

theorem farthest_maxDistKm (nodes : List CollisionNode) : Farthest haversineKm nodes (maxDistKm haversineKm nodes) where
  bound a b h := (foldl_farther (distKm haversineKm) (pairs nodes) 0).1.2 _ (mem_pairs.mpr h)
  reached := by
    rcases (foldl_farther (distKm haversineKm) (pairs nodes) 0).2 with h | ⟨p, hp, h⟩
    · exact .inl h
    · exact .inr ⟨p.1, p.2, mem_pairs.mp hp, h.symm⟩

section Cells

variable {A V : Type} {key : A → String} {f : V → A → V} {m : GoMap String V} {k : String}

theorem foldl_change (l : List A) :
    l.foldl (change key f) m k = (m k).map fun v => (l.filter fun a => key a = k).foldl f v := by
  induction l generalizing m with
  | nil => simp
  | cons a l ih =>
      rw [List.foldl_cons, ih, List.filter_cons, change]
      cases hkey : m (key a) with
      | none =>
          by_cases hk : key a = k
          · subst hk
            simp [hkey]
          · simp [hk]
      | some v =>
          by_cases hk : key a = k
          · subst hk
            simp [hkey, set_apply]
          · simp [hk, set_apply, Ne.symm hk]

theorem foldl_set_keys (value : String → V) (keys : List String) :
    keys.foldl (fun m k => set m k (value k)) m k = if k ∈ keys then some (value k) else m k := by
  induction keys generalizing m with
  | nil => simp
  | cons k' keys ih =>
      rw [List.foldl_cons, ih, set_apply]
      by_cases hk : k = k'
      · simp [hk]
      · simp [hk]

end Cells

theorem char_toUpper_toUpper (c : Char) : c.toUpper.toUpper = c.toUpper := by
  unfold Char.toUpper
  split
  · next hlower =>
      have hle := hlower.2
      have hge := hlower.1
      rw [dif_neg]
      grind
  · rfl

theorem hashOf_hashOf (pk : String) : hashOf 1 (hashOf 2 pk) = hashOf 1 pk := by
  have hupper : ∀ l : List Char, (l.map Char.toUpper).map Char.toUpper = l.map Char.toUpper := fun l => by
    rw [List.map_map]
    exact List.map_congr_left fun c _ => char_toUpper_toUpper c
  rw [hashOf, hashOf, hashOf, String.toList_ofList, ← List.map_take, List.take_take, hupper]
  rfl

def holders (all : List CollisionNode) : List CollisionNode :=
  all.filter fun cn =>
    cn.role = "repeater" && (cn.hashSize = 1 || cn.hashSize = 2 || cn.hashSize = 3) && 2 ≤ cn.publicKey.length

theorem foldl_snoc {A : Type} (l l' : List A) : l'.foldl (fun ns a => ns ++ [a]) l = l ++ l' := by
  induction l' generalizing l with
  | nil => simp
  | cons a l' ih => simp [ih]

theorem oneByteCells_perm {hex : String} (hhex : hex ∈ cellKeys) :
    ∃ cell, oneByteCells all hex = some cell ∧ cell.Perm (sharing 1 (holders all) hex) := by
  have hshort : (get (byHash 1 (hashed 1 all)) hex).getD [] =
      (sharing 1 (holders all) hex).filter fun cn => cn.hashSize = 1 := by
    have hget : (get (byHash 1 (hashed 1 all)) hex).getD [] = sharing 1 (hashed 1 all) hex := by
      rw [byHash, get_tallies, running_gather, ← sharing]
      split
      · next hnil => rw [hnil, Option.getD_none]
      · rfl
    rw [hget]
    simp only [sharing, group, hashed, nodesForByte, holders, List.filter_filter]
    apply List.filter_congr
    intro cn _
    by_cases hsize : cn.hashSize = 1 <;> simp [hsize, Bool.and_comm]
  have hlonger : (all.filter fun cn =>
        cn.role = "repeater" && (cn.hashSize = 2 || cn.hashSize = 3) && 2 ≤ cn.publicKey.length).filter
        (fun cn => hashOf 1 cn.publicKey = hex) =
      (sharing 1 (holders all) hex).filter fun cn => !decide (cn.hashSize = 1) := by
    simp only [sharing, group, holders, List.filter_filter]
    apply List.filter_congr
    intro cn _
    by_cases hsize : cn.hashSize = 1 <;> simp [hsize, Bool.and_comm]
  refine ⟨_, ?_, List.filter_append_perm (fun cn => decide (cn.hashSize = 1)) _⟩
  rw [oneByteCells, foldl_change, foldl_set_keys, if_pos hhex, Option.map_some, foldl_snoc, hshort, hlonger]

/-- Counting goes over the hashes of the cell in any order. -/
structure Counted (cell : TwoByteCellInfo) (l : List (String × List CollisionNode)) (c : TwoByteCellInfo) : Prop where
  groupNodes : c.groupNodes = cell.groupNodes
  twoByteMap : c.twoByteMap = cell.twoByteMap
  collisionCount : c.collisionCount = cell.collisionCount + (l.filter fun p => 1 < p.2.length).length
  bound : cell.maxCollision ≤ c.maxCollision ∧ ∀ p ∈ l, 1 < p.2.length → p.2.length ≤ c.maxCollision
  reached : c.maxCollision = cell.maxCollision ∨ ∃ p ∈ l, 1 < p.2.length ∧ c.maxCollision = p.2.length

theorem foldl_count (l : List (String × List CollisionNode)) (cell : TwoByteCellInfo) :
    Counted cell l (l.foldl
      (fun c p =>
        if 1 < p.2.length then
          { c with collisionCount := c.collisionCount + 1, maxCollision := max c.maxCollision p.2.length }
        else c)
      cell) := by
  induction l generalizing cell with
  | nil => exact ⟨rfl, rfl, rfl, ⟨le_refl _, by simp⟩, .inl rfl⟩
  | cons q l ih =>
      rw [List.foldl_cons]
      split
      · next hq =>
          obtain ⟨hgroup, hmap, hcount, ⟨hstart, hbound⟩, hreached⟩ := ih
            { cell with collisionCount := cell.collisionCount + 1, maxCollision := max cell.maxCollision q.2.length }
          refine ⟨hgroup, hmap, ?_,
            ⟨(le_max_left _ _).trans hstart, List.forall_mem_cons.mpr ⟨fun _ => ?_, hbound⟩⟩, ?_⟩
          · rw [hcount, List.filter_cons, if_pos (decide_eq_true hq), List.length_cons]
            dsimp only
            omega
          · exact (le_max_right _ _).trans hstart
          · rcases hreached with h | ⟨p, hp, hlen, h⟩
            · rcases max_choice cell.maxCollision q.2.length with hmax | hmax
              · exact .inl (h.trans hmax)
              · exact .inr ⟨q, List.mem_cons_self, hq, h.trans hmax⟩
            · exact .inr ⟨p, List.mem_cons_of_mem _ hp, hlen, h⟩
      · next hq =>
          obtain ⟨hgroup, hmap, hcount, ⟨hstart, hbound⟩, hreached⟩ := ih cell
          refine ⟨hgroup, hmap, ?_, ⟨hstart, List.forall_mem_cons.mpr ⟨fun h => absurd h hq, hbound⟩⟩, ?_⟩
          · rw [hcount, List.filter_cons, if_neg (by simpa using hq)]
          · exact hreached.imp id fun ⟨p, hp, h⟩ => ⟨p, List.mem_cons_of_mem _ hp, h⟩

theorem foldl_add (l : List CollisionNode) (cell : TwoByteCellInfo) :
    l.foldl TwoByteCellInfo.add cell =
      { cell with
        groupNodes := cell.groupNodes ++ l
        twoByteMap :=
          l.foldl
            (tally (fun cn => hashOf 2 cn.publicKey) (fun _ => []) fun ns cn => ns ++ [cn]) cell.twoByteMap } := by
  induction l generalizing cell with
  | nil => simp
  | cons cn l ih =>
      rw [List.foldl_cons, ih, TwoByteCellInfo.add]
      simp

/-- The cell of a first byte: its nodes, how many of the collisions are in it, and the largest of them. -/
structure CellOf (all : List CollisionNode) (found : List CollisionEntry) (hex : String) (cell : TwoByteCellInfo) :
    Prop where
  nodes : cell.groupNodes = sharing 1 (hashed 2 all) hex
  count : cell.collisionCount = (found.filter fun e => hashOf 1 e.hash = hex).length
  bound : ∀ e ∈ found, hashOf 1 e.hash = hex → e.appearances ≤ cell.maxCollision
  reached : cell.maxCollision = 0 ∨ ∃ e ∈ found, hashOf 1 e.hash = hex ∧ e.appearances = cell.maxCollision

theorem byHash_sharing (hex : String) :
    (byHash 2 (sharing 1 (hashed 2 all) hex)).Perm ((byHash 2 (hashed 2 all)).filter fun p => hashOf 1 p.1 = hex) := by
  have hkeys : sharing 1 (hashed 2 all) hex =
      (hashed 2 all).filter fun cn => decide (hashOf 1 (hashOf 2 cn.publicKey) = hex) := by
    simp only [hashOf_hashOf]
    rfl
  rw [hkeys]
  exact tallies_filter fun hash => decide (hashOf 1 hash = hex)

theorem found_perm : (collisions haversineKm o sort bytes all).Perm
    (((byHash bytes (hashed bytes all)).filter fun p => 1 < p.2.length).map (entry haversineKm bytes)) :=
  (sort.perm _).trans (((o.perm _).filter _).map _)

theorem twoByteCells_cell {hex : String} (hhex : hex ∈ cellKeys) :
    ∃ cell, twoByteCells o all hex = some cell ∧ CellOf all (collisions haversineKm o sort 2 all) hex cell := by
  have hfilled : (((hashed 2 all).foldl (change (fun cn => hashOf 1 cn.publicKey) TwoByteCellInfo.add)
      (cellKeys.foldl (fun m hex => set m hex TwoByteCellInfo.empty) Maps.empty)) hex) =
      some ⟨sharing 1 (hashed 2 all) hex, byHash 2 (sharing 1 (hashed 2 all) hex), 0, 0⟩ := by
    rw [foldl_change, foldl_set_keys, if_pos hhex, Option.map_some, foldl_add]
    rfl
  have hcount := foldl_count (o.order (byHash 2 (sharing 1 (hashed 2 all) hex)))
    ⟨sharing 1 (hashed 2 all) hex, byHash 2 (sharing 1 (hashed 2 all) hex), 0, 0⟩
  have hmem : ∀ p, p ∈ o.order (byHash 2 (sharing 1 (hashed 2 all) hex)) ↔
      p ∈ byHash 2 (hashed 2 all) ∧ hashOf 1 p.1 = hex := fun p => by
    rw [(o.perm _).mem_iff, (byHash_sharing hex).mem_iff, List.mem_filter, decide_eq_true_iff]
  have hfound : ∀ e, e ∈ collisions haversineKm o sort 2 all ↔
      ∃ p ∈ byHash 2 (hashed 2 all), 1 < p.2.length ∧ entry haversineKm 2 p = e := fun e => by
    simp only [found_perm.mem_iff, List.mem_map, List.mem_filter, decide_eq_true_iff, and_assoc]
  have hcell : twoByteCells o all hex =
      some (TwoByteCellInfo.count o ⟨sharing 1 (hashed 2 all) hex, byHash 2 (sharing 1 (hashed 2 all) hex), 0, 0⟩) :=
    congrArg (Option.map (TwoByteCellInfo.count o)) hfilled
  refine ⟨_, hcell, hcount.groupNodes, ?_, fun e he hin => ?_, ?_⟩
  · have hperm := ((o.perm (byHash 2 (sharing 1 (hashed 2 all) hex))).trans (byHash_sharing hex)).filter
      fun p => decide (1 < p.2.length)
    refine (hcount.collisionCount.trans (Nat.zero_add _)).trans (hperm.length_eq.trans ?_)
    rw [(found_perm.filter _).length_eq, List.filter_map, List.length_map, List.filter_filter, List.filter_filter]
    congr 1
    apply List.filter_congr
    intro p _
    exact Bool.and_comm _ _
  · obtain ⟨p, hp, hlen, rfl⟩ := (hfound e).mp he
    exact hcount.bound.2 p ((hmem p).mpr ⟨hp, hin⟩) hlen
  · refine hcount.reached.imp id ?_
    rintro ⟨p, hp, hlen, hmax⟩
    obtain ⟨hp, hin⟩ := (hmem p).mp hp
    exact ⟨_, (hfound _).mpr ⟨p, hp, hlen, rfl⟩, hin, hmax.symm⟩

theorem sum_filter {A : Type} (f : A → String) (l : List A) {keys : List String} (hkeys : keys.Nodup) :
    (keys.map fun k => (l.filter fun a => f a = k).length).sum = (l.filter fun a => f a ∈ keys).length := by
  induction keys with
  | nil => simp
  | cons k keys ih =>
      rw [List.nodup_cons] at hkeys
      have hfirst : ((l.filter fun a => f a ∈ k :: keys).filter fun a => f a = k) = l.filter fun a => f a = k := by
        rw [List.filter_filter]
        apply List.filter_congr
        intro a _
        by_cases hk : f a = k <;> simp [hk]
      have hrest : ((l.filter fun a => f a ∈ k :: keys).filter fun a => !decide (f a = k)) =
          l.filter fun a => f a ∈ keys := by
        rw [List.filter_filter]
        apply List.filter_congr
        intro a _
        by_cases hk : f a = k
        · simp [hk, hkeys.1]
        · simp [hk]
      have hperm := (List.filter_append_perm (fun a => decide (f a = k)) (l.filter fun a => f a ∈ k :: keys)).length_eq
      rw [List.length_append, hfirst, hrest] at hperm
      rw [List.map_cons, List.sum_cons, ih hkeys.2, hperm]

theorem upperDigit_inj : ∀ a < 16, ∀ b < 16, (Nat.digitChar a).toUpper = (Nat.digitChar b).toUpper → a = b := by decide

theorem nodup_cellKeys : cellKeys.Nodup := by
  apply List.Nodup.map_on _ List.nodup_range
  intro i hi j hj heq
  rw [List.mem_range] at hi hj
  have hchars := String.ofList_injective heq
  obtain ⟨hhigh, hlow⟩ := List.cons.inj hchars
  have hhigh := upperDigit_inj (i / 16) (by omega) (j / 16) (by omega) hhigh
  have hlow := upperDigit_inj (i % 16) (by omega) (j % 16) (by omega) (List.cons.inj hlow).1
  omega

def hexDigits : List Char :=
  ['0', '1', '2', '3', '4', '5', '6', '7', '8', '9', 'a', 'b', 'c', 'd', 'e', 'f', 'A', 'B', 'C', 'D', 'E', 'F']

theorem digit_toUpper {c : Char} (hc : c ∈ hexDigits) : ∃ v < 16, (Nat.digitChar v).toUpper = c.toUpper := by
  have hall : hexDigits.all fun c => (List.range 16).any fun v => (Nat.digitChar v).toUpper == c.toUpper := by decide
  obtain ⟨v, hv, heq⟩ := List.any_eq_true.mp (List.all_eq_true.mp hall c hc)
  exact ⟨v, List.mem_range.mp hv, beq_iff_eq.mp heq⟩

theorem hashOf_mem_cellKeys {pk : String} (hhex : ∀ c ∈ pk.toList, c ∈ hexDigits) (hlen : 2 ≤ pk.length) :
    hashOf 1 pk ∈ cellKeys := by
  rw [← String.length_toList] at hlen
  rw [hashOf]
  rcases hchars : pk.toList with _ | ⟨c, _ | ⟨c', rest⟩⟩
  · simp [hchars] at hlen
  · simp [hchars] at hlen
  · rw [hchars] at hhex
    obtain ⟨v, hv, hc⟩ := digit_toUpper (hhex c List.mem_cons_self)
    obtain ⟨v', hv', hc'⟩ := digit_toUpper (hhex c' (List.mem_cons_of_mem c List.mem_cons_self))
    refine List.mem_map.mpr ⟨v * 16 + v', List.mem_range.mpr (by omega), ?_⟩
    have hhigh : (v * 16 + v') / 16 = v := by omega
    have hlow : (v * 16 + v') % 16 = v' := by omega
    rw [hexByte, hhigh, hlow, hc, hc']
    rfl

theorem hash_mem_cellKeys (hhex : ∀ cn ∈ all, ∀ c ∈ cn.publicKey.toList, c ∈ hexDigits) {e : CollisionEntry}
    (he : e ∈ collisions haversineKm o sort 2 all) : hashOf 1 e.hash ∈ cellKeys := by
  obtain ⟨hash, hlen, rfl⟩ := mem_collisions.mp he
  obtain ⟨cn, hcn⟩ : ∃ cn, cn ∈ sharing 2 (hashed 2 all) hash :=
    List.exists_mem_of_length_pos (Nat.lt_of_lt_of_le Nat.zero_lt_two hlen)
  obtain ⟨hcn, hkey⟩ := List.mem_filter.mp hcn
  obtain ⟨hcn, hlong⟩ := List.mem_filter.mp hcn
  have hmem : cn ∈ all := (List.mem_filter.mp hcn).1
  change hashOf 1 hash ∈ cellKeys
  rw [← of_decide_eq_true hkey, hashOf_hashOf]
  exact hashOf_mem_cellKeys (hhex cn hmem) (le_trans (by decide) (of_decide_eq_true hlong))

structure Matrix (all : List CollisionNode) (d : SizeData) (cells : GoMap String TwoByteCellInfo) : Prop where
  cell : ∀ hex ∈ cellKeys, ∃ cell, cells hex = some cell ∧ CellOf all d.collisions hex cell
  total : (cellKeys.map fun hex => ((cells hex).map (·.collisionCount)).getD 0).sum =
    (d.collisions.filter fun e => hashOf 1 e.hash ∈ cellKeys).length
  whole : (∀ cn ∈ all, ∀ c ∈ cn.publicKey.toList, c ∈ hexDigits) →
    (cellKeys.map fun hex => ((cells hex).map (·.collisionCount)).getD 0).sum = d.collisionCount

/-- The collisions of each size are the hashes that more than one repeater has, each of them once and with all its
nodes and the largest distance between two of these; the two matrices show the same. -/
structure Exact (haversineKm : ℚ → ℚ → ℚ → ℚ → ℚ) (all : List CollisionNode) (r : Collisions) : Prop where
  sizes : r.bySize.map Prod.fst = [1, 2, 3]
  listed : ∀ p ∈ r.bySize, ∀ e, e ∈ p.2.collisions ↔
    ∃ hash, 2 ≤ (sharing p.1 (hashed p.1 all) hash).length ∧
      e = entry haversineKm p.1 (hash, sharing p.1 (hashed p.1 all) hash)
  once : ∀ p ∈ r.bySize, (p.2.collisions.map fun e => e.hash).Nodup
  farthest : ∀ p ∈ r.bySize, ∀ e ∈ p.2.collisions, Farthest haversineKm (e.nodes.filter located) e.maxDistKm
  collisionCount : ∀ p ∈ r.bySize, p.2.collisionCount = p.2.collisions.length
  uniquePrefixes : ∀ p ∈ r.bySize,
    p.2.uniquePrefixes = ((hashed p.1 all).map fun cn => hashOf p.1 cn.publicKey).dedup.length
  oneByte : ∃ d cells, (1, d) ∈ r.bySize ∧ d.oneByteCells = some cells ∧
    ∀ hex ∈ cellKeys, ∃ cell, cells hex = some cell ∧ cell.Perm (sharing 1 (holders all) hex)
  twoByte : ∃ d cells, (2, d) ∈ r.bySize ∧ d.twoByteCells = some cells ∧ Matrix all d cells

theorem matrix_twoByteCells : Matrix all (sizeData haversineKm o sort 2 all) (twoByteCells o all) := by
  have htotal : (cellKeys.map fun hex => ((twoByteCells o all hex).map (·.collisionCount)).getD 0).sum =
      ((collisions haversineKm o sort 2 all).filter fun e => hashOf 1 e.hash ∈ cellKeys).length := by
    rw [← sum_filter (fun e : CollisionEntry => hashOf 1 e.hash) _ nodup_cellKeys]
    apply congrArg List.sum
    apply List.map_congr_left
    intro hex hhex
    obtain ⟨cell, hcell, hof⟩ : ∃ cell, twoByteCells o _ hex = some cell ∧
        CellOf _ (collisions haversineKm o sort 2 _) hex cell := twoByteCells_cell hhex
    rw [hcell, Option.map_some, Option.getD_some, hof.count]
  refine ⟨fun hex => twoByteCells_cell, htotal, fun hhex => htotal.trans ?_⟩
  rw [List.filter_eq_self.mpr fun e he => decide_eq_true (hash_mem_cellKeys hhex he)]
  rfl

/-- For every order in which the loops over maps run and equals are sorted. -/
theorem collisions_exact (haversineKm : ℚ → ℚ → ℚ → ℚ → ℚ) (o : Groups.RangeOrder) (sort : SliceSort rank)
    (regionObs areaNodes : Option (String → Bool)) (packets : List StoreTx) (nodes : List NodeInfo)
    (hashInfo : GoMap String HashSizeNodeInfo) :
    Exact haversineKm ((inScope regionObs areaNodes packets nodes).map (collisionNode hashInfo))
      (computeHashCollisions haversineKm o sort regionObs areaNodes packets nodes hashInfo) := by
  set all := (inScope regionObs areaNodes packets nodes).map (collisionNode hashInfo)
  have hbySize : ∀ p ∈ (computeHashCollisions haversineKm o sort regionObs areaNodes packets nodes hashInfo).bySize,
      p.2 = sizeData haversineKm o sort p.1 all := by
    intro p hp
    obtain ⟨bytes, -, rfl⟩ := List.mem_map.mp hp
    rfl
  refine ⟨rfl, fun p hp e => ?_, fun p hp => ?_, fun p hp e he => ?_, fun p hp => ?_, fun p hp => ?_, ?_, ?_⟩
  · rw [hbySize p hp]
    exact mem_collisions
  · rw [hbySize p hp]
    exact nodup_collisions
  · rw [hbySize p hp] at he
    obtain ⟨hash, -, rfl⟩ := mem_collisions.mp he
    exact farthest_maxDistKm _
  · rw [hbySize p hp]
    rfl
  · rw [hbySize p hp]
    have hkeys : ((byHash p.1 (hashed p.1 all)).map Prod.fst).Perm _ := keys_tallies_perm _
    exact (List.length_map _).symm.trans hkeys.length_eq
  · exact ⟨_, _, List.mem_cons_self, rfl, fun hex => oneByteCells_perm⟩
  · exact ⟨_, _, List.mem_cons_of_mem _ List.mem_cons_self, rfl, matrix_twoByteCells⟩

end MeshcoreAnalyzer.PacketStore.HashCollisions

import Mathlib
import MeshcoreAnalyzer.HopOrder

namespace MeshcoreAnalyzer.NodeReach

open HopTiers Maps PacketStore

/-! Who heard whom, as cmd/server/node_reach.go reads it off the paths. -/

structure PathRow where
  observerPK : String
  fromPubkey : String
  payloadType : Int
  path : List String
  snr : ℚ
  snrValid : Bool

structure ObsAgg where
  count : Int
  snrSum : ℚ
  snrN : Int

structure DirCounts where
  we : GoMap String Int
  they : GoMap String Int
  obs : GoMap String ObsAgg
  relay : Int

section

variable (ourTokens : List String) (ourPK : String) (resolve : String → String)

def weHeard (r : PathRow) (pred : Option String) (d : DirCounts) : DirCounts :=
  match pred with
  | some tok => if resolve tok ≠ "" ∧ resolve tok ≠ ourPK then { d with we := incr d.we (resolve tok) } else d
  | none =>
      if r.payloadType = payloadADVERT ∧ r.fromPubkey ≠ "" ∧ r.fromPubkey ≠ ourPK then
        { d with we := incr d.we r.fromPubkey }
      else d

def addObs (r : PathRow) (a : ObsAgg) : ObsAgg where
  count := a.count + 1
  snrSum := if r.snrValid then a.snrSum + r.snr else a.snrSum
  snrN := if r.snrValid then a.snrN + 1 else a.snrN

def theyHeard (r : PathRow) (succ : Option String) (d : DirCounts) : DirCounts :=
  match succ with
  | some tok => if resolve tok ≠ "" ∧ resolve tok ≠ ourPK then { d with they := incr d.they (resolve tok) } else d
  | none =>
      if r.observerPK ≠ "" ∧ r.observerPK ≠ ourPK then
        { d with
          they := incr d.they r.observerPK
          obs := set d.obs r.observerPK (addObs r ((d.obs r.observerPK).getD ⟨0, 0, 0⟩)) }
      else d

def walkPath (r : PathRow) : Option String → List String → DirCounts → DirCounts
  | _, [], d => d
  | pred, tok :: rest, d =>
      walkPath r (some tok) rest (if tok ∈ ourTokens then
        theyHeard ourPK resolve r rest.head? (weHeard ourPK resolve r pred d) else d)

def addRow (d : DirCounts) (r : PathRow) : DirCounts :=
  let d := walkPath ourTokens ourPK resolve r none r.path d
  if r.path.any (· ∈ ourTokens) then { d with relay := d.relay + 1 } else d

def attributeDirections (rows : List PathRow) : DirCounts :=
  rows.foldl (addRow ourTokens ourPK resolve) ⟨Maps.empty, Maps.empty, Maps.empty, 0⟩

end

def entry (pm : Option NodeMap) (key : String) : List Node :=
  match pm with
  | some pm => bucket pm.m key
  | none => []

/-- The prefix of one, two and three bytes, where it has the node as its only candidate. -/
def reliableTokens (pubkey : String) (pm : Option NodeMap) : List String :=
  let lpk := toLower pubkey
  ([2, 4, 6].filter fun l => decide (l ≤ lpk.length)).filterMap fun l =>
    let p := String.ofList (lpk.toList.take l)
    match entry pm p with
    | [n] => if toLower n.publicKey = lpk then some p.toUpper else none
    | _ => none

def uniqueResolve (pm : Option NodeMap) (token : String) : String :=
  match entry pm (toLower token) with
  | [n] => toLower n.publicKey
  | _ => ""

structure HopToken where
  text : String
  upper : ∀ c ∈ text.toList, '0' ≤ c ∧ c ≤ '9' ∨ 'A' ≤ c ∧ c ≤ 'F'
  length : text.length = 2 ∨ text.length = 4 ∨ text.length = 6

theorem HopToken.toUpper_text (tok : HopToken) : tok.text.toUpper = tok.text := by
  apply String.toList_injective
  have hid : ∀ c ∈ tok.text.toList, c.toUpper = id c := by
    intro c hc
    apply Char.toUpper_eq_of_not_isLower
    rcases tok.upper c hc with ⟨-, hhi⟩ | ⟨-, hhi⟩ <;> rw [Char.le_def] at hhi <;> simp [Char.isLower] <;> grind
  rw [String.toUpper, String.toList_map, List.map_congr_left hid, List.map_id]

theorem toUpper_toLower (t : String) : (toLower t).toUpper = t.toUpper := by
  apply String.toList_injective
  simp [toLower, String.toUpper, String.toLower, String.toList_map]

theorem toLower_toUpper (t : String) : toLower t.toUpper = toLower t := by
  apply String.toList_injective
  simp [toLower, String.toUpper, String.toLower, String.toList_map]

theorem toLower_take (t : String) (l : Nat) :
    toLower (String.ofList ((toLower t).toList.take l)) = String.ofList ((toLower t).toList.take l) := by
  apply String.toList_injective
  simp [toLower, String.toLower, String.toList_map, List.map_take, Function.comp_def]

theorem prefix_of_mem {nodes : Option (List Node)} {nonRelay : Finset String} {n : Node} {k : String}
    (h : n ∈ entry (nodes.map (nodeMap nonRelay)) k) : k.toList <+: (toLower n.publicKey).toList := by
  cases nodes with
  | none => cases h
  | some nodes =>
  replace h : n ∈ bucket (buildPrefixMap nodes) k := h
  rw [bucket_buildPrefixMap, List.mem_flatMap] at h
  obtain ⟨m, -, hm⟩ := h
  split at hm
  · obtain ⟨hne, rfl⟩ := List.mem_replicate.mp hm
    have hk : k ∈ prefixKeys (toLower n.publicKey) := List.count_pos_iff.mp (Nat.pos_of_ne_zero hne)
    rcases List.mem_append.mp hk with hk | hk
    · obtain ⟨l, -, rfl⟩ := List.mem_map.mp hk
      rw [String.toList_ofList]
      exact List.take_prefix l _
    · split at hk
      · rw [List.mem_singleton.mp hk]
      · cases hk
  · cases hm

theorem mem_reliableTokens (nodes : Option (List Node)) (nonRelay : Finset String) (pubkey : String) (tok : HopToken) :
    tok.text ∈ reliableTokens pubkey (nodes.map (nodeMap nonRelay)) ↔
      uniqueResolve (nodes.map (nodeMap nonRelay)) tok.text = toLower pubkey ∧ toLower pubkey ≠ "" := by
  rw [reliableTokens, List.mem_filterMap]
  constructor
  · rintro ⟨l, hl, htok⟩
    obtain ⟨hmem, hlen⟩ := List.mem_filter.mp hl
    dsimp only at htok
    split at htok
    · next n hn =>
        obtain ⟨hpk, htext⟩ := Option.ite_none_right_eq_some.mp htok
        have hlower : toLower tok.text = String.ofList ((toLower pubkey).toList.take l) := by
          rw [← Option.some.inj htext, toLower_toUpper, toLower_take]
        constructor
        · rw [uniqueResolve, hlower, hn]
          exact hpk
        · rintro hempty
          rw [hempty] at hlen
          simp at hlen
          subst hlen
          simp at hmem
    · cases htok
  · rintro ⟨hresolve, hne⟩
    rw [uniqueResolve] at hresolve
    split at hresolve
    · next n hn =>
        have hprefix : (toLower tok.text).toList <+: (toLower pubkey).toList := by
          have hmem : n ∈ entry (nodes.map (nodeMap nonRelay)) (toLower tok.text) := by
            rw [hn]
            exact List.mem_singleton_self n
          rw [← hresolve]
          exact prefix_of_mem hmem
        have hkey : String.ofList ((toLower pubkey).toList.take tok.text.length) = toLower tok.text := by
          apply String.toList_injective
          rw [String.toList_ofList, ← length_toLower, ← String.length_toList]
          exact (List.prefix_iff_eq_take.mp hprefix).symm
        have hlen : tok.text.length ≤ (toLower pubkey).length := by
          rw [← length_toLower, ← String.length_toList, ← String.length_toList]
          exact hprefix.length_le
        refine ⟨tok.text.length, List.mem_filter.mpr ⟨?_, decide_eq_true hlen⟩, ?_⟩
        · rcases tok.length with h | h | h <;> simp [h]
        · simp only [hkey, hn, hresolve, if_true, toUpper_toLower, tok.toUpper_text]
    · exact absurd hresolve.symm hne

def adjacent (p : String → String → Bool) (path : List String) : Nat := (path.zip path.tail).countP fun e => p e.1 e.2

theorem adjacent_cons (p : String → String → Bool) (x : String) (path : List String) :
    adjacent p (x :: path) = (match path.head? with
      | some y => if p x y then 1 else 0
      | none => 0) + adjacent p path := by
  cases path with
  | nil => rfl
  | cons y path => simp [adjacent, List.countP_cons, Nat.add_comm]

/-- A row in which neither the observer nor the originator is told. -/
structure Sighting where
  payloadType : Int
  path : List HopToken
  snr : ℚ
  snrValid : Bool

def Sighting.row (o : Sighting) : PathRow where
  observerPK := ""
  fromPubkey := ""
  payloadType := o.payloadType
  path := o.path.map HopToken.text
  snr := o.snr
  snrValid := o.snrValid

section

variable {ourTokens : List String} {ourPK : String} {resolve : String → String} {o : Sighting}

def Counts (ourPK : String) (resolve : String → String) (k tok : String) : Prop :=
  resolve tok = k ∧ k ≠ "" ∧ k ≠ ourPK

instance (tok k : String) : Decidable (Counts ourPK resolve k tok) := inferInstanceAs (Decidable (_ ∧ _ ∧ _))

def met (ourPK : String) (resolve : String → String) (k : String) (neighbour : Option String) : Nat :=
  match neighbour with
  | some tok => if Counts ourPK resolve k tok then 1 else 0
  | none => 0

theorem they_weHeard (r : PathRow) (pred : Option String) (d : DirCounts) :
    (weHeard ourPK resolve r pred d).they = d.they := by
  unfold weHeard
  cases pred <;> simp only <;> split <;> rfl

theorem we_theyHeard (r : PathRow) (succ : Option String) (d : DirCounts) :
    (theyHeard ourPK resolve r succ d).we = d.we := by
  unfold theyHeard
  cases succ <;> simp only <;> split <;> rfl

theorem count_neighbour (m : GoMap String Int) (tok k : String) :
    count (if resolve tok ≠ "" ∧ resolve tok ≠ ourPK then incr m (resolve tok) else m) k =
      count m k + met ourPK resolve k (some tok) := by
  by_cases htok : resolve tok = k
  · subst htok
    by_cases hcounted : resolve tok ≠ "" ∧ resolve tok ≠ ourPK
    · simp [hcounted, met, Counts, count_incr]
    · rw [if_neg hcounted, met, if_neg fun h => hcounted h.2]
      simp
  · have hother : ¬Counts ourPK resolve k tok := fun h => htok h.1
    simp only [met, if_neg hother, Nat.cast_zero, add_zero]
    split
    · rw [count_incr, if_neg (Ne.symm htok)]
    · rfl

theorem we_weHeard (pred : Option String) (d : DirCounts) (k : String) :
    count (weHeard ourPK resolve o.row pred d).we k = count d.we k + met ourPK resolve k pred := by
  cases pred with
  | none => simp [weHeard, met, Sighting.row]
  | some tok =>
      rw [← count_neighbour, weHeard]
      split <;> rfl

theorem they_theyHeard (succ : Option String) (d : DirCounts) (k : String) :
    count (theyHeard ourPK resolve o.row succ d).they k = count d.they k + met ourPK resolve k succ := by
  cases succ with
  | none => simp [theyHeard, met, Sighting.row]
  | some tok =>
      rw [← count_neighbour, theyHeard]
      split <;> rfl

theorem they_walkPath (pred : Option String) (path : List String) (d : DirCounts) (k : String) :
    count (walkPath ourTokens ourPK resolve o.row pred path d).they k =
      count d.they k + adjacent (fun x y => x ∈ ourTokens ∧ Counts ourPK resolve k y) path := by
  induction path generalizing pred d with
  | nil => simp [walkPath, adjacent]
  | cons x path ih =>
      rw [walkPath, ih, adjacent_cons]
      by_cases hx : x ∈ ourTokens
      · rw [if_pos hx, they_theyHeard, they_weHeard]
        cases path.head? <;> simp [met, hx, add_assoc]
      · rw [if_neg hx]
        cases path.head? <;> simp [hx]

theorem we_walkPath (pred : Option String) (path : List String) (d : DirCounts) (k : String) :
    count (walkPath ourTokens ourPK resolve o.row pred path d).we k =
      count d.we k + adjacent (fun x y => y ∈ ourTokens ∧ Counts ourPK resolve k x) (pred.toList ++ path) := by
  induction path generalizing pred d with
  | nil => cases pred <;> simp [walkPath, adjacent]
  | cons x path ih =>
      have hpred : adjacent (fun x y => y ∈ ourTokens ∧ Counts ourPK resolve k x) (pred.toList ++ x :: path) =
          (if x ∈ ourTokens then met ourPK resolve k pred else 0) +
            adjacent (fun x y => y ∈ ourTokens ∧ Counts ourPK resolve k x) (x :: path) := by
        cases pred with
        | none => simp [met]
        | some y =>
            rw [Option.toList_some, List.singleton_append, adjacent_cons]
            by_cases hx : x ∈ ourTokens <;> simp [met, hx]
      rw [walkPath, ih, hpred, Option.toList_some, List.singleton_append]
      by_cases hx : x ∈ ourTokens
      · rw [if_pos hx, if_pos hx, we_theyHeard, we_weHeard, add_assoc, Nat.cast_add]
      · rw [if_neg hx, if_neg hx, zero_add]

theorem they_addRow (d : DirCounts) (k : String) : count (addRow ourTokens ourPK resolve d o.row).they k =
    count d.they k + adjacent (fun x y => x ∈ ourTokens ∧ Counts ourPK resolve k y) (o.path.map HopToken.text) := by
  rw [← they_walkPath none]
  unfold addRow
  dsimp only
  split <;> rfl

theorem we_addRow (d : DirCounts) (k : String) : count (addRow ourTokens ourPK resolve d o.row).we k =
    count d.we k + adjacent (fun x y => y ∈ ourTokens ∧ Counts ourPK resolve k x) (o.path.map HopToken.text) := by
  have hwalk : count (walkPath ourTokens ourPK resolve o.row none (o.path.map HopToken.text) d).we k = _ :=
    we_walkPath none (o.path.map HopToken.text) d k
  rw [Option.toList_none, List.nil_append] at hwalk
  rw [← hwalk]
  unfold addRow
  dsimp only
  split <;> rfl

theorem they_attributeDirections (sightings : List Sighting) (k : String) :
    count (attributeDirections ourTokens ourPK resolve (sightings.map Sighting.row)).they k =
      ((sightings.map fun o => adjacent (fun x y => x ∈ ourTokens ∧ Counts ourPK resolve k y)
        (o.path.map HopToken.text)).sum : Nat) := by
  rw [attributeDirections]
  induction sightings using List.reverseRecOn with
  | nil => rfl
  | append_singleton sightings o ih =>
      rw [List.map_append, List.map_singleton, List.foldl_concat, they_addRow, ih, List.map_append, List.sum_append]
      simp

theorem we_attributeDirections (sightings : List Sighting) (k : String) :
    count (attributeDirections ourTokens ourPK resolve (sightings.map Sighting.row)).we k =
      ((sightings.map fun o => adjacent (fun x y => y ∈ ourTokens ∧ Counts ourPK resolve k x)
        (o.path.map HopToken.text)).sum : Nat) := by
  rw [attributeDirections]
  induction sightings using List.reverseRecOn with
  | nil => rfl
  | append_singleton sightings o ih =>
      rw [List.map_append, List.map_singleton, List.foldl_concat, we_addRow, ih, List.map_append, List.sum_append]
      simp

end

theorem adjacent_map_congr {p q : String → String → Bool} {path : List HopToken}
    (h : ∀ x y : HopToken, p x.text y.text = q x.text y.text) :
    adjacent p (path.map HopToken.text) = adjacent q (path.map HopToken.text) := by
  rw [adjacent, adjacent, ← List.map_tail, List.zip_map, List.countP_map, List.countP_map]
  apply List.countP_congr
  intro e _
  exact Bool.eq_iff_iff.mp (h e.1 e.2)

/-- How often a hop that can only be A comes right before one that can only be B. -/
def heardBy (pm : Option NodeMap) (a b : String) (o : Sighting) : Nat :=
  adjacent (fun x y => (uniqueResolve pm x = a ∧ a ≠ "") ∧ (uniqueResolve pm y = b ∧ b ≠ "") ∧ b ≠ a)
    (o.path.map HopToken.text)

/-- What A counts as heard by B is what B counts as heard from A, whatever hops repeat, collide or are unknown: it is
how often A comes right before B. -/
theorem they_eq_we (nodes : Option (List Node)) (nonRelay : Finset String) (sightings : List Sighting) (a b : String) :
    let pm := nodes.map (nodeMap nonRelay)
    let rows := sightings.map Sighting.row
    count (attributeDirections (reliableTokens a pm) (toLower a) (uniqueResolve pm) rows).they (toLower b) =
        count (attributeDirections (reliableTokens b pm) (toLower b) (uniqueResolve pm) rows).we (toLower a) ∧
      count (attributeDirections (reliableTokens a pm) (toLower a) (uniqueResolve pm) rows).they (toLower b) =
        ((sightings.map (heardBy pm (toLower a) (toLower b))).sum : Nat) := by
  intro pm rows
  have hthey : ∀ o : Sighting, adjacent
      (fun x y => x ∈ reliableTokens a pm ∧ Counts (toLower a) (uniqueResolve pm) (toLower b) y)
      (o.path.map HopToken.text) = heardBy pm (toLower a) (toLower b) o := by
    intro o
    apply adjacent_map_congr
    intro x y
    simp only [mem_reliableTokens nodes nonRelay a x, pm, Counts, and_assoc]
  have hwe : ∀ o : Sighting, adjacent
      (fun x y => y ∈ reliableTokens b pm ∧ Counts (toLower b) (uniqueResolve pm) (toLower a) x)
      (o.path.map HopToken.text) = heardBy pm (toLower a) (toLower b) o := by
    intro o
    apply adjacent_map_congr
    intro x y
    simp only [mem_reliableTokens nodes nonRelay b y, pm, Counts, decide_eq_decide]
    constructor
    · rintro ⟨hy, hx, ha, hne⟩
      exact ⟨⟨hx, ha⟩, hy, Ne.symm hne⟩
    · rintro ⟨⟨hx, ha⟩, hy, hne⟩
      exact ⟨hy, hx, ha, Ne.symm hne⟩
  rw [they_attributeDirections, we_attributeDirections, funext hthey, funext hwe]
  exact ⟨rfl, rfl⟩

end MeshcoreAnalyzer.NodeReach

import MeshcoreAnalyzer.PathBacking
import MeshcoreAnalyzer.SubpathAnalytics

namespace MeshcoreAnalyzer.PacketStore.DisplayedHops

open StoreTx SubpathAnalytics

/-! The hops of a transmission as `handleNodePaths` of cmd/server/routes.go displays them, from the resolution that is
stored with one of its observations. -/

structure PathHopResp where
  hop : String
  pubkey : Option String
  deriving DecidableEq

/-- Only a node that has the whole key is taken; `resolve` is that of the prefix map. -/
def lookupNode (resolve : String → Option NodeInfo) (pk : String) : Option NodeInfo :=
  (resolve (toLower pk)).filter fun n => toLower n.publicKey = toLower pk

def canonicalHop (resolve : String → Option NodeInfo) (hop : String) (resolved : Option String) : PathHopResp :=
  let resolvedPK := toLower (resolved.getD "")
  if resolvedPK = "" then { hop, pubkey := none }
  else { hop, pubkey := some (((lookupNode resolve resolvedPK).map NodeInfo.publicKey).getD resolvedPK) }

def canonicalHops (resolve : String → Option NodeInfo) (hops : List String) (rp : List (Option String)) :
    List PathHopResp :=
  hops.zipIdx.map fun p => canonicalHop resolve p.1 rp[p.2]?.join

/-- The display of the current path, where a resolution is stored. -/
def displayedHops (db : PathDB) (resolve : String → Option NodeInfo) (tx : StoreTx) : Option (List PathHopResp) :=
  (db.fetchResolvedPathForTxBest tx).map (canonicalHops resolve tx.pickBestObservation.txGetParsedPath)

def Parallel (hops : List String) (rp : List (Option String)) : Prop :=
  ∀ (i : Nat) (pk : String), rp[i]? = some (some pk) → ∃ hop, hops[i]? = some hop ∧ (toLower hop).toList <+: pk.toList

/-- The resolutions are stored beside the paths of their own observations. -/
def StoredParallel (db : PathDB) (tx : StoreTx) : Prop :=
  ∀ obs ∈ tx.observations, ∀ rp, db.fetchResolvedPathForObs obs.id = some rp →
    Parallel (parsePathJSON obs.pathJSON) rp

/-- Each key that is displayed begins with its hop. -/
def HopsMatch (entries : List PathHopResp) : Prop :=
  ∀ e ∈ entries, ∀ pk, e.pubkey = some pk → (toLower e.hop).toList <+: (toLower pk).toList

def longest : List StoreObs → Option StoreObs
  | [] => none
  | first :: rest => some (bestObservation first rest)

/-- The observation whose resolution stands in for that of the best one: the first longest with a stored one. -/
def sibling (db : PathDB) (tx : StoreTx) : Option StoreObs :=
  longest (tx.observations.filter fun obs => (db.fetchResolvedPathsForTx tx.id obs.id).isSome)

/-- Beside a hop of another path stands a key that begins with that hop; it begins with this hop too. -/
def Continues (hop hop' pk : String) : Prop :=
  if hop.length ≤ hop'.length then (toLower hop).toList <+: (toLower hop').toList
  else (toLower hop).toList <+: (toLower pk).toList

/-- The two paths go along at every place where the resolution of the second has a key. -/
def SamePlaces (hops hops' : List String) (rp : List (Option String)) : Prop :=
  ∀ (i : Nat) (hop hop' pk : String), hops[i]? = some hop → hops'[i]? = some hop' → rp[i]? = some (some pk) → pk ≠ "" →
    Continues hop hop' pk

/-- The best observation has a resolution of its own, or the path of the one that stands in goes along with its
path. -/
def Aligned (db : PathDB) (tx : StoreTx) : Prop :=
  ∀ best, longest tx.observations = some best → db.fetchResolvedPathForObs best.id = none →
    ∀ obs, sibling db tx = some obs → ∀ rp, db.fetchResolvedPathForObs obs.id = some rp →
      SamePlaces (parsePathJSON best.pathJSON) (parsePathJSON obs.pathJSON) rp

theorem toLower_eq_empty {s : String} : toLower s = "" ↔ s = "" := by
  rw [← String.toList_inj, toList_toLower, String.toList_empty, List.map_eq_nil_iff, String.toList_eq_nil_iff]

theorem begins_toLower {hop pk : String} (h : (toLower hop).toList <+: pk.toList) :
    (toLower hop).toList <+: (toLower pk).toList := by
  have hmap := h.map Char.toLower
  rwa [← toList_toLower, toLower_toLower, ← toList_toLower] at hmap

theorem hop_canonicalHop (resolve : String → Option NodeInfo) (hop : String) (resolved : Option String) :
    (canonicalHop resolve hop resolved).hop = hop := by
  rw [canonicalHop]
  split <;> rfl

theorem pubkey_canonicalHop (resolve : String → Option NodeInfo) (hop : String) (resolved : Option String) :
    (canonicalHop resolve hop resolved).pubkey.map toLower =
      if toLower (resolved.getD "") = "" then none else some (toLower (resolved.getD "")) := by
  rw [canonicalHop]
  split
  · rfl
  · rw [Option.map_some, Option.some_inj]
    cases hnode : lookupNode resolve (toLower (resolved.getD "")) with
    | none => exact toLower_toLower _
    | some n =>
        obtain ⟨-, hsame⟩ := Option.filter_eq_some_iff.mp hnode
        rw [Option.map_some, Option.getD_some, of_decide_eq_true hsame, toLower_toLower]

theorem hopsMatch_iff (resolve : String → Option NodeInfo) (hops : List String) (rp : List (Option String)) :
    HopsMatch (canonicalHops resolve hops rp) ↔
      ∀ (i : Nat) (hop pk : String), hops[i]? = some hop → rp[i]? = some (some pk) → pk ≠ "" →
        (toLower hop).toList <+: (toLower pk).toList := by
  constructor
  · intro h i hop pk hhop hpk hne
    have hmem : canonicalHop resolve hop rp[i]?.join ∈ canonicalHops resolve hops rp :=
      List.mem_map.mpr ⟨(hop, i), List.mem_zipIdx_iff_getElem?.mpr hhop, rfl⟩
    have hkey := pubkey_canonicalHop resolve hop rp[i]?.join
    rw [hpk, Option.join_some, Option.getD_some, if_neg (mt toLower_eq_empty.mp hne)] at hkey
    rw [hpk, Option.join_some] at hmem
    obtain ⟨shown, hshown, hsame⟩ := Option.map_eq_some_iff.mp hkey
    have hbegins := h _ hmem shown hshown
    rwa [hop_canonicalHop, hsame] at hbegins
  · intro h e he shown hshown
    obtain ⟨⟨hop, i⟩, hi, rfl⟩ := List.mem_map.mp he
    have hkey := pubkey_canonicalHop resolve hop rp[i]?.join
    rw [hshown, Option.map_some] at hkey
    obtain ⟨hne, hsame⟩ := Option.ite_none_left_eq_some.mp hkey.symm
    rw [hop_canonicalHop, ← Option.some.inj hsame]
    cases hentry : rp[i]?.join with
    | none =>
        rw [hentry] at hne
        exact absurd (toLower_eq_empty.mpr rfl) hne
    | some pk =>
        rw [hentry, Option.getD_some] at hne
        exact h i hop pk (List.mem_zipIdx_iff_getElem?.mp hi) (Option.join_eq_some_iff.mp hentry)
          (mt toLower_eq_empty.mpr hne)

theorem Parallel.hopsMatch {hops : List String} {rp : List (Option String)} (h : Parallel hops rp)
    (resolve : String → Option NodeInfo) : HopsMatch (canonicalHops resolve hops rp) := by
  rw [hopsMatch_iff]
  intro i hop pk hhop hpk _
  obtain ⟨hop', hhop', hbegins⟩ := h i pk hpk
  rw [hhop] at hhop'
  rw [Option.some.inj hhop']
  exact begins_toLower hbegins

theorem continues_iff {hop hop' pk : String} (h : (toLower hop').toList <+: (toLower pk).toList) :
    Continues hop hop' pk ↔ (toLower hop).toList <+: (toLower pk).toList := by
  rw [Continues]
  split
  next hle =>
    refine ⟨fun hshort => hshort.trans h, fun hkey => List.prefix_of_prefix_length_le hkey h ?_⟩
    rw [String.length_toList, String.length_toList, length_toLower, length_toLower]
    exact hle
  next => rfl

theorem Parallel.hopsMatch_iff {hops hops' : List String} {rp : List (Option String)} (h : Parallel hops' rp)
    (resolve : String → Option NodeInfo) :
    HopsMatch (canonicalHops resolve hops rp) ↔ SamePlaces hops hops' rp := by
  rw [DisplayedHops.hopsMatch_iff, SamePlaces]
  constructor
  · intro hmatch i hop hop' pk hhop hhop' hpk hne
    obtain ⟨own, hown, hbegins⟩ := h i pk hpk
    rw [hhop'] at hown
    rw [← Option.some.inj hown] at hbegins
    exact (continues_iff (begins_toLower hbegins)).mpr (hmatch i hop pk hhop hpk hne)
  · intro hsame i hop pk hhop hpk hne
    obtain ⟨hop', hhop', hbegins⟩ := h i pk hpk
    exact (continues_iff (begins_toLower hbegins)).mp (hsame i hop hop' pk hhop hhop' hpk hne)

section Shown

variable {db : PathDB} {tx : StoreTx}

theorem longest_mem {l : List StoreObs} {obs : StoreObs} (h : longest l = some obs) : obs ∈ l := by
  cases l with
  | nil => cases h
  | cons first rest =>
      rw [← Option.some.inj h]
      exact bestObservation_mem first rest

theorem bestObservation_cons (best obs : StoreObs) (rest : List StoreObs) : bestObservation best (obs :: rest) =
    bestObservation (if pathLen best.pathJSON < pathLen obs.pathJSON then obs else best) rest := rfl

theorem fetchResolvedPathForObs_of_tx {txID obsID : Int} {rp : List (Option String)}
    (h : db.fetchResolvedPathsForTx txID obsID = some rp) : db.fetchResolvedPathForObs obsID = some rp := by
  obtain ⟨row, hrow, hdecoded⟩ := Option.bind_eq_some_iff.mp h
  have hfound : row.transmissionID = txID ∧ row.id = obsID := by simpa using List.find?_some hrow
  have hmem := List.mem_of_find?_eq_some hrow
  have hfirst : (db.observations.find? fun q => q.id = obsID) = some row := by
    cases hf : db.observations.find? fun q => q.id = obsID with
    | none => exact absurd (decide_eq_true hfound.2) (List.find?_eq_none.mp hf row hmem)
    | some q =>
        have hq : q.id = obsID := by simpa using List.find?_some hf
        rw [List.inj_on_of_nodup_map db.ids (List.mem_of_find?_eq_some hf) hmem (hq.trans hfound.2.symm)]
  rw [PathDB.fetchResolvedPathForObs, hfirst]
  exact hdecoded

theorem foldl_longerStored (txID : Int) (obs : List StoreObs) (best : StoreObs) :
    (obs.foldl (db.longerStored txID) (pathLen best.pathJSON, db.fetchResolvedPathsForTx txID best.id)).2 =
      db.fetchResolvedPathsForTx txID
        (bestObservation best (obs.filter fun o => (db.fetchResolvedPathsForTx txID o.id).isSome)).id := by
  induction obs generalizing best with
  | nil => rfl
  | cons o obs ih =>
      rw [List.foldl_cons, List.filter_cons, PathDB.longerStored]
      cases hfetch : db.fetchResolvedPathsForTx txID o.id with
      | none => exact ih best
      | some rp =>
          rw [Option.isSome_some, if_pos rfl]
          dsimp only
          by_cases hlen : pathLen best.pathJSON < pathLen o.pathJSON
          · rw [if_pos (Int.ofNat_lt.mpr hlen), bestObservation_cons, if_pos hlen, ← ih o, hfetch]
          · rw [if_neg (mt Int.ofNat_lt.mp hlen), bestObservation_cons, if_neg hlen, ← ih best]

theorem foldl_longerStored_nothing (txID : Int) (obs : List StoreObs) :
    (obs.foldl (db.longerStored txID) (-1, none)).2 =
      (longest (obs.filter fun o => (db.fetchResolvedPathsForTx txID o.id).isSome)).bind fun o =>
        db.fetchResolvedPathsForTx txID o.id := by
  induction obs with
  | nil => rfl
  | cons o obs ih =>
      rw [List.foldl_cons, List.filter_cons, PathDB.longerStored]
      cases hfetch : db.fetchResolvedPathsForTx txID o.id with
      | none => exact ih
      | some rp =>
          rw [Option.isSome_some, if_pos rfl]
          dsimp only
          rw [if_pos (by omega), ← hfetch]
          exact foldl_longerStored txID obs o

theorem fetchResolvedPathForTxBest_eq (db : PathDB) (tx : StoreTx) : db.fetchResolvedPathForTxBest tx =
    (longest tx.observations).bind fun best => (db.fetchResolvedPathForObs best.id).or
      ((sibling db tx).bind fun obs => db.fetchResolvedPathForObs obs.id) := by
  have hsibling : ((sibling db tx).bind fun obs => db.fetchResolvedPathForObs obs.id) =
      (tx.observations.foldl (db.longerStored tx.id) (-1, none)).2 := by
    rw [foldl_longerStored_nothing, sibling]
    refine Option.bind_congr fun obs hobs => ?_
    obtain ⟨rp, hrp⟩ := Option.isSome_iff_exists.mp (List.mem_filter.mp (longest_mem hobs)).2
    rw [hrp, fetchResolvedPathForObs_of_tx hrp]
  rw [hsibling, PathDB.fetchResolvedPathForTxBest]
  cases tx.observations with
  | nil => rfl
  | cons first rest =>
      rw [longest, Option.bind_some]
      dsimp only
      cases db.fetchResolvedPathForObs (bestObservation first rest).id <;> rfl

theorem pathJSON_pickBestObservation {best : StoreObs} (h : longest tx.observations = some best) :
    tx.pickBestObservation.txGetParsedPath = parsePathJSON best.pathJSON := by
  rw [txGetParsedPath_eq, StoreTx.pickBestObservation]
  split
  next heq =>
    rw [heq] at h
    cases h
  next first rest heq =>
    rw [heq] at h
    rw [← Option.some.inj h]

end Shown

/-- Where every resolution is parallel to the path of its own observation, each key that is displayed begins with its
hop if and only if the best observation has a resolution, or none has, or the path of the sibling that stands in goes
along with the current path. -/
theorem displayedHops_match_iff (db : PathDB) (resolve : String → Option NodeInfo) (tx : StoreTx)
    (hstored : StoredParallel db tx) :
    (∀ entries, displayedHops db resolve tx = some entries → HopsMatch entries) ↔ Aligned db tx := by
  simp only [displayedHops, fetchResolvedPathForTxBest_eq, Option.map_eq_some_iff]
  rw [Aligned]
  constructor
  · intro h best hbest hnone obs hobs rp hrp
    have hmatch := h _ ⟨rp, by rw [hbest, Option.bind_some, hnone, hobs]; exact hrp, rfl⟩
    rw [pathJSON_pickBestObservation hbest] at hmatch
    have hmem := (List.mem_filter.mp (longest_mem hobs)).1
    exact ((hstored obs hmem rp hrp).hopsMatch_iff resolve).mp hmatch
  · rintro h entries ⟨rp, hrp, rfl⟩
    obtain ⟨best, hbest, hor⟩ := Option.bind_eq_some_iff.mp hrp
    rw [pathJSON_pickBestObservation hbest]
    cases hown : db.fetchResolvedPathForObs best.id with
    | some own =>
        rw [hown, Option.some_or, Option.some_inj] at hor
        subst hor
        exact (hstored best (longest_mem hbest) own hown).hopsMatch resolve
    | none =>
        rw [hown, Option.none_or] at hor
        obtain ⟨obs, hobs, hfetch⟩ := Option.bind_eq_some_iff.mp hor
        have hmem := (List.mem_filter.mp (longest_mem hobs)).1
        exact ((hstored obs hmem rp hfetch).hopsMatch_iff resolve).mpr (h best hbest hown obs hobs rp hfetch)

def heardOver (id : Int) (pathJSON : String) : StoreObs :=
  ⟨id, 1, "", "", "", "", none, none, none, pathJSON, ""⟩

def longObs : StoreObs := heardOver 1 "[\"aa\",\"bb\"]"

def shortObs : StoreObs := heardOver 2 "[\"cc\"]"

def shortDB : PathDB where
  observations := [⟨1, 1, longObs.pathJSON, none⟩, ⟨2, 1, shortObs.pathJSON, some "[\"cc01\"]"⟩]
  ids := by decide
  hashOf _ := ""
  idOf _ := 1

def heardTx : StoreTx := StoreTx.ofRow ⟨1, "", "", "", none, none, "", none⟩

theorem fetch_shortObs : shortDB.fetchResolvedPathForObs shortObs.id = some [some "cc01"] := by decide +kernel

theorem parallel_shortObs {rp : List (Option String)} (h : shortDB.fetchResolvedPathForObs shortObs.id = some rp) :
    Parallel (parsePathJSON shortObs.pathJSON) rp := by
  rw [fetch_shortObs] at h
  obtain rfl := Option.some.inj h
  have hpath : parsePathJSON shortObs.pathJSON = ["cc"] := by decide +kernel
  have hbegins : (toLower "cc").toList <+: "cc01".toList := by decide +kernel
  intro i pk hpk
  rw [hpath]
  cases i with
  | zero =>
      obtain rfl : "cc01" = pk := by simpa using hpk
      exact ⟨"cc", rfl, hbegins⟩
  | succ i => cases hpk

/-- The short path alone. -/
theorem displayedHops_match_short :
    ∃ entries, displayedHops shortDB (fun _ => none) (heardTx.addObs shortObs) = some entries ∧ HopsMatch entries := by
  have hfetch : shortDB.fetchResolvedPathForTxBest (heardTx.addObs shortObs) = some [some "cc01"] := by decide +kernel
  refine ⟨_, congrArg (Option.map _) hfetch, ?_⟩
  refine (displayedHops_match_iff shortDB (fun _ => none) (heardTx.addObs shortObs) ?_).mpr ?_ _
    (congrArg (Option.map _) hfetch)
  · intro obs hobs rp hrp
    obtain rfl : obs = shortObs := List.mem_singleton.mp hobs
    exact parallel_shortObs hrp
  · intro best hbest hnone
    obtain rfl : shortObs = best := Option.some.inj hbest
    rw [fetch_shortObs] at hnone
    cases hnone

/-- Both: the hop "aa" is displayed as "cc01". -/
theorem not_displayedHops_match : ¬ ∀ db resolve tx, StoredParallel db tx →
    ∀ entries, displayedHops db resolve tx = some entries → HopsMatch entries := by
  intro h
  have hstored : StoredParallel shortDB ((heardTx.addObs longObs).addObs shortObs) := by
    intro obs hobs rp hrp
    obtain rfl | rfl : obs = longObs ∨ obs = shortObs := by simpa using List.mem_pair.mp hobs
    · cases hrp
    · exact parallel_shortObs hrp
  have hfetch : shortDB.fetchResolvedPathForTxBest ((heardTx.addObs longObs).addObs shortObs) = some [some "cc01"] := by
    decide +kernel
  have hmatch := h shortDB (fun _ => none) _ hstored _ (congrArg (Option.map _) hfetch)
  rw [hopsMatch_iff] at hmatch
  have hbegins := hmatch 0 "aa" "cc01" (by decide +kernel) rfl (by decide)
  exact absurd hbegins (by decide +kernel)

end MeshcoreAnalyzer.PacketStore.DisplayedHops

import MeshcoreAnalyzer.Distances
import MeshcoreAnalyzer.Joins
import MeshcoreAnalyzer.Readers
import MeshcoreAnalyzer.SubpathExactness
import MeshcoreAnalyzer.Windows
import Mathlib.Algebra.BigOperators.Group.List.Lemmas
import Mathlib.Algebra.BigOperators.Ring.Finset

namespace MeshcoreAnalyzer.PacketStore.SubpathAnalytics

open Maps Distances Store Windows Joins SubpathExactness

/-! The subpath analytics of cmd/server/store.go, by the subpath index and by the
paths of the packets, and when the two come to the same. -/

structure SubpathAccum where
  count : Int
  raw : String

/-- What goes to `rankSubpaths`, which sorts the subpaths and cuts their list. -/
structure SubpathCounts where
  counts : GoMap String SubpathAccum
  totalPaths : Int

/-- What is read besides the store; `regions` is `resolveRegionObservers`. -/
structure Context where
  lib : Library
  net : Network
  regions : String → Option (String → Bool)

def buildAggregateHopContextPubkeys (pm : PrefixMap) (txs : List StoreTx) : List String :=
  Firsts.firsts id [] (txs.flatMap (buildHopContextPubkeys pm))

/-- The node that the closures `resolveHop` find; their cache makes no difference. -/
def resolvedNode (net : Network) (s : Store) (hop : String) : Option DistNode :=
  net.resolveWithContext hop (buildAggregateHopContextPubkeys net.pm (s.packets.map s.heap))

def resolveHop (net : Network) (s : Store) (hop : String) : String :=
  match resolvedNode net s hop with
  | some r => r.name
  | none => hop

/-- `strings.Join(named, " → ")` -/
def joinNames (named : List String) : String := " → ".intercalate named

/-- `strings.Split(rawKey, ",")` -/
def splitKey (rawKey : String) : List String := (rawKey.toList.splitOn ',').map String.ofList

def addCount (m : GoMap String SubpathAccum) (sub raw : String) (n : Int) : GoMap String SubpathAccum :=
  let entry := (m sub).getD ⟨0, raw⟩
  set m sub { entry with count := entry.count + n }

def countPath (resolveHop : String → String) (minLen maxLen : Nat) (m : GoMap String SubpathAccum)
    (hops : List String) : GoMap String SubpathAccum :=
  (windows minLen maxLen hops).foldl
    (fun m w => addCount m (joinNames (w.map resolveHop)) (",".intercalate w) 1) m

def observedIn (regionObs : Option (String → Bool)) (tx : StoreTx) : Bool :=
  match regionObs with
  | some regionObs => tx.observations.any fun obs => regionObs obs.observerID
  | none => true

/-- The loop over the packets; `included` are the tests that differ. -/
def countPaths (s : Store) (resolveHop : String → String) (minLen maxLen : Nat) (included : TxRef → Bool) :
    SubpathCounts :=
  s.packets.foldl (fun acc r =>
    if included r && hasSubpaths (s.path r) then
      ⟨countPath resolveHop minLen maxLen acc.counts (s.path r), acc.totalPaths + 1⟩
    else acc) ⟨Maps.empty, 0⟩

def computeSubpathsSlow (ctx : Context) (s : Store) (region : String) (minLen maxLen : Nat)
    (resolveHop : String → String) : SubpathCounts :=
  countPaths s resolveHop minLen maxLen fun r => observedIn (ctx.regions region) (s.heap r)

def computeAnalyticsSubpathsWindowed (ctx : Context) (s : Store) (region : String) (minLen maxLen : Nat)
    (window : TimeWindow) : SubpathCounts :=
  let regionObs := if region ≠ "" then ctx.regions region else none
  countPaths s (resolveHop ctx.net s) minLen maxLen fun r =>
    window.includes ctx.lib (s.row r).firstSeen && observedIn regionObs (s.heap r)

def countKey (resolveHop : String → String) (spIndex : GoMap String Int) (minLen maxLen : Nat)
    (m : GoMap String SubpathAccum) (rawKey : String) : GoMap String SubpathAccum :=
  let hops := splitKey rawKey
  if hops.length < minLen ∨ maxLen < hops.length then m
  else addCount m (joinNames (hops.map resolveHop)) rawKey (count spIndex rawKey)

/-- `keys` are those of the index, as the range over it comes to them. -/
def computeAnalyticsSubpaths (ctx : Context) (s : Store) (keys : List String) (region : String)
    (minLen maxLen : Nat) : SubpathCounts :=
  if region ≠ "" then computeSubpathsSlow ctx s region minLen maxLen (resolveHop ctx.net s)
  else
    ⟨keys.foldl (countKey (resolveHop ctx.net s) s.subpaths.spIndex minLen maxLen) Maps.empty, s.spTotalPaths⟩

structure SubpathGroup where
  minLen : Nat
  maxLen : Nat

def getAnalyticsSubpathsBulk (ctx : Context) (s : Store) (keys : List String) (region : String)
    (groups : List SubpathGroup) : List SubpathCounts :=
  if region ≠ "" then groups.map fun g => computeAnalyticsSubpaths ctx s keys region g.minLen g.maxLen
  else
    let perGroup := keys.foldl (fun perGroup rawKey =>
      groups.zipWith (fun g m =>
        countKey (resolveHop ctx.net s) s.subpaths.spIndex g.minLen g.maxLen m rawKey) perGroup)
      (groups.map fun _ => Maps.empty)
    perGroup.map fun counts => ⟨counts, s.spTotalPaths⟩

def tally (m : GoMap String SubpathAccum) : GoMap String Int := fun k => (m k).map (·.count)

theorem tally_addCount (m : GoMap String SubpathAccum) (sub raw : String) (n : Int) :
    tally (addCount m sub raw n) = set (tally m) sub (count (tally m) sub + n) := by
  funext k
  rw [tally, addCount, set_apply, set_apply]
  split
  · next hk =>
      subst hk
      rw [count, tally]
      cases m k <;> rfl
  · rfl

section Counting

variable {β : Type} (sub raw : β → String) (n : β → Int)

theorem count_tally_foldl (l : List β) (m : GoMap String SubpathAccum) (k : String) :
    count (tally (l.foldl (fun m b => addCount m (sub b) (raw b) (n b)) m)) k =
      count (tally m) k + ((l.filter fun b => sub b = k).map n).sum := by
  induction l generalizing m with
  | nil => simp
  | cons b l ih =>
      rw [List.foldl_cons, ih, tally_addCount, count, set_apply]
      by_cases hb : sub b = k
      · subst hb
        rw [if_pos rfl, List.filter_cons_of_pos (by simp), List.map_cons, List.sum_cons, Option.getD_some]
        exact Int.add_assoc _ _ _
      · rw [if_neg (Ne.symm hb), List.filter_cons_of_neg (by simpa using hb)]
        rfl

theorem positive_tally_empty : Positive (tally Maps.empty) := positive_empty

theorem positive_tally_foldl {l : List β} (hn : ∀ b ∈ l, 0 < n b) {m : GoMap String SubpathAccum}
    (hm : Positive (tally m)) : Positive (tally (l.foldl (fun m b => addCount m (sub b) (raw b) (n b)) m)) := by
  induction l generalizing m with
  | nil => exact hm
  | cons b l ih =>
      apply ih fun c hc => hn c (List.mem_cons_of_mem b hc)
      rw [tally_addCount]
      intro k i hi
      rcases set_eq_some.mp hi with ⟨rfl, rfl⟩ | ⟨_, hi⟩
      · have hpos := hn b List.mem_cons_self
        have hnonneg := hm.count_nonneg (sub b)
        omega
      · exact hm k i hi

end Counting

theorem eq_of_count_eq {m m' : GoMap String Int} (hm : Positive m) (hm' : Positive m')
    (h : ∀ k, count m k = count m' k) : m = m' := by
  funext k
  have hk := h k
  unfold count at hk
  cases hmk : m k with
  | none =>
      cases hmk' : m' k with
      | none => rfl
      | some j =>
          have hpos := hm' k j hmk'
          rw [hmk, hmk', Option.getD_none, Option.getD_some] at hk
          omega
  | some i =>
      have hpos := hm k i hmk
      rw [hmk, Option.getD_some] at hk
      cases hmk' : m' k with
      | none =>
          rw [hmk', Option.getD_none] at hk
          omega
      | some j =>
          rw [hmk', Option.getD_some] at hk
          rw [hk]

def parts (s : Store) (minLen maxLen : Nat) : List (List String) :=
  s.packets.flatMap fun r => windows minLen maxLen (s.path r)

theorem windows_of_not_hasSubpaths {hops : List String} (h : hasSubpaths hops = false) {minLen maxLen : Nat}
    (hmin : 2 ≤ minLen) : windows minLen maxLen hops = [] := by
  have hlen : hops.length < 2 := by simpa [hasSubpaths] using h
  apply List.eq_nil_iff_forall_not_mem.mpr
  intro w hw
  obtain ⟨n, hn, _, hle, _⟩ := mem_windows.mp hw
  omega

theorem foldl_countPath {s : Store} {included : TxRef → Bool} (name : String → String) {minLen : Nat}
    (hmin : 2 ≤ minLen) (maxLen : Nat) {rs : List TxRef} (hall : ∀ r ∈ rs, included r = true)
    (acc : SubpathCounts) :
    rs.foldl (fun acc r =>
      if included r && hasSubpaths (s.path r) then
        ⟨countPath name minLen maxLen acc.counts (s.path r), acc.totalPaths + 1⟩
      else acc) acc =
      ⟨(rs.flatMap fun r => windows minLen maxLen (s.path r)).foldl
        (fun m w => addCount m (joinNames (w.map name)) (",".intercalate w) 1) acc.counts,
        acc.totalPaths + rs.countP fun r => hasSubpaths (s.path r)⟩ := by
  induction rs generalizing acc with
  | nil => simp
  | cons r rs ih =>
      rw [List.foldl_cons, ih fun q hq => hall q (List.mem_cons_of_mem r hq), hall r List.mem_cons_self,
        Bool.true_and, List.flatMap_cons, List.foldl_append, List.countP_cons]
      cases hsub : hasSubpaths (s.path r) with
      | true =>
          have htotal : ∀ n : Nat, acc.totalPaths + 1 + n = acc.totalPaths + (n + 1 : Nat) := by
            intro n
            omega
          rw [if_pos rfl, if_pos rfl, ← htotal]
          rfl
      | false =>
          rw [if_neg Bool.false_ne_true, if_neg Bool.false_ne_true, windows_of_not_hasSubpaths hsub hmin]
          rfl

theorem countPaths_eq {s : Store} {included : TxRef → Bool} (hall : ∀ r ∈ s.packets, included r = true)
    (name : String → String) {minLen : Nat} (hmin : 2 ≤ minLen) (maxLen : Nat) :
    countPaths s name minLen maxLen included =
      ⟨(parts s minLen maxLen).foldl
        (fun m w => addCount m (joinNames (w.map name)) (",".intercalate w) 1) Maps.empty,
        s.packets.countP fun r => hasSubpaths (s.path r)⟩ := by
  rw [countPaths, foldl_countPath name hmin maxLen hall, Int.zero_add]
  rfl

def keyOf (w : List String) : String := toLower (",".intercalate w)

def readBack (w : List String) : List String := splitKey (keyOf w)

theorem subpathKeys_eq (hops : List String) : subpathKeys hops = (windows 2 8 hops).map keyOf := by
  rw [windows, List.map_flatMap]
  apply List.flatMap_congr
  intro n _
  rw [windowsOf, List.map_map]
  rfl

theorem char_toLower_eq_comma {c : Char} : c.toLower = ',' ↔ c = ',' := by
  constructor
  · intro h
    unfold Char.toLower at h
    split at h
    · next hupper =>
        have hval := congrArg Char.val h
        have hle := hupper.2
        have hge := hupper.1
        revert hval
        grind
    · exact h
  · rintro rfl
    rfl

theorem char_toLower_toLower (c : Char) : c.toLower.toLower = c.toLower := by
  unfold Char.toLower
  split
  · next hupper =>
      have hle := hupper.2
      have hge := hupper.1
      rw [dif_neg]
      grind
  · rfl

theorem toLower_toLower (t : String) : toLower (toLower t) = toLower t := by
  apply String.toList_injective
  rw [toList_toLower, toList_toLower, List.map_map]
  apply List.map_congr_left
  intro c _
  exact char_toLower_toLower c

theorem toList_keyOf (w : List String) :
    (keyOf w).toList = ([','].intercalate (w.map String.toList)).map Char.toLower := by
  rw [keyOf, toList_toLower, String.toList_intercalate]
  rfl

def commas (w : List String) : Nat := (w.map fun hop => hop.toList.count ',').sum

theorem length_readBack {w : List String} (hw : w ≠ []) : (readBack w).length = w.length + commas w := by
  have hne : w.map String.toList ≠ [] := by simpa using hw
  have hcount := countP_intercalate (· == ',') [','] hne
  have hlower : ((keyOf w).toList.countP (· == ',')) =
      (([','].intercalate (w.map String.toList)).countP (· == ',')) := by
    rw [toList_keyOf, List.countP_map]
    apply List.countP_congr
    intro c _
    rw [Function.comp_apply, beq_iff_eq, beq_iff_eq, char_toLower_eq_comma]
  have hone : ([','] : List Char).countP (· == ',') = 1 := rfl
  rw [hone, List.map_map, List.length_map] at hcount
  rw [readBack, splitKey, List.length_map, length_splitOn, List.count, hlower, hcount, commas, Nat.mul_one,
    Nat.add_comm]
  rfl

theorem commas_eq_zero {w : List String} : commas w = 0 ↔ ∀ hop ∈ w, ',' ∉ hop.toList := by
  rw [commas, List.sum_eq_zero_iff]
  simp [List.count_eq_zero]

theorem readBack_eq {w : List String} (hw : w ≠ []) (h : commas w = 0) : readBack w = w.map toLower := by
  have hplain := commas_eq_zero.mp h
  have hsep : ([','] : List Char).map Char.toLower = [','] := rfl
  rw [readBack, splitKey, toList_keyOf, map_intercalate, hsep, List.splitOn_intercalate, List.map_map, List.map_map]
  · apply List.map_congr_left
    intro hop _
    apply String.toList_injective
    rw [Function.comp_apply, Function.comp_apply, String.toList_ofList, toList_toLower]
  · intro t ht hcomma
    rw [List.map_map] at ht
    obtain ⟨hop, hhop, rfl⟩ := List.mem_map.mp ht
    obtain ⟨c, hc, hlower⟩ := List.mem_map.mp hcomma
    rw [char_toLower_eq_comma] at hlower
    subst hlower
    exact hplain hop hhop hc
  · simpa using hw

def raised (t : String) : Nat := t.toList.countP fun c => c.toLower ≠ c

theorem raised_joinNames (texts : List String) : raised (joinNames texts) = (texts.map raised).sum := by
  cases texts with
  | nil => rfl
  | cons t texts =>
      have hcount := countP_intercalate (fun c : Char => c.toLower ≠ c) " → ".toList
        (List.cons_ne_nil t.toList (texts.map String.toList))
      have hsep : " → ".toList.countP (fun c : Char => c.toLower ≠ c) = 0 := by decide
      rw [hsep, ← List.map_cons (f := String.toList), List.map_map, Nat.mul_zero] at hcount
      rw [raised, joinNames, String.toList_intercalate]
      exact hcount

theorem raised_toLower (t : String) : raised (toLower t) = 0 := by
  rw [raised, toList_toLower, List.countP_map, List.countP_eq_zero]
  intro c _ hc
  exact of_decide_eq_true hc (char_toLower_toLower c)

theorem toLower_eq_of_raised {t : String} (h : raised t = 0) : toLower t = t := by
  rw [raised, List.countP_eq_zero] at h
  apply String.toList_injective
  rw [toList_toLower]
  have hid : ∀ c ∈ t.toList, c.toLower = id c := fun c hc => by simpa using h c hc
  rw [List.map_congr_left hid, List.map_id]

structure KeysOf (s : Store) (keys : List String) : Prop where
  nodup : keys.Nodup
  mem : ∀ k, k ∈ keys ↔ (s.subpaths.spIndex k).isSome

variable {s : Store} {keys : List String} {minLen maxLen : Nat}

theorem count_spIndex (h : Exact s) (k : String) :
    count s.subpaths.spIndex k = (((parts s 2 8).map keyOf).count k : Nat) := by
  rw [h.counts, parts, List.map_flatMap, List.count_flatMap, Nat.cast_list_sum, List.map_map]
  congr 1
  apply List.map_congr_left
  intro r _
  rw [occurrences, subpathKeys_eq]
  rfl

theorem isSome_spIndex (h : Exact s) (k : String) :
    (s.subpaths.spIndex k).isSome ↔ k ∈ (parts s 2 8).map keyOf := by
  have hcount := count_spIndex h k
  rw [← List.count_pos_iff]
  unfold count at hcount
  cases hk : s.subpaths.spIndex k with
  | none =>
      rw [hk, Option.getD_none] at hcount
      simp only [Option.isSome_none, Bool.false_eq_true, false_iff]
      omega
  | some n =>
      have hpos := h.positive k n hk
      rw [hk, Option.getD_some] at hcount
      simp only [Option.isSome_some, true_iff]
      omega

theorem keysOf_parts (h : Exact s) : KeysOf s ((parts s 2 8).map keyOf).dedup where
  nodup := List.nodup_dedup _
  mem k := by rw [List.mem_dedup, isSome_spIndex h]

theorem KeysOf.perm (h : Exact s) (hkeys : KeysOf s keys) : keys.Perm ((parts s 2 8).map keyOf).dedup := by
  rw [List.perm_ext_iff_of_nodup hkeys.nodup (List.nodup_dedup _)]
  intro k
  rw [hkeys.mem, isSome_spIndex h, List.mem_dedup]

def inRange (minLen maxLen : Nat) (hops : List String) : Bool := minLen ≤ hops.length ∧ hops.length ≤ maxLen

theorem foldl_countKey (name : String → String) (spIndex : GoMap String Int) (keys : List String)
    (m : GoMap String SubpathAccum) :
    keys.foldl (countKey name spIndex minLen maxLen) m =
      (keys.filter fun key => inRange minLen maxLen (splitKey key)).foldl
        (fun m key => addCount m (joinNames ((splitKey key).map name)) key (count spIndex key)) m := by
  rw [List.foldl_filter]
  congr 1
  funext m key
  rw [countKey, inRange]
  by_cases hout : (splitKey key).length < minLen ∨ maxLen < (splitKey key).length
  · rw [if_pos hout, if_neg]
    rw [decide_eq_true_iff]
    omega
  · rw [if_neg hout, if_pos]
    rw [decide_eq_true_iff]
    omega

theorem count_foldl_countKey (h : Exact s) (hkeys : KeysOf s keys) (name : String → String) (k : String) :
    count (tally (keys.foldl (countKey name s.subpaths.spIndex minLen maxLen) Maps.empty)) k =
      ((parts s 2 8).countP fun w =>
        inRange minLen maxLen (readBack w) && joinNames ((readBack w).map name) = k : Nat) := by
  have hsum := List.sum_map_count_dedup_filter_eq_countP
    (fun key => inRange minLen maxLen (splitKey key) && joinNames ((splitKey key).map name) = k)
    ((parts s 2 8).map keyOf)
  have hperm := ((hkeys.perm h).filter fun key =>
    inRange minLen maxLen (splitKey key) && joinNames ((splitKey key).map name) = k).map (count s.subpaths.spIndex)
  have hcounts : ∀ l : List String, (l.map (count s.subpaths.spIndex)).sum =
      ((l.map fun key => ((parts s 2 8).map keyOf).count key).sum : Nat) := by
    intro l
    rw [Nat.cast_list_sum, List.map_map]
    congr 1
    apply List.map_congr_left
    intro key _
    exact count_spIndex h key
  have hfilter : ∀ l : List String, (l.filter fun key => inRange minLen maxLen (splitKey key)).filter
      (fun key => joinNames ((splitKey key).map name) = k) = l.filter fun key =>
        inRange minLen maxLen (splitKey key) && joinNames ((splitKey key).map name) = k := by
    intro l
    rw [List.filter_filter]
    apply List.filter_congr
    intro key _
    exact Bool.and_comm _ _
  rw [foldl_countKey, count_tally_foldl, hfilter, hperm.sum_eq, hcounts, hsum, List.countP_map]
  exact Int.zero_add _

/-- The named paths with their counts, and the number of all paths. -/
def SubpathCounts.result (c : SubpathCounts) : GoMap String Int × Int := (tally c.counts, c.totalPaths)

/-- The window and the region let every packet through. -/
structure Everything (ctx : Context) (s : Store) (region : String) (window : TimeWindow) : Prop where
  named : region ≠ ""
  observed : ∀ r ∈ s.packets, observedIn (ctx.regions region) (s.heap r) = true
  within : ∀ r ∈ s.packets, window.includes ctx.lib (s.row r).firstSeen = true

/-- The four come to the same; each range over the index has an order of its own. -/
structure Agree (ctx : Context) (s : Store) (keys bulkKeys : List String) (region : String)
    (window : TimeWindow) (minLen maxLen : Nat) : Prop where
  slow : (computeSubpathsSlow ctx s region minLen maxLen (resolveHop ctx.net s)).result =
    (computeAnalyticsSubpaths ctx s keys "" minLen maxLen).result
  windowed : ∀ region' ∈ ["", region],
    (computeAnalyticsSubpathsWindowed ctx s region' minLen maxLen window).result =
      (computeAnalyticsSubpaths ctx s keys "" minLen maxLen).result
  bulk : ∀ (groups : List SubpathGroup) (i : Nat), groups[i]? = some ⟨minLen, maxLen⟩ →
    (getAnalyticsSubpathsBulk ctx s bulkKeys "" groups)[i]?.map (·.result) =
      some (computeAnalyticsSubpaths ctx s keys "" minLen maxLen).result

def SameNames (name : String → String) (s : Store) (minLen maxLen : Nat) : Prop :=
  ∀ k, ((parts s minLen maxLen).countP fun w => joinNames (w.map name) = k) =
    (parts s 2 8).countP fun w => inRange minLen maxLen (readBack w) && joinNames ((readBack w).map name) = k

theorem positive_fast (h : Exact s) (hkeys : KeysOf s keys) (name : String → String) :
    Positive (tally (keys.foldl (countKey name s.subpaths.spIndex minLen maxLen) Maps.empty)) := by
  rw [foldl_countKey]
  apply positive_tally_foldl _ _ _ _ positive_tally_empty
  intro key hkey
  have hsome := (hkeys.mem key).mp (List.mem_filter.mp hkey).1
  obtain ⟨n, hn⟩ := Option.isSome_iff_exists.mp hsome
  rw [count, hn]
  exact h.positive key n hn

theorem positive_slow (ws : List (List String)) (name : String → String) :
    Positive (tally (ws.foldl (fun m w => addCount m (joinNames (w.map name)) (",".intercalate w) 1)
      Maps.empty)) :=
  positive_tally_foldl _ _ _ (fun _ _ => Int.one_pos) positive_tally_empty

theorem count_slow (ws : List (List String)) (name : String → String) (k : String) :
    count (tally (ws.foldl (fun m w => addCount m (joinNames (w.map name)) (",".intercalate w) 1)
      Maps.empty)) k = (ws.countP fun w => joinNames (w.map name) = k : Nat) := by
  rw [count_tally_foldl, List.countP_eq_length_filter, List.map_const', List.sum_replicate]
  simp [tally, count]

theorem fast_congr (h : Exact s) {keys' : List String} (hkeys : KeysOf s keys) (hkeys' : KeysOf s keys')
    (ctx : Context) : (computeAnalyticsSubpaths ctx s keys "" minLen maxLen).result =
      (computeAnalyticsSubpaths ctx s keys' "" minLen maxLen).result := by
  rw [computeAnalyticsSubpaths, computeAnalyticsSubpaths, if_neg (by simp), if_neg (by simp)]
  apply congrArg (·, s.spTotalPaths)
  apply eq_of_count_eq (positive_fast h hkeys _) (positive_fast h hkeys' _)
  intro k
  rw [count_foldl_countKey h hkeys, count_foldl_countKey h hkeys']

theorem result_eq_iff (h : Exact s) (hkeys : KeysOf s keys) (ctx : Context) {included : TxRef → Bool}
    (hall : ∀ r ∈ s.packets, included r = true) (hmin : 2 ≤ minLen) :
    (countPaths s (resolveHop ctx.net s) minLen maxLen included).result =
      (computeAnalyticsSubpaths ctx s keys "" minLen maxLen).result ↔
      SameNames (resolveHop ctx.net s) s minLen maxLen := by
  rw [countPaths_eq hall _ hmin, computeAnalyticsSubpaths, if_neg (by simp), SubpathCounts.result,
    SubpathCounts.result, Prod.mk.injEq, and_iff_left h.total.symm]
  constructor
  · intro heq k
    have hk : count _ k = count _ k := congrArg (fun m => count m k) heq
    rw [count_slow, count_foldl_countKey h hkeys] at hk
    exact Int.ofNat_inj.mp hk
  · intro hsame
    apply eq_of_count_eq (positive_slow _ _) (positive_fast h hkeys _)
    intro k
    rw [count_slow, count_foldl_countKey h hkeys, hsame k]

theorem foldl_zipWith {A B K : Type} (f : A → B → K → B) (keys : List K) (groups : List A) (start : A → B) :
    keys.foldl (fun perGroup k => groups.zipWith (fun g m => f g m k) perGroup) (groups.map start) =
      groups.map fun g => keys.foldl (f g) (start g) := by
  induction keys generalizing start with
  | nil => rfl
  | cons k keys ih =>
      rw [List.foldl_cons, List.zipWith_map_right, List.zipWith_self]
      exact ih fun g => f g (start g) k

theorem bulk_eq (ctx : Context) (s : Store) (keys : List String) (groups : List SubpathGroup) :
    getAnalyticsSubpathsBulk ctx s keys "" groups =
      groups.map fun g => computeAnalyticsSubpaths ctx s keys "" g.minLen g.maxLen := by
  rw [getAnalyticsSubpathsBulk, if_neg (by simp)]
  dsimp only
  rw [foldl_zipWith (fun (g : SubpathGroup) m rawKey =>
    countKey (resolveHop ctx.net s) s.subpaths.spIndex g.minLen g.maxLen m rawKey), List.map_map]
  apply List.map_congr_left
  intro g _
  rw [computeAnalyticsSubpaths, if_neg (by simp)]
  rfl

theorem agree_iff_sameNames (h : Exact s) {bulkKeys : List String} (hkeys : KeysOf s keys)
    (hbulk : KeysOf s bulkKeys) {ctx : Context} {region : String} {window : TimeWindow}
    (hall : Everything ctx s region window) (hmin : 2 ≤ minLen) :
    Agree ctx s keys bulkKeys region window minLen maxLen ↔ SameNames (resolveHop ctx.net s) s minLen maxLen := by
  constructor
  · intro hagree
    exact (result_eq_iff h hkeys ctx hall.observed hmin).mp hagree.slow
  · intro hsame
    refine ⟨(result_eq_iff h hkeys ctx hall.observed hmin).mpr hsame, ?_, ?_⟩
    · intro region' hregion
      apply (result_eq_iff h hkeys ctx _ hmin).mpr hsame
      intro r hr
      rw [hall.within r hr, Bool.true_and]
      rcases List.mem_pair.mp hregion with rfl | rfl
      · rfl
      · rw [if_pos hall.named]
        exact hall.observed r hr
    · intro groups i hi
      rw [bulk_eq, List.getElem?_map, hi, Option.map_some, Option.map_some, fast_congr h hbulk hkeys]

/-- The keys split where the hops do. -/
def Plain (s : Store) : Prop :=
  ∀ r ∈ s.packets, hasSubpaths (s.path r) = true → ∀ hop ∈ s.path r, ',' ∉ hop.toList

/-- A hop of a path that is long enough has a letter in upper case only where it goes by
the name of a node. -/
def KnownHops (net : Network) (s : Store) (minLen : Nat) : Prop :=
  ∀ r ∈ s.packets, minLen ≤ (s.path r).length → ∀ hop ∈ s.path r,
    toLower hop = hop ∨ (resolvedNode net s hop).isSome

theorem resolvedNode_toLower (net : Network) (s : Store) (hop : String) :
    resolvedNode net s (toLower hop) = resolvedNode net s hop := by
  unfold resolvedNode Network.resolveWithContext PrefixMap.resolveWithContext PrefixMap.candidates
  rw [toLower_toLower]

theorem resolveHop_toLower {net : Network} {hop : String}
    (h : toLower hop = hop ∨ (resolvedNode net s hop).isSome) :
    resolveHop net s (toLower hop) = resolveHop net s hop := by
  rcases h with h | h
  · rw [h]
  · obtain ⟨n, hn⟩ := Option.isSome_iff_exists.mp h
    rw [resolveHop, resolveHop, resolvedNode_toLower, hn]

theorem length_of_mem_parts {w : List String} (hw : w ∈ parts s minLen maxLen) :
    minLen ≤ w.length ∧ w.length ≤ maxLen := by
  obtain ⟨r, _, hw⟩ := List.mem_flatMap.mp hw
  exact length_of_mem_windows hw

theorem ne_nil_of_mem_parts (hmin : 2 ≤ minLen) {w : List String} (hw : w ∈ parts s minLen maxLen) : w ≠ [] := by
  have hlen := (length_of_mem_parts hw).1
  apply List.ne_nil_of_length_pos
  omega

theorem path_of_mem_parts {w : List String} (hw : w ∈ parts s minLen maxLen) :
    ∃ r ∈ s.packets, minLen ≤ (s.path r).length ∧ w ⊆ s.path r := by
  obtain ⟨r, hr, hw⟩ := List.mem_flatMap.mp hw
  obtain ⟨n, hmin, _, hlen, _⟩ := mem_windows.mp hw
  exact ⟨r, hr, Nat.le_trans hmin hlen, subset_of_mem_windows hw⟩

theorem Plain.commas (h : Plain s) (hmin : 2 ≤ minLen) {w : List String} (hw : w ∈ parts s minLen maxLen) :
    commas w = 0 := by
  obtain ⟨r, hr, hlen, hhops⟩ := path_of_mem_parts hw
  exact commas_eq_zero.mpr fun hop hhop => h r hr (decide_eq_true (Nat.le_trans hmin hlen)) hop (hhops hhop)

theorem parts_perm (s : Store) (hmin : 2 ≤ minLen) (hmax : maxLen ≤ 8) :
    ((parts s 2 8).filter (inRange minLen maxLen)).Perm (parts s minLen maxLen) := by
  rw [parts, List.filter_flatMap, parts]
  apply List.Perm.flatMap_left
  intro r _
  exact windows_perm hmin hmax

theorem perm_of_sameNames {name : String → String} (h : SameNames name s 2 2) :
    ((parts s 2 2).map fun w => joinNames (w.map name)).Perm
      (((parts s 2 2).filter fun w => commas w = 0).map fun w => joinNames ((readBack w).map name)) := by
  have hpairs : (parts s 2 8).filter (fun w => inRange 2 2 (readBack w)) =
      ((parts s 2 8).filter (inRange 2 2)).filter fun w => commas w = 0 := by
    rw [List.filter_filter]
    apply List.filter_congr
    intro w hw
    have hlen := length_readBack (ne_nil_of_mem_parts (Nat.le_refl 2) hw)
    have hmin := (length_of_mem_parts hw).1
    rw [inRange, inRange, hlen, ← Bool.decide_and, decide_eq_decide]
    omega
  refine List.Perm.trans ?_ (((parts_perm s (Nat.le_refl 2) (by decide)).filter _).map _)
  rw [← hpairs, List.perm_iff_count]
  intro k
  rw [List.count_eq_countP, List.count_eq_countP, List.countP_map, List.countP_map, List.countP_filter]
  calc (parts s 2 2).countP ((· == k) ∘ fun w => joinNames (w.map name))
      = (parts s 2 2).countP fun w => joinNames (w.map name) = k := List.countP_congr fun w _ => by simp
    _ = _ := h k
    _ = _ := List.countP_congr fun w _ => by simp [and_comm]

theorem plain_of_sameNames {name : String → String} (h : SameNames name s 2 2) : Plain s := by
  have hlen := (perm_of_sameNames h).length_eq
  rw [List.length_map, List.length_map] at hlen
  have hcommas := List.length_filter_eq_length_iff.mp hlen.symm
  intro r hr hsub hop hhop
  have hpath : 2 ≤ (s.path r).length := by simpa [hasSubpaths] using hsub
  obtain ⟨w, hw, hmem⟩ := exists_mem_windows Nat.two_pos (Nat.le_refl 2) hpath hhop
  have hnone := hcommas w (List.mem_flatMap.mpr ⟨r, hr, hw⟩)
  exact commas_eq_zero.mp (of_decide_eq_true hnone) hop hmem

theorem sameNames_iff_perm (hplain : Plain s) {name : String → String} (hmin : 2 ≤ minLen) (hmax : maxLen ≤ 8) :
    SameNames name s minLen maxLen ↔ ((parts s minLen maxLen).map fun w => joinNames (w.map name)).Perm
      ((parts s minLen maxLen).map fun w => joinNames ((w.map toLower).map name)) := by
  have hback : ∀ k, ((parts s 2 8).countP fun w =>
      inRange minLen maxLen (readBack w) && joinNames ((readBack w).map name) = k) =
      (parts s minLen maxLen).countP fun w => joinNames ((w.map toLower).map name) = k := by
    intro k
    rw [← (parts_perm s hmin hmax).countP_eq, List.countP_filter]
    apply List.countP_congr
    intro w hw
    rw [readBack_eq (ne_nil_of_mem_parts (Nat.le_refl 2) hw) (hplain.commas (Nat.le_refl 2) hw), inRange, inRange,
      List.length_map, Bool.and_comm]
  rw [List.perm_iff_count]
  apply forall_congr'
  intro k
  rw [hback, List.count_eq_countP, List.count_eq_countP, List.countP_map, List.countP_map]
  exact Iff.rfl

theorem eq_of_sum_map_eq {α : Type} {l : List α} {f g : α → Nat} (hle : ∀ a ∈ l, f a ≤ g a)
    (hsum : (l.map f).sum = (l.map g).sum) {a : α} (ha : a ∈ l) : f a = g a := by
  by_contra hne
  have hlt := List.sum_lt_sum f g hle ⟨a, ha, Nat.lt_of_le_of_ne (hle a ha) hne⟩
  omega

theorem raised_resolveHop_toLower (net : Network) (s : Store) (hop : String) :
    raised (resolveHop net s (toLower hop)) ≤ raised (resolveHop net s hop) := by
  rw [resolveHop, resolveHop, resolvedNode_toLower]
  split
  · exact Nat.le_refl _
  · rw [raised_toLower]
    exact Nat.zero_le _

theorem knownHops_of_perm {net : Network} (hmin : 2 ≤ minLen) (hle : minLen ≤ maxLen)
    (h : ((parts s minLen maxLen).map fun w => joinNames (w.map (resolveHop net s))).Perm
      ((parts s minLen maxLen).map fun w => joinNames ((w.map toLower).map (resolveHop net s)))) :
    KnownHops net s minLen := by
  -- the letters in upper case are as many on both sides, and lower case only takes some away
  have hperm := h.map raised
  have hleft : ∀ w : List String, (raised ∘ fun w => joinNames (w.map (resolveHop net s))) w =
      (w.map fun hop => raised (resolveHop net s hop)).sum := by
    intro w
    rw [Function.comp_apply, raised_joinNames, List.map_map]
    rfl
  have hright : ∀ w : List String, (raised ∘ fun w => joinNames ((w.map toLower).map (resolveHop net s))) w =
      (w.map fun hop => raised (resolveHop net s (toLower hop))).sum := by
    intro w
    rw [Function.comp_apply, raised_joinNames, List.map_map, List.map_map]
    rfl
  rw [List.map_map, List.map_map, List.map_congr_left fun w _ => hleft w,
    List.map_congr_left fun w _ => hright w] at hperm
  intro r hr hlen hop hhop
  obtain ⟨w, hw, hmem⟩ := exists_mem_windows (Nat.lt_of_lt_of_le Nat.two_pos hmin) hle hlen hhop
  have hpart := eq_of_sum_map_eq
    (fun w _ => List.sum_le_sum fun hop _ => raised_resolveHop_toLower net s hop) hperm.sum_eq.symm
    (List.mem_flatMap.mpr ⟨r, hr, hw⟩)
  have hsame := eq_of_sum_map_eq (fun hop _ => raised_resolveHop_toLower net s hop) hpart hmem
  cases hnode : resolvedNode net s hop with
  | some n => exact .inr rfl
  | none =>
      rw [resolveHop, resolveHop, resolvedNode_toLower, hnode, raised_toLower] at hsame
      exact .inl (toLower_eq_of_raised hsame.symm)

theorem sameNames_iff_knownHops (hplain : Plain s) {net : Network} (hmin : 2 ≤ minLen) (hle : minLen ≤ maxLen)
    (hmax : maxLen ≤ 8) : SameNames (resolveHop net s) s minLen maxLen ↔ KnownHops net s minLen := by
  rw [sameNames_iff_perm hplain hmin hmax]
  constructor
  · exact knownHops_of_perm hmin hle
  · intro h
    apply List.Perm.of_eq
    apply List.map_congr_left
    intro w hw
    obtain ⟨r, hr, hlen, hhops⟩ := path_of_mem_parts hw
    rw [List.map_map, List.map_congr_left fun hop hhop => (resolveHop_toLower (h r hr hlen hop (hhops hhop))).symm]
    rfl

/-- Over all ranges of lengths the four come to the same if and only if no hop has a comma
and those in upper case go by the name of a node. Where no hop has a comma, the latter
decides for each range by itself. -/
theorem agree_iff_knownHops (h : Exact s) {bulkKeys : List String} (hkeys : KeysOf s keys)
    (hbulk : KeysOf s bulkKeys) {ctx : Context} {region : String} {window : TimeWindow}
    (hall : Everything ctx s region window) :
    ((∀ minLen maxLen, 2 ≤ minLen → minLen ≤ maxLen → maxLen ≤ 8 →
      Agree ctx s keys bulkKeys region window minLen maxLen) ↔ Plain s ∧ KnownHops ctx.net s 2) ∧
    (Plain s → ∀ minLen maxLen, 2 ≤ minLen → minLen ≤ maxLen → maxLen ≤ 8 →
      (Agree ctx s keys bulkKeys region window minLen maxLen ↔ KnownHops ctx.net s minLen)) := by
  have hrange : Plain s → ∀ minLen maxLen, 2 ≤ minLen → minLen ≤ maxLen → maxLen ≤ 8 →
      (Agree ctx s keys bulkKeys region window minLen maxLen ↔ KnownHops ctx.net s minLen) := by
    intro hplain minLen maxLen hmin hle hmax
    rw [agree_iff_sameNames h hkeys hbulk hall hmin, sameNames_iff_knownHops hplain hmin hle hmax]
  refine ⟨⟨fun hagree => ?_, ?_⟩, hrange⟩
  · have htwo := hagree 2 2 (Nat.le_refl 2) (Nat.le_refl 2) (by decide)
    have hplain := plain_of_sameNames ((agree_iff_sameNames h hkeys hbulk hall (Nat.le_refl 2)).mp htwo)
    exact ⟨hplain, (hrange hplain 2 2 (Nat.le_refl 2) (Nat.le_refl 2) (by decide)).mp htwo⟩
  · rintro ⟨hplain, hknown⟩ minLen maxLen hmin hle hmax
    apply (hrange hplain minLen maxLen hmin hle hmax).mpr
    intro r hr hlen
    exact hknown r hr (Nat.le_trans hmin hlen)

def oneHeard (pathJSON : String) : Store :=
  loadedEmpty.live (.ingestNewFromDB (plainEnv none) 0 100
    [heardRow (plainTx 1 "h1" "2026-01-01T00:00:00Z" 2) 1 "obs1" pathJSON])

theorem exact_oneHeard (pathJSON : String) : Exact (oneHeard pathJSON) := by
  have hindexed := freshlyBuilt_loadedEmpty.indexed
  apply (exact_live_iff ⟨0, hindexed⟩ (hindexed.exact_iff.mpr rfl)).mpr
  intro r hr
  cases hr

def oneNode : Context where
  lib := ⟨fun _ => none, fun _ => [], fun t => t, fun _ => ""⟩
  net :=
    { allNodes := [⟨⟨⟨"aa"⟩, 0, 0, false⟩, "A", "repeater"⟩]
      pm := ⟨set Maps.empty "aa" [⟨"aa"⟩], ∅⟩
      tiers := fun _ _ => none
      haversineKm := fun _ _ _ _ => 0 }
  regions := fun _ => some fun _ => true

theorem everything_oneHeard (pathJSON : String) (h : (oneHeard pathJSON).packets = [0])
    (hobs : ((oneHeard pathJSON).heap 0).observations ≠ []) :
    Everything oneNode (oneHeard pathJSON) "R" ⟨"", ""⟩ := by
  refine ⟨by decide, ?_, ?_⟩
  · intro r hr
    rw [h, List.mem_singleton] at hr
    subst hr
    obtain ⟨o, os, ho⟩ := List.exists_cons_of_ne_nil hobs
    change ((oneHeard pathJSON).heap 0).observations.any (fun _ => true) = true
    rw [ho]
    rfl
  · intro r _
    rw [TimeWindow.includes]
    split <;> rfl

def keysHeard (pathJSON : String) : List String := ((parts (oneHeard pathJSON) 2 8).map keyOf).dedup

theorem agree_iff_knownHops_mixedCase :
    Agree oneNode (oneHeard "[\"AA\",\"bb\"]") (keysHeard "[\"AA\",\"bb\"]") (keysHeard "[\"AA\",\"bb\"]") "R"
      ⟨"", ""⟩ 2 8 := by
  have hexact := exact_oneHeard "[\"AA\",\"bb\"]"
  have hkeys := keysOf_parts hexact
  have hall := everything_oneHeard "[\"AA\",\"bb\"]" (by decide) (by decide)
  have hpackets : (oneHeard "[\"AA\",\"bb\"]").packets = [0] := by decide
  have hpath : (oneHeard "[\"AA\",\"bb\"]").path 0 = ["AA", "bb"] := by decide +kernel
  apply (agree_iff_knownHops hexact hkeys hkeys hall).1.mpr _ 2 8 (Nat.le_refl 2) (by decide) (Nat.le_refl 8)
  constructor
  · intro r hr _ hop hhop
    rw [hpackets, List.mem_singleton] at hr
    rw [hr, hpath] at hhop
    rcases List.mem_pair.mp hhop with rfl | rfl
    · decide
    · decide
  · intro r hr _ hop hhop
    rw [hpackets, List.mem_singleton] at hr
    rw [hr, hpath] at hhop
    rcases List.mem_pair.mp hhop with rfl | rfl
    · exact .inr (by decide +kernel)
    · exact .inl (by decide +kernel)

/-- A hop in upper case that no node stands for is counted in lower case by the index, and
as it is by the packets. -/
theorem unresolved_upperCase_differs : ¬ ∀ (ctx : Context) (s : Store) (keys bulkKeys : List String)
    (region : String) (window : TimeWindow), Exact s → KeysOf s keys → KeysOf s bulkKeys →
    Everything ctx s region window → ∀ minLen maxLen, 2 ≤ minLen → minLen ≤ maxLen → maxLen ≤ 8 →
    Agree ctx s keys bulkKeys region window minLen maxLen := by
  intro hagree
  have hexact := exact_oneHeard "[\"AA\",\"BB\"]"
  have hkeys := keysOf_parts hexact
  have hall := everything_oneHeard "[\"AA\",\"BB\"]" (by decide +kernel) (by decide +kernel)
  have htwo := hagree oneNode _ _ _ "R" ⟨"", ""⟩ hexact hkeys hkeys hall 2 2 (Nat.le_refl 2) (Nat.le_refl 2) (by decide)
  have hsame := (agree_iff_sameNames hexact hkeys hkeys hall (Nat.le_refl 2)).mp htwo
  have hknown := (sameNames_iff_knownHops (plain_of_sameNames hsame) (Nat.le_refl 2) (Nat.le_refl 2)
    (by decide)).mp hsame
  rcases hknown 0 (by decide +kernel) (by decide +kernel) "BB" (by decide +kernel) with h | h
  · exact absurd h (by decide +kernel)
  · exact absurd h (by decide +kernel)

end MeshcoreAnalyzer.PacketStore.SubpathAnalytics

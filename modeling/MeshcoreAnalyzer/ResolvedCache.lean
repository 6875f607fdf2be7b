import Mathlib.Data.List.AList
import MeshcoreAnalyzer.Runs

namespace MeshcoreAnalyzer.ResolvedCache

open Runs

/-! The resolved paths that are kept in memory, `lruPut` and `lruDelete` of cmd/server/resolved_index.go. The map
is there from `initResolvedPathIndex` on. -/

abbrev ResolvedPath := Option (List (Option String))

structure LRU where
  apiResolvedPathLRU : AList fun _ : Int => ResolvedPath
  lruOrder : List Int

inductive Call
  | lruPut (obsID : Int) (rp : ResolvedPath)
  | lruDelete (obsID : Int)

def lruMaxSize : Nat := 10000

def evictOldest (m : AList fun _ : Int => ResolvedPath) : List Int → LRU
  | [] => ⟨m, []⟩
  | evictID :: order => if evictID ∈ m then ⟨m.erase evictID, order⟩ else evictOldest m order

namespace LRU

variable (s : LRU)

def initResolvedPathIndex : LRU := ⟨∅, []⟩

def live (id : Int) : Bool := id ∈ s.apiResolvedPathLRU

def compact : LRU :=
  if lruMaxSize ≤ s.lruOrder.length ∧ s.apiResolvedPathLRU.keys.length < lruMaxSize / 2 then
    { s with lruOrder := s.lruOrder.filter s.live }
  else s

def makeRoom : LRU :=
  if lruMaxSize ≤ s.lruOrder.length then evictOldest s.apiResolvedPathLRU s.lruOrder else s

def lruPut (obsID : Int) (rp : ResolvedPath) : LRU :=
  if obsID ∈ s.apiResolvedPathLRU then s
  else
    let s := s.compact.makeRoom
    ⟨s.apiResolvedPathLRU.insert obsID rp, s.lruOrder ++ [obsID]⟩

def lruDelete (obsID : Int) : LRU := { s with apiResolvedPathLRU := s.apiResolvedPathLRU.erase obsID }

def step (s : LRU) : Call → LRU
  | .lruPut obsID rp => s.lruPut obsID rp
  | .lruDelete obsID => s.lruDelete obsID

end LRU

open LRU

/-- The cache, and its entries from the oldest on, each with the path of the call that inserted it. -/
structure Watched where
  lru : LRU
  entries : List (Int × ResolvedPath)

namespace Watched

variable (w : Watched)

/-- What has gone from the map has gone from the entries; an id that was not live comes last. -/
def step (w : Watched) (c : Call) : Watched :=
  let lru := w.lru.step c
  let kept := w.entries.filter fun e => lru.live e.1
  match c with
  | .lruPut obsID rp => ⟨lru, if w.lru.live obsID then kept else kept ++ [(obsID, rp)]⟩
  | .lruDelete _ => ⟨lru, kept⟩

def start : Watched := ⟨initResolvedPathIndex, []⟩

def run (calls : List Call) : Watched := calls.foldl step start

def EvictsOldest (obsID : Int) (rp : ResolvedPath) : Prop :=
  (∀ id, w.lru.live id → (w.lru.lruPut obsID rp).live id) ∨
    ∃ oldest ∈ w.entries.head?, w.lru.live oldest.1 ∧
      ∀ id, w.lru.live id → ((w.lru.lruPut obsID rp).live id ↔ id ≠ oldest.1)

structure Sound : Prop where
  live_le : w.lru.apiResolvedPathLRU.keys.length ≤ lruMaxSize
  order_le : w.lru.lruOrder.length ≤ lruMaxSize
  once : ∀ id, w.lru.live id → w.lru.lruOrder.count id = 1
  evicts : ∀ obsID rp, ¬ w.lru.live obsID → w.EvictsOldest obsID rp
  put : ∀ obsID rp, ¬ w.lru.live obsID → (w.lru.lruPut obsID rp).apiResolvedPathLRU.lookup obsID = some rp
  stored : ∀ id rp, w.lru.apiResolvedPathLRU.lookup id = some rp ↔ (id, rp) ∈ w.entries

/-- A call with a new id meets no older copy of it in the order, or clears it away: in the compaction, or among the
stale ids before the first live one. -/
def ClearsCopies : Call → Prop
  | .lruPut obsID _ => ¬ w.lru.live obsID → obsID ∈ w.lru.lruOrder →
      lruMaxSize ≤ w.lru.lruOrder.length ∧
        (w.lru.apiResolvedPathLRU.keys.length < lruMaxSize / 2 ∨
          obsID ∉ (w.lru.lruOrder.dropWhile fun id => !w.lru.live id).tail)
  | .lruDelete _ => True

end Watched

section Room

theorem filter_dropWhile {A : Type} (p : A → Bool) (l : List A) :
    (l.dropWhile fun a => !p a).filter p = l.filter p := by
  induction l with
  | nil => rfl
  | cons a l ih =>
      cases ha : p a with
      | true => simp [ha]
      | false => simpa [List.dropWhile_cons, ha] using ih

variable {s : LRU} {id : Int}

@[simp] theorem live_iff : s.live id ↔ id ∈ s.apiResolvedPathLRU := decide_eq_true_iff

theorem evictOldest_eq (order : List Int) :
    evictOldest s.apiResolvedPathLRU order = match order.dropWhile fun id => !s.live id with
      | [] => ⟨s.apiResolvedPathLRU, []⟩
      | oldest :: rest => ⟨s.apiResolvedPathLRU.erase oldest, rest⟩ := by
  induction order with
  | nil => rfl
  | cons id order ih =>
      rw [List.dropWhile_cons]
      by_cases hid : id ∈ s.apiResolvedPathLRU
      · rw [if_neg (by simpa using hid)]
        exact if_pos hid
      · rw [if_pos (by simpa [live] using hid), ← ih]
        exact if_neg hid

/-- What an eviction leaves: everything where there is no live id, else everything but the first of them. -/
inductive Evicted (s t : LRU) : Prop
  | nothing : t.apiResolvedPathLRU = s.apiResolvedPathLRU →
      t.lruOrder.filter s.live = s.lruOrder.filter s.live → Evicted s t
  | oldest (id : Int) (rest : List Int) : t.apiResolvedPathLRU = s.apiResolvedPathLRU.erase id →
      s.lruOrder.filter s.live = id :: rest → t.lruOrder.filter s.live = rest → Evicted s t

theorem evicted_evictOldest : Evicted s (evictOldest s.apiResolvedPathLRU s.lruOrder) := by
  have hfilter := filter_dropWhile s.live s.lruOrder
  rw [evictOldest_eq]
  cases hdrop : s.lruOrder.dropWhile fun id => !s.live id with
  | nil =>
      rw [hdrop] at hfilter
      exact .nothing rfl hfilter
  | cons id rest =>
      have hid : s.live id := by
        have hnot := List.head_dropWhile_not (fun id => !s.live id) (l := s.lruOrder) (hdrop ▸ List.cons_ne_nil _ _)
        simpa only [hdrop, List.head_cons, Bool.not_eq_false'] using hnot
      rw [hdrop, List.filter_cons, if_pos hid] at hfilter
      exact .oldest id (rest.filter s.live) rfl hfilter.symm rfl

theorem evicted_makeRoom : Evicted s s.compact.makeRoom := by
  have hcompact : s.compact.apiResolvedPathLRU = s.apiResolvedPathLRU ∧
      s.compact.lruOrder.filter s.live = s.lruOrder.filter s.live := by
    rw [compact]
    split
    · exact ⟨rfl, by rw [List.filter_filter]; simp⟩
    · exact ⟨rfl, rfl⟩
  obtain ⟨hmap, horder⟩ := hcompact
  have hlive : s.compact.live = s.live := by
    funext id
    rw [live, live, hmap]
  rw [makeRoom]
  split
  · cases evicted_evictOldest (s := s.compact) with
    | nothing hm ho => exact .nothing (hm.trans hmap) (by rw [← hlive, ho, hlive, horder])
    | oldest id rest hm hfirst ho =>
        exact .oldest id rest (by rw [hm, hmap]) (by rw [← horder, ← hlive, hfirst]) (by rw [← hlive, ho])
  · exact .nothing hmap horder

structure Kept (s t : LRU) : Prop where
  live_imp : ∀ id, t.live id → s.live id
  lookup : ∀ id, t.live id → t.apiResolvedPathLRU.lookup id = s.apiResolvedPathLRU.lookup id
  filter : t.lruOrder.filter t.live = (s.lruOrder.filter s.live).filter t.live

theorem Kept.filter_live {t : LRU} (himp : ∀ id, t.live id → s.live id) (l : List Int) :
    (l.filter s.live).filter t.live = l.filter t.live := by
  rw [List.filter_filter]
  refine List.filter_congr fun i _ => ?_
  cases hi : t.live i with
  | true => rw [himp i hi, Bool.and_true]
  | false => rw [Bool.false_and]

theorem Evicted.kept {t : LRU} (h : Evicted s t) : Kept s t := by
  cases h with
  | nothing hm ho =>
      have hlive : t.live = s.live := by
        funext id
        rw [live, live, hm]
      exact ⟨fun id hid => hlive ▸ hid, fun id _ => by rw [hm], by rw [hlive, ho, List.filter_filter]; simp⟩
  | oldest first rest hm hfirst ho =>
      have himp : ∀ id, t.live id → s.live id := fun id hid => by
        rw [live_iff] at hid ⊢
        exact (AList.mem_erase.mp (hm ▸ hid)).2
      have hgone : t.live first = false := by simp [live, hm]
      refine ⟨himp, fun id hid => ?_, ?_⟩
      · rw [live_iff] at hid
        rw [hm, AList.lookup_erase_ne (AList.mem_erase.mp (hm ▸ hid)).1]
      · rw [hfirst, List.filter_cons, if_neg (by simp [hgone]), ← ho, Kept.filter_live himp]

theorem kept_lruDelete : Kept s (s.lruDelete id) := by
  have himp : ∀ i, (s.lruDelete id).live i → s.live i := fun i hi => by
    rw [live_iff] at hi ⊢
    exact (AList.mem_erase.mp hi).2
  refine ⟨himp, fun i hi => ?_, (Kept.filter_live himp s.lruOrder).symm⟩
  rw [live_iff] at hi
  exact AList.lookup_erase_ne (AList.mem_erase.mp hi).1

theorem lruOrder_evictOldest :
    (evictOldest s.apiResolvedPathLRU s.lruOrder).lruOrder = (s.lruOrder.dropWhile fun id => !s.live id).tail := by
  rw [evictOldest_eq]
  cases s.lruOrder.dropWhile fun id => !s.live id <;> rfl

theorem length_makeRoom (h : s.lruOrder.length ≤ lruMaxSize) : s.compact.makeRoom.lruOrder.length < lruMaxSize := by
  have hmax : 0 < lruMaxSize := Nat.zero_lt_succ _
  have hcompact : s.compact.lruOrder.length ≤ lruMaxSize := by
    rw [compact]
    split
    · exact (List.length_filter_le _ _).trans h
    · exact h
  rw [makeRoom]
  split
  · rw [lruOrder_evictOldest, List.length_tail]
    have hdrop : (s.compact.lruOrder.dropWhile fun id => !s.compact.live id).length ≤ s.compact.lruOrder.length :=
      (List.dropWhile_sublist _).length_le
    omega
  · omega

theorem mem_makeRoom (hid : ¬ s.live id) : id ∈ s.compact.makeRoom.lruOrder ↔ id ∈ s.lruOrder ∧
    (lruMaxSize ≤ s.lruOrder.length → lruMaxSize / 2 ≤ s.apiResolvedPathLRU.keys.length ∧
      id ∈ (s.lruOrder.dropWhile fun id => !s.live id).tail) := by
  have htail : ∀ t : LRU, id ∈ (t.lruOrder.dropWhile fun id => !t.live id).tail → id ∈ t.lruOrder :=
    fun t ht => (List.dropWhile_sublist _).subset (List.mem_of_mem_tail ht)
  by_cases hcompact : lruMaxSize ≤ s.lruOrder.length ∧ s.apiResolvedPathLRU.keys.length < lruMaxSize / 2
  · -- the compaction keeps live ids only
    have hgone : id ∉ s.compact.lruOrder := by
      rw [compact, if_pos hcompact]
      exact fun hmem => hid (List.mem_filter.mp hmem).2
    refine iff_of_false (fun hmem => ?_) fun h => (h.2 hcompact.1).1.not_gt hcompact.2
    rw [makeRoom] at hmem
    split at hmem
    · rw [lruOrder_evictOldest] at hmem
      exact hgone (htail _ hmem)
    · exact hgone hmem
  · rw [compact, if_neg hcompact, makeRoom]
    split
    next hfull =>
      rw [lruOrder_evictOldest]
      exact ⟨fun hmem => ⟨htail s hmem, fun _ => ⟨not_lt.mp fun hlt => hcompact ⟨hfull, hlt⟩, hmem⟩⟩,
        fun h => (h.2 hfull).2⟩
    next hroom => exact (and_iff_left fun hfull => absurd hfull hroom).symm

end Room

namespace Watched

variable {w : Watched} {c : Call}

/-- Every live id is in the order, and the live ids of the order are those of the entries, each once. -/
structure Inv (w : Watched) : Prop where
  order_le : w.lru.lruOrder.length ≤ lruMaxSize
  mem_order : ∀ id, w.lru.live id → id ∈ w.lru.lruOrder
  ids : w.lru.lruOrder.filter w.lru.live = w.entries.map Prod.fst
  nodup : (w.entries.map Prod.fst).Nodup
  lookup : ∀ e ∈ w.entries, w.lru.apiResolvedPathLRU.lookup e.1 = some e.2

theorem inv_start : start.Inv where
  order_le := Nat.zero_le _
  mem_order := fun id h => by cases h
  ids := rfl
  nodup := List.nodup_nil
  lookup := fun e he => by cases he

theorem Inv.live_of_mem (h : w.Inv) {e : Int × ResolvedPath} (he : e ∈ w.entries) : w.lru.live e.1 := by
  rw [live_iff, ← AList.lookup_isSome, h.lookup e he]
  rfl

theorem Inv.mem_of_live (h : w.Inv) {id : Int} (hid : w.lru.live id) : id ∈ w.entries.map Prod.fst := by
  rw [← h.ids]
  exact List.mem_filter.mpr ⟨h.mem_order id hid, hid⟩

theorem Inv.kept (h : w.Inv) {t : LRU} (hk : Kept w.lru t) (hle : t.lruOrder.length ≤ lruMaxSize) :
    Inv ⟨t, w.entries.filter fun e => t.live e.1⟩ := by
  have hids : t.lruOrder.filter t.live = (w.entries.filter fun e => t.live e.1).map Prod.fst := by
    rw [hk.filter, h.ids, List.filter_map]
    rfl
  refine ⟨hle, fun id hid => ?_, hids, (List.filter_sublist.map Prod.fst).nodup h.nodup, fun e he => ?_⟩
  · have hmem : id ∈ (w.lru.lruOrder.filter w.lru.live).filter t.live :=
      List.mem_filter.mpr ⟨List.mem_filter.mpr ⟨h.mem_order id (hk.live_imp id hid), hk.live_imp id hid⟩, hid⟩
    rw [← hk.filter] at hmem
    exact (List.mem_filter.mp hmem).1
  · obtain ⟨he, hid⟩ := List.mem_filter.mp he
    exact (hk.lookup e.1 hid).trans (h.lookup e he)

theorem Inv.insert (h : w.Inv) {obsID : Int} (rp : ResolvedPath) (hnew : obsID ∉ w.lru.lruOrder)
    (hle : w.lru.lruOrder.length < lruMaxSize) :
    Inv ⟨⟨w.lru.apiResolvedPathLRU.insert obsID rp, w.lru.lruOrder ++ [obsID]⟩, w.entries ++ [(obsID, rp)]⟩ := by
  have hdead : ∀ e ∈ w.entries, e.1 ≠ obsID := by
    rintro e he rfl
    exact hnew (h.mem_order _ (h.live_of_mem he))
  refine ⟨?_, fun id hid => ?_, ?_, ?_, fun e he => ?_⟩
  · rw [List.length_append, List.length_singleton]
    exact hle
  · rw [live_iff] at hid
    rcases (AList.mem_insert _).mp hid with rfl | hid
    · exact List.mem_append_right _ (List.mem_singleton_self _)
    · exact List.mem_append_left _ (h.mem_order id (live_iff.mpr hid))
  · have hsame : w.lru.lruOrder.filter
        (LRU.live ⟨w.lru.apiResolvedPathLRU.insert obsID rp, w.lru.lruOrder ++ [obsID]⟩) =
        w.lru.lruOrder.filter w.lru.live := by
      refine List.filter_congr fun id hid => ?_
      have hne : id ≠ obsID := by
        rintro rfl
        exact hnew hid
      simp [live, hne]
    rw [List.filter_append, hsame, h.ids, List.map_append]
    simp [live]
  · rw [List.map_append, List.map_singleton, List.nodup_append]
    refine ⟨h.nodup, List.nodup_singleton _, fun id hid id' hid' => ?_⟩
    obtain ⟨e, he, rfl⟩ := List.mem_map.mp hid
    rw [List.mem_singleton.mp hid']
    exact hdead e he
  · rcases List.mem_append.mp he with he | he
    · exact (AList.lookup_insert_ne (hdead e he)).trans (h.lookup e he)
    · rw [List.mem_singleton.mp he]
      exact AList.lookup_insert _

theorem Inv.step_of_live (h : w.Inv) {obsID : Int} (rp : ResolvedPath) (hid : w.lru.live obsID) :
    w.step (.lruPut obsID rp) = w := by
  have hlru : w.lru.lruPut obsID rp = w.lru := if_pos (live_iff.mp hid)
  have hkept : w.entries.filter (fun e => w.lru.live e.1) = w.entries :=
    List.filter_eq_self.mpr fun e he => h.live_of_mem he
  simp only [step, LRU.step, hlru, if_pos hid, hkept]

theorem live_lruPut {s : LRU} {obsID id : Int} {rp : ResolvedPath} (hid : ¬ s.live obsID) :
    (s.lruPut obsID rp).live id ↔ id = obsID ∨ s.compact.makeRoom.live id := by
  rw [lruPut, if_neg (mt live_iff.mpr hid), live_iff, live_iff]
  exact AList.mem_insert _

theorem Inv.step_of_new (h : w.Inv) {obsID : Int} (rp : ResolvedPath) (hid : ¬ w.lru.live obsID) :
    w.step (.lruPut obsID rp) = ⟨⟨w.lru.compact.makeRoom.apiResolvedPathLRU.insert obsID rp,
      w.lru.compact.makeRoom.lruOrder ++ [obsID]⟩,
      (w.entries.filter fun e => w.lru.compact.makeRoom.live e.1) ++ [(obsID, rp)]⟩ := by
  have hkept : w.entries.filter (fun e => (w.lru.lruPut obsID rp).live e.1) =
      w.entries.filter fun e => w.lru.compact.makeRoom.live e.1 := by
    refine List.filter_congr fun e he => Bool.eq_iff_iff.mpr ((live_lruPut hid).trans (or_iff_right ?_))
    rintro rfl
    exact hid (h.live_of_mem he)
  have hlru : w.lru.lruPut obsID rp = ⟨w.lru.compact.makeRoom.apiResolvedPathLRU.insert obsID rp,
      w.lru.compact.makeRoom.lruOrder ++ [obsID]⟩ := if_neg (mt live_iff.mpr hid)
  simp only [step, LRU.step, if_neg hid, hkept]
  rw [hlru]

theorem clearsCopies_iff {obsID : Int} {rp : ResolvedPath} (hid : ¬ w.lru.live obsID) :
    w.ClearsCopies (.lruPut obsID rp) ↔ obsID ∉ w.lru.compact.makeRoom.lruOrder := by
  rw [mem_makeRoom hid]
  constructor
  · rintro hclear ⟨hmem, hstays⟩
    obtain ⟨hfull, hfew | hgone⟩ := hclear hid hmem
    · exact (hstays hfull).1.not_gt hfew
    · exact hgone (hstays hfull).2
  · intro hgone _ hmem
    by_contra hstays
    refine hgone ⟨hmem, fun hfull => ?_⟩
    rw [not_and, not_or, not_lt, not_not] at hstays
    exact hstays hfull

theorem Inv.step (h : w.Inv) (hclear : w.ClearsCopies c) : (w.step c).Inv := by
  cases c with
  | lruPut obsID rp =>
      by_cases hid : w.lru.live obsID
      · rw [h.step_of_live rp hid]
        exact h
      · have hlt := length_makeRoom h.order_le
        have hroom := h.kept evicted_makeRoom.kept hlt.le
        rw [h.step_of_new rp hid]
        exact hroom.insert rp ((clearsCopies_iff hid).mp hclear) hlt
  | lruDelete obsID => exact h.kept kept_lruDelete h.order_le

theorem Inv.evictsOldest (h : w.Inv) {obsID : Int} (rp : ResolvedPath) (hid : ¬ w.lru.live obsID) :
    w.EvictsOldest obsID rp := by
  cases evicted_makeRoom (s := w.lru) with
  | nothing hm _ =>
      refine .inl fun id hlive => (live_lruPut hid).mpr (.inr ?_)
      rw [live_iff, hm]
      exact live_iff.mp hlive
  | oldest first rest hm hfirst _ =>
      rw [h.ids] at hfirst
      obtain ⟨e, es, hes, rfl, -⟩ := List.map_eq_cons_iff.mp hfirst
      have he : e ∈ w.entries := hes ▸ List.mem_cons_self
      refine .inr ⟨e, hes ▸ rfl, h.live_of_mem he, fun id hlive => ?_⟩
      have hne : id ≠ obsID := by
        rintro rfl
        exact hid hlive
      rw [live_lruPut hid, or_iff_right hne, live_iff, hm, AList.mem_erase]
      exact and_iff_left (live_iff.mp hlive)

theorem Inv.sound (h : w.Inv) : w.Sound where
  live_le := by
    have hsub : w.lru.apiResolvedPathLRU.keys ⊆ w.lru.lruOrder := fun id hid => h.mem_order id (live_iff.mpr hid)
    exact (List.subperm_of_subset (AList.keys_nodup _) hsub).length_le.trans h.order_le
  order_le := h.order_le
  once := fun id hid => by
    rw [← List.count_filter hid, h.ids]
    exact List.count_eq_one_of_mem h.nodup (h.mem_of_live hid)
  evicts := fun _ rp hid => h.evictsOldest rp hid
  put := fun obsID rp hid => by
    rw [lruPut, if_neg (mt live_iff.mpr hid)]
    exact AList.lookup_insert _
  stored := fun id rp => by
    refine ⟨fun hlookup => ?_, h.lookup (id, rp)⟩
    have hid : w.lru.live id := by
      rw [live_iff, ← AList.lookup_isSome, hlookup]
      rfl
    obtain ⟨e, he, rfl⟩ := List.mem_map.mp (h.mem_of_live hid)
    rw [h.lookup e he] at hlookup
    cases hlookup
    exact he

theorem clearsCopies_of_once (h : ∀ id, (w.step c).lru.live id → (w.step c).lru.lruOrder.count id = 1) :
    w.ClearsCopies c := by
  cases c with
  | lruDelete _ => trivial
  | lruPut obsID rp =>
      by_cases hid : w.lru.live obsID
      · exact fun hnew => absurd hid hnew
      · rw [clearsCopies_iff hid, ← List.count_eq_zero]
        have honce := h obsID ((live_lruPut hid).mpr (.inl rfl))
        change (w.lru.lruPut obsID rp).lruOrder.count obsID = 1 at honce
        rw [lruPut, if_neg (mt live_iff.mpr hid), List.count_append, List.count_singleton_self] at honce
        omega

/-- The bounds, the order and the lookups are right all along a run if and only if each call with a new id meets no
older copy of it in the order or clears it away. -/
theorem sound_iff_clearsCopies (calls : List Call) :
    (∀ done, done <+: calls → (run done).Sound) ↔ Along step ClearsCopies start calls := by
  constructor
  · intro h
    refine along_of_prefixes fun done c hdone => clearsCopies_of_once ?_
    have hsound := h (done ++ [c]) hdone
    rw [run, List.foldl_append] at hsound
    exact hsound.once
  · rintro h done ⟨rest, rfl⟩
    exact (h.append_left.foldl_invariant inv_start fun w c hw hc => hw.step hc).sound

/-- An id that is deleted and put again stands twice in the order. -/
theorem not_sound_after_delete :
    ¬ ∀ calls done, done <+: calls → (run done).Sound := by
  intro h
  have hsound := h [.lruPut 1 (some [none]), .lruDelete 1, .lruPut 1 (some [none])] _ (List.prefix_refl _)
  have honce : [(1 : Int), 1].count 1 = 1 := hsound.once 1 rfl
  cases honce

end Watched

end MeshcoreAnalyzer.ResolvedCache

import MeshcoreAnalyzer.GeoFilter
import MeshcoreAnalyzer.Merges

namespace MeshcoreAnalyzer.NodePages

open Merges

/-! `fetchAllNodes` of public/app.js, which pages through `handleNodes` of cmd/server/routes.go. The rows are cut into
pages before those are taken out that the server does not show. -/

structure Node where
  publicKey : String
  name : Option String
  lat : Option ℚ
  lon : Option ℚ
  foreign : Bool

/-- What the configuration and the request filter by; `areaNodes` are the keys of the area that is asked for. -/
structure Filters where
  geoFilter : Option GeoFilter.Config
  nodeBlacklist : List String
  hiddenNamePrefixes : List String
  areaNodes : Option (String → Bool)

/-- `normal` is `strings.ToLower(strings.TrimSpace(pk))`. -/
structure Library where
  normal : String → String
  distToSegmentKm : ℚ → ℚ → GeoFilter.Point → GeoFilter.Point → ℚ

variable (lib : Library) {C : Type}

/-- cmd/server/geo_filter.go; the filter always has an answer. -/
def nodePassesGeoFilter (gf : Option GeoFilter.Config) (lat lon : Option ℚ) : Bool :=
  match gf, lat, lon with
  | some gf, some lat, some lon => GeoFilter.passesFilter lib.distToSegmentKm lat lon (some gf) != some false
  | _, _, _ => true

def isBlacklisted (nodeBlacklist : List String) (pubkey : String) : Bool :=
  nodeBlacklist.any fun pk => lib.normal pk ≠ "" && lib.normal pk = lib.normal pubkey

def isNameHidden (hiddenNamePrefixes : List String) (name : String) : Bool :=
  hiddenNamePrefixes.any fun p => p ≠ "" && p.toList.isPrefixOf name.toList

def shows (f : Filters) (n : Node) : Bool :=
  (n.foreign || nodePassesGeoFilter lib f.geoFilter n.lat n.lon) && !isBlacklisted lib f.nodeBlacklist n.publicKey &&
    !isNameHidden f.hiddenNamePrefixes (n.name.getD "") && f.areaNodes.all fun inArea => inArea n.publicKey

def Filters.any (f : Filters) : Bool :=
  f.geoFilter.isSome || f.nodeBlacklist ≠ [] || f.hiddenNamePrefixes ≠ [] || f.areaNodes.isSome

def clampLimit (n def_ max : Int) : Int := if n ≤ 0 then def_ else if max < n then max else n

/-- The rows of the query in its order, by `LIMIT` and `OFFSET`. -/
def getNodes (rows : List Node) (limit offset : Int) : List Node :=
  let limit := if limit ≤ 0 then 50 else limit
  (rows.drop offset.toNat).take limit.toNat

structure NodeListResponse (C : Type) where
  nodes : List Node
  total : Nat
  counts : C

/-- The server over a table that does not change: the public key is the primary key, and the limit has its default. -/
structure Server (C : Type) where
  rows : List Node
  nodup : (rows.map Node.publicKey).Nodup
  keyed : ∀ n ∈ rows, n.publicKey ≠ ""
  filters : Filters
  nodesMax : Nat
  nodesMax_pos : 0 < nodesMax
  counts : C

def Server.handleNodes (s : Server C) (limit offset : Int) : NodeListResponse C :=
  let page := getNodes s.rows (clampLimit limit 50 s.nodesMax) offset
  let nodes := page.filter (shows lib s.filters)
  { nodes, total := if s.filters.any then nodes.length else s.rows.length, counts := s.counts }

structure Options where
  pageSize : Nat := 500
  safetyCap : Nat := 10000
  pageSize_pos : 0 < pageSize

def gather (api : Int → Int → NodeListResponse C) (o : Options) : Nat → Nat → List Node
  | 0, _ => []
  | turns + 1, offset =>
      if offset < o.safetyCap then
        let page := (api o.pageSize offset).nodes
        page ++ if page.length < o.pageSize then [] else gather api o turns (offset + o.pageSize)
      else []

def rowKey (n : Node) (i : Nat) : String := if n.publicKey = "" then "__nokey" ++ toString i else n.publicKey

structure NodeList (C : Type) where
  nodes : List Node
  counts : Option C
  total : Nat

def fetchAllNodes (api : Int → Int → NodeListResponse C) (o : Options) : NodeList C :=
  let accumulated := gather api o o.safetyCap 0
  let seen := accumulated.zipIdx.foldl (fun m p => put m (rowKey p.1 p.2, p.1)) []
  let nodes := (seen.map Prod.snd).take o.safetyCap
  { nodes, counts := if 0 < o.safetyCap then some (api o.pageSize 0).counts else none, total := nodes.length }

variable (s : Server C) (o : Options)

def pageRows : Nat := min o.pageSize s.nodesMax

/-- The page with the number `k`. -/
def page (k : Nat) : List Node := ((s.rows.drop (k * o.pageSize)).take (pageRows s o)).filter (shows lib s.filters)

def Short (k : Nat) : Prop := (page lib s o k).length < o.pageSize

variable {lib s o}

theorem handleNodes_nodes (k : Nat) :
    (s.handleNodes lib o.pageSize ((k * o.pageSize : Nat) : Int)).nodes = page lib s o k := by
  have hpos := o.pageSize_pos
  have hmax := s.nodesMax_pos
  have hlimit : (if clampLimit o.pageSize 50 s.nodesMax ≤ 0 then 50 else clampLimit o.pageSize 50 s.nodesMax) =
      ((pageRows s o : Nat) : Int) := by
    rw [clampLimit, pageRows]
    split_ifs <;> omega
  rw [Server.handleNodes, page, getNodes]
  simp only [hlimit, Int.toNat_natCast]

theorem full_page {k : Nat} (h : ¬ Short lib s o k) :
    pageRows s o = o.pageSize ∧
      page lib s o k = (s.rows.drop (k * o.pageSize)).take o.pageSize ∧ (page lib s o k).length = o.pageSize := by
  rw [Short, Nat.not_lt] at h
  have hrows : pageRows s o ≤ o.pageSize := Nat.min_le_left ..
  have hfilter : (page lib s o k).length ≤ ((s.rows.drop (k * o.pageSize)).take (pageRows s o)).length :=
    List.length_filter_le ..
  have htake : ((s.rows.drop (k * o.pageSize)).take (pageRows s o)).length ≤ pageRows s o := List.length_take_le ..
  have hsize : pageRows s o = o.pageSize := by omega
  have hsame : (page lib s o k).length = ((s.rows.drop (k * o.pageSize)).take (pageRows s o)).length := by omega
  have hwhole : page lib s o k = (s.rows.drop (k * o.pageSize)).take (pageRows s o) :=
    List.filter_eq_self.mpr (List.length_filter_eq_length_iff.mp hsame)
  rw [hsize] at hwhole
  exact ⟨hsize, hwhole, by omega⟩

theorem length_shown {j : Nat} (h : ∀ i < j, ¬ Short lib s o i) :
    ((s.rows.take (j * o.pageSize)).filter (shows lib s.filters)).length = j * o.pageSize := by
  induction j with
  | zero => simp
  | succ j ih =>
      obtain ⟨hsize, hpage, hlength⟩ := full_page (h j j.lt_succ_self)
      have hlast : ((s.rows.drop (j * o.pageSize)).take o.pageSize).filter (shows lib s.filters) = page lib s o j := by
        rw [page, hsize]
      have hfirst := ih fun i hi => h i (Nat.lt_succ_of_lt hi)
      rw [Nat.succ_mul, List.take_add, List.filter_append, List.length_append, hfirst, hlast, hlength]

theorem gather_eq (lib : Library) (s : Server C) (o : Options) (turns k : Nat)
    (henough : o.safetyCap ≤ k * o.pageSize + turns) :
    ∃ j ≥ k, (∀ i, k ≤ i → i < j → ¬ Short lib s o i) ∧
      (o.safetyCap ≤ j * o.pageSize ∧ gather (s.handleNodes lib) o turns (k * o.pageSize) =
          ((s.rows.drop (k * o.pageSize)).take ((j - k) * o.pageSize)).filter (shows lib s.filters) ∨
        j * o.pageSize < o.safetyCap ∧ Short lib s o j ∧ gather (s.handleNodes lib) o turns (k * o.pageSize) =
          ((s.rows.drop (k * o.pageSize)).take ((j - k) * o.pageSize + pageRows s o)).filter
            (shows lib s.filters)) := by
  have hpos := o.pageSize_pos
  induction turns generalizing k with
  | zero => exact ⟨k, Nat.le_refl k, by omega, .inl ⟨by omega, by simp [gather]⟩⟩
  | succ turns ih =>
      rw [gather]
      by_cases hcap : k * o.pageSize < o.safetyCap
      · simp only [if_pos hcap, handleNodes_nodes]
        by_cases hshort : Short lib s o k
        · have hlt : (page lib s o k).length < o.pageSize := hshort
          refine ⟨k, Nat.le_refl k, by omega, .inr ⟨hcap, hshort, ?_⟩⟩
          rw [if_pos hlt, Nat.sub_self, Nat.zero_mul, Nat.zero_add, List.append_nil, page]
        · have hlt : ¬ (page lib s o k).length < o.pageSize := hshort
          have hnext : k * o.pageSize + o.pageSize = (k + 1) * o.pageSize := (Nat.succ_mul ..).symm
          obtain ⟨hsize, hpage, -⟩ := full_page hshort
          obtain ⟨j, hj, hfull, hstop⟩ := ih (k + 1) (by omega)
          have hsub : (j - k) * o.pageSize = o.pageSize + (j - (k + 1)) * o.pageSize := by
            rw [show j - k = j - (k + 1) + 1 by omega, Nat.succ_mul, Nat.add_comm]
          have hhead : page lib s o k =
              ((s.rows.drop (k * o.pageSize)).take o.pageSize).filter (shows lib s.filters) := by
            rw [page, hsize]
          refine ⟨j, by omega, fun i hi hij => ?_, ?_⟩
          · rcases Nat.eq_or_lt_of_le hi with rfl | hi
            · exact hshort
            · exact hfull i hi hij
          · rw [if_neg hlt, hnext, hhead, hsub]
            refine hstop.imp (fun ⟨hend, heq⟩ => ⟨hend, ?_⟩) fun ⟨hend, hlast, heq⟩ => ⟨hend, hlast, ?_⟩
            · rw [heq, ← List.filter_append, List.take_add, List.drop_drop, hnext]
            · rw [heq, ← List.filter_append, Nat.add_assoc, List.take_add (i := o.pageSize), List.drop_drop, hnext]
      · exact ⟨k, Nat.le_refl k, by omega, .inl ⟨by omega, by simp [if_neg hcap]⟩⟩

theorem foldl_put (l : List Node) (hnd : (l.map Node.publicKey).Nodup) (hkeyed : ∀ n ∈ l, n.publicKey ≠ "")
    (i : Nat) (m : List (String × Node)) (hnew : ∀ n ∈ l, n.publicKey ∉ m.map Prod.fst) :
    (l.zipIdx i).foldl (fun m p => put m (rowKey p.1 p.2, p.1)) m = m ++ l.map fun n => (n.publicKey, n) := by
  induction l generalizing i m with
  | nil => simp
  | cons n l ih =>
      rw [List.map_cons, List.nodup_cons] at hnd
      have hkey : rowKey n i = n.publicKey := if_neg (hkeyed n List.mem_cons_self)
      have hput : put m (n.publicKey, n) = m ++ [(n.publicKey, n)] := upsert_of_notMem (hnew n List.mem_cons_self)
      rw [List.zipIdx_cons, List.foldl_cons, hkey, hput, ih hnd.2 (fun a ha => hkeyed a (List.mem_cons_of_mem n ha))]
      · simp
      · intro a ha hmem
        rw [List.map_append, List.mem_append] at hmem
        rcases hmem with hmem | hmem
        · exact hnew a (List.mem_cons_of_mem n ha) hmem
        · have heq : a.publicKey = n.publicKey := by simpa using hmem
          exact hnd.1 (heq ▸ List.mem_map_of_mem ha)

theorem fetchAllNodes_nodes {read : Nat}
    (hread : gather (s.handleNodes lib) o o.safetyCap 0 = (s.rows.take read).filter (shows lib s.filters)) :
    (fetchAllNodes (s.handleNodes lib) o).nodes =
      ((s.rows.take read).filter (shows lib s.filters)).take o.safetyCap := by
  have hsub : ((s.rows.take read).filter (shows lib s.filters)).Sublist s.rows :=
    List.filter_sublist.trans (List.take_sublist ..)
  have hput := foldl_put _ (s.nodup.sublist (hsub.map _)) (fun n hn => s.keyed n (hsub.subset hn)) 0 [] (by simp)
  simp only [fetchAllNodes, hread, hput]
  simp [Function.comp_def]

theorem take_append_iff {A : Type} (n : Nat) (l l' : List A) :
    l.take n = (l ++ l').take n ↔ n ≤ l.length ∨ l' = [] := by
  rw [List.take_append, List.self_eq_append_right, List.take_eq_nil_iff, Nat.sub_eq_zero_iff_le]

/-- The nodes that are shown, up to the cap. -/
def Complete (lib : Library) (s : Server C) (o : Options) : Prop :=
  (fetchAllNodes (s.handleNodes lib) o).nodes = (s.rows.filter (shows lib s.filters)).take o.safetyCap

/-- The first short page that is asked for, if there is one, fills the list up to the cap, or nothing that is shown
comes after it. -/
def EndsShort (lib : Library) (s : Server C) (o : Options) : Prop :=
  ∀ j, j * o.pageSize < o.safetyCap → (∀ i < j, ¬ Short lib s o i) → Short lib s o j →
    o.safetyCap ≤ j * o.pageSize + (page lib s o j).length ∨
      ∀ n ∈ s.rows.drop (j * o.pageSize + pageRows s o), ¬ shows lib s.filters n

theorem filter_split (read : Nat) : s.rows.filter (shows lib s.filters) =
    (s.rows.take read).filter (shows lib s.filters) ++ (s.rows.drop read).filter (shows lib s.filters) := by
  rw [← List.filter_append, List.take_append_drop]

theorem complete_of_read {read : Nat}
    (hread : gather (s.handleNodes lib) o o.safetyCap 0 = (s.rows.take read).filter (shows lib s.filters)) :
    Complete lib s o ↔ o.safetyCap ≤ ((s.rows.take read).filter (shows lib s.filters)).length ∨
      ∀ n ∈ s.rows.drop read, ¬ shows lib s.filters n := by
  rw [Complete, fetchAllNodes_nodes hread, filter_split read, take_append_iff, List.filter_eq_nil_iff]

theorem complete_iff (s : Server C) (o : Options) : Complete lib s o ↔ EndsShort lib s o := by
  obtain ⟨j, -, hfull, hstop⟩ := gather_eq lib s o o.safetyCap 0 (by omega)
  have hbefore : ∀ i < j, ¬ Short lib s o i := fun i hi => hfull i (Nat.zero_le i) hi
  have hlength := length_shown hbefore
  rw [Nat.zero_mul, Nat.sub_zero, List.drop_zero] at hstop
  rcases hstop with ⟨hcap, hread⟩ | ⟨hcap, hshort, hread⟩
  · apply iff_of_true
    · exact (complete_of_read hread).mpr (.inl (by omega))
    · intro i hi _ hshort
      have hij : i < j := Nat.lt_of_mul_lt_mul_right (hi.trans_le hcap)
      exact absurd hshort (hbefore i hij)
  · have hall : ((s.rows.take (j * o.pageSize + pageRows s o)).filter (shows lib s.filters)).length =
        j * o.pageSize + (page lib s o j).length := by
      rw [List.take_add, List.filter_append, List.length_append, hlength, page]
    rw [complete_of_read hread, hall]
    constructor
    · intro h i _ hi hshort'
      rcases Nat.lt_trichotomy i j with hij | rfl | hij
      · exact absurd hshort' (hbefore i hij)
      · exact h
      · exact absurd hshort (hi j hij)
    · intro h
      exact h j hcap hbefore hshort

theorem isInitial_nodes (s : Server C) (o : Options) :
    (fetchAllNodes (s.handleNodes lib) o).nodes <+: s.rows.filter (shows lib s.filters) := by
  obtain ⟨read, hread⟩ : ∃ read, gather (s.handleNodes lib) o o.safetyCap 0 =
      (s.rows.take read).filter (shows lib s.filters) := by
    obtain ⟨j, -, -, ⟨-, hread⟩ | ⟨-, -, hread⟩⟩ := gather_eq lib s o o.safetyCap 0 (by omega)
    all_goals
      rw [Nat.zero_mul, List.drop_zero] at hread
      exact ⟨_, hread⟩
  rw [fetchAllNodes_nodes hread, filter_split read]
  exact (List.take_prefix ..).trans (List.prefix_append ..)

theorem complete_of_shown (hsize : o.pageSize ≤ s.nodesMax) (hshown : ∀ n ∈ s.rows, shows lib s.filters n) :
    Complete lib s o := by
  apply (complete_iff s o).mpr
  intro j _ _ hshort
  have hrows : pageRows s o = o.pageSize := Nat.min_eq_left hsize
  have hwhole : page lib s o j = (s.rows.drop (j * o.pageSize)).take (pageRows s o) :=
    List.filter_eq_self.mpr fun n hn => hshown n (List.mem_of_mem_drop (List.mem_of_mem_take hn))
  rw [Short, hwhole, List.length_take, List.length_drop, hrows] at hshort
  have hend : s.rows.drop (j * o.pageSize + pageRows s o) = [] := List.drop_eq_nil_of_le (by omega)
  right
  simp [hend]

structure Paged (lib : Library) (s : Server C) (o : Options) : Prop where
  listed : (fetchAllNodes (s.handleNodes lib) o).nodes <+: s.rows.filter (shows lib s.filters)
  complete_iff : Complete lib s o ↔ EndsShort lib s o
  whole : o.pageSize ≤ s.nodesMax → (∀ n ∈ s.rows, shows lib s.filters n) → Complete lib s o

/-- The pages of any table under any filters, of any size and up to any cap. -/
theorem fetched_pages (lib : Library) (s : Server C) (o : Options) : Paged lib s o :=
  ⟨isInitial_nodes s o, complete_iff s o, fun hsize hshown => complete_of_shown hsize hshown⟩

end MeshcoreAnalyzer.NodePages

import MeshcoreAnalyzer.Joins
import MeshcoreAnalyzer.PacketQueries
import MeshcoreAnalyzer.Runs
import MeshcoreAnalyzer.System

namespace MeshcoreAnalyzer.PacketStore.GroupedQueries

open Maps Runs Joins Store

/-! `QueryGroupedPackets` of cmd/server/store.go with its cache of one sorted list. -/

def fields (q : PacketFilter) : List String :=
  [q.since, q.before, q.region, q.area, q.node, q.hash, q.observer, q.channel]

def suffixes (q : PacketFilter) : List String :=
  (q.type.map fun t => "t" ++ toString t).toList ++ (q.route.map fun r => "r" ++ toString r).toList

def cacheKey (q : PacketFilter) : String :=
  let cacheKey := q.since ++ "|" ++ q.before ++ "|" ++ q.region ++ "|" ++ q.area ++ "|" ++ q.node ++ "|" ++ q.hash ++
    "|" ++ q.observer ++ "|" ++ q.channel
  let cacheKey := match q.type with
    | some t => cacheKey ++ ("|t" ++ toString t)
    | none => cacheKey
  match q.route with
  | some r => cacheKey ++ ("|r" ++ toString r)
  | none => cacheKey

def parts (q : PacketFilter) : List (List Char) :=
  ((fields q ++ suffixes q).map String.toList).flatMap (List.splitOn '|')

theorem toList_cacheKey (q : PacketFilter) :
    (cacheKey q).toList = ['|'].intercalate ((fields q ++ suffixes q).map String.toList) := by
  rw [cacheKey, fields, suffixes]
  cases q.type <;> cases q.route <;> simp [String.toList_append, List.intercalate_cons_cons]

theorem cacheKey_eq_iff (q q' : PacketFilter) : cacheKey q = cacheKey q' ↔ parts q = parts q' := by
  rw [← String.toList_inj, toList_cacheKey, toList_cacheKey]
  exact intercalate_eq_iff '|' (by simp [fields]) (by simp [fields])

theorem isDigit_of_mem_repr {n : Nat} {c : Char} (h : c ∈ n.repr.toList) : c.isDigit = true := by
  rw [Nat.toList_repr] at h
  exact Nat.isDigit_of_mem_toDigits (by decide) (by decide) h

theorem natRepr_injective {m n : Nat} (h : m.repr = n.repr) : m = n := by
  have hdigits := congrArg (fun s => Nat.ofDigitChars 10 s.toList 0) h
  simpa only [Nat.toList_repr, Nat.ofDigitChars_ten_toDigits] using hdigits

theorem minus_ne_repr (s : String) (n : Nat) : "-" ++ s ≠ n.repr := by
  intro h
  have hmem : '-' ∈ n.repr.toList := by simp [← h, String.toList_append]
  exact absurd (isDigit_of_mem_repr hmem) (by decide)

theorem repr_injective {a b : Int} (h : a.repr = b.repr) : a = b := by
  rw [Int.repr_eq_if, Int.repr_eq_if] at h
  split at h
  · split at h
    · have hnat := natRepr_injective h
      omega
    · exact absurd h.symm (minus_ne_repr _ _)
  · split at h
    · exact absurd h (minus_ne_repr _ _)
    · have hnat := natRepr_injective (String.append_right_inj _ |>.mp h)
      omega

theorem notMem_repr {c : Char} (hdigit : c.isDigit = false) (hminus : c ≠ '-') (n : Int) : c ∉ n.repr.toList := by
  have hdigits : ∀ m : Nat, c ∉ m.repr.toList := by
    intro m hm
    rw [isDigit_of_mem_repr hm] at hdigit
    cases hdigit
  rw [Int.repr_eq_if]
  split
  · exact hdigits _
  · rw [String.toList_append, List.mem_append]
    rintro (h | h)
    · exact hminus (List.mem_singleton.mp h)
    · exact hdigits _ h

theorem suffix_ne (a b : Int) : "t" ++ toString a ≠ "r" ++ toString b := by
  intro h
  have hhead := congrArg (fun s : String => s.toList.head?) h
  simp [String.toList_append] at hhead

theorem suffix_injective {p : String} {a b : Int} (h : p ++ toString a = p ++ toString b) : a = b :=
  repr_injective ((String.append_right_inj p).mp h)

theorem mem_suffixes_type {q : PacketFilter} {t : Int} : "t" ++ toString t ∈ suffixes q ↔ q.type = some t := by
  rw [suffixes]
  rw [List.mem_append, Option.mem_toList, Option.mem_toList, Option.map_eq_some_iff, Option.map_eq_some_iff]
  constructor
  · rintro (⟨t', ht', heq⟩ | ⟨r, _, heq⟩)
    · exact suffix_injective heq ▸ ht'
    · exact absurd heq.symm (suffix_ne t r)
  · exact fun h => Or.inl ⟨t, h, rfl⟩

theorem mem_suffixes_route {q : PacketFilter} {r : Int} : "r" ++ toString r ∈ suffixes q ↔ q.route = some r := by
  rw [suffixes]
  rw [List.mem_append, Option.mem_toList, Option.mem_toList, Option.map_eq_some_iff, Option.map_eq_some_iff]
  constructor
  · rintro (⟨t, _, heq⟩ | ⟨r', hr', heq⟩)
    · exact absurd heq (suffix_ne t r)
    · exact suffix_injective heq ▸ hr'
  · exact fun h => Or.inr ⟨r, h, rfl⟩

def Separated (q : PacketFilter) : Prop := ∀ f ∈ fields q, '|' ∉ f.toList

theorem parts_of_separated {q : PacketFilter} (h : Separated q) :
    parts q = (fields q ++ suffixes q).map String.toList := by
  apply flatMap_splitOn_of_notMem
  intro t ht
  obtain ⟨f, hf, rfl⟩ := List.mem_map.mp ht
  rcases List.mem_append.mp hf with hf | hf
  · exact h f hf
  · unfold suffixes at hf
    simp only [List.mem_append, Option.mem_toList, Option.map_eq_some_iff] at hf
    rcases hf with ⟨n, _, rfl⟩ | ⟨n, _, rfl⟩ <;> simp [String.toList_append, notMem_repr (c := '|') rfl (by decide) n]

theorem eq_of_parts {q q' : PacketFilter} (h : Separated q) (h' : Separated q') (heq : parts q = parts q') :
    q = q' := by
  rw [parts_of_separated h, parts_of_separated h'] at heq
  have hlist : fields q ++ suffixes q = fields q' ++ suffixes q' :=
    List.map_injective_iff.mpr (fun _ _ => String.toList_inj.mp) heq
  obtain ⟨hfields, hsuffixes⟩ := List.append_inj hlist rfl
  have htype : q.type = q'.type := Option.ext fun t => by
    rw [← mem_suffixes_type, hsuffixes, mem_suffixes_type]
  have hroute : q.route = q'.route := Option.ext fun r => by
    rw [← mem_suffixes_route, hsuffixes, mem_suffixes_route]
  cases q
  cases q'
  simp_all [fields]

/-- A sort that is not stable: `sort.Slice`, and `ORDER BY … DESC` of SQLite. -/
structure DescendingSort (α : Type) (key : α → String) where
  sort : List α → List α
  perm : ∀ l, (sort l).Perm l
  sorted : ∀ l, (sort l).Pairwise fun a b => key b ≤ key a

structure GroupedResult where
  packets : List TxRow
  total : Nat
deriving DecidableEq

/-- `MAX(strftime(…, oi.timestamp, 'unixepoch'))` of the observations, else `first_seen`. -/
def latest (strftime : Int → String) (db : DB) (tx : TransmissionRow) : String :=
  ((db.heard tx.id).map fun o => strftime o.timestamp).max?.getD tx.firstSeen

/-- `groupedTxsToPage`; `none` is a slice out of its bounds. -/
def groupedTxsToPage (s : Store) (txs : List TxRef) (total : Nat) (offset limit : Int) : Option GroupedResult :=
  if txs.length ≤ offset then some { packets := [], total }
  else if offset < 0 then none
  else
    let stop := if txs.length < offset + limit then (txs.length : Int) else offset + limit
    some { packets := ((txs.take stop.toNat).drop offset.toNat).map s.row, total }

/-- The cached list. `owner` is not in the source: it is the query that the list was
computed for. -/
structure Entry where
  txs : List TxRef
  total : Nat
  key : String
  exp : Int
  owner : PacketFilter

/-- A call at a time; the database may fail. -/
structure Call where
  query : PacketQuery
  now : Int
  sqlFails : Bool

section Service

-- The store and the database stay as they are. The functions are those of `filterPackets`, and how the two sort.
variable (toUpper : String → String) (areaNodes : String → Option (List String)) (strftime : Int → String)
variable (s : Store) (db : DB) (sortTxs : DescendingSort TxRef fun r => (s.heap r).latestSeen)
variable (sortRows : DescendingSort TransmissionRow (latest strftime db))

/-- `db.QueryGroupedPackets` -/
def sqlGroupedPackets (q : PacketQuery) : GroupedResult :=
  let rows := sortRows.sort (db.transmissions.filter (db.buildTransmissionWhere q.toPacketFilter))
  { packets := ((rows.drop q.offset.toNat).take q.pageSize).map TransmissionRow.toTxRow, total := rows.length }

def needsSQL (q : PacketFilter) : Bool :=
  s.oldestLoaded ≠ "" && ((q.since ≠ "" && q.since < s.oldestLoaded) || (q.before ≠ "" && q.before < s.oldestLoaded))

def Call.delegated (c : Call) : Bool := needsSQL s c.query.toPacketFilter && !c.sqlFails

def Entry.hit (e : Entry) (c : Call) : Bool := e.key = cacheKey c.query.toPacketFilter && c.now < e.exp

def fill (c : Call) : Entry :=
  let txs := sortTxs.sort (s.filterPackets toUpper areaNodes db c.query.toPacketFilter)
  { txs
    total := txs.length
    key := cacheKey c.query.toPacketFilter
    exp := c.now + 3 * Timestamps.second
    owner := c.query.toPacketFilter }

/-- What `QueryGroupedPackets` leaves in the cache, and what it returns. -/
def queryGroupedPackets (cache : Option Entry) (c : Call) : Option Entry × Option GroupedResult :=
  if c.delegated s then (cache, some (sqlGroupedPackets strftime db sortRows c.query))
  else
    let e := match cache with
      | some e => if e.hit c then e else fill toUpper areaNodes s db sortTxs c
      | none => fill toUpper areaNodes s db sortTxs c
    (some e, groupedTxsToPage s e.txs e.total c.query.offset c.query.pageSize)

def step (cache : Option Entry) (c : Call) : Option Entry :=
  (queryGroupedPackets toUpper areaNodes strftime s db sortTxs sortRows cache c).1

def ownPackets (c : Call) : List TxRow :=
  if c.delegated s then
    (sortRows.sort (db.transmissions.filter (db.buildTransmissionWhere c.query.toPacketFilter))).map
      TransmissionRow.toTxRow
  else (sortTxs.sort (s.filterPackets toUpper areaNodes db c.query.toPacketFilter)).map s.row

/-- The call is answered from the cache. -/
def Served (cache : Option Entry) (c : Call) (e : Entry) : Prop := c.delegated s = false ∧ cache = some e ∧ e.hit c = true

/-- The answer is the page of the query's own result, and not cut from a list that was
computed for another query. -/
structure Answered (cache : Option Entry) (c : Call) : Prop where
  page : 0 ≤ c.query.offset →
    (queryGroupedPackets toUpper areaNodes strftime s db sortTxs sortRows cache c).2 = some
      { packets := ((ownPackets toUpper areaNodes strftime s db sortTxs sortRows c).drop c.query.offset.toNat).take
          c.query.pageSize
        total := (ownPackets toUpper areaNodes strftime s db sortTxs sortRows c).length }
  own : ∀ e, Served s cache c e → e.owner = c.query.toPacketFilter

variable {toUpper areaNodes strftime s db sortTxs sortRows}

theorem groupedTxsToPage_eq (txs : List TxRef) (total : Nat) {offset : Int} (h : 0 ≤ offset) (limit : Nat) :
    groupedTxsToPage s txs total offset limit = some
      { packets := ((txs.map s.row).drop offset.toNat).take limit, total } := by
  obtain ⟨start, rfl⟩ := Int.eq_ofNat_of_zero_le h
  rw [groupedTxsToPage]
  split
  · next hend =>
      rw [List.drop_eq_nil_of_le (by rw [List.length_map]; omega), List.take_nil]
  · rw [if_neg (by omega)]
    simp only [Int.toNat_natCast, List.map_drop, List.map_take, List.drop_take]
    split
    · next hlong =>
        have hlen : ((txs.map s.row).drop start).length ≤ limit := by
          rw [List.length_drop, List.length_map]
          omega
        rw [Int.toNat_natCast, List.take_of_length_le hlen, List.take_of_length_le]
        rw [List.length_drop, List.length_map]
    · next hshort =>
        have hstop : ((start : Int) + limit).toNat - start = limit := by omega
        rw [hstop]

def Coherent (toUpper : String → String) (areaNodes : String → Option (List String)) (s : Store) (db : DB)
    (sortTxs : DescendingSort TxRef fun r => (s.heap r).latestSeen) (e : Entry) : Prop :=
  e.txs = sortTxs.sort (s.filterPackets toUpper areaNodes db e.owner) ∧ e.total = e.txs.length ∧
    e.key = cacheKey e.owner

theorem coherent_fill (c : Call) :
    Coherent toUpper areaNodes s db sortTxs (fill toUpper areaNodes s db sortTxs c) := ⟨rfl, rfl, rfl⟩

variable (sortRows) in
theorem step_cases (cache : Option Entry) (c : Call) :
    step toUpper areaNodes strftime s db sortTxs sortRows cache c = cache ∨
      c.delegated s = false ∧
        step toUpper areaNodes strftime s db sortTxs sortRows cache c = some (fill toUpper areaNodes s db sortTxs c) := by
  unfold step queryGroupedPackets
  split
  · exact Or.inl rfl
  · next hmem =>
      cases cache with
      | none => exact Or.inr ⟨by simpa using hmem, rfl⟩
      | some e =>
          by_cases hhit : e.hit c = true
          · simp [hhit]
          · simp [hhit, hmem]

theorem answered_of_own {cache : Option Entry} {c : Call}
    (hcache : ∀ e, cache = some e → Coherent toUpper areaNodes s db sortTxs e)
    (hown : ∀ e, Served s cache c e → e.owner = c.query.toPacketFilter) :
    Answered toUpper areaNodes strftime s db sortTxs sortRows cache c := by
  refine ⟨fun hoffset => ?_, hown⟩
  unfold queryGroupedPackets ownPackets
  by_cases hdel : c.delegated s = true
  · rw [if_pos hdel, if_pos hdel, sqlGroupedPackets]
    simp only [List.map_drop, List.map_take, List.length_map]
  · rw [if_neg hdel, if_neg hdel]
    have hlist : ∀ e, Coherent toUpper areaNodes s db sortTxs e → e.owner = c.query.toPacketFilter →
        groupedTxsToPage s e.txs e.total c.query.offset c.query.pageSize = some
          { packets := (((sortTxs.sort (s.filterPackets toUpper areaNodes db c.query.toPacketFilter)).map s.row).drop
              c.query.offset.toNat).take c.query.pageSize
            total := ((sortTxs.sort (s.filterPackets toUpper areaNodes db c.query.toPacketFilter)).map s.row).length } := by
      intro e ⟨htxs, htotal, _⟩ howner
      rw [groupedTxsToPage_eq e.txs e.total hoffset, htotal, htxs, howner, List.length_map]
    cases cache with
    | none => exact hlist _ (coherent_fill c) rfl
    | some e =>
        by_cases hhit : e.hit c = true
        · simp only [hhit, if_true]
          exact hlist e (hcache e rfl) (hown e ⟨by simpa using hdel, rfl, hhit⟩)
        · simp only [hhit]
          exact hlist _ (coherent_fill c) rfl

theorem answered_along {F : PacketFilter → Prop} (hF : ∀ q q', F q → F q' → parts q = parts q' → q = q')
    {cache : Option Entry} (hcache : ∀ e, cache = some e → Coherent toUpper areaNodes s db sortTxs e ∧ F e.owner)
    {calls : List Call} (hcalls : ∀ c ∈ calls, F c.query.toPacketFilter) :
    Along (step toUpper areaNodes strftime s db sortTxs sortRows)
      (Answered toUpper areaNodes strftime s db sortTxs sortRows) cache calls := by
  induction calls generalizing cache with
  | nil => trivial
  | cons c calls ih =>
      have hc := hcalls c List.mem_cons_self
      refine ⟨answered_of_own (fun e he => (hcache e he).1) ?_, ih ?_ fun d hd => hcalls d (List.mem_cons_of_mem c hd)⟩
      · intro e ⟨_, he, hhit⟩
        obtain ⟨⟨_, _, hkey⟩, howner⟩ := hcache e he
        apply hF _ _ howner hc
        rw [← cacheKey_eq_iff, ← hkey]
        simp only [Entry.hit, Bool.and_eq_true, decide_eq_true_eq] at hhit
        exact hhit.1
      · intro e he
        rcases step_cases sortRows cache c with hstep | ⟨_, hstep⟩
        · exact hcache e (hstep ▸ he)
        · obtain rfl : fill toUpper areaNodes s db sortTxs c = e := Option.some.inj (hstep.symm.trans he)
          exact ⟨coherent_fill c, hc⟩

variable (toUpper areaNodes strftime s db sortTxs sortRows)

theorem transparent_iff (F : PacketFilter → Prop) :
    (∀ calls : List Call, (∀ c ∈ calls, F c.query.toPacketFilter) →
      Along (step toUpper areaNodes strftime s db sortTxs sortRows)
        (Answered toUpper areaNodes strftime s db sortTxs sortRows) none calls) ↔
      ∀ q q', F q → F q' → parts q = parts q' → q = q' := by
  constructor
  · intro hall q q' hq hq' heq
    -- the two queries one after the other, while the database fails
    let c : Call := ⟨⟨q, 50, 0, .desc⟩, 0, true⟩
    let c' : Call := ⟨⟨q', 50, 0, .desc⟩, 0, true⟩
    have hrun := hall [c, c'] (by
      intro d hd
      rcases List.mem_cons.mp hd with rfl | hd
      · exact hq
      · rw [List.mem_singleton.mp hd]
        exact hq')
    have hmem : ∀ d : Call, d.sqlFails = true → d.delegated s = false := fun d hd => by simp [Call.delegated, hd]
    have hstep : step toUpper areaNodes strftime s db sortTxs sortRows none c =
        some (fill toUpper areaNodes s db sortTxs c) := by
      rw [step, queryGroupedPackets]
      rw [if_neg (by simp [hmem c rfl])]
    apply hrun.2.1.own (fill toUpper areaNodes s db sortTxs c)
    refine ⟨hmem c' rfl, hstep, ?_⟩
    have hkey : cacheKey q = cacheKey q' := (cacheKey_eq_iff q q').mpr heq
    simp [Entry.hit, fill, c, c', hkey, Timestamps.second]
  · intro hF calls hcalls
    apply answered_along hF (F := F) ?_ hcalls
    intro e he
    cases he

theorem transparent_of_separated {calls : List Call} (h : ∀ c ∈ calls, Separated c.query.toPacketFilter) :
    Along (step toUpper areaNodes strftime s db sortTxs sortRows)
      (Answered toUpper areaNodes strftime s db sortTxs sortRows) none calls := by
  apply answered_along (fun _ _ => eq_of_parts) ?_ h
  intro e he
  cases he

end Service

def stableSort {α : Type} (key : α → String) : DescendingSort α key where
  sort := fun l => l.insertionSort fun a b => key b ≤ key a
  perm := fun l => List.perm_insertionSort _ l
  sorted := fun l => List.pairwise_insertionSort (fun a b => key b ≤ key a) l

def advertStore : Store :=
  (Store.new true).run [.ingestNewFromDB (plainEnv none) 0 100 [bareRow (plainTx 1 "h1" "2026-01-01T00:00:00Z" 4)]]

def emptyDB : DB := ⟨[], [], [], [], List.nodup_nil, List.nodup_nil⟩

def byChannel : Call := ⟨{ channel := "|t4", limit := 50, offset := 0, order := .desc }, 0, false⟩

def byType : Call := ⟨{ type := some 4, limit := 50, offset := 0, order := .desc }, 1, false⟩

/-- The adverts are asked for after a channel of which there is nothing. -/
theorem foreign_list_served : ¬ ∀ (toUpper : String → String) (areaNodes : String → Option (List String))
    (strftime : Int → String) (s : Store) (db : DB) (sortTxs : DescendingSort TxRef fun r => (s.heap r).latestSeen)
    (sortRows : DescendingSort TransmissionRow (latest strftime db)) (calls : List Call),
      Along (step toUpper areaNodes strftime s db sortTxs sortRows)
        (Answered toUpper areaNodes strftime s db sortTxs sortRows) none calls := by
  intro hall
  have hrun := hall id (fun _ => none) (fun _ => "") advertStore emptyDB (stableSort _) (stableSort _) [byChannel, byType]
  have hpage := hrun.2.1.page (by decide)
  have hne : ¬ (queryGroupedPackets id (fun _ => none) (fun _ => "") advertStore emptyDB (stableSort _) (stableSort _)
      (step id (fun _ => none) (fun _ => "") advertStore emptyDB (stableSort _) (stableSort _) none byChannel) byType).2 = some
      { packets := ((ownPackets id (fun _ => none) (fun _ => "") advertStore emptyDB (stableSort _) (stableSort _) byType).drop
          byType.query.offset.toNat).take byType.query.pageSize
        total := (ownPackets id (fun _ => none) (fun _ => "") advertStore emptyDB (stableSort _) (stableSort _) byType).length } := by
    decide
  exact hne hpage

end MeshcoreAnalyzer.PacketStore.GroupedQueries

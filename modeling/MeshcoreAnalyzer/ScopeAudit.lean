import MeshcoreAnalyzer.Firsts
import MeshcoreAnalyzer.Maps
import MeshcoreAnalyzer.Transmissions

namespace MeshcoreAnalyzer.ScopeAudit

open Firsts Maps PacketStore

/-! `ScopeAuditForwarding` of cmd/server/scope_audit.go. Public keys and hops are hexadecimal digits. -/

structure ScopeObservation where
  scope : String
  packets : Nat
  firstSeen : String
  lastSeen : String

structure TargetAgg where
  scopes : GoMap String ScopeObservation
  unscopedPackets : Nat
  unmatchedPackets : Nat
  unmatchedTxIDs : List Int
  ambiguousHops : Nat

/-- `scope_name` is NULL for packets without a scope, empty for a scope that no region key matches. -/
structure TxMeta where
  scopeName : Option String
  firstSeen : String

structure HopRow where
  txID : Int
  hop : String
deriving DecidableEq

def minForwarderHopHexLen : Nat := 4
def scopeVerifyMaxPacketsPerTarget : Nat := 512
/-- The length of `hopBuf`. -/
def maxHopLen : Nat := 64

def normScope (s : String) : String := match s.toList with
  | '#' :: rest => String.ofList rest
  | _ => s

abbrev PrefixIndex := GoMap Nat (GoMap String (List String))

def cut (t : String) (l : Nat) : String := String.ofList (t.toList.take l)

def addPrefix (t : String) (byLen : PrefixIndex) (l : Nat) : PrefixIndex :=
  Maps.set byLen l (push ((byLen l).getD Maps.empty) (cut t l) t)

def prefixLens (t : String) : List Nat :=
  List.range' minForwarderHopHexLen ((t.length + 2 - minForwarderHopHexLen) / 2) 2

def addTarget (byLen : PrefixIndex) (t : String) : PrefixIndex :=
  (prefixLens (toLower t)).foldl (addPrefix (toLower t)) byLen

def scopeAuditPrefixIndex (targets : List String) : PrefixIndex := targets.foldl addTarget Maps.empty

def lookup (byLen : PrefixIndex) (l : Nat) (hop : String) : List String := bucket ((byLen l).getD Maps.empty) hop

def candidates (targets : List String) (hop : String) : List String :=
  if maxHopLen < hop.length then []
  else lookup (scopeAuditPrefixIndex targets) hop.length (toLower hop)

def newAgg : TargetAgg := ⟨Maps.empty, 0, 0, [], 0⟩

def ScopeObservation.see (so : ScopeObservation) (firstSeen : String) : ScopeObservation :=
  { so with
    packets := so.packets + 1
    firstSeen := if firstSeen < so.firstSeen then firstSeen else so.firstSeen
    lastSeen := if so.lastSeen < firstSeen then firstSeen else so.lastSeen }

def TargetAgg.attribute (agg : TargetAgg) (txID : Int) (m : TxMeta) : TargetAgg :=
  match m.scopeName with
  | none => { agg with unscopedPackets := agg.unscopedPackets + 1 }
  | some scopeName =>
      if scopeName = "" then
        { agg with
          unmatchedPackets := agg.unmatchedPackets + 1
          unmatchedTxIDs := if agg.unmatchedTxIDs.length < scopeVerifyMaxPacketsPerTarget then
            agg.unmatchedTxIDs ++ [txID] else agg.unmatchedTxIDs }
      else
        let name := normScope scopeName
        let so := (agg.scopes name).getD ⟨name, 0, m.firstSeen, m.firstSeen⟩
        { agg with scopes := Maps.set agg.scopes name (so.see m.firstSeen) }

def TargetAgg.confuse (agg : TargetAgg) : TargetAgg := { agg with ambiguousHops := agg.ambiguousHops + 1 }

/-- `seen` holds the pairs of target and transmission that were counted, attributed or ambiguous. -/
structure AuditState where
  result : GoMap String TargetAgg
  seen : Finset (String × Int)

def getAgg (result : GoMap String TargetAgg) (target : String) : TargetAgg := (result target).getD newAgg

def AuditState.once (s : AuditState) (target : String) (txID : Int) (f : TargetAgg → TargetAgg) : AuditState :=
  if (target, txID) ∈ s.seen then s
  else ⟨Maps.set s.result target (f (getAgg s.result target)), insert (target, txID) s.seen⟩

def auditRow (txMeta : GoMap Int TxMeta) (targets : List String) (s : AuditState) (row : HopRow) : AuditState :=
  match candidates targets row.hop with
  | [] => s
  | [target] =>
      match txMeta row.txID with
      | none => s
      | some m => s.once target row.txID fun agg => agg.attribute row.txID m
  | several => several.foldl (fun s target => s.once target row.txID TargetAgg.confuse) s

def scopeAuditForwarding (txMeta : GoMap Int TxMeta) (targets : List String) (rows : List HopRow) :
    GoMap String TargetAgg :=
  (rows.foldl (auditRow txMeta targets) ⟨Maps.empty, ∅⟩).result

/-- What both queries read in one transaction: the metadata covers every transmission of the hop rows. -/
structure Snapshot where
  txMeta : GoMap Int TxMeta
  rows : List HopRow
  covered : ∀ row ∈ rows, txMeta row.txID ≠ none

def Matches (hop target : String) : Prop :=
  minForwarderHopHexLen ≤ hop.length ∧ hop.length ≤ maxHopLen ∧ hop.length % 2 = 0 ∧
    (toLower hop).toList <+: (toLower target).toList

instance (hop target : String) : Decidable (Matches hop target) := inferInstanceAs (Decidable (_ ∧ _))

theorem lookup_addPrefix (t : String) (byLen : PrefixIndex) (l n : Nat) (hop : String) :
    lookup (addPrefix t byLen l) n hop = lookup byLen n hop ++ if l = n ∧ cut t l = hop then [t] else [] := by
  rw [lookup, lookup, addPrefix, set_apply]
  by_cases hn : n = l
  · subst hn
    rw [if_pos rfl, Option.getD_some, bucket_push]
    by_cases hcut : cut t n = hop
    · subst hcut
      simp
    · rw [if_neg fun h => hcut h.symm, if_neg fun h => hcut h.2, List.append_nil]
  · rw [if_neg hn, if_neg fun h => hn h.1.symm, List.append_nil]

theorem lookup_addPrefixes (t : String) {lens : List Nat} (h : lens.Nodup) (byLen : PrefixIndex) (n : Nat)
    (hop : String) : lookup (lens.foldl (addPrefix t) byLen) n hop =
      lookup byLen n hop ++ if n ∈ lens ∧ cut t n = hop then [t] else [] := by
  induction lens generalizing byLen with
  | nil => simp
  | cons l lens ih =>
      obtain ⟨hl, hlens⟩ := List.nodup_cons.mp h
      rw [List.foldl_cons, ih hlens, lookup_addPrefix, List.append_assoc]
      congr 1
      by_cases hn : l = n
      · subst hn
        simp [hl]
      · have hn' : n ≠ l := fun h => hn h.symm
        simp [hn, hn']

theorem mem_prefixLens {t : String} {n : Nat} :
    n ∈ prefixLens t ↔ minForwarderHopHexLen ≤ n ∧ n ≤ t.length ∧ n % 2 = 0 := by
  rw [prefixLens, minForwarderHopHexLen, List.mem_range']
  constructor
  · rintro ⟨i, hi, rfl⟩
    omega
  · rintro ⟨hmin, hmax, heven⟩
    exact ⟨(n - 4) / 2, by omega, by omega⟩

theorem nodup_prefixLens (t : String) : (prefixLens t).Nodup := List.nodup_range' 2

theorem cut_eq_iff {t hop : String} :
    (hop.length ≤ t.length ∧ cut t hop.length = hop) ↔ hop.toList <+: t.toList := by
  rw [cut, ← String.length_toList, ← String.length_toList]
  constructor
  · rintro ⟨_, hcut⟩
    rw [List.prefix_iff_eq_take]
    have hlist := congrArg String.toList hcut
    rwa [String.toList_ofList, eq_comm] at hlist
  · intro h
    refine ⟨h.length_le, String.toList_injective ?_⟩
    rw [String.toList_ofList]
    exact (List.prefix_iff_eq_take.mp h).symm

theorem lookup_scopeAuditPrefixIndex (targets : List String) {hop : String} (h : hop.length ≤ maxHopLen) :
    lookup (scopeAuditPrefixIndex targets) hop.length (toLower hop) =
      (targets.filter fun t => Matches hop t).map toLower := by
  have hstep : ∀ byLen, lookup (targets.foldl addTarget byLen) hop.length (toLower hop) =
      lookup byLen hop.length (toLower hop) ++ (targets.filter fun t => Matches hop t).map toLower := by
    induction targets with
    | nil => simp
    | cons t targets ih =>
        intro byLen
        have hmatch : (hop.length ∈ prefixLens (toLower t) ∧ cut (toLower t) hop.length = toLower hop) ↔
            Matches hop t := by
          rw [mem_prefixLens, Matches, ← cut_eq_iff, length_toLower hop]
          tauto
        rw [List.foldl_cons, ih, addTarget, lookup_addPrefixes _ (nodup_prefixLens _), List.append_assoc,
          List.filter_cons]
        congr 1
        by_cases hm : Matches hop t
        · rw [if_pos (hmatch.mpr hm), if_pos (by simpa using hm), List.map_cons, List.singleton_append]
        · rw [if_neg fun hc => hm (hmatch.mp hc), if_neg (by simpa using hm), List.nil_append]
  rw [scopeAuditPrefixIndex, hstep]
  rfl

theorem candidates_eq (targets : List String) (hop : String) :
    candidates targets hop = (targets.filter fun t => Matches hop t).map toLower := by
  rw [candidates]
  split
  · next hlong =>
      rw [List.filter_eq_nil_iff.mpr, List.map_nil]
      intro t _
      simp only [decide_eq_true_eq]
      rintro ⟨_, hmax, _⟩
      omega
  · next hshort => exact lookup_scopeAuditPrefixIndex targets (not_lt.mp hshort)

section

variable (txMeta : GoMap Int TxMeta) (targets : List String) (k : String)

def countFor (agg : Option TargetAgg) (e : Int × Bool) : Option TargetAgg :=
  if e.2 then
    match txMeta e.1 with
    | none => agg
    | some m => some ((agg.getD newAgg).attribute e.1 m)
  else some (agg.getD newAgg).confuse

/-- What the rows say about a target: each transmission with a hop that matches it, and whether nothing else does. -/
def events (rows : List HopRow) : List (Int × Bool) :=
  rows.filterMap fun row =>
    if k ∈ candidates targets row.hop then some (row.txID, decide (candidates targets row.hop = [k])) else none

variable {txMeta targets k}

theorem once_spec (s : AuditState) (target : String) (txID : Int) (f : TargetAgg → TargetAgg) :
    (s.once target txID f).result k =
        (if k = target ∧ (k, txID) ∉ s.seen then some (f (getAgg s.result k)) else s.result k) ∧
      ∀ id, (k, id) ∈ (s.once target txID f).seen ↔ (k, id) ∈ s.seen ∨ k = target ∧ id = txID := by
  rw [AuditState.once]
  by_cases hseen : (target, txID) ∈ s.seen
  · rw [if_pos hseen]
    constructor
    · rw [if_neg]
      rintro ⟨rfl, hk⟩
      exact hk hseen
    · intro id
      refine ⟨.inl, ?_⟩
      rintro (h | ⟨rfl, rfl⟩)
      · exact h
      · exact hseen
  · rw [if_neg hseen]
    constructor
    · dsimp only
      rw [set_apply]
      by_cases hk : k = target
      · subst hk
        rw [if_pos rfl, if_pos ⟨rfl, hseen⟩]
      · rw [if_neg hk, if_neg fun h => hk h.1]
    · intro id
      rw [Finset.mem_insert, Prod.mk.injEq]
      tauto

theorem confuse_all_spec (several : List String) (txID : Int) (s : AuditState) :
    (several.foldl (fun s target => s.once target txID TargetAgg.confuse) s).result k =
        (if k ∈ several ∧ (k, txID) ∉ s.seen then some (getAgg s.result k).confuse else s.result k) ∧
      ∀ id, (k, id) ∈ (several.foldl (fun s target => s.once target txID TargetAgg.confuse) s).seen ↔
        (k, id) ∈ s.seen ∨ k ∈ several ∧ id = txID := by
  induction several generalizing s with
  | nil => simp
  | cons target several ih =>
      obtain ⟨hresult, hseen⟩ := ih (s.once target txID TargetAgg.confuse)
      obtain ⟨honce, hmark⟩ := once_spec (k := k) s target txID TargetAgg.confuse
      constructor
      · rw [List.foldl_cons, hresult, getAgg, honce]
        by_cases hk : k = target
        · subst hk
          have hmarked : (k, txID) ∈ (s.once k txID TargetAgg.confuse).seen := (hmark txID).mpr (.inr ⟨rfl, rfl⟩)
          simp [hmarked]
        · have hsame : (k, txID) ∈ (s.once target txID TargetAgg.confuse).seen ↔ (k, txID) ∈ s.seen := by
            rw [hmark]
            simp [hk]
          simp [hsame, hk, getAgg]
      · intro id
        rw [List.foldl_cons, hseen, hmark, List.mem_cons]
        tauto

theorem auditRow_spec {row : HopRow} (h : txMeta row.txID ≠ none) (s : AuditState) :
    (auditRow txMeta targets s row).result k =
        (if k ∈ candidates targets row.hop ∧ (k, row.txID) ∉ s.seen then
          countFor txMeta (s.result k) (row.txID, decide (candidates targets row.hop = [k])) else s.result k) ∧
      ∀ id, (k, id) ∈ (auditRow txMeta targets s row).seen ↔
        (k, id) ∈ s.seen ∨ k ∈ candidates targets row.hop ∧ id = row.txID := by
  obtain ⟨m, hm⟩ := Option.ne_none_iff_exists'.mp h
  rw [auditRow]
  rcases candidates targets row.hop with _ | ⟨target, _ | ⟨other, several⟩⟩
  · simp
  · simp only [hm, List.mem_singleton]
    obtain ⟨hresult, hseen⟩ := once_spec (k := k) s target row.txID fun agg => agg.attribute row.txID m
    refine ⟨hresult.trans ?_, hseen⟩
    by_cases hk : k = target
    · subst hk
      simp [countFor, hm, getAgg]
    · simp [hk]
  · have hne : target :: other :: several ≠ [k] := by simp
    simp only [hne, decide_false]
    exact confuse_all_spec (target :: other :: several) row.txID s

theorem foldl_auditRow {rows : List HopRow} (h : ∀ row ∈ rows, txMeta row.txID ≠ none) (s : AuditState)
    {ids : List Int} (hids : ∀ id, (k, id) ∈ s.seen ↔ id ∈ ids) :
    (rows.foldl (auditRow txMeta targets) s).result k =
      (firsts Prod.fst ids (events targets k rows)).foldl (countFor txMeta) (s.result k) := by
  induction rows generalizing s ids with
  | nil => rfl
  | cons row rows ih =>
      obtain ⟨hresult, hseen⟩ := @auditRow_spec txMeta targets k row (h row List.mem_cons_self) s
      have hrest : ∀ r ∈ rows, txMeta r.txID ≠ none := fun r hr => h r (List.mem_cons_of_mem row hr)
      rw [List.foldl_cons, events, List.filterMap_cons]
      by_cases hk : k ∈ candidates targets row.hop
      · rw [if_pos hk]
        by_cases hmem : row.txID ∈ ids
        · have hids' : ∀ id, (k, id) ∈ (auditRow txMeta targets s row).seen ↔ id ∈ ids := by
            intro id
            rw [hseen, hids]
            constructor
            · rintro (hid | ⟨_, rfl⟩)
              · exact hid
              · exact hmem
            · exact .inl
          rw [firsts_cons, if_pos hmem, ih hrest _ hids', hresult, if_neg fun hc => hc.2 ((hids _).mpr hmem)]
          rfl
        · have hids' : ∀ id, (k, id) ∈ (auditRow txMeta targets s row).seen ↔ id ∈ row.txID :: ids := by
            intro id
            rw [hseen, hids, List.mem_cons]
            tauto
          rw [firsts_cons, if_neg hmem, ih hrest _ hids', hresult, if_pos ⟨hk, fun hc => hmem ((hids _).mp hc)⟩]
          rfl
      · have hids' : ∀ id, (k, id) ∈ (auditRow txMeta targets s row).seen ↔ id ∈ ids := by
          intro id
          rw [hseen, hids]
          simp [hk]
        rw [if_neg hk, ih hrest _ hids', hresult, if_neg fun hc => hk hc.1]
        rfl

theorem scopeAuditForwarding_apply {rows : List HopRow} (h : ∀ row ∈ rows, txMeta row.txID ≠ none) :
    scopeAuditForwarding txMeta targets rows k =
      (firsts Prod.fst [] (events targets k rows)).foldl (countFor txMeta) none :=
  foldl_auditRow h ⟨Maps.empty, ∅⟩ (by simp)

end

inductive Counter
  | unscoped
  | unmatched
  | scope (name : String)
deriving DecidableEq

def TxMeta.selects (m : TxMeta) : Counter :=
  match m.scopeName with
  | none => .unscoped
  | some scopeName => if scopeName = "" then .unmatched else .scope (normScope scopeName)

def TargetAgg.counter (agg : TargetAgg) : Counter → Nat
  | .unscoped => agg.unscopedPackets
  | .unmatched => agg.unmatchedPackets
  | .scope name => ((agg.scopes name).map ScopeObservation.packets).getD 0

theorem counter_attribute (agg : TargetAgg) (txID : Int) (m : TxMeta) (c : Counter) :
    (agg.attribute txID m).counter c = agg.counter c + if m.selects = c then 1 else 0 := by
  rw [TargetAgg.attribute, TxMeta.selects]
  cases m.scopeName with
  | none => cases c <;> simp [TargetAgg.counter]
  | some scopeName =>
      by_cases hempty : scopeName = ""
      · cases c <;> simp [TargetAgg.counter, hempty]
      · simp only [hempty, if_false]
        cases c with
        | unscoped => simp [TargetAgg.counter]
        | unmatched => simp [TargetAgg.counter]
        | scope name =>
            simp only [TargetAgg.counter, set_apply, Counter.scope.injEq]
            by_cases hname : normScope scopeName = name
            · subst hname
              cases agg.scopes (normScope scopeName) <;> simp [ScopeObservation.see]
            · have hname' : name ≠ normScope scopeName := fun h => hname h.symm
              simp [hname, hname']

@[simp] theorem counter_confuse (agg : TargetAgg) (c : Counter) : agg.confuse.counter c = agg.counter c := by
  cases c <;> rfl

@[simp] theorem ambiguousHops_attribute (agg : TargetAgg) (txID : Int) (m : TxMeta) :
    (agg.attribute txID m).ambiguousHops = agg.ambiguousHops := by
  rw [TargetAgg.attribute]
  split
  · rfl
  · split <;> rfl

@[simp] theorem counter_newAgg (c : Counter) : newAgg.counter c = 0 := by
  cases c <;> rfl

section

variable {txMeta : GoMap Int TxMeta}

theorem counter_foldl (es : List (Int × Bool)) (c : Counter) (agg : Option TargetAgg) :
    ((es.foldl (countFor txMeta) agg).getD newAgg).counter c =
      (agg.getD newAgg).counter c + es.countP fun e => e.2 && (txMeta e.1).map TxMeta.selects = some c := by
  induction es generalizing agg with
  | nil => rfl
  | cons e es ih =>
      rw [List.foldl_cons, ih, List.countP_cons, countFor]
      obtain ⟨id, attributed⟩ := e
      cases attributed with
      | false => simp
      | true =>
          cases txMeta id with
          | none => simp
          | some m =>
              simp only [if_true, Option.getD_some, counter_attribute, Option.map_some, Bool.true_and,
                Option.some.injEq, decide_eq_true_eq]
              omega

theorem ambiguousHops_foldl (es : List (Int × Bool)) (agg : Option TargetAgg) :
    ((es.foldl (countFor txMeta) agg).getD newAgg).ambiguousHops =
      (agg.getD newAgg).ambiguousHops + es.countP fun e => !e.2 := by
  induction es generalizing agg with
  | nil => rfl
  | cons e es ih =>
      rw [List.foldl_cons, ih, List.countP_cons, countFor]
      obtain ⟨id, attributed⟩ := e
      cases attributed with
      | false =>
          simp [TargetAgg.confuse]
          omega
      | true => cases txMeta id <;> simp

theorem head_unmatchedTxIDs_foldl (es : List (Int × Bool)) {agg : Option TargetAgg} {id : Int}
    (h : (agg.getD newAgg).unmatchedTxIDs.head? = some id) :
    ((es.foldl (countFor txMeta) agg).getD newAgg).unmatchedTxIDs.head? = some id := by
  induction es generalizing agg with
  | nil => exact h
  | cons e es ih =>
      rw [List.foldl_cons]
      apply ih
      rw [countFor]
      obtain ⟨other, attributed⟩ := e
      cases attributed with
      | false => exact h
      | true =>
          cases txMeta other with
          | none => exact h
          | some m =>
              simp only [if_true, Option.getD_some, TargetAgg.attribute]
              split
              · exact h
              · split
                · dsimp only
                  split
                  · rw [List.head?_append, h, Option.some_or]
                  · exact h
                · exact h

end

theorem see_eq (so : ScopeObservation) (firstSeen : String) : so.see firstSeen =
    ⟨so.scope, so.packets + 1, min firstSeen so.firstSeen, max so.lastSeen firstSeen⟩ := by
  rw [ScopeObservation.see, min_def_lt, max_def_lt]

theorem see_comm (so : ScopeObservation) (a b : String) : (so.see a).see b = (so.see b).see a := by
  simp only [see_eq, min_left_comm b a, max_right_comm _ a b]

theorem see_new_comm (name a b : String) :
    ((⟨name, 0, a, a⟩ : ScopeObservation).see a).see b = ((⟨name, 0, b, b⟩ : ScopeObservation).see b).see a := by
  simp only [see_eq, min_self, max_self, min_comm b a, max_comm a b]

theorem confuse_attribute (agg : TargetAgg) (txID : Int) (m : TxMeta) :
    (agg.attribute txID m).confuse = agg.confuse.attribute txID m := by
  simp only [TargetAgg.attribute]
  cases m.scopeName with
  | none => rfl
  | some scopeName =>
      by_cases h : scopeName = ""
      · simp only [h, if_true]
        rfl
      · simp only [h, if_false]
        rfl

theorem attribute_comm (agg : TargetAgg) {id id' : Int} {m m' : TxMeta}
    (h : ¬ (m.selects = .unmatched ∧ m'.selects = .unmatched)) :
    (agg.attribute id m).attribute id' m' = (agg.attribute id' m').attribute id m := by
  rw [TxMeta.selects, TxMeta.selects] at h
  simp only [TargetAgg.attribute]
  cases hm : m.scopeName with
  | none =>
      cases m'.scopeName with
      | none => rfl
      | some s' => by_cases hs' : s' = "" <;> simp [hs']
  | some s =>
      cases hm' : m'.scopeName with
      | none => by_cases hs : s = "" <;> simp [hs]
      | some s' =>
          by_cases hs : s = "" <;> by_cases hs' : s' = ""
          · simp [hm, hm', hs, hs'] at h
          · simp [hs, hs']
          · simp [hs, hs']
          · simp only [hs, hs', if_false, TargetAgg.mk.injEq, and_true]
            funext name
            simp only [set_apply]
            by_cases hsame : normScope s = normScope s'
            · simp only [hsame, if_true, Option.getD_some]
              by_cases hn : name = normScope s'
              · cases agg.scopes (normScope s') with
                | none => simp [hn, see_new_comm]
                | some so => simp [hn, see_comm]
              · simp [hn]
            · have hsame' : normScope s' ≠ normScope s := fun hc => hsame hc.symm
              simp only [hsame, hsame', if_false]
              by_cases hn : name = normScope s
              · subst hn
                simp [hsame]
              · simp [hn]

theorem countFor_comm {txMeta : GoMap Int TxMeta} {e f : Int × Bool}
    (h : e.2 = true → f.2 = true → ¬ ((txMeta e.1).map TxMeta.selects = some .unmatched ∧
      (txMeta f.1).map TxMeta.selects = some .unmatched)) (agg : Option TargetAgg) :
    countFor txMeta (countFor txMeta agg e) f = countFor txMeta (countFor txMeta agg f) e := by
  obtain ⟨id, attributed⟩ := e
  obtain ⟨id', attributed'⟩ := f
  simp only [countFor] at h ⊢
  cases attributed <;> cases attributed'
  · rfl
  · cases hm : txMeta id' <;> simp [confuse_attribute]
  · cases hm : txMeta id <;> simp [confuse_attribute]
  · cases hm : txMeta id with
    | none => cases hm' : txMeta id' <;> simp
    | some m =>
        cases hm' : txMeta id' with
        | none => simp
        | some m' =>
            simp only [if_true, Option.getD_some, Option.some.injEq]
            apply attribute_comm
            rintro ⟨hs, hs'⟩
            exact h rfl rfl ⟨by rw [hm, Option.map_some, hs], by rw [hm', Option.map_some, hs']⟩

/-- A hop matches a target and no other. -/
def Alone (targets : List String) (t hop : String) : Prop :=
  Matches hop t ∧ ∀ u ∈ targets, Matches hop u → toLower u = toLower t

instance (targets : List String) (t hop : String) : Decidable (Alone targets t hop) :=
  inferInstanceAs (Decidable (_ ∧ _))

def Shared (targets : List String) (t hop : String) : Prop :=
  Matches hop t ∧ ∃ u ∈ targets, Matches hop u ∧ toLower u ≠ toLower t

instance (targets : List String) (t hop : String) : Decidable (Shared targets t hop) :=
  inferInstanceAs (Decidable (_ ∧ _))

def listed (targets : List String) (t : String) : Nat := targets.countP fun u => toLower u = toLower t

namespace Snapshot

variable (snap : Snapshot) (targets : List String)

def selects (txID : Int) : Option Counter := (snap.txMeta txID).map TxMeta.selects

def creditable (t : String) (c : Counter) : Finset Int :=
  ((snap.rows.filter fun r => Alone targets t r.hop ∧ snap.selects r.txID = some c).map HopRow.txID).toFinset

def confusable (t : String) : Finset Int :=
  ((snap.rows.filter fun r => Shared targets t r.hop).map HopRow.txID).toFinset

def aggOf (rows : List HopRow) (t : String) : TargetAgg :=
  getAgg (scopeAuditForwarding snap.txMeta targets rows) (toLower t)

/-- The rows may come in any order. -/
structure Attributes : Prop where
  same : ∀ rows, rows.Perm snap.rows →
    scopeAuditForwarding snap.txMeta targets rows = scopeAuditForwarding snap.txMeta targets snap.rows
  credited : ∀ rows, rows.Perm snap.rows → ∀ t ∈ targets, ∀ c,
    (snap.aggOf targets rows t).counter c = (snap.creditable targets t c).card
  confused : ∀ rows, rows.Perm snap.rows → ∀ t ∈ targets,
    (snap.aggOf targets rows t).ambiguousHops ≤ (snap.confusable targets t).card

/-- Where a hop of a transmission matches a target alone, the target is listed once and no other hop of the transmission
matches it with another one; and of these transmissions at most one has a scope that no region key matches. -/
structure Clear : Prop where
  once : ∀ t ∈ targets, ∀ r ∈ snap.rows, Alone targets t r.hop → listed targets t = 1
  unmixed : ∀ t ∈ targets, ∀ r ∈ snap.rows, ∀ r' ∈ snap.rows, Alone targets t r.hop → r'.txID = r.txID →
    ¬ Shared targets t r'.hop
  unmatched : ∀ t ∈ targets, ∀ r ∈ snap.rows, ∀ r' ∈ snap.rows, Alone targets t r.hop → Alone targets t r'.hop →
    snap.selects r.txID = some .unmatched → snap.selects r'.txID = some .unmatched → r.txID = r'.txID

end Snapshot

section

variable {targets : List String} {t hop : String}

theorem matches_congr {u : String} (h : toLower u = toLower t) : Matches hop u ↔ Matches hop t := by
  rw [Matches, Matches, h]

theorem mem_candidates_iff (ht : t ∈ targets) : toLower t ∈ candidates targets hop ↔ Matches hop t := by
  rw [candidates_eq, List.mem_map]
  constructor
  · rintro ⟨u, hu, heq⟩
    exact (matches_congr heq).mp (of_decide_eq_true (List.mem_filter.mp hu).2)
  · intro h
    exact ⟨t, List.mem_filter.mpr ⟨ht, by simpa using h⟩, rfl⟩

theorem alone_or_shared (h : Matches hop t) : Alone targets t hop ∨ Shared targets t hop := by
  by_cases hall : ∀ u ∈ targets, Matches hop u → toLower u = toLower t
  · exact .inl ⟨h, hall⟩
  · simp only [not_forall] at hall
    obtain ⟨u, hu, hm, hne⟩ := hall
    exact .inr ⟨h, u, hu, hm, hne⟩

theorem not_shared_of_alone (h : Alone targets t hop) : ¬ Shared targets t hop := by
  rintro ⟨_, u, hu, hm, hne⟩
  exact hne (h.2 u hu hm)

theorem candidates_of_alone (h : Alone targets t hop) :
    candidates targets hop = List.replicate (listed targets t) (toLower t) := by
  have hfilter : (targets.filter fun u => Matches hop u) = targets.filter fun u => toLower u = toLower t := by
    apply List.filter_congr
    intro u hu
    rw [decide_eq_decide]
    exact ⟨h.2 u hu, fun heq => (matches_congr heq).mpr h.1⟩
  rw [candidates_eq, hfilter, List.eq_replicate_iff, List.length_map, listed, List.countP_eq_length_filter]
  refine ⟨rfl, ?_⟩
  simp only [List.mem_map, List.mem_filter, decide_eq_true_eq]
  rintro _ ⟨u, ⟨_, heq⟩, rfl⟩
  exact heq

theorem candidates_eq_singleton_iff (ht : t ∈ targets) :
    candidates targets hop = [toLower t] ↔ Alone targets t hop ∧ listed targets t = 1 := by
  constructor
  · intro h
    have halone : Alone targets t hop := by
      refine ⟨(mem_candidates_iff ht).mp (by simp [h]), fun u hu hm => ?_⟩
      have hmem := (mem_candidates_iff hu).mpr hm
      rw [h] at hmem
      exact List.mem_singleton.mp hmem
    rw [candidates_of_alone halone] at h
    have hlength := congrArg List.length h
    rw [List.length_replicate, List.length_singleton] at hlength
    exact ⟨halone, hlength⟩
  · rintro ⟨halone, hlisted⟩
    rw [candidates_of_alone halone, hlisted]
    rfl

theorem mem_events (ht : t ∈ targets) {rows : List HopRow} {e : Int × Bool} :
    e ∈ events targets (toLower t) rows ↔ ∃ r ∈ rows, Matches r.hop t ∧
      e = (r.txID, decide (Alone targets t r.hop ∧ listed targets t = 1)) := by
  simp only [events, List.mem_filterMap, Option.ite_none_right_eq_some, mem_candidates_iff ht, Option.some.injEq,
    candidates_eq_singleton_iff ht]
  constructor
  · rintro ⟨r, hr, hm, rfl⟩
    exact ⟨r, hr, hm, rfl⟩
  · rintro ⟨r, hr, hm, rfl⟩
    exact ⟨r, hr, hm, rfl⟩

theorem events_eq_nil {k : String} (h : ∀ t ∈ targets, toLower t ≠ k) (rows : List HopRow) :
    events targets k rows = [] := by
  rw [events, List.filterMap_eq_nil_iff]
  intro r _
  rw [if_neg]
  rw [candidates_eq, List.mem_map]
  rintro ⟨t, ht, heq⟩
  exact h t (List.mem_filter.mp ht).1 heq

end

namespace Snapshot

variable {snap : Snapshot} {targets : List String} {t : String} {rows : List HopRow} {c : Counter}

def credited (snap : Snapshot) (targets : List String) (rows : List HopRow) (t : String) (c : Counter) : Finset Int :=
  (((firsts Prod.fst [] (events targets (toLower t) rows)).filter fun e => e.2 && snap.selects e.1 = some c).map
    Prod.fst).toFinset

theorem aggOf_eq (h : rows.Perm snap.rows) : snap.aggOf targets rows t =
    ((firsts Prod.fst [] (events targets (toLower t) rows)).foldl (countFor snap.txMeta) none).getD newAgg := by
  rw [aggOf, getAgg, scopeAuditForwarding_apply]
  exact fun row hrow => snap.covered row (h.mem_iff.mp hrow)

theorem counter_aggOf (h : rows.Perm snap.rows) :
    (snap.aggOf targets rows t).counter c = (snap.credited targets rows t c).card := by
  rw [aggOf_eq h, counter_foldl, Option.getD_none, counter_newAgg, Nat.zero_add]
  exact countP_firsts _ _

theorem mem_creditable {id : Int} : id ∈ snap.creditable targets t c ↔
    ∃ r ∈ snap.rows, r.txID = id ∧ Alone targets t r.hop ∧ snap.selects id = some c := by
  simp only [creditable, List.mem_toFinset, List.mem_map, List.mem_filter, decide_eq_true_eq]
  constructor
  · rintro ⟨r, ⟨hr, ha, hs⟩, rfl⟩
    exact ⟨r, hr, rfl, ha, hs⟩
  · rintro ⟨r, hr, rfl, ha, hs⟩
    exact ⟨r, ⟨hr, ha, hs⟩, rfl⟩

theorem mem_credited {id : Int} : id ∈ snap.credited targets rows t c ↔
    (id, true) ∈ firsts Prod.fst [] (events targets (toLower t) rows) ∧ snap.selects id = some c := by
  simp only [credited, List.mem_toFinset, List.mem_map, List.mem_filter, Bool.and_eq_true, decide_eq_true_eq]
  constructor
  · rintro ⟨⟨id, b⟩, ⟨hmem, rfl, hs⟩, rfl⟩
    exact ⟨hmem, hs⟩
  · rintro ⟨hmem, hs⟩
    exact ⟨(id, true), ⟨hmem, rfl, hs⟩, rfl⟩

theorem credited_subset (ht : t ∈ targets) (h : rows.Perm snap.rows) :
    snap.credited targets rows t c ⊆ snap.creditable targets t c := by
  intro id hid
  obtain ⟨hmem, hs⟩ := mem_credited.mp hid
  obtain ⟨r, hr, _, heq⟩ := (mem_events ht).mp (firsts_subset hmem)
  rw [Prod.mk.injEq, eq_comm, eq_comm (a := true), decide_eq_true_eq] at heq
  exact mem_creditable.mpr ⟨r, h.mem_iff.mp hr, heq.1, heq.2.1, hs⟩

theorem mem_creditable_of_alone {r : HopRow} (hr : r ∈ snap.rows) (ha : Alone targets t r.hop) :
    ∃ c, snap.selects r.txID = some c ∧ r.txID ∈ snap.creditable targets t c := by
  obtain ⟨m, hm⟩ := Option.ne_none_iff_exists'.mp (snap.covered r hr)
  have hs : snap.selects r.txID = some m.selects := by rw [selects, hm, Option.map_some]
  exact ⟨m.selects, hs, mem_creditable.mpr ⟨r, hr, rfl, ha, hs⟩⟩

theorem firsts_events_cons (ht : t ∈ targets) {r : HopRow} (h : Matches r.hop t) (rows : List HopRow) :
    firsts Prod.fst [] (events targets (toLower t) (r :: rows)) =
      (r.txID, decide (Alone targets t r.hop ∧ listed targets t = 1)) ::
        firsts Prod.fst [r.txID] (events targets (toLower t) rows) := by
  have hmem : toLower t ∈ candidates targets r.hop := (mem_candidates_iff ht).mpr h
  have hsingle : candidates targets r.hop = [toLower t] ↔ Alone targets t r.hop ∧ listed targets t = 1 :=
    candidates_eq_singleton_iff ht
  rw [events, List.filterMap_cons, if_pos hmem]
  simp only [hsingle]
  exact firsts_cons _ _

theorem Attributes.once (h : snap.Attributes targets) :
    ∀ t ∈ targets, ∀ r ∈ snap.rows, Alone targets t r.hop → listed targets t = 1 := by
  intro t ht r hr ha
  by_contra hlisted
  obtain ⟨c, _, hcreditable⟩ := mem_creditable_of_alone hr ha
  have hcard := h.credited snap.rows (List.Perm.refl _) t ht c
  have hempty : snap.credited targets snap.rows t c = ∅ := by
    rw [Finset.eq_empty_iff_forall_notMem]
    intro id hid
    obtain ⟨r', _, _, heq⟩ := (mem_events ht).mp (firsts_subset (mem_credited.mp hid).1)
    rw [Prod.mk.injEq, eq_comm (a := true), decide_eq_true_eq] at heq
    exact hlisted heq.2.2
  rw [counter_aggOf (List.Perm.refl _), hempty, Finset.card_empty] at hcard
  exact absurd hcreditable (by simp [Finset.card_eq_zero.mp hcard.symm])

theorem Attributes.unmixed (h : snap.Attributes targets) : ∀ t ∈ targets, ∀ r ∈ snap.rows, ∀ r' ∈ snap.rows,
    Alone targets t r.hop → r'.txID = r.txID → ¬ Shared targets t r'.hop := by
  intro t ht r hr r' hr' ha hid hshared
  obtain ⟨c, _, hcreditable⟩ := mem_creditable_of_alone hr ha
  have hperm : (r' :: snap.rows.erase r').Perm snap.rows := (List.perm_cons_erase hr').symm
  have hcard := h.credited _ hperm t ht c
  rw [counter_aggOf hperm] at hcard
  have heq := Finset.eq_of_subset_of_card_le (credited_subset ht hperm) hcard.ge
  rw [← heq, mem_credited, firsts_events_cons ht hshared.1, ← hid] at hcreditable
  rcases List.mem_cons.mp hcreditable.1 with hfirst | hlater
  · rw [Prod.mk.injEq, eq_comm (a := true), decide_eq_true_eq] at hfirst
    exact not_shared_of_alone hfirst.2.1 hshared
  · exact not_mem_seen_of_mem_firsts hlater (List.mem_singleton_self _)

theorem head_unmatchedTxIDs (h : rows.Perm snap.rows) (ht : t ∈ targets) {r : HopRow} {rest : List HopRow}
    (hrows : rows = r :: rest) (ha : Alone targets t r.hop) (hlisted : listed targets t = 1)
    (hs : snap.selects r.txID = some .unmatched) :
    (snap.aggOf targets rows t).unmatchedTxIDs.head? = some r.txID := by
  rw [aggOf_eq h, hrows, firsts_events_cons ht ha.1, List.foldl_cons]
  apply head_unmatchedTxIDs_foldl
  have hflag : decide (Alone targets t r.hop ∧ listed targets t = 1) = true := decide_eq_true ⟨ha, hlisted⟩
  rw [selects, Option.map_eq_some_iff] at hs
  obtain ⟨m, hm, hsel⟩ := hs
  have hscope : m.scopeName = some "" := by
    rw [TxMeta.selects] at hsel
    split at hsel
    · cases hsel
    · next scopeName hname =>
        split at hsel
        · next hempty => rw [hname, hempty]
        · cases hsel
  simp [countFor, hflag, hm, TargetAgg.attribute, hscope, newAgg, scopeVerifyMaxPacketsPerTarget]

theorem Attributes.clear (h : snap.Attributes targets) : snap.Clear targets where
  once := h.once
  unmixed := h.unmixed
  unmatched := by
    intro t ht r hr r' hr' ha ha' hs hs'
    have hperm : (r :: snap.rows.erase r).Perm snap.rows := (List.perm_cons_erase hr).symm
    have hperm' : (r' :: snap.rows.erase r').Perm snap.rows := (List.perm_cons_erase hr').symm
    have hhead := head_unmatchedTxIDs hperm ht rfl ha (h.once t ht r hr ha) hs
    have hhead' := head_unmatchedTxIDs hperm' ht rfl ha' (h.once t ht r' hr' ha') hs'
    rw [aggOf, h.same _ hperm, ← h.same _ hperm', ← aggOf, hhead'] at hhead
    exact (Option.some.inj hhead).symm

section

variable (h : snap.Clear targets) (ht : t ∈ targets) (hp : rows.Perm snap.rows)

include h ht hp

theorem Clear.functional : Functional Prod.fst (events targets (toLower t) rows) := by
  have hsame : ∀ r ∈ rows, ∀ r' ∈ rows, Matches r'.hop t → r'.txID = r.txID →
      Alone targets t r.hop ∧ listed targets t = 1 → Alone targets t r'.hop ∧ listed targets t = 1 := by
    intro r hr r' hr' hm hid ⟨ha, hlisted⟩
    have hshared := h.unmixed t ht r (hp.mem_iff.mp hr) r' (hp.mem_iff.mp hr') ha hid
    exact ⟨(alone_or_shared hm).resolve_right hshared, hlisted⟩
  intro e he f hf hkey
  obtain ⟨r, hr, hm, rfl⟩ := (mem_events ht).mp he
  obtain ⟨r', hr', hm', rfl⟩ := (mem_events ht).mp hf
  rw [Prod.mk.injEq, decide_eq_decide]
  exact ⟨hkey, hsame r hr r' hr' hm' hkey.symm, hsame r' hr' r hr hm hkey⟩

theorem Clear.credited_eq : snap.credited targets rows t c = snap.creditable targets t c := by
  apply Finset.Subset.antisymm (credited_subset ht hp)
  intro id hid
  obtain ⟨r, hr, rfl, ha, hs⟩ := mem_creditable.mp hid
  rw [mem_credited, (h.functional ht hp).mem_firsts, mem_events ht]
  refine ⟨⟨r, hp.mem_iff.mpr hr, ha.1, ?_⟩, hs⟩
  rw [Prod.mk.injEq, eq_comm (a := true), decide_eq_true_eq]
  exact ⟨rfl, ha, h.once t ht r hr ha⟩

theorem Clear.ambiguousHops_le : (snap.aggOf targets rows t).ambiguousHops ≤ (snap.confusable targets t).card := by
  rw [aggOf_eq hp, ambiguousHops_foldl, Option.getD_none, newAgg, Nat.zero_add, countP_firsts]
  apply Finset.card_le_card
  intro id hid
  simp only [List.mem_toFinset, List.mem_map, List.mem_filter, Bool.not_eq_true'] at hid
  obtain ⟨e, ⟨hmem, hflag⟩, rfl⟩ := hid
  obtain ⟨r, hr, hm, rfl⟩ := (mem_events ht).mp (firsts_subset hmem)
  simp only [decide_eq_false_iff_not, not_and] at hflag
  have hr' := hp.mem_iff.mp hr
  have hnot : ¬ Alone targets t r.hop := fun ha => hflag ha (h.once t ht r hr' ha)
  simp only [confusable, List.mem_toFinset, List.mem_map, List.mem_filter, decide_eq_true_eq]
  exact ⟨r, ⟨hr', (alone_or_shared hm).resolve_left hnot⟩, rfl⟩

theorem Clear.apply_eq : scopeAuditForwarding snap.txMeta targets rows (toLower t) =
    scopeAuditForwarding snap.txMeta targets snap.rows (toLower t) := by
  have hevents : (events targets (toLower t) rows).Perm (events targets (toLower t) snap.rows) := hp.filterMap _
  have hfirsts := (h.functional ht hp).perm_firsts hevents
  rw [scopeAuditForwarding_apply fun row hrow => snap.covered row (hp.mem_iff.mp hrow),
    scopeAuditForwarding_apply snap.covered]
  apply hfirsts.foldl_eq'
  intro e he f hf agg
  by_cases hef : e = f
  · rw [hef]
  · apply countFor_comm
    intro hflag hflag' ⟨hs, hs'⟩
    have hmem := (firsts_subset he)
    have hmem' := firsts_subset hf
    have hfunctional := h.functional ht hp e hmem f hmem'
    obtain ⟨r, hr, _, rfl⟩ := (mem_events ht).mp hmem
    obtain ⟨r', hr', _, rfl⟩ := (mem_events ht).mp hmem'
    have ha := of_decide_eq_true hflag
    have ha' := of_decide_eq_true hflag'
    exact hef (hfunctional (h.unmatched t ht r (hp.mem_iff.mp hr) r' (hp.mem_iff.mp hr') ha.1 ha'.1 hs hs'))

end

theorem Clear.attributes (h : snap.Clear targets) : snap.Attributes targets where
  credited := by
    intro rows hp t ht c
    rw [counter_aggOf hp, h.credited_eq ht hp]
  confused := fun rows hp t ht => h.ambiguousHops_le ht hp
  same := by
    intro rows hp
    funext k
    by_cases hk : ∃ t ∈ targets, toLower t = k
    · obtain ⟨t, ht, rfl⟩ := hk
      exact h.apply_eq ht hp
    · have hnone : ∀ t ∈ targets, toLower t ≠ k := fun t ht heq => hk ⟨t, ht, heq⟩
      rw [scopeAuditForwarding_apply fun row hrow => snap.covered row (hp.mem_iff.mp hrow),
        scopeAuditForwarding_apply snap.covered, events_eq_nil hnone, events_eq_nil hnone]

/-- The attribution does not depend on the order of the rows and masks nothing if and only if no evidence is mixed. -/
theorem attributes_iff (snap : Snapshot) (targets : List String) : snap.Attributes targets ↔ snap.Clear targets :=
  ⟨Attributes.clear, Clear.attributes⟩

end Snapshot

/-- The hop of four digits matches both targets, the longer one only the first. -/
def twoHops : Snapshot where
  txMeta := Maps.set Maps.empty 1 ⟨some "#be", "2026-01-01T00:00:00Z"⟩
  rows := [⟨1, "AABB"⟩, ⟨1, "AABBCC"⟩]
  covered := by decide

theorem short_hop_masks : ¬ twoHops.Attributes ["aabbcc", "aabbdd"] := by
  intro h
  apply h.unmixed "aabbcc" List.mem_cons_self ⟨1, "AABBCC"⟩ (by simp [twoHops]) ⟨1, "AABB"⟩ (by simp [twoHops]) _ rfl
  · decide +kernel
  · decide +kernel

end MeshcoreAnalyzer.ScopeAudit

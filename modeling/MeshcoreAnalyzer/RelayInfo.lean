import MeshcoreAnalyzer.System
import Mathlib.Data.Finset.Sort
import Mathlib.Data.Rat.Floor

namespace MeshcoreAnalyzer.PacketStore

open Maps Runs Timestamps

/-! What a repeater has relayed: `GetRepeaterRelayInfo` of
cmd/server/repeater_liveness.go for one key, and `computeRepeaterRelayInfoMap` of
cmd/server/repeater_enrich_bulk.go for all of them. -/

structure RepeaterRelayInfo where
  lastRelayed : String
  relayActive : Bool
  windowHours : ℚ
  relayCount1h : Nat
  relayCount24h : Nat
  unscopedRelayCount24h : Nat
  transportedScopes : List String
deriving DecidableEq

def maxTransportedScopes : Nat := 32

def sortedCappedScopes (scopes : Finset String) : List String :=
  (scopes.sort (· ≤ ·)).take maxTransportedScopes

abbrev payloadTypeAdvert : Int := 4
abbrev routeTypeFlood : Int := 1

def parseRelayTS (ts : String) : Option Int :=
  if ts = "" then none else parseRFC3339 ts <|> parseMillisZ ts

/-- `time.Duration(windowHours * float64(time.Hour))` -/
def windowDuration (windowHours : ℚ) : Int := (windowHours * hour).floor

/-- `relayEntry`; the absent type and route are -1. -/
structure RelayEntry where
  ts : String
  pt : Int
  rt : Int
  scope : String
  viaPrefix : Bool
deriving DecidableEq

def RelayEntry.ofRow (row : TxRow) (viaPrefix : Bool) : RelayEntry where
  ts := row.firstSeen
  pt := row.payloadType.getD (-1)
  rt := row.routeType.getD (-1)
  scope := row.scopeName.getD ""
  viaPrefix := viaPrefix

def keyPrefix (key : String) : Option String :=
  match key.toList with
  | a :: b :: _ =>
      if a.utf8Size = 2 then some (String.ofList [a])
      else if a.utf8Size = 1 ∧ b.utf8Size = 1 then some (String.ofList [a, b])
      else none
  | [a] => if a.utf8Size = 2 then some (String.ofList [a]) else none
  | [] => none

namespace Store

def prefixList (s : Store) (key : String) : List TxRef :=
  match keyPrefix key with
  | some p => if p ≠ key then bucket s.byPathHop p else []
  | none => []

def collect (s : Store) (viaPrefix : Bool) (acc : List Int × List RelayEntry) (r : TxRef) :
    List Int × List RelayEntry :=
  if (s.row r).id ∈ acc.1 then acc
  else ((s.row r).id :: acc.1, acc.2 ++ [.ofRow (s.row r) viaPrefix])

def collectRelayEntriesLocked (s : Store) (key : String) : List RelayEntry :=
  let acc := (bucket s.byPathHop key).foldl (s.collect false) ([], [])
  ((s.prefixList key).foldl (s.collect true) acc).2

end Store

/-- The variables of `computeRelayInfoFromEntries`. -/
structure RelayTally where
  latest : Int
  latestRaw : String
  scopeSet : Finset String
  relayCount1h : Nat
  relayCount24h : Nat
  unscopedRelayCount24h : Nat

namespace RelayTally

def zero : RelayTally := ⟨zeroTime, "", ∅, 0, 0, 0⟩

def addScope (a : RelayTally) (e : RelayEntry) : RelayTally :=
  if e.scope ≠ "" ∧ e.viaPrefix = false then { a with scopeSet := insert e.scope a.scopeSet } else a

def addTime (now : Int) (a : RelayTally) (e : RelayEntry) (t : Int) : RelayTally :=
  let a := if a.latest < t then { a with latest := t, latestRaw := e.ts } else a
  if now - 24 * hour < t then
    { a with
      relayCount24h := a.relayCount24h + 1
      unscopedRelayCount24h := a.unscopedRelayCount24h + if e.rt = routeTypeFlood then 1 else 0
      relayCount1h := a.relayCount1h + if now - hour < t then 1 else 0 }
  else a

def add (now : Int) (a : RelayTally) (e : RelayEntry) : RelayTally :=
  if e.pt = payloadTypeAdvert then a
  else match parseRelayTS e.ts with
    | none => a.addScope e
    | some t => (a.addScope e).addTime now e t

end RelayTally

def computeRelayInfoFromEntries (now : Int) (entries : List RelayEntry) (windowHours : ℚ) :
    RepeaterRelayInfo :=
  let a := entries.foldl (RelayTally.add now) .zero
  { lastRelayed := a.latestRaw
    relayActive := a.latestRaw ≠ "" ∧ 0 < windowHours ∧ now - windowDuration windowHours < a.latest
    windowHours := windowHours
    relayCount1h := a.relayCount1h
    relayCount24h := a.relayCount24h
    unscopedRelayCount24h := a.unscopedRelayCount24h
    transportedScopes := sortedCappedScopes a.scopeSet }

def Store.getRepeaterRelayInfo (s : Store) (now : Int) (pubkey : String) (windowHours : ℚ) :
    RepeaterRelayInfo :=
  if pubkey = "" then ⟨"", false, windowHours, 0, 0, 0, []⟩
  else computeRelayInfoFromEntries now (s.collectRelayEntriesLocked (toLower pubkey)) windowHours

/-- A transmission of `parseCache`: when it was seen first, as far as that can be
read, and its type. -/
structure ParsedTx where
  t : Option Int
  pt : Int

/-- The variables of one key in `computeRepeaterRelayInfoMap`. -/
structure BulkTally where
  lastRelayed : String
  relayActive : Bool
  scopeSet : Finset String
  relayCount1h : Nat
  relayCount24h : Nat
  unscopedRelayCount24h : Nat
  seen : Option (List Int)

namespace BulkTally

def zero (seen : Option (List Int)) : BulkTally := ⟨"", false, ∅, 0, 0, 0, seen⟩

def addScope (a : BulkTally) (row : TxRow) (viaPrefix : Bool) : BulkTally :=
  match row.scopeName with
  | some scope => if scope ≠ "" ∧ viaPrefix = false then { a with scopeSet := insert scope a.scopeSet } else a
  | none => a

def addTime (now : Int) (windowHours : ℚ) (a : BulkTally) (row : TxRow) (t : Int) : BulkTally :=
  let a := if now - 24 * hour < t then
    { a with
      relayCount24h := a.relayCount24h + 1
      unscopedRelayCount24h := a.unscopedRelayCount24h + if row.routeType = some routeTypeFlood then 1 else 0
      relayCount1h := a.relayCount1h + if now - hour < t then 1 else 0 }
    else a
  if a.lastRelayed = "" ∨ a.lastRelayed < row.firstSeen then
    { a with
      lastRelayed := row.firstSeen
      relayActive := if 0 < windowHours then now - windowDuration windowHours < t else a.relayActive }
  else a

/-- A transmission that has not been seen, if any are remembered. -/
def add (parseCache : GoMap Int ParsedTx) (now : Int) (windowHours : ℚ) (viaPrefix : Bool)
    (a : BulkTally) (row : TxRow) : BulkTally :=
  match parseCache row.id with
  | none => a
  | some p =>
      if p.pt = payloadTypeAdvert then a
      else match p.t with
        | none => a.addScope row viaPrefix
        | some t => (a.addScope row viaPrefix).addTime now windowHours row t

def visit (parseCache : GoMap Int ParsedTx) (now : Int) (windowHours : ℚ) (viaPrefix : Bool)
    (a : BulkTally) (row : TxRow) : BulkTally :=
  match a.seen with
  | none => a.add parseCache now windowHours viaPrefix row
  | some seen =>
      if row.id ∈ seen then a
      else { a with seen := some (row.id :: seen) }.add parseCache now windowHours viaPrefix row

end BulkTally

namespace Store

def parseCache (s : Store) (keys : List String) : GoMap Int ParsedTx :=
  (keys.flatMap (bucket s.byPathHop)).foldl (fun m r =>
    if (m (s.row r).id).isSome then m
    else set m (s.row r).id ⟨parseRelayTS (s.row r).firstSeen, (s.row r).payloadType.getD (-1)⟩) Maps.empty

def bulkTally (s : Store) (keys : List String) (now : Int) (windowHours : ℚ) (key : String) : BulkTally :=
  let visit := fun viaPrefix (a : BulkTally) r => a.visit (s.parseCache keys) now windowHours viaPrefix (s.row r)
  let seen := if s.prefixList key = [] then none else some []
  let a := (bucket s.byPathHop key).foldl (visit false) (.zero seen)
  if a.seen.isSome then (s.prefixList key).foldl (visit true) a else a

/-- `keys` are those of `byPathHop`, in the order in which the range over it runs. -/
def computeRepeaterRelayInfoMap (s : Store) (keys : List String) (now : Int) (windowHours : ℚ) :
    GoMap String RepeaterRelayInfo := fun key =>
  if key ∈ keys then
    let a := s.bulkTally keys now windowHours key
    some {
      lastRelayed := a.lastRelayed
      relayActive := a.relayActive
      windowHours := windowHours
      relayCount1h := a.relayCount1h
      relayCount24h := a.relayCount24h
      unscopedRelayCount24h := a.unscopedRelayCount24h
      transportedScopes := sortedCappedScopes a.scopeSet }
  else none

end Store

end MeshcoreAnalyzer.PacketStore

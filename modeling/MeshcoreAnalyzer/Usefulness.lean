import MeshcoreAnalyzer.RelayInfo

namespace MeshcoreAnalyzer.PacketStore

open Maps

/-! What fraction of the traffic a repeater relays: cmd/server/repeater_usefulness.go
and the second half of cmd/server/repeater_enrich_bulk.go. The scores are the quotients
before they are rounded. -/

namespace Store

/-- `types` are the keys of `byPayloadType`, in the order in which a range over it runs. -/
def totalNonAdvert (s : Store) (types : List Int) : Nat :=
  ((types.filter (· ≠ payloadTypeAdvert)).map fun pt => (bucket s.byPayloadType pt).length).sum

def relayed (s : Store) (key : String) : Nat :=
  (bucket s.byPathHop key).countP fun r => (s.row r).payloadType ≠ some payloadTypeAdvert

end Store

structure RepeaterNodeStats where
  info : RepeaterRelayInfo
  score : ℚ

namespace Store

def batchScore (s : Store) (types : List Int) (pk : String) : ℚ :=
  if 0 < s.totalNonAdvert types ∧ 0 < s.relayed (toLower pk) then
    let score : ℚ := s.relayed (toLower pk) / s.totalNonAdvert types
    if 1 < score then 1 else score
  else 0

def getRepeaterNodeStatsBatch (s : Store) (types : List Int) (now : Int) (pubkeys : List String)
    (windowHours : ℚ) : GoMap String RepeaterNodeStats := fun pk =>
  if pk ∈ pubkeys then
    some ⟨computeRelayInfoFromEntries now (s.collectRelayEntriesLocked (toLower pk)) windowHours,
      s.batchScore types pk⟩
  else none

end Store

/-- `pubkeySig`: stable, whatever the order of the keys. -/
def pubkeySig (pubkeys : List String) : String :=
  ",".intercalate (pubkeys.insertionSort (· ≤ ·))

end MeshcoreAnalyzer.PacketStore

import MeshcoreAnalyzer.Transmissions
import MeshcoreAnalyzer.Maps

namespace MeshcoreAnalyzer.PacketStore

open Json Maps

/-! The hop resolution of cmd/server/neighbor_persist.go and the prefix map of
cmd/server/store.go. -/

/-- Of a known node its key is all that ends up in an index. -/
structure NodeInfo where
  publicKey : String
deriving DecidableEq

/-- Prefixes of the nodes that may forward packets, and the keys of those known
to listen only. -/
structure PrefixMap where
  m : GoMap String (List NodeInfo)
  nonRelay : Finset String

/-- How the tiers above one candidate choose among several: neighbour graph,
distance and observation counts are weighed there in floating point. -/
abbrev Tiers := List NodeInfo → List String → Option NodeInfo

namespace PrefixMap

def candidates (pm : PrefixMap) (hop : String) : List NodeInfo :=
  (bucket pm.m (toLower hop)).filter fun n => toLower n.publicKey ∉ pm.nonRelay

def resolveWithContext (pm : PrefixMap) (tiers : Tiers) (hop : String)
    (contextPubkeys : List String) : Option NodeInfo :=
  match pm.candidates hop with
  | [] => none
  | [n] => some n
  | ns => tiers ns contextPubkeys

end PrefixMap

def resolveHops (pm : PrefixMap) (tiers : Tiers) (contextPKs : List String) :
    Option String → List String → List (Option String)
  | _, [] => []
  | prev, hop :: hops =>
      let resolved := (pm.resolveWithContext tiers hop (contextPKs ++ prev.toList)).map
        (toLower ·.publicKey)
      resolved :: resolveHops pm tiers contextPKs resolved hops

def resolvePathForObs (pathJSON observerID : String) (tx : TxRow) (pm : PrefixMap)
    (tiers : Tiers) : List (Option String) :=
  let fromNode := tx.extractFromNode
  let contextPKs := ([observerID, fromNode].filter (· ≠ "")).map toLower
  resolveHops pm tiers contextPKs none (parsePathJSON pathJSON)

/-- On a cold load a hop counts only where its prefix has a single candidate. -/
def resolvePathForObsColdLoad (pathJSON : String) (pm : PrefixMap) : List (Option String) :=
  (parsePathJSON pathJSON).map fun hop =>
    match pm.candidates hop with
    | [n] => some (toLower n.publicKey)
    | _ => none

def unmarshalResolvedPath (s : String) : List (Option String) :=
  if s = "" then [] else (unmarshalStringPtrs s).getD []

def extractResolvedPubkeys (rp : List (Option String)) : List String :=
  (rp.filterMap id).filter (· ≠ "")

end MeshcoreAnalyzer.PacketStore

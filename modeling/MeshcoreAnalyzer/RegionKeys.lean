import MeshcoreAnalyzer.Spaces
import MeshcoreAnalyzer.Frame

namespace MeshcoreAnalyzer.RegionKeys

open GoBytes Spaces MeshcoreAnalyzer.Frame

/-! cmd/ingestor/region_keys.go, and `loadRegionKeys` and `matchingRegions` of
cmd/ingestor/main.go. A map is the list of its entries. -/

structure Config where
  hashRegions : List Bytes
  autoRegionKeysEnabled : Bool

def regionKey (sha256 : Bytes → Bytes) (name : Bytes) : Bytes := (sha256 name).take 16

def withHash (name : Bytes) : Bytes := if hasPrefix 0x23 name then name else 0x23 :: name

def loadRegionKeys (sha256 : Bytes → Bytes) (cfg : Config) : List (Bytes × Bytes) :=
  cfg.hashRegions.foldl (fun keys raw =>
    let name := trimSpace raw
    if name = [] then keys
    else
      let name := withHash name
      if name ∈ keys.map Prod.fst then keys else keys ++ [(name, regionKey sha256 name)]) []

def codeOf (sum : Bytes) : Bytes :=
  match sum with
  | b0 :: b1 :: _ =>
      let code := b0.toNat + 256 * b1.toNat
      let code := if code = 0 then 1 else if code = 0xFFFF then 0xFFFE else code
      upperHex [UInt8.ofNat (code % 256), UInt8.ofNat (code / 256)]
  | _ => []

def noCode : Bytes := [0x30, 0x30, 0x30, 0x30]

/-- `regionKeys` in the order in which the range visits them. -/
def matchingRegions (crypto : Crypto) (regionKeys : List (Bytes × Bytes)) (payloadType : UInt8) (payloadRaw code1 : Bytes) :
    List Bytes :=
  if code1 = noCode ∨ regionKeys.length = 0 ∨ payloadRaw.length = 0 then []
  else (regionKeys.filter fun e =>
    codeOf (crypto.hmacSHA256 e.2 (payloadType :: payloadRaw)) == code1).map Prod.fst

def maxRegionNameLen : Nat := 32

def regionNameAcceptable (name : Bytes) : Option Bytes :=
  let name := if hasPrefix 0x23 name then name.tail else name
  if name = [] ∨ name = [0x2A] ∨ maxRegionNameLen < name.length then none
  else if name.any fun c => c ≤ 0x20 || 0x7F ≤ c || c == 0x2C || c == 0x23 then none
  else some name

structure RegionKeySnapshot where
  all : List (Bytes × Bytes)
  explicit : List Bytes

structure RegionKeySet where
  cur : RegionKeySnapshot
  enabled : Bool

def newRegionKeySet (sha256 : Bytes → Bytes) (cfg : Config) : RegionKeySet :=
  let explicitKeys := loadRegionKeys sha256 cfg
  { cur := { all := explicitKeys, explicit := explicitKeys.map Prod.fst }
    enabled := cfg.autoRegionKeysEnabled }

def addDerived (sha256 : Bytes → Bytes) (explicit : List Bytes) (acc : List (Bytes × Bytes) × List Bytes)
    (raw : Bytes) : List (Bytes × Bytes) × List Bytes :=
  match regionNameAcceptable raw with
  | none => acc
  | some canonical =>
      let name := 0x23 :: canonical
      if name ∈ explicit then acc
      else if name ∈ acc.1.map Prod.fst then acc
      else (acc.1 ++ [(name, regionKey sha256 name)], acc.2 ++ [name])

def lookupKey (all : List (Bytes × Bytes)) (name : Bytes) : Bytes := (all.lookup name).getD []

def RegionKeySet.refreshDerived (sha256 : Bytes → Bytes) (s : RegionKeySet) (names : List Bytes) :
    RegionKeySet × List Bytes :=
  if !s.enabled then (s, [])
  else
    let all := s.cur.explicit.map fun name => (name, lookupKey s.cur.all name)
    let (all, added) := names.foldl (addDerived sha256 s.cur.explicit) (all, [])
    ({ s with cur := { all, explicit := s.cur.explicit } }, added)

inductive ScopeReason
  | none
  | unique
  | explicitOverDerived
  | ambiguous

structure ScopeMatch where
  name : Bytes
  reason : ScopeReason
  candidates : List Bytes

def decideMatch (explicit : List Bytes) (matched : List Bytes) : ScopeMatch :=
  match matched with
  | [] => { name := [], reason := .none, candidates := matched }
  | [name] => { name, reason := .unique, candidates := matched }
  | _ =>
      match matched.filter (· ∈ explicit) with
      | [name] => { name, reason := .explicitOverDerived, candidates := matched }
      | _ => { name := [], reason := .ambiguous, candidates := matched }

/-- `match`; `order` is the map as the range visits it. -/
def RegionKeySnapshot.scopeMatch (crypto : Crypto) (s : RegionKeySnapshot) (order : List (Bytes × Bytes))
    (payloadType : UInt8) (payloadRaw code1 : Bytes) : ScopeMatch :=
  decideMatch s.explicit (matchingRegions crypto order payloadType payloadRaw code1)

def refreshed (sha256 : Bytes → Bytes) (cfg : Config) (refreshes : List (List Bytes)) : RegionKeySet :=
  refreshes.foldl (fun s names => (s.refreshDerived sha256 names).1) (newRegionKeySet sha256 cfg)

end MeshcoreAnalyzer.RegionKeys

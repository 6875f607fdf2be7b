import MeshcoreAnalyzer.Store

namespace MeshcoreAnalyzer.PacketStore

open Maps Json

/-! The paths through a node, `handleNodePaths` of cmd/server/routes.go, and what the packets page shows of a
transmission, `fetchResolvedPathForTxBest` of cmd/server/resolved_index.go. -/

/-- A row of `observations`; the last column may be NULL. -/
structure PathRow where
  id : Int
  transmissionID : Int
  pathJSON : String
  resolvedPath : Option String

/-- The rows, and what the unique columns of `transmissions` make of each other. -/
structure PathDB where
  observations : List PathRow
  ids : (observations.map PathRow.id).Nodup
  hashOf : Int → String
  idOf : String → Int

/-- `unmarshalResolvedPath`, with the nil slice apart from the empty one. -/
def decodeResolvedPath (s : String) : Option (List (Option String)) :=
  match parse s with
  | some (.arr xs) => xs.mapM asStringPtr
  | _ => none

theorem isSome_decodeResolvedPath {s : String} (h : unmarshalResolvedPath s ≠ []) : (decodeResolvedPath s).isSome := by
  unfold unmarshalResolvedPath unmarshalStringPtrs at h
  rw [decodeResolvedPath]
  split at h
  · exact absurd rfl h
  · cases hp : parse s with
    | none => simp [hp] at h
    | some v =>
        cases v with
        | arr xs =>
            rw [hp] at h
            cases hx : xs.mapM asStringPtr with
            | none => simp [hx] at h
            | some rp => simpa using hx ▸ rfl
        | _ => simp [hp] at h

namespace PathRow

def decoded (row : PathRow) : Option (List (Option String)) := row.resolvedPath.bind decodeResolvedPath

def text (row : PathRow) : String := row.resolvedPath.getD ""

end PathRow

namespace PathDB

variable (db : PathDB)

def fetchResolvedPathForObs (obsID : Int) : Option (List (Option String)) :=
  (db.observations.find? fun row => row.id = obsID).bind PathRow.decoded

/-- `fetchResolvedPathsForTx`, by the ID of the observation. -/
def fetchResolvedPathsForTx (txID obsID : Int) : Option (List (Option String)) :=
  (db.observations.find? fun row => row.transmissionID = txID ∧ row.id = obsID).bind PathRow.decoded

def longerStored (txID : Int) (best : Int × Option (List (Option String))) (obs : StoreObs) :
    Int × Option (List (Option String)) :=
  match db.fetchResolvedPathsForTx txID obs.id with
  | none => best
  | some rp => if best.1 < pathLen obs.pathJSON then (pathLen obs.pathJSON, some rp) else best

def fetchResolvedPathForTxBest (tx : StoreTx) : Option (List (Option String)) :=
  match tx.observations with
  | [] => none
  | first :: rest =>
      match db.fetchResolvedPathForObs (StoreTx.bestObservation first rest).id with
      | some rp => some rp
      | none => ((first :: rest).foldl (db.longerStored tx.id) (-1, none)).2

/-- `INSTR(LOWER(resolved_path), ?)`, of the key in quotes. -/
def confirmResolvedPathContains (txID : Int) (pubkey : String) : Bool :=
  db.observations.any fun row => row.transmissionID = txID &&
    row.resolvedPath.any fun text => contains text.toLower ("\"" ++ toLower pubkey ++ "\"")

end PathDB

def containsTarget (hops : List String) (rp : List (Option String)) (target : String) : Bool :=
  (hops.zip rp).any fun hop => hop.2.any fun pk => toLower pk ≠ "" && toLower pk = target

/-- Whether a key of the index is looked up for the target; keys are hexadecimal digits. -/
def longerPrefix (target key : String) : Bool :=
  4 < key.length && key.length < target.length && (target.toList.take 4).isPrefixOf key.toList

/-- What the keys of the index are looked up for: the target itself, its prefixes, and what `range` finds of longer
ones. A hit of the first confirms. -/
def lookups (target : String) (keys : List String) : List (String × Bool) :=
  [(target, true), (String.ofList (target.toList.take 2), false), (String.ofList (target.toList.take 4), false)] ++
    (keys.filter (longerPrefix target)).map fun key => (key, false)

/-- Without a stored resolution the hops are resolved anew, in favour of the target; a prefix of several nodes then
proves nothing, unless the target is confirmed. -/
def biasedTarget (pm : PrefixMap) (tiers : Tiers) (hops : List String) (target : String) (preconfirmed : Bool) : Bool :=
  preconfirmed || hops.any fun hop =>
    (preconfirmed || decide ((bucket pm.m (toLower hop)).length ≤ 1)) &&
      match pm.resolveWithContext tiers hop [target] with
      | some n => toLower n.publicKey = target
      | none => (toLower hop).toList.isPrefixOf target.toList

namespace Store

variable (s : Store) (db : PathDB)

/-- `addCandidates`: a transmission is told from another by its ID. -/
def addCandidate (confirmed : Bool) (acc : List (TxRef × Bool)) (r : TxRef) : List (TxRef × Bool) :=
  if (s.row r).id ∈ acc.map (fun c => (s.row c.1).id) then acc else acc ++ [(r, confirmed)]

def candidates (target : String) (keys : List String) : List (TxRef × Bool) :=
  (lookups target keys).foldl (fun acc l => (bucket s.byPathHop l.1).foldl (s.addCandidate l.2) acc) []

def inIndex (r : TxRef) : Bool :=
  !s.resolved.useResolvedPathIndex || (s.resolved.reverse (s.row r).id).isNone

def confirmedBySQL (target : String) (r : TxRef) : Bool :=
  decide ((s.row r).id ∈ bucket s.resolved.index (resolvedPubkeyHash target)) &&
    db.confirmResolvedPathContains (s.row r).id target

/-- The path that is displayed has the node: the stored resolution along the hops of the best path. -/
def displays (r : TxRef) (pubkey : String) : Bool :=
  (db.fetchResolvedPathForTxBest (s.heap r)).any fun rp => containsTarget (s.path r) rp (toLower pubkey)

/-- The transmissions counted for a node that is known, while the index is ready; `keys` are those of the index in
the order in which it is ranged over. -/
def handleNodePaths (keys : List String) (pm : PrefixMap) (tiers : Tiers) (pubkey : String) : List TxRef :=
  let lowerPK := toLower pubkey
  let checked := (s.candidates lowerPK keys).filter fun c => s.inIndex c.1 || s.confirmedBySQL db lowerPK c.1
  let counted := checked.filter fun c =>
    match db.fetchResolvedPathForTxBest (s.heap c.1) with
    | some rp => containsTarget (s.path c.1) rp lowerPK
    | none => biasedTarget pm tiers (s.path c.1) lowerPK (c.2 || (!s.inIndex c.1 && s.confirmedBySQL db lowerPK c.1))
  counted.map Prod.fst

end Store

end MeshcoreAnalyzer.PacketStore

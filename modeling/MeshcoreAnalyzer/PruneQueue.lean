import MeshcoreAnalyzer.Directories
import MeshcoreAnalyzer.JsonPrint
import MeshcoreAnalyzer.NodeTables
import MeshcoreAnalyzer.Runs
import MeshcoreAnalyzer.Timestamps

namespace MeshcoreAnalyzer.PruneQueue

open ConfiguredScope (NodeRow)
open Directories Json Runs Timestamps

/-! The queue of internal/prunequeue, through which the server asks the ingestor to delete nodes: the handlers of
cmd/server/routes.go at the one end and `RunPendingPruneRequests` of cmd/ingestor/prune_geofilter.go at the other. -/

/-- A time is its RFC3339 text. -/
structure Request where
  id : String
  requestedAt : String
  reason : String
  pubkeys : List String

structure Result where
  id : String
  requestedAt : String
  completedAt : String
  deleted : Nat
  error : String

def zeroTime : String := "0001-01-01T00:00:00Z"

def isHexDigit (c : Char) : Bool :=
  ('0' ≤ c && c ≤ '9') || ('a' ≤ c && c ≤ 'f') || ('A' ≤ c && c ≤ 'F')

def validID (id : String) : Bool := id ≠ "" && id.utf8ByteSize ≤ 64 && id.toList.all isHexDigit

def requestName (id : String) : String := "request-" ++ id ++ ".json"

def resultName (id : String) : String := "result-" ++ id ++ ".json"

def tempName (name : String) : String := name ++ ".tmp"

/-- What `ListPending` picks. -/
def isPending (name : String) : Bool :=
  "request-".toList.isPrefixOf name.toList && ".json".toList.isSuffixOf name.toList

/-- `omitempty` -/
def textMember (key s : String) : List (String × Value) := if s = "" then [] else [(key, .str s)]

def requestText (r : Request) : String :=
  marshalIndent (.obj ([("id", .str r.id), ("requestedAt", .str r.requestedAt)] ++ textMember "reason" r.reason ++
    [("pubkeys", .arr (r.pubkeys.map Value.str))]))

def resultText (r : Result) : String :=
  marshalIndent (.obj ([("id", .str r.id), ("requestedAt", .str r.requestedAt), ("completedAt", .str r.completedAt),
    ("deleted", .num r.deleted.repr)] ++ textMember "error" r.error))

def stringInto (old : String) : Value → Option String
  | .str s => some s
  | .null => some old
  | _ => none

def timeInto (old : String) : Value → Option String
  | .str s => if (parseRFC3339 s).isSome then some s else none
  | .null => some old
  | _ => none

def stringsInto : Value → Option (List String)
  | .arr xs => xs.mapM asString
  | .null => some []
  | _ => none

def naturalInto (old : Nat) : Value → Option Nat
  | .num text => if text.toList.all Char.isDigit then some (Nat.ofDigitChars 10 text.toList 0) else none
  | .null => some old
  | _ => none

def requestMember (r : Request) (m : String × Value) : Option Request :=
  match m.1 with
  | "id" => (stringInto r.id m.2).map fun s => { r with id := s }
  | "requestedAt" => (timeInto r.requestedAt m.2).map fun s => { r with requestedAt := s }
  | "reason" => (stringInto r.reason m.2).map fun s => { r with reason := s }
  | "pubkeys" => (stringsInto m.2).map fun xs => { r with pubkeys := xs }
  | _ => some r

def resultMember (r : Result) (m : String × Value) : Option Result :=
  match m.1 with
  | "id" => (stringInto r.id m.2).map fun s => { r with id := s }
  | "requestedAt" => (timeInto r.requestedAt m.2).map fun s => { r with requestedAt := s }
  | "completedAt" => (timeInto r.completedAt m.2).map fun s => { r with completedAt := s }
  | "deleted" => (naturalInto r.deleted m.2).map fun n => { r with deleted := n }
  | "error" => (stringInto r.error m.2).map fun s => { r with error := s }
  | _ => some r

/-- `json.Unmarshal` into a struct. -/
def unmarshalInto {T : Type} (zero : T) (member : T → String × Value → Option T) (text : String) : Option T :=
  match parse text with
  | some (.obj ms) => ms.foldlM member zero
  | some .null => some zero
  | _ => none

def readRequest (text : String) : Option Request :=
  unmarshalInto { id := "", requestedAt := zeroTime, reason := "", pubkeys := [] } requestMember text

def readResult (text : String) : Option Result :=
  unmarshalInto { id := "", requestedAt := zeroTime, completedAt := zeroTime, deleted := 0, error := "" } resultMember
    text

theorem numberedElements_strings (xs : List String) : NumberedElements (xs.map Value.str) := by
  induction xs with
  | nil => trivial
  | cons x xs ih => exact ⟨trivial, ih⟩

theorem mapM_asString (xs : List String) : xs.mapM (asString ∘ Value.str) = some xs := by
  induction xs with
  | nil => rfl
  | cons x xs ih => simp [asString, ih]

theorem unmarshalInto_marshalIndent {T : Type} (zero : T) (member : T → String × Value → Option T)
    {ms : List (String × Value)} (h : NumberedMembers ms) :
    unmarshalInto zero member (marshalIndent (.obj ms)) = ms.foldlM member zero := by
  rw [unmarshalInto, parse_marshalIndent (v := .obj ms) h]

theorem naturalInto_repr (old n : Nat) : naturalInto old (.num n.repr) = some n := by
  have htext : n.repr.toList = Nat.toDigits 10 n := Nat.toList_repr
  have hdigits : (Nat.toDigits 10 n).all Char.isDigit = true :=
    List.all_eq_true.mpr fun c hc => Nat.isDigit_of_mem_toDigits (by decide) (by decide) hc
  rw [naturalInto, htext, if_pos hdigits, Nat.ofDigitChars_ten_toDigits]

theorem readRequest_requestText {r : Request} (h : (parseRFC3339 r.requestedAt).isSome) :
    readRequest (requestText r) = some r := by
  obtain ⟨id, requestedAt, reason, pubkeys⟩ := r
  rw [readRequest, requestText, unmarshalInto_marshalIndent]
  · by_cases hreason : reason = "" <;>
      simp [textMember, hreason, requestMember, stringInto, timeInto, h, stringsInto, mapM_asString]
  · by_cases hreason : reason = "" <;>
      simp [textMember, hreason, NumberedMembers, NumberedMember, Numbered, numberedElements_strings]

theorem readResult_resultText {r : Result} (h : (parseRFC3339 r.requestedAt).isSome)
    (h' : (parseRFC3339 r.completedAt).isSome) : readResult (resultText r) = some r := by
  obtain ⟨id, requestedAt, completedAt, deleted, error⟩ := r
  rw [readResult, resultText, unmarshalInto_marshalIndent]
  · by_cases herror : error = "" <;>
      simp [textMember, herror, resultMember, stringInto, timeInto, h, h', naturalInto_repr]
  · by_cases herror : error = "" <;>
      simp [textMember, herror, NumberedMembers, NumberedMember, Numbered, numeral_repr]

theorem requestName_injective {a b : String} (h : requestName a = requestName b) : a = b := by
  have hlist := congrArg String.toList h
  simp only [requestName, String.toList_append, List.append_cancel_left_eq, List.append_cancel_right_eq] at hlist
  exact String.toList_inj.mp hlist

theorem resultName_injective {a b : String} (h : resultName a = resultName b) : a = b := by
  have hlist := congrArg String.toList h
  simp only [resultName, String.toList_append, List.append_cancel_left_eq, List.append_cancel_right_eq] at hlist
  exact String.toList_inj.mp hlist

theorem requestName_ne_resultName (a b : String) : requestName a ≠ resultName b := by
  intro h
  have hthird := congrArg (fun s : String => s.toList.take 3) h
  simp [requestName, resultName] at hthird

def Shown (name : String) : Prop := ".json".toList <:+ name.toList

theorem shown_requestName (id : String) : Shown (requestName id) := by
  rw [Shown, requestName, String.toList_append]
  exact List.suffix_append _ _

theorem shown_resultName (id : String) : Shown (resultName id) := by
  rw [Shown, resultName, String.toList_append]
  exact List.suffix_append _ _

theorem shown_of_isPending {name : String} (h : isPending name = true) : Shown name := by
  rw [isPending, Bool.and_eq_true] at h
  exact List.isSuffixOf_iff_suffix.mp h.2

theorem isPending_requestName (id : String) : isPending (requestName id) = true := by
  rw [isPending, Bool.and_eq_true, List.isPrefixOf_iff_prefix, List.isSuffixOf_iff_suffix]
  refine ⟨?_, shown_requestName id⟩
  rw [requestName, String.toList_append, String.toList_append, List.append_assoc]
  exact List.prefix_append _ _

theorem not_shown_tempName (name : String) : ¬ Shown (tempName name) := by
  rintro ⟨before, h⟩
  have hlast := congrArg List.getLast? h
  simp [tempName] at hlast

/-- Where the ingestor is in a pass, with the names that are still to come. -/
inductive Ingestor
  | idle
  | scanning (names : List String)
  | deleting (req : Request) (batches : List (List String)) (deleted : Nat) (names : List String)
  | answering (res : Result) (names : List String)
  | removing (res : Result) (names : List String)

/-- `geoFilter` is what the configured filter says of a position, where there is one of at least three corners.
`writing` are the requests of the handlers that are within `WriteRequest`, and `accepted` those that were answered
with 202. -/
structure State where
  tables : NodeTables.State
  geoFilter : Option (Float → Float → Bool)
  files : Directory String String
  writing : List Request
  accepted : List Request
  ingestor : Ingestor

inductive Step
  | configure (geoFilter : Option (Float → Float → Bool))
  | confirm (body : List String) (id now : String)
  | writeRequest (id : String) (written : Nat)
  | publishRequest (id : String)
  | dropRequest (id : String) (removed : Bool)
  | restartServer
  | listPending
  | readRequest (readable : Bool)
  | deleteBatch
  | failBatch (error now : String)
  | finishDelete (now : String)
  | writeResult (written : Nat)
  | publishResult
  | dropResult (removed : Bool)
  | removeRequest (removed : Bool)
  | restartIngestor
  | writeTables (a : NodeTables.Step)

def outside (passes : Float → Float → Bool) (row : Option NodeRow) : Bool :=
  row.any fun row => match row.lat, row.lon with
    | some lat, some lon => !passes lat lon
    | _, _ => false

def toDelete (passes : Float → Float → Bool) (nodes : String → Option NodeRow) (body : List String) : List String :=
  let name := fun pk => ((nodes pk).bind NodeRow.name).getD ""
  (body.dedup.filter fun pk => outside passes (nodes pk)).insertionSort fun a b => name a ≤ name b

/-- `RowsAffected` of a batch. -/
def rowsAffected (nodes : String → Option NodeRow) (batch : List String) : Nat :=
  (batch.dedup.filter fun pk => (nodes pk).isSome).length

namespace State

/-- `handlePruneGeoFilter` up to the first write of `WriteRequest`. -/
def confirm (s : State) (body : List String) (id now : String) : State :=
  match s.geoFilter with
  | none => s
  | some passes =>
      if body = [] ∨ validID id = false then s
      else
        let req := { id := id, requestedAt := now, reason := "geo-prune",
                     pubkeys := toDelete passes s.tables.tables.nodes body }
        { s with writing := req :: s.writing }

def findWriting (s : State) (id : String) : Option Request := s.writing.find? fun r => r.id = id

def dropWriting (s : State) (id : String) : List Request := s.writing.filter fun r => r.id ≠ id

def put (s : State) (name text : String) (written : Nat) : State :=
  { s with files := s.files.insert (tempName name) (String.ofList (text.toList.take written)) }

def step (s : State) : Step → State
  | .configure geoFilter => { s with geoFilter := geoFilter }
  | .confirm body id now => s.confirm body id now
  | .writeRequest id written => match s.findWriting id with
      | some req => s.put (requestName id) (requestText req) written
      | none => s
  | .publishRequest id => match s.findWriting id with
      | some req =>
          if s.files.lookup (tempName (requestName id)) = some (requestText req) then
            { s with
              files := rename (tempName (requestName id)) (requestName id) s.files
              writing := s.dropWriting id
              accepted := req :: s.accepted }
          else s
      | none => s
  | .dropRequest id removed =>
      { s with
        files := if removed then s.files.erase (tempName (requestName id)) else s.files
        writing := s.dropWriting id }
  | .restartServer => { s with writing := [] }
  | .listPending => match s.ingestor with
      | .idle => { s with ingestor := .scanning ((s.files.keys.filter isPending).insertionSort (· ≤ ·)) }
      | _ => s
  | .readRequest readable => match s.ingestor with
      | .scanning [] => { s with ingestor := .idle }
      | .scanning (name :: names) =>
          match if readable then (s.files.lookup name).bind PruneQueue.readRequest else none with
          | some req => { s with ingestor := .deleting req (req.pubkeys.toChunks 500) 0 names }
          | none => { s with files := s.files.erase name, ingestor := .scanning names }
      | _ => s
  | .deleteBatch => match s.ingestor with
      | .deleting req (batch :: batches) deleted names =>
          { s with
            tables := { s.tables with tables := NodeTables.deleteBatch s.tables.tables batch }
            ingestor := .deleting req batches (deleted + rowsAffected s.tables.tables.nodes batch) names }
      | _ => s
  | .failBatch error now => match s.ingestor with
      | .deleting req (batch :: batches) deleted names =>
          let start := req.pubkeys.length - (batch :: batches).flatten.length
          let res := { id := req.id, requestedAt := req.requestedAt, completedAt := now, deleted := deleted,
                       error := "delete batch [" ++ start.repr ++ ":" ++ (start + batch.length).repr ++ "]: " ++ error }
          { s with ingestor := .answering res names }
      | _ => s
  | .finishDelete now => match s.ingestor with
      | .deleting req [] deleted names =>
          let res := { id := req.id, requestedAt := req.requestedAt, completedAt := now, deleted := deleted,
                       error := "" }
          { s with ingestor := .answering res names }
      | _ => s
  | .writeResult written => match s.ingestor with
      | .answering res _ => if validID res.id then s.put (resultName res.id) (resultText res) written else s
      | _ => s
  | .publishResult => match s.ingestor with
      | .answering res names =>
          if s.files.lookup (tempName (resultName res.id)) = some (resultText res) then
            { s with
              files := rename (tempName (resultName res.id)) (resultName res.id) s.files
              ingestor := .removing res names }
          else s
      | _ => s
  | .dropResult removed => match s.ingestor with
      | .answering res names =>
          { s with
            files := if removed then s.files.erase (tempName (resultName res.id)) else s.files
            ingestor := .scanning names }
      | _ => s
  | .removeRequest removed => match s.ingestor with
      | .removing res names =>
          { s with
            files := if removed then s.files.erase (requestName res.id) else s.files
            ingestor := .scanning names }
      | _ => s
  | .restartIngestor => { s with ingestor := .idle }
  | .writeTables a => { s with tables := s.tables.step a }

def run (s : State) (steps : List Step) : State := steps.foldl State.step s

def initial (tables : NodeTables.State) (geoFilter : Option (Float → Float → Bool)) : State :=
  { tables, geoFilter, files := ∅, writing := [], accepted := [], ingestor := .idle }

end State

theorem find_writing {s : State} {id : String} {req : Request} (h : s.findWriting id = some req) :
    req ∈ s.writing ∧ req.id = id :=
  ⟨List.mem_of_find?_eq_some h, by simpa using List.find?_some h⟩

/-- What a step does, where it does anything. -/
inductive Move (s : State) : Step → State → Prop
  | configure (geoFilter : Option (Float → Float → Bool)) :
      Move s (.configure geoFilter) { s with geoFilter := geoFilter }
  | confirm {body : List String} {id now : String} {passes : Float → Float → Bool}
      (hfilter : s.geoFilter = some passes) (hid : validID id = true) :
      Move s (.confirm body id now) { s with
        writing := { id := id, requestedAt := now, reason := "geo-prune",
                     pubkeys := toDelete passes s.tables.tables.nodes body } :: s.writing }
  | writeRequest {req : Request} (written : Nat) :
      Move s (.writeRequest req.id written) (s.put (requestName req.id) (requestText req) written)
  | publishRequest {req : Request} (hreq : req ∈ s.writing)
      (hfile : s.files.lookup (tempName (requestName req.id)) = some (requestText req)) :
      Move s (.publishRequest req.id) { s with
        files := rename (tempName (requestName req.id)) (requestName req.id) s.files
        writing := s.dropWriting req.id
        accepted := req :: s.accepted }
  | dropRequest (id : String) (removed : Bool) :
      Move s (.dropRequest id removed) { s with
        files := if removed then s.files.erase (tempName (requestName id)) else s.files
        writing := s.dropWriting id }
  | restartServer : Move s .restartServer { s with writing := [] }
  | listPending (hi : s.ingestor = .idle) :
      Move s .listPending { s with ingestor := .scanning ((s.files.keys.filter isPending).insertionSort (· ≤ ·)) }
  | finish {readable : Bool} (hi : s.ingestor = .scanning []) :
      Move s (.readRequest readable) { s with ingestor := .idle }
  | readRequest {name text : String} {names : List String} {req : Request} (hi : s.ingestor = .scanning (name :: names))
      (htext : s.files.lookup name = some text) (hreq : PruneQueue.readRequest text = some req) :
      Move s (.readRequest true) { s with ingestor := .deleting req (req.pubkeys.toChunks 500) 0 names }
  | discard {name : String} {names : List String} {readable : Bool} (hi : s.ingestor = .scanning (name :: names))
      (hread : readable = true → (s.files.lookup name).bind PruneQueue.readRequest = none) :
      Move s (.readRequest readable) { s with files := s.files.erase name, ingestor := .scanning names }
  | deleteBatch {req : Request} {batch : List String} {batches : List (List String)} {deleted : Nat}
      {names : List String} (hi : s.ingestor = .deleting req (batch :: batches) deleted names) :
      Move s .deleteBatch { s with
        tables := { s.tables with tables := NodeTables.deleteBatch s.tables.tables batch }
        ingestor := .deleting req batches (deleted + rowsAffected s.tables.tables.nodes batch) names }
  | answer {a : Step} {req : Request} {batches : List (List String)} {deleted : Nat} {names : List String}
      {now error : String} (hi : s.ingestor = .deleting req batches deleted names)
      (ha : a = .finishDelete now ∨ ∃ text, a = .failBatch text now) :
      Move s a { s with ingestor := .answering ⟨req.id, req.requestedAt, now, deleted, error⟩ names }
  | writeResult {res : Result} {names : List String} (written : Nat) (hi : s.ingestor = .answering res names) :
      Move s (.writeResult written) (s.put (resultName res.id) (resultText res) written)
  | publishResult {res : Result} {names : List String} (hi : s.ingestor = .answering res names)
      (hfile : s.files.lookup (tempName (resultName res.id)) = some (resultText res)) :
      Move s .publishResult { s with
        files := rename (tempName (resultName res.id)) (resultName res.id) s.files
        ingestor := .removing res names }
  | dropResult {res : Result} {names : List String} (removed : Bool) (hi : s.ingestor = .answering res names) :
      Move s (.dropResult removed) { s with
        files := if removed then s.files.erase (tempName (resultName res.id)) else s.files
        ingestor := .scanning names }
  | removeRequest {res : Result} {names : List String} (removed : Bool) (hi : s.ingestor = .removing res names) :
      Move s (.removeRequest removed) { s with
        files := if removed then s.files.erase (requestName res.id) else s.files
        ingestor := .scanning names }
  | restartIngestor : Move s .restartIngestor { s with ingestor := .idle }
  | writeTables (a : NodeTables.Step) : Move s (.writeTables a) { s with tables := s.tables.step a }

theorem readRequest_cases {s : State} {name : String} {names : List String}
    (hi : s.ingestor = .scanning (name :: names)) (readable : Bool) :
    Move s (.readRequest readable) (s.step (.readRequest readable)) := by
  rw [State.step, hi]
  dsimp only
  split
  · next req hreq =>
      cases readable with
      | false => cases hreq
      | true =>
          obtain ⟨text, htext, hreq⟩ := Option.bind_eq_some_iff.mp hreq
          exact .readRequest hi htext hreq
  · next hread =>
      refine .discard hi fun htrue => ?_
      rw [htrue] at hread
      exact hread

theorem step_cases (s : State) (a : Step) : s.step a = s ∨ Move s a (s.step a) := by
  cases a with
  | configure geoFilter => exact .inr (.configure geoFilter)
  | confirm body id now =>
      rw [State.step, State.confirm]
      split
      · exact .inl rfl
      · next hfilter =>
          split
          · exact .inl rfl
          · next hvalid => exact .inr (.confirm hfilter (Bool.eq_true_of_not_eq_false (not_or.mp hvalid).2))
  | writeRequest id written =>
      rw [State.step]
      split
      · next req hfind =>
          obtain ⟨-, rfl⟩ := find_writing hfind
          exact .inr (.writeRequest written)
      · exact .inl rfl
  | publishRequest id =>
      rw [State.step]
      split
      · next req hfind =>
          obtain ⟨hreq, rfl⟩ := find_writing hfind
          split
          · next hfile => exact .inr (.publishRequest hreq hfile)
          · exact .inl rfl
      · exact .inl rfl
  | dropRequest id removed => exact .inr (.dropRequest id removed)
  | restartServer => exact .inr .restartServer
  | listPending =>
      rw [State.step]
      split
      · next hi => exact .inr (.listPending hi)
      · exact .inl rfl
  | readRequest readable =>
      cases hi : s.ingestor with
      | scanning names =>
          cases names with
          | nil =>
              rw [State.step, hi]
              exact .inr (.finish hi)
          | cons name names => exact .inr (readRequest_cases hi readable)
      | _ => exact .inl (by rw [State.step, hi])
  | deleteBatch =>
      rw [State.step]
      split
      · next hi => exact .inr (.deleteBatch hi)
      · exact .inl rfl
  | failBatch error now =>
      rw [State.step]
      split
      · next hi => exact .inr (.answer hi (.inr ⟨error, rfl⟩))
      · exact .inl rfl
  | finishDelete now =>
      rw [State.step]
      split
      · next hi => exact .inr (.answer hi (.inl rfl))
      · exact .inl rfl
  | writeResult written =>
      rw [State.step]
      split
      · next hi =>
          split
          · exact .inr (.writeResult written hi)
          · exact .inl rfl
      · exact .inl rfl
  | publishResult =>
      rw [State.step]
      split
      · next hi =>
          split
          · next hfile => exact .inr (.publishResult hi hfile)
          · exact .inl rfl
      · exact .inl rfl
  | dropResult removed =>
      rw [State.step]
      split
      · next hi => exact .inr (.dropResult removed hi)
      · exact .inl rfl
  | removeRequest removed =>
      rw [State.step]
      split
      · next hi => exact .inr (.removeRequest removed hi)
      · exact .inl rfl
  | restartIngestor => exact .inr .restartIngestor
  | writeTables a => exact .inr (.writeTables a)

theorem step_induction {P : State → Prop} (s : State) (a : Step) (hsame : P s) (hmove : ∀ s', Move s a s' → P s') :
    P (s.step a) := by
  rcases step_cases s a with heq | hdone
  · rwa [heq]
  · exact hmove _ hdone

/-- What `NewID` and the clocks give: an ID that no request has yet, and times in RFC3339. -/
def Step.Proper (s : State) : Step → Prop
  | .confirm _ id now => (∀ r ∈ s.writing ++ s.accepted, r.id ≠ id) ∧ (parseRFC3339 now).isSome
  | .failBatch _ now => (parseRFC3339 now).isSome
  | .finishDelete now => (parseRFC3339 now).isSome
  | _ => True

theorem flatten_toChunks_go (n : Nat) (xs : List String) (chunk : Array String) (chunks : Array (List String)) :
    (List.toChunks.go n xs chunk chunks).flatten = chunks.toList.flatten ++ chunk.toList ++ xs := by
  induction xs generalizing chunk chunks with
  | nil => simp [List.toChunks.go]
  | cons x xs ih =>
      rw [List.toChunks.go]
      split
      · rw [ih]
        simp
      · rw [ih]
        simp

theorem flatten_toChunks (xs : List String) : (xs.toChunks 500).flatten = xs := by
  cases xs with
  | nil => rfl
  | cons x xs =>
      rw [List.toChunks]
      · rw [flatten_toChunks_go]
        simp
      · decide

theorem not_isPending_resultName (id : String) : isPending (resultName id) = false := by
  rw [isPending, Bool.and_eq_false_iff]
  refine .inl (Bool.eq_false_iff.mpr fun h => ?_)
  obtain ⟨rest, hrest⟩ := List.isPrefixOf_iff_prefix.mp h
  have hthird := congrArg (fun cs : List Char => cs.take 3) hrest
  simp [resultName] at hthird

def Timed (r : Request) : Prop := (parseRFC3339 r.requestedAt).isSome

def Answers (accepted : List Request) (res : Result) : Prop :=
  (parseRFC3339 res.completedAt).isSome ∧ ∃ r ∈ accepted, res.id = r.id ∧ res.requestedAt = r.requestedAt

/-- What the files of the queue are for. -/
def Good (accepted : List Request) (name text : String) : Prop :=
  (∃ r ∈ accepted, name = requestName r.id ∧ text = requestText r) ∨
    ∃ res, Answers accepted res ∧ name = resultName res.id ∧ text = resultText res

def Answered (files : Directory String String) (id : String) : Prop :=
  ∃ res, res.id = id ∧ files.lookup (resultName id) = some (resultText res)

def PendingNames (names : List String) : Prop := ∀ name ∈ names, isPending name = true

/-- What the ingestor knows where it is. -/
def Sound (accepted : List Request) (files : Directory String String) : Ingestor → Prop
  | .idle => True
  | .scanning names => PendingNames names
  | .deleting req batches _ names => req ∈ accepted ∧ (∀ pk ∈ batches.flatten, pk ∈ req.pubkeys) ∧ PendingNames names
  | .answering res names => Answers accepted res ∧ PendingNames names
  | .removing res names => Answered files res.id ∧ PendingNames names

/-- The requests with the IDs in `lost` are those whose files could not be read. -/
structure Inv (lost : String → Prop) (s : State) : Prop where
  whole : Whole Shown (Good s.accepted) s.files
  valid : ∀ r ∈ s.writing ++ s.accepted, validID r.id = true ∧ Timed r
  distinct : ((s.writing ++ s.accepted).map Request.id).Nodup
  accounted : ∀ r ∈ s.accepted,
    s.files.lookup (requestName r.id) = some (requestText r) ∨ Answered s.files r.id ∨ lost r.id
  sound : Sound s.accepted s.files s.ingestor

variable {s : State} {lost : String → Prop}

theorem Answers.imp {accepted accepted' : List Request} {res : Result} (h : Answers accepted res)
    (hsub : ∀ r ∈ accepted, r ∈ accepted') : Answers accepted' res := by
  obtain ⟨htime, r, hr, hid⟩ := h
  exact ⟨htime, r, hsub r hr, hid⟩

theorem Good.imp {accepted accepted' : List Request} {name text : String} (h : Good accepted name text)
    (hsub : ∀ r ∈ accepted, r ∈ accepted') : Good accepted' name text := by
  rcases h with ⟨r, hr, h⟩ | ⟨res, hres, h⟩
  · exact .inl ⟨r, hsub r hr, h⟩
  · exact .inr ⟨res, hres.imp hsub, h⟩

theorem Sound.imp {accepted accepted' : List Request} {files files' : Directory String String} {i : Ingestor}
    (h : Sound accepted files i) (hsub : ∀ r ∈ accepted, r ∈ accepted')
    (hfiles : ∀ id, Answered files id → Answered files' id) : Sound accepted' files' i := by
  cases i with
  | idle => trivial
  | scanning names => exact h
  | deleting req batches deleted names => exact ⟨hsub req h.1, h.2⟩
  | answering res names => exact ⟨h.1.imp hsub, h.2⟩
  | removing res names => exact ⟨hfiles res.id h.1, h.2⟩

theorem Inv.of_shown (h : Inv lost s) {files : Directory String String}
    (hfiles : ∀ name, Shown name → files.lookup name = s.files.lookup name) : Inv lost { s with files := files } := by
  have hanswered : ∀ id, Answered s.files id → Answered files id := by
    rintro id ⟨res, hid, hres⟩
    exact ⟨res, hid, (hfiles _ (shown_resultName id)).trans hres⟩
  refine ⟨fun name text hname htext => ?_, h.valid, h.distinct, fun r hr => ?_, h.sound.imp (fun r hr => hr) hanswered⟩
  · rw [hfiles name hname] at htext
    exact h.whole name text hname htext
  · rw [hfiles _ (shown_requestName r.id)]
    exact (h.accounted r hr).imp_right (Or.imp_left (hanswered r.id))

theorem Inv.mono (h : Inv lost s) {lost' : String → Prop} (hlost : ∀ id, lost id → lost' id) : Inv lost' s :=
  ⟨h.whole, h.valid, h.distinct, fun r hr => (h.accounted r hr).imp_right (Or.imp_right (hlost r.id)), h.sound⟩

theorem Inv.put (h : Inv lost s) (name text : String) (written : Nat) : Inv lost (s.put name text written) := by
  refine h.of_shown fun other hother => AList.lookup_insert_ne ?_
  rintro rfl
  exact not_shown_tempName name hother

theorem Inv.eraseTemp (h : Inv lost s) (name : String) (removed : Bool) :
    Inv lost { s with files := if removed then s.files.erase (tempName name) else s.files } := by
  refine h.of_shown fun other hother => ?_
  cases removed with
  | false => rfl
  | true =>
      refine AList.lookup_erase_ne ?_
      rintro rfl
      exact not_shown_tempName name hother

theorem Inv.withIngestor (h : Inv lost s) {i : Ingestor} (hi : Sound s.accepted s.files i) :
    Inv lost { s with ingestor := i } :=
  ⟨h.whole, h.valid, h.distinct, h.accounted, hi⟩

theorem Inv.withWriting (h : Inv lost s) {writing : List Request} (hsub : writing.Sublist s.writing) :
    Inv lost { s with writing := writing } := by
  have happend := hsub.append (List.Sublist.refl s.accepted)
  exact ⟨h.whole, fun r hr => h.valid r (happend.subset hr), h.distinct.sublist (happend.map _), h.accounted, h.sound⟩

theorem Inv.confirm (h : Inv lost s) {req : Request} (hfresh : ∀ r ∈ s.writing ++ s.accepted, r.id ≠ req.id)
    (hvalid : validID req.id = true) (htime : Timed req) : Inv lost { s with writing := req :: s.writing } := by
  refine ⟨h.whole, fun r hr => ?_, ?_, h.accounted, h.sound⟩
  · rcases List.mem_cons.mp hr with rfl | hr
    · exact ⟨hvalid, htime⟩
    · exact h.valid r hr
  · refine List.nodup_cons.mpr ⟨fun hmem => ?_, h.distinct⟩
    obtain ⟨r, hr, hid⟩ := List.mem_map.mp hmem
    exact hfresh r hr hid

theorem Inv.publishRequest (h : Inv lost s) {req : Request} (hreq : req ∈ s.writing)
    (hfile : s.files.lookup (tempName (requestName req.id)) = some (requestText req)) :
    Inv lost { s with
      files := rename (tempName (requestName req.id)) (requestName req.id) s.files
      writing := s.dropWriting req.id
      accepted := req :: s.accepted } := by
  have hsub : ∀ r ∈ s.accepted, r ∈ req :: s.accepted := fun r hr => List.mem_cons_of_mem req hr
  have hother : ∀ name, Shown name → name ≠ requestName req.id →
      (rename (tempName (requestName req.id)) (requestName req.id) s.files).lookup name = s.files.lookup name := by
    intro name hname hne
    refine lookup_rename_of_ne ?_ hne
    rintro rfl
    exact not_shown_tempName _ hname
  have hanswered : ∀ id, Answered s.files id →
      Answered (rename (tempName (requestName req.id)) (requestName req.id) s.files) id := by
    rintro id ⟨res, hid, hres⟩
    refine ⟨res, hid, ?_⟩
    rw [hother _ (shown_resultName id) (requestName_ne_resultName req.id id).symm]
    exact hres
  have happend : (s.dropWriting req.id ++ s.accepted).Sublist (s.writing ++ s.accepted) :=
    List.filter_sublist.append (List.Sublist.refl s.accepted)
  have hperm : (s.dropWriting req.id ++ req :: s.accepted).Perm (req :: (s.dropWriting req.id ++ s.accepted)) :=
    List.perm_middle
  have hdisjoint : ∀ r ∈ s.accepted, r.id ≠ req.id := by
    intro r hr hid
    have hnodup := (List.nodup_append.mp (List.map_append ▸ h.distinct)).2.2
    exact hnodup req.id (List.mem_map_of_mem hreq) r.id (List.mem_map_of_mem hr) hid.symm
  refine ⟨?_, fun r hr => ?_, ?_, fun r hr => ?_, h.sound.imp hsub hanswered⟩
  · refine (h.whole.imp fun name text hgood => hgood.imp hsub).publish hfile fun _ => ?_
    exact .inl ⟨req, List.mem_cons_self, rfl, rfl⟩
  · rcases List.mem_cons.mp (hperm.mem_iff.mp hr) with rfl | hr
    · exact h.valid r (List.mem_append_left _ hreq)
    · exact h.valid r (happend.subset hr)
  · rw [(hperm.map Request.id).nodup_iff]
    refine List.nodup_cons.mpr ⟨fun hmem => ?_, h.distinct.sublist (happend.map _)⟩
    obtain ⟨r, hr, hid⟩ := List.mem_map.mp hmem
    rcases List.mem_append.mp hr with hr | hr
    · simp [State.dropWriting, hid] at hr
    · exact hdisjoint r hr hid
  · rcases List.mem_cons.mp hr with rfl | hr
    · exact .inl (lookup_rename_self hfile)
    · rw [hother _ (shown_requestName r.id) fun heq => hdisjoint r hr (requestName_injective heq)]
      exact (h.accounted r hr).imp_right (Or.imp_left (hanswered r.id))

theorem Inv.publishResult (h : Inv lost s) {res : Result} {names : List String} (hi : s.ingestor = .answering res names)
    (hfile : s.files.lookup (tempName (resultName res.id)) = some (resultText res)) :
    Inv lost { s with
      files := rename (tempName (resultName res.id)) (resultName res.id) s.files
      ingestor := .removing res names } := by
  have hsound := h.sound
  rw [hi] at hsound
  obtain ⟨hanswers, hnames⟩ := hsound
  have hother : ∀ name, Shown name → name ≠ resultName res.id →
      (rename (tempName (resultName res.id)) (resultName res.id) s.files).lookup name = s.files.lookup name := by
    intro name hname hne
    refine lookup_rename_of_ne ?_ hne
    rintro rfl
    exact not_shown_tempName _ hname
  have hself : (rename (tempName (resultName res.id)) (resultName res.id) s.files).lookup (resultName res.id) = _ :=
    lookup_rename_self hfile
  refine ⟨?_, h.valid, h.distinct, fun r hr => ?_, ⟨res, rfl, hself⟩, hnames⟩
  · exact h.whole.publish hfile fun _ => .inr ⟨res, hanswers, rfl, rfl⟩
  · rw [hother _ (shown_requestName r.id) (requestName_ne_resultName r.id res.id)]
    refine (h.accounted r hr).imp_right (Or.imp_left ?_)
    rintro ⟨res', hid, hres'⟩
    by_cases hsame : r.id = res.id
    · exact ⟨res, hsame.symm, hsame ▸ hself⟩
    · refine ⟨res', hid, ?_⟩
      rw [hother _ (shown_resultName r.id) fun heq => hsame (resultName_injective heq)]
      exact hres'

theorem Inv.eraseAnswered (h : Inv lost s) {id : String} (hanswered : Answered s.files id) {names : List String}
    (hnames : PendingNames names) (removed : Bool) :
    Inv lost { s with
      files := if removed then s.files.erase (requestName id) else s.files
      ingestor := .scanning names } := by
  cases removed with
  | false => exact h.withIngestor hnames
  | true =>
      have hkept : ∀ i, Answered s.files i → Answered (s.files.erase (requestName id)) i := by
        rintro i ⟨res, hid, hres⟩
        refine ⟨res, hid, ?_⟩
        rw [AList.lookup_erase_ne (requestName_ne_resultName id i).symm]
        exact hres
      refine ⟨h.whole.erase _, h.valid, h.distinct, fun r hr => ?_, hnames⟩
      by_cases hid : r.id = id
      · exact .inr (.inl (hid ▸ hkept id hanswered))
      · refine (h.accounted r hr).imp (fun hfile => ?_) (Or.imp_left (hkept r.id))
        rw [if_pos rfl, AList.lookup_erase_ne fun heq => hid (requestName_injective heq)]
        exact hfile

theorem Inv.pending (h : Inv lost s) {name text : String} (hname : isPending name = true)
    (htext : s.files.lookup name = some text) :
    ∃ r ∈ s.accepted, name = requestName r.id ∧ PruneQueue.readRequest text = some r := by
  rcases h.whole name text (shown_of_isPending hname) htext with ⟨r, hr, rfl, rfl⟩ | ⟨res, _, rfl, _⟩
  · exact ⟨r, hr, rfl, readRequest_requestText (h.valid r (List.mem_append_right _ hr)).2⟩
  · rw [not_isPending_resultName] at hname
    cases hname

theorem Inv.answered_of_lookup (h : Inv lost s) {id text : String}
    (hfile : s.files.lookup (resultName id) = some text) : Answered s.files id := by
  rcases h.whole _ _ (shown_resultName id) hfile with ⟨r, _, hname, _⟩ | ⟨res, _, hname, htext⟩
  · exact absurd hname.symm (requestName_ne_resultName r.id id)
  · exact ⟨res, (resultName_injective hname).symm, htext ▸ hfile⟩

/-- The ingestor has come to the file of the request, which has no result yet. -/
def At (id : String) (s : State) : Prop :=
  (∃ names, s.ingestor = .scanning (requestName id :: names)) ∧ s.files.lookup (resultName id) = none

def lostBy (lost : String → Prop) (s : State) (a : Step) (id : String) : Prop :=
  lost id ∨ a = .readRequest false ∧ At id s

theorem Inv.discard (h : Inv lost s) {name : String} {names : List String} (hi : s.ingestor = .scanning (name :: names))
    {readable : Bool} (hread : readable = true → (s.files.lookup name).bind PruneQueue.readRequest = none) :
    Inv (lostBy lost s (.readRequest readable))
      { s with files := s.files.erase name, ingestor := .scanning names } := by
  have hnames : PendingNames (name :: names) := by
    have hsound := h.sound
    rwa [hi] at hsound
  refine ⟨h.whole.erase _, h.valid, h.distinct, fun r hr => ?_, fun n hn => hnames n (List.mem_cons_of_mem name hn)⟩
  have hkept : ∀ id, Answered s.files id → Answered (s.files.erase name) id := by
    rintro id ⟨res, hid, hres⟩
    refine ⟨res, hid, ?_⟩
    rw [AList.lookup_erase_ne ?_]
    · exact hres
    · rintro rfl
      have hpending := hnames _ List.mem_cons_self
      rw [not_isPending_resultName] at hpending
      cases hpending
  rcases h.accounted r hr with hfile | hanswered | hlost
  · by_cases hname : requestName r.id = name
    · subst hname
      cases hresult : s.files.lookup (resultName r.id) with
      | none =>
          -- a request that is there can be read
          have hfails : readable ≠ true := by
            intro htrue
            have hnone := hread htrue
            rw [hfile, Option.bind_some, readRequest_requestText (h.valid r (List.mem_append_right _ hr)).2] at hnone
            cases hnone
          obtain rfl := Bool.eq_false_of_not_eq_true hfails
          exact .inr (.inr (.inr ⟨rfl, ⟨names, hi⟩, hresult⟩))
      | some text => exact .inr (.inl (hkept r.id (h.answered_of_lookup hresult)))
    · exact .inl ((AList.lookup_erase_ne hname).trans hfile)
  · exact .inr (.inl (hkept r.id hanswered))
  · exact .inr (.inr (.inl hlost))

theorem pending_of_keys {files : Directory String String} :
    PendingNames ((files.keys.filter isPending).insertionSort (· ≤ ·)) := by
  intro name hname
  rw [List.mem_insertionSort] at hname
  exact (List.mem_filter.mp hname).2

theorem Inv.step (h : Inv lost s) (a : Step) (ha : a.Proper s) : Inv (lostBy lost s a) (s.step a) := by
  have hl : Inv (lostBy lost s a) s := h.mono fun _ => .inl
  have hsound := h.sound
  refine step_induction s a hl fun s' hmove => ?_
  cases hmove with
  | configure | writeTables => exact ⟨hl.whole, hl.valid, hl.distinct, hl.accounted, hl.sound⟩
  | confirm _ hid => exact hl.confirm ha.1 hid ha.2
  | writeRequest | writeResult => exact hl.put _ _ _
  | publishRequest hreq hfile => exact hl.publishRequest hreq hfile
  | dropRequest id removed => exact (hl.eraseTemp _ removed).withWriting List.filter_sublist
  | restartServer => exact hl.withWriting (List.nil_sublist _)
  | listPending => exact hl.withIngestor (i := .scanning _) pending_of_keys
  | finish | restartIngestor => exact hl.withIngestor (i := .idle) trivial
  | readRequest hi htext hreq =>
      rw [hi] at hsound
      obtain ⟨r, hr, _, hread⟩ := h.pending (hsound _ List.mem_cons_self) htext
      obtain rfl := Option.some.inj (hread.symm.trans hreq)
      refine hl.withIngestor ⟨hr, fun pk hpk => flatten_toChunks r.pubkeys ▸ hpk, fun n hn => ?_⟩
      exact hsound n (List.mem_cons_of_mem _ hn)
  | discard hi hread => exact h.discard hi hread
  | deleteBatch hi =>
      rw [hi] at hsound
      refine ⟨hl.whole, hl.valid, hl.distinct, hl.accounted, hsound.1, fun pk hpk => ?_, hsound.2.2⟩
      exact hsound.2.1 pk (List.mem_append_right _ hpk)
  | answer hi hend =>
      rw [hi] at hsound
      refine hl.withIngestor (i := .answering _ _) ⟨⟨?_, _, hsound.1, rfl, rfl⟩, hsound.2.2⟩
      rcases hend with rfl | ⟨_, rfl⟩ <;> exact ha
  | publishResult hi hfile => exact hl.publishResult hi hfile
  | dropResult removed hi =>
      rw [hi] at hsound
      exact (hl.eraseTemp _ removed).withIngestor (i := .scanning _) hsound.2
  | removeRequest removed hi =>
      rw [hi] at hsound
      exact hl.eraseAnswered hsound.1 hsound.2 removed

theorem Inv.step_readable (h : Inv lost s) (a : Step) (ha : a.Proper s) (hread : a ≠ .readRequest false) :
    Inv lost (s.step a) :=
  (h.step a ha).mono fun _ hid => Or.resolve_right hid fun hfail => hread hfail.1

theorem lookup_put {name other text : String} {written : Nat} (h : Shown other) :
    (s.put name text written).files.lookup other = s.files.lookup other := by
  refine AList.lookup_insert_ne ?_
  rintro rfl
  exact not_shown_tempName name h

theorem lookup_eraseTemp {files : Directory String String} {name other : String} {removed : Bool} (h : Shown other) :
    (if removed then files.erase (tempName name) else files).lookup other = files.lookup other := by
  cases removed with
  | false => rfl
  | true =>
      refine AList.lookup_erase_ne ?_
      rintro rfl
      exact not_shown_tempName name h

theorem Inv.answered_step (h : Inv lost s) (a : Step) {id : String} (hid : Answered s.files id) :
    Answered (s.step a).files id := by
  obtain ⟨res, hres, hfile⟩ := hid
  have hkept : ∀ {files : Directory String String}, files.lookup (resultName id) = s.files.lookup (resultName id) →
      Answered files id := fun heq => ⟨res, hres, heq.trans hfile⟩
  have hshown := shown_resultName id
  have htemp : ∀ name, resultName id ≠ tempName name := fun name heq => not_shown_tempName name (heq ▸ hshown)
  refine step_induction (P := fun s' => Answered s'.files id) s a (hkept rfl) fun s' hmove => ?_
  cases hmove with
  | writeRequest | writeResult => exact hkept (lookup_put hshown)
  | publishRequest => exact hkept (lookup_rename_of_ne (htemp _) (requestName_ne_resultName _ id).symm)
  | dropRequest | dropResult => exact hkept (lookup_eraseTemp hshown)
  | discard hi _ =>
      refine hkept (AList.lookup_erase_ne ?_)
      rintro rfl
      have hsound := h.sound
      rw [hi] at hsound
      have hpending := hsound _ List.mem_cons_self
      rw [not_isPending_resultName] at hpending
      cases hpending
  | @publishResult res' _ _ hnew =>
      by_cases hsame : id = res'.id
      · subst hsame
        exact ⟨res', rfl, lookup_rename_self hnew⟩
      · exact hkept (lookup_rename_of_ne (htemp _) fun heq => hsame (resultName_injective heq))
  | removeRequest removed =>
      cases removed with
      | false => exact hkept rfl
      | true => exact hkept (AList.lookup_erase_ne (requestName_ne_resultName _ id).symm)
  | _ => exact hkept rfl

theorem accepted_step (s : State) (a : Step) : s.accepted <:+ (s.step a).accepted := by
  refine step_induction (P := fun s' => s.accepted <:+ s'.accepted) s a (List.suffix_refl _) fun s' hmove => ?_
  cases hmove with
  | publishRequest => exact List.suffix_cons _ _
  | _ => exact List.suffix_refl _

variable {tables : NodeTables.State} {geoFilter : Option (Float → Float → Bool)}

theorem inv_initial : Inv (fun _ => False) (State.initial tables geoFilter) where
  whole := whole_empty
  valid := nofun
  distinct := List.nodup_nil
  accounted := nofun
  sound := trivial

/-- A step of the run in which the ingestor, at the file of the request, could not read it. -/
def Unread (start : State) (steps : List Step) (id : String) : Prop :=
  ∃ before after, steps = before ++ .readRequest false :: after ∧ At id (start.run before)

theorem run_append (s : State) (steps more : List Step) : s.run (steps ++ more) = (s.run steps).run more :=
  List.foldl_append

theorem unread_append {start : State} {steps : List Step} {id : String} (h : Unread start steps id) (more : List Step) :
    Unread start (steps ++ more) id := by
  obtain ⟨before, after, rfl, hat⟩ := h
  exact ⟨before, after ++ more, by simp, hat⟩

theorem inv_run {steps : List Step}
    (h : Along State.step (fun s a => a.Proper s) (State.initial tables geoFilter) steps) :
    Inv (Unread (State.initial tables geoFilter) steps) ((State.initial tables geoFilter).run steps) := by
  induction steps using List.reverseRecOn with
  | nil => exact inv_initial.mono fun _ => False.elim
  | append_singleton steps a ih =>
      obtain ⟨hsteps, ha, _⟩ := along_append.mp h
      rw [run_append]
      refine ((ih hsteps).step a ha).mono fun id hid => ?_
      rcases hid with hlost | ⟨rfl, hat⟩
      · exact unread_append hlost [a]
      · exact ⟨steps, [], rfl, hat⟩

theorem Inv.answered_run {steps : List Step} (h : Inv lost s)
    (hsteps : Along State.step (fun s a => a.Proper s) s steps) {id : String} (hid : Answered s.files id) :
    Answered (s.run steps).files id := by
  have hboth := hsteps.foldl_invariant (I := fun s => (∃ lost, Inv lost s) ∧ Answered s.files id) ⟨⟨lost, h⟩, hid⟩
    fun _ a hs ha => by
      obtain ⟨⟨_, hinv⟩, hid⟩ := hs
      exact ⟨⟨_, hinv.step a ha⟩, hinv.answered_step a hid⟩
  exact hboth.2

theorem accepted_run (s : State) (steps : List Step) : s.accepted <:+ (s.run steps).accepted :=
  foldl_invariant (I := fun t => s.accepted <:+ t.accepted) (List.suffix_refl _)
    fun t a _ ht => ht.trans (accepted_step t a)

/-- Each accepted request is in the queue as it was written, or answered, or could not be read, and a reader of the
queue finds nothing but accepted requests. -/
structure Accounted (lost : String → Prop) (s : State) : Prop where
  kept : ∀ r ∈ s.accepted, s.files.lookup (requestName r.id) = some (requestText r) ∨
    (∃ res, res.id = r.id ∧ ∃ text, s.files.lookup (resultName r.id) = some text ∧ readResult text = some res) ∨
      lost r.id
  whole : ∀ name text, isPending name = true → s.files.lookup name = some text →
    ∃ r ∈ s.accepted, name = requestName r.id ∧ readRequest text = some r

theorem Inv.readAnswer (h : Inv lost s) {id : String} (hid : Answered s.files id) :
    ∃ res, res.id = id ∧ ∃ text, s.files.lookup (resultName id) = some text ∧ readResult text = some res := by
  obtain ⟨res, rfl, hfile⟩ := hid
  rcases h.whole _ _ (shown_resultName res.id) hfile with ⟨r, _, hname, _⟩ | ⟨res', hanswers, hname, htext⟩
  · exact absurd hname.symm (requestName_ne_resultName r.id res.id)
  · obtain ⟨htime, r, hr, hid, hat⟩ := hanswers
    have htime' : (parseRFC3339 res'.requestedAt).isSome := by
      rw [hat]
      exact (h.valid r (List.mem_append_right _ hr)).2
    exact ⟨res', (resultName_injective hname).symm, resultText res', htext ▸ hfile, readResult_resultText htime' htime⟩

/-- Whatever the two processes do one after the other, and wherever they are stopped and started again, no accepted
request is lost unless its file could not be read, and no file of the queue is read in part. -/
theorem requests_accounted {steps : List Step}
    (h : Along State.step (fun s a => a.Proper s) (State.initial tables geoFilter) steps) :
    Accounted (Unread (State.initial tables geoFilter) steps) ((State.initial tables geoFilter).run steps) := by
  have hinv := inv_run h
  refine ⟨fun r hr => (hinv.accounted r hr).imp_right (Or.imp_left hinv.readAnswer), fun name text hname htext => ?_⟩
  exact hinv.pending hname htext

/-- The ingestor is stopped after it has read the request, reads it again, and then fails to read another one. -/
def stoppedPass : List Step :=
  [.configure (some fun _ _ => false), .confirm ["aa"] "0f" "2026-01-01T00:00:00Z", .writeRequest "0f" 7,
    .writeRequest "0f" 500, .publishRequest "0f", .listPending, .readRequest true, .restartIngestor,
    .confirm ["aa"] "1f" "2026-01-01T00:00:01Z", .writeRequest "1f" 500, .publishRequest "1f", .listPending,
    .readRequest true, .finishDelete "2026-01-01T00:00:02Z", .dropResult false, .readRequest false]

theorem stoppedPass_proper :
    Along State.step (fun s a => a.Proper s) (State.initial NodeTables.State.empty none) stoppedPass := by
  have htime : (parseRFC3339 "2026-01-01T00:00:00Z").isSome = true := by decide
  have htime₁ : (parseRFC3339 "2026-01-01T00:00:01Z").isSome = true := by decide
  have htime₂ : (parseRFC3339 "2026-01-01T00:00:02Z").isSome = true := by decide
  have hfresh : ∀ r ∈ ((State.initial NodeTables.State.empty none).run (stoppedPass.take 8)).writing ++
      ((State.initial NodeTables.State.empty none).run (stoppedPass.take 8)).accepted, r.id ≠ "1f" := by
    decide +kernel
  exact ⟨trivial, ⟨nofun, htime⟩, trivial, trivial, trivial, trivial, trivial, trivial, ⟨hfresh, htime₁⟩, trivial,
    trivial, trivial, trivial, htime₂, trivial, trivial, trivial⟩

theorem requests_accounted_stopped : Accounted (Unread (State.initial NodeTables.State.empty none) stoppedPass)
    ((State.initial NodeTables.State.empty none).run stoppedPass) :=
  requests_accounted stoppedPass_proper

inductive Status
  | badRequest
  | serverError
  | done (res : Result)
  | error (res : Result)
  | pending
  | unknown

def settled (res : Result) : Status := if res.error = "" then .done res else .error res

/-- `handlePruneGeoFilterStatus`, which looks for the result first and then, maybe some steps later, for the
request. -/
def handlePruneGeoFilterStatus (id : String) (atResult atRequest : Directory String String) : Status :=
  if validID id = false then .badRequest
  else match atResult.lookup (resultName id) with
    | some text => match readResult text with
        | some res => settled res
        | none => .serverError
    | none => if (atRequest.lookup (requestName id)).isSome then .pending else .unknown

/-- What a poll tells of an accepted request: that it is pending or how it ended, and if it finds neither file, then
the next poll tells how it ended. -/
def Told (id : String) (later : Directory String String) : Status → Prop
  | .pending => True
  | .done res => res.id = id ∧ res.error = ""
  | .error res => res.id = id ∧ res.error ≠ ""
  | .unknown => ∃ res, res.id = id ∧ ∀ files, handlePruneGeoFilterStatus id later files = settled res
  | _ => False

theorem told_settled {id : String} {later : Directory String String} {res : Result} (h : res.id = id) :
    Told id later (settled res) := by
  rw [settled]
  split
  · next herror => exact ⟨h, herror⟩
  · next herror => exact ⟨h, herror⟩

/-- What a poll tells of the requests that were accepted before it, unless they could not be read. -/
def Tells (lost : String → Prop) (s s' s'' : State) : Prop :=
  ∀ r ∈ s.accepted, ¬ lost r.id → Told r.id s''.files (handlePruneGeoFilterStatus r.id s.files s'.files)

theorem Inv.status (h : Inv lost s) {id : String} (hvalid : validID id = true) (hid : Answered s.files id) :
    ∃ res, res.id = id ∧ ∀ files, handlePruneGeoFilterStatus id s.files files = settled res := by
  obtain ⟨res, hres, text, hfile, hread⟩ := h.readAnswer hid
  refine ⟨res, hres, fun files => ?_⟩
  simp [handlePruneGeoFilterStatus, hvalid, hfile, hread]

theorem Inv.tells {s' s'' : State} {lost' lost'' : String → Prop} (h : Inv lost s) (h' : Inv lost' s')
    (h'' : Inv lost'' s'') (haccepted : s.accepted ⊆ s'.accepted)
    (hlater : ∀ id, Answered s'.files id → Answered s''.files id) : Tells lost' s s' s'' := by
  intro r hr hread
  have hvalid := (h.valid r (List.mem_append_right _ hr)).1
  cases hresult : s.files.lookup (resultName r.id) with
  | some text =>
      obtain ⟨res, hres, hstatus⟩ := h.status hvalid (h.answered_of_lookup hresult)
      rw [hstatus]
      exact told_settled hres
  | none =>
      have hstatus : handlePruneGeoFilterStatus r.id s.files s'.files =
          if (s'.files.lookup (requestName r.id)).isSome then .pending else .unknown := by
        simp [handlePruneGeoFilterStatus, hvalid, hresult]
      rw [hstatus]
      rcases h'.accounted r (haccepted hr) with hfile | hanswered | hlost
      · rw [hfile]
        trivial
      · split
        · trivial
        · exact h''.status hvalid (hlater r.id hanswered)
      · exact absurd hlost hread

/-- A poll that reads the result of an accepted request after some steps, looks for the request after some more, and
finds neither was overtaken by the ingestor: the next one finds the result, unless the ingestor could not read the
request. -/
theorem polls_tell {steps between after : List Step}
    (h : Along State.step (fun s a => a.Proper s) (State.initial tables geoFilter) (steps ++ between ++ after)) :
    Tells (Unread (State.initial tables geoFilter) (steps ++ between)) ((State.initial tables geoFilter).run steps)
      ((State.initial tables geoFilter).run (steps ++ between))
      ((State.initial tables geoFilter).run (steps ++ between ++ after)) := by
  obtain ⟨hboth, hafter⟩ := along_append.mp h
  have hinv' := inv_run hboth
  refine (inv_run hboth.append_left).tells hinv' (inv_run h) ?_ fun id hid => ?_
  · rw [run_append]
    exact (accepted_run _ between).subset
  · rw [run_append]
    exact hinv'.answered_run hafter hid

theorem polls_tell_stopped :
    Tells (Unread (State.initial NodeTables.State.empty none) (stoppedPass.take 5 ++ (stoppedPass.drop 5).take 2))
      ((State.initial NodeTables.State.empty none).run (stoppedPass.take 5))
      ((State.initial NodeTables.State.empty none).run (stoppedPass.take 5 ++ (stoppedPass.drop 5).take 2))
      ((State.initial NodeTables.State.empty none).run
        (stoppedPass.take 5 ++ (stoppedPass.drop 5).take 2 ++ stoppedPass.drop 7)) :=
  polls_tell stoppedPass_proper

def Confirms (pk : String) (s : State) (a : Step) : Prop :=
  ∃ body id now passes, a = .confirm body id now ∧ s.geoFilter = some passes ∧ pk ∈ body ∧
    outside passes (s.tables.tables.nodes pk) = true

theorem requests_step (s : State) (a : Step) {r : Request} : r ∈ (s.step a).writing ++ (s.step a).accepted →
    r ∈ s.writing ++ s.accepted ∨ ∀ pk ∈ r.pubkeys, Confirms pk s a := by
  refine step_induction (P := fun s' => r ∈ s'.writing ++ s'.accepted → _) s a .inl fun s' hmove hr => ?_
  cases hmove with
  | @confirm body id now passes hfilter =>
      rcases List.mem_cons.mp hr with rfl | hr
      · refine .inr fun pk hpk => ⟨body, id, now, passes, rfl, hfilter, ?_⟩
        have hmem := (List.mem_insertionSort _).mp hpk
        rw [List.mem_filter, List.mem_dedup] at hmem
        exact hmem
      · exact .inl hr
  | publishRequest hreq =>
      refine .inl ?_
      rcases List.mem_append.mp hr with hr | hr
      · exact List.mem_append_left _ (List.mem_of_mem_filter hr)
      · rcases List.mem_cons.mp hr with rfl | hr
        · exact List.mem_append_left _ hreq
        · exact List.mem_append_right _ hr
  | dropRequest =>
      rcases List.mem_append.mp hr with hr | hr
      · exact .inl (List.mem_append_left _ (List.mem_of_mem_filter hr))
      · exact .inl (List.mem_append_right _ hr)
  | restartServer => exact .inl (List.mem_append_right _ hr)
  | _ => exact .inl hr

/-- A step of the run before which the node was in a preview that was confirmed. -/
def Confirmed (start : State) (steps : List Step) (pk : String) : Prop :=
  ∃ before a after, steps = before ++ a :: after ∧ Confirms pk (start.run before) a

theorem requests_confirmed (steps : List Step) {r : Request}
    (hr : r ∈ ((State.initial tables geoFilter).run steps).writing ++
      ((State.initial tables geoFilter).run steps).accepted) :
    ∀ pk ∈ r.pubkeys, Confirmed (State.initial tables geoFilter) steps pk := by
  induction steps using List.reverseRecOn with
  | nil => exact absurd hr (by simp [State.run, State.initial])
  | append_singleton steps a ih =>
      rw [run_append] at hr
      intro pk hpk
      rcases requests_step _ a hr with hr | hconfirms
      · obtain ⟨before, b, after, rfl, hb⟩ := ih hr pk hpk
        exact ⟨before, b, after ++ [a], by simp, hb⟩
      · exact ⟨steps, a, [], rfl, hconfirms pk hpk⟩

def Deletes (s : State) (a : Step) (pk : String) : Prop :=
  a = .deleteBatch ∧ s.tables.tables.nodes pk ≠ none ∧ (s.step a).tables.tables.nodes pk = none

/-- Whatever nodes come and go meanwhile, the queue deletes none that was not in a confirmed preview, with a position
outside the filter of that moment. -/
def DeletesConfirmed (start : State) (steps : List Step) : Prop :=
  ∀ before a after pk, steps = before ++ a :: after → Deletes (start.run before) a pk → Confirmed start before pk

theorem eq_of_readRequest {r r' : Request} (h : readRequest (requestText r) = some r') : r' = r := by
  cases htime : (parseRFC3339 r.requestedAt).isSome with
  | true => exact Option.some.inj (h.symm.trans (readRequest_requestText htime))
  | false =>
      rw [readRequest, requestText, unmarshalInto_marshalIndent] at h
      · simp [requestMember, stringInto, timeInto, htime] at h
      · by_cases hreason : r.reason = "" <;>
          simp [textMember, hreason, NumberedMembers, NumberedMember, Numbered, numberedElements_strings]

/-- What the ingestor is at is a request, whatever the IDs and the clocks are. -/
def Asked (accepted : List Request) : Ingestor → Prop
  | .idle => True
  | .scanning names | .answering _ names | .removing _ names => PendingNames names
  | .deleting req batches _ names => req ∈ accepted ∧ (∀ pk ∈ batches.flatten, pk ∈ req.pubkeys) ∧ PendingNames names

def Wanted (accepted : List Request) (_name text : String) : Prop := ∃ r ∈ accepted, text = requestText r

structure Requested (s : State) : Prop where
  files : Whole (fun name => isPending name = true) (Wanted s.accepted) s.files
  asked : Asked s.accepted s.ingestor

theorem not_isPending_tempName (name : String) : ¬ isPending (tempName name) = true :=
  fun h => not_shown_tempName name (shown_of_isPending h)

theorem Asked.imp {accepted accepted' : List Request} {i : Ingestor} (h : Asked accepted i)
    (hsub : ∀ r ∈ accepted, r ∈ accepted') : Asked accepted' i := by
  cases i with
  | deleting req batches deleted names => exact ⟨hsub req h.1, h.2⟩
  | _ => exact h

theorem Requested.put (h : Requested s) (name text : String) (written : Nat) : Requested (s.put name text written) :=
  ⟨h.files.write (not_isPending_tempName name) _, h.asked⟩

theorem Requested.withIngestor (h : Requested s) {i : Ingestor} (hi : Asked s.accepted i) :
    Requested { s with ingestor := i } :=
  ⟨h.files, hi⟩

theorem Requested.erase (h : Requested s) (name : String) (removed : Bool) {i : Ingestor} (hi : Asked s.accepted i) :
    Requested { s with files := if removed then s.files.erase name else s.files, ingestor := i } := by
  cases removed with
  | false => exact h.withIngestor hi
  | true => exact ⟨h.files.erase name, hi⟩

theorem Requested.publishRequest (h : Requested s) {req : Request}
    (hfile : s.files.lookup (tempName (requestName req.id)) = some (requestText req)) :
    Requested { s with
      files := rename (tempName (requestName req.id)) (requestName req.id) s.files
      writing := s.dropWriting req.id
      accepted := req :: s.accepted } := by
  have hsub : ∀ r ∈ s.accepted, r ∈ req :: s.accepted := fun r hr => List.mem_cons_of_mem req hr
  refine ⟨?_, h.asked.imp hsub⟩
  refine (h.files.imp ?_).publish hfile fun _ => ⟨req, List.mem_cons_self, rfl⟩
  rintro name text ⟨r, hr, htext⟩
  exact ⟨r, hsub r hr, htext⟩

theorem Requested.step (h : Requested s) (a : Step) : Requested (s.step a) := by
  have hasked := h.asked
  refine step_induction s a h fun s' hmove => ?_
  cases hmove with
  | configure | confirm | restartServer | writeTables => exact ⟨h.files, h.asked⟩
  | writeRequest | writeResult => exact h.put _ _ _
  | publishRequest _ hfile => exact h.publishRequest hfile
  | dropRequest id removed => exact ⟨(h.erase (tempName (requestName id)) removed h.asked).files, h.asked⟩
  | listPending => exact h.withIngestor (i := .scanning _) pending_of_keys
  | finish | restartIngestor => exact h.withIngestor (i := .idle) trivial
  | @readRequest _ _ _ req hi htext hreq =>
      rw [hi] at hasked
      obtain ⟨r, hr, rfl⟩ := h.files _ _ (hasked _ List.mem_cons_self) htext
      obtain rfl := eq_of_readRequest hreq
      refine h.withIngestor ⟨hr, fun pk hpk => flatten_toChunks req.pubkeys ▸ hpk, fun n hn => ?_⟩
      exact hasked n (List.mem_cons_of_mem _ hn)
  | discard hi =>
      rw [hi] at hasked
      exact ⟨h.files.erase _, fun n hn => hasked n (List.mem_cons_of_mem _ hn)⟩
  | deleteBatch hi =>
      rw [hi] at hasked
      exact ⟨h.files, hasked.1, fun pk hpk => hasked.2.1 pk (List.mem_append_right _ hpk), hasked.2.2⟩
  | answer hi =>
      rw [hi] at hasked
      exact h.withIngestor (i := .answering _ _) hasked.2.2
  | publishResult hi hfile =>
      rw [hi] at hasked
      refine ⟨h.files.publish hfile fun hpending => ?_, hasked⟩
      rw [not_isPending_resultName] at hpending
      cases hpending
  | dropResult removed hi | removeRequest removed hi =>
      rw [hi] at hasked
      exact h.erase _ removed hasked

theorem requested_run (tables : NodeTables.State) (geoFilter : Option (Float → Float → Bool)) (steps : List Step) :
    Requested ((State.initial tables geoFilter).run steps) :=
  foldl_invariant (I := Requested) ⟨whole_empty, trivial⟩ fun _ a _ h => h.step a

theorem deletes_confirmed (tables : NodeTables.State) (geoFilter : Option (Float → Float → Bool)) (steps : List Step) :
    DeletesConfirmed (State.initial tables geoFilter) steps := by
  rintro before a after pk rfl ⟨rfl, hthere, hgone⟩
  have hasked := (requested_run tables geoFilter before).asked
  rw [State.step] at hgone
  split at hgone
  · next req batch batches deleted names hi =>
      rw [hi] at hasked
      have hmem : pk ∈ batch := by
        by_contra hnot
        refine hthere ?_
        simpa [NodeTables.deleteBatch, hnot] using hgone
      refine requests_confirmed before (List.mem_append_right _ hasked.1) pk (hasked.2.1 pk ?_)
      exact List.mem_append_left _ hmem
  · exact absurd hgone hthere

/-- Two nodes with positions, of which only the one is in the preview. -/
def twoPlaced : NodeTables.State :=
  (NodeTables.State.empty.step
    (.upsertNode "aa" "Alice" "repeater" (some 1) (some 1) "2026-01-01T00:00:00Z" "2026-01-01T00:00:00Z")).step
    (.upsertNode "bb" "Bob" "repeater" (some 2) (some 2) "2026-01-01T00:00:00Z" "2026-01-01T00:00:00Z")

def untilDelete : List Step :=
  [.configure (some fun _ _ => false), .confirm ["aa"] "0f" "2026-01-01T00:00:00Z", .writeRequest "0f" 500,
    .publishRequest "0f", .listPending, .readRequest true]

theorem deletes_untilDelete : Deletes ((State.initial twoPlaced none).run untilDelete) .deleteBatch "aa" := by
  have hboth : (((State.initial twoPlaced none).run untilDelete).tables.tables.nodes "aa").isSome ∧
      ((((State.initial twoPlaced none).run untilDelete).step .deleteBatch).tables.tables.nodes "aa").isNone := by
    decide +kernel
  obtain ⟨hthere, hgone⟩ := hboth
  exact ⟨rfl, Option.isSome_iff_ne_none.mp hthere, Option.isNone_iff_eq_none.mp hgone⟩

theorem deletes_confirmed_untilDelete : Confirmed (State.initial twoPlaced none) untilDelete "aa" :=
  deletes_confirmed twoPlaced none (untilDelete ++ [.deleteBatch]) untilDelete .deleteBatch [] "aa" rfl
    deletes_untilDelete

/-- The ingestor is not stopped, every request can be read, and every result can be written. -/
def Step.Unfailing : Step → Prop
  | .restartIngestor => False
  | .readRequest readable => readable = true
  | .dropResult _ => False
  | _ => True

def Ingestor.isIdle : Ingestor → Bool
  | .idle => true
  | _ => false

theorem Ingestor.eq_idle {i : Ingestor} (h : i.isIdle = true) : i = .idle := by
  cases i with
  | idle => rfl
  | _ => cases h

def Ingestor.Ahead (id : String) : Ingestor → Prop
  | .idle => False
  | .scanning names => requestName id ∈ names
  | .deleting req _ _ names => req.id = id ∨ requestName id ∈ names
  | .answering res names => res.id = id ∨ requestName id ∈ names
  | .removing res names => res.id = id ∨ requestName id ∈ names

theorem Inv.ahead_step (h : Inv lost s) (a : Step) (hunfailing : a.Unfailing) {r : Request} (hr : r ∈ s.accepted)
    (hread : ¬ lost r.id) (hahead : s.ingestor.Ahead r.id) :
    Answered (s.step a).files r.id ∨ (s.step a).ingestor.Ahead r.id := by
  have hsound := h.sound
  refine step_induction (P := fun s' => Answered s'.files r.id ∨ s'.ingestor.Ahead r.id) s a (.inr hahead)
    fun s' hmove => ?_
  cases hmove with
  | restartIngestor | dropResult => exact absurd hunfailing id
  | listPending hi | finish hi =>
      rw [hi] at hahead
      cases hahead
  | readRequest hi htext hreq =>
      rw [hi] at hahead
      rcases List.mem_cons.mp hahead with rfl | hmem
      · obtain ⟨r', _, hname, hread⟩ := h.pending (isPending_requestName r.id) htext
        obtain rfl := Option.some.inj (hread.symm.trans hreq)
        exact .inr (.inl (requestName_injective hname).symm)
      · exact .inr (.inr hmem)
  | discard hi hnone =>
      rw [hi] at hahead
      rcases List.mem_cons.mp hahead with rfl | hmem
      · rcases h.accounted r hr with hfile | ⟨res, hres, hfile⟩ | hlost
        · have hnone := hnone hunfailing
          rw [hfile, Option.bind_some, readRequest_requestText (h.valid r (List.mem_append_right _ hr)).2] at hnone
          cases hnone
        · exact .inl ⟨res, hres, (AList.lookup_erase_ne (requestName_ne_resultName _ _).symm).trans hfile⟩
        · exact absurd hlost hread
      · exact .inr hmem
  | deleteBatch hi | answer hi | publishResult hi =>
      rw [hi] at hahead
      exact .inr hahead
  | removeRequest removed hi =>
      rw [hi] at hahead hsound
      rcases hahead with heq | hmem
      · obtain ⟨res', hres', hfile⟩ := hsound.1
        rw [heq] at hres' hfile
        refine .inl ⟨res', hres', ?_⟩
        cases removed with
        | false => exact hfile
        | true => exact (AList.lookup_erase_ne (requestName_ne_resultName _ _).symm).trans hfile
      · exact .inr hmem
  | _ => exact .inr hahead

theorem Inv.listed (h : Inv lost s) (hi : s.ingestor = .idle) {r : Request} (hr : r ∈ s.accepted)
    (hread : ¬ lost r.id) : Answered s.files r.id ∨ (s.step .listPending).ingestor.Ahead r.id := by
  refine (h.accounted r hr).symm.imp (Or.resolve_right · hread) fun hfile => ?_
  rw [State.step, hi]
  have hkey : requestName r.id ∈ s.files.keys := AList.mem_keys.mp (AList.lookup_isSome.mp (hfile ▸ rfl))
  exact (List.mem_insertionSort _).mpr (List.mem_filter.mpr ⟨hkey, isPending_requestName r.id⟩)

theorem Inv.ahead_run {pass : List Step} (h : Inv lost s) (hpass : Along State.step (fun s a => a.Proper s) s pass)
    (hunfailing : ∀ a ∈ pass, a.Unfailing) {r : Request} (hr : r ∈ s.accepted) (hread : ¬ lost r.id)
    (hdue : Answered s.files r.id ∨ s.ingestor.Ahead r.id) :
    Answered (s.run pass).files r.id ∨ (s.run pass).ingestor.Ahead r.id := by
  induction pass generalizing s with
  | nil => exact hdue
  | cons a pass ih =>
      have ha := hunfailing a List.mem_cons_self
      refine ih (h.step_readable a hpass.1 ?_) hpass.2 (fun b hb => hunfailing b (List.mem_cons_of_mem a hb))
        ((accepted_step s a).subset hr) ?_
      · rintro rfl
        cases ha
      · rcases hdue with hanswered | hahead
        · exact .inl (h.answered_step a hanswered)
        · exact h.ahead_step a ha hr hread hahead

/-- Every request that was accepted by the one time is answered at the other, unless it could not be read before. -/
def AnsweredBy (lost : String → Prop) (s s' : State) : Prop := ∀ r ∈ s.accepted, ¬ lost r.id → ∃ res, res.id = r.id ∧
  ∃ text, s'.files.lookup (resultName r.id) = some text ∧ readResult text = some res

/-- A pass of the ingestor that comes to its end answers every request that was accepted before it, whatever the server
and the other writers do meanwhile. -/
theorem pass_answers {steps pass : List Step}
    (h : Along State.step (fun s a => a.Proper s) (State.initial tables geoFilter) (steps ++ .listPending :: pass))
    (hidle : ((State.initial tables geoFilter).run steps).ingestor.isIdle = true)
    (hunfailing : ∀ a ∈ pass, a.Unfailing)
    (hend : ((State.initial tables geoFilter).run (steps ++ .listPending :: pass)).ingestor.isIdle = true) :
    AnsweredBy (Unread (State.initial tables geoFilter) steps) ((State.initial tables geoFilter).run steps)
      ((State.initial tables geoFilter).run (steps ++ .listPending :: pass)) := by
  obtain ⟨hsteps, _, hpass⟩ := along_append.mp h
  have hinv := inv_run hsteps
  intro r hr hread
  have hlisted := hinv.listed (Ingestor.eq_idle hidle) hr hread
  refine (inv_run h).readAnswer ?_
  rw [run_append] at hend ⊢
  have hdue := (hinv.step_readable .listPending trivial nofun).ahead_run hpass hunfailing
    ((accepted_step _ _).subset hr) hread (hlisted.imp_left (hinv.answered_step .listPending))
  refine hdue.resolve_right fun hahead => ?_
  have hi : ((((State.initial tables geoFilter).run steps).step .listPending).run pass).ingestor = .idle :=
    Ingestor.eq_idle hend
  rw [hi] at hahead
  exact hahead

def beforePass : List Step :=
  [.configure (some fun _ _ => false), .confirm ["aa"] "0f" "2026-01-01T00:00:00Z", .writeRequest "0f" 500,
    .publishRequest "0f"]

def wholePass : List Step :=
  [.readRequest true, .finishDelete "2026-01-01T00:00:09Z", .writeResult 500, .publishResult, .removeRequest true,
    .readRequest true]

theorem pass_answers_one : AnsweredBy (Unread (State.initial NodeTables.State.empty none) beforePass)
    ((State.initial NodeTables.State.empty none).run beforePass)
    ((State.initial NodeTables.State.empty none).run (beforePass ++ .listPending :: wholePass)) := by
  have htime : (parseRFC3339 "2026-01-01T00:00:00Z").isSome = true := by decide
  have htime' : (parseRFC3339 "2026-01-01T00:00:09Z").isSome = true := by decide
  refine pass_answers ?_ (by decide +kernel) ?_ (by decide +kernel)
  · exact ⟨trivial, ⟨nofun, htime⟩, trivial, trivial, trivial, trivial, htime', trivial, trivial, trivial, trivial,
      trivial⟩
  · simp [wholePass, Step.Unfailing]

end MeshcoreAnalyzer.PruneQueue

import Mathlib.Data.List.Basic

namespace MeshcoreAnalyzer.Json

inductive Value
  | null
  | bool (b : Bool)
  | num (text : String)
  | str (s : String)
  | arr (xs : List Value)
  | obj (members : List (String × Value))

def isSpace (c : Char) : Bool := c == ' ' || c == '\t' || c == '\n' || c == '\r'

def skipSpace (s : List Char) : List Char := s.dropWhile isSpace

def hexValue (c : Char) : Option Nat :=
  if '0' ≤ c ∧ c ≤ '9' then some (c.toNat - 48)
  else if 'a' ≤ c ∧ c ≤ 'f' then some (c.toNat - 87)
  else if 'A' ≤ c ∧ c ≤ 'F' then some (c.toNat - 55)
  else none

/-- The four digits of a `\u` escape. -/
def hex4 : List Char → Option (Nat × List Char)
  | a :: b :: c :: d :: rest => do
      let a ← hexValue a
      let b ← hexValue b
      let c ← hexValue c
      let d ← hexValue d
      return (a * 4096 + b * 256 + c * 16 + d, rest)
  | _ => none

def isHighSurrogate (n : Nat) : Bool := 0xD800 ≤ n && n < 0xDC00

def isLowSurrogate (n : Nat) : Bool := 0xDC00 ≤ n && n < 0xE000

/-- The rune of a `\u` escape, and the text after it: a surrogate pair is one
rune, a surrogate alone is the replacement character. -/
def escapedRune (n : Nat) (rest : List Char) : Char × List Char :=
  if isHighSurrogate n then
    match rest with
    | '\\' :: 'u' :: more =>
        match hex4 more with
        | some (m, after) =>
            if isLowSurrogate m then
              (Char.ofNat (0x10000 + (n - 0xD800) * 1024 + (m - 0xDC00)), after)
            else (Char.ofNat 0xFFFD, rest)
        | none => (Char.ofNat 0xFFFD, rest)
    | _ => (Char.ofNat 0xFFFD, rest)
  else if isLowSurrogate n then (Char.ofNat 0xFFFD, rest)
  else (Char.ofNat n, rest)

def parseString : Nat → List Char → Option (List Char × List Char)
  | 0, _ => none
  | _ + 1, '"' :: rest => some ([], rest)
  | fuel + 1, '\\' :: 'u' :: rest => do
      let (n, rest) ← hex4 rest
      let (c, rest) := escapedRune n rest
      let (cs, rest) ← parseString fuel rest
      return (c :: cs, rest)
  | fuel + 1, '\\' :: e :: rest => do
      let c ← match e with
        | '"' => some '"'
        | '\\' => some '\\'
        | '/' => some '/'
        | 'b' => some (Char.ofNat 8)
        | 'f' => some (Char.ofNat 12)
        | 'n' => some '\n'
        | 'r' => some '\r'
        | 't' => some '\t'
        | _ => none
      let (cs, rest) ← parseString fuel rest
      return (c :: cs, rest)
  | fuel + 1, c :: rest => do
      if c.toNat < 0x20 then none
      else
        let (cs, rest) ← parseString fuel rest
        return (c :: cs, rest)
  | _ + 1, [] => none

def skipDigits (s : List Char) : List Char := s.dropWhile Char.isDigit

def digits1 : List Char → Option (List Char)
  | c :: rest => if c.isDigit then some (skipDigits rest) else none
  | [] => none

def parseFraction : List Char → Option (List Char)
  | '.' :: rest => digits1 rest
  | s => some s

def parseExponent : List Char → Option (List Char)
  | c :: rest =>
      if c == 'e' || c == 'E' then
        match rest with
        | '+' :: rest => digits1 rest
        | '-' :: rest => digits1 rest
        | rest => digits1 rest
      else some (c :: rest)
  | [] => some []

def parseNumber (s : List Char) : Option (List Char) := do
  let s := match s with
    | '-' :: rest => rest
    | s => s
  let s ← match s with
    | '0' :: rest => some rest
    | s => digits1 s
  let s ← parseFraction s
  parseExponent s

mutual

def parseValue : Nat → List Char → Option (Value × List Char)
  | 0, _ => none
  | fuel + 1, s =>
      match skipSpace s with
      | 'n' :: 'u' :: 'l' :: 'l' :: rest => some (.null, rest)
      | 't' :: 'r' :: 'u' :: 'e' :: rest => some (.bool true, rest)
      | 'f' :: 'a' :: 'l' :: 's' :: 'e' :: rest => some (.bool false, rest)
      | '"' :: rest => (parseString (rest.length + 1) rest).map
          fun (cs, rest) => (.str (String.ofList cs), rest)
      | '[' :: rest =>
          match skipSpace rest with
          | ']' :: rest => some (.arr [], rest)
          | rest => (parseElements fuel rest).map fun (xs, rest) => (.arr xs, rest)
      | '\x7b' :: rest =>
          match skipSpace rest with
          | '\x7d' :: rest => some (.obj [], rest)
          | rest => (parseMembers fuel rest).map fun (ms, rest) => (.obj ms, rest)
      | s => (parseNumber s).map fun rest =>
          (.num (String.ofList (s.take (s.length - rest.length))), rest)

def parseElements : Nat → List Char → Option (List Value × List Char)
  | 0, _ => none
  | fuel + 1, s => do
      let (x, rest) ← parseValue fuel s
      match skipSpace rest with
      | ',' :: rest =>
          let (xs, rest) ← parseElements fuel rest
          return (x :: xs, rest)
      | ']' :: rest => return ([x], rest)
      | _ => none

def parseMembers : Nat → List Char → Option (List (String × Value) × List Char)
  | 0, _ => none
  | fuel + 1, s =>
      match skipSpace s with
      | '"' :: rest => do
          let (key, rest) ← parseString (rest.length + 1) rest
          match skipSpace rest with
          | ':' :: rest => do
              let (v, rest) ← parseValue fuel rest
              match skipSpace rest with
              | ',' :: rest =>
                  let (ms, rest) ← parseMembers fuel rest
                  return ((String.ofList key, v) :: ms, rest)
              | '\x7d' :: rest => return ([(String.ofList key, v)], rest)
              | _ => none
          | _ => none
      | _ => none

end

/-- A whole text: one value and nothing but blanks after it. Every character
is passed at most once for each call, so the length is fuel enough. -/
def parse (s : String) : Option Value :=
  match parseValue (2 * s.length + 2) s.toList with
  | some (v, rest) => if skipSpace rest = [] then some v else none
  | none => none

/-- `json.Unmarshal` into `[]interface\x7b\x7d`. -/
def unmarshalSlice (s : String) : Option (List Value) :=
  match parse s with
  | some (.arr xs) => some xs
  | some .null => some []
  | _ => none

/-- An element of a `[]string`: a string, or null, which leaves the empty text. -/
def asString : Value → Option String
  | .str s => some s
  | .null => some ""
  | _ => none

/-- `json.Unmarshal` into `[]string`. -/
def unmarshalStrings (s : String) : Option (List String) :=
  match parse s with
  | some (.arr xs) => xs.mapM asString
  | some .null => some []
  | _ => none

/-- An element of a `[]*string`: a string or nil. -/
def asStringPtr : Value → Option (Option String)
  | .str s => some (some s)
  | .null => some none
  | _ => none

/-- `json.Unmarshal` into `[]*string`. -/
def unmarshalStringPtrs (s : String) : Option (List (Option String)) :=
  match parse s with
  | some (.arr xs) => xs.mapM asStringPtr
  | some .null => some []
  | _ => none

/-- `json.Unmarshal` into `map[string]interface\x7b\x7d`: the members in the order of
the text. -/
def unmarshalObject (s : String) : Option (List (String × Value)) :=
  match parse s with
  | some (.obj members) => some members
  | _ => none

/-- `m[key].(string)`: of several members with one name the last one counts. -/
def stringField (members : List (String × Value)) (key : String) : Option String :=
  match members.reverse.find? (fun m => m.1 == key) with
  | some (_, .str s) => some s
  | _ => none

example : unmarshalStrings "[\"aa\", null , \"b\\u0042\"]" = some ["aa", "", "bB"] := by
  decide +kernel

end MeshcoreAnalyzer.Json

import Mathlib.Data.List.TakeDrop

namespace MeshcoreAnalyzer.PacketFilter

/-! `lex` and `parse` of public/packet-filter.js. -/

/-- What the two take from the numbers of the language, which are floating point. -/
structure Doubles (F : Type) where
  parseFloat : String → F
  scale : F → Nat → F
  nan : F
  toText : F → String
  falsy : F → Bool

variable {F : Type}

inductive Token (F : Type)
  | field (w : String)
  | op (w : String)
  | string (s : String)
  | number (x : F)
  | bool (b : Bool)
  | duration (seconds : F) (raw : String)
  | and
  | or
  | not
  | lparen
  | rparen
  | comma

def inherited : List String :=
  ["constructor", "__defineGetter__", "__defineSetter__", "hasOwnProperty", "__lookupGetter__", "__lookupSetter__",
    "isPrototypeOf", "propertyIsEnumerable", "toString", "valueOf", "__proto__", "toLocaleString"]

def opWords : List String := ["contains", "starts_with", "ends_with", "after", "before", "between", "in"]

/-- The seconds of a unit of `DURATION_UNITS`; a function for a name that is inherited. -/
def durationUnit (unit : String) : Option (Option Nat) :=
  match unit with
  | "s" => some (some 1)
  | "m" => some (some 60)
  | "h" => some (some 3600)
  | "d" => some (some 86400)
  | "w" => some (some 604800)
  | unit => if unit ∈ inherited then some none else none

def closingQuote : List Char → Option Nat
  | [] => none
  | c :: rest =>
      if c = '"' then some 0
      else if c = '\\' then
        match rest with
        | [] => none
        | _ :: rest => (closingQuote rest).map (· + 2)
      else (closingQuote rest).map (· + 1)

def signAllowed : Option (Token F) → Bool
  | none | some (.op _) | some .and | some .or | some .not | some .lparen => true
  | _ => false

def isHexDigit (c : Char) : Bool := c.isDigit || ('a' ≤ c && c ≤ 'f') || ('A' ≤ c && c ≤ 'F')

def numeral (s : List Char) : List Char :=
  let whole := s.takeWhile Char.isDigit
  match s.drop whole.length with
  | '.' :: rest => whole ++ '.' :: rest.takeWhile Char.isDigit
  | _ => whole

/-- A number, or a duration if letters follow it; `i` is where it begins. -/
def lexNumber (doubles : Doubles F) (i : Nat) (sign : List Char) (s : List Char) : Except String (Token F × Nat) :=
  let digits := sign ++ numeral s
  let after := s.drop (numeral s).length
  let unit := after.takeWhile Char.isAlpha
  let numStr := String.ofList digits
  if unit = [] then .ok (.number (doubles.parseFloat numStr), digits.length)
  else match durationUnit (String.ofList unit) with
    | some (some seconds) =>
        .ok (.duration (doubles.scale (doubles.parseFloat numStr) seconds) (numStr ++ String.ofList unit),
          digits.length + unit.length)
    | some none => .ok (.duration doubles.nan (numStr ++ String.ofList unit), digits.length + unit.length)
    | none =>
        let fullSlice := digits ++ unit ++ (after.drop unit.length).takeWhile isHexDigit
        if fullSlice.all isHexDigit ∧ 4 ≤ fullSlice.length then
          .error "Hex value must be quoted: try 'field == \"<hex>\"' or use the starts_with/contains operator"
        else
          .error ("Invalid duration unit '" ++ String.ofList unit ++ "' at position " ++
            toString (i + digits.length) ++ " (expected s/m/h/d/w)")

def isWordStart (c : Char) : Bool := c.isAlpha || c == '_'

def isWordChar (c : Char) : Bool := c.isAlphanum || c == '_' || c == '.'

def wordToken (word : String) : Token F :=
  if word = "true" ∨ word = "false" then .bool (word = "true")
  else if word ∈ opWords ∨ word ∈ inherited then .op word
  else .field word

/-- What stands at position `i`: a blank or a token, and how many characters it takes. -/
def lexToken (doubles : Doubles F) (prev : Option (Token F)) (i : Nat) (c : Char) (rest : List Char) :
    Except String (Option (Token F) × Nat) :=
  let two := c :: rest.take 1
  if c = ' ' ∨ c = '\t' then .ok (none, 1)
  else if two = ['&', '&'] then .ok (some .and, 2)
  else if two = ['|', '|'] then .ok (some .or, 2)
  else if two = ['=', '='] ∨ two = ['!', '='] ∨ two = ['>', '='] ∨ two = ['<', '='] then
    .ok (some (.op (String.ofList two)), 2)
  else if c = '>' ∨ c = '<' then .ok (some (.op (String.singleton c)), 1)
  else if c = '!' then .ok (some .not, 1)
  else if c = '(' then .ok (some .lparen, 1)
  else if c = ')' then .ok (some .rparen, 1)
  else if c = ',' then .ok (some .comma, 1)
  else if c = '"' then
    match closingQuote rest with
    | some n => .ok (some (.string (String.ofList (rest.take n))), n + 2)
    | none => .error ("Unterminated string starting at position " ++ toString i)
  else if c.isDigit then (lexNumber doubles i [] (c :: rest)).map fun p => (some p.1, p.2)
  else if c = '-' ∧ (rest.head?.any Char.isDigit) ∧ signAllowed prev then
    (lexNumber doubles i ['-'] rest).map fun p => (some p.1, p.2)
  else if isWordStart c then
    let word := (c :: rest).takeWhile isWordChar
    .ok (some (wordToken (String.ofList word)), word.length)
  else .error ("Unexpected character '" ++ String.singleton c ++ "' at position " ++ toString i)

def units (c : Char) : Nat := if c.toNat < 0x10000 then 1 else 2

/-- `prev` is the last token, `i` the position, and as many characters are still to be
passed over as the second number says. -/
def lexFrom (doubles : Doubles F) : Option (Token F) → Nat → Nat → List Char → Except String (List (Token F))
  | _, _, _, [] => .ok []
  | prev, i, k + 1, c :: rest => lexFrom doubles prev (i + units c) k rest
  | prev, i, 0, c :: rest =>
      match lexToken doubles prev i c rest with
      | .ok (some t, width) => (lexFrom doubles (some t) (i + units c) (width - 1) rest).map (t :: ·)
      | .ok (none, width) => lexFrom doubles prev (i + units c) (width - 1) rest
      | .error e => .error e

def lex (doubles : Doubles F) (input : String) : Except String (List (Token F)) :=
  lexFrom doubles none 0 0 input.toList

inductive Value (F : Type)
  | str (s : String)
  | num (x : F)
  | bool (b : Bool)
  | duration (seconds : F)

/-- A comparison with `between` has two values, one with `in` a list of them. -/
inductive Ast (F : Type)
  | or (left right : Ast F)
  | and (left right : Ast F)
  | not (expr : Ast F)
  | truthy (field : String)
  | comparison (field op : String) (value : Value F)
  | between (field : String) (value value2 : Value F)
  | among (field : String) (values : List (Value F))

abbrev Tokens (F : Type) := List (Token F)

/-- `tok.value || tok.type` -/
def Token.describe (doubles : Doubles F) : Token F → String
  | .field w | .op w => w
  | .string s => if s = "" then "STRING" else s
  | .number x => if doubles.falsy x then "NUMBER" else doubles.toText x
  | .bool b => if b then "true" else "BOOL"
  | .duration x _ => if doubles.falsy x then "DURATION" else doubles.toText x
  | .and => "&&"
  | .or => "||"
  | .not => "!"
  | .lparen => "LPAREN"
  | .rparen => "RPAREN"
  | .comma => ","

def Token.value : Token F → Option (Value F)
  | .string s => some (.str s)
  | .number x => some (.num x)
  | .bool b => some (.bool b)
  | .duration x _ => some (.duration x)
  | .field w => some (.str w)
  | _ => none

def noValue (field op : String) : String := "Expected value after '" ++ field ++ " " ++ op ++ "'"

def parseValue (field op : String) : Tokens F → Except String (Value F × Tokens F)
  | [] => .error (noValue field op)
  | t :: ts =>
      match t.value with
      | some v => .ok (v, ts)
      | none => .error (noValue field op)

def validateTimeValue (isDate : String → Bool) (field op : String) : Value F → Except String Unit
  | .str s =>
      if isDate s then .ok ()
      else .error ("Invalid datetime '" ++ s ++ "' for '" ++ field ++ " " ++ op ++ "'")
  | _ => .ok ()

def parseValues (field op : String) : Tokens F → Except String (List (Value F) × Tokens F)
  | .comma :: t :: ts =>
      match t.value with
      | some v => (parseValues field op ts).map fun p => (v :: p.1, p.2)
      | none => .error (noValue field op)
  | [.comma] => .error (noValue field op)
  | ts => .ok ([], ts)

/-- What follows `in`. -/
def parseAmong (field op : String) : Tokens F → Except String (Ast F × Tokens F)
  | .lparen :: ts =>
      match ts with
      | [] | .rparen :: _ => .error "Empty value list for 'in'"
      | ts => do
          let (first, ts) ← parseValue field op ts
          let (values, ts) ← parseValues field op ts
          match ts with
          | .rparen :: ts => .ok (.among field (first :: values), ts)
          | _ => .error "Expected ')' or ',' in 'in' list"
  | _ => .error "Expected '(' after 'in'"

def parseOperand (isDate : String → Bool) (field op : String) (ts : Tokens F) : Except String (Ast F × Tokens F) :=
  if op = "between" then do
    let (lo, ts) ← parseValue field op ts
    let (hi, ts) ← parseValue field op ts
    validateTimeValue isDate field op lo
    validateTimeValue isDate field op hi
    .ok (.between field lo hi, ts)
  else if op = "in" then parseAmong field op ts
  else do
    let (value, ts) ← parseValue field op ts
    if op = "after" ∨ op = "before" then validateTimeValue isDate field op value
    .ok (.comparison field op value, ts)

def parseComparison (doubles : Doubles F) (isDate : String → Bool) : Tokens F → Except String (Ast F × Tokens F)
  | [] => .error "Unexpected end of expression"
  | .field field :: ts =>
      match ts with
      | [] | .and :: _ | .or :: _ | .rparen :: _ => .ok (.truthy field, ts)
      | .op op :: ts => parseOperand isDate field op ts
      | t :: _ => .error ("Expected operator after '" ++ field ++ "', got '" ++ t.describe doubles ++ "'")
  | t :: _ => .error ("Expected field name, got '" ++ t.describe doubles ++ "'")

mutual

def parseOr (doubles : Doubles F) (isDate : String → Bool) : Nat → Tokens F → Except String (Ast F × Tokens F)
  | 0, _ => .error "out of fuel"
  | fuel + 1, ts => do
      let (left, ts) ← parseAnd doubles isDate fuel ts
      orLoop doubles isDate fuel left ts

def orLoop (doubles : Doubles F) (isDate : String → Bool) : Nat → Ast F → Tokens F → Except String (Ast F × Tokens F)
  | 0, _, _ => .error "out of fuel"
  | fuel + 1, left, ts =>
      match ts with
      | .or :: ts => do
          let (right, ts) ← parseAnd doubles isDate fuel ts
          orLoop doubles isDate fuel (.or left right) ts
      | ts => .ok (left, ts)

def parseAnd (doubles : Doubles F) (isDate : String → Bool) : Nat → Tokens F → Except String (Ast F × Tokens F)
  | 0, _ => .error "out of fuel"
  | fuel + 1, ts => do
      let (left, ts) ← parseNot doubles isDate fuel ts
      andLoop doubles isDate fuel left ts

def andLoop (doubles : Doubles F) (isDate : String → Bool) : Nat → Ast F → Tokens F → Except String (Ast F × Tokens F)
  | 0, _, _ => .error "out of fuel"
  | fuel + 1, left, ts =>
      match ts with
      | .and :: ts => do
          let (right, ts) ← parseNot doubles isDate fuel ts
          andLoop doubles isDate fuel (.and left right) ts
      | ts => .ok (left, ts)

def parseNot (doubles : Doubles F) (isDate : String → Bool) : Nat → Tokens F → Except String (Ast F × Tokens F)
  | 0, _ => .error "out of fuel"
  | fuel + 1, ts =>
      match ts with
      | .not :: ts => do
          let (expr, ts) ← parseNot doubles isDate fuel ts
          .ok (.not expr, ts)
      | .lparen :: ts => do
          let (expr, ts) ← parseOr doubles isDate fuel ts
          match ts with
          | .rparen :: ts => .ok (expr, ts)
          | _ => .error "Expected closing parenthesis"
      | ts => parseComparison doubles isDate ts

end

def isTrimmed (c : Char) : Bool :=
  (9 ≤ c.toNat && c.toNat ≤ 13) || c.toNat ∈ [0x20, 0xA0, 0x1680, 0x2028, 0x2029, 0x202F, 0x205F, 0x3000, 0xFEFF] ||
    (0x2000 ≤ c.toNat && c.toNat ≤ 0x200A)

def parse (doubles : Doubles F) (isDate : String → Bool) (expression : String) : Except String (Option (Ast F)) :=
  if expression.toList.all isTrimmed then .ok none
  else do
    let tokens ← lex doubles expression
    let (ast, rest) ← parseOr doubles isDate (3 * tokens.length + 3) tokens
    match rest with
    | [] => .ok (some ast)
    | t :: _ => .error ("Unexpected '" ++ t.describe doubles ++ "' at end of expression")

end MeshcoreAnalyzer.PacketFilter

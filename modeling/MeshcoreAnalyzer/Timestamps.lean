import Mathlib.Algebra.Ring.Int.Defs
import Mathlib.Algebra.Ring.Nat
import Mathlib.Data.List.Basic

namespace MeshcoreAnalyzer.Timestamps

/-! Timestamps as the programs read and write them, with what they use of the time
package. -/

def digitValue (c : Char) : Nat := c.toNat - 48

def getnum (fixed : Bool) : List Char → Option (Nat × List Char)
  | [] => none
  | [a] => if a.isDigit && !fixed then some (digitValue a, []) else none
  | a :: b :: rest =>
      if !a.isDigit then none
      else if b.isDigit then some (10 * digitValue a + digitValue b, rest)
      else if fixed then none
      else some (digitValue a, b :: rest)

def getyear : List Char → Option (Nat × List Char)
  | a :: b :: c :: d :: rest =>
      if a.isDigit && b.isDigit && c.isDigit && d.isDigit then
        some (1000 * digitValue a + 100 * digitValue b + 10 * digitValue c + digitValue d, rest)
      else none
  | _ => none

def skip (p : Char) : List Char → Option (List Char)
  | c :: rest => if c = p then some rest else none
  | [] => none

def skipBlanks : List Char → Option (List Char)
  | [] => some []
  | c :: rest => if c = ' ' then some (rest.dropWhile (· = ' ')) else none

def isLeap (year : Nat) : Bool := year % 4 == 0 && (year % 100 != 0 || year % 400 == 0)

def daysIn (month year : Nat) : Nat :=
  if month = 2 then (if isLeap year then 29 else 28)
  else if month = 4 ∨ month = 6 ∨ month = 9 ∨ month = 11 then 30
  else 31

/-- Thousandths of a second: a fraction may follow the seconds though the layout
has none, and what is finer is cut off when the time is written. -/
def milliseconds : List Char → Option Nat
  | [] => some 0
  | c :: rest =>
      if (c = '.' ∨ c = ',') ∧ rest ≠ [] ∧ rest.all Char.isDigit then
        match rest with
        | [a] => some (100 * digitValue a)
        | [a, b] => some (100 * digitValue a + 10 * digitValue b)
        | a :: b :: c :: _ => some (100 * digitValue a + 10 * digitValue b + digitValue c)
        | [] => none
      else none

structure Moment where
  year : Nat
  month : Nat
  day : Nat
  hour : Nat
  minute : Nat
  second : Nat
  millis : Nat
deriving DecidableEq

/-- `time.Parse("2006-01-02 15:04:05", s)` -/
def parseDateTime (s : String) : Option Moment := do
  let (year, s) ← getyear s.toList
  let s ← skip '-' s
  let (month, s) ← getnum true s
  let s ← skip '-' s
  let (day, s) ← getnum true s
  let s ← skipBlanks s
  let (hour, s) ← getnum false s
  let s ← skip ':' s
  let (minute, s) ← getnum true s
  let s ← skip ':' s
  let (second, s) ← getnum true s
  let millis ← milliseconds s
  if 1 ≤ month ∧ month ≤ 12 ∧ 1 ≤ day ∧ day ≤ daysIn month year ∧
      hour < 24 ∧ minute < 60 ∧ second < 60 then
    some ⟨year, month, day, hour, minute, second, millis⟩
  else none

def digit (n : Nat) : Char := Char.ofNat (48 + n % 10)

def pad2 (n : Nat) : List Char := [digit (n / 10), digit n]

def pad3 (n : Nat) : List Char := digit (n / 100) :: pad2 n

def pad4 (n : Nat) : List Char := digit (n / 1000) :: pad3 n

/-- `t.UTC().Format("2006-01-02T15:04:05.000Z")` -/
def format (t : Moment) : String :=
  String.ofList (pad4 t.year ++ '-' :: pad2 t.month ++ '-' :: pad2 t.day ++ 'T' :: pad2 t.hour ++
    ':' :: pad2 t.minute ++ ':' :: pad2 t.second ++ '.' :: pad3 t.millis ++ ['Z'])

def normalizeTimestamp (s : String) : String :=
  if s = "" then s
  else match parseDateTime s with
    | some t => format t
    | none => s

example : normalizeTimestamp "2026-02-28  7:04:05.25" = "2026-02-28T07:04:05.250Z" := by
  decide

/-- The zero `time.Time`, the first of January of the year 1; a time is kept as its nanoseconds since 1970, UTC. -/
def zeroTime : Int := -62135596800 * 10 ^ 9

def second : Int := 10 ^ 9

def hour : Int := 3600 * second

def unixDay (year month day : Nat) : Int :=
  let y : Int := year - 1
  365 * y + y / 4 - y / 100 + y / 400 +
    ((List.range (month - 1)).map fun m => daysIn (m + 1) year).sum + day - 719163

/-- `time.Date`, for a zone that is `offset` seconds east. -/
def date (t : Moment) (nanos : Nat) (offset : Int) : Int :=
  ((((unixDay t.year t.month t.day * 24 + t.hour) * 60 + t.minute) * 60 + t.second) - offset) * second + nanos

def nanoseconds (digits : List Char) : Nat :=
  (digits.take 9).foldl (fun n c => 10 * n + digitValue c) 0 * 10 ^ (9 - (digits.take 9).length)

def fraction : List Char → Nat × List Char
  | c :: d :: rest =>
      if (c = '.' ∨ c = ',') ∧ d.isDigit then
        (nanoseconds ((d :: rest).takeWhile Char.isDigit), (d :: rest).dropWhile Char.isDigit)
      else (0, c :: d :: rest)
  | value => (0, value)

/-- `Z07:00`: the seconds east of UTC, at the end of the text. -/
def zone : List Char → Option Int
  | ['Z'] => some 0
  | [sign, h₁, h₂, ':', m₁, m₂] => do
      let (hr, _) ← getnum true [h₁, h₂]
      let (mm, _) ← getnum true [m₁, m₂]
      if 24 < hr ∨ 60 < mm then none
      else if sign = '+' then some ((hr * 60 + mm) * 60 : Nat)
      else if sign = '-' then some (-((hr * 60 + mm) * 60 : Nat))
      else none
  | _ => none

/-- `2006-01-02T15:04:05`, and what comes behind it. -/
def dateTimeT (s : List Char) : Option (Moment × List Char) := do
  let (year, s) ← getyear s
  let s ← skip '-' s
  let (month, s) ← getnum true s
  let s ← skip '-' s
  let (day, s) ← getnum true s
  let s ← skip 'T' s
  let (hour, s) ← getnum false s
  let s ← skip ':' s
  let (minute, s) ← getnum true s
  let s ← skip ':' s
  let (second, s) ← getnum true s
  if 1 ≤ month ∧ month ≤ 12 ∧ 1 ≤ day ∧ day ≤ daysIn month year ∧
      hour < 24 ∧ minute < 60 ∧ second < 60 then
    some (⟨year, month, day, hour, minute, second, 0⟩, s)
  else none

/-- `time.Parse(time.RFC3339Nano, s)`; the layout `time.RFC3339` takes the same texts. -/
def parseRFC3339 (s : String) : Option Int := do
  let (t, rest) ← dateTimeT s.toList
  let offset ← zone (fraction rest).2
  some (date t (fraction rest).1 offset)

/-- `.000Z`: three digits, of which the first may be a sign. -/
def millisZ : List Char → Option Nat
  | [c, a, b, d, 'Z'] =>
      if ¬ (c = '.' ∨ c = ',') ∨ !b.isDigit ∨ !d.isDigit then none
      else if a.isDigit then some (nanoseconds [a, b, d])
      else if a = '+' ∨ (a = '-' ∧ b = '0' ∧ d = '0') then some (nanoseconds ['0', b, d])
      else none
  | _ => none

/-- `time.Parse("2006-01-02T15:04:05.000Z", s)` -/
def parseMillisZ (s : String) : Option Int := do
  let (t, rest) ← dateTimeT s.toList
  let nanos ← millisZ rest
  some (date t nanos 0)

/-- `2006-01-02 15:04:05`, and what comes behind it. -/
def dateTimeBlank (s : List Char) : Option (Moment × List Char) := do
  let (year, s) ← getyear s
  let s ← skip '-' s
  let (month, s) ← getnum true s
  let s ← skip '-' s
  let (day, s) ← getnum true s
  let s ← skipBlanks s
  let (hour, s) ← getnum false s
  let s ← skip ':' s
  let (minute, s) ← getnum true s
  let s ← skip ':' s
  let (second, s) ← getnum true s
  if 1 ≤ month ∧ month ≤ 12 ∧ 1 ≤ day ∧ day ≤ daysIn month year ∧
      hour < 24 ∧ minute < 60 ∧ second < 60 then
    some (⟨year, month, day, hour, minute, second, 0⟩, s)
  else none

/-- `time.Parse("2006-01-02 15:04:05", s)`, to the nanosecond. -/
def parseBlank (s : String) : Option Int := do
  let (t, rest) ← dateTimeBlank s.toList
  if (fraction rest).2 = [] then some (date t (fraction rest).1 0) else none

example : (parseRFC3339 "2026-02-28T07:04:05.25+01:00").map (· / 10 ^ 6) = some 1772258645250 := by
  decide

end MeshcoreAnalyzer.Timestamps

import MeshcoreAnalyzer.FilterLanguage

namespace MeshcoreAnalyzer.PacketFilter

structure Name where
  first : Char
  rest : List Char
  isStart : isWordStart first = true
  isWord : ∀ c ∈ rest, isWordChar c = true
  notBool : String.ofList (first :: rest) ∉ ["true", "false"]
  notOp : String.ofList (first :: rest) ∉ opWords

def Name.text (n : Name) : List Char := n.first :: n.rest

structure Numeral where
  negative : Bool
  digits : List Char
  fraction : List Char
  some_digit : digits ≠ []
  isDigit : ∀ c ∈ digits, c.isDigit = true
  isDigit' : ∀ c ∈ fraction, c.isDigit = true

def Numeral.body (n : Numeral) : List Char :=
  if n.fraction = [] then n.digits else n.digits ++ '.' :: n.fraction

def Numeral.text (n : Numeral) : List Char := if n.negative then '-' :: n.body else n.body

inductive TimeUnit
  | s
  | m
  | h
  | d
  | w

def TimeUnit.letter : TimeUnit → Char
  | .s => 's'
  | .m => 'm'
  | .h => 'h'
  | .d => 'd'
  | .w => 'w'

def TimeUnit.seconds : TimeUnit → Nat
  | .s => 1
  | .m => 60
  | .h => 3600
  | .d => 86400
  | .w => 604800

inductive Literal
  | quoted (s : String)
  | number (n : Numeral)
  | bool (b : Bool)
  | duration (n : Numeral) (u : TimeUnit)
  | word (w : Name)

inductive Comparison
  | eq
  | ne
  | lt
  | le
  | gt
  | ge
  | contains
  | startsWith
  | endsWith
  | after
  | before

def Comparison.text : Comparison → String
  | .eq => "=="
  | .ne => "!="
  | .lt => "<"
  | .le => "<="
  | .gt => ">"
  | .ge => ">="
  | .contains => "contains"
  | .startsWith => "starts_with"
  | .endsWith => "ends_with"
  | .after => "after"
  | .before => "before"

inductive Filter
  | or (left right : Filter)
  | and (left right : Filter)
  | not (expr : Filter)
  | field (f : Name)
  | compare (f : Name) (op : Comparison) (v : Literal)
  | between (f : Name) (lo hi : Literal)
  | among (f : Name) (first : Literal) (others : List Literal)

def escape (s : List Char) : List Char := s.flatMap fun c => if c = '"' ∨ c = '\\' then ['\\', c] else [c]

def Literal.text : Literal → List Char
  | .quoted s => '"' :: (escape s.toList ++ ['"'])
  | .number n => n.text
  | .bool b => (if b then "true" else "false").toList
  | .duration n u => n.text ++ [u.letter]
  | .word w => w.text

inductive Piece
  | or
  | and
  | not
  | lparen
  | rparen
  | comma
  | between
  | among
  | op (o : Comparison)
  | name (f : Name)
  | literal (v : Literal)

def Piece.text : Piece → List Char
  | .or => ['|', '|']
  | .and => ['&', '&']
  | .not => ['!']
  | .lparen => ['(']
  | .rparen => [')']
  | .comma => [',']
  | .between => "between".toList
  | .among => "in".toList
  | .op o => o.text.toList
  | .name f => f.text
  | .literal v => v.text

def parenthesized (b : Bool) (ps : List Piece) : List Piece :=
  if b then .lparen :: (ps ++ [.rparen]) else ps

/-- A filter where one of the level stands: 0 for any, 1 for a conjunction, 2 for an
operand of `!`. -/
def Filter.pieces : Nat → Filter → List Piece
  | level, .or l r => parenthesized (0 < level) (l.pieces 0 ++ .or :: r.pieces 1)
  | level, .and l r => parenthesized (1 < level) (l.pieces 1 ++ .and :: r.pieces 2)
  | _, .not e => .not :: e.pieces 2
  | _, .field f => [.name f]
  | _, .compare f op v => [.name f, .op op, .literal v]
  | _, .between f lo hi => [.name f, .between, .literal lo, .literal hi]
  | _, .among f first others =>
      [.name f, .among, .lparen, .literal first] ++ others.flatMap (fun v => [.comma, .literal v]) ++ [.rparen]

def spell (ps : List Piece) : List Char := ps.flatMap fun p => p.text ++ [' ']

def Filter.print (e : Filter) : String := String.ofList (spell (e.pieces 0))

variable {F : Type} (doubles : Doubles F)

def Literal.value : Literal → Value F
  | .quoted s => .str s
  | .number n => .num (doubles.parseFloat (String.ofList n.text))
  | .bool b => .bool b
  | .duration n u => .duration (doubles.scale (doubles.parseFloat (String.ofList n.text)) u.seconds)
  | .word w => .str (String.ofList w.text)

def Filter.ast : Filter → Ast F
  | .or l r => .or l.ast r.ast
  | .and l r => .and l.ast r.ast
  | .not e => .not e.ast
  | .field f => .truthy (String.ofList f.text)
  | .compare f op v => .comparison (String.ofList f.text) op.text (v.value doubles)
  | .between f lo hi => .between (String.ofList f.text) (lo.value doubles) (hi.value doubles)
  | .among f first others => .among (String.ofList f.text) ((first :: others).map (Literal.value doubles))

/-- `Date.parse` reads every text that is compared with a time. -/
def Literal.Dated (isDate : String → Bool) (v : Literal) : Prop :=
  match v with
  | .quoted s => isDate s = true
  | .word w => isDate (String.ofList w.text) = true
  | _ => True

def Filter.Dated (isDate : String → Bool) : Filter → Prop
  | .or l r | .and l r => l.Dated isDate ∧ r.Dated isDate
  | .not e => e.Dated isDate
  | .compare _ .after v | .compare _ .before v => v.Dated isDate
  | .between _ lo hi => lo.Dated isDate ∧ hi.Dated isDate
  | _ => True

/-- No quote and no backslash is in a string, and a word is not one that every object has. -/
def Literal.Plain : Literal → Prop
  | .quoted s => '"' ∉ s.toList ∧ '\\' ∉ s.toList
  | .word w => String.ofList w.text ∉ inherited
  | _ => True

def Literal.Unsigned : Literal → Prop
  | .number n | .duration n _ => n.negative = false
  | _ => True

def Filter.Plain : Filter → Prop
  | .or l r | .and l r => l.Plain ∧ r.Plain
  | .not e => e.Plain
  | .field f => String.ofList f.text ∉ inherited
  | .compare f _ v => String.ofList f.text ∉ inherited ∧ v.Plain
  | .between f lo hi => String.ofList f.text ∉ inherited ∧ lo.Plain ∧ hi.Plain
  | .among f first others => String.ofList f.text ∉ inherited ∧ first.Plain ∧ ∀ v ∈ others, v.Plain

/-- A sign comes only after an operator or an opening parenthesis. -/
def Filter.Unsigned : Filter → Prop
  | .or l r | .and l r => l.Unsigned ∧ r.Unsigned
  | .not e => e.Unsigned
  | .between _ _ hi => hi.Unsigned
  | .among _ _ others => ∀ v ∈ others, v.Unsigned
  | _ => True

end MeshcoreAnalyzer.PacketFilter

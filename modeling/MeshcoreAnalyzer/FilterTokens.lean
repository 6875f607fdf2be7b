import MeshcoreAnalyzer.FilterGrammar

namespace MeshcoreAnalyzer.PacketFilter

variable {F : Type} {D : Doubles F} {isDate : String → Bool} {prev : Option (Token F)} {i : Nat}

theorem ne_of_class {p : Char → Bool} {c d : Char} (h : p c = true) (hd : p d = false) : c ≠ d := by
  rintro rfl
  rw [hd] at h
  cases h

theorem toNat_of_isAlpha {c : Char} (h : c.isAlpha = true) :
    (65 ≤ c.toNat ∧ c.toNat ≤ 90) ∨ (97 ≤ c.toNat ∧ c.toNat ≤ 122) := by
  rcases Bool.or_eq_true_iff.mp h with h | h
  · exact .inl (of_decide_eq_true h)
  · obtain ⟨ha, hz⟩ := Bool.and_eq_true_iff.mp h
    exact .inr ⟨of_decide_eq_true ha, of_decide_eq_true hz⟩

theorem toNat_of_isWordStart {c : Char} (h : isWordStart c = true) : 65 ≤ c.toNat ∧ c.toNat ≤ 122 := by
  rcases Bool.or_eq_true_iff.mp h with h | h
  · have hletter := toNat_of_isAlpha h
    omega
  · rw [beq_iff_eq.mp h]
    decide

theorem isDigit_of_isWordStart {c : Char} (h : isWordStart c = true) : c.isDigit = false := by
  have hrange := toNat_of_isWordStart h
  rw [Bool.eq_false_iff]
  intro hdigit
  have h9 : c.toNat ≤ 57 := of_decide_eq_true (Bool.and_eq_true_iff.mp hdigit).2
  omega

theorem isWordChar_of_isWordStart {c : Char} (h : isWordStart c = true) : isWordChar c = true := by
  rw [isWordStart, Bool.or_eq_true] at h
  rw [isWordChar, Char.isAlphanum, Bool.or_eq_true, Bool.or_eq_true, Bool.or_eq_true]
  rcases h with h | h
  · exact .inl (.inl (.inl h))
  · exact .inl (.inr h)

theorem takeWhile_blank {p : Char → Bool} {s : List Char} (hs : ∀ c ∈ s, p c = true) {d : Char} (hd : p d = false)
    (rest : List Char) : (s ++ d :: rest).takeWhile p = s := by
  rw [List.takeWhile_append_of_pos hs, List.takeWhile_cons_of_neg (by simp [hd]), List.append_nil]

theorem lexToken_word {c : Char} {cs : List Char} (hc : isWordStart c = true) (hcs : ∀ d ∈ cs, isWordChar d = true)
    (rest : List Char) : lexToken D prev i c (cs ++ ' ' :: rest) =
      .ok (some (wordToken (String.ofList (c :: cs))), (c :: cs).length) := by
  have hword : (c :: (cs ++ ' ' :: rest)).takeWhile isWordChar = c :: cs := by
    rw [← List.cons_append]
    apply takeWhile_blank
    · intro d hd
      rcases List.mem_cons.mp hd with rfl | hd
      · exact isWordChar_of_isWordStart hc
      · exact hcs d hd
    · decide
  have hne : ∀ d, isWordStart d = false → c ≠ d := fun d hd => ne_of_class hc hd
  have hdigit := isDigit_of_isWordStart hc
  simp only [lexToken]
  rw [if_neg (by simp [hne ' ' (by decide), hne '\t' (by decide)]), if_neg (by simp [hne '&' (by decide)]),
    if_neg (by simp [hne '|' (by decide)]),
    if_neg (by simp [hne '=' (by decide), hne '!' (by decide), hne '>' (by decide), hne '<' (by decide)]),
    if_neg (by simp [hne '>' (by decide), hne '<' (by decide)]), if_neg (hne '!' (by decide)),
    if_neg (hne '(' (by decide)), if_neg (hne ')' (by decide)), if_neg (hne ',' (by decide)),
    if_neg (hne '"' (by decide)), if_neg (by simp [hdigit]), if_neg (by simp [hne '-' (by decide)]), if_pos hc, hword]

theorem Numeral.body_isDigit (n : Numeral) : ∃ c cs, n.body = c :: cs ∧ c.isDigit = true := by
  obtain ⟨c, cs, hdigits⟩ := List.exists_cons_of_ne_nil n.some_digit
  have hc : c.isDigit = true := n.isDigit c (hdigits ▸ List.mem_cons_self)
  rw [Numeral.body]
  rw [hdigits]
  split
  · exact ⟨c, cs, rfl, hc⟩
  · exact ⟨c, cs ++ '.' :: n.fraction, rfl, hc⟩

theorem numeral_body (n : Numeral) {d : Char} (hd : d.isDigit = false) (hpoint : d ≠ '.') (rest : List Char) :
    numeral (n.body ++ d :: rest) = n.body := by
  unfold numeral Numeral.body
  by_cases hfraction : n.fraction = []
  · rw [if_pos hfraction, takeWhile_blank n.isDigit hd]
    dsimp only
    rw [List.drop_left]
    simp [hpoint]
  · rw [if_neg hfraction, List.append_assoc, List.cons_append,
      takeWhile_blank n.isDigit (d := '.') (by decide)]
    dsimp only
    rw [List.drop_left]
    exact congrArg (n.digits ++ '.' :: ·) (takeWhile_blank n.isDigit' hd rest)

theorem lexNumber_number (n : Numeral) (sign : List Char) (rest : List Char) :
    lexNumber D i sign (n.body ++ ' ' :: rest) =
      .ok (.number (D.parseFloat (String.ofList (sign ++ n.body))), (sign ++ n.body).length) := by
  rw [lexNumber]
  rw [numeral_body n (by decide) (by decide), List.drop_left]
  rfl

theorem TimeUnit.letter_spec (u : TimeUnit) : u.letter.isAlpha = true ∧ u.letter.isDigit = false ∧ u.letter ≠ '.' ∧
    durationUnit (String.ofList [u.letter]) = some (some u.seconds) := by
  cases u <;> decide

theorem lexNumber_duration (n : Numeral) (u : TimeUnit) (sign : List Char) (rest : List Char) :
    lexNumber D i sign (n.body ++ u.letter :: ' ' :: rest) =
      .ok (.duration (D.scale (D.parseFloat (String.ofList (sign ++ n.body))) u.seconds)
        (String.ofList (sign ++ n.body) ++ String.ofList [u.letter]), (sign ++ n.body).length + 1) := by
  obtain ⟨halpha, hdigit, hpoint, hunit⟩ := u.letter_spec
  have hletters : (u.letter :: ' ' :: rest).takeWhile Char.isAlpha = [u.letter] := by
    rw [List.takeWhile_cons_of_pos halpha, List.takeWhile_cons_of_neg (by decide)]
  rw [lexNumber]
  rw [numeral_body n hdigit hpoint, List.drop_left]
  dsimp only
  rw [hletters, if_neg (List.cons_ne_nil _ _), hunit]
  rfl

theorem lexToken_digit {c : Char} (hc : c.isDigit = true) (rest : List Char) :
    lexToken D prev i c rest = (lexNumber D i [] (c :: rest)).map fun p => (some p.1, p.2) := by
  have hne : ∀ d, d.isDigit = false → c ≠ d := fun d hd => ne_of_class hc hd
  simp only [lexToken]
  rw [if_neg (by simp [hne ' ' (by decide), hne '\t' (by decide)]), if_neg (by simp [hne '&' (by decide)]),
    if_neg (by simp [hne '|' (by decide)]),
    if_neg (by simp [hne '=' (by decide), hne '!' (by decide), hne '>' (by decide), hne '<' (by decide)]),
    if_neg (by simp [hne '>' (by decide), hne '<' (by decide)]), if_neg (hne '!' (by decide)),
    if_neg (hne '(' (by decide)), if_neg (hne ')' (by decide)), if_neg (hne ',' (by decide)),
    if_neg (hne '"' (by decide)), if_pos hc]

theorem lexToken_minus {d : Char} (hd : d.isDigit = true) (hsign : signAllowed prev = true) (rest : List Char) :
    lexToken D prev i '-' (d :: rest) = (lexNumber D i ['-'] (d :: rest)).map fun p => (some p.1, p.2) := by
  have hcond : True ∧ ((d :: rest).head?.any Char.isDigit = true) ∧ signAllowed prev = true :=
    ⟨trivial, by simp [hd], hsign⟩
  simp only [lexToken]
  rw [if_neg (by decide), if_neg (by simp), if_neg (by simp), if_neg (by simp), if_neg (by decide),
    if_neg (by decide), if_neg (by decide), if_neg (by decide), if_neg (by decide), if_neg (by decide),
    if_neg (by decide), if_pos hcond]

theorem closingQuote_plain {s : List Char} (hquote : '"' ∉ s) (hback : '\\' ∉ s) (rest : List Char) :
    closingQuote (s ++ '"' :: rest) = some s.length := by
  induction s with
  | nil =>
      rw [List.nil_append, closingQuote.eq_def]
      simp only
      rw [if_pos trivial]
      rfl
  | cons c s ih =>
      rw [List.mem_cons, not_or] at hquote hback
      rw [List.cons_append, closingQuote.eq_def]
      simp only
      rw [if_neg (Ne.symm hquote.1), if_neg (Ne.symm hback.1), ih hquote.2 hback.2]
      rfl

theorem lexToken_quoted {s : List Char} (hquote : '"' ∉ s) (hback : '\\' ∉ s) (rest : List Char) :
    lexToken D prev i '"' (s ++ '"' :: rest) = .ok (some (.string (String.ofList s)), s.length + 2) := by
  simp only [lexToken]
  rw [if_neg (by decide), if_neg (by simp), if_neg (by simp), if_neg (by simp), if_neg (by decide),
    if_neg (by decide), if_neg (by decide), if_neg (by decide), if_neg (by decide), if_pos trivial,
    closingQuote_plain hquote hback]
  dsimp only
  rw [List.take_left]

variable (D) in
def Literal.token : Literal → Token F
  | .quoted s => .string s
  | .number n => .number (D.parseFloat (String.ofList n.text))
  | .bool b => .bool b
  | .duration n u => .duration (D.scale (D.parseFloat (String.ofList n.text)) u.seconds)
      (String.ofList n.text ++ String.ofList [u.letter])
  | .word w => .field (String.ofList w.text)

variable (D) in
def Piece.token : Piece → Token F
  | .or => .or
  | .and => .and
  | .not => .not
  | .lparen => .lparen
  | .rparen => .rparen
  | .comma => .comma
  | .between => .op "between"
  | .among => .op "in"
  | .op o => .op o.text
  | .name f => .field (String.ofList f.text)
  | .literal v => v.token D

def Piece.Legible (prev : Option (Token F)) : Piece → Prop
  | .name f => String.ofList f.text ∉ inherited
  | .literal v => v.Plain ∧ (v.Unsigned ∨ signAllowed prev = true)
  | _ => True

theorem wordToken_name (n : Name) (h : String.ofList n.text ∉ inherited) :
    (wordToken (String.ofList n.text) : Token F) = .field (String.ofList n.text) := by
  have hbool : ¬ (String.ofList n.text = "true" ∨ String.ofList n.text = "false") := by
    rw [← List.mem_singleton (b := "false"), ← List.mem_cons]
    exact n.notBool
  have hop : ¬ (String.ofList n.text ∈ opWords ∨ String.ofList n.text ∈ inherited) := not_or.mpr ⟨n.notOp, h⟩
  rw [wordToken]
  rw [if_neg hbool, if_neg hop]

theorem escape_plain {s : List Char} (hquote : '"' ∉ s) (hback : '\\' ∉ s) : escape s = s := by
  induction s with
  | nil => rfl
  | cons c s ih =>
      rw [List.mem_cons, not_or] at hquote hback
      rw [escape, List.flatMap_cons, if_neg (not_or.mpr ⟨Ne.symm hquote.1, Ne.symm hback.1⟩)]
      exact congrArg (c :: ·) (ih hquote.2 hback.2)

def Numeral.sign (n : Numeral) : List Char := if n.negative then ['-'] else []

theorem Numeral.text_eq (n : Numeral) : n.text = n.sign ++ n.body := by
  rw [Numeral.text, Numeral.sign]
  cases n.negative <;> rfl

theorem lexToken_numeral {n : Numeral} (h : n.negative = false ∨ signAllowed prev = true) (after : List Char) :
    ∃ c cs, n.text = c :: cs ∧ lexToken D prev i c (cs ++ after) =
      (lexNumber D i n.sign (n.body ++ after)).map fun p => (some p.1, p.2) := by
  obtain ⟨d, ds, hbody, hd⟩ := n.body_isDigit
  rw [n.text_eq, Numeral.sign, hbody]
  cases hneg : n.negative with
  | false => exact ⟨d, ds, rfl, lexToken_digit hd (ds ++ after)⟩
  | true =>
      rw [hneg] at h
      exact ⟨'-', d :: ds, rfl, lexToken_minus hd (h.resolve_left (by decide)) (ds ++ after)⟩

theorem wordToken_op {w : String} (hop : w ∈ opWords) : (wordToken w : Token F) = .op w := by
  have hbool : ¬ (w = "true" ∨ w = "false") := by
    rintro (rfl | rfl)
    · exact absurd hop (by decide)
    · exact absurd hop (by decide)
  rw [wordToken]
  rw [if_neg hbool, if_pos (.inl hop)]

def Piece.Read (D : Doubles F) (prev : Option (Token F)) (i : Nat) (p : Piece) (rest : List Char) : Prop :=
  ∃ c cs, p.text = c :: cs ∧
    lexToken D prev i c (cs ++ ' ' :: rest) = .ok (some (p.token D), p.text.length)

theorem read_word {p : Piece} {c : Char} {cs : List Char} (htext : p.text = c :: cs) (hc : isWordStart c = true)
    (hcs : cs.all isWordChar = true) (htoken : wordToken (String.ofList (c :: cs)) = p.token D)
    (rest : List Char) : p.Read D prev i rest := by
  refine ⟨c, cs, htext, ?_⟩
  rw [lexToken_word hc (List.all_eq_true.mp hcs), htoken, htext]

theorem read_op (o : Comparison) (rest : List Char) : (Piece.op o).Read D prev i rest := by
  cases o with
  | eq => exact ⟨'=', ['='], rfl, rfl⟩
  | ne => exact ⟨'!', ['='], rfl, rfl⟩
  | lt => exact ⟨'<', [], rfl, rfl⟩
  | le => exact ⟨'<', ['='], rfl, rfl⟩
  | gt => exact ⟨'>', [], rfl, rfl⟩
  | ge => exact ⟨'>', ['='], rfl, rfl⟩
  | contains => exact read_word rfl (by decide) (by decide) (wordToken_op (by decide)) rest
  | startsWith => exact read_word rfl (by decide) (by decide) (wordToken_op (by decide)) rest
  | endsWith => exact read_word rfl (by decide) (by decide) (wordToken_op (by decide)) rest
  | after => exact read_word rfl (by decide) (by decide) (wordToken_op (by decide)) rest
  | before => exact read_word rfl (by decide) (by decide) (wordToken_op (by decide)) rest

theorem text_quoted (s : String) : (Piece.literal (.quoted s)).text = '"' :: (escape s.toList ++ ['"']) := rfl

theorem text_duration (n : Numeral) (u : TimeUnit) :
    (Piece.literal (.duration n u)).text = n.text ++ [u.letter] := rfl

theorem read_literal {v : Literal} (hplain : v.Plain) (hsign : v.Unsigned ∨ signAllowed prev = true)
    (rest : List Char) : (Piece.literal v).Read D prev i rest := by
  cases v with
  | quoted s =>
      refine ⟨'"', escape s.toList ++ ['"'], rfl, ?_⟩
      rw [escape_plain hplain.1 hplain.2, List.append_assoc, List.singleton_append, lexToken_quoted hplain.1 hplain.2]
      rw [text_quoted, escape_plain hplain.1 hplain.2, String.ofList_toList, List.length_cons,
        List.length_append]
      rfl
  | number n =>
      obtain ⟨c, cs, htext, hlex⟩ := lexToken_numeral (D := D) (i := i) hsign (' ' :: rest)
      refine ⟨c, cs, htext, ?_⟩
      rw [hlex, lexNumber_number, ← n.text_eq]
      rfl
  | bool b =>
      cases b with
      | false => exact read_word rfl (by decide) (by decide) rfl rest
      | true => exact read_word rfl (by decide) (by decide) rfl rest
  | duration n u =>
      obtain ⟨c, cs, htext, hlex⟩ := lexToken_numeral (D := D) (i := i) hsign (u.letter :: ' ' :: rest)
      refine ⟨c, cs ++ [u.letter], by rw [text_duration, htext, List.cons_append], ?_⟩
      rw [List.append_assoc, List.singleton_append, hlex, lexNumber_duration, ← n.text_eq]
      rw [text_duration, List.length_append]
      rfl
  | word w =>
      apply read_word rfl w.isStart (List.all_eq_true.mpr w.isWord)
      exact wordToken_name w hplain

theorem read_piece {p : Piece} (h : p.Legible prev) (rest : List Char) : p.Read D prev i rest := by
  cases p with
  | or => exact ⟨'|', ['|'], rfl, rfl⟩
  | and => exact ⟨'&', ['&'], rfl, rfl⟩
  | not => exact ⟨'!', [], rfl, rfl⟩
  | lparen => exact ⟨'(', [], rfl, rfl⟩
  | rparen => exact ⟨')', [], rfl, rfl⟩
  | comma => exact ⟨',', [], rfl, rfl⟩
  | between => exact read_word rfl (by decide) (by decide) (wordToken_op (by decide)) rest
  | among => exact read_word rfl (by decide) (by decide) (wordToken_op (by decide)) rest
  | op o => exact read_op o rest
  | name f =>
      apply read_word rfl f.isStart (List.all_eq_true.mpr f.isWord)
      exact wordToken_name f h
  | literal v => exact read_literal h.1 h.2 rest

theorem lexFrom_skip (prev : Option (Token F)) (cs rest : List Char) :
    ∀ i, ∃ j, lexFrom D prev i cs.length (cs ++ rest) = lexFrom D prev j 0 rest := by
  induction cs with
  | nil => exact fun i => ⟨i, rfl⟩
  | cons c cs ih => exact fun i => ih (i + units c)

theorem lexFrom_piece {p : Piece} (h : p.Legible prev) (rest : List Char) :
    ∃ j, lexFrom D prev i 0 (p.text ++ ' ' :: rest) =
      (lexFrom D (some (p.token D)) j 0 rest).map (p.token D :: ·) := by
  obtain ⟨c, cs, htext, hread⟩ := read_piece (D := D) (i := i) h rest
  obtain ⟨j, hskip⟩ := lexFrom_skip (D := D) (some (p.token D)) cs (' ' :: rest) (i + units c)
  refine ⟨j + units ' ', ?_⟩
  have hwidth : p.text.length - 1 = cs.length := by rw [htext]; rfl
  rw [htext, List.cons_append, lexFrom, hread]
  dsimp only
  rw [hwidth, hskip]
  rfl

def Readable (D : Doubles F) : Option (Token F) → List Piece → Prop
  | _, [] => True
  | prev, p :: ps => p.Legible prev ∧ Readable D (some (p.token D)) ps

theorem lexFrom_spell {ps : List Piece} : ∀ {prev} (i), Readable D prev ps →
    lexFrom D prev i 0 (spell ps) = .ok (ps.map (Piece.token D)) := by
  induction ps with
  | nil => exact fun i _ => rfl
  | cons p ps ih =>
      intro prev i h
      obtain ⟨j, hpiece⟩ := lexFrom_piece (D := D) (i := i) h.1 (spell ps)
      rw [spell, List.flatMap_cons, List.append_assoc, List.singleton_append]
      exact hpiece.trans (congrArg (Except.map (p.token D :: ·)) (ih j h.2))

def Spelled (D : Doubles F) (ps : List Piece) : Prop := ∀ prev, Readable D prev ps

theorem readable_append {ps qs : List Piece} (hqs : Spelled D qs) :
    ∀ {prev}, Readable D prev ps → Readable D prev (ps ++ qs) := by
  induction ps with
  | nil => exact fun _ => hqs _
  | cons p ps ih => exact fun h => ⟨h.1, ih h.2⟩

theorem Spelled.append {ps qs : List Piece} (hps : Spelled D ps) (hqs : Spelled D qs) :
    Spelled D (ps ++ qs) := fun prev => readable_append hqs (hps prev)

theorem Spelled.cons {p : Piece} {ps : List Piece} (hp : ∀ prev : Option (Token F), p.Legible prev)
    (hps : Spelled D ps) : Spelled D (p :: ps) := fun prev => ⟨hp prev, hps _⟩

theorem Spelled.parenthesized {ps : List Piece} (b : Bool) (hps : Spelled D ps) :
    Spelled D (parenthesized b ps) := by
  cases b with
  | false => exact hps
  | true => exact .cons (fun _ => trivial) (hps.append (.cons (fun _ => trivial) fun _ => trivial))

theorem spelled_others {others : List Literal} (hplain : ∀ v ∈ others, v.Plain) (hsign : ∀ v ∈ others, v.Unsigned) :
    Spelled D (others.flatMap fun v => [Piece.comma, .literal v]) := by
  induction others with
  | nil => exact fun _ => trivial
  | cons v others ih =>
      rw [List.forall_mem_cons] at hplain hsign
      exact fun prev => ⟨trivial, ⟨hplain.1, .inl hsign.1⟩, ih hplain.2 hsign.2 _⟩

theorem Filter.spelled {e : Filter} (hplain : e.Plain) (hsign : e.Unsigned) :
    ∀ level, Spelled D (e.pieces level) := by
  induction e with
  | or l r ihl ihr =>
      intro level
      apply Spelled.parenthesized
      exact (ihl hplain.1 hsign.1 0).append (.cons (fun _ => trivial) (ihr hplain.2 hsign.2 1))
  | and l r ihl ihr =>
      intro level
      apply Spelled.parenthesized
      exact (ihl hplain.1 hsign.1 1).append (.cons (fun _ => trivial) (ihr hplain.2 hsign.2 2))
  | not e ih => exact fun level => .cons (fun _ => trivial) (ih hplain hsign 2)
  | field f => exact fun level prev => ⟨hplain, trivial⟩
  | compare f op v => exact fun level prev => ⟨hplain.1, trivial, ⟨hplain.2, .inr rfl⟩, trivial⟩
  | between f lo hi =>
      exact fun level prev => ⟨hplain.1, trivial, ⟨hplain.2.1, .inr rfl⟩, ⟨hplain.2.2, .inl hsign⟩, trivial⟩
  | among f first others =>
      intro level
      apply Spelled.append
      · apply Spelled.append
        · exact fun prev => ⟨hplain.1, trivial, trivial, ⟨hplain.2.1, .inr rfl⟩, trivial⟩
        · exact spelled_others hplain.2.2 hsign
      · exact fun prev => ⟨trivial, trivial⟩

def Filter.tokens (D : Doubles F) (level : Nat) (e : Filter) : Tokens F :=
  (e.pieces level).map (Piece.token D)

theorem lex_print {e : Filter} (hplain : e.Plain) (hsign : e.Unsigned) :
    lex D e.print = .ok (e.tokens D 0) := by
  rw [lex, Filter.print, String.toList_ofList]
  exact lexFrom_spell 0 (e.spelled hplain hsign 0 none)

theorem lexToken_strayMinus {d : Char} (hsign : signAllowed prev = false) (rest : List Char) :
    lexToken D prev i '-' (d :: rest) =
      .error ("Unexpected character '" ++ String.singleton '-' ++ "' at position " ++ toString i) := by
  have hcond : ¬ (True ∧ ((d :: rest).head?.any Char.isDigit = true) ∧ signAllowed prev = true) := by simp [hsign]
  simp only [lexToken]
  rw [if_neg (by decide), if_neg (by simp), if_neg (by simp), if_neg (by simp), if_neg (by decide),
    if_neg (by decide), if_neg (by decide), if_neg (by decide), if_neg (by decide), if_neg (by decide),
    if_neg (by decide), if_neg hcond, if_neg (by decide)]

def Piece.Plain : Piece → Prop
  | .name f => String.ofList f.text ∉ inherited
  | .literal v => v.Plain
  | _ => True

theorem Numeral.text_negative {n : Numeral} (h : n.negative = true) : ∃ d ds, n.text = '-' :: d :: ds := by
  obtain ⟨d, ds, hbody, -⟩ := n.body_isDigit
  exact ⟨d, ds, by rw [n.text_eq, Numeral.sign, h, hbody]; rfl⟩

theorem lexFrom_strayMinus {v : Literal} (hunsigned : ¬ v.Unsigned) (hsign : signAllowed prev = false)
    (rest : List Char) : ∃ msg, lexFrom D prev i 0 (v.text ++ rest) = .error msg := by
  have htext : ∃ d ds, v.text = '-' :: d :: ds := by
    cases v with
    | number n => exact n.text_negative (eq_true_of_ne_false hunsigned)
    | duration n u =>
        obtain ⟨d, ds, htext⟩ := n.text_negative (eq_true_of_ne_false hunsigned)
        exact ⟨d, ds ++ [u.letter], congrArg (· ++ [u.letter]) htext⟩
    | quoted s => exact absurd trivial hunsigned
    | bool b => exact absurd trivial hunsigned
    | word w => exact absurd trivial hunsigned
  obtain ⟨d, ds, htext⟩ := htext
  rw [htext, List.cons_append, List.cons_append, lexFrom, lexToken_strayMinus hsign]
  exact ⟨_, rfl⟩

theorem lexFrom_plain {ps : List Piece} (hps : ∀ p ∈ ps, p.Plain) : ∀ {prev} (i),
    Readable D prev ps ∨ ∃ msg, lexFrom D prev i 0 (spell ps) = .error msg := by
  induction ps with
  | nil => exact fun _ => .inl trivial
  | cons p ps ih =>
      rw [List.forall_mem_cons] at hps
      intro prev i
      rw [spell, List.flatMap_cons, List.append_assoc, List.singleton_append]
      by_cases hlegible : p.Legible prev
      · obtain ⟨j, hpiece⟩ := lexFrom_piece (D := D) (i := i) hlegible (spell ps)
        rcases ih hps.2 j with hread | ⟨msg, hmsg⟩
        · exact .inl ⟨hlegible, hread⟩
        · exact .inr ⟨msg, hpiece.trans (congrArg (Except.map (p.token D :: ·)) hmsg)⟩
      · right
        cases p with
        | literal v =>
            have hsign : ¬ (v.Unsigned ∨ signAllowed prev = true) := fun h => hlegible ⟨hps.1, h⟩
            rw [not_or, Bool.not_eq_true] at hsign
            exact lexFrom_strayMinus hsign.1 hsign.2 _
        | name f => exact absurd hps.1 hlegible
        | or | and | not | lparen | rparen | comma | between | among | op o => exact absurd trivial hlegible

theorem readable_of_append {ps qs : List Piece} : ∀ {prev : Option (Token F)}, Readable D prev (ps ++ qs) →
    Readable D prev ps ∧ ∃ prev', Readable D prev' qs := by
  induction ps with
  | nil => exact fun h => ⟨trivial, _, h⟩
  | cons p ps ih => exact fun h => ⟨⟨h.1, (ih h.2).1⟩, (ih h.2).2⟩

theorem readable_of_parenthesized {b : Bool} {ps : List Piece} (h : Readable D prev (parenthesized b ps)) :
    ∃ prev', Readable D prev' ps := by
  cases b with
  | false => exact ⟨prev, h⟩
  | true => exact ⟨_, (readable_of_append h.2).1⟩

theorem unsigned_of_readable_others {others : List Literal} : ∀ {prev : Option (Token F)},
    Readable D prev (others.flatMap fun v => [Piece.comma, .literal v]) → ∀ v ∈ others, v.Unsigned := by
  induction others with
  | nil => exact fun _ v hv => absurd hv List.not_mem_nil
  | cons v others ih =>
      intro prev h
      rw [List.forall_mem_cons]
      exact ⟨h.2.1.2.resolve_right Bool.false_ne_true, ih h.2.2⟩

theorem Filter.unsigned_of_readable {e : Filter} : ∀ {level} {prev : Option (Token F)},
    Readable D prev (e.pieces level) → e.Unsigned := by
  induction e with
  | or l r ihl ihr =>
      intro level prev h
      obtain ⟨_, h⟩ := readable_of_parenthesized h
      obtain ⟨hl, _, hr⟩ := readable_of_append h
      exact ⟨ihl hl, ihr hr.2⟩
  | and l r ihl ihr =>
      intro level prev h
      obtain ⟨_, h⟩ := readable_of_parenthesized h
      obtain ⟨hl, _, hr⟩ := readable_of_append h
      exact ⟨ihl hl, ihr hr.2⟩
  | not e ih => exact fun h => ih h.2
  | field f => exact fun _ => trivial
  | compare f op v => exact fun _ => trivial
  | between f lo hi =>
      intro level prev h
      obtain ⟨-, -, -, hhi, -⟩ := h
      refine hhi.2.resolve_right ?_
      cases lo <;> exact Bool.false_ne_true
  | among f first others =>
      intro level prev h
      obtain ⟨h, -⟩ := readable_of_append h
      obtain ⟨-, _, h⟩ := readable_of_append h
      exact unsigned_of_readable_others h

theorem parenthesized_plain {b : Bool} {ps : List Piece} (h : ∀ p ∈ ps, p.Plain) :
    ∀ p ∈ parenthesized b ps, p.Plain := by
  cases b with
  | false => exact h
  | true =>
      simp only [parenthesized, if_true, List.forall_mem_cons, List.forall_mem_append]
      exact ⟨trivial, h, trivial, fun _ hp => absurd hp List.not_mem_nil⟩

theorem Filter.Plain.pieces {e : Filter} (h : e.Plain) : ∀ level, ∀ p ∈ e.pieces level, p.Plain := by
  induction e with
  | or l r ihl ihr =>
      intro level
      apply parenthesized_plain
      rw [List.forall_mem_append, List.forall_mem_cons]
      exact ⟨ihl h.1 0, trivial, ihr h.2 1⟩
  | and l r ihl ihr =>
      intro level
      apply parenthesized_plain
      rw [List.forall_mem_append, List.forall_mem_cons]
      exact ⟨ihl h.1 1, trivial, ihr h.2 2⟩
  | not e ih => exact fun level => List.forall_mem_cons.mpr ⟨trivial, ih h 2⟩
  | field f => exact fun level => List.forall_mem_cons.mpr ⟨h, fun _ hp => absurd hp List.not_mem_nil⟩
  | compare f op v =>
      intro level
      simp only [Filter.pieces, List.forall_mem_cons]
      exact ⟨h.1, trivial, h.2, fun _ hp => absurd hp List.not_mem_nil⟩
  | between f lo hi =>
      intro level
      simp only [Filter.pieces, List.forall_mem_cons]
      exact ⟨h.1, trivial, h.2.1, h.2.2, fun _ hp => absurd hp List.not_mem_nil⟩
  | among f first others =>
      intro level
      simp only [Filter.pieces, List.forall_mem_append, List.forall_mem_cons, List.forall_mem_flatMap]
      refine ⟨⟨⟨h.1, trivial, trivial, h.2.1, fun _ hp => absurd hp List.not_mem_nil⟩, ?_⟩, trivial,
        fun _ hp => absurd hp List.not_mem_nil⟩
      exact fun v hv => ⟨trivial, h.2.2 v hv, fun _ hp => absurd hp List.not_mem_nil⟩

theorem lex_print_signed {e : Filter} (hplain : e.Plain) (hsigned : ¬ e.Unsigned) :
    ∃ msg, lex D e.print = .error msg := by
  rw [lex, Filter.print, String.toList_ofList]
  exact (lexFrom_plain (hplain.pieces 0) 0).resolve_left fun h => hsigned (Filter.unsigned_of_readable h)

end MeshcoreAnalyzer.PacketFilter

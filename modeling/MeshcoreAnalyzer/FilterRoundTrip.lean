import MeshcoreAnalyzer.FilterTokens

namespace MeshcoreAnalyzer.PacketFilter

variable {F : Type} {D : Doubles F} {isDate : String → Bool}

variable (D isDate) in
def Filter.check : Filter → Except String (Ast F)
  | .or l r => do .ok (.or (← l.check) (← r.check))
  | .and l r => do .ok (.and (← l.check) (← r.check))
  | .not e => do .ok (.not (← e.check))
  | .compare f op v => do
      if op.text = "after" ∨ op.text = "before" then
        validateTimeValue isDate (String.ofList f.text) op.text (v.value D)
      .ok ((Filter.compare f op v).ast D)
  | .between f lo hi => do
      validateTimeValue isDate (String.ofList f.text) "between" (lo.value D)
      validateTimeValue isDate (String.ofList f.text) "between" (hi.value D)
      .ok ((Filter.between f lo hi).ast D)
  | e => .ok (e.ast D)

def Closing : Tokens F → Prop
  | [] | .and :: _ | .or :: _ | .rparen :: _ => True
  | _ => False

def ClosingOr : Tokens F → Prop
  | [] | .or :: _ | .rparen :: _ => True
  | _ => False

theorem ClosingOr.closing {ts : Tokens F} (h : ClosingOr ts) : Closing ts := by
  cases ts with
  | nil => trivial
  | cons t ts => cases t <;> trivial

theorem parseValue_literal (field op : String) (v : Literal) (ts : Tokens F) :
    parseValue field op (v.token D :: ts) = .ok (v.value D, ts) := by
  cases v <;> rfl

theorem parseValues_literals (field op : String) (others : List Literal) (rest : Tokens F) :
    parseValues field op ((others.flatMap fun v => [Piece.comma, .literal v]).map (Piece.token D) ++
      .rparen :: rest) = .ok (others.map (Literal.value D), .rparen :: rest) := by
  induction others with
  | nil => rfl
  | cons v others ih =>
      have hvalue : (v.token D).value = some (v.value D) := by cases v <;> rfl
      rw [List.flatMap_cons, List.map_append, List.append_assoc, List.map_cons, List.cons_append]
      simp only [Piece.token, List.map_cons, List.map_nil, List.cons_append, List.nil_append, parseValues, hvalue]
      rw [ih]
      rfl

theorem Comparison.text_ne (op : Comparison) : op.text ≠ "between" ∧ op.text ≠ "in" := by
  cases op <;> decide

theorem parseComparison_field {f : Name} {rest : Tokens F} (h : Closing rest) :
    parseComparison D isDate (.field (String.ofList f.text) :: rest) =
      .ok ((Filter.field f).ast D, rest) := by
  cases rest with
  | nil => rfl
  | cons t rest => cases t <;> first | rfl | exact h.elim

theorem parseComparison_compare (f : Name) (op : Comparison) (v : Literal) (rest : Tokens F) :
    parseComparison D isDate ((Filter.compare f op v).tokens D 2 ++ rest) =
      (Filter.compare f op v).check D isDate >>= fun a => .ok (a, rest) := by
  have hparse : parseComparison D isDate ((Filter.compare f op v).tokens D 2 ++ rest) =
      parseOperand isDate (String.ofList f.text) op.text (v.token D :: rest) := rfl
  rw [hparse, parseOperand, if_neg op.text_ne.1, if_neg op.text_ne.2, parseValue_literal, Filter.check]
  by_cases htime : op.text = "after" ∨ op.text = "before"
  · rw [if_pos htime]
    simp only [bind, Except.bind, if_pos htime]
    cases validateTimeValue isDate (String.ofList f.text) op.text (v.value D) <;> rfl
  · simp only [bind, Except.bind, if_neg htime]
    rfl

theorem parseComparison_between (f : Name) (lo hi : Literal) (rest : Tokens F) :
    parseComparison D isDate ((Filter.between f lo hi).tokens D 2 ++ rest) =
      (Filter.between f lo hi).check D isDate >>= fun a => .ok (a, rest) := by
  have hparse : parseComparison D isDate ((Filter.between f lo hi).tokens D 2 ++ rest) =
      parseOperand isDate (String.ofList f.text) "between" (lo.token D :: hi.token D :: rest) := rfl
  rw [hparse, parseOperand, if_pos rfl, parseValue_literal, Filter.check]
  simp only [bind, Except.bind, parseValue_literal]
  cases validateTimeValue isDate (String.ofList f.text) "between" (lo.value D) with
  | error msg => rfl
  | ok _ => cases validateTimeValue isDate (String.ofList f.text) "between" (hi.value D) <;> rfl

theorem parseAmong_literals (field : String) (first : Literal) (others : List Literal) (rest : Tokens F) :
    parseAmong field "in" (.lparen :: first.token D ::
      ((others.flatMap fun v => [Piece.comma, .literal v]).map (Piece.token D) ++ .rparen :: rest)) =
      .ok (.among field ((first :: others).map (Literal.value D)), rest) := by
  have hvalues := parseValues_literals (D := D) field "in" others rest
  cases first <;>
    simp only [Literal.token, parseAmong, parseValue, Token.value, bind, Except.bind, hvalues] <;> rfl

theorem parseComparison_among (f : Name) (first : Literal) (others : List Literal) (rest : Tokens F) :
    parseComparison D isDate ((Filter.among f first others).tokens D 2 ++ rest) =
      .ok ((Filter.among f first others).ast D, rest) := by
  have htokens : (Filter.among f first others).tokens D 2 ++ rest = .field (String.ofList f.text) :: .op "in" ::
      .lparen :: first.token D :: ((others.flatMap fun v => [Piece.comma, .literal v]).map (Piece.token D) ++
        .rparen :: rest) := by
    simp [Filter.tokens, Filter.pieces, Piece.token]
  rw [htokens]
  exact parseAmong_literals (String.ofList f.text) first others rest

variable (D isDate) in
def ReadsNot (e : Filter) : Prop :=
  ∀ fuel rest, Closing rest → 3 * (e.tokens D 2 ++ rest).length + 1 ≤ fuel →
    parseNot D isDate fuel (e.tokens D 2 ++ rest) = e.check D isDate >>= fun a => .ok (a, rest)

variable (D isDate) in
def ReadsAnd (e : Filter) : Prop :=
  ∀ fuel rest, Closing rest → 3 * (e.tokens D 1 ++ rest).length + 2 ≤ fuel →
    ∃ g, 3 * rest.length + 1 ≤ g ∧ parseAnd D isDate fuel (e.tokens D 1 ++ rest) =
      e.check D isDate >>= fun a => andLoop D isDate g a rest

variable (D isDate) in
def ReadsOr (e : Filter) : Prop :=
  ∀ fuel rest, ClosingOr rest → 3 * (e.tokens D 0 ++ rest).length + 3 ≤ fuel →
    ∃ g, 3 * rest.length + 1 ≤ g ∧ parseOr D isDate fuel (e.tokens D 0 ++ rest) =
      e.check D isDate >>= fun a => orLoop D isDate g a rest

theorem andLoop_closing {rest : Tokens F} (h : ClosingOr rest) {g : Nat} (hg : 1 ≤ g) (a : Ast F) :
    andLoop D isDate g a rest = .ok (a, rest) := by
  obtain ⟨g, rfl⟩ := Nat.exists_eq_add_of_le' hg
  cases rest with
  | nil => rfl
  | cons t rest => cases t <;> first | rfl | exact h.elim

theorem ReadsNot.readsAnd {e : Filter} (h : ReadsNot D isDate e)
    (hsame : e.tokens D 1 = e.tokens D 2) : ReadsAnd D isDate e := by
  intro fuel rest hrest hfuel
  obtain ⟨fuel, rfl⟩ : ∃ k, fuel = k + 1 := ⟨fuel - 1, by omega⟩
  rw [hsame] at hfuel ⊢
  refine ⟨fuel, ?_, ?_⟩
  · rw [List.length_append] at hfuel
    omega
  · rw [parseAnd, h fuel rest hrest (by omega), bind_assoc]
    rfl

theorem ReadsAnd.ends {e : Filter} (h : ReadsAnd D isDate e) {fuel : Nat} {rest : Tokens F}
    (hrest : ClosingOr rest) (hfuel : 3 * (e.tokens D 1 ++ rest).length + 2 ≤ fuel) :
    parseAnd D isDate fuel (e.tokens D 1 ++ rest) =
      e.check D isDate >>= fun a => .ok (a, rest) := by
  obtain ⟨g, hg, hparse⟩ := h fuel rest hrest.closing hfuel
  rw [hparse]
  congr 1
  funext a
  exact andLoop_closing hrest (by omega) a

theorem ReadsAnd.readsOr {e : Filter} (h : ReadsAnd D isDate e)
    (hsame : e.tokens D 0 = e.tokens D 1) : ReadsOr D isDate e := by
  intro fuel rest hrest hfuel
  obtain ⟨fuel, rfl⟩ : ∃ k, fuel = k + 1 := ⟨fuel - 1, by omega⟩
  rw [hsame] at hfuel ⊢
  refine ⟨fuel, ?_, ?_⟩
  · rw [List.length_append] at hfuel
    omega
  · rw [parseOr, h.ends hrest (by omega), bind_assoc]
    rfl

theorem ReadsOr.parenthesized {e : Filter} (h : ReadsOr D isDate e)
    (htokens : e.tokens D 2 = .lparen :: (e.tokens D 0 ++ [.rparen])) : ReadsNot D isDate e := by
  intro fuel rest hrest hfuel
  obtain ⟨fuel, rfl⟩ : ∃ k, fuel = k + 1 := ⟨fuel - 1, by omega⟩
  rw [htokens, List.cons_append, List.append_assoc, List.singleton_append] at hfuel ⊢
  rw [List.length_cons] at hfuel
  obtain ⟨g, hg, hparse⟩ := h fuel (.rparen :: rest) trivial (by omega)
  obtain ⟨g, rfl⟩ : ∃ k, g = k + 1 := ⟨g - 1, by omega⟩
  rw [parseNot, hparse, bind_assoc]
  rfl

theorem readsAnd_and {l r : Filter} (hl : ReadsAnd D isDate l) (hr : ReadsNot D isDate r) :
    ReadsAnd D isDate (.and l r) := by
  intro fuel rest hrest hfuel
  have htokens : (Filter.and l r).tokens D 1 ++ rest =
      l.tokens D 1 ++ .and :: (r.tokens D 2 ++ rest) := by
    simp [Filter.tokens, Filter.pieces, MeshcoreAnalyzer.PacketFilter.parenthesized, Piece.token]
  rw [htokens] at hfuel ⊢
  obtain ⟨g, hg, hparse⟩ := hl fuel (.and :: (r.tokens D 2 ++ rest)) trivial hfuel
  rw [List.length_cons] at hg
  obtain ⟨g, rfl⟩ : ∃ k, g = k + 1 := ⟨g - 1, by omega⟩
  refine ⟨g, ?_, ?_⟩
  · rw [List.length_append] at hg
    omega
  · rw [hparse, Filter.check, bind_assoc]
    congr 1
    funext a
    rw [andLoop, hr g rest hrest (by omega), bind_assoc, bind_assoc]
    rfl

theorem readsOr_or {l r : Filter} (hl : ReadsOr D isDate l) (hr : ReadsAnd D isDate r) :
    ReadsOr D isDate (.or l r) := by
  intro fuel rest hrest hfuel
  have htokens : (Filter.or l r).tokens D 0 ++ rest =
      l.tokens D 0 ++ .or :: (r.tokens D 1 ++ rest) := by
    simp [Filter.tokens, Filter.pieces, MeshcoreAnalyzer.PacketFilter.parenthesized, Piece.token]
  rw [htokens] at hfuel ⊢
  obtain ⟨g, hg, hparse⟩ := hl fuel (.or :: (r.tokens D 1 ++ rest)) trivial hfuel
  rw [List.length_cons] at hg
  obtain ⟨g, rfl⟩ : ∃ k, g = k + 1 := ⟨g - 1, by omega⟩
  refine ⟨g, ?_, ?_⟩
  · rw [List.length_append] at hg
    omega
  · rw [hparse, Filter.check, bind_assoc]
    congr 1
    funext a
    rw [orLoop, hr.ends hrest (by omega), bind_assoc, bind_assoc]
    rfl

theorem readsNot_not {e : Filter} (h : ReadsNot D isDate e) : ReadsNot D isDate (.not e) := by
  intro fuel rest hrest hfuel
  obtain ⟨fuel, rfl⟩ : ∃ k, fuel = k + 1 := ⟨fuel - 1, by omega⟩
  have htokens : (Filter.not e).tokens D 2 ++ rest = .not :: (e.tokens D 2 ++ rest) := rfl
  rw [htokens] at hfuel ⊢
  rw [List.length_cons] at hfuel
  rw [parseNot, h fuel rest hrest (by omega), Filter.check, bind_assoc, bind_assoc]
  rfl

theorem readsNot_comparison {e : Filter} {w : String} {ts : Tokens F} (htokens : e.tokens D 2 = .field w :: ts)
    (h : ∀ rest, Closing rest → parseComparison D isDate (e.tokens D 2 ++ rest) =
      e.check D isDate >>= fun a => .ok (a, rest)) : ReadsNot D isDate e := by
  intro fuel rest hrest hfuel
  obtain ⟨fuel, rfl⟩ : ∃ k, fuel = k + 1 := ⟨fuel - 1, by omega⟩
  rw [← h rest hrest, htokens]
  rfl

variable (D isDate) in
structure Reads (e : Filter) : Prop where
  not : ReadsNot D isDate e
  and : ReadsAnd D isDate e
  or : ReadsOr D isDate e

theorem ReadsNot.reads {e : Filter} (h : ReadsNot D isDate e)
    (hsame : ∀ level, e.pieces level = e.pieces 2) : Reads D isDate e := by
  have hand : ReadsAnd D isDate e := h.readsAnd (by rw [Filter.tokens, hsame 1, Filter.tokens])
  exact ⟨h, hand, hand.readsOr (by rw [Filter.tokens, hsame 0, Filter.tokens, hsame 1])⟩

variable (D isDate) in
theorem reads (e : Filter) : Reads D isDate e := by
  induction e with
  | or l r ihl ihr =>
      have hor : ReadsOr D isDate (.or l r) := readsOr_or ihl.or ihr.and
      have hnot : ReadsNot D isDate (.or l r) := hor.parenthesized (by
        simp [Filter.tokens, Filter.pieces, MeshcoreAnalyzer.PacketFilter.parenthesized, Piece.token])
      exact ⟨hnot, hnot.readsAnd rfl, hor⟩
  | and l r ihl ihr =>
      have hand : ReadsAnd D isDate (.and l r) := readsAnd_and ihl.and ihr.not
      have hor : ReadsOr D isDate (.and l r) := hand.readsOr rfl
      have hnot : ReadsNot D isDate (.and l r) := hor.parenthesized (by
        simp [Filter.tokens, Filter.pieces, MeshcoreAnalyzer.PacketFilter.parenthesized, Piece.token])
      exact ⟨hnot, hand, hor⟩
  | not e ih => exact (readsNot_not ih.not).reads fun _ => rfl
  | field f => exact (readsNot_comparison rfl fun rest => parseComparison_field).reads fun _ => rfl
  | compare f op v =>
      exact (readsNot_comparison rfl fun rest _ => parseComparison_compare f op v rest).reads fun _ => rfl
  | between f lo hi =>
      exact (readsNot_comparison rfl fun rest _ => parseComparison_between f lo hi rest).reads fun _ => rfl
  | among f first others =>
      exact (readsNot_comparison rfl fun rest _ => parseComparison_among f first others rest).reads fun _ => rfl

theorem validateTimeValue_literal (field op : String) (v : Literal) :
    (v.Dated isDate → validateTimeValue isDate field op (v.value D) = .ok ()) ∧
      (¬ v.Dated isDate → ∃ msg, validateTimeValue isDate field op (v.value D) = .error msg) := by
  cases v with
  | quoted s => exact ⟨fun h => if_pos h, fun h => ⟨_, if_neg h⟩⟩
  | word w => exact ⟨fun h => if_pos h, fun h => ⟨_, if_neg h⟩⟩
  | number n => exact ⟨fun _ => rfl, fun h => absurd trivial h⟩
  | bool b => exact ⟨fun _ => rfl, fun h => absurd trivial h⟩
  | duration n u => exact ⟨fun _ => rfl, fun h => absurd trivial h⟩

theorem Filter.check_dated {e : Filter} (h : e.Dated isDate) : e.check D isDate = .ok (e.ast D) := by
  induction e with
  | or l r ihl ihr =>
      rw [Filter.check, ihl h.1, ihr h.2]
      rfl
  | and l r ihl ihr =>
      rw [Filter.check, ihl h.1, ihr h.2]
      rfl
  | not e ih =>
      rw [Filter.check, ih h]
      rfl
  | field f => rfl
  | compare f op v =>
      rw [Filter.check]
      split
      · have hv : v.Dated isDate := by cases op <;> first | exact h | simp_all [Comparison.text]
        rw [(validateTimeValue_literal _ _ v).1 hv]
        rfl
      · rfl
  | between f lo hi =>
      rw [Filter.check, (validateTimeValue_literal _ _ lo).1 h.1, (validateTimeValue_literal _ _ hi).1 h.2]
      rfl
  | among f first others => rfl

theorem Filter.check_undated {e : Filter} (h : ¬ e.Dated isDate) :
    ∃ msg, e.check D isDate = .error msg := by
  induction e with
  | or l r ihl ihr =>
      rw [Filter.check]
      by_cases hl : l.Dated isDate
      · obtain ⟨msg, hmsg⟩ := ihr fun hr => h ⟨hl, hr⟩
        exact ⟨msg, by rw [check_dated hl, hmsg]; rfl⟩
      · obtain ⟨msg, hmsg⟩ := ihl hl
        exact ⟨msg, by rw [hmsg]; rfl⟩
  | and l r ihl ihr =>
      rw [Filter.check]
      by_cases hl : l.Dated isDate
      · obtain ⟨msg, hmsg⟩ := ihr fun hr => h ⟨hl, hr⟩
        exact ⟨msg, by rw [check_dated hl, hmsg]; rfl⟩
      · obtain ⟨msg, hmsg⟩ := ihl hl
        exact ⟨msg, by rw [hmsg]; rfl⟩
  | not e ih =>
      obtain ⟨msg, hmsg⟩ := ih h
      exact ⟨msg, by rw [Filter.check, hmsg]; rfl⟩
  | field f => exact absurd trivial h
  | compare f op v =>
      have htime : (op.text = "after" ∨ op.text = "before") ∧ ¬ v.Dated isDate := by
        cases op with
        | after => exact ⟨.inl rfl, h⟩
        | before => exact ⟨.inr rfl, h⟩
        | eq | ne | lt | le | gt | ge | contains | startsWith | endsWith => exact absurd trivial h
      obtain ⟨msg, hmsg⟩ := (validateTimeValue_literal (String.ofList f.text) op.text v).2 htime.2
      exact ⟨msg, by rw [Filter.check, if_pos htime.1, hmsg]; rfl⟩
  | between f lo hi =>
      rw [Filter.check]
      by_cases hlo : lo.Dated isDate
      · obtain ⟨msg, hmsg⟩ := (validateTimeValue_literal (String.ofList f.text) "between" hi).2 fun hhi => h ⟨hlo, hhi⟩
        exact ⟨msg, by rw [(validateTimeValue_literal _ _ lo).1 hlo, hmsg]; rfl⟩
      · obtain ⟨msg, hmsg⟩ := (validateTimeValue_literal (String.ofList f.text) "between" lo).2 hlo
        exact ⟨msg, by rw [hmsg]; rfl⟩
  | among f first others => exact absurd trivial h

theorem not_isTrimmed_of_isWordStart {c : Char} (h : isWordStart c = true) : isTrimmed c = false := by
  have hrange := toNat_of_isWordStart h
  simp only [isTrimmed, Bool.or_eq_false_iff, Bool.and_eq_false_iff, decide_eq_false_iff_not, List.mem_cons,
    List.not_mem_nil, or_false, not_or]
  omega

theorem Filter.print_visible (e : Filter) : ∀ level, ∃ c ∈ spell (e.pieces level), isTrimmed c = false := by
  have hleft : ∀ {ps qs : List Piece} {b : Bool}, (∃ c ∈ spell ps, isTrimmed c = false) →
      ∃ c ∈ spell (parenthesized b (ps ++ qs)), isTrimmed c = false := by
    rintro ps qs b ⟨c, hc, htrim⟩
    refine ⟨c, ?_, htrim⟩
    cases b <;> simp_all [spell, MeshcoreAnalyzer.PacketFilter.parenthesized]
  have hname : ∀ (f : Name) (ps : List Piece), ∃ c ∈ spell (.name f :: ps), isTrimmed c = false :=
    fun f ps => ⟨f.first, List.mem_cons_self, not_isTrimmed_of_isWordStart f.isStart⟩
  induction e with
  | or l r ihl ihr => exact fun level => hleft (ihl 0)
  | and l r ihl ihr => exact fun level => hleft (ihl 1)
  | not e ih => exact fun level => ⟨'!', List.mem_cons_self, by decide⟩
  | field f => exact fun level => hname f _
  | compare f op v => exact fun level => hname f _
  | between f lo hi => exact fun level => hname f _
  | among f first others => exact fun level => hname f _

theorem Filter.print_not_blank (e : Filter) : ¬ e.print.toList.all isTrimmed = true := by
  obtain ⟨c, hc, htrim⟩ := e.print_visible 0
  rw [Filter.print, String.toList_ofList, List.all_eq_true]
  intro h
  rw [h c hc] at htrim
  cases htrim

theorem parse_print_eq {e : Filter} (hplain : e.Plain) (hsign : e.Unsigned) :
    parse D isDate e.print = (e.check D isDate).map some := by
  obtain ⟨g, hg, hparse⟩ := (reads D isDate e).or
    (3 * (e.tokens D 0).length + 3) [] trivial (by simp)
  obtain ⟨g, rfl⟩ : ∃ k, g = k + 1 := ⟨g - 1, by omega⟩
  rw [List.append_nil] at hparse
  rw [parse, if_neg e.print_not_blank, lex_print hplain hsign]
  simp only [bind, Except.bind]
  rw [hparse]
  cases e.check D isDate <;> rfl

/-- A filter is read back as its own tree when every text that is compared with a time is
a date; otherwise, and at a sign between the values of `between` or `in`, there is an error. -/
theorem parse_print (D : Doubles F) (isDate : String → Bool) (e : Filter) (hplain : e.Plain) :
    (e.Unsigned ∧ e.Dated isDate → parse D isDate e.print = .ok (some (e.ast D))) ∧
      (¬ (e.Unsigned ∧ e.Dated isDate) → ∃ msg, parse D isDate e.print = .error msg) := by
  constructor
  · rintro ⟨hsign, hdated⟩
    rw [parse_print_eq hplain hsign, e.check_dated hdated]
    rfl
  · intro h
    by_cases hsign : e.Unsigned
    · obtain ⟨msg, hmsg⟩ := e.check_undated (D := D) fun hdated => h ⟨hsign, hdated⟩
      exact ⟨msg, by rw [parse_print_eq hplain hsign, hmsg]; rfl⟩
    · obtain ⟨msg, hmsg⟩ := lex_print_signed (D := D) hplain hsign
      exact ⟨msg, by rw [parse, if_neg e.print_not_blank, hmsg]; rfl⟩

def ints : Doubles Int where
  parseFloat s := s.toInt?.getD 0
  scale x seconds := x * seconds
  nan := 0
  toText x := toString x
  falsy x := x == 0

def fieldSnr : Name := ⟨'s', ['n', 'r'], by decide, List.all_eq_true.mp (by decide), by decide, by decide⟩

def fieldTime : Name :=
  ⟨'t', ['i', 'm', 'e'], by decide, List.all_eq_true.mp (by decide), by decide, by decide⟩

def wordAdvert : Name :=
  ⟨'A', ['D', 'V', 'E', 'R', 'T'], by decide, List.all_eq_true.mp (by decide), by decide, by decide⟩

def numeral5 (negative : Bool) : Numeral :=
  ⟨negative, ['5'], [], by decide, List.all_eq_true.mp (by decide), List.all_eq_true.mp (by decide)⟩

/-- `snr >= -5 && !(time after "2026-01-01" || snr in (5, ADVERT, true))` -/
def goodFilter : Filter :=
  .and (.compare fieldSnr .ge (.number (numeral5 true)))
    (.not (.or (.compare fieldTime .after (.quoted "2026-01-01"))
      (.among fieldSnr (.number (numeral5 false)) [.word wordAdvert, .bool true])))

theorem parse_print_goodFilter :
    parse ints (· == "2026-01-01") goodFilter.print = .ok (some (goodFilter.ast ints)) := by
  apply (parse_print ints (· == "2026-01-01") goodFilter ?_).1
  · refine ⟨⟨trivial, trivial, fun v hv => ?_⟩, trivial, (rfl : ("2026-01-01" == "2026-01-01") = true), trivial⟩
    simp only [List.mem_cons, List.not_mem_nil, or_false] at hv
    rcases hv with rfl | rfl <;> trivial
  · refine ⟨⟨by decide, trivial⟩, ⟨by decide, by decide, by decide⟩,
      by decide, trivial, fun v hv => ?_⟩
    simp only [List.mem_cons, List.not_mem_nil, or_false] at hv
    rcases hv with rfl | rfl
    · exact (by decide : String.ofList wordAdvert.text ∉ inherited)
    · trivial

def comparedText : Except String (Option (Ast Int)) → Option String
  | .ok (some (.comparison _ _ (.str s))) => some s
  | _ => none

def quoteFilter : Filter := .compare fieldSnr .eq (.quoted "\"")

/-- A text that is no date, a sign before the second value, and a quote in a string. -/
theorem parse_print_fails :
    (parse ints (· == "2026-01-01") (Filter.compare fieldTime .after (.quoted "soon")).print).toBool = false ∧
      (parse ints (· == "2026-01-01")
        (Filter.between fieldSnr (.number (numeral5 false)) (.number (numeral5 true))).print).toBool = false ∧
      parse ints (· == "2026-01-01") quoteFilter.print ≠ .ok (some (quoteFilter.ast ints)) := by
  refine ⟨by decide +kernel, by decide +kernel, fun h => ?_⟩
  have hparsed : comparedText (parse ints (· == "2026-01-01") quoteFilter.print) = some "\\\"" := by decide +kernel
  rw [h] at hparsed
  exact absurd hparsed (by decide)

end MeshcoreAnalyzer.PacketFilter

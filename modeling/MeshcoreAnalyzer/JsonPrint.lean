import MeshcoreAnalyzer.JsonText
import Mathlib.Data.List.DropRight

namespace MeshcoreAnalyzer.Json

def hexChar (d : Nat) : Char := if d < 10 then Char.ofNat (48 + d) else Char.ofNat (87 + d)

def unicodeText (c : Char) : List Char :=
  let n := c.toNat
  ['\\', 'u', hexChar (n / 4096), hexChar (n / 256 % 16), hexChar (n / 16 % 16), hexChar (n % 16)]

def letters : List (Char × Char) :=
  [('"', '"'), ('\\', '\\'), (Char.ofNat 8, 'b'), (Char.ofNat 12, 'f'), ('\n', 'n'), ('\r', 'r'), ('\t', 't')]

def numbered (c : Char) : Bool :=
  c.toNat < 0x20 || c = '<' || c = '>' || c = '&' || c.toNat = 0x2028 || c.toNat = 0x2029

def escapeChar (c : Char) : List Char :=
  match letters.lookup c with
  | some e => ['\\', e]
  | none => if numbered c then unicodeText c else [c]

def stringText (s : String) : List Char := quoted (s.toList.flatMap escapeChar)

def newline (depth : Nat) : List Char := '\n' :: List.replicate (2 * depth) ' '

mutual

def indented (depth : Nat) : Value → List Char
  | .null => ['n', 'u', 'l', 'l']
  | .bool true => ['t', 'r', 'u', 'e']
  | .bool false => ['f', 'a', 'l', 's', 'e']
  | .num text => text.toList
  | .str s => stringText s
  | .arr [] => ['[', ']']
  | .arr (x :: xs) =>
      '[' :: (newline (depth + 1) ++ indented (depth + 1) x ++ moreElements (depth + 1) xs ++ newline depth ++ [']'])
  | .obj [] => ['\x7b', '\x7d']
  | .obj (m :: ms) =>
      '\x7b' :: (newline (depth + 1) ++ indentedMember (depth + 1) m ++ moreMembers (depth + 1) ms ++ newline depth ++
        ['\x7d'])

def indentedMember (depth : Nat) : String × Value → List Char
  | (key, v) => stringText key ++ ':' :: ' ' :: indented depth v

def moreElements (depth : Nat) : List Value → List Char
  | [] => []
  | x :: xs => ',' :: (newline depth ++ indented depth x ++ moreElements depth xs)

def moreMembers (depth : Nat) : List (String × Value) → List Char
  | [] => []
  | m :: ms => ',' :: (newline depth ++ indentedMember depth m ++ moreMembers depth ms)

end

def marshalIndent (v : Value) : String := String.ofList (indented 0 v)

theorem hexValue_hexChar : ∀ d < 16, hexValue (hexChar d) = some d := by decide

theorem hex4_digits {n : Nat} (h : n < 65536) (rest : List Char) :
    hex4 (hexChar (n / 4096) :: hexChar (n / 256 % 16) :: hexChar (n / 16 % 16) :: hexChar (n % 16) :: rest) =
      some (n, rest) := by
  have h1 := hexValue_hexChar (n / 4096) (by omega)
  have h2 := hexValue_hexChar (n / 256 % 16) (by omega)
  have h3 := hexValue_hexChar (n / 16 % 16) (by omega)
  have h4 := hexValue_hexChar (n % 16) (by omega)
  have hsum : n / 4096 * 4096 + n / 256 % 16 * 256 + n / 16 % 16 * 16 + n % 16 = n := by omega
  simp [hex4, h1, h2, h3, h4, hsum]

theorem escapedRune_toNat {c : Char} (h : c.toNat < 0xD800) (rest : List Char) :
    escapedRune c.toNat rest = (c, rest) := by
  have hhigh : isHighSurrogate c.toNat = false := by simp [isHighSurrogate, Nat.not_le.mpr h]
  have hlow : isLowSurrogate c.toNat = false := by
    rw [isLowSurrogate, Bool.and_eq_false_iff]
    exact .inl (decide_eq_false (by omega))
  simp [escapedRune, hhigh, hlow, Char.ofNat_toNat]

theorem parseString_unicodeText {c : Char} (h : c.toNat < 0xD800) (fuel : Nat) (rest : List Char) :
    parseString (fuel + 1) (unicodeText c ++ rest) = (parseString fuel rest).map fun p => (c :: p.1, p.2) := by
  change parseString (fuel + 1) ('\\' :: 'u' :: _) = _
  rw [parseString]
  refine (congrArg (Option.bind · _) (hex4_digits (by omega) rest)).trans ?_
  simp only [Option.bind_some, escapedRune_toNat h]
  cases parseString fuel rest <;> rfl

theorem parseString_letter {c e : Char} (h : (c, e) ∈ letters) (fuel : Nat) (rest : List Char) :
    parseString (fuel + 1) ('\\' :: e :: rest) = (parseString fuel rest).map fun p => (c :: p.1, p.2) := by
  simp only [letters, List.mem_cons, Prod.mk.injEq, List.not_mem_nil, or_false] at h
  rcases h with ⟨rfl, rfl⟩ | ⟨rfl, rfl⟩ | ⟨rfl, rfl⟩ | ⟨rfl, rfl⟩ | ⟨rfl, rfl⟩ | ⟨rfl, rfl⟩ | ⟨rfl, rfl⟩ <;>
    simp [parseString] <;> cases parseString fuel rest <;> rfl

theorem plain_of_not_numbered {c : Char} (hletter : letters.lookup c = none) (hnumber : numbered c = false) :
    Plain c := by
  have hquote : c ≠ '"' := by
    rintro rfl
    exact absurd hletter (by decide)
  have hslash : c ≠ '\\' := by
    rintro rfl
    exact absurd hletter (by decide)
  simp only [numbered, Bool.or_eq_false_iff, decide_eq_false_iff_not] at hnumber
  exact ⟨Nat.not_lt.mp hnumber.1.1.1.1.1, hquote, hslash⟩

theorem toNat_lt_of_numbered {c : Char} (h : numbered c = true) : c.toNat < 0xD800 := by
  simp only [numbered, Bool.or_eq_true, decide_eq_true_eq] at h
  rcases h with ((((h | rfl) | rfl) | rfl) | h) | h
  · omega
  · decide
  · decide
  · decide
  · omega
  · omega

theorem parseString_escapeChar (c : Char) (fuel : Nat) (rest : List Char) :
    parseString (fuel + 1) (escapeChar c ++ rest) = (parseString fuel rest).map fun p => (c :: p.1, p.2) := by
  rw [escapeChar]
  cases hletter : letters.lookup c with
  | some e =>
      obtain ⟨before, after, hletters, _⟩ := List.lookup_eq_some_iff.mp hletter
      have hmem : (c, e) ∈ letters := by simp [hletters]
      exact parseString_letter hmem fuel rest
  | none =>
      cases hnumber : numbered c with
      | true => exact parseString_unicodeText (toNat_lt_of_numbered hnumber) fuel rest
      | false => exact parseString_cons (plain_of_not_numbered hletter hnumber) fuel rest

theorem parseString_escaped (cs rest : List Char) {fuel : Nat} (h : cs.length < fuel) :
    parseString fuel (cs.flatMap escapeChar ++ '"' :: rest) = some (cs, rest) := by
  induction cs generalizing fuel with
  | nil =>
      obtain ⟨fuel, rfl⟩ := Nat.exists_eq_succ_of_ne_zero (Nat.ne_zero_of_lt h)
      rfl
  | cons c cs ih =>
      obtain ⟨fuel, rfl⟩ := Nat.exists_eq_succ_of_ne_zero (Nat.ne_zero_of_lt h)
      rw [List.flatMap_cons, List.append_assoc, Nat.succ_eq_add_one, parseString_escapeChar,
        ih (Nat.lt_of_succ_lt_succ h)]
      rfl

theorem length_le_escaped (cs : List Char) : cs.length ≤ (cs.flatMap escapeChar).length := by
  induction cs with
  | nil => exact Nat.zero_le _
  | cons c cs ih =>
      have hone : 1 ≤ (escapeChar c).length := by
        rw [escapeChar]
        split
        · simp
        · split <;> simp [unicodeText]
      rw [List.flatMap_cons, List.length_append, List.length_cons]
      omega

theorem parseString_stringText (s : String) (rest : List Char) :
    parseString ((s.toList.flatMap escapeChar ++ '"' :: rest).length + 1) (s.toList.flatMap escapeChar ++ '"' :: rest) =
      some (s.toList, rest) := by
  have hlength := length_le_escaped s.toList
  apply parseString_escaped
  rw [List.length_append]
  omega

def Ends (rest : List Char) : Prop := ∀ c ∈ rest.head?, c = ',' ∨ c = '\n'

theorem ends_nil : Ends [] := by simp [Ends]

theorem ends_newline (depth : Nat) (rest : List Char) : Ends (newline depth ++ rest) := by simp [Ends, newline]

structure Numeral (text : String) : Prop where
  head : ∃ c cs, text.toList = c :: cs ∧ (c = '-' ∨ c.isDigit = true)
  parsed : ∀ rest, Ends rest → parseNumber (text.toList ++ rest) = some rest

theorem skipDigits_append {cs : List Char} (h : ∀ c ∈ cs, c.isDigit = true) {rest : List Char} (hrest : Ends rest) :
    skipDigits (cs ++ rest) = rest := by
  rw [skipDigits, List.dropWhile_append_of_pos h]
  cases rest with
  | nil => rfl
  | cons c rest =>
      rcases hrest c rfl with rfl | rfl <;> rfl

theorem parseNumber_digits {c : Char} {cs : List Char} (h : ∀ d ∈ c :: cs, d.isDigit = true) (hzero : c = '0' → cs = [])
    {rest : List Char} (hrest : Ends rest) : parseNumber (c :: cs ++ rest) = some rest := by
  have hdigit := h c List.mem_cons_self
  have hminus : c ≠ '-' := by
    rintro rfl
    exact absurd hdigit (by decide)
  have htail : parseFraction rest = some rest ∧ parseExponent rest = some rest := by
    cases rest with
    | nil => exact ⟨rfl, rfl⟩
    | cons d rest =>
        rcases hrest d rfl with rfl | rfl <;> exact ⟨rfl, rfl⟩
  have hskip := skipDigits_append (fun d hd => h d (List.mem_cons_of_mem c hd)) hrest
  by_cases hc : c = '0'
  · subst hc
    rw [hzero rfl]
    simp [parseNumber, htail]
  · simp [parseNumber, hminus, hc, digits1, hdigit, hskip, htail]

theorem head_toDigits {n : Nat} {c : Char} {cs : List Char} (h : Nat.toDigits 10 n = c :: cs) (hc : c = '0') :
    cs = [] := by
  induction n using Nat.strongRecOn generalizing cs with
  | ind n ih =>
      by_cases hn : n < 10
      · rw [Nat.toDigits_of_lt_base hn] at h
        exact (List.cons.inj h).2.symm
      · rw [Nat.toDigits_of_base_le (by omega) (by omega)] at h
        cases hq : Nat.toDigits 10 (n / 10) with
        | nil => exact absurd hq Nat.toDigits_ne_nil
        | cons d ds =>
            rw [hq] at h
            obtain ⟨rfl, _⟩ := List.cons.inj h
            have hds := ih (n / 10) (by omega) hq
            subst hds
            have hzero : n / 10 = 0 := by
              rw [← Nat.ofDigitChars_ten_toDigits (n := n / 10), hq, hc]
              rfl
            omega

theorem numeral_repr (n : Nat) : Numeral n.repr := by
  have htext : n.repr.toList = Nat.toDigits 10 n := Nat.toList_repr
  cases hdigits : Nat.toDigits 10 n with
  | nil => exact absurd hdigits Nat.toDigits_ne_nil
  | cons c cs =>
      have hall : ∀ d ∈ c :: cs, d.isDigit = true := by
        rw [← hdigits]
        intro d hd
        exact Nat.isDigit_of_mem_toDigits (by decide) (by decide) hd
      refine ⟨⟨c, cs, htext.trans hdigits, .inr (hall c List.mem_cons_self)⟩, fun rest hrest => ?_⟩
      rw [htext, hdigits]
      exact parseNumber_digits hall (head_toDigits hdigits) hrest

mutual

def Numbered : Value → Prop
  | .num text => Numeral text
  | .arr xs => NumberedElements xs
  | .obj ms => NumberedMembers ms
  | _ => True

def NumberedElements : List Value → Prop
  | [] => True
  | x :: xs => Numbered x ∧ NumberedElements xs

def NumberedMembers : List (String × Value) → Prop
  | [] => True
  | m :: ms => NumberedMember m ∧ NumberedMembers ms

def NumberedMember : String × Value → Prop
  | (_, v) => Numbered v

end

mutual

def calls : Value → Nat
  | .arr xs => 1 + callsElements xs
  | .obj ms => 1 + callsMembers ms
  | _ => 1

def callsElements : List Value → Nat
  | [] => 0
  | x :: xs => 1 + calls x + callsElements xs

def callsMembers : List (String × Value) → Nat
  | [] => 0
  | m :: ms => 1 + callsMember m + callsMembers ms

def callsMember : String × Value → Nat
  | (_, v) => calls v

end

theorem skipSpace_newline (depth : Nat) (rest : List Char) : skipSpace (newline depth ++ rest) = skipSpace rest := by
  have hblank : ∀ c ∈ newline depth, isSpace c = true := by
    intro c hc
    simp only [newline, List.mem_cons, List.mem_replicate] at hc
    rcases hc with rfl | ⟨_, rfl⟩ <;> rfl
  exact List.dropWhile_append_of_pos hblank

theorem skipSpace_skipSpace (s : List Char) : skipSpace (skipSpace s) = skipSpace s :=
  List.dropWhile_idempotent isSpace s

theorem parseValue_skipSpace (fuel : Nat) (s : List Char) : parseValue fuel (skipSpace s) = parseValue fuel s := by
  cases fuel with
  | zero => rfl
  | succ fuel => rw [parseValue, parseValue, skipSpace_skipSpace]

theorem isSpace_of_numeral {c : Char} (h : c = '-' ∨ c.isDigit = true) : isSpace c = false := by
  rcases h with rfl | h
  · rfl
  · cases hspace : isSpace c with
    | false => rfl
    | true =>
        simp only [isSpace, Bool.or_eq_true, beq_iff_eq] at hspace
        rcases hspace with ((rfl | rfl) | rfl) | rfl <;> exact absurd h (by decide)

theorem parseValue_num {text : String} (h : Numeral text) (fuel : Nat) {rest : List Char} (hrest : Ends rest) :
    parseValue (fuel + 1) (text.toList ++ rest) = some (.num text, rest) := by
  obtain ⟨c, cs, htext, hc⟩ := h.head
  have hne : ∀ d : Char, d ≠ '-' → d.isDigit = false → c ≠ d := by
    rintro d hminus hdigit rfl
    rcases hc with hc | hc
    · exact hminus hc
    · rw [hdigit] at hc
      cases hc
  have htaken : (text.toList ++ rest).take ((text.toList ++ rest).length - rest.length) = text.toList := by
    simp
  have hvalue : (parseNumber (text.toList ++ rest)).map (fun after =>
      let taken := (text.toList ++ rest).take ((text.toList ++ rest).length - after.length)
      (Value.num (String.ofList taken), after)) = some (.num text, rest) := by
    simp only [h.parsed rest hrest, Option.map_some, htaken, String.ofList_toList]
  rw [parseValue, htext, List.cons_append, skipSpace_cons (isSpace_of_numeral hc)]
  rw [htext, List.cons_append] at hvalue
  split
  · next heq => exact absurd (List.cons.inj heq).1 (hne 'n' (by decide) (by decide))
  · next heq => exact absurd (List.cons.inj heq).1 (hne 't' (by decide) (by decide))
  · next heq => exact absurd (List.cons.inj heq).1 (hne 'f' (by decide) (by decide))
  · next heq => exact absurd (List.cons.inj heq).1 (hne '"' (by decide) (by decide))
  · next heq => exact absurd (List.cons.inj heq).1 (hne '[' (by decide) (by decide))
  · next heq => exact absurd (List.cons.inj heq).1 (hne '\x7b' (by decide) (by decide))
  · exact hvalue

theorem parseValue_string (s : String) (fuel : Nat) (rest : List Char) :
    parseValue (fuel + 1) (stringText s ++ rest) = some (.str s, rest) := by
  have htext : stringText s ++ rest = '"' :: (s.toList.flatMap escapeChar ++ '"' :: rest) := by
    simp [stringText, quoted]
  rw [htext, parseValue, skipSpace_cons rfl]
  refine (congrArg (Option.map _) (parseString_stringText s rest)).trans ?_
  simp

theorem indented_eq_cons (depth : Nat) {v : Value} (hv : Numbered v) :
    ∃ c cs, indented depth v = c :: cs ∧ isSpace c = false ∧ c ≠ ']' := by
  cases v with
  | null => exact ⟨_, _, rfl, by decide⟩
  | bool b => cases b <;> exact ⟨_, _, rfl, by decide⟩
  | num text =>
      obtain ⟨c, cs, htext, hc⟩ := hv.head
      refine ⟨c, cs, htext, isSpace_of_numeral hc, ?_⟩
      rintro rfl
      exact absurd hc (by decide)
  | str s => exact ⟨_, _, rfl, by decide⟩
  | arr xs => cases xs <;> exact ⟨_, _, rfl, by decide⟩
  | obj ms => cases ms <;> exact ⟨_, _, rfl, by decide⟩

theorem parseElements_skipSpace (fuel : Nat) (s : List Char) :
    parseElements fuel (skipSpace s) = parseElements fuel s := by
  cases fuel with
  | zero => rfl
  | succ fuel => rw [parseElements, parseElements, parseValue_skipSpace]

theorem parseMembers_skipSpace (fuel : Nat) (s : List Char) :
    parseMembers fuel (skipSpace s) = parseMembers fuel s := by
  cases fuel with
  | zero => rfl
  | succ fuel => rw [parseMembers, parseMembers, skipSpace_skipSpace]

theorem parseValue_array {fuel : Nat} {inner rest : List Char} {xs : List Value}
    (h : ∀ s, skipSpace inner ≠ ']' :: s) (hxs : parseElements fuel inner = some (xs, rest)) :
    parseValue (fuel + 1) ('[' :: inner) = some (.arr xs, rest) := by
  rw [parseValue, skipSpace_cons rfl]
  simp only [parseElements_skipSpace, hxs, Option.map_some]

theorem parseValue_members {fuel : Nat} {inner rest : List Char} {ms : List (String × Value)}
    (h : ∀ s, skipSpace inner ≠ '\x7d' :: s) (hms : parseMembers fuel inner = some (ms, rest)) :
    parseValue (fuel + 1) ('\x7b' :: inner) = some (.obj ms, rest) := by
  rw [parseValue, skipSpace_cons rfl]
  simp only [parseMembers_skipSpace, hms, Option.map_some]

structure Reads (fuel : Nat) : Prop where
  value : ∀ v depth rest, Numbered v → Ends rest → calls v ≤ fuel →
    parseValue fuel (indented depth v ++ rest) = some (v, rest)
  elements : ∀ x xs depth outer rest, NumberedElements (x :: xs) → callsElements (x :: xs) ≤ fuel →
    parseElements fuel (newline depth ++ indented depth x ++ moreElements depth xs ++ newline outer ++ ']' :: rest) =
      some (x :: xs, rest)
  members : ∀ m ms depth outer rest, NumberedMembers (m :: ms) → callsMembers (m :: ms) ≤ fuel →
    parseMembers fuel
        (newline depth ++ indentedMember depth m ++ moreMembers depth ms ++ newline outer ++ '\x7d' :: rest) =
      some (m :: ms, rest)

theorem ends_moreElements (depth outer : Nat) (xs : List Value) (rest : List Char) :
    Ends (moreElements depth xs ++ newline outer ++ rest) := by
  cases xs with
  | nil => exact ends_newline outer rest
  | cons x xs =>
      rw [moreElements]
      simp [Ends]

theorem ends_moreMembers (depth outer : Nat) (ms : List (String × Value)) (rest : List Char) :
    Ends (moreMembers depth ms ++ newline outer ++ rest) := by
  cases ms with
  | nil => exact ends_newline outer rest
  | cons m ms =>
      rw [moreMembers]
      simp [Ends]

theorem Reads.elements_succ {fuel : Nat} (h : Reads fuel) (x : Value) (xs : List Value) (depth outer : Nat)
    (rest : List Char) (hx : NumberedElements (x :: xs)) (hfuel : callsElements (x :: xs) ≤ fuel + 1) :
    parseElements (fuel + 1)
        (newline depth ++ indented depth x ++ moreElements depth xs ++ newline outer ++ ']' :: rest) =
      some (x :: xs, rest) := by
  rw [callsElements] at hfuel
  have hfirst : parseValue fuel
      (newline depth ++ indented depth x ++ moreElements depth xs ++ newline outer ++ ']' :: rest) =
      some (x, moreElements depth xs ++ newline outer ++ ']' :: rest) := by
    rw [← parseValue_skipSpace]
    simp only [List.append_assoc]
    rw [skipSpace_newline, parseValue_skipSpace, ← List.append_assoc (moreElements depth xs)]
    exact h.value x depth _ hx.1 (ends_moreElements depth outer xs _) (by omega)
  rw [parseElements]
  refine (congrArg (Option.bind · _) hfirst).trans ?_
  rw [Option.bind_some]
  cases xs with
  | nil =>
      dsimp only [moreElements, List.nil_append]
      rw [skipSpace_newline, skipSpace_cons rfl]
      rfl
  | cons y ys =>
      have hmore := h.elements y ys depth outer rest hx.2 (by omega)
      dsimp only [moreElements, List.cons_append]
      rw [skipSpace_cons rfl]
      refine (congrArg (Option.bind · _) hmore).trans ?_
      rfl

theorem Reads.members_succ {fuel : Nat} (h : Reads fuel) (m : String × Value) (ms : List (String × Value))
    (depth outer : Nat) (rest : List Char) (hm : NumberedMembers (m :: ms))
    (hfuel : callsMembers (m :: ms) ≤ fuel + 1) :
    parseMembers (fuel + 1)
        (newline depth ++ indentedMember depth m ++ moreMembers depth ms ++ newline outer ++ '\x7d' :: rest) =
      some (m :: ms, rest) := by
  obtain ⟨key, v⟩ := m
  rw [callsMembers, callsMember] at hfuel
  have htext :
      newline depth ++ indentedMember depth (key, v) ++ moreMembers depth ms ++ newline outer ++ '\x7d' :: rest =
      newline depth ++ '"' :: (key.toList.flatMap escapeChar ++ '"' :: (':' :: ' ' ::
        (indented depth v ++ (moreMembers depth ms ++ newline outer ++ '\x7d' :: rest)))) := by
    simp [indentedMember, stringText, quoted]
  have hvalue : parseValue fuel
      (' ' :: (indented depth v ++ (moreMembers depth ms ++ newline outer ++ '\x7d' :: rest))) =
      some (v, moreMembers depth ms ++ newline outer ++ '\x7d' :: rest) := by
    rw [← parseValue_skipSpace]
    refine (parseValue_skipSpace fuel (indented depth v ++ _)).trans ?_
    exact h.value v depth _ hm.1 (ends_moreMembers depth outer ms _) (by omega)
  rw [htext, parseMembers, skipSpace_newline, skipSpace_cons rfl]
  refine (congrArg (Option.bind · _) (parseString_stringText key _)).trans ?_
  rw [Option.bind_some]
  dsimp only
  rw [skipSpace_cons rfl]
  refine (congrArg (Option.bind · _) hvalue).trans ?_
  rw [Option.bind_some, String.ofList_toList]
  cases ms with
  | nil =>
      dsimp only [moreMembers, List.nil_append]
      rw [skipSpace_newline, skipSpace_cons rfl]
      rfl
  | cons n ns =>
      have hmore := h.members n ns depth outer rest hm.2 (by omega)
      dsimp only [moreMembers, List.cons_append]
      rw [skipSpace_cons rfl]
      refine (congrArg (Option.bind · _) hmore).trans ?_
      rfl

theorem Reads.value_succ {fuel : Nat} (h : Reads fuel) (v : Value) (depth : Nat) (rest : List Char) (hv : Numbered v)
    (hrest : Ends rest) (hfuel : calls v ≤ fuel + 1) :
    parseValue (fuel + 1) (indented depth v ++ rest) = some (v, rest) := by
  cases v with
  | null => rfl
  | bool b => cases b <;> rfl
  | num text => exact parseValue_num hv fuel hrest
  | str s => exact parseValue_string s fuel rest
  | arr xs =>
      cases xs with
      | nil => rfl
      | cons x xs =>
          rw [calls] at hfuel
          have hmore := h.elements x xs (depth + 1) depth rest hv (by omega)
          obtain ⟨c, cs, hfirst, hspace, hclose⟩ := indented_eq_cons (depth + 1) hv.1
          have htext : indented depth (.arr (x :: xs)) ++ rest =
              '[' :: (newline (depth + 1) ++ indented (depth + 1) x ++ moreElements (depth + 1) xs ++ newline depth ++
                ']' :: rest) := by simp [indented]
          rw [htext]
          refine parseValue_array (fun s hs => ?_) hmore
          simp only [hfirst, List.append_assoc, List.cons_append] at hs
          rw [skipSpace_newline, skipSpace_cons hspace] at hs
          exact hclose (List.cons.inj hs).1
  | obj ms =>
      cases ms with
      | nil => rfl
      | cons m ms =>
          obtain ⟨key, v⟩ := m
          rw [calls] at hfuel
          have hmore := h.members (key, v) ms (depth + 1) depth rest hv (by omega)
          have htext : indented depth (.obj ((key, v) :: ms)) ++ rest =
              '\x7b' :: (newline (depth + 1) ++ indentedMember (depth + 1) (key, v) ++ moreMembers (depth + 1) ms ++
                newline depth ++ '\x7d' :: rest) := by simp [indented]
          rw [htext]
          refine parseValue_members (fun s hs => ?_) hmore
          simp only [indentedMember, stringText, quoted, List.append_assoc, List.cons_append] at hs
          rw [skipSpace_newline, skipSpace_cons rfl] at hs
          exact absurd (List.cons.inj hs).1 (by decide)

theorem reads (fuel : Nat) : Reads fuel := by
  induction fuel with
  | zero =>
      refine ⟨fun v _ _ _ _ hfuel => ?_, fun x xs _ _ _ _ hfuel => ?_, fun m ms _ _ _ _ hfuel => ?_⟩
      · cases v <;> simp [calls] at hfuel
      · simp [callsElements] at hfuel
      · simp [callsMembers] at hfuel
  | succ fuel ih => exact ⟨ih.value_succ, ih.elements_succ, ih.members_succ⟩

mutual

theorem calls_le (depth : Nat) : (v : Value) → calls v ≤ 2 * (indented depth v).length + 1
  | .null => by simp [calls]
  | .bool b => by simp [calls]
  | .num text => by simp [calls]
  | .str s => by simp [calls]
  | .arr [] => by simp [calls, callsElements]
  | .arr (x :: xs) => by
      have hx := calls_le (depth + 1) x
      have hxs := callsElements_le (depth + 1) xs
      simp only [calls, callsElements, indented, newline, List.length_cons, List.length_append, List.length_nil]
      omega
  | .obj [] => by simp [calls, callsMembers]
  | .obj (m :: ms) => by
      have hm := callsMember_le (depth + 1) m
      have hms := callsMembers_le (depth + 1) ms
      simp only [calls, callsMembers, indented, newline, List.length_cons, List.length_append, List.length_nil]
      omega

theorem callsElements_le (depth : Nat) : (xs : List Value) → callsElements xs ≤ 2 * (moreElements depth xs).length
  | [] => by simp [callsElements]
  | x :: xs => by
      have hx := calls_le depth x
      have hxs := callsElements_le depth xs
      simp only [callsElements, moreElements, newline, List.length_cons, List.length_append]
      omega

theorem callsMember_le (depth : Nat) : (m : String × Value) → callsMember m ≤ 2 * (indentedMember depth m).length
  | (_, v) => by
      have hv := calls_le depth v
      simp only [callsMember, indentedMember, List.length_cons, List.length_append]
      omega

theorem callsMembers_le (depth : Nat) :
    (ms : List (String × Value)) → callsMembers ms ≤ 2 * (moreMembers depth ms).length
  | [] => by simp [callsMembers]
  | m :: ms => by
      have hm := callsMember_le depth m
      have hms := callsMembers_le depth ms
      simp only [callsMembers, moreMembers, newline, List.length_cons, List.length_append]
      omega

end

theorem parse_marshalIndent {v : Value} (hv : Numbered v) : parse (marshalIndent v) = some v := by
  have hcalls := calls_le 0 v
  have hvalue := (reads (2 * (indented 0 v).length + 2)).value v 0 [] hv ends_nil (by omega)
  rw [List.append_nil] at hvalue
  rw [parse, marshalIndent, String.toList_ofList, String.length_ofList, hvalue]
  rfl

end MeshcoreAnalyzer.Json

import MeshcoreAnalyzer.Json

namespace MeshcoreAnalyzer.Json

/-- A character that stands for itself in a string. -/
def Plain (c : Char) : Prop := 0x20 ≤ c.toNat ∧ c ≠ '"' ∧ c ≠ '\\'

instance (c : Char) : Decidable (Plain c) := inferInstanceAs (Decidable (_ ∧ _ ∧ _))

def quoted (s : List Char) : List Char := '"' :: (s ++ ['"'])

def memberText (m : String × List Char) : List Char := quoted m.1.toList ++ ':' :: m.2

def membersText : List (String × List Char) → List Char
  | [] => []
  | [m] => memberText m
  | m :: ms => memberText m ++ ',' :: membersText ms

def objectText (ms : List (String × List Char)) : String :=
  String.ofList ('\x7b' :: (membersText ms ++ ['\x7d']))

theorem parseString_cons {c : Char} (h : Plain c) (fuel : Nat) (rest : List Char) :
    parseString (fuel + 1) (c :: rest) = (parseString fuel rest).map fun p => (c :: p.1, p.2) := by
  rw [parseString]
  · rw [if_neg (Nat.not_lt.mpr h.1)]
    cases parseString fuel rest <;> rfl
  · exact h.2.1
  · intro _ hc
    exact absurd hc h.2.2
  · intro _ _ hc
    exact absurd hc h.2.2

theorem parseString_plain {cs : List Char} (h : ∀ c ∈ cs, Plain c) (rest : List Char) {fuel : Nat}
    (hfuel : cs.length < fuel) : parseString fuel (cs ++ '"' :: rest) = some (cs, rest) := by
  induction cs generalizing fuel with
  | nil =>
      obtain ⟨fuel, rfl⟩ := Nat.exists_eq_succ_of_ne_zero (Nat.ne_zero_of_lt hfuel)
      rfl
  | cons c cs ih =>
      obtain ⟨fuel, rfl⟩ := Nat.exists_eq_succ_of_ne_zero (Nat.ne_zero_of_lt hfuel)
      have hrest := ih (fun d hd => h d (List.mem_cons_of_mem c hd)) (Nat.lt_of_succ_lt_succ hfuel)
      rw [List.cons_append, Nat.succ_eq_add_one, parseString_cons (h c List.mem_cons_self), hrest]
      rfl

def flat (ms : List (String × String)) : List (String × List Char) := ms.map fun m => (m.1, quoted m.2.toList)

def PlainMembers (ms : List (String × String)) : Prop :=
  ∀ m ∈ ms, (∀ c ∈ m.1.toList, Plain c) ∧ ∀ c ∈ m.2.toList, Plain c

theorem skipSpace_cons {c : Char} (h : isSpace c = false) (rest : List Char) : skipSpace (c :: rest) = c :: rest :=
  List.dropWhile_cons_of_neg (by simp [h])

theorem parseString_quoted {s : List Char} (h : ∀ c ∈ s, Plain c) (rest : List Char) :
    parseString ((s ++ '"' :: rest).length + 1) (s ++ '"' :: rest) = some (s, rest) := by
  apply parseString_plain h
  rw [List.length_append]
  omega

theorem parseValue_quoted {s : String} (h : ∀ c ∈ s.toList, Plain c) (rest : List Char) (fuel : Nat) :
    parseValue (fuel + 1) (quoted s.toList ++ rest) = some (.str s, rest) := by
  have htext : quoted s.toList ++ rest = '"' :: (s.toList ++ '"' :: rest) := by simp [quoted]
  rw [htext, parseValue, skipSpace_cons rfl]
  refine (congrArg (Option.map _) (parseString_quoted h rest)).trans ?_
  simp

def afterMember (fuel : Nat) (m : String × Value) (rest : List Char) : Option (List (String × Value) × List Char) :=
  match skipSpace rest with
  | ',' :: rest => (parseMembers fuel rest).map fun p => (m :: p.1, p.2)
  | '\x7d' :: rest => some ([m], rest)
  | _ => none

theorem parseMembers_member {k v : String} (hk : ∀ c ∈ k.toList, Plain c) (hv : ∀ c ∈ v.toList, Plain c)
    (rest : List Char) (fuel : Nat) :
    parseMembers (fuel + 2) (memberText (k, quoted v.toList) ++ rest) = afterMember (fuel + 1) (k, .str v) rest := by
  have htext : memberText (k, quoted v.toList) ++ rest =
      '"' :: (k.toList ++ '"' :: (':' :: (quoted v.toList ++ rest))) := by simp [memberText, quoted]
  rw [htext, parseMembers, skipSpace_cons rfl]
  refine (congrArg (Option.bind · _) (parseString_quoted hk _)).trans ?_
  rw [Option.bind_some]
  dsimp only
  rw [skipSpace_cons rfl]
  refine (congrArg (Option.bind · _) (parseValue_quoted hv rest fuel)).trans ?_
  rw [Option.bind_some, String.ofList_toList]
  rw [afterMember]
  dsimp only
  generalize skipSpace rest = after
  split
  · next _ rest' =>
      change (parseMembers (fuel + 1) rest').bind _ = (parseMembers (fuel + 1) rest').map _
      cases parseMembers (fuel + 1) rest' <;> rfl
  · rfl
  · next hcomma hbrace =>
      cases after with
      | nil => rfl
      | cons c after => simp

theorem parseMembers_flat {ms : List (String × String)} (hms : PlainMembers ms) (hne : ms ≠ []) (rest : List Char)
    {fuel : Nat} (hfuel : ms.length < fuel) :
    parseMembers fuel (membersText (flat ms) ++ '\x7d' :: rest) = some (ms.map fun m => (m.1, .str m.2), rest) := by
  induction ms generalizing fuel with
  | nil => exact absurd rfl hne
  | cons m ms ih =>
      obtain ⟨fuel, rfl⟩ : ∃ k, fuel = k + 2 := ⟨fuel - 2, by rw [List.length_cons] at hfuel; omega⟩
      obtain ⟨hk, hv⟩ := hms m List.mem_cons_self
      cases ms with
      | nil =>
          change parseMembers (fuel + 2) (memberText (m.1, quoted m.2.toList) ++ '\x7d' :: rest) = _
          rw [parseMembers_member hk hv, afterMember, skipSpace_cons rfl]
          rfl
      | cons m' ms =>
          have hrest := ih (fun x hx => hms x (List.mem_cons_of_mem m hx)) (List.cons_ne_nil m' ms)
            (Nat.lt_of_succ_lt_succ hfuel)
          have htext : membersText (flat (m :: m' :: ms)) ++ '\x7d' :: rest = memberText (m.1, quoted m.2.toList) ++
              ',' :: (membersText (flat (m' :: ms)) ++ '\x7d' :: rest) := by simp [flat, membersText]
          rw [htext, parseMembers_member hk hv, afterMember, skipSpace_cons rfl]
          refine (congrArg (Option.map _) hrest).trans ?_
          rfl

theorem length_le_membersText (ms : List (String × List Char)) : ms.length ≤ (membersText ms).length := by
  fun_induction membersText ms with
  | case1 => exact Nat.zero_le _
  | case2 m =>
      rw [memberText, List.length_append, List.length_cons, List.length_cons, List.length_nil]
      omega
  | case3 m ms hne ih =>
      rw [List.length_append, List.length_cons, List.length_cons]
      omega

theorem parseValue_object (fuel : Nat) (inner : List Char) :
    parseValue (fuel + 1) ('\x7b' :: '"' :: inner) =
      (parseMembers fuel ('"' :: inner)).map fun p => (Value.obj p.1, p.2) := by
  rw [parseValue, skipSpace_cons rfl]
  rfl

theorem membersText_eq_quote_cons {ms : List (String × String)} (hne : ms ≠ []) :
    ∃ inner, membersText (flat ms) = '"' :: inner := by
  match ms, hne with
  | [m], _ => exact ⟨_, rfl⟩
  | m :: m' :: ms, _ => exact ⟨_, rfl⟩

theorem unmarshalObject_flat {ms : List (String × String)} (hms : PlainMembers ms) (hne : ms ≠ []) :
    unmarshalObject (objectText (flat ms)) = some (ms.map fun m => (m.1, .str m.2)) := by
  have hlength : ms.length ≤ (membersText (flat ms)).length := by
    have h := length_le_membersText (flat ms)
    rwa [flat, List.length_map] at h
  have htext : (objectText (flat ms)).length = (membersText (flat ms)).length + 2 := by
    rw [objectText, String.length_ofList]
    simp
  have hvalue : parseValue (2 * (objectText (flat ms)).length + 2) (objectText (flat ms)).toList =
      some (.obj (ms.map fun m => (m.1, .str m.2)), []) := by
    obtain ⟨inner, hinner⟩ := membersText_eq_quote_cons hne
    rw [htext, objectText, String.toList_ofList, hinner, List.cons_append, parseValue_object, ← List.cons_append,
      ← hinner, parseMembers_flat hms hne [] (by omega)]
    rfl
  rw [unmarshalObject, parse]
  rw [hvalue]
  rfl

end MeshcoreAnalyzer.Json

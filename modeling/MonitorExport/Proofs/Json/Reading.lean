import MonitorExport.Json.Term
import MonitorExport.Proofs.Json.Numerals
import MonitorExport.Proofs.Json.Strings

/-!
# Documents read back

The text of a document without blanks is read as the term of the document: the same literals, strings, items and
members, in order. Only numbers are not given back as such, a number is whatever its text is read as.
-/

namespace MonitorExport.Json

variable {cs rest : List Char} {fuel : Nat}

namespace Term

mutual

/-- The term that the text of a document is read as. A float that is no number is written as null. -/
def ofJson : Json → Term
  | .null => .null
  | .bool flag => .bool flag
  | .int n => .number (.ofText (toString n))
  | .float x =>
    if Decimal.Layout.json.text x = "null" then .null else .number (.ofText (Decimal.Layout.json.text x))
  | .str s => .str (some s)
  | .arr items => .arr (ofItems items)
  | .obj members => .obj (ofMembers members)

def ofItems : List Json → List Term
  | [] => []
  | j :: rest => ofJson j :: ofItems rest

def ofMembers : List (String × Json) → List (Option String × Term)
  | [] => []
  | (key, j) :: rest => (some key, ofJson j) :: ofMembers rest

end

/-! ## Strings -/

/-- A character is no half of a surrogate pair. -/
theorem joinUnits_map_toNat (cs : List Char) : joinUnits (cs.map Char.toNat) = some cs := by
  induction cs with
  | nil => rfl
  | cons c cs ih =>
      have hc : ¬ (0xD800 ≤ c.toNat ∧ c.toNat < 0xE000) := by
        have hvalid := c.valid
        simp only [UInt32.isValidChar, Nat.isValidChar] at hvalid
        simp only [Char.toNat]
        omega
      cases cs with
      | nil => rw [List.map_cons, List.map_nil, joinUnits, if_neg hc, Char.ofNat_toNat]
      | cons d cs =>
          rw [List.map_cons, List.map_cons, joinUnits, if_neg (by omega), if_neg (by omega), ← List.map_cons, ih,
            Char.ofNat_toNat]
          rfl

theorem readString_append (s : String) (rest : List Char) :
    readString (s.toList.flatMap escaped ++ '"' :: rest) = some (some s, rest) := by
  rw [readString, readUnits_flatMap_escaped, Option.map_some]
  dsimp only
  rw [joinUnits_map_toNat, Option.map_some, String.ofList_toList]

/-! ## Values -/

theorem skip_cons {c : Char} (h : isSpace c = false) (tail : List Char) : skip (c :: tail) = c :: tail := by
  rw [skip, List.dropWhile_cons_of_neg (by simp [h])]

/-- Whether a value may begin with a character: it is no blank, and does not close an array. -/
def Opens (c : Char) : Prop := isSpace c = false ∧ c ≠ ']'

theorem opens_of_hasForm (h : Number.HasForm cs) :
    ∃ c tail, cs = c :: tail ∧ Opens c ∧ (c.isDigit = true ∨ c = '-') := by
  have hopens : ∀ c : Char, c.isDigit = true → Opens c := fun c hc => by
    have hne : ∀ d : Char, d.isDigit = false → c ≠ d := fun d hd => Number.ne_of_isDigit hc hd
    simp [Opens, isSpace, hne]
  rcases h with h | ⟨ds, _, rfl⟩
  · obtain ⟨c, tail, rfl, hc⟩ := h.head
    exact ⟨c, tail, rfl, hopens c hc, .inl hc⟩
  · exact ⟨'-', ds, rfl, ⟨by decide, by decide⟩, .inr rfl⟩

theorem ne_null_of_hasForm {s : String} (h : Number.HasForm s.toList) : s ≠ "null" := by
  rintro rfl
  obtain ⟨c, tail, hcs, _, hc⟩ := opens_of_hasForm h
  cases hcs
  revert hc
  decide

theorem exists_opens (j : Json) : ∃ c tail, characters j = c :: tail ∧ Opens c := by
  have hnumber : ∀ {cs : List Char}, Number.HasForm cs → ∃ c tail, cs = c :: tail ∧ Opens c := fun h => by
    obtain ⟨c, tail, hcs, hc, _⟩ := opens_of_hasForm h
    exact ⟨c, tail, hcs, hc⟩
  cases j with
  | null => exact ⟨'n', _, rfl, by decide, by decide⟩
  | bool flag =>
      cases flag
      · exact ⟨'f', _, rfl, by decide, by decide⟩
      · exact ⟨'t', _, rfl, by decide, by decide⟩
  | int n => exact hnumber (Number.hasForm_int n)
  | float x =>
      rcases Number.hasForm_float x with h | h
      · exact hnumber h
      · exact ⟨'n', _, congrArg String.toList h, by decide, by decide⟩
  | str s => exact ⟨'"', _, rfl, by decide, by decide⟩
  | arr items => exact ⟨'[', _, by rw [characters]; rfl, by decide, by decide⟩
  | obj members => exact ⟨'\x7b', _, by rw [characters]; rfl, by decide, by decide⟩

theorem readValue_number (h : Number.HasForm cs) (hr : Number.Ends rest) :
    readValue (fuel + 1) (cs ++ rest) = some (.number (.ofText (String.ofList cs)), rest) := by
  obtain ⟨n, hn⟩ := Number.read_append h
  have hall : Number.read cs = some (n, []) := by
    simpa using hn [] (by simp [Number.Ends])
  obtain ⟨c, tail, rfl, ⟨hspace, _⟩, hc⟩ := opens_of_hasForm h
  have hnone : ∀ d : Char, d.isDigit = false → d ≠ '-' → c ≠ d := fun d hd hminus h => by
    subst h
    exact hc.elim (fun hc => by rw [hd] at hc; cases hc) hminus
  rw [Number.ofText, String.toList_ofList, hall, List.cons_append, readValue, skip_cons hspace]
  split
  case h_7 => rw [← List.cons_append, hn rest hr]; rfl
  all_goals
    next heq => exact absurd (List.cons.inj heq).1 (hnone _ rfl (by decide))

theorem readValue_quote (cs : List Char) :
    readValue (fuel + 1) ('"' :: cs) = (readString cs).map fun read => (.str read.1, read.2) := rfl

theorem readValue_bracket {c : Char} (hc : Opens c) (cs : List Char) :
    readValue (fuel + 1) ('[' :: c :: cs) = (readItems fuel (c :: cs)).map fun read => (.arr read.1, read.2) := by
  rw [readValue, skip_cons rfl]
  split
  case h_5 heq =>
    cases heq
    rw [skip_cons hc.1]
    split
    · next heq => exact absurd (List.cons.inj heq).1 hc.2
    · rfl
  case h_7 hnot _ => exact absurd rfl (hnot _)
  all_goals
    next heq => cases heq

theorem readValue_brace (cs : List Char) :
    readValue (fuel + 1) ('\x7b' :: '"' :: cs) =
      (readMembers fuel ('"' :: cs)).map fun read => (.obj read.1, read.2) := rfl

theorem itemCharacters_opens (j : Json) (items : List Json) :
    ∃ c tail, itemCharacters (j :: items) = c :: tail ∧ Opens c := by
  obtain ⟨c, tail, hj, hc⟩ := exists_opens j
  cases items with
  | nil => exact ⟨c, tail, by rw [itemCharacters, hj], hc⟩
  | cons k items =>
      refine ⟨c, tail ++ ',' :: itemCharacters (k :: items), ?_, hc⟩
      rw [itemCharacters, hj, List.cons_append]
      exact List.cons_ne_nil k items

theorem memberCharacters_quotes (m : String × Json) (members : List (String × Json)) :
    ∃ tail, memberCharacters (m :: members) = '"' :: tail := by
  cases members with
  | nil => exact ⟨_, rfl⟩
  | cons n members => exact ⟨_, rfl⟩

theorem ends_cons {c : Char} (hc : c ∈ [',', ']', '\x7d']) (rest : List Char) : Number.Ends (c :: rest) := by
  rintro d ⟨⟩
  exact hc

/-- A key is read with the value behind it. What follows is the end, or more members. -/
theorem readMembers_last {key : String} {value : Term} (hv : readValue fuel cs = some (value, '\x7d' :: rest)) :
    readMembers (fuel + 1) ('"' :: (key.toList.flatMap escaped ++ '"' :: ':' :: cs)) =
      some ([(some key, value)], rest) := by
  rw [readMembers, skip_cons rfl]
  split
  · next heq =>
    cases heq
    rw [readString_append]
    simp [skip, isSpace, hv]
  · next hnot => exact absurd rfl (hnot _)

theorem readMembers_next {key : String} {value : Term} (hv : readValue fuel cs = some (value, ',' :: rest)) :
    readMembers (fuel + 1) ('"' :: (key.toList.flatMap escaped ++ '"' :: ':' :: cs)) =
      (readMembers fuel rest).map fun read => ((some key, value) :: read.1, read.2) := by
  rw [readMembers, skip_cons rfl]
  split
  · next heq =>
    cases heq
    rw [readString_append]
    simp [skip, isSpace, hv]
  · next hnot => exact absurd rfl (hnot _)

-- every step reads a character, so the fuel lasts for a text that is shorter
mutual

/-- A value is read from its text, up to what cannot go on with it. -/
theorem readValue_characters : ∀ (j : Json) (fuel : Nat) (rest : List Char), (characters j).length < fuel →
    Number.Ends rest → readValue fuel (characters j ++ rest) = some (ofJson j, rest)
  | _, 0, _, h, _ => absurd h (Nat.not_lt_zero _)
  | .null, fuel + 1, rest, _, _ => rfl
  | .bool true, fuel + 1, rest, _, _ => rfl
  | .bool false, fuel + 1, rest, _, _ => rfl
  | .int n, fuel + 1, rest, _, hr => by
      have hcharacters : characters (.int n) = (toString n).toList := rfl
      rw [hcharacters, readValue_number (Number.hasForm_int n) hr, String.ofList_toList, ofJson]
  | .float x, fuel + 1, rest, _, hr => by
      have hcharacters : characters (.float x) = (Decimal.Layout.json.text x).toList := rfl
      rw [ofJson, hcharacters]
      rcases Number.hasForm_float x with h | h
      · rw [if_neg (ne_null_of_hasForm h), readValue_number h hr, String.ofList_toList]
      · rw [if_pos h, h]
        rfl
  | .str s, fuel + 1, rest, _, _ => by
      have hstring : characters (.str s) ++ rest = quote s ++ rest := rfl
      rw [hstring, quote_append, readValue_quote, readString_append]
      rfl
  | .arr [], fuel + 1, rest, _, _ => rfl
  | .arr (j :: items), fuel + 1, rest, h, _ => by
      obtain ⟨c, tail, hitems, hc⟩ := itemCharacters_opens j items
      have htext : characters (.arr (j :: items)) ++ rest = '[' :: (itemCharacters (j :: items) ++ ']' :: rest) := by
        simp [characters]
      have hfuel : (itemCharacters (j :: items)).length + 1 < fuel := by
        simp [characters] at h
        omega
      have hread := readItems_characters j items fuel rest hfuel
      rw [hitems, List.cons_append] at htext hread
      rw [htext, readValue_bracket hc, hread]
      rfl
  | .obj [], fuel + 1, rest, _, _ => rfl
  | .obj (m :: members), fuel + 1, rest, h, _ => by
      obtain ⟨tail, hmembers⟩ := memberCharacters_quotes m members
      have htext : characters (.obj (m :: members)) ++ rest =
          '\x7b' :: (memberCharacters (m :: members) ++ '\x7d' :: rest) := by
        simp [characters]
      have hfuel : (memberCharacters (m :: members)).length + 1 < fuel := by
        simp [characters] at h
        omega
      have hread := readMembers_characters m members fuel rest hfuel
      rw [hmembers, List.cons_append] at htext hread
      rw [htext, readValue_brace, hread]
      rfl

theorem readItems_characters : ∀ (j : Json) (items : List Json) (fuel : Nat) (rest : List Char),
    (itemCharacters (j :: items)).length + 1 < fuel →
    readItems fuel (itemCharacters (j :: items) ++ ']' :: rest) = some (ofItems (j :: items), rest)
  | _, _, 0, _, h => absurd h (Nat.not_lt_zero _)
  | j, [], fuel + 1, rest, h => by
      rw [itemCharacters] at h ⊢
      rw [readItems, readValue_characters j fuel _ (by omega) (ends_cons (by decide) rest)]
      rfl
  | j, k :: items, fuel + 1, rest, h => by
      have htext : itemCharacters (j :: k :: items) ++ ']' :: rest =
          characters j ++ ',' :: (itemCharacters (k :: items) ++ ']' :: rest) := by
        simp [itemCharacters]
      have hfuel : (characters j).length + (itemCharacters (k :: items)).length + 1 < fuel := by
        simp [itemCharacters] at h ⊢
        omega
      have hread := readItems_characters k items fuel rest (by omega)
      rw [htext, readItems, readValue_characters j fuel _ (by omega) (ends_cons (by decide) _)]
      exact congrArg (Option.map _) hread

theorem readMembers_characters : ∀ (m : String × Json) (members : List (String × Json)) (fuel : Nat)
    (rest : List Char), (memberCharacters (m :: members)).length + 1 < fuel →
    readMembers fuel (memberCharacters (m :: members) ++ '\x7d' :: rest) = some (ofMembers (m :: members), rest)
  | _, _, 0, _, h => absurd h (Nat.not_lt_zero _)
  | (key, j), [], fuel + 1, rest, h => by
      have htext : memberCharacters [(key, j)] ++ '\x7d' :: rest =
          '"' :: (key.toList.flatMap escaped ++ '"' :: ':' :: (characters j ++ '\x7d' :: rest)) := by
        simp [memberCharacters, quote]
      have hfuel : (characters j).length < fuel := by
        simp [memberCharacters] at h
        omega
      rw [htext, readMembers_last (readValue_characters j fuel _ hfuel (ends_cons (by decide) rest))]
      rfl
  | (key, j), m :: members, fuel + 1, rest, h => by
      have htext : memberCharacters ((key, j) :: m :: members) ++ '\x7d' :: rest =
          '"' :: (key.toList.flatMap escaped ++
            '"' :: ':' :: (characters j ++ ',' :: (memberCharacters (m :: members) ++ '\x7d' :: rest))) := by
        simp [memberCharacters, quote]
      have hfuel : (characters j).length + (memberCharacters (m :: members)).length + 1 < fuel := by
        simp [memberCharacters] at h ⊢
        omega
      have hread := readMembers_characters m members fuel rest (by omega)
      rw [htext, readMembers_next (readValue_characters j fuel _ (by omega) (ends_cons (by decide) _))]
      exact congrArg (Option.map _) hread

end

/-- The text of a document is read back. -/
theorem read?_compact (j : Json) : read? j.compact = some (ofJson j) := by
  have hends : Number.Ends [] := by simp [Number.Ends]
  have hread := readValue_characters j ((characters j).length + 1) [] (Nat.lt_succ_self _) hends
  rw [List.append_nil] at hread
  simp only [read?, compact, String.toList_ofList, hread]
  rfl

end Term

end MonitorExport.Json

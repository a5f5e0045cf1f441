import CacheCoherence.Proofs.Json.Strings
import CacheCoherence.Proofs.Tokens

/-!
# Written documents read back

The compact text of a document is read as that document, provided its numbers are spelled as
numbers; nothing is asked of its strings. The induction follows the printer: a document, the items
behind the first of an array and the fields behind the first of an object, each in front of a text
that cannot go on with what was written.
-/
namespace CacheCoherence.Json

/-- The text ends or goes on with a separator or a closing bracket. -/
def Delimited (cs : List Char) : Prop :=
  cs = [] ∨ ∃ c rest, cs = c :: rest ∧ (c = ',' ∨ c = ']' ∨ c = '}')

/-- A literal that is read as a number with this very spelling wherever a number may end. -/
def SpellsNumber (literal : String) : Prop :=
  ∀ rest, Delimited rest → numberLiteral? (literal.toList ++ rest) = some (literal, rest)

mutual
/-- Every number of a document is spelled as one. -/
def WellFormed : Json → Prop
  | number literal => SpellsNumber literal
  | array items => WellFormedItems items
  | object fields => WellFormedFields fields
  | _ => True

def WellFormedItems : List Json → Prop
  | [] => True
  | item :: rest => WellFormed item ∧ WellFormedItems rest

def WellFormedFields : List (Option String × Json) → Prop
  | [] => True
  | (_, value) :: rest => WellFormed value ∧ WellFormedFields rest
end

theorem wellFormedItems_iff (items : List Json) :
    WellFormedItems items ↔ ∀ item ∈ items, WellFormed item := by
  induction items with
  | nil => simp [WellFormedItems]
  | cons item rest ih => simp [WellFormedItems, ih]

theorem SpellsNumber.head {literal : String} (h : SpellsNumber literal) :
    ∃ c cs, literal.toList = c :: cs ∧ (c = '-' ∨ c.isDigit = true) := by
  have hread := h [] (.inl rfl)
  cases hl : literal.toList with
  | nil =>
    rw [hl] at hread
    simp [numberLiteral?, wholeDigits?] at hread
  | cons c cs =>
    refine ⟨c, cs, rfl, ?_⟩
    by_cases hsign : c = '-'
    · exact .inl hsign
    · cases hd : c.isDigit with
      | true => exact .inr rfl
      | false =>
        have hzero : c ≠ '0' := by
          rintro rfl
          cases hd
        rw [hl] at hread
        simp [numberLiteral?, wholeDigits?, hsign, hd] at hread

theorem numberHead_ne {c d : Char} (h : c = '-' ∨ c.isDigit = true) (hsign : d ≠ '-')
    (hdigit : d.isDigit = false) : c ≠ d := by
  rintro rfl
  rcases h with h | h
  · exact hsign h
  · rw [hdigit] at h
    cases h

/-- The first character of a written document is no blank and does not close an array. -/
theorem chars_head {j : Json} (h : j.WellFormed) :
    ∃ c rest, j.chars = c :: rest ∧ isBlank c = false ∧ c ≠ ']' := by
  cases j with
  | null => exact ⟨'n', _, by rw [chars], by decide, by decide⟩
  | bool value =>
    cases value with
    | true => exact ⟨'t', _, by rw [chars], by decide, by decide⟩
    | false => exact ⟨'f', _, by rw [chars], by decide, by decide⟩
  | number literal =>
    obtain ⟨c, cs, hl, hc⟩ := SpellsNumber.head h
    have hblank : isBlank c = false := by
      have hspace := numberHead_ne hc (d := ' ') (by decide) (by decide)
      have htab := numberHead_ne hc (d := '\t') (by decide) (by decide)
      have hfeed := numberHead_ne hc (d := '\n') (by decide) (by decide)
      have hreturn := numberHead_ne hc (d := '\r') (by decide) (by decide)
      simp [isBlank, hspace, htab, hfeed, hreturn]
    exact ⟨c, cs, by rw [chars, hl], hblank, numberHead_ne hc (by decide) (by decide)⟩
  | string s =>
    obtain ⟨body, hbody, -⟩ := stringLiteral?_quoteLiteral s []
    rw [List.append_nil] at hbody
    exact ⟨'"', body, by rw [chars, hbody], by decide, by decide⟩
  | array items =>
    cases items with
    | nil => exact ⟨'[', _, by rw [chars], by decide, by decide⟩
    | cons item items => exact ⟨'[', _, by rw [chars, List.cons_append], by decide, by decide⟩
  | object fields =>
    cases fields with
    | nil => exact ⟨'{', _, by rw [chars], by decide, by decide⟩
    | cons field fields =>
      exact ⟨'{', quoteLiteral field.1 ++ ':' :: field.2.chars ++ fieldsTail fields,
        by simp [chars], by decide, by decide⟩

theorem skipBlanks_chars {j : Json} (h : j.WellFormed) (rest : List Char) :
    skipBlanks (j.chars ++ rest) = j.chars ++ rest := by
  obtain ⟨c, cs, hchars, hblank, -⟩ := chars_head h
  rw [hchars, List.cons_append, skipBlanks_of_not_blank hblank]

theorem document?_number {literal : String} (h : SpellsNumber literal) {rest : List Char}
    (hrest : Delimited rest) (fuel : Nat) :
    document? (fuel + 1) (literal.toList ++ rest) = some (number literal, rest) := by
  have hblank := skipBlanks_chars (j := number literal) h rest
  obtain ⟨c, cs, hl, hc⟩ := h.head
  have hread := h rest hrest
  rw [chars] at hblank
  rw [hl, List.cons_append] at hblank hread ⊢
  rw [document?, hblank]
  simp [numberHead_ne hc (d := '"') (by decide) (by decide),
    numberHead_ne hc (d := '[') (by decide) (by decide),
    numberHead_ne hc (d := '{') (by decide) (by decide),
    numberHead_ne hc (d := 'n') (by decide) (by decide),
    numberHead_ne hc (d := 't') (by decide) (by decide),
    numberHead_ne hc (d := 'f') (by decide) (by decide), hread]

/-- The items of an array without the brackets around them, the closing one apart. -/
def itemsChars : List Json → List Char
  | [] => []
  | item :: rest => item.chars ++ itemsTail rest

/-- The fields of an object, without its opening brace. -/
def fieldsChars : List (Option String × Json) → List Char
  | [] => []
  | (name, value) :: rest => quoteLiteral name ++ ':' :: value.chars ++ fieldsTail rest

theorem itemsTail_cons (item : Json) (rest : List Json) :
    itemsTail (item :: rest) = ',' :: itemsChars (item :: rest) := by
  rw [itemsTail, itemsChars, List.cons_append]

theorem fieldsTail_cons (field : Option String × Json) (rest : List (Option String × Json)) :
    fieldsTail (field :: rest) = ',' :: fieldsChars (field :: rest) := by
  simp [fieldsTail, fieldsChars]

mutual
theorem document?_chars : ∀ (j : Json) (fuel : Nat) (rest : List Char), j.WellFormed →
    2 * j.chars.length ≤ fuel → Delimited rest → document? fuel (j.chars ++ rest) = some (j, rest)
  | .null, fuel, rest, _, hfuel, _ => by
    obtain ⟨fuel, rfl⟩ : ∃ n, fuel = n + 1 := ⟨fuel - 1, by simp [chars] at hfuel; omega⟩
    simp [chars, document?, skipBlanks_of_not_blank (c := 'n') (by decide)]
  | .bool true, fuel, rest, _, hfuel, _ => by
    obtain ⟨fuel, rfl⟩ : ∃ n, fuel = n + 1 := ⟨fuel - 1, by simp [chars] at hfuel; omega⟩
    simp [chars, document?, skipBlanks_of_not_blank (c := 't') (by decide)]
  | .bool false, fuel, rest, _, hfuel, _ => by
    obtain ⟨fuel, rfl⟩ : ∃ n, fuel = n + 1 := ⟨fuel - 1, by simp [chars] at hfuel; omega⟩
    simp [chars, document?, skipBlanks_of_not_blank (c := 'f') (by decide)]
  | .number literal, fuel, rest, h, hfuel, hrest => by
    obtain ⟨c, cs, hl, -⟩ := SpellsNumber.head h
    obtain ⟨fuel, rfl⟩ : ∃ n, fuel = n + 1 := ⟨fuel - 1, by simp [chars, hl] at hfuel; omega⟩
    rw [chars]
    exact document?_number h hrest fuel
  | .string s, fuel, rest, _, hfuel, _ => by
    obtain ⟨body, hbody, hread⟩ := stringLiteral?_quoteLiteral s rest
    obtain ⟨fuel, rfl⟩ : ∃ n, fuel = n + 1 := by
      refine ⟨fuel - 1, ?_⟩
      cases s <;> simp [chars, quoteLiteral, quote] at hfuel <;> omega
    rw [chars, hbody, document?, skipBlanks_of_not_blank (by decide)]
    simp [hread]
  | .array [], fuel, rest, _, hfuel, _ => by
    obtain ⟨fuel, rfl⟩ : ∃ n, fuel = n + 1 := ⟨fuel - 1, by simp [chars] at hfuel; omega⟩
    simp [chars, document?, skipBlanks_of_not_blank (c := '[') (by decide),
      skipBlanks_of_not_blank (c := ']') (by decide)]
  | .array (item :: items), fuel, rest, h, hfuel, _ => by
    have hchars : chars (.array (item :: items)) = '[' :: itemsChars (item :: items) := by
      rw [chars, itemsChars, List.cons_append]
    rw [hchars, List.length_cons] at hfuel
    obtain ⟨fuel, rfl⟩ : ∃ n, fuel = n + 1 := ⟨fuel - 1, by omega⟩
    have hread := items?_itemsChars (item :: items) fuel rest (by simp) h (by omega)
    have hfirst : WellFormed item := h.1
    obtain ⟨c, cs, hhead, hblank, hclose⟩ := chars_head hfirst
    rw [itemsChars, hhead, List.append_assoc, List.cons_append] at hread
    rw [hchars, itemsChars, hhead, List.cons_append, List.cons_append, List.cons_append, document?,
      skipBlanks_of_not_blank (c := '[') (by decide)]
    simp [skipBlanks_of_not_blank hblank, hclose, hread]
  | .object [], fuel, rest, _, hfuel, _ => by
    obtain ⟨fuel, rfl⟩ : ∃ n, fuel = n + 1 := ⟨fuel - 1, by simp [chars] at hfuel; omega⟩
    simp [chars, document?, skipBlanks_of_not_blank (c := '{') (by decide),
      skipBlanks_of_not_blank (c := '}') (by decide)]
  | .object (field :: fields), fuel, rest, h, hfuel, _ => by
    have hchars : chars (.object (field :: fields)) = '{' :: fieldsChars (field :: fields) := by
      simp [chars, fieldsChars]
    rw [hchars, List.length_cons] at hfuel
    obtain ⟨fuel, rfl⟩ : ∃ n, fuel = n + 1 := ⟨fuel - 1, by omega⟩
    have hread := fields?_fieldsChars (field :: fields) fuel rest (by simp) h (by omega)
    obtain ⟨body, hbody, -⟩ := stringLiteral?_quoteLiteral field.1
      (':' :: field.2.chars ++ fieldsTail fields ++ rest)
    have hhead : fieldsChars (field :: fields) ++ rest = '"' :: body := by
      rw [← hbody]
      simp [fieldsChars]
    rw [hhead] at hread
    rw [hchars, List.cons_append, hhead, document?, skipBlanks_of_not_blank (c := '{') (by decide)]
    simp [skipBlanks_of_not_blank (c := '"') (by decide), hread]

theorem items?_itemsChars : ∀ (items : List Json) (fuel : Nat) (rest : List Char), items ≠ [] →
    WellFormedItems items → 2 * (itemsChars items).length ≤ fuel →
    items? fuel (itemsChars items ++ rest) = some (items, rest)
  | [], _, _, hne, _, _ => absurd rfl hne
  | [item], fuel, rest, _, h, hfuel => by
    simp only [itemsChars, itemsTail, List.length_append, List.length_singleton] at hfuel
    obtain ⟨fuel, rfl⟩ : ∃ n, fuel = n + 1 := ⟨fuel - 1, by omega⟩
    have hitem := document?_chars item fuel (']' :: rest) h.1 (by omega)
      (.inr ⟨']', rest, rfl, by simp⟩)
    rw [itemsChars, itemsTail, List.append_assoc, List.singleton_append, items?, hitem]
    simp [skipBlanks_of_not_blank (c := ']') (by decide)]
  | item :: next :: items, fuel, rest, _, h, hfuel => by
    rw [itemsChars, itemsTail_cons] at hfuel ⊢
    simp only [List.length_append, List.length_cons] at hfuel
    obtain ⟨fuel, rfl⟩ : ∃ n, fuel = n + 1 := ⟨fuel - 1, by omega⟩
    have hitem := document?_chars item fuel (',' :: (itemsChars (next :: items) ++ rest)) h.1
      (by omega) (.inr ⟨',', _, rfl, by simp⟩)
    have hrest := items?_itemsChars (next :: items) fuel rest (by simp) h.2 (by omega)
    rw [List.append_assoc, List.cons_append, items?, hitem]
    simp [skipBlanks_of_not_blank (c := ',') (by decide), hrest]

theorem fields?_fieldsChars : ∀ (fields : List (Option String × Json)) (fuel : Nat)
    (rest : List Char), fields ≠ [] → WellFormedFields fields →
    2 * (fieldsChars fields).length ≤ fuel →
    fields? fuel (fieldsChars fields ++ rest) = some (fields, rest)
  | [], _, _, hne, _, _ => absurd rfl hne
  | [(name, value)], fuel, rest, _, h, hfuel => by
    simp only [fieldsChars, fieldsTail, List.length_append, List.length_cons,
      List.length_nil] at hfuel
    obtain ⟨fuel, rfl⟩ : ∃ n, fuel = n + 1 := ⟨fuel - 1, by omega⟩
    have hvalue := document?_chars value fuel ('}' :: rest) h.1 (by omega)
      (.inr ⟨'}', rest, rfl, by simp⟩)
    obtain ⟨body, hbody, hname⟩ :=
      stringLiteral?_quoteLiteral name (':' :: (value.chars ++ '}' :: rest))
    have hhead : fieldsChars [(name, value)] ++ rest = '"' :: body := by
      rw [← hbody]
      simp [fieldsChars, fieldsTail]
    rw [hhead, fields?, skipBlanks_of_not_blank (by decide)]
    simp [hname, skipBlanks_of_not_blank (c := ':') (by decide),
      skipBlanks_of_not_blank (c := '}') (by decide), hvalue]
  | (name, value) :: next :: fields, fuel, rest, _, h, hfuel => by
    rw [fieldsChars, fieldsTail_cons] at hfuel
    simp only [List.length_append, List.length_cons] at hfuel
    obtain ⟨fuel, rfl⟩ : ∃ n, fuel = n + 1 := ⟨fuel - 1, by omega⟩
    have hvalue := document?_chars value fuel (',' :: (fieldsChars (next :: fields) ++ rest)) h.1
      (by omega) (.inr ⟨',', _, rfl, by simp⟩)
    have hrest := fields?_fieldsChars (next :: fields) fuel rest (by simp) h.2 (by omega)
    obtain ⟨body, hbody, hname⟩ := stringLiteral?_quoteLiteral name
      (':' :: (value.chars ++ ',' :: (fieldsChars (next :: fields) ++ rest)))
    have hhead : fieldsChars ((name, value) :: next :: fields) ++ rest = '"' :: body := by
      rw [← hbody, fieldsChars, fieldsTail_cons]
      simp
    rw [hhead, fields?, skipBlanks_of_not_blank (by decide)]
    simp [hname, skipBlanks_of_not_blank (c := ':') (by decide),
      skipBlanks_of_not_blank (c := ',') (by decide), hvalue, hrest]
end

/-- A document whose numbers are spelled as numbers reads back from its compact text. -/
theorem parse?_compact {j : Json} (h : j.WellFormed) : parse? j.compact = some j := by
  have hread := document?_chars j (2 * j.chars.length + 2) [] h (by omega) (.inl rfl)
  rw [List.append_nil] at hread
  rw [parse?, compact, String.toList_ofList, hread]
  rfl

end CacheCoherence.Json

import CacheCoherence.Json.Parser
import CacheCoherence.Json.Printer

/-!
# String literals read back

Every character is escaped in a way that the reader undoes, so a written string reads back as
itself whatever characters it holds. The literal that denotes no text reads back as that, too.
-/
namespace CacheCoherence.Json

theorem hexValue?_hexDigit : ∀ n < 16, hexValue? (hexDigit n) = some n := by decide

theorem stringUnits_escape (c : Char) (rest : List Char) :
    stringUnits (escape c ++ rest) =
      (stringUnits rest).map fun found => (c.toNat :: found.1, found.2) := by
  have hletter (letter : Char) (unit : Nat) (he : escaped? letter = some unit)
      (hu : letter ≠ 'u') :
      stringUnits ('\\' :: letter :: rest) =
        (stringUnits rest).map fun found => (unit :: found.1, found.2) := by
    rw [stringUnits, he]
    · cases stringUnits rest <;> rfl
    · intro a b d e tail h
      exact absurd h hu
  unfold escape
  split
  · subst c
    exact hletter '"' _ (by decide) (by decide)
  split
  · subst c
    exact hletter '\\' _ (by decide) (by decide)
  split
  · subst c
    exact hletter 'b' _ (by decide) (by decide)
  split
  · subst c
    exact hletter 'f' _ (by decide) (by decide)
  split
  · subst c
    exact hletter 'n' _ (by decide) (by decide)
  split
  · subst c
    exact hletter 'r' _ (by decide) (by decide)
  split
  · subst c
    exact hletter 't' _ (by decide) (by decide)
  split
  · rename_i hcontrol
    have hhigh := hexValue?_hexDigit (c.toNat / 16) (by omega)
    have hlow := hexValue?_hexDigit (c.toNat % 16) (by omega)
    have hzero : hexValue? '0' = some 0 := by decide
    have hunit : hexValue4? '0' '0' (hexDigit (c.toNat / 16)) (hexDigit (c.toNat % 16)) =
        some c.toNat := by
      simp only [hexValue4?, hzero, hhigh, hlow, Option.bind_eq_bind, Option.bind_some,
        Option.pure_def, Option.some.injEq]
      omega
    simp only [List.cons_append, List.nil_append]
    rw [stringUnits, hunit]
    cases stringUnits rest <;> rfl
  · rename_i hquote hbackslash _ _ _ _ _ hplain
    have hsafe : ¬ (c = '\\' ∨ c.toNat < 0x20) := by
      rintro (h | h)
      · exact hbackslash h
      · exact hplain h
    rw [List.singleton_append, stringUnits]
    · rw [if_neg hsafe]
      cases stringUnits rest <;> rfl
    · exact fun h => hquote h
    · intro a b d e tail h
      exact absurd h hbackslash
    · intro d tail h
      exact absurd h hbackslash

theorem stringUnits_flatMap_escape (cs rest : List Char) :
    stringUnits (cs.flatMap escape ++ '"' :: rest) = some (cs.map Char.toNat, rest) := by
  induction cs with
  | nil => simp [stringUnits]
  | cons c cs ih =>
    rw [List.flatMap_cons, List.append_assoc, stringUnits_escape, ih]
    rfl

theorem textOfUnits_cons (c : Char) (units : List Nat) :
    textOfUnits (c.toNat :: units) = (textOfUnits units).map (c :: ·) := by
  have hvalid : c.toNat.isValidChar := c.valid
  have hchar (h : c.toNat.isValidChar) : Char.ofNatAux c.toNat h = c := by
    have hofNat := Char.ofNat_toNat c
    rwa [Char.ofNat, dif_pos h] at hofNat
  cases units with
  | nil =>
    change (if h : c.toNat.isValidChar then some [Char.ofNatAux c.toNat h] else none) = some [c]
    rw [dif_pos hvalid, hchar]
  | cons u rest =>
    change (if h : c.toNat.isValidChar then
      (textOfUnits (u :: rest)).map (Char.ofNatAux c.toNat h :: ·) else _) = _
    rw [dif_pos hvalid, hchar]

/-- The code points of a text spell the text: none of them is a surrogate. -/
theorem textOfUnits_toNat (cs : List Char) : textOfUnits (cs.map Char.toNat) = some cs := by
  induction cs with
  | nil => rfl
  | cons c cs ih =>
    rw [List.map_cons, textOfUnits_cons, ih]
    rfl

theorem stringLiteral?_quoteLiteral (s : Option String) (rest : List Char) :
    ∃ body, quoteLiteral s ++ rest = '"' :: body ∧ stringLiteral? body = some (s, rest) := by
  cases s with
  | some s =>
    refine ⟨s.toList.flatMap escape ++ '"' :: rest, by simp [quoteLiteral, quote], ?_⟩
    simp [stringLiteral?, stringUnits_flatMap_escape, textOfUnits_toNat]
  | none =>
    refine ⟨'\\' :: 'u' :: 'd' :: '8' :: '0' :: '0' :: '"' :: rest, rfl, ?_⟩
    have hunit : hexValue4? 'd' '8' '0' '0' = some 0xd800 := by decide
    have hlone : textOfUnits [0xd800] = none := by decide
    simp [stringLiteral?, stringUnits, hunit, hlone]

end CacheCoherence.Json

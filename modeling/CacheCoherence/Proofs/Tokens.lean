import CacheCoherence.DependencyList
import CacheCoherence.Json.Parser
import CacheCoherence.Token

/-!
# Tokens and cached values never coincide

The same slot holds a token at one time and a cached value at another, and only the text tells
which. Tokens start with an underscore and no JSON text does, so no value is ever mistaken for a
token. Two issued tokens are equal only if they were issued with the same tag and number.
-/
namespace CacheCoherence

namespace Content

theorem ofText_eq_value {raw : String} {c : Char} {cs : List Char} (h : raw.toList = c :: cs)
    (hc : c ≠ '_') : ofText raw = .value := by
  have hmark : Token.mark.toList = '_' :: "_sentinel__".toList := by decide
  have htombstone : Token.tombstone.toList = '_' :: "_sentinel__tombstone".toList := by decide
  have hne : raw ≠ "" := by
    rintro rfl
    simp at h
  have hnt : raw ≠ Token.tombstone := by
    rintro rfl
    rw [htombstone] at h
    exact hc (List.cons.inj h).1.symm
  have hafter : textAfter? Token.mark.toList raw.toList = none := by
    rw [h, hmark, textAfter?, if_neg (Ne.symm hc)]
  rw [ofText, if_neg hne, if_neg hnt, hafter]

/-- A text that is neither empty nor a value starts with the underscore of the mark. -/
theorem toList_of_isToken {raw : String} (h : isToken raw = true) :
    ∃ cs, raw.toList = '_' :: cs := by
  cases hl : raw.toList with
  | nil =>
    have hraw : raw = "" := String.toList_inj.1 hl
    subst hraw
    have hempty : ofText "" = .empty := by rw [ofText, if_pos rfl]
    simp [isToken, hempty] at h
  | cons c cs =>
    by_cases hc : c = '_'
    · exact ⟨cs, by rw [hc]⟩
    · rw [isToken, ofText_eq_value hl hc] at h
      cases h

theorem ofText_ne_empty {raw : String} (h : raw ≠ "") : ofText raw ≠ .empty := by
  rw [ofText, if_neg h]
  split
  · simp
  · split
    · simp
    · unfold ofTag
      split
      · simp
      · split <;> simp

theorem ofText_tombstone : ofText Token.tombstone = .tombstone := by
  have hne : ¬ Token.tombstone = "" := by decide
  rw [ofText, if_neg hne, if_pos rfl]

theorem isToken_tombstone : isToken Token.tombstone = true := by
  rw [isToken, ofText_tombstone]

theorem isToken_issue_lock (kind : LockKind) (n : Nat) :
    isToken (Token.issue kind.name n) = true := by
  rw [isToken, ofText_issue_lock]

/-- A text that a store may hold as a lock, a conflict marker, the tombstone or a cached value. -/
def Spells : Content → String → Prop
  | .lock kind, raw => ∃ n, raw = Token.issue kind.name n
  | .conflict, raw => ∃ n, raw = Token.issue Token.conflictTag n
  | .tombstone, raw => raw = Token.tombstone
  | .value, raw => (Json.parse? raw).isSome = true
  | .empty, _ | .foreign, _ => False

end Content

namespace Token

theorem issue_ne_noLock (tag : String) (n : Nat) : issue tag n ≠ noLock := by
  intro h
  have hl := toList_issue tag n
  rw [h] at hl
  simp [mark, noLock] at hl

/-- Tokens with different numbers differ whatever their kinds are. -/
theorem issue_lock_injective {a b : LockKind} {n m : Nat}
    (h : issue a.name n = issue b.name m) : a = b ∧ n = m := by
  have hk := congrArg Content.ofText h
  rw [Content.ofText_issue_lock, Content.ofText_issue_lock] at hk
  cases hk
  exact ⟨rfl, issue_injective h⟩

theorem issue_lock_ne_conflict (kind : LockKind) (n m : Nat) :
    issue kind.name n ≠ issue conflictTag m := by
  intro h
  have hk := congrArg Content.ofText h
  rw [Content.ofText_issue_lock, Content.ofText_issue_conflict] at hk
  cases hk

theorem issue_lock_ne_tombstone (kind : LockKind) (n : Nat) : issue kind.name n ≠ tombstone := by
  intro h
  have hk := congrArg Content.ofText h
  rw [Content.ofText_issue_lock, Content.ofText_tombstone] at hk
  cases hk

end Token

namespace Json

theorem skipBlanks_of_not_blank {c : Char} (hc : isBlank c = false) (cs : List Char) :
    skipBlanks (c :: cs) = c :: cs := by
  rw [skipBlanks, List.dropWhile_cons, hc]
  rfl

theorem document?_underscore (fuel : Nat) (cs : List Char) :
    document? fuel ('_' :: cs) = none := by
  cases fuel with
  | zero => rw [document?]
  | succ fuel =>
    have hblank : skipBlanks ('_' :: cs) = '_' :: cs := skipBlanks_of_not_blank (by decide) cs
    have hnumber : numberLiteral? ('_' :: cs) = none := by
      have hdigit : Char.isDigit '_' = false := by decide
      simp [numberLiteral?, wholeDigits?, hdigit]
    rw [document?, hblank]
    simp [hnumber]

theorem parse?_eq_none_of_isToken {raw : String} (h : isToken raw = true) : parse? raw = none := by
  obtain ⟨cs, hl⟩ := Content.toList_of_isToken h
  rw [parse?, hl]
  simp [document?_underscore]

theorem isToken_of_parse? {raw : String} (h : (parse? raw).isSome = true) :
    isToken raw = false := by
  cases ht : isToken raw with
  | false => rfl
  | true =>
    rw [parse?_eq_none_of_isToken ht] at h
    cases h

theorem ofText_of_parse? {raw : String} (h : (parse? raw).isSome = true) :
    Content.ofText raw = .value := by
  have hne : raw ≠ "" := by
    rintro rfl
    exact absurd h (by decide)
  have ht := isToken_of_parse? h
  unfold isToken at ht
  split at ht
  · rename_i hempty
    exact absurd hempty (Content.ofText_ne_empty hne)
  · assumption
  · cases ht

end Json

/-- No text is two things at once: each is what it reads as. -/
theorem Content.Spells.ofText {content : Content} {raw : String} (h : content.Spells raw) :
    Content.ofText raw = content := by
  cases content with
  | lock kind =>
    obtain ⟨n, rfl⟩ := h
    exact ofText_issue_lock kind n
  | conflict =>
    obtain ⟨n, rfl⟩ := h
    exact ofText_issue_conflict n
  | tombstone =>
    obtain rfl : raw = Token.tombstone := h
    exact ofText_tombstone
  | value => exact Json.ofText_of_parse? h
  | empty => exact False.elim h
  | foreign => exact False.elim h

theorem Content.Spells.isToken_iff {content : Content} {raw : String} (h : content.Spells raw) :
    isToken raw = true ↔ content ≠ .value := by
  rw [isToken, h.ofText]
  cases content with
  | empty => exact False.elim h
  | _ => simp

namespace DependencyList

theorem isToken_encode (s : KeySet) : isToken (encode s) = false := by
  have hl : ∃ cs, (encode s).toList = '[' :: cs := by
    unfold encode Json.compact Json.texts
    rw [String.toList_ofList]
    cases s.keys.map Json.text with
    | nil => exact ⟨[']'], by rw [Json.chars]⟩
    | cons j js => exact ⟨j.chars ++ Json.itemsTail js, by rw [Json.chars, List.cons_append]⟩
  obtain ⟨cs, hl⟩ := hl
  rw [isToken, Content.ofText_eq_value hl (by decide)]

theorem exists_encode_of_merge {key : Key} {existing : Option String} {dependents : List Key}
    {text : String} (h : merge key existing dependents = .ok text) :
    ∃ members : KeySet, text = encode members := by
  cases existing with
  | none =>
    cases h
    exact ⟨_, rfl⟩
  | some raw =>
    cases hd : decode key raw with
    | error fault =>
      rw [merge, hd] at h
      cases h
    | ok set =>
      rw [merge, hd] at h
      cases h
      exact ⟨_, rfl⟩

theorem isToken_of_merge {key : Key} {existing : Option String} {dependents : List Key}
    {text : String} (h : merge key existing dependents = .ok text) : isToken text = false := by
  obtain ⟨members, rfl⟩ := exists_encode_of_merge h
  exact isToken_encode members

end DependencyList
end CacheCoherence

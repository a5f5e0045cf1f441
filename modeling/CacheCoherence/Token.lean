import CacheCoherence.Table
/-!
# Tokens in slots

A lock is a token stored where the cached value would stand, so the text of a slot alone tells
what the slot is: empty, a cached value, a lock of some kind, a conflict marker, a tombstone, or a
token of an unknown kind. Tokens start with a mark that no cached value starts with, followed by
a tag and a serial number of their own.
-/
namespace CacheCoherence

/-- The kind of operation that a lock declares. -/
inductive LockKind where
  /-- A new item is being written to the authoritative store. -/
  | create
  /-- An existing item is being modified. -/
  | update
  /-- An item is being removed. Such a lock can always be taken. -/
  | delete
  /-- A reader missed and is loading the item. -/
  | read
deriving DecidableEq, Repr

/-- The tag of a kind inside a token, which is also its name in messages. -/
def LockKind.name : LockKind → String
  | create => "create"
  | update => "update"
  | delete => "delete"
  | read => "read"

def LockKind.ofName? (s : String) : Option LockKind :=
  if s = "create" then some .create
  else if s = "update" then some .update
  else if s = "delete" then some .delete
  else if s = "read" then some .read
  else none

/-- A lock token as a slot holds it. The empty text stands for no lock at all. -/
abbrev Token := String

namespace Token

/-- What a caller holds who could not take a lock: saves and deletes handed it do nothing. -/
def noLock : Token := ""

/-- What a deleted item leaves behind for a while. -/
def tombstone : Token := "__sentinel__tombstone"

def mark : String := "__sentinel__"

def conflictTag : String := "conflict"

/-- The decimal digits of a number with zeros in front, twelve of them at least. -/
def twelveDigits (n : Nat) : List Char :=
  List.replicate (12 - (Nat.toDigits 10 n).length) '0' ++ Nat.toDigits 10 n

/-- The groups of a serial number that are the same for all. -/
def serialGroups : String := "00000000-0000-4000-8000-"

/-- The serial number of a token, in the layout of a version-4 identifier: digits in groups, of
which the last holds the number. -/
def serial (n : Nat) : String := serialGroups ++ String.ofList (twelveDigits n)

/-- The token with a tag and a number; different numbers give different tokens. -/
def issue (tag : String) (n : Nat) : Token := mark ++ tag ++ "_" ++ serial n

theorem ofDigitChars_twelveDigits (n : Nat) : Nat.ofDigitChars 10 (twelveDigits n) 0 = n := by
  have hpad (k : Nat) (ds : List Char) :
      Nat.ofDigitChars 10 (List.replicate k '0' ++ ds) 0 = Nat.ofDigitChars 10 ds 0 := by
    induction k with
    | zero => rfl
    | succ k ih =>
      rw [List.replicate_succ, List.cons_append]
      exact ih
  rw [twelveDigits, hpad, Nat.ofDigitChars_ten_toDigits]

theorem toList_serial (n : Nat) :
    (serial n).toList = serialGroups.toList ++ twelveDigits n := by
  unfold serial
  rw [String.toList_append, String.toList_ofList]

theorem toList_issue (tag : String) (n : Nat) :
    (issue tag n).toList = mark.toList ++ (tag.toList ++ '_' :: (serial n).toList) := by
  unfold issue
  rw [String.toList_append, String.toList_append, String.toList_append, List.append_assoc,
    List.append_assoc]
  rfl

/-- A serial number can be read back. -/
theorem serial_injective {n m : Nat} (h : serial n = serial m) : n = m := by
  have hl : (serial n).toList = (serial m).toList := congrArg String.toList h
  rw [toList_serial, toList_serial] at hl
  rw [← ofDigitChars_twelveDigits n, List.append_cancel_left hl, ofDigitChars_twelveDigits]

theorem issue_injective {tag : String} {n m : Nat} (h : issue tag n = issue tag m) : n = m := by
  have hl : (issue tag n).toList = (issue tag m).toList := congrArg String.toList h
  rw [toList_issue, toList_issue] at hl
  have hs := List.append_cancel_left (List.append_cancel_left hl)
  exact serial_injective (String.toList_inj.1 (List.cons.inj hs).2)

end Token

/-- What follows a given beginning of a text. -/
def textAfter? : List Char → List Char → Option (List Char)
  | [], cs => some cs
  | _ :: _, [] => none
  | a :: start, c :: cs => if a = c then textAfter? start cs else none

inductive Content where
  | empty
  | value
  | lock (kind : LockKind)
  | conflict
  | tombstone
  /-- A token of a kind that has no rules. -/
  | foreign
deriving DecidableEq, Repr

namespace Content

def ofTag (tag : String) : Content :=
  if tag = Token.conflictTag then .conflict
  else match LockKind.ofName? tag with
    | some kind => .lock kind
    | none => .foreign

/-- What a text is. The tag of a token ends at the first underscore behind the mark. -/
def ofText (raw : String) : Content :=
  if raw = "" then .empty
  else if raw = Token.tombstone then .tombstone
  else match textAfter? Token.mark.toList raw.toList with
    | none => .value
    | some rest => ofTag (String.ofList (rest.takeWhile (· ≠ '_')))

def ofSlot : Option String → Content
  | none => .empty
  | some raw => ofText raw

end Content

theorem textAfter?_append (start cs : List Char) : textAfter? start (start ++ cs) = some cs := by
  induction start with
  | nil => cases cs <;> rfl
  | cons a start ih => simp [textAfter?, ih]

/-- A token with a tag is what the tag stands for. -/
theorem Content.ofText_issue {tag : String} (h : ∀ c ∈ tag.toList, c ≠ '_') (n : Nat) :
    Content.ofText (Token.issue tag n) = Content.ofTag tag := by
  have hl := Token.toList_issue tag n
  have hne : Token.issue tag n ≠ "" := by
    intro he
    rw [he] at hl
    simp [Token.mark] at hl
  have htomb : Token.issue tag n ≠ Token.tombstone := by
    intro he
    have ht : Token.tombstone.toList = Token.mark.toList ++ "tombstone".toList := by decide
    rw [he, ht, List.append_cancel_left_eq] at hl
    have hmem : '_' ∈ "tombstone".toList := by
      rw [hl]
      simp
    revert hmem
    decide
  have htake : (tag.toList ++ '_' :: (Token.serial n).toList).takeWhile (· ≠ '_') = tag.toList := by
    rw [List.takeWhile_append_of_pos]
    · simp
    · intro c hc
      simpa using h c hc
  rw [Content.ofText, if_neg hne, if_neg htomb, hl, textAfter?_append]
  simp only [htake, String.ofList_toList]

theorem Content.ofText_issue_lock (kind : LockKind) (n : Nat) :
    Content.ofText (Token.issue kind.name n) = .lock kind := by
  rw [Content.ofText_issue (by cases kind <;> simp [LockKind.name])]
  cases kind <;> rfl

theorem Content.ofText_issue_conflict (n : Nat) :
    Content.ofText (Token.issue Token.conflictTag n) = .conflict := by
  rw [Content.ofText_issue (by simp [Token.conflictTag])]
  rfl

/-- Whether a text is a token and no cached value. -/
def isToken (raw : String) : Bool :=
  match Content.ofText raw with
  | .empty | .value => false
  | _ => true

def isTombstone (raw : String) : Bool := raw = Token.tombstone

end CacheCoherence

/-!
# Glob patterns

A pattern is a list of atoms. A star matches any run of characters, a question mark any one
character, a bracketed class one character of the class or, behind a caret, one outside it; a
backslash takes the character behind it as that character, and everything else stands for
itself. `Glob.literally` writes a text so that it matches nothing but itself.
-/
namespace CacheCoherence

inductive Glob.Atom where
  | run
  | any
  | char (c : Char)
  | oneOf (negated : Bool) (ranges : List (Char × Char))
deriving DecidableEq, Repr

abbrev Glob := List Glob.Atom

namespace Glob

/-- The atoms that a text spells. Inside a class the first argument holds what is known of it;
a class without a closing bracket ends with the pattern. -/
def atoms : Option (Bool × List (Char × Char)) → List Char → Glob
  | none, [] => []
  | none, '*' :: rest => .run :: atoms none rest
  | none, '?' :: rest => .any :: atoms none rest
  | none, '\\' :: c :: rest => .char c :: atoms none rest
  | none, '[' :: '^' :: rest => atoms (some (true, [])) rest
  | none, '[' :: rest => atoms (some (false, [])) rest
  | none, c :: rest => .char c :: atoms none rest
  | some (negated, ranges), [] => [.oneOf negated ranges]
  | some (negated, ranges), ']' :: rest => .oneOf negated ranges :: atoms none rest
  | some (negated, ranges), '\\' :: c :: rest => atoms (some (negated, ranges ++ [(c, c)])) rest
  | some (negated, ranges), a :: '-' :: b :: rest =>
    atoms (some (negated, ranges ++ [if a ≤ b then (a, b) else (b, a)])) rest
  | some (negated, ranges), c :: rest => atoms (some (negated, ranges ++ [(c, c)])) rest

def ofText (s : String) : Glob := atoms none s.toList

/-- Whether one atom other than a run matches a character. -/
def Atom.accepts : Atom → Char → Bool
  | .run, _ => false
  | .any, _ => true
  | .char a, c => a = c
  | .oneOf negated ranges, c =>
    (ranges.any fun range => range.1 ≤ c && c ≤ range.2) != negated

/-- Whether a run and then a matcher for the rest take a whole text: the matcher is tried on each
of the text's ends. -/
def anyEnd (rest : List Char → Bool) : List Char → Bool
  | [] => rest []
  | c :: cs => rest (c :: cs) || anyEnd rest cs

def accepts : Glob → List Char → Bool
  | [], cs => cs.isEmpty
  | .run :: rest, cs => anyEnd (accepts rest) cs
  | _ :: _, [] => false
  | atom :: rest, c :: cs => atom.accepts c && accepts rest cs

/-- The characters that have a meaning of their own in a pattern. -/
def isSpecial (c : Char) : Bool := c = '*' || c = '?' || c = '[' || c = ']' || c = '\\'

/-- A text written so that it stands for itself in a pattern. -/
def literally (cs : List Char) : List Char :=
  cs.flatMap fun c => if isSpecial c then ['\\', c] else [c]

/-- The pattern of all texts that start as this one does. -/
def startingWith (s : String) : String := String.ofList (literally s.toList ++ ['*'])

/-- Whether a text matches the pattern that another text spells. -/
def matchesText (pattern text : String) : Bool := accepts (ofText pattern) text.toList

end Glob
end CacheCoherence

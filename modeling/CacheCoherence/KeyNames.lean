import CacheCoherence.Table
import CacheCoherence.Text.Percent
/-!
# Names of cache keys

Every key of a namespace starts with its root and a colon. What follows is rendered from an
identifier and a list of components: by the template registered for the identifier, or, without
one, as the identifier and the components between colons. Components are percent-encoded, so a
rendered component holds no separator, and a template is only accepted when each placeholder is
followed by something that ends a component.
-/
namespace CacheCoherence

/-- A text with placeholders: the literal before the first one and the literals behind each. -/
structure Template where
  head : List Char
  tails : List (List Char)
deriving DecidableEq

namespace Template

def placeholder : List Char := ['{', '}']

/-- The characters that a component keeps: ASCII letters and digits, the hyphen and the point. -/
def keepsInComponent (c : Char) : Bool := c.isAlphanum || c = '-' || c = '.'

/-- The characters that an identifier without a template keeps. -/
def keepsInId (c : Char) : Bool := c ≠ ':' && c ≠ '%'

/-- A component as it stands in a key. -/
def component (s : String) : List Char := Text.percentEncode keepsInComponent s.toList

/-- The pieces of a text between its placeholders. -/
def split : List Char → List Char × List (List Char)
  | [] => ([], [])
  | '{' :: '}' :: rest => ([], (split rest).1 :: (split rest).2)
  | c :: rest => (c :: (split rest).1, (split rest).2)

def ofText (s : String) : Template := ⟨(split s.toList).1, (split s.toList).2⟩

def toText (t : Template) : String :=
  String.ofList (t.head ++ t.tails.flatMap (placeholder ++ ·))

/-- Whether a character ends a component that stands before it. -/
def delimits (c : Char) : Bool := !keepsInComponent c && c ≠ '%' && c ≠ '{'

/-- Whether every literal behind a placeholder starts with a delimiter; only the last one may be
empty. -/
def delimited : List (List Char) → Bool
  | [] => true
  | [[]] => true
  | [] :: _ => false
  | (c :: _) :: rest => delimits c && delimited rest

/-- Whether a rendered key tells where each component ends. -/
def Unambiguous (t : Template) : Prop := delimited t.tails = true

instance (t : Template) : Decidable t.Unambiguous := inferInstanceAs (Decidable (_ = true))

/-- The components that found no placeholder, each behind a colon. -/
def appended (components : List String) : List Char :=
  components.flatMap fun c => ':' :: component c

/-- The literals behind the placeholders, each behind its component. A placeholder without a
component stays as it is. -/
def fill : List (List Char) → List String → List Char
  | [], components => appended components
  | literal :: rest, [] => placeholder ++ literal ++ fill rest []
  | literal :: rest, c :: components => component c ++ literal ++ fill rest components

/-- The characters of a template filled with components. -/
def render (t : Template) (components : List String) : List Char :=
  t.head ++ fill t.tails components

end Template

structure KeyNames where
  /-- The root shared by every key of the namespace. -/
  root : String
  templates : Table { t : Template // t.Unambiguous } := .empty

namespace KeyNames

/-- A namespace without templates. -/
def ofRoot (root : String) : KeyNames := { root }

/-- Registers a template for an identifier, in place of an earlier one. A template that does not
tell where a component ends is refused. -/
def withTemplate? (names : KeyNames) (id text : String) : Option KeyNames :=
  let t := Template.ofText text
  if h : t.Unambiguous then
    some { names with templates := names.templates.insert id ⟨t, h⟩ }
  else none

/-- What is said about a refused template. -/
def ambiguousTemplate (text : String) : String :=
  "placeholders in key template \x60" ++ text ++ "\x60 must be followed by a delimiter"

/-- What follows the root and its colon. -/
def rendered (names : KeyNames) (id : String) (components : List String) : List Char :=
  match names.templates.get? id with
  | some t => t.val.render components
  | none => Text.percentEncode Template.keepsInId id.toList ++ Template.appended components

def key (names : KeyNames) (id : String) (components : List String) : Key :=
  String.ofList (names.root.toList ++ ':' :: names.rendered id components)

/-- The key of an identifier and an entity, whose own identifier is in hexadecimal digits and
hyphens and is written in lower case. -/
def keyOfEntity (names : KeyNames) (id entity : String) : Key :=
  names.key id [entity.map Char.toLower]

/-- The identifiers with a template, in ascending order. -/
def ids (names : KeyNames) : List String := names.templates.keys

end KeyNames
end CacheCoherence

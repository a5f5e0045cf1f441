import CacheCoherence.Fault
import CacheCoherence.Json.Parser
import CacheCoherence.Json.Printer
import CacheCoherence.Json.Reader
/-!
# Dependency lists

A dependency list is a set of keys. It lives in an ordinary slot as a JSON array of the keys in
ascending order, so a store needs nothing but texts to keep one.
-/
namespace CacheCoherence

abbrev KeySet := Table Unit

namespace KeySet

def addAll (s : KeySet) (ks : List Key) : KeySet := ks.foldl (fun s k => s.insert k ()) s

def ofList (ks : List Key) : KeySet := addAll .empty ks

theorem get?_addAll (s : KeySet) (ks : List Key) (k : Key) :
    (s.addAll ks).get? k = if k ∈ ks then some () else s.get? k := by
  unfold addAll
  induction ks generalizing s with
  | nil => simp
  | cons k' ks ih =>
    rw [List.foldl_cons, ih, Table.get?_insert]
    by_cases h : k = k' <;> simp [h]

end KeySet

namespace DependencyList

/-- The list that a slot's text spells. -/
def decode (key : Key) (raw : String) : Except Fault KeySet :=
  match Json.parse? raw >>= Json.toTexts? with
  | some keys => .ok (KeySet.ofList keys)
  | none => .error (.corrupt key)

def encode (s : KeySet) : String := (Json.texts s.keys).compact

/-- The text of the list that a slot holds, or of the empty list, with dependents added. -/
def merge (key : Key) (existing : Option String) (dependents : List Key) :
    Except Fault String :=
  match existing with
  | none => .ok (encode (KeySet.ofList dependents))
  | some raw => (decode key raw).map fun s => encode (s.addAll dependents)

end DependencyList
end CacheCoherence

import CacheCoherence.DependencyList
import CacheCoherence.Proofs.Json.RoundTrip

/-!
# Dependency lists read back

The text of a dependency list spells the very set of keys that it was written for, whatever
characters the keys hold, and adding dependents to that text yields the text of the union.
-/
namespace CacheCoherence

theorem Json.wellFormed_texts (items : List String) : (Json.texts items).WellFormed := by
  change WellFormedItems (items.map text)
  rw [wellFormedItems_iff]
  intro item hitem
  obtain ⟨s, -, rfl⟩ := List.mem_map.1 hitem
  trivial

theorem Json.toTexts?_texts (items : List String) : (Json.texts items).toTexts? = some items := by
  change (items.map text).mapM toText? = some items
  induction items with
  | nil => rfl
  | cons item rest ih =>
    rw [List.map_cons, List.mapM_cons, ih]
    rfl

theorem KeySet.ofList_keys (s : KeySet) : KeySet.ofList s.keys = s := by
  refine Table.ext_get? fun k => ?_
  have hmem := Table.mem_keys_iff s k
  rw [KeySet.ofList, KeySet.get?_addAll, Table.get?_empty]
  cases hk : s.get? k with
  | none =>
    rw [if_neg]
    rw [hmem]
    rintro ⟨u, hu⟩
    rw [hk] at hu
    cases hu
  | some u => rw [if_pos (hmem.2 ⟨u, hk⟩)]

namespace DependencyList

theorem decode_encode (key : Key) (s : KeySet) : decode key (encode s) = .ok s := by
  have hread : Json.parse? (encode s) = some (Json.texts s.keys) :=
    Json.parse?_compact (Json.wellFormed_texts s.keys)
  rw [decode, hread, Option.bind_eq_bind, Option.bind_some, Json.toTexts?_texts]
  change Except.ok (KeySet.ofList s.keys) = _
  rw [KeySet.ofList_keys]

theorem merge_encode (key : Key) (s : KeySet) (dependents : List Key) :
    merge key (some (encode s)) dependents = .ok (encode (s.addAll dependents)) := by
  rw [merge, decode_encode]
  rfl

def spelled? (raw : String) : Option KeySet :=
  (Json.parse? raw >>= Json.toTexts?).map KeySet.ofList

/-- Whether a slot's text is neither a token nor a list. -/
def isSpoiled (raw : String) : Bool := !isToken raw && (spelled? raw).isNone

/-- The list in a slot with this live text. A slot that is empty or holds a token stands for the
empty list. -/
def members (current : Option String) : KeySet :=
  ((current.filter fun raw => !isToken raw).bind spelled?).getD .empty

/-- The text of the list in a slot with dependents added. -/
def enlarged (current : Option String) (dependents : List Key) : String :=
  encode ((members current).addAll dependents)

theorem decode_eq (key : Key) (raw : String) :
    decode key raw = (spelled? raw).elim (.error (.corrupt key)) .ok := by
  rw [decode, spelled?]
  cases Json.parse? raw >>= Json.toTexts? <;> rfl

/-- Adding dependents to the list in a slot fails on a spoiled slot, and only there. -/
theorem merge_of_slot (key : Key) (current : Option String) (dependents : List Key) :
    merge key (current.filter fun raw => !isToken raw) dependents =
      if current.any isSpoiled then .error (.corrupt key)
      else .ok (enlarged current dependents) := by
  cases current with
  | none => rfl
  | some raw =>
    cases htoken : isToken raw with
    | true => simp [isSpoiled, enlarged, members, merge, htoken, Option.filter, KeySet.ofList]
    | false =>
      cases hspelled : spelled? raw <;>
        simp [isSpoiled, enlarged, members, merge, decode_eq, htoken, hspelled, Option.filter,
          Except.map]

end DependencyList

/-- Of a list of computations of which some are bound to fail, the first failure is reported. -/
theorem mapM_guarded {α β ε : Type} (fails : α → Bool) (fault : α → ε) (result : α → β)
    (l : List α) :
    (l.mapM fun a => if fails a then Except.error (fault a) else .ok (result a)) =
      match l.find? fails with
      | some a => .error (fault a)
      | none => .ok (l.map result) := by
  induction l with
  | nil => rfl
  | cons a rest ih =>
    rw [List.mapM_cons, ih, List.find?_cons]
    cases fails a with
    | true => rfl
    | false => cases rest.find? fails <;> rfl

end CacheCoherence

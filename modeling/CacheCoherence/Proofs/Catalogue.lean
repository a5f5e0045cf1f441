import CacheCoherence.Catalogue
import CacheCoherence.Proofs.DependencyLists
import CacheCoherence.Proofs.Cache.Read

/-!
# Documents of the catalogue

Nodes are read back from the documents that they are saved as. A node whose versions differ only in
what they depend on serves as an example of an item that changes without bound.
-/
namespace CacheCoherence
namespace Json

theorem wellFormed_optionalText (s : Option String) : (optionalText s).WellFormed := by
  cases s <;> trivial

theorem toOptional?_optionalText (s : Option String) :
    toOptional? toText? (optionalText s) = some s := by
  cases s <;> rfl

end Json

namespace Catalogue

theorem Node.faithful (node : Node) : Faithful node where
  wellFormed := by
    intro document hdoc
    obtain rfl := Option.some.inj hdoc
    simp [Json.record, Json.text, Json.WellFormed, Json.WellFormedFields, Json.wellFormed_texts,
      Json.wellFormed_optionalText]
  reads := by
    intro document hdoc
    obtain rfl := Option.some.inj hdoc
    simp [Cacheable.ofJson?, Node.ofJson?, Json.record, Json.text, Json.toRecord?, Json.field?,
      Json.orDefault?, Json.toText?, Json.toBool?, Json.toTexts?_texts,
      Json.toOptional?_optionalText]

/-- The versions of a node at the key `k`, which has a list of its own and depends on ever more. -/
def nodeVersion (n : Nat) : Node where
  key := "k"
  secondary := []
  global := none
  collection := none
  deps := some "d"
  dependsOn := List.replicate n "l"
  modified := none
  invalid := false

theorem nodeVersion_injective {n n' : Nat} (h : nodeVersion n = nodeVersion n') : n = n' := by
  have hlength := congrArg (fun node => node.dependsOn.length) h
  simpa [nodeVersion] using hlength

def lasting : Policy := ⟨.ofRoot "test", { default := Duration.ofSeconds 60 }⟩

end Catalogue
end CacheCoherence

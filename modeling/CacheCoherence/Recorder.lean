import CacheCoherence.Call
/-!
# Recording and failing calls

A recorder stands between the operations and a store. It keeps every call, also those that fail,
and can be told to fail the calls that match a rule, which then never reach the store. It can also
cut the answers to batch reads short, as a store would that loses part of an answer.
-/
namespace CacheCoherence

def Call.name : Call → String
  | getValue .. => "GetValue"
  | getValues .. => "GetValues"
  | setValue .. => "SetValue"
  | deleteValue .. => "DeleteValue"
  | writeToken .. => "WriteSentinel"
  | releaseToken .. => "ReleaseSentinel"
  | addDependency .. => "AddDependency"
  | clearDependencies .. => "ClearDependencies"
  | flush .. => "Flush"
  | registerHandler .. => "RegisterInvalidationHandler"

/-- The texts among the arguments of a call, those inside lists included. -/
def Call.texts : Call → List String
  | getValue key _ => [key]
  | getValues keys _ => keys
  | setValue lockKey keys value token _ => lockKey :: keys ++ [value, token]
  | deleteValue keys _ _ => keys
  | writeToken kind keys => kind.name :: keys
  | releaseToken keys token => keys ++ [token]
  | addDependency lists dependents _ => lists ++ dependents
  | clearDependencies key _ => [key]
  | flush root _ => [root]
  | registerHandler key _ => [key]

/-- Which calls are to fail: those of a name, or those of a name with a text among their
arguments. -/
structure FailureRule where
  call : String
  text : Option String := none
deriving DecidableEq, Repr

def FailureRule.selects (r : FailureRule) (c : Call) : Bool :=
  r.call = c.name && (match r.text with
    | none => true
    | some s => c.texts.contains s)

/-- What a recorder has seen and what it is to do. -/
structure Recorder where
  calls : List Call := []
  rules : List FailureRule := []
  /-- How many lookups of a batch are answered at most. -/
  keep : Option Nat := none

namespace Recorder

/-- Keeps a call, and says whether it is to fail. -/
def record (r : Recorder) (c : Call) : Bool × Recorder :=
  (r.rules.any (·.selects c), { r with calls := r.calls ++ [c] })

def cut (keep : Option Nat) : (c : Call) → c.Answer → c.Answer
  | .getValues _ _, answer =>
    match keep with
    | none => answer
    | some n => answer.map (List.take n)
  | .getValue .., answer | .setValue .., answer | .deleteValue .., answer
  | .writeToken .., answer | .releaseToken .., answer | .addDependency .., answer
  | .clearDependencies .., answer | .flush .., answer | .registerHandler .., answer => answer

end Recorder
end CacheCoherence

import CacheCoherence.Proofs.SessionRuns
import CacheCoherence.Proofs.Turns

/-!
# Deeds of an operation

However an operation is answered, it leaves behind the list of actions that it took, each with its
answer. What holds of every such list and the result at its end is shown along the program, and then
it holds of all runs: at any store, among any other clients, whichever calls fail. Of a session the
recorder has kept the calls among the deeds.
-/
namespace CacheCoherence

/-- An action that was taken, with its answer. -/
structure Deed where
  action : Action
  answer : action.Answer

namespace Deed

def asked (deeds : List Deed) : List Asked :=
  deeds.flatMap fun deed => deed.action.asked deed.answer

@[simp] theorem asked_call (c : Call) (answer : c.Answer) (deeds : List Deed) :
    asked (⟨.call c, answer⟩ :: deeds) = ⟨c, answer⟩ :: asked deeds := rfl

@[simp] theorem asked_append (first second : List Deed) :
    asked (first ++ second) = asked first ++ asked second := List.flatMap_append

end Deed

namespace Operation
variable {α β : Type} {P : List Deed → α → Prop} {Q : List Deed → β → Prop}

/-- Whatever an operation is answered, its deeds and its result are as they should be. -/
def Always (P : List Deed → α → Prop) : Operation α → Prop
  | .done a => P [] a
  | .ask q next => ∀ answer, Always (fun deeds => P (⟨q, answer⟩ :: deeds)) (next answer)

theorem Always.mono {op : Operation α} {P' : List Deed → α → Prop} (h : op.Always P)
    (himp : ∀ deeds a, P deeds a → P' deeds a) : op.Always P' := by
  induction op generalizing P P' with
  | done a => exact himp [] a h
  | ask q next ih => exact fun answer => ih answer (h answer) fun deeds a => himp _ a

theorem Always.bind {op : Operation α} {next : α → Operation β} (h : op.Always P)
    (hnext : ∀ deeds a, P deeds a → (next a).Always fun more => Q (deeds ++ more)) :
    (op >>= next).Always Q := by
  induction op generalizing P Q with
  | done a => exact hnext [] a h
  | ask q rest ih => exact fun answer => ih answer (h answer) fun deeds a => hnext _ a

theorem Always.map {f : α → β} {op : Operation α} (h : op.Always fun deeds a => Q deeds (f a)) :
    (f <$> op).Always Q := by
  rw [map_eq_pure_bind]
  refine h.bind fun deeds a hQ => ?_
  change Q (deeds ++ []) (f a)
  rwa [List.append_nil]

theorem always_call_bind {c : Call} {next : c.Answer → Operation α}
    (h : ∀ answer, (next answer).Always fun deeds => P (⟨.call c, answer⟩ :: deeds)) :
    (call c >>= next).Always P := h

theorem always_note_bind {n : Note} {next : Unit → Operation α}
    (h : (next ()).Always fun deeds => P (⟨.note n, ()⟩ :: deeds)) :
    (note n >>= next).Always P := fun _ => h

theorem always_log_bind {e : Event} {next : Unit → Operation α}
    (h : (next ()).Always fun deeds => P (⟨.log e, ()⟩ :: deeds)) :
    (log e >>= next).Always P := fun _ => h

section Runs
variable {σ : Type} (answer : (q : Action) → σ → q.Answer × σ)

def deeds : Operation α → σ → List Deed
  | .done _, _ => []
  | .ask q next, s => ⟨q, (answer q s).1⟩ :: deeds (next (answer q s).1) (answer q s).2

theorem Always.run {op : Operation α} (h : op.Always P) (s : σ) :
    P (op.deeds answer s) (Program.run answer op s).1 := by
  induction op generalizing s P with
  | done a => exact h
  | ask q next ih => exact ih _ (h _) _

end Runs

/-- The recorder of a session has kept the calls of an operation, in their order. -/
theorem recorder_through (ctx : Context) (op : Operation α) (s : Session) :
    (op.through ctx s).2.recorder = { s.recorder with
      calls := s.recorder.calls ++
        (Deed.asked (op.deeds (Session.answer ctx) s)).map (·.call) } := by
  induction op generalizing s with
  | done a => exact (congrArg (fun calls => { s.recorder with calls }) (List.append_nil _)).symm
  | ask q next ih =>
    refine (ih _ _).trans ?_
    cases q with
    | call c =>
      rw [deeds, Deed.asked_call, List.map_cons, List.append_cons]
      simp only [Session.answer, s.recorder_perform c]
    | note n => rfl
    | log e => rfl

end Operation
end CacheCoherence

import CacheCoherence.Proofs.Library.AnsweredReads
import CacheCoherence.Proofs.Memory.Legible

/-!
# Turns at a shared store

An operation calls a store of either kind that other clients use as well. Before each of its calls
they may call the store and time may go by, and a call may fail, which then does not reach the
store. What the others do and which calls fail may depend on everything that the operation has seen.
Each call is a turn, kept with the store that it reached, its answer, and the store that it left. An
operation is reasoned if, whatever it is answered, the calls before give a reason for each of its
calls. Then in every run the turns before give a reason for each turn.
-/
namespace CacheCoherence

/-- A call with its answer. -/
structure Asked where
  call : Call
  answer : call.Answer

structure Turn extends Asked where
  /-- The store as the others have left it before the call. -/
  reached : Store
  left : Store

/-- What other clients do between the calls of an operation, and which of its calls fail. -/
structure Company where
  /-- What happens to the store before the next call. -/
  meanwhile : List Turn → List StoreStep
  fails : List Turn → Call → Bool

structure Shared where
  store : Store
  turns : List Turn := []

/-- The call that an action makes, with the answer. -/
def Action.asked : (q : Action) → q.Answer → List Asked
  | .call c, answer => [⟨c, answer⟩]
  | _, _ => []

namespace Store
variable {s : Store}

/-- Calls run whole: no server fails, and nobody else writes to it during a call. -/
def Alone : Store → Prop
  | memory _ _ => True
  | remote _ _ r => Observed.Alone ⟨r, []⟩

theorem Alone.step (h : s.Alone) (e : StoreStep) : (s.step e).Alone := by
  cases s with
  | memory cfg m => cases e <;> trivial
  | remote cfg rules r =>
    cases e with
    | advance elapsed => exact ⟨h.calm, h.others⟩
    | call c =>
      obtain ⟨hs, -, halone, -⟩ :=
        Observed.Alone.run h (RemoteStore.perform cfg rules r.exchange.scanRounds c)
      obtain ⟨hcalm, hothers⟩ := halone
      unfold Observed.Calm at hcalm
      rw [(Observed.run_answer _ _).2] at hcalm hothers
      exact ⟨hcalm, hothers⟩

theorem Alone.after (h : s.Alone) (steps : List StoreStep) : (s.after steps).Alone := by
  induction steps generalizing s with
  | nil => exact h
  | cons e rest ih => exact ih (h.step e)

theorem Alone.undisturbed (h : s.Alone) (c : Call) : s.Undisturbed c := by
  cases s with
  | memory cfg m => trivial
  | remote cfg rules r => exact undisturbed_of_alone h c

end Store

namespace Turn

def refused (store : Store) (c : Call) : Turn where
  call := c
  answer := c.failed (.backend .injected)
  reached := store
  left := store

def served (store : Store) (c : Call) : Turn where
  call := c
  answer := (store.perform c).1
  reached := store
  left := (store.perform c).2.1

/-- A turn was refused or served, and where it was served the call ran whole. -/
structure Genuine (t : Turn) : Prop where
  alone : t.reached.Alone
  done : t = refused t.reached t.call ∨ t = served t.reached t.call

theorem Genuine.alone_left {t : Turn} (h : t.Genuine) : t.left.Alone := by
  rcases h.done with hdone | hdone <;> rw [hdone]
  · exact h.alone
  · exact h.alone.step (.call t.call)

end Turn

namespace Shared
variable (env : Company)

def joined (s : Shared) (t : Turn) : Shared := { store := t.left, turns := s.turns ++ [t] }

def ask (s : Shared) (c : Call) : c.Answer × Shared :=
  let store := s.store.after (env.meanwhile s.turns)
  if env.fails s.turns c then (c.failed (.backend .injected), s.joined (.refused store c))
  else ((store.perform c).1, s.joined (.served store c))

def answer : (q : Action) → Shared → q.Answer × Shared
  | .call c, s => s.ask env c
  | .note _, s => ((), s)
  | .log _, s => ((), s)

theorem ask_turn (s : Shared) (c : Call) (h : s.store.Alone) :
    ∃ t : Turn, t.toAsked = ⟨c, (s.ask env c).1⟩ ∧ t.Genuine ∧ (s.ask env c).2 = s.joined t := by
  have halone := h.after (env.meanwhile s.turns)
  cases hfails : env.fails s.turns c with
  | true =>
    refine ⟨.refused (s.store.after (env.meanwhile s.turns)) c, ?_, ⟨halone, .inl rfl⟩, ?_⟩
    all_goals
      rw [ask, hfails]
      rfl
  | false =>
    refine ⟨.served (s.store.after (env.meanwhile s.turns)) c, ?_, ⟨halone, .inr rfl⟩, ?_⟩
    all_goals
      rw [ask, hfails]
      rfl

end Shared

/-- A reason that was given stays, whatever is asked later. -/
def Lasting (reason : List Asked → Call → Prop) : Prop :=
  ∀ asked later c, asked ⊆ later → reason asked c → reason later c

namespace Operation
variable {α β : Type} {reason : List Asked → Call → Prop} {ends middle : List Asked → α → Prop}
  {last : List Asked → β → Prop} {asked : List Asked}

variable (reason) in
/-- After some calls, whatever it is answered, an operation makes no call for which the calls before
give no reason, and it ends as it should. -/
def Reasoned (ends : List Asked → α → Prop) : Operation α → List Asked → Prop
  | .done a, asked => ends asked a
  | .ask q next, asked =>
    (∀ c, q = .call c → reason asked c) ∧
      ∀ answer, Reasoned ends (next answer) (asked ++ q.asked answer)

section Reasoned

theorem reasoned_call {c : Call} {ends : List Asked → c.Answer → Prop} (h : reason asked c)
    (hends : ∀ answer, ends (asked ++ [⟨c, answer⟩]) answer) :
    Reasoned reason ends (call c) asked := by
  refine ⟨?_, hends⟩
  rintro c' ⟨⟩
  exact h

theorem reasoned_call_bind {c : Call} {next : c.Answer → Operation α} (h : reason asked c)
    (hnext : ∀ answer, (next answer).Reasoned reason ends (asked ++ [⟨c, answer⟩])) :
    Reasoned reason ends (call c >>= next) asked := by
  refine ⟨?_, hnext⟩
  rintro c' ⟨⟩
  exact h

@[simp] theorem reasoned_note_bind (n : Note) (next : Unit → Operation α) :
    Reasoned reason ends (note n >>= next) asked ↔ Reasoned reason ends (next ()) asked := by
  have hasked : Reasoned reason ends (next ()) (asked ++ []) ↔
      Reasoned reason ends (next ()) asked := by rw [List.append_nil]
  exact ⟨fun h => hasked.1 (h.2 ()), fun h => ⟨nofun, fun _ => hasked.2 h⟩⟩

@[simp] theorem reasoned_log_bind (e : Event) (next : Unit → Operation α) :
    Reasoned reason ends (log e >>= next) asked ↔ Reasoned reason ends (next ()) asked := by
  have hasked : Reasoned reason ends (next ()) (asked ++ []) ↔
      Reasoned reason ends (next ()) asked := by rw [List.append_nil]
  exact ⟨fun h => hasked.1 (h.2 ()), fun h => ⟨nofun, fun _ => hasked.2 h⟩⟩

theorem Reasoned.bind {op : Operation α} {next : α → Operation β}
    (h : op.Reasoned reason middle asked)
    (hnext : ∀ a later, middle later a → (next a).Reasoned reason last later) :
    (op >>= next).Reasoned reason last asked := by
  induction op generalizing asked with
  | done a => exact hnext a asked h
  | ask q rest ih => exact ⟨h.1, fun answer => ih answer (h.2 answer)⟩

theorem Reasoned.mono {op : Operation α} (h : op.Reasoned reason middle asked)
    (hends : ∀ later a, middle later a → ends later a) : op.Reasoned reason ends asked := by
  induction op generalizing asked with
  | done a => exact hends asked a h
  | ask q rest ih => exact ⟨h.1, fun answer => ih answer (h.2 answer)⟩

/-- An operation is reasoned if it has reason for all its calls before it starts. -/
theorem Calls.reasoned {op : Operation α} (hlasting : Lasting reason)
    (h : Calls (reason asked) op) : op.Reasoned reason (fun later _ => asked ⊆ later) asked := by
  -- The calls that were made in between take no reason away.
  suffices hlater : ∀ later, asked ⊆ later → op.Reasoned reason (fun later _ => asked ⊆ later) later
    from hlater asked (List.Subset.refl _)
  induction op with
  | done a => exact fun later hsub => hsub
  | ask q rest ih =>
    refine fun later hsub => ⟨fun c hc => hlasting asked later c hsub (h.1 c hc), fun answer => ?_⟩
    exact ih answer (h.2 answer) _ fun a ha => List.mem_append_left _ (hsub ha)

end Reasoned

section Amongst
variable (env : Company)

/-- The result of an operation among other clients, and the store with its turns. -/
def amongst (op : Operation α) (s : Shared) : α × Shared := Program.run (Shared.answer env) op s

def turns (op : Operation α) (store : Store) : List Turn := (op.amongst env { store }).2.turns

variable (reason) in
/-- Every turn is genuine, and the turns before it give a reason for it. -/
structure Justified (turns : List Turn) : Prop where
  genuine : ∀ t ∈ turns, t.Genuine
  reason : ∀ before t, before ++ [t] <+: turns → reason (before.map Turn.toAsked) t.call

theorem Justified.concat {turns : List Turn} (h : Justified reason turns) {t : Turn}
    (hgenuine : t.Genuine) (hreason : reason (turns.map Turn.toAsked) t.call) :
    Justified reason (turns ++ [t]) where
  genuine w hw := by
    rcases List.mem_append.1 hw with hw | hw
    · exact h.genuine w hw
    · exact List.mem_singleton.1 hw ▸ hgenuine
  reason before w hw := by
    rcases List.prefix_concat_iff.1 hw with hlast | hbefore
    · obtain ⟨rfl, hsame⟩ := List.append_inj' hlast rfl
      obtain rfl := List.singleton_inj.1 hsame
      exact hreason
    · exact h.reason before w hbefore

/-- The turns of a reasoned operation are justified, whatever goes on around it. -/
theorem Reasoned.amongst {op : Operation α} {s : Shared} (hs : s.store.Alone)
    (hturns : Justified reason s.turns)
    (h : op.Reasoned reason ends (s.turns.map Turn.toAsked)) :
    Justified reason (op.amongst env s).2.turns := by
  induction op generalizing s with
  | done a => exact hturns
  | ask q rest ih =>
    cases q with
    | note n =>
      exact ih () hs hturns ((reasoned_note_bind n rest).1 h)
    | log e =>
      exact ih () hs hturns ((reasoned_log_bind e rest).1 h)
    | call c =>
      obtain ⟨t, ht, hgenuine, hafter⟩ := s.ask_turn env c hs
      have hcall : t.call = c := congrArg Asked.call ht
      change Justified reason (Operation.amongst env (rest (s.ask env c).1) (s.ask env c).2).2.turns
      refine ih _ ?_ ?_ ?_
      · rw [hafter]
        exact hgenuine.alone_left
      · rw [hafter]
        exact hturns.concat hgenuine (hcall.symm ▸ h.1 c rfl)
      · have hasked : (s.joined t).turns.map Turn.toAsked =
            s.turns.map Turn.toAsked ++ [⟨c, (s.ask env c).1⟩] := by
          rw [Shared.joined, List.map_append, List.map_singleton, ht]
        rw [hafter, hasked]
        exact h.2 _

theorem Reasoned.turns {op : Operation α} {store : Store} (hs : store.Alone)
    (h : op.Reasoned reason ends []) : Justified reason (op.turns env store) := by
  have hnone : Justified reason ({ store } : Shared).turns := by
    refine ⟨fun t ht => absurd ht List.not_mem_nil, fun before t ht => ?_⟩
    exact absurd (List.prefix_nil.1 ht) (List.concat_ne_nil t before)
  exact Reasoned.amongst (s := { store }) env hs hnone h

end Amongst
end Operation
end CacheCoherence

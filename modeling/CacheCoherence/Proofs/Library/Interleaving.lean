import CacheCoherence.Proofs.Library.Basic
import CacheCoherence.Proofs.Memory.Legible
import Mathlib.Data.List.Induction

/-!
# Calls of the library, interleaved

Clients share a store in memory, each with a policy of its own. A call of the library that was
started is a task, which takes its actions one by one while other tasks take theirs and time goes
by. The system remembers every action that was taken and what it was answered. Calls that run whole
are the special case in which nothing else happens until a task is done.
-/
namespace CacheCoherence
open Operation

/-- A call of the library under way: what was called and what is left of the operation. -/
structure Task : Type 1 where
  policy : Policy
  call : LibraryCall
  rest : Operation call.Answer

structure Act where
  task : Nat
  action : Action
  answer : action.Answer

def Action.fault? : (q : Action) → q.Answer → Option Fault
  | .call c, answer => c.fault? answer
  | _, _ => none

def Action.found : (q : Action) → q.Answer → List (Key × String)
  | .call c, answer => c.found answer
  | _, _ => []

def Action.written : (q : Action) → q.Answer → List (Key × String)
  | .call c, answer => c.written answer
  | _, _ => []

namespace Act
variable (act : Act)

def fault? : Option Fault := act.action.fault? act.answer

def found : List (Key × String) := act.action.found act.answer

def written : List (Key × String) := act.action.written act.answer

end Act

structure System : Type 1 where
  memory : Memory := {}
  tasks : List Task := []
  /-- The actions taken so far. -/
  acts : List Act := []

inductive SystemStep : Type 1
  | start (policy : Policy) (c : LibraryCall)
  /-- A task takes its next action, if it has not ended. -/
  | proceed (task : Nat)
  | elapse (duration : Nat)

namespace System
variable (cfg : MemorySettings) (s : System)

def acted (i : Nat) (task : Task) (q : Action) (next : q.Answer → Operation task.call.Answer) :
    System where
  memory := (s.memory.answer cfg q).2
  tasks := s.tasks.set i { task with rest := next (s.memory.answer cfg q).1 }
  acts := s.acts ++ [⟨i, q, (s.memory.answer cfg q).1⟩]

def step : SystemStep → System
  | .start policy c => { s with tasks := s.tasks ++ [⟨policy, c, c.operation policy⟩] }
  | .proceed i =>
    match s.tasks[i]? with
    | none => s
    | some task =>
      match task.rest with
      | .done _ => s
      | .ask q next => s.acted cfg i task q next
  | .elapse duration => { s with memory := s.memory.advance duration }

def run (steps : List SystemStep) : System := steps.foldl (step cfg) s

@[simp] theorem run_nil : s.run cfg [] = s := rfl

@[simp] theorem run_cons (e : SystemStep) (steps : List SystemStep) :
    s.run cfg (e :: steps) = (s.step cfg e).run cfg steps := rfl

@[simp] theorem run_append (first second : List SystemStep) :
    s.run cfg (first ++ second) = (s.run cfg first).run cfg second :=
  List.foldl_append

theorem proceed_cases (i : Nat) :
    s.step cfg (.proceed i) = s ∨
    ∃ task q next, s.tasks[i]? = some task ∧ task.rest = .ask q next ∧
      s.step cfg (.proceed i) = s.acted cfg i task q next := by
  cases htask : s.tasks[i]? with
  | none =>
    left
    rw [step, htask]
  | some task =>
    cases hrest : task.rest with
    | done a =>
      left
      simp only [step, htask, hrest]
    | ask q next =>
      refine .inr ⟨task, q, next, rfl, hrest, ?_⟩
      simp only [step, htask, hrest]

/-- The calls that were started, with the policies of their clients. -/
def calls : List (Policy × LibraryCall) := s.tasks.map fun task => (task.policy, task.call)

def foundBy (i : Nat) : List (Key × String) :=
  (s.acts.filter fun act => act.task = i).flatMap Act.found

section Acted
variable {cfg s} {i j : Nat} {task other : Task} {q : Action}
  {next : q.Answer → Operation task.call.Answer}

theorem getElem?_calls (h : s.tasks[i]? = some task) :
    s.calls[i]? = some (task.policy, task.call) := by
  rw [calls, List.getElem?_map, h]
  rfl

theorem calls_acted (h : s.tasks[i]? = some task) :
    (s.acted cfg i task q next).calls = s.calls := by
  refine List.ext_getElem? fun j => ?_
  rw [calls, calls, List.getElem?_map, List.getElem?_map, acted, List.getElem?_set]
  split
  · rename_i hij
    subst hij
    have hlength := (List.getElem?_eq_some_iff.1 h).1
    rw [if_pos hlength, h]
    rfl
  · rfl

theorem calls_acted_grow (h : s.tasks[i]? = some task) :
    s.calls <+: (s.acted cfg i task q next).calls :=
  calls_acted h ▸ List.prefix_rfl

theorem mem_calls_run {steps : List SystemStep} {entry : Policy × LibraryCall}
    (h : entry ∈ (s.run cfg steps).calls) :
    entry ∈ s.calls ∨ .start entry.1 entry.2 ∈ steps := by
  induction steps generalizing s with
  | nil => exact .inl h
  | cons e rest ih =>
    rcases ih h with hfirst | hrest
    · cases e with
      | start policy c =>
        rw [calls, step, List.map_append, List.mem_append] at hfirst
        rcases hfirst with hold | hnew
        · exact .inl hold
        · obtain rfl := List.mem_singleton.1 hnew
          exact .inr List.mem_cons_self
      | proceed i =>
        rcases proceed_cases cfg s i with hsame | ⟨task, q, next, htask, -, hacted⟩
        · rw [hsame] at hfirst
          exact .inl hfirst
        · rw [hacted, calls_acted htask] at hfirst
          exact .inl hfirst
      | elapse duration => exact .inl hfirst
    · exact .inr (List.mem_cons_of_mem _ hrest)

theorem tasks_acted (h : s.tasks[i]? = some task)
    (hother : (s.acted cfg i task q next).tasks[j]? = some other) :
    (j = i ∧ other = { task with rest := next (s.memory.answer cfg q).1 }) ∨
      (j ≠ i ∧ s.tasks[j]? = some other) := by
  rw [acted, List.getElem?_set] at hother
  split at hother
  · rename_i hij
    have hlength := (List.getElem?_eq_some_iff.1 h).1
    rw [if_pos (hij ▸ hlength)] at hother
    exact .inl ⟨hij.symm, (Option.some.inj hother).symm⟩
  · rename_i hij
    exact .inr ⟨fun hji => hij hji.symm, hother⟩

theorem foundBy_acted :
    (s.acted cfg i task q next).foundBy j =
      if j = i then s.foundBy i ++ q.found (s.memory.answer cfg q).1 else s.foundBy j := by
  unfold foundBy acted
  rw [List.filter_append, List.flatMap_append]
  by_cases hji : j = i
  · subst hji
    simp [Act.found]
  · have hij : ¬ i = j := fun hij => hji hij.symm
    simp [hji, hij]

end Acted

section Whole
variable {cfg s}

/-- A task that is left to itself ends, and its operation has run as on the store alone. -/
theorem exists_run_whole {i : Nat} {task : Task} (h : s.tasks[i]? = some task) :
    ∃ n, (s.run cfg (List.replicate n (.proceed i))).memory = (task.rest.on cfg s.memory).2 ∧
      (s.run cfg (List.replicate n (.proceed i))).tasks[i]? =
        some { task with rest := .done (task.rest.on cfg s.memory).1 } := by
  obtain ⟨policy, c, rest⟩ := task
  induction rest generalizing s with
  | done a => exact ⟨0, rfl, h⟩
  | ask q next ih =>
    have hlength := (List.getElem?_eq_some_iff.1 h).1
    have hstep : s.step cfg (.proceed i) = s.acted cfg i ⟨policy, c, .ask q next⟩ q next := by
      simp only [step, h]
    have htask : (s.step cfg (.proceed i)).tasks[i]? =
        some ⟨policy, c, next (s.memory.answer cfg q).1⟩ := by
      rw [hstep, acted, List.getElem?_set_self hlength]
    obtain ⟨n, hmemory, hdone⟩ := ih _ htask
    refine ⟨n + 1, ?_, ?_⟩
    · rw [List.replicate_succ, run_cons, hmemory, hstep]
      rfl
    · rw [List.replicate_succ, run_cons, hdone, hstep]
      rfl

/-- A run of calls that run whole is a run of the system in which each task is left to itself. -/
theorem exists_run_of_served (policy : Policy) (steps : List LibraryStep) :
    ∃ run, (System.run cfg {} run).memory = Memory.served cfg policy {} steps ∧
      ∀ policy' c, .start policy' c ∈ run → policy' = policy ∧ .call c ∈ steps := by
  induction steps using List.reverseRecOn with
  | nil => exact ⟨[], rfl, fun _ _ h => by cases h⟩
  | append_singleton before e ih =>
    obtain ⟨run, hmemory, hstarts⟩ := ih
    have hold (policy' : Policy) (c : LibraryCall) (h : .start policy' c ∈ run) :
        policy' = policy ∧ .call c ∈ before ++ [e] :=
      ⟨(hstarts policy' c h).1, List.mem_append_left _ (hstarts policy' c h).2⟩
    cases e with
    | elapse duration =>
      refine ⟨run ++ [.elapse duration], ?_, fun policy' c h => ?_⟩
      · rw [run_append, Memory.served_append, ← hmemory]
        rfl
      · rcases List.mem_append.1 h with h | h
        · exact hold policy' c h
        · cases List.mem_singleton.1 h
    | call c =>
      have htask : ((System.run cfg {} run).step cfg (.start policy c)).tasks[
          (System.run cfg {} run).tasks.length]? = some ⟨policy, c, c.operation policy⟩ := by
        simp [step]
      obtain ⟨n, hwhole, -⟩ := exists_run_whole htask
      refine ⟨run ++ .start policy c ::
        List.replicate n (.proceed (System.run cfg {} run).tasks.length), ?_,
        fun policy' c' h => ?_⟩
      · rw [run_append, run_cons, hwhole, Memory.served_append, ← hmemory]
        rfl
      · rcases List.mem_append.1 h with h | h
        · exact hold policy' c' h
        · rcases List.mem_cons.1 h with h | h
          · cases h
            exact ⟨rfl, List.mem_append_right _ List.mem_cons_self⟩
          · cases List.eq_of_mem_replicate h

end Whole
end System
end CacheCoherence

import CacheCoherence.Proofs.Catalogue
import CacheCoherence.Proofs.Library.Conduct

/-!
# Slots are never misread

Locks, markers, tombstones, dependency lists and cached values share the texts of slots. As long as
every key is used in one role, each text is one of these things and says itself which, a list is
read back as a list, and a value as what some save wrote there. So no call ever finds a slot
corrupt, and an entry is rejected only if it is an item that must not be served. All this holds at
every moment of every run, whatever clients do at the same time.
-/
namespace CacheCoherence
open Operation
variable {cfg : MemorySettings} {roles : Key → Role} {policy : Policy}

section Makes
variable {c : LibraryCall} {q : Call}

theorem LibraryCall.Makes.usesLists (h : c.Makes policy q) (hkeeps : c.KeepsRoles policy roles) :
    q.UsesLists (roles · = .list) := by
  cases q with
  | addDependency lists dependents ttl => exact fun list hlist => hkeeps.lists list (h list hlist)
  | clearDependencies list tombstone => exact hkeeps.lists list h
  | _ => trivial

theorem LibraryCall.Makes.written (h : c.Makes policy q) {answer : q.Answer}
    {entry : Key × String} (hentry : entry ∈ q.written answer) :
    ∃ x, (entry.1, x) ∈ c.writes policy ∧ x.text? = some entry.2 := by
  cases q with
  | setValue lockKey keys value token ttl =>
    cases answer with
    | error fault => cases hentry
    | ok result =>
      change entry ∈ if result.stored then keys.map fun k => (k, value) else [] at hentry
      split at hentry
      · obtain ⟨k, hk, rfl⟩ := List.mem_map.1 hentry
        exact h k hk
      · cases hentry
  | _ => cases hentry

end Makes

namespace System
variable {s s' : System} {k : Key} {x : Payload} {raw : String}

variable (s k x raw) in
/-- The text of something was stored under a key by a call that was to save it there. -/
def Saved : Prop :=
  ∃ act ∈ s.acts, (k, raw) ∈ act.written ∧
    ∃ policy c, s.calls[act.task]? = some (policy, c) ∧ (k, x) ∈ c.writes policy ∧
      x.text? = some raw

theorem Saved.mono (h : s.Saved k x raw) (hacts : s.acts ⊆ s'.acts)
    (hcalls : s.calls <+: s'.calls) : s'.Saved k x raw := by
  obtain ⟨act, hact, hwritten, policy, c, hcall, hrest⟩ := h
  refine ⟨act, hacts hact, hwritten, policy, c, ?_, hrest⟩
  obtain ⟨more, hmore⟩ := hcalls
  rw [← hmore, List.getElem?_append_left (List.getElem?_eq_some_iff.1 hcall).1]
  exact hcall

theorem mem_foundBy {i : Nat} {entry : Key × String} :
    entry ∈ s.foundBy i ↔ ∃ act ∈ s.acts, act.task = i ∧ entry ∈ act.found := by
  simp [foundBy, and_assoc]

variable (s roles) in
/-- An action met nothing corrupt, found only lists and what was saved, and rejected only what its
task had found and is to be refused. -/
structure Justified (act : Act) : Prop where
  intact : ∀ key, act.fault? ≠ some (.corrupt key)
  found : ∀ entry ∈ act.found, roles entry.1 = .list ∨ ∃ x, s.Saved entry.1 x entry.2
  rejected : ∀ key, act.action = .log (.entryRejected key) →
    ∃ raw, (key, raw) ∈ s.foundBy act.task ∧ (roles key).Refuses raw

theorem Justified.mono {act : Act} (h : s.Justified roles act) (hacts : s.acts ⊆ s'.acts)
    (hcalls : s.calls <+: s'.calls) : s'.Justified roles act where
  intact := h.intact
  found := by
    intro entry hentry
    rcases h.found entry hentry with hlist | ⟨x, hsaved⟩
    · exact .inl hlist
    · exact .inr ⟨x, hsaved.mono hacts hcalls⟩
  rejected := by
    intro key hkey
    obtain ⟨raw, hfound, hrefuses⟩ := h.rejected key hkey
    obtain ⟨earlier, hearlier, hrest⟩ := mem_foundBy.1 hfound
    exact ⟨raw, mem_foundBy.2 ⟨earlier, hacts hearlier, hrest⟩, hrefuses⟩

variable (roles) in
/-- The role of a key is the one it is used in, and what it is used for is well formed. -/
def Proper (policy : Policy) (c : LibraryCall) : Prop :=
  c.KeepsRoles policy roles ∧ ∀ entry ∈ c.writes policy, entry.2.WellFormed

variable (roles s) in
/-- All that stands in the store, that was done and that is still to be done is in order. -/
structure Accounted : Prop where
  calls : ∀ entry ∈ s.calls, Proper roles entry.1 entry.2
  memory : s.memory.Legible (roles · = .list) fun k raw => ∃ x, s.Saved k x raw
  tasks : ∀ (i : Nat) (task : Task), s.tasks[i]? = some task →
    Calls (task.call.Makes task.policy) task.rest ∧
    task.rest.Sound (fun key raw => (roles key).Refuses raw)
      (fun answer => ∀ key, task.call.fault? answer ≠ some (.corrupt key)) (s.foundBy i)
  acts : ∀ act ∈ s.acts, s.Justified roles act

/-- What was saved under a key has the role of the key and reads as a document. -/
theorem Accounted.saved (h : s.Accounted roles) (hsaved : s.Saved k x raw) :
    roles k = x.role ∧ x.WellFormed ∧ x.text? = some raw := by
  obtain ⟨act, -, -, policy, c, hcall, hwrites, htext⟩ := hsaved
  obtain ⟨hkeeps, hwell⟩ := h.calls (policy, c) (List.mem_of_getElem? hcall)
  exact ⟨hkeeps.writes (k, x) hwrites, hwell (k, x) hwrites, htext⟩

theorem Accounted.apart (h : s.Accounted roles) (k : Key) (raw : String)
    (hsaved : ∃ x, s.Saved k x raw) : roles k ≠ .list := by
  obtain ⟨x, hsaved⟩ := hsaved
  rw [(h.saved hsaved).1]
  exact x.role_ne_list

theorem Accounted.of_value (h : s.Accounted roles) (hraw : s.memory.content k = some raw)
    (hvalue : isToken raw = false) : roles k = .list ∨ ∃ x, s.Saved k x raw := by
  rcases h.memory.of_value hraw hvalue with ⟨hlist, -⟩ | hsaved
  · exact .inl hlist
  · exact .inr hsaved

section Acted
variable {i : Nat} {task : Task} {q : Action} {next : q.Answer → Operation task.call.Answer}
  (hr : cfg.rules = Rules.standard) (h : s.Accounted roles) (htask : s.tasks[i]? = some task)
  (hrest : task.rest = .ask q next)
include h htask hrest

theorem Accounted.makes (c : Call) (hq : q = .call c) :
    task.call.Makes task.policy c ∧ c.UsesLists (roles · = .list) := by
  have hcalls := (h.tasks i task htask).1
  rw [hrest] at hcalls
  have hmakes := hcalls.1 c hq
  have hproper := h.calls (task.policy, task.call) (List.mem_of_getElem? (getElem?_calls htask))
  exact ⟨hmakes, hmakes.usesLists hproper.1⟩

variable (cfg) in
/-- The answer to an action is not corrupt, and what it finds are lists and what was saved. -/
theorem Accounted.answered :
    (∀ key, q.fault? (s.memory.answer cfg q).1 ≠ some (.corrupt key)) ∧
      ∀ entry ∈ q.found (s.memory.answer cfg q).1,
        roles entry.1 = .list ∨ ∃ x, s.Saved entry.1 x entry.2 := by
  cases q with
  | note n => exact ⟨fun key hfault => (by cases hfault), fun entry hentry => by cases hentry⟩
  | log e => exact ⟨fun key hfault => (by cases hfault), fun entry hentry => by cases hentry⟩
  | call c =>
    obtain ⟨-, hlists⟩ := h.makes htask hrest c rfl
    refine ⟨h.memory.not_corrupt h.apart hlists, fun entry hentry => ?_⟩
    obtain ⟨hraw, hvalue⟩ := Memory.content_of_found (k := entry.1) hentry
    exact h.of_value hraw hvalue

include hr in
theorem Accounted.memory_acted :
    (s.acted cfg i task q next).memory.Legible (roles · = .list)
      fun k raw => ∃ x, (s.acted cfg i task q next).Saved k x raw := by
  have hold (k : Key) (raw : String) (hsaved : ∃ x, s.Saved k x raw) :
      ∃ x, (s.acted cfg i task q next).Saved k x raw := by
    obtain ⟨x, hsaved⟩ := hsaved
    exact ⟨x, hsaved.mono (List.subset_append_left _ _) (calls_acted_grow htask)⟩
  cases q with
  | note n => exact h.memory.mono hold
  | log e => exact h.memory.mono hold
  | call c =>
    obtain ⟨hmakes, hlists⟩ := h.makes htask hrest c rfl
    refine h.memory.perform hr hlists hold fun entry hentry => ?_
    obtain ⟨x, hwrites, htext⟩ := hmakes.written hentry
    refine ⟨x, _, List.mem_append_right _ (List.mem_singleton_self _), hentry, task.policy,
      task.call, ?_, hwrites, htext⟩
    rw [calls_acted htask]
    exact getElem?_calls htask

include hr in
theorem Accounted.acted : (s.acted cfg i task q next).Accounted roles := by
  obtain ⟨hcalls, hsound⟩ := h.tasks i task htask
  rw [hrest] at hcalls hsound
  obtain ⟨hintact, hfound⟩ := h.answered cfg htask hrest
  have hcallsSame : (s.acted cfg i task q next).calls = s.calls := calls_acted htask
  have hgrows : s.acts ⊆ (s.acted cfg i task q next).acts := List.subset_append_left _ _
  have hkept : s.calls <+: (s.acted cfg i task q next).calls := calls_acted_grow htask
  constructor
  · rw [hcallsSame]
    exact h.calls
  · exact h.memory_acted hr htask hrest
  · intro j other hother
    rw [foundBy_acted]
    rcases tasks_acted htask hother with ⟨rfl, rfl⟩ | ⟨hne, hother⟩
    · rw [if_pos rfl]
      exact ⟨hcalls.2 _, hsound.2 _ hintact⟩
    · rw [if_neg hne]
      exact h.tasks j other hother
  · intro act hact
    rcases List.mem_append.1 hact with hold | hnew
    · exact (h.acts act hold).mono hgrows hkept
    · obtain rfl := List.mem_singleton.1 hnew
      refine ⟨hintact, fun entry hentry => ?_, fun key hkey => ?_⟩
      · rcases hfound entry hentry with hlist | ⟨x, hsaved⟩
        · exact .inl hlist
        · exact .inr ⟨x, hsaved.mono hgrows hkept⟩
      · obtain rfl : q = .log (.entryRejected key) := hkey
        obtain ⟨raw, hseen, hrefuses⟩ := hsound.1
        obtain ⟨earlier, hearlier, hrest⟩ := mem_foundBy.1 hseen
        exact ⟨raw, mem_foundBy.2 ⟨earlier, hgrows hearlier, hrest⟩, hrefuses⟩

end Acted

theorem Accounted.step (hr : cfg.rules = Rules.standard) (h : s.Accounted roles) {e : SystemStep}
    (he : ∀ policy c, e = .start policy c → Proper roles policy c) :
    (s.step cfg e).Accounted roles := by
  cases e with
  | start policy c =>
    have hproper := he policy c rfl
    have hkept : s.calls <+: (s.step cfg (.start policy c)).calls :=
      ⟨[(policy, c)], by simp [System.calls, System.step]⟩
    constructor
    · intro entry hentry
      rw [System.calls, System.step, List.map_append, List.mem_append] at hentry
      rcases hentry with hold | hnew
      · exact h.calls entry hold
      · obtain rfl := List.mem_singleton.1 hnew
        exact hproper
    · refine h.memory.mono fun k raw hsaved => ?_
      obtain ⟨x, hsaved⟩ := hsaved
      exact ⟨x, hsaved.mono (List.Subset.refl _) hkept⟩
    · intro i task htask
      rw [System.step, List.getElem?_append] at htask
      split at htask
      · exact h.tasks i task htask
      · obtain rfl := List.mem_singleton.1 (List.mem_of_getElem? htask)
        exact ⟨c.calls_makes policy, hproper.1.sound⟩
    · exact fun act hact => (h.acts act hact).mono (List.Subset.refl _) hkept
  | proceed i =>
    rcases proceed_cases cfg s i with hsame | ⟨task, q, next, htask, hrest, hacted⟩
    · rw [hsame]
      exact h
    · rw [hacted]
      exact h.acted hr htask hrest
  | elapse duration =>
    exact ⟨h.calls, h.memory.advance duration, h.tasks, fun act hact =>
      (h.acts act hact).mono (List.Subset.refl _) List.prefix_rfl⟩

theorem accounted_empty : ({} : System).Accounted roles where
  calls := fun entry hentry => by cases hentry
  memory := fun k raw hraw => by cases hraw
  tasks := fun i task htask => by cases htask
  acts := fun act hact => by cases hact

/-- Every run leaves everything in order. -/
theorem accounted_run (hr : cfg.rules = Rules.standard) {steps : List SystemStep}
    (hsteps : ∀ policy c, .start policy c ∈ steps → Proper roles policy c)
    (h : s.Accounted roles) : (s.run cfg steps).Accounted roles := by
  induction steps generalizing s with
  | nil => exact h
  | cons e rest ih =>
    refine ih (fun policy c hc => hsteps policy c (List.mem_cons_of_mem _ hc)) (h.step hr ?_)
    rintro policy c rfl
    exact hsteps policy c List.mem_cons_self

variable (roles s) in
/-- No text can be taken for something else, and nothing was found or is reported corrupt. -/
structure Legible : Prop where
  /-- Each text is one of a lock, a marker, the tombstone and a document, and says whether it is a
  token. -/
  spelled : ∀ k raw, s.memory.content k = some raw → ∃ content : Content, content.Spells raw ∧
    (∀ other : Content, other.Spells raw → other = content) ∧
    (isToken raw = true ↔ content ≠ .value)
  lists : ∀ k raw, roles k = .list → s.memory.content k = some raw → isToken raw = false →
    ∃ members, DependencyList.decode k raw = .ok members
  intact : ∀ act ∈ s.acts, ∀ key, act.fault? ≠ some (.corrupt key)
  ended : ∀ task ∈ s.tasks, ∀ answer, task.rest = .done answer →
    ∀ key, task.call.fault? answer ≠ some (.corrupt key)

variable (roles s) in
/-- Every value is read as what was saved there, and rejected only if it must not be served. -/
structure Decodes : Prop where
  values : ∀ k raw, roles k ≠ .list → s.memory.content k = some raw → isToken raw = false →
    ∃ x, s.Saved k x raw ∧ (roles k).read? raw = some x
  found : ∀ act ∈ s.acts, ∀ entry ∈ act.found, roles entry.1 ≠ .list →
    ∃ x, s.Saved entry.1 x entry.2 ∧ (roles entry.1).read? entry.2 = some x
  rejected : ∀ act ∈ s.acts, ∀ key, act.action = .log (.entryRejected key) →
    ∃ raw x, (key, raw) ∈ s.foundBy act.task ∧ (roles key).read? raw = some x ∧ x.isValid = false

theorem Accounted.legible (h : s.Accounted roles) : s.Legible roles where
  spelled := by
    intro k raw hraw
    have hspells : ∃ content : Content, content.Spells raw := by
      rcases h.memory k raw hraw with ⟨content, -, hspells⟩ | ⟨-, members, rfl⟩ | ⟨x, hsaved⟩
      · exact ⟨content, hspells⟩
      · refine ⟨.value, ?_⟩
        change (Json.parse? (Json.texts members.keys).compact).isSome = true
        rw [Json.parse?_compact (Json.wellFormed_texts members.keys)]
        rfl
      · obtain ⟨-, hwell, htext⟩ := h.saved hsaved
        obtain ⟨document, -, hparse⟩ := Payload.parse?_text hwell htext
        refine ⟨.value, ?_⟩
        change (Json.parse? raw).isSome = true
        rw [hparse]
        rfl
    obtain ⟨content, hspells⟩ := hspells
    exact ⟨content, hspells, fun other hother => hother.ofText.symm.trans hspells.ofText,
      hspells.isToken_iff⟩
  lists := by
    intro k raw hlist hraw hvalue
    obtain ⟨members, rfl⟩ := h.memory.list h.apart hlist hraw hvalue
    exact ⟨members, DependencyList.decode_encode k members⟩
  intact := fun act hact => (h.acts act hact).intact
  ended := by
    intro task htask answer hdone
    obtain ⟨i, hi⟩ := List.getElem?_of_mem htask
    have hsound := (h.tasks i task hi).2
    rw [hdone] at hsound
    exact hsound

theorem Accounted.decodes (h : s.Accounted roles)
    (hfaithful : ∀ entry ∈ s.calls, ∀ written ∈ entry.2.writes entry.1, written.2.Faithful) :
    s.Decodes roles := by
  have hread {k : Key} {x : Payload} {raw : String} (hsaved : s.Saved k x raw) :
      x.Faithful ∧ (roles k).read? raw = some x := by
    obtain ⟨hrole, -, htext⟩ := h.saved hsaved
    obtain ⟨act, -, -, policy, c, hcall, hwrites, -⟩ := hsaved
    have hx := hfaithful (policy, c) (List.mem_of_getElem? hcall) (k, x) hwrites
    exact ⟨hx, hrole ▸ hx.read? htext⟩
  constructor
  · intro k raw hrole hraw hvalue
    obtain ⟨x, hsaved⟩ := (h.of_value hraw hvalue).resolve_left hrole
    exact ⟨x, hsaved, (hread hsaved).2⟩
  · intro act hact entry hentry hrole
    obtain ⟨x, hsaved⟩ := ((h.acts act hact).found entry hentry).resolve_left hrole
    exact ⟨x, hsaved, (hread hsaved).2⟩
  · intro act hact key hkey
    obtain ⟨raw, hseen, hrole, hrefuses⟩ := (h.acts act hact).rejected key hkey
    obtain ⟨earlier, hearlier, -, hfound⟩ := mem_foundBy.1 hseen
    obtain ⟨x, hsaved⟩ := ((h.acts earlier hearlier).found (key, raw) hfound).resolve_left hrole
    obtain ⟨hxrole, -, htext⟩ := h.saved hsaved
    obtain ⟨hx, hxread⟩ := hread hsaved
    exact ⟨raw, x, hseen, hxread, hrefuses x hxrole.symm hx htext⟩

/-- In every run of clients that use each key in one role, at every moment each text is one thing
and says which, lists can be read, and no call meets or reports anything corrupt. If moreover items
are read back from their documents, every value that stands somewhere or was found is read as what
some save stored there, and is only rejected if it must not be served. -/
theorem slots_never_misread (hr : cfg.rules = Rules.standard) {steps : List SystemStep}
    (hroles : ∀ policy c, .start policy c ∈ steps → c.KeepsRoles policy roles)
    (hwell : ∀ policy c, .start policy c ∈ steps → ∀ entry ∈ c.writes policy,
      entry.2.WellFormed) :
    (System.run cfg {} steps).Legible roles ∧
    ((∀ policy c, .start policy c ∈ steps → ∀ entry ∈ c.writes policy, entry.2.Faithful) →
      (System.run cfg {} steps).Decodes roles) := by
  have haccounted : (System.run cfg {} steps).Accounted roles :=
    accounted_run hr (fun policy c hc => ⟨hroles policy c hc, hwell policy c hc⟩) accounted_empty
  refine ⟨haccounted.legible, fun hfaithful => haccounted.decodes fun entry hentry => ?_⟩
  rcases mem_calls_run hentry with hnone | hstart
  · cases hnone
  · exact hfaithful entry.1 entry.2 hstart

section Example
open Catalogue

def nodeRoles (k : Key) : Role := if k = "k" then .item ⟨Node⟩ else .list

/-- A node is locked and saved, and read while it is being saved. -/
def overlappingRun : List SystemStep :=
  [.start lasting (.takeItemLock (T := ⟨Node⟩) .update (nodeVersion 1)),
    .proceed 0, .proceed 0, .proceed 0,
    .start lasting (.saveItem (T := ⟨Node⟩) (nodeVersion 1) (Token.issue LockKind.update.name 0)
      true []),
    .start lasting (.getItem ⟨Node⟩ "k" true),
    .proceed 1, .proceed 2, .proceed 1, .proceed 2, .proceed 2, .proceed 1, .proceed 1,
    .proceed 2, .elapse 1, .proceed 2, .proceed 1, .proceed 1]

theorem overlappingRun_starts {policy : Policy} {c : LibraryCall}
    (h : .start policy c ∈ overlappingRun) :
    c.KeepsRoles policy nodeRoles ∧ ∀ entry ∈ c.writes policy, entry.2.Faithful := by
  have hlists (k : Key) (hk : k ∈ listKeys lasting.names (nodeVersion 1)) :
      nodeRoles k = .list := by
    have hk' : k ∈ ["d", "l"] := hk
    simp only [List.mem_cons, List.not_mem_nil, or_false] at hk'
    rcases hk' with rfl | rfl <;> rfl
  simp only [overlappingRun, List.mem_cons, SystemStep.start.injEq, reduceCtorEq, false_or,
    List.not_mem_nil, or_false] at h
  rcases h with ⟨rfl, rfl⟩ | ⟨rfl, rfl⟩ | ⟨rfl, rfl⟩
  · exact ⟨⟨hlists, fun _ h => (by cases h), fun _ h => (by cases h)⟩, fun _ h => by cases h⟩
  · have hwrites (entry : Key × Payload) (hentry : entry ∈ (LibraryCall.saveItem (T := ⟨Node⟩)
        (nodeVersion 1) (Token.issue LockKind.update.name 0) true []).writes lasting) :
        entry = ("k", .one (T := ⟨Node⟩) (nodeVersion 1)) := List.mem_singleton.1 hentry
    refine ⟨⟨hlists, fun entry hentry => ?_, fun _ h => (by cases h)⟩, fun entry hentry => ?_⟩
    · rw [hwrites entry hentry]
      rfl
    · rw [hwrites entry hentry]
      exact Node.faithful _
  · refine ⟨⟨fun _ h => (by cases h), fun _ h => (by cases h), fun entry hentry => ?_⟩,
      fun _ h => by cases h⟩
    obtain rfl : entry = ("k", .item ⟨Node⟩) := List.mem_singleton.1 hentry
    rfl

/-- The node stands under its key, was found there by the reader and is read as what it is. -/
theorem slots_never_misread_of_node :
    (System.run {} {} overlappingRun).Legible nodeRoles ∧
    (System.run {} {} overlappingRun).Decodes nodeRoles ∧
    ((System.run {} {} overlappingRun).memory.content "k").isSome = true ∧
    (System.run {} {} overlappingRun).foundBy 2 =
      [("k", ((Cacheable.toJson? (nodeVersion 1)).map Json.compact).getD "")] := by
  have hrules : ({} : MemorySettings).rules = Rules.standard := rfl
  obtain ⟨hlegible, hdecodes⟩ := slots_never_misread hrules
    (fun policy c hc => (overlappingRun_starts hc).1)
    fun policy c hc entry hentry => ((overlappingRun_starts hc).2 entry hentry).wellFormed
  exact ⟨hlegible, hdecodes fun policy c hc => (overlappingRun_starts hc).2, by decide +kernel,
    by decide +kernel⟩

end Example

end System
end CacheCoherence

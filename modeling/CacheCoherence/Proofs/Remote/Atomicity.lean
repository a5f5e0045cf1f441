import CacheCoherence.Proofs.Remote.Decisions

/-!
# Transactional calls are atomic

A transactional call on a server that does not fail, among whatever other clients write between its
commands, does one of two things. It does, in one step and with the same answer, what the store in
memory does on what the server holds at that instant; or it is refused, changes nothing and says so,
and then another client did write meanwhile. Attempts that come to nothing leave nothing behind.
-/
namespace CacheCoherence

namespace Call

/-- What a transactional call comes to if other clients keep it from running: its answer and what it
logs. -/
def refusal : (c : Call) → Option (c.Answer × List Event)
  | .setValue lockKey _ _ _ _ => some (.ok { conflict := true }, [.setAborted lockKey])
  | .deleteValue .. => some (.error (.backend (.contended "delete_value")), [])
  | .writeToken kind keys => some (.ok Token.noLock, [.claimContended kind keys])
  | .releaseToken keys _ => some ((), [.releaseFailed keys])
  | .addDependency .. => some (.error (.backend (.contended "add_dependency")), [])
  | .clearDependencies .. => some (.error (.backend (.contended "clear_dependencies")), [])
  | .getValue .. | .getValues .. | .flush .. | .registerHandler .. => none

/-- The lifetime that a call gives is one that a server can count. -/
def Countable : Call → Prop
  | .setValue _ _ _ _ ttl | .addDependency _ _ ttl => Duration.Countable ttl
  | _ => True

end Call

namespace RemoteStore
variable {cfg : RemoteSettings} {rules : Rules} {mcfg : MemorySettings}

/-- A transactional call asks nothing of the server and changes nothing in memory either, or it is
one transaction whose plan does what the store in memory does. -/
theorem perform_plan (hsame : SameSettings cfg rules mcfg) (rounds : Nat) {c : Call}
    {refused : c.Answer × List Event} (hc : c.refusal = some refused) (httl : c.Countable) :
    (∃ a, perform cfg rules rounds c = .done a ∧
      ∀ m : Memory, m.perform mcfg c = { answer := a, memory := m }) ∨
    ∃ plan, Transacts (perform cfg rules rounds c) plan refused ∧
      (∀ issued s s', s.Alike s' → plan issued s = plan issued s') ∧
      ∀ (s : Server) (m : Memory), Mirrors cfg s m → s.Counts →
        (plan m.issued s).Performs cfg s m (m.perform mcfg c) := by
  cases c with
  | setValue lockKey keys value token ttl =>
    cases hc
    by_cases htoken : token = Token.noLock
    · refine .inl ⟨.ok {}, ?_, fun m => ?_⟩
      · simp only [perform, setValue, if_pos htoken]
        rfl
      · simp only [Memory.perform, Memory.setValue, if_pos htoken]
    · exact .inr ⟨_, setValue_transacts lockKey keys value ttl htoken,
        fun _ _ _ h => setPlan_congr (h.agreesOn _) value token ttl,
        fun s m h _ => h.setPlan_performs hsame lockKey keys value htoken httl⟩
  | deleteValue keys tombstone force =>
    cases hc
    by_cases hkeys : keys = []
    · subst hkeys
      exact .inl ⟨.ok (), rfl, fun m => rfl⟩
    · exact .inr ⟨_, deleteValue_transacts keys tombstone force hkeys,
        fun _ _ _ h => deletePlan_congr (h.agreesOn _) tombstone force,
        fun s m h _ => h.deletePlan_performs hsame keys tombstone force⟩
  | writeToken kind keys =>
    cases hc
    by_cases hkeys : keys = []
    · subst hkeys
      exact .inl ⟨.ok Token.noLock, rfl, fun m => rfl⟩
    · exact .inr ⟨_, writeToken_transacts kind hkeys,
        fun issued _ _ h => claimPlan_congr (h.agreesOn _) issued kind,
        fun s m h _ => h.claimPlan_performs hsame kind hkeys⟩
  | releaseToken keys token =>
    cases hc
    by_cases htoken : token = Token.noLock
    · refine .inl ⟨(), ?_, fun m => ?_⟩
      · simp only [perform, releaseToken, htoken, true_or, if_true]
        rfl
      · simp only [Memory.perform, Memory.releaseToken, if_pos htoken]
    · by_cases hkeys : keys = []
      · subst hkeys
        refine .inl ⟨(), ?_, fun m => ?_⟩
        · simp only [perform, releaseToken, List.isEmpty_nil, or_true, if_true]
          rfl
        · simp only [Memory.perform, Memory.releaseToken, if_neg htoken, List.foldl_nil]
      · exact .inr ⟨_, releaseToken_transacts keys htoken hkeys,
          fun _ _ _ h => releasePlan_congr (h.agreesOn _) token,
          fun s m h _ => h.releasePlan_performs keys htoken⟩
  | addDependency lists dependents ttl =>
    cases hc
    by_cases hlists : lists = []
    · subst hlists
      exact .inl ⟨.ok (), rfl, fun m => rfl⟩
    · exact .inr ⟨_, addDependency_transacts lists dependents ttl hlists,
        fun _ _ _ h => extendPlan_congr (h.agreesOn _) dependents ttl,
        fun s m h hcounts => h.extendPlan_performs hcounts lists dependents httl⟩
  | clearDependencies key tombstone =>
    cases hc
    exact .inr ⟨_, clearDependencies_transacts key tombstone,
      fun _ _ _ h => clearPlan_congr (h.agreesOn _) tombstone,
      fun s m h _ => h.clearPlan_performs hsame key tombstone⟩
  | getValue | getValues | flush | registerHandler => cases hc

def trace {A : Type} (p : RemoteProgram A) (r : Remote) : List Happening :=
  (p.run Observed.answer ⟨r, []⟩).2.log

/-- A call took a server from one state to another and answered as the store in memory does on what
the server holds in the first. -/
structure AsInMemory (cfg : RemoteSettings) (mcfg : MemorySettings) (c : Call) (r : Remote)
    (s s' : Server) (a : c.Answer) (r' : Remote) : Prop where
  answer : a = ((s.view cfg r.issued).perform mcfg c).answer
  events : r'.events = r.events ++ ((s.view cfg r.issued).perform mcfg c).events
  issued : r'.issued = ((s.view cfg r.issued).perform mcfg c).memory.issued
  mirrors : Mirrors cfg s' ((s.view cfg r.issued).perform mcfg c).memory

/-- How a transactional call ends. -/
inductive Atomic (cfg : RemoteSettings) (mcfg : MemorySettings) (c : Call) (r : Remote)
    (a : c.Answer) (r' : Remote) : List Happening → Prop where
  /-- Its writes, all under keys of the store, ran in one step. -/
  | ran {before after : List Happening} {ws : List Write} (hbefore : Quiet before)
      (hafter : Quiet after) (hown : ∀ w ∈ ws, ∃ k, w.key = cfg.serverKey k)
      (hdone : AsInMemory cfg mcfg c r (r.exchange.server.after before)
        (ws.foldl Server.write (r.exchange.server.after before)) a r') :
      Atomic cfg mcfg c r a r' (before ++ .ran ws :: after)
  /-- It had nothing to write in the state that it read. -/
  | idle {before after : List Happening} (hbefore : Quiet before) (hafter : Quiet after)
      (hdone : AsInMemory cfg mcfg c r (r.exchange.server.after before)
        (r.exchange.server.after before) a r') :
      Atomic cfg mcfg c r a r' (before ++ .read :: after)
  /-- It asked nothing of the server. -/
  | unasked (hdone : AsInMemory cfg mcfg c r r.exchange.server r.exchange.server a r') :
      Atomic cfg mcfg c r a r' []
  /-- Another client kept it from running. It wrote nothing and says so. -/
  | refused {hs : List Happening} {events : List Event} (hquiet : Quiet hs)
      (hother : ∃ w, .other w ∈ hs) (hanswer : c.refusal = some (a, events))
      (hevents : r'.events = r.events ++ events) : Atomic cfg mcfg c r a r' hs

theorem counts_after {s : Server} (h : s.Counts) {hs : List Happening} (hquiet : Quiet hs)
    (hothers : ∀ w, .other w ∈ hs → w.toWrite.Countable) : (s.after hs).Counts := by
  induction hs generalizing s with
  | nil => exact h
  | cons e rest ih =>
    refine ih ?_ (fun ws hws => hquiet ws (List.mem_cons_of_mem _ hws)) fun w hw =>
      hothers w (List.mem_cons_of_mem _ hw)
    cases e with
    | other w => exact h.write (hothers w List.mem_cons_self)
    | ran ws => exact absurd List.mem_cons_self (hquiet ws)
    | read => exact h
    | aborted => exact h

theorem atomic_of_settled {c : Call} {plan : Nat → Server → Plan c.Answer}
    {refused : c.Answer × List Event} (hc : c.refusal = some refused)
    (hplan : ∀ issued s s', s.Alike s' → plan issued s = plan issued s')
    (hperforms : ∀ (s : Server) (m : Memory), Mirrors cfg s m → s.Counts →
      (plan m.issued s).Performs cfg s m (m.perform mcfg c))
    {o : Observed} (hcounts : o.server.Counts) {hs : List Happening}
    (hothers : ∀ w, .other w ∈ hs → w.toWrite.Countable) {e : Option Server}
    {done : c.Answer × Observed}
    (h : Transacted (plan o.remote.issued) refused o hs e done) :
    Atomic cfg mcfg c o.remote done.1 done.2.remote hs := by
  obtain ⟨hanswer, -, hevents, hissued, -, hsettled⟩ := h
  have hdone {before : List Happening} {s : Server} (hquiet : Quiet before)
      (hs : ∀ w, .other w ∈ before → w.toWrite.Countable)
      (halike : s.Alike (o.server.after before)) (he : e = some s) :
      (∀ w ∈ (plan o.remote.issued s).writes, OwnWrite cfg w) ∧
      AsInMemory cfg mcfg c o.remote (o.server.after before)
        ((plan o.remote.issued s).writes.foldl Server.write (o.server.after before)) done.1
        done.2.remote := by
    subst he
    have hperform := hperforms (o.server.after before)
      ((o.server.after before).view cfg o.remote.issued) (.view cfg _ _)
      (counts_after hcounts hquiet hs)
    have hsame : plan o.remote.issued s = plan o.remote.issued (o.server.after before) :=
      hplan _ _ _ halike
    rw [Option.elim_some, hsame] at hanswer hevents
    rw [hsame]
    refine ⟨hperform.own, hanswer.trans hperform.answer, ?_, ?_, hperform.mirrors⟩
    · exact hevents.trans (congrArg (o.remote.events ++ ·) hperform.events)
    · rw [hissued s rfl, hsame]
      exact hperform.issued
  generalize he : e = e' at hsettled
  cases hsettled with
  | ran hbefore hafter halike =>
    obtain ⟨hown, hdone⟩ := hdone hbefore
      (fun w hw => hothers w (List.mem_append_left _ hw)) halike he
    exact .ran hbefore hafter (fun w hw => (hown w hw).key) hdone
  | idle hbefore hafter halike hwrites =>
    obtain ⟨-, hdone⟩ := hdone hbefore
      (fun w hw => hothers w (List.mem_append_left _ hw)) halike he
    rw [hwrites] at hdone
    exact .idle hbefore hafter hdone
  | refused hquiet hother =>
    subst he
    refine .refused hquiet hother ?_ hevents
    rw [hanswer]
    exact hc

/-- **Atomicity.** On every server that does not fail and whose lifetimes it can count, and whatever
other clients write between the commands of a transactional call: replaying what happened, in which
the call writes at most once, gives what the server holds at the end; the call did in one step what
the store in memory does, or it was refused and says so; and it made eight attempts at most. -/
theorem transactional_call_atomic (hsame : SameSettings cfg rules mcfg) (rounds : Nat) (c : Call)
    (hc : c.refusal ≠ none) (httl : c.Countable) (r : Remote) (hcalm : r.exchange.failures = [])
    (hcounts : r.exchange.server.Counts)
    (hothers : ∀ race ∈ r.exchange.races, ∀ w ∈ race.writes, w.toWrite.Countable) :
    let program := perform cfg rules rounds c
    let done := program.run Remote.answer r
    let hs := trace program r
    done.2.exchange.server.Alike (r.exchange.server.after hs) ∧ Tries 8 hs ∧
      Atomic cfg mcfg c r done.1 done.2 hs := by
  dsimp only
  obtain ⟨refused, hrefused⟩ := Option.ne_none_iff_exists'.1 hc
  obtain ⟨hresult, hremote⟩ := Observed.run_answer (perform cfg rules rounds c) ⟨r, []⟩
  rw [← hresult, ← hremote]
  obtain ⟨hs, hlog, -, hserver, -, hothers'⟩ :=
    Observed.run_accounts (perform cfg rules rounds c) (o := ⟨r, []⟩) hcalm hothers
  have htrace : trace (perform cfg rules rounds c) r = hs := hlog
  rw [htrace]
  refine ⟨hserver, ?_⟩
  rcases perform_plan hsame rounds hrefused httl with
    ⟨a, hdone, hmemory⟩ | ⟨plan, htransacts, hplan, hperforms⟩
  · rw [hdone] at hlog ⊢
    obtain rfl : hs = [] := hlog.symm
    refine ⟨⟨by decide, by decide⟩, .unasked ⟨?_, ?_, ?_, ?_⟩⟩
    · rw [hmemory]
      rfl
    · rw [hmemory]
      exact (List.append_nil _).symm
    · rw [hmemory]
      rfl
    · rw [hmemory]
      exact .view cfg _ _
  · obtain ⟨hs', e, htransacted⟩ := htransacts ⟨r, []⟩ hcalm
    obtain rfl : hs' = hs := htransacted.log.symm.trans hlog
    exact ⟨htransacted.tries,
      atomic_of_settled (o := ⟨r, []⟩) hrefused hplan hperforms hcounts hothers' htransacted⟩

section Example

/-- A store with a key root and lifetimes by default. -/
def rooted : RemoteSettings := { keyRoot := some "app" }

theorem sameSettings_rooted : SameSettings rooted Rules.standard {} where
  rules := rfl
  lockTtl := rfl
  tombstoneTtl := rfl
  countable_lockTtl := ⟨30000, by decide, by decide⟩
  countable_tombstoneTtl := ⟨5000, by decide, by decide⟩

/-- An empty server on which another client writes to a key right after it is watched. -/
def contested : Remote :=
  { exchange := { races := [⟨"WATCH", [⟨"app:k", some "v", none⟩], 1⟩] } }

/-- A writer who claims the contested key is turned away, although the value that it read there
would have admitted the lock. -/
theorem contested_claim_atomic :
    trace (perform rooted Rules.standard 1 (.writeToken .update ["k"])) contested =
      [.other ⟨"app:k", some "v", none⟩, .read, .aborted] ∧
    Atomic rooted {} (.writeToken .update ["k"]) contested
      ((perform rooted Rules.standard 1 (.writeToken .update ["k"])).run Remote.answer contested).1
      ((perform rooted Rules.standard 1 (.writeToken .update ["k"])).run Remote.answer contested).2
      (trace (perform rooted Rules.standard 1 (.writeToken .update ["k"])) contested) := by
  have hcounts : contested.exchange.server.Counts := fun key slot t hlive _ => by cases hlive
  have hothers : ∀ race ∈ contested.exchange.races, ∀ w ∈ race.writes, w.toWrite.Countable := by
    intro race hrace w hw
    obtain rfl := List.mem_singleton.1 hrace
    obtain rfl := List.mem_singleton.1 hw
    exact fun ms hms => by cases hms
  exact ⟨by decide +kernel, (transactional_call_atomic sameSettings_rooted 1
    (.writeToken .update ["k"]) (by decide) trivial contested rfl hcounts hothers).2.2⟩

end Example

end RemoteStore
end CacheCoherence

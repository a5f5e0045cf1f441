import CacheCoherence.Proofs.Catalogue
import CacheCoherence.Proofs.Library.Bills

/-!
# Metrics account for every call

Calls of the library run in contexts, any number at a time, each on behalf of a client with its own
policy. They take their actions in turn, in any order, and are answered anything at all. At any time
more metrics may be attached elsewhere. What is found in one cell of metrics are the notes of the
calls in the contexts of this cell, whatever their order, and so it is the sum of their bills once
they have all ended. A call in a session is the case in which nothing else happens until it has
ended.
-/
namespace CacheCoherence
open Operation

/-- Metrics hold as many entries of each kind as there are notes. -/
structure Metrics.Records (m : Metrics) (noted : List Note) : Prop where
  calls : m.calls = noted.count .call
  hits : m.hits = noted.count (.lookup true)
  misses : m.misses = noted.count (.lookup false)
  stores : m.stores = noted.count (.store true)
  deletions : m.deletions = noted.count (.deletion true)
  timed : m.getLatencies.length + m.storeLatencies.length + m.deletionLatencies.length =
    Note.timed noted

namespace Metrics.Records
variable {m : Metrics} {noted more : List Note}

theorem of_fresh : Metrics.fresh.Records [] := ⟨rfl, rfl, rfl, rfl, rfl, rfl⟩

theorem perm (h : m.Records noted) (hperm : noted.Perm more) : m.Records more where
  calls := h.calls.trans (hperm.count_eq _)
  hits := h.hits.trans (hperm.count_eq _)
  misses := h.misses.trans (hperm.count_eq _)
  stores := h.stores.trans (hperm.count_eq _)
  deletions := h.deletions.trans (hperm.count_eq _)
  timed := by
    rw [h.timed]
    simp only [Note.timed, hperm.count_eq]

theorem record (h : m.Records noted) (elapsed : Nat) (n : Note) :
    (m.record elapsed n).Records (n :: noted) := by
  obtain ⟨hcalls, hhits, hmisses, hstores, hdeletions, htimed⟩ := h
  rw [Note.timed] at htimed
  rcases n with _ | (_ | _) | _ | (_ | _) | (_ | _) <;> constructor <;>
    simp [Metrics.record, Note.timed, *] <;> omega

end Metrics.Records

/-- A call of the library under way in a context, with its deeds so far. -/
structure Errand : Type 1 where
  policy : Policy
  context : Context
  call : LibraryCall
  rest : Operation (call.Answer × List (Option SaveOutcome))
  deeds : List Deed := []

namespace Errand
variable (e : Errand)

def Ended : Prop := ∃ report, e.rest = .done report

instance : Decidable e.Ended :=
  match h : e.rest with
  | .done report => isTrue ⟨report, h⟩
  | .ask .. => isFalse fun ⟨_, hdone⟩ => nomatch h.symm.trans hdone

def bill : Bill :=
  match e.rest with
  | .done report => e.call.bill e.policy (Deed.called e.deeds) report
  | .ask .. => 0

end Errand

/-- Cells of metrics, and the calls that were started. -/
structure Traffic : Type 1 where
  metrics : MetricsCells
  errands : List Errand := []

inductive TrafficStep : Type 1
  | start (policy : Policy) (context : Context) (c : LibraryCall)
  /-- A call takes its next action, if it has not ended, and is answered in whatever way. -/
  | proceed (errand : Nat) (answer : (q : Action) → q.Answer) (elapsed : Nat)
  /-- Fresh metrics are attached to another context. -/
  | attach

def MetricsCells.after (metrics : MetricsCells) (ctx : Context) (elapsed : Nat) :
    Action → MetricsCells
  | .note n => metrics.record ctx elapsed n
  | _ => metrics

theorem MetricsCells.records_after {metrics : MetricsCells} {cell : Nat} {m : Metrics}
    {noted : List Note} (hcell : metrics.cells[cell]? = some m) (hrecords : m.Records noted)
    (ctx : Context) (elapsed : Nat) (q : Action) :
    ∃ m', (metrics.after ctx elapsed q).cells[cell]? = some m' ∧
      m'.Records ((if ctx = some cell then q.noted else []) ++ noted) := by
  cases q with
  | note n =>
    cases ctx with
    | none => exact ⟨m, hcell, hrecords⟩
    | some i =>
      by_cases hi : i = cell
      · subst hi
        refine ⟨m.record elapsed n, ?_, ?_⟩
        · exact (List.getElem?_modify_eq ..).trans (hcell ▸ rfl)
        · rw [if_pos rfl]
          exact hrecords.record elapsed n
      · refine ⟨m, ?_, ?_⟩
        · exact (List.getElem?_modify_ne _ _ hi).trans hcell
        · rwa [if_neg fun h => hi (Option.some.inj h)]
  | call c => exact ⟨m, hcell, (ite_self (c := ctx = some cell) ([] : List Note)).symm ▸ hrecords⟩
  | log e => exact ⟨m, hcell, (ite_self (c := ctx = some cell) ([] : List Note)).symm ▸ hrecords⟩

namespace Traffic
variable (s : Traffic)

def proceeded (i : Nat) (e : Errand) (q : Action)
    (next : q.Answer → Operation (e.call.Answer × List (Option SaveOutcome))) (answer : q.Answer)
    (elapsed : Nat) : Traffic where
  metrics := s.metrics.after e.context elapsed q
  errands := s.errands.set i { e with rest := next answer, deeds := e.deeds ++ [⟨q, answer⟩] }

def step : TrafficStep → Traffic
  | .start policy ctx c =>
    { s with errands := s.errands ++ [⟨policy, ctx, c, c.reported policy, []⟩] }
  | .proceed i answer elapsed =>
    match s.errands[i]? with
    | none => s
    | some e =>
      match e.rest with
      | .done _ => s
      | .ask q next => s.proceeded i e q next (answer q) elapsed
  | .attach => { s with metrics := s.metrics.fresh.2 }

def run (steps : List TrafficStep) : Traffic := steps.foldl step s

@[simp] theorem run_cons (e : TrafficStep) (steps : List TrafficStep) :
    s.run (e :: steps) = (s.step e).run steps := rfl

theorem proceed_cases (i : Nat) (answer : (q : Action) → q.Answer) (elapsed : Nat) :
    s.step (.proceed i answer elapsed) = s ∨
    ∃ e q next, s.errands[i]? = some e ∧ e.rest = .ask q next ∧
      s.step (.proceed i answer elapsed) = s.proceeded i e q next (answer q) elapsed := by
  cases hget : s.errands[i]? with
  | none =>
    left
    rw [step, hget]
  | some e =>
    cases hrest : e.rest with
    | done report =>
      left
      simp only [step, hget, hrest]
    | ask q next =>
      refine .inr ⟨e, q, next, rfl, hrest, ?_⟩
      simp only [step, hget, hrest]

def within (ctx : Context) : List Errand := s.errands.filter (·.context = ctx)

def noted (ctx : Context) : List Note := (s.within ctx).flatMap fun e => Deed.noted e.deeds

/-- A cell holds the notes that were taken in its contexts, and every call will balance its bill. -/
structure Accounted (cell : Nat) : Prop where
  records : ∃ m, s.metrics.cells[cell]? = some m ∧ m.Records (s.noted (some cell))
  balances : ∀ e ∈ s.errands, e.rest.Always fun more report =>
    (e.call.bill e.policy (Deed.called (e.deeds ++ more)) report).Balances
      (Deed.noted (e.deeds ++ more))

variable {s} {cell : Nat}

theorem noted_proceeded {i : Nat} {e : Errand} (h : s.errands[i]? = some e) (q : Action)
    (next : q.Answer → Operation (e.call.Answer × List (Option SaveOutcome))) (answer : q.Answer)
    (elapsed : Nat) (ctx : Context) :
    ((if e.context = ctx then q.noted else []) ++ s.noted ctx).Perm
      ((s.proceeded i e q next answer elapsed).noted ctx) := by
  obtain ⟨hlength, hget⟩ := List.getElem?_eq_some_iff.1 h
  let later : Errand := { e with rest := next answer, deeds := e.deeds ++ [⟨q, answer⟩] }
  obtain ⟨before, behind, hsplit, -, hset⟩ : ∃ before behind, s.errands = before ++ e :: behind ∧
      before.length = i ∧ s.errands.set i later = before ++ later :: behind :=
    hget ▸ List.exists_of_set hlength
  have hdeeds : Deed.noted later.deeds = Deed.noted e.deeds ++ q.noted := by
    rw [Deed.noted_append]
    exact congrArg (Deed.noted e.deeds ++ ·) (List.append_nil q.noted)
  unfold noted within proceeded
  rw [hset, hsplit, List.filter_append, List.filter_append, List.filter_cons, List.filter_cons]
  by_cases hctx : e.context = ctx
  · rw [if_pos hctx, if_pos (decide_eq_true hctx), if_pos (decide_eq_true hctx)]
    simp only [List.flatMap_append, List.flatMap_cons, hdeeds]
    rw [List.perm_iff_count]
    intro n
    simp only [List.count_append]
    omega
  · rw [if_neg hctx, if_neg (mt of_decide_eq_true hctx), if_neg (mt of_decide_eq_true hctx)]
    exact List.Perm.refl _

theorem Accounted.start (h : s.Accounted cell) (policy : Policy) (ctx : Context) (c : LibraryCall) :
    (s.step (.start policy ctx c)).Accounted cell where
  records := by
    obtain ⟨m, hcell, hrecords⟩ := h.records
    refine ⟨m, hcell, hrecords.perm ?_⟩
    -- A call that starts has no deeds yet.
    have hnone : (List.filter (·.context = some cell)
        [(⟨policy, ctx, c, c.reported policy, []⟩ : Errand)]).flatMap
        (fun e => Deed.noted e.deeds) = [] := by
      rw [List.filter_singleton]
      cases decide (ctx = some cell) <;> rfl
    unfold noted within step
    rw [List.filter_append, List.flatMap_append, hnone, List.append_nil]
  balances := by
    intro e he
    rcases List.mem_append.1 he with hold | hnew
    · exact h.balances e hold
    · obtain rfl := List.mem_singleton.1 hnew
      exact c.billed policy

theorem Accounted.proceeded (h : s.Accounted cell) {i : Nat} {e : Errand}
    (hget : s.errands[i]? = some e) {q : Action}
    {next : q.Answer → Operation (e.call.Answer × List (Option SaveOutcome))}
    (hrest : e.rest = .ask q next) (answer : q.Answer) (elapsed : Nat) :
    (s.proceeded i e q next answer elapsed).Accounted cell where
  records := by
    obtain ⟨m, hcell, hrecords⟩ := h.records
    obtain ⟨m', hcell', hrecords'⟩ :=
      MetricsCells.records_after hcell hrecords e.context elapsed q
    exact ⟨m', hcell', hrecords'.perm (noted_proceeded hget q next answer elapsed (some cell))⟩
  balances := by
    intro e' he'
    rcases List.mem_or_eq_of_mem_set he' with hold | rfl
    · exact h.balances e' hold
    · have hbalances := h.balances e (List.mem_of_getElem? hget)
      rw [hrest] at hbalances
      refine (hbalances answer).mono fun more report hbill => ?_
      rwa [← List.append_cons]

theorem Accounted.step (h : s.Accounted cell) (step : TrafficStep) :
    (s.step step).Accounted cell := by
  cases step with
  | start policy ctx c => exact h.start policy ctx c
  | proceed i answer elapsed =>
    rcases proceed_cases s i answer elapsed with hsame | ⟨e, q, next, hget, hrest, hproceeded⟩
    · rwa [hsame]
    · rw [hproceeded]
      exact h.proceeded hget hrest (answer q) elapsed
  | attach =>
    obtain ⟨m, hcell, hrecords⟩ := h.records
    refine ⟨⟨m, ?_, hrecords⟩, h.balances⟩
    exact List.getElem?_append_left (List.getElem?_eq_some_iff.1 hcell).1 ▸ hcell

theorem Accounted.run (h : s.Accounted cell) (steps : List TrafficStep) :
    (s.run steps).Accounted cell := by
  induction steps generalizing s with
  | nil => exact h
  | cons e rest ih => exact ih (h.step e)

section Session
variable {e : Errand} {i : Nat}

/-- A call that is left to itself in a session ends as it does there, with the same metrics. -/
theorem exists_run_to_end (h : s.errands[i]? = some e) {session : Session}
    (hmetrics : s.metrics = session.metrics) :
    ∃ steps, (s.run steps).metrics = (e.rest.through e.context session).2.metrics ∧
      ∃ deeds, (s.run steps).errands = s.errands.set i
        { e with rest := .done (e.rest.through e.context session).1, deeds := deeds } := by
  obtain ⟨policy, ctx, c, rest, deeds⟩ := e
  induction rest generalizing s session deeds with
  | done report =>
    obtain ⟨hlength, hget⟩ := List.getElem?_eq_some_iff.1 h
    exact ⟨[], hmetrics, deeds, hget ▸ (List.set_getElem_self hlength).symm⟩
  | ask q next ih =>
    have hlength := (List.getElem?_eq_some_iff.1 h).1
    let answer (q : Action) := (Session.answer ctx q session).1
    let after := s.proceeded i ⟨policy, ctx, c, .ask q next, deeds⟩ q next (answer q) 0
    have hstep : s.step (.proceed i answer 0) = after := by
      simp only [step, h]
      rfl
    have hafter : after.metrics = (Session.answer ctx q session).2.metrics := by
      cases q with
      | call c =>
        change s.metrics = (session.perform c).2.metrics
        rcases session.perform_cases c with ⟨-, heq⟩ | ⟨-, heq⟩ <;>
          rw [heq] <;> exact hmetrics
      | note n => exact congrArg (·.record ctx 0 n) hmetrics
      | log e => exact hmetrics
    obtain ⟨steps, hrun, deeds', herrands⟩ :=
      ih (answer q) hafter _ (List.getElem?_set_self hlength)
    refine ⟨.proceed i answer 0 :: steps, ?_, deeds', ?_⟩
    · rw [run_cons, hstep, hrun]
      rfl
    · rw [run_cons, hstep, herrands]
      exact List.set_set ..

/-- A call in a session is traffic of its own. -/
theorem exists_run_of_session (session : Session) (name : String) (c : LibraryCall)
    (hmetrics : s.metrics = session.metrics) :
    let ran := session.run name (c.operation session.policy)
    ∃ steps report deeds, (s.run steps).metrics = ran.2.metrics ∧ report.1 = ran.1 ∧
      (s.run steps).errands = s.errands ++
        [⟨session.policy, session.context name, c, .done report, deeds⟩] := by
  intro ran
  let ctx := session.context name
  let e : Errand := ⟨session.policy, ctx, c, c.reported session.policy, []⟩
  have hget : (s.step (.start session.policy ctx c)).errands[s.errands.length]? = some e :=
    List.getElem?_concat_length
  obtain ⟨steps, hrun, deeds, herrands⟩ := exists_run_to_end hget hmetrics
  have hran : ran = ((e.rest.through ctx session).1.1, (e.rest.through ctx session).2) := by
    change (c.operation session.policy).through ctx session = _
    rw [← c.fst_map_reported, map_eq_pure_bind, through_bind, through_pure]
  refine ⟨.start session.policy ctx c :: steps, (e.rest.through ctx session).1, deeds, ?_, ?_, ?_⟩
  · rw [run_cons, hrun, hran]
  · rw [hran]
  · rw [run_cons, herrands]
    change (s.errands ++ [e]).set s.errands.length _ = _
    rw [List.set_append_right _ _ (Nat.le_refl _), Nat.sub_self]
    rfl

end Session

/-- **Account of the metrics.** Let metrics be freshly attached, and let calls of the library run in
any contexts, in turn and answered anything at all. Once all calls in the contexts of these metrics
have ended, the metrics are the sum of their bills. As many operations reached the store as there
are latencies of reads, writes and removals, and takes and releases of locks that called the store.
There are as many hits and misses as lookups that were returned by reads of types that are cached,
with as many hits as there are items among them, and there is one store for each save that stored
and one deletion for each removal that had a lock and succeeded. The saves and locks of members of
collections are reported by the calls and count as well. -/
theorem metrics_account_for_calls (before : MetricsCells) (steps : List TrafficStep) :
    let ctx := before.fresh.1
    let s := run { metrics := before.fresh.2 } steps
    let total := ((s.within ctx).map Errand.bill).sum
    (∀ policy (c : LibraryCall), Prod.fst <$> c.reported policy = c.operation policy) ∧
      ((∀ e ∈ s.within ctx, e.Ended) → ∃ m, s.metrics.read ctx = .ok m ∧
        m.calls = m.getLatencies.length + m.storeLatencies.length + m.deletionLatencies.length +
          total.locks ∧
        m.hits + m.misses = total.lookups ∧ m.hits = total.hits ∧ m.stores = total.stores ∧
        m.deletions = total.deletions) := by
  intro ctx s total
  refine ⟨fun policy c => c.fst_map_reported policy, fun hended => ?_⟩
  have hfresh : ({ metrics := before.fresh.2 } : Traffic).Accounted before.cells.length :=
    ⟨⟨.fresh, List.getElem?_concat_length, .of_fresh⟩, nofun⟩
  have haccounted : s.Accounted before.cells.length := hfresh.run steps
  obtain ⟨m, hcell, hrecords⟩ := haccounted.records
  have htotal : total.Balances (s.noted ctx) := by
    refine .flatMap fun e he => ?_
    obtain ⟨report, hdone⟩ := hended e he
    have hbalances := haccounted.balances e (List.mem_of_mem_filter he)
    rw [hdone] at hbalances
    have hbill : (e.call.bill e.policy (Deed.called (e.deeds ++ [])) report).Balances
        (Deed.noted (e.deeds ++ [])) := hbalances
    rw [List.append_nil] at hbill
    unfold Errand.bill
    rwa [hdone]
  refine ⟨m, ?_, ?_, ?_, ?_, ?_, ?_⟩
  · change Except.ok (s.metrics.cells.getD _ _) = _
    rw [List.getD_eq_getElem?_getD, hcell, Option.getD_some]
  · rw [hrecords.timed, hrecords.calls]
    exact htotal.calls
  · rw [hrecords.hits, hrecords.misses]
    exact htotal.lookups
  · exact hrecords.hits.trans htotal.hits
  · exact hrecords.stores.trans htotal.stores
  · exact hrecords.deletions.trans htotal.deletions

/-- Locks are granted and values are stored, and every other call fails. -/
def grudging : (q : Action) → q.Answer
  | .call (.writeToken kind _) => .ok (Token.issue kind.name 0)
  | .call (.setValue ..) => .ok { stored := true }
  | .call c => c.failed (.backend .injected)
  | .note _ => ()
  | .log _ => ()

/-- A save of the members of a collection and a batch read take turns in clones of one context, and
other metrics are attached meanwhile. -/
def clonedContexts : List TrafficStep :=
  .start Catalogue.lasting (some 0) (.saveMembers (T := ⟨Catalogue.Plain⟩) [⟨"1", 1⟩, ⟨"2", 2⟩]) ::
    .start Catalogue.lasting (some 0) (.getItems ⟨Catalogue.Plain⟩ ["k", "l"] true) :: .attach ::
    (List.replicate 18 [.proceed 0 grudging 3, .proceed 1 grudging 2]).flatten

theorem metrics_account_for_clonedContexts :
    let s := run { metrics := ({} : MetricsCells).fresh.2 } clonedContexts
    (∀ e ∈ s.within (some 0), e.Ended) ∧ ∃ m, s.metrics.read (some 0) = .ok m ∧
      m.calls = m.getLatencies.length + m.storeLatencies.length + m.deletionLatencies.length + 4 ∧
      m.hits + m.misses = 2 ∧ m.hits = 0 ∧ m.stores = 2 ∧ m.deletions = 0 := by
  intro s
  have hended : ∀ e ∈ s.within (some 0), e.Ended := by
    decide +kernel
  obtain ⟨m, hread, hcalls, hlookups, hhits, hstores, hdeletions⟩ :=
    (metrics_account_for_calls {} clonedContexts).2 hended
  have htotal : ((s.within (some 0)).map Errand.bill).sum =
    { locks := 4, lookups := 2, stores := 2 } := by decide +kernel
  exact ⟨hended, m, hread, hcalls.trans (congrArg (_ + ·.locks) htotal),
    hlookups.trans (congrArg Bill.lookups htotal), hhits.trans (congrArg Bill.hits htotal),
    hstores.trans (congrArg Bill.stores htotal), hdeletions.trans (congrArg Bill.deletions htotal)⟩

end Traffic
end CacheCoherence

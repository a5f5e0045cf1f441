import CacheCoherence.Proofs.Remote.Plan
import CacheCoherence.Proofs.Remote.Transactions

/-!
# Transactional calls carry out their plans

Six calls of a store on a server are transactions. Two of them are tried once and answer for
themselves when they are refused; the other four are repeated. For each of them, whatever other
clients write between its commands, the call ends as its plan says for one state of the server on
its way, or it is refused. What has to be shown is that everything a decision depends on is watched:
the texts that it read, and for dependency lists also the lifetimes that it asked for one by one.
-/
namespace CacheCoherence
namespace RemoteStore
open RemoteCall Observed
variable {cfg : RemoteSettings} {rules : Rules} {A : Type}

/-- A call carried out its plan for the state of the server that it settled for, or it was
refused. -/
structure Transacted (plan : Server → Plan A) (refused : A × List Event) (o : Observed)
    (hs : List Happening) (e : Option Server) (done : A × Observed) : Prop where
  answer : done.1 = e.elim refused.1 fun e => (plan e).answer
  log : done.2.log = o.log ++ hs
  events : done.2.remote.events = o.remote.events ++ e.elim refused.2 fun e => (plan e).events
  issued : ∀ s, e = some s → done.2.remote.issued = o.remote.issued + (plan s).tokens
  tries : Tries transactionAttempts hs
  settled : Settled (fun s => (plan s).writes) o.server hs e

/-- A call is one transaction: on a server that does not fail, it carries out its plan for the state
of the server that it settles for, or it is refused. -/
def Transacts (p : RemoteProgram A) (plan : Nat → Server → Plan A) (refused : A × List Event) :
    Prop :=
  ∀ o : Observed, o.Calm →
    ∃ hs e, Transacted (plan o.remote.issued) refused o hs e (p.run Observed.answer o)

theorem run_bind_of_run {B : Type} {p : RemoteProgram A} {a : A} {o o' : Observed}
    (h : p.run Observed.answer o = (a, o')) (rest : A → RemoteProgram B) :
    (p >>= rest).run Observed.answer o = (rest a).run Observed.answer o' := by
  refine (Program.run_bind Observed.answer p rest o).trans ?_
  rw [h]

/-- A connection of its own starts without watches. -/
theorem on_connect_ready {o : Observed} (h : o.Calm) :
    ∃ o', connect.on o = (.ok (), o') ∧ o'.Ready ∧ o'.log = o.log ∧ o.Silent o' ∧
      o'.server.Alike o.server := by
  obtain ⟨o', hconnect, hpassed⟩ := on_connect h
  refine ⟨o', hconnect, hpassed.ready, ?_, hpassed.silent, ?_⟩
  · rw [hpassed.log]
    simp
  · rw [hpassed.server]
    exact Server.alike_unwatch o.server

/-- A call that is tried once carries out its plan if it answers and logs as the plan says after its
transaction ran, and as refused after it did not. -/
theorem transacted_of_commit {plan : Server → Plan A} {refused : A × List Event}
    {o : Observed} {keys : List Key} {s : Server} {done : Bool} {hs : List Happening}
    {e : Option Server} {final : A × Observed}
    (hdone : if done then ∃ e', e = some e' ∧ s.AgreesOn keys e' else e = none)
    (hcongr : ∀ e', s.AgreesOn keys e' → plan s = plan e') (htries : Tries 1 hs)
    (hsettled : Settled (fun s => (plan s).writes) o.server hs e)
    (hanswer : final.1 = if done then (plan s).answer else refused.1)
    (hlog : final.2.log = o.log ++ hs)
    (hevents : final.2.remote.events =
      o.remote.events ++ if done then (plan s).events else refused.2)
    (hissued : final.2.remote.issued = o.remote.issued + (plan s).tokens) :
    Transacted plan refused o hs e final := by
  have htries' : Tries transactionAttempts hs := htries.mono (by decide)
  cases done with
  | false =>
    obtain rfl : e = none := hdone
    exact ⟨hanswer, hlog, hevents, fun _ h => (by cases h), htries', hsettled⟩
  | true =>
    obtain ⟨e, rfl, hagrees⟩ := hdone
    rw [hcongr e hagrees] at hanswer hevents hissued
    refine ⟨hanswer, hlog, hevents, fun e' he' => ?_, htries', hsettled⟩
    cases he'
    exact hissued

/-- What `setValue` answers and logs once it knows whether its transaction ran. -/
theorem on_setResult (decision : Decision) (lockKey : Key) (token : Token) (done : Bool)
    (o : Observed) :
    ∃ o', RemoteCall.on (do
        if done then
          if decision.conflict then
            log (.setConflict lockKey token decision.refresh)
          return SetResult.mk decision.set decision.conflict
        else
          log (.setAborted lockKey)
          return { conflict := true }) o =
        (.ok (if done then ⟨decision.set, decision.conflict⟩ else { conflict := true }), o') ∧
      o'.log = o.log ∧
      o'.remote.events = o.remote.events ++ (if done then
        (if decision.conflict then [.setConflict lockKey token decision.refresh] else [])
        else [.setAborted lockKey]) ∧
      o'.remote.issued = o.remote.issued := by
  obtain ⟨set, clear, conflict, refresh⟩ := decision
  cases done with
  | false => exact ⟨_, rfl, List.append_nil _, rfl, rfl⟩
  | true =>
    cases conflict with
    | false => exact ⟨o, rfl, rfl, (List.append_nil _).symm, rfl⟩
    | true => exact ⟨_, rfl, List.append_nil _, rfl, rfl⟩

theorem setValue_transacts (lockKey : Key) (keys : List Key) (value : String) {token : Token}
    (ttl : Nat) (htoken : token ≠ Token.noLock) :
    Transacts (setValue cfg rules lockKey keys value token ttl).run
      (fun _ => setPlan cfg rules lockKey keys value token ttl)
      (.ok { conflict := true }, [.setAborted lockKey]) := by
  intro o ho
  obtain ⟨o₁, hconnect, hready, hlog₁, hsilent₁, halike⟩ := on_connect_ready ho
  obtain ⟨s, before, after, o₂, hread, hwatching, hsilent₂⟩ :=
    on_watchAndRead hready [cfg.serverKey lockKey]
  obtain ⟨done, hs, e, o₃, hcommit, hlog, hsilent₃, -, htries, hsettled, hdone⟩ :=
    hwatching.commit (fun s => (setPlan cfg rules lockKey keys value token ttl s).writes)
      (fun e he => congrArg Plan.writes (setPlan_congr he value token ttl))
      (fun _ => rfl) (fun hnone => hnone)
  have hsilent := (hsilent₁.trans hsilent₂).trans hsilent₃
  rw [hlog₁] at hlog
  -- What is logged and answered once it is known whether the transaction ran.
  obtain ⟨o₄, hrest, hlog₄, hevents, hissued⟩ := on_setResult
    (rules.decide (s.content (cfg.serverKey lockKey)) value token) lockKey token done o₃
  refine ⟨hs, e, ?_⟩
  change Transacted _ _ o hs e ((setValue cfg rules lockKey keys value token ttl).on o)
  rw [setValue, if_neg htoken]
  dsimp only
  rw [on_bind_of_ok hconnect, on_bind_of_ok hread]
  change Transacted _ _ o hs e (RemoteCall.on (RemoteCall.commit
    (setPlan cfg rules lockKey keys value token ttl s).writes >>= _) o₂)
  rw [on_bind_of_ok hcommit]
  refine Eq.mpr (congrArg (Transacted _ _ o hs e) hrest) ?_
  refine transacted_of_commit hdone (fun _ h => setPlan_congr h value token ttl) htries
    (hsettled.congr halike) ?_ (hlog₄.trans hlog) ?_ (hissued.trans hsilent.1)
  · cases done <;> rfl
  · rw [hevents, hsilent.2]
    rfl

section Attempts
variable {β : Type} {writes : Server → List Write} {result : Server → Except Fault β}

/-- An attempt that watches keys, reads them and commits what it makes of them. -/
theorem attempts_of_watched {attempt : RemoteCall (Option β)} (targets : List Key)
    (finish : List (Option String) → List Write × β)
    (hattempt : attempt = do
      let current ← watchAndRead targets
      let done ← RemoteCall.commit (finish current).1
      return if done then some (finish current).2 else none)
    (hwrites : ∀ s : Server, (finish (targets.map s.content)).1 = writes s)
    (hresult : ∀ s : Server, .ok (finish (targets.map s.content)).2 = result s)
    (hcongr : ∀ s e, s.AgreesOn targets e → writes s = writes e ∧ result s = result e) :
    Attempts writes result attempt := by
  intro o ho
  obtain ⟨s, before, after, o₁, hread, hwatching, hsilent₁⟩ := on_watchAndRead ho targets
  obtain ⟨done, hs, e, o₂, hcommit, hlog, hsilent₂, hready, htries, hsettled, hdone⟩ :=
    hwatching.commit writes (fun e he => (hcongr s e he).1)
      (fun _ => hwrites s) (fun hnone => hwrites s ▸ hnone)
  refine ⟨hs, e, o₂, ?_, hlog, hsilent₁.trans hsilent₂, fun _ => hready, htries, hsettled⟩
  rw [hattempt, on_bind_of_ok hread, on_bind_of_ok hcommit, on_pure]
  cases done with
  | false =>
    obtain rfl : e = none := hdone
    rfl
  | true =>
    obtain ⟨e, rfl, hagrees⟩ := hdone
    rw [Option.elim_some, ← (hcongr s e hagrees).2, ← hresult]
    rfl

theorem on_retrying {attempt : RemoteCall (Option β)} (h : Attempts writes result attempt)
    (operation : String) {o : Observed} (ho : o.Calm) : ∃ hs e o',
      (do connect; retrying operation attempt : RemoteCall β).on o =
        (e.elim (.error (.backend (.contended operation))) result, o') ∧
      o'.log = o.log ++ hs ∧ o.Silent o' ∧ Tries transactionAttempts hs ∧
      Settled writes o.server hs e := by
  obtain ⟨o₁, hconnect, hready, hlog₁, hsilent₁, halike⟩ := on_connect_ready ho
  obtain ⟨hs, e, o', hattempts, hlog, hsilent, htries, hsettled⟩ :=
    on_attempts h operation (transactionAttempts - 1) hready
  refine ⟨hs, e, o', ?_, hlog.trans (by rw [hlog₁]), hsilent₁.trans hsilent, htries, ?_⟩
  · rw [on_bind_of_ok hconnect]
    exact hattempts
  · exact hsettled.congr halike

/-- A call that repeats an attempt on a connection of its own carries out the plan of the
attempt. -/
theorem transacts_retrying {attempt : RemoteCall (Option β)}
    {plan : Server → Plan (Except Fault β)}
    (h : Attempts (fun s => (plan s).writes) (fun s => (plan s).answer) attempt)
    (hsilent : ∀ s, (plan s).tokens = 0 ∧ (plan s).events = []) (operation : String) :
    Transacts (do connect; retrying operation attempt : RemoteCall β).run (fun _ => plan)
      (.error (.backend (.contended operation)), []) := by
  intro o ho
  obtain ⟨hs, e, o', hrun, hlog, hkept, htries, hsettled⟩ := on_retrying h operation ho
  refine ⟨hs, e, Eq.mpr (congrArg (Transacted _ _ o hs e) hrun) ?_⟩
  refine ⟨rfl, hlog, ?_, ?_, htries, hsettled⟩
  · cases e with
    | none => exact hkept.2.trans (List.append_nil _).symm
    | some e =>
      simp only [Option.elim_some, (hsilent e).2, List.append_nil]
      exact hkept.2
  · intro s _
    rw [(hsilent s).1]
    exact hkept.1

end Attempts

section Delete
variable (keys : List Key) (tombstone force : Bool)

theorem tryDelete_attempts (hkeys : keys ≠ []) :
    Attempts (fun s => (deletePlan cfg keys tombstone force s).writes)
      (fun s => (deletePlan cfg keys tombstone force s).answer)
      (tryDelete cfg (keys.map cfg.serverKey) tombstone force) := by
  cases force with
  | false =>
    refine attempts_of_watched (keys.map cfg.serverKey) (fun current =>
      ((((keys.map cfg.serverKey).zip current).filter fun slot => !slot.2.any isToken).map
        fun slot => invalidation cfg tombstone slot.1, ())) ?_ ?_ (fun _ => rfl) ?_
    · rfl
    · intro s
      simp only [List.map_map, List.zip_map', List.filter_map, deletePlan, Bool.false_or,
        Function.comp_def]
    · exact fun s e h => ⟨congrArg Plan.writes (deletePlan_congr h tombstone false), rfl⟩
  | true =>
    -- Nothing is watched, so nobody can touch a watched key.
    intro o ho
    obtain ⟨ws, ws', o', htransaction⟩ :=
      on_transaction ho.calm (deletePlan cfg keys tombstone true o.server).writes
    have huntouched : (o.server.others ws).touched = false := by
      rw [Server.touched_others_of_unwatched _ ho.watched, ho.touched]
    rw [if_neg (by simp [huntouched])] at htransaction
    obtain ⟨hrun, hpassed⟩ := htransaction
    have hfree : (((keys.map cfg.serverKey).zip ((keys.map cfg.serverKey).map fun _ => none)).filter
        fun slot : Key × Option String => !slot.2.any isToken).map
          (fun slot => invalidation cfg tombstone slot.1) =
        (deletePlan cfg keys tombstone true o.server).writes := by
      simp only [List.map_map, List.zip_map', List.filter_map, deletePlan, Bool.true_or,
        Function.comp_def, Option.any_none, Bool.not_false]
    have hwrites : (deletePlan cfg keys tombstone true o.server).writes ≠ [] := by
      simp [deletePlan, hkeys, List.filter_eq_self.2]
    refine ⟨_, some (o.server.others ws), o', ?_, hpassed.log, hpassed.silent, ?_,
      ?_, ?_⟩
    · have hattempt : tryDelete cfg (keys.map cfg.serverKey) tombstone true = (do
          let done ← RemoteCall.commit (deletePlan cfg keys tombstone true o.server).writes
          return if done then some () else none) := by
        rw [← hfree]
        rfl
      rw [hattempt, RemoteCall.commit, if_neg (by simpa using hwrites), on_bind_of_ok hrun]
      rfl
    · exact fun h => by cases h
    · rw [List.append_assoc]
      exact tries_commit ws ws' (e := .ran _) rfl
    · rw [List.append_assoc]
      have hreached : (o.server.others ws).Alike (o.server.after (ws.map .other)) := by
        rw [Server.after_others]
        exact .refl _
      exact Settled.ran (quiet_others ws) (quiet_others ws') hreached

theorem deleteValue_transacts (hkeys : keys ≠ []) :
    Transacts (deleteValue cfg keys tombstone force).run
      (fun _ => deletePlan cfg keys tombstone force)
      (.error (.backend (.contended "delete_value")), []) := by
  rw [deleteValue, if_neg (by simpa using hkeys)]
  exact transacts_retrying (tryDelete_attempts keys tombstone force hkeys) (fun _ => ⟨rfl, rfl⟩) _

end Delete

section Release
variable (keys : List Key) {token : Token}

theorem tryRelease_attempts (cfg : RemoteSettings) (token : Token) :
    Attempts (fun s => (releasePlan cfg keys token s).writes) (fun _ => .ok ())
      (tryRelease (keys.map cfg.serverKey) token) := by
  refine attempts_of_watched (keys.map cfg.serverKey) (fun current =>
    ((((keys.map cfg.serverKey).zip current).filter fun slot => slot.2 = some token).map
      fun slot => .delete slot.1, ())) ?_ ?_ (fun _ => rfl) ?_
  · rfl
  · intro s
    simp only [List.map_map, List.zip_map', List.filter_map, releasePlan, Function.comp_def]
  · exact fun s e h => ⟨congrArg Plan.writes (releasePlan_congr h token), rfl⟩

theorem releaseToken_transacts (htoken : token ≠ Token.noLock) (hkeys : keys ≠ []) :
    Transacts (releaseToken cfg keys token) (fun _ => releasePlan cfg keys token)
      ((), [.releaseFailed keys]) := by
  intro o ho
  obtain ⟨hs, e, o', hrun, hlog, hsilent, htries, hsettled⟩ :=
    on_retrying (tryRelease_attempts keys cfg token) "release_sentinel" ho
  refine ⟨hs, e, ?_⟩
  rw [releaseToken, if_neg (by simp [htoken, hkeys])]
  refine Eq.mpr (congrArg (Transacted _ _ o hs e) (run_bind_of_run hrun _)) ?_
  cases e with
  | none =>
    exact ⟨rfl, (List.append_nil _).trans hlog, congrArg (· ++ _) hsilent.2,
      fun s h => (by cases h), htries, hsettled⟩
  | some e =>
    exact ⟨rfl, hlog, hsilent.2.trans (List.append_nil _).symm, fun s _ => hsilent.1, htries,
      hsettled⟩

end Release

section Clear
variable (key : Key) (tombstone : Bool)

/-- What a removal of a list and of all that is on it makes of the text that its slot holds. -/
def clearing (cfg : RemoteSettings) (current : List (Option String)) :
    List Write × Except Fault Unit :=
  let decoded := match listText current.getLast?.join with
    | some raw => DependencyList.decode key raw
    | none => .ok .empty
  let listed := match decoded with
    | .ok set => set.keys.map cfg.serverKey
    | .error _ => []
  ((listed ++ [cfg.serverKey key]).map (invalidation cfg tombstone), decoded.map fun _ => ())

/-- A removal decides on the text in its slot as its plan does on the server. -/
theorem clearing_eq (cfg : RemoteSettings) (s : Server) :
    clearing key tombstone cfg ([cfg.serverKey key].map s.content) =
      ((clearPlan cfg key tombstone s).writes, (clearPlan cfg key tombstone s).answer) := by
  unfold clearing clearPlan decoded
  simp only [List.map_cons, List.map_nil, List.getLast?_singleton, Option.join_some]
  cases listText (s.content (cfg.serverKey key)) with
  | none => simp
  | some raw =>
    dsimp only
    cases DependencyList.decode key raw <;> simp [Function.comp_def]

theorem tryClearDependencies_attempts (cfg : RemoteSettings) :
    Attempts (fun s => (clearPlan cfg key tombstone s).writes)
      (fun s => .ok (clearPlan cfg key tombstone s).answer)
      (tryClearDependencies cfg key tombstone) := by
  refine attempts_of_watched [cfg.serverKey key] (clearing key tombstone cfg) rfl
    (fun s => ?_) (fun s => ?_) fun s e h => ?_
  · rw [clearing_eq]
  · rw [clearing_eq]
  · have hplan := clearPlan_congr h tombstone
    exact ⟨congrArg Plan.writes hplan, congrArg (Except.ok ∘ Plan.answer) hplan⟩

theorem clearDependencies_transacts :
    Transacts (clearDependencies cfg key tombstone).run (fun _ => clearPlan cfg key tombstone)
      (.error (.backend (.contended "clear_dependencies")), []) := by
  intro o ho
  obtain ⟨hs, e, o', hrun, hlog, hsilent, htries, hsettled⟩ :=
    on_retrying (tryClearDependencies_attempts key tombstone cfg) "clear_dependencies" ho
  refine ⟨hs, e, ?_⟩
  have hcall (rest : Except Fault Unit → RemoteCall Unit) :
      (connect >>= fun _ => retrying "clear_dependencies"
        (tryClearDependencies cfg key tombstone) >>= rest) =
      (connect >>= fun _ => retrying "clear_dependencies"
        (tryClearDependencies cfg key tombstone)) >>= rest := (bind_assoc _ _ _).symm
  change Transacted _ _ o hs e ((clearDependencies cfg key tombstone).on o)
  rw [clearDependencies, hcall]
  cases e with
  | none =>
    rw [on_bind_of_error hrun]
    exact ⟨rfl, hlog, hsilent.2.trans (List.append_nil _).symm, fun s h => (by cases h), htries,
      hsettled⟩
  | some e =>
    rw [on_bind_of_ok hrun]
    cases hdecoded : decoded cfg key e with
    | ok set =>
      have hanswer : (clearPlan cfg key tombstone e).answer = .ok () := by
        simp only [clearPlan, hdecoded, Except.map]
      have hevents : (clearPlan cfg key tombstone e).events = [] := by
        simp only [clearPlan, hdecoded]
      rw [hanswer]
      refine ⟨hanswer.symm, hlog, ?_, fun s _ => hsilent.1, htries, hsettled⟩
      simp only [Option.elim_some, hevents, List.append_nil]
      exact hsilent.2
    | error fault =>
      have hanswer : (clearPlan cfg key tombstone e).answer = .error fault := by
        simp only [clearPlan, hdecoded, Except.map]
      have hevents : (clearPlan cfg key tombstone e).events = [.dependenciesCorrupt key] := by
        simp only [clearPlan, hdecoded]
      rw [hanswer]
      refine ⟨hanswer.symm, (List.append_nil _).trans hlog, ?_, fun s _ => hsilent.1, htries,
        hsettled⟩
      simp only [Option.elim_some, hevents]
      exact congrArg (· ++ _) hsilent.2

end Clear

section Extend
variable (lists dependents : List Key) (ttl : Nat)

/-- Whether lists can be merged does not depend on the lifetimes that were told. If these are as at
the reading, so are the writes. -/
theorem mapM_extension (cfg : RemoteSettings) (s : Server) {left : List Int}
    (hleft : left.length = lists.length) :
    match lists.mapM (extended cfg dependents ttl s) with
    | .error fault => ((lists.zip (lists.map cfg.serverKey)).zip
        (((lists.map cfg.serverKey).map s.content).zip left)).mapM (extension dependents ttl) =
          .error fault
    | .ok writes => ∃ writes', ((lists.zip (lists.map cfg.serverKey)).zip
        (((lists.map cfg.serverKey).map s.content).zip left)).mapM (extension dependents ttl) =
          .ok writes' ∧ writes'.length = lists.length ∧
        (left = (lists.map cfg.serverKey).map s.lifetime → writes' = writes) := by
  induction lists generalizing left with
  | nil => exact ⟨[], rfl, rfl, fun _ => rfl⟩
  | cons key rest ih =>
    obtain ⟨first, others, rfl⟩ := List.exists_cons_of_length_eq_add_one hleft
    have hrest := ih (Nat.succ.inj hleft)
    have hread : extended cfg dependents ttl s key =
        (DependencyList.merge key (listText (s.content (cfg.serverKey key))) dependents).map
          fun text => .lasting (cfg.serverKey key) text
            (listTtl (s.lifetime (cfg.serverKey key)) ttl) := rfl
    have htold : extension dependents ttl
        ((key, cfg.serverKey key), s.content (cfg.serverKey key), first) =
        (DependencyList.merge key (listText (s.content (cfg.serverKey key))) dependents).map
          fun text => .lasting (cfg.serverKey key) text (listTtl first ttl) := rfl
    simp only [List.map_cons, List.zip_cons_cons, List.mapM_cons, hread, htold]
    cases DependencyList.merge key (listText (s.content (cfg.serverKey key))) dependents with
    | error fault => rfl
    | ok text =>
      cases hmerged : rest.mapM (extended cfg dependents ttl s) with
      | error fault =>
        rw [hmerged] at hrest
        simp only [hrest]
        rfl
      | ok writes =>
        rw [hmerged] at hrest
        obtain ⟨writes', htold', hlength, hsame⟩ := hrest
        simp only [htold']
        refine ⟨.lasting (cfg.serverKey key) text (listTtl first ttl) :: writes', rfl,
          congrArg Nat.succ hlength, fun hlifetimes => ?_⟩
        obtain ⟨hfirst, hothers⟩ := List.cons.inj hlifetimes
        rw [hfirst, hsame hothers]

theorem find_tombstone (cfg : RemoteSettings) (s : Server) :
    ((lists.zip ((lists.map cfg.serverKey).map s.content)).find? fun slot =>
        slot.2.any isTombstone) =
      (lists.find? fun k => (s.content (cfg.serverKey k)).any isTombstone).map
        fun k => (k, s.content (cfg.serverKey k)) := by
  rw [List.map_map, ← List.map_prod_left_eq_zip]
  exact List.find?_map

theorem tryAddDependency_attempts (hlists : lists ≠ []) :
    Attempts (fun s => (extendPlan cfg lists dependents ttl s).writes)
      (fun s => (extendPlan cfg lists dependents ttl s).answer)
      (tryAddDependency cfg lists dependents ttl) := by
  intro o ho
  obtain ⟨s, before, after, o₁, hread, hwatching, hsilent₁⟩ :=
    on_watchAndRead ho (lists.map cfg.serverKey)
  rw [tryAddDependency]
  dsimp only
  rw [on_bind_of_ok hread, find_tombstone]
  cases htombstone : lists.find? fun k => (s.content (cfg.serverKey k)).any isTombstone with
  | some key =>
    have hplan : extendPlan cfg lists dependents ttl s =
        { writes := [], answer := .error (.tombstoned key) } := by
      simp only [extendPlan, htombstone]
    refine ⟨_, some s, o₁, ?_, hwatching.log, hsilent₁, fun h => (by cases h),
      tries_reading before after, hwatching.idle (congrArg Plan.writes hplan) after⟩
    rw [Option.elim_some, hplan]
    rfl
  | none =>
    simp only [Option.map_none]
    obtain ⟨left, more, o₂, hleft, hwatching₂, hsilent₂, hlength, hsame⟩ := hwatching.lifetimes
    have hsilent := hsilent₁.trans hsilent₂
    have hmerged := mapM_extension lists dependents ttl cfg s
      (hlength.trans (List.length_map _))
    rw [on_bind_of_ok hleft]
    cases hwrites : lists.mapM (extended cfg dependents ttl s) with
    | error fault =>
      rw [hwrites] at hmerged
      simp only [hmerged]
      have hplan : extendPlan cfg lists dependents ttl s =
          { writes := [], answer := .error fault } := by
        simp only [extendPlan, htombstone, hwrites]
      refine ⟨_, some s, o₂, ?_, hwatching₂.log, hsilent, fun h => (by cases h),
        tries_reading _ _, hwatching₂.idle (congrArg Plan.writes hplan) (after ++ more)⟩
      rw [Option.elim_some, hplan]
      rfl
    | ok writes =>
      rw [hwrites] at hmerged
      obtain ⟨writes', hmerged, hcount, hsame'⟩ := hmerged
      simp only [hmerged]
      have hplan : extendPlan cfg lists dependents ttl s = { writes, answer := .ok () } := by
        simp only [extendPlan, htombstone, hwrites]
      obtain ⟨done, hs, e, o₃, hcommit, hlog, hsilent₃, hready, htries, hsettled, hdone⟩ :=
        hwatching₂.commit
          (fun s => (extendPlan cfg lists dependents ttl s).writes)
          (fun e he => congrArg Plan.writes (extendPlan_congr he dependents ttl))
          (fun huntouched => (hsame' (hsame huntouched)).trans (congrArg Plan.writes hplan).symm)
          (fun hnone => by
            rw [hnone] at hcount
            exact absurd (List.length_eq_zero_iff.1 hcount.symm) hlists)
      refine ⟨hs, e, o₃, ?_, hlog, hsilent.trans hsilent₃, fun _ => hready, htries, hsettled⟩
      rw [on_bind_of_ok hcommit, on_pure]
      cases done with
      | false =>
        obtain rfl : e = none := hdone
        rfl
      | true =>
        obtain ⟨e, rfl, hagrees⟩ := hdone
        rw [Option.elim_some, ← extendPlan_congr hagrees, hplan]
        rfl

theorem addDependency_transacts (hlists : lists ≠ []) :
    Transacts (addDependency cfg lists dependents ttl).run
      (fun _ => extendPlan cfg lists dependents ttl)
      (.error (.backend (.contended "add_dependency")), []) := by
  rw [addDependency, if_neg (by simpa using hlists)]
  refine transacts_retrying (tryAddDependency_attempts lists dependents ttl hlists)
    (fun s => ?_) _
  unfold extendPlan
  split
  · exact ⟨rfl, rfl⟩
  · split <;> exact ⟨rfl, rfl⟩

end Extend

section Claim

theorem on_markers (cfg : RemoteSettings) (keys : List Key) (o : Observed) :
    ∃ o', (markers cfg (keys.map cfg.serverKey)).on o =
        (.ok (markings cfg o.remote.issued keys), o') ∧
      o'.remote.exchange = o.remote.exchange ∧ o'.log = o.log ∧
      o'.remote.events = o.remote.events ∧
      o'.remote.issued = o.remote.issued + keys.length := by
  induction keys generalizing o with
  | nil => exact ⟨o, rfl, rfl, rfl, rfl, rfl⟩
  | cons key rest ih =>
    obtain ⟨o', hrest, hexchange, hlog, hevents, hissued⟩ :=
      ih ⟨{ o.remote with issued := o.remote.issued + 1 }, o.log ++ []⟩
    refine ⟨o', ?_, hexchange, hlog.trans (List.append_nil _), hevents, ?_⟩
    · rw [List.map_cons, markers, on_bind_of_ok (on_issue _ o), on_bind_of_ok hrest, on_pure]
      rfl
    · rw [hissued, List.length_cons]
      simp only
      omega

theorem refused_slots (cfg : RemoteSettings) (rules : Rules) (token : Token) (keys : List Key)
    (s : Server) :
    (((keys.map cfg.serverKey).zip ((keys.map cfg.serverKey).map s.content)).filter fun slot =>
        !(rules.always token || rules.admits slot.2 token)) =
      (refusing cfg rules token keys s).map fun k =>
        (cfg.serverKey k, s.content (cfg.serverKey k)) := by
  simp only [List.map_map, List.zip_map', List.filter_map, refusing, Function.comp_def]

theorem rival_slots (cfg : RemoteSettings) (rules : Rules) (token : Token) (keys : List Key)
    (s : Server) :
    ((((refusing cfg rules token keys s).map fun k =>
        (cfg.serverKey k, s.content (cfg.serverKey k))).filter fun slot =>
          collides slot.2 token).map (·.1)) =
      (rivals cfg rules token keys s).map cfg.serverKey := by
  simp only [List.map_map, List.filter_map, rivals, Function.comp_def]

theorem on_claimResult (granted : Bool) (kind : LockKind) (keys : List Key) (token : Token)
    (o : Observed) :
    ∃ o', RemoteCall.on (do
        if granted then return token
        else
          log (.claimContended kind keys)
          return Token.noLock) o = (.ok (if granted then token else Token.noLock), o') ∧
      o'.log = o.log ∧
      o'.remote.events = o.remote.events ++ (if granted then [] else [.claimContended kind keys]) ∧
      o'.remote.issued = o.remote.issued := by
  cases granted with
  | true => exact ⟨o, rfl, rfl, (List.append_nil _).symm, rfl⟩
  | false => exact ⟨_, rfl, List.append_nil _, rfl, rfl⟩

theorem writeToken_transacts (kind : LockKind) {keys : List Key} (hkeys : keys ≠ []) :
    Transacts (writeToken cfg rules kind keys).run
      (fun issued => claimPlan cfg rules issued kind keys)
      (.ok Token.noLock, [.claimContended kind keys]) := by
  intro o ho
  obtain ⟨o₁, hconnect, hready, hlog₁, hsilent₁, halike⟩ := on_connect_ready
    (o := ⟨{ o.remote with issued := o.remote.issued + 1 }, o.log ++ []⟩) ho
  obtain ⟨s, before, after, o₂, hread, hwatching, hsilent₂⟩ :=
    on_watchAndRead hready (keys.map cfg.serverKey)
  obtain ⟨o₃, hmarked, hexchange, hlog₃, hevents₃, hissued₃⟩ := on_markers cfg
    (rivals cfg rules (Token.issue kind.name o.remote.issued) keys s) o₂
  -- Tokens are made without the server, which is watched all the while.
  have hwatching₃ : Watching o₁ (keys.map cfg.serverKey) s before after o₃ :=
    { hwatching with
      server := (congrArg Exchange.server hexchange).trans hwatching.server
      log := hlog₃.trans hwatching.log
      calm := (congrArg Exchange.failures hexchange).trans hwatching.calm }
  obtain ⟨done, hs, e, o₄, hcommit, hlog, hsilent₄, -, htries, hsettled, hdone⟩ :=
    hwatching₃.commit
      (fun s => (claimPlan cfg rules o.remote.issued kind keys s).writes)
      (fun e he => congrArg Plan.writes (claimPlan_congr he o.remote.issued kind))
      (fun _ => rfl) (fun hnone => hnone)
  obtain ⟨o₅, hrest, hlog₅, hevents₅, hissued₅⟩ := on_claimResult (done &&
    (refusing cfg rules (Token.issue kind.name o.remote.issued) keys s).isEmpty) kind keys
    (Token.issue kind.name o.remote.issued) o₄
  have hlog' : o₅.log = o.log ++ hs := by
    rw [hlog₅, hlog, hlog₁, List.append_nil]
  have hevents : o₄.remote.events = o.remote.events := by
    rw [hsilent₄.2, hevents₃, hsilent₂.2, hsilent₁.2]
  have hbefore : o₂.remote.issued = o.remote.issued + 1 := hsilent₂.1.trans hsilent₁.1
  have hissued : o₅.remote.issued = o.remote.issued +
      (claimPlan cfg rules o.remote.issued kind keys s).tokens := by
    rw [hissued₅, hsilent₄.1, hissued₃, hbefore, Nat.add_assoc]
    rfl
  rw [hbefore] at hmarked
  refine ⟨hs, e, ?_⟩
  change Transacted _ _ o hs e ((writeToken cfg rules kind keys).on o)
  rw [writeToken, if_neg (by simpa using hkeys), on_bind_of_ok (on_issue _ o)]
  dsimp only
  rw [on_bind_of_ok hconnect, on_bind_of_ok hread, refused_slots, rival_slots,
    on_bind_of_ok hmarked]
  simp only [List.isEmpty_map, List.map_map]
  change Transacted _ _ o hs e (RemoteCall.on (RemoteCall.commit
    (claimPlan cfg rules o.remote.issued kind keys s).writes >>= _) o₃)
  rw [on_bind_of_ok hcommit, hrest]
  refine transacted_of_commit hdone (fun _ h => claimPlan_congr h o.remote.issued kind) htries
    (hsettled.congr halike) ?_ hlog' ?_ hissued
  · cases done <;> rfl
  · rw [hevents₅, hevents]
    cases done <;> rfl

end Claim

end RemoteStore
end CacheCoherence

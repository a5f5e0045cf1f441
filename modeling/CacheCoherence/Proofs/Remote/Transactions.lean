import CacheCoherence.Proofs.Remote.Observed

/-!
# Transactions among other clients

A transaction watches keys, reads them, decides and commits, and other clients may write between any
two of these. If it runs, every slot that it watches holds what was read, so its decision is the one
for the very state that it writes to. If it does not run, another client wrote and nothing of the
transaction is left behind. The same holds for a transaction that is tried several times over.
-/
namespace CacheCoherence

namespace Observed

/-- Neither were tokens made nor events logged. -/
def Silent (o o' : Observed) : Prop :=
  o'.remote.issued = o.remote.issued ∧ o'.remote.events = o.remote.events

theorem Silent.trans {o o' o'' : Observed} (h : o.Silent o') (h' : o'.Silent o'') : o.Silent o'' :=
  ⟨h'.1.trans h.1, h'.2.trans h.2⟩

/-- A request left the server in a state, with some happenings, before other clients wrote. -/
structure Passed (o : Observed) (s : Server) (hs : List Happening) (ws : List ForeignWrite)
    (o' : Observed) : Prop where
  server : o'.server = s.others ws
  log : o'.log = o.log ++ (hs ++ ws.map .other)
  calm : o'.Calm
  silent : o.Silent o'

/-- The server does not fail, and the connection watches nothing. -/
structure Ready (o : Observed) : Prop where
  calm : o.Calm
  watched : o.server.watched = []
  touched : o.server.touched = false

theorem Passed.ready {o o' : Observed} {s : Server} {hs : List Happening}
    {ws : List ForeignWrite} (h : o.Passed s.unwatch hs ws o') : o'.Ready where
  calm := h.calm
  watched := by
    rw [h.server, Server.watched_others]
    rfl
  touched := by
    rw [h.server, Server.touched_others_of_unwatched _ rfl]
    rfl

end Observed

namespace RemoteCall
open Observed
variable {α β : Type} {o o' : Observed}

def on (p : RemoteCall α) (o : Observed) : Except Fault α × Observed := Program.run answer p.run o

section Bind

@[simp] theorem on_pure (a : α) (o : Observed) : (pure a : RemoteCall α).on o = (.ok a, o) := rfl

theorem on_bind (p : RemoteCall α) (f : α → RemoteCall β) (o : Observed) :
    (p >>= f).on o = match p.on o with
      | (.ok a, o') => (f a).on o'
      | (.error fault, o') => (.error fault, o') := by
  have hrun : (p >>= f).on o =
      Program.run answer (Program.bind p.run (ExceptT.bindCont f)) o := rfl
  rw [hrun, Program.run_bind, on]
  cases Program.run answer p.run o with
  | mk result o' => cases result <;> rfl

theorem on_bind_of_ok {p : RemoteCall α} {a : α} (h : p.on o = (.ok a, o'))
    (f : α → RemoteCall β) : (p >>= f).on o = (f a).on o' := by
  rw [on_bind, h]

theorem on_bind_of_error {p : RemoteCall α} {fault : Fault} (h : p.on o = (.error fault, o'))
    (f : α → RemoteCall β) : (p >>= f).on o = (.error fault, o') := by
  rw [on_bind, h]

@[simp] theorem on_log (e : Event) (o : Observed) :
    (log e).on o =
      (.ok (), ⟨{ o.remote with events := o.remote.events ++ [e] }, o.log ++ []⟩) := rfl

@[simp] theorem on_issue (tag : String) (o : Observed) :
    (issue tag).on o = (.ok (Token.issue tag o.remote.issued),
      ⟨{ o.remote with issued := o.remote.issued + 1 }, o.log ++ []⟩) := rfl

/-- The log of a call on a server that does not fail accounts for all that becomes of the slots. -/
theorem on_accounts {p : RemoteCall α} {result : Except Fault α} {hs : List Happening}
    (hrun : p.on o = (result, o')) (h : o.Calm) (hlog : o'.log = o.log ++ hs) :
    o'.Calm ∧ o'.server.Alike (o.server.after hs) := by
  obtain ⟨hs', hlog', hcalm, hserver, -⟩ :=
    run_accounts (P := fun _ => True) p.run h fun _ _ _ _ => trivial
  have hfinal : (Program.run answer p.run o).2 = o' := congrArg Prod.snd hrun
  rw [hfinal] at hlog' hcalm hserver
  obtain rfl : hs' = hs := List.append_cancel_left (hlog'.symm.trans hlog)
  exact ⟨hcalm, hserver⟩

end Bind

section Requests
variable (h : o.Calm)
include h

theorem on_connect : ∃ o', connect.on o = (.ok (), o') ∧ o.Passed o.server.unwatch [] [] o' :=
  ⟨_, rfl, rfl, rfl, h, rfl, rfl⟩

theorem on_command {p : RemoteCall α} (name : String) (arguments : List String)
    (run : Server → α × Server) (hs : List Happening)
    (hp : p.on o = ((o.remote.exchange.command name arguments run).1,
      ⟨{ o.remote with exchange := (o.remote.exchange.command name arguments run).2 },
        o.log ++ (hs ++ (o.remote.exchange.behind name).map .other)⟩)) :
    ∃ ws o', p.on o = (.ok (run o.server).1, o') ∧ o.Passed (run o.server).2 hs ws o' := by
  obtain ⟨hanswer, hserver, hfailures, -⟩ := Exchange.command_calm h name arguments run
  rw [hanswer] at hp
  exact ⟨_, _, hp, hserver, rfl, hfailures, rfl, rfl⟩

theorem on_get (key : Key) : ∃ ws o', (get key).on o = (.ok (o.server.content key), o') ∧
    o.Passed o.server [.read] ws o' :=
  on_command h "GET" [key] (fun s => (s.content key, s)) [.read] rfl

theorem on_getMany (keys : List Key) :
    ∃ ws o', (getMany keys).on o = (.ok (keys.map o.server.content), o') ∧
      o.Passed o.server [.read] ws o' :=
  on_command h "MGET" keys (fun s => (keys.map s.content, s)) [.read] rfl

theorem on_watch (keys : List Key) :
    ∃ ws o', (watch keys).on o = (.ok (), o') ∧ o.Passed (o.server.watch keys) [] ws o' :=
  on_command h "WATCH" keys (fun s => ((), s.watch keys)) [] rfl

theorem on_unwatch : ∃ ws o', unwatch.on o = (.ok (), o') ∧ o.Passed o.server.unwatch [] ws o' :=
  on_command h "UNWATCH" [] (fun s => ((), s.unwatch)) [] rfl

theorem on_lifetimes (keys : List Key) :
    ∃ left ws o', (lifetimes keys).on o = (.ok left, o') ∧ o.Passed o.server [] ws o' ∧
      left.length = keys.length ∧
      (o'.server.touched = false → (∀ k ∈ keys, k ∈ o.server.watched) →
        left = keys.map o'.server.lifetime) := by
  obtain ⟨left, hleft, hlength, hserver, hfailures, hsame⟩ := Exchange.lifetimes_calm h keys
  refine ⟨left, Exchange.behindLifetimes keys o.remote.exchange, _, Prod.ext hleft rfl,
    ⟨hserver, rfl, hfailures, rfl, rfl⟩, hlength, ?_⟩
  change (Exchange.lifetimes keys o.remote.exchange).2.server.touched = false → _ →
    left = keys.map (Exchange.lifetimes keys o.remote.exchange).2.server.lifetime
  rw [hserver]
  exact hsame

/-- A transaction runs unless a watched key was touched before. -/
theorem on_transaction (writes : List Write) :
    ∃ ws ws' o', if (o.server.others ws).touched then
        (transaction writes).on o = (.ok false, o') ∧
          o.Passed (o.server.others ws).unwatch (ws.map .other ++ [.aborted]) ws' o'
      else
        (transaction writes).on o = (.ok true, o') ∧
          o.Passed (writes.foldl Server.write (o.server.others ws)).unwatch
            (ws.map .other ++ [.ran writes]) ws' o' := by
  obtain ⟨hanswer, hserver, hfailures, -⟩ := Exchange.transaction_calm h writes
  refine ⟨o.remote.exchange.behind "MULTI", (o.remote.exchange.race "MULTI").behind "EXEC",
    (answer (.request (.commit writes)) o).2, ?_⟩
  have hlog : (answer (.request (.commit writes)) o).2.log = o.log ++
      ((o.remote.exchange.behind "MULTI").map .other ++
        (if (o.server.others (o.remote.exchange.behind "MULTI")).touched then .aborted
          else .ran writes) ::
        ((o.remote.exchange.race "MULTI").behind "EXEC").map .other) := by
    rw [← show (o.remote.exchange.race "MULTI").server =
      o.server.others (o.remote.exchange.behind "MULTI") from Exchange.server_race _ _]
    rfl
  have hon : (transaction writes).on o =
      ((o.remote.exchange.transaction writes).1, (answer (.request (.commit writes)) o).2) := rfl
  change (answer (.request (.commit writes)) o).2.server = _ at hserver
  rw [hanswer] at hon
  change (transaction writes).on o =
    (.ok (!(o.server.others (o.remote.exchange.behind "MULTI")).touched), _) at hon
  change _ = Server.others (if (o.server.others (o.remote.exchange.behind "MULTI")).touched then
    _ else _) _ at hserver
  cases htouched : (o.server.others (o.remote.exchange.behind "MULTI")).touched with
  | true =>
    rw [htouched] at hon hlog hserver
    rw [if_pos rfl]
    exact ⟨hon, hserver, hlog.trans (by simp), hfailures, rfl, rfl⟩
  | false =>
    rw [htouched] at hon hlog hserver
    rw [if_neg (by simp)]
    exact ⟨hon, hserver, hlog.trans (by simp), hfailures, rfl, rfl⟩

end Requests
end RemoteCall

/-- No writes of the call were run. -/
def Quiet (hs : List Happening) : Prop := ∀ ws, .ran ws ∉ hs

/-- So many readings and transactions at most. -/
def Tries (n : Nat) (hs : List Happening) : Prop :=
  hs.countP Happening.isRead ≤ n ∧ hs.countP Happening.isCommit ≤ n

section Traces
variable {hs hs' : List Happening} {n n' : Nat}

theorem Quiet.append (h : Quiet hs) (h' : Quiet hs') : Quiet (hs ++ hs') := fun ws hws =>
  (List.mem_append.1 hws).elim (h ws) (h' ws)

theorem Quiet.cons {e : Happening} (he : ∀ ws, e ≠ .ran ws) (h : Quiet hs) : Quiet (e :: hs) :=
  fun ws hws => (List.mem_cons.1 hws).elim (fun heq => he ws heq.symm) (h ws)

theorem quiet_others (ws : List ForeignWrite) : Quiet (ws.map .other) := fun ws' h => by
  obtain ⟨w, -, heq⟩ := List.mem_map.1 h
  cases heq

theorem Tries.append (h : Tries n hs) (h' : Tries n' hs') : Tries (n + n') (hs ++ hs') := by
  unfold Tries at *
  simp only [List.countP_append]
  omega

theorem Tries.mono (h : Tries n hs) (hle : n ≤ n') : Tries n' hs :=
  ⟨Nat.le_trans h.1 hle, Nat.le_trans h.2 hle⟩

theorem tries_reading (before after : List ForeignWrite) :
    Tries 1 (before.map .other ++ .read :: after.map .other) := by
  constructor <;> simp [List.countP_cons, Function.comp_def]

theorem tries_commit (before after : List ForeignWrite) {e : Happening} (h : e.isRead = false) :
    Tries 1 (before.map .other ++ e :: after.map .other) := by
  constructor
  · simp [h, Function.comp_def]
  · cases hcommit : e.isCommit <;> simp [hcommit, Function.comp_def]

theorem tries_transaction (before between after : List ForeignWrite) {e : Happening}
    (h : e.isRead = false) :
    Tries 1 (before.map .other ++ .read :: between.map .other ++ e :: after.map .other) := by
  constructor
  · simp [List.countP_cons, h, Function.comp_def]
  · cases hcommit : e.isCommit <;> simp [hcommit, Function.comp_def]

end Traces

/-- How a transaction ends whose writes depend on the state of the server: it runs on the state that
it decides for, or it has nothing to write in the state that it read, or it does not run because
another client wrote. The last argument is the state that was decided for. -/
inductive Settled (writes : Server → List Write) (s : Server) :
    List Happening → Option Server → Prop where
  | ran {before after : List Happening} {e : Server} (hbefore : Quiet before)
      (hafter : Quiet after) (he : e.Alike (s.after before)) :
      Settled writes s (before ++ .ran (writes e) :: after) (some e)
  | idle {before after : List Happening} {e : Server} (hbefore : Quiet before)
      (hafter : Quiet after) (he : e.Alike (s.after before)) (hwrites : writes e = []) :
      Settled writes s (before ++ .read :: after) (some e)
  | refused {hs : List Happening} (hquiet : Quiet hs) (hother : ∃ w, .other w ∈ hs) :
      Settled writes s hs none

namespace Settled
variable {writes : Server → List Write} {s s' : Server} {hs hs' : List Happening}
  {e : Option Server}

/-- What happened before a transaction counts as part of it, unless writes of the call were run. -/
theorem prepend (hquiet : Quiet hs) (halike : s'.Alike (s.after hs))
    (h : Settled writes s' hs' e) : Settled writes s (hs ++ hs') e := by
  cases h with
  | ran hbefore hafter he =>
    rw [← List.append_assoc]
    refine .ran (hquiet.append hbefore) hafter ?_
    rw [Server.after_append]
    exact he.trans (halike.after _)
  | idle hbefore hafter he hwrites =>
    rw [← List.append_assoc]
    refine .idle (hquiet.append hbefore) hafter ?_ hwrites
    rw [Server.after_append]
    exact he.trans (halike.after _)
  | refused hquiet' hother =>
    obtain ⟨w, hw⟩ := hother
    exact .refused (hquiet.append hquiet') ⟨w, List.mem_append_right _ hw⟩

theorem congr (halike : s'.Alike s) (h : Settled writes s' hs e) : Settled writes s hs e := by
  have hnothing : Quiet [] := fun _ h => by cases h
  exact h.prepend hnothing halike

end Settled

theorem Server.Alike.agreesOn {s s' : Server} (h : s.Alike s') (keys : List Key) :
    s.AgreesOn keys s' :=
  ⟨h.now, fun k _ => by rw [h.slots]⟩

/-- The connection watches keys and reads them in a state of the server, after writes of other
clients and before more of them. -/
structure Watching (o : Observed) (keys : List Key) (s : Server) (before after : List ForeignWrite)
    (o' : Observed) : Prop where
  read : s.Alike (o.server.others before)
  server : o'.server = s.others after
  watched : s.watched = keys
  touched : s.touched = true → before ≠ []
  log : o'.log = o.log ++ (before.map .other ++ .read :: after.map .other)
  calm : o'.Calm

namespace RemoteCall
open Observed
variable {α β : Type} {o o' : Observed}

/-- What is read under watch is what the keys hold at one instant. -/
theorem on_watchAndRead (h : o.Ready) (keys : List Key) :
    ∃ s before after o', (watchAndRead keys).on o = (.ok (keys.map s.content), o') ∧
      Watching o keys s before after o' ∧ o.Silent o' := by
  obtain ⟨before, o₁, hwatch, hpassed₁⟩ := on_watch h.calm keys
  obtain ⟨after, o₂, hread, hpassed₂⟩ := on_getMany hpassed₁.calm keys
  refine ⟨o₁.server, before, after, o₂, ?_, ?_, hpassed₁.silent.trans hpassed₂.silent⟩
  · rw [watchAndRead, on_bind_of_ok hwatch, hread]
  · have halike : (o.server.watch keys).Alike o.server := Server.alike_watch _ keys
    refine ⟨?_, hpassed₂.server, ?_, ?_, ?_, hpassed₂.calm⟩
    · rw [hpassed₁.server, ← Server.after_others, ← Server.after_others]
      exact halike.after _
    · rw [hpassed₁.server, Server.watched_others]
      simp [Server.watch, h.watched]
    · rintro htouched rfl
      rw [hpassed₁.server] at htouched
      have huntouched : o.server.touched = false := h.touched
      simp [Server.others, Server.watch, huntouched] at htouched
    · rw [hpassed₂.log, hpassed₁.log]
      simp

end RemoteCall

namespace Watching
open Observed RemoteCall
variable {o o' : Observed} {keys : List Key} {s : Server} {before after : List ForeignWrite}
  (h : Watching o keys s before after o')
include h

theorem agrees {ws : List ForeignWrite} (huntouched : (s.others ws).touched = false) :
    s.AgreesOn keys (s.others ws) where
  now := (Server.now_others s ws).symm
  slots := by
    intro k hk
    exact ((Server.untouched_others s huntouched).2 k (h.watched ▸ hk)).symm

theorem interfered {ws : List ForeignWrite} (htouched : (s.others ws).touched = true) :
    ∃ w, w ∈ before ++ ws := by
  refine List.exists_mem_of_ne_nil _ fun hnone => ?_
  obtain ⟨hbefore, hws⟩ := List.append_eq_nil_iff.1 hnone
  rw [hws] at htouched
  exact h.touched htouched hbefore

theorem idle {writes : Server → List Write} (hwrites : writes s = []) (rest : List ForeignWrite) :
    Settled writes o.server (before.map .other ++ .read :: rest.map .other) (some s) := by
  refine .idle (quiet_others _) (quiet_others _) ?_ hwrites
  rw [Server.after_others]
  exact h.read

/-- The lifetimes that are told under watch are as at the reading, if the transaction can run. -/
theorem lifetimes : ∃ left more o'', (RemoteCall.lifetimes keys).on o' = (.ok left, o'') ∧
    Watching o keys s before (after ++ more) o'' ∧ o'.Silent o'' ∧ left.length = keys.length ∧
    (o''.server.touched = false → left = keys.map s.lifetime) := by
  obtain ⟨left, more, o'', hleft, hpassed, hlength, hsame⟩ := on_lifetimes h.calm keys
  have hserver : o''.server = s.others (after ++ more) := by
    rw [hpassed.server, h.server, Server.others_append]
  refine ⟨left, more, o'', hleft, ⟨h.read, hserver, h.watched, h.touched, ?_, hpassed.calm⟩,
    hpassed.silent, hlength, ?_⟩
  · rw [hpassed.log, h.log]
    simp
  · intro huntouched
    rw [hsame huntouched fun k hk => by rwa [h.server, Server.watched_others, h.watched], hserver]
    refine List.map_congr_left fun k hk => ?_
    exact ((h.agrees (hserver ▸ huntouched)).lifetime hk).symm

/-- A transaction under watch runs on a state that agrees with the one that was read, or it does not
run because another client wrote. -/
theorem commit (writes : Server → List Write)
    (hcongr : ∀ e, s.AgreesOn keys e → writes s = writes e) {ws : List Write}
    (hws : o'.server.touched = false → ws = writes s) (hnone : ws = [] → writes s = []) :
    ∃ done hs e o'', (RemoteCall.commit ws).on o' = (.ok done, o'') ∧ o''.log = o.log ++ hs ∧
      o'.Silent o'' ∧ o''.Ready ∧ Tries 1 hs ∧ Settled writes o.server hs e ∧
      if done then ∃ e', e = some e' ∧ s.AgreesOn keys e' else e = none := by
  by_cases hempty : ws = []
  · obtain ⟨last, o'', hunwatch, hpassed⟩ := on_unwatch h.calm
    refine ⟨true, before.map .other ++ .read :: (after ++ last).map .other, some s, o'', ?_, ?_,
      hpassed.silent, hpassed.ready, ?_, ?_, s, rfl, (Server.Alike.refl s).agreesOn keys⟩
    · rw [hempty, RemoteCall.commit]
      exact on_bind_of_ok hunwatch _
    · rw [hpassed.log, h.log]
      simp
    · exact tries_reading before (after ++ last)
    · exact h.idle (hnone hempty) (after ++ last)
  · obtain ⟨more, last, o'', htransaction⟩ := on_transaction h.calm ws
    have hcommit : RemoteCall.commit ws = RemoteCall.transaction ws := by
      rw [RemoteCall.commit, if_neg (by simpa using hempty)]
    have hserver : o'.server.others more = s.others (after ++ more) := by
      rw [h.server, Server.others_append]
    have hreached : (s.others (after ++ more)).Alike
        (o.server.after (before.map .other ++ .read :: (after ++ more).map .other)) := by
      rw [Server.after_append, Server.after_others, ← Server.after_others]
      exact h.read.after _
    have hquiet : Quiet (before.map .other ++ .read :: (after ++ more).map .other) :=
      (quiet_others before).append (.cons (fun _ h => by cases h) (quiet_others _))
    rw [hserver] at htransaction
    cases htouched : (s.others (after ++ more)).touched with
    | true =>
      rw [if_pos htouched] at htransaction
      obtain ⟨hrun, hpassed⟩ := htransaction
      refine ⟨false, _, none, o'', hcommit ▸ hrun, ?_, hpassed.silent, hpassed.ready,
        tries_transaction before (after ++ more) last (e := .aborted) rfl, ?_, rfl⟩
      · rw [hpassed.log, h.log]
        simp
      · refine .refused (hquiet.append (.cons (fun _ h => by cases h) (quiet_others last))) ?_
        obtain ⟨w, hw⟩ := h.interfered htouched
        refine ⟨w, List.mem_append_left _ ?_⟩
        rcases List.mem_append.1 hw with hw | hw
        · exact List.mem_append_left _ (List.mem_map_of_mem hw)
        · exact List.mem_append_right _ (List.mem_cons_of_mem _ (List.mem_map_of_mem hw))
    | false =>
      rw [if_neg (by simp [htouched])] at htransaction
      obtain ⟨hrun, hpassed⟩ := htransaction
      have hagrees := h.agrees htouched
      have hbefore : o'.server.touched = false :=
        (Server.untouched_others o'.server (hserver ▸ htouched)).1
      refine ⟨true, _, some (s.others (after ++ more)), o'', hcommit ▸ hrun, ?_, hpassed.silent,
        hpassed.ready, tries_transaction before (after ++ more) last (e := .ran ws) rfl, ?_,
        _, rfl, hagrees⟩
      · rw [hpassed.log, h.log]
        simp
      · rw [hws hbefore, hcongr _ hagrees]
        exact .ran hquiet (quiet_others last) hreached

end Watching

namespace RemoteCall
open Observed
variable {β : Type} {o : Observed} {writes : Server → List Write}
  {result : Server → Except Fault β} {attempt : RemoteCall (Option β)}

/-- An attempt at a transaction ends with the result for the state that it decided for, or it comes
to nothing, and then another one may follow. -/
def Attempts (writes : Server → List Write) (result : Server → Except Fault β)
    (attempt : RemoteCall (Option β)) : Prop :=
  ∀ o : Observed, o.Ready → ∃ hs e o',
    attempt.on o = (e.elim (.ok none) fun e => (result e).map some, o') ∧
      o'.log = o.log ++ hs ∧ o.Silent o' ∧ (e = none → o'.Ready) ∧ Tries 1 hs ∧
      Settled writes o.server hs e

/-- Repeated attempts are one transaction: those that come to nothing leave nothing behind. -/
theorem on_attempts (h : Attempts writes result attempt) (operation : String) (n : Nat)
    (ho : o.Ready) : ∃ hs e o',
      (attempts operation attempt (n + 1)).on o =
        (e.elim (.error (.backend (.contended operation))) result, o') ∧
      o'.log = o.log ++ hs ∧ o.Silent o' ∧ Tries (n + 1) hs ∧ Settled writes o.server hs e := by
  induction n generalizing o with
  | zero =>
    obtain ⟨hs, e, o', hattempt, hlog, hsilent, hready, htries, hsettled⟩ := h o ho
    refine ⟨hs, e, o', ?_, hlog, hsilent, htries, hsettled⟩
    rw [attempts, on_bind, hattempt]
    cases e with
    | none => rfl
    | some e => cases hresult : result e <;> simp [hresult, Except.map]
  | succ n ih =>
    obtain ⟨hs, e, o', hattempt, hlog, hsilent, hready, htries, hsettled⟩ := h o ho
    cases e with
    | some e =>
      refine ⟨hs, some e, o', ?_, hlog, hsilent, htries.mono (by omega), hsettled⟩
      rw [attempts, on_bind, hattempt]
      cases hresult : result e <;> simp [hresult, Except.map]
    | none =>
      obtain ⟨hs', e', o'', hrest, hlog', hsilent', htries', hsettled'⟩ := ih (hready rfl)
      have halike := (on_accounts hattempt ho.calm hlog).2
      have hquiet : Quiet hs := by
        cases hsettled with
        | refused hquiet _ => exact hquiet
      refine ⟨hs ++ hs', e', o'', ?_, ?_, hsilent.trans hsilent', ?_,
        hsettled'.prepend hquiet halike⟩
      · rw [attempts, on_bind, hattempt]
        exact hrest
      · rw [hlog', hlog, List.append_assoc]
      · rw [Nat.add_comm]
        exact htries.append htries'

end RemoteCall
end CacheCoherence

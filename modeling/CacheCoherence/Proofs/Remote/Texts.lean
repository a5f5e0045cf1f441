import CacheCoherence.Proofs.Remote.Transactions
import CacheCoherence.Proofs.Server.Scan

/-!
# What texts a server holds

Commands may fail at any point, and other clients may write between any two of them, and still a
server holds nothing but what somebody wrote. A property of texts under their keys that holds of all
that is live, of all that other clients will write and of all that a call may write itself holds of
what is live at the end, however the call fares.
-/
namespace CacheCoherence

/-- What a write puts under its key has a property. -/
def Write.Meets (P : Key → String → Prop) : Write → Prop
  | .set key text _ => P key text
  | .delete _ => True

namespace Server
variable {P : Key → String → Prop} {s : Server}

def Within (P : Key → String → Prop) (s : Server) : Prop :=
  ∀ key text, s.content key = some text → P key text

theorem content_set (s : Server) (key : Key) (text : String) (px : Option Nat) {key' : Key}
    {text' : String} (h : (s.set key text px).content key' = some text') :
    (key' = key ∧ text' = text) ∨ s.content key' = some text' := by
  by_cases hkey : key' = key
  · subst hkey
    left
    rw [content_eq_live?, live?, Slots.live?] at h
    obtain ⟨slot, hslot, rfl⟩ := Option.map_eq_some_iff.1 h
    have hget := (Option.filter_eq_some_iff.1 hslot).1
    change Table.get? (Table.insert _ _ _) _ = _ at hget
    rw [Table.get?_insert, if_pos rfl] at hget
    cases hget
    exact ⟨rfl, rfl⟩
  · right
    rw [content_eq_live?] at h ⊢
    rwa [show (s.set key text px).live? key' = s.live? key' from
      live?_write_of_ne s (w := .set key text px) hkey] at h

theorem content_delete (s : Server) (key key' : Key) :
    (s.delete key).content key' = if key' = key then none else s.content key' := by
  rw [content_eq_live?, live?_delete]
  split <;> rfl

theorem Within.write (h : s.Within P) {w : Write} (hw : w.Meets P) : (s.write w).Within P := by
  intro key text hcontent
  cases w with
  | set key' text' px =>
    rcases content_set s key' text' px hcontent with ⟨rfl, rfl⟩ | hbefore
    · exact hw
    · exact h key text hbefore
  | delete key' =>
    change (s.delete key').content key = some text at hcontent
    rw [content_delete] at hcontent
    split at hcontent
    · cases hcontent
    · exact h key text hcontent

theorem Within.foldl_write (h : s.Within P) {ws : List Write} (hws : ∀ w ∈ ws, w.Meets P) :
    (ws.foldl Server.write s).Within P := by
  induction ws generalizing s with
  | nil => exact h
  | cons w rest ih =>
    exact ih (h.write (hws w List.mem_cons_self)) fun w' hw' => hws w' (List.mem_cons_of_mem _ hw')

theorem Within.foldl_delete (h : s.Within P) (keys : List Key) :
    (keys.foldl Server.delete s).Within P := by
  rw [Server.foldl_delete]
  refine h.foldl_write fun w hw => ?_
  obtain ⟨key, -, rfl⟩ := List.mem_map.1 hw
  trivial

theorem Within.of_alike {s' : Server} (h : s.Within P) (halike : s'.Alike s) : s'.Within P :=
  fun key text hcontent => h key text (halike.content key ▸ hcontent)

end Server

/-- What a request may write itself has a property. -/
def Request.Meets (P : Key → String → Prop) : Request → Prop
  | .setIfAbsent key text _ => P key text
  | .commit writes => ∀ w ∈ writes, w.Meets P
  | _ => True

namespace Exchange
variable {P : Key → String → Prop} {x : Exchange}

/-- All that is live on the server has a property, and all that other clients will write. -/
structure Within (P : Key → String → Prop) (x : Exchange) : Prop where
  server : x.server.Within P
  others : x.OthersAre fun w => w.toWrite.Meets P

theorem Within.race (h : x.Within P) (name : String) : (x.race name).Within P := by
  refine ⟨?_, h.others.race name⟩
  rw [server_race, Server.others]
  refine h.server.foldl_write fun w hw => ?_
  obtain ⟨foreign, hforeign, rfl⟩ := List.mem_map.1 hw
  exact h.others.behind name foreign hforeign

section Command
variable {α : Type} (name : String) (arguments : List String) (run : Server → α × Server)

/-- A command fails and leaves the server alone, or it runs; then other clients write. -/
theorem command_cases (x : Exchange) :
    (∃ (fault : Fault) (x' : Exchange),
      x.command name arguments run = (.error fault, x'.race name) ∧
      x'.server = x.server ∧ x'.races = x.races) ∨
    ∃ x' : Exchange, x.command name arguments run = (.ok (run x.server).1, x'.race name) ∧
      x'.server = (run x.server).2 ∧ x'.races = x.races := by
  unfold command
  dsimp only
  cases takeFailure name x.failures with
  | some failures => exact .inl ⟨_, _, rfl, rfl, rfl⟩
  | none => exact .inr ⟨_, rfl, rfl, rfl⟩

variable {name arguments run} in
theorem answer_of_command {answer : α} (h : (x.command name arguments run).1 = .ok answer) :
    answer = (run x.server).1 := by
  rcases command_cases name arguments run x with ⟨fault, x', heq, -, -⟩ | ⟨x', heq, -, -⟩
  · rw [heq] at h
    cases h
  · rw [heq] at h
    exact (Except.ok.inj h).symm

theorem server_command (hrun : (run x.server).2 = x.server) :
    (x.command name arguments run).2.server = x.server.others (x.behind name) := by
  rcases command_cases name arguments run x with
    ⟨fault, x', heq, hserver, hraces⟩ | ⟨x', heq, hserver, hraces⟩
  · rw [heq, server_race, hserver, behind_congr x' x hraces]
  · rw [heq, server_race, hserver, hrun, behind_congr x' x hraces]

theorem Within.of_races {x' : Exchange} (h : x.Within P) (hserver : x'.server.Within P)
    (hraces : x'.races = x.races) : x'.Within P := by
  refine ⟨hserver, fun race hrace => h.others race ?_⟩
  rwa [hraces] at hrace

theorem Within.command (h : x.Within P) (hrun : (run x.server).2.Within P) :
    (x.command name arguments run).2.Within P := by
  rcases command_cases name arguments run x with
    ⟨fault, x', heq, hserver, hraces⟩ | ⟨x', heq, hserver, hraces⟩
  · rw [heq]
    exact (h.of_races (hserver ▸ h.server) hraces).race name
  · rw [heq]
    exact (h.of_races (hserver ▸ hrun) hraces).race name

end Command

theorem Within.writeAlone (h : x.Within P) {w : Write} (hw : w.Meets P) :
    (x.writeAlone w).Within P := by
  unfold Exchange.writeAlone
  split
  · exact h
  · exact h.command _ _ _ (h.server.write hw)

theorem Within.foldl_writeAlone (h : x.Within P) {ws : List Write} (hws : ∀ w ∈ ws, w.Meets P) :
    (ws.foldl Exchange.writeAlone x).Within P := by
  induction ws generalizing x with
  | nil => exact h
  | cons w rest ih =>
    exact ih (h.writeAlone (hws w List.mem_cons_self)) fun w' hw' =>
      hws w' (List.mem_cons_of_mem _ hw')

theorem Within.transaction (h : x.Within P) {ws : List Write} (hws : ∀ w ∈ ws, w.Meets P) :
    (x.transaction ws).2.Within P := by
  have hopen := h.command "MULTI" [] (fun s => ((), s)) h.server
  unfold Exchange.transaction
  split
  · rename_i x₁ heq
    rw [heq] at hopen
    have hqueued : Within P { x₁ with received := x₁.received ++ ws.map Write.words } :=
      ⟨hopen.server, hopen.others⟩
    refine hqueued.command "EXEC" [] (fun s => s.commit ws) ?_
    unfold Server.commit
    split
    · exact hopen.server.of_alike (Server.alike_unwatch _)
    · exact (hopen.server.foldl_write hws).of_alike (Server.alike_unwatch _)
  · -- The server refused to open the transaction, so each write runs by itself.
    rename_i fault x₁ heq
    rw [heq] at hopen
    have halone := Within.foldl_writeAlone hopen hws
    exact halone.command "EXEC" [] (fun s => ((), s)) halone.server

theorem Within.lifetimes (h : x.Within P) (keys : List Key) :
    (Exchange.lifetimes keys x).2.Within P := by
  induction keys generalizing x with
  | nil => exact h
  | cons key rest ih => exact ih (h.command "PTTL" [key] (fun s => (s.lifetime key, s)) h.server)

/-- No request brings in anything but what it may write itself, however it fares. -/
theorem Within.answer (h : x.Within P) {q : Request} (hq : q.Meets P) :
    (x.answer q).2.Within P := by
  cases q with
  | connect => exact h.of_races (h.server.of_alike (Server.alike_unwatch _)) rfl
  | get key => exact h.command _ _ (fun s => (s.content key, s)) h.server
  | getMany keys => exact h.command _ _ (fun s => (keys.map s.content, s)) h.server
  | setIfAbsent key text px =>
    refine h.command _ _ (fun s => s.setIfAbsent key text px) ?_
    unfold Server.setIfAbsent
    split
    · exact h.server
    · exact h.server.write (w := .set key text (some px)) hq
  | watch keys =>
    exact h.command _ _ (fun s => ((), s.watch keys))
      (h.server.of_alike (Server.alike_watch _ keys))
  | unwatch =>
    exact h.command _ _ (fun s => ((), s.unwatch)) (h.server.of_alike (Server.alike_unwatch _))
  | commit writes => exact h.transaction hq
  | lifetimes keys => exact h.lifetimes keys
  | scan cursor pattern count =>
    exact h.command _ _ (fun s => s.scan cursor pattern count)
      (h.server.of_alike (Server.alike_scan _ cursor pattern count))
  | delete keys =>
    exact h.command _ _ (fun s => ((), keys.foldl Server.delete s)) (h.server.foldl_delete keys)

end Exchange

def RemoteAction.Meets (P : Key → String → Prop) : RemoteAction → Prop
  | .request q => q.Meets P
  | .issue _ | .log _ => True

/-- What a program may write itself, whatever it is answered, has a property. -/
def Program.Meets {α : Type} (P : Key → String → Prop) : RemoteProgram α → Prop
  | .done _ => True
  | .ask q next => q.Meets P ∧ ∀ answer, Meets P (next answer)

namespace Observed
variable {P : Key → String → Prop} {α : Type} {o : Observed}

def Within (P : Key → String → Prop) (o : Observed) : Prop := o.remote.exchange.Within P

theorem Within.answer (h : o.Within P) {q : RemoteAction} (hq : q.Meets P) :
    (answer q o).2.Within P := by
  cases q with
  | request q => exact Exchange.Within.answer h hq
  | issue tag => exact h
  | log e => exact h

theorem Within.run (h : o.Within P) {p : RemoteProgram α} (hp : p.Meets P) :
    (p.run Observed.answer o).2.Within P := by
  induction p generalizing o with
  | done a => exact h
  | ask q next ih => exact ih _ (h.answer hp.1) (hp.2 _)

end Observed

namespace RemoteCall
open Observed
variable {P : Key → String → Prop} {α β : Type}

def Meets (P : Key → String → Prop) (p : RemoteCall α) : Prop := Program.Meets P p.run

theorem meets_pure (a : α) : (pure a : RemoteCall α).Meets P := trivial

theorem meets_throw (fault : Fault) : (throw fault : RemoteCall α).Meets P := trivial

theorem meets_bind_program {p : RemoteProgram α} {f : α → RemoteProgram β} (hp : p.Meets P)
    (hf : ∀ a, (f a).Meets P) : (p >>= f).Meets P := by
  induction p with
  | done a => exact hf a
  | ask q next ih => exact ⟨hp.1, fun answer => ih answer (hp.2 answer)⟩

theorem Meets.bind {p : RemoteCall α} {f : α → RemoteCall β} (hp : p.Meets P)
    (hf : ∀ a, (f a).Meets P) : (p >>= f).Meets P := by
  refine meets_bind_program hp fun result => ?_
  cases result with
  | ok a => exact hf a
  | error fault => trivial

theorem meets_request {q : Request} (hq : q.Meets P) : (request q).Meets P :=
  ⟨hq, fun _ => trivial⟩

theorem meets_connect : connect.Meets P :=
  ⟨trivial, fun _ => trivial⟩

theorem meets_get (key : Key) : (RemoteCall.get key).Meets P := meets_request trivial

theorem meets_getMany (keys : List Key) : (getMany keys).Meets P := meets_request trivial

theorem meets_watchAndRead (keys : List Key) : (watchAndRead keys).Meets P :=
  Meets.bind (meets_request trivial) fun _ => meets_getMany keys

theorem meets_commit {ws : List Write} (hws : ∀ w ∈ ws, w.Meets P) :
    (RemoteCall.commit ws).Meets P := by
  unfold RemoteCall.commit
  split
  · exact Meets.bind (meets_request trivial) fun _ => meets_pure _
  · exact meets_request hws

theorem meets_attempts {attempt : RemoteCall (Option α)} (h : attempt.Meets P)
    (operation : String) (n : Nat) : (attempts operation attempt n).Meets P := by
  induction n with
  | zero => exact meets_throw _
  | succ n ih =>
    refine Meets.bind h fun result => ?_
    cases result with
    | some a => exact meets_pure a
    | none => exact ih

end RemoteCall

namespace RemoteStore
open RemoteCall Observed
variable {P : Key → String → Prop} (cfg : RemoteSettings)

theorem meets_deleteValue (keys : List Key) {tombstone : Bool} (force : Bool)
    (hP : tombstone = true → ∀ key, P key Token.tombstone) :
    (deleteValue cfg keys tombstone force).Meets P := by
  have hinvalidation (target : Key) : (invalidation cfg tombstone target).Meets P := by
    cases tombstone with
    | true => exact hP rfl target
    | false => trivial
  unfold deleteValue
  split
  · exact meets_pure _
  · refine Meets.bind meets_connect fun _ => meets_attempts ?_ _ _
    have hrest (current : List (Option String)) : (do
        let done ← RemoteCall.commit ((((keys.map cfg.serverKey).zip current).filter fun slot =>
          !slot.2.any isToken).map fun slot => invalidation cfg tombstone slot.1)
        return if done then some () else none : RemoteCall (Option Unit)).Meets P := by
      refine Meets.bind (meets_commit fun w hw => ?_) fun _ => meets_pure _
      obtain ⟨slot, -, rfl⟩ := List.mem_map.1 hw
      exact hinvalidation slot.1
    unfold tryDelete
    cases force with
    | true => exact hrest _
    | false => exact Meets.bind (meets_watchAndRead _) hrest

theorem meets_release (targets : List Key) (token : Token) :
    (do connect; retrying "release_sentinel" (tryRelease targets token) :
      RemoteCall Unit).Meets P := by
  refine Meets.bind meets_connect fun _ => meets_attempts ?_ _ _
  refine Meets.bind (meets_watchAndRead _) fun current => Meets.bind (meets_commit fun w hw => ?_)
    fun _ => meets_pure _
  obtain ⟨slot, -, rfl⟩ := List.mem_map.1 hw
  trivial

theorem meets_releaseToken (keys : List Key) (token : Token) :
    (releaseToken cfg keys token).Meets P := by
  unfold releaseToken
  split
  · trivial
  · refine meets_bind_program (meets_release _ _) fun result => ?_
    cases result with
    | ok u => trivial
    | error fault => exact ⟨trivial, fun _ => trivial⟩

end RemoteStore
end CacheCoherence

import CacheCoherence.Proofs.Server.Writes
import CacheCoherence.Session

/-!
# Calls observed at the server

While a call runs, other clients write to the server between its commands. What happens to the
server is observed in order: the writes of others, the readings that the call decides on, and its
own transactions, run or refused. On a server that does not fail, the happenings account for every
change of a slot: replayed from the start they lead to the slots at the end.
-/
namespace CacheCoherence

inductive Happening where
  /-- Another client writes. -/
  | other (w : ForeignWrite)
  /-- The call reads what slots hold. -/
  | read
  /-- Writes of the call run in one step. -/
  | ran (ws : List Write)
  /-- A transaction of the call is refused. -/
  | aborted
deriving DecidableEq

namespace Happening

/-- What a happening makes of the slots. -/
def replay (s : Server) : Happening → Server
  | .other w => s.write w.toWrite
  | .ran ws => ws.foldl Server.write s
  | .read | .aborted => s

def isRead : Happening → Bool
  | .read => true
  | _ => false

/-- Whether a transaction of the call comes to its end here. -/
def isCommit : Happening → Bool
  | .ran _ | .aborted => true
  | _ => false

@[simp] theorem isRead_read : read.isRead = true := rfl

@[simp] theorem isCommit_read : read.isCommit = false := rfl

@[simp] theorem isRead_other (w : ForeignWrite) : (other w).isRead = false := rfl

@[simp] theorem isCommit_other (w : ForeignWrite) : (other w).isCommit = false := rfl

end Happening

namespace Server

def after (s : Server) (hs : List Happening) : Server := hs.foldl Happening.replay s

def others (s : Server) (ws : List ForeignWrite) : Server :=
  (ws.map ForeignWrite.toWrite).foldl write s

/-- Servers that differ in the watches of the connection at most. -/
structure Alike (s s' : Server) : Prop where
  slots : s.slots = s'.slots
  now : s.now = s'.now

namespace Alike
variable {s s' s'' : Server}

theorem refl (s : Server) : s.Alike s := ⟨rfl, rfl⟩

theorem symm (h : s.Alike s') : s'.Alike s := ⟨h.slots.symm, h.now.symm⟩

theorem trans (h : s.Alike s') (h' : s'.Alike s'') : s.Alike s'' :=
  ⟨h.slots.trans h'.slots, h.now.trans h'.now⟩

theorem content (h : s.Alike s') (key : Key) : s.content key = s'.content key := by
  unfold Server.content
  rw [h.slots, h.now]

theorem live? (h : s.Alike s') (key : Key) : s.live? key = s'.live? key := by
  unfold Server.live?
  rw [h.slots, h.now]

theorem lifetime (h : s.Alike s') (key : Key) : s.lifetime key = s'.lifetime key := by
  unfold Server.lifetime
  rw [h.slots, h.now]

theorem write (h : s.Alike s') (w : Write) : (s.write w).Alike (s'.write w) := by
  refine ⟨?_, by rw [now_write, now_write, h.now]⟩
  cases w with
  | set key text px =>
    change s.slots.insert key _ = s'.slots.insert key _
    rw [h.slots, h.now]
  | delete key =>
    rw [write_delete, write_delete, h.content key]
    split
    · change s.slots.erase key = s'.slots.erase key
      rw [h.slots]
    · exact h.slots

theorem foldl_write (h : s.Alike s') (ws : List Write) :
    (ws.foldl Server.write s).Alike (ws.foldl Server.write s') := by
  induction ws generalizing s s' with
  | nil => exact h
  | cons w rest ih => exact ih (h.write w)

theorem replay (h : s.Alike s') (e : Happening) : (e.replay s).Alike (e.replay s') := by
  cases e with
  | other w => exact h.write w.toWrite
  | ran ws => exact h.foldl_write ws
  | _ => exact h

theorem after (h : s.Alike s') (hs : List Happening) : (s.after hs).Alike (s'.after hs) := by
  induction hs generalizing s s' with
  | nil => exact h
  | cons e rest ih => exact ih (h.replay e)

end Alike

section After
variable (s : Server)

@[simp] theorem after_append (hs hs' : List Happening) :
    s.after (hs ++ hs') = (s.after hs).after hs' := List.foldl_append

theorem after_others (ws : List ForeignWrite) : s.after (ws.map .other) = s.others ws := by
  unfold after others
  rw [List.foldl_map, List.foldl_map]
  rfl

theorem alike_watch (keys : List Key) : (s.watch keys).Alike s := ⟨rfl, rfl⟩

theorem alike_unwatch : s.unwatch.Alike s := ⟨rfl, rfl⟩

theorem alike_scan (cursor : Nat) (pattern : String) (count : Nat) :
    (s.scan cursor pattern count).2.Alike s := by
  unfold scan
  simp only
  split <;> exact ⟨rfl, rfl⟩

@[simp] theorem watched_others (ws : List ForeignWrite) : (s.others ws).watched = s.watched :=
  watched_foldl_write _ s

@[simp] theorem now_others (ws : List ForeignWrite) : (s.others ws).now = s.now :=
  now_foldl_write _ s

theorem others_append (ws ws' : List ForeignWrite) :
    s.others (ws ++ ws') = (s.others ws).others ws' := by
  unfold others
  rw [List.map_append, List.foldl_append]

/-- If others touched no watched key, every watched slot is as it was. -/
theorem untouched_others {ws : List ForeignWrite} (h : (s.others ws).touched = false) :
    s.touched = false ∧
      ∀ k ∈ s.watched, (s.others ws).slots.get? k = s.slots.get? k :=
  untouched_foldl_write _ h

theorem touched_others_of_unwatched (h : s.watched = []) (ws : List ForeignWrite) :
    (s.others ws).touched = s.touched := touched_foldl_write_of_unwatched _ h

end After
end Server

namespace Exchange

/-- What other clients write behind a command. -/
def behind (x : Exchange) (command : String) : List ForeignWrite :=
  match takeRace command x.races with
  | none => []
  | some (writes, _) => writes

def behindLifetimes : List Key → Exchange → List ForeignWrite
  | [], _ => []
  | _ :: rest, x => x.behind "PTTL" ++ behindLifetimes rest (x.race "PTTL")

/-- What happens during a request on a server that does not fail. -/
def happenings : Request → Exchange → List Happening
  | .connect, _ => []
  | .get _, x => .read :: (x.behind "GET").map .other
  | .getMany _, x => .read :: (x.behind "MGET").map .other
  | .setIfAbsent key text px, x =>
    (if (x.server.content key).isSome then [] else [.ran [.set key text (some px)]]) ++
      (x.behind "SET").map .other
  | .watch _, x => (x.behind "WATCH").map .other
  | .unwatch, x => (x.behind "UNWATCH").map .other
  | .commit writes, x =>
    (x.behind "MULTI").map .other ++
      (if (x.race "MULTI").server.touched then .aborted else .ran writes) ::
        ((x.race "MULTI").behind "EXEC").map .other
  | .lifetimes keys, x => (behindLifetimes keys x).map .other
  | .scan .., x => (x.behind "SCAN").map .other
  | .delete keys, x => .ran (keys.map .delete) :: (x.behind "DEL").map .other

section Command
variable {x : Exchange} {name : String}

theorem behind_congr (x x' : Exchange) (h : x.races = x'.races) (name : String) :
    x.behind name = x'.behind name := by
  unfold behind
  rw [h]

@[simp] theorem server_race (x : Exchange) (name : String) :
    (x.race name).server = x.server.others (x.behind name) := by
  unfold race behind
  cases takeRace name x.races with
  | none => rfl
  | some taken =>
    obtain ⟨writes, races⟩ := taken
    exact List.foldl_map.symm

@[simp] theorem failures_race (x : Exchange) (name : String) :
    (x.race name).failures = x.failures := by
  unfold race
  cases takeRace name x.races <;> rfl

theorem races_race (x x' : Exchange) (h : x.races = x'.races) (name : String) :
    (x.race name).races = (x'.race name).races := by
  unfold race
  rw [h]
  cases takeRace name x'.races with
  | none => exact h
  | some taken => rfl

/-- A server that does not fail runs a command and lets others write behind it. -/
theorem command_calm (h : x.failures = []) (name : String) (arguments : List String) {α : Type}
    (run : Server → α × Server) :
    (x.command name arguments run).1 = .ok (run x.server).1 ∧
      (x.command name arguments run).2.server = (run x.server).2.others (x.behind name) ∧
      (x.command name arguments run).2.failures = [] ∧
      (x.command name arguments run).2.races = (x.race name).races := by
  have hcommand : x.command name arguments run = (.ok (run x.server).1,
      Exchange.race { x with
        server := (run x.server).2, received := x.received ++ [name :: arguments] } name) := by
    unfold command
    rw [h]
    rfl
  rw [hcommand]
  refine ⟨rfl, ?_, ?_, ?_⟩
  · exact server_race _ name
  · exact (failures_race _ name).trans h
  · exact races_race
      ⟨(run x.server).2, x.failures, x.races, x.received ++ [name :: arguments]⟩ x rfl
      name

end Command

section Others
variable {P : ForeignWrite → Prop}

variable (P) in
/-- All that other clients will write has a property. -/
def OthersAre (x : Exchange) : Prop := ∀ race ∈ x.races, ∀ w ∈ race.writes, P w

theorem takeRace_all {command : String} {races : List Race}
    (h : ∀ race ∈ races, ∀ w ∈ race.writes, P w) {writes : List ForeignWrite} {rest : List Race}
    (htake : takeRace command races = some (writes, rest)) :
    (∀ w ∈ writes, P w) ∧ ∀ race ∈ rest, ∀ w ∈ race.writes, P w := by
  induction races generalizing rest with
  | nil => cases htake
  | cons race races ih =>
    have hhead := h race List.mem_cons_self
    have htail (r : Race) (hr : r ∈ races) := h r (List.mem_cons_of_mem _ hr)
    unfold takeRace at htake
    split at htake
    · cases htake
      refine ⟨hhead, fun r hr => ?_⟩
      rcases List.mem_cons.1 hr with rfl | hr
      · exact hhead
      · exact htail r hr
    · obtain ⟨⟨writes', rest'⟩, htaken, heq⟩ := Option.map_eq_some_iff.1 htake
      cases heq
      obtain ⟨hwrites, hrest⟩ := ih htail htaken
      refine ⟨hwrites, fun r hr => ?_⟩
      rcases List.mem_cons.1 hr with rfl | hr
      · exact hhead
      · exact hrest r hr

variable {x : Exchange}

theorem OthersAre.behind (h : x.OthersAre P) (name : String) : ∀ w ∈ x.behind name, P w := by
  unfold Exchange.behind
  cases htake : takeRace name x.races with
  | none => exact fun w hw => by cases hw
  | some taken =>
    obtain ⟨writes, rest⟩ := taken
    exact (takeRace_all h htake).1

theorem OthersAre.race (h : x.OthersAre P) (name : String) : (x.race name).OthersAre P := by
  unfold Exchange.race
  cases htake : takeRace name x.races with
  | none => exact h
  | some taken =>
    obtain ⟨writes, rest⟩ := taken
    exact (takeRace_all h htake).2

theorem OthersAre.command (h : x.OthersAre P) (name : String) (arguments : List String) {α : Type}
    (run : Server → α × Server) : (x.command name arguments run).2.OthersAre P := by
  unfold Exchange.command
  simp only
  cases takeFailure name x.failures with
  | none =>
    refine OthersAre.race ?_ name
    exact h
  | some failures =>
    refine OthersAre.race ?_ name
    exact h

theorem OthersAre.writeAlone (h : x.OthersAre P) (w : Write) : (x.writeAlone w).OthersAre P := by
  unfold Exchange.writeAlone
  split
  · exact h
  · exact h.command _ _ _

theorem OthersAre.transaction (h : x.OthersAre P) (writes : List Write) :
    (x.transaction writes).2.OthersAre P := by
  have hopen := h.command "MULTI" [] fun s => ((), s)
  unfold Exchange.transaction
  split
  · rename_i x₁ heq
    rw [heq] at hopen
    refine OthersAre.command ?_ "EXEC" [] _
    exact hopen
  · rename_i fault x₁ heq
    rw [heq] at hopen
    refine OthersAre.command ?_ "EXEC" [] _
    clear heq
    induction writes generalizing x₁ with
    | nil => exact hopen
    | cons w rest ih => exact ih _ (OthersAre.writeAlone hopen w)

theorem OthersAre.lifetimes (h : x.OthersAre P) (keys : List Key) :
    (lifetimes keys x).2.OthersAre P := by
  induction keys generalizing x with
  | nil => exact h
  | cons key rest ih => exact ih (h.command "PTTL" [key] fun s => (s.lifetime key, s))

/-- What other clients will write behind later commands is part of what they will write. -/
theorem OthersAre.answer (h : x.OthersAre P) (q : Request) : (x.answer q).2.OthersAre P := by
  cases q with
  | connect => exact h
  | commit writes => exact h.transaction writes
  | lifetimes keys => exact h.lifetimes keys
  | _ => exact h.command _ _ _

theorem OthersAre.behindLifetimes (h : x.OthersAre P) (keys : List Key) :
    ∀ w ∈ Exchange.behindLifetimes keys x, P w := by
  induction keys generalizing x with
  | nil => exact fun w hw => by cases hw
  | cons key rest ih =>
    intro w hw
    rcases List.mem_append.1 hw with hw | hw
    · exact h.behind "PTTL" w hw
    · exact ih (h.race "PTTL") w hw

theorem OthersAre.happenings (h : x.OthersAre P) (q : Request) :
    ∀ w, .other w ∈ x.happenings q → P w := by
  have hbehind (name : String) (w : ForeignWrite)
      (hw : Happening.other w ∈ (x.behind name).map Happening.other) : P w := by
    obtain ⟨w', hw', heq⟩ := List.mem_map.1 hw
    cases heq
    exact h.behind name w hw'
  intro w hw
  cases q with
  | connect => cases hw
  | get key => exact hbehind _ w (List.mem_of_ne_of_mem (by simp) hw)
  | getMany keys => exact hbehind _ w (List.mem_of_ne_of_mem (by simp) hw)
  | setIfAbsent key text px =>
    refine hbehind _ w ((List.mem_append.1 hw).resolve_left ?_)
    split <;> simp
  | commit writes =>
    rcases List.mem_append.1 hw with hw | hw
    · exact hbehind _ w hw
    · have hlast := List.mem_of_ne_of_mem (by split <;> simp) hw
      obtain ⟨w', hw', heq⟩ := List.mem_map.1 hlast
      cases heq
      exact (h.race "MULTI").behind "EXEC" w hw'
  | lifetimes keys =>
    obtain ⟨w', hw', heq⟩ := List.mem_map.1 hw
    cases heq
    exact h.behindLifetimes keys w hw'
  | delete keys => exact hbehind _ w (List.mem_of_ne_of_mem (by simp) hw)
  | _ => exact hbehind _ w hw

end Others

section Answer
variable {x : Exchange} (h : x.failures = [])
include h

/-- A server that does not fail runs a transaction, or refuses it, after what others write behind
its opening. -/
theorem transaction_calm (writes : List Write) :
    let e := x.server.others (x.behind "MULTI")
    (x.transaction writes).1 = .ok (!e.touched) ∧
      (x.transaction writes).2.server =
        (if e.touched then e.unwatch else (writes.foldl Server.write e).unwatch).others
          ((x.race "MULTI").behind "EXEC") ∧
      (x.transaction writes).2.failures = [] ∧
      (x.transaction writes).2.races = ((x.race "MULTI").race "EXEC").races := by
  obtain ⟨hanswer, hserver, hfailures, hraces⟩ :=
    command_calm h "MULTI" [] fun s => ((), s)
  unfold transaction
  cases hopen : x.command "MULTI" [] fun s => ((), s) with
  | mk opened x₁ =>
  rw [hopen] at hanswer hserver hfailures hraces
  obtain rfl : opened = .ok () := hanswer
  simp only
  have hqueued : ∃ x₂ : Exchange,
      x₂ = { x₁ with received := x₁.received ++ writes.map Write.words } ∧
      x₂.failures = [] ∧ x₂.server = x.server.others (x.behind "MULTI") ∧
      x₂.races = (x.race "MULTI").races := ⟨_, rfl, hfailures, hserver, hraces⟩
  obtain ⟨x₂, hx₂, hfailures', hserver', hraces'⟩ := hqueued
  rw [← hx₂]
  obtain ⟨hanswer₂, hserver₂, hfailures₂, hraces₂⟩ :=
    command_calm hfailures' "EXEC" [] fun s => s.commit writes
  rw [hanswer₂, hserver₂, hserver', behind_congr x₂ _ hraces' "EXEC", Server.commit]
  refine ⟨?_, ?_, hfailures₂, hraces₂.trans (races_race x₂ _ hraces' "EXEC")⟩
  · cases (x.server.others (x.behind "MULTI")).touched <;> rfl
  · cases (x.server.others (x.behind "MULTI")).touched <;> rfl

omit h in
theorem behindLifetimes_congr (keys : List Key) (x x' : Exchange) (hraces : x.races = x'.races) :
    behindLifetimes keys x = behindLifetimes keys x' := by
  induction keys generalizing x x' with
  | nil => rfl
  | cons key rest ih =>
    rw [behindLifetimes, behindLifetimes, behind_congr x x' hraces,
      ih _ _ (races_race x x' hraces "PTTL")]

/-- A server that does not fail tells every lifetime. If nobody touches a watched key meanwhile, all
of them are as at the end. -/
theorem lifetimes_calm (keys : List Key) :
    ∃ left, (lifetimes keys x).1 = .ok left ∧ left.length = keys.length ∧
      (lifetimes keys x).2.server = x.server.others (behindLifetimes keys x) ∧
      (lifetimes keys x).2.failures = [] ∧
      ((x.server.others (behindLifetimes keys x)).touched = false →
        (∀ k ∈ keys, k ∈ x.server.watched) →
        left = keys.map (x.server.others (behindLifetimes keys x)).lifetime) := by
  induction keys generalizing x with
  | nil => exact ⟨[], rfl, rfl, rfl, h, fun _ _ => rfl⟩
  | cons key rest ih =>
    obtain ⟨hanswer, hserver, hfailures, hraces⟩ :=
      command_calm h "PTTL" [key] fun s => (s.lifetime key, s)
    obtain ⟨left, hleft, hlength, hserver', hfailures', hsame⟩ := ih hfailures
    rw [behindLifetimes_congr rest _ (x.race "PTTL") hraces, hserver,
      ← Server.others_append] at hserver' hsame
    refine ⟨x.server.lifetime key :: left, ?_, congrArg Nat.succ hlength, hserver', hfailures', ?_⟩
    · simp only [lifetimes, hanswer, hleft]
      rfl
    · intro huntouched hwatched
      have hrest := hsame huntouched fun k hk => by
        rw [Server.watched_others]
        exact hwatched k (List.mem_cons_of_mem _ hk)
      have hkey := (Server.untouched_others _ huntouched).2 key (hwatched key List.mem_cons_self)
      change left = rest.map (x.server.others (behindLifetimes (key :: rest) x)).lifetime at hrest
      rw [List.map_cons, ← hrest]
      congr 1
      unfold Server.lifetime Slots.live?
      rw [hkey, Server.now_others]

/-- On a server that does not fail, the happenings of a request account for what it does. -/
theorem accounts (q : Request) :
    (x.answer q).2.failures = [] ∧
      (x.answer q).2.server.Alike (x.server.after (x.happenings q)) := by
  have hothers {s s' : Server} (halike : s.Alike s') (ws : List ForeignWrite) :
      (s.others ws).Alike (s'.after (ws.map .other)) := by
    rw [← Server.after_others]
    exact halike.after _
  cases q with
  | connect => exact ⟨h, Server.alike_unwatch _⟩
  | get key =>
    obtain ⟨-, hserver, hfailures, -⟩ := command_calm h "GET" [key] fun s => (s.content key, s)
    exact ⟨hfailures, hserver ▸ hothers (.refl _) _⟩
  | getMany keys =>
    obtain ⟨-, hserver, hfailures, -⟩ :=
      command_calm h "MGET" keys fun s => (keys.map s.content, s)
    exact ⟨hfailures, hserver ▸ hothers (.refl _) _⟩
  | setIfAbsent key text px =>
    obtain ⟨-, hserver, hfailures, -⟩ := command_calm h "SET" [key, text, "NX", "PX", toString px]
      fun s => s.setIfAbsent key text px
    refine ⟨hfailures, ?_⟩
    rw [Server.setIfAbsent] at hserver
    rw [happenings]
    split at hserver
    · rename_i hpresent
      rw [if_pos hpresent]
      exact hserver ▸ hothers (.refl _) _
    · rename_i habsent
      rw [if_neg habsent, Server.after_append]
      exact hserver ▸ hothers (.refl _) _
  | watch keys =>
    obtain ⟨-, hserver, hfailures, -⟩ := command_calm h "WATCH" keys fun s => ((), s.watch keys)
    exact ⟨hfailures, hserver ▸ hothers (Server.alike_watch _ keys) _⟩
  | unwatch =>
    obtain ⟨-, hserver, hfailures, -⟩ := command_calm h "UNWATCH" [] fun s => ((), s.unwatch)
    exact ⟨hfailures, hserver ▸ hothers (Server.alike_unwatch _) _⟩
  | commit writes =>
    obtain ⟨-, hserver, hfailures, -⟩ := transaction_calm h writes
    refine ⟨hfailures, ?_⟩
    change (x.transaction writes).2.server.Alike _
    rw [hserver, happenings, Server.after_append, Server.after_others, server_race]
    cases htouched : (x.server.others (x.behind "MULTI")).touched with
    | true => exact hothers (Server.alike_unwatch _) _
    | false => exact hothers (Server.alike_unwatch _) _
  | lifetimes keys =>
    obtain ⟨left, -, -, hserver, hfailures, -⟩ := lifetimes_calm h keys
    exact ⟨hfailures, hserver ▸ hothers (.refl _) _⟩
  | scan cursor pattern count =>
    obtain ⟨-, hserver, hfailures, -⟩ := command_calm h "SCAN"
      [toString cursor, "MATCH", pattern, "COUNT", toString count]
      fun s => s.scan cursor pattern count
    exact ⟨hfailures, hserver ▸ hothers (Server.alike_scan _ cursor pattern count) _⟩
  | delete keys =>
    obtain ⟨-, hserver, hfailures, -⟩ :=
      command_calm h "DEL" keys fun s => ((), keys.foldl Server.delete s)
    refine ⟨hfailures, hserver ▸ ?_⟩
    rw [Server.foldl_delete]
    exact hothers (.refl _) _

end Answer

end Exchange

/-- A store on a server, with what was observed there so far. -/
structure Observed where
  remote : Remote
  log : List Happening := []

namespace Observed

def server (o : Observed) : Server := o.remote.exchange.server

def happenings : RemoteAction → Remote → List Happening
  | .request q, r => r.exchange.happenings q
  | .issue _, _ | .log _, _ => []

/-- Takes one action of a call and keeps a log of what happens. -/
def answer (q : RemoteAction) (o : Observed) : q.Answer × Observed :=
  ((Remote.answer q o.remote).1, ⟨(Remote.answer q o.remote).2, o.log ++ happenings q o.remote⟩)

/-- Observing a call does not change it. -/
theorem run_answer {α : Type} (p : RemoteProgram α) (o : Observed) :
    (p.run answer o).1 = (p.run Remote.answer o.remote).1 ∧
      (p.run answer o).2.remote = (p.run Remote.answer o.remote).2 := by
  induction p generalizing o with
  | done a => exact ⟨rfl, rfl⟩
  | ask q next ih => exact ih _ (answer q o).2

/-- The server does not fail. -/
def Calm (o : Observed) : Prop := o.remote.exchange.failures = []

/-- The log of a program on a server that does not fail accounts for all that becomes of the slots,
and what other clients wrote meanwhile is part of what they were to write. -/
theorem run_accounts {α : Type} (p : RemoteProgram α) {o : Observed} (h : o.Calm)
    {P : ForeignWrite → Prop} (hothers : o.remote.exchange.OthersAre P) :
    ∃ hs, (p.run answer o).2.log = o.log ++ hs ∧ (p.run answer o).2.Calm ∧
      (p.run answer o).2.server.Alike (o.server.after hs) ∧
      (p.run answer o).2.remote.exchange.OthersAre P ∧ ∀ w, .other w ∈ hs → P w := by
  induction p generalizing o with
  | done a => exact ⟨[], (List.append_nil _).symm, h, .refl _, hothers, fun w hw => by cases hw⟩
  | ask q next ih =>
    have hstep : (answer q o).2.Calm ∧
        (answer q o).2.server.Alike (o.server.after (happenings q o.remote)) ∧
        (answer q o).2.remote.exchange.OthersAre P ∧
        ∀ w, .other w ∈ happenings q o.remote → P w := by
      cases q with
      | request q =>
        obtain ⟨hcalm, hserver⟩ := Exchange.accounts h q
        exact ⟨hcalm, hserver, hothers.answer q, hothers.happenings q⟩
      | issue tag => exact ⟨h, .refl _, hothers, fun w hw => by cases hw⟩
      | log e => exact ⟨h, .refl _, hothers, fun w hw => by cases hw⟩
    obtain ⟨hcalm, hserver, hlater, hnow⟩ := hstep
    obtain ⟨hs, hlog, hcalm', hserver', hlater', hothers'⟩ := ih (answer q o).1 hcalm hlater
    refine ⟨happenings q o.remote ++ hs, ?_, hcalm', ?_, hlater', ?_⟩
    · exact hlog.trans (List.append_assoc _ _ _)
    · rw [Server.after_append]
      exact hserver'.trans (hserver.after hs)
    · intro w hw
      rcases List.mem_append.1 hw with hw | hw
      · exact hnow w hw
      · exact hothers' w hw

end Observed
end CacheCoherence

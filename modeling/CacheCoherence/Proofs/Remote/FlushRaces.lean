import CacheCoherence.Proofs.Remote.Texts

/-!
# Flushes among other clients

A flush that is to keep tombstones reads what a batch of keys holds, and removes in a second command
those that held none. Nothing ties the two commands together: other clients may write in between,
and the removal does not look again. Whatever a scan is answered, wherever commands fail and
whatever others write, a tombstone that was read is kept, and a tombstone that came in behind the
reading goes with the other slots of its batch.
-/
namespace CacheCoherence

namespace Program
variable {Q : Type} {R : Q → Type} {α β σ : Type} (answer : (q : Q) → σ → R q × σ)

/-- The questions that a program asks, each with the state in which it is asked. -/
def moments : Program Q R α → σ → List (Q × σ)
  | done _, _ => []
  | ask q next, s => (q, s) :: moments (next (answer q s).1) (answer q s).2

theorem moments_bind (p : Program Q R α) (f : α → Program Q R β) (s : σ) :
    (p >>= f).moments answer s =
      p.moments answer s ++ (f (p.run answer s).1).moments answer (p.run answer s).2 := by
  induction p generalizing s with
  | done a => rfl
  | ask q next ih => exact congrArg ((q, s) :: ·) (ih (answer q s).1 (answer q s).2)

end Program

section Flush
variable {σ : Type} (answer : (q : RemoteAction) → σ → q.Answer × σ)

namespace RemoteCall
variable {α β : Type}

def moments (p : RemoteCall α) (s : σ) : List (RemoteAction × σ) := Program.moments answer p.run s

theorem moments_bind_ok {p : RemoteCall α} {f : α → RemoteCall β} {s s' : σ} {a : α}
    (h : Program.run answer p.run s = (.ok a, s')) :
    (p >>= f).moments answer s = p.moments answer s ++ (f a).moments answer s' := by
  have hbind := Program.moments_bind answer p.run
    (fun result => ExceptT.bindCont (fun a => f a) result) s
  rw [h] at hbind
  exact hbind

theorem moments_bind_error {p : RemoteCall α} {f : α → RemoteCall β} {s s' : σ} {fault : Fault}
    (h : Program.run answer p.run s = (.error fault, s')) :
    (p >>= f).moments answer s = p.moments answer s := by
  have hbind := Program.moments_bind answer p.run
    (fun result => ExceptT.bindCont (fun a => f a) result) s
  rw [h] at hbind
  exact hbind.trans (List.append_nil _)

end RemoteCall

/-- The keys of a batch that held no tombstone when they were read. -/
def untombed (batch : List Key) (current : List (Option String)) : List Key :=
  ((batch.zip current).filter fun slot => !slot.2.any isTombstone).map (·.1)

theorem mem_untombed {batch : List Key} {held : Key → Option String} {key : Key} :
    key ∈ untombed batch (batch.map held) ↔ key ∈ batch ∧ held key ≠ some Token.tombstone := by
  have hspared : (!(held key).any isTombstone) = true ↔ held key ≠ some Token.tombstone := by
    cases held key <;> simp [isTombstone]
  rw [untombed, ← List.map_prod_left_eq_zip, List.filter_map, List.map_map, ← hspared]
  simp [Function.comp_def]

/-- The course of a flush that keeps tombstones: it scans, it reads what it found, and it removes
what it has just read and found to be no tombstone. -/
inductive FlushCourse : List (RemoteAction × σ) → Prop
  | done : FlushCourse []
  | scan {cursor : Nat} {pattern : String} {count : Nat} {s : σ} {rest : List (RemoteAction × σ)}
      (h : FlushCourse rest) : FlushCourse ((.request (.scan cursor pattern count), s) :: rest)
  | read {batch : List Key} {s : σ} {rest : List (RemoteAction × σ)} (h : FlushCourse rest) :
      FlushCourse ((.request (.getMany batch), s) :: rest)
  | remove {batch : List Key} {current : List (Option String)} {s s' : σ}
      {rest : List (RemoteAction × σ)}
      (hread : answer (.request (.getMany batch)) s = (.ok current, s')) (h : FlushCourse rest) :
      FlushCourse ((.request (.getMany batch), s) ::
        (.request (.delete (untombed batch current)), s') :: rest)

namespace RemoteStore
open RemoteCall

variable {batch : List Key} {next rounds : Nat} {pattern : String} {s : σ}

def flushBatch (pattern : String) (batch : List Key) (next rounds : Nat) : RemoteCall Unit := do
  let gone ← victims batch false
  if !gone.isEmpty then
    delete gone
  if next = 0 then return ()
  else flushFrom pattern false next rounds

theorem flushCourse_flushBatch
    (hrest : ∀ s, FlushCourse answer ((if next = 0 then return ()
      else flushFrom pattern false next rounds : RemoteCall Unit).moments answer s)) :
    FlushCourse answer ((flushBatch pattern batch next rounds).moments answer s) := by
  by_cases hempty : batch = []
  · subst hempty
    exact hrest s
  have hvictims : victims batch false = (do
      let current ← getMany batch
      return untombed batch current) := by
    rw [victims, if_neg (by simp [hempty])]
    rfl
  unfold flushBatch
  rw [hvictims]
  simp only [bind_assoc, pure_bind]
  cases hread : answer (.request (.getMany batch)) s with
  | mk result s₁ =>
  cases result with
  | error fault =>
    have hrun : Program.run answer (getMany batch).run s = (.error fault, s₁) := hread
    rw [moments_bind_error answer hrun]
    exact .read .done
  | ok current =>
    have hrun : Program.run answer (getMany batch).run s = (.ok current, s₁) := hread
    rw [moments_bind_ok answer hrun]
    cases hgone : (untombed batch current).isEmpty with
    | true => exact .read (hrest s₁)
    | false =>
      simp only [Bool.not_false, if_true]
      cases hdelete : answer (.request (.delete (untombed batch current))) s₁ with
      | mk result s₂ =>
      have hrun : Program.run answer (delete (untombed batch current)).run s₁ = (result, s₂) :=
        hdelete
      cases result with
      | error fault =>
        rw [moments_bind_error answer hrun]
        exact .remove hread .done
      | ok u =>
        rw [moments_bind_ok answer hrun]
        exact .remove hread (hrest s₂)

/-- A flush that keeps tombstones takes this course, whatever it is answered. -/
theorem flushCourse_flushFrom (pattern : String) (cursor rounds : Nat) (s : σ) :
    FlushCourse answer ((flushFrom pattern false cursor rounds).moments answer s) := by
  induction rounds generalizing cursor s with
  | zero => exact .done
  | succ rounds ih =>
    rw [flushFrom]
    cases hscan : answer (.request (.scan cursor pattern scanBatch)) s with
    | mk result s₀ =>
    cases result with
    | error fault =>
      have hrun : Program.run answer (scan cursor pattern scanBatch).run s = (.error fault, s₀) :=
        hscan
      rw [moments_bind_error answer hrun]
      exact .scan .done
    | ok found =>
      have hrun : Program.run answer (scan cursor pattern scanBatch).run s = (.ok found, s₀) :=
        hscan
      rw [moments_bind_ok answer hrun]
      refine .scan (flushCourse_flushBatch answer fun s => ?_)
      split
      · exact .done
      · exact ih found.1 s

/-- Keys are read as on a server, and then other clients write. What a scan is answered, which
commands fail and what the others write is left open. -/
structure ReadsAmong (server : σ → Server) (others : List Key → σ → List ForeignWrite) : Prop where
  answered : ∀ keys s current, (answer (.request (.getMany keys)) s).1 = .ok current →
    current = keys.map (server s).content
  written : ∀ keys s,
    server (answer (.request (.getMany keys)) s).2 = (server s).others (others keys s)

end RemoteStore

theorem FlushCourse.removal {answer : (q : RemoteAction) → σ → q.Answer × σ}
    {ms before after : List (RemoteAction × σ)} {gone : List Key} {s' : σ}
    (h : FlushCourse answer ms) (hms : ms = before ++ (.request (.delete gone), s') :: after) :
    ∃ before' batch current s, before = before' ++ [(.request (.getMany batch), s)] ∧
      answer (.request (.getMany batch)) s = (.ok current, s') ∧ gone = untombed batch current := by
  induction h generalizing before with
  | done => cases before <;> cases hms
  | scan _ ih =>
    cases before with
    | nil => cases hms
    | cons first before =>
      obtain ⟨before', batch, current, s, rfl, hread, hgone⟩ := ih (List.cons.inj hms).2
      exact ⟨first :: before', batch, current, s, rfl, hread, hgone⟩
  | read _ ih =>
    cases before with
    | nil => cases hms
    | cons first before =>
      obtain ⟨before', batch, current, s, rfl, hread, hgone⟩ := ih (List.cons.inj hms).2
      exact ⟨first :: before', batch, current, s, rfl, hread, hgone⟩
  | @remove batch current s s' rest hread _ ih =>
    match before with
    | [] => cases hms
    | [first] =>
      obtain ⟨rfl, htail⟩ := List.cons.inj hms
      cases (List.cons.inj htail).1
      exact ⟨[], batch, current, s, rfl, hread, rfl⟩
    | first :: second :: before =>
      obtain ⟨before', batch', current', s₀, rfl, hread', hgone⟩ :=
        ih (List.cons.inj (List.cons.inj hms).2).2
      exact ⟨first :: second :: before', batch', current', s₀, rfl, hread', hgone⟩

end Flush

namespace Server
variable {s : Server} {key : Key} {text : String}

theorem content_others {ws : List ForeignWrite} (h : (s.others ws).content key = some text) :
    s.content key = some text ∨ ∃ w ∈ ws, w.key = key ∧ w.text = some text := by
  let P (key : Key) (text : String) : Prop :=
    s.content key = some text ∨ ∃ w ∈ ws, w.key = key ∧ w.text = some text
  have hbefore : s.Within P := fun key text hcontent => .inl hcontent
  refine Within.foldl_write hbefore (fun write hmem => ?_) key text h
  obtain ⟨w, hw, rfl⟩ := List.mem_map.1 hmem
  cases htext : w.text with
  | none =>
    rw [ForeignWrite.toWrite, htext]
    trivial
  | some text =>
    rw [ForeignWrite.toWrite, htext]
    exact .inr ⟨w, hw, rfl, htext⟩

theorem content_foldl_delete (keys : List Key) (s : Server) (key : Key) :
    (keys.foldl Server.delete s).content key = if key ∈ keys then none else s.content key := by
  rw [content_eq_live?, live?_foldl_delete]
  split <;> rfl

end Server

namespace RemoteStore
variable {σ : Type} {answer : (q : RemoteAction) → σ → q.Answer × σ} {server : σ → Server}
  {others : List Key → σ → List ForeignWrite}

/-- **What a flush removes among other clients.** Every removal of a flush that is to keep
tombstones comes directly behind the reading of its batch, and only the writes of other clients come
in between. A tombstone that stands at the removal is removed by it exactly if its key is in the
batch and held none at the reading, so that another client has written it since. -/
theorem flush_removes_tombstone_iff (henv : ReadsAmong answer server others) (cfg : RemoteSettings)
    (rules : Rules) (rounds : Nat) (root : String) (s : σ) {before after : List (RemoteAction × σ)}
    {gone : List Key} {s₁ : σ}
    (hremoval : Program.moments answer (perform cfg rules rounds (.flush root false)) s =
      before ++ (.request (.delete gone), s₁) :: after) :
    ∃ before' batch s₀, before = before' ++ [(.request (.getMany batch), s₀)] ∧
      server s₁ = (server s₀).others (others batch s₀) ∧
      ∀ key, (server s₁).content key = some Token.tombstone →
        ((gone.foldl Server.delete (server s₁)).content key ≠ some Token.tombstone ↔
          key ∈ batch ∧ (server s₀).content key ≠ some Token.tombstone) ∧
        ((server s₀).content key ≠ some Token.tombstone →
          ∃ w ∈ others batch s₀, w.key = key ∧ w.text = some Token.tombstone) := by
  have hcourse : FlushCourse answer
      (Program.moments answer (perform cfg rules rounds (.flush root false)) s) :=
    flushCourse_flushFrom answer (cfg.scanPattern root) 0 rounds s
  obtain ⟨before', batch, current, s₀, rfl, hread, rfl⟩ := hcourse.removal hremoval
  have hserver : server s₁ = (server s₀).others (others batch s₀) := by
    rw [← henv.written, hread]
  obtain rfl : current = batch.map (server s₀).content :=
    henv.answered batch s₀ current (by rw [hread])
  refine ⟨before', batch, s₀, rfl, hserver, fun key hstands => ⟨?_, fun hunread => ?_⟩⟩
  · rw [Server.content_foldl_delete, ← mem_untombed]
    split
    · rename_i hgone
      exact ⟨fun _ => hgone, fun _ => nofun⟩
    · rename_i hkept
      exact ⟨fun hremoved => absurd hstands hremoved, fun hgone => absurd hgone hkept⟩
  · rw [hserver] at hstands
    exact (Server.content_others hstands).resolve_left hunread

/-- A store on a server reads so, among the clients that write behind its commands. -/
theorem readsAmong_remote : ReadsAmong Remote.answer (fun r => r.exchange.server)
    fun _ r => r.exchange.behind "MGET" where
  answered keys r _ h :=
    Exchange.answer_of_command
      (show (r.exchange.command "MGET" keys fun s => (keys.map s.content, s)).1 = _ from h)
  written keys _ := Exchange.server_command "MGET" keys (fun s => (keys.map s.content, s)) rfl

/-- A value under `k`, which another client will bury behind the next reading of several keys. -/
def buriedBehindReading : Remote where
  exchange := {
    server := { slots := Slots.put .empty 0 "k" "v" 0 }
    races := [{
      command := "MGET"
      writes := [{ key := "k", text := some Token.tombstone, px := some 5000 }]
      times := 1 }] }

def flushMoments : List (RemoteAction × Remote) :=
  Program.moments Remote.answer (perform {} Rules.standard 2 (.flush "" false))
    buriedBehindReading

/-- The flush removes the tombstone that came in between its reading and its removal. -/
theorem flush_removes_foreign_tombstone :
    ∃ first s₀ s₁, flushMoments =
        [first, (.request (.getMany ["k"]), s₀), (.request (.delete ["k"]), s₁)] ∧
      s₁.exchange.server.content "k" = some Token.tombstone ∧
      (["k"].foldl Server.delete s₁.exchange.server).content "k" ≠ some Token.tombstone ∧
      ∃ w ∈ s₀.exchange.behind "MGET", w.key = "k" ∧ w.text = some Token.tombstone := by
  obtain ⟨first, s₀, s₁, hmoments⟩ : ∃ first s₀ s₁, flushMoments =
      [first, (.request (.getMany ["k"]), s₀), (.request (.delete ["k"]), s₁)] := ⟨_, _, _, rfl⟩
  have hstands : s₁.exchange.server.content "k" = some Token.tombstone := by
    have hlast : flushMoments[2]?.map (fun q => q.2.exchange.server.content "k") =
        some (some Token.tombstone) := by decide +kernel
    rw [hmoments] at hlast
    exact Option.some.inj hlast
  have hread : s₀.exchange.server.content "k" ≠ some Token.tombstone := by
    have hsecond : flushMoments[1]?.map (fun q => q.2.exchange.server.content "k") =
        some (some "v") := by decide +kernel
    rw [hmoments] at hsecond
    have hvalue : s₀.exchange.server.content "k" = some "v" := Option.some.inj hsecond
    rw [hvalue]
    decide
  obtain ⟨before, batch, s, hbefore, -, hkey⟩ := flush_removes_tombstone_iff readsAmong_remote {}
    Rules.standard 2 "" buriedBehindReading
    (show flushMoments = [first, (.request (.getMany ["k"]), s₀)] ++ _ :: [] from hmoments)
  obtain ⟨-, hlast⟩ := List.append_inj' (show [first] ++ [_] = before ++ [_] from hbefore) rfl
  cases hlast
  obtain ⟨hremoved, hforeign⟩ := hkey "k" hstands
  exact ⟨first, s₀, s₁, hmoments, hstands, hremoved.2 ⟨List.mem_cons_self, hread⟩, hforeign hread⟩

end RemoteStore
end CacheCoherence

import CacheCoherence.Proofs.Remote.Decisions
import CacheCoherence.Proofs.Remote.Texts
import Mathlib.Data.List.Forall2

/-!
# Read locks on a server

A lock is the only text that a reading writes, and it takes its locks one at a time. Whatever other
clients write meanwhile and wherever the server fails, a lock that a reading of one slot took is in
what the reading ends with. The same holds for a reading of several slots unless it ends with a
fault. A release that does not fail leaves its token in none of its slots, whether the token was
removed or was gone already.
-/
namespace CacheCoherence

/-- A text under a key is not one that is looked for in a slot. -/
def Elsewhere (slot : Key) (text : String) (key : Key) (found : String) : Prop :=
  ¬ (key = slot ∧ found = text)

namespace Lookup

/-- A lookup comes with a lock only if one was wanted and the slot was found empty. -/
def Fits (lock : Bool) (found : Lookup) : Prop :=
  found.token ≠ Token.noLock → lock = true ∧ found.value = none

/-- The locks that the lookups of a batch come with, each with its key. -/
def locks (keys : List Key) (found : List Lookup) : List (Key × Token) :=
  keys.zip (found.map (·.token))

theorem token_observed (raw : Option String) : (observed raw).token = Token.noLock := by
  cases raw with
  | none => rfl
  | some raw =>
    unfold observed
    dsimp only
    split <;> rfl

theorem fits_observed (lock : Bool) (raw : Option String) : (observed raw).Fits lock :=
  fun h => absurd (token_observed raw) h

end Lookup

namespace Server
variable {s : Server} {slot : Key} {text : String}

theorem within_elsewhere : s.Within (Elsewhere slot text) ↔ s.content slot ≠ some text := by
  constructor
  · exact fun h hcontent => h slot text hcontent ⟨rfl, rfl⟩
  · rintro h key found hcontent ⟨rfl, rfl⟩
    exact h hcontent

theorem within_foldl_write_of_delete {ws : List Write} (hmem : .delete slot ∈ ws)
    (hws : ∀ w ∈ ws, w.Meets (Elsewhere slot text)) :
    (ws.foldl Server.write s).Within (Elsewhere slot text) := by
  obtain ⟨before, after, rfl⟩ := List.append_of_mem hmem
  rw [List.foldl_append, List.foldl_cons]
  refine Within.foldl_write (within_elsewhere.2 ?_) fun w hw =>
    hws w (List.mem_append_right _ (List.mem_cons_of_mem _ hw))
  change ((before.foldl Server.write s).delete slot).content slot ≠ some text
  rw [content_delete, if_pos rfl]
  exact nofun

end Server

namespace Exchange
variable {P : Key → String → Prop} {x : Exchange} {slot : Key} {text : String}

/-- A transaction that runs has emptied its slots of a text that nobody else writes. -/
theorem within_transaction_of_delete {ws : List Write}
    (hothers : x.OthersAre fun w => w.toWrite.Meets (Elsewhere slot text))
    (hmem : .delete slot ∈ ws) (hws : ∀ w ∈ ws, w.Meets (Elsewhere slot text))
    (hran : (x.transaction ws).1 = .ok true) :
    (x.transaction ws).2.Within (Elsewhere slot text) := by
  have hopen := hothers.command "MULTI" [] fun s => ((), s)
  unfold Exchange.transaction at hran ⊢
  cases hmulti : x.command "MULTI" [] fun s => ((), s) with
  | mk opened x₁ =>
  rw [hmulti] at hopen hran
  cases opened with
  | error fault => cases hran
  | ok u =>
    simp only at hran ⊢
    rcases command_cases "EXEC" [] (fun s => s.commit ws)
        { x₁ with received := x₁.received ++ ws.map Write.words } with
      ⟨fault, x₂, heq, -, -⟩ | ⟨x₂, heq, hserver, hraces⟩
    · rw [heq] at hran
      cases hran
    · rw [heq] at hran ⊢
      refine Within.race ⟨?_, ?_⟩ "EXEC"
      · have huntouched : x₁.server.touched = false := by
          cases htouched : x₁.server.touched with
          | false => rfl
          | true => simp [Server.commit, htouched] at hran
        rw [hserver, Server.commit, huntouched, if_neg Bool.false_ne_true]
        exact (Server.within_foldl_write_of_delete hmem hws).of_alike (Server.alike_unwatch _)
      · intro race hrace
        rw [hraces] at hrace
        exact hopen race hrace

end Exchange

namespace Observed
variable {P : Key → String → Prop} {o : Observed} {α : Type}

def OthersMeet (P : Key → String → Prop) (o : Observed) : Prop :=
  o.remote.exchange.OthersAre fun w => w.toWrite.Meets P

theorem OthersMeet.run (h : o.OthersMeet P) (p : RemoteProgram α) :
    (p.run Observed.answer o).2.OthersMeet P := by
  induction p generalizing o with
  | done a => exact h
  | ask q next ih =>
    refine ih _ ?_
    cases q with
    | request q => exact Exchange.OthersAre.answer h q
    | issue tag => exact h
    | log e => exact h

theorem OthersMeet.within {slot : Key} {text : String}
    (h : o.OthersMeet (Elsewhere slot text)) (hnot : o.server.content slot ≠ some text) :
    o.Within (Elsewhere slot text) :=
  ⟨Server.within_elsewhere.2 hnot, h⟩

end Observed

namespace RemoteCall
open Observed
variable {P : Key → String → Prop} {o : Observed} {α β : Type}

theorem Meets.within {p : RemoteCall α} (hp : p.Meets P) (h : o.Within P) :
    (p.on o).2.Within P := Within.run h hp

/-- A call that goes on with another one fails where the first one does, or as the second one. -/
theorem on_bind_cases (p : RemoteCall α) (f : α → RemoteCall β) (o : Observed) :
    (∃ a, (p.on o).1 = .ok a ∧ (p >>= f).on o = (f a).on (p.on o).2) ∨
    ∃ fault, (p >>= f).on o = (.error fault, (p.on o).2) := by
  rw [on_bind]
  cases p.on o with
  | mk result o' =>
    cases result with
    | ok a => exact .inl ⟨a, rfl, rfl⟩
    | error fault => exact .inr ⟨fault, rfl⟩

theorem on_bind_ok {p : RemoteCall α} {f : α → RemoteCall β} {b : β}
    (h : ((p >>= f).on o).1 = .ok b) :
    ∃ a, (p.on o).1 = .ok a ∧ ((f a).on (p.on o).2).1 = .ok b ∧
      ((p >>= f).on o).2 = ((f a).on (p.on o).2).2 := by
  rcases on_bind_cases p f o with ⟨a, ha, heq⟩ | ⟨fault, heq⟩
  · exact ⟨a, ha, heq ▸ h, heq ▸ rfl⟩
  · rw [heq] at h
    cases h

theorem meets_setIfAbsent {key : Key} {text : String} (px : Nat) (h : P key text) :
    (setIfAbsent key text px).Meets P :=
  ⟨h, fun _ => trivial⟩

theorem within_setIfAbsent (key : Key) (text : String) (px : Nat) (h : o.Within P)
    (hnot : ((setIfAbsent key text px).on o).1 ≠ .ok true) :
    ((setIfAbsent key text px).on o).2.Within P := by
  change ((o.remote.exchange.command "SET" [key, text, "NX", "PX", toString px]
    fun s => s.setIfAbsent key text px).2).Within P
  change (o.remote.exchange.command "SET" [key, text, "NX", "PX", toString px]
    fun s => s.setIfAbsent key text px).1 ≠ .ok true at hnot
  rcases Exchange.command_cases "SET" [key, text, "NX", "PX", toString px]
      (fun s => s.setIfAbsent key text px) o.remote.exchange with
    ⟨fault, x, heq, hserver, hraces⟩ | ⟨x, heq, hserver, hraces⟩
  · rw [heq]
    exact (Exchange.Within.of_races h (hserver ▸ h.server) hraces).race "SET"
  · rw [heq] at hnot ⊢
    refine (Exchange.Within.of_races h ?_ hraces).race "SET"
    unfold Server.setIfAbsent at hnot hserver
    split at hserver
    · exact hserver ▸ h.server
    · rename_i habsent
      rw [if_neg habsent] at hnot
      exact absurd rfl hnot

theorem on_get_ok {key : Key} {raw : Option String}
    (h : ((RemoteCall.get key).on o).1 = .ok raw) : raw = o.server.content key :=
  Exchange.answer_of_command
    (show (o.remote.exchange.command "GET" [key] fun s => (s.content key, s)).1 = _ from h)

theorem on_getMany_ok {keys : List Key} {current : List (Option String)}
    (h : ((getMany keys).on o).1 = .ok current) : current = keys.map o.server.content :=
  Exchange.answer_of_command
    (show (o.remote.exchange.command "MGET" keys fun s => (keys.map s.content, s)).1 = _ from h)

/-- A commit that runs has emptied its slots of a text that nobody else writes. -/
theorem within_commit_of_delete {slot : Key} {text : String} {ws : List Write}
    (ho : o.OthersMeet (Elsewhere slot text)) (hmem : .delete slot ∈ ws)
    (hws : ∀ w ∈ ws, w.Meets (Elsewhere slot text))
    (hran : ((RemoteCall.commit ws).on o).1 = .ok true) :
    ((RemoteCall.commit ws).on o).2.Within (Elsewhere slot text) := by
  have hcommit : RemoteCall.commit ws = RemoteCall.transaction ws := by
    cases ws with
    | nil => cases hmem
    | cons w rest => rfl
  rw [hcommit] at hran ⊢
  exact Exchange.within_transaction_of_delete ho hmem hws hran

/-- If every attempt that comes to something leaves the store as wanted, so do repeated ones. -/
theorem attempts_reach {Q : Observed → Prop} {attempt : RemoteCall (Option α)}
    (h : ∀ o a, o.OthersMeet P → (attempt.on o).1 = .ok (some a) → Q (attempt.on o).2)
    (operation : String) (n : Nat) (ho : o.OthersMeet P) {a : α}
    (hok : ((attempts operation attempt n).on o).1 = .ok a) :
    Q ((attempts operation attempt n).on o).2 := by
  induction n generalizing o with
  | zero => cases hok
  | succ n ih =>
    rw [attempts] at hok ⊢
    obtain ⟨result, hresult, hrest, hend⟩ := on_bind_ok hok
    rw [hend]
    cases result with
    | some a' => exact h o a' ho hresult
    | none => exact ih (ho.run attempt.run) hrest

end RemoteCall

namespace RemoteStore
open RemoteCall Observed
variable (cfg : RemoteSettings) {o : Observed} {slot : Key} {text : String}

section Readings

theorem fits_resolve (target : Key) (raw : Option String) (lock : Bool) {found : Lookup}
    (h : ((resolve cfg target raw lock).on o).1 = .ok found) : found.Fits lock := by
  unfold resolve at h
  split at h
  · cases h
    exact Lookup.fits_observed lock raw
  rename_i hwanted
  have hlock : lock = true := by
    cases lock with
    | true => rfl
    | false => exact absurd (Bool.or_true _) hwanted
  obtain ⟨token, -, h, -⟩ := on_bind_ok h
  obtain ⟨taken, -, h, -⟩ := on_bind_ok h
  cases taken with
  | true =>
    cases h
    exact fun _ => ⟨hlock, rfl⟩
  | false =>
    obtain ⟨raw, -, h, -⟩ := on_bind_ok h
    cases h
    exact Lookup.fits_observed lock raw

/-- A reading of one slot that took a lock on it ends with that lock. -/
theorem on_resolve (target : Key) (raw : Option String) (lock : Bool)
    (h : o.Within (Elsewhere slot text)) :
    ((resolve cfg target raw lock).on o).2.Within (Elsewhere slot text) ∨
      ∃ found, ((resolve cfg target raw lock).on o).1 = .ok found ∧ target = slot ∧
        found.token = text := by
  unfold resolve
  split
  · exact .inl h
  -- The setting is the only write: it takes the lock, or the token stays out of the server.
  have hissued : Observed.Within (Elsewhere slot text)
      ⟨{ o.remote with issued := o.remote.issued + 1 }, o.log ++ []⟩ := h
  rw [on_bind_of_ok (on_issue LockKind.read.name o), on_bind]
  have hnot := within_setIfAbsent target (Token.issue LockKind.read.name o.remote.issued)
    (Duration.serverMillis cfg.lockTtl) hissued
  have hother (hp : Elsewhere slot text target (Token.issue LockKind.read.name o.remote.issued)) :=
    (meets_setIfAbsent (Duration.serverMillis cfg.lockTtl) hp).within hissued
  cases hset : (setIfAbsent target (Token.issue LockKind.read.name o.remote.issued)
      (Duration.serverMillis cfg.lockTtl)).on _ with
  | mk taken o' =>
  rw [hset] at hnot hother
  cases taken with
  | error fault => exact .inl (hnot nofun)
  | ok taken =>
    cases taken with
    | true =>
      by_cases htook : target = slot ∧ Token.issue LockKind.read.name o.remote.issued = text
      · exact .inr ⟨_, rfl, htook⟩
      · exact .inl (hother htook)
    | false =>
      have hagain : (do return Lookup.observed (← RemoteCall.get target) :
          RemoteCall Lookup).Meets (Elsewhere slot text) :=
        (meets_get target).bind fun raw => meets_pure _
      exact .inl (hagain.within (hnot nofun))

theorem fits_getValue (key : Key) (lock : Bool) {found : Lookup}
    (h : ((getValue cfg key lock).on o).1 = .ok found) : found.Fits lock := by
  obtain ⟨raw, -, h, -⟩ := on_bind_ok h
  exact fits_resolve cfg _ raw lock h

theorem on_getValue (key : Key) (lock : Bool) (h : o.Within (Elsewhere slot text)) :
    ((getValue cfg key lock).on o).2.Within (Elsewhere slot text) ∨
      ∃ found, ((getValue cfg key lock).on o).1 = .ok found ∧ cfg.serverKey key = slot ∧
        found.token = text := by
  have hafter := (meets_get (cfg.serverKey key)).within h
  unfold getValue
  rcases on_bind_cases (RemoteCall.get (cfg.serverKey key)) _ o with
    ⟨raw, -, heq⟩ | ⟨fault, heq⟩
  · rw [heq]
    exact on_resolve cfg _ raw lock hafter
  · rw [heq]
    exact .inl hafter

variable {found : List Lookup}

theorem on_resolveAll_cons {entry : Key × Option String × Bool}
    {rest : List (Key × Option String × Bool)}
    (h : ((resolveAll cfg (entry :: rest)).on o).1 = .ok found) :
    ∃ first others, found = first :: others ∧
      ((resolve cfg entry.1 entry.2.1 entry.2.2).on o).1 = .ok first ∧
      ((resolveAll cfg rest).on ((resolve cfg entry.1 entry.2.1 entry.2.2).on o).2).1 =
        .ok others ∧
      ((resolveAll cfg (entry :: rest)).on o).2 =
        ((resolveAll cfg rest).on ((resolve cfg entry.1 entry.2.1 entry.2.2).on o).2).2 := by
  rw [resolveAll] at h ⊢
  obtain ⟨first, hfirst, h, hend⟩ := on_bind_ok h
  obtain ⟨others, hothers, h, hend'⟩ := on_bind_ok h
  cases h
  exact ⟨first, others, rfl, hfirst, hothers, hend.trans hend'⟩

theorem fits_resolveAll {entries : List (Key × Option String × Bool)}
    (h : ((resolveAll cfg entries).on o).1 = .ok found) :
    List.Forall₂ (fun entry lookup => lookup.Fits entry.2.2) entries found := by
  induction entries generalizing o found with
  | nil =>
    cases h
    exact .nil
  | cons entry rest ih =>
    obtain ⟨first, others, rfl, hfirst, hothers, -⟩ := on_resolveAll_cons cfg h
    exact .cons (fits_resolve cfg _ _ _ hfirst) (ih hothers)

/-- A reading of several slots that does not fail ends with every lock that it took. -/
theorem on_resolveAll {entries : List (Key × Option String × Bool)}
    (ho : o.Within (Elsewhere slot text)) (h : ((resolveAll cfg entries).on o).1 = .ok found) :
    ((resolveAll cfg entries).on o).2.Within (Elsewhere slot text) ∨
      (slot, text) ∈ Lookup.locks (entries.map (·.1)) found := by
  induction entries generalizing o found with
  | nil => exact .inl ho
  | cons entry rest ih =>
    obtain ⟨first, others, rfl, hfirst, hothers, hend⟩ := on_resolveAll_cons cfg h
    rcases on_resolve cfg entry.1 entry.2.1 entry.2.2 ho with hafter | ⟨first', hok, htook⟩
    · rw [hend]
      exact (ih hafter hothers).imp_right fun hmem => List.mem_cons_of_mem _ hmem
    · cases hfirst.symm.trans hok
      obtain ⟨rfl, rfl⟩ := htook
      exact .inr List.mem_cons_self

theorem on_getValues_ok {keys : List Key} {locks : List Bool}
    (h : ((getValues cfg keys locks).on o).1 = .ok found) :
    (((getValues cfg keys locks).on o).2 = o ∧ found = [] ∧ keys = [] ∧ locks = []) ∨
    ∃ (current : List (Option String)) (o' : Observed),
      current = (keys.map cfg.serverKey).map o.server.content ∧ locks.length = keys.length ∧
      (∀ P, o.Within P → o'.Within P) ∧
      ((resolveAll cfg ((keys.map cfg.serverKey).zip (current.zip locks))).on o').1 = .ok found ∧
      ((getValues cfg keys locks).on o).2 =
        ((resolveAll cfg ((keys.map cfg.serverKey).zip (current.zip locks))).on o').2 := by
  unfold getValues at h ⊢
  split at h
  · cases h
  rename_i hlength
  rw [if_neg hlength]
  split at h
  · rename_i hempty
    cases h
    rw [if_pos hempty]
    obtain rfl := List.isEmpty_iff.1 hempty
    exact .inl ⟨rfl, rfl, rfl, List.length_eq_zero_iff.1 (Classical.not_not.1 hlength).symm⟩
  rename_i hempty
  rw [if_neg hempty]
  obtain ⟨current, hcurrent, h, hend⟩ := on_bind_ok h
  refine .inr ⟨current, _, on_getMany_ok hcurrent, (Classical.not_not.1 hlength).symm,
    fun P hP => ?_, h, hend⟩
  exact (meets_getMany (keys.map cfg.serverKey)).within hP

theorem fits_getValues {keys : List Key} {locks : List Bool}
    (h : ((getValues cfg keys locks).on o).1 = .ok found) :
    List.Forall₂ (fun lock lookup => lookup.Fits lock) locks found := by
  rcases on_getValues_ok cfg h with
    ⟨-, rfl, -, rfl⟩ | ⟨current, o', hcurrent, hlocks, -, hok, -⟩
  · exact .nil
  · have hentries : ((keys.map cfg.serverKey).zip (current.zip locks)).map (·.2.2) = locks := by
      change List.map (Prod.snd ∘ Prod.snd) _ = locks
      rw [← List.map_map, List.map_snd_zip (by simp [hcurrent, hlocks]),
        List.map_snd_zip (by simp [hcurrent, hlocks])]
    rw [← hentries, List.forall₂_map_left_iff]
    exact fits_resolveAll cfg hok

theorem on_getValues {keys : List Key} {locks : List Bool}
    (ho : o.Within (Elsewhere slot text))
    (h : ((getValues cfg keys locks).on o).1 = .ok found) :
    ((getValues cfg keys locks).on o).2.Within (Elsewhere slot text) ∨
      (slot, text) ∈ Lookup.locks (keys.map cfg.serverKey) found := by
  rcases on_getValues_ok cfg h with
    ⟨hend, rfl, -⟩ | ⟨current, o', hcurrent, hlocks, hwithin, hok, hend⟩
  · rw [hend]
    exact .inl ho
  · rw [hend]
    refine (on_resolveAll cfg (hwithin _ ho) hok).imp_right fun hmem => ?_
    rwa [List.map_fst_zip (by simp [hcurrent, hlocks])] at hmem

end Readings

section Release
variable {targets : List Key}

/-- An attempt at a release that comes to something leaves the token in none of its slots. -/
theorem on_tryRelease (ho : o.OthersMeet (Elsewhere slot text)) (hmem : slot ∈ targets) {u : Unit}
    (h : ((tryRelease targets text).on o).1 = .ok (some u)) :
    ((tryRelease targets text).on o).2.Within (Elsewhere slot text) := by
  have hdeletes (current : List (Option String)) :
      ∀ w ∈ ((targets.zip current).filter fun slot => slot.2 = some text).map
        fun slot => Write.delete slot.1, w.Meets (Elsewhere slot text) := by
    intro w hw
    obtain ⟨held, -, rfl⟩ := List.mem_map.1 hw
    trivial
  unfold tryRelease at h ⊢
  obtain ⟨current, hcurrent, h, hend⟩ := on_bind_ok h
  obtain ⟨watched, -, hread, hend'⟩ := on_bind_ok hcurrent
  obtain ⟨done, hdone, h, hend''⟩ := on_bind_ok h
  obtain rfl : done = true := by
    cases done with
    | true => rfl
    | false => cases h
  rw [hend, hend'']
  have hwatch : ((watch targets).on o).2.OthersMeet (Elsewhere slot text) := ho.run _
  -- The token is read and removed, or it was gone before and nobody else writes it.
  by_cases hheld : ((watch targets).on o).2.server.content slot = some text
  · refine within_commit_of_delete (ho.run _) ?_ (hdeletes current) hdone
    refine List.mem_map.2 ⟨(slot, some text), List.mem_filter.2 ⟨?_, by simp⟩, rfl⟩
    rw [on_getMany_ok hread, ← List.map_prod_left_eq_zip]
    exact List.mem_map.2 ⟨slot, hmem, Prod.ext rfl hheld⟩
  · have hbefore := (meets_getMany targets).within (hwatch.within hheld)
    rw [← hend'] at hbefore
    exact (meets_commit (hdeletes current)).within hbefore

theorem on_release (ho : o.OthersMeet (Elsewhere slot text)) (hmem : slot ∈ targets) {u : Unit}
    (h : ((do connect; retrying "release_sentinel" (tryRelease targets text) :
      RemoteCall Unit).on o).1 = .ok u) :
    ((do connect; retrying "release_sentinel" (tryRelease targets text) :
      RemoteCall Unit).on o).2.Within (Elsewhere slot text) := by
  obtain ⟨v, -, hrest, hend⟩ := on_bind_ok h
  rw [hend]
  exact attempts_reach (fun o u ho h => on_tryRelease ho hmem h) _ _ (ho.run connect.run) hrest

/-- A release that does not fail leaves the token in none of its slots. -/
theorem releaseToken_released {keys : List Key} {key : Key} (hmem : key ∈ keys)
    (htext : text ≠ Token.noLock) (ho : o.OthersMeet (Elsewhere (cfg.serverKey key) text))
    (hdone : .releaseFailed keys ∉
      ((releaseToken cfg keys text).run Observed.answer o).2.remote.events) :
    ((releaseToken cfg keys text).run Observed.answer o).2.Within
      (Elsewhere (cfg.serverKey key) text) := by
  have hkeys : ¬ (text = Token.noLock ∨ keys.isEmpty = true) := by
    rintro (h | h)
    · exact htext h
    · rw [List.isEmpty_iff.1 h] at hmem
      cases hmem
  have htargets : cfg.serverKey key ∈ keys.map cfg.serverKey := List.mem_map_of_mem hmem
  have hreleased := on_release ho htargets (u := ())
  unfold releaseToken at hdone ⊢
  rw [if_neg hkeys] at hdone ⊢
  cases hrun : (do connect; retrying "release_sentinel" (tryRelease (keys.map cfg.serverKey) text) :
      RemoteCall Unit).on o with
  | mk result o' =>
  rw [hrun] at hreleased
  rw [run_bind_of_run hrun] at hdone ⊢
  cases result with
  | ok u => exact hreleased rfl
  | error fault => exact absurd (List.mem_append_right _ List.mem_cons_self) hdone

end Release

end RemoteStore
end CacheCoherence

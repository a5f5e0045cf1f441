import CacheCoherence.Proofs.Registration
import CacheCoherence.Proofs.Remote.ReadLocks

/-!
# Read locks in a store of either kind

A token that did not stand in a slot before a reading, and that no other client will write there,
stands there afterwards only if the reading took it. Both kinds of store tell of every lock that a
reading took on one slot, and a reading of several slots that does not fail tells of all of them.
Nothing puts the token back: neither removals nor releases write it, and a release that does not
fail takes it away.
-/
namespace CacheCoherence

namespace Memory
variable (cfg : MemorySettings) {m : Memory} {slot : Key} {text : String}

theorem fits_lookup (m : Memory) (key : Key) (lock : Bool) :
    (m.lookup cfg key lock).1.Fits lock := by
  cases h : m.content key with
  | some raw =>
    rw [lookup_of_content cfg m key lock h]
    exact Lookup.fits_observed lock _
  | none =>
    rw [lookup_of_empty cfg m key lock h]
    cases lock with
    | true => exact fun _ => ⟨rfl, rfl⟩
    | false => exact fun htoken => absurd rfl htoken

/-- A reading of one slot that took a lock on it ends with that lock. -/
theorem lookup_took (key : Key) (lock : Bool) (h : m.content slot ≠ some text) :
    (m.lookup cfg key lock).2.content slot ≠ some text ∨
      key = slot ∧ (m.lookup cfg key lock).1.token = text := by
  by_cases htaken : slot = key ∧ lock = true ∧ m.content key = none
  · obtain ⟨rfl, rfl, hempty⟩ := htaken
    rw [lookup_of_empty cfg m slot true hempty, if_pos rfl]
    by_cases htext : Token.issue LockKind.read.name m.issued = text
    · exact .inr ⟨rfl, htext⟩
    · left
      change Slots.content _ _ _ ≠ _
      rw [Slots.content_put, if_pos rfl]
      exact fun heq => htext (Option.some.inj heq)
  · -- The reading wrote nothing, or it wrote to another slot.
    left
    have hlive : (m.lookup cfg key lock).2.live? slot = m.live? slot :=
      (live?_lookup cfg m key lock slot).trans (if_neg htaken)
    rwa [content_of_live? hlive]

theorem fits_lookups (m : Memory) (entries : List (Key × Bool)) :
    List.Forall₂ (fun entry found => found.Fits entry.2) entries (lookups cfg entries m).1 := by
  induction entries generalizing m with
  | nil => exact .nil
  | cons entry rest ih => exact .cons (fits_lookup cfg m _ _) (ih _)

theorem lookups_took (entries : List (Key × Bool)) (h : m.content slot ≠ some text) :
    (lookups cfg entries m).2.content slot ≠ some text ∨
      (slot, text) ∈ Lookup.locks (entries.map (·.1)) (lookups cfg entries m).1 := by
  induction entries generalizing m with
  | nil => exact .inl h
  | cons entry rest ih =>
    rcases lookup_took cfg entry.1 entry.2 h with hafter | ⟨rfl, rfl⟩
    · exact (ih hafter).imp_right fun hmem => List.mem_cons_of_mem _ hmem
    · exact .inr List.mem_cons_self

theorem content_ne_of_emptied {m m' : Memory} {emptied : Prop} [Decidable emptied]
    (hlive : m'.live? slot = if emptied then none else m.live? slot)
    (h : emptied ∨ m.content slot ≠ some text) : m'.content slot ≠ some text := by
  by_cases hemptied : emptied
  · rw [if_pos hemptied] at hlive
    rw [(live?_eq_none_iff _ slot).1 hlive]
    exact nofun
  · rw [if_neg hemptied] at hlive
    rw [content_of_live? hlive]
    exact h.resolve_left hemptied

end Memory

/-- A call that puts nothing into any slot. -/
def Call.Removes : Call → Prop
  | .deleteValue _ tombstone _ => tombstone = false
  | .releaseToken _ _ => True
  | _ => False

namespace Store
variable {s : Store} {key : Key} {text : String}

/-- No other client will write a text into a slot. -/
def Spared (key : Key) (text : String) : Store → Prop
  | memory _ _ => True
  | remote cfg _ r =>
    r.exchange.OthersAre fun w => w.toWrite.Meets (Elsewhere (cfg.serverKey key) text)

/-- A text does not stand in a slot, and no other client will write it there. -/
structure Lacks (key : Key) (text : String) (s : Store) : Prop where
  absent : s.held key ≠ some text
  spared : s.Spared key text

section Remote
variable {cfg : RemoteSettings} {rules : Rules} {r : Remote}

theorem lacks_remote_iff : (remote cfg rules r).Lacks key text ↔
    r.exchange.Within (Elsewhere (cfg.serverKey key) text) :=
  ⟨fun h => ⟨Server.within_elsewhere.2 h.absent, h.spared⟩,
    fun h => ⟨Server.within_elsewhere.1 h.server, h.others⟩⟩

/-- A call to a store on a server is the program of the call among the other clients. -/
theorem perform_remote (cfg : RemoteSettings) (rules : Rules) (r : Remote) (c : Call) :
    ∃ o, (RemoteStore.perform cfg rules r.exchange.scanRounds c).run Observed.answer ⟨r, []⟩ =
        (((remote cfg rules r).perform c).1, o) ∧
      (∀ key text, ((remote cfg rules r).perform c).2.1.Lacks key text ↔
        o.Within (Elsewhere (cfg.serverKey key) text)) ∧
      (∀ key text, ((remote cfg rules r).perform c).2.1.Spared key text ↔
        o.OthersMeet (Elsewhere (cfg.serverKey key) text)) ∧
      ((remote cfg rules r).perform c).2.2.events = o.remote.events := by
  obtain ⟨hanswer, hremote⟩ := Observed.run_answer
    (RemoteStore.perform cfg rules r.exchange.scanRounds c) ⟨r, []⟩
  refine ⟨_, Prod.ext hanswer rfl, fun key text => ?_, fun key text => ?_, ?_⟩
  · refine lacks_remote_iff.trans ?_
    rw [Observed.Within, hremote]
    exact ⟨fun h => ⟨h.server, h.others⟩, fun h => ⟨h.server, h.others⟩⟩
  · rw [Observed.OthersMeet, hremote]
    exact Iff.rfl
  · rw [hremote]
    rfl

/-- What a call never writes itself does not come in by it. -/
theorem Lacks.perform_of_meets {c : Call} (h : (remote cfg rules r).Lacks key text)
    (hc : (RemoteStore.perform cfg rules r.exchange.scanRounds c).Meets
      (Elsewhere (cfg.serverKey key) text)) :
    ((remote cfg rules r).perform c).2.1.Lacks key text := by
  obtain ⟨o, hrun, hlacks, -⟩ := perform_remote cfg rules r c
  have hwithin := Observed.Within.run (o := ⟨r, []⟩) (lacks_remote_iff.1 h) hc
  rw [hrun] at hwithin
  exact (hlacks key text).2 hwithin

end Remote

theorem Spared.perform (h : s.Spared key text) (c : Call) : (s.perform c).2.1.Spared key text := by
  cases s with
  | memory cfg m => trivial
  | remote cfg rules r =>
    obtain ⟨o, hrun, -, hspared, -⟩ := perform_remote cfg rules r c
    have hothers := Observed.OthersMeet.run (o := ⟨r, []⟩) h
      (RemoteStore.perform cfg rules r.exchange.scanRounds c)
    rw [hrun] at hothers
    exact (hspared key text).2 hothers

section Readings
variable {keys : List Key} {locks : List Bool} {found : List Lookup}

theorem fits_getValue {k : Key} {lock : Bool} {found : Lookup}
    (h : (s.perform (.getValue k lock)).1 = .ok found) : found.Fits lock := by
  cases s with
  | memory cfg m =>
    cases h
    exact Memory.fits_lookup cfg m k lock
  | remote cfg rules r =>
    obtain ⟨o, hrun, -⟩ := perform_remote cfg rules r (.getValue k lock)
    exact RemoteStore.fits_getValue cfg k lock ((congrArg Prod.fst hrun).trans h)

theorem getValue_took {k : Key} {lock : Bool} (h : s.Lacks key text) :
    (s.perform (.getValue k lock)).2.1.Lacks key text ∨
      ∃ found, (s.perform (.getValue k lock)).1 = .ok found ∧ k = key ∧ found.token = text := by
  cases s with
  | memory cfg m =>
    rcases Memory.lookup_took cfg k lock h.absent with habsent | ⟨hkey, htoken⟩
    · exact .inl ⟨habsent, trivial⟩
    · exact .inr ⟨_, rfl, hkey, htoken⟩
  | remote cfg rules r =>
    obtain ⟨o, hrun, hlacks, -⟩ :=
      perform_remote cfg rules r (.getValue k lock)
    have htook := RemoteStore.on_getValue cfg k lock (o := ⟨r, []⟩) (lacks_remote_iff.1 h)
    have hon : (RemoteStore.getValue cfg k lock).on ⟨r, []⟩ = _ := hrun
    rw [hon] at htook
    refine htook.imp (hlacks key text).2 ?_
    rintro ⟨found, hok, hkey, htoken⟩
    exact ⟨found, hok, cfg.serverKey_injective hkey, htoken⟩

theorem fits_getValues (h : (s.perform (.getValues keys locks)).1 = .ok found) :
    List.Forall₂ (fun lock lookup => lookup.Fits lock) locks found := by
  cases s with
  | memory cfg m =>
    have hanswer : (m.getValues cfg keys locks).answer = .ok found := h
    unfold Memory.getValues at hanswer
    split at hanswer
    · rename_i hlength
      cases hanswer
      have hfits := Memory.fits_lookups cfg m (keys.zip locks)
      rwa [← List.forall₂_map_left_iff, List.map_snd_zip (Nat.le_of_eq hlength.symm)] at hfits
    · cases hanswer
  | remote cfg rules r =>
    obtain ⟨o, hrun, -⟩ :=
      perform_remote cfg rules r (.getValues keys locks)
    exact RemoteStore.fits_getValues cfg ((congrArg Prod.fst hrun).trans h)

/-- A reading of several slots tells of every lock that it took, unless it fails. -/
theorem getValues_took (h : s.Lacks key text)
    (hok : (s.perform (.getValues keys locks)).1 = .ok found) :
    (s.perform (.getValues keys locks)).2.1.Lacks key text ∨
      (key, text) ∈ Lookup.locks keys found := by
  cases s with
  | memory cfg m =>
    have hanswer : (m.getValues cfg keys locks).answer = .ok found := hok
    change (memory cfg (m.getValues cfg keys locks).memory).Lacks key text ∨ _
    unfold Memory.getValues at hanswer ⊢
    split at hanswer
    · rename_i hlength
      rw [if_pos hlength]
      cases hanswer
      refine (Memory.lookups_took cfg (keys.zip locks) h.absent).imp (fun h => ⟨h, trivial⟩)
        fun hmem => ?_
      rwa [List.map_fst_zip (Nat.le_of_eq hlength)] at hmem
    · cases hanswer
  | remote cfg rules r =>
    obtain ⟨o, hrun, hlacks, -⟩ :=
      perform_remote cfg rules r (.getValues keys locks)
    have hon : (RemoteStore.getValues cfg keys locks).on ⟨r, []⟩ = _ := hrun
    have htook := RemoteStore.on_getValues cfg (lacks_remote_iff.1 h)
      ((congrArg Prod.fst hon).trans hok)
    rw [hon] at htook
    refine htook.imp (hlacks key text).2 fun hmem => ?_
    rw [Lookup.locks, List.zip_map_left] at hmem
    obtain ⟨⟨k, token⟩, hmem, heq⟩ := List.mem_map.1 hmem
    cases cfg.serverKey_injective (congrArg Prod.fst heq)
    cases (congrArg Prod.snd heq : token = text)
    exact hmem

theorem getValues_nil (h : s.Lacks key text) :
    (s.perform (.getValues [] locks)).2.1.Lacks key text := by
  cases s with
  | memory cfg m => cases locks <;> exact h
  | remote cfg rules r =>
    refine lacks_remote_iff.2 ?_
    cases locks <;> exact ⟨(lacks_remote_iff.1 h).server, (lacks_remote_iff.1 h).others⟩

end Readings

section Rest
variable {keys : List Key}

theorem Lacks.perform (h : s.Lacks key text) {c : Call} (hc : c.Removes) :
    (s.perform c).2.1.Lacks key text := by
  cases s with
  | memory cfg m =>
    refine ⟨?_, trivial⟩
    change (m.perform cfg c).memory.content key ≠ some text
    cases c with
    | deleteValue keys tombstone force =>
      obtain rfl : tombstone = false := hc
      exact Memory.content_ne_of_emptied (Memory.live?_deleteValue cfg m keys false force key)
        (.inr h.absent)
    | releaseToken keys token =>
      exact Memory.content_ne_of_emptied (Memory.live?_releaseToken m keys token key)
        (.inr h.absent)
    | _ => exact hc.elim
  | remote cfg rules r =>
    refine h.perform_of_meets ?_
    cases c with
    | deleteValue keys tombstone force =>
      obtain rfl : tombstone = false := hc
      exact RemoteStore.meets_deleteValue cfg keys force (by simp)
    | releaseToken keys token => exact RemoteStore.meets_releaseToken cfg keys token
    | _ => exact hc.elim

/-- A release that does not fail leaves its token in none of its slots. -/
theorem releaseToken_released (hkey : key ∈ keys) (htext : text ≠ Token.noLock)
    (h : s.Spared key text)
    (hdone : .releaseFailed keys ∉ (s.perform (.releaseToken keys text)).2.2.events) :
    (s.perform (.releaseToken keys text)).2.1.Lacks key text := by
  cases s with
  | memory cfg m =>
    refine ⟨Memory.content_ne_of_emptied (Memory.live?_releaseToken m keys text key) ?_, trivial⟩
    by_cases hheld : m.content key = some text
    · exact .inl ⟨htext, hkey, hheld⟩
    · exact .inr hheld
  | remote cfg rules r =>
    obtain ⟨o, hrun, hlacks, -, hevents⟩ :=
      perform_remote cfg rules r (.releaseToken keys text)
    have hreleased := RemoteStore.releaseToken_released cfg (o := ⟨r, []⟩) hkey htext h
    rw [show Program.run Observed.answer (RemoteStore.releaseToken cfg keys text)
      ⟨r, []⟩ = _ from hrun] at hreleased
    exact (hlacks key text).2 (hreleased (hevents ▸ hdone))

end Rest

end Store
end CacheCoherence

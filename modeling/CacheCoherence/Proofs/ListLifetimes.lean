import CacheCoherence.Proofs.Registration

/-!
# How long dependency lists last

A dependency list has to be live for as long as anything that it lists, or an invalidation misses
what it was to reach. Adding dependents gives a list the later of two deadlines, the one that it had
and the one that is asked for, but only where both are deadlines: a list that was to stay for good
takes the deadline that is asked for, and a list that is to stay for good keeps the deadline that it
had. These are the only ways in which a registration shortens a life, apart from the parts of
milliseconds that a server does not count.
-/
namespace CacheCoherence

theorem Slot.outlasts_iff {s s' : Slot} :
    s.Outlasts s' ↔ ∀ t, s.deadline = some t → ∃ t', s'.deadline = some t' ∧ t' ≤ t := by
  unfold Outlasts isLive
  constructor
  · intro h t ht
    have hdead := h t
    rw [ht] at hdead
    cases ht' : s'.deadline with
    | none =>
      rw [ht'] at hdead
      simp at hdead
    | some t' =>
      rw [ht'] at hdead
      simp only [decide_eq_true_eq, Nat.lt_irrefl, imp_false, Nat.not_lt] at hdead
      exact ⟨t', rfl, hdead⟩
  · intro h now hlive
    cases ht : s.deadline with
    | none => rfl
    | some t =>
      obtain ⟨t', ht', hle⟩ := h t ht
      rw [ht', decide_eq_true_eq] at hlive
      exact decide_eq_true (Nat.lt_of_lt_of_le hlive hle)

theorem Duration.onServer_mono {d e : Nat} (h : d ≤ e) : onServer d ≤ onServer e := by
  unfold onServer ofMillis serverMillis perMilli
  split <;> split <;> omega

namespace Store

/-- On a server, every lifetime that is left is one that the server can count. -/
def Counts : Store → Prop
  | memory _ _ => True
  | remote _ _ r => r.exchange.server.Counts

theorem Alongside.counts {cfg : RemoteSettings} {rules : Rules} {mcfg : MemorySettings}
    {a b : Store} (h : Alongside cfg rules mcfg a b) : b.Counts := by
  cases h with
  | intro h hevents => exact h.counts

variable (s : Store) (key : Key) (ttl : Nat)

def slot? : Option Slot := s.live? (s.slotName key)

theorem live?_eq (name : Key) : s.live? name = s.slots.live? s.now name := by
  cases s <;> rfl

theorem kept_mono {d e : Nat} (h : d ≤ e) : s.kept d ≤ s.kept e := by
  cases s with
  | memory cfg m => exact h
  | remote cfg rules r => exact Duration.onServer_mono h

theorem kept_eq_zero_iff (d : Nat) : s.kept d = 0 ↔ d = 0 := by
  cases s with
  | memory cfg m => exact Iff.rfl
  | remote cfg rules r => exact Duration.onServer_eq_zero_iff d

/-- The time that a live slot has left a store keeps to the instant. -/
theorem Counts.kept_left {s : Store} (h : s.Counts) {key : Key} {t : Nat}
    (ht : (s.slot? key).bind (·.deadline) = some t) : s.kept (t - s.now) = t - s.now := by
  cases s with
  | memory cfg m => rfl
  | remote cfg rules r =>
    obtain ⟨slot, hslot, hdeadline⟩ := Option.bind_eq_some_iff.1 ht
    exact Duration.onServer_of_countable (h _ slot t hslot hdeadline)

theorem Counts.listTtl_eq {s : Store} (h : s.Counts) (key : Key) (ttl : Nat) :
    s.listTtl key ttl = ((s.slot? key).bind (·.deadline)).elim ttl fun t =>
      if s.now + ttl < t then t - s.now else ttl := by
  cases s with
  | memory cfg m => exact m.listTtl_eq_live? ttl key
  | remote cfg rules r => exact Server.Counts.listTtl_eq h _ ttl

theorem lt_deadline_of_slot? {t : Nat} (ht : (s.slot? key).bind (·.deadline) = some t) :
    s.now < t := by
  obtain ⟨slot, hslot, hdeadline⟩ := Option.bind_eq_some_iff.1 ht
  rw [slot?, live?_eq] at hslot
  have hlive := (Option.filter_eq_some_iff.1 hslot).2
  rwa [Slot.isLive, hdeadline, decide_eq_true_eq] at hlive

/-- The deadline of a list after dependents were added to it: the later one of the deadline that it
had and the one that is asked for. A list without a deadline takes the one that is asked for. -/
def extendedDeadline : Option Nat :=
  match (s.slot? key).bind (·.deadline) with
  | some t => some (max t (s.now + s.kept ttl))
  | none => if ttl = 0 then none else some (s.now + s.kept ttl)

/-- A list lasts for the longer one of what it has left and what is asked for. -/
theorem Counts.kept_listTtl {s : Store} (h : s.Counts) (key : Key) (ttl : Nat) :
    s.kept (s.listTtl key ttl) = ((s.slot? key).bind (·.deadline)).elim (s.kept ttl) fun t =>
      max (t - s.now) (s.kept ttl) := by
  rw [h.listTtl_eq]
  cases ht : (s.slot? key).bind (·.deadline) with
  | none => rfl
  | some t =>
    have hleft := h.kept_left ht
    simp only [Option.elim_some]
    by_cases hlater : s.now + ttl < t
    · have hkept := s.kept_mono (d := ttl) (e := t - s.now) (by omega)
      rw [if_pos hlater]
      omega
    · have hkept := s.kept_mono (d := t - s.now) (e := ttl) (by omega)
      rw [if_neg hlater]
      omega

theorem Counts.deadline_lasting {s : Store} (h : s.Counts) (key : Key) (ttl : Nat)
    (text : String) :
    (Slot.lasting s.now text (s.kept (s.listTtl key ttl))).deadline =
      s.extendedDeadline key ttl := by
  rw [h.kept_listTtl, extendedDeadline, Slot.lasting]
  cases ht : (s.slot? key).bind (·.deadline) with
  | none => simp only [Option.elim_none, s.kept_eq_zero_iff]
  | some t =>
    have hlive := s.lt_deadline_of_slot? key ht
    have hne : max (t - s.now) (s.kept ttl) ≠ 0 := by omega
    simp only [Option.elim_some, hne, if_false]
    congr 1
    omega

/-- Adding dependents to the list of a key shortens no life. -/
structure Prolongs : Prop where
  /-- A list that is to stay for good had no deadline. -/
  forever : ttl = 0 → ∀ old, s.slot? key = some old → old.deadline = none
  /-- A list that is given a deadline had one. -/
  expiring : ttl ≠ 0 → ∀ old, s.slot? key = some old → isToken old.text = false →
    old.deadline ≠ none
  /-- What is asked for is not shortened by the parts of milliseconds, or was granted before. -/
  counted : ttl ≤ s.kept ttl ∨
    ∃ old t, s.slot? key = some old ∧ old.deadline = some t ∧ s.now + ttl ≤ t

variable {s key ttl}

theorem extendedDeadline_of_some {t : Nat} (ht : (s.slot? key).bind (·.deadline) = some t) :
    s.extendedDeadline key ttl = some (max t (s.now + s.kept ttl)) := by
  rw [extendedDeadline, ht]

theorem extendedDeadline_of_none (ht : (s.slot? key).bind (·.deadline) = none) :
    s.extendedDeadline key ttl = if ttl = 0 then none else some (s.now + s.kept ttl) := by
  rw [extendedDeadline, ht]

theorem bind_deadline {old : Slot} (hold : s.slot? key = some old) :
    (s.slot? key).bind (·.deadline) = old.deadline := by
  rw [hold]
  rfl

theorem Prolongs.outlasts_wanted (h : s.Prolongs key ttl) {slot : Slot}
    (hdeadline : slot.deadline = s.extendedDeadline key ttl) (text : String) :
    slot.Outlasts (.lasting s.now text ttl) := by
  refine Slot.outlasts_iff.2 fun t ht => ?_
  rw [hdeadline] at ht
  have hwanted (hne : ttl ≠ 0) (hle : s.now + ttl ≤ t) :
      ∃ t', (Slot.lasting s.now text ttl).deadline = some t' ∧ t' ≤ t :=
    ⟨s.now + ttl, if_neg hne, hle⟩
  cases hd : (s.slot? key).bind (·.deadline) with
  | none =>
    rw [extendedDeadline_of_none hd] at ht
    have hne : ttl ≠ 0 := fun hzero => by simp [hzero] at ht
    rw [if_neg hne] at ht
    obtain rfl := Option.some.inj ht
    refine hwanted hne ?_
    rcases h.counted with hle | ⟨old, t', hold, ht', -⟩
    · omega
    · rw [bind_deadline hold, ht'] at hd
      cases hd
  | some d =>
    rw [extendedDeadline_of_some hd] at ht
    obtain rfl := Option.some.inj ht
    obtain ⟨old, hold, hd'⟩ := Option.bind_eq_some_iff.1 hd
    have hne : ttl ≠ 0 := fun hzero => by
      rw [h.forever hzero old hold] at hd'
      cases hd'
    refine hwanted hne ?_
    rcases h.counted with hle | ⟨old', t', hold', ht', hle⟩
    · omega
    · rw [bind_deadline hold', ht'] at hd
      cases hd
      omega

theorem Prolongs.outlasts_old (h : s.Prolongs key ttl) {slot old : Slot}
    (hdeadline : slot.deadline = s.extendedDeadline key ttl) (hold : s.slot? key = some old)
    (hlist : isToken old.text = false) : slot.Outlasts old := by
  refine Slot.outlasts_iff.2 fun t ht => ?_
  rw [hdeadline] at ht
  have hd := bind_deadline hold
  by_cases hzero : ttl = 0
  · rw [h.forever hzero old hold] at hd
    rw [extendedDeadline_of_none hd, if_pos hzero] at ht
    cases ht
  · obtain ⟨d, hd'⟩ := Option.ne_none_iff_exists'.1 (h.expiring hzero old hold hlist)
    rw [hd'] at hd
    rw [extendedDeadline_of_some hd] at ht
    obtain rfl := Option.some.inj ht
    exact ⟨d, hd', Nat.le_max_left _ _⟩

/-- There is no other way to shorten no life. -/
theorem prolongs_of_outlasts {slot : Slot}
    (hdeadline : slot.deadline = s.extendedDeadline key ttl)
    (hwanted : slot.Outlasts (.lasting s.now slot.text ttl))
    (hlists : ∀ old, s.slot? key = some old → isToken old.text = false → slot.Outlasts old) :
    s.Prolongs key ttl := by
  rw [Slot.outlasts_iff, hdeadline] at hwanted
  refine ⟨fun hzero old hold => ?_, fun hne old hold hlist hnone => ?_, ?_⟩
  · cases hd : old.deadline with
    | none => rfl
    | some d =>
      -- No deadline is as late as none.
      obtain ⟨t', ht', -⟩ := hwanted _ (extendedDeadline_of_some ((bind_deadline hold).trans hd))
      simp [Slot.lasting, hzero] at ht'
  · have hext := hdeadline.trans (extendedDeadline_of_none ((bind_deadline hold).trans hnone))
    rw [if_neg hne] at hext
    obtain ⟨t', ht', -⟩ := Slot.outlasts_iff.1 (hlists old hold hlist) _ hext
    rw [hnone] at ht'
    cases ht'
  · by_cases hzero : ttl = 0
    · exact .inl (by omega)
    · have hle {t : Nat} (ht : s.extendedDeadline key ttl = some t) : s.now + ttl ≤ t := by
        obtain ⟨t', ht', hle⟩ := hwanted t ht
        rw [Slot.lasting, if_neg hzero] at ht'
        cases ht'
        exact hle
      cases hd : (s.slot? key).bind (·.deadline) with
      | none =>
        have hlater := hle ((extendedDeadline_of_none hd).trans (if_neg hzero))
        exact .inl (by omega)
      | some d =>
        have hlater := hle (extendedDeadline_of_some hd)
        obtain ⟨old, hold, hd'⟩ := Option.bind_eq_some_iff.1 hd
        by_cases hbefore : s.now + ttl ≤ d
        · exact .inr ⟨old, d, hold, hd', hbefore⟩
        · exact .inl (by omega)

section Registration
variable (s : Store) (lists dependents : List Key) (ttl : Nat)
  (h : s.Undisturbed (.addDependency lists dependents ttl)) (hcounts : s.Counts)
  (hok : (s.perform (.addDependency lists dependents ttl)).1 = .ok ()) {key : Key}
  (hkey : key ∈ lists)
include h hcounts hok hkey

theorem slot?_registered : ∃ slot,
    (s.perform (.addDependency lists dependents ttl)).2.1.slot? key = some slot ∧
      slot.deadline = s.extendedDeadline key ttl := by
  obtain ⟨hanswer, hslots, hnow, hname⟩ := s.perform_addDependency lists dependents ttl h
  have hgranted : DependencyList.refusal s.held lists = none := by
    rw [hok, registration] at hanswer
    cases hrefusal : DependencyList.refusal s.held lists with
    | none => rfl
    | some fault =>
      rw [hrefusal] at hanswer
      cases hanswer
  rw [registration, hgranted] at hslots
  refine ⟨_, ?_, hcounts.deadline_lasting key ttl (DependencyList.enlarged (s.held key) dependents)⟩
  rw [slot?, live?_eq, hslots, hnow, hname]
  exact Slots.live?_of_get?_lasting (s.registered_slot lists dependents ttl hkey)

/-- **Lifetimes of lists.** On every store whose lifetimes can be counted, a list to which
dependents were added has the later one of the deadline that it had and the one that is asked for.
This shortens no life, neither the list's nor the one that is asked for, exactly if a list that is
to stay for good had no deadline, a list that is given a deadline had one, and no part of a
millisecond goes uncounted. -/
theorem list_outlasts_iff : ∃ slot,
    (s.perform (.addDependency lists dependents ttl)).2.1.slot? key = some slot ∧
      slot.deadline = s.extendedDeadline key ttl ∧
      ((slot.Outlasts (.lasting s.now slot.text ttl) ∧
          ∀ old, s.slot? key = some old → isToken old.text = false → slot.Outlasts old) ↔
        s.Prolongs key ttl) := by
  obtain ⟨slot, hslot, hdeadline⟩ := slot?_registered s lists dependents ttl h hcounts hok hkey
  refine ⟨slot, hslot, hdeadline, fun ⟨hwanted, hlists⟩ => ?_, fun hprolongs => ?_⟩
  · exact prolongs_of_outlasts hdeadline hwanted hlists
  · exact ⟨hprolongs.outlasts_wanted hdeadline _,
      fun old hold hlist => hprolongs.outlasts_old hdeadline hold hlist⟩

end Registration

section Example

/-- A list that is to stay for good, and one that is to stay for a second. -/
def listings : List StoreStep :=
  [.call (.addDependency ["d"] ["x"] 0),
    .call (.addDependency ["e"] ["x"] (Duration.ofSeconds 1))]

theorem alongside_listings : Alongside RemoteStore.rooted Rules.standard {}
    ((Store.memory {} {}).after listings)
    ((Store.remote RemoteStore.rooted Rules.standard {}).after listings) := by
  have hcommon : ∀ e ∈ listings, e.Common := by
    intro e he
    simp only [listings, List.mem_cons, List.not_mem_nil, or_false] at he
    rcases he with rfl | rfl
    · exact ⟨0, by decide, rfl⟩
    · exact ⟨1000, by decide, by decide⟩
  exact (Alongside.start _ _ _).after RemoteStore.sameSettings_rooted (by decide) hcommon

/-- On the server, a dependent that is added for a second ends the first list after that second. In
memory, a dependent that is added for good leaves the second list at its deadline. -/
theorem lists_cut_short_after_listings :
    let r := (Store.remote RemoteStore.rooted Rules.standard {}).after listings
    let m := (Store.memory {} {}).after listings
    (∃ slot, (r.perform (.addDependency ["d"] ["y"] (Duration.ofSeconds 1))).2.1.slot? "d" =
        some slot ∧ slot.deadline = some (Duration.ofSeconds 1) ∧
      ¬ r.Prolongs "d" (Duration.ofSeconds 1)) ∧
    (∃ slot, (m.perform (.addDependency ["e"] ["y"] 0)).2.1.slot? "e" = some slot ∧
      slot.deadline = some (Duration.ofSeconds 1) ∧ ¬ m.Prolongs "e" 0) := by
  dsimp only
  refine ⟨?_, ?_⟩
  · have hold : ((Store.remote RemoteStore.rooted Rules.standard {}).after listings).slot? "d" =
        some ⟨"[\"x\"]", none⟩ := by
      decide +kernel
    obtain ⟨slot, hslot, hdeadline, -⟩ := list_outlasts_iff
      ((Store.remote RemoteStore.rooted Rules.standard {}).after listings) ["d"] ["y"]
      (Duration.ofSeconds 1) (alongside_listings.undisturbed _) alongside_listings.counts
      (by decide +kernel) List.mem_cons_self
    refine ⟨slot, hslot, hdeadline.trans ?_, fun hprolongs => ?_⟩
    · decide +kernel
    · exact hprolongs.expiring (by decide) _ hold (by decide +kernel) rfl
  · have hold : ((Store.memory {} {}).after listings).slot? "e" =
        some ⟨"[\"x\"]", some (Duration.ofSeconds 1)⟩ := by
      decide +kernel
    obtain ⟨slot, hslot, hdeadline, -⟩ := list_outlasts_iff
      ((Store.memory {} {}).after listings) ["e"] ["y"] 0 trivial trivial (by decide +kernel)
      List.mem_cons_self
    refine ⟨slot, hslot, hdeadline.trans ?_, fun hprolongs => ?_⟩
    · decide +kernel
    · cases hprolongs.forever rfl _ hold

end Example

end Store
end CacheCoherence

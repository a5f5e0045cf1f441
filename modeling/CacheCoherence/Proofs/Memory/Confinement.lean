import CacheCoherence.Proofs.Memory.Frame
import CacheCoherence.Proofs.UnbrokenLock

/-!
# Where a token may stand

A lock stands under no other keys than those that it was issued for, since nothing ever copies a
token. So once it has been released on these keys no slot holds it, and none will: what is issued
later has a later number, and what is stored is no token. The store that is released from may have
gone through anything since the lock was taken.
-/
namespace CacheCoherence

theorem Content.Spells.ne_noLock {content : Content} {raw : String} (h : content.Spells raw) :
    raw ≠ Token.noLock := by
  rintro rfl
  have hempty : Content.ofText Token.noLock = .empty := by decide
  rw [h.ofText] at hempty
  subst hempty
  exact h

namespace Memory
variable {cfg : MemorySettings} {m : Memory} {steps : List Step} {token : Token} {keys : List Key}
  {k : Key}

def StoreJson (steps : List Step) : Prop := ∀ c, .call c ∈ steps → Call.StoresJson c

theorem StoreJson.append {first second : List Step} (h : StoreJson first) (h' : StoreJson second) :
    StoreJson (first ++ second) := by
  intro c hc
  rcases List.mem_append.1 hc with hc | hc
  · exact h c hc
  · exact h' c hc

theorem StoreJson.call {c : Call} (h : c.StoresJson) : StoreJson [.call c] := by
  intro c' hc
  cases List.mem_singleton.1 hc
  exact h

/-- What every step preserves a run preserves. -/
theorem StoreJson.preserves {P : Memory → Prop} (hj : StoreJson steps)
    (hcall : ∀ c m, c.StoresJson → P m → P (m.perform cfg c).memory)
    (helapse : ∀ duration m, P m → P (m.advance duration)) (hm : P m) : P (m.after cfg steps) := by
  induction steps generalizing m with
  | nil => exact hm
  | cons e rest ih =>
    refine ih (fun c hc => hj c (List.mem_cons_of_mem _ hc)) ?_
    cases e with
    | call c => exact hcall c m (hj c List.mem_cons_self) hm
    | elapse duration => exact helapse duration m hm

theorem content_of_advance {raw : String} {duration : Nat}
    (h : (m.advance duration).content k = some raw) : m.content k = some raw := by
  rw [content_eq_live?, Option.map_eq_some_iff] at h
  obtain ⟨slot, hlive, rfl⟩ := h
  rw [content_eq_live?, live?_of_live?_advance hlive]
  rfl

variable (m) in
/-- Every slot holds some text, and every lock in a slot has been issued. -/
structure Orderly : Prop where
  spelled : ∀ k, m.content k ≠ some Token.noLock
  numbered : ∀ k kind n, m.content k = some (Token.issue (LockKind.name kind) n) → n < m.issued

theorem orderly_empty : Orderly {} where
  spelled := fun _ h => by cases h
  numbered := fun _ _ _ h => by cases h

theorem lock_kept_or_issued (hr : cfg.rules = Rules.standard) {c : Call} (hj : c.StoresJson)
    {kind : LockKind} {n : Nat}
    (h : (m.perform cfg c).memory.content k = some (Token.issue kind.name n)) :
    m.content k = some (Token.issue kind.name n) ∨
      m.Issues cfg (Token.issue kind.name n) k c := by
  rw [content_eq_live?, Option.map_eq_some_iff] at h
  obtain ⟨slot, hlive, htext⟩ := h
  rcases kept_or_issued hr hj ⟨kind, n, htext⟩ hlive with hkept | ⟨hissues, -⟩
  · left
    rw [content_eq_live?, hkept, ← htext]
    rfl
  · exact .inr (htext ▸ hissues)

theorem Orderly.perform (hr : cfg.rules = Rules.standard) {c : Call} (hj : c.StoresJson)
    (h : m.Orderly) : (m.perform cfg c).memory.Orderly where
  spelled := by
    intro k hempty
    rw [content_eq_live?, Option.map_eq_some_iff] at hempty
    obtain ⟨slot, hlive, htext⟩ := hempty
    rcases live?_perform_cases hr hlive with hkept | ⟨content, -, hspells⟩ |
      ⟨lockKey, keys, token, ttl, rfl, -⟩ | ⟨lists, dependents, ttl, -, -, hmerge⟩
    · refine h.spelled k ?_
      rw [content_eq_live?, hkept, ← htext]
      rfl
    · exact hspells.ne_noLock htext
    · have hspells : Content.value.Spells slot.text := hj
      exact hspells.ne_noLock htext
    · obtain ⟨members, hmembers⟩ := DependencyList.exists_encode_of_merge hmerge
      have hread : Json.parse? slot.text = some (Json.texts members.keys) :=
        hmembers ▸ Json.parse?_compact (Json.wellFormed_texts members.keys)
      have hspells : Content.value.Spells slot.text := Option.isSome_of_eq_some hread
      exact hspells.ne_noLock htext
  numbered := by
    intro k kind n hlock
    rcases lock_kept_or_issued hr hj hlock with hkept | hissues
    · exact Nat.lt_of_lt_of_le (h.numbered k kind n hkept) (perform_rest cfg m hr c).2
    · obtain ⟨kind', n', hsame, -, hlater⟩ := hissues.numbered hr
      rwa [(Token.issue_lock_injective hsame).2]

theorem Orderly.advance {duration : Nat} (h : m.Orderly) : (m.advance duration).Orderly where
  spelled := fun k hk => h.spelled k (content_of_advance hk)
  numbered := fun k kind n hk => h.numbered k kind n (content_of_advance hk)

theorem Orderly.after (hr : cfg.rules = Rules.standard) (hj : StoreJson steps) (h : m.Orderly) :
    (m.after cfg steps).Orderly :=
  hj.preserves (fun _ _ hc hm => hm.perform hr hc) (fun _ _ hm => hm.advance) h

variable (m token keys) in
/-- A token stands under no other than some keys, and will not be issued again. -/
structure Confined : Prop where
  orderly : m.Orderly
  spent : token = Token.noLock ∨
    ∃ kind n, token = Token.issue (LockKind.name kind) n ∧ n < m.issued
  within : ∀ k, m.content k = some token → k ∈ keys

theorem Confined.perform (hr : cfg.rules = Rules.standard) {c : Call} (hj : c.StoresJson)
    (h : m.Confined token keys) : (m.perform cfg c).memory.Confined token keys where
  orderly := h.orderly.perform hr hj
  spent := by
    refine h.spent.imp_right ?_
    rintro ⟨kind, n, htoken, hn⟩
    exact ⟨kind, n, htoken, Nat.lt_of_lt_of_le hn (perform_rest cfg m hr c).2⟩
  within := by
    intro k hk
    rcases h.spent with rfl | ⟨kind, n, rfl, hn⟩
    · exact absurd hk ((h.orderly.perform hr hj).spelled k)
    · rcases lock_kept_or_issued hr hj hk with hkept | hissues
      · exact h.within k hkept
      · obtain ⟨kind', n', hsame, hlater, -⟩ := hissues.numbered hr
        rw [(Token.issue_lock_injective hsame).2] at hn
        omega

theorem Confined.after (hr : cfg.rules = Rules.standard) (hj : StoreJson steps)
    (h : m.Confined token keys) : (m.after cfg steps).Confined token keys :=
  hj.preserves (P := fun m => m.Confined token keys) (fun _ _ hc hm => hm.perform hr hc)
    (fun _ _ hm =>
      ⟨hm.orderly.advance, hm.spent, fun k hk => hm.within k (content_of_advance hk)⟩) h

theorem Orderly.confined_noLock (h : m.Orderly) : m.Confined Token.noLock keys :=
  ⟨h, .inl rfl, fun k hk => absurd hk (h.spelled k)⟩

/-- Taking a lock leaves it under its keys, if it is granted, and the answer stands nowhere else. -/
theorem Orderly.confined (hr : cfg.rules = Rules.standard) (h : m.Orderly) {kind : LockKind}
    (hanswer : (m.writeToken cfg kind keys).answer = .ok token) :
    (m.writeToken cfg kind keys).memory.Confined token keys := by
  have horderly : (m.writeToken cfg kind keys).memory.Orderly :=
    h.perform (c := .writeToken kind keys) hr trivial
  by_cases hgrants : m.Grants kind keys
  · have htoken : token = Token.issue kind.name m.issued := by
      rw [writeToken_granted cfg m hr hgrants] at hanswer
      exact (Except.ok.inj hanswer).symm
    have hissued : m.issued < (m.writeToken cfg kind keys).memory.issued := by
      rw [writeToken_granted cfg m hr hgrants]
      exact Nat.lt_succ_self _
    refine ⟨horderly, .inr ⟨kind, m.issued, htoken, hissued⟩, fun k hk => ?_⟩
    subst htoken
    rcases lock_kept_or_issued (c := .writeToken kind keys) hr trivial hk with hkept | hissues
    · exact absurd (h.numbered k kind m.issued hkept) (Nat.lt_irrefl _)
    · exact hissues.2.1
  · have htoken : token = Token.noLock := by
      rw [(writeToken_refused cfg m hr hgrants).1] at hanswer
      exact (Except.ok.inj hanswer).symm
    exact htoken ▸ horderly.confined_noLock

section Release

variable (cfg m token) in
/-- No slot holds the token, whatever happens from now on. -/
def OutOfUse : Prop :=
  ∀ later, StoreJson later → ∀ k, (m.after cfg later).content k ≠ some token

theorem OutOfUse.after (h : m.OutOfUse cfg token) (hj : StoreJson steps) :
    (m.after cfg steps).OutOfUse cfg token := by
  intro later hlater k
  rw [← after_append]
  exact h _ (hj.append hlater) k

/-- Releasing a token that stands under none of the keys changes nothing. -/
theorem releaseToken_of_absent (h : ∀ k, m.content k ≠ some token) :
    (m.releaseToken keys token).memory = m := by
  unfold releaseToken
  split
  · rfl
  · have hslots : keys.foldl (release m.now token) m.slots = m.slots := by
      refine Table.ext_get? fun k => ?_
      rw [get?_foldl_release, if_neg fun hk => h k hk.2]
    simp only [hslots]

theorem Confined.release (hr : cfg.rules = Rules.standard) (h : m.Confined token keys) :
    (m.releaseToken keys token).memory.Confined token [] := by
  have hafter : (m.releaseToken keys token).memory.Confined token keys :=
    h.perform (c := .releaseToken keys token) hr trivial
  refine ⟨hafter.orderly, hafter.spent, fun k hk => ?_⟩
  have hkey := hafter.within k hk
  rcases h.spent with rfl | ⟨kind, n, htoken, -⟩
  · exact absurd hk (hafter.orderly.spelled k)
  · have hne : token ≠ Token.noLock := htoken ▸ Token.issue_ne_noLock _ _
    have hlive := live?_releaseToken m keys token k
    by_cases hheld : m.content k = some token
    · rw [if_pos ⟨hne, hkey, hheld⟩] at hlive
      rw [(live?_eq_none_iff _ k).1 hlive] at hk
      cases hk
    · rw [if_neg fun hc => hheld hc.2.2] at hlive
      exact absurd ((content_of_live? hlive).symm.trans hk) hheld

theorem Confined.outOfUse (hr : cfg.rules = Rules.standard) (h : m.Confined token []) :
    m.OutOfUse cfg token := fun _ hj k hk => by
  cases (h.after hr hj).within k hk

variable (cfg token m) in
/-- A release of a token from a store takes it out of use and touches nothing else, and to repeat it
changes nothing at any later time. -/
structure Withdrawn (release : Memory → Memory) : Prop where
  outOfUse : (release m).OutOfUse cfg token
  others : ∀ k, m.content k ≠ some token → (release m).live? k = m.live? k
  again : ∀ later, StoreJson later →
    release ((release m).after cfg later) = (release m).after cfg later

theorem Confined.withdrawn (hr : cfg.rules = Rules.standard) (h : m.Confined token keys) :
    m.Withdrawn cfg token fun m => (m.releaseToken keys token).memory where
  outOfUse := (h.release hr).outOfUse hr
  others := by
    intro k hk
    rw [live?_releaseToken, if_neg fun hc => hk hc.2.2]
  again := fun _ hj => releaseToken_of_absent ((h.release hr).outOfUse hr _ hj)

end Release

end Memory
end CacheCoherence

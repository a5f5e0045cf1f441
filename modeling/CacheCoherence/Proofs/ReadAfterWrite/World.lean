import CacheCoherence.Proofs.Cache.Lock
import CacheCoherence.Proofs.Cache.Read
import CacheCoherence.Proofs.Cache.Save
import CacheCoherence.Proofs.Catalogue

/-!
# Writers and readers of one item

An authoritative store holds the current version of an item, and a cache in memory holds what
clients put there. A writer takes an update lock, commits a new version, saves it under its lock and
gives the lock back. A reader reads one key of the cache; on a miss with a read lock it loads what
is current, fills the cache under that lock and gives it back. Any number of clients take these
moves in any order, one whole move at a time; time goes by as long as nothing in the cache expires.
What is read and how it is filled is left open, so that the key may be the item's own or that of a
collection with the item in it.
-/
namespace CacheCoherence

/-- What the clients work on: the versions of the item in the order of their commits, and how its
readers go about. -/
structure Scenario (α β : Type) where
  policy : Policy
  version : Nat → α
  /-- The key that readers read. -/
  key : Key
  /-- What the text found there may be served as. -/
  entry : Entry β
  /-- What a reader may load while a version is current. -/
  loads : Nat → β → Prop
  /-- What a writer may ask its save to invalidate. -/
  saves : Bool → List Key → Prop
  fill : β → Token → Operation SaveOutcome
  drop : β → Token → Operation Unit

/-- How far a client has come. -/
inductive Client (β : Type) where
  | idle
  /-- A writer holds its lock. -/
  | claimed (token : Token)
  /-- A writer has committed a version. -/
  | committed (token : Token) (version : Nat)
  /-- A writer has returned from its save. -/
  | saved (token : Token)
  /-- A reader holds the lock of a miss. -/
  | missed (token : Token)
  /-- A reader has loaded what was current at some version. -/
  | loaded (token : Token) (found : β) (version : Nat)
  /-- A reader has tried to fill the cache. -/
  | filled (token : Token) (found : β)

def Client.token? {β : Type} : Client β → Option Token
  | .idle => none
  | .claimed t | .committed t _ | .saved t | .missed t | .loaded t _ _ | .filled t _ => some t

structure World (β : Type) where
  memory : Memory := {}
  /-- The newest committed version. -/
  current : Nat := 0
  /-- The newest version whose writer has returned from its save. -/
  returned : Nat := 0
  clients : Nat → Client β := fun _ => .idle

inductive Move where
  | claim (client : Nat)
  | commit (client : Nat)
  | save (client : Nat)
  | release (client : Nat)
  | read (client : Nat)
  | load (client : Nat)
  | fill (client : Nat)
  | drop (client : Nat)
  | elapse
deriving DecidableEq, Repr

def World.put {β : Type} (w : World β) (m : Memory) (i : Nat) (c : Client β) : World β :=
  { w with memory := m, clients := fun j => if j = i then c else w.clients j }

section Put
variable {β : Type} (w : World β) (m : Memory) (i : Nat) (c : Client β)

@[simp] theorem World.put_memory : (w.put m i c).memory = m := rfl

@[simp] theorem World.put_current : (w.put m i c).current = w.current := rfl

@[simp] theorem World.put_returned : (w.put m i c).returned = w.returned := rfl

theorem World.put_clients (j : Nat) :
    (w.put m i c).clients j = if j = i then c else w.clients j := rfl

end Put

variable {α β : Type} [Cacheable α]

def Scenario.read (sc : Scenario α β) : Operation (Found β) :=
  if skips sc.policy α then pure (.miss Token.noLock) else fetch sc.entry sc.key true

/-- Every version of an item can be cached, may be served and is told from every other. -/
structure Servable (policy : Policy) (version : Nat → α) : Prop where
  cached : Cacheable.ttl α policy.ttls ≠ skipTtl
  document : ∀ n, ∃ document, Cacheable.toJson? (version n) = some document
  valid : ∀ n, Cacheable.isValid (version n) = true
  distinct : ∀ n n', version n = version n' → n = n'

theorem nodeVersion_servable : Servable Catalogue.lasting Catalogue.nodeVersion where
  cached := by decide
  document := fun n => ⟨_, rfl⟩
  valid := fun n => rfl
  distinct := fun n n' => Catalogue.nodeVersion_injective

variable (cfg : MemorySettings) (sc : Scenario α β)

/-- One client makes one move, or time goes by. A writer may hold any version of the item in its
hands when it takes or gives back its lock. -/
inductive Moves : World β → Move → World β → Prop
  | claim {w : World β} {i : Nat} {t : Token} {m : Memory} (n : Nat) (hidle : w.clients i = .idle)
      (hop : (takeItemLock sc.policy .update (sc.version n)).on cfg w.memory = (.ok t, m)) :
      Moves w (.claim i) (w.put m i (if t = Token.noLock then .idle else .claimed t))
  | commit {w : World β} {i : Nat} {t : Token} (hclaimed : w.clients i = .claimed t) :
      Moves w (.commit i)
        { w.put w.memory i (.committed t (w.current + 1)) with current := w.current + 1 }
  | save {w : World β} {i n : Nat} {t : Token} {outcome : SaveOutcome} {m : Memory}
      (clearCollections : Bool) (extra : List Key) (hcommitted : w.clients i = .committed t n)
      (hsaves : sc.saves clearCollections extra)
      (hop : (saveItem sc.policy (sc.version n) t clearCollections extra).on cfg w.memory =
        (outcome, m)) :
      Moves w (.save i) { w.put m i (.saved t) with returned := max w.returned n }
  | release {w : World β} {i : Nat} {t : Token} (n : Nat) (hsaved : w.clients i = .saved t) :
      Moves w (.release i)
        (w.put ((releaseItemLock sc.policy .update (sc.version n) t).on cfg w.memory).2 i .idle)
  | read {w : World β} {i : Nat} {found : Found β} {m : Memory} (hidle : w.clients i = .idle)
      (hop : sc.read.on cfg w.memory = (found, m)) :
      Moves w (.read i)
        (w.put m i (if found.token = Token.noLock then .idle else .missed found.token))
  | load {w : World β} {i : Nat} {t : Token} (found : β) (hmissed : w.clients i = .missed t)
      (hloads : sc.loads w.current found) :
      Moves w (.load i) (w.put w.memory i (.loaded t found w.current))
  | fill {w : World β} {i n : Nat} {t : Token} {found : β} {outcome : SaveOutcome} {m : Memory}
      (hloaded : w.clients i = .loaded t found n)
      (hop : (sc.fill found t).on cfg w.memory = (outcome, m)) :
      Moves w (.fill i) (w.put m i (.filled t found))
  | drop {w : World β} {i : Nat} {t : Token} {found : β} (hfilled : w.clients i = .filled t found) :
      Moves w (.drop i) (w.put ((sc.drop found t).on cfg w.memory).2 i .idle)
  | elapse {w : World β} (duration : Nat)
      (hlasts : ∀ k, (w.memory.advance duration).live? k = w.memory.live? k) :
      Moves w .elapse { w with memory := w.memory.advance duration }

/-- Moves made one after another, each of which the world it is made in permits. -/
inductive Runs (Permits : World β → Move → Prop) : World β → World β → Prop
  | refl {w : World β} : Runs Permits w w
  | tail {w w' w'' : World β} {move : Move} (hrun : Runs Permits w w') (hpermits : Permits w' move)
      (hmove : Moves cfg sc w' move w'') : Runs Permits w w''

variable {cfg sc} in
theorem Runs.mono {Permits Permits' : World β → Move → Prop} {w w' : World β}
    (himp : ∀ w move, Permits w move → Permits' w move) (h : Runs cfg sc Permits w w') :
    Runs cfg sc Permits' w w' := by
  induction h with
  | refl => exact .refl
  | tail hrun hpermits hmove ih => exact .tail ih (himp _ _ hpermits) hmove

variable {cfg sc} in
theorem Runs.trans {Permits : World β → Move → Prop} {w w' w'' : World β}
    (h : Runs cfg sc Permits w w') (h' : Runs cfg sc Permits w' w'') :
    Runs cfg sc Permits w w'' := by
  induction h' with
  | refl => exact h
  | tail hrun hpermits hmove ih => exact .tail ih hpermits hmove

/-- A reader of the key would be served a value now. -/
def Hits (w : World β) (found : β) : Prop := (sc.read.on cfg w.memory).1.item = some found

/-- A value was loaded no earlier than the newest version whose writer has returned. -/
def Fresh (w : World β) (found : β) : Prop :=
  ∃ n, w.returned ≤ n ∧ n ≤ w.current ∧ sc.loads n found

section Tokens
variable {cfg sc}

/-- The tokens in the hands of the clients were all issued, each to one client. -/
structure World.Tokens (w : World β) : Prop where
  issued : ∀ i t, (w.clients i).token? = some t →
    ∃ kind n, t = Token.issue (LockKind.name kind) n ∧ n < w.memory.issued
  apart : ∀ i j t, (w.clients i).token? = some t → (w.clients j).token? = some t → i = j

variable {w : World β} {m : Memory} {i : Nat} {c : Client β}

theorem World.Tokens.put_held (h : w.Tokens) (hm : w.memory.issued ≤ m.issued)
    (hc : ∀ t, c.token? = some t → (w.clients i).token? = some t) : (w.put m i c).Tokens := by
  have hheld (j : Nat) (t : Token) (ht : ((w.put m i c).clients j).token? = some t) :
      (w.clients j).token? = some t := by
    rw [World.put_clients] at ht
    split at ht
    · rename_i hj
      rw [hj]
      exact hc t ht
    · exact ht
  constructor
  · intro j t ht
    obtain ⟨kind, n, htoken, hn⟩ := h.issued j t (hheld j t ht)
    exact ⟨kind, n, htoken, Nat.lt_of_lt_of_le hn hm⟩
  · intro j j' t ht ht'
    exact h.apart j j' t (hheld j t ht) (hheld j' t ht')

theorem World.Tokens.put_new (h : w.Tokens) {kind : LockKind} {n : Nat}
    (hc : c.token? = some (Token.issue kind.name n)) (hlo : w.memory.issued ≤ n)
    (hhi : n < m.issued) : (w.put m i c).Tokens := by
  have hold (j : Nat) (t : Token) (hj : j ≠ i)
      (ht : ((w.put m i c).clients j).token? = some t) : (w.clients j).token? = some t := by
    rwa [World.put_clients, if_neg hj] at ht
  have hnew (t : Token) (ht : ((w.put m i c).clients i).token? = some t) :
      t = Token.issue kind.name n := by
    rw [World.put_clients, if_pos rfl, hc] at ht
    exact (Option.some.inj ht).symm
  -- An old token has a smaller number than the new one.
  have hne (j : Nat) (t : Token) (ht : (w.clients j).token? = some t) :
      t ≠ Token.issue kind.name n := by
    intro he
    obtain ⟨kind', n', htoken, hn'⟩ := h.issued j t ht
    have := (Token.issue_lock_injective (htoken.symm.trans he)).2
    omega
  constructor
  · intro j t ht
    by_cases hj : j = i
    · subst hj
      exact ⟨kind, n, hnew t ht, hhi⟩
    · obtain ⟨kind', n', htoken, hn'⟩ := h.issued j t (hold j t hj ht)
      have hlater : n' < m.issued := by omega
      exact ⟨kind', n', htoken, hlater⟩
  · intro j j' t ht ht'
    by_cases hj : j = i <;> by_cases hj' : j' = i
    · rw [hj, hj']
    · subst hj
      exact absurd (hnew t ht) (hne j' t (hold j' t hj' ht'))
    · subst hj'
      exact absurd (hnew t ht') (hne j t (hold j t hj ht))
    · exact h.apart j j' t (hold j t hj ht) (hold j' t hj' ht')

theorem read_token {found : Found β} {m m' : Memory}
    (h : sc.read.on cfg m = (found, m')) (hne : found.token ≠ Token.noLock) :
    m.content sc.key = none ∧ found.token = Token.issue LockKind.read.name m.issued ∧
      m' = (m.lookup cfg sc.key true).2 := by
  unfold Scenario.read at h
  split at h
  · obtain ⟨rfl, -⟩ := Prod.mk.inj h
    exact absurd rfl hne
  · cases hc : m.content sc.key with
    | none =>
      rw [fetch_on_empty cfg sc.entry m sc.key hc] at h
      obtain ⟨rfl, rfl⟩ := Prod.mk.inj h
      exact ⟨rfl, rfl, rfl⟩
    | some raw =>
      cases ht : isToken raw with
      | true =>
        rw [fetch_on_token cfg sc.entry m hc ht] at h
        obtain ⟨rfl, -⟩ := Prod.mk.inj h
        exact absurd rfl hne
      | false =>
        rw [fetch_on_value cfg sc.entry m hc ht] at h
        split at h <;> obtain ⟨rfl, -⟩ := Prod.mk.inj h <;> exact absurd rfl hne

theorem Moves.tokens (hr : cfg.rules = Rules.standard) {move : Move} {w' : World β}
    (hmove : Moves cfg sc w move w') (h : w.Tokens) : w'.Tokens := by
  have hgrows {γ : Type} {op : Operation γ} {r : γ} {m : Memory}
      (hop : op.on cfg w.memory = (r, m)) : w.memory.issued ≤ m.issued := by
    have hrest := (Operation.on_rest cfg hr op w.memory).2
    rwa [hop] at hrest
  cases hmove with
  | @claim i t m n hidle hop =>
    split
    · exact h.put_held (hgrows hop) (by rintro t' ⟨⟩)
    · rename_i hne
      have hkind : LockKind.update ≠ .delete := by decide
      rcases takeItemLock_cases cfg sc.policy w.memory hr hkind (sc.version n) with
        ⟨hg, htake⟩ | ⟨-, htake⟩
      · rw [htake] at hop
        obtain ⟨ht, rfl⟩ := Prod.mk.inj hop
        obtain rfl := Except.ok.inj ht
        refine h.put_new rfl (Nat.le_refl _) ?_
        rw [Memory.writeToken_granted cfg w.memory hr hg]
        exact Nat.lt_succ_self _
      · rw [htake] at hop
        exact absurd (Except.ok.inj (Prod.mk.inj hop).1).symm hne
  | commit hclaimed =>
    have hput := h.put_held (c := .committed _ (w.current + 1)) (Nat.le_refl w.memory.issued)
      fun t ht => (by rw [hclaimed]; exact ht)
    exact ⟨hput.issued, hput.apart⟩
  | save clearCollections extra hcommitted hsaves hop =>
    have hput := h.put_held (c := .saved _) (hgrows hop) fun t ht => (by rw [hcommitted]; exact ht)
    exact ⟨hput.issued, hput.apart⟩
  | release n hsaved => exact h.put_held (Operation.on_rest cfg hr _ _).2 (by rintro t' ⟨⟩)
  | @read i found m hidle hop =>
    split
    · exact h.put_held (hgrows hop) (by rintro t' ⟨⟩)
    · rename_i hne
      obtain ⟨hempty, htoken, rfl⟩ := read_token hop hne
      refine h.put_new (congrArg some htoken) (Nat.le_refl _) ?_
      rw [Memory.issued_lookup, if_pos ⟨rfl, hempty⟩]
      exact Nat.lt_succ_self _
  | load found hmissed hloads =>
    exact h.put_held (Nat.le_refl _) fun t ht => (by rw [hmissed]; exact ht)
  | fill hloaded hop => exact h.put_held (hgrows hop) fun t ht => (by rw [hloaded]; exact ht)
  | drop hfilled => exact h.put_held (Operation.on_rest cfg hr _ _).2 (by rintro t' ⟨⟩)
  | elapse duration hlasts => exact ⟨h.issued, h.apart⟩

end Tokens

section Idle
variable {cfg sc} {w w' : World β}

/-- All clients but finitely many have not begun. -/
def World.Bounded (w : World β) : Prop := ∃ bound, ∀ i, bound ≤ i → w.clients i = .idle

theorem World.Bounded.put (h : w.Bounded) (m : Memory) (i : Nat) (c : Client β) :
    (w.put m i c).Bounded := by
  obtain ⟨bound, hidle⟩ := h
  refine ⟨max bound (i + 1), fun j hj => ?_⟩
  have hne : j ≠ i := by omega
  rw [World.put_clients, if_neg hne]
  exact hidle j (by omega)

theorem Moves.bounded {move : Move} (hmove : Moves cfg sc w move w') (h : w.Bounded) :
    w'.Bounded := by
  cases hmove with
  | @commit i t hclaimed => exact h.put w.memory i (.committed t (w.current + 1))
  | @save i n t outcome m clearCollections extra hcommitted hsaves hop =>
    exact h.put m i (.saved t)
  | elapse duration hlasts => exact h
  | _ => exact h.put _ _ _

theorem Runs.bounded {Permits : World β → Move → Prop} (hrun : Runs cfg sc Permits {} w) :
    w.Bounded := by
  induction hrun with
  | refl => exact ⟨0, fun _ _ => rfl⟩
  | tail hrun hpermits hmove ih => exact hmove.bounded ih

end Idle

end CacheCoherence

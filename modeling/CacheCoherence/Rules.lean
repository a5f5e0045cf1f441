import CacheCoherence.Token
/-!
# Who may overwrite what

A lock may be placed in a slot according to what the slot holds:

| slot \ new lock         | read | create | update             | delete |
|-------------------------|------|--------|--------------------|--------|
| empty                   | yes  | yes    | yes                | yes    |
| cached value            | no   | no     | yes                | yes    |
| read lock               | no   | yes    | yes                | yes    |
| create or update lock   | no   | no     | no, marks conflict | yes    |
| delete lock             | no   | no     | no                 | yes    |
| conflict marker         | no   | no     | no                 | yes    |
| tombstone               | no   | yes    | yes                | yes    |

A value may be stored only while the slot still holds the lock it is stored under. `Rules` holds
the three decisions that a store can be given other answers for; `Rules.standard` is the table.
-/
namespace CacheCoherence

/-- What becomes of an attempt to store a value. -/
structure Decision where
  /-- The value is written under every key of the save. -/
  set : Bool := false
  /-- The slot of the lock is emptied. -/
  clear : Bool := false
  /-- Another operation took the slot over. -/
  conflict : Bool := false
  /-- The slot holds another value, which the caller should read again. -/
  refresh : Bool := false
deriving DecidableEq, Repr

/-- The table, without the column of delete locks, which may be placed anywhere. -/
def LockKind.mayReplace : LockKind → Content → Bool
  | .delete, _ => true
  | _, .empty => true
  | .update, .value => true
  | .create, .lock .read | .update, .lock .read => true
  | .create, .tombstone | .update, .tombstone => true
  | _, _ => false

/-- Whether a token is a lock that may be placed whatever the slot holds. -/
def alwaysAdmitted (new : Token) : Bool := Content.ofText new = .lock .delete

/-- Whether a token may be placed in a slot with this text. Only locks ever may. -/
def admits (current : Option String) (new : Token) : Bool :=
  match Content.ofText new with
  | .lock kind => kind.mayReplace (Content.ofSlot current)
  | _ => false

/-- Whether a token that was not admitted met a rival writer, in which case a conflict marker
takes the slot so that neither of the two stores its value. -/
def collides (current : Option String) (new : Token) : Bool :=
  match Content.ofText new, Content.ofSlot current with
  | .lock .update, .lock .create | .lock .update, .lock .update => true
  | _, _ => false

/-- What becomes of storing a value under a token. The token's own lock gives way to the value,
but a delete lock only to emptiness; the loser of a conflict takes the marker away; a slot that
already holds the proposed value is no conflict. -/
def decideStore (current : Option String) (proposed : String) (token : Token) : Decision :=
  if token = Token.noLock then {}
  else if current = some token then
    if Content.ofText token = .lock .delete then { clear := true } else { set := true }
  else match Content.ofSlot current with
    | .conflict => { clear := true, conflict := true }
    | .value =>
      if current = some proposed then {} else { conflict := true, refresh := true }
    | .empty | .lock _ | .tombstone | .foreign => { conflict := true }

/-- The decisions of a store about tokens. -/
structure Rules where
  /-- The token is placed whatever the slot holds. -/
  always : Token → Bool
  /-- The token may be placed in a slot with this text. -/
  admits : Option String → Token → Bool
  /-- What becomes of storing a value: the slot's text, the value and the token. -/
  decide : Option String → String → Token → Decision

def Rules.standard : Rules := ⟨alwaysAdmitted, CacheCoherence.admits, decideStore⟩

/-- Rules that answer as others do except where a fixed answer is given. -/
def Rules.fixed (base : Rules) (always admits : Option Bool) (decision : Option Decision) : Rules :=
  ⟨fun new => always.getD (base.always new),
    fun current new => admits.getD (base.admits current new),
    fun current proposed token => decision.getD (base.decide current proposed token)⟩

end CacheCoherence

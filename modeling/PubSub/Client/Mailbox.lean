import PubSub.Error
import PubSub.Wire.Message

/-!
# Mailboxes

A `Mailbox` is a bounded queue of messages. A push into a full one makes room by dropping the oldest
messages, and reports how many. Pushes go to the back or to the front; the oldest message is at the
other end.
-/

namespace PubSub

/-- A bounded queue of messages. -/
structure Mailbox where
  name : String
  /-- The messages from front to back. -/
  messages : List Message := []
  /-- The number of messages that a push leaves at most. -/
  limit : Nat
  limit_pos : 0 < limit
deriving DecidableEq

namespace Mailbox

/-- An empty mailbox. A limit of 0 counts as 1. -/
def create (name : String) (limit : Nat) : Mailbox :=
  { name, limit := max limit 1, limit_pos := by omega }

/-- The same mailbox with another limit. It drops nothing before the next push. -/
def withLimit (b : Mailbox) (limit : Nat) : Mailbox :=
  { b with limit := max limit 1, limit_pos := by omega }

/-- The messages that a push has to drop. -/
def excess (b : Mailbox) : Nat := b.messages.length + 1 - b.limit

/-- The report of a push that drops messages. -/
def overflow? (b : Mailbox) : Option Error :=
  if b.excess = 0 then none else some (.mailboxOverflow b.name b.excess)

/-- Pushes a message to the back; the oldest ones are at the front. -/
def pushBack (b : Mailbox) (m : Message) : Option Error × Mailbox :=
  (b.overflow?, { b with messages := b.messages.drop b.excess ++ [m] })

/-- Pushes a message to the front; the oldest ones are at the back. -/
def pushFront (b : Mailbox) (m : Message) : Option Error × Mailbox :=
  (b.overflow?, { b with messages := m :: b.messages.take (b.messages.length - b.excess) })

/-- The mailbox without its messages. -/
def clear (b : Mailbox) : Mailbox := { b with messages := [] }

/-- Takes all messages. -/
def drain (b : Mailbox) : List Message × Mailbox := (b.messages, b.clear)

/-- Takes the messages that pass a test; both these and the others keep their order. -/
def extract (b : Mailbox) (p : Message → Bool) : List Message × Mailbox :=
  (b.messages.filter p, { b with messages := b.messages.filter fun m => !p m })

/-- A push leaves no more messages than the limit. -/
theorem length_pushBack (b : Mailbox) (m : Message) :
    (b.pushBack m).2.messages.length = min b.messages.length (b.limit - 1) + 1 := by
  have := b.limit_pos
  simp [pushBack, excess]
  omega

/-- A push leaves no more messages than the limit. -/
theorem length_pushFront (b : Mailbox) (m : Message) :
    (b.pushFront m).2.messages.length = min b.messages.length (b.limit - 1) + 1 := by
  have := b.limit_pos
  simp [pushFront, excess]
  omega

end Mailbox

end PubSub

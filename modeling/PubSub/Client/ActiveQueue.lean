import PubSub.Wire.Message

/-!
# Active queues

An active queue hands its mail to a handler, one message after the other. Mail may be pushed while
the handler's worker rests; `ActiveQueue.run` lets the worker go on until there is nothing left to
do. A worker ends when it comes to a stop mark, and when its handler fails on a message; from then
on pushes are refused.
-/

namespace PubSub

/-- What waits in an active queue. -/
inductive ActiveQueue.Item where
  | mail (m : Message)
  | stop
deriving DecidableEq

/-- A queue with a handler. -/
structure ActiveQueue (η : Type) where
  handler : η
  /-- What waits, newest first. -/
  recent : List ActiveQueue.Item := []
  /-- Whether the worker has ended. -/
  finished : Bool := false
deriving DecidableEq

namespace ActiveQueue

variable {η : Type}

/-- Pushes a message and says whether it was accepted. -/
def push (q : ActiveQueue η) (m : Message) : Bool × ActiveQueue η :=
  if q.finished then (false, q) else (true, { q with recent := .mail m :: q.recent })

/-- Asks the worker to end once it has handled the mail pushed so far. -/
def stop (q : ActiveQueue η) : ActiveQueue η :=
  if q.finished then q else { q with recent := .stop :: q.recent }

/-- The messages that a handler takes from a list of items, and whether the worker ends. -/
def handle (fails : Message → Bool) : List Item → List Message × Bool
  | [] => ([], false)
  | .stop :: _ => ([], true)
  | .mail m :: rest =>
    if fails m then ([], true)
    else
      let (handled, ended) := handle fails rest
      (m :: handled, ended)

/-- Lets the worker go on until there is nothing left to do; gives the messages it has handled. -/
def run (fails : η → Message → Bool) (q : ActiveQueue η) : List Message × ActiveQueue η :=
  let (handled, ended) := handle (fails q.handler) q.recent.reverse
  (handled, { q with recent := [], finished := q.finished || ended })

end ActiveQueue

end PubSub

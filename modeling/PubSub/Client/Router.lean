import PubSub.Client.ActiveQueue
import PubSub.Pattern
import PubSub.Table
import Std.Data.HashMap
import Std.Data.HashSet

/-!
# Routes to active queues

A `Router` decides which active queues claim a message. A queue claims the messages of the keys that
are routed to it, and a queue with a pattern those whose keys match. A key is matched with the
patterns once; what is found becomes a route, and the key is marked as checked. Only so many keys
are marked before the marks start over.
-/

namespace PubSub

/-- Active queues and the routes to them. -/
structure Router (η : Type) where
  queues : Table (ActiveQueue η) := ∅
  /-- The queues of each routed key. -/
  routes : Std.HashMap String NameSet := ∅
  /-- The queues with a pattern: the pattern and the name. -/
  patterns : List (String × String) := []
  /-- The keys whose matching patterns are among the routes. -/
  checked : Std.HashSet String := ∅
  /-- Queues that were removed and have mail to hand over. -/
  retired : List (ActiveQueue η) := []

namespace Router

variable {η : Type}

/-- At most this many keys are marked as checked. -/
def greatestChecked : Nat := 10000

/-- Whether there is a queue of this name. -/
def hasQueue (r : Router η) (name : String) : Bool := r.queues.contains name

/-- Whether the key is routed to a queue. -/
def hasRoute (r : Router η) (key : String) : Bool :=
  match r.routes[key]? with
  | some names => !names.entries.isEmpty
  | none => false

/-! ## Queues and routes -/

/-- Adds a queue under a new name. -/
def addQueue? (r : Router η) (name : String) (handler : η) : Option (Router η) :=
  if r.hasQueue name then none
  else some { r with queues := r.queues.insert name { handler } }

/-- Adds a queue that claims the keys that match a pattern. -/
def addPatternQueue? (r : Router η) (name pattern : String) (handler : η) : Option (Router η) :=
  (r.addQueue? name handler).map fun r =>
    { r with patterns := r.patterns ++ [(pattern, name)], checked := ∅ }

/-- The routes with one more. -/
def linked (routes : Std.HashMap String NameSet) (key name : String) :
    Std.HashMap String NameSet :=
  routes.insert key ((routes[key]?.getD ∅).add name)

/-- Routes a key to a queue that exists. -/
def addRoute? (r : Router η) (key name : String) : Option (Router η) :=
  if r.hasQueue name then some { r with routes := linked r.routes key name } else none

/-- Takes a route away. -/
def removeRoute? (r : Router η) (key name : String) : Option (Router η) :=
  (r.routes[key]?).bind fun names =>
    if names.contains name then
      let left := names.erase name
      some { r with
        routes := if left.entries.isEmpty then r.routes.erase key else r.routes.insert key left }
    else none

/-- Removes a queue with its routes and its patterns. It still handles the mail that it has. -/
def removeQueue? (r : Router η) (name : String) : Option (Router η) :=
  (r.queues.get? name).map fun q =>
    { r with
      queues := r.queues.erase name
      routes := (r.routes.map fun _ names => names.erase name).filter fun _ names =>
        !names.entries.isEmpty
      patterns := r.patterns.filter fun p => p.2 != name
      retired := r.retired ++ [q.stop] }

/-- Removes everything. The queues still handle the mail that they have. -/
def stopAll (r : Router η) : Router η :=
  { retired := r.retired ++ r.queues.values.map ActiveQueue.stop }

/-! ## Routing -/

/-- Turns the patterns that match a key into routes, unless this has been done. -/
def matchPatterns (r : Router η) (key : String) : Router η :=
  if r.patterns.isEmpty || r.checked.contains key then r
  else
    let checked := if greatestChecked ≤ r.checked.size then ∅ else r.checked
    let found := r.patterns.filter fun p => matchesPattern p.1 key
    { r with
      routes := found.foldl (fun routes p => linked routes key p.2) r.routes
      checked := checked.insert key }

/-- Pushes a message to one queue and says whether it was accepted. -/
def pushTo (r : Router η) (name : String) (m : Message) : Bool × Router η :=
  match r.queues.get? name with
  | none => (false, r)
  | some q =>
    let (accepted, q) := q.push m
    (accepted, { r with queues := r.queues.insert name q })

/-- Pushes a message to the queues of these names and says whether any accepted it. -/
def pushToAll (r : Router η) (m : Message) : List String → Bool × Router η
  | [] => (false, r)
  | name :: names =>
    let (first, r) := r.pushTo name m
    let (others, r) := r.pushToAll m names
    (first || others, r)

/-- Hands a message to the queues of its key and says whether any claimed it. -/
def claim (r : Router η) (m : Message) : Bool × Router η :=
  let r := r.matchPatterns m.key
  match r.routes[m.key]? with
  | none => (false, r)
  | some names => r.pushToAll m names.names

/-- Hands out messages in order and gives those that no queue has claimed. -/
def claimAll (r : Router η) : List Message → List Message × Router η
  | [] => ([], r)
  | m :: ms =>
    let (claimed, r) := r.claim m
    let (unclaimed, r) := r.claimAll ms
    (if claimed then unclaimed else m :: unclaimed, r)

/-- Routes messages; without any queue they all come back. -/
def route (r : Router η) (ms : List Message) : List Message × Router η :=
  if r.queues.entries.isEmpty then (ms, r) else r.claimAll ms

/-! ## Workers -/

/-- Lets all workers go on until there is nothing left to do; gives the messages that each handler
has handled. Retired queues are then gone. -/
def run (fails : η → Message → Bool) (r : Router η) : List (η × List Message) × Router η :=
  let handled (q : ActiveQueue η) := (q.handler, (q.run fails).1)
  (r.retired.map handled ++ r.queues.values.map handled,
    { r with queues := r.queues.map fun _ q => (q.run fails).2, retired := [] })

end Router

end PubSub

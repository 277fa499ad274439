import PubSub.Proofs.Broker.Run
import PubSub.Proofs.Server.Traffic

/-!
# The packets for the sessions

For each packet of a session there is one round of packets (`Server.Round`): the reply to the
session itself, and then, if the packet has brought a notification, the mail that the broker holds
for asynchronous clients. No other packet is ever sent, and the mail that the broker hands out is
what the rounds hold, client by client (`Traffic.rounds_account`).

`Server.Accounted` says this of a piece of a run. It holds of the handling of one event
(`Server.accounted_handle`), and pieces that follow one another add up (`Accounted.append`).
-/

namespace PubSub.Server

/-- A packet of a session that is handled, with the time and the sessions at that time. -/
structure Intake where
  now : Float
  sessions : Table Session
  client : String
  generation : Nat
  packet : Packet

/-- Mail that is sent to a client that has not asked for it. -/
structure Push where
  client : String
  generation : Nat
  mail : List Message

/-- The message at the head of each packet: its value is the server's time. -/
def timeMessage (now : Float) : Message where
  id := -1
  type := .null
  dataType := .double
  source := ""
  sourceAux := ""
  community := ""
  key := ""
  time := -1.0
  value := now
  value2 := -1.0
  payload := #[]

/-- The answer to a measuring message: when that was sent as the value, and the server's time. -/
def probeAnswer (now : Float) (probe : Message) : Message where
  id := -1
  type := .timing
  dataType := .double
  source := ""
  sourceAux := ""
  community := ""
  key := probe.key
  time := now
  value := probe.time
  value2 := -1.0
  payload := #[]

/-- The packet with pushed mail and the generation that it is for. -/
def Push.packet (now : Float) (p : Push) : Nat × Packet :=
  (p.generation, ⟨timeMessage now :: p.mail⟩)

/-- What is sent when a packet is handled. -/
structure Round extends Intake where
  /-- What the broker says to requests. -/
  answers : List Message
  /-- The mail that the client gets with the reply. -/
  mail : List Message
  pushes : List Push

/-- What the broker replies. -/
def Round.reply (r : Round) : List Message := r.answers ++ r.mail

/-- The packets of a round with the generations that they are for: the reply, which has the answers
to the measuring messages in front of the broker's, and the pushed mail. All start with the server's
time. -/
def Round.packets (r : Round) : List (Nat × Packet) :=
  let probes := r.packet.messages.filter (·.type = .timing)
  (r.generation, ⟨timeMessage r.now :: probes.map (probeAnswer r.now) ++ r.reply⟩) ::
    r.pushes.map (Push.packet r.now)

/-- The time, the client and the messages that the broker gets: those that do not measure. -/
def Round.given (r : Round) : Float × String × List Message :=
  (r.now, r.client, r.packet.messages.filter (·.type ≠ .timing))

/-- The mail for a client in the packets of a round. -/
def Round.mailFor (r : Round) (client : String) : List Message :=
  (if r.client = client then r.mail else []) ++
    r.pushes.flatMap fun p => if p.client = client then p.mail else []

/-- The operation of the broker that a call is. -/
def Call.op : Call → Broker.Op
  | connect client => .connect client
  | receive client ms => .receive client ms
  | collect client => .fetch client
  | disconnect client => .disconnect client

/-- The operations of the broker in an effect. -/
def Effect.ops (now : Float) (e : Effect) : List (Float × Broker.Op) :=
  e.calls.map fun c => (now, c.op)

/-- The messages of clients that operations give to the broker. -/
def received (ops : List (Float × Broker.Op)) : List (Float × String × List Message) :=
  ops.filterMap fun
    | (now, .receive client ms) => some (now, client, ms)
    | _ => none

/-- Whether a generation is that of a client's session. -/
def Holds (sessions : Table Session) (client : String) (generation : Nat) : Prop :=
  ∃ session, sessions.get? client = some session ∧ session.generation = generation

/-- What a piece of a run sends and has the broker do: the rounds of the packets that it handles. -/
structure Accounted (intakes : List Intake) (sent : List (Nat × Packet))
    (ops : List (Float × Broker.Op)) (b b' : Broker) (rounds : List Round) : Prop where
  /-- There is one round for each packet of a session. -/
  intakes : rounds.map Round.toIntake = intakes
  /-- It is of that session. -/
  sessions : ∀ r ∈ rounds, Holds r.sessions r.client r.generation
  /-- Nothing else is sent. -/
  sent : sent = rounds.flatMap Round.packets
  broker : b' = Broker.performAll ops b
  given : received ops = rounds.map Round.given
  /-- The replies are those of the broker. -/
  replies : rounds.map Round.reply = Broker.repliesAll ops b
  /-- Mail is only pushed to asynchronous sessions, and because of a notification. -/
  pushes : ∀ r ∈ rounds, ∀ p ∈ r.pushes, p.mail ≠ [] ∧
    (∃ m ∈ r.packet.messages, m.type = .notify) ∧
    ∃ session, r.sessions.get? p.client = some session ∧ session.generation = p.generation ∧
      session.asynchronous = true
  /-- All mail that the broker hands out for a client is in the packets, in order. -/
  delivered : ∀ client, rounds.flatMap (·.mailFor client) = Broker.deliveredAll client ops b

theorem Accounted.nil (b : Broker) : Accounted [] [] [] b b [] where
  intakes := rfl
  sessions := List.forall_mem_nil _
  sent := rfl
  broker := rfl
  given := rfl
  replies := rfl
  pushes := List.forall_mem_nil _
  delivered _ := rfl

theorem Accounted.append {intakes more : List Intake} {sent sent' : List (Nat × Packet)}
    {ops ops' : List (Float × Broker.Op)} {b b' b'' : Broker} {rounds rounds' : List Round}
    (h : Accounted intakes sent ops b b' rounds)
    (h' : Accounted more sent' ops' b' b'' rounds') :
    Accounted (intakes ++ more) (sent ++ sent') (ops ++ ops') b b'' (rounds ++ rounds') where
  intakes := by rw [List.map_append, h.intakes, h'.intakes]
  sessions := List.forall_mem_append.2 ⟨h.sessions, h'.sessions⟩
  sent := by rw [List.flatMap_append, ← h.sent, ← h'.sent]
  broker := by rw [Broker.performAll_append, ← h.broker, ← h'.broker]
  given := by rw [received, List.filterMap_append, List.map_append, ← h.given, ← h'.given]; rfl
  replies := by rw [List.map_append, Broker.repliesAll_append, h.replies, h'.replies, ← h.broker]
  pushes := List.forall_mem_append.2 ⟨h.pushes, h'.pushes⟩
  delivered client := by
    rw [List.flatMap_append, Broker.deliveredAll_append, h.delivered, h'.delivered, ← h.broker]

/-- An operation that is no packet of a session and hands out no mail. -/
theorem Accounted.op {now : Float} {op : Broker.Op} {b : Broker} (hreply : op.reply? now b = none)
    (hkeeps : ∀ client, op.delivered now client b = []) :
    Accounted [] [] [(now, op)] b (op.perform now b) [] where
  intakes := rfl
  sessions := List.forall_mem_nil _
  sent := rfl
  broker := rfl
  given := by
    cases op with
    | receive => cases hreply
    | fetch | connect | disconnect | keepHouse | keepHouseIfDue => rfl
  replies := by rw [Broker.repliesAll, hreply]; rfl
  pushes := List.forall_mem_nil _
  delivered client := by rw [Broker.deliveredAll, hkeeps]; rfl

/-! ## Pushed mail -/

theorem Effect.append_assoc (e f g : Effect) : e ++ f ++ g = e ++ (f ++ g) := by
  show Effect.mk (e.calls ++ f.calls ++ g.calls) (e.sent ++ f.sent ++ g.sent)
    (e.ended ++ f.ended ++ g.ended) = _
  rw [List.append_assoc, List.append_assoc, List.append_assoc]
  rfl

theorem Effect.append_empty (e : Effect) : e ++ ({} : Effect) = e := by
  show Effect.mk (e.calls ++ []) (e.sent ++ []) (e.ended ++ []) = e
  rw [List.append_nil, List.append_nil, List.append_nil]

/-- What is pushed to sessions. -/
def pushesOf (b : Broker) (es : List (String × Session)) : List Push :=
  es.filterMap fun e =>
    if (b.heldFor e.1).isEmpty then none else some ⟨e.1, e.2.generation, b.heldFor e.1⟩

/-- The mail of sessions is collected. -/
def fetches (now : Float) (es : List (String × Session)) : List (Float × Broker.Op) :=
  es.map fun e => (now, .fetch e.1)

theorem pushesOf_cons (b : Broker) (e : String × Session) (es : List (String × Session)) :
    pushesOf b (e :: es) =
      (if (b.heldFor e.1).isEmpty then [] else [⟨e.1, e.2.generation, b.heldFor e.1⟩]) ++
        pushesOf b es := by
  rw [pushesOf, List.filterMap_cons]
  cases (b.heldFor e.1).isEmpty <;> rfl

theorem pushesOf_collect {b : Broker} {client : String} {es : List (String × Session)}
    (h : client ∉ es.map (·.1)) : pushesOf (b.collect client).2 es = pushesOf b es := by
  refine List.filterMap_congr fun e he => ?_
  have hne : e.1 ≠ client := fun heq => h (heq ▸ List.mem_map_of_mem he)
  rw [Broker.heldFor_collect, if_neg hne]

theorem pushMail_foldl (clock : Clock) {es : List (String × Session)}
    (h : (es.map (·.1)).Nodup) (effect : Effect) (s : Server) :
    es.foldl (fun (effect, s) (client, session) =>
      let (mail, broker) := s.broker.collect client
      let packet : Packet := ⟨Message.null "" clock.now :: mail⟩
      let pushed : Effect :=
        { calls := [.collect client]
          sent := if mail.isEmpty then [] else [(session.generation, packet)] }
      (effect ++ pushed, { s with broker })) (effect, s) =
    (effect ++ {
        calls := es.map fun e => .collect e.1
        sent := (pushesOf s.broker es).map (Push.packet clock.now) },
      { s with broker := Broker.performAll (fetches clock.now es) s.broker }) := by
  induction es generalizing effect s with
  | nil => exact Prod.ext (Effect.append_empty effect).symm rfl
  | cons e es ih =>
    obtain ⟨hhead, htail⟩ := List.nodup_cons.1 h
    rw [List.foldl_cons, ih htail, Effect.append_assoc]
    refine Prod.ext (congrArg (effect ++ ·) ?_) rfl
    rw [pushesOf_collect hhead, pushesOf_cons]
    by_cases hmail : (s.broker.heldFor e.1).isEmpty = true
    · simp only [Broker.collect, hmail, if_true]
      rfl
    · simp only [Broker.collect, hmail, Bool.false_eq_true, if_false]
      rfl

theorem pushMail_eq (s : Server) (clock : Clock) :
    s.pushMail clock =
      let es := s.sessions.entries.filter (·.2.asynchronous)
      ({ calls := es.map fun e => .collect e.1
         sent := (pushesOf s.broker es).map (Push.packet clock.now) },
      { s with broker := Broker.performAll (fetches clock.now es) s.broker }) := by
  have hnodup : ((s.sessions.entries.filter (·.2.asynchronous)).map (·.1)).Nodup :=
    s.sessions.nodup_names.sublist (List.filter_sublist.map _)
  exact pushMail_foldl clock hnodup {} s

/-- The packet that the handling of an event is about, if it is of a session. -/
def intake? (s : Server) (clock : Clock) : Event → Option Intake
  | .packet client generation p =>
    if s.holder? client = some generation then
      some ⟨clock.now, s.sessions, client, generation, p⟩
    else none
  | .connected _ | .closed _ _ | .silent _ _ => none

/-- The sessions that mail is pushed to when a packet brings these messages. -/
def pushed (sessions : Table Session) (ms : List Message) : List (String × Session) :=
  if ms.any (·.type = .notify) then sessions.entries.filter (·.2.asynchronous) else []

theorem process_eq (s : Server) (clock : Clock) (client : String) (generation : Nat) (p : Packet) :
    let probes := p.messages.filter (·.type = .timing)
    let ms := p.messages.filter (·.type ≠ .timing)
    let received := s.broker.receive clock.now client ms
    let sessions := s.sessions.modify client fun session =>
      { session with lastActivity := clock.elapsed }
    let es := pushed sessions ms
    s.process clock client generation p =
      ({ calls := .receive client ms :: es.map fun e => .collect e.1
         sent := (generation,
            ⟨timeMessage clock.now :: probes.map (probeAnswer clock.now) ++ received.1⟩) ::
          (pushesOf received.2 es).map (Push.packet clock.now) },
        { s with sessions, broker := Broker.performAll (fetches clock.now es) received.2 }) := by
  intro probes ms received sessions es
  simp only [process, es, pushed]
  split
  · rw [pushMail_eq]
    rfl
  · rfl

/-- A step of the traffic, or the broker's housekeeping between two of them. -/
inductive Turn where
  | act (a : Action)
  | keepHouse

namespace Traffic

/-- A turn, if it is possible. -/
def turn? (t : Traffic) : Turn → Option (Effect × Traffic)
  | .act a => t.act? a
  | .keepHouse =>
    let broker := t.server.broker.keepHouseIfDue t.clock.now
    some ({}, { t with server := { t.server with broker } })

/-- Turns one after the other, if all are possible, and what they lead to. -/
def play? (t : Traffic) : List Turn → Option (Effect × Traffic)
  | [] => some ({}, t)
  | a :: turns => do
    let (effect, t) ← t.turn? a
    let (more, t) ← t.play? turns
    return (effect ++ more, t)

/-- What is told of turns, each in the state that the turns before it lead to. -/
def along {α : Type} (told : Turn → Traffic → List α) : List Turn → Traffic → List α
  | [], _ => []
  | a :: turns, t => told a t ++ ((t.turn? a).map fun r => along told turns r.2).getD []

end Traffic

/-- The packet of a session that a turn handles. -/
def Turn.intakes : Turn → Traffic → List Intake
  | .act .dispatch, t => (t.server.events.head?.bind (t.server.intake? t.clock)).toList
  | _, _ => []

/-- What a turn has the broker do. -/
def Turn.ops : Turn → Traffic → List (Float × Broker.Op)
  | .act a, t => ((t.act? a).map fun r => r.1.ops t.clock.now).getD []
  | .keepHouse, t => [(t.clock.now, .keepHouseIfDue)]

namespace Traffic

variable {t u : Traffic} {a : Turn} {turns : List Turn} {effect : Effect} {client : String}
  {g : Nat}

/-- A run is made of its turns. -/
theorem play?_cons (h : t.play? (a :: turns) = some (effect, u)) :
    ∃ first v more, t.turn? a = some (first, v) ∧ v.play? turns = some (more, u) ∧
      effect = first ++ more := by
  rw [play?] at h
  obtain ⟨⟨first, v⟩, hturn, h⟩ := Option.bind_eq_some_iff.1 h
  obtain ⟨⟨more, w⟩, hrest, h⟩ := Option.bind_eq_some_iff.1 h
  cases h
  exact ⟨first, v, more, hturn, hrest, rfl⟩

theorem along_cons {α : Type} (told : Turn → Traffic → List α)
    (h : t.turn? a = some (effect, u)) :
    along told (a :: turns) t = told a t ++ along told turns u := by
  rw [along, h, Option.map_some, Option.getD_some]

theorem Sound.turn (hs : t.Sound) (h : t.turn? a = some (effect, u)) : u.Sound := by
  cases a with
  | keepHouse =>
    cases h
    exact ⟨hs.sessions, hs.events, hs.noticed, hs.numbered⟩
  | act a => exact hs.step (step_of_act? h)

theorem Enrolled.turn (hg : t.Enrolled client g) (h : t.turn? a = some (effect, u)) :
    u.Enrolled client g := by
  cases a with
  | keepHouse =>
    cases h
    exact hg
  | act a => exact (step_of_act? h).enrolled hg

end Traffic

end PubSub.Server

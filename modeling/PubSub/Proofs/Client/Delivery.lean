import PubSub.Proofs.Client.Run

/-!
# What becomes of the mail of a packet

A packet's mail is handed out message by message. The answers to requests go to the inbox. Every
other message has its turn with the router: it goes to all live queues to which its key is routed by
then, or else to the inbox, behind the answers. So the inbox is left with the last messages of those
that it had, the answers and the messages that no queue has claimed
(`Client.receive_delivers`).

The inbox is bounded, and the answers of a packet come before its other mail. They all wait for the
application if there is room for them and for that mail (`Client.peek_receive`); otherwise the first
of them may be gone (`Client.answer_gives_way`).
-/

namespace PubSub

section
variable {α : Type} (xs ys : List α) (n : Nat)

theorem rtake_append : (xs ++ ys).rtake n = xs.rtake (n - ys.length) ++ ys.rtake n := by
  simp only [List.rtake_eq_reverse_take_reverse, List.reverse_append, List.take_append,
    List.length_reverse]

variable {xs n} in
theorem rtake_of_length_le (h : xs.length ≤ n) : xs.rtake n = xs := by
  rw [List.rtake, Nat.sub_eq_zero_of_le h, List.drop_zero]

/-- Of the last elements of a list and some more, the last ones are those of all. -/
theorem rtake_rtake_append : (xs.rtake n ++ ys).rtake n = (xs ++ ys).rtake n := by
  rw [rtake_append, rtake_append]
  simp only [List.rtake_eq_reverse_take_reverse, List.reverse_reverse, List.take_take]
  rw [Nat.min_eq_left (Nat.sub_le ..)]

end

namespace Mailbox

/-- A push to the back leaves the last messages. -/
theorem messages_pushBack (b : Mailbox) (m : Message) :
    (b.pushBack m).2.messages = (b.messages ++ [m]).rtake b.limit := by
  obtain ⟨n, hn⟩ : ∃ n, b.limit = n + 1 := Nat.exists_eq_add_one.2 b.limit_pos
  have hexcess : b.excess = b.messages.length - n := by
    rw [excess, hn, Nat.add_sub_add_right]
  rw [hn, List.rtake_concat_succ, List.rtake, ← hexcess, pushBack]

theorem Within.messages_foldl_pushBack {b : Mailbox} {limit : Nat} (h : b.Within limit)
    (ms : List Message) :
    (ms.foldl (fun b m => (b.pushBack m).2) b).messages = (b.messages ++ ms).rtake limit := by
  induction ms generalizing b with
  | nil =>
    rw [List.append_nil, rtake_of_length_le h.length_le]
    rfl
  | cons m ms ih =>
    rw [List.foldl_cons, ih (h.pushBack m), messages_pushBack, h.limit_eq,
      rtake_rtake_append, List.append_assoc]
    rfl

end Mailbox

namespace Router

variable {η : Type}

/-- A message and the router that it finds. -/
structure Turn (η : Type) where
  router : Router η
  message : Message

namespace Turn

/-- Whether the key of the message is routed to a queue, once its patterns have been matched. -/
def reaches (t : Turn η) (name : String) : Bool :=
  (t.router.matchPatterns t.message.key).isRouted t.message.key name

/-- Whether a live queue claims the message. -/
def isClaimed (t : Turn η) : Bool := t.router.anyLive t.reaches

theorem reaches_eq (t : Turn η) : t.reaches = t.router.targets t.message.key :=
  funext fun _ => (isRouted_matchPatterns ..).trans (if_pos rfl)

end Turn

/-- The turns of messages, one after the other. -/
def turns (r : Router η) : List Message → List (Turn η)
  | [] => []
  | m :: ms => { router := r, message := m } :: turns (r.route [m]).2 ms

@[simp] theorem map_message_turns (r : Router η) (ms : List Message) :
    (r.turns ms).map (·.message) = ms := by
  induction ms generalizing r with
  | nil => rfl
  | cons m ms ih => rw [turns, List.map_cons, ih]

theorem route_turn (r : Router η) (m : Message) :
    let t : Turn η := { router := r, message := m }
    ∃ routes checked, r.route [m] = (if t.isClaimed then [] else [m], { r with
      queues := r.queues.map fun n q => if t.reaches n then q.accept [m] else q
      routes, checked }) := by
  intro t
  cases hempty : r.queues.entries.isEmpty with
  | true =>
    have hunclaimed : t.isClaimed = false := by
      rw [Turn.isClaimed, anyLive, List.isEmpty_iff.1 hempty]
      rfl
    exact ⟨r.routes, r.checked, by simp [route, hempty, hunclaimed, Table.map_of_isEmpty hempty]⟩
  | false =>
    obtain ⟨routes, checked, heq⟩ := matchPatterns_eq r m.key
    exact ⟨routes, checked, by rw [route_singleton r hempty, heq, Turn.isClaimed, t.reaches_eq]⟩

theorem route_eq_claimAll {r : Router η} (h : r.queues.entries.isEmpty = false)
    (ms : List Message) : r.route ms = r.claimAll ms := by
  rw [route, h, if_neg Bool.false_ne_true]

theorem route_cons (r : Router η) (m : Message) (ms : List Message) :
    r.route (m :: ms) = ((r.route [m]).1 ++ ((r.route [m]).2.route ms).1,
      ((r.route [m]).2.route ms).2) := by
  cases hempty : r.queues.entries.isEmpty with
  | true => simp [route, hempty]
  | false =>
    have hleft : (r.route [m]).2.queues.entries.isEmpty = false := by
      obtain ⟨routes, checked, heq⟩ := route_turn r m
      rw [heq, ← hempty]
      simp [Table.map]
    rw [route_eq_claimAll hleft, route_eq_claimAll hempty, route_eq_claimAll hempty]
    simp only [claimAll]
    split <;> simp

/-- The messages that go to a queue. -/
def handedTo (ts : List (Turn η)) (name : String) : List Message :=
  (ts.filter fun t => t.reaches name).map (·.message)

/-- The messages that no live queue claims. -/
def unclaimed (ts : List (Turn η)) : List Message :=
  (ts.filter fun t => !t.isClaimed).map (·.message)

theorem handedTo_cons (t : Turn η) (ts : List (Turn η)) (name : String) :
    handedTo (t :: ts) name = (if t.reaches name then [t.message] else []) ++ handedTo ts name := by
  rw [handedTo, List.filter_cons]
  split <;> rfl

theorem unclaimed_cons (t : Turn η) (ts : List (Turn η)) :
    unclaimed (t :: ts) = (if t.isClaimed then [] else [t.message]) ++ unclaimed ts := by
  rw [unclaimed, List.filter_cons]
  cases t.isClaimed <;> rfl

/-- Routing hands every message to the queues that it reaches at its turn. -/
theorem route_eq_turns (r : Router η) (ms : List Message) :
    ∃ routes checked, r.route ms = (unclaimed (r.turns ms), { r with
      queues := r.queues.map fun n q => q.accept (handedTo (r.turns ms) n)
      routes, checked }) := by
  induction ms generalizing r with
  | nil => exact ⟨r.routes, r.checked, by simp [route, turns, handedTo, unclaimed, claimAll]⟩
  | cons m ms ih =>
    obtain ⟨_, _, hfirst⟩ := route_turn r m
    obtain ⟨routes, checked, hrest⟩ := ih (r.route [m]).2
    have hqueues : (r.route [m]).2.queues.map
          (fun n q => q.accept (handedTo ((r.route [m]).2.turns ms) n)) =
        r.queues.map fun n q => q.accept (handedTo (r.turns (m :: ms)) n) := by
      rw [turns, hfirst, Table.map_map]
      refine Table.map_congr fun n q => ?_
      rw [handedTo_cons, ← ActiveQueue.accept_accept]
      split
      · rfl
      · rw [ActiveQueue.accept_nil]
    refine ⟨routes, checked, ?_⟩
    rw [route_cons, hrest, hqueues, turns, unclaimed_cons, hfirst]

end Router

/-- The answers to requests among a packet's mail. -/
def Packet.answers (p : Packet) : List Message := p.mail.filter (·.id = Client.requestId)

/-- The mail of a packet that answers no request. -/
def Packet.others (p : Packet) : List Message := p.mail.filter (·.id ≠ Client.requestId)

namespace Client

open Router (handedTo unclaimed)

/-- The turns of a packet's other mail with the client's router. -/
def turns (c : Client) (p : Packet) : List (Router.Turn Handler) := c.router.turns p.others

theorem deliver_eq {c : Client} {p : Packet} {left : List Message} {router : Router Handler}
    (h : c.router.route p.others = (left, router)) :
    c.deliver p.mail = (!(p.answers ++ left).isEmpty, { c with
      router, inbox := (p.answers ++ left).foldl (fun b m => (b.pushBack m).2) c.inbox }) := by
  rw [Packet.others] at h
  simp only [deliver, h]
  rfl

/-- A packet from the server, for any client whose inbox keeps to its limit. -/
theorem receive_eq_turns {c : Client} {limit : Nat} (h : c.inbox.Within limit) (now : Float)
    (p : Packet) (request? : Option Float) :
    (c.receive now p request?).1 = !(p.answers ++ unclaimed (c.turns p)).isEmpty ∧
      (∃ routes checked, (c.receive now p request?).2.router = { c.router with
        queues := c.router.queues.map fun name q => q.accept (handedTo (c.turns p) name)
        routes, checked }) ∧
      (c.receive now p request?).2.inbox.messages =
        (c.inbox.messages ++ p.answers ++ unclaimed (c.turns p)).rtake limit := by
  obtain ⟨d, hd, heq⟩ := receive_eq c now p request?
  obtain ⟨routes, checked, hroute⟩ := c.router.route_eq_turns p.others
  rw [heq, deliver_eq ((congrArg (·.route p.others) hd.router).trans hroute)]
  refine ⟨rfl, ⟨routes, checked, rfl⟩, ?_⟩
  rw [hd.inbox, h.messages_foldl_pushBack, List.append_assoc]
  rfl

theorem mem_others_iff {p : Packet} {m : Message} :
    m ∈ p.others ↔ m ∈ p.mail ∧ m.id ≠ requestId := by
  simp [Packet.others]

/-- The messages of some of a packet's turns. -/
theorem mem_others_of_mem_turns {c : Client} {p : Packet} {q : Router.Turn Handler → Bool}
    {m : Message} (hm : m ∈ ((c.turns p).filter q).map (·.message)) : m ∈ p.others := by
  obtain ⟨t, ht, rfl⟩ := List.mem_map.1 hm
  rw [← c.router.map_message_turns p.others]
  exact List.mem_map_of_mem (List.mem_of_mem_filter ht)

/-- The answers that wait after a packet: those among the last messages of the inbox and of the
packet's answers, as many as the packet's unclaimed mail leaves room for. -/
theorem peek_receive_eq {c : Client} {limit : Nat} (h : c.inbox.Within limit) (now : Float)
    (p : Packet) (request? : Option Float) (dropOthers : Bool) :
    ((c.receive now p request?).2.peek requestId dropOthers).1 =
      ((c.inbox.messages ++ p.answers).rtake (limit - (unclaimed (c.turns p)).length)).filter
        (·.id = requestId) := by
  obtain ⟨-, -, hinbox⟩ := receive_eq_turns h now p request?
  have hnone : ((unclaimed (c.turns p)).rtake limit).filter (·.id = requestId) = [] := by
    rw [List.filter_eq_nil_iff]
    intro m hm
    have hm : m ∈ unclaimed (c.turns p) := List.mem_of_mem_drop hm
    simpa using (mem_others_iff.1 (mem_others_of_mem_turns hm)).2
  show (c.receive now p request?).2.inbox.messages.filter (·.id = requestId) = _
  rw [hinbox, rtake_append, List.filter_append, hnone, List.append_nil]

/-- After a packet whose answers and whose unclaimed mail do not exceed the limit of the inbox,
whatever has happened to the client before: all answers of the packet wait in order, behind the
older ones among the last messages that there is still room for. -/
theorem peek_receive (config : Config) (ops : List (Float × Op)) (c : Client)
    (hc : c = performAll ops (start config)) (now : Float) (p : Packet) (request? : Option Float)
    (dropOthers : Bool)
    (hroom : p.answers.length + (unclaimed (c.turns p)).length ≤ max config.inboxLimit 1) :
    ((c.receive now p request?).2.peek requestId dropOthers).1 =
      (c.inbox.messages.rtake (max config.inboxLimit 1 -
        (p.answers.length + (unclaimed (c.turns p)).length))).filter (·.id = requestId) ++
        p.answers := by
  have hall : p.answers.rtake (max config.inboxLimit 1 - (unclaimed (c.turns p)).length) =
      p.answers := rtake_of_length_le (by omega)
  have hanswers : p.answers.filter (·.id = requestId) = p.answers :=
    List.filter_eq_self.2 fun m hm => (List.mem_filter.1 hm).2
  rw [peek_receive_eq (hc ▸ within_performAll config ops), rtake_append, hall, List.filter_append,
    hanswers, Nat.sub_sub, Nat.add_comm]

/-- A message with nothing in it but its key, from the server. -/
def told (key : String) (id : Int32) : Message := { Message.text .notify key "" 1.0 with id }

/-- An answer to a request and another message. -/
def mixedPacket : Packet := ⟨[told "X" requestId, told "Y" 0]⟩

/-- A client without queues, with room for as many messages. -/
def roomFor (limit : Nat) : Client := start { serverAddress := "", name := "A", inboxLimit := limit }

theorem peek_receive_mixedPacket :
    mixedPacket.answers.length + (unclaimed ((roomFor 2).turns mixedPacket)).length ≤ 2 ∧
      (((roomFor 2).receive 1.0 mixedPacket none).2.peek requestId false).1 =
        [told "X" requestId] := by
  have hroom : mixedPacket.answers.length +
      (unclaimed ((roomFor 2).turns mixedPacket)).length ≤ 2 := by decide +kernel
  refine ⟨hroom, ?_⟩
  exact (peek_receive _ [] (roomFor 2) rfl 1.0 mixedPacket none false hroom).trans
    (by decide +kernel)

/-- Without enough room an answer gives way to the other mail of its packet. -/
theorem answer_gives_way :
    mixedPacket.answers = [told "X" requestId] ∧
      (((roomFor 1).receive 1.0 mixedPacket none).2.peek requestId false).1 = [] := by
  decide +kernel

end Client

end PubSub

import PubSub.Client.Registration
import PubSub.Proofs.Client.Routing

/-!
# What can happen to a client

A client changes as its application uses it and as its connection takes packets from it and gives
others to it. After any such operations its inbox has the limit that it was given at its start, and
holds no more messages (`Client.within_performAll`); only fetching, peeking and packets make a
difference to it.
-/

namespace PubSub

namespace Mailbox

/-- The mailbox has this limit, and no more messages. -/
structure Within (b : Mailbox) (limit : Nat) : Prop where
  limit_eq : b.limit = limit
  length_le : b.messages.length ≤ limit

variable {b : Mailbox} {limit : Nat}

theorem within_create (name : String) (limit : Nat) : (create name limit).Within (max limit 1) :=
  ⟨rfl, Nat.zero_le _⟩

theorem Within.of_length_le (h : b.Within limit) {ms : List Message}
    (hms : ms.length ≤ b.messages.length) : Within { b with messages := ms } limit :=
  ⟨h.limit_eq, hms.trans h.length_le⟩

theorem Within.pushBack (h : b.Within limit) (m : Message) : (b.pushBack m).2.Within limit := by
  refine ⟨h.limit_eq, ?_⟩
  have hpos := b.limit_pos
  rw [length_pushBack, h.limit_eq]
  rw [h.limit_eq] at hpos
  omega

theorem Within.foldl_pushBack (h : b.Within limit) (ms : List Message) :
    (ms.foldl (fun b m => (b.pushBack m).2) b).Within limit := by
  induction ms generalizing b with
  | nil => exact h
  | cons m ms ih => exact ih (h.pushBack m)

theorem Within.extract (h : b.Within limit) (p : Message → Bool) : (b.extract p).2.Within limit :=
  h.of_length_le (List.length_filter_le ..)

theorem Within.clear (h : b.Within limit) : b.clear.Within limit :=
  h.of_length_le (Nat.zero_le _)

end Mailbox

/-- The mail of a packet: what neither keeps a connection alive nor measures a round trip. -/
def Packet.mail (p : Packet) : List Message :=
  p.messages.filter fun m => m.type ≠ .null && m.type ≠ .timing

theorem Packet.filter_content (p : Packet) : p.content.filter (·.type ≠ .timing) = p.mail := by
  rw [content, List.filter_filter, mail]
  exact List.filter_congr fun m _ => Bool.and_comm ..

namespace Client

/-- Something that the application does, or the connection. -/
inductive Op where
  | post (m : Message)
  | register (key : String) (interval : Float)
  | unregister (key : String)
  | registerFilter (f : Filter)
  | unregisterFilter (sourcePattern keyPattern : String)
  | setFrequency (frequency : Float)
  | expectOverflow (limit : Nat)
  | fetch
  | peek (id : Int32) (dropOthers : Bool)
  /-- Queues and routes are added and removed, or workers go on. -/
  | route (call : Router.Call Handler)
  | startMonitoring
  | stopMonitoring
  | runQueues
  | close
  /-- The server has welcomed the client. Its registrations are repeated one by one, by `send`. -/
  | accept (host : String) (w : Handshake.Welcome)
  | send (m : Message)
  | takeOutgoing
  | recordSent (p : Packet)
  | receive (p : Packet) (request? : Option Float)
  | disconnect

/-- The client after an operation. -/
def Op.perform (now : Float) : Op → Client → Client
  | post m, c => (c.post now m).2
  | register key interval, c => c.register now key interval
  | unregister key, c => (c.unregister now key).2
  | registerFilter f, c => c.registerFilter now f
  | unregisterFilter sourcePattern keyPattern, c =>
    (c.unregisterFilter now sourcePattern keyPattern).2
  | setFrequency frequency, c => c.setFrequency frequency
  | expectOverflow limit, c => c.expectOverflow limit
  | fetch, c => c.fetch.2
  | peek id dropOthers, c => (c.peek id dropOthers).2
  | route call, c => { c with router := call.perform c.router }
  | startMonitoring, c => c.startMonitoring now
  | stopMonitoring, c => (c.stopMonitoring now).2
  | runQueues, c => c.runQueues.2
  | close, c => c.close
  | accept host w, c => c.accept host w
  | send m, c => c.send now m
  | takeOutgoing, c => (c.takeOutgoing now).2
  | recordSent p, c => c.recordSent p
  | receive p request?, c => (c.receive now p request?).2
  | disconnect, c => c.disconnect.2

/-- The client after operations, each at its time. -/
def performAll (ops : List (Float × Op)) (c : Client) : Client :=
  ops.foldl (fun c o => o.2.perform o.1 c) c

/-! ## What leaves the inbox alone -/

section
variable (c : Client) (now : Float) (m : Message) (key : String)

@[simp] theorem inbox_send : (c.send now m).inbox = c.inbox := by
  simp only [send, complete]
  split <;> rfl

@[simp] theorem inbox_post : (c.post now m).2.inbox = c.inbox := by
  rw [post]
  split
  · exact inbox_send c now m
  · rfl

@[simp] theorem inbox_register (interval : Float) :
    (c.register now key interval).inbox = c.inbox := inbox_post ..

@[simp] theorem inbox_unregister : (c.unregister now key).2.inbox = c.inbox := by
  rw [unregister]
  split
  · exact inbox_post ..
  · rfl

@[simp] theorem inbox_registerFilter (f : Filter) : (c.registerFilter now f).inbox = c.inbox :=
  inbox_post ..

@[simp] theorem inbox_unregisterFilter (sourcePattern keyPattern : String) :
    (c.unregisterFilter now sourcePattern keyPattern).2.inbox = c.inbox := by
  rw [unregisterFilter]
  split
  · exact inbox_post ..
  · rfl

@[simp] theorem inbox_startMonitoring : (c.startMonitoring now).inbox = c.inbox := by
  rw [startMonitoring, inbox_register, inbox_register]

@[simp] theorem inbox_stopMonitoring : (c.stopMonitoring now).2.inbox = c.inbox := by
  rw [stopMonitoring]
  split <;> simp

end

/-! ## Packets -/

/-- Counting and measuring make no difference to the queues and the inbox. -/
structure Measured (c d : Client) : Prop where
  router : d.router = c.router
  inbox : d.inbox = c.inbox

variable {c d e : Client}

theorem Measured.trans (h : c.Measured d) (h' : d.Measured e) : c.Measured e where
  router := h'.router.trans h.router
  inbox := h'.inbox.trans h.inbox

theorem measured_measure (c : Client) (request remote reply : Float) :
    c.Measured (c.measure request remote reply) := by
  rw [measure]
  split <;> exact ⟨rfl, rfl⟩

theorem measured_foldl_measure (c : Client) (echoes : List Message) (now : Float) :
    c.Measured (echoes.foldl (fun c echo => c.measure echo.value echo.time now) c) := by
  induction echoes generalizing c with
  | nil => exact ⟨rfl, rfl⟩
  | cons echo echoes ih => exact (measured_measure c _ _ _).trans (ih _)

/-- A packet's mail is delivered to the client as it is but for what it counts and measures. -/
theorem receive_eq (c : Client) (now : Float) (p : Packet) (request? : Option Float) :
    ∃ d, c.Measured d ∧ c.receive now p request? = d.deliver p.mail := by
  simp only [receive, Packet.filter_content]
  refine ⟨_, Measured.trans ?_ (measured_foldl_measure _ (p.content.filter (·.type = .timing)) now),
    rfl⟩
  have hcounted (counters : Counters) : c.Measured { c with counters } := ⟨rfl, rfl⟩
  split
  · exact (hcounted _).trans (measured_measure ..)
  · exact hcounted _

/-! ## The inbox after any operations -/

/-- No operation leaves more in the inbox than its limit. -/
theorem within_perform {limit : Nat} {c : Client} (h : c.inbox.Within limit) (now : Float) (op : Op) :
    (op.perform now c).inbox.Within limit := by
  cases op with
  | fetch => exact h.clear
  | peek id dropOthers =>
    cases dropOthers with
    | false => exact h.extract _
    | true => exact (h.extract _).clear
  | receive p request? =>
    obtain ⟨d, hd, heq⟩ := receive_eq c now p request?
    rw [Op.perform, heq]
    exact (hd.inbox ▸ h).foldl_pushBack _
  | post _ | register _ _ | unregister _ | registerFilter _ | unregisterFilter _ _ | startMonitoring
  | stopMonitoring | send _ => simpa [Op.perform] using h
  | setFrequency _ | expectOverflow _ | route _ | runQueues | close | accept _ _ | takeOutgoing
  | recordSent _ | disconnect => exact h

/-- The inbox keeps to the limit of its start. -/
theorem within_performAll (config : Config) (ops : List (Float × Op)) :
    (performAll ops (start config)).inbox.Within (max config.inboxLimit 1) := by
  let Fits (c : Client) : Prop := c.inbox.Within (max config.inboxLimit 1)
  have hstart : Fits (start config) := Mailbox.within_create "inbox" config.inboxLimit
  exact List.foldlRecOn (motive := Fits) ops _ hstart fun c h o _ => within_perform h o.1 o.2

end Client

end PubSub

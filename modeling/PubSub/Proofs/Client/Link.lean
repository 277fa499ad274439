import PubSub.Client.Registration
import PubSub.Proofs.Broker.Periods

/-!
# A client and the broker

A `Link` is a client, the broker and the connection between them, with the packets on their way to
the broker. A run of it is any sequence of possible steps: the client registers for variables and
takes registrations back, whether it is connected or not; it repeats its registrations one by one
after each connection; packets are sent and processed, or lost with the connection; and other
clients do what they like.

Once everything has been sent and processed, the broker has the client subscribed to a variable just
as the client remembers it (`Link.registrations_agree`), provided two things. No registration is
taken back while the client is disconnected and has a message left that registers for the variable;
and none is made or taken back while the repetition of an older one is still to be sent
(`Link.Careful`). In both cases the older message arrives last
(`Link.older_registration_comes_last`).
-/

namespace PubSub

/-- A client, the broker, and the connection between them. -/
structure Link where
  client : Client
  broker : Broker
  /-- Whether the client is connected for the broker. The broker learns of the end of a connection
  by itself, as the client does. -/
  attached : Bool := false
  /-- The packets on their way to the broker, oldest first. -/
  wire : List (List Message) := []
  /-- The registrations that are still to be repeated, once they have been looked up. -/
  replay : Option (List Message) := some []

namespace Link

/-- A step of one side. -/
inductive Action where
  | register (key : String) (interval : Float)
  | unregister (key : String)
  /-- The client posts a message that is no registration. -/
  | post (m : Message)
  /-- The server welcomes the client. -/
  | connect (host : String) (w : Handshake.Welcome)
  /-- The client looks up what it has to repeat. -/
  | lookUp
  /-- The client repeats a registration. -/
  | repeatNext
  /-- The client sends a packet with all that it has to send. -/
  | drain
  /-- The broker processes a packet. -/
  | deliver
  /-- The client finds the connection gone. -/
  | lose
  /-- The broker finds the connection gone; packets on their way are lost. -/
  | part
  /-- Something else happens at the broker. -/
  | other (op : Broker.Op)

/-- Whether a message is about a registration. -/
def isRegistration (m : Message) : Bool :=
  m.type = .register || m.type = .unregister || m.type = .wildcardRegister ||
    m.type = .wildcardUnregister

/-- A client and a broker that have just started. -/
def start (config : Client.Config) (broker : Broker.Config) (now : Float) : Link :=
  { client := .start config, broker := .start broker now }

/-- The client's name. -/
def name (l : Link) : String := l.client.config.name

/-- A step, if it is possible. -/
def act? (l : Link) (now : Float) : Action → Option Link
  | .register key interval => some { l with client := l.client.register now key interval }
  | .unregister key => some { l with client := (l.client.unregister now key).2 }
  | .post m => if isRegistration m then none else some { l with client := (l.client.post now m).2 }
  | .connect host w =>
    if l.client.connected || l.attached then none
    else some { l with
      client := l.client.accept host w
      broker := l.broker.connect now l.name
      attached := true, wire := [], replay := none }
  | .lookUp =>
    if l.client.connected && l.replay.isNone then
      some { l with replay := some (l.client.replayMessages now) }
    else none
  | .repeatNext =>
    match l.replay with
    | some (m :: ms) =>
      if l.client.connected then some { l with client := l.client.send now m, replay := some ms }
      else none
    | _ => none
  | .drain =>
    if l.client.connected then
      let (ms, client) := l.client.takeOutgoing now
      some { l with client, wire := l.wire ++ [ms] }
    else none
  | .deliver =>
    match l.wire with
    | ms :: wire =>
      if l.attached then some { l with broker := (l.broker.receive now l.name ms).2, wire }
      else none
    | [] => none
  | .lose =>
    if l.client.connected then
      some { l with client := l.client.disconnect.2, replay := some [] }
    else none
  | .part =>
    if l.attached then
      some { l with broker := l.broker.disconnect now l.name, attached := false, wire := [] }
    else none
  | .other op =>
    if op.Foreign l.name then some { l with broker := op.perform now l.broker } else none

/-- Steps one after the other, each at its time, if all are possible. -/
def run? (l : Link) : List (Float × Action) → Option Link
  | [] => some l
  | (now, a) :: actions => (l.act? now a).bind fun l => l.run? actions

/-- What is still to be repeated. -/
def unrepeated (l : Link) : List Message := l.replay.getD []

/-- Whether a step puts a message into the outbox. -/
def Action.Posts : Action → Prop
  | .register _ _ | .unregister _ | .post _ | .repeatNext => True
  | .connect _ _ | .lookUp | .drain | .deliver | .lose | .part | .other _ => False

instance : (a : Action) → Decidable a.Posts
  | .register _ _ | .unregister _ | .post _ | .repeatNext => inferInstanceAs (Decidable True)
  | .connect _ _ | .lookUp | .drain | .deliver | .lose | .part | .other _ =>
    inferInstanceAs (Decidable False)

/-- If a step is about a key, no older registration of the key is still to be repeated. If it takes
a registration of the key back while the client is disconnected, what is left in the outbox does not
register for the key. -/
def InTurn (l : Link) (key : String) : Action → Prop
  | .register k _ => k = key → ∀ m ∈ l.unrepeated, m.key ≠ key
  | .unregister k => k = key → (∀ m ∈ l.unrepeated, m.key ≠ key) ∧
    (l.client.connected = false →
      l.client.outbox.messages.foldl (Broker.periodAfter key) none = none)
  | .post _ | .connect _ _ | .lookUp | .repeatNext | .drain | .deliver | .lose | .part
  | .other _ => True

instance (l : Link) (key : String) : (a : Action) → Decidable (l.InTurn key a)
  | .register _ _ | .unregister _ => inferInstanceAs (Decidable (_ → _))
  | .post _ | .connect _ _ | .lookUp | .repeatNext | .drain | .deliver | .lose | .part
  | .other _ => inferInstanceAs (Decidable True)

/-- A step in turn, for which the outbox has room. -/
def Allows (l : Link) (key : String) (a : Action) : Prop :=
  (a.Posts → l.client.connected = true → l.client.outbox.excess = 0) ∧ l.InTurn key a

instance (l : Link) (key : String) (a : Action) : Decidable (l.Allows key a) :=
  inferInstanceAs (Decidable (_ ∧ _))

/-- All steps of a run are such steps. -/
def Careful (key : String) : Link → List (Float × Action) → Prop
  | _, [] => True
  | l, (now, a) :: actions =>
    l.Allows key a ∧ ∀ u ∈ l.act? now a, Careful key u actions

instance instDecidableCareful (key : String) :
    (l : Link) → (actions : List (Float × Action)) → Decidable (Careful key l actions)
  | _, [] => inferInstanceAs (Decidable True)
  | l, (now, a) :: actions =>
    have (u : Link) := instDecidableCareful key u actions
    inferInstanceAs (Decidable (l.Allows key a ∧ ∀ u ∈ l.act? now a, Careful key u actions))

/-- The client is connected, has repeated its registrations, and all that it has sent has been
processed. -/
structure Settled (l : Link) : Prop where
  connected : l.client.connected = true
  attached : l.attached = true
  repeated : l.replay = some []
  sent : l.client.outbox.messages = []
  processed : l.wire = []

instance (l : Link) : Decidable l.Settled :=
  decidable_of_iff
    (l.client.connected = true ∧ l.attached = true ∧ l.replay = some [] ∧
      l.client.outbox.messages = [] ∧ l.wire = [])
    ⟨fun ⟨h₁, h₂, h₃, h₄, h₅⟩ => ⟨h₁, h₂, h₃, h₄, h₅⟩,
      fun ⟨h₁, h₂, h₃, h₄, h₅⟩ => ⟨h₁, h₂, h₃, h₄, h₅⟩⟩

/-- The period at which the client wants to be notified of a key. -/
def wanted (c : Client) (key : String) : Option Float :=
  (c.registrations.get? key).map Bounds.raised

/-- What is on its way to the broker, from the oldest message to the newest. -/
def ahead (l : Link) : List Message :=
  l.wire.flatten ++ l.client.outbox.messages ++ l.unrepeated

/-! ## Messages -/

theorem periodAfter_of_ne {key : String} {m : Message} (h : m.key ≠ key) (period : Option Float) :
    Broker.periodAfter key period m = period :=
  if_neg h

/-- Messages about other keys. -/
theorem foldl_periodAfter_of_ne {key : String} {ms : List Message} (h : ∀ m ∈ ms, m.key ≠ key)
    (period : Option Float) : ms.foldl (Broker.periodAfter key) period = period := by
  induction ms with
  | nil => rfl
  | cons m ms ih =>
    obtain ⟨hm, hms⟩ := List.forall_mem_cons.1 h
    rw [List.foldl_cons, periodAfter_of_ne hm, ih hms]

/-- A message as it is put into the outbox. -/
structure Completed (m m' : Message) : Prop where
  key : m'.key = m.key
  type : m'.type = m.type
  value : m'.value = m.value

theorem Completed.periodAfter {m m' : Message} (h : Completed m m') (key : String)
    (period : Option Float) :
    Broker.periodAfter key period m' = Broker.periodAfter key period m := by
  rw [Broker.periodAfter, h.key, h.type, h.value, Broker.periodAfter]

theorem complete_eq (c : Client) (now : Float) (m : Message) :
    ∃ m' nextId, Completed m m' ∧ c.complete now m = (m', { c with nextId }) := by
  simp only [Client.complete]
  split
  · refine ⟨_, c.nextId, ?_, rfl⟩
    exact ⟨rfl, rfl, rfl⟩
  · refine ⟨_, c.nextId + 1, ?_, rfl⟩
    exact ⟨rfl, rfl, rfl⟩

theorem enqueue_eq {c : Client} (hfront : c.config.newestFirst = false)
    (hroom : c.outbox.excess = 0) (m : Message) :
    c.enqueue m =
      { c with outbox := { c.outbox with messages := c.outbox.messages ++ [m] } } := by
  rw [Client.enqueue, hfront, Mailbox.pushBack, hroom, List.drop_zero]
  rfl

/-- A message is sent after all others. -/
theorem send_eq {c : Client} (hfront : c.config.newestFirst = false) (hroom : c.outbox.excess = 0)
    (now : Float) (m : Message) :
    ∃ m' nextId, Completed m m' ∧ c.send now m = { c with
      outbox := { c.outbox with messages := c.outbox.messages ++ [m'] }, nextId } := by
  obtain ⟨m', nextId, hm, heq⟩ := complete_eq c now m
  refine ⟨m', nextId, hm, ?_⟩
  rw [Client.send, heq]
  exact enqueue_eq (c := { c with nextId }) hfront hroom m'

/-! ## The invariant -/

/-- What holds of a link whatever the client does with its registrations. -/
structure Sane (l : Link) : Prop where
  front : l.client.config.newestFirst = false
  named : l.broker.Named
  unfiltered : l.broker.filtersOf l.name = []
  filters : l.client.filters = []
  plain : ∀ m ∈ l.ahead, Broker.Plain m
  idle : l.client.connected = false → l.unrepeated = []
  gone : l.attached = false → ∀ key, l.broker.period? l.name key = none

/-- What is on its way makes the broker agree with the client. -/
structure Agrees (key : String) (l : Link) : Prop where
  /-- The outbox does not register for the key if the client does not want to. -/
  left : wanted l.client key = none →
    l.client.outbox.messages.foldl (Broker.periodAfter key) none = none
  /-- What is still to be repeated is as the client wants it. -/
  repeated : ∀ m ∈ l.unrepeated, m.key = key →
    m.type = .register ∧ wanted l.client key = some (Bounds.raised m.value)
  /-- A key that the client wants to be notified of may lack until the registrations have been
  looked up. -/
  told : l.client.connected = true → l.attached = true →
    (l.replay = none → wanted l.client key = none) →
    l.ahead.foldl (Broker.periodAfter key) (l.broker.period? l.name key) = wanted l.client key

theorem sane_start (config : Client.Config) (hfront : config.newestFirst = false)
    (broker : Broker.Config) (now : Float) : (start config broker now).Sane where
  front := hfront
  named := Broker.named_start broker now
  unfiltered := rfl
  filters := rfl
  plain m hm := by cases hm
  idle _ := rfl
  gone _ key := Broker.period?_start broker now config.name key

theorem agrees_start (config : Client.Config) (broker : Broker.Config) (now : Float)
    (key : String) : Agrees key (start config broker now) where
  left _ := rfl
  repeated m hm := by cases hm
  told hconnected := by cases hconnected

variable {l u : Link} {key : String} {now : Float}

/-! ## The client sends a message -/

/-- A link whose client has sent a message, and perhaps changed what it remembers. -/
def sent (l : Link) (registrations : Table Float) (nextId : Int32) (m : Message) : Link :=
  { l with client := { l.client with
      registrations, nextId
      outbox := { l.client.outbox with messages := l.client.outbox.messages ++ [m] } } }

theorem mem_ahead_sent {registrations : Table Float} {nextId : Int32} {m x : Message} :
    x ∈ (l.sent registrations nextId m).ahead ↔ x ∈ l.ahead ∨ x = m := by
  simp only [ahead, sent, unrepeated, List.mem_append, List.mem_singleton]
  tauto

theorem Sane.sent (h : l.Sane) (hconnected : l.client.connected = true) {m : Message}
    (hm : Broker.Plain m) (registrations : Table Float) (nextId : Int32) :
    (l.sent registrations nextId m).Sane where
  front := h.front
  named := h.named
  unfiltered := h.unfiltered
  filters := h.filters
  plain x hx := by
    rcases mem_ahead_sent.1 hx with hx | rfl
    · exact h.plain x hx
    · exact hm
  idle hnot := absurd (hnot.symm.trans hconnected) Bool.false_ne_true
  gone := h.gone

/-- A message that is not about the key. -/
theorem Agrees.sent_other (h : Agrees key l) {registrations : Table Float} {nextId : Int32}
    {m : Message} (hm : ∀ period, Broker.periodAfter key period m = period)
    (hsame : registrations.get? key = l.client.registrations.get? key) :
    Agrees key (l.sent registrations nextId m) := by
  have hwanted : wanted (l.sent registrations nextId m).client key = wanted l.client key :=
    congrArg (Option.map Bounds.raised) hsame
  refine ⟨fun hnone => ?_, fun x hx hkey => ?_, fun hconnected hattached hdue => ?_⟩
  · rw [hwanted] at hnone
    rw [Link.sent, List.foldl_append, List.foldl_cons, hm]
    exact h.left hnone
  · rw [hwanted]
    exact h.repeated x hx hkey
  · rw [hwanted] at hdue ⊢
    rw [← h.told hconnected hattached hdue]
    simp only [ahead, Link.sent, unrepeated, List.foldl_append, List.foldl_cons, List.foldl_nil, hm]
    rfl

/-- A message that says what the client wants, when no older registration is still to be
repeated. -/
theorem Agrees.sent_wanted {registrations : Table Float} {nextId : Int32} {m : Message}
    (hrepeated : ∀ x ∈ l.unrepeated, x.key ≠ key)
    (hm : ∀ period, Broker.periodAfter key period m =
      (registrations.get? key).map Bounds.raised) :
    Agrees key (l.sent registrations nextId m) := by
  refine ⟨fun hnone => ?_, fun x hx hkey => absurd hkey (hrepeated x hx), fun _ _ _ => ?_⟩
  · rw [Link.sent, List.foldl_append, List.foldl_cons, hm]
    exact hnone
  · have hahead : (l.sent registrations nextId m).ahead =
        l.wire.flatten ++ l.client.outbox.messages ++ [m] ++ l.unrepeated := by
      rw [ahead, Link.sent, ← List.append_assoc]
      rfl
    -- nothing after the message is about the key, and nothing before it matters
    rw [hahead, List.foldl_append, foldl_periodAfter_of_ne hrepeated, List.foldl_append,
      List.foldl_cons, List.foldl_nil, hm]
    rfl

/-! ## Steps -/

/-- The client does not send anything, as it is not connected. -/
theorem post_of_not_connected {c : Client} (h : c.connected = false) (now : Float) (m : Message) :
    (c.post now m).2 = c := by
  rw [Client.post, h]
  rfl

theorem post_of_connected {c : Client} (h : c.connected = true) (now : Float) (m : Message) :
    (c.post now m).2 = c.send now m := by
  rw [Client.post, h]
  rfl

/-- The client changes what it remembers and posts a message. -/
theorem sane_post (h : l.Sane) {m : Message} (hm : Broker.Plain m) (registrations : Table Float)
    (hroom : l.client.connected = true → l.client.outbox.excess = 0) :
    Sane { l with client := (Client.post { l.client with registrations } now m).2 } := by
  cases hconnected : l.client.connected with
  | false =>
    rw [post_of_not_connected (c := { l.client with registrations }) hconnected]
    exact { h with }
  | true =>
    obtain ⟨m', nextId, hm', heq⟩ :=
      send_eq (c := { l.client with registrations }) h.front (hroom hconnected) now m
    rw [post_of_connected (c := { l.client with registrations }) hconnected, heq]
    refine h.sent hconnected ?_ registrations nextId
    rw [Broker.Plain, hm'.type]
    exact hm

/-- The client posts a message that is not about the key. -/
theorem agrees_post_other (hs : l.Sane) (h : Agrees key l) {m : Message}
    (hm : ∀ period, Broker.periodAfter key period m = period) {registrations : Table Float}
    (hsame : registrations.get? key = l.client.registrations.get? key)
    (hroom : l.client.connected = true → l.client.outbox.excess = 0) :
    Agrees key { l with client := (Client.post { l.client with registrations } now m).2 } := by
  cases hconnected : l.client.connected with
  | false =>
    rw [post_of_not_connected (c := { l.client with registrations }) hconnected]
    have hwanted : wanted { l.client with registrations } key = wanted l.client key :=
      congrArg (Option.map Bounds.raised) hsame
    refine ⟨fun hnone => h.left (hwanted ▸ hnone), fun x hx hkey => ?_, fun hnot => ?_⟩
    · rw [hwanted]
      exact h.repeated x hx hkey
    · exact absurd (hconnected.symm.trans hnot) Bool.false_ne_true
  | true =>
    obtain ⟨m', nextId, hm', heq⟩ :=
      send_eq (c := { l.client with registrations }) hs.front (hroom hconnected) now m
    rw [post_of_connected (c := { l.client with registrations }) hconnected, heq]
    exact h.sent_other (fun period => (hm'.periodAfter key period).trans (hm period)) hsame

/-- The client posts what it wants. If it is not connected, nothing is sent. -/
theorem agrees_post_wanted (hs : l.Sane) {m : Message} {registrations : Table Float}
    (hm : ∀ period, Broker.periodAfter key period m = (registrations.get? key).map Bounds.raised)
    (hrepeated : ∀ x ∈ l.unrepeated, x.key ≠ key)
    (hroom : l.client.connected = true → l.client.outbox.excess = 0)
    (hleft : l.client.connected = false → registrations.get? key = none →
      l.client.outbox.messages.foldl (Broker.periodAfter key) none = none) :
    Agrees key { l with client := (Client.post { l.client with registrations } now m).2 } := by
  cases hconnected : l.client.connected with
  | false =>
    rw [post_of_not_connected (c := { l.client with registrations }) hconnected]
    refine ⟨fun hnone => hleft hconnected (Option.map_eq_none_iff.1 hnone),
      fun x hx hkey => absurd hkey (hrepeated x hx),
      fun hnot => absurd (hconnected.symm.trans hnot) Bool.false_ne_true⟩
  | true =>
    obtain ⟨m', nextId, hm', heq⟩ :=
      send_eq (c := { l.client with registrations }) hs.front (hroom hconnected) now m
    rw [post_of_connected (c := { l.client with registrations }) hconnected, heq]
    exact .sent_wanted hrepeated fun period => (hm'.periodAfter key period).trans (hm period)

/-- Registrations, each key once, bring the client the period of the key. -/
theorem foldl_registerMessages (entries : List (String × Float))
    (hsorted : entries.Pairwise fun a b => a.1 < b.1) (time : Float) (key : String)
    (period : Option Float) :
    (entries.map fun e => Client.registerMessage e.1 e.2 time).foldl (Broker.periodAfter key)
        period =
      (((entries.find? (·.1 == key)).map (·.2)).map Bounds.raised).or period := by
  induction entries generalizing period with
  | nil => rfl
  | cons e entries ih =>
    obtain ⟨hhead, htail⟩ := List.pairwise_cons.1 hsorted
    rw [List.map_cons, List.foldl_cons]
    by_cases hkey : e.1 = key
    · have hothers : ∀ m ∈ entries.map fun e => Client.registerMessage e.1 e.2 time,
          m.key ≠ key := by
        intro m hm hmkey
        obtain ⟨x, hx, rfl⟩ := List.mem_map.1 hm
        have hlt : e.1 < x.1 := hhead x hx
        rw [hkey, ← show x.1 = key from hmkey] at hlt
        exact String.lt_irrefl _ hlt
      rw [foldl_periodAfter_of_ne hothers, List.find?_cons_of_pos (by simp [hkey])]
      exact if_pos hkey
    · rw [periodAfter_of_ne hkey, ih htail, List.find?_cons_of_neg (by simpa using hkey)]

/-- The repeated registrations bring the client what it wants. -/
theorem foldl_replayMessages {c : Client} (hfilters : c.filters = []) (key : String)
    (period : Option Float) :
    (c.replayMessages now).foldl (Broker.periodAfter key) period = (wanted c key).or period := by
  rw [Client.replayMessages, hfilters, List.map_nil, List.append_nil]
  exact foldl_registerMessages c.registrations.entries c.registrations.sorted _ key period

/-- The repeated registrations are those that the client remembers. -/
theorem of_mem_replayMessages {c : Client} (hfilters : c.filters = []) {m : Message}
    (h : m ∈ c.replayMessages now) :
    m.type = .register ∧ wanted c m.key = some (Bounds.raised m.value) := by
  rw [Client.replayMessages, hfilters, List.map_nil, List.append_nil] at h
  obtain ⟨⟨k, interval⟩, he, rfl⟩ := List.mem_map.1 h
  exact ⟨rfl, by rw [wanted]; exact congrArg _ (Table.mem_entries_iff.1 he)⟩

/-- What a client sends is what was in its outbox, or a message with nothing to say. -/
theorem takeOutgoing_eq (c : Client) (now : Float) :
    ∃ ms, c.takeOutgoing now = (ms, { c with outbox := c.outbox.clear }) ∧
      (∀ m ∈ ms, m ∈ c.outbox.messages ∨ m.type = .null) ∧
      ∀ key period, ms.foldl (Broker.periodAfter key) period =
        c.outbox.messages.foldl (Broker.periodAfter key) period := by
  refine ⟨_, rfl, fun m hm => ?_, fun key period => ?_⟩
  · split at hm
    · rw [List.mem_singleton.1 hm]
      exact .inr rfl
    · exact .inl hm
  · split
    · rename_i hempty
      rw [List.isEmpty_iff.1 hempty, List.foldl_cons,
        Broker.periodAfter_of_type (by simp [Message.null]) (by simp [Message.null])]
    · rfl

/-- The broker is connected to again: it has nothing of the client, so what the client has left must
not make it forget what it wants. -/
theorem step_connect (hs : l.Sane) (h : Agrees key l) (hattached : l.attached = false)
    (host : String) (w : Handshake.Welcome) :
    let u := { l with
      client := l.client.accept host w
      broker := l.broker.connect now l.name
      attached := true, wire := [], replay := none }
    u.Sane ∧ Agrees key u := by
  have hconnect : (Broker.Op.connect l.name).Foreign l.name := trivial
  have hafter : Broker.After l.name [] l.broker (l.broker.connect now l.name) :=
    Broker.after_perform hconnect hs.named hs.unfiltered
  have hperiod : (l.broker.connect now l.name).period? l.name key = none :=
    (hafter.periods key).trans (hs.gone hattached key)
  intro u
  have hahead : u.ahead = l.client.outbox.messages := List.append_nil _
  refine ⟨{ hs with
    named := hafter.named
    unfiltered := hafter.filters
    plain := fun m hm => hs.plain m ?plain
    idle := fun _ => rfl
    gone := nofun }, { h with
    repeated := fun _ hm => absurd hm List.not_mem_nil
    told := fun _ _ hdue => ?told }⟩
  case plain =>
    rw [hahead] at hm
    exact List.mem_append_left _ (List.mem_append_right _ hm)
  case told =>
    have hwanted : wanted l.client key = none := hdue rfl
    have hleft := h.left hwanted
    rw [← hperiod, ← hahead] at hleft
    exact hleft.trans (hperiod.trans hwanted.symm)

theorem step_lookUp (hs : l.Sane) (h : Agrees key l) (hdue : l.replay = none)
    (hconnected : l.client.connected = true) :
    let u := { l with replay := some (l.client.replayMessages now) }
    u.Sane ∧ Agrees key u := by
  have hahead : l.ahead = l.wire.flatten ++ l.client.outbox.messages := by
    rw [ahead, unrepeated, hdue, Option.getD_none, List.append_nil]
  intro u
  have hlonger : u.ahead = l.ahead ++ l.client.replayMessages now := by rw [hahead]; rfl
  refine ⟨{ hs with
    plain := fun m hm => ?plain
    idle := fun hnot => absurd (hnot.symm.trans hconnected) Bool.false_ne_true }, { h with
    repeated := fun m hm hkey => ?repeated
    told := fun _ hattached _ => ?told }⟩
  case plain =>
    rw [hlonger] at hm
    rcases List.mem_append.1 hm with hm | hm
    · exact hs.plain m hm
    · have htype : m.type = .register := (of_mem_replayMessages hs.filters hm).1
      rw [Broker.Plain, htype]
      decide
  case repeated =>
    rw [← hkey]
    exact of_mem_replayMessages hs.filters hm
  case told =>
    rw [hlonger, List.foldl_append, foldl_replayMessages hs.filters]
    -- the repetition decides, except for a key that the client does not want: it is as it was
    show (wanted l.client key).or _ = wanted l.client key
    cases hwanted : wanted l.client key with
    | some period => rfl
    | none =>
      rw [Option.none_or, ← hwanted]
      exact h.told hconnected hattached fun _ => hwanted

theorem step_repeatNext (hs : l.Sane) (h : Agrees key l) {m : Message} {ms : List Message}
    (hreplay : l.replay = some (m :: ms)) (hconnected : l.client.connected = true)
    (hroom : l.client.outbox.excess = 0) :
    let u := { l with client := l.client.send now m, replay := some ms }
    u.Sane ∧ Agrees key u := by
  obtain ⟨m', nextId, hm', heq⟩ := send_eq hs.front hroom now m
  have hunrepeated : l.unrepeated = m :: ms := by rw [unrepeated, hreplay, Option.getD_some]
  have hahead : l.ahead = l.wire.flatten ++ l.client.outbox.messages ++ m :: ms := by
    rw [ahead, hunrepeated]
  rw [heq]
  intro u
  have hmoved : u.ahead = l.wire.flatten ++ (l.client.outbox.messages ++ [m']) ++ ms := rfl
  have hwanted : wanted u.client key = wanted l.client key := rfl
  have hplain : Broker.Plain m' := by
    rw [Broker.Plain, hm'.type]
    exact hs.plain m (by simp [hahead])
  refine ⟨{ hs with
    plain := fun x hx => ?plain
    idle := fun hnot => absurd (hnot.symm.trans hconnected) Bool.false_ne_true }, {
    left := fun hnone => ?left
    repeated := fun x hx => h.repeated x (hunrepeated ▸ List.mem_cons_of_mem m hx)
    told := fun _ hattached _ => ?told }⟩
  case plain =>
    have hold : x ∈ l.ahead ∨ x = m' := by
      rw [hmoved] at hx
      rw [hahead]
      simp only [List.mem_append, List.mem_cons, List.not_mem_nil] at hx ⊢
      tauto
    rcases hold with hx | rfl
    · exact hs.plain x hx
    · exact hplain
  case left =>
    rw [hwanted] at hnone
    -- only what the client wants is repeated
    have hother : m.key ≠ key := by
      intro hkey
      have hsome := (h.repeated m (by simp [hunrepeated]) hkey).2
      rw [hnone] at hsome
      cases hsome
    show (l.client.outbox.messages ++ [m']).foldl _ _ = none
    rw [List.foldl_append, List.foldl_cons, List.foldl_nil, hm'.periodAfter,
      periodAfter_of_ne hother]
    exact h.left hnone
  case told =>
    have htold := h.told hconnected hattached (by simp [hreplay])
    rw [hahead, List.foldl_append, List.foldl_append, List.foldl_cons] at htold
    rw [hmoved, hwanted, List.foldl_append, List.foldl_append, List.foldl_append, List.foldl_cons,
      List.foldl_nil, hm'.periodAfter]
    exact htold

theorem step_drain (hs : l.Sane) (h : Agrees key l) (hconnected : l.client.connected = true) :
    let u := { l with
      client := (l.client.takeOutgoing now).2
      wire := l.wire ++ [(l.client.takeOutgoing now).1] }
    u.Sane ∧ Agrees key u := by
  obtain ⟨ms, heq, hmem, hfold⟩ := takeOutgoing_eq l.client now
  rw [heq]
  intro u
  have hahead : u.ahead = l.wire.flatten ++ ms ++ l.unrepeated := by
    simp [u, ahead, unrepeated, Mailbox.clear]
  refine ⟨{ hs with
    plain := fun m hm => ?plain
    idle := fun hnot => absurd (hnot.symm.trans hconnected) Bool.false_ne_true }, { h with
    left := fun _ => rfl
    told := fun _ hattached hdue => ?told }⟩
  case plain =>
    have hold : m ∈ l.ahead ∨ m ∈ ms := by
      rw [hahead] at hm
      rw [ahead]
      simp only [List.mem_append] at hm ⊢
      tauto
    rcases hold with hm | hm
    · exact hs.plain m hm
    · rcases hmem m hm with hm | htype
      · exact hs.plain m (by simp [ahead, hm])
      · rw [Broker.Plain, htype]
        decide
  case told =>
    have htold := h.told hconnected hattached hdue
    rw [ahead, List.foldl_append, List.foldl_append, ← hfold] at htold
    rw [hahead, List.foldl_append, List.foldl_append]
    exact htold

theorem step_deliver (hs : l.Sane) (h : Agrees key l) {ms : List Message}
    {wire : List (List Message)} (hwire : l.wire = ms :: wire) (hattached : l.attached = true) :
    let u := { l with broker := (l.broker.receive now l.name ms).2, wire }
    u.Sane ∧ Agrees key u := by
  have hahead : l.ahead = ms ++ ahead { l with wire } := by
    simp [ahead, unrepeated, hwire]
  have hafter : Broker.After l.name ms l.broker (l.broker.receive now l.name ms).2 :=
    Broker.after_receive (fun m hm => hs.plain m (by simp [hahead, hm])) hs.named hs.unfiltered
  refine ⟨{ hs with
    named := hafter.named
    unfiltered := hafter.filters
    plain := fun m hm => hs.plain m (hahead ▸ List.mem_append_right ms hm)
    gone := fun hnot => absurd (hnot.symm.trans hattached) Bool.false_ne_true }, { h with
    told := fun hconnected _ hdue => ?told }⟩
  have htold := h.told hconnected hattached hdue
  rw [hahead, List.foldl_append, ← hafter.periods key] at htold
  exact htold

theorem step_lose (hs : l.Sane) (h : Agrees key l) :
    let u := { l with client := l.client.disconnect.2, replay := some [] }
    u.Sane ∧ Agrees key u := by
  intro u
  have hahead : u.ahead = l.wire.flatten ++ l.client.outbox.messages := List.append_nil _
  exact ⟨{ hs with
    plain := fun m hm => hs.plain m (List.mem_append_left _ (hahead ▸ hm))
    idle := fun _ => rfl }, { h with
    repeated := fun _ hm => absurd hm List.not_mem_nil
    told := fun hnot => absurd hnot Bool.false_ne_true }⟩

theorem step_part (hs : l.Sane) (h : Agrees key l) :
    let u := { l with broker := l.broker.disconnect now l.name, attached := false, wire := [] }
    u.Sane ∧ Agrees key u := by
  have hahead : l.ahead = l.wire.flatten ++ (l.client.outbox.messages ++ l.unrepeated) :=
    List.append_assoc ..
  exact ⟨{ hs with
    named := hs.named.disconnect now l.name
    unfiltered := (Broker.absent_disconnect ..).filters
    plain := fun m hm => hs.plain m (hahead ▸ List.mem_append_right _ hm)
    gone := fun _ => Broker.period?_disconnect l.broker now l.name }, { h with
    told := fun _ hnot => absurd hnot Bool.false_ne_true }⟩

theorem step_other (hs : l.Sane) (h : Agrees key l) {op : Broker.Op} (hop : op.Foreign l.name) :
    let u := { l with broker := op.perform now l.broker }
    u.Sane ∧ Agrees key u := by
  have hafter : Broker.After l.name [] l.broker (op.perform now l.broker) :=
    Broker.after_perform hop hs.named hs.unfiltered
  refine ⟨{ hs with
    named := hafter.named
    unfiltered := hafter.filters
    gone := fun hnot k => (hafter.periods k).trans (hs.gone hnot k) }, { h with
    told := fun hconnected hattached hdue => ?told }⟩
  have hperiod : (op.perform now l.broker).period? l.name key = l.broker.period? l.name key :=
    hafter.periods key
  have htold := h.told hconnected hattached hdue
  rw [← hperiod] at htold
  exact htold

theorem act_register (hs : l.Sane) (h : Agrees key l) {k : String} {interval : Float}
    (ha : l.Allows key (.register k interval)) :
    let u := { l with client := l.client.register now k interval }
    u.Sane ∧ Agrees key u := by
  obtain ⟨hroom, hpending⟩ := ha
  refine ⟨sane_post hs ⟨by simp [Client.registerMessage, Message.double],
    by simp [Client.registerMessage, Message.double]⟩ _ (hroom trivial), ?_⟩
  by_cases hk : k = key
  · refine agrees_post_wanted hs (fun period => ?_) (hpending hk) (hroom trivial) fun _ hnone => ?_
    · rw [Table.get?_insert, if_pos hk.symm]
      exact if_pos hk
    · rw [Table.get?_insert, if_pos hk.symm] at hnone
      cases hnone
  · refine agrees_post_other hs h (periodAfter_of_ne hk) ?_ (hroom trivial)
    rw [Table.get?_insert, if_neg (Ne.symm hk)]

theorem act_unregister (hs : l.Sane) (h : Agrees key l) {k : String}
    (ha : l.Allows key (.unregister k)) :
    let u := { l with client := (l.client.unregister now k).2 }
    u.Sane ∧ Agrees key u := by
  obtain ⟨hroom, hkey⟩ := ha
  rw [Client.unregister]
  split
  · refine ⟨sane_post hs ⟨by simp [Message.double], by simp [Message.double]⟩ _ (hroom trivial), ?_⟩
    by_cases hk : k = key
    · obtain ⟨hpending, hleft⟩ := hkey hk
      refine agrees_post_wanted hs (fun period => ?_) hpending (hroom trivial)
        fun hconnected _ => hleft hconnected
      rw [Table.get?_erase, if_pos hk.symm]
      exact if_pos hk
    · refine agrees_post_other hs h (periodAfter_of_ne hk) ?_ (hroom trivial)
      rw [Table.get?_erase, if_neg (Ne.symm hk)]
  · exact ⟨hs, h⟩

theorem act_post (hs : l.Sane) (h : Agrees key l) {m : Message} (hm : ¬ isRegistration m = true)
    (ha : l.Allows key (.post m)) :
    let u := { l with client := (l.client.post now m).2 }
    u.Sane ∧ Agrees key u := by
  simp only [isRegistration, Bool.or_eq_true, decide_eq_true_eq, not_or] at hm
  obtain ⟨⟨⟨hregister, hunregister⟩, hfilter⟩, hunfilter⟩ := hm
  exact ⟨sane_post hs ⟨hfilter, hunfilter⟩ l.client.registrations (ha.1 trivial),
    agrees_post_other hs h (Broker.periodAfter_of_type hregister hunregister) rfl (ha.1 trivial)⟩

/-- Every step that `Allows` admits keeps the invariant. -/
theorem step_act {a : Action} (hs : l.Sane) (h : Agrees key l) (ha : l.Allows key a)
    (hact : l.act? now a = some u) : u.Sane ∧ Agrees key u := by
  cases a with
  | register k interval =>
    cases hact
    exact act_register hs h ha
  | unregister k =>
    cases hact
    exact act_unregister hs h ha
  | post m =>
    obtain ⟨hm, heq⟩ := Option.ite_none_left_eq_some.1 hact
    cases heq
    exact act_post hs h hm ha
  | connect host w =>
    obtain ⟨hfree, heq⟩ := Option.ite_none_left_eq_some.1 hact
    cases heq
    rw [Bool.or_eq_true, not_or, Bool.not_eq_true, Bool.not_eq_true] at hfree
    exact step_connect hs h hfree.2 host w
  | lookUp =>
    obtain ⟨hdue, heq⟩ := Option.ite_none_right_eq_some.1 hact
    cases heq
    rw [Bool.and_eq_true, Option.isNone_iff_eq_none] at hdue
    exact step_lookUp hs h hdue.2 hdue.1
  | repeatNext =>
    rw [act?] at hact
    split at hact
    · rename_i m ms hreplay
      obtain ⟨hconnected, heq⟩ := Option.ite_none_right_eq_some.1 hact
      cases heq
      exact step_repeatNext hs h hreplay hconnected (ha.1 trivial hconnected)
    · cases hact
  | drain =>
    obtain ⟨hconnected, heq⟩ := Option.ite_none_right_eq_some.1 hact
    cases heq
    exact step_drain hs h hconnected
  | deliver =>
    rw [act?] at hact
    split at hact
    · rename_i ms wire hwire
      obtain ⟨hattached, heq⟩ := Option.ite_none_right_eq_some.1 hact
      cases heq
      exact step_deliver hs h hwire hattached
    · cases hact
  | lose =>
    obtain ⟨-, heq⟩ := Option.ite_none_right_eq_some.1 hact
    cases heq
    exact step_lose hs h
  | part =>
    obtain ⟨-, heq⟩ := Option.ite_none_right_eq_some.1 hact
    cases heq
    exact step_part hs h
  | other op =>
    obtain ⟨hop, heq⟩ := Option.ite_none_right_eq_some.1 hact
    cases heq
    exact step_other hs h hop

/-! ## Runs -/

theorem step_run {actions : List (Float × Action)} (hs : l.Sane) (h : Agrees key l)
    (hc : l.Careful key actions) (hrun : l.run? actions = some u) : u.Sane ∧ Agrees key u := by
  induction actions generalizing l with
  | nil =>
    cases hrun
    exact ⟨hs, h⟩
  | cons o actions ih =>
    obtain ⟨now, a⟩ := o
    obtain ⟨v, hact, hrest⟩ := Option.bind_eq_some_iff.1 hrun
    obtain ⟨hs, h⟩ := step_act hs h hc.1 hact
    exact ih hs h (hc.2 v hact) hrest

/-- Once all has been sent and processed, the broker has the client subscribed to a key if and only
if the client remembers a registration of it, and with its interval as the period. -/
theorem registrations_agree (config : Client.Config) (broker : Broker.Config) (startTime : Float)
    (actions : List (Float × Action)) (l : Link) (key : String)
    (hfront : config.newestFirst = false)
    (h : (start config broker startTime).run? actions = some l)
    (hc : (start config broker startTime).Careful key actions) (hl : l.Settled) :
    l.broker.period? l.name key = wanted l.client key := by
  obtain ⟨-, hagrees⟩ :=
    step_run (sane_start config hfront broker startTime) (agrees_start config broker startTime key)
      hc h
  have htold := hagrees.told hl.connected hl.attached fun hdue => by
    rw [hl.repeated] at hdue
    cases hdue
  -- nothing is ahead any more
  rwa [ahead, unrepeated, hl.processed, hl.sent, hl.repeated] at htold

/-- The client `A` and a broker, for runs of fixed steps. -/
def startZero : Link := start { serverAddress := "", name := "A" } (.ofCommunity "#1") 0.0

/-- The server welcomes `A`. -/
def welcomed : Action :=
  .connect "" { skew := 0.0, asynchronous := true, hostname := "", community := "#1" }

/-- `A` takes its registration for `X` back while it is disconnected, and registers for `Z`. A
message that registers for `Y` is left in its outbox. -/
def carefulRun : List (Float × Action) := [
  (0.0, welcomed), (0.0, .lookUp), (0.0, .register "X" (-1.0)), (0.0, .drain), (0.0, .deliver),
  (1.0, .register "Y" 2.0), (1.0, .lose), (1.0, .part),
  (2.0, .unregister "X"), (2.0, .register "Z" (-1.0)),
  (3.0, welcomed), (3.0, .lookUp), (3.0, .repeatNext), (3.0, .repeatNext), (3.0, .drain),
  (3.0, .other (.receive "B" [.double .notify "Z" 1.0 3.0])), (3.0, .deliver)]

theorem registrations_agree_carefulRun :
    ∃ l, startZero.run? carefulRun = some l ∧ l.Settled ∧
      (∀ key ∈ ["X", "Y", "Z"], startZero.Careful key carefulRun) ∧
      l.broker.period? "A" "X" = none ∧ l.broker.period? "A" "Y" = some 2.0 ∧
      l.broker.period? "A" "Z" = some 0.0 := by
  have hrun : (startZero.run? carefulRun).any (fun l => l.Settled ∧ l.name = "A" ∧
      wanted l.client "X" = none ∧ wanted l.client "Y" = some 2.0 ∧
      wanted l.client "Z" = some 0.0) = true := by decide +kernel
  have hcareful : ∀ key ∈ ["X", "Y", "Z"], startZero.Careful key carefulRun := by decide +kernel
  obtain ⟨l, hl, hfacts⟩ := (Option.any_eq_true ..).1 hrun
  obtain ⟨hsettled, hname, hx, hy, hz⟩ := of_decide_eq_true hfacts
  have hagree (key : String) (hc : startZero.Careful key carefulRun) :
      l.broker.period? "A" key = wanted l.client key := by
    rw [← hname]
    exact registrations_agree _ _ _ _ l key rfl hl hc hsettled
  refine ⟨l, hl, hsettled, hcareful, ?_, ?_, ?_⟩
  · exact (hagree "X" (hcareful _ (by decide))).trans hx
  · exact (hagree "Y" (hcareful _ (by decide))).trans hy
  · exact (hagree "Z" (hcareful _ (by decide))).trans hz

/-- The message that registers for `X` is not sent before the connection is lost, and the
registration is taken back before the next one. -/
def leftRun : List (Float × Action) := [
  (0.0, welcomed), (0.0, .lookUp), (0.0, .register "X" 1.0), (0.0, .lose), (0.0, .part),
  (1.0, .unregister "X"), (2.0, welcomed), (2.0, .lookUp), (2.0, .drain), (2.0, .deliver)]

/-- The registration is taken back when it has been looked up to be repeated. -/
def repeatedRun : List (Float × Action) := [
  (0.0, .register "X" 1.0), (1.0, welcomed), (1.0, .lookUp), (1.0, .unregister "X"),
  (1.0, .repeatNext), (1.0, .drain), (1.0, .deliver)]

/-- The client is subscribed to a variable of which it remembers no registration. -/
theorem older_registration_comes_last :
    (∃ l, startZero.run? leftRun = some l ∧ l.Settled ∧
      wanted l.client "X" = none ∧ l.broker.period? "A" "X" = some 1.0) ∧
    ∃ l, startZero.run? repeatedRun = some l ∧ l.Settled ∧
      wanted l.client "X" = none ∧ l.broker.period? "A" "X" = some 1.0 := by
  have hruns : ∀ actions ∈ [leftRun, repeatedRun], (startZero.run? actions).any (fun l =>
      l.Settled ∧ wanted l.client "X" = none ∧ l.broker.period? "A" "X" = some 1.0) = true := by
    decide +kernel
  have hends (actions : List (Float × Action)) (h : actions ∈ [leftRun, repeatedRun]) :
      ∃ l, startZero.run? actions = some l ∧ l.Settled ∧
        wanted l.client "X" = none ∧ l.broker.period? "A" "X" = some 1.0 := by
    obtain ⟨l, hl, hfacts⟩ := (Option.any_eq_true ..).1 (hruns actions h)
    exact ⟨l, hl, of_decide_eq_true hfacts⟩
  exact ⟨hends leftRun (by simp), hends repeatedRun (by simp)⟩

end Link

end PubSub

import PubSub.Proofs.Client.Link
import PubSub.Proofs.Client.Sending

/-!
# Registrations on one connection

A client that registers for variables and takes registrations back while it is connected sends a
message for each call. The messages that it has made up between two packets go into the second one
(`Link.calls`), oldest first, or newest first if the client pushes to the front of its outbox. The
broker processes a packet message by message, so the message that comes last in it decides: the
newest one, or the oldest one.

Once everything has been sent and processed, a client that pushes to the back is subscribed as it
remembers it; one that pushes to the front is subscribed as the oldest call about the variable has
it, of those in the last packet that has any (`Link.period_of_calls`). The two differ if the client
changes its mind between two packets (`Link.newest_first_reverses_calls`).
-/

namespace PubSub

namespace Link

/-- A step that does not concern the connection itself. -/
def Action.Lasts : Action → Prop
  | .register _ _ | .unregister _ | .post _ | .drain | .deliver | .other _ => True
  | .connect _ _ | .lookUp | .repeatNext | .lose | .part => False

instance : (a : Action) → Decidable a.Lasts
  | .register _ _ | .unregister _ | .post _ | .drain | .deliver | .other _ =>
    inferInstanceAs (Decidable True)
  | .connect _ _ | .lookUp | .repeatNext | .lose | .part => inferInstanceAs (Decidable False)

/-- Whether the client, if it is connected, sends a message in a step. A registration that there is
not cannot be taken back. -/
def Sends (l : Link) : Action → Prop
  | .register _ _ | .post _ | .repeatNext => True
  | .unregister key => l.client.registrations.contains key = true
  | .connect _ _ | .lookUp | .drain | .deliver | .lose | .part | .other _ => False

instance (l : Link) : (a : Action) → Decidable (l.Sends a)
  | .register _ _ | .post _ | .repeatNext => inferInstanceAs (Decidable True)
  | .unregister _ => inferInstanceAs (Decidable (_ = true))
  | .connect _ _ | .lookUp | .drain | .deliver | .lose | .part | .other _ =>
    inferInstanceAs (Decidable False)

/-- A run on one connection, in which the outbox always has room. -/
def Steady : Link → List (Float × Action) → Prop
  | _, [] => True
  | l, (now, a) :: actions =>
    (a.Lasts ∧ (l.Sends a → l.client.outbox.excess = 0)) ∧ ∀ u ∈ l.act? now a, Steady u actions

instance instDecidableSteady : (l : Link) → (actions : List (Float × Action)) →
    Decidable (Steady l actions)
  | _, [] => inferInstanceAs (Decidable True)
  | l, (now, a) :: actions =>
    have (u : Link) := instDecidableSteady u actions
    inferInstanceAs (Decidable ((a.Lasts ∧ (l.Sends a → l.client.outbox.excess = 0)) ∧
      ∀ u ∈ l.act? now a, Steady u actions))

/-- A client that has just been welcomed for the first time, and the broker. -/
def joined (config : Client.Config) (broker : Broker) (now : Float) (host : String)
    (w : Handshake.Welcome) : Link :=
  { client := (Client.start config).accept host w
    broker := broker.connect now config.name
    attached := true }

/-- The calls of a client about a key for which it sends a message. Of each call there is the period
that it asks for, or `none` if it takes the registration back. -/
structure Calls where
  /-- The calls whose messages have been sent, packet by packet. -/
  sent : List (List (Option Float)) := []
  /-- The calls whose messages are in the outbox. -/
  fresh : List (Option Float) := []

/-- The calls packet by packet, with those that the next packet will bring. -/
def Calls.packets (calls : Calls) : List (List (Option Float)) := calls.sent ++ [calls.fresh]

/-- What a step asks for, if it is a call about a key for which a message is sent. -/
def call? (l : Link) (key : String) : Action → Option (Option Float)
  | .register k interval => if k = key then some (some (Bounds.raised interval)) else none
  | .unregister k => if k = key ∧ l.client.registrations.contains k then some none else none
  | .post _ | .connect _ _ | .lookUp | .repeatNext | .drain | .deliver | .lose | .part
  | .other _ => none

/-- The calls with another one, if it is about the key. -/
def Calls.add (calls : Calls) (call : Option (Option Float)) : Calls :=
  { calls with fresh := calls.fresh ++ call.toList }

/-- The calls after a step. -/
def Calls.after (calls : Calls) (l : Link) (key : String) : Action → Calls
  | .drain => { sent := calls.packets }
  | a => calls.add (l.call? key a)

/-- The calls about a key after a run. -/
def calls (key : String) : Link → List (Float × Action) → Calls → Calls
  | _, [], calls => calls
  | l, (now, a) :: actions, before =>
    (l.act? now a).elim before fun u => u.calls key actions (before.after l key a)

/-- What the last of some calls asks for. -/
def latest (calls : List (Option Float)) : Option Float := calls.getLast?.getD none

/-! ## What messages ask for -/

/-- What a message says about a key, if it is about a registration of it. -/
def wish? (key : String) (m : Message) : Option (Option Float) :=
  if m.key = key then
    match m.type with
    | .register => some (some (Bounds.raised m.value))
    | .unregister => some none
    | _ => none
  else none

theorem periodAfter_eq (key : String) (period : Option Float) (m : Message) :
    Broker.periodAfter key period m = (wish? key m).getD period := by
  rw [Broker.periodAfter, wish?]
  split
  · cases m.type <;> rfl
  · rfl

/-- The last message about a key decides. -/
theorem foldl_periodAfter (key : String) (ms : List Message) (period : Option Float) :
    ms.foldl (Broker.periodAfter key) period =
      (ms.filterMap (wish? key)).getLast?.getD period := by
  induction ms generalizing period with
  | nil => rfl
  | cons m ms ih =>
    rw [List.foldl_cons, ih, periodAfter_eq]
    cases hm : wish? key m with
    | none => rw [List.filterMap_cons_none hm, Option.getD_none]
    | some w =>
      rw [List.filterMap_cons_some hm, List.getLast?_cons, Option.getD_some, Option.getD_some]

theorem Completed.wish? {m m' : Message} (h : Completed m m') (key : String) :
    Link.wish? key m' = Link.wish? key m := by
  rw [Link.wish?, h.key, h.type, h.value, Link.wish?]

theorem wish?_of_type {key : String} {m : Message} (hregister : m.type ≠ .register)
    (hunregister : m.type ≠ .unregister) : wish? key m = none := by
  rw [wish?]
  split
  · split
    · contradiction
    · contradiction
    · rfl
  · rfl

theorem latest_append_toList (calls : List (Option Float)) (call : Option (Option Float)) :
    latest (calls ++ call.toList) = call.getD (latest calls) := by
  cases call with
  | none => rw [Option.toList_none, List.append_nil, Option.getD_none]
  | some period =>
    rw [latest, Option.toList_some, List.getLast?_concat, Option.getD_some, Option.getD_some]

theorem filterMap_concat {α β : Type} (f : α → Option β) (xs : List α) (x : α) :
    (xs ++ [x]).filterMap f = xs.filterMap f ++ (f x).toList :=
  List.filterMap_append

end Link

namespace Mailbox

/-- The newest element if pushes go to the back, the oldest one if they go to the front. -/
def End.hindmost? {α : Type} (e : End) (xs : List α) : Option α := (e.oldestFirst xs).getLast?

theorem End.hindmost?_of_length_le {α : Type} (e : End) {xs : List α} (h : xs.length ≤ 1) :
    e.hindmost? xs = xs.getLast? := by
  match e, xs with
  | .back, _ => rfl
  | .front, [] | .front, [_] => rfl

end Mailbox

namespace Link

/-! ## The invariant -/

/-- The client and the broker stand as the calls about a key have it. -/
structure Stands (config : Client.Config) (key : String) (calls : Calls) (l : Link) : Prop where
  config_eq : l.client.config = config
  connected : l.client.connected = true
  named : l.broker.Named
  unfiltered : l.broker.filtersOf config.name = []
  plain : ∀ m ∈ l.wire.flatten ++ l.client.outbox.messages, Broker.Plain m
  /-- The client remembers what it has asked for last. -/
  remembers : wanted l.client key = latest calls.packets.flatten
  /-- The outbox has the messages of the calls that have not been sent. -/
  unsent : l.client.unsent.filterMap (wish? key) = calls.fresh
  /-- The last packet with any call about the key decides, by the message that is processed last. -/
  told : l.wire.flatten.foldl (Broker.periodAfter key) (l.broker.period? config.name key) =
    latest (calls.sent.filterMap config.pushesTo.hindmost?)

variable {config : Client.Config} {key : String} {calls : Calls} {l u : Link} {now : Float}

theorem stands_joined (config : Client.Config) (brokerConfig : Broker.Config) (startTime : Float)
    {earlier : List (Float × Broker.Op)} (hearlier : ∀ o ∈ earlier, o.2.Foreign config.name)
    (joinTime : Float) (host : String) (w : Handshake.Welcome) (key : String) :
    (joined config (Broker.performAll earlier (.start brokerConfig startTime)) joinTime host
      w).Stands config key {} := by
  have hstart : Broker.After config.name [] (.start brokerConfig startTime)
      (Broker.performAll earlier (.start brokerConfig startTime)) :=
    List.foldlRecOn earlier _ (.refl (Broker.named_start brokerConfig startTime) rfl) fun _ h o ho =>
      h.perform o.1 o.2 (hearlier o ho)
  have hjoined := hstart.perform joinTime (.connect config.name) trivial
  exact {
    config_eq := rfl
    connected := rfl
    named := hjoined.named
    unfiltered := hjoined.filters
    plain := fun _ hm => absurd hm List.not_mem_nil
    remembers := rfl
    unsent := by
      show (config.pushesTo.oldestFirst []).filterMap _ = []
      rw [Mailbox.End.oldestFirst_nil, List.filterMap_nil]
    told := (hjoined.periods key).trans (Broker.period?_start ..) }

/-! ## Steps -/

/-- The client changes what it remembers and posts a message. -/
theorem Stands.post (h : l.Stands config key calls) (registrations : Table Float) {m : Message}
    (hm : Broker.Plain m) (hroom : l.client.outbox.excess = 0)
    (hremembers : (registrations.get? key).map Bounds.raised =
      (wish? key m).getD (wanted l.client key)) :
    Stands config key (calls.add (wish? key m))
      { l with client := (Client.post { l.client with registrations } now m).2 } := by
  set c : Client := { l.client with registrations }
  rw [post_of_connected (c := c) h.connected]
  obtain ⟨m', nextId, hm', heq⟩ := complete_eq c now m
  have hunsent : (c.send now m).unsent = l.client.unsent ++ [m'] := by
    rw [Client.unsent_send, heq, show c.outbox.excess = 0 from hroom, List.drop_zero]
    rfl
  exact {
    config_eq := (Client.config_send ..).trans h.config_eq
    connected := (Client.connected_send ..).trans h.connected
    named := h.named
    unfiltered := h.unfiltered
    plain := fun x hx => by
      rcases List.mem_append.1 hx with hx | hx
      · exact h.plain x (List.mem_append_left _ hx)
      rw [← Client.mem_unsent, hunsent, List.mem_append, List.mem_singleton, Client.mem_unsent] at hx
      rcases hx with hx | rfl
      · exact h.plain x (List.mem_append_right _ hx)
      · rw [Broker.Plain, hm'.type]
        exact hm
    remembers := by
      rw [wanted, Client.registrations_send, hremembers, h.remembers, ← latest_append_toList]
      simp [Calls.add, Calls.packets]
    unsent := by
      rw [hunsent, filterMap_concat, h.unsent, hm'.wish? key, Calls.add]
    told := h.told }

@[simp] theorem Calls.add_none (calls : Calls) : calls.add none = calls := by
  simp [Calls.add]

theorem Stands.register (h : l.Stands config key calls) {k : String} {interval : Float}
    (hroom : l.client.outbox.excess = 0) :
    Stands config key (calls.add (l.call? key (.register k interval)))
      { l with client := l.client.register now k interval } := by
  refine h.post _ (m := Client.registerMessage k interval (-1.0)) ⟨?_, ?_⟩ hroom ?_
  · simp [Client.registerMessage, Message.double]
  · simp [Client.registerMessage, Message.double]
  · rw [Table.get?_insert, wanted]
    by_cases hk : k = key <;> simp [wish?, Client.registerMessage, Message.double, hk, Ne.symm]

theorem Stands.unregister (h : l.Stands config key calls) {k : String}
    (hroom : l.client.registrations.contains k = true → l.client.outbox.excess = 0) :
    Stands config key (calls.add (l.call? key (.unregister k)))
      { l with client := (l.client.unregister now k).2 } := by
  rw [Client.unregister]
  split
  · rename_i hcontains
    have hcall : l.call? key (.unregister k) = wish? key (.double .unregister k 0.0 (-1.0)) := by
      rw [call?, wish?]
      exact if_congr (and_iff_left hcontains) rfl rfl
    rw [hcall]
    refine h.post _ ⟨by simp [Message.double], by simp [Message.double]⟩ (hroom hcontains) ?_
    rw [Table.get?_erase, wanted]
    by_cases hk : k = key <;> simp [wish?, Message.double, hk, Ne.symm]
  · rename_i hcontains
    rw [call?, if_neg fun hk => hcontains hk.2, Calls.add_none]
    exact h

theorem Stands.post_other (h : l.Stands config key calls) {m : Message}
    (hm : ¬ isRegistration m = true) (hroom : l.client.outbox.excess = 0) :
    Stands config key calls { l with client := (l.client.post now m).2 } := by
  simp only [isRegistration, Bool.or_eq_true, decide_eq_true_eq, not_or] at hm
  obtain ⟨⟨⟨hregister, hunregister⟩, hfilter⟩, hunfilter⟩ := hm
  have hnone : wish? key m = none := wish?_of_type hregister hunregister
  have hpost : Stands config key (calls.add (wish? key m))
      { l with client := (l.client.post now m).2 } :=
    h.post l.client.registrations ⟨hfilter, hunfilter⟩ hroom (by rw [hnone]; rfl)
  rwa [hnone, Calls.add_none] at hpost

/-- The messages in the outbox ask for what the calls do that have not been sent. -/
theorem Stands.outbox (h : l.Stands config key calls) :
    l.client.outbox.messages.filterMap (wish? key) = config.pushesTo.oldestFirst calls.fresh := by
  have hunsent := h.unsent
  rw [Client.unsent, h.config_eq, Mailbox.End.oldestFirst_filterMap] at hunsent
  rw [← hunsent, Mailbox.End.oldestFirst_oldestFirst]

/-- The calls that the outbox has the messages of become a packet of their own. -/
theorem Stands.drain (h : l.Stands config key calls) :
    Stands config key { sent := calls.packets } { l with
      client := (l.client.takeOutgoing now).2
      wire := l.wire ++ [(l.client.takeOutgoing now).1] } := by
  obtain ⟨ms, heq, hmem, hfold⟩ := takeOutgoing_eq l.client now
  rw [heq]
  exact {
    config_eq := h.config_eq
    connected := h.connected
    named := h.named
    unfiltered := h.unfiltered
    plain := fun m hm => by
      rw [List.flatten_concat, show l.client.outbox.clear.messages = [] from rfl,
        List.append_nil] at hm
      rcases List.mem_append.1 hm with hm | hm
      · exact h.plain m (List.mem_append_left _ hm)
      rcases hmem m hm with hm | htype
      · exact h.plain m (List.mem_append_right _ hm)
      · rw [Broker.Plain, htype]
        decide
    remembers := by
      rw [Calls.packets, List.flatten_concat, List.append_nil]
      exact h.remembers
    unsent := by
      show (l.client.config.pushesTo.oldestFirst []).filterMap _ = []
      rw [Mailbox.End.oldestFirst_nil, List.filterMap_nil]
    told := by
      show (l.wire ++ [ms]).flatten.foldl _ _ = latest (calls.packets.filterMap _)
      rw [List.flatten_concat, List.foldl_append, hfold, h.told, foldl_periodAfter, h.outbox,
        Calls.packets, filterMap_concat, latest_append_toList, Mailbox.End.hindmost?] }

theorem Stands.deliver (h : l.Stands config key calls) {ms : List Message}
    {wire : List (List Message)} (hwire : l.wire = ms :: wire) :
    Stands config key calls
      { l with broker := (l.broker.receive now l.name ms).2, wire } := by
  have hname : l.name = config.name := congrArg Client.Config.name h.config_eq
  have hplain := h.plain
  rw [hwire, List.flatten_cons, List.append_assoc] at hplain
  have hafter : Broker.After config.name ms l.broker (l.broker.receive now config.name ms).2 :=
    Broker.after_receive (fun m hm => hplain m (List.mem_append_left _ hm)) h.named h.unfiltered
  rw [hname]
  exact { h with
    named := hafter.named
    unfiltered := hafter.filters
    plain := fun m hm => hplain m (List.mem_append_right _ hm)
    told := by
      have htold := h.told
      rw [hwire, List.flatten_cons, List.foldl_append, ← hafter.periods key] at htold
      exact htold }

theorem Stands.other (h : l.Stands config key calls) {op : Broker.Op} (hop : op.Foreign l.name) :
    Stands config key calls { l with broker := op.perform now l.broker } := by
  have hname : l.name = config.name := congrArg Client.Config.name h.config_eq
  have hafter : Broker.After config.name [] l.broker (op.perform now l.broker) :=
    Broker.after_perform (hname ▸ hop) h.named h.unfiltered
  have hperiod : (op.perform now l.broker).period? config.name key =
      l.broker.period? config.name key := hafter.periods key
  exact { h with
    named := hafter.named
    unfiltered := hafter.filters
    told := by
      rw [hperiod]
      exact h.told }

/-- Every step of a steady run keeps the invariant. -/
theorem Stands.act (h : l.Stands config key calls) {a : Action} (hlasts : a.Lasts)
    (hroom : l.Sends a → l.client.outbox.excess = 0) (hact : l.act? now a = some u) :
    Stands config key (calls.after l key a) u := by
  cases a with
  | register k interval =>
    cases hact
    exact h.register (hroom trivial)
  | unregister k =>
    cases hact
    exact h.unregister hroom
  | post m =>
    obtain ⟨hm, heq⟩ := Option.ite_none_left_eq_some.1 hact
    cases heq
    show Stands config key (calls.add none) _
    rw [Calls.add_none]
    exact h.post_other hm (hroom trivial)
  | drain =>
    obtain ⟨-, heq⟩ := Option.ite_none_right_eq_some.1 hact
    cases heq
    exact h.drain
  | deliver =>
    rw [act?] at hact
    show Stands config key (calls.add none) _
    rw [Calls.add_none]
    split at hact
    · rename_i ms wire hwire
      obtain ⟨-, heq⟩ := Option.ite_none_right_eq_some.1 hact
      cases heq
      exact h.deliver hwire
    · cases hact
  | other op =>
    obtain ⟨hop, heq⟩ := Option.ite_none_right_eq_some.1 hact
    cases heq
    show Stands config key (calls.add none) _
    rw [Calls.add_none]
    exact h.other hop
  | connect host w => cases hlasts
  | lookUp => cases hlasts
  | repeatNext => cases hlasts
  | lose => cases hlasts
  | part => cases hlasts

/-! ## Runs -/

theorem Stands.run {actions : List (Float × Action)} (h : l.Stands config key calls)
    (hsteady : l.Steady actions) (hrun : l.run? actions = some u) :
    Stands config key (l.calls key actions calls) u := by
  induction actions generalizing l calls with
  | nil =>
    cases hrun
    exact h
  | cons o actions ih =>
    obtain ⟨now, a⟩ := o
    obtain ⟨v, hact, hrest⟩ := Option.bind_eq_some_iff.1 hrun
    obtain ⟨⟨hlasts, hroom⟩, hnext⟩ := hsteady
    rw [Link.calls, hact]
    exact ih (h.act hlasts hroom hact) (hnext v hact) hrest

/-- The last one of several lists with anything in them decides. -/
theorem latest_flatten (packets : List (List (Option Float))) :
    latest packets.flatten = latest (packets.filterMap List.getLast?) := by
  induction packets using List.reverseRecOn with
  | nil => rfl
  | append_singleton packets packet ih =>
    rw [filterMap_concat, latest_append_toList, ← ih, List.flatten_concat, latest,
      List.getLast?_append, Option.getD_or, latest]

/-- When all has been sent and processed, the last packet with any call about a key decides. -/
theorem Stands.period (h : l.Stands config key calls) (hsent : l.client.outbox.messages = [])
    (hprocessed : l.wire = []) : l.broker.period? config.name key =
      latest (calls.packets.filterMap config.pushesTo.hindmost?) := by
  have hfresh : calls.fresh = [] := by
    rw [← h.unsent, Client.unsent, hsent, Mailbox.End.oldestFirst_nil, List.filterMap_nil]
  have hnone : config.pushesTo.hindmost? ([] : List (Option Float)) = none := by
    rw [Mailbox.End.hindmost?, Mailbox.End.oldestFirst_nil, List.getLast?_nil]
  have htold := h.told
  rw [hprocessed] at htold
  rw [Calls.packets, hfresh, filterMap_concat, hnone, latest_append_toList, ← htold]
  rfl

/-- What a client and the broker have after any calls on one connection, when all has been sent and
processed. The client remembers what it has asked for last. If it pushes to the back of its outbox,
it is subscribed as it remembers it. If it pushes to the front, it is subscribed as the oldest call
about the variable has it, of those in the last packet that has any. This is no difference if no
packet has two calls about the variable. -/
theorem period_of_calls (config : Client.Config) (brokerConfig : Broker.Config) (startTime : Float)
    (earlier : List (Float × Broker.Op)) (joinTime : Float) (host : String) (w : Handshake.Welcome)
    (actions : List (Float × Action)) (l : Link) (key : String) :
    let b := Broker.performAll earlier (.start brokerConfig startTime)
    let first := joined config b joinTime host w
    let packets := (first.calls key actions {}).packets
    (∀ o ∈ earlier, o.2.Foreign config.name) → first.Steady actions →
      first.run? actions = some l → l.client.outbox.messages = [] → l.wire = [] →
      wanted l.client key = latest packets.flatten ∧
      (config.newestFirst = false → l.broker.period? config.name key = wanted l.client key) ∧
      (config.newestFirst = true →
        l.broker.period? config.name key = latest (packets.filterMap List.head?)) ∧
      ((∀ packet ∈ packets, packet.length ≤ 1) →
        l.broker.period? config.name key = wanted l.client key) := by
  intro b first packets hearlier hsteady hrun hsent hprocessed
  have h : l.Stands config key (first.calls key actions {}) :=
    (stands_joined config brokerConfig startTime hearlier joinTime host w key).run hsteady hrun
  have hperiod : l.broker.period? config.name key =
      latest (packets.filterMap config.pushesTo.hindmost?) := h.period hsent hprocessed
  have hlast (heq : packets.filterMap config.pushesTo.hindmost? = packets.filterMap List.getLast?) :
      l.broker.period? config.name key = wanted l.client key := by
    rw [hperiod, heq, ← latest_flatten]
    exact h.remembers.symm
  refine ⟨h.remembers, fun hback => hlast ?_, fun hfront => ?_, fun hfew => hlast ?_⟩
  · rw [Client.Config.pushesTo, hback]
    rfl
  · rw [hperiod, Client.Config.pushesTo, hfront]
    congr 2
    funext packet
    exact List.getLast?_reverse
  · exact List.filterMap_congr fun packet hpacket =>
      Mailbox.End.hindmost?_of_length_le _ (hfew packet hpacket)

/-- The client `A`, which has just been welcomed by a broker that has just started. -/
def joinedZero (newestFirst : Bool) : Link :=
  joined { serverAddress := "", name := "A", newestFirst } (.start (.ofCommunity "#1") 0.0) 0.0 ""
    { skew := 0.0, asynchronous := true, hostname := "", community := "#1" }

/-- `A` changes its mind about `X` and about `Y`, but sends a packet in between. -/
def patientRun : List (Float × Action) := [
  (0.0, .register "X" (-1.0)), (0.0, .register "Y" 1.0), (0.0, .drain),
  (1.0, .unregister "Y"), (1.0, .deliver), (1.0, .register "X" 2.0), (1.0, .unregister "Z"),
  (1.0, .drain), (2.0, .other (.receive "B" [.double .notify "X" 1.0 2.0])), (2.0, .deliver)]

theorem period_of_calls_patientRun : ∀ newestFirst : Bool,
    ∃ l, (joinedZero newestFirst).run? patientRun = some l ∧
      (joinedZero newestFirst).Steady patientRun ∧ l.client.outbox.messages = [] ∧ l.wire = [] ∧
      l.broker.period? "A" "X" = some 2.0 ∧ l.broker.period? "A" "Y" = none := by
  intro newestFirst
  have hrun : ∀ newestFirst : Bool, ((joinedZero newestFirst).run? patientRun).any (fun l =>
      l.client.outbox.messages = [] ∧ l.wire = [] ∧
        wanted l.client "X" = some 2.0 ∧ wanted l.client "Y" = none) = true := by
    decide +kernel
  have hsteady : ∀ newestFirst : Bool, (joinedZero newestFirst).Steady patientRun := by
    decide +kernel
  have hfew : ∀ newestFirst : Bool, ∀ key ∈ ["X", "Y"],
      ∀ packet ∈ ((joinedZero newestFirst).calls key patientRun {}).packets,
        packet.length ≤ 1 := by
    decide +kernel
  obtain ⟨l, hl, hfacts⟩ := (Option.any_eq_true ..).1 (hrun newestFirst)
  obtain ⟨hsent, hprocessed, hx, hy⟩ := of_decide_eq_true hfacts
  have hagree (key : String) (hkey : key ∈ ["X", "Y"]) :
      l.broker.period? "A" key = wanted l.client key := by
    obtain ⟨-, -, -, h⟩ := period_of_calls _ _ _ [] _ _ _ patientRun l key
      (List.forall_mem_nil _) (hsteady newestFirst) hl hsent hprocessed
    exact h (hfew newestFirst key hkey)
  refine ⟨l, hl, hsteady newestFirst, hsent, hprocessed, ?_, ?_⟩
  · exact (hagree "X" (by decide)).trans hx
  · exact (hagree "Y" (by decide)).trans hy

/-- `A` registers for `X` and takes the registration back before anything is sent. -/
def withdrawnRun : List (Float × Action) := [
  (0.0, .register "X" 1.0), (0.0, .unregister "X"), (0.0, .drain), (0.0, .deliver)]

/-- `A` takes a registration back and registers anew before anything is sent. -/
def renewedRun : List (Float × Action) := [
  (0.0, .register "X" 1.0), (0.0, .drain), (0.0, .deliver),
  (1.0, .unregister "X"), (1.0, .register "X" 2.0), (1.0, .drain), (1.0, .deliver)]

/-- A client that pushes to the front is subscribed to a variable of which it remembers no
registration, or the other way round. -/
theorem newest_first_reverses_calls :
    (∃ l, (joinedZero true).run? withdrawnRun = some l ∧ (joinedZero true).Steady withdrawnRun ∧
      l.client.outbox.messages = [] ∧ l.wire = [] ∧
      wanted l.client "X" = none ∧ l.broker.period? "A" "X" = some 1.0) ∧
    ∃ l, (joinedZero true).run? renewedRun = some l ∧ (joinedZero true).Steady renewedRun ∧
      l.client.outbox.messages = [] ∧ l.wire = [] ∧
      wanted l.client "X" = some 2.0 ∧ l.broker.period? "A" "X" = none := by
  have hwithdrawn : ((joinedZero true).run? withdrawnRun).any (fun l =>
      (joinedZero true).Steady withdrawnRun ∧ l.client.outbox.messages = [] ∧ l.wire = [] ∧
        wanted l.client "X" = none ∧ l.broker.period? "A" "X" = some 1.0) = true := by
    decide +kernel
  have hrenewed : ((joinedZero true).run? renewedRun).any (fun l =>
      (joinedZero true).Steady renewedRun ∧ l.client.outbox.messages = [] ∧ l.wire = [] ∧
        wanted l.client "X" = some 2.0 ∧ l.broker.period? "A" "X" = none) = true := by
    decide +kernel
  obtain ⟨l, hl, hfacts⟩ := (Option.any_eq_true ..).1 hwithdrawn
  obtain ⟨l', hl', hfacts'⟩ := (Option.any_eq_true ..).1 hrenewed
  exact ⟨⟨l, hl, of_decide_eq_true hfacts⟩, l', hl', of_decide_eq_true hfacts'⟩

end Link

end PubSub

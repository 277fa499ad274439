import PubSub.Proofs.Client.Delivery
import PubSub.Proofs.Client.Sending
import PubSub.Proofs.Filter
import PubSub.Proofs.Wire.Message

/-!
# The registrations that a client repeats

When the server has welcomed a client, the client puts all that it remembers into its outbox: its
registrations and its filters. The outbox is bounded, so the new messages drive out old ones, and if
they are too many for it, also each other: what the outbox is left with are the newest messages
(`Client.outbox_welcome`). All registrations are repeated if the outbox has room for as many messages
as there are registrations and filters; otherwise the first of them are lost
(`Client.registration_not_repeated`).
-/

namespace PubSub

namespace Message

/-- A message as a client puts it into its outbox: with another source, id and time. -/
def Becomes (m x : Message) : Prop := ∃ source id time, x = { m with source, id, time }

end Message

namespace Mailbox

theorem drop_excess (b : Mailbox) {xs : List Message} (h : xs.length = b.messages.length)
    (m : Message) : xs.drop b.excess ++ [m] = (xs ++ [m]).rtake b.limit := by
  obtain ⟨n, hn⟩ : ∃ n, b.limit = n + 1 := Nat.exists_eq_add_one.2 b.limit_pos
  rw [hn, List.rtake_concat_succ, List.rtake, excess, hn, h, Nat.add_sub_add_right]

theorem limit_push (e : End) (b : Mailbox) (m : Message) : (b.push e m).2.limit = b.limit := by
  cases e <;> rfl

end Mailbox

namespace Client

variable (c : Client) (now : Float)

/-! ## What is put into the outbox -/

theorem becomes_complete (m : Message) : m.Becomes (c.complete now m).1 := by
  rw [complete]
  split <;> exact ⟨_, _, _, rfl⟩

/-- Each message is put into the outbox, in the same order. -/
theorem becomes_completed (ms : List Message) :
    List.Forall₂ Message.Becomes ms (c.completed now ms) := by
  induction ms generalizing c with
  | nil => exact .nil
  | cons m ms ih => exact .cons (becomes_complete c now m) (ih _)

theorem exists_mem_completed {ms : List Message} {m : Message} (hm : m ∈ ms) :
    ∃ x ∈ c.completed now ms, m.Becomes x := by
  obtain ⟨i, hi, rfl⟩ := List.getElem_of_mem hm
  obtain ⟨hlength, hall⟩ := List.forall₂_iff_get.1 (becomes_completed c now ms)
  exact ⟨_, List.get_mem .., hall i hi (hlength ▸ hi)⟩

theorem unsent_send_eq_rtake (m : Message) :
    (c.send now m).unsent = (c.unsent ++ [(c.complete now m).1]).rtake c.outbox.limit := by
  have hlength : c.unsent.length = c.outbox.messages.length := Mailbox.End.length_oldestFirst ..
  rw [unsent_send, c.outbox.drop_excess hlength]

theorem limit_send (m : Message) : (c.send now m).outbox.limit = c.outbox.limit := by
  rw [outbox_send, Mailbox.limit_push]

/-- If any messages are sent, the newest ones are left in the outbox. -/
theorem unsent_sendAll (ms : List Message) :
    (c.sendAll now ms).unsent = if c.completed now ms = [] then c.unsent
      else (c.unsent ++ c.completed now ms).rtake c.outbox.limit := by
  induction ms generalizing c with
  | nil => rfl
  | cons m ms ih =>
    have hsome : c.completed now (m :: ms) ≠ [] := List.cons_ne_nil _ _
    rw [if_neg hsome]
    refine (ih (c.send now m)).trans ?_
    rw [limit_send, unsent_send_eq_rtake, completed]
    split
    · rename_i hnone
      rw [hnone]
    · rw [rtake_rtake_append, List.append_assoc]
      rfl

/-! ## Registrations as messages -/

theorem length_replayMessages :
    (c.replayMessages now).length = c.registrations.entries.length + c.filters.length := by
  rw [replayMessages, List.length_append, List.length_map, List.length_map]

theorem registerMessage_mem_replayMessages {key : String} {interval : Float}
    (h : c.registrations.get? key = some interval) :
    registerMessage key interval (c.time now) ∈ c.replayMessages now :=
  List.mem_append_left _ (List.mem_map.2 ⟨(key, interval), Table.mem_entries_iff.2 h, rfl⟩)

theorem filterMessage_mem_replayMessages {f : Filter} (h : f ∈ c.filters) :
    filterMessage .wildcardRegister f (c.time now) ∈ c.replayMessages now :=
  List.mem_append_right _ (List.mem_map_of_mem h)

/-! ## After a connection -/

/-- What a client that is welcomed puts into its outbox. -/
def repeated (c : Client) (now : Float) (host : String) (w : Handshake.Welcome) : List Message :=
  (c.accept host w).completed now ((c.accept host w).replayMessages now)

section
variable (host : String) (w : Handshake.Welcome)

theorem length_repeated : (c.repeated now host w).length =
    c.registrations.entries.length + c.filters.length := by
  rw [repeated, ← (becomes_completed ..).length_eq]
  exact length_replayMessages (c.accept host w) now

/-- All that is repeated waits if the outbox has room for it. -/
theorem repeated_subset_outbox
    (hroom : c.registrations.entries.length + c.filters.length ≤ c.outbox.limit) :
    c.repeated now host w ⊆ (c.welcome now host w).outbox.messages := by
  intro x hx
  have hunsent : (c.welcome now host w).unsent =
      (c.unsent ++ c.repeated now host w).rtake c.outbox.limit :=
    (unsent_sendAll ..).trans (if_neg (List.ne_nil_of_mem hx))
  rw [← mem_unsent, hunsent, rtake_append,
    rtake_of_length_le ((length_repeated c now host w).trans_le hroom)]
  exact List.mem_append_right _ hx

theorem exists_mem_outbox_welcome
    (hroom : c.registrations.entries.length + c.filters.length ≤ c.outbox.limit) {m : Message}
    (hm : m ∈ (c.accept host w).replayMessages now) :
    ∃ x ∈ (c.welcome now host w).outbox.messages, m.Becomes x := by
  obtain ⟨x, hx, hbecomes⟩ := exists_mem_completed (c.accept host w) now hm
  exact ⟨x, repeated_subset_outbox c now host w hroom hx, hbecomes⟩

end

/-- What waits in the outbox of a client once it has been welcomed, whatever it remembers and
whatever was waiting. One message for each registration and each filter has been put into the outbox,
and the newest messages wait, as many as the outbox may hold. So if it may hold as many as there are
registrations and filters, a message waits for each registration, with its key and interval, and for
each filter, with its text; the text of a filter with plain patterns is read as that filter. -/
theorem outbox_welcome (c : Client) (now : Float) (host : String) (w : Handshake.Welcome) :
    let repeated := c.repeated now host w
    let after := c.welcome now host w
    List.Forall₂ Message.Becomes ((c.accept host w).replayMessages now) repeated ∧
      (after.unsent =
        if repeated = [] then c.unsent else (c.unsent ++ repeated).rtake c.outbox.limit) ∧
      (c.registrations.entries.length + c.filters.length ≤ c.outbox.limit →
        (∀ key interval, c.registrations.get? key = some interval →
          ∃ x ∈ after.outbox.messages,
            x.type = .register ∧ x.key = key ∧ x.value = interval) ∧
        ∀ f ∈ c.filters, ∃ x ∈ after.outbox.messages,
          x.type = .wildcardRegister ∧ x.key = f.keyPattern ∧ x.textValue = f.shown ∧
            (Filter.Plain f.sourcePattern → Filter.Plain f.keyPattern →
              Filter.parse x.textValue = .ok { f with period := Bounds.raised f.period })) := by
  intro repeated after
  refine ⟨becomes_completed .., unsent_sendAll (c.accept host w) now _,
    fun hroom => ⟨fun key interval h => ?_, fun f hf => ?_⟩⟩
  · obtain ⟨x, hx, source, id, time, rfl⟩ := exists_mem_outbox_welcome c now host w hroom
      (registerMessage_mem_replayMessages (c.accept host w) now h)
    exact ⟨_, hx, rfl, rfl, rfl⟩
  · obtain ⟨x, hx, source, id, time, rfl⟩ := exists_mem_outbox_welcome c now host w hroom
      (filterMessage_mem_replayMessages (c.accept host w) now hf)
    have htext := Message.textValue_text .wildcardRegister f.keyPattern f.shown
      ((c.accept host w).time now)
    refine ⟨_, hx, rfl, rfl, htext, fun hsource hkey => ?_⟩
    rw [← Filter.parse_shown_of_plain hsource hkey, ← htext]
    rfl

/-- The server welcomes a client. -/
def welcomeBack : Handshake.Welcome :=
  { skew := 0.0, asynchronous := true, hostname := "", community := "#1" }

/-- A client that has registered for `X` and `Y` and by a filter while it was not connected. -/
def registered (config : Config) : Client :=
  (((start config).register 0.0 "X" 1.0).register 0.0 "Y" 2.0).registerFilter 0.0
    { sourcePattern := "*", keyPattern := "NAV_*", period := 0.5 }

/-- Three messages repeat what the client remembers, and drive out one that was waiting. -/
theorem outbox_welcome_fullOutbox :
    let c := (registered { serverAddress := "", name := "A", outboxLimit := 3 }).send 0.0
      (.double .notify "Z" 1.0 0.0)
    c.registrations.entries.length + c.filters.length ≤ c.outbox.limit ∧
      (∃ x ∈ (c.welcome 0.0 "" welcomeBack).outbox.messages,
        x.type = .register ∧ x.key = "X" ∧ x.value = 1.0) ∧
      ∀ x ∈ (c.welcome 0.0 "" welcomeBack).outbox.messages, x.key ≠ "Z" := by
  intro c
  have hroom : c.registrations.entries.length + c.filters.length ≤ c.outbox.limit := by
    decide +kernel
  have hx : c.registrations.get? "X" = some 1.0 := by decide +kernel
  refine ⟨hroom, ?_, by decide +kernel⟩
  exact ((outbox_welcome c 0.0 "" welcomeBack).2.2 hroom).1 "X" 1.0 hx

/-- With room for two messages, the registration of `X` is not repeated. -/
theorem registration_not_repeated :
    let c := registered { serverAddress := "", name := "A", outboxLimit := 2 }
    c.registrations.get? "X" = some 1.0 ∧
      ∀ x ∈ (c.welcome 0.0 "" welcomeBack).outbox.messages, x.key ≠ "X" := by
  decide +kernel

end Client

end PubSub

import PubSub.Proofs.Broker.Clients
import PubSub.Server.Basic

/-!
# Who holds a name

`Server.holder?` is what the guards see of the sessions: the generation that has a client's name.
For each operation on the sessions there is an equation for the holders after it.

`Server.handled` sums up the handling of an event in four cases: a client is connected; the event is
of a generation that does not hold its client's name, and nothing happens; a packet is processed,
which connects and disconnects nobody (`Alike`); or a session ends and its client is disconnected.
-/

namespace PubSub.Server

/-- The generation of a client's session. -/
def holder? (s : Server) (client : String) : Option Nat :=
  (s.sessions.get? client).map Session.generation

/-- The client and the generation of the connection that an event comes from. -/
def Event.origin? : Event → Option (String × Nat)
  | .connected _ => none
  | .packet client generation _ | .closed client generation | .silent client generation =>
    some (client, generation)

variable {s t u : Server} {clock : Clock} {client c : String} {generation : Nat}

theorem isCurrent_iff :
    s.isCurrent client generation = true ↔ s.holder? client = some generation := by
  rw [isCurrent, holder?, Option.any_eq_true, Option.map_eq_some_iff]
  simp only [beq_iff_eq]

theorem contains_sessions_iff :
    s.sessions.contains client = true ↔ ∃ generation, s.holder? client = some generation := by
  rw [Table.contains, holder?, ← Option.isSome_iff_exists, Option.isSome_map]

/-- Sessions and holders are the same thing. -/
theorem holder?_eq_some_iff :
    s.holder? client = some generation ↔
      ∃ session, (client, session) ∈ s.sessions.entries ∧ session.generation = generation := by
  simp only [holder?, Option.map_eq_some_iff, Table.mem_entries_iff]

/-! ## Beginning and ending a session -/

/-- A connection whose name is taken gets no session. -/
theorem admit?_eq_none {r : Handshake.Request} (h : s.sessions.contains r.name = true) :
    s.admit? clock r generation = none := by
  rw [admit?, if_pos h]

/-- A connection whose name is free holds it from then on. -/
theorem admit?_eq_some {r : Handshake.Request} (h : s.sessions.contains r.name = false) :
    ∃ sessions, s.admit? clock r generation = some { s with sessions } ∧
      ∀ c, holder? { s with sessions } c = if c = r.name then some generation else s.holder? c := by
  refine ⟨_, by rw [admit?, if_neg (by simp [h])], fun c => ?_⟩
  rw [holder?, Table.get?_insert]
  split <;> rfl

/-- Removing a session touches nothing but the sessions. -/
theorem remove_eq (s : Server) (client : String) (generation : Nat) :
    ∃ sessions, s.remove client generation = { s with sessions } := by
  rw [remove]
  split
  · exact ⟨_, rfl⟩
  · exact ⟨_, rfl⟩

theorem holder?_remove (s : Server) (client c : String) (generation : Nat) :
    (s.remove client generation).holder? c =
      if c = client ∧ s.holder? client = some generation then none else s.holder? c := by
  rw [remove]
  by_cases hcurrent : s.isCurrent client generation = true
  · rw [if_pos hcurrent, holder?, Table.get?_erase]
    have hholder := isCurrent_iff.1 hcurrent
    by_cases hc : c = client
    · rw [if_pos hc, if_pos ⟨hc, hholder⟩, Option.map_none]
    · rw [if_neg hc, if_neg fun h => hc h.1, holder?]
  · rw [if_neg hcurrent, if_neg fun h => hcurrent (isCurrent_iff.2 h.2)]

/-! ## Packets -/

/-- Two states of a server that differ at most in what the broker keeps for its clients and in when
the sessions were last active. -/
structure Alike (s t : Server) : Prop where
  holders : ∀ client, t.holder? client = s.holder? client
  events : t.events = s.events
  generations : t.generations = s.generations
  clients : t.broker.clients = s.broker.clients

theorem Alike.refl (s : Server) : s.Alike s := ⟨fun _ => rfl, rfl, rfl, rfl⟩

theorem Alike.trans (h : s.Alike t) (h' : t.Alike u) : s.Alike u where
  holders client := (h'.holders client).trans (h.holders client)
  events := h'.events.trans h.events
  generations := h'.generations.trans h.generations
  clients := h'.clients.trans h.clients

/-- A call that connects and disconnects nobody. -/
def Call.Quiet : Call → Prop
  | .connect _ | .disconnect _ => False
  | .receive _ _ | .collect _ => True

/-- An effect that connects and disconnects nobody and closes no connection. -/
structure Effect.Quiet (e : Effect) : Prop where
  calls : ∀ call ∈ e.calls, call.Quiet
  ended : e.ended = []

theorem Effect.Quiet.append {e f : Effect} (he : e.Quiet) (hf : f.Quiet) : (e ++ f).Quiet where
  calls := List.forall_mem_append.2 ⟨he.calls, hf.calls⟩
  ended := List.append_eq_nil_iff.2 ⟨he.ended, hf.ended⟩

/-- What only tells of connecting and disconnecting tells nothing of a quiet effect. -/
theorem Effect.Quiet.filterMap_calls {α : Type} {e : Effect} (h : e.Quiet) {f : Call → Option α}
    (hreceive : ∀ client ms, f (.receive client ms) = none)
    (hcollect : ∀ client, f (.collect client) = none) : e.calls.filterMap f = [] := by
  refine List.filterMap_eq_nil_iff.2 fun call hcall => ?_
  have hquiet := h.calls call hcall
  cases call with
  | connect | disconnect => exact hquiet.elim
  | receive client ms => exact hreceive client ms
  | collect client => exact hcollect client

theorem alike_collect (s : Server) (client : String) :
    s.Alike { s with broker := (s.broker.collect client).2 } where
  holders _ := rfl
  events := rfl
  generations := rfl
  clients := Broker.clients_collect s.broker client

theorem pushMail_quiet (s : Server) (clock : Clock) :
    (s.pushMail clock).1.Quiet ∧ s.Alike (s.pushMail clock).2 := by
  rw [pushMail]
  refine List.foldlRecOn (motive := fun r : Effect × Server => r.1.Quiet ∧ s.Alike r.2) _ _
    ⟨⟨List.forall_mem_nil _, rfl⟩, .refl s⟩ ?_
  rintro ⟨effect, t⟩ ⟨hquiet, halike⟩ ⟨client, session⟩ -
  exact ⟨hquiet.append ⟨List.forall_mem_singleton.2 trivial, rfl⟩,
    halike.trans (alike_collect t client)⟩

/-- The server after a packet has been received, before mail is pushed. -/
theorem alike_receive (s : Server) (clock : Clock) (client : String) (ms : List Message) :
    s.Alike { s with
      broker := (s.broker.receive clock.now client ms).2
      sessions := s.sessions.modify client fun session =>
        { session with lastActivity := clock.elapsed } } where
  holders c := by
    rw [holder?, holder?, Table.get?_modify]
    split
    · rw [Option.map_map]
      rfl
    · rfl
  events := rfl
  generations := rfl
  clients := Broker.clients_receive s.broker clock.now client ms

theorem process_quiet (s : Server) (clock : Clock) (client : String) (generation : Nat)
    (p : Packet) : (s.process clock client generation p).1.Quiet ∧
      s.Alike (s.process clock client generation p).2 := by
  have hreceive := alike_receive s clock client (p.messages.filter (·.type ≠ .timing))
  have hreplied (sent : List (Nat × Packet)) :
      Effect.Quiet { calls := [.receive client (p.messages.filter (·.type ≠ .timing))], sent } :=
    ⟨List.forall_mem_singleton.2 trivial, rfl⟩
  simp only [process]
  split
  · obtain ⟨hquiet, halike⟩ := pushMail_quiet _ clock
    exact ⟨(hreplied _).append hquiet, hreceive.trans halike⟩
  · exact ⟨hreplied _, hreceive⟩

/-! ## Handling an event -/

/-- An event of a generation that does not hold its client's name changes nothing. -/
theorem handle_of_stale {e : Event} (he : e.origin? = some (client, generation))
    (h : s.holder? client ≠ some generation) : s.handle clock e = ({}, s) := by
  have hcurrent : ¬ s.isCurrent client generation = true := mt isCurrent_iff.1 h
  cases e with
  | connected => cases he
  | packet =>
    cases he
    exact if_neg hcurrent
  | closed =>
    cases he
    exact if_neg hcurrent
  | silent =>
    cases he
    exact if_neg hcurrent

/-- What the handling of an event can do. -/
inductive Handled (s : Server) : Event → Effect → Server → Prop
  | connected (client : String) (broker : Broker)
      (clients : broker.clients = s.broker.clients.add client) :
      Handled s (.connected client) { calls := [.connect client] } { s with broker }
  | stale (e : Event) (client : String) (generation : Nat)
      (origin : e.origin? = some (client, generation))
      (holder : s.holder? client ≠ some generation) : Handled s e {} s
  | packet (client : String) (generation : Nat) (p : Packet) (effect : Effect) (t : Server)
      (holder : s.holder? client = some generation) (quiet : effect.Quiet) (alike : s.Alike t) :
      Handled s (.packet client generation p) effect t
  | ended (e : Event) (client : String) (generation : Nat) (t : Server)
      (event : e = .closed client generation ∨ e = .silent client generation)
      (holder : s.holder? client = some generation)
      (holders : ∀ c, t.holder? c = if c = client then none else s.holder? c)
      (events : t.events = s.events) (generations : t.generations = s.generations)
      (clients : t.broker.clients = s.broker.clients.erase client) :
      Handled s e { calls := [.disconnect client], ended := [generation] } t

section

variable {e : Event} {effect : Effect}

/-- The handling of an event queues no other one. -/
theorem Handled.events (h : s.Handled e effect t) : t.events = s.events := by
  cases h with
  | connected | stale => rfl
  | packet _ _ _ _ _ _ _ alike => exact alike.events
  | ended _ _ _ _ _ _ _ events => exact events

theorem Handled.generations (h : s.Handled e effect t) : t.generations = s.generations := by
  cases h with
  | connected | stale => rfl
  | packet _ _ _ _ _ _ _ alike => exact alike.generations
  | ended _ _ _ _ _ _ _ _ generations => exact generations

/-- The handling of an event begins no session. -/
theorem Handled.holder? (h : s.Handled e effect t) (hc : t.holder? c = some generation) :
    s.holder? c = some generation := by
  cases h with
  | connected | stale => exact hc
  | packet _ _ _ _ _ _ _ alike => exact (alike.holders c).symm.trans hc
  | ended _ _ _ _ _ _ holders =>
    rw [holders] at hc
    exact (Option.ite_none_left_eq_some.1 hc).2

end

theorem handled_disconnect {e : Event}
    (he : e = .closed client generation ∨ e = .silent client generation) :
    s.Handled e (s.disconnect clock client generation).1
      (s.disconnect clock client generation).2 := by
  have horigin : e.origin? = some (client, generation) := by
    obtain rfl | rfl := he <;> rfl
  rw [disconnect]
  by_cases hcurrent : s.isCurrent client generation = true
  · rw [if_pos hcurrent]
    have hholder := isCurrent_iff.1 hcurrent
    obtain ⟨sessions, hremove⟩ := remove_eq s client generation
    refine .ended e client generation _ he hholder (fun c => ?_) ?_ ?_
      (Broker.clients_disconnect ..)
    · refine (holder?_remove s client c generation).trans ?_
      rw [hholder]
      simp
    · rw [hremove]
    · rw [hremove]
  · rw [if_neg hcurrent]
    exact .stale e client generation horigin (mt isCurrent_iff.2 hcurrent)

theorem handled (s : Server) (clock : Clock) (e : Event) :
    s.Handled e (s.handle clock e).1 (s.handle clock e).2 := by
  cases e with
  | connected client => exact .connected client _ (Broker.clients_connect ..)
  | packet client generation p =>
    by_cases hholder : s.holder? client = some generation
    · rw [handle, if_pos (isCurrent_iff.2 hholder)]
      obtain ⟨hquiet, halike⟩ := process_quiet s clock client generation p
      exact .packet client generation p _ _ hholder hquiet halike
    · rw [handle_of_stale rfl hholder]
      exact .stale _ client generation rfl hholder
  | closed client generation => exact handled_disconnect (.inl rfl)
  | silent client generation => exact handled_disconnect (.inr rfl)

end PubSub.Server

import PubSub.Proofs.Broker.DataType
import PubSub.Proofs.Broker.Housekeeping

/-!
# What the broker writes itself

In its housekeeping the broker writes six variables of its own, one after the other
(`Broker.ownMessages`), and each as if a client wrote it. So each holds afterwards what the broker
has computed for it, unless the variable has been written with another type before; then it stays as
it was (`Broker.housekeeping_publishes`). Nothing keeps a client from writing it first
(`Broker.client_write_blocks_publication`).

The six variables do not get into each other's way, since a write leaves all other variables as they
are (`Broker.get?_store_publishAll_of_ne`).
-/

namespace PubSub.Broker

/-- The messages of housekeeping, in order, each computed from the broker that the ones before it
lead to. -/
def ownMessages (now : Float) : List (Broker → Message) := [
  fun _ => .double .notify timeKey now now,
  fun b => .double .notify uptimeKey (now - b.startTime) now,
  fun b => .text .notify clientsKey (String.join (b.clients.names.map (· ++ ","))) now,
  fun b => .text .notify variableSummaryKey b.variableSummary now,
  fun b => .text .notify readWriteSummaryKey b.readWriteSummary now,
  fun b => .text .notify qualityKey b.qualitySummary now]

/-- The broker after it has published messages one after the other. -/
def publishAll (now : Float) (ws : List (Broker → Message)) (b : Broker) : Broker :=
  ws.foldl (fun b w => b.publish now (w b)) b

/-- A message with the broker as its source. -/
def own (b : Broker) (m : Message) : Message :=
  { m with source := b.config.name, community := b.config.community }

variable {b : Broker} {now : Float} {m : Message} {key : String} {type : DataType}
  {w : Broker → Message} {ws : List (Broker → Message)}

theorem keepHouse_eq (b : Broker) (now : Float) :
    b.keepHouse now = publishAll now (ownMessages now) b := by
  simp only [keepHouse, publishAll, ownMessages, List.foldl_cons, List.foldl_nil, publishNumber,
    publishText]

/-- The broker's own messages are notifications. -/
theorem type_of_mem_ownMessages (hw : w ∈ ownMessages now) (b : Broker) :
    (w b).type = .notify := by
  simp only [ownMessages, List.mem_cons, List.not_mem_nil, or_false] at hw
  obtain rfl | rfl | rfl | rfl | rfl | rfl := hw <;> rfl

/-- They are of different variables. -/
theorem pairwise_ownMessages (now : Float) :
    (ownMessages now).Pairwise fun w w' => ∀ b c, (w b).key ≠ (w' c).key := by
  simp [ownMessages, Message.double, Message.text, timeKey, uptimeKey, clientsKey,
    variableSummaryKey, readWriteSummaryKey, qualityKey]

/-! ## One publication -/

@[simp] theorem own_type (b : Broker) (m : Message) : (b.own m).type = m.type := rfl

@[simp] theorem own_key (b : Broker) (m : Message) : (b.own m).key = m.key := rfl

theorem publish_eq (hm : m.type = .notify) :
    b.publish now m = (Step.write now (b.own m) ((b.own_type m).trans hm)).apply b := rfl

theorem Named.publish (hn : b.Named) (hm : m.type = .notify) : (b.publish now m).Named := by
  rw [publish_eq hm]
  exact hn.apply _

theorem config_publish (hm : m.type = .notify) (b : Broker) :
    (b.publish now m).config = b.config := by
  rw [publish_eq hm]
  exact congrArg (·.1) (kept_rest (.write now _ _) trivial b)

theorem get?_store_publish_of_ne (hn : b.Named) (hm : m.type = .notify) (hkey : key ≠ m.key) :
    (b.publish now m).store.get? key = b.store.get? key := by
  rw [publish_eq hm]
  exact hn.get?_store_write_of_ne _ hkey

/-- A write is accepted if its variable has not been written, or has its type. -/
theorem accepts_iff : b.Accepts now m ↔ b.Unwritten m.key ∨ b.Typed m.key m.dataType := by
  obtain ⟨v, hv, hw⟩ | hunwritten := b.written_or_unwritten m.key
  · rw [Accepts, target_of_written hv hw]
    constructor
    · exact fun htype => .inr ⟨v, hv, hw, htype⟩
    · rintro (hunwritten | ⟨u, hu, -, htype⟩)
      · exact absurd (hunwritten v hv) hw
      · rw [hv] at hu
        cases hu
        exact htype
  · exact iff_of_true (accepts_of_unwritten hunwritten) (.inl hunwritten)

theorem stamped_own (b : Broker) (m : Message) :
    (b.own m).stamped b.config.community = b.own m := by
  rw [Message.stamped]
  split <;> rfl

/-- A variable holds what the broker has published. -/
theorem carries_publish (hn : b.Named) (hm : m.type = .notify)
    (h : b.Accepts now (b.own m)) :
    ∃ v, (b.publish now m).store.get? m.key = some v ∧ v.writer = b.config.name ∧
      (v.toMessage .notify).Carries (b.own m) := by
  have hkey : m.key = ((b.target now (b.own m)).write (b.own m) now b.config.community).name := by
    rw [Variable.write_name, hn.target, own_key]
  have hcarries :=
    Variable.carries_write _ (b.own m) now b.config.community (hn.target now (b.own m)) h
  rw [stamped_own] at hcarries
  rw [publish_eq hm, Step.apply_write_of_accepts _ h]
  refine ⟨_, (get?_store_fanOut ..).trans (if_pos hkey), ?_, hcarries⟩
  exact Variable.write_writer ..

/-! ## Publications one after the other -/

theorem Named.publishAll (hn : b.Named) (hws : ∀ w ∈ ws, ∀ c, (w c).type = .notify) :
    (publishAll now ws b).Named := by
  induction ws generalizing b with
  | nil => exact hn
  | cons w ws ih =>
    obtain ⟨hw, hws⟩ := List.forall_mem_cons.1 hws
    exact ih (hn.publish (hw b)) hws

theorem config_publishAll (hws : ∀ w ∈ ws, ∀ c, (w c).type = .notify) (b : Broker) :
    (publishAll now ws b).config = b.config := by
  induction ws generalizing b with
  | nil => rfl
  | cons w ws ih =>
    obtain ⟨hw, hws⟩ := List.forall_mem_cons.1 hws
    exact (ih hws _).trans (config_publish (hw b) b)

theorem get?_store_publishAll_of_ne (hn : b.Named) (hws : ∀ w ∈ ws, ∀ c, (w c).type = .notify)
    (hkeys : ∀ w ∈ ws, ∀ c, (w c).key ≠ key) :
    (publishAll now ws b).store.get? key = b.store.get? key := by
  induction ws generalizing b with
  | nil => rfl
  | cons w ws ih =>
    obtain ⟨hw, hws⟩ := List.forall_mem_cons.1 hws
    obtain ⟨hkey, hkeys⟩ := List.forall_mem_cons.1 hkeys
    refine (ih (hn.publish (hw b)) hws hkeys).trans ?_
    exact get?_store_publish_of_ne hn (hw b) (hkey b).symm

/-- What housekeeping does to the variable of one of its messages, it does with that message. -/
theorem get?_store_keepHouse (hn : b.Named) {earlier later : List (Broker → Message)}
    (h : ownMessages now = earlier ++ w :: later) :
    let c := publishAll now earlier b
    c.Named ∧ c.config = b.config ∧ (w c).type = .notify ∧
      c.store.get? (w c).key = b.store.get? (w c).key ∧
      (b.keepHouse now).store.get? (w c).key = (c.publish now (w c)).store.get? (w c).key := by
  intro c
  have htypes : ∀ w' ∈ earlier ++ w :: later, ∀ c, (w' c).type = .notify := by
    rw [← h]
    exact fun w' hw' => type_of_mem_ownMessages hw'
  obtain ⟨hearlier, hrest⟩ := List.forall_mem_append.1 htypes
  obtain ⟨hw, hlater⟩ := List.forall_mem_cons.1 hrest
  have hkeys := pairwise_ownMessages now
  rw [h, List.pairwise_append, List.pairwise_cons] at hkeys
  obtain ⟨-, ⟨hbehind, -⟩, hbefore⟩ := hkeys
  have hc : c.Named := hn.publishAll hearlier
  refine ⟨hc, config_publishAll hearlier b, hw c, ?_, ?_⟩
  · exact get?_store_publishAll_of_ne hn hearlier fun w' hw' d =>
      hbefore w' hw' w List.mem_cons_self d c
  · rw [keepHouse_eq, h, publishAll, List.foldl_append, List.foldl_cons]
    exact get?_store_publishAll_of_ne (hc.publish (hw c)) hlater fun w' hw' d =>
      (hbehind w' hw' c d).symm

/-! ## Where a type comes from -/

/-- A step gives a variable a type only by an accepted write. -/
theorem Typed.of_apply (hn : b.Named) {s : Step} (h : (s.apply b).Typed key type) :
    (∃ x ∈ s.accepted b, x.key = key ∧ x.dataType = type) ∨ b.Typed key type := by
  obtain ⟨v, hv, hw, htype⟩ := h
  cases s with
  | write now m hm =>
    by_cases hkey : key = m.key
    · by_cases haccepts : b.Accepts now m
      · rw [Step.apply_write_of_accepts hm haccepts, get?_store_fanOut, Variable.write_name,
          hn.target, if_pos hkey] at hv
        cases hv
        refine .inl ⟨m.stamped b.config.community, ?_, ?_, ?_⟩
        · rw [Step.accepted, if_pos haccepts]
          exact List.mem_cons_self
        · rw [Message.stamped_key, hkey]
        · rw [Message.stamped_dataType, ← htype]
          exact haccepts.symm.trans (Variable.write_dataType ..).symm
      · rw [Step.apply_write_of_not_accepts hm haccepts] at hv
        exact .inr ⟨v, hv, hw, htype⟩
    · rw [hn.get?_store_write_of_ne hm hkey] at hv
      exact .inr ⟨v, hv, hw, htype⟩
  | subscribe client k period now =>
    by_cases hkey : key = k
    · obtain ⟨u, _, hu, hget, -⟩ := get?_store_subscribe b client k period now
      rw [hkey, Step.apply, hget] at hv
      cases hv
      cases hold : b.store.get? k with
      | none =>
        rw [hold] at hu
        subst hu
        exact absurd rfl hw
      | some v =>
        rw [hold] at hu
        subst hu
        exact .inr ⟨u, by rw [hkey]; exact hold, hw, htype⟩
    · rw [Step.apply, get?_store_subscribe_of_ne client period now hkey] at hv
      exact .inr ⟨v, hv, hw, htype⟩
  | withdraw client ends =>
    rw [Step.get?_store_withdraw, Option.map_eq_some_iff] at hv
    obtain ⟨u, hu, rfl⟩ := hv
    refine .inr ⟨u, hu, ?_⟩
    split at hw <;> split at htype <;> exact ⟨hw, htype⟩
  | clear now =>
    rw [Step.get?_store_clear, Option.map_eq_some_iff] at hv
    obtain ⟨u, -, rfl⟩ := hv
    exact absurd rfl hw
  | collect client =>
    rw [Step.apply, store_collect] at hv
    exact .inr ⟨v, hv, hw, htype⟩
  | keep | drop | forget | note => exact .inr ⟨v, hv, hw, htype⟩

theorem Typed.of_run (hn : b.Named) {steps : List Step}
    (h : (Step.run steps b).Typed key type) :
    (∃ x ∈ Step.along Step.accepted steps b, x.key = key ∧ x.dataType = type) ∨
      b.Typed key type := by
  induction steps generalizing b with
  | nil => exact .inr h
  | cons s steps ih =>
    obtain ⟨x, hx, hsame⟩ | hfirst := ih (hn.apply s) h
    · exact .inl ⟨x, List.mem_append_right _ hx, hsame⟩
    · obtain ⟨x, hx, hsame⟩ | hold := hfirst.of_apply hn
      · exact .inl ⟨x, List.mem_append_left _ hx, hsame⟩
      · exact .inr hold

/-- A broker starts without written variables. -/
theorem not_typed_start (config : Config) (startTime : Float) :
    ¬ (start config startTime).Typed key type := by
  rintro ⟨v, hv, hw, -⟩
  obtain ⟨value, rfl⟩ := eq_initialVariable hv
  exact hw rfl

/-! ## Housekeeping -/

/-- The broker's message of another type is refused. -/
theorem Typed.publish_eq (h : b.Typed m.key type) (htype : type ≠ m.dataType) :
    b.publish now m = b := by
  have herror := h.notify_eq_error (m := b.own m) rfl htype.symm now
  rw [own] at herror
  rw [publish, herror]

/-- What the broker's own variables hold after housekeeping, in any state that a broker reaches. If
a variable has not been written, or has the type of the broker's message, it holds what the message
says, with the broker as its writer. If not, it is as before, and a write of its type was accepted
in the run. -/
theorem housekeeping_publishes (config : Config) (startTime now : Float) (ops : List (Float × Op))
    (earlier later : List (Broker → Message)) (w : Broker → Message)
    (h : ownMessages now = earlier ++ w :: later) :
    let b := performAll ops (start config startTime)
    let m := w (publishAll now earlier b)
    (b.Unwritten m.key ∨ b.Typed m.key m.dataType →
        ∃ v, (b.keepHouse now).store.get? m.key = some v ∧ v.writer = config.name ∧
          (v.toMessage .notify).Carries
            { m with source := config.name, community := config.community }) ∧
      ∀ type ≠ m.dataType, b.Typed m.key type →
        (b.keepHouse now).store.get? m.key = b.store.get? m.key ∧
          ∃ x ∈ acceptedWrites ops (start config startTime), x.key = m.key ∧ x.dataType = type := by
  intro b m
  have hstart := named_start config startTime
  obtain ⟨hc, hsame, hm, hbefore, hafter⟩ := get?_store_keepHouse (hstart.performAll ops) h
  have hconfig : (publishAll now earlier b).config = config :=
    hsame.trans (config_performAll ops _)
  refine ⟨fun hfits => ?_, fun type htype htyped => ⟨?_, ?_⟩⟩
  · have haccepts : (publishAll now earlier b).Accepts now ((publishAll now earlier b).own m) := by
      rw [accepts_iff, own_key, Unwritten, Typed, hbefore]
      exact hfits
    obtain ⟨v, hv, hwriter, hcarries⟩ := carries_publish hc hm haccepts
    rw [hconfig] at hwriter
    rw [own, hconfig] at hcarries
    exact ⟨v, hafter.trans hv, hwriter, hcarries⟩
  · have hother : (publishAll now earlier b).Typed m.key type := by
      rw [Typed, hbefore]
      exact htyped
    rw [hafter, hother.publish_eq htype, hbefore]
  · have htyped : (performAll ops (start config startTime)).Typed m.key type := htyped
    rw [← run_scriptAll] at htyped
    exact (htyped.of_run hstart).resolve_right (not_typed_start config startTime)

/-- A client writes a number to the variable for the names of the clients. -/
def takenOps : List (Float × Op) := [
  (1.0, .receive "Q" [{ Message.double .notify clientsKey 7.0 1.0 with source := "Q" }])]

/-- The time is published, the names are not. -/
theorem housekeeping_publishes_takenOps :
    let b := performAll takenOps (start (.ofCommunity "#1") 0.0)
    (∃ v, (b.keepHouse 5.0).store.get? timeKey = some v ∧ v.writer = "MOOSDB_#1" ∧
        (v.toMessage .notify).Carries { Message.double .notify timeKey 5.0 5.0 with
          source := "MOOSDB_#1", community := "#1" }) ∧
      (b.keepHouse 5.0).store.get? clientsKey = b.store.get? clientsKey := by
  intro b
  have hfree : (b.store.get? timeKey).all (·.writes = 0) = true := by decide +kernel
  have htaken :
      (b.store.get? clientsKey).any (fun v => v.writes ≠ 0 ∧ v.dataType = .double) = true := by
    decide +kernel
  have hunwritten : b.Unwritten timeKey := fun v hv => by
    rw [hv] at hfree
    exact of_decide_eq_true hfree
  have htyped : b.Typed clientsKey .double := by
    obtain ⟨v, hv, hdouble⟩ := (Option.any_eq_true ..).1 htaken
    exact ⟨v, hv, of_decide_eq_true hdouble⟩
  exact ⟨(housekeeping_publishes _ 0.0 5.0 takenOps [] _ _ rfl).1 (.inl hunwritten),
    ((housekeeping_publishes _ 0.0 5.0 takenOps ((ownMessages 5.0).take 2) _ _ rfl).2 .double
      (by decide) htyped).1⟩

/-- The broker does not get its own text into a variable that a client has written as a number. -/
theorem client_write_blocks_publication :
    let b := performAll takenOps (start (.ofCommunity "#1") 0.0)
    ((b.keepHouse 5.0).store.get? clientsKey).map (fun v => (v.dataType, v.value, v.writer)) =
      some (.double, 7.0, "Q") := by
  decide +kernel

end PubSub.Broker

import PubSub.Proofs.Broker.Step

/-!
# Runs of a broker

A run is a list of operations, each at its local time: packets, fetched mail, connections and
housekeeping. `Broker.Op.perform` is the operation itself and `Broker.Op.script` the steps that it
takes; they lead to the same broker (`Broker.run_script`), and the mail that the reply or the fetch
hands to a client is that of the steps (`Broker.along_handed_script`). So what is told of steps is
told of runs.
-/

namespace PubSub.Broker

/-- Whether a request has the broker reset all variables and drop all held mail. -/
def Clears (m : Message) : Prop :=
  m.key ≠ requestAll ∧ asksFor requestProcesses m = false ∧ asksFor requestVariables m = false ∧
    asksFor requestClear m = true

instance (m : Message) : Decidable (Clears m) := inferInstanceAs (Decidable (_ ∧ _))

/-! ## Scripts -/

/-- Steps that depend on the broker they begin with. -/
abbrev Script := Broker → List Step

namespace Script

/-- Nothing to do. -/
def done : Script := fun _ => []

/-- One script after the other. -/
def andThen (s t : Script) : Script := fun b => s b ++ t (Step.run (s b) b)

/-- All scripts one after the other. -/
def inTurn (scripts : List Script) : Script := scripts.foldr andThen done

theorem run_andThen (s t : Script) (b : Broker) :
    Step.run (s.andThen t b) b = Step.run (t (Step.run (s b) b)) (Step.run (s b) b) :=
  Step.run_append ..

theorem run_inTurn_nil (b c : Broker) : Step.run (inTurn [] b) c = c := rfl

theorem run_inTurn_cons (s : Script) (scripts : List Script) (b : Broker) :
    Step.run (inTurn (s :: scripts) b) b =
      Step.run (inTurn scripts (Step.run (s b) b)) (Step.run (s b) b) :=
  Step.run_append ..

theorem along_andThen {α : Type} (told : Step → Broker → List α) (s t : Script) (b : Broker) :
    Step.along told (s.andThen t b) b =
      Step.along told (s b) b ++ Step.along told (t (Step.run (s b) b)) (Step.run (s b) b) :=
  Step.along_append ..

/-- What holds of the steps of each script holds of all steps in turn. -/
theorem forall_mem_inTurn {P : Step → Prop} {scripts : List Script}
    (h : ∀ s ∈ scripts, ∀ b, ∀ step ∈ s b, P step) (b : Broker) :
    ∀ step ∈ inTurn scripts b, P step := by
  induction scripts generalizing b with
  | nil => simp [inTurn, done]
  | cons s scripts ih =>
    intro step hstep
    obtain hstep | hstep := List.mem_append.1 hstep
    · exact h s (by simp) b step hstep
    · exact ih (fun t ht => h t (by simp [ht])) _ step hstep

/-- A write of a number of the broker's own. -/
def number (now : Float) (key : String) (value : Broker → Float) : Script := fun b =>
  [.write now { Message.double .notify key (value b) now with
    source := b.config.name, community := b.config.community } rfl]

/-- A write of a text of the broker's own. -/
def text (now : Float) (key : String) (value : Broker → String) : Script := fun b =>
  [.write now { Message.text .notify key (value b) now with
    source := b.config.name, community := b.config.community } rfl]

/-- The steps of housekeeping. -/
def keepHouse (now : Float) : Script := inTurn [
  number now timeKey fun _ => now,
  number now uptimeKey fun b => now - b.startTime,
  text now clientsKey fun b => String.join (b.clients.names.map (· ++ ",")),
  text now variableSummaryKey variableSummary,
  text now readWriteSummaryKey readWriteSummary,
  text now qualityKey qualitySummary]

/-- The steps of housekeeping, if it is due. -/
def keepHouseIfDue (now : Float) : Script := fun b =>
  if b.houseIsDue now then
    .note b.clients b.latencies now :: keepHouse now { b with summaryTime := now }
  else []

/-- The steps of one message of a client. -/
def message (now : Float) (client : String) (m : Message) : Script := fun b =>
  match h : m.type with
  | .notify => [.write now m h]
  | .register => [.subscribe client m.key m.value now]
  | .wildcardRegister =>
    match Filter.parse m.textValue with
    | .ok f => .keep client f :: (b.store.values.filter fun v => f.covers v.writer v.name).map
        fun v => .subscribe client v.name f.period now
    | .error _ => []
  | .unregister => [.withdraw client fun key _ => key = m.key]
  | .wildcardUnregister =>
    match Filter.parse m.textValue with
    | .ok f => [.drop client f, .withdraw client fun _ v => f.covers v.writer v.name]
    | .error _ => []
  | .serverRequest => if Clears m then [.clear now] else []
  | _ => []

section
variable {now : Float} {client : String} {m : Message} (b : Broker)

theorem message_of_register (h : m.type = .register) :
    message now client m b = [.subscribe client m.key m.value now] := by
  rw [message]
  split <;> simp_all

theorem message_of_wildcardRegister (h : m.type = .wildcardRegister) :
    message now client m b =
      match Filter.parse m.textValue with
      | .ok f => .keep client f :: (b.store.values.filter fun v => f.covers v.writer v.name).map
          fun v => .subscribe client v.name f.period now
      | .error _ => [] := by
  rw [message]
  split <;> simp_all

theorem message_of_unregister (h : m.type = .unregister) :
    message now client m b = [.withdraw client fun key _ => key = m.key] := by
  rw [message]
  split <;> simp_all

theorem message_of_wildcardUnregister (h : m.type = .wildcardUnregister) :
    message now client m b =
      match Filter.parse m.textValue with
      | .ok f => [.drop client f, .withdraw client fun _ v => f.covers v.writer v.name]
      | .error _ => [] := by
  rw [message]
  split <;> simp_all

end

/-- The steps of a packet before the mail is collected. -/
def settling (now : Float) (client : String) (ms : List Message) : Script :=
  (inTurn (ms.map (message now client))).andThen (keepHouseIfDue now)

/-- The steps of a packet of a client: its messages, housekeeping, and collecting the mail unless
the packet is empty. -/
def packet (now : Float) (client : String) (ms : List Message) : Script := fun b =>
  .note b.clients (b.recordLatency now client ms).latencies b.summaryTime ::
    ((settling now client ms).andThen fun _ => if ms.isEmpty then [] else [.collect client])
      (b.recordLatency now client ms)

/-! ### What holds of all steps of a script -/

section
variable {P : Step → Prop} {now : Float} (hwrite : ∀ m h, P (.write now m h))
include hwrite

theorem forall_mem_number (key : String) (value : Broker → Float) (b : Broker) :
    ∀ s ∈ number now key value b, P s :=
  List.forall_mem_singleton.2 (hwrite _ _)

theorem forall_mem_text (key : String) (value : Broker → String) (b : Broker) :
    ∀ s ∈ text now key value b, P s :=
  List.forall_mem_singleton.2 (hwrite _ _)

theorem forall_mem_keepHouse (b : Broker) : ∀ s ∈ keepHouse now b, P s := by
  refine forall_mem_inTurn ?_ b
  iterate 2 refine List.forall_mem_cons.2 ⟨forall_mem_number hwrite _ _, ?_⟩
  iterate 4 refine List.forall_mem_cons.2 ⟨forall_mem_text hwrite _ _, ?_⟩
  exact List.forall_mem_nil _

variable (hnote : ∀ clients latencies t, P (.note clients latencies t))
include hnote

theorem forall_mem_keepHouseIfDue (b : Broker) : ∀ s ∈ keepHouseIfDue now b, P s := by
  rw [keepHouseIfDue]
  split
  · exact List.forall_mem_cons.2 ⟨hnote _ _ _, forall_mem_keepHouse hwrite _⟩
  · exact List.forall_mem_nil _

theorem forall_mem_settling {client : String} {ms : List Message}
    (hmessage : ∀ m ∈ ms, ∀ b, ∀ s ∈ message now client m b, P s) (b : Broker) :
    ∀ s ∈ settling now client ms b, P s := by
  refine List.forall_mem_append.2
    ⟨forall_mem_inTurn ?_ b, forall_mem_keepHouseIfDue hwrite hnote _⟩
  intro s hs b
  obtain ⟨m, hm, rfl⟩ := List.mem_map.1 hs
  exact hmessage m hm b

end

/-- What holds of all steps that the type of a message can lead to holds of the steps of the
message. A new filter subscribes only to variables that it covers. -/
theorem forall_mem_message_of_covers {P : Step → Prop} {now : Float} {client : String} {m : Message}
    (b : Broker) (hwrite : ∀ h, P (.write now m h))
    (hregister : m.type = .register → P (.subscribe client m.key m.value now))
    (hfilter : m.type = .wildcardRegister → ∀ f, Filter.parse m.textValue = .ok f →
      P (.keep client f) ∧ ∀ v ∈ b.store.values, f.covers v.writer v.name = true →
        P (.subscribe client v.name f.period now))
    (hwithdraw : ∀ ends, P (.withdraw client ends)) (hdrop : ∀ f, P (.drop client f))
    (hclear : m.type = .serverRequest → Clears m → P (.clear now)) :
    ∀ s ∈ message now client m b, P s := by
  rw [message]
  split <;> rename_i htype
  · exact List.forall_mem_singleton.2 (hwrite htype)
  · exact List.forall_mem_singleton.2 (hregister htype)
  · split
    · rename_i f hf
      obtain ⟨hkeep, hsubscribe⟩ := hfilter htype f hf
      refine List.forall_mem_cons.2 ⟨hkeep, List.forall_mem_map.2 fun v hv => ?_⟩
      obtain ⟨hmem, hcovers⟩ := List.mem_filter.1 hv
      exact hsubscribe v hmem hcovers
    · exact List.forall_mem_nil _
  · exact List.forall_mem_singleton.2 (hwithdraw _)
  · split
    · exact List.forall_mem_cons.2 ⟨hdrop _, List.forall_mem_singleton.2 (hwithdraw _)⟩
    · exact List.forall_mem_nil _
  · split
    · rename_i hclears
      exact List.forall_mem_singleton.2 (hclear htype hclears)
    · exact List.forall_mem_nil _
  · exact List.forall_mem_nil _

/-- What holds of all steps that the type of a message can lead to holds of the steps of the
message. -/
theorem forall_mem_message {P : Step → Prop} {now : Float} {client : String} {m : Message}
    (hwrite : ∀ h, P (.write now m h))
    (hregister : m.type = .register → P (.subscribe client m.key m.value now))
    (hfilter : m.type = .wildcardRegister → ∀ f, Filter.parse m.textValue = .ok f →
      P (.keep client f) ∧ ∀ key, P (.subscribe client key f.period now))
    (hwithdraw : ∀ ends, P (.withdraw client ends)) (hdrop : ∀ f, P (.drop client f))
    (hclear : m.type = .serverRequest → Clears m → P (.clear now)) (b : Broker) :
    ∀ s ∈ message now client m b, P s :=
  forall_mem_message_of_covers b hwrite hregister
    (fun htype f hf => ⟨(hfilter htype f hf).1, fun v _ _ => (hfilter htype f hf).2 v.name⟩)
    hwithdraw hdrop hclear

end Script

/-! ## Operations -/

/-- An operation of a broker. -/
inductive Op where
  /-- A packet of a client is processed. -/
  | receive (client : String) (ms : List Message)
  /-- The mail held for a client is fetched. -/
  | fetch (client : String)
  | connect (client : String)
  | disconnect (client : String)
  | keepHouse
  | keepHouseIfDue

namespace Op

/-- The broker after an operation. -/
def perform (now : Float) : Op → Broker → Broker
  | receive client ms, b => (b.receive now client ms).2
  | fetch client, b => (b.collect client).2
  | connect client, b => b.connect now client
  | disconnect client, b => b.disconnect now client
  | keepHouse, b => b.keepHouse now
  | keepHouseIfDue, b => b.keepHouseIfDue now

/-- The mail that an operation hands to a client: what it fetches, or its reply without the answers
to requests, which come first. -/
def delivered (now : Float) (client : String) : Op → Broker → List Message
  | receive c ms, b =>
    if c = client then
      let answers := ((b.recordLatency now c ms).processAll now c ms).1
      (b.receive now c ms).1.drop answers.length
    else []
  | fetch c, b => if c = client then (b.collect c).1 else []
  | _, _ => []

/-- The steps of an operation. -/
def script (now : Float) : Op → Script
  | receive client ms => Script.packet now client ms
  | fetch client => fun _ => [.collect client]
  | connect client =>
    Script.andThen (fun b => [.note (b.clients.add client) b.latencies b.summaryTime])
      (Script.text now eventKey fun _ => "connected=" ++ client)
  | disconnect client =>
    Script.andThen (fun _ => [.withdraw client fun _ _ => true, .forget client])
      (Script.text now eventKey fun _ => "disconnected=" ++ client)
  | keepHouse => Script.keepHouse now
  | keepHouseIfDue => Script.keepHouseIfDue now

/-- What holds of all steps that an operation can lead to holds of its steps. -/
theorem forall_mem_script {P : Step → Prop} {now : Float} {op : Op}
    (hwrite : ∀ m h, P (.write now m h))
    (hnote : ∀ clients latencies t, P (.note clients latencies t))
    (hcollect : ∀ client, P (.collect client))
    (hmessage : ∀ client ms, op = .receive client ms → ∀ m ∈ ms, ∀ b,
      ∀ s ∈ Script.message now client m b, P s)
    (hdisconnect : ∀ client, op = .disconnect client →
      P (.withdraw client fun _ _ => true) ∧ P (.forget client)) (b : Broker) :
    ∀ s ∈ op.script now b, P s := by
  cases op with
  | receive client ms =>
    have hsettling := Script.forall_mem_settling hwrite hnote (hmessage client ms rfl)
    refine List.forall_mem_cons.2 ⟨hnote _ _ _, List.forall_mem_append.2 ⟨hsettling _, ?_⟩⟩
    split
    · exact List.forall_mem_nil _
    · exact List.forall_mem_singleton.2 (hcollect client)
  | fetch client => exact List.forall_mem_singleton.2 (hcollect client)
  | connect client =>
    exact List.forall_mem_cons.2 ⟨hnote _ _ _, Script.forall_mem_text hwrite _ _ _⟩
  | disconnect client =>
    obtain ⟨hwithdraw, hforget⟩ := hdisconnect client rfl
    exact List.forall_mem_cons.2 ⟨hwithdraw, List.forall_mem_cons.2
      ⟨hforget, Script.forall_mem_text hwrite _ _ _⟩⟩
  | keepHouse => exact Script.forall_mem_keepHouse hwrite b
  | keepHouseIfDue => exact Script.forall_mem_keepHouseIfDue hwrite hnote b

end Op

/-! ## The steps of an operation are the operation -/

/-- The broker after one message of a client, failed or not. -/
def processed (b : Broker) (now : Float) (client : String) (m : Message) : Broker :=
  match b.process now client m with
  | .ok (_, b) => b
  | .error _ => b

theorem processAll_snd (b : Broker) (now : Float) (client : String) (ms : List Message) :
    (b.processAll now client ms).2 = ms.foldl (fun b m => b.processed now client m) b := by
  rw [processAll]
  generalize ([] : List Message) = answers
  induction ms generalizing answers b with
  | nil => rfl
  | cons m ms ih =>
    simp only [List.foldl_cons, processed]
    cases b.process now client m with
    | error e => exact ih b answers
    | ok result => exact ih result.2 (answers ++ result.1)

theorem run_subscribe (client : String) (period now : Float) (vs : List Variable) (b : Broker) :
    Step.run (vs.map fun v => .subscribe client v.name period now) b =
      vs.foldl (fun b v => b.subscribe client v.name period now) b := by
  rw [Step.run, List.foldl_map]
  rfl

theorem run_message (b : Broker) (now : Float) (client : String) (m : Message) :
    Step.run (Script.message now client m b) b = b.processed now client m := by
  rw [Script.message, processed]
  split <;> rename_i h
  · rw [Step.run_cons, Step.run_nil, Step.apply]
    simp only [process, h]
    cases b.notify now m <;> rfl
  · simp only [process, h, register]
    rfl
  · simp only [process, h, register]
    cases Filter.parse m.textValue with
    | error e => rfl
    | ok f => exact run_subscribe client f.period now _ _
  · simp only [process, h, unregister]
    simp [Step.apply, Table.modify, bind, Except.bind, pure, Except.pure]
  · simp only [process, h, unregister]
    cases Filter.parse m.textValue <;> rfl
  · simp only [process, h, request]
    by_cases hclears : Clears m
    · obtain ⟨hall, hprocesses, hvariables, hclear⟩ := hclears
      simp [Clears, hall, hprocesses, hvariables, hclear, Step.apply]
    · rw [if_neg hclears]
      simp only [Clears, not_and, Bool.not_eq_true] at hclears
      split_ifs <;> simp_all
  · cases htype : m.type <;> simp_all [process]

theorem processed_of_notify (b : Broker) (now : Float) (client : String) {m : Message}
    (h : m.type = .notify) : b.processed now client m = (Step.write now m h).apply b := by
  simp only [processed, process, h, Step.apply]
  cases b.notify now m <;> rfl

theorem processed_of_register (b : Broker) (now : Float) (client : String) {m : Message}
    (h : m.type = .register) :
    b.processed now client m = b.subscribe client m.key m.value now := by
  rw [← run_message, Script.message_of_register b h]
  rfl

theorem run_number (b : Broker) (now : Float) (key : String) (value : Broker → Float) :
    Step.run (Script.number now key value b) b = b.publishNumber now key (value b) := rfl

theorem run_text (b : Broker) (now : Float) (key : String) (value : Broker → String) :
    Step.run (Script.text now key value b) b = b.publishText now key (value b) := rfl

theorem run_keepHouse (b : Broker) (now : Float) :
    Step.run (Script.keepHouse now b) b = b.keepHouse now := by
  rw [Script.keepHouse]
  iterate 2 rw [Script.run_inTurn_cons, run_number]
  iterate 4 rw [Script.run_inTurn_cons, run_text]
  rw [Script.run_inTurn_nil, keepHouse]

theorem run_keepHouseIfDue (b : Broker) (now : Float) :
    Step.run (Script.keepHouseIfDue now b) b = b.keepHouseIfDue now := by
  rw [Script.keepHouseIfDue, keepHouseIfDue]
  split
  · rw [Step.run_cons]
    exact run_keepHouse { b with summaryTime := now } now
  · rfl

theorem note_recordLatency (b : Broker) (now : Float) (client : String) (ms : List Message) :
    (Step.note b.clients (b.recordLatency now client ms).latencies b.summaryTime).apply b =
      b.recordLatency now client ms := by
  rw [recordLatency]
  cases newestTime? ms <;> rfl

theorem run_messages (b : Broker) (now : Float) (client : String) (ms : List Message) :
    Step.run (Script.inTurn (ms.map (Script.message now client)) b) b =
      (b.processAll now client ms).2 := by
  rw [processAll_snd]
  induction ms generalizing b with
  | nil => rfl
  | cons m ms ih =>
    rw [List.map_cons, Script.run_inTurn_cons, run_message, ih, List.foldl_cons]

/-- The broker when the mail of the reply to a packet is collected. -/
def settled (b : Broker) (now : Float) (client : String) (ms : List Message) : Broker :=
  ((b.recordLatency now client ms).processAll now client ms).2.keepHouseIfDue now

theorem run_settling (b : Broker) (now : Float) (client : String) (ms : List Message) :
    Step.run (Script.settling now client ms (b.recordLatency now client ms))
      (b.recordLatency now client ms) = b.settled now client ms := by
  rw [Script.settling, Script.run_andThen, run_messages, run_keepHouseIfDue]
  rfl

theorem receive_eq (b : Broker) (now : Float) (client : String) (ms : List Message) :
    b.receive now client ms =
      (((b.recordLatency now client ms).processAll now client ms).1 ++
        (if ms.isEmpty then [] else (b.settled now client ms).heldFor client),
      if ms.isEmpty then b.settled now client ms
      else ((b.settled now client ms).collect client).2) := by
  by_cases h : ms.isEmpty
  · simp only [receive, h, if_true, settled, List.append_nil]
  · simp only [receive, h, settled]
    rfl

/-- A reply is the answers to requests and the mail that is handed out with it. -/
theorem receive_fst (b : Broker) (now : Float) (client : String) (ms : List Message) :
    (b.receive now client ms).1 = ((b.recordLatency now client ms).processAll now client ms).1 ++
      (Op.receive client ms).delivered now client b := by
  rw [Op.delivered, if_pos rfl, receive_eq, List.drop_left]

theorem run_packet (b : Broker) (now : Float) (client : String) (ms : List Message) :
    Step.run (Script.packet now client ms b) b = (b.receive now client ms).2 := by
  rw [Script.packet, Step.run_cons, note_recordLatency, Script.run_andThen, run_settling,
    receive_eq]
  split <;> rfl

/-- The steps of an operation lead to the broker after it. -/
theorem run_script (now : Float) (op : Op) (b : Broker) :
    Step.run (op.script now b) b = op.perform now b := by
  cases op with
  | receive client ms => exact run_packet b now client ms
  | fetch client => rfl
  | connect client =>
    rw [Op.script, Script.run_andThen, run_text]
    rfl
  | disconnect client =>
    rw [Op.script, Script.run_andThen, run_text]
    simp only [Step.run_cons, Step.run_nil, Step.apply, if_true]
    rfl
  | keepHouse => exact run_keepHouse b now
  | keepHouseIfDue => exact run_keepHouseIfDue b now

/-! ## What messages and writes leave as it is -/

/-- A step of a client's message or of a write: no client comes or goes, and the broker notes
nothing. -/
def Step.Plain : Step → Prop
  | .forget _ | .note _ _ _ => False
  | _ => True

/-- What plain steps leave as it is. -/
def Kept {α : Type} (f : Broker → α) : Prop := ∀ s : Step, s.Plain → ∀ b, f (s.apply b) = f b

/-- Plain steps touch nothing but variables, filters, mail and the start time. -/
theorem kept_rest : Kept fun b => (b.config, b.clients, b.summaryTime) := by
  intro s hs b
  cases s with
  | write now m hm =>
    by_cases haccepts : b.Accepts now m
    · rw [Step.apply_write_of_accepts hm haccepts]
      rfl
    · rw [Step.apply_write_of_not_accepts hm haccepts]
  | subscribe client key period now =>
    simp only [Step.apply, subscribe]
    split <;> rfl
  | collect client =>
    rw [Step.apply, collect]
    split <;> rfl
  | withdraw | keep | drop | clear => rfl
  | forget | note => exact hs.elim

section

variable {α : Type} {f : Broker → α} (hf : Kept f) (b : Broker) (now : Float)
include hf

theorem Kept.run {steps : List Step} (hsteps : ∀ s ∈ steps, s.Plain) :
    f (Step.run steps b) = f b := by
  induction steps generalizing b with
  | nil => rfl
  | cons s steps ih =>
    obtain ⟨hs, hsteps⟩ := List.forall_mem_cons.1 hsteps
    rw [Step.run_cons, ih _ hsteps, hf s hs]

theorem Kept.publishText (key value : String) : f (b.publishText now key value) = f b := by
  rw [← run_text b now key fun _ => value]
  exact hf.run b (Script.forall_mem_text (fun _ _ => trivial) _ _ _)

theorem Kept.keepHouse : f (b.keepHouse now) = f b := by
  rw [← run_keepHouse]
  exact hf.run b (Script.forall_mem_keepHouse (fun _ _ => trivial) b)

theorem Kept.processAll (client : String) (ms : List Message) :
    f (b.processAll now client ms).2 = f b := by
  rw [← run_messages]
  refine hf.run b (Script.forall_mem_inTurn (fun s hs c => ?_) b)
  obtain ⟨m, -, rfl⟩ := List.mem_map.1 hs
  exact Script.forall_mem_message (fun _ => trivial) (fun _ => trivial)
    (fun _ _ _ => ⟨trivial, fun _ => trivial⟩) (fun _ => trivial) (fun _ => trivial)
    (fun _ _ => trivial) c

theorem Kept.collect (client : String) : f (b.collect client).2 = f b :=
  hf (.collect client) trivial b

end

/-! ## The mail that an operation hands out -/

/-- A step that hands out no mail. -/
def Step.Keeps : Step → Prop
  | .collect _ => False
  | _ => True

theorem along_handed_eq_nil {client : String} {steps : List Step} (h : ∀ s ∈ steps, s.Keeps)
    (b : Broker) : Step.along (Step.handed client) steps b = [] := by
  induction steps generalizing b with
  | nil => rfl
  | cons s steps ih =>
    rw [Step.along_cons, ih (fun t ht => h t (by simp [ht])), List.append_nil]
    cases s with
    | collect c => exact absurd (h _ List.mem_cons_self) not_false
    | _ => rfl

theorem keeps_message (now : Float) (client : String) (m : Message) (b : Broker) :
    ∀ s ∈ Script.message now client m b, s.Keeps :=
  Script.forall_mem_message (fun _ => trivial) (fun _ => trivial)
    (fun _ _ _ => ⟨trivial, fun _ => trivial⟩) (fun _ => trivial) (fun _ => trivial)
    (fun _ _ => trivial) b

/-- The mail that an operation hands out is the mail that its steps hand out. -/
theorem along_handed_script (now : Float) (client : String) (op : Op) (b : Broker) :
    Step.along (Step.handed client) (op.script now b) b = op.delivered now client b := by
  cases op with
  | receive c ms =>
    have hsettling : Step.along (Step.handed client)
        (Script.settling now c ms (b.recordLatency now c ms)) (b.recordLatency now c ms) = [] :=
      along_handed_eq_nil (Script.forall_mem_settling (fun _ _ => trivial) (fun _ _ _ => trivial)
        (fun m _ => keeps_message now c m) _) _
    rw [Op.script, Script.packet, Step.along_cons, note_recordLatency, Script.along_andThen,
      hsettling, run_settling, Op.delivered, receive_eq, List.drop_left]
    by_cases hempty : ms.isEmpty
    · simp [hempty, Step.handed]
    · by_cases hc : c = client <;> simp [hempty, hc, Step.handed]
  | fetch c =>
    rw [Op.script, Op.delivered, Step.along_cons, Step.along_nil, List.append_nil]
    by_cases hc : c = client
    · simp [hc, Step.handed, collect]
    · simp [hc, Step.handed]
  | connect c => rfl
  | disconnect c => rfl
  | keepHouse =>
    exact along_handed_eq_nil (Script.forall_mem_keepHouse (fun _ _ => trivial) b) b
  | keepHouseIfDue =>
    exact along_handed_eq_nil
      (Script.forall_mem_keepHouseIfDue (fun _ _ => trivial) (fun _ _ _ => trivial) b) b

/-! ## Runs -/

/-- The broker after operations, each at its local time. -/
def performAll (ops : List (Float × Op)) (b : Broker) : Broker :=
  ops.foldl (fun b o => o.2.perform o.1 b) b

/-- The mail that operations hand to a client, in the order in which they do. -/
def deliveredAll (client : String) : List (Float × Op) → Broker → List Message
  | [], _ => []
  | (now, op) :: ops, b => op.delivered now client b ++ deliveredAll client ops (op.perform now b)

/-- The reply that an operation gives to a packet. -/
def Op.reply? (now : Float) : Op → Broker → Option (List Message)
  | receive client ms, b => some (b.receive now client ms).1
  | _, _ => none

/-- The replies that operations give to packets. -/
def repliesAll : List (Float × Op) → Broker → List (List Message)
  | [], _ => []
  | (now, op) :: ops, b => (op.reply? now b).toList ++ repliesAll ops (op.perform now b)

section
variable (ops more : List (Float × Op)) (b : Broker)

theorem performAll_append : performAll (ops ++ more) b = performAll more (performAll ops b) :=
  List.foldl_append

theorem deliveredAll_append (client : String) :
    deliveredAll client (ops ++ more) b =
      deliveredAll client ops b ++ deliveredAll client more (performAll ops b) := by
  induction ops generalizing b with
  | nil => rfl
  | cons o ops ih =>
    rw [List.cons_append, deliveredAll, ih, deliveredAll, List.append_assoc]
    rfl

theorem repliesAll_append :
    repliesAll (ops ++ more) b = repliesAll ops b ++ repliesAll more (performAll ops b) := by
  induction ops generalizing b with
  | nil => rfl
  | cons o ops ih =>
    rw [List.cons_append, repliesAll, ih, repliesAll, List.append_assoc]
    rfl

end

/-- The steps of operations. -/
def scriptAll (ops : List (Float × Op)) : Script :=
  Script.inTurn (ops.map fun o => o.2.script o.1)

theorem scriptAll_cons (now : Float) (op : Op) (ops : List (Float × Op)) :
    scriptAll ((now, op) :: ops) = (op.script now).andThen (scriptAll ops) := rfl

/-- The accepted writes of operations, the broker's own included, as subscribers get them. The steps
that they are gathered from lead to the same broker (`run_scriptAll`). -/
def acceptedWrites (ops : List (Float × Op)) (b : Broker) : List Message :=
  Step.along Step.accepted (scriptAll ops b) b

/-- The mail that operations should bring a client that is to be told of everything. -/
def owedAll (client : String) (ops : List (Float × Op)) (b : Broker) : List Message :=
  Step.along (Step.owed client) (scriptAll ops b) b

theorem run_scriptAll (ops : List (Float × Op)) (b : Broker) :
    Step.run (scriptAll ops b) b = performAll ops b := by
  induction ops generalizing b with
  | nil => rfl
  | cons o ops ih =>
    rw [scriptAll_cons, Script.run_andThen, run_script, ih]
    rfl

theorem Named.performAll {b : Broker} (h : b.Named) (ops : List (Float × Op)) :
    (performAll ops b).Named := by
  rw [← run_scriptAll]
  exact h.run _

theorem along_handed_scriptAll (client : String) (ops : List (Float × Op)) (b : Broker) :
    Step.along (Step.handed client) (scriptAll ops b) b = deliveredAll client ops b := by
  induction ops generalizing b with
  | nil => rfl
  | cons o ops ih =>
    rw [scriptAll_cons, Script.along_andThen, run_script, along_handed_script, ih]
    rfl

end PubSub.Broker

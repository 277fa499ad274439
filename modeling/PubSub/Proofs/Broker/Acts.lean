import PubSub.Proofs.Broker.Run

/-!
# One thing after the other

An operation of a broker does several things in turn: a packet is processed message by message
before its reply is collected, and housekeeping writes one variable after the other. `Broker.Act` is
one of these things, at a time of its own. An operation is a list of them
(`Broker.reaches_perform`), so what acts lead to are also the brokers in the middle of an operation.
-/

namespace PubSub.Broker

/-- One thing that a broker does. -/
inductive Act where
  /-- The broker notes how long a packet of a client has been on its way. -/
  | arrive (client : String) (ms : List Message)
  /-- A message of a client is processed. -/
  | process (client : String) (m : Message)
  /-- The mail held for a client is collected. -/
  | fetch (client : String)
  /-- The broker writes a number of its own. -/
  | publishNumber (key : String) (value : Float)
  /-- The broker writes a text of its own. -/
  | publishText (key value : String)
  /-- A client is connected. -/
  | enlist (client : String)
  /-- All that is kept for a client is dropped. -/
  | release (client : String)
  /-- The broker notes that it is about to write its own variables. -/
  | beginSummary

namespace Act

/-- The broker after an act. -/
def perform (now : Float) : Act → Broker → Broker
  | arrive client ms, b => b.recordLatency now client ms
  | process client m, b => b.processed now client m
  | fetch client, b => (b.collect client).2
  | publishNumber key value, b => b.publishNumber now key value
  | publishText key value, b => b.publishText now key value
  | enlist client, b => { b with clients := b.clients.add client }
  | release client, b =>
    { b with
      store := b.store.map fun _ v => v.unsubscribe client
      filters := b.filters.erase client
      held := b.held.erase client
      clients := b.clients.erase client
      latencies := b.latencies.erase client }
  | beginSummary, b => { b with summaryTime := now }

/-- The steps of an act. -/
def script (now : Float) : Act → Script
  | arrive client ms => fun b =>
    [.note b.clients (b.recordLatency now client ms).latencies b.summaryTime]
  | process client m => Script.message now client m
  | fetch client => fun _ => [.collect client]
  | publishNumber key value => Script.number now key fun _ => value
  | publishText key value => Script.text now key fun _ => value
  | enlist client => fun b => [.note (b.clients.add client) b.latencies b.summaryTime]
  | release client => fun _ => [.withdraw client fun _ _ => true, .forget client]
  | beginSummary => fun b => [.note b.clients b.latencies now]

/-- The steps of an act lead to the broker after it. -/
theorem run_script (now : Float) (act : Act) (b : Broker) :
    Step.run (act.script now b) b = act.perform now b := by
  cases act with
  | arrive client ms => exact note_recordLatency b now client ms
  | process client m => exact run_message b now client m
  | publishNumber key value => exact run_number b now key fun _ => value
  | publishText key value => exact run_text b now key fun _ => value
  | fetch | enlist | release | beginSummary => rfl

/-- What holds of all steps that an act can lead to holds of its steps. -/
theorem forall_mem_script {P : Step → Prop} {now : Float} {act : Act} (b : Broker)
    (hwrite : ∀ m h, P (.write now m h))
    (hnote : ∀ clients latencies t, P (.note clients latencies t))
    (hcollect : ∀ client, P (.collect client))
    (hmessage : ∀ client m, act = .process client m → ∀ s ∈ Script.message now client m b, P s)
    (hrelease : ∀ client, act = .release client →
      P (.withdraw client fun _ _ => true) ∧ P (.forget client)) :
    ∀ s ∈ act.script now b, P s := by
  cases act with
  | process client m => exact hmessage client m rfl
  | fetch client => exact List.forall_mem_singleton.2 (hcollect client)
  | publishNumber key value => exact Script.forall_mem_number hwrite key (fun _ => value) b
  | publishText key value => exact Script.forall_mem_text hwrite key (fun _ => value) b
  | release client =>
    obtain ⟨hwithdraw, hforget⟩ := hrelease client rfl
    exact List.forall_mem_cons.2 ⟨hwithdraw, List.forall_mem_singleton.2 hforget⟩
  | arrive | enlist | beginSummary => exact List.forall_mem_singleton.2 (hnote _ _ _)

end Act

/-! ## Runs -/

/-- The broker after acts, each at its local time. -/
def performActs (acts : List (Float × Act)) (b : Broker) : Broker :=
  acts.foldl (fun b a => a.2.perform a.1 b) b

section
variable (now : Float) (act : Act) (acts more : List (Float × Act)) (b : Broker)

@[simp] theorem performActs_nil : performActs [] b = b := rfl

@[simp] theorem performActs_cons :
    performActs ((now, act) :: acts) b = performActs acts (act.perform now b) := rfl

theorem performActs_append : performActs (acts ++ more) b = performActs more (performActs acts b) :=
  List.foldl_append

end

/-- What each step of such acts keeps, the acts keep. -/
theorem performActs_induction {P : Broker → Prop} {ok : Act → Prop} {good : Step → Prop}
    {b : Broker} (h : P b)
    (hscript : ∀ now act b, ok act → ∀ s ∈ act.script now b, good s)
    (hstep : ∀ s b, good s → P b → P (s.apply b)) {acts : List (Float × Act)}
    (hacts : ∀ a ∈ acts, ok a.2) : P (performActs acts b) := by
  refine List.foldlRecOn acts _ h fun b hb a ha => ?_
  rw [← Act.run_script]
  exact List.foldlRecOn _ _ hb fun c hc s hs =>
    hstep s c (hscript a.1 a.2 b (hacts a ha) s hs) hc

/-- The steps of acts. -/
def scriptActs (acts : List (Float × Act)) : Script :=
  Script.inTurn (acts.map fun a => a.2.script a.1)

/-- The steps of acts lead to the broker after them. -/
theorem run_scriptActs (acts : List (Float × Act)) (b : Broker) :
    Step.run (scriptActs acts b) b = performActs acts b := by
  induction acts generalizing b with
  | nil => rfl
  | cons a acts ih =>
    rw [scriptActs, List.map_cons, Script.run_inTurn_cons, Act.run_script]
    exact ih (a.2.perform a.1 b)

theorem Named.performActs {b : Broker} (h : b.Named) (acts : List (Float × Act)) :
    (performActs acts b).Named := by
  rw [← run_scriptActs]
  exact h.run _

/-! ## Operations are acts -/

/-- Acts at one time lead from one broker to another. -/
def Reaches (now : Float) (b c : Broker) : Prop :=
  ∃ acts : List Act, performActs (acts.map (now, ·)) b = c

section
variable {now : Float} {b c : Broker}

theorem Reaches.refl (now : Float) (b : Broker) : Reaches now b b := ⟨[], rfl⟩

theorem Reaches.act (h : Reaches now b c) (act : Act) : Reaches now b (act.perform now c) := by
  obtain ⟨acts, rfl⟩ := h
  refine ⟨acts ++ [act], ?_⟩
  rw [List.map_append, performActs_append]
  rfl

variable (h : Reaches now b c)
include h

theorem Reaches.processAll (client : String) (ms : List Message) :
    Reaches now b (c.processAll now client ms).2 := by
  rw [processAll_snd]
  exact List.foldlRecOn ms _ h fun _ hd m _ => hd.act (.process client m)

theorem Reaches.publishNumber (key : String) (value : Float) :
    Reaches now b (c.publishNumber now key value) :=
  h.act (.publishNumber key value)

theorem Reaches.publishText (key value : String) :
    Reaches now b (c.publishText now key value) :=
  h.act (.publishText key value)

theorem Reaches.keepHouse : Reaches now b (c.keepHouse now) := by
  have hnumbers := (h.publishNumber timeKey now).publishNumber uptimeKey
  exact ((((hnumbers _).publishText clientsKey _).publishText variableSummaryKey
    _).publishText readWriteSummaryKey _).publishText qualityKey _

theorem Reaches.keepHouseIfDue : Reaches now b (c.keepHouseIfDue now) := by
  rw [Broker.keepHouseIfDue]
  split
  · exact (h.act .beginSummary).keepHouse
  · exact h

theorem Reaches.receive (client : String) (ms : List Message) :
    Reaches now b (c.receive now client ms).2 := by
  have hsettled : Reaches now b (c.settled now client ms) :=
    ((h.act (.arrive client ms)).processAll client ms).keepHouseIfDue
  rw [receive_eq]
  split
  · exact hsettled
  · exact hsettled.act (.fetch client)

end

/-- An operation is a list of acts at its time. -/
theorem reaches_perform (now : Float) (op : Op) (b : Broker) :
    Reaches now b (op.perform now b) := by
  have h := Reaches.refl now b
  cases op with
  | receive client ms => exact h.receive client ms
  | fetch client => exact h.act (.fetch client)
  | connect client => exact (h.act (.enlist client)).publishText eventKey _
  | disconnect client => exact (h.act (.release client)).publishText eventKey _
  | keepHouse => exact h.keepHouse
  | keepHouseIfDue => exact h.keepHouseIfDue

end PubSub.Broker

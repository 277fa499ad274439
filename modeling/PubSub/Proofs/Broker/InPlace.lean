import PubSub.Proofs.Broker.Subscriptions

/-!
# Messages in place

`Broker.process` gives either the broker after a message or the reason why the message fails. A
broker that changes its tables in place has no such choice: whatever it has done by the time it
fails stays. `InPlace.process` is the same message in place, effect by effect and in the order in
which they happen: an entry is made before the type of a write is checked, and filters subscribe
before that as well.

The two agree (`InPlace.run_process`, and for all messages of a packet
`InPlace.processAll_eq_foldl`), because nothing is done before the last check that can fail. So a
message fails for one of the reasons in `Broker.Fails`, and then nothing has changed
(`Broker.process_fails_iff`).
-/

namespace PubSub.Broker

/-- A computation on the answers so far and the broker. What it has done stays if it fails. -/
abbrev InPlace := EStateM Error (List Message × Broker)

namespace InPlace

/-! ## Effects -/

/-- The broker by now. -/
def broker : InPlace Broker := return (← get).2

/-- Changes the broker. -/
def alter (f : Broker → Broker) : InPlace Unit := modify fun s => (s.1, f s.2)

/-- Adds answers. -/
def answer (ms : List Message) : InPlace Unit := modify fun s => (s.1 ++ ms, s.2)

/-- The outcome of something that changes nothing. -/
def attempt {α : Type} : Except Error α → InPlace α
  | .ok a => pure a
  | .error e => throw e

/-- Makes an entry for a variable, if there is none. -/
def enter (key : String) (fresh : Variable) : InPlace Unit :=
  alter fun b => if b.store.contains key then b else { b with store := b.store.insert key fresh }

/-- Changes the entry of a variable. -/
def alterVariable (key : String) (f : Variable → Variable) : InPlace Unit :=
  alter fun b => { b with store := b.store.modify key f }

/-! ## Messages -/

/-- Subscribes every client with a filter for a write, filter by filter. -/
def applyFilters (m : Message) : InPlace Unit := do
  (← broker).filters.entries.forM fun e =>
    (e.2.filter fun f => f.covers m.source m.key).forM fun f =>
      alterVariable m.key fun v => v.subscribe e.1 f.period

/-- Makes the variable of a message ready for a write: it has an entry, and if this is its first
write it takes the type of the message and filters subscribe to it. -/
def prepare (now : Float) (m : Message) : InPlace Variable := do
  let fresh := Variable.fresh m.key m.dataType now
  enter m.key fresh
  if (((← broker).store.get? m.key).getD fresh).writes = 0 then
    alterVariable m.key fun v => { v with dataType := m.dataType }
    applyFilters m
  return ((← broker).store.get? m.key).getD fresh

/-- Writes a variable and notifies its subscribers. -/
def notify (now : Float) (m : Message) : InPlace Unit := do
  let v ← prepare now m
  if v.dataType ≠ m.dataType then throw (.typeConflict m.key v.dataType m.dataType)
  else
    alter fun b => b.fanOut now (v.write m now b.config.community) (m.stamped b.config.community)

/-- Carries out a registration. -/
def register (client : String) (m : Message) (now : Float) : InPlace Unit :=
  match m.type with
  | .register => alter fun b => b.subscribe client m.key m.value now
  | .wildcardRegister => do
    let f ← attempt (Filter.parse m.textValue)
    alter (Step.keep client f).apply
    ((← broker).store.values.filter fun v => f.covers v.writer v.name).forM fun v =>
      alter fun b => b.subscribe client v.name f.period now
  | other => throw (.notARegistration other)

/-- Takes a registration back. -/
def unregister (client : String) (m : Message) : InPlace Unit :=
  match m.type with
  | .unregister => alterVariable m.key fun v => v.unsubscribe client
  | .wildcardUnregister => do
    let f ← attempt (Filter.parse m.textValue)
    alter (Step.drop client f).apply
    alter (Step.withdraw client fun _ v => f.covers v.writer v.name).apply
  | other => throw (.notAnUnregistration other)

/-- Answers a request to the broker. -/
def request (now : Float) (m : Message) : InPlace Unit := do
  let b ← broker
  if m.key = requestAll then
    b.store.values.forM fun v => answer [b.listing m v]
  else if asksFor requestProcesses m then
    b.clients.names.forM fun client =>
      answer [b.answer m requestProcesses (b.processLine client) (now - b.startTime)]
  else if asksFor requestVariables m then
    answer [b.answer m requestVariables (",".intercalate b.store.names) now]
  else if asksFor requestClear m then
    alter fun b => b.clear now
    answer [b.answer m requestClear "" now]
  else throw (.unknownRequest m.key)

/-- Processes one message of a client. -/
def process (now : Float) (client : String) (m : Message) : InPlace Unit :=
  match m.type with
  | .notify => notify now m
  | .register | .wildcardRegister => register client m now
  | .unregister | .wildcardUnregister => unregister client m
  | .serverRequest => request now m
  | _ => pure ()

/-! ## What effects lead to -/

section
variable (s : List Message × Broker)

@[simp] theorem run_broker : broker.run s = .ok s.2 s := rfl

@[simp] theorem run_alter (f : Broker → Broker) : (alter f).run s = .ok () (s.1, f s.2) := rfl

/-- Something that is done for each element of a list, and that does not fail. -/
theorem run_forM {α β : Type} (act : α → InPlace Unit) (state : β → List Message × Broker)
    {next : β → α → β} (h : ∀ a x, (act a).run (state x) = .ok () (state (next x a)))
    (l : List α) (x : β) : (l.forM act).run (state x) = .ok () (state (l.foldl next x)) := by
  induction l generalizing x with
  | nil => rfl
  | cons a l ih =>
    rw [List.forM_eq_forM, List.forM_cons, EStateM.run_bind, h]
    exact ih (next x a)

end

end InPlace

/-! ## Writes -/

/-- The broker with an entry for a variable, instead of any it had. -/
def withVariable (b : Broker) (key : String) (v : Variable) : Broker :=
  { b with store := b.store.insert key v }

section
variable (b : Broker) (key : String) (v w : Variable) (answers : List Message)

theorem get?_store_withVariable : (b.withVariable key v).store.get? key = some v :=
  (Table.get?_insert ..).trans (if_pos rfl)

/-- An entry that is there already. -/
theorem withVariable_of_get? {v : Variable} (h : b.store.get? key = some v) :
    b.withVariable key v = b := by
  rw [withVariable, Table.insert_eq_self h]

theorem modify_withVariable (f : Variable → Variable) :
    { b.withVariable key v with store := (b.withVariable key v).store.modify key f } =
      b.withVariable key (f v) :=
  congrArg (fun store => { b with store }) (Table.modify_insert b.store key v f)

/-- Offering a message to the subscribers of a variable writes its entry anew. -/
theorem fanOut_withVariable (h : v.name = key) (now : Float) (m : Message) :
    (b.withVariable key w).fanOut now v m = b.fanOut now v m := by
  have hstore (u : Variable) : (b.store.insert key w).insert v.name u = b.store.insert v.name u :=
    Table.ext_get? fun name => by
      rw [Table.get?_insert, Table.get?_insert, Table.get?_insert, h]
      split <;> rfl
  exact congrArg (fun store => { b.fanOut now v m with store }) (hstore _)

namespace InPlace

theorem run_enter (fresh : Variable) :
    (enter key fresh).run (answers, b) =
      .ok () (answers, b.withVariable key ((b.store.get? key).getD fresh)) := by
  refine congrArg (fun c => EStateM.Result.ok () (answers, c)) ?_
  cases h : b.store.get? key with
  | none =>
    have hnone : b.store.contains key = false := by rw [Table.contains, h]; rfl
    simp [hnone, withVariable]
  | some v =>
    have hsome : b.store.contains key = true := Table.contains_eq_true_iff.2 ⟨v, h⟩
    simp [hsome, withVariable_of_get? b key h]

theorem run_alterVariable (f : Variable → Variable) :
    (alterVariable key f).run (answers, b.withVariable key v) =
      .ok () (answers, b.withVariable key (f v)) :=
  congrArg (fun c => EStateM.Result.ok () (answers, c)) (modify_withVariable b key v f)

variable (now : Float) (m : Message)

theorem run_applyFilters :
    (applyFilters m).run (answers, b.withVariable m.key v) =
      .ok () (answers, b.withVariable m.key (b.subscribeByFilters m v)) :=
  run_forM _ (fun v => (answers, b.withVariable m.key v)) (fun e v =>
    run_forM _ (fun v => (answers, b.withVariable m.key v))
      (fun f v => run_alterVariable b m.key v answers fun v => v.subscribe e.1 f.period) _ v) _ v

theorem run_prepare :
    (prepare now m).run (answers, b) =
      .ok (b.target now m) (answers, b.withVariable m.key (b.target now m)) := by
  rw [prepare, target, EStateM.run_bind, run_enter]
  simp only [EStateM.run_bind, run_broker, get?_store_withVariable, Option.getD_some]
  split
  · simp only [EStateM.run_bind, run_alterVariable, run_applyFilters, run_broker,
      get?_store_withVariable, Option.getD_some]
    rfl
  · simp only [EStateM.run_bind, EStateM.run_pure, run_broker,
      get?_store_withVariable, Option.getD_some]

/-! ## The outcome -/

/-- The result in place is that of the message: the answers and the broker after it, or the failure
with everything as it was. -/
def Agrees (b : Broker) (answers : List Message)
    (r : EStateM.Result Error (List Message × Broker) Unit) :
    Except Error (List Message × Broker) → Prop
  | .ok (more, c) => ∃ d, r = .ok () (answers ++ more, d) ∧ (b.Named → d = c)
  | .error e => r = .error e (answers, b)

theorem agrees_alter (f : Broker → Broker) :
    Agrees b answers ((alter f).run (answers, b)) (.ok ([], f b)) :=
  ⟨f b, by rw [run_alter, List.append_nil], fun _ => rfl⟩

theorem agrees_notify :
    Agrees b answers ((notify now m).run (answers, b)) (do return ([], ← b.notify now m)) := by
  rw [notify, EStateM.run_bind, run_prepare]
  by_cases h : b.Accepts now m
  · rw [notify_of_accepts h]
    refine ⟨(b.withVariable m.key (b.target now m)).fanOut now
      ((b.target now m).write m now b.config.community) (m.stamped b.config.community), ?_,
      fun hn => ?_⟩
    · rw [List.append_nil]
      exact congrArg (EStateM.run · _) (if_neg (not_not_intro h))
    · have hname : ((b.target now m).write m now b.config.community).name = m.key := by
        rw [Variable.write_name, hn.target]
      exact fanOut_withVariable b m.key _ _ hname now _
  · rw [notify_of_not_accepts h]
    -- The variable has been written, so preparing it has changed nothing.
    obtain ⟨v, hv, hw⟩ | hunwritten := b.written_or_unwritten m.key
    · rw [Accepts, target_of_written hv hw] at h
      rw [target_of_written hv hw, withVariable_of_get? b m.key hv]
      exact congrArg (EStateM.run · _) (if_pos h)
    · exact absurd (accepts_of_unwritten hunwritten) h

theorem agrees_register (client : String) :
    Agrees b answers ((register client m now).run (answers, b))
      (do return ([], ← b.register client m now)) := by
  rw [register, Broker.register]
  cases m.type with
  | register => exact agrees_alter ..
  | wildcardRegister =>
    cases Filter.parse m.textValue with
    | error e => rfl
    | ok f =>
      refine ⟨b.addFilter client f now, ?_, fun _ => rfl⟩
      rw [List.append_nil]
      exact run_forM (fun v : Variable => alter fun c => c.subscribe client v.name f.period now)
        (fun c => (answers, c)) (fun v c => run_alter _ _) _ _
  | _ => rfl

theorem agrees_unregister (client : String) :
    Agrees b answers ((unregister client m).run (answers, b))
      (do return ([], ← b.unregister client m)) := by
  rw [unregister, Broker.unregister]
  cases m.type with
  | unregister => exact agrees_alter ..
  | wildcardUnregister =>
    cases Filter.parse m.textValue with
    | error e => rfl
    | ok f => exact agrees_alter b answers (Broker.removeFilter · client f)
  | _ => rfl

theorem run_forM_answer {α : Type} (l : List α) (f : α → Message) :
    (l.forM fun a => answer [f a]).run (answers, b) = .ok () (answers ++ l.map f, b) := by
  induction l generalizing answers with
  | nil => rw [List.map_nil, List.append_nil]; rfl
  | cons a l ih =>
    rw [List.map_cons, List.append_cons]
    exact ih (answers ++ [f a])

theorem agrees_request : Agrees b answers ((request now m).run (answers, b)) (b.request now m) := by
  rw [request, Broker.request, EStateM.run_bind, run_broker]
  split_ifs
  · exact ⟨b, run_forM_answer b answers _ _, fun _ => rfl⟩
  · exact ⟨b, run_forM_answer b answers _ _, fun _ => rfl⟩
  · exact ⟨b, rfl, fun _ => rfl⟩
  · exact ⟨b.clear now, rfl, fun _ => rfl⟩
  · rfl

theorem agrees_process (client : String) :
    Agrees b answers ((process now client m).run (answers, b)) (b.process now client m) := by
  rw [process, Broker.process]
  cases m.type with
  | notify => exact agrees_notify ..
  | register | wildcardRegister => exact agrees_register ..
  | unregister | wildcardUnregister => exact agrees_unregister ..
  | serverRequest => exact agrees_request ..
  | _ => exact ⟨b, by rw [List.append_nil]; rfl, fun _ => rfl⟩

/-- A message in place does what the message does. -/
theorem run_process (hn : b.Named) (client : String) :
    (process now client m).run (answers, b) =
      match b.process now client m with
      | .ok (more, c) => .ok () (answers ++ more, c)
      | .error e => .error e (answers, b) := by
  have hagrees := agrees_process b answers now m client
  cases h : b.process now client m with
  | ok outcome =>
    rw [h] at hagrees
    obtain ⟨d, hrun, hd⟩ := hagrees
    rw [hrun, hd hn]
  | error e =>
    rw [h] at hagrees
    exact hagrees

/-- The messages of a packet in place, whether they fail or not, do what the messages do. -/
theorem processAll_eq_foldl (hn : b.Named) (client : String) (ms : List Message) :
    b.processAll now client ms =
      ms.foldl (fun s m =>
        match (process now client m).run s with
        | .ok _ t | .error _ t => t) ([], b) := by
  rw [Broker.processAll]
  generalize ([] : List Message) = answers
  induction ms generalizing answers b with
  | nil => rfl
  | cons m ms ih =>
    have hn' : (b.processed now client m).Named := by
      rw [← run_message]
      exact hn.run _
    rw [processed] at hn'
    rw [List.foldl_cons, List.foldl_cons, run_process b answers now m hn client]
    cases h : b.process now client m with
    | ok outcome =>
      simp only [h] at hn' ⊢
      exact ih outcome.2 hn' (answers ++ outcome.1)
    | error e =>
      simp only [h]
      exact ih b hn answers

end InPlace

end

/-! ## Messages that fail -/

/-- Whether a message fails, and how: a write of a variable that has been written with another type,
a registration by a filter, or the end of one, whose text describes no filter, or a request for
nothing that the broker answers. -/
def Fails (b : Broker) (m : Message) (e : Error) : Prop :=
  match m.type with
  | .notify => ∃ v, b.store.get? m.key = some v ∧ v.writes ≠ 0 ∧ v.dataType ≠ m.dataType ∧
      e = .typeConflict m.key v.dataType m.dataType
  | .wildcardRegister | .wildcardUnregister => Filter.parse m.textValue = .error e
  | .serverRequest => m.key ≠ requestAll ∧ asksFor requestProcesses m = false ∧
      asksFor requestVariables m = false ∧ asksFor requestClear m = false ∧
      e = .unknownRequest m.key
  | _ => False

section
variable {b : Broker} {now : Float} {client : String} {m : Message} {e : Error}

theorem notify_eq_error_iff :
    b.notify now m = .error e ↔ ∃ v, b.store.get? m.key = some v ∧ v.writes ≠ 0 ∧
      v.dataType ≠ m.dataType ∧ e = .typeConflict m.key v.dataType m.dataType := by
  constructor
  · intro h
    have hrefused : ¬ b.Accepts now m := fun haccepts => by
      rw [notify_of_accepts haccepts] at h
      cases h
    obtain ⟨v, hv, hw⟩ | hunwritten := b.written_or_unwritten m.key
    · have htarget : b.target now m = v := target_of_written hv hw
      rw [notify_of_not_accepts hrefused, htarget] at h
      rw [Accepts, htarget] at hrefused
      exact ⟨v, hv, hw, hrefused, (Except.error.inj h).symm⟩
    · exact absurd (accepts_of_unwritten hunwritten) hrefused
  · rintro ⟨v, hv, hw, htype, rfl⟩
    have htarget : b.target now m = v := target_of_written hv hw
    have hrefused : ¬ b.Accepts now m := by rwa [Accepts, htarget]
    rw [notify_of_not_accepts hrefused, htarget]

theorem request_eq_error_iff :
    b.request now m = .error e ↔ m.key ≠ requestAll ∧ asksFor requestProcesses m = false ∧
      asksFor requestVariables m = false ∧ asksFor requestClear m = false ∧
      e = .unknownRequest m.key := by
  rw [request]
  split_ifs with hall hprocesses hvariables hclear
  · simp [hall]
  · simp [hprocesses]
  · simp [hvariables]
  · simp [hclear]
  · simp [hall, hprocesses, hvariables, hclear, eq_comm]

theorem return_eq_error_iff {α : Type} {ms : List Message} {x : Except Error α} :
    (do return (ms, ← x)) = .error e ↔ x = .error e := by
  cases x <;> simp [bind, Except.bind, pure, Except.pure]

theorem process_eq_error_iff (now : Float) (client : String) :
    b.process now client m = .error e ↔ Fails b m e := by
  rw [process, Fails]
  split <;> rename_i htype <;> simp only [htype, return_eq_error_iff]
  · exact notify_eq_error_iff
  · simp only [register, htype]
    simp
  · simp only [register, htype]
    cases Filter.parse m.textValue <;> simp [bind, Except.bind, pure, Except.pure]
  · simp only [unregister, htype]
    simp
  · simp only [unregister, htype]
    cases Filter.parse m.textValue <;> simp [bind, Except.bind, pure, Except.pure]
  · exact request_eq_error_iff
  · simp

/-- A message fails if and only if it is a write of a variable that has been written with another
type, it speaks of a filter that its text does not describe, or it is an unknown request; and then
the broker and the answers are what they were, although everything is done in place. -/
theorem process_fails_iff (b : Broker) (now : Float) (client : String) (m : Message)
    (answers : List Message) (e : Error) (s : List Message × Broker) :
    (b.process now client m = .error e ↔ Fails b m e) ∧
      ((InPlace.process now client m).run (answers, b) = .error e s ↔
        Fails b m e ∧ s = (answers, b)) := by
  refine ⟨process_eq_error_iff now client, ?_⟩
  have hagrees := InPlace.agrees_process b answers now m client
  rw [← process_eq_error_iff now client]
  cases h : b.process now client m with
  | ok outcome =>
    rw [h] at hagrees
    obtain ⟨d, hrun, -⟩ := hagrees
    simp [hrun]
  | error e' =>
    rw [h] at hagrees
    rw [show (InPlace.process now client m).run (answers, b) = .error e' (answers, b) from hagrees]
    simp [eq_comm]

end

end PubSub.Broker

import PubSub.Proofs.Broker.Run

/-!
# What clearing leaves

A broker that is cleared has no mail for anyone, and its variables are as if nobody had written
them, but for four things: their type, their subscriptions, who wrote them last, and when their
frequency was last estimated. Two brokers that agree on these cannot be told apart after they have
been cleared, whatever was written to them before (`Broker.clear_forgets_writes`). But the writer
shows, in listings and summaries and to filters (`Broker.cleared_variable_shows_writer`).

Two cleared brokers may differ in who has an empty list of mail and who has none. Nobody sees that
(`Broker.SameMail`): their steps are the same and lead to such brokers again.
-/

namespace PubSub

/-- An unwritten variable of the name and the type of another one, and with its writer. -/
def Variable.remnant (v : Variable) : Variable :=
  { Variable.fresh v.name v.dataType 0.0 with
    writer := v.writer
    sourceAux := v.sourceAux
    community := v.community }

theorem Variable.summaryLine_reset (startTime : Float) (v : Variable) :
    v.reset.summaryLine startTime = v.remnant.summaryLine startTime := rfl

theorem Variable.covers_reset (f : Filter) (v : Variable) :
    f.covers v.reset.writer v.reset.name = f.covers v.writer v.name := rfl

namespace Broker

/-! ## Brokers with the same mail -/

/-- Two brokers that differ at most in the mail that they hold, and hold the same mail for
everyone. -/
def SameMail (b c : Broker) : Prop :=
  ∃ held, c = { b with held } ∧ ∀ client, c.heldFor client = b.heldFor client

variable {b c : Broker} {now : Float}

theorem fanOut_held (b : Broker) (held : Table (List Message)) (now : Float) (v : Variable)
    (m : Message) :
    ∃ held', ({ b with held } : Broker).fanOut now v m =
      { b.fanOut now v m with held := held' } := by
  simp only [fanOut, Table.map_map, offer_fst]
  exact ⟨_, rfl⟩

theorem subscribe_held (b : Broker) (held : Table (List Message)) (client key : String)
    (period now : Float) :
    ∃ held', ({ b with held } : Broker).subscribe client key period now =
      { b.subscribe client key period now with held := held' } := by
  simp only [subscribe]
  split
  · exact ⟨_, rfl⟩
  · exact ⟨_, rfl⟩

theorem collect_held (b : Broker) (held : Table (List Message)) (client : String) :
    ∃ held', (({ b with held } : Broker).collect client).2 =
      { (b.collect client).2 with held := held' } := by
  have hcollect (d : Broker) : ∃ held', (d.collect client).2 = { d with held := held' } := by
    rw [collect]
    split <;> exact ⟨_, rfl⟩
  obtain ⟨first, hfirst⟩ := hcollect b
  obtain ⟨second, hsecond⟩ := hcollect { b with held }
  rw [hfirst, hsecond]
  exact ⟨second, rfl⟩

/-- Nothing but the mail depends on the mail. -/
theorem apply_held (s : Step) (b : Broker) (held : Table (List Message)) :
    ∃ held', s.apply { b with held } = { s.apply b with held := held' } := by
  cases s with
  | write now m hm =>
    by_cases haccepts : b.Accepts now m
    · have haccepts' : ({ b with held } : Broker).Accepts now m := haccepts
      rw [Step.apply_write_of_accepts hm haccepts, Step.apply_write_of_accepts hm haccepts']
      exact fanOut_held b held now _ _
    · have haccepts' : ¬ ({ b with held } : Broker).Accepts now m := haccepts
      rw [Step.apply_write_of_not_accepts hm haccepts, Step.apply_write_of_not_accepts hm haccepts']
      exact ⟨held, rfl⟩
  | subscribe client key period now => exact subscribe_held b held client key period now
  | collect client => exact collect_held b held client
  | withdraw | keep | drop | clear | forget | note => exact ⟨_, rfl⟩

theorem SameMail.apply (h : b.SameMail c) (s : Step) : (s.apply b).SameMail (s.apply c) := by
  obtain ⟨held, rfl, hmail⟩ := h
  obtain ⟨held', heq⟩ := apply_held s b held
  refine ⟨held', heq, fun client => ?_⟩
  cases s with
  | write now m hm =>
    by_cases haccepts : b.Accepts now m
    · have haccepts' : ({ b with held } : Broker).Accepts now m := haccepts
      rw [Step.apply_write_of_accepts hm haccepts, Step.apply_write_of_accepts hm haccepts',
        heldFor_fanOut, heldFor_fanOut, hmail]
      rfl
    · have haccepts' : ¬ ({ b with held } : Broker).Accepts now m := haccepts
      rw [Step.apply_write_of_not_accepts hm haccepts, Step.apply_write_of_not_accepts hm haccepts',
        hmail]
  | subscribe c key period now =>
    rw [Step.apply, Step.apply, heldFor_subscribe, heldFor_subscribe, hmail]
    rfl
  | collect c => rw [Step.apply, Step.apply, heldFor_collect, heldFor_collect, hmail]
  | clear now => rw [Step.apply, Step.apply, Step.heldFor_clear, Step.heldFor_clear]
  | forget c => rw [Step.heldFor_forget, Step.heldFor_forget, hmail]
  | withdraw | keep | drop | note => exact hmail client

theorem run_held (steps : List Step) (b : Broker) (held : Table (List Message)) :
    ∃ held', Step.run steps { b with held } = { Step.run steps b with held := held' } := by
  induction steps generalizing b held with
  | nil => exact ⟨held, rfl⟩
  | cons s steps ih =>
    obtain ⟨next, hnext⟩ := apply_held s b held
    rw [Step.run_cons, Step.run_cons, hnext]
    exact ih (s.apply b) next

theorem SameMail.run (h : b.SameMail c) (steps : List Step) :
    (Step.run steps b).SameMail (Step.run steps c) := by
  induction steps generalizing b c with
  | nil => exact h
  | cons s steps ih => exact ih (h.apply s)

theorem SameMail.along_handed (h : b.SameMail c) (client : String) (steps : List Step) :
    Step.along (Step.handed client) steps c = Step.along (Step.handed client) steps b := by
  induction steps generalizing b c with
  | nil => rfl
  | cons s steps ih =>
    rw [Step.along_cons, Step.along_cons, ih (h.apply s)]
    cases s with
    | collect k =>
      obtain ⟨held, rfl, hmail⟩ := h
      rw [Step.handed, Step.handed, hmail]
    | write | subscribe | withdraw | keep | drop | clear | forget | note => rfl

/-! ## What does not depend on the mail -/

/-- What is the same whatever mail a broker holds. -/
def Blind {α : Type} (f : Broker → α) : Prop := ∀ b held, f { b with held } = f b

theorem Blind.eq {α : Type} {f : Broker → α} (hf : Blind f) (h : b.SameMail c) : f c = f b := by
  obtain ⟨held, rfl, -⟩ := h
  exact hf b held

namespace Script

variable {s t : Script}

theorem blind_andThen (hs : Blind s) (ht : Blind t) : Blind (s.andThen t) := by
  intro b held
  obtain ⟨held', hrun⟩ := run_held (s b) b held
  rw [Script.andThen, Script.andThen, hs b held, hrun, ht]

theorem blind_inTurn {scripts : List Script} (h : ∀ s ∈ scripts, Blind s) :
    Blind (inTurn scripts) := by
  induction scripts with
  | nil => exact fun _ _ => rfl
  | cons s scripts ih =>
    obtain ⟨hs, hscripts⟩ := List.forall_mem_cons.1 h
    exact blind_andThen hs (ih hscripts)

theorem blind_number {key : String} {value : Broker → Float} (h : Blind value) :
    Blind (number now key value) := by
  intro b held
  rw [number, number, h b held]

theorem blind_text {key : String} {value : Broker → String} (h : Blind value) :
    Blind (text now key value) := by
  intro b held
  rw [text, text, h b held]

theorem blind_keepHouse (now : Float) : Blind (keepHouse now) := by
  refine blind_inTurn ?_
  iterate 2 refine List.forall_mem_cons.2 ⟨blind_number fun _ _ => rfl, ?_⟩
  iterate 4 refine List.forall_mem_cons.2 ⟨blind_text fun _ _ => rfl, ?_⟩
  exact List.forall_mem_nil _

theorem blind_keepHouseIfDue (now : Float) : Blind (keepHouseIfDue now) := by
  intro b held
  have hdue : ({ b with held } : Broker).houseIsDue now = b.houseIsDue now := rfl
  rw [keepHouseIfDue, keepHouseIfDue, hdue]
  split
  · exact congrArg _ (blind_keepHouse now { b with summaryTime := now } held)
  · rfl

theorem blind_message (now : Float) (client : String) (m : Message) :
    Blind (message now client m) := fun _ _ => rfl

theorem blind_settling (now : Float) (client : String) (ms : List Message) :
    Blind (settling now client ms) := by
  refine blind_andThen (blind_inTurn fun s hs => ?_) (blind_keepHouseIfDue now)
  obtain ⟨m, -, rfl⟩ := List.mem_map.1 hs
  exact blind_message now client m

end Script

theorem recordLatency_held (b : Broker) (held : Table (List Message)) (now : Float)
    (client : String) (ms : List Message) :
    ({ b with held } : Broker).recordLatency now client ms =
      { b.recordLatency now client ms with held } := by
  rw [recordLatency, recordLatency]
  cases newestTime? ms <;> rfl

theorem blind_script (now : Float) (op : Op) : Blind (op.script now) := by
  cases op with
  | receive client ms =>
    intro b held
    have hsettled := Script.blind_andThen (Script.blind_settling now client ms)
      (t := fun _ => if ms.isEmpty then [] else [.collect client]) (fun _ _ => rfl)
      (b.recordLatency now client ms) held
    rw [Op.script, Script.packet, Script.packet, recordLatency_held]
    exact congrArg _ hsettled
  | fetch client => exact fun _ _ => rfl
  | connect client =>
    exact Script.blind_andThen (fun _ _ => rfl) (Script.blind_text fun _ _ => rfl)
  | disconnect client =>
    exact Script.blind_andThen (fun _ _ => rfl) (Script.blind_text fun _ _ => rfl)
  | keepHouse => exact Script.blind_keepHouse now
  | keepHouseIfDue => exact Script.blind_keepHouseIfDue now

/-- The answers to a message. -/
def answersTo (now : Float) (client : String) (m : Message) (b : Broker) : List Message :=
  match b.process now client m with
  | .ok (answers, _) => answers
  | .error _ => []

/-- The answers to messages, one after the other. -/
def answersAll (now : Float) (client : String) : List Message → Broker → List Message
  | [], _ => []
  | m :: ms, b => answersTo now client m b ++ answersAll now client ms (b.processed now client m)

theorem processAll_fst (b : Broker) (now : Float) (client : String) (ms : List Message) :
    (b.processAll now client ms).1 = answersAll now client ms b := by
  rw [processAll, ← List.nil_append (answersAll now client ms b)]
  generalize ([] : List Message) = answers
  induction ms generalizing answers b with
  | nil => exact (List.append_nil _).symm
  | cons m ms ih =>
    simp only [List.foldl_cons, answersAll, answersTo, processed]
    cases b.process now client m with
    | error e => exact ih b answers
    | ok result => rw [ih, List.append_assoc]

/-- Only requests are answered. -/
theorem answersTo_eq (b : Broker) (now : Float) (client : String) (m : Message) :
    answersTo now client m b =
      if m.type = .serverRequest then
        match b.request now m with
        | .ok (answers, _) => answers
        | .error _ => []
      else [] := by
  rw [answersTo, process]
  cases m.type with
  | notify => cases b.notify now m <;> rfl
  | register | wildcardRegister => cases b.register client m now <;> rfl
  | unregister | wildcardUnregister => cases b.unregister client m <;> rfl
  | serverRequest => rfl
  | _ => rfl

theorem blind_answersTo (now : Float) (client : String) (m : Message) :
    Blind (answersTo now client m) := by
  intro b held
  rw [answersTo_eq, answersTo_eq, request, request]
  split_ifs <;> rfl

theorem blind_answersAll (now : Float) (client : String) (ms : List Message) :
    Blind (answersAll now client ms) := by
  induction ms with
  | nil => exact fun _ _ => rfl
  | cons m ms ih =>
    intro b held
    obtain ⟨held', hrun⟩ := run_held (Script.message now client m b) b held
    have hprocessed : ({ b with held } : Broker).processed now client m =
        { b.processed now client m with held := held' } := by
      rw [← run_message, ← run_message, Script.blind_message now client m b held, hrun]
    rw [answersAll, answersAll, hprocessed, ih]
    exact congrArg (· ++ _) (blind_answersTo now client m b held)

/-! ## Runs -/

theorem SameMail.perform (h : b.SameMail c) (now : Float) (op : Op) :
    (op.perform now b).SameMail (op.perform now c) := by
  rw [← run_script, ← run_script, (blind_script now op).eq h]
  exact h.run _

theorem SameMail.delivered (h : b.SameMail c) (now : Float) (client : String) (op : Op) :
    op.delivered now client c = op.delivered now client b := by
  rw [← along_handed_script, ← along_handed_script, (blind_script now op).eq h]
  exact h.along_handed client _

theorem SameMail.reply? (h : b.SameMail c) (now : Float) (op : Op) :
    op.reply? now c = op.reply? now b := by
  cases op with
  | receive client ms =>
    have hanswers : answersAll now client ms (c.recordLatency now client ms) =
        answersAll now client ms (b.recordLatency now client ms) := by
      obtain ⟨held, rfl, -⟩ := h
      rw [recordLatency_held, blind_answersAll]
    rw [Op.reply?, Op.reply?, receive_fst, receive_fst, h.delivered, processAll_fst,
      processAll_fst, hanswers]
  | fetch | connect | disconnect | keepHouse | keepHouseIfDue => rfl

/-- Everything that two brokers with the same mail do from then on is the same. -/
theorem SameMail.performAll (h : b.SameMail c) (ops : List (Float × Op)) :
    (performAll ops b).SameMail (performAll ops c) ∧ repliesAll ops c = repliesAll ops b ∧
      ∀ client, deliveredAll client ops c = deliveredAll client ops b := by
  induction ops generalizing b c with
  | nil => exact ⟨h, rfl, fun _ => rfl⟩
  | cons o ops ih =>
    obtain ⟨now, op⟩ := o
    obtain ⟨hrest, hreplies, hdelivered⟩ := ih (h.perform now op)
    refine ⟨hrest, ?_, fun client => ?_⟩
    · rw [repliesAll, repliesAll, hreplies, h.reply?]
    · rw [deliveredAll, deliveredAll, hdelivered, h.delivered]

/-! ## Clearing -/

/-- Two brokers with the same variables, but for what clearing takes from them, and with the same
filters, clients and latencies. -/
structure SameButForWrites (b c : Broker) : Prop where
  config : c.config = b.config
  store : c.store.map (fun _ v => v.reset) = b.store.map fun _ v => v.reset
  filters : c.filters = b.filters
  clients : c.clients = b.clients
  latencies : c.latencies = b.latencies
  summaryTime : c.summaryTime = b.summaryTime

theorem SameButForWrites.clear (h : b.SameButForWrites c) (now : Float) :
    (b.clear now).SameMail (c.clear now) := by
  refine ⟨(c.clear now).held, ?_, fun client => ?_⟩
  · simp only [Broker.clear, h.config, h.store, h.filters, h.clients, h.latencies,
      h.summaryTime]
  · rw [Step.heldFor_clear, Step.heldFor_clear]

theorem listing_reset (b : Broker) (request : Message) (v : Variable) :
    b.listing request v.reset = b.listing request v.remnant := rfl

theorem request_of_clears {m : Message} (hm : Clears m) (b : Broker) (now : Float) :
    b.request now m = .ok ([b.answer m requestClear "" now], b.clear now) := by
  obtain ⟨hall, hprocesses, hvariables, hclear⟩ := hm
  simp [request, hall, hprocesses, hvariables, hclear]

/-- A request to clear the broker. It is answered by one message; all variables are as unwritten
ones, but for their types, their subscriptions, the writers of their last writes and the times of
their last estimates; and no mail is left. If another broker differs in nothing but the writes
before, everything from then on is the same: the answers to the rest of the packet, all replies, all
mail and all variables. In listings, in summaries and to filters no more of a cleared variable shows
than its name, its type and who has written it last. -/
theorem clear_forgets_writes (now : Float) (m : Message) (hm : Clears m) (b c : Broker)
    (h : b.SameButForWrites c) :
    (∃ answer, b.request now m = .ok ([answer], b.clear now) ∧
        c.request now m = .ok ([answer], c.clear now)) ∧
      (∀ key, (b.clear now).store.get? key = (b.store.get? key).map fun v =>
        { Variable.fresh v.name v.dataType v.estimateTime with
          subscriptions := v.subscriptions
          writer := v.writer
          sourceAux := v.sourceAux
          community := v.community }) ∧
      (∀ client, (b.clear now).heldFor client = []) ∧
      (∀ client ms, ((c.clear now).processAll now client ms).1 =
        ((b.clear now).processAll now client ms).1) ∧
      (∀ ops, (performAll ops (c.clear now)).store = (performAll ops (b.clear now)).store ∧
        repliesAll ops (c.clear now) = repliesAll ops (b.clear now) ∧
        ∀ client, deliveredAll client ops (c.clear now) = deliveredAll client ops (b.clear now)) ∧
      ∀ u v : Variable, u.name = v.name → u.dataType = v.dataType → u.writer = v.writer →
        u.sourceAux = v.sourceAux → u.community = v.community →
          (∀ request, (b.clear now).listing request u.reset =
            (b.clear now).listing request v.reset) ∧
          u.reset.summaryLine now = v.reset.summaryLine now ∧
          ∀ f : Filter, f.covers u.reset.writer u.reset.name =
            f.covers v.reset.writer v.reset.name := by
  have hsame := h.clear now
  refine ⟨⟨_, request_of_clears hm b now, ?_⟩, Step.get?_store_clear b now, Step.heldFor_clear b now,
    fun client ms => ?_, fun ops => ?_,
    fun u v hname htype hwriter haux hcommunity => ⟨fun request => ?_, ?_, fun f => ?_⟩⟩
  · rw [request_of_clears hm c now, answer, answer, h.config]
  · rw [processAll_fst, processAll_fst, (blind_answersAll now client ms).eq hsame]
  · obtain ⟨⟨held, heq, -⟩, hreplies, hdelivered⟩ := hsame.performAll ops
    exact ⟨by rw [heq], hreplies, hdelivered⟩
  · rw [listing_reset, listing_reset, Variable.remnant, Variable.remnant, hname, htype, hwriter, haux,
      hcommunity]
  · rw [Variable.summaryLine_reset, Variable.summaryLine_reset, Variable.remnant, Variable.remnant,
      hname, htype, hwriter, haux, hcommunity]
  · rw [Variable.covers_reset, Variable.covers_reset, hwriter, hname]

/-- `A` registers for `X`, and `P` writes it some times. -/
def writtenOps (values : List Float) : List (Float × Op) :=
  (1.0, .receive "A" [.double .register "X" 0.0 1.0]) ::
    values.map fun value =>
      (1.0, .receive "P" [{ Message.double .notify "X" value 1.0 with source := "P" }])

theorem clear_forgets_writes_writtenOps :
    let b := performAll (writtenOps [1.0]) (start (.ofCommunity "#1") 0.0)
    let c := performAll (writtenOps [2.0, 3.0]) (start (.ofCommunity "#1") 0.0)
    (b.store.get? "X").map (·.value) = some 1.0 ∧ (c.store.get? "X").map (·.value) = some 3.0 ∧
      ∀ ops, repliesAll ops (c.clear 2.0) = repliesAll ops (b.clear 2.0) := by
  intro b c
  have hsame : b.SameButForWrites c :=
    ⟨by decide +kernel, by decide +kernel, by decide +kernel, by decide +kernel, by decide +kernel,
      by decide +kernel⟩
  have hclears : Clears (.text .serverRequest requestClear "" 2.0) := by decide +kernel
  obtain ⟨-, -, -, -, hfrom, -⟩ := clear_forgets_writes 2.0 _ hclears b c hsame
  exact ⟨by decide +kernel, by decide +kernel, fun ops => (hfrom ops).2.1⟩

/-- A broker to which `source` has written `X`, after clearing. -/
def clearedOf (source : String) : Broker :=
  (performAll [(1.0, .receive source [{ Message.double .notify "X" 1.0 1.0 with source }])]
    (start (.ofCommunity "#1") 0.0)).clear 2.0

/-- Who has written a variable last still shows in its listing and its summary, and to filters. -/
theorem cleared_variable_shows_writer :
    let shown (source : String) := ((clearedOf source).store.get? "X").map fun v =>
      (v.writes, ((clearedOf source).listing (.text .serverRequest requestAll "" 3.0) v).source,
        v.summaryLine 2.0, (Filter.mk "P" "X" 0.0).covers v.writer v.name)
    shown "P" = some (0, "P", "X                    -3.000       P                     0.0Hz D -1\n",
        true) ∧
      shown "Q" = some (0, "Q", "X                    -3.000       Q                     0.0Hz D -1\n",
        false) := by
  decide +kernel

end Broker

end PubSub

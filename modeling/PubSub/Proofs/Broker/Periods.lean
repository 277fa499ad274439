import PubSub.Proofs.Broker.Departure
import PubSub.Proofs.Broker.Subscriptions

/-!
# The periods of a client's subscriptions

`Broker.period?` is the table of what a client without filters is subscribed to. Only the client's
own registrations change it, and its packets do so message by message: the last one that mentions a
key decides (`Broker.after_receive`). Whatever else happens leaves it as it is
(`Broker.after_apply`).
-/

namespace PubSub.Broker

/-- The period of a client's subscription to a variable. -/
def period? (b : Broker) (client key : String) : Option Float :=
  (b.store.get? key).bind fun v => (v.subscriptions.get? client).map (·.period)

/-- The period of a client's subscription to a key after a message of the client. -/
def periodAfter (key : String) (period : Option Float) (m : Message) : Option Float :=
  if m.key = key then
    match m.type with
    | .register => some (Bounds.raised m.value)
    | .unregister => none
    | _ => period
  else period

/-- A message that is about no filter. -/
def Plain (m : Message) : Prop := m.type ≠ .wildcardRegister ∧ m.type ≠ .wildcardUnregister

instance (m : Message) : Decidable (Plain m) := inferInstanceAs (Decidable (_ ∧ _))

/-- A client still has no filters, and is subscribed as it was before it sent some messages and as
these have it. -/
structure After (client : String) (ms : List Message) (b b' : Broker) : Prop where
  named : b'.Named
  filters : b'.filtersOf client = []
  periods : ∀ key, b'.period? client key = ms.foldl (periodAfter key) (b.period? client key)

/-- A step that is no registration of the client and takes none back. -/
def Step.Leaves (client : String) : Step → Prop
  | .subscribe c _ _ _ | .withdraw c _ | .keep c _ => c ≠ client
  | _ => True

variable {b : Broker} {client : String}

/-! ## One step -/

theorem period?_eq (b : Broker) (client key : String) :
    b.period? client key = (b.subscription? client key).map (·.period) := by
  rw [period?, subscription?]
  cases b.store.get? key <;> rfl

/-- When a broker starts, nobody is subscribed to anything. -/
theorem period?_start (config : Config) (now : Float) (client key : String) :
    (start config now).period? client key = none := by
  rw [period?]
  cases hv : (start config now).store.get? key with
  | none => rfl
  | some v =>
    obtain ⟨value, rfl⟩ := eq_initialVariable hv
    rfl

/-- The last change that a step makes decides about the period. -/
theorem period?_apply (hn : b.Named) (s : Step) (client key : String) :
    (s.apply b).period? client key =
      (s.changes client key b).getLast?.getD (b.period? client key) := by
  obtain ⟨served, hserved, happly⟩ := subscription?_apply hn s client key
  have hperiod : (·.period) ∘ served = (·.period) := by
    funext x
    obtain heq | ⟨now, -, heq⟩ := hserved x <;> rw [Function.comp_apply, heq]
  rw [period?_eq, happly, Option.map_map, hperiod, Step.renewed]
  cases (s.changes client key b).getLast? with
  | none => exact (period?_eq b client key).symm
  | some change => cases change <;> rfl

/-- The last change that steps make decides about the period. -/
theorem period?_run (hn : b.Named) (steps : List Step) (client key : String) :
    (Step.run steps b).period? client key =
      (Step.along (Step.changes client key) steps b).getLast?.getD (b.period? client key) := by
  induction steps generalizing b with
  | nil => rfl
  | cons s steps ih =>
    rw [Step.run_cons, ih (hn.apply s), period?_apply hn, Step.along_cons, List.getLast?_append,
      Option.getD_or]

/-- For a client without filters a step changes nothing if it leaves the client's registrations as
they are. -/
theorem changes_eq_nil {s : Step} (hs : s.Leaves client) (h : b.filtersOf client = [])
    (key : String) : s.changes client key b = [] := by
  cases s with
  | write now m hm =>
    rw [Step.changes, covering, h]
    exact ite_self []
  | subscribe c k period now => exact if_neg fun hmine => hs hmine.1
  | withdraw c ends => exact if_neg fun hmine => hs hmine.1
  | keep | drop | clear | collect | forget | note => rfl

theorem after_apply {s : Step} (hs : s.Leaves client) (hn : b.Named)
    (h : b.filtersOf client = []) : After client [] b (s.apply b) where
  named := hn.apply s
  filters := by
    refine List.eq_nil_iff_forall_not_mem.2 fun f hf => ?_
    obtain hf | rfl := mem_filtersOf_apply hf
    · rw [h] at hf
      cases hf
    · exact hs rfl
  periods key := by rw [period?_apply hn, changes_eq_nil hs h, List.foldl_nil]; rfl

/-! ## Operations -/

theorem After.refl (hn : b.Named) (h : b.filtersOf client = []) : After client [] b b :=
  ⟨hn, h, fun _ => rfl⟩

theorem After.trans {ms ms' : List Message} {b' b'' : Broker} (h : After client ms b b')
    (h' : After client ms' b' b'') : After client (ms ++ ms') b b'' where
  named := h'.named
  filters := h'.filters
  periods key := by rw [h'.periods, h.periods, List.foldl_append]

theorem after_run {steps : List Step} (hsteps : ∀ s ∈ steps, s.Leaves client) (hn : b.Named)
    (h : b.filtersOf client = []) : After client [] b (Step.run steps b) :=
  List.foldlRecOn steps _ (.refl hn h) fun _ hb _ hs =>
    hb.trans (after_apply (hsteps _ hs) hb.named hb.filters)

/-- An operation that is no packet of the client and does not disconnect it. -/
def Op.Foreign (client : String) : Op → Prop
  | .receive c _ | .disconnect c => c ≠ client
  | _ => True

instance (client : String) : (op : Op) → Decidable (op.Foreign client)
  | .receive _ _ | .disconnect _ => inferInstanceAs (Decidable (_ ≠ _))
  | .fetch _ | .connect _ | .keepHouse | .keepHouseIfDue => inferInstanceAs (Decidable True)

/-- Messages of other clients. -/
theorem leaves_message_of_ne {now : Float} {c : String} (hc : c ≠ client) (m : Message)
    (b : Broker) : ∀ s ∈ Script.message now c m b, s.Leaves client :=
  Script.forall_mem_message (fun _ => trivial) (fun _ => hc) (fun _ _ _ => ⟨hc, fun _ => hc⟩)
    (fun _ => hc) (fun _ => trivial) (fun _ _ => trivial) b

theorem leaves_script {now : Float} {op : Op} (hop : op.Foreign client) (b : Broker) :
    ∀ s ∈ op.script now b, s.Leaves client := by
  refine Op.forall_mem_script (fun _ _ => trivial) (fun _ _ _ => trivial) (fun _ => trivial) ?_ ?_ b
  · rintro c ms rfl m -
    exact leaves_message_of_ne hop m
  · rintro c rfl
    exact ⟨hop, trivial⟩

/-- Other operations change nothing for the client. -/
theorem after_perform {now : Float} {op : Op} (hop : op.Foreign client) (hn : b.Named)
    (h : b.filtersOf client = []) : After client [] b (op.perform now b) := by
  rw [← run_script]
  exact after_run (leaves_script hop b) hn h

/-- An operation after the messages. -/
theorem After.perform {ms : List Message} {b' : Broker} (h : After client ms b b') (now : Float)
    (op : Op) (hop : op.Foreign client) : After client ms b (op.perform now b') := by
  have hboth : After client (ms ++ []) b (op.perform now b') :=
    h.trans (after_perform hop h.named h.filters)
  rwa [List.append_nil] at hboth

/-- A client that leaves is subscribed to nothing. -/
theorem period?_disconnect (b : Broker) (now : Float) (client key : String) :
    (b.disconnect now client).period? client key = none := by
  have hgone := (absent_disconnect b now client).subscriptions key
  rw [period?]
  cases hv : (b.disconnect now client).store.get? key with
  | none => rfl
  | some v =>
    rw [Option.bind_some, Variable.isSubscribed_eq_false_iff.1 (hgone v hv), Option.map_none]

theorem Named.disconnect (hn : b.Named) (now : Float) (client : String) :
    (b.disconnect now client).Named := by
  show ((Op.disconnect client).perform now b).Named
  rw [← run_script]
  exact hn.run _

/-! ## Packets of the client -/

theorem periodAfter_of_type {key : String} {m : Message} (hregister : m.type ≠ .register)
    (hunregister : m.type ≠ .unregister) (period : Option Float) :
    periodAfter key period m = period := by
  rw [periodAfter]
  split
  · split
    · contradiction
    · contradiction
    · rfl
  · rfl

/-- A message with another effect than on the client's registrations. -/
theorem After.of_type {m : Message} {b' : Broker} (h : After client [] b b')
    (hregister : m.type ≠ .register) (hunregister : m.type ≠ .unregister) :
    After client [m] b b' := by
  refine ⟨h.named, h.filters, fun key => ?_⟩
  rw [h.periods, List.foldl_cons, periodAfter_of_type hregister hunregister]

theorem after_message {now : Float} {m : Message} (hm : Plain m) (hn : b.Named)
    (h : b.filtersOf client = []) :
    After client [m] b (Step.run (Script.message now client m b) b) := by
  rw [Script.message]
  split <;> rename_i htype
  · refine (after_run ?_ hn h).of_type (by simp [htype]) (by simp [htype])
    exact List.forall_mem_singleton.2 trivial
  · refine ⟨hn.run _, ?_, fun key => ?_⟩
    · show (b.subscribe client m.key m.value now).filtersOf client = []
      rw [filtersOf, filters_subscribe]
      exact h
    · rw [Step.run_cons, Step.run_nil, period?_apply hn, Step.changes, List.foldl_cons,
        List.foldl_nil, periodAfter, htype]
      by_cases hkey : m.key = key <;> simp [hkey]
  · exact absurd htype hm.1
  · refine ⟨hn.run _, h, fun key => ?_⟩
    rw [Step.run_cons, Step.run_nil, period?_apply hn, Step.changes, List.foldl_cons,
      List.foldl_nil, periodAfter, htype, period?]
    by_cases hkey : key = m.key
    · cases hv : b.store.get? key <;> simp [hkey]
    · simp [hkey, Ne.symm hkey]
  · exact absurd htype hm.2
  · refine (after_run ?_ hn h).of_type (by simp [htype]) (by simp [htype])
    split
    · exact List.forall_mem_singleton.2 trivial
    · exact List.forall_mem_nil _
  · refine (After.refl hn h).of_type ?_ ?_
    all_goals
      rintro htype
      contradiction

theorem after_processAll {now : Float} {ms : List Message} (hms : ∀ m ∈ ms, Plain m) (hn : b.Named)
    (h : b.filtersOf client = []) : After client ms b (b.processAll now client ms).2 := by
  rw [processAll_snd]
  induction ms generalizing b with
  | nil => exact .refl hn h
  | cons m ms ih =>
    obtain ⟨hm, hms⟩ := List.forall_mem_cons.1 hms
    have hfirst : After client [m] b (b.processed now client m) := by
      rw [← run_message]
      exact after_message hm hn h
    exact hfirst.trans (ih hms hfirst.named hfirst.filters)

/-- A packet of a client without a message about filters. -/
theorem after_receive {now : Float} {ms : List Message} (hms : ∀ m ∈ ms, Plain m) (hn : b.Named)
    (h : b.filtersOf client = []) : After client ms b (b.receive now client ms).2 := by
  have hnoted : After client [] b (b.recordLatency now client ms) := by
    rw [← note_recordLatency]
    exact after_apply trivial hn h
  have hprocessed : After client ms b
      ((b.recordLatency now client ms).processAll now client ms).2 :=
    hnoted.trans (after_processAll hms hnoted.named hnoted.filters)
  have hsettled : After client ms b (b.settled now client ms) :=
    hprocessed.perform now .keepHouseIfDue trivial
  rw [receive_eq]
  split
  · exact hsettled
  · exact hsettled.perform now (.fetch client) trivial

end PubSub.Broker

import PubSub.Proofs.Broker.Run

/-!
# Clients that have left

Nothing is left of a client that disconnects, and nothing comes back until the client itself
registers again (`Broker.absent_of_disconnect`), whatever it and the others do otherwise.

The invariant of each step is `Broker.Absent`: no subscription, no filter and no held mail. A client
without a filter is not subscribed when a variable is first written, and one without a subscription
is not sent anything, so only a registration of its own could bring it back.
-/

namespace PubSub.Broker

/-- Nothing is kept for a client: it subscribes to no variable, it has no standing filter, and no
mail is held for it. -/
structure Absent (client : String) (b : Broker) : Prop where
  subscriptions : ∀ key v, b.store.get? key = some v → v.isSubscribed client = false
  filters : b.filtersOf client = []
  held : b.heldFor client = []

/-- A step that is no registration of the client. -/
def Step.NoReturn (client : String) : Step → Prop
  | .subscribe c _ _ _ => c ≠ client
  | .keep c _ => c ≠ client
  | _ => True

/-- An operation that is no packet of the client with a registration. -/
def Op.NoReturn (client : String) : Op → Prop
  | .receive c ms => c = client → ∀ m ∈ ms, m.type ≠ .register ∧ m.type ≠ .wildcardRegister
  | _ => True

instance (client : String) : (op : Op) → Decidable (op.NoReturn client)
  | .receive _ _ => inferInstanceAs (Decidable (_ → _))
  | .fetch _ | .connect _ | .disconnect _ | .keepHouse | .keepHouseIfDue =>
    inferInstanceAs (Decidable True)

variable {b : Broker} {client : String}

/-! ## One step -/

/-- A client that has left does not subscribe to the variable that a message writes to. -/
theorem Absent.target (h : b.Absent client) (now : Float) (m : Message) :
    (b.target now m).subscriptions.get? client = none := by
  refine Option.eq_none_iff_forall_ne_some.2 fun s hs => ?_
  obtain ⟨v, hv, hold⟩ | ⟨f, hf, -⟩ := subscriptions_target hs
  · have hnone := Variable.isSubscribed_eq_false_iff.1 (h.subscriptions _ v hv)
    rw [hnone] at hold
    cases hold
  · rw [h.filters] at hf
    cases hf

theorem Absent.write (h : b.Absent client) {now : Float} {m : Message} (hm : m.type = .notify) :
    ((Step.write now m hm).apply b).Absent client := by
  by_cases haccepts : b.Accepts now m
  · rw [Step.apply_write_of_accepts hm haccepts]
    have hnone : ((b.target now m).write m now b.config.community).subscriptions.get? client =
        none := by
      rw [Variable.write_subscriptions]
      exact h.target now m
    refine ⟨fun key v hv => ?_, h.filters, ?_⟩
    · rw [get?_store_fanOut] at hv
      split at hv
      · rw [← Option.some.inj hv, Variable.isSubscribed_eq_false_iff, Table.get?_map, hnone]
        rfl
      · exact h.subscriptions key v hv
    · rw [heldFor_fanOut, hnone]
      exact h.held
  · rw [Step.apply_write_of_not_accepts hm haccepts]
    exact h

/-- Another client subscribes. -/
theorem Absent.subscribe (h : b.Absent client) {c : String} (hc : c ≠ client) (key : String)
    (period now : Float) : (b.subscribe c key period now).Absent client where
  subscriptions k v hv := by
    by_cases hk : k = key
    · obtain ⟨u, subscriptions, hu, hget, hsubscriptions⟩ := get?_store_subscribe b c key period now
      rw [hk, hget] at hv
      rw [← Option.some.inj hv, Variable.isSubscribed_eq_false_iff, hsubscriptions,
        if_neg (Ne.symm hc), hu]
      cases hold : b.store.get? key with
      | none => rfl
      | some w => exact Variable.isSubscribed_eq_false_iff.1 (h.subscriptions key w hold)
    · rw [get?_store_subscribe_of_ne c period now hk] at hv
      exact h.subscriptions k v hv
  filters := by
    rw [filtersOf, filters_subscribe]
    exact h.filters
  held := by
    rw [heldFor_subscribe, if_neg (Ne.symm hc)]
    exact h.held

theorem Absent.apply (h : b.Absent client) {s : Step} (hs : s.NoReturn client) :
    (s.apply b).Absent client := by
  cases s with
  | write now m hm => exact h.write hm
  | subscribe c key period now => exact h.subscribe hs key period now
  | withdraw c ends =>
    refine ⟨fun key v hv => ?_, h.filters, h.held⟩
    rw [Step.get?_store_withdraw, Option.map_eq_some_iff] at hv
    obtain ⟨u, hu, rfl⟩ := hv
    have hnone := h.subscriptions key u hu
    split
    · rw [Variable.isSubscribed_eq_false_iff] at hnone ⊢
      rw [Variable.unsubscribe_subscriptions, hnone, ite_self]
    · exact hnone
  | keep c f =>
    refine ⟨h.subscriptions, ?_, h.held⟩
    rw [Step.filtersOf_keep, if_neg (Ne.symm hs)]
    exact h.filters
  | drop c f =>
    refine ⟨h.subscriptions, ?_, h.held⟩
    rw [Step.filtersOf_drop, h.filters]
    exact ite_self []
  | clear now =>
    refine ⟨fun key v hv => ?_, h.filters, Step.heldFor_clear b now client⟩
    rw [Step.get?_store_clear, Option.map_eq_some_iff] at hv
    obtain ⟨u, hu, rfl⟩ := hv
    exact h.subscriptions key u hu
  | collect c =>
    refine ⟨?_, ?_, ?_⟩
    · rw [Step.apply, store_collect]
      exact h.subscriptions
    · rw [Step.apply, filtersOf, filters_collect]
      exact h.filters
    · rw [Step.apply, heldFor_collect, h.held, ite_self]
  | forget c =>
    refine ⟨h.subscriptions, ?_, ?_⟩
    · rw [filtersOf, Step.apply, Table.get?_erase]
      split
      · rfl
      · exact h.filters
    · rw [Step.heldFor_forget, h.held, ite_self]
  | note => exact ⟨h.subscriptions, h.filters, h.held⟩

theorem Absent.run (h : b.Absent client) {steps : List Step}
    (hsteps : ∀ s ∈ steps, s.NoReturn client) : (Step.run steps b).Absent client :=
  List.foldlRecOn steps _ h fun _ hb s hs => hb.apply (hsteps s hs)

/-! ## Disconnecting and what comes after -/

/-- The two steps by which a client leaves. -/
theorem absent_leave (b : Broker) (client : String) :
    (Step.run [.withdraw client fun _ _ => true, .forget client] b).Absent client where
  subscriptions key v hv := by
    have hv : ((Step.withdraw client fun _ _ => true).apply b).store.get? key = some v := hv
    rw [Step.get?_store_withdraw, Option.map_eq_some_iff] at hv
    obtain ⟨u, -, rfl⟩ := hv
    rw [if_pos rfl, Variable.isSubscribed_eq_false_iff, Variable.unsubscribe_subscriptions,
      if_pos rfl]
  filters := by
    have hnone : (b.filters.erase client).get? client = none :=
      (Table.get?_erase ..).trans (if_pos rfl)
    exact congrArg (·.getD []) hnone
  held := (Step.heldFor_forget ..).trans (if_pos rfl)

theorem absent_disconnect (b : Broker) (now : Float) (client : String) :
    (b.disconnect now client).Absent client := by
  have hrun := run_script now (.disconnect client) b
  rw [Op.script, Script.run_andThen] at hrun
  rw [← show _ = b.disconnect now client from hrun]
  exact (absent_leave b client).run (Script.forall_mem_text (fun _ _ => trivial) _ _ _)

theorem noReturn_script {now : Float} {op : Op} (hop : op.NoReturn client) (b : Broker) :
    ∀ s ∈ op.script now b, s.NoReturn client := by
  refine Op.forall_mem_script (fun _ _ => trivial) (fun _ _ _ => trivial) (fun _ => trivial) ?_
    (fun _ _ => ⟨trivial, trivial⟩) b
  rintro c ms rfl m hm
  refine Script.forall_mem_message (fun _ => trivial) ?_ ?_ (fun _ => trivial) (fun _ => trivial)
    fun _ _ => trivial
  · rintro htype rfl
    exact (hop rfl m hm).1 htype
  · intro htype f _
    have hc : c ≠ client := by
      rintro rfl
      exact (hop rfl m hm).2 htype
    exact ⟨hc, fun _ => hc⟩

theorem Absent.performAll (h : b.Absent client) {ops : List (Float × Op)}
    (hops : ∀ o ∈ ops, o.2.NoReturn client) : (performAll ops b).Absent client := by
  rw [← run_scriptAll]
  refine h.run (Script.forall_mem_inTurn (fun s hs c => ?_) b)
  obtain ⟨o, ho, rfl⟩ := List.mem_map.1 hs
  exact noReturn_script (hops o ho) c

/-- Of a client that has disconnected no subscription, no filter and no held mail is left, and none
appears as long as the client itself does not register, whatever else happens. -/
theorem absent_of_disconnect (config : Config) (startTime : Float)
    (before after : List (Float × Op)) (now : Float) (client : String)
    (h : ∀ o ∈ after, o.2.NoReturn client) :
    (performAll after ((performAll before (start config startTime)).disconnect now client)).Absent
      client :=
  (absent_disconnect _ now client).performAll h

/-- A write by the application of a client. -/
def writeBy (source key : String) : Message :=
  { Message.double .notify key 1.0 1.0 with source }

/-- A registration for all writes of variables with short names by applications with short names. -/
def registerShort : Message := .text .wildcardRegister "" "AppPattern=?,VarPattern=?" 1.0

/-- The client `C` subscribes by name and by a filter, and so does `B`. -/
def gatheringRun : List (Float × Op) := [
  (1.0, .connect "C"),
  (1.0, .receive "C" [.double .register "X" 0.0 1.0, registerShort]),
  (1.0, .receive "B" [registerShort]),
  (2.0, .receive "A" [writeBy "A" "X"])]

/-- After `C` has left, variables are written, also by `C` itself, all are cleared, and `C` connects
again. -/
def afterwardsRun : List (Float × Op) := [
  (4.0, .receive "A" [writeBy "A" "X", writeBy "A" "Y"]),
  (5.0, .receive "C" [writeBy "C" "Z"]),
  (6.0, .receive "B" [.text .serverRequest requestClear "" 6.0]),
  (7.0, .connect "C"),
  (8.0, .receive "A" [writeBy "A" "X"]),
  (9.0, .keepHouse)]

/-- Before it leaves, `C` has a subscription, a filter and mail; afterwards `B` still gets mail. -/
theorem absent_of_disconnect_gatheringRun :
    let b := performAll gatheringRun (start (.ofCommunity "#1") 0.0)
    let c := performAll afterwardsRun (b.disconnect 3.0 "C")
    (b.subscribedBy "C" ≠ [] ∧ b.filtersOf "C" ≠ [] ∧ b.heldFor "C" ≠ []) ∧
      (∀ o ∈ afterwardsRun, o.2.NoReturn "C") ∧ c.Absent "C" ∧ c.heldFor "B" ≠ [] := by
  have h : ∀ o ∈ afterwardsRun, o.2.NoReturn "C" := by decide
  exact ⟨by decide +kernel, h, absent_of_disconnect _ 0.0 gatheringRun afterwardsRun 3.0 "C" h,
    by decide +kernel⟩

end PubSub.Broker

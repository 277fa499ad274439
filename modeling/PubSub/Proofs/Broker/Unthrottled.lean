import PubSub.Proofs.Broker.Run
import PubSub.Proofs.Double.Order

/-!
# Clients that are told of everything

A client all of whose registrations have the interval 0 misses nothing: what it has been handed and
what is held for it is, in order, the variable at each registration and each accepted write to a
variable that it subscribes to (`Broker.unthrottled_mail_exact`). This needs finite times. From an
infinite time no later one differs by at least 0, so no subscription is due twice, and a write at an
infinite time may be overwritten (`Broker.infinite_time_overwrites`).

The invariant is that the client's subscriptions are due at all times that are still to come
(`Broker.Prompt`), and that its filters make no other subscriptions. A due subscription is never
served by overwriting, so each step hands out and holds what it owes (`Broker.exact_apply`).
-/

namespace PubSub

/-! ## Subscriptions that are always due -/

namespace Subscription

/-- A subscription to every write that has not been served is due. -/
theorem isDue_fresh {t : Float} (ht : 0.0 ≤ t) :
    ({ period := 0.0 } : Subscription).isDue t = true :=
  decide_eq_true (Double.zero_le_sub_of_nonPos ht (by decide) (by decide))

/-- A subscription to every write that has been served is due again, even at the same time. -/
theorem isDue_served {s : Subscription} {now t : Float} (hs : s.period = 0.0) (hnow : 0.0 ≤ now)
    (hle : now ≤ t) (ht : t.isFinite = true) : { s with lastSent := now }.isDue t = true := by
  refine decide_eq_true ?_
  show s.period ≤ t - now
  rw [hs]
  exact Double.zero_le_sub hnow hle ht

end Subscription

namespace Broker

/-- No subscription of the client is ever not due at one of the times, nor will its filters make
one. -/
structure Prompt (client : String) (times : List Float) (b : Broker) : Prop where
  filters : ∀ f ∈ b.filtersOf client, f.period = 0.0
  subscriptions : ∀ key v s, b.store.get? key = some v → v.subscriptions.get? client = some s →
    s.period = 0.0 ∧ ∀ t ∈ times, s.isDue t = true

/-- Times from `now` on, `now` among them. -/
structure From (now : Float) (times : List Float) : Prop where
  mem : now ∈ times
  nonneg : ∀ t ∈ times, 0.0 ≤ t
  finite : ∀ t ∈ times, t.isFinite = true
  le : ∀ t ∈ times, now ≤ t

/-- A step at the time `now` that leaves the client its mail and does not throttle it. -/
def Step.Unthrottled (client : String) (now : Float) : Step → Prop
  | .write t _ _ => t = now
  | .subscribe c _ period t => t = now ∧ (c = client → Bounds.raised period = 0.0)
  | .keep c f => c = client → f.period = 0.0
  | .clear _ => False
  | .forget c => c ≠ client
  | _ => True

variable {b : Broker} {client : String} {now : Float} {times : List Float}

theorem Prompt.of_subset {rest : List Float} (h : b.Prompt client times) (hsub : rest ⊆ times) :
    b.Prompt client rest where
  filters := h.filters
  subscriptions key v s hv hs :=
    ⟨(h.subscriptions key v s hv hs).1, fun t ht => (h.subscriptions key v s hv hs).2 t (hsub ht)⟩

theorem prompt_start (config : Config) (startTime : Float) :
    (start config startTime).Prompt client times where
  filters _ hf := by cases hf
  subscriptions key v s hv hs := by
    obtain ⟨value, rfl⟩ := eq_initialVariable hv
    cases hs

/-- A client that subscribes to the variable that a message writes to is due. -/
theorem Prompt.target (h : b.Prompt client times) (htimes : From now times) {m : Message}
    {s : Subscription} (hs : (b.target now m).subscriptions.get? client = some s) :
    s.period = 0.0 ∧ ∀ t ∈ times, s.isDue t = true := by
  obtain ⟨v, hv, hs⟩ | ⟨f, hf, rfl⟩ := subscriptions_target hs
  · exact h.subscriptions _ v s hv hs
  · have hperiod : Bounds.raised f.period = 0.0 := by
      rw [h.filters f hf]
      decide
    rw [hperiod]
    exact ⟨rfl, fun t ht => Subscription.isDue_fresh (htimes.nonneg t ht)⟩

/-- A step that only takes subscriptions away, or gives ones that are due. -/
theorem Prompt.of_store {b' : Broker} (h : b.Prompt client times)
    (hfilters : ∀ f ∈ b'.filtersOf client, f ∈ b.filtersOf client)
    (hstore : ∀ key v s, b'.store.get? key = some v → v.subscriptions.get? client = some s →
      (∃ u, b.store.get? key = some u ∧ u.subscriptions.get? client = some s) ∨
        (s.period = 0.0 ∧ ∀ t ∈ times, s.isDue t = true)) : b'.Prompt client times where
  filters f hf := h.filters f (hfilters f hf)
  subscriptions key v s hv hs := by
    obtain ⟨u, hu, hs⟩ | hdue := hstore key v s hv hs
    · exact h.subscriptions key u s hu hs
    · exact hdue

theorem Prompt.write (h : b.Prompt client times) (htimes : From now times) {m : Message}
    (hm : m.type = .notify) : ((Step.write now m hm).apply b).Prompt client times := by
  by_cases haccepts : b.Accepts now m
  · rw [Step.apply_write_of_accepts hm haccepts]
    refine h.of_store (fun f hf => hf) fun key v s hv hs => ?_
    rw [get?_store_fanOut] at hv
    split at hv
    · rw [← Option.some.inj hv, Table.get?_map, Variable.write_subscriptions,
        Option.map_eq_some_iff] at hs
      obtain ⟨s, hold, rfl⟩ := hs
      have hdue := h.target htimes hold
      refine .inr ?_
      split
      · exact ⟨hdue.1, fun t ht => Subscription.isDue_served hdue.1 (htimes.nonneg _ htimes.mem)
          (htimes.le t ht) (htimes.finite t ht)⟩
      · exact hdue
    · exact .inl ⟨v, hv, hs⟩
  · rw [Step.apply_write_of_not_accepts hm haccepts]
    exact h

theorem Prompt.subscribe (h : b.Prompt client times) (htimes : From now times) {c : String}
    (key : String) {period : Float} (hperiod : c = client → Bounds.raised period = 0.0) :
    (b.subscribe c key period now).Prompt client times := by
  refine h.of_store (fun f hf => ?_) fun k v s hv hs => ?_
  · rwa [filtersOf, filters_subscribe] at hf
  · by_cases hk : k = key
    · obtain ⟨u, subscriptions, hu, hget, hsubscriptions⟩ := get?_store_subscribe b c key period now
      rw [hk, hget] at hv
      rw [← Option.some.inj hv, hsubscriptions] at hs
      split at hs
      · rename_i hc
        rw [← Option.some.inj hs, hperiod hc.symm]
        refine .inr ⟨rfl, fun t ht => ?_⟩
        by_cases hw : u.writes = 0
        · rw [if_pos hw]
          exact Subscription.isDue_fresh (htimes.nonneg t ht)
        · rw [if_neg hw]
          exact Subscription.isDue_served (s := { period := 0.0 }) rfl
            (htimes.nonneg now htimes.mem) (htimes.le t ht) (htimes.finite t ht)
      · cases hold : b.store.get? key with
        | none =>
          rw [hu, hold] at hs
          cases hs
        | some w =>
          rw [hu, hold] at hs
          exact .inl ⟨w, hk ▸ hold, hs⟩
    · rw [get?_store_subscribe_of_ne c period now hk] at hv
      exact .inl ⟨v, hv, hs⟩

theorem Prompt.apply (h : b.Prompt client times) (htimes : From now times) {s : Step}
    (hs : s.Unthrottled client now) : (s.apply b).Prompt client times := by
  cases s with
  | write t m hm =>
    obtain rfl : t = now := hs
    exact h.write htimes hm
  | subscribe c key period t =>
    obtain ⟨rfl, hperiod⟩ := hs
    exact h.subscribe htimes key hperiod
  | withdraw c ends =>
    refine h.of_store (fun f hf => hf) fun key v s hv hs => ?_
    rw [Step.get?_store_withdraw, Option.map_eq_some_iff] at hv
    obtain ⟨u, hu, rfl⟩ := hv
    refine .inl ⟨u, hu, ?_⟩
    split at hs
    · rw [Variable.unsubscribe_subscriptions] at hs
      split at hs
      · cases hs
      · exact hs
    · exact hs
  | keep c f =>
    refine ⟨fun g hg => ?_, h.subscriptions⟩
    rw [Step.filtersOf_keep] at hg
    split at hg
    · rename_i hc
      obtain hg | hg := List.mem_append.1 hg
      · exact h.filters g (hc ▸ (List.mem_filter.1 hg).1)
      · rw [List.mem_singleton.1 hg]
        exact hs hc.symm
    · exact h.filters g hg
  | drop c f =>
    refine ⟨fun g hg => h.filters g ?_, h.subscriptions⟩
    rw [Step.filtersOf_drop] at hg
    split at hg
    · exact (List.mem_filter.1 hg).1
    · exact hg
  | clear t => exact absurd hs not_false
  | collect c =>
    refine ⟨?_, ?_⟩
    · rw [Step.apply, filtersOf, filters_collect]
      exact h.filters
    · rw [Step.apply, store_collect]
      exact h.subscriptions
  | forget c =>
    refine ⟨?_, h.subscriptions⟩
    rw [filtersOf, Step.apply, Table.get?_erase, if_neg (Ne.symm hs)]
    exact h.filters
  | note => exact ⟨h.filters, h.subscriptions⟩

/-! ## Steps that lose no mail -/

/-- What steps hand out to a client and leave held for it is what was held for it and what they owe
it. -/
def Exact (client : String) (steps : List Step) (b : Broker) : Prop :=
  Step.along (Step.handed client) steps b ++ (Step.run steps b).heldFor client =
    b.heldFor client ++ Step.along (Step.owed client) steps b

theorem exact_nil (client : String) (b : Broker) : Exact client [] b := (List.append_nil _).symm

theorem Exact.append {steps rest : List Step} (h : Exact client steps b)
    (hrest : Exact client rest (Step.run steps b)) : Exact client (steps ++ rest) b := by
  unfold Exact at *
  rw [Step.along_append, Step.run_append, List.append_assoc, hrest, ← List.append_assoc, h,
    List.append_assoc, Step.along_append]

/-- A write to a variable that the client subscribes to comes after all its mail. -/
theorem exact_write (h : b.Prompt client times) (htimes : From now times) {m : Message}
    (hm : m.type = .notify) :
    ((Step.write now m hm).apply b).heldFor client =
      b.heldFor client ++ (Step.write now m hm).owed client b := by
  rw [Step.owed]
  by_cases haccepts : b.Accepts now m
  · rw [Step.apply_write_of_accepts hm haccepts, heldFor_fanOut, Variable.write_subscriptions]
    cases hs : (b.target now m).subscriptions.get? client with
    | none =>
      have hnot : ¬ (b.target now m).isSubscribed client := by
        simp [Variable.isSubscribed_eq_true_iff, hs]
      rw [if_neg fun hboth => hnot hboth.2, List.append_nil]
    | some s =>
      have hdue : s.isDue now = true := (h.target htimes hs).2 now htimes.mem
      rw [if_pos ⟨haccepts, Variable.isSubscribed_eq_true_iff.2 ⟨s, hs⟩⟩]
      exact if_pos hdue
  · rw [Step.apply_write_of_not_accepts hm haccepts, if_neg fun hboth => haccepts hboth.1,
      List.append_nil]

theorem exact_apply (h : b.Prompt client times) (htimes : From now times) {s : Step}
    (hs : s.Unthrottled client now) : Exact client [s] b := by
  rw [Exact, Step.along_cons, Step.along_cons, Step.along_nil, Step.along_nil, List.append_nil,
    List.append_nil, Step.run_cons, Step.run_nil]
  cases s with
  | write t m hm =>
    obtain rfl : t = now := hs
    exact exact_write h htimes hm
  | subscribe c key period t =>
    rw [Step.apply, heldFor_subscribe]
    simp only [Step.handed, Step.owed, List.nil_append]
    by_cases hc : c = client
    · rw [if_pos hc, if_pos hc.symm]
    · rw [if_neg hc, if_neg (Ne.symm hc), List.append_nil]
  | clear t => exact absurd hs not_false
  | collect c =>
    rw [Step.apply, heldFor_collect]
    simp only [Step.handed, Step.owed]
    by_cases hc : c = client
    · rw [if_pos hc, if_pos hc.symm]
    · rw [if_neg hc, if_neg (Ne.symm hc), List.nil_append, List.append_nil]
  | forget c =>
    rw [Step.heldFor_forget, if_neg (Ne.symm hs)]
    exact (List.append_nil _).symm
  | withdraw | keep | drop | note => exact (List.append_nil _).symm

theorem exact_run (h : b.Prompt client times) (htimes : From now times) {steps : List Step}
    (hsteps : ∀ s ∈ steps, s.Unthrottled client now) :
    (Step.run steps b).Prompt client times ∧ Exact client steps b := by
  induction steps generalizing b with
  | nil => exact ⟨h, exact_nil client b⟩
  | cons s steps ih =>
    obtain ⟨hs, hsteps⟩ := List.forall_mem_cons.1 hsteps
    obtain ⟨hprompt, hrest⟩ := ih (h.apply htimes hs) hsteps
    exact ⟨hprompt, (exact_apply h htimes hs).append hrest⟩

/-! ## Operations -/

/-- A registration with the interval 0, to which all that is not positive is raised, or any message
that is none. -/
def Immediate (m : Message) : Prop :=
  match m.type with
  | .register => ¬ 0.0 < m.value
  | .wildcardRegister => ∀ f, Filter.parse m.textValue = .ok f → f.period = 0.0
  | _ => True

/-- An operation that does not clear the broker, does not disconnect the client, and is no
registration of the client but with the interval 0. -/
def Op.Unthrottled (client : String) : Op → Prop
  | .receive c ms =>
    (∀ m ∈ ms, m.type = .serverRequest → ¬ Clears m) ∧ (c = client → ∀ m ∈ ms, Immediate m)
  | .disconnect c => c ≠ client
  | _ => True

theorem unthrottled_message {c : String} {m : Message}
    (hclears : m.type = .serverRequest → ¬ Clears m) (hm : c = client → Immediate m) (b : Broker) :
    ∀ s ∈ Script.message now c m b, s.Unthrottled client now := by
  refine Script.forall_mem_message (fun _ => rfl) ?_ ?_ (fun _ => trivial) (fun _ => trivial) ?_ b
  · refine fun htype => ⟨rfl, fun hc => if_neg ?_⟩
    have himmediate := hm hc
    rwa [Immediate, htype] at himmediate
  · intro htype f hf
    have hperiod (hc : c = client) : f.period = 0.0 := by
      have himmediate := hm hc
      rw [Immediate, htype] at himmediate
      exact himmediate f hf
    refine ⟨hperiod, fun _ => ⟨rfl, fun hc => ?_⟩⟩
    rw [hperiod hc]
    decide
  · exact hclears

theorem unthrottled_script {op : Op} (hop : op.Unthrottled client) (b : Broker) :
    ∀ s ∈ op.script now b, s.Unthrottled client now := by
  refine Op.forall_mem_script (fun _ _ => rfl) (fun _ _ _ => trivial) (fun _ => trivial) ?_ ?_ b
  · rintro c ms rfl m hm
    exact unthrottled_message (hop.1 m hm) fun hc => hop.2 hc m hm
  · rintro c rfl
    exact ⟨trivial, hop⟩

/-! ## Runs -/

theorem exact_scriptAll {ops : List (Float × Op)} (h : b.Prompt client (ops.map (·.1)))
    (hops : ∀ o ∈ ops, o.2.Unthrottled client) (hnonneg : ∀ o ∈ ops, 0.0 ≤ o.1)
    (hfinite : ∀ o ∈ ops, o.1.isFinite = true) (hsorted : (ops.map (·.1)).Pairwise (· ≤ ·)) :
    Exact client (scriptAll ops b) b := by
  induction ops generalizing b with
  | nil => exact exact_nil client b
  | cons o ops ih =>
    obtain ⟨now, op⟩ := o
    obtain ⟨hop, hops⟩ := List.forall_mem_cons.1 hops
    obtain ⟨hle, hsorted⟩ := List.pairwise_cons.1 hsorted
    have hself : now ≤ now := Double.le_self (hnonneg (now, op) List.mem_cons_self)
    have htimes : From now (((now, op) :: ops).map (·.1)) := {
      mem := List.mem_cons_self
      nonneg := List.forall_mem_map.2 hnonneg
      finite := List.forall_mem_map.2 hfinite
      le := List.forall_mem_cons.2 ⟨hself, hle⟩ }
    have hsteps : ∀ s ∈ op.script now b, s.Unthrottled client now := unthrottled_script hop b
    obtain ⟨hprompt, hexact⟩ := exact_run h htimes hsteps
    have hrest := ih (hprompt.of_subset (List.subset_cons_self ..)) hops
      (List.forall_mem_cons.1 hnonneg).2 (List.forall_mem_cons.1 hfinite).2 hsorted
    rw [scriptAll_cons]
    exact hexact.append hrest

/-- A client that registers with the interval 0 only, in a run without clearing and without
disconnecting it, gets all that it is owed, in order: at finite local times that do not decrease,
what it has been handed and what is held for it is the variable at each of its registrations and
each accepted write to a variable that it subscribes to. -/
theorem unthrottled_mail_exact (config : Config) (startTime : Float) (ops : List (Float × Op))
    (client : String) (hops : ∀ o ∈ ops, o.2.Unthrottled client) (hnonneg : ∀ o ∈ ops, 0.0 ≤ o.1)
    (hfinite : ∀ o ∈ ops, o.1.isFinite = true) (hsorted : (ops.map (·.1)).Pairwise (· ≤ ·)) :
    deliveredAll client ops (start config startTime) ++
        (performAll ops (start config startTime)).heldFor client =
      owedAll client ops (start config startTime) := by
  have h := exact_scriptAll (prompt_start config startTime) hops hnonneg hfinite hsorted
  rw [Exact, along_handed_scriptAll, run_scriptAll] at h
  exact h

/-- A write of the variable `X`. -/
def writeX (value : Float) : Message := .double .notify "X" value 0.0

/-- A registration for the variable `X`. -/
def registerX (period : Float) : Message := .double .register "X" period 0.0

/-- The client `C` subscribes to every write of `X` and `B` to one in five seconds, while `A` writes
three times, twice at the same time. -/
def steadyRun : List (Float × Op) := [
  (1.0, .receive "C" [registerX 0.0]),
  (1.0, .receive "B" [registerX 5.0]),
  (1.0, .receive "A" [writeX 1.0, writeX 2.0]),
  (2.0, .fetch "C"),
  (2.0, .receive "A" [writeX 3.0])]

theorem unthrottled_mail_exact_steadyRun :
    ((∀ o ∈ steadyRun, o.2.Unthrottled "C") ∧ (∀ o ∈ steadyRun, 0.0 ≤ o.1) ∧
      (∀ o ∈ steadyRun, o.1.isFinite = true) ∧ (steadyRun.map (·.1)).Pairwise (· ≤ ·)) ∧
    deliveredAll "C" steadyRun (start (.ofCommunity "#1") 0.0) ++
        (performAll steadyRun (start (.ofCommunity "#1") 0.0)).heldFor "C" =
      owedAll "C" steadyRun (start (.ofCommunity "#1") 0.0) ∧
    (owedAll "C" steadyRun (start (.ofCommunity "#1") 0.0)).map Message.value =
      [1.0, 2.0, 3.0] := by
  have hops : ∀ o ∈ steadyRun, o.2.Unthrottled "C" := by
    simp [steadyRun, Op.Unthrottled, writeX, registerX, Message.double, Immediate]
    decide
  have hnonneg : ∀ o ∈ steadyRun, 0.0 ≤ o.1 := by decide +kernel
  have hfinite : ∀ o ∈ steadyRun, o.1.isFinite = true := by decide +kernel
  have hsorted : (steadyRun.map (·.1)).Pairwise (· ≤ ·) := by decide +kernel
  exact ⟨⟨hops, hnonneg, hfinite, hsorted⟩,
    unthrottled_mail_exact _ 0.0 steadyRun "C" hops hnonneg hfinite hsorted, by decide +kernel⟩

/-- The time that no finite time reaches. -/
def never : Float := .ofBits 0x7ff0000000000000

/-- As in the steady run, but all at an infinite time. -/
def infiniteRun : List (Float × Op) := [
  (never, .receive "C" [registerX 0.0]),
  (never, .receive "A" [writeX 1.0, writeX 2.0])]

/-- At an infinite time the second write takes the place of the first one: their distance in time is
no number, so the subscription is not due again. -/
theorem infinite_time_overwrites :
    (∀ o ∈ infiniteRun, o.2.Unthrottled "C") ∧ (∀ o ∈ infiniteRun, 0.0 ≤ o.1) ∧
    (infiniteRun.map (·.1)).Pairwise (· ≤ ·) ∧
    deliveredAll "C" infiniteRun (start (.ofCommunity "#1") never) ++
        (performAll infiniteRun (start (.ofCommunity "#1") never)).heldFor "C" ≠
      owedAll "C" infiniteRun (start (.ofCommunity "#1") never) := by
  refine ⟨?_, by decide +kernel, by decide +kernel, by decide +kernel⟩
  simp [infiniteRun, Op.Unthrottled, writeX, registerX, Message.double, Immediate]
  decide

end Broker

end PubSub

import PubSub.Proofs.Broker.Run

/-!
# What becomes of a subscription

A client is subscribed to a variable (`Broker.subscription?`) by a registration of its own, or by
one of its filters when the variable is written for the first time. `Step.changes` tells what a step
changes about the subscription; the last change decides, and otherwise a step at most notes that the
subscription has been served (`Broker.subscription?_apply`).
-/

namespace PubSub.Broker

/-- A client's subscription to a variable. -/
def subscription? (b : Broker) (client key : String) : Option Subscription :=
  (b.store.get? key).bind fun v => v.subscriptions.get? client

instance (b : Broker) (key : String) : Decidable (b.Unwritten key) :=
  decidable_of_iff ((b.store.get? key).all (·.writes == 0) = true) <| by
    simp [Unwritten, Option.all_eq_true]

/-! ## Filters at a first write -/

/-- The filters of a client that cover a write. -/
def covering (b : Broker) (client : String) (m : Message) : List Filter :=
  (b.filtersOf client).filter fun f => f.covers m.source m.key

variable {b : Broker} {client key : String}

/-- Of several subscriptions of one client the last one counts. -/
theorem get?_foldl_subscribe (c : String) (fs : List Filter) (v : Variable) :
    (fs.foldl (fun v f => v.subscribe c f.period) v).subscriptions.get? client =
      if client = c then
        (fs.getLast?.map fun f => { period := Bounds.raised f.period }).or
          (v.subscriptions.get? client)
      else v.subscriptions.get? client := by
  induction fs using List.reverseRecOn with
  | nil => exact (ite_self _).symm
  | append_singleton fs f ih =>
    rw [List.foldl_append, List.foldl_cons, List.foldl_nil, Variable.subscribe_subscriptions, ih,
      List.getLast?_concat, Option.map_some, Option.some_or]
    split <;> rfl

/-- A first write subscribes a client by the last of its filters that cover the write. -/
theorem get?_subscribeByFilters (b : Broker) (m : Message) (v : Variable) (client : String) :
    (b.subscribeByFilters m v).subscriptions.get? client =
      ((b.covering client m).getLast?.map fun f => { period := Bounds.raised f.period }).or
        (v.subscriptions.get? client) := by
  obtain ⟨before, hbefore, hview⟩ := b.filters.view_foldl_entries
    (fun v e => (e.2.filter fun f => f.covers m.source m.key).foldl
      (fun v f => v.subscribe e.1 f.period) v)
    (fun v => v.subscriptions.get? client)
    (fun v e (he : e.1 ≠ client) => (get?_foldl_subscribe ..).trans (if_neg (Ne.symm he))) v
  rw [show (b.subscribeByFilters m v).subscriptions.get? client = _ from hview, covering, filtersOf]
  cases b.filters.get? client with
  | none => rfl
  | some fs =>
    refine (get?_foldl_subscribe ..).trans ((if_pos rfl).trans ?_)
    rw [hbefore, Option.getD_some]

/-- A client is subscribed to the variable that a message writes to by its filters, if it is the
first write, and otherwise as it was. -/
theorem get?_subscriptions_target (b : Broker) (now : Float) (m : Message) (client : String) :
    (b.target now m).subscriptions.get? client =
      if b.Unwritten m.key then
        ((b.covering client m).getLast?.map fun f => { period := Bounds.raised f.period }).or
          (b.subscription? client m.key)
      else b.subscription? client m.key := by
  split
  case isTrue hunwritten =>
    rw [target, if_pos (hunwritten.writes_getD rfl), get?_subscribeByFilters, subscription?]
    cases b.store.get? m.key <;> rfl
  case isFalse hwritten =>
    obtain ⟨v, hv, hw⟩ := (b.written_or_unwritten m.key).resolve_right hwritten
    rw [target_of_written hv hw, subscription?, hv, Option.bind_some]

/-! ## One step -/

/-- What a step changes about a client's subscription to a variable: the period that it subscribes
the client with, or `none` if it ends the subscription. -/
def Step.changes (client key : String) : Step → Broker → List (Option Float)
  | .write _ m _, b =>
    if m.key = key ∧ b.Unwritten key then
      (b.covering client m).map fun f => some (Bounds.raised f.period)
    else []
  | .subscribe c k period _, _ => if c = client ∧ k = key then [some (Bounds.raised period)] else []
  | .withdraw c ends, b => if c = client ∧ (b.store.get? key).any (ends key) then [none] else []
  | _, _ => []

/-- The time of a step that may serve a subscription. -/
def Step.time? : Step → Option Float
  | .write now _ _ | .subscribe _ _ _ now => some now
  | _ => none

/-- A client's subscription to a variable as a step changes it. -/
def Step.renewed (client key : String) (s : Step) (b : Broker) : Option Subscription :=
  match (s.changes client key b).getLast? with
  | some change => change.map fun period => { period }
  | none => b.subscription? client key

/-- A subscription after a step at most has been served. -/
def Step.Serves (s : Step) (served : Subscription → Subscription) : Prop :=
  ∀ x, served x = x ∨ ∃ now, s.time? = some now ∧ served x = { x with lastSent := now }

theorem Step.serves_id (s : Step) : s.Serves id := fun _ => .inl rfl

/-- The subscriptions to a variable after a write of it that is accepted: those that were due have
been served. -/
theorem subscription?_write_of_accepts (hn : b.Named) {now : Float} {m : Message}
    (hm : m.type = .notify) (h : b.Accepts now m) (client : String) :
    ((Step.write now m hm).apply b).subscription? client m.key =
      ((b.target now m).subscriptions.get? client).map fun x =>
        if x.isDue now then { x with lastSent := now } else x := by
  have hname : m.key = ((b.target now m).write m now b.config.community).name := by
    rw [Variable.write_name, hn.target]
  rw [Step.apply_write_of_accepts hm h, subscription?, get?_store_fanOut, if_pos hname,
    Option.bind_some, Table.get?_map, Variable.write_subscriptions]

theorem subscription?_write_of_ne (hn : b.Named) {now : Float} {m : Message}
    (hm : m.type = .notify) (client : String) (h : m.key ≠ key) :
    ((Step.write now m hm).apply b).subscription? client key = b.subscription? client key := by
  by_cases haccepts : b.Accepts now m
  · have hname : key ≠ ((b.target now m).write m now b.config.community).name := by
      rw [Variable.write_name, hn.target]
      exact Ne.symm h
    rw [Step.apply_write_of_accepts hm haccepts, subscription?, get?_store_fanOut, if_neg hname]
    rfl
  · rw [Step.apply_write_of_not_accepts hm haccepts]

theorem subscription?_write (hn : b.Named) {now : Float} {m : Message} (hm : m.type = .notify)
    (client key : String) :
    ∃ served, (Step.write now m hm).Serves served ∧
      ((Step.write now m hm).apply b).subscription? client key =
        ((Step.write now m hm).renewed client key b).map served := by
  by_cases hkey : m.key = key
  · subst hkey
    have hrenewed : (Step.write now m hm).renewed client m.key b =
        (b.target now m).subscriptions.get? client := by
      rw [get?_subscriptions_target, Step.renewed, Step.changes]
      by_cases hunwritten : b.Unwritten m.key
      · rw [if_pos ⟨rfl, hunwritten⟩, if_pos hunwritten, List.getLast?_map]
        cases (b.covering client m).getLast? <;> rfl
      · rw [if_neg fun h => hunwritten h.2, if_neg hunwritten]
        rfl
    by_cases haccepts : b.Accepts now m
    · refine ⟨fun x => if x.isDue now then { x with lastSent := now } else x, fun x => ?_, ?_⟩
      · dsimp only
        split
        · exact .inr ⟨now, rfl, rfl⟩
        · exact .inl rfl
      · rw [subscription?_write_of_accepts hn hm haccepts, hrenewed]
    · have hwritten : ¬ b.Unwritten m.key := fun h => haccepts (accepts_of_unwritten h)
      refine ⟨id, Step.serves_id _, ?_⟩
      rw [Step.apply_write_of_not_accepts hm haccepts, hrenewed, get?_subscriptions_target,
        if_neg hwritten, Option.map_id, id]
  · refine ⟨id, Step.serves_id _, ?_⟩
    rw [Step.renewed, Step.changes, if_neg fun h => hkey h.1, Option.map_id,
      subscription?_write_of_ne hn hm client hkey]
    rfl

/-- A registration of another client. -/
theorem subscription?_subscribe_of_ne (b : Broker) {c : String} (h : c ≠ client) (k key : String)
    (period now : Float) :
    (b.subscribe c k period now).subscription? client key = b.subscription? client key := by
  rw [subscription?]
  by_cases hk : key = k
  · obtain ⟨v, subscriptions, hv, hget, hsubscriptions⟩ := get?_store_subscribe b c k period now
    rw [hk, hget, Option.bind_some, hsubscriptions, if_neg (Ne.symm h), hv, subscription?]
    cases b.store.get? k <;> rfl
  · rw [get?_store_subscribe_of_ne c period now hk, subscription?]

theorem subscription?_subscribe (b : Broker) (c k : String) (period now : Float)
    (client key : String) :
    ∃ served, (Step.subscribe c k period now).Serves served ∧
      (b.subscribe c k period now).subscription? client key =
        ((Step.subscribe c k period now).renewed client key b).map served := by
  by_cases hmine : c = client ∧ k = key
  · obtain ⟨rfl, rfl⟩ := hmine
    obtain ⟨v, subscriptions, -, hget, hsubscriptions⟩ := get?_store_subscribe b c k period now
    refine ⟨fun x => if v.writes = 0 then x else { x with lastSent := now }, fun x => ?_, ?_⟩
    · dsimp only
      split
      · exact .inl rfl
      · exact .inr ⟨now, rfl, rfl⟩
    · rw [Step.renewed, Step.changes, if_pos ⟨rfl, rfl⟩, subscription?, hget, Option.bind_some,
        hsubscriptions, if_pos rfl]
      by_cases hw : v.writes = 0 <;> simp [hw]
  · refine ⟨id, Step.serves_id _, ?_⟩
    have hsame : (b.subscribe c k period now).subscription? client key =
        b.subscription? client key := by
      by_cases hc : c = client
      · have hk : key ≠ k := fun hk => hmine ⟨hc, hk.symm⟩
        rw [subscription?, get?_store_subscribe_of_ne c period now hk, subscription?]
      · exact subscription?_subscribe_of_ne b hc k key period now
    rw [hsame, Step.renewed, Step.changes, if_neg hmine, Option.map_id]
    rfl

theorem subscription?_withdraw (b : Broker) (c : String) (ends : String → Variable → Bool)
    (client key : String) :
    ((Step.withdraw c ends).apply b).subscription? client key =
      (Step.withdraw c ends).renewed client key b := by
  rw [subscription?, Step.get?_store_withdraw, Step.renewed, Step.changes, subscription?]
  cases b.store.get? key with
  | none => simp
  | some v =>
    rw [Option.map_some, Option.bind_some, Option.any_some, Option.bind_some]
    by_cases hends : ends key v = true
    · rw [if_pos hends, Variable.unsubscribe_subscriptions]
      by_cases hc : client = c
      · rw [if_pos hc, if_pos ⟨hc.symm, hends⟩]
        rfl
      · rw [if_neg hc, if_neg fun h => hc h.1.symm]
        rfl
    · rw [if_neg hends, if_neg fun h => hends h.2]
      rfl

/-- A step changes a subscription as `Step.changes` tells, and apart from that at most notes that it
has been served. -/
theorem subscription?_apply (hn : b.Named) (s : Step) (client key : String) :
    ∃ served, s.Serves served ∧
      (s.apply b).subscription? client key = (s.renewed client key b).map served := by
  have hsame {s : Step} (hchanges : s.changes client key b = [])
      (hstore : (s.apply b).subscription? client key = b.subscription? client key) :
      ∃ served, s.Serves served ∧
        (s.apply b).subscription? client key = (s.renewed client key b).map served := by
    refine ⟨id, Step.serves_id s, ?_⟩
    rw [hstore, Step.renewed, hchanges, Option.map_id]
    rfl
  cases s with
  | write now m hm => exact subscription?_write hn hm client key
  | subscribe c k period now => exact subscription?_subscribe b c k period now client key
  | withdraw c ends =>
    refine ⟨id, Step.serves_id _, ?_⟩
    rw [subscription?_withdraw, Option.map_id, id]
  | clear now =>
    refine hsame rfl ?_
    rw [subscription?, Step.get?_store_clear, subscription?]
    cases b.store.get? key <;> rfl
  | collect c => exact hsame rfl (by rw [subscription?, Step.apply, store_collect, subscription?])
  | keep | drop | forget | note => exact hsame rfl rfl

/-- A client that is subscribed after a step was so before, or the step subscribes it. -/
theorem subscription?_of_apply (hn : b.Named) {s : Step} {x : Subscription}
    (h : (s.apply b).subscription? client key = some x) :
    (∃ y, b.subscription? client key = some y) ∨
      ∃ period, some period ∈ s.changes client key b := by
  obtain ⟨served, -, happly⟩ := subscription?_apply hn s client key
  rw [happly, Step.renewed] at h
  cases hlast : (s.changes client key b).getLast? with
  | none =>
    rw [hlast] at h
    obtain ⟨y, hy, -⟩ := Option.map_eq_some_iff.1 h
    exact .inl ⟨y, hy⟩
  | some change =>
    rw [hlast] at h
    cases change with
    | none => cases h
    | some period => exact .inr ⟨period, List.mem_of_getLast? hlast⟩

/-! ## Filters and mail -/

/-- A client gets a filter only by keeping it. -/
theorem mem_filtersOf_apply {s : Step} {f : Filter} (h : f ∈ (s.apply b).filtersOf client) :
    f ∈ b.filtersOf client ∨ s = .keep client f := by
  cases s with
  | write now m hm =>
    by_cases haccepts : b.Accepts now m
    · rw [Step.apply_write_of_accepts hm haccepts] at h
      exact .inl h
    · rw [Step.apply_write_of_not_accepts hm haccepts] at h
      exact .inl h
  | subscribe c key period now =>
    rw [Step.apply, filtersOf, filters_subscribe] at h
    exact .inl h
  | keep c g =>
    rw [Step.filtersOf_keep] at h
    split at h
    · rename_i hc
      subst hc
      obtain h | h := List.mem_append.1 h
      · exact .inl (List.mem_filter.1 h).1
      · exact .inr (by rw [List.mem_singleton.1 h])
    · exact .inl h
  | drop c g =>
    rw [Step.filtersOf_drop] at h
    split at h
    · exact .inl (List.mem_filter.1 h).1
    · exact .inl h
  | collect c =>
    rw [Step.apply, filtersOf, filters_collect] at h
    exact .inl h
  | forget c =>
    rw [filtersOf, Step.apply, Table.get?_erase] at h
    split at h
    · cases h
    · exact .inl h
  | withdraw | clear | note => exact .inl h

theorem mem_replaceLast {m w : Message} {mail : List Message} (h : w ∈ replaceLast m mail) :
    w = m ∨ w ∈ mail := by
  induction mail using List.reverseRecOn with
  | nil => cases h
  | append_singleton mail n ih =>
    rw [replaceLast_concat] at h
    split at h
    · obtain h | h := List.mem_append.1 h
      · exact .inr (List.mem_append_left _ h)
      · exact .inl (List.mem_singleton.1 h)
    · obtain h | h := List.mem_append.1 h
      · exact (ih h).imp_right (List.mem_append_left _)
      · exact .inr (List.mem_append_right _ h)

/-- A step adds to a client's mail at most what the client is owed by it. -/
theorem mem_heldFor_apply_owed {s : Step} {w : Message} (h : w ∈ (s.apply b).heldFor client) :
    w ∈ b.heldFor client ∨ w ∈ s.owed client b := by
  cases s with
  | write now m hm =>
    by_cases haccepts : b.Accepts now m
    · rw [Step.apply_write_of_accepts hm haccepts, heldFor_fanOut,
        Variable.write_subscriptions] at h
      cases hx : (b.target now m).subscriptions.get? client with
      | none =>
        rw [hx] at h
        exact .inl h
      | some x =>
        have hsubscribed := Variable.isSubscribed_eq_true_iff.2 ⟨x, hx⟩
        rw [hx] at h
        rw [Step.owed, if_pos ⟨haccepts, hsubscribed⟩, List.mem_singleton]
        dsimp only at h
        split at h
        · exact (List.mem_append.1 h).imp_right List.mem_singleton.1
        · exact (mem_replaceLast h).symm
    · rw [Step.apply_write_of_not_accepts hm haccepts] at h
      exact .inl h
  | subscribe c key period now =>
    rw [Step.apply, heldFor_subscribe] at h
    split at h
    · rename_i hc
      rw [Step.owed, if_pos hc.symm]
      exact List.mem_append.1 h
    · exact .inl h
  | clear now =>
    rw [Step.apply, Step.heldFor_clear] at h
    cases h
  | collect c =>
    rw [Step.apply, heldFor_collect] at h
    split at h
    · cases h
    · exact .inl h
  | forget c =>
    rw [Step.heldFor_forget] at h
    split at h
    · cases h
    · exact .inl h
  | withdraw | keep | drop | note => exact .inl h

/-- What a step owes a client is of a variable that the client is subscribed to afterwards. -/
theorem exists_subscription_of_owed (hn : b.Named) {s : Step} {w : Message}
    (h : w ∈ s.owed client b) : ∃ x, (s.apply b).subscription? client w.key = some x := by
  cases s with
  | write now m hm =>
    rw [Step.owed] at h
    split at h
    · rename_i hdue
      obtain ⟨haccepts, hsubscribed⟩ := hdue
      obtain ⟨x, hx⟩ := Variable.isSubscribed_eq_true_iff.1 hsubscribed
      rw [List.mem_singleton.1 h, Message.stamped_key, subscription?_write_of_accepts hn hm haccepts,
        hx]
      exact ⟨_, rfl⟩
    · cases h
  | subscribe c key period now =>
    rw [Step.owed] at h
    split at h
    · rename_i hc
      obtain ⟨v, subscriptions, -, hget, hsubscriptions⟩ :=
        get?_store_subscribe b c key period now
      rw [Step.apply, hn.key_of_mem_snapshot h, subscription?, hget, Option.bind_some,
        hsubscriptions, if_pos hc.symm]
      exact ⟨_, rfl⟩
    · cases h
  | withdraw | keep | drop | clear | collect | forget | note => cases h

/-- A message that a step adds to a client's mail is of a variable that the client is subscribed to
afterwards. -/
theorem mem_heldFor_apply (hn : b.Named) {s : Step} {w : Message}
    (h : w ∈ (s.apply b).heldFor client) :
    w ∈ b.heldFor client ∨ ∃ x, (s.apply b).subscription? client w.key = some x :=
  (mem_heldFor_apply_owed h).imp_right (exists_subscription_of_owed hn)

end PubSub.Broker

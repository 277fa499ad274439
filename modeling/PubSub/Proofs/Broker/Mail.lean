import PubSub.Broker.Requests
import PubSub.Proofs.Broker.Variable

/-!
# Held mail and subscriptions, operation by operation

What each operation of the broker on its tables does to the mail held for one client
(`Broker.heldFor`), to one variable and to one subscription. Proofs about the broker use these
equations and open none of the operations again.
-/

namespace PubSub.Broker

/-! ## Replacing the last notification -/

/-- A held message that a newer one of the same variable may replace. -/
def Outdated (m n : Message) : Prop := n.type = .notify ∧ n.key = m.key

instance (m n : Message) : Decidable (Outdated m n) := inferInstanceAs (Decidable (_ ∧ _))

/-- The last message is replaced if it is of the same variable; otherwise it is passed over. -/
theorem replaceLast_concat (m n : Message) (mail : List Message) :
    replaceLast m (mail ++ [n]) =
      if Outdated m n then mail ++ [m] else replaceLast m mail ++ [n] := by
  by_cases h : Outdated m n
  · simp [replaceLast, h.1, h.2, if_pos h]
  · have hother : (n.type = .notify && n.key == m.key) = false := by
      simpa [Outdated] using h
    simp only [replaceLast, List.reverse_append, List.reverse_cons, List.reverse_nil,
      List.nil_append, List.singleton_append, List.takeWhile_cons, hother, Bool.not_false, if_true,
      List.length_cons, List.drop_succ_cons, if_neg h]
    split <;> simp [*]

/-- Mail of other variables stays as it is. -/
theorem filter_replaceLast_of_ne {m : Message} {key : String} (h : m.key ≠ key)
    (mail : List Message) :
    (replaceLast m mail).filter (·.key == key) = mail.filter (·.key == key) := by
  induction mail using List.reverseRecOn with
  | nil => rfl
  | append_singleton mail n ih =>
    rw [replaceLast_concat]
    split
    · rename_i hold
      simp [List.filter_append, h, show n.key ≠ key from hold.2 ▸ h]
    · rw [List.filter_append, ih, List.filter_append]

/-- Among the mail of its own variable, if all of it are notifications, a message replaces the last
one. -/
theorem filter_replaceLast {m : Message} {mail : List Message}
    (h : ∀ n ∈ mail, n.key = m.key → n.type = .notify) :
    (replaceLast m mail).filter (·.key == m.key) = [] ∧ mail.filter (·.key == m.key) = [] ∨
    ∃ earlier n, mail.filter (·.key == m.key) = earlier ++ [n] ∧
      (replaceLast m mail).filter (·.key == m.key) = earlier ++ [m] := by
  induction mail using List.reverseRecOn with
  | nil => exact .inl ⟨rfl, rfl⟩
  | append_singleton mail n ih =>
    rw [replaceLast_concat]
    by_cases hkey : n.key = m.key
    · rw [if_pos ⟨h n (by simp) hkey, hkey⟩]
      exact .inr ⟨mail.filter (·.key == m.key), n, by simp [hkey], by simp⟩
    · rw [if_neg fun hold => hkey hold.2]
      simpa [hkey] using ih fun x hx => h x (by simp [hx])

/-! ## The start -/

/-- A broker starts with variables of its own, which it has not written. -/
theorem eq_initialVariable {config : Config} {now : Float} {key : String} {v : Variable}
    (h : (start config now).store.get? key = some v) :
    ∃ value, v = initialVariable config now key value := by
  simp only [start, Table.get?_insert, Table.get?_empty] at h
  split at h
  · rename_i hkey
    exact ⟨0.0, by rw [hkey, Option.some.inj h]⟩
  · split at h
    · rename_i hkey
      exact ⟨now, by rw [hkey, Option.some.inj h]⟩
    · cases h

/-! ## Mail held for a client -/

theorem heldFor_hold (b : Broker) (client c : String) (mail : List Message) :
    (b.hold client mail).heldFor c = if c = client then mail else b.heldFor c := by
  simp only [heldFor, hold, Table.get?_insert]
  split <;> rfl

theorem heldFor_collect (b : Broker) (client c : String) :
    (b.collect client).2.heldFor c = if c = client then [] else b.heldFor c := by
  by_cases h : b.held.contains client
  · rw [collect, if_pos h, heldFor_hold]
  · have hnone : b.held.get? client = none := by simpa [Table.contains] using h
    rw [collect, if_neg h]
    split
    · rename_i hc
      rw [heldFor, hc, hnone, Option.getD_none]
    · rfl

theorem store_collect (b : Broker) (client : String) : (b.collect client).2.store = b.store := by
  rw [collect]
  split <;> rfl

theorem filters_collect (b : Broker) (client : String) :
    (b.collect client).2.filters = b.filters := by
  rw [collect]
  split <;> rfl

/-! ## Offering a message to all subscribers -/

/-- What is left of a subscription after an offer. -/
theorem offer_fst (now : Float) (m : Message) (s : Subscription) (mail : List Message) :
    (offer now m s mail).1 = if s.isDue now then { s with lastSent := now } else s := by
  rw [offer]
  split <;> rfl

theorem offer_snd (now : Float) (m : Message) (s : Subscription) (mail : List Message) :
    (offer now m s mail).2 = if s.isDue now then mail ++ [m] else replaceLast m mail := by
  rw [offer]
  split <;> rfl

theorem heldFor_fanOut (b : Broker) (now : Float) (v : Variable) (m : Message) (c : String) :
    (b.fanOut now v m).heldFor c =
      match v.subscriptions.get? c with
      | none => b.heldFor c
      | some s => if s.isDue now then b.heldFor c ++ [m] else replaceLast m (b.heldFor c) := by
  have hheld := Table.get?_foldl_insert
    (v.subscriptions.map fun client s => offer now m s (b.heldFor client)) (·.2) b.held c
  rw [Table.get?_map] at hheld
  rw [heldFor, show (b.fanOut now v m).held.get? c = _ from hheld]
  cases v.subscriptions.get? c with
  | none => rfl
  | some s => exact offer_snd now m s (b.heldFor c)

theorem get?_store_fanOut (b : Broker) (now : Float) (v : Variable) (m : Message) (key : String) :
    (b.fanOut now v m).store.get? key =
      if key = v.name then
        some { v with
          subscriptions := v.subscriptions.map fun _ s =>
            if s.isDue now then { s with lastSent := now } else s }
      else b.store.get? key := by
  simp only [fanOut, Table.map_map, offer_fst, Table.get?_insert]

/-! ## The variable that a message writes to -/

/-- A variable that has not been written since the broker started or was last cleared. -/
def Unwritten (b : Broker) (key : String) : Prop :=
  ∀ v, b.store.get? key = some v → v.writes = 0

theorem Unwritten.writes_getD {b : Broker} {key : String} (h : b.Unwritten key) {v : Variable}
    (hv : v.writes = 0) : ((b.store.get? key).getD v).writes = 0 := by
  cases hget : b.store.get? key with
  | none => exact hv
  | some u => exact h u hget

/-- A variable has been written or it has not. -/
theorem written_or_unwritten (b : Broker) (key : String) :
    (∃ v, b.store.get? key = some v ∧ v.writes ≠ 0) ∨ b.Unwritten key := by
  by_cases h : b.Unwritten key
  · exact .inr h
  · simp only [Unwritten, not_forall] at h
    obtain ⟨v, hv, hw⟩ := h
    exact .inl ⟨v, hv, hw⟩

/-- What holds of a variable and after each subscription by a filter that covers the write holds
after all of them. -/
theorem subscribeByFilters_induction {P : Variable → Prop} {b : Broker} {m : Message}
    {v : Variable} (h : P v)
    (hstep : ∀ v client f, P v → f ∈ b.filtersOf client → f.covers m.source m.key →
      P (v.subscribe client f.period)) : P (b.subscribeByFilters m v) := by
  refine List.foldlRecOn b.filters.entries _ h fun u hu e he => ?_
  have hfilters : b.filtersOf e.1 = e.2 := by
    rw [filtersOf, Table.mem_entries_iff.1 he, Option.getD_some]
  refine List.foldlRecOn (e.2.filter _) _ hu fun u hu f hf => ?_
  obtain ⟨hmem, hcovers⟩ := List.mem_filter.1 hf
  exact hstep u e.1 f hu (hfilters ▸ hmem) hcovers

theorem subscribeByFilters_eq (b : Broker) (m : Message) (v : Variable) :
    ∃ subscriptions, b.subscribeByFilters m v = { v with subscriptions } := by
  refine subscribeByFilters_induction (P := fun u => ∃ subscriptions, u = { v with subscriptions })
    ⟨_, rfl⟩ ?_
  rintro _ client f ⟨subscriptions, rfl⟩ - -
  exact ⟨_, rfl⟩

variable {b : Broker} {now : Float} {m : Message}

theorem target_of_written {v : Variable} (h : b.store.get? m.key = some v) (hw : v.writes ≠ 0) :
    b.target now m = v := by
  simp [target, h, hw]

/-- A variable that has not been written takes the type of the message. -/
theorem target_of_unwritten (h : b.Unwritten m.key) :
    ∃ subscriptions, b.target now m =
      { (b.store.get? m.key).getD (Variable.fresh m.key m.dataType now) with
        dataType := m.dataType, subscriptions } := by
  rw [target, if_pos (h.writes_getD rfl)]
  exact subscribeByFilters_eq b m _

/-- A client subscribes to the variable that a message writes to because it did before, or by one of
its filters. -/
theorem subscriptions_target {client : String} {s : Subscription}
    (h : (b.target now m).subscriptions.get? client = some s) :
    (∃ v, b.store.get? m.key = some v ∧ v.subscriptions.get? client = some s) ∨
    ∃ f ∈ b.filtersOf client, s = { period := Bounds.raised f.period } := by
  have hold {v : Variable} (hv : v.subscriptions.get? client = some s)
      (hstore : v.subscriptions =
        ((b.store.get? m.key).getD (Variable.fresh m.key m.dataType now)).subscriptions) :
      ∃ v, b.store.get? m.key = some v ∧ v.subscriptions.get? client = some s := by
    rw [hstore] at hv
    cases hget : b.store.get? m.key with
    | none => rw [hget] at hv; cases hv
    | some u => rw [hget] at hv; exact ⟨u, rfl, hv⟩
  rw [target] at h
  by_cases hw : ((b.store.get? m.key).getD (Variable.fresh m.key m.dataType now)).writes = 0
  · rw [if_pos hw] at h
    revert h
    refine subscribeByFilters_induction
      (P := fun v => v.subscriptions.get? client = some s → _) (fun h => .inl (hold h rfl)) ?_
    intro v c f ih hf _ h
    rw [Variable.subscribe_subscriptions] at h
    by_cases hc : client = c
    · rw [if_pos hc, Option.some.injEq] at h
      exact .inr ⟨f, hc ▸ hf, h.symm⟩
    · rw [if_neg hc] at h
      exact ih h
  · rw [if_neg hw] at h
    exact .inl (hold h rfl)

/-! ## Writes -/

/-- Whether a write has the type of its variable. -/
def Accepts (b : Broker) (now : Float) (m : Message) : Prop :=
  (b.target now m).dataType = m.dataType

instance (b : Broker) (now : Float) (m : Message) : Decidable (b.Accepts now m) :=
  inferInstanceAs (Decidable (_ = _))

/-- A first write is accepted. -/
theorem accepts_of_unwritten (h : b.Unwritten m.key) : b.Accepts now m :=
  (target_of_unwritten h).elim fun _ htarget => congrArg Variable.dataType htarget

theorem notify_of_accepts (h : b.Accepts now m) :
    b.notify now m = .ok (b.fanOut now ((b.target now m).write m now b.config.community)
      (m.stamped b.config.community)) := by
  simp only [notify]
  exact if_neg (not_not_intro h)

theorem notify_of_not_accepts (h : ¬ b.Accepts now m) :
    b.notify now m = .error (.typeConflict m.key (b.target now m).dataType m.dataType) := by
  simp only [notify]
  exact if_pos h

theorem accepts_of_notify {b' : Broker} (h : b.notify now m = .ok b') : b.Accepts now m :=
  Classical.byContradiction fun hnot => by
    rw [notify_of_not_accepts hnot] at h
    cases h

/-! ## Registrations -/

/-- The mail that a client gets when it subscribes: the variable, if it has been written. -/
def snapshot (b : Broker) (key : String) : List Message :=
  match b.store.get? key with
  | some v => if v.writes = 0 then [] else [v.toMessage .notify]
  | none => []

theorem subscribe_of_unwritten {key : String} (client : String) (period : Float)
    (h : b.Unwritten key) :
    b.subscribe client key period now =
      { b with
        store := b.store.insert key
          (((b.store.get? key).getD (Variable.fresh key .notSet now)).subscribe client period) } :=
  if_pos (h.writes_getD rfl)

theorem subscribe_of_written {key : String} {v : Variable} (client : String) (period : Float)
    (h : b.store.get? key = some v) (hw : v.writes ≠ 0) :
    b.subscribe client key period now =
      { b with
        store := b.store.insert key
          { v.subscribe client period with
            subscriptions := (v.subscribe client period).subscriptions.modify client
              fun s => { s with lastSent := now } } }.hold client
        (b.heldFor client ++ [v.toMessage .notify]) := by
  simp only [subscribe, h, Option.getD_some]
  exact if_neg hw

theorem snapshot_of_unwritten {key : String} (h : b.Unwritten key) : b.snapshot key = [] := by
  cases hv : b.store.get? key with
  | none => rw [snapshot, hv]
  | some v => simp [snapshot, hv, h v hv]

theorem snapshot_of_written {key : String} {v : Variable} (h : b.store.get? key = some v)
    (hw : v.writes ≠ 0) : b.snapshot key = [v.toMessage .notify] := by
  simp [snapshot, h, hw]

theorem eq_of_mem_snapshot {key : String} {w : Message} (h : w ∈ b.snapshot key) :
    ∃ v, b.store.get? key = some v ∧ w = v.toMessage .notify := by
  obtain ⟨v, hv, hw⟩ | hunwritten := b.written_or_unwritten key
  · rw [snapshot_of_written hv hw] at h
    exact ⟨v, hv, List.mem_singleton.1 h⟩
  · rw [snapshot_of_unwritten hunwritten] at h
    cases h

theorem heldFor_subscribe (b : Broker) (client key c : String) (period now : Float) :
    (b.subscribe client key period now).heldFor c =
      if c = client then b.heldFor c ++ b.snapshot key else b.heldFor c := by
  obtain ⟨v, hv, hw⟩ | h := b.written_or_unwritten key
  · rw [subscribe_of_written client period hv hw, heldFor_hold, snapshot_of_written hv hw]
    split
    · rename_i hc
      rw [hc]
    · rfl
  · rw [subscribe_of_unwritten client period h, snapshot_of_unwritten h, List.append_nil, ite_self]
    rfl

theorem filters_subscribe (b : Broker) (client key : String) (period now : Float) :
    (b.subscribe client key period now).filters = b.filters := by
  simp only [subscribe]
  split <;> rfl

theorem config_subscribe (b : Broker) (client key : String) (period now : Float) :
    (b.subscribe client key period now).config = b.config := by
  simp only [subscribe]
  split <;> rfl

theorem get?_store_subscribe_of_ne {key k : String} (client : String) (period now : Float)
    (h : k ≠ key) : (b.subscribe client key period now).store.get? k = b.store.get? k := by
  obtain ⟨v, hv, hw⟩ | hunwritten := b.written_or_unwritten key
  · rw [subscribe_of_written client period hv hw]
    exact (Table.get?_insert ..).trans (if_neg h)
  · rw [subscribe_of_unwritten client period hunwritten]
    exact (Table.get?_insert ..).trans (if_neg h)

/-- A subscription changes nothing of a variable but the entry of the client. -/
theorem get?_store_subscribe (b : Broker) (client key : String) (period now : Float) :
    ∃ v subscriptions, v = (b.store.get? key).getD (Variable.fresh key .notSet now) ∧
      (b.subscribe client key period now).store.get? key = some { v with subscriptions } ∧
      ∀ c, subscriptions.get? c =
        if c = client then
          some { period := Bounds.raised period, lastSent := if v.writes = 0 then -1.0 else now }
        else v.subscriptions.get? c := by
  obtain ⟨v, hv, hw⟩ | h := b.written_or_unwritten key
  · rw [subscribe_of_written client period hv hw, hv]
    refine ⟨v, _, rfl, (Table.get?_insert ..).trans (if_pos rfl), fun c => ?_⟩
    rw [Table.get?_modify, Variable.subscribe_subscriptions, if_neg hw]
    split <;> rfl
  · rw [subscribe_of_unwritten client period h]
    refine ⟨_, _, rfl, (Table.get?_insert ..).trans (if_pos rfl), fun c => ?_⟩
    rw [h.writes_getD rfl, if_pos rfl]
    exact Variable.subscribe_subscriptions ..

end PubSub.Broker

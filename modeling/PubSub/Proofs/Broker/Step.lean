import PubSub.Proofs.Broker.Mail

/-!
# Steps of a broker

Everything that a broker does is a sequence of steps (`Broker.Step`), each of which touches the mail
of a client or a variable in one way only. What a property needs of the past of a broker is gathered
along the steps (`Step.along`): the writes that it has accepted, the mail that it has handed to a
client, and the mail that a client should get.

A property of all runs is proved of one step, case by case, and then of any sequence of steps. The
simplest one is that each variable is stored under its own name (`Broker.Named`).
-/

namespace PubSub.Broker

/-- A step of a broker. -/
inductive Step where
  /-- A write is accepted and fanned out, or refused. -/
  | write (now : Float) (m : Message) (isNotify : m.type = .notify)
  | subscribe (client key : String) (period now : Float)
  /-- Some of a client's subscriptions end. -/
  | withdraw (client : String) (ends : String → Variable → Bool)
  /-- A client gets a standing filter, instead of those with the same patterns. -/
  | keep (client : String) (f : Filter)
  /-- A client's standing filters with the same patterns end. -/
  | drop (client : String) (f : Filter)
  | clear (now : Float)
  | collect (client : String)
  /-- All that is kept for a client outside of the variables is gone. -/
  | forget (client : String)
  /-- The broker notes who is connected, how long packets take and when it last kept house. -/
  | note (clients : NameSet) (latencies : Table Latency) (summaryTime : Float)

namespace Step

/-- The broker after a step. -/
def apply : Step → Broker → Broker
  | write now m _, b =>
    match b.notify now m with
    | .ok b => b
    | .error _ => b
  | subscribe client key period now, b => b.subscribe client key period now
  | withdraw client ends, b =>
    { b with store := b.store.map fun key v => if ends key v then v.unsubscribe client else v }
  | keep client f, b =>
    let others := (b.filtersOf client).filter fun g => !g.samePatterns f
    { b with filters := b.filters.insert client (others ++ [f]) }
  | drop client f, b =>
    { b with filters := b.filters.modify client fun fs => fs.filter fun g => !g.samePatterns f }
  | clear now, b => b.clear now
  | collect client, b => (b.collect client).2
  | forget client, b =>
    { b with
      filters := b.filters.erase client
      held := b.held.erase client
      clients := b.clients.erase client
      latencies := b.latencies.erase client }
  | note clients latencies summaryTime, b => { b with clients, latencies, summaryTime }

/-- The broker after a sequence of steps. -/
def run (steps : List Step) (b : Broker) : Broker := steps.foldl (fun b s => s.apply b) b

/-! ## What is told of the past -/

/-- The accepted write, as subscribers get it. -/
def accepted : Step → Broker → List Message
  | write now m _, b => if b.Accepts now m then [m.stamped b.config.community] else []
  | _, _ => []

/-- The mail that is handed to a client. -/
def handed (client : String) : Step → Broker → List Message
  | collect c, b => if c = client then b.heldFor client else []
  | _, _ => []

/-- The mail that a client should get, if it is to be told of everything: the variable when it
subscribes, and each accepted write to a variable that it subscribes to then. -/
def owed (client : String) : Step → Broker → List Message
  | write now m _, b =>
    if b.Accepts now m ∧ (b.target now m).isSubscribed client then
      [m.stamped b.config.community]
    else []
  | subscribe c key _ _, b => if c = client then b.snapshot key else []
  | _, _ => []

/-- What is told of steps, each in the state that the steps before it lead to. -/
def along {α : Type} (told : Step → Broker → List α) : List Step → Broker → List α
  | [], _ => []
  | s :: steps, b => told s b ++ along told steps (s.apply b)

section
variable {α : Type} (told : Step → Broker → List α) (s : Step) (steps rest : List Step) (b : Broker)

@[simp] theorem run_nil : run [] b = b := rfl

@[simp] theorem run_cons : run (s :: steps) b = run steps (s.apply b) := rfl

theorem run_append : run (steps ++ rest) b = run rest (run steps b) := List.foldl_append

@[simp] theorem along_nil : along told [] b = [] := rfl

@[simp] theorem along_cons :
    along told (s :: steps) b = told s b ++ along told steps (s.apply b) := rfl

theorem along_append :
    along told (steps ++ rest) b = along told steps b ++ along told rest (run steps b) := by
  induction steps generalizing b with
  | nil => rfl
  | cons s steps ih =>
    rw [List.cons_append, along_cons, ih, along_cons, run_cons, List.append_assoc]

end

/-! ## One step -/

theorem apply_write_of_accepts {b : Broker} {now : Float} {m : Message} (hm : m.type = .notify)
    (h : b.Accepts now m) :
    (write now m hm).apply b = b.fanOut now ((b.target now m).write m now b.config.community)
      (m.stamped b.config.community) := by
  rw [apply, notify_of_accepts h]

theorem apply_write_of_not_accepts {b : Broker} {now : Float} {m : Message} (hm : m.type = .notify)
    (h : ¬ b.Accepts now m) : (write now m hm).apply b = b := by
  rw [apply, notify_of_not_accepts h]

theorem heldFor_clear (b : Broker) (now : Float) (c : String) :
    (b.clear now).heldFor c = [] := by
  rw [heldFor, Broker.clear, Table.get?_map]
  cases b.held.get? c <;> rfl

theorem heldFor_forget (b : Broker) (client c : String) :
    ((forget client).apply b).heldFor c = if c = client then [] else b.heldFor c := by
  rw [heldFor, apply, Table.get?_erase]
  split <;> rfl

theorem filtersOf_keep (b : Broker) (client c : String) (f : Filter) :
    ((keep client f).apply b).filtersOf c =
      if c = client then ((b.filtersOf client).filter fun g => !g.samePatterns f) ++ [f]
      else b.filtersOf c := by
  simp only [filtersOf, apply, Table.get?_insert]
  split <;> rfl

theorem filtersOf_drop (b : Broker) (client c : String) (f : Filter) :
    ((drop client f).apply b).filtersOf c =
      if c = client then (b.filtersOf c).filter fun g => !g.samePatterns f
      else b.filtersOf c := by
  simp only [filtersOf, apply, Table.get?_modify]
  split
  · cases b.filters.get? c <;> rfl
  · rfl

theorem get?_store_withdraw (b : Broker) (client : String) (ends : String → Variable → Bool)
    (key : String) :
    ((withdraw client ends).apply b).store.get? key =
      (b.store.get? key).map fun v => if ends key v then v.unsubscribe client else v :=
  Table.get?_map ..

theorem get?_store_clear (b : Broker) (now : Float) (key : String) :
    ((clear now).apply b).store.get? key = (b.store.get? key).map Variable.reset :=
  Table.get?_map ..

end Step

/-! ## Names -/

/-- Each variable is stored under its own name. -/
def Named (b : Broker) : Prop := ∀ key v, b.store.get? key = some v → v.name = key

theorem Named.getD {b : Broker} (h : b.Named) {key : String} {v : Variable} (hv : v.name = key) :
    ((b.store.get? key).getD v).name = key := by
  cases hget : b.store.get? key with
  | none => exact hv
  | some u => exact h key u hget

theorem Named.target {b : Broker} (h : b.Named) (now : Float) (m : Message) :
    (b.target now m).name = m.key := by
  obtain ⟨v, hv, hw⟩ | hunwritten := b.written_or_unwritten m.key
  · rw [target_of_written hv hw]
    exact h _ v hv
  · obtain ⟨_, htarget⟩ := target_of_unwritten hunwritten
    rw [htarget]
    exact h.getD rfl

/-- A write leaves other variables as they are. -/
theorem Named.get?_store_write_of_ne {b : Broker} (h : b.Named) {now : Float} {m : Message}
    (hm : m.type = .notify) {key : String} (hkey : key ≠ m.key) :
    ((Step.write now m hm).apply b).store.get? key = b.store.get? key := by
  by_cases haccepts : b.Accepts now m
  · rw [Step.apply_write_of_accepts hm haccepts, get?_store_fanOut, Variable.write_name, h.target,
      if_neg hkey]
  · rw [Step.apply_write_of_not_accepts hm haccepts]

/-- A client that subscribes is told of the variable that it names. -/
theorem Named.key_of_mem_snapshot {b : Broker} (h : b.Named) {key : String} {w : Message}
    (hw : w ∈ b.snapshot key) : w.key = key := by
  obtain ⟨v, hv, rfl⟩ := eq_of_mem_snapshot hw
  exact h key v hv

theorem named_start (config : Config) (now : Float) : (start config now).Named := by
  intro key v hv
  obtain ⟨value, rfl⟩ := eq_initialVariable hv
  rfl

theorem Named.apply {b : Broker} (h : b.Named) (s : Step) : (s.apply b).Named := by
  intro key v hv
  cases s with
  | write now m hm =>
    by_cases haccepts : b.Accepts now m
    · rw [Step.apply_write_of_accepts hm haccepts, get?_store_fanOut] at hv
      split at hv
      · rename_i hkey
        cases hv
        exact hkey.symm
      · exact h key v hv
    · rw [Step.apply_write_of_not_accepts hm haccepts] at hv
      exact h key v hv
  | subscribe client k period now =>
    by_cases hkey : key = k
    · obtain ⟨u, _, hu, hget, -⟩ := get?_store_subscribe b client k period now
      rw [hkey, Step.apply, hget] at hv
      cases hv
      rw [hkey, hu]
      exact h.getD rfl
    · rw [Step.apply, get?_store_subscribe_of_ne client period now hkey] at hv
      exact h key v hv
  | withdraw client ends =>
    rw [Step.get?_store_withdraw, Option.map_eq_some_iff] at hv
    obtain ⟨u, hu, rfl⟩ := hv
    rw [← h key u hu]
    split <;> rfl
  | clear now =>
    rw [Step.get?_store_clear, Option.map_eq_some_iff] at hv
    obtain ⟨u, hu, rfl⟩ := hv
    exact h key u hu
  | collect client =>
    rw [Step.apply, store_collect] at hv
    exact h key v hv
  | keep | drop | forget | note => exact h key v hv

theorem Named.run {b : Broker} (h : b.Named) (steps : List Step) : (Step.run steps b).Named := by
  induction steps generalizing b with
  | nil => exact h
  | cons s steps ih => exact ih (h.apply s)

end PubSub.Broker

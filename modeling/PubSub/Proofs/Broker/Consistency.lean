import Mathlib.Data.List.DropRight
import Mathlib.Data.List.ReduceOption
import PubSub.Proofs.Broker.Acts
import PubSub.Proofs.Broker.DataType
import PubSub.Proofs.Broker.Subscriptions

/-!
# What the tables say of the past

The number of writes of a variable, its writers, the number that the estimate of its frequency goes
by, and the mail that is held all tell of the same past: the writes that the broker has accepted
since it was last cleared (`Broker.sinceClear`). They keep together whatever the broker does
(`Broker.consistent_performActs`).

The invariant is `Broker.Consistent`, of a broker and the record of its past, which each step makes
longer (`Step.recorded`). A step other than clearing adds to the number of writes what it adds to
the record (`Broker.writesOf_apply`), and to the mail only what is of a variable that has been
written by then (`Broker.written_of_owed`).
-/

namespace PubSub

/-! ## The numbers of one variable -/

/-- The numbers of a variable agree with each other. -/
structure Variable.Coherent (v : Variable) : Prop where
  estimateWrites_le : v.estimateWrites ≤ v.writes
  writers_eq : v.writes = 0 → v.writers = ∅
  writer_mem : v.writes ≠ 0 → v.writers.contains v.writer = true

namespace Variable

theorem coherent_of_unwritten {v : Variable} (hwrites : v.writes = 0)
    (hestimate : v.estimateWrites = 0) (hwriters : v.writers = ∅) : v.Coherent where
  estimateWrites_le := by rw [hestimate]; exact Nat.zero_le _
  writers_eq _ := hwriters
  writer_mem h := absurd hwrites h

/-- A variable with the same numbers, whatever else has changed. -/
theorem Coherent.of_eq {u v : Variable} (h : v.Coherent)
    (hestimate : u.estimateWrites = v.estimateWrites) (hwrites : u.writes = v.writes)
    (hwriters : u.writers = v.writers) (hwriter : u.writer = v.writer) : u.Coherent where
  estimateWrites_le := by rw [hestimate, hwrites]; exact h.estimateWrites_le
  writers_eq hnone := hwriters.trans (h.writers_eq (hwrites.symm.trans hnone))
  writer_mem hsome := by rw [hwriters, hwriter]; exact h.writer_mem (hwrites ▸ hsome)

theorem coherent_reset (v : Variable) : v.reset.Coherent := coherent_of_unwritten rfl rfl rfl

/-- An estimate goes by no more writes than there have been. -/
theorem estimateWrites_estimateFrequency_le {v : Variable} (h : v.estimateWrites ≤ v.writes)
    (now : Float) : (v.estimateFrequency now).estimateWrites ≤ v.writes := by
  rw [estimateFrequency]
  split
  · exact h
  · exact Nat.le_refl _

/-- A write adds its source to the writers and one to the writes, before the estimate goes by
them. -/
theorem Coherent.write {v : Variable} (h : v.Coherent) (m : Message) (now : Float)
    (community : String) : (v.write m now community).Coherent where
  estimateWrites_le := by
    rw [write_writes]
    exact estimateWrites_estimateFrequency_le (Nat.le_succ_of_le h.estimateWrites_le) now
  writers_eq hwrites := by
    rw [write_writes] at hwrites
    exact absurd hwrites (Nat.succ_ne_zero _)
  writer_mem _ := by
    rw [write_writer, write_writers, NameSet.add, Table.contains_insert]
    simp

end Variable

namespace Broker

variable {b : Broker} {client key : String} {record : List (Option Message)}

/-! ## The record of the past -/

/-- What a step adds to the record: each accepted write, and that the broker has been cleared. -/
def Step.recorded : Step → Broker → List (Option Message)
  | .clear _, _ => [none]
  | s, b => (s.accepted b).map some

/-- The writes in a record since the broker was last cleared. -/
def sinceClear (record : List (Option Message)) : List Message :=
  (record.rtakeWhile Option.isSome).reduceOption

theorem sinceClear_concat_none (record : List (Option Message)) :
    sinceClear (record ++ [none]) = [] := by
  rw [sinceClear, List.rtakeWhile_concat_neg _ _ _ (by simp)]
  rfl

theorem sinceClear_append_some (record : List (Option Message)) (ws : List Message) :
    sinceClear (record ++ ws.map some) = sinceClear record ++ ws := by
  induction ws using List.reverseRecOn with
  | nil => rw [List.map_nil, List.append_nil, List.append_nil]
  | append_singleton ws w ih =>
    rw [sinceClear] at ih
    rw [List.map_append, List.map_singleton, ← List.append_assoc, sinceClear,
      List.rtakeWhile_concat_pos _ _ _ rfl, List.reduceOption_append, ih, ← List.append_assoc]
    rfl

theorem Step.clear_or_noClear (s : Step) : (∃ now, s = .clear now) ∨ s.NoClear := by
  cases s with
  | clear now => exact .inl ⟨now, rfl⟩
  | write | subscribe | withdraw | keep | drop | collect | forget | note => exact .inr trivial

theorem Step.recorded_of_noClear {s : Step} (hs : s.NoClear) (b : Broker) :
    s.recorded b = (s.accepted b).map some := by
  cases s with
  | clear now => exact absurd hs not_false
  | write | subscribe | withdraw | keep | drop | collect | forget | note => rfl

/-! ## The number of writes -/

/-- How often a variable has been written, as the broker counts it. -/
def writesOf (b : Broker) (key : String) : Nat := ((b.store.get? key).map Variable.writes).getD 0

theorem writesOf_congr {c : Broker} (h : c.store.get? key = b.store.get? key) :
    c.writesOf key = b.writesOf key := by
  rw [writesOf, h, writesOf]

theorem writes_target (b : Broker) (now : Float) (m : Message) :
    (b.target now m).writes = b.writesOf m.key := by
  obtain ⟨v, hv, hw⟩ | hunwritten := b.written_or_unwritten m.key
  · rw [target_of_written hv hw, writesOf, hv]
    rfl
  · obtain ⟨_, htarget⟩ := target_of_unwritten hunwritten
    rw [htarget, writesOf]
    cases b.store.get? m.key <;> rfl

theorem exists_of_writesOf_pos (h : 0 < b.writesOf key) : ∃ v, b.store.get? key = some v := by
  cases hv : b.store.get? key with
  | none =>
    rw [writesOf, hv] at h
    exact absurd h (Nat.lt_irrefl 0)
  | some v => exact ⟨v, rfl⟩

theorem writesOf_of_store {v : Variable} (hv : b.store.get? key = some v) :
    b.writesOf key = v.writes := by
  rw [writesOf, hv]
  rfl

theorem writesOf_clear (b : Broker) (now : Float) (key : String) :
    ((Step.clear now).apply b).writesOf key = 0 := by
  rw [writesOf, Step.get?_store_clear]
  cases b.store.get? key <;> rfl

theorem writesOf_write (hn : b.Named) {now : Float} {m : Message} (hm : m.type = .notify)
    (h : b.Accepts now m) (key : String) :
    ((Step.write now m hm).apply b).writesOf key =
      b.writesOf key + if m.key = key then 1 else 0 := by
  by_cases hkey : m.key = key
  · subst hkey
    have hname : m.key = ((b.target now m).write m now b.config.community).name := by
      rw [Variable.write_name, hn.target]
    rw [Step.apply_write_of_accepts hm h, writesOf, get?_store_fanOut, if_pos hname, if_pos rfl,
      ← writes_target b now]
    exact Variable.write_writes ..
  · rw [if_neg hkey, Nat.add_zero,
      writesOf_congr (hn.get?_store_write_of_ne hm (Ne.symm hkey))]

/-- A step other than clearing counts the writes that it accepts. -/
theorem writesOf_apply (hn : b.Named) {s : Step} (hs : s.NoClear) (key : String) :
    (s.apply b).writesOf key = b.writesOf key + (s.accepted b).countP (·.key == key) := by
  cases s with
  | write now m hm =>
    by_cases haccepts : b.Accepts now m
    · rw [writesOf_write hn hm haccepts, Step.accepted, if_pos haccepts, List.countP_singleton,
        Message.stamped_key]
      simp
    · rw [Step.apply_write_of_not_accepts hm haccepts, Step.accepted, if_neg haccepts]
      rfl
  | subscribe c k period now =>
    by_cases hkey : key = k
    · obtain ⟨v, subscriptions, hv, hget, -⟩ := get?_store_subscribe b c k period now
      rw [hkey, Step.apply, writesOf_of_store hget, hv, writesOf]
      cases b.store.get? k <;> rfl
    · exact writesOf_congr (get?_store_subscribe_of_ne c period now hkey)
  | withdraw c ends =>
    rw [writesOf, Step.get?_store_withdraw, Option.map_map, writesOf]
    cases b.store.get? key with
    | none => rfl
    | some v =>
      rw [Option.map_some, Function.comp_apply]
      split <;> rfl
  | clear now => exact absurd hs not_false
  | collect c => exact writesOf_congr (congrArg (Table.get? · key) (store_collect b c))
  | keep | drop | forget | note => rfl

/-! ## Variables -/

/-- The numbers of each variable agree with each other. -/
def CoherentVariables (b : Broker) : Prop := ∀ key v, b.store.get? key = some v → v.Coherent

theorem coherentVariables_start (config : Config) (now : Float) :
    (start config now).CoherentVariables := by
  intro key v hv
  obtain ⟨value, rfl⟩ := eq_initialVariable hv
  exact Variable.coherent_of_unwritten rfl rfl rfl

theorem CoherentVariables.getD (h : b.CoherentVariables) (key : String) (type : DataType)
    (now : Float) : ((b.store.get? key).getD (Variable.fresh key type now)).Coherent := by
  cases hv : b.store.get? key with
  | none => exact Variable.coherent_of_unwritten rfl rfl rfl
  | some v => exact h key v hv

/-- The numbers of the variable that a message writes to agree before the write. -/
theorem CoherentVariables.target (h : b.CoherentVariables) (now : Float) (m : Message) :
    (b.target now m).Coherent := by
  obtain ⟨v, hv, hw⟩ | hunwritten := b.written_or_unwritten m.key
  · rw [target_of_written hv hw]
    exact h _ v hv
  · obtain ⟨subscriptions, htarget⟩ := target_of_unwritten hunwritten
    rw [htarget]
    exact (h.getD m.key m.dataType now).of_eq rfl rfl rfl rfl

theorem CoherentVariables.apply (h : b.CoherentVariables) (s : Step) :
    (s.apply b).CoherentVariables := by
  intro key v hv
  cases s with
  | write now m hm =>
    by_cases haccepts : b.Accepts now m
    · rw [Step.apply_write_of_accepts hm haccepts, get?_store_fanOut] at hv
      split at hv
      · cases hv
        exact ((h.target now m).write m now b.config.community).of_eq rfl rfl rfl rfl
      · exact h key v hv
    · rw [Step.apply_write_of_not_accepts hm haccepts] at hv
      exact h key v hv
  | subscribe c k period now =>
    by_cases hkey : key = k
    · obtain ⟨u, subscriptions, hu, hget, -⟩ := get?_store_subscribe b c k period now
      rw [hkey, Step.apply, hget, hu] at hv
      cases hv
      exact (h.getD k .notSet now).of_eq rfl rfl rfl rfl
    · rw [Step.apply, get?_store_subscribe_of_ne c period now hkey] at hv
      exact h key v hv
  | withdraw c ends =>
    rw [Step.get?_store_withdraw, Option.map_eq_some_iff] at hv
    obtain ⟨u, hu, rfl⟩ := hv
    split <;> exact (h key u hu).of_eq rfl rfl rfl rfl
  | clear now =>
    rw [Step.get?_store_clear, Option.map_eq_some_iff] at hv
    obtain ⟨u, -, rfl⟩ := hv
    exact u.coherent_reset
  | collect c =>
    rw [Step.apply, store_collect] at hv
    exact h key v hv
  | keep | drop | forget | note => exact h key v hv

/-! ## Mail -/

/-- A client that subscribes gets a variable only if it has been written. -/
theorem writesOf_of_mem_snapshot (hn : b.Named) {w : Message} (h : w ∈ b.snapshot key) :
    0 < b.writesOf w.key := by
  rw [hn.key_of_mem_snapshot h]
  obtain ⟨v, hv, hw⟩ | hunwritten := b.written_or_unwritten key
  · rw [writesOf_of_store hv]
    exact Nat.pos_of_ne_zero hw
  · rw [snapshot_of_unwritten hunwritten] at h
    cases h

/-- What a step owes a client is an accepted write, or a variable that has been written before. -/
theorem written_of_owed (hn : b.Named) {s : Step} {w : Message} (h : w ∈ s.owed client b) :
    w ∈ s.accepted b ∨ 0 < b.writesOf w.key := by
  cases s with
  | write now m hm =>
    rw [Step.owed] at h
    split at h
    · rename_i hdue
      exact .inl (by rwa [Step.accepted, if_pos hdue.1])
    · cases h
  | subscribe c k period now =>
    rw [Step.owed] at h
    split at h
    · exact .inr (writesOf_of_mem_snapshot hn h)
    · cases h
  | withdraw | keep | drop | clear | collect | forget | note => cases h

/-! ## The invariant -/

/-- The tables of a broker agree with each other and with the record of its past. -/
structure Consistent (b : Broker) (record : List (Option Message)) : Prop where
  named : b.Named
  coherent : b.CoherentVariables
  counted : ∀ key, b.writesOf key = (sinceClear record).countP (·.key == key)
  mail : ∀ client, ∀ w ∈ b.heldFor client, 0 < b.writesOf w.key

theorem consistent_start (config : Config) (now : Float) : (start config now).Consistent [] where
  named := named_start config now
  coherent := coherentVariables_start config now
  counted key := by
    cases hv : (start config now).store.get? key with
    | none => rw [writesOf, hv]; rfl
    | some v =>
      obtain ⟨value, rfl⟩ := eq_initialVariable hv
      exact writesOf_of_store hv
  mail client w hw := by cases hw

theorem Consistent.apply (h : b.Consistent record) (s : Step) :
    (s.apply b).Consistent (record ++ s.recorded b) where
  named := h.named.apply s
  coherent := h.coherent.apply s
  counted key := by
    obtain ⟨now, rfl⟩ | hs := s.clear_or_noClear
    · rw [writesOf_clear, Step.recorded, sinceClear_concat_none]
      rfl
    · rw [writesOf_apply h.named hs, Step.recorded_of_noClear hs, sinceClear_append_some,
        List.countP_append, h.counted]
  mail client w hw := by
    obtain ⟨now, rfl⟩ | hs := s.clear_or_noClear
    · rw [Step.apply, Step.heldFor_clear] at hw
      cases hw
    · rw [writesOf_apply h.named hs]
      obtain hw | hw := mem_heldFor_apply_owed hw
      · exact Nat.add_pos_left (h.mail client w hw) _
      · obtain hw | hw := written_of_owed h.named hw
        · exact Nat.add_pos_right _ (List.countP_pos_iff.2 ⟨w, hw, beq_self_eq_true _⟩)
        · exact Nat.add_pos_left hw _

theorem Consistent.run (h : b.Consistent record) (steps : List Step) :
    (Step.run steps b).Consistent (record ++ Step.along Step.recorded steps b) := by
  induction steps generalizing b record with
  | nil => rwa [Step.along_nil, List.append_nil]
  | cons s steps ih =>
    rw [Step.along_cons, ← List.append_assoc]
    exact ih (h.apply s)

/-- The record of acts. -/
def recordOf (acts : List (Float × Act)) (b : Broker) : List (Option Message) :=
  Step.along Step.recorded (scriptActs acts b) b

/-- Whatever a broker has done, each of its variables is stored under its own name and counts the
writes of it that have been accepted since the broker was last cleared. Its frequency has been
estimated by no more writes than that, and the last writer is among the writers. Without such a
write there are no writers, and nobody holds mail of the variable.

Each write that counts is one of a variable of the broker. And of the variable that a message is
about to write to, be it a new one, no more writes have been estimated than there are, so that the
difference that the next estimate goes by is never cut off at 0. -/
theorem consistent_performActs (config : Config) (startTime : Float) (acts : List (Float × Act)) :
    let b := performActs acts (start config startTime)
    let past := sinceClear (recordOf acts (start config startTime))
    (∀ key v, b.store.get? key = some v →
      v.name = key ∧ v.writes = past.countP (·.key == key) ∧ v.estimateWrites ≤ v.writes ∧
      (v.writes = 0 → v.writers = ∅ ∧ ∀ client, ∀ w ∈ b.heldFor client, w.key ≠ key) ∧
      (0 < v.writes → v.writers.contains v.writer = true)) ∧
    (∀ w ∈ past, ∃ v, b.store.get? w.key = some v) ∧
    ∀ now m, (b.target now m).estimateWrites ≤ (b.target now m).writes := by
  intro b past
  have h : b.Consistent (recordOf acts (start config startTime)) := by
    rw [show b = _ from (run_scriptActs acts _).symm]
    exact (consistent_start config startTime).run _
  refine ⟨fun key v hv => ?_, fun w hw => ?_, fun now m =>
    (h.coherent.target now m).estimateWrites_le⟩
  · have hwrites := writesOf_of_store hv
    obtain ⟨hestimate, hwriters, hwriter⟩ := h.coherent key v hv
    refine ⟨h.named key v hv, hwrites ▸ h.counted key, hestimate,
      fun hnone => ⟨hwriters hnone, fun client w hw hkey => ?_⟩, fun hpos => hwriter hpos.ne'⟩
    have hheld := h.mail client w hw
    rw [hkey, hwrites, hnone] at hheld
    exact absurd hheld (Nat.lt_irrefl 0)
  · refine exists_of_writesOf_pos ?_
    rw [h.counted]
    exact List.countP_pos_iff.2 ⟨w, hw, beq_self_eq_true _⟩

/-- A write before the clearing does not count, and neither does one of another type. -/
example :
    let acts : List (Float × Act) := [
      (1.0, .process "A" (.double .notify "X" 1.0 1.0)),
      (1.5, .process "A" (.text .serverRequest requestClear "" 1.5)),
      (2.0, .process "A" (.double .notify "X" 2.0 2.0)),
      (2.5, .process "B" (.text .notify "X" "one" 2.5))]
    let b := start (.ofCommunity "#1") 0.0
    (recordOf acts b).map (Option.map (·.value)) = [some 1.0, none, some 2.0] ∧
      (performActs acts b).writesOf "X" = 1 := by
  decide +kernel

end Broker

end PubSub

import PubSub.Proofs.Broker.Run

/-!
# The type of a variable

The first accepted write gives a variable its type. As long as the broker is not cleared the
variable keeps it, and every write of another type is refused
(`Broker.accepted_fixes_dataType`). Clearing leaves the type in place, but the variable then counts
as unwritten, so the next write gives it any type (`Broker.cleared_variable_takes_other_type`).

The invariant of each step is `Broker.Typed`: the variable is written and has the type. A write to
it is accepted only if it has the type as well.
-/

namespace PubSub.Broker

/-- A variable has been written since the broker started or was last cleared, and has this type. -/
def Typed (b : Broker) (key : String) (type : DataType) : Prop :=
  ∃ v, b.store.get? key = some v ∧ v.writes ≠ 0 ∧ v.dataType = type

/-- A step that does not clear the broker. -/
def Step.NoClear : Step → Prop
  | .clear _ => False
  | _ => True

/-- An operation that does not clear the broker. -/
def Op.NoClear : Op → Prop
  | .receive _ ms => ∀ m ∈ ms, m.type = .serverRequest → ¬ Clears m
  | _ => True

instance : (op : Op) → Decidable op.NoClear
  | .receive _ ms =>
    inferInstanceAs (Decidable (∀ m ∈ ms, m.type = .serverRequest → ¬ Clears m))
  | .fetch _ | .connect _ | .disconnect _ | .keepHouse | .keepHouseIfDue =>
    inferInstanceAs (Decidable True)

variable {b : Broker} {key : String} {type : DataType}

/-! ## One step -/

/-- Writes of another type are refused. -/
theorem Typed.notify_eq_error (h : b.Typed key type) {m : Message} (hkey : m.key = key)
    (htype : m.dataType ≠ type) (now : Float) :
    b.notify now m = .error (.typeConflict key type m.dataType) := by
  obtain ⟨v, hv, hw, rfl⟩ := h
  subst hkey
  have htarget : b.target now m = v := target_of_written hv hw
  have hnot : ¬ b.Accepts now m := by
    rw [Accepts, htarget]
    exact Ne.symm htype
  rw [notify_of_not_accepts hnot, htarget]

/-- An accepted write is of the type that its variable has afterwards. -/
theorem typed_write (hn : b.Named) {now : Float} {m : Message} (hm : m.type = .notify)
    (h : b.Accepts now m) : ((Step.write now m hm).apply b).Typed m.key m.dataType := by
  have hname : m.key = ((b.target now m).write m now b.config.community).name := by
    rw [Variable.write_name, hn.target]
  rw [Step.apply_write_of_accepts hm h]
  refine ⟨_, (get?_store_fanOut ..).trans (if_pos hname), ?_, ?_⟩
  · show (Variable.write _ m now _).writes ≠ 0
    simp
  · show (Variable.write _ m now _).dataType = m.dataType
    rw [Variable.write_dataType]
    exact h

theorem Typed.write (h : b.Typed key type) (hn : b.Named) {now : Float} {m : Message}
    (hm : m.type = .notify) : ((Step.write now m hm).apply b).Typed key type := by
  by_cases haccepts : b.Accepts now m
  · by_cases hkey : m.key = key
    · have hsame : m.dataType = type := Classical.byContradiction fun htype => by
        have herror := h.notify_eq_error hkey htype now
        rw [notify_of_accepts haccepts] at herror
        cases herror
      rw [← hkey, ← hsame]
      exact typed_write hn hm haccepts
    · obtain ⟨v, hv, hw, htype⟩ := h
      exact ⟨v, (hn.get?_store_write_of_ne hm (Ne.symm hkey)).trans hv, hw, htype⟩
  · rw [Step.apply_write_of_not_accepts hm haccepts]
    exact h

theorem Typed.apply (h : b.Typed key type) (hn : b.Named) {s : Step} (hs : s.NoClear) :
    (s.apply b).Typed key type := by
  cases s with
  | write now m hm => exact h.write hn hm
  | subscribe c k period now =>
    obtain ⟨v, hv, hw, htype⟩ := h
    by_cases hkey : key = k
    · obtain ⟨u, subscriptions, hu, hget, -⟩ := get?_store_subscribe b c k period now
      have hold : u = v := by rw [hu, ← hkey, hv, Option.getD_some]
      exact ⟨{ u with subscriptions }, by rw [hkey]; exact hget, by rw [hold]; exact hw,
        by rw [hold]; exact htype⟩
    · exact ⟨v, (get?_store_subscribe_of_ne c period now hkey).trans hv, hw, htype⟩
  | withdraw c ends =>
    obtain ⟨v, hv, hw, htype⟩ := h
    refine ⟨_, by rw [Step.get?_store_withdraw, hv, Option.map_some], ?_⟩
    split <;> exact ⟨hw, htype⟩
  | clear now => exact absurd hs not_false
  | collect c =>
    rw [Step.apply, Typed, store_collect]
    exact h
  | keep | drop | forget | note => exact h

theorem Typed.run (h : b.Typed key type) (hn : b.Named) {steps : List Step}
    (hsteps : ∀ s ∈ steps, s.NoClear) : (Step.run steps b).Typed key type := by
  induction steps generalizing b with
  | nil => exact h
  | cons s steps ih =>
    obtain ⟨hs, hsteps⟩ := List.forall_mem_cons.1 hsteps
    exact ih (h.apply hn hs) (hn.apply s) hsteps

/-! ## Runs -/

/-- Only a write is told of as accepted, with the key and the type of its variable. -/
theorem typed_of_mem_accepted (hn : b.Named) {s : Step} {w : Message} (hw : w ∈ s.accepted b) :
    (s.apply b).Typed w.key w.dataType := by
  cases s with
  | write now m hm =>
    rw [Step.accepted] at hw
    split at hw
    · rename_i haccepts
      rw [List.mem_singleton.1 hw, Message.stamped_key, Message.stamped_dataType]
      exact typed_write hn hm haccepts
    · cases hw
  | subscribe | withdraw | keep | drop | clear | collect | forget | note => cases hw

theorem typed_of_mem_along_accepted (hn : b.Named) {steps : List Step}
    (hsteps : ∀ s ∈ steps, s.NoClear) {w : Message} (hw : w ∈ Step.along Step.accepted steps b) :
    (Step.run steps b).Typed w.key w.dataType := by
  induction steps generalizing b with
  | nil => cases hw
  | cons s steps ih =>
    have hrest := (List.forall_mem_cons.1 hsteps).2
    obtain hw | hw := List.mem_append.1 hw
    · exact (typed_of_mem_accepted hn hw).run (hn.apply s) hrest
    · exact ih (hn.apply s) hrest hw

theorem noClear_script {now : Float} {op : Op} (hop : op.NoClear) (b : Broker) :
    ∀ s ∈ op.script now b, s.NoClear := by
  refine Op.forall_mem_script (fun _ _ => trivial) (fun _ _ _ => trivial) (fun _ => trivial) ?_
    (fun _ _ => ⟨trivial, trivial⟩) b
  rintro c ms rfl m hm
  exact Script.forall_mem_message (fun _ => trivial) (fun _ => trivial)
    (fun _ _ _ => ⟨trivial, fun _ => trivial⟩) (fun _ => trivial) (fun _ => trivial) (hop m hm)

/-- In a run without clearing, from any state that a broker reaches, an accepted write has the type
that its variable has from then on, and later writes of another type are refused. -/
theorem accepted_fixes_dataType (config : Config) (startTime : Float)
    (before ops : List (Float × Op)) (hops : ∀ o ∈ ops, o.2.NoClear) (w : Message)
    (hw : w ∈ acceptedWrites ops (performAll before (start config startTime))) :
    let b := performAll ops (performAll before (start config startTime))
    (∃ v, b.store.get? w.key = some v ∧ v.dataType = w.dataType) ∧
      ∀ now m, m.key = w.key → m.dataType ≠ w.dataType →
        b.notify now m = .error (.typeConflict m.key w.dataType m.dataType) := by
  have hn : (performAll before (start config startTime)).Named := by
    rw [← run_scriptAll]
    exact (named_start config startTime).run _
  have hsteps : ∀ s ∈ scriptAll ops (performAll before (start config startTime)), s.NoClear := by
    refine Script.forall_mem_inTurn (fun s hs c => ?_) _
    obtain ⟨o, ho, rfl⟩ := List.mem_map.1 hs
    exact noClear_script (hops o ho) c
  have htyped := typed_of_mem_along_accepted hn hsteps hw
  rw [run_scriptAll] at htyped
  refine ⟨?_, fun now m hkey htype => ?_⟩
  · obtain ⟨v, hv, -, hv'⟩ := htyped
    exact ⟨v, hv, hv'⟩
  · rw [htyped.notify_eq_error hkey htype now, hkey]

/-- A number is written to `X`, and then another client tries a text. -/
def typedRun : List (Float × Op) := [
  (1.0, .receive "A" [.double .notify "X" 1.0 1.0]),
  (2.0, .receive "B" [.text .notify "X" "one" 2.0])]

theorem accepted_fixes_dataType_typedRun :
    let b := start (.ofCommunity "#1") 0.0
    let w := (Message.double .notify "X" 1.0 1.0).stamped "#1"
    (∀ o ∈ typedRun, o.2.NoClear) ∧ w ∈ acceptedWrites typedRun b ∧
      ((∃ v, (performAll typedRun b).store.get? w.key = some v ∧ v.dataType = w.dataType) ∧
        ∀ now m, m.key = w.key → m.dataType ≠ w.dataType →
          (performAll typedRun b).notify now m =
            .error (.typeConflict m.key w.dataType m.dataType)) := by
  have hops : ∀ o ∈ typedRun, o.2.NoClear := by decide +kernel
  have hw : (Message.double .notify "X" 1.0 1.0).stamped "#1" ∈
      acceptedWrites typedRun (performAll [] (start (.ofCommunity "#1") 0.0)) := by decide +kernel
  exact ⟨hops, hw, accepted_fixes_dataType _ 0.0 [] typedRun hops _ hw⟩

/-- A number is written to `X`, the broker is cleared, and a text is written to `X`. -/
def clearedRun : List (Float × Op) := [
  (1.0, .receive "A" [.double .notify "X" 1.0 1.0]),
  (1.5, .receive "A" [.text .serverRequest requestClear "" 1.5]),
  (2.0, .receive "A" [.text .notify "X" "one" 2.0])]

/-- Clearing keeps the type of a variable, but then a write of another type is accepted, and the
variable changes its type. -/
theorem cleared_variable_takes_other_type :
    let b := start (.ofCommunity "#1") 0.0
    let typeAfter (n : Nat) := ((performAll (clearedRun.take n) b).store.get? "X").map (·.dataType)
    (acceptedWrites clearedRun b).map (fun w => (w.key, w.dataType)) =
        [("X", .double), ("X", .string)] ∧
      typeAfter 1 = some .double ∧ typeAfter 2 = some .double ∧ typeAfter 3 = some .string := by
  decide +kernel

end PubSub.Broker

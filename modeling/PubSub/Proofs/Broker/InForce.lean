import PubSub.Proofs.Broker.Acts
import PubSub.Proofs.Broker.Matching

/-!
# The interval in force

The interval of a client's subscription to a variable is that of what has subscribed the client
last: a registration, or one of its filters at a first write of the variable. A write keeps it,
unless it is the first one and covered by a filter of the client (`Broker.period_in_force`).

A first write does not look whether the client subscribes already. So a filter can take the place of
a registration that came after it, when the variable had not been written by then or has been
cleared since (`Broker.older_filter_replaces_registration`).
-/

namespace PubSub.Broker

/-- Let a client be subscribed to a variable. Its interval is that of what has subscribed the client
last. A write of the variable keeps it, unless the variable has not been written and the client has
filters that cover the write; then it is the interval of the last one of these. -/
theorem period_in_force (config : Config) (startTime : Float) (acts : List (Float × Act))
    (now : Float) (client sender : String) (m : Message) (period : Float) {b : Broker}
    (hb : b = performActs acts (start config startTime)) (hm : m.type = .notify)
    (hperiod : b.period? client m.key = some period) :
    (Step.along (Step.changes client m.key) (scriptActs acts (start config startTime))
        (start config startTime)).getLast? = some (some period) ∧
      (b.processed now sender m).period? client m.key =
        if b.Unwritten m.key then
          ((b.covering client m).getLast?.map fun f => Bounds.raised f.period).or (some period)
        else some period := by
  have hstart := named_start config startTime
  have hn : b.Named := hb ▸ hstart.performActs acts
  constructor
  · rw [hb, ← run_scriptActs, period?_run hstart, period?_start] at hperiod
    obtain hlast | ⟨-, hnone⟩ := Option.getD_eq_iff.1 hperiod
    · exact hlast
    · cases hnone
  · rw [processed_of_notify b now sender hm, period?_apply hn, Step.changes, hperiod]
    by_cases hunwritten : b.Unwritten m.key
    · rw [if_pos ⟨rfl, hunwritten⟩, if_pos hunwritten, List.getLast?_map]
      cases (b.covering client m).getLast? <;> rfl
    · rw [if_neg fun h => hunwritten h.2, if_neg hunwritten]
      rfl

/-- A client registers by a filter for one write in five seconds, and then by name for one in each
second. -/
def hastenedRun : List (Float × Act) := [
  (3.0, .process "C" registerSlow),
  (4.0, .process "C" (.double .register "X" 1.0 4.0))]

theorem period_in_force_hastenedRun :
    let fresh := start (.ofCommunity "#1") 0.0
    let m := writeBy "P" "X"
    let acts := (2.0, .process "P" m) :: hastenedRun
    let b := performActs acts fresh
    (m.type = .notify ∧ b.period? "C" m.key = some 1.0) ∧
      (Step.along (Step.changes "C" m.key) (scriptActs acts fresh) fresh).getLast? =
          some (some 1.0) ∧
        (b.processed 5.0 "P" m).period? "C" m.key = some 1.0 := by
  intro fresh m acts b
  have hperiod : b.period? "C" m.key = some 1.0 := by decide +kernel
  have hwritten : ¬ b.Unwritten m.key := by decide +kernel
  have hkept := period_in_force (.ofCommunity "#1") 0.0 acts 5.0 "C" "P" m 1.0 rfl rfl hperiod
  rw [if_neg hwritten] at hkept
  exact ⟨⟨rfl, hperiod⟩, hkept⟩

/-- A request to clear all variables. -/
def clearRequest : Message := .text .serverRequest requestClear "" 4.5

/-- The client's last registration is for one write of `X` in each second, and the next write of `X`
makes this five seconds. -/
def Restores (acts : List (Float × Act)) : Prop :=
  let b := performActs acts (start (.ofCommunity "#1") 0.0)
  b.period? "C" "X" = some 1.0 ∧
    (b.processed 5.0 "P" (writeBy "P" "X")).period? "C" "X" = some 5.0

instance (acts : List (Float × Act)) : Decidable (Restores acts) :=
  inferInstanceAs (Decidable (_ ∧ _))

/-- The first write of a variable brings back the interval of an older filter, and so does the first
one after all variables have been cleared, where the registration had already taken the place of the
filter. -/
theorem older_filter_replaces_registration :
    Restores hastenedRun ∧
      Restores ((2.0, .process "P" (writeBy "P" "X")) :: hastenedRun ++
        [(4.5, .process "Q" clearRequest)]) := by
  decide +kernel

end PubSub.Broker

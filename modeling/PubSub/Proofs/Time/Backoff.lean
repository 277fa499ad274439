import Mathlib.Algebra.Ring.Nat
import Mathlib.Data.List.DropRight
import PubSub.Time.Backoff

/-!
# The delays between attempts

A delay grows in three steps: it is multiplied by sixteen, divided by eight, and cut to the greatest
delay. The division leaves no remainder, and the cut can as well wait until the end
(`Backoff.min_growth`). So after `k` attempts in a row the delay is the least one, doubled `k` times
and cut once (`Backoff.delayAfter`). Only the product can get too long, and it does not if sixteen
times the greatest delay is short enough, as no delay is longer than that one
(`Backoff.next?_grown`).

A success undoes the growth. So of all that has been done, only the attempts in a row at its end
(`Backoff.attempts`) matter to the next delay (`Backoff.delays_of_ops`).
-/

namespace PubSub.Backoff

/-- Something that is done with the delays. -/
inductive Op where
  /-- An attempt has failed, and the next one needs a delay. -/
  | next
  /-- An attempt has succeeded. -/
  | reset
deriving DecidableEq

/-- What an operation tells: `next` a delay, and `reset` nothing. There is no outcome if the delay
is too long to be multiplied. -/
def Op.perform : Op → StateT Backoff Option (Option Duration)
  | next => fun b => b.next?.map fun (delay, b) => (some delay, b)
  | reset => fun b => some (none, b.reset)

/-- Performs operations one after the other. -/
def performAll (ops : List Op) : StateT Backoff Option (List (Option Duration)) :=
  ops.mapM Op.perform

/-- The attempts since the delays started or last dropped back. -/
def attempts (ops : List Op) : Nat := (ops.rtakeWhile (· = .next)).length

theorem attempts_concat_next (ops : List Op) : attempts (ops ++ [.next]) = attempts ops + 1 := by
  rw [attempts, List.rtakeWhile_concat_pos _ _ _ (by simp), List.length_append]
  rfl

theorem attempts_concat_reset (ops : List Op) : attempts (ops ++ [.reset]) = 0 := by
  rw [attempts, List.rtakeWhile_concat_neg _ _ _ (by simp)]
  rfl

/-! ## Operations one after the other -/

section
variable {b c : Backoff}

theorem run_performAll_append {ops : List Op} {delays : List (Option Duration)}
    (hops : (performAll ops).run b = some (delays, c)) (ops' : List Op) :
    (performAll (ops ++ ops')).run b =
      ((performAll ops').run c).map fun (delays', d) => (delays ++ delays', d) := by
  rw [performAll] at hops
  rw [performAll, List.mapM_append, StateT.run_bind, hops, Option.map_eq_bind]
  rfl

theorem run_performAll_cons {op : Op} {told : Option Duration}
    (hop : op.perform.run b = some (told, c)) (ops : List Op) :
    (performAll (op :: ops)).run b =
      ((performAll ops).run c).map fun (delays, d) => (told :: delays, d) := by
  rw [performAll, List.mapM_cons, StateT.run_bind, hop, Option.map_eq_bind]
  rfl

end

/-! ## Attempts in a row -/

section
variable {initial greatest : Duration}

/-- The delay after `k` attempts in a row. -/
def delayAfter (initial greatest : Duration) (k : Nat) : Duration :=
  min ⟨initial.nanos * 2 ^ k⟩ greatest

/-- The delays after `k` attempts in a row. -/
def grown (initial greatest : Duration) (k : Nat) : Backoff :=
  { initial, greatest, delay := delayAfter initial greatest k }

theorem grown_zero (hle : initial ≤ greatest) :
    grown initial greatest 0 = start initial greatest := by
  have hdelay : delayAfter initial greatest 0 = initial := by
    rw [delayAfter, pow_zero, mul_one]
    exact congrArg Duration.mk (Nat.min_eq_left hle)
  rw [grown, hdelay, start]

/-- A cut delay that is doubled and cut again is the doubled delay, cut once. -/
theorem min_growth (n g : Nat) : min (min n g * growth / 8) g = min (n * 2) g := by
  rw [growth]
  omega

/-- A cut delay is short enough to be multiplied if the greatest one is. -/
theorem delayAfter_mul_growth_lt (hlimit : 16 * greatest.nanos < Duration.limit.nanos) (k : Nat) :
    (delayAfter initial greatest k).nanos * growth < Duration.limit.nanos := by
  have hcut : (delayAfter initial greatest k).nanos ≤ greatest.nanos := Nat.min_le_right ..
  rw [growth]
  omega

theorem next?_grown (hlimit : 16 * greatest.nanos < Duration.limit.nanos) (k : Nat) :
    (grown initial greatest k).next? =
      some (delayAfter initial greatest k, grown initial greatest (k + 1)) := by
  have hdelay : min ⟨(delayAfter initial greatest k).nanos * growth / 8⟩ greatest =
      delayAfter initial greatest (k + 1) := by
    rw [delayAfter, delayAfter, pow_succ, ← mul_assoc]
    exact congrArg Duration.mk (min_growth (initial.nanos * 2 ^ k) greatest.nanos)
  rw [next?, grown, if_pos (delayAfter_mul_growth_lt hlimit k), hdelay, grown]

theorem reset_grown (hle : initial ≤ greatest) (k : Nat) :
    (grown initial greatest k).reset = grown initial greatest 0 := by
  rw [grown_zero hle]
  rfl

/-! ## Attempts and successes in any order -/

theorem run_next_grown (hlimit : 16 * greatest.nanos < Duration.limit.nanos) (k : Nat) :
    Op.next.perform.run (grown initial greatest k) =
      some (some (delayAfter initial greatest k), grown initial greatest (k + 1)) := by
  show (grown initial greatest k).next?.map _ = _
  rw [next?_grown hlimit, Option.map_some]

theorem run_reset_grown (hle : initial ≤ greatest) (k : Nat) :
    Op.reset.perform.run (grown initial greatest k) = some (none, grown initial greatest 0) := by
  rw [← reset_grown hle k]
  rfl

/-- One more operation has an outcome, and the delays after it go by the attempts in a row. -/
theorem exists_run_grown (hle : initial ≤ greatest)
    (hlimit : 16 * greatest.nanos < Duration.limit.nanos) (ops : List Op) (op : Op) :
    ∃ told, op.perform.run (grown initial greatest (attempts ops)) =
      some (told, grown initial greatest (attempts (ops ++ [op]))) := by
  cases op with
  | next =>
    rw [attempts_concat_next]
    exact ⟨_, run_next_grown hlimit (attempts ops)⟩
  | reset =>
    rw [attempts_concat_reset]
    exact ⟨_, run_reset_grown hle (attempts ops)⟩

/-- Operations have an outcome, whatever their order. -/
theorem run_performAll (hle : initial ≤ greatest)
    (hlimit : 16 * greatest.nanos < Duration.limit.nanos) (ops : List Op) :
    ∃ delays, delays.length = ops.length ∧ (performAll ops).run (start initial greatest) =
      some (delays, grown initial greatest (attempts ops)) := by
  induction ops using List.reverseRecOn with
  | nil => exact ⟨[], rfl, by rw [← grown_zero hle]; rfl⟩
  | append_singleton ops op ih =>
    obtain ⟨delays, hlength, hrun⟩ := ih
    obtain ⟨told, hop⟩ := exists_run_grown hle hlimit ops op
    refine ⟨delays ++ [told], by simp [hlength], ?_⟩
    rw [run_performAll_append hrun, run_performAll_cons hop]
    rfl

/-- If even sixteen times the greatest delay is short enough to be a duration, attempts and
successes may follow each other in any order. Every attempt gets a delay: the least one, doubled as
often as there have been attempts since the delays started or last dropped back, or the greatest one
if that is shorter. -/
theorem delays_of_ops (hle : initial ≤ greatest)
    (hlimit : 16 * greatest.nanos < Duration.limit.nanos) (ops : List Op) : ∃ delays b,
    (performAll ops).run (start initial greatest) = some (delays, b) ∧
    delays.length = ops.length ∧
    ∀ before after, ops = before ++ .next :: after →
      delays[before.length]? =
        some (some (min ⟨initial.nanos * 2 ^ attempts before⟩ greatest)) := by
  obtain ⟨delays, hlength, hrun⟩ := run_performAll hle hlimit ops
  refine ⟨delays, _, hrun, hlength, ?_⟩
  rintro before after rfl
  obtain ⟨earlier, hearlier, hbefore⟩ := run_performAll hle hlimit before
  rw [run_performAll_append hbefore, run_performAll_cons (run_next_grown hlimit _),
    Option.map_map] at hrun
  obtain ⟨⟨later, b⟩, -, heq⟩ := Option.map_eq_some_iff.1 hrun
  obtain ⟨rfl, -⟩ := Prod.mk.inj heq
  -- Each operation of `before` is told something, so the delay of the attempt comes next.
  rw [← hearlier, List.getElem?_append_right (Nat.le_refl _), Nat.sub_self]
  rfl

/-- The greatest delay is here as long as it may be. The second delay still has every nanosecond of
twice the first one, the third and the fourth are cut, and a success leads back to the first. -/
theorem delays_of_ops_longest :
    let least : Duration := ⟨2 ^ 58 * Duration.nanosPerSecond + 999999999⟩
    let greatest : Duration := ⟨2 ^ 60 * Duration.nanosPerSecond - 1⟩
    least ≤ greatest ∧ 16 * greatest.nanos < Duration.limit.nanos ∧
      ∃ delays b,
        (performAll [.next, .next, .next, .next, .reset, .next]).run (start least greatest) =
          some (delays, b) ∧
        delays[0]? = some (some least) ∧
        delays[1]? = some (some ⟨2 ^ 59 * Duration.nanosPerSecond + 1999999998⟩) ∧
        delays[2]? = some (some greatest) ∧ delays[3]? = some (some greatest) ∧
        delays[5]? = some (some least) := by
  intro least greatest
  have hle : least ≤ greatest := by decide
  have hlimit : 16 * greatest.nanos < Duration.limit.nanos := by decide
  obtain ⟨delays, b, hrun, -, hdelay⟩ := delays_of_ops hle hlimit _
  refine ⟨hle, hlimit, delays, b, hrun, ?_, ?_, ?_, ?_, ?_⟩
  · exact (hdelay [] _ rfl).trans (by decide +kernel)
  · exact (hdelay [.next] _ rfl).trans (by decide +kernel)
  · exact (hdelay [.next, .next] _ rfl).trans (by decide +kernel)
  · exact (hdelay [.next, .next, .next] _ rfl).trans (by decide +kernel)
  · exact (hdelay [.next, .next, .next, .next, .reset] _ rfl).trans (by decide +kernel)

end

end PubSub.Backoff

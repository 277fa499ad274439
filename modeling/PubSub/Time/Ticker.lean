import PubSub.Time.Duration

/-!
# Timers and regular ticks

Timers fire at whole milliseconds of the monotonic clock, so one that is set for a time in between
fires at the next of them. One that is set for a time too far away fires earlier (`longestTimer`).

A `Ticker` ticks at once and then once every period. A tick that is noticed a little late does not
change the others, so that several may be due at once; `Ticker.run` takes them one after the other,
though only so many at a time. A tick that is noticed very late delays the ones behind it: the next
one comes a whole period later.
-/

namespace PubSub

/-! ## Timers -/

/-- The whole milliseconds of a duration. -/
def Duration.millis (d : Duration) : Nat := d.nanos / nanosPerMilli

/-- The first millisecond that is not before the end of a duration. -/
def Duration.millisAbove (d : Duration) : Nat := (d.nanos + (nanosPerMilli - 1)) / nanosPerMilli

/-- No timer runs longer than this: thirty years of 365 days. -/
def longestTimer : Duration := .ofSeconds (30 * 365 * 86400)

/-- The deadline of a timer that is set at `now` for `d` from now. -/
def Duration.deadline (now d : Duration) : Duration := now + min d longestTimer

/-- Whether a timer with this deadline has fired at `now`. -/
def Duration.firesBy (deadline now : Duration) : Bool := deadline.millisAbove ≤ now.millis

/-- How long someone sleeps who sets a timer at `now` for `d` from now: whole milliseconds. -/
def Duration.slept (d now : Duration) : Duration :=
  .ofMillis ((now + d).millisAbove - now.millis)

/-- A timer fires at its deadline or later. -/
theorem Duration.le_of_firesBy {deadline now : Duration} (h : deadline.firesBy now = true) :
    deadline ≤ now := by
  have h := of_decide_eq_true h
  have e : nanosPerMilli = 1000000 := rfl
  simp only [millisAbove, millis, e] at h
  show deadline.nanos ≤ now.nanos
  omega

/-! ## Ticks -/

/-- Regular ticks. -/
structure Ticker where
  period : Duration
  /-- The time of the next tick. -/
  due : Duration
  period_pos : 0 < period.nanos
deriving DecidableEq

namespace Ticker

/-- How late a tick may be noticed without delaying the ones behind it. -/
def tolerance : Duration := .ofMillis 5

/-- Ticks from now on; without a period there are none. -/
def start? (period now : Duration) : Option Ticker :=
  if h : 0 < period.nanos then some { period, due := now, period_pos := h } else none

/-- The ticker after a tick at `now`. -/
def tick (t : Ticker) (now : Duration) : Ticker :=
  let last := if t.due + tolerance < now then now else t.due
  { t with due := min (last + t.period) (now + longestTimer) }

/-- A tick that is due puts the next one off. -/
theorem due_lt_due_tick (t : Ticker) {now : Duration} (h : t.due ≤ now) :
    t.due < (t.tick now).due := by
  have hp := t.period_pos
  have h : t.due.nanos ≤ now.nanos := h
  have hl : 0 < longestTimer.nanos := by decide
  show t.due.nanos < min
    ((if t.due + tolerance < now then now else t.due).nanos + t.period.nanos)
    (now.nanos + longestTimer.nanos)
  split <;> omega

/-- No more ticks than these are taken at a time. -/
def greatestBurst : Nat := 6400

/-- Does `f` at each tick that is due at `now`, up to a number of ticks, and gives the ticker behind
them. -/
def runUpTo {σ : Type} (f : σ → σ) (now : Duration) : Nat → Ticker → σ → σ × Ticker
  | 0, t, s => (s, t)
  | n + 1, t, s =>
    if t.due.firesBy now then runUpTo f now n (t.tick now) (f s) else (s, t)

/-- The ticks that are taken only put the next one off. -/
theorem due_le_due_runUpTo {σ : Type} (f : σ → σ) (now : Duration) (n : Nat) (t : Ticker) (s : σ) :
    t.due ≤ (runUpTo f now n t s).2.due := by
  induction n generalizing t s with
  | zero => exact Nat.le_refl _
  | succ n ih =>
    rw [runUpTo]
    split
    · rename_i hfires
      have hlater : t.due < (t.tick now).due := t.due_lt_due_tick (Duration.le_of_firesBy hfires)
      exact Nat.le_trans (Nat.le_of_lt hlater) (ih ..)
    · exact Nat.le_refl _

/-- Does `f` at each tick that is due at `now`. -/
def run {σ : Type} (f : σ → σ) (now : Duration) (t : Ticker) (s : σ) : σ × Ticker :=
  runUpTo f now greatestBurst t s

end Ticker

end PubSub

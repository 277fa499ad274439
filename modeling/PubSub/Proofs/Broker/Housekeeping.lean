import PubSub.Broker.Live
import PubSub.Proofs.Broker.Run

/-!
# How often the broker keeps house

The broker looks at every packet and at every tick whether its house is to be kept, which it is if
more than the summary interval has passed. When it has last kept house depends on nothing but the
times at which it has looked (`Broker.summaryTime_performAll`).

A tick that comes exactly one interval after the house has been kept comes too early, and the house
is only kept at the next one. So in exact arithmetic less than two intervals pass between one time
and the next (`Broker.summary_gap`), and nearly two do pass if no packets come: the broker then keeps
house at every second tick (`lastSummary_ticks`, `LiveBroker.idle_broker_skips_tick`).
-/

namespace PubSub

/-- When the house has last been kept, after looks at the given times. -/
def lastSummary {α : Type} [Scalar α] (interval last : α) (looks : List α) : α :=
  looks.foldl (fun last now => if summaryIsDue now last interval then now else last) last

namespace Broker

/-! ## The looks of a run -/

/-- What decides when the house is to be kept. -/
def schedule (b : Broker) : Config × Float := (b.config, b.summaryTime)

theorem kept_schedule : Kept schedule := fun s hs b =>
  congrArg (fun rest => (rest.1, rest.2.2)) (kept_rest s hs b)

theorem schedule_recordLatency (b : Broker) (now : Float) (client : String) (ms : List Message) :
    (b.recordLatency now client ms).schedule = b.schedule := by
  rw [recordLatency]
  split <;> rfl

/-- The schedule after a look at it. -/
def Schedule.look (now : Float) : Config × Float → Config × Float := fun (config, last) =>
  (config, if summaryIsDue now last config.summaryInterval.toSeconds then now else last)

theorem schedule_keepHouseIfDue (b : Broker) (now : Float) :
    (b.keepHouseIfDue now).schedule = Schedule.look now b.schedule := by
  rw [keepHouseIfDue, houseIsDue]
  show _ = (b.config, if summaryIsDue now b.summaryTime b.config.summaryInterval.toSeconds then now
    else b.summaryTime)
  split
  · exact kept_schedule.keepHouse { b with summaryTime := now } now
  · rfl

theorem schedule_receive (b : Broker) (now : Float) (client : String) (ms : List Message) :
    (b.receive now client ms).2.schedule = Schedule.look now b.schedule := by
  have hsettled : (b.settled now client ms).schedule = Schedule.look now b.schedule := by
    rw [settled, schedule_keepHouseIfDue, kept_schedule.processAll,
      schedule_recordLatency]
  rw [receive_eq]
  split
  · exact hsettled
  · exact (kept_schedule.collect ..).trans hsettled

/-- The times at which the broker looks whether its house is to be kept: those of the packets and
those at which it is told to look. -/
def lookTimes (ops : List (Float × Op)) : List Float :=
  ops.filterMap fun (now, op) =>
    match op with
    | .receive _ _ | .keepHouseIfDue => some now
    | .fetch _ | .connect _ | .disconnect _ | .keepHouse => none

theorem foldl_look (config : Config) (last : Float) (looks : List Float) :
    looks.foldl (fun s now => Schedule.look now s) (config, last) =
      (config, lastSummary config.summaryInterval.toSeconds last looks) := by
  induction looks generalizing last with
  | nil => rfl
  | cons now looks ih => exact ih _

theorem schedule_performAll (ops : List (Float × Op)) (b : Broker) :
    (performAll ops b).schedule =
      (b.config, lastSummary b.config.summaryInterval.toSeconds b.summaryTime (lookTimes ops)) := by
  rw [← foldl_look]
  show _ = (lookTimes ops).foldl (fun s now => Schedule.look now s) b.schedule
  induction ops generalizing b with
  | nil => rfl
  | cons o ops ih =>
    obtain ⟨now, op⟩ := o
    refine (ih (op.perform now b)).trans ?_
    cases op with
    | receive client ms =>
      rw [Op.perform, schedule_receive]
      rfl
    | fetch client =>
      rw [Op.perform, kept_schedule.collect]
      rfl
    | connect client =>
      rw [Op.perform, connect, kept_schedule.publishText]
      rfl
    | disconnect client =>
      rw [Op.perform, disconnect, kept_schedule.publishText]
      rfl
    | keepHouse =>
      rw [Op.perform, kept_schedule.keepHouse]
      rfl
    | keepHouseIfDue =>
      rw [Op.perform, schedule_keepHouseIfDue]
      rfl

theorem config_performAll (ops : List (Float × Op)) (b : Broker) :
    (performAll ops b).config = b.config :=
  congrArg Prod.fst (schedule_performAll ops b)

theorem summaryTime_performAll (ops : List (Float × Op)) (b : Broker) :
    (performAll ops b).summaryTime =
      lastSummary b.config.summaryInterval.toSeconds b.summaryTime (lookTimes ops) :=
  congrArg Prod.snd (schedule_performAll ops b)

end Broker

/-! ## The gap in exact arithmetic -/

section

variable {interval start last first now : Rat} {looks : List Rat}

theorem summaryIsDue_iff : summaryIsDue now last interval = true ↔ interval < now - last := by
  rw [summaryIsDue, Bool.not_eq_true', decide_eq_false_iff_not]
  exact not_le

theorem lastSummary_cons (look : Rat) :
    lastSummary interval last (look :: looks) =
      lastSummary interval (if interval < look - last then look else last) looks := by
  rw [lastSummary, List.foldl_cons, lastSummary]
  simp only [summaryIsDue_iff]

theorem lastSummary_concat (look : Rat) :
    lastSummary interval last (looks ++ [look]) =
      if interval < look - lastSummary interval last looks then look
      else lastSummary interval last looks := by
  rw [lastSummary, List.foldl_append, lastSummary]
  simp only [List.foldl_cons, List.foldl_nil, summaryIsDue_iff]

/-- Later looks keep the house later. At every look, the house has been kept by now or had been kept
within the interval. -/
theorem sub_lastSummary_le (hinterval : 0 ≤ interval)
    (h : (last :: looks).Pairwise (· ≤ ·)) :
    last ≤ lastSummary interval last looks ∧
      ∀ look ∈ looks, look - lastSummary interval last looks ≤ interval := by
  induction looks generalizing last with
  | nil => exact ⟨le_refl last, List.forall_mem_nil _⟩
  | cons look looks ih =>
    obtain ⟨hlast, hrest⟩ := List.pairwise_cons.1 h
    obtain ⟨hlook, hsorted⟩ := List.pairwise_cons.1 hrest
    rw [lastSummary_cons]
    by_cases hdue : interval < look - last
    · rw [if_pos hdue]
      obtain ⟨hle, hall⟩ := ih hrest
      refine ⟨(hlast look List.mem_cons_self).trans hle, List.forall_mem_cons.2 ⟨?_, hall⟩⟩
      linarith
    · rw [if_neg hdue]
      obtain ⟨hle, hall⟩ := ih (List.pairwise_cons.2
        ⟨fun x hx => hlast x (List.mem_cons_of_mem _ hx), hsorted⟩)
      refine ⟨hle, List.forall_mem_cons.2 ⟨?_, hall⟩⟩
      linarith

/-- The looks of a broker that has started at `start`, until `now`: at the regular ticks, the first
of which has been at `first`, and at any other times. -/
structure RegularLooks (interval start first now : Rat) (looks : List Rat) : Prop where
  sorted : looks.Pairwise (· ≤ ·)
  since : ∀ look ∈ looks, start ≤ look
  begun : first ≤ now
  ticks : ∀ k : Nat, first + k * interval ≤ now → first + k * interval ∈ looks

/-- The first tick that comes more than one interval after some time comes no more than two intervals
after it, unless it is the first of all. -/
theorem exists_tick (hinterval : 0 < interval) (first time : Rat) :
    ∃ k : Nat, time + interval < first + k * interval ∧
      (k ≠ 0 → first + k * interval ≤ time + 2 * interval) := by
  have hlate : ∃ k : Nat, time + interval < first + k * interval := by
    obtain ⟨k, hk⟩ := exists_nat_gt ((time + interval - first) / interval)
    rw [div_lt_iff₀ hinterval] at hk
    exact ⟨k, by linarith⟩
  refine ⟨Nat.find hlate, Nat.find_spec hlate, fun hk => ?_⟩
  obtain ⟨k, hsucc⟩ := Nat.exists_eq_succ_of_ne_zero hk
  have hearly : ¬ time + interval < first + k * interval :=
    Nat.find_min hlate (by rw [hsucc]; exact Nat.lt_succ_self k)
  rw [hsucc, Nat.cast_succ]
  linarith

/-- The next tick that finds the house to be kept comes less than two intervals after it has last
been kept. -/
theorem RegularLooks.gap (h : RegularLooks interval start first now looks)
    (hinterval : 0 < interval) :
    now - lastSummary interval start looks < 2 * interval := by
  obtain ⟨-, hkept⟩ :=
    sub_lastSummary_le hinterval.le (List.pairwise_cons.2 ⟨h.since, h.sorted⟩)
  obtain ⟨k, hlate, hsoon⟩ := exists_tick hinterval first (lastSummary interval start looks)
  have hafter : now < first + k * interval := by
    by_contra hpast
    have htick := hkept _ (h.ticks k (not_lt.1 hpast))
    linarith
  obtain rfl | hk := eq_or_ne k 0
  · have hbegun := h.begun
    rw [Nat.cast_zero, zero_mul, add_zero] at hafter
    exact absurd hafter (not_lt.2 hbegun)
  · linarith [hsoon hk]

/-- Without packets, every second tick keeps the house. -/
theorem lastSummary_ticks (hinterval : 0 < interval) (start : Rat) (n : Nat) :
    lastSummary interval start ((List.range (n + 1)).map fun k : Nat => start + k * interval) =
      start + (2 * (n / 2) : Nat) * interval := by
  induction n with
  | zero =>
    rw [List.range_one, List.map_singleton, lastSummary_cons]
    simp [lastSummary]
  | succ n ih =>
    rw [List.range_succ, List.map_append, List.map_singleton, lastSummary_concat, ih]
    obtain ⟨m, rfl | rfl⟩ := n.even_or_odd'
    · have hhalf : 2 * m / 2 = m ∧ (2 * m + 1) / 2 = m := by omega
      rw [hhalf.1, hhalf.2, if_neg]
      push_cast
      linarith
    · have hhalf : (2 * m + 1) / 2 = m ∧ (2 * m + 1 + 1) / 2 = m + 1 := by omega
      rw [hhalf.1, hhalf.2, if_pos]
      · push_cast
        ring
      · push_cast
        linarith

end

/-! ## Times that are read exactly -/

/-- The number that a float stands for, if it is finite. -/
def Binary64.toRat : Binary64 → Rat
  | .finite negative mantissa exponent =>
    let magnitude :=
      mkRat (mantissa * Nat.pow 2 exponent.toNat : Nat) (Nat.pow 2 (-exponent).toNat)
    if negative then -magnitude else magnitude
  | .nan | .infinite _ => 0

/-- The exact value of a time. -/
def exactTime (t : Float) : Rat := (Binary64.ofFloat t).toRat

/-- The exact seconds of a duration. -/
def Duration.exactSeconds (d : Duration) : Rat := mkRat d.nanos nanosPerSecond

/-- Between any two of the times it is decided as in exact arithmetic whether more than an interval
has passed. -/
def ReadExactly (interval : Duration) (times : List Float) : Prop :=
  ∀ now ∈ times, ∀ last ∈ times,
    summaryIsDue now last interval.toSeconds =
      summaryIsDue (exactTime now) (exactTime last) interval.exactSeconds

instance (interval : Duration) (times : List Float) : Decidable (ReadExactly interval times) :=
  inferInstanceAs (Decidable (∀ now ∈ times, ∀ last ∈ times, _ = _))

/-- What is read exactly is known exactly. -/
theorem exactTime_lastSummary {interval : Duration} {last : Float} {looks : List Float}
    (h : ReadExactly interval (last :: looks)) :
    exactTime (lastSummary interval.toSeconds last looks) =
      lastSummary interval.exactSeconds (exactTime last) (looks.map exactTime) := by
  induction looks generalizing last with
  | nil => rfl
  | cons look looks ih =>
    have hlook := h look (by simp) last (by simp)
    rw [lastSummary, List.foldl_cons, List.map_cons, lastSummary, List.foldl_cons, ← hlook]
    by_cases hdue : summaryIsDue look last interval.toSeconds = true
    · rw [if_pos hdue, if_pos hdue]
      exact ih fun x hx y hy => h x (List.mem_cons_of_mem _ hx) y (List.mem_cons_of_mem _ hy)
    · rw [if_neg hdue, if_neg hdue]
      have hsub : last :: looks ⊆ last :: look :: looks :=
        List.cons_subset_cons _ (List.subset_cons_self ..)
      exact ih fun x hx y hy => h x (hsub hx) y (hsub hy)

namespace Broker

/-- How long the broker goes without keeping its house: with looks at regular ticks, and at any
other times, less than two intervals in exact arithmetic, and in every run of the broker with these
looks that reads its clock exactly. -/
theorem summary_gap (interval start first now : Rat) (looks : List Rat) (hinterval : 0 < interval)
    (hlooks : RegularLooks interval start first now looks) :
    now - lastSummary interval start looks < 2 * interval ∧
      ∀ (ops : List (Float × Op)) (b : Broker),
        ReadExactly b.config.summaryInterval (b.summaryTime :: lookTimes ops) →
        b.config.summaryInterval.exactSeconds = interval → exactTime b.summaryTime = start →
        (lookTimes ops).map exactTime = looks →
          now - exactTime (performAll ops b).summaryTime < 2 * interval := by
  refine ⟨hlooks.gap hinterval, fun ops b hexact hseconds hstart htimes => ?_⟩
  rw [summaryTime_performAll, exactTime_lastSummary hexact, hseconds, hstart, htimes]
  exact hlooks.gap hinterval

/-- Ticks every two seconds and empty packets in between. -/
def tickedOps : List (Float × Op) := [
  (1000.0, .keepHouseIfDue), (1001.0, .receive "A" []),
  (1002.0, .keepHouseIfDue), (1003.0, .receive "A" [])]

theorem summary_gap_tickedOps :
    2007 / 2 - exactTime (performAll tickedOps (.start (.ofCommunity "#1") 1000.0)).summaryTime <
      2 * 2 := by
  have hlooks : RegularLooks 2 1000 1000 (2007 / 2) [1000, 1001, 1002, 1003] := by
    refine ⟨by decide +kernel, by decide +kernel, by norm_num, fun k hk => ?_⟩
    have hk : k < 2 := by
      have h : (k : Rat) < 2 := by linarith
      exact_mod_cast h
    interval_cases k <;> norm_num
  exact (summary_gap 2 1000 1000 (2007 / 2) _ (by norm_num) hlooks).2 tickedOps
    (.start (.ofCommunity "#1") 1000.0) (by decide +kernel) (by decide +kernel) (by decide +kernel)
    (by decide +kernel)

end Broker

namespace LiveBroker

/-- A broker that gets no packets, with an interval of two seconds. -/
def idle : LiveBroker :=
  (LiveBroker.start (.ofCommunity "#1") { start := 1000.0 }).startTicks

/-- The broker looks after two seconds, but keeps its house only after four. -/
theorem idle_broker_skips_tick :
    let later := (idle.advance (.ofSeconds 2)).advance (.ofSeconds 1)
    let last := later.advance (.ofSeconds 1)
    later.broker.config.summaryInterval < later.clock.elapsed ∧
      later.broker.summaryTime = later.clock.start ∧
      (later.broker.store.get? Broker.uptimeKey).map (·.writes) = some 0 ∧
      (last.broker.store.get? Broker.uptimeKey).map (fun v => (v.writes, v.value)) =
        some (1, 4.0) := by
  decide +kernel

end LiveBroker

end PubSub

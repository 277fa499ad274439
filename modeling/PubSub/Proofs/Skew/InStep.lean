import PubSub.Proofs.Double.Order
import PubSub.Proofs.Skew.Estimator

/-!
# Two envelopes in step

Whether an envelope takes in a point depends on the `x` of the point and of the one before, and so
does the number of its measurements (`Envelope.pace_getD_add?`); the heights have no part in it. The
two envelopes of an estimation get points at the same `x`. So in any arithmetic and for any times
they are trusted and start anew at the same round trips (`Estimator.inStep_after`), and the estimate
never has to do with the upper one alone (`Estimator.envelopes_in_step`).
-/

namespace PubSub.Skew

section Paces

variable {α : Type} [Scalar α]

/-- What the further course of an envelope depends on, but for the heights of its points. -/
structure Pace (α : Type) where
  /-- The `x` of the newest point. -/
  newest : Option α
  measurements : Nat

/-- The pace after one more point. One at the same `x` as the newest makes the envelope start
anew. -/
def Pace.next (p : Pace α) (x : α) : Pace α :=
  match p.newest with
  | none => { p with newest := some x }
  | some newest =>
    if Scalar.same newest x then { newest := none, measurements := 0 }
    else { newest := some x, measurements := p.measurements + 1 }

/-- The newest point is the one that has just been given, if there is one. -/
theorem Pace.eq_of_newest_next {p : Pace α} {x y : α} (h : (p.next x).newest = some y) : y = x := by
  rw [Pace.next] at h
  split at h
  · exact (Option.some.inj h).symm
  · split at h
    · cases h
    · exact (Option.some.inj h).symm

namespace Envelope

variable (e : Envelope α) (p : Point α) (limit : α)

/-- The pace of an envelope. -/
def pace : Pace α := { newest := e.anchor.map Point.x, measurements := e.measurements }

theorem between?_eq_none_iff {p q : Point α} :
    Segment.between? p q = none ↔ Scalar.same p.x q.x = true := by
  rw [Segment.between?]
  split
  case isTrue h => simp [h]
  case isFalse h => simp [h]

/-- A point is refused if the newest one has the same `x`. -/
theorem add?_eq_none_iff :
    e.add? p limit = none ↔ ∃ x, e.pace.newest = some x ∧ Scalar.same x p.x = true := by
  cases hanchor : e.anchor with
  | none => simp [add?, pace, hanchor]
  | some anchor => simp [add?, pace, hanchor, between?_eq_none_iff]

theorem anchor_of_add? {e e' : Envelope α} {p : Point α} {limit : α}
    (h : e.add? p limit = some e') : e'.anchor = some p := by
  rw [add?] at h
  split at h
  · obtain rfl := Option.some.inj h
    rfl
  · obtain ⟨newest, -, rfl⟩ := Option.map_eq_some_iff.1 h
    rfl

/-- The pace after one more point; an envelope that refuses the point starts anew. -/
theorem pace_getD_add? (side : Side) :
    ((e.add? p limit).getD { side }).pace = e.pace.next p.x := by
  cases hanchor : e.anchor with
  | none => simp [add?, pace, Pace.next, hanchor]
  | some anchor =>
    cases hsegment : Segment.between? anchor p with
    | none =>
      have hsame := between?_eq_none_iff.1 hsegment
      simp [add?, pace, Pace.next, hanchor, hsegment, hsame]
    | some s =>
      have hother : ¬ Scalar.same anchor.x p.x = true := fun hsame => by
        rw [between?_eq_none_iff.2 hsame] at hsegment
        cases hsegment
      simp [add?, pace, Pace.next, hanchor, hsegment, hother]

/-- An envelope starts anew if it refuses a point. -/
theorem getD_add?_eq_start_iff (side : Side) :
    (e.add? p limit).getD { side } = { side } ↔
      ∃ x, e.pace.newest = some x ∧ Scalar.same x p.x = true := by
  rw [← add?_eq_none_iff e p limit]
  cases hadd : e.add? p limit with
  | none => simp
  | some e' =>
    have hanchor := anchor_of_add? hadd
    refine ⟨?_, by simp⟩
    rw [Option.getD_some]
    rintro rfl
    cases hanchor

/-- Only an envelope that starts anew has no newest point afterwards. -/
theorem getD_add?_eq_start {side : Side}
    (h : ((e.add? p limit).getD { side }).pace.newest = none) :
    (e.add? p limit).getD { side } = { side } := by
  cases hadd : e.add? p limit with
  | none => rfl
  | some e' =>
    rw [hadd, Option.getD_some, pace, anchor_of_add? hadd] at h
    cases h

end Envelope

end Paces

/-- The times of a round trip are all numbers. -/
def RoundTrip.IsFinite (r : RoundTrip Float) : Prop :=
  r.request.isFinite = true ∧ r.remote.isFinite = true ∧ r.reply.isFinite = true

instance (r : RoundTrip Float) : Decidable r.IsFinite := inferInstanceAs (Decidable (_ ∧ _))

namespace Estimator

section Runs

variable {α : Type} [Scalar α] {f : Estimator α} {trips : List (RoundTrip α)}

/-- The remote time of a round trip, reckoned from that of the first one. -/
def reckoned (f : Estimator α) (r : RoundTrip α) : α :=
  r.remote - (f.origin.map Prod.fst).getD r.remote

/-- What one round trip does to the envelopes: both get a point at its remote time. -/
theorem take_points (f : Estimator α) (r : RoundTrip α) :
    ∃ low high limit,
      (f.take r).2.lower = (f.lower.add? ⟨f.reckoned r, low⟩ limit).getD { side := .above } ∧
      (f.take r).2.upper = (f.upper.add? ⟨f.reckoned r, high⟩ limit).getD { side := .below } := by
  have hreckoned : f.reckoned r = r.remote - (f.origin.getD (r.remote, r.remote - r.reply)).1 := by
    rw [reckoned]
    cases f.origin <;> rfl
  rw [hreckoned]
  exact ⟨_, _, _, rfl, rfl⟩

/-- An estimation after these round trips: the envelopes go at one pace, and one that has no newest
point is as at the start. -/
structure InStep (f : Estimator α) (trips : List (RoundTrip α)) : Prop where
  pace : f.lower.pace = f.upper.pace
  lower : f.lower.pace.newest = none → f.lower = { side := .above }
  upper : f.upper.pace.newest = none → f.upper = { side := .below }
  origin : f.origin.map Prod.fst = trips.head?.map RoundTrip.remote
  newest : ∀ x, f.lower.pace.newest = some x → ∃ first q,
    trips.head? = some first ∧ trips.getLast? = some q ∧ x = q.remote - first.remote

theorem inStep_start : (start : Estimator α).InStep [] where
  pace := rfl
  lower _ := rfl
  upper _ := rfl
  origin := rfl
  newest x hx := by cases hx

/-- Times are reckoned from that of the first round trip. -/
theorem InStep.exists_first (h : f.InStep trips) (r : RoundTrip α) :
    ∃ first, (trips ++ [r]).head? = some first ∧ f.reckoned r = r.remote - first.remote ∧
      (f.take r).2.origin.map Prod.fst = some first.remote := by
  have horigin : (f.take r).2.origin.map Prod.fst =
      some ((f.origin.map Prod.fst).getD r.remote) := by
    show some (f.origin.getD (r.remote, r.remote - r.reply)).1 = _
    cases f.origin <;> rfl
  rw [horigin, reckoned, h.origin]
  cases trips with
  | nil => exact ⟨r, rfl, rfl, rfl⟩
  | cons first trips => exact ⟨first, rfl, rfl, rfl⟩

theorem InStep.reckoned_eq (h : f.InStep trips) (r : RoundTrip α) {first : RoundTrip α}
    (hfirst : trips.head? = some first) : f.reckoned r = r.remote - first.remote := by
  rw [reckoned, h.origin, hfirst, Option.map_some, Option.getD_some]

theorem InStep.take (h : f.InStep trips) (r : RoundTrip α) :
    (f.take r).2.InStep (trips ++ [r]) := by
  obtain ⟨low, high, limit, hlower, hupper⟩ := f.take_points r
  obtain ⟨first, hfirst, hreckoned, horigin⟩ := h.exists_first r
  refine ⟨?_, ?_, ?_, ?_, fun x hx => ?_⟩
  · rw [hlower, hupper, Envelope.pace_getD_add?, Envelope.pace_getD_add?, h.pace]
  · rw [hlower]
    exact Envelope.getD_add?_eq_start _ _ _
  · rw [hupper]
    exact Envelope.getD_add?_eq_start _ _ _
  · rw [horigin, hfirst, Option.map_some]
  · rw [hlower, Envelope.pace_getD_add?] at hx
    exact ⟨first, r, hfirst, List.getLast?_concat, hreckoned ▸ Pace.eq_of_newest_next hx⟩

/-- After all round trips, whatever their times are, the envelopes are in step. -/
theorem inStep_after (trips : List (RoundTrip α)) :
    ((start : Estimator α).after trips).InStep trips := by
  induction trips using List.reverseRecOn with
  | nil => exact inStep_start
  | append_singleton trips r ih =>
    rw [after_concat]
    exact ih.take r

/-! ## The estimate -/

/-- The estimate from the latest bounds and two envelopes that are trusted at the same time, and its
slope. -/
def combineBoth (measurements : Nat) (lower upper : Envelope α) (lowerBound upperBound x : α) :
    α × α :=
  let two : α := Scalar.constant 2 0
  if lower.isStable then
    if lower.valueAt x ≤ upper.valueAt x then
      ((lower.valueAt x + upper.valueAt x) / two, (lower.line.slope + upper.line.slope) / two)
    else (lower.valueAt x, lower.line.slope)
  else if measurements < lowerBoundOnly then (lowerBound, Scalar.zero)
  else ((lowerBound + upperBound) / two, Scalar.zero)

theorem combine_eq_combineBoth {lower upper : Envelope α} (h : lower.isStable = upper.isStable)
    (n : Nat) (lowerBound upperBound x : α) :
    combine n lower upper lowerBound upperBound x =
      combineBoth n lower upper lowerBound upperBound x := by
  rw [combine, combineBoth, ← h]
  cases lower.isStable <;> simp

theorem InStep.isStable (h : f.InStep trips) : f.lower.isStable = f.upper.isStable :=
  congrArg (fun p : Pace α => decide (Envelope.trustedAfter < p.measurements)) h.pace

/-- The envelopes start anew at the same round trips: if the one before did not make them do so, and
its remote time is the same, both reckoned from the first. -/
theorem InStep.restarts_iff (h : f.InStep trips) (r : RoundTrip α) :
    ((f.take r).2.lower = { side := .above } ↔ (f.take r).2.upper = { side := .below }) ∧
    ((f.take r).2.lower = { side := .above } ↔ f.lower ≠ { side := .above } ∧
      ∃ first q, trips.head? = some first ∧ trips.getLast? = some q ∧
        Scalar.same (q.remote - first.remote) (r.remote - first.remote) = true) := by
  obtain ⟨low, high, limit, hlower, hupper⟩ := f.take_points r
  have hrefused : (f.take r).2.lower = { side := .above } ↔
      ∃ x, f.lower.pace.newest = some x ∧ Scalar.same x (f.reckoned r) = true := by
    rw [hlower]
    exact Envelope.getD_add?_eq_start_iff ..
  have hrefused' : (f.take r).2.upper = { side := .below } ↔
      ∃ x, f.upper.pace.newest = some x ∧ Scalar.same x (f.reckoned r) = true := by
    rw [hupper]
    exact Envelope.getD_add?_eq_start_iff ..
  refine ⟨by rw [hrefused, hrefused', h.pace], hrefused.trans ⟨?_, ?_⟩⟩
  · rintro ⟨x, hx, hsame⟩
    obtain ⟨first, q, hfirst, hq, rfl⟩ := h.newest x hx
    refine ⟨fun hstart => ?_, first, q, hfirst, hq, h.reckoned_eq r hfirst ▸ hsame⟩
    rw [hstart] at hx
    cases hx
  · rintro ⟨hne, first, q, hfirst, hq, hsame⟩
    obtain ⟨x, hx⟩ := Option.ne_none_iff_exists'.1 (mt h.lower hne)
    obtain ⟨first', q', hfirst', hq', rfl⟩ := h.newest x hx
    obtain rfl := Option.some.inj (hfirst'.symm.trans hfirst)
    obtain rfl := Option.some.inj (hq'.symm.trans hq)
    exact ⟨_, hx, h.reckoned_eq r hfirst ▸ hsame⟩

end Runs

/-! ## Doubles -/

/-- In doubles, for round trips at any finite times: after each of them both envelopes have the same
number of measurements and a newest point at the same `x`, if any, so they are both trusted or both
not. Both start anew or neither does: they do so if the round trip before did not make them do so
and had the same remote time, as reckoned from the first one. The estimate is never the one of the
upper envelope alone. -/
theorem envelopes_in_step (trips : List (RoundTrip Float)) (r : RoundTrip Float)
    (hfinite : ∀ q ∈ trips ++ [r], q.IsFinite) :
    let before := (start : Estimator Float).after trips
    let f := (before.take r).2
    (f.lower.measurements = f.upper.measurements ∧
      f.lower.anchor.map Point.x = f.upper.anchor.map Point.x ∧
      f.lower.isStable = f.upper.isStable) ∧
    ((f.lower = { side := .above } ↔ f.upper = { side := .below }) ∧
      (f.lower = { side := .above } ↔ before.lower ≠ { side := .above } ∧
        ∃ first q, trips.head? = some first ∧ trips.getLast? = some q ∧
          (q.remote - first.remote == r.remote - first.remote) = true) ∧
      ∀ q, trips.getLast? = some q → q.remote = r.remote → before.lower ≠ { side := .above } →
        f.lower = { side := .above }) ∧
    ¬ (f.lower.isStable = false ∧ f.upper.isStable = true) ∧
    ∀ n lowerBound upperBound x, combine n f.lower f.upper lowerBound upperBound x =
      combineBoth n f.lower f.upper lowerBound upperBound x := by
  intro before f
  have hbefore : before.InStep trips := inStep_after trips
  have hf : f.InStep (trips ++ [r]) := hbefore.take r
  obtain ⟨hboth, hrestarts⟩ := hbefore.restarts_iff r
  refine ⟨⟨congrArg Pace.measurements hf.pace, congrArg Pace.newest hf.pace, hf.isStable⟩,
    ⟨hboth, hrestarts, fun q hq hremote hne => hrestarts.2 ⟨hne, ?_⟩⟩,
    fun ⟨hlower, hupper⟩ => ?_, combine_eq_combineBoth hf.isStable⟩
  · obtain ⟨first, hfirst⟩ : ∃ first, trips.head? = some first :=
      Option.isSome_iff_exists.1 (List.isSome_head?.2 fun hnil => by simp [hnil] at hq)
    have hmem : first ∈ trips := List.mem_of_head? hfirst
    have hnumber := Double.isNaN_sub (hfinite r (by simp)).2.1
      (hfinite first (List.mem_append_left _ hmem)).2.1
    refine ⟨first, q, hfirst, hq, ?_⟩
    rw [hremote]
    exact Double.beq_self_of_isNaN hnumber
  · rw [hf.isStable, hupper] at hlower
    cases hlower

/-- Two round trips during which the remote clock is set back. -/
def setBackTrips : List (RoundTrip Float) := [⟨0.5, 10.0, 1.0⟩, ⟨1.5, 9.0, 2.0⟩]

/-- A round trip at the same remote time as the last one makes both envelopes start anew, after they
have taken in the one before, which was set back. -/
theorem envelopes_in_step_setBackTrips :
    let r : RoundTrip Float := ⟨2.5, 9.0, 3.0⟩
    let before := (start : Estimator Float).after setBackTrips
    (∀ q ∈ setBackTrips ++ [r], q.IsFinite) ∧
      before.lower.measurements = 1 ∧ before.lower ≠ { side := .above } ∧
      (before.take r).2.lower = { side := .above } ∧
      (before.take r).2.upper = { side := .below } := by
  intro r before
  have hfinite : ∀ q ∈ setBackTrips ++ [r], q.IsFinite := by decide +kernel
  have hne : before.lower ≠ { side := .above } := by decide +kernel
  obtain ⟨-, ⟨hboth, -, hrepeated⟩, -⟩ := envelopes_in_step setBackTrips r hfinite
  have hlower := hrepeated ⟨1.5, 9.0, 2.0⟩ rfl rfl hne
  exact ⟨hfinite, by decide +kernel, hne, hlower, hboth.1 hlower⟩

end Estimator

end PubSub.Skew

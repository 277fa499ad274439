import PubSub.Proofs.Skew.Longest
import PubSub.Skew.Estimator

/-!
# Estimation in exact arithmetic

Round trips one after the other (`Estimator.estimates`), each later than the one before on the
remote clock: both envelopes take in the bounds of each (`Estimator.Tracks`), so they are trusted
from the same round trip on, the 52nd. `Estimator.Tracks.take_early` and `Estimator.Tracks.take_late`
say what a round trip tells before and after that, in the times and skews as they are measured; the
origin that they are reckoned from inside has no part in it. `Estimator.take_induction` goes from
there to all round trips of a run.
-/

namespace PubSub.Skew

/-- The times of a round trip: of the request and the reply on the local clock, and in between on
the remote one. -/
structure RoundTrip (α : Type) where
  request : α
  remote : α
  reply : α
deriving DecidableEq

/-- The skew is no less than this. -/
def RoundTrip.lowerBound (r : RoundTrip Rat) : Rat := r.remote - r.reply

/-- The skew is no more than this. -/
def RoundTrip.upperBound (r : RoundTrip Rat) : Rat := r.remote - r.request

namespace Estimator

section Runs

variable {α : Type} [Scalar α]

/-- What a round trip tells, and the estimation with it. -/
def take (f : Estimator α) (r : RoundTrip α) : Estimate α × Estimator α :=
  f.update r.request r.remote r.reply

/-- The estimation after some round trips. -/
def after (f : Estimator α) (trips : List (RoundTrip α)) : Estimator α :=
  trips.foldl (fun f r => (f.take r).2) f

/-- What each of some round trips tells. -/
def estimates (f : Estimator α) : List (RoundTrip α) → List (Estimate α)
  | [] => []
  | r :: trips => (f.take r).1 :: estimates (f.take r).2 trips

theorem after_concat (f : Estimator α) (trips : List (RoundTrip α)) (r : RoundTrip α) :
    f.after (trips ++ [r]) = ((f.after trips).take r).2 := by
  rw [after, List.foldl_append]
  rfl

theorem length_estimates (f : Estimator α) (trips : List (RoundTrip α)) :
    (f.estimates trips).length = trips.length := by
  induction trips generalizing f with
  | nil => rfl
  | cons r trips ih => rw [estimates, List.length_cons, List.length_cons, ih]

theorem getElem?_estimates (f : Estimator α) (trips : List (RoundTrip α)) (i : Nat) :
    (f.estimates trips)[i]? = trips[i]?.map fun r => ((f.after (trips.take i)).take r).1 := by
  induction trips generalizing f i with
  | nil => rfl
  | cons r trips ih =>
    cases i with
    | zero => rfl
    | succ i => exact ih (f.take r).2 i

/-- What the round trip at a place tells, by those before it. -/
theorem of_getElem?_estimates {f : Estimator α} {trips : List (RoundTrip α)} {i : Nat}
    {e : Estimate α} (h : (f.estimates trips)[i]? = some e) :
    ∃ r, trips[i]? = some r ∧ trips.take i ++ [r] <+: trips ∧ (trips.take i).length = i ∧
      e = ((f.after (trips.take i)).take r).1 := by
  rw [getElem?_estimates, Option.map_eq_some_iff] at h
  obtain ⟨r, hr, rfl⟩ := h
  have hi := (List.getElem?_eq_some_iff.1 hr).1
  refine ⟨r, hr, ?_, by rw [List.length_take, Nat.min_eq_left hi.le], rfl⟩
  have hconcat : trips.take (i + 1) = trips.take i ++ [r] := by
    rw [List.take_add_one, hr, Option.toList_some]
  exact hconcat ▸ List.take_prefix (i + 1) trips

/-- The skew that a round trip tells is the one that the estimation recommends from then on. -/
theorem skew?_take (f : Estimator α) (r : RoundTrip α) :
    (f.take r).2.skew? = some (f.take r).1.skew := rfl

theorem skew?_after_concat (f : Estimator α) (trips : List (RoundTrip α)) (r : RoundTrip α) :
    (f.after (trips ++ [r])).skew? = some ((f.after trips).take r).1.skew := by
  rw [after_concat, skew?_take]

end Runs

/-! ## Smoothing -/

theorem gainUp_eq : (gainUp : Rat) = 1 / 2 := by norm_num [gainUp, Scalar.constant]

theorem gainDown_eq : (gainDown : Rat) = 1 / 100 := by norm_num [gainDown, Scalar.constant]

theorem zero_eq : (Scalar.zero : Rat) = 0 := by norm_num [Scalar.zero, Scalar.constant]

/-- News is half believed if it is upward, and else to a hundredth. -/
theorem smooth_eq (dt previous measured gradient : Rat) :
    smooth dt previous measured gradient =
      if previous + gradient * dt < measured then
        ((previous + gradient * dt) + measured) / 2
      else (99 * (previous + gradient * dt) + measured) / 100 := by
  have hnews : Scalar.zero < measured - (previous + gradient * dt) ↔
      previous + gradient * dt < measured := by
    rw [zero_eq]
    exact sub_pos
  rw [smooth]
  split
  case isTrue h =>
    rw [if_pos (hnews.1 h), gainUp_eq]
    ring
  case isFalse h =>
    rw [if_neg (hnews.not.1 h), gainDown_eq]
    ring

/-- Smoothing does not depend on where values are reckoned from. -/
theorem smooth_add (dt previous measured gradient shift : Rat) :
    smooth dt (previous + shift) (measured + shift) gradient =
      smooth dt previous measured gradient + shift := by
  have hpredicted : previous + shift + gradient * dt = previous + gradient * dt + shift := by ring
  rw [smooth_eq, smooth_eq, hpredicted]
  simp only [add_lt_add_iff_right]
  split <;> ring

/-- Smoothing stays above what both the prediction and the measurement are above. -/
theorem le_smooth {low dt previous measured gradient : Rat} (h : low ≤ previous + gradient * dt)
    (h' : low ≤ measured) : low ≤ smooth dt previous measured gradient := by
  rw [smooth_eq]
  split <;> linarith

/-- Smoothing stays below what both the prediction and the measurement are below. -/
theorem smooth_le {high dt previous measured gradient : Rat} (h : previous + gradient * dt ≤ high)
    (h' : measured ≤ high) : smooth dt previous measured gradient ≤ high := by
  rw [smooth_eq]
  split <;> linarith

/-! ## Round trips in order -/

/-- The lower bound of a round trip, with times and skews reckoned from an origin. -/
def lowerPoint (time skew : Rat) (r : RoundTrip Rat) : Point Rat :=
  ⟨r.remote - time, r.lowerBound - skew⟩

/-- The upper bound of a round trip, with times and skews reckoned from an origin. -/
def upperPoint (time skew : Rat) (r : RoundTrip Rat) : Point Rat :=
  ⟨r.remote - time, r.upperBound - skew⟩

/-- What an estimation knows of these round trips, each later than the one before on the remote
clock. -/
structure Tracks (f : Estimator Rat) (time skew : Rat) (trips : List (RoundTrip Rat)) : Prop where
  lower : f.lower.side = .above ∧ f.lower.Traces (trips.map (lowerPoint time skew))
  upper : f.upper.side = .below ∧ f.upper.Traces (trips.map (upperPoint time skew))
  measurements : f.measurements = trips.length
  lastTime : ∀ r, trips.getLast? = some r → f.lastTime = r.remote - time

theorem tracks_start (time skew : Rat) : (start : Estimator Rat).Tracks time skew [] where
  lower := ⟨rfl, Envelope.traces_start .above⟩
  upper := ⟨rfl, Envelope.traces_start .below⟩
  measurements := rfl
  lastTime := by simp

/-- The origin of an estimation: the one it has, or else the next round trip. -/
def originFor (f : Estimator Rat) (r : RoundTrip Rat) : Rat × Rat :=
  f.origin.getD (r.remote, r.lowerBound)

variable {f : Estimator Rat} {time skew : Rat} {trips : List (RoundTrip Rat)} {r : RoundTrip Rat}

/-- What a round trip tells, by the envelopes that it has been added to. -/
theorem take_eq (h : f.originFor r = (time, skew)) :
    let e := (f.take r).1
    let f' := (f.take r).2
    let x := r.remote - time
    let lines := combine f.measurements f'.lower f'.upper (r.lowerBound - skew)
      (r.upperBound - skew) x
    f'.origin = some (time, skew) ∧ e.skew = f'.lastValue + skew ∧ e.slope = lines.2 ∧
      e.unsmoothed = lines.1 + skew ∧ e.envelopeLower = f'.lower.valueAt x + skew ∧
      e.envelopeUpper = f'.upper.valueAt x + skew ∧
      f'.lastValue =
        if (f'.lower.isStable ∨ f'.upper.isStable) ∧ 0 < f.measurements then
          smooth (x - f.lastTime) f.lastValue lines.1 lines.2
        else lines.1 := by
  have horigin : f.origin.getD (r.remote, r.remote - r.reply) = (time, skew) := h
  rw [take, update, horigin]
  exact ⟨rfl, rfl, rfl, rfl, rfl, rfl, rfl⟩

theorem take_measurements (f : Estimator Rat) (r : RoundTrip Rat) :
    (f.take r).2.measurements = f.measurements + 1 := rfl

theorem take_lastTime (h : f.originFor r = (time, skew)) :
    (f.take r).2.lastTime = r.remote - time := by
  have horigin : f.origin.getD (r.remote, r.remote - r.reply) = (time, skew) := h
  rw [take, update, horigin]

theorem take_envelopes (h : f.originFor r = (time, skew)) :
    ∃ limit, (f.take r).2.lower =
        (f.lower.add? (lowerPoint time skew r) limit).getD { side := .above } ∧
      (f.take r).2.upper = (f.upper.add? (upperPoint time skew r) limit).getD { side := .below } := by
  have horigin : f.origin.getD (r.remote, r.remote - r.reply) = (time, skew) := h
  rw [take, update, horigin]
  exact ⟨_, rfl, rfl⟩

/-- Points at the remote times move to the right. -/
theorem points_increase {point : RoundTrip Rat → Point Rat}
    (hpoint : ∀ r, (point r).x = r.remote - time)
    (hsorted : trips.Pairwise fun q r => q.remote < r.remote) :
    (trips.map point).Pairwise fun p q => p.x < q.x := by
  refine List.pairwise_map.2 (hsorted.imp fun {q r} hqr => ?_)
  rw [hpoint, hpoint]
  exact sub_lt_sub_right hqr time

theorem Tracks.take (h : f.Tracks time skew trips) (horigin : f.originFor r = (time, skew))
    (hsorted : (trips ++ [r]).Pairwise fun q r => q.remote < r.remote) :
    (f.take r).2.Tracks time skew (trips ++ [r]) := by
  obtain ⟨limit, hlower, hupper⟩ := take_envelopes horigin
  have hadd {e : Envelope Rat} {point : RoundTrip Rat → Point Rat}
      (he : e.Traces (trips.map point)) (hpoint : ∀ r, (point r).x = r.remote - time) :
      ∃ e', e.add? (point r) limit = some e' ∧ e'.side = e.side ∧
        e'.Traces ((trips ++ [r]).map point) := by
    have hincrease := points_increase hpoint hsorted
    rw [List.map_append, List.map_singleton] at hincrease ⊢
    obtain ⟨hbefore, -, hright⟩ := List.pairwise_append.1 hincrease
    exact he.add hbefore (fun p hp => hright p hp _ (.head _)) limit
  obtain ⟨lower, haddLower, hsideLower, htracesLower⟩ := hadd h.lower.2 fun _ => rfl
  obtain ⟨upper, haddUpper, hsideUpper, htracesUpper⟩ := hadd h.upper.2 fun _ => rfl
  rw [haddLower, Option.getD_some] at hlower
  rw [haddUpper, Option.getD_some] at hupper
  refine ⟨?_, ?_, ?_, fun q hq => ?_⟩
  · rw [hlower]
    exact ⟨hsideLower.trans h.lower.1, htracesLower⟩
  · rw [hupper]
    exact ⟨hsideUpper.trans h.upper.1, htracesUpper⟩
  · rw [take_measurements, h.measurements, List.length_append, List.length_singleton]
  · rw [List.getLast?_concat] at hq
    rw [take_lastTime horigin, Option.some.inj hq]

/-- Before each of some round trips in order, the estimation tracks those that came before, from an
origin that it also has for this one. -/
theorem exists_tracks (hsorted : (trips ++ [r]).Pairwise fun q r => q.remote < r.remote) :
    ∃ time skew, ((start : Estimator Rat).after trips).Tracks time skew trips ∧
      ((start : Estimator Rat).after trips).originFor r = (time, skew) := by
  induction trips using List.reverseRecOn generalizing r with
  | nil => exact ⟨_, _, tracks_start _ _, rfl⟩
  | append_singleton trips q ih =>
    obtain ⟨hbefore, -, -⟩ := List.pairwise_append.1 hsorted
    obtain ⟨time, skew, htracks, horigin⟩ := ih hbefore
    rw [after_concat]
    refine ⟨time, skew, htracks.take horigin hbefore, ?_⟩
    rw [originFor, (take_eq horigin).1, Option.getD_some]

/-! ## Before and after the envelopes are trusted -/

theorem two_eq : (Scalar.constant 2 0 : Rat) = 2 := by norm_num [Scalar.constant]

/-- Envelopes that are not trusted have no part in the estimate. -/
theorem combine_early {lower upper : Envelope Rat} (hlower : lower.isStable = false)
    (hupper : upper.isStable = false) (n : Nat) (lowerBound upperBound x : Rat) :
    combine n lower upper lowerBound upperBound x =
      (if n < lowerBoundOnly then lowerBound else (lowerBound + upperBound) / 2, 0) := by
  rw [combine, hlower, hupper, if_neg Bool.false_ne_true, if_neg Bool.false_ne_true, two_eq, zero_eq]
  split <;> rfl

/-- Envelopes that are both trusted give the estimate by their lines, as long as these have not
crossed. -/
theorem combine_late {lower upper : Envelope Rat} (hlower : lower.isStable = true)
    (hupper : upper.isStable = true) (n : Nat) (lowerBound upperBound x : Rat) :
    combine n lower upper lowerBound upperBound x =
      if lower.valueAt x ≤ upper.valueAt x then
        ((lower.valueAt x + upper.valueAt x) / 2, (lower.line.slope + upper.line.slope) / 2)
      else (lower.valueAt x, lower.line.slope) := by
  rw [combine, hlower, hupper, if_pos rfl, two_eq]
  simp only [true_and]

/-- Both envelopes are trusted from the 52nd round trip on. -/
theorem Tracks.isStable (h : f.Tracks time skew (trips ++ [r])) :
    f.lower.isStable = decide (50 < trips.length) ∧
      f.upper.isStable = decide (50 < trips.length) := by
  have hlower := h.lower.2.measurements
  have hupper := h.upper.2.measurements
  rw [List.length_map, List.length_append, List.length_singleton, Nat.add_sub_cancel]
    at hlower hupper
  exact ⟨by rw [Envelope.isStable, hlower]; rfl, by rw [Envelope.isStable, hupper]; rfl⟩

/-- One of the first 51 round trips is taken for itself. -/
theorem Tracks.take_early (h : f.Tracks time skew trips) (horigin : f.originFor r = (time, skew))
    (hsorted : (trips ++ [r]).Pairwise fun q r => q.remote < r.remote) (hfew : trips.length ≤ 50) :
    (f.take r).1.skew = (f.take r).1.unsmoothed ∧
      (f.take r).1.unsmoothed =
        if trips.length < 10 then r.lowerBound else (r.lowerBound + r.upperBound) / 2 := by
  obtain ⟨hlower, hupper⟩ := (h.take horigin hsorted).isStable
  obtain ⟨-, hskew, -, hunsmoothed, -, -, hvalue⟩ := take_eq horigin
  rw [decide_eq_false (Nat.not_lt.2 hfew)] at hlower hupper
  rw [hlower, hupper, if_neg (by simp)] at hvalue
  rw [hskew, hvalue, hunsmoothed, combine_early hlower hupper, h.measurements, lowerBoundOnly]
  refine ⟨rfl, ?_⟩
  split <;> ring

/-- A later round trip is taken for what the lines of the envelopes say of it, and this corrects
what the round trip before lets expect. -/
theorem Tracks.take_late (h : f.Tracks time skew trips) (horigin : f.originFor r = (time, skew))
    (hsorted : (trips ++ [r]).Pairwise fun q r => q.remote < r.remote) (hmany : 50 < trips.length)
    {q : RoundTrip Rat} (hq : trips.getLast? = some q) {previous : Rat}
    (hprevious : f.skew? = some previous) :
    ((f.take r).1.unsmoothed, (f.take r).1.slope) =
        (if (f.take r).1.envelopeLower ≤ (f.take r).1.envelopeUpper then
          (((f.take r).1.envelopeLower + (f.take r).1.envelopeUpper) / 2,
            ((f.take r).2.lower.line.slope + (f.take r).2.upper.line.slope) / 2)
        else ((f.take r).1.envelopeLower, (f.take r).2.lower.line.slope)) ∧
      (f.take r).1.skew =
        smooth (r.remote - q.remote) previous (f.take r).1.unsmoothed (f.take r).1.slope := by
  have hlast : f.lastValue + skew = previous := by
    obtain ⟨origin, hsome, rfl⟩ := Option.map_eq_some_iff.1 hprevious
    rw [originFor, hsome, Option.getD_some] at horigin
    rw [horigin]
  obtain ⟨hlower, hupper⟩ := (h.take horigin hsorted).isStable
  obtain ⟨-, hskew, hslope, hunsmoothed, henvelopeLower, henvelopeUpper, hvalue⟩ := take_eq horigin
  rw [decide_eq_true hmany] at hlower hupper
  rw [hlower, hupper, if_pos (by rw [h.measurements]; exact ⟨.inl rfl, by omega⟩),
    h.lastTime q hq] at hvalue
  constructor
  · rw [hunsmoothed, hslope, combine_late hlower hupper, henvelopeLower, henvelopeUpper]
    simp only [add_le_add_iff_right]
    split
    · refine Prod.ext ?_ rfl
      dsimp only
      ring
    · rfl
  · rw [hskew, hvalue, ← hslope, hunsmoothed, ← hlast, smooth_add, sub_sub_sub_cancel_right]

/-- What each of the first 51 round trips tells, and each later one if the one before does, is told by
all. -/
theorem take_induction {good : RoundTrip Rat → Prop}
    {motive : List (RoundTrip Rat) → RoundTrip Rat → Estimate Rat → Prop}
    (early : ∀ {f : Estimator Rat} {time skew trips r}, f.Tracks time skew trips →
      f.originFor r = (time, skew) → (trips ++ [r]).Pairwise (fun q r => q.remote < r.remote) →
      (∀ r' ∈ trips ++ [r], good r') → trips.length ≤ 50 → motive trips r (f.take r).1)
    (late : ∀ {f : Estimator Rat} {time skew trips q r before}, f.Tracks time skew (trips ++ [q]) →
      f.originFor r = (time, skew) →
      (trips ++ [q] ++ [r]).Pairwise (fun q r => q.remote < r.remote) →
      (∀ r' ∈ trips ++ [q] ++ [r], good r') → 50 < (trips ++ [q]).length →
      f.skew? = some before.skew → motive trips q before → motive (trips ++ [q]) r (f.take r).1)
    (hsorted : (trips ++ [r]).Pairwise fun q r => q.remote < r.remote)
    (hgood : ∀ r' ∈ trips ++ [r], good r') :
    motive trips r (((start : Estimator Rat).after trips).take r).1 := by
  induction trips using List.reverseRecOn generalizing r with
  | nil =>
    obtain ⟨time, skew, htracks, horigin⟩ := exists_tracks hsorted
    exact early htracks horigin hsorted hgood (Nat.zero_le 50)
  | append_singleton trips q ih =>
    obtain ⟨time, skew, htracks, horigin⟩ := exists_tracks hsorted
    obtain hfew | hmany := le_or_gt (trips ++ [q]).length 50
    · exact early htracks horigin hsorted hgood hfew
    · exact late htracks horigin hsorted hgood hmany (skew?_after_concat ..)
        (ih (List.pairwise_append.1 hsorted).1 fun r' hr' => hgood r' (List.mem_append_left _ hr'))

end Estimator

end PubSub.Skew

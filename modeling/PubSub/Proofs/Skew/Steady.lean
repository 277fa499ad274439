import PubSub.Proofs.Skew.Estimator

/-!
# Skews under constant delays

If each way always takes the same time and the remote clock goes at a constant rate, then all lower
bounds lie on one line and all upper bounds on a parallel one (`RoundTrip.OnLines`). The lines of
both envelopes are these, so the prediction is right and there is nothing to smooth
(`Estimator.take_onLines`): the skew that is told is the true one but for half of what one way takes
longer than the other (`Estimator.skew_of_constant_delays`).
-/

namespace PubSub.Skew

/-- The bounds of a round trip lie on two lines over the remote time that rise at the same rate. -/
structure RoundTrip.OnLines (r : RoundTrip Rat) (rate low high : Rat) : Prop where
  lower : r.lowerBound = rate * r.remote + low
  upper : r.upperBound = rate * r.remote + high

/-- The round trip at a local time, with a remote clock that was `offset` ahead at the local time 0
and has gained `drift` per unit of time. The ways there and back take `out` and `back`. -/
def RoundTrip.steady (offset drift out back time : Rat) : RoundTrip Rat where
  request := time - out
  remote := (1 + drift) * time + offset
  reply := time + back

namespace Estimator

variable {f : Estimator Rat} {time skew rate low high : Rat} {trips : List (RoundTrip Rat)}
  {q r : RoundTrip Rat}

/-- A measurement that is as expected is believed. -/
theorem smooth_expected {dt previous measured gradient : Rat}
    (h : previous + gradient * dt = measured) : smooth dt previous measured gradient = measured := by
  rw [smooth_eq, h, if_neg (lt_irrefl measured)]
  ring

/-- A later round trip on the lines tells their rate, and smooths the mean of its bounds along it. -/
theorem Tracks.late_onLines (h : f.Tracks time skew trips) (horigin : f.originFor r = (time, skew))
    (hsorted : (trips ++ [r]).Pairwise fun q r => q.remote < r.remote)
    (honLines : ∀ r' ∈ trips ++ [r], r'.OnLines rate low high) (hle : low ≤ high)
    (hmany : 50 < trips.length) (hq : trips.getLast? = some q) {previous : Rat}
    (hprevious : f.skew? = some previous) :
    (f.take r).1.slope = rate ∧
      (f.take r).1.skew =
        smooth (r.remote - q.remote) previous ((r.lowerBound + r.upperBound) / 2) rate := by
  obtain ⟨hestimate, hskew⟩ := h.take_late horigin hsorted hmany hq hprevious
  obtain ⟨-, -, -, -, henvelopeLower, henvelopeUpper, -⟩ := take_eq horigin
  have htracks := h.take horigin hsorted
  have hpoints (point : RoundTrip Rat → Point Rat) : 2 ≤ ((trips ++ [r]).map point).length := by
    rw [List.length_map, List.length_append, List.length_singleton]
    omega
  have honLower : ∀ p ∈ (trips ++ [r]).map (lowerPoint time skew),
      p.y = rate * p.x + (rate * time + low - skew) := by
    refine List.forall_mem_map.2 fun r' hr' => ?_
    rw [lowerPoint, (honLines r' hr').lower]
    ring
  have honUpper : ∀ p ∈ (trips ++ [r]).map (upperPoint time skew),
      p.y = rate * p.x + (rate * time + high - skew) := by
    refine List.forall_mem_map.2 fun r' hr' => ?_
    rw [upperPoint, (honLines r' hr').upper]
    ring
  obtain ⟨hslopeLower, hvalueLower⟩ := htracks.lower.2.collinear (hpoints _) honLower
  obtain ⟨hslopeUpper, hvalueUpper⟩ := htracks.upper.2.collinear (hpoints _) honUpper
  obtain ⟨hlower, hupper⟩ := honLines r List.mem_concat_self
  replace henvelopeLower : (f.take r).1.envelopeLower = r.lowerBound := by
    rw [henvelopeLower, hvalueLower, hlower]
    ring
  replace henvelopeUpper : (f.take r).1.envelopeUpper = r.upperBound := by
    rw [henvelopeUpper, hvalueUpper, hupper]
    ring
  have huncrossed : r.lowerBound ≤ r.upperBound := by
    rw [hlower, hupper]
    exact add_le_add le_rfl hle
  rw [henvelopeLower, henvelopeUpper, if_pos huncrossed, hslopeLower, hslopeUpper,
    add_self_div_two] at hestimate
  obtain ⟨hunsmoothed, hslope⟩ := Prod.mk.inj hestimate
  rw [hskew, hunsmoothed, hslope]
  exact ⟨rfl, rfl⟩

/-- Round trips on the lines tell the mean of their bounds, after the first ones that only tell the
lower bound, and the later ones tell the rate. -/
theorem take_onLines (hsorted : (trips ++ [r]).Pairwise fun q r => q.remote < r.remote)
    (honLines : ∀ r' ∈ trips ++ [r], r'.OnLines rate low high) (hle : low ≤ high) :
    let e := (((start : Estimator Rat).after trips).take r).1
    e.skew = (if trips.length < 10 then r.lowerBound else (r.lowerBound + r.upperBound) / 2) ∧
      (50 < trips.length → e.slope = rate) := by
  refine take_induction (motive := fun trips r e =>
    e.skew = (if trips.length < 10 then r.lowerBound else (r.lowerBound + r.upperBound) / 2) ∧
      (50 < trips.length → e.slope = rate)) ?early ?late hsorted honLines
  case early =>
    intro f time skew trips r htracks horigin hsorted honLines hfew
    obtain ⟨hskew, hunsmoothed⟩ := htracks.take_early horigin hsorted hfew
    exact ⟨hskew.trans hunsmoothed, fun hmany => absurd hfew (Nat.not_le.2 hmany)⟩
  case late =>
    intro f time skew trips q r before htracks horigin hsorted honLines hmany hbefore hmean
    obtain ⟨hslope, hskew⟩ :=
      htracks.late_onLines horigin hsorted honLines hle hmany List.getLast?_concat hbefore
    have hmany' : ¬trips.length < 10 := by
      rw [List.length_append, List.length_singleton] at hmany
      omega
    rw [if_neg hmany'] at hmean
    refine ⟨?_, fun _ => hslope⟩
    rw [hskew, hmean.1, if_neg (by omega)]
    -- The mean of the bounds has risen at the rate, just as predicted.
    obtain ⟨hlower, hupper⟩ := honLines r List.mem_concat_self
    obtain ⟨hlower', hupper'⟩ :=
      honLines q (List.mem_append_left _ List.mem_concat_self)
    refine smooth_expected ?_
    rw [hlower, hupper, hlower', hupper']
    ring

/-! ## Clocks at constant rates -/

/-- The skew at a local time, in terms of the remote time then. -/
theorem steady_skew (offset drift time : Rat) (hdrift : -1 < drift) :
    drift * time + offset =
      drift / (1 + drift) * ((1 + drift) * time + offset) + (1 - drift / (1 + drift)) * offset := by
  have hrate : 1 + drift ≠ 0 := by linarith
  field_simp
  ring

theorem steady_bounds (offset drift out back time : Rat) :
    (RoundTrip.steady offset drift out back time).lowerBound = drift * time + offset - back ∧
      (RoundTrip.steady offset drift out back time).upperBound = drift * time + offset + out := by
  rw [RoundTrip.lowerBound, RoundTrip.upperBound, RoundTrip.steady]
  constructor <;> ring

theorem steady_onLines (offset drift out back time : Rat) (hdrift : -1 < drift) :
    (RoundTrip.steady offset drift out back time).OnLines (drift / (1 + drift))
      ((1 - drift / (1 + drift)) * offset - back) ((1 - drift / (1 + drift)) * offset + out) := by
  obtain ⟨hlower, hupper⟩ := steady_bounds offset drift out back time
  have hskew := steady_skew offset drift time hdrift
  constructor
  · rw [hlower, RoundTrip.steady]
    linarith
  · rw [hupper, RoundTrip.steady]
    linarith

/-- If the remote clock goes at a constant rate and either way always takes the same time, then
every skew is right but for no more than one of these. From the 11th round trip on it is off by half
of what the way there takes longer than the way back, and from the 52nd on the slope is what the
remote clock gains per unit of its own time. -/
theorem skew_of_constant_delays (offset drift out back : Rat) {times : List Rat}
    (hdrift : -1 < drift) (hout : 0 ≤ out) (hback : 0 ≤ back) (htimes : times.Pairwise (· < ·)) :
    let es := (start : Estimator Rat).estimates (times.map (.steady offset drift out back))
    es.length = times.length ∧
      ∀ (i : Nat) time e, times[i]? = some time → es[i]? = some e →
        e.skew ∈ Set.Icc (drift * time + offset - back) (drift * time + offset + out) ∧
        (10 ≤ i → e.skew = drift * time + offset + (out - back) / 2) ∧
        (51 ≤ i → e.slope = drift / (1 + drift)) := by
  refine ⟨by rw [length_estimates, List.length_map], fun i time e htime he => ?_⟩
  have hsorted : (times.map (RoundTrip.steady offset drift out back)).Pairwise
      fun q r => q.remote < r.remote := by
    refine List.pairwise_map.2 (htimes.imp fun {a b} hab => ?_)
    exact add_lt_add_left (mul_lt_mul_of_pos_left hab (by linarith)) offset
  obtain ⟨r, hr, hinit, hlength, rfl⟩ := of_getElem?_estimates he
  obtain rfl : RoundTrip.steady offset drift out back time = r := by
    rw [List.getElem?_map, htime] at hr
    exact Option.some.inj hr
  have honLines : ∀ r ∈ times.map (RoundTrip.steady offset drift out back), r.OnLines
      (drift / (1 + drift)) ((1 - drift / (1 + drift)) * offset - back)
      ((1 - drift / (1 + drift)) * offset + out) :=
    List.forall_mem_map.2 fun l _ => steady_onLines offset drift out back l hdrift
  obtain ⟨hskew, hslope⟩ := take_onLines (hsorted.sublist hinit.sublist)
    (fun r hr => honLines r (hinit.subset hr)) (by linarith)
  obtain ⟨hlower, hupper⟩ := steady_bounds offset drift out back time
  rw [hlength, hlower, hupper] at hskew
  rw [hlength] at hslope
  refine ⟨?_, fun hmany => ?_, hslope⟩
  · rw [hskew]
    split <;> constructor <;> linarith
  · rw [hskew, if_neg (by omega)]
    ring

/-- Sixty round trips at times further and further apart, with a remote clock that is a tenth
faster. -/
theorem skew_of_constant_delays_sixty :
    let times : List Rat := (List.range 60).map fun (k : Nat) => (k : Rat) ^ 2
    (-1 : Rat) < 1 / 10 ∧ (0 : Rat) ≤ 1 / 2 ∧ (0 : Rat) ≤ 1 / 4 ∧ times.Pairwise (· < ·) ∧
      ∃ e ∈ ((start : Estimator Rat).estimates
        (times.map (.steady 5 (1 / 10) (1 / 2) (1 / 4))))[59]?,
        e.skew = 1 / 10 * 59 ^ 2 + 5 + 1 / 8 ∧ e.slope = 1 / 11 := by
  intro times
  have htimes : times.Pairwise (· < ·) := by decide +kernel
  obtain ⟨hlength, htold⟩ := skew_of_constant_delays 5 (1 / 10) (1 / 2) (1 / 4) (by norm_num)
    (by norm_num) (by norm_num) htimes
  have hlast : times[59]? = some (59 ^ 2) := by decide +kernel
  have hmany : 59 < ((start : Estimator Rat).estimates
      (times.map (.steady 5 (1 / 10) (1 / 2) (1 / 4)))).length := hlength ▸ by decide
  obtain ⟨-, hskew, hslope⟩ := htold 59 _ _ hlast (List.getElem?_eq_getElem hmany)
  refine ⟨by norm_num, by norm_num, by norm_num, htimes, _, List.getElem?_eq_getElem hmany, ?_⟩
  rw [hskew (by decide), hslope (by decide)]
  norm_num

end Estimator

end PubSub.Skew

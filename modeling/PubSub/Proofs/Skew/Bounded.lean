import PubSub.Proofs.Skew.Estimator

/-!
# Skews under bounded delays

If the clocks keep a constant offset and all delays are bounded, then the bounds that round trips
give lie in a band around the offset. The skew that is told lies in it as well, as long as round
trips are taken for themselves. Later on it may leave the band in two ways: the line of a longest
segment is extended beyond it, which the estimate follows once the line of the lower envelope has
crossed that of the upper one; and the prediction moves on along such a line. Where neither happens
it lies in the band, and it never goes lower than another half of it, nor higher than its half for
each round trip (`Estimator.skew_mem_of_bounded_delays`). Both do happen
(`Estimator.skew_leaves_band`).
-/

namespace PubSub.Skew

/-- The delays of a round trip are at most `delay` each way, the skew being `offset`. -/
structure RoundTrip.Within (r : RoundTrip Rat) (offset delay : Rat) : Prop where
  lower : r.lowerBound ∈ Set.Icc (offset - delay) offset
  upper : r.upperBound ∈ Set.Icc offset (offset + delay)

instance (r : RoundTrip Rat) (offset delay : Rat) : Decidable (r.Within offset delay) :=
  decidable_of_iff (r.lowerBound ∈ Set.Icc (offset - delay) offset ∧
    r.upperBound ∈ Set.Icc offset (offset + delay)) ⟨fun h => ⟨h.1, h.2⟩, fun h => ⟨h.1, h.2⟩⟩

theorem RoundTrip.Within.delay_nonneg {r : RoundTrip Rat} {offset delay : Rat}
    (h : r.Within offset delay) : 0 ≤ delay := by
  linarith [h.lower.1.trans h.lower.2]

namespace Estimator

variable {f : Estimator Rat} {time skew offset delay : Rat} {trips : List (RoundTrip Rat)}
  {q r : RoundTrip Rat}

/-- What the skew is expected to be at a round trip, from the one before and the slope now. -/
def predicted (before e : Estimate Rat) (q r : RoundTrip Rat) : Rat :=
  before.skew + e.slope * (r.remote - q.remote)

/-- One of the first 51 round trips tells a skew within the band. -/
theorem Tracks.early_mem (h : f.Tracks time skew trips) (horigin : f.originFor r = (time, skew))
    (hsorted : (trips ++ [r]).Pairwise fun q r => q.remote < r.remote)
    (hwithin : r.Within offset delay) (hfew : trips.length ≤ 50) :
    (f.take r).1.skew = (f.take r).1.unsmoothed ∧
      (f.take r).1.unsmoothed ∈ Set.Icc (offset - delay) (offset + delay) := by
  obtain ⟨hskew, hunsmoothed⟩ := h.take_early horigin hsorted hfew
  obtain ⟨⟨hlower, hlower'⟩, ⟨hupper, hupper'⟩⟩ := hwithin
  refine ⟨hskew, ?_⟩
  rw [hunsmoothed]
  split <;> constructor <;> linarith

/-- What the line of an envelope of such points says of the newest round trip. -/
theorem extended_points {e : Envelope Rat} {point : RoundTrip Rat → Point Rat}
    (h : e.Traces ((trips ++ [r]).map point)) (hpoint : ∀ r, (point r).x = r.remote - time)
    (hsorted : (trips ++ [r]).Pairwise fun q r => q.remote < r.remote)
    (hq : trips.getLast? = some q) {low high : Rat}
    (hband : ∀ r' ∈ trips ++ [r], low ≤ (point r').y ∧ (point r').y ≤ high) :
    e.side.Bounds (point r).y (e.valueAt (r.remote - time)) ∧
      e.valueAt (r.remote - time) ≤ high + trips.length * (high - low) ∧
      |e.line.slope * (r.remote - q.remote)| ≤ high - low := by
  have hincrease := points_increase hpoint hsorted
  have hband' : ∀ p ∈ (trips ++ [r]).map point, low ≤ p.y ∧ p.y ≤ high :=
    List.forall_mem_map.2 hband
  rw [List.map_append, List.map_singleton] at h hincrease hband'
  have hlast : (trips.map point).getLast? = some (point q) := by
    rw [List.getLast?_map, hq, Option.map_some]
  have hvalue := h.valueAt_le hincrease hlast hband'
  have hrise := h.abs_rise_le hincrease hlast hband'
  have hbounds := h.bounds_newest hlast
  rw [hpoint] at hbounds
  rw [hpoint, List.length_map] at hvalue
  rw [hpoint, hpoint, sub_sub_sub_cancel_right] at hrise
  exact ⟨hbounds, hvalue, hrise⟩

/-- The lines of both envelopes rise or fall by no more than a delay since the round trip before.
That of the lower one is not below the band, and that of the upper one not above it. -/
theorem Tracks.lines_bounded (h : f.Tracks time skew trips)
    (horigin : f.originFor r = (time, skew))
    (hsorted : (trips ++ [r]).Pairwise fun q r => q.remote < r.remote)
    (hwithin : ∀ r' ∈ trips ++ [r], r'.Within offset delay) (hq : trips.getLast? = some q) :
    (f.take r).1.envelopeLower ∈ Set.Icc (offset - delay) (offset + trips.length * delay) ∧
      (f.take r).1.envelopeUpper ≤ offset + delay ∧
      |(f.take r).2.lower.line.slope * (r.remote - q.remote)| ≤ delay ∧
      |(f.take r).2.upper.line.slope * (r.remote - q.remote)| ≤ delay := by
  have htracks := h.take horigin hsorted
  obtain ⟨-, -, -, -, henvelopeLower, henvelopeUpper, -⟩ := take_eq horigin
  have hlowerBand (r' : RoundTrip Rat) (hr' : r' ∈ trips ++ [r]) :
      offset - delay - skew ≤ r'.lowerBound - skew ∧ r'.lowerBound - skew ≤ offset - skew :=
    ⟨sub_le_sub_right (hwithin r' hr').lower.1 skew, sub_le_sub_right (hwithin r' hr').lower.2 skew⟩
  have hupperBand (r' : RoundTrip Rat) (hr' : r' ∈ trips ++ [r]) :
      offset - skew ≤ r'.upperBound - skew ∧ r'.upperBound - skew ≤ offset + delay - skew :=
    ⟨sub_le_sub_right (hwithin r' hr').upper.1 skew, sub_le_sub_right (hwithin r' hr').upper.2 skew⟩
  obtain ⟨hlower, hhighest, hrise⟩ :=
    extended_points htracks.lower.2 (fun _ => rfl) hsorted hq hlowerBand
  obtain ⟨hupper, -, hrise'⟩ :=
    extended_points htracks.upper.2 (fun _ => rfl) hsorted hq hupperBand
  have hwidth : offset - skew - (offset - delay - skew) = delay := by ring
  have hwidth' : offset + delay - skew - (offset - skew) = delay := by ring
  rw [hwidth] at hhighest hrise
  rw [hwidth'] at hrise'
  rw [htracks.lower.1] at hlower
  rw [htracks.upper.1] at hupper
  replace hlower : r.lowerBound - skew ≤ (f.take r).2.lower.valueAt (r.remote - time) := hlower
  replace hupper : (f.take r).2.upper.valueAt (r.remote - time) ≤ r.upperBound - skew := hupper
  obtain ⟨⟨hr, -⟩, ⟨-, hr'⟩⟩ := hwithin r List.mem_concat_self
  rw [henvelopeLower, henvelopeUpper]
  refine ⟨⟨?_, ?_⟩, ?_, hrise, hrise'⟩ <;> linarith

/-- A later round trip tells a skew between the prediction and an estimate that is not below the
band, nor above it as long as the lines have not crossed. -/
theorem Tracks.late_bounded (h : f.Tracks time skew trips)
    (horigin : f.originFor r = (time, skew))
    (hsorted : (trips ++ [r]).Pairwise fun q r => q.remote < r.remote)
    (hwithin : ∀ r' ∈ trips ++ [r], r'.Within offset delay) (hmany : 50 < trips.length)
    (hq : trips.getLast? = some q) {previous : Rat} (hprevious : f.skew? = some previous) :
    (f.take r).1.skew =
        smooth (r.remote - q.remote) previous (f.take r).1.unsmoothed (f.take r).1.slope ∧
      (f.take r).1.unsmoothed ∈ Set.Icc (offset - delay) (offset + trips.length * delay) ∧
      ((f.take r).1.envelopeLower ≤ (f.take r).1.envelopeUpper →
        (f.take r).1.unsmoothed ≤ offset + delay) ∧
      |(f.take r).1.slope * (r.remote - q.remote)| ≤ delay := by
  obtain ⟨hestimate, hskew⟩ := h.take_late horigin hsorted hmany hq hprevious
  obtain ⟨⟨hlower, hlower'⟩, hupper, hrise, hrise'⟩ :=
    h.lines_bounded horigin hsorted hwithin hq
  have hdelay : 0 ≤ delay := (abs_nonneg _).trans hrise
  have hmultiple : delay ≤ trips.length * delay :=
    le_mul_of_one_le_left hdelay (by exact_mod_cast (by omega : 1 ≤ trips.length))
  refine ⟨hskew, ?_⟩
  rw [abs_le] at hrise hrise' ⊢
  split at hestimate <;> obtain ⟨hunsmoothed, hslope⟩ := Prod.mk.inj hestimate <;>
    rw [hunsmoothed, hslope]
  case isTrue hcross =>
    refine ⟨⟨?_, ?_⟩, fun _ => ?_, ?_, ?_⟩ <;> linarith
  case isFalse hcross =>
    exact ⟨⟨hlower, hlower'⟩, fun huncrossed => absurd huncrossed hcross, hrise⟩

/-- The skew is never lower than another half of the band below it, and each round trip adds no more
than half of it above. -/
theorem take_mem (hsorted : (trips ++ [r]).Pairwise fun q r => q.remote < r.remote)
    (hwithin : ∀ r' ∈ trips ++ [r], r'.Within offset delay) :
    (((start : Estimator Rat).after trips).take r).1.skew ∈
      Set.Icc (offset - 2 * delay) (offset + (trips.length + 1) * delay) := by
  refine take_induction (motive := fun trips r e =>
    e.skew ∈ Set.Icc (offset - 2 * delay) (offset + (trips.length + 1) * delay)) ?early ?late
    hsorted hwithin
  case early =>
    intro f time skew trips r htracks horigin hsorted hwithin hfew
    have hr := hwithin r List.mem_concat_self
    obtain ⟨heq, hlow, hhigh⟩ := htracks.early_mem horigin hsorted hr hfew
    have hdelay := hr.delay_nonneg
    have hmore : 0 ≤ (trips.length : Rat) * delay := mul_nonneg (Nat.cast_nonneg _) hdelay
    rw [heq]
    constructor <;> linarith
  case late =>
    intro f time skew trips q r before htracks horigin hsorted hwithin hmany hbefore hmem
    obtain ⟨hskew, ⟨hlow, hhigh⟩, -, hrise⟩ :=
      htracks.late_bounded horigin hsorted hwithin hmany List.getLast?_concat hbefore
    obtain ⟨hprior, hprior'⟩ := hmem
    have hdelay := (hwithin r List.mem_concat_self).delay_nonneg
    rw [abs_le] at hrise
    rw [List.length_append, List.length_singleton, Nat.cast_succ] at hhigh ⊢
    rw [hskew]
    refine ⟨?_, smooth_le (by linarith) (by linarith)⟩
    -- The prediction may be one delay lower than the skew before, but then the mean counts.
    rw [smooth_eq]
    split <;> linarith

/-- The estimate that is smoothed is not below the band, nor above it as long as the lines have not
crossed. -/
theorem unsmoothed_mem (hsorted : (trips ++ [r]).Pairwise fun q r => q.remote < r.remote)
    (hwithin : ∀ r' ∈ trips ++ [r], r'.Within offset delay) :
    let e := (((start : Estimator Rat).after trips).take r).1
    offset - delay ≤ e.unsmoothed ∧
      (e.envelopeLower ≤ e.envelopeUpper → e.unsmoothed ≤ offset + delay) := by
  refine take_induction (motive := fun _ _ e => offset - delay ≤ e.unsmoothed ∧
    (e.envelopeLower ≤ e.envelopeUpper → e.unsmoothed ≤ offset + delay)) ?early ?late hsorted hwithin
  case early =>
    intro f time skew trips r htracks horigin hsorted hwithin hfew
    obtain ⟨-, hlow, hhigh⟩ :=
      htracks.early_mem horigin hsorted (hwithin r List.mem_concat_self) hfew
    exact ⟨hlow, fun _ => hhigh⟩
  case late =>
    intro f time skew trips q r before htracks horigin hsorted hwithin hmany hbefore _
    obtain ⟨-, ⟨hlow, -⟩, hhigh, -⟩ :=
      htracks.late_bounded horigin hsorted hwithin hmany List.getLast?_concat hbefore
    exact ⟨hlow, hhigh⟩

/-- A later round trip does not leave the band on a side where the prediction does not, save that
the lines may have crossed above it. -/
theorem take_mem_of_predicted
    (hsorted : (trips ++ [q] ++ [r]).Pairwise fun q r => q.remote < r.remote)
    (hwithin : ∀ r' ∈ trips ++ [q] ++ [r], r'.Within offset delay) (hmany : 50 ≤ trips.length) :
    let before := (((start : Estimator Rat).after trips).take q).1
    let e := (((start : Estimator Rat).after (trips ++ [q])).take r).1
    (offset - delay ≤ predicted before e q r → offset - delay ≤ e.skew) ∧
      (e.envelopeLower ≤ e.envelopeUpper → predicted before e q r ≤ offset + delay →
        e.skew ≤ offset + delay) := by
  obtain ⟨time, skew, htracks, horigin⟩ := exists_tracks hsorted
  have hmany' : 50 < (trips ++ [q]).length := by
    rw [List.length_append, List.length_singleton]
    omega
  obtain ⟨hskew, ⟨hlow, -⟩, hhigh, -⟩ := htracks.late_bounded horigin hsorted hwithin hmany'
    List.getLast?_concat (skew?_after_concat ..)
  dsimp only
  rw [hskew]
  exact ⟨fun hpredicted => le_smooth hpredicted hlow,
    fun huncrossed hpredicted => smooth_le hpredicted (hhigh huncrossed)⟩

/-- If the clocks keep a constant offset, with no more than some delay each way, then no estimate
lies below the band of that delay around the offset, nor above it as long as the lines have not
crossed. The first 51 skews lie in the band. A later one does not leave it on a side where the
prediction does not, save that the lines may have crossed above it. In any case a skew is no lower
than another delay below the band, nor higher than a delay for each round trip. -/
theorem skew_mem_of_bounded_delays (offset delay : Rat)
    (hsorted : trips.Pairwise fun q r => q.remote < r.remote)
    (hwithin : ∀ r ∈ trips, r.Within offset delay) :
    let es := (start : Estimator Rat).estimates trips
    es.length = trips.length ∧
      (∀ (i : Nat) e, es[i]? = some e →
        (i ≤ 50 → e.skew ∈ Set.Icc (offset - delay) (offset + delay)) ∧
        e.skew ∈ Set.Icc (offset - 2 * delay) (offset + (i + 1) * delay) ∧
        offset - delay ≤ e.unsmoothed ∧
        (e.envelopeLower ≤ e.envelopeUpper → e.unsmoothed ≤ offset + delay)) ∧
      ∀ (i : Nat) before e q r, 50 ≤ i → es[i]? = some before → es[i + 1]? = some e →
        trips[i]? = some q → trips[i + 1]? = some r →
        (offset - delay ≤ predicted before e q r → offset - delay ≤ e.skew) ∧
        (e.envelopeLower ≤ e.envelopeUpper → predicted before e q r ≤ offset + delay →
          e.skew ≤ offset + delay) := by
  refine ⟨length_estimates .., fun i e he => ?_, fun i before e q r hi hbefore he hq hr => ?_⟩
  · obtain ⟨r, -, hinit, hlength, rfl⟩ := of_getElem?_estimates he
    have hsorted' := hsorted.sublist hinit.sublist
    have hwithin' (r' : RoundTrip Rat) (hr' : r' ∈ trips.take i ++ [r]) :=
      hwithin r' (hinit.subset hr')
    refine ⟨fun hfew => ?_, ?_, unsmoothed_mem hsorted' hwithin'⟩
    · obtain ⟨time, skew, htracks, horigin⟩ := exists_tracks hsorted'
      obtain ⟨heq, hmem⟩ := htracks.early_mem horigin hsorted'
        (hwithin' r List.mem_concat_self) (hlength.trans_le hfew)
      rwa [heq]
    · have hmem := take_mem hsorted' hwithin'
      rwa [hlength] at hmem
  · have htake : trips.take (i + 1) = trips.take i ++ [q] := by
      rw [List.take_add_one, hq, Option.toList_some]
    obtain ⟨q', hq', -, hlength, rfl⟩ := of_getElem?_estimates hbefore
    obtain ⟨r', hr', hinit, -, rfl⟩ := of_getElem?_estimates he
    obtain rfl : q = q' := Option.some.inj (hq.symm.trans hq')
    obtain rfl : r = r' := Option.some.inj (hr.symm.trans hr')
    rw [htake] at hinit ⊢
    exact take_mem_of_predicted (hsorted.sublist hinit.sublist)
      (fun r' hr' => hwithin r' (hinit.subset hr')) (hlength.symm ▸ hi)

/-! ## Runs that leave the band -/

/-- A round trip at a remote time, with these bounds. -/
def bounded (time lower upper : Rat) : RoundTrip Rat := ⟨time - upper, time, time - lower⟩

/-- 52 round trips: first one after the other with the same bounds, then some with these bounds, as
far apart as the first ones took together. -/
def settled (lower upper : Rat) (later : List (Rat × Rat)) : List (RoundTrip Rat) :=
  let few := 52 - later.length
  (List.range few).map (fun (k : Nat) => bounded k lower upper) ++
    later.mapIdx fun j bounds => bounded (few * (j + 1)) bounds.1 bounds.2

/-- The lines cross far outside the band. -/
def crossing : List (RoundTrip Rat) := settled (-1) 1 [(0, 0), (0, 0), (-1, 1)]

/-- The lines go up to the band's edge, and the prediction beyond it. -/
def ascending : List (RoundTrip Rat) := settled (-1) 0 [(0, 1), (0, 1)]

/-- The lines go down to the band's edge, and the prediction beyond it. -/
def descending : List (RoundTrip Rat) := settled 0 1 [(-1, 0), (-1, 0)]

/-- The 52nd skew of a descending run lies below the band, but by no more than another delay; and not
above it, since the lines have not crossed and the prediction is not above it either. -/
theorem skew_mem_of_bounded_delays_descending :
    (descending.Pairwise fun q r => q.remote < r.remote) ∧ (∀ r ∈ descending, r.Within 0 1) ∧
      ∃ e ∈ ((start : Estimator Rat).estimates descending)[51]?,
        e.skew ∈ Set.Icc (0 - 2 * 1 : Rat) (0 + 1) := by
  have hsorted : descending.Pairwise fun q r => q.remote < r.remote := by decide +kernel
  have hwithin : ∀ r ∈ descending, r.Within 0 1 := by decide +kernel
  have hq : descending[50]? = some (bounded 50 (-1) 0) := by decide +kernel
  have hr : descending[51]? = some (bounded 100 (-1) 0) := by decide +kernel
  have hlast : ∃ before ∈ ((start : Estimator Rat).estimates descending)[50]?,
      ∃ e ∈ ((start : Estimator Rat).estimates descending)[51]?,
        e.envelopeLower ≤ e.envelopeUpper ∧
          predicted before e (bounded 50 (-1) 0) (bounded 100 (-1) 0) ≤ 0 + 1 := by
    simp only [predicted]
    decide +kernel
  obtain ⟨before, hbefore, e, he, huncrossed, hpredicted⟩ := hlast
  obtain ⟨-, hskew, hlate⟩ := skew_mem_of_bounded_delays 0 1 hsorted hwithin
  refine ⟨hsorted, hwithin, e, he, (hskew 51 e he).2.1.1, ?_⟩
  exact (hlate 50 before e _ _ (Nat.le_refl 50) hbefore he hq hr).2 huncrossed hpredicted

/-- All delays are at most 1 and the offset is 0, but the 52nd skew lies outside the band. -/
def LeavesBand (trips : List (RoundTrip Rat)) : Prop :=
  (trips.Pairwise fun q r => q.remote < r.remote) ∧ (∀ r ∈ trips, r.Within 0 1) ∧
    ∃ e ∈ ((start : Estimator Rat).estimates trips)[51]?, e.skew ∉ Set.Icc (0 - 1 : Rat) (0 + 1)

/-- The band is left once since the lines have crossed, and on either side since the prediction
leaves it. -/
theorem skew_leaves_band :
    LeavesBand crossing ∧ LeavesBand ascending ∧ LeavesBand descending := by
  simp only [LeavesBand]
  decide +kernel

end Estimator

end PubSub.Skew

import PubSub.Proofs.Skew.Longest

/-!
# Cropping an envelope

An envelope that takes in a point is that of all its segments, merged, and then cropped if there
are too many (`Envelope.Follows.add?_eq`). Cropping takes away segments at the front that end before
a limit, and stops at the longest one. So the longest segment of what is left is the same one,
though at another place, and so is the line (`Envelope.cropping_keeps_line`).

That the search finds the same segment again rests on its rule for equally long ones: it finds the
first, and every segment in front of that one is shorter, be it dropped or not.

Points on a parabola are a run in which no segments merge, so that there are too many of them in the
end (`Envelope.exists_followsArc`).
-/

namespace PubSub.Skew.Envelope

variable {e whole : Envelope Rat} {points : List (Point Rat)} {p : Point Rat} {limit : Rat}
  {before after : List (Segment Rat)} {s : Segment Rat}

/-- An envelope is what cropping leaves of another one. -/
structure CropOf (e whole : Envelope Rat) (limit : Rat) : Prop where
  side : e.side = whole.side
  anchor : e.anchor = whole.anchor
  measurements : e.measurements = whole.measurements
  /-- What is left are the newer segments. The others end before the limit, and all are left unless
  there are too many. -/
  dropped : ∃ front, whole.segments = front ++ e.segments ∧ (∀ u ∈ front, u.last.x < limit) ∧
    (front ≠ [] → greatestSize < whole.segments.length)
  /-- If there are too many, then cropping goes on until the longest one or the limit. -/
  first : greatestSize < whole.segments.length → ∀ s, e.segments.head? = some s →
    e.longest? = some s ∨ limit ≤ s.last.x
  /-- The longest segment is left, and it is found again. -/
  longest : whole.segments ≠ [] → ∃ s ∈ e.segments, e.longest? = some s ∧ whole.longest? = some s ∧
    ∀ u ∈ whole.segments, u.last.x - u.first.x ≤ s.last.x - s.first.x
  line : e.line = whole.line

theorem Traces.longestPlace_grow? (h : e.Traces points) (hgrow : e.grow? p = some whole) :
    whole.longestPlace = longestIndex whole.segments := by
  rw [grow?] at hgrow
  cases hanchor : e.anchor with
  | none =>
    rw [hanchor] at hgrow
    obtain rfl := Option.some.inj hgrow
    exact h.longestPlace
  | some anchor =>
    rw [hanchor] at hgrow
    obtain ⟨newest, -, rfl⟩ := Option.map_eq_some_iff.1 hgrow
    rfl

/-- In a chain, the extent of a segment is its period. -/
theorem Follows.extent_le_of_period_le (h : e.Follows points) (hs : s ∈ e.segments)
    (hperiod : ∀ u ∈ e.segments, u.period ≤ s.period) :
    ∀ u ∈ e.segments, u.last.x - u.first.x ≤ s.last.x - s.first.x := by
  have hproper {u : Segment Rat} (hu : u ∈ e.segments) : u.Proper :=
    (h.hull.tight u (List.mem_reverse.1 hu)).proper
  intro u hu
  rw [← (hproper hu).period, ← (hproper hs).period]
  exact hperiod u hu

/-- Cropping takes away segments in front of the longest one, as far as they end before the limit,
and none unless there are too many. -/
theorem exists_segments_cropTo (hplace : e.longestPlace = longestIndex e.segments)
    (hsegments : e.segments = before ++ s :: after) (hs : FirstLongest before s after)
    (limit : Rat) :
    ∃ front kept, before = front ++ kept ∧ (e.cropTo limit).segments = kept ++ s :: after ∧
      (e.cropTo limit).longestPlace = longestIndex (e.cropTo limit).segments ∧
      (∀ u ∈ front, u.last.x < limit) ∧ (front ≠ [] → greatestSize < e.segments.length) ∧
      (greatestSize < e.segments.length → ∀ u, kept.head? = some u → limit ≤ u.last.x) := by
  by_cases hmany : greatestSize < e.segments.length
  case neg =>
    rw [cropTo, if_neg hmany]
    exact ⟨[], before, rfl, hsegments, hplace, by simp, fun hne => absurd rfl hne,
      fun hmany' => absurd hmany' hmany⟩
  case pos =>
    have hcrop : crop e.segments (longestIndex e.segments) limit =
        before.dropWhile (fun u => u.last.x < limit) ++ s :: after := by
      rw [hsegments, hs.crop_eq]
    rw [cropTo, if_pos hmany, hcrop]
    refine ⟨before.takeWhile fun u => u.last.x < limit, _, List.takeWhile_append_dropWhile.symm,
      List.reverse_reverse _, by rw [segments, List.reverse_reverse], fun u hu => ?_,
      fun _ => hmany, fun _ u hu => ?_⟩
    · have hends := List.mem_takeWhile_imp hu
      exact of_decide_eq_true hends
    · have hstop :=
        List.head?_dropWhile_not (fun u : Segment Rat => decide (u.last.x < limit)) before
      rw [hu] at hstop
      exact not_lt.1 (of_decide_eq_false hstop)

/-- In front of the longest segment only shorter ones are left, so it is the first one to be found
that no other is longer than. -/
theorem Follows.cropOf (h : whole.Follows points)
    (hplace : whole.longestPlace = longestIndex whole.segments) (limit : Rat) :
    (whole.cropTo limit).CropOf whole limit := by
  obtain ⟨hside, hanchor, hmeasurements⟩ := whole.cropTo_rest limit
  obtain hnil | hsome := eq_or_ne whole.segments []
  · have hfew : ¬ greatestSize < whole.segments.length := by
      rw [hnil]
      decide
    rw [Envelope.cropTo, if_neg hfew]
    exact {
      side := rfl
      anchor := rfl
      measurements := rfl
      dropped := ⟨[], rfl, by simp, fun hne => absurd rfl hne⟩
      first := fun hmany => absurd hmany hfew
      longest := fun hsome => absurd hnil hsome
      line := rfl }
  · obtain ⟨before, s, after, hsegments, hs⟩ := exists_firstLongest hsome
    obtain ⟨front, kept, rfl, hkept, hplace', hfront, hmany, hfirst⟩ :=
      exists_segments_cropTo hplace hsegments hs limit
    have hlongest := hs.longest? hplace hsegments
    have hlongest' := hs.of_append.longest? hplace' hkept
    have hmem : s ∈ whole.segments := hsegments ▸ List.mem_append_right _ (.head _)
    refine ⟨hside, hanchor, hmeasurements, ⟨front, ?_, hfront, hmany⟩, fun hmany u hu => ?_,
      fun _ => ⟨s, ?_, hlongest', hlongest, h.extent_le_of_period_le hmem (hsegments ▸ hs.le)⟩, ?_⟩
    · rw [hsegments, hkept, List.append_assoc]
    · rw [hkept] at hu
      cases kept with
      | nil => exact .inl (hlongest'.trans hu)
      | cons first kept => exact .inr (hfirst hmany u hu)
    · exact hkept ▸ List.mem_append_right _ (.head _)
    · rw [line, line, hlongest, hlongest']

/-! ## A run with too many segments -/

/-- A point on a parabola, which bends to one side everywhere. -/
def onParabola (i : Nat) : Point Rat := ⟨i, -(i * i)⟩

/-- The first points on the parabola. -/
def arc (n : Nat) : List (Point Rat × Rat) := (List.range n).map fun i => (onParabola i, 0)

/-- An envelope that has a segment from every point on the parabola to the next, up to this one. -/
structure FollowsArc (e : Envelope Rat) (n : Nat) : Prop where
  side : e.side = .above
  anchor : e.anchor = some (onParabola n)
  count : e.recent.length = n
  short : ∀ s ∈ e.recent, s.period = 1 ∧ s.last.x ≤ n
  slope : ∀ s, e.recent.head? = some s → -(2 * n : Rat) < s.line.slope

theorem onParabola_lt {i j : Nat} (h : i < j) : (onParabola i).x < (onParabola j).x :=
  Nat.cast_lt.2 h

theorem pairwise_arc {n m : Nat} (h : n ≤ m) :
    ((arc n).map Prod.fst ++ [onParabola m]).Pairwise fun q r => q.x < r.x := by
  rw [arc, List.map_map]
  refine List.pairwise_append.2 ⟨?_, List.pairwise_singleton .., ?_⟩
  · exact List.pairwise_map.2 (List.pairwise_lt_range.imp onParabola_lt)
  · intro q hq r hr
    obtain ⟨i, hi, rfl⟩ := List.mem_map.1 hq
    obtain rfl := List.mem_singleton.1 hr
    exact onParabola_lt ((List.mem_range.1 hi).trans_le h)

/-- The slope between two points on the parabola. -/
theorem between?_onParabola {n m : Nat} (h : n < m) :
    ∃ s, Segment.between? (onParabola n) (onParabola m) = some s ∧ s.last = onParabola m ∧
      s.period = m - n ∧ s.line.slope = -(n + m : Rat) := by
  obtain ⟨s, hs, hfirst, hlast, hproper⟩ := between?_of_lt (onParabola_lt h)
  have hrise := hproper.at_eq_first s.last.x
  have hperiod := hproper.period
  rw [hproper.at_last] at hrise
  rw [hfirst, hlast] at hrise hperiod
  refine ⟨s, hs, hlast, hperiod, ?_⟩
  have hne : (m - n : Rat) ≠ 0 := sub_ne_zero.2 (Nat.cast_injective.ne h.ne')
  refine mul_right_cancel₀ hne ?_
  calc s.line.slope * (m - n) = -(m * m) - -(n * n) := by
        rw [eq_sub_iff_add_eq, add_comm]
        exact hrise.symm
    _ = -(n + m) * (m - n) := by ring

/-- A point further on is joined by one more segment, and none merges with it. -/
theorem FollowsArc.grow {n m : Nat} (h : e.FollowsArc n) (hlt : n < m) :
    ∃ whole s, e.grow? (onParabola m) = some whole ∧ whole.side = .above ∧
      whole.anchor = some (onParabola m) ∧ whole.recent = s :: e.recent ∧
      s.last = onParabola m ∧ s.period = m - n ∧ s.line.slope = -(n + m : Rat) := by
  obtain ⟨s, hs, hlast, hperiod, hslope⟩ := between?_onParabola hlt
  have hmerge : merge e.side s e.recent = s :: e.recent := by
    cases hrecent : e.recent with
    | nil => rfl
    | cons previous older =>
      have hsteep := h.slope previous (by rw [hrecent, List.head?_cons])
      have hcast : (n : Rat) < m := Nat.cast_lt.2 hlt
      have hsteeper : s.line.slope < previous.line.slope := by
        rw [hslope]
        linarith
      have hbends : Side.above.bends previous s = true := decide_eq_true hsteeper
      rw [merge, h.side, if_pos hbends]
  have hgrow : e.grow? (onParabola m) = some {
      side := e.side
      recent := merge e.side s e.recent
      anchor := some (onParabola m)
      longestPlace := longestIndex (merge e.side s e.recent).reverse
      measurements := e.measurements + 1 } := by
    rw [grow?, h.anchor]
    dsimp only
    rw [hs, Option.map_some]
  exact ⟨_, s, hgrow, h.side, rfl, hmerge, hlast, hperiod, hslope⟩

theorem addAll?_concat {steps : List (Point Rat × Rat)} {e e' : Envelope Rat}
    (h : e.addAll? steps = some e') (p : Point Rat) (limit : Rat) :
    e.addAll? (steps ++ [(p, limit)]) = e'.add? p limit := by
  simp only [addAll?, List.foldlM_append, List.foldlM_cons, List.foldlM_nil, bind_pure] at h ⊢
  rw [h]
  rfl

/-- As many points as there may be segments are taken in without any cropping. -/
theorem exists_followsArc {n : Nat} (hn : n ≤ greatestSize) :
    ∃ e, addAll? { side := .above } (arc (n + 1)) = some e ∧ e.FollowsArc n := by
  induction n with
  | zero => exact ⟨_, rfl, rfl, rfl, rfl, by simp, by simp⟩
  | succ n ih =>
    obtain ⟨e, hadd, h⟩ := ih (Nat.le_of_succ_le hn)
    obtain ⟨whole, s, hgrow, hside, hanchor, hrecent, hlast, hperiod, hslope⟩ :=
      h.grow n.lt_succ_self
    have hcount : whole.recent.length = n + 1 := by rw [hrecent, List.length_cons, h.count]
    have hfew : ¬ greatestSize < whole.segments.length := by
      rw [segments, List.length_reverse, hcount]
      omega
    have hsplit : arc (n + 2) = arc (n + 1) ++ [(onParabola (n + 1), 0)] := by
      rw [arc, List.range_succ, List.map_append]
      rfl
    refine ⟨whole, ?_, hside, hanchor, hcount, fun u hu => ?_, fun u hu => ?_⟩
    · rw [hsplit, addAll?_concat hadd, add?_eq_of_anchor h.anchor, hgrow, Option.map_some, cropTo,
        if_neg hfew]
    · rw [Nat.cast_succ]
      rw [hrecent] at hu
      obtain rfl | hu := List.mem_cons.1 hu
      · exact ⟨by rw [hperiod, Nat.cast_succ]; ring, by rw [hlast]; exact (Nat.cast_succ n).le⟩
      · obtain ⟨hone, hends⟩ := h.short u hu
        exact ⟨hone, by linarith⟩
    · rw [hrecent, List.head?_cons] at hu
      obtain rfl := Option.some.inj hu
      rw [hslope, Nat.cast_succ]
      linarith

/-- If a longer segment comes behind as many as there may be, then it is all that cropping leaves of
them once they end before the limit. -/
theorem FollowsArc.segments_cropTo (h : e.FollowsArc greatestSize)
    (hrecent : whole.recent = s :: e.recent) (hperiod : 1 < s.period)
    (hlimit : (greatestSize : Rat) < limit) :
    greatestSize < whole.segments.length ∧ (whole.cropTo limit).segments = [s] := by
  have hmany : greatestSize < whole.segments.length := by
    rw [segments, List.length_reverse, hrecent, List.length_cons, h.count]
    exact Nat.lt_succ_self _
  have hsegments : whole.segments = e.segments ++ [s] := by
    rw [segments, hrecent, List.reverse_cons, segments]
  have hlongest : FirstLongest e.segments s [] := by
    refine ⟨fun u hu => ?_, by simp⟩
    rw [(h.short u (List.mem_reverse.1 hu)).1]
    exact hperiod
  have hnone : e.segments.dropWhile (fun u => u.last.x < limit) = [] := by
    refine List.dropWhile_eq_nil_iff.2 fun u hu => decide_eq_true ?_
    exact (h.short u (List.mem_reverse.1 hu)).2.trans_lt hlimit
  refine ⟨hmany, ?_⟩
  rw [cropTo, if_pos hmany, segments, List.reverse_reverse, hsegments, hlongest.crop_eq, hnone,
    List.nil_append]

/-! ## What is left -/

/-- An envelope of points that move to the right takes in one more. What it becomes is left by
cropping of what it would be with all its segments: only the newer segments, the longest among them,
and with the same line. -/
theorem cropping_keeps_line (side : Side) (steps : List (Point Rat × Rat)) (p : Point Rat)
    (limit : Rat) (h : (steps.map Prod.fst ++ [p]).Pairwise fun q r => q.x < r.x) :
    ∃ e whole cropped, addAll? { side } steps = some e ∧ e.grow? p = some whole ∧
      e.add? p limit = some cropped ∧ (steps ≠ [] → whole.segments ≠ []) ∧
      cropped.CropOf whole limit := by
  obtain ⟨hbefore, -, hp⟩ := List.pairwise_append.1 h
  obtain ⟨e, hadd, htraces⟩ := (traces_start side).addAll hbefore
  have hfollows := htraces.follows
  obtain ⟨whole, hgrow, -, hwhole⟩ := hfollows.grow hbefore fun q hq => hp q hq p (.head _)
  refine ⟨e, whole, whole.cropTo limit, hadd, hgrow, ?_, fun hsteps => ?_,
    hwhole.cropOf (htraces.longestPlace_grow? hgrow) limit⟩
  · rw [hfollows.add?_eq, hgrow, Option.map_some]
  · have hpos := List.length_pos_of_ne_nil hsteps
    refine List.reverse_eq_nil_iff.not.2 (hwhole.nonempty ?_)
    rw [List.nil_append, List.length_append, List.length_map, List.length_singleton]
    omega

/-- A point far behind as many segments as there may be is joined by the longest one. All others end
before the limit and are dropped. -/
theorem cropping_keeps_line_parabola :
    ((arc 501).map Prod.fst ++ [onParabola 2000]).Pairwise (fun q r => q.x < r.x) ∧
      ∃ e whole cropped, addAll? { side := .above } (arc 501) = some e ∧
        e.grow? (onParabola 2000) = some whole ∧
        e.add? (onParabola 2000) 2000 = some cropped ∧
        greatestSize < whole.segments.length ∧ cropped.segments.length = 1 ∧
        cropped.CropOf whole 2000 := by
  have hsorted := pairwise_arc (show 501 ≤ 2000 by decide)
  obtain ⟨e, whole, cropped, hadd, hgrow, hcropped, -, hcrop⟩ :=
    cropping_keeps_line .above (arc 501) (onParabola 2000) 2000 hsorted
  obtain ⟨e', hadd', h⟩ := exists_followsArc (n := greatestSize) le_rfl
  obtain rfl := Option.some.inj (hadd.symm.trans hadd')
  obtain ⟨whole', s, hgrow', -, -, hrecent, -, hperiod, -⟩ :=
    h.grow (show greatestSize < 2000 by decide)
  obtain rfl := Option.some.inj (hgrow.symm.trans hgrow')
  have hsize : (greatestSize : Rat) = 500 := rfl
  have hlonger : 1 < s.period := by
    rw [hperiod, hsize]
    norm_num
  have hlimit : (greatestSize : Rat) < 2000 := by
    rw [hsize]
    norm_num
  obtain ⟨hmany, hleft⟩ := h.segments_cropTo hrecent hlonger hlimit
  have heq : cropped = whole.cropTo 2000 := by
    rw [add?_eq_of_anchor h.anchor, hgrow, Option.map_some] at hcropped
    exact (Option.some.inj hcropped).symm
  refine ⟨hsorted, e, whole, cropped, hadd, hgrow, hcropped, hmany, ?_, hcrop⟩
  rw [heq, hleft, List.length_singleton]

end PubSub.Skew.Envelope

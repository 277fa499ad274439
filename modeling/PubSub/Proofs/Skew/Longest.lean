import PubSub.Proofs.Skew.Envelope

/-!
# The line of the longest segment

An envelope's line is that of its longest segment (`Envelope.Traces.exists_longest`), extended to
the newest point. Since the chain bends away from it, the line lies beyond that point there
(`Envelope.Traces.bounds_newest`). How far beyond has to do with the number of segments: each newer
one is no longer than the longest, so the line goes on for at most as many times its own extent
(`Hull.extent_le`, `Envelope.Traces.valueAt_le`).
-/

namespace PubSub.Skew

variable {side : Side} {points : List (Point Rat)} {chain older : List (Segment Rat)}
  {newest s : Segment Rat}

/-! ## Lines extended to the newest point -/

theorem Side.Bounds.add {a b c d : Rat} (h : side.Bounds a b) (h' : side.Bounds c d) :
    side.Bounds (a + c) (b + d) := by
  cases side
  · exact add_le_add (α := Rat) h h'
  · exact add_le_add (α := Rat) h h'

theorem Side.Bounds.mul {a b c : Rat} (h : side.Bounds a b) (hc : 0 ≤ c) :
    side.Bounds (a * c) (b * c) := by
  cases side
  · exact mul_le_mul_of_nonneg_right (α := Rat) h hc
  · exact mul_le_mul_of_nonneg_right (α := Rat) h hc

theorem Side.bounds_of_bends {previous next : Segment Rat} (h : side.bends previous next = true) :
    side.Bounds next.line.slope previous.line.slope := by
  cases side
  · exact le_of_lt (α := Rat) (of_decide_eq_true h)
  · exact le_of_lt (α := Rat) (of_decide_eq_true h)

/-- The line of any segment of a chain lies beyond the newest point, since the chain bends away from
it; the slopes say so for what is still to come. -/
theorem Hull.bounds_newest (h : Hull side points (newest :: older)) (hs : s ∈ newest :: older) :
    side.Bounds newest.line.slope s.line.slope ∧
      side.Bounds newest.last.y (s.line.at newest.last.x) := by
  have hnewest := (h.tight newest (.head _)).proper
  have hself : side.Bounds newest.last.y (newest.line.at newest.last.x) := by
    rw [hnewest.at_last]
    exact .refl ..
  induction older generalizing newest with
  | nil =>
    obtain rfl := List.mem_singleton.1 hs
    exact ⟨.refl .., hself⟩
  | cons previous older ih =>
    obtain rfl | hs := List.mem_cons.1 hs
    · exact ⟨.refl .., hself⟩
    · have hprevious := (h.tight previous (.tail _ (.head _))).proper
      obtain ⟨hjoint, hbends⟩ := (List.isChain_cons_cons.1 h.joined).1
      obtain ⟨hslope, hvalue⟩ := ih (h.of_suffix (List.suffix_cons ..)) hs hprevious
        (hprevious.at_last ▸ .refl ..)
      have hsteeper := (Side.bounds_of_bends hbends).trans hslope
      have hline : s.line.at newest.last.x =
          s.line.at newest.first.x + s.line.slope * (newest.last.x - newest.first.x) := by
        rw [Line.at_eq, Line.at_eq]
        ring
      rw [hjoint] at hvalue
      refine ⟨hsteeper, ?_⟩
      rw [← hnewest.at_last, hnewest.at_eq_first, hline]
      exact hvalue.add (hsteeper.mul (sub_nonneg.2 hnewest.lt.le))

/-- From the end of a segment to the newest point it is at most as far as the newer segments are
long. -/
theorem Hull.extent_le (h : Hull side points (newest :: older)) {period : Rat}
    (hperiod : ∀ u ∈ newest :: older, u.period ≤ period) (hs : s ∈ newest :: older) :
    newest.last.x - s.last.x ≤ older.length * period := by
  induction older generalizing newest with
  | nil =>
    obtain rfl := List.mem_singleton.1 hs
    simp
  | cons previous older ih =>
    obtain ⟨hnewest, hothers⟩ := List.forall_mem_cons.1 hperiod
    have hproper := (h.tight newest (.head _)).proper
    have hpos : 0 < period := lt_of_lt_of_le (hproper.period ▸ sub_pos.2 hproper.lt) hnewest
    obtain rfl | hs := List.mem_cons.1 hs
    · rw [sub_self]
      positivity
    · have hrest := ih (h.of_suffix (List.suffix_cons ..)) hothers hs
      have hjoint := (List.isChain_cons_cons.1 h.joined).1.1
      rw [hproper.period] at hnewest
      rw [List.length_cons, Nat.cast_succ]
      rw [hjoint] at hrest
      linarith

/-- If all points lie in a band, then a segment rises or falls by no more than its width. -/
theorem Segment.Tight.abs_rise_le (h : s.Tight side points) {low high : Rat}
    (hpoints : ∀ p ∈ points, low ≤ p.y ∧ p.y ≤ high) : |s.line.slope * s.period| ≤ high - low := by
  have hrise : s.line.slope * s.period = s.last.y - s.first.y := by
    rw [h.proper.period, ← h.proper.at_last, h.proper.at_eq_first]
    ring
  obtain ⟨hfirst, hfirst'⟩ := hpoints s.first h.first_mem
  obtain ⟨hlast, hlast'⟩ := hpoints s.last h.last_mem
  rw [hrise, abs_le]
  constructor <;> linarith

/-- A rate that gives no more than `width` over a period gives no more than `k` times that over `k`
such periods. -/
theorem abs_mul_le_of_le {rate period width extent : Rat} {k : Nat}
    (h : |rate * period| ≤ width) (hextent : 0 ≤ extent) (hle : extent ≤ k * period) :
    |rate * extent| ≤ k * width := by
  calc |rate * extent| = |rate| * extent := by rw [abs_mul, abs_of_nonneg hextent]
    _ ≤ |rate| * (k * period) := mul_le_mul_of_nonneg_left hle (abs_nonneg _)
    _ = k * (|rate| * period) := by ring
    _ ≤ k * |rate * period| := by
      rw [abs_mul]
      gcongr
      exact le_abs_self _
    _ ≤ k * width := mul_le_mul_of_nonneg_left h (Nat.cast_nonneg k)

/-! ## Envelopes and their lines -/

/-- Merging makes no more segments than one. -/
theorem length_merge_le (side : Side) (newest : Segment Rat) (chain : List (Segment Rat)) :
    (merge side newest chain).length ≤ chain.length + 1 := by
  fun_induction merge side newest chain with
  | case1 newest => exact Nat.le_refl _
  | case2 newest previous older hbends => exact Nat.le_refl _
  | case3 newest previous older hbends hnone => exact Nat.le_refl _
  | case4 newest previous older hbends s hs ih => exact Nat.le_succ_of_le ih

/-- The longest segment of an envelope that knows its place. -/
theorem FirstLongest.longest? {e : Envelope Rat} {before after : List (Segment Rat)}
    (h : FirstLongest before s after) (hplace : e.longestPlace = longestIndex e.segments)
    (hsegments : e.segments = before ++ s :: after) : e.longest? = some s := by
  rw [Envelope.longest?, hplace, hsegments, h.longestIndex_eq]
  simp

namespace Envelope

/-- What an envelope knows of these points, with its numbers. -/
structure Traces (e : Envelope Rat) (points : List (Point Rat)) : Prop where
  follows : e.Follows points
  measurements : e.measurements = points.length - 1
  longestPlace : e.longestPlace = longestIndex e.segments
  length_le : e.recent.length ≤ points.length - 1

theorem traces_start (side : Side) : Traces { side } [] where
  follows := {
    anchor := rfl
    hull := { tight := by simp, joined := .nil }
    joined := by simp
    nonempty := by simp }
  measurements := rfl
  longestPlace := rfl
  length_le := Nat.le_refl _

/-- A point behind another counts as one measurement and gives one more segment at most. -/
theorem counts_of_add? {e e' : Envelope Rat} {anchor p : Point Rat} {limit : Rat}
    (h : e.anchor = some anchor) (hadd : e.add? p limit = some e') :
    e'.measurements = e.measurements + 1 ∧ e'.longestPlace = longestIndex e'.segments ∧
      e'.recent.length ≤ e.recent.length + 1 := by
  rw [add?, h] at hadd
  obtain ⟨newest, -, rfl⟩ := Option.map_eq_some_iff.1 hadd
  refine ⟨rfl, by rw [segments, List.reverse_reverse], ?_⟩
  have hmerged := length_merge_le e.side newest e.recent
  dsimp only
  rw [List.length_reverse]
  split
  · rw [crop, List.length_drop, List.length_reverse]
    omega
  · rwa [List.length_reverse]

/-- One more point to the right of all others is taken in. -/
theorem Traces.add {e : Envelope Rat} (h : e.Traces points)
    (hsorted : points.Pairwise fun q r => q.x < r.x) {p : Point Rat}
    (hp : ∀ q ∈ points, q.x < p.x) (limit : Rat) :
    ∃ e', e.add? p limit = some e' ∧ e'.side = e.side ∧ e'.Traces (points ++ [p]) := by
  obtain ⟨e', hadd, hside, hfollows⟩ := h.follows.add hsorted hp limit
  refine ⟨e', hadd, hside, ?_⟩
  cases hanchor : e.anchor with
  | none =>
    obtain rfl : points = [] := List.getLast?_eq_none_iff.1 (h.follows.anchor.symm.trans hanchor)
    rw [add?, hanchor] at hadd
    obtain rfl := Option.some.inj hadd
    exact ⟨hfollows, h.measurements, h.longestPlace, h.length_le⟩
  | some anchor =>
    have hpos : 0 < points.length :=
      List.length_pos_of_mem (List.mem_of_getLast? (h.follows.anchor.symm.trans hanchor))
    obtain ⟨hcount, hlongest, hmany⟩ := counts_of_add? hanchor hadd
    have hcount' := h.measurements
    have hmany' := h.length_le
    refine ⟨hfollows, ?_, hlongest, ?_⟩ <;>
    · rw [List.length_append, List.length_singleton]
      omega

/-- Points that move to the right are all taken in. -/
theorem Traces.addAll {e : Envelope Rat} (h : e.Traces points) {steps : List (Point Rat × Rat)}
    (hsorted : (points ++ steps.map Prod.fst).Pairwise fun q r => q.x < r.x) :
    ∃ e', e.addAll? steps = some e' ∧ e'.Traces (points ++ steps.map Prod.fst) := by
  refine addAll_induction (fun {e₁ before} htraces hbefore p hp limit => ?_) h hsorted
  obtain ⟨e₂, hadd, -, htraces'⟩ := htraces.add hbefore hp limit
  exact ⟨e₂, hadd, htraces'⟩

/-- From the second point on, the line is that of a longest segment of a chain, which has no more
segments than there are steps between the points. -/
theorem Traces.exists_longest {e : Envelope Rat} (h : e.Traces points)
    (hmany : 2 ≤ points.length) :
    ∃ newest older s, Hull e.side points (newest :: older) ∧
      points.getLast? = some newest.last ∧ older.length + 2 ≤ points.length ∧
      s ∈ newest :: older ∧ e.line = s.line ∧ ∀ u ∈ newest :: older, u.period ≤ s.period := by
  obtain ⟨newest, older, hrecent⟩ := List.exists_cons_of_ne_nil (h.follows.nonempty hmany)
  have hsome : e.segments ≠ [] := by
    rw [segments, hrecent]
    exact List.reverse_eq_nil_iff.not.2 (List.cons_ne_nil _ _)
  obtain ⟨before, s, after, hsegments, hs⟩ := exists_firstLongest hsome
  have hlongest := hs.longest? h.longestPlace hsegments
  have hmem : s ∈ e.segments := hsegments ▸ List.mem_append_right _ (.head _)
  have hlast := h.follows.joined newest (by rw [hrecent, List.head?_cons])
  have hlength := h.length_le
  rw [hrecent, List.length_cons] at hlength
  refine ⟨newest, older, s, hrecent ▸ h.follows.hull, hlast, by omega, ?_, by rw [line, hlongest], ?_⟩
  · rw [← hrecent]
    exact List.mem_reverse.1 hmem
  · rw [← hrecent]
    exact fun u hu => hs.le u (hsegments ▸ List.mem_reverse.2 hu)

/-- If all points lie on one line, then that is the line from the second one on. -/
theorem Traces.collinear {e : Envelope Rat} (h : e.Traces points) (hmany : 2 ≤ points.length)
    {slope intercept : Rat} (hpoints : ∀ p ∈ points, p.y = slope * p.x + intercept) :
    e.line.slope = slope ∧ ∀ x, e.valueAt x = slope * x + intercept := by
  obtain ⟨newest, older, s, hull, -, -, hs, hline, -⟩ := h.exists_longest hmany
  have htight := hull.tight s hs
  have hfirst := hpoints s.first htight.first_mem
  have hlast := hpoints s.last htight.last_mem
  have hlength := sub_pos.2 htight.proper.lt
  have hrise : s.line.slope * (s.last.x - s.first.x) = slope * (s.last.x - s.first.x) := by
    have hends := htight.proper.at_eq_first s.last.x
    rw [htight.proper.at_last] at hends
    linarith
  have hslope : s.line.slope = slope := mul_right_cancel₀ hlength.ne' hrise
  refine ⟨hline ▸ hslope, fun x => ?_⟩
  rw [valueAt, hline, htight.proper.at_eq_last, hslope, hlast]
  ring

section Newest

variable {e : Envelope Rat} {before : List (Point Rat)} {p q : Point Rat} {low high : Rat}

theorem two_le_length_concat (hq : before.getLast? = some q) : 2 ≤ (before ++ [p]).length := by
  have hlength : 0 < before.length := List.length_pos_of_mem (List.mem_of_getLast? hq)
  rw [List.length_append, List.length_singleton]
  omega

/-- The line lies beyond the newest point. -/
theorem Traces.bounds_newest (h : e.Traces (before ++ [p])) (hq : before.getLast? = some q) :
    e.side.Bounds p.y (e.valueAt p.x) := by
  obtain ⟨newest, older, s, hull, hend, -, hs, hline, -⟩ :=
    h.exists_longest (two_le_length_concat hq)
  rw [List.getLast?_concat] at hend
  obtain rfl : p = newest.last := Option.some.inj hend
  rw [valueAt, hline]
  exact (hull.bounds_newest hs).2

/-- If all points lie in a band, then at the newest one the line is no higher above it than its width
for each point before. -/
theorem Traces.valueAt_le (h : e.Traces (before ++ [p]))
    (hsorted : (before ++ [p]).Pairwise fun q r => q.x < r.x) (hq : before.getLast? = some q)
    (hband : ∀ r ∈ before ++ [p], low ≤ r.y ∧ r.y ≤ high) :
    e.valueAt p.x ≤ high + before.length * (high - low) := by
  obtain ⟨newest, older, s, hull, hend, hmany, hs, hline, hlongest⟩ :=
    h.exists_longest (two_le_length_concat hq)
  rw [List.getLast?_concat] at hend
  obtain rfl : p = newest.last := Option.some.inj hend
  have htight := hull.tight s hs
  have hrise := htight.abs_rise_le hband
  have hlast := le_newest hsorted List.getLast?_concat htight.last_mem
  have holder : (older.length : Rat) ≤ before.length := by
    rw [List.length_append, List.length_singleton] at hmany
    exact_mod_cast (by omega : older.length ≤ before.length)
  have hbeyond : s.line.slope * (newest.last.x - s.last.x) ≤ before.length * (high - low) :=
    calc s.line.slope * (newest.last.x - s.last.x)
        ≤ |s.line.slope * (newest.last.x - s.last.x)| := le_abs_self _
      _ ≤ older.length * (high - low) :=
        abs_mul_le_of_le hrise (sub_nonneg.2 hlast) (hull.extent_le hlongest hs)
      _ ≤ before.length * (high - low) :=
        mul_le_mul_of_nonneg_right holder ((abs_nonneg _).trans hrise)
  have hy := (hband s.last htight.last_mem).2
  rw [valueAt, hline, htight.proper.at_eq_last]
  linarith

/-- If all points lie in a band, then since the point before the line has risen or fallen by no more
than its width. -/
theorem Traces.abs_rise_le (h : e.Traces (before ++ [p]))
    (hsorted : (before ++ [p]).Pairwise fun q r => q.x < r.x) (hq : before.getLast? = some q)
    (hband : ∀ r ∈ before ++ [p], low ≤ r.y ∧ r.y ≤ high) :
    |e.line.slope * (p.x - q.x)| ≤ high - low := by
  obtain ⟨newest, older, s, hull, hend, -, hs, hline, hlongest⟩ :=
    h.exists_longest (two_le_length_concat hq)
  rw [List.getLast?_concat] at hend
  obtain rfl : p = newest.last := Option.some.inj hend
  obtain ⟨hbefore, -, hp⟩ := List.pairwise_append.1 hsorted
  have hnewest := hull.tight newest (.head _)
  -- The newest segment begins at the point before or even further back, and no other is longer.
  have hfirst : newest.first.x ≤ q.x := by
    obtain hfirst | hfirst := List.mem_append.1 hnewest.first_mem
    · exact le_newest hbefore hq hfirst
    · exact absurd hnewest.proper.lt (by rw [List.mem_singleton.1 hfirst]; exact lt_irrefl _)
  have hperiod : newest.last.x - q.x ≤ s.period := by
    have hnewestPeriod := hlongest newest (.head _)
    rw [hnewest.proper.period] at hnewestPeriod
    linarith
  have hstep := hp q (List.mem_of_getLast? hq) newest.last (.head _)
  have hrise := abs_mul_le_of_le (k := 1) ((hull.tight s hs).abs_rise_le hband)
    (sub_nonneg.2 hstep.le) (by rwa [Nat.cast_one, one_mul])
  rwa [hline, ← one_mul (high - low), ← Nat.cast_one]

end Newest

end Envelope

end PubSub.Skew

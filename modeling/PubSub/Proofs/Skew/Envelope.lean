import Mathlib
import PubSub.Skew.Envelope

/-!
# Envelopes in exact arithmetic

Points that move to the right are all taken into an envelope, and the envelope is then the convex
chain over them (`Envelope.encloses_of_increasing`): its segments join, they bend to one side only,
and no point lies beyond the chain, as far back as it has been kept.

The invariant is `Skew.Hull`, of the chain with its newest segment first, as `merge` goes through
it. When two segments merge, the new one lies beyond both of them, since the joint between them bent
the wrong way (`Skew.bounds_mergedLine`); so what they bounded is bounded by it.

Adding a point and cropping are taken apart: an envelope first gets a segment to the point
(`Envelope.grow?`), and then may lose some at its front (`Envelope.cropTo`). Cropping goes by the
first one of the longest segments (`Skew.FirstLongest`), which is never lost.
-/

namespace PubSub.Skew

variable {side : Side} {points : List (Point Rat)} {chain : List (Segment Rat)}

/-! ## Sides -/

/-- A point at height `y` does not lie beyond an envelope of this side that is at height `bound`. -/
def Side.Bounds (side : Side) (y bound : Rat) : Prop :=
  match side with
  | .above => y ≤ bound
  | .below => bound ≤ y

/-- The slopes of a chain that bends to one side only. -/
def Side.Sorted (side : Side) (slopes : List Rat) : Prop :=
  match side with
  | .above => slopes.Pairwise (· > ·)
  | .below => slopes.Pairwise (· < ·)

theorem Side.Bounds.refl (side : Side) (y : Rat) : side.Bounds y y := by
  cases side <;> exact le_refl y

theorem Side.Bounds.trans {a b c : Rat} (h : side.Bounds a b) (h' : side.Bounds b c) :
    side.Bounds a c := by
  cases side
  · exact le_trans (α := Rat) h h'
  · exact le_trans (α := Rat) h' h

/-! ## Segments -/

/-- A piece of the line through its ends, from the left to the right. -/
structure Segment.Proper (s : Segment Rat) : Prop where
  lt : s.first.x < s.last.x
  at_first : s.line.at s.first.x = s.first.y
  at_last : s.line.at s.last.x = s.last.y
  period : s.period = s.last.x - s.first.x

/-- A segment lies over `x`. -/
def Segment.Spans (s : Segment Rat) (x : Rat) : Prop := s.first.x ≤ x ∧ x ≤ s.last.x

theorem Line.at_eq (l : Line Rat) (x : Rat) : l.at x = l.slope * x + l.intercept := rfl

/-- Two points are joined by a segment if the second lies to the right of the first. -/
theorem between?_of_lt {p q : Point Rat} (h : p.x < q.x) :
    ∃ s, Segment.between? p q = some s ∧ s.first = p ∧ s.last = q ∧ s.Proper := by
  have hdiff : q.x - p.x ≠ 0 := sub_ne_zero.2 h.ne'
  have hsame : ¬ Scalar.same p.x q.x := by
    show ¬ decide (p.x = q.x) = true
    simpa using h.ne
  refine ⟨_, if_neg hsame, rfl, rfl, h, ?_, ?_, ?_⟩
  · show (q.y - p.y) / (q.x - p.x) * p.x + (q.y - (q.y - p.y) / (q.x - p.x) * q.x) = p.y
    field_simp
    ring
  · show (q.y - p.y) / (q.x - p.x) * q.x + (q.y - (q.y - p.y) / (q.x - p.x) * q.x) = q.y
    ring
  · show (if q.x - p.x < 0 then -(q.x - p.x) else q.x - p.x) = q.x - p.x
    exact if_neg (not_lt.2 (sub_nonneg.2 h.le))

namespace Segment.Proper

variable {s : Segment Rat}

theorem at_eq_first (h : s.Proper) (x : Rat) :
    s.line.at x = s.first.y + s.line.slope * (x - s.first.x) := by
  rw [← h.at_first, Line.at_eq, Line.at_eq]
  ring

theorem at_eq_last (h : s.Proper) (x : Rat) :
    s.line.at x = s.last.y - s.line.slope * (s.last.x - x) := by
  rw [← h.at_last, Line.at_eq, Line.at_eq]
  ring

end Segment.Proper

/-- The line from the first point of one segment to the last point of the next has the mean of their
slopes, each weighted with its extent. -/
theorem slope_mergedLine {a b c : Segment Rat} (ha : a.Proper) (hb : b.Proper) (hc : c.Proper)
    (hjoint : a.last = b.first) (hfirst : c.first = a.first) (hlast : c.last = b.last) :
    c.line.slope * ((a.last.x - a.first.x) + (b.last.x - b.first.x)) =
      a.line.slope * (a.last.x - a.first.x) + b.line.slope * (b.last.x - b.first.x) := by
  have hrise {s : Segment Rat} (hs : s.Proper) :
      s.line.slope * (s.last.x - s.first.x) = s.last.y - s.first.y := by
    rw [← hs.at_last, hs.at_eq_first]
    ring
  have hextent : (a.last.x - a.first.x) + (b.last.x - b.first.x) = c.last.x - c.first.x := by
    rw [hfirst, hlast, hjoint]
    ring
  rw [hextent, hrise ha, hrise hb, hrise hc, hfirst, hlast, hjoint]
  ring

/-- A weighted mean lies between the two numbers. -/
theorem between_of_mean {a b c u v : Rat} (hu : 0 < u) (hv : 0 < v)
    (hc : c * (u + v) = a * u + b * v) (hab : a ≤ b) : a ≤ c ∧ c ≤ b := by
  constructor <;> nlinarith

/-- If the joint of two segments bends the wrong way, then the line from the first point of the one
to the last point of the other lies beyond both, from the first point on and up to the last. -/
theorem bounds_mergedLine {a b c : Segment Rat} (ha : a.Proper) (hb : b.Proper) (hc : c.Proper)
    (hjoint : a.last = b.first) (hfirst : c.first = a.first) (hlast : c.last = b.last)
    (hbends : side.bends a b = false) (x : Rat) :
    (a.first.x ≤ x → side.Bounds (a.line.at x) (c.line.at x)) ∧
      (x ≤ b.last.x → side.Bounds (b.line.at x) (c.line.at x)) := by
  have hmean := slope_mergedLine ha hb hc hjoint hfirst hlast
  have hu : 0 < a.last.x - a.first.x := sub_pos.2 ha.lt
  have hv : 0 < b.last.x - b.first.x := sub_pos.2 hb.lt
  have hca : c.line.at x = a.first.y + c.line.slope * (x - a.first.x) := by
    rw [hc.at_eq_first, hfirst]
  have hcb : c.line.at x = b.last.y - c.line.slope * (b.last.x - x) := by
    rw [hc.at_eq_last, hlast]
  cases side with
  | above =>
    have hab : a.line.slope ≤ b.line.slope := not_lt.1 (of_decide_eq_false hbends)
    obtain ⟨hac, hcb'⟩ := between_of_mean hu hv hmean hab
    constructor <;> intro hx
    · show a.line.at x ≤ c.line.at x
      rw [ha.at_eq_first, hca]
      nlinarith
    · show b.line.at x ≤ c.line.at x
      rw [hb.at_eq_last, hcb]
      nlinarith
  | below =>
    have hba : b.line.slope ≤ a.line.slope := not_lt.1 (of_decide_eq_false hbends)
    obtain ⟨hbc, hca'⟩ := between_of_mean hv hu (by rw [add_comm, hmean, add_comm]) hba
    constructor <;> intro hx
    · show c.line.at x ≤ a.line.at x
      rw [ha.at_eq_first, hca]
      nlinarith
    · show c.line.at x ≤ b.line.at x
      rw [hb.at_eq_last, hcb]
      nlinarith

/-! ## Chains -/

/-- A segment between two of the points that no point lies beyond. -/
structure Segment.Tight (side : Side) (points : List (Point Rat)) (s : Segment Rat) : Prop where
  proper : s.Proper
  first_mem : s.first ∈ points
  last_mem : s.last ∈ points
  bounds : ∀ p ∈ points, s.Spans p.x → side.Bounds p.y (s.line.at p.x)

/-- A convex chain over the points, with its newest segment first. -/
structure Hull (side : Side) (points : List (Point Rat)) (chain : List (Segment Rat)) : Prop where
  tight : ∀ s ∈ chain, s.Tight side points
  joined : chain.IsChain fun next previous =>
    previous.last = next.first ∧ side.bends previous next = true

/-- The newer segments of a chain are a chain. -/
theorem Hull.of_prefix {newer : List (Segment Rat)} (h : Hull side points chain)
    (hnewer : newer <+: chain) : Hull side points newer where
  tight s hs := h.tight s (hnewer.subset hs)
  joined := h.joined.prefix hnewer

/-- The older segments of a chain are a chain. -/
theorem Hull.of_suffix {older : List (Segment Rat)} (h : Hull side points chain)
    (holder : older <:+ chain) : Hull side points older where
  tight s hs := h.tight s (holder.subset hs)
  joined := h.joined.suffix holder

/-- A point to the right of all others leaves their chain as it is. -/
theorem Hull.concat (h : Hull side points chain) {p : Point Rat} (hp : ∀ q ∈ points, q.x < p.x) :
    Hull side (points ++ [p]) chain where
  tight s hs :=
    have hs := h.tight s hs
    { proper := hs.proper
      first_mem := List.mem_append_left _ hs.first_mem
      last_mem := List.mem_append_left _ hs.last_mem
      bounds := fun q hq hspans => by
        obtain hq | hq := List.mem_append.1 hq
        · exact hs.bounds q hq hspans
        · obtain rfl := List.mem_singleton.1 hq
          exact absurd hspans.2 (not_le.2 (hp _ hs.last_mem)) }
  joined := h.joined

/-- The first point of a segment and the last one of the next are joined by a segment. -/
theorem between?_of_joined {a b : Segment Rat} (ha : a.Proper) (hb : b.Proper)
    (hjoint : a.last = b.first) :
    ∃ s, Segment.between? a.first b.last = some s ∧ s.first = a.first ∧ s.last = b.last ∧
      s.Proper :=
  between?_of_lt (lt_trans ha.lt (hjoint ▸ hb.lt))

/-- Two segments with a joint that bends the wrong way give a tight one. -/
theorem tight_merged {a b c : Segment Rat} (ha : a.Tight side points) (hb : b.Tight side points)
    (hc : c.Proper) (hjoint : a.last = b.first) (hfirst : c.first = a.first)
    (hlast : c.last = b.last) (hbends : side.bends a b = false) :
    { c with period := a.period + b.period }.Tight side points where
  proper :=
    { hc with
      period := by
        show a.period + b.period = c.last.x - c.first.x
        rw [ha.proper.period, hb.proper.period, hfirst, hlast, hjoint]
        ring }
  first_mem := hfirst ▸ ha.first_mem
  last_mem := hlast ▸ hb.last_mem
  bounds p hp hspans := by
    obtain ⟨hleft, hright⟩ : c.first.x ≤ p.x ∧ p.x ≤ c.last.x := hspans
    obtain ⟨hbeyond, hbeyond'⟩ :=
      bounds_mergedLine ha.proper hb.proper hc hjoint hfirst hlast hbends p.x
    rw [hfirst] at hleft
    rw [hlast] at hright
    -- The point lies under one of the two segments, on either side of their joint.
    obtain hmid | hmid := le_total p.x a.last.x
    · exact (ha.bounds p hp ⟨hleft, hmid⟩).trans (hbeyond hleft)
    · exact (hb.bounds p hp ⟨hjoint ▸ hmid, hright⟩).trans (hbeyond' hright)

/-- Merging a new segment into a chain gives a chain that ends where the segment does. -/
theorem Hull.merge {newest : Segment Rat} (h : Hull side points chain)
    (hnewest : newest.Tight side points)
    (hjoint : ∀ s, chain.head? = some s → s.last = newest.first) :
    Hull side points (Skew.merge side newest chain) ∧
      ((Skew.merge side newest chain).head?).map (·.last) = some newest.last := by
  fun_induction Skew.merge side newest chain with
  | case1 newest => exact ⟨⟨List.forall_mem_singleton.2 hnewest, .singleton _⟩, rfl⟩
  | case2 newest previous older hbends =>
    refine ⟨⟨List.forall_mem_cons.2 ⟨hnewest, h.tight⟩, ?_⟩, rfl⟩
    exact .cons_cons ⟨hjoint previous rfl, hbends⟩ h.joined
  | case3 newest previous older hbends hnone =>
    obtain ⟨s, hs, -⟩ := between?_of_joined (h.tight previous (.head _)).proper hnewest.proper
      (hjoint previous rfl)
    rw [hnone] at hs
    cases hs
  | case4 newest previous older hbends s hs ih =>
    have hprevious := h.tight previous (.head _)
    have hmid := hjoint previous rfl
    obtain ⟨t, ht, hfirst, hlast, hproper⟩ :=
      between?_of_joined hprevious.proper hnewest.proper hmid
    obtain rfl := Option.some.inj (hs.symm.trans ht)
    have hmerged := tight_merged hprevious hnewest hproper hmid hfirst hlast
      (Bool.eq_false_iff.2 hbends)
    obtain ⟨hhull, hend⟩ := ih (h.of_suffix (List.suffix_cons ..)) hmerged fun t ht => by
      rw [hfirst]
      exact (h.joined.rel_head? ht).1
    exact ⟨hhull, by rw [hend, hlast]⟩

/-- A chain lies over every `x` between its ends. -/
theorem Hull.exists_spans {newest : Segment Rat} (h : Hull side points (newest :: chain)) {x : Rat}
    (hstart : ∀ s, (newest :: chain).getLast? = some s → s.first.x ≤ x) (hend : x ≤ newest.last.x) :
    ∃ s ∈ newest :: chain, s.Spans x := by
  induction chain generalizing newest with
  | nil => exact ⟨newest, .head _, hstart newest rfl, hend⟩
  | cons previous older ih =>
    obtain hx | hx := le_total newest.first.x x
    · exact ⟨newest, .head _, hx, hend⟩
    · have hmid := (List.isChain_cons_cons.1 h.joined).1.1
      obtain ⟨s, hs, hspans⟩ := ih (h.of_suffix (List.suffix_cons ..))
        (fun s hs => hstart s (List.getLast?_cons_cons.trans hs)) (hmid ▸ hx)
      exact ⟨s, .tail _ hs, hspans⟩

/-- The slopes of a chain that bends the right way at every joint. -/
theorem sorted_of_bends {segments : List (Segment Rat)}
    (h : segments.IsChain fun s t => side.bends s t = true) :
    side.Sorted (segments.map fun s => s.line.slope) := by
  cases side with
  | above =>
    refine List.IsChain.pairwise ((List.isChain_map _).2 (h.imp fun s t hst => ?_))
    exact of_decide_eq_true hst
  | below =>
    refine List.IsChain.pairwise ((List.isChain_map _).2 (h.imp fun s t hst => ?_))
    exact of_decide_eq_true hst

/-! ## Cropping -/

/-- A segment is the first one of these that no other is longer than. -/
structure FirstLongest (before : List (Segment Rat)) (s : Segment Rat)
    (after : List (Segment Rat)) : Prop where
  before : ∀ u ∈ before, u.period < s.period
  after : ∀ u ∈ after, u.period ≤ s.period

section

variable {before after : List (Segment Rat)} {s : Segment Rat}

theorem FirstLongest.le (h : FirstLongest before s after) :
    ∀ u ∈ before ++ s :: after, u.period ≤ s.period :=
  List.forall_mem_append.2
    ⟨fun u hu => (h.before u hu).le, List.forall_mem_cons.2 ⟨le_rfl, h.after⟩⟩

/-- It stays the first one if some in front of it are dropped. -/
theorem FirstLongest.of_append {front kept : List (Segment Rat)}
    (h : FirstLongest (front ++ kept) s after) : FirstLongest kept s after :=
  ⟨fun u hu => h.before u (List.mem_append_right _ hu), h.after⟩

theorem exists_firstLongest {segments : List (Segment Rat)} (h : segments ≠ []) :
    ∃ before s after, segments = before ++ s :: after ∧ FirstLongest before s after := by
  induction segments with
  | nil => exact absurd rfl h
  | cons first rest ih =>
    obtain rfl | hrest := eq_or_ne rest []
    · exact ⟨[], first, [], rfl, by simp, by simp⟩
    obtain ⟨before, s, after, rfl, hs⟩ := ih hrest
    obtain hlt | hle := lt_or_ge first.period s.period
    · exact ⟨first :: before, s, after, rfl, List.forall_mem_cons.2 ⟨hlt, hs.before⟩, hs.after⟩
    · exact ⟨[], first, before ++ s :: after, rfl, by simp, fun u hu => (hs.le u hu).trans hle⟩

/-- The longer one of the best segment so far and the next one, with their places. -/
def longer (best : Option (Segment Rat × Nat)) (next : Segment Rat × Nat) :
    Option (Segment Rat × Nat) :=
  match best with
  | none => some next
  | some b => if next.1.period ≤ b.1.period then some b else some next

theorem longestIndex_eq (segments : List (Segment Rat)) :
    longestIndex segments = (segments.zipIdx.foldl longer none).map (·.2) := by
  rw [longestIndex]
  congr 2
  funext best next
  cases best <;> rfl

/-- The best one of some segments is one of them. -/
theorem mem_of_foldl_longer {candidates : List (Segment Rat × Nat)} {b : Segment Rat × Nat}
    (h : candidates.foldl longer none = some b) : b ∈ candidates := by
  refine List.foldlRecOn candidates longer
    (motive := fun best => ∀ b, best = some b → b ∈ candidates) (by simp) ?_ b h
  intro best hbest next hnext b hb
  cases best with
  | none => exact Option.some.inj hb ▸ hnext
  | some previous =>
    rw [longer] at hb
    split at hb
    · exact hbest b hb
    · exact Option.some.inj hb ▸ hnext

/-- The search stays with a segment that is no shorter than the ones still to come. -/
theorem foldl_longer_of_le {candidates : List (Segment Rat × Nat)} {b : Segment Rat × Nat}
    (h : ∀ c ∈ candidates, c.1.period ≤ b.1.period) :
    candidates.foldl longer (some b) = some b :=
  List.foldlRecOn candidates longer (motive := (· = some b)) rfl fun best hbest next hnext => by
    rw [hbest, longer, if_pos (h next hnext)]

/-- The place found is that of the first one of the longest segments. -/
theorem FirstLongest.longestIndex_eq (h : FirstLongest before s after) :
    longestIndex (before ++ s :: after) = some before.length := by
  have hs : longer (before.zipIdx.foldl longer none) (s, before.length) =
      some (s, before.length) := by
    cases hbest : before.zipIdx.foldl longer none with
    | none => rfl
    | some b =>
      have hb := h.before b.1 (List.fst_mem_of_mem_zipIdx (mem_of_foldl_longer hbest))
      rw [longer, if_neg (not_le.2 hb)]
  rw [Skew.longestIndex_eq, List.zipIdx_append, List.zipIdx_cons, List.foldl_append,
    List.foldl_cons, Nat.zero_add, hs, foldl_longer_of_le, Option.map_some]
  exact fun c hc => h.after c.1 (List.fst_mem_of_mem_zipIdx hc)

/-- Cropping takes away segments in front of it, as far as they end before the limit. -/
theorem FirstLongest.crop_eq (h : FirstLongest before s after) (limit : Rat) :
    crop (before ++ s :: after) (longestIndex (before ++ s :: after)) limit =
      before.dropWhile (fun u => u.last.x < limit) ++ s :: after := by
  calc crop (before ++ s :: after) (longestIndex (before ++ s :: after)) limit
      = (before ++ s :: after).drop (before.takeWhile fun u => u.last.x < limit).length := by
        rw [crop, h.longestIndex_eq, Option.getD_some, List.take_left]
    _ = ((before.takeWhile fun u => u.last.x < limit) ++
          (before.dropWhile (fun u => u.last.x < limit) ++ s :: after)).drop
            (before.takeWhile fun u => u.last.x < limit).length := by
        rw [← List.append_assoc, List.takeWhile_append_dropWhile]
    _ = before.dropWhile (fun u => u.last.x < limit) ++ s :: after := List.drop_left

/-- What is left of a chain after cropping is its newer part, and not nothing. -/
theorem crop_suffix {segments : List (Segment Rat)} (h : segments ≠ []) (limit : Rat) :
    crop segments (longestIndex segments) limit <:+ segments ∧
      crop segments (longestIndex segments) limit ≠ [] := by
  refine ⟨List.drop_suffix .., ?_⟩
  obtain ⟨before, s, after, rfl, hs⟩ := exists_firstLongest h
  rw [hs.crop_eq]
  exact List.append_ne_nil_of_right_ne_nil _ (List.cons_ne_nil _ _)

end

/-- The newest of these points, which move to the right, lies furthest to the right. -/
theorem le_newest {q newest : Point Rat} (hsorted : points.Pairwise fun q r => q.x < r.x)
    (hnewest : points.getLast? = some newest) (hq : q ∈ points) : q.x ≤ newest.x := by
  obtain ⟨before, rfl⟩ := List.getLast?_eq_some_iff.1 hnewest
  obtain hq | hq := List.mem_append.1 hq
  · exact ((List.pairwise_append.1 hsorted).2.2 q hq newest (.head _)).le
  · exact (List.mem_singleton.1 hq ▸ le_rfl)

/-- No point lies beyond the segment between the two newest ones. -/
theorem tight_newest {newest : Segment Rat} {p : Point Rat} (hproper : newest.Proper)
    (hsorted : points.Pairwise fun q r => q.x < r.x) (hp : ∀ q ∈ points, q.x < p.x)
    (hfirst : points.getLast? = some newest.first) (hlast : newest.last = p) :
    newest.Tight side (points ++ [p]) where
  proper := hproper
  first_mem := List.mem_append_left _ (List.mem_of_getLast? hfirst)
  last_mem := hlast ▸ List.mem_append_right _ (.head _)
  bounds q hq hspans := by
    obtain ⟨hleft, hright⟩ : newest.first.x ≤ q.x ∧ q.x ≤ newest.last.x := hspans
    obtain ⟨before, rfl⟩ := List.getLast?_eq_some_iff.1 hfirst
    obtain hq | hq := List.mem_append.1 hq
    · obtain hq | hq := List.mem_append.1 hq
      · have hbefore := (List.pairwise_append.1 hsorted).2.2 q hq newest.first (.head _)
        exact absurd hleft (not_le.2 hbefore)
      · obtain rfl := List.mem_singleton.1 hq
        rw [hproper.at_first]
        exact .refl ..
    · obtain rfl := List.mem_singleton.1 hq
      rw [← hlast, hproper.at_last]
      exact .refl ..

/-! ## Envelopes -/

namespace Envelope

/-- The invariant of an envelope that these points have been added to. -/
structure Follows (e : Envelope Rat) (points : List (Point Rat)) : Prop where
  anchor : e.anchor = points.getLast?
  hull : Hull e.side points e.recent
  joined : ∀ s, e.recent.head? = some s → points.getLast? = some s.last
  nonempty : 2 ≤ points.length → e.recent ≠ []

/-- The envelope of one more point with all its segments, however many they are. -/
def grow? (e : Envelope Rat) (p : Point Rat) : Option (Envelope Rat) :=
  match e.anchor with
  | none => some { e with anchor := some p }
  | some anchor =>
    (Segment.between? anchor p).map fun newest =>
      let merged := merge e.side newest e.recent
      { side := e.side
        recent := merged
        anchor := some p
        longestPlace := longestIndex merged.reverse
        measurements := e.measurements + 1 }

/-- The envelope after cropping, which is itself unless it has too many segments. -/
def cropTo (e : Envelope Rat) (limit : Rat) : Envelope Rat :=
  if greatestSize < e.segments.length then
    let kept := crop e.segments (longestIndex e.segments) limit
    { e with recent := kept.reverse, longestPlace := longestIndex kept }
  else e

/-- A point behind another is added and then the envelope is cropped. -/
theorem add?_eq_of_anchor {e : Envelope Rat} {anchor : Point Rat} (h : e.anchor = some anchor)
    (p : Point Rat) (limit : Rat) : e.add? p limit = (e.grow? p).map (·.cropTo limit) := by
  rw [add?, grow?, h, Option.map_map]
  refine congrArg (Option.map · _) (funext fun newest => ?_)
  rw [Function.comp_apply, cropTo, segments]
  dsimp only
  split
  · rfl
  · rw [List.reverse_reverse]

/-- A point is added and then the envelope is cropped. -/
theorem Follows.add?_eq {e : Envelope Rat} (h : e.Follows points) (p : Point Rat) (limit : Rat) :
    e.add? p limit = (e.grow? p).map (·.cropTo limit) := by
  cases hanchor : e.anchor with
  | none =>
    obtain rfl : points = [] := List.getLast?_eq_none_iff.1 (h.anchor.symm.trans hanchor)
    have hrecent : e.recent = [] :=
      List.head?_eq_none_iff.1 (Option.eq_none_iff_forall_ne_some.2 fun s hs => by
        cases h.joined s hs)
    rw [add?, grow?, hanchor, Option.map_some, cropTo, segments, hrecent, if_neg (by decide)]
  | some anchor => exact add?_eq_of_anchor hanchor p limit

/-- A point to the right of all others is taken in, and the invariant is kept. -/
theorem Follows.grow {e : Envelope Rat} (h : e.Follows points)
    (hsorted : points.Pairwise fun q r => q.x < r.x) {p : Point Rat}
    (hp : ∀ q ∈ points, q.x < p.x) :
    ∃ e', e.grow? p = some e' ∧ e'.side = e.side ∧ e'.Follows (points ++ [p]) := by
  cases hanchor : e.anchor with
  | none =>
    obtain rfl : points = [] := List.getLast?_eq_none_iff.1 (h.anchor.symm.trans hanchor)
    refine ⟨{ e with anchor := p }, by rw [grow?, hanchor], rfl, rfl, h.hull.concat hp, ?_, ?_⟩
    · intro s hs
      cases h.joined s hs
    · intro hlength
      exact absurd hlength (by simp)
  | some anchor =>
    have hend : points.getLast? = some anchor := h.anchor.symm.trans hanchor
    obtain ⟨newest, hnewest, rfl, hlast, hproper⟩ :=
      between?_of_lt (hp anchor (List.mem_of_getLast? hend))
    obtain ⟨hhull, hmerged⟩ := (h.hull.concat hp).merge
      (tight_newest hproper hsorted hp hend hlast)
      fun s hs => Option.some.inj ((h.joined s hs).symm.trans hend)
    rw [grow?, hanchor]
    dsimp only
    rw [hnewest]
    refine ⟨_, rfl, rfl, ?_, hhull, ?_, ?_⟩
    · exact List.getLast?_concat.symm
    · intro s hs
      rw [hs] at hmerged
      rw [List.getLast?_concat, ← hlast]
      exact hmerged.symm
    · rintro - (hnil : merge e.side newest e.recent = [])
      rw [hnil] at hmerged
      cases hmerged

/-- Cropping keeps the invariant. -/
theorem Follows.cropTo {e : Envelope Rat} (h : e.Follows points) (limit : Rat) :
    (e.cropTo limit).Follows points := by
  rw [Envelope.cropTo]
  split
  case isFalse => exact h
  case isTrue hmany =>
    have hsome : e.segments ≠ [] := List.length_pos_iff.1 (Nat.zero_lt_of_lt hmany)
    obtain ⟨hkept, hkept'⟩ := crop_suffix hsome limit
    have hnewer := List.reverse_prefix.2 hkept
    rw [segments, List.reverse_reverse, ← segments] at hnewer
    refine ⟨h.anchor, h.hull.of_prefix hnewer, fun s hs => h.joined s ?_, fun _ =>
      List.reverse_eq_nil_iff.not.2 hkept'⟩
    obtain ⟨dropped, hdropped⟩ := hnewer
    rw [← hdropped, List.head?_append, hs, Option.some_or]

/-- Cropping is about the segments only. -/
theorem cropTo_rest (e : Envelope Rat) (limit : Rat) :
    (e.cropTo limit).side = e.side ∧ (e.cropTo limit).anchor = e.anchor ∧
      (e.cropTo limit).measurements = e.measurements := by
  rw [cropTo]
  split <;> exact ⟨rfl, rfl, rfl⟩

/-- One more point to the right of all others is taken in, and the invariant is kept. -/
theorem Follows.add {e : Envelope Rat} (h : e.Follows points)
    (hsorted : points.Pairwise fun q r => q.x < r.x) {p : Point Rat}
    (hp : ∀ q ∈ points, q.x < p.x) (limit : Rat) :
    ∃ e', e.add? p limit = some e' ∧ e'.side = e.side ∧ e'.Follows (points ++ [p]) := by
  obtain ⟨whole, hgrow, hside, hfollows⟩ := h.grow hsorted hp
  refine ⟨whole.cropTo limit, ?_, (whole.cropTo_rest limit).1.trans hside, hfollows.cropTo limit⟩
  rw [h.add?_eq, hgrow, Option.map_some]

/-- The envelope with these points added, each with the limit for cropping then. -/
def addAll? (e : Envelope Rat) (steps : List (Point Rat × Rat)) : Option (Envelope Rat) :=
  steps.foldlM (fun e step => e.add? step.1 step.2) e

/-- What one more point to the right of all others keeps is kept by points that move to the right,
which are all taken in. -/
theorem addAll_induction {motive : Envelope Rat → List (Point Rat) → Prop}
    (hadd : ∀ {e points}, motive e points → points.Pairwise (fun q r => q.x < r.x) →
      ∀ {p : Point Rat}, (∀ q ∈ points, q.x < p.x) → ∀ limit,
        ∃ e', e.add? p limit = some e' ∧ motive e' (points ++ [p]))
    {steps : List (Point Rat × Rat)} {e : Envelope Rat} (h : motive e points)
    (hsorted : (points ++ steps.map Prod.fst).Pairwise fun q r => q.x < r.x) :
    ∃ e', e.addAll? steps = some e' ∧ motive e' (points ++ steps.map Prod.fst) := by
  induction steps generalizing e points with
  | nil => exact ⟨e, rfl, by rwa [List.map_nil, List.append_nil]⟩
  | cons step steps ih =>
    obtain ⟨p, limit⟩ := step
    obtain ⟨hbefore, -, hp⟩ := List.pairwise_append.1 hsorted
    obtain ⟨e', hstep, h'⟩ := hadd h hbefore (fun q hq => hp q hq p (.head _)) limit
    rw [List.map_cons, List.append_cons] at hsorted ⊢
    obtain ⟨e'', hrest, h''⟩ := ih h' hsorted
    refine ⟨e'', ?_, h''⟩
    rw [addAll?, List.foldlM_cons, hstep]
    exact hrest

/-- Points that move to the right are all taken in, and the invariant is kept. -/
theorem Follows.addAll {steps : List (Point Rat × Rat)} {e : Envelope Rat} (h : e.Follows points)
    (hsorted : (points ++ steps.map Prod.fst).Pairwise fun q r => q.x < r.x) :
    ∃ e', e.addAll? steps = some e' ∧ e'.side = e.side ∧
      e'.Follows (points ++ steps.map Prod.fst) := by
  refine addAll_induction (motive := fun e' points => e'.side = e.side ∧ e'.Follows points) ?_
    ⟨rfl, h⟩ hsorted
  rintro e₁ before ⟨hside, hfollows⟩ hbefore p hp limit
  obtain ⟨e₂, hadd, hside', hfollows'⟩ := hfollows.add hbefore hp limit
  exact ⟨e₂, hadd, hside'.trans hside, hfollows'⟩

/-- An envelope is the convex chain over these points, as far back as it has been kept. -/
structure Encloses (e : Envelope Rat) (points : List (Point Rat)) : Prop where
  anchor : e.anchor = points.getLast?
  /-- From the second point on there are segments, and the last one ends at the newest point. -/
  newest : 2 ≤ points.length → (e.segments.getLast?).map Segment.last = points.getLast?
  /-- Each segment is drawn between two of the points, and its period is its extent. -/
  drawn : ∀ s ∈ e.segments, s.Proper ∧ s.first ∈ points ∧ s.last ∈ points
  joined : e.segments.IsChain fun s t => s.last = t.first
  slopes : e.side.Sorted (e.segments.map fun s => s.line.slope)
  /-- From its first point on the chain lies over every point, and none lies beyond it. -/
  covers : ∀ oldest, e.segments.head? = some oldest → ∀ p ∈ points, oldest.first.x ≤ p.x →
    (∃ s ∈ e.segments, s.Spans p.x) ∧
      ∀ s ∈ e.segments, s.Spans p.x → e.side.Bounds p.y (s.line.at p.x)

theorem Follows.encloses {e : Envelope Rat} (h : e.Follows points)
    (hsorted : points.Pairwise fun q r => q.x < r.x) : e.Encloses points where
  anchor := h.anchor
  newest hlength := by
    obtain ⟨newest, older, hrecent⟩ := List.exists_cons_of_ne_nil (h.nonempty hlength)
    rw [segments, hrecent, List.getLast?_reverse, List.head?_cons, Option.map_some]
    exact (h.joined newest (by rw [hrecent, List.head?_cons])).symm
  drawn s hs :=
    have hs := h.hull.tight s (List.mem_reverse.1 hs)
    ⟨hs.proper, hs.first_mem, hs.last_mem⟩
  joined := List.isChain_reverse.2 (h.hull.joined.imp fun _ _ hst => hst.1)
  slopes := sorted_of_bends (List.isChain_reverse.2 (h.hull.joined.imp fun _ _ hst => hst.2))
  covers oldest holdest p hp hstart := by
    rw [segments, List.head?_reverse] at holdest
    constructor
    · cases hrecent : e.recent with
      | nil =>
        rw [hrecent] at holdest
        cases holdest
      | cons newest older =>
        have hend := h.joined newest (by rw [hrecent, List.head?_cons])
        rw [hrecent] at holdest
        obtain ⟨s, hs, hspans⟩ := Hull.exists_spans (hrecent ▸ h.hull)
          (fun s hs => Option.some.inj (holdest.symm.trans hs) ▸ hstart)
          (le_newest hsorted hend hp)
        exact ⟨s, by rw [segments, hrecent]; exact List.mem_reverse.2 hs, hspans⟩
    · intro s hs hspans
      exact (h.hull.tight s (List.mem_reverse.1 hs)).bounds p hp hspans

/-- Points that move to the right are all taken in, whatever the limits for cropping are, and the
envelope is then the convex chain over them. -/
theorem encloses_of_increasing (side : Side) (steps : List (Point Rat × Rat))
    (h : (steps.map Prod.fst).Pairwise fun p q => p.x < q.x) :
    ∃ e, addAll? { side } steps = some e ∧ e.side = side ∧ e.Encloses (steps.map Prod.fst) := by
  have hempty : Follows { side } [] := {
    anchor := rfl
    hull := { tight := by simp, joined := .nil }
    joined := by simp
    nonempty := by simp }
  have hsorted : ([] ++ steps.map Prod.fst).Pairwise fun p q : Point Rat => p.x < q.x := h
  obtain ⟨e, hadd, hside, hfollows⟩ := hempty.addAll hsorted
  exact ⟨e, hadd, hside, hfollows.encloses h⟩

/-- The second of three points lies below the line through the others, and is passed over. -/
theorem encloses_of_increasing_peak :
    ([⟨0, 0⟩, ⟨1, -1⟩, ⟨2, 2⟩, ⟨3, 1⟩] : List (Point Rat)).Pairwise (fun p q => p.x < q.x) ∧
      ∃ e, addAll? { side := .above }
          [(⟨0, 0⟩, 0), (⟨1, -1⟩, 0), (⟨2, 2⟩, 0), (⟨3, 1⟩, 0)] = some e ∧
        e.side = .above ∧ e.Encloses [⟨0, 0⟩, ⟨1, -1⟩, ⟨2, 2⟩, ⟨3, 1⟩] :=
  ⟨by decide +kernel, encloses_of_increasing .above
    [(⟨0, 0⟩, 0), (⟨1, -1⟩, 0), (⟨2, 2⟩, 0), (⟨3, 1⟩, 0)] (by decide +kernel)⟩

end Envelope

end PubSub.Skew

import PubSub.Skew.Scalar

/-!
# Convex envelopes

An envelope is the tightest convex chain of segments above or below a sequence of points that move
to the right. Adding a point adds a segment from the point before; as long as the chain bends the
wrong way at the newest joint, the two segments there merge into one.

The longest segment of the chain is the line that the points have kept to for the longest time. When
there are too many segments, the old ones before the longest are dropped.
-/

namespace PubSub.Skew

/-- A measurement `y` at the time `x`. -/
structure Point (α : Type) where
  x : α
  y : α
deriving DecidableEq

/-- A line `y = slope * x + intercept`. -/
structure Line (α : Type) where
  slope : α
  intercept : α
deriving DecidableEq

/-- A piece of a line between two points. -/
structure Segment (α : Type) where
  first : Point α
  last : Point α
  line : Line α
  /-- The extent in `x`, summed over the segments that merged into this one. -/
  period : α
deriving DecidableEq

/-- On which side of the points an envelope lies. -/
inductive Side where
  | above
  | below
deriving DecidableEq

variable {α : Type} [Scalar α]

/-- The value of a line at `x`. -/
def Line.at (l : Line α) (x : α) : α := l.slope * x + l.intercept

/-- The segment between two points, unless one is right above the other. -/
def Segment.between? (p q : Point α) : Option (Segment α) :=
  if Scalar.same p.x q.x then none
  else
    let slope := (q.y - p.y) / (q.x - p.x)
    some {
      first := p
      last := q
      line := { slope, intercept := q.y - slope * q.x }
      period := Scalar.magnitude (q.x - p.x) }

/-- Whether the chain bends the right way from one segment to the next. -/
def Side.bends (side : Side) (previous next : Segment α) : Bool :=
  match side with
  | .above => next.line.slope < previous.line.slope
  | .below => previous.line.slope < next.line.slope

/-- The chain with one more segment, which merges with the ones before it as long as the joint
bends the wrong way. Chains have their newest segment first. -/
def merge (side : Side) (newest : Segment α) : List (Segment α) → List (Segment α)
  | [] => [newest]
  | previous :: older =>
    if side.bends previous newest then newest :: previous :: older
    else
      match Segment.between? previous.first newest.last with
      | none => newest :: previous :: older
      | some s => merge side { s with period := previous.period + newest.period } older

/-- The place of the longest segment, the first one of equally long ones. -/
def longestIndex (segments : List (Segment α)) : Option Nat :=
  let longer (best : Option (Segment α × Nat)) (next : Segment α × Nat) :=
    match best with
    | none => some next
    | some b => if next.1.period ≤ b.1.period then some b else some next
  (segments.zipIdx.foldl longer none).map (·.2)

/-- The segments without the ones at the front that end before `limit`, up to the longest one. -/
def crop (segments : List (Segment α)) (longest : Option Nat) (limit : α) : List (Segment α) :=
  segments.drop ((segments.take (longest.getD 0)).takeWhile fun s => s.last.x < limit).length

/-- A convex chain of segments on one side of the points added so far. -/
structure Envelope (α : Type) where
  side : Side
  /-- The segments, newest first. -/
  recent : List (Segment α) := []
  /-- The newest point. -/
  anchor : Option (Point α) := none
  /-- The place of the longest segment, counted from the oldest. -/
  longestPlace : Option Nat := none
  /-- The segments added so far. -/
  measurements : Nat := 0
deriving DecidableEq

namespace Envelope

/-- An envelope with more segments than this is cropped. -/
def greatestSize : Nat := 500

/-- An envelope of at most this many measurements is not trusted. -/
def trustedAfter : Nat := 50

/-- The segments, oldest first. -/
def segments (e : Envelope α) : List (Segment α) := e.recent.reverse

/-- The longest segment. -/
def longest? (e : Envelope α) : Option (Segment α) :=
  e.longestPlace.bind fun i => e.segments[i]?

/-- Whether the envelope has had enough points. -/
def isStable (e : Envelope α) : Bool := trustedAfter < e.measurements

/-- The line of the longest segment; without segments, the level line through the only point. -/
def line (e : Envelope α) : Line α :=
  match e.longest? with
  | some s => s.line
  | none => { slope := Scalar.zero, intercept := (e.anchor.map Point.y).getD Scalar.zero }

/-- The value of the envelope's line at `x`. -/
def valueAt (e : Envelope α) (x : α) : α := e.line.at x

/-- The envelope of one more point; `none` if the point is right above or below the one before.
Once there are too many segments, those that end before `limit` are dropped, though never the
longest one nor any behind it. -/
def add? (e : Envelope α) (p : Point α) (limit : α) : Option (Envelope α) :=
  match e.anchor with
  | none => some { e with anchor := some p }
  | some anchor =>
    (Segment.between? anchor p).map fun newest =>
      let merged := (merge e.side newest e.recent).reverse
      let kept :=
        if greatestSize < merged.length then crop merged (longestIndex merged) limit else merged
      { side := e.side
        recent := kept.reverse
        anchor := some p
        longestPlace := longestIndex kept
        measurements := e.measurements + 1 }

end Envelope

end PubSub.Skew

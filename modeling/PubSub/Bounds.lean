/-!
# Numbers within bounds

Comparisons of floating-point numbers where one of them may be no number at all.
-/

namespace PubSub.Bounds

/-- A number raised to 0 if it is below; what is no number becomes 0. -/
def raised (x : Float) : Float := if 0.0 < x then x else 0.0

/-- The greater of two numbers; what is no number gives way to the other. -/
def greater (a b : Float) : Float :=
  if b.isNaN then a else if a.isNaN then b else if a < b then b else a

/-- The lesser of two numbers; what is no number gives way to the other. -/
def lesser (a b : Float) : Float :=
  if b.isNaN then a else if a.isNaN then b else if b < a then b else a

/-- A number moved to the nearer end of a range if it is outside; what is no number becomes the
lower end. -/
def clamped (low high x : Float) : Float :=
  if x.isNaN then low else if x < low then low else if high < x then high else x

end PubSub.Bounds

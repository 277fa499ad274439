/-!
# Patterns

Patterns for the names of variables and applications. They are matched byte by byte: `*` stands for
any bytes, none among them, `?` for exactly one byte, and any other byte for itself.

`Pattern.walk` follows a pattern up to its next `*`. Behind a `*`, `Pattern.seek` tries the rest of
the pattern at the next byte as long as it does not fit; once it comes to another `*`, what lies
before is settled.
-/

namespace PubSub.Pattern

/-- The byte `*`. -/
def star : UInt8 := 0x2A

/-- The byte `?`. -/
def anyOne : UInt8 := 0x3F

/-- Where a walk along a pattern ends. -/
inductive Stop where
  /-- The subject is used up; this is left of the pattern. -/
  | done (pattern : List UInt8)
  /-- A `*` is reached; this is behind it, and this is left of the subject. -/
  | star (pattern subject : List UInt8)
  /-- The subject does not fit. -/
  | mismatch
deriving DecidableEq

/-- Follows a pattern without a `*`. A `*` in the subject fits a `*` of the pattern like any other
byte. -/
def walk : (pattern subject : List UInt8) → Stop
  | pattern, [] => .done pattern
  | [], _ :: _ => .mismatch
  | p :: pattern, s :: subject =>
    if p = anyOne ∨ p = s then walk pattern subject
    else if p = star then .star pattern (s :: subject)
    else .mismatch

/-- What lies behind a `*` is shorter than the pattern. -/
theorem length_lt_of_walk_star {pattern subject rest left : List UInt8}
    (h : walk pattern subject = .star rest left) : rest.length < pattern.length := by
  fun_induction walk pattern subject with
  | case1 => simp at h
  | case2 => simp at h
  | case3 _ _ _ _ _ ih => have := ih h; simp; omega
  | case4 =>
    simp only [Stop.star.injEq] at h
    simp [← h.1]
  | case5 => simp at h

/-- Whether a pattern behind a `*` fits `subject` or one of its ends. -/
def seek (pattern subject : List UInt8) : Bool :=
  if pattern.isEmpty then true
  else
    match _stop : walk pattern subject with
    | .done rest => rest.all (· == star)
    | .star rest left => seek rest left
    | .mismatch =>
      match subject with
      | [] => false
      | _ :: subject => seek pattern subject
termination_by (pattern.length, subject.length)
decreasing_by
  · exact Prod.Lex.left _ _ (length_lt_of_walk_star _stop)
  · exact Prod.Lex.right _ (by simp)

/-- Whether the bytes of a pattern fit those of a subject. -/
def fits (pattern subject : List UInt8) : Bool :=
  match walk pattern subject with
  | .done rest => rest.all (· == star)
  | .star rest left => seek rest left
  | .mismatch => false

end PubSub.Pattern

namespace PubSub

/-- Whether `pattern` matches `s`. -/
def matchesPattern (pattern s : String) : Bool :=
  Pattern.fits pattern.toUTF8.data.toList s.toUTF8.data.toList

end PubSub

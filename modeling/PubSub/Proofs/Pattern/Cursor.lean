import PubSub.Proofs.Pattern.Cuts

/-!
# Matching with two indexes

Matching a pattern is a loop over an index into the pattern and one into the subject
(`Cursor.turn`). On a byte that does not fit, it goes back to the last `*` and tries the rest of the
pattern one byte further on, so the subject's index moves backwards as well. A turn that read a byte
at an index outside the pattern or the subject would end the loop with `Turn.outside`.

No turn does (`Cursor.Inside` is kept), each turn leaves the outcome as it is, and the places to go
back to only ever move forwards, so the loop comes to an end (`Cursor.exists_run`). It answers what
`fits` does; for a subject without a `*`, that is whether it can be cut
(`Cursor.run_decides_cuts`).
-/

namespace PubSub.Pattern

/-- Where the loop stands. -/
structure Cursor where
  /-- The index of the pattern's next byte. -/
  pattern : Nat := 0
  /-- The index of the subject's next byte. -/
  subject : Nat := 0
  /-- Behind the last `*`, the index in the pattern and the one in the subject to go on from. -/
  retry : Option (Nat × Nat) := none

/-- What one turn of the loop leads to. -/
inductive Turn where
  | next (c : Cursor)
  | answer (isMatch : Bool)
  /-- An index is not one of the pattern's or of the subject's. -/
  | outside

namespace Cursor

variable (pattern subject : List UInt8)

/-- Whether the next byte of the pattern fits that of the subject; `none` if one of them is read at
an index outside. -/
def fitsHere? (c : Cursor) : Option Bool :=
  if c.pattern < pattern.length then do
    let p ← pattern[c.pattern]?
    if p = anyOne then return true
    let s ← subject[c.subject]?
    return p == s
  else some false

/-- Whether the next byte of the pattern is a `*`. -/
def atStar? (c : Cursor) : Option Bool :=
  if c.pattern < pattern.length then do
    let p ← pattern[c.pattern]?
    return p == star
  else some false

/-- Goes back behind the last `*`, if there is one. -/
def back (c : Cursor) : Turn :=
  match c.retry with
  | some (p, s) => .next { pattern := p, subject := s, retry := some (p, s + 1) }
  | none => .answer false

/-- One turn of the loop. -/
def turn (c : Cursor) : Turn :=
  if c.subject < subject.length then
    match c.fitsHere? pattern subject, c.atStar? pattern with
    | some true, _ => .next { c with pattern := c.pattern + 1, subject := c.subject + 1 }
    | some false, some true =>
      if c.pattern + 1 = pattern.length then .answer true
      else
        .next { c with pattern := c.pattern + 1, retry := some (c.pattern + 1, c.subject + 1) }
    | some false, some false => c.back
    | _, _ => .outside
  else if c.pattern ≤ pattern.length then .answer ((pattern.drop c.pattern).all (· == star))
  else .outside

/-- What the loop has come to after so many turns. -/
def run : Nat → Cursor → Turn
  | 0, c => .next c
  | n + 1, c =>
    match turn pattern subject c with
    | .next c' => run n c'
    | .answer isMatch => .answer isMatch
    | .outside => .outside

end Cursor

/-! ## What a turn leads to -/

/-- The outcome of a walk, if that of a failed one is `otherwise`. -/
def Stop.settle (stop : Stop) (otherwise : Bool) : Bool :=
  match stop with
  | .done rest => rest.all (· == Pattern.star)
  | .star rest left => seek rest left
  | .mismatch => otherwise

theorem fits_eq (pattern subject : List UInt8) :
    fits pattern subject = (walk pattern subject).settle false := by
  rw [fits]
  cases walk pattern subject <;> rfl

theorem seek_eq {pattern : List UInt8} (h : pattern ≠ []) (subject : List UInt8) :
    seek pattern subject = (walk pattern subject).settle (seek pattern (subject.drop 1)) := by
  rw [seek, if_neg (by simpa using h)]
  split
  case h_1 rest hwalk => rw [hwalk, Stop.settle]
  case h_2 rest left hwalk => rw [hwalk, Stop.settle]
  case h_3 hwalk =>
    cases subject with
    | nil => simp [walk] at hwalk
    | cons s subject => simp only [hwalk, Stop.settle, List.drop_succ_cons, List.drop_zero]

namespace Cursor

variable {pattern subject : List UInt8} {c : Cursor}

/-- What the loop will answer from here. -/
def outcome (pattern subject : List UInt8) (c : Cursor) : Bool :=
  (walk (pattern.drop c.pattern) (subject.drop c.subject)).settle
    (c.retry.any fun r => seek (pattern.drop r.1) (subject.drop r.2))

/-- The indexes lie within the pattern and the subject, and those to go back to before them. -/
structure Inside (pattern subject : List UInt8) (c : Cursor) : Prop where
  pattern_le : c.pattern ≤ pattern.length
  subject_le : c.subject ≤ subject.length
  retry : ∀ p s, c.retry = some (p, s) →
    0 < p ∧ p ≤ c.pattern ∧ p < pattern.length ∧ s ≤ c.subject + 1

/-- What is left to do: the pattern behind the last `*`, the subject behind the place to go back to,
and the subject from here on. -/
def rank (pattern subject : List UInt8) (c : Cursor) : Nat × Nat × Nat :=
  (pattern.length - (c.retry.map (·.1)).getD 0, subject.length + 1 - (c.retry.map (·.2)).getD 0,
    subject.length - c.subject)

/-- The turn gives the outcome, or it leads on to a place with the same outcome and less to do. -/
def Settles (pattern subject : List UInt8) (c : Cursor) : Turn → Prop
  | .next c' => c'.Inside pattern subject ∧ c'.outcome pattern subject = c.outcome pattern subject ∧
      WellFoundedRelation.rel (c'.rank pattern subject) (c.rank pattern subject)
  | .answer isMatch => isMatch = c.outcome pattern subject
  | .outside => False

theorem drop_cons {bytes : List UInt8} {i : Nat} (h : i < bytes.length) :
    ∃ b, bytes[i]? = some b ∧ bytes.drop i = b :: bytes.drop (i + 1) :=
  ⟨bytes[i], List.getElem?_eq_getElem h, List.drop_eq_getElem_cons h⟩

theorem fitsHere?_eq {p s : UInt8} (hp : pattern[c.pattern]? = some p)
    (hs : subject[c.subject]? = some s) :
    c.fitsHere? pattern subject = some (decide (p = anyOne ∨ p = s)) := by
  rw [fitsHere?, if_pos (List.getElem?_eq_some_iff.1 hp).1, hp, hs]
  by_cases hone : p = anyOne <;> simp [hone, beq_eq_decide]

theorem atStar?_eq {p : UInt8} (hp : pattern[c.pattern]? = some p) :
    c.atStar? pattern = some (p == star) := by
  rw [atStar?, if_pos (List.getElem?_eq_some_iff.1 hp).1, hp]
  rfl

/-- After a mismatch the loop goes back, and nothing is lost. -/
theorem settles_back (h : c.Inside pattern subject) (hsubject : c.subject < subject.length)
    (hwalk : walk (pattern.drop c.pattern) (subject.drop c.subject) = .mismatch) :
    c.Settles pattern subject c.back := by
  have houtcome : c.outcome pattern subject =
      c.retry.any fun r => seek (pattern.drop r.1) (subject.drop r.2) := by
    rw [outcome, hwalk, Stop.settle]
  cases hretry : c.retry with
  | none =>
    rw [back, hretry]
    show false = c.outcome pattern subject
    rw [houtcome, hretry, Option.any_none]
  | some r =>
    obtain ⟨p, s⟩ := r
    obtain ⟨hpos, -, hp, hs⟩ := h.retry p s hretry
    rw [back, hretry]
    refine ⟨⟨Nat.le_of_lt hp, ?_, ?_⟩, ?_, ?_⟩
    · show s ≤ subject.length
      omega
    · intro p' s' hretry'
      obtain ⟨rfl, rfl⟩ := Prod.mk.inj (Option.some.inj hretry')
      exact ⟨hpos, Nat.le_refl _, hp, Nat.le_refl _⟩
    · have hrest : pattern.drop p ≠ [] := List.drop_eq_nil_iff.not.2 (Nat.not_le.2 hp)
      rw [houtcome, hretry, Option.any_some, seek_eq hrest, List.drop_drop]
      rfl
    · have hless : subject.length + 1 - (s + 1) < subject.length + 1 - s := by omega
      rw [rank, rank, hretry]
      exact .right _ (.left _ _ hless)

/-- A pair of bytes that fit is passed. -/
theorem settles_pass (h : c.Inside pattern subject) (hpattern : c.pattern < pattern.length)
    (hsubject : c.subject < subject.length)
    (hwalk : walk (pattern.drop c.pattern) (subject.drop c.subject) =
      walk (pattern.drop (c.pattern + 1)) (subject.drop (c.subject + 1))) :
    c.Settles pattern subject
      (.next { c with pattern := c.pattern + 1, subject := c.subject + 1 }) := by
  refine ⟨⟨hpattern, hsubject, fun p s hretry => ?_⟩, ?_, ?_⟩
  · obtain ⟨hpos, hle, hp, hs⟩ := h.retry p s hretry
    exact ⟨hpos, Nat.le_succ_of_le hle, hp, Nat.le_succ_of_le hs⟩
  · rw [outcome, outcome, hwalk]
  · have hless : subject.length - (c.subject + 1) < subject.length - c.subject := by omega
    exact .right _ (.right _ hless)

/-- At a `*`, the place behind it becomes the one to go back to. What the one before was for is
settled. -/
theorem settles_star (h : c.Inside pattern subject) (hpattern : c.pattern + 1 < pattern.length)
    (hwalk : walk (pattern.drop c.pattern) (subject.drop c.subject) =
      .star (pattern.drop (c.pattern + 1)) (subject.drop c.subject)) :
    c.Settles pattern subject
      (.next { c with pattern := c.pattern + 1, retry := some (c.pattern + 1, c.subject + 1) }) := by
  refine ⟨⟨Nat.le_of_lt hpattern, h.subject_le, ?_⟩, ?_, ?_⟩
  · intro p s hretry
    obtain ⟨rfl, rfl⟩ := Prod.mk.inj (Option.some.inj hretry)
    exact ⟨Nat.succ_pos _, Nat.le_refl _, hpattern, Nat.le_refl _⟩
  · have hrest : pattern.drop (c.pattern + 1) ≠ [] :=
      List.drop_eq_nil_iff.not.2 (Nat.not_le.2 hpattern)
    rw [outcome, outcome, hwalk, Stop.settle, seek_eq hrest, Option.any_some, List.drop_drop]
  · have hless : pattern.length - (c.pattern + 1) <
        pattern.length - (c.retry.map (·.1)).getD 0 := by
      cases hretry : c.retry with
      | none =>
        show pattern.length - (c.pattern + 1) < pattern.length - 0
        omega
      | some r =>
        obtain ⟨-, hle, -⟩ := h.retry r.1 r.2 hretry
        show pattern.length - (c.pattern + 1) < pattern.length - r.1
        omega
    exact .left _ _ hless

/-- A turn reads no byte outside, and it leads to the outcome or closer to it. -/
theorem settles_turn (h : c.Inside pattern subject) :
    c.Settles pattern subject (turn pattern subject c) := by
  rw [turn]
  split
  case isFalse hend =>
    rw [if_pos h.pattern_le]
    show _ = c.outcome pattern subject
    rw [outcome, List.drop_eq_nil_iff.2 (Nat.not_lt.1 hend), walk, Stop.settle]
  case isTrue hsubject =>
    obtain ⟨s, hs, hsdrop⟩ := drop_cons hsubject
    by_cases hpattern : c.pattern < pattern.length
    case neg =>
      rw [fitsHere?, if_neg hpattern, atStar?, if_neg hpattern]
      refine settles_back h hsubject ?_
      rw [List.drop_eq_nil_iff.2 (Nat.not_lt.1 hpattern), hsdrop, walk]
    case pos =>
      obtain ⟨p, hp, hpdrop⟩ := drop_cons hpattern
      rw [fitsHere?_eq hp hs, atStar?_eq hp]
      by_cases hfits : p = anyOne ∨ p = s
      · rw [decide_eq_true hfits]
        exact settles_pass h hpattern hsubject (by rw [hpdrop, hsdrop, walk, if_pos hfits])
      rw [decide_eq_false hfits]
      by_cases hstar : p = star
      · have hwalk : walk (pattern.drop c.pattern) (subject.drop c.subject) =
            .star (pattern.drop (c.pattern + 1)) (subject.drop c.subject) := by
          rw [hpdrop, hsdrop, walk, if_neg hfits, if_pos hstar]
        rw [beq_iff_eq.2 hstar]
        dsimp only
        split
        case isTrue hlast =>
          show true = c.outcome pattern subject
          rw [outcome, hwalk, List.drop_eq_nil_iff.2 (Nat.le_of_eq hlast.symm), Stop.settle, seek]
          rfl
        case isFalse hlast => exact settles_star h (by omega) hwalk
      · rw [beq_eq_false_iff_ne.2 hstar]
        exact settles_back h hsubject (by rw [hpdrop, hsdrop, walk, if_neg hfits, if_neg hstar])

/-! ## The whole loop -/

/-- The loop comes to an end with its outcome. -/
theorem exists_run {c : Cursor} (h : c.Inside pattern subject) :
    ∃ n, run pattern subject n c = .answer (c.outcome pattern subject) := by
  have hturn := settles_turn h
  cases hnext : turn pattern subject c with
  | next c' =>
    rw [hnext] at hturn
    obtain ⟨h', houtcome, hless⟩ := hturn
    obtain ⟨n, hn⟩ := exists_run h'
    exact ⟨n + 1, by rw [run, hnext, ← houtcome]; exact hn⟩
  | answer isMatch =>
    rw [hnext] at hturn
    obtain rfl : isMatch = c.outcome pattern subject := hturn
    exact ⟨1, by rw [run, hnext]⟩
  | outside =>
    rw [hnext] at hturn
    exact hturn.elim
termination_by c.rank pattern subject
decreasing_by exact hless

/-- No byte is ever read outside. -/
theorem run_ne_outside (h : c.Inside pattern subject) (n : Nat) :
    run pattern subject n c ≠ .outside := by
  induction n generalizing c with
  | zero => simp [run]
  | succ n ih =>
    have hturn := settles_turn h
    rw [run]
    cases hnext : turn pattern subject c with
    | next c' =>
      rw [hnext] at hturn
      exact ih hturn.1
    | answer isMatch => simp
    | outside =>
      rw [hnext] at hturn
      exact hturn.elim

theorem inside_start : Inside pattern subject {} where
  pattern_le := Nat.zero_le _
  subject_le := Nat.zero_le _
  retry := by simp

theorem outcome_start : outcome pattern subject {} = fits pattern subject := by
  rw [outcome, fits_eq]
  rfl

/-- The loop over the bytes of a pattern and a text comes to an end, never reads a byte at an index
outside, and answers whether the pattern matches. For a text without the byte `*`, that is whether
its bytes can be cut into pieces that those of the pattern take in turn. -/
theorem run_decides_cuts (pattern s : String) :
    (∃ n, run pattern.toUTF8.data.toList s.toUTF8.data.toList n {} =
        .answer (matchesPattern pattern s)) ∧
      (∀ n, run pattern.toUTF8.data.toList s.toUTF8.data.toList n {} ≠ .outside) ∧
      (star ∉ s.toUTF8.data.toList →
        (matchesPattern pattern s = true ↔
          Cuts star anyOne pattern.toUTF8.data.toList s.toUTF8.data.toList)) := by
  refine ⟨?_, run_ne_outside inside_start, fun hs => ?_⟩
  · obtain ⟨n, hn⟩ := exists_run (@inside_start pattern.toUTF8.data.toList s.toUTF8.data.toList)
    exact ⟨n, by rw [hn, outcome_start, matchesPattern]⟩
  · rw [matchesPattern, fits_eq_true_iff, reads_iff_cuts hs]

/-- The loop goes back four times on its way through this text. -/
theorem run_decides_cuts_backtracking :
    star ∉ "xabyabab".toUTF8.data.toList ∧
      (∃ n, run "*ab*ab".toUTF8.data.toList "xabyabab".toUTF8.data.toList n {} = .answer true) ∧
      Cuts star anyOne "*ab*ab".toUTF8.data.toList "xabyabab".toUTF8.data.toList := by
  have hs : star ∉ "xabyabab".toUTF8.data.toList := by decide +kernel
  have hpattern : "*ab*ab".toUTF8.data.toList = [42, 97, 98, 42, 97, 98] := by decide +kernel
  have htext : "xabyabab".toUTF8.data.toList = [120, 97, 98, 121, 97, 98, 97, 98] := by
    decide +kernel
  have hmatches : matchesPattern "*ab*ab" "xabyabab" = true := by
    rw [matchesPattern, hpattern, htext]
    cbv
  obtain ⟨hrun, -, hcuts⟩ := run_decides_cuts "*ab*ab" "xabyabab"
  exact ⟨hs, hmatches ▸ hrun, (hcuts hs).1 hmatches⟩

end Cursor

end PubSub.Pattern

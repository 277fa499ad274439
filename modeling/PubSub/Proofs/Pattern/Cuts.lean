import Mathlib.Data.List.Forall2
import PubSub.Pattern

/-!
# What patterns match

A subject fits a pattern if it can be cut into pieces, one for each element of the pattern
(`Pattern.Cuts`). `Pattern.fits` decides something else where the subject has a `*` of its own: a
`*` of the pattern that comes to stand over it takes this one byte and no other. That is
`Pattern.Reads`, and `fits` decides it exactly (`fits_eq_true_iff`). The two are the same for
subjects without a `*` (`reads_iff_cuts`).

A `*` is settled as soon as the next one is reached, and nothing is lost by that: wherever the part
between the two may lie, what is behind it lies within what is left at its first place
(`remains_of_suffix`).
-/

namespace PubSub.Pattern

section Alphabet

variable {α : Type} {star one : α}

/-- What an element of a pattern may take of a subject: `star` anything, `one` any one character,
and every other character itself. -/
inductive Takes (star one : α) : α → List α → Prop
  | star (piece : List α) : Takes star one star piece
  | one (c : α) : Takes star one one [c]
  | same {c : α} (hstar : c ≠ star) (hone : c ≠ one) : Takes star one c [c]

/-- The subject can be cut into consecutive pieces that the elements of the pattern take in turn. -/
def Cuts (star one : α) (pattern subject : List α) : Prop :=
  ∃ pieces : List (List α), pieces.flatten = subject ∧
    List.Forall₂ (Takes star one) pattern pieces

/-- The subject is read along the pattern, and a `star` that comes to stand over a `star` of the
subject takes just that. -/
inductive Reads (star one : α) : List α → List α → Prop
  | nil : Reads star one [] []
  | same {p c : α} {pattern subject : List α} (hfits : p = one ∨ p = c)
      (h : Reads star one pattern subject) : Reads star one (p :: pattern) (c :: subject)
  | skip {pattern subject rest : List α} (hopen : subject.head? ≠ some star)
      (hrest : rest <:+ subject) (h : Reads star one pattern rest) :
      Reads star one (star :: pattern) subject

theorem cuts_nil_iff {subject : List α} : Cuts star one [] subject ↔ subject = [] := by
  constructor
  · rintro ⟨pieces, rfl, hpieces⟩
    rw [List.forall₂_nil_left_iff.1 hpieces, List.flatten_nil]
  · rintro rfl
    exact ⟨[], rfl, .nil⟩

theorem cuts_cons_iff {c : α} {pattern subject : List α} :
    Cuts star one (c :: pattern) subject ↔
      ∃ piece rest, subject = piece ++ rest ∧ Takes star one c piece ∧
        Cuts star one pattern rest := by
  constructor
  · rintro ⟨pieces, rfl, hpieces⟩
    obtain ⟨piece, others, htakes, hothers, rfl⟩ := List.forall₂_cons_left_iff.1 hpieces
    exact ⟨piece, others.flatten, List.flatten_cons, htakes, others, rfl, hothers⟩
  · rintro ⟨piece, rest, rfl, htakes, pieces, rfl, hpieces⟩
    exact ⟨piece :: pieces, List.flatten_cons, .cons htakes hpieces⟩

/-- Reading is one way of cutting. -/
theorem Reads.cuts [DecidableEq α] {pattern subject : List α} (h : Reads star one pattern subject) :
    Cuts star one pattern subject := by
  induction h with
  | nil => exact cuts_nil_iff.2 rfl
  | @same p c pattern subject hfits _ ih =>
    refine cuts_cons_iff.2 ⟨[c], subject, rfl, ?_, ih⟩
    by_cases hstar : p = star
    · exact hstar ▸ .star [c]
    · by_cases hone : p = one
      · exact hone ▸ .one c
      · obtain rfl := hfits.resolve_left hone
        exact .same hstar hone
  | skip _ hrest _ ih =>
    obtain ⟨piece, rfl⟩ := hrest
    exact cuts_cons_iff.2 ⟨piece, _, rfl, .star piece, ih⟩

/-- A subject without a `star` is read wherever it can be cut. -/
theorem reads_iff_cuts [DecidableEq α] {pattern subject : List α} (hsubject : star ∉ subject) :
    Reads star one pattern subject ↔ Cuts star one pattern subject := by
  refine ⟨Reads.cuts, fun h => ?_⟩
  induction pattern generalizing subject with
  | nil =>
    obtain rfl := cuts_nil_iff.1 h
    exact .nil
  | cons p pattern ih =>
    obtain ⟨piece, rest, rfl, htakes, hcuts⟩ := cuts_cons_iff.1 h
    have hreads := ih (fun hmem => hsubject (List.mem_append_right _ hmem)) hcuts
    cases htakes with
    | star piece =>
      refine .skip (fun hhead => hsubject ?_) (List.suffix_append ..) hreads
      exact List.mem_of_mem_head? hhead
    | one c => exact .same (.inl rfl) hreads
    | same => exact .same (.inr rfl) hreads

end Alphabet

/-! ## Walking and seeking -/

/-- What is still to be read where a walk ends. Behind a `*` any end of the subject will do. -/
def Stop.Remains : Stop → Prop
  | .done rest => rest.all (· == Pattern.star) = true
  | .star rest left => ∃ subject, subject <:+ left ∧ Reads Pattern.star anyOne rest subject
  | .mismatch => False

/-- Nothing is left for a pattern but `*`. -/
theorem reads_nil_iff {pattern : List UInt8} :
    Reads star anyOne pattern [] ↔ pattern.all (· == star) = true := by
  rw [List.all_eq_true]
  induction pattern with
  | nil => exact ⟨fun _ _ hp => absurd hp List.not_mem_nil, fun _ => .nil⟩
  | cons p pattern ih =>
    rw [List.forall_mem_cons, beq_iff_eq, ← ih]
    constructor
    · intro h
      cases h with
      | skip _ hrest h =>
        rw [List.suffix_nil] at hrest
        exact ⟨rfl, hrest ▸ h⟩
    · rintro ⟨rfl, h⟩
      exact .skip (by simp) List.suffix_rfl h

/-- A byte of the subject goes with the first of the pattern, or else that is a `*`. -/
theorem reads_cons_cons_iff {p s : UInt8} {pattern subject : List UInt8} :
    Reads star anyOne (p :: pattern) (s :: subject) ↔
      if p = anyOne ∨ p = s then Reads star anyOne pattern subject
      else p = star ∧ ∃ rest, rest <:+ s :: subject ∧ Reads star anyOne pattern rest := by
  split
  case isTrue hfits =>
    refine ⟨fun h => ?_, .same hfits⟩
    cases h with
    | same _ h => exact h
    | skip hopen =>
      obtain hone | rfl := hfits
      · exact absurd hone (by decide)
      · exact absurd rfl hopen
  case isFalse hfits =>
    constructor
    · intro h
      cases h with
      | same hfits' => exact absurd hfits' hfits
      | skip _ hrest h => exact ⟨rfl, _, hrest, h⟩
    · rintro ⟨rfl, rest, hrest, h⟩
      refine .skip (fun hhead => hfits (.inr ?_)) hrest h
      exact (Option.some.inj hhead).symm

/-- A subject is read exactly if what remains after the walk can be. -/
theorem reads_iff_remains {pattern subject : List UInt8} :
    Reads star anyOne pattern subject ↔ (walk pattern subject).Remains := by
  fun_induction walk pattern subject with
  | case1 pattern => exact reads_nil_iff
  | case2 s subject =>
    refine ⟨fun h => ?_, False.elim⟩
    cases h
  | case3 p pattern s subject hfits ih => rw [reads_cons_cons_iff, if_pos hfits, ih]
  | case4 pattern s subject hfits =>
    rw [reads_cons_cons_iff, if_neg hfits]
    exact and_iff_right rfl
  | case5 p pattern s subject hfits hstar =>
    rw [reads_cons_cons_iff, if_neg hfits]
    exact iff_of_false (fun h => hstar h.1) not_false

/-- What is read behind the first element of a pattern is an end of the subject. -/
theorem Reads.exists_suffix {p : UInt8} {pattern subject : List UInt8}
    (h : Reads star anyOne (p :: pattern) subject) :
    ∃ rest, rest <:+ subject ∧ Reads star anyOne pattern rest := by
  cases h with
  | same _ h => exact ⟨_, List.suffix_cons .., h⟩
  | skip _ hrest h => exact ⟨_, hrest, h⟩

/-- If some end of the subject is read, then what remains of a walk along it can be read. -/
theorem remains_of_suffix {pattern subject later : List UInt8}
    (hwalk : walk pattern subject ≠ .mismatch) (hlater : later <:+ subject)
    (h : Reads star anyOne pattern later) : (walk pattern subject).Remains := by
  fun_induction walk pattern subject generalizing later with
  | case1 pattern =>
    rw [List.suffix_nil] at hlater
    exact reads_nil_iff.1 (hlater ▸ h)
  | case2 s subject => exact absurd rfl hwalk
  | case3 p pattern s subject hfits ih =>
    -- The byte that the walk has used up is not needed for the rest of the pattern.
    have hbehind : ∃ rest, rest <:+ subject ∧ Reads star anyOne pattern rest := by
      obtain rfl | hlater := List.suffix_cons_iff.1 hlater
      · rw [reads_cons_cons_iff, if_pos hfits] at h
        exact ⟨subject, List.suffix_rfl, h⟩
      · obtain ⟨rest, hrest, h⟩ := h.exists_suffix
        exact ⟨rest, hrest.trans hlater, h⟩
    obtain ⟨rest, hrest, h⟩ := hbehind
    exact ih hwalk hrest h
  | case4 pattern s subject hfits =>
    obtain ⟨rest, hrest, h⟩ := h.exists_suffix
    exact ⟨rest, hrest.trans hlater, h⟩
  | case5 p pattern s subject hfits hstar => exact absurd rfl hwalk

/-- Behind a `*`, a walk that does not fail settles the part up to the next `*`. -/
theorem remains_star_iff {pattern subject : List UInt8}
    (hwalk : walk pattern subject ≠ .mismatch) :
    (Stop.star pattern subject).Remains ↔ (walk pattern subject).Remains := by
  constructor
  · rintro ⟨later, hlater, h⟩
    exact remains_of_suffix hwalk hlater h
  · intro h
    exact ⟨subject, List.suffix_rfl, reads_iff_remains.2 h⟩

/-- Behind a `*`, a pattern that the subject mismatches is read further on. -/
theorem remains_star_cons_iff {pattern subject : List UInt8} {s : UInt8}
    (hwalk : walk pattern (s :: subject) = .mismatch) :
    (Stop.star pattern (s :: subject)).Remains ↔ (Stop.star pattern subject).Remains := by
  constructor
  · rintro ⟨later, hlater, h⟩
    obtain rfl | hlater := List.suffix_cons_iff.1 hlater
    · have hremains := reads_iff_remains.1 h
      rw [hwalk] at hremains
      exact hremains.elim
    · exact ⟨later, hlater, h⟩
  · rintro ⟨later, hlater, h⟩
    exact ⟨later, hlater.trans (List.suffix_cons ..), h⟩

theorem seek_eq_true_iff {pattern subject : List UInt8} :
    seek pattern subject = true ↔ (Stop.star pattern subject).Remains := by
  fun_induction seek pattern subject with
  | case1 pattern subject hempty =>
    obtain rfl := List.isEmpty_iff.1 hempty
    exact iff_of_true rfl ⟨[], List.nil_suffix, .nil⟩
  | case2 pattern subject hempty rest hwalk =>
    rw [remains_star_iff (by simp [hwalk]), hwalk, Stop.Remains]
  | case3 pattern subject hempty rest left hwalk ih =>
    rw [remains_star_iff (by simp [hwalk]), hwalk, ih]
  | case4 pattern hempty hwalk => simp [walk] at hwalk
  | case5 pattern hempty s subject hwalk ih => rw [remains_star_cons_iff hwalk, ih]

/-- The matching decides which subjects are read along a pattern. -/
theorem fits_eq_true_iff {pattern subject : List UInt8} :
    fits pattern subject = true ↔ Reads star anyOne pattern subject := by
  rw [reads_iff_remains, fits]
  split
  case h_1 rest hwalk => rw [hwalk, Stop.Remains]
  case h_2 rest left hwalk => rw [hwalk, seek_eq_true_iff]
  case h_3 hwalk => simp [hwalk, Stop.Remains]

end PubSub.Pattern

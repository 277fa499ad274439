import PubSub.Proofs.Decimal.Digits
import PubSub.Text.Blank

/-!
# The characters of a number

A float is written with digits, a sign, a point and the letters of the words for special numbers
(`Decimal.isNumeric_of_mem_shortest`), so with no blank and no comma.
-/

namespace PubSub.Decimal

/-- A character of a number as text: a digit, a sign, a point, or a letter of a word for a special
number. -/
def IsNumeric (c : Char) : Prop :=
  c.isDigit = true ∨ c ∈ ['-', '.', 'N', 'a', 'i', 'n', 'f']

/-! ## The characters of a text -/

theorem isNumeric_of_mem_positional {n : Nat} {k : Int} {c : Char} (h : c ∈ positional n k) :
    IsNumeric c := by
  obtain ⟨whole, part, htext, hwhole, hpart, -, -⟩ := exists_withPart n k
  rw [htext, withPart] at h
  split at h
  · exact .inl (hwhole c h)
  · obtain h | h := List.mem_append.1 h
    · exact .inl (hwhole c h)
    · obtain rfl | h := List.mem_cons.1 h
      · exact .inr (by simp)
      · exact .inl (hpart c h)

theorem isNumeric_of_mem_signed {negative : Bool} {s : List Char} (hs : ∀ c ∈ s, IsNumeric c)
    {c : Char} (h : c ∈ (signed negative s).toList) : IsNumeric c := by
  rw [signed, String.toList_ofList] at h
  split at h
  · obtain rfl | h := List.mem_cons.1 h
    · exact .inr (by simp)
    · exact hs c h
  · exact hs c h

/-- All characters of a float as text are numeric. -/
theorem isNumeric_of_mem_shortest {x : Float} {c : Char} (h : c ∈ (shortest x).toList) :
    IsNumeric c := by
  rw [shortest] at h
  split at h
  · have hname : c ∈ ['N', 'a', 'N'] := h
    simp only [List.mem_cons, List.not_mem_nil, or_false] at hname
    obtain rfl | rfl | rfl := hname <;> exact .inr (by simp)
  · refine isNumeric_of_mem_signed (fun d hd => .inr ?_) h
    simp at hd ⊢
    tauto
  · refine isNumeric_of_mem_signed (fun d hd => .inl ?_) h
    rw [List.mem_singleton.1 hd]
    rfl
  · exact isNumeric_of_mem_signed (fun d => isNumeric_of_mem_positional) h

theorem IsNumeric.isBlank {c : Char} (h : IsNumeric c) : Text.isBlank c = false := by
  obtain h | h := h
  · rw [Char.isDigit, Bool.and_eq_true, decide_eq_true_iff, decide_eq_true_iff] at h
    have hlo : 48 ≤ c.toNat := UInt32.le_iff_toNat_le.1 h.1
    have hhi : c.toNat ≤ 57 := UInt32.le_iff_toNat_le.1 h.2
    simp [Text.isBlank]
    omega
  · simp only [List.mem_cons, List.not_mem_nil, or_false] at h
    obtain rfl | rfl | rfl | rfl | rfl | rfl | rfl := h <;> rfl

theorem IsNumeric.ne_comma {c : Char} (h : IsNumeric c) : c ≠ ',' := by
  rintro rfl
  obtain h | h := h
  · exact absurd h (by decide)
  · exact absurd h (by decide)

end PubSub.Decimal

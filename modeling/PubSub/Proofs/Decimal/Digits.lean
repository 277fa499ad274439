import Mathlib
import PubSub.Decimal.Reader
import PubSub.Decimal.Shortest

/-!
# Digits written and read

A decimal is written as digits, with a point where digits of its part below one follow
(`Decimal.exists_withPart`). Such a text is read as the natural number that all its digits write
together, moved by as many places as stand behind the point (`Decimal.readUnsigned?_withPart`).
-/

namespace PubSub.Decimal

/-! ## The number that digits write -/

theorem natOf_eq (s : List Char) : natOf s = Nat.ofDigitChars 10 s 0 := rfl

theorem natOf_zeros_append (n : Nat) (s : List Char) :
    natOf (List.replicate n '0' ++ s) = natOf s := by
  rw [natOf_eq, Nat.ofDigitChars_append, Nat.ofDigitChars_replicate_zero, Nat.mul_zero, natOf_eq]

theorem natOf_append_zeros (s : List Char) (n : Nat) :
    natOf (s ++ List.replicate n '0') = natOf s * 10 ^ n := by
  rw [natOf_eq, Nat.ofDigitChars_append, Nat.ofDigitChars_replicate_zero, Nat.mul_comm, natOf_eq]

theorem natOf_toDigits (n : Nat) : natOf (Nat.toDigits 10 n) = n := Nat.ofDigitChars_ten_toDigits

/-! ## Runs of digits -/

/-- `s` has only digits. -/
def AllDigits (s : List Char) : Prop := ∀ c ∈ s, c.isDigit = true

theorem allDigits_toDigits (n : Nat) : AllDigits (Nat.toDigits 10 n) := fun _ =>
  Nat.isDigit_of_mem_toDigits (by decide) (by decide)

theorem allDigits_zeros (n : Nat) : AllDigits (List.replicate n '0') := fun c hc => by
  rw [List.eq_of_mem_replicate hc]
  rfl

theorem AllDigits.append {s t : List Char} (hs : AllDigits s) (ht : AllDigits t) :
    AllDigits (s ++ t) := fun c hc => (List.mem_append.1 hc).elim (hs c) (ht c)

theorem spanDigits_append {s t : List Char} (hs : AllDigits s)
    (ht : ∀ c ∈ t.head?, c.isDigit = false) : spanDigits (s ++ t) = (s, t) := by
  have htake : t.takeWhile Char.isDigit = [] := by
    cases t with
    | nil => rfl
    | cons c t => rw [List.takeWhile_cons, ht c rfl]; rfl
  have hdrop : t.dropWhile Char.isDigit = t := by
    cases t with
    | nil => rfl
    | cons c t => rw [List.dropWhile_cons, ht c rfl]; rfl
  rw [spanDigits, List.takeWhile_append_of_pos hs, List.dropWhile_append_of_pos hs, htake, hdrop,
    List.append_nil]

theorem spanDigits_self {s : List Char} (hs : AllDigits s) : spanDigits s = (s, []) := by
  simpa using spanDigits_append hs (t := []) (by simp)

/-! ## Digits with a point -/

/-- Digits, and if there are any further ones, a point and these. -/
def withPart (whole part : List Char) : List Char :=
  if part.isEmpty then whole else whole ++ '.' :: part

theorem readUnsigned?_withPart {whole part : List Char} (hwhole : AllDigits whole)
    (hpart : AllDigits part) (hne : whole ≠ []) :
    readUnsigned? (withPart whole part) =
      some (nearest (natOf (whole ++ part)) (-part.length)) := by
  cases part with
  | nil => simp [withPart, readUnsigned?, spanDigits_self hwhole, hne, readExponent?]
  | cons c part =>
    have hspan : spanDigits (whole ++ '.' :: c :: part) = (whole, '.' :: c :: part) :=
      spanDigits_append hwhole (by simp)
    simp [withPart, readUnsigned?, hspan, spanDigits_self hpart, hne, readExponent?]

/-- What is dropped at the end are zeros. -/
theorem exists_zeros (s : List Char) :
    ∃ n, s = (s.reverse.dropWhile (· == '0')).reverse ++ List.replicate n '0' := by
  obtain ⟨n, hn⟩ : ∃ n, s.reverse.takeWhile (· == '0') = List.replicate n '0' :=
    ⟨_, List.eq_replicate_iff.2 ⟨rfl, fun c hc => by simpa using List.mem_takeWhile_imp hc⟩⟩
  refine ⟨n, List.reverse_injective ?_⟩
  rw [List.reverse_append, List.reverse_replicate, List.reverse_reverse, ← hn,
    List.takeWhile_append_dropWhile]

/-- A decimal is written as digits with a point, and the number these write is the decimal. -/
theorem exists_withPart (c : Nat) (k : Int) :
    ∃ whole part, positional c k = withPart whole part ∧ AllDigits whole ∧ AllDigits part ∧
      whole ≠ [] ∧ (natOf (whole ++ part) * 10 ^ (-part.length : Int) : Rat) = c * 10 ^ k := by
  rw [positional]
  split
  · rename_i hk
    obtain ⟨n, rfl⟩ := Int.eq_ofNat_of_zero_le hk
    refine ⟨_, [], rfl, (allDigits_toDigits c).append (allDigits_zeros _), by simp [AllDigits],
      by simp, ?_⟩
    rw [List.append_nil, Int.toNat_natCast, natOf_append_zeros, natOf_toDigits]
    simp
  · rename_i hk
    obtain ⟨n, rfl⟩ : ∃ n : Nat, k = -n := ⟨(-k).toNat, by omega⟩
    rw [neg_neg, Int.toNat_natCast]
    -- all digits, with zeros before them that the places behind the point need
    generalize hs : List.replicate (n + 1 - (Nat.toDigits 10 c).length) '0' ++ Nat.toDigits 10 c = s
    have hdigits : AllDigits s := hs ▸ (allDigits_zeros _).append (allDigits_toDigits c)
    have hvalue : natOf s = c := by rw [← hs, natOf_zeros_append, natOf_toDigits]
    have hlength : n < s.length := by
      rw [← hs, List.length_append, List.length_replicate]
      omega
    have hpointed : pointed n c = (s.take (s.length - n), s.drop (s.length - n)) := by
      simp only [pointed, hs]
    obtain ⟨z, hz⟩ := exists_zeros (s.drop (s.length - n))
    simp only [hpointed]
    generalize ((s.drop (s.length - n)).reverse.dropWhile (· == '0')).reverse = part at hz ⊢
    have hall : s.take (s.length - n) ++ part ++ List.replicate z '0' = s := by
      rw [List.append_assoc, ← hz, List.take_append_drop]
    have hplaces : part.length + z = n := by
      have hlengths := congrArg List.length hz
      rw [List.length_append, List.length_replicate, List.length_drop] at hlengths
      omega
    refine ⟨s.take (s.length - n), part, rfl, fun d hd => hdigits d (List.mem_of_mem_take hd),
      fun d hd => hdigits d ?_, ?_, ?_⟩
    · rw [← hall]
      simp [hd]
    · intro hnil
      have hzero := congrArg List.length hnil
      rw [List.length_take, List.length_nil] at hzero
      omega
    · have hnat : natOf (s.take (s.length - n) ++ part) * 10 ^ z = c := by
        rw [← natOf_append_zeros, hall, hvalue]
      rw [← hnat, ← hplaces]
      push_cast
      rw [neg_add, zpow_add₀ (by norm_num), zpow_neg, zpow_neg, zpow_natCast, zpow_natCast]
      field_simp

theorem positional_eq_cons (c : Nat) (k : Int) :
    ∃ d s, positional c k = d :: s ∧ d.isDigit = true := by
  obtain ⟨whole, part, htext, hwhole, -, hne, -⟩ := exists_withPart c k
  obtain ⟨d, whole, rfl⟩ := List.exists_cons_of_ne_nil hne
  have hd := hwhole d List.mem_cons_self
  rw [htext, withPart]
  split
  · exact ⟨d, _, rfl, hd⟩
  · exact ⟨d, _, rfl, hd⟩

end PubSub.Decimal

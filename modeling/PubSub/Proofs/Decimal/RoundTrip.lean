import PubSub.Proofs.Decimal.Digits
import PubSub.Proofs.Decimal.Shortest
import PubSub.Proofs.Double.Scientific

/-!
# Floats are read from their own text

The bits of a float are taken apart as what they stand for (`Decimal.ofFloat_eq`), a decimal is read
as the float whose interval it lies in (`Decimal.nearest_eq`), and the digits that are written lie
in the interval of their float. So every float, infinite ones, negative zero and NaN included, is
read from its own text (`Decimal.read?_shortest`).
-/

namespace PubSub.Decimal

open Double Shortest Float.Model Float.Model.UnpackedFloat

/-! ## The parts of a float -/

/-- The kind, sign, mantissa and exponent of an unpacked float. -/
def parts : UnpackedFloat → Binary64
  | .notANumber => .nan
  | .infinity s => .infinite (s == .negative)
  | .zero s => .finite (s == .negative) 0 Binary64.leastExponent
  | .finite s m e _ => .finite (s == .negative) m e

section
variable (b : BitVec Format.binary64.numBits)

theorem toNat_unpackExponent : (unpackExponent b).toNat = b.toNat / 2 ^ 52 % 2 ^ 11 := by
  show (b.extractLsb' 52 11).toNat = _
  rw [BitVec.extractLsb'_toNat, Nat.shiftRight_eq_div_pow]

theorem toNat_unpackMantissa : (unpackMantissa b).toNat = b.toNat % 2 ^ 52 := by
  show (b.extractLsb' 0 52).toNat = _
  rw [BitVec.extractLsb'_toNat, Nat.shiftRight_zero]

theorem isNegative_unpackSign :
    (Sign.ofBitVec (unpackSign b) == .negative) = (b.toNat / 2 ^ 63 == 1) := by
  have hbit : (unpackSign b).toNat = b.toNat / 2 ^ 63 := by
    have hlt : b.toNat < 2 ^ 64 := b.isLt
    show (b.extractLsb' 63 1).toNat = _
    rw [BitVec.extractLsb'_toNat, Nat.shiftRight_eq_div_pow]
    omega
  rw [← hbit]
  generalize unpackSign b = s
  revert s
  decide

end

/-- Taking the bits of a float apart gives what they stand for. -/
theorem ofFloat_eq (x : Float) : Binary64.ofFloat x = parts x.toModel.unpack := by
  rw [Binary64.ofFloat]
  simp only [Nat.pow_eq]
  show _ = parts (UnpackedFloat.unpack .binary64 x.toBits.toBitVec)
  generalize hb : (x.toBits.toBitVec : BitVec Format.binary64.numBits) = b
  have hbits : x.toBits.toNat = b.toNat := hb ▸ rfl
  rw [hbits, ← toNat_unpackExponent, ← toNat_unpackMantissa, ← isNegative_unpackSign]
  have hread := reads_unpack b
  generalize UnpackedFloat.unpack .binary64 b = u at hread
  cases hread with
  | nan hexp hmant =>
    have hne : (@unpackMantissa .binary64 b).toNat ≠ 0 := fun h => hmant (BitVec.eq_of_toNat_eq h)
    rw [if_pos (by rw [hexp]; rfl), if_neg hne]
    rfl
  | infinity hexp hmant =>
    rw [if_pos (by rw [hexp]; rfl), if_pos (by rw [hmant]; rfl)]
    rfl
  | zero hexp hmant =>
    rw [if_neg (by rw [hexp]; decide), if_pos (by rw [hexp]; rfl), hmant]
    rfl
  | subnormal hexp =>
    rw [if_neg (by rw [hexp]; decide), if_pos (by rw [hexp]; rfl)]
    rfl
  | normal hlo hhi =>
    rw [if_neg hhi.ne, if_neg hlo.ne', parts, Binary64.leastExponent]
    congr 1
    omega

/-! ## Reading a number -/

section
variable {n : Nat} {j k : Int}

theorem lt_leading (h : (10 : Rat) ^ j ≤ n * 10 ^ k) : j < (Nat.toDigits 10 n).length + k := by
  have hlength : (n : Rat) < 10 ^ (Nat.toDigits 10 n).length := by exact_mod_cast lt_pow_length n
  have hlt : (10 : Rat) ^ j < 10 ^ ((Nat.toDigits 10 n).length + k) := calc
    (10 : Rat) ^ j ≤ n * 10 ^ k := h
    _ < 10 ^ (Nat.toDigits 10 n).length * 10 ^ k :=
      mul_lt_mul_of_pos_right hlength (by positivity)
    _ = 10 ^ ((Nat.toDigits 10 n).length + k) := by rw [zpow_add₀ (by norm_num), zpow_natCast]
  exact (zpow_lt_zpow_iff_right₀ (by norm_num)).1 hlt

theorem leading_le (hn : 0 < n) (h : (n : Rat) * 10 ^ k < 10 ^ j) :
    (Nat.toDigits 10 n).length + k ≤ j := by
  have hlength : (10 ^ ((Nat.toDigits 10 n).length - 1) : Rat) ≤ n := by
    exact_mod_cast pow_length_le hn
  have hlt : (10 : Rat) ^ (((Nat.toDigits 10 n).length - 1 : Nat) + k) < 10 ^ j := calc
    (10 : Rat) ^ (((Nat.toDigits 10 n).length - 1 : Nat) + k)
      = 10 ^ ((Nat.toDigits 10 n).length - 1) * 10 ^ k := by
        rw [zpow_add₀ (by norm_num), zpow_natCast]
    _ ≤ n * 10 ^ k := mul_le_mul_of_nonneg_right hlength (by positivity)
    _ < 10 ^ j := h
  rw [zpow_lt_zpow_iff_right₀ (by norm_num)] at hlt
  omega

end

section
variable {x : Float} {m : Nat} {e : Int} {h : 0 < m}
  (hx : x.toModel.unpack = .finite .positive m e h)
include hx

/-- The float nearest to a decimal is the one whose interval the decimal lies in. -/
theorem nearest_eq {n : Nat} {k : Int} (hnear : Near m e (n * 10 ^ k)) : nearest n k = x := by
  have hcanon := canonical_of_unpack hx
  have he := exponent_le_of_unpack hx
  have hleast : (10 : Rat) ^ (-325 : Int) ≤ n * 10 ^ k :=
    ten_zpow_le.trans (hnear.zpow_le hcanon h)
  have hgreatest : (n : Rat) * 10 ^ k < 10 ^ (310 : Int) := calc
    (n : Rat) * 10 ^ k < 2 ^ (53 + e) := hnear.lt_zpow hcanon
    _ ≤ 2 ^ (1025 : Int) := zpow_le_zpow_right₀ one_le_two (by omega)
    _ ≤ 10 ^ (310 : Int) := two_pow_le_ten_pow (a := 205) (b := 62) (by norm_num) 5
  have hn : 0 < n := by
    by_contra hzero
    rw [Nat.eq_zero_of_not_pos hzero, Nat.cast_zero, zero_mul] at hleast
    exact absurd hleast (not_le.2 (by positivity))
  have hnotSmall : ¬(n = 0 ∨ (Nat.toDigits 10 n).length + k < leastLeading) := by
    have hlt := lt_leading hleast
    rw [leastLeading]
    omega
  have hnotLarge : ¬((Nat.toDigits 10 n).length + k > greatestLeading) :=
    not_lt.2 (leading_le hn hgreatest)
  unfold nearest
  simp only
  rw [if_neg hnotSmall, if_neg hnotLarge]
  split
  · rename_i hk
    obtain ⟨j, rfl⟩ : ∃ j : Nat, k = -j := ⟨(-k).toNat, by omega⟩
    rw [neg_neg, Int.toNat_natCast]
    exact ofScientific_eq hx hn hnear
  · rename_i hk
    obtain ⟨j, rfl⟩ := Int.eq_ofNat_of_zero_le (not_lt.1 hk)
    exact ofScientific_eq hx hn hnear

theorem readUnsigned?_positional :
    readUnsigned? (positional (digits m e).1 (digits m e).2) = some x := by
  obtain ⟨whole, part, htext, hwhole, hpart, hne, hvalue⟩ :=
    exists_withPart (digits m e).1 (digits m e).2
  rw [htext, readUnsigned?_withPart hwhole hpart hne]
  refine congrArg some (nearest_eq hx ?_)
  rw [hvalue]
  exact near_digits (canonical_of_unpack hx) h

end

/-! ## Signs and words -/

theorem spanSign_eq {c : Char} {s : List Char} (hc : c.isDigit = true ∨ c = 'i') :
    spanSign (c :: s) = (false, c :: s) := by
  rw [spanSign]
  · rintro t ⟨rfl, -⟩
    revert hc
    decide
  · rintro t ⟨rfl, -⟩
    revert hc
    decide

theorem readWord?_eq_none {c : Char} {s : List Char} (hc : c.isDigit = true) :
    readWord? (c :: s) = none := by
  have hlower : c.toLower = c := by
    rw [Char.isDigit, Bool.and_eq_true, decide_eq_true_iff, decide_eq_true_iff] at hc
    refine dif_neg fun hupper => ?_
    exact absurd (UInt32.le_trans hupper.1 hc.2) (by decide)
  have hi : c ≠ 'i' := by
    rintro rfl
    revert hc
    decide
  have hn : c ≠ 'n' := by
    rintro rfl
    revert hc
    decide
  simp [readWord?, hlower, hi, hn]

/-- A sign is read on its own. -/
theorem read?_signed {c : Char} {s : List Char} (hc : c.isDigit = true ∨ c = 'i') {x : Float}
    (hread : (readWord? (c :: s)).or (readUnsigned? (c :: s)) = some x) (negative : Bool) :
    read? (signed negative (c :: s)).toList = some (if negative then -x else x) := by
  rw [signed, String.toList_ofList]
  cases negative with
  | true =>
    show ((readWord? (c :: s)).or (readUnsigned? (c :: s))).map _ = _
    rw [hread]
    rfl
  | false =>
    simp only [read?, Bool.false_eq_true, if_false, spanSign_eq hc, hread]
    rfl

/-- Every float is read from its own text. -/
theorem read?_shortest (x : Float) : read? (shortest x).toList = some x := by
  rw [shortest, ofFloat_eq]
  cases hx : x.toModel.unpack with
  | notANumber =>
    have hnan : (0.0 / 0.0 : Float).isNaN = true := by decide +kernel
    exact congrArg some (eq_of_isNaN hnan (Double.isNaN_iff.2 hx))
  | infinity s =>
    refine (read?_signed (.inr rfl) (x := 1.0 / 0.0) rfl _).trans (congrArg some (eq_of_unpack ?_))
    rw [hx]
    cases s <;> rfl
  | zero s =>
    refine (read?_signed (.inl rfl) (x := 0.0) rfl _).trans (congrArg some (eq_of_unpack ?_))
    rw [hx]
    cases s <;> rfl
  | finite s m e h =>
    obtain ⟨y, hy⟩ : ∃ y : Float, y.toModel.unpack = .finite .positive m e h :=
      ⟨.ofModel (.pack (.finite .positive m e h)),
        unpack_pack (canonical_of_unpack hx) (exponent_le_of_unpack hx) h⟩
    obtain ⟨m, rfl⟩ := Nat.exists_eq_add_one_of_ne_zero h.ne'
    have hread := readUnsigned?_positional hy
    obtain ⟨c, t, htext, hc⟩ := positional_eq_cons (digits (m + 1) e).1 (digits (m + 1) e).2
    rw [htext] at hread
    have hboth : (readWord? (c :: t)).or (readUnsigned? (c :: t)) = some y := by
      rw [readWord?_eq_none hc, hread]
      rfl
    simp only [parts, htext]
    refine (read?_signed (.inl hc) hboth _).trans (congrArg some ?_)
    cases s with
    | positive => exact eq_of_unpack (hy.trans hx.symm)
    | negative => exact neg_eq hx hy

end PubSub.Decimal

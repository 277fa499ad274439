import Mathlib

/-!
# Doubles and their bit patterns

A double is what its bit pattern reads as, and all bit patterns of NaN read as the same one. So a
double is written by its bit pattern and read back without loss (`Double.ofBits_toBits`), and two
bit patterns read as the same double only if they are equal or both NaN (`Double.ofBits_eq_iff`).

`Double.Reads` says which mantissas and exponents a bit pattern can read as; the order of doubles
rests on it.
-/

namespace PubSub.Double

open Float.Model Float.Model.UnpackedFloat

/-! ## The three fields of a bit pattern -/

theorem sign_of_toBitVec (s : Sign) : Sign.ofBitVec s.toBitVec = s := by
  cases s <;> rfl

theorem toBitVec_ofBitVec (b : BitVec 1) : (Sign.ofBitVec b).toBitVec = b := by
  revert b; decide

/-- A bit pattern is its sign, its exponent and its fraction. -/
theorem packComponents_fields (b : BitVec Format.binary64.numBits) :
    packComponents .binary64 (Sign.ofBitVec (unpackSign b)) (unpackExponent b) (unpackMantissa b)
      = b := by
  rw [packComponents, toBitVec_ofBitVec]
  refine BitVec.eq_of_getLsbD_eq fun i hi => ?_
  simp only [unpackSign, unpackExponent, unpackMantissa, BitVec.getLsbD_append,
    BitVec.getLsbD_cast, BitVec.getLsbD_extract]
  grind

theorem unpackSign_packComponents (s : Sign) (e : BitVec 11) (m : BitVec 52) :
    unpackSign (packComponents .binary64 s e m) = s.toBitVec := by
  show (s.toBitVec ++ e ++ m).extractLsb' 63 1 = s.toBitVec
  rw [BitVec.extractLsb'_append_eq_of_le (by decide),
    BitVec.extractLsb'_append_eq_of_le (by decide)]
  cases s <;> rfl

/-- The leading bit of a normal mantissa, which its bit pattern leaves out. -/
theorem toNat_implicit (m : BitVec 52) : (1#1 ++ m).toNat = 2 ^ 52 + m.toNat := by
  rw [BitVec.toNat_append, ← Nat.shiftLeft_add_eq_or_of_lt m.isLt]
  rfl

/-! ## Packing -/

/-- The bit pattern of a normal double whose exponent field is `field`. -/
theorem pack_normal (s : Sign) {m : Nat} {e : Int} (h : 0 < m) {field : Nat}
    (hlo : 2 ^ 52 ≤ m) (hhi : m < 2 ^ 53) (he : e = field - 1075) (hfield : field < 2047) :
    UnpackedFloat.pack .binary64 (.finite s m e h)
      = packComponents .binary64 s (BitVec.ofNat 11 field) (BitVec.ofNat 52 m) := by
  have hlog : m.log2 = 52 := (Nat.log2_eq_iff (by omega)).2 ⟨hlo, hhi⟩
  have hbias : (e + (Format.binary64.exponentBias : Int) + (52 : Nat)).toNat = field := by
    show (e + 1023 + 52).toNat = field
    omega
  rw [UnpackedFloat.pack]
  simp only [hbias, hlog]
  rw [if_neg (by show ¬ 2 ^ 11 ≤ field + 1; omega)]
  exact if_pos (by decide)

/-- The bit pattern of a subnormal double. -/
theorem pack_subnormal (s : Sign) {m : Nat} (h : 0 < m) (hm : m < 2 ^ 52) :
    UnpackedFloat.pack .binary64 (.finite s m (-1074) h)
      = packComponents .binary64 s 0#11 (BitVec.ofNat 52 m) := by
  have hlog : m.log2 < 52 := (Nat.log2_lt (by omega)).2 hm
  rw [UnpackedFloat.pack]
  simp only [show ((-1074 : Int) + (Format.binary64.exponentBias : Int) + (52 : Nat)).toNat = 1
    by decide]
  rw [if_neg (by decide), if_neg (by show ¬ m.log2 + 1 = 53; omega)]

/-- What a bit pattern reads as, and what this says about its exponent and its fraction. -/
inductive Reads (b : BitVec Format.binary64.numBits) : UnpackedFloat → Prop where
  | nan (he : unpackExponent b = -1#11) (hf : unpackMantissa b ≠ 0#52) : Reads b .notANumber
  | infinity (he : unpackExponent b = -1#11) (hf : unpackMantissa b = 0#52) :
    Reads b (.infinity (Sign.ofBitVec (unpackSign b)))
  | zero (he : unpackExponent b = 0#11) (hf : unpackMantissa b = 0#52) :
    Reads b (.zero (Sign.ofBitVec (unpackSign b)))
  | subnormal (he : unpackExponent b = 0#11) (h : 0 < (unpackMantissa b).toNat) :
    Reads b (.finite (Sign.ofBitVec (unpackSign b)) (unpackMantissa b).toNat (-1074) h)
  | normal (hlo : 0 < (unpackExponent b).toNat) (hhi : (unpackExponent b).toNat < 2047)
    (h : 0 < 2 ^ 52 + (unpackMantissa b).toNat) :
    Reads b (.finite (Sign.ofBitVec (unpackSign b)) (2 ^ 52 + (unpackMantissa b).toNat)
      ((unpackExponent b).toNat - 1075) h)

theorem reads_unpack (b : BitVec Format.binary64.numBits) :
    Reads b (UnpackedFloat.unpack .binary64 b) := by
  have hbound : (unpackExponent b).toNat < 2048 := (unpackExponent b).isLt
  unfold UnpackedFloat.unpack
  simp only
  split
  · rename_i hones
    split
    · rename_i hzero
      exact .infinity hones hzero
    · rename_i hzero
      exact .nan hones hzero
  · rename_i hones
    split
    · rename_i hexp
      split
      · rename_i hzero
        exact .zero hexp hzero
      · have hleast : ((unpackExponent b).toNat : Int) -
            ((Format.binary64.exponentBias : Int) + (52 : Nat)) + 1 = -1074 := by
          rw [hexp]; rfl
        rw! [hleast]
        exact .subnormal hexp _
    · rename_i hexp
      have hne : (unpackExponent b).toNat ≠ 2047 := fun h => hones (BitVec.eq_of_toNat_eq h)
      have hpos : (unpackExponent b).toNat ≠ 0 := fun h => hexp (BitVec.eq_of_toNat_eq h)
      simp only [toNat_implicit]
      exact .normal (by omega) (by omega) _

/-- Packing gives back any bit pattern that is not one of NaN. -/
theorem pack_unpack {b : BitVec Format.binary64.numBits}
    (h : UnpackedFloat.unpack .binary64 b ≠ .notANumber) :
    UnpackedFloat.pack .binary64 (UnpackedFloat.unpack .binary64 b) = b := by
  have hself := packComponents_fields b
  have hm : (unpackMantissa b).toNat < 2 ^ 52 := (unpackMantissa b).isLt
  have hb := reads_unpack b
  generalize UnpackedFloat.unpack .binary64 b = u at h hb
  cases hb with
  | nan he hf => exact absurd rfl h
  | infinity he hf => rw [he, hf] at hself; exact hself
  | zero he hf => rw [he, hf] at hself; exact hself
  | subnormal he hpos =>
    rw [pack_subnormal _ hpos hm, ← he, BitVec.ofNat_toNat, BitVec.setWidth_eq]
    exact hself
  | normal hlo hhi hpos =>
    have hfrac : BitVec.ofNat 52 (2 ^ 52 + (unpackMantissa b).toNat) = unpackMantissa b :=
      BitVec.eq_of_toNat_eq (by rw [BitVec.toNat_ofNat]; omega)
    rw [pack_normal _ hpos (by omega) (by omega) rfl hhi, hfrac, BitVec.ofNat_toNat,
      BitVec.setWidth_eq]
    exact hself

/-! ## Bit patterns of doubles -/

/-- A double is NaN exactly if its bit pattern reads so. -/
theorem isNaN_iff {x : Float} : x.isNaN = true ↔ x.toModel.unpack = .notANumber := by
  show x.toModel.unpack.isNaN = true ↔ _
  cases x.toModel.unpack <;> simp [UnpackedFloat.isNaN]

/-- Packing gives back the bit pattern of a double; NaN has only one. -/
theorem pack_unpack_toModel (x : Float) :
    UnpackedFloat.pack .binary64 x.toModel.unpack = x.toModel.toBits.toBitVec := by
  by_cases hnan : x.toModel.unpack = .notANumber
  · have hb := reads_unpack x.toModel.toBits.toBitVec
    rw [show UnpackedFloat.unpack _ _ = UnpackedFloat.notANumber from hnan] at hb
    cases hb with
    | nan he hf => rw [hnan, x.toModel.valid.eq_packedNaN he hf]; rfl
  · exact pack_unpack hnan

theorem eq_of_toBits {x y : Float} (h : x.toBits = y.toBits) : x = y := by
  obtain ⟨⟨a, ha⟩⟩ := x
  obtain ⟨⟨b, hb⟩⟩ := y
  obtain rfl : a = b := h
  rfl

/-- A double is read back from its bit pattern. -/
theorem ofBits_toBits (x : Float) : Float.ofBits x.toBits = x :=
  eq_of_toBits (congrArg UInt64.ofBitVec (pack_unpack_toModel x))

/-- A bit pattern that does not read as NaN is the one of its double. -/
theorem toBits_ofBits {a : UInt64} (h : (Float.ofBits a).isNaN = false) :
    (Float.ofBits a).toBits = a := by
  refine (congrArg UInt64.ofBitVec (pack_unpack fun hnan => ?_)).trans (UInt64.ofBitVec_toBitVec a)
  have hread : (Float.ofBits a).isNaN = true := by
    show ((Float.Model.pack (UnpackedFloat.unpack .binary64 a.toBitVec)).unpack).isNaN = true
    rw [hnan]; rfl
  exact Bool.false_ne_true (h.symm.trans hread)

/-- There is only one NaN. -/
theorem eq_of_isNaN {x y : Float} (hx : x.isNaN = true) (hy : y.isNaN = true) : x = y := by
  refine eq_of_toBits (UInt64.toBitVec_inj.1 ?_)
  show x.toModel.toBits.toBitVec = y.toModel.toBits.toBitVec
  rw [← pack_unpack_toModel x, ← pack_unpack_toModel y, isNaN_iff.1 hx, isNaN_iff.1 hy]

/-- Bit patterns that read as the same double: equal ones, and any two of NaN. -/
def Same (a b : UInt64) : Prop :=
  a = b ∨ ((Float.ofBits a).isNaN = true ∧ (Float.ofBits b).isNaN = true)

instance (a b : UInt64) : Decidable (Same a b) := inferInstanceAs (Decidable (_ ∨ _))

theorem Same.refl (a : UInt64) : Same a a := .inl rfl

theorem ofBits_eq_iff {a : UInt64} {x : Float} : Float.ofBits a = x ↔ Same a x.toBits := by
  constructor
  · rintro rfl
    cases hnan : (Float.ofBits a).isNaN with
    | false => exact .inl (toBits_ofBits hnan).symm
    | true => exact .inr ⟨hnan, by rw [ofBits_toBits]; exact hnan⟩
  · rintro (rfl | ⟨ha, hx⟩)
    · exact ofBits_toBits x
    · rw [ofBits_toBits] at hx
      exact eq_of_isNaN ha hx

/-- Only NaN has more than one bit pattern. -/
theorem Same.eq {a : UInt64} {x : Float} (h : Same a x.toBits) (hx : x.isNaN = false) :
    a = x.toBits := by
  obtain rfl | ⟨-, hnan⟩ := h
  · rfl
  · rw [ofBits_toBits, hx] at hnan
    contradiction

end PubSub.Double

import PubSub.Proofs.Double.Bits

/-!
# Differences of doubles that are not negative

A difference is rounded, but rounding does not change its sign. So the difference of a finite double
and one that is not greater is at least 0 (`Double.zero_le_sub`), and so is what is at least 0 less
a finite double that is not positive (`Double.zero_le_sub_of_nonPos`). The difference of any two
finite doubles is not NaN (`Double.isNaN_sub`), so it compares equal to itself. To subtract -1 is to
add 1 (`Double.sub_neg_one`).

The comparison of two finite doubles looks at their exponents first. It is the comparison of their
values because a mantissa is only short if its exponent is the least one (`Double.Canonical`).
-/

namespace PubSub.Double

open Float.Model Float.Model.UnpackedFloat

/-! ## Signs -/

/-- At least 0. -/
def nonNeg : UnpackedFloat → Bool
  | .infinity .positive => true
  | .zero _ => true
  | .finite .positive _ _ _ => true
  | _ => false

theorem le_iff {x y : Float} : x ≤ y ↔ x.toModel.unpack.le y.toModel.unpack = true := by
  show (Float.le x y = true) ↔ _
  simp only [Float.le, decide_eq_true_iff]
  rfl

theorem unpack_zero : (0.0 : Float).toModel.unpack = .zero .positive := by rfl

theorem zero_le_iff {x : Float} : 0.0 ≤ x ↔ nonNeg x.toModel.unpack = true := by
  rw [le_iff, unpack_zero]
  generalize x.toModel.unpack = u
  rcases u with (_ | _) | _ | _ | ⟨_ | _, _, _, _⟩ <;>
    simp [UnpackedFloat.le, UnpackedFloat.compare, nonNeg]

/-! ## Packing and rounding keep the sign -/

/-- What a number of this sign can be read as once it has been packed: it may also have been too
great or too small. -/
inductive HasSign (s : Sign) : UnpackedFloat → Prop where
  | infinity : HasSign s (.infinity s)
  | zero : HasSign s (.zero s)
  | finite (m : Nat) (e : Int) (h : 0 < m) : HasSign s (.finite s m e h)

theorem hasSign_unpack_packComponents (s : Sign) (e : BitVec 11) (m : BitVec 52)
    (he : e ≠ -1#11) :
    HasSign s (UnpackedFloat.unpack .binary64 (packComponents .binary64 s e m)) := by
  have hsign : Sign.ofBitVec (unpackSign (packComponents .binary64 s e m)) = s := by
    rw [unpackSign_packComponents, sign_of_toBitVec]
  have hexp : unpackExponent (packComponents .binary64 s e m) = e :=
    unpackExponent_packComponents
  have hread := reads_unpack (packComponents .binary64 s e m)
  generalize UnpackedFloat.unpack .binary64 (packComponents .binary64 s e m) = u at hread
  cases hread with
  | nan hones => exact absurd (hexp.symm.trans hones) he
  | infinity hones => exact absurd (hexp.symm.trans hones) he
  | zero => rw [hsign]; exact .zero
  | subnormal => rw [hsign]; exact .finite ..
  | normal => rw [hsign]; exact .finite ..

theorem HasSign.unpack_pack {s : Sign} {u : UnpackedFloat} (h : HasSign s u) :
    HasSign s (UnpackedFloat.unpack .binary64 (UnpackedFloat.pack .binary64 u)) := by
  have hinfinity : HasSign s (UnpackedFloat.unpack .binary64 (packedInfinity .binary64 s)) := by
    cases s <;> exact .infinity
  cases h with
  | infinity => exact hinfinity
  | zero => cases s <;> exact .zero
  | finite m e hm =>
    rw [UnpackedFloat.pack]
    simp only
    split
    · exact hinfinity
    · rename_i hfield
      split
      · refine hasSign_unpack_packComponents _ _ _ fun hones => ?_
        have hmod := congrArg BitVec.toNat hones
        rw [BitVec.toNat_ofNat, Nat.mod_eq_of_lt (by omega)] at hmod
        have hlast : (-1#11).toNat = 2047 := rfl
        omega
      · exact hasSign_unpack_packComponents _ _ _ (by decide)

theorem HasSign.nonNeg {u : UnpackedFloat} (h : HasSign .positive u) : nonNeg u = true := by
  cases h <;> rfl

theorem nonNeg_unpack_pack {u : UnpackedFloat} (h : nonNeg u = true) :
    nonNeg (UnpackedFloat.unpack .binary64 (UnpackedFloat.pack .binary64 u)) = true := by
  match u, h with
  | .infinity .positive, _ => exact HasSign.infinity.unpack_pack.nonNeg
  | .zero .positive, _ => exact HasSign.zero.unpack_pack.nonNeg
  | .zero .negative, _ => decide +kernel
  | .finite .positive m e hm, _ => exact (HasSign.finite m e hm).unpack_pack.nonNeg

/-- What is not NaN has a sign. -/
theorem exists_hasSign_iff {u : UnpackedFloat} : (∃ s, HasSign s u) ↔ u.isNaN = false := by
  constructor
  · rintro ⟨s, h⟩
    cases h <;> rfl
  · intro h
    match u, h with
    | .infinity s, _ => exact ⟨s, .infinity⟩
    | .zero s, _ => exact ⟨s, .zero⟩
    | .finite s m e hm, _ => exact ⟨s, .finite m e hm⟩

theorem isNaN_unpack_pack {u : UnpackedFloat} (h : u.isNaN = false) :
    (UnpackedFloat.unpack .binary64 (UnpackedFloat.pack .binary64 u)).isNaN = false := by
  obtain ⟨s, hs⟩ := exists_hasSign_iff.2 h
  exact exists_hasSign_iff.1 ⟨s, hs.unpack_pack⟩

/-- Rounding what is not negative gives nothing negative. -/
theorem nonNeg_normalize {m : Int} (h : 0 ≤ m) (e : Int) :
    nonNeg (UnpackedFloat.normalize .binary64 m e .positive) = true := by
  unfold UnpackedFloat.normalize
  split
  · rename_i hlt
    exact absurd (Std.compare_eq_lt.1 hlt) (by omega)
  · rfl
  · simp only [UnpackedFloat.round, UnpackedFloat.roundWithAccuracy]
    split <;> rfl

/-! ## Differences -/

/-- A mantissa is only short if its exponent is the least one. -/
def Canonical (m : Nat) (e : Int) : Prop :=
  m < 2 ^ 53 ∧ (e = -1074 ∨ (-1074 < e ∧ 2 ^ 52 ≤ m))

theorem canonical_of_unpack {x : Float} {s : Sign} {m : Nat} {e : Int} {h : 0 < m}
    (hx : x.toModel.unpack = .finite s m e h) : Canonical m e := by
  have hread := reads_unpack x.toModel.toBits.toBitVec
  rw [show UnpackedFloat.unpack _ _ = UnpackedFloat.finite s m e h from hx] at hread
  cases hread with
  | subnormal =>
    exact ⟨Nat.lt_trans (BitVec.isLt _) (by decide), .inl rfl⟩
  | normal hlo =>
    refine ⟨?_, ?_⟩
    · exact Nat.add_lt_add_left (BitVec.isLt _) (2 ^ 52)
    · omega

theorem le_finite_iff {m n : Nat} {d e : Int} {hm : 0 < m} {hn : 0 < n} :
    (UnpackedFloat.finite .positive m d hm).le (.finite .positive n e hn) = true ↔
      d < e ∨ d = e ∧ m ≤ n := by
  simp only [UnpackedFloat.le, UnpackedFloat.compare, Option.any_some]
  rcases Int.lt_trichotomy d e with h | h | h
  · simp [Std.compare_eq_lt.2 h, h]
  · simp [h, Nat.isLE_compare]
  · simp [Std.compare_eq_gt.2 h, Int.le_of_lt h, Int.ne_of_gt h]

/-- Two doubles in order are in the same order when written with a common exponent. -/
theorem shiftLeft_le_shiftLeft {m n : Nat} {d e : Int} (hm : Canonical m d) (hn : Canonical n e)
    (h : d < e ∨ d = e ∧ m ≤ n) : m <<< (d - min e d).toNat ≤ n <<< (e - min e d).toNat := by
  obtain hlt | ⟨rfl, hle⟩ := h
  · obtain ⟨hshort, hleast⟩ := hm
    obtain ⟨-, hlong⟩ := hn
    have hfull : 2 ^ 52 ≤ n := by omega
    have hshift : 1 ≤ (e - min e d).toNat := by omega
    calc m <<< (d - min e d).toNat
        = m := by rw [show (d - min e d).toNat = 0 by omega]; rfl
      _ ≤ n * 2 ^ 1 := by omega
      _ ≤ n * 2 ^ (e - min e d).toNat :=
          Nat.mul_le_mul_left n (Nat.pow_le_pow_right (by decide) hshift)
      _ = n <<< (e - min e d).toNat := (Nat.shiftLeft_eq ..).symm
  · rw [Nat.shiftLeft_eq, Nat.shiftLeft_eq]
    exact Nat.mul_le_mul_right _ hle

theorem zero_le_sub_iff {x y : Float} :
    0.0 ≤ x - y ↔ nonNeg (UnpackedFloat.unpack .binary64
      (UnpackedFloat.pack .binary64 (UnpackedFloat.sub .binary64 x.toModel.unpack
        y.toModel.unpack))) = true :=
  zero_le_iff

/-- What is at least 0, less a finite number that is at most 0, is at least 0. -/
theorem zero_le_sub_of_nonPos {x y : Float} (hx : 0.0 ≤ x) (hy : y ≤ 0.0)
    (hfinite : y.isFinite = true) : 0.0 ≤ x - y := by
  rw [zero_le_iff] at hx
  rw [le_iff, unpack_zero] at hy
  replace hfinite : y.toModel.unpack.isFinite = true := hfinite
  refine zero_le_sub_iff.2 (nonNeg_unpack_pack ?_)
  generalize x.toModel.unpack = u at hx
  generalize y.toModel.unpack = v at hy hfinite
  match u, v, hx, hy, hfinite with
  | .infinity .positive, .zero _, _, _, _ => rfl
  | .infinity .positive, .finite _ _ _ _, _, _, _ => rfl
  | .zero s, .zero t, _, _, _ => cases s <;> cases t <;> rfl
  | .zero _, .finite .negative _ _ _, _, _, _ => rfl
  | .finite .positive _ _ _, .zero _, _, _, _ => rfl
  | .finite .positive m _ _, .finite .negative n _ _, _, _, _ =>
    refine nonNeg_normalize (Int.sub_nonneg.2 ?_) _
    exact Int.le_trans (Int.neg_nonpos_of_nonneg (Int.natCast_nonneg _)) (Int.natCast_nonneg _)

/-- A finite number, less one between 0 and it, is at least 0. -/
theorem zero_le_sub {x y : Float} (hy : 0.0 ≤ y) (hyx : y ≤ x) (hx : x.isFinite = true) :
    0.0 ≤ x - y := by
  rw [zero_le_iff] at hy
  rw [le_iff] at hyx
  replace hx : x.toModel.unpack.isFinite = true := hx
  refine zero_le_sub_iff.2 (nonNeg_unpack_pack ?_)
  have hcx := @canonical_of_unpack x
  have hcy := @canonical_of_unpack y
  generalize x.toModel.unpack = u at hyx hx hcx
  generalize y.toModel.unpack = v at hy hyx hcy
  match u, v, hy, hyx, hx with
  | .zero s, .zero t, _, _, _ => cases s <;> cases t <;> rfl
  | .finite .positive _ _ _, .zero _, _, _, _ => rfl
  | .finite .positive m d hm, .finite .positive n e hn, _, hle, _ =>
    have hshift := shiftLeft_le_shiftLeft (hcy rfl) (hcx rfl) (le_finite_iff.1 hle)
    exact nonNeg_normalize (Int.sub_nonneg.2 (Int.ofNat_le.2 hshift)) _

theorem isNaN_round (s : Sign) (m : Nat) (e : Int) :
    (UnpackedFloat.round .binary64 s m e).isNaN = false := by
  simp only [UnpackedFloat.round, UnpackedFloat.roundWithAccuracy]
  split <;> rfl

theorem isNaN_normalize (m e : Int) (s : Sign) :
    (UnpackedFloat.normalize .binary64 m e s).isNaN = false := by
  unfold UnpackedFloat.normalize
  split
  · exact isNaN_round ..
  · rfl
  · exact isNaN_round ..

/-- The difference of two finite numbers may be too great for one, but it is not NaN. -/
theorem isNaN_sub {x y : Float} (hx : x.isFinite = true) (hy : y.isFinite = true) :
    (x - y).isNaN = false := by
  replace hx : x.toModel.unpack.isFinite = true := hx
  replace hy : y.toModel.unpack.isFinite = true := hy
  show (UnpackedFloat.unpack .binary64 (UnpackedFloat.pack .binary64
    (UnpackedFloat.sub .binary64 x.toModel.unpack y.toModel.unpack))).isNaN = false
  refine isNaN_unpack_pack ?_
  generalize x.toModel.unpack = u at hx
  generalize y.toModel.unpack = v at hy
  match u, v, hx, hy with
  | .zero s, .zero t, _, _ => cases s <;> cases t <;> rfl
  | .zero _, .finite _ _ _ _, _, _ => rfl
  | .finite _ _ _ _, .zero _, _, _ => rfl
  | .finite _ _ _ _, .finite _ _ _ _, _, _ => exact isNaN_normalize _ _ _

theorem le_self {x : Float} (h : 0.0 ≤ x) : x ≤ x := by
  rw [zero_le_iff] at h
  rw [le_iff]
  generalize x.toModel.unpack = u at h
  match u, h with
  | .infinity .positive, _ => rfl
  | .zero _, _ => rfl
  | .finite .positive _ _ _, _ => exact le_finite_iff.2 (.inr ⟨rfl, Nat.le_refl _⟩)

theorem lt_iff {x y : Float} : x < y ↔ x.toModel.unpack.lt y.toModel.unpack = true := by
  show (Float.lt x y = true) ↔ _
  simp only [Float.lt, decide_eq_true_iff]
  rfl

/-- All but NaN compares equal to itself. -/
theorem beq_self_of_isNaN {x : Float} (h : x.isNaN = false) : (x == x) = true := by
  replace h : x.toModel.unpack.isNaN = false := h
  show x.toModel.unpack.beq x.toModel.unpack = true
  generalize x.toModel.unpack = u at h
  match u, h with
  | .infinity s, _ => cases s <;> rfl
  | .zero _, _ => rfl
  | .finite s _ _ _, _ => cases s <;> simp [UnpackedFloat.beq, UnpackedFloat.compare]

/-- What is at least 0 compares equal to itself. -/
theorem beq_self {x : Float} (h : 0.0 ≤ x) : (x == x) = true := by
  rw [zero_le_iff] at h
  refine beq_self_of_isNaN ?_
  show x.toModel.unpack.isNaN = false
  generalize x.toModel.unpack = u at h
  cases u with
  | notANumber => cases h
  | infinity | zero | finite => rfl

/-- What is at least 0 and not greater is one of the two zeros. -/
theorem zero_beq {x : Float} (h : 0.0 ≤ x) (hlt : ¬ 0.0 < x) : (0.0 == x) = true := by
  rw [zero_le_iff] at h
  rw [lt_iff, unpack_zero] at hlt
  show (0.0 : Float).toModel.unpack.beq x.toModel.unpack = true
  rw [unpack_zero]
  generalize x.toModel.unpack = u at h hlt
  match u, h, hlt with
  | .infinity .positive, _, hlt => exact absurd rfl hlt
  | .zero _, _, _ => rfl
  | .finite .positive _ _ _, _, hlt => exact absurd rfl hlt

/-! ## Sums -/

/-- Subtracting is adding the negation. -/
theorem unpacked_sub_eq_add (fmt : Format) (u v : UnpackedFloat) :
    UnpackedFloat.sub fmt u v = UnpackedFloat.add fmt u v.neg := by
  have hflip (s : Sign) (n : Int) : (-s).apply n = -s.apply n := by
    cases s
    · exact (Int.neg_neg n).symm
    · rfl
  cases u <;> cases v <;> try rfl
  simp only [UnpackedFloat.sub, UnpackedFloat.add, UnpackedFloat.neg, hflip, ← Int.sub_eq_add_neg]

theorem sub_neg_one (x : Float) : x - (-1.0) = x + 1.0 := by
  have hone : (-1.0 : Float).toModel.unpack.neg = (1.0 : Float).toModel.unpack := rfl
  show Float.ofModel (Float.Model.pack (UnpackedFloat.sub .binary64 _ _)) =
    Float.ofModel (Float.Model.pack _)
  rw [unpacked_sub_eq_add, hone]

end PubSub.Double

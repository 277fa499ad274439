import PubSub.Proofs.Double.Rounding

/-!
# Scientific notation

`Float.ofScientific` takes one of two ways. Short mantissas and small powers of ten are doubles
themselves and are multiplied or divided as doubles; all others go through exact natural numbers.
Both round once, so both give the double whose interval the decimal lies in
(`Double.ofScientific_eq`).
-/

namespace PubSub.Double

open Float.Model Float.Model.UnpackedFloat

/-! ## Products and quotients -/

/-- A quotient lies where its remainder says. -/
theorem locates_div (a : Nat) {b : Nat} (hb : 0 < b) :
    Locates (.ofMantissaAndAccuracy (a / b) (accuracyOfFraction (a % b) b)) (a / b : Rat) := by
  have hpos : (0 : Rat) < b := by exact_mod_cast hb
  have hdiv : (b * (a / b : Nat) + (a % b : Nat) : Rat) = a := by exact_mod_cast Nat.div_add_mod a b
  have hlt : ((a % b : Nat) / b : Rat) < 1 := by
    rw [div_lt_one hpos]
    exact_mod_cast Nat.mod_lt a hb
  have hvalue : (a / b : Rat) = (a / b : Nat) + (a % b : Nat) / b := by
    rw [← hdiv]
    field_simp
  rw [hvalue, accuracyOfFraction]
  split
  · rename_i hzero
    simp [ExtendedMantissa.ofMantissaAndAccuracy, Locates, hzero]
  · rename_i hne
    have hrest : (0 : Rat) < (a % b : Nat) / b :=
      div_pos (by exact_mod_cast Nat.pos_of_ne_zero hne) hpos
    cases hcompare : compare (2 * (a % b)) b with
    | lt =>
      have htwice : (2 * (a % b : Nat) : Rat) < b := by exact_mod_cast Nat.compare_eq_lt.1 hcompare
      have hhalf : ((a % b : Nat) / b : Rat) < 1 / 2 := by
        rw [div_lt_iff₀ hpos]
        linarith
      exact ⟨by linarith, by linarith⟩
    | eq =>
      have htwice : (2 * (a % b : Nat) : Rat) = b := by exact_mod_cast Nat.compare_eq_eq.1 hcompare
      have hhalf : ((a % b : Nat) / b : Rat) = 1 / 2 := by
        rw [div_eq_iff hpos.ne']
        linarith
      exact congrArg _ hhalf
    | gt =>
      have htwice : (b : Rat) < 2 * (a % b : Nat) := by exact_mod_cast Nat.compare_eq_gt.1 hcompare
      have hhalf : (1 / 2 : Rat) < (a % b : Nat) / b := by
        rw [lt_div_iff₀ hpos]
        linarith
      exact ⟨by linarith, by linarith⟩

section
variable {M : Nat} {E : Int} (hcanon : Canonical M E) (hM : 0 < M) {m n : Nat} (hm : 0 < m)
  (hn : 0 < n) {d e : Int}
include hcanon

theorem mul_eq (hnear : Near M E ((m * 2 ^ d) * (n * 2 ^ e))) (hlong : 2 ^ 52 ≤ m * n) :
    UnpackedFloat.mul .binary64 (.finite .positive m d hm) (.finite .positive n e hn) =
      .finite .positive M E hM := by
  refine roundWithAccuracy_eq hcanon hnear hM ?_ (.inl hlong) _
  have hvalue : (m * 2 ^ d * (n * 2 ^ e) / 2 ^ (d + e) : Rat) = (m * n : Nat) := by
    rw [zpow_add₀ two_ne_zero]
    push_cast
    field_simp
  exact hvalue

theorem div_eq (hnear : Near M E ((m * 2 ^ d) / (n * 2 ^ e))) :
    UnpackedFloat.div .binary64 (.finite .positive m d hm) (.finite .positive n e hn) =
      .finite .positive M E hM := by
  show roundWithAccuracy .binary64 _ _ _ _ = _
  generalize ht : min (d - e)
    (Format.binary64.targetExponent (totalExponent m d - totalExponent n e)) = t
  have hshift : ((d - e - t).toNat : Int) = d - e - t := by omega
  refine roundWithAccuracy_eq hcanon hnear hM ?_ ?_ _
  · convert locates_div (m <<< (d - e - t).toNat) hn using 1
    generalize (d - e - t).toNat = k at hshift ⊢
    rw [Nat.shiftLeft_eq, show d = e + t + k by omega, zpow_add₀ two_ne_zero,
      zpow_add₀ two_ne_zero, zpow_natCast]
    push_cast
    field_simp
  · -- the dividend is shifted until the quotient is long enough
    by_cases hleast : t ≤ -1074
    · exact .inr hleast
    · left
      rw [Nat.le_div_iff_mul_le hn, Nat.shiftLeft_eq]
      have hlog : 52 + (n.log2 + 1) ≤ m.log2 + (d - e - t).toNat := by
        rw [Format.targetExponent] at ht
        simp only [totalExponent] at ht
        have hbits : (Format.binary64.mantissaBits : Int) = 53 := rfl
        have hmin : Format.binary64.minExponent = -1074 := rfl
        omega
      calc 2 ^ 52 * n ≤ 2 ^ 52 * 2 ^ (n.log2 + 1) := Nat.mul_le_mul_left _ Nat.lt_log2_self.le
        _ = 2 ^ (52 + (n.log2 + 1)) := (pow_add 2 52 _).symm
        _ ≤ 2 ^ (m.log2 + (d - e - t).toNat) := Nat.pow_le_pow_right two_pos hlog
        _ = 2 ^ m.log2 * 2 ^ (d - e - t).toNat := pow_add 2 _ _
        _ ≤ m * 2 ^ (d - e - t).toNat := Nat.mul_le_mul_right _ (Nat.log2_self_le hm.ne')

end

/-! ## Doubles and what they are packed from -/

theorem exponent_le_of_unpack {x : Float} {s : Sign} {m : Nat} {e : Int} {h : 0 < m}
    (hx : x.toModel.unpack = .finite s m e h) : e ≤ 971 := by
  have hread := reads_unpack x.toModel.toBits.toBitVec
  rw [show UnpackedFloat.unpack _ _ = UnpackedFloat.finite s m e h from hx] at hread
  cases hread with
  | subnormal => decide
  | normal hlo hhi => omega

theorem unpack_pack {s : Sign} {m : Nat} {e : Int} (hcanon : Canonical m e) (he : e ≤ 971)
    (h : 0 < m) : UnpackedFloat.unpack .binary64 (UnpackedFloat.pack .binary64 (.finite s m e h)) =
      .finite s m e h := by
  have hones : (-1#11).toNat = 2047 := rfl
  obtain ⟨hlt, hcases⟩ := hcanon
  -- the exponent field of a double with a full mantissa, and of one with a short one
  obtain ⟨field, hpack, hfield⟩ : ∃ field : Nat, UnpackedFloat.pack .binary64 (.finite s m e h) =
      packComponents .binary64 s (BitVec.ofNat 11 field) (BitVec.ofNat 52 m) ∧
      (2 ^ 52 ≤ m ∧ e = field - 1075 ∧ 0 < field ∧ field < 2047 ∨
        m < 2 ^ 52 ∧ e = -1074 ∧ field = 0) := by
    by_cases hlong : 2 ^ 52 ≤ m
    · refine ⟨(e + 1075).toNat, pack_normal s h hlong hlt ?_ ?_, ?_⟩ <;> omega
    · obtain rfl : e = -1074 := by omega
      exact ⟨0, pack_subnormal s h (by omega), by omega⟩
  rw [hpack]
  generalize hb : packComponents .binary64 s (BitVec.ofNat 11 field) (BitVec.ofNat 52 m) = b
  have hsign : Sign.ofBitVec (unpackSign b) = s := by
    rw [← hb, unpackSign_packComponents, sign_of_toBitVec]
  have hexp : (unpackExponent b).toNat = field := by
    rw [← hb, unpackExponent_packComponents, BitVec.toNat_ofNat]
    exact Nat.mod_eq_of_lt (show field < 2 ^ 11 by omega)
  have hmant : (unpackMantissa b).toNat = m % 2 ^ 52 := by
    rw [← hb, unpackMantissa_packComponents, BitVec.toNat_ofNat]
  have hread := reads_unpack b
  generalize UnpackedFloat.unpack .binary64 b = u at hread
  cases hread with
  | nan hexp' =>
    rw [hexp', hones] at hexp
    omega
  | infinity hexp' =>
    rw [hexp', hones] at hexp
    omega
  | zero hexp' hmant' =>
    rw [hexp'] at hexp
    rw [hmant'] at hmant
    simp at hexp hmant
    omega
  | subnormal hexp' =>
    rw [hexp'] at hexp
    simp only [UnpackedFloat.finite.injEq]
    simp at hexp
    exact ⟨hsign, by omega, by omega⟩
  | normal =>
    simp only [UnpackedFloat.finite.injEq]
    exact ⟨hsign, by omega, by omega⟩

theorem ofModel_pack {x : Float} {u : UnpackedFloat} (h : x.toModel.unpack = u) :
    Float.ofModel (Float.Model.pack u) = x := by
  rw [← h]
  exact eq_of_toBits (congrArg UInt64.ofBitVec (pack_unpack_toModel x))

theorem eq_of_unpack {x y : Float} (h : x.toModel.unpack = y.toModel.unpack) : x = y :=
  (ofModel_pack h).symm.trans (ofModel_pack rfl)

theorem neg_eq {x y : Float} {m : Nat} {e : Int} {h : 0 < m}
    (hx : x.toModel.unpack = .finite .negative m e h)
    (hy : y.toModel.unpack = .finite .positive m e h) : -y = x := by
  show Float.ofModel (Float.Model.pack y.toModel.unpack.neg) = x
  rw [hy]
  exact ofModel_pack hx

/-! ## Natural numbers that are doubles -/

/-- Whether a double is the natural number `n`, with a full mantissa. -/
def isWhole : UnpackedFloat → Nat → Bool
  | .finite .positive m e _, n => 2 ^ 52 ≤ m ∧ -52 ≤ e ∧ m * 2 ^ (e + 52).toNat = n * 2 ^ 52
  | _, _ => false

theorem exists_of_isWhole {u : UnpackedFloat} {n : Nat} (h : isWhole u n = true) :
    ∃ m e h, u = .finite .positive m e h ∧ 2 ^ 52 ≤ m ∧ (m * 2 ^ e : Rat) = n := by
  match u, h with
  | .finite .positive m e hm, h =>
    obtain ⟨hlong, hleast, heq⟩ := of_decide_eq_true h
    refine ⟨m, e, hm, rfl, hlong, ?_⟩
    have heq : (m * 2 ^ (e + 52).toNat : Rat) = n * 2 ^ 52 := by exact_mod_cast heq
    rw [← zpow_natCast, Int.toNat_of_nonneg (by omega), zpow_add₀ two_ne_zero, ← mul_assoc] at heq
    exact mul_right_cancel₀ (by positivity) heq

/-- A natural number of at most 53 bits is rounded to itself. -/
theorem round_nat {n : Nat} (hpos : 0 < n) (hlt : n < 2 ^ 53) :
    ∃ (k : Nat) (h : 0 < n * 2 ^ k), k ≤ 52 ∧ Canonical (n * 2 ^ k) (-k) ∧ 2 ^ 52 ≤ n * 2 ^ k ∧
      UnpackedFloat.round .binary64 .positive n 0 = .finite .positive (n * 2 ^ k) (-k) h := by
  have hlog : n.log2 < 53 := log2_lt_of_lt hlt (by decide)
  obtain ⟨k, hk⟩ : ∃ k, n.log2 + k = 52 := ⟨52 - n.log2, by omega⟩
  have hlong : 2 ^ 52 ≤ n * 2 ^ k := by
    rw [← hk, pow_add]
    exact Nat.mul_le_mul_right _ (Nat.log2_self_le hpos.ne')
  have hcanon : Canonical (n * 2 ^ k) (-k) := by
    refine ⟨?_, .inr ⟨by omega, hlong⟩⟩
    calc n * 2 ^ k < 2 ^ (n.log2 + 1) * 2 ^ k :=
          Nat.mul_lt_mul_of_pos_right Nat.lt_log2_self (by positivity)
      _ = 2 ^ 53 := by rw [← pow_add]; congr 1; omega
  have htarget : Format.binary64.targetExponent (totalExponent n 0) = -k := by
    rw [targetExponent_eq]
    omega
  refine ⟨k, by positivity, by omega, hcanon, hlong, ?_⟩
  simp only [UnpackedFloat.round, htarget, decreaseExponent]
  rw [show ((0 : Int) - -k).toNat = k by omega, Nat.shiftLeft_eq, zero_sub]
  refine roundWithAccuracy_eq hcanon (near_self _ _) _ ?_ (.inl hlong) _
  exact mul_div_cancel_right₀ _ (by positivity)

theorem isWhole_toFloat {n : Nat} (hpos : 0 < n) (hlt : n < 2 ^ 53) :
    isWhole n.toUInt64.toFloat.toModel.unpack n = true := by
  obtain ⟨k, h, hk, hcanon, hlong, hround⟩ := round_nat hpos hlt
  have hnat : n.toUInt64.toNat = n := by
    rw [Nat.toUInt64_eq, UInt64.toNat_ofNat']
    omega
  have hnormal : UnpackedFloat.normalize .binary64 (n.toUInt64.toNat : Int) 0 .positive =
      .finite .positive (n * 2 ^ k) (-k) h := by
    rw [hnat, UnpackedFloat.normalize, Std.compare_eq_gt.2 (by omega : (0 : Int) < n)]
    exact hround
  show isWhole (UnpackedFloat.unpack .binary64 (UnpackedFloat.pack .binary64
    (UnpackedFloat.normalize .binary64 (n.toUInt64.toNat : Int) 0 .positive))) n = true
  rw [hnormal, unpack_pack hcanon (by omega)]
  refine decide_eq_true ⟨hlong, by omega, ?_⟩
  rw [mul_assoc, ← pow_add]
  congr 2
  omega

theorem isWhole_powersOfTen : ∀ k : Fin Float.exactlyRepresentablePowersOfTen.size,
    isWhole Float.exactlyRepresentablePowersOfTen[k.val].toModel.unpack (10 ^ k.val) = true := by
  decide +kernel

/-! ## Decimals -/

section
variable {m : Nat} {e : Int} (hcanon : Canonical m e) (hm : 0 < m) (he : e ≤ 971) {n : Nat}
  (hn : 0 < n) {k : Int} (hnear : Near m e (n * 10 ^ k))
include hcanon hm he hn hnear

/-- A decimal that rounds to a double has no extreme exponent. -/
theorem exponent_bounds : -(2048 + (n.log2 : Int)) ≤ k ∧ k ≤ 2048 := by
  constructor
  · by_contra hlt
    have hlog : (n : Rat) ≤ 2 ^ (n.log2 + 1) := by exact_mod_cast Nat.lt_log2_self.le
    have hten : (10 : Rat) ^ k ≤ 2 ^ k := by
      obtain ⟨j, rfl⟩ : ∃ j : Nat, k = -j := ⟨(-k).toNat, by omega⟩
      rw [zpow_neg, zpow_neg, zpow_natCast, zpow_natCast]
      gcongr
      norm_num
    have hle : (2 : Rat) ^ (-1075 : Int) ≤ 2 ^ ((n.log2 : Int) + 1 + k) := calc
      (2 : Rat) ^ (-1075 : Int) ≤ n * 10 ^ k := hnear.zpow_le hcanon hm
      _ ≤ 2 ^ (n.log2 + 1) * 2 ^ k := by gcongr
      _ = 2 ^ ((n.log2 : Int) + 1 + k) := by
        rw [zpow_add₀ two_ne_zero, ← Nat.cast_succ, zpow_natCast]
    rw [zpow_le_zpow_iff_right₀ one_lt_two] at hle
    omega
  · by_contra hgt
    have hone : (1 : Rat) ≤ n := by exact_mod_cast hn
    have hlt : (2 : Rat) ^ k < 2 ^ (53 + e) := calc
      (2 : Rat) ^ k ≤ 10 ^ k := zpow_le_zpow_left₀ (by omega) (by norm_num) (by norm_num)
      _ ≤ n * 10 ^ k := le_mul_of_one_le_left (by positivity) hone
      _ < 2 ^ (53 + e) := hnear.lt_zpow hcanon
    rw [zpow_lt_zpow_iff_right₀ one_lt_two] at hlt
    omega

theorem unpacked_ofScientific_eq :
    UnpackedFloat.ofScientific .binary64 n k = .finite .positive m e hm := by
  obtain ⟨hlo, hhi⟩ := exponent_bounds hcanon hm he hn hnear
  have hlimit : (2 : Int) ^ Format.binary64.exponentBits = 2048 := rfl
  rw [UnpackedFloat.ofScientific, dif_neg hn.ne', hlimit, if_neg (not_lt.2 hhi),
    if_neg (not_lt.2 hlo)]
  split
  · rename_i hk
    obtain ⟨j, rfl⟩ := Int.eq_ofNat_of_zero_le hk
    refine mul_eq hcanon hm _ _ ?_ ?_
    · convert hnear using 1
      show (n <<< 53 : Nat) * (2 : Rat) ^ (-53 : Int) *
        ((10 ^ (j : Int).toNat : Nat) * 2 ^ (0 : Int)) = _
      rw [Nat.shiftLeft_eq, Int.toNat_natCast, zpow_natCast, zpow_neg]
      push_cast
      field_simp
    · have hten : 0 < 10 ^ (j : Int).toNat := by positivity
      calc 2 ^ 52 ≤ n * 2 ^ 53 := by omega
        _ = n <<< 53 := (Nat.shiftLeft_eq n 53).symm
        _ ≤ n <<< 53 * 10 ^ (j : Int).toNat := Nat.le_mul_of_pos_right _ hten
  · rename_i hk
    obtain ⟨j, rfl⟩ : ∃ j : Nat, k = -j := ⟨(-k).toNat, by omega⟩
    refine div_eq hcanon hm _ _ ?_
    convert hnear using 1
    rw [neg_neg, Int.toNat_natCast, zpow_neg, zpow_natCast]
    push_cast
    field_simp

end

/-- Scientific notation gives the double whose interval the decimal lies in. -/
theorem ofScientific_eq {x : Float} {m : Nat} {e : Int} {h : 0 < m}
    (hx : x.toModel.unpack = .finite .positive m e h) {n : Nat} (hn : 0 < n) {negative : Bool}
    {k : Nat} (hnear : Near m e (n * 10 ^ (if negative then -k else k : Int))) :
    Float.ofScientific n negative k = x := by
  have hcanon := canonical_of_unpack hx
  unfold Float.ofScientific
  split
  · rename_i hsmall
    obtain ⟨hlt, hk⟩ := hsmall
    have hk : k < Float.exactlyRepresentablePowersOfTen.size := Nat.lt_succ_iff.2 hk
    obtain ⟨m₁, e₁, hm₁, hwhole, hlong, hvalue₁⟩ := exists_of_isWhole (isWhole_toFloat hn hlt)
    obtain ⟨m₂, e₂, hm₂, hten, -, hvalue₂⟩ := exists_of_isWhole (isWhole_powersOfTen ⟨k, hk⟩)
    cases negative with
    | true =>
      show Float.ofModel (Float.Model.pack (UnpackedFloat.div .binary64 _
        Float.exactlyRepresentablePowersOfTen[k].toModel.unpack)) = x
      refine ofModel_pack (hx.trans ?_)
      rw [hwhole, hten, div_eq hcanon h]
      rw [hvalue₁, hvalue₂]
      simpa [div_eq_mul_inv] using hnear
    | false =>
      show Float.ofModel (Float.Model.pack (UnpackedFloat.mul .binary64 _
        Float.exactlyRepresentablePowersOfTen[k].toModel.unpack)) = x
      refine ofModel_pack (hx.trans ?_)
      rw [hwhole, hten, mul_eq hcanon h]
      · rw [hvalue₁, hvalue₂]
        simpa using hnear
      · exact hlong.trans (Nat.le_mul_of_pos_right _ hm₂)
  · show Float.ofModel (Float.Model.pack (UnpackedFloat.ofScientific .binary64 _ _)) = x
    refine ofModel_pack (hx.trans (unpacked_ofScientific_eq hcanon h ?_ hn ?_).symm)
    · exact exponent_le_of_unpack hx
    · cases negative with
      | true => simpa [Int.negOfNat_eq] using hnear
      | false => exact hnear

end PubSub.Double

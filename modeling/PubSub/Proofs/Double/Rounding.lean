import PubSub.Proofs.Double.Order

/-!
# Rounding to a double

A mantissa with its two residual bits says where a number lies (`Double.Locates`), and shifting
keeps what it says. The numbers that round to a double are an interval around it (`Double.Near`).
Rounding a number that is known that way gives the double whose interval it lies in
(`Double.roundWithAccuracy_eq`).

The exponent to which a mantissa is shifted is read off the number, not off the double it rounds to.
The two differ only for numbers just below a power of two, whose mantissa overflows when it is
rounded (`Double.nearest_of_near`).
-/

namespace PubSub.Double

open Float.Model Float.Model.UnpackedFloat

/-! ## Where a number lies -/

/-- `x` is the mantissa or less than one above it, where the two residual bits say. -/
def Locates : ExtendedMantissa → Rat → Prop
  | ⟨n, false, false⟩, x => x = n
  | ⟨n, false, true⟩, x => n < x ∧ x < n + 1 / 2
  | ⟨n, true, false⟩, x => x = n + 1 / 2
  | ⟨n, true, true⟩, x => n + 1 / 2 < x ∧ x < n + 1

namespace Locates

variable {em : ExtendedMantissa} {x : Rat}

theorem bounds (h : Locates em x) : em.mantissa ≤ x ∧ x < em.mantissa + 1 := by
  obtain ⟨n, _ | _, _ | _⟩ := em <;> simp only [Locates] at h <;> constructor <;> linarith

theorem shiftRightOne (h : Locates em x) : Locates em.shiftRightOne (x / 2) := by
  obtain ⟨n, round, sticky⟩ := em
  have hdiv : (2 * (n / 2 : Nat) + (n % 2 : Nat) : Rat) = n := by
    exact_mod_cast Nat.div_add_mod n 2
  have hmod := Nat.mod_two_eq_zero_or_one n
  cases round <;> cases sticky <;> obtain hmod | hmod := hmod <;> rw [hmod] at hdiv <;>
    simp [Locates, ExtendedMantissa.shiftRightOne, hmod] at h hdiv ⊢ <;> grind

theorem shiftRight (h : Locates em x) (n : Nat) : Locates (em >>> n) (x / 2 ^ n) := by
  show Locates (n.repeat ExtendedMantissa.shiftRightOne em) _
  induction n with
  | zero => simpa [Nat.repeat] using h
  | succ n ih =>
    rw [pow_succ, ← div_div]
    exact ih.shiftRightOne

end Locates

/-- `r` is the natural number nearest to `x`, the even one if there are two. -/
structure Nearest (r : Nat) (x : Rat) : Prop where
  lower : r - 1 / 2 ≤ x
  upper : x ≤ r + 1 / 2
  inner : r % 2 = 1 → r - 1 / 2 < x ∧ x < r + 1 / 2

theorem Locates.roundedMantissa {em : ExtendedMantissa} {x : Rat} (h : Locates em x) {r : Nat}
    (hr : Nearest r x) : em.roundedMantissa = r := by
  obtain ⟨lower, upper, inner⟩ := hr
  have hbelow (a : Nat) (hx : x < a + 1 / 2) : r ≤ a := by
    have : (r : Rat) < a + 1 := by linarith
    exact Nat.lt_succ_iff.1 (by exact_mod_cast this)
  have habove (a : Nat) (hx : a - 1 / 2 < x) : a ≤ r := by
    have : (a : Rat) < r + 1 := by linarith
    exact Nat.lt_succ_iff.1 (by exact_mod_cast this)
  obtain ⟨n, _ | _, _ | _⟩ := em <;>
    simp only [Locates, ExtendedMantissa.roundedMantissa, ExtendedMantissa.accuracy,
      Accuracy.roundToNearestEven] at h ⊢
  · exact Nat.le_antisymm (habove n (by linarith)) (hbelow n (by linarith))
  · exact Nat.le_antisymm (habove n (by linarith)) (hbelow n (by linarith))
  · -- halfway, the even one of two candidates
    have hle : r ≤ n + 1 := hbelow (n + 1) (by push_cast; linarith)
    have hge : n ≤ r := habove n (by linarith)
    have heven : r % 2 = 0 := by
      by_contra hodd
      obtain ⟨hlo, hhi⟩ := inner (Nat.mod_two_ne_zero.1 hodd)
      obtain rfl | rfl : r = n ∨ r = n + 1 := by omega
      · linarith
      · push_cast at hlo
        linarith
    omega
  · exact Nat.le_antisymm (habove _ (by push_cast; linarith)) (hbelow _ (by push_cast; linarith))

/-! ## The numbers that round to a double -/

/-- How far below `m * 2 ^ e` the numbers that round to it reach, in units of `2 ^ e`. Below a power
of two the next double is only half as far. -/
def reachBelow (m : Nat) (e : Int) : Rat :=
  if m = 2 ^ 52 ∧ -1074 < e then 1 / 4 else 1 / 2

theorem reachBelow_le (m : Nat) (e : Int) : reachBelow m e ≤ 1 / 2 := by
  rw [reachBelow]
  split <;> norm_num

theorem reachBelow_pos (m : Nat) (e : Int) : 0 < reachBelow m e := by
  rw [reachBelow]
  split <;> norm_num

/-- `x` rounds to `m * 2 ^ e`: no other double is nearer, and if another one is as near then `m` is
even. -/
structure Near (m : Nat) (e : Int) (x : Rat) : Prop where
  lower : (m - reachBelow m e) * 2 ^ e ≤ x
  upper : x ≤ (m + 1 / 2) * 2 ^ e
  inner : m % 2 = 1 → (m - reachBelow m e) * 2 ^ e < x ∧ x < (m + 1 / 2) * 2 ^ e

theorem near_self (m : Nat) (e : Int) : Near m e (m * 2 ^ e) := by
  have hunit : (0 : Rat) < 2 ^ e := by positivity
  have hbelow : (m - reachBelow m e) * 2 ^ e < m * 2 ^ e :=
    mul_lt_mul_of_pos_right (by linarith [reachBelow_pos m e]) hunit
  have habove : m * 2 ^ e < (m + 1 / 2 : Rat) * 2 ^ e := mul_lt_mul_of_pos_right (by linarith) hunit
  exact ⟨hbelow.le, habove.le, fun _ => ⟨hbelow, habove⟩⟩

namespace Near

variable {m : Nat} {e : Int} {x : Rat} (hnear : Near m e x)
include hnear

theorem nearest : Nearest m (x / 2 ^ e) := by
  have hunit : (0 : Rat) < 2 ^ e := by positivity
  have hreach : (m - 1 / 2) * 2 ^ e ≤ (m - reachBelow m e) * 2 ^ e :=
    mul_le_mul_of_nonneg_right (by linarith [reachBelow_le m e]) hunit.le
  refine ⟨?_, ?_, fun hodd => ?_⟩
  · rw [le_div_iff₀ hunit]
    exact hreach.trans hnear.lower
  · rw [div_le_iff₀ hunit]
    exact hnear.upper
  · rw [lt_div_iff₀ hunit, div_lt_iff₀ hunit]
    exact ⟨hreach.trans_lt (hnear.inner hodd).1, (hnear.inner hodd).2⟩

variable (hcanon : Canonical m e)
include hcanon

theorem lt_zpow : x < 2 ^ (53 + e) := by
  have hunit : (0 : Rat) < 2 ^ e := by positivity
  have hm : (m : Rat) + 1 ≤ 2 ^ 53 := by exact_mod_cast hcanon.1
  calc x ≤ (m + 1 / 2) * 2 ^ e := hnear.upper
    _ < 2 ^ 53 * 2 ^ e := mul_lt_mul_of_pos_right (by linarith) hunit
    _ = 2 ^ (53 + e) := (zpow_add₀ two_ne_zero 53 e).symm

theorem zpow_lt (he : -1074 < e) : 2 ^ (51 + e) < x := by
  have hunit : (0 : Rat) < 2 ^ e := by positivity
  have hm : (2 ^ 52 : Rat) ≤ m := by exact_mod_cast (hcanon.2.resolve_left he.ne').2
  calc (2 : Rat) ^ (51 + e) = 2 ^ 51 * 2 ^ e := zpow_add₀ two_ne_zero 51 e
    _ < (m - reachBelow m e) * 2 ^ e :=
        mul_lt_mul_of_pos_right (by linarith [reachBelow_le m e]) hunit
    _ ≤ x := hnear.lower

/-- What rounds to a double that is not zero is not too small. -/
theorem zpow_le (hm : 0 < m) : 2 ^ (-1075 : Int) ≤ x := by
  obtain rfl | ⟨hgt, -⟩ := hcanon.2
  · have hone : (1 : Rat) ≤ m := by exact_mod_cast hm
    have hhalf : (2 : Rat) ^ (-1074 : Int) = 2 ^ (-1075 : Int) * 2 :=
      zpow_add_one₀ two_ne_zero (-1075)
    calc (2 : Rat) ^ (-1075 : Int) = 1 / 2 * 2 ^ (-1074 : Int) := by rw [hhalf]; ring
      _ ≤ (m - reachBelow m (-1074)) * 2 ^ (-1074 : Int) := by
        gcongr
        linarith [reachBelow_le m (-1074)]
      _ ≤ x := hnear.lower
  · exact (zpow_le_zpow_right₀ one_le_two (by omega)).trans (hnear.zpow_lt hcanon hgt).le

/-- Of the doubles with one exponent, only the least has numbers below it that round to it. -/
theorem eq_of_lt (he : -1074 < e) (hx : x < 2 ^ (52 + e)) : m = 2 ^ 52 := by
  have hunit : (0 : Rat) < 2 ^ e := by positivity
  have hm := (hcanon.2.resolve_left he.ne').2
  by_contra hne
  have hlt : (2 ^ 52 + 1 : Rat) ≤ m := by exact_mod_cast Nat.lt_of_le_of_ne hm (Ne.symm hne)
  rw [zpow_add₀ two_ne_zero] at hx
  have hfull : m - reachBelow m e < 2 ^ 52 :=
    lt_of_mul_lt_mul_right (hnear.lower.trans_lt hx) hunit.le
  linarith [reachBelow_le m e]

end Near

/-! ## The exponent of a mantissa -/

theorem log2_lt_of_lt {m k : Nat} (h : m < 2 ^ k) (hk : 0 < k) : m.log2 < k := by
  obtain rfl | hpos := Nat.eq_zero_or_pos m
  · exact hk
  · exact (Nat.log2_lt hpos.ne').2 h

theorem targetExponent_eq (m : Nat) (e : Int) :
    Format.binary64.targetExponent (totalExponent m e) = max (m.log2 + e - 52) (-1074) := by
  show max ((m.log2 : Int) + 1 + e - 53) (-1074) = _
  congr 1
  omega

/-- A canonical mantissa keeps its exponent. -/
theorem targetExponent_of_canonical {m : Nat} {e : Int} (h : Canonical m e) :
    Format.binary64.targetExponent (totalExponent m e) = e := by
  have hlog : m.log2 < 53 := log2_lt_of_lt h.1 (by decide)
  rw [targetExponent_eq]
  obtain ⟨hlt, rfl | ⟨hleast, hfull⟩⟩ := h
  · omega
  · have hlog : m.log2 = 52 := (Nat.log2_eq_iff (by omega)).2 ⟨hfull, hlt⟩
    omega

section
variable {m : Nat} {e : Int} {x : Rat}

theorem zpow_log2_le (hm : m ≠ 0) (hx : m * 2 ^ e ≤ x) : 2 ^ ((m.log2 : Int) + e) ≤ x := by
  have hlog : (2 ^ m.log2 : Rat) ≤ m := by exact_mod_cast Nat.log2_self_le hm
  calc (2 : Rat) ^ ((m.log2 : Int) + e) = 2 ^ m.log2 * 2 ^ e := by
        rw [zpow_add₀ two_ne_zero, zpow_natCast]
    _ ≤ m * 2 ^ e := mul_le_mul_of_nonneg_right hlog (by positivity)
    _ ≤ x := hx

theorem lt_zpow_log2 (hx : x < (m + 1) * 2 ^ e) : x < 2 ^ ((m.log2 : Int) + 1 + e) := by
  have hlog : (m + 1 : Rat) ≤ 2 ^ (m.log2 + 1) := by exact_mod_cast Nat.lt_log2_self
  calc x < (m + 1) * 2 ^ e := hx
    _ ≤ 2 ^ (m.log2 + 1) * 2 ^ e := mul_le_mul_of_nonneg_right hlog (by positivity)
    _ = 2 ^ ((m.log2 : Int) + 1 + e) := by rw [zpow_add₀ two_ne_zero, ← Nat.cast_succ, zpow_natCast]

/-- The exponent to which a mantissa is shifted is the one of the double it rounds to, or the one
below if that double is a power of two. -/
theorem nearest_of_near {M : Nat} {E : Int} (hcanon : Canonical M E) (hnear : Near M E x)
    (hlo : m * 2 ^ e ≤ x) (hhi : x < (m + 1) * 2 ^ e) (hfull : 2 ^ 52 ≤ m ∨ e ≤ -1074) :
    let t := max (m.log2 + e - 52) (-1074)
    (t = E ∧ Nearest M (x / 2 ^ t)) ∨ (t + 1 = E ∧ M = 2 ^ 52 ∧ Nearest (2 ^ 53) (x / 2 ^ t)) := by
  intro t
  have hbelow := lt_zpow_log2 hhi
  have hleast : -1074 ≤ E := by
    obtain h | h := hcanon.2 <;> omega
  have hle : t ≤ E := by
    refine max_le ?_ hleast
    by_cases hlong : 2 ^ 52 ≤ m
    · have hlt := (zpow_log2_le (by omega) hlo).trans_lt (hnear.lt_zpow hcanon)
      rw [zpow_lt_zpow_iff_right₀ one_lt_two] at hlt
      omega
    · have hlog : m.log2 < 52 := log2_lt_of_lt (by omega) (by decide)
      omega
  have hge : E ≤ t + 1 := by
    obtain rfl | ⟨hgt, -⟩ := hcanon.2
    · exact (le_max_right _ _).trans (Int.le_add_one le_rfl)
    · have hlt := (hnear.zpow_lt hcanon hgt).trans hbelow
      rw [zpow_lt_zpow_iff_right₀ one_lt_two] at hlt
      have hmax : (m.log2 : Int) + e - 52 ≤ t := le_max_left _ _
      omega
  obtain heq | heq : t = E ∨ t + 1 = E := by omega
  · exact .inl ⟨heq, heq ▸ hnear.nearest⟩
  · have hgt : -1074 < E := by omega
    have hx : x < 2 ^ (52 + E) := hbelow.trans_le (zpow_le_zpow_right₀ one_le_two (by omega))
    have hM := hnear.eq_of_lt hcanon hgt hx
    refine .inr ⟨heq, hM, ?_, ?_, fun hodd => absurd hodd (by decide)⟩
    · have hlower := hnear.lower
      rw [reachBelow, if_pos ⟨hM, hgt⟩, hM, ← heq, zpow_add_one₀ two_ne_zero] at hlower
      rw [le_div_iff₀ (by positivity)]
      push_cast at hlower ⊢
      linarith
    · have hunit : (0 : Rat) < 2 ^ t := by positivity
      rw [show (52 : Int) + E = 53 + t by omega, zpow_add₀ two_ne_zero] at hx
      rw [div_le_iff₀ hunit]
      push_cast
      norm_num at hx ⊢
      linarith

end

/-! ## Rounding -/

theorem shiftToTargetExponent_eq (m : Nat) (e : Int) (acc : Accuracy) {t : Int}
    (ht : Format.binary64.targetExponent (totalExponent m e) = t) (hle : e ≤ t) :
    shiftToTargetExponent .binary64 m e acc =
      (ExtendedMantissa.ofMantissaAndAccuracy m acc >>> (t - e).toNat, t) := by
  simp only [shiftToTargetExponent, shiftToExponent, ht, Prod.mk.injEq, true_and]
  omega

theorem Locates.shiftTo {em : ExtendedMantissa} {x : Rat} {e t : Int}
    (h : Locates em (x / 2 ^ e)) (hle : e ≤ t) : Locates (em >>> (t - e).toNat) (x / 2 ^ t) := by
  have hshift := h.shiftRight (t - e).toNat
  rwa [div_div, ← zpow_natCast, ← zpow_add₀ two_ne_zero,
    show e + ((t - e).toNat : Int) = t by omega] at hshift

/-- Rounding gives the double whose interval the number lies in. The mantissa may be short only if
it cannot be longer. -/
theorem roundWithAccuracy_eq {M : Nat} {E : Int} {x : Rat} (hcanon : Canonical M E)
    (hnear : Near M E x) (hM : 0 < M) {m : Nat} {e : Int} {acc : Accuracy}
    (hloc : Locates (.ofMantissaAndAccuracy m acc) (x / 2 ^ e)) (hfull : 2 ^ 52 ≤ m ∨ e ≤ -1074)
    (s : Sign) : UnpackedFloat.roundWithAccuracy .binary64 s m e acc = .finite s M E hM := by
  have hbounds := hloc.bounds
  have hmant : (ExtendedMantissa.ofMantissaAndAccuracy m acc).mantissa = m := by
    obtain _ | _ | _ | _ := acc <;> rfl
  rw [hmant, le_div_iff₀ (by positivity), div_lt_iff₀ (by positivity)] at hbounds
  have hcases := nearest_of_near hcanon hnear hbounds.1 hbounds.2 hfull
  have ht := targetExponent_eq m e
  have hle : e ≤ max (m.log2 + e - 52) (-1074) := by
    obtain hlong | hleast := hfull
    · have hlog := (Nat.le_log2 (by omega)).2 hlong
      omega
    · omega
  generalize max ((m.log2 : Int) + e - 52) (-1074) = t at hcases ht hle
  have hfirst := shiftToTargetExponent_eq m e acc ht hle
  have hshift := hloc.shiftTo hle
  obtain ⟨rfl, hnearest⟩ | ⟨rfl, rfl, hnearest⟩ := hcases
  · have hagain := shiftToTargetExponent_eq M t .exact (targetExponent_of_canonical hcanon) le_rfl
    rw [Int.sub_self] at hagain
    simp only [UnpackedFloat.roundWithAccuracy, hfirst, hshift.roundedMantissa hnearest, hagain]
    exact dif_neg hM.ne'
  · -- the rounded mantissa has one bit too many
    have hnext : Format.binary64.targetExponent (totalExponent (2 ^ 53) t) = t + 1 := by
      have hleast : -1074 ≤ t := ht ▸ le_max_right _ _
      rw [targetExponent_eq, Nat.log2_two_pow]
      omega
    have hagain := shiftToTargetExponent_eq (2 ^ 53) t .exact hnext (by omega)
    rw [add_sub_cancel_left] at hagain
    simp only [UnpackedFloat.roundWithAccuracy, hfirst, hshift.roundedMantissa hnearest, hagain]
    exact dif_neg hM.ne'

end PubSub.Double

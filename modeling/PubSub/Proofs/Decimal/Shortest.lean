import PubSub.Decimal.Shortest
import PubSub.Proofs.Double.Rounding

/-!
# The fewest digits round to the number

The search compares in natural numbers; a point of a grid is found to lie in the interval exactly if
it rounds to the number (`Shortest.has_iff`). The grid of seventeen digits has a neighbour of the
number that does (`Shortest.exists_neighbour?_of_fine`), so the search ends with digits that round
to it (`Shortest.near_digits`).
-/

namespace PubSub.Shortest

open Double

/-! ## Powers as fractions -/

theorem zpow_eq_div {b : Nat} (hb : 0 < b) (k : Int) :
    (b : Rat) ^ k = (b ^ k.toNat : Nat) / (b ^ (-k).toNat : Nat) := by
  have hne : (b : Rat) ≠ 0 := by exact_mod_cast hb.ne'
  obtain ⟨n, rfl | rfl⟩ := k.eq_nat_or_neg
  · simp
  · simp

theorem tenPower_eq (k : Int) : ((tenPower k).1 : Rat) = 10 ^ k * (tenPower k).2 := by
  have hpos : (0 : Rat) < (tenPower k).2 := by exact_mod_cast Nat.pow_pos (by decide)
  exact (div_eq_iff hpos.ne').1 (zpow_eq_div (b := 10) (by decide) k).symm

theorem unit_eq (m : Nat) (e : Int) :
    ((Interval.around m e).unit.1 : Rat) = 2 ^ e / 4 * (Interval.around m e).unit.2 := by
  have hpos : (0 : Rat) < (Interval.around m e).unit.2 := by exact_mod_cast Nat.pow_pos (by decide)
  have hquarter : (2 : Rat) ^ (e - 2) = 2 ^ e / 4 := by
    rw [zpow_sub₀ two_ne_zero]
    norm_num
  have hunit := zpow_eq_div (b := 2) (by decide) (e - 2)
  rw [neg_sub] at hunit
  exact (div_eq_iff hpos.ne').1 (hunit.symm.trans hquarter)

theorem two_pow_le_ten_pow {a b : Nat} (h : 2 ^ a ≤ 10 ^ b) (n : Nat) :
    (2 : Rat) ^ (a * n) ≤ 10 ^ (b * n) := by
  rw [pow_mul, pow_mul]
  exact pow_le_pow_left₀ (by positivity) (by exact_mod_cast h) n

theorem ten_zpow_le : (10 : Rat) ^ (-325 : Int) ≤ 2 ^ (-1075 : Int) :=
  inv_anti₀ (by positivity) (two_pow_le_ten_pow (a := 215) (b := 65) (by norm_num) 5)

/-! ## The interval -/

theorem lower_eq {m : Nat} (hm : 0 < m) (e : Int) :
    ((Interval.around m e).lower : Rat) = 4 * (m - reachBelow m e) := by
  show ((4 * m - if m = 2 ^ 52 ∧ -1074 < e then 1 else 2 : Nat) : Rat) = _
  rw [reachBelow]
  split
  · rw [Nat.cast_sub (by omega)]
    push_cast
    ring
  · rw [Nat.cast_sub (by omega)]
    push_cast
    ring

theorem upper_eq (m : Nat) (e : Int) : ((Interval.around m e).upper : Rat) = 4 * (m + 1 / 2) := by
  show ((4 * m + 2 : Nat) : Rat) = _
  push_cast
  ring

/-- A point of a grid lies in the interval exactly if it rounds to the number. -/
theorem has_iff {m : Nat} (hm : 0 < m) (e k : Int) (c : Nat) :
    (Interval.around m e).has k c = true ↔ Near m e (c * 10 ^ k) := by
  obtain ⟨w, hw, hscale⟩ : ∃ w : Rat, 0 < w ∧
      (Interval.around m e).unit.2 * (tenPower k).2 = w := by
    refine ⟨_, mul_pos ?_ ?_, rfl⟩ <;> exact_mod_cast Nat.pow_pos (by decide)
  -- both sides of a comparison are multiples of `w`
  have hbound (n : Nat) (b : Rat) (hb : n = 4 * b) :
      ((n * (Interval.around m e).unit.1 * (tenPower k).2 : Nat) : Rat) = b * 2 ^ e * w := by
    push_cast
    rw [hb, unit_eq, ← hscale]
    ring
  have hpoint : ((c * (tenPower k).1 * (Interval.around m e).unit.2 : Nat) : Rat) =
      c * 10 ^ k * w := by
    push_cast
    rw [tenPower_eq, ← hscale]
    ring
  simp only [Interval.has, show (Interval.around m e).ends = (m % 2 == 0) from rfl,
    Bool.ite_eq_true_distrib, Bool.and_eq_true, decide_eq_true_iff]
  simp only [← Nat.cast_le (α := Rat), ← Nat.cast_lt (α := Rat), hbound _ _ (lower_eq hm e),
    hbound _ _ (upper_eq m e), hpoint, mul_le_mul_iff_of_pos_right hw,
    mul_lt_mul_iff_of_pos_right hw]
  split
  · rename_i heven
    rw [beq_iff_eq] at heven
    exact ⟨fun h => ⟨h.1, h.2, fun hodd => by omega⟩, fun h => ⟨h.lower, h.upper⟩⟩
  · rename_i hodd
    rw [beq_iff_eq, ← ne_eq, Nat.mod_two_ne_zero] at hodd
    exact ⟨fun h => ⟨h.1.le, h.2.le, fun _ => h⟩, fun h => h.inner hodd⟩

/-! ## Neighbours on a grid -/

theorem has_of_neighbour? {i : Interval} {k : Int} {c : Nat} (h : i.neighbour? k = some c) :
    i.has k c = true := by
  rw [Interval.neighbour?] at h
  simp only at h
  split at h
  · rename_i hbelow habove
    obtain rfl := Option.some.inj h
    split
    · exact hbelow
    · exact habove
  · rename_i hbelow habove
    obtain rfl := Option.some.inj h
    exact hbelow
  · rename_i hbelow habove
    obtain rfl := Option.some.inj h
    exact habove
  · cases h

theorem exists_neighbour? {i : Interval} {k : Int}
    (h : i.has k ((i.onGrid k).1 / (i.onGrid k).2) = true ∨
      i.has k ((i.onGrid k).1 / (i.onGrid k).2 + 1) = true) :
    ∃ c, i.neighbour? k = some c := by
  rw [Interval.neighbour?]
  simp only
  split
  · exact ⟨_, rfl⟩
  · exact ⟨_, rfl⟩
  · exact ⟨_, rfl⟩
  · rename_i hbelow habove
    simp [hbelow, habove] at h

/-- The neighbour below the number. -/
theorem onGrid_div (m : Nat) (e k : Int) :
    ((Interval.around m e).onGrid k).1 / ((Interval.around m e).onGrid k).2 =
      ⌊(m * 2 ^ e / 10 ^ k : Rat)⌋₊ := by
  have hunit : (0 : Rat) < (Interval.around m e).unit.2 := by
    exact_mod_cast Nat.pow_pos (by decide)
  have hten : (0 : Rat) < (tenPower k).2 := by
    exact_mod_cast Nat.pow_pos (by decide)
  have hvalue : (((4 * m) * (Interval.around m e).unit.1 * (tenPower k).2 : Nat) : Rat) /
      ((tenPower k).1 * (Interval.around m e).unit.2 : Nat) = m * 2 ^ e / 10 ^ k := by
    push_cast
    rw [unit_eq, tenPower_eq]
    field_simp
  rw [← hvalue, Nat.floor_div_eq_div]
  rfl

theorem lt_pow_length (n : Nat) : n < 10 ^ (Nat.toDigits 10 n).length :=
  (Nat.length_toDigits_le_iff (by decide) Nat.length_toDigits_pos).1 le_rfl

theorem pow_length_le {n : Nat} (hn : 0 < n) : 10 ^ ((Nat.toDigits 10 n).length - 1) ≤ n := by
  by_contra hlt
  have hpos : 0 < (Nat.toDigits 10 n).length - 1 := by
    by_contra hzero
    rw [Nat.eq_zero_of_not_pos hzero] at hlt
    omega
  have hle := (Nat.length_toDigits_le_iff (by decide) hpos).2 (not_le.1 hlt)
  omega

/-- The number has a digit at its leading exponent. -/
theorem zpow_leading_le {m : Nat} {e : Int} (hm : 0 < m) (he : -1074 ≤ e) :
    (10 : Rat) ^ (Interval.around m e).leading ≤ m * 2 ^ e := by
  obtain ⟨n, hn⟩ : ∃ n, ⌊(m * 2 ^ e / 10 ^ (-400 : Int) : Rat)⌋₊ = n := ⟨_, rfl⟩
  have hpos : 0 < n := by
    have hone : (1 : Rat) ≤ m := by exact_mod_cast hm
    rw [← hn, Nat.floor_pos, le_div_iff₀ (by positivity), one_mul]
    calc (10 : Rat) ^ (-400 : Int) ≤ 10 ^ (-325 : Int) :=
          zpow_le_zpow_right₀ (by norm_num) (by norm_num)
      _ ≤ 2 ^ (-1075 : Int) := ten_zpow_le
      _ ≤ 2 ^ e := zpow_le_zpow_right₀ one_le_two (by omega)
      _ ≤ m * 2 ^ e := le_mul_of_one_le_left (by positivity) hone
  have hlead : (Interval.around m e).leading = ((Nat.toDigits 10 n).length - 1 : Nat) + -400 := by
    show ((Nat.toDigits 10 (((Interval.around m e).onGrid (-400)).1 /
      ((Interval.around m e).onGrid (-400)).2)).length : Int) - 401 = _
    have hlength : 0 < (Nat.toDigits 10 n).length := Nat.length_toDigits_pos
    rw [onGrid_div, hn]
    omega
  rw [hlead, zpow_add₀ (by norm_num), zpow_natCast, ← le_div_iff₀ (by positivity)]
  calc (10 : Rat) ^ ((Nat.toDigits 10 n).length - 1) ≤ n := by exact_mod_cast pow_length_le hpos
    _ ≤ m * 2 ^ e / 10 ^ (-400 : Int) := hn ▸ Nat.floor_le (by positivity)

/-! ## Seventeen digits -/

section
variable {m : Nat} {e : Int} (hcanon : Canonical m e)
include hcanon

/-- A grid of seventeen digits is finer than the interval is wide. -/
theorem zpow_lt_of_fine {k : Int} (hk : 10 ^ k * 10 ^ 16 ≤ (m * 2 ^ e : Rat)) :
    (10 : Rat) ^ k < (1 / 2 + reachBelow m e) * 2 ^ e := by
  have hunit : (0 : Rat) < 2 ^ e := by positivity
  rw [reachBelow]
  split
  · rename_i hpower
    rw [hpower.1] at hk
    push_cast at hk
    linarith
  · have hlt : (m : Rat) + 1 ≤ 2 ^ 53 := by exact_mod_cast hcanon.1
    have hle : m * 2 ^ e ≤ (2 ^ 53 : Rat) * 2 ^ e :=
      mul_le_mul_of_nonneg_right (by linarith) hunit.le
    linarith

variable (hm : 0 < m)
include hm

theorem exists_neighbour?_of_fine {k : Int} (hk : 10 ^ k * 10 ^ 16 ≤ (m * 2 ^ e : Rat)) :
    ∃ c, (Interval.around m e).neighbour? k = some c := by
  have hunit : (0 : Rat) < 2 ^ e := by positivity
  have hgrid : (0 : Rat) < 10 ^ k := by positivity
  refine exists_neighbour? ?_
  rw [onGrid_div, has_iff hm, has_iff hm]
  generalize hc : ⌊(m * 2 ^ e / 10 ^ k : Rat)⌋₊ = c
  have hbelow : (c * 10 ^ k : Rat) ≤ m * 2 ^ e := by
    rw [← le_div_iff₀ hgrid, ← hc]
    exact Nat.floor_le (by positivity)
  have habove : (m * 2 ^ e : Rat) < (c + 1 : Nat) * 10 ^ k := by
    rw [← div_lt_iff₀ hgrid, ← hc]
    exact_mod_cast Nat.lt_floor_add_one _
  by_cases hupper : ((c + 1 : Nat) * 10 ^ k : Rat) < (m + 1 / 2) * 2 ^ e
  · right
    have hlower : (m - reachBelow m e) * 2 ^ e < (c + 1 : Nat) * 10 ^ k :=
      (mul_lt_mul_of_pos_right (by linarith [reachBelow_pos m e]) hunit).trans habove
    exact ⟨hlower.le, hupper.le, fun _ => ⟨hlower, hupper⟩⟩
  · -- the neighbour above is too far, so the one below cannot be
    left
    have hlower : (m - reachBelow m e) * 2 ^ e < c * 10 ^ k := by
      have hfine := zpow_lt_of_fine hcanon hk
      push_cast at hupper
      linarith
    have hupper : (c * 10 ^ k : Rat) < (m + 1 / 2) * 2 ^ e := by linarith
    exact ⟨hlower.le, hupper.le, fun _ => ⟨hlower, hupper⟩⟩

/-- The digits that are found round to the number. -/
theorem near_digits : Near m e ((digits m e).1 * 10 ^ (digits m e).2) := by
  have hleast : -1074 ≤ e := by
    obtain h | h := hcanon.2 <;> omega
  have hlast : (10 : Rat) ^ ((Interval.around m e).leading - 16) * 10 ^ 16 ≤ m * 2 ^ e := by
    rw [← zpow_natCast (10 : Rat) 16, ← zpow_add₀ (by norm_num)]
    exact (congrArg _ (Int.sub_add_cancel _ _)).trans_le (zpow_leading_le hm hleast)
  obtain ⟨c, hc⟩ := exists_neighbour?_of_fine hcanon hm hlast
  let pick := fun k => ((Interval.around m e).neighbour? k).map fun c => (c, k)
  let grids := (List.range 17).map fun n : Nat => (Interval.around m e).leading - (n : Int)
  have hgrid : (Interval.around m e).leading - 16 ∈ grids := List.mem_map.2 ⟨16, by simp, rfl⟩
  cases hfind : grids.findSome? pick with
  | none =>
    have hnone := List.findSome?_eq_none_iff.1 hfind _ hgrid
    simp [pick, hc] at hnone
  | some p =>
    obtain ⟨k, -, hk⟩ := List.exists_of_findSome?_eq_some hfind
    obtain ⟨c, hc, rfl⟩ := Option.map_eq_some_iff.1 hk
    have hdigits : digits m e = (c, k) := by
      show (grids.findSome? pick).getD _ = _
      rw [hfind]
      rfl
    rw [hdigits]
    exact (has_iff hm e k c).1 (has_of_neighbour? hc)

end

end PubSub.Shortest

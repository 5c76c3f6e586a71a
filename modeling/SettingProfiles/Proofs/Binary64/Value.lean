/-
SettingProfiles.Proofs.Binary64.Value — the rational numbers that floats are.

A finite float is a number of units, and so a rational number. Comparing floats and
rounding one to a whole number are defined on the units, which keeps the computations
in whole numbers; here they are said of the rational numbers themselves. NaN and the
two infinities have no value, and both zeros have the value zero.

  §1 Values   — `toRat?`.
  §2 Order    — `Binary64.le`, and the floats from 0 to 1.
  §3 Rounding — `round?_of_nonneg`.
-/
import Mathlib.Algebra.Order.Floor.Ring
import Mathlib.Data.Rat.Floor
import Mathlib.Tactic.FieldSimp
import Mathlib.Tactic.Linarith
import SettingProfiles.Proofs.Binary64.Rounding

namespace SettingProfiles.Binary64

variable {x y : Binary64} {q r : ℚ} {u : Int}

/-! ## §1 Values -/

/-- The number that a float is, if it is finite. -/
def toRat? (x : Binary64) : Option ℚ := x.units?.map fun (u : Int) => (u : ℚ) / one

theorem cast_one_pos : (0 : ℚ) < one := Nat.cast_pos.mpr (twoTo_pos 1074)

theorem toRat?_eq_some_iff :
    x.toRat? = some q ↔ ∃ u, x.units? = some u ∧ (u : ℚ) / one = q := Option.map_eq_some_iff

/-- So many ones are a whole number. -/
theorem toRat?_of_units {n : Int} (h : x.units? = some (n * one)) : x.toRat? = some (n : ℚ) := by
  have hone := cast_one_pos
  refine toRat?_eq_some_iff.mpr ⟨_, h, ?_⟩
  push_cast
  field_simp

theorem toRat?_zero : (zero false).toRat? = some 0 :=
  (toRat?_of_units (n := 0) (by decide +kernel)).trans (by rw [Int.cast_zero])

theorem toRat?_ofNat_one : (ofNat 1).toRat? = some 1 :=
  (toRat?_of_units (n := 1) (by decide +kernel)).trans (by rw [Int.cast_one])

/-- The whole numbers from 0 to 1 are floats. -/
theorem toRat?_ofInt {i : Int} (h : 0 ≤ i ∧ i ≤ 1) : (ofInt i).toRat? = some (i : ℚ) := by
  obtain rfl | rfl : i = 0 ∨ i = 1 := by omega
  · exact toRat?_of_units (by decide +kernel)
  · exact toRat?_of_units (by decide +kernel)

/-! ## §2 Order -/

/-- Numbers are compared by their values. -/
theorem le_iff (hx : x.toRat? = some q) (hy : y.toRat? = some r) : x.le y = true ↔ q ≤ r := by
  obtain ⟨u, hu, rfl⟩ := toRat?_eq_some_iff.mp hx
  obtain ⟨v, hv, rfl⟩ := toRat?_eq_some_iff.mp hy
  rw [div_le_div_iff_of_pos_right cast_one_pos, Int.cast_le]
  cases x with
  | nan => cases hu
  | infinite negative => cases hu
  | finite =>
    cases y with
    | nan => cases hv
    | infinite negative => cases hv
    | finite => simp [le, hu, hv]

/-- The floats from 0 to 1 are those with a value from 0 to 1. -/
theorem between_zero_one_iff :
    ((zero false).le x && x.le (ofNat 1)) = true ↔ ∃ q, x.toRat? = some q ∧ 0 ≤ q ∧ q ≤ 1 := by
  rw [Bool.and_eq_true]
  cases h : x.toRat? with
  | some q => simp [le_iff toRat?_zero h, le_iff h toRat?_ofNat_one]
  | none =>
    refine iff_of_false (fun hle => ?_) (by simp)
    -- what has no value is NaN or infinite, and then one of the comparisons fails
    obtain ⟨units, hunits, -⟩ := toRat?_eq_some_iff.mp toRat?_ofNat_one
    cases x with
    | nan => cases hle.1
    | finite => cases h
    | infinite negative =>
      cases negative with
      | true => cases hle.1
      | false =>
        generalize ofNat 1 = z at hunits hle
        cases z with
        | finite => cases hle.2
        | nan => cases hunits
        | infinite => cases hunits

/-! ## §3 Rounding -/

/-- **A number that is not negative is rounded to the nearest whole number, a half up**, and
so away from zero. -/
theorem round?_of_nonneg (hx : x.toRat? = some q) (hq : 0 ≤ q) :
    x.round? = some ⌊q + 1 / 2⌋ := by
  have hone := cast_one_pos
  obtain ⟨u, hu, rfl⟩ := toRat?_eq_some_iff.mp hx
  have hnonneg : 0 ≤ u := by
    have hunits : (0 : ℚ) ≤ u / one * one := mul_nonneg hq hone.le
    rw [div_mul_cancel₀ _ hone.ne'] at hunits
    exact Int.cast_nonneg_iff.mp hunits
  obtain ⟨n, rfl⟩ := Int.eq_ofNat_of_zero_le hnonneg
  have hhalf : ((n : Int) : ℚ) / one + 1 / 2
      = ((2 * n + one : Nat) : Int) / ((2 * one : Nat) : ℚ) := by
    push_cast
    field_simp
  rw [round?, hu, Option.map_some, hhalf, Rat.floor_intCast_div_natCast]
  dsimp only
  rw [if_neg (Int.not_lt.mpr hnonneg), Int.natAbs_natCast, Int.natCast_ediv]

/-- A number that is not negative is not below zero when it is rounded. -/
theorem floor_half_nonneg (hq : 0 ≤ q) : 0 ≤ ⌊q + 1 / 2⌋ :=
  Int.floor_nonneg.mpr (by linarith)

end SettingProfiles.Binary64

/-
SettingProfiles.Proofs.Binary64.Rounding — rounding keeps the order.

A quotient is rounded to a number of units, and the result is finite exactly if
that number is below the first power of two that has no float (`isFinite_ofQuotient`).
Of two quotients the smaller is rounded to at most as many units
(`roundedUnits_mono`), so whether a product or a quotient overflows has to be looked
at for the largest operands only.

  §1 Whole numbers — `roundQuotient`.
  §2 Units         — the rounded number of units, and its order.
  §3 Floats        — when the result of rounding is finite.
  §4 Arithmetic    — products and quotients of finite numbers.
-/
import Mathlib.Tactic.Ring
import Mathlib.Tactic.Linarith
import SettingProfiles.Binary64

namespace SettingProfiles.Binary64

/-! ## §1 Whole numbers -/

theorem roundQuotient_of_lt {num den : Nat} (h : 2 * (num % den) < den) :
    roundQuotient num den = num / den := if_pos h

theorem roundQuotient_of_gt {num den : Nat} (h : den < 2 * (num % den)) :
    roundQuotient num den = num / den + 1 := by
  simp only [roundQuotient, if_neg (Nat.lt_asymm h), if_pos h]

theorem roundQuotient_of_eq {num den : Nat} (h : 2 * (num % den) = den) :
    roundQuotient num den = num / den + num / den % 2 := by
  simp only [roundQuotient, h, Nat.lt_irrefl, if_false]

theorem le_roundQuotient (num den : Nat) : num / den ≤ roundQuotient num den := by
  simp only [roundQuotient]
  split
  · exact Nat.le_refl _
  · split <;> omega

theorem roundQuotient_le (num den : Nat) : roundQuotient num den ≤ num / den + 1 := by
  simp only [roundQuotient]
  split
  · omega
  · split
    · omega
    · have := Nat.mod_lt (num / den) (show 0 < 2 by decide)
      omega

/-- The quotient in whole numbers keeps the order. -/
theorem div_le_div_of_cross {a b a' b' : Nat} (hb : 0 < b) (hb' : 0 < b') (h : a * b' ≤ a' * b) :
    a / b ≤ a' / b' := by
  rw [Nat.le_div_iff_mul_le hb']
  refine Nat.le_of_mul_le_mul_right ?_ hb
  calc a / b * b' * b = a / b * b * b' := by ring
    _ ≤ a * b' := Nat.mul_le_mul_right _ (Nat.div_mul_le_self a b)
    _ ≤ a' * b := h

/-- **Rounding to whole numbers keeps the order.** -/
theorem roundQuotient_mono {a b a' b' : Nat} (hb : 0 < b) (hb' : 0 < b') (h : a * b' ≤ a' * b) :
    roundQuotient a b ≤ roundQuotient a' b' := by
  rcases Nat.lt_or_ge (a / b) (a' / b') with hlt | hge
  · exact ((roundQuotient_le a b).trans hlt).trans (le_roundQuotient a' b')
  · -- the same whole part: the remainders decide
    have hsame : a / b = a' / b' := Nat.le_antisymm (div_le_div_of_cross hb hb' h) hge
    have hrest : a % b * b' ≤ a' % b' * b := by
      have ha := Nat.div_add_mod a b
      have ha' := Nat.div_add_mod a' b'
      rw [← hsame] at ha'
      rw [← ha, ← ha'] at h
      have hl : (b * (a / b) + a % b) * b' = a / b * b * b' + a % b * b' := by ring
      have hr : (b' * (a / b) + a' % b') * b = a / b * b * b' + a' % b' * b := by ring
      rw [hl, hr] at h
      exact Nat.le_of_add_le_add_left h
    have hbelow : 2 * (a' % b') < b' → 2 * (a % b) < b := fun hlt => by
      refine Nat.lt_of_mul_lt_mul_right (a := b') ?_
      calc 2 * (a % b) * b' = 2 * (a % b * b') := by ring
        _ ≤ 2 * (a' % b' * b) := Nat.mul_le_mul_left 2 hrest
        _ = 2 * (a' % b') * b := by ring
        _ < b' * b := Nat.mul_lt_mul_of_pos_right hlt hb
        _ = b * b' := Nat.mul_comm _ _
    have hhalf : 2 * (a' % b') ≤ b' → 2 * (a % b) ≤ b := fun hle => by
      refine Nat.le_of_mul_le_mul_right ?_ hb'
      calc 2 * (a % b) * b' = 2 * (a % b * b') := by ring
        _ ≤ 2 * (a' % b' * b) := Nat.mul_le_mul_left 2 hrest
        _ = 2 * (a' % b') * b := by ring
        _ ≤ b' * b := Nat.mul_le_mul_right b hle
        _ = b * b' := Nat.mul_comm _ _
    rcases Nat.lt_trichotomy (2 * (a' % b')) b' with hlt | heq | hgt
    · rw [roundQuotient_of_lt hlt, roundQuotient_of_lt (hbelow hlt), hsame]
    · rcases Nat.lt_or_eq_of_le (hhalf (Nat.le_of_eq heq)) with hlt | hmiddle
      · rw [roundQuotient_of_lt hlt, hsame]
        exact le_roundQuotient a' b'
      · rw [roundQuotient_of_eq heq, roundQuotient_of_eq hmiddle, hsame]
    · rw [roundQuotient_of_gt hgt, ← hsame]
      exact roundQuotient_le a b

/-! ## §2 Units -/

/-- The exponent to which a quotient is rounded. -/
def roundingExponent (num den : Nat) : Nat := Nat.log2 (num * one / den) - 52

/-- The mantissa that rounding gives, before a carry. -/
def roundedMantissa (num den : Nat) : Nat :=
  roundQuotient (num * one) (den * twoTo (roundingExponent num den))

/-- The number of units to which a quotient is rounded. -/
def roundedUnits (num den : Nat) : Nat :=
  roundedMantissa num den * twoTo (roundingExponent num den)

theorem twoTo_pos (e : Nat) : 0 < twoTo e := Nat.pow_pos (by decide)

theorem twoTo_add (a b : Nat) : twoTo (a + b) = twoTo a * twoTo b := Nat.pow_add 2 a b

theorem twoTo_le {a b : Nat} (h : a ≤ b) : twoTo a ≤ twoTo b := Nat.pow_le_pow_right (by decide) h

theorem twoTo_lt_iff {a b : Nat} : twoTo a < twoTo b ↔ a < b :=
  Nat.pow_lt_pow_iff_right (by decide)

theorem log2_mono {a b : Nat} (h : a ≤ b) : Nat.log2 a ≤ Nat.log2 b := by
  by_cases ha : a = 0
  · rw [ha, Nat.log2_zero]
    exact Nat.zero_le _
  · exact (Nat.le_log2 (by omega)).mpr ((Nat.log2_self_le ha).trans h)

variable {num den num' den' : Nat}

/-- The quotient lies below the mantissas of 54 bits. -/
theorem scaled_lt (hden : 0 < den) :
    num * one < den * twoTo (roundingExponent num den) * twoTo 53 := by
  have hlog : num * one / den < twoTo (Nat.log2 (num * one / den) + 1) := Nat.lt_log2_self
  have hle : twoTo (Nat.log2 (num * one / den) + 1) ≤ twoTo (roundingExponent num den + 53) :=
    twoTo_le (by unfold roundingExponent; omega)
  have hdiv := (Nat.div_lt_iff_lt_mul hden).mp (hlog.trans_le hle)
  rw [twoTo_add] at hdiv
  calc num * one < twoTo (roundingExponent num den) * twoTo 53 * den := hdiv
    _ = den * twoTo (roundingExponent num den) * twoTo 53 := by ring

/-- Above the least exponent it has 53 bits. -/
theorem le_scaled (hden : 0 < den) (h : 0 < roundingExponent num den) :
    den * twoTo (roundingExponent num den) * twoTo 52 ≤ num * one := by
  have hne : num * one / den ≠ 0 := by
    intro hzero
    simp [roundingExponent, hzero] at h
  have hlog : twoTo (Nat.log2 (num * one / den)) ≤ num * one / den := Nat.log2_self_le hne
  have heq : roundingExponent num den + 52 = Nat.log2 (num * one / den) := by
    unfold roundingExponent at h ⊢
    omega
  rw [← heq, twoTo_add, Nat.le_div_iff_mul_le hden] at hlog
  calc den * twoTo (roundingExponent num den) * twoTo 52
      = twoTo (roundingExponent num den) * twoTo 52 * den := by ring
    _ ≤ num * one := hlog

theorem roundedMantissa_le (hden : 0 < den) : roundedMantissa num den ≤ twoTo 53 := by
  have hpos := Nat.mul_pos hden (twoTo_pos (roundingExponent num den))
  have hlt : num * one / (den * twoTo (roundingExponent num den)) < twoTo 53 := by
    rw [Nat.div_lt_iff_lt_mul hpos]
    exact (scaled_lt hden).trans_eq (Nat.mul_comm _ _)
  unfold roundedMantissa
  exact (roundQuotient_le _ _).trans (Nat.succ_le_of_lt hlt)

theorem le_roundedMantissa (hden : 0 < den) (h : 0 < roundingExponent num den) :
    twoTo 52 ≤ roundedMantissa num den := by
  have hpos := Nat.mul_pos hden (twoTo_pos (roundingExponent num den))
  have hle : twoTo 52 ≤ num * one / (den * twoTo (roundingExponent num den)) := by
    rw [Nat.le_div_iff_mul_le hpos]
    exact (Nat.mul_comm _ _).trans_le (le_scaled hden h)
  unfold roundedMantissa
  exact hle.trans (le_roundQuotient _ _)

theorem roundingExponent_mono (hden : 0 < den) (hden' : 0 < den')
    (h : num * den' ≤ num' * den) : roundingExponent num den ≤ roundingExponent num' den' := by
  have hscaled : num * one * den' ≤ num' * one * den := by
    calc num * one * den' = num * den' * one := by ring
      _ ≤ num' * den * one := Nat.mul_le_mul_right _ h
      _ = num' * one * den := by ring
  have hdiv := div_le_div_of_cross hden hden' hscaled
  have hlog := log2_mono hdiv
  unfold roundingExponent
  omega

/-- **Rounding keeps the order.** -/
theorem roundedUnits_mono (hden : 0 < den) (hden' : 0 < den') (h : num * den' ≤ num' * den) :
    roundedUnits num den ≤ roundedUnits num' den' := by
  rcases Nat.lt_or_eq_of_le (roundingExponent_mono hden hden' h) with hlt | heq
  · have hupper : roundedMantissa num den ≤ twoTo 53 := roundedMantissa_le hden
    have hlower : twoTo 52 ≤ roundedMantissa num' den' := le_roundedMantissa hden' (by omega)
    calc roundedUnits num den ≤ twoTo 53 * twoTo (roundingExponent num den) :=
          Nat.mul_le_mul_right _ hupper
      _ = twoTo 52 * twoTo (roundingExponent num den + 1) := by
          rw [← twoTo_add, ← twoTo_add]
          congr 1
          omega
      _ ≤ twoTo 52 * twoTo (roundingExponent num' den') := Nat.mul_le_mul_left _ (twoTo_le hlt)
      _ ≤ roundedUnits num' den' := Nat.mul_le_mul_right _ hlower
  · unfold roundedUnits roundedMantissa
    rw [← heq]
    refine Nat.mul_le_mul_right _ (roundQuotient_mono ?_ ?_ ?_)
    · exact Nat.mul_pos hden (twoTo_pos _)
    · exact Nat.mul_pos hden' (twoTo_pos _)
    · calc num * one * (den' * twoTo (roundingExponent num den))
          = num * den' * (one * twoTo (roundingExponent num den)) := by ring
        _ ≤ num' * den * (one * twoTo (roundingExponent num den)) := Nat.mul_le_mul_right _ h
        _ = num' * one * (den * twoTo (roundingExponent num den)) := by ring

/-! ## §3 Floats -/

/-- The magnitude of a finite number in units; zero for the others. -/
def magnitude : Binary64 → Nat
  | .finite _ mantissa exponent _ => mantissa * twoTo exponent
  | _ => 0

/-- The least number of units that no float has. -/
def overflow : Nat := twoTo 2098

theorem pack_of_lt {negative : Bool} {m e : Nat} (hm : m ≤ twoTo 53)
    (hbits : 0 < e → twoTo 52 ≤ m) :
    ((pack negative m e).isFinite = true ↔ m * twoTo e < overflow) ∧
      (m * twoTo e < overflow → (pack negative m e).magnitude = m * twoTo e) := by
  unfold pack overflow
  by_cases hcarry : m = twoTo 53
  · subst hcarry
    have hcanonical : Canonical (twoTo 52) (e + 1) ↔ e < 2045 := by
      have hlt : twoTo 52 < twoTo 53 := by decide
      simp only [Canonical, hlt, Nat.le_refl, true_or, and_true, true_and]
      omega
    have hoverflow : twoTo 53 * twoTo e < twoTo 2098 ↔ e < 2045 := by
      rw [← twoTo_add, twoTo_lt_iff]
      omega
    have hsame : twoTo 52 * twoTo (e + 1) = twoTo 53 * twoTo e := by
      rw [← twoTo_add, ← twoTo_add]
      congr 1
      omega
    simp only [if_true]
    rw [hoverflow]
    by_cases he : e < 2045
    · rw [dif_pos (hcanonical.mpr he)]
      exact ⟨⟨fun _ => he, fun _ => rfl⟩, fun _ => hsame⟩
    · rw [dif_neg (mt hcanonical.mp he)]
      exact ⟨⟨(nomatch ·), fun h => absurd h he⟩, fun h => absurd h he⟩
  · have hlt : m < twoTo 53 := Nat.lt_of_le_of_ne hm hcarry
    have hthird : twoTo 52 ≤ m ∨ e = 0 := by
      rcases Nat.eq_zero_or_pos e with he | he
      · exact Or.inr he
      · exact Or.inl (hbits he)
    have hcanonical : Canonical m e ↔ e ≤ 2045 := by
      simp only [Canonical, hlt, hthird, true_and, and_true]
    have hoverflow : m * twoTo e < twoTo 2098 ↔ e ≤ 2045 := by
      constructor
      · intro h
        by_contra he
        have hbig := Nat.mul_le_mul (hbits (by omega)) (twoTo_le (show 2046 ≤ e by omega))
        rw [← twoTo_add] at hbig
        exact absurd h (Nat.not_lt.mpr hbig)
      · intro he
        calc m * twoTo e < twoTo 53 * twoTo e := Nat.mul_lt_mul_of_pos_right hlt (twoTo_pos e)
          _ ≤ twoTo 53 * twoTo 2045 := Nat.mul_le_mul_left _ (twoTo_le he)
          _ = twoTo 2098 := (twoTo_add 53 2045).symm
    simp only [hcarry, if_false]
    rw [hoverflow]
    by_cases he : e ≤ 2045
    · rw [dif_pos (hcanonical.mpr he)]
      exact ⟨⟨fun _ => he, fun _ => rfl⟩, fun _ => rfl⟩
    · rw [dif_neg (mt hcanonical.mp he)]
      exact ⟨⟨(nomatch ·), fun h => absurd h he⟩, fun h => absurd h he⟩

/-- **The result of rounding is finite exactly if it has fewer units than the overflow.** -/
theorem isFinite_ofQuotient (negative : Bool) (hden : 0 < den) :
    (ofQuotient negative num den).isFinite = true ↔ roundedUnits num den < overflow :=
  (pack_of_lt (roundedMantissa_le hden) (le_roundedMantissa hden)).1

theorem magnitude_ofQuotient {negative : Bool} (hden : 0 < den)
    (h : (ofQuotient negative num den).isFinite = true) :
    (ofQuotient negative num den).magnitude = roundedUnits num den :=
  (pack_of_lt (roundedMantissa_le hden) (le_roundedMantissa hden)).2
    ((isFinite_ofQuotient negative hden).mp h)

/-! ## §4 Arithmetic -/

theorem isFinite_neg (x : Binary64) : x.neg.isFinite = x.isFinite := by
  cases x <;> rfl

/-- Whole numbers keep their order, and a finite one bounds those below it. -/
theorem ofNat_mono {m n : Nat} (h : m ≤ n) (hn : (ofNat n).isFinite = true) :
    (ofNat m).isFinite = true ∧ (ofNat m).magnitude ≤ (ofNat n).magnitude := by
  have hmono : roundedUnits m 1 ≤ roundedUnits n 1 :=
    roundedUnits_mono Nat.one_pos Nat.one_pos (Nat.mul_le_mul_right 1 h)
  have hm : (ofNat m).isFinite = true :=
    (isFinite_ofQuotient false Nat.one_pos).mpr
      (hmono.trans_lt ((isFinite_ofQuotient false Nat.one_pos).mp hn))
  refine ⟨hm, ?_⟩
  unfold ofNat at hm hn ⊢
  rw [magnitude_ofQuotient Nat.one_pos hm, magnitude_ofQuotient Nat.one_pos hn]
  exact hmono

variable {x y x' y' : Binary64}

theorem isFinite_mul (hx : x.isFinite = true) (hy : y.isFinite = true) :
    (x.mul y).isFinite = true ↔
      roundedUnits (x.magnitude * y.magnitude) (one * one) < overflow := by
  have hpos : 0 < one * one := Nat.mul_pos (twoTo_pos 1074) (twoTo_pos 1074)
  cases x with
  | nan => cases hx
  | infinite negative => cases hx
  | finite negative m e hc =>
    cases y with
    | nan => cases hy
    | infinite negative => cases hy
    | finite negative' m' e' hc' =>
      simp only [mul, magnitude]
      rw [isFinite_ofQuotient _ hpos]

/-- A product is finite if that of larger numbers is. -/
theorem isFinite_mul_of_le (hx : x.isFinite = true) (hy : y.isFinite = true)
    (hx' : x'.isFinite = true) (hy' : y'.isFinite = true) (hlex : x.magnitude ≤ x'.magnitude)
    (hley : y.magnitude ≤ y'.magnitude) (h : (x'.mul y').isFinite = true) :
    (x.mul y).isFinite = true := by
  have hpos : 0 < one * one := Nat.mul_pos (twoTo_pos 1074) (twoTo_pos 1074)
  rw [isFinite_mul hx hy]
  refine (roundedUnits_mono hpos hpos ?_).trans_lt ((isFinite_mul hx' hy').mp h)
  exact Nat.mul_le_mul_right _ (Nat.mul_le_mul hlex hley)

/-- Dividing a number by one or more leaves it below every bound. -/
theorem isFinite_div_of_le {n : Nat} (hx : x.isFinite = true) (hxn : x.magnitude ≤ n * one)
    (hn : roundedUnits n 1 < overflow) (hy : y.isFinite = true) (hone : one ≤ y.magnitude) :
    (x.div y).isFinite = true ∧ (x.div y).magnitude ≤ roundedUnits n 1 := by
  have hpos : 0 < y.magnitude := (twoTo_pos 1074).trans_le hone
  have hle : roundedUnits x.magnitude y.magnitude ≤ roundedUnits n 1 := by
    refine roundedUnits_mono hpos Nat.one_pos ?_
    exact (Nat.mul_one _).trans_le (hxn.trans (Nat.mul_le_mul_left _ hone))
  cases x with
  | nan => cases hx
  | infinite negative => cases hx
  | finite negative m e hc =>
    cases y with
    | nan => cases hy
    | infinite negative => cases hy
    | finite negative' m' e' hc' =>
      have hm' : m' ≠ 0 := by
        rintro rfl
        simp [magnitude] at hpos
      simp only [div, hm', if_false]
      have hfinite := (isFinite_ofQuotient (Binary64.isNegative (.finite negative m e hc)
        != Binary64.isNegative (.finite negative' m' e' hc')) hpos).mpr (hle.trans_lt hn)
      exact ⟨hfinite, (magnitude_ofQuotient hpos hfinite).trans_le hle⟩

end SettingProfiles.Binary64

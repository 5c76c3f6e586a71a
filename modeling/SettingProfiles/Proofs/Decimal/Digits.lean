/-
SettingProfiles.Proofs.Decimal.Digits — digits, their characters and their
values.

A number is the value of its digits, digits are written as characters that are
read as the same digits, and the run of digits at the beginning of a text ends
where no digit follows.

  §1 Characters — of one digit and of many.
  §2 Values     — of appended, padded and leading digits.
  §3 Numbers    — `Digits.ofNat`, and the characters that core writes.
  §4 Runs       — `Digits.span`.
-/
import SettingProfiles.Decimal.Digit

namespace SettingProfiles

/-! ## §1 Characters -/

namespace Digit

@[simp] theorem ofChar_toChar (d : Digit) : Digit.ofChar d.toChar = d := by
  revert d
  decide

@[simp] theorem isDigit_toChar (d : Digit) : d.toChar.isDigit = true := by
  revert d
  decide

/-- Only zero is written as a zero. -/
theorem toChar_eq_zero_iff {d : Digit} : d.toChar = '0' ↔ d = Digit.zero := by
  revert d
  decide

/-- The digit below ten. -/
theorem ofChar_digitChar {n : Nat} (h : n < 10) : Digit.ofChar (Nat.digitChar n) = ⟨n, h⟩ :=
  ofChar_toChar ⟨n, h⟩

end Digit

theorem tenTo_pos (e : Nat) : 0 < tenTo e := Nat.pow_pos (by decide)

theorem tenTo_le {a b : Nat} (h : a ≤ b) : tenTo a ≤ tenTo b := Nat.pow_le_pow_right (by decide) h

theorem tenTo_succ (e : Nat) : tenTo (e + 1) = 10 * tenTo e :=
  (Nat.pow_succ 10 e).trans (Nat.mul_comm _ _)

namespace Digits

/-! ## §2 Values -/

theorem value_foldl (ds : List Digit) (n : Nat) :
    ds.foldl (fun n d => 10 * n + d.val) n = n * tenTo ds.length + value ds := by
  induction ds generalizing n with
  | nil => simp [value, tenTo]
  | cons d ds ih =>
    unfold value
    rw [List.foldl_cons, List.foldl_cons, ih, ih (10 * 0 + d.val)]
    rw [List.length_cons, tenTo_succ]
    grind

@[simp] theorem value_nil : value [] = 0 := rfl

theorem value_cons (d : Digit) (ds : List Digit) :
    value (d :: ds) = d.val * tenTo ds.length + value ds := by
  unfold value
  rw [List.foldl_cons, value_foldl]
  simp [value]

theorem value_append (ds es : List Digit) :
    value (ds ++ es) = value ds * tenTo es.length + value es := by
  unfold value
  rw [List.foldl_append, value_foldl]
  rfl

@[simp] theorem value_zeros (n : Nat) : value (List.replicate n Digit.zero) = 0 := by
  induction n with
  | zero => rfl
  | succ n ih =>
    rw [List.replicate_succ, value_cons, ih]
    simp [Digit.zero]

/-- A number of so many digits. -/
theorem value_lt (ds : List Digit) : value ds < tenTo ds.length := by
  induction ds with
  | nil => decide
  | cons d ds ih =>
    rw [value_cons, List.length_cons]
    have hd : d.val ≤ 9 := Nat.le_of_lt_succ d.isLt
    have hmul : d.val * tenTo ds.length ≤ 9 * tenTo ds.length := Nat.mul_le_mul_right _ hd
    have hsucc := tenTo_succ ds.length
    omega

/-! ## §3 Numbers -/

theorem ofNat_of_lt {n : Nat} (h : n < 10) : ofNat n = [⟨n, h⟩] := by
  unfold ofNat
  rw [Nat.toDigits_of_lt_base h, List.map_singleton, Digit.ofChar_digitChar h]

theorem ofNat_of_le {n : Nat} (h : 10 ≤ n) :
    ofNat n = ofNat (n / 10) ++ [⟨n % 10, Nat.mod_lt n (by decide)⟩] := by
  unfold ofNat
  rw [Nat.toDigits_of_base_le (by decide) h, List.map_append, List.map_singleton,
    Digit.ofChar_digitChar]

/-- A number is the value of its digits. -/
@[simp] theorem value_ofNat (n : Nat) : value (ofNat n) = n := by
  induction n using Nat.strongRecOn with
  | ind n ih =>
    by_cases h : n < 10
    · rw [ofNat_of_lt h]
      simp [value_cons, tenTo]
    · rw [ofNat_of_le (Nat.le_of_not_lt h), value_append, ih (n / 10) (by omega)]
      simp only [value_cons, List.length_singleton, List.length_nil, tenTo, value_nil, Nat.pow_eq]
      omega

/-- The digits of a number are the characters that core writes. -/
@[simp] theorem toChars_ofNat (n : Nat) : toChars (ofNat n) = Nat.toDigits 10 n := by
  induction n using Nat.strongRecOn with
  | ind n ih =>
    by_cases h : n < 10
    · rw [ofNat_of_lt h, Nat.toDigits_of_lt_base h]
      rfl
    · have hle := Nat.le_of_not_lt h
      unfold toChars at ih ⊢
      rw [ofNat_of_le hle, Nat.toDigits_of_base_le (by decide) hle, List.map_append,
        ih (n / 10) (by omega)]
      rfl

theorem ofNat_ne_nil (n : Nat) : ofNat n ≠ [] := by
  simp [ofNat, Nat.toDigits_ne_nil]

/-- The first digit is not zero, but of zero. -/
theorem head?_ofNat_ne {n : Nat} (h : n ≠ 0) : (ofNat n).head? ≠ some Digit.zero := by
  induction n using Nat.strongRecOn with
  | ind n ih =>
    by_cases hlt : n < 10
    · rw [ofNat_of_lt hlt]
      simpa [Digit.zero] using h
    · have hfirst := ih (n / 10) (by omega) (by omega)
      obtain ⟨d, ds, hds⟩ := List.exists_cons_of_ne_nil (ofNat_ne_nil (n / 10))
      rw [hds] at hfirst
      rw [ofNat_of_le (Nat.le_of_not_lt hlt), hds]
      exact hfirst

theorem padded_ne_nil (width n : Nat) : padded width n ≠ [] := by
  simp [padded, ofNat_ne_nil]

@[simp] theorem value_padded (width n : Nat) : value (padded width n) = n := by
  simp [padded, value_append]

theorem length_ofNat_le {width n : Nat} (hwidth : 0 < width) (h : n < tenTo width) :
    (ofNat n).length ≤ width := by
  unfold ofNat
  rw [List.length_map]
  exact (Nat.length_toDigits_le_iff (by decide) hwidth).mpr h

theorem length_ofNat_pos (n : Nat) : 0 < (ofNat n).length :=
  List.length_pos_iff.mpr (ofNat_ne_nil n)

theorem length_padded {width n : Nat} (hwidth : 0 < width) (h : n < tenTo width) :
    (padded width n).length = width := by
  have := length_ofNat_le hwidth h
  simp only [padded, List.length_append, List.length_replicate]
  omega

/-- A number has at least as many units as its first digit stands for. -/
theorem tenTo_length_le {n : Nat} (h : n ≠ 0) : tenTo ((ofNat n).length - 1) ≤ n := by
  refine Nat.le_of_not_lt fun hlt => ?_
  rcases Nat.eq_zero_or_pos ((ofNat n).length - 1) with hzero | hpos
  · rw [hzero] at hlt
    exact h (Nat.lt_one_iff.mp hlt)
  · have := length_ofNat_le hpos hlt
    omega

/-! ## §4 Runs -/

/-- The text does not go on with a digit. -/
def Ends (rest : List Char) : Prop := ∀ c ∈ rest.head?, c.isDigit = false

theorem span_toChars_append (ds : List Digit) {rest : List Char} (h : Ends rest) :
    span (toChars ds ++ rest) = (ds, rest) := by
  induction ds with
  | nil =>
    cases rest with
    | nil => rfl
    | cons c rest =>
      have hc : c.isDigit = false := h c rfl
      simp [toChars, span, hc]
  | cons d ds ih =>
    unfold toChars at ih ⊢
    rw [List.map_cons, List.cons_append, span, if_pos (Digit.isDigit_toChar d), ih,
      Digit.ofChar_toChar]

end Digits

end SettingProfiles

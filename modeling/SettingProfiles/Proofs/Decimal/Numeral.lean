/-
SettingProfiles.Proofs.Decimal.Numeral — the spellings of numerals.

The strict form as a grammar, apart from the reader: what may stand for the part
before the point, for the digits behind it and for the power of ten. The reader
reads every spelling as its numeral (`scan?_append`), and writing gives one of the
spellings (`spells_write`).

  §1 Spellings — the grammar.
  §2 Reading   — part by part, then the whole.
  §3 Writing
-/
import SettingProfiles.Decimal.Numeral
import SettingProfiles.Proofs.Decimal.Digits

namespace SettingProfiles.Numeral

open Digits (toChars value)

/-! ## §1 Spellings -/

/-- The part before the point: a zero alone, or no zero in front. -/
inductive SpellsWhole : Nat → List Char → Prop
  | zero : SpellsWhole 0 ['0']
  | digits {d : Digit} {ds : List Digit} (hd : d ≠ Digit.zero) :
      SpellsWhole (value (d :: ds)) (toChars (d :: ds))

/-- The digits behind the point, if there are any. -/
inductive SpellsFraction : List Digit → List Char → Prop
  | none : SpellsFraction [] []
  | digits {ds : List Digit} (hds : ds ≠ []) : SpellsFraction ds ('.' :: toChars ds)

/-- The power of ten, if there is one. -/
inductive SpellsExponent : Option Int → List Char → Prop
  | none : SpellsExponent none []
  | unsigned {e : Char} {ds : List Digit} (he : e = 'e' ∨ e = 'E') (hds : ds ≠ []) :
      SpellsExponent (some (value ds)) (e :: toChars ds)
  | plus {e : Char} {ds : List Digit} (he : e = 'e' ∨ e = 'E') (hds : ds ≠ []) :
      SpellsExponent (some (value ds)) (e :: '+' :: toChars ds)
  | minus {e : Char} {ds : List Digit} (he : e = 'e' ∨ e = 'E') (hds : ds ≠ []) :
      SpellsExponent (some (-(value ds : Int))) (e :: '-' :: toChars ds)

/-- The text spells the numeral in the strict form. -/
inductive Spells : Numeral → List Char → Prop
  | mk {whole : Nat} {fraction : List Digit} {exponent : Option Int} {ws fs es : List Char}
      (negative : Bool) (hwhole : SpellsWhole whole ws) (hfraction : SpellsFraction fraction fs)
      (hexponent : SpellsExponent exponent es) :
      Spells ⟨negative, whole, fraction, exponent⟩
        ((if negative then ['-'] else []) ++ (ws ++ (fs ++ es)))

/-- The text does not go on like a numeral. -/
def Ends (rest : List Char) : Prop :=
  ∀ c ∈ rest.head?, c.isDigit = false ∧ c ≠ '.' ∧ c ≠ 'e' ∧ c ≠ 'E'

variable {rest : List Char}

theorem Ends.digits (h : Ends rest) : Digits.Ends rest := fun c hc => (h c hc).1

/-! ## §2 Reading -/

theorem scanWhole?_append {whole : Nat} {ws : List Char} (h : SpellsWhole whole ws)
    (hrest : Digits.Ends rest) : scanWhole? (ws ++ rest) = some (whole, rest) := by
  cases h with
  | zero => rfl
  | @digits d ds hd =>
    have hzero : d.toChar ≠ '0' := fun h => hd (Digit.toChar_eq_zero_iff.mp h)
    have hspan := Digits.span_toChars_append (d :: ds) hrest
    unfold scanWhole?
    split
    · rename_i heq
      exact absurd (List.cons.inj heq).1 hzero
    · rw [hspan]

theorem scanFraction?_append {fraction : List Digit} {fs : List Char}
    (h : SpellsFraction fraction fs) (hrest : Digits.Ends rest) (hpoint : '.' ∉ rest.head?) :
    scanFraction? (fs ++ rest) = some (fraction, rest) := by
  cases h with
  | none =>
    unfold scanFraction?
    split
    · rename_i heq
      rw [List.nil_append] at heq
      rw [heq] at hpoint
      exact absurd rfl hpoint
    · rfl
  | digits hds =>
    obtain ⟨d, ds, rfl⟩ := List.exists_cons_of_ne_nil hds
    show scanFraction? ('.' :: (toChars (d :: ds) ++ rest)) = _
    simp only [scanFraction?]
    rw [Digits.span_toChars_append (d :: ds) hrest]

theorem scanSigned?_append {ds : List Digit} (hds : ds ≠ []) (hrest : Digits.Ends rest) :
    scanSigned? (toChars ds ++ rest) = some ((value ds : Int), rest) ∧
      scanSigned? ('+' :: (toChars ds ++ rest)) = some ((value ds : Int), rest) ∧
      scanSigned? ('-' :: (toChars ds ++ rest)) = some (-(value ds : Int), rest) := by
  obtain ⟨d, ds, rfl⟩ := List.exists_cons_of_ne_nil hds
  have hspan := Digits.span_toChars_append (d :: ds) hrest
  have hminus : d.toChar ≠ '-' := fun h => by simpa [h] using Digit.isDigit_toChar d
  have hplus : d.toChar ≠ '+' := fun h => by simpa [h] using Digit.isDigit_toChar d
  refine ⟨?_, ?_, ?_⟩
  · unfold scanSigned?
    split
    rename_i negative digits heq
    split at heq
    · rename_i h
      exact absurd (List.cons.inj h).1 hminus
    · rename_i h
      exact absurd (List.cons.inj h).1 hplus
    · cases heq
      rw [hspan]
      rfl
  · simp only [scanSigned?, hspan]
    rfl
  · simp only [scanSigned?, hspan]
    rfl

theorem scanExponent?_append {exponent : Option Int} {es : List Char}
    (h : SpellsExponent exponent es) (hrest : Ends rest) :
    scanExponent? (es ++ rest) = some (exponent, rest) := by
  cases h with
  | none =>
    unfold scanExponent?
    split
    · rename_i heq
      rw [List.nil_append] at heq
      exact absurd rfl (hrest 'e' (by rw [heq]; rfl)).2.2.1
    · rename_i heq
      rw [List.nil_append] at heq
      exact absurd rfl (hrest 'E' (by rw [heq]; rfl)).2.2.2
    · rfl
  | unsigned he hds =>
    have hscan := (scanSigned?_append hds hrest.digits).1
    rcases he with rfl | rfl <;> simp [scanExponent?, hscan]
  | plus he hds =>
    have hscan := (scanSigned?_append hds hrest.digits).2.1
    rcases he with rfl | rfl <;> simp [scanExponent?, hscan]
  | minus he hds =>
    have hscan := (scanSigned?_append hds hrest.digits).2.2
    rcases he with rfl | rfl <;> simp [scanExponent?, hscan]

/-- What follows the digits of a fraction. -/
theorem SpellsExponent.ends {exponent : Option Int} {es : List Char}
    (h : SpellsExponent exponent es) (hrest : Ends rest) :
    Digits.Ends (es ++ rest) ∧ '.' ∉ (es ++ rest).head? := by
  cases h with
  | none => exact ⟨hrest.digits, fun hpoint => (hrest '.' hpoint).2.1 rfl⟩
  | unsigned he _ => rcases he with rfl | rfl <;> simp [Digits.Ends]
  | plus he _ => rcases he with rfl | rfl <;> simp [Digits.Ends]
  | minus he _ => rcases he with rfl | rfl <;> simp [Digits.Ends]

/-- What follows the digits before the point. -/
theorem SpellsFraction.ends {fraction : List Digit} {fs : List Char}
    (h : SpellsFraction fraction fs) (hrest : Digits.Ends rest) : Digits.Ends (fs ++ rest) := by
  cases h with
  | none => exact hrest
  | digits _ => simp [Digits.Ends]

theorem SpellsWhole.exists_cons {whole : Nat} {ws : List Char} (h : SpellsWhole whole ws) :
    ∃ c cs, ws = c :: cs ∧ c.isDigit = true := by
  cases h with
  | zero => exact ⟨'0', [], rfl, by decide⟩
  | @digits d ds _ => exact ⟨d.toChar, toChars ds, rfl, Digit.isDigit_toChar d⟩

/-- A spelling begins with a digit or a minus sign. -/
theorem Spells.exists_cons {n : Numeral} {cs : List Char} (h : n.Spells cs) :
    ∃ c ds, cs = c :: ds ∧ (c = '-' ∨ c.isDigit = true) := by
  obtain ⟨negative, hwhole, -, -⟩ := h
  cases negative with
  | true => exact ⟨'-', _, rfl, Or.inl rfl⟩
  | false =>
    obtain ⟨c, cs, rfl, hc⟩ := hwhole.exists_cons
    exact ⟨c, _, rfl, Or.inr hc⟩

/-- **Every spelling of a numeral is read as the numeral.** -/
theorem scan?_append {n : Numeral} {cs : List Char} (h : n.Spells cs) (hrest : Ends rest) :
    scan? (cs ++ rest) = some (n, rest) := by
  obtain ⟨negative, hwhole, hfraction, hexponent⟩ := h
  rename_i whole fraction exponent ws fs es
  obtain ⟨hends, hpoint⟩ := hexponent.ends hrest
  have hw := scanWhole?_append hwhole (hfraction.ends hends)
  have hf := scanFraction?_append hfraction hends hpoint
  have he := scanExponent?_append hexponent hrest
  cases negative with
  | true => simp [scan?, hw, hf, he]
  | false =>
    obtain ⟨c, cs, rfl, hc⟩ := hwhole.exists_cons
    have hminus : c ≠ '-' := fun h => by simp [h] at hc
    simp only [Bool.false_eq_true, if_false, List.nil_append, List.append_assoc,
      List.cons_append] at hw ⊢
    unfold scan?
    split
    rename_i negative cs' heq
    split at heq
    · rename_i h
      exact absurd (List.cons.inj h).1 hminus
    · cases heq
      simp [hw, hf, he]

/-! ## §3 Writing -/

/-- A number is spelled by the characters that core writes. -/
theorem spellsWhole_toDigits (n : Nat) : SpellsWhole n (Nat.toDigits 10 n) := by
  by_cases h : n = 0
  · subst h
    exact .zero
  · obtain ⟨d, ds, hds⟩ := List.exists_cons_of_ne_nil (Digits.ofNat_ne_nil n)
    have hd : d ≠ Digit.zero := fun hd => Digits.head?_ofNat_ne h (by rw [hds, hd]; rfl)
    have hspells : SpellsWhole (Digits.value (d :: ds)) (toChars (d :: ds)) := .digits hd
    rwa [← hds, Digits.value_ofNat, Digits.toChars_ofNat] at hspells

/-- The text of a numeral is one of its spellings. -/
theorem spells_write (n : Numeral) : n.Spells n.write := by
  obtain ⟨negative, whole, fraction, exponent⟩ := n
  have hfraction : SpellsFraction fraction
      (if fraction.isEmpty then [] else '.' :: toChars fraction) := by
    cases fraction with
    | nil => exact .none
    | cons d ds => exact .digits (by simp)
  have hexponent : SpellsExponent exponent (writeExponent exponent) := by
    cases exponent with
    | none => exact .none
    | some e =>
      simp only [writeExponent]
      rw [← Digits.toChars_ofNat]
      have hds := Digits.ofNat_ne_nil e.natAbs
      by_cases he : e < 0
      · have hvalue : -(value (Digits.ofNat e.natAbs) : Int) = e := by
          rw [Digits.value_ofNat]
          omega
        have := SpellsExponent.minus (e := 'e') (Or.inl rfl) hds
        rwa [hvalue, ← if_pos (c := e < 0) (t := '-') (e := '+') he] at this
      · have hvalue : (value (Digits.ofNat e.natAbs) : Int) = e := by
          rw [Digits.value_ofNat]
          omega
        have := SpellsExponent.plus (e := 'e') (Or.inl rfl) hds
        rwa [hvalue, ← if_neg (c := e < 0) (t := '-') (e := '+') he] at this
  have := Spells.mk negative (spellsWhole_toDigits whole) hfraction hexponent
  simpa [write] using this

end SettingProfiles.Numeral

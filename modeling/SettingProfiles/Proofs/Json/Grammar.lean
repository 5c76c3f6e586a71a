/-
SettingProfiles.Proofs.Json.Grammar — the spellings of JSON values.

The grammar of JSON, apart from the reader: which texts spell a value, with any
blanks between the tokens and any of the spellings of a character in a string
literal. The reader reads every spelling as its value (`read?_of_spells`).

  §1 Blanks
  §2 Strings  — the spellings of a piece and of a literal.
  §3 Values   — values, items, members.
  §4 Beginnings — the first character tells what follows.
  §5 Reading  — `scan_of_spells`, by induction on the fuel.
-/
import SettingProfiles.Json.Reader
import SettingProfiles.Proofs.Decimal.Numeral

namespace SettingProfiles.Json

variable {rest : List Char}

/-! ## §1 Blanks -/

/-- The text is blank. -/
def Blank (ws : List Char) : Prop := ∀ c ∈ ws, isBlank c = true

theorem blank_nil : Blank [] := by simp [Blank]

theorem skipBlanks_append {ws : List Char} (h : Blank ws) :
    skipBlanks (ws ++ rest) = skipBlanks rest := by
  unfold skipBlanks
  exact List.dropWhile_append_of_pos h

theorem skipBlanks_cons {c : Char} (h : isBlank c = false) :
    skipBlanks (c :: rest) = c :: rest := by
  simp [skipBlanks, h]

/-- Blanks in front of a text that begins otherwise. -/
theorem skipBlanks_append_cons {ws : List Char} {c : Char} (hws : Blank ws)
    (hc : isBlank c = false) : skipBlanks (ws ++ c :: rest) = c :: rest := by
  rw [skipBlanks_append hws, skipBlanks_cons hc]

/-! ## §2 Strings -/

/-- The spellings of a piece of a string literal. -/
inductive SpellsPiece : Piece → List Char → Prop
  | plain {c : Char} (hquote : c ≠ '"') (hescape : c ≠ '\\') (hcontrol : ¬ c.toNat < 0x20) :
      SpellsPiece (.plain c) [c]
  | escaped {e c : Char} (he : escapedChar? e = some c) : SpellsPiece (.plain c) ['\\', e]
  | unit {a b c d : Char} {code : Nat} (hcode : Text.hexNumber? [a, b, c, d] = some code) :
      SpellsPiece (.unit code) ['\\', 'u', a, b, c, d]

/-- The spellings of pieces, one behind the other. -/
inductive SpellsPieces : List Piece → List Char → Prop
  | nil : SpellsPieces [] []
  | cons {p : Piece} {ps : List Piece} {cs ds : List Char} (hp : SpellsPiece p cs)
      (hps : SpellsPieces ps ds) : SpellsPieces (p :: ps) (cs ++ ds)

/-- The spellings of a string literal. -/
inductive SpellsString : Option String → List Char → Prop
  | mk {ps : List Piece} {cs : List Char} (h : SpellsPieces ps cs) :
      SpellsString ((textOfPieces? ps).map String.ofList) ('"' :: (cs ++ ['"']))

/-! ## §3 Values -/

mutual

/-- The spellings of a value, without blanks around it. -/
inductive Spells : Json → List Char → Prop
  | null : Spells .null ['n', 'u', 'l', 'l']
  | boolTrue : Spells (.bool true) ['t', 'r', 'u', 'e']
  | boolFalse : Spells (.bool false) ['f', 'a', 'l', 's', 'e']
  | number {n : Numeral} {cs : List Char} (h : n.Spells cs) : Spells (.number n) cs
  | string {s : Option String} {cs : List Char} (h : SpellsString s cs) : Spells (.string s) cs
  | emptyArray {ws : List Char} (hws : Blank ws) : Spells (.array []) ('[' :: (ws ++ [']']))
  | array {items : List Json} {cs : List Char} (h : SpellsItems items cs) :
      Spells (.array items) ('[' :: cs)
  | emptyObject {ws : List Char} (hws : Blank ws) :
      Spells (.object []) ('\x7b' :: (ws ++ ['\x7d']))
  | object {members : List (Option String × Json)} {cs : List Char}
      (h : SpellsMembers members cs) : Spells (.object members) ('\x7b' :: cs)

/-- The spellings of the items of an array, at least one, with the closing bracket. -/
inductive SpellsItems : List Json → List Char → Prop
  | last {item : Json} {cs ws ws' : List Char} (hws : Blank ws) (h : Spells item cs)
      (hws' : Blank ws') : SpellsItems [item] (ws ++ (cs ++ (ws' ++ [']'])))
  | cons {item : Json} {items : List Json} {cs ds ws ws' : List Char} (hws : Blank ws)
      (h : Spells item cs) (hws' : Blank ws') (hitems : SpellsItems items ds) :
      SpellsItems (item :: items) (ws ++ (cs ++ (ws' ++ ',' :: ds)))

/-- The spellings of the members of an object, at least one, with the closing brace. -/
inductive SpellsMembers : List (Option String × Json) → List Char → Prop
  | last {name : Option String} {value : Json} {ns cs ws₁ ws₂ ws₃ ws₄ : List Char}
      (h₁ : Blank ws₁) (hname : SpellsString name ns) (h₂ : Blank ws₂) (h₃ : Blank ws₃)
      (h : Spells value cs) (h₄ : Blank ws₄) :
      SpellsMembers [(name, value)]
        (ws₁ ++ (ns ++ (ws₂ ++ ':' :: (ws₃ ++ (cs ++ (ws₄ ++ ['\x7d']))))))
  | cons {name : Option String} {value : Json} {members : List (Option String × Json)}
      {ns cs ds ws₁ ws₂ ws₃ ws₄ : List Char}
      (h₁ : Blank ws₁) (hname : SpellsString name ns) (h₂ : Blank ws₂) (h₃ : Blank ws₃)
      (h : Spells value cs) (h₄ : Blank ws₄) (hmembers : SpellsMembers members ds) :
      SpellsMembers ((name, value) :: members)
        (ws₁ ++ (ns ++ (ws₂ ++ ':' :: (ws₃ ++ (cs ++ (ws₄ ++ ',' :: ds))))))

end

/-- A whole text spells the value: one of its spellings with blanks around it. -/
def SpellsText (j : Json) (text : List Char) : Prop :=
  ∃ ws cs ws', Blank ws ∧ Spells j cs ∧ Blank ws' ∧ text = ws ++ (cs ++ ws')

/-! ## §4 Beginnings -/

/-- The first character of a numeral is that of nothing else. -/
theorem ne_of_numeral {c d : Char} (h : c = '-' ∨ c.isDigit = true)
    (hd : d ≠ '-' ∧ d.isDigit = false) : c ≠ d := by
  rintro rfl
  rcases h with h | h
  · exact hd.1 h
  · rw [hd.2] at h
    cases h

theorem isBlank_of_numeral {c : Char} (h : c = '-' ∨ c.isDigit = true) : isBlank c = false := by
  have hspace := ne_of_numeral h (d := ' ') (by decide)
  have htab := ne_of_numeral h (d := '\t') (by decide)
  have hline := ne_of_numeral h (d := '\n') (by decide)
  have hreturn := ne_of_numeral h (d := '\r') (by decide)
  simp [isBlank, hspace, htab, hline, hreturn]

/-- A value does not begin with a blank, nor with a closing bracket. -/
theorem Spells.exists_cons {j : Json} {cs : List Char} (h : Spells j cs) :
    ∃ c ds, cs = c :: ds ∧ isBlank c = false ∧ c ≠ ']' := by
  cases h with
  | null => exact ⟨_, _, rfl, by decide, by decide⟩
  | boolTrue => exact ⟨_, _, rfl, by decide, by decide⟩
  | boolFalse => exact ⟨_, _, rfl, by decide, by decide⟩
  | number h =>
    obtain ⟨c, ds, rfl, hc⟩ := h.exists_cons
    exact ⟨c, ds, rfl, isBlank_of_numeral hc, ne_of_numeral hc (by decide)⟩
  | string h =>
    obtain ⟨h⟩ := h
    exact ⟨_, _, rfl, by decide, by decide⟩
  | emptyArray h => exact ⟨_, _, rfl, by decide, by decide⟩
  | array h => exact ⟨_, _, rfl, by decide, by decide⟩
  | emptyObject h => exact ⟨_, _, rfl, by decide, by decide⟩
  | object h => exact ⟨_, _, rfl, by decide, by decide⟩

/-! ## §5 Reading -/

theorem scanPieces?_append {ps : List Piece} {cs : List Char} (h : SpellsPieces ps cs) :
    scanPieces? (cs ++ '"' :: rest) = some (ps, rest) := by
  induction h with
  | nil => rfl
  | @cons p ps cs ds hp _ ih =>
    rw [List.append_assoc]
    cases hp with
    | plain hquote hescape hcontrol =>
      simp [scanPieces?, hescape, hcontrol, ih]
    | @escaped e c he =>
      have hunit : e ≠ 'u' := by
        rintro rfl
        cases he
      simp [scanPieces?, hunit, he, ih]
    | unit hcode => simp [scanPieces?, hcode, ih]

theorem SpellsString.exists_cons {s : Option String} {cs : List Char} (h : SpellsString s cs) :
    ∃ ds, cs = '"' :: ds := by
  obtain ⟨_⟩ := h
  exact ⟨_, rfl⟩

theorem scanString?_append {s : Option String} {cs : List Char} (h : SpellsString s ('"' :: cs)) :
    scanString? (cs ++ rest) = some (s, rest) := by
  obtain ⟨hpieces⟩ := h
  unfold scanString?
  rw [List.append_assoc, List.singleton_append, scanPieces?_append hpieces]
  rfl

/-- The equations of the reader, one for each way in which a value can begin. -/
theorem scanValue?_quote {ws : List Char} (hws : Blank ws) (fuel : Nat) :
    scanValue? (fuel + 1) (ws ++ '"' :: rest)
      = (scanString? rest).map fun (s, after) => (.string s, after) := by
  simp [scanValue?, skipBlanks_append_cons hws (show isBlank '"' = false by decide)]

theorem scanValue?_bracket_end {ws after : List Char} (hws : Blank ws) (fuel : Nat)
    (h : skipBlanks rest = ']' :: after) :
    scanValue? (fuel + 1) (ws ++ '[' :: rest) = some (.array [], after) := by
  simp [scanValue?, skipBlanks_append_cons hws (show isBlank '[' = false by decide), h]

theorem scanValue?_bracket {ws cs : List Char} {c : Char} (hws : Blank ws) (fuel : Nat)
    (h : skipBlanks rest = c :: cs) (hc : c ≠ ']') :
    scanValue? (fuel + 1) (ws ++ '[' :: rest)
      = (scanItems? fuel rest).map fun (items, after) => (.array items, after) := by
  simp [scanValue?, skipBlanks_append_cons hws (show isBlank '[' = false by decide), h, hc]

theorem scanValue?_brace_end {ws after : List Char} (hws : Blank ws) (fuel : Nat)
    (h : skipBlanks rest = '\x7d' :: after) :
    scanValue? (fuel + 1) (ws ++ '\x7b' :: rest) = some (.object [], after) := by
  simp [scanValue?, skipBlanks_append_cons hws (show isBlank '\x7b' = false by decide), h]

theorem scanValue?_brace {ws cs : List Char} {c : Char} (hws : Blank ws) (fuel : Nat)
    (h : skipBlanks rest = c :: cs) (hc : c ≠ '\x7d') :
    scanValue? (fuel + 1) (ws ++ '\x7b' :: rest)
      = (scanMembers? fuel rest).map fun (members, after) => (.object members, after) := by
  simp [scanValue?, skipBlanks_append_cons hws (show isBlank '\x7b' = false by decide), h, hc]

theorem scanValue?_numeral {n : Numeral} {cs ws : List Char} (h : n.Spells cs) (hws : Blank ws)
    (hrest : Numeral.Ends rest) (fuel : Nat) :
    scanValue? (fuel + 1) (ws ++ (cs ++ rest)) = some (.number n, rest) := by
  have hscan := Numeral.scan?_append h hrest
  obtain ⟨c, ds, rfl, hc⟩ := h.exists_cons
  rw [List.cons_append] at hscan ⊢
  unfold scanValue?
  rw [skipBlanks_append_cons hws (isBlank_of_numeral hc)]
  split
  · rename_i heq
    exact absurd (List.cons.inj heq).1 (ne_of_numeral hc (by decide))
  · rename_i heq
    exact absurd (List.cons.inj heq).1 (ne_of_numeral hc (by decide))
  · rename_i heq
    exact absurd (List.cons.inj heq).1 (ne_of_numeral hc (by decide))
  · rename_i heq
    exact absurd (List.cons.inj heq).1 (ne_of_numeral hc (by decide))
  · rename_i heq
    exact absurd (List.cons.inj heq).1 (ne_of_numeral hc (by decide))
  · rename_i heq
    exact absurd (List.cons.inj heq).1 (ne_of_numeral hc (by decide))
  · rw [hscan]
    rfl

/-- A numeral does not go on with a blank. -/
theorem not_numeral_of_isBlank {c : Char} (h : isBlank c = true) :
    c.isDigit = false ∧ c ≠ '.' ∧ c ≠ 'e' ∧ c ≠ 'E' := by
  simp only [isBlank, Bool.or_eq_true, decide_eq_true_eq] at h
  rcases h with ((rfl | rfl) | rfl) | rfl <;> decide

theorem ends_of_blank {ws : List Char} {c : Char} (hws : Blank ws)
    (hc : c.isDigit = false ∧ c ≠ '.' ∧ c ≠ 'e' ∧ c ≠ 'E') : Numeral.Ends (ws ++ c :: rest) := by
  cases ws with
  | nil =>
    intro d hd
    cases hd
    exact hc
  | cons w ws =>
    intro d hd
    cases hd
    exact not_numeral_of_isBlank (hws w List.mem_cons_self)

/-- Items do not begin with a closing bracket. -/
theorem SpellsItems.exists_cons {items : List Json} {cs : List Char} (h : SpellsItems items cs)
    (rest : List Char) : ∃ c ds, skipBlanks (cs ++ rest) = c :: ds ∧ c ≠ ']' := by
  cases h with
  | last hws h _ =>
    obtain ⟨c, ds, rfl, hblank, hc⟩ := h.exists_cons
    rw [List.append_assoc, List.cons_append, List.cons_append, skipBlanks_append_cons hws hblank]
    exact ⟨c, _, rfl, hc⟩
  | cons hws h _ _ =>
    obtain ⟨c, ds, rfl, hblank, hc⟩ := h.exists_cons
    rw [List.append_assoc, List.cons_append, List.cons_append, skipBlanks_append_cons hws hblank]
    exact ⟨c, _, rfl, hc⟩

/-- Members begin with a quote. -/
theorem SpellsMembers.exists_cons {members : List (Option String × Json)} {cs : List Char}
    (h : SpellsMembers members cs) (rest : List Char) :
    ∃ ds, skipBlanks (cs ++ rest) = '"' :: ds := by
  cases h with
  | last hws hname _ _ _ _ =>
    obtain ⟨ds, rfl⟩ := hname.exists_cons
    rw [List.append_assoc, List.cons_append, List.cons_append,
      skipBlanks_append_cons hws (by decide)]
    exact ⟨_, rfl⟩
  | cons hws hname _ _ _ _ _ =>
    obtain ⟨ds, rfl⟩ := hname.exists_cons
    rw [List.append_assoc, List.cons_append, List.cons_append,
      skipBlanks_append_cons hws (by decide)]
    exact ⟨_, rfl⟩

/-- With enough fuel, every spelling is read as what it spells. -/
theorem scan_of_spells (fuel : Nat) :
    (∀ {j : Json} {cs ws rest : List Char}, Spells j cs → Blank ws → Numeral.Ends rest →
      2 * cs.length ≤ fuel → scanValue? fuel (ws ++ (cs ++ rest)) = some (j, rest)) ∧
    (∀ {items : List Json} {cs rest : List Char}, SpellsItems items cs →
      2 * cs.length + 1 ≤ fuel → scanItems? fuel (cs ++ rest) = some (items, rest)) ∧
    (∀ {members : List (Option String × Json)} {cs rest : List Char}, SpellsMembers members cs →
      2 * cs.length + 1 ≤ fuel → scanMembers? fuel (cs ++ rest) = some (members, rest)) := by
  induction fuel with
  | zero =>
    refine ⟨fun {j cs ws rest} h _ _ hfuel => ?_, fun _ hfuel => by omega, fun _ hfuel => by omega⟩
    obtain ⟨c, ds, rfl, -⟩ := h.exists_cons
    simp at hfuel
  | succ fuel ih =>
    obtain ⟨ihvalue, ihitems, ihmembers⟩ := ih
    refine ⟨fun {j cs ws rest} h hws hrest hfuel => ?_, fun {items cs rest} h hfuel => ?_,
      fun {members cs rest} h hfuel => ?_⟩
    · cases h with
      | number h => exact scanValue?_numeral h hws hrest fuel
      | null =>
        unfold scanValue?
        rw [List.cons_append, skipBlanks_append_cons hws (by decide)]
        rfl
      | boolTrue =>
        unfold scanValue?
        rw [List.cons_append, skipBlanks_append_cons hws (by decide)]
        rfl
      | boolFalse =>
        unfold scanValue?
        rw [List.cons_append, skipBlanks_append_cons hws (by decide)]
        rfl
      | string h =>
        obtain ⟨cs, rfl⟩ := h.exists_cons
        rw [List.cons_append, scanValue?_quote hws, scanString?_append h]
        rfl
      | emptyArray h =>
        rw [List.cons_append, List.append_assoc, List.singleton_append]
        exact scanValue?_bracket_end hws fuel (skipBlanks_append_cons h (by decide))
      | @array items ds h =>
        obtain ⟨c, cs, hfirst, hc⟩ := h.exists_cons rest
        rw [List.length_cons] at hfuel
        rw [List.cons_append, scanValue?_bracket hws fuel hfirst hc, ihitems h (by omega)]
        rfl
      | emptyObject h =>
        rw [List.cons_append, List.append_assoc, List.singleton_append]
        exact scanValue?_brace_end hws fuel (skipBlanks_append_cons h (by decide))
      | @object members ds h =>
        obtain ⟨cs, hfirst⟩ := h.exists_cons rest
        rw [List.length_cons] at hfuel
        rw [List.cons_append, scanValue?_brace hws fuel hfirst (by decide), ihmembers h (by omega)]
        rfl
    · cases h with
      | @last item cs ws ws' hws h hws' =>
        simp only [List.length_append, List.length_singleton] at hfuel
        have hends : Numeral.Ends (ws' ++ ']' :: rest) := ends_of_blank hws' (by decide)
        simp only [List.append_assoc, List.singleton_append]
        simp only [scanItems?, ihvalue h hws hends (by omega), Option.bind_eq_bind,
          Option.bind_some, skipBlanks_append_cons hws' (show isBlank ']' = false by decide)]
        rfl
      | @cons item items cs ds ws ws' hws h hws' hitems =>
        simp only [List.length_append, List.length_cons] at hfuel
        have hends : Numeral.Ends (ws' ++ ',' :: (ds ++ rest)) := ends_of_blank hws' (by decide)
        simp only [List.append_assoc, List.cons_append]
        simp only [scanItems?, ihvalue h hws hends (by omega), Option.bind_eq_bind,
          Option.bind_some, skipBlanks_append_cons hws' (show isBlank ',' = false by decide),
          ihitems hitems (by omega)]
        rfl
    · have hquote : isBlank '"' = false := by decide
      have hcolon : isBlank ':' = false := by decide
      cases h with
      | @last name value ns cs ws₁ ws₂ ws₃ ws₄ h₁ hname h₂ h₃ h h₄ =>
        obtain ⟨ns, rfl⟩ := hname.exists_cons
        simp only [List.length_append, List.length_cons, List.length_nil] at hfuel
        have hends : Numeral.Ends (ws₄ ++ '\x7d' :: rest) := ends_of_blank h₄ (by decide)
        simp only [List.append_assoc, List.cons_append, List.nil_append]
        simp only [scanMembers?, skipBlanks_append_cons h₁ hquote, scanString?_append hname,
          skipBlanks_append_cons h₂ hcolon, ihvalue h h₃ hends (by omega), Option.bind_eq_bind,
          Option.bind_some, skipBlanks_append_cons h₄ (show isBlank '\x7d' = false by decide)]
        rfl
      | @cons name value members ns cs ds ws₁ ws₂ ws₃ ws₄ h₁ hname h₂ h₃ h h₄ hmembers =>
        obtain ⟨ns, rfl⟩ := hname.exists_cons
        simp only [List.length_append, List.length_cons] at hfuel
        have hends : Numeral.Ends (ws₄ ++ ',' :: (ds ++ rest)) := ends_of_blank h₄ (by decide)
        simp only [List.append_assoc, List.cons_append]
        simp only [scanMembers?, skipBlanks_append_cons h₁ hquote, scanString?_append hname,
          skipBlanks_append_cons h₂ hcolon, ihvalue h h₃ hends (by omega), Option.bind_eq_bind,
          Option.bind_some, skipBlanks_append_cons h₄ (show isBlank ',' = false by decide),
          ihmembers hmembers (by omega)]
        rfl

/-- **Every text that spells a value is read as the value.** -/
theorem read?_of_spells {j : Json} {text : List Char} (h : SpellsText j text) :
    read? (String.ofList text) = some j := by
  obtain ⟨ws, cs, ws', hws, hj, hws', rfl⟩ := h
  have hends : Numeral.Ends ws' := by
    intro c hc
    exact not_numeral_of_isBlank (hws' c (List.mem_of_mem_head? hc))
  have hskip : skipBlanks ws' = [] := by
    have hend : skipBlanks (ws' ++ []) = skipBlanks [] := skipBlanks_append hws'
    rwa [List.append_nil] at hend
  have hscan := (scan_of_spells (2 * (ws ++ (cs ++ ws')).length + 2)).1 hj hws hends (by
    simp only [List.length_append]
    omega)
  unfold read? readChars?
  rw [String.toList_ofList, hscan]
  simp [hskip]

end SettingProfiles.Json

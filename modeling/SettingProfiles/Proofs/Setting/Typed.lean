/-
SettingProfiles.Proofs.Setting.Typed — a value that is displayed can be typed again.

What is typed is tried as a value of one kind after the other. Displaying a value gives
a text of its own kind, and then no kind that is tried before takes it: the words for
truth values are no numbers, no numeral begins with a bracket, and a whole number is not
the words. In a set the items stand between commas; they are the same again because no
item holds a comma, is empty or begins or ends with a blank, which is so of all that was
typed. Blanks around the whole text do not count. Floats are left out: two of them may
be displayed alike.

  §1 Trimming — `Solid`: texts that trimming does not change.
  §2 Pieces   — none of them holds the separator.
  §3 Numbers  — `integerOfText?_integerText`; what is no number.
  §4 Kinds    — what is read for a text of each kind.
  §5 Items    — `IsItem`: the texts that sets are typed of.
  §6 Typing   — `typed_text_reads_back`.
-/
import SettingProfiles.Proofs.Decimal.Digits
import SettingProfiles.Proofs.Json.Maps
import SettingProfiles.Setting.Typed

namespace SettingProfiles

namespace Text

variable {before after cs : List Char}

/-! ## §1 Trimming -/

/-- The text is blank. -/
def Blank (cs : List Char) : Prop := ∀ c ∈ cs, isBlank c = true

/-- The text begins and ends with a character that is not blank. -/
structure Solid (cs : List Char) : Prop where
  first : ∃ c rest, cs = c :: rest ∧ isBlank c = false
  last : ∃ rest c, cs = rest ++ [c] ∧ isBlank c = false

theorem Solid.ne_nil (h : Solid cs) : cs ≠ [] := by
  obtain ⟨c, rest, rfl, -⟩ := h.first
  exact List.cons_ne_nil c rest

/-- A text in which nothing is blank. -/
theorem solid_of_forall (hne : cs ≠ []) (h : ∀ c ∈ cs, isBlank c = false) : Solid cs where
  first := by
    obtain ⟨c, rest, rfl⟩ := List.exists_cons_of_ne_nil hne
    exact ⟨c, rest, rfl, h c List.mem_cons_self⟩
  last := ⟨_, _, (List.dropLast_concat_getLast hne).symm, h _ (List.getLast_mem hne)⟩

/-- The blanks around a text are trimmed off, and nothing of the text. -/
theorem trim_surrounded (hbefore : Blank before) (hafter : Blank after) (h : Solid cs) :
    trim (before ++ cs ++ after) = cs := by
  have hfront : (before ++ cs ++ after).dropWhile isBlank = cs ++ after := by
    obtain ⟨c, rest, rfl, hc⟩ := h.first
    rw [List.append_assoc, List.dropWhile_append_of_pos hbefore, List.cons_append,
      List.dropWhile_cons_of_neg (Bool.not_eq_true _ ▸ hc)]
  have hback : (cs ++ after).reverse.dropWhile isBlank = cs.reverse := by
    obtain ⟨rest, c, rfl, hc⟩ := h.last
    rw [List.reverse_append,
      List.dropWhile_append_of_pos fun c hc => hafter c (List.mem_reverse.mp hc),
      List.reverse_concat, List.dropWhile_cons_of_neg (Bool.not_eq_true _ ▸ hc)]
  rw [trim, hfront, hback, List.reverse_reverse]

theorem trim_eq_self (h : Solid cs) : trim cs = cs := by
  have hnone : Blank [] := by simp [Blank]
  simpa using trim_surrounded hnone hnone h

theorem isBlank_of_head_dropWhile {c : Char} {rest : List Char}
    (h : cs.dropWhile isBlank = c :: rest) : isBlank c = false := by
  have hhead := List.head?_dropWhile_not isBlank cs
  rwa [h] at hhead

/-- What trimming leaves is solid, unless it is nothing. -/
theorem solid_trim (h : trim cs ≠ []) : Solid (trim cs) := by
  unfold trim at h ⊢
  obtain ⟨c, rest, hc⟩ := List.exists_cons_of_ne_nil (mt List.reverse_eq_nil_iff.mpr h)
  refine ⟨?_, rest.reverse, c, by rw [hc, List.reverse_cons], isBlank_of_head_dropWhile hc⟩
  -- what is left of a text without blanks in front begins as that text does
  obtain ⟨taken, htaken⟩ := List.dropWhile_suffix (l := (cs.dropWhile isBlank).reverse) isBlank
  obtain ⟨d, more, hd⟩ := List.exists_cons_of_ne_nil h
  have hfront : cs.dropWhile isBlank = d :: (more ++ taken.reverse) := by
    rw [← List.reverse_reverse (cs.dropWhile isBlank), ← htaken, List.reverse_append, hd,
      List.cons_append]
  exact ⟨d, more, hd, isBlank_of_head_dropWhile hfront⟩

theorem isBlank_of_isDigit {c : Char} (h : c.isDigit = true) : isBlank c = false := by
  have hrange : 48 ≤ c.toNat ∧ c.toNat ≤ 57 := Char.isDigit_iff_toNat.mp h
  simp [isBlank, inRanges, blankRanges]
  omega

theorem mem_of_mem_trim {c : Char} (h : c ∈ trim cs) : c ∈ cs := by
  have hback := (List.dropWhile_sublist isBlank).mem (List.mem_reverse.mp h)
  exact (List.dropWhile_sublist isBlank).mem (List.mem_reverse.mp hback)

/-! ## §2 Pieces -/

/-- No piece holds the separator. -/
theorem not_mem_of_mem_pieces {separator : Char} {piece : List Char}
    (h : piece ∈ pieces separator cs) : separator ∉ piece := by
  induction cs generalizing piece with
  | nil =>
    rw [List.mem_singleton.mp h]
    exact List.not_mem_nil
  | cons c rest ih =>
    obtain ⟨first, more, hpieces⟩ :=
      List.exists_cons_of_ne_nil (List.splitOn_ne_nil separator rest)
    rw [pieces, List.splitOn_cons_eq_if_modifyHead] at h
    by_cases hc : c = separator
    · rw [if_pos (beq_iff_eq.mpr hc)] at h
      obtain rfl | h := List.mem_cons.mp h
      · exact List.not_mem_nil
      · exact ih h
    · rw [if_neg (mt beq_iff_eq.mp hc), hpieces, List.modifyHead_cons] at h
      have hrest : ∀ p ∈ first :: more, separator ∉ p := by
        rw [← hpieces]
        exact fun p hp => ih hp
      obtain rfl | h := List.mem_cons.mp h
      · simpa [Ne.symm hc] using hrest first List.mem_cons_self
      · exact hrest piece (List.mem_cons_of_mem first h)

end Text

open Text (Blank Solid)

/-! ## §3 Numbers -/

theorem isDigit_of_mem_toDigits {n : Nat} {c : Char} (h : c ∈ Nat.toDigits 10 n) :
    c.isDigit = true := Nat.isDigit_of_mem_toDigits (by decide) (Nat.le_refl 10) h

/-- The digits of a number, written and read. -/
theorem ofChars?_toDigits (n : Nat) :
    Digits.ofChars? (Nat.toDigits 10 n) = some (Digits.ofNat n) :=
  if_pos (List.all_eq_true.mpr fun _ => isDigit_of_mem_toDigits)

/-- Without a sign in front there is none to take off. -/
theorem splitSign_cons {c : Char} (hminus : c ≠ '-') (hplus : c ≠ '+') (rest : List Char) :
    Numeral.splitSign (c :: rest) = (false, c :: rest) := by
  unfold Numeral.splitSign
  split
  · rename_i h
    exact absurd (List.cons.inj h).1 hminus
  · rename_i h
    exact absurd (List.cons.inj h).1 hplus
  · rfl

/-- A sign is taken off, and digits begin with none. -/
theorem splitSign_toDigits (negative : Bool) (n : Nat) :
    Numeral.splitSign ((if negative then ['-'] else []) ++ Nat.toDigits 10 n)
      = (negative, Nat.toDigits 10 n) := by
  cases negative with
  | true => rfl
  | false =>
    obtain ⟨c, rest, hdigits⟩ := List.exists_cons_of_ne_nil (Nat.toDigits_ne_nil (b := 10) (n := n))
    have hc : c.isDigit = true := isDigit_of_mem_toDigits (hdigits ▸ List.mem_cons_self)
    rw [if_neg Bool.false_ne_true, List.nil_append, hdigits]
    exact splitSign_cons (by rintro rfl; cases hc) (by rintro rfl; cases hc) rest

theorem toList_integerText (i : Int) : (Setting.integerText i).toList
    = (if decide (i < 0) then ['-'] else []) ++ Nat.toDigits 10 i.natAbs := by
  simp [Setting.integerText]

/-- The text of a whole number is read as that number. -/
theorem integerOfText?_integerText (i : Int) :
    integerOfText? (Setting.integerText i).toList = some i := by
  unfold integerOfText?
  rw [toList_integerText, splitSign_toDigits]
  dsimp only
  split
  · rename_i hnil
    exact absurd hnil Nat.toDigits_ne_nil
  · rw [ofChars?_toDigits, Option.map_some, Digits.value_ofNat]
    by_cases hi : i < 0
    · rw [decide_eq_true hi, if_pos rfl, Int.ofNat_natAbs_of_nonpos (Int.le_of_lt hi), Int.neg_neg]
    · rw [decide_eq_false hi, if_neg Bool.false_ne_true, Int.natAbs_of_nonneg (Int.not_lt.mp hi)]

/-- What begins with a bracket is no whole number. -/
theorem integerOfText?_bracket (rest : List Char) : integerOfText? ('[' :: rest) = none := by
  unfold integerOfText?
  rw [splitSign_cons (by decide) (by decide)]
  rfl

/-- What begins with a bracket is no number of any form. -/
theorem ofText?_bracket (rest : List Char) : Numeral.ofText? ('[' :: rest) = none := by
  unfold Numeral.ofText?
  rw [splitSign_cons (by decide) (by decide)]
  rfl

namespace Setting

variable {raw : String}

/-! ## §4 Kinds -/

theorem ofTyped_of_bool {b : Bool} (h : Text.trim raw.toList = (boolText b).toList) :
    ofTyped raw = .bool b := by
  unfold ofTyped
  rw [h]
  cases b <;> rfl

/-- The words for truth values are no whole numbers. -/
theorem ofTyped_of_integer {i : Int64} (h : integerOfTyped? (Text.trim raw.toList) = some i) :
    ofTyped raw = .integer i := by
  have htrue : Text.trim raw.toList ≠ "true".toList := by
    intro hword
    rw [hword] at h
    cases h
  have hfalse : Text.trim raw.toList ≠ "false".toList := by
    intro hword
    rw [hword] at h
    cases h
  unfold ofTyped
  dsimp only
  rw [if_neg htrue, if_neg hfalse, h]

/-- What begins with a bracket is tried as a set. -/
theorem ofTyped_of_bracket {rest : List Char} {items : TextSet}
    (htrim : Text.trim raw.toList = '[' :: rest) (h : setOfTyped? ('[' :: rest) = some items) :
    ofTyped raw = .textSet items := by
  have hinteger : integerOfTyped? ('[' :: rest) = none := by
    rw [integerOfTyped?, integerOfText?_bracket, Option.bind_none]
  have hfloat : floatOfTyped? ('[' :: rest) = none := by
    rw [floatOfTyped?, ofText?_bracket]
    rfl
  unfold ofTyped
  dsimp only
  rw [htrim, if_neg (by simp), if_neg (by simp), hinteger, hfloat, h]

/-- What a text can be read as: a set only if it is one in brackets, and a text only as it
was typed. -/
inductive TypedFor (raw : String) : Setting → Prop
  | bool (b : Bool) : TypedFor raw (.bool b)
  | integer (i : Int64) : TypedFor raw (.integer i)
  | float (x : Binary64) : TypedFor raw (.float x)
  | textSet {items : TextSet} (h : setOfTyped? (Text.trim raw.toList) = some items) :
      TypedFor raw (.textSet items)
  | text : TypedFor raw (.text raw)

theorem typedFor_ofTyped (raw : String) : TypedFor raw (ofTyped raw) := by
  unfold ofTyped
  dsimp only
  split
  · exact .bool true
  · split
    · exact .bool false
    · cases integerOfTyped? (Text.trim raw.toList) with
      | some i => exact .integer i
      | none =>
        cases floatOfTyped? (Text.trim raw.toList) with
        | some x => exact .float x
        | none =>
          cases hset : setOfTyped? (Text.trim raw.toList) with
          | some items => exact .textSet hset
          | none => exact .text

/-! ## §5 Items -/

/-- A text that a set can be typed of: it is solid and holds no comma. -/
structure IsItem (item : String) : Prop where
  solid : Solid item.toList
  comma : ',' ∉ item.toList

theorem bracketed?_brackets (inner : List Char) :
    bracketed? ('[' :: (inner ++ [']'])) = some inner := by
  simp [bracketed?]

/-- The items of a set that was typed. -/
theorem isItem_of_setOfTyped? {cs : List Char} {items : TextSet} (h : setOfTyped? cs = some items)
    {item : String} (hitem : item ∈ items.items) : IsItem item := by
  obtain ⟨inner, -, rfl⟩ := Option.map_eq_some_iff.mp h
  have hmem := SortedMap.contains_ofList.mp (SortedMap.mem_keys.mp hitem)
  simp only [List.map_map, Function.comp_def, List.mem_map, List.mem_filter,
    decide_eq_true_eq] at hmem
  obtain ⟨_, ⟨⟨piece, hpiece, rfl⟩, hne⟩, rfl⟩ := hmem
  rw [ne_eq] at hne
  refine ⟨by simpa using Text.solid_trim hne, fun hcomma => ?_⟩
  rw [String.toList_ofList] at hcomma
  exact Text.not_mem_of_mem_pieces hpiece (Text.mem_of_mem_trim hcomma)

/-- Such items are the pieces that a list of them is cut into. -/
theorem filter_pieces_intercalate {items : List (List Char)}
    (h : ∀ item ∈ items, Solid item ∧ ',' ∉ item) :
    ((Text.pieces ',' ([','].intercalate items)).map Text.trim).filter (· ≠ []) = items := by
  cases items with
  | nil => rfl
  | cons first rest =>
    rw [Text.pieces,
      List.splitOn_intercalate _ (fun item hitem => (h item hitem).2) (List.cons_ne_nil first rest),
      List.map_congr_left fun item hitem => Text.trim_eq_self (h item hitem).1, List.map_id',
      List.filter_eq_self]
    exact fun item hitem => decide_eq_true (h item hitem).1.ne_nil

/-- A set of such items is read from its own text. -/
theorem setOfTyped?_brackets {items : TextSet} (h : ∀ item ∈ items.items, IsItem item) :
    setOfTyped? ('[' :: ([','].intercalate (items.items.map String.toList) ++ [']']))
      = some items := by
  have hitems : ∀ item ∈ items.items.map String.toList, Solid item ∧ ',' ∉ item := by
    intro _ hchars
    obtain ⟨item, hitem, rfl⟩ := List.mem_map.mp hchars
    exact ⟨(h item hitem).solid, (h item hitem).comma⟩
  rw [setOfTyped?, bracketed?_brackets, Option.map_some, filter_pieces_intercalate hitems,
    List.map_map]
  simp [Function.comp_def]

/-! ## §6 Typing -/

theorem solid_boolText (b : Bool) : Solid (boolText b).toList := by
  cases b with
  | true => exact ⟨⟨'t', ['r', 'u', 'e'], rfl, rfl⟩, ⟨['t', 'r', 'u'], 'e', rfl, rfl⟩⟩
  | false => exact ⟨⟨'f', ['a', 'l', 's', 'e'], rfl, rfl⟩, ⟨['f', 'a', 'l', 's'], 'e', rfl, rfl⟩⟩

theorem solid_integerText (i : Int) : Solid (integerText i).toList := by
  rw [toList_integerText]
  refine Text.solid_of_forall (by simp) fun c hc => ?_
  obtain hsign | hdigit := List.mem_append.mp hc
  · split at hsign
    · rw [List.mem_singleton.mp hsign]
      decide
    · cases hsign
  · exact Text.isBlank_of_isDigit (isDigit_of_mem_toDigits hdigit)

theorem solid_brackets (inner : List Char) : Solid ('[' :: (inner ++ [']'])) where
  first := ⟨'[', _, rfl, by decide⟩
  last := ⟨'[' :: inner, ']', rfl, by decide⟩

theorem toList_display_textSet (items : TextSet) : (display (.textSet items)).toList
    = '[' :: ([','].intercalate (items.items.map String.toList) ++ [']']) := by
  simp [display, String.toList_intercalate]

section Surrounded

variable {before after : String} (hbefore : Blank before.toList) (hafter : Blank after.toList)
include hbefore hafter

/-- What is trimmed of a text between blanks is the text. -/
theorem trim_toList {middle : String} (h : Solid middle.toList) :
    Text.trim (before ++ middle ++ after).toList = middle.toList := by
  rw [String.toList_append, String.toList_append]
  exact Text.trim_surrounded hbefore hafter h

theorem ofTyped_boolText (b : Bool) :
    ofTyped (before ++ display (.bool b) ++ after) = .bool b :=
  ofTyped_of_bool (trim_toList hbefore hafter (solid_boolText b))

theorem ofTyped_integerText (i : Int64) :
    ofTyped (before ++ display (.integer i) ++ after) = .integer i := by
  have htrim : Text.trim (before ++ display (.integer i) ++ after).toList
      = (integerText i.toInt).toList := trim_toList hbefore hafter (solid_integerText i.toInt)
  refine ofTyped_of_integer ?_
  rw [htrim, integerOfTyped?, integerOfText?_integerText, Option.bind_some, int64OfInt?_toInt]

theorem ofTyped_textSet {items : TextSet} (h : ∀ item ∈ items.items, IsItem item) :
    ofTyped (before ++ display (.textSet items) ++ after) = .textSet items := by
  have hchars := toList_display_textSet items
  refine ofTyped_of_bracket ?_ (setOfTyped?_brackets h)
  rw [← hchars]
  exact trim_toList hbefore hafter (hchars ▸ solid_brackets _)

end Surrounded

/-- **A value that is displayed can be typed again.** A truth value, a whole number of 64 bits
and a set are read from the text that displays them, also with blanks around it, where the
items of the set are solid and hold no comma. All sets that are typed have such items, and
what is read as a text is as it was typed. So, whatever is typed, if it is not read as a
float, then the text that displays what was read is read as the same. -/
theorem typed_text_reads_back :
    (∀ raw, (∀ x, ofTyped raw ≠ .float x) → ofTyped (ofTyped raw).display = ofTyped raw) ∧
    (∀ raw items, ofTyped raw = .textSet items → ∀ item ∈ items.items, IsItem item) ∧
    (∀ raw s, ofTyped raw = .text s → s = raw) ∧
    ∀ before after : String, Blank before.toList → Blank after.toList →
      (∀ b, ofTyped (before ++ display (.bool b) ++ after) = .bool b) ∧
      (∀ i, ofTyped (before ++ display (.integer i) ++ after) = .integer i) ∧
      ∀ items : TextSet, (∀ item ∈ items.items, IsItem item) →
        ofTyped (before ++ display (.textSet items) ++ after) = .textSet items := by
  have hitems : ∀ raw items, ofTyped raw = .textSet items → ∀ item ∈ items.items, IsItem item := by
    intro raw items hread item hitem
    have hkind := typedFor_ofTyped raw
    rw [hread] at hkind
    cases hkind with
    | textSet h => exact isItem_of_setOfTyped? h hitem
  have htext : ∀ raw s, ofTyped raw = .text s → s = raw := by
    intro raw s hread
    have hkind := typedFor_ofTyped raw
    rw [hread] at hkind
    cases hkind with
    | text => rfl
  refine ⟨fun raw hfloat => ?_, hitems, htext, fun before after hbefore hafter =>
    ⟨ofTyped_boolText hbefore hafter, ofTyped_integerText hbefore hafter,
      fun items => ofTyped_textSet hbefore hafter⟩⟩
  have hnone : Blank "".toList := by simp [Blank]
  cases hread : ofTyped raw with
  | bool b => simpa using ofTyped_boolText hnone hnone b
  | integer i => simpa using ofTyped_integerText hnone hnone i
  | float x => exact absurd hread (hfloat x)
  | text s =>
    obtain rfl := htext raw s hread
    exact hread
  | textSet items => simpa using ofTyped_textSet hnone hnone (hitems raw items hread)

end Setting

end SettingProfiles

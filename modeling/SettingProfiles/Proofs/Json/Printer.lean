/-
SettingProfiles.Proofs.Json.Printer — what is written is read back.

Every text that the printer writes spells the value that it was given, in any
layout that puts nothing but blanks between the tokens. Since the reader reads
every spelling, it undoes the printer, on every value whatever.

  §1 Strings — the pieces of a written literal.
  §2 Values  — `spells_writeValue`.
  §3 Texts   — `read?_pretty`, `read?_compact`.
-/
import SettingProfiles.Json.Printer
import SettingProfiles.Proofs.Json.Grammar

namespace SettingProfiles.Json

/-! ## §1 Strings -/

/-- The piece that a written character is: controls without an escape of their own
are written by their number. -/
def pieceOf (c : Char) : Piece :=
  if c.toNat < 0x20 ∧ c ∉ ['\x08', '\x0c', '\n', '\r', '\t'] then .unit c.toNat else .plain c

theorem hexNumber?_control : ∀ n < 0x20,
    Text.hexNumber? ['0', '0', Nat.digitChar (n / 16), Nat.digitChar (n % 16)] = some n := by
  decide

theorem spellsPiece_escapeChar (c : Char) : SpellsPiece (pieceOf c) (escapeChar c) := by
  unfold pieceOf escapeChar
  by_cases hquote : c = '"'
  · subst hquote
    exact .escaped rfl
  by_cases hescape : c = '\\'
  · subst hescape
    exact .escaped rfl
  by_cases hb : c = '\x08'
  · subst hb
    exact .escaped rfl
  by_cases hf : c = '\x0c'
  · subst hf
    exact .escaped rfl
  by_cases hn : c = '\n'
  · subst hn
    exact .escaped rfl
  by_cases hr : c = '\r'
  · subst hr
    exact .escaped rfl
  by_cases ht : c = '\t'
  · subst ht
    exact .escaped rfl
  by_cases hcontrol : c.toNat < 0x20
  · rw [if_pos ⟨hcontrol, by simp [hb, hf, hn, hr, ht]⟩]
    simp only [hquote, hescape, hb, hf, hn, hr, ht, hcontrol, if_true, if_false]
    exact .unit (hexNumber?_control c.toNat hcontrol)
  · simp only [hquote, hescape, hb, hf, hn, hr, ht, hcontrol, if_false, false_and]
    exact .plain hquote hescape hcontrol

theorem spellsPieces_escape (cs : List Char) :
    SpellsPieces (cs.map pieceOf) (cs.flatMap escapeChar) := by
  induction cs with
  | nil => exact .nil
  | cons c cs ih => exact .cons (spellsPiece_escapeChar c) ih

/-- A code unit outside the surrogates stands for itself. -/
theorem textOfPieces?_unit {code : Nat} (h : code < 0xD800) (ps : List Piece) :
    textOfPieces? (.unit code :: ps) = (textOfPieces? ps).map (Char.ofNat code :: ·) := by
  have hhigh : isHighSurrogate code = false := by
    simp [isHighSurrogate]
    omega
  have hlow : isLowSurrogate code = false := by
    simp [isLowSurrogate]
    omega
  cases ps with
  | nil => simp [textOfPieces?, hhigh, hlow]
  | cons p ps => cases p <;> simp [textOfPieces?, hhigh, hlow]

theorem textOfPieces?_pieceOf (cs : List Char) : textOfPieces? (cs.map pieceOf) = some cs := by
  induction cs with
  | nil => rfl
  | cons c cs ih =>
    have hplain : textOfPieces? (.plain c :: cs.map pieceOf) = some (c :: cs) := by
      simp [textOfPieces?, ih]
    have hunit : c.toNat < 0x20 → textOfPieces? (.unit c.toNat :: cs.map pieceOf)
        = some (c :: cs) := fun hcontrol => by
      rw [textOfPieces?_unit (by omega), ih, Char.ofNat_toNat]
      rfl
    rw [List.map_cons, pieceOf]
    split
    · rename_i h
      exact hunit h.1
    · exact hplain

theorem spellsString_write (s : Option String) : SpellsString s (writeString s) := by
  cases s with
  | none =>
    have h : SpellsPiece (.unit 0xD800) ['\\', 'u', 'd', '8', '0', '0'] := .unit (by decide)
    exact SpellsString.mk (.cons h .nil)
  | some s =>
    have h := SpellsString.mk (spellsPieces_escape s.toList)
    rwa [textOfPieces?_pieceOf, Option.map_some, String.ofList_toList] at h

/-! ## §2 Values -/

/-- Nothing but blanks stands between the tokens. -/
structure Layout.IsBlank (l : Layout) : Prop where
  newline : ∀ depth, Blank (l.newline depth)
  colon : ∃ ws, l.colon = ':' :: ws ∧ Blank ws

theorem Layout.isBlank_compact : Layout.compact.IsBlank :=
  ⟨fun _ => blank_nil, [], rfl, blank_nil⟩

theorem Layout.isBlank_pretty : Layout.pretty.IsBlank := by
  refine ⟨fun depth c hc => ?_, [' '], rfl, by simp [Blank, isBlank]⟩
  rcases List.mem_cons.mp hc with rfl | hc
  · decide
  · rw [List.eq_of_mem_replicate hc]
    decide

mutual

/-- **Whatever is written spells the value.** -/
theorem spells_writeValue {l : Layout} (hl : l.IsBlank) (depth : Nat) :
    (j : Json) → Spells j (writeValue l depth j)
  | .null => .null
  | .bool true => .boolTrue
  | .bool false => .boolFalse
  | .number n => .number n.spells_write
  | .string s => .string (spellsString_write s)
  | .array [] => .emptyArray blank_nil
  | .array (item :: items) => by
    have h := Spells.array (spells_writeItems hl (depth + 1) (hl.newline (depth + 1))
      (spells_writeValue hl (depth + 1) item) (hl.newline depth) items)
    simpa [writeValue] using h
  | .object [] => .emptyObject blank_nil
  | .object ((name, value) :: members) => by
    have h := Spells.object (spells_writeMembers hl (depth + 1) (hl.newline (depth + 1)) name
      (spells_writeValue hl (depth + 1) value) (hl.newline depth) members)
    simpa [writeValue] using h

/-- An item with the items behind it. -/
theorem spells_writeItems {l : Layout} (hl : l.IsBlank) (depth : Nat) {item : Json}
    {cs ws ws' : List Char} (hws : Blank ws) (h : Spells item cs) (hws' : Blank ws') :
    (items : List Json) →
      SpellsItems (item :: items) (ws ++ (cs ++ (writeItems l depth items ++ (ws' ++ [']']))))
  | [] => by
    simpa [writeItems] using SpellsItems.last hws h hws'
  | next :: items => by
    have hnext := spells_writeItems hl depth (hl.newline depth) (spells_writeValue hl depth next)
      hws' items
    simpa [writeItems] using SpellsItems.cons hws h blank_nil hnext

/-- A member with the members behind it. -/
theorem spells_writeMembers {l : Layout} (hl : l.IsBlank) (depth : Nat) {value : Json}
    {cs ws ws' : List Char} (hws : Blank ws) (name : Option String) (h : Spells value cs)
    (hws' : Blank ws') : (members : List (Option String × Json)) →
      SpellsMembers ((name, value) :: members)
        (ws ++ (writeString name ++ (l.colon ++ (cs ++
          (writeMembers l depth members ++ (ws' ++ ['\x7d']))))))
  | [] => by
    obtain ⟨blanks, hcolon, hblanks⟩ := hl.colon
    have h := SpellsMembers.last hws (spellsString_write name) blank_nil hblanks h hws'
    simpa [writeMembers, hcolon] using h
  | (nextName, next) :: members => by
    obtain ⟨blanks, hcolon, hblanks⟩ := hl.colon
    have hnext := spells_writeMembers hl depth (hl.newline depth) nextName
      (spells_writeValue hl depth next) hws' members
    have h := SpellsMembers.cons hws (spellsString_write name) blank_nil hblanks h blank_nil hnext
    simpa [writeMembers, hcolon] using h

end

/-! ## §3 Texts -/

theorem spellsText_writeValue {l : Layout} (hl : l.IsBlank) (j : Json) :
    SpellsText j (writeValue l 0 j) :=
  ⟨[], _, [], blank_nil, spells_writeValue hl 0 j, blank_nil, by simp⟩

theorem spellsText_compact (j : Json) : SpellsText j j.compact.toList := by
  rw [compact, String.toList_ofList]
  exact spellsText_writeValue Layout.isBlank_compact j

theorem read?_writeValue {l : Layout} (hl : l.IsBlank) (j : Json) :
    read? (String.ofList (writeValue l 0 j)) = some j :=
  read?_of_spells (spellsText_writeValue hl j)

/-- **Every value is read back from its text.** -/
theorem read?_pretty (j : Json) : read? j.pretty = some j :=
  read?_writeValue Layout.isBlank_pretty j

theorem read?_compact (j : Json) : read? j.compact = some j :=
  read?_writeValue Layout.isBlank_compact j

end SettingProfiles.Json

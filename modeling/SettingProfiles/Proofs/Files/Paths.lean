/-
SettingProfiles.Proofs.Files.Paths — the names in a path with one more name behind it.

A path is a text, and joining looks only at its first and last characters. What comes
of that for the names in it: joining a name adds that name, at the end and nowhere
else, and leaves the place where the path begins as it is.

  §1 Names   — `Path.IsName`, and the pieces of a path.
  §2 Joining — `Path.names_join`.
-/
import SettingProfiles.Files.Path

namespace SettingProfiles

namespace Path

/-! ## §1 Names -/

/-- The name of a file or a directory, and nothing that leads elsewhere. -/
structure IsName (name : String) : Prop where
  ne_empty : name ≠ ""
  ne_dot : name ≠ "."
  ne_dots : name ≠ ".."
  noSlash : '/' ∉ name.toList

/-- With an ending of more than two characters behind it, any text without slashes is a
name. -/
theorem isName_append {text ending : String} (h : '/' ∉ text.toList)
    (hlength : 2 < ending.length) (hending : '/' ∉ ending.toList) : IsName (text ++ ending) := by
  have hlong : 2 < (text ++ ending).length := by
    rw [String.length_append]
    omega
  refine ⟨?_, ?_, ?_, by simp [h, hending]⟩
  all_goals
    intro heq
    rw [heq] at hlong
    exact absurd hlong (by decide)

theorem pieces_append_slash (path rest : String) :
    pieces (path ++ "/" ++ rest) = pieces path ++ pieces rest := by
  have hlist : (path ++ "/" ++ rest).toList = path.toList ++ '/' :: rest.toList := by simp
  rw [pieces, Text.pieces, hlist, List.splitOn_append_cons_self, List.map_append]
  rfl

theorem plainNames_append_slash (path rest : String) :
    plainNames (path ++ "/" ++ rest) = plainNames path ++ plainNames rest := by
  rw [plainNames, pieces_append_slash, List.filter_append, plainNames, plainNames]

theorem isAbsolute_iff (path : String) : isAbsolute path = true ↔ ['/'] <+: path.toList := by
  rw [isAbsolute, String.startsWith_string_iff]
  rfl

theorem isAbsolute_append {path : String} (h : path ≠ "") (rest : String) :
    isAbsolute (path ++ rest) = isAbsolute path := by
  rw [Bool.eq_iff_iff, isAbsolute_iff, isAbsolute_iff, String.toList_append]
  cases hpath : path.toList with
  | nil => exact absurd (String.toList_eq_nil_iff.mp hpath) h
  | cons c cs => simp

theorem endsWith_slash_iff (path : String) :
    path.endsWith "/" = true ↔ ['/'] <:+ path.toList := by
  rw [String.endsWith_eq_endsWith_toSlice, String.Slice.endsWith_string_iff, String.copy_toSlice]
  rfl

namespace IsName

variable {name : String}

theorem isAbsolute (h : IsName name) : Path.isAbsolute name = false := by
  refine Bool.eq_false_iff.mpr fun habs => h.noSlash ?_
  obtain ⟨rest, hrest⟩ := (isAbsolute_iff name).mp habs
  simp [← hrest]

theorem pieces (h : IsName name) : Path.pieces name = [name] := by
  rw [Path.pieces, Text.pieces, List.splitOn_eq_singleton h.noSlash, List.map_singleton,
    String.ofList_toList]

theorem plainNames (h : IsName name) : Path.plainNames name = [name] := by
  simp [Path.plainNames, h.pieces, h.ne_empty, h.ne_dot]

/-- With a name behind it, a path does not end in a slash. -/
theorem not_endsWith_slash (h : IsName name) (path : String) :
    (path ++ name).endsWith "/" = false := by
  refine Bool.eq_false_iff.mpr fun hends => h.noSlash ?_
  obtain ⟨front, hfront⟩ := (endsWith_slash_iff _).mp hends
  have hne : name.toList ≠ [] := fun hnil => h.ne_empty (String.toList_eq_nil_iff.mp hnil)
  have hlast : (path ++ name).toList.getLast? = name.toList.getLast? := by
    rw [String.toList_append, List.getLast?_append, List.getLast?_eq_some_getLast hne,
      Option.some_or]
  rw [← hfront, List.getLast?_concat] at hlast
  exact List.mem_of_getLast? hlast.symm

end IsName

/-! ## §2 Joining -/

variable {name : String}

/-- A name is joined to a path with a slash between them, unless one is there or the path
is empty. -/
theorem join_eq (h : IsName name) (base : String) :
    base = "" ∧ join base name = name ∨
      ∃ path, plainNames path = plainNames base ∧ base ≠ "" ∧
        join base name = path ++ "/" ++ name := by
  unfold join
  rw [h.isAbsolute, if_neg Bool.false_ne_true]
  by_cases hempty : base = ""
  · exact .inl ⟨hempty, by simp [hempty]⟩
  · refine .inr ?_
    by_cases hslash : base.endsWith "/" = true
    · obtain ⟨front, hfront⟩ := (endsWith_slash_iff base).mp hslash
      have hbase : base = String.ofList front ++ "/" ++ "" := by
        rw [← String.toList_inj, ← hfront]
        simp
      refine ⟨String.ofList front, ?_, hempty, ?_⟩
      · rw [hbase, plainNames_append_slash]
        exact (List.append_nil _).symm
      · rw [if_pos (by simp [hslash]), hbase, String.append_empty]
    · exact ⟨base, rfl, hempty, by simp [hempty, hslash]⟩

theorem plainNames_join (h : IsName name) (base : String) :
    plainNames (join base name) = plainNames base ++ [name] := by
  obtain ⟨rfl, hjoin⟩ | ⟨path, hpath, -, hjoin⟩ := join_eq h base
  · rw [hjoin, h.plainNames]
    rfl
  · rw [hjoin, plainNames_append_slash, hpath, h.plainNames]

/-- Joining a name adds this name at the end. -/
theorem names_join (h : IsName name) (base : String) :
    names (join base name) = plainNames base ++ [name] := by
  have hdot : endsInDot (join base name) = false := by
    have hlast : ((pieces (join base name)).filter (· ≠ "")).getLast? = some name := by
      obtain ⟨-, hjoin⟩ | ⟨path, -, -, hjoin⟩ := join_eq h base <;> rw [hjoin]
      · simp [h.pieces, h.ne_empty]
      · simp [pieces_append_slash, h.pieces, h.ne_empty]
    rw [endsInDot, hlast]
    simp [h.ne_dot]
  have hslash : (join base name).endsWith "/" = false := by
    obtain ⟨-, hjoin⟩ | ⟨path, -, -, hjoin⟩ := join_eq h base
    · simpa [hjoin] using h.not_endsWith_slash ""
    · rw [hjoin, h.not_endsWith_slash]
  rw [names, hdot, hslash, plainNames_join h]
  exact List.append_nil _

theorem join_ne_empty (h : IsName name) (base : String) : join base name ≠ "" := by
  intro hempty
  have hnames := plainNames_join h base
  rw [hempty] at hnames
  exact absurd hnames.symm (List.append_ne_nil_of_right_ne_nil _ (List.cons_ne_nil _ _))

/-- A name below a path leaves open where the path begins, as the path itself does. -/
theorem isAbsolute_join (h : IsName name) (base : String) :
    isAbsolute (join base name) = isAbsolute base := by
  by_cases hempty : base = ""
  · subst hempty
    obtain ⟨-, hjoin⟩ | ⟨-, -, hne, -⟩ := join_eq h ""
    · rw [hjoin, h.isAbsolute]
      rfl
    · exact absurd rfl hne
  · unfold join
    rw [h.isAbsolute, if_neg Bool.false_ne_true]
    split
    · exact isAbsolute_append hempty name
    · rw [String.append_assoc]
      exact isAbsolute_append hempty _

end Path

end SettingProfiles

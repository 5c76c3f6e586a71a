/-
SettingProfiles.Proofs.Files.Walking — the way to a directory, and its files.

What a path leads to is found in two parts: the way, on which every name must be that of
a directory, and the last name. A tree in which directories only become more has the ways
it had before, and what is put at one name of a directory is not seen at another.

  §1 Nodes      — the same name, and another name of the same directory.
  §2 Ways       — `walk` and `enter`; `find_join`, where a path with one more name leads.
  §3 Growing    — trees that keep the directories of another.
  §4 Replacing  — where a file can be put or moved.
-/
import SettingProfiles.Files.Tree
import SettingProfiles.Proofs.Files.Paths

namespace SettingProfiles

namespace FileTree

variable {t t' : FileTree} {directory names : List String} {name other base : String}

/-! ## §1 Nodes -/

theorem node?_child (t : FileTree) (directory : List String) (name : String) :
    t.node? (directory ++ [name]) = t.nodes.get? (fullPath (directory ++ [name])) :=
  if_neg (List.append_ne_nil_of_right_ne_nil _ (List.cons_ne_nil _ _))

/-- In one directory, different names are different places. -/
theorem fullPath_child_inj
    (h : fullPath (directory ++ [name]) = fullPath (directory ++ [other])) : name = other := by
  rw [fullPath, fullPath, String.append_right_inj] at h
  by_cases hd : directory = []
  · simpa [hd] using h
  · rwa [String.intercalate_append_of_ne_nil hd (List.cons_ne_nil _ _),
      String.intercalate_append_of_ne_nil hd (List.cons_ne_nil _ _), String.append_right_inj,
      String.intercalate_singleton, String.intercalate_singleton] at h

/-- What is put somewhere is there, and everywhere else is what was there. -/
theorem get?_put (t : FileTree) (names : List String) (node : FileNode) (path : String) :
    (t.put names node).nodes.get? path
      = if fullPath names = path then some node else t.nodes.get? path :=
  SortedMap.get?_insert ..

theorem get?_drop (t : FileTree) (names : List String) (path : String) :
    (t.drop names).nodes.get? path = if fullPath names = path then none else t.nodes.get? path :=
  SortedMap.get?_erase ..

@[simp] theorem home_drop (t : FileTree) (names : List String) : (t.drop names).home = t.home := rfl

theorem node?_put_self (t : FileTree) (directory : List String) (name : String) (node : FileNode) :
    (t.put (directory ++ [name]) node).node? (directory ++ [name]) = some node := by
  rw [node?_child, get?_put, if_pos rfl]

/-- A name beside the one that is written keeps what it has. -/
theorem node?_put_other (h : other ≠ name) (node : FileNode) :
    (t.put (directory ++ [name]) node).node? (directory ++ [other])
      = t.node? (directory ++ [other]) := by
  rw [node?_child, get?_put, if_neg (mt fullPath_child_inj h.symm), node?_child]

theorem node?_drop_self (t : FileTree) (directory : List String) (name : String) :
    (t.drop (directory ++ [name])).node? (directory ++ [name]) = none := by
  rw [node?_child, get?_drop, if_pos rfl]

theorem node?_drop_other (h : other ≠ name) :
    (t.drop (directory ++ [name])).node? (directory ++ [other])
      = t.node? (directory ++ [other]) := by
  rw [node?_child, get?_drop, if_neg (mt fullPath_child_inj h.symm), node?_child]

/-! ## §2 Ways -/

/-- Where one name on the way leads, which must be that of a directory. -/
def advance (t : FileTree) (directory : List String) (name : String) :
    Except FileError (List String) :=
  if name = "." then .ok directory
  else if name = ".." then .ok directory.dropLast
  else if longestName < name.utf8ByteSize then .error .nameTooLong
  else
    match t.node? (directory ++ [name]) with
    | some .directory => .ok (directory ++ [name])
    | some _ => .error .notDirectory
    | none => .error .notFound

/-- Where the names lead from a directory when each of them is that of a directory. -/
def walk (t : FileTree) (directory names : List String) : Except FileError (List String) :=
  names.foldlM t.advance directory

/-- The place of these names: a node or free. -/
def placeAt (t : FileTree) (names : List String) : Place :=
  match t.node? names with
  | some node => .node names node
  | none => .free names

/-- What is at a name of a directory. -/
def enter (t : FileTree) (directory : List String) (name : String) : Except FileError Place :=
  if longestName < name.utf8ByteSize then .error .nameTooLong
  else .ok (t.placeAt (directory ++ [name]))

/-- Where one name leads, whether anything is there or not. -/
def onward (directory : List String) (name : String) : List String :=
  if name = "." then directory
  else if name = ".." then directory.dropLast
  else directory ++ [name]

/-- A step onward leads to where its name says, if it leads anywhere. -/
theorem eq_onward_of_advance {d : List String} (h : t.advance directory name = .ok d) :
    d = onward directory name := by
  unfold advance at h
  unfold onward
  split at h
  · simp_all
  · split at h
    · simp_all
    · split at h
      · cases h
      · split at h <;> simp_all

theorem walk_nil (t : FileTree) (directory : List String) : t.walk directory [] = .ok directory :=
  rfl

theorem walk_cons (t : FileTree) (directory : List String) (name : String) (names : List String) :
    t.walk directory (name :: names)
      = (t.advance directory name).bind fun d => t.walk d names :=
  List.foldlM_cons

/-- A way that exists leads where its names say. -/
theorem eq_foldl_of_walk {d : List String} (h : t.walk directory names = .ok d) :
    d = names.foldl onward directory := by
  induction names generalizing directory with
  | nil =>
    cases h
    rfl
  | cons name names ih =>
    rw [walk_cons] at h
    cases hname : t.advance directory name with
    | error e => simp [hname, Except.bind] at h
    | ok next =>
      rw [hname] at h
      rw [List.foldl_cons, ← eq_onward_of_advance hname]
      exact ih h

/-- A name "." at the end of a way changes nothing. -/
theorem walk_append_dot (t : FileTree) (directory names : List String) :
    t.walk directory (names ++ ["."]) = t.walk directory names := by
  have hdot : ∀ d, t.walk d ["."] = .ok d := fun d => by
    simp [walk_cons, walk_nil, advance, Except.bind]
  induction names generalizing directory with
  | nil => exact hdot directory
  | cons name names ih =>
    rw [List.cons_append, walk_cons, walk_cons]
    congr 1
    funext d
    exact ih d

/-- As long as names follow, the way is walked. -/
theorem follow_cons (t : FileTree) (directory : List String) (name : String) (hne : names ≠ []) :
    t.follow directory (name :: names)
      = (t.advance directory name).bind fun d => t.follow d names := by
  have hempty : names.isEmpty = false := by simpa using hne
  simp only [follow, advance, hempty]
  by_cases hdot : name = "."
  · simp [hdot, Except.bind]
  · by_cases hdots : name = ".."
    · simp [hdots, Except.bind]
    · by_cases hlong : longestName < name.utf8ByteSize
      · simp [hdot, hdots, hlong, Except.bind]
      · simp only [hdot, hdots, hlong, if_false]
        split <;> simp_all [Except.bind]

theorem follow_singleton (h : Path.IsName name) (t : FileTree) (directory : List String) :
    t.follow directory [name] = t.enter directory name := by
  simp only [follow, enter, placeAt, if_neg h.ne_dot, if_neg h.ne_dots, List.isEmpty_nil, if_true]
  split
  · rfl
  · split <;> simp_all

/-- A way with one more name is walked to the end, and the name is looked up there. -/
theorem follow_append (h : Path.IsName name) (t : FileTree) (directory names : List String) :
    t.follow directory (names ++ [name])
      = (t.walk directory names).bind fun d => t.enter d name := by
  induction names generalizing directory with
  | nil => exact follow_singleton h t directory
  | cons first rest ih =>
    have hne : rest ++ [name] ≠ [] := List.append_ne_nil_of_right_ne_nil rest (List.cons_ne_nil _ _)
    rw [List.cons_append, walk_cons, follow_cons t directory first hne]
    cases t.advance directory first with
    | error e => rfl
    | ok d => exact ih d

/-- The way to the directory that a path names. -/
def way (t : FileTree) (base : String) : Except FileError (List String) :=
  t.walk (t.start base) (Path.plainNames base)

/-- No step refuses the path with this name behind it for what it looks like. -/
def Admits (base name : String) : Prop :=
  refusal? (Path.join base name) = none ∧ name.utf8ByteSize ≤ longestName

/-- A name behind a path does not change where the path begins. -/
theorem start_join (h : Path.IsName name) (t : FileTree) (base : String) :
    t.start (Path.join base name) = t.start base := by
  rw [start, start, Path.isAbsolute_join h]

/-- A path that is refused is not followed. -/
theorem find_of_refused {path : String} {e : FileError} (h : refusal? path = some e)
    (t : FileTree) : t.find path = .error e := by
  rw [find, h]

/-- Where a path with one more name leads. -/
theorem find_join (h : Path.IsName name) (hr : refusal? (Path.join base name) = none)
    (t : FileTree) :
    t.find (Path.join base name) = (t.way base).bind fun d => t.enter d name := by
  rw [find, hr]
  simp only [if_neg (Path.join_ne_empty h base), Path.names_join h, start_join h, follow_append h,
    way]

/-- What is found under a name below a path, if the way to it is there and the name is
admitted. -/
theorem find_join_eq_ok_iff (h : Path.IsName name) {place : Place} :
    t.find (Path.join base name) = .ok place ↔
      Admits base name ∧ ∃ d, t.way base = .ok d ∧ place = t.placeAt (d ++ [name]) := by
  cases hr : refusal? (Path.join base name) with
  | some e => simp [find_of_refused hr, Admits, hr]
  | none =>
    rw [find_join h hr]
    cases hway : t.way base with
    | error e => simp [Except.bind]
    | ok d =>
      by_cases hlong : longestName < name.utf8ByteSize
      · simp [Except.bind, enter, Admits, hr, hlong, Nat.not_le.mpr hlong]
      · simp [Except.bind, enter, Admits, hr, hlong, Nat.not_lt.mp hlong, eq_comm]

/-- Where the way is the same and the same thing is at its end, a path leads to the same. -/
theorem find_join_congr (h : Path.IsName name) (hway : t'.way base = t.way base)
    (hnode : ∀ d, t.way base = .ok d → t'.node? (d ++ [name]) = t.node? (d ++ [name])) :
    t'.find (Path.join base name) = t.find (Path.join base name) := by
  cases hr : refusal? (Path.join base name) with
  | some e => rw [find_of_refused hr, find_of_refused hr]
  | none =>
    rw [find_join h hr, find_join h hr, hway]
    cases hd : t.way base with
    | error e => rfl
    | ok d => simp only [Except.bind, enter, placeAt, hnode d hd]

/-! ## §3 Growing -/

/-- A tree that has the directories of another, with paths that begin in the same one. -/
structure Grows (t t' : FileTree) : Prop where
  home : t'.home = t.home
  directories : ∀ path, t.nodes.get? path = some .directory → t'.nodes.get? path = some .directory

theorem Grows.refl (t : FileTree) : Grows t t := ⟨rfl, fun _ h => h⟩

theorem Grows.trans {t'' : FileTree} (h : Grows t t') (h' : Grows t' t'') : Grows t t'' :=
  ⟨h'.home.trans h.home, fun path hpath => h'.directories path (h.directories path hpath)⟩

theorem Grows.advance {d : List String} (h : Grows t t') (hd : t.advance directory name = .ok d) :
    t'.advance directory name = .ok d := by
  have hnode : t.node? (directory ++ [name]) = some .directory →
      t'.node? (directory ++ [name]) = some .directory := by
    rw [node?_child, node?_child]
    exact h.directories _
  unfold FileTree.advance at hd ⊢
  by_cases hdot : name = "."
  · simpa [hdot] using hd
  · by_cases hdots : name = ".."
    · simpa [hdots] using hd
    · simp only [if_neg hdot, if_neg hdots] at hd ⊢
      split at hd
      · cases hd
      · split at hd
        · rename_i hlong _ hdir
          rw [if_neg hlong, hnode hdir]
          exact hd
        · cases hd
        · cases hd

/-- A way that exists stays as it is. -/
theorem Grows.walk {d : List String} (h : Grows t t') (hd : t.walk directory names = .ok d) :
    t'.walk directory names = .ok d := by
  induction names generalizing directory with
  | nil => exact hd
  | cons name names ih =>
    rw [walk_cons] at hd ⊢
    cases hname : t.advance directory name with
    | error e => simp [hname, Except.bind] at hd
    | ok next =>
      rw [hname] at hd
      rw [h.advance hname]
      exact ih hd

theorem Grows.start (h : Grows t t') (path : String) : t'.start path = t.start path := by
  rw [FileTree.start, FileTree.start, h.home]

/-- A way that was there is still there. -/
theorem Grows.way {d : List String} (h : Grows t t') (hd : t.way base = .ok d) :
    t'.way base = .ok d := by
  rw [FileTree.way, h.start]
  exact h.walk hd

theorem grows_put (h : t.node? (directory ++ [name]) ≠ some .directory) (node : FileNode) :
    Grows t (t.put (directory ++ [name]) node) where
  home := rfl
  directories path hpath := by
    rw [node?_child] at h
    rw [get?_put, if_neg, hpath]
    rintro rfl
    exact h hpath

theorem grows_drop (h : t.node? (directory ++ [name]) ≠ some .directory) :
    Grows t (t.drop (directory ++ [name])) where
  home := rfl
  directories path hpath := by
    rw [node?_child] at h
    rw [get?_drop, if_neg, hpath]
    rintro rfl
    exact h hpath

/-! ## §4 Replacing -/

/-- Where a file can be put. -/
def target (t : FileTree) (path : String) : Except FileError (List String) :=
  match t.find path with
  | .error e => .error e
  | .ok (.node _ .directory) => .error .isDirectory
  | .ok (.node names _) => .ok names
  | .ok (.free names) => .ok names

theorem putFile_of_error {path : String} {e : FileError} (h : t.target path = .error e)
    (text : Option String) : t.putFile path text = (.error e, t) := by
  unfold target at h
  unfold putFile
  split at h <;> simp_all

theorem putFile_of_ok {path : String} (h : t.target path = .ok names) (text : Option String) :
    t.putFile path text = (.ok (), t.put names (.file text)) := by
  unfold target at h
  unfold putFile
  split at h <;> simp_all

theorem target_of_refused {path : String} {e : FileError} (h : refusal? path = some e)
    (t : FileTree) : t.target path = .error e := by
  rw [target, find_of_refused h]

/-- At the end of a way that exists, a file can be put where no directory is. -/
theorem target_join {d : List String} (h : Path.IsName name) (hway : t.way base = .ok d)
    (hr : refusal? (Path.join base name) = none) :
    t.target (Path.join base name)
      = if longestName < name.utf8ByteSize then .error .nameTooLong
        else if t.node? (d ++ [name]) = some .directory then .error .isDirectory
        else .ok (d ++ [name]) := by
  rw [target, find_join h hr, hway]
  simp only [Except.bind, enter]
  by_cases hlong : longestName < name.utf8ByteSize
  · simp [hlong]
  · simp only [if_neg hlong, placeAt]
    cases hnode : t.node? (d ++ [name]) with
    | none => rfl
    | some node => cases node <;> simp

/-- A file can be written below a path if the way to it is there and no directory has its
name. -/
theorem target_join_eq_ok_iff (h : Path.IsName name) :
    t.target (Path.join base name) = .ok names ↔
      Admits base name ∧ ∃ d, t.way base = .ok d ∧ names = d ++ [name] ∧
        t.node? (d ++ [name]) ≠ some .directory := by
  cases hr : refusal? (Path.join base name) with
  | some e => simp [target_of_refused hr, Admits, hr]
  | none =>
    cases hway : t.way base with
    | error e => simp [target, find_join h hr, hway, Except.bind]
    | ok d =>
      by_cases hlong : longestName < name.utf8ByteSize
      · simp [target_join h hway hr, hlong, Admits, Nat.not_le.mpr hlong]
      · by_cases hnode : t.node? (d ++ [name]) = some .directory
        · simp [target_join h hway hr, hlong, hnode]
        · have hadmits : Admits base name := ⟨hr, Nat.not_lt.mp hlong⟩
          rw [target_join h hway hr, if_neg hlong, if_neg hnode]
          constructor
          · rintro ⟨⟩
            exact ⟨hadmits, d, rfl, rfl, hnode⟩
          · rintro ⟨-, d', ⟨⟩, rfl, -⟩
            rfl

/-- Whether a file can be put at the end of a way depends on the directories there only. -/
theorem target_join_congr {d : List String} (h : Path.IsName name) (hway : t.way base = .ok d)
    (hway' : t'.way base = .ok d)
    (hnode : t'.node? (d ++ [name]) = some .directory ↔ t.node? (d ++ [name]) = some .directory) :
    t'.target (Path.join base name) = t.target (Path.join base name) := by
  cases hr : refusal? (Path.join base name) with
  | some e => rw [target_of_refused hr, target_of_refused hr]
  | none => simp only [target_join h hway hr, target_join h hway' hr, hnode]

end FileTree

end SettingProfiles

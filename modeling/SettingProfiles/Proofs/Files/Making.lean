/-
SettingProfiles.Proofs.Files.Making — directories that are made on the way.

Making a directory makes those above it that are missing, one after the other, and can
stop at any of them. It only adds directories, and where it goes on later it comes to the
same: what was made the first time is passed on the way.

  §1 Made trees    — `Makes`: more directories, and nothing else.
  §2 Along the way — `makeAlong`, all the way or a part of it; `makeAlong_resume`.
  §3 Directories   — `makeDirectory`.
-/
import SettingProfiles.Proofs.Files.Walking

namespace SettingProfiles

namespace FileTree

variable {t t' : FileTree} {directory names : List String} {name base : String}

/-! ## §1 Made trees -/

/-- A tree with more directories than another, each in a place where nothing was. -/
structure Makes (t t' : FileTree) : Prop where
  home : t'.home = t.home
  get?_or : ∀ path, t'.nodes.get? path = t.nodes.get? path ∨
    t.nodes.get? path = none ∧ t'.nodes.get? path = some .directory

theorem Makes.refl (t : FileTree) : Makes t t := ⟨rfl, fun _ => .inl rfl⟩

theorem Makes.grows (h : Makes t t') : Grows t t' where
  home := h.home
  directories path hpath := by
    rcases h.get?_or path with heq | ⟨hnone, -⟩
    · rw [heq, hpath]
    · simp [hnone] at hpath

theorem Makes.trans {t'' : FileTree} (h : Makes t t') (h' : Makes t' t'') : Makes t t'' where
  home := h'.home.trans h.home
  get?_or path := by
    rcases h.get?_or path with heq | ⟨hnone, hdir⟩
    · rw [← heq]
      exact h'.get?_or path
    · exact .inr ⟨hnone, h'.grows.directories path hdir⟩

theorem makes_put (h : t.node? (directory ++ [name]) = none) :
    Makes t (t.put (directory ++ [name]) .directory) where
  home := rfl
  get?_or path := by
    rw [node?_child] at h
    rw [get?_put]
    split
    · rename_i hpath
      exact .inr ⟨hpath ▸ h, rfl⟩
    · exact .inl rfl

/-! ## §2 Along the way -/

section Along

variable {made : Bool} {rest : List String}

theorem makeAlong_of_advance {d : List String} (h : t.advance directory name = .ok d) :
    t.makeAlong directory made (name :: rest) = t.makeAlong d made rest := by
  unfold advance at h
  rw [makeAlong]
  by_cases hdot : name = "."
  · simp_all
  · by_cases hdots : name = ".."
    · simp_all
    · simp only [if_neg hdot, if_neg hdots] at h ⊢
      split at h
      · cases h
      · rename_i hlong
        rw [if_neg hlong]
        split at h <;> simp_all

theorem makeAlong_of_blocked {e : FileError} (made : Bool) (rest : List String)
    (h : t.advance directory name = .error e)
    (he : e ≠ .notFound) : ∃ e', t.makeAlong directory made (name :: rest) = (.error e', t) := by
  unfold advance at h
  rw [makeAlong]
  split at h
  · cases h
  · split at h
    · cases h
    · rename_i hdot hdots
      rw [if_neg hdot, if_neg hdots]
      split at h
      · rename_i hlong
        exact ⟨.nameTooLong, if_pos hlong⟩
      · rename_i hlong
        rw [if_neg hlong]
        split at h
        · cases h
        · rename_i node hdir hnode
          cases node with
          | directory => exact absurd rfl hdir
          | file text => exact ⟨obstacle made rest, by simp only [hnode]⟩
        · cases h
          exact absurd rfl he

theorem makeAlong_of_missing (made : Bool) (rest : List String)
    (h : t.advance directory name = .error .notFound) :
    t.node? (directory ++ [name]) = none ∧
      (t.put (directory ++ [name]) .directory).advance directory name = .ok (directory ++ [name]) ∧
      t.makeAlong directory made (name :: rest)
        = if rest = ["."] then (.error .notFound, t)
          else
            (t.put (directory ++ [name]) .directory).makeAlong (directory ++ [name]) true rest := by
  have hput := node?_put_self t directory name .directory
  unfold advance at h ⊢
  rw [makeAlong]
  split at h
  · cases h
  · split at h
    · cases h
    · split at h
      · cases h
      · rename_i hdot hdots hlong
        simp only [if_neg hdot, if_neg hdots, if_neg hlong]
        split at h
        · cases h
        · cases h
        · rename_i hnone
          simp only [hnone, hput, and_self]

/-- Directories are made only where nothing was. -/
theorem makes_makeAlong (t : FileTree) (directory : List String) (made : Bool)
    (names : List String) : Makes t (t.makeAlong directory made names).2 := by
  induction names generalizing t directory made with
  | nil => exact .refl t
  | cons name rest ih =>
    cases hname : t.advance directory name with
    | ok d =>
      rw [makeAlong_of_advance hname]
      exact ih t d made
    | error e =>
      by_cases he : e = .notFound
      · subst he
        obtain ⟨hnone, -, heq⟩ := makeAlong_of_missing made rest hname
        rw [heq]
        split
        · exact .refl t
        · exact (makes_put hnone).trans (ih _ _ _)
      · obtain ⟨e', heq⟩ := makeAlong_of_blocked made rest hname he
        rw [heq]
        exact .refl t

/-- When all directories were made, the way exists. -/
theorem walk_of_makeAlong (h : (t.makeAlong directory made names).1 = .ok ()) :
    ∃ d, (t.makeAlong directory made names).2.walk directory names = .ok d := by
  induction names generalizing t directory made with
  | nil => exact ⟨directory, rfl⟩
  | cons name rest ih =>
    cases hname : t.advance directory name with
    | ok d =>
      rw [makeAlong_of_advance hname] at h ⊢
      rw [walk_cons, (makes_makeAlong t d made rest).grows.advance hname]
      exact ih h
    | error e =>
      by_cases he : e = .notFound
      · subst he
        obtain ⟨hnone, hnext, heq⟩ := makeAlong_of_missing made rest hname
        rw [heq] at h ⊢
        split at h
        · cases h
        · rename_i hrest
          rw [if_neg hrest, walk_cons, (makes_makeAlong _ _ _ _).grows.advance hnext]
          exact ih h
      · obtain ⟨e', heq⟩ := makeAlong_of_blocked made rest hname he
        simp [heq] at h

/-- What was made before matters only for how making fails. -/
theorem makeAlong_eq_of_ok {made' : Bool} (h : (t.makeAlong directory made names).1 = .ok ()) :
    t.makeAlong directory made' names = t.makeAlong directory made names := by
  induction names generalizing directory with
  | nil => rfl
  | cons name rest ih =>
    cases hname : t.advance directory name with
    | ok d =>
      rw [makeAlong_of_advance hname] at h
      rw [makeAlong_of_advance hname, makeAlong_of_advance hname]
      exact ih h
    | error e =>
      by_cases he : e = .notFound
      · subst he
        rw [(makeAlong_of_missing _ rest hname).2.2, (makeAlong_of_missing _ rest hname).2.2]
      · obtain ⟨e', heq⟩ := makeAlong_of_blocked made rest hname he
        simp [heq] at h

/-- After a part of the way was made, the rest can be made only where all of it could have
been made, and with the same directories. -/
theorem makeAlong_resume {made' : Bool} {count : Nat} (hdrop : names.drop count ≠ ["."])
    (h : ((t.makeAlong directory made (names.take count)).2.makeAlong directory made' names).1
      = .ok ()) :
    t.makeAlong directory made names
      = (t.makeAlong directory made (names.take count)).2.makeAlong directory made' names := by
  induction names generalizing t directory made count with
  | nil => simp [makeAlong]
  | cons name rest ih =>
    cases count with
    | zero => exact makeAlong_eq_of_ok h
    | succ count =>
      rw [List.take_succ_cons] at h ⊢
      rw [List.drop_succ_cons] at hdrop
      cases hname : t.advance directory name with
      | ok d =>
        rw [makeAlong_of_advance hname] at h ⊢
        have hnext := (makes_makeAlong t d made (rest.take count)).grows.advance hname
        rw [makeAlong_of_advance hnext] at h
        rw [makeAlong_of_advance hname, makeAlong_of_advance hnext]
        exact ih hdrop h
      | error e =>
        by_cases he : e = .notFound
        · subst he
          obtain ⟨-, hput, hwhole⟩ := makeAlong_of_missing made rest hname
          obtain ⟨-, -, hpart⟩ := makeAlong_of_missing made (rest.take count) hname
          by_cases hdot : rest.take count = ["."]
          · rw [hpart, if_pos hdot] at h ⊢
            exact makeAlong_eq_of_ok h
          · -- the name was made: the rest of the way begins behind it in both trees
            have hrest : rest ≠ ["."] := by
              rintro rfl
              cases count with
              | zero => exact hdrop rfl
              | succ count => exact hdot (by simp)
            rw [hpart, if_neg hdot] at h ⊢
            have hnext := (makes_makeAlong _ (directory ++ [name]) true
              (rest.take count)).grows.advance hput
            rw [makeAlong_of_advance hnext] at h ⊢
            rw [hwhole, if_neg hrest]
            exact ih hdrop h
        · obtain ⟨e', heq⟩ := makeAlong_of_blocked made (rest.take count) hname he
          rw [heq] at h ⊢
          exact makeAlong_eq_of_ok h

end Along

/-! ## §3 Directories -/

theorem walk_directoryNames (t : FileTree) (directory : List String) (path : String) :
    t.walk directory (Path.directoryNames path) = t.walk directory (Path.plainNames path) := by
  unfold Path.directoryNames
  split
  · exact walk_append_dot ..
  · rw [List.append_nil]

theorem makes_makeDirectory (t : FileTree) (path : String) : Makes t (t.makeDirectory path).2 := by
  unfold makeDirectory
  split
  · exact .refl t
  · exact makes_makeAlong ..

/-- When a directory was made, the way to it exists. -/
theorem way_of_makeDirectory (h : (t.makeDirectory base).1 = .ok ()) :
    ∃ d, (t.makeDirectory base).2.way base = .ok d := by
  have hgrows := (makes_makeDirectory t base).grows
  rw [way, hgrows.start]
  unfold makeDirectory at h ⊢
  split at h
  · cases h
  · rw [← walk_directoryNames]
    exact walk_of_makeAlong h

theorem refusal?_of_makeDirectory (h : (t.makeDirectory base).1 = .ok ()) :
    refusal? base = none := by
  unfold makeDirectory at h
  split at h
  · cases h
  · assumption

/-- The first directories on the way, as far as one count goes, are made. -/
def makePart (t : FileTree) (path : String) (count : Nat) : FileTree :=
  (t.makeAlong (t.start path) false ((Path.directoryNames path).take count)).2

theorem makes_makePart (t : FileTree) (path : String) (count : Nat) :
    Makes t (t.makePart path count) := makes_makeAlong ..

theorem makeDirectory_of_makePart {count : Nat}
    (hdrop : (Path.directoryNames base).drop count ≠ ["."])
    (h : ((t.makePart base count).makeDirectory base).1 = .ok ()) :
    t.makeDirectory base = (t.makePart base count).makeDirectory base := by
  have hr := refusal?_of_makeDirectory h
  have hstart := (makes_makePart t base count).grows.start base
  rw [makeDirectory, hr, hstart] at h
  rw [makeDirectory, makeDirectory, hr, hstart]
  exact makeAlong_resume hdrop h

end FileTree

end SettingProfiles

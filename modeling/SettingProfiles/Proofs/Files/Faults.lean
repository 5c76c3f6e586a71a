/-
SettingProfiles.Proofs.Files.Faults — steps on files, each of which may fail.

A step may fail at any time, for any reason, and what a failing step leaves depends on
what it does: reading, removing and moving a file change nothing then; writing may leave
any part of the text; of the directories on a way, some may have been made. A failure is
taken at its word in one point only: a file that is there is not reported missing.

  §1 Programs — runs whose questions have more than one answer; what can be asked.
  §2 Steps    — `FileTree.Takes`.
  §3 Reading and removing.
  §4 Writing and moving.
  §5 Making.
-/
import SettingProfiles.Proofs.Files.Making

namespace SettingProfiles

/-! ## §1 Programs -/

namespace Program

variable {Q S α : Type} {A : Q → Type}

/-- What a program can come to when a question may have more than one answer, each with
the state after it. -/
inductive Runs (takes : S → (q : Q) → A q → S → Prop) : S → Program Q A α → α → S → Prop
  | done (s : S) (a : α) : Runs takes s (.done a) a s
  | ask {s s' s'' : S} {q : Q} {next : A q → Program Q A α} {a : α} (answer : A q)
      (first : takes s q answer s') (rest : Runs takes s' (next answer) a s'') :
      Runs takes s (.ask q next) a s''

variable {takes : S → (q : Q) → A q → S → Prop} {s s' : S} {a b : α}

@[simp] theorem runs_done_iff :
    Runs takes s (.done a : Program Q A α) b s' ↔ b = a ∧ s' = s := by
  constructor
  · rintro ⟨⟩
    exact ⟨rfl, rfl⟩
  · rintro ⟨rfl, rfl⟩
    exact .done ..

/-- A run of a program that asks goes on from one of the answers that can be given. -/
theorem runs_ask_iff {q : Q} {next : A q → Program Q A α} :
    Runs takes s (.ask q next) a s' ↔
      ∃ answer s₁, takes s q answer s₁ ∧ Runs takes s₁ (next answer) a s' := by
  constructor
  · rintro ⟨⟩
    exact ⟨_, _, ‹_›, ‹_›⟩
  · rintro ⟨answer, s₁, hfirst, hrest⟩
    exact .ask answer hfirst hrest

/-- Where one of the answers is always the same, a program can come to what it comes to
with these answers. -/
theorem runs_run {answer : (q : Q) → StateM S (A q)}
    (h : ∀ s q, takes s q (answer q s).1 (answer q s).2) (p : Program Q A α) (s : S) :
    Runs takes s p (p.run answer s).1 (p.run answer s).2 := by
  induction p generalizing s with
  | done a => exact .done s a
  | ask q next ih => exact .ask _ (h s q) (ih _ _)

end Program

namespace FileTree

/-! ## §2 Steps -/

/-- The path leads to nothing that is there. -/
def Missing (t : FileTree) (path : String) : Prop :=
  ∀ names node, t.find path ≠ .ok (.node names node)

/-- What a step on files can come to, and what it leaves. -/
inductive Takes (t : FileTree) : (s : FileStep) → s.Answer → FileTree → Prop
  | done {s : FileStep} {answer : s.Answer} {t' : FileTree}
      (h : (FileTree.answer s).run t = (answer, t')) : Takes t s answer t'
  | read (path : String) (e : FileError) (honest : e = .notFound → t.Missing path) :
      Takes t (.read path) (.error e) t
  | remove (path : String) (e : FileError) (honest : e = .notFound → t.Missing path) :
      Takes t (.remove path) (.error e) t
  | rename (path target : String) (e : FileError) : Takes t (.rename path target) (.error e) t
  | write (path text : String) (e : FileError) : Takes t (.write path text) (.error e) t
  /-- Whatever was written of the text is what the file holds then. -/
  | writePart (path text : String) (part : Option String) (e : FileError) :
      Takes t (.write path text) (.error e) (t.putFile path part).2
  /-- Only the first directories were made. The one before a "." at the end is not among
  them, since that one must be there already. -/
  | makeDirectory (path : String) (count : Nat) (e : FileError)
      (real : (Path.directoryNames path).drop count ≠ ["."]) :
      Takes t (.makeDirectory path) (.error e) (t.makePart path count)

variable {t t' : FileTree} {path text : String} {e : FileError}

/-! ## §3 Reading and removing -/

theorem find_of_read (h : t.read path = .ok text) :
    ∃ names, t.find path = .ok (.node names (.file (some text))) := by
  unfold FileTree.read at h
  cases hfind : t.find path with
  | error e => simp [hfind, bind, Except.bind] at h
  | ok place =>
    rw [hfind] at h
    cases place with
    | free names => cases h
    | node names node =>
      cases node with
      | directory => cases h
      | file found =>
        cases found with
        | none => cases h
        | some found =>
          cases h
          exact ⟨names, rfl⟩

theorem missing_of_read (h : t.read path = .error .notFound) : t.Missing path := by
  intro names node hfind
  unfold FileTree.read at h
  rw [hfind] at h
  cases node with
  | directory => cases h
  | file found => cases found <;> cases h

namespace Takes

theorem find_of_read (h : t.Takes (.read path) (.ok text) t') :
    ∃ names, t.find path = .ok (.node names (.file (some text))) := by
  cases h with
  | done h => exact FileTree.find_of_read (congrArg Prod.fst h)

theorem missing_of_read (h : t.Takes (.read path) (.error .notFound) t') : t.Missing path := by
  cases h with
  | done h => exact FileTree.missing_of_read (congrArg Prod.fst h)
  | read _ _ honest => exact honest rfl

theorem of_write (h : t.Takes (.write path text) (.ok ()) t') :
    ∃ names, t.target path = .ok names ∧ t' = t.put names (.file (some text)) := by
  cases h with
  | done h =>
    replace h : t.putFile path (some text) = (.ok (), t') := h
    cases htarget : t.target path with
    | error e => simp [putFile_of_error htarget] at h
    | ok names =>
      rw [putFile_of_ok htarget] at h
      cases h
      exact ⟨names, rfl, rfl⟩

/-- A file that is moved is gone from where it was and replaces what is at its new place. -/
theorem of_rename {target : String} (h : t.Takes (.rename path target) (.ok ()) t') :
    ∃ names text moved, t.find path = .ok (.node names (.file text)) ∧
      (t.drop names).target target = .ok moved ∧ t' = (t.drop names).put moved (.file text) := by
  cases h with
  | done h =>
    replace h : t.rename path target = (.ok (), t') := h
    unfold FileTree.rename at h
    split at h
    · cases h
    · rename_i names text hfind
      refine ⟨names, text, ?_⟩
      cases htarget : (t.drop names).target target with
      | error e => simp [putFile_of_error htarget] at h
      | ok moved =>
        rw [putFile_of_ok htarget] at h
        cases h
        exact ⟨moved, hfind, rfl, rfl⟩
    · cases h
    · cases h

/-- A directory that could not be made leaves a part of the way. -/
theorem of_makeDirectory_error (h : t.Takes (.makeDirectory path) (.error e) t') :
    t' = t ∨
      ∃ count, (Path.directoryNames path).drop count ≠ ["."] ∧ t' = t.makePart path count := by
  cases h with
  | done h =>
    rw [← show (t.makeDirectory path).2 = t' from congrArg Prod.snd h]
    unfold FileTree.makeDirectory
    split
    · exact .inl rfl
    · exact .inr ⟨(Path.directoryNames path).length, by simp, by rw [makePart, List.take_length]⟩
  | makeDirectory _ count _ real => exact .inr ⟨count, real, rfl⟩

theorem of_makeDirectory (h : t.Takes (.makeDirectory path) (.ok ()) t') :
    t.makeDirectory path = (.ok (), t') := by
  cases h with
  | done h => exact h

/-- Making a directory only adds directories, also when it fails. -/
theorem makes {answer : Except FileError Unit} (h : t.Takes (.makeDirectory path) answer t') :
    Makes t t' := by
  cases answer with
  | ok =>
    have hmakes := makes_makeDirectory t path
    rwa [h.of_makeDirectory] at hmakes
  | error e =>
    rcases h.of_makeDirectory_error with rfl | ⟨count, -, rfl⟩
    · exact .refl t'
    · exact makes_makePart t path count

theorem way_of_makeDirectory (h : t.Takes (.makeDirectory path) (.ok ()) t') :
    ∃ d, t'.way path = .ok d := by
  have hmake := h.of_makeDirectory
  have hway := FileTree.way_of_makeDirectory (congrArg Prod.fst hmake)
  rwa [hmake] at hway

/-- After a directory could not be made, it can be made only where it could have been made
before, and with the same directories. -/
theorem makeDirectory_eq (h : t.Takes (.makeDirectory path) (.error e) t')
    (hmake : (t'.makeDirectory path).1 = .ok ()) :
    t.makeDirectory path = t'.makeDirectory path := by
  rcases h.of_makeDirectory_error with rfl | ⟨count, hdrop, rfl⟩
  · rfl
  · exact makeDirectory_of_makePart hdrop hmake

end Takes

end FileTree

end SettingProfiles

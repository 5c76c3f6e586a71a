/-
SettingProfiles.Proofs.Files.Kept — the texts that the files of a directory keep.

What is at the place of a key is looked at by where the directory is to be, not by
whether the way there exists: the way may be made later, and a file that was there all
along would then be found. A step that fails, on whatever way and in whatever tree,
leaves the file of every key as it was; a step that succeeds changes that of its own key.

  §1 Places    — `site`, `kept?`, `Vacant`.
  §2 Keeping   — `Keeps`, and what keeps all files of keys.
  §3 Replacing — a text that was set, step by step.
  §4 Texts     — `Holds`: the files keep these texts and no others.
  §5 Requests  — what one request leaves, and what any number of them leave.
-/
import SettingProfiles.Proofs.Files.Requests

namespace SettingProfiles

namespace FileBlobs

open FileTree (Grows Makes Admits)

variable {b : FileBlobs} {key other text : String} {t t' t'' : FileTree}

/-! ## §1 Places -/

/-- Where the directory is, or would be. -/
def site (b : FileBlobs) (t : FileTree) : List String :=
  (Path.plainNames b.directory).foldl FileTree.onward (t.start b.directory)

/-- What is in the place of the file of a key. -/
def kept? (b : FileBlobs) (t : FileTree) (key : String) : Option FileNode :=
  t.node? (b.site t ++ [fileName key])

theorem eq_site {d : List String} (h : t.way b.directory = .ok d) : d = b.site t :=
  FileTree.eq_foldl_of_walk h

theorem site_of_grows (h : Grows t t') : b.site t' = b.site t := by
  rw [site, h.start, site]

theorem find_path_iff (hkey : isValidKey key = true) {names : List String} {found : Option String} :
    t.find (b.path key) = .ok (.node names (.file found)) ↔
      Admits b.directory (fileName key) ∧ t.way b.directory = .ok (b.site t) ∧
        names = b.site t ++ [fileName key] ∧ b.kept? t key = some (.file found) := by
  rw [path_eq, FileTree.find_join_eq_ok_iff (isName_fileName hkey)]
  unfold FileTree.placeAt
  constructor
  · rintro ⟨hadmits, d, hway, hplace⟩
    obtain rfl := eq_site hway
    split at hplace <;> cases hplace
    rename_i hnode
    exact ⟨hadmits, hway, rfl, hnode⟩
  · rintro ⟨hadmits, hway, rfl, hkept⟩
    refine ⟨hadmits, _, hway, ?_⟩
    rw [show t.node? (b.site t ++ [fileName key]) = some (.file found) from hkept]

theorem find_draftPath (hkey : isValidKey key = true) {names : List String} {node : FileNode}
    (h : t.find (b.draftPath key) = .ok (.node names node)) :
    names = b.site t ++ [draftName key] ∧ t.node? (b.site t ++ [draftName key]) = some node := by
  rw [draftPath_eq b hkey, FileTree.find_join_eq_ok_iff (isName_draftName hkey)] at h
  obtain ⟨-, d, hway, hplace⟩ := h
  obtain rfl := eq_site hway
  unfold FileTree.placeAt at hplace
  split at hplace <;> cases hplace
  exact ⟨rfl, ‹_›⟩

/-- Where a draft can be put. -/
theorem target_draftPath (hkey : isValidKey key = true) {names : List String}
    (h : t.target (b.draftPath key) = .ok names) :
    t.way b.directory = .ok (b.site t) ∧ names = b.site t ++ [draftName key] ∧
      t.node? (b.site t ++ [draftName key]) ≠ some .directory := by
  rw [draftPath_eq b hkey, FileTree.target_join_eq_ok_iff (isName_draftName hkey)] at h
  obtain ⟨-, d, hway, rfl, hnode⟩ := h
  obtain rfl := eq_site hway
  exact ⟨hway, rfl, hnode⟩

/-- Where the file of a key can be put. -/
theorem target_path (hkey : isValidKey key = true) {names : List String}
    (h : t.target (b.path key) = .ok names) :
    Admits b.directory (fileName key) ∧ t.way b.directory = .ok (b.site t) ∧
      names = b.site t ++ [fileName key] ∧ b.kept? t key ≠ some .directory := by
  rw [path_eq, FileTree.target_join_eq_ok_iff (isName_fileName hkey)] at h
  obtain ⟨hadmits, d, hway, rfl, hnode⟩ := h
  obtain rfl := eq_site hway
  exact ⟨hadmits, hway, rfl, hnode⟩

/-! ## §2 Keeping -/

/-- The file of every key is as it was, and no directory is gone. -/
structure Keeps (b : FileBlobs) (t t' : FileTree) : Prop where
  grows : Grows t t'
  kept_iff : ∀ key found, isValidKey key = true →
    (b.kept? t' key = some (.file found) ↔ b.kept? t key = some (.file found))

theorem Keeps.refl (b : FileBlobs) (t : FileTree) : b.Keeps t t := ⟨.refl t, fun _ _ _ => Iff.rfl⟩

theorem Keeps.trans (h : b.Keeps t t') (h' : b.Keeps t' t'') : b.Keeps t t'' :=
  ⟨h.grows.trans h'.grows, fun key found hkey =>
    (h'.kept_iff key found hkey).trans (h.kept_iff key found hkey)⟩

theorem keeps_of_makes (h : Makes t t') : b.Keeps t t' where
  grows := h.grows
  kept_iff key found hkey := by
    rw [kept?, kept?, site_of_grows h.grows, FileTree.node?_child, FileTree.node?_child]
    rcases h.get?_or (FileTree.fullPath (b.site t ++ [fileName key])) with heq | ⟨hnone, hdir⟩
    · rw [heq]
    · simp [hnone, hdir]

/-- What is put in the place of a draft is not seen in that of any key. -/
theorem keeps_put_draft
    (hnode : t.node? (b.site t ++ [draftName key]) ≠ some .directory) (part : Option String) :
    b.Keeps t (t.put (b.site t ++ [draftName key]) (.file part)) where
  grows := FileTree.grows_put hnode _
  kept_iff other found hother := by
    rw [kept?, site_of_grows (FileTree.grows_put hnode _),
      FileTree.node?_put_other (draftName_ne_fileName key other).symm, kept?]

theorem keeps_drop_draft (hnode : t.node? (b.site t ++ [draftName key]) ≠ some .directory) :
    b.Keeps t (t.drop (b.site t ++ [draftName key])) where
  grows := FileTree.grows_drop hnode
  kept_iff other found hother := by
    rw [kept?, site_of_grows (FileTree.grows_drop hnode),
      FileTree.node?_drop_other (draftName_ne_fileName key other).symm, kept?]

theorem keeps_of_write (hkey : isValidKey key = true)
    (h : t.Takes (.write (b.draftPath key) text) (.ok ()) t') :
    b.Keeps t t' ∧ t'.node? (b.site t' ++ [draftName key]) = some (.file (some text)) := by
  obtain ⟨names, htarget, rfl⟩ := h.of_write
  obtain ⟨-, rfl, hnode⟩ := target_draftPath hkey htarget
  have hkeeps := keeps_put_draft hnode (some text)
  exact ⟨hkeeps, by rw [site_of_grows hkeeps.grows, FileTree.node?_put_self]⟩

/-! ## §3 Replacing -/

/-- When setting a text succeeds, the file of its key is the only one that is another. -/
theorem SetRun.of_ok (hkey : isValidKey key = true) (h : b.SetRun key text t (.ok ()) t') :
    ∃ u, b.Keeps t u ∧ Admits b.directory (fileName key) ∧ u.way b.directory = .ok (b.site u) ∧
      b.kept? u key ≠ some .directory ∧
      t' = u.put (b.site u ++ [fileName key]) (.file (some text)) := by
  cases h with
  | @made t₁ _ _ hmade hrun =>
    cases hrun with
    | @moved t₂ _ hwritten hmoved =>
      obtain ⟨hkeeps, hdraft⟩ := keeps_of_write hkey hwritten
      obtain ⟨names, found, moved, hfind, htarget, rfl⟩ := hmoved.of_rename
      -- the draft holds the whole text, so this is what is moved
      obtain ⟨rfl, hnode⟩ := (find_draftPath hkey hfind)
      rw [hdraft] at hnode
      cases hnode
      have hdrop : b.Keeps t₂ (t₂.drop (b.site t₂ ++ [draftName key])) :=
        keeps_drop_draft (by simp [hdraft])
      obtain ⟨hadmits, hway, rfl, hfree⟩ := target_path hkey htarget
      exact ⟨_, (keeps_of_makes hmade.makes).trans (hkeeps.trans hdrop), hadmits, hway, hfree, rfl⟩

/-! ## §4 Texts -/

/-- The files keep the texts, and the file of no other key is there. -/
structure Holds (b : FileBlobs) (m : MemoryBlobs) (t : FileTree) : Prop where
  stored : ∀ key text, m.get key = some text →
    isValidKey key = true ∧ Admits b.directory (fileName key) ∧
      t.way b.directory = .ok (b.site t) ∧ b.kept? t key = some (.file (some text))
  only : ∀ key found, isValidKey key = true → b.kept? t key = some (.file found) →
    ∃ text, found = some text ∧ m.get key = some text

theorem Holds.keeps {m : MemoryBlobs} (h : b.Holds m t) (hkeeps : b.Keeps t t') :
    b.Holds m t' where
  stored key text hget := by
    obtain ⟨hkey, hadmits, hway, hkept⟩ := h.stored key text hget
    refine ⟨hkey, hadmits, ?_, (hkeeps.kept_iff key _ hkey).mpr hkept⟩
    rw [site_of_grows hkeeps.grows]
    exact hkeeps.grows.way hway
  only key found hkey hkept := h.only key found hkey ((hkeeps.kept_iff key found hkey).mp hkept)

/-- Where only one key has another file and another text, what holds of this key is all
there is to show. -/
theorem Holds.change {m m' : MemoryBlobs} (h : b.Holds m t) (hgrows : Grows t t') (key : String)
    (hget : ∀ k, key ≠ k → m'.get k = m.get k)
    (hkept : ∀ k, key ≠ k → b.kept? t' k = b.kept? t k)
    (hstored : ∀ text, m'.get key = some text →
      isValidKey key = true ∧ Admits b.directory (fileName key) ∧
        t.way b.directory = .ok (b.site t) ∧ b.kept? t' key = some (.file (some text)))
    (honly : ∀ found, b.kept? t' key = some (.file found) →
      ∃ text, found = some text ∧ m'.get key = some text) : b.Holds m' t' := by
  have hsite := site_of_grows (b := b) hgrows
  refine ⟨fun k text hk => ?_, fun k found hvalid hk => ?_⟩
  · by_cases hne : key = k
    · subst hne
      obtain ⟨hkey, hadmits, hway, hfile⟩ := hstored text hk
      exact ⟨hkey, hadmits, hsite ▸ hgrows.way hway, hfile⟩
    · obtain ⟨hkey, hadmits, hway, hfile⟩ := h.stored k text (hget k hne ▸ hk)
      exact ⟨hkey, hadmits, hsite ▸ hgrows.way hway, (hkept k hne).trans hfile⟩
  · by_cases hne : key = k
    · subst hne
      exact honly found hk
    · rw [hget k hne]
      exact h.only k found hvalid (hkept k hne ▸ hk)

/-- A text that is put in the place of its key is kept beside the others. -/
theorem Holds.put {m : MemoryBlobs} (h : b.Holds m t) (hkey : isValidKey key = true)
    (hadmits : Admits b.directory (fileName key)) (hway : t.way b.directory = .ok (b.site t))
    (hnode : b.kept? t key ≠ some .directory) (text : String) :
    b.Holds (m.set key text) (t.put (b.site t ++ [fileName key]) (.file (some text))) := by
  have hgrows : Grows t (t.put (b.site t ++ [fileName key]) (.file (some text))) :=
    FileTree.grows_put hnode _
  have hself : b.kept? (t.put (b.site t ++ [fileName key]) (.file (some text))) key
      = some (.file (some text)) := by
    rw [kept?, site_of_grows hgrows, FileTree.node?_put_self]
  have hget : (m.set key text).get key = some text := by rw [MemoryBlobs.get_set, if_pos rfl]
  refine h.change hgrows key (fun k hne => ?_) (fun k hne => ?_) (fun found hfound => ?_)
    fun found hfound => ?_
  · rw [MemoryBlobs.get_set, if_neg hne]
  · have hname : fileName k ≠ fileName key := fun heq => hne (fileName_inj heq).symm
    rw [kept?, site_of_grows hgrows, FileTree.node?_put_other hname, kept?]
  · cases hget.symm.trans hfound
    exact ⟨hkey, hadmits, hway, hself⟩
  · cases hself.symm.trans hfound
    exact ⟨text, rfl, hget⟩

/-- With its file, the text of a key is gone, and no other text. -/
theorem Holds.drop {m : MemoryBlobs} (h : b.Holds m t)
    (hnode : b.kept? t key ≠ some .directory) :
    b.Holds (m.delete key) (t.drop (b.site t ++ [fileName key])) := by
  have hgrows : Grows t (t.drop (b.site t ++ [fileName key])) := FileTree.grows_drop hnode
  have hself : b.kept? (t.drop (b.site t ++ [fileName key])) key = none := by
    rw [kept?, site_of_grows hgrows, FileTree.node?_drop_self]
  have hget : (m.delete key).get key = none := by rw [MemoryBlobs.get_delete, if_pos rfl]
  refine h.change hgrows key (fun k hne => ?_) (fun k hne => ?_) (fun found hfound => ?_)
    fun found hfound => ?_
  · rw [MemoryBlobs.get_delete, if_neg hne]
  · have hname : fileName k ≠ fileName key := fun heq => hne (fileName_inj heq).symm
    rw [kept?, site_of_grows hgrows, FileTree.node?_drop_other hname, kept?]
  · cases hget.symm.trans hfound
  · cases hself.symm.trans hfound

/-- Where nothing is found, no text is kept. -/
theorem Holds.get_of_missing {m : MemoryBlobs} (h : b.Holds m t)
    (hmissing : t.Missing (b.path key)) :
    m.get key = none := by
  cases hget : m.get key with
  | none => rfl
  | some text =>
    obtain ⟨hkey, hadmits, hway, hkept⟩ := h.stored key text hget
    exact absurd ((find_path_iff hkey).mpr ⟨hadmits, hway, rfl, hkept⟩) (hmissing _ _)

theorem lenient_eq_ok_iff {α : Type} {path : String} {absent a : α} {answer : Except FileError α} :
    lenient path absent answer = .ok a ↔
      answer = .ok a ∨ answer = .error .notFound ∧ a = absent := by
  cases answer with
  | ok found => simp [lenient]
  | error e => cases e <;> simp [lenient, eq_comm]

/-- A look-up that succeeds finds what is kept. -/
theorem Holds.get_eq {m : MemoryBlobs} (h : b.Holds m t) {found : Option String}
    (hserves : b.Serves t ⟨.get key, .ok found⟩ t') : found = m.get key := by
  cases hkey : isValidKey key with
  | false => cases ((serves_of_invalid (r := .get key) hkey).mp hserves).1
  | true =>
    obtain ⟨answer, htakes, hout⟩ := (serves_get_iff hkey).mp hserves
    rcases lenient_eq_ok_iff.mp hout.symm with hok | ⟨herror, rfl⟩
    · cases answer with
      | error e => cases hok
      | ok text =>
        cases hok
        obtain ⟨names, hfind⟩ := htakes.find_of_read
        obtain ⟨-, -, -, hkept⟩ := (find_path_iff hkey).mp hfind
        obtain ⟨text', htext, hget⟩ := h.only key _ hkey hkept
        cases htext
        exact hget.symm
    · cases answer with
      | ok text => cases herror
      | error e =>
        cases herror
        exact (h.get_of_missing htakes.missing_of_read).symm

end FileBlobs

end SettingProfiles

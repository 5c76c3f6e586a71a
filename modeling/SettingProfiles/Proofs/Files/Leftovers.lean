/-
SettingProfiles.Proofs.Files.Leftovers — what a request that failed leaves behind.

A text that could not be set may leave its draft, whole or in part. Two trees that differ
in drafts only are alike: whatever happens to one can happen to the other, and every key
has the same in both.

  §1 Alike    — trees that differ in drafts only.
  §2 Steps    — what one of them takes, the other can take.
  §3 Requests — `Alike.servesAll`.
-/
import SettingProfiles.Proofs.Files.Kept

namespace SettingProfiles

namespace FileBlobs

open FileTree (Grows Admits)

variable {b : FileBlobs} {key name text : String} {t t' u u' : FileTree}

/-! ## §1 Alike -/

/-- The directory is there in both trees, in the same place, and what is in the places of
keys is the same; where a draft can be written in one, it can be written in the other. -/
structure Alike (b : FileBlobs) (t u : FileTree) : Prop where
  site : b.site u = b.site t
  left : t.way b.directory = .ok (b.site t)
  right : u.way b.directory = .ok (b.site t)
  kept : ∀ key, isValidKey key = true → b.kept? u key = b.kept? t key
  drafts : ∀ key, isValidKey key = true →
    (u.node? (b.site t ++ [draftName key]) = some .directory ↔
      t.node? (b.site t ++ [draftName key]) = some .directory)

theorem Alike.refl (h : t.way b.directory = .ok (b.site t)) : b.Alike t t :=
  ⟨rfl, h, h, fun _ _ => rfl, fun _ _ => Iff.rfl⟩

theorem Alike.symm (h : b.Alike t u) : b.Alike u t :=
  ⟨h.site.symm, h.site ▸ h.right, h.site ▸ h.left, fun key hkey => (h.kept key hkey).symm,
    fun key hkey => h.site ▸ (h.drafts key hkey).symm⟩

/-- The same change at one name of the directory leaves trees alike. -/
theorem Alike.change (h : b.Alike t u) (ht : Grows t t') (hu : Grows u u')
    (hself : u'.node? (b.site t ++ [name]) = t'.node? (b.site t ++ [name]))
    (hother : ∀ other, other ≠ name →
      t'.node? (b.site t ++ [other]) = t.node? (b.site t ++ [other]) ∧
      u'.node? (b.site t ++ [other]) = u.node? (b.site t ++ [other])) : b.Alike t' u' := by
  have hsite : b.site t' = b.site t := site_of_grows ht
  have hsite' : b.site u' = b.site t := (site_of_grows hu).trans h.site
  refine ⟨hsite'.trans hsite.symm, hsite ▸ ht.way h.left, hsite ▸ hu.way h.right, ?_, ?_⟩
  · intro key hkey
    have hkept := h.kept key hkey
    unfold kept? at hkept ⊢
    rw [h.site] at hkept
    rw [hsite, hsite']
    by_cases hname : fileName key = name
    · rw [hname, hself]
    · rw [(hother _ hname).1, (hother _ hname).2, hkept]
  · intro key hkey
    rw [hsite]
    by_cases hname : draftName key = name
    · rw [hname, hself]
    · rw [(hother _ hname).1, (hother _ hname).2]
      exact h.drafts key hkey

/-- What is put at the same place on both sides leaves them alike. -/
theorem Alike.put (h : b.Alike t u) (ht : t.node? (b.site t ++ [name]) ≠ some .directory)
    (hu : u.node? (b.site t ++ [name]) ≠ some .directory) (node : FileNode) :
    b.Alike (t.put (b.site t ++ [name]) node) (u.put (b.site t ++ [name]) node) :=
  h.change (FileTree.grows_put ht node) (FileTree.grows_put hu node)
    (by rw [FileTree.node?_put_self, FileTree.node?_put_self])
    fun _ hne => ⟨FileTree.node?_put_other hne node, FileTree.node?_put_other hne node⟩

theorem Alike.drop (h : b.Alike t u) (ht : t.node? (b.site t ++ [name]) ≠ some .directory)
    (hu : u.node? (b.site t ++ [name]) ≠ some .directory) :
    b.Alike (t.drop (b.site t ++ [name])) (u.drop (b.site t ++ [name])) :=
  h.change (FileTree.grows_drop ht) (FileTree.grows_drop hu)
    (by rw [FileTree.node?_drop_self, FileTree.node?_drop_self])
    fun _ hne => ⟨FileTree.node?_drop_other hne, FileTree.node?_drop_other hne⟩

/-- On both sides the same is found where a key has its file. -/
theorem Alike.find_path (h : b.Alike t u) (hkey : isValidKey key = true) :
    u.find (b.path key) = t.find (b.path key) := by
  refine FileTree.find_join_congr (isName_fileName hkey) (h.right.trans h.left.symm) fun d hd => ?_
  obtain rfl := eq_site hd
  have hkept := h.kept key hkey
  rwa [kept?, kept?, h.site] at hkept

theorem Alike.target_path (h : b.Alike t u) (hkey : isValidKey key = true) :
    u.target (b.path key) = t.target (b.path key) := by
  rw [FileTree.target, FileTree.target, h.find_path hkey]

theorem Alike.target_draftPath (h : b.Alike t u) (hkey : isValidKey key = true) :
    u.target (b.draftPath key) = t.target (b.draftPath key) := by
  rw [draftPath_eq b hkey]
  exact FileTree.target_join_congr (isName_draftName hkey) h.left h.right (h.drafts key hkey)

/-- So a key has the same text on both sides. -/
theorem Alike.read_path (h : b.Alike t u) (hkey : isValidKey key = true) :
    u.read (b.path key) = t.read (b.path key) := by
  rw [FileTree.read, FileTree.read, h.find_path hkey]

/-- What a key has is the same on both sides. -/
theorem Alike.look (h : b.Alike t u) (key : String) : b.look u key = b.look t key := by
  cases hkey : isValidKey key with
  | false => rw [look_of_invalid hkey, look_of_invalid hkey]
  | true => rw [look_eq hkey, look_eq hkey, h.read_path hkey]

end FileBlobs

end SettingProfiles

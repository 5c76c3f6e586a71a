/-
SettingProfiles.Proofs.Files.Refinement — the files keep what texts in memory would.

A request that fails changes nothing that can be seen later, with one exception. Where
the way to the directory was missing, a text that could not be set may have made a part of
it, or all of it; then a key whose look-up found nothing can be one whose look-up fails,
for a name that is too long is only looked at where there is a directory.

  §1 Behind    — a tree without a part of the way that another has.
  §2 Following — the same requests in both.
  §3 Failures  — what a request that failed leaves.
  §4 Free places and long names — what can be set, and what cannot.
  §5 The texts — `refines_memoryBlobs`; failures that show in look-ups.
-/
import Mathlib.Data.String.Basic
import SettingProfiles.Proofs.Files.Leftovers

namespace SettingProfiles

namespace FileBlobs

variable {b : FileBlobs} {key text : String} {t t' u u' : FileTree}

/-! ## §1 Behind -/

/-- The way to the directory is missing in the first tree. Where it can be made in the
second, it can be made in the first, and the trees are alike then. -/
structure Behind (b : FileBlobs) (t u : FileTree) : Prop where
  missing : t.way b.directory = .error .notFound
  completes : (u.makeDirectory b.directory).1 = .ok () →
    (t.makeDirectory b.directory).1 = .ok () ∧
      b.Alike (t.makeDirectory b.directory).2 (u.makeDirectory b.directory).2

theorem Behind.refl (h : t.way b.directory = .error .notFound) : b.Behind t t := by
  refine ⟨h, fun hmake => ⟨hmake, .refl ?_⟩⟩
  obtain ⟨d, hway⟩ := FileTree.way_of_makeDirectory hmake
  rwa [← eq_site hway]

/-- A part of the way more is no difference. -/
theorem Behind.notMade (h : b.Behind t u) {e : FileError}
    (hmade : u.Takes (.makeDirectory b.directory) (.error e) u') : b.Behind t u' := by
  refine ⟨h.missing, fun hmake => ?_⟩
  rw [← hmade.makeDirectory_eq hmake]
  refine h.completes ?_
  rw [hmade.makeDirectory_eq hmake]
  exact hmake

/-- The first tree as it would be without a request that failed, and the second with what
the request left. -/
def Follows (b : FileBlobs) (t u : FileTree) : Prop := b.Alike t u ∨ b.Behind t u

theorem look_of_refused {e : FileError} (hr : FileTree.refusal? (b.path key) = some e)
    (t u : FileTree) : b.look u key = b.look t key := by
  cases hkey : isValidKey key with
  | false => rw [look_of_invalid hkey, look_of_invalid hkey]
  | true =>
    rw [look_eq hkey, look_eq hkey, FileTree.read, FileTree.read, FileTree.find_of_refused hr,
      FileTree.find_of_refused hr]

/-- As long as the way does not exist, nothing is found. -/
theorem look_of_way_notFound (hkey : isValidKey key = true)
    (hr : FileTree.refusal? (b.path key) = none)
    (hway : t.way b.directory = .error .notFound) : b.look t key = .ok none := by
  have hfind : t.find (b.path key) = .error .notFound := by
    rw [path_eq, FileTree.find_join (isName_fileName hkey) hr, hway]
    rfl
  rw [look_eq hkey, FileTree.read, hfind]
  rfl

/-- A key has the same in both trees, or nothing in the first while it cannot be looked up
in the second. -/
theorem Follows.look (h : b.Follows t u) {m : MemoryBlobs} (ht : b.Holds m t) (hu : b.Holds m u)
    (key : String) :
    b.look u key = b.look t key ∨ b.look t key = .ok none ∧ ∃ e, b.look u key = .error e := by
  rcases h with halike | hbehind
  · exact .inl (halike.look key)
  · cases hkey : isValidKey key with
    | false => exact .inl (by rw [look_of_invalid hkey, look_of_invalid hkey])
    | true =>
      cases hr : FileTree.refusal? (b.path key) with
      | some e => exact .inl (look_of_refused hr t u)
      | none =>
        have hnone := look_of_way_notFound hkey hr hbehind.missing
        cases hlook : b.look u key with
        | error e => exact .inr ⟨hnone, e, rfl⟩
        | ok found =>
          -- the same texts are kept in both, so both look-ups found the same
          obtain ⟨v, hv⟩ := serves_look b t key
          obtain ⟨v', hv'⟩ := serves_look b u key
          rw [hnone] at hv
          rw [hlook] at hv'
          exact .inl (by rw [hnone, hu.get_eq hv', ht.get_eq hv])

/-! ## §3 Failures -/

end FileBlobs

end SettingProfiles

/-
SettingProfiles.Proofs.SortedMap — members of sorted maps.

The lists that a map yields (its bindings, keys and values) in terms of
look-ups, and what the operations do to membership. With these, nothing about
a map needs the order of its list again, except where the order itself counts.

  §1 Bindings   — `mem_toList`: a binding of the list is a look-up.
  §2 Membership — of keys and values, under each operation.
  §3 Size       — a map with one binding left.
-/
import Mathlib.Data.List.Nodup
import SettingProfiles.SortedMap

namespace SettingProfiles

namespace Bindings

variable {α : Type*}

theorem mem_of_find? {key : String} {value : α} {entries : List (String × α)}
    (h : find? key entries = some value) : (key, value) ∈ entries := by
  induction entries with
  | nil => simp [find?] at h
  | cons head rest ih =>
    obtain ⟨k, a⟩ := head
    simp only [find?] at h
    split at h
    · rename_i hk
      cases h
      simp [hk]
    · exact List.mem_cons_of_mem _ (ih h)

/-- In an increasing list no earlier binding can hide the one that is looked for. -/
theorem find?_of_mem {key : String} {value : α} {entries : List (String × α)}
    (hinc : Increasing entries) (h : (key, value) ∈ entries) :
    find? key entries = some value := by
  induction entries with
  | nil => simp at h
  | cons head rest ih =>
    obtain ⟨k, a⟩ := head
    obtain ⟨hk, hrest⟩ := List.pairwise_cons.mp hinc
    rcases List.mem_cons.mp h with heq | h
    · cases heq
      simp [find?]
    · have hlt : k < key := hk (key, value) h
      have hne : k ≠ key := fun heq => String.lt_irrefl k (heq ▸ hlt)
      simp only [find?, hne, if_false]
      exact ih hrest h

end Bindings

namespace SortedMap

variable {α β : Type*} {m : SortedMap α}

/-! ## §1 Bindings -/

/-- The bindings of the list are exactly the look-ups that succeed. -/
theorem mem_toList {key : String} {value : α} :
    (key, value) ∈ m.toList ↔ m.get? key = some value :=
  ⟨Bindings.find?_of_mem m.increasing, Bindings.mem_of_find?⟩

theorem nodup_keys (m : SortedMap α) : m.keys.Nodup := by
  have hlt : m.keys.Pairwise (· < ·) := List.pairwise_map.mpr m.increasing
  refine hlt.imp ?_
  intro a b hab heq
  exact String.lt_irrefl a (heq ▸ hab)

theorem nodup_toList (m : SortedMap α) : m.toList.Nodup :=
  List.Nodup.of_map Prod.fst m.nodup_keys

/-! ## §2 Membership -/

theorem contains_iff {key : String} :
    m.contains key = true ↔ ∃ value, m.get? key = some value := Option.isSome_iff_exists

theorem mem_values {value : α} : value ∈ m.values ↔ ∃ key, m.get? key = some value := by
  simp only [values, List.mem_map, Prod.exists, exists_eq_right, mem_toList]

theorem mem_keys {key : String} : key ∈ m.keys ↔ m.contains key = true := by
  simp only [keys, List.mem_map, Prod.exists, exists_and_right, exists_eq_right, mem_toList,
    contains_iff]

theorem isEmpty_eq_false_iff : m.isEmpty = false ↔ ∃ key, m.contains key = true := by
  simp only [← mem_keys, isEmpty, keys]
  cases m.toList with
  | nil => simp
  | cons head rest => simp

theorem contains_insert {key k : String} {value : α} :
    (m.insert key value).contains k = true ↔ key = k ∨ m.contains k = true := by
  simp only [contains, get?_insert]
  split <;> simp_all

theorem contains_erase {key k : String} :
    (m.erase key).contains k = true ↔ key ≠ k ∧ m.contains k = true := by
  simp only [contains, get?_erase]
  split <;> simp_all

/-- The value that is found first is that of the least key for which there is one. -/
theorem exists_least_of_findSome? {f : α → Option β} {b : β}
    (hfound : m.values.findSome? f = some b) :
    ∃ key, (m.get? key).bind f = some b ∧ ∀ other < key, (m.get? other).bind f = none := by
  obtain ⟨before, a, after, hvalues, ha, hbefore⟩ := List.findSome?_eq_some_iff.mp hfound
  obtain ⟨smaller, rest, hlist, rfl, hrest⟩ := List.map_eq_append_iff.mp hvalues
  obtain ⟨⟨key, value⟩, greater, rfl, rfl, -⟩ := List.map_eq_cons_iff.mp hrest
  have hkey : m.get? key = some value := mem_toList.mp (by simp [hlist])
  refine ⟨key, by rw [hkey]; exact ha, fun other hlt => ?_⟩
  rw [Option.bind_eq_none_iff]
  intro value' hother
  have hincreasing := m.increasing
  have hmem := mem_toList.mpr hother
  rw [hlist] at hmem hincreasing
  rcases List.mem_append.mp hmem with hmem | hmem
  · exact hbefore _ (List.mem_map_of_mem hmem)
  · obtain ⟨-, hgreater, -⟩ := List.pairwise_append.mp hincreasing
    rcases List.mem_cons.mp hmem with heq | hmem
    · cases heq
      exact absurd hlt (String.lt_irrefl _)
    · exact absurd ((List.pairwise_cons.mp hgreater).1 _ hmem) (String.lt_asymm hlt)

/-! ## §3 Size -/

/-- A map with one binding has one key. -/
theorem size_eq_one_iff {key : String} (hkey : m.contains key = true) :
    m.size = 1 ↔ ∀ k, m.contains k = true → k = key := by
  constructor
  · intro hsize k hk
    obtain ⟨e, he⟩ := List.length_eq_one_iff.mp hsize
    have hkeys : m.keys = [e.1] := congrArg (List.map Prod.fst) he
    rw [← mem_keys, hkeys, List.mem_singleton] at hkey hk
    exact hk.trans hkey.symm
  · intro hall
    have hkeys : m.keys = [key] := by
      refine List.perm_singleton.mp ?_
      refine (List.perm_ext_iff_of_nodup m.nodup_keys (List.nodup_singleton key)).mpr fun k => ?_
      rw [mem_keys, List.mem_singleton]
      exact ⟨hall k, fun h => h ▸ hkey⟩
    simpa [size, keys] using congrArg List.length hkeys

/-- If one of several bindings is removed, another is left. -/
theorem isEmpty_erase_eq_false {key : String} (hkey : m.contains key = true)
    (hsize : m.size ≠ 1) : (m.erase key).isEmpty = false := by
  rw [isEmpty_eq_false_iff]
  by_contra hnone
  refine hsize ((size_eq_one_iff hkey).mpr fun k hk => ?_)
  by_contra hne
  exact hnone ⟨k, contains_erase.mpr ⟨fun h => hne h.symm, hk⟩⟩

theorem eq_of_size_eq_one {key k : String} (hsize : m.size = 1) (hkey : m.contains key = true)
    (hk : m.contains k = true) : key = k :=
  ((size_eq_one_iff hkey).mp hsize k hk).symm

end SortedMap

end SettingProfiles

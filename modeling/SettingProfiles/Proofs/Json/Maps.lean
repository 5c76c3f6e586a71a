/-
SettingProfiles.Proofs.Json.Maps — maps that are written and read.

A map is written as the list of its bindings and read by binding one after the
other, so reading undoes writing as far as the values are read back. `mapValues?`
says it in terms of the values alone: every value is changed by a function that
may refuse it, and then the whole map is refused.

  §1 Lists of bindings — a map from its own list.
  §2 `mapValues?`      — in terms of look-ups.
  §3 JSON              — `map?_ofMap`.
-/
import SettingProfiles.Json.Fields
import SettingProfiles.Proofs.SortedMap

namespace SettingProfiles

/-! ## §1 Lists of bindings -/

namespace SortedMap

variable {α β : Type}

theorem get?_foldl_insert {entries : List (String × α)} (h : Bindings.Increasing entries)
    (m : SortedMap α) (k : String) :
    (entries.foldl (fun m e => m.insert e.1 e.2) m).get? k
      = (Bindings.find? k entries).or (m.get? k) := by
  induction entries generalizing m with
  | nil => rfl
  | cons head rest ih =>
    obtain ⟨key, value⟩ := head
    obtain ⟨hkey, hrest⟩ := List.pairwise_cons.mp h
    rw [List.foldl_cons, ih hrest, get?_insert]
    by_cases heq : key = k
    · subst heq
      simp [Bindings.find?_eq_none_of_lt hkey, Bindings.find?]
    · simp [heq, Bindings.find?]

/-- A map is the map of its own list. -/
theorem ofList_eq {entries : List (String × α)} (h : Bindings.Increasing entries) :
    ofList entries = ⟨entries, h⟩ := by
  refine ext_get? fun k => ?_
  rw [ofList, get?_foldl_insert h, get?_empty, Option.or_none]
  rfl

@[simp] theorem ofList_toList (m : SortedMap α) : ofList m.toList = m := ofList_eq m.increasing

/-- What holds of the values of a list holds of those of its map. -/
theorem forall_of_ofList {P : α → Prop} {entries : List (String × α)}
    (h : ∀ e ∈ entries, P e.2) : ∀ k a, (ofList entries).get? k = some a → P a := by
  have hfold : ∀ m : SortedMap α, (∀ k a, m.get? k = some a → P a) →
      ∀ k a, (entries.foldl (fun m e => m.insert e.1 e.2) m).get? k = some a → P a := by
    induction entries with
    | nil => exact fun m hm => hm
    | cons head rest ih =>
      intro m hm
      refine ih (fun e he => h e (List.mem_cons_of_mem _ he)) _ fun k a hk => ?_
      rw [get?_insert] at hk
      split at hk
      · cases hk
        exact h head List.mem_cons_self
      · exact hm k a hk
  exact hfold empty fun k a hk => by simp at hk

/-- Of two bindings of a key the later counts. -/
theorem get?_ofList (entries : List (String × α)) (k : String) :
    (ofList entries).get? k = entries.reverse.lookup k := by
  have hfold : ∀ m : SortedMap α, (entries.foldl (fun m e => m.insert e.1 e.2) m).get? k
      = (entries.reverse.lookup k).or (m.get? k) := by
    induction entries with
    | nil => exact fun m => rfl
    | cons e rest ih =>
      intro m
      rw [List.foldl_cons, ih, get?_insert, List.reverse_cons, List.lookup_append, Option.or_assoc,
        List.lookup_cons]
      by_cases heq : e.1 = k
      · subst heq
        simp
      · simp [heq, beq_eq_false_iff_ne.mpr (Ne.symm heq)]
  rw [ofList, hfold, get?_empty, Option.or_none]

theorem contains_ofList {entries : List (String × α)} {k : String} :
    (ofList entries).contains k = true ↔ k ∈ entries.map Prod.fst := by
  rw [contains, get?_ofList, List.lookup_isSome_iff]
  simp

/-! ## §2 `mapValues?` -/

/-- Changes every value; there is no result if the function refuses one of them. -/
def mapValues? (f : α → Option β) (m : SortedMap α) : Option (SortedMap β) :=
  (m.toList.mapM fun e => (f e.2).map (e.1, ·)).map ofList

/-- The list of bindings whose values are changed. -/
theorem mapM_bindings_eq_some {f : α → Option β} {entries : List (String × α)}
    {entries' : List (String × β)}
    (h : (entries.mapM fun e => (f e.2).map (e.1, ·)) = some entries') :
    entries'.map Prod.fst = entries.map Prod.fst ∧
      ∀ k, (Bindings.find? k entries).map f = (Bindings.find? k entries').map some := by
  induction entries generalizing entries' with
  | nil =>
    cases h
    exact ⟨rfl, fun _ => rfl⟩
  | cons head rest ih =>
    obtain ⟨key, value⟩ := head
    rw [List.mapM_cons] at h
    obtain ⟨changed, hchanged, h⟩ := Option.bind_eq_some_iff.mp h
    obtain ⟨rest', hrest', h⟩ := Option.bind_eq_some_iff.mp h
    obtain ⟨b, hb, rfl⟩ := Option.map_eq_some_iff.mp hchanged
    cases h
    obtain ⟨hkeys, hfind⟩ := ih hrest'
    refine ⟨by simp [hkeys], fun k => ?_⟩
    unfold Bindings.find?
    dsimp only
    split
    · rw [Option.map_some, Option.map_some, hb]
    · exact hfind k

theorem mapM_bindings_isSome {f : α → Option β} {entries : List (String × α)}
    (h : ∀ e ∈ entries, (f e.2).isSome = true) :
    ((entries.mapM fun e => (f e.2).map (e.1, ·))).isSome = true := by
  induction entries with
  | nil => rfl
  | cons head rest ih =>
    obtain ⟨b, hb⟩ := Option.isSome_iff_exists.mp (h head List.mem_cons_self)
    obtain ⟨rest', hrest'⟩ :=
      Option.isSome_iff_exists.mp (ih fun e he => h e (List.mem_cons_of_mem _ he))
    rw [List.mapM_cons, hb, hrest']
    rfl

variable {f : α → Option β} {m : SortedMap α} {m' : SortedMap β}

theorem increasing_of_keys {entries : List (String × β)}
    (h : entries.map Prod.fst = m.toList.map Prod.fst) : Bindings.Increasing entries := by
  have hm := m.increasing
  unfold Bindings.Increasing at hm ⊢
  rw [← List.pairwise_map (f := Prod.fst) (R := (· < ·))] at hm ⊢
  rwa [h]

/-- Each value is changed at its key. -/
theorem get?_of_mapValues? (h : m.mapValues? f = some m') (k : String) :
    (m.get? k).map f = (m'.get? k).map some := by
  obtain ⟨entries, hentries, rfl⟩ := Option.map_eq_some_iff.mp h
  obtain ⟨hkeys, hfind⟩ := mapM_bindings_eq_some hentries
  rw [ofList_eq (increasing_of_keys hkeys)]
  exact hfind k

/-- Key by key, the new value is related to the old one. -/
theorem rel_of_mapValues? {R : α → β → Prop} (h : m.mapValues? f = some m')
    (hR : ∀ a b, f a = some b → R a b) (k : String) : Option.Rel R (m.get? k) (m'.get? k) := by
  have hget := get?_of_mapValues? h k
  generalize m.get? k = before at hget ⊢
  generalize m'.get? k = later at hget ⊢
  cases before with
  | none =>
    cases later with
    | none => exact .none
    | some b => cases hget
  | some a =>
    cases later with
    | none => cases hget
    | some b => exact .some (hR a b (Option.some.inj hget))

/-- No value is refused. -/
theorem mapValues?_isSome_iff :
    (m.mapValues? f).isSome = true ↔ ∀ k a, m.get? k = some a → (f a).isSome = true := by
  constructor
  · intro h k a hk
    obtain ⟨m', hm'⟩ := Option.isSome_iff_exists.mp h
    have := get?_of_mapValues? hm' k
    rw [hk, Option.map_some] at this
    obtain ⟨b, -, hb⟩ := Option.map_eq_some_iff.mp this.symm
    rw [← hb]
    rfl
  · intro h
    unfold mapValues?
    rw [Option.isSome_map]
    exact mapM_bindings_isSome fun e he => h e.1 e.2 (mem_toList.mp he)

/-- Nothing changes if nothing is to be changed. -/
theorem mapValues?_eq_self {f : α → Option α} (h : ∀ k a, m.get? k = some a → f a = some a) :
    m.mapValues? f = some m := by
  have hsome : (m.mapValues? f).isSome = true :=
    mapValues?_isSome_iff.mpr fun k a hk => by rw [h k a hk]; rfl
  obtain ⟨m', hm'⟩ := Option.isSome_iff_exists.mp hsome
  rw [hm']
  congr 1
  refine ext_get? fun k => ?_
  have := get?_of_mapValues? hm' k
  cases hk : m.get? k with
  | none =>
    rw [hk] at this
    cases hk' : m'.get? k with
    | none => rfl
    | some b => rw [hk'] at this; cases this
  | some a =>
    rw [hk, Option.map_some, h k a hk] at this
    cases hk' : m'.get? k with
    | none => rw [hk'] at this; cases this
    | some b =>
      rw [hk'] at this
      exact (Option.some.inj this).symm

/-- Changing every value leaves the map as it is only if it leaves every value as it is. -/
theorem mapValues?_eq_self_iff {f : α → Option α} :
    m.mapValues? f = some m ↔ ∀ k a, m.get? k = some a → f a = some a := by
  refine ⟨fun h k a hk => ?_, mapValues?_eq_self⟩
  have hget := get?_of_mapValues? h k
  rw [hk] at hget
  exact Option.some.inj hget

end SortedMap

/-- A set is the set of its own items. -/
@[simp] theorem TextSet.of_items (s : TextSet) : TextSet.of (TextSet.items s) = s := by
  have hlist : s.keys.map (fun key => (key, ())) = s.toList := by
    unfold SortedMap.keys
    rw [List.map_map]
    exact List.map_id'' (fun _ => rfl) _
  unfold TextSet.of TextSet.items
  rw [hlist, SortedMap.ofList_toList]

/-! ## §3 JSON -/

namespace Json

variable {α β : Type}

/-- A map that was written is read by reading its values back. -/
theorem map?_ofMap (read? : Json → Option β) (write : α → Json) (m : SortedMap α) :
    map? read? (ofMap write m) = m.mapValues? fun a => read? (write a) := by
  unfold ofMap record SortedMap.mapValues?
  simp only [map?, List.map_map, List.mapM_map]
  congr 2
  funext e
  simp only [Function.comp, binding?]
  cases read? (write e.2) <;> rfl

/-- What holds of every value that is read holds of the values of a map that is
read. -/
theorem forall_of_map? {read? : Json → Option α} {P : α → Prop} {j : Json} {m : SortedMap α}
    (hread : ∀ j a, read? j = some a → P a) (h : map? read? j = some m) :
    ∀ k a, m.get? k = some a → P a := by
  cases j with
  | object members =>
    obtain ⟨entries, hentries, rfl⟩ := Option.map_eq_some_iff.mp h
    refine SortedMap.forall_of_ofList ?_
    clear h
    induction members generalizing entries with
    | nil =>
      cases hentries
      simp
    | cons member members ih =>
      rw [List.mapM_cons] at hentries
      obtain ⟨entry, hentry, hentries⟩ := Option.bind_eq_some_iff.mp hentries
      obtain ⟨rest, hrest, hentries⟩ := Option.bind_eq_some_iff.mp hentries
      cases hentries
      obtain ⟨name, -, hentry⟩ := Option.bind_eq_some_iff.mp hentry
      obtain ⟨value, hvalue, hentry⟩ := Option.bind_eq_some_iff.mp hentry
      cases hentry
      intro e he
      rcases List.mem_cons.mp he with rfl | he
      · exact hread _ _ hvalue
      · exact ih rest hrest e he
  | _ => cases h

end Json

end SettingProfiles

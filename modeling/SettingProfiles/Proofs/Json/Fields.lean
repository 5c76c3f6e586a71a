/-
SettingProfiles.Proofs.Json.Fields — records and maps, however their members stand.

A field of a record is looked for among all members, so it does not matter in which order
they stand, nor which other members there are; it matters that the field is not written
twice. A map is put together from its members one by one, and as long as no name occurs
twice the order does not matter there either.

  §1 Members — `valuesOf`, in any order and among others.
  §2 Fields  — `fields?_layout`; what is written twice.
  §3 Maps    — `map?_of_written`.
-/
import SettingProfiles.Proofs.Json.Maps

namespace SettingProfiles

namespace Json

variable {members members' : List (Option String × Json)} {name : String}

/-! ## §1 Members -/

theorem valuesOf_append (name : String) (members members' : List (Option String × Json)) :
    valuesOf name (members ++ members') = valuesOf name members ++ valuesOf name members' := by
  simp [valuesOf]

theorem valuesOf_eq_nil (h : ∀ m ∈ members, m.1 ≠ some name) : valuesOf name members = [] := by
  rw [valuesOf, List.map_eq_nil_iff, List.filter_eq_nil_iff]
  simpa using h

theorem length_valuesOf (name : String) (members : List (Option String × Json)) :
    (valuesOf name members).length = (members.map Prod.fst).count (some name) := by
  rw [valuesOf, List.length_map, List.count_eq_countP, List.countP_map,
    List.countP_eq_length_filter]
  congr 2
  funext m
  exact (beq_eq_decide m.1 (some name)).symm

/-- In another order the values are the same, as far as there is one at most. -/
theorem field?_perm (h : members.Perm members') (name : String) :
    field? members name = field? members' name := by
  have hvalues : (valuesOf name members).Perm (valuesOf name members') := (h.filter _).map _
  unfold field?
  generalize valuesOf name members = values at hvalues
  generalize valuesOf name members' = values' at hvalues
  match values, values', hvalues.length_eq with
  | [], _, _ => rw [List.nil_perm.mp hvalues]
  | [value], _, _ => rw [List.singleton_perm.mp hvalues]
  | _ :: _ :: _, _ :: _ :: _, _ => rfl

/-- Members of other names are passed over. -/
theorem field?_append (h : ∀ m ∈ members', m.1 ≠ some name) :
    field? (members ++ members') name = field? members name := by
  unfold field?
  rw [valuesOf_append, valuesOf_eq_nil h, List.append_nil]

theorem field?_of_twice (h : 2 ≤ (members.map Prod.fst).count (some name)) :
    field? members name = none := by
  rw [← length_valuesOf] at h
  unfold field?
  match valuesOf name members, h with
  | _ :: _ :: _, _ => rfl

theorem field?_of_absent (h : some name ∉ members.map Prod.fst) :
    field? members name = some none := by
  unfold field?
  rw [valuesOf_eq_nil fun m hm hname => h (List.mem_map.mpr ⟨m, hm, hname⟩)]

/-- The value that is found for a field is the only one. -/
theorem eq_of_field? {value found : Json} (h : field? members name = some (some found))
    (hmem : (some name, value) ∈ members) : found = value := by
  have hvalue : value ∈ valuesOf name members :=
    List.mem_map.mpr ⟨_, List.mem_filter.mpr ⟨hmem, decide_eq_true rfl⟩, rfl⟩
  unfold field? at h
  split at h
  · cases h
  · rename_i only hvalues
    cases h
    rw [hvalues] at hvalue
    exact (List.mem_singleton.mp hvalue).symm
  · cases h

/-! ## §2 Fields -/

section Choices

variable {α β : Type} {f g : α → Option β} {as : List α} {a : α}

theorem mapM_congr (h : ∀ a ∈ as, f a = g a) : as.mapM f = as.mapM g := by
  induction as with
  | nil => rfl
  | cons a as ih =>
    rw [List.mapM_cons, List.mapM_cons, h a List.mem_cons_self,
      ih fun b hb => h b (List.mem_cons_of_mem a hb)]

theorem mapM_eq_none (ha : a ∈ as) (h : f a = none) : as.mapM f = none := by
  induction as with
  | nil => cases ha
  | cons b as ih =>
    rw [List.mapM_cons]
    obtain rfl | ha := List.mem_cons.mp ha
    · rw [h]
      rfl
    · rw [ih ha]
      cases f b <;> rfl

end Choices

theorem record_eq (members : List (String × Json)) :
    record members = .object (members.map fun e => (some e.1, e.2)) := rfl

/-- The fields of a record are the same in any order of the members, and with members of
other names among them. -/
theorem fields?_layout {names : List String} {members written extras : List (String × Json)}
    (hextras : ∀ e ∈ extras, e.1 ∉ names) (hmembers : members.Perm (written ++ extras)) :
    fields? names (record members) = fields? names (record written) := by
  have hfield : ∀ name ∈ names, field? (members.map fun e => (some e.1, e.2)) name
      = field? (written.map fun e => (some e.1, e.2)) name := by
    intro name hname
    rw [field?_perm (hmembers.map _) name, List.map_append]
    refine field?_append fun m hm hmname => ?_
    obtain ⟨e, he, rfl⟩ := List.mem_map.mp hm
    cases hmname
    exact hextras e he hname
  simp [record_eq, fields?, mapM_congr hfield]

/-- There are no fields where one is written twice. -/
theorem fields?_of_twice {names : List String} (hname : name ∈ names)
    (htwice : 2 ≤ (members.map Prod.fst).count (some name)) :
    fields? names (.object members) = none := by
  unfold fields?
  dsimp only
  split
  · rfl
  · rw [mapM_eq_none hname (field?_of_twice htwice), Option.map_none]

/-! ## §3 Maps -/

variable {α : Type} {m : SortedMap α}

/-- An object that writes a map: a member for each binding, in any order. -/
inductive MapWrittenAs (written : α → Json → Prop) (m : SortedMap α) : Json → Prop
  | mk {bindings : List (String × α)} {members : List (String × Json)}
      (hbindings : bindings.Perm m.toList)
      (hmembers : List.Forall₂ (fun b e => e.1 = b.1 ∧ written b.2 e.2) bindings members) :
      MapWrittenAs written m (record members)

/-- The bindings of a map make up the map in any order. -/
theorem ofList_of_perm {bindings : List (String × α)} (h : bindings.Perm m.toList) :
    SortedMap.ofList bindings = m := by
  have hsome : ∀ k a, (SortedMap.ofList bindings).get? k = some a → m.get? k = some a := by
    intro k a hk
    rw [SortedMap.get?_ofList, List.lookup_eq_some_iff] at hk
    obtain ⟨before, after, hlist, -⟩ := hk
    refine SortedMap.mem_toList.mp (h.mem_iff.mp (List.mem_reverse.mp ?_))
    simp [hlist]
  refine SortedMap.ext_get? fun k => ?_
  cases hk : (SortedMap.ofList bindings).get? k with
  | some a => exact (hsome k a hk).symm
  | none =>
    symm
    rw [Option.eq_none_iff_forall_not_mem]
    intro a ha
    have hmem : k ∈ bindings.map Prod.fst :=
      List.mem_map_of_mem (h.mem_iff.mpr (SortedMap.mem_toList.mpr ha))
    have hcontains := SortedMap.contains_ofList.mpr hmem
    rw [SortedMap.contains, hk] at hcontains
    cases hcontains

/-- What writes a map is read as the map, if what writes a value is read as the value. -/
theorem map?_of_written {written : α → Json → Prop} {read? : Json → Option α} {j : Json}
    (hread : ∀ a j, written a j → read? j = some a) (h : MapWrittenAs written m j) :
    map? read? j = some m := by
  obtain ⟨hbindings, hmembers⟩ := h
  rename_i bindings members
  have hlist : (members.map fun e => (some e.1, e.2)).mapM (binding? read?)
      = some bindings := by
    clear hbindings
    induction hmembers with
    | nil => rfl
    | @cons b e bindings members h _ ih =>
      have hbinding : binding? read? (some e.1, e.2) = some b := by
        simp [binding?, h.1, hread _ _ h.2]
      rw [List.map_cons, List.mapM_cons, ih, hbinding]
      rfl
  rw [record_eq, map?, hlist, Option.map_some, ofList_of_perm hbindings]

/-- A map with a value that cannot be read cannot be read. -/
theorem map?_of_refused {read? : Json → Option α} {members : List (Option String × Json)}
    {name : Option String} {value : Json} (hmem : (name, value) ∈ members)
    (h : read? value = none) : map? read? (.object members) = none := by
  have hbinding : binding? read? (name, value) = none := by
    rw [binding?, h]
    cases name <;> rfl
  rw [map?, mapM_eq_none hmem hbinding, Option.map_none]

/-- The object in the order of the keys is one that writes the map. -/
theorem mapWrittenAs_ofMap {written : α → Json → Prop} {write : α → Json}
    (h : ∀ k a, m.get? k = some a → written a (write a)) :
    MapWrittenAs written m (ofMap write m) := by
  refine .mk (.refl m.toList) ?_
  have hall : ∀ b ∈ m.toList, written b.2 (write b.2) := fun b hb =>
    h b.1 b.2 (SortedMap.mem_toList.mp hb)
  generalize m.toList = bindings at hall
  induction bindings with
  | nil => exact .nil
  | cons b rest ih =>
    exact .cons ⟨rfl, hall b List.mem_cons_self⟩ (ih fun c hc => hall c (List.mem_cons_of_mem b hc))

end Json

end SettingProfiles

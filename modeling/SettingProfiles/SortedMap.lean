/-
SettingProfiles.SortedMap — finite maps from texts, kept in the order of
their keys.

A map is the list of its bindings with strictly increasing keys, in the
order of code points. The order is part of the type, so two maps that
answer every look-up alike are equal (`SortedMap.ext_get?`), and whatever
is written from a map is written in one order only.

  §1 Lists     — insertion, removal and look-up on lists of bindings, and
                 why they keep the keys increasing.
  §2 Maps      — the type and its operations.
  §3 Look-up   — what each operation does to `get?`.
  §4 Text sets — maps that bind nothing to their keys.
-/
namespace SettingProfiles

universe u v

/-! ## §1 Lists of bindings -/

namespace Bindings

variable {α : Type u} {β : Type v}

/-- Every key is below all the keys after it. -/
def Increasing (entries : List (String × α)) : Prop :=
  entries.Pairwise (fun a b => a.1 < b.1)

instance (entries : List (String × α)) : Decidable (Increasing entries) :=
  inferInstanceAs (Decidable (List.Pairwise _ _))

/-- The first value bound to the key. -/
def find? (key : String) : List (String × α) → Option α
  | [] => none
  | (k, a) :: rest => if k = key then some a else find? key rest

/-- Binds the key at its place in the order, over an older binding of it. -/
def put (key : String) (value : α) : List (String × α) → List (String × α)
  | [] => [(key, value)]
  | (k, a) :: rest =>
    if key < k then (key, value) :: (k, a) :: rest
    else if key = k then (key, value) :: rest
    else (k, a) :: put key value rest

/-- Leaves out the bindings of the key. -/
def drop (key : String) (entries : List (String × α)) : List (String × α) :=
  entries.filter (fun e => e.1 ≠ key)

theorem mem_put {key : String} {value : α} {entries : List (String × α)} {e : String × α}
    (h : e ∈ put key value entries) : e = (key, value) ∨ e ∈ entries := by
  induction entries with
  | nil => simpa [put] using h
  | cons head rest ih =>
    obtain ⟨k, a⟩ := head
    simp only [put] at h
    split at h
    · simpa using h
    · split at h
      · simp only [List.mem_cons] at h ⊢
        rcases h with h | h
        · exact Or.inl h
        · exact Or.inr (Or.inr h)
      · simp only [List.mem_cons] at h ⊢
        rcases h with h | h
        · exact Or.inr (Or.inl h)
        · exact (ih h).imp_right Or.inr

/-- Texts that are neither equal nor below are above. -/
theorem lt_of_not_lt_of_ne {a b : String} (h : ¬ a < b) (hne : a ≠ b) : b < a := by
  rcases Decidable.em (b < a) with hlt | hlt
  · exact hlt
  · exact absurd (String.le_antisymm (String.not_lt.mp hlt) (String.not_lt.mp h)) hne

theorem increasing_put (key : String) (value : α) {entries : List (String × α)}
    (h : Increasing entries) : Increasing (put key value entries) := by
  induction entries with
  | nil => simp [put, Increasing]
  | cons head rest ih =>
    obtain ⟨k, a⟩ := head
    obtain ⟨hk, hrest⟩ := List.pairwise_cons.mp h
    simp only [put]
    split
    · rename_i hlt
      refine List.pairwise_cons.mpr ⟨?_, h⟩
      intro e he
      rcases List.mem_cons.mp he with rfl | he
      · exact hlt
      · exact String.lt_trans hlt (hk e he)
    · rename_i hnlt
      split
      · rename_i heq
        subst heq
        exact List.pairwise_cons.mpr ⟨hk, hrest⟩
      · rename_i hne
        refine List.pairwise_cons.mpr ⟨?_, ih hrest⟩
        intro e he
        rcases mem_put he with rfl | he
        · exact lt_of_not_lt_of_ne hnlt hne
        · exact hk e he

theorem increasing_drop (key : String) {entries : List (String × α)}
    (h : Increasing entries) : Increasing (drop key entries) :=
  List.Pairwise.filter _ h

theorem increasing_map (f : String → α → β) {entries : List (String × α)}
    (h : Increasing entries) : Increasing (entries.map (fun e => (e.1, f e.1 e.2))) := by
  unfold Increasing
  rw [List.pairwise_map]
  exact h

theorem find?_put (key : String) (value : α) (entries : List (String × α)) (k : String) :
    find? k (put key value entries) = if key = k then some value else find? k entries := by
  induction entries with
  | nil => simp [put, find?]
  | cons head rest ih =>
    obtain ⟨k', a⟩ := head
    simp only [put]
    split
    · simp [find?]
    · split
      · rename_i heq
        subst heq
        by_cases hk : key = k <;> simp [find?, hk]
      · rename_i hne
        simp only [find?, ih]
        by_cases hk' : k' = k
        · subst hk'
          simp [hne]
        · simp [hk']

theorem find?_drop (key : String) (entries : List (String × α)) (k : String) :
    find? k (drop key entries) = if key = k then none else find? k entries := by
  induction entries with
  | nil => simp [drop, find?]
  | cons head rest ih =>
    obtain ⟨k', a⟩ := head
    unfold drop at ih ⊢
    by_cases hk' : k' = key
    · subst hk'
      simp only [List.filter_cons, ne_eq, not_true_eq_false, decide_false, Bool.false_eq_true,
        if_false, ih, find?]
      by_cases hk : k' = k <;> simp [hk]
    · simp only [List.filter_cons, ne_eq, hk', not_false_eq_true, decide_true, if_true, find?, ih]
      by_cases hk : k' = k
      · subst hk
        simp [Ne.symm hk']
      · simp [hk]

/-- A key below all keys of the list is not bound. -/
theorem find?_eq_none_of_lt {key : String} {entries : List (String × α)}
    (h : ∀ e ∈ entries, key < e.1) : find? key entries = none := by
  induction entries with
  | nil => rfl
  | cons head rest ih =>
    obtain ⟨k, a⟩ := head
    have hlt : key < k := h (k, a) (List.mem_cons_self ..)
    have hne : k ≠ key := by
      intro heq
      subst heq
      exact String.lt_irrefl _ hlt
    simp only [find?, hne, if_false]
    exact ih (fun e he => h e (List.mem_cons_of_mem _ he))

/-- Increasing lists that answer every look-up alike are equal. -/
theorem ext_find? {l₁ l₂ : List (String × α)} (h₁ : Increasing l₁) (h₂ : Increasing l₂)
    (h : ∀ k, find? k l₁ = find? k l₂) : l₁ = l₂ := by
  induction l₁ generalizing l₂ with
  | nil =>
    cases l₂ with
    | nil => rfl
    | cons head rest => simpa [find?] using h head.1
  | cons head₁ rest₁ ih =>
    cases l₂ with
    | nil => simpa [find?] using h head₁.1
    | cons head₂ rest₂ =>
      obtain ⟨k₁, a₁⟩ := head₁
      obtain ⟨k₂, a₂⟩ := head₂
      obtain ⟨hk₁, hr₁⟩ := List.pairwise_cons.mp h₁
      obtain ⟨hk₂, hr₂⟩ := List.pairwise_cons.mp h₂
      have hkeys : k₁ = k₂ := by
        rcases Decidable.em (k₁ = k₂) with heq | hne
        · exact heq
        · exfalso
          rcases Decidable.em (k₁ < k₂) with hlt | hnlt
          · have hnone : find? k₁ ((k₂, a₂) :: rest₂) = none := by
              apply find?_eq_none_of_lt
              intro e he
              rcases List.mem_cons.mp he with rfl | he
              · exact hlt
              · exact String.lt_trans hlt (hk₂ e he)
            have hsome := h k₁
            rw [hnone] at hsome
            simp [find?] at hsome
          · have hlt : k₂ < k₁ := lt_of_not_lt_of_ne hnlt hne
            have hnone : find? k₂ ((k₁, a₁) :: rest₁) = none := by
              apply find?_eq_none_of_lt
              intro e he
              rcases List.mem_cons.mp he with rfl | he
              · exact hlt
              · exact String.lt_trans hlt (hk₁ e he)
            have hsome := h k₂
            rw [hnone] at hsome
            simp [find?] at hsome
      subst hkeys
      have hvals : a₁ = a₂ := by simpa [find?] using h k₁
      subst hvals
      congr 1
      refine ih hr₁ hr₂ (fun k => ?_)
      rcases Decidable.em (k₁ = k) with heq | hne
      · subst heq
        rw [find?_eq_none_of_lt hk₁, find?_eq_none_of_lt hk₂]
      · simpa [find?, hne] using h k

end Bindings

/-! ## §2 Maps -/

/-- A finite map from texts: its bindings, with strictly increasing keys. -/
structure SortedMap (α : Type u) where
  toList : List (String × α)
  increasing : Bindings.Increasing toList
  deriving DecidableEq

namespace SortedMap

variable {α : Type u} {β : Type v}

/-- The map without bindings. -/
def empty : SortedMap α := ⟨[], List.Pairwise.nil⟩

instance : Inhabited (SortedMap α) := ⟨empty⟩

def isEmpty (m : SortedMap α) : Bool := m.toList.isEmpty

/-- The number of bindings. -/
def size (m : SortedMap α) : Nat := m.toList.length

/-- The keys, increasing. -/
def keys (m : SortedMap α) : List String := m.toList.map Prod.fst

/-- The values, in the order of their keys. -/
def values (m : SortedMap α) : List α := m.toList.map Prod.snd

def get? (m : SortedMap α) (key : String) : Option α := Bindings.find? key m.toList

def contains (m : SortedMap α) (key : String) : Bool := (m.get? key).isSome

/-- Binds the key to the value, over an older binding of the key. -/
def insert (m : SortedMap α) (key : String) (value : α) : SortedMap α :=
  ⟨Bindings.put key value m.toList, Bindings.increasing_put key value m.increasing⟩

def erase (m : SortedMap α) (key : String) : SortedMap α :=
  ⟨Bindings.drop key m.toList, Bindings.increasing_drop key m.increasing⟩

/-- The map of the bindings in the list; of two bindings of a key the later counts. -/
def ofList (entries : List (String × α)) : SortedMap α :=
  entries.foldl (fun m e => m.insert e.1 e.2) empty

/-- Changes every value, which may look at its key. -/
def mapValues (f : String → α → β) (m : SortedMap α) : SortedMap β :=
  ⟨m.toList.map (fun e => (e.1, f e.1 e.2)), Bindings.increasing_map f m.increasing⟩

/-! ## §3 Look-up -/

@[simp] theorem get?_empty (k : String) : (empty : SortedMap α).get? k = none := rfl

theorem get?_insert (m : SortedMap α) (key : String) (value : α) (k : String) :
    (m.insert key value).get? k = if key = k then some value else m.get? k :=
  Bindings.find?_put key value m.toList k

@[simp] theorem get?_insert_self (m : SortedMap α) (key : String) (value : α) :
    (m.insert key value).get? key = some value := by
  simp [get?_insert]

theorem get?_erase (m : SortedMap α) (key : String) (k : String) :
    (m.erase key).get? k = if key = k then none else m.get? k :=
  Bindings.find?_drop key m.toList k

theorem get?_mapValues (f : String → α → β) (m : SortedMap α) (k : String) :
    (m.mapValues f).get? k = (m.get? k).map (f k) := by
  obtain ⟨entries, h⟩ := m
  simp only [get?, mapValues]
  clear h
  induction entries with
  | nil => rfl
  | cons head rest ih =>
    obtain ⟨k', a⟩ := head
    simp only [List.map_cons, Bindings.find?, ih]
    by_cases hk : k' = k
    · subst hk
      simp
    · simp [hk]

/-- Maps that answer every look-up alike are equal. -/
theorem ext_get? {m₁ m₂ : SortedMap α} (h : ∀ k, m₁.get? k = m₂.get? k) : m₁ = m₂ := by
  obtain ⟨l₁, h₁⟩ := m₁
  obtain ⟨l₂, h₂⟩ := m₂
  have hl : l₁ = l₂ := Bindings.ext_find? h₁ h₂ h
  subst hl
  rfl

end SortedMap

/-! ## §4 Text sets -/

/-- A finite set of texts, listed in increasing order and without repetition. -/
abbrev TextSet : Type := SortedMap Unit

namespace TextSet

/-- The set of the texts in the list. -/
def of (items : List String) : TextSet := SortedMap.ofList (items.map (fun s => (s, ())))

/-- The members, increasing. -/
def items (s : TextSet) : List String := s.keys

end TextSet

end SettingProfiles

/-
SettingProfiles.Proofs.Document.Drawing — why drawing ids comes to an end.

The loop that draws ids has no bound of its own: it ends because ids that are all
different cannot all be in use. While ids are given to one profile after the other, what
is in use changes between the draws. But an id that is given is not drawn again, so of
the ids still to come no more are in use than before; and a profile that needs an id has
none, or one that another profile has, so that the more profiles need ids, the fewer ids
are in use. Both together leave room in the first n + 1 draws for all that n profiles
can need.

  §1 Loops      — `drawUnused` on a supply that may run out.
  §2 `Draws`    — actions that draw some ids and no more.
  §3 Counting   — how many ids of a supply are in use.
  §4 Operations — `drawing_ends`.
-/
import Mathlib.Data.Finset.Card
import Mathlib.Data.Stream.Init
import SettingProfiles.Proofs.Document.Sound

namespace SettingProfiles

namespace Document

variable {α β : Type} {doc : Document} {name id : String}
  {inUse supply used drawn drawn' names : List String}

/-! ## §1 Loops -/

/-- The next id of a supply, if there is one left. -/
def takeId : StateT (List String) Option String
  | [] => none
  | id :: supply => some (id, supply)

theorem drawUnused_takeId_eq (inUse : List String) :
    drawUnused takeId inUse = do
      let id ← takeId
      if id ∈ inUse then drawUnused takeId inUse else return id := by
  conv_lhs => rw [drawUnused, repeatM_eq_of_monadTail]
  simp only [repeatM.body, bind_assoc, pure_bind]
  congr 1
  funext id
  by_cases hid : id ∈ inUse
  · rw [if_pos hid, if_pos hid]
    rfl
  · rw [if_neg hid, if_neg hid]

/-- On a supply the loop is the search for the first id that is not in use. -/
theorem drawUnused_takeId : drawUnused takeId = drawId := by
  funext inUse supply
  induction supply with
  | nil =>
    rw [drawUnused_takeId_eq]
    rfl
  | cons id supply ih =>
    rw [drawUnused_takeId_eq, drawId, freshId?, ← drawId, ← ih]
    show (if id ∈ inUse then drawUnused takeId inUse else pure id) supply = _
    split <;> rfl

theorem freshId?_append (hused : ∀ id ∈ used, id ∈ inUse) (hid : id ∉ inUse)
    (rest : List String) : freshId? inUse (used ++ id :: rest) = some (id, rest) := by
  induction used with
  | nil => rw [List.nil_append, freshId?, if_neg hid]
  | cons first used ih =>
    rw [List.cons_append, freshId?, if_pos (hused first List.mem_cons_self)]
    exact ih fun id hid => hused id (List.mem_cons_of_mem _ hid)

/-! ## §2 `Draws` -/

/-- The action draws these ids, and no more from any supply that begins with them, and
returns the result. So it ends: a loop that went on would use up every supply and fail. -/
def Draws (action : StateT (List String) Option α) (drawn : List String) (a : α) : Prop :=
  ∀ rest, action.run (drawn ++ rest) = some (a, rest)

theorem Draws.pure (a : α) : Draws (Pure.pure a) [] a := fun _ => rfl

theorem Draws.bind {action : StateT (List String) Option α}
    {next : α → StateT (List String) Option β} {a : α} {b : β} (h : Draws action drawn a)
    (hnext : Draws (next a) drawn' b) : Draws (action >>= next) (drawn ++ drawn') b := by
  intro rest
  rw [List.append_assoc, StateT.run_bind, h]
  exact hnext rest

theorem Draws.map {action : StateT (List String) Option α} {a : α} (h : Draws action drawn a)
    (f : α → β) : Draws (action >>= fun a => Pure.pure (f a)) drawn (f a) := by
  intro rest
  rw [StateT.run_bind, h]
  rfl

/-- The loop draws ids that are in use, and then one that is not. -/
theorem draws_drawUnused (hused : ∀ id ∈ used, id ∈ inUse) (hid : id ∉ inUse) :
    Draws (drawUnused takeId inUse) (used ++ [id]) id := by
  intro rest
  rw [List.append_assoc, List.singleton_append, drawUnused_takeId]
  exact freshId?_append hused hid rest

/-! ## §3 Counting -/

/-- Of different ids no more are in use than there are ids in use. -/
theorem countP_mem_le (hnodup : supply.Nodup) (inUse : List String) :
    supply.countP (· ∈ inUse) ≤ inUse.toFinset.card := by
  rw [List.countP_eq_length_filter, ← List.toFinset_card_of_nodup (hnodup.filter _)]
  refine Finset.card_le_card fun id hid => ?_
  simp only [List.mem_toFinset, List.mem_filter, decide_eq_true_eq] at hid ⊢
  exact hid.2

/-- If fewer ids of a supply are in use than it has, one is the first that is not. -/
theorem exists_first_unused (hroom : supply.countP (· ∈ inUse) < supply.length) :
    ∃ used id rest, supply = used ++ id :: rest ∧ (∀ id ∈ used, id ∈ inUse) ∧ id ∉ inUse := by
  have hsome : (supply.find? fun id => decide (id ∉ inUse)).isSome := by
    rw [List.find?_isSome]
    by_contra hnone
    refine hroom.ne (List.countP_eq_length.mpr fun id hid => ?_)
    by_contra hfresh
    exact hnone ⟨id, hid, by simpa using hfresh⟩
  obtain ⟨id, hfirst⟩ := Option.isSome_iff_exists.mp hsome
  obtain ⟨hid, used, rest, hsupply, hused⟩ := List.find?_eq_some_iff_append.mp hfirst
  exact ⟨used, id, rest, hsupply, by simpa using hused, by simpa using hid⟩

/-- The profiles that are listed, and the ids among theirs that were not seen before. -/
theorem length_unidentified_go_add_card (seen : List String)
    (entries : List (String × Profile)) :
    (unidentified.go seen entries).length
        + ((entries.map fun e => e.2.id).toFinset \ insert "" seen.toFinset).card
      = entries.length := by
  induction entries generalizing seen with
  | nil => simp [unidentified.go]
  | cons head entries ih =>
    obtain ⟨name, p⟩ := head
    rw [unidentified.go, List.map_cons, List.toFinset_cons]
    split
    · rename_i hlisted
      have hknown : p.id ∈ insert "" seen.toFinset := by simpa using hlisted
      rw [Finset.insert_sdiff_of_mem _ hknown, List.length_cons, List.length_cons, ← ih seen]
      omega
    · -- the id counts here, and no more among the profiles that follow
      rename_i hown
      have hnew : p.id ∉ insert "" seen.toFinset := by simpa using hown
      have hlater := ih (p.id :: seen)
      rw [List.toFinset_cons, Finset.insert_comm, Finset.sdiff_insert,
        ← Finset.erase_insert_eq_erase, ← Finset.insert_sdiff_of_notMem _ hnew] at hlater
      rw [List.length_cons, ← hlater, ← Finset.card_erase_add_one (a := p.id), Nat.add_assoc]
      exact Finset.mem_sdiff.mpr ⟨Finset.mem_insert_self _ _, hnew⟩

/-- Of the profiles that do not need an id, each has one of the different ids that are not
empty. -/
theorem length_unidentified_add_card (doc : Document) :
    doc.unidentified.length + (doc.ids.toFinset.erase "").card = doc.profiles.size := by
  have hgo := length_unidentified_go_add_card [] doc.profiles.toList
  have hids : doc.ids = doc.profiles.toList.map fun e => e.2.id := by
    simp [ids, SortedMap.values]
  rw [hids, Finset.erase_eq]
  exact hgo

/-- A profile gets the id, and no other id comes into use. -/
theorem mem_ids_withId {id' : String} (hid' : id' ∈ (doc.withId name id).ids) :
    id' = id ∨ id' ∈ doc.ids := by
  obtain ⟨n, q, hq, rfl⟩ := mem_ids.mp hid'
  rw [get?_withId] at hq
  obtain ⟨p, hp, rfl⟩ := Option.map_eq_some_iff.mp hq
  split
  · exact .inl rfl
  · exact .inr (mem_ids.mpr ⟨n, p, hp, rfl⟩)

/-- An id that is drawn makes no other id of the supply one in use. -/
theorem countP_withId_le (hid : id ∉ supply) :
    supply.countP (· ∈ (doc.withId name id).ids) ≤ supply.countP (· ∈ doc.ids) := by
  refine List.countP_mono_left fun other hother hused => ?_
  simp only [decide_eq_true_eq] at hused ⊢
  exact (mem_ids_withId hused).resolve_left (ne_of_mem_of_not_mem hother hid)

/-! ## §4 Operations -/

/-- The profiles of these names all get an id, if the supply has as many that are not in
use. -/
theorem exists_draws_foldlM_withId (hnodup : supply.Nodup)
    (hroom : names.length + supply.countP (· ∈ doc.ids) ≤ supply.length) :
    ∃ drawn doc', drawn <+: supply ∧
      Draws (names.foldlM
        (fun d name => do return d.withId name (← drawUnused takeId d.ids)) doc) drawn doc' := by
  induction names generalizing doc supply with
  | nil => exact ⟨[], doc, List.nil_prefix, .pure doc⟩
  | cons name names ih =>
    rw [List.length_cons] at hroom
    have hunused : supply.countP (· ∈ doc.ids) < supply.length := by omega
    obtain ⟨used, id, rest, rfl, hused, hid⟩ := exists_first_unused hunused
    obtain ⟨hfresh, hrest⟩ := List.nodup_cons.mp (hnodup.sublist (List.sublist_append_right _ _))
    have hinUse : used.countP (· ∈ doc.ids) = used.length :=
      List.countP_eq_length.mpr fun id hid => decide_eq_true (hused id hid)
    rw [List.countP_append, List.countP_cons_of_neg (by simpa using hid), List.length_append,
      List.length_cons] at hroom
    have hkept : rest.countP (· ∈ (doc.withId name id).ids) ≤ rest.countP (· ∈ doc.ids) :=
      countP_withId_le hfresh
    have hroom' : names.length + rest.countP (· ∈ (doc.withId name id).ids) ≤ rest.length := by
      omega
    obtain ⟨drawn, doc', hdrawn, hlater⟩ := ih hrest hroom'
    refine ⟨(used ++ [id]) ++ drawn, doc', ?_, ?_⟩
    · obtain ⟨more, rfl⟩ := hdrawn
      exact ⟨more, by simp⟩
    · rw [List.foldlM_cons]
      exact ((draws_drawUnused hused hid).map (doc.withId name)).bind hlater

/-- Storing a profile draws an id, or none. -/
theorem exists_draws_upsert (hroom : supply.countP (· ∈ doc.ids) < supply.length) (name : String)
    (settings : SettingMap) :
    ∃ drawn stored, drawn <+: supply ∧
      Draws (doc.upsert (drawUnused takeId) name settings) drawn stored := by
  obtain ⟨used, id, rest, rfl, hused, hid⟩ := exists_first_unused hroom
  have hdraws := draws_drawUnused hused hid
  have hprefix : used ++ [id] <+: used ++ id :: rest := ⟨rest, by simp⟩
  unfold upsert
  split
  · exact ⟨[], _, List.nil_prefix, .pure _⟩
  · cases hp : (doc.profiles.get? name).map Profile.id with
    | none => exact ⟨_, _, hprefix, hdraws.map _⟩
    | some kept =>
      dsimp only
      split
      · exact ⟨_, _, hprefix, hdraws.map _⟩
      · exact ⟨[], _, List.nil_prefix, .pure _⟩

/-- What is drawn of the first ids of a source is its beginning. -/
theorem eq_take_of_prefix {source : Stream' String} {n : ℕ} (h : drawn <+: source.take n) :
    drawn.length ≤ n ∧ drawn = source.take drawn.length := by
  have hlength : drawn.length ≤ n := by simpa using h.length_le
  refine ⟨hlength, ?_⟩
  rw [List.prefix_iff_eq_take.mp h]
  simp [Stream'.take_take, hlength]

/-- An action that fails for want of ids draws more than it was given. -/
theorem Draws.lt_of_run_eq_none {action : StateT (List String) Option α} {a : α}
    {source : Stream' String} {m n : ℕ} (h : Draws action (source.take n) a)
    (hnone : action.run (source.take m) = none) : m < n := by
  by_contra hle
  have hprefix : source.take n <+: source.take m := by
    rw [← Nat.min_eq_right (Nat.le_of_not_lt hle), ← Stream'.take_take]
    exact List.take_prefix _ _
  obtain ⟨rest, hrest⟩ := hprefix
  rw [← hrest, h rest] at hnone
  cases hnone

/-- The loop ends with the first id of a source that is not in use. -/
theorem exists_draws_drawUnused {source : Stream' String} {n : ℕ}
    (hroom : (source.take n).countP (· ∈ inUse) < n) :
    ∃ k < n, source.get k ∉ inUse ∧ (∀ i < k, source.get i ∈ inUse) ∧
      Draws (drawUnused takeId inUse) (source.take (k + 1)) (source.get k) := by
  have hunused : (source.take n).countP (· ∈ inUse) < (source.take n).length := by
    rwa [Stream'.length_take]
  obtain ⟨used, id, rest, hsupply, hused, hid⟩ := exists_first_unused hunused
  have hprefix : used ++ [id] <+: source.take n := ⟨rest, by rw [hsupply]; simp⟩
  obtain ⟨hle, htake⟩ := eq_take_of_prefix hprefix
  rw [List.length_append, List.length_singleton] at hle htake
  have hparts := htake.trans (Stream'.take_succ' used.length)
  obtain ⟨hbefore, hlast⟩ := List.append_inj' hparts rfl
  rw [List.singleton_inj] at hlast
  refine ⟨used.length, hle, hlast ▸ hid, fun i hi => hused _ ?_, ?_⟩
  · rw [hbefore]
    exact List.mem_of_getElem? (Stream'.getElem?_take hi)
  · rw [← htake, ← hlast]
    exact draws_drawUnused hused hid

/-- **Drawing ids comes to an end.** Let a document have n profiles, and let the first n + 1
ids of a source be all different. Then an id that no profile has is drawn, and the ids
before it, n at the most, are ids of profiles; and giving ids to all profiles that need
one, or storing a profile, ends after n + 1 draws at the latest. -/
theorem drawing_ends (doc : Document) (source : Stream' String)
    (hsource : (source.take (doc.profiles.size + 1)).Nodup) :
    (∃ k ≤ doc.profiles.size, source.get k ∉ doc.ids ∧ (∀ i < k, source.get i ∈ doc.ids) ∧
      Draws (drawUnused takeId doc.ids) (source.take (k + 1)) (source.get k)) ∧
    (∃ k ≤ doc.profiles.size + 1, ∃ doc',
      Draws (doc.assignIds (drawUnused takeId)) (source.take k) doc') ∧
    ∀ name settings, ∃ k ≤ doc.profiles.size + 1, ∃ stored,
      Draws (doc.upsert (drawUnused takeId) name settings) (source.take k) stored := by
  have hlength : (source.take (doc.profiles.size + 1)).length = doc.profiles.size + 1 :=
    source.length_take _
  have hcount := countP_mem_le hsource doc.ids
  have hunused : (source.take (doc.profiles.size + 1)).countP (· ∈ doc.ids)
      < doc.profiles.size + 1 := by
    have hsize : doc.ids.length = doc.profiles.size := by
      simp [ids, SortedMap.values, SortedMap.size]
    have hdifferent := doc.ids.toFinset_card_le
    omega
  refine ⟨?_, ?_, fun name settings => ?_⟩
  · obtain ⟨k, hk, hdraws⟩ := exists_draws_drawUnused hunused
    exact ⟨k, Nat.le_of_lt_succ hk, hdraws⟩
  · have hroom : doc.unidentified.length
        + (source.take (doc.profiles.size + 1)).countP (· ∈ doc.ids)
          ≤ (source.take (doc.profiles.size + 1)).length := by
      have hidentified := doc.length_unidentified_add_card
      have herase := doc.ids.toFinset.pred_card_le_card_erase (a := "")
      omega
    obtain ⟨drawn, doc', hprefix, hdraws⟩ := exists_draws_foldlM_withId hsource hroom
    obtain ⟨hle, htake⟩ := eq_take_of_prefix hprefix
    exact ⟨drawn.length, hle, doc', htake ▸ hdraws⟩
  · obtain ⟨drawn, stored, hprefix, hdraws⟩ :=
      exists_draws_upsert (hunused.trans_eq hlength.symm) name settings
    obtain ⟨hle, htake⟩ := eq_take_of_prefix hprefix
    exact ⟨drawn.length, hle, stored, htake ▸ hdraws⟩

/-- The theorem where nothing ends earlier: the source begins with the ids of all three
profiles, of which the first is empty and has to be replaced. -/
theorem drawing_ends_with_fourth :
    let doc : Document :=
      ⟨"a", .ofList [("a", ⟨"", .empty⟩), ("b", ⟨"x", .empty⟩), ("c", ⟨"xx", .empty⟩)],
        .empty, .empty⟩
    let source : Stream' String := fun i => String.ofList (List.replicate i 'x')
    (source.take (doc.profiles.size + 1)).Nodup ∧
      Draws (drawUnused takeId doc.ids) (source.take 4) "xxx" ∧
      (∃ doc', Draws (doc.assignIds (drawUnused takeId)) (source.take 4) doc') ∧
      ∃ stored, Draws (doc.upsert (drawUnused takeId) "d" .empty) (source.take 4) stored := by
  intro doc source
  have hsource : (source.take (doc.profiles.size + 1)).Nodup := by decide
  obtain ⟨⟨k, hk, -, -, hdraws⟩, ⟨i, hi, doc', hassign⟩, hstore⟩ := drawing_ends doc source hsource
  obtain ⟨j, hj, stored, hstored⟩ := hstore "d" .empty
  -- three ids are not enough
  have hk' : 3 < k + 1 := hdraws.lt_of_run_eq_none (by rw [drawUnused_takeId]; decide)
  have hi' : 3 < i := hassign.lt_of_run_eq_none (by rw [drawUnused_takeId]; decide)
  have hj' : 3 < j := hstored.lt_of_run_eq_none (by rw [drawUnused_takeId]; decide)
  obtain rfl : k = 3 := Nat.le_antisymm hk (Nat.le_of_lt_succ hk')
  obtain rfl : i = 4 := Nat.le_antisymm hi hi'
  obtain rfl : j = 4 := Nat.le_antisymm hj hj'
  exact ⟨hsource, hdraws, ⟨doc', hassign⟩, stored, hstored⟩

end Document

end SettingProfiles

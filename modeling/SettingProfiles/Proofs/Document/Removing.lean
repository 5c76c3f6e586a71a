/-
SettingProfiles.Proofs.Document.Removing — profiles that are removed in any order.

When several profiles are removed one after the other, the current name may be moved
more than once, and to profiles whose turn is still to come. Where it ends does not
depend on the order all the same: as long as the current profile has not been removed
the name stays, and from then on it is always that of the first profile left. So each
document on the way is `Without` the profiles removed so far, and that says all there is
to say of it.

  §1 Attempts  — `removeInTurn`: what the removals return, and what they leave.
  §2 `Without` — the document that is left, one removal after the other.
  §3 Any order — `removal_in_any_order`.
-/
import Mathlib.Data.List.Induction
import SettingProfiles.Proofs.Store.Frame

namespace SettingProfiles

namespace Document

variable {doc d d' : Document} {name : String} {names gone : List String}

/-! ## §1 Attempts -/

/-- What removing a profile returns, and the document afterwards. A removal that is
refused leaves the document as it is. -/
def tryRemove (doc : Document) (name : String) : Except DocumentError Profile × Document :=
  match doc.remove name with
  | .ok (p, rest) => (.ok p, rest)
  | .error e => (.error e, doc)

/-- What removing the profiles of these names one after the other returns, and the
document at the end. -/
def removeInTurn (doc : Document) : List String → List (Except DocumentError Profile) × Document
  | [] => ([], doc)
  | name :: names =>
    let first := doc.tryRemove name
    let later := first.2.removeInTurn names
    (first.1 :: later.1, later.2)

theorem tryRemove_of_ok {p : Profile} {rest : Document} (h : doc.remove name = .ok (p, rest)) :
    doc.tryRemove name = (.ok p, rest) := by
  simp [tryRemove, h]

theorem tryRemove_of_error {e : DocumentError} (h : doc.remove name = .error e) :
    doc.tryRemove name = (.error e, doc) := by
  simp [tryRemove, h]

/-- One removal more. -/
theorem removeInTurn_snoc (doc : Document) (names : List String) (name : String) :
    doc.removeInTurn (names ++ [name])
      = ((doc.removeInTurn names).1 ++ [((doc.removeInTurn names).2.tryRemove name).1],
        ((doc.removeInTurn names).2.tryRemove name).2) := by
  induction names generalizing doc with
  | nil => rfl
  | cons first names ih => simp [removeInTurn, ih]

/-! ## §2 `Without` -/

/-- The second document is the first without the profiles of these names. If the current
profile is among them, the first of the others is current. -/
structure Without (doc : Document) (gone : List String) (d : Document) : Prop where
  profiles : ∀ name, d.profiles.get? name = if name ∈ gone then none else doc.profiles.get? name
  modeBindings : d.modeBindings = doc.modeBindings
  upgradeFlags : d.upgradeFlags = doc.upgradeFlags
  kept : doc.current ∉ gone → d.current = doc.current
  moved : doc.current ∈ gone → d.IsFirst d.current

namespace Without

theorem nil (doc : Document) : doc.Without [] doc :=
  ⟨by simp, rfl, rfl, fun _ => rfl, by simp⟩

theorem contains_iff (h : doc.Without gone d) :
    d.contains name = true ↔ doc.contains name = true ∧ name ∉ gone := by
  unfold Document.contains SortedMap.contains
  rw [h.profiles]
  by_cases hgone : name ∈ gone <;> simp [hgone]

theorem contains_current (h : doc.Without gone d) (hcurrent : doc.contains doc.current = true) :
    d.contains d.current = true := by
  by_cases hgone : doc.current ∈ gone
  · exact (h.moved hgone).1
  · rw [h.kept hgone]
    exact h.contains_iff.mpr ⟨hcurrent, hgone⟩

/-- Nothing is left open: only which profiles are gone counts, and not in which order. -/
theorem eq_of_mem_iff (h : doc.Without gone d) (h' : doc.Without names d')
    (hmem : ∀ name, name ∈ gone ↔ name ∈ names) : d = d' := by
  have hprofiles : d.profiles = d'.profiles := by
    refine SortedMap.ext_get? fun name => ?_
    simp [h.profiles, h'.profiles, hmem]
  have hcontains : ∀ name, d.contains name = d'.contains name := by
    intro name
    simp [Document.contains, hprofiles]
  have hcurrent : d.current = d'.current := by
    by_cases hgone : doc.current ∈ gone
    · obtain ⟨hfirst, hleast⟩ := h.moved hgone
      obtain ⟨hfirst', hleast'⟩ := h'.moved ((hmem _).mp hgone)
      rw [hcontains] at hfirst
      rw [← hcontains] at hfirst'
      exact String.le_antisymm (hleast _ hfirst') (hleast' _ hfirst)
    · rw [h.kept hgone, h'.kept (mt (hmem _).mpr hgone)]
  have hmodes : d.modeBindings = d'.modeBindings := h.modeBindings.trans h'.modeBindings.symm
  have hflags : d.upgradeFlags = d'.upgradeFlags := h.upgradeFlags.trans h'.upgradeFlags.symm
  cases d
  cases d'
  simp_all

/-- One more profile is removed. -/
theorem of_frame {rest : Document} (h : doc.Without gone d)
    (hframe : (Operation.delete name).Frame d rest) : doc.Without (gone ++ [name]) rest := by
  have hactivates : ∀ n, ¬ (Operation.delete name).Activates d n := fun _ hn => hn
  have hothers : ∀ n, n ≠ name → rest.profiles.get? n = d.profiles.get? n :=
    fun n hn => hframe.others n nofun fun heq => hn (Option.some.inj heq).symm
  refine ⟨?_, ?_, ?_, ?_, ?_⟩
  · intro n
    by_cases hn : n = name
    · have habsent := hframe.deleted n (congrArg some hn.symm)
      simpa [hn, Document.contains, SortedMap.contains] using habsent
    · simp [hothers n hn, h.profiles, hn]
  · refine Eq.trans (SortedMap.ext_get? fun mode => ?_) h.modeBindings
    simpa [Operation.bound?] using hframe.modeBindings mode
  · exact hframe.upgradeFlags.trans h.upgradeFlags
  · intro hstays
    have hkept : d.current = doc.current := h.kept fun hgone => hstays (by simp [hgone])
    have hne : name ≠ d.current := by
      rintro rfl
      simp [hkept] at hstays
    rw [hframe.current hactivates (fun heq => hne (Option.some.inj heq)), hkept]
  · intro hmoved
    by_cases heq : name = d.current
    · exact hframe.succeeded (congrArg some heq)
    · -- the current name was moved before, and the first profile is still there
      have hgone : doc.current ∈ gone := by
        by_contra hnever
        have hkept := h.kept hnever
        simp_all
      obtain ⟨hfirst, hleast⟩ := h.moved hgone
      have hkept : rest.current = d.current :=
        hframe.current hactivates fun hdeleted => heq (Option.some.inj hdeleted)
      have hcontains : ∀ n, n ≠ name → rest.contains n = d.contains n := by
        intro n hn
        simp [Document.contains, SortedMap.contains, hothers n hn]
      rw [hkept]
      refine ⟨(hcontains _ (Ne.symm heq)).trans hfirst, fun n hn => hleast n ?_⟩
      rw [← hcontains n ?_]
      · exact hn
      · rintro rfl
        rw [hframe.deleted n rfl] at hn
        cases hn

/-- As long as another profile is left, a profile can be removed. -/
theorem remove (h : doc.Without gone d) (hcurrent : doc.contains doc.current = true)
    (hname : doc.contains name = true) (hnot : name ∉ gone) {other : String}
    (hother : doc.contains other = true) (hleft : other ∉ gone ++ [name]) :
    ∃ p rest, doc.profile name = .ok p ∧ d.remove name = .ok (p, rest) ∧
      doc.Without (gone ++ [name]) rest := by
  obtain ⟨p, hp⟩ := SortedMap.contains_iff.mp hname
  have hp' : d.profiles.get? name = some p := by simp [h.profiles, hnot, hp]
  have hsize : d.profiles.size ≠ 1 := by
    intro hsize
    have hother' : d.contains other = true := h.contains_iff.mpr ⟨hother, by simp_all⟩
    have hsame := SortedMap.eq_of_size_eq_one hsize (SortedMap.contains_iff.mpr ⟨p, hp'⟩) hother'
    simp [hsame] at hleft
  obtain ⟨rest, hremove⟩ : ∃ rest, d.remove name = .ok (p, rest) := by
    simp [Document.remove, hp', hsize]
  exact ⟨p, rest, by simp [Document.profile, hp], hremove,
    h.of_frame (Operation.frame_remove (h.contains_current hcurrent) hremove).2⟩

/-- The last profile stays. -/
theorem remove_last (h : doc.Without gone d) (hname : doc.contains name = true)
    (hnot : name ∉ gone)
    (hlast : ∀ other, doc.contains other = true → other ∉ gone → other = name) :
    d.remove name = .error .lastProfile := by
  have hcontains : d.contains name = true := h.contains_iff.mpr ⟨hname, hnot⟩
  have hsize : d.profiles.size = 1 := by
    refine (SortedMap.size_eq_one_iff hcontains).mpr fun other hother => ?_
    obtain ⟨hother, hnot'⟩ := h.contains_iff.mp hother
    exact hlast other hother hnot'
  obtain ⟨p, hp⟩ := SortedMap.contains_iff.mp hcontains
  simp [Document.remove, hp, hsize]

end Without

/-- As long as a profile is left, every removal returns the profile that it removes. -/
theorem removeInTurn_without (hcurrent : doc.contains doc.current = true) (hnodup : names.Nodup)
    (hnames : ∀ name ∈ names, doc.contains name = true) {other : String}
    (hother : doc.contains other = true) (hleft : other ∉ names) :
    (doc.removeInTurn names).1 = names.map doc.profile ∧
      doc.Without names (doc.removeInTurn names).2 := by
  induction names using List.reverseRecOn with
  | nil => exact ⟨rfl, .nil doc⟩
  | append_singleton names name ih =>
    obtain ⟨hnodup', -, hdisjoint⟩ := List.nodup_append.mp hnodup
    have hnot : name ∉ names := fun hmem => hdisjoint name hmem name (by simp) rfl
    obtain ⟨hresults, hwithout⟩ := ih hnodup' (fun n hn => hnames n (by simp [hn]))
      (fun hmem => hleft (by simp [hmem]))
    obtain ⟨p, rest, hp, hremove, hrest⟩ :=
      hwithout.remove hcurrent (hnames name (by simp)) hnot hother hleft
    rw [removeInTurn_snoc, tryRemove_of_ok hremove, List.map_append, hresults]
    exact ⟨by simp [hp], hrest⟩

/-! ## §3 Any order -/

/-- **Profiles can be removed in any order.** Let the current name be that of a profile,
and let the names, no one twice, be those of profiles. If there is another profile, each
removal returns the profile of its name, and all orders lead to the same document: the
profiles of the other names, the bindings and the flags are as they were, and so is the
current name, unless its profile was removed; then it is the first name left. If there is
no other profile, each removal but the last returns the profile, and the last is refused,
because it is of the last profile, and leaves the document as it finds it. -/
theorem removal_in_any_order (hcurrent : doc.contains doc.current = true) (hnodup : names.Nodup)
    (hnames : ∀ name ∈ names, doc.contains name = true) :
    (∀ name ∈ names, ∃ p, doc.profile name = .ok p) ∧
    ((∃ other, doc.contains other = true ∧ other ∉ names) →
      ∃ final : Document,
        (∀ order, order.Perm names →
          doc.removeInTurn order = (order.map doc.profile, final)) ∧
        (∀ name, final.profiles.get? name
          = if name ∈ names then none else doc.profiles.get? name) ∧
        final.modeBindings = doc.modeBindings ∧ final.upgradeFlags = doc.upgradeFlags ∧
        (doc.current ∉ names → final.current = doc.current) ∧
        (doc.current ∈ names → final.IsFirst final.current)) ∧
    ((∀ other, doc.contains other = true → other ∈ names) →
      doc.removeInTurn names
        = (names.dropLast.map doc.profile ++ [.error .lastProfile],
          (doc.removeInTurn names.dropLast).2)) := by
  refine ⟨fun name hname => ?_, ?_, fun hall => ?_⟩
  · obtain ⟨p, hp⟩ := SortedMap.contains_iff.mp (hnames name hname)
    exact ⟨p, by simp [profile, hp]⟩
  · rintro ⟨other, hother, hleft⟩
    obtain ⟨-, hfinal⟩ := removeInTurn_without hcurrent hnodup hnames hother hleft
    refine ⟨(doc.removeInTurn names).2, fun order horder => ?_, hfinal.profiles,
      hfinal.modeBindings, hfinal.upgradeFlags, hfinal.kept, hfinal.moved⟩
    obtain ⟨hresults, hwithout⟩ := removeInTurn_without hcurrent (horder.nodup_iff.mpr hnodup)
      (fun n hn => hnames n (horder.mem_iff.mp hn)) hother (mt horder.mem_iff.mp hleft)
    exact Prod.ext hresults (hwithout.eq_of_mem_iff hfinal fun n => horder.mem_iff)
  · cases names using List.reverseRecOn with
    | nil => simpa using hall doc.current hcurrent
    | append_singleton before last =>
      obtain ⟨hnodup', -, hdisjoint⟩ := List.nodup_append.mp hnodup
      have hlast : last ∉ before := fun hmem => hdisjoint last hmem last (by simp) rfl
      have hcontains : doc.contains last = true := hnames last (by simp)
      obtain ⟨hresults, hwithout⟩ := removeInTurn_without hcurrent hnodup'
        (fun n hn => hnames n (by simp [hn])) hcontains hlast
      have hrefused := hwithout.remove_last hcontains hlast fun other hother hnot => by
        simpa [hnot] using hall other hother
      rw [removeInTurn_snoc, tryRemove_of_error hrefused, List.dropLast_concat, hresults]

/-- The theorem for three profiles: two of them are removed, the current one among them,
and then all. -/
theorem removal_in_any_order_of_three :
    let p : Profile := ⟨"i", .empty⟩;
    let doc : Document := ⟨"b", .ofList [("a", p), ("b", p), ("c", p)], .empty, .empty⟩;
    doc.contains doc.current = true ∧ ["b", "a"].Nodup ∧ ["b", "a", "c"].Nodup ∧
      (∀ name ∈ ["b", "a", "c"], doc.contains name = true) ∧
      (doc.removeInTurn ["a", "b"]).2 = (doc.removeInTurn ["b", "a"]).2 ∧
      (doc.removeInTurn ["b", "a"]).2.IsFirst (doc.removeInTurn ["b", "a"]).2.current ∧
      (doc.removeInTurn ["b", "a", "c"]).1 = [.ok p, .ok p, .error .lastProfile] := by
  intro p doc
  have hcurrent : doc.contains doc.current = true := by decide
  have hnames : ∀ name ∈ ["b", "a", "c"], doc.contains name = true := by decide
  have hprofile : ∀ name ∈ ["b", "a", "c"], doc.profile name = .ok p := by decide
  have hall : ∀ other, doc.contains other = true → other ∈ ["b", "a", "c"] := by
    intro other hother
    have hkeys : ∀ key ∈ doc.profiles.keys, key ∈ ["b", "a", "c"] := by decide
    exact hkeys other (SortedMap.mem_keys.mpr hother)
  have hnodup : ["b", "a"].Nodup := by decide
  obtain ⟨-, hsome, -⟩ := removal_in_any_order hcurrent hnodup (by decide)
  obtain ⟨-, -, hevery⟩ := removal_in_any_order hcurrent (by decide) hnames
  obtain ⟨final, hfinal, -, -, -, -, hmoved⟩ := hsome ⟨"c", by decide, by decide⟩
  refine ⟨hcurrent, hnodup, by decide, hnames, ?_, ?_, ?_⟩
  · rw [hfinal _ (.swap _ _ _), hfinal _ (.refl _)]
  · rw [hfinal _ (.refl _)]
    exact hmoved (by decide)
  · rw [hevery hall]
    simp [hprofile]

end Document

end SettingProfiles

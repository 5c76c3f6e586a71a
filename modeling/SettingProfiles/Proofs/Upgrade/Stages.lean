/-
SettingProfiles.Proofs.Upgrade.Stages — the documents on the way to one that is up
to date.

Bringing a document up to date goes through stages: the repaired document, if it
needed repair, and then one document for each pending upgrade. Where the old settings
do not change, the stages follow from the ids that are drawn for the repair; and
whoever goes on from one of the stages goes through the ones after it.

  §1 Upgrading  — `upgradedBy` and `upgradeSteps`, one upgrade after the other.
  §2 Repairing  — `repairedWith`, given the ids that are drawn.
  §3 Stages     — `stages`, and which upgrades each of them records first.
-/
import SettingProfiles.Proofs.Store.Upgrading

namespace SettingProfiles

variable {old : String → Option Setting} {doc : Document} {u : Upgrade} {us : List Upgrade}

/-- What is found in the old place, if it holds these settings. -/
def LegacyValues.found (old : String → Option Setting) (keys : List String) : LegacyValues :=
  keys.foldl (fun values key =>
    match old key with
    | some value => values.insert key value
    | none => values) .empty

namespace Document

/-! ## §1 Upgrading -/

/-- The document after the upgrade, if the old place holds these settings. -/
def upgradedBy (old : String → Option Setting) (doc : Document) (u : Upgrade) : Document :=
  (Upgrade.fillAll doc (u.fills (.found old u.legacyKeys))).2.markApplied u.name

/-- The documents after each of the upgrades, applied one after the other. -/
def upgradeSteps (old : String → Option Setting) : List Upgrade → Document → List Document
  | [], _ => []
  | u :: us, doc => doc.upgradedBy old u :: upgradeSteps old us (doc.upgradedBy old u)

theorem Sound.upgradedBy (h : doc.Sound) (u : Upgrade) : (doc.upgradedBy old u).Sound :=
  (Upgrade.sound_fillAll h _).markApplied u.name

theorem isApplied_upgradedBy (u v : Upgrade) :
    (doc.upgradedBy old u).isApplied v.name = true ↔ u = v ∨ doc.isApplied v.name = true := by
  unfold upgradedBy
  rw [isApplied_markApplied]
  simp [isApplied, Upgrade.fillAll_upgradeFlags]

theorem nodup_pending (doc : Document) : doc.pending.Nodup :=
  List.Nodup.filter _ (by decide)

theorem pending_upgradedBy (u : Upgrade) :
    (doc.upgradedBy old u).pending = doc.pending.filter fun v => decide (v ≠ u) := by
  unfold pending
  rw [List.filter_filter]
  refine List.filter_congr fun v _ => ?_
  have happlied : (doc.upgradedBy old u).isApplied v.name = true ↔
      u = v ∨ doc.isApplied v.name = true := isApplied_upgradedBy u v
  by_cases huv : v = u
  · simp [huv, isApplied_upgradedBy]
  · have huv' : u ≠ v := fun h => huv h.symm
    cases hv : doc.isApplied v.name <;> simp_all

/-- An upgrade that is applied is pending no more, and the others still are. -/
theorem pending_upgradedBy_of_cons (h : doc.pending = u :: us) :
    (doc.upgradedBy old u).pending = us := by
  have hnodup := doc.nodup_pending
  rw [h, List.nodup_cons] at hnodup
  rw [pending_upgradedBy, h, List.filter_cons_of_neg (by simp), List.filter_eq_self]
  intro v hv
  have hne : v ≠ u := fun heq => hnodup.1 (heq ▸ hv)
  simpa using hne

/-! ## §2 Repairing -/

/-- The document with everything repaired, if these are the ids that are drawn. -/
def repairedWith (ids : List String) (doc : Document) : Document :=
  ((doc.unidentified.zip ids).foldl (fun d e => d.withId e.1 e.2) doc).repairCurrent

theorem pending_repairedWith (ids : List String) (doc : Document) :
    (doc.repairedWith ids).pending = doc.pending := by
  have hflags : ∀ (entries : List (String × String)) (d : Document),
      (entries.foldl (fun d e => d.withId e.1 e.2) d).upgradeFlags = d.upgradeFlags := by
    intro entries
    induction entries with
    | nil => intro d; rfl
    | cons e entries ih => intro d; simp [ih]
  simp [repairedWith, pending, isApplied, hflags]

/-- A document that needs no repair stays as it is, whatever is drawn. -/
theorem repairedWith_of_isNormal (hnormal : doc.isNormal = true) (ids : List String) :
    doc.repairedWith ids = doc := by
  unfold repairedWith
  rw [unidentified_of_isNormal hnormal]
  exact repairCurrent_of_isNormal hnormal

/-! ## §3 Stages -/

/-- The documents through which the document is brought up to date. -/
def stages (old : String → Option Setting) (ids : List String) (doc : Document) : List Document :=
  (if doc.isNormal then [] else [doc.repairedWith ids]) ++
    (doc.repairedWith ids).upgradeSteps old doc.pending

/-- Without repair there is one stage for each upgrade. -/
theorem stages_of_isNormal (hnormal : doc.isNormal = true) (ids : List String) :
    doc.stages old ids = doc.upgradeSteps old doc.pending := by
  simp [stages, hnormal, repairedWith_of_isNormal hnormal]

/-- The upgrades that the second document records and the first does not. -/
def newlyApplied (doc next : Document) : List Upgrade :=
  doc.pending.filter fun u => next.isApplied u.name

/-- What each document of a sequence records that the one before it does not. -/
def marks : Document → List Document → List (List Upgrade)
  | _, [] => []
  | doc, next :: rest => doc.newlyApplied next :: marks next rest

theorem newlyApplied_of_pending_eq {next : Document} (h : next.pending = doc.pending) :
    doc.newlyApplied next = [] := by
  refine List.filter_eq_nil_iff.mpr fun u hu => ?_
  rw [← h, mem_pending] at hu
  simp [hu]

theorem newlyApplied_upgradedBy (h : doc.pending = u :: us) :
    doc.newlyApplied (doc.upgradedBy old u) = [u] := by
  have hothers : us.filter (fun v => (doc.upgradedBy old u).isApplied v.name) = [] := by
    refine List.filter_eq_nil_iff.mpr fun v hv => ?_
    have hnext : (doc.upgradedBy old u).pending = us := pending_upgradedBy_of_cons h
    rw [← hnext, mem_pending] at hv
    simp [hv]
  have hself : (doc.upgradedBy old u).isApplied u.name = true :=
    (isApplied_upgradedBy u u).mpr (Or.inl rfl)
  rw [newlyApplied, h, List.filter_cons, if_pos hself, hothers]

theorem marks_upgradeSteps (h : doc.pending = us) :
    doc.marks (doc.upgradeSteps old us) = us.map fun u => [u] := by
  induction us generalizing doc with
  | nil => rfl
  | cons u us ih =>
    simp only [upgradeSteps, marks, List.map_cons]
    rw [newlyApplied_upgradedBy h, ih (pending_upgradedBy_of_cons h)]

/-- Repair records no upgrade, and of the stages after it each records one, in the
order of the table. -/
theorem marks_stages (ids : List String) :
    doc.marks (doc.stages old ids)
      = (if doc.isNormal then [] else [[]]) ++ doc.pending.map fun u => [u] := by
  unfold stages
  cases hnormal : doc.isNormal with
  | true =>
    simp only [if_true, List.nil_append, repairedWith_of_isNormal hnormal]
    exact marks_upgradeSteps rfl
  | false =>
    have hpending := pending_repairedWith ids doc
    simp only [if_false, Bool.false_eq_true, List.cons_append, List.nil_append, marks]
    rw [newlyApplied_of_pending_eq hpending, marks_upgradeSteps hpending]

end Document

end SettingProfiles

/-
SettingProfiles.Proofs.Store.ReadBack — when the store can read what it stored.

What is stored is a sound document's own text, so it can be read unless a float in
it is not finite. Such a float comes in through `save` and `importDocument` only,
which do not refuse it; from then on every operation fails that begins by reading,
until the document is deleted or another one is imported. In a run that begins
without a stored text the store can read what is stored exactly as long as no
operation that returned was given such a float.

  §1 Readable texts — `Readable`.
  §2 Failures       — those that are due to the stored text.
  §3 One operation  — `ensures_outcome_readable`.
  §4 Runs           — `readable_iff_finite`.
  §5 A float that is not finite
-/
import SettingProfiles.Proofs.Document.Finite
import SettingProfiles.Proofs.Store.Failures
import SettingProfiles.Proofs.Store.Given
import SettingProfiles.Proofs.Store.Runs

namespace SettingProfiles

open History (WrittenAre)

variable {initial : Option String} {h : History} {doc : Document}
  {s : Surroundings Effect Effect.Answer}

/-! ## §1 Readable texts -/

/-- The stored text, if there is one, is that of a valid document. -/
def Readable (stored : Option String) : Prop :=
  ∀ text ∈ stored, ∃ doc, Document.decode? text = some doc ∧ doc.validate = .ok ()

theorem readable_none : Readable none := by simp [Readable]

namespace Document

theorem isFinite_of_readable (h : Readable (some doc.encode)) :
    doc.ValuesAre Setting.IsFinite := by
  obtain ⟨doc', hdoc', -⟩ := h doc.encode rfl
  rw [← decode?_encode_isSome_iff, hdoc']
  rfl

theorem SoundWith.readable (h : doc.SoundWith Setting.IsFinite) : Readable (some doc.encode) := by
  rintro text ⟨⟩
  obtain ⟨doc', hdoc'⟩ := Option.isSome_iff_exists.mp (decode?_encode_isSome_iff.mpr h.values)
  refine ⟨doc', hdoc', (h.toSound.reread ?_).validate_eq_ok⟩
  rwa [← decode?_encode]

end Document

namespace History

/-- What is stored is what was stored before, or nothing, or a text that was handed
over. -/
theorem stored_cases (initial : Option String) (h : History) :
    h.stored initial = initial ∨ h.stored initial = none ∨
      ∃ text ∈ h.written, h.stored initial = some text := by
  induction h using List.reverseRecOn with
  | nil => exact Or.inl rfl
  | append_singleton h x ih =>
    have hkept : stored initial h = initial ∨ stored initial h = none ∨
        ∃ text ∈ written (h ++ [x]), stored initial h = some text := by
      obtain heq | heq | ⟨text, htext, heq⟩ := ih
      · exact Or.inl heq
      · exact Or.inr (Or.inl heq)
      · refine Or.inr (Or.inr ⟨text, ?_, heq⟩)
        rw [written_append]
        exact List.mem_append_left _ htext
    rw [stored_append]
    obtain ⟨q, a⟩ := x
    cases q with
    | set text =>
      cases a with
      | ok _ => exact Or.inr (Or.inr ⟨text, by simp [written, Effect.text?], rfl⟩)
      | error f => exact hkept
    | delete =>
      cases a with
      | ok _ => exact Or.inr (Or.inl rfl)
      | error f => exact hkept
    | _ => exact hkept

theorem WrittenAre.readable (hw : WrittenAre Setting.IsFinite h) (hinitial : Readable initial) :
    Readable (h.stored initial) := by
  obtain heq | heq | ⟨text, htext, heq⟩ := stored_cases initial h
  · rwa [heq]
  · rw [heq]
    exact readable_none
  · obtain ⟨doc, hdoc, rfl⟩ := hw text htext
    rw [heq]
    exact hdoc.readable

end History

/-- Finite floats stay finite. -/
theorem Setting.lasting_isFinite : Setting.Lasting Setting.IsFinite :=
  ⟨Document.isFinite_of_decode?, Upgrade.isFinite_fills⟩

/-! ## §2 Failures -/

namespace Operation

/-- The failure is due to the stored text, which is not that of a document, or that
of one that is refused. -/
def BlamesStored (op : Operation) (e : StoreError) : Prop :=
  e = .corrupt ∨ ∃ d, e = .invalidDocument d ∧
    ∀ doc, op = .importDocument doc → doc.validate ≠ .error d

theorem Failure.not_blamesStored {op : Operation} {e : StoreError} (h : op.Failure initial e)
    (hreadable : Readable initial) : ¬ op.BlamesStored e := by
  intro hblames
  cases h with
  | read hread =>
    cases hread with
    | fault f => cases f <;> simp [BlamesStored, StoreError.ofFault] at hblames
    | corrupt hstored hdecode =>
      obtain ⟨doc, hdoc, -⟩ := hreadable _ hstored
      rw [hdecode] at hdoc
      cases hdoc
    | invalid hstored hdecode hinvalid =>
      obtain ⟨doc, hdoc, hvalid⟩ := hreadable _ hstored
      rw [hdecode] at hdoc
      cases hdoc
      rw [hinvalid] at hvalid
      cases hvalid
  | notFound name => simp [BlamesStored] at hblames
  | lastProfile => simp [BlamesStored] at hblames
  | invalidName name => simp [BlamesStored] at hblames
  | refused hinvalid =>
    rename_i doc e
    obtain hcorrupt | ⟨d, hd, hother⟩ := hblames
    · cases e <;> simp [StoreError.ofDocument] at hcorrupt
    · cases e <;> simp [StoreError.ofDocument] at hd
      exact hother doc rfl (hd ▸ hinvalid)

/-! ## §3 One operation -/

/-- What reading stores can be read. -/
theorem readable_afterReading (fair : Fair initial s) (hreadable : Readable initial)
    (op : Operation) : Readable ((op.afterReading s []).stored initial) := by
  have hread := Procedure.ensures_read fair Setting.lasting_isFinite (.nil _)
  exact op.afterReading_of_read (P := fun h => Readable (h.stored initial)) hreadable
    (hread.mono (fun _ _ hd => hd.written.readable hreadable)
      fun _ _ he => he.1.readable hreadable)

/-- If the stored text can be read, it can be read after the operation too, unless
the operation returned and was given a float that is not finite. -/
theorem ensures_body_readable (fair : Fair initial s) (hreadable : Readable initial)
    (op : Operation) :
    op.body.Ensures s []
      (fun _ (h : History) => Readable (h.stored initial) ↔ op.ValuesAre Setting.IsFinite)
      (fun e (h : History) => Readable (h.stored initial) ∧ ¬ op.BlamesStored e) := by
  have hfailure := ensures_body fair Setting.lasting_true op op.valuesAre_true (.nil _)
  have hkept := ensures_body_unchanged (s := s) (h := []) op
  have hgiven := ensures_body_given Setting.IsFinite (h := []) fair op
  have hfinite : op.body.Ensures s []
      (fun _ (h : History) => op.ValuesAre Setting.IsFinite → Readable (h.stored initial))
      fun _ _ => True := by
    by_cases hop : op.ValuesAre Setting.IsFinite
    · exact (ensures_body fair Setting.lasting_isFinite op hop (.nil _)).mono
        (fun _ _ h _ => h.1.readable hreadable) fun _ _ _ => trivial
    · exact (Procedure.ensures_true _).mono (fun _ _ _ h => absurd h hop) fun _ _ h => h
  refine ((hfailure.and hkept).and (hgiven.and hfinite)).mono ?_ ?_
  · rintro r h' ⟨-, hstored, hread⟩
    refine ⟨fun hreadable' => ?_, hread⟩
    obtain hop | ⟨doc, hdoc, hop⟩ := hstored
    · exact hop
    · rw [hdoc] at hreadable'
      exact hop (Document.isFinite_of_readable hreadable')
  · rintro e h' ⟨⟨⟨-, hfail⟩, hsame⟩, -⟩
    refine ⟨?_, hfail.not_blamesStored hreadable⟩
    rw [hsame.stored_eq]
    exact readable_afterReading fair hreadable op

/-- The operation, whenever it is carried out. -/
theorem ensures_outcome_readable (fair : Fair initial s) (h : History)
    (hreadable : Readable (h.stored initial)) (op : Operation) :
    op.outcome.Ensures s h fun o (h' : History) =>
      (∀ e, o.result = .error e → ¬ o.operation.BlamesStored e.cause) ∧
      (Readable (h'.stored initial) ↔
        (o.result.isOk → o.operation.ValuesAre Setting.IsFinite)) := by
  rw [Program.ensures_after]
  refine (ensures_outcome (ensures_body_readable (fair.after h) hreadable op)).mono ?_
  rintro o later (⟨r, rfl, hread⟩ | ⟨e, rfl, hread, hblames⟩)
  · refine ⟨fun e he => (nomatch he), ?_⟩
    rw [History.stored_append, hread]
    exact ⟨fun hfinite _ => hfinite, fun hfinite => hfinite rfl⟩
  · refine ⟨fun e' he' => ?_, ?_⟩
    · cases he'
      exact hblames
    · rw [History.stored_append]
      exact ⟨fun _ hok => (nomatch hok), fun _ => hread⟩

/-! ## §4 Runs -/

/-- **The store can read what it stored exactly as long as no operation that returned
was given a float that is not finite.** In every run that begins without a stored
text: after each operation the stored text, if there is one, is that of a valid
document, exactly if all floats given to operations that returned are finite. And
if they are, no operation fails because of the stored text. -/
theorem readable_iff_finite (fair : Fair none s) (ops : List Operation) :
    (inTurn ops).Ensures s [] fun outcomes _ =>
      ((∀ before, before <+: ops →
          (inTurn before).Ensures s [] fun _ (h : History) => Readable (h.stored none)) ↔
        ∀ o ∈ outcomes, o.result.isOk → o.operation.ValuesAre Setting.IsFinite) ∧
      ((∀ o ∈ outcomes, o.result.isOk → o.operation.ValuesAre Setting.IsFinite) →
        ∀ o ∈ outcomes, ∀ e, o.result = .error e → ¬ o.operation.BlamesStored e.cause) := by
  unfold Program.Ensures
  induction ops using List.reverseRecOn with
  | nil =>
    refine ⟨⟨fun _ o ho => (nomatch ho), fun _ before hbefore => ?_⟩, fun _ o ho => (nomatch ho)⟩
    cases List.prefix_nil.mp hbefore
    exact readable_none
  | append_singleton ops op ih =>
    simp only [List.prefix_concat_iff, forall_eq_or_imp, converse_inTurn_snoc,
      List.forall_mem_append, List.forall_mem_singleton]
    have hstep := fun hread =>
      ensures_outcome_readable fair ((inTurn ops).converse s []).2 hread op
    unfold Program.Ensures at hstep
    refine ⟨⟨fun ⟨hafter, hbefore⟩ => ?_, fun ⟨hfinite, hlast⟩ => ?_⟩, fun ⟨hfinite, hlast⟩ => ?_⟩
    · exact ⟨ih.1.mp hbefore, (hstep (hbefore ops (List.prefix_refl ops))).2.mp hafter⟩
    · have hbefore := ih.1.mpr hfinite
      exact ⟨(hstep (hbefore ops (List.prefix_refl ops))).2.mpr hlast, hbefore⟩
    · have hbefore := ih.1.mpr hfinite
      exact ⟨ih.2 hfinite, (hstep (hbefore ops (List.prefix_refl ops))).1⟩

/-- The theorem for a run in an ordinary storage. -/
theorem readable_iff_finite_ordinary :
    Fair none (ordinary none) ∧
      (inTurn [.save "a" .empty, .list]).Ensures (ordinary none) [] fun outcomes _ =>
        ((∀ before, before <+: [Operation.save "a" .empty, .list] →
            (inTurn before).Ensures (ordinary none) [] fun _ (h : History) =>
              Readable (h.stored none)) ↔
          ∀ o ∈ outcomes, o.result.isOk → o.operation.ValuesAre Setting.IsFinite) ∧
        ((∀ o ∈ outcomes, o.result.isOk → o.operation.ValuesAre Setting.IsFinite) →
          ∀ o ∈ outcomes, ∀ e, o.result = .error e → ¬ o.operation.BlamesStored e.cause) :=
  ⟨fair_ordinary none, readable_iff_finite (fair_ordinary none) _⟩

end Operation

/-! ## §5 A float that is not finite -/

namespace Procedure

/-- A stored text that cannot be read is refused. -/
theorem ensures_read_unreadable {op : Operation} {β : Type} {f : Document → Procedure β}
    {text : String} (hget : s h .get = .ok (some text)) (hop : op.reads = true)
    (hunreadable : ¬ Readable (some text)) :
    (read >>= f).Ensures s h (fun _ _ => False) fun e _ => op.BlamesStored e := by
  rw [ensures_bind, ensures_read_text hget]
  split
  · exact Or.inl rfl
  · rename_i doc hdecode
    split
    · rename_i hvalid
      refine absurd ?_ hunreadable
      rintro text ⟨⟩
      exact ⟨doc, hdecode, hvalid⟩
    · rename_i d hinvalid
      refine Or.inr ⟨d, rfl, ?_⟩
      rintro doc' rfl
      cases hop

end Procedure

namespace Operation

open Procedure

/-- Every operation that begins by reading fails if the stored text cannot be read. -/
theorem ensures_body_unreadable (op : Operation) {text : String}
    (hget : s h .get = .ok (some text)) (hop : op.reads = true)
    (hunreadable : ¬ Readable (some text)) :
    op.body.Ensures s h (fun _ _ => False) fun e _ => op.BlamesStored e := by
  cases op with
  | reset => cases hop
  | importDocument doc => cases hop
  | save name settings =>
    have hname : name ≠ "" := by simpa [reads] using hop
    show (Procedure.save name settings).Ensures s h _ _
    unfold Procedure.save
    rw [if_neg hname]
    exact ensures_read_unreadable hget hop hunreadable
  | exportDocument =>
    show Procedure.read.Ensures s h _ _
    rw [← bind_pure Procedure.read]
    exact ensures_read_unreadable hget hop hunreadable
  | _ => exact ensures_read_unreadable hget hop hunreadable

/-- NaN can be saved, and then the profiles cannot be listed. -/
theorem list_fails_after_nan :
    Fair none (ordinary none) ∧
      (inTurn [.save "a" (SortedMap.empty.insert "temperature" (.float .nan)), .list]).Ensures
        (ordinary none) [] fun outcomes _ =>
          ∃ o ∈ outcomes, ∃ e, o.result = .error e ∧ o.operation.BlamesStored e.cause := by
  refine ⟨fair_ordinary none, ?_⟩
  -- saving returns, so what it stored cannot be read
  have hsave : (outcome (.save "a" (SortedMap.empty.insert "temperature" (.float .nan)))).Ensures
      (ordinary none) [] fun _ (h : History) => ¬ Readable (h.stored none) := by
    intro hread
    obtain ⟨-, hstep⟩ := ensures_outcome_readable (fair_ordinary none) [] readable_none
      (.save "a" (SortedMap.empty.insert "temperature" (.float .nan)))
    have hfinite := hstep.mp hread rfl
    exact nomatch hfinite "temperature" _ (SortedMap.get?_insert_self _ _ _)
  rw [← List.singleton_append, inTurn_append, inTurn_singleton, inTurn_singleton]
  simp only [bind_assoc, pure_bind]
  rw [Program.ensures_bind]
  refine hsave.mono fun o (h : History) hunreadable => ?_
  cases hstored : h.stored none with
  | none =>
    rw [hstored] at hunreadable
    exact absurd readable_none hunreadable
  | some text =>
    rw [hstored] at hunreadable
    have hget : ordinary none h .get = .ok (some text) := congrArg Except.ok hstored
    rw [Program.ensures_bind]
    refine (ensures_outcome (ensures_body_unreadable .list hget rfl hunreadable)).mono ?_
    rintro o' h' (⟨r, rfl, hfalse⟩ | ⟨e, rfl, hblames⟩)
    · exact hfalse.elim
    · exact ⟨_, List.mem_append_right _ List.mem_cons_self, _, rfl, hblames⟩

end Operation

end SettingProfiles

/-
SettingProfiles.Proofs.Document.Layouts — the texts in which a document may stand.

The stored text of a document is one of many that hold it. The members of an object may
stand in any order, with any blanks around them; what is empty may be left out, as it was
in documents that were written before it existed; and a later version may have put members
of other names among them, with values of any shape. All these texts are read as the
document. What cannot be read is a text that lacks one of the two fields that are always
written, or that writes a field twice.

Floats are left out: which float a numeral is read as is another matter (`OwnText`).

  §1 Layouts  — `WrittenAs`: which JSON values write settings, profiles and documents.
  §2 Reading  — a layout is read as what it writes.
  §3 Refusals — what is lacking and what is written twice.
  §4 Texts    — `layouts_are_read_alike`.
-/
import SettingProfiles.Proofs.Document.RoundTrip
import SettingProfiles.Proofs.Json.Fields

namespace SettingProfiles

open Json (MapWrittenAs SpellsText)

/-! ## §1 Layouts -/

/-- How values other than floats are written. The texts of a set may stand in any order. -/
inductive Setting.WrittenAs : Setting → Json → Prop
  | bool (b : Bool) : WrittenAs (.bool b) (.bool b)
  | integer (i : Int64) : WrittenAs (.integer i) (.number (integerNumeral i.toInt))
  | text (s : String) : WrittenAs (.text s) (.text s)
  | textSet (texts : List String) : WrittenAs (.textSet (.of texts)) (.array (texts.map .text))

/-- A member that is written, or left out where what it holds is empty. -/
inductive Json.WrittenUnless (empty : Prop) (member : String × Json) :
    List (String × Json) → Prop
  | written : WrittenUnless empty member [member]
  | leftOut (h : empty) : WrittenUnless empty member []

open Json (WrittenUnless)

namespace Profile

/-- The fields of a profile. -/
def fieldNames : List String := ["id", "settingValues"]

/-- How a profile is written: its fields, and any members of other names, in any order. -/
inductive WrittenAs (p : Profile) : Json → Prop
  | mk {settings : Json} {id values extras members : List (String × Json)}
      (hsettings : MapWrittenAs Setting.WrittenAs p.settings settings)
      (hid : WrittenUnless (p.id = "") ("id", .text p.id) id)
      (hvalues : WrittenUnless (p.settings = .empty) ("settingValues", settings) values)
      (hextras : ∀ e ∈ extras, e.1 ∉ fieldNames)
      (hmembers : members.Perm (id ++ values ++ extras)) : WrittenAs p (.record members)

end Profile

namespace Document

/-- The fields of a document. -/
def fieldNames : List String :=
  ["currentProfileName", "profiles", "modeBindings", "migrationFlags"]

/-- How a document is written: its fields, and any members of other names, in any order. -/
inductive WrittenAs (doc : Document) : Json → Prop
  | mk {profiles modeBindings upgradeFlags : Json}
      {bindings flags extras members : List (String × Json)}
      (hprofiles : MapWrittenAs Profile.WrittenAs doc.profiles profiles)
      (hmodeBindings : MapWrittenAs (fun id j => j = .text id) doc.modeBindings modeBindings)
      (hupgradeFlags : MapWrittenAs (fun b j => j = .bool b) doc.upgradeFlags upgradeFlags)
      (hbindings :
        WrittenUnless (doc.modeBindings = .empty) ("modeBindings", modeBindings) bindings)
      (hflags : WrittenUnless (doc.upgradeFlags = .empty) ("migrationFlags", upgradeFlags) flags)
      (hextras : ∀ e ∈ extras, e.1 ∉ fieldNames)
      (hmembers : members.Perm
        ([("currentProfileName", .text doc.current), ("profiles", profiles)] ++ bindings ++ flags
          ++ extras)) : WrittenAs doc (.record members)

end Document

/-! ## §2 Reading -/

theorem Setting.ofJson?_of_writtenAs (v : Setting) (j : Json) (h : v.WrittenAs j) :
    ofJson? j = some v := by
  cases h with
  | bool b => rfl
  | integer i => exact ofNumeral?_integerNumeral i
  | text s => rfl
  | textSet texts => rw [ofJson?, mapM_asText?, Option.map_some]

/-- A member that may be left out is read as what it holds. -/
theorem Json.WrittenUnless.withDefault_eq {α : Type} {empty : Prop} {member : String × Json}
    {written : List (String × Json)} {read? : Json → Option α} {a default : α}
    (h : WrittenUnless empty member written) (hread : read? member.2 = some a)
    (hempty : empty → a = default) :
    Json.withDefault default read? (written.head?.map Prod.snd) = some a := by
  cases h with
  | written => exact hread
  | leftOut h => exact congrArg some (hempty h).symm

theorem Profile.ofJson?_of_writtenAs (p : Profile) (j : Json) (h : p.WrittenAs j) :
    ofJson? j = some p := by
  obtain ⟨hsettings, hid, hvalues, hextras, hmembers⟩ := h
  rename_i settings id values extras members
  have hfields : Json.fields? fieldNames (.record members)
      = some (.named [id.head?.map Prod.snd, values.head?.map Prod.snd]) := by
    rw [Json.fields?_layout hextras hmembers]
    cases hid <;> cases hvalues <;>
      simp [fieldNames, Json.fields?, Json.record, Json.field?, Json.valuesOf]
  have hreadId : Json.asText? (.text p.id) = some p.id := rfl
  have hreadValues : SettingMap.ofJson? settings = some p.settings :=
    Json.map?_of_written Setting.ofJson?_of_writtenAs hsettings
  unfold ofJson?
  rw [← fieldNames, hfields]
  simp only [Option.bind_eq_bind, Option.bind_some, Json.Fields.values]
  rw [hid.withDefault_eq hreadId fun h => h, hvalues.withDefault_eq hreadValues fun h => h]
  rfl

namespace Document

variable {doc : Document} {j : Json}

theorem ofJson?_of_writtenAs (h : doc.WrittenAs j) : ofJson? j = some doc := by
  obtain ⟨hprofiles, hmodeBindings, hupgradeFlags, hbindings, hflags, hextras, hmembers⟩ := h
  rename_i profiles modeBindings upgradeFlags bindings flags extras members
  have hfields : Json.fields? fieldNames (.record members)
      = some (.named [some (.text doc.current), some profiles, bindings.head?.map Prod.snd,
          flags.head?.map Prod.snd]) := by
    rw [Json.fields?_layout hextras hmembers]
    cases hbindings <;> cases hflags <;>
      simp [fieldNames, Json.fields?, Json.record, Json.field?, Json.valuesOf]
  have hreadProfiles : Json.map? Profile.ofJson? profiles = some doc.profiles :=
    Json.map?_of_written Profile.ofJson?_of_writtenAs hprofiles
  have hreadBindings : Json.map? Json.asText? modeBindings = some doc.modeBindings :=
    Json.map?_of_written (fun id j hj => by rw [hj]; rfl) hmodeBindings
  have hreadFlags : Json.map? Json.asBool? upgradeFlags = some doc.upgradeFlags :=
    Json.map?_of_written (fun b j hj => by rw [hj]; rfl) hupgradeFlags
  unfold ofJson?
  rw [← fieldNames, hfields]
  simp only [Option.bind_eq_bind, Option.bind_some, Json.Fields.values, Json.required,
    hreadProfiles]
  rw [hbindings.withDefault_eq hreadBindings fun h => h,
    hflags.withDefault_eq hreadFlags fun h => h]
  rfl

/-- A document without floats is written in its own text. -/
theorem writtenAs_toJson (hfloats : doc.ValuesAre fun v => ∀ x, v ≠ .float x) :
    doc.WrittenAs doc.toJson := by
  have hsettings : ∀ name p, doc.profiles.get? name = some p →
      MapWrittenAs Setting.WrittenAs p.settings (SettingMap.toJson p.settings) := by
    intro name p hp
    refine Json.mapWrittenAs_ofMap fun key v hv => ?_
    have hfloat := hfloats name p hp key v hv
    cases v with
    | bool b => exact .bool b
    | integer i => exact .integer i
    | float x => exact absurd rfl (hfloat x)
    | text s => exact .text s
    | textSet items =>
      have hitems := Setting.WrittenAs.textSet items.items
      rwa [TextSet.of_items] at hitems
  have hprofiles : MapWrittenAs Profile.WrittenAs doc.profiles
      (Json.ofMap Profile.toJson doc.profiles) := by
    refine Json.mapWrittenAs_ofMap fun name p hp => ?_
    exact .mk (hsettings name p hp) .written .written (by simp) (.refl _)
  exact .mk hprofiles (Json.mapWrittenAs_ofMap fun _ _ _ => rfl)
    (Json.mapWrittenAs_ofMap fun _ _ _ => rfl) .written .written (by simp) (.refl _)

end Document

/-! ## §3 Refusals -/

/-- The text has a member of this name twice, or more often. -/
def Json.Repeats (members : List (Option String × Json)) (name : String) : Prop :=
  2 ≤ (members.map Prod.fst).count (some name)

open Json (Repeats)

theorem Profile.ofJson?_of_repeats {members : List (Option String × Json)} {field : String}
    (hfield : field ∈ fieldNames) (h : Repeats members field) :
    ofJson? (.object members) = none := by
  unfold ofJson?
  rw [← fieldNames, Json.fields?_of_twice hfield h]
  rfl

namespace Document

variable {members : List (Option String × Json)}

theorem ofJson?_of_repeats {field : String} (hfield : field ∈ fieldNames)
    (h : Repeats members field) : ofJson? (.object members) = none := by
  unfold ofJson?
  rw [← fieldNames, Json.fields?_of_twice hfield h]
  rfl

/-- Of a document that is read, the name of the current profile and the profiles are written
once, and the profiles are read. -/
theorem fields_of_ofJson? (h : ofJson? (.object members) = some doc) :
    ∃ current profiles, Json.field? members "currentProfileName" = some (some current) ∧
      Json.field? members "profiles" = some (some profiles) ∧
      Json.map? Profile.ofJson? profiles = some doc.profiles := by
  obtain ⟨fields, hfields, h⟩ := Option.bind_eq_some_iff.mp h
  unfold Json.fields? at hfields
  dsimp only at hfields
  split at hfields
  · cases hfields
  · obtain ⟨values, hvalues, rfl⟩ := Option.map_eq_some_iff.mp hfields
    simp only [List.mapM_cons, List.mapM_nil, Option.bind_eq_bind, Option.pure_def,
      Option.bind_eq_some_iff, Option.some.injEq] at hvalues
    obtain ⟨current, hcurrent, _, ⟨profiles, hprofiles, _, ⟨bindings, -, _, ⟨flags, -, _, rfl, rfl⟩,
      rfl⟩, rfl⟩, rfl⟩ := hvalues
    obtain ⟨_, hreadCurrent, h⟩ := Option.bind_eq_some_iff.mp h
    obtain ⟨_, hreadProfiles, h⟩ := Option.bind_eq_some_iff.mp h
    obtain ⟨_, -, h⟩ := Option.bind_eq_some_iff.mp h
    obtain ⟨_, -, h⟩ := Option.bind_eq_some_iff.mp h
    cases h
    cases current with
    | none => cases hreadCurrent
    | some current =>
      cases profiles with
      | none => cases hreadProfiles
      | some profiles => exact ⟨current, profiles, hcurrent, hprofiles, hreadProfiles⟩

/-- The name of the current profile and the profiles cannot be left out. -/
theorem ofJson?_of_absent {field : String} (hfield : field ∈ ["currentProfileName", "profiles"])
    (h : some field ∉ members.map Prod.fst) : ofJson? (.object members) = none := by
  have habsent := Json.field?_of_absent h
  refine Option.eq_none_iff_forall_ne_some.mpr fun doc hread => ?_
  obtain ⟨current, profiles, hcurrent, hprofiles, -⟩ := fields_of_ofJson? hread
  simp only [List.mem_cons, List.not_mem_nil, or_false] at hfield
  obtain rfl | rfl := hfield
  · cases habsent.symm.trans hcurrent
  · cases habsent.symm.trans hprofiles

/-- A document with a profile that cannot be read cannot be read. -/
theorem ofJson?_of_profile {profiles : List (Option String × Json)} {name : Option String}
    {profile : Json} (hprofiles : (some "profiles", .object profiles) ∈ members)
    (hprofile : (name, profile) ∈ profiles) (h : Profile.ofJson? profile = none) :
    ofJson? (.object members) = none := by
  refine Option.eq_none_iff_forall_ne_some.mpr fun doc hread => ?_
  obtain ⟨current, found, -, hfound, hreadProfiles⟩ := fields_of_ofJson? hread
  obtain rfl : found = .object profiles := Json.eq_of_field? hfound hprofiles
  rw [Json.map?_of_refused hprofile h] at hreadProfiles
  cases hreadProfiles

end Document

/-! ## §4 Texts -/

namespace Document

/-- **All layouts of a document are read alike.** Take any text that spells a JSON value, with
any blanks between its tokens. If the value writes a document, in whichever order the
members stand, with or without the fields that may be left out where they are empty, and
with any members of other names in the document and its profiles, then the text is read as
that document; a document without floats is written so in its own text, too. If the value
is an object without the name of the current profile or without the profiles, or one that
has a field of a document twice, or one with a profile that has a field of profiles twice,
then the text is not read as any document, whatever else is in it. -/
theorem layouts_are_read_alike :
    (∀ (doc : Document) j text, doc.WrittenAs j → SpellsText j text →
      decode? (String.ofList text) = some doc) ∧
    (∀ doc : Document, (doc.ValuesAre fun v => ∀ x, v ≠ .float x) → doc.WrittenAs doc.toJson) ∧
    ∀ members text, SpellsText (.object members) text →
      ((∃ field ∈ ["currentProfileName", "profiles"], some field ∉ members.map Prod.fst) ∨
        (∃ field ∈ fieldNames, Repeats members field) ∨
        ∃ profiles name profile, (some "profiles", .object profiles) ∈ members ∧
          (name, .object profile) ∈ profiles ∧
            ∃ field ∈ Profile.fieldNames, Repeats profile field) →
      decode? (String.ofList text) = none := by
  have hdecode : ∀ {j text}, SpellsText j text → decode? (String.ofList text) = ofJson? j := by
    intro j text hspells
    rw [decode?, Json.read?_of_spells hspells, Option.bind_some]
  refine ⟨fun doc j text hwritten hspells => ?_, fun doc => writtenAs_toJson, ?_⟩
  · rw [hdecode hspells, ofJson?_of_writtenAs hwritten]
  · rintro members text hspells (⟨field, hfield, habsent⟩ | ⟨field, hfield, htwice⟩ |
      ⟨profiles, name, profile, hprofiles, hprofile, field, hfield, htwice⟩)
    · rw [hdecode hspells, ofJson?_of_absent hfield habsent]
    · rw [hdecode hspells, ofJson?_of_repeats hfield htwice]
    · rw [hdecode hspells,
        ofJson?_of_profile hprofiles hprofile (Profile.ofJson?_of_repeats hfield htwice)]

/-- The theorem for a document that was written before profiles had ids, with the name of
the current profile last and two members that no field has the name of. -/
theorem layouts_are_read_alike_legacy :
    let settings : SettingMap := .insert .empty SettingName.provider (.text "openai");
    let doc : Document := {
      current := "work"
      profiles := .insert .empty "work" ⟨"", settings⟩
      modeBindings := .empty
      upgradeFlags := .empty };
    let profile : Json := .record [("note", .null),
      ("settingValues", .record [(SettingName.provider, .text "openai")])];
    let j : Json := .record [("profiles", .record [("work", profile)]), ("versions", .array []),
      ("currentProfileName", .text "work")];
    doc.WrittenAs j ∧ SpellsText j j.compact.toList ∧ decode? j.compact = some doc := by
  intro settings doc profile j
  have hsettings : MapWrittenAs Setting.WrittenAs settings
      (.record [(SettingName.provider, .text "openai")]) :=
    .mk (.refl _) (.cons ⟨rfl, .text _⟩ .nil)
  have hprofile : Profile.WrittenAs ⟨"", settings⟩ profile := by
    refine .mk hsettings (.leftOut rfl) .written ?_ (List.Perm.swap _ _ [])
    simp [Profile.fieldNames]
  have hprofiles : MapWrittenAs Profile.WrittenAs doc.profiles (.record [("work", profile)]) := by
    refine .mk (.refl _) (List.Forall₂.cons ?_ .nil)
    exact ⟨rfl, hprofile⟩
  have hmembers : ([("profiles", .record [("work", profile)]), ("versions", .array [])]
      ++ [("currentProfileName", .text "work")] : List (String × Json)).Perm
      ([("currentProfileName", .text "work"), ("profiles", .record [("work", profile)])] ++ [] ++ []
        ++ [("versions", .array [])]) := List.perm_append_comm
  have hwritten : doc.WrittenAs j :=
    .mk hprofiles (.mk (.refl _) .nil) (.mk (.refl _) .nil) (.leftOut rfl) (.leftOut rfl)
      (by simp [fieldNames]) hmembers
  have hspells : SpellsText j j.compact.toList := Json.spellsText_compact j
  refine ⟨hwritten, hspells, ?_⟩
  rw [← String.ofList_toList (s := j.compact)]
  exact layouts_are_read_alike.1 doc j _ hwritten hspells

end Document

end SettingProfiles

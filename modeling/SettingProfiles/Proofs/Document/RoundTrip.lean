/-
SettingProfiles.Proofs.Document.RoundTrip — the stored text of a document, read
again.

A stored text is one of JSON's spellings, records and maps are read as they were
written, and of the values only the floats come back changed. So what a document's
own text is read as is the document with every float read again, and there is
nothing to read exactly if one of the floats is refused.

  §1 Settings  — `Setting.reread?`, and the floats in it.
  §2 Records   — profiles and documents.
  §3 Documents — `decode?_encode`, and what `reread?` keeps.
-/
import SettingProfiles.Document.Codec
import SettingProfiles.Proofs.Document.Values
import SettingProfiles.Proofs.Json.Maps
import SettingProfiles.Proofs.Json.Printer

namespace SettingProfiles

/-! ## §1 Settings -/

namespace FloatStyle

/-- In a document a float shows a point or a power of ten. -/
theorem isWhole_of_document {x : Binary64} {n : Numeral} (h : document.numeral? x = some n) :
    n.isWhole = false := by
  cases x with
  | nan => cases h
  | infinite negative => cases h
  | finite negative mantissa exponent hc =>
    simp only [numeral?, Option.some.injEq] at h
    subst h
    split
    · unfold positionalNumeral
      split
      · rfl
      · simp [Numeral.isWhole, Digits.padded_ne_nil]
    · simp [Numeral.isWhole, scientificNumeral]

end FloatStyle

/-- The float that the numeral of a float is read as. -/
def Binary64.reread? (x : Binary64) : Option Binary64 :=
  (FloatStyle.document.numeral? x).bind Setting.floatOfNumeral?

namespace Setting

/-- The value that is read where the value was written. -/
def reread? : Setting → Option Setting
  | .float x => x.reread?.map .float
  | v => some v

theorem ofNumeral?_integerNumeral (i : Int64) :
    ofNumeral? (integerNumeral i.toInt) = some (.integer i) := by
  have hplain : ((integerNumeral i.toInt).isWhole &&
      !((integerNumeral i.toInt).negative && (integerNumeral i.toInt).whole == 0)) = true := by
    simp only [integerNumeral, Numeral.isWhole, Bool.and_eq_true, Bool.not_eq_true',
      Bool.and_eq_false_iff, decide_eq_false_iff_not, beq_eq_false_iff_ne]
    exact ⟨⟨rfl, rfl⟩, by omega⟩
  have hvalue : (if (integerNumeral i.toInt).negative = true
      then -((integerNumeral i.toInt).whole : Int)
      else (integerNumeral i.toInt).whole) = i.toInt := by
    simp only [integerNumeral, decide_eq_true_eq]
    split <;> omega
  unfold ofNumeral?
  simp only [hplain, if_true, hvalue, int64OfInt?_toInt]

theorem ofNumeral?_document {x : Binary64} {n : Numeral}
    (h : FloatStyle.document.numeral? x = some n) :
    ofNumeral? n = (floatOfNumeral? n).map .float := by
  simp [ofNumeral?, FloatStyle.isWhole_of_document h]

theorem mapM_asText? (texts : List String) :
    (texts.map Json.text).mapM Json.asText? = some texts := by
  induction texts with
  | nil => rfl
  | cons first texts ih =>
    rw [List.map_cons, List.mapM_cons, ih]
    rfl

/-- What is read where a value was written. -/
theorem ofJson?_toJson (v : Setting) : ofJson? v.toJson = v.reread? := by
  cases v with
  | bool b => rfl
  | integer i => exact ofNumeral?_integerNumeral i
  | float x =>
    cases h : FloatStyle.document.numeral? x with
    | none =>
      simp only [reread?, Binary64.reread?, toJson, h]
      rfl
    | some n =>
      simp only [reread?, Binary64.reread?, toJson, h]
      exact ofNumeral?_document h
  | text s => rfl
  | textSet items =>
    simp only [toJson, ofJson?, reread?, mapM_asText?]
    rw [Option.map_some, TextSet.of_items]

end Setting

/-! ## §2 Records -/

namespace Profile

/-- The profile that is read where the profile was written. -/
def reread? (p : Profile) : Option Profile :=
  (p.settings.mapValues? Setting.reread?).map fun settings => { p with settings }

theorem ofJson?_toJson (p : Profile) : ofJson? p.toJson = p.reread? := by
  have hfields : Json.fields? ["id", "settingValues"] p.toJson
      = some (.named [some (.text p.id), some (SettingMap.toJson p.settings)]) := by
    simp [toJson, Json.fields?, Json.record, Json.field?, Json.valuesOf]
  have hsettings : SettingMap.ofJson? (SettingMap.toJson p.settings)
      = p.settings.mapValues? Setting.reread? := by
    unfold SettingMap.ofJson? SettingMap.toJson
    rw [Json.map?_ofMap]
    simp only [Setting.ofJson?_toJson]
  unfold ofJson? reread?
  rw [hfields]
  simp only [Option.bind_eq_bind, Option.bind_some, Json.Fields.values, Json.withDefault, hsettings]
  cases p.settings.mapValues? Setting.reread? <;> rfl

end Profile

/-! ## §3 Documents -/

namespace Document

/-- The document that is read where the document was written. -/
def reread? (doc : Document) : Option Document :=
  (doc.profiles.mapValues? Profile.reread?).map fun profiles => { doc with profiles }

theorem ofJson?_toJson (doc : Document) : ofJson? doc.toJson = doc.reread? := by
  have hfields : Json.fields? ["currentProfileName", "profiles", "modeBindings", "migrationFlags"]
      doc.toJson = some (.named [some (.text doc.current),
        some (Json.ofMap Profile.toJson doc.profiles), some (Json.ofMap .text doc.modeBindings),
        some (Json.ofMap .bool doc.upgradeFlags)]) := by
    simp [toJson, Json.fields?, Json.record, Json.field?, Json.valuesOf]
  have hbindings : doc.modeBindings.mapValues? (fun id => Json.asText? (.text id))
      = some doc.modeBindings := SortedMap.mapValues?_eq_self fun _ _ _ => rfl
  have hflags : doc.upgradeFlags.mapValues? (fun b => Json.asBool? (.bool b))
      = some doc.upgradeFlags := SortedMap.mapValues?_eq_self fun _ _ _ => rfl
  unfold ofJson? reread?
  rw [hfields]
  simp only [Option.bind_eq_bind, Option.bind_some, Json.Fields.values, Json.withDefault,
    Json.required, Json.asText?, Json.text, Json.map?_ofMap, Profile.ofJson?_toJson] at hbindings ⊢
  rw [hbindings, hflags]
  cases doc.profiles.mapValues? Profile.reread? <;> rfl

/-- **A document's own text is read as the document with its floats read again.** -/
theorem decode?_encode (doc : Document) : decode? doc.encode = doc.reread? := by
  unfold decode? encode
  rw [Json.read?_pretty, Option.bind_some, ofJson?_toJson]

variable {doc doc' : Document}

/-- A document is read again exactly if each of its values is. -/
theorem reread?_isSome_iff :
    doc.reread?.isSome = true ↔ doc.ValuesAre fun v => v.reread?.isSome = true := by
  unfold reread?
  rw [Option.isSome_map, SortedMap.mapValues?_isSome_iff]
  refine forall_congr' fun name => forall_congr' fun p => imp_congr_right fun _ => ?_
  unfold Profile.reread?
  rw [Option.isSome_map, SortedMap.mapValues?_isSome_iff]
  rfl

/-- A document is read as it was written exactly if each of its values is. -/
theorem reread?_eq_self_iff :
    doc.reread? = some doc ↔ doc.ValuesAre fun v => v.reread? = some v := by
  have hprofiles : doc.reread? = some doc ↔
      doc.profiles.mapValues? Profile.reread? = some doc.profiles := by
    unfold reread?
    constructor
    · intro h
      obtain ⟨profiles, hprofiles, hdoc⟩ := Option.map_eq_some_iff.mp h
      rw [hprofiles]
      exact congrArg some (congrArg Document.profiles hdoc)
    · intro h
      rw [h]
      rfl
  have hsettings : ∀ p : Profile, p.reread? = some p ↔
      p.settings.mapValues? Setting.reread? = some p.settings := by
    intro p
    unfold Profile.reread?
    constructor
    · intro h
      obtain ⟨settings, hsettings, hp⟩ := Option.map_eq_some_iff.mp h
      rw [hsettings]
      exact congrArg some (congrArg Profile.settings hp)
    · intro h
      rw [h]
      rfl
  rw [hprofiles, SortedMap.mapValues?_eq_self_iff]
  simp only [hsettings, SortedMap.mapValues?_eq_self_iff]
  rfl

/-- Names and ids are read as they were written. -/
theorem get?_id_of_reread? (h : doc.reread? = some doc') (name : String) :
    (doc'.profiles.get? name).map Profile.id = (doc.profiles.get? name).map Profile.id := by
  obtain ⟨profiles, hprofiles, rfl⟩ := Option.map_eq_some_iff.mp h
  have hget := SortedMap.get?_of_mapValues? hprofiles name
  cases hp : doc.profiles.get? name with
  | none =>
    cases hp' : profiles.get? name with
    | none => rfl
    | some p' => rw [hp, hp'] at hget; cases hget
  | some p =>
    cases hp' : profiles.get? name with
    | none => rw [hp, hp'] at hget; cases hget
    | some p' =>
      rw [hp, hp', Option.map_some, Option.map_some] at hget
      obtain ⟨settings, -, rfl⟩ := Option.map_eq_some_iff.mp (Option.some.inj hget)
      rfl

theorem Sound.reread (h : doc.Sound) (hread : doc.reread? = some doc') : doc'.Sound := by
  refine h.of_get?_id (get?_id_of_reread? hread) ?_
  obtain ⟨profiles, -, rfl⟩ := Option.map_eq_some_iff.mp hread
  rfl

end Document

end SettingProfiles

/-
SettingProfiles.Proofs.Document.OwnText — what becomes of a document in its own text.

A document is read where it was written, in either layout. Everything comes back as
it was, whatever characters the texts in it are made of, but for the floats: reading a
float is fast and not always exact. How much that matters is decided float by float, by
reading the float from its own text, outside of any document. If every float survives
that, the document is the same; if every float is at least read, the document differs in
these floats alone, and each is the float that its own text is read as.

  §1 Values    — a value in its own text, and how values may differ afterwards.
  §2 Documents — the same for documents; `own_text_reads_back`.
-/
import SettingProfiles.Proofs.Document.RoundTrip

namespace SettingProfiles

/-! ## §1 Values -/

namespace Setting

/-- The JSON text of a value. -/
def ownText (v : Setting) : String := v.toJson.compact

/-- The value that a JSON text is read as. -/
def ofText? (text : String) : Option Setting := (Json.read? text).bind ofJson?

theorem ofText?_ownText (v : Setting) : ofText? v.ownText = v.reread? := by
  rw [ofText?, ownText, Json.read?_compact, Option.bind_some, ofJson?_toJson]

/-- The second value is read where the first was written: of a float it is the float that
the float's own text is read as, of any other value it is the value itself. -/
inductive ReadAs : Setting → Setting → Prop
  | float {x y : Binary64} (h : ofText? (ownText (.float x)) = some (.float y)) :
    ReadAs (.float x) (.float y)
  | other {v : Setting} (h : ∀ x, v ≠ .float x) : ReadAs v v

theorem reread?_of_not_float {v : Setting} (h : ∀ x, v ≠ .float x) : v.reread? = some v := by
  cases v with
  | float x => exact absurd rfl (h x)
  | bool | integer | text | textSet => rfl

theorem readAs_of_reread? {v v' : Setting} (h : v.reread? = some v') : v.ReadAs v' := by
  cases v with
  | float x =>
    obtain ⟨y, -, rfl⟩ := Option.map_eq_some_iff.mp h
    exact .float ((ofText?_ownText _).trans h)
  | bool | integer | text | textSet =>
    cases h
    exact .other nofun

end Setting

/-! ## §2 Documents -/

/-- The second profile differs from the first in its floats alone. -/
structure Profile.ReadAs (p p' : Profile) : Prop where
  id : p'.id = p.id
  settings : ∀ key, Option.Rel Setting.ReadAs (p.settings.get? key) (p'.settings.get? key)

namespace Document

/-- The second document differs from the first in the floats of its profiles alone. -/
structure ReadAs (doc doc' : Document) : Prop where
  current : doc'.current = doc.current
  modeBindings : doc'.modeBindings = doc.modeBindings
  upgradeFlags : doc'.upgradeFlags = doc.upgradeFlags
  profiles : ∀ name,
    Option.Rel Profile.ReadAs (doc.profiles.get? name) (doc'.profiles.get? name)

/-- A profile of the document has a setting of this value. -/
def Holds (doc : Document) (v : Setting) : Prop :=
  ∃ name p key, doc.profiles.get? name = some p ∧ p.settings.get? key = some v

variable {doc doc' : Document}

theorem valuesAre_iff_holds {good : Setting → Prop} :
    doc.ValuesAre good ↔ ∀ v, doc.Holds v → good v :=
  ⟨fun h v ⟨name, p, key, hp, hv⟩ => h name p hp key v hv,
    fun h name p hp key v hv => h v ⟨name, p, key, hp, hv⟩⟩

/-- Only the floats need to be looked at. -/
theorem valuesAre_iff_floats {good : Setting → Prop}
    (hgood : ∀ v, (∀ x, v ≠ .float x) → good v) :
    doc.ValuesAre good ↔ ∀ x, doc.Holds (.float x) → good (.float x) := by
  rw [valuesAre_iff_holds]
  refine ⟨fun h x => h _, fun h v hv => ?_⟩
  by_cases hfloat : ∃ x, v = .float x
  · obtain ⟨x, rfl⟩ := hfloat
    exact h x hv
  · exact hgood v fun x hx => hfloat ⟨x, hx⟩

theorem readAs_of_reread? (h : doc.reread? = some doc') : doc.ReadAs doc' := by
  obtain ⟨profiles, hprofiles, rfl⟩ := Option.map_eq_some_iff.mp h
  refine ⟨rfl, rfl, rfl, SortedMap.rel_of_mapValues? hprofiles fun p p' hp => ?_⟩
  obtain ⟨settings, hsettings, rfl⟩ := Option.map_eq_some_iff.mp hp
  exact ⟨rfl, SortedMap.rel_of_mapValues? hsettings fun _ _ => Setting.readAs_of_reread?⟩

/-- A float of the document was read from its own text. -/
theorem ReadAs.isSome_of_holds {x : Binary64} (h : doc.ReadAs doc') (hx : doc.Holds (.float x)) :
    (Setting.ofText? (Setting.ownText (.float x))).isSome = true := by
  obtain ⟨name, p, key, hp, hv⟩ := hx
  have hprofile := h.profiles name
  rw [hp] at hprofile
  generalize doc'.profiles.get? name = found at hprofile
  cases hprofile with
  | some hp' =>
    have hsetting := hp'.settings key
    rw [hv] at hsetting
    generalize SortedMap.get? _ key = found at hsetting
    cases hsetting with
    | some hv' =>
      cases hv' with
      | float hread =>
        rw [hread]
        rfl
      | other hother => exact absurd rfl (hother x)

/-- A document with values that are read as they were written is read as itself. -/
theorem decode?_encode_eq_self (hvalues : doc.ValuesAre fun v => v.reread? = some v) :
    decode? doc.encode = some doc :=
  (decode?_encode doc).trans (reread?_eq_self_iff.mpr hvalues)

/-- In either layout the text is read as the document with its floats read again. -/
theorem decode?_of_layout {text : String}
    (h : text = doc.toJson.pretty ∨ text = doc.toJson.compact) : decode? text = doc.reread? := by
  rcases h with rfl | rfl
  · exact decode?_encode doc
  · rw [decode?, Json.read?_compact, Option.bind_some, ofJson?_toJson]

/-- **A document in its own text.** For every document and either layout: the text is read
as this very document if and only if each of its floats is read unchanged from the float's
own text. And it is read as a document that differs in floats alone, each the float that
the old one's own text is read as, if and only if each of its floats is read at all. -/
theorem own_text_reads_back (doc : Document) {text : String}
    (htext : text = doc.toJson.pretty ∨ text = doc.toJson.compact) :
    (decode? text = some doc ↔ ∀ x, doc.Holds (.float x) →
      Setting.ofText? (Setting.ownText (.float x)) = some (.float x)) ∧
    ((∃ doc', decode? text = some doc' ∧ doc.ReadAs doc') ↔ ∀ x, doc.Holds (.float x) →
      (Setting.ofText? (Setting.ownText (.float x))).isSome = true) := by
  rw [decode?_of_layout htext]
  simp only [Setting.ofText?_ownText]
  constructor
  · rw [reread?_eq_self_iff]
    exact valuesAre_iff_floats fun v hv => Setting.reread?_of_not_float hv
  · constructor
    · rintro ⟨doc', -, hdoc'⟩ x hx
      rw [← Setting.ofText?_ownText]
      exact hdoc'.isSome_of_holds hx
    · intro hfloats
      have hvalues : doc.ValuesAre fun v => v.reread?.isSome = true :=
        (valuesAre_iff_floats fun v hv => by rw [Setting.reread?_of_not_float hv]; rfl).mpr hfloats
      obtain ⟨doc', hdoc'⟩ := Option.isSome_iff_exists.mp (reread?_isSome_iff.mpr hvalues)
      exact ⟨doc', hdoc', readAs_of_reread? hdoc'⟩

/-- The theorem for a document with a quote, a backslash and a control character in its
texts: one half is read unchanged, and one eleventh as a float close to it. -/
theorem own_text_reads_back_ordinary :
    let odd := "\"\\\u0001";
    let doc (x : Binary64) : Document := {
      current := odd
      profiles := SortedMap.empty.insert odd ⟨odd, SortedMap.empty.insert odd (.float x)⟩
      modeBindings := .empty
      upgradeFlags := .empty };
    let half := (Binary64.ofNat 1).div (.ofNat 2);
    let eleventh := (Binary64.ofNat 1).div (.ofNat 11)
    decode? (doc half).toJson.pretty = some (doc half) ∧
      decode? (doc eleventh).toJson.compact ≠ some (doc eleventh) ∧
      ∃ doc', decode? (doc eleventh).toJson.compact = some doc' ∧ (doc eleventh).ReadAs doc' := by
  intro odd doc half eleventh
  have hholds : ∀ x y, (doc x).Holds (.float y) → y = x := by
    rintro x y ⟨name, p, key, hp, hv⟩
    simp only [doc, SortedMap.get?_insert, SortedMap.get?_empty, Option.ite_none_right_eq_some,
      Option.some.injEq] at hp
    obtain ⟨-, rfl⟩ := hp
    simp only [SortedMap.get?_insert, SortedMap.get?_empty, Option.ite_none_right_eq_some,
      Option.some.injEq, Setting.float.injEq] at hv
    exact hv.2.symm
  have hself : (doc eleventh).Holds (.float eleventh) :=
    ⟨odd, _, odd, SortedMap.get?_insert_self _ _ _, SortedMap.get?_insert_self _ _ _⟩
  have hhalf := own_text_reads_back (doc half) (.inl rfl)
  have heleventh := own_text_reads_back (doc eleventh) (.inr rfl)
  simp only [Setting.ofText?_ownText] at hhalf heleventh
  refine ⟨hhalf.1.mpr fun y hy => ?_, fun hread => ?_, heleventh.2.mpr fun y hy => ?_⟩
  · rw [hholds half y hy]
    decide +kernel
  · exact absurd (heleventh.1.mp hread eleventh hself) (by decide +kernel)
  · rw [hholds eleventh y hy]
    decide +kernel

end Document

end SettingProfiles

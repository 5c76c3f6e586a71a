/-
SettingProfiles.Overrides — settings that profiles hold against the global
value.

A setting of a profile either follows the global value or is overridden.
`toggle` switches between the two: switched on, the override starts from the
global value, so that nothing changes at that moment; switched off, its
value is lost. A value recorded while the setting is overridden is in force
at once. One recorded at other times is set aside: it has no effect, and the
override that is switched on next starts from the global value all the same.
An override that started from no value leaves the global one in force until
a value is recorded.

Overrides belong to profile ids, live as long as the session and are never
stored.

  §1 Layers    — what holds for one setting of one profile, and what
                 recording and switching make of it.
  §2 Overrides — the layers of all settings.
  §3 Look-up   — what each operation does to `layer`.
-/
import SettingProfiles.Setting.Basic

namespace SettingProfiles

/-! ## §1 Layers -/

/-- Which value is in force for a setting of a profile. -/
inductive SettingLayer where
  /-- The global value. What was recorded meanwhile is set aside, without effect. -/
  | inherited (staged : Option Setting)
  /-- The value recorded for the profile; as long as there is none, the global one. -/
  | overridden (recorded : Option Setting)
  deriving DecidableEq

namespace SettingLayer

def isOverridden : SettingLayer → Bool
  | inherited _ => false
  | overridden _ => true

/-- The value in force, given the global one. -/
def resolve (global : Option Setting) : SettingLayer → Option Setting
  | overridden (some value) => some value
  | _ => global

/-- Records a value, or sets it aside. -/
def record (value : Setting) : SettingLayer → SettingLayer
  | inherited _ => inherited (some value)
  | overridden _ => overridden (some value)

/-- Switches between the global value and an override that starts from it. -/
def toggle (global : Option Setting) : SettingLayer → SettingLayer
  | inherited _ => overridden global
  | overridden _ => inherited none

/-- Recording a value does not switch. -/
@[simp] theorem isOverridden_record (value : Setting) (layer : SettingLayer) :
    (layer.record value).isOverridden = layer.isOverridden := by
  cases layer <;> rfl

@[simp] theorem isOverridden_toggle (global : Option Setting) (layer : SettingLayer) :
    (layer.toggle global).isOverridden = !layer.isOverridden := by
  cases layer <;> rfl

theorem resolve_of_not_isOverridden {layer : SettingLayer} (h : layer.isOverridden = false)
    (global : Option Setting) : layer.resolve global = global := by
  cases layer with
  | inherited staged => rfl
  | overridden recorded => cases h

end SettingLayer

/-! ## §2 Overrides -/

/-- The settings of each profile id that have a layer of their own. -/
structure Overrides where
  layers : SortedMap (SortedMap SettingLayer)
  deriving DecidableEq

namespace Overrides

/-- Every setting follows the global value. -/
def empty : Overrides := ⟨.empty⟩

instance : Inhabited Overrides := ⟨empty⟩

/-- The settings of a profile id that have a layer of their own. -/
def layersOf (o : Overrides) (profile : String) : SortedMap SettingLayer :=
  (o.layers.get? profile).getD .empty

/-- The layer of a setting. One without a layer of its own follows the global value. -/
def layer (o : Overrides) (profile setting : String) : SettingLayer :=
  ((o.layersOf profile).get? setting).getD (.inherited none)

def isOverridden (o : Overrides) (profile setting : String) : Bool :=
  (o.layer profile setting).isOverridden

/-- The value in force, given the global one. -/
def resolve (o : Overrides) (profile setting : String) (global : Option Setting) :
    Option Setting :=
  (o.layer profile setting).resolve global

/-- Records a value for a setting. It is in force if the setting is overridden. -/
def set (o : Overrides) (profile setting : String) (value : Setting) : Overrides :=
  ⟨o.layers.insert profile
    ((o.layersOf profile).insert setting ((o.layer profile setting).record value))⟩

/-- Switches between the global value and an override that starts from it. -/
def toggle (o : Overrides) (profile setting : String) (global : Option Setting) : Overrides :=
  match o.layer profile setting with
  | .overridden _ => ⟨o.layers.insert profile ((o.layersOf profile).erase setting)⟩
  | .inherited _ =>
    ⟨o.layers.insert profile ((o.layersOf profile).insert setting (.overridden global))⟩

/-- The overridden settings of a profile id, increasing. -/
def settings (o : Overrides) (profile : String) : List String :=
  ((o.layersOf profile).toList.filter fun e => e.2.isOverridden).map Prod.fst

/-- Drops all layers of a profile id. -/
def forget (o : Overrides) (profile : String) : Overrides := ⟨o.layers.erase profile⟩

/-- Drops all layers. -/
def clear (_ : Overrides) : Overrides := empty

/-! ## §3 Look-up -/

@[simp] theorem layer_empty (profile setting : String) :
    empty.layer profile setting = .inherited none := rfl

theorem layersOf_insert (layers : SortedMap (SortedMap SettingLayer)) (p profile : String)
    (m : SortedMap SettingLayer) :
    layersOf ⟨layers.insert p m⟩ profile =
      if p = profile then m else layersOf ⟨layers⟩ profile := by
  unfold layersOf
  rw [SortedMap.get?_insert]
  split <;> rfl

/-- Recording a value changes one layer. -/
theorem layer_set (o : Overrides) (p s : String) (value : Setting) (profile setting : String) :
    (o.set p s value).layer profile setting
      = if p = profile ∧ s = setting then (o.layer p s).record value
        else o.layer profile setting := by
  unfold set
  by_cases hp : p = profile
  · subst hp
    by_cases hs : s = setting
    · simp [layer, layersOf_insert, hs]
    · simp [layer, layersOf_insert, SortedMap.get?_insert, hs]
  · simp [layer, layersOf_insert, hp]

/-- Switching changes one layer. -/
theorem layer_toggle (o : Overrides) (p s : String) (global : Option Setting)
    (profile setting : String) :
    (o.toggle p s global).layer profile setting
      = if p = profile ∧ s = setting then (o.layer p s).toggle global
        else o.layer profile setting := by
  unfold toggle
  by_cases hp : p = profile
  · subst hp
    cases hlayer : o.layer p s with
    | inherited staged =>
      by_cases hs : s = setting
      · simp [layer, layersOf_insert, SettingLayer.toggle, hs]
      · simp [layer, layersOf_insert, SortedMap.get?_insert, hs]
    | overridden recorded =>
      by_cases hs : s = setting
      · simp [layer, layersOf_insert, SortedMap.get?_erase, SettingLayer.toggle, hs]
      · simp [layer, layersOf_insert, SortedMap.get?_erase, hs]
  · cases o.layer p s <;> simp [layer, layersOf_insert, hp]

theorem layer_forget (o : Overrides) (forgotten profile setting : String) :
    (o.forget forgotten).layer profile setting
      = if forgotten = profile then .inherited none else o.layer profile setting := by
  unfold layer layersOf forget
  rw [SortedMap.get?_erase]
  split <;> rfl

@[simp] theorem layer_clear (o : Overrides) (profile setting : String) :
    o.clear.layer profile setting = .inherited none := rfl

end Overrides

end SettingProfiles

/-
SettingProfiles.Proofs.Overrides.History — the overrides in terms of the calls that
made them.

The overrides keep a layer for each setting that was switched or recorded. Here the
layer is read off the history of calls instead, in the words of a user: how often the
setting was switched since the layers of its profile were last dropped, from which
global value it was switched last, and what has been recorded since.

  §1 Calls     — what changes overrides, and what a call does to one layer
                 (`layer_run`).
  §2 Histories — the calls that count, and the value that they leave.
  §3 Calls at the end of a history — what each kind of call adds.
  §4 Layers    — `layer_after`: the layer at the end of a history, by induction on it.
  §5 Settings  — the overridden settings of a profile, and
                 `overrides_determined_by_history`.
-/
import Mathlib.Algebra.Ring.Parity
import Mathlib.Data.List.DropRight
import SettingProfiles.Overrides
import SettingProfiles.Proofs.SortedMap

namespace SettingProfiles

/-! ## §1 Calls -/

/-- A call that changes overrides. -/
inductive OverrideCall where
  | toggle (profile setting : String) (global : Option Setting)
  | set (profile setting : String) (value : Setting)
  | forget (profile : String)
  | clear
  deriving DecidableEq

namespace OverrideCall

/-- What the call makes of the overrides. -/
def run : OverrideCall → Overrides → Overrides
  | toggle profile setting global, o => o.toggle profile setting global
  | set profile setting value, o => o.set profile setting value
  | forget profile, o => o.forget profile
  | clear, o => o.clear

variable (profile setting : String)

/-- The global value that the call passes to switch the setting. -/
def switchedFrom? : OverrideCall → Option (Option Setting)
  | toggle p s global => if p = profile ∧ s = setting then some global else none
  | _ => none

/-- The value that the call records for the setting. -/
def recorded? : OverrideCall → Option Setting
  | set p s value => if p = profile ∧ s = setting then some value else none
  | _ => none

/-- The call switches the setting. -/
def switches (c : OverrideCall) : Bool := (c.switchedFrom? profile setting).isSome

/-- The call drops all layers of the profile. -/
def drops : OverrideCall → Bool
  | forget p => p == profile
  | clear => true
  | _ => false

/-- The call is on this very setting, or drops the layers of its profile. -/
def concerns (c : OverrideCall) : Bool :=
  c.drops profile || c.switches profile setting || (c.recorded? profile setting).isSome

/-- What the call makes of the layer of the setting. -/
def onLayer (c : OverrideCall) (layer : SettingLayer) : SettingLayer :=
  if c.drops profile then .inherited none
  else match c.switchedFrom? profile setting, c.recorded? profile setting with
    | some global, _ => layer.toggle global
    | none, some value => layer.record value
    | none, none => layer

variable {profile setting}

/-- A call on another setting leaves the layer as it is. -/
theorem onLayer_of_not_concerns {c : OverrideCall} (hc : c.concerns profile setting = false)
    (layer : SettingLayer) : c.onLayer profile setting layer = layer := by
  simp only [concerns, switches, Bool.or_eq_false_iff, Option.isSome_eq_false_iff,
    Option.isNone_iff_eq_none] at hc
  obtain ⟨⟨hdrops, hswitches⟩, hvalue⟩ := hc
  simp [onLayer, hdrops, hswitches, hvalue]

end OverrideCall

namespace Overrides

variable {profile setting : String} {calls : List OverrideCall} {c : OverrideCall}

/-- What a call does to a layer depends on nothing but that layer. -/
theorem layer_run (c : OverrideCall) (o : Overrides) (profile setting : String) :
    (c.run o).layer profile setting = c.onLayer profile setting (o.layer profile setting) := by
  cases c with
  | toggle p s global =>
    simp only [OverrideCall.run, layer_toggle, OverrideCall.onLayer, OverrideCall.drops,
      OverrideCall.switchedFrom?, OverrideCall.recorded?]
    split
    · rename_i hsame
      obtain ⟨rfl, rfl⟩ := hsame
      rfl
    · rfl
  | set p s value =>
    simp only [OverrideCall.run, layer_set, OverrideCall.onLayer, OverrideCall.drops,
      OverrideCall.switchedFrom?, OverrideCall.recorded?]
    split
    · rename_i hsame
      obtain ⟨rfl, rfl⟩ := hsame
      rfl
    · rfl
  | forget p =>
    simp [OverrideCall.run, layer_forget, OverrideCall.onLayer, OverrideCall.drops,
      OverrideCall.switchedFrom?, OverrideCall.recorded?]
  | clear => rfl

/-! ## §2 Histories -/

/-- The overrides after a history of calls. -/
def after (calls : List OverrideCall) : Overrides := calls.foldl (fun o c => c.run o) empty

variable (profile setting) (calls)

/-- The calls since the layers of the profile were last dropped. -/
def sinceDropped : List OverrideCall := calls.rtakeWhile fun c => !c.drops profile

/-- How often the setting was switched since the layers of its profile were last dropped. -/
def switchCount : Nat := (sinceDropped profile calls).countP (·.switches profile setting)

/-- The value recorded last, since the setting was last switched or its layer dropped. -/
def lastRecorded : Option Setting :=
  (((sinceDropped profile calls).rtakeWhile fun c => !c.switches profile setting).filterMap
    (·.recorded? profile setting)).getLast?

/-- The global value that was passed when the setting was last switched. -/
def lastSwitchedFrom : Option Setting :=
  ((sinceDropped profile calls).filterMap (·.switchedFrom? profile setting)).getLast?.join

/-- The value that a history leaves for an override: the one recorded last since it was
switched on, or else the global value that it started from. -/
def recordedValue : Option Setting :=
  (lastRecorded profile setting calls).or (lastSwitchedFrom profile setting calls)

/-- The layer that a history leaves: overridden if the setting was switched an odd number
of times. -/
def layerLeft : SettingLayer :=
  if Odd (switchCount profile setting calls) then
    .overridden (recordedValue profile setting calls)
  else .inherited (lastRecorded profile setting calls)

variable {profile setting calls}

/-! ## §3 Calls at the end of a history -/

theorem after_snoc (calls : List OverrideCall) (c : OverrideCall) :
    after (calls ++ [c]) = c.run (after calls) := by
  unfold after
  rw [List.foldl_append]
  rfl

/-! A call that drops the layers of the profile starts the history anew. -/

theorem sinceDropped_snoc_of_drops (hc : c.drops profile = true) :
    sinceDropped profile (calls ++ [c]) = [] :=
  List.rtakeWhile_concat_neg _ _ _ (by simp [hc])

theorem layerLeft_snoc_of_drops (hc : c.drops profile = true) :
    layerLeft profile setting (calls ++ [c]) = .inherited none := by
  simp [layerLeft, switchCount, lastRecorded, sinceDropped_snoc_of_drops hc]

/-! Any other call counts if it switches the setting or records a value for it. -/

theorem sinceDropped_snoc (hc : c.drops profile = false) :
    sinceDropped profile (calls ++ [c]) = sinceDropped profile calls ++ [c] :=
  List.rtakeWhile_concat_pos _ _ _ (by simp [hc])

theorem switchCount_snoc (hc : c.drops profile = false) :
    switchCount profile setting (calls ++ [c])
      = switchCount profile setting calls + if c.switches profile setting then 1 else 0 := by
  rw [switchCount, sinceDropped_snoc hc, List.countP_append, List.countP_singleton]
  rfl

theorem lastRecorded_snoc_of_switches (hc : c.drops profile = false)
    (hswitches : c.switches profile setting = true) :
    lastRecorded profile setting (calls ++ [c]) = none := by
  rw [lastRecorded, sinceDropped_snoc hc, List.rtakeWhile_concat_neg _ _ _ (by simp [hswitches])]
  rfl

theorem lastRecorded_snoc (hc : c.drops profile = false)
    (hswitches : c.switches profile setting = false) :
    lastRecorded profile setting (calls ++ [c])
      = (c.recorded? profile setting).or (lastRecorded profile setting calls) := by
  rw [lastRecorded, sinceDropped_snoc hc, List.rtakeWhile_concat_pos _ _ _ (by simp [hswitches]),
    List.filterMap_append, List.getLast?_append]
  cases hvalue : c.recorded? profile setting <;> simp [hvalue, lastRecorded]

theorem lastSwitchedFrom_snoc (hc : c.drops profile = false) :
    lastSwitchedFrom profile setting (calls ++ [c])
      = (c.switchedFrom? profile setting).getD (lastSwitchedFrom profile setting calls) := by
  rw [lastSwitchedFrom, sinceDropped_snoc hc, List.filterMap_append, List.getLast?_append]
  cases hglobal : c.switchedFrom? profile setting <;> simp [hglobal, lastSwitchedFrom]

/-- Switching once more makes an even number odd and an odd number even. -/
theorem layerLeft_snoc_of_switchedFrom {global : Option Setting} (hc : c.drops profile = false)
    (hglobal : c.switchedFrom? profile setting = some global) :
    layerLeft profile setting (calls ++ [c]) = (layerLeft profile setting calls).toggle global := by
  have hswitches : c.switches profile setting = true := by
    rw [OverrideCall.switches, hglobal]
    rfl
  have hcount : switchCount profile setting (calls ++ [c])
      = switchCount profile setting calls + 1 := by
    rw [switchCount_snoc hc, if_pos hswitches]
  have hrecorded : lastRecorded profile setting (calls ++ [c]) = none :=
    lastRecorded_snoc_of_switches hc hswitches
  by_cases hodd : Odd (switchCount profile setting calls)
  · simp [layerLeft, hcount, Nat.odd_add_one, hodd, hrecorded, SettingLayer.toggle]
  · simp [layerLeft, hcount, Nat.odd_add_one, hodd, hrecorded, recordedValue,
      lastSwitchedFrom_snoc hc, hglobal, SettingLayer.toggle]

/-- A call that does not switch the setting leaves the number and the global value. -/
theorem layerLeft_snoc (hc : c.drops profile = false)
    (hglobal : c.switchedFrom? profile setting = none) :
    layerLeft profile setting (calls ++ [c])
      = match c.recorded? profile setting with
        | some value => (layerLeft profile setting calls).record value
        | none => layerLeft profile setting calls := by
  have hswitches : c.switches profile setting = false := by
    rw [OverrideCall.switches, hglobal]
    rfl
  have hcount : switchCount profile setting (calls ++ [c])
      = switchCount profile setting calls := by
    rw [switchCount_snoc hc, if_neg (by simp [hswitches]), Nat.add_zero]
  have hrecorded : lastRecorded profile setting (calls ++ [c])
      = (c.recorded? profile setting).or (lastRecorded profile setting calls) :=
    lastRecorded_snoc hc hswitches
  have hfrom : lastSwitchedFrom profile setting (calls ++ [c])
      = lastSwitchedFrom profile setting calls := by
    rw [lastSwitchedFrom_snoc hc, hglobal]
    rfl
  by_cases hodd : Odd (switchCount profile setting calls) <;>
    cases hvalue : c.recorded? profile setting <;>
      simp [layerLeft, recordedValue, hcount, hodd, hrecorded, hfrom, hvalue, SettingLayer.record]

/-! ## §4 Layers -/

theorem layerLeft_snoc_eq (calls : List OverrideCall) (c : OverrideCall) :
    layerLeft profile setting (calls ++ [c])
      = c.onLayer profile setting (layerLeft profile setting calls) := by
  unfold OverrideCall.onLayer
  split
  · rename_i hdrops
    exact layerLeft_snoc_of_drops hdrops
  · rename_i hdrops
    rw [Bool.not_eq_true] at hdrops
    split
    · rename_i hglobal
      exact layerLeft_snoc_of_switchedFrom hdrops hglobal
    · rename_i hglobal hvalue
      rw [layerLeft_snoc hdrops hglobal, hvalue]
    · rename_i hglobal hvalue
      rw [layerLeft_snoc hdrops hglobal, hvalue]

/-- The layer at the end of a history is the one that the history leaves. -/
theorem layer_after (profile setting : String) (calls : List OverrideCall) :
    (after calls).layer profile setting = layerLeft profile setting calls := by
  induction calls using List.reverseRecOn with
  | nil => rfl
  | append_singleton calls c ih => rw [after_snoc, layer_run, ih, layerLeft_snoc_eq]

/-- Without the calls that do not concern a setting, its layer is the same. -/
theorem layer_after_concerns (profile setting : String) (calls : List OverrideCall) :
    (after (calls.filter (·.concerns profile setting))).layer profile setting
      = (after calls).layer profile setting := by
  induction calls using List.reverseRecOn with
  | nil => rfl
  | append_singleton calls c ih =>
    rw [List.filter_append, List.filter_singleton, after_snoc, layer_run]
    cases hc : c.concerns profile setting with
    | true => rw [cond_true, after_snoc, layer_run, ih]
    | false => rw [cond_false, List.append_nil, ih, OverrideCall.onLayer_of_not_concerns hc]

/-! ## §5 Settings -/

theorem mem_settings (o : Overrides) :
    setting ∈ o.settings profile ↔ o.isOverridden profile setting = true := by
  simp only [settings, List.mem_map, List.mem_filter, Prod.exists, SortedMap.mem_toList,
    isOverridden, layer]
  constructor
  · rintro ⟨key, layer, ⟨hlayer, hoverridden⟩, rfl⟩
    rwa [hlayer]
  · intro hoverridden
    cases hlayer : (o.layersOf profile).get? setting with
    | none => simp [hlayer, SettingLayer.isOverridden] at hoverridden
    | some layer => exact ⟨setting, layer, ⟨hlayer, by rwa [hlayer] at hoverridden⟩, rfl⟩

theorem settings_increasing (o : Overrides) (profile : String) :
    (o.settings profile).Pairwise (· < ·) :=
  List.pairwise_map.mpr ((o.layersOf profile).increasing.filter _)

theorem isOverridden_after_iff (profile setting : String) (calls : List OverrideCall) :
    (after calls).isOverridden profile setting = true
      ↔ Odd (switchCount profile setting calls) := by
  rw [isOverridden, layer_after, layerLeft]
  split <;> simp_all [SettingLayer.isOverridden]

/-- **The overrides are determined by the history of calls.** For every history, profile
id and setting: the setting is overridden if and only if it was switched an odd number of
times since the layers of the profile were last dropped. Its layer then holds the value
that was recorded last since it was last switched, or else the global value passed at
that moment; and that value is in force if there is one, the global value in every other
case, whatever was recorded while the setting was not overridden. Calls on other settings
and other profiles have no influence. The overridden settings of a profile are listed
without repetition in increasing order. -/
theorem overrides_determined_by_history (profile setting : String) (calls : List OverrideCall) :
    let o := after calls
    (o.isOverridden profile setting = true ↔ Odd (switchCount profile setting calls)) ∧
    o.layer profile setting =
      (if o.isOverridden profile setting then .overridden (recordedValue profile setting calls)
        else .inherited (lastRecorded profile setting calls)) ∧
    (∀ global, o.resolve profile setting global =
      if o.isOverridden profile setting then (recordedValue profile setting calls).or global
      else global) ∧
    (after (calls.filter (·.concerns profile setting))).layer profile setting
      = o.layer profile setting ∧
    (o.settings profile).Pairwise (· < ·) ∧
    ∀ s, s ∈ o.settings profile ↔ o.isOverridden profile s = true := by
  intro o
  have hodd := isOverridden_after_iff profile setting calls
  have hlayer : o.layer profile setting =
      if o.isOverridden profile setting then .overridden (recordedValue profile setting calls)
      else .inherited (lastRecorded profile setting calls) := by
    rw [layer_after, layerLeft]
    simp only [hodd, o]
  refine ⟨hodd, hlayer, fun global => ?_, layer_after_concerns profile setting calls,
    o.settings_increasing profile, fun s => o.mem_settings⟩
  rw [resolve, hlayer]
  split
  · cases recordedValue profile setting calls <;> rfl
  · rfl

/-- A setting that is switched on, off and on again starts anew from the global value; what
was recorded in between is lost. -/
example :
    let calls : List OverrideCall :=
      [.toggle "x" "temperature" none, .set "x" "temperature" (.integer 1),
        .toggle "x" "temperature" (some (.integer 2)), .set "x" "temperature" (.integer 3),
        .toggle "x" "temperature" (some (.integer 4)), .forget "y"]
    (after calls).resolve "x" "temperature" (some (.integer 5)) = some (.integer 4) ∧
      (after calls).settings "x" = ["temperature"] := by
  decide

end Overrides

end SettingProfiles

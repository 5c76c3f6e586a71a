/-
SettingProfiles.Upgrade.Legacy — values from the settings that used to be
global.

Some settings were once kept in one place for all profiles. What is found
there may be of any kind and range; this module says which values are
usable, in which form they are taken over, and what stands in for the rest.
-/
import SettingProfiles.Setting.Basic

namespace SettingProfiles

/-- What the old place holds for a setting, if anything. -/
abbrev LegacyValues : Type := SettingMap

namespace LegacyValues

/-- The rate limit where no other is known. -/
def defaultRateLimit : Setting := .integer 5

/-- Diff editing is on unless the old settings say otherwise. -/
def defaultDiffEnabled : Setting := .bool true

/-- Matching is exact unless the old settings say otherwise. -/
def defaultFuzzyThreshold : Setting := .float (.ofNat 1)

/-- The whole number of 64 bits next to a number. -/
def clampToInt64 (i : Int) : Int64 :=
  if i < Int64.minValue.toInt then Int64.minValue
  else if Int64.maxValue.toInt < i then Int64.maxValue
  else Int64.ofInt i

/-- A rate limit is a number of seconds that is not negative. A float is rounded
to a whole number, a half going up, and is at most the largest of 64 bits. -/
def usableRateLimit? : Setting → Option Setting
  | .integer i => if 0 ≤ i then some (.integer i) else none
  | .float x =>
    if (Binary64.zero false).le x then (x.round?).map fun i => .integer (clampToInt64 i)
    else none
  | _ => none

def usableDiffEnabled? : Setting → Option Setting
  | .bool b => some (.bool b)
  | _ => none

/-- A threshold is a number from 0 to 1; a whole number becomes a float. -/
def usableFuzzyThreshold? : Setting → Option Setting
  | .float x => if (Binary64.zero false).le x && x.le (.ofNat 1) then some (.float x) else none
  | .integer i =>
    if 0 ≤ i && i ≤ 1 then some (.float (.ofInt i.toInt)) else none
  | _ => none

/-- The usable form of the value of a setting, or the default. -/
def valueOr (legacy : LegacyValues) (key : String) (default : Setting)
    (usable? : Setting → Option Setting) : Setting :=
  ((legacy.get? key).bind usable?).getD default

/-- The rate limit to start from. -/
def rateLimit (legacy : LegacyValues) : Setting :=
  valueOr legacy SettingName.rateLimitSeconds defaultRateLimit usableRateLimit?

def diffEnabled (legacy : LegacyValues) : Setting :=
  valueOr legacy SettingName.diffEnabled defaultDiffEnabled usableDiffEnabled?

def fuzzyThreshold (legacy : LegacyValues) : Setting :=
  valueOr legacy SettingName.fuzzyMatchThreshold defaultFuzzyThreshold usableFuzzyThreshold?

end LegacyValues

end SettingProfiles

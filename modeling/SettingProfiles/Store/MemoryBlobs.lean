/-
SettingProfiles.Store.MemoryBlobs — texts by key, in memory.

Any text can be a key. How often a text was stored is counted, so that one
can tell whether anything was written.
-/
import SettingProfiles.SortedMap

namespace SettingProfiles

/-- The texts by key, and how many were stored so far. -/
structure MemoryBlobs where
  texts : SortedMap String
  writes : Nat
  deriving DecidableEq

namespace MemoryBlobs

def empty : MemoryBlobs := ⟨.empty, 0⟩

instance : Inhabited MemoryBlobs := ⟨empty⟩

/-- The text of a key, if there is one. -/
def get (b : MemoryBlobs) (key : String) : Option String := b.texts.get? key

/-- Replaces the text of a key. -/
def set (b : MemoryBlobs) (key text : String) : MemoryBlobs :=
  ⟨b.texts.insert key text, b.writes + 1⟩

/-- Removes the text of a key, if there is one. -/
def delete (b : MemoryBlobs) (key : String) : MemoryBlobs := { b with texts := b.texts.erase key }

end MemoryBlobs

end SettingProfiles

import QueryTyping.Context
import QueryTyping.Settings.Declared

/-!
# Settings

What can be set for all documents: the context in which expressions stand, and variables that all
of them may use.

Main statement: `isDefault_iff` says when nothing has been set.
-/

namespace QueryTyping

/-- The name of the file that holds settings. -/
def settingsFile : String := "quarry.toml"

/-- The settings of an analysis. -/
structure Settings where
  context : Context
  declared : Variables

namespace Settings

/-- What holds when nothing is set. -/
def default : Settings := ⟨.simple, .empty⟩

instance : Inhabited Settings := ⟨default⟩

/-- Nothing differs from the default. -/
def isDefault (s : Settings) : Bool := s.context == .simple && s.declared.entries.isEmpty

theorem isDefault_iff {s : Settings} : s.isDefault = true ↔ s = default := by
  obtain ⟨ctx, ⟨entries, h⟩⟩ := s
  simp [isDefault, default, NameMap.empty]

end Settings
end QueryTyping

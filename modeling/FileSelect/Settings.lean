import FileSelect.Text.Basic

/-!
# Settings

What a selection and an archive take from the configuration.
-/

namespace FileSelect

/-- How the members of an archive are stored. -/
inductive Compression
  | deflated
  | stored
deriving DecidableEq, Repr

namespace Compression

def name : Compression → Text
  | .deflated => "deflated"
  | .stored => "stored"

def ofName? (t : Text) : Option Compression :=
  [Compression.deflated, .stored].find? fun c => c.name == t

end Compression

structure Settings where
  /-- Patterns excluded from every scan. -/
  defaultExcludes : List Text
  /-- Enter directories through symbolic links. -/
  followLinks : Bool
  compression : Compression
deriving DecidableEq, Repr

namespace Settings

/-- The directories of version control. -/
def versionControlExcludes : List Text :=
  ["**/.svn/**", "**/.git/**", "**/.hg/**", "**/CVS/**"]

def standard : Settings := ⟨versionControlExcludes, true, .deflated⟩

instance : Inhabited Settings := ⟨standard⟩

end Settings

end FileSelect

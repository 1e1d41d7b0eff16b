import FileSelect.Text.Basic

/-!
# Version

What the program says about its build.
-/

namespace FileSelect

structure Build where
  version : Text
  revision : Text
  time : Text
  target : Text

namespace Build

def longVersion (b : Build) : Text :=
  b.version ++ Text.ofString " (rev " ++ b.revision ++ Text.ofString ", built " ++ b.time ++
    Text.ofString ", target " ++ b.target ++ [')']

def line (b : Build) (program : Text) : Text := program ++ ' ' :: b.longVersion

/-- This program; nothing about its build is recorded but the version. -/
def current : Build := ⟨"0.2.0", "unknown", "unknown", "unknown"⟩

end Build

end FileSelect

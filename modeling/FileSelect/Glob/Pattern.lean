import FileSelect.Glob.Clean
import FileSelect.Glob.Directory
import FileSelect.Glob.Name

/-!
# Compiled patterns

A pattern in normal form is cut at its last slash: the part before it is matched by a
directory matcher and the part after it by a name matcher. A pattern is refused when one of
its wildcards is.
-/

namespace FileSelect

structure Pattern where
  /-- The text it was compiled from. -/
  raw : Text
  normalized : Text
  directory : DirectoryMatcher
  name : NameMatcher
deriving DecidableEq, Repr

namespace Pattern

/-- The matchers that a raw pattern stands for. -/
def ofText (raw : Text) : Pattern :=
  let normalized := clean raw
  match Text.splitLast? '/' normalized with
  | some (directory, name) =>
      ⟨raw, normalized, .ofText? (some directory), .ofText name⟩
  | none => ⟨raw, normalized, .ofText? none, .ofText normalized⟩

/-- Why the pattern is refused, if it is. The directory part comes before the name. -/
def refusal? (p : Pattern) : Option Failure := p.directory.refusal?.or p.name.refusal?

def compile (raw : Text) : Except Failure Pattern :=
  match (ofText raw).refusal? with
  | some failure => .error failure
  | none => .ok (ofText raw)

instance : ToString Pattern where
  toString p := String.ofList p.normalized

/-- Does the entry `name` directly inside `directory` match? -/
def acceptsEntry (p : Pattern) (directory : List Text) (name : Text) : Bool :=
  p.directory.acceptsInside directory && p.name.accepts name

/-- Judges a whole path below the starting directory. -/
def accepts (p : Pattern) (path : Text) : Bool :=
  let path := Text.strip isSlash path
  match Text.splitLast? '/' path with
  | some (directory, name) => p.acceptsEntry (segments directory) name
  | none => p.acceptsEntry [] path

/-- Does the pattern take everything inside `directory`, whatever its name? -/
def coversDirectory (p : Pattern) (directory : List Text) : Bool :=
  p.name.acceptsAll && p.directory.acceptsInside directory

end Pattern

end FileSelect

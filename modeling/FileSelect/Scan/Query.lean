import FileSelect.Environment
import FileSelect.Failure
import FileSelect.Scan.Select

/-!
# Queries

A query binds a pattern set to the root it is scanned from. A root that is a file is
selected itself and takes no patterns; at a root that does not exist nothing is found.
Patterns are compiled whatever the root is.
-/

namespace FileSelect

inductive RootKind
  | directory
  | file
  | missing
deriving DecidableEq, Repr

structure Query where
  root : Text
  kind : RootKind
  patterns : PatternSet
deriving DecidableEq, Repr

/-- An entry found by a scan: the path `relative` below `directory`. -/
structure Found where
  directory : Text
  relative : Text
  isDirectory : Bool
deriving DecidableEq, Repr

namespace Found

def path (f : Found) : Text := Path.append f.directory f.relative

/-- An entry of the directory `root`, or of one below it. -/
def below (root : Text) (s : Selected) : Found := ⟨root, joinSegments s.path, s.isDirectory⟩

end Found

namespace Disk

def rootKind (d : Disk) (root : Text) : RootKind :=
  match d.look .follow root with
  | .ok (_, .directory) => .directory
  | .ok _ => .file
  | .error _ => .missing

end Disk

namespace Query

def ofPatterns (d : Disk) (root : Text) (patterns : List Text) (settings : Settings) :
    Except Failure Query :=
  let patterns := PatternSet.nonblank patterns
  let kind := d.rootKind root
  if kind = .file ∧ patterns ≠ [] then .error (.rootIsFile root patterns)
  else (PatternSet.ofPatterns patterns settings).map fun set => ⟨root, kind, set⟩

/-- Reads the short form `root|pattern|pattern`. -/
def ofSpec (env : Environment) (d : Disk) (spec : Text) (settings : Settings) :
    Except Failure Query :=
  match Text.split '|' spec with
  | [] => .error (.missingRoot spec)
  | root :: patterns =>
      if Text.trim root = [] then .error (.missingRoot spec)
      else ofPatterns d (env.expand (Text.trim root)) patterns settings

/-- A file is found in its parent directory. -/
def singleFile (root : Text) : List Found :=
  match Path.fileName? root with
  | some name => [⟨(Path.parent? root).getD ['.'], name, false⟩]
  | none => []

/-- What the query selects from a listing of its root. -/
def found (q : Query) (listing : Listing) : List Found :=
  (q.patterns.select [] listing).map (Found.below q.root)

/-- Everything the query selects, in the order of the scan. -/
def run (q : Query) (d : Disk) (followLinks : Bool) : List Found :=
  match q.kind with
  | .missing => []
  | .file => singleFile q.root
  | .directory => q.found (d.listing followLinks q.root)

end Query

end FileSelect

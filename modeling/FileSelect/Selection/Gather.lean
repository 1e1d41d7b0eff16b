import FileSelect.Scan.Query
import FileSelect.Selection.Basic

/-!
# Gathering members by patterns

The entries that a scan finds are added one after the other. An entry that cannot be
located stops this, and what was added before it stays.
-/

namespace FileSelect.Selection

/-- Adds entries until one cannot be located. -/
def addFound (d : Disk) : Selection → List Found → Selection × Option Failure
  | s, [] => (s, none)
  | s, f :: rest =>
      match Member.locate d f.directory f.relative with
      | .ok m => addFound d (s.insert m) rest
      | .error failure => (s, some failure)

/-- Adds what a query selects, under the selection's own settings. -/
def addQuery (d : Disk) (s : Selection) : Except Failure Query → Selection × Option Failure
  | .ok q => s.addFound d (q.run d s.settings.followLinks)
  | .error failure => (s, some failure)

def glob (d : Disk) (s : Selection) (root : Text) (patterns : List Text) :
    Selection × Option Failure :=
  s.addQuery d (Query.ofPatterns d root patterns s.settings)

def globSpec (env : Environment) (d : Disk) (s : Selection) (spec : Text) :
    Selection × Option Failure :=
  s.addQuery d (Query.ofSpec env d spec s.settings)

def addPath (d : Disk) (s : Selection) (anchor relative : Text) : Selection × Option Failure :=
  match Member.locate d anchor relative with
  | .ok m => (s.insert m, none)
  | .error failure => (s, some failure)

/-- The members whose relative path the patterns accept, default excludes included. -/
def filter (s : Selection) (patterns : List Text) : Except Failure Selection :=
  (PatternSet.ofPatterns patterns s.settings).map fun set =>
    { s with members := s.members.filter fun m => set.acceptsPath (segments m.relative) }

end FileSelect.Selection

import FileSelect.Disk.Listing
import FileSelect.Regex.Reader
import FileSelect.Selection.Basic

/-!
# Gathering files by regular expressions

Expressions judge the whole relative path of a file. An expression behind `!` excludes,
and without any include every file is taken. The default excludes do not apply.
-/

namespace FileSelect

structure ExpressionSet where
  includes : List Regex
  excludes : List Regex
deriving DecidableEq, Repr

namespace ExpressionSet

def compile (expression : Text) : Except Failure Regex :=
  match Regex.ofWhole? expression with
  | some r => .ok r
  | none => .error (.invalidExpression expression "regex parse error")

/-- Empty expressions count for nothing; the first invalid one is the failure. -/
def ofExpressions : List Text → Except Failure ExpressionSet
  | [] => .ok ⟨[], []⟩
  | [] :: rest => ofExpressions rest
  | ('!' :: expression) :: rest => do
      let r ← compile expression
      let set ← ofExpressions rest
      pure { set with excludes := r :: set.excludes }
  | expression :: rest => do
      let r ← compile expression
      let set ← ofExpressions rest
      pure { set with includes := r :: set.includes }

def acceptsPath (set : ExpressionSet) (path : Text) : Bool :=
  (set.includes.isEmpty || set.includes.any (·.isFoundIn path)) &&
    !set.excludes.any (·.isFoundIn path)

end ExpressionSet

namespace Selection

/-- Adds files until one cannot be located. -/
def addFiles (d : Disk) (root : Text) : Selection → List Text → Selection × Option Failure
  | s, [] => (s, none)
  | s, path :: rest =>
      match Member.locate d root path with
      | .ok m => addFiles d root (s.insert m) rest
      | .error failure => (s, some failure)

/-- Adds the files below `root` whose relative paths the expressions accept. -/
def addMatching (d : Disk) (s : Selection) (root : Text) (expressions : List Text) :
    Selection × Option Failure :=
  match ExpressionSet.ofExpressions expressions with
  | .error failure => (s, some failure)
  | .ok set =>
      let files := ((d.listing s.settings.followLinks root).files []).map joinSegments
      s.addFiles d root (files.filter set.acceptsPath)

end Selection

end FileSelect

import FileSelect.Disk.Fault

/-!
# Failures

Why a selection, or an operation on one, did not succeed.
-/

namespace FileSelect

inductive Failure
  | configuration (reason : Text)
  | io (fault : Fault)
  | ioAt (path : Text) (fault : Fault)
  | pattern (reason : Text)
  | archive (reason : Text)
  /-- Two files would be written to one place. -/
  | collision (relative first second : Text)
deriving DecidableEq, Repr

namespace Failure

def rootIsFile (root : Text) (patterns : List Text) : Failure :=
  .configuration ("root " ++ root ++ Text.ofString " is a file, patterns are not allowed: " ++
    Text.join ", " patterns)

def missingRoot (spec : Text) : Failure :=
  .configuration ("missing root in glob spec '" ++ spec ++ ['\''])

def invalidExpression (expression detail : Text) : Failure :=
  .pattern ("invalid regex '" ++ expression ++ Text.ofString "': " ++ detail)

def invalidWildcard (segment detail : Text) : Failure :=
  .pattern ("invalid wildcard segment '" ++ segment ++ Text.ofString "': " ++ detail)

def duplicateName (name : Text) : Failure :=
  .archive ("invalid Zip archive: Duplicate filename: " ++ name)

/-- A configuration file whose syntax or types are wrong. -/
def malformedSettings (detail : Text) : Failure :=
  .configuration ("TOML parse error" ++ detail)

def message : Failure → Text
  | .configuration reason => "Configuration error: " ++ reason
  | .io fault => "I/O error: " ++ fault.message
  | .ioAt path fault => "I/O error on " ++ path ++ Text.ofString ": " ++ fault.message
  | .pattern reason => "Pattern error: " ++ reason
  | .archive reason => "Archive error: " ++ reason
  | .collision relative first second =>
      first ++ Text.ofString " and " ++ second ++ Text.ofString " both map to " ++ relative

/-- The fault underneath, if the failure comes from a file operation. -/
def source? : Failure → Option Fault
  | .io fault => some fault
  | .ioAt _ fault => some fault
  | _ => none

end Failure

end FileSelect

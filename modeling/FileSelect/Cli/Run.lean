import FileSelect.Cli.Command
import FileSelect.Cli.Json
import FileSelect.Selection.Archive
import FileSelect.Selection.Delete
import FileSelect.Selection.Gather
import FileSelect.SettingsFile
import FileSelect.Version

/-!
# Running a command

A command selects entries, does its work on the disk and gives the text to print. A
failure is reported with what was being done and with the faults underneath.
-/

namespace FileSelect.Cli

/-- Why a command did not succeed. -/
inductive Complaint
  /-- A failure, and what was being done when it arose. -/
  | failed (doing : Option Text) (failure : Failure)
  /-- Some of the selected entries are still there. -/
  | leftovers (count : Nat)
deriving DecidableEq, Repr

namespace Complaint

/-- Repeats the margin after every line break. -/
def indent (margin : Text) (t : Text) : Text :=
  t.flatMap fun c => if c = '\n' then '\n' :: margin else [c]

def numbered (n : Nat) (t : Text) : Text :=
  Text.ofString s!"\n    {n}: " ++ indent "       " t

/-- The causes of a failure under a heading; several causes are numbered. -/
def causes : List Text → Text
  | [] => []
  | [cause] => Text.ofString "\n\nCaused by:\n    " ++ indent "    " cause
  | several =>
      Text.ofString "\n\nCaused by:" ++
        (several.zipIdx.flatMap fun (cause, n) => numbered n cause)

def message : Complaint → Text
  | .failed doing failure =>
      let source := failure.source?.toList.map Fault.message
      match doing with
      | none => failure.message ++ causes source
      | some doing => doing ++ causes (failure.message :: source)
  | .leftovers count => Text.ofString s!"some of the {count} entries could not be deleted"

end Complaint

abbrev Work := EStateM Complaint Disk

namespace Work

/-- Runs an operation of the library and says what was being done if it fails. -/
def doing {α : Type} (what : Text) (operation : Operation α) : Work α := fun d =>
  match operation d with
  | .ok a d => .ok a d
  | .error failure d => .error (.failed (some what) failure) d

end Work

/-- Turns the outcome of gathering into a failure, if there was one. -/
def gathered (what : Text) : Selection × Option Failure → Except Complaint Selection
  | (s, none) => .ok s
  | (_, some failure) => .error (.failed (some what) failure)

/-- The short form of a target whose root is in the short form already. -/
def Target.spec (t : Target) : Text :=
  t.root ++ t.patterns.flatMap fun pattern => '|' :: pattern

/-- The path of the root, which stands in front of the first bar. -/
def Target.rootPath (env : Environment) (t : Target) : Text :=
  match Text.splitFirst? ['|'] t.root with
  | some (root, _) => env.expand (Text.trim root)
  | none => env.expand t.root

/-- What a target selects. A root with a bar in it is the beginning of the short form. -/
def Target.select (env : Environment) (d : Disk) (settings : Settings) (t : Target) :
    Except Complaint Selection :=
  let start := Selection.empty settings
  if t.root.contains '|' then
    gathered (Text.ofString "selecting " ++ t.spec) (start.globSpec env d t.spec)
  else
    let root := env.expand t.root
    gathered (Text.ofString "selecting under " ++ root) (start.glob d root t.patterns)

def selectTarget (env : Environment) (settings : Settings) (t : Target) : Work Selection :=
  fun d =>
    match t.select env d settings with
    | .ok s => .ok s d
    | .error complaint => .error complaint d

def lines (ts : List Text) : Text := ts.flatMap fun t => t ++ ['\n']

def countText (n : Nat) : Text := (toString n).toList

/-- One entry of a listing in JSON. -/
def memberJson (d : Disk) (m : Member) : Text :=
  Json.object
    [("path", Json.string m.placeText), ("relative", Json.string m.relative),
     ("name", Json.string m.name), ("is_dir", Json.boolean (m.isDirectory d))]

def listing (d : Disk) (s : Selection) : Format → Text
  | .plain => lines (sortTexts s.absolutePaths)
  | .relative => lines (sortTexts s.relativePaths)
  | .names => lines (sortTexts s.names)
  | .json =>
      let members := sortBy (fun a b => Text.order a.relative b.relative) s.members
      Json.list (members.map (memberJson d)) ++ ['\n']

/-- Runs a command under its settings and gives what it prints. -/
def Command.run (env : Environment) (settings : Settings) : Command → Work Text
  | .list target format flatten => do
      let s ← selectTarget env settings target
      let d ← get
      pure (listing d (if flatten then s.flatten else s) format)
  | .copy target destination => do
      let s ← selectTarget env settings target
      let copies ← Work.doing (Text.ofString "copying to " ++ destination) (s.copyTo destination)
      pure (Text.ofString "Copied " ++ countText copies.members.length ++
        Text.ofString " entries to " ++ destination ++ ['\n'])
  | .delete target dryRun => do
      let s ← selectTarget env settings target
      let count := s.members.length
      if dryRun then
        pure (lines (sortTexts s.absolutePaths) ++ Text.ofString "Dry run: would delete " ++
          countText count ++ Text.ofString " entries\n")
      else
        let (succeeded, d) := s.delete (← get)
        set d
        if succeeded then
          pure (Text.ofString "Deleted " ++ countText count ++ Text.ofString " entries\n")
        else throw (.leftovers count)
  | .zip target archive => do
      let s ← selectTarget env settings target
      let written ← Work.doing (Text.ofString "writing " ++ archive) (s.zip archive)
      if written = 0 then pure "Nothing to archive\n"
      else
        pure (Text.ofString "Archived " ++ countText written ++ Text.ofString " files to " ++
          archive ++ ['\n'])
  | .settings => pure settings.toToml
  | .about =>
      pure (lines [Build.current.line "fileset", "Use --help for usage information"])

/-- The paths at or below which a command reads and writes. -/
def Command.paths (env : Environment) : Command → List Text
  | .list target _ _ => [target.rootPath env]
  | .copy target destination => [target.rootPath env, destination]
  | .delete target _ => [target.rootPath env]
  | .zip target archive => [target.rootPath env, archive]
  | .settings => []
  | .about => []

/-- Does it matter to the command what files hold? -/
def Command.readsContents : Command → Bool
  | .copy _ _ => true
  | .zip _ _ => true
  | _ => false

def Invocation.settingsFile (env : Environment) (i : Invocation) : Text :=
  i.settingsPath.getD env.settingsPath

/-- A settings file that is given has to be there; the usual one may be missing. -/
def loadSettings (env : Environment) (given : Option Text) (d : Disk) :
    Except Complaint Settings :=
  match given with
  | some path =>
      (Settings.load d path).mapError (.failed (some (Text.ofString "loading " ++ path)))
  | none => (Settings.loadOrStandard d env.settingsPath).mapError (.failed none)

def Invocation.run (env : Environment) (i : Invocation) : Work Text := fun d =>
  match loadSettings env i.settingsPath d with
  | .ok settings => i.command.run env settings d
  | .error complaint => .error complaint d

/-- What a finished program leaves: its exit code and what it has printed. -/
structure Outcome where
  code : Nat
  output : Text
  errors : Text
deriving DecidableEq, Repr

def usage : Text := "Usage: fileset [OPTIONS] [COMMAND]\n"

/-- Runs the program with the words of its command line. -/
def run (env : Environment) (words : List Text) (d : Disk) : Outcome × Disk :=
  match Request.ofWords words with
  | .misuse => (⟨2, [], usage⟩, d)
  | .help => (⟨0, usage, []⟩, d)
  | .version => (⟨0, lines [Build.current.line "fileset"], []⟩, d)
  | .run invocation =>
      match invocation.run env d with
      | .ok output d => (⟨0, output, []⟩, d)
      | .error complaint d =>
          (⟨1, [], Text.ofString "Error: " ++ complaint.message ++ ['\n']⟩, d)

end FileSelect.Cli

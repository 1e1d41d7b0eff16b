import FileSelect.Disk.Change
import FileSelect.Failure
import FileSelect.Toml.Document

/-!
# Settings in a file

Settings are kept as a TOML document with three keys. Keys that are missing keep their
standard value, and keys that say something else are passed over.
-/

namespace FileSelect

namespace Settings

def excludesKey : Text := "default_excludes"
def followKey : Text := "follow_links"
def compressionKey : Text := "compression"

/-- A list of at most one string stays on its line, a longer one has a line for each. -/
def writeStrings (values : List Text) : Text :=
  match values with
  | [] => ['[', ']']
  | [value] => '[' :: Toml.writeString value ++ [']']
  | values =>
      '[' :: values.flatMap (fun value => Text.ofString "\n    " ++ Toml.writeString value ++ [','])
        ++ ['\n', ']']

def writePair (key value : Text) : Text := key ++ Text.ofString " = " ++ value ++ ['\n']

def toToml (s : Settings) : Text :=
  writePair excludesKey (writeStrings s.defaultExcludes) ++
    writePair followKey (if s.followLinks then "true" else "false") ++
    writePair compressionKey (Toml.writeString s.compression.name)

def readStrings? : Toml.Value → Option (List Text)
  | .array values => values.mapM fun
      | .string t => some t
      | _ => none
  | _ => none

def readFlag? : Toml.Value → Option Bool
  | .boolean flag => some flag
  | _ => none

def holdsNothing : Toml.Value → Bool
  | .array [] => true
  | .table _ [] => true
  | .tables [] => true
  | _ => false

/-- The name of a compression, or a table with that name alone and nothing in it. -/
def readCompression? : Toml.Value → Option Compression
  | .string t => Compression.ofName? t
  | .table _ [(key, value)] => do
      let compression ← Compression.ofName? key
      if holdsNothing value then some compression else none
  | _ => none

/-- Reads a key if it is there; `none` if its value has the wrong type. -/
def readKey? {α : Type} (entries : Toml.Entries) (key : Text) (read : Toml.Value → Option α)
    (standard : α) : Option α :=
  match entries.get? key with
  | none => some standard
  | some value => read value

def ofToml? (t : Text) : Option Settings := do
  let entries ← Toml.readDocument? t
  let excludes ← readKey? entries excludesKey readStrings? standard.defaultExcludes
  let follow ← readKey? entries followKey readFlag? standard.followLinks
  let compression ← readKey? entries compressionKey readCompression? standard.compression
  some ⟨excludes, follow, compression⟩

def load (d : Disk) (path : Text) : Except Failure Settings :=
  match d.readText path with
  | .error fault => .error (.ioAt path fault)
  | .ok t =>
      match ofToml? t with
      | some s => .ok s
      | none => .error (.malformedSettings [])

def loadOrStandard (d : Disk) (path : Text) : Except Failure Settings :=
  if d.pathExists path then load d path else .ok standard

/-- Writes the settings, and creates the directories above the file. -/
def save (s : Settings) (path : Text) : EStateM Failure Disk Unit := fun d =>
  let write (d : Disk) : EStateM.Result Failure Disk Unit :=
    match d.writeContent path (.ofText s.toToml) with
    | .ok d => .ok () d
    | .error fault => .error (.ioAt path fault) d
  match Path.parent? path with
  | none => write d
  | some above =>
      match Disk.makeDirectories above d with
      | .error fault d => .error (.ioAt above fault) d
      | .ok _ d => write d

end Settings

end FileSelect

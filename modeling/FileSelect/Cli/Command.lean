import FileSelect.Cli.Arguments

/-!
# Commands

The commands of the program and the words that call them.
-/

namespace FileSelect.Cli

/-- A root and the patterns below it, as they are given. -/
structure Target where
  root : Text
  patterns : List Text
deriving DecidableEq, Repr

inductive Format
  /-- Absolute paths. -/
  | plain
  | relative
  | names
  | json
deriving DecidableEq, Repr

def Format.all : List (Text × Format) :=
  [("plain", .plain), ("relative", .relative), ("names", .names), ("json", .json)]

inductive Command
  | list (target : Target) (format : Format) (flatten : Bool)
  | copy (target : Target) (destination : Text)
  | delete (target : Target) (dryRun : Bool)
  | zip (target : Target) (archive : Text)
  | settings
  | about
deriving DecidableEq, Repr

/-- A command and the file that the settings are loaded from, if one is given. -/
structure Invocation where
  settingsPath : Option Text
  command : Command
deriving DecidableEq, Repr

inductive Request
  | run (invocation : Invocation)
  | version
  | help
  | misuse
deriving DecidableEq, Repr

def isPath (value : Text) : Bool := !value.isEmpty

def helpRule : OptionRule := ⟨"help", some 'h', .help⟩

/-- Options that are known on every level. -/
def commonRules : List OptionRule :=
  [⟨"config", none, .value isPath⟩, ⟨"log-level", none, .value fun _ => true⟩, helpRule]

def topLevel : Level :=
  ⟨commonRules ++ [⟨"version", some 'V', .version⟩],
    ["list", "copy", "delete", "zip", "config", "help"], false⟩

def commandRules (name : Text) : List OptionRule :=
  if name = Text.ofString "list" then
    [⟨"format", some 'f', .value fun value => (Format.all.lookup value).isSome⟩,
     ⟨"flatten", none, .flag⟩]
  else if name = Text.ofString "copy" then [⟨"to", none, .value isPath⟩]
  else if name = Text.ofString "delete" then [⟨"dry-run", none, .flag⟩]
  else if name = Text.ofString "zip" then [⟨"output", some 'o', .value isPath⟩]
  else []

def commandLevel (name : Text) : Level :=
  ⟨commonRules ++ commandRules name, [], name != Text.ofString "config"⟩

/-- The command that a name and what is given with it make, if nothing is missing. -/
def commandOf? (name : Text) (given : Given) : Option Command :=
  if name = Text.ofString "config" then some .settings
  else
    match given.operands with
    | [] => none
    | root :: patterns =>
        let target : Target := ⟨root, patterns⟩
        if name = Text.ofString "list" then
          let format := ((given.get? "format").bind fun f => Format.all.lookup f).getD .relative
          some (.list target format (given.has "flatten"))
        else if name = Text.ofString "copy" then (given.get? "to").map (.copy target)
        else if name = Text.ofString "delete" then some (.delete target (given.has "dry-run"))
        else (given.get? "output").map (.zip target)

/-- Reads the words of a command line. A settings file that is given with the command
stands above one given before it. Help may be asked for a command by its name. -/
def Request.ofWords (words : List Text) : Request :=
  match topLevel.read words with
  | .misuse => .misuse
  | .version => .version
  | .help => .help
  | .complete given => .run ⟨given.get? "config", .about⟩
  | .command top name rest =>
      if name = Text.ofString "help" then
        if rest.length ≤ 1 && rest.all fun word => topLevel.commands.contains word then .help
        else .misuse
      else
        match (commandLevel name).read rest with
        | .complete given =>
            match commandOf? name given with
            | some command => .run ⟨(given.get? "config").or (top.get? "config"), command⟩
            | none => .misuse
        | .help => .help
        | _ => .misuse

end FileSelect.Cli

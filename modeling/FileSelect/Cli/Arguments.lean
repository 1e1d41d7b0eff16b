import FileSelect.Text.Basic

/-!
# Command line grammar

The words of a command line are options, values of options, and operands. Options with
two hyphens may carry their value behind an equals sign, options with one hyphen right
behind their letter, and after two lone hyphens every word is an operand. No option may
be given twice on one level. The first word that fits nowhere decides, whatever stands
behind it.
-/

namespace FileSelect.Cli

/-- What giving an option does. -/
inductive Effect
  | flag
  /-- Takes a value, which has to be accepted. -/
  | value (accepts : Text → Bool)
  | version
  | help

structure OptionRule where
  long : Text
  short : Option Char
  effect : Effect

/-- The options and the commands that are known at one level. -/
structure Level where
  options : List OptionRule
  commands : List Text
  takesOperands : Bool

/-- What has been given: options with their values, and operands. -/
structure Given where
  options : List (Text × Text)
  operands : List Text

namespace Given

def has (g : Given) (option : Text) : Bool := g.options.any fun entry => entry.1 == option

def get? (g : Given) (option : Text) : Option Text := g.options.lookup option

end Given

inductive Reading
  | complete (given : Given)
  | command (given : Given) (name : Text) (rest : List Text)
  | version
  | help
  | misuse

/-- Notes an option with its value, or refuses it. -/
def Given.note? (g : Given) (rule : OptionRule) (value : Text) : Option Given :=
  let accepted := match rule.effect with
    | .value accepts => accepts value
    | _ => true
  if accepted && !g.has rule.long then
    some { g with options := g.options ++ [(rule.long, value)] }
  else none

/-- Where a reader of words goes on. -/
inductive Next
  /-- The next word is the value of this option. -/
  | awaits (given : Given) (rule : OptionRule)
  | goesOn (given : Given)
  | stops (reading : Reading)

def refuse (given : Option Given) : Next :=
  match given with
  | some given => .goesOn given
  | none => .stops .misuse

/-- Reads a word with two hyphens, which have been taken off. -/
def readLong (level : Level) (given : Given) (word : Text) : Next :=
  let (name, value) := match Text.splitFirst? ['='] word with
    | some (name, value) => (name, some value)
    | none => (word, none)
  match level.options.find? fun rule => rule.long == name with
  | none => .stops .misuse
  | some rule =>
      match rule.effect, value with
      | .value _, some value => refuse (given.note? rule value)
      | .value _, none => .awaits given rule
      | _, some _ => .stops .misuse
      | .flag, none => refuse (given.note? rule [])
      | .version, none => .stops .version
      | .help, none => .stops .help

/-- Reads the letters of a word with one hyphen, which has been taken off. -/
def readShort (level : Level) (given : Given) : Text → Next
  | [] => .goesOn given
  | letter :: rest =>
      match level.options.find? fun rule => rule.short == some letter with
      | none => .stops .misuse
      | some rule =>
          match rule.effect with
          | .version => .stops .version
          | .help => .stops .help
          | .flag =>
              match given.note? rule [] with
              | some given => readShort level given rest
              | none => .stops .misuse
          | .value _ =>
              match rest with
              | [] => .awaits given rule
              | '=' :: value => refuse (given.note? rule value)
              | value => refuse (given.note? rule value)

/-- Reads words from left to right; `awaited` is the option whose value comes next. -/
def readWords (level : Level) : (awaited : Option OptionRule) → Given → List Text → Reading
  | none, given, [] => .complete given
  | some _, _, [] => .misuse
  | awaited, given, word :: rest =>
      match word, awaited with
      | ['-', '-'], some _ => .misuse
      | ['-', '-'], none =>
          if rest.isEmpty || level.takesOperands then
            .complete { given with operands := given.operands ++ rest }
          else .misuse
      | '-' :: _ :: _, some _ => .misuse
      | '-' :: '-' :: name, none =>
          match readLong level given name with
          | .goesOn given => readWords level none given rest
          | .awaits given rule => readWords level (some rule) given rest
          | .stops reading => reading
      | '-' :: letter :: letters, none =>
          match readShort level given (letter :: letters) with
          | .goesOn given => readWords level none given rest
          | .awaits given rule => readWords level (some rule) given rest
          | .stops reading => reading
      | word, some rule =>
          match given.note? rule word with
          | some given => readWords level none given rest
          | none => .misuse
      | word, none =>
          if level.commands.contains word then .command given word rest
          else if level.takesOperands then
            readWords level none { given with operands := given.operands ++ [word] } rest
          else .misuse

def Level.read (level : Level) (words : List Text) : Reading :=
  readWords level none ⟨[], []⟩ words

end FileSelect.Cli

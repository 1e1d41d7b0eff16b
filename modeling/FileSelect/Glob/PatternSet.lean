import FileSelect.Glob.Pattern
import FileSelect.Settings

/-!
# Include and exclude patterns

An entry is selected when some include accepts it and no exclude does. An exclude
whose name part accepts everything removes a whole directory, and the includes say
whether a directory is worth entering. A list with a pattern that is refused is no set.
-/

namespace FileSelect

structure PatternSet where
  includes : List Pattern
  excludes : List Pattern
deriving DecidableEq, Repr

namespace PatternSet

/-- A pattern of a list: `!` in front makes it an exclude, a blank one counts for nothing. -/
inductive Entry
  | blank
  | includes (raw : Text)
  | excludes (raw : Text)
deriving DecidableEq, Repr

def Entry.ofText (raw : Text) : Entry :=
  match Text.trim raw with
  | [] => .blank
  | '!' :: rest => .excludes rest
  | pattern => .includes pattern

def Entry.include? : Entry → Option Pattern
  | .includes raw => some (.ofText raw)
  | _ => none

def Entry.exclude? : Entry → Option Pattern
  | .excludes raw => some (.ofText raw)
  | _ => none

def Entry.pattern? (e : Entry) : Option Pattern := e.include?.or e.exclude?

/-- What is written in a list, without blanks around it. -/
def nonblank (patterns : List Text) : List Text :=
  (patterns.map Text.trim).filter fun p => !p.isEmpty

/-- The set that a list stands for. Without any include everything is selected; the default
excludes come last. -/
def ofTexts (patterns : List Text) (settings : Settings) : PatternSet :=
  let entries := patterns.map Entry.ofText
  let includes := entries.filterMap Entry.include?
  { includes := if includes.isEmpty then [.ofText ['*', '*']] else includes
    excludes := entries.filterMap Entry.exclude? ++ settings.defaultExcludes.map .ofText }

/-- Why a list is refused, if it is. Its patterns are compiled in their order and then the
default excludes; `**` in place of a missing include is never refused. -/
def refusal? (patterns : List Text) (settings : Settings) : Option Failure :=
  ((patterns.map Entry.ofText).filterMap Entry.pattern? ++
    settings.defaultExcludes.map Pattern.ofText).findSome? Pattern.refusal?

def ofPatterns (patterns : List Text) (settings : Settings) : Except Failure PatternSet :=
  match refusal? patterns settings with
  | some failure => .error failure
  | none => .ok (ofTexts patterns settings)

def acceptsEntry (set : PatternSet) (directory : List Text) (name : Text) : Bool :=
  set.includes.any (·.acceptsEntry directory name) &&
    !set.excludes.any (·.acceptsEntry directory name)

/-- Is the directory removed together with everything below it? -/
def excludesDirectory (set : PatternSet) (directory : List Text) : Bool :=
  set.excludes.any (·.coversDirectory directory)

/-- Can an include match anything at or below the directory? -/
def entersDirectory (set : PatternSet) (directory : List Text) : Bool :=
  set.includes.any fun p =>
    p.directory.acceptsBelow directory || p.directory.acceptsInside directory

/-- Is one of the directories on the way down `path`, from below `above`, removed? -/
def excludesOnTheWay (set : PatternSet) (above : List Text) : List Text → Bool
  | [] => false
  | name :: path =>
      set.excludesDirectory (above ++ [name]) || set.excludesOnTheWay (above ++ [name]) path

/-- Judges a path by its text alone, as a scan that meets it would. -/
def acceptsPath (set : PatternSet) (path : List Text) : Bool :=
  match path.getLast? with
  | none => false
  | some name =>
      !set.excludesOnTheWay [] path.dropLast && set.acceptsEntry path.dropLast name

end PatternSet

end FileSelect

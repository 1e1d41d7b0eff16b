import FileSelect.Text.Segments

/-!
# Paths as they are written

A path is a text with slashes. Reading it by components, doubled slashes, slashes at
the end and `.` say nothing, except for a `.` that opens a relative path; `..` is kept.
-/

namespace FileSelect

inductive Component
  | root
  | here
  | up
  | name (text : Text)
deriving DecidableEq, Repr

namespace Component

def text : Component → Text
  | .root => ['/']
  | .here => ['.']
  | .up => ['.', '.']
  | .name t => t

end Component

namespace Path

def isAbsolute : Text → Bool
  | '/' :: _ => true
  | _ => false

/-- The opening of a path that its body is counted from: a slash, a lone dot, or nothing. -/
def splitOpening : Text → Text × Text
  | '/' :: rest => (['/'], rest)
  | ['.'] => (['.'], [])
  | '.' :: '/' :: rest => (['.'], '/' :: rest)
  | path => ([], path)

def saysNothing (part : Text) : Bool := part.isEmpty || part == ['.']

/-- The parts of the body without those that say nothing at its end. -/
def bodyParts (body : Text) : List Text :=
  ((Text.split '/' body).reverse.dropWhile saysNothing).reverse

def components (path : Text) : List Component :=
  let (opening, body) := splitOpening path
  let first : List Component :=
    if opening = ['/'] then [.root] else if opening = ['.'] then [.here] else []
  first ++ ((bodyParts body).filter fun part => !saysNothing part).map fun part =>
    if part = ['.', '.'] then .up else .name part

/-- The path without its last component. -/
def parent? (path : Text) : Option Text :=
  let (opening, body) := splitOpening path
  match (bodyParts body).reverse with
  | _ :: above => some (opening ++ joinSegments (above.dropWhile saysNothing).reverse)
  | [] => if opening = ['.'] then some [] else none

/-- The last component, if it is a name. -/
def fileName? (path : Text) : Option Text :=
  match (components path).getLast? with
  | some (.name t) => some t
  | _ => none

/-- The path, its parent, and so on upwards. -/
def ancestors (path : Text) : List Text := go path.length path
where
  go : Nat → Text → List Text
    | 0, path => [path]
    | fuel + 1, path =>
        match parent? path with
        | some above => path :: go fuel above
        | none => [path]

/-- Appends `relative` below `directory`; an absolute path stands for itself. -/
def append (directory relative : Text) : Text :=
  if isAbsolute relative then relative
  else if directory.isEmpty || Text.endsWith ['/'] directory then directory ++ relative
  else directory ++ '/' :: relative

/-- The components with one slash between neighbours. -/
def toSlash (path : Text) : Text := joinSegments ((components path).map Component.text)

/-- Puts the home directory for a leading `~` that stands alone. -/
def expandHome (home : Option Text) : Text → Text
  | ['~'] => home.getD ['~']
  | '~' :: '/' :: rest =>
      match home with
      | some h => h ++ '/' :: rest
      | none => '~' :: '/' :: rest
  | path => path

end Path

end FileSelect

import FileSelect.Disk.Basic
import FileSelect.Disk.Fault
import FileSelect.Path.Basic

/-!
# From a path to a place

A path is followed name by name from the top directory or from the working directory.
Every name but the last has to lead to a directory; a symbolic link on the way is
replaced by its target, and at most forty links are followed. What happens to the last
name depends on what the path is wanted for.
-/

namespace FileSelect

inductive Step
  | stay
  | up
  | enter (name : Name)
deriving DecidableEq, Repr

namespace Step

def ofSegment (segment : Text) : Step :=
  if segment = ['.'] then .stay else if segment = ['.', '.'] then .up else .enter segment

/-- A slash at the end asks for a directory. -/
def ofPath (path : Text) : List Step :=
  (segments path).map ofSegment ++ if Text.endsWith ['/'] path then [.stay] else []

end Step

/-- What is asked of the last name of a path. -/
inductive LastName
  /-- It has to exist, and a link is followed. -/
  | follow
  /-- It has to exist, and a link stands for itself. -/
  | keep
  /-- A link is followed, and the name may be free. -/
  | create
deriving DecidableEq, Repr

namespace Disk

/-- Takes the steps from a place and hands over to `onLink` at a link that is followed. -/
def descend (d : Disk) (last : LastName)
    (onLink : Place → Text → List Step → Except Fault Place) :
    Place → List Step → Except Fault Place
  | here, [] => .ok here
  | here, step :: rest =>
      match d.find? here with
      | none => .error .notFound
      | some .directory =>
          match step with
          | .stay => descend d last onLink here rest
          | .up => descend d last onLink here.dropLast rest
          | .enter name =>
              match d.find? (here ++ [name]) with
              | none =>
                  if last = .create ∧ rest = [] then .ok (here ++ [name]) else .error .notFound
              | some (.link target) =>
                  if last = .keep ∧ rest = [] then .ok (here ++ [name])
                  else onLink here target rest
              | some _ => descend d last onLink (here ++ [name]) rest
      | some _ => .error .notDirectory

/-- Where a path starts when it is read in the directory `here`. -/
def startFrom (here : Place) (path : Text) : Place :=
  if Path.isAbsolute path then [] else here

/-- Takes the steps and follows at most `budget` links. -/
def trace (d : Disk) (last : LastName) : Nat → Place → List Step → Except Fault Place
  | 0 => descend d last fun _ _ _ => .error .tooManyLinks
  | budget + 1 => descend d last fun here target rest =>
      if target = [] then .error .notFound
      else trace d last budget (startFrom here target) (Step.ofPath target ++ rest)

def linkLimit : Nat := 40

def resolve (d : Disk) (last : LastName) (path : Text) : Except Fault Place :=
  if path = [] then .error .notFound
  else trace d last linkLimit (startFrom d.workingPlace path) (Step.ofPath path)

/-- What a path leads to. -/
def look (d : Disk) (last : LastName) (path : Text) : Except Fault (Place × Node) := do
  let place ← d.resolve last path
  match d.find? place with
  | some node => pure (place, node)
  | none => throw .notFound

def isDirectory (d : Disk) (path : Text) : Bool :=
  match d.look .follow path with
  | .ok (_, .directory) => true
  | _ => false

def pathExists (d : Disk) (path : Text) : Bool := (d.look .follow path).isOk

/-- The directory and the name under which something may be created or removed at a
path. A path whose last part is no name gives the fault `special`. -/
def slot (d : Disk) (special : Fault) (path : Text) : Except Fault (Place × Name) :=
  if path = [] then .error .notFound
  else
    let parts := segments path
    match parts.getLast? with
    | none => .error special
    | some name => do
        let directory ← trace d .follow linkLimit (startFrom d.workingPlace path)
          (parts.dropLast.map Step.ofSegment)
        match d.find? directory with
        | some .directory =>
            if Step.ofSegment name = .enter name then pure (directory, name) else throw special
        | some _ => throw .notDirectory
        | none => throw .notFound

end Disk

end FileSelect

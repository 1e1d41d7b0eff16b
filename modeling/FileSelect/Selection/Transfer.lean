import FileSelect.Disk.Change
import FileSelect.Selection.Basic

/-!
# Copying and moving

Every member is recreated at its relative path below a destination: a directory as a
directory, anything else with its content. Two files with one relative path are refused
before anything is touched. A failure stops the transfer and leaves what was done.
-/

namespace FileSelect

/-- An operation that may stop with a failure after a part of it is done. -/
abbrev Operation := EStateM Failure Disk

namespace Operation

/-- Applies a change of the disk. -/
def change (blame : Fault → Failure) (f : Disk → Except Fault Disk) : Operation Unit := fun d =>
  match f d with
  | .ok d => .ok () d
  | .error fault => .error (blame fault) d

def read {α : Type} (f : Disk → Except Failure α) : Operation α := fun d =>
  match f d with
  | .ok a => .ok a d
  | .error failure => .error failure d

/-- Applies a change that may be done in part only. -/
def perform (blame : Fault → Failure) (f : Disk.Change Unit) : Operation Unit := fun d =>
  match f d with
  | .ok _ d => .ok () d
  | .error fault d => .error (blame fault) d

def makeDirectories (path : Text) : Operation Unit :=
  perform (.ioAt path) (Disk.makeDirectories path)

/-- Creates the directory that the last component of `path` is in. -/
def makeParent (path : Text) : Operation Unit :=
  match Path.parent? path with
  | some above => makeDirectories above
  | none => pure ()

end Operation

namespace Selection

/-- The collision of two files, the one with the smaller place first. -/
def collisionOf (a b : Member) : Failure :=
  let (first, second) := if (Place.order a.place b.place).isLE then (a, b) else (b, a)
  .collision b.relative first.path second.path

/-- Finds the first member that has the relative path of an earlier one. -/
def collisionIn? : (seen rest : List Member) → Option Failure
  | _, [] => none
  | seen, m :: rest =>
      match seen.find? fun n => n.relative == m.relative with
      | some n => some (collisionOf n m)
      | none => collisionIn? (m :: seen) rest

def collision? (s : Selection) (d : Disk) : Option Failure :=
  collisionIn? [] (s.files d).members

/-- Stops with the collision, if there is one. -/
def refuseCollision (s : Selection) : Operation Unit := fun d =>
  match s.collision? d with
  | some failure => .error failure d
  | none => .ok () d

/-- Puts a copy of a member below `destination`. -/
def copyMember (destination : Text) (m : Member) : Operation Member := do
  let target := Path.append destination m.relative
  if m.isDirectory (← get) then
    Operation.makeDirectories target
  else
    Operation.makeParent target
    Operation.change (.ioAt m.path) fun d => d.copyFile m.path target
  Operation.read fun d => Member.locate d destination m.relative

/-- Transfers members in their order into a selection. -/
def transfer (one : Member → Operation Member) : Selection → List Member → Operation Selection
  | done, [] => pure done
  | done, m :: rest => do
      let moved ← one m
      transfer one (done.insert moved) rest

def copyTo (s : Selection) (destination : Text) : Operation Selection := do
  s.refuseCollision
  transfer (copyMember destination) (empty s.settings) s.members

/-- Moves a member that is no directory below `destination`. A directory is created there
and answers `true`: it is left to be removed at the end. -/
def moveMember (destination : Text) (m : Member) : Operation (Member × Bool) := do
  let target := Path.append destination m.relative
  let isDirectory := m.isDirectory (← get)
  if isDirectory then
    Operation.makeDirectories target
  else
    Operation.makeParent target
    Operation.perform (.ioAt m.path) (Disk.moveFile m.path target)
  let moved ← Operation.read fun d => Member.locate d destination m.relative
  pure (moved, isDirectory)

/-- Moves members in their order; `left` collects the source directories. -/
def moveMembers (destination : Text) :
    (done : Selection) → (left rest : List Member) → Operation (Selection × List Member)
  | done, left, [] => pure (done, left)
  | done, left, m :: rest => do
      let (moved, isDirectory) ← moveMember destination m
      moveMembers destination (done.insert moved) (if isDirectory then left ++ [m] else left) rest

/-- Removes those of the directories that are empty when their turn comes. -/
def removeEmpty (directories : List Member) (d : Disk) : Disk :=
  directories.foldl (fun d m => (d.removeDirectory m.path).toOption.getD d) d

def moveTo (s : Selection) (destination : Text) : Operation Selection := do
  s.refuseCollision
  let (moved, left) ← moveMembers destination (empty s.settings) [] s.members
  modify (removeEmpty (sortBy Member.deepestFirst left))
  pure moved

end Selection

end FileSelect

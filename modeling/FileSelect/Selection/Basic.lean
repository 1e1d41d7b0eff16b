import FileSelect.Selection.Member
import FileSelect.Settings

/-!
# Selections

A selection is a set of members, no two at one place, together with the settings for
later scans and archives. A place that is present already keeps the anchor and the
relative path it was added with.
-/

namespace FileSelect

structure Selection where
  members : List Member
  settings : Settings
deriving DecidableEq, Repr

namespace Selection

def empty (settings : Settings) : Selection := ⟨[], settings⟩

def contains (s : Selection) (m : Member) : Bool := s.members.any fun n => n.SameAs m

def insert (s : Selection) (m : Member) : Selection :=
  if s.contains m then s else { s with members := s.members ++ [m] }

/-- Adds a member and says whether its place is new. -/
def insertNew (s : Selection) (m : Member) : Bool × Selection := (!s.contains m, s.insert m)

/-- Adds members in their order. -/
def extend (s : Selection) (ms : List Member) : Selection := ms.foldl insert s

def add (s other : Selection) : Selection := s.extend other.members

/-- The members gathered into a selection with the standard settings. -/
def collect (ms : List Member) : Selection := (empty .standard).extend ms

def setDefaultExcludes (s : Selection) (patterns : List Text) : Selection :=
  { s with settings := { s.settings with defaultExcludes := patterns } }

def flatten (s : Selection) : Selection :=
  { s with members := s.members.map Member.flattened }

def files (s : Selection) (d : Disk) : Selection :=
  { s with members := s.members.filter fun m => !m.isDirectory d }

def directories (s : Selection) (d : Disk) : Selection :=
  { s with members := s.members.filter fun m => m.isDirectory d }

def places (s : Selection) : List Place := s.members.map Member.place

def absolutePaths (s : Selection) : List Text := s.members.map Member.placeText

def relativePaths (s : Selection) : List Text := s.members.map Member.relative

def names (s : Selection) : List Text := s.members.map Member.name

/-- The paths as they were reached. -/
def paths (s : Selection) : List Text := s.members.map Member.path

def joined (s : Selection) (separator : Text) : Text := Text.join separator s.absolutePaths

instance : ToString Selection where
  toString s := String.ofList (s.joined ", ")

end Selection

end FileSelect

import FileSelect.Settings
import FileSelect.Text.Segments

/-!
# A disk as a value

A disk is a finite table of what stands at which place. A place is the list of names
from the top directory down; the top directory itself is always there. Every operation
on files is a function on this value, so its effect can be compared with the table
before it.
-/

namespace FileSelect

/-- A name as it is kept on the disk. It is valid UTF-8, so that its characters are all there
is to it; names of other bytes, which could only be read with characters replaced, do not
occur. -/
abbrev Name := Text

/-- Names from the top directory down. -/
abbrev Place := List Name

/-- What a file holds: bytes, or an archive of named contents. -/
inductive Content
  | bytes (data : ByteArray)
  | archive (members : List (Name × Compression × Content))

namespace Content

mutual

-- An archive holds contents of its own, so that the instance cannot be derived.
/-- Contents are compared part by part. -/
def decEq : (a b : Content) → Decidable (a = b)
  | .bytes data, .bytes other => decidable_of_iff (data = other) (by simp)
  | .archive members, .archive others =>
      have := decEqMembers members others
      decidable_of_iff (members = others) (by simp)
  | .bytes _, .archive _ => isFalse nofun
  | .archive _, .bytes _ => isFalse nofun

def decEqMembers : (members others : List (Name × Compression × Content)) →
    Decidable (members = others)
  | [], [] => isTrue rfl
  | (name, method, content) :: rest, (otherName, otherMethod, other) :: others =>
      have := decEq content other
      have := decEqMembers rest others
      decidable_of_iff ((name = otherName ∧ method = otherMethod ∧ content = other) ∧
        rest = others) (by simp)
  | [], _ :: _ => isFalse nofun
  | _ :: _, [] => isFalse nofun

end

instance : DecidableEq Content := decEq

def empty : Content := .bytes .empty

def ofText (t : Text) : Content := .bytes (String.ofList t).toUTF8

/-- The text whose UTF-8 encoding the bytes are. -/
def text? : Content → Option Text
  | .bytes data => (String.fromUTF8? data).map String.toList
  | .archive _ => none

end Content

inductive Node
  | file (content : Content)
  | link (target : Text)
  | directory
deriving DecidableEq

namespace Node

def isDirectory : Node → Bool
  | .directory => true
  | _ => false

end Node

structure Disk where
  nodes : List (Place × Node)
  /-- Where relative paths start. -/
  workingPlace : Place
deriving DecidableEq

namespace Disk

def find? (d : Disk) (place : Place) : Option Node :=
  if place = [] then some .directory else d.nodes.lookup place

def put (d : Disk) (place : Place) (node : Node) : Disk :=
  { d with nodes := (place, node) :: d.nodes.filter fun entry => entry.1 != place }

def erase (d : Disk) (place : Place) : Disk :=
  { d with nodes := d.nodes.filter fun entry => entry.1 != place }

/-- Removes a place with everything below it. -/
def eraseBelow (d : Disk) (place : Place) : Disk :=
  { d with nodes := d.nodes.filter fun entry => !place.isPrefixOf entry.1 }

/-- Puts what stands at and below `source` at and below `target`. -/
def relocate (d : Disk) (source target : Place) : Disk :=
  { d with nodes := d.nodes.map fun entry =>
      if source.isPrefixOf entry.1 then (target ++ entry.1.drop source.length, entry.2) else entry }

/-- The last name of a place directly inside `directory`. -/
def nameInside? (directory place : Place) : Option Name :=
  match place.getLast? with
  | some name => if place = directory ++ [name] then some name else none
  | none => none

/-- The names directly inside a directory, in the byte order of names. -/
def namesInside (d : Disk) (directory : Place) : List Name :=
  sortTexts (d.nodes.filterMap fun entry => nameInside? directory entry.1)

end Disk

namespace Place

def text (place : Place) : Text :=
  match place with
  | [] => ['/']
  | _ => place.flatMap fun name => '/' :: name

/-- Compares name by name from the top. -/
def order : Place → Place → Ordering := lexicographic Text.order

end Place

end FileSelect

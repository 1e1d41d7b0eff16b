import FileSelect.Unicode.Property

/-!
# Classes of characters

A class says which characters it contains. Classes are built from ranges and properties
by the operations on sets; a folded class contains a character when it contains one
that differs from it in case only.
-/

namespace FileSelect.Regex

inductive CharClass
  | nothing
  /-- The characters with codes from `first` to `last`. -/
  | range (first last : Nat)
  | property (p : Unicode.Property)
  | union (a b : CharClass)
  | intersection (a b : CharClass)
  | complement (a : CharClass)
  /-- Closed under simple case folding. -/
  | folded (a : CharClass)
  /-- Closed under the case of the letters from A to Z. -/
  | asciiFolded (a : CharClass)
deriving DecidableEq, Repr

namespace CharClass

/-- The other case of a letter from A to Z. -/
def asciiVariant (n : Nat) : Nat :=
  if 65 ≤ n ∧ n ≤ 90 then n + 32 else if 97 ≤ n ∧ n ≤ 122 then n - 32 else n

def contains : CharClass → Char → Bool
  | .nothing, _ => false
  | .range first last, c => first ≤ c.toNat && c.toNat ≤ last
  | .property p, c => p.holds c
  | .union a b, c => a.contains c || b.contains c
  | .intersection a b, c => a.contains c && b.contains c
  | .complement a, c => !a.contains c
  | .folded a, c => (Unicode.caseVariants c.toNat).any fun n => a.contains (Char.ofNat n)
  | .asciiFolded a, c => a.contains c || a.contains (Char.ofNat (asciiVariant c.toNat))

def char (c : Char) : CharClass := .range c.toNat c.toNat

def ofRanges (ranges : List (Char × Char)) : CharClass :=
  ranges.foldr (fun (a, b) rest => .union (.range a.toNat b.toNat) rest) .nothing

def difference (a b : CharClass) : CharClass := .intersection a (.complement b)

def symmetricDifference (a b : CharClass) : CharClass :=
  .union (difference a b) (difference b a)

def negateIf (negated : Bool) (a : CharClass) : CharClass :=
  if negated then .complement a else a

/-- The classes that are written between colons, which are about ASCII alone. -/
def posix? (name : Text) : Option CharClass :=
  let table : List (String × List (Char × Char)) :=
    [("alnum", [('0', '9'), ('A', 'Z'), ('a', 'z')]), ("alpha", [('A', 'Z'), ('a', 'z')]),
     ("ascii", [('\x00', '\x7f')]), ("blank", [('\t', '\t'), (' ', ' ')]),
     ("cntrl", [('\x00', '\x1f'), ('\x7f', '\x7f')]), ("digit", [('0', '9')]),
     ("graph", [('!', '~')]), ("lower", [('a', 'z')]), ("print", [(' ', '~')]),
     ("punct", [('!', '/'), (':', '@'), ('[', Char.ofNat 96), ('\x7b', '~')]),
     ("space", [('\t', '\r'), (' ', ' ')]), ("upper", [('A', 'Z')]),
     ("word", [('0', '9'), ('A', 'Z'), ('_', '_'), ('a', 'z')]),
     ("xdigit", [('0', '9'), ('A', 'F'), ('a', 'f')])]
  (table.find? fun entry => entry.1.toList == name).map fun entry => ofRanges entry.2

end CharClass

end FileSelect.Regex

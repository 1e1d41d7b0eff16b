/-!
# Text as a list of characters

Names, patterns, paths and messages are lists of characters. The operations here
are the few that the rest needs: cutting at a separator and joining again, removing
characters from both ends, and the order of the UTF-8 encoding, which is the order of
the code points.
-/

namespace FileSelect

abbrev Text := List Char

namespace Text

/-- The characters with the Unicode property White_Space. -/
def isBlank (c : Char) : Bool :=
  let n := c.toNat
  (9 ≤ n && n ≤ 13) || n == 0x20 || n == 0x85 || n == 0xA0 || n == 0x1680 ||
    (0x2000 ≤ n && n ≤ 0x200A) || n == 0x2028 || n == 0x2029 || n == 0x202F ||
    n == 0x205F || n == 0x3000

/-- Removes the characters in `drop` from both ends. -/
def strip (drop : Char → Bool) (t : Text) : Text :=
  ((t.dropWhile drop).reverse.dropWhile drop).reverse

def trim (t : Text) : Text := strip isBlank t

/-- The parts between the separators, one more than there are separators. -/
def split (sep : Char) : Text → List Text
  | [] => [[]]
  | c :: rest =>
      if c = sep then [] :: split sep rest
      else
        match split sep rest with
        | [] => [[c]]
        | part :: parts => (c :: part) :: parts

def join (sep : Text) : List Text → Text
  | [] => []
  | [part] => part
  | part :: next :: parts => part ++ sep ++ join sep (next :: parts)

/-- The text before and after the last separator. -/
def splitLast? (sep : Char) : Text → Option (Text × Text)
  | [] => none
  | c :: rest =>
      match splitLast? sep rest with
      | some (before, after) => some (c :: before, after)
      | none => if c = sep then some ([], rest) else none

/-- The text after `start`, if the text begins with it. -/
def dropStart? : (start t : Text) → Option Text
  | [], t => some t
  | _ :: _, [] => none
  | a :: start, b :: t => if a = b then dropStart? start t else none

/-- The text before and after the first occurrence of `mark`. -/
def splitFirst? (mark : Text) : Text → Option (Text × Text)
  | [] => if mark = [] then some ([], []) else none
  | c :: rest =>
      match dropStart? mark (c :: rest) with
      | some after => some ([], after)
      | none =>
          match splitFirst? mark rest with
          | some (before, after) => some (c :: before, after)
          | none => none

def endsWith (finish t : Text) : Bool := finish.isSuffixOf t

/-- Number of bytes of the UTF-8 encoding. -/
def byteLength (t : Text) : Nat := t.foldr (fun c n => c.utf8Size + n) 0

end Text

/-- Compares the first difference; a proper beginning comes first. -/
def lexicographic {α : Type} (order : α → α → Ordering) : List α → List α → Ordering
  | [], [] => .eq
  | [], _ :: _ => .lt
  | _ :: _, [] => .gt
  | a :: s, b :: t => (order a b).then (lexicographic order s t)

namespace Text

/-- The byte order of the UTF-8 encodings. -/
def order : Text → Text → Ordering := lexicographic fun a b => compare a.toNat b.toNat

def ofString (s : String) : Text := s.toList

instance : Coe String Text := ⟨ofString⟩

end Text

/-- Puts `a` before the first element that is not smaller. -/
def insertBy {α : Type} (order : α → α → Ordering) (a : α) : List α → List α
  | [] => [a]
  | b :: rest => if (order a b).isLE then a :: b :: rest else b :: insertBy order a rest

/-- Ascending by `order`; equal elements keep their places. -/
def sortBy {α : Type} (order : α → α → Ordering) (values : List α) : List α :=
  values.foldr (insertBy order) []

def sortTexts (values : List Text) : List Text := sortBy Text.order values

end FileSelect

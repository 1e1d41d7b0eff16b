import FileSelect.Regex.Basic

/-!
# Flags and escapes

What a backslash introduces: a character, a class or an assertion. The flags that are in
force decide what classes and words mean, and whether blanks and comments are passed
over.
-/

namespace FileSelect.Regex

structure Flags where
  ignoreCase : Bool
  multiLine : Bool
  /-- A dot also stands for a line feed. -/
  dotAll : Bool
  /-- Lines may end in a carriage return. -/
  crlf : Bool
  unicode : Bool
  /-- Blanks and comments between the parts of an expression do not count. -/
  extended : Bool
deriving DecidableEq, Repr

namespace Flags

def standard : Flags := ⟨false, false, false, false, true, false⟩

/-- The class under the flag for case. -/
def fold (flags : Flags) (chars : CharClass) : CharClass :=
  if flags.ignoreCase then (if flags.unicode then .folded chars else .asciiFolded chars)
  else chars

/-- Passes over blanks and comments, which go to the end of the line. -/
def skipExtended : (inComment : Bool) → Text → Text
  | _, [] => []
  | true, c :: rest => skipExtended (c != '\n') rest
  | false, c :: rest =>
      if Text.isBlank c then skipExtended false rest
      else if c = '#' then skipExtended true rest
      else c :: rest

def skip (flags : Flags) (t : Text) : Text := if flags.extended then skipExtended false t else t

end Flags

inductive Escaped
  | char (c : Char)
  /-- A byte that is not the encoding of a character by itself. -/
  | byte
  | chars (k : CharClass)
  | assertion (a : Assertion)

def hexDigit? (c : Char) : Option Nat :=
  if c.isDigit then some (c.toNat - 48)
  else if 'a'.toNat ≤ c.toNat ∧ c.toNat ≤ 'f'.toNat then some (c.toNat - 87)
  else if 'A'.toNat ≤ c.toNat ∧ c.toNat ≤ 'F'.toNat then some (c.toNat - 55)
  else none

/-- Exactly `count` hexadecimal digits. -/
def readHex? (flags : Flags) : (count value : Nat) → Text → Option (Nat × Text)
  | 0, value, t => some (value, t)
  | count + 1, value, t =>
      match flags.skip t with
      | c :: rest => do
          let digit ← hexDigit? c
          readHex? flags count (16 * value + digit) rest
      | [] => none

/-- The text before the closing brace and the text behind it. -/
def readBraced? (flags : Flags) : (fuel : Nat) → Text → Option (Text × Text)
  | 0, _ => none
  | fuel + 1, t =>
      match flags.skip t with
      | '\x7d' :: rest => some ([], rest)
      | c :: rest => (readBraced? flags fuel rest).map fun (inside, rest) => (c :: inside, rest)
      | [] => none

def charWithCode? (n : Nat) : Option Char :=
  if n.isValidChar then some (Char.ofNat n) else none

/-- The code of a character: digits between braces, or as many as the letter says. -/
def readCodeNumber? (flags : Flags) (letter : Char) (t : Text) : Option (Nat × Text) :=
  match flags.skip t with
  | '\x7b' :: rest => do
      let (inside, rest) ← readBraced? flags (rest.length + 1) rest
      let digits ← inside.mapM hexDigit?
      if digits = [] then none else some (digits.foldl (fun n d => 16 * n + d) 0, rest)
  | t => readHex? flags (if letter = 'x' then 2 else if letter = 'u' then 4 else 8) 0 t

/-- A character by its code, behind a letter that says how many digits the code has. -/
def readCode? (flags : Flags) (letter : Char) (t : Text) : Option (Escaped × Text) := do
  let (n, rest) ← readCodeNumber? flags letter t
  let c ← charWithCode? n
  if letter = 'x' ∧ !flags.unicode ∧ 128 ≤ n ∧ n < 256 then some (.byte, rest)
  else some (.char c, rest)

/-- The property that is written between braces, and whether its opposite is meant. -/
def propertyInside? (inside : Text) : Option (Unicode.Property × Bool) :=
  match Text.splitFirst? ['!', '='] inside with
  | some (kind, value) => (Unicode.propertyValued? kind value).map fun p => (p, true)
  | none =>
      match (Text.splitFirst? [':'] inside).or (Text.splitFirst? ['='] inside) with
      | some (kind, value) => (Unicode.propertyValued? kind value).map fun p => (p, false)
      | none => (Unicode.propertyNamed? inside).map fun p => (p, false)

/-- A property is given by one letter or between braces. -/
def readPropertyName? (flags : Flags) (t : Text) : Option ((Unicode.Property × Bool) × Text) :=
  match flags.skip t with
  | [] => none
  | '\\' :: _ => none
  | '\x7b' :: rest => do
      let (inside, rest) ← readBraced? flags (rest.length + 1) rest
      let named ← propertyInside? inside
      some (named, rest)
  | c :: rest => (Unicode.categoryNamed? [c]).map fun p => ((p, false), rest)

/-- The class of a property. -/
def readProperty? (flags : Flags) (negated : Bool) (t : Text) : Option (Escaped × Text) := do
  let ((property, opposite), rest) ← readPropertyName? flags t
  if flags.unicode then
    let chars := flags.fold (.property property)
    some (.chars (CharClass.negateIf (negated != opposite) chars), rest)
  else none

/-- The digits, blanks or word characters. Without Unicode they are those of ASCII, and
then there is no class of all others. -/
def shorthand? (flags : Flags) (letter : Char) : Option CharClass :=
  let negated := letter.isUpper
  let chars :=
    if letter.toLower = 'd' then
      if flags.unicode then CharClass.property (.category ["Nd"]) else .ofRanges [('0', '9')]
    else if letter.toLower = 's' then
      if flags.unicode then CharClass.property .whiteSpace
      else .ofRanges [('\t', '\r'), (' ', ' ')]
    else if flags.unicode then CharClass.property .word
    else .ofRanges [('0', '9'), ('A', 'Z'), ('_', '_'), ('a', 'z')]
  if negated && !flags.unicode then none else some (CharClass.negateIf negated chars)

def isBoundaryNameChar (c : Char) : Bool := c.isAlpha || c == '-'

/-- The word boundaries that have a name. -/
def boundaryNamed? (flags : Flags) (name : Text) : Option Assertion :=
  if name = Text.ofString "start" then some (.wordStart flags.unicode)
  else if name = Text.ofString "end" then some (.wordEnd flags.unicode)
  else if name = Text.ofString "start-half" then some (.noWordBefore flags.unicode)
  else if name = Text.ofString "end-half" then some (.noWordAfter flags.unicode)
  else none

/-- The name of a word boundary up to the closing brace. -/
def readBoundaryName? (flags : Flags) (t : Text) : Option (Escaped × Text) := do
  let (name, rest) ← readBraced? flags (t.length + 1) t
  if name.all isBoundaryNameChar then
    (boundaryNamed? flags name).map fun a => (.assertion a, rest)
  else none

/-- A word boundary. Braces behind it hold its name, if they do not hold a count. -/
def readBoundary? (flags : Flags) (t : Text) : Option (Escaped × Text) :=
  match t with
  | '\x7b' :: rest =>
      match flags.skip rest with
      | [] => none
      | c :: inside =>
          if isBoundaryNameChar c then readBoundaryName? flags (c :: inside)
          else some (.assertion (.boundary flags.unicode), t)
  | _ => some (.assertion (.boundary flags.unicode), t)

/-- Reads what follows a backslash. Digits and most letters mean nothing there. -/
def readEscape? (flags : Flags) : Text → Option (Escaped × Text)
  | [] => none
  | c :: t =>
      if c = 'x' ∨ c = 'u' ∨ c = 'U' then readCode? flags c t
      else if c = 'p' ∨ c = 'P' then readProperty? flags (c == 'P') t
      else if "dswDSW".toList.contains c then
        (shorthand? flags c).map fun k => (.chars k, t)
      else if c = 'a' then some (.char '\x07', t)
      else if c = 'f' then some (.char '\x0c', t)
      else if c = 't' then some (.char '\t', t)
      else if c = 'n' then some (.char '\n', t)
      else if c = 'r' then some (.char '\r', t)
      else if c = 'v' then some (.char '\x0b', t)
      else if c = 'A' then some (.assertion .textStart, t)
      else if c = 'z' then some (.assertion .textEnd, t)
      else if c = 'b' then readBoundary? flags t
      else if c = 'B' then some (.assertion (.noBoundary flags.unicode), t)
      else if c = '<' then some (.assertion (.wordStart flags.unicode), t)
      else if c = '>' then some (.assertion (.wordEnd flags.unicode), t)
      else if c.toNat < 128 ∧ !c.isAlphanum then some (.char c, t)
      else none

end FileSelect.Regex

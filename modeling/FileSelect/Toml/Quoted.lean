import FileSelect.Text.Basic

/-!
# Strings in a TOML document

A string is written between single quotes as it stands, or between double quotes with
escapes; triple quotes let it go over several lines, and then a line break right after
the opening quotes does not count. Each reader starts behind the opening quotes and
gives the string and the text behind the closing ones.
-/

namespace FileSelect.Toml

/-- Control characters are never written as they stand, except for the tab. -/
def isControl (c : Char) : Bool := c.toNat < 0x20 || c.toNat == 0x7F

def isPlain (c : Char) : Bool := !isControl c || c == '\t'

def hexValue? (c : Char) : Option Nat :=
  let n := c.toNat
  if '0'.toNat ≤ n ∧ n ≤ '9'.toNat then some (n - '0'.toNat)
  else if 'a'.toNat ≤ n ∧ n ≤ 'f'.toNat then some (n - 'a'.toNat + 10)
  else if 'A'.toNat ≤ n ∧ n ≤ 'F'.toNat then some (n - 'A'.toNat + 10)
  else none

/-- The character with the code that the hexadecimal digits write. -/
def charOfHex? (digits : Text) : Option Char := do
  let values ← digits.mapM hexValue?
  let code := values.foldl (fun n v => 16 * n + v) 0
  if code.isValidChar then some (Char.ofNat code) else none

/-- The character that a backslash and this letter stand for. -/
def simpleEscape? : Char → Option Char
  | 'b' => some '\x08'
  | 't' => some '\t'
  | 'n' => some '\n'
  | 'f' => some '\x0c'
  | 'r' => some '\r'
  | '"' => some '"'
  | '\\' => some '\\'
  | _ => none

def behindLineBreak : Text → Text
  | '\n' :: rest => rest
  | '\r' :: '\n' :: rest => rest
  | t => t

/-- Puts a character in front of what has been read. -/
def consRead (c : Char) : Option (Text × Text) → Option (Text × Text) :=
  Option.map fun (read, rest) => (c :: read, rest)

def readLiteral : Text → Option (Text × Text)
  | [] => none
  | '\'' :: rest => some ([], rest)
  | c :: rest => if isPlain c then consRead c (readLiteral rest) else none

def readBasic : Text → Option (Text × Text)
  | [] => none
  | '"' :: rest => some ([], rest)
  | '\\' :: 'u' :: a :: b :: c :: d :: rest => do
      let char ← charOfHex? [a, b, c, d]
      consRead char (readBasic rest)
  | '\\' :: 'U' :: a :: b :: c :: d :: e :: f :: g :: h :: rest => do
      let char ← charOfHex? [a, b, c, d, e, f, g, h]
      consRead char (readBasic rest)
  | '\\' :: c :: rest => do
      let char ← simpleEscape? c
      consRead char (readBasic rest)
  | c :: rest => if isPlain c then consRead c (readBasic rest) else none

/-- One or two quotes may stand in front of the closing ones. -/
def readLongLiteral : Text → Option (Text × Text)
  | [] => none
  | '\'' :: '\'' :: '\'' :: '\'' :: '\'' :: rest => some (['\'', '\''], rest)
  | '\'' :: '\'' :: '\'' :: '\'' :: rest => some (['\''], rest)
  | '\'' :: '\'' :: '\'' :: rest => some ([], rest)
  | '\r' :: '\n' :: rest => consRead '\n' (readLongLiteral rest)
  | c :: rest => if isPlain c || c == '\n' then consRead c (readLongLiteral rest) else none

/-- Where the reader of a long string with escapes is. -/
inductive Margin
  | none
  /-- Behind a backslash that has to be followed by a line break. -/
  | beforeBreak
  /-- Blanks and line breaks are passed over. -/
  | afterBreak
deriving DecidableEq, Repr

/-- A backslash at the end of a line joins it with the next text. -/
def readLongBasic : Margin → Text → Option (Text × Text)
  | _, [] => none
  | .beforeBreak, '\n' :: rest => readLongBasic .afterBreak rest
  | .beforeBreak, '\r' :: '\n' :: rest => readLongBasic .afterBreak rest
  | .beforeBreak, c :: rest =>
      if c = ' ' ∨ c = '\t' then readLongBasic .beforeBreak rest else none
  | .afterBreak, '\n' :: rest => readLongBasic .afterBreak rest
  | .afterBreak, '\r' :: '\n' :: rest => readLongBasic .afterBreak rest
  | .afterBreak, ' ' :: rest => readLongBasic .afterBreak rest
  | .afterBreak, '\t' :: rest => readLongBasic .afterBreak rest
  | _, '"' :: '"' :: '"' :: '"' :: '"' :: rest => some (['"', '"'], rest)
  | _, '"' :: '"' :: '"' :: '"' :: rest => some (['"'], rest)
  | _, '"' :: '"' :: '"' :: rest => some ([], rest)
  | _, '\r' :: '\n' :: rest => consRead '\n' (readLongBasic .none rest)
  | _, '\\' :: 'u' :: a :: b :: c :: d :: rest => do
      let char ← charOfHex? [a, b, c, d]
      consRead char (readLongBasic .none rest)
  | _, '\\' :: 'U' :: a :: b :: c :: d :: e :: f :: g :: h :: rest => do
      let char ← charOfHex? [a, b, c, d, e, f, g, h]
      consRead char (readLongBasic .none rest)
  | _, '\\' :: '\n' :: rest => readLongBasic .afterBreak rest
  | _, '\\' :: '\r' :: '\n' :: rest => readLongBasic .afterBreak rest
  | _, '\\' :: ' ' :: rest => readLongBasic .beforeBreak rest
  | _, '\\' :: '\t' :: rest => readLongBasic .beforeBreak rest
  | _, '\\' :: c :: rest => do
      let char ← simpleEscape? c
      consRead char (readLongBasic .none rest)
  | _, c :: rest => if isPlain c || c == '\n' then consRead c (readLongBasic .none rest) else none

/-- Reads a string with its opening quotes. -/
def readString? : Text → Option (Text × Text)
  | '"' :: '"' :: '"' :: rest => readLongBasic .none (behindLineBreak rest)
  | '\'' :: '\'' :: '\'' :: rest => readLongLiteral (behindLineBreak rest)
  | '"' :: rest => readBasic rest
  | '\'' :: rest => readLiteral rest
  | _ => none

/-! ## Writing -/

def hexDigit (n : Nat) : Char := if n < 10 then Char.ofNat (48 + n) else Char.ofNat (55 + n)

/-- A character between double quotes; `long` says that line breaks may stand as they are. -/
def escapeChar (long : Bool) (c : Char) : Text :=
  if c = '\x08' then ['\\', 'b']
  else if c = '\t' then ['\\', 't']
  else if c = '\n' then (if long then ['\n'] else ['\\', 'n'])
  else if c = '\x0c' then ['\\', 'f']
  else if c = '\r' then ['\\', 'r']
  else if c = '"' then ['\\', '"']
  else if c = '\\' then ['\\', '\\']
  else if isControl c then
    ['\\', 'u', '0', '0', hexDigit (c.toNat / 16), hexDigit (c.toNat % 16)]
  else [c]

def hasThreeQuotes : Text → Bool
  | '\'' :: '\'' :: '\'' :: _ => true
  | _ :: rest => hasThreeQuotes rest
  | [] => false

/-- A string is written as it stands if this saves escapes and single quotes can hold it. -/
def prefersLiteral (t : Text) : Bool :=
  t.any (fun c => c == '"' || c == '\\') && t.all (fun c => isPlain c || c == '\n') &&
    !hasThreeQuotes t && !Text.endsWith ['\''] t

/-- Writes a string in the form that needs the fewest escapes. -/
def writeString (t : Text) : Text :=
  let long := t.contains '\n'
  if prefersLiteral t then
    if long then ['\'', '\'', '\'', '\n'] ++ t ++ ['\'', '\'', '\'']
    else if t.contains '\'' then ['\'', '\'', '\''] ++ t ++ ['\'', '\'', '\'']
    else ['\''] ++ t ++ ['\'']
  else if long then ['"', '"', '"', '\n'] ++ t.flatMap (escapeChar true) ++ ['"', '"', '"']
  else ['"'] ++ t.flatMap (escapeChar false) ++ ['"']

end FileSelect.Toml

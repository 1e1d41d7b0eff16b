import FileSelect.Toml.Quoted
import FileSelect.Toml.Scalar

/-!
# Reading a TOML document

A document is read line by line: a header opens a table, and a key with its value is
added to the open table. Arrays and tables in braces nest to a fixed depth.
-/

namespace FileSelect.Toml

def skipBlanks (t : Text) : Text := t.dropWhile fun c => c == ' ' || c == '\t'

def lineBreak? : Text → Option Text
  | '\n' :: rest => some rest
  | '\r' :: '\n' :: rest => some rest
  | _ => none

/-- Goes to the end of the line, if the text is at a comment. -/
def skipComment : Text → Text
  | '#' :: rest => rest.dropWhile isPlain
  | t => t

/-- Nothing but blanks and a comment is left on the line. -/
def endLine? (t : Text) : Option Text :=
  match skipComment (skipBlanks t) with
  | [] => some []
  | t => lineBreak? t

/-- Passes over blanks, comments and line breaks; a comment ends in a line break. -/
def skipSpace? (t : Text) : Option Text := go t.length t
where
  go : Nat → Text → Option Text
    | 0, t => some t
    | fuel + 1, t =>
        match skipBlanks t with
        | '#' :: rest => (lineBreak? (skipComment ('#' :: rest))).bind (go fuel)
        | t =>
            match lineBreak? t with
            | some rest => go fuel rest
            | none => some t

/-! ## Keys -/

def isBareKey (c : Char) : Bool :=
  isDigit c || ('a'.toNat ≤ c.toNat && c.toNat ≤ 'z'.toNat) ||
    ('A'.toNat ≤ c.toNat && c.toNat ≤ 'Z'.toNat) || c == '-' || c == '_'

def readSimpleKey? : Text → Option (Text × Text)
  | '"' :: rest => readBasic rest
  | '\'' :: rest => readLiteral rest
  | t =>
      let key := t.takeWhile isBareKey
      if key = [] then none else some (key, t.dropWhile isBareKey)

/-- A key is a list of simple keys with dots and blanks between them. -/
def readKey? (t : Text) : Option (List Text × Text) := do
  let (keys, rest) ← go t.length t
  if keys.length < 80 then some (keys, rest) else none
where
  go : Nat → Text → Option (List Text × Text)
    | 0, _ => none
    | fuel + 1, t => do
        let (key, rest) ← readSimpleKey? (skipBlanks t)
        match skipBlanks rest with
        | '.' :: rest => do
            let (keys, rest) ← go fuel rest
            some (key :: keys, rest)
        | rest => some ([key], rest)

/-! ## Values -/

/-- The values of an array behind its opening bracket, each read by `one`. -/
def readItems? (one : Text → Option (Value × Text)) : Nat → Text → Option (List Value × Text)
  | 0, _ => none
  | fuel + 1, t => do
      match ← skipSpace? t with
      | ']' :: rest => some ([], rest)
      | t => do
          let (value, t) ← one t
          match ← skipSpace? t with
          | ',' :: t => do
              let (values, rest) ← readItems? one fuel t
              some (value :: values, rest)
          | ']' :: rest => some ([value], rest)
          | _ => none

/-- A key, an equals sign and a value. -/
def readPair? (one : Text → Option (Value × Text)) (t : Text) :
    Option (List Text × Value × Text) := do
  let (keys, t) ← readKey? t
  match t with
  | '=' :: t => do
      let (value, rest) ← one (skipBlanks t)
      some (keys, value, rest)
  | _ => none

/-- The pairs of a table in braces, added to `entries`. -/
def readPairs? (one : Text → Option (Value × Text)) :
    Nat → Entries → Text → Option (Entries × Text)
  | 0, _, _ => none
  | fuel + 1, entries, t => do
      let (keys, value, t) ← readPair? one t
      let entries ← Entries.addValue keys value .inline entries
      match skipBlanks t with
      | ',' :: t => readPairs? one fuel entries t
      | '}' :: rest => some (entries, rest)
      | _ => none

/-- Reads a value in which arrays and tables nest less than `depth` deep. -/
def readValue? : (depth : Nat) → Text → Option (Value × Text)
  | _, '"' :: rest => stringValue ('"' :: rest)
  | _, '\'' :: rest => stringValue ('\'' :: rest)
  | 0, '[' :: _ => none
  | 0, '{' :: _ => none
  | depth + 1, '[' :: rest =>
      (readItems? (readValue? depth) (rest.length + 1) rest).map fun (values, rest) =>
        (.array values, rest)
  | depth + 1, '{' :: rest =>
      match skipBlanks rest with
      | '}' :: rest => some (.table .inline [], rest)
      | rest =>
          (readPairs? (readValue? depth) (rest.length + 1) [] rest).map fun (entries, rest) =>
            (.table .inline entries, rest)
  | _, t => readScalar? t
where
  stringValue (t : Text) : Option (Value × Text) :=
    (readString? t).map fun (text, rest) => (.string text, rest)

/-- How deep arrays and tables in braces may nest. -/
def nestingLimit : Nat := 79

/-! ## Documents -/

/-- The document read so far: its top table and the header that is open, as the path to
its table. -/
structure State where
  top : Entries
  header : List Text

namespace State

def addPair (s : State) (keys : List Text) (value : Value) : Option State := do
  let top ← Entries.changeAt false (Entries.addValue keys value) s.header .section s.top
  some { s with top := top }

end State

def readHeader? (s : State) (t : Text) : Option (State × Text) :=
  match t with
  | '[' :: t => do
      let (keys, t) ← readKey? t
      match t with
      | ']' :: ']' :: t => do
          let top ← Entries.openElement keys s.top
          let rest ← endLine? t
          some (⟨top, keys⟩, rest)
      | _ => none
  | t => do
      let (keys, t) ← readKey? t
      match t with
      | ']' :: t => do
          let top ← Entries.openTable keys s.top
          let rest ← endLine? t
          some (⟨top, keys⟩, rest)
      | _ => none

/-- Reads lines until the text ends. -/
def readLines? : Nat → State → Text → Option State
  | 0, s, t => if t = [] then some s else none
  | fuel + 1, s, t =>
      match skipBlanks t with
      | [] => some s
      | '[' :: t => do
          let (s, rest) ← readHeader? s t
          readLines? fuel s rest
      | '#' :: t => do
          let rest ← endLine? ('#' :: t)
          readLines? fuel s rest
      | '\n' :: rest => readLines? fuel s rest
      | '\r' :: '\n' :: rest => readLines? fuel s rest
      | t => do
          let (keys, value, t) ← readPair? (readValue? nestingLimit) t
          let s ← s.addPair keys value
          let rest ← endLine? t
          readLines? fuel s rest

/-- A byte order mark in front of a document says nothing. -/
def dropMark : Text → Text
  | '\uFEFF' :: rest => rest
  | t => t

/-- The top table of a document. -/
def readDocument? (t : Text) : Option Entries :=
  (readLines? (t.length + 1) ⟨[], []⟩ (dropMark t)).map State.top

end FileSelect.Toml

import FileSelect.Regex.Bracket
import FileSelect.Regex.Weight

/-!
# Reading regular expressions

An expression is read from left to right: alternatives of sequences of parts, where a
part may be repeated. A group may set flags for itself or for the rest of the group it
stands in.
-/

namespace FileSelect.Regex

/-- What an opening parenthesis introduces. -/
inductive Opening
  | group (flags : Flags) (name : Option Text)
  | setting (flags : Flags)

/-- Turns the flag that a letter names on or off. -/
def Flags.set? (flags : Flags) (on : Bool) (letter : Char) : Option Flags :=
  if letter = 'i' then some { flags with ignoreCase := on }
  else if letter = 'm' then some { flags with multiLine := on }
  else if letter = 's' then some { flags with dotAll := on }
  else if letter = 'R' then some { flags with crlf := on }
  else if letter = 'u' then some { flags with unicode := on }
  else if letter = 'x' then some { flags with extended := on }
  else if letter = 'U' then some flags
  else none

/-- Sets the flags that the letters name, each at most once, for a group or for what
follows. A hyphen turns the letters behind it off. -/
def readFlags? : (seen : Text) → (on : Bool) → Flags → Text → Option (Opening × Text)
  | _, _, _, [] => none
  | seen, on, flags, c :: rest =>
      if c = ':' ∨ c = ')' then
        if seen.head? = some '-' then none
        else if c = ':' then some (.group flags none, rest)
        else some (.setting flags, rest)
      else if seen.contains c then none
      else if c = '-' then readFlags? (c :: seen) false flags rest
      else do
        let flags ← flags.set? on c
        readFlags? (c :: seen) on flags rest

/-- The name of a group up to the closing angle bracket. -/
def readGroupName? (t : Text) : Option (Text × Text) := do
  let (name, rest) ← Text.splitFirst? ['>'] t
  match name with
  | [] => none
  | first :: others =>
      if (first == '_' || Unicode.isAlphabetic first) &&
          others.all fun c => c == '_' || c == '.' || c == '[' || c == ']' ||
            Unicode.isAlphabetic c || Unicode.isNumeric c then
        some (name, rest)
      else none

/-- Reads what stands behind an opening parenthesis with a question mark. There is no
looking around: what asks for it is neither a flag nor a name. -/
def readSpecial? (flags : Flags) : Text → Option (Opening × Text)
  | 'P' :: '<' :: rest =>
      (readGroupName? rest).map fun (name, rest) => (.group flags (some name), rest)
  | '<' :: rest =>
      (readGroupName? rest).map fun (name, rest) => (.group flags (some name), rest)
  | ')' :: _ => none
  | rest => readFlags? [] true flags rest

/-- Reads what stands behind an opening parenthesis. -/
def readGroup? (flags : Flags) (t : Text) : Option (Opening × Text) :=
  match flags.skip t with
  | '?' :: rest => readSpecial? flags rest
  | rest => some (.group flags none, rest)

def largestCount : Nat := (1 <<< 32) - 1

/-- The digits at the front. -/
def readDigits (flags : Flags) : (fuel : Nat) → Text → Text × Text
  | fuel + 1, c :: rest =>
      if c.isDigit then
        let (digits, rest) := readDigits flags fuel (flags.skip rest)
        (c :: digits, rest)
      else ([], c :: rest)
  | _, t => ([], t)

def countOf? (digits : Text) : Option Nat :=
  let n := digits.foldl (fun n c => 10 * n + (c.toNat - 48)) 0
  if digits = [] ∨ largestCount < n then none else some n

/-- A decimal count with blanks around it. -/
def readCount? (flags : Flags) (t : Text) : Option (Nat × Text) := do
  let (digits, rest) := readDigits flags t.length (t.dropWhile Text.isBlank)
  let n ← countOf? digits
  some (n, rest.dropWhile Text.isBlank)

/-- The closing brace behind two counts, which have to be in their order. -/
def endCounts? (least most : Nat) : Text → Option (Option Nat × Text)
  | '\x7d' :: rest => if least ≤ most then some (some most, rest) else none
  | _ => none

/-- The greatest count, if there is one, behind the comma. -/
def readMost? (flags : Flags) (least : Nat) (t : Text) : Option (Option Nat × Text) :=
  match flags.skip t with
  | '\x7d' :: rest => some (none, rest)
  | t => do
      let (most, t) ← readCount? flags t
      endCounts? least most t

/-- The rest behind the least count. -/
def readBound? (flags : Flags) (least : Nat) : Text → Option ((Nat × Option Nat) × Text)
  | '\x7d' :: rest => some ((least, some least), rest)
  | ',' :: rest => (readMost? flags least rest).map fun (most, rest) => ((least, most), rest)
  | _ => none

/-- A count, a least count, or a least and a greatest one, behind the opening brace. -/
def readCounts? (flags : Flags) (t : Text) : Option ((Nat × Option Nat) × Text) := do
  let (least, t) ← readCount? flags (flags.skip t)
  readBound? flags least t

/-- A question mark behind a repetition changes what it prefers and not what it spans. -/
def dropPreference : Text → Text
  | '?' :: rest => rest
  | t => t

/-- A repetition behind a part: how often, and the text behind it. -/
def readRepetition? (flags : Flags) : Text → Option ((Nat × Option Nat) × Text)
  | '*' :: rest => some ((0, none), dropPreference rest)
  | '+' :: rest => some ((1, none), dropPreference rest)
  | '?' :: rest => some ((0, some 1), dropPreference rest)
  | '\x7b' :: rest =>
      (readCounts? flags rest).map fun (counts, rest) =>
        (counts, dropPreference (flags.skip rest))
  | _ => none

def isRepetition (c : Char) : Bool := c == '*' || c == '+' || c == '?' || c == '\x7b'

/-- A character that stands for itself. -/
def literal? (flags : Flags) (c : Char) : Option Regex :=
  if flags.ignoreCase && !flags.unicode && 128 ≤ c.toNat then none
  else some (.one (flags.fold (.char c)))

/-- A dot stands for any character but a line feed, unless the flags say otherwise. -/
def dot? (flags : Flags) : Option Regex :=
  if !flags.unicode then none
  else if flags.dotAll then some (.one (.property .any))
  else if flags.crlf then some (.one (.complement (.union (.char '\n') (.char '\r'))))
  else some (.one (.complement (.char '\n')))

def startOfLine (flags : Flags) : Assertion :=
  if !flags.multiLine then .textStart else if flags.crlf then .crlfStart else .lineStart

def endOfLine (flags : Flags) : Assertion :=
  if !flags.multiLine then .textEnd else if flags.crlf then .crlfEnd else .lineEnd

/-- An escape as a part of an expression. -/
def Escaped.part? (flags : Flags) : Escaped → Option Regex
  | .char c => literal? flags c
  | .byte => none
  | .chars k => some (.one k)
  | .assertion a => some (.assert a)

/-- A part that is neither a group nor a repetition. -/
def readPart? (flags : Flags) : Text → Option (Regex × Text)
  | [] => none
  | '[' :: rest => (readBracket? flags rest).map fun (k, rest) => (.one k, rest)
  | '\\' :: rest => do
      let (e, rest) ← readEscape? flags rest
      let r ← e.part? flags
      some (r, rest)
  | '.' :: rest => (dot? flags).map fun r => (r, rest)
  | '^' :: rest => some (.assert (startOfLine flags), rest)
  | '$' :: rest => some (.assert (endOfLine flags), rest)
  | c :: rest => (literal? flags c).map fun r => (r, rest)

/-- The parts of an alternative from the last to the first, put one after the other. A
setting of flags is no part. -/
def sequenceOf (parts : List (Option Regex)) : Regex :=
  (parts.filterMap id).foldl (fun later r => .sequence r later) .empty

def eitherOf (last : Regex) (earlier : List Regex) : Regex :=
  earlier.foldl (fun later r => .either r later) last

/-- The names of groups with one more, which may not be among them. -/
def addName? (names : List Text) : Option Text → Option (List Text)
  | none => some names
  | some name => if names.contains name then none else some (name :: names)

def closeGroup? : Text → Option (Unit × Text)
  | ')' :: rest => some ((), rest)
  | _ => none

/-- Reads alternatives up to a closing parenthesis or the end. `names` are the names of
groups so far, `earlier` the alternatives and `parts` the parts that have been read,
both from the last to the first. -/
def readAlternatives? : (fuel : Nat) → Flags → (names : List Text) → (earlier : List Regex) →
    (parts : List (Option Regex)) → Text → Option ((Regex × List Text) × Text)
  | 0, _, _, _, _, _ => none
  | fuel + 1, flags, names, earlier, parts, t =>
      match flags.skip t with
      | [] => some ((eitherOf (sequenceOf parts) earlier, names), [])
      | ')' :: rest => some ((eitherOf (sequenceOf parts) earlier, names), ')' :: rest)
      | '|' :: rest => readAlternatives? fuel flags names (sequenceOf parts :: earlier) [] rest
      | '(' :: rest => do
          let (opening, rest) ← readGroup? flags rest
          match opening with
          | .setting flags => readAlternatives? fuel flags names earlier (none :: parts) rest
          | .group inner name => do
              let names ← addName? names name
              let ((r, names), rest) ← readAlternatives? fuel inner names [] [] rest
              let ((), rest) ← closeGroup? rest
              readAlternatives? fuel flags names earlier (some r :: parts) rest
      | c :: rest =>
          if isRepetition c then
            match parts with
            | some r :: parts => do
                let ((least, most), rest) ← readRepetition? flags (c :: rest)
                readAlternatives? fuel flags names earlier
                  (some (.repeated least most r) :: parts) rest
            | _ => none
          else do
            let (r, rest) ← readPart? flags (c :: rest)
            readAlternatives? fuel flags names earlier (some r :: parts) rest

/-- The expression that a text writes, unless it is too large. -/
def ofText? (t : Text) : Option Regex := do
  let ((r, _), rest) ← readAlternatives? (t.length + 1) .standard [] [] [] t
  if rest = [] ∧ r.weight ≤ largestWeight then some r else none

/-- The text of an expression that has to account for a whole text. -/
def wholeText (expression : Text) : Text :=
  ['^', '(', '?', ':'] ++ expression ++ [')', '$']

/-- An expression that has to account for a whole text. -/
def ofWhole? (expression : Text) : Option Regex := ofText? (wholeText expression)

end FileSelect.Regex

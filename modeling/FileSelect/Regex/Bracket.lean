import FileSelect.Regex.Escape

/-!
# Classes in brackets

A class in brackets is a union of characters, ranges, escaped classes and further
classes in brackets. Between unions stand operations on sets, which are applied from
left to right.
-/

namespace FileSelect.Regex

inductive SetOperation
  | intersection
  | difference
  | symmetricDifference
deriving DecidableEq, Repr

def SetOperation.apply : SetOperation → CharClass → CharClass → CharClass
  | .intersection, a, b => .intersection a b
  | .difference, a, b => .difference a b
  | .symmetricDifference, a, b => .symmetricDifference a b

/-- An operation is written with its mark twice. -/
def readOperation? : Text → Option (SetOperation × Text)
  | '&' :: '&' :: rest => some (.intersection, rest)
  | '-' :: '-' :: rest => some (.difference, rest)
  | '~' :: '~' :: rest => some (.symmetricDifference, rest)
  | _ => none

/-- Joins the union that has been read with what stands to the left of it. -/
def applyPending (flags : Flags) (pending : Option (SetOperation × CharClass))
    (union : CharClass) : CharClass :=
  match pending with
  | none => union
  | some (operation, left) => operation.apply (flags.fold left) (flags.fold union)

/-- A class may hold an escaped character or class. -/
def Escaped.member? : Escaped → Option (Char ⊕ CharClass)
  | .char c => some (.inl c)
  | .chars k => some (.inr k)
  | _ => none

/-- A member of a class: a single character, which may begin a range, or a class. -/
def readMember? (flags : Flags) : Text → Option ((Char ⊕ CharClass) × Text)
  | '\\' :: rest => do
      let (e, rest) ← readEscape? flags rest
      let member ← e.member?
      some (member, rest)
  | c :: rest => some (.inl c, rest)
  | [] => none

/-- Without Unicode a class takes no characters beyond ASCII. -/
def singleChar? (flags : Flags) (c : Char) : Option CharClass :=
  if flags.unicode || c.toNat < 128 then some (.char c) else none

/-- Does a range follow? A hyphen in front of a closing bracket or of another hyphen does
not make one. -/
def rangeFollows? (flags : Flags) (t : Text) : Option Text :=
  match t with
  | '-' :: rest =>
      match flags.skip rest with
      | ']' :: _ => none
      | '-' :: _ => none
      | _ => some (flags.skip rest)
  | _ => none

/-- The class of a member that begins no range. -/
def single? (flags : Flags) : Char ⊕ CharClass → Option CharClass
  | .inl c => singleChar? flags c
  | .inr k => some k

/-- The range between two members, if they are characters in their order. -/
def range? (flags : Flags) : Char ⊕ CharClass → Char ⊕ CharClass → Option CharClass
  | .inl a, .inl b => do
      let _ ← singleChar? flags a
      let _ ← singleChar? flags b
      if a.toNat ≤ b.toNat then some (.range a.toNat b.toNat) else none
  | _, _ => none

/-- What stands behind a member: the end of its range, if it has one. -/
def readRange? (flags : Flags) (first : Char ⊕ CharClass) (t : Text) :
    Option (CharClass × Text) :=
  match rangeFollows? flags t with
  | none => (single? flags first).map fun k => (k, t)
  | some t => do
      let (last, t) ← readMember? flags t
      let k ← range? flags first last
      some (k, t)

/-- A member with the end of its range, if it has one. -/
def readItem? (flags : Flags) (t : Text) : Option (CharClass × Text) := do
  let (first, t) ← readMember? flags t
  readRange? flags first (flags.skip t)

/-- The name of a class between colons, with the bracket behind it. -/
def readPosixName? (flags : Flags) (negated : Bool) (t : Text) : Option (CharClass × Text) :=
  match Text.splitFirst? [':'] t with
  | some (name, ']' :: rest) =>
      (CharClass.posix? name).map fun k => (CharClass.negateIf negated (flags.fold k), rest)
  | _ => none

/-- A class between colons, behind its opening bracket. -/
def readPosix? (flags : Flags) : Text → Option (CharClass × Text)
  | ':' :: '^' :: rest => readPosixName? flags true rest
  | ':' :: rest => readPosixName? flags false rest
  | _ => none

/-- The hyphens at the front, and whether there are any. -/
def readHyphens (flags : Flags) : (fuel : Nat) → Text → Bool × Text
  | fuel + 1, '-' :: rest => (true, (readHyphens flags fuel (flags.skip rest)).2)
  | _, t => (false, t)

/-- A closing bracket that stands for itself. -/
def readFirstBracket (flags : Flags) : Text → CharClass × Text
  | ']' :: rest => (.char ']', flags.skip rest)
  | t => (.nothing, t)

/-- Hyphens or a closing bracket that stand for themselves. -/
def readStart (flags : Flags) (t : Text) : CharClass × Text :=
  let (found, rest) := readHyphens flags t.length t
  if found then (.char '-', rest) else readFirstBracket flags rest

def readNegation (flags : Flags) (t : Text) : Bool × Text :=
  match flags.skip t with
  | '^' :: rest => (true, flags.skip rest)
  | t => (false, t)

/-- What stands right behind an opening bracket: a negation, and what stands for itself
there only. -/
def readOpening (flags : Flags) (t : Text) : (Bool × CharClass) × Text :=
  let (negated, rest) := readNegation flags t
  let (start, rest) := readStart flags rest
  ((negated, start), rest)

/-- Reads the rest of a class. -/
def readClass? (flags : Flags) :
    (fuel : Nat) → (pending : Option (SetOperation × CharClass)) → (union : CharClass) →
      Text → Option (CharClass × Text)
  | 0, _, _, _ => none
  | fuel + 1, pending, union, t =>
      match flags.skip t with
      | [] => none
      | ']' :: rest => some (flags.fold (applyPending flags pending union), rest)
      | '[' :: rest =>
          match readPosix? flags rest with
          | some (k, rest) => readClass? flags fuel pending (.union union k) rest
          | none => do
              let ((negated, start), inside) := readOpening flags rest
              let (k, rest) ← readClass? flags fuel none start inside
              readClass? flags fuel pending (.union union (CharClass.negateIf negated k)) rest
      | t =>
          match readOperation? t with
          | some (operation, rest) =>
              readClass? flags fuel (some (operation, applyPending flags pending union)) .nothing
                rest
          | none => do
              let (k, rest) ← readItem? flags t
              readClass? flags fuel pending (.union union k) rest

/-- The class that has been read, negated if it is to be. Without Unicode it may not reach
beyond ASCII. -/
def bracketClass? (flags : Flags) (negated : Bool) (k : CharClass) : Option CharClass :=
  let k := CharClass.negateIf negated k
  if flags.unicode || !k.contains '\x80' then some k else none

/-- Reads a class behind its opening bracket. -/
def readBracket? (flags : Flags) (t : Text) : Option (CharClass × Text) := do
  let ((negated, start), inside) := readOpening flags t
  let (k, rest) ← readClass? flags (inside.length + 1) none start inside
  let k ← bracketClass? flags negated k
  some (k, rest)

end FileSelect.Regex

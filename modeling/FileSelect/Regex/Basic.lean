import FileSelect.Regex.CharClass

/-!
# Regular expressions

An expression spans a part of a text from one position to another. `Spans` says when,
and `Regex.reach` computes all positions that can be reached from a set of positions;
an expression is found in a text when it spans some part of it.
-/

namespace FileSelect

namespace Regex

/-- What an expression may demand of a position without taking a character. -/
inductive Assertion
  | textStart
  | textEnd
  | lineStart
  | lineEnd
  /-- Lines that end in a carriage return, a line feed, or both. -/
  | crlfStart
  | crlfEnd
  /-- `unicode` says which characters words are made of. -/
  | boundary (unicode : Bool)
  | noBoundary (unicode : Bool)
  | wordStart (unicode : Bool)
  | wordEnd (unicode : Bool)
  | noWordBefore (unicode : Bool)
  | noWordAfter (unicode : Bool)
deriving DecidableEq, Repr

end Regex

inductive Regex
  | empty
  | one (chars : Regex.CharClass)
  | assert (a : Regex.Assertion)
  | sequence (a b : Regex)
  | either (a b : Regex)
  /-- At least `least` times, and at most `most` times if that is given. -/
  | repeated (least : Nat) (most : Option Nat) (a : Regex)
deriving DecidableEq, Repr

namespace Regex

def isWordAt (unicode : Bool) (c : Option Char) : Bool :=
  match c with
  | some c => if unicode then Unicode.isWord c else c.isAlphanum || c == '_'
  | none => false

/-- Judges a position by the characters before and after it. -/
def Assertion.holdsBetween (a : Assertion) (before after : Option Char) : Bool :=
  match a with
  | .textStart => before.isNone
  | .textEnd => after.isNone
  | .lineStart => before.isNone || before == some '\n'
  | .lineEnd => after.isNone || after == some '\n'
  | .crlfStart => before.isNone || before == some '\n' ||
      (before == some '\r' && after != some '\n')
  | .crlfEnd => after.isNone || after == some '\r' ||
      (after == some '\n' && before != some '\r')
  | .boundary u => isWordAt u before != isWordAt u after
  | .noBoundary u => isWordAt u before == isWordAt u after
  | .wordStart u => !isWordAt u before && isWordAt u after
  | .wordEnd u => isWordAt u before && !isWordAt u after
  | .noWordBefore u => !isWordAt u before
  | .noWordAfter u => !isWordAt u after

def Assertion.holdsAt (a : Assertion) (text : Text) (position : Nat) : Bool :=
  a.holdsBetween (if position = 0 then none else text[position - 1]?) text[position]?

/-- `Spans text r i j` says that `r` accounts for the text from position `i` to `j`. -/
inductive Spans (text : Text) : Regex → Nat → Nat → Prop
  | empty {i : Nat} : Spans text .empty i i
  | one {chars : CharClass} {i : Nat} {c : Char} :
      text[i]? = some c → chars.contains c = true → Spans text (.one chars) i (i + 1)
  | assert {a : Assertion} {i : Nat} : a.holdsAt text i = true → Spans text (.assert a) i i
  | sequence {a b : Regex} {i j k : Nat} :
      Spans text a i j → Spans text b j k → Spans text (.sequence a b) i k
  | left {a b : Regex} {i j : Nat} : Spans text a i j → Spans text (.either a b) i j
  | right {a b : Regex} {i j : Nat} : Spans text b i j → Spans text (.either a b) i j
  | none {a : Regex} {most : Option Nat} {i : Nat} : Spans text (.repeated 0 most a) i i
  /-- One of the repetitions that have to be there. -/
  | first {a : Regex} {least : Nat} {most : Option Nat} {i j k : Nat} :
      most ≠ some 0 → Spans text a i j →
      Spans text (.repeated least (most.map (· - 1)) a) j k →
      Spans text (.repeated (least + 1) most a) i k
  /-- One of the repetitions that may be there. -/
  | more {a : Regex} {most : Option Nat} {i j k : Nat} :
      most ≠ some 0 → Spans text a i j →
      Spans text (.repeated 0 (most.map (· - 1)) a) j k →
      Spans text (.repeated 0 most a) i k

/-- The positions of the first list, and those of the second that are not among them. -/
def mergePositions (a b : List Nat) : List Nat := a ++ b.filter fun i => !a.contains i

/-- The positions that `n` rounds of `f` lead to. It stops when a round changes nothing. -/
def iterate (f : List Nat → List Nat) : Nat → List Nat → List Nat
  | 0, positions => positions
  | n + 1, positions =>
      let next := f positions
      if next = positions then positions else iterate f n next

/-- The positions that at most `n` rounds of `f` lead to. It stops when a round leads to
no new ones. -/
def iterateUpTo (f : List Nat → List Nat) : Nat → List Nat → List Nat
  | 0, positions => positions
  | n + 1, positions =>
      let next := mergePositions positions (f positions)
      if next.length = positions.length then positions else iterateUpTo f n next

/-- The positions that the expression can end at when it starts at one of `positions`. No
more rounds of a repetition are needed than the text has positions. -/
def reach (text : Text) : Regex → List Nat → List Nat
  | .empty, positions => positions
  | .one chars, positions =>
      positions.filterMap fun i =>
        match text[i]? with
        | some c => if chars.contains c then some (i + 1) else none
        | none => none
  | .assert a, positions => positions.filter fun i => a.holdsAt text i
  | .sequence a b, positions => reach text b (reach text a positions)
  | .either a b, positions => mergePositions (reach text a positions) (reach text b positions)
  | .repeated least most a, positions =>
      let rounds := match most with
        | some most => most - least
        | none => text.length + 1
      iterateUpTo (reach text a) rounds (iterate (reach text a) least positions)

/-- Does the expression span some part of the text? -/
def isFoundIn (r : Regex) (text : Text) : Bool :=
  !(reach text r (List.range (text.length + 1))).isEmpty

end Regex

end FileSelect

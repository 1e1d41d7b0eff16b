import FileSelect.Regex.Basic

/-!
# Weights of expressions

An expression is refused when it takes too much memory with all its repetitions written
out. The weight is an estimate of that memory in bytes. It counts states for the
characters and, for a class, the runs of neighbouring characters that it consists of.
-/

namespace FileSelect.Unicode

/-- About how many runs of neighbouring characters have the property. -/
def Property.runCount : Property → Nat
  | .any => 1
  | .ascii => 1
  | .whiteSpace => 10
  | .category codes => (categories.toList.countP fun run => codes.contains run.2)
  | .script code => (scripts.toList.countP fun run => run.2 == code)
  | _ => 760

end FileSelect.Unicode

namespace FileSelect.Regex

namespace CharClass

def runCount : CharClass → Nat
  | .nothing => 0
  | .range _ _ => 1
  | .property p => p.runCount
  | .union a b => a.runCount + b.runCount
  | .intersection a b => max a.runCount b.runCount
  | .complement a => a.runCount + 1
  | .folded a => a.runCount + 1
  | .asciiFolded a => a.runCount + 1

/-- Is every character of the class certain to be one of ASCII? -/
def isAscii : CharClass → Bool
  | .nothing => true
  | .range _ last => last < 128
  | .property p => p == .ascii
  | .union a b => a.isAscii && b.isAscii
  | .intersection a b => a.isAscii || b.isAscii
  | .complement _ => false
  | .folded a => a.isAscii
  | .asciiFolded a => a.isAscii

/-- A single character takes a state for each of its bytes. -/
def weight : CharClass → Nat
  | .range first last =>
      if first = last then 32 * (Char.ofNat first).utf8Size
      else if last < 128 then 40
      else 316
  | k => if k.isAscii then 32 + 8 * k.runCount else 256 + 60 * k.runCount

end CharClass

/-- Is there anything in the expression that takes a character? -/
def takesCharacters : Regex → Bool
  | .empty => false
  | .one _ => true
  | .assert _ => false
  | .sequence a b => a.takesCharacters || b.takesCharacters
  | .either a b => a.takesCharacters || b.takesCharacters
  | .repeated _ most a => most != some 0 && a.takesCharacters

/-- A repetition counts as often as it is written out. One that takes no characters is
not written out more than once. -/
def weight : Regex → Nat
  | .empty => 0
  | .one chars => chars.weight
  | .assert _ => 32
  | .sequence a b => a.weight + b.weight
  | .either a b => a.weight + b.weight + 32
  | .repeated least most a =>
      if most = some 0 then 0
      else if a.takesCharacters then a.weight * max 1 (most.getD least)
      else a.weight

/-- Ten mebibytes. -/
def largestWeight : Nat := 10 * 1024 * 1024

/-- What is said of an expression that is too large. -/
def tooLarge : Text := s!"Compiled regex exceeds size limit of {largestWeight} bytes."

end FileSelect.Regex

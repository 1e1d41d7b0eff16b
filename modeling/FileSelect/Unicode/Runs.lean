import FileSelect.Text.Basic

/-!
# Tables of runs

A table of character properties is written as words, one for each run of neighbouring
characters. Numbers with hexadecimal digits say where a run begins, decimal ones how
long it is.
-/

namespace FileSelect.Unicode

def wordsOf (lines : List String) : List Text :=
  lines.flatMap fun line => Text.split ' ' line.toList

def hexNumber (digits : Text) : Nat :=
  digits.foldl (fun n c => 16 * n + (if c.isDigit then c.toNat - 48 else c.toNat - 55)) 0

def decimalNumber (digits : Text) : Nat :=
  digits.foldl (fun n c => 10 * n + (c.toNat - 48)) 0

/-- Reads runs that cover all characters, each a label and a length. The result holds the
first character of each run. -/
def labelledRuns (lines : List String) : Array (Nat × Text) :=
  let step := fun (read : Array (Nat × Text) × Nat) (word : Text) =>
    let (runs, first) := read
    (runs.push (first, word.takeWhile Char.isAlpha),
      first + decimalNumber (word.dropWhile Char.isAlpha))
  ((wordsOf lines).foldl step (#[], 0)).1

/-- Reads runs of the form `first+length`. -/
def plainRuns (lines : List String) : List (Nat × Nat) :=
  (wordsOf lines).filterMap fun word =>
    (Text.splitFirst? ['+'] word).map fun (first, count) => (hexNumber first, decimalNumber count)

def inRuns (runs : List (Nat × Nat)) (n : Nat) : Bool :=
  runs.any fun (first, count) => first ≤ n && n < first + count

/-- Halves the range from `low` to below `high` until one index is left, the last one whose
run begins at or before `n`. -/
def bisect {α : Type} (runs : Array (Nat × α)) (n : Nat) : (fuel low high : Nat) → Nat
  | 0, low, _ => low
  | fuel + 1, low, high =>
      if high ≤ low + 1 then low
      else
        let middle := (low + high) / 2
        if ((runs[middle]?).map Prod.fst).getD 0 ≤ n then bisect runs n fuel middle high
        else bisect runs n fuel low middle

def runAt? {α : Type} (runs : Array (Nat × α)) (n : Nat) : Option (Nat × α) :=
  runs[bisect runs n runs.size 0 runs.size]?

end FileSelect.Unicode

import FileSelect.Proofs.Glob.Layout
import FileSelect.Proofs.Regex.Whole

/-!
# Wildcards written as expressions

A wildcard can be written as a regular expression between two anchors: a star becomes a
repeated class of all characters but the slash, a question mark becomes the class, and any
other character is escaped where it would mean something. Whatever the characters are, what is
read from the written text accounts for the names that the wildcard accepts.
-/

namespace FileSelect.Wildcard

open Regex (Spans Steps)

/-- All characters but the slash. -/
def noSlash : Regex := .one (.complement (.union .nothing (.char '/')))

def part (w : Char) : Regex :=
  if w = '*' then .repeated 0 none noSlash else if w = '?' then noSlash else .one (.char w)

/-- The parts for the characters of a wildcard, up to the end of the text. -/
def untilEnd (source : Text) : Regex :=
  source.foldr (fun w later => .sequence (part w) later) (.sequence (.assert .textEnd) .empty)

/-- The expression for a wildcard. -/
def expression (source : Text) : Regex := .sequence (.assert .textStart) (untilEnd source)

/-! ## Reading what is written -/

section Reading

variable {n : Nat} {names : List Text} {earlier : List Regex} {parts : List (Option Regex)}
  {w : Char} {source t : Text}

theorem readAlternatives?_noSlash :
    Regex.readAlternatives? (n + 1) .standard names earlier parts ('[' :: '^' :: '/' :: ']' :: t) =
      Regex.readAlternatives? n .standard names earlier (some noSlash :: parts) t := rfl

/-- No question mark stands at the front of what is written, so that a repetition in front of
it keeps its meaning. -/
theorem dropPreference_written (source : Text) :
    Regex.dropPreference (source.flatMap charText ++ ['$']) = source.flatMap charText ++ ['$'] := by
  cases source with
  | nil => rfl
  | cons w source =>
      by_cases star : w = '*'
      · subst star
        rfl
      · by_cases any : w = '?'
        · subst any
          rfl
        · rw [List.flatMap_cons, charText, if_neg star, if_neg any, escape]
          split
          · rfl
          · rw [List.singleton_append, List.cons_append, Regex.dropPreference]
            exact fun t same => any (List.cons.inj same).1

/-- An escaped character is read as itself. -/
theorem readAlternatives?_escape (single : w ≠ '*') (other : w ≠ '?') :
    Regex.readAlternatives? (n + 1) .standard names earlier parts (escape w ++ t) =
      Regex.readAlternatives? n .standard names earlier (some (.one (.char w)) :: parts) t := by
  rw [escape]
  split
  case isTrue meaning =>
    simp only [metaChars, List.mem_cons, List.not_mem_nil, or_false] at meaning
    rcases meaning with rfl | rfl | rfl | rfl | rfl | rfl | rfl | rfl | rfl | rfl | rfl | rfl |
      rfl | rfl | rfl | rfl | rfl | rfl <;> rfl
  case isFalse plain =>
    simp only [metaChars, List.mem_cons, List.not_mem_nil, or_false, not_or] at plain
    have read : Regex.readPart? .standard (w :: t) = some (.one (.char w), t) :=
      Regex.readPart?_literal (by simp [plain]) (by simp [plain]) (by simp [plain])
        (by simp [plain]) (by simp [plain]) t
    rw [List.singleton_append, Regex.readAlternatives?_part rfl (by simp [Regex.IsMark, plain])
      (by simp [Regex.isRepetition_iff, plain]), read]
    rfl

/-- What is written for one character is read as its part. -/
theorem exists_readAlternatives?_charText (names : List Text) (earlier : List Regex)
    (parts : List (Option Regex)) (w : Char) (same : Regex.dropPreference t = t) :
    ∃ rounds ≤ (charText w).length, ∀ n,
      Regex.readAlternatives? (n + rounds) .standard names earlier parts (charText w ++ t) =
        Regex.readAlternatives? n .standard names earlier (some (part w) :: parts) t := by
  by_cases star : w = '*'
  · subst star
    refine ⟨2, by decide, fun n => ?_⟩
    have again : Regex.readAlternatives? (n + 1) .standard names earlier (some noSlash :: parts)
        ('*' :: t) = Regex.readAlternatives? n .standard names earlier
          (some (.repeated 0 none noSlash) :: parts) (Regex.dropPreference t) := rfl
    rw [same] at again
    exact readAlternatives?_noSlash.trans again
  · by_cases any : w = '?'
    · subst any
      exact ⟨1, by decide, fun n => readAlternatives?_noSlash⟩
    · have written : charText w = escape w := by rw [charText, if_neg star, if_neg any]
      have read : part w = .one (.char w) := by rw [part, if_neg star, if_neg any]
      have long : 1 ≤ (escape w).length := by
        rw [escape]
        split
        · exact Nat.le_succ 1
        · exact Nat.le_refl 1
      rw [written, read]
      exact ⟨1, long, fun n => readAlternatives?_escape star any⟩

/-- The parts of an alternative, the first one last. -/
theorem sequenceOf_parts (source : Text) (parts : List (Option Regex)) :
    Regex.sequenceOf (some (.assert .textEnd) :: ((source.map (some ∘ part)).reverse ++ parts)) =
      (parts.filterMap id).foldl (fun later r => .sequence r later) (untilEnd source) := by
  simp [Regex.sequenceOf, untilEnd, List.filterMap_append, List.foldl_append, List.foldr_map]

/-- What is written for a wildcard is read as its parts. -/
theorem exists_readAlternatives?_written (names : List Text) (earlier : List Regex)
    (source : Text) (parts : List (Option Regex)) :
    ∃ rounds ≤ (source.flatMap charText).length + 2, ∀ n,
      Regex.readAlternatives? (n + rounds) .standard names earlier parts
          (source.flatMap charText ++ ['$']) =
        some ((Regex.eitherOf (Regex.sequenceOf (some (.assert .textEnd) ::
          ((source.map (some ∘ part)).reverse ++ parts))) earlier, names), []) := by
  induction source generalizing parts with
  | nil => exact ⟨2, Nat.le_refl 2, fun n => rfl⟩
  | cons w source ih =>
      obtain ⟨first, short, read⟩ := exists_readAlternatives?_charText names earlier parts w
        (dropPreference_written source)
      obtain ⟨later, few, readLater⟩ := ih (some (part w) :: parts)
      refine ⟨later + first, ?_, fun n => ?_⟩
      · rw [List.flatMap_cons, List.length_append]
        omega
      · rw [List.flatMap_cons, List.append_assoc, ← Nat.add_assoc, read, readLater]
        simp

end Reading

/-- The text for a wildcard is valid and is read as the expression for it, if there is room
for that. -/
theorem ofText?_expressionText (source : Text) : Regex.ofText? (expressionText source) =
    if (expression source).weight ≤ Regex.largestWeight then some (expression source)
    else none := by
  obtain ⟨rounds, few, read⟩ := exists_readAlternatives?_written [] [] source
    [some (.assert .textStart)]
  have length : (expressionText source).length + 1 =
      ((source.flatMap charText).length + 2 - rounds) + rounds + 1 := by
    rw [expressionText, List.length_cons, List.length_append, List.length_singleton]
    omega
  have start : Regex.readAlternatives? ((expressionText source).length + 1) .standard [] [] []
      (expressionText source) = some ((expression source, []), []) := by
    rw [length]
    exact (read _).trans (by rw [sequenceOf_parts]; rfl)
  rw [Regex.ofText?, start]
  simp

/-! ## What the expression spans -/

section Spanning

variable {front rest source : Text} {w : Char} {k : Regex.CharClass} {n i j : Nat}

theorem contains_char_iff {c : Char} : (Regex.CharClass.char w).contains c = true ↔ c = w := by
  rw [Regex.CharClass.char, Regex.CharClass.contains, Bool.and_eq_true, decide_eq_true_eq,
    decide_eq_true_eq, ← Char.toNat_inj]
  omega

theorem contains_noSlash_iff {c : Char} :
    (Regex.CharClass.complement (.union .nothing (.char '/'))).contains c = true ↔ c ≠ '/' := by
  rw [Regex.CharClass.contains, Regex.CharClass.contains, Regex.CharClass.contains,
    Bool.false_or, Bool.not_eq_true', ← Bool.not_eq_true, contains_char_iff]

/-- A class spans the first character of what is left. -/
theorem spans_one_iff : Spans (front ++ rest) (.one k) front.length j ↔
    ∃ c later, rest = c :: later ∧ k.contains c = true ∧ j = front.length + 1 := by
  constructor
  · intro span
    cases span with
    | one found contains =>
        rw [List.getElem?_append_right (Nat.le_refl _), Nat.sub_self] at found
        cases rest with
        | nil => cases found
        | cons c later =>
            cases found
            exact ⟨_, later, rfl, contains, rfl⟩
  · rintro ⟨c, later, rfl, contains, rfl⟩
    exact .one (by simp) contains

theorem spans_sequence_iff {name : Text} {a b : Regex} : Spans name (.sequence a b) i j ↔
    ∃ middle, Spans name a i middle ∧ Spans name b middle j := by
  constructor
  · intro span
    cases span with
    | sequence first second => exact ⟨_, first, second⟩
  · rintro ⟨_, first, second⟩
    exact .sequence first second

/-- Steps over other characters than the slash lead over a piece without slashes. -/
theorem steps_noSlash_iff : Steps (front ++ rest) noSlash n front.length j ↔
    ∃ piece later, rest = piece ++ later ∧ '/' ∉ piece ∧ piece.length = n ∧
      j = front.length + n := by
  induction n generalizing front rest with
  | zero =>
      constructor
      · intro steps
        cases steps with
        | zero => exact ⟨[], rest, rfl, List.not_mem_nil, rfl, rfl⟩
      · rintro ⟨piece, later, _, _, _, rfl⟩
        exact .zero
  | succ n ih =>
      constructor
      · intro steps
        cases steps with
        | succ step steps =>
            obtain ⟨c, later, rfl, contains, rfl⟩ := spans_one_iff.mp step
            have onward := @ih (front ++ [c]) later
            rw [List.append_assoc, List.singleton_append, List.length_append,
              List.length_singleton] at onward
            obtain ⟨piece, later, rfl, free, long, rfl⟩ := onward.mp steps
            refine ⟨c :: piece, later, rfl, ?_, congrArg (· + 1) long, by omega⟩
            exact List.not_mem_cons_of_ne_of_not_mem (contains_noSlash_iff.mp contains).symm free
      · rintro ⟨piece, later, rfl, free, long, rfl⟩
        cases piece with
        | nil => cases long
        | cons c piece =>
            have onward := @ih (front ++ [c]) (piece ++ later)
            rw [List.append_assoc, List.singleton_append, List.length_append,
              List.length_singleton] at onward
            refine .succ (spans_one_iff.mpr ⟨c, piece ++ later, rfl, ?_, rfl⟩) (onward.mpr
              ⟨piece, later, rfl, List.not_mem_of_not_mem_cons free, Nat.succ.inj long, by omega⟩)
            exact contains_noSlash_iff.mpr (List.ne_of_not_mem_cons free).symm

/-- A part that is not repeated spans one character. -/
theorem spans_part_iff (single : w ≠ '*') : Spans (front ++ rest) (part w) front.length j ↔
    ∃ c later, rest = c :: later ∧ (if w = '?' then c ≠ '/' else c = w) ∧
      j = front.length + 1 := by
  rw [part, if_neg single]
  split
  · simp only [noSlash, spans_one_iff, contains_noSlash_iff]
  · simp only [spans_one_iff, contains_char_iff]

/-- The parts up to the end of the text span what is left if the wildcard can be laid out
along it. -/
theorem spans_untilEnd_iff : Spans (front ++ rest) (untilEnd source) front.length j ↔
    j = (front ++ rest).length ∧ Matches source rest := by
  induction source generalizing front rest j with
  | nil =>
      rw [matches_nil_iff, untilEnd, List.foldr_nil, spans_sequence_iff]
      constructor
      · rintro ⟨middle, finish, empty⟩
        cases empty
        cases finish with
        | assert finish =>
            have reached := Regex.holdsAt_textEnd_iff.mp finish
            rw [List.length_append] at reached
            have none_left : rest = [] := List.eq_nil_of_length_eq_zero (by omega)
            rw [none_left, List.append_nil]
            exact ⟨rfl, rfl⟩
      · rintro ⟨rfl, rfl⟩
        rw [List.append_nil]
        exact ⟨_, .assert (Regex.holdsAt_textEnd_iff.mpr (Nat.le_refl _)), .empty⟩
  | cons w source ih =>
      rw [untilEnd, List.foldr_cons, ← untilEnd, spans_sequence_iff]
      by_cases star : w = '*'
      · subst star
        rw [matches_star_iff]
        constructor
        · rintro ⟨middle, repeated, span⟩
          obtain ⟨n, _, _, steps⟩ := Regex.spans_repeated_iff.mp repeated
          obtain ⟨piece, later, rfl, free, rfl, rfl⟩ := steps_noSlash_iff.mp steps
          rw [← List.append_assoc, ← List.length_append, ih] at span
          rw [← List.append_assoc]
          exact ⟨span.1, piece, later, rfl, free, span.2⟩
        · rintro ⟨rfl, piece, later, rfl, free, layout⟩
          refine ⟨front.length + piece.length, Regex.spans_repeated_iff.mpr ⟨piece.length,
            Nat.zero_le _, nofun, steps_noSlash_iff.mpr ⟨piece, later, rfl, free, rfl, rfl⟩⟩, ?_⟩
          rw [← List.append_assoc, ← List.length_append, ih]
          exact ⟨rfl, layout⟩
      · rw [matches_single_iff star]
        have onward (c : Char) (later : Text) :
            Spans (front ++ c :: later) (untilEnd source) (front.length + 1) j ↔
              j = (front ++ c :: later).length ∧ Matches source later := by
          have shifted := @ih (front ++ [c]) later j
          rwa [List.append_assoc, List.singleton_append, List.length_append,
            List.length_singleton] at shifted
        simp only [spans_part_iff star]
        constructor
        · rintro ⟨_, ⟨c, later, rfl, taken, rfl⟩, span⟩
          obtain ⟨ends, layout⟩ := (onward c later).mp span
          exact ⟨ends, c, later, rfl, taken, layout⟩
        · rintro ⟨ends, c, later, rfl, taken, layout⟩
          exact ⟨_, ⟨c, later, rfl, taken, rfl⟩, (onward c later).mpr ⟨ends, layout⟩⟩

theorem countsOrdered_expression (source : Text) : (expression source).CountsOrdered := by
  refine ⟨trivial, ?_⟩
  induction source with
  | nil => exact ⟨trivial, trivial⟩
  | cons w source ih =>
      refine ⟨?_, ih⟩
      rw [part]
      split
      · exact ⟨nofun, trivial⟩
      · split <;> trivial

/-- The expression for a wildcard is found in the names along which the wildcard can be laid
out. -/
theorem isFoundIn_expression_iff {name : Text} :
    (expression source).isFoundIn name = true ↔ Matches source name := by
  rw [Regex.isFoundIn_iff (countsOrdered_expression source)]
  constructor
  · rintro ⟨i, j, within, span⟩
    obtain ⟨middle, start, span⟩ := spans_sequence_iff.mp span
    cases start with
    | assert start =>
        obtain rfl := (Regex.holdsAt_textStart_iff within).mp start
        exact ((@spans_untilEnd_iff [] name source j).mp span).2
  · intro layout
    exact ⟨0, name.length, Nat.zero_le _, .sequence
      (.assert ((Regex.holdsAt_textStart_iff (Nat.zero_le _)).mpr rfl))
      ((@spans_untilEnd_iff [] name source _).mpr ⟨rfl, layout⟩)⟩

end Spanning

/-- A wildcard accepts the names that can be cut into pieces for its characters. So does the
expression that its text is read as, which there is unless it takes too much memory. -/
theorem accepts_iff_laidOut (source name : Text) :
    ((⟨source⟩ : Wildcard).accepts name = true ↔ LaidOut Takes source name) ∧
      (expression source).isFoundIn name = (⟨source⟩ : Wildcard).accepts name ∧
      Regex.ofText? (expressionText source) =
        if (expression source).weight ≤ Regex.largestWeight then some (expression source)
        else none := by
  refine ⟨(accepts_iff_matches ⟨source⟩ name).trans matches_iff_laidOut, ?_,
    ofText?_expressionText source⟩
  rw [Bool.eq_iff_iff, isFoundIn_expression_iff, accepts_iff_matches]

end FileSelect.Wildcard

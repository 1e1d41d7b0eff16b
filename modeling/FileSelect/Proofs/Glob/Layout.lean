import FileSelect.Proofs.Glob.Directory
import Mathlib.Data.List.Forall2

/-!
# Layouts as cuts

To lay tokens out along a path, or the characters of a wildcard along a name, is to cut the
path or the name into pieces, one for each of them, of which each is a piece that it takes.
Every directory matcher decides whether there is such a cut of a path into pieces for the
tokens of its text, whatever form it has.
-/

namespace FileSelect

section Cuts

variable {α β : Type} {takes : α → List β → Prop} {a : α} {as : List α} {whole : List β}

/-- The list can be cut into pieces such that each of `as`, in their order, takes one. -/
def LaidOut (takes : α → List β → Prop) (as : List α) (whole : List β) : Prop :=
  ∃ pieces : List (List β), pieces.flatten = whole ∧ List.Forall₂ takes as pieces

theorem laidOut_nil_iff : LaidOut takes [] whole ↔ whole = [] := by
  constructor
  · rintro ⟨pieces, rfl, each⟩
    rw [List.forall₂_nil_left_iff.mp each, List.flatten_nil]
  · rintro rfl
    exact ⟨[], rfl, .nil⟩

/-- The first piece is in front of a cut of the rest. -/
theorem laidOut_cons_iff : LaidOut takes (a :: as) whole ↔
    ∃ piece rest, whole = piece ++ rest ∧ takes a piece ∧ LaidOut takes as rest := by
  constructor
  · rintro ⟨pieces, rfl, each⟩
    obtain ⟨piece, later, taken, others, rfl⟩ := List.forall₂_cons_left_iff.mp each
    exact ⟨piece, later.flatten, List.flatten_cons, taken, later, rfl, others⟩
  · rintro ⟨piece, rest, rfl, taken, later, rfl, each⟩
    exact ⟨piece :: later, List.flatten_cons, .cons taken each⟩

end Cuts

/-! ## Tokens -/

/-- A single token takes one segment that it accepts, and `**` any number of segments. -/
def Token.Takes : Token → List Text → Prop
  | .recursive, _ => True
  | token, piece => ∃ segment, piece = [segment] ∧ token.accepts segment = true

theorem Token.takes_iff {token : Token} (single : token.isRecursive = false) {piece : List Text} :
    token.Takes piece ↔ ∃ segment, piece = [segment] ∧ token.accepts segment = true := by
  cases token with
  | literal name => rfl
  | wildcard w => rfl
  | recursive => cases single

theorem Tokens.matches_iff_laidOut {tokens : List Token} {path : List Text} :
    Matches tokens path ↔ LaidOut Token.Takes tokens path := by
  induction tokens generalizing path with
  | nil => rw [matches_nil_iff, laidOut_nil_iff]
  | cons token tokens ih =>
      rw [laidOut_cons_iff]
      cases single : token.isRecursive with
      | false =>
          simp only [matches_single_iff single, Token.takes_iff single, ih]
          constructor
          · rintro ⟨segment, rest, rfl, accepted, later⟩
            exact ⟨[segment], rest, rfl, ⟨segment, rfl, accepted⟩, later⟩
          · rintro ⟨_, rest, rfl, ⟨segment, rfl, accepted⟩, later⟩
            exact ⟨segment, rest, rfl, accepted, later⟩
      | true =>
          rw [Token.eq_recursive single]
          simp only [matches_recursive_iff, Token.Takes, true_and, ih]

/-- Whatever form the matcher of a directory text has, it accepts the paths along which the
tokens of the text can be laid out. -/
theorem DirectoryMatcher.acceptsInside_iff_laidOut (directory path : Text) :
    (ofText? (some directory)).acceptsInside (segments path) = true ↔
      LaidOut Token.Takes ((segments directory).map Token.ofSegment) (segments path) := by
  rw [ofText?, acceptsInside_iff_matches, toTokens_ofSegments, Tokens.matches_iff_laidOut]

/-! ## Wildcards -/

namespace Wildcard

variable {w : Char} {source name : Text}

/-- The pieces of a name that a character of a wildcard stands for. -/
def Takes (w : Char) (piece : Text) : Prop :=
  if w = '*' then '/' ∉ piece
  else if w = '?' then ∃ c, c ≠ '/' ∧ piece = [c]
  else piece = [w]

theorem takes_star {piece : Text} : Takes '*' piece ↔ '/' ∉ piece := by rw [Takes, if_pos rfl]

/-- A star stands for what is in front of a name, up to a slash. -/
theorem matches_star_iff : Matches ('*' :: source) name ↔
    ∃ piece rest, name = piece ++ rest ∧ '/' ∉ piece ∧ Matches source rest := by
  induction name with
  | nil =>
      rw [matches_cons_nil_iff]
      constructor
      · exact fun h => ⟨[], [], rfl, List.not_mem_nil, h.2⟩
      · rintro ⟨piece, rest, whole, _, later⟩
        rw [(List.append_eq_nil_iff.mp whole.symm).2] at later
        exact ⟨rfl, later⟩
  | cons c name ih =>
      rw [matches_star_cons_iff, ih]
      constructor
      · rintro (later | ⟨letter, piece, rest, rfl, free, later⟩)
        · exact ⟨[], c :: name, rfl, List.not_mem_nil, later⟩
        · exact ⟨c :: piece, rest, rfl, List.not_mem_cons_of_ne_of_not_mem letter.symm free, later⟩
      · rintro ⟨piece, rest, whole, free, later⟩
        cases piece with
        | nil => exact .inl (whole ▸ later)
        | cons d piece =>
            obtain ⟨rfl, rfl⟩ := List.cons.inj whole
            exact .inr ⟨(List.ne_of_not_mem_cons free).symm, piece, rest, rfl,
              List.not_mem_of_not_mem_cons free, later⟩

theorem takes_single {piece : Text} (single : w ≠ '*') :
    Takes w piece ↔ ∃ c, (if w = '?' then c ≠ '/' else c = w) ∧ piece = [c] := by
  rw [Takes, if_neg single]
  split <;> simp

/-- Any other character stands for one character. -/
theorem matches_single_iff (single : w ≠ '*') : Matches (w :: source) name ↔
    ∃ c rest, name = c :: rest ∧ (if w = '?' then c ≠ '/' else c = w) ∧ Matches source rest := by
  cases name with
  | nil => simp [matches_cons_nil_iff, single]
  | cons c name =>
      by_cases any : w = '?'
      · subst any
        simp [matches_any_cons_iff]
      · simp [matches_letter_cons_iff single any, any]

theorem matches_nil_iff : Matches [] name ↔ name = [] :=
  matches_iff_eq rfl name

theorem matches_iff_laidOut : Matches source name ↔ LaidOut Takes source name := by
  induction source generalizing name with
  | nil => rw [matches_nil_iff, laidOut_nil_iff]
  | cons w source ih =>
      rw [laidOut_cons_iff]
      by_cases star : w = '*'
      · subst star
        simp only [matches_star_iff, takes_star, ih]
      · simp only [matches_single_iff star, takes_single star, ih]
        constructor
        · rintro ⟨c, rest, rfl, taken, later⟩
          exact ⟨[c], rest, rfl, ⟨c, taken, rfl⟩, later⟩
        · rintro ⟨_, rest, rfl, ⟨c, taken, rfl⟩, later⟩
          exact ⟨c, rest, rfl, taken, later⟩

end Wildcard

end FileSelect

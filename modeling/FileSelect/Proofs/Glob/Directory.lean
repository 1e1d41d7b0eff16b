import FileSelect.Glob.Directory
import FileSelect.Proofs.Glob.Token

/-!
# Directory matchers as lists of tokens

Every directory matcher answers both of its questions as a list of tokens would. The
special forms save work and change no answer, so what holds of token lists holds of
every matcher.
-/

namespace FileSelect.DirectoryMatcher

/-- The tokens that answer as the matcher does. -/
def toTokens : DirectoryMatcher → List Token
  | .rootOnly => []
  | .anyDepth => [.recursive]
  | .exactPath names => names.map .literal
  | .singleWildcard w => [.wildcard w]
  | .tokens ts => ts

theorem acceptSuffix_isEmpty (path : List Text) : Tokens.acceptSuffix List.isEmpty path = true :=
  Tokens.acceptSuffix_iff.mpr ⟨path, [], (List.append_nil path).symm, rfl⟩

theorem accept_literals (names path : List Text) :
    Tokens.accept (names.map .literal) path = (names == path) := by
  induction names generalizing path with
  | nil => cases path <;> rfl
  | cons name names ih =>
      cases path with
      | nil => rfl
      | cons first path =>
          rw [List.map_cons, Tokens.accept, ih]
          · rfl
          · intro impossible
            cases impossible

theorem acceptStart_literals (names path : List Text) :
    Tokens.acceptStart (names.map .literal) path = path.isPrefixOf names := by
  induction names generalizing path with
  | nil => cases path <;> rfl
  | cons name names ih =>
      cases path with
      | nil => rfl
      | cons first path =>
          rw [List.map_cons, Tokens.acceptStart, ih, Token.accepts, List.isPrefixOf_cons_cons,
            Bool.beq_comm]
          intro impossible
          cases impossible

theorem acceptsInside_eq_accept (m : DirectoryMatcher) (path : List Text) :
    m.acceptsInside path = Tokens.accept m.toTokens path := by
  cases m with
  | rootOnly => rfl
  | anyDepth => exact (acceptSuffix_isEmpty path).symm
  | exactPath names => exact (accept_literals names path).symm
  | singleWildcard w =>
      match path with
      | [] => rfl
      | [only] => exact (Bool.and_true _).symm
      | first :: second :: rest => exact (Bool.and_false _).symm
  | tokens ts => rfl

theorem acceptsBelow_eq_acceptStart (m : DirectoryMatcher) (path : List Text) :
    m.acceptsBelow path = Tokens.acceptStart m.toTokens path := by
  cases m with
  | rootOnly => cases path <;> rfl
  | anyDepth => cases path <;> rfl
  | exactPath names => exact (acceptStart_literals names path).symm
  | singleWildcard w =>
      match path with
      | [] => rfl
      | [only] => exact (Bool.and_true _).symm
      | first :: second :: rest => exact (Bool.and_false _).symm
  | tokens ts => rfl

theorem acceptsInside_iff_matches (m : DirectoryMatcher) (path : List Text) :
    m.acceptsInside path = true ↔ Tokens.Matches m.toTokens path := by
  rw [acceptsInside_eq_accept]
  exact Tokens.accept_iff_matches m.toTokens path

/-- A matcher that accepts a directory does not refuse any directory on the way to it. -/
theorem acceptsBelow_of_acceptsInside {m : DirectoryMatcher} {path more : List Text}
    (inside : m.acceptsInside (path ++ more) = true) : m.acceptsBelow path = true := by
  rw [acceptsBelow_eq_acceptStart]
  exact Tokens.acceptStart_of_matches ((acceptsInside_iff_matches m _).mp inside)

/-- Choosing a special form keeps the tokens of the segments. -/
theorem toTokens_ofSegments (parts : List Text) :
    (ofSegments parts).toTokens = parts.map Token.ofSegment := by
  match parts with
  | [] => rfl
  | [only] =>
      rw [ofSegments, List.map_singleton, Token.ofSegment]
      split
      · rfl
      · split <;> rfl
  | first :: second :: rest =>
      rw [ofSegments]
      · split
        case isTrue plain =>
          apply List.map_congr_left
          intro part h
          have literal := List.all_eq_true.mp plain part h
          exact (Token.ofSegment_of_plain ((Bool.not_eq_true' _).mp literal)).symm
        case isFalse => rfl
      · intro impossible
        cases impossible
      · intro only impossible
        cases impossible

end FileSelect.DirectoryMatcher

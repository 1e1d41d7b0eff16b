import FileSelect.Glob.PatternSet
import FileSelect.Proofs.Glob.Language
import FileSelect.Proofs.Glob.Written

/-!
# Patterns that are refused

What is written for a wildcard is always a valid expression, so a wildcard is refused for its
size alone. A pattern is refused for the first segment of its normal form that is, whatever
matchers it is compiled to, and a list for the first of its patterns. What is not refused is
compiled to the matchers that its text stands for.
-/

namespace FileSelect

namespace Wildcard

theorem weight_part (c : Char) :
    (part c).weight = if c = '*' ∨ c = '?' then 376 else 32 * c.utf8Size := by
  rw [part]
  by_cases star : c = '*'
  · subst star
    rfl
  · by_cases any : c = '?'
    · subst any
      rfl
    · rw [if_neg star, if_neg any, if_neg (not_or.mpr ⟨star, any⟩), Regex.weight,
        Regex.CharClass.char, Regex.CharClass.weight, if_pos rfl, Char.ofNat_toNat]

theorem weight_expression_nil : (expression []).weight = 64 := rfl

/-- Every character adds to the weight. -/
theorem weight_expression_cons (c : Char) (source : Text) :
    (expression (c :: source)).weight = (part c).weight + (expression source).weight :=
  Nat.add_left_comm 32 (part c).weight (untilEnd source).weight

theorem weight_expression_replicate (count : Nat) :
    (expression (List.replicate count '?')).weight = 64 + count * 376 := by
  induction count with
  | zero => exact weight_expression_nil
  | succ count ih =>
      rw [List.replicate_succ, weight_expression_cons, ih, weight_part, if_pos (.inr rfl)]
      omega

theorem refusal?_eq (w : Wildcard) :
    w.refusal? = if (expression w.source).weight ≤ Regex.largestWeight then none
      else some (.invalidWildcard w.source Regex.tooLarge) := by
  rw [refusal?, ofText?_expressionText]
  by_cases fits : (expression w.source).weight ≤ Regex.largestWeight
  · rw [if_pos fits, if_pos fits]
  · rw [if_neg fits, if_neg fits]

theorem refusal?_eq_none_iff {w : Wildcard} :
    w.refusal? = none ↔ (expression w.source).weight ≤ Regex.largestWeight := by
  rw [refusal?_eq]
  split
  case isTrue fits => exact iff_of_true rfl fits
  case isFalse large => exact iff_of_false nofun large

end Wildcard

theorem Clean.isPart_anyChars (more : Nat) : Clean.IsPart (List.replicate (more + 1) '?') := by
  have only : ∀ c ∈ List.replicate (more + 1) '?', c = '?' := fun _ => List.eq_of_mem_replicate
  refine ⟨⟨nofun, fun slash => absurd (only _ slash) (by decide)⟩, ?_,
    .inr (Clean.hasNoRun_of_notMem fun star => absurd (only _ star) (by decide))⟩
  refine Text.strip_eq_self_iff.mpr ⟨fun c first => ?_, fun c last => ?_⟩
  · rw [only c (List.mem_of_head? first)]
    rfl
  · rw [only c (List.mem_of_getLast? last)]
    rfl

namespace Token

theorem refusal?_ofSegment (segment : Text) :
    (ofSegment segment).refusal? =
      if segment = recursiveText ∨ hasWildcard segment = false then none
      else Wildcard.refusal? ⟨segment⟩ := by
  rw [ofSegment]
  by_cases recursive : segment = recursiveText
  · rw [if_pos recursive, if_pos (.inl recursive)]
    rfl
  · rw [if_neg recursive]
    cases wild : hasWildcard segment with
    | false => exact (if_pos (.inr rfl)).symm
    | true => exact (if_neg (not_or.mpr ⟨recursive, Bool.true_eq_false.mp⟩)).symm

theorem refusal?_ofSegment_eq_none_iff {segment : Text} :
    (ofSegment segment).refusal? = none ↔ segment = recursiveText ∨ hasWildcard segment = false ∨
      (Wildcard.expression segment).weight ≤ Regex.largestWeight := by
  rw [refusal?_ofSegment, ← or_assoc]
  split
  case isTrue plain => exact iff_of_true rfl (.inl plain)
  case isFalse wild => exact Wildcard.refusal?_eq_none_iff.trans (or_iff_right wild).symm

theorem refusal?_ofSegment_eq_some {segment : Text} {failure : Failure}
    (refused : (ofSegment segment).refusal? = some failure) :
    Regex.largestWeight < (Wildcard.expression segment).weight ∧
      failure = .invalidWildcard segment Regex.tooLarge := by
  rw [refusal?_ofSegment] at refused
  split at refused
  · cases refused
  · rw [Wildcard.refusal?_eq] at refused
    split at refused
    case isTrue => cases refused
    case isFalse large => exact ⟨Nat.lt_of_not_ge large, (Option.some.inj refused).symm⟩

end Token

/-- The special forms of directory matchers refuse what the tokens would. -/
theorem DirectoryMatcher.refusal?_eq_findSome? (m : DirectoryMatcher) :
    m.refusal? = m.toTokens.findSome? Token.refusal? := by
  cases m with
  | rootOnly => rfl
  | anyDepth => rfl
  | exactPath names =>
      refine (List.findSome?_eq_none_iff.mpr fun token inside => ?_).symm
      obtain ⟨name, _, rfl⟩ := List.mem_map.mp inside
      rfl
  | singleWildcard w =>
      rw [toTokens, List.findSome?_cons, List.findSome?_nil]
      cases refused : Token.refusal? (.wildcard w) <;> exact refused
  | tokens ts => rfl

theorem NameMatcher.refusal?_ofText {name : Text} (single : name ≠ Token.recursiveText) :
    (ofText name).refusal? = (Token.ofSegment name).refusal? := by
  rw [ofText, Token.ofSegment, if_neg single]
  split <;> rfl

namespace Pattern

/-- A pattern is refused for the first segment of its normal form that is refused. -/
theorem refusal?_ofText (raw : Text) :
    (ofText raw).refusal? =
      (segments (clean raw)).findSome? fun segment => (Token.ofSegment segment).refusal? := by
  obtain ⟨parts, last, eq, _, single, directory, name⟩ := exists_directory_tokens raw
  rw [refusal?, DirectoryMatcher.refusal?_eq_findSome?, directory, name,
    NameMatcher.refusal?_ofText single, eq, List.findSome?_append, List.findSome?_map,
    List.findSome?_cons, List.findSome?_nil]
  cases (Token.ofSegment last).refusal? <;> rfl

theorem refusal?_ofText_of_isPart {part : Text} (isPart : Clean.IsPart part)
    (single : part ≠ Token.recursiveText) :
    (ofText part).refusal? = (Token.ofSegment part).refusal? := by
  rw [refusal?_ofText, (isClean_of_isPart isPart single).clean_eq,
    segments_of_isName isPart.isName, List.findSome?_cons, List.findSome?_nil]
  cases (Token.ofSegment part).refusal? <;> rfl

/-- A pattern compiles unless one of its segments is a wildcard whose expression is too large. -/
theorem compile_eq_ok_iff {raw : Text} {p : Pattern} :
    compile raw = .ok p ↔ p = ofText raw ∧ ∀ segment ∈ segments (clean raw),
      segment = Token.recursiveText ∨ hasWildcard segment = false ∨
        (Wildcard.expression segment).weight ≤ Regex.largestWeight := by
  simp only [← Token.refusal?_ofSegment_eq_none_iff, ← List.findSome?_eq_none_iff,
    ← refusal?_ofText]
  rw [compile]
  cases (ofText raw).refusal? with
  | none => exact ⟨fun compiled => ⟨(Except.ok.inj compiled).symm, rfl⟩, fun h => h.1 ▸ rfl⟩
  | some failure => exact ⟨nofun, nofun⟩

/-- The error of a pattern names a segment that is refused. -/
theorem exists_segment_of_compile_eq_error {raw : Text} {failure : Failure}
    (refused : compile raw = .error failure) : ∃ segment ∈ segments (clean raw),
      Regex.largestWeight < (Wildcard.expression segment).weight ∧
        failure = .invalidWildcard segment Regex.tooLarge := by
  have found : (ofText raw).refusal? = some failure := by
    rw [compile] at refused
    split at refused
    case h_1 other found => exact found.trans (congrArg some (Except.error.inj refused))
    case h_2 => cases refused
  rw [refusal?_ofText] at found
  obtain ⟨segment, inside, named⟩ := List.exists_of_findSome?_eq_some found
  exact ⟨segment, inside, Token.refusal?_ofSegment_eq_some named⟩

/-- The normal form is compiled to the same matchers, or refused for the same segment. -/
theorem compile_clean (raw : Text) :
    compile (clean raw) = (compile raw).map fun p => { p with raw := clean raw } := by
  have same : ofText (clean raw) = { ofText raw with raw := clean raw } :=
    ofText_congr (clean_clean raw)
  have refused : (ofText (clean raw)).refusal? = (ofText raw).refusal? := by rw [same]; rfl
  rw [compile, compile, refused]
  cases (ofText raw).refusal? with
  | none => exact congrArg Except.ok same
  | some failure => rfl

end Pattern

namespace PatternSet

variable {patterns others : List Text} {settings : Settings}

/-! ## Lists -/

theorem ofPatterns_of_accepted (accepted : refusal? patterns settings = none) :
    ofPatterns patterns settings = .ok (ofTexts patterns settings) := by
  rw [ofPatterns, accepted]

theorem ofPatterns_eq_error_iff {failure : Failure} :
    ofPatterns patterns settings = .error failure ↔ refusal? patterns settings = some failure := by
  rw [ofPatterns]
  cases refusal? patterns settings with
  | none => constructor <;> rintro ⟨⟩
  | some other =>
      exact ⟨fun refused => congrArg some (Except.error.inj refused),
        fun refused => congrArg _ (Option.some.inj refused)⟩

/-- What is made of a set is made of the one set that a list can be compiled to. -/
theorem map_ofPatterns {α : Type} (f : PatternSet → α) (patterns : List Text)
    (settings : Settings) :
    (ofPatterns patterns settings).map f =
      (ofPatterns patterns settings).map fun _ => f (ofTexts patterns settings) := by
  rw [ofPatterns]
  cases refusal? patterns settings <;> rfl

/-- The pattern that stands for a missing include. -/
theorem refusal?_recursive : (Pattern.ofText ['*', '*']).refusal? = none := by decide +kernel

theorem mem_filterMap_pattern {entries : List Entry} {p : Pattern} :
    p ∈ entries.filterMap Entry.pattern? ↔
      p ∈ entries.filterMap Entry.include? ∨ p ∈ entries.filterMap Entry.exclude? := by
  simp only [List.mem_filterMap, ← exists_or, ← and_or_left]
  refine exists_congr fun entry => and_congr_right fun _ => ?_
  cases entry <;> simp [Entry.pattern?, Entry.include?, Entry.exclude?]

/-- A list is refused when a pattern of its set is. -/
theorem refusal?_eq_none_iff :
    refusal? patterns settings = none ↔
      (∀ p ∈ (ofTexts patterns settings).includes, p.refusal? = none) ∧
        ∀ p ∈ (ofTexts patterns settings).excludes, p.refusal? = none := by
  simp only [refusal?, List.findSome?_eq_none_iff, List.mem_append, mem_filterMap_pattern,
    or_imp, forall_and, and_assoc]
  rw [ofTexts]
  dsimp only
  simp only [List.mem_append, or_imp, forall_and]
  refine and_congr_left fun _ => ?_
  split
  case isTrue empty =>
    rw [List.isEmpty_iff.mp empty]
    exact iff_of_true nofun (List.forall_mem_singleton.mpr refusal?_recursive)
  case isFalse => exact Iff.rfl

/-- Only the members of a list matter, not their order or how often they occur. -/
theorem refusal?_congr (same : ∀ p, p ∈ patterns ↔ p ∈ others) :
    refusal? patterns settings = none ↔ refusal? others settings = none := by
  simp only [refusal?, List.findSome?_eq_none_iff, List.mem_append, List.mem_filterMap,
    List.mem_map, same]

theorem Entry.ofText_trim (raw : Text) : Entry.ofText (Text.trim raw) = Entry.ofText raw := by
  rw [Entry.ofText, Text.trim, Text.trim, Text.strip_strip, Entry.ofText, Text.trim]

/-- Patterns may be trimmed, and blank ones left out, before they are read. -/
theorem filterMap_nonblank {β : Type} (f : Entry → Option β) (blank : f .blank = none)
    (patterns : List Text) : ((nonblank patterns).map Entry.ofText).filterMap f =
      (patterns.map Entry.ofText).filterMap f := by
  rw [nonblank]
  induction patterns with
  | nil => rfl
  | cons raw rest ih =>
      rw [List.map_cons, List.map_cons, List.filterMap_cons, ← ih, List.filter_cons]
      cases trimmed : Text.trim raw with
      | nil =>
          have blankEntry : Entry.ofText raw = .blank := by rw [Entry.ofText, trimmed]
          rw [blankEntry, blank]
          rfl
      | cons c t =>
          rw [if_pos (by rfl), List.map_cons, List.filterMap_cons, ← trimmed, Entry.ofText_trim]

theorem ofPatterns_nonblank (patterns : List Text) (settings : Settings) :
    ofPatterns (nonblank patterns) settings = ofPatterns patterns settings := by
  rw [ofPatterns, ofPatterns, refusal?, refusal?, ofTexts, ofTexts,
    filterMap_nonblank Entry.pattern? rfl, filterMap_nonblank Entry.include? rfl,
    filterMap_nonblank Entry.exclude? rfl]

/-! ## A list that is refused -/

theorem refusal?_cons_of_refused {raw text : Text} {failure : Failure}
    (entry : Entry.ofText raw = .includes text ∨ Entry.ofText raw = .excludes text)
    (refused : (Pattern.ofText text).refusal? = some failure) :
    refusal? (raw :: patterns) settings = some failure := by
  have pattern : (Entry.ofText raw).pattern? = some (.ofText text) := by
    rcases entry with entry | entry <;> rw [entry] <;> rfl
  rw [refusal?, List.map_cons, List.filterMap_cons_some pattern, List.cons_append,
    List.findSome?_cons, refused]

/-- Whatever follows it, a pattern of that many `?` is refused. -/
theorem refusal?_anyChars (more : Nat) (large : Regex.largestWeight < 64 + (more + 1) * 376) :
    refusal? (List.replicate (more + 1) '?' :: patterns) settings =
      some (.invalidWildcard (List.replicate (more + 1) '?') Regex.tooLarge) := by
  have part := Clean.isPart_anyChars more
  have single : List.replicate (more + 1) '?' ≠ Token.recursiveText := nofun
  have entry : Entry.ofText (List.replicate (more + 1) '?') =
      .includes (List.replicate (more + 1) '?') := by
    rw [Entry.ofText, part.trimmed]
    rfl
  have weight := Wildcard.weight_expression_replicate (more + 1)
  refine refusal?_cons_of_refused (.inl entry) ?_
  rw [Pattern.refusal?_ofText_of_isPart part single, Token.refusal?_ofSegment,
    if_neg (not_or.mpr ⟨single, nofun⟩), Wildcard.refusal?_eq, if_neg (weight ▸ large.not_ge)]

end PatternSet

end FileSelect

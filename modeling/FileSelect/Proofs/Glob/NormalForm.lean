import FileSelect.Glob.Pattern
import FileSelect.Proofs.Glob.CleanSegments
import Mathlib.Data.List.Chain

/-!
# The normal form of patterns

A pattern in normal form joins one or more trimmed names. A `.` can only be the last of
them; stars stand alone or in a segment `**`, which has no such neighbour and is not the
last. Cleaning brings every pattern to this form, and the patterns in this form are
those that cleaning leaves as they are. A pattern therefore compiles to the same
matchers as its normal form.
-/

namespace FileSelect

namespace Clean

/-- A segment that a cleaned pattern can have. -/
structure IsPart (part : Text) : Prop where
  isName : IsName part
  trimmed : Text.trim part = part
  isolated : part = Token.recursiveText ∨ HasNoRun part

/-- Neighbours that are not both `**`. -/
def Apart (part next : Text) : Prop :=
  ¬ (part = Token.recursiveText ∧ next = Token.recursiveText)

/-- The segments of a pattern in normal form. -/
structure IsNormal (parts : List Text) : Prop where
  ne_nil : parts ≠ []
  isPart : ∀ part ∈ parts, IsPart part
  dot_last : ∀ part ∈ parts.dropLast, part ≠ ['.']
  apart : parts.IsChain Apart
  last_ne_recursive : parts.getLast? ≠ some Token.recursiveText

theorem isPart_star : IsPart ['*'] := ⟨by decide, by decide, Or.inr (by decide)⟩

theorem isPart_recursiveText : IsPart Token.recursiveText := ⟨by decide, by decide, Or.inl rfl⟩

theorem IsPiece.isPart {word piece : Text} (isPiece : IsPiece word piece) (name : IsName word)
    (trimmed : Text.trim word = word) : IsPart piece where
  isName := ⟨isPiece.ne_nil name.ne_nil, isPiece.no_slash name.no_slash⟩
  trimmed := isPiece.trim_eq trimmed
  isolated := isPiece.imp_right fun calm => calm.1

theorem IsPart.expand_eq {part : Text} (isPart : IsPart part) : expand true part = [part] := by
  rcases isPart.isolated with rfl | calm
  · exact expand_recursiveText
  · exact expand_of_hasNoRun true calm

/-! ## The phases at the front and at the end -/

theorem dropInner_concat (bad : Text) (front : List Text) (last : Text) :
    dropInner bad (front ++ [last]) = (front.filter fun part => part ≠ bad) ++ [last] := by
  induction front with
  | nil => rfl
  | cons part front ih =>
      rw [List.cons_append, dropInner_cons (List.append_ne_nil_of_right_ne_nil front (by simp)), ih,
        List.filter_cons]
      by_cases same : part = bad
      · simp [same]
      · simp [same]

theorem mergeParts_concat (front : List Text) {last : Text} (single : last ≠ Token.recursiveText) :
    mergeParts (front ++ [last]) = mergeParts front ++ [last] := by
  fun_induction mergeParts front with
  | case1 part next rest both ih =>
      rw [List.cons_append, List.cons_append, mergeParts, if_pos both, ← List.cons_append, ih]
  | case2 part next rest apart ih =>
      rw [List.cons_append, List.cons_append, mergeParts, if_neg apart, ← List.cons_append, ih]
      rfl
  | case3 parts short =>
      rcases parts with _ | ⟨part, _ | ⟨next, rest⟩⟩
      · rfl
      · rw [List.singleton_append, mergeParts, if_neg fun both => single both.2]
        rfl
      · exact (short part next rest rfl).elim

theorem mergeParts_subset (parts : List Text) : mergeParts parts ⊆ parts := by
  fun_induction mergeParts parts with
  | case1 part next rest both ih => exact List.subset_cons_of_subset part ih
  | case2 part next rest apart ih => exact List.cons_subset_cons part ih
  | case3 parts _ => exact List.Subset.refl parts

theorem head?_mergeParts (parts : List Text) : (mergeParts parts).head? = parts.head? := by
  fun_induction mergeParts parts with
  | case1 part next rest both ih => rw [ih, both.1, both.2]; rfl
  | case2 part next rest apart ih => rfl
  | case3 parts _ => rfl

theorem isChain_mergeParts (parts : List Text) : (mergeParts parts).IsChain Apart := by
  fun_induction mergeParts parts with
  | case1 part next rest both ih => exact ih
  | case2 part next rest apart ih =>
      refine List.isChain_cons.mpr ⟨?_, ih⟩
      intro second h
      rw [head?_mergeParts] at h
      cases h
      exact apart
  | case3 parts short =>
      rcases parts with _ | ⟨part, _ | ⟨next, rest⟩⟩
      · exact .nil
      · exact .singleton part
      · exact (short part next rest rfl).elim

theorem mergeParts_eq_self {parts : List Text} (apart : parts.IsChain Apart) :
    mergeParts parts = parts := by
  fun_induction mergeParts parts with
  | case1 part next rest both ih => exact absurd both (List.isChain_cons_cons.mp apart).1
  | case2 part next rest _ ih => rw [ih (List.isChain_cons_cons.mp apart).2]
  | case3 parts _ => rfl

/-! ## Cleaning reaches the normal form -/

/-- Nothing follows a lone dot that comes out of a word, for it is the whole word. -/
theorem dot_notMem_of_expand {word final : Text} {front : List Text}
    (eq : expand true word = front ++ [final]) : ['.'] ∉ front := by
  intro h
  have piece : ['.'] ∈ expand true word := eq ▸ List.mem_append_left [final] h
  rw [(isPiece_of_mem_expand piece).eq_dot, expand_of_hasNoRun true (by decide)] at eq
  have alone := congrArg List.length eq
  have positive := List.length_pos_of_mem h
  rw [List.length_append, List.length_singleton, List.length_singleton] at alone
  omega

/-- The last part of a pattern ends up as a name, with some segments in front of it. -/
theorem completeParts_expand {last : Text} (free : '/' ∉ last) (trimmed : Text.trim last = last) :
    ∃ front name, completeParts (expand true last) = front ++ [name] ∧
      name ≠ Token.recursiveText ∧ IsPart name ∧ ∀ part ∈ front, IsPart part ∧ part ≠ ['.'] := by
  by_cases empty : last = []
  · subst empty
    rw [expand_of_hasNoRun true (by decide)]
    exact ⟨[], ['*'], rfl, by decide, isPart_star, List.forall_mem_nil _⟩
  · obtain ⟨front, final, eq⟩ :=
      (List.eq_nil_or_concat' (expand true last)).resolve_left (expand_ne_nil true last)
    have isPart : ∀ part ∈ front ++ [final], IsPart part := fun part h =>
      (isPiece_of_mem_expand (eq ▸ h)).isPart ⟨empty, free⟩ trimmed
    have finalPart := isPart final (List.mem_append_right front List.mem_cons_self)
    have frontPart : ∀ part ∈ front, IsPart part ∧ part ≠ ['.'] := by
      intro part h
      refine ⟨isPart part (List.mem_append_left [final] h), ?_⟩
      rintro rfl
      exact dot_notMem_of_expand eq h
    rw [eq, completeParts_concat, completeLast, if_neg finalPart.isName.ne_nil]
    by_cases recursive : final = Token.recursiveText
    · rw [if_pos recursive]
      refine ⟨front ++ [Token.recursiveText], ['*'], by simp, by decide, isPart_star, ?_⟩
      intro part h
      rcases List.mem_append.mp h with inside | run
      · exact frontPart part inside
      · rw [List.mem_singleton.mp run]
        exact ⟨isPart_recursiveText, by decide⟩
    · rw [if_neg recursive]
      exact ⟨front, final, rfl, recursive, finalPart, frontPart⟩

theorem completeParts_append (front : List Text) {back : List Text} (ne : back ≠ []) :
    completeParts (front ++ back) = front ++ completeParts back := by
  obtain ⟨back, last, rfl⟩ := (List.eq_nil_or_concat' back).resolve_left ne
  rw [← List.append_assoc, completeParts_concat, completeParts_concat, List.append_assoc]

/-- Inner segments that are left are names other than `.`, cut up at their runs. -/
theorem isPart_of_mem_inner {front : List Text} (free : ∀ part ∈ front, '/' ∉ part)
    (trimmed : ∀ part ∈ front, Text.trim part = part) {piece : Text}
    (h : piece ∈ ((front.filter fun part => part ≠ ['.']).filter fun part => part ≠ []).flatMap
      (expand true)) : IsPart piece ∧ piece ≠ ['.'] := by
  obtain ⟨word, kept, h⟩ := List.mem_flatMap.mp h
  simp only [List.mem_filter, decide_eq_true_eq] at kept
  obtain ⟨⟨inside, notDot⟩, ne⟩ := kept
  have isPiece := isPiece_of_mem_expand h
  refine ⟨isPiece.isPart ⟨ne, free word inside⟩ (trimmed word inside), ?_⟩
  rintro rfl
  exact notDot isPiece.eq_dot

/-- Merging leaves a normal form when only the neighbours were still to be looked at. -/
theorem isNormal_mergeParts {front : List Text} {name : Text} (namePart : IsPart name)
    (single : name ≠ Token.recursiveText)
    (frontPart : ∀ part ∈ front, IsPart part ∧ part ≠ ['.']) :
    IsNormal (mergeParts (front ++ [name])) := by
  have apart := isChain_mergeParts (front ++ [name])
  rw [mergeParts_concat front single] at apart ⊢
  have kept : ∀ part ∈ mergeParts front, IsPart part ∧ part ≠ ['.'] := fun part h =>
    frontPart part (mergeParts_subset front h)
  refine ⟨List.append_ne_nil_of_right_ne_nil _ (by simp), ?_, ?_, apart, ?_⟩
  · intro part h
    rcases List.mem_append.mp h with inner | last
    · exact (kept part inner).1
    · exact List.mem_singleton.mp last ▸ namePart
  · intro part h
    rw [List.dropLast_concat] at h
    exact (kept part h).2
  · rw [List.getLast?_concat]
    exact fun same => single (Option.some.inj same)

theorem isNormal_cleanParts {parts : List Text} (ne : parts ≠ [])
    (free : ∀ part ∈ parts, '/' ∉ part) (trimmed : ∀ part ∈ parts, Text.trim part = part) :
    IsNormal (cleanParts parts) := by
  obtain ⟨front, last, rfl⟩ := (List.eq_nil_or_concat' parts).resolve_left ne
  have inside : last ∈ front ++ [last] := List.mem_append_right front List.mem_cons_self
  obtain ⟨middle, name, eq, single, namePart, middlePart⟩ :=
    completeParts_expand (free last inside) (trimmed last inside)
  rw [cleanParts, dropInner_concat, dropInner_concat, List.flatMap_append, List.flatMap_singleton,
    completeParts_append _ (expand_ne_nil true last), eq, ← List.append_assoc]
  apply isNormal_mergeParts namePart single
  intro part h
  rcases List.mem_append.mp h with inner | h
  · apply isPart_of_mem_inner _ _ inner
    · exact fun word h => free word (List.mem_append_left [last] h)
    · exact fun word h => trimmed word (List.mem_append_left [last] h)
  · exact middlePart part h

/-! ## The normal form stays -/

theorem flatMap_expand_of_isPart {parts : List Text} (isPart : ∀ part ∈ parts, IsPart part) :
    parts.flatMap (expand true) = parts := by
  induction parts with
  | nil => rfl
  | cons part rest ih =>
      rw [List.flatMap_cons, (isPart part List.mem_cons_self).expand_eq,
        ih fun p h => isPart p (List.mem_cons_of_mem part h)]
      rfl

theorem IsNormal.cleanParts_eq {parts : List Text} (normal : IsNormal parts) :
    cleanParts parts = parts := by
  obtain ⟨front, last, rfl⟩ := (List.eq_nil_or_concat' parts).resolve_left normal.ne_nil
  have isPart := normal.isPart
  have notDot : ∀ part ∈ front, part ≠ ['.'] := by
    have inner := normal.dot_last
    rwa [List.dropLast_concat] at inner
  have notEmpty : ∀ part ∈ front, part ≠ [] := fun part h =>
    (isPart part (List.mem_append_left [last] h)).isName.ne_nil
  have single : last ≠ Token.recursiveText := by
    rintro rfl
    exact normal.last_ne_recursive List.getLast?_concat
  have noDots : dropInner ['.'] (front ++ [last]) = front ++ [last] := by
    rw [dropInner_concat, List.filter_eq_self.mpr fun part h => decide_eq_true (notDot part h)]
  have noGaps : dropInner [] (front ++ [last]) = front ++ [last] := by
    rw [dropInner_concat, List.filter_eq_self.mpr fun part h => decide_eq_true (notEmpty part h)]
  rw [cleanParts, noDots, noGaps, flatMap_expand_of_isPart isPart, completeParts_concat,
    completeLast, if_neg (isPart last (by simp)).isName.ne_nil, if_neg single,
    mergeParts_eq_self normal.apart]

end Clean

/-! ## Cleaned patterns -/

/-- The pattern is in normal form. -/
def IsClean (pattern : Text) : Prop :=
  ∃ parts, Clean.IsNormal parts ∧ pattern = joinSegments parts

theorem isClean_of_isPart {part : Text} (isPart : Clean.IsPart part)
    (single : part ≠ Token.recursiveText) : IsClean part := by
  refine ⟨[part], ⟨List.cons_ne_nil _ _, List.forall_mem_singleton.mpr isPart,
    List.forall_mem_nil _, List.isChain_singleton part, ?_⟩, rfl⟩
  exact fun last => single (Option.some.inj last)

theorem isClean_clean (pattern : Text) : IsClean (clean pattern) := by
  refine ⟨_, ?_, clean_eq_joinSegments pattern⟩
  apply Clean.isNormal_cleanParts (Clean.trimmedParts_ne_nil pattern)
  · exact fun part => Clean.no_slash_of_mem_trimmedParts
  · intro part h
    obtain ⟨raw, _, rfl⟩ := List.mem_map.mp h
    exact Text.strip_strip Text.isBlank raw

theorem IsClean.clean_eq {pattern : Text} (normal : IsClean pattern) : clean pattern = pattern := by
  obtain ⟨parts, normal, rfl⟩ := normal
  have free : ∀ part ∈ parts, '/' ∉ part := fun part h => (normal.isPart part h).isName.no_slash
  have cut : Text.split '/' (joinSegments parts) = parts := Text.split_join normal.ne_nil free
  have trimmed : parts.map Text.trim = parts :=
    (List.map_congr_left fun part h => (normal.isPart part h).trimmed).trans (List.map_id parts)
  rw [clean_eq_joinSegments, cut, trimmed, normal.cleanParts_eq]

theorem clean_clean (pattern : Text) : clean (clean pattern) = clean pattern :=
  (isClean_clean pattern).clean_eq

/-- A pattern in normal form is read as names for the directory and one for the entry. -/
theorem IsClean.exists_names {pattern : Text} (normal : IsClean pattern) :
    ∃ parts name, pattern = joinSegments (parts ++ [name]) ∧
      (∀ part ∈ parts ++ [name], IsName part) ∧ name ≠ Token.recursiveText := by
  obtain ⟨all, normal, rfl⟩ := normal
  obtain ⟨parts, name, rfl⟩ := (List.eq_nil_or_concat' all).resolve_left normal.ne_nil
  refine ⟨parts, name, rfl, fun part h => (normal.isPart part h).isName, ?_⟩
  rintro rfl
  exact normal.last_ne_recursive List.getLast?_concat

/-! ## Compiling -/

namespace Pattern

@[simp] theorem normalized_ofText (raw : Text) : (ofText raw).normalized = clean raw := by
  rw [ofText]
  split <;> rfl

/-- The matchers of a pattern depend on its normal form alone. -/
theorem ofText_congr {raw other : Text} (same : clean raw = clean other) :
    ofText raw = { ofText other with raw := raw } := by
  rw [ofText, ofText, same]
  split <;> rfl

theorem ofText_eq {raw name : Text} {parts : List Text}
    (normal : clean raw = joinSegments (parts ++ [name]))
    (isName : ∀ part ∈ parts ++ [name], IsName part) :
    ofText raw = ⟨raw, clean raw, .ofSegments parts, .ofText name⟩ := by
  have free := (isName name (List.mem_append_right parts List.mem_cons_self)).no_slash
  have partsName : ∀ part ∈ parts, IsName part := fun part h =>
    isName part (List.mem_append_left [name] h)
  by_cases alone : parts = []
  · subst alone
    have whole : clean raw = name := normal
    rw [ofText, whole, Text.splitLast?_eq_none_iff.mpr free]
    rfl
  · have directory : DirectoryMatcher.ofText? (some (joinSegments parts)) = .ofSegments parts := by
      rw [DirectoryMatcher.ofText?, segments_joinSegments partsName]
    rw [joinSegments_concat alone] at normal
    rw [ofText, normal, Text.splitLast?_append_cons _ free, ← directory]

end Pattern

/-- Cleaning is a projection onto the normal form, and it keeps what a pattern means. -/
theorem clean_projection :
    (∀ pattern, IsClean (clean pattern)) ∧
    (∀ pattern, clean pattern = pattern ↔ IsClean pattern) ∧
    (∀ pattern, clean (clean pattern) = clean pattern) ∧
    ∀ raw, Pattern.ofText (Pattern.ofText raw).normalized =
      { Pattern.ofText raw with raw := (Pattern.ofText raw).normalized } := by
  refine ⟨isClean_clean, ?_, clean_clean, ?_⟩
  · intro pattern
    constructor
    · intro fixed
      exact fixed ▸ isClean_clean pattern
    · exact IsClean.clean_eq
  · intro raw
    apply Pattern.ofText_congr
    rw [Pattern.normalized_ofText, clean_clean]

end FileSelect

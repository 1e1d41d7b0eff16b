import FileSelect.Proofs.Glob.Expansion

/-!
# Cleaning segment by segment

The phases of cleaning rewrite characters. Each of them is also an operation on the list
of segments: inner segments that say nothing are dropped, runs of stars are given
segments of their own, the last segment is completed, and neighbouring `**` are merged.
The main statement is that a cleaned pattern joins the segments obtained so.
-/

namespace FileSelect

namespace Clean

/-- Drops the segments `bad`, except at the end. -/
def dropInner (bad : Text) : List Text → List Text
  | part :: next :: rest =>
      if part = bad then dropInner bad (next :: rest) else part :: dropInner bad (next :: rest)
  | parts => parts

/-- A last segment that names a directory is followed by one for the entries inside. -/
def completeLast (last : Text) : List Text :=
  if last = [] then [['*']]
  else if last = Token.recursiveText then [Token.recursiveText, ['*']]
  else [last]

def completeParts : List Text → List Text
  | [] => []
  | [last] => completeLast last
  | part :: next :: rest => part :: completeParts (next :: rest)

/-- Keeps the last of neighbouring `**`. -/
def mergeParts : List Text → List Text
  | part :: next :: rest =>
      if part = Token.recursiveText ∧ next = Token.recursiveText then mergeParts (next :: rest)
      else part :: mergeParts (next :: rest)
  | parts => parts

/-- The parts that stand behind the anchor. -/
def anchorParts : List Text → List Text
  | [[]] => [['*']]
  | [] :: rest => rest
  | parts => parts

/-- What cleaning makes of the trimmed parts of a pattern. -/
def cleanParts (parts : List Text) : List Text :=
  mergeParts (completeParts ((dropInner [] (dropInner ['.'] parts)).flatMap (expand true)))

/-! ## Slashes and words -/

/-- The word in front of the first slash is determined by the text. -/
theorem eq_of_append_slash {left right leftRest rightRest : Text}
    (leftFree : '/' ∉ left) (rightFree : '/' ∉ right)
    (same : left ++ '/' :: leftRest = right ++ '/' :: rightRest) : left = right := by
  have parts := congrArg (Text.split '/') same
  rw [Text.split_append_cons, Text.split_append_cons, Text.split_of_not_mem leftFree,
    Text.split_of_not_mem rightFree] at parts
  exact (List.cons.inj parts).1

/-- A phase that copies every character but slashes copies a word. -/
theorem copy_word {phase : Text → Text}
    (copies : ∀ c rest, c ≠ '/' → phase (c :: rest) = c :: phase rest)
    {word : Text} (free : '/' ∉ word) (t : Text) : phase (word ++ t) = word ++ phase t := by
  induction word with
  | nil => rfl
  | cons c word ih =>
      have letter : c ≠ '/' := fun slash => free (slash ▸ List.mem_cons_self)
      rw [List.cons_append, copies c _ letter, ih (fun h => free (List.mem_cons_of_mem c h))]
      rfl

/-! ## Dropping segments -/

theorem dropInner_ne_nil {bad : Text} {parts : List Text} (ne : parts ≠ []) :
    dropInner bad parts ≠ [] := by
  fun_induction dropInner bad parts with
  | case1 next rest ih => exact ih (List.cons_ne_nil next rest)
  | case2 part next rest kept ih => exact List.cons_ne_nil part _
  | case3 parts _ => exact ne

theorem dropInner_subset {bad : Text} (parts : List Text) : dropInner bad parts ⊆ parts := by
  fun_induction dropInner bad parts with
  | case1 next rest ih => exact List.subset_cons_of_subset bad ih
  | case2 part next rest kept ih => exact List.cons_subset_cons part ih
  | case3 parts _ => exact List.Subset.refl parts

/-- A phase that turns a slash, `bad` and a slash into one slash drops the segments `bad`. -/
theorem phase_slashed_eq_dropInner {phase : Text → Text} {bad : Text} (badFree : '/' ∉ bad)
    (empty : phase [] = [])
    (drops : ∀ rest, phase ('/' :: (bad ++ '/' :: rest)) = phase ('/' :: rest))
    (copies : ∀ c rest, (∀ below, c :: rest ≠ '/' :: (bad ++ '/' :: below)) →
      phase (c :: rest) = c :: phase rest)
    {parts : List Text} (free : ∀ part ∈ parts, '/' ∉ part) :
    phase (slashed parts) = slashed (dropInner bad parts) := by
  have copiesLetter : ∀ c rest, c ≠ '/' → phase (c :: rest) = c :: phase rest := by
    intro c rest letter
    exact copies c rest fun below eq => letter (List.cons.inj eq).1
  induction parts with
  | nil => exact empty
  | cons part rest ih =>
      have partFree := free part List.mem_cons_self
      have ih := ih fun p h => free p (List.mem_cons_of_mem part h)
      cases rest with
      | nil =>
          rw [dropInner, slashed_cons, slashed_nil, List.append_nil, copies]
          · have whole := copy_word copiesLetter partFree []
            rw [List.append_nil, empty, List.append_nil] at whole
            rw [whole]
          · intro below eq
            have inside := (List.cons.inj eq).2 ▸ partFree
            exact inside (List.mem_append_right bad List.mem_cons_self)
          · intro _ _ _ impossible
            cases impossible
      | cons next rest =>
          rw [dropInner]
          by_cases same : part = bad
          · rw [if_pos same, ← ih, slashed_cons, slashed_cons, same, drops]
          · rw [if_neg same, slashed_cons, slashed_cons part, ← ih, copies,
              copy_word copiesLetter partFree]
            intro below eq
            rw [slashed_cons] at eq
            exact same (eq_of_append_slash partFree badFree (List.cons.inj eq).2)

theorem dropDots_slashed {parts : List Text} (free : ∀ part ∈ parts, '/' ∉ part) :
    dropDots ('.' :: slashed parts) = '.' :: slashed (dropInner ['.'] parts) := by
  have copies : ∀ c rest, (∀ below, c :: rest ≠ '/' :: (['.'] ++ '/' :: below)) →
      dropDots (c :: rest) = c :: dropDots rest := by
    intro c rest other
    rw [dropDots]
    rintro below rfl rfl
    exact other below rfl
  rw [copies '.' _ (by simp),
    phase_slashed_eq_dropInner (by decide) (by rw [dropDots]) (fun rest => by simp [dropDots])
      copies free]

theorem squeezeSlashes_slashed {parts : List Text} (free : ∀ part ∈ parts, '/' ∉ part) :
    squeezeSlashes ('.' :: slashed parts) = '.' :: slashed (dropInner [] parts) := by
  have copies : ∀ c rest, (∀ below, c :: rest ≠ '/' :: ([] ++ '/' :: below)) →
      squeezeSlashes (c :: rest) = c :: squeezeSlashes rest := by
    intro c rest other
    rw [squeezeSlashes]
    rintro below rfl rfl
    exact other below rfl
  rw [copies '.' _ (by simp),
    phase_slashed_eq_dropInner (by decide) (by rw [squeezeSlashes])
      (fun rest => by simp [squeezeSlashes]) copies free]

/-! ## Isolating runs -/

theorem flatMap_expand_ne_nil {words : List Text} (ne : words ≠ []) :
    words.flatMap (expand true) ≠ [] := by
  intro empty
  obtain ⟨word, inside⟩ := List.exists_mem_of_ne_nil words ne
  exact expand_ne_nil true word (List.flatMap_eq_nil_iff.mp empty word inside)

theorem no_slash_of_mem_flatMap_expand {words : List Text} (free : ∀ word ∈ words, '/' ∉ word) :
    ∀ part ∈ words.flatMap (expand true), '/' ∉ part := by
  intro part h
  obtain ⟨word, inside, h⟩ := List.mem_flatMap.mp h
  exact (isPiece_of_mem_expand h).no_slash (free word inside)

theorem isolated_of_mem_flatMap_expand (words : List Text) :
    ∀ part ∈ words.flatMap (expand true), part = Token.recursiveText ∨ HasNoRun part := by
  intro part h
  obtain ⟨word, _, h⟩ := List.mem_flatMap.mp h
  exact (isPiece_of_mem_expand h).imp_right fun calm => calm.1

theorem isolate_dot_slashed {parts : List Text} (free : ∀ part ∈ parts, '/' ∉ part) :
    isolate true ('.' :: slashed parts) = '.' :: slashed (parts.flatMap (expand true)) := by
  rw [isolate, isolate_slashed _ free]
  intro rest impossible
  cases impossible

/-! ## Completing the last segment -/

theorem completeParts_concat (front : List Text) (last : Text) :
    completeParts (front ++ [last]) = front ++ completeLast last := by
  induction front with
  | nil => rfl
  | cons part front ih =>
      cases front with
      | nil => rfl
      | cons next front =>
          rw [List.cons_append, List.cons_append, completeParts, ← List.cons_append, ih]
          rfl

theorem mem_completeParts {part : Text} {parts : List Text} (h : part ∈ completeParts parts) :
    part ∈ parts ∨ part = ['*'] := by
  rcases List.eq_nil_or_concat' parts with rfl | ⟨front, last, rfl⟩
  · cases h
  · rw [completeParts_concat, List.mem_append] at h
    rcases h with inner | h
    · exact Or.inl (List.mem_append_left [last] inner)
    · rw [completeLast] at h
      split at h
      · exact Or.inr (List.mem_singleton.mp h)
      · split at h
        case isTrue recursive =>
          rcases List.mem_cons.mp h with rfl | h
          · exact Or.inl (by simp [recursive])
          · exact Or.inr (List.mem_singleton.mp h)
        case isFalse => exact Or.inl (List.mem_append_right front h)

theorem endsWith_append_slash {finish last : Text} (finishFree : '/' ∉ finish) (above : Text) :
    Text.endsWith finish (above ++ '/' :: last) = true ↔ finish <:+ last := by
  rw [Text.endsWith, List.isSuffixOf_iff_suffix]
  constructor
  · intro suffix
    rcases List.suffix_or_suffix_of_suffix suffix (List.suffix_append above ('/' :: last)) with
      inside | outside
    · rcases List.suffix_cons_iff.mp inside with same | inside
      · exact absurd (same ▸ List.mem_cons_self) finishFree
      · exact inside
    · exact absurd (outside.subset List.mem_cons_self) finishFree
  · intro suffix
    exact suffix.trans ((List.suffix_cons '/' last).trans (List.suffix_append above _))

theorem endsWith_slash_append_slash {above last : Text} (free : '/' ∉ last) (ne : last ≠ []) :
    ¬ Text.endsWith ['/'] (above ++ '/' :: last) = true := by
  rw [Text.endsWith, List.isSuffixOf_iff_suffix]
  intro suffix
  have own : last <:+ above ++ '/' :: last :=
    (List.suffix_cons '/' last).trans (List.suffix_append above _)
  have short : ['/'].length ≤ last.length := List.length_pos_iff.mpr ne
  exact free ((List.suffix_of_suffix_length_le suffix own short).subset List.mem_cons_self)

theorem complete_append_slash (above : Text) {last : Text} (free : '/' ∉ last)
    (isolated : last = Token.recursiveText ∨ HasNoRun last) :
    complete (above ++ '/' :: last) = above ++ slashed (completeLast last) := by
  have stars : Text.endsWith ['*', '*'] (above ++ '/' :: last) = true ↔ ['*', '*'] <:+ last :=
    endsWith_append_slash (by decide) above
  rw [complete, completeLast]
  by_cases empty : last = []
  · subst empty
    have noStars : ¬ Text.endsWith ['*', '*'] (above ++ ['/']) = true := by
      rw [stars]
      decide
    have slash : Text.endsWith ['/'] (above ++ ['/']) = true := endsWith_slash_iff.mpr ⟨above, rfl⟩
    simp only [if_neg noStars, if_pos slash]
    simp
  · rw [if_neg empty]
    by_cases recursive : last = Token.recursiveText
    · subst recursive
      have run := stars.mpr (List.suffix_refl _)
      have slash : Text.endsWith ['/'] (above ++ '/' :: Token.recursiveText ++ ['/']) = true :=
        endsWith_slash_iff.mpr ⟨_, rfl⟩
      simp only [if_pos run, if_pos slash]
      simp
    · have calm := isolated.resolve_left recursive
      have noStars : ¬ Text.endsWith ['*', '*'] (above ++ '/' :: last) = true := fun h =>
        calm (stars.mp h).isInfix
      simp only [if_neg noStars, if_neg recursive, if_neg (endsWith_slash_append_slash free empty)]
      simp

theorem complete_slashed {parts : List Text} (ne : parts ≠ [])
    (free : ∀ part ∈ parts, '/' ∉ part)
    (isolated : ∀ part ∈ parts, part = Token.recursiveText ∨ HasNoRun part) :
    complete ('.' :: slashed parts) = '.' :: slashed (completeParts parts) := by
  obtain ⟨front, last, rfl⟩ := (List.eq_nil_or_concat' parts).resolve_left ne
  have inside : last ∈ front ++ [last] := List.mem_append_right front List.mem_cons_self
  have whole :=
    complete_append_slash ('.' :: slashed front) (free last inside) (isolated last inside)
  rw [completeParts_concat, slashed_append, slashed_append]
  simpa using whole

/-- A completed pattern ends in a name. -/
theorem exists_getLast?_completeLast (last : Text) :
    ∃ name, (completeLast last).getLast? = some name ∧ name ≠ [] ∧ name ≠ Token.recursiveText := by
  rw [completeLast]
  split
  case isTrue => exact ⟨['*'], rfl, by decide, by decide⟩
  case isFalse ne =>
    split
    case isTrue => exact ⟨['*'], rfl, by decide, by decide⟩
    case isFalse single => exact ⟨last, rfl, ne, single⟩

theorem exists_getLast?_completeParts {parts : List Text} (ne : parts ≠ []) :
    ∃ name, (completeParts parts).getLast? = some name ∧
      name ≠ [] ∧ name ≠ Token.recursiveText := by
  obtain ⟨front, last, rfl⟩ := (List.eq_nil_or_concat' parts).resolve_left ne
  obtain ⟨name, ends, named⟩ := exists_getLast?_completeLast last
  refine ⟨name, ?_, named⟩
  rw [completeParts_concat, List.getLast?_append, ends]
  rfl

/-! ## Merging neighbours -/

theorem getLast?_mergeParts (parts : List Text) :
    (mergeParts parts).getLast? = parts.getLast? := by
  fun_induction mergeParts parts with
  | case1 part next rest both ih => rw [ih, List.getLast?_cons_cons]
  | case2 part next rest apart ih =>
      rw [List.getLast?_cons, ih, List.getLast?_cons_cons, List.getLast?_cons]
      rfl
  | case3 parts _ => rfl

theorem mergeRecursive_slashed {parts : List Text} (free : ∀ part ∈ parts, '/' ∉ part)
    (last : parts.getLast? ≠ some Token.recursiveText) :
    mergeRecursive (slashed parts) = slashed (mergeParts parts) := by
  have copies : ∀ c rest, c ≠ '/' → mergeRecursive (c :: rest) = c :: mergeRecursive rest := by
    intro c rest letter
    rw [mergeRecursive]
    intro below slash
    exact absurd slash letter
  induction parts with
  | nil => rw [slashed_nil, mergeRecursive]; rfl
  | cons part rest ih =>
      have partFree := free part List.mem_cons_self
      cases rest with
      | nil =>
          have whole := copy_word copies partFree []
          rw [List.append_nil, mergeRecursive.eq_3, List.append_nil] at whole
          rw [mergeParts, slashed_cons, slashed_nil, List.append_nil, mergeRecursive, whole]
          · intro below _ eq
            exact partFree (eq ▸ by simp)
          · intro _ _ _ impossible
            cases impossible
      | cons next rest =>
          have nextFree := free next (List.mem_cons_of_mem part List.mem_cons_self)
          have ih := ih (fun p h => free p (List.mem_cons_of_mem part h))
            (by rwa [List.getLast?_cons_cons] at last)
          rw [mergeParts]
          by_cases both : part = Token.recursiveText ∧ next = Token.recursiveText
          · rw [if_pos both, ← ih]
            obtain ⟨rfl, rfl⟩ := both
            -- The second `**` is not the last segment, so that a slash follows it.
            cases rest with
            | nil => exact absurd rfl last
            | cons third rest => simp [Token.recursiveText, mergeRecursive]
          · rw [if_neg both, slashed_cons part (mergeParts _), ← ih, slashed_cons, slashed_cons,
              mergeRecursive, copy_word copies partFree]
            intro below _ eq
            apply both
            have first : part = Token.recursiveText :=
              eq_of_append_slash partFree (by decide) eq
            subst first
            refine ⟨rfl, ?_⟩
            have eq : next ++ slashed rest = Token.recursiveText ++ '/' :: below := by
              simpa [Token.recursiveText] using eq
            cases rest with
            | nil =>
                rw [slashed_nil, List.append_nil] at eq
                exact absurd (eq ▸ by simp) nextFree
            | cons third rest => exact eq_of_append_slash nextFree (by decide) eq

theorem mergeRecursive_dot_slashed {parts : List Text} (free : ∀ part ∈ parts, '/' ∉ part)
    (last : parts.getLast? ≠ some Token.recursiveText) :
    mergeRecursive ('.' :: slashed parts) = '.' :: slashed (mergeParts parts) := by
  rw [mergeRecursive, mergeRecursive_slashed free last]
  intro below impossible
  exact absurd impossible (by decide)

/-! ## The anchor -/

theorem mem_anchorParts {part : Text} {parts : List Text} (h : part ∈ anchorParts parts) :
    part ∈ parts ∨ part = ['*'] := by
  rw [anchorParts.eq_def] at h
  split at h
  · exact Or.inr (List.mem_singleton.mp h)
  · exact Or.inl (List.mem_cons_of_mem [] h)
  · exact Or.inl h

theorem anchorParts_ne_nil {parts : List Text} (ne : parts ≠ []) : anchorParts parts ≠ [] := by
  rw [anchorParts.eq_def]
  split
  · exact List.cons_ne_nil ['*'] []
  · rename_i rest notAlone
    exact fun empty => notAlone (by rw [empty])
  · exact ne

theorem anchor_joinSegments {parts : List Text} (ne : parts ≠ [])
    (free : ∀ part ∈ parts, '/' ∉ part) :
    anchor (joinSegments parts) = '.' :: slashed (anchorParts parts) := by
  cases parts with
  | nil => exact absurd rfl ne
  | cons part rest =>
      cases part with
      | nil =>
          cases rest with
          | nil => rfl
          | cons next rest =>
              rw [joinSegments_cons_cons, List.nil_append, anchor, anchorParts,
                slashed_eq_slash_cons (List.cons_ne_nil next rest)]
              intro impossible
              cases impossible
      | cons c part =>
          have letter : c ≠ '/' := fun slash =>
            free (c :: part) List.mem_cons_self (slash ▸ List.mem_cons_self)
          obtain ⟨t, opening⟩ := exists_joinSegments_eq_cons c part rest
          rw [anchorParts, slashed_eq_slash_cons (List.cons_ne_nil (c :: part) rest), opening,
            anchor]
          · intro impossible
            cases impossible
          · intro below eq
            exact letter (List.cons.inj eq).1
          · intro impossible
            cases impossible
          · intro below impossible
            cases impossible

theorem dropAnchor_slashed {parts : List Text} {name : Text}
    (last : parts.getLast? = some name) (ne : name ≠ []) :
    dropAnchor ('.' :: slashed parts) = joinSegments parts := by
  have partsNe : parts ≠ [] := by
    rintro rfl
    cases last
  have written : joinSegments parts ≠ [] := by
    cases parts with
    | nil => exact absurd rfl partsNe
    | cons part rest =>
        cases rest with
        | nil =>
            cases last
            exact ne
        | cons next rest =>
            rw [joinSegments_cons_cons]
            simp
  rw [slashed_eq_slash_cons partsNe]
  cases eq : joinSegments parts with
  | nil => exact absurd eq written
  | cons c t => rfl

theorem dropInner_cons {bad part : Text} {rest : List Text} (ne : rest ≠ []) :
    dropInner bad (part :: rest) =
      if part = bad then dropInner bad rest else part :: dropInner bad rest := by
  cases rest with
  | nil => exact absurd rfl ne
  | cons next rest => rw [dropInner]

/-- The anchor makes no difference, since an empty first part says nothing. -/
theorem cleanParts_anchorParts (parts : List Text) :
    cleanParts (anchorParts parts) = cleanParts parts := by
  rw [anchorParts.eq_def]
  split
  · have star : expand true ['*'] = [['*']] := expand_of_hasNoRun true (by decide)
    have empty : expand true [] = [[]] := expand_of_hasNoRun true (by decide)
    simp only [cleanParts, dropInner, List.flatMap_singleton, star, empty]
    rfl
  · rename_i rest notAlone
    have ne : rest ≠ [] := fun empty => notAlone (by rw [empty])
    rw [cleanParts, cleanParts, dropInner_cons ne, if_neg (by decide),
      dropInner_cons (dropInner_ne_nil ne), if_pos rfl]
  · rfl

/-! ## All phases -/

theorem trimmedParts_ne_nil (pattern : Text) : (Text.split '/' pattern).map Text.trim ≠ [] :=
  fun empty => Text.split_ne_nil '/' pattern (List.map_eq_nil_iff.mp empty)

theorem no_slash_of_mem_trimmedParts {pattern part : Text}
    (h : part ∈ (Text.split '/' pattern).map Text.trim) : '/' ∉ part := by
  obtain ⟨raw, cut, rfl⟩ := List.mem_map.mp h
  intro slash
  exact Text.not_mem_of_mem_split cut ((Text.strip_sublist Text.isBlank raw).subset slash)

/-- The phases one after the other clean the list of parts. -/
theorem phases_joinSegments {parts : List Text} (ne : parts ≠ [])
    (free : ∀ part ∈ parts, '/' ∉ part) :
    dropAnchor (mergeRecursive (complete (isolate true (squeezeSlashes (dropDots
      (anchor (joinSegments parts))))))) = joinSegments (cleanParts parts) := by
  have starFree : '/' ∉ ['*'] := by decide
  have anchoredFree : ∀ part ∈ anchorParts parts, '/' ∉ part := fun part h =>
    (mem_anchorParts h).elim (free part) fun star => star ▸ starFree
  have undottedFree : ∀ part ∈ dropInner ['.'] (anchorParts parts), '/' ∉ part := fun part h =>
    anchoredFree part (dropInner_subset _ h)
  generalize kept : dropInner [] (dropInner ['.'] (anchorParts parts)) = inner
  have innerNe : inner ≠ [] :=
    kept ▸ dropInner_ne_nil (dropInner_ne_nil (anchorParts_ne_nil ne))
  have innerFree : ∀ part ∈ inner, '/' ∉ part := fun part h =>
    undottedFree part (dropInner_subset _ (kept ▸ h))
  have expandedNe := flatMap_expand_ne_nil innerNe
  have expandedFree := no_slash_of_mem_flatMap_expand innerFree
  have completedFree : ∀ part ∈ completeParts (inner.flatMap (expand true)), '/' ∉ part :=
    fun part h => (mem_completeParts h).elim (expandedFree part) fun star => star ▸ starFree
  obtain ⟨last, ends, lastNe, single⟩ := exists_getLast?_completeParts expandedNe
  have notRecursive : (completeParts (inner.flatMap (expand true))).getLast? ≠
      some Token.recursiveText := fun h => single (Option.some.inj (ends.symm.trans h))
  rw [anchor_joinSegments ne free, dropDots_slashed anchoredFree,
    squeezeSlashes_slashed undottedFree, kept, isolate_dot_slashed innerFree,
    complete_slashed expandedNe expandedFree (isolated_of_mem_flatMap_expand inner),
    mergeRecursive_dot_slashed completedFree notRecursive,
    dropAnchor_slashed ((getLast?_mergeParts _).trans ends) lastNe, ← kept]
  exact congrArg joinSegments (cleanParts_anchorParts parts)

end Clean

/-- Cleaning trims the parts between the slashes and cleans the list of them. -/
theorem clean_eq_joinSegments (pattern : Text) :
    clean pattern = joinSegments (Clean.cleanParts ((Text.split '/' pattern).map Text.trim)) := by
  rw [clean, Clean.trimParts]
  apply Clean.phases_joinSegments (Clean.trimmedParts_ne_nil pattern)
  exact fun part => Clean.no_slash_of_mem_trimmedParts

end FileSelect

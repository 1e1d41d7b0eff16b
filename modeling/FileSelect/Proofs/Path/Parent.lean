import FileSelect.Proofs.Text.Segments

/-!
# The parent of a path

The parent of a path that ends in a name has the segments in front of that name, apart
from some `.` that may be left out behind them. It is absolute when the path is.
-/

namespace FileSelect

/-! ## Paths written below a directory -/

namespace Path

theorem isAbsolute_iff {path : Text} : isAbsolute path = true ↔ path.head? = some '/' := by
  cases path with
  | nil => exact iff_of_false Bool.false_ne_true (fun h => nomatch h)
  | cons c rest =>
      by_cases slash : c = '/'
      · subst slash
        exact iff_of_true rfl rfl
      · refine iff_of_false ?_ (fun h => slash (Option.some.inj h))
        rw [isAbsolute]
        · exact Bool.false_ne_true
        · rintro rest ⟨⟩
          exact slash rfl

theorem isAbsolute_append (directory : Text) {names : List Text}
    (isName : ∀ name ∈ names, IsName name) :
    isAbsolute (append directory (joinSegments names)) = isAbsolute directory := by
  rw [append, isAbsolute_joinSegments isName, if_neg Bool.false_ne_true]
  cases directory with
  | nil => exact isAbsolute_joinSegments isName
  | cons c rest =>
      rw [Bool.eq_iff_iff, isAbsolute_iff, isAbsolute_iff]
      split <;> rfl

/-- A path below a directory does not ask for a directory by a slash at its end. -/
theorem endsWith_slash_append (directory : Text) {names : List Text} (ne : names ≠ [])
    (isName : ∀ name ∈ names, IsName name) :
    Text.endsWith ['/'] (append directory (joinSegments names)) = false := by
  rw [Bool.eq_false_iff]
  intro slash
  obtain ⟨above, eq⟩ := endsWith_slash_iff.mp slash
  obtain ⟨front, last, rfl⟩ := (List.eq_nil_or_concat' names).resolve_left ne
  have named := isName last (List.mem_append_right front List.mem_cons_self)
  have ending : ∃ before, append directory (joinSegments (front ++ [last])) = before ++ last := by
    have inner : ∃ before, joinSegments (front ++ [last]) = before ++ last := by
      cases front with
      | nil => exact ⟨[], rfl⟩
      | cons first rest =>
          refine ⟨joinSegments (first :: rest) ++ ['/'], ?_⟩
          rw [joinSegments_concat (List.cons_ne_nil first rest), List.append_assoc,
            List.singleton_append]
    obtain ⟨before, eq⟩ := inner
    rw [append, isAbsolute_joinSegments isName, if_neg Bool.false_ne_true, eq]
    split
    · exact ⟨directory ++ before, (List.append_assoc _ _ _).symm⟩
    · exact ⟨directory ++ '/' :: before, by rw [List.append_assoc, List.cons_append]⟩
  obtain ⟨before, same⟩ := ending
  have lastChar := congrArg List.getLast? (same.symm.trans eq)
  rw [List.getLast?_concat, List.getLast?_append_of_ne_nil before named.ne_nil] at lastChar
  exact named.no_slash (List.mem_of_getLast? lastChar)

end Path

/-! ## Parts of a body -/

theorem length_segments_le (path : Text) : (segments path).length ≤ path.length := by
  induction path with
  | nil => exact Nat.le_refl 0
  | cons c rest ih =>
      by_cases slash : c = '/'
      · rw [slash, segments_slash_cons, List.length_cons]
        omega
      · rw [segments, Text.split, if_neg slash]
        rw [segments] at ih
        cases parts : Text.split '/' rest with
        | nil => exact absurd parts (Text.split_ne_nil '/' rest)
        | cons part parts' =>
            rw [parts, List.filter_cons] at ih
            rw [List.filter_cons, List.isEmpty_cons, Bool.not_false, if_pos rfl, List.length_cons,
              List.length_cons]
            split at ih
            · rw [List.length_cons] at ih
              omega
            · omega

/-- Parts that are joined are read again without the empty ones. -/
theorem segments_joinSegments_of_parts {parts : List Text} (free : ∀ part ∈ parts, '/' ∉ part) :
    segments (joinSegments parts) = parts.filter fun part => !part.isEmpty := by
  cases parts with
  | nil => rfl
  | cons part rest =>
      rw [segments, joinSegments, Text.split_join (List.cons_ne_nil part rest) free]

/-- The parts in front are written in front. -/
theorem joinSegments_isPrefix_append (front more : List Text) :
    joinSegments front <+: joinSegments (front ++ more) := by
  cases front with
  | nil => exact List.nil_prefix
  | cons part front =>
      induction front generalizing part with
      | nil =>
          cases more with
          | nil => exact List.prefix_refl _
          | cons next more =>
              rw [List.singleton_append, joinSegments_cons_cons]
              exact List.prefix_append part _
      | cons next front ih =>
          rw [List.cons_append, List.cons_append, joinSegments_cons_cons, joinSegments_cons_cons]
          exact (List.prefix_append_right_inj part).mpr
            ((List.prefix_cons_inj '/').mpr (ih next))

namespace Path

/-- What is left of the parts in front of the last name. -/
def upperParts (front : List Text) : List Text := front.rdropWhile saysNothing

theorem saysNothing_iff {part : Text} : saysNothing part = true ↔ part = [] ∨ part = ['.'] := by
  rw [saysNothing, Bool.or_eq_true, List.isEmpty_iff, beq_iff_eq]

/-- The last part of a body that says something is its last segment. -/
theorem exists_split_of_segments {body name : Text} {parts : List Text}
    (read : segments body = parts ++ [name]) : ∃ front tail,
    Text.split '/' body = front ++ name :: tail ∧ (∀ part ∈ tail, part = []) ∧
      front.filter (fun part => !part.isEmpty) = parts := by
  rw [segments, List.filter_eq_append_iff] at read
  obtain ⟨front, back, eq, frontRead, backRead⟩ := read
  obtain ⟨gap, tail, rfl, gapRead, _, tailRead⟩ := List.filter_eq_cons_iff.mp backRead
  refine ⟨front ++ gap, tail, by rw [eq, List.append_assoc], fun part inside => ?_, ?_⟩
  · have kept := List.filter_eq_nil_iff.mp tailRead part inside
    rw [Bool.not_eq_true', Bool.not_eq_false] at kept
    exact List.isEmpty_iff.mp kept
  · rw [List.filter_append, frontRead, List.filter_eq_nil_iff.mpr gapRead, List.append_nil]

/-- Cutting the last name off a body. -/
theorem exists_bodyParts {body name : Text} {parts : List Text}
    (read : segments body = parts ++ [name]) (said : name ≠ ['.']) : ∃ front more,
    (bodyParts body).reverse = name :: front.reverse ∧ Text.split '/' body = front ++ more ∧
      front.filter (fun part => !part.isEmpty) = parts := by
  obtain ⟨front, tail, eq, empty, frontRead⟩ := exists_split_of_segments read
  refine ⟨front, name :: tail, ?_, eq, frontRead⟩
  have named : IsName name :=
    isName_of_mem_segments (read ▸ List.mem_append_right parts List.mem_cons_self)
  have tailSaysNothing : ∀ part ∈ tail.reverse, saysNothing part = true := fun part inside =>
    saysNothing_iff.mpr (.inl (empty part (List.mem_reverse.mp inside)))
  rw [bodyParts, List.reverse_reverse, eq, List.reverse_append, List.reverse_cons,
    List.append_assoc, List.dropWhile_append_of_pos tailSaysNothing, List.singleton_append,
    List.dropWhile_cons, if_neg]
  exact fun nothing => (saysNothing_iff.mp nothing).elim named.ne_nil said

/-- The segments in front of the last name are those of the upper parts, and some `.`. -/
theorem exists_segments_upperParts {body : Text} {front more : List Text}
    (eq : Text.split '/' body = front ++ more) : ∃ dots,
    segments (joinSegments (upperParts front)) ++ dots =
      front.filter (fun part => !part.isEmpty) ∧
      (∀ part ∈ dots, part = ['.']) ∧
      (segments (joinSegments (upperParts front))).getLast? ≠ some ['.'] := by
  have whole : upperParts front ++ front.rtakeWhile saysNothing = front :=
    List.rdropWhile_append_rtakeWhile
  have free : ∀ part ∈ upperParts front, '/' ∉ part := by
    intro part inside
    apply Text.not_mem_of_mem_split (t := body)
    rw [eq, ← whole]
    exact List.mem_append_left _ (List.mem_append_left _ inside)
  rw [segments_joinSegments_of_parts free]
  refine ⟨(front.rtakeWhile saysNothing).filter fun part => !part.isEmpty, ?_, ?_, ?_⟩
  · rw [← List.filter_append, whole]
  · intro part inside
    obtain ⟨inside, kept⟩ := List.mem_filter.mp inside
    refine (saysNothing_iff.mp (List.mem_rtakeWhile_imp inside)).resolve_left ?_
    rintro rfl
    cases kept
  · rcases List.eq_nil_or_concat' (upperParts front) with none | ⟨above, last, upperEq⟩
    · rw [none]
      exact fun h => nomatch h
    · have said : ¬saysNothing last = true := by
        have ne : upperParts front ≠ [] := upperEq ▸ List.concat_ne_nil last above
        have final : (upperParts front).getLast ne = last := by
          rw [List.getLast_congr ne (List.concat_ne_nil last above) upperEq, List.getLast_concat]
        exact final ▸ List.rdropWhile_last_not saysNothing front ne
      rw [saysNothing_iff, not_or] at said
      rw [upperEq, List.filter_append, List.filter_singleton,
        List.isEmpty_eq_false_iff.mpr said.1, Bool.not_false, cond_true, List.getLast?_concat]
      exact fun same => said.2 (Option.some.inj same)

/-- What is written of a body in front of its last name is the beginning of the body. -/
theorem joinSegments_upperParts_isPrefix {body : Text} {front more : List Text}
    (eq : Text.split '/' body = front ++ more) : joinSegments (upperParts front) <+: body := by
  have whole : upperParts front ++ (front.rtakeWhile saysNothing ++ more) =
      Text.split '/' body := by
    rw [← List.append_assoc, eq]
    exact congrArg (· ++ more) (List.rdropWhile_append_rtakeWhile)
  have start :=
    joinSegments_isPrefix_append (upperParts front) (front.rtakeWhile saysNothing ++ more)
  have body_eq : joinSegments (Text.split '/' body) = body := Text.join_split '/' body
  rwa [whole, body_eq] at start

/-- What is written of a relative body is relative. -/
theorem isAbsolute_upperParts {body : Text} {front more : List Text}
    (relative : isAbsolute body = false) (eq : Text.split '/' body = front ++ more) :
    isAbsolute (joinSegments (upperParts front)) = isAbsolute body := by
  rw [relative, Bool.eq_false_iff]
  intro absolute
  obtain ⟨more, rest⟩ := joinSegments_upperParts_isPrefix eq
  rw [Bool.eq_false_iff] at relative
  apply relative
  rw [isAbsolute_iff] at absolute ⊢
  rw [← rest, List.head?_append, absolute]
  rfl

theorem parent?_eq {path opening body name : Text} {front : List Text}
    (opened : splitOpening path = (opening, body))
    (cut : (bodyParts body).reverse = name :: front.reverse) :
    parent? path = some (opening ++ joinSegments (upperParts front)) := by
  rw [parent?, opened]
  dsimp only
  rw [cut]
  rfl

/-- The opening of a path and the segments behind it. -/
theorem splitOpening_cases (path : Text) :
    (∃ body, splitOpening path = (['/'], body) ∧ path = '/' :: body) ∨
    path = ['.'] ∨
    (∃ rest, splitOpening path = (['.'], '/' :: rest) ∧ path = '.' :: '/' :: rest) ∨
    (splitOpening path = ([], path) ∧ isAbsolute path = false) := by
  unfold splitOpening
  split
  case h_1 body => exact .inl ⟨body, rfl, rfl⟩
  case h_2 => exact .inr (.inl rfl)
  case h_3 rest => exact .inr (.inr (.inl ⟨rest, rfl, rfl⟩))
  case h_4 absolute _ _ =>
    refine .inr (.inr (.inr ⟨rfl, ?_⟩))
    rw [isAbsolute]
    exact absolute

/-- A `.` in front of a slash is a part of its own. -/
theorem segments_dot_cons {t rest : Text} (start : t <+: '/' :: rest) :
    segments ('.' :: t) = ['.'] :: segments t := by
  obtain ⟨more, eq⟩ := start
  cases t with
  | nil => rfl
  | cons c t =>
      cases eq
      rw [segments_slash_cons]
      exact segments_append_slash ['.'] t

/-- The parent of a path that ends in a name. -/
theorem exists_parent {path name : Text} {parts : List Text}
    (read : segments path = parts ++ [name]) (said : name ≠ ['.']) : ∃ above dots,
    parent? path = some above ∧ isAbsolute above = isAbsolute path ∧
      segments above ++ dots = parts ∧ (∀ part ∈ dots, part = ['.']) ∧
      ((segments above).getLast? ≠ some ['.'] ∨ segments above = [['.']]) := by
  rcases splitOpening_cases path with
    ⟨body, opened, rfl⟩ | rfl | ⟨rest, opened, rfl⟩ | ⟨opened, relative⟩
  · rw [segments_slash_cons] at read
    obtain ⟨front, more, cut, eq, frontRead⟩ := exists_bodyParts read said
    obtain ⟨dots, partsEq, dotted, last⟩ := exists_segments_upperParts eq
    refine ⟨_, dots, parent?_eq opened cut, rfl, ?_, dotted, .inl ?_⟩
    · rw [List.singleton_append, segments_slash_cons, partsEq, frontRead]
    · rwa [List.singleton_append, segments_slash_cons]
  · obtain ⟨_, same⟩ := List.append_inj' (read.symm.trans (rfl : _ = [] ++ [['.']])) rfl
    exact absurd (List.cons.inj same).1 said
  · have whole := segments_dot_cons (List.prefix_refl ('/' :: rest))
    rw [whole] at read
    -- The `.` in front is a part of its own, unless nothing is left behind it.
    obtain ⟨parts, rfl⟩ : ∃ inner, parts = ['.'] :: inner := by
      cases parts with
      | nil => exact absurd (List.cons.inj read).1.symm said
      | cons first inner => exact ⟨inner, by rw [(List.cons.inj read).1]⟩
    obtain ⟨front, more, cut, eq, frontRead⟩ := exists_bodyParts (List.cons.inj read).2 said
    obtain ⟨dots, partsEq, dotted, last⟩ := exists_segments_upperParts eq
    have upper := segments_dot_cons (joinSegments_upperParts_isPrefix eq)
    refine ⟨_, dots, parent?_eq opened cut, rfl, ?_, dotted, ?_⟩
    · rw [List.singleton_append, upper, List.cons_append, partsEq, frontRead]
    · rw [List.singleton_append, upper]
      cases segs : segments (joinSegments (upperParts front)) with
      | nil => exact .inr rfl
      | cons first others =>
          rw [segs] at last
          exact .inl (by rwa [List.getLast?_cons_cons])
  · obtain ⟨front, more, cut, eq, frontRead⟩ := exists_bodyParts read said
    obtain ⟨dots, partsEq, dotted, last⟩ := exists_segments_upperParts eq
    refine ⟨_, dots, parent?_eq opened cut, ?_, partsEq.trans frontRead, dotted, .inl last⟩
    exact isAbsolute_upperParts relative eq

theorem segments_upperParts_isPrefix {body : Text} {front more : List Text}
    (eq : Text.split '/' body = front ++ more) :
    segments (joinSegments (upperParts front)) <+: segments body := by
  obtain ⟨dots, whole, _⟩ := exists_segments_upperParts eq
  refine ⟨dots ++ more.filter fun part => !part.isEmpty, ?_⟩
  rw [← List.append_assoc, whole, segments, eq, List.filter_append]

/-- A parent is the opening of the path and the upper parts of the body. -/
theorem exists_of_parent? {path opening body up : Text}
    (opened : splitOpening path = (opening, body)) (parent : parent? path = some up) :
    (∃ front more, Text.split '/' body = front ++ more ∧
      up = opening ++ joinSegments (upperParts front)) ∨ up = [] ∧ opening = ['.'] := by
  rw [parent?, opened] at parent
  dsimp only at parent
  split at parent
  case h_1 last above cut =>
    cases parent
    have front : bodyParts body = above.reverse ++ [last] := by
      rw [← List.reverse_reverse (bodyParts body), cut, List.reverse_cons]
    have whole : bodyParts body ++ (Text.split '/' body).rtakeWhile saysNothing =
        Text.split '/' body := List.rdropWhile_append_rtakeWhile
    rw [front, List.append_assoc] at whole
    refine .inl ⟨_, _, whole.symm, ?_⟩
    rw [upperParts, List.rdropWhile, List.reverse_reverse]
  case h_2 =>
    split at parent
    case isTrue dot =>
      cases parent
      exact .inr ⟨rfl, dot⟩
    case isFalse => cases parent

/-- Every parent says a beginning of its path. -/
theorem segments_isPrefix_of_parent? {path up : Text} (parent : parent? path = some up) :
    segments up <+: segments path ∧ isAbsolute up = isAbsolute path := by
  rcases splitOpening_cases path with
    ⟨body, opened, rfl⟩ | rfl | ⟨rest, opened, rfl⟩ | ⟨opened, relative⟩
  · obtain ⟨front, more, eq, rfl⟩ | ⟨_, same⟩ := exists_of_parent? opened parent
    · rw [List.singleton_append, segments_slash_cons, segments_slash_cons]
      exact ⟨segments_upperParts_isPrefix eq, rfl⟩
    · cases same
  · cases parent
    exact ⟨List.nil_prefix, rfl⟩
  · obtain ⟨front, more, eq, rfl⟩ | ⟨rfl, _⟩ := exists_of_parent? opened parent
    · rw [List.singleton_append, segments_dot_cons (joinSegments_upperParts_isPrefix eq),
        segments_dot_cons (List.prefix_refl ('/' :: rest))]
      exact ⟨(List.prefix_cons_inj _).mpr (segments_upperParts_isPrefix eq), rfl⟩
    · exact ⟨List.nil_prefix, rfl⟩
  · obtain ⟨front, more, eq, rfl⟩ | ⟨_, same⟩ := exists_of_parent? opened parent
    · rw [List.nil_append]
      exact ⟨segments_upperParts_isPrefix eq, isAbsolute_upperParts relative eq⟩
    · cases same

/-- The last component of a path is a part between slashes and leads not upwards. -/
theorem isName_of_fileName? {path name : Text} (last : fileName? path = some name) :
    IsName name ∧ name ≠ ['.', '.'] := by
  rw [fileName?] at last
  split at last
  case h_2 => cases last
  case h_1 t ends =>
    cases last
    have inside := List.mem_of_getLast? ends
    rw [components] at inside
    rcases List.mem_append.mp inside with opening | inside
    · split_ifs at opening <;> simp at opening
    · obtain ⟨part, kept, same⟩ := List.mem_map.mp inside
      split_ifs at same with upward
      cases same
      obtain ⟨part, said⟩ := List.mem_filter.mp kept
      have cut : name ∈ Text.split '/' (splitOpening path).2 := by
        have part := List.mem_reverse.mp part
        exact List.mem_reverse.mp ((List.dropWhile_sublist _).subset part)
      refine ⟨⟨?_, Text.not_mem_of_mem_split cut⟩, upward⟩
      rintro rfl
      cases said

end Path

end FileSelect

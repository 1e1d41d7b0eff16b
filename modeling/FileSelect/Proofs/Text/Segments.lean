import FileSelect.Path.Basic
import FileSelect.Proofs.Text.Cutting

/-!
# Names and the segments of a path

A name is a text that can stand between two slashes. The segments of a path are names,
and every list of names is the list of segments of the path that joins them. Slashes
only separate: an additional one, anywhere, leaves the segments as they are.
-/

namespace FileSelect

/-- A text that can stand between two slashes. -/
structure IsName (t : Text) : Prop where
  ne_nil : t ≠ []
  no_slash : '/' ∉ t

instance (t : Text) : Decidable (IsName t) :=
  decidable_of_iff (t ≠ [] ∧ '/' ∉ t) ⟨fun h => ⟨h.1, h.2⟩, fun h => ⟨h.ne_nil, h.no_slash⟩⟩

/-- A name that an entry of a directory can have: `.` and `..` are taken. -/
structure IsEntryName (t : Text) : Prop extends IsName t where
  here_ne : t ≠ ['.']
  up_ne : t ≠ ['.', '.']

instance (t : Text) : Decidable (IsEntryName t) :=
  decidable_of_iff (IsName t ∧ t ≠ ['.'] ∧ t ≠ ['.', '.'])
    ⟨fun h => ⟨h.1, h.2.1, h.2.2⟩, fun h => ⟨h.toIsName, h.here_ne, h.up_ne⟩⟩

/-! ## Segments -/

@[simp] theorem segments_nil : segments [] = [] := rfl

/-- A slash cuts a path in two that are read on their own. -/
theorem segments_append_slash (above below : Text) :
    segments (above ++ '/' :: below) = segments above ++ segments below := by
  rw [segments, Text.split_append_cons, List.filter_append]
  rfl

@[simp] theorem segments_slash_cons (path : Text) : segments ('/' :: path) = segments path :=
  segments_append_slash [] path

@[simp] theorem segments_concat_slash (path : Text) : segments (path ++ ['/']) = segments path := by
  rw [segments_append_slash, segments_nil, List.append_nil]

theorem segments_of_isName {t : Text} (name : IsName t) : segments t = [t] := by
  rw [segments, Text.split_of_not_mem name.no_slash, List.filter_singleton,
    List.isEmpty_eq_false_iff.mpr name.ne_nil]
  rfl

theorem isName_of_mem_segments {path part : Text} (h : part ∈ segments path) : IsName part := by
  obtain ⟨cut, kept⟩ := List.mem_filter.mp h
  refine ⟨?_, Text.not_mem_of_mem_split cut⟩
  rintro rfl
  cases kept

theorem segments_dropWhile_slash (path : Text) :
    segments (path.dropWhile isSlash) = segments path := by
  induction path with
  | nil => rfl
  | cons c rest ih =>
      rw [List.dropWhile_cons]
      by_cases slash : c = '/'
      · rw [slash, segments_slash_cons, ← ih]
        rfl
      · rw [isSlash, if_neg (fun h => slash (beq_iff_eq.mp h))]

theorem segments_rdropWhile_slash (path : Text) :
    segments (path.rdropWhile isSlash) = segments path := by
  induction path using List.reverseRecOn with
  | nil => rfl
  | append_singleton rest c ih =>
      rw [List.rdropWhile_concat]
      by_cases slash : c = '/'
      · rw [slash, segments_concat_slash, ← ih]
        rfl
      · rw [isSlash, if_neg (fun h => slash (beq_iff_eq.mp h))]

@[simp] theorem segments_strip (path : Text) :
    segments (Text.strip isSlash path) = segments path := by
  rw [Text.strip_eq_rdropWhile, segments_rdropWhile_slash, segments_dropWhile_slash]

/-! ## Joining -/

theorem joinSegments_cons_cons (name next : Text) (rest : List Text) :
    joinSegments (name :: next :: rest) = name ++ '/' :: joinSegments (next :: rest) := by
  rw [joinSegments, Text.join, List.append_assoc]
  rfl

/-- A path opens with the first character of its first name. -/
theorem exists_joinSegments_eq_cons (c : Char) (name : Text) (rest : List Text) :
    ∃ t, joinSegments ((c :: name) :: rest) = c :: t := by
  cases rest with
  | nil => exact ⟨name, rfl⟩
  | cons next rest => exact ⟨_, joinSegments_cons_cons (c :: name) next rest⟩

theorem joinSegments_concat {parts : List Text} (ne : parts ≠ []) (name : Text) :
    joinSegments (parts ++ [name]) = joinSegments parts ++ '/' :: name := by
  induction parts with
  | nil => exact absurd rfl ne
  | cons part rest ih =>
      cases rest with
      | nil => exact joinSegments_cons_cons part name []
      | cons next rest =>
          rw [List.cons_append, List.cons_append, joinSegments_cons_cons, joinSegments_cons_cons,
            ← List.cons_append, ih (List.cons_ne_nil next rest), List.append_assoc]
          rfl

theorem segments_joinSegments {names : List Text} (isName : ∀ name ∈ names, IsName name) :
    segments (joinSegments names) = names := by
  cases names with
  | nil => rfl
  | cons name rest =>
      rw [segments, joinSegments, Text.split_join (List.cons_ne_nil name rest)
        (fun part h => (isName part h).no_slash), List.filter_eq_self]
      intro part h
      rw [List.isEmpty_eq_false_iff.mpr (isName part h).ne_nil]
      rfl

/-- Different lists of names are written differently. -/
theorem joinSegments_injective {left right : List Text}
    (leftNames : ∀ name ∈ left, IsName name) (rightNames : ∀ name ∈ right, IsName name)
    (same : joinSegments left = joinSegments right) : left = right := by
  rw [← segments_joinSegments leftNames, same, segments_joinSegments rightNames]

theorem isAbsolute_joinSegments {names : List Text} (isName : ∀ name ∈ names, IsName name) :
    Path.isAbsolute (joinSegments names) = false := by
  cases names with
  | nil => rfl
  | cons name rest =>
      have named := isName name List.mem_cons_self
      cases name with
      | nil => exact absurd rfl named.ne_nil
      | cons c name =>
          have letter : '/' ≠ c := fun slash => named.no_slash (slash ▸ List.mem_cons_self)
          obtain ⟨tail, opening⟩ := exists_joinSegments_eq_cons c name rest
          rw [opening, Path.isAbsolute]
          rintro _ ⟨⟩
          exact letter rfl

theorem endsWith_slash_iff {path : Text} :
    Text.endsWith ['/'] path = true ↔ ∃ above, path = above ++ ['/'] := by
  rw [Text.endsWith, List.isSuffixOf_iff_suffix]
  exact ⟨fun ⟨above, eq⟩ => ⟨above, eq.symm⟩, fun ⟨above, eq⟩ => ⟨above, eq.symm⟩⟩

/-- Below a directory that is written in any way, names add themselves as segments. -/
theorem segments_append_joinSegments (directory : Text) {names : List Text}
    (isName : ∀ name ∈ names, IsName name) :
    segments (Path.append directory (joinSegments names)) = segments directory ++ names := by
  have below := segments_joinSegments isName
  rw [Path.append, isAbsolute_joinSegments isName, if_neg Bool.false_ne_true]
  split
  case isTrue endsOpen =>
    rcases Bool.or_eq_true_iff.mp endsOpen with empty | slash
    · rw [List.isEmpty_iff.mp empty, List.nil_append, below]
      rfl
    · obtain ⟨above, rfl⟩ := endsWith_slash_iff.mp slash
      rw [List.append_assoc, List.singleton_append, segments_append_slash, below,
        segments_concat_slash]
  case isFalse =>
    rw [segments_append_slash, below]

theorem append_joinSegments_ne_nil (directory : Text) {names : List Text} (ne : names ≠ [])
    (isName : ∀ name ∈ names, IsName name) : Path.append directory (joinSegments names) ≠ [] := by
  intro empty
  have none := segments_append_joinSegments directory isName
  rw [empty, segments_nil] at none
  exact ne (List.append_eq_nil_iff.mp none.symm).2

end FileSelect

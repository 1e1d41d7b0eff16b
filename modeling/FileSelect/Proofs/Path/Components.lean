import FileSelect.Proofs.Path.Parent

/-!
# The components of a path

Behind its opening the components of a path are its segments, without those that are `.`. So
the last segment of a path is its last component when it is a name, and a doubled slash says no
more than a single one.
-/

namespace FileSelect.Path

/-- The component that a segment stands for. -/
def segmentComponent (segment : Text) : Component :=
  if segment = ['.', '.'] then .up else .name segment

/-- The component that opens a path, if it opens with one of its own. -/
def openingComponents (opening : Text) : List Component :=
  if opening = ['/'] then [.root] else if opening = ['.'] then [.here] else []

/-- The parts of a body that say something are its segments other than `.`. -/
theorem filter_bodyParts (body : Text) : (bodyParts body).filter (fun part => !saysNothing part) =
    (segments body).filter (· != ['.']) := by
  have whole : bodyParts body ++ (Text.split '/' body).rtakeWhile saysNothing =
      Text.split '/' body := List.rdropWhile_append_rtakeWhile
  have silent : ((Text.split '/' body).rtakeWhile saysNothing).filter
      (fun part => !saysNothing part) = [] := by
    rw [List.filter_eq_nil_iff]
    intro part inside said
    rw [List.mem_rtakeWhile_imp inside] at said
    cases said
  calc (bodyParts body).filter (fun part => !saysNothing part)
      = (Text.split '/' body).filter fun part => !saysNothing part := by
        rw [← whole, List.filter_append, silent, List.append_nil]
    _ = (segments body).filter (· != ['.']) := by
        rw [segments, List.filter_filter]
        refine List.filter_congr fun part _ => ?_
        rw [saysNothing, Bool.not_or, Bool.and_comm]
        rfl

theorem components_eq (path : Text) : components path =
    openingComponents (splitOpening path).1 ++
      ((segments path).filter (· != ['.'])).map segmentComponent := by
  have body : (segments (splitOpening path).2).filter (· != ['.']) =
      (segments path).filter (· != ['.']) := by
    rcases splitOpening_cases path with
      ⟨body, opened, rfl⟩ | rfl | ⟨rest, opened, rfl⟩ | ⟨opened, _⟩
    · rw [opened, segments_slash_cons]
    · rfl
    · rw [opened, segments_dot_cons (List.prefix_refl ('/' :: rest))]
      rfl
    · rw [opened]
  rw [← body, ← filter_bodyParts]
  rfl

/-- A path that ends in a name has it as its last component. -/
theorem fileName?_of_segments {path name : Text} {parts : List Text}
    (read : segments path = parts ++ [name]) (said : name ≠ ['.']) (down : name ≠ ['.', '.']) :
    fileName? path = some name := by
  have kept : [name].filter (· != ['.']) = [name] := by simp [said]
  rw [fileName?, components_eq, read, List.filter_append, kept, List.map_append, List.map_singleton,
    ← List.append_assoc, List.getLast?_concat, segmentComponent, if_neg down]

/-! ## Doubled slashes -/

section Doubled

variable {front : Text} (ne : front ≠ [])

include ne

/-- What a path opens with is decided in front of its second slash. -/
theorem splitOpening_append (below other : Text) :
    (splitOpening (front ++ '/' :: below)).1 = (splitOpening (front ++ '/' :: other)).1 := by
  obtain ⟨first, rest, rfl⟩ := List.exists_cons_of_ne_nil ne
  by_cases slash : first = '/'
  · rw [slash]
    rfl
  by_cases dot : first = '.'
  · rw [dot]
    cases rest with
    | nil => rfl
    | cons second rest =>
        by_cases slash : second = '/'
        · rw [slash]
          rfl
        · simp [splitOpening, slash]
  · simp [splitOpening, slash, dot]

theorem components_doubled (below : Text) :
    components (front ++ '/' :: '/' :: below) = components (front ++ '/' :: below) := by
  rw [components_eq, components_eq, splitOpening_append ne ('/' :: below) below,
    segments_append_slash, segments_append_slash, segments_slash_cons]

end Doubled

end FileSelect.Path

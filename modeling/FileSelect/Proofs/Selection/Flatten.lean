import FileSelect.Proofs.Disk.Below
import FileSelect.Proofs.Path.Components
import FileSelect.Proofs.Selection.Collision
import FileSelect.Proofs.Selection.Runs

/-!
# Flattening

A flattened member has the last name of its relative path behind the slash; what stood in front
of it has gone to the anchor. The path is written as before, apart from a slash that was doubled
in front of that name, so it has the same components and leads to the same place on every disk.
No two members fall together, since their places stay, and a second flattening finds nothing
left to move.
-/

namespace FileSelect

/-! ## One slash for two -/

theorem endsWith_slash_of_isName (front : Text) {name : Text} (named : IsName name) :
    Text.endsWith ['/'] (front ++ name) = false := by
  rw [Bool.eq_false_iff]
  intro slash
  obtain ⟨above, eq⟩ := endsWith_slash_iff.mp slash
  have last := congrArg List.getLast? eq
  rw [List.getLast?_concat, List.getLast?_append_of_ne_nil front named.ne_nil] at last
  exact named.no_slash (List.mem_of_getLast? last)

theorem Step.ofPath_doubled (front : Text) {name : Text} (named : IsName name) :
    ofPath (front ++ '/' :: '/' :: name) = ofPath (front ++ '/' :: name) := by
  have ends (middle : Text) : Text.endsWith ['/'] (front ++ (middle ++ name)) = false := by
    rw [← List.append_assoc]
    exact endsWith_slash_of_isName (front ++ middle) named
  have double : Text.endsWith ['/'] (front ++ '/' :: '/' :: name) = false := ends ['/', '/']
  have single : Text.endsWith ['/'] (front ++ '/' :: name) = false := ends ['/']
  rw [ofPath, ofPath, double, single, segments_append_slash, segments_append_slash,
    segments_slash_cons]

theorem Disk.resolve_doubled (d : Disk) (last : LastName) {front name : Text} (ne : front ≠ [])
    (named : IsName name) :
    d.resolve last (front ++ '/' :: '/' :: name) = d.resolve last (front ++ '/' :: name) := by
  have start : d.startOf (front ++ '/' :: '/' :: name) = d.startOf (front ++ '/' :: name) := by
    obtain ⟨c, rest, rfl⟩ := List.exists_cons_of_ne_nil ne
    have absolute : Path.isAbsolute (c :: rest ++ '/' :: '/' :: name) =
        Path.isAbsolute (c :: rest ++ '/' :: name) := by
      rw [Bool.eq_iff_iff, Path.isAbsolute_iff, Path.isAbsolute_iff]
      rfl
    rw [startOf, startOf, startFrom, startFrom, absolute]
  rw [resolve_eq (List.append_ne_nil_of_left_ne_nil ne _),
    resolve_eq (List.append_ne_nil_of_left_ne_nil ne _), start, Step.ofPath_doubled front named]

/-- What is written behind a relative path stands behind it wherever it is appended. -/
theorem Path.append_text (directory : Text) {relative : Text} (ne : relative ≠ [])
    (below : isAbsolute relative = false) (rest : Text) :
    append directory (relative ++ rest) = append directory relative ++ rest := by
  have same : isAbsolute (relative ++ rest) = isAbsolute relative := by
    obtain ⟨c, tail, rfl⟩ := List.exists_cons_of_ne_nil ne
    rw [Bool.eq_iff_iff, isAbsolute_iff, isAbsolute_iff]
    rfl
  rw [append, append, same, below, if_neg Bool.false_ne_true, if_neg Bool.false_ne_true]
  split
  · rw [List.append_assoc]
  · rw [List.append_assoc, List.cons_append]

namespace Member

variable {m : Member}

/-! ## Flattened members -/

/-- The relative path is cut behind a first part and in front of a name. -/
theorem IsTrimmed.of_cut {above name : Text} (trimmed : m.IsTrimmed)
    (cut : Text.splitLast? '/' m.relative = some (above, name)) :
    m.relative = above ++ '/' :: name ∧ above ≠ [] ∧ Path.isAbsolute above = false ∧
      IsName name := by
  obtain ⟨eq, free⟩ := Text.splitLast?_eq_some_iff.mp cut
  have first := trimmed.head_ne
  have last := trimmed.last_ne
  rw [eq] at first last
  have ne : above ≠ [] := by
    rintro rfl
    exact first rfl
  refine ⟨eq, ne, ?_, ?_, free⟩
  · obtain ⟨c, rest, rfl⟩ := List.exists_cons_of_ne_nil ne
    rw [Bool.eq_false_iff, Ne, Path.isAbsolute_iff]
    exact first
  · rintro rfl
    exact last List.getLast?_concat

theorem relative_flattened (m : Member) : m.flattened.relative = m.name := by
  rw [flattened, name]
  cases Text.splitLast? '/' m.relative <;> rfl

theorem no_slash_flattened (m : Member) : '/' ∉ m.flattened.relative := by
  rw [flattened]
  split
  case h_1 above name cut => exact (Text.splitLast?_eq_some_iff.mp cut).2
  case h_2 cut => exact Text.splitLast?_eq_none_iff.mp cut

theorem flattened_flattened (m : Member) : m.flattened.flattened = m.flattened := by
  rw [flattened, Text.splitLast?_eq_none_iff.mpr m.no_slash_flattened]

/-- The path is the same text, or a slash doubled in front of the last name is written once. -/
theorem IsTrimmed.path_flattened (trimmed : m.IsTrimmed) : m.flattened.path = m.path ∨
    ∃ front name, front ≠ [] ∧ IsName name ∧ m.path = front ++ '/' :: '/' :: name ∧
      m.flattened.path = front ++ '/' :: name := by
  rw [Member.flattened]
  split
  case h_2 => exact .inl rfl
  case h_1 above name cut =>
    obtain ⟨eq, ne, below, named⟩ := trimmed.of_cut cut
    have whole : m.path = Path.append m.anchor above ++ '/' :: name := by
      rw [path, eq, Path.append_text m.anchor ne below]
    have relative : Path.isAbsolute name = false :=
      isAbsolute_joinSegments (List.forall_mem_singleton.mpr named)
    have filled : (Path.append m.anchor above).isEmpty = false := by
      rw [List.isEmpty_eq_false_iff, Path.append, below, if_neg Bool.false_ne_true]
      split
      · exact List.append_ne_nil_of_right_ne_nil m.anchor ne
      · exact List.append_ne_nil_of_right_ne_nil m.anchor (List.cons_ne_nil _ _)
    have flat : Path.append (Path.append m.anchor above) name =
        if Text.endsWith ['/'] (Path.append m.anchor above) then
          Path.append m.anchor above ++ name
        else Path.append m.anchor above ++ '/' :: name := by
      rw [Path.append, relative, filled, if_neg Bool.false_ne_true, Bool.false_or]
    rw [path, flat]
    split
    case isFalse => exact .inl whole.symm
    case isTrue slash =>
      obtain ⟨front, ending⟩ := endsWith_slash_iff.mp slash
      refine .inr ⟨front, name, ?_, named, ?_, ?_⟩
      · -- A lone slash would be all of the anchor, or begin the relative path.
        rintro rfl
        rw [Path.append, below, if_neg Bool.false_ne_true] at ending
        split at ending
        · rcases List.append_eq_singleton_iff.mp ending with ⟨_, rfl⟩ | ⟨_, rfl⟩
          · cases below
          · exact ne rfl
        · rcases List.append_eq_singleton_iff.mp ending with ⟨_, same⟩ | ⟨_, same⟩
          · exact ne (List.cons.inj same).2
          · cases same
      · rw [whole, ending, List.append_assoc, List.singleton_append]
      · rw [ending, List.append_assoc, List.singleton_append]

theorem IsTrimmed.components_flattened (trimmed : m.IsTrimmed) :
    Path.components m.flattened.path = Path.components m.path := by
  rcases trimmed.path_flattened with same | ⟨front, name, ne, _, old, new⟩
  · rw [same]
  · rw [old, new, Path.components_doubled ne]

theorem IsTrimmed.resolve_flattened (trimmed : m.IsTrimmed) (d : Disk) (last : LastName) :
    d.resolve last m.flattened.path = d.resolve last m.path := by
  rcases trimmed.path_flattened with same | ⟨front, name, ne, named, old, new⟩
  · rw [same]
  · rw [old, new, d.resolve_doubled last ne named]

end Member

/-! ## Flattened selections -/

namespace Selection

variable {s : Selection}

theorem flatten_flatten (s : Selection) : s.flatten.flatten = s.flatten := by
  have members : s.flatten.flatten.members = s.flatten.members := by
    rw [flatten, flatten, List.map_map]
    exact List.map_congr_left fun m _ => m.flattened_flattened
  exact congrArg (Selection.mk · s.settings) members

/-- Gathered into a set of their own, the flattened members are all taken. -/
theorem extend_map_flattened (distinct : s.places.Nodup) :
    (empty s.settings).extend (s.members.map Member.flattened) = s.flatten := by
  rw [← s.places_flatten] at distinct
  exact (empty s.settings).extend_of_distinct distinct fun _ _ => List.not_mem_nil

/-- Flattening loses no member and changes no place. Every member is then called by its name
alone, below an anchor from which the same components lead to the same place, and flattening
once more changes nothing. -/
theorem flatten_keeps_members (reachable : s.Reachable) :
    (empty s.settings).extend (s.members.map Member.flattened) = s.flatten ∧
    s.flatten.places = s.places ∧
    (∀ m ∈ s.members, '/' ∉ m.flattened.relative ∧ m.flattened.relative = m.name ∧
      Path.components (Path.append m.flattened.anchor m.flattened.relative) =
        Path.components (Path.append m.anchor m.relative) ∧
      ∀ (d : Disk) (last : LastName), d.resolve last m.flattened.path = d.resolve last m.path) ∧
    s.flatten.flatten = s.flatten := by
  have proper := reachable.isProper
  refine ⟨extend_map_flattened proper.distinct, s.places_flatten, fun m inside => ?_,
    s.flatten_flatten⟩
  have trimmed := proper.trimmed m inside
  exact ⟨m.no_slash_flattened, m.relative_flattened, trimmed.components_flattened,
    trimmed.resolve_flattened⟩

/-- Both files, over a slash that is doubled and over a step upwards. -/
def nestedTwins : Selection :=
  (((empty .standard).addPath twins "/" "a//f").1.addPath twins "/a" "../b/f").1

/-- Both are called by the same name afterwards, and both are still there. -/
theorem flatten_keeps_members_twins :
    nestedTwins.Reachable ∧
      nestedTwins.flatten.members =
        [⟨"/a/", "f", ["a", "f"]⟩, ⟨"/a/../b", "f", ["b", "f"]⟩] ∧
      (empty .standard).extend (nestedTwins.members.map Member.flattened) = nestedTwins.flatten ∧
      nestedTwins.flatten.places = nestedTwins.places ∧
      (∀ d : Disk, d.resolve .follow "/a/f" = d.resolve .follow "/a//f") ∧
      nestedTwins.flatten.flatten = nestedTwins.flatten := by
  have reachable : nestedTwins.Reachable :=
    .addPath twins "/a" "../b/f" (.addPath twins "/" "a//f" (.new .standard))
  have first : ⟨"/", "a//f", ["a", "f"]⟩ ∈ nestedTwins.members := by decide +kernel
  obtain ⟨gathered, places, each, twice⟩ := flatten_keeps_members reachable
  exact ⟨reachable, by decide +kernel, gathered, places,
    fun d => (each _ first).2.2.2 d .follow, twice⟩

end Selection

end FileSelect

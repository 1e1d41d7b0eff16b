import FileSelect.Proofs.Disk.Below

/-!
# Writing files

A file is written at one place, which is in a directory and no directory itself. Below a
directory that a path leads to, it is the place that the names behind the path say.
-/

namespace FileSelect

/-- Steps that only enter what can be the name of an entry. -/
def Step.IsProper (steps : List Step) : Prop := ∀ name, .enter name ∈ steps → IsEntryName name

theorem Step.isProper_ofPath (path : Text) : IsProper (ofPath path) := by
  intro name inside
  rw [ofPath, List.mem_append] at inside
  rcases inside with inside | inside
  · obtain ⟨part, partIn, eq⟩ := List.mem_map.mp inside
    rw [ofSegment] at eq
    split at eq
    · cases eq
    split at eq
    · cases eq
    case isFalse here up =>
      cases eq
      exact ⟨isName_of_mem_segments partIn, here, up⟩
  · split at inside
    · cases List.mem_singleton.mp inside
    · cases inside

namespace Disk

variable {d : Disk}

/-! ## The place that is written -/

/-- Where nothing stands at the end of a path, there is a directory above. -/
theorem Leads.exists_slot (wf : d.WellFormed) {last : LastName} {budget : Nat}
    {here place : Place} {steps : List Step} (leads : Leads d last budget here steps place)
    (proper : Step.IsProper steps) (start : d.find? here ≠ none ∨ steps ≠ [])
    (free : d.find? place = none) : ∃ above name,
    place = above ++ [name] ∧ IsEntryName name ∧ d.find? above = some .directory := by
  have rest_proper : ∀ {step : Step} {rest : List Step}, Step.IsProper (step :: rest) →
      Step.IsProper rest := fun proper name inside => proper name (List.mem_cons_of_mem _ inside)
  have present : ∀ {place : Place} {node : Node}, d.find? place = some node →
      d.find? place ≠ none := fun found none => by rw [found] at none; cases none
  induction leads with
  | done => exact (start.elim (fun there => there free) fun ne => ne rfl).elim
  | stay stands _ ih => exact ih (rest_proper proper) (.inl (present stands)) free
  | @up budget here place rest stands _ ih =>
      refine ih (rest_proper proper) (.inl ?_) free
      by_cases top : here = []
      · rw [top]
        exact present rfl
      · exact present (wf.find?_dropLast stands top)
  | enter _ found _ _ ih => exact ih (rest_proper proper) (.inl (present found)) free
  | free stands _ _ => exact ⟨_, _, rfl, proper _ List.mem_cons_self, stands⟩
  | keep _ found _ => exact (present found free).elim
  | @link budget here place name target rest stands _ _ _ _ ih =>
      refine ih ?_ (.inl ?_) free
      · intro other inside
        exact (List.mem_append.mp inside).elim (Step.isProper_ofPath target other)
          (rest_proper proper other)
      · rw [startFrom]
        split
        · exact present rfl
        · exact present stands

theorem exists_slot_of_resolve (wf : d.WellFormed) {path : Text} {place : Place}
    {last : LastName} (led : d.resolve last path = .ok place) (free : d.find? place = none) :
    ∃ above name, place = above ++ [name] ∧ IsEntryName name ∧
      d.find? above = some .directory := by
  have ne := ne_nil_of_resolve led
  rw [resolve_eq ne] at led
  exact (leads_of_trace led).exists_slot wf (Step.isProper_ofPath path)
    (.inr (Step.ofPath_ne_nil ne)) free

/-- A file may be written where the name is free or that of a file. -/
theorem writePlace_eq_ok_iff {path : Text} {place : Place} :
    d.writePlace path = .ok place ↔ (∃ slot, d.slot .isDirectory path = .ok slot) ∧
      Text.endsWith ['/'] path = false ∧ d.resolve .create path = .ok place ∧
      d.find? place ≠ some .directory := by
  rw [writePlace]
  cases slot : d.slot .isDirectory path with
  | error fault => exact ⟨fun h => (nomatch h), fun ⟨⟨_, h⟩, _⟩ => (nomatch h)⟩
  | ok slot =>
      cases slash : Text.endsWith ['/'] path with
      | true => exact ⟨fun h => (nomatch h), fun ⟨_, h, _⟩ => (nomatch h)⟩
      | false =>
          cases led : d.resolve .create path with
          | error fault => exact ⟨fun h => (nomatch h), fun ⟨_, _, h, _⟩ => (nomatch h)⟩
          | ok there =>
              simp only [bind, Except.bind, pure, Except.pure, Bool.false_eq_true, if_false]
              constructor
              · intro h
                split at h
                case h_1 => cases h
                case h_2 notDirectory =>
                  cases h
                  exact ⟨⟨_, rfl⟩, trivial, rfl, notDirectory⟩
              · rintro ⟨_, _, same, notDirectory⟩
                cases same
                split
                case h_1 stands => exact absurd stands notDirectory
                case h_2 => rfl

theorem copyFile_eq_ok_iff {source target : Text} {e : Disk} :
    d.copyFile source target = .ok e ↔ ∃ sourcePlace content place,
      d.look .follow source = .ok (sourcePlace, .file content) ∧
      d.writePlace target = .ok place ∧
      e = d.put place (.file (if place = sourcePlace then .empty else content)) := by
  rw [copyFile]
  cases d.look .follow source with
  | error fault => exact ⟨fun h => (nomatch h), fun ⟨_, _, _, h, _⟩ => (nomatch h)⟩
  | ok found =>
      obtain ⟨sourcePlace, node⟩ := found
      cases node with
      | link target => exact ⟨fun h => (nomatch h), fun ⟨_, _, _, h, _⟩ => (nomatch h)⟩
      | directory => exact ⟨fun h => (nomatch h), fun ⟨_, _, _, h, _⟩ => (nomatch h)⟩
      | file content =>
          cases d.writePlace target with
          | error fault => exact ⟨fun h => (nomatch h), fun ⟨_, _, _, _, h, _⟩ => (nomatch h)⟩
          | ok place =>
              constructor
              · rintro ⟨⟩
                exact ⟨sourcePlace, content, place, rfl, rfl, rfl⟩
              · rintro ⟨_, _, _, same, there, rfl⟩
                cases same
                cases there
                rfl

/-! ## Writing below a directory -/

namespace LeadsInto

variable {path : Text} {place : Place} {front : List Name} {name : Name}
variable (into : d.LeadsInto path place) (wf : d.WellFormed)
variable (stands : d.find? (place ++ front) = some .directory) (named : IsEntryName name)

include into wf stands named

omit into in
theorem isName_of_mem_concat : ∀ other ∈ front ++ [name], IsName other := by
  refine List.forall_mem_append.mpr ⟨fun other inside => ?_,
    List.forall_mem_singleton.mpr named.toIsName⟩
  exact (wf.isEntryName_of_find? stands other (List.mem_append_right place inside)).toIsName

/-- The name behind the directories may be that of a file, or be free. -/
theorem resolve_create_append
    (writable : ∀ node, d.find? (place ++ (front ++ [name])) = some node →
      ∃ content, node = .file content) :
    d.resolve .create (Path.append path (joinSegments (front ++ [name]))) =
      .ok (place ++ (front ++ [name])) := by
  have isName := isName_of_mem_concat wf stands named
  obtain ⟨left, resolved⟩ :=
    into.exists_resolve_append .create (List.concat_ne_nil name front) isName
  obtain ⟨last, eq⟩ := trace_append d .create (List.cons_ne_nil (Step.enter name) []) left place
    (front.map Step.ofSegment)
  rw [resolved, List.map_append, List.map_singleton, named.ofSegment_eq, eq,
    trace_names wf stands Node.directory_ne_link, Except.bind, ← List.append_assoc]
  rw [← List.append_assoc] at writable
  cases found : d.find? (place ++ front ++ [name]) with
  | none => exact (Leads.free stands found rfl).trace_eq
  | some node =>
      obtain ⟨content, rfl⟩ := writable node found
      exact (Leads.enter stands found (Node.file_ne_link content) .done).trace_eq

/-- The slot of the name is in the last of the directories. -/
theorem slot_append (special : Fault) :
    d.slot special (Path.append path (joinSegments (front ++ [name]))) =
      .ok (place ++ front, name) := by
  have isName := isName_of_mem_concat wf stands named
  have read : segments (Path.append path (joinSegments (front ++ [name]))) =
      (segments path ++ front) ++ [name] := by
    rw [segments_append_joinSegments path isName, List.append_assoc]
  have frontNames := (List.forall_mem_append.mp isName).1
  have led := (into.append wf stands).trace_eq
  rw [startOf_append d path frontNames, Step.ofSegments,
    segments_append_joinSegments path frontNames] at led
  rw [← startOf_append d path isName] at led
  exact slot_of_directory read named led stands special

theorem writePlace_append
    (writable : ∀ node, d.find? (place ++ (front ++ [name])) = some node →
      ∃ content, node = .file content) :
    d.writePlace (Path.append path (joinSegments (front ++ [name]))) =
      .ok (place ++ (front ++ [name])) := by
  have isName := isName_of_mem_concat wf stands named
  refine writePlace_eq_ok_iff.mpr ⟨⟨_, into.slot_append wf stands named _⟩,
    Path.endsWith_slash_append path (List.concat_ne_nil name front) isName,
    into.resolve_create_append wf stands named writable, fun directory => ?_⟩
  obtain ⟨content, same⟩ := writable _ directory
  cases same

end LeadsInto

end Disk

end FileSelect

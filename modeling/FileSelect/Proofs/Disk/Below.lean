import FileSelect.Disk.Change
import FileSelect.Proofs.Disk.Resolve
import FileSelect.Proofs.Path.Parent

/-!
# Paths below a directory

When a path leads to a directory, names written behind it lead from there through the
directories that they name. The last name may be that of a file, or be free where
something is to be created.
-/

namespace FileSelect

/-- The steps of a path, without regard to a slash at its end. -/
def Step.ofSegments (path : Text) : List Step := (segments path).map ofSegment

theorem Step.ofPath_append (directory : Text) {names : List Text} (ne : names ≠ [])
    (isName : ∀ name ∈ names, IsName name) :
    ofPath (Path.append directory (joinSegments names)) =
      ofSegments directory ++ names.map ofSegment := by
  rw [ofPath, Path.endsWith_slash_append directory ne isName, if_neg Bool.false_ne_true,
    List.append_nil, segments_append_joinSegments directory isName, List.map_append, ofSegments]

namespace Disk

variable {d : Disk}

/-- Where a path starts on the disk. -/
def startOf (d : Disk) (path : Text) : Place := startFrom d.workingPlace path

theorem startOf_append (d : Disk) (directory : Text) {names : List Text}
    (isName : ∀ name ∈ names, IsName name) :
    d.startOf (Path.append directory (joinSegments names)) = d.startOf directory := by
  rw [startOf, startFrom, Path.isAbsolute_append directory isName, startOf, startFrom]

/-- The segments of the path lead to a directory. -/
structure LeadsInto (d : Disk) (path : Text) (place : Place) : Prop where
  trace_eq : trace d .follow linkLimit (d.startOf path) (Step.ofSegments path) = .ok place
  stands : d.find? place = some .directory

/-- Below the place there is something under the names that is no link. -/
def Holds (d : Disk) (place : Place) (names : List Name) : Prop :=
  names ≠ [] ∧ ∃ node, d.find? (place ++ names) = some node ∧ ∀ target, node ≠ .link target

theorem resolve_eq {path : Text} (ne : path ≠ []) (last : LastName) :
    d.resolve last path = trace d last linkLimit (d.startOf path) (Step.ofPath path) := if_neg ne

theorem ne_nil_of_resolve {last : LastName} {path : Text} {place : Place}
    (led : d.resolve last path = .ok place) : path ≠ [] := by
  rintro rfl
  cases led

theorem resolve_follow_of_keep {d : Disk} {path : Text} {place : Place}
    (led : d.resolve .keep path = .ok place)
    (plain : ∀ target, d.find? place ≠ some (.link target)) :
    d.resolve .follow path = .ok place := by
  have ne := ne_nil_of_resolve led
  rw [resolve_eq ne] at led ⊢
  exact ((leads_of_trace led).followed plain).trace_eq

theorem look_eq_ok_iff {last : LastName} {path : Text} {place : Place} {node : Node} :
    d.look last path = .ok (place, node) ↔
      d.resolve last path = .ok place ∧ d.find? place = some node := by
  rw [look]
  cases d.resolve last path with
  | error fault => exact ⟨fun h => (nomatch h), fun h => (nomatch h.1)⟩
  | ok there =>
      simp only [bind, Except.bind, pure, Except.pure]
      constructor
      · intro h
        split at h
        case h_1 found => cases h; exact ⟨rfl, found⟩
        case h_2 => cases h
      · rintro ⟨same, found⟩
        cases same
        rw [found]

theorem readContent_eq_ok_iff {path : Text} {content : Content} :
    d.readContent path = .ok content ↔
      ∃ place, d.look .follow path = .ok (place, .file content) := by
  rw [readContent]
  cases d.look .follow path with
  | error fault => exact ⟨fun h => (nomatch h), fun ⟨_, h⟩ => (nomatch h)⟩
  | ok found =>
      obtain ⟨place, node⟩ := found
      cases node with
      | file content =>
          constructor
          · rintro ⟨⟩
            exact ⟨place, rfl⟩
          · rintro ⟨_, same⟩
            cases same
            rfl
      | link target => exact ⟨fun h => (nomatch h), fun ⟨_, h⟩ => (nomatch h)⟩
      | directory => exact ⟨fun h => (nomatch h), fun ⟨_, h⟩ => (nomatch h)⟩

/-- A path that leads to a directory leads there without a slash at its end, too. -/
theorem leadsInto_of_look {path : Text} {place : Place}
    (led : d.look .follow path = .ok (place, .directory)) : d.LeadsInto path place := by
  obtain ⟨resolved, stands⟩ := look_eq_ok_iff.mp led
  refine ⟨?_, stands⟩
  rw [resolve_eq (ne_nil_of_resolve resolved), Step.ofPath] at resolved
  split at resolved
  case isTrue =>
    obtain ⟨there, left, traced, _, rest⟩ :=
      Leads.exists_of_append (List.cons_ne_nil Step.stay []) resolved
    cases rest with
    | stay _ rest =>
        cases rest
        exact traced
  case isFalse =>
    rwa [List.append_nil] at resolved

theorem LeadsInto.look {path : Text} {place : Place} (into : d.LeadsInto path place)
    (ne : path ≠ []) : d.look .follow path = .ok (place, .directory) := by
  refine look_eq_ok_iff.mpr ⟨?_, into.stands⟩
  rw [resolve_eq ne, Step.ofPath]
  split
  case isTrue =>
    obtain ⟨left, eq⟩ := trace_append d .follow (List.cons_ne_nil Step.stay []) linkLimit
      (d.startOf path) (Step.ofSegments path)
    rw [Step.ofSegments] at eq
    rw [eq, ← Step.ofSegments, into.trace_eq]
    exact (Leads.stay into.stands .done).trace_eq
  case isFalse =>
    rw [List.append_nil]
    exact into.trace_eq

theorem LeadsInto.isDirectory {path : Text} {place : Place} (into : d.LeadsInto path place)
    (ne : path ≠ []) : d.isDirectory path = true := by
  rw [Disk.isDirectory, into.look ne]

theorem exists_leadsInto_of_isDirectory {path : Text} (directory : d.isDirectory path = true) :
    ∃ place, d.LeadsInto path place := by
  rw [Disk.isDirectory] at directory
  split at directory
  case h_1 place led => exact ⟨place, leadsInto_of_look led⟩
  case h_2 => cases directory

theorem LeadsInto.keeps {path : Text} {place : Place} {e : Disk} (into : d.LeadsInto path place)
    (keeps : d.Keeps e) : e.LeadsInto path place := by
  refine ⟨?_, keeps.directory into.stands⟩
  rw [startOf, keeps.working]
  exact ((leads_of_trace into.trace_eq).keeps keeps (by decide)).trace_eq

/-! ## Names -/

/-- Names lead to what they name, when nothing on the way is a link. -/
theorem leads_names (wf : d.WellFormed) {last : LastName} {budget : Nat} {here : Place}
    {names : List Name} {node : Node} (found : d.find? (here ++ names) = some node)
    (plain : ∀ target, node ≠ .link target) :
    Leads d last budget here (names.map Step.ofSegment) (here ++ names) := by
  induction names generalizing here with
  | nil =>
      rw [List.append_nil]
      exact .done
  | cons name rest ih =>
      rw [List.append_cons] at found ⊢
      have named := wf.isEntryName_of_find? found name
        (List.mem_append_left rest (List.mem_append_right here List.mem_cons_self))
      rw [List.map_cons, named.ofSegment_eq]
      cases rest with
      | nil =>
          rw [List.append_nil] at found
          exact .enter (wf.find?_above found).2 found plain (ih (by rwa [List.append_nil]))
      | cons next rest =>
          have stands := wf.find?_of_append (List.cons_ne_nil next rest) found
          exact .enter (wf.find?_above stands).2 stands Node.directory_ne_link (ih found)

theorem trace_names (wf : d.WellFormed) {last : LastName} {budget : Nat} {here : Place}
    {names : List Name} {node : Node} (found : d.find? (here ++ names) = some node)
    (plain : ∀ target, node ≠ .link target) :
    trace d last budget here (names.map Step.ofSegment) = .ok (here ++ names) :=
  (leads_names wf found plain).trace_eq

namespace LeadsInto

variable {path : Text} {place : Place}

/-- Steps behind a path are taken from where it leads to. -/
theorem exists_trace_append (into : d.LeadsInto path place) (last : LastName)
    {more : List Step} (ne : more ≠ []) : ∃ left,
    trace d last linkLimit (d.startOf path) (Step.ofSegments path ++ more) =
      trace d last left place more := by
  obtain ⟨left, eq⟩ := trace_append d last ne linkLimit (d.startOf path) (Step.ofSegments path)
  refine ⟨left, ?_⟩
  rw [eq, into.trace_eq]
  rfl

theorem exists_resolve_append (into : d.LeadsInto path place) (last : LastName)
    {names : List Name} (ne : names ≠ []) (isName : ∀ name ∈ names, IsName name) : ∃ left,
    d.resolve last (Path.append path (joinSegments names)) =
      trace d last left place (names.map Step.ofSegment) := by
  have steps_ne : names.map Step.ofSegment ≠ [] := fun none => ne (List.map_eq_nil_iff.mp none)
  obtain ⟨left, eq⟩ := into.exists_trace_append last steps_ne
  refine ⟨left, ?_⟩
  rw [resolve_eq (append_joinSegments_ne_nil path ne isName), startOf_append d path isName,
    Step.ofPath_append path ne isName, eq]

theorem look_append (into : d.LeadsInto path place) (wf : d.WellFormed) {names : List Name}
    (ne : names ≠ []) {node : Node} (found : d.find? (place ++ names) = some node)
    (plain : ∀ target, node ≠ .link target) :
    d.look .follow (Path.append path (joinSegments names)) = .ok (place ++ names, node) := by
  have named := fun name inside =>
    (wf.isEntryName_of_find? found name (List.mem_append_right place inside)).toIsName
  obtain ⟨left, eq⟩ := into.exists_resolve_append .follow ne named
  exact look_eq_ok_iff.mpr ⟨eq.trans (trace_names wf found plain), found⟩

theorem append (into : d.LeadsInto path place) (wf : d.WellFormed) {names : List Name}
    (found : d.find? (place ++ names) = some .directory) :
    d.LeadsInto (Path.append path (joinSegments names)) (place ++ names) := by
  refine ⟨?_, found⟩
  have named := fun name inside =>
    (wf.isEntryName_of_find? found name (List.mem_append_right place inside)).toIsName
  rw [startOf_append d path named, Step.ofSegments, segments_append_joinSegments path named,
    List.map_append]
  cases names with
  | nil =>
      rw [List.append_nil, List.map_nil, List.append_nil]
      exact into.trace_eq
  | cons name rest =>
      have ne : (name :: rest).map Step.ofSegment ≠ [] := List.cons_ne_nil _ _
      obtain ⟨left, eq⟩ := into.exists_trace_append .follow ne
      exact eq.trans (trace_names wf found Node.directory_ne_link)

end LeadsInto

/-! ## Slots -/

/-- What the segments in front of the last name say about the slot of a path. -/
theorem slot_eq {path : Text} {parts : List Text} {name : Name}
    (read : segments path = parts ++ [name]) (special : Fault) :
    d.slot special path =
      (trace d .follow linkLimit (d.startOf path) (parts.map Step.ofSegment)).bind
        fun directory =>
          match d.find? directory with
          | some .directory =>
              if Step.ofSegment name = .enter name then .ok (directory, name) else .error special
          | some _ => .error .notDirectory
          | none => .error .notFound := by
  have ne : path ≠ [] := by
    rintro rfl
    exact List.append_ne_nil_of_right_ne_nil parts (List.cons_ne_nil name []) read.symm
  rw [slot, if_neg ne]
  simp only [read, List.getLast?_concat, List.dropLast_concat]
  rfl

/-- A slot is in the directory that the segments in front of the last name lead to. -/
theorem exists_of_slot {special : Fault} {path : Text} {above : Place} {name : Name}
    (led : d.slot special path = .ok (above, name)) : ∃ parts,
    segments path = parts ++ [name] ∧ IsEntryName name ∧
      trace d .follow linkLimit (d.startOf path) (parts.map Step.ofSegment) = .ok above ∧
      d.find? above = some .directory := by
  by_cases ne : path = []
  · rw [slot, if_pos ne] at led
    cases led
  rcases List.eq_nil_or_concat' (segments path) with none | ⟨parts, last, read⟩
  · rw [slot, if_neg ne, none] at led
    cases led
  · rw [slot_eq read] at led
    cases walked : trace d .follow linkLimit (d.startOf path) (parts.map Step.ofSegment) with
    | error fault =>
        rw [walked] at led
        cases led
    | ok directory =>
        rw [walked, Except.bind] at led
        split at led
        case h_1 stands =>
          split at led
          case isTrue entered =>
            cases led
            have named : IsName name := isName_of_mem_segments
              (read ▸ List.mem_append_right parts List.mem_cons_self)
            refine ⟨parts, read, ⟨named, ?_, ?_⟩, walked, stands⟩ <;> rintro rfl <;> cases entered
          case isFalse => cases led
        case h_2 => cases led
        case h_3 => cases led

theorem slot_of_directory {path : Text} {parts : List Text} {name : Name} {above : Place}
    (read : segments path = parts ++ [name]) (named : IsEntryName name)
    (led : trace d .follow linkLimit (d.startOf path) (parts.map Step.ofSegment) = .ok above)
    (stands : d.find? above = some .directory) (special : Fault) :
    d.slot special path = .ok (above, name) := by
  rw [slot_eq read special, led, Except.bind, stands]
  exact if_pos named.ofSegment_eq

end Disk

end FileSelect

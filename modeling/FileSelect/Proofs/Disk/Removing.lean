import FileSelect.Proofs.Disk.Lacking
import FileSelect.Proofs.Disk.Listing
import FileSelect.Proofs.Disk.Making
import FileSelect.Proofs.Disk.Writing

/-!
# Removing entries

A path whose last part is a name can name an entry, which is what is removed: a file, a
link, or a directory with nothing in it. On a disk with less on it the path names the
same entry, as long as everything that it runs through is there.
-/

namespace FileSelect.Disk

/-! ## The entry that a path names -/

/-- The entry at the place is in the directory, and has the name, that the path says; a
link at the end of the path stands for itself. -/
structure Names (d : Disk) (path : Text) (place : Place) : Prop where
  slot : ∃ above name, place = above ++ [name] ∧
    ∀ special, d.slot special path = .ok (above, name)
  look : ∃ node, d.look .keep path = .ok (place, node)

/-- A path leads on from where the parts in front of its last name lead to. -/
theorem exists_resolve_concat {path : Text} {parts : List Text} {name : Name}
    (read : segments path = parts ++ [name]) : ∃ more, (∀ step ∈ more, step = .stay) ∧
    ∀ (d : Disk) (last : LastName), ∃ left,
      d.resolve last path = (d.walk (d.startOf path) parts).bind fun above =>
        trace d last left above (Step.ofSegment name :: more) := by
  have ne : path ≠ [] := by
    rintro rfl
    exact List.concat_ne_nil name parts read.symm
  refine ⟨if Text.endsWith ['/'] path then [.stay] else [], fun step inside => ?_,
    fun d last => ?_⟩
  · split at inside
    · exact List.mem_singleton.mp inside
    · cases inside
  obtain ⟨left, eq⟩ := trace_append d last
    (List.cons_ne_nil (Step.ofSegment name) (if Text.endsWith ['/'] path then [.stay] else []))
    linkLimit (d.startOf path) (parts.map Step.ofSegment)
  refine ⟨left, ?_⟩
  rw [resolve_eq ne, Step.ofPath, read, List.map_append, List.append_assoc]
  exact eq

/-- What a path leads to is reached with its last name from where the parts in front lead to. -/
theorem exists_leads_concat {d : Disk} {last : LastName} {path : Text} {place : Place}
    {parts : List Text} {name : Name} (read : segments path = parts ++ [name])
    (led : d.resolve last path = .ok place) : ∃ above left more,
      (∀ step ∈ more, step = .stay) ∧ d.walk (d.startOf path) parts = .ok above ∧
      Leads d last left above (Step.ofSegment name :: more) place := by
  obtain ⟨more, stay, behind⟩ := exists_resolve_concat read
  obtain ⟨left, eq⟩ := behind d last
  obtain ⟨above, walked, last⟩ := exists_of_bind_ok (eq.symm.trans led)
  exact ⟨above, left, more, stay, walked, leads_of_trace last⟩

/-- A path with a slash at its end leads to a directory. -/
theorem directory_of_endsWith_slash {d : Disk} {last : LastName} {path : Text} {place : Place}
    {node : Node} (led : d.look last path = .ok (place, node))
    (slash : Text.endsWith ['/'] path = true) : node = .directory := by
  obtain ⟨resolved, found⟩ := look_eq_ok_iff.mp led
  have ne := ne_nil_of_resolve resolved
  rw [resolve_eq ne, Step.ofPath, if_pos slash] at resolved
  obtain ⟨there, left, _, _, rest⟩ :=
    Leads.exists_of_append (List.cons_ne_nil Step.stay []) resolved
  cases rest with
  | stay stands rest =>
      cases rest
      exact Option.some.inj (found.symm.trans stands)

namespace Names

variable {d e : Disk} {gone : Place → Prop} {path : Text} {place : Place}
variable (names : d.Names path place)

include names

theorem ne_nil : place ≠ [] := by
  obtain ⟨above, name, rfl, _⟩ := names.slot
  exact List.concat_ne_nil name above

theorem exists_node : ∃ node, d.find? place = some node :=
  names.look.imp fun _ led => (look_eq_ok_iff.mp led).2

theorem resolve_eq : d.resolve .keep path = .ok place :=
  names.look.elim fun _ led => (look_eq_ok_iff.mp led).1

theorem exists_walk : ∃ parts above name, segments path = parts ++ [name] ∧
    IsEntryName name ∧ place = above ++ [name] ∧ d.walk (d.startOf path) parts = .ok above := by
  obtain ⟨above, name, rfl, slot⟩ := names.slot
  obtain ⟨parts, read, named, walked, _⟩ := exists_of_slot (slot .invalid)
  exact ⟨parts, above, name, read, named, rfl, walked⟩

/-- The directory that the entry is in is run through. -/
theorem runsThrough {above : Place} {name : Name} (inside : place = above ++ [name])
    (ne : above ≠ []) : d.RunsThrough .keep path above := by
  obtain ⟨parts, directory, last, read, _, same, walked⟩ := names.exists_walk
  obtain ⟨rfl, _⟩ := List.append_inj' (inside.symm.trans same) rfl
  have lacks : d.Lacks (fun query => query = above) (d.erase above) := .erase d ne
  obtain ⟨more, _, behind⟩ := exists_resolve_concat read
  obtain ⟨left, eq⟩ := behind (d.erase above) .keep
  have free : (d.erase above).find? above = none := lacks.free rfl
  have missing : (d.erase above).resolve .keep path = .error .notFound := by
    rw [eq, lacks.startOf]
    rcases lacks.trace_or (by decide) walked with there | nowhere
    · rw [walk, there]
      exact trace_of_none _ _ _ _ _ free
    · rw [walk, nowhere]
      rfl
  rw [RunsThrough, missing, names.resolve_eq]
  rintro ⟨⟩

/-- On a disk with less on it, a path that still leads to the entry names it. -/
theorem later (lacks : d.Lacks gone e) (resolved : e.resolve .keep path = .ok place)
    (left : ¬gone place) : e.Names path place := by
  obtain ⟨node, found⟩ := names.exists_node
  refine ⟨?_, node, look_eq_ok_iff.mpr ⟨resolved, (lacks.rest left).trans found⟩⟩
  obtain ⟨parts, above, name, read, named, rfl, walked⟩ := names.exists_walk
  obtain ⟨more, _, behind⟩ := exists_resolve_concat read
  obtain ⟨budget, eq⟩ := behind e .keep
  rw [eq, lacks.startOf] at resolved
  rcases lacks.trace_or (by decide) walked with there | nowhere
  · rw [walk, there] at resolved
    refine ⟨above, name, rfl, slot_of_directory read named ?_ (leads_of_trace resolved).stands⟩
    rw [lacks.startOf]
    exact there
  · rw [walk, nowhere] at resolved
    cases resolved

/-! ## Removing it -/

theorem removeDirectory_eq (found : d.find? place = some .directory) :
    d.removeDirectory path =
      if d.namesInside place = [] then .ok (d.erase place) else .error .notEmpty := by
  obtain ⟨above, name, rfl, slot⟩ := names.slot
  rw [removeDirectory, slot]
  simp only [bind, Except.bind, found]
  rfl

theorem removeFile_eq {node : Node} (found : d.find? place = some node)
    (other : node ≠ .directory) : d.removeFile path = .ok (d.erase place) := by
  have noSlash : Text.endsWith ['/'] path = false := by
    rw [Bool.eq_false_iff]
    intro slash
    exact other (directory_of_endsWith_slash (look_eq_ok_iff.mpr ⟨names.resolve_eq, found⟩) slash)
  obtain ⟨above, name, rfl, slot⟩ := names.slot
  rw [removeFile, slot]
  simp only [bind, Except.bind, found, noSlash]
  cases node with
  | file content => rfl
  | link target => rfl
  | directory => exact absurd rfl other

/-- What a path names is removed, unless it is a directory with something in it. -/
theorem remove_eq {node : Node} (found : d.find? place = some node) :
    d.remove path =
      if node.isDirectory = true ∧ d.namesInside place ≠ [] then .error .notEmpty
      else .ok (d.erase place) := by
  have led : d.look .keep path = .ok (place, node) := look_eq_ok_iff.mpr ⟨names.resolve_eq, found⟩
  rw [remove, led]
  cases node with
  | file content => exact names.removeFile_eq found fun same => nomatch same
  | link target => exact names.removeFile_eq found fun same => nomatch same
  | directory =>
      dsimp only
      rw [names.removeDirectory_eq found]
      by_cases vacant : d.namesInside place = []
      · rw [if_pos vacant, if_neg fun h => h.2 vacant]
      · rw [if_neg vacant, if_pos ⟨rfl, vacant⟩]

end Names

/-! ## Paths that name what they lead to -/

/-- Names behind a path to a directory name an entry that is no link. -/
theorem LeadsInto.names_append {d : Disk} {path : Text} {place : Place} {names : List Name}
    {node : Node} (into : d.LeadsInto path place) (wf : d.WellFormed) (ne : names ≠ [])
    (found : d.find? (place ++ names) = some node) (plain : ∀ target, node ≠ .link target) :
    d.Names (Path.append path (joinSegments names)) (place ++ names) := by
  have isName := fun name inside =>
    (wf.isEntryName_of_find? found name (List.mem_append_right place inside)).toIsName
  obtain ⟨left, eq⟩ := into.exists_resolve_append .keep ne isName
  have led := look_eq_ok_iff.mpr ⟨eq.trans (trace_names wf found plain), found⟩
  obtain ⟨front, name, rfl⟩ := (List.eq_nil_or_concat' names).resolve_left ne
  have above : IsEntryName name ∧ d.find? (place ++ front) = some .directory :=
    wf.find?_above (by rw [List.append_assoc]; exact found)
  exact ⟨⟨place ++ front, name, (List.append_assoc place front [name]).symm,
    into.slot_append wf above.2 above.1⟩, node, led⟩

/-- A path that ends in a name and has no step upwards in it. -/
structure IsStraight (path : Text) : Prop where
  down : ['.', '.'] ∉ segments path
  ends : ∃ parts name, segments path = parts ++ [name] ∧ name ≠ ['.']

theorem IsStraight.up_notMem {path : Text} (straight : IsStraight path) :
    .up ∉ Step.ofPath path := by
  rw [Step.ofPath, List.mem_append]
  rintro (inside | inside)
  · obtain ⟨part, partIn, same⟩ := List.mem_map.mp inside
    rw [Step.ofSegment] at same
    split_ifs at same with _ upward
    exact straight.down (upward ▸ partIn)
  · split_ifs at inside
    · cases List.mem_singleton.mp inside
    · cases inside

/-- Steps that stay lead nowhere else. -/
theorem Leads.eq_of_stay {d : Disk} {last : LastName} {budget : Nat} {here place : Place}
    {steps : List Step} (leads : Leads d last budget here steps place)
    (stay : ∀ step ∈ steps, step = .stay) : place = here := by
  induction steps with
  | nil =>
      cases leads
      rfl
  | cons step rest ih =>
      obtain ⟨first, others⟩ := List.forall_mem_cons.mp stay
      subst first
      cases leads with
      | stay _ leads => exact ih leads others

section Plain

variable {d : Disk} {path : Text} {place : Place} {node : Node}
variable (plain : d.IsPlainBelow []) (led : d.look .follow path = .ok (place, node))

include plain led

theorem leads_of_plain : path ≠ [] ∧ Leads d .keep 0 (d.startOf path) (Step.ofPath path) place := by
  obtain ⟨resolved, _⟩ := look_eq_ok_iff.mp led
  have ne := ne_nil_of_resolve resolved
  rw [resolve_eq ne] at resolved
  exact ⟨ne, (leads_of_trace resolved).plain plain⟩

/-- Where there are no links, a last one need not be followed. -/
theorem look_keep_of_plain : d.look .keep path = .ok (place, node) := by
  obtain ⟨ne, down⟩ := leads_of_plain plain led
  refine look_eq_ok_iff.mpr ⟨?_, (look_eq_ok_iff.mp led).2⟩
  rw [resolve_eq ne]
  exact (down.raise linkLimit).trace_eq

variable (straight : IsStraight path)

include straight

/-- Where there are no links, a straight path names what it leads to. -/
theorem names_of_straight : d.Names path place := by
  obtain ⟨resolved, _⟩ := look_eq_ok_iff.mp led
  obtain ⟨parts, name, read, dotless⟩ := straight.ends
  have inside : name ∈ segments path := read ▸ List.mem_append_right parts List.mem_cons_self
  have named : IsEntryName name :=
    ⟨isName_of_mem_segments inside, dotless, fun upward => straight.down (upward ▸ inside)⟩
  obtain ⟨above, left, more, stay, walked, leads⟩ := exists_leads_concat read resolved
  rw [named.ofSegment_eq] at leads
  have slot := slot_of_directory read named walked leads.stands
  have same : place = above ++ [name] := by
    cases leads.plain plain with
    | enter _ _ _ leads => exact leads.eq_of_stay stay
    | free _ _ create => cases create
    | keep => rfl
  exact ⟨⟨above, name, same, slot⟩, node, look_keep_of_plain plain led⟩

/-- It runs through nothing but the place that it leads to and what that is in. -/
theorem isPrefix_of_straight {query : Place} (runs : d.RunsThrough .keep path query) :
    query <+: place := by
  obtain ⟨ne, down⟩ := leads_of_plain plain led
  exact isPrefix_of_runsThrough ne (by decide) down straight.up_notMem runs

end Plain

/-- What is found in the slot of a path is named by the path; behind a slash that can only
be a directory. -/
theorem names_of_slot {d : Disk} {special : Fault} {path : Text} {above : Place} {name : Name}
    {node : Node} (slot : d.slot special path = .ok (above, name))
    (found : d.find? (above ++ [name]) = some node)
    (fits : Text.endsWith ['/'] path = true → node = .directory) :
    d.Names path (above ++ [name]) := by
  obtain ⟨parts, read, named, walked, stands⟩ := exists_of_slot slot
  refine ⟨⟨above, name, rfl, slot_of_directory read named walked stands⟩, node,
    look_eq_ok_iff.mpr ⟨?_, found⟩⟩
  have ne : path ≠ [] := by
    rintro rfl
    exact List.concat_ne_nil name parts read.symm
  obtain ⟨left, eq⟩ := trace_append d .keep
    (List.cons_ne_nil (Step.ofSegment name) (if Text.endsWith ['/'] path then [.stay] else []))
    linkLimit (d.startOf path) (parts.map Step.ofSegment)
  have last : Leads d .keep left above
      (.enter name :: if Text.endsWith ['/'] path then [.stay] else []) (above ++ [name]) := by
    split
    case isTrue slash =>
      rw [fits slash] at found
      exact .enter stands found Node.directory_ne_link (.stay found .done)
    case isFalse =>
      cases node with
      | link target => exact .keep stands found rfl
      | file content => exact .enter stands found (Node.file_ne_link content) .done
      | directory => exact .enter stands found Node.directory_ne_link .done
  rw [resolve_eq ne, Step.ofPath, read, List.map_append, List.append_assoc]
  refine eq.trans ?_
  rw [walked, Except.bind, named.ofSegment_eq]
  exact last.trace_eq

/-- What is removed as a directory is an empty one that the path names. -/
theorem exists_of_removeDirectory {d e : Disk} {path : Text}
    (removed : d.removeDirectory path = .ok e) : ∃ place, d.Names path place ∧
      d.find? place = some .directory ∧ d.namesInside place = [] ∧ e = d.erase place := by
  obtain ⟨⟨above, name⟩, slot, removed⟩ := exists_of_bind_ok removed
  dsimp only at removed
  split at removed
  case h_1 found =>
    split at removed
    case isTrue vacant =>
      cases removed
      exact ⟨above ++ [name], names_of_slot slot found fun _ => rfl, found, vacant, rfl⟩
    case isFalse => cases removed
  case h_2 => cases removed
  case h_3 => cases removed

/-- What is removed as a file is something that the path names. -/
theorem exists_names_of_removeFile {d e : Disk} {path : Text} (removed : d.removeFile path = .ok e) :
    ∃ place, d.Names path place := by
  obtain ⟨⟨above, name⟩, slot, removed⟩ := exists_of_bind_ok removed
  dsimp only at removed
  split at removed
  case h_1 => cases removed
  case h_2 found =>
    split at removed
    case isTrue => cases removed
    case isFalse noSlash => exact ⟨_, names_of_slot slot found fun slash => absurd slash noSlash⟩
  case h_3 => cases removed

/-- Nothing is left to remove where a path leads nowhere. -/
theorem remove_of_missing {d : Disk} {path : Text}
    (missing : d.look .keep path = .error .notFound) : d.remove path = .ok d := by
  rw [remove, missing]
  rfl

/-- What a path leads to has been removed as the entry that the path names. -/
theorem names_of_remove {d e : Disk} {path : Text} {place : Place} {node : Node}
    (led : d.look .keep path = .ok (place, node)) (removed : d.remove path = .ok e) :
    d.Names path place ∧ e = d.erase place := by
  obtain ⟨resolved, found⟩ := look_eq_ok_iff.mp led
  rw [remove, led] at removed
  by_cases directory : node = .directory
  · subst directory
    obtain ⟨entry, names, _, _, same⟩ := exists_of_removeDirectory removed
    obtain rfl := Except.ok.inj (resolved.symm.trans names.resolve_eq)
    exact ⟨names, same⟩
  · replace removed : d.removeFile path = .ok e := by
      cases node with
      | directory => exact absurd rfl directory
      | file content => exact removed
      | link target => exact removed
    obtain ⟨entry, names⟩ := exists_names_of_removeFile removed
    obtain rfl := Except.ok.inj (resolved.symm.trans names.resolve_eq)
    rw [names.removeFile_eq found directory] at removed
    exact ⟨names, (Except.ok.inj removed).symm⟩

/-- A removal that succeeds takes away the entry that the path names, if it names one. -/
theorem exists_of_remove {d e : Disk} {path : Text} (removed : d.remove path = .ok e) :
    e = d ∨ ∃ place, d.Names path place ∧ e = d.erase place := by
  cases led : d.look .keep path with
  | ok there => exact .inr ⟨there.1, names_of_remove led removed⟩
  | error fault =>
      rw [remove, led] at removed
      dsimp only at removed
      split at removed
      · exact .inl (Except.ok.inj removed).symm
      · cases removed

end FileSelect.Disk

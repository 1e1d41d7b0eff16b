import FileSelect.Proofs.Disk.Table
import FileSelect.Proofs.Selection.Operation

/-!
# Selections as they come about

Whatever is done to selections, and whatever happens to the disk between two steps, no
two members of a selection stand at one place and no relative path begins or ends with a
slash. Adding never removes a member and never gives a place that is taken to another.
-/

namespace FileSelect

/-- The members that there can be: a path that was located, or one re-anchored. -/
inductive Member.Made : Member → Prop
  | located {d : Disk} {anchor relative : Text} {m : Member} :
      Member.locate d anchor relative = .ok m → Made m
  | flattened {m : Member} : Made m → Made m.flattened

theorem Member.Made.isTrimmed {m : Member} (made : m.Made) : m.IsTrimmed := by
  induction made with
  | located located => exact Member.isTrimmed_of_locate located
  | flattened _ ih => exact ih.flattened

namespace Selection

/-- One step that changes a selection in place. A step that fails midway keeps what it
has added before. -/
inductive Grows : Selection → Selection → Prop
  | glob (d : Disk) (s : Selection) (root : Text) (patterns : List Text) :
      Grows s (s.glob d root patterns).1
  | globSpec (env : Environment) (d : Disk) (s : Selection) (spec : Text) :
      Grows s (s.globSpec env d spec).1
  | addMatching (d : Disk) (s : Selection) (root : Text) (expressions : List Text) :
      Grows s (s.addMatching d root expressions).1
  | addPath (d : Disk) (s : Selection) (anchor relative : Text) :
      Grows s (s.addPath d anchor relative).1
  | insert (s : Selection) (m : Member) : Grows s (s.insertNew m).2
  | add (s other : Selection) : Grows s (s.add other)
  | extend (s : Selection) (ms : List Member) : Grows s (s.extend ms)

/-- The selections that a run can lead to. Every step may find a disk of its own, and a
set may be enumerated in any order. -/
inductive Reachable : Selection → Prop
  | new (settings : Settings) : Reachable (empty settings)
  | glob {s : Selection} (d : Disk) (root : Text) (patterns : List Text) :
      Reachable s → Reachable (s.glob d root patterns).1
  | globSpec {s : Selection} (env : Environment) (d : Disk) (spec : Text) :
      Reachable s → Reachable (s.globSpec env d spec).1
  | addMatching {s : Selection} (d : Disk) (root : Text) (expressions : List Text) :
      Reachable s → Reachable (s.addMatching d root expressions).1
  | addPath {s : Selection} (d : Disk) (anchor relative : Text) :
      Reachable s → Reachable (s.addPath d anchor relative).1
  | insert {s : Selection} {m : Member} : Reachable s → m.Made → Reachable (s.insertNew m).2
  | add {s other : Selection} : Reachable s → Reachable other → Reachable (s.add other)
  | extend {s : Selection} {ms : List Member} :
      Reachable s → (∀ m ∈ ms, m.Made) → Reachable (s.extend ms)
  | collect {ms : List Member} : (∀ m ∈ ms, m.Made) → Reachable (collect ms)
  | copyTo {s t : Selection} {destination : Text} {d after : Disk} :
      Reachable s → s.copyTo destination d = .ok t after → Reachable t
  | moveTo {s t : Selection} {destination : Text} {d after : Disk} :
      Reachable s → s.moveTo destination d = .ok t after → Reachable t
  | filter {s t : Selection} {patterns : List Text} :
      Reachable s → s.filter patterns = .ok t → Reachable t
  | flatten {s : Selection} : Reachable s → Reachable s.flatten
  | files {s : Selection} (d : Disk) : Reachable s → Reachable (s.files d)
  | directories {s : Selection} (d : Disk) : Reachable s → Reachable (s.directories d)
  | setDefaultExcludes {s : Selection} (patterns : List Text) :
      Reachable s → Reachable (s.setDefaultExcludes patterns)
  | reordered {s t : Selection} :
      Reachable s → s.members.Perm t.members → s.settings = t.settings → Reachable t

/-- A filter whose patterns are not refused keeps a part of the members. -/
theorem members_sublist_of_filter {s t : Selection} {patterns : List Text}
    (filtered : s.filter patterns = .ok t) : t.members.Sublist s.members := by
  obtain ⟨set, _, rfl⟩ := exists_of_map_ok filtered
  exact List.filter_sublist

/-! ## Steps that add -/

/-- What a query selects is added member by member. -/
theorem exists_addQuery_eq_extend (d : Disk) (s : Selection) (q : Except Failure Query) : ∃ ms,
    (s.addQuery d q).1 = s.extend ms ∧ ∀ m ∈ ms, m.Made := by
  cases q with
  | error failure => exact ⟨[], rfl, List.forall_mem_nil _⟩
  | ok q =>
      obtain ⟨ms, eq, each⟩ := s.exists_addFound_eq_extend d (q.run d s.settings.followLinks)
      refine ⟨ms, eq, fun m inside => ?_⟩
      obtain ⟨f, _, located⟩ := each m inside
      exact .located located

theorem exists_addMatching_eq_extend (d : Disk) (s : Selection) (root : Text)
    (expressions : List Text) : ∃ ms,
    (s.addMatching d root expressions).1 = s.extend ms ∧ ∀ m ∈ ms, m.Made := by
  rw [addMatching]
  split
  · exact ⟨[], rfl, List.forall_mem_nil _⟩
  · obtain ⟨ms, eq, each⟩ := s.exists_addFiles_eq_extend d root _
    refine ⟨ms, eq, fun m inside => ?_⟩
    obtain ⟨path, _, located⟩ := each m inside
    exact .located located

theorem exists_addPath_eq_extend (d : Disk) (s : Selection) (anchor relative : Text) : ∃ ms,
    (s.addPath d anchor relative).1 = s.extend ms ∧ ∀ m ∈ ms, m.Made := by
  rw [addPath]
  split
  case h_1 m located => exact ⟨[m], rfl, List.forall_mem_singleton.mpr (.located located)⟩
  case h_2 => exact ⟨[], rfl, List.forall_mem_nil _⟩

/-- Every step that changes a selection in place adds a row of members. -/
theorem Grows.exists_eq_extend {s t : Selection} (grows : Grows s t) :
    ∃ ms, t = s.extend ms := by
  cases grows with
  | glob d _ root patterns =>
      obtain ⟨ms, eq, _⟩ :=
        s.exists_addQuery_eq_extend d (Query.ofPatterns d root patterns s.settings)
      exact ⟨ms, eq⟩
  | globSpec env d _ spec =>
      obtain ⟨ms, eq, _⟩ := s.exists_addQuery_eq_extend d (Query.ofSpec env d spec s.settings)
      exact ⟨ms, eq⟩
  | addMatching d _ root expressions =>
      obtain ⟨ms, eq, _⟩ := s.exists_addMatching_eq_extend d root expressions
      exact ⟨ms, eq⟩
  | addPath d _ anchor relative =>
      obtain ⟨ms, eq, _⟩ := s.exists_addPath_eq_extend d anchor relative
      exact ⟨ms, eq⟩
  | insert _ m => exact ⟨[m], rfl⟩
  | add _ other => exact ⟨other.members, rfl⟩
  | extend _ ms => exact ⟨ms, rfl⟩

/-! ## What a run keeps -/

/-- No two members stand at one place, and relative paths are trimmed. -/
structure IsProper (s : Selection) : Prop where
  distinct : s.places.Nodup
  trimmed : ∀ m ∈ s.members, m.IsTrimmed

namespace IsProper

theorem empty (settings : Settings) : (empty settings).IsProper :=
  ⟨List.nodup_nil, List.forall_mem_nil _⟩

theorem extend {s : Selection} (proper : s.IsProper) {ms : List Member}
    (trimmed : ∀ m ∈ ms, m.IsTrimmed) : (s.extend ms).IsProper := by
  refine ⟨s.nodup_places_extend proper.distinct ms, fun m inside => ?_⟩
  exact (s.mem_extend inside).elim (proper.trimmed m) (trimmed m)

theorem extend_made {s : Selection} (proper : s.IsProper) {ms : List Member}
    (made : ∀ m ∈ ms, m.Made) : (s.extend ms).IsProper :=
  proper.extend fun m inside => (made m inside).isTrimmed

/-- A part of the members is proper by itself. -/
theorem restrict {s t : Selection} (proper : s.IsProper)
    (part : t.members.Sublist s.members) : t.IsProper :=
  ⟨proper.distinct.sublist (part.map Member.place), fun m inside =>
    proper.trimmed m (part.subset inside)⟩

theorem flatten {s : Selection} (proper : s.IsProper) : s.flatten.IsProper := by
  refine ⟨s.places_flatten.symm ▸ proper.distinct, fun m inside => ?_⟩
  obtain ⟨n, old, rfl⟩ := List.mem_map.mp inside
  exact (proper.trimmed n old).flattened

theorem reordered {s t : Selection} (proper : s.IsProper)
    (same : s.members.Perm t.members) : t.IsProper :=
  ⟨(same.map Member.place).nodup proper.distinct, fun m inside =>
    proper.trimmed m (same.mem_iff.mpr inside)⟩

end IsProper

/-- By the steps of a run: what is added has been made, and all else is a part or a
rearrangement of what was there. -/
theorem Reachable.isProper {s : Selection} (reachable : s.Reachable) : s.IsProper := by
  induction reachable with
  | new settings => exact .empty settings
  | @glob s d root patterns _ ih =>
      obtain ⟨ms, eq, made⟩ :=
        s.exists_addQuery_eq_extend d (Query.ofPatterns d root patterns s.settings)
      rw [Selection.glob, eq]
      exact ih.extend_made made
  | @globSpec s env d spec _ ih =>
      obtain ⟨ms, eq, made⟩ :=
        s.exists_addQuery_eq_extend d (Query.ofSpec env d spec s.settings)
      rw [Selection.globSpec, eq]
      exact ih.extend_made made
  | @addMatching s d root expressions _ ih =>
      obtain ⟨ms, eq, made⟩ := s.exists_addMatching_eq_extend d root expressions
      rw [eq]
      exact ih.extend_made made
  | @addPath s d anchor relative _ ih =>
      obtain ⟨ms, eq, made⟩ := s.exists_addPath_eq_extend d anchor relative
      rw [eq]
      exact ih.extend_made made
  | @insert s m _ made ih => exact ih.extend_made (List.forall_mem_singleton.mpr made)
  | add _ _ ih other => exact ih.extend other.trimmed
  | extend _ made ih => exact ih.extend_made made
  | collect made => exact (IsProper.empty _).extend_made made
  | copyTo _ copied _ =>
      obtain ⟨ns, rfl, each⟩ := exists_extend_of_copyTo copied
      refine (IsProper.empty _).extend_made fun n inside => ?_
      obtain ⟨e, m, _, located⟩ := each n inside
      exact .located located
  | moveTo _ moved _ =>
      obtain ⟨ns, rfl, each⟩ := exists_extend_of_moveTo moved
      refine (IsProper.empty _).extend_made fun n inside => ?_
      obtain ⟨e, m, _, located⟩ := each n inside
      exact .located located
  | filter _ filtered ih => exact ih.restrict (members_sublist_of_filter filtered)
  | flatten _ ih => exact ih.flatten
  | files d _ ih => exact ih.restrict List.filter_sublist
  | directories d _ ih => exact ih.restrict List.filter_sublist
  | setDefaultExcludes patterns _ ih => exact ih.restrict (List.Sublist.refl _)
  | reordered _ same _ ih => exact ih.reordered same

/--
In every selection that a run leads to, members stand at different places and have
trimmed relative paths. A new member is added exactly when its place is new. Steps that
change a selection in place keep every member, and the member by which a place is held.
Adding a selection gives the places of both.
-/
theorem members_distinct_of_runs :
    (∀ s : Selection, s.Reachable → s.places.Nodup ∧
      ∀ m ∈ s.members, m.relative.head? ≠ some '/' ∧ m.relative.getLast? ≠ some '/') ∧
    (∀ (s : Selection) (m : Member), (s.insertNew m).1 = true ↔ m.place ∉ s.places) ∧
    (∀ s t : Selection, s.Reachable → s.Grows t →
      (∀ m ∈ s.members, m ∈ t.members) ∧
      ∀ m ∈ s.members, ∀ n ∈ t.members, n.place = m.place → n = m) ∧
    ∀ (s other : Selection) (place : Place),
      place ∈ (s.add other).places ↔ place ∈ s.places ∨ place ∈ other.places := by
  refine ⟨fun s reachable => ?_, fun s m => ?_, fun s t reachable grows => ?_,
    fun s other place => s.mem_places_extend_iff⟩
  · have proper := reachable.isProper
    exact ⟨proper.distinct, fun m inside =>
      ⟨(proper.trimmed m inside).head_ne, (proper.trimmed m inside).last_ne⟩⟩
  · rw [insertNew, Bool.not_eq_true', ← s.contains_iff, Bool.not_eq_true]
  · obtain ⟨ms, rfl⟩ := grows.exists_eq_extend
    have kept := (s.members_prefix_extend ms).subset
    have distinct := s.nodup_places_extend reachable.isProper.distinct ms
    exact ⟨fun m inside => kept inside, fun m mIn n nIn same =>
      (s.extend ms).eq_of_place_eq distinct (kept mIn) nIn same⟩

/-- A file in a directory, and a link to the directory. -/
def linkedDisk : Disk :=
  ⟨[(["a"], .directory), (["a", "b"], .file .empty), (["l"], .link "a")], []⟩

/-- The file, as it is added first. -/
def linkedRun : Selection := ((empty .standard).addPath linkedDisk "/" "a/b").1

/-- The file that is added once more, through the link, keeps its first path. -/
theorem members_distinct_of_runs_linked :
    linkedRun.Reachable ∧ linkedRun.Grows (linkedRun.addPath linkedDisk "/l" "b").1 ∧
      (Member.locate linkedDisk "/l" "b").toOption = some ⟨"/l", "b", ["a", "b"]⟩ ∧
      (linkedRun.insertNew ⟨"/l", "b", ["a", "b"]⟩).1 = false ∧
      ∀ n ∈ (linkedRun.addPath linkedDisk "/l" "b").1.members,
        n.place = ["a", "b"] → n = ⟨"/", "a/b", ["a", "b"]⟩ := by
  have reachable : linkedRun.Reachable := .addPath linkedDisk "/" "a/b" (.new .standard)
  have grows : linkedRun.Grows (linkedRun.addPath linkedDisk "/l" "b").1 :=
    .addPath linkedDisk linkedRun "/l" "b"
  have first : ⟨"/", "a/b", ["a", "b"]⟩ ∈ linkedRun.members := by decide +kernel
  obtain ⟨_, new, kept, _⟩ := members_distinct_of_runs
  refine ⟨reachable, grows, by decide +kernel, ?_, ?_⟩
  · rw [Bool.eq_false_iff, Ne, new, Classical.not_not]
    exact List.mem_map.mpr ⟨_, first, rfl⟩
  · intro n inside same
    exact (kept linkedRun _ reachable grows).2 _ first n inside same

end Selection

end FileSelect

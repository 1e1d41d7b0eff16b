import FileSelect.Disk.Resolve
import FileSelect.Proofs.Text.Segments
import Mathlib.Data.List.Nodup

/-!
# The table of a disk

On a disk as a file system keeps it, everything stands in a directory, under a name that
is neither `.` nor `..`. A disk that keeps another may hold more entries and other
contents of files, but every entry of the first is still there and of the same kind.
-/

namespace FileSelect

/-- What succeeds in two steps succeeds in the first of them. -/
theorem exists_of_bind_ok {ε α β : Type} {x : Except ε α} {f : α → Except ε β} {b : β}
    (run : x.bind f = .ok b) : ∃ a, x = .ok a ∧ f a = .ok b := by
  cases x with
  | error fault => cases run
  | ok a => exact ⟨a, rfl, run⟩

theorem exists_of_map_ok {ε α β : Type} {x : Except ε α} {f : α → β} {b : β}
    (run : x.map f = .ok b) : ∃ a, x = .ok a ∧ f a = b := by
  cases x with
  | error fault => cases run
  | ok a => exact ⟨a, rfl, Except.ok.inj run⟩

theorem map_eq_error_iff {ε α β : Type} {x : Except ε α} {f : α → β} {fault : ε} :
    x.map f = .error fault ↔ x = .error fault := by
  cases x with
  | error other =>
      exact ⟨fun h => congrArg _ (Except.error.inj h), fun h => congrArg _ (Except.error.inj h)⟩
  | ok a => constructor <;> rintro ⟨⟩

theorem IsEntryName.ofSegment_eq {name : Name} (named : IsEntryName name) :
    Step.ofSegment name = .enter name := by
  rw [Step.ofSegment, if_neg named.here_ne, if_neg named.up_ne]

theorem Node.isDirectory_iff {node : Node} : node.isDirectory = true ↔ node = .directory := by
  cases node with
  | file content => exact iff_of_false Bool.false_ne_true (fun h => nomatch h)
  | link target => exact iff_of_false Bool.false_ne_true (fun h => nomatch h)
  | directory => exact iff_of_true rfl rfl

theorem Node.directory_ne_link (target : Text) : Node.directory ≠ .link target := by
  rintro ⟨⟩

theorem Node.file_ne_link (content : Content) (target : Text) :
    Node.file content ≠ .link target := by
  rintro ⟨⟩

namespace Disk

/-! ## Looking up -/

theorem find?_of_ne_nil (d : Disk) {place : Place} (ne : place ≠ []) :
    d.find? place = d.nodes.lookup place := if_neg ne

theorem mem_nodes_of_find? {d : Disk} {place : Place} {node : Node} (ne : place ≠ [])
    (found : d.find? place = some node) : (place, node) ∈ d.nodes := by
  rw [find?_of_ne_nil d ne, List.lookup_eq_some_iff] at found
  obtain ⟨before, after, eq, _⟩ := found
  rw [eq]
  exact List.mem_append_right before List.mem_cons_self

theorem exists_find?_of_mem_nodes {d : Disk} {place : Place} {node : Node}
    (h : (place, node) ∈ d.nodes) : ∃ other, d.find? place = some other := by
  by_cases ne : place = []
  · exact ⟨.directory, if_pos ne⟩
  · rw [find?_of_ne_nil d ne]
    refine Option.isSome_iff_exists.mp (List.lookup_isSome_iff.mpr ⟨(place, node), h, ?_⟩)
    exact beq_iff_eq.mpr rfl

theorem lookup_filter_ne {place query : Place} (other : query ≠ place)
    (nodes : List (Place × Node)) :
    (nodes.filter fun entry => entry.1 != place).lookup query = nodes.lookup query := by
  induction nodes with
  | nil => rfl
  | cons entry rest ih =>
      obtain ⟨key, node⟩ := entry
      rw [List.filter_cons, List.lookup_cons]
      by_cases same : key = place
      · subst same
        rw [if_neg (by simp), ih, beq_eq_false_iff_ne.mpr other]
      · rw [if_pos (bne_iff_ne.mpr same), List.lookup_cons, ih]

/-- What is put at a place is found there, and everything else as before. -/
theorem find?_put (d : Disk) {place : Place} (ne : place ≠ []) (node : Node) (query : Place) :
    (d.put place node).find? query = if query = place then some node else d.find? query := by
  by_cases top : query = []
  · subst top
    rw [if_neg ne.symm]
    rfl
  · rw [find?_of_ne_nil _ top, find?_of_ne_nil d top, put, List.lookup_cons]
    by_cases same : query = place
    · rw [if_pos same, beq_iff_eq.mpr same]
    · rw [if_neg same, beq_eq_false_iff_ne.mpr same]
      exact lookup_filter_ne same d.nodes

/-! ## Disks as a file system keeps them -/

/-- No place is listed twice, and everything stands in a directory under a name. -/
structure WellFormed (d : Disk) : Prop where
  distinct : (d.nodes.map Prod.fst).Nodup
  inside : ∀ entry ∈ d.nodes, ∃ above name, entry.1 = above ++ [name] ∧ IsEntryName name ∧
    d.find? above = some .directory

namespace WellFormed

variable {d : Disk}

theorem nothing (working : Place) : (⟨[], working⟩ : Disk).WellFormed :=
  ⟨List.nodup_nil, List.forall_mem_nil _⟩

/-- The table says of every place below the top directory what stands there. -/
theorem mem_nodes_iff (wf : d.WellFormed) {place : Place} {node : Node} :
    (place, node) ∈ d.nodes ↔ place ≠ [] ∧ d.find? place = some node := by
  constructor
  · intro present
    have ne : place ≠ [] := by
      obtain ⟨above, name, rfl, _⟩ := wf.inside _ present
      exact List.concat_ne_nil name above
    obtain ⟨other, found⟩ := exists_find?_of_mem_nodes present
    have same := List.inj_on_of_nodup_map wf.distinct present (mem_nodes_of_find? ne found) rfl
    rw [(Prod.mk.inj same).2]
    exact ⟨ne, found⟩
  · rintro ⟨ne, found⟩
    exact mem_nodes_of_find? ne found

theorem find?_above (wf : d.WellFormed) {above : Place} {name : Name} {node : Node}
    (found : d.find? (above ++ [name]) = some node) :
    IsEntryName name ∧ d.find? above = some .directory := by
  have present := mem_nodes_of_find? (List.concat_ne_nil name above) found
  obtain ⟨directory, last, eq, named, stands⟩ := wf.inside _ present
  obtain ⟨rfl, same⟩ := List.append_inj' eq rfl
  cases same
  exact ⟨named, stands⟩

theorem find?_dropLast (wf : d.WellFormed) {place : Place} {node : Node}
    (found : d.find? place = some node) (ne : place ≠ []) :
    d.find? place.dropLast = some .directory := by
  rw [← List.dropLast_concat_getLast ne] at found
  exact (wf.find?_above found).2

/-- All the way down to an entry there are directories. -/
theorem find?_of_append (wf : d.WellFormed) {above below : Place} {node : Node}
    (ne : below ≠ []) (found : d.find? (above ++ below) = some node) :
    d.find? above = some .directory := by
  induction below using List.reverseRecOn generalizing node with
  | nil => exact absurd rfl ne
  | append_singleton below name ih =>
      rw [← List.append_assoc] at found
      have stands := (wf.find?_above found).2
      cases below with
      | nil => rwa [List.append_nil] at stands
      | cons first rest => exact ih (List.cons_ne_nil first rest) stands

theorem exists_find?_of_append (wf : d.WellFormed) {above below : Place} {node : Node}
    (found : d.find? (above ++ below) = some node) : ∃ other, d.find? above = some other := by
  by_cases ne : below = []
  · rw [ne, List.append_nil] at found
    exact ⟨node, found⟩
  · exact ⟨.directory, wf.find?_of_append ne found⟩

theorem isEntryName_of_find? (wf : d.WellFormed) {place : Place} {node : Node}
    (found : d.find? place = some node) : ∀ name ∈ place, IsEntryName name := by
  intro name inside
  obtain ⟨above, below, rfl⟩ := List.append_of_mem inside
  cases below with
  | nil => exact (wf.find?_above found).1
  | cons next below =>
      rw [List.append_cons] at found
      exact (wf.find?_above (wf.find?_of_append (List.cons_ne_nil next below) found)).1

/-- Below a place where nothing stands, nothing stands. -/
theorem find?_append_eq_none (wf : d.WellFormed) {above : Place}
    (free : d.find? above = none) (below : Place) : d.find? (above ++ below) = none := by
  cases below with
  | nil => rwa [List.append_nil]
  | cons name below =>
      rw [Option.eq_none_iff_forall_ne_some]
      intro node found
      rw [wf.find?_of_append (List.cons_ne_nil name below) found] at free
      cases free

/-- Something may be put into a directory, where nothing stands or what is replaced is
no directory. -/
theorem put (wf : d.WellFormed) {above : Place} {name : Name} (named : IsEntryName name)
    (stands : d.find? above = some .directory)
    (free : d.find? (above ++ [name]) ≠ some .directory) (node : Node) :
    (d.put (above ++ [name]) node).WellFormed := by
  have ne := List.concat_ne_nil name above
  have kept : ∀ place, d.find? place = some .directory →
      (d.put (above ++ [name]) node).find? place = some .directory := by
    intro place found
    rw [find?_put d ne, if_neg]
    · exact found
    · rintro rfl
      exact free found
  constructor
  · rw [Disk.put, List.map_cons]
    refine List.nodup_cons.mpr ⟨?_, ?_⟩
    · intro twice
      obtain ⟨entry, inside, same⟩ := List.mem_map.mp twice
      exact (bne_iff_ne.mp (List.mem_filter.mp inside).2) same
    · exact wf.distinct.sublist (List.filter_sublist.map Prod.fst)
  · intro entry inside
    rcases List.mem_cons.mp inside with rfl | inside
    · exact ⟨above, name, rfl, named, kept above stands⟩
    · obtain ⟨directory, last, eq, lastNamed, found⟩ :=
        wf.inside entry (List.mem_filter.mp inside).1
      exact ⟨directory, last, eq, lastNamed, kept directory found⟩

/-- Where nothing stands, anything may be put. -/
theorem put_free (wf : d.WellFormed) (above : Place) (name : Name) (named : IsEntryName name)
    (stands : d.find? above = some .directory) (free : d.find? (above ++ [name]) = none)
    (node : Node) : (d.put (above ++ [name]) node).WellFormed :=
  wf.put named stands (by rw [free]; exact fun h => nomatch h) node

end WellFormed

end Disk

/-! ## Disks that keep another -/

/-- Both are files, links to the same target, or directories. -/
inductive Node.SameKind : Node → Node → Prop
  | file (old new : Content) : SameKind (.file old) (.file new)
  | link (target : Text) : SameKind (.link target) (.link target)
  | directory : SameKind .directory .directory

namespace Node.SameKind

theorem refl (node : Node) : SameKind node node := by
  cases node with
  | file content => exact .file content content
  | link target => exact .link target
  | directory => exact .directory

theorem trans {a b c : Node} (first : SameKind a b) (second : SameKind b c) : SameKind a c := by
  cases first with
  | file old new => cases second; exact .file old _
  | link target => exact second
  | directory => exact second

end Node.SameKind

namespace Disk

/-- Every entry of `d` is an entry of `e`, of the same kind. -/
structure Keeps (d e : Disk) : Prop where
  working : e.workingPlace = d.workingPlace
  entry : ∀ {place node}, d.find? place = some node →
    ∃ other, e.find? place = some other ∧ node.SameKind other

namespace Keeps

variable {d e : Disk}

theorem refl (d : Disk) : d.Keeps d := ⟨rfl, fun found => ⟨_, found, .refl _⟩⟩

theorem trans {f : Disk} (first : d.Keeps e) (second : e.Keeps f) : d.Keeps f := by
  refine ⟨second.working.trans first.working, fun found => ?_⟩
  obtain ⟨other, found, kind⟩ := first.entry found
  obtain ⟨last, found, same⟩ := second.entry found
  exact ⟨last, found, kind.trans same⟩

theorem directory (keeps : d.Keeps e) {place : Place} (found : d.find? place = some .directory) :
    e.find? place = some .directory := by
  obtain ⟨_, found, ⟨⟩⟩ := keeps.entry found
  exact found

theorem link (keeps : d.Keeps e) {place : Place} {target : Text}
    (found : d.find? place = some (.link target)) : e.find? place = some (.link target) := by
  obtain ⟨_, found, ⟨⟩⟩ := keeps.entry found
  exact found

/-- Putting something where nothing stood, or another content into a file. -/
theorem put {place : Place} (ne : place ≠ []) {node : Node}
    (kind : ∀ old, d.find? place = some old → old.SameKind node) : d.Keeps (d.put place node) := by
  refine ⟨rfl, fun {query old} found => ?_⟩
  by_cases same : query = place
  · subst same
    exact ⟨node, by rw [find?_put d ne, if_pos rfl], kind old found⟩
  · exact ⟨old, by rw [find?_put d ne, if_neg same, found], .refl old⟩

end Keeps

end Disk

end FileSelect

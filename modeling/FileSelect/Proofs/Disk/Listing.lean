import FileSelect.Disk.Listing
import FileSelect.Proofs.Disk.Below
import FileSelect.Proofs.Scan.Listing
import FileSelect.Proofs.Text.Sorting
import Mathlib.Data.List.Perm.Subperm

/-!
# Listings without links

Below a directory without links, a listing has an entry for everything that the disk
has there, once and of the right kind. It goes deep enough, since on the way down to an
entry every directory is an entry of its own.
-/

namespace FileSelect

namespace Disk

variable {d : Disk}

/-! ## The names in a directory -/

theorem nameInside?_eq_some_iff {directory place : Place} {name : Name} :
    nameInside? directory place = some name ↔ place = directory ++ [name] := by
  rw [nameInside?]
  split
  case h_1 last ends =>
    by_cases inside : place = directory ++ [last]
    · rw [if_pos inside, Option.some_inj, inside, List.append_right_inj, List.singleton_inj]
    · rw [if_neg inside]
      refine iff_of_false (fun h => nomatch h) ?_
      rintro rfl
      rw [List.getLast?_concat, Option.some_inj] at ends
      exact inside (by rw [ends])
  case h_2 empty =>
    refine iff_of_false (fun h => nomatch h) ?_
    rintro rfl
    rw [List.getLast?_concat] at empty
    cases empty

theorem mem_namesInside_iff (d : Disk) {directory : Place} {name : Name} :
    name ∈ d.namesInside directory ↔ ∃ node, d.find? (directory ++ [name]) = some node := by
  rw [namesInside, sortTexts, mem_sortBy, List.mem_filterMap]
  constructor
  · rintro ⟨⟨place, node⟩, inside, named⟩
    rw [← nameInside?_eq_some_iff.mp named]
    exact exists_find?_of_mem_nodes inside
  · rintro ⟨node, found⟩
    have inside := mem_nodes_of_find? (List.concat_ne_nil name directory) found
    exact ⟨_, inside, nameInside?_eq_some_iff.mpr rfl⟩

theorem nodup_namesInside (wf : d.WellFormed) (directory : Place) :
    (d.namesInside directory).Nodup := by
  rw [namesInside, sortTexts, (perm_sortBy _ _).nodup_iff]
  have keys : (d.nodes.filterMap fun entry => nameInside? directory entry.1) =
      (d.nodes.map Prod.fst).filterMap (nameInside? directory) := by
    rw [List.filterMap_map]
    rfl
  rw [keys]
  refine wf.distinct.filterMap fun place other name left right => ?_
  rw [nameInside?_eq_some_iff.mp left, nameInside?_eq_some_iff.mp right]

/-- A directory is empty when nothing stands in it. -/
theorem namesInside_eq_nil_iff {directory : Place} :
    d.namesInside directory = [] ↔ ∀ name, d.find? (directory ++ [name]) = none := by
  rw [List.eq_nil_iff_forall_not_mem]
  refine forall_congr' fun name => ?_
  rw [mem_namesInside_iff, not_exists, Option.eq_none_iff_forall_ne_some]

/-- The directories on the way to an entry are entries of their own. -/
theorem length_le_length_nodes (wf : d.WellFormed) {place : Place} {node : Node}
    (found : d.find? place = some node) : place.length ≤ d.nodes.length := by
  let onTheWay := (List.range place.length).map fun i => place.take (i + 1)
  have distinct : onTheWay.Nodup := by
    refine List.nodup_range.map_on fun i iIn j jIn same => ?_
    have lengths := List.take_eq_take_iff.mp same
    have := List.mem_range.mp iIn
    have := List.mem_range.mp jIn
    omega
  have entries : onTheWay ⊆ d.nodes.map Prod.fst := by
    intro front inside
    obtain ⟨i, iIn, rfl⟩ := List.mem_map.mp inside
    have ne : place.take (i + 1) ≠ [] := by
      have := List.mem_range.mp iIn
      rw [Ne, List.take_eq_nil_iff]
      rintro (h | rfl)
      · omega
      · exact absurd this (Nat.not_lt_zero i)
    have present : ∃ node, d.find? (place.take (i + 1)) = some node := by
      rw [← List.take_append_drop (i + 1) place] at found
      by_cases last : place.drop (i + 1) = []
      · rw [last, List.append_nil] at found
        exact ⟨node, found⟩
      · exact ⟨.directory, wf.find?_of_append last found⟩
    obtain ⟨node, found⟩ := present
    exact List.mem_map_of_mem (mem_nodes_of_find? ne found)
  have bound := (List.subperm_of_subset distinct entries).length_le
  rwa [List.length_map, List.length_range, List.length_map] at bound

/-! ## Entries -/

/-- There is no link at the place or below it. -/
def IsPlainBelow (d : Disk) (place : Place) : Prop :=
  ∀ below target, d.find? (place ++ below) ≠ some (.link target)

theorem IsPlainBelow.append {place : Place} (plain : d.IsPlainBelow place) (more : List Name) :
    d.IsPlainBelow (place ++ more) := by
  intro below target
  rw [List.append_assoc]
  exact plain (more ++ below) target

theorem IsPlainBelow.nothing (working place : Place) :
    (⟨[], working⟩ : Disk).IsPlainBelow place := by
  intro below target found
  by_cases top : place ++ below = []
  · rw [top] at found
    cases found
  · rw [find?_of_ne_nil _ top] at found
    cases found

theorem IsPlainBelow.put {place : Place} (plain : d.IsPlainBelow place) {other : Place}
    (ne : other ≠ []) {node : Node} (kind : ∀ target, node ≠ .link target) :
    (d.put other node).IsPlainBelow place := by
  intro below target
  rw [find?_put d ne]
  split
  · exact fun found => kind target (Option.some.inj found)
  · exact plain below target

/-- The listing of some of the names in a directory. -/
def listNames (d : Disk) (followLinks : Bool) (depth : Nat) (above : List Place) (path : Text)
    (here : Place) (names : List Name) : Listing :=
  names.foldr (fun name next =>
    match d.sight followLinks above path here name with
    | .absent => next
    | .file => .leaf name true next
    | .link => .leaf name false next
    | .directory place =>
        .branch name
          (d.listingTo followLinks depth (place :: above) (Path.append path name) place) next)
    .done

section Names

variable {followLinks : Bool} {depth : Nat} {above : List Place} {path : Text} {here : Place}

/-- Links that lead nowhere, or back, are left out. -/
theorem names_listNames_sublist (names : List Name) :
    (d.listNames followLinks depth above path here names).names.Sublist names := by
  induction names with
  | nil => exact .slnil
  | cons name rest ih =>
      rw [listNames, List.foldr_cons]
      split
      · exact ih.cons name
      · exact ih.cons_cons name
      · exact ih.cons_cons name
      · exact ih.cons_cons name

theorem wellFormed_listNames {names : List Name} (isName : ∀ name ∈ names, IsName name)
    (distinct : names.Nodup)
    (inside : ∀ above path place, (d.listingTo followLinks depth above path place).WellFormed) :
    (d.listNames followLinks depth above path here names).WellFormed := by
  induction names with
  | nil => exact .done
  | cons name rest ih =>
      obtain ⟨named, isName⟩ := List.forall_mem_cons.mp isName
      obtain ⟨fresh, distinct⟩ := List.nodup_cons.mp distinct
      have others := ih isName distinct
      have fresh : name ∉ (d.listNames followLinks depth above path here rest).names :=
        fun taken => fresh ((names_listNames_sublist rest).subset taken)
      rw [listNames, List.foldr_cons]
      split
      · exact others
      · exact .leaf named fresh others
      · exact .leaf named fresh others
      · exact .branch named fresh (inside _ _ _) others

theorem isEntryName_of_mem_listNames {names : List Name}
    (named : ∀ name ∈ names, IsEntryName name)
    (inside : ∀ above path place front s, (∀ name ∈ front, IsEntryName name) →
      s ∈ (d.listingTo followLinks depth above path place).entries front →
        ∀ name ∈ s.path, IsEntryName name)
    {front : List Name} (frontNamed : ∀ name ∈ front, IsEntryName name) {s : Selected}
    (h : s ∈ (d.listNames followLinks depth above path here names).entries front) :
    ∀ name ∈ s.path, IsEntryName name := by
  induction names with
  | nil => cases h
  | cons name rest ih =>
      obtain ⟨first, named⟩ := List.forall_mem_cons.mp named
      have extended : ∀ other ∈ front ++ [name], IsEntryName other :=
        List.forall_mem_append.mpr ⟨frontNamed, List.forall_mem_singleton.mpr first⟩
      rw [listNames, List.foldr_cons] at h
      split at h
      case h_1 => exact ih named h
      case h_4 place _ =>
        rcases List.mem_cons.mp h with rfl | h
        · exact extended
        rcases List.mem_append.mp h with h | h
        · exact inside _ _ _ _ s extended h
        · exact ih named h
      all_goals
        rcases List.mem_cons.mp h with rfl | h
        · exact extended
        · exact ih named h

end Names

section Plain

variable {followLinks : Bool} {depth : Nat} {above : List Place} {path : Text} {here : Place}
variable (plain : d.IsPlainBelow here)

include plain

theorem sight_of_plain {name : Name} {node : Node}
    (found : d.find? (here ++ [name]) = some node) :
    d.sight followLinks above path here name =
      if node.isDirectory then .directory (here ++ [name]) else .file := by
  rw [sight, found]
  cases node with
  | file content => rfl
  | link target => exact absurd found (plain [name] target)
  | directory => rfl

theorem listNames_cons {name : Name} {names : List Name} {node : Node}
    (found : d.find? (here ++ [name]) = some node) :
    d.listNames followLinks depth above path here (name :: names) =
      if node.isDirectory then
        .branch name
          (d.listingTo followLinks depth ((here ++ [name]) :: above) (Path.append path name)
            (here ++ [name]))
          (d.listNames followLinks depth above path here names)
      else .leaf name true (d.listNames followLinks depth above path here names) := by
  rw [listNames, List.foldr_cons, sight_of_plain plain found]
  cases node.isDirectory <;> rfl

/-- The entries are the names themselves and what is listed inside of directories. -/
theorem mem_entries_listNames {names : List Name}
    (present : ∀ name ∈ names, ∃ node, d.find? (here ++ [name]) = some node)
    {front : List Name} {s : Selected} :
    s ∈ (d.listNames followLinks depth above path here names).entries front ↔
      ∃ name ∈ names, ∃ node, d.find? (here ++ [name]) = some node ∧
        (s = ⟨front ++ [name], node.isDirectory⟩ ∨ node = .directory ∧
          s ∈ (d.listingTo followLinks depth ((here ++ [name]) :: above) (Path.append path name)
            (here ++ [name])).entries (front ++ [name])) := by
  induction names with
  | nil =>
      refine iff_of_false List.not_mem_nil ?_
      rintro ⟨name, inside, _⟩
      cases inside
  | cons name rest ih =>
      obtain ⟨⟨node, found⟩, present⟩ := List.forall_mem_cons.mp present
      rw [listNames_cons plain found, List.exists_mem_cons_iff, ← ih present]
      have here_iff : ∀ {P : Node → Prop},
          (∃ other, d.find? (here ++ [name]) = some other ∧ P other) ↔ P node := by
        intro P
        rw [found]
        exact ⟨fun ⟨other, same, holds⟩ => Option.some.inj same ▸ holds,
          fun holds => ⟨node, rfl, holds⟩⟩
      rw [here_iff]
      cases node with
      | link target => exact absurd found (plain [name] target)
      | file content =>
          rw [if_neg (by exact Bool.false_ne_true), Listing.entries, List.mem_cons]
          exact or_congr_left ⟨Or.inl, fun h => h.resolve_right fun h => Node.noConfusion h.1⟩
      | directory =>
          rw [if_pos (by rfl), Listing.entries, List.mem_cons, List.mem_append, ← or_assoc]
          exact or_congr_left (or_congr_right ⟨fun h => ⟨rfl, h⟩, And.right⟩)

end Plain

/-! ## Whole listings -/

theorem listingTo_succ (d : Disk) (followLinks : Bool) (depth : Nat) (above : List Place)
    (path : Text) (here : Place) :
    d.listingTo followLinks (depth + 1) above path here =
      d.listNames followLinks depth above path here (d.namesInside here) := rfl

theorem exists_find?_of_mem_namesInside {here : Place} :
    ∀ name ∈ d.namesInside here, ∃ node, d.find? (here ++ [name]) = some node :=
  fun _ inside => (d.mem_namesInside_iff).mp inside

theorem wellFormed_listingTo (wf : d.WellFormed) (followLinks : Bool) (depth : Nat)
    (above : List Place) (path : Text) (here : Place) :
    (d.listingTo followLinks depth above path here).WellFormed := by
  induction depth generalizing above path here with
  | zero => exact .done
  | succ depth ih =>
      rw [listingTo_succ]
      refine wellFormed_listNames (fun name inside => ?_) (nodup_namesInside wf here) ih
      obtain ⟨node, found⟩ := (d.mem_namesInside_iff).mp inside
      exact (wf.find?_above found).1.toIsName

/-- By the levels: only names that entries of directories have lead to an entry. -/
theorem isEntryName_of_mem_listingTo (wf : d.WellFormed) (followLinks : Bool) (depth : Nat)
    (above : List Place) (path : Text) (here : Place) (front : List Name) (s : Selected)
    (named : ∀ name ∈ front, IsEntryName name)
    (h : s ∈ (d.listingTo followLinks depth above path here).entries front) :
    ∀ name ∈ s.path, IsEntryName name := by
  induction depth generalizing above path here front s with
  | zero => cases h
  | succ depth ih =>
      rw [listingTo_succ] at h
      refine isEntryName_of_mem_listNames (fun name inside => ?_) ih named h
      obtain ⟨node, found⟩ := exists_find?_of_mem_namesInside name inside
      exact (wf.find?_above found).1

theorem mem_entries_listingTo (wf : d.WellFormed) {here : Place} (plain : d.IsPlainBelow here)
    (followLinks : Bool) (depth : Nat) (above : List Place) (path : Text) {front : List Name}
    {s : Selected} :
    s ∈ (d.listingTo followLinks depth above path here).entries front ↔
      ∃ names node, names ≠ [] ∧ names.length ≤ depth ∧ d.find? (here ++ names) = some node ∧
        s = ⟨front ++ names, node.isDirectory⟩ := by
  induction depth generalizing above path here front with
  | zero =>
      refine iff_of_false List.not_mem_nil ?_
      rintro ⟨names, node, ne, bound, _⟩
      exact ne (List.eq_nil_of_length_eq_zero (Nat.le_zero.mp bound))
  | succ depth ih =>
      rw [listingTo_succ, mem_entries_listNames plain exists_find?_of_mem_namesInside]
      constructor
      · rintro ⟨name, _, node, found, rfl | ⟨rfl, deeper⟩⟩
        · exact ⟨[name], node, List.cons_ne_nil _ _, by simp, found, rfl⟩
        · obtain ⟨names, node, ne, bound, found, rfl⟩ := (ih (plain.append [name]) _ _).mp deeper
          rw [List.append_assoc, List.singleton_append] at found
          exact ⟨name :: names, node, List.cons_ne_nil _ _, Nat.succ_le_succ bound, found, by simp⟩
      · rintro ⟨names, node, ne, bound, found, rfl⟩
        cases names with
        | nil => exact absurd rfl ne
        | cons name rest =>
            cases rest with
            | nil => exact ⟨name, (d.mem_namesInside_iff).mpr ⟨node, found⟩, node, found, .inl rfl⟩
            | cons next rest =>
                rw [List.append_cons] at found
                have stands := wf.find?_of_append (List.cons_ne_nil next rest) found
                refine ⟨name, (d.mem_namesInside_iff).mpr ⟨_, stands⟩, _, stands, .inr ⟨rfl, ?_⟩⟩
                exact (ih (plain.append [name]) _ _).mpr ⟨next :: rest, node,
                  List.cons_ne_nil _ _, Nat.le_of_succ_le_succ bound, found, by simp⟩

variable {root : Text} {place : Place}

theorem listing_eq (led : d.look .follow root = .ok (place, .directory)) (followLinks : Bool) :
    d.listing followLinks root = d.listingTo followLinks d.depthLimit [place] root place := by
  rw [listing, led]

theorem wellFormed_listing (wf : d.WellFormed) (followLinks : Bool) (root : Text) :
    (d.listing followLinks root).WellFormed := by
  rw [listing]
  split
  · exact wellFormed_listingTo wf followLinks _ _ _ _
  · exact .done

/-- A listing has an entry for everything below the directory. -/
theorem isEntryName_of_mem_listing (wf : d.WellFormed) {followLinks : Bool} {root : Text}
    {s : Selected} (h : s ∈ (d.listing followLinks root).entries []) :
    ∀ name ∈ s.path, IsEntryName name := by
  rw [listing] at h
  split at h
  · exact isEntryName_of_mem_listingTo wf _ _ _ _ _ [] s (List.forall_mem_nil _) h
  · cases h

theorem mem_entries_listing (wf : d.WellFormed)
    (led : d.look .follow root = .ok (place, .directory)) (plain : d.IsPlainBelow place)
    (followLinks : Bool) {s : Selected} :
    s ∈ (d.listing followLinks root).entries [] ↔ s.path ≠ [] ∧
      ∃ node, d.find? (place ++ s.path) = some node ∧ s.isDirectory = node.isDirectory := by
  rw [listing_eq led, mem_entries_listingTo wf plain]
  constructor
  · rintro ⟨names, node, ne, _, found, rfl⟩
    exact ⟨ne, node, found, rfl⟩
  · rintro ⟨ne, node, found, kind⟩
    refine ⟨s.path, node, ne, ?_, found, ?_⟩
    · have bound := length_le_length_nodes wf found
      rw [List.length_append] at bound
      calc s.path.length ≤ d.nodes.length + 1 := by omega
        _ ≤ (d.nodes.length + 1) * (d.nodes.length + 1) := Nat.le_mul_self _
    · rw [List.nil_append, ← kind]

/-- What was built, in a directory of its own, and another file. -/
def built : Disk :=
  (((⟨[], []⟩ : Disk).put ["build"] .directory).put ["build", "x.txt"] (.file (.ofText "x"))).put
    ["keep.txt"] (.file .empty)

theorem wellFormed_built : built.WellFormed := by
  have wf := Disk.WellFormed.nothing []
  have wf := wf.put_free [] "build" (by decide) rfl rfl .directory
  have wf := wf.put_free ["build"] "x.txt" (by decide) rfl rfl (.file (.ofText "x"))
  exact wf.put_free [] "keep.txt" (by decide) rfl rfl (.file .empty)

theorem isPlainBelow_built (place : Place) : built.IsPlainBelow place := by
  refine .put (.put (.put (.nothing [] place) (by decide) ?_) (by decide) ?_) (by decide) ?_ <;>
    exact fun _ link => nomatch link

end Disk

end FileSelect

import FileSelect.Proofs.Disk.Removing
import FileSelect.Proofs.Disk.Sparing
import FileSelect.Proofs.Disk.Ways
import FileSelect.Proofs.Selection.Glob
import FileSelect.Proofs.Text.Sorting
import FileSelect.Selection.Delete

/-!
# Deletions

To delete is to remove the entries that the members name, one after the other. When no
path runs through an entry that was removed before, a directory is empty at its turn
exactly when everything below it has been named, so the order among the members does
not show in what is left.
-/

namespace FileSelect

namespace Disk

/-- Whatever stands at the place or below it is at one of the places. -/
def AllBelow (d : Disk) (places : List Place) (place : Place) : Prop :=
  ∀ names node, d.find? (place ++ names) = some node → place ++ names ∈ places

section AllBelow

variable {d : Disk} {places : List Place} {place : Place}

theorem AllBelow.mem (all : d.AllBelow places place) {node : Node}
    (found : d.find? place = some node) : place ∈ places := by
  have inside := all [] node
  rw [List.append_nil] at inside
  exact inside found

theorem AllBelow.append (all : d.AllBelow places place) (more : List Name) :
    d.AllBelow places (place ++ more) := by
  intro names node found
  rw [List.append_assoc] at found ⊢
  exact all (more ++ names) node found

theorem allBelow_congr {others : List Place} (same : ∀ query, query ∈ places ↔ query ∈ others) :
    d.AllBelow places place ↔ d.AllBelow others place :=
  forall₃_congr fun _ _ _ => same _

variable (wf : d.WellFormed) (inside : place ∈ places)

include wf inside

theorem allBelow_of_names
    (each : ∀ name node, d.find? (place ++ [name]) = some node →
      d.AllBelow places (place ++ [name])) : d.AllBelow places place := by
  intro names node found
  cases names with
  | nil => rwa [List.append_nil]
  | cons name rest =>
      rw [List.append_cons] at found ⊢
      obtain ⟨other, there⟩ := wf.exists_find?_of_append found
      exact each name other there rest node found

/-- Nothing is below what is no directory. -/
theorem allBelow_of_entry {node : Node} (found : d.find? place = some node)
    (other : node ≠ .directory) : d.AllBelow places place := by
  refine allBelow_of_names wf inside fun name below there => ?_
  have stands := (wf.find?_above there).2
  exact absurd (Option.some.inj (found.symm.trans stands)) other

omit inside in
/-- The table lists what is below a place. -/
theorem allBelow_iff (ne : place ≠ []) :
    d.AllBelow places place ↔ ∀ entry ∈ d.nodes, place <+: entry.1 → entry.1 ∈ places := by
  constructor
  · rintro all ⟨query, node⟩ present ⟨names, rfl⟩
    exact all names node (wf.mem_nodes_iff.mp present).2
  · intro all names node found
    have top : place ++ names ≠ [] := fun none => ne (List.append_eq_nil_iff.mp none).1
    exact all _ (mem_nodes_of_find? top found) (List.prefix_append place names)

end AllBelow

end Disk

namespace Selection

/-! ## Removing members in a row -/

/-- Every member names an entry, and no path runs through an entry that is named by an
earlier member. -/
structure IsSchedule (d : Disk) (entry : Member → Place) (all : List Member) : Prop where
  names : ∀ m ∈ all, d.Names m.path (entry m)
  later : all.Pairwise fun n m => entry n ≠ entry m → ¬d.RunsThrough .keep m.path (entry n)

/-- What is gone when the turn has been that of some of the members. -/
def GoneAfter (d : Disk) (entry : Member → Place) (all before : List Member)
    (place : Place) : Prop :=
  place ∈ before.map entry ∧ d.AllBelow (all.map entry) place

section Run

variable {d e : Disk} {entry : Member → Place} {all before after : List Member} {m : Member}
variable (wf : d.WellFormed) (schedule : IsSchedule d entry all)
variable (lacks : d.Lacks (GoneAfter d entry all before) e)

theorem goneAfter_concat_iff {place : Place} :
    GoneAfter d entry all (before ++ [m]) place ↔ GoneAfter d entry all before place ∨
      place = entry m ∧ d.AllBelow (all.map entry) place := by
  rw [GoneAfter, List.map_append, List.mem_append, List.map_singleton, List.mem_singleton,
    or_and_right]
  rfl

include schedule lacks

/-- At its turn the path of a member leads to the entry that it names, unless another member
named the same. -/
theorem names_at_turn (split : all = before ++ m :: after)
    (left : ¬GoneAfter d entry all before (entry m)) : e.Names m.path (entry m) := by
  have inside : m ∈ all := split ▸ List.mem_append_right before List.mem_cons_self
  have names := schedule.names m inside
  refine names.later lacks (lacks.resolve_eq (by decide) names.resolve_eq ?_) left
  intro query was
  obtain ⟨n, nIn, rfl⟩ := List.mem_map.mp was.1
  have later := schedule.later
  rw [split] at later
  refine (List.pairwise_append.mp later).2.2 n nIn m List.mem_cons_self fun same => ?_
  exact left (same ▸ was)

include wf

/-- A directory is empty at its turn when everything below it is named by some member. -/
theorem vacant_iff_allBelow (split : all = before ++ m :: after)
    (left : ¬GoneAfter d entry all before (entry m)) :
    e.namesInside (entry m) = [] ↔ d.AllBelow (all.map entry) (entry m) := by
  have inside : m ∈ all := split ▸ List.mem_append_right before List.mem_cons_self
  rw [Disk.namesInside_eq_nil_iff]
  constructor
  · intro vacant
    refine Disk.allBelow_of_names wf (List.mem_map_of_mem inside) fun name node found => ?_
    by_contra missed
    have kept : ¬GoneAfter d entry all before (entry m ++ [name]) := fun was => missed was.2
    rw [← lacks.rest kept, vacant name] at found
    cases found
  · intro below name
    cases found : d.find? (entry m ++ [name]) with
    | none =>
        rw [Option.eq_none_iff_forall_ne_some]
        intro node there
        rw [(lacks.find?_eq_some_iff.mp there).2] at found
        cases found
    | some node =>
        refine lacks.free ⟨?_, below.append [name]⟩
        obtain ⟨n, nIn, same⟩ := List.mem_map.mp (below [name] node found)
        have other : entry m ≠ entry n := fun equal =>
          List.cons_ne_nil name [] (List.self_eq_append_right.mp (equal.trans same))
        have runs := (schedule.names n nIn).runsThrough same
          (schedule.names m inside).ne_nil
        have later := schedule.later
        rw [split] at later nIn
        obtain ⟨_, rest, _⟩ := List.pairwise_append.mp later
        refine List.mem_map.mpr ⟨n, (List.mem_append.mp nIn).resolve_right fun behind => ?_, same⟩
        rcases List.mem_cons.mp behind with rfl | behind
        · exact other rfl
        · exact (List.pairwise_cons.mp rest).1 n behind other runs

/-- A member is removed at its turn unless something is left below the entry that it names. -/
theorem remove_at_turn (split : all = before ++ m :: after) (kept : e.WellFormed) :
    (d.AllBelow (all.map entry) (entry m) ∧ ∃ f, e.remove m.path = .ok f ∧ f.WellFormed ∧
        d.Lacks (GoneAfter d entry all (before ++ [m])) f) ∨
      (¬d.AllBelow (all.map entry) (entry m) ∧ e.remove m.path = .error .notEmpty ∧
        d.Lacks (GoneAfter d entry all (before ++ [m])) e) := by
  have inside : m ∈ all := split ▸ List.mem_append_right before List.mem_cons_self
  obtain ⟨node, led⟩ := (schedule.names m inside).look
  obtain ⟨_, found⟩ := Disk.look_eq_ok_iff.mp led
  by_cases was : GoneAfter d entry all before (entry m)
  · have missing : e.look .keep m.path = .error .notFound := by
      refine (lacks.look_or (by decide) led).resolve_left fun there => ?_
      exact nomatch (lacks.free was).symm.trans (Disk.look_eq_ok_iff.mp there).2
    refine .inl ⟨was.2, e, Disk.remove_of_missing missing, kept,
      lacks.congr fun {place _} _ => ?_⟩
    rw [goneAfter_concat_iff]
    exact (or_iff_left_of_imp fun same => same.1 ▸ was).symm
  · have names := names_at_turn schedule lacks split was
    have there : e.find? (entry m) = some node := (lacks.rest was).trans found
    have vacant := vacant_iff_allBelow wf schedule lacks split was
    rw [names.remove_eq there]
    by_cases below : d.AllBelow (all.map entry) (entry m)
    · rw [if_neg fun full => full.2 (vacant.mpr below)]
      have empty := Disk.namesInside_eq_nil_iff.mp (vacant.mpr below)
      refine .inl ⟨below, _, rfl, kept.erase names.ne_nil empty,
        (lacks.trans (.erase e names.ne_nil)).congr fun {place _} _ => ?_⟩
      rw [goneAfter_concat_iff]
      exact or_congr_right (and_iff_left_of_imp fun same => same ▸ below).symm
    · have directory : node.isDirectory = true := by
        by_contra other
        exact below (Disk.allBelow_of_entry wf (List.mem_map_of_mem inside) found
          fun same => other (same ▸ rfl))
      rw [if_pos ⟨directory, fun none => below (vacant.mp none)⟩]
      refine .inr ⟨below, rfl, lacks.congr fun {place _} _ => ?_⟩
      rw [goneAfter_concat_iff]
      symm
      rw [or_iff_left]
      rintro ⟨rfl, all⟩
      exact below all

/-- By the members that are left: what is gone so far is what the members before them named. -/
theorem deleteIn_from (split : all = before ++ after) (kept : e.WellFormed) :
    (deleteIn after e).2.WellFormed ∧
      d.Lacks (GoneAfter d entry all all) (deleteIn after e).2 ∧
      ((deleteIn after e).1 = true ↔ ∀ m ∈ after, d.AllBelow (all.map entry) (entry m)) := by
  induction after generalizing before e with
  | nil =>
      rw [List.append_nil] at split
      subst split
      exact ⟨kept, lacks, iff_of_true rfl (List.forall_mem_nil _)⟩
  | cons m after ih =>
      have next := split
      rw [List.append_cons] at next
      rw [List.forall_mem_cons]
      rcases remove_at_turn wf schedule lacks split kept with
        ⟨below, f, removed, kept, lacks⟩ | ⟨left, failed, lacks⟩
      · rw [deleteIn, removed, and_iff_right below]
        exact ih lacks next kept
      · obtain ⟨wellFormed, lacks, _⟩ := ih lacks next kept
        rw [deleteIn, failed]
        exact ⟨wellFormed, lacks, iff_of_false Bool.false_ne_true fun all => left all.1⟩

omit lacks in
/-- Members that are removed on schedule leave what is not named, and the directories that
something of it is left in. -/
theorem deleteIn_lacks :
    (deleteIn all d).2.WellFormed ∧
      d.Lacks (d.AllBelow (all.map entry)) (deleteIn all d).2 ∧
      ((deleteIn all d).1 = true ↔ ∀ m ∈ all, d.AllBelow (all.map entry) (entry m)) := by
  have start : d.Lacks (GoneAfter d entry all []) d :=
    (Disk.Lacks.refl d).congr fun _ => ⟨False.elim, fun was => nomatch was.1⟩
  obtain ⟨wellFormed, lacks, succeeds⟩ := deleteIn_from wf schedule start rfl wf
  refine ⟨wellFormed, lacks.congr fun found => ?_, succeeds⟩
  exact ⟨And.right, fun below => ⟨below.mem found, below⟩⟩

end Run

/-! ## The deepest member first -/

open Std (TransCmp OrientedCmp)

instance : TransCmp Member.deepestFirst := by
  let _ : Ord Text := ⟨Text.order⟩
  have _ : Std.TransOrd Text := inferInstanceAs (TransCmp Text.order)
  have _ : TransCmp fun a b : Member => compareOn (fun m => Text.byteLength m.placeText) b a :=
    TransCmp.opposite
  exact inferInstanceAs (TransCmp (compareLex
    (fun a b : Member => compareOn (fun m => Text.byteLength m.placeText) b a)
    (compareOn Member.placeText)))

/-- The text of a place is shorter than the text of anything below it. -/
theorem byteLength_text_lt {place below : Place} (ne : below ≠ [])
    (named : ∀ name ∈ below, name ≠ []) :
    Text.byteLength place.text < Text.byteLength (Place.text (place ++ below)) := by
  obtain ⟨name, rest, rfl⟩ := List.exists_cons_of_ne_nil ne
  have name_pos := Text.byteLength_pos (named name List.mem_cons_self)
  have longer : 1 < Text.byteLength ((name :: rest).flatMap fun name => '/' :: name) := by
    have slash : Text.byteLength ('/' :: name) = 1 + Text.byteLength name :=
      Text.byteLength_append ['/'] name
    rw [List.flatMap_cons, Text.byteLength_append, slash]
    omega
  cases place with
  | nil => exact longer
  | cons first place =>
      have whole : Place.text (first :: place ++ name :: rest) =
          Place.text (first :: place) ++ (name :: rest).flatMap fun name => '/' :: name :=
        List.flatMap_append
      rw [whole, Text.byteLength_append]
      omega

theorem delete_eq_deleteIn {s : Selection}
    (sorted : s.members.Pairwise fun m n => (m.deepestFirst n).isLE = true) (d : Disk) :
    s.delete d = deleteIn s.members d := by
  rw [delete, sortBy_of_pairwise sorted]

/-- What is inside a directory goes before it. -/
theorem deepestFirst_eq_lt {m n : Member} (named : ∀ name ∈ m.place, name ≠ [])
    (inside : n.place <+: m.place) (other : n.place ≠ m.place) :
    m.deepestFirst n = .lt := by
  obtain ⟨below, same⟩ := inside
  have ne : below ≠ [] := by
    rintro rfl
    exact other (by rw [← same, List.append_nil])
  have longer : Text.byteLength n.placeText < Text.byteLength m.placeText := by
    rw [Member.placeText, Member.placeText, ← same]
    exact byteLength_text_lt ne fun name inside =>
      named name (same ▸ List.mem_append_right n.place inside)
  rw [Member.deepestFirst, Nat.compare_eq_lt.mpr longer]
  rfl

/-! ## What is taken away at most -/

/-- Whatever the order, nothing is taken away but what the path of some member names. By the
members: what a path names after some removals, it named before. -/
theorem exists_lacks_deleteIn {d : Disk} (ms : List Member) :
    ∃ gone, d.Lacks gone (deleteIn ms d).2 ∧
      ∀ place, gone place → ∃ m ∈ ms, d.resolve .keep m.path = .ok place := by
  induction ms generalizing d with
  | nil => exact ⟨_, .refl d, fun _ none => none.elim⟩
  | cons m rest ih =>
      rw [deleteIn]
      cases removed : d.remove m.path with
      | error fault =>
          obtain ⟨gone, lacks, named⟩ := ih (d := d)
          refine ⟨gone, lacks, fun place was => ?_⟩
          obtain ⟨n, inside, led⟩ := named place was
          exact ⟨n, List.mem_cons_of_mem m inside, led⟩
      | ok e =>
          obtain ⟨gone, lacks, named⟩ := ih (d := e)
          rcases Disk.exists_of_remove removed with rfl | ⟨entry, names, rfl⟩
          · refine ⟨gone, lacks, fun place was => ?_⟩
            obtain ⟨n, inside, led⟩ := named place was
            exact ⟨n, List.mem_cons_of_mem m inside, led⟩
          · have first := Disk.Lacks.erase d names.ne_nil
            refine ⟨_, first.trans lacks, fun place was => ?_⟩
            rcases was with rfl | was
            · exact ⟨m, List.mem_cons_self, names.resolve_eq⟩
            · obtain ⟨n, inside, led⟩ := named place was
              exact ⟨n, List.mem_cons_of_mem m inside, first.keeps.resolve (by decide) led⟩

/-- What a deletion takes away was named by the path of a member. -/
theorem exists_named_of_delete {d : Disk} {s : Selection} {place : Place} {node : Node}
    (found : d.find? place = some node) (gone : (s.delete d).2.find? place = none) :
    ∃ m ∈ s.members, d.resolve .keep m.path = .ok place := by
  obtain ⟨taken, lacks, named⟩ := exists_lacks_deleteIn (d := d)
    (sortBy Member.deepestFirst s.members)
  by_cases was : taken place
  · obtain ⟨m, inside, led⟩ := named place was
    exact ⟨m, mem_sortBy.mp inside, led⟩
  · rw [delete, lacks.rest was, found] at gone
    cases gone

/-! ## Exactly what is taken away -/

section Delete

variable {d : Disk} {s : Selection} {entry : Member → Place} (wf : d.WellFormed)

include wf

/--
When every member names an entry, and comes before the members whose entries its path runs
through, a deletion takes away the entries of which everything below has been named.
-/
theorem delete_lacks (names : ∀ m ∈ s.members, d.Names m.path (entry m))
    (first : ∀ m ∈ s.members, ∀ n ∈ s.members, entry n ≠ entry m →
      d.RunsThrough .keep m.path (entry n) → m.deepestFirst n = .lt) :
    (s.delete d).2.WellFormed ∧
      d.Lacks (d.AllBelow (s.members.map entry)) (s.delete d).2 ∧
      ((s.delete d).1 = true ↔ ∀ m ∈ s.members, d.AllBelow (s.members.map entry) (entry m)) := by
  have schedule : IsSchedule d entry (sortBy Member.deepestFirst s.members) := by
    refine ⟨fun m inside => names m (mem_sortBy.mp inside), ?_⟩
    refine (pairwise_sortBy Member.deepestFirst s.members).imp_of_mem ?_
    intro n m nIn mIn before other runs
    have after := first m (mem_sortBy.mp mIn) n (mem_sortBy.mp nIn) other runs
    have swapped : n.deepestFirst m = (m.deepestFirst n).swap := OrientedCmp.eq_swap
    rw [swapped, after] at before
    cases before
  have same : ∀ query, query ∈ (sortBy Member.deepestFirst s.members).map entry ↔
      query ∈ s.members.map entry := by
    simp only [List.mem_map, mem_sortBy, implies_true]
  obtain ⟨wellFormed, lacks, succeeds⟩ := deleteIn_lacks wf schedule
  refine ⟨wellFormed, lacks.congr fun _ => Disk.allBelow_congr same, succeeds.trans ?_⟩
  simp only [mem_sortBy, Disk.allBelow_congr same]

omit wf in
/-- Below a root whose own path runs through nothing below it, a member goes before what its
path runs through. -/
theorem deepestFirst_of_runsThrough {root : Text} {source : Place} (wf : d.WellFormed)
    (led : d.look .follow root = .ok (source, .directory)) {names others : List Name}
    (free : ¬d.RunsThrough .follow root (source ++ others)) (present : d.Holds source names)
    (top : others ≠ []) (other : others ≠ names)
    (runs : d.RunsThrough .keep (Member.below root source names).path (source ++ others)) :
    (Member.below root source names).deepestFirst (.below root source others) = .lt := by
  obtain ⟨ne, node, found, plain⟩ := present
  have into := Disk.leadsInto_of_look led
  have rootNe := Disk.ne_nil_of_resolve (Disk.look_eq_ok_iff.mp led).1
  have apart : source ++ others ≠ source := fun same => top (List.append_right_eq_self.mp same)
  have without := into.erase rootNe (List.append_ne_nil_of_right_ne_nil source top) apart free
  have inside := into.isPrefix_of_runsThrough wf ne found plain top without runs
  refine deepestFirst_eq_lt (fun name nameIn => ?_)
    ((List.prefix_append_right_inj source).mpr inside)
    fun same => other (List.append_cancel_left same)
  exact (wf.isEntryName_of_find? found name nameIn).ne_nil

/-- When the path of the root runs through no entry, a deletion takes away those of which
everything below is an entry. -/
theorem delete_below {root : Text} {source : Place}
    (led : d.look .follow root = .ok (source, .directory))
    {entries : List (List Name)} (present : ∀ names ∈ entries, d.Holds source names)
    (free : ∀ names ∈ entries, ¬d.RunsThrough .follow root (source ++ names))
    (settings : Settings) :
    (delete ⟨entries.map (.below root source), settings⟩ d).2.WellFormed ∧
      d.Lacks (d.AllBelow (entries.map (source ++ ·)))
        (delete ⟨entries.map (.below root source), settings⟩ d).2 := by
  let s : Selection := ⟨entries.map (.below root source), settings⟩
  have names : ∀ m ∈ s.members, d.Names m.path m.place := by
    refine List.forall_mem_map.mpr fun names inside => ?_
    obtain ⟨ne, node, found, plain⟩ := present names inside
    exact (Disk.leadsInto_of_look led).names_append wf ne found plain
  have first : ∀ m ∈ s.members, ∀ n ∈ s.members, n.place ≠ m.place →
      d.RunsThrough .keep m.path n.place → m.deepestFirst n = .lt := by
    refine List.forall_mem_map.mpr fun names inside =>
      List.forall_mem_map.mpr fun others otherIn other => ?_
    exact deepestFirst_of_runsThrough wf led (free others otherIn) (present names inside)
      (present others otherIn).1 fun same => other (congrArg (source ++ ·) same)
  have places : s.members.map (fun m => m.place) = entries.map (source ++ ·) := List.map_map
  obtain ⟨wellFormed, lacks, _⟩ := delete_lacks wf names first
  exact ⟨wellFormed, places ▸ lacks⟩

/--
Links or not: when the entries of every selected directory are named as well, and every
member comes before those whose entries its path runs through, a deletion succeeds. No
member's path leads anywhere afterwards, and what no member names is as it was.
-/
theorem delete_named (names : ∀ m ∈ s.members, d.Names m.path (entry m))
    (first : ∀ m ∈ s.members, ∀ n ∈ s.members, entry n ≠ entry m →
      d.RunsThrough .keep m.path (entry n) → m.deepestFirst n = .lt)
    (whole : ∀ m ∈ s.members, d.find? (entry m) = some .directory → ∀ below node,
      d.find? (entry m ++ below) = some node → ∃ n ∈ s.members, entry n = entry m ++ below) :
    (s.delete d).1 = true ∧
    (∀ m ∈ s.members, (s.delete d).2.find? (entry m) = none ∧
      (s.delete d).2.look .keep m.path = .error .notFound) ∧
    ∀ place, place ∉ s.members.map entry → (s.delete d).2.find? place = d.find? place := by
  obtain ⟨_, lacks, succeeds⟩ := delete_lacks wf names first
  have all : ∀ m ∈ s.members, d.AllBelow (s.members.map entry) (entry m) := by
    intro m inside
    obtain ⟨node, found⟩ := (names m inside).exists_node
    by_cases directory : node = .directory
    · subst directory
      exact fun below node there => List.mem_map.mpr (whole m inside found below node there)
    · exact Disk.allBelow_of_entry wf (List.mem_map_of_mem inside) found directory
  refine ⟨succeeds.mpr all, fun m inside => ⟨lacks.free (all m inside), ?_⟩, fun place other => ?_⟩
  · obtain ⟨node, led⟩ := (names m inside).look
    refine (lacks.look_or (by decide) led).resolve_left fun there => ?_
    exact nomatch (lacks.free (all m inside)).symm.trans (Disk.look_eq_ok_iff.mp there).2
  · cases found : d.find? place with
    | none =>
        rw [Option.eq_none_iff_forall_ne_some]
        intro node there
        exact nomatch found.symm.trans (lacks.find?_eq_some_iff.mp there).2
    | some node => exact (lacks.rest fun was => other (was.mem found)).trans found

end Delete

/-- A directory that holds a link to one of two files beside it. -/
def linkOut (target : Text) : Disk :=
  let files := (((⟨[], []⟩ : Disk).put ["x"] (.file .empty)).put ["files"] .directory).put
    ["files", "x"] (.file .empty)
  (files.put ["d"] .directory).put ["d", "l"] (.link target)

theorem wellFormed_linkOut (target : Text) : (linkOut target).WellFormed := by
  have wf := Disk.WellFormed.nothing []
  have wf := wf.put_free [] "x" (by decide) rfl rfl (.file .empty)
  have wf := wf.put_free [] "files" (by decide) rfl rfl .directory
  have wf := wf.put_free ["files"] "x" (by decide) rfl rfl (.file .empty)
  have wf := wf.put_free [] "d" (by decide) rfl rfl .directory
  exact wf.put_free ["d"] "l" (by decide) rfl rfl (.link target)

/-- The directory and the link in it, which leads to the place. -/
def linkOutMembers (place : Place) : Selection :=
  ⟨[⟨"/", "d", ["d"]⟩, ⟨"/", "d/l", place⟩], .standard⟩

/-- Each of the two names what its relative path says. -/
theorem names_linkOut (target : Text) (place : Place) :
    ∀ m ∈ (linkOutMembers place).members, (linkOut target).Names m.path (segments m.relative) := by
  refine List.forall_mem_cons.mpr ⟨⟨⟨[], "d", rfl, fun _ => rfl⟩, .directory, rfl⟩, ?_⟩
  exact List.forall_mem_singleton.mpr ⟨⟨["d"], "l", rfl, fun _ => rfl⟩, .link target, rfl⟩

/-- Below the directory there is nothing but the link. -/
theorem allBelow_linkOut (target : Text) (place : Place) : (linkOut target).AllBelow
    ((linkOutMembers place).members.map fun m => segments m.relative) ["d"] := by
  rw [Disk.allBelow_iff (wellFormed_linkOut target) (by decide)]
  intro entry inside
  have key : entry.1 ∈ (linkOut target).nodes.map Prod.fst := List.mem_map_of_mem inside
  have each : ∀ query ∈ ([["d", "l"], ["d"], ["files", "x"], ["files"], ["x"]] : List Place),
      [Text.ofString "d"] <+: query → query ∈ ([["d"], ["d", "l"]] : List Place) := by decide
  exact each entry.1 key

theorem whole_linkOut (target : Text) (place : Place) : ∀ m ∈ (linkOutMembers place).members,
    (linkOut target).find? (segments m.relative) = some .directory → ∀ below node,
      (linkOut target).find? (segments m.relative ++ below) = some node →
      ∃ n ∈ (linkOutMembers place).members, segments n.relative = segments m.relative ++ below := by
  refine List.forall_mem_cons.mpr ⟨fun _ below node found => ?_,
    List.forall_mem_singleton.mpr fun link => nomatch link⟩
  exact List.mem_map.mp (allBelow_linkOut target place below node found)

/-- A link to a place with a longer name goes before its directory. -/
theorem delete_named_linkOut :
    (linkOut "/files/x").WellFormed ∧
      (∀ m ∈ (linkOutMembers ["files", "x"]).members,
        (linkOut "/files/x").Names m.path (segments m.relative)) ∧
      ((linkOutMembers ["files", "x"]).delete (linkOut "/files/x")).1 = true ∧
      ((linkOutMembers ["files", "x"]).delete (linkOut "/files/x")).2.find? ["d"] = none := by
  have wf := wellFormed_linkOut "/files/x"
  have names := names_linkOut "/files/x" ["files", "x"]
  have whole := whole_linkOut "/files/x" ["files", "x"]
  have first : ∀ m ∈ (linkOutMembers ["files", "x"]).members,
      ∀ n ∈ (linkOutMembers ["files", "x"]).members, segments n.relative ≠ segments m.relative →
      (linkOut "/files/x").RunsThrough .keep m.path (segments n.relative) →
      m.deepestFirst n = .lt := by
    have apart : ¬(linkOut "/files/x").RunsThrough .keep "/d" ["d", "l"] := by
      have before : (linkOut "/files/x").resolve .keep "/d" = .ok ["d"] := rfl
      have after : ((linkOut "/files/x").erase ["d", "l"]).resolve .keep "/d" = .ok ["d"] := rfl
      exact fun runs => runs (after.trans before.symm)
    refine List.forall_mem_cons.mpr ⟨?_, List.forall_mem_singleton.mpr ?_⟩ <;>
      refine List.forall_mem_cons.mpr ⟨?_, List.forall_mem_singleton.mpr ?_⟩
    · exact fun other => absurd rfl other
    · exact fun _ runs => absurd runs apart
    · exact fun _ _ => by decide +kernel
    · exact fun other => absurd rfl other
  obtain ⟨succeeds, gone, _⟩ := delete_named wf names first whole
  exact ⟨wf, names, succeeds, (gone _ List.mem_cons_self).1⟩

/-- A link to a place with a shorter name is left to the end, and its directory stays. -/
theorem delete_keeps_directory_linkOut :
    (linkOut "/x").WellFormed ∧
      (∀ m ∈ (linkOutMembers ["x"]).members,
        ∃ node, (linkOut "/x").look .follow m.path = .ok (m.place, node)) ∧
      (∀ m ∈ (linkOutMembers ["x"]).members, (linkOut "/x").Names m.path (segments m.relative)) ∧
      (∀ m ∈ (linkOutMembers ["x"]).members,
        (linkOut "/x").find? (segments m.relative) = some .directory → ∀ below node,
          (linkOut "/x").find? (segments m.relative ++ below) = some node →
          ∃ n ∈ (linkOutMembers ["x"]).members,
            segments n.relative = segments m.relative ++ below) ∧
      ((linkOutMembers ["x"]).delete (linkOut "/x")).1 = false ∧
      ((linkOutMembers ["x"]).delete (linkOut "/x")).2.isDirectory "/d" = true := by
  have present : ∀ m ∈ (linkOutMembers ["x"]).members,
      ∃ node, (linkOut "/x").look .follow m.path = .ok (m.place, node) :=
    List.forall_mem_cons.mpr ⟨⟨.directory, rfl⟩,
      List.forall_mem_singleton.mpr ⟨.file .empty, rfl⟩⟩
  refine ⟨wellFormed_linkOut "/x", present, names_linkOut "/x" ["x"],
    whole_linkOut "/x" ["x"], ?_⟩
  rw [delete_eq_deleteIn (by decide +kernel)]
  decide +kernel

section Plain

variable {d : Disk} {s : Selection} (wf : d.WellFormed)

include wf

/--
What a deletion does where there are no links, in whatever order the members come: a file
goes, and a directory of which everything below has been selected; everything else stays.
It succeeds when this takes away all directories among the members.
-/
theorem delete_plain (plain : d.IsPlainBelow [])
    (present : ∀ m ∈ s.members, ∃ node, d.look .follow m.path = .ok (m.place, node))
    (straight : ∀ m ∈ s.members, Disk.IsStraight m.path) :
    (∀ place node, (s.delete d).2.find? place = some node ↔ d.find? place = some node ∧
      ¬(place ∈ s.places ∧ (node = .directory → d.AllBelow s.places place))) ∧
    ((s.delete d).1 = true ↔
      ∀ m ∈ s.members, m.isDirectory d = true → d.AllBelow s.places m.place) := by
  have names : ∀ m ∈ s.members, d.Names m.path m.place := fun m inside =>
    (present m inside).elim fun _ led => Disk.names_of_straight plain led (straight m inside)
  have first : ∀ m ∈ s.members, ∀ n ∈ s.members, n.place ≠ m.place →
      d.RunsThrough .keep m.path n.place → m.deepestFirst n = .lt := by
    intro m mIn n _ other runs
    obtain ⟨node, led⟩ := present m mIn
    refine deepestFirst_eq_lt (fun name inside => ?_)
      (Disk.isPrefix_of_straight plain led (straight m mIn) runs) other
    exact (wf.isEntryName_of_find? (Disk.look_eq_ok_iff.mp led).2 name inside).ne_nil
  have directory : ∀ {place node}, place ∈ s.places → d.find? place = some node →
      ((node = .directory → d.AllBelow s.places place) ↔ d.AllBelow s.places place) := by
    intro place node inside found
    by_cases directory : node = .directory
    · exact imp_iff_right directory
    · exact iff_of_true (absurd · directory) (Disk.allBelow_of_entry wf inside found directory)
  obtain ⟨_, lacks, succeeds⟩ := delete_lacks wf names first
  constructor
  · intro place node
    refine lacks.find?_eq_some_iff.trans (and_comm.trans (and_congr_right fun found => ?_))
    refine not_congr ⟨fun was => ⟨was.mem found, fun _ => was⟩, fun ⟨inside, was⟩ => ?_⟩
    exact (directory inside found).mp was
  · refine succeeds.trans (forall₂_congr fun m inside => ?_)
    obtain ⟨node, found⟩ := (names m inside).exists_node
    have placed : m.place ∈ s.places := List.mem_map_of_mem inside
    rw [Member.isDirectory_eq wf found (fun target same => plain _ target (same ▸ found)),
      Node.isDirectory_iff]
    exact (directory placed found).symm

end Plain

/-- The directory that was built, and the file in it behind its directory. -/
def builtMembers : Selection :=
  ⟨[⟨"/", "build", ["build"]⟩, ⟨"/", "build/x.txt", ["build", "x.txt"]⟩], .standard⟩

/-- Both are removed, and the other file stays. -/
theorem delete_plain_built :
    Disk.built.WellFormed ∧ Disk.built.IsPlainBelow [] ∧
      (∀ m ∈ builtMembers.members, ∃ node, Disk.built.look .follow m.path = .ok (m.place, node)) ∧
      (∀ m ∈ builtMembers.members, Disk.IsStraight m.path) ∧
      (builtMembers.delete Disk.built).1 = true ∧
      (∀ m ∈ builtMembers.members, (builtMembers.delete Disk.built).2.find? m.place = none) ∧
      (builtMembers.delete Disk.built).2.find? ["keep.txt"] = some (.file .empty) := by
  have wf := Disk.wellFormed_built
  have plain := Disk.isPlainBelow_built []
  have present : ∀ m ∈ builtMembers.members,
      ∃ node, Disk.built.look .follow m.path = .ok (m.place, node) := by
    refine List.forall_mem_cons.mpr ⟨⟨.directory, rfl⟩, List.forall_mem_singleton.mpr ?_⟩
    exact ⟨.file (.ofText "x"), rfl⟩
  have straight : ∀ m ∈ builtMembers.members, Disk.IsStraight m.path := by
    refine List.forall_mem_cons.mpr ⟨⟨by decide, [], "build", rfl, by decide⟩,
      List.forall_mem_singleton.mpr ⟨by decide, ["build"], "x.txt", rfl, by decide⟩⟩
  have all : Disk.built.AllBelow builtMembers.places ["build"] := by
    rw [Disk.allBelow_iff wf (by decide)]
    decide +kernel
  have each : ∀ m ∈ builtMembers.members, Disk.built.AllBelow builtMembers.places m.place :=
    List.forall_mem_cons.mpr ⟨all, List.forall_mem_singleton.mpr (all.append ["x.txt"])⟩
  obtain ⟨left, succeeds⟩ := delete_plain wf plain present straight
  refine ⟨wf, plain, present, straight, succeeds.mpr fun m inside _ => each m inside,
    fun m inside => ?_, (left _ _).mpr ⟨rfl, fun was => absurd was.1 (by decide)⟩⟩
  rw [Option.eq_none_iff_forall_ne_some]
  intro node there
  exact ((left _ _).mp there).2 ⟨List.mem_map_of_mem inside, fun _ => each m inside⟩

/-- The same two, the directory by a path that ends in a dot. -/
def builtDotted : Selection :=
  ⟨[⟨"/build", "x.txt", ["build", "x.txt"]⟩, ⟨"/build", ".", ["build"]⟩], .standard⟩

/-- A directory cannot be removed by a path that ends in a dot, even when it is empty. -/
theorem delete_fails_dotted :
    Disk.built.WellFormed ∧ Disk.built.IsPlainBelow [] ∧
      (∀ m ∈ builtDotted.members, ∃ node, Disk.built.look .follow m.path = .ok (m.place, node) ∧
        Text.ofString ".." ∉ segments m.path ∧ m.place ≠ []) ∧
      Disk.built.AllBelow builtDotted.places ["build"] ∧
      (builtDotted.delete Disk.built).1 = false ∧
      (builtDotted.delete Disk.built).2.isDirectory "/build" = true := by
  refine ⟨Disk.wellFormed_built, Disk.isPlainBelow_built [], ?_, ?_, ?_⟩
  · refine List.forall_mem_cons.mpr ⟨⟨.file (.ofText "x"), rfl, by decide⟩,
      List.forall_mem_singleton.mpr ⟨.directory, rfl, by decide⟩⟩
  · rw [Disk.allBelow_iff Disk.wellFormed_built (by decide)]
    decide +kernel
  · rw [delete_eq_deleteIn (by decide +kernel)]
    decide +kernel

end Selection

end FileSelect

import FileSelect.Proofs.Disk.Settling
import FileSelect.Proofs.Path.Parent
import FileSelect.Proofs.Scan.Select
import FileSelect.Proofs.Selection.Runs

/-!
# Runs that lead downwards

What patterns and expressions find is named by entries of directories, so a step upwards
comes into a selection only with a relative path that it is given. Without one, no step of
a run brings any, and all relative paths lead down from their anchors.
-/

namespace FileSelect

/-- Without steps upwards, steps settle. -/
theorem Step.exists_settle_of_down {steps : List Step} (down : .up ∉ steps) (below : List Name) :
    ∃ names, settle below steps = some names := by
  induction steps generalizing below with
  | nil => exact ⟨below, rfl⟩
  | cons step rest ih =>
      rw [List.mem_cons, not_or] at down
      obtain ⟨first, down⟩ := down
      cases step with
      | stay => exact ih down below
      | up => exact absurd rfl first
      | enter name => exact ih down (below ++ [name])

/-! ## Found entries -/

theorem up_notMem_of_entryNames {names : List Name} (named : ∀ name ∈ names, IsEntryName name) :
    ['.', '.'] ∉ segments (joinSegments names) := by
  rw [segments_joinSegments fun name inside => (named name inside).toIsName]
  exact fun inside => (named _ inside).up_ne rfl

/-- Whatever a query selects, it names it without a step upwards. -/
theorem Query.up_notMem_of_run {d : Disk} (wf : d.WellFormed) (q : Query) (followLinks : Bool) :
    ∀ f ∈ q.run d followLinks, ['.', '.'] ∉ segments f.relative := by
  intro f inside
  rw [run] at inside
  split at inside
  · cases inside
  · rw [singleFile] at inside
    split at inside
    case h_1 name last =>
      obtain rfl := List.mem_singleton.mp inside
      obtain ⟨named, upward⟩ := Path.isName_of_fileName? last
      rw [segments_of_isName named]
      exact fun same => upward (List.mem_singleton.mp same).symm
    case h_2 => cases inside
  · obtain ⟨s, entry, rfl⟩ := List.mem_map.mp ((q.found_sublist_everything _).subset inside)
    exact up_notMem_of_entryNames (Disk.isEntryName_of_mem_listing wf entry)

namespace Member

/-- No part of the relative path leads upwards. -/
def IsInward (m : Member) : Prop := ['.', '.'] ∉ segments m.relative

theorem isInward_of_locate {d : Disk} {anchor relative : Text} {m : Member}
    (located : locate d anchor relative = .ok m) (down : ['.', '.'] ∉ segments relative) :
    m.IsInward := by
  rw [locate] at located
  split at located
  case h_1 =>
    cases located
    rwa [IsInward, segments_strip]
  case h_2 => cases located

namespace IsInward

variable {m : Member} (inward : m.IsInward)

include inward

theorem flattened : m.flattened.IsInward := by
  rw [Member.flattened]
  split
  case h_1 above name cut =>
    intro inside
    refine inward ?_
    rw [(Text.splitLast?_eq_some_iff.mp cut).1, segments_append_slash]
    exact List.mem_append_right _ inside
  case h_2 => exact inward

/-- A path without steps upwards does not lead above its start. -/
theorem exists_settle :
    ∃ names, Step.settle [] (Step.ofSegments m.relative) = some names := by
  refine Step.exists_settle_of_down (fun inside => ?_) []
  obtain ⟨part, partIn, same⟩ := List.mem_map.mp inside
  rw [Step.ofSegment] at same
  split_ifs at same with _ upward
  exact inward (upward ▸ partIn)

end IsInward

end Member

namespace Selection

/-- The selections of runs that are given no relative path with a step upwards. As in
other runs every step may find a disk of its own; the disks that are searched are well
formed. -/
inductive Inward : Selection → Prop
  | new (settings : Settings) : Inward (empty settings)
  | glob {s : Selection} {d : Disk} (root : Text) (patterns : List Text) :
      Inward s → d.WellFormed → Inward (s.glob d root patterns).1
  | globSpec {s : Selection} (env : Environment) {d : Disk} (spec : Text) :
      Inward s → d.WellFormed → Inward (s.globSpec env d spec).1
  | addMatching {s : Selection} {d : Disk} (root : Text) (expressions : List Text) :
      Inward s → d.WellFormed → Inward (s.addMatching d root expressions).1
  | addPath {s : Selection} (d : Disk) (anchor : Text) {relative : Text} :
      Inward s → ['.', '.'] ∉ segments relative → Inward (s.addPath d anchor relative).1
  | insert {s : Selection} {m : Member} :
      Inward s → m.Made → m.IsInward → Inward (s.insertNew m).2
  | add {s other : Selection} : Inward s → Inward other → Inward (s.add other)
  | extend {s : Selection} {ms : List Member} :
      Inward s → (∀ m ∈ ms, m.Made) → (∀ m ∈ ms, m.IsInward) → Inward (s.extend ms)
  | collect {ms : List Member} :
      (∀ m ∈ ms, m.Made) → (∀ m ∈ ms, m.IsInward) → Inward (collect ms)
  | copyTo {s t : Selection} {destination : Text} {d after : Disk} :
      Inward s → s.copyTo destination d = .ok t after → Inward t
  | moveTo {s t : Selection} {destination : Text} {d after : Disk} :
      Inward s → s.moveTo destination d = .ok t after → Inward t
  | filter {s t : Selection} {patterns : List Text} :
      Inward s → s.filter patterns = .ok t → Inward t
  | flatten {s : Selection} : Inward s → Inward s.flatten
  | files {s : Selection} (d : Disk) : Inward s → Inward (s.files d)
  | directories {s : Selection} (d : Disk) : Inward s → Inward (s.directories d)
  | setDefaultExcludes {s : Selection} (patterns : List Text) :
      Inward s → Inward (s.setDefaultExcludes patterns)
  | reordered {s t : Selection} :
      Inward s → s.members.Perm t.members → s.settings = t.settings → Inward t

namespace Inward

theorem reachable {s : Selection} (run : s.Inward) : s.Reachable := by
  induction run with
  | new settings => exact .new settings
  | glob root patterns _ _ ih => exact .glob _ root patterns ih
  | globSpec env spec _ _ ih => exact .globSpec env _ spec ih
  | addMatching root expressions _ _ ih => exact .addMatching _ root expressions ih
  | addPath d anchor _ _ ih => exact .addPath d anchor _ ih
  | insert _ made _ ih => exact .insert ih made
  | add _ _ ih other => exact .add ih other
  | extend _ made _ ih => exact .extend ih made
  | collect made _ => exact .collect made
  | copyTo _ copied ih => exact .copyTo ih copied
  | moveTo _ moved ih => exact .moveTo ih moved
  | filter _ filtered ih => exact .filter ih filtered
  | flatten _ ih => exact .flatten ih
  | files d _ ih => exact .files d ih
  | directories d _ ih => exact .directories d ih
  | setDefaultExcludes patterns _ ih => exact .setDefaultExcludes patterns ih
  | reordered _ same settings ih => exact .reordered ih same settings

/-- What a query selects is added downwards. -/
theorem addQuery {s : Selection} {d : Disk} (wf : d.WellFormed) (q : Except Failure Query)
    (old : ∀ m ∈ s.members, m.IsInward) : ∀ m ∈ (s.addQuery d q).1.members, m.IsInward := by
  cases q with
  | error failure => exact old
  | ok q =>
      obtain ⟨ms, eq, each⟩ := s.exists_addFound_eq_extend d (q.run d s.settings.followLinks)
      intro m inside
      rw [Selection.addQuery, eq] at inside
      rcases s.mem_extend inside with before | new
      · exact old m before
      · obtain ⟨f, found, located⟩ := each m new
        exact Member.isInward_of_locate located (q.up_notMem_of_run wf _ f found)

/-- By the steps of the run: only what is given could lead upwards. -/
theorem isInward {s : Selection} (run : s.Inward) : ∀ m ∈ s.members, m.IsInward := by
  induction run with
  | new settings => exact List.forall_mem_nil _
  | glob root patterns _ wf ih => exact addQuery wf _ ih
  | globSpec env spec _ wf ih => exact addQuery wf _ ih
  | @addMatching s d root expressions _ wf ih =>
      rw [Selection.addMatching]
      split
      · exact ih
      · obtain ⟨ms, eq, each⟩ := s.exists_addFiles_eq_extend d root _
        intro m inside
        rw [eq] at inside
        rcases s.mem_extend inside with before | new
        · exact ih m before
        · obtain ⟨path, kept, located⟩ := each m new
          obtain ⟨names, listed, rfl⟩ := List.mem_map.mp (List.mem_filter.mp kept).1
          obtain ⟨entry, entryIn, rfl⟩ := Listing.exists_entry_of_mem_files listed
          exact Member.isInward_of_locate located
            (up_notMem_of_entryNames (Disk.isEntryName_of_mem_listing wf entryIn))
  | @addPath s d anchor relative _ down ih =>
      rw [Selection.addPath]
      split
      case h_1 m located =>
        exact fun n inside => (s.mem_insert inside).elim (ih n) fun same =>
          same ▸ Member.isInward_of_locate located down
      case h_2 => exact ih
  | @insert s m _ _ inward ih =>
      exact fun n inside => (s.mem_insert inside).elim (ih n) fun same => same ▸ inward
  | @add s other _ _ ih more =>
      exact fun m inside => (s.mem_extend inside).elim (ih m) (more m)
  | @extend s ms _ _ inward ih =>
      exact fun m inside => (s.mem_extend inside).elim (ih m) (inward m)
  | collect _ inward => exact fun m inside => inward m (mem_of_mem_extend_empty inside)
  | copyTo _ copied ih =>
      obtain ⟨ns, rfl, each⟩ := exists_extend_of_copyTo copied
      intro n inside
      obtain ⟨e, m, mIn, located⟩ := each n (mem_of_mem_extend_empty inside)
      exact Member.isInward_of_locate located (ih m mIn)
  | moveTo _ moved ih =>
      obtain ⟨ns, rfl, each⟩ := exists_extend_of_moveTo moved
      intro n inside
      obtain ⟨e, m, mIn, located⟩ := each n (mem_of_mem_extend_empty inside)
      exact Member.isInward_of_locate located (ih m mIn)
  | filter _ filtered ih =>
      exact fun m inside => ih m ((members_sublist_of_filter filtered).subset inside)
  | flatten _ ih =>
      intro m inside
      obtain ⟨n, old, rfl⟩ := List.mem_map.mp inside
      exact (ih n old).flattened
  | files d _ ih => exact fun m inside => ih m (List.mem_of_mem_filter inside)
  | directories d _ ih => exact fun m inside => ih m (List.mem_of_mem_filter inside)
  | setDefaultExcludes patterns _ ih => exact ih
  | reordered _ same _ ih => exact fun m inside => ih m (same.mem_iff.mpr inside)

end Inward

end Selection

end FileSelect

import FileSelect.Proofs.Disk.Removing
import FileSelect.Proofs.Disk.Renaming
import FileSelect.Proofs.Disk.Settling
import FileSelect.Proofs.Disk.Ways

/-!
# What stays at a destination

A path leads to at most one directory, however a disk spreads without new links. So what
an operation adds can be told by its place: it is at or below where the destination leads
to, or it is a directory on the way there. A path behind the destination that settles
stays below it, as long as there are no links.
-/

namespace FileSelect

/-- The steps in front settle, too. -/
theorem Step.settle_append (below : List Name) (steps more : List Step) :
    settle below (steps ++ more) = (settle below steps).bind fun names => settle names more := by
  induction steps generalizing below with
  | nil => rfl
  | cons step rest ih =>
      cases step with
      | stay => exact ih below
      | up =>
          rw [List.cons_append, settle, settle]
          split
          · rfl
          · exact ih below.dropLast
      | enter name => exact ih (below ++ [name])

namespace Disk

variable {d e f : Disk} {destination : Text} {place : Place}

/-! ## Disks that spread -/

/-- Directories and links stay, files may come and go, and there are no new links. -/
structure Spreads (d e : Disk) : Prop extends d.KeepsWays e where
  old : ∀ {place target}, e.find? place = some (.link target) → d.find? place = some (.link target)

namespace Spreads

theorem refl (d : Disk) : d.Spreads d := ⟨⟨rfl, id, id⟩, id⟩

theorem trans (first : d.Spreads e) (second : e.Spreads f) : d.Spreads f :=
  ⟨first.toKeepsWays.trans second.toKeepsWays, fun found => first.old (second.old found)⟩

theorem startOf_eq (spreads : d.Spreads e) (path : Text) : e.startOf path = d.startOf path := by
  rw [startOf, startOf, spreads.working]

/-- Two disks that have spread from one agree on where steps lead. -/
theorem place_unique (first : d.Spreads e) (second : d.Spreads f) {budget : Nat}
    {here other : Place} {steps : List Step} (leads : Leads e .follow budget here steps place)
    (also : Leads f .follow budget here steps other) : place = other := by
  induction leads with
  | done => cases also; rfl
  | stay _ _ ih => cases also with | stay _ rest => exact ih rest
  | up _ _ ih => cases also with | up _ rest => exact ih rest
  | enter _ found plain _ ih =>
      cases also with
      | enter _ _ _ rest => exact ih rest
      | free _ _ create => cases create
      | keep _ _ keep => cases keep
      | link _ there _ _ _ =>
          have same := found.symm.trans (first.link (second.old there))
          exact absurd (Option.some.inj same) (plain _)
  | free _ _ create => cases create
  | keep _ _ keep => cases keep
  | link _ found _ _ _ ih =>
      have there := second.link (first.old found)
      cases also with
      | enter _ found plain _ => exact absurd (Option.some.inj (found.symm.trans there)) (plain _)
      | free _ _ create => cases create
      | keep _ _ keep => cases keep
      | link _ found _ _ rest =>
          cases found.symm.trans there
          exact ih rest

end Spreads

theorem Extends.spreads (grows : d.Extends e) : d.Spreads e :=
  ⟨grows.keeps.keepsWays, grows.link⟩

/-! ## Where a path leads once its directories are there -/

/-- The parts of the path lead to a directory, at the latest when the disk has spread. -/
def MayLead (d : Disk) (path : Text) (parts : List Text) (place : Place) : Prop :=
  ∃ e, d.Spreads e ∧ e.walk (e.startOf path) parts = .ok place ∧
    e.find? place = some .directory

theorem MayLead.unique {parts : List Text} {other : Place}
    (first : d.MayLead destination parts place) (second : d.MayLead destination parts other) :
    place = other := by
  obtain ⟨e, spreads, led, _⟩ := first
  obtain ⟨f, spreads', led', _⟩ := second
  rw [spreads.startOf_eq] at led
  rw [spreads'.startOf_eq] at led'
  exact spreads.place_unique spreads' (leads_of_trace led) (leads_of_trace led')

theorem MayLead.of_spreads (spreads : d.Spreads e) {parts : List Text}
    (later : e.MayLead destination parts place) : d.MayLead destination parts place := by
  obtain ⟨f, more, led⟩ := later
  exact ⟨f, spreads.trans more, led⟩

theorem LeadsInto.mayLead (into : d.LeadsInto destination place) :
    d.MayLead destination (segments destination) place :=
  ⟨d, .refl d, into.trace_eq, into.stands⟩

/-- What is missing on a path can be made. -/
theorem Makes.mayLead {base : Disk}
    (makes : Makes d (d.startOf destination) (segments destination) base place) :
    d.MayLead destination (segments destination) place := by
  have spreads : d.Spreads base := by
    refine ⟨makes.keeps.keepsWays, fun {query target} found => ?_⟩
    rcases makes.find?_eq query with same | ⟨_, made, _⟩
    · exact same ▸ found
    · cases made.symm.trans found
  exact ⟨base, spreads, (spreads.startOf_eq destination).symm ▸ makes.walk_eq, makes.stands⟩

/-- Where the destination leads to, there are no links. -/
def IsPlainSite (d : Disk) (destination : Text) : Prop :=
  ∀ target, d.MayLead destination (segments destination) target → d.IsPlainBelow target

theorem IsPlainSite.spreads (plain : d.IsPlainSite destination) (spreads : d.Spreads e) :
    e.IsPlainSite destination := fun target later names link found =>
  plain target (later.of_spreads spreads) names link (spreads.old found)

/-- At or below the directory that the destination leads to. -/
def IsInside (d : Disk) (destination : Text) (place : Place) : Prop :=
  ∃ target, d.MayLead destination (segments destination) target ∧ target <+: place

/-- A directory that a beginning of the destination's path leads to. -/
def IsOnTheWay (d : Disk) (destination : Text) (place : Place) : Prop :=
  ∃ front, front <+: segments destination ∧ d.MayLead destination front place

/-- What has come on the disk, or has changed, is at or below the destination, apart from
directories that were missing on the way there. -/
def Confined (d : Disk) (destination : Text) (e : Disk) : Prop :=
  ∀ place node, e.find? place = some node → d.find? place = some node ∨
    d.IsInside destination place ∨ node = .directory ∧ d.IsOnTheWay destination place

/-- The disk has spread, and only at the destination. -/
structure Fills (d : Disk) (destination : Text) (e : Disk) : Prop where
  wellFormed : e.WellFormed
  spreads : d.Spreads e
  confined : d.Confined destination e

namespace Fills

theorem refl (wf : d.WellFormed) : d.Fills destination d := ⟨wf, .refl d, fun _ _ => .inl⟩

theorem trans (first : d.Fills destination e) (second : e.Fills destination f) :
    d.Fills destination f := by
  refine ⟨second.wellFormed, first.spreads.trans second.spreads, fun place node found => ?_⟩
  rcases second.confined place node found with before | ⟨target, led, below⟩ | ⟨rfl, front, way⟩
  · exact first.confined place node before
  · exact .inr (.inl ⟨target, led.of_spreads first.spreads, below⟩)
  · exact .inr (.inr ⟨rfl, front, way.1, way.2.of_spreads first.spreads⟩)

end Fills

/-! ## Behind the destination -/

/-- What is behind the destination settles below it. -/
theorem exists_target_of_walk (plain : d.IsPlainSite destination) {parts : List Text}
    (ne : parts ≠ []) (led : d.walk (d.startOf destination) (segments destination ++ parts) = .ok place)
    {names : List Name} (settled : Step.settle [] (parts.map Step.ofSegment) = some names) :
    ∃ target, d.LeadsInto destination target ∧ place = target ++ names := by
  have ne' : parts.map Step.ofSegment ≠ [] := fun none => ne (List.map_eq_nil_iff.mp none)
  rw [walk, List.map_append] at led
  obtain ⟨target, left, walked, stands, leads⟩ := Leads.exists_of_append ne' led
  have into : d.LeadsInto destination target := ⟨walked, stands⟩
  refine ⟨target, into, ?_⟩
  exact (List.append_nil target ▸ leads).place_eq_of_settle (plain target into.mayLead) settled

theorem segments_ne_nil {path : Text} (ne : path ≠ []) (last : path.getLast? ≠ some '/') :
    segments path ≠ [] := by
  intro noName
  have steps := Step.ofPath_ne_nil ne
  rw [Step.ofPath_eq_ofSegments last, Step.ofSegments, noName] at steps
  exact steps rfl

/-- A relative path without slashes at its ends is walked behind the destination. -/
theorem resolve_append_eq_walk {relative : Text} (ne : relative ≠ [])
    (head : relative.head? ≠ some '/') (last : relative.getLast? ≠ some '/') :
    d.resolve .follow (Path.append destination relative) =
      d.walk (d.startOf destination) (segments destination ++ segments relative) := by
  have start : d.startOf (Path.append destination relative) = d.startOf destination := by
    rw [startOf, startFrom, Path.isAbsolute_append_of_relative (Path.isAbsolute_of_head_ne head),
      startOf, startFrom]
  rw [resolve_eq (Path.append_ne_nil ne), start, Step.ofPath_append_relative ne head last, walk,
    List.map_append, Step.ofSegments, Step.ofSegments]

/-! ## Making directories -/

/-- Only directories are new, and a beginning of the path leads to each of them. -/
def MadeFor (d : Disk) (path : Text) (e : Disk) : Prop :=
  ∀ place, e.find? place = d.find? place ∨ e.find? place = some .directory ∧
    ∃ front, front <+: segments path ∧ e.walk (d.startOf path) front = .ok place

theorem MadeFor.trans {path : Text} (first : d.MadeFor path e) (later : e.MadeFor path f)
    (keeps : e.Keeps f) (start : e.startOf path = d.startOf path) : d.MadeFor path f := by
  intro place
  rcases later place with same | made
  · rcases first place with before | ⟨directory, front, way, led⟩
    · exact .inl (same.trans before)
    · exact .inr ⟨same.trans directory, front, way, keeps.walk led⟩
  · exact .inr (start ▸ made)

theorem madeFor_makeDirectory {path : Text} (made : d.makeDirectory path = .ok e) :
    d.MadeFor path e := by
  obtain ⟨parts, name, above, read, named, walked, stands, free, rfl⟩ := exists_of_makeDirectory made
  have arrived : Makes d (d.startOf path) parts d above := .arrived walked stands
  have made := arrived.make named free
  intro place
  refine (made.find?_eq place).imp_right ?_
  rintro ⟨_, directory, front, way, led⟩
  exact ⟨directory, front, read ▸ way, led⟩

/-- What is made for a parent lies on the path itself. -/
theorem MadeFor.of_parent {path up : Text} (parent : Path.parent? path = some up)
    (made : d.MadeFor up e) : d.MadeFor path e := by
  obtain ⟨way, absolute⟩ := Path.segments_isPrefix_of_parent? parent
  have start : d.startOf up = d.startOf path := by
    rw [startOf, startFrom, absolute, startOf, startFrom]
  intro place
  refine (made place).imp_right ?_
  rintro ⟨directory, front, inside, led⟩
  exact ⟨directory, front, inside.trans way, start ▸ led⟩

/-- By the ancestors: the directories that are made lie on the path, also when one of them
could not be made. -/
theorem madeFor_makeUpwards (wf : d.WellFormed) (fuel : Nat) (path : Text) :
    d.MadeFor path (final (makeUpwards (Path.ancestors.go fuel path) d)) := by
  induction fuel using Nat.strong_induction_on generalizing path with
  | _ fuel ih =>
      have same : d.MadeFor path d := fun _ => .inl rfl
      obtain ⟨upwards, eq, upper⟩ : ∃ upwards,
          Path.ancestors.go fuel path = path :: upwards ∧
            d.MadeFor path (final (makeUpwards upwards d)) := by
        rcases ancestors_cases fuel path with eq | ⟨less, up, shorter, parent, eq⟩
        · exact ⟨[], eq, same⟩
        · exact ⟨_, eq, (ih less shorter up).of_parent parent⟩
      obtain ⟨f, tried, step⟩ := exists_final_makeUpwards_cons d path upwards
      have spares : d.Spares (fun _ => False) f := by
        rcases tried with rfl | rfl
        · exact .refl wf
        · exact .makeUpwards wf upwards
      replace upper : d.MadeFor path f := by
        rcases tried with rfl | rfl
        · exact same
        · exact upper
      rw [eq]
      rcases step with last | made
      · rwa [last]
      · refine upper.trans (madeFor_makeDirectory made) ?_ ?_
        · exact (Extends.makeDirectory spares.wellFormed made).keeps
        · exact congrArg (fun place => startFrom place path) spares.keeps.working

/-- The directories of a path that settles behind the destination are made there, or on the
way there. -/
theorem fills_makeDirectories (wf : d.WellFormed) (plain : d.IsPlainSite destination)
    {path : Text} {parts : List Text} {names : List Name}
    (start : d.startOf path = d.startOf destination)
    (behind : segments path <+: segments destination ++ parts)
    (settled : Step.settle [] (parts.map Step.ofSegment) = some names) :
    d.Fills destination (final (makeDirectories path d)) := by
  have spares : d.Spares (fun _ => False) (final (makeDirectories path d)) :=
    Spares.makeUpwards wf (Path.ancestors path)
  have made : d.MadeFor path (final (makeDirectories path d)) := madeFor_makeUpwards wf _ path
  generalize final (makeDirectories path d) = e at spares made
  have spreads : d.Spreads e := by
    refine ⟨spares.keeps.keepsWays, fun {place target} found => ?_⟩
    rcases made place with same | ⟨directory, _⟩
    · exact same ▸ found
    · cases directory.symm.trans found
  refine ⟨spares.wellFormed, spreads, fun place node found => ?_⟩
  rcases made place with same | ⟨directory, front, way, led⟩
  · exact .inl (same ▸ found)
  rw [start, ← spreads.startOf_eq] at led
  have onTheWay {front : List Text} (led : e.walk (e.startOf destination) front = .ok place) :
      d.MayLead destination front place := ⟨e, spreads, led, directory⟩
  rcases List.prefix_or_prefix_of_prefix (way.trans behind) (List.prefix_append _ parts) with
    above | ⟨more, rfl⟩
  · exact .inr (.inr ⟨Option.some.inj (found.symm.trans directory), front, above, onTheWay led⟩)
  · by_cases ended : more = []
    · subst ended
      rw [List.append_nil] at led
      exact .inr (.inl ⟨place, onTheWay led, List.prefix_refl place⟩)
    · obtain ⟨rest, rfl⟩ := (List.prefix_append_right_inj _).mp (way.trans behind)
      rw [List.map_append, Step.settle_append] at settled
      obtain ⟨others, front, _⟩ := Option.bind_eq_some_iff.mp settled
      obtain ⟨target, into, rfl⟩ := exists_target_of_walk (plain.spreads spreads) ended led front
      exact .inr (.inl ⟨target, into.mayLead.of_spreads spreads, List.prefix_append target others⟩)

/-! ## Copying a file -/

section Behind

variable {relative : Text} (head : relative.head? ≠ some '/') (last : relative.getLast? ≠ some '/')
variable {names : List Name} (settled : Step.settle [] (Step.ofSegments relative) = some names)

include head last settled

/-- A file that is written behind the destination is written where its path settles. -/
theorem fills_copyFile (wf : d.WellFormed) (plain : d.IsPlainSite destination) {source : Text}
    (copied : d.copyFile source (Path.append destination relative) = .ok e) :
    d.Fills destination e := by
  have grows := Extends.copyFile wf copied
  have spreads := grows.spreads
  obtain ⟨_, _, written, _, writes, rfl⟩ := copyFile_eq_ok_iff.mp copied
  obtain ⟨_, there, led⟩ := spares_write wf writes _
  have ne : relative ≠ [] := by
    rintro rfl
    exact writePlace_append_nil destination writes
  have parts := segments_ne_nil ne last
  rw [resolve_append_eq_walk ne head last] at led
  obtain ⟨target, into, rfl⟩ :=
    exists_target_of_walk (plain.spreads spreads) parts led settled
  refine ⟨grows.wellFormed, spreads, fun place node found => ?_⟩
  by_cases same : place = target ++ names
  · exact .inr (.inl ⟨target, into.mayLead.of_spreads spreads, same ▸ List.prefix_append _ _⟩)
  · refine .inl ?_
    rwa [find?_put d, if_neg same] at found
    intro top
    rw [top] at there
    cases there

end Behind

/-! ## Moving a file -/

/-- A file has gone from one place to another, where nothing stood, or a file. -/
structure Relays (d : Disk) (old new : Place) (e : Disk) : Prop where
  wellFormed : e.WellFormed
  working : e.workingPlace = d.workingPlace
  source : ∃ content, d.find? old = some (.file content)
  target : ∀ node, d.find? new = some node → ∃ content, node = .file content
  arrived : ∀ node, e.find? new = some node → ∃ content, node = .file content
  stays : new ≠ old → ∃ content, e.find? new = some (.file content)
  gone : new ≠ old → e.find? old = none
  rest : ∀ {place}, place ≠ old → place ≠ new → e.find? place = d.find? place

namespace Relays

variable {old new : Place} (relays : d.Relays old new e)

include relays

/-- Only files have come and gone. -/
theorem find?_iff {node : Node} (other : ∀ content, node ≠ .file content) :
    d.find? place = some node ↔ e.find? place = some node := by
  by_cases last : place = new
  · subst last
    refine ⟨fun there => ?_, fun there => ?_⟩
    · obtain ⟨content, same⟩ := relays.target node there
      exact absurd same (other content)
    · obtain ⟨content, same⟩ := relays.arrived node there
      exact absurd same (other content)
  by_cases first : place = old
  · subst first
    obtain ⟨content, found⟩ := relays.source
    rw [found, relays.gone (Ne.symm last)]
    exact iff_of_false (fun same => other content (Option.some.inj same).symm) (fun h => nomatch h)
  rw [relays.rest first last]

theorem spreads : d.Spreads e := by
  have directory {place : Place} : d.find? place = some .directory ↔ e.find? place = some .directory :=
    relays.find?_iff fun _ same => nomatch same
  have link {place : Place} {target : Text} :
      d.find? place = some (.link target) ↔ e.find? place = some (.link target) :=
    relays.find?_iff fun _ same => nomatch same
  exact ⟨⟨relays.working, directory.mp, link.mp⟩, link.mpr⟩

/-- Every other file is still a file. -/
theorem exists_file {content : Content} (other : place ≠ old)
    (found : d.find? place = some (.file content)) :
    ∃ content, e.find? place = some (.file content) := by
  by_cases same : place = new
  · subst same
    exact relays.stays other
  · exact ⟨content, (relays.rest other same).trans found⟩

theorem fills (inside : d.IsInside destination new) : d.Fills destination e := by
  refine ⟨relays.wellFormed, relays.spreads, fun place node found => ?_⟩
  by_cases last : place = new
  · exact .inr (.inl (last ▸ inside))
  by_cases first : place = old
  · subst first
    cases (relays.gone (Ne.symm last)).symm.trans found
  exact .inl ((relays.rest first last).symm.trans found)

end Relays

theorem Relays.same {old : Place} {content : Content} (wf : d.WellFormed)
    (found : d.find? old = some (.file content)) : d.Relays old old d where
  wellFormed := wf
  working := rfl
  source := ⟨content, found⟩
  target _ there := ⟨content, Option.some.inj (there.symm.trans found)⟩
  arrived _ there := ⟨content, Option.some.inj (there.symm.trans found)⟩
  stays other := absurd rfl other
  gone other := absurd rfl other
  rest _ _ := rfl

/-- A file is relocated to a name that is free, or has been made free. -/
theorem relays_relocate {base : Disk} {old above : Place} {name : Name} {content : Content}
    (wf : base.WellFormed) (found : base.find? old = some (.file content)) (named : IsEntryName name)
    (stands : base.find? above = some .directory) (free : base.find? (above ++ [name]) = none)
    (working : base.workingPlace = d.workingPlace)
    (same : ∀ {place}, place ≠ above ++ [name] → base.find? place = d.find? place)
    (target : ∀ node, d.find? (above ++ [name]) = some node → ∃ content, node = .file content) :
    d.Relays old (above ++ [name]) (base.relocate old (above ++ [name])) := by
  have leaf : Node.file content ≠ .directory := fun same => nomatch same
  have lacks := lacks_relocate wf found leaf free
  have ne := List.concat_ne_nil name above
  have other : above ++ [name] ≠ old := by
    rintro same
    rw [same, found] at free
    cases free
  have arrived : (base.relocate old (above ++ [name])).find? (above ++ [name]) =
      some (.file content) := by
    rw [lacks.rest other, find?_put base ne, if_pos rfl]
  refine ⟨wellFormed_relocate wf found leaf free named stands rfl, lacks.working.trans working,
    ⟨content, (same (Ne.symm other)).symm.trans found⟩, target, fun node there => ?_,
    fun _ => ⟨content, arrived⟩, fun _ => lacks.free rfl, fun {place} first last => ?_⟩
  · cases arrived.symm.trans there
    exact ⟨content, rfl⟩
  · rw [lacks.rest first, find?_put base ne, if_neg last, same last]

/-- To give a file another name is to relay it, unless the name is taken by something else. -/
theorem exists_relays_of_rename (wf : d.WellFormed) {source target : Text} {old : Place}
    {content : Content} (names : d.Names source old) (found : d.find? old = some (.file content))
    (plain : ∀ above name, d.slot .invalid target = .ok (above, name) →
      ∀ link, d.find? (above ++ [name]) ≠ some (.link link))
    (renamed : d.rename source target = .ok e) :
    ∃ above name, d.slot .invalid target = .ok (above, name) ∧ d.Relays old (above ++ [name]) e := by
  obtain ⟨sourceAbove, sourceName, above, name, node, sourceSlot, targetSlot, there, _, renames⟩ :=
    exists_of_rename renamed
  obtain ⟨_, _, rfl, slot⟩ := names.slot
  cases (slot .invalid).symm.trans sourceSlot
  obtain rfl := Option.some.inj (found.symm.trans there)
  obtain ⟨_, _, named, _, stands⟩ := exists_of_slot targetSlot
  refine ⟨above, name, targetSlot, ?_⟩
  cases renames with
  | same same =>
      rw [← same]
      exact .same wf found
  | free _ _ free =>
      refine relays_relocate wf found named stands free rfl (fun _ => rfl) fun node there => ?_
      cases free.symm.trans there
  | @replaced other _ below taken kind _ =>
      cases other with
      | link link => exact absurd taken (plain above name targetSlot link)
      | directory => cases kind
      | file old =>
          have ne := List.concat_ne_nil name above
          have vacant : ∀ more, d.find? (above ++ [name] ++ [more]) = none := by
            intro more
            rw [Option.eq_none_iff_forall_ne_some]
            intro node inside
            cases taken.symm.trans (wf.find?_above inside).2
          have lacks := Lacks.erase d ne
          have stays : (d.erase (above ++ [name])).find? above = some .directory := by
            rw [lacks.rest, stands]
            exact fun same => List.cons_ne_nil name [] (List.self_eq_append_right.mp same)
          have left := (lacks.rest fun same => below (same ▸ List.prefix_refl _)).trans found
          exact relays_relocate (wf.erase ne vacant) left named stays (lacks.free rfl) rfl
            (fun beside => lacks.rest beside) fun node again =>
            ⟨old, Option.some.inj (again.symm.trans taken)⟩

/-- What is renamed is named by its path. -/
theorem exists_names_of_rename {source target : Text} (renamed : d.rename source target = .ok e) :
    ∃ place, d.Names source place := by
  obtain ⟨above, name, _, _, node, slot, _, found, fits, _⟩ := exists_of_rename renamed
  exact ⟨above ++ [name], names_of_slot slot found fun slash => fits (.inl slash)⟩

/-- A path names a file as long as the ways are kept and there is a file. -/
theorem Names.file_later {path : Text} {content new : Content} (names : d.Names path place)
    (found : d.find? place = some (.file content)) (ways : d.KeepsWays e)
    (there : e.find? place = some (.file new)) : e.Names path place := by
  obtain ⟨above, name, rfl, slot⟩ := names.slot
  obtain ⟨parts, read, named, walked, stands⟩ := exists_of_slot (slot .invalid)
  have later : e.walk (e.startOf path) parts = .ok above := by
    rw [startOf, ways.working]
    exact (ways.leads (by decide) (leads_of_trace walked) stands).trace_eq
  refine names_of_slot (slot_of_directory read named later (ways.directory stands) .invalid) there
    fun slash => ?_
  cases directory_of_endsWith_slash (look_eq_ok_iff.mpr ⟨names.resolve_eq, found⟩) slash

/-- To copy a file and to remove the source is to relay it, too. -/
theorem exists_relays_of_copyFile (wf : d.WellFormed) {source target : Text} {old : Place}
    {content : Content} (names : d.Names source old) (found : d.find? old = some (.file content))
    (copied : d.copyFile source target = .ok e) (removed : e.removeFile source = .ok f) :
    ∃ new, e.resolve .follow target = .ok new ∧ d.Relays old new f := by
  have grows := Extends.copyFile wf copied
  obtain ⟨origin, copy, new, _, writes, rfl⟩ := copyFile_eq_ok_iff.mp copied
  generalize (if new = origin then Content.empty else copy) = now at *
  obtain ⟨_, there, led⟩ := spares_write wf writes now
  refine ⟨new, led, ?_⟩
  have ne : new ≠ [] := by
    rintro rfl
    cases there
  have other : old ≠ [] := names.ne_nil
  obtain ⟨later, kept⟩ : ∃ later, (d.put new (.file now)).find? old = some (.file later) := by
    by_cases same : old = new
    · exact ⟨now, same ▸ there⟩
    · exact ⟨content, by rw [find?_put d ne, if_neg same, found]⟩
  have still := names.file_later found grows.keeps.keepsWays kept
  rw [still.removeFile_eq kept fun same => nomatch same] at removed
  cases removed
  have vacant (more : Name) : (d.put new (.file now)).find? (old ++ [more]) = none := by
    rw [Option.eq_none_iff_forall_ne_some]
    intro node inside
    cases kept.symm.trans (grows.wellFormed.find?_above inside).2
  have lacks := Lacks.erase (d.put new (.file now)) other
  refine ⟨grows.wellFormed.erase other vacant, lacks.working, ⟨content, found⟩,
    fun node before => ?_, fun node after => ?_, fun beside => ?_, fun _ => lacks.free rfl,
    fun {place} first last => ?_⟩
  · cases node with
    | file old => exact ⟨old, rfl⟩
    | directory =>
        obtain ⟨_, _, _, notDirectory⟩ := writePlace_eq_ok_iff.mp writes
        exact absurd before notDirectory
    | link target =>
        cases there.symm.trans (grows.keeps.link before)
  · by_cases same : new = old
    · rw [lacks.free same] at after
      cases after
    · rw [lacks.rest same] at after
      cases there.symm.trans after
      exact ⟨now, rfl⟩
  · exact ⟨now, (lacks.rest beside).trans there⟩
  · rw [lacks.rest first, find?_put d ne, if_neg last]

/-- To move a file is to rename it or, where that fails, to copy it and to remove it. -/
theorem rename_or_copy_of_moveFile {source target : Text}
    (moved : moveFile source target d = .ok () e) :
    d.rename source target = .ok e ∨
      ∃ f, d.copyFile source target = .ok f ∧ f.removeFile source = .ok e := by
  rw [moveFile] at moved
  split at moved
  case h_1 f renamed =>
    cases moved
    exact .inl renamed
  case h_2 =>
    split at moved
    case h_1 => cases moved
    case h_2 f copied =>
      split at moved
      case h_1 g removed =>
        cases moved
        exact .inr ⟨f, copied, removed⟩
      case h_2 => cases moved

/-- A move that fails has changed nothing, or has made a copy. -/
theorem eq_or_copy_of_moveFile_eq_error {source target : Text} {fault : Fault}
    (failed : moveFile source target d = .error fault e) :
    e = d ∨ d.copyFile source target = .ok e := by
  rw [moveFile] at failed
  split at failed
  case h_1 => cases failed
  case h_2 =>
    split at failed
    case h_1 =>
      cases failed
      exact .inl rfl
    case h_2 f copied =>
      split at failed
      case h_1 => cases failed
      case h_2 =>
        cases failed
        exact .inr copied

section Behind

variable {relative : Text} (head : relative.head? ≠ some '/')
variable {names : List Name} (settled : Step.settle [] (Step.ofSegments relative) = some names)

include head settled

/-- The name that a path behind the destination ends in is below the destination. -/
theorem exists_target_of_slot (plain : d.IsPlainSite destination) (parts_ne : segments relative ≠ [])
    {special : Fault} {above : Place} {name : Name}
    (slot : d.slot special (Path.append destination relative) = .ok (above, name)) :
    ∃ target names, d.LeadsInto destination target ∧ above ++ [name] = target ++ names := by
  have behind := Path.isAbsolute_of_head_ne head
  have start : d.startOf (Path.append destination relative) = d.startOf destination := by
    rw [startOf, startFrom, Path.isAbsolute_append_of_relative behind, startOf, startFrom]
  obtain ⟨parts, read, named, walked, stands⟩ := exists_of_slot slot
  obtain ⟨front, last, eq⟩ := (List.eq_nil_or_concat' (segments relative)).resolve_left parts_ne
  rw [segments_append behind, eq, ← List.append_assoc] at read
  obtain ⟨rfl, same⟩ := List.append_inj' read rfl
  obtain rfl := List.singleton_inj.mp same
  rw [start, ← walk] at walked
  by_cases first : front = []
  · subst first
    rw [List.append_nil] at walked
    exact ⟨above, [last], ⟨walked, stands⟩, rfl⟩
  · rw [Step.ofSegments, eq, List.map_append, Step.settle_append] at settled
    obtain ⟨others, upper, _⟩ := Option.bind_eq_some_iff.mp settled
    obtain ⟨target, into, rfl⟩ := exists_target_of_walk plain first walked upper
    exact ⟨target, others ++ [last], into, List.append_assoc _ _ _⟩

/-- A file that its path names is relayed to a place at the destination. -/
theorem exists_relays_of_moveFile (wf : d.WellFormed) (plain : d.IsPlainSite destination)
    (last : relative.getLast? ≠ some '/') (ne : relative ≠ []) {source : Text} {old : Place}
    {content : Content} (named : d.Names source old) (found : d.find? old = some (.file content))
    (moved : moveFile source (Path.append destination relative) d = .ok () e) :
    ∃ new, d.IsInside destination new ∧ d.Relays old new e := by
  have parts := segments_ne_nil ne last
  rcases rename_or_copy_of_moveFile moved with renamed | ⟨f, copied, moved⟩
  · obtain ⟨above, name, slot, relays⟩ := exists_relays_of_rename wf named found
      (fun above name slot link there => by
        obtain ⟨target, below, into, eq⟩ := exists_target_of_slot head settled plain parts slot
        exact plain target into.mayLead below link (eq ▸ there)) renamed
    obtain ⟨target, below, into, eq⟩ := exists_target_of_slot head settled plain parts slot
    exact ⟨_, ⟨target, into.mayLead, eq ▸ List.prefix_append target below⟩, relays⟩
  · obtain ⟨new, led, relays⟩ := exists_relays_of_copyFile wf named found copied moved
    have spreads := (Extends.copyFile wf copied).spreads
    rw [resolve_append_eq_walk ne head last] at led
    obtain ⟨target, into, rfl⟩ :=
      exists_target_of_walk (plain.spreads spreads) parts led settled
    exact ⟨_, ⟨target, into.mayLead.of_spreads spreads, List.prefix_append _ _⟩, relays⟩

/-- What can be moved is named by its path, at the latest when the destination is filled. -/
theorem exists_look_of_moveFile (wf : d.WellFormed) (plain : d.IsPlainSite destination)
    (last : relative.getLast? ≠ some '/') {source : Text}
    (moved : moveFile source (Path.append destination relative) d = .ok () e) :
    ∃ f, d.Fills destination f ∧ ∃ place node, f.look .keep source = .ok (place, node) := by
  rcases rename_or_copy_of_moveFile moved with renamed | ⟨f, copied, moved⟩
  · obtain ⟨place, names⟩ := exists_names_of_rename renamed
    exact ⟨d, .refl wf, place, names.look⟩
  · obtain ⟨place, names⟩ := exists_names_of_removeFile moved
    exact ⟨f, fills_copyFile head last settled wf plain copied, place, names.look⟩

end Behind

end Disk

end FileSelect

import FileSelect.Proofs.Disk.Grafting
import FileSelect.Proofs.Disk.Removing
import FileSelect.Proofs.Disk.Renaming
import FileSelect.Proofs.Disk.Ways

/-!
# Moving below another directory

While entries of one directory are moved below another, the disk is the one that a copy
would have given, without the files that have been moved. The directories that were
moved are still there, so every way to a directory stays.
-/

namespace FileSelect.Disk

/-- One more entry, here and where something is missing that is not on the way to it. -/
theorem Planted.lacks {d e f g : Disk} {gone : Place → Prop} {place : Place} {node : Node}
    (planted : d.Planted place node f) (lacks : d.Lacks gone e) (other : e.Planted place node g)
    (beside : ∀ query, gone query → ¬query <+: place) : f.Lacks gone g := by
  refine ⟨?_, fun {query} was => ?_, fun {query} left => ?_⟩
  · rw [other.working, planted.working, lacks.working]
  · have apart : query ≠ place := fun same => beside query was (same ▸ List.prefix_refl _)
    rw [other.find?_eq, if_neg apart, if_neg (beside query was), lacks.free was]
  · rw [other.find?_eq, planted.find?_eq, lacks.rest left]

/-- The place of a file below the source that has been moved. -/
def MovedFrom (base : Disk) (source : Place) (done : List (List Name)) (place : Place) : Prop :=
  ∃ names ∈ done, place = source ++ names ∧ ∃ content, base.find? place = some (.file content)

/-- The disk after some entries below the source have been moved below the target: that of
a copy of them, without the files among them at the source. -/
structure Shifted (base : Disk) (source target : Place) (done : List (List Name)) (e : Disk) :
    Prop where
  wellFormed : e.WellFormed
  present : ∀ names ∈ done, base.Holds source names
  copy : ∃ g, base.Grafted source target done g ∧ g.Lacks (base.MovedFrom source done) e

section MovedFrom

variable {base : Disk} {source : Place} {done : List (List Name)} {names : List Name} {node : Node}

theorem movedFrom_append_iff :
    base.MovedFrom source done (source ++ names) ↔
      names ∈ done ∧ ∃ content, base.find? (source ++ names) = some (.file content) := by
  constructor
  · rintro ⟨others, inside, same, file⟩
    exact ⟨List.append_cancel_left same ▸ inside, file⟩
  · rintro ⟨inside, file⟩
    exact ⟨names, inside, rfl, file⟩

theorem movedFrom_concat_iff (found : base.find? (source ++ names) = some node) {place : Place} :
    base.MovedFrom source (done ++ [names]) place ↔ base.MovedFrom source done place ∨
      place = source ++ names ∧ ∃ content, node = .file content := by
  have last : (place = source ++ names ∧ ∃ content, base.find? place = some (.file content)) ↔
      place = source ++ names ∧ ∃ content, node = .file content := by
    refine and_congr_right fun same => exists_congr fun content => ?_
    rw [same, found, Option.some.injEq]
  simp only [MovedFrom, List.mem_append, List.mem_singleton, or_and_right, exists_or,
    exists_eq_left, last]

end MovedFrom

namespace TransferSite

variable {d base e : Disk} {root destination : Text} {source target : Place}
variable (site : d.TransferSite root source destination target base)

include site

theorem root_ne : root ≠ [] := by
  rintro rfl
  cases site.led

/-- What the path of the root does not run through at first is not run through later. -/
theorem not_runsThrough_source (ways : d.KeepsWays e) {names : List Name} (ne : names ≠ [])
    (free : ¬d.RunsThrough .follow root (source ++ names)) :
    ¬e.RunsThrough .follow root (source ++ names) :=
  ways.not_runsThrough (leadsInto_of_look site.led) site.root_ne
    (List.append_ne_nil_of_right_ne_nil source ne)
    (fun same => ne (List.append_right_eq_self.mp same)) free

end TransferSite

/-- Nothing is made below what the path of the destination does not run through. -/
theorem CopySite.find?_base_append {d base : Disk} {root destination : Text}
    {source target : Place} (site : d.CopySite root source destination target base)
    {names : List Name} (ne : names ≠ [])
    (apart : ¬base.RunsThrough .follow destination (source ++ names)) (below : List Name) :
    base.find? (source ++ names ++ below) = d.find? (source ++ names ++ below) := by
  have transfer := site.transferSite
  refine (transfer.find?_base _).resolve_right fun ⟨_, _, front, ⟨more, whole⟩, led⟩ => ?_
  have top : source ++ names ≠ [] := List.append_ne_nil_of_right_ne_nil source ne
  have other : source ++ names ≠ target := fun same =>
    (transfer.outside names).2 (same ▸ List.prefix_refl _)
  have inside : source ++ names <+: source ++ names ++ below := List.prefix_append _ below
  have without := transfer.leadsInto_target.erase site.written top other apart
  have missing := Lacks.erase base top
  have plain : (base.erase (source ++ names)).IsPlainBelow (source ++ names) := by
    intro more link found
    rw [List.append_assoc] at found
    exact site.not_link (missing.find?_eq_some_iff.mp found).2 link rfl
  by_cases last : more = []
  · -- the whole path leads to the target
    rw [last, List.append_nil] at whole
    subst whole
    have same := led.symm.trans transfer.leadsInto_target.trace_eq
    exact (transfer.outside names).1 (Except.ok.inj same ▸ inside)
  · have steps : more.map Step.ofSegment ≠ [] := fun none => last (List.map_eq_nil_iff.mp none)
    obtain ⟨left, eq⟩ := trace_append (base.erase (source ++ names)) .follow steps linkLimit
      (base.startOf destination) (front.map Step.ofSegment)
    have rest := without.trace_eq
    rw [missing.startOf, Step.ofSegments, ← whole, List.map_append, eq] at rest
    rcases missing.trace_or (by decide) led with same | lost
    · rw [same] at rest
      refine (transfer.outside names).1 ?_
      exact ((leads_of_trace rest).isPrefix_iff (missing.free rfl) plain (by decide)).mp inside
    · rw [lost] at rest
      cases rest

section Site

variable {d base : Disk} {root destination : Text} {source target : Place}
variable (site : d.TransferSite root source destination target base)
variable {done : List (List Name)} {e : Disk}

include site

/-- Something can be put at the target as a copy. -/
theorem Grafted.exists_planted (grafted : base.Grafted source target done e) {names : List Name}
    {node : Node} (ne : names ≠ []) (found : base.find? (source ++ names) = some node)
    (plain : ∀ link, node ≠ .link link) : ∃ f, e.Planted (target ++ names) node f := by
  cases node with
  | link link => exact absurd rfl (plain link)
  | directory =>
      obtain ⟨f, _, planted⟩ := grafted.exists_makeDirectories site (grafted.makes site) ne found
      exact ⟨f, planted⟩
  | file content =>
      obtain ⟨front, name, rfl⟩ := (List.eq_nil_or_concat' names).resolve_left ne
      obtain ⟨_, _, f, _, _, _, planted⟩ := grafted.exists_copyFile site (grafted.makes site) found
      exact ⟨f, planted⟩

/-- What has been moved is not on the way to anything at the target. -/
theorem MovedFrom.not_isPrefix {place : Place} (moved : base.MovedFrom source done place)
    (names : List Name) : ¬place <+: target ++ names := by
  obtain ⟨others, _, rfl, _⟩ := moved
  exact site.not_isPrefix_target others names

theorem Grafted.exists_file_of_movedFrom (grafted : base.Grafted source target done e)
    {place : Place} (moved : base.MovedFrom source done place) :
    ∃ content, e.find? place = some (.file content) := by
  obtain ⟨names, _, rfl, content, file⟩ := moved
  exact ⟨content, (grafted.find?_source site names).trans file⟩

namespace Shifted

theorem start : base.Shifted source target [] base := by
  refine ⟨site.wellFormed_base, List.forall_mem_nil _, base, .start site, ?_⟩
  exact (Lacks.refl base).congr fun _ => ⟨False.elim, fun ⟨_, inside, _⟩ => nomatch inside⟩

variable (shifted : base.Shifted source target done e)

include shifted

theorem keepsWays : base.KeepsWays e := by
  obtain ⟨g, grafted, lacks⟩ := shifted.copy
  exact (grafted.keeps site).keepsWays.trans
    (lacks.keepsWays fun _ moved => grafted.exists_file_of_movedFrom site moved)

theorem leadsInto_source : e.LeadsInto root source :=
  (shifted.keepsWays site).leadsInto site.leadsInto_source

theorem leadsInto_target : e.LeadsInto destination target :=
  (shifted.keepsWays site).leadsInto site.leadsInto_target

theorem makes : Makes e (e.startOf destination) (segments destination) e target :=
  .arrived (shifted.leadsInto_target site).trace_eq (shifted.leadsInto_target site).stands

/-- What has not been moved yet is at the source. -/
theorem find?_source {names : List Name} (fresh : names ∉ done) :
    e.find? (source ++ names) = base.find? (source ++ names) := by
  obtain ⟨g, grafted, lacks⟩ := shifted.copy
  rw [lacks.rest fun moved => fresh (movedFrom_append_iff.mp moved).1,
    grafted.find?_source site names]

/-- What has been moved is at the target. -/
theorem find?_moved {names : List Name} (ne : names ≠ []) (moved : names ∈ done) :
    e.find? (target ++ names) = base.find? (source ++ names) := by
  obtain ⟨g, grafted, lacks⟩ := shifted.copy
  rw [lacks.rest fun was => was.not_isPrefix site names (List.prefix_refl _),
    grafted.find?_copied ne moved]

/-- Towards an entry that is a directory there are only directories at the target. -/
theorem directory_of_isPrefix {names query : List Name} {node : Node}
    (found : base.find? (source ++ names) = some .directory) (before : query <+: names)
    (there : e.find? (target ++ query) = some node) : node = .directory := by
  obtain ⟨g, grafted, lacks⟩ := shifted.copy
  exact grafted.directory_of_isPrefix site found before (lacks.find?_eq_some_iff.mp there).2

/-- The target of a file is free until the file is moved. -/
theorem find?_target_of_fresh {names : List Name} (ne : names ≠ []) (fresh : names ∉ done)
    {content : Content} (found : base.find? (source ++ names) = some (.file content)) :
    e.find? (target ++ names) = none := by
  obtain ⟨g, grafted, lacks⟩ := shifted.copy
  rw [lacks.rest fun was => was.not_isPrefix site names (List.prefix_refl _),
    grafted.inside names ne, if_neg]
  rintro ⟨copied, inside, more, rfl⟩
  obtain ⟨_, node, there, _⟩ := shifted.present _ inside
  have last : more ≠ [] := by
    rintro rfl
    exact fresh (by rwa [List.append_nil] at inside)
  rw [← List.append_assoc] at there
  have stands := site.wellFormed_base.find?_of_append last there
  exact nomatch found.symm.trans stands

/-- One more entry: it is put at the target, and a file is taken away at the source. -/
theorem concat {f g : Disk} (wf : g.WellFormed) {names : List Name} {node : Node}
    (ne : names ≠ []) (found : base.find? (source ++ names) = some node)
    (plain : ∀ link, node ≠ .link link) (planted : e.Planted (target ++ names) node f)
    (lacks : f.Lacks (fun place => place = source ++ names ∧ ∃ content, node = .file content) g) :
    base.Shifted source target (done ++ [names]) g := by
  obtain ⟨copy, grafted, missing⟩ := shifted.copy
  obtain ⟨next, copied⟩ := grafted.exists_planted site ne found plain
  refine ⟨wf, List.forall_mem_append.mpr ⟨shifted.present,
    List.forall_mem_singleton.mpr ⟨ne, node, found, plain⟩⟩, next,
    grafted.concat site ne found copied, ?_⟩
  have before := copied.lacks missing planted fun _ moved => moved.not_isPrefix site names
  exact (before.trans lacks).congr fun _ => (movedFrom_concat_iff found).symm

/-! ## Moving one entry -/

section Step

variable {now : Disk}
variable (makes : Makes now (now.startOf destination) (segments destination) e target)

include makes

/-- A directory is made at the target, and the one at the source stays. -/
theorem exists_makeDirectories {names : List Name} (ne : names ≠ [])
    (found : base.find? (source ++ names) = some .directory) : ∃ f,
    makeDirectories (Path.append destination (joinSegments names)) now = .ok () f ∧
      base.Shifted source target (done ++ [names]) f := by
  obtain ⟨f, made, planted⟩ := makes.exists_makeDirectories shifted.wellFormed ne
    (site.isEntryName found) fun _ _ before => shifted.directory_of_isPrefix site found before
  refine ⟨f, made, shifted.concat site planted.wellFormed ne found Node.directory_ne_link
    planted ?_⟩
  exact (Lacks.refl f).congr fun _ => ⟨False.elim, fun ⟨_, _, same⟩ => nomatch same⟩

/-- A file gets its new name in the directory that is made for it. -/
theorem exists_moveFile {front : List Name} {name : Name} {content : Content}
    (fresh : front ++ [name] ∉ done)
    (found : base.find? (source ++ (front ++ [name])) = some (.file content)) : ∃ up g f,
    Path.parent? (Path.append destination (joinSegments (front ++ [name]))) = some up ∧
    makeDirectories up now = .ok () g ∧
    moveFile (Path.append root (joinSegments (front ++ [name])))
      (Path.append destination (joinSegments (front ++ [name]))) g = .ok () f ∧
    base.Shifted source target (done ++ [front ++ [name]]) f := by
  have ne := List.concat_ne_nil name front
  obtain ⟨named, stands⟩ := site.find?_above found
  obtain ⟨up, g, parent, made, grown⟩ :=
    makes.exists_makeParent shifted.wellFormed (site.isEntryName found)
      fun _ _ before => shifted.directory_of_isPrefix site stands before
  have source_there : g.find? (source ++ (front ++ [name])) = some (.file content) := by
    rw [grown.find?_eq, if_neg (site.not_isPrefix_target _ front),
      shifted.find?_source site fresh, found]
  have free : g.find? (target ++ (front ++ [name])) = none := by
    have behind : ¬target ++ (front ++ [name]) <+: target ++ front := fun inside =>
      absurd inside.length_le (by simp)
    rw [grown.find?_eq, if_neg behind, shifted.find?_target_of_fresh site ne fresh found]
  have out := (shifted.leadsInto_source site).keeps grown.keeps
  have into := (shifted.leadsInto_target site).keeps grown.keeps
  obtain ⟨f, moved, wf, lacks⟩ := out.exists_moveFile into grown.wellFormed source_there named
    grown.stands free
  refine ⟨up, g, f, parent, made, moved, ?_⟩
  have planted : e.Planted (target ++ (front ++ [name])) (.file content)
      (g.put (target ++ (front ++ [name])) (.file content)) := by
    rw [← List.append_assoc] at free ⊢
    exact grown.planted_put named (fun _ there => nomatch free.symm.trans there) content
  refine shifted.concat site wf ne found (Node.file_ne_link content) planted ?_
  exact lacks.congr fun _ => (and_iff_left ⟨content, rfl⟩).symm

end Step

end Shifted

end Site

/-! ## The end of a move -/

/-- The disk after a move and the disk that a copy would have given: the files among the
entries are gone at the source, and of the directories among them as well may be. -/
structure Moved (base : Disk) (source target : Place) (entries : List (List Name))
    (copied : Disk) (gone : Place → Prop) (e : Disk) : Prop where
  wellFormed : e.WellFormed
  copy : base.Grafted source target entries copied
  lacks : copied.Lacks gone e
  named : ∀ {place}, gone place → ∃ names ∈ entries, place = source ++ names
  file : ∀ {names content}, names ∈ entries →
    base.find? (source ++ names) = some (.file content) → gone (source ++ names)

namespace Moved

variable {d base copied e : Disk} {root destination : Text} {source target : Place}
variable {entries : List (List Name)} {gone : Place → Prop}
variable (site : d.TransferSite root source destination target base)
variable (moved : base.Moved source target entries copied gone e)

include site moved

theorem find?_target (names : List Name) :
    e.find? (target ++ names) = copied.find? (target ++ names) := by
  refine moved.lacks.rest fun was => ?_
  obtain ⟨others, _, same⟩ := moved.named was
  exact (site.outside others).2 (same ▸ List.prefix_append target names)

theorem find?_moved {names : List Name} (ne : names ≠ []) (inside : names ∈ entries) :
    e.find? (target ++ names) = base.find? (source ++ names) := by
  rw [moved.find?_target site, moved.copy.find?_copied ne inside]

/-- The path of a file that was moved leads nowhere. -/
theorem look_source {names : List Name} (ne : names ≠ []) (inside : names ∈ entries)
    {content : Content} (found : base.find? (source ++ names) = some (.file content)) :
    e.look .keep (Path.append root (joinSegments names)) = .error .notFound := by
  have there := (moved.copy.find?_source site names).trans found
  have reached := (moved.copy.leadsInto_source site).names_append moved.copy.wellFormed ne there
    (Node.file_ne_link content)
  obtain ⟨node, led⟩ := reached.look
  refine (moved.lacks.look_or (by decide) led).resolve_left fun same => ?_
  exact nomatch (moved.lacks.free (moved.file inside found)).symm.trans (look_eq_ok_iff.mp same).2

/-- A destination whose path runs through no entry is still led to. -/
theorem leadsInto_target
    (apart : ∀ names ∈ entries, ¬base.RunsThrough .follow destination (source ++ names)) :
    e.LeadsInto destination target := by
  have into := moved.copy.leadsInto_target site
  have stands : e.find? target = some .directory := by
    have same := moved.find?_target site []
    rw [List.append_nil] at same
    exact same.trans into.stands
  refine leadsInto_of_look (look_eq_ok_iff.mpr ⟨?_, stands⟩)
  refine moved.lacks.resolve_eq (by decide) (look_eq_ok_iff.mp (into.look site.written)).1 ?_
  intro query was
  obtain ⟨names, inside, rfl⟩ := moved.named was
  have top : source ++ names ≠ [] := fun empty => moved.lacks.top (empty ▸ was)
  have other : source ++ names ≠ target := fun same =>
    (site.outside names).2 (same ▸ List.prefix_refl _)
  exact (moved.copy.keeps site).keepsWays.not_runsThrough site.leadsInto_target site.written top
    other (apart names inside)

/-- Such a destination leads to what has been moved. -/
theorem look_target
    (apart : ∀ names ∈ entries, ¬base.RunsThrough .follow destination (source ++ names))
    {names : List Name} (ne : names ≠ []) (inside : names ∈ entries) {node : Node}
    (found : base.find? (source ++ names) = some node) (plain : ∀ link, node ≠ .link link) :
    e.look .follow (Path.append destination (joinSegments names)) = .ok (target ++ names, node) :=
  (moved.leadsInto_target site apart).look_append moved.wellFormed ne
    ((moved.find?_moved site ne inside).trans found) plain

/-- A file is at the target when it was moved, and else where it was; there are no others. -/
theorem find?_eq_file_iff (present : ∀ names ∈ entries, base.Holds source names) {place : Place}
    {content : Content} : e.find? place = some (.file content) ↔
      (∃ names ∈ entries, place = target ++ names ∧
        d.find? (source ++ names) = some (.file content)) ∨
      d.find? place = some (.file content) ∧ ∀ names ∈ entries, place ≠ source ++ names := by
  rw [moved.lacks.find?_eq_some_iff, moved.copy.find?_eq_file_iff site present, and_or_left]
  refine or_congr (and_iff_right_of_imp ?_) (and_comm.trans (and_congr_right fun found => ?_))
  · rintro ⟨names, _, rfl, _⟩ was
    obtain ⟨others, _, same⟩ := moved.named was
    exact (site.outside others).2 (same ▸ List.prefix_append target names)
  · constructor
    · rintro left names inside rfl
      exact left (moved.file inside (site.find?_base_eq_file_iff.mpr found))
    · intro other was
      obtain ⟨names, inside, same⟩ := moved.named was
      exact other names inside same

end Moved

end FileSelect.Disk

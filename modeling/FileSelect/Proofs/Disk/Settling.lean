import FileSelect.Proofs.Disk.Listing
import FileSelect.Proofs.Disk.Sparing

/-!
# Where a path behind a directory settles

A path behind a directory may use `.`, doubled slashes and `..`. As long as no `..` leads
above the directory and there are no links below it, the path leads to the place that is
got by taking names back. What is made and written by copying adds no links, and an empty
directory that was made stays where its path leads.
-/

namespace FileSelect

/-! ## Reading a relative path -/

/-- The names that the steps lead down to, when none of them leads above the start. -/
def Step.settle (below : List Name) : List Step → Option (List Name)
  | [] => some below
  | .stay :: rest => settle below rest
  | .up :: rest => if below = [] then none else settle below.dropLast rest
  | .enter name :: rest => settle (below ++ [name]) rest

/-- A path of names settles where the names say. -/
theorem Step.settle_names {names : List Name} (named : ∀ name ∈ names, IsEntryName name)
    (below : List Name) : settle below (names.map ofSegment) = some (below ++ names) := by
  induction names generalizing below with
  | nil => simp [settle]
  | cons name rest ih =>
      have later := ih (fun other inside => named other (List.mem_cons_of_mem name inside))
        (below ++ [name])
      simpa [(named name List.mem_cons_self).ofSegment_eq, settle] using later

/-- A relative path is read behind the path of a directory. -/
theorem segments_append {directory relative : Text}
    (behind : Path.isAbsolute relative = false) :
    segments (Path.append directory relative) = segments directory ++ segments relative := by
  rw [Path.append, behind, if_neg Bool.false_ne_true]
  split
  case isTrue endsOpen =>
    rcases Bool.or_eq_true_iff.mp endsOpen with empty | slash
    · rw [List.isEmpty_iff.mp empty]
      rfl
    · obtain ⟨above, rfl⟩ := endsWith_slash_iff.mp slash
      rw [List.append_assoc, List.singleton_append, segments_append_slash, segments_concat_slash]
  case isFalse => rw [segments_append_slash]

namespace Path

theorem isAbsolute_append_of_relative {directory relative : Text}
    (behind : isAbsolute relative = false) :
    isAbsolute (append directory relative) = isAbsolute directory := by
  rw [append, behind, if_neg Bool.false_ne_true]
  cases directory with
  | nil => simpa [isAbsolute] using behind
  | cons c rest => split <;> by_cases slash : c = '/' <;> simp [isAbsolute, slash]

theorem isAbsolute_of_head_ne {path : Text} (head : path.head? ≠ some '/') :
    isAbsolute path = false :=
  Bool.eq_false_iff.mpr fun absolute => head (isAbsolute_iff.mp absolute)

theorem append_ne_nil {directory relative : Text} (ne : relative ≠ []) :
    append directory relative ≠ [] := by
  rw [append]
  split
  · exact ne
  · split <;> simp [ne]

/-- The end of a relative path is the end of the whole. -/
theorem getLast?_append {directory relative : Text} (ne : relative ≠ []) :
    (append directory relative).getLast? = relative.getLast? := by
  have last (front : Text) : (front ++ relative).getLast? = relative.getLast? := by
    rw [List.getLast?_append_of_ne_nil _ ne]
  rw [append]
  split
  · rfl
  · split
    · exact last directory
    · exact (List.append_cons directory '/' relative).symm ▸ last _

end Path

namespace Step

/-- Without a slash at the end a path has the steps of its segments. -/
theorem ofPath_eq_ofSegments {path : Text} (last : path.getLast? ≠ some '/') :
    ofPath path = ofSegments path := by
  have noSlash : Text.endsWith ['/'] path = false := by
    rw [Bool.eq_false_iff]
    intro slash
    obtain ⟨above, rfl⟩ := endsWith_slash_iff.mp slash
    exact last List.getLast?_concat
  rw [ofPath, noSlash, if_neg Bool.false_ne_true, List.append_nil, ofSegments]

/-- The steps of a relative path come behind those of the directory. -/
theorem ofPath_append_relative {directory relative : Text} (ne : relative ≠ [])
    (head : relative.head? ≠ some '/') (last : relative.getLast? ≠ some '/') :
    ofPath (Path.append directory relative) = ofSegments directory ++ ofSegments relative := by
  rw [ofPath_eq_ofSegments (by rwa [Path.getLast?_append ne]), ofSegments,
    segments_append (Path.isAbsolute_of_head_ne head), List.map_append, ofSegments, ofSegments]

end Step

namespace Disk

/-! ## Disks that grow without links -/

/-- Everything is kept, and the links are the old ones. -/
structure Extends (d e : Disk) : Prop where
  wellFormed : e.WellFormed
  keeps : d.Keeps e
  link : ∀ {place target}, e.find? place = some (.link target) →
    d.find? place = some (.link target)

namespace Extends

variable {d e f : Disk}

theorem refl (wf : d.WellFormed) : d.Extends d := ⟨wf, .refl d, id⟩

theorem trans (first : d.Extends e) (second : e.Extends f) : d.Extends f :=
  ⟨second.wellFormed, first.keeps.trans second.keeps, fun found => first.link (second.link found)⟩

theorem put {place : Place} {node : Node} (ne : place ≠ [])
    (wf : (d.put place node).WellFormed) (keeps : d.Keeps (d.put place node))
    (plain : ∀ target, node ≠ .link target) : d.Extends (d.put place node) := by
  refine ⟨wf, keeps, fun {query target} found => ?_⟩
  rw [find?_put d ne] at found
  split at found
  · exact absurd (Option.some.inj found) (plain target)
  · exact found

theorem makeDirectory (wf : d.WellFormed) {path : Text} (made : d.makeDirectory path = .ok e) :
    d.Extends e := by
  obtain ⟨_, name, above, _, named, _, stands, free, rfl⟩ := exists_of_makeDirectory made
  exact put (List.concat_ne_nil name above)
    (wf.put_free above name named stands free .directory) (keeps_put_directory free)
    Node.directory_ne_link

theorem makeUpwards {paths : List Text} (wf : d.WellFormed)
    (made : Disk.makeUpwards paths d = .ok () e) : d.Extends e := by
  induction paths generalizing e with
  | nil => cases made
  | cons path upwards ih =>
      by_cases ne : path = []
      · rw [Disk.makeUpwards, if_pos ne] at made
        cases made
        exact .refl wf
      · rcases makeUpwards_cons_eq_ok ne made with (first | ⟨_, rfl⟩) | ⟨_, f, above, step⟩
        · exact makeDirectory wf first
        · exact .refl wf
        · have upper := ih above
          rcases step with again | ⟨_, rfl⟩
          · exact upper.trans (makeDirectory upper.wellFormed again)
          · exact upper

theorem copyFile (wf : d.WellFormed) {source target : Text}
    (copied : d.copyFile source target = .ok e) : d.Extends e := by
  have spares := spares_copyFile wf copied
  obtain ⟨_, _, place, _, writes, rfl⟩ := copyFile_eq_ok_iff.mp copied
  refine put ?_ spares.wellFormed spares.keeps (Node.file_ne_link _)
  rintro rfl
  cases (spares_write wf writes .empty).2.1

end Extends

/-- What has been made is a directory afterwards. -/
theorem isDirectory_of_makeDirectories {d e : Disk} {path : Text} (ne : path ≠ [])
    (made : makeDirectories path d = .ok () e) : e.isDirectory path = true := by
  have there {f : Disk} (step : f.makeDirectory path = .ok e ∨ f.isDirectory path = true ∧ e = f) :
      e.isDirectory path = true := by
    obtain ⟨place, makes⟩ := exists_makes_of_first step
    have start : e.startOf path = f.startOf path := by rw [startOf, startOf, makes.keeps.working]
    have into : e.LeadsInto path place := ⟨start ▸ makes.walk_eq, makes.stands⟩
    exact into.isDirectory ne
  obtain ⟨above, eq⟩ := exists_ancestors_eq _ path
  rw [makeDirectories, Path.ancestors, eq] at made
  rcases makeUpwards_cons_eq_ok ne made with first | ⟨_, _, _, step⟩
  · exact there first
  · exact there step

/-- Where the parts lead to on a disk that has grown is where they have been made. -/
theorem Makes.unique {d base e : Disk} {start target place : Place} {parts : List Text}
    (makes : Makes d start parts base target) (grows : d.Extends e)
    (led : e.walk start parts = .ok place) (stands : e.find? place = some .directory) :
    place = target ∧ base.Keeps e := by
  induction makes generalizing place with
  | arrived before _ =>
      have same := (grows.keeps.walk before).symm.trans led
      exact ⟨(Except.ok.inj same).symm, grows.keeps⟩
  | follow _ before _ ih =>
      obtain ⟨above, _, walked, directory, _⟩ := exists_walk_of_concat led
      obtain ⟨_, keeps⟩ := ih walked directory
      exact ⟨(Except.ok.inj ((keeps.walk before).symm.trans led)).symm, keeps⟩
  | @make parts name f above inner named free ih =>
      obtain ⟨here, _, walked, directory, leads⟩ := exists_walk_of_concat led
      obtain ⟨rfl, keeps⟩ := ih walked directory
      rw [named.ofSegment_eq] at leads
      cases leads with
      | enter _ found _ rest =>
          cases rest
          refine ⟨rfl, keeps.working, fun {query node} there => ?_⟩
          rw [find?_put f (List.concat_ne_nil name here)] at there
          split at there
          case isTrue same =>
            cases there
            exact ⟨.directory, same ▸ stands, .refl _⟩
          case isFalse => exact keeps.entry there
      | free _ _ create => cases create
      | keep _ _ keep => cases keep
      | link _ found _ _ _ =>
          have old := inner.find?_of_find? (grows.link found)
          rw [free] at old
          cases old

/-- The path of a directory itself cannot be written. -/
theorem writePlace_append_nil {d : Disk} (directory : Text) {place : Place}
    (writes : d.writePlace (Path.append directory []) = .ok place) : False := by
  obtain ⟨_, noSlash, led, _⟩ := writePlace_eq_ok_iff.mp writes
  rw [Path.append, if_neg (by decide)] at noSlash led
  split at noSlash
  case isTrue whole =>
    rw [if_pos whole, List.append_nil] at led
    rw [List.append_nil] at noSlash
    rcases Bool.or_eq_true_iff.mp whole with empty | slash
    · rw [List.isEmpty_iff.mp empty] at led
      cases led
    · exact Bool.false_ne_true (noSlash.symm.trans slash)
  case isFalse =>
    exact Bool.false_ne_true (noSlash.symm.trans (endsWith_slash_iff.mpr ⟨directory, rfl⟩))

/-! ## Below an empty directory -/

/-- The path of an empty directory, which is there or can be made. -/
structure FreshSite (d : Disk) (destination : Text) (target : Place) (base : Disk) : Prop where
  wellFormed : d.WellFormed
  makes : Makes d (d.startOf destination) (segments destination) base target
  vacant : base.namesInside target = []

/-- Steps below a place without links end where they settle. -/
theorem Leads.place_eq_of_settle {e : Disk} {target place : Place} (plain : e.IsPlainBelow target)
    {left : Nat} {below names : List Name} {steps : List Step}
    (leads : Leads e .follow left (target ++ below) steps place)
    (settled : Step.settle below steps = some names) : place = target ++ names := by
  induction steps generalizing below with
  | nil =>
      cases leads
      cases settled
      rfl
  | cons step rest ih =>
      cases leads with
      | stay _ inner => exact ih inner settled
      | up _ inner =>
          rw [Step.settle] at settled
          split at settled
          · cases settled
          case isFalse ne =>
            rw [List.dropLast_append_of_ne_nil ne] at inner
            exact ih inner settled
      | enter _ _ _ inner =>
          rw [List.append_assoc] at inner
          exact ih inner settled
      | free _ _ create => cases create
      | keep _ _ keep => cases keep
      | link _ found _ _ _ =>
          rw [List.append_assoc] at found
          exact absurd found (plain _ _)

namespace FreshSite

variable {d e base : Disk} {destination : Text} {target : Place}
variable (site : d.FreshSite destination target base)

include site

/-- Nothing of the first disk stands below the directory. -/
theorem not_below {names : List Name} {node : Node} (found : d.find? (target ++ names) = some node)
    (other : node ≠ .directory) : False := by
  have there := site.makes.find?_of_find? found
  cases names with
  | nil =>
      rw [List.append_nil, site.makes.stands] at there
      exact other (Option.some.inj there).symm
  | cons name rest =>
      have free := namesInside_eq_nil_iff.mp site.vacant name
      have absent := (site.makes.wellFormed site.wellFormed).find?_append_eq_none free rest
      rw [List.append_assoc, List.singleton_append, there] at absent
      cases absent

theorem isPlainBelow (grows : d.Extends e) : e.IsPlainBelow target :=
  fun _ _ found => site.not_below (grows.link found) fun same => nomatch same

/-- A path behind the directory leads to where it settles. -/
theorem place_eq (grows : d.Extends e) {relative : Text} (ne : relative ≠ [])
    (head : relative.head? ≠ some '/') (last : relative.getLast? ≠ some '/') {place : Place}
    (led : e.resolve .follow (Path.append destination relative) = .ok place) {names : List Name}
    (settled : Step.settle [] (Step.ofSegments relative) = some names) :
    place = target ++ names := by
  have start : e.startOf (Path.append destination relative) = d.startOf destination := by
    rw [startOf, startFrom, Path.isAbsolute_append_of_relative (Path.isAbsolute_of_head_ne head),
      grows.keeps.working, startOf, startFrom]
  have behind : Step.ofSegments relative ≠ [] :=
    Step.ofPath_eq_ofSegments last ▸ Step.ofPath_ne_nil ne
  rw [resolve_eq (Path.append_ne_nil ne), start, Step.ofPath_append_relative ne head last] at led
  -- What is behind the destination is read in a directory, which is the one of the site.
  obtain ⟨here, left, walked, stands, leads⟩ := Leads.exists_of_append behind led
  obtain ⟨rfl, _⟩ := site.makes.unique grows walked stands
  exact (List.append_nil here ▸ leads).place_eq_of_settle (site.isPlainBelow grows) settled

/-- A file that is written behind the directory is written where its path settles. -/
theorem copyFile_eq (grows : d.Extends e) {source relative : Text}
    (head : relative.head? ≠ some '/') (last : relative.getLast? ≠ some '/') {names : List Name}
    (settled : Step.settle [] (Step.ofSegments relative) = some names) {f : Disk}
    (copied : e.copyFile source (Path.append destination relative) = .ok f) :
    ∃ place content, e.look .follow source = .ok (place, .file content) ∧
      f.find? (target ++ names) =
        some (.file (if target ++ names = place then .empty else content)) ∧
      f.resolve .follow (Path.append destination relative) = .ok (target ++ names) := by
  have grown := grows.trans (.copyFile grows.wellFormed copied)
  obtain ⟨place, content, written, led, writes, rfl⟩ := copyFile_eq_ok_iff.mp copied
  obtain ⟨_, found, later⟩ := spares_write grows.wellFormed writes
    (if written = place then .empty else content)
  have ne : relative ≠ [] := by
    rintro rfl
    exact writePlace_append_nil destination writes
  obtain rfl := site.place_eq grown ne head last later settled
  exact ⟨place, content, led, found, later⟩

end FreshSite

end Disk

end FileSelect

import FileSelect.Proofs.Disk.Removing
import FileSelect.Proofs.Disk.Walking
import FileSelect.Proofs.Path.Components
import FileSelect.Proofs.Scan.Algebra

/-!
# Whether entries that are found can be reached

A scan judges an entry by what stands in a directory, or by what a followed link leads to. So
the path that it gives for an entry leads somewhere, unless the entry is a link that was not
followed and leads nowhere. The path of a single file, taken apart and put together again, leads
to the file as before, though steps that stay may have been dropped from it.
-/

namespace FileSelect

namespace Disk

/-- At the end of the path there is a link, and it leads nowhere. -/
structure IsBrokenLink (d : Disk) (path : Text) : Prop where
  link : ∃ place target, d.look .keep path = .ok (place, .link target)
  broken : ∃ fault, d.look .follow path = .error fault

/-- The path leads somewhere, or to a broken link where links are not followed. -/
def Reaches (d : Disk) (followLinks : Bool) (path : Text) : Prop :=
  (∃ found, d.look .follow path = .ok found) ∨ followLinks = false ∧ d.IsBrokenLink path

variable {d : Disk} {followLinks : Bool}

/-! ## Entries of a listing -/

section Entries

variable {depth : Nat} {above : List Place} {path : Text} {here : Place} {front : List Name}
variable {s : Selected}

/-- An entry is one of the names, or inside of a directory that one of them opens. -/
theorem sight_of_mem_entries_listNames {names : List Name}
    (h : s ∈ (d.listNames followLinks depth above path here names).entries front) :
    ∃ name ∈ names,
      (d.sight followLinks above path here name ≠ .absent ∧ s.path = front ++ [name]) ∨
      ∃ place, d.sight followLinks above path here name = .directory place ∧
        s ∈ (d.listingTo followLinks depth (place :: above) (Path.append path name)
          place).entries (front ++ [name]) := by
  induction names with
  | nil => cases h
  | cons name rest ih =>
      rw [List.exists_mem_cons_iff]
      rw [listNames, List.foldr_cons] at h
      split at h
      case h_1 => exact .inr (ih h)
      case h_4 place sees =>
        rcases List.mem_cons.mp h with rfl | h
        · exact .inl (.inl ⟨by rw [sees]; exact Sight.noConfusion, rfl⟩)
        rcases List.mem_append.mp h with h | h
        · exact .inl (.inr ⟨place, sees, h⟩)
        · exact .inr (ih h)
      all_goals
        rename_i sees
        rcases List.mem_cons.mp h with rfl | h
        · exact .inl (.inl ⟨by rw [sees]; exact Sight.noConfusion, rfl⟩)
        · exact .inr (ih h)

/-- What is seen in a directory is reached from there. -/
theorem reaches_of_sight (wf : d.WellFormed) (into : d.LeadsInto path here) {name : Name}
    (inside : name ∈ d.namesInside here)
    (seen : d.sight followLinks above path here name ≠ .absent) :
    d.Reaches followLinks (Path.append path name) := by
  obtain ⟨node, found⟩ := exists_find?_of_mem_namesInside name inside
  have single : ([name] : List Name) ≠ [] := List.cons_ne_nil name []
  by_cases link : ∃ target, node = .link target
  · obtain ⟨target, rfl⟩ := link
    cases led : d.look .follow (Path.append path name) with
    | ok there => exact .inl ⟨there, led⟩
    | error fault =>
        cases followLinks with
        | true => simp [sight, found, led] at seen
        | false =>
            have named := (wf.find?_above found).1
            obtain ⟨left, eq⟩ := into.exists_resolve_append .keep single
              (List.forall_mem_singleton.mpr named.toIsName)
            have kept : trace d .keep left here ([name].map Step.ofSegment) =
                .ok (here ++ [name]) := by
              rw [List.map_singleton, named.ofSegment_eq]
              exact (Leads.keep into.stands found rfl).trace_eq
            exact .inr ⟨rfl, ⟨_, target, look_eq_ok_iff.mpr ⟨eq.trans kept, found⟩⟩, fault, led⟩
  · exact .inl ⟨_, into.look_append wf single found (not_exists.mp link)⟩

/-- By the levels: every directory that is opened is reached by the path to its entry. -/
theorem reaches_of_mem_entries_listingTo (wf : d.WellFormed) (into : d.LeadsInto path here)
    (h : s ∈ (d.listingTo followLinks depth above path here).entries front) :
    ∃ names, names ≠ [] ∧ (∀ name ∈ names, IsName name) ∧ s.path = front ++ names ∧
      d.Reaches followLinks (Path.append path (joinSegments names)) := by
  induction depth generalizing above path here front with
  | zero => cases h
  | succ depth ih =>
      rw [listingTo_succ] at h
      obtain ⟨name, inside, h⟩ := sight_of_mem_entries_listNames h
      have named : IsName name := by
        obtain ⟨_, found⟩ := exists_find?_of_mem_namesInside name inside
        exact (wf.find?_above found).1.toIsName
      rcases h with ⟨seen, eq⟩ | ⟨place, sees, h⟩
      · exact ⟨[name], List.cons_ne_nil _ _, List.forall_mem_singleton.mpr named, eq,
          reaches_of_sight wf into inside seen⟩
      · have opens := sight_eq_directory_iff.mp sees
        obtain ⟨names, ne, isName, eq, reaches⟩ := ih (opens.leadsInto into wf) h
        have all := List.forall_mem_cons.mpr ⟨named, isName⟩
        rw [Path.append_append path ne all] at reaches
        exact ⟨name :: names, List.cons_ne_nil _ _, all,
          eq.trans (List.append_assoc front [name] names), reaches⟩

theorem reaches_of_mem_entries_listing (wf : d.WellFormed) {root : Text}
    (h : s ∈ (d.listing followLinks root).entries []) :
    d.Reaches followLinks (Found.below root s).path := by
  rw [listing] at h
  split at h
  case h_1 place led =>
    obtain ⟨names, _, _, eq, reaches⟩ :=
      reaches_of_mem_entries_listingTo wf (leadsInto_of_look led) h
    rw [Found.path, Found.below, eq]
    exact reaches
  case h_2 => cases h

end Entries

/-! ## A single file -/

/-- A step that stays may be left out from between others. -/
theorem Leads.drop_stay {budget : Nat} {here place : Place} {front back : List Step}
    (leads : Leads d .follow budget here (front ++ .stay :: back) place) :
    Leads d .follow budget here (front ++ back) place := by
  -- A link puts steps in front, so the induction is over all of the steps.
  generalize whole : front ++ .stay :: back = steps at leads
  induction leads generalizing front with
  | done => exact absurd whole (List.append_ne_nil_of_right_ne_nil front (List.cons_ne_nil _ _))
  | stay stands inner ih =>
      cases front with
      | nil =>
          cases whole
          exact inner
      | cons step front =>
          cases whole
          exact .stay stands (ih rfl)
  | up stands _ ih =>
      cases front with
      | nil => cases whole
      | cons step front =>
          cases whole
          exact .up stands (ih rfl)
  | enter stands found plain _ ih =>
      cases front with
      | nil => cases whole
      | cons step front =>
          cases whole
          exact .enter stands found plain (ih rfl)
  | free _ _ create => cases create
  | keep _ _ keep => cases keep
  | @link _ here _ _ target _ stands found _ ne _ ih =>
      cases front with
      | nil => cases whole
      | cons step front =>
          cases whole
          have next := ih (List.append_assoc (Step.ofPath target) front (.stay :: back))
          rw [List.append_assoc] at next
          exact .link stands found (fun h => nomatch h.1) ne next

theorem Leads.drop_stays {budget : Nat} {here place : Place} {front stays back : List Step}
    (stay : ∀ step ∈ stays, step = .stay)
    (leads : Leads d .follow budget here (front ++ (stays ++ back)) place) :
    Leads d .follow budget here (front ++ back) place := by
  induction stays with
  | nil => exact leads
  | cons step rest ih =>
      obtain ⟨first, others⟩ := List.forall_mem_cons.mp stay
      subst first
      exact ih others leads.drop_stay

section SingleFile

variable {root : Text} {place : Place} {node : Node}
variable (wf : d.WellFormed) (led : d.look .follow root = .ok (place, node))
variable (other : node ≠ .directory)

include wf led other

/-- A path to something that is no directory ends in the name of an entry. -/
theorem exists_concat_of_look : ∃ parts name, segments root = parts ++ [name] ∧
    IsEntryName name ∧ Step.ofPath root = (parts ++ [name]).map Step.ofSegment := by
  obtain ⟨resolved, found⟩ := look_eq_ok_iff.mp led
  have elsewhere : d.find? place ≠ some .directory := fun stands =>
    other (Option.some.inj (found.symm.trans stands))
  have steps : Step.ofPath root = (segments root).map Step.ofSegment := by
    have noSlash : Text.endsWith ['/'] root ≠ true := fun slash =>
      other (directory_of_endsWith_slash led slash)
    rw [Step.ofPath, if_neg noSlash, List.append_nil]
  rcases List.eq_nil_or_concat' (segments root) with none | ⟨parts, name, read⟩
  · rw [none] at steps
    exact absurd steps (Step.ofPath_ne_nil (ne_nil_of_resolve resolved))
  have inside : name ∈ segments root := read ▸ List.mem_append_right parts List.mem_cons_self
  obtain ⟨above, left, more, stay, _, leads⟩ := exists_leads_concat read resolved
  have stands := leads.stands
  refine ⟨parts, name, read, ⟨isName_of_mem_segments inside, ?_, ?_⟩, read ▸ steps⟩
  · rintro rfl
    have here := leads.eq_of_stay (List.forall_mem_cons.mpr ⟨rfl, stay⟩)
    exact elsewhere (here ▸ stands)
  · rintro rfl
    cases leads with
    | up _ rest =>
        rw [rest.eq_of_stay stay] at elsewhere
        by_cases top : above = []
        · subst top
          exact elsewhere rfl
        · exact elsewhere (wf.find?_dropLast stands top)

/-- The file is found in its parent directory. -/
theorem singleFile_of_look : ∃ f, Query.singleFile root = [f] ∧ IsName f.relative ∧
    d.look .follow f.path = .ok (place, node) := by
  obtain ⟨parts, name, read, named, steps⟩ := exists_concat_of_look wf led other
  obtain ⟨resolved, found⟩ := look_eq_ok_iff.mp led
  obtain ⟨above, dots, parent, absolute, front, dotted, _⟩ := Path.exists_parent read named.here_ne
  have single : ([name] : List Name) ≠ [] := List.cons_ne_nil name []
  have isName : ∀ other ∈ [name], IsName other := List.forall_mem_singleton.mpr named.toIsName
  refine ⟨⟨above, name, false⟩, ?_, named.toIsName, ?_⟩
  · rw [Query.singleFile, Path.fileName?_of_segments read named.here_ne named.up_ne, parent]
    rfl
  refine look_eq_ok_iff.mpr ⟨?_, found⟩
  have start : d.startOf (Path.append above (joinSegments [name])) = d.startOf root := by
    rw [startOf_append d above isName, startOf, startFrom, absolute, startOf, startFrom]
  have stays : ∀ step ∈ dots.map Step.ofSegment, step = .stay := by
    refine List.forall_mem_map.mpr fun part inside => ?_
    rw [dotted part inside]
    rfl
  rw [resolve_eq (ne_nil_of_resolve resolved), steps, ← front, List.append_assoc,
    List.map_append, List.map_append] at resolved
  have leads := (leads_of_trace resolved).drop_stays stays
  rw [Found.path]
  refine (resolve_eq (append_joinSegments_ne_nil above single isName) .follow).trans ?_
  rw [start, Step.ofPath_append above single isName]
  exact leads.trace_eq

end SingleFile

end Disk

/-! ## What a query finds -/

namespace Query

/-- A query fails for patterns at a file, and otherwise for a pattern that is refused. -/
theorem ofPatterns_eq_error_iff {d : Disk} {root : Text} {patterns : List Text}
    {settings : Settings} {failure : Failure} :
    ofPatterns d root patterns settings = .error failure ↔
      if d.rootKind root = .file ∧ PatternSet.nonblank patterns ≠ [] then
        failure = .rootIsFile root (PatternSet.nonblank patterns)
      else PatternSet.refusal? patterns settings = some failure := by
  rw [ofPatterns]
  split
  · exact ⟨fun failed => (Except.error.inj failed).symm, fun eq => congrArg _ eq.symm⟩
  · rw [map_eq_error_iff, PatternSet.ofPatterns_nonblank, PatternSet.ofPatterns_eq_error_iff]

theorem scan_eq_error_iff {d : Disk} {root : Text} {patterns : List Text} {settings : Settings}
    {failure : Failure} :
    scan d root patterns settings = .error failure ↔
      if d.rootKind root = .file ∧ PatternSet.nonblank patterns ≠ [] then
        failure = .rootIsFile root (PatternSet.nonblank patterns)
      else PatternSet.refusal? patterns settings = some failure := by
  rw [scan, map_eq_error_iff, ofPatterns_eq_error_iff]

theorem kind_of_ofPatterns {d : Disk} {root : Text} {patterns : List Text} {settings : Settings}
    {q : Query} (compiled : ofPatterns d root patterns settings = .ok q) :
    q.kind = d.rootKind q.root := by
  rw [ofPatterns] at compiled
  split at compiled
  · cases compiled
  · obtain ⟨set, _, rfl⟩ := exists_of_map_ok compiled
    rfl

theorem kind_of_ofSpec {env : Environment} {d : Disk} {spec : Text} {settings : Settings}
    {q : Query} (compiled : ofSpec env d spec settings = .ok q) : q.kind = d.rootKind q.root := by
  rw [ofSpec] at compiled
  split at compiled
  · cases compiled
  · split at compiled
    · cases compiled
    · exact kind_of_ofPatterns compiled

/-- A scan of what is written in the short form. -/
def scanSpec (env : Environment) (d : Disk) (spec : Text) (settings : Settings) :
    Except Failure (List Found) :=
  (ofSpec env d spec settings).map fun q => q.run d settings.followLinks

/-- Whatever the root is, the relative path of an entry is trimmed and its path is reached. -/
theorem reaches_of_mem_run {d : Disk} (wf : d.WellFormed) {q : Query}
    (kind : q.kind = d.rootKind q.root) {followLinks : Bool} {f : Found}
    (inside : f ∈ q.run d followLinks) :
    Text.strip isSlash f.relative = f.relative ∧ d.Reaches followLinks f.path := by
  rw [run, kind, Disk.rootKind] at inside
  cases led : d.look .follow q.root with
  | error fault =>
      rw [led] at inside
      cases inside
  | ok there =>
      obtain ⟨place, node⟩ := there
      rw [led] at inside
      by_cases directory : node = .directory
      · subst directory
        replace inside : f ∈ q.found (d.listing followLinks q.root) := inside
        rw [found_eq_map_filter] at inside
        obtain ⟨s, kept, rfl⟩ := List.mem_map.mp inside
        have entry := (List.mem_filter.mp kept).1
        refine ⟨strip_joinSegments ?_, Disk.reaches_of_mem_entries_listing wf entry⟩
        exact Listing.isName_of_mem_entries (Disk.wellFormed_listing wf followLinks q.root)
          (List.forall_mem_nil IsName) entry
      · obtain ⟨g, single, named, reached⟩ := Disk.singleFile_of_look wf led directory
        have same : f ∈ singleFile q.root := by
          cases node with
          | directory => exact absurd rfl directory
          | file content => exact inside
          | link target => exact inside
        obtain rfl : f = g := by
          rw [single] at same
          exact List.mem_singleton.mp same
        have trimmed : Text.strip isSlash (joinSegments [f.relative]) = joinSegments [f.relative] :=
          strip_joinSegments (List.forall_mem_singleton.mpr named)
        exact ⟨trimmed, .inl ⟨_, reached⟩⟩

end Query

end FileSelect
